/-
# Binary search

The loop that halves the range `[low, high)` of a list whose keys increase.  It finds the entry
with the key it looks for exactly when there is one: `search_eq_some`.

The loop keeps that an entry with the key, if there is one at all, is in the range.  Where the
middle is below the key, everything up to it is too, since the keys increase, and so on the other
side.  What is found has the key because the loop compares it (`mem_of_search`), without any order;
that something is found needs the order (`search_of_mem`).
-/
import Mathlib

namespace BinarySearch

variable {α κ : Type*} [LinearOrder κ] {key : α → κ} {l : List α} {k : κ} {low high i : Nat} {x : α}

/-- The loop, from the range `[low, high)` on. -/
def search (key : α → κ) (l : List α) (k : κ) (low high : Nat) : Option α :=
  if low < high then
    match l[low + (high - low) / 2]? with
    | none => none
    | some x =>
      if key x < k then search key l k (low + (high - low) / 2 + 1) high
      else if k < key x then search key l k low (low + (high - low) / 2)
      else some x
  else none
termination_by high - low
decreasing_by all_goals omega

/-- What is found is there. -/
theorem mem_of_search (h : search key l k low high = some x) : x ∈ l ∧ key x = k := by
  fun_induction search key l k low high with
  | case1 => cases h
  | case2 low high _ y hy _ ih => exact ih h
  | case3 low high _ y hy _ _ ih => exact ih h
  | case4 low high _ y hy hlt hgt =>
    obtain rfl := Option.some.inj h
    exact ⟨List.mem_of_getElem? hy, le_antisymm (not_lt.mp hgt) (not_lt.mp hlt)⟩
  | case5 => cases h

/-- What is there and in the range is found. -/
theorem search_of_mem (hsorted : l.Pairwise fun x y => key x < key y) (hi : l[i]? = some x)
    (hk : key x = k) (hlow : low ≤ i) (hhigh : i < high) (hlen : high ≤ l.length) :
    search key l k low high = some x := by
  have hord : ∀ {a b : Nat} {y z : α}, l[a]? = some y → l[b]? = some z → a < b → key y < key z := by
    intro a b y z ha hb hab
    obtain ⟨hla, rfl⟩ := List.getElem?_eq_some_iff.mp ha
    obtain ⟨hlb, rfl⟩ := List.getElem?_eq_some_iff.mp hb
    exact List.pairwise_iff_getElem.mp hsorted a b hla hlb hab
  fun_induction search key l k low high with
  | case1 low high hlt hnone =>
    rw [List.getElem?_eq_none_iff] at hnone
    omega
  | case2 low high _ y hy hlt ih =>
    refine ih ?_ hhigh hlen
    by_contra hle
    rcases Nat.lt_or_eq_of_le (Nat.le_of_not_lt hle) with hia | hia
    · exact lt_asymm hlt (hk ▸ hord hi hy (by omega))
    · rw [hia] at hi
      obtain rfl := Option.some.inj (hi.symm.trans hy)
      exact absurd (hk ▸ hlt) (lt_irrefl _)
  | case3 low high _ y hy _ hgt ih =>
    refine ih hlow ?_ (by omega)
    by_contra hle
    rcases Nat.lt_or_eq_of_le (Nat.le_of_not_lt hle) with hia | hia
    · exact lt_asymm hgt (hk ▸ hord hy hi hia)
    · rw [← hia] at hi
      obtain rfl := Option.some.inj (hi.symm.trans hy)
      exact absurd (hk ▸ hgt) (lt_irrefl _)
  | case4 low high _ y hy hlt hgt =>
    have hkey : key y = k := le_antisymm (not_lt.mp hgt) (not_lt.mp hlt)
    rcases Nat.lt_trichotomy i (low + (high - low) / 2) with hia | hia | hia
    · exact absurd ((hord hi hy hia).trans_eq hkey) (hk ▸ lt_irrefl _)
    · rw [← hia] at hy
      exact hy.symm.trans hi
    · exact absurd ((hord hy hi hia).trans_eq hk) (hkey ▸ lt_irrefl _)
  | case5 low high hnot => omega

/-- **Binary search finds what is there.** -/
theorem search_eq_some (hsorted : l.Pairwise fun x y => key x < key y) :
    search key l k 0 l.length = some x ↔ x ∈ l ∧ key x = k := by
  refine ⟨mem_of_search, fun ⟨hx, hk⟩ => ?_⟩
  obtain ⟨i, hi⟩ := List.mem_iff_getElem?.mp hx
  exact search_of_mem hsorted hi hk (Nat.zero_le i) (List.getElem?_eq_some_iff.mp hi).1 le_rfl

end BinarySearch
