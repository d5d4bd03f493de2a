/-
# Tables keyed by a number

A fixed array of slots, each with a key, where key 0 marks a free slot.  A lookup takes the first
slot with the key; `Distinct` says that no other slot has it.  `Apart` is the same for a relation
between the entries of two slots in place of a key.

The tables are lists of a fixed length, and an entry is replaced with `List.set`.  `Distinct.set`
says when that keeps the keys apart: the new key is not that of another slot.  From it follows that
a lookup after the change finds what it should (`slotOf_isSome_set`).  `first_some` is the same for
a lookup by a test, of which the first slot that meets it is taken.
-/
import Mathlib

namespace Keyed

variable {α : Type*} {key : α → Nat} {l : List α} {k i : Nat}

/-- The first slot with this key. -/
def slotOf (key : α → Nat) (l : List α) (k : Nat) : Option Nat := l.findIdx? fun c => key c = k

theorem slotOf_some (h : slotOf key l k = some i) : ∃ c, l[i]? = some c ∧ key c = k := by
  obtain ⟨hi, hp, -⟩ := List.findIdx?_eq_some_iff_getElem.mp h
  exact ⟨_, List.getElem?_eq_getElem hi, of_decide_eq_true hp⟩

/-- A lookup that fails has seen every slot. -/
theorem slotOf_none (h : slotOf key l k = none) : ∀ c ∈ l, key c ≠ k := by
  intro c hc
  have := List.findIdx?_eq_none_iff.mp h c hc
  simpa using this

/-- A lookup finds something exactly when some slot has the key. -/
theorem slotOf_isSome : (slotOf key l k).isSome ↔ ∃ c ∈ l, key c = k := by
  simp [slotOf]

/-- Replacing a slot of another key leaves a key its slot. -/
theorem slotOf_isSome_set {c d : α} (hc : l[i]? = some c) (hne : key c ≠ k)
    (h : (slotOf key l k).isSome) : (slotOf key (l.set i d) k).isSome := by
  rw [slotOf_isSome] at h ⊢
  obtain ⟨x, hx, hk⟩ := h
  obtain ⟨j, hj⟩ := List.mem_iff_getElem?.mp hx
  have hij : i ≠ j := by
    rintro rfl
    obtain rfl := Option.some.inj (hc.symm.trans hj)
    exact hne hk
  exact ⟨x, List.mem_of_getElem? ((List.getElem?_set_ne hij).trans hj), hk⟩

/-- No key but 0 has two slots. -/
def Distinct (key : α → Nat) (l : List α) : Prop :=
  ∀ (i j : Nat) (c d : α), l[i]? = some c → l[j]? = some d → key c ≠ 0 → key c = key d → i = j

/-- One slot of the table is replaced. -/
theorem Distinct.set (hd : Distinct key l) {c : α}
    (h : key c = 0 ∨ ∀ (j : Nat) (d : α), j ≠ i → l[j]? = some d → key d ≠ key c) :
    Distinct key (l.set i c) := by
  intro j k x y hx hy hne heq
  rw [List.getElem?_set] at hx hy
  split_ifs at hx hy with h1 h2 h3 h4 h5
  · exact h1.symm.trans h3
  · obtain rfl := Option.some.inj hx
    rcases h with h0 | h
    · exact absurd h0 hne
    · exact absurd heq.symm (h k y (Ne.symm h3) hy)
  · obtain rfl := Option.some.inj hy
    rcases h with h0 | h
    · exact absurd (heq.trans h0) hne
    · exact absurd heq (h j x (Ne.symm h1) hx)
  · exact hd j k x y hx hy hne heq

/-- No two slots clash. -/
def Apart (clash : α → α → Prop) (l : List α) : Prop :=
  ∀ (i j : Nat) (c d : α), l[i]? = some c → l[j]? = some d → i ≠ j → ¬ clash c d

/-- One slot of the table is replaced. -/
theorem Apart.set {clash : α → α → Prop} (hsymm : ∀ c d, clash c d → clash d c)
    (ha : Apart clash l) {c : α} (h : ∀ (j : Nat) (d : α), l[j]? = some d → j ≠ i → ¬ clash c d) :
    Apart clash (l.set i c) := by
  intro j k x y hx hy hne hclash
  rw [List.getElem?_set] at hx hy
  split_ifs at hx hy with h1 h2 h3 h4 h5
  · exact hne (h1.symm.trans h3)
  · obtain rfl := Option.some.inj hx
    exact h k y hy (Ne.symm h3) hclash
  · obtain rfl := Option.some.inj hy
    exact h j x hx (Ne.symm h1) (hsymm _ _ hclash)
  · exact ha j k x y hx hy hne hclash

/-- What a search for the first slot finds. -/
theorem first_some {p : α → Bool} (h : l.findIdx? p = some i) :
    ∃ c, l[i]? = some c ∧ p c = true := by
  obtain ⟨hi, hp, -⟩ := List.findIdx?_eq_some_iff_getElem.mp h
  exact ⟨_, List.getElem?_eq_getElem hi, hp⟩

/-- A search that fails has seen every slot. -/
theorem first_none {p : α → Bool} (h : l.findIdx? p = none) {c : α} (hc : l[i]? = some c) :
    p c = false :=
  List.findIdx?_eq_none_iff.mp h c (List.mem_of_getElem? hc)

end Keyed
