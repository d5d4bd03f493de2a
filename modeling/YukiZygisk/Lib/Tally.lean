/-
# Tallies over the cells of a list

A tally is `(l.map f).sum`: what the cells of a list count together.  The two edits a store
of cells makes, appending one and replacing one, move a tally by what the cell counts.

Most uses count what parties hold of some resource, so a store that changes one cell at a time
changes its tallies by what the cell counted before and after (`tally_set`).  The last section
compares two tallies: what cells count is at most what the names of these cells count
(`tally_le_of_named`), and what a tally counts can be shared out among the cells so that each is
given what it counts (`exists_owner`).
-/
import Mathlib

namespace Tally

variable {α : Type*}

/-- What the cells of `l` count together. -/
def tally (f : α → Nat) (l : List α) : Nat := (l.map f).sum

@[simp] theorem tally_nil (f : α → Nat) : tally f [] = 0 := rfl

@[simp] theorem tally_cons (f : α → Nat) (x : α) (l : List α) :
    tally f (x :: l) = f x + tally f l := by
  simp [tally]

@[simp] theorem tally_append (f : α → Nat) (l l' : List α) :
    tally f (l ++ l') = tally f l + tally f l' := by
  simp [tally]

/-- Replacing a cell moves the tally by the difference of the two cells. -/
theorem tally_set (f : α → Nat) {l : List α} {i : Nat} {x : α} (h : l[i]? = some x) (y : α) :
    tally f (l.set i y) + f x = tally f l + f y := by
  induction l generalizing i with
  | nil => simp at h
  | cons a l ih =>
    cases i with
    | zero =>
      obtain rfl : a = x := by simpa using h
      simp only [List.set_cons_zero, tally_cons]
      omega
    | succ i =>
      have := ih (i := i) (by simpa using h)
      simp only [List.set_cons_succ, tally_cons]
      omega

/-- A cell counts at most the tally. -/
theorem le_tally (f : α → Nat) {l : List α} {x : α} (h : x ∈ l) : f x ≤ tally f l :=
  List.single_le_sum (fun _ _ => Nat.zero_le _) _ (List.mem_map_of_mem h)

theorem tally_eq_zero {f : α → Nat} {l : List α} (h : ∀ x ∈ l, f x = 0) : tally f l = 0 :=
  List.sum_eq_zero fun _ hn => by
    obtain ⟨x, hx, rfl⟩ := List.mem_map.mp hn
    exact h x hx

/-! ## Who counts what -/

theorem tally_eq_sum (f : α → Nat) (l : List α) : tally f l = ∑ j : Fin l.length, f l[j] := by
  induction l with
  | nil => simp
  | cons x l ih =>
    rw [tally_cons, ih]
    exact (Fin.sum_univ_succ fun j : Fin (l.length + 1) => f (x :: l)[j]).symm

/-- **What a tally counts can be shared out among the cells**: each thing to one cell, and to
no cell more than it counts. -/
theorem exists_owner {f : α → Nat} {l : List α} {n : Nat} (h : n ≤ tally f l) :
    ∃ owner : Fin n → Fin l.length,
      ∀ j, Fintype.card {r // owner r = j} ≤ f l[j] := by
  rw [tally_eq_sum] at h
  let place : Fin n → (j : Fin l.length) × Fin (f l[j]) :=
    fun r => finSigmaFinEquiv.symm (Fin.castLE h r)
  have hplace : Function.Injective place :=
    finSigmaFinEquiv.symm.injective.comp (Fin.castLE_injective h)
  refine ⟨fun r => (place r).1, ?_⟩
  intro j
  let fiber : {r // (place r).1 = j} → {x : (j : Fin l.length) × Fin (f l[j]) // x.1 = j} :=
    fun r => ⟨place r, r.2⟩
  have hinj : Function.Injective fiber := by
    intro r q heq
    exact Subtype.ext (hplace (congrArg Subtype.val heq))
  have hcard := Fintype.card_le_of_injective _ hinj
  rwa [Fintype.card_congr (Equiv.sigmaSubtype j), Fintype.card_fin] at hcard

/-- Each cell once counts no more than all of them. -/
theorem sum_toFinset_le {β : Type*} [DecidableEq β] (g : β → Nat) (l : List β) :
    ∑ m ∈ l.toFinset, g m ≤ tally g l := by
  rw [tally, Finset.sum_list_map_count]
  refine Finset.sum_le_sum fun m hm => Nat.le_mul_of_pos_left _ ?_
  exact List.count_pos_iff.mpr (List.mem_toFinset.mp hm)

/-- What named cells count, their names count as well. -/
theorem tally_le_of_named {f : α → Nat} {g : Option Nat → Nat} {l : List α}
    {names : List (Option Nat)}
    (h : ∀ i x, l[i]? = some x → f x ≠ 0 → some i ∈ names ∧ f x ≤ g (some i)) :
    tally f l ≤ tally g names := by
  have hcell : ∀ j : Fin l.length, f l[j] ≠ 0 →
      some (j : Nat) ∈ names ∧ f l[j] ≤ g (some j) :=
    fun j => h j l[j] (List.getElem?_eq_getElem j.2)
  let named : Finset (Fin l.length) := Finset.univ.filter fun j => f l[j] ≠ 0
  calc tally f l = ∑ j : Fin l.length, f l[j] := tally_eq_sum f l
    _ = ∑ j ∈ named, f l[j] := (Finset.sum_filter_ne_zero _).symm
    _ ≤ ∑ j ∈ named, g (some (j : Nat)) :=
        Finset.sum_le_sum fun j hj => (hcell j (Finset.mem_filter.mp hj).2).2
    _ = ∑ m ∈ named.image (fun j : Fin l.length => some (j : Nat)), g m := by
        rw [Finset.sum_image]
        intro j _ k _ hjk
        exact Fin.ext (Option.some.inj hjk)
    _ ≤ ∑ m ∈ names.toFinset, g m := by
        refine Finset.sum_le_sum_of_subset ?_
        intro m hm
        obtain ⟨j, hj, rfl⟩ := Finset.mem_image.mp hm
        exact List.mem_toFinset.mpr (hcell j (Finset.mem_filter.mp hj).2).1
    _ ≤ tally g names := sum_toFinset_le g names

end Tally
