/-
# Maps as lists in the order of their keys

A map with an ordered key type is the list of its pairs, the keys strictly increasing (`Ordered`).
Storing under a key puts the pair in its place, so that a key above every other comes last
(`insert_above`); storing the pairs of a map one after the other gives the map back
(`insertAll_ordered`).

`insert` walks to the first pair whose key is not smaller.  In a map that is filled from the
smallest key upwards it walks to the end each time, so the list is built in the order in which the
pairs come (`insertAll_above`).  A writer that goes through a map in its order, and a reader that
stores what it reads, therefore give the same list back.
-/
import Mathlib

namespace OrderedMap

variable {κ ν : Type*} [LinearOrder κ]

/-- The keys are strictly increasing. -/
def Ordered (m : List (κ × ν)) : Prop := m.Pairwise fun p q => p.1 < q.1

/-- Stores a value under a key, in the place of the one that is there. -/
def insert (k : κ) (v : ν) : List (κ × ν) → List (κ × ν)
  | [] => [(k, v)]
  | p :: m => if k < p.1 then (k, v) :: p :: m else if k = p.1 then (k, v) :: m
      else p :: insert k v m

/-- The value under a key. -/
def find (k : κ) : List (κ × ν) → Option ν
  | [] => none
  | p :: m => if p.1 = k then some p.2 else find k m

variable {m acc : List (κ × ν)} {k : κ} {v : ν} {p : κ × ν}

/-- What is in the map after a pair is stored. -/
theorem mem_insert (h : p ∈ insert k v m) : p = (k, v) ∨ p ∈ m := by
  induction m with
  | nil => exact .inl (List.mem_singleton.mp h)
  | cons q m ih =>
    rw [insert] at h
    split_ifs at h with hlt heq
    · exact List.mem_cons.mp h
    · exact (List.mem_cons.mp h).imp_right fun h => List.mem_cons_of_mem _ h
    · rcases List.mem_cons.mp h with rfl | h
      · exact .inr List.mem_cons_self
      · exact (ih h).imp_right fun h => List.mem_cons_of_mem _ h

/-- A key above every other is stored last. -/
theorem insert_above (h : ∀ p ∈ m, p.1 < k) : insert k v m = m ++ [(k, v)] := by
  induction m with
  | nil => rfl
  | cons q m ih =>
    have hq : q.1 < k := h q List.mem_cons_self
    rw [insert, if_neg hq.not_gt, if_neg hq.ne', ih fun p hp => h p (List.mem_cons_of_mem _ hp),
      List.cons_append]

/-- Stores the pairs of a list one after the other. -/
def insertAll (acc m : List (κ × ν)) : List (κ × ν) := m.foldl (fun acc p => insert p.1 p.2 acc) acc

theorem mem_insertAll (h : p ∈ insertAll acc m) : p ∈ acc ∨ p ∈ m := by
  induction m generalizing acc with
  | nil => exact .inl h
  | cons q m ih =>
    rcases ih h with h | h
    · rcases mem_insert h with rfl | h
      · exact .inr List.mem_cons_self
      · exact .inl h
    · exact .inr (List.mem_cons_of_mem _ h)

/-- Pairs with keys above every other are stored in their order. -/
theorem insertAll_above (h : Ordered (acc ++ m)) : insertAll acc m = acc ++ m := by
  induction m generalizing acc with
  | nil => exact (List.append_nil acc).symm
  | cons p m ih =>
    have habove : ∀ q ∈ acc, q.1 < p.1 := fun q hq =>
      (List.pairwise_append.mp h).2.2 q hq p List.mem_cons_self
    have hstep : insertAll acc (p :: m) = insertAll (acc ++ [p]) m := by
      rw [insertAll, List.foldl_cons, insert_above habove]
      rfl
    rw [hstep, ih (by rwa [List.append_assoc]), List.append_assoc]
    rfl

/-- **Storing the pairs of a map one after the other gives the map back.** -/
theorem insertAll_ordered (h : Ordered m) : insertAll [] m = m := insertAll_above h

end OrderedMap
