/-
# Encoding diagrams

A diagram of an instruction encoding is written as in an architecture manual, the highest bit first,
with `0`, `1` and `x` for a bit that is not fixed.  A word matches it when the fixed bits are as
they are in the diagram, which is one test under a mask.

What two diagrams have to do with each other is a matter of the diagrams alone: they can clash
(`Matches.not_of_clash`), or one refines the other (`Matches.of_refines`).

A diagram gives a mask and a value, and `Matches` is the test of the value under the mask, so that
matching can be decided, by the kernel too, without going through the bits.  Two diagrams clash when
some bit is fixed in both, differently.  One refines another when it fixes all its bits, and in the
same way.  Both are decided by comparing the diagrams bit for bit, and what a classifier made of
masks and values has to do with the diagrams of a manual comes down to these two relations, for all
words at once.
-/
import Mathlib

namespace Encodings

abbrev Diagram := List Char

/-- The bits that a diagram fixes. -/
def mask (p : Diagram) : ℕ := p.foldl (fun n c => 2 * n + if c = 'x' then 0 else 1) 0

/-- What it fixes them to. -/
def value (p : Diagram) : ℕ := p.foldl (fun n c => 2 * n + if c = '1' then 1 else 0) 0

/-- A word has the bits of a diagram. -/
def Matches (p : Diagram) (n : ℕ) : Prop := n &&& mask p = value p

/-- Two diagrams fix a common bit in different ways. -/
def Clash (p q : Diagram) : Prop := value p &&& mask q ≠ value q &&& mask p

/-- A diagram fixes the bits of another one, and to the same. -/
def Refines (p q : Diagram) : Prop := mask p &&& mask q = mask q ∧ value p &&& mask q = value q

instance (p : Diagram) (n : ℕ) : Decidable (Matches p n) := inferInstanceAs (Decidable (_ = _))

instance (p q : Diagram) : Decidable (Clash p q) := inferInstanceAs (Decidable (_ ≠ _))

instance (p q : Diagram) : Decidable (Refines p q) := inferInstanceAs (Decidable (_ ∧ _))

variable {p q : Diagram} {n m v k : ℕ}

/-- Diagrams that clash match no word together. -/
theorem Matches.not_of_clash (h : Matches p n) (ha : Clash p q) : ¬ Matches q n := by
  intro hq
  refine ha ?_
  calc value p &&& mask q = n &&& mask p &&& mask q := by rw [h]
    _ = n &&& mask q &&& mask p := Nat.and_right_comm ..
    _ = value q &&& mask p := by rw [hq]

/-- A word that matches the finer diagram matches the coarser one. -/
theorem Matches.of_refines (h : Matches p n) (hr : Refines p q) : Matches q n := by
  calc n &&& mask q = n &&& (mask p &&& mask q) := by rw [hr.1]
    _ = n &&& mask p &&& mask q := (Nat.land_assoc ..).symm
    _ = value p &&& mask q := by rw [h]
    _ = value q := hr.2

/-- A field of a word, as a test under a mask. -/
theorem shiftRight_and_eq : (n >>> k) &&& m = v ↔ n &&& (m <<< k) = v <<< k := by
  have hfield : n &&& (m <<< k) = ((n >>> k) &&& m) <<< k := by
    refine Nat.eq_of_testBit_eq ?_
    intro i
    simp only [Nat.testBit_and, Nat.testBit_shiftLeft, Nat.testBit_shiftRight]
    by_cases hi : k ≤ i
    · simp [hi]
    · simp [hi]
  rw [hfield]
  constructor
  · rintro rfl
    rfl
  · intro h
    have := congrArg (· >>> k) h
    simpa [Nat.shiftLeft_shiftRight] using this

end Encodings
