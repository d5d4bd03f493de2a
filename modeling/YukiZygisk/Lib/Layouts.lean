/-
# Records of a fixed size

A LAYOUT writes the values of a type as records of one size and reads them back.  Layouts are put
together from those of the fields: a number, an array, a gap, one layout behind another.

Records that stand one behind the other are read as long as there are enough bytes (`records`).
What was written so is read back, whatever follows it (`records_puts`).

A `Layout` carries the two facts that make it one: what it puts has the size, and what it has put is
read back.  They are proved once for each way of putting layouts together, so a record of a dozen
fields is a layout by its construction.  `records` reads one record after the other, and stops at a
rest that is too short; that it gives back what was put is an induction on the values.
-/
import YukiZygisk.Lib.Bytes

namespace Bytes

/-! ## 1. Layouts -/

/-- A way to write values of `α` in `size` bytes. -/
structure Layout (α : Type) where
  size : ℕ
  put : α → List UInt8
  get : List UInt8 → α
  length_put : ∀ a, (put a).length = size
  get_put : ∀ a rest, get (put a ++ rest) = a

/-- `n` values, one behind the other. -/
structure FixedArray (α : Type) (n : ℕ) where
  toList : List α
  length_eq : toList.length = n
  deriving DecidableEq

/-- The first `n` bytes, with zeros where there are none. -/
def FixedArray.ofBytes (n : ℕ) (bytes : List UInt8) : FixedArray UInt8 n where
  toList := (bytes ++ List.replicate n 0).take n
  length_eq := by
    rw [List.length_take, List.length_append, List.length_replicate]
    omega

namespace Layout

variable {α β : Type}

/-- One byte. -/
def u8 : Layout UInt8 where
  size := 1
  put b := [b]
  get bytes := bytes.headD 0
  length_put _ := rfl
  get_put _ _ := rfl

/-- A number of two bytes. -/
def u16 : Layout UInt16 where
  size := 2
  put n := toBytes 2 n.toNat
  get bytes := UInt16.ofNat (readAt 0 2 bytes)
  length_put n := length_toBytes 2 n.toNat
  get_put n rest := by
    rw [readAt_here (w := 2) n.toNat_lt, UInt16.ofNat_toNat]

/-- A number of four bytes. -/
def u32 : Layout UInt32 where
  size := 4
  put n := toBytes 4 n.toNat
  get bytes := UInt32.ofNat (readAt 0 4 bytes)
  length_put n := length_toBytes 4 n.toNat
  get_put n rest := by
    rw [readAt_here (w := 4) n.toNat_lt, UInt32.ofNat_toNat]

/-- Bytes that mean nothing. -/
def gap (n : ℕ) : Layout Unit where
  size := n
  put _ := List.replicate n 0
  get _ := ()
  length_put _ := List.length_replicate
  get_put _ _ := rfl

/-- An array of bytes. -/
def array (n : ℕ) : Layout (FixedArray UInt8 n) where
  size := n
  put a := a.toList
  get := FixedArray.ofBytes n
  length_put a := a.length_eq
  get_put a rest := by
    obtain ⟨l, hl⟩ := a
    have hfirst : (l ++ rest ++ List.replicate n 0).take n = l := by
      rw [List.append_assoc, ← hl, List.take_left]
    simp only [FixedArray.ofBytes, hfirst]

/-- One layout behind another. -/
def seq (A : Layout α) (B : Layout β) : Layout (α × β) where
  size := A.size + B.size
  put p := A.put p.1 ++ B.put p.2
  get bytes := (A.get bytes, B.get (bytes.drop A.size))
  length_put p := by rw [List.length_append, A.length_put, B.length_put]
  get_put p rest := by
    have hdrop : (A.put p.1 ++ (B.put p.2 ++ rest)).drop A.size = B.put p.2 ++ rest := by
      rw [← A.length_put p.1, List.drop_left]
    rw [List.append_assoc, A.get_put, hdrop, B.get_put]

/-- The values of another type. -/
def iso (A : Layout α) (toFields : β → α) (ofFields : α → β)
    (h : ∀ b, ofFields (toFields b) = b) : Layout β where
  size := A.size
  put b := A.put (toFields b)
  get bytes := ofFields (A.get bytes)
  length_put b := A.length_put (toFields b)
  get_put b rest := by rw [A.get_put, h]

/-! ## 2. Reading records -/

variable (A : Layout α)

/-- The next record and what follows it, when there are enough bytes. -/
def read (bytes : List UInt8) : Option (α × List UInt8) :=
  if A.size ≤ bytes.length then some (A.get bytes, bytes.drop A.size) else none

/-- At most `n` records, as far as the bytes go. -/
def records : ℕ → List UInt8 → List α
  | 0, _ => []
  | n + 1, bytes =>
    match A.read bytes with
    | none => []
    | some (a, rest) => a :: records n rest

/-- A value is read back, whatever follows it. -/
theorem read_put (a : α) (rest : List UInt8) : A.read (A.put a ++ rest) = some (a, rest) := by
  have hle : A.size ≤ (A.put a ++ rest).length := by
    rw [List.length_append, A.length_put]
    exact Nat.le_add_right _ _
  have hdrop : (A.put a ++ rest).drop A.size = rest := by rw [← A.length_put a, List.drop_left]
  rw [read, if_pos hle, A.get_put, hdrop]

/-- **Records that were written are read back.** -/
theorem records_puts (l : List α) (rest : List UInt8) :
    A.records l.length (l.flatMap A.put ++ rest) = l := by
  induction l with
  | nil => rfl
  | cons a l ih =>
    rw [List.length_cons, List.flatMap_cons, List.append_assoc, records, read_put]
    exact congrArg (a :: ·) ih

/-- When nothing follows, it does no harm to ask for more. -/
theorem records_puts_all {l : List α} {n : ℕ} (hsize : 0 < A.size) (hn : l.length ≤ n) :
    A.records n (l.flatMap A.put) = l := by
  induction l generalizing n with
  | nil =>
    cases n with
    | zero => rfl
    | succ n =>
      have hnone : A.read [] = none := if_neg (Nat.not_le.mpr hsize)
      rw [List.flatMap_nil, records, hnone]
  | cons a l ih =>
    obtain ⟨n, rfl⟩ := Nat.exists_eq_add_of_lt (Nat.lt_of_lt_of_le (Nat.zero_lt_succ l.length) hn)
    rw [List.length_cons] at hn
    rw [List.flatMap_cons, Nat.zero_add, records, read_put]
    exact congrArg (a :: ·) (ih (by omega))

end Layout

end Bytes
