/-
# Numbers as little-endian bytes

Fixed-width fields written one after the other, and read back at their offset.  A field that was
written at an offset is read there (`readAt_here`), and reading past what comes before it does
not see it (`readAt_skip`, `readAt_next`).

`toBytes w n` is the number `n` in `w` bytes, the lowest first, and `ofBytes` reads such bytes.
They undo each other on the numbers that fit (`ofBytes_toBytes`) and on the lists of that length
(`toBytes_ofBytes`).  A record is a list of such fields put together with `++`, and `readAt` reads a
field at its offset; the lemmas about it are made so that `simp` walks over the fields before the
one that is read.
-/
import Mathlib

namespace Bytes

/-- The `w` bytes of `n`, the lowest first. -/
def toBytes : Nat → Nat → List UInt8
  | 0, _ => []
  | w + 1, n => UInt8.ofNat n :: toBytes w (n / 256)

/-- The number with these bytes. -/
def ofBytes : List UInt8 → Nat
  | [] => 0
  | b :: bs => b.toNat + 256 * ofBytes bs

/-- The number in the `w` bytes at an offset. -/
def readAt (offset w : Nat) (bytes : List UInt8) : Nat := ofBytes ((bytes.drop offset).take w)

variable {w n offset : Nat} {l l' : List UInt8}

@[simp] theorem length_toBytes (w n : Nat) : (toBytes w n).length = w := by
  induction w generalizing n with
  | zero => rfl
  | succ w ih => rw [toBytes, List.length_cons, ih]

/-- A number comes back from its bytes, as far as it fits. -/
theorem ofBytes_toBytes (w n : Nat) : ofBytes (toBytes w n) = n % 256 ^ w := by
  induction w generalizing n with
  | zero => rw [toBytes, ofBytes, pow_zero, Nat.mod_one]
  | succ w ih =>
    have hbyte : (UInt8.ofNat n).toNat = n % 256 := UInt8.toNat_ofNat'
    rw [toBytes, ofBytes, ih, hbyte, pow_succ']
    exact Nat.mod_mul.symm

theorem ofBytes_lt (l : List UInt8) : ofBytes l < 256 ^ l.length := by
  induction l with
  | nil => exact Nat.one_pos
  | cons b l ih =>
    have hb := b.toNat_lt
    rw [ofBytes, List.length_cons, pow_succ']
    omega

/-- Bytes are read back from their number. -/
theorem toBytes_ofBytes (l : List UInt8) : toBytes l.length (ofBytes l) = l := by
  induction l with
  | nil => rfl
  | cons b l ih =>
    have hb := b.toNat_lt
    have hdiv : (b.toNat + 256 * ofBytes l) / 256 = ofBytes l := by omega
    have hbyte : UInt8.ofNat (b.toNat + 256 * ofBytes l) = b := by
      apply UInt8.toNat_inj.mp
      rw [UInt8.toNat_ofNat']
      omega
    rw [ofBytes, List.length_cons, toBytes, hdiv, ih, hbyte]

/-- What was written first is read first. -/
theorem readAt_here (h : n < 256 ^ w) : readAt 0 w (toBytes w n ++ l) = n := by
  have htake : (toBytes w n ++ l).take w = toBytes w n := by
    rw [List.take_append_of_le_length (Nat.le_of_eq (length_toBytes w n).symm)]
    exact List.take_of_length_le (Nat.le_of_eq (length_toBytes w n))
  rw [readAt, List.drop_zero, htake, ofBytes_toBytes, Nat.mod_eq_of_lt h]

theorem readAt_last (h : n < 256 ^ w) : readAt 0 w (toBytes w n) = n := by
  have := readAt_here (l := []) h
  rwa [List.append_nil] at this

/-- Reading behind a block reads what follows it. -/
theorem readAt_skip (h : l.length ≤ offset) :
    readAt offset w (l ++ l') = readAt (offset - l.length) w l' := by
  rw [readAt, readAt, List.drop_append, List.drop_of_length_le h, List.nil_append]

/-- Reading behind a number reads what follows it. -/
theorem readAt_next {v : Nat} (h : v ≤ offset) :
    readAt offset w (toBytes v n ++ l) = readAt (offset - v) w l := by
  have hlen : (toBytes v n).length ≤ offset := by rwa [length_toBytes]
  rw [readAt_skip hlen, length_toBytes]

end Bytes
