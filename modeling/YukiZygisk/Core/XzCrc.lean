/-
# The check of embedded debug data (`userspace/zygisk/core/src/yukizncore.cpp`)

`xz_crc32` is handed to the vendored decompressor, which checks a block piece by piece.  It goes on
where it stopped, whatever the pieces (`xzCrc32_append`), and from zero it is the CRC-32 of the
standard: the complement of what the division of the message, behind 32 ones, by the generator
leaves, in reflected order (`crc32`).

The loop goes bit by bit, as `Lib/Crc` describes it, on a register that is complemented before and
after.  Its bits come in the order of the bytes, the lowest of each first, and the register is
reflected, so the polynomial of the message has the first bit as its highest coefficient.  The
initial value of all ones is the polynomial of 32 ones in front of the message (`ofRegister_ones`).
That a check can be continued is the same fact twice: the complement at the end of one piece is
undone at the start of the next.
-/
import Mathlib.Data.UInt
import YukiZygisk.Lib.Crc

namespace YukiZygisk.XzCrc

open Polynomial Crc

/-! ## 1. `xz_crc32` -/

/-- The loop over the bits of a byte, one turn. -/
def crcBit (crc : UInt32) : UInt32 := (crc >>> 1) ^^^ (0xedb88320 &&& (0 - (crc &&& 1)))

/-- One byte. -/
def crcByte (crc : UInt32) (byte : UInt8) : UInt32 := crcBit^[8] (crc ^^^ byte.toUInt32)

/-- `xz_crc32`. -/
def xzCrc32 (buf : List UInt8) (crc : UInt32) : UInt32 := ~~~ (buf.foldl crcByte (~~~ crc))

/-- The check value of the standard, of "123456789". -/
example : xzCrc32 [49, 50, 51, 52, 53, 54, 55, 56, 57] 0 = 0xcbf43926 := by
  decide +kernel

/-! ## 2. The check of the standard -/

/-- The generator of CRC-32. -/
noncomputable def crc32Generator : (ZMod 2)[X] :=
  X ^ 32 + (X ^ 26 + X ^ 23 + X ^ 22 + X ^ 16 + X ^ 12 + X ^ 11 + X ^ 10 + X ^ 8 + X ^ 7 + X ^ 5 +
    X ^ 4 + X ^ 2 + X + 1)

/-- The bits of a message, the lowest bit of each byte first. -/
def messageBits (buf : List UInt8) : List Bool :=
  buf.flatMap fun byte => (List.range 8).map fun i => byte.toBitVec.getLsbD i

/-- CRC-32. -/
noncomputable def crc32 (buf : List UInt8) : UInt32 :=
  ⟨~~~ (reflect 32
    ((X ^ (messageBits buf).length * ∑ i ∈ Finset.range 32, X ^ i +
      X ^ 32 * message (messageBits buf)) %ₘ crc32Generator))⟩

/-! ## 3. The loop -/

theorem crcBit_toBitVec (crc : UInt32) :
    (crcBit crc).toBitVec = shift 0xedb88320#32 crc.toBitVec := by
  have hmask : (0 - (crc &&& 1)).toBitVec =
      if crc.toBitVec.getLsbD 0 then BitVec.allOnes 32 else 0#32 := by
    have hone : (crc &&& 1).toBitVec = BitVec.setWidth 32 (BitVec.ofBool (crc.toBitVec.getLsbD 0)) :=
      BitVec.and_one_eq_setWidth_ofBool_getLsbD
    rw [UInt32.toBitVec_sub, hone]
    cases crc.toBitVec.getLsbD 0 <;> rfl
  rw [crcBit, shift, UInt32.toBitVec_xor, UInt32.toBitVec_and, hmask]
  cases crc.toBitVec.getLsbD 0 <;> rfl

theorem crcByte_toBitVec (crc : UInt32) (byte : UInt8) :
    (crcByte crc byte).toBitVec =
      feed 0xedb88320#32 8 crc.toBitVec (byte.toBitVec.setWidth 32) := by
  have hturns : ∀ n (c : UInt32),
      (crcBit^[n] c).toBitVec = (shift 0xedb88320#32)^[n] c.toBitVec := by
    intro n
    induction n with
    | zero => exact fun _ => rfl
    | succ n ih =>
      intro c
      rw [Function.iterate_succ_apply, Function.iterate_succ_apply, ih, crcBit_toBitVec]
  rw [crcByte, hturns]
  rfl

theorem foldl_crcByte (buf : List UInt8) (crc : UInt32) :
    (buf.foldl crcByte crc).toBitVec =
      (buf.map fun byte => byte.toBitVec.setWidth 32).foldl (feed 0xedb88320#32 8)
        crc.toBitVec := by
  induction buf generalizing crc with
  | nil => rfl
  | cons byte buf ih => rw [List.foldl_cons, ih, crcByte_toBitVec, List.map_cons, List.foldl_cons]

theorem generator_eq : generator 0xedb88320#32 = crc32Generator := by
  have hbits : 0xedb88320#32 = .twoPow 32 5 ^^^ .twoPow 32 8 ^^^ .twoPow 32 9 ^^^ .twoPow 32 15 ^^^
      .twoPow 32 19 ^^^ .twoPow 32 20 ^^^ .twoPow 32 21 ^^^ .twoPow 32 23 ^^^ .twoPow 32 24 ^^^
      .twoPow 32 26 ^^^ .twoPow 32 27 ^^^ .twoPow 32 29 ^^^ .twoPow 32 30 ^^^ .twoPow 32 31 := by
    decide
  rw [generator, crc32Generator, hbits]
  simp only [ofRegister_xor]
  repeat rw [ofRegister_twoPow (by decide)]
  simp

/-- The complement of zero stands for 32 ones. -/
theorem ofRegister_ones :
    ofRegister (BitVec.allOnes 32) = (∑ i ∈ Finset.range 32, X ^ i : (ZMod 2)[X]) := by
  rw [ofRegister, ← Finset.sum_range_reflect]
  refine Finset.sum_congr rfl ?_
  intro i hi
  have hi := Finset.mem_range.mp hi
  rw [BitVec.getLsbD_allOnes, decide_eq_true (by omega), bit, if_pos rfl, C_1, one_mul,
    show 32 - 1 - (32 - 1 - i) = i by omega]

/-- What is behind the first pieces goes on from their check. -/
theorem xzCrc32_append (a b : List UInt8) (crc : UInt32) :
    xzCrc32 (a ++ b) crc = xzCrc32 b (xzCrc32 a crc) := by
  simp only [xzCrc32, List.foldl_append, UInt32.not_not]

theorem xzCrc32_zero (buf : List UInt8) : xzCrc32 buf 0 = crc32 buf := by
  have hbytes : ∀ chunk ∈ buf.map fun byte => byte.toBitVec.setWidth 32,
      ∀ i, 8 ≤ i → chunk.getLsbD i = false := by
    intro chunk hchunk i hi
    obtain ⟨byte, -, rfl⟩ := List.mem_map.mp hchunk
    rw [BitVec.getLsbD_setWidth, BitVec.getLsbD_of_ge _ _ hi, Bool.and_false]
  have hbits : (buf.map fun byte => byte.toBitVec.setWidth 32).flatMap (chunkBits 8) =
      messageBits buf := by
    rw [messageBits, List.flatMap_map]
    refine List.flatMap_congr ?_
    intro byte _
    refine List.map_congr_left ?_
    intro i hi
    rw [BitVec.getLsbD_setWidth, decide_eq_true (by have := List.mem_range.mp hi; omega),
      Bool.true_and]
  have hrun := run_eq 0xedb88320#32 (by decide) (by decide : 8 ≤ 32) (BitVec.allOnes 32) _ hbytes
  rw [hbits, remainder, generator_eq, ofRegister_ones] at hrun
  refine UInt32.toBitVec_inj.mp ?_
  rw [xzCrc32, UInt32.toBitVec_not, foldl_crcByte, crc32]
  exact congrArg (~~~ ·) hrun

/-- **`xz_crc32` is incremental, and from zero it is CRC-32.** -/
theorem xzCrc32_exact :
    (∀ (a b : List UInt8) (c : UInt32), xzCrc32 (a ++ b) c = xzCrc32 b (xzCrc32 a c)) ∧
      ∀ buf : List UInt8, xzCrc32 buf 0 = crc32 buf :=
  ⟨xzCrc32_append, xzCrc32_zero⟩

end YukiZygisk.XzCrc
