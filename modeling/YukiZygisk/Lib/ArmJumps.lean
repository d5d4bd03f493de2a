/-
# Jumps of the ARM architectures

How the A32, T32 and A64 encodings of a direct branch, and the A32 and T32 encodings of a load of
the program counter from a literal, are decoded, and where each goes.  Words and half-words are
numbers, memory is a function of the address, and the program counter that an instruction reads is
its address plus 8 in A32, and plus 4 in T32.  Inside of an `IT` block a T32 jump is conditional
(`jumpIn`).

A word of fields is the sum of them (`or_field`), and the offset of a branch is what was encoded
(`signExtend_wrap`).

A direct branch is decoded in two steps.  The fields are taken out of the word by shifting and by
remainders, and the immediate is put together from them, with a sign.  An encoder goes the other
way, so what an encoder wrote is decoded to the branch that it wanted (`jumpA32_of_fields`,
`jumpT32_of_fields`, `jumpA64_of_fields`): these take the fields as they were before they were put
into the word, and say where the branch goes.  The T32 form has the two bits `J1` and `J2`, which
are the sign exclusive-ored with two bits of the immediate.

A load of the program counter goes to an address whose lowest bit says which instruction set follows
it.  `Target` keeps the two apart; `interwork` puts them together, and for an aligned target the
load gets the same one back (`bxWritePC_interwork`).
-/
import YukiZygisk.Lib.Bytes

namespace ArmJumps

/-! ## 1. Fields -/

/-- The `width` bits of a word from the bit `lo` on. -/
def bits (w lo width : ℕ) : ℕ := w / 2 ^ lo % 2 ^ width

/-- A number of `width` bits as a signed one. -/
def signExtend (width n : ℕ) : ℤ := if 2 * n < 2 ^ width then n else n - 2 ^ width

/-- A number as an address of `width` bits. -/
def wrap (width : ℕ) (n : ℤ) : ℕ := (n % 2 ^ width).toNat

/-- A signed number of `width` bits is read back from its bits. -/
theorem signExtend_wrap {width : ℕ} {d : ℤ} (hlo : -2 ^ width ≤ 2 * d) (hhi : 2 * d < 2 ^ width) :
    signExtend width (wrap width d) = d := by
  have hpos : (0 : ℤ) < 2 ^ width := by positivity
  have hcast : ((wrap width d : ℕ) : ℤ) = d % 2 ^ width :=
    Int.toNat_of_nonneg (Int.emod_nonneg d hpos.ne')
  have hiff : 2 * wrap width d < 2 ^ width ↔ 2 * (d % 2 ^ width) < (2 : ℤ) ^ width := by
    rw [← hcast]
    exact_mod_cast Iff.rfl
  rw [signExtend]
  by_cases hneg : d < 0
  · have hmod : d % 2 ^ width = d + 2 ^ width := by
      rw [← Int.add_emod_right, Int.emod_eq_of_lt (by omega) (by omega)]
    rw [if_neg (by rw [hiff, hmod]; omega), hcast, hmod]
    omega
  · have hmod : d % 2 ^ width = d := Int.emod_eq_of_lt (by omega) (by omega)
    rw [if_pos (by rw [hiff, hmod]; omega), hcast, hmod]

/-- An address that is in range is not wrapped. -/
theorem wrap_of_lt {width n : ℕ} (h : n < 2 ^ width) : wrap width n = n := by
  rw [wrap, Int.emod_eq_of_lt (by omega) (by exact_mod_cast h), Int.toNat_natCast]

/-- A field below the bits of a word. -/
theorem or_field {c x k : ℕ} (hc : c % 2 ^ k = 0) (hx : x < 2 ^ k) : c ||| x = c + x := by
  obtain ⟨q, rfl⟩ := Nat.dvd_of_mod_eq_zero hc
  exact (Nat.two_pow_add_eq_or_of_lt hx q).symm

/-! ## 2. Memory and states -/

abbrev Memory := ℕ → UInt8

def half (mem : Memory) (a : ℕ) : ℕ := Bytes.ofBytes ((List.range 2).map fun i => mem (a + i))

def word (mem : Memory) (a : ℕ) : ℕ := Bytes.ofBytes ((List.range 4).map fun i => mem (a + i))

/-- Where a jump goes: the instruction set, T32 or A32, and the address. -/
structure Target where
  thumb : Bool
  address : ℕ
  deriving DecidableEq

/-- Whether an instruction can be at the address. -/
def Target.Aligned (t : Target) : Prop := t.address % (if t.thumb then 2 else 4) = 0

/-- The address that selects the instruction set by its lowest bit. -/
def Target.interwork (t : Target) : ℕ := if t.thumb then t.address + 1 else t.address

/-- `BXWritePC`: the lowest bit selects the instruction set. -/
def bxWritePC (v : ℕ) : Option Target :=
  if v % 2 = 1 then some ⟨true, v - 1⟩ else if v % 4 = 0 then some ⟨false, v⟩ else none

/-- A branch that exchanges the instruction set goes to the target that was put into the address. -/
theorem bxWritePC_interwork {t : Target} (h : t.Aligned) : bxWritePC t.interwork = some t := by
  obtain ⟨thumb, address⟩ := t
  cases thumb with
  | true =>
    have h2 : address % 2 = 0 := h
    have hodd : (address + 1) % 2 = 1 := by omega
    exact if_pos hodd
  | false =>
    have h4 : address % 4 = 0 := h
    have heven : address % 2 ≠ 1 := by omega
    exact (if_neg heven).trans (if_pos h4)

/-- A load of the program counter from the literal at `base ± imm`. -/
def loadPC (mem : Memory) (base up imm : ℕ) : Option Target :=
  let a := wrap 32 (if up = 1 then (base : ℤ) + imm else (base : ℤ) - imm)
  if a % 4 = 0 then bxWritePC (word mem a) else none

/-! ## 3. Decoding -/

/-- The jump of an A32 instruction: `B` (A1) and `LDR` to the program counter (literal, A1), both
unconditional. -/
def jumpA32 (mem : Memory) (pc : ℕ) : Option Target :=
  let w := word mem pc
  if bits w 24 8 = 0b11101010 then
    some ⟨false, wrap 32 (pc + 8 + signExtend 26 (bits w 0 24 * 4)) / 4 * 4⟩
  else if bits w 24 8 = 0b11100101 ∧ bits w 20 3 = 0b001 ∧ bits w 16 4 = 15 ∧ bits w 12 4 = 15 then
    loadPC mem ((pc + 8) / 4 * 4) (bits w 23 1) (bits w 0 12)
  else none

/-- The jump of a T32 instruction: `B` (T4), outside of an `IT` block, and `LDR` to the program
counter (literal, T2). -/
def jumpT32 (mem : Memory) (pc : ℕ) : Option Target :=
  let hw1 := half mem pc
  let hw2 := half mem (pc + 2)
  if bits hw1 11 5 = 0b11110 ∧ bits hw2 14 2 = 0b10 ∧ bits hw2 12 1 = 1 then
    let s := bits hw1 10 1
    let i1 := if bits hw2 13 1 = s then 1 else 0
    let i2 := if bits hw2 11 1 = s then 1 else 0
    let imm := s * 2 ^ 24 + i1 * 2 ^ 23 + i2 * 2 ^ 22 + bits hw1 0 10 * 2 ^ 12 + bits hw2 0 11 * 2
    some ⟨true, wrap 32 (pc + 4 + signExtend 25 imm) / 2 * 2⟩
  else if bits hw1 8 8 = 0b11111000 ∧ bits hw1 0 7 = 0b1011111 ∧ bits hw2 12 4 = 15 then
    loadPC mem ((pc + 4) / 4 * 4) (bits hw1 7 1) (bits hw2 0 12)
  else none

/-- The jump of the instruction at an address. -/
def jump (mem : Memory) (pc : ℕ) (thumb : Bool) : Option Target :=
  if thumb then jumpT32 mem pc else jumpA32 mem pc

/-- The same with `left` instructions of an `IT` block still to come: inside of a block the
condition of the block decides whether the instruction jumps, so that it has no certain target. -/
def jumpIn (mem : Memory) (pc : ℕ) (thumb : Bool) (left : ℕ) : Option Target :=
  if left = 0 then jump mem pc thumb else none

/-- The target of the A64 instruction `B` at an address. -/
def jumpA64 (mem : Memory) (pc : ℕ) : Option ℕ :=
  let w := word mem pc
  if bits w 26 6 = 0b000101 then some (wrap 64 (pc + signExtend 28 (bits w 0 26 * 4))) else none

/-! ## 4. Decoding from the fields -/

variable {mem : Memory} {pc : ℕ}

/-- An A32 branch by its field. -/
theorem jumpA32_of_fields {imm : ℕ} (himm : imm < 2 ^ 24)
    (hword : word mem pc = 0xea000000 + imm) :
    jumpA32 mem pc = some ⟨false, wrap 32 (pc + 8 + signExtend 26 (imm * 4)) / 4 * 4⟩ := by
  have hop : bits (0xea000000 + imm) 24 8 = 0b11101010 := by
    rw [bits]
    omega
  have hfield : bits (0xea000000 + imm) 0 24 = imm := by
    rw [bits]
    omega
  rw [jumpA32, hword, if_pos hop, hfield]

/-- A T32 branch by its fields; `J1` and `J2` are whether `I1` and `I2` are the sign. -/
theorem jumpT32_of_fields {s i1 i2 high low : ℕ} (hs : s < 2) (h1 : i1 < 2) (h2 : i2 < 2)
    (hhigh : high < 2 ^ 10) (hlow : low < 2 ^ 11)
    (hfirst : half mem pc = 0xf000 + s * 2 ^ 10 + high)
    (hsecond : half mem (pc + 2) = 0x9000 + (if i1 = s then 1 else 0) * 2 ^ 13 +
      (if i2 = s then 1 else 0) * 2 ^ 11 + low) :
    jumpT32 mem pc = some ⟨true, wrap 32 (pc + 4 + signExtend 25
      (s * 2 ^ 24 + i1 * 2 ^ 23 + i2 * 2 ^ 22 + high * 2 ^ 12 + low * 2)) / 2 * 2⟩ := by
  have hop : bits (half mem pc) 11 5 = 0b11110 ∧ bits (half mem (pc + 2)) 14 2 = 0b10 ∧
      bits (half mem (pc + 2)) 12 1 = 1 := by
    rw [hfirst, hsecond, bits, bits, bits]
    split_ifs <;> omega
  have hsign : bits (half mem pc) 10 1 = s := by
    rw [hfirst, bits]
    omega
  have hfield1 : bits (half mem pc) 0 10 = high := by
    rw [hfirst, bits]
    omega
  have hfield2 : bits (half mem (pc + 2)) 0 11 = low := by
    rw [hsecond, bits]
    split_ifs <;> omega
  have hj1 : (if bits (half mem (pc + 2)) 13 1 = s then 1 else 0) = i1 := by
    rw [hsecond, bits]
    split_ifs <;> omega
  have hj2 : (if bits (half mem (pc + 2)) 11 1 = s then 1 else 0) = i2 := by
    rw [hsecond, bits]
    split_ifs <;> omega
  rw [jumpT32, if_pos hop, hsign, hfield1, hfield2]
  dsimp only
  rw [hj1, hj2]

/-- An A64 branch by its field. -/
theorem jumpA64_of_fields {imm : ℕ} (himm : imm < 2 ^ 26)
    (hword : word mem pc = 0x14000000 + imm) :
    jumpA64 mem pc = some (wrap 64 (pc + signExtend 28 (imm * 4))) := by
  have hop : bits (0x14000000 + imm) 26 6 = 0b000101 := by
    rw [bits]
    omega
  have hfield : bits (0x14000000 + imm) 0 26 = imm := by
    rw [bits]
    omega
  rw [jumpA64, hword, if_pos hop, hfield]

end ArmJumps
