/-
# Constants in A64 and T32 code

A64 code builds a constant of 64 bits from four immediates of 16 bits: `MOVZ` sets one of the four
places of a register and clears the others, `MOVK` keeps them.  T32 code loads a constant from a
literal behind it.  Putting another immediate into a move changes nothing else of it
(`decode_patch`), and a sequence with the four parts of a value gives the value (`exec_parts`).

A template in a program's text has moves with an immediate of zero, which are filled in before the
code is used.  `patch` clears the 16 bits and puts the immediate there; the register, the place and
the kind of the move lie outside of these bits (`bits_patch_high`, `bits_patch_low`), so the patched
word is decoded to the same move with the new immediate.  For T32, a literal is loaded from an
address that is relative to the aligned program counter, so what is decoded is where the constant
has to be.
-/
import YukiZygisk.Lib.ArmJumps

namespace LoadedConstants

open ArmJumps

variable {a b lo width w imm v : ℕ}

/-! ## 1. Fields -/

theorem bits_or : bits (a ||| b) lo width = bits a lo width ||| bits b lo width := by
  rw [bits, Nat.or_div_two_pow, Nat.or_mod_two_pow]
  rfl

theorem bits_and : bits (a &&& b) lo width = bits a lo width &&& bits b lo width := by
  rw [bits, Nat.and_div_two_pow, Nat.and_mod_two_pow]
  rfl

/-- The word with another immediate in the bits from 5 to 20. -/
def patch (w imm : ℕ) : ℕ := w &&& 0xffe0001f ||| imm * 2 ^ 5

/-- Filling in an immediate leaves the fields above it. -/
theorem bits_patch_high (himm : imm < 2 ^ 16) (hlo : 21 ≤ lo) (hmask : bits 0xffe0001f lo width =
    2 ^ width - 1) : bits (patch w imm) lo width = bits w lo width := by
  have hpow : 2 ^ 21 ≤ 2 ^ lo := Nat.pow_le_pow_right (by decide) hlo
  have hzero : bits (imm * 2 ^ 5) lo width = 0 := by
    rw [bits, Nat.div_eq_of_lt (by omega), Nat.zero_mod]
  have hlt : bits w lo width < 2 ^ width := Nat.mod_lt _ (by positivity)
  rw [patch, bits_or, bits_and, hmask, hzero, Nat.or_zero, Nat.and_two_pow_sub_one_eq_mod,
    Nat.mod_eq_of_lt hlt]

theorem bits_patch_low : bits (patch w imm) 0 5 = bits w 0 5 := by
  have hzero : bits (imm * 2 ^ 5) 0 5 = 0 := by
    rw [bits]
    omega
  have hmask : bits 0xffe0001f 0 5 = 2 ^ 5 - 1 := by decide
  have hlt : bits w 0 5 < 2 ^ 5 := Nat.mod_lt _ (by decide)
  rw [patch, bits_or, bits_and, hmask, hzero, Nat.or_zero, Nat.and_two_pow_sub_one_eq_mod,
    Nat.mod_eq_of_lt hlt]

/-- The field of the immediate is filled in. -/
theorem bits_patch_imm (himm : imm < 2 ^ 16) : bits (patch w imm) 5 16 = imm := by
  have himm' : bits (imm * 2 ^ 5) 5 16 = imm := by
    rw [bits]
    omega
  have hmask : bits 0xffe0001f 5 16 = 0 := by decide
  rw [patch, bits_or, bits_and, hmask, himm', Nat.and_zero, Nat.zero_or]

/-! ## 2. Moves of wide immediates -/

/-- `MOVZ` and `MOVK` of an immediate into a place of a register of 64 bits. -/
structure Move where
  keep : Bool
  place : ℕ
  imm : ℕ
  reg : ℕ
  deriving DecidableEq

/-- The move that a word encodes. -/
def decode (w : ℕ) : Option Move :=
  if bits w 23 9 = 0b110100101 then some ⟨false, bits w 21 2, bits w 5 16, bits w 0 5⟩
  else if bits w 23 9 = 0b111100101 then some ⟨true, bits w 21 2, bits w 5 16, bits w 0 5⟩
  else none

abbrev Regs := ℕ → ℕ

/-- What a move leaves in its register. -/
def Move.value (m : Move) (old : ℕ) : ℕ :=
  if m.keep then old - bits old (16 * m.place) 16 * 2 ^ (16 * m.place) + m.imm * 2 ^ (16 * m.place)
  else m.imm * 2 ^ (16 * m.place)

/-- A run of moves; nothing if a word is not one. -/
def exec : List ℕ → Regs → Option Regs
  | [], regs => some regs
  | w :: words, regs =>
    match decode w with
    | none => none
    | some m => exec words (Function.update regs m.reg (m.value (regs m.reg)))

/-- Another immediate in a move. -/
theorem decode_patch {m : Move} (h : decode w = some m) (himm : imm < 2 ^ 16) :
    decode (patch w imm) = some { m with imm := imm } := by
  have hop : bits (patch w imm) 23 9 = bits w 23 9 :=
    bits_patch_high himm (by decide) (by decide)
  have hplace : bits (patch w imm) 21 2 = bits w 21 2 :=
    bits_patch_high himm (by decide) (by decide)
  rw [decode] at h ⊢
  rw [hop, hplace, bits_patch_low, bits_patch_imm himm]
  split_ifs at h ⊢
  · obtain rfl := Option.some.inj h
    rfl
  · obtain rfl := Option.some.inj h
    rfl

/-- The part of a value at a place. -/
def part (v place : ℕ) : ℕ := bits v (16 * place) 16

theorem part_lt (v place : ℕ) : part v place < 2 ^ 16 := Nat.mod_lt _ (by decide)

/-- The words move immediates to the four places of a register, the first one clearing it. -/
structure MovesTo (words : List ℕ) (reg : ℕ) : Prop where
  length : words.length = 4
  decode : ∀ place < 4, ∃ imm, LoadedConstants.decode (words.getD place 0) =
    some ⟨decide (place ≠ 0), place, imm, reg⟩

/-- **The four parts of a value give the value.** -/
theorem exec_parts {words : List ℕ} {reg : ℕ} (h : MovesTo words reg) (hv : v < 2 ^ 64)
    (regs : Regs) :
    ∃ regs', exec ((List.range 4).map fun place => patch (words.getD place 0) (part v place)) regs =
      some regs' ∧ regs' reg = v ∧ ∀ r ≠ reg, regs' r = regs r := by
  obtain ⟨i0, h0⟩ := h.decode 0 (by decide)
  obtain ⟨i1, h1⟩ := h.decode 1 (by decide)
  obtain ⟨i2, h2⟩ := h.decode 2 (by decide)
  obtain ⟨i3, h3⟩ := h.decode 3 (by decide)
  have hlist : ((List.range 4).map fun place => patch (words.getD place 0) (part v place)) =
      [patch (words.getD 0 0) (part v 0), patch (words.getD 1 0) (part v 1),
        patch (words.getD 2 0) (part v 2), patch (words.getD 3 0) (part v 3)] := rfl
  rw [hlist]
  simp only [exec, decode_patch h0 (part_lt v 0), decode_patch h1 (part_lt v 1),
    decode_patch h2 (part_lt v 2), decode_patch h3 (part_lt v 3), Function.update_self]
  refine ⟨_, rfl, ?_, ?_⟩
  · rw [Function.update_self]
    simp only [Move.value, part, bits, ne_eq, decide_not, decide_true, Bool.not_true,
      Bool.false_eq_true, if_false]
    simp
    omega
  · intro r hr
    rw [Function.update_of_ne hr, Function.update_of_ne hr, Function.update_of_ne hr,
      Function.update_of_ne hr]

/-! ## 3. Literals -/

/-- The register and the value of a T32 load from a literal (`LDR`, T1), for code that begins at a
multiple of four. -/
def loadLiteral (code : List UInt8) (pc : ℕ) : Option (ℕ × ℕ) :=
  let w := Bytes.readAt pc 2 code
  if bits w 11 5 = 0b01001 then
    some (bits w 8 3, Bytes.readAt ((pc + 4) / 4 * 4 + bits w 0 8 * 4) 4 code)
  else none

/-- A register as an `int`. -/
def intOf (v : ℕ) : ℤ := signExtend 32 (v % 2 ^ 32)

end LoadedConstants
