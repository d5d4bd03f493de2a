/-
# The branches of an inline hook (`enc_b`, `emit_relative_jump`, `emit_absolute_jump`)

A hook jumps from the target to its page, and the copied instructions jump back.  The jumps are
encoded by hand: a direct branch where the page is near, and a load of the program counter from the
four bytes behind it, which are padded in Thumb when the jump is not aligned.

**Every jump goes where it should, by the decoding of the architecture** (`jumps_right`): for every
address and every destination that the check of the range accepts, or every page that is
found near an AArch64 target, and with the length that `absolute_jump_size` says.

The proof goes through the fields.  What an encoder writes, bytes in little-endian order, is read as
the words or half-words that it put together (`word_writeBytes`, `half_writeBytes`); the fields of
these are taken apart again (`armBranch_toNat`, `thumbJ_toNat` and so on), and the decoder of
`Lib/ArmJumps` makes of them the offset that was encoded, since the check of the range has made sure
that it fits.  The absolute jump reads its literal behind itself, at an address that is aligned by
the padding (`loadPC_literal`).  A page that `alloc_near` or the search near an ARM target gives is
one that the check accepts (`near_of_allocNear`, `reachable_of_allocArm32Near`).
-/
import YukiZygisk.Lib.ArmJumps
import YukiZygisk.Core.InlineHook

namespace YukiZygisk.InlineHook

open ArmJumps (bits signExtend wrap Target jump jumpA64 bxWritePC or_field signExtend_wrap
  wrap_of_lt bxWritePC_interwork jumpA32_of_fields jumpT32_of_fields jumpA64_of_fields)

/-! ## 1. The checks of the range -/

/-- `relative_jump_reachable`. -/
def relativeJumpReachable (pc dest : ℕ) (thumb : Bool) : Bool :=
  let offset : ℤ := (dest : ℤ) - ((pc + if thumb then 4 else 8) % 2 ^ 32 : ℕ)
  let limit : ℤ := if thumb then 0x01000000 else 0x02000000
  let alignment : ℤ := if thumb then 2 else 4
  decide (-limit ≤ offset ∧ offset < limit ∧ offset % alignment = 0)

/-- The addresses that `alloc_near` asks for, in their order. -/
def nearHints (target : ℕ) : List ℕ :=
  let base := target - target % 0x1000
  (List.range 0x780).flatMap fun i =>
    let off := (i + 1) * 0x10000
    [(base + 2 ^ 64 - off) % 2 ^ 64, (base + off) % 2 ^ 64]

/-- `alloc_near`; `mmap` is where a page is mapped for a hint. -/
def allocNear (mmap : ℕ → Option ℕ) (target : ℕ) : Option ℕ :=
  (nearHints target).find? fun hint => mmap hint = some hint

/-- The addresses that `alloc_arm32_near` asks for, in their order. -/
def arm32Hints (target : ℕ) : List ℕ :=
  let base := target - target % 0x1000
  (List.range 0xf0).flatMap fun i =>
    let off := (i + 1) * 0x10000
    (if base < off then [] else [base - off]) ++
      if 2 ^ 32 - 1 - off < base then [] else [base + off]

/-- `alloc_arm32_near`; `anywhere` is the page that is mapped without a hint. -/
def allocArm32Near (anywhere : Option ℕ) (mmap : ℕ → Option ℕ) (target : ℕ) (thumb : Bool) :
    Option ℕ :=
  match anywhere.filter fun page => relativeJumpReachable target page thumb with
  | some page => some page
  | none => (arm32Hints target).find? fun hint =>
      mmap hint = some hint && relativeJumpReachable target hint thumb

/-! ## 2. What is written is read -/

variable {mem : Memory} {a k n : ℕ} {l : List UInt8}

/-- Bytes are read where they were written. -/
theorem readBytes_writeBytes (h : k + n ≤ l.length) :
    readBytes (writeBytes mem a l) (a + k) n = (l.drop k).take n := by
  refine List.ext_getElem ?_ fun i hi hi' => ?_
  · rw [length_readBytes, List.length_take, List.length_drop]
    omega
  · rw [length_readBytes] at hi
    have hin : a ≤ a + k + i ∧ a + k + i < a + l.length := by omega
    have hindex : a + k + i - a = k + i := by omega
    simp only [readBytes, List.getElem_map, List.getElem_range, writeBytes, if_pos hin, hindex,
      List.getElem_take, List.getElem_drop]
    exact List.getD_eq_getElem l 0 (by omega)

/-- A half-word of what was written. -/
theorem half_writeBytes (mem : Memory) (a k : ℕ) (l : List UInt8) (h : k + 2 ≤ l.length) :
    ArmJumps.half (writeBytes mem a l) (a + k) = Bytes.readAt k 2 l :=
  congrArg Bytes.ofBytes (readBytes_writeBytes h)

/-- A word of what was written. -/
theorem word_writeBytes (mem : Memory) (a k : ℕ) (l : List UInt8) (h : k + 4 ≤ l.length) :
    ArmJumps.word (writeBytes mem a l) (a + k) = Bytes.readAt k 4 l :=
  congrArg Bytes.ofBytes (readBytes_writeBytes h)

@[simp] theorem length_wordBytes (w : UInt32) : (wordBytes w).length = 4 := Bytes.length_toBytes 4 _

@[simp] theorem length_halfBytes (h : UInt16) : (halfBytes h).length = 2 := Bytes.length_toBytes 2 _

theorem readAt_wordBytes (w : UInt32) (l : List UInt8) :
    Bytes.readAt 0 4 (wordBytes w ++ l) = w.toNat :=
  Bytes.readAt_here w.toNat_lt

theorem readAt_halfBytes (h : UInt16) (l : List UInt8) :
    Bytes.readAt 0 2 (halfBytes h ++ l) = h.toNat :=
  Bytes.readAt_here h.toNat_lt

/-! ## 3. The fields of a direct branch -/

/-- An offset as an address of 32 bits. -/
theorem toNat_toU32 (d : ℤ) : (toU32 d).toNat = wrap 32 d := by
  have hlt : (d % 2 ^ 32).toNat < 2 ^ 32 := by omega
  rw [toU32, UInt32.toNat_ofNat', Nat.mod_eq_of_lt hlt, wrap]

/-- The fields of an A32 branch. -/
theorem armBranch_toNat (e : UInt32) :
    ((0xea000000 : UInt32) ||| ((e >>> 2) &&& 0x00ffffff)).toNat =
      0xea000000 + e.toNat / 4 % 2 ^ 24 := by
  have hfield : ((e >>> 2) &&& 0x00ffffff).toNat = e.toNat / 4 % 2 ^ 24 := by
    rw [UInt32.toNat_and, UInt32.toNat_shiftRight]
    exact (Nat.and_two_pow_sub_one_eq_mod _ 24).trans (by simp [Nat.shiftRight_eq_div_pow])
  rw [UInt32.toNat_or, hfield]
  exact or_field (k := 24) (by decide) (Nat.mod_lt _ (by decide))

/-- The fields of an A64 branch. -/
theorem encB_toNat (pc dest : ℕ) :
    (encB pc dest).toNat = 0x14000000 + wrap 32 (((dest : ℤ) - pc) / 4) % 2 ^ 26 := by
  have hfield : (toU32 (((dest : ℤ) - pc) / 4) &&& 0x03FFFFFF).toNat =
      wrap 32 (((dest : ℤ) - pc) / 4) % 2 ^ 26 := by
    rw [UInt32.toNat_and, toNat_toU32]
    exact Nat.and_two_pow_sub_one_eq_mod _ 26
  rw [encB, UInt32.toNat_or, hfield]
  exact or_field (k := 26) (by decide) (Nat.mod_lt _ (by decide))

/-- A bit of a word, as a word. -/
theorem bit_eq (e : UInt32) (k : UInt32) (hk : k.toNat < 32) :
    ((e >>> k) &&& 1 = 0 ∧ e.toNat / 2 ^ k.toNat % 2 = 0) ∨
      ((e >>> k) &&& 1 = 1 ∧ e.toNat / 2 ^ k.toNat % 2 = 1) := by
  have hnat : ((e >>> k) &&& 1).toNat = e.toNat / 2 ^ k.toNat % 2 := by
    rw [UInt32.toNat_and, UInt32.toNat_shiftRight, Nat.mod_eq_of_lt hk, Nat.shiftRight_eq_div_pow]
    exact Nat.and_two_pow_sub_one_eq_mod _ 1
  rcases Nat.mod_two_eq_zero_or_one (e.toNat / 2 ^ k.toNat) with h | h
  · exact .inl ⟨UInt32.toNat_inj.mp (hnat.trans h), h⟩
  · exact .inr ⟨UInt32.toNat_inj.mp (hnat.trans h), h⟩

/-- A half-word of fields above a low one. -/
theorem half_toNat {c x : UInt32} {k : ℕ} (hc : c.toNat % 2 ^ k = 0) (hx : x.toNat < 2 ^ k)
    (hsum : c.toNat + x.toNat < 2 ^ 16) : (c ||| x).toUInt16.toNat = c.toNat + x.toNat := by
  rw [UInt32.toNat_toUInt16, UInt32.toNat_or, or_field hc hx, Nat.mod_eq_of_lt hsum]

/-- The first half-word of a Thumb branch. -/
theorem thumbFirst_toNat (e : UInt32) : (thumbBranch e).1.toUInt16.toNat =
    0xf000 + e.toNat / 2 ^ 24 % 2 * 2 ^ 10 + e.toNat / 2 ^ 12 % 2 ^ 10 := by
  have hlow : ((e >>> 12) &&& 0x03ff).toNat = e.toNat / 2 ^ 12 % 2 ^ 10 := by
    rw [UInt32.toNat_and, UInt32.toNat_shiftRight]
    exact (Nat.and_two_pow_sub_one_eq_mod _ 10).trans (by simp [Nat.shiftRight_eq_div_pow])
  have hlt : e.toNat / 2 ^ 12 % 2 ^ 10 < 2 ^ 10 := Nat.mod_lt _ (by decide)
  rw [thumbBranch, ← hlow]
  rw [← hlow] at hlt
  dsimp only
  rcases bit_eq e 24 (by decide) with ⟨hbit, hnat⟩ | ⟨hbit, hnat⟩
  · rw [hbit, show e.toNat / 2 ^ 24 % 2 = 0 from hnat]
    have hsum : (0xf000 : ℕ) + ((e >>> 12) &&& 0x03ff).toNat < 2 ^ 16 := by omega
    exact half_toNat (c := 0xf000) (k := 10) (by decide) hlt hsum
  · rw [hbit, show e.toNat / 2 ^ 24 % 2 = 1 from hnat]
    have hsum : (0xf400 : ℕ) + ((e >>> 12) &&& 0x03ff).toNat < 2 ^ 16 := by omega
    exact half_toNat (c := 0xf400) (k := 10) (by decide) hlt hsum

/-- The bits `J1` and `J2` from `I1`, `I2` and the sign, over the lowest field. -/
theorem thumbJ_toNat {s i1 i2 x : UInt32} (hs : s = 0 ∨ s = 1) (h1 : i1 = 0 ∨ i1 = 1)
    (h2 : i2 = 0 ∨ i2 = 1) (hx : x.toNat < 2 ^ 11) :
    ((0x9000 : UInt32) ||| (((~~~i1 ^^^ s) &&& 1) <<< 13) ||| (((~~~i2 ^^^ s) &&& 1) <<< 11) |||
        x).toUInt16.toNat =
      0x9000 + (if i1.toNat = s.toNat then 1 else 0) * 2 ^ 13 +
        (if i2.toNat = s.toNat then 1 else 0) * 2 ^ 11 + x.toNat := by
  have hhigh : ((0x9000 : UInt32) ||| (((~~~i1 ^^^ s) &&& 1) <<< 13) |||
      (((~~~i2 ^^^ s) &&& 1) <<< 11)).toNat =
        0x9000 + (if i1.toNat = s.toNat then 1 else 0) * 2 ^ 13 +
          (if i2.toNat = s.toNat then 1 else 0) * 2 ^ 11 := by
    rcases hs with rfl | rfl <;> rcases h1 with rfl | rfl <;> rcases h2 with rfl | rfl <;> decide
  rw [half_toNat (k := 11) ?_ hx ?_, hhigh]
  · rw [hhigh]
    split_ifs <;> decide
  · rw [hhigh]
    split_ifs <;> omega

/-- The second half-word of a Thumb branch. -/
theorem thumbSecond_toNat (e : UInt32) : (thumbBranch e).2.toUInt16.toNat =
    0x9000 + (if e.toNat / 2 ^ 23 % 2 = e.toNat / 2 ^ 24 % 2 then 1 else 0) * 2 ^ 13 +
      (if e.toNat / 2 ^ 22 % 2 = e.toNat / 2 ^ 24 % 2 then 1 else 0) * 2 ^ 11 +
        e.toNat / 2 % 2 ^ 11 := by
  have hlow : ((e >>> 1) &&& 0x07ff).toNat = e.toNat / 2 % 2 ^ 11 := by
    rw [UInt32.toNat_and, UInt32.toNat_shiftRight]
    exact (Nat.and_two_pow_sub_one_eq_mod _ 11).trans (by simp [Nat.shiftRight_eq_div_pow])
  have hbit : ∀ k : UInt32, k.toNat < 32 → ((e >>> k) &&& 1 = 0 ∨ (e >>> k) &&& 1 = 1) ∧
      ((e >>> k) &&& 1).toNat = e.toNat / 2 ^ k.toNat % 2 := by
    intro k hk
    rcases bit_eq e k hk with ⟨h, hnat⟩ | ⟨h, hnat⟩
    · exact ⟨.inl h, by rw [h, hnat]; rfl⟩
    · exact ⟨.inr h, by rw [h, hnat]; rfl⟩
  obtain ⟨hs, hsnat⟩ := hbit 24 (by decide)
  obtain ⟨h1, h1nat⟩ := hbit 23 (by decide)
  obtain ⟨h2, h2nat⟩ := hbit 22 (by decide)
  have hlt : ((e >>> 1) &&& 0x07ff).toNat < 2 ^ 11 := hlow ▸ Nat.mod_lt _ (by decide)
  have := thumbJ_toNat hs h1 h2 hlt
  rw [hsnat, h1nat, h2nat, hlow] at this
  exact this

/-! ## 4. Where the jumps go -/

/-- What an offset in the range of the A32 branch is decoded to. -/
theorem jump_armBranch (mem : Memory) (pc : ℕ) {d : ℤ} (hlo : -0x02000000 ≤ d) (hhi : d < 0x02000000)
    (hd : d % 4 = 0) :
    jump (writeBytes mem pc (wordBytes ((0xea000000 : UInt32) |||
        ((toU32 d >>> 2) &&& 0x00ffffff)))) pc false =
      some ⟨false, wrap 32 (pc + 8 + d) / 4 * 4⟩ := by
  have hword := word_writeBytes mem pc 0
    (wordBytes ((0xea000000 : UInt32) ||| ((toU32 d >>> 2) &&& 0x00ffffff))) (by simp)
  have hread := readAt_wordBytes ((0xea000000 : UInt32) ||| ((toU32 d >>> 2) &&& 0x00ffffff)) []
  rw [List.append_nil] at hread
  rw [Nat.add_zero, hread, armBranch_toNat, toNat_toU32] at hword
  have himm : wrap 32 d / 4 % 2 ^ 24 * 4 = wrap 26 d := by
    simp only [wrap]
    omega
  rw [jump, if_neg Bool.false_ne_true, jumpA32_of_fields (Nat.mod_lt _ (by decide)) hword, himm,
    signExtend_wrap (by omega) (by omega)]

/-- What an offset in the range of the T32 branch is decoded to. -/
theorem jump_thumbBranch (mem : Memory) (pc : ℕ) {d : ℤ} (hlo : -0x01000000 ≤ d)
    (hhi : d < 0x01000000) (hd : d % 2 = 0) :
    jump (writeBytes mem pc (halfBytes (thumbBranch (toU32 d)).1.toUInt16 ++
        halfBytes (thumbBranch (toU32 d)).2.toUInt16)) pc true =
      some ⟨true, wrap 32 (pc + 4 + d) / 2 * 2⟩ := by
  have hfirst := half_writeBytes mem pc 0
    (halfBytes (thumbBranch (toU32 d)).1.toUInt16 ++
      halfBytes (thumbBranch (toU32 d)).2.toUInt16) (by simp)
  have hsecond := half_writeBytes mem pc 2
    (halfBytes (thumbBranch (toU32 d)).1.toUInt16 ++
      halfBytes (thumbBranch (toU32 d)).2.toUInt16) (by simp)
  have hread := readAt_halfBytes (thumbBranch (toU32 d)).2.toUInt16 []
  rw [List.append_nil] at hread
  rw [Nat.add_zero, readAt_halfBytes, thumbFirst_toNat, toNat_toU32] at hfirst
  rw [Bytes.readAt_skip (by simp), length_halfBytes, Nat.sub_self, hread, thumbSecond_toNat,
    toNat_toU32] at hsecond
  have himm : wrap 32 d / 2 ^ 24 % 2 * 2 ^ 24 + wrap 32 d / 2 ^ 23 % 2 * 2 ^ 23 +
      wrap 32 d / 2 ^ 22 % 2 * 2 ^ 22 + wrap 32 d / 2 ^ 12 % 2 ^ 10 * 2 ^ 12 +
      wrap 32 d / 2 % 2 ^ 11 * 2 = wrap 25 d := by
    simp only [wrap]
    omega
  rw [jump, if_pos rfl, jumpT32_of_fields (Nat.mod_lt _ (by decide)) (Nat.mod_lt _ (by decide))
    (Nat.mod_lt _ (by decide)) (Nat.mod_lt _ (by decide)) (Nat.mod_lt _ (by decide)) hfirst hsecond,
    himm, signExtend_wrap (by omega) (by omega)]

/-- What an offset in the range of the A64 branch is decoded to; addresses wrap around. -/
theorem jump_encB {d k : ℤ} {pc dest : ℕ} (hoffset : (dest : ℤ) - pc = d + k * 2 ^ 64)
    (hlo : -2 ^ 27 ≤ d) (hhi : d < 2 ^ 27) (hd : d % 4 = 0) :
    jumpA64 (writeBytes mem pc (wordBytes (encB pc dest))) pc = some (wrap 64 dest) := by
  have hword := word_writeBytes mem pc 0 (wordBytes (encB pc dest))
    (by simp)
  have hread := readAt_wordBytes (encB pc dest) []
  rw [List.append_nil] at hread
  rw [Nat.add_zero, hread, encB_toNat] at hword
  have himm : wrap 32 (((dest : ℤ) - pc) / 4) % 2 ^ 26 * 4 = wrap 28 d := by
    simp only [wrap]
    omega
  have hdest : wrap 64 (pc + d) = wrap 64 dest := by
    simp only [wrap]
    omega
  rw [jumpA64_of_fields (Nat.mod_lt _ (by decide)) hword, himm,
    signExtend_wrap (by omega) (by omega), hdest]

/-- A relative jump that is in range goes to its destination. -/
theorem jump_relative {pc dest : ℕ} {thumb : Bool} (hpc : (Target.mk thumb pc).Aligned)
    (hdest : dest < 2 ^ 32) (h : relativeJumpReachable pc dest thumb = true) :
    jump (writeBytes mem pc (emitRelativeJump pc dest thumb)) pc thumb = some ⟨thumb, dest⟩ := by
  rw [relativeJumpReachable] at h
  obtain ⟨hlo, hhi, hd⟩ := of_decide_eq_true h
  cases thumb with
  | false =>
    simp only [Bool.false_eq_true, if_false] at hlo hhi hd
    have hpc : pc % 4 = 0 := hpc
    have hencoded : toU32 ((dest : ℤ) - (pc + 8)) =
        toU32 ((dest : ℤ) - ((pc + 8) % 2 ^ 32 : ℕ)) := by
      refine congrArg UInt32.ofNat (congrArg Int.toNat ?_)
      omega
    have hgoes : wrap 32 (pc + 8 + ((dest : ℤ) - ((pc + 8) % 2 ^ 32 : ℕ))) / 4 * 4 = dest := by
      simp only [wrap]
      omega
    have hjump := jump_armBranch mem pc hlo hhi hd
    rw [hgoes, ← hencoded] at hjump
    exact hjump
  | true =>
    simp only [if_true] at hlo hhi hd
    have hpc : pc % 2 = 0 := hpc
    have hencoded : toU32 ((dest : ℤ) - (pc + 4)) =
        toU32 ((dest : ℤ) - ((pc + 4) % 2 ^ 32 : ℕ)) := by
      refine congrArg UInt32.ofNat (congrArg Int.toNat ?_)
      omega
    have hgoes : wrap 32 (pc + 4 + ((dest : ℤ) - ((pc + 4) % 2 ^ 32 : ℕ))) / 2 * 2 = dest := by
      simp only [wrap]
      omega
    have hjump := jump_thumbBranch mem pc hlo hhi hd
    rw [hgoes, ← hencoded] at hjump
    exact hjump

/-! ## 5. The absolute jump -/

/-- The absolute jump is as long as it is said to be. -/
theorem length_emitAbsoluteJump (pc dest : ℕ) (thumb : Bool) :
    (emitAbsoluteJump pc dest thumb).length = absoluteJumpSize pc thumb := by
  cases thumb with
  | false => simp [emitAbsoluteJump, absoluteJumpSize]
  | true =>
    by_cases h : pc / 2 % 2 = 1
    · simp [emitAbsoluteJump, absoluteJumpSize, h]
    · simp [emitAbsoluteJump, absoluteJumpSize, h]

/-- A load of the program counter from the literal of a jump. -/
theorem loadPC_literal {t : Target} {base up imm : ℕ} (address : ℕ) (ht : t.Aligned)
    (haddress : wrap 32 (if up = 1 then (base : ℤ) + imm else (base : ℤ) - imm) = address)
    (halign : address % 4 = 0) (hword : ArmJumps.word mem address = t.interwork) :
    ArmJumps.loadPC mem base up imm = some t := by
  rw [ArmJumps.loadPC, haddress, if_pos halign, hword, bxWritePC_interwork ht]

/-- A Thumb load of the program counter from a literal behind some padding. -/
theorem jump_thumbLoad {t : Target} {pc : ℕ} (imm : ℕ) {second : UInt16} {w : UInt32} (ht : t.Aligned)
    (hw : w.toNat = t.interwork) (padding : List UInt8) (himm : imm < 2 ^ 12)
    (hsecond : second.toNat = 0xf000 + imm)
    (hbase : (pc + 4) / 4 * 4 + imm = pc + 4 + padding.length)
    (halign : (pc + 4 + padding.length) % 4 = 0) (hlt : pc + 4 + padding.length < 2 ^ 32) :
    jump (writeBytes mem pc (halfBytes 0xf8df ++ (halfBytes second ++ (padding ++ wordBytes w))))
      pc true = some t := by
  have hop := half_writeBytes mem pc 0
    (halfBytes 0xf8df ++ (halfBytes second ++ (padding ++ wordBytes w))) (by simp)
  have himmediate := half_writeBytes mem pc 2
    (halfBytes 0xf8df ++ (halfBytes second ++ (padding ++ wordBytes w))) (by simp; omega)
  have hliteral := word_writeBytes mem pc (4 + padding.length)
    (halfBytes 0xf8df ++ (halfBytes second ++ (padding ++ wordBytes w)))
    (by simp; omega)
  have hlast := readAt_wordBytes w []
  rw [List.append_nil] at hlast
  rw [Nat.add_zero, readAt_halfBytes] at hop
  rw [Bytes.readAt_skip (by simp), length_halfBytes, Nat.sub_self, readAt_halfBytes, hsecond]
    at himmediate
  rw [Bytes.readAt_skip (by simp; omega), Bytes.readAt_skip (by simp; omega),
    Bytes.readAt_skip (by simp; omega)] at hliteral
  simp only [length_halfBytes] at hliteral
  rw [show 4 + padding.length - 2 - 2 - padding.length = 0 by omega, hlast, hw] at hliteral
  generalize writeBytes mem pc _ = mem' at hop himmediate hliteral ⊢
  have hnot : ¬ (bits (0xf8df : UInt16).toNat 11 5 = 0b11110 ∧
      bits (0xf000 + imm) 14 2 = 0b10 ∧ bits (0xf000 + imm) 12 1 = 1) :=
    fun h => absurd h.1 (by decide)
  have hload : bits (0xf8df : UInt16).toNat 8 8 = 0b11111000 ∧
      bits (0xf8df : UInt16).toNat 0 7 = 0b1011111 ∧ bits (0xf000 + imm) 12 4 = 15 := by
    refine ⟨by decide, by decide, ?_⟩
    rw [bits]
    omega
  have hup : bits (0xf8df : UInt16).toNat 7 1 = 1 := by decide
  have hfield : bits (0xf000 + imm) 0 12 = imm := by
    rw [bits]
    omega
  rw [jump, if_pos rfl, ArmJumps.jumpT32, hop, himmediate, if_neg hnot, if_pos hload, hup, hfield]
  refine loadPC_literal (pc + (4 + padding.length)) ht ?_ (by omega) hliteral
  rw [if_pos rfl, ← Nat.cast_add, hbase, Nat.add_assoc, wrap_of_lt (by omega)]

/-- The absolute jump goes to its destination, and selects the instruction set there. -/
theorem jump_absolute {t : Target} {pc : ℕ} {thumb : Bool} (ht : t.Aligned)
    (hlt : t.interwork < 2 ^ 32) (hpc : (Target.mk thumb pc).Aligned)
    (hfits : pc + absoluteJumpSize pc thumb ≤ 2 ^ 32) :
    jump (writeBytes mem pc (emitAbsoluteJump pc t.interwork thumb)) pc thumb = some t := by
  have hliteral : (UInt32.ofNat t.interwork).toNat = t.interwork := by
    rw [UInt32.toNat_ofNat', Nat.mod_eq_of_lt hlt]
  have hlast := readAt_wordBytes (UInt32.ofNat t.interwork) []
  rw [List.append_nil, hliteral] at hlast
  cases thumb with
  | false =>
    have hpc : pc % 4 = 0 := hpc
    have hsize : absoluteJumpSize pc false = 8 := rfl
    rw [hsize] at hfits
    have hop := word_writeBytes mem pc 0
      (emitAbsoluteJump pc t.interwork false) (by rw [length_emitAbsoluteJump, hsize]; omega)
    have hword := word_writeBytes mem pc 4
      (emitAbsoluteJump pc t.interwork false) (by rw [length_emitAbsoluteJump, hsize])
    generalize writeBytes mem pc (emitAbsoluteJump pc t.interwork false) = mem' at hop hword ⊢
    rw [emitAbsoluteJump, if_neg Bool.false_ne_true] at hop hword
    rw [Nat.add_zero, readAt_wordBytes] at hop
    rw [Bytes.readAt_skip (by simp), length_wordBytes, Nat.sub_self, hlast] at hword
    rw [jump, if_neg Bool.false_ne_true, ArmJumps.jumpA32, hop]
    have hload : ArmJumps.loadPC mem' ((pc + 8) / 4 * 4) 0 4 = some t := by
      refine loadPC_literal (pc + 4) ht ?_ (by omega) hword
      simp only [wrap, if_neg Nat.zero_ne_one]
      omega
    exact hload
  | true =>
    have hpc : pc % 2 = 0 := hpc
    by_cases hpad : pc / 2 % 2 = 1
    · have hsize : absoluteJumpSize pc true = 10 := by simp [absoluteJumpSize, hpad]
      rw [hsize] at hfits
      have hbytes : emitAbsoluteJump pc t.interwork true = halfBytes 0xf8df ++
          (halfBytes 0xf004 ++ (halfBytes 0xbf00 ++ wordBytes (UInt32.ofNat t.interwork))) := by
        simp [emitAbsoluteJump, hpad]
      rw [hbytes]
      exact jump_thumbLoad 4 ht hliteral (halfBytes 0xbf00) (by decide) (by decide)
        (by rw [length_halfBytes]; omega) (by rw [length_halfBytes]; omega)
        (by rw [length_halfBytes]; omega)
    · have hsize : absoluteJumpSize pc true = 8 := by simp [absoluteJumpSize, hpad]
      rw [hsize] at hfits
      have hbytes : emitAbsoluteJump pc t.interwork true = halfBytes 0xf8df ++
          (halfBytes 0xf000 ++ ([] ++ wordBytes (UInt32.ofNat t.interwork))) := by
        simp [emitAbsoluteJump, hpad]
      rw [hbytes]
      exact jump_thumbLoad 0 ht hliteral [] (by decide) (by decide)
        (by rw [List.length_nil]; omega) (by rw [List.length_nil]; omega)
        (by rw [List.length_nil]; omega)

/-! ## 6. The pages near a target -/

/-- A page that is found near an AArch64 target is at most 120 MiB from the target's page, around
the ends of the address space too. -/
theorem near_of_allocNear {mmap : ℕ → Option ℕ} {target page : ℕ}
    (h : allocNear mmap target = some page) :
    page < 2 ^ 64 ∧ ∃ off k : ℤ, -0x7800000 ≤ off ∧ off ≤ 0x7800000 ∧ off % 4 = 0 ∧
      (page : ℤ) = target - (target % 0x1000 : ℕ) + off + k * 2 ^ 64 := by
  obtain ⟨i, hi, hmem⟩ := List.mem_flatMap.mp (List.mem_of_find?_eq_some h)
  have hi := List.mem_range.mp hi
  simp only [List.mem_cons, List.not_mem_nil, or_false] at hmem
  rcases hmem with rfl | rfl
  · refine ⟨Nat.mod_lt _ (by decide), -((i + 1) * 0x10000 : ℕ),
      1 - ((target - target % 0x1000 + 2 ^ 64 - (i + 1) * 0x10000) / 2 ^ 64 : ℕ), ?_, ?_, ?_, ?_⟩
    all_goals omega
  · refine ⟨Nat.mod_lt _ (by decide), ((i + 1) * 0x10000 : ℕ),
      -((target - target % 0x1000 + (i + 1) * 0x10000) / 2 ^ 64 : ℕ), ?_, ?_, ?_, ?_⟩
    all_goals omega

/-- Both branches of an AArch64 hook go where they should: from the target to the page, and from
behind the copied instructions in the page to the rest of the target. -/
theorem jumps_near {mmap : ℕ → Option ℕ} {target page offset : ℕ}
    (h : allocNear mmap target = some page) (htarget : target % 4 = 0) (hoffset : offset % 4 = 0)
    (hfits : offset ≤ 0x1000) :
    jumpA64 (writeBytes mem (target + 4) (wordBytes (encB (target + 4) page))) (target + 4) =
        some page ∧
      jumpA64 (writeBytes mem (page + offset + 8)
        (wordBytes (encB (page + offset + 8) (target + 8)))) (page + offset + 8) =
        some ((target + 8) % 2 ^ 64) := by
  obtain ⟨hpage, off, k, hlo, hhi, hoff, hnear⟩ := near_of_allocNear h
  constructor
  · rw [jump_encB (d := off - (target % 0x1000 : ℕ) - 4) (k := k) (by omega) (by omega) (by omega)
      (by omega), wrap_of_lt hpage]
  · rw [jump_encB (d := (target % 0x1000 : ℕ) - off - offset) (k := -k) (by push_cast; omega)
      (by omega) (by omega) (by omega), wrap]
    refine congrArg some ?_
    omega

/-- A page that is found near an ARM target is in the range of the relative jump. -/
theorem reachable_of_allocArm32Near {anywhere : Option ℕ} {mmap : ℕ → Option ℕ} {target page : ℕ}
    {thumb : Bool} (h : allocArm32Near anywhere mmap target thumb = some page) :
    relativeJumpReachable target page thumb = true := by
  rw [allocArm32Near] at h
  split at h
  · rename_i found hfound
    obtain rfl := Option.some.inj h
    exact (Option.filter_eq_some_iff.mp hfound).2
  · have hfound := List.find?_some h
    rw [Bool.and_eq_true] at hfound
    exact hfound.2

/-- **Every jump of a hook goes where it should by the decoding of the architecture, and the
absolute jump is as long as it is said to be**: a relative jump to every destination that the check
of the range accepts, and to the page that is found near the target; an absolute jump to every
destination in either instruction set; and both branches of an AArch64 hook. -/
theorem jumps_right (mem : Memory) :
    (∀ pc dest thumb, (Target.mk thumb pc).Aligned → dest < 2 ^ 32 →
      relativeJumpReachable pc dest thumb = true →
      jump (writeBytes mem pc (emitRelativeJump pc dest thumb)) pc thumb = some ⟨thumb, dest⟩) ∧
    (∀ anywhere mmap target page thumb, (Target.mk thumb target).Aligned → page < 2 ^ 32 →
      allocArm32Near anywhere mmap target thumb = some page →
      jump (writeBytes mem target (emitRelativeJump target page thumb)) target thumb =
        some ⟨thumb, page⟩) ∧
    (∀ pc thumb (t : Target), (Target.mk thumb pc).Aligned → t.Aligned → t.interwork < 2 ^ 32 →
      pc + absoluteJumpSize pc thumb ≤ 2 ^ 32 →
      jump (writeBytes mem pc (emitAbsoluteJump pc t.interwork thumb)) pc thumb = some t) ∧
    (∀ pc dest thumb, (emitAbsoluteJump pc dest thumb).length = absoluteJumpSize pc thumb) ∧
    (∀ mmap target page captureSize, target % 4 = 0 → captureSize ≤ 0x1000 →
      allocNear mmap target = some page →
      let callOriginal := page + (captureSize + 3) / 4 * 4
      jumpA64 (writeBytes mem (target + 4) (wordBytes (encB (target + 4) page))) (target + 4) =
          some page ∧
        jumpA64 (writeBytes mem (callOriginal + 8)
          (wordBytes (encB (callOriginal + 8) (target + 8)))) (callOriginal + 8) =
          some ((target + 8) % 2 ^ 64)) := by
  refine ⟨fun pc dest thumb hpc hdest h => jump_relative hpc hdest h,
    fun anywhere mmap target page thumb htarget hpage h =>
      jump_relative htarget hpage (reachable_of_allocArm32Near h),
    fun pc thumb t hpc ht hlt hfits => jump_absolute ht hlt hpc hfits, length_emitAbsoluteJump,
    fun mmap target page captureSize htarget hsize h =>
      jumps_near h htarget (Nat.mul_mod_left _ 4) ?_⟩
  omega

theorem jumps_right_sample :
    jump (writeBytes (fun _ => 0) 0x10002 (emitRelativeJump 0x10002 0x20000 true)) 0x10002 true =
        some ⟨true, 0x20000⟩ ∧
      jump (writeBytes (fun _ => 0) 0x40000 (emitRelativeJump 0x40000 0x30000 false)) 0x40000
        false = some ⟨false, 0x30000⟩ ∧
      jump (writeBytes (fun _ => 0) 0x10002 (emitAbsoluteJump 0x10002 0x50000001 true)) 0x10002
        true = some ⟨true, 0x50000000⟩ ∧
      (emitAbsoluteJump 0x10002 0x50000001 true).length = absoluteJumpSize 0x10002 true ∧
      jumpA64 (writeBytes (fun _ => 0) 0x40004 (wordBytes (encB 0x40004 0x30000))) 0x40004 =
        some 0x30000 :=
  ⟨(jumps_right _).1 0x10002 0x20000 true rfl (by decide) (by decide),
    (jumps_right _).2.1 none some 0x40000 0x30000 false rfl (by decide) (by decide +kernel),
    (jumps_right _).2.2.1 0x10002 true ⟨true, 0x50000000⟩ rfl rfl (by decide) (by decide),
    (jumps_right fun _ => 0).2.2.2.1 0x10002 0x50000001 true,
    ((jumps_right _).2.2.2.2 some 0x40000 0x30000 72 rfl (by decide) (by decide +kernel)).1⟩

end YukiZygisk.InlineHook
