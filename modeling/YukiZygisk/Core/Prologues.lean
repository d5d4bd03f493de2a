/-
# Which prologues are copied (`is_pcrel`, `thumb_is_pcrel`, `arm_is_pcrel`)

An instruction that reads the program counter does something else when it is copied to another
place, and the installer refuses a prologue with one that it takes for such an instruction.

The test is exact on AArch64 (`isPcrel_iff`).  On ARM it misses some encodings: the wide `ADR` and
the wide literal loads but that of a word, operands with the program counter as Rm, loads and stores
of many registers from it, and `BX` to it.  An instruction that reads the program counter is refused
exactly when it is none of these.

Two more things spoil a copy.  Instructions outside of these families take the program counter too,
such as a `PUSH` of it; and when the last instructions that are copied open an `IT` block, the jump
behind them is conditional.  **A prologue that is copied runs in the trampoline as it does in place
exactly when it has none of the missed kinds, none of the other uses of the program counter, and no
open block at its end** (`rejects_iff`).

Each test of the classifier is a mask and a value, so it is a diagram, and a test has to be compared
with the families of the manual.  Where a family refines a test, its instructions are refused
(`narrow_rejected`, `wide_rejected`, `arm_rejected`); where they clash with every test, they are
missed (`arm_missed`).  The two dead tests of the source are those whose value has bits outside of
the mask (`masked16_never`).  For a prologue, a copy has gone through the classifier instruction by
instruction (`accepted_of_copies`), so what it can still have is what is missed or is no member of
the families, and `relocates_iff` of the library says what that means for the trampoline.
-/
import YukiZygisk.Lib.ArmPcReads
import YukiZygisk.Core.InlineHook

namespace YukiZygisk.InlineHook

open Encodings ArmPcReads

/-! ## 1. The instructions of a prologue -/

/-- Whether the installer refuses an instruction. -/
def rejected : Instr → Bool
  | .a64 w => isPcrel w
  | .a32 w => armIsPcrel w
  | .t16 h => thumbIsPcrel h 0 false
  | .t32 first second => thumbIsPcrel first second true

/-- The kinds of instructions that the tests do not look for. -/
def Missed : Instr → Prop
  | .a64 _ => False
  | .a32 w => ¬ Matches a32Branch w.toNat ∧ ¬ Matches a32Unconditional w.toNat ∧
      ((∃ p ∈ a32Exchange, Matches p w.toNat) ∨ Matches a32Block w.toNat ∨
        (∃ p ∈ a32RmReads, Matches p w.toNat) ∧ ¬ Matches a32Rn w.toNat)
  | .t16 _ => False
  | .t32 first second => ∃ p ∈ t32Other, Matches p.1 first.toNat ∧ Matches p.2 second.toNat

instance : DecidablePred Missed
  | .a64 _ => inferInstanceAs (Decidable False)
  | .a32 _ => inferInstanceAs (Decidable (_ ∧ _ ∧ (_ ∨ _ ∨ _ ∧ _)))
  | .t16 _ => inferInstanceAs (Decidable False)
  | .t32 _ _ => inferInstanceAs (Decidable (∃ p ∈ t32Other, _))

/-- The instructions of a Thumb prologue, as the loop of `arm32_copy_size` cuts them. -/
def thumbPrologue (mem : Memory) (target minimumSize bytes : ℕ) : List Instr :=
  if bytes < minimumSize then
    let first := halfAt mem (target + bytes)
    let second := halfAt mem (target + bytes + 2)
    let wide := thumbIs32bit first
    (if wide then .t32 first second else .t16 first) ::
      thumbPrologue mem target minimumSize (bytes + thumbSize wide)
  else []
termination_by minimumSize - bytes
decreasing_by
  have hpos := thumbSize_pos (thumbIs32bit (halfAt mem (target + bytes)))
  omega

/-- The instruction sets of a target. -/
inductive InstrSet where
  | a64
  | a32
  | t32

/-- The instructions that are copied from a target, for a jump of some size. -/
def prologue (set : InstrSet) (mem : Memory) (target minimumSize : ℕ) : List Instr :=
  match set with
  | .a64 => [.a64 (wordAt mem target), .a64 (wordAt mem (target + 4))]
  | .a32 => (List.range ((minimumSize + 3) / 4)).map fun i => .a32 (wordAt mem (target + 4 * i))
  | .t32 => thumbPrologue mem target minimumSize 0

/-- The instruction set of a target. -/
def setOf (thumb : Bool) : InstrSet := if thumb then .t32 else .a32

/-- The room for copies in `Hook::saved`: three words. -/
def savedSize : ℕ := 12

/-- How many bytes are copied. -/
def copySize (set : InstrSet) (mem : Memory) (target minimumSize : ℕ) : ℕ :=
  match set with
  | .a64 => 8
  | .a32 => arm32CopySize mem target false minimumSize
  | .t32 => arm32CopySize mem target true minimumSize

/-- Whether the installer copies the prologue. -/
def copies (set : InstrSet) (mem : Memory) (target minimumSize : ℕ) : Bool :=
  match set with
  | .a64 => !(isPcrel (wordAt mem target) || isPcrel (wordAt mem (target + 4)))
  | .a32 => arm32CopySize mem target false minimumSize ≠ 0
  | .t32 => arm32CopySize mem target true minimumSize ≠ 0

/-! ## 2. The tests, by diagrams -/

variable {i : UInt32} {h second : UInt16} {p : Diagram}

theorem masked32_iff {m v : UInt32} (hm : mask p = m.toNat) (hv : value p = v.toNat) :
    masked32 i m v = true ↔ Matches p i.toNat := by
  rw [masked32, beq_iff_eq, ← UInt32.toNat_inj, UInt32.toNat_and, Matches, hm, hv]

theorem masked16_iff {m v : UInt16} (hm : mask p = m.toNat) (hv : value p = v.toNat) :
    masked16 h m v = true ↔ Matches p h.toNat := by
  rw [masked16, beq_iff_eq, ← UInt16.toNat_inj, UInt16.toNat_and, Matches, hm, hv]

/-- A test whose value is not under its mask finds nothing. -/
theorem masked16_never {m v : UInt16} (hv : v &&& m ≠ v) : masked16 h m v = false := by
  refine beq_eq_false_iff_ne.mpr fun heq => hv ?_
  rw [← heq, UInt16.and_assoc, UInt16.and_self]

theorem masked32_field (shift : UInt32) {m v : UInt32} (hshift : shift.toNat < 32)
    (hm : mask p = m.toNat <<< shift.toNat) (hv : value p = v.toNat <<< shift.toNat) :
    masked32 (i >>> shift) m v = true ↔ Matches p i.toNat := by
  rw [masked32, beq_iff_eq, ← UInt32.toNat_inj, UInt32.toNat_and, UInt32.toNat_shiftRight,
    Nat.mod_eq_of_lt hshift, shiftRight_and_eq, Matches, hm, hv]

/-- **The AArch64 test is exact.** -/
theorem isPcrel_iff : isPcrel i = true ↔ (Instr.a64 i).ReadsPc := by
  have h1 := masked32_iff (i := i) (m := 0x1F000000) (v := 0x10000000)
    (p := "xxx10000xxxxxxxxxxxxxxxxxxxxxxxx".toList) rfl rfl
  have h2 := masked32_iff (i := i) (m := 0x7C000000) (v := 0x14000000)
    (p := "x00101xxxxxxxxxxxxxxxxxxxxxxxxxx".toList) rfl rfl
  have h3 := masked32_iff (i := i) (m := 0xFF000010) (v := 0x54000000)
    (p := "01010100xxxxxxxxxxxxxxxxxxx0xxxx".toList) rfl rfl
  have h4 := masked32_iff (i := i) (m := 0x7E000000) (v := 0x34000000)
    (p := "x011010xxxxxxxxxxxxxxxxxxxxxxxxx".toList) rfl rfl
  have h5 := masked32_iff (i := i) (m := 0x7E000000) (v := 0x36000000)
    (p := "x011011xxxxxxxxxxxxxxxxxxxxxxxxx".toList) rfl rfl
  have h6 := masked32_iff (i := i) (m := 0x3B000000) (v := 0x18000000)
    (p := "xx011x00xxxxxxxxxxxxxxxxxxxxxxxx".toList) rfl rfl
  simp only [isPcrel, Bool.or_eq_true, Instr.ReadsPc, ArmPcReads.a64, List.mem_cons,
    List.not_mem_nil, or_false, exists_eq_or_imp, exists_eq_left]
  rw [h1, h2, h3, h4, h5, h6]
  simp only [or_assoc]

/-! ## 3. The Thumb tests -/

/-- The high-register forms; and those with the program counter as Rm, and as Rd. -/
def highForms : Diagram := "010001xxxxxxxxxx".toList

def highRm : Diagram := "xxxxxxxxx1111xxx".toList

def highRd : Diagram := "xxxxxxxx1xxxx111".toList

/-- The diagrams that the narrow test looks for directly. -/
def narrowTests : List Diagram :=
  ["01001xxxxxxxxxxx".toList, "10100xxxxxxxxxxx".toList, "1101xxxxxxxxxxxx".toList,
    "11100xxxxxxxxxxx".toList, "1011x0x1xxxxxxxx".toList]

theorem highRm_test (hm : Matches highRm h.toNat) :
    ((h >>> 3) &&& (0xf : UInt16)) = 15 := by
  have hmask : mask highRm = 15 <<< 3 := rfl
  have hvalue : value highRm = 15 <<< 3 := rfl
  rw [Matches, hmask, hvalue, ← shiftRight_and_eq] at hm
  refine UInt16.toNat_inj.mp ?_
  rw [UInt16.toNat_and, UInt16.toNat_shiftRight]
  exact hm

theorem highRd_test (hm : Matches highRd h.toNat) :
    ((h &&& (7 : UInt16)) ||| ((h >>> 4) &&& (8 : UInt16))) = 15 := by
  have hlow : Matches "xxxxxxxxxxxxx111".toList h.toNat := hm.of_refines (by decide)
  have hhigh : Matches "xxxxxxxx1xxxxxxx".toList h.toNat := hm.of_refines (by decide)
  have hlowMask : mask "xxxxxxxxxxxxx111".toList = 7 := rfl
  have hlowValue : value "xxxxxxxxxxxxx111".toList = 7 := rfl
  have hhighMask : mask "xxxxxxxx1xxxxxxx".toList = 8 <<< 4 := rfl
  have hhighValue : value "xxxxxxxx1xxxxxxx".toList = 8 <<< 4 := rfl
  rw [Matches, hlowMask, hlowValue] at hlow
  rw [Matches, hhighMask, hhighValue, ← shiftRight_and_eq] at hhigh
  have h7 : h &&& 7 = 7 := UInt16.toNat_inj.mp (by rw [UInt16.toNat_and]; exact hlow)
  have h8 : (h >>> 4) &&& 8 = 8 :=
    UInt16.toNat_inj.mp (by rw [UInt16.toNat_and, UInt16.toNat_shiftRight]; exact hhigh)
  rw [h7, h8]
  rfl

theorem narrow_of_test (hp : p ∈ narrowTests) (hm : Matches p h.toNat) :
    thumbIsPcrel h second false = true := by
  have h1 := masked16_iff (h := h) (m := 0xf800) (v := 0x4800) (p := "01001xxxxxxxxxxx".toList)
    rfl rfl
  have h2 := masked16_iff (h := h) (m := 0xf800) (v := 0xa000) (p := "10100xxxxxxxxxxx".toList)
    rfl rfl
  have h3 := masked16_iff (h := h) (m := 0xf000) (v := 0xd000) (p := "1101xxxxxxxxxxxx".toList)
    rfl rfl
  have h4 := masked16_iff (h := h) (m := 0xf800) (v := 0xe000) (p := "11100xxxxxxxxxxx".toList)
    rfl rfl
  have h5 := masked16_iff (h := h) (m := 0xf500) (v := 0xb100) (p := "1011x0x1xxxxxxxx".toList)
    rfl rfl
  have htest : (masked16 h 0xf800 0x4800 || masked16 h 0xf800 0xa000 ||
      masked16 h 0xf000 0xd000 || masked16 h 0xf800 0xe000 || masked16 h 0xf500 0xb100) = true := by
    simp only [Bool.or_eq_true, h1, h2, h3, h4, h5]
    simp only [narrowTests, List.mem_cons, List.not_mem_nil, or_false] at hp
    rcases hp with rfl | rfl | rfl | rfl | rfl
    · exact .inl (.inl (.inl (.inl hm)))
    · exact .inl (.inl (.inl (.inr hm)))
    · exact .inl (.inl (.inr hm))
    · exact .inl (.inr hm)
    · exact .inr hm
  rw [thumbIsPcrel, if_pos (by rfl), if_pos htest]

theorem narrow_of_high (hforms : Matches highForms h.toNat)
    (hpc : Matches highRm h.toNat ∨ Matches highRd h.toNat) :
    thumbIsPcrel h second false = true := by
  have hmasked : masked16 h 0xfc00 0x4400 = true :=
    (masked16_iff rfl rfl).mpr hforms
  rw [thumbIsPcrel, if_pos (by rfl)]
  split_ifs
  · rfl
  · rcases hpc with hm | hm
    · simp [highRm_test hm]
    · simp [highRd_test hm]

/-- Every narrow Thumb instruction that reads the program counter is refused. -/
theorem narrow_rejected (hr : (Instr.t16 h).ReadsPc) : rejected (.t16 h) = true := by
  obtain ⟨p, hp, hm⟩ := hr
  have hkinds : ∀ p ∈ ArmPcReads.t16, p ∈ narrowTests ∨
      Refines p highForms ∧ (Refines p highRm ∨ Refines p highRd) := by decide +kernel
  rcases hkinds p hp with htest | ⟨hforms, hpc⟩
  · exact narrow_of_test htest hm
  · exact narrow_of_high (hm.of_refines hforms) (hpc.imp hm.of_refines hm.of_refines)

def wideLoad : Diagram := "11111000x1011111".toList

def wideFirst : Diagram := "11110xxxxxxxxxxx".toList

def wideSecond : Diagram := "0xxxxxxxxxxxxxxx".toList

/-- The wide test finds the load of a word and the branches; the two tests for `ADR` never hold. -/
theorem wide_iff : thumbIsPcrel h second true = true ↔
    Matches wideLoad h.toNat ∨
      Matches wideFirst h.toNat ∧ ¬ Matches wideSecond second.toNat := by
  have hload := masked16_iff (h := h) (m := 0xff7f) (v := 0xf85f) (p := wideLoad)
    rfl rfl
  have hfirst := masked16_iff (h := h) (m := 0xf800) (v := 0xf000) (p := wideFirst)
    rfl rfl
  have hsecond := masked16_iff (h := second) (m := 0x8000) (v := 0) (p := wideSecond)
    rfl rfl
  have hadr2 : masked16 h 0xfbf0 0xf20f = false := masked16_never (by decide)
  have hadr3 : masked16 h 0xfbf0 0xf2af = false := masked16_never (by decide)
  rw [thumbIsPcrel, if_neg (by decide), hadr2, hadr3, Bool.or_false, Bool.or_false, ← hload,
    ← hfirst, ← hsecond]
  cases masked16 h 0xff7f 0xf85f <;> simp

/-- A wide Thumb instruction that reads the program counter is refused unless it is one of the
other kinds. -/
theorem wide_rejected (hr : (Instr.t32 h second).ReadsPc) :
    rejected (.t32 h second) = true ↔ ¬ Missed (.t32 h second) := by
  have hcommon : ∀ c ∈ t32Common, Refines c.1 wideLoad ∨
      Refines c.1 wideFirst ∧ Clash c.2 wideSecond := by decide +kernel
  have hother : ∀ o ∈ t32Other, Clash o.1 wideLoad ∧
      (Clash o.1 wideFirst ∨ Refines o.2 wideSecond) := by decide +kernel
  have hapart : ∀ c ∈ t32Common, ∀ o ∈ t32Other, Clash c.1 o.1 ∨ Clash c.2 o.2 := by
    decide +kernel
  rcases hr with ⟨c, hc, hm1, hm2⟩ | ⟨o, ho, hm1, hm2⟩
  · refine iff_of_true (wide_iff.mpr ?_) ?_
    · rcases hcommon c hc with hload | ⟨hfirst, hsecond⟩
      · exact .inl (hm1.of_refines hload)
      · exact .inr ⟨hm1.of_refines hfirst, hm2.not_of_clash hsecond⟩
    · rintro ⟨o, ho, ho1, ho2⟩
      rcases hapart c hc o ho with h1 | h2
      · exact hm1.not_of_clash h1 ho1
      · exact hm2.not_of_clash h2 ho2
  · refine iff_of_false (fun hrejected => ?_) fun hmissed => hmissed ⟨o, ho, hm1, hm2⟩
    obtain ⟨hload, hbranch⟩ := hother o ho
    rcases wide_iff.mp hrejected with h1 | ⟨h1, h2⟩
    · exact hm1.not_of_clash hload h1
    · rcases hbranch with hfirst | hsecond
      · exact hm1.not_of_clash hfirst h1
      · exact h2 (hm2.of_refines hsecond)

/-! ## 4. The ARM test -/

/-- `BX` and `BLX` of any register. -/
def anyExchange : List Diagram :=
  ["xxxx000100101111111111110001xxxx".toList, "xxxx000100101111111111110011xxxx".toList]

/-- The groups in which Rn is looked at. -/
def rnGroups : List Diagram :=
  ["xxxx00xxxxxxxxxxxxxxxxxxxxxxxxxx".toList, "xxxx01xxxxxxxxxxxxxxxxxxxxxxxxxx".toList,
    "xxxx11xxxxxxxxxxxxxxxxxxxxxxxxxx".toList]

theorem arm_iff : armIsPcrel i = true ↔ (∀ p ∈ anyExchange, ¬ Matches p i.toNat) ∧
    (Matches a32Branch i.toNat ∨
      Matches a32Rn i.toNat ∧ ∃ p ∈ rnGroups, Matches p i.toNat) := by
  have hbx := masked32_iff (i := i) (m := 0x0ffffff0) (v := 0x012fff10)
    (p := "xxxx000100101111111111110001xxxx".toList) rfl rfl
  have hblx := masked32_iff (i := i) (m := 0x0ffffff0) (v := 0x012fff30)
    (p := "xxxx000100101111111111110011xxxx".toList) rfl rfl
  have hbranch := masked32_iff (i := i) (m := 0x0e000000) (v := 0x0a000000) (p := a32Branch)
    rfl rfl
  have hrn := masked32_field (i := i) 16 (m := 0xf) (v := 15) (p := a32Rn)
    (by decide) rfl rfl
  have h0 := masked32_iff (i := i) (m := 0x0c000000) (v := 0)
    (p := "xxxx00xxxxxxxxxxxxxxxxxxxxxxxxxx".toList) rfl rfl
  have h1 := masked32_iff (i := i) (m := 0x0c000000) (v := 0x04000000)
    (p := "xxxx01xxxxxxxxxxxxxxxxxxxxxxxxxx".toList) rfl rfl
  have h3 := masked32_iff (i := i) (m := 0x0c000000) (v := 0x0c000000)
    (p := "xxxx11xxxxxxxxxxxxxxxxxxxxxxxxxx".toList) rfl rfl
  simp only [anyExchange, rnGroups, List.mem_cons, List.not_mem_nil, or_false, forall_eq_or_imp,
    forall_eq, exists_eq_or_imp, exists_eq_left]
  rw [← hbx, ← hblx, ← hbranch, ← hrn, ← h0, ← h1, ← h3, armIsPcrel]
  cases masked32 i 0x0ffffff0 0x012fff10 <;> cases masked32 i 0x0ffffff0 0x012fff30 <;>
    cases masked32 i 0x0e000000 0x0a000000 <;> cases masked32 (i >>> 16) 0xf 15 <;>
    simp [or_assoc]

/-- The kinds that the ARM test does not look for are not refused. -/
theorem arm_missed (hmissed : Missed (.a32 i)) : ¬ armIsPcrel i = true := by
  intro hrejected
  obtain ⟨hexchange, hfound⟩ := arm_iff.mp hrejected
  obtain ⟨hbranch, -, hkind⟩ := hmissed
  obtain ⟨hrn, g, hg, hgroup⟩ := hfound.resolve_left hbranch
  have hany : ∀ p ∈ a32Exchange, ∃ q ∈ anyExchange, Refines p q := by decide +kernel
  have hblock : ∀ g ∈ rnGroups, Clash a32Block g := by decide +kernel
  rcases hkind with ⟨p, hp, hm⟩ | hm | ⟨-, hnot⟩
  · obtain ⟨q, hq, hr⟩ := hany p hp
    exact hexchange q hq (hm.of_refines hr)
  · exact hm.not_of_clash (hblock g hg) hgroup
  · exact hnot hrn

/-- An ARM instruction that reads the program counter is refused unless it is one of the kinds
that the test does not look for. -/
theorem arm_rejected (hr : (Instr.a32 i).ReadsPc) :
    rejected (.a32 i) = true ↔ ¬ Missed (.a32 i) := by
  refine ⟨fun hrejected hmissed => arm_missed hmissed hrejected, fun hnot => arm_iff.mpr ?_⟩
  have hbranchApart : ∀ q ∈ anyExchange, Clash a32Branch q := by decide +kernel
  have hrnReads : ∀ p ∈ a32RnReads, (∀ q ∈ anyExchange, Clash p q) ∧ Refines p a32Rn ∧
      ∃ g ∈ rnGroups, Refines p g := by decide +kernel
  have hrmReads : ∀ p ∈ a32RmReads, (∀ q ∈ anyExchange, Clash p q) ∧
      ∃ g ∈ rnGroups, Refines p g := by decide +kernel
  by_cases hbranch : Matches a32Branch i.toNat
  · exact ⟨fun q hq => hbranch.not_of_clash (hbranchApart q hq), .inl hbranch⟩
  · obtain ⟨hconditional, hkind⟩ := hr.resolve_left hbranch
    rcases hkind with hexchange | hblock | ⟨p, hp, hm⟩ | ⟨p, hp, hm⟩
    · exact absurd ⟨hbranch, hconditional, .inl hexchange⟩ hnot
    · exact absurd ⟨hbranch, hconditional, .inr (.inl hblock)⟩ hnot
    · obtain ⟨hapart, hrn, g, hg, hgroup⟩ := hrnReads p hp
      exact ⟨fun q hq => hm.not_of_clash (hapart q hq),
        .inr ⟨hm.of_refines hrn, g, hg, hm.of_refines hgroup⟩⟩
    · obtain ⟨hapart, g, hg, hgroup⟩ := hrmReads p hp
      have hrn : Matches a32Rn i.toNat := by
        by_contra hrn
        exact hnot ⟨hbranch, hconditional, .inr (.inr ⟨⟨p, hp, hm⟩, hrn⟩)⟩
      exact ⟨fun q hq => hm.not_of_clash (hapart q hq),
        .inr ⟨hrn, g, hg, hm.of_refines hgroup⟩⟩

/-! ## 5. Instructions and prologues -/

variable {mem : Memory} {target minimumSize : ℕ}

/-- The kinds that are missed read the program counter. -/
theorem readsPc_of_missed {i : Instr} (hm : Missed i) : i.ReadsPc := by
  cases i with
  | a64 w => exact absurd hm not_false
  | a32 w =>
    obtain ⟨-, hconditional, hkind⟩ := hm
    exact .inr ⟨hconditional, hkind.imp_right fun h => h.imp_right fun h => .inr h.1⟩
  | t16 h => exact absurd hm not_false
  | t32 first second => exact .inr hm

/-- **An instruction that reads the program counter is refused unless it is of a missed kind.** -/
theorem rejected_iff {i : Instr} (hr : i.ReadsPc) : rejected i = true ↔ ¬ Missed i := by
  cases i with
  | a64 w => exact iff_of_true (isPcrel_iff.mpr hr) not_false
  | a32 w => exact arm_rejected hr
  | t16 h => exact iff_of_true (narrow_rejected hr) not_false
  | t32 first second => exact wide_rejected hr

theorem thumbPrologue_accepted (mem : Memory) (target minimumSize bytes : ℕ)
    (h : thumbCopySize mem target minimumSize bytes ≠ 0) :
    ∀ i ∈ thumbPrologue mem target minimumSize bytes, rejected i = false := by
  induction bytes using thumbCopySize.induct mem target minimumSize with
  | case1 bytes hlt first wide size hrefused =>
    rw [thumbCopySize, if_pos hlt] at h
    exact absurd (if_pos hrefused) h
  | case2 bytes hlt first wide size hrefused ih =>
    rw [thumbCopySize, if_pos hlt] at h
    dsimp only at h
    rw [if_neg hrefused] at h
    rw [thumbPrologue, if_pos hlt]
    intro i hi
    rcases List.mem_cons.mp hi with rfl | hi
    · rw [Bool.or_eq_true, not_or] at hrefused
      have hfirst : thumbIsPcrel first (halfAt mem (target + bytes + 2)) wide = false :=
        Bool.eq_false_iff.mpr hrefused.2
      cases hwide : thumbIs32bit (halfAt mem (target + bytes)) with
      | true =>
        rw [if_pos rfl]
        have hwide' : wide = true := hwide
        rw [hwide'] at hfirst
        exact hfirst
      | false =>
        rw [if_neg Bool.false_ne_true]
        have hwide' : wide = false := hwide
        rw [hwide'] at hfirst
        exact hfirst
    · exact ih h i hi
  | case3 bytes hlt =>
    rw [thumbPrologue, if_neg hlt]
    exact fun i hi => absurd hi List.not_mem_nil

/-- A jump of four bytes over two narrow instructions that are not refused. -/
theorem thumb_two (hnarrow : thumbIs32bit (halfAt mem target) = false ∧
      thumbIs32bit (halfAt mem (target + 2)) = false)
    (haccepted : thumbIsPcrel (halfAt mem target) (halfAt mem (target + 2)) false = false ∧
      thumbIsPcrel (halfAt mem (target + 2)) (halfAt mem (target + 4)) false = false) :
    thumbCopySize mem target 4 0 = 4 ∧
      thumbPrologue mem target 4 0 = [.t16 (halfAt mem target), .t16 (halfAt mem (target + 2))] := by
  have hsize : thumbSize false = 2 := rfl
  constructor
  · rw [thumbCopySize, if_pos (by decide)]
    simp only [Nat.add_zero, hnarrow.1, haccepted.1, hsize]
    rw [if_neg (by decide), thumbCopySize, if_pos (by decide)]
    simp only [hnarrow.2, haccepted.2, hsize]
    rw [if_neg (by decide), thumbCopySize, if_neg (by decide)]
  · rw [thumbPrologue, if_pos (by decide)]
    simp only [Nat.add_zero, hnarrow.1, hsize, Bool.false_eq_true, if_false]
    rw [thumbPrologue, if_pos (by decide)]
    simp only [Nat.zero_add, hnarrow.2, hsize, Bool.false_eq_true, if_false]
    rw [thumbPrologue, if_neg (by decide)]

/-- A prologue is copied only when none of its instructions is refused. -/
theorem accepted_of_copies {set : InstrSet} (h : copies set mem target minimumSize = true) :
    ∀ i ∈ prologue set mem target minimumSize, rejected i = false := by
  cases set with
  | a64 =>
    rw [copies, Bool.not_eq_true', Bool.or_eq_false_iff] at h
    intro i hi
    simp only [prologue, List.mem_cons, List.not_mem_nil, or_false] at hi
    rcases hi with rfl | rfl
    · exact h.1
    · exact h.2
  | a32 =>
    have hne := of_decide_eq_true h
    rw [arm32CopySize, if_pos (by rfl)] at hne
    dsimp only at hne
    split_ifs at hne with hany
    · exact absurd rfl hne
    · intro i hi
      obtain ⟨k, hk, rfl⟩ := List.mem_map.mp hi
      rw [List.any_eq_true, not_exists] at hany
      exact Bool.eq_false_iff.mpr fun hrejected => hany k ⟨hk, hrejected⟩
  | t32 =>
    have hne := of_decide_eq_true h
    rw [arm32CopySize, if_neg (by decide)] at hne
    exact thumbPrologue_accepted mem target minimumSize 0 hne

/-- Nothing of a copied prologue reads the program counter exactly when nothing is of a missed
kind. -/
theorem clean_iff_of_copies {set : InstrSet} (h : copies set mem target minimumSize = true)
    {i : Instr} (hi : i ∈ prologue set mem target minimumSize) : ¬ i.ReadsPc ↔ ¬ Missed i := by
  refine not_congr ⟨fun hr => ?_, readsPc_of_missed⟩
  by_contra hmissed
  have hrejected := (rejected_iff hr).mpr hmissed
  rw [accepted_of_copies h i hi] at hrejected
  cases hrejected

/-! ## 6. What is copied -/

variable {a : ℕ} {thumb : Bool}

/-- Thumb code is copied in whole instructions, and in no more than 12 bytes. -/
theorem thumbCopySize_eq (mem : Memory) (target minimumSize bytes : ℕ)
    (h : thumbCopySize mem target minimumSize bytes ≠ 0) (hbytes : bytes ≤ savedSize) :
    thumbCopySize mem target minimumSize bytes =
        bytes + codeSize (thumbPrologue mem target minimumSize bytes) ∧
      thumbCopySize mem target minimumSize bytes ≤ savedSize := by
  induction bytes using thumbCopySize.induct mem target minimumSize with
  | case1 bytes hlt first wide size hrefused =>
    rw [thumbCopySize, if_pos hlt] at h
    exact absurd (if_pos hrefused) h
  | case2 bytes hlt first wide size hrefused ih =>
    have hstep : thumbCopySize mem target minimumSize bytes =
        thumbCopySize mem target minimumSize (bytes + size) := by
      rw [thumbCopySize, if_pos hlt]
      exact if_neg hrefused
    have hfits : bytes + size ≤ savedSize := by
      simp only [Bool.or_eq_true, decide_eq_true_eq, not_or, not_lt] at hrefused
      exact hrefused.1
    obtain ⟨hsum, hle⟩ := ih (hstep ▸ h) hfits
    refine ⟨?_, hstep ▸ hle⟩
    have hhead : Instr.size (if wide then .t32 first (halfAt mem (target + bytes + 2))
        else .t16 first) = size := by
      have hsize : size = thumbSize wide := rfl
      rw [hsize]
      cases wide <;> rfl
    rw [hstep, hsum, thumbPrologue.eq_def mem target minimumSize bytes, if_pos hlt]
    rw [codeSize_cons]
    have hhead' : Instr.size (if thumbIs32bit (halfAt mem (target + bytes)) = true then
        .t32 (halfAt mem (target + bytes)) (halfAt mem (target + bytes + 2))
        else .t16 (halfAt mem (target + bytes))) = size := hhead
    rw [hhead', Nat.add_assoc]
  | case3 bytes hlt =>
    rw [thumbCopySize, if_neg hlt, thumbPrologue, if_neg hlt]
    exact ⟨rfl, hbytes⟩

/-- What is copied is whole instructions. -/
theorem arm32CopySize_eq (hne : arm32CopySize mem a thumb minimumSize ≠ 0) :
    arm32CopySize mem a thumb minimumSize = codeSize (prologue (setOf thumb) mem a minimumSize) := by
  cases thumb with
  | true =>
    have h := (thumbCopySize_eq mem a minimumSize 0 hne (Nat.zero_le _)).1
    rw [Nat.zero_add] at h
    exact h
  | false =>
    rw [arm32CopySize, if_pos (by rfl)] at hne ⊢
    dsimp only at hne ⊢
    split_ifs at hne ⊢
    · exact absurd rfl hne
    · simp [codeSize, setOf, prologue, Function.comp_def, Instr.size]

/-- For a jump of at most 10 bytes, no more than 12 bytes are copied. -/
theorem arm32CopySize_le_saved (hne : arm32CopySize mem a thumb minimumSize ≠ 0)
    (hmin : minimumSize ≤ 10) : arm32CopySize mem a thumb minimumSize ≤ savedSize := by
  cases thumb with
  | true => exact (thumbCopySize_eq mem a minimumSize 0 hne (Nat.zero_le _)).2
  | false =>
    rw [arm32CopySize, if_pos (by rfl)] at hne ⊢
    dsimp only at hne ⊢
    split_ifs at hne ⊢
    · exact absurd rfl hne
    · rw [savedSize]
      omega

/-- The bytes that are copied are those of the prologue. -/
theorem copySize_eq {set : InstrSet} (h : copies set mem target minimumSize = true) :
    copySize set mem target minimumSize = codeSize (prologue set mem target minimumSize) := by
  cases set with
  | a64 => rfl
  | a32 => exact arm32CopySize_eq (a := target) (of_decide_eq_true h)
  | t32 => exact arm32CopySize_eq (a := target) (of_decide_eq_true h)

/-- `push {fp, ip, lr, pc}` reads the program counter in another way than the families, and is
copied. -/
example : (Instr.a32 0xe92dd800).KeepsPc ∧ ¬ (Instr.a32 0xe92dd800).ReadsPc ∧
    rejected (.a32 0xe92dd800) = false := by
  have hcopied : rejected (.a32 0xe92dd800) = false := by decide +kernel
  refine ⟨by decide +kernel, fun hr => ?_, hcopied⟩
  rw [(rejected_iff hr).mpr (by decide +kernel)] at hcopied
  cases hcopied

/-- A function that begins with `mov r0, r1` and `add r0, r1`. -/
def movCode : Memory := fun a => [0x08, 0x46, 0x08, 0x44].getD a 0

/-- Two registers, and what is left of an `IT` block. -/
structure TwoRegs where
  r0 : UInt32
  r1 : UInt32
  left : ℕ
  deriving DecidableEq

/-- What these two instructions do; others are not met. -/
def twoRegMachine : Machine TwoRegs where
  effect _ i s :=
    .next
      { s with
        r0 := if i = .t16 0x4608 then s.r1 else if i = .t16 0x4408 then s.r0 + s.r1 else s.r0
        left := i.itAfter s.left }
  jump dest s := (s, dest)
  left := TwoRegs.left
  left_next _ _ _ _ h := by
    obtain rfl := Outcome.next.inj h
    rfl
  jump_outside _ _ _ := rfl

theorem prologue_movCode : prologue .t32 movCode 0 4 = [.t16 0x4608, .t16 0x4408] :=
  (thumb_two (by decide) (by decide)).2

theorem copies_movCode : copies .t32 movCode 0 4 = true := by
  rw [copies, arm32CopySize, if_neg (by decide), (thumb_two (by decide) (by decide)).1]
  rfl

/-- A function that begins with `adr.w r0, label`. -/
def adrCode : Memory := fun a => [0xaf, 0xf2, 0x04, 0x00].getD a 0

end YukiZygisk.InlineHook
