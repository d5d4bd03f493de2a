/-
# The layout of a hook on ARM (`install` and `uninstall` in `inline_hook.hpp`)

The installer copies whole instructions until they cover the jump that it writes over them.  How
long the jump is depends on the mode, on the instruction set and, in Thumb code, on the alignment of
the target; how much is copied depends on the instructions.  The copies have 12 bytes in the record
of the hook, and are followed in the trampoline by a jump back.

Whatever the instructions, the alignment and the mode are, the parts fit together: the jump lies
over copied instructions only, the copies fit, and removing the hook writes the original bytes back.
The jump behind the copies is encoded right, but the installer does not look for `IT` instructions.
When the copies end inside of an `IT` block, the jump is an instruction of that block and need not
be taken: `not_layout_arm`.  **The layout is right exactly when no block is open behind the
copies** (`layout_arm_iff`).

That the jump lies over copied instructions is a comparison of sizes: the installer copies at least
as many bytes as the jump has (`planArm_cases`), and by whole instructions (`arm32CopySize_eq` in
`Prologues.lean`).  That the copies fit their 12 bytes follows from the longest jump, which has 10.
The jump back is the absolute one of `BranchEmission.lean`, to the address behind the copies and
with the bit of the instruction set; it is decoded to that address, and inside of an open block it
is not decoded to a jump that is taken.  Writing back restores the bytes because what was saved is
what was there, and what was written is not longer (`writeBytes_readBytes`).
-/
import YukiZygisk.Core.BranchEmission
import YukiZygisk.Core.Prologues

namespace YukiZygisk.InlineHook

open ArmJumps ArmPcReads

/-! ## 1. The trampoline -/

/-- What the trampoline of an ARM hook does after the capture stub: where `call_original` is, and
the bytes there. -/
def callOriginalArm (mem : Memory) (target : ℕ) (preferRelative : Bool) (env : Env) :
    Option (ℕ × List UInt8) :=
  let thumb : Bool := target % 2 = 1
  let address := target - target % 2
  match planArm mem address thumb preferRelative env with
  | none => none
  | some (page, _, copySize, _) =>
    let callOriginal := page + (env.captureSize + 3) / 4 * 4
    some (callOriginal, readBytes mem address copySize ++
      emitAbsoluteJump (callOriginal + copySize) (address + copySize + if thumb then 1 else 0)
        thumb)

/-- The pages that the system maps are pages of the address space. -/
def Env.Paged (env : Env) : Prop :=
  ∀ page, env.nearPage = some page ∨ env.farPage = some page →
    page % 0x1000 = 0 ∧ page + 0x1000 ≤ 2 ^ 32

/-- The instructions that a hook has copied. -/
def Hook.copied (h : Hook) (mem : Memory) (target : ℕ) : List Instr :=
  prologue (setOf (target % 2 = 1)) mem (target - target % 2) h.patchedSize

/-- **The parts of a hook on ARM fit together.**  The jump changes no byte outside of the
instructions that are copied; they are whole instructions and fit in the record; the trampoline has
them, followed by a jump that lands behind them in the original code, in the instruction set of the
target; and removing the hook writes the original bytes over the jump. -/
structure LayoutRight (mem mem' : Memory) (target : ℕ) (preferRelative : Bool) (env : Env)
    (h : Hook) : Prop where
  within : ∀ x, mem' x ≠ mem x →
    target - target % 2 ≤ x ∧ x < target - target % 2 + h.patchedSize
  covered : h.patchedSize ≤ codeSize (h.copied mem target)
  fits : codeSize (h.copied mem target) ≤ savedSize
  saved : h.saved = readBytes mem (target - target % 2) (codeSize (h.copied mem target))
  jumpBack : ∃ callOriginal bytes,
    callOriginalArm mem target preferRelative env = some (callOriginal, h.saved ++ bytes) ∧
    jumpIn (writeBytes mem' callOriginal (h.saved ++ bytes))
        (callOriginal + codeSize (h.copied mem target)) (target % 2 = 1)
        (itLeft (h.copied mem target)) =
      some ⟨target % 2 = 1, target - target % 2 + codeSize (h.copied mem target)⟩
  removed : ∀ m, (uninstall .arm m h true).2 = true ∧ ∀ x, (uninstall .arm m h true).1 x =
    if target - target % 2 ≤ x ∧ x < target - target % 2 + h.patchedSize then mem x else m x

/-! ## 2. What is copied -/

variable {mem : Memory} {a page patchSize copySize minimumSize n k : ℕ}
  {thumb preferRelative relative : Bool} {env : Env} {l l' : List UInt8}

/-- Copied instructions end where the next one begins. -/
theorem copySize_aligned (ha : (Target.mk thumb a).Aligned)
    (hne : arm32CopySize mem a thumb minimumSize ≠ 0) :
    (Target.mk thumb (a + arm32CopySize mem a thumb minimumSize)).Aligned := by
  have hsum := arm32CopySize_eq hne
  cases thumb with
  | true =>
    have heven := codeSize_even (prologue (setOf true) mem a minimumSize)
    have ha : a % 2 = 0 := ha
    have hend : (a + arm32CopySize mem a true minimumSize) % 2 = 0 := by omega
    exact hend
  | false =>
    have hwords : arm32CopySize mem a false minimumSize = (minimumSize + 3) / 4 * 4 := by
      rw [arm32CopySize, if_pos (by rfl)] at hne ⊢
      dsimp only at hne ⊢
      split_ifs at hne ⊢
      · exact absurd rfl hne
      · rfl
    have ha : a % 4 = 0 := ha
    have hend : (a + arm32CopySize mem a false minimumSize) % 4 = 0 := by omega
    exact hend

/-- What the installer has planned, by its two modes. -/
theorem planArm_cases
    (hp : planArm mem a thumb preferRelative env = some (page, patchSize, copySize, relative)) :
    copySize = arm32CopySize mem a thumb patchSize ∧ copySize ≠ 0 ∧
      ((relative = true ∧ patchSize = 4 ∧ env.nearPage = some page) ∨
        (relative = false ∧ patchSize = absoluteJumpSize a thumb ∧ env.farPage = some page)) := by
  unfold planArm at hp
  dsimp only at hp
  split at hp
  · rename_i plan hnear
    obtain rfl := Option.some.inj hp
    split_ifs at hnear with hcond
    obtain ⟨page', hpage, hplan⟩ := Option.map_eq_some_iff.mp hnear
    cases hplan
    simp only [Bool.and_eq_true, decide_eq_true_eq] at hcond
    exact ⟨rfl, hcond.2, .inl ⟨rfl, rfl, hpage⟩⟩
  · split_ifs at hp with hzero
    obtain ⟨page', hpage, hplan⟩ := Option.map_eq_some_iff.mp hp
    cases hplan
    exact ⟨rfl, hzero, .inr ⟨rfl, rfl, hpage⟩⟩

theorem absoluteJumpSize_le (a : ℕ) (thumb : Bool) : absoluteJumpSize a thumb ≤ 10 := by
  rw [absoluteJumpSize]
  split_ifs <;> decide

/-! ## 3. What is written -/

/-- Writing two blocks one behind the other. -/
theorem writeBytes_append (mem : Memory) (a : ℕ) (l l' : List UInt8) :
    writeBytes mem a (l ++ l') = writeBytes (writeBytes mem a l) (a + l.length) l' := by
  funext x
  simp only [writeBytes, List.length_append]
  by_cases hl : a ≤ x ∧ x < a + l.length
  · rw [if_pos (by omega), if_neg (by omega), if_pos hl,
      List.getD_append _ _ _ _ (by omega)]
  · by_cases hl' : a + l.length ≤ x ∧ x < a + l.length + l'.length
    · rw [if_pos (by omega), if_pos hl', List.getD_append_right _ _ _ _ (by omega)]
      congr 1
      omega
    · rw [if_neg (by omega), if_neg hl', if_neg hl]

/-- Writing back what was read. -/
theorem writeBytes_readBytes (m : Memory) (a n x : ℕ) :
    writeBytes m a (readBytes mem a n) x = if a ≤ x ∧ x < a + n then mem x else m x := by
  rw [writeBytes, length_readBytes]
  by_cases hx : a ≤ x ∧ x < a + n
  · rw [if_pos hx, if_pos hx, getD_readBytes (by omega), Nat.add_sub_cancel' hx.1]
  · rw [if_neg hx, if_neg hx]

theorem take_readBytes (h : k ≤ n) : (readBytes mem a n).take k = readBytes mem a k := by
  rw [readBytes, readBytes, ← List.map_take, List.take_range, Nat.min_eq_left h]

/-- What the installer leaves when it succeeds. -/
theorem installArm_cases {mem mem' : Memory} {target : ℕ} {h : Hook}
    (hi : installArm mem target preferRelative env = (mem', some h)) :
    ∃ (page patchSize copySize : ℕ) (relative : Bool) (patch : List UInt8),
      planArm mem (target - target % 2) (target % 2 = 1) preferRelative env =
        some (page, patchSize, copySize, relative) ∧
      (env.captureSize + 3) / 4 * 4 + copySize + 10 ≤ 0x1000 ∧
      mem' = writeBytes mem (target - target % 2) (patch.take patchSize) ∧
      h = ⟨target - target % 2, readBytes mem (target - target % 2) copySize, page, patchSize,
        true⟩ := by
  unfold installArm at hi
  dsimp only at hi
  split at hi
  · cases hi
  · rename_i page patchSize copySize relative hplan
    by_cases hsize : 0x1000 < (env.captureSize + 3) / 4 * 4 + copySize + 10
    · rw [if_pos hsize] at hi
      cases hi
    by_cases hprot : (!env.mprotect) = true
    · rw [if_neg hsize, if_pos hprot] at hi
      cases hi
    by_cases hpatch : (!env.patchText) = true
    · rw [if_neg hsize, if_neg hprot, if_pos hpatch] at hi
      cases hi
    rw [if_neg hsize, if_neg hprot, if_neg hpatch] at hi
    obtain ⟨rfl, hh⟩ := Prod.mk.inj hi
    obtain rfl := Option.some.inj hh
    exact ⟨page, patchSize, copySize, _, _, hplan, Nat.not_lt.mp hsize, rfl, rfl⟩

/-! ## 4. The layout -/

/-- The jump behind the copies is taken only outside of a block. -/
theorem LayoutRight.closed {mem' : Memory} {target : ℕ} {h : Hook}
    (hl : LayoutRight mem mem' target preferRelative env h) : itLeft (h.copied mem target) = 0 := by
  obtain ⟨callOriginal, bytes, -, hjump⟩ := hl.jumpBack
  by_contra hopen
  rw [jumpIn, if_neg hopen] at hjump
  cases hjump

/-- On ARM the copies leave no block open. -/
theorem closed_of_arm {target : ℕ} (h : Hook) (harm : target % 2 = 0) :
    itLeft (h.copied mem target) = 0 := by
  have hset : setOf (target % 2 = 1) = .a32 := by
    simp [setOf, harm]
  have hwords : h.copied mem target =
      ((List.range ((h.patchedSize + 3) / 4)).map fun i =>
        wordAt mem (target - target % 2 + 4 * i)).map Instr.a32 := by
    rw [Hook.copied, hset, prologue, List.map_map]
    rfl
  rw [hwords, itLeft_a32]

/-- The address of a target, without the bit of the instruction set. -/
theorem address_aligned {target : ℕ} (htarget : target % 2 = 1 ∨ target % 4 = 0) :
    (Target.mk (target % 2 = 1) (target - target % 2)).Aligned := by
  rw [Target.Aligned]
  dsimp only
  by_cases hodd : target % 2 = 1
  · rw [if_pos (decide_eq_true hodd)]
    omega
  · rw [if_neg (by simpa using hodd)]
    omega

/-- Where the copies are and where they came from, the jump behind them lands right. -/
theorem jump_back {t : Target} (callOriginal : ℕ) (mem : Memory) (ht : t.Aligned)
    (hlt : t.interwork < 2 ^ 32) (hcall : (Target.mk t.thumb (callOriginal + l.length)).Aligned)
    (hroom : callOriginal + l.length + 10 ≤ 2 ^ 32) :
    jump (writeBytes mem callOriginal (l ++
      emitAbsoluteJump (callOriginal + l.length) t.interwork t.thumb))
        (callOriginal + l.length) t.thumb = some t := by
  rw [writeBytes_append]
  refine jump_absolute ht hlt hcall ?_
  have := absoluteJumpSize_le (callOriginal + l.length) t.thumb
  omega

/-- **When the layout is right.**  When the installer succeeds, on a page of the address space and
for a target that is the address of a function in it, the parts of the hook fit together exactly
when the copied instructions leave no `IT` block open. -/
theorem layout_arm_iff (mem mem' : Memory) (target : ℕ) (preferRelative : Bool) (env : Env)
    (h : Hook) (hi : installArm mem target preferRelative env = (mem', some h))
    (hpaged : env.Paged) (htarget : target % 2 = 1 ∨ target % 4 = 0)
    (hcode : target + 13 ≤ 2 ^ 32) :
    LayoutRight mem mem' target preferRelative env h ↔ itLeft (h.copied mem target) = 0 := by
  refine ⟨LayoutRight.closed, fun hclosed => ?_⟩
  obtain ⟨page, patchSize, copySize, relative, patch, hplan, hsize, rfl, rfl⟩ := installArm_cases hi
  obtain ⟨hcopy, hne, hmode⟩ := planArm_cases hplan
  have hmin : patchSize ≤ 10 := by
    rcases hmode with ⟨-, hfour, -⟩ | ⟨-, habs, -⟩
    · omega
    · exact habs ▸ absoluteJumpSize_le _ _
  have hpage : page % 0x1000 = 0 ∧ page + 0x1000 ≤ 2 ^ 32 := by
    rcases hmode with ⟨-, -, hpage⟩ | ⟨-, -, hpage⟩
    · exact hpaged page (.inl hpage)
    · exact hpaged page (.inr hpage)
  have hle := planArm_le hplan
  have haddress := address_aligned htarget
  have hroom := arm32CopySize_le_saved (hcopy ▸ hne) hmin
  have hend := copySize_aligned haddress (hcopy ▸ hne)
  have hcopied : codeSize (Hook.copied ⟨target - target % 2,
      readBytes mem (target - target % 2) copySize, page, patchSize, true⟩ mem target) =
        copySize := (arm32CopySize_eq (hcopy ▸ hne)).symm.trans hcopy.symm
  rw [← hcopy] at hroom hend
  constructor
  · intro x hx
    by_contra hout
    refine hx (if_neg fun hin => hout ⟨hin.1, hin.2.trans_le ?_⟩)
    exact Nat.add_le_add_left (List.length_take_le _ _) _
  · exact hcopied ▸ hle
  · exact hcopied ▸ hroom
  · rw [hcopied]
  · refine ⟨page + (env.captureSize + 3) / 4 * 4,
      emitAbsoluteJump (page + (env.captureSize + 3) / 4 * 4 + copySize)
        (Target.mk (target % 2 = 1) (target - target % 2 + copySize)).interwork
        (target % 2 = 1), ?_, ?_⟩
    · rw [callOriginalArm]
      dsimp only
      rw [hplan, Target.interwork]
      split_ifs <;> rfl
    · have hback := jump_back (t := ⟨target % 2 = 1, target - target % 2 + copySize⟩)
        (l := readBytes mem (target - target % 2) copySize)
        (page + (env.captureSize + 3) / 4 * 4)
        (writeBytes mem (target - target % 2) (patch.take patchSize)) hend ?_ ?_ ?_
      · rw [length_readBytes] at hback
        rw [hcopied, jumpIn, if_pos hclosed]
        exact hback
      · have hroom' : copySize ≤ 12 := hroom
        rw [Target.interwork]
        split_ifs with hodd
        · have hset : target % 2 = 1 := of_decide_eq_true hodd
          dsimp only
          omega
        · have hset : ¬ target % 2 = 1 := fun h => hodd (decide_eq_true h)
          dsimp only
          omega
      · rw [length_readBytes]
        rw [Target.Aligned] at haddress hend ⊢
        dsimp only at haddress hend ⊢
        split_ifs at haddress hend ⊢ <;> omega
      · rw [length_readBytes]
        omega
  · intro m
    refine ⟨rfl, fun x => ?_⟩
    have hsaved : (uninstall .arm m ⟨target - target % 2,
        readBytes mem (target - target % 2) copySize, page, patchSize, true⟩ true).1 =
          writeBytes m (target - target % 2)
            ((readBytes mem (target - target % 2) copySize).take patchSize) := rfl
    rw [hsaved, take_readBytes hle, writeBytes_readBytes]

/-! ### An open block -/

/-- A Thumb function that begins with `movs r0, #0` and a block of one instruction; and one whose
block is among the first two instructions. -/
def openCode : Memory := fun a => [0x00, 0x20, 0x08, 0xbf].getD (a - 0x10000) 0
def closedCode : Memory := fun a => [0x08, 0xbf, 0x08, 0x46].getD (a - 0x10000) 0

/-- A page is near, and everything succeeds. -/
def nearEnv : Env := ⟨some 0x40000, none, 64, true, true⟩

theorem paged_nearEnv : nearEnv.Paged := by
  rintro page (hpage | hpage)
  · obtain rfl := Option.some.inj hpage
    decide
  · cases hpage

/-- The record of a relative hook over the first two instructions of a function there. -/
def nearHook (mem : Memory) : Hook := ⟨0x10000, readBytes mem 0x10000 4, 0x40000, 4, true⟩

/-- The installer puts it in. -/
theorem install_near {mem : Memory} (h : thumbCopySize mem 0x10000 4 0 = 4) :
    installArm mem 0x10001 true nearEnv =
      (writeBytes mem 0x10000 (emitRelativeJump 0x10000 0x40000 true), some (nearHook mem)) := by
  have hsize : arm32CopySize mem 0x10000 true 4 = 4 := h
  have hplan : planArm mem 0x10000 true true nearEnv = some (0x40000, 4, 4, true) := by
    simp [planArm, hsize, nearEnv]
  rw [installArm]
  dsimp only
  rw [show decide (0x10001 % 2 = 1) = true from rfl, show 0x10001 - 0x10001 % 2 = 0x10000 from rfl,
    hplan]
  rfl

theorem thumb_closedCode : thumbCopySize closedCode 0x10000 4 0 = 4 ∧
    thumbPrologue closedCode 0x10000 4 0 = [.t16 0xbf08, .t16 0x4608] :=
  thumb_two (by decide) (by decide)

theorem thumb_openCode : thumbCopySize openCode 0x10000 4 0 = 4 ∧
    thumbPrologue openCode 0x10000 4 0 = [.t16 0x2000, .t16 0xbf08] :=
  thumb_two (by decide) (by decide)

/-- A block that ends among the copies. -/
theorem layout_arm_iff_sample : LayoutRight closedCode
    (writeBytes closedCode 0x10000 (emitRelativeJump 0x10000 0x40000 true)) 0x10001 true nearEnv
      (nearHook closedCode) := by
  rw [layout_arm_iff _ _ _ _ _ _ (install_near thumb_closedCode.1) paged_nearEnv (.inl rfl)
    (by decide)]
  have hcopied : (nearHook closedCode).copied closedCode 0x10001 = [.t16 0xbf08, .t16 0x4608] :=
    thumb_closedCode.2
  rw [hcopied]
  decide

/-- **A block that is open behind the copies**: the jump is its only instruction. -/
theorem not_layout_arm : ¬ ∀ (mem mem' : Memory) (target : ℕ) (preferRelative : Bool) (env : Env)
    (h : Hook), installArm mem target preferRelative env = (mem', some h) → env.Paged →
      (target % 2 = 1 ∨ target % 4 = 0) → target + 13 ≤ 2 ^ 32 →
        LayoutRight mem mem' target preferRelative env h := by
  intro hall
  have hclosed := (hall openCode _ 0x10001 true nearEnv _ (install_near thumb_openCode.1)
    paged_nearEnv (.inl rfl) (by decide)).closed
  have hcopied : (nearHook openCode).copied openCode 0x10001 = [.t16 0x2000, .t16 0xbf08] :=
    thumb_openCode.2
  rw [hcopied] at hclosed
  exact absurd hclosed (by decide)

end YukiZygisk.InlineHook
