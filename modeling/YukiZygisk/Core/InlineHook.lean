/-
# Inline hooks (`api_inline_hook`, `api_inline_unhook`, `inline_hook.hpp`)

An inline hook saves the first bytes of a function, writes a jump over them, and is removed by
writing the saved bytes back.  The API refuses a second hook on one target, but not one whose
window overlaps the window of another hook.  If such a hook came later, and the earlier one is
removed first, then the later one puts back bytes of the earlier hook's jump: no record is left and
the code is not what it was (`not_undone`).

**When no hook is removed from below a later one that overlaps it, the code is what it was whenever
no record is left** (`undone`).  The jumps are translated in full for AArch64, ARM and Thumb, but
the proof needs only how long they are.

A hook is a change that saves what it overwrites (`Lib/Undo`): its window is the patched range, and
what is saved covers the window (`Installs`).  The invariant says that undoing all hooks that have a
record, the last one first, gives the code from before the first.  A hook that is installed keeps
it, whatever it overlaps.  Removing one keeps it when no later record's window touches its own
(`Inv.removed`), which is the guard.  `install_outcome` is the only place where the encodings
matter: it says for all three instruction sets that the installer either leaves the code alone, or
writes no more than it has saved.
-/
import YukiZygisk.Lib.Undo
import YukiZygisk.Lib.Bytes
import YukiZygisk.Lib.Lts

namespace YukiZygisk.InlineHook

/-! ## 1. Memory -/

/-- The code of the process. -/
abbrev Memory := ℕ → UInt8

/-- The bytes from an address on. -/
def readBytes (mem : Memory) (a n : ℕ) : List UInt8 := (List.range n).map fun i => mem (a + i)

/-- `yz_patch_text` when it succeeds: the bytes are written at the address. -/
def writeBytes (mem : Memory) (a : ℕ) (bytes : List UInt8) : Memory := fun x =>
  if a ≤ x ∧ x < a + bytes.length then bytes.getD (x - a) 0 else mem x

/-- The instruction of four bytes at an address. -/
def wordAt (mem : Memory) (a : ℕ) : UInt32 := UInt32.ofNat (Bytes.ofBytes (readBytes mem a 4))

/-- The Thumb half-word at an address. -/
def halfAt (mem : Memory) (a : ℕ) : UInt16 := UInt16.ofNat (Bytes.ofBytes (readBytes mem a 2))

/-- An `int64_t` as a `uint32_t`. -/
def toU32 (n : ℤ) : UInt32 := UInt32.ofNat (n % 2 ^ 32).toNat

/-! ## 2. Instructions -/

/-- The bits under a mask have a value. -/
def masked32 (i mask value : UInt32) : Bool := (i &&& mask) == value

def masked16 (i mask value : UInt16) : Bool := (i &&& mask) == value

/-- `is_pcrel`: the AArch64 instructions that cannot be copied. -/
def isPcrel (i : UInt32) : Bool :=
  masked32 i 0x1F000000 0x10000000 || masked32 i 0x7C000000 0x14000000 ||
  masked32 i 0xFF000010 0x54000000 || masked32 i 0x7E000000 0x34000000 ||
  masked32 i 0x7E000000 0x36000000 || masked32 i 0x3B000000 0x18000000

/-- `enc_b`. -/
def encB (pc dest : ℕ) : UInt32 := 0x14000000 ||| (toU32 (((dest : ℤ) - pc) / 4) &&& 0x03FFFFFF)

/-- `BTI c`. -/
def btiC : UInt32 := 0xD503245F

/-- `thumb_is_32bit`. -/
def thumbIs32bit (instruction : UInt16) : Bool :=
  let top : UInt16 := instruction >>> 11
  top == 0x1d || top == 0x1e || top == 0x1f

/-- `thumb_is_pcrel`. -/
def thumbIsPcrel (first second : UInt16) (wide : Bool) : Bool :=
  if !wide then
    if masked16 first 0xf800 0x4800 || masked16 first 0xf800 0xa000 ||
        masked16 first 0xf000 0xd000 || masked16 first 0xf800 0xe000 ||
        masked16 first 0xf500 0xb100 then true
    else if masked16 first 0xfc00 0x4400 then
      let rm : UInt16 := (first >>> 3) &&& (0xf : UInt16)
      let rd : UInt16 := (first &&& (7 : UInt16)) ||| ((first >>> 4) &&& (8 : UInt16))
      rm == 15 || rd == 15
    else false
  else if masked16 first 0xff7f 0xf85f || masked16 first 0xfbf0 0xf20f ||
      masked16 first 0xfbf0 0xf2af then true
  else masked16 first 0xf800 0xf000 && !masked16 second 0x8000 0

/-- `arm_is_pcrel`. -/
def armIsPcrel (instruction : UInt32) : Bool :=
  if masked32 instruction 0x0ffffff0 0x012fff10 ||
      masked32 instruction 0x0ffffff0 0x012fff30 then false
  else if masked32 instruction 0x0e000000 0x0a000000 then true
  else if !masked32 (instruction >>> 16) 0xf 15 then false
  else masked32 instruction 0x0c000000 0 || masked32 instruction 0x0c000000 0x04000000 ||
    masked32 instruction 0x0c000000 0x0c000000

/-- The size of a Thumb instruction. -/
def thumbSize (wide : Bool) : ℕ := if wide then 4 else 2

theorem thumbSize_pos (wide : Bool) : 0 < thumbSize wide := by
  cases wide <;> decide

/-- The loop of `arm32_copy_size` over Thumb instructions. -/
def thumbCopySize (mem : Memory) (target minimumSize bytes : ℕ) : ℕ :=
  if bytes < minimumSize then
    let first := halfAt mem (target + bytes)
    let wide := thumbIs32bit first
    let instructionSize := thumbSize wide
    if 12 < bytes + instructionSize || thumbIsPcrel first (halfAt mem (target + bytes + 2)) wide then
      0
    else thumbCopySize mem target minimumSize (bytes + instructionSize)
  else bytes
termination_by minimumSize - bytes
decreasing_by
  have hpos := thumbSize_pos (thumbIs32bit (halfAt mem (target + bytes)))
  omega

/-- `arm32_copy_size`: the bytes of whole instructions, or zero if one cannot be copied. -/
def arm32CopySize (mem : Memory) (target : ℕ) (thumb : Bool) (minimumSize : ℕ) : ℕ :=
  if !thumb then
    let wordsNeeded := (minimumSize + 3) / 4
    if (List.range wordsNeeded).any fun i => armIsPcrel (wordAt mem (target + 4 * i)) then 0
    else wordsNeeded * 4
  else thumbCopySize mem target minimumSize 0

/-- `absolute_jump_size`. -/
def absoluteJumpSize (address : ℕ) (thumb : Bool) : ℕ :=
  if thumb && (address / 2 % 2 = 1 : Bool) then 10 else 8

/-- The bytes of a word. -/
def wordBytes (w : UInt32) : List UInt8 := Bytes.toBytes 4 w.toNat

/-- The bytes of a half-word. -/
def halfBytes (h : UInt16) : List UInt8 := Bytes.toBytes 2 h.toNat

/-- The two half-words of a Thumb branch over an encoded offset. -/
def thumbBranch (encoded : UInt32) : UInt32 × UInt32 :=
  let sign : UInt32 := (encoded >>> 24) &&& 1
  let i1 : UInt32 := (encoded >>> 23) &&& 1
  let i2 : UInt32 := (encoded >>> 22) &&& 1
  let j1 : UInt32 := (~~~i1 ^^^ sign) &&& 1
  let j2 : UInt32 := (~~~i2 ^^^ sign) &&& 1
  ((0xf000 : UInt32) ||| (sign <<< 10) ||| ((encoded >>> 12) &&& 0x03ff),
    (0x9000 : UInt32) ||| (j1 <<< 13) ||| (j2 <<< 11) ||| ((encoded >>> 1) &&& 0x07ff))

/-- `emit_relative_jump`. -/
def emitRelativeJump (pc dest : ℕ) (thumb : Bool) : List UInt8 :=
  let encoded := toU32 ((dest : ℤ) - (pc + if thumb then 4 else 8))
  if !thumb then wordBytes ((0xea000000 : UInt32) ||| ((encoded >>> 2) &&& 0x00ffffff))
  else halfBytes (thumbBranch encoded).1.toUInt16 ++ halfBytes (thumbBranch encoded).2.toUInt16

/-- `emit_absolute_jump`. -/
def emitAbsoluteJump (instructionAddress dest : ℕ) (thumb : Bool) : List UInt8 :=
  if thumb then
    let needsPadding : Bool := instructionAddress / 2 % 2 = 1
    halfBytes 0xf8df ++ halfBytes (if needsPadding then 0xf004 else 0xf000) ++
      (if needsPadding then halfBytes 0xbf00 else []) ++ wordBytes (UInt32.ofNat dest)
  else wordBytes 0xe51ff004 ++ wordBytes (UInt32.ofNat dest)

/-! ## 3. Installing and removing -/

/-- The three builds of the header. -/
inductive Arch where
  | aarch64
  | arm
  | other
  deriving DecidableEq

/-- `yuki::ihook::Hook`.  On AArch64 the patched size is that of `saved`. -/
structure Hook where
  target : ℕ
  saved : List UInt8
  trampoline : ℕ
  patchedSize : ℕ
  active : Bool

/-- What the system answers: the pages that it maps near the target and anywhere, whether the page
can be made executable, and whether the text patch succeeds; and the size of the capture stub. -/
structure Env where
  nearPage : Option ℕ
  farPage : Option ℕ
  captureSize : ℕ
  mprotect : Bool
  patchText : Bool

/-- `install` on AArch64. -/
def installAarch64 (mem : Memory) (target : ℕ) (env : Env) : Memory × Option Hook :=
  if isPcrel (wordAt mem target) || isPcrel (wordAt mem (target + 4)) then (mem, none)
  else
    match env.nearPage with
    | none => (mem, none)
    | some page =>
      if !env.mprotect then (mem, none)
      else if !env.patchText then (mem, none)
      else
        (writeBytes mem target (wordBytes btiC ++ wordBytes (encB (target + 4) page)),
          some ⟨target, readBytes mem target 8, page, 8, true⟩)

/-- The page of the trampoline, the patched and the copied size, and whether the jump is
relative. -/
def planArm (mem : Memory) (address : ℕ) (thumb preferRelative : Bool) (env : Env) :
    Option (ℕ × ℕ × ℕ × Bool) :=
  let near : Option (ℕ × ℕ × ℕ × Bool) :=
    if preferRelative && (arm32CopySize mem address thumb 4 ≠ 0 : Bool) then
      env.nearPage.map fun page => (page, 4, arm32CopySize mem address thumb 4, true)
    else none
  match near with
  | some plan => some plan
  | none =>
    let patchSize := absoluteJumpSize address thumb
    let copySize := arm32CopySize mem address thumb patchSize
    if copySize = 0 then none
    else env.farPage.map fun page => (page, patchSize, copySize, false)

/-- `install` on ARM. -/
def installArm (mem : Memory) (target : ℕ) (preferRelative : Bool) (env : Env) :
    Memory × Option Hook :=
  let thumb : Bool := target % 2 = 1
  let address := target - target % 2
  match planArm mem address thumb preferRelative env with
  | none => (mem, none)
  | some (page, patchSize, copySize, relative) =>
    let trampolineSize := (env.captureSize + 3) / 4 * 4 + copySize + 10
    if 0x1000 < trampolineSize then (mem, none)
    else if !env.mprotect then (mem, none)
    else if !env.patchText then (mem, none)
    else
      let patch := if relative then emitRelativeJump address page thumb
        else emitAbsoluteJump address (page + if thumb then 1 else 0) thumb
      (writeBytes mem address (patch.take patchSize),
        some ⟨address, readBytes mem address copySize, page, patchSize, true⟩)

/-- `install`. -/
def install (arch : Arch) (mem : Memory) (target : ℕ) (preferRelative : Bool) (env : Env) :
    Memory × Option Hook :=
  match arch with
  | .aarch64 => installAarch64 mem target env
  | .arm => installArm mem target preferRelative env
  | .other => (mem, none)

/-- `uninstall` with `UnhookMode::RestoreBytes`. -/
def uninstall (arch : Arch) (mem : Memory) (h : Hook) (patchText : Bool) : Memory × Bool :=
  match arch with
  | .other => (mem, false)
  | _ =>
    if !h.active then (mem, true)
    else if !patchText then (mem, false)
    else (writeBytes mem h.target (h.saved.take h.patchedSize), true)

/-! ## 4. The API -/

/-- `InlineHookRecord`. -/
structure Record where
  target : ℕ
  hook : Hook

/-- The code, and `g_inline_hooks`. -/
structure State where
  mem : Memory
  records : List Record

/-- `api_inline_hook`; whether it returns `kSuccess`. -/
def apiInlineHook (arch : Arch) (s : State) (target addr : ℕ) (env : Env) : State × Bool :=
  if target = 0 ∨ addr = 0 then (s, false)
  else if s.records.any fun r => r.target = target then (s, false)
  else
    match install arch s.mem target true env with
    | (mem, none) => ({ s with mem := mem }, false)
    | (mem, some hook) => (⟨mem, s.records ++ [⟨target, hook⟩]⟩, true)

/-- `api_inline_unhook`; whether it returns `kSuccess`. -/
def apiInlineUnhook (arch : Arch) (s : State) (target : ℕ) (patchText : Bool) : State × Bool :=
  if target = 0 then (s, false)
  else
    match s.records.find? fun r => r.target = target with
    | none => (s, false)
    | some r =>
      match uninstall arch s.mem r.hook patchText with
      | (mem, false) => ({ s with mem := mem }, false)
      | (mem, true) => (⟨mem, s.records.eraseP fun r => r.target = target⟩, true)

/-- The calls. -/
inductive Action where
  | hook (target addr : ℕ) (env : Env)
  | unhook (target : ℕ) (patchText : Bool)

/-- The API on some code, with no hook in it. -/
def api (arch : Arch) (code : Memory) : Lts State Action where
  init s := s = ⟨code, []⟩
  step s
    | .hook target addr env => some (apiInlineHook arch s target addr env).1
    | .unhook target patchText => some (apiInlineUnhook arch s target patchText).1

/-! ## 5. What installing and removing do to the code -/

variable {arch : Arch} {code mem mem' : Memory} {s s' : State} {h : Hook} {r : Record} {env : Env}
  {target addr a n i minimumSize : ℕ} {thumb preferRelative : Bool}

@[simp] theorem length_readBytes (mem : Memory) (a n : ℕ) : (readBytes mem a n).length = n := by
  rw [readBytes, List.length_map, List.length_range]

theorem getD_readBytes (hi : i < n) : (readBytes mem a n).getD i 0 = mem (a + i) := by
  rw [List.getD_eq_getElem _ _ (by rwa [length_readBytes])]
  simp [readBytes]

/-- The bytes that a hook writes over. -/
def Hook.window (h : Hook) : Set ℕ := {x | h.target ≤ x ∧ x < h.target + h.patchedSize}

/-- A hook as a change that saves what it overwrites. -/
def Hook.toSaved (h : Hook) : Undo.Saved ℕ UInt8 where
  window := h.window
  value x := h.saved.getD (x - h.target) 0

/-- A hook has saved its window and written over nothing else. -/
structure Installs (mem mem' : Memory) (h : Hook) : Prop where
  size : h.patchedSize ≤ h.saved.length
  active : h.active = true
  saved : ∀ x ∈ h.window, h.toSaved.value x = mem x
  frame : ∀ x ∉ h.window, mem' x = mem x

/-- A hook that has read what it copies and written no more than its patch. -/
theorem installs_write {page patchedSize copySize : ℕ} {patch : List UInt8}
    (hcopy : patchedSize ≤ copySize) (hpatch : patch.length ≤ patchedSize) :
    Installs mem (writeBytes mem a patch)
      ⟨a, readBytes mem a copySize, page, patchedSize, true⟩ := by
  refine ⟨by simpa using hcopy, rfl, ?_, ?_⟩
  · intro x hx
    obtain ⟨hlo, hhi⟩ : a ≤ x ∧ x < a + patchedSize := hx
    have hread : (readBytes mem a copySize).getD (x - a) 0 = mem (a + (x - a)) :=
      getD_readBytes (by omega)
    rw [Nat.add_sub_cancel' hlo] at hread
    exact hread
  · intro x hx
    refine if_neg fun hin => hx ?_
    exact ⟨hin.1, hin.2.trans_le (by simpa using hpatch)⟩

/-- Removing a hook writes its window back. -/
theorem writeBytes_saved (hsize : h.patchedSize ≤ h.saved.length) (mem : Memory) :
    writeBytes mem h.target (h.saved.take h.patchedSize) = h.toSaved.restore mem := by
  have hlen : (h.saved.take h.patchedSize).length = h.patchedSize := by
    rw [List.length_take, min_eq_left hsize]
  funext x
  by_cases hx : x ∈ h.toSaved.window
  · rw [Undo.restore_of_mem hx]
    obtain ⟨hlo, hhi⟩ : h.target ≤ x ∧ x < h.target + h.patchedSize := hx
    have htake : (h.saved.take h.patchedSize).getD (x - h.target) 0 =
        h.saved.getD (x - h.target) 0 := by
      rw [List.getD_eq_getElem?_getD, List.getD_eq_getElem?_getD,
        List.getElem?_take_of_lt (by omega)]
    rw [writeBytes, hlen, if_pos ⟨hlo, hhi⟩, htake]
    rfl
  · rw [Undo.restore_of_notMem hx, writeBytes, hlen]
    exact if_neg hx

theorem length_jump : (wordBytes btiC ++ wordBytes (encB (target + 4) a)).length = 8 := by
  simp [wordBytes]

/-- What installing can do: nothing, or a hook that has saved what it wrote over. -/
def Outcome (mem : Memory) (result : Memory × Option Hook) : Prop :=
  result = (mem, none) ∨ ∃ h, result.2 = some h ∧ Installs mem result.1 h

theorem outcome_aarch64 (mem : Memory) (target : ℕ) (env : Env) :
    Outcome mem (installAarch64 mem target env) := by
  unfold installAarch64
  by_cases hpc : (isPcrel (wordAt mem target) || isPcrel (wordAt mem (target + 4))) = true
  · exact .inl (if_pos hpc)
  rw [if_neg hpc]
  rcases env.nearPage with _ | page
  · exact .inl rfl
  dsimp only
  by_cases hprot : (!env.mprotect) = true
  · exact .inl (if_pos hprot)
  by_cases hpatch : (!env.patchText) = true
  · rw [if_neg hprot]
    exact .inl (if_pos hpatch)
  rw [if_neg hprot, if_neg hpatch]
  exact .inr ⟨_, rfl, installs_write le_rfl length_jump.le⟩

theorem thumbCopySize_le (mem : Memory) (target minimumSize bytes : ℕ)
    (hne : thumbCopySize mem target minimumSize bytes ≠ 0) :
    minimumSize ≤ thumbCopySize mem target minimumSize bytes := by
  induction bytes using thumbCopySize.induct mem target minimumSize with
  | case1 bytes hlt first wide size hbad =>
    rw [thumbCopySize, if_pos hlt] at hne
    exact absurd (if_pos hbad) hne
  | case2 bytes hlt first wide size hok ih =>
    rw [thumbCopySize, if_pos hlt] at hne ⊢
    have hstep : (if decide (12 < bytes + size) ||
        thumbIsPcrel first (halfAt mem (target + bytes + 2)) wide then 0
        else thumbCopySize mem target minimumSize (bytes + size)) =
          thumbCopySize mem target minimumSize (bytes + size) := if_neg hok
    exact (ih (hstep ▸ hne)).trans_eq hstep.symm
  | case3 bytes hge =>
    rw [thumbCopySize, if_neg hge]
    exact not_lt.mp hge

/-- The copied instructions cover the patch. -/
theorem arm32CopySize_le (hne : arm32CopySize mem target thumb minimumSize ≠ 0) :
    minimumSize ≤ arm32CopySize mem target thumb minimumSize := by
  cases thumb with
  | true => exact thumbCopySize_le mem target minimumSize 0 hne
  | false =>
    unfold arm32CopySize at hne ⊢
    simp only [Bool.not_false, if_true] at hne ⊢
    split_ifs at hne ⊢
    · exact absurd rfl hne
    · omega

theorem planArm_le {page patchSize copySize : ℕ} {relative : Bool}
    (hp : planArm mem a thumb preferRelative env = some (page, patchSize, copySize, relative)) :
    patchSize ≤ copySize := by
  unfold planArm at hp
  dsimp only at hp
  split at hp
  · rename_i plan hnear
    obtain rfl := Option.some.inj hp
    split_ifs at hnear with hcond
    obtain ⟨page', -, hplan⟩ := Option.map_eq_some_iff.mp hnear
    cases hplan
    simp only [Bool.and_eq_true, decide_eq_true_eq] at hcond
    exact arm32CopySize_le hcond.2
  · split_ifs at hp with hzero
    obtain ⟨page', -, hplan⟩ := Option.map_eq_some_iff.mp hp
    cases hplan
    exact arm32CopySize_le hzero

theorem outcome_arm (mem : Memory) (target : ℕ) (preferRelative : Bool) (env : Env) :
    Outcome mem (installArm mem target preferRelative env) := by
  unfold installArm
  dsimp only
  rcases hplan : planArm mem (target - target % 2) (target % 2 = 1) preferRelative env with
    _ | ⟨page, patchSize, copySize, relative⟩
  · exact .inl rfl
  dsimp only
  by_cases hsize : 0x1000 < (env.captureSize + 3) / 4 * 4 + copySize + 10
  · exact .inl (if_pos hsize)
  by_cases hprot : (!env.mprotect) = true
  · rw [if_neg hsize]
    exact .inl (if_pos hprot)
  by_cases hpatch : (!env.patchText) = true
  · rw [if_neg hsize, if_neg hprot]
    exact .inl (if_pos hpatch)
  rw [if_neg hsize, if_neg hprot, if_neg hpatch]
  exact .inr ⟨_, rfl, installs_write (planArm_le hplan) (List.length_take_le _ _)⟩

/-- **What installing a hook does.** -/
theorem install_outcome (arch : Arch) (mem : Memory) (target : ℕ) (preferRelative : Bool)
    (env : Env) : Outcome mem (install arch mem target preferRelative env) := by
  cases arch with
  | aarch64 => exact outcome_aarch64 mem target env
  | arm => exact outcome_arm mem target preferRelative env
  | other => exact .inl rfl

/-! ## 6. Runs -/

/-- Two hooks write over no common byte. -/
def Apart (h q : Hook) : Prop :=
  h.target + h.patchedSize ≤ q.target ∨ q.target + q.patchedSize ≤ h.target

/-- No hook that was installed later and is still there overlaps the hook of the target. -/
def Uncovered (s : State) (target : ℕ) : Prop :=
  ∀ l r l', s.records = l ++ r :: l' → r.target = target → ∀ q ∈ l', Apart r.hook q.hook

/-- The guard: a hook is removed when no later one overlaps it. -/
def topFirst (s : State) : Action → Prop
  | .hook .. => True
  | .unhook target _ => Uncovered s target

/-- Hooks that are apart have windows that are. -/
theorem disjoint_window {q : Hook} (hapart : Apart h q) : Disjoint h.window q.window := by
  refine Set.disjoint_left.mpr ?_
  intro x hx hq
  obtain ⟨h1, h2⟩ : h.target ≤ x ∧ x < h.target + h.patchedSize := hx
  obtain ⟨q1, q2⟩ : q.target ≤ x ∧ x < q.target + q.patchedSize := hq
  rcases hapart with hapart | hapart <;> omega

/-- What holds in every state of a guarded run: undoing the hooks that are left gives the code. -/
structure Inv (code : Memory) (s : State) : Prop where
  undone : Undo.undoAll (s.records.map fun r => r.hook.toSaved) s.mem = code
  active : ∀ r ∈ s.records, r.hook.active = true
  size : ∀ r ∈ s.records, r.hook.patchedSize ≤ r.hook.saved.length

/-- A hook that is installed can be undone. -/
theorem Inv.installed (hinv : Inv code s) (hi : Installs s.mem mem' h) (target : ℕ) :
    Inv code ⟨mem', s.records ++ [⟨target, h⟩]⟩ := by
  refine ⟨?_, ?_, ?_⟩
  · rw [List.map_append]
    exact (Undo.undoAll_install hi.saved hi.frame).trans hinv.undone
  · intro r hr
    rcases List.mem_append.mp hr with hr | hr
    · exact hinv.active r hr
    · rw [List.mem_singleton.mp hr]
      exact hi.active
  · intro r hr
    rcases List.mem_append.mp hr with hr | hr
    · exact hinv.size r hr
    · rw [List.mem_singleton.mp hr]
      exact hi.size

/-- A call of the API, whether it hooks or not. -/
theorem Inv.hook (hinv : Inv code s) (arch : Arch) (target addr : ℕ) (env : Env) :
    Inv code (apiInlineHook arch s target addr env).1 := by
  unfold apiInlineHook
  by_cases hnull : target = 0 ∨ addr = 0
  · rwa [if_pos hnull]
  rw [if_neg hnull]
  by_cases hdup : (s.records.any fun r => r.target = target) = true
  · rwa [if_pos hdup]
  rw [if_neg hdup]
  rcases hres : install arch s.mem target true env with ⟨mem', _ | h⟩
  · rcases install_outcome arch s.mem target true env with ho | ⟨h, ho, -⟩
    · rw [hres] at ho
      obtain rfl := (Prod.mk.inj ho).1
      exact hinv
    · rw [hres] at ho
      cases ho
  · rcases install_outcome arch s.mem target true env with ho | ⟨h', ho, hi⟩
    · rw [hres] at ho
      cases ho
    · rw [hres] at ho hi
      obtain rfl := Option.some.inj ho
      exact hinv.installed hi target

/-- **Removing a hook that no later one overlaps keeps the invariant.** -/
theorem Inv.removed {l l' : List Record} (hinv : Inv code s) (hs : s.records = l ++ r :: l')
    (hapart : ∀ q ∈ l', Apart r.hook q.hook) :
    Inv code ⟨writeBytes s.mem r.hook.target (r.hook.saved.take r.hook.patchedSize), l ++ l'⟩ := by
  have hmem : ∀ q ∈ l ++ l', q ∈ s.records := fun q hq => by
    rw [hs]
    rcases List.mem_append.mp hq with hq | hq
    · exact List.mem_append_left _ hq
    · exact List.mem_append_right _ (List.mem_cons_of_mem r hq)
  have hr : r ∈ s.records := by
    rw [hs]
    exact List.mem_append_right _ List.mem_cons_self
  refine ⟨?_, fun q hq => hinv.active q (hmem q hq), fun q hq => hinv.size q (hmem q hq)⟩
  have hundone := hinv.undone
  rw [hs, List.map_append, List.map_cons] at hundone
  rw [List.map_append, writeBytes_saved (hinv.size r hr), ← hundone]
  refine Undo.undoAll_remove ?_
  intro q hq
  obtain ⟨q', hq', rfl⟩ := List.mem_map.mp hq
  exact disjoint_window (hapart q' hq')

/-- A call that removes a hook which nothing covers. -/
theorem Inv.unhook (hinv : Inv code s) (arch : Arch) (target : ℕ) (patchText : Bool)
    (huncovered : Uncovered s target) :
    Inv code (apiInlineUnhook arch s target patchText).1 := by
  unfold apiInlineUnhook
  by_cases hnull : target = 0
  · rwa [if_pos hnull]
  rw [if_neg hnull]
  rcases hfind : s.records.find? fun r => r.target = target with _ | r
  · rwa [hfind]
  rw [hfind]
  have htarget : r.target = target := by simpa using List.find?_some hfind
  have hactive := hinv.active r (List.mem_of_find?_eq_some hfind)
  obtain ⟨-, l, l', hs, hfirst⟩ := List.find?_eq_some_iff_append.mp hfind
  have herase : (s.records.eraseP fun r => r.target = target) = l ++ l' := by
    rw [hs, List.eraseP_append_right _ fun q hq => by simpa using hfirst q hq,
      List.eraseP_cons_of_pos (by simpa using htarget)]
  have hremoved : Inv code ⟨writeBytes s.mem r.hook.target (r.hook.saved.take r.hook.patchedSize),
      s.records.eraseP fun r => r.target = target⟩ := by
    rw [herase]
    exact hinv.removed hs (huncovered l r l' hs htarget)
  cases arch with
  | other => exact hinv
  | aarch64 =>
    cases patchText with
    | false => simpa [uninstall, hactive] using hinv
    | true => simpa [uninstall, hactive] using hremoved
  | arm =>
    cases patchText with
    | false => simpa [uninstall, hactive] using hinv
    | true => simpa [uninstall, hactive] using hremoved

theorem invariant (arch : Arch) (code : Memory) :
    (api arch code).Invariant topFirst (Inv code) := by
  constructor
  · rintro s rfl
    exact ⟨rfl, nofun, nofun⟩
  · rintro s (⟨target, addr, env⟩ | ⟨target, patchText⟩) s' hinv hguard hstep
    · obtain rfl := Option.some.inj hstep
      exact hinv.hook arch target addr env
    · obtain rfl := Option.some.inj hstep
      exact hinv.unhook arch target patchText hguard

/-- **In every run in which a hook is removed only when no later hook overlaps it, every byte of the
code is what it was whenever no record is left.** -/
theorem undone (arch : Arch) (code : Memory) (s : State)
    (hr : (api arch code).Reach topFirst s) (hempty : s.records = []) : s.mem = code := by
  have hundone := (hr.invariant (invariant arch code)).undone
  rwa [hempty] at hundone

/-- A system that maps a page at 65536 and in which everything succeeds. -/
def sampleEnv : Env := ⟨some 65536, some 65536, 64, true, true⟩

/-- Code of zeros only. -/
def sampleCode : Memory := fun _ => 0

/-- The hook that was installed last is not overlapped. -/
theorem uncovered_of_last {ts : List ℕ} {target : ℕ}
    (h : s.records.map Record.target = ts ++ [target]) (hnew : target ∉ ts) :
    Uncovered s target := by
  intro l r l' hs htarget q hq
  exfalso
  rcases List.eq_nil_or_concat l' with rfl | ⟨l'', q', rfl⟩
  · cases hq
  · rw [hs, List.map_append, List.map_cons, List.concat_eq_append, List.map_append, ← List.cons_append,
      ← List.append_assoc] at h
    have hts := (List.append_inj' h rfl).1
    exact hnew (hts ▸ List.mem_append_right _ (htarget ▸ List.mem_cons_self))

/-- The code after two overlapping hooks, the second one below the first. -/
def sampleHooks : State :=
  (apiInlineHook .aarch64 (apiInlineHook .aarch64 ⟨sampleCode, []⟩ 4100 1 sampleEnv).1 4096 1
    sampleEnv).1

/-- The last hook is removed first. -/
theorem undone_sample : (apiInlineUnhook .aarch64 (apiInlineUnhook .aarch64 sampleHooks 4096 true).1
    4100 true).1.mem = sampleCode := by
  refine undone .aarch64 sampleCode _ ?_ (by decide)
  have hinit : (api .aarch64 sampleCode).Reach topFirst ⟨sampleCode, []⟩ := .ofInit rfl
  have hfirst := hinit.step (a := Action.hook 4100 1 sampleEnv) trivial rfl
  have hhooks : (api .aarch64 sampleCode).Reach topFirst sampleHooks :=
    hfirst.step (a := Action.hook 4096 1 sampleEnv) trivial rfl
  have hlast : Uncovered sampleHooks 4096 :=
    uncovered_of_last (show _ = [4100] ++ [4096] by decide) (by decide)
  have hremoved := hhooks.step (a := Action.unhook 4096 true) hlast rfl
  exact hremoved.step (a := Action.unhook 4100 true)
    (uncovered_of_last (show _ = [] ++ [4100] by decide) (by decide)) rfl

/-- The same hooks are removed in the order in which they came. -/
def sampleRun : List Action :=
  [.hook 4100 1 sampleEnv, .hook 4096 1 sampleEnv, .unhook 4100 true, .unhook 4096 true]

theorem not_undone : ¬ ∀ arch code s, (api arch code).Reach Lts.anyStep s → s.records = [] →
    s.mem = code := by
  intro h
  have hrun : ((api .aarch64 sampleCode).exec ⟨sampleCode, []⟩ sampleRun).any
      (fun s => s.records.isEmpty && s.mem 4100 != 0) = true := by decide
  obtain ⟨s, hreach, hs⟩ := Lts.exists_reach_of_exec rfl sampleRun _ hrun
  obtain ⟨hempty, hbyte⟩ := Bool.and_eq_true_iff.mp hs
  rw [h .aarch64 sampleCode s hreach (List.isEmpty_iff.mp hempty)] at hbyte
  exact absurd hbyte (by decide)

end YukiZygisk.InlineHook
