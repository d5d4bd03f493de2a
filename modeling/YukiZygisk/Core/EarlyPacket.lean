/-
# The packet of early native modules (`zp_stage_early_native_packet`, `load_early_modules`)

The kernel puts the libraries for an early process into descriptors of the process, and the list of
them into a file: a header, and an entry with each descriptor.  A stub in the process opens the
loader and calls its entry with the descriptor of the core and that of the file.  The loader opens
the core, and the core reads the file, loads the libraries and closes everything.  There are three
places where this can end early:

* the injection fails behind the staging, and the kernel closes what it has staged
  (`zp_close_early_packet_state`);
* the core cannot be opened or has no entry, and the loader reads the file to close the
  descriptors (`close_early_packet`);
* the loader cannot be opened or has no entry, and the stub closes the descriptor of the core and
  nothing else.

**What the kernel has staged is what the core reads** (`decoded_of_staged`).  **All its descriptors
are closed, and none twice, exactly if the third does not happen** (`earlyPacket_exact`); where it
does, the packet and its libraries stay open in the process (`not_closesAlways`).

The first half rests on the layouts, which read what they have put.  The second is an account: what
`stageModules` acquires (`good_stageModules`), what the loader releases whether it has a core or not
(`yukiBootstrap_perm`), and that a log settles exactly if it releases what it has acquired
(`settled_iff_perm`).  It also holds of packets that the kernel has not made, as far as their
entries are read; behind a header that both readers refuse no entry is read (`not_closesOnce`).
-/
import YukiZygisk.Daemon.NativeClients
import YukiZygisk.Lib.Layouts
import YukiZygisk.Lib.Ledger

namespace YukiZygisk.EarlyPacket

open Bytes Native Daemon Ledger

/-! ## 1. The packet -/

/-- The string in an array of characters. -/
def text {n : ℕ} (a : FixedArray UInt8 n) : List UInt8 := a.toList.takeWhile (· ≠ 0)

/-- The last character is set to zero. -/
def terminate {n : ℕ} (a : FixedArray UInt8 n) : FixedArray UInt8 n where
  toList := a.toList.set (n - 1) 0
  length_eq := by rw [List.length_set, a.length_eq]

/-- The first character. -/
def first {n : ℕ} (a : FixedArray UInt8 n) : UInt8 := a.toList.headD 0

/-- `struct yz_early_native_entry`. -/
structure NativeEntry where
  targetType : UInt8
  flags : UInt8
  reserved : UInt16
  moduleId : FixedArray UInt8 nativeModuleIdMax
  target : FixedArray UInt8 nativeTargetValueMax
  libPath : FixedArray UInt8 Native.nativeModulePathMax
  deriving DecidableEq

/-- `struct yz_early_native_packet_entry`.  The descriptor is a number with a sign. -/
structure PacketEntry where
  module : NativeEntry
  fd : UInt32
  reserved : UInt32
  deriving DecidableEq

/-- The descriptor of an entry, when it is not negative. -/
def PacketEntry.descriptor (e : PacketEntry) : Option ℕ :=
  if e.fd.toNat < 2 ^ 31 then some e.fd.toNat else none

/-- `struct yz_early_native_packet_header`. -/
structure PacketHeader where
  magic : UInt32
  version : UInt16
  headerSize : UInt16
  entrySize : UInt16
  count : UInt32
  deriving DecidableEq

/-- How an entry lies in memory. -/
def nativeEntryLayout : Layout NativeEntry :=
  (Layout.u8.seq <| Layout.u8.seq <| Layout.u16.seq <| (Layout.array nativeModuleIdMax).seq <|
    (Layout.array nativeTargetValueMax).seq <| Layout.array Native.nativeModulePathMax).iso
    (fun e => (e.targetType, e.flags, e.reserved, e.moduleId, e.target, e.libPath))
    (fun f => ⟨f.1, f.2.1, f.2.2.1, f.2.2.2.1, f.2.2.2.2.1, f.2.2.2.2.2⟩) fun _ => rfl

def packetEntryLayout : Layout PacketEntry :=
  (nativeEntryLayout.seq <| Layout.u32.seq Layout.u32).iso
    (fun e => (e.module, e.fd, e.reserved)) (fun f => ⟨f.1, f.2.1, f.2.2⟩) fun _ => rfl

/-- The count has an address that four divides. -/
def packetHeaderLayout : Layout PacketHeader :=
  (Layout.u32.seq <| Layout.u16.seq <| Layout.u16.seq <| Layout.u16.seq <|
    (Layout.gap 2).seq Layout.u32).iso
    (fun h => (h.magic, h.version, h.headerSize, h.entrySize, (), h.count))
    (fun f => ⟨f.1, f.2.1, f.2.2.1, f.2.2.2.1, f.2.2.2.2.2⟩) fun _ => rfl

/-- `YZ_EARLY_NATIVE_PACKET_MAGIC`, `YZ_EARLY_NATIVE_VERSION` and `YZ_NATIVE_TARGET_MAX`. -/
def earlyNativePacketMagic : UInt32 := 0x59504e5a
def earlyNativeVersion : UInt16 := 2
def nativeTargetMax : ℕ := 64

/-- The header of a packet with so many entries. -/
def packetHeader (count : ℕ) : PacketHeader where
  magic := earlyNativePacketMagic
  version := earlyNativeVersion
  headerSize := UInt16.ofNat packetHeaderLayout.size
  entrySize := UInt16.ofNat packetEntryLayout.size
  count := UInt32.ofNat count

/-- The bytes of a packet. -/
def packetBytes (entries : List PacketEntry) : List UInt8 :=
  packetHeaderLayout.put (packetHeader entries.length) ++ entries.flatMap packetEntryLayout.put

/-! ## 2. The kernel -/

/-- `zp_early_entry_valid`, with the entry after it. -/
def zpEarlyEntryValid (raw : NativeEntry) : Option NativeEntry :=
  let entry :=
    { raw with
      moduleId := terminate raw.moduleId
      target := terminate raw.target
      libPath := terminate raw.libPath }
  if entry.targetType ≠ nativeTargetName ∧ entry.targetType ≠ nativeTargetPath then none
  else if entry.flags &&& (earlyNativeEntryAbi32 ||| earlyNativeEntryAbi64) = 0 then none
  else if first entry.moduleId = 0 ∨ first entry.target = 0 ∨ first entry.libPath = 0 then none
  else some entry

/-- The loop of `zp_load_early_native_locked` over the entries it can read. -/
def zpLoadEarlyNative (snapshot : List NativeEntry) : List NativeEntry :=
  snapshot.filterMap zpEarlyEntryValid

/-- The entry is for the ABI of the process. -/
def abiMatches (compat : Bool) (entry : NativeEntry) : Bool :=
  if compat then entry.flags &&& earlyNativeEntryAbi32 ≠ 0
  else entry.flags &&& earlyNativeEntryAbi64 ≠ 0

/-- What the helpers of the kernel answer.  `get_unused_fd_flags` gives a descriptor that is not
open, or fails.  Everything `zp_stage_fd` does with the library of the match at an index before it
asks for one, and everything `zp_install_packet_fd` does, may fail. -/
structure Kernel where
  getUnusedFd : Finset ℕ → Option ℕ
  unused : ∀ opened fd, getUnusedFd opened = some fd → fd ∉ opened
  int : ∀ opened fd, getUnusedFd opened = some fd → fd < 2 ^ 31
  copied : ℕ → Bool
  written : Bool

/-- `zp_stage_fd`. -/
def zpStageFd (k : Kernel) (i : ℕ) (opened : Finset ℕ) : Option ℕ :=
  if k.copied i then k.getUnusedFd opened else none

/-- `zp_install_packet_fd`. -/
def zpInstallPacketFd (k : Kernel) (opened : Finset ℕ) : Option ℕ :=
  if k.written then k.getUnusedFd opened else none

/-- The open descriptors of the process, `module_fds`, and the entries so far. -/
structure Staging where
  opened : Finset ℕ
  moduleFds : List ℕ
  entries : List PacketEntry

/-- The body of the loop over the matches. -/
def stageModule (k : Kernel) (s : Staging) (m : NativeEntry × ℕ) : Staging :=
  match zpStageFd k m.2 s.opened with
  | none => s
  | some fd =>
    ⟨insert fd s.opened, s.moduleFds ++ [fd], s.entries ++ [⟨m.1, UInt32.ofNat fd, 0⟩]⟩

/-- `struct zp_early_packet_state`, and the entries in the file of the packet. -/
structure Packet where
  packetFd : ℕ
  moduleFds : List ℕ
  entries : List PacketEntry
  deriving DecidableEq

/-- `zp_close_early_packet_state`: what it closes. -/
def zpCloseEarlyPacketState (packetFd : Option ℕ) (moduleFds : List ℕ) : List ℕ :=
  packetFd.toList ++ moduleFds

/-- The matches of `zp_stage_early_native_packet`. -/
def matchesOf (table : List NativeEntry) (targetType : UInt8) (target : List UInt8)
    (compat : Bool) : List NativeEntry :=
  table.filter fun entry =>
    entry.targetType = targetType && text entry.target = target && abiMatches compat entry

/-- The loop of `zp_stage_early_native_packet`. -/
def stageModules (k : Kernel) (opened : Finset ℕ) (found : List NativeEntry) : Staging :=
  found.zipIdx.foldl (stageModule k) ⟨opened, [], []⟩

/-- `zp_stage_early_native_packet`, and what it opens and closes. -/
def zpStageEarlyNativePacket (k : Kernel) (opened : Finset ℕ) (table : List NativeEntry)
    (targetType : UInt8) (target : List UInt8) (compat : Bool) :
    Option Packet × List (Event ℕ) :=
  let found := matchesOf table targetType target compat
  if found = [] then (none, [])
  else
    let s := stageModules k opened found
    if s.entries = [] then
      (none, s.moduleFds.map .acquire ++ (zpCloseEarlyPacketState none s.moduleFds).map .release)
    else
      match zpInstallPacketFd k s.opened with
      | none =>
        (none, s.moduleFds.map .acquire ++ (zpCloseEarlyPacketState none s.moduleFds).map .release)
      | some fd => (some ⟨fd, s.moduleFds, s.entries⟩, (s.moduleFds ++ [fd]).map .acquire)

/-! ## 3. Reading a packet -/

/-- The file behind a descriptor: whether `lseek` works on it, and what is in it. -/
structure PacketFile where
  seekable : Bool
  bytes : List UInt8

/-- The test of a header, in the core and in the loader. -/
def headerAccepted (h : PacketHeader) : Bool :=
  h.magic = earlyNativePacketMagic && h.version = earlyNativeVersion &&
    h.headerSize = UInt16.ofNat packetHeaderLayout.size &&
    h.entrySize = UInt16.ofNat packetEntryLayout.size && h.count.toNat ≤ nativeTargetMax

/-- The header, when it can be read and is accepted, and what follows it. -/
def readHeader (file : PacketFile) : Option (PacketHeader × List UInt8) :=
  if file.seekable then (packetHeaderLayout.read file.bytes).filter fun r => headerAccepted r.1
  else none

/-- A loop over the entries, which ends when one cannot be read.  Nothing is read from the packet
when its own descriptor was closed. -/
def forEntries {σ : Type} (packetFd : ℕ) (closed : σ → List ℕ) (body : ℕ → PacketEntry → σ → σ) :
    ℕ → ℕ → List UInt8 → σ → σ
  | 0, _, _, s => s
  | n + 1, i, bytes, s =>
    match if packetFd ∈ closed s then none else packetEntryLayout.read bytes with
    | none => s
    | some (entry, rest) => forEntries packetFd closed body n (i + 1) rest (body i entry s)

/-- `close_early_packet`: what it closes. -/
def closeEarlyPacket (file : PacketFile) : Option ℕ → List ℕ
  | none => []
  | some packetFd =>
    match readHeader file with
    | none => [packetFd]
    | some (header, rest) =>
      forEntries packetFd id (fun _ entry closed => closed ++ entry.descriptor.toList)
        header.count.toNat 0 rest [] ++ [packetFd]

/-! ## 4. The core -/

/-- `early_packet_entry_to_info`. -/
def earlyPacketEntryToInfo (entry : PacketEntry) : Option NativeModuleInfo :=
  let module :=
    { entry.module with
      moduleId := terminate entry.module.moduleId
      target := terminate entry.module.target
      libPath := terminate entry.module.libPath }
  if entry.descriptor = none then none
  else if module.targetType ≠ nativeTargetName ∧ module.targetType ≠ nativeTargetPath then none
  else if first module.moduleId = 0 ∨ first module.target = 0 ∨ first module.libPath = 0 then none
  else some
    { targetType := module.targetType
      hasCompanion := false
      moduleId := (text module.moduleId).take (nativeModuleNameMax - 1)
      target := (text module.target).take (nativeModuleTargetMax - 1)
      libPath := (text module.libPath).take (Daemon.nativeModulePathMax - 1) }

/-- What loading one library comes to: `dlopen_memfd`, then `android_dlopen_ext` with its name and
with its path, the API version and the presence of the entry point in its `zn_module`, and the
report. -/
structure LoadAnswers where
  yukiLoaded : Bool
  byName : Bool
  byPath : Bool
  znModule : Option (ℤ × Bool)
  reported : Bool

/-- `kApiVersion3` and `kApiVersion4`. -/
def apiVersion3 : ℤ := 3
def apiVersion4 : ℤ := 4

/-- `load_native_module_from_fd`: what it closes, and the new handle. -/
def loadNativeModuleFromFd (info : NativeModuleInfo) (idx : ℕ) (libFd : Option ℕ) (early : Bool)
    (a : LoadAnswers) : List ℕ × Option ModuleHandle :=
  if info.moduleId = [] ∨ info.libPath = [] then (libFd.toList, none)
  else if !(a.yukiLoaded || a.byName || a.byPath) then (libFd.toList, none)
  else
    match a.znModule with
    | none => (libFd.toList, none)
    | some (version, entry) =>
      if (version ≠ apiVersion3 ∧ version ≠ apiVersion4) ∨ entry = false then (libFd.toList, none)
      else (libFd.toList,
        some ⟨idx, info.moduleId, early, info.hasCompanion, !early && a.reported, none⟩)

/-- `g_loaded_modules`, the modules that were decoded with their descriptors, and what was
closed. -/
structure Loading where
  handles : List ModuleHandle
  decoded : List (NativeModuleInfo × Option ℕ)
  closed : List ℕ

/-- The body of the loop of `load_early_modules`. -/
def loadEntry (answers : ℕ → LoadAnswers) (i : ℕ) (entry : PacketEntry) (s : Loading) : Loading :=
  match earlyPacketEntryToInfo entry with
  | none => { s with closed := s.closed ++ entry.descriptor.toList }
  | some info =>
    let decoded := s.decoded ++ [(info, entry.descriptor)]
    match findLoadedModule s.handles info.moduleId with
    | some _ => ⟨s.handles, decoded, s.closed ++ entry.descriptor.toList⟩
    | none =>
      let r := loadNativeModuleFromFd info 0xffffffff entry.descriptor true (answers i)
      ⟨s.handles ++ r.2.toList, decoded, s.closed ++ r.1⟩

/-- `load_early_modules`. -/
def loadEarlyModules (file : PacketFile) (answers : ℕ → LoadAnswers)
    (handles : List ModuleHandle) : Option ℕ → Loading
  | none => ⟨handles, [], []⟩
  | some packetFd =>
    match readHeader file with
    | none => ⟨handles, [], [packetFd]⟩
    | some (header, rest) =>
      let s := forEntries packetFd Loading.closed (loadEntry answers) header.count.toNat 0 rest
        ⟨handles, [], []⟩
      { s with closed := s.closed ++ [packetFd] }

/-- What becomes of the first stage: whether its core can be loaded and has the entry point. -/
structure BootAnswers where
  coreLoads : Bool
  hasEntry : Bool

/-- `yuki_bootstrap`, up to the modules that come later: what it closes. -/
def yukiBootstrap (b : BootAnswers) (file : PacketFile) (answers : ℕ → LoadAnswers)
    (coreFd : Option ℕ) (earlyPacketFdPlus1 : ℕ) : List ℕ :=
  let packetFd := if 0 < earlyPacketFdPlus1 then some (earlyPacketFdPlus1 - 1) else none
  match coreFd with
  | none => closeEarlyPacket file packetFd
  | some fd =>
    fd :: if b.coreLoads && b.hasEntry then (loadEarlyModules file answers [] packetFd).closed
      else closeEarlyPacket file packetFd

/-! ## 5. The stub -/

/-- What the stub finds: whether `dlopen` opens the loader, and `dlsym` its entry. -/
structure FirstStage where
  opens : Bool
  hasEntry : Bool

/-- A descriptor in the stub.  One move of the 64-bit stub holds 16 bits of it, a word of the 32-bit
stub all. -/
def stubArg (compat : Bool) (fd : ℕ) : ℕ := if compat then fd else fd % 2 ^ 16

/-- `tmpl` and `compat_tmpl` behind their `close` of the loader, with what they call: what is
closed.  Without an entry to call, the stub closes the descriptor of the core and goes on to the
entry of the process. -/
def stub (compat : Bool) (first : FirstStage) (b : BootAnswers) (file : PacketFile)
    (answers : ℕ → LoadAnswers) (coreFd earlyPacketFdPlus1 : ℕ) : List ℕ :=
  if first.opens && first.hasEntry then
    yukiBootstrap b file answers (some (stubArg compat coreFd))
      (stubArg compat earlyPacketFdPlus1)
  else [stubArg compat coreFd]

/-! ## 6. Strings in arrays -/

variable {n : ℕ} {a : FixedArray UInt8 n}

@[simp] theorem terminate_terminate (a : FixedArray UInt8 n) :
    terminate (terminate a) = terminate a := by
  simp only [terminate, List.set_set]

/-- Behind the last character that is kept there is a zero. -/
theorem text_terminate (h : 0 < n) (a : FixedArray UInt8 n) :
    text (terminate a) = cString n a.toList := by
  have hlt : n - 1 < a.toList.length := by
    rw [a.length_eq]
    omega
  have hdrop : a.toList.drop (n - 1 + 1) = [] :=
    List.drop_of_length_le (by rw [a.length_eq]; omega)
  have hset : (terminate a).toList = a.toList.take (n - 1) ++ [0] := by
    change a.toList.set (n - 1) 0 = _
    rw [List.set_eq_take_append_cons_drop, if_pos hlt, hdrop]
  rw [text, hset, cString, List.takeWhile_append]
  split_ifs with hall
  · rw [List.takeWhile_cons_of_neg (by simp), List.append_nil]
    exact (List.Sublist.eq_of_length (List.takeWhile_sublist _) hall).symm
  · rfl

theorem first_terminate (a : FixedArray UInt8 n) (h : 1 < n) :
    first (terminate a) = 0 ↔ text (terminate a) = [] := by
  have hlen := (terminate a).length_eq
  rw [first, text]
  cases hl : (terminate a).toList with
  | nil =>
    rw [hl] at hlen
    exact absurd hlen (by simp; omega)
  | cons c l =>
    rw [List.headD_cons]
    by_cases hc : c = 0
    · simp [hc]
    · simp [hc]

/-- The entry with its strings. -/
def NativeEntry.strings (e : NativeEntry) : EarlyNativeEntry :=
  ⟨e.targetType, e.flags, text e.moduleId, text e.target, text e.libPath⟩

/-- The entry with its arrays. -/
def NativeEntry.arrays (e : NativeEntry) : EarlyNativeEntry :=
  ⟨e.targetType, e.flags, e.moduleId.toList, e.target.toList, e.libPath.toList⟩

/-- The table of the kernel has the strings that the selection works with. -/
theorem valid_strings (raw : NativeEntry) :
    (zpEarlyEntryValid raw).map NativeEntry.strings = Native.zpEarlyEntryValid raw.arrays := by
  have hid := text_terminate (by decide) raw.moduleId
  have htarget := text_terminate (by decide) raw.target
  have hpath := text_terminate (by decide) raw.libPath
  simp only [zpEarlyEntryValid, Native.zpEarlyEntryValid, NativeEntry.arrays,
    first_terminate _ (show 1 < nativeModuleIdMax by decide),
    first_terminate _ (show 1 < nativeTargetValueMax by decide),
    first_terminate _ (show 1 < Native.nativeModulePathMax by decide), hid, htarget, hpath]
  by_cases htype : raw.targetType ≠ nativeTargetName ∧ raw.targetType ≠ nativeTargetPath
  · simp [htype]
  by_cases hflags : raw.flags &&& (earlyNativeEntryAbi32 ||| earlyNativeEntryAbi64) = 0
  · simp [htype, hflags]
  by_cases hempty : cString nativeModuleIdMax raw.moduleId.toList = [] ∨
      cString nativeTargetValueMax raw.target.toList = [] ∨
      cString Native.nativeModulePathMax raw.libPath.toList = []
  · simp [htype, hflags, hempty]
  · simp [htype, hflags, hempty, NativeEntry.strings, hid, htarget, hpath]

theorem load_strings (snapshot : List NativeEntry) :
    (zpLoadEarlyNative snapshot).map NativeEntry.strings =
      Native.zpLoadEarlyNative (snapshot.map NativeEntry.arrays) := by
  rw [zpLoadEarlyNative, Native.zpLoadEarlyNative, List.map_filterMap, List.filterMap_map]
  exact List.filterMap_congr fun raw _ => valid_strings raw

/-- The packet is for the modules of the early selection. -/
theorem matchesOf_strings (snapshot : List NativeEntry) (targetType : UInt8) (target : List UInt8)
    (compat : Bool) :
    (matchesOf (zpLoadEarlyNative snapshot) targetType target compat).map NativeEntry.strings =
      (Native.zpStageEarlyNativePacket (Native.zpLoadEarlyNative (snapshot.map NativeEntry.arrays))
        targetType target compat).getD [] := by
  rw [← load_strings, Native.zpStageEarlyNativePacket, List.filter_map, matchesOf]
  split_ifs with hnone
  · exact hnone
  · rfl

/-! ## 7. What the core makes of a staged entry -/

/-- A module of the table. -/
def Valid (m : NativeEntry) : Prop := ∃ raw, zpEarlyEntryValid raw = some m

/-- A module of the table with a descriptor. -/
structure Staged (e : PacketEntry) : Prop where
  module : Valid e.module
  descriptor : e.descriptor ≠ none

/-- The module as the core should know it. -/
def infoOf (m : NativeEntry) : NativeModuleInfo :=
  ⟨m.targetType, false, text m.moduleId, text m.target, text m.libPath⟩

theorem take_text (h : 0 < n) (a : FixedArray UInt8 n) :
    (text (terminate a)).take (n - 1) = text (terminate a) := by
  rw [text_terminate h]
  exact List.take_of_length_le (length_cString n a.toList)

/-- **The core reads the module that was staged.** -/
theorem info_of_staged {e : PacketEntry} (h : Staged e) :
    earlyPacketEntryToInfo e = some (infoOf e.module) := by
  obtain ⟨raw, hraw⟩ := h.module
  simp only [zpEarlyEntryValid] at hraw
  split_ifs at hraw with htype hflags hempty
  have hm := (Option.some.inj hraw).symm
  simp only [earlyPacketEntryToInfo, hm, terminate_terminate, if_neg h.descriptor, if_neg htype,
    if_neg hempty, infoOf]
  have hid := take_text (show 0 < nativeModuleIdMax by decide) raw.moduleId
  have htarget := take_text (show 0 < nativeTargetValueMax by decide) raw.target
  have hpath := take_text (show 0 < Native.nativeModulePathMax by decide) raw.libPath
  exact congrArg some (by
    rw [NativeModuleInfo.mk.injEq]
    exact ⟨rfl, rfl, hid, htarget, hpath⟩)

/-! ## 8. The loops over the entries -/

/-- The descriptors of some entries. -/
def descriptors (l : List PacketEntry) : List ℕ := l.filterMap PacketEntry.descriptor

variable {σ β : Type} {packetFd : ℕ} {closed : σ → List ℕ} {body : ℕ → PacketEntry → σ → σ}
  {answers : ℕ → LoadAnswers} {file : PacketFile} {entries : List PacketEntry}

/-- **A loop whose body closes the descriptor of its entry goes through all entries**, unless one of
them has the descriptor of the packet. -/
theorem forEntries_eq {g : σ → List β} {h : PacketEntry → Option β}
    (hclosed : ∀ i e s, closed (body i e s) = closed s ++ e.descriptor.toList)
    (hbody : ∀ i e s, g (body i e s) = g s ++ (h e).toList) (n i : ℕ) (bytes : List UInt8) (s : σ)
    (hs : packetFd ∉ closed s)
    (hentries : packetFd ∉ descriptors (packetEntryLayout.records n bytes)) :
    g (forEntries packetFd closed body n i bytes s) =
      g s ++ (packetEntryLayout.records n bytes).filterMap h := by
  induction n generalizing i bytes s with
  | zero => exact (List.append_nil _).symm
  | succ n ih =>
    rw [forEntries, if_neg hs]
    rw [Layout.records] at hentries ⊢
    cases hread : packetEntryLayout.read bytes with
    | none => exact (List.append_nil _).symm
    | some r =>
      obtain ⟨entry, rest⟩ := r
      rw [hread] at hentries
      have hsplit : descriptors (entry :: packetEntryLayout.records n rest) =
          entry.descriptor.toList ++ descriptors (packetEntryLayout.records n rest) := by
        rw [descriptors, List.filterMap_cons]
        cases entry.descriptor <;> rfl
      have hboth : packetFd ∉ entry.descriptor.toList ++
          descriptors (packetEntryLayout.records n rest) := hsplit ▸ hentries
      rw [List.mem_append, not_or] at hboth
      have hnext : packetFd ∉ closed (body i entry s) := by
        rw [hclosed, List.mem_append, not_or]
        exact ⟨hs, hboth.1⟩
      have hmap : (entry :: packetEntryLayout.records n rest).filterMap h =
          (h entry).toList ++ (packetEntryLayout.records n rest).filterMap h := by
        rw [List.filterMap_cons]
        cases h entry <;> rfl
      change g (forEntries packetFd closed body n (i + 1) rest (body i entry s)) = _
      rw [ih (i + 1) rest (body i entry s) hnext hboth.2, hbody, List.append_assoc]
      exact congrArg (g s ++ ·) hmap.symm

/-- A library descriptor is closed once, however the loading ends. -/
theorem loadNativeModule_closed (info : NativeModuleInfo) (idx : ℕ) (libFd : Option ℕ)
    (early : Bool) (a : LoadAnswers) :
    (loadNativeModuleFromFd info idx libFd early a).1 = libFd.toList := by
  rw [loadNativeModuleFromFd]
  split_ifs
  · rfl
  · rfl
  · cases a.znModule with
    | none => rfl
    | some m =>
      change (if _ then _ else _ : List ℕ × Option ModuleHandle).1 = _
      split_ifs <;> rfl

/-- **Each turn of the loop closes the descriptor of its entry once.** -/
theorem loadEntry_closed (answers : ℕ → LoadAnswers) (i : ℕ) (e : PacketEntry) (s : Loading) :
    (loadEntry answers i e s).closed = s.closed ++ e.descriptor.toList := by
  rw [loadEntry]
  cases earlyPacketEntryToInfo e with
  | none => rfl
  | some info =>
    cases hfind : findLoadedModule s.handles info.moduleId with
    | some k => simp only [hfind]
    | none => simp only [hfind, loadNativeModule_closed]

theorem loadEntry_decoded (answers : ℕ → LoadAnswers) (i : ℕ) (e : PacketEntry) (s : Loading) :
    (loadEntry answers i e s).decoded =
      s.decoded ++ ((earlyPacketEntryToInfo e).map fun info => (info, e.descriptor)).toList := by
  rw [loadEntry]
  cases earlyPacketEntryToInfo e with
  | none => exact (List.append_nil _).symm
  | some info =>
    cases hfind : findLoadedModule s.handles info.moduleId with
    | some k => simp only [hfind, Option.map_some, Option.toList_some]
    | none => simp only [hfind, Option.map_some, Option.toList_some]

/-! ## 9. Any packet -/

/-- The entries that are read: as many as the header counts, as far as the file goes, and none when
the header is refused. -/
def readEntries (file : PacketFile) : List PacketEntry :=
  match readHeader file with
  | none => []
  | some (header, rest) => packetEntryLayout.records header.count.toNat rest

/-- What the core closes. -/
theorem loadEarlyModules_closed (answers : ℕ → LoadAnswers) (handles : List ModuleHandle)
    (h : packetFd ∉ descriptors (readEntries file)) :
    (loadEarlyModules file answers handles (some packetFd)).closed =
      descriptors (readEntries file) ++ [packetFd] := by
  rw [readEntries] at h ⊢
  rw [loadEarlyModules]
  cases hread : readHeader file with
  | none => rfl
  | some r =>
    rw [hread] at h
    have hloop := forEntries_eq (loadEntry_closed answers) (loadEntry_closed answers)
      r.1.count.toNat 0 r.2 ⟨handles, [], []⟩ List.not_mem_nil h
    exact congrArg (· ++ [packetFd]) hloop

/-- What the loader closes. -/
theorem closeEarlyPacket_eq (h : packetFd ∉ descriptors (readEntries file)) :
    closeEarlyPacket file (some packetFd) = descriptors (readEntries file) ++ [packetFd] := by
  rw [readEntries] at h ⊢
  rw [closeEarlyPacket]
  cases hread : readHeader file with
  | none => rfl
  | some r =>
    rw [hread] at h
    have hbody : ∀ (i : ℕ) (e : PacketEntry) (closed : List ℕ),
        id (closed ++ e.descriptor.toList) = id closed ++ e.descriptor.toList := fun _ _ _ => rfl
    have hloop := forEntries_eq hbody hbody r.1.count.toNat 0 r.2 [] List.not_mem_nil h
    exact congrArg (· ++ [packetFd]) hloop

/-- What the core decodes. -/
theorem loadEarlyModules_decoded (handles : List ModuleHandle)
    (h : packetFd ∉ descriptors (readEntries file)) :
    (loadEarlyModules file answers handles (some packetFd)).decoded =
      (readEntries file).filterMap fun e =>
        (earlyPacketEntryToInfo e).map fun info => (info, e.descriptor) := by
  rw [readEntries] at h ⊢
  rw [loadEarlyModules]
  cases hread : readHeader file with
  | none => rfl
  | some r =>
    rw [hread] at h
    exact forEntries_eq (loadEntry_closed answers) (loadEntry_decoded answers) r.1.count.toNat 0
      r.2 ⟨handles, [], []⟩ List.not_mem_nil h

/-- Each of these descriptors was closed once, and nothing else was closed. -/
def ClosedOnce (closed fds : List ℕ) : Prop := ∀ fd, closed.count fd = if fd ∈ fds then 1 else 0

theorem closedOnce_of_perm {closed fds : List ℕ} (h : closed.Perm fds) (hnodup : fds.Nodup) :
    ClosedOnce closed fds := by
  intro fd
  rw [h.count_eq]
  split_ifs with hfd
  · exact List.count_eq_one_of_mem hnodup hfd
  · exact List.count_eq_zero_of_not_mem hfd

/-! ## 10. The packet of the kernel -/

/-- The header is accepted, and the entries are read back. -/
theorem readEntries_packetBytes (h : entries.length ≤ nativeTargetMax) :
    readEntries ⟨true, packetBytes entries⟩ = entries := by
  have hcount : (UInt32.ofNat entries.length).toNat = entries.length := by
    rw [UInt32.toNat_ofNat']
    exact Nat.mod_eq_of_lt (Nat.lt_of_le_of_lt h (by decide))
  have haccepted : headerAccepted (packetHeader entries.length) = true := by
    simp only [headerAccepted, packetHeader, hcount, h, decide_true, Bool.and_self]
  have hread : readHeader ⟨true, packetBytes entries⟩ =
      some (packetHeader entries.length, entries.flatMap packetEntryLayout.put) := by
    rw [readHeader, if_pos rfl, packetBytes, Layout.read_put]
    exact Option.filter_some_pos haccepted
  have hrecords := packetEntryLayout.records_puts entries []
  rw [List.append_nil] at hrecords
  rw [readEntries, hread]
  change packetEntryLayout.records (UInt32.ofNat entries.length).toNat _ = entries
  rw [hcount, hrecords]

/-- What the loop of the kernel keeps. -/
structure Staging.Good (opened : Finset ℕ) (found : List NativeEntry) (s : Staging) : Prop where
  descriptors : descriptors s.entries = s.moduleFds
  staged : ∀ e ∈ s.entries, e.module ∈ found ∧ e.descriptor ≠ none
  nodup : s.moduleFds.Nodup
  kept : opened ⊆ s.opened
  isOpen : ∀ fd ∈ s.moduleFds, fd ∈ s.opened
  fresh : ∀ fd ∈ s.moduleFds, fd ∉ opened

variable {compat : Bool} {k : Kernel} {opened : Finset ℕ} {found : List NativeEntry} {s : Staging}
  {fd : ℕ}

theorem getUnusedFd_of_stage {i : ℕ} (h : zpStageFd k i opened = some fd) :
    k.getUnusedFd opened = some fd := by
  rw [zpStageFd] at h
  split_ifs at h
  exact h

theorem getUnusedFd_of_install (h : zpInstallPacketFd k opened = some fd) :
    k.getUnusedFd opened = some fd := by
  rw [zpInstallPacketFd] at h
  split_ifs at h
  exact h

/-- The descriptor is a number without a sign. -/
theorem descriptor_staged (m : NativeEntry) (h : fd < 2 ^ 31) :
    (⟨m, UInt32.ofNat fd, 0⟩ : PacketEntry).descriptor = some fd := by
  have hfd : (UInt32.ofNat fd).toNat = fd := by
    rw [UInt32.toNat_ofNat']
    exact Nat.mod_eq_of_lt (Nat.lt_of_lt_of_le h (by decide))
  rw [PacketEntry.descriptor, hfd, if_pos h]

theorem good_stageModule (hs : s.Good opened found) {m : NativeEntry × ℕ} (hm : m.1 ∈ found) :
    (stageModule k s m).Good opened found := by
  rw [stageModule]
  cases hstage : zpStageFd k m.2 s.opened with
  | none => exact hs
  | some fd =>
    have hget := getUnusedFd_of_stage hstage
    have hdescriptor := descriptor_staged m.1 (k.int _ _ hget)
    have hunused := k.unused _ _ hget
    refine ⟨?_, ?_, ?_, ?_, ?_, ?_⟩
    · rw [EarlyPacket.descriptors, List.filterMap_append]
      have hold := hs.descriptors
      rw [EarlyPacket.descriptors] at hold
      rw [hold, List.filterMap_cons, hdescriptor]
      rfl
    · intro e he
      rcases List.mem_append.mp he with hold | hnew
      · exact hs.staged e hold
      · obtain rfl := List.mem_singleton.mp hnew
        exact ⟨hm, by rw [hdescriptor]; exact Option.some_ne_none fd⟩
    · refine List.Nodup.append hs.nodup (List.nodup_singleton fd) ?_
      intro fd' hold hnew
      obtain rfl := List.mem_singleton.mp hnew
      exact hunused (hs.isOpen fd' hold)
    · exact hs.kept.trans (Finset.subset_insert fd s.opened)
    · intro fd' hfd'
      rcases List.mem_append.mp hfd' with hold | hnew
      · exact Finset.mem_insert_of_mem (hs.isOpen fd' hold)
      · obtain rfl := List.mem_singleton.mp hnew
        exact Finset.mem_insert_self _ s.opened
    · intro fd' hfd'
      rcases List.mem_append.mp hfd' with hold | hnew
      · exact hs.fresh fd' hold
      · obtain rfl := List.mem_singleton.mp hnew
        exact fun h => hunused (hs.kept h)

theorem good_stageModules (k : Kernel) (opened : Finset ℕ) (found : List NativeEntry) :
    (stageModules k opened found).Good opened found := by
  have hmem : ∀ m ∈ found.zipIdx, m.1 ∈ found := fun m hm =>
    List.mem_of_getElem? (List.mem_zipIdx_iff_getElem?.mp hm)
  have hnil : (⟨opened, [], []⟩ : Staging).Good opened found :=
    ⟨rfl, fun _ he => absurd he List.not_mem_nil, List.nodup_nil, Finset.Subset.refl opened,
      fun _ hfd => absurd hfd List.not_mem_nil, fun _ hfd => absurd hfd List.not_mem_nil⟩
  exact List.foldlRecOn found.zipIdx (stageModule k) hnil fun s hs m hm =>
    good_stageModule hs (hmem m hm)

/-- The entries have the order of the matches. -/
theorem foldl_sublist (k : Kernel) (l : List (NativeEntry × ℕ)) (s : Staging) :
    ∃ t : List NativeEntry, t.Sublist (l.map Prod.fst) ∧
      (l.foldl (stageModule k) s).entries.map PacketEntry.module =
        s.entries.map PacketEntry.module ++ t := by
  induction l generalizing s with
  | nil => exact ⟨[], List.Sublist.refl [], (List.append_nil _).symm⟩
  | cons m l ih =>
    rw [List.map_cons, List.foldl_cons]
    obtain ⟨t, hsub, heq⟩ := ih (stageModule k s m)
    rw [heq, stageModule]
    cases zpStageFd k m.2 s.opened with
    | none => exact ⟨t, hsub.cons m.1, rfl⟩
    | some fd =>
      refine ⟨m.1 :: t, hsub.cons_cons m.1, ?_⟩
      rw [List.map_append, List.append_assoc]
      rfl

theorem stageModules_sublist (k : Kernel) (opened : Finset ℕ) (found : List NativeEntry) :
    ((stageModules k opened found).entries.map PacketEntry.module).Sublist found := by
  obtain ⟨t, hsub, heq⟩ := foldl_sublist k found.zipIdx ⟨opened, [], []⟩
  have hfst : found.zipIdx.map Prod.fst = found := List.zipIdx_map_fst 0 found
  rw [hfst] at hsub
  rw [stageModules, heq]
  exact hsub

/-! ## 11. Every way a packet goes -/

/-- What becomes of a packet that was staged: the injection fails behind it, or the process runs the
stub. -/
inductive Use
  | withdrawn
  | injected (first : FirstStage) (b : BootAnswers) (answers : ℕ → LoadAnswers)

/-- The kernel closes what it has staged, and the core. -/
def withdraw (p : Packet) (coreFd : ℕ) : List ℕ :=
  coreFd :: zpCloseEarlyPacketState (some p.packetFd) p.moduleFds

/-- What is closed.  A packet whose descriptor the stub could not hold is withdrawn. -/
def Use.closes (compat : Bool) (p : Packet) (coreFd : ℕ) : Use → List ℕ
  | .withdrawn => withdraw p coreFd
  | .injected first b answers =>
    if 0xffff ≤ p.packetFd then withdraw p coreFd
    else stub compat first b ⟨true, packetBytes p.entries⟩ answers coreFd (p.packetFd + 1)

/-- The loader opens and has its entry, and the stub holds the descriptor of the core. -/
def Use.Completes (compat : Bool) (p : Packet) (coreFd : ℕ) : Use → Prop
  | .withdrawn => True
  | .injected first _ _ =>
    0xffff ≤ p.packetFd ∨
      (first.opens ∧ first.hasEntry) ∧ (compat = true ∨ coreFd < 2 ^ 16)

/-- What a staged packet promises. -/
structure Delivers (compat : Bool) (opened : Finset ℕ) (found : List NativeEntry) (p : Packet)
    (log : List (Event ℕ)) : Prop where
  inOrder : (p.entries.map PacketEntry.module).Sublist found
  descriptors : p.entries.map PacketEntry.descriptor = p.moduleFds.map some
  nodup : (p.packetFd :: p.moduleFds).Nodup
  fresh : ∀ fd ∈ p.packetFd :: p.moduleFds, fd ∉ opened
  decoded : ∀ answers handles,
    (loadEarlyModules ⟨true, packetBytes p.entries⟩ answers handles (some p.packetFd)).decoded =
      p.entries.map fun e => (infoOf e.module, e.descriptor)
  settled_iff : ∀ coreFd, ∀ use : Use,
    Settled (.acquire coreFd :: log ++ (use.closes compat p coreFd).map .release) ↔
      use.Completes compat p coreFd

/-- What staging promises, with what it opens and closes. -/
inductive StagedWell (compat : Bool) (opened : Finset ℕ) (found : List NativeEntry) :
    Option Packet × List (Event ℕ) → Prop
  | failed (log : List (Event ℕ)) (h : Settled log) : StagedWell compat opened found (none, log)
  | staged (p : Packet) (log : List (Event ℕ)) (h : Delivers compat opened found p log) :
    StagedWell compat opened found (some p, log)

/-- **What was staged is what the core decodes.** -/
theorem decoded_of_staged (handles : List ModuleHandle) (hfits : entries.length ≤ nativeTargetMax)
    (hstaged : ∀ e ∈ entries, Staged e) (hpacket : packetFd ∉ descriptors entries) :
    (loadEarlyModules ⟨true, packetBytes entries⟩ answers handles (some packetFd)).decoded =
      entries.map fun e => (infoOf e.module, e.descriptor) := by
  have hread := readEntries_packetBytes hfits
  rw [loadEarlyModules_decoded handles (by rwa [hread]), hread]
  have hinfo : ∀ e ∈ entries,
      ((earlyPacketEntryToInfo e).map fun info => (info, e.descriptor)) =
        some (infoOf e.module, e.descriptor) := fun e he => by
    rw [info_of_staged (hstaged e he), Option.map_some]
  rw [List.filterMap_congr hinfo]
  exact congrFun List.filterMap_eq_map' entries

/-- The first stage closes all of a packet of the kernel. -/
theorem yukiBootstrap_perm (b : BootAnswers) (answers : ℕ → LoadAnswers) (coreFd : Option ℕ)
    (hfits : entries.length ≤ nativeTargetMax) (hpacket : packetFd ∉ descriptors entries) :
    (yukiBootstrap b ⟨true, packetBytes entries⟩ answers coreFd (packetFd + 1)).Perm
      (coreFd.toList ++ (descriptors entries ++ [packetFd])) := by
  have hread := readEntries_packetBytes hfits
  have hnot : packetFd ∉ descriptors (readEntries ⟨true, packetBytes entries⟩) := by rwa [hread]
  have hcore := loadEarlyModules_closed answers [] hnot
  have hloader := closeEarlyPacket_eq hnot
  rw [hread] at hcore hloader
  have harg : (if 0 < packetFd + 1 then some (packetFd + 1 - 1) else none) = some packetFd :=
    if_pos packetFd.succ_pos
  cases coreFd with
  | none =>
    rw [yukiBootstrap, harg]
    exact List.Perm.of_eq hloader
  | some fd =>
    rw [yukiBootstrap, harg]
    refine List.Perm.of_eq (congrArg (fd :: ·) ?_)
    split_ifs
    · exact hcore
    · exact hloader

theorem stubArg_eq_iff {compat : Bool} {fd : ℕ} :
    fd = stubArg compat fd ↔ compat = true ∨ fd < 2 ^ 16 := by
  cases compat with
  | true => exact iff_of_true rfl (.inl rfl)
  | false =>
    rw [stubArg, if_neg Bool.false_ne_true, or_iff_right Bool.false_ne_true]
    exact ⟨fun h => h ▸ Nat.mod_lt fd (by norm_num), fun h => (Nat.mod_eq_of_lt h).symm⟩

/-- **The stub closes the core and the packet exactly if it has an entry to call**, and holds the
descriptor of the core. -/
theorem stub_perm_iff (compat : Bool) (first : FirstStage) (b : BootAnswers)
    (answers : ℕ → LoadAnswers) (coreFd : ℕ) (hfits : entries.length ≤ nativeTargetMax)
    (hpacket : packetFd ∉ descriptors entries) (hheld : packetFd < 0xffff) :
    (coreFd :: (descriptors entries ++ [packetFd])).Perm
        (stub compat first b ⟨true, packetBytes entries⟩ answers coreFd (packetFd + 1)) ↔
      (first.opens ∧ first.hasEntry) ∧ (compat = true ∨ coreFd < 2 ^ 16) := by
  have harg : stubArg compat (packetFd + 1) = packetFd + 1 :=
    (stubArg_eq_iff.mpr (.inr (by omega))).symm
  rw [stub, harg]
  split_ifs with hentry
  all_goals rw [Bool.and_eq_true] at hentry
  · rw [and_iff_right hentry, ← stubArg_eq_iff]
    have hperm := yukiBootstrap_perm b answers (some (stubArg compat coreFd)) hfits hpacket
    have hsame : (coreFd :: (descriptors entries ++ [packetFd])).Perm
        (stubArg compat coreFd :: (descriptors entries ++ [packetFd])) ↔
          coreFd = stubArg compat coreFd := by
      refine ⟨fun h => ?_, fun h => h ▸ List.Perm.refl _⟩
      have hone : ([coreFd] ++ (descriptors entries ++ [packetFd])).Perm
          ([stubArg compat coreFd] ++ (descriptors entries ++ [packetFd])) := h
      exact List.singleton_perm_singleton.mp ((List.perm_append_right_iff _).mp hone)
    rw [← hsame]
    exact ⟨fun h => h.trans hperm, fun h => h.trans hperm.symm⟩
  · -- the descriptor of the packet is left
    refine iff_of_false (fun h => ?_) fun h => hentry h.1
    have hlen := h.length_eq
    simp only [List.length_cons, List.length_append, List.length_nil] at hlen
    omega

theorem map_descriptor (h : ∀ e ∈ entries, e.descriptor ≠ none) :
    entries.map PacketEntry.descriptor = (descriptors entries).map some := by
  induction entries with
  | nil => rfl
  | cons e entries ih =>
    obtain ⟨fd, hfd⟩ := Option.ne_none_iff_exists'.mp (h e List.mem_cons_self)
    rw [descriptors, List.map_cons, List.filterMap_cons, hfd,
      ih fun e' he' => h e' (List.mem_cons_of_mem e he')]
    rfl

theorem length_stageModules (k : Kernel) (opened : Finset ℕ) (found : List NativeEntry) :
    (stageModules k opened found).entries.length ≤ found.length := by
  have h := (stageModules_sublist k opened found).length_le
  rwa [List.length_map] at h

/-- A packet of the loop over `found`. -/
theorem delivers_of_stage (hfits : found.length ≤ nativeTargetMax) (hvalid : ∀ m ∈ found, Valid m)
    (hfd : k.getUnusedFd (stageModules k opened found).opened = some fd) :
    Delivers compat opened found
      ⟨fd, (stageModules k opened found).moduleFds, (stageModules k opened found).entries⟩
      (((stageModules k opened found).moduleFds ++ [fd]).map .acquire) := by
  have hgood := good_stageModules k opened found
  have hunused := k.unused _ _ hfd
  have hfits' := (length_stageModules k opened found).trans hfits
  have hnot : fd ∉ descriptors (stageModules k opened found).entries := by
    rw [hgood.descriptors]
    exact fun h => hunused (hgood.isOpen fd h)
  have hstaged : ∀ e ∈ (stageModules k opened found).entries, Staged e := fun e he =>
    ⟨hvalid _ (hgood.staged e he).1, (hgood.staged e he).2⟩
  refine ⟨stageModules_sublist k opened found, ?_, ?_, ?_, ?_, ?_⟩
  · have hsome : ∀ e ∈ (stageModules k opened found).entries, e.descriptor ≠ none := fun e he =>
      (hgood.staged e he).2
    rw [← hgood.descriptors]
    exact map_descriptor hsome
  · exact List.nodup_cons.mpr ⟨fun h => hunused (hgood.isOpen fd h), hgood.nodup⟩
  · intro fd' hfd'
    rcases List.mem_cons.mp hfd' with rfl | hold
    · exact fun h => hunused (hgood.kept h)
    · exact hgood.fresh fd' hold
  · exact fun answers handles => decoded_of_staged handles hfits' hstaged hnot
  · intro coreFd use
    have hwithdraw : (coreFd :: ((stageModules k opened found).moduleFds ++ [fd])).Perm
        (withdraw ⟨fd, (stageModules k opened found).moduleFds,
          (stageModules k opened found).entries⟩ coreFd) :=
      (List.perm_append_singleton fd _).cons coreFd
    rw [← List.map_cons, settled_iff_perm]
    cases use with
    | withdrawn => exact iff_of_true hwithdraw trivial
    | injected first b answers =>
      rw [Use.closes, Use.Completes]
      split_ifs with hheld
      · exact iff_of_true hwithdraw (.inl hheld)
      · rw [or_iff_right hheld, ← hgood.descriptors]
        exact stub_perm_iff compat first b answers coreFd hfits' hnot
          (Nat.lt_of_not_le hheld)

/-- Staging promises what it should, whatever the kernel's helpers answer. -/
theorem stagedWell (k : Kernel) (opened : Finset ℕ) (snapshot : List NativeEntry)
    (targetType : UInt8) (target : List UInt8) (compat : Bool)
    (hfits : snapshot.length ≤ nativeTargetMax) :
    StagedWell compat opened (matchesOf (zpLoadEarlyNative snapshot) targetType target compat)
      (zpStageEarlyNativePacket k opened (zpLoadEarlyNative snapshot) targetType target
        compat) := by
  have hfound : (matchesOf (zpLoadEarlyNative snapshot) targetType target compat).length ≤
      nativeTargetMax :=
    ((List.length_filter_le _ _).trans (List.length_filterMap_le _ _)).trans hfits
  have hvalid : ∀ m ∈ matchesOf (zpLoadEarlyNative snapshot) targetType target compat,
      Valid m := fun m hm => by
    obtain ⟨raw, -, hraw⟩ := List.mem_filterMap.mp (List.mem_filter.mp hm).1
    exact ⟨raw, hraw⟩
  simp only [zpStageEarlyNativePacket]
  split_ifs
  · exact .failed [] rfl
  · exact .failed _ (settled_iff_perm.mpr (List.Perm.refl _))
  · cases hfd : zpInstallPacketFd k (stageModules k opened
        (matchesOf (zpLoadEarlyNative snapshot) targetType target compat)).opened with
    | none => exact .failed _ (settled_iff_perm.mpr (List.Perm.refl _))
    | some fd => exact .staged _ _ (delivers_of_stage hfound hvalid (getUnusedFd_of_install hfd))

/-- **The packet of early native modules.**  When the kernel fails to stage one, it has closed what
it opened.  When it stages one, the core decodes its entries, and all its descriptors are closed
once exactly if the loader opens and has its entry, or the packet never reaches the stub.  Any
packet that names a descriptor once is closed, as far as its entries are read. -/
theorem earlyPacket_exact (k : Kernel) (opened : Finset ℕ) (snapshot : List NativeEntry)
    (targetType : UInt8) (target : List UInt8) (compat : Bool)
    (hfits : snapshot.length ≤ nativeTargetMax) :
    StagedWell compat opened (matchesOf (zpLoadEarlyNative snapshot) targetType target compat)
      (zpStageEarlyNativePacket k opened (zpLoadEarlyNative snapshot) targetType target compat) ∧
    (∀ entries packetFd answers handles, entries.length ≤ nativeTargetMax →
      (∀ e ∈ entries, Staged e) → packetFd ∉ descriptors entries →
      (loadEarlyModules ⟨true, packetBytes entries⟩ answers handles (some packetFd)).decoded =
        entries.map fun e => (infoOf e.module, e.descriptor)) ∧
    ∀ file packetFd answers handles,
      (packetFd :: descriptors (readEntries file)).Nodup →
      ClosedOnce (loadEarlyModules file answers handles (some packetFd)).closed
          (packetFd :: descriptors (readEntries file)) ∧
        ClosedOnce (closeEarlyPacket file (some packetFd))
          (packetFd :: descriptors (readEntries file)) := by
  refine ⟨stagedWell k opened snapshot targetType target compat hfits,
    fun entries packetFd answers handles hlen hstaged hnot =>
      decoded_of_staged handles hlen hstaged hnot,
    fun file packetFd answers handles hnodup => ?_⟩
  have hnot := (List.nodup_cons.mp hnodup).1
  have hperm := List.perm_append_singleton packetFd (descriptors (readEntries file))
  rw [loadEarlyModules_closed answers handles hnot, closeEarlyPacket_eq hnot]
  exact ⟨closedOnce_of_perm hperm hnodup, closedOnce_of_perm hperm hnodup⟩

/-- A kernel that gives the number behind those that are open. -/
def sampleKernel : Kernel where
  getUnusedFd opened := if opened.sup id < 2 ^ 31 - 1 then some (opened.sup id + 1) else none
  unused opened fd h := by
    split_ifs at h
    obtain rfl := Option.some.inj h
    exact fun hmem => absurd (Finset.le_sup (f := id) hmem) (Nat.not_succ_le_self _)
  int opened fd h := by
    split_ifs at h
    obtain rfl := Option.some.inj h
    omega
  copied _ := true
  written := true

/-- An array that is filled with one character. -/
def filled (n : ℕ) (c : UInt8) : FixedArray UInt8 n := ⟨List.replicate n c, List.length_replicate⟩

/-- The module `m...` with the path `l...` for the process `t...`. -/
def sampleModule : NativeEntry :=
  ⟨nativeTargetName, earlyNativeEntryAbi64, 0, filled _ 109, filled _ 116, filled _ 108⟩

/-- Its process. -/
def sampleTarget : List UInt8 := text (terminate (filled nativeTargetValueMax 116))

/-- A second module for the process, and one for its 32-bit twin. -/
def sampleSecond : NativeEntry := { sampleModule with moduleId := filled _ 110 }
def sampleTwin : NativeEntry := { sampleModule with flags := earlyNativeEntryAbi32 }

theorem earlyPacket_exact_sample :
    StagedWell false {0, 1, 2, 3, 4}
      (matchesOf (zpLoadEarlyNative [sampleModule, sampleTwin, sampleSecond]) nativeTargetName
        sampleTarget false)
      (zpStageEarlyNativePacket sampleKernel {0, 1, 2, 3, 4}
        (zpLoadEarlyNative [sampleModule, sampleTwin, sampleSecond]) nativeTargetName sampleTarget
        false) :=
  (earlyPacket_exact sampleKernel {0, 1, 2, 3, 4} [sampleModule, sampleTwin, sampleSecond]
    nativeTargetName sampleTarget false (by decide)).1

/-! ## 12. The loader does not open -/

/-- Whatever becomes of a packet that the kernel has staged, all its descriptors are closed once,
and so is that of the core. -/
def ClosesAlways : Prop := ∀ k opened snapshot targetType target compat,
  snapshot.length ≤ nativeTargetMax → ∀ p log,
    zpStageEarlyNativePacket k opened (zpLoadEarlyNative snapshot) targetType target compat =
      (some p, log) →
    ∀ coreFd, ∀ use : Use,
      Settled (.acquire coreFd :: log ++ (use.closes compat p coreFd).map .release)

/-- With descriptors up to 4 open, the library of the sample is put in 5 and the packet in 6. -/
theorem stage_sample : ∃ entries,
    zpStageEarlyNativePacket sampleKernel {0, 1, 2, 3, 4} (zpLoadEarlyNative [sampleModule])
      nativeTargetName sampleTarget false =
        (some ⟨6, [5], entries⟩, [.acquire 5, .acquire 6]) := by
  refine ⟨[⟨(zpEarlyEntryValid sampleModule).getD sampleModule, 5, 0⟩], ?_⟩
  decide +kernel

/-- **The packet stays open when the loader does not open.**  The loader was in descriptor 3, and
the core is in 4. -/
theorem not_closesAlways : ¬ ClosesAlways := by
  intro h
  obtain ⟨entries, hstage⟩ := stage_sample
  let use : Use :=
    .injected ⟨false, false⟩ ⟨false, false⟩ fun _ => ⟨false, false, false, none, false⟩
  have hsettled := h sampleKernel {0, 1, 2, 3, 4} [sampleModule] nativeTargetName sampleTarget
    false (by decide) _ _ hstage 4 use
  have hcloses : use.closes false ⟨6, [5], entries⟩ 4 = [4] := rfl
  rw [hcloses] at hsettled
  exact absurd hsettled (by decide)

/-! ## 13. A packet that is refused -/

/-- The entries that are in a file behind its header, whatever the header says. -/
def inPacket (file : PacketFile) : List PacketEntry :=
  packetEntryLayout.records file.bytes.length (file.bytes.drop packetHeaderLayout.size)

/-- Whatever the packet is, the core closes all descriptors in it once. -/
def ClosesOnce : Prop := ∀ file packetFd answers handles,
  (packetFd :: descriptors (inPacket file)).Nodup →
    ClosedOnce (loadEarlyModules file answers handles (some packetFd)).closed
      (packetFd :: descriptors (inPacket file))

/-- A packet of the first version, with one library in descriptor 7. -/
def oldPacket : PacketFile where
  seekable := true
  bytes := packetHeaderLayout.put { packetHeader 1 with version := 1 } ++
    [⟨sampleModule, 7, 0⟩].flatMap packetEntryLayout.put

theorem readHeader_oldPacket : readHeader oldPacket = none := by
  rw [readHeader, oldPacket, if_pos rfl, Layout.read_put]
  exact Option.filter_some_neg (by decide)

theorem inPacket_oldPacket : inPacket oldPacket = [⟨sampleModule, 7, 0⟩] := by
  have hdrop : oldPacket.bytes.drop packetHeaderLayout.size =
      [⟨sampleModule, 7, 0⟩].flatMap packetEntryLayout.put := by
    rw [oldPacket, ← packetHeaderLayout.length_put { packetHeader 1 with version := 1 },
      List.drop_left]
  have hlen : 1 ≤ oldPacket.bytes.length := by
    rw [oldPacket, List.length_append, packetHeaderLayout.length_put]
    exact Nat.le_trans (by decide) (Nat.le_add_right packetHeaderLayout.size _)
  rw [inPacket, hdrop]
  exact Layout.records_puts_all _ (by decide) hlen

/-- **The descriptors in a packet that is refused stay open.** -/
theorem not_closesOnce : ¬ ClosesOnce := by
  intro h
  have hdescriptors : descriptors (inPacket oldPacket) = [7] := by
    rw [inPacket_oldPacket]
    rfl
  have hclosed := h oldPacket 8 (fun _ => ⟨false, false, false, none, false⟩) []
    (by rw [hdescriptors]; decide) 7
  rw [loadEarlyModules, readHeader_oldPacket, hdescriptors] at hclosed
  exact absurd hclosed (by decide)

end YukiZygisk.EarlyPacket
