/-
# Which root solution runs, and who answers for it (`kernel/host/root_impl.c`)

The kernel module loads under one root solution only.  KernelSU is found by its symbols; APatch also
by a table of symbols somewhere in kernel memory: the scan reads memory page by page, with an
overlap, looks for a name and then checks the table around it.  Afterwards the question whether an
app is to be cut off from the modules goes to a function of the root solution, where one was found,
and to the cache of the daemon otherwise.

* `scan_unchunked`: reading by pages misses no table and finds none twice over;
* `answers_of_reach`: after any number of detections, installed caches and exits, an answer comes
  from the function that the last detection found, or from a cache of the same owner, and never from
  both.

The scan reads pages that overlap by the length of what is looked for, so a name across the end of a
page is inside of the next buffer (`scanChunk_eq`, `scanRange_eq`).  The table around it is read
from memory again, and the functions that parse it depend on the bytes that can be read there only
(`parse_congr`).  For the answers, `Coherent` says which of the fields of the state belong together:
where a function of the kernel is used it is not null and the cache is not consulted, and where
there is a cache it has the owner of the detection.  Each call sets these fields together, or resets
them first (`Coherent.refused`).
-/
import YukiZygisk.Lib.Lts
import YukiZygisk.Host.Mount
import YukiZygisk.Host.PolicyCache

namespace YukiZygisk.RootDetect

open Mount (Text ascii)
open Cache (PolicyCache)

/-! ## 1. Kernel memory -/

/-- The bytes of kernel memory that can be read. -/
abbrev Memory := Nat → Option UInt8

/-- `yz_kernel_read_nofault`: all the bytes, or none. -/
def readNofault (mem : Memory) : Nat → Nat → Option (List UInt8)
  | _, 0 => some []
  | src, n + 1 => (mem src).bind fun b => (readNofault mem (src + 1) n).map (b :: ·)

/-- `yz_valid_kernel_addr`, on 64 bits. -/
def validKernelAddr (addr : Nat) : Bool :=
  addr ≠ 0 ∧ addr < 2 ^ 64 - 4095 ∧ addr.testBit 63

/-- `struct yz_kp_symbol`; `hash` is never used. -/
structure KpSymbol where
  addr : Nat
  name : List UInt8

/-- `YZ_KP_SYMBOL_NAME_LEN`, `YZ_KP_SYMBOL_SIZE`, `YZ_KP_MAX_SYMBOL_WALK`. -/
def kpSymbolNameLen : Nat := 32
def kpSymbolSize : Nat := 48
def kpMaxSymbolWalk : Nat := 256

/-- `YZ_KP_SCAN_CHUNK`, `YZ_KP_SCAN_OVERLAP`, `YZ_KP_MAX_SCAN_RANGE`. -/
def kpScanChunk : Nat := 4096
def kpScanOverlap : Nat := kpSymbolSize
def kpMaxScanRange : Nat := 512 * 1024 * 1024

/-- `YZ_KP_SU_NAME` -/
def kpSuName : Text := ascii "su_get_path"

/-- The functions of APatch, as addresses; 0 is null. -/
structure ApSymbols where
  suGetPath : Nat := 0
  isSuAllowUid : Nat := 0
  suAllowUidNums : Nat := 0
  suAllowUids : Nat := 0
  suAllowUidProfile : Nat := 0
  getModExclude : Nat := 0
  listModExclude : Nat := 0
  readKstorage : Nat := 0
  listKstorageIds : Nat := 0
  deriving DecidableEq

/-- `yz_kp_symbol_name_eq`. -/
def kpSymbolNameEq (sym : KpSymbol) (name : Text) : Bool :=
  name.length < kpSymbolNameLen ∧ sym.name.take name.length = name ∧
    sym.name[name.length]? = some 0

/-- `yz_kp_read_symbol`. -/
def kpReadSymbol (mem : Memory) (entry : Nat) : Option KpSymbol :=
  if validKernelAddr entry then
    (readNofault mem entry kpSymbolSize).map fun bytes =>
      ⟨Bytes.readAt 0 8 bytes, (bytes.drop 16).take kpSymbolNameLen⟩
  else none

/-- The entries around an anchor, from the lowest on. -/
def entriesNear (anchor : Nat) : List Nat :=
  (List.range (2 * kpMaxSymbolWalk + 1)).map fun i =>
    (anchor + i * kpSymbolSize + (2 ^ 64 - kpMaxSymbolWalk * kpSymbolSize)) % 2 ^ 64

/-- `yz_kp_lookup_near`: the first entry of the name decides. -/
def kpLookupNear (mem : Memory) (anchor : Nat) (name : Text) : Nat :=
  match (entriesNear anchor).findSome? fun entry =>
      (kpReadSymbol mem entry).filter (kpSymbolNameEq · name) with
  | some sym => if validKernelAddr sym.addr then sym.addr else 0
  | none => 0

/-- `yz_kp_parse_table`. -/
def kpParseTable (mem : Memory) (suNameAddr : Nat) (s : ApSymbols) : Bool × ApSymbols :=
  let anchor := (suNameAddr + (2 ^ 64 - 16)) % 2 ^ 64
  match kpReadSymbol mem anchor with
  | none => (false, s)
  | some sym =>
    if !kpSymbolNameEq sym kpSuName || !validKernelAddr sym.addr then (false, s)
    else
      let profile := kpLookupNear mem anchor (ascii "su_allow_uid_profile")
      if profile = 0 then (false, s)
      else
        let s := { s with suAllowUidProfile := profile }
        let exclude := kpLookupNear mem anchor (ascii "get_ap_mod_exclude")
        if exclude = 0 then (false, s)
        else
          (true,
            { s with
              getModExclude := exclude
              suGetPath := sym.addr
              isSuAllowUid := kpLookupNear mem anchor (ascii "is_su_allow_uid")
              suAllowUidNums := kpLookupNear mem anchor (ascii "su_allow_uid_nums")
              suAllowUids := kpLookupNear mem anchor (ascii "su_allow_uids")
              listModExclude := kpLookupNear mem anchor (ascii "list_ap_mod_exclude")
              readKstorage := kpLookupNear mem anchor (ascii "read_kstorage")
              listKstorageIds := kpLookupNear mem anchor (ascii "list_kstorage_ids") })

/-! ## 2. The scan -/

/-- A loop that stops at the first hit. -/
def firstHit {α : Type*} (f : α → ApSymbols → Bool × ApSymbols) :
    List α → ApSymbols → Bool × ApSymbols
  | [], s => (false, s)
  | x :: l, s => if (f x s).1 then f x s else firstHit f l (f x s).2

/-- `yz_kp_scan_chunk`. -/
def kpScanChunkAt (mem : Memory) (base : Nat) (buf : List UInt8) (s : ApSymbols) :
    Bool × ApSymbols :=
  if buf.length < kpSuName.length then (false, s)
  else
    firstHit (fun i s =>
      if (buf.drop i).take kpSuName.length = kpSuName then kpParseTable mem (base + i) s
      else (false, s)) (List.range (buf.length - kpSuName.length + 1)) s

/-- The positions of the loop of `yz_kp_scan_range`. -/
def chunkStarts (start stop : Nat) : List Nat :=
  (List.range ((stop - start + (kpScanChunk - 1)) / kpScanChunk)).map (start + kpScanChunk * ·)

/-- How much is read at a position. -/
def chunkLen (stop pos : Nat) : Nat := min (kpScanChunk + kpScanOverlap) (stop - pos)

/-- `yz_kp_scan_range`; `alloc` says whether there is a buffer. -/
def kpScanRange (mem : Memory) (alloc : Bool) (start stop : Nat) (s : ApSymbols) :
    Bool × ApSymbols :=
  if !validKernelAddr start || !validKernelAddr stop || stop ≤ start ||
      stop - start > kpMaxScanRange then (false, s)
  else if !alloc then (false, s)
  else
    firstHit (fun pos s => match readNofault mem pos (chunkLen stop pos) with
      | none => (false, s)
      | some buf => kpScanChunkAt mem pos buf s) (chunkStarts start stop) s

variable {mem : Memory} {src n i k a : Nat} {s : ApSymbols}

/-! ## 3. Reading -/

theorem length_readNofault {buf : List UInt8} (h : readNofault mem src n = some buf) :
    buf.length = n := by
  induction n generalizing src buf with
  | zero =>
    obtain rfl := Option.some.inj h
    rfl
  | succ n ih =>
    obtain ⟨b, -, hmap⟩ := Option.bind_eq_some_iff.mp h
    obtain ⟨rest, hrest, rfl⟩ := Option.map_eq_some_iff.mp hmap
    rw [List.length_cons, ih hrest]

/-- Part of what was read is what reading that part gives. -/
theorem readNofault_slice {buf : List UInt8} (h : readNofault mem src n = some buf)
    (hle : i + k ≤ n) : readNofault mem (src + i) k = some ((buf.drop i).take k) := by
  induction n generalizing src buf i k with
  | zero =>
    obtain ⟨rfl, rfl⟩ : i = 0 ∧ k = 0 := by omega
    rfl
  | succ n ih =>
    obtain ⟨b, hb, hmap⟩ := Option.bind_eq_some_iff.mp h
    obtain ⟨rest, hrest, rfl⟩ := Option.map_eq_some_iff.mp hmap
    cases i with
    | zero =>
      cases k with
      | zero => rfl
      | succ k =>
        have htail := ih hrest (i := 0) (k := k) (by omega)
        simp only [Nat.add_zero, List.drop_zero] at htail ⊢
        rw [readNofault, hb, Option.bind_some, htail]
        rfl
    | succ i =>
      have htail := ih hrest (i := i) (k := k) (by omega)
      rw [List.drop_succ_cons, ← htail]
      congr 1
      omega

/-- Whether some bytes can all be read. -/
def Readable (mem : Memory) (src n : Nat) : Prop := ∀ k < n, (mem (src + k)).isSome = true

/-- A range is read if each of its bytes can be. -/
theorem readNofault_isSome : (readNofault mem src n).isSome = true ↔ Readable mem src n := by
  induction n generalizing src with
  | zero => exact ⟨fun _ k hk => absurd hk (Nat.not_lt_zero k), fun _ => rfl⟩
  | succ n ih =>
    have hrest : (readNofault mem src (n + 1)).isSome = true ↔
        (mem src).isSome = true ∧ (readNofault mem (src + 1) n).isSome = true := by
      rw [readNofault]
      cases mem src <;> simp
    rw [hrest, ih]
    constructor
    · rintro ⟨hfirst, hall⟩ k hk
      cases k with
      | zero => exact hfirst
      | succ k =>
        have hnext := hall k (by omega)
        rwa [Nat.add_assoc, Nat.add_comm 1 k] at hnext
    · intro hall
      refine ⟨hall 0 (by omega), ?_⟩
      intro k hk
      have hnext := hall (k + 1) (by omega)
      rwa [Nat.add_comm k 1, ← Nat.add_assoc] at hnext

/-! ## 4. Loops that stop at a hit -/

section Hits

variable {α : Type*} {f : α → ApSymbols → Bool × ApSymbols}

/-- A loop that stops at a hit has found one if there is one. -/
theorem firstHit_fst {p : α → Bool} (h : ∀ x s, (f x s).1 = p x) (l : List α) (s : ApSymbols) :
    (firstHit f l s).1 = l.any p := by
  induction l generalizing s with
  | nil => rfl
  | cons x l ih =>
    rw [firstHit, List.any_cons, ← h x s]
    cases hx : (f x s).1 with
    | true => simpa using hx
    | false => simpa using ih _

end Hits

/-! ## 5. What the scan finds -/

/-- Whether the name is there and a table around it. -/
def isTable (mem : Memory) (a : Nat) : Bool :=
  readNofault mem a kpSuName.length = some kpSuName ∧ (kpParseTable mem a {}).1

/-- What a table gives does not depend on what was there before. -/
theorem parse_congr (mem : Memory) (a : Nat) (s s' : ApSymbols) :
    (kpParseTable mem a s).1 = (kpParseTable mem a s').1 ∧
      ((kpParseTable mem a s).1 = true → (kpParseTable mem a s).2 = (kpParseTable mem a s').2) := by
  unfold kpParseTable
  simp only
  cases kpReadSymbol mem ((a + (2 ^ 64 - 16)) % 2 ^ 64) with
  | none => exact ⟨rfl, fun h => by cases h⟩
  | some sym =>
    simp only
    split_ifs
    · exact ⟨rfl, fun h => by cases h⟩
    · exact ⟨rfl, fun h => by cases h⟩
    · exact ⟨rfl, fun h => by cases h⟩
    · exact ⟨rfl, fun _ => rfl⟩

theorem kpSuName_length : kpSuName.length = 11 := by decide

/-- **A buffer has a hit** exactly if a table begins in it. -/
theorem scanChunk_eq {buf : List UInt8} {base : Nat} (h : readNofault mem base n = some buf)
    (s : ApSymbols) : (kpScanChunkAt mem base buf s).1 = true ↔
      ∃ i, i + kpSuName.length ≤ n ∧ isTable mem (base + i) = true := by
  have hlen := length_readNofault h
  unfold kpScanChunkAt
  split_ifs with hshort
  · constructor
    · exact fun h => by cases h
    · rintro ⟨i, hi, -⟩
      omega
  · have hstep : ∀ i (s : ApSymbols), ((if (buf.drop i).take kpSuName.length = kpSuName then
        kpParseTable mem (base + i) s else (false, s)) : Bool × ApSymbols).1 =
          decide ((buf.drop i).take kpSuName.length = kpSuName ∧
            (kpParseTable mem (base + i) {}).1 = true) := by
      intro i s
      rw [← (parse_congr mem (base + i) s {}).1]
      split_ifs with hname <;> simp [hname]
    rw [firstHit_fst hstep, List.any_eq_true]
    simp only [List.mem_range, decide_eq_true_eq, isTable]
    constructor
    · rintro ⟨i, hi, hname, hparse⟩
      have hle : i + kpSuName.length ≤ n := by omega
      exact ⟨i, hle, by rw [readNofault_slice h hle, hname], hparse⟩
    · rintro ⟨i, hi, hname, hparse⟩
      rw [readNofault_slice h hi] at hname
      exact ⟨i, by omega, Option.some.inj hname, hparse⟩

/-- Whether `kpScanRange` looks at a range at all. -/
def scannable (start stop : Nat) : Bool :=
  validKernelAddr start ∧ validKernelAddr stop ∧ start < stop ∧ stop - start ≤ kpMaxScanRange

/-- What the scan of a range finds: a table in one of the chunks that can be read. -/
theorem scanRange_eq (mem : Memory) (alloc : Bool) (start stop : Nat) (s : ApSymbols) :
    (kpScanRange mem alloc start stop s).1 = true ↔ scannable start stop = true ∧ alloc = true ∧
      ∃ pos ∈ chunkStarts start stop, Readable mem pos (chunkLen stop pos) ∧
        ∃ i, i + kpSuName.length ≤ chunkLen stop pos ∧ isTable mem (pos + i) = true := by
  have hchunk : ∀ pos (s : ApSymbols), ((match readNofault mem pos (chunkLen stop pos) with
      | none => (false, s)
      | some buf => kpScanChunkAt mem pos buf s) : Bool × ApSymbols).1 = true ↔
        Readable mem pos (chunkLen stop pos) ∧
          ∃ i, i + kpSuName.length ≤ chunkLen stop pos ∧ isTable mem (pos + i) = true := by
    intro pos s
    rw [← readNofault_isSome]
    cases hread : readNofault mem pos (chunkLen stop pos) with
    | none => simp
    | some buf => simpa using scanChunk_eq hread s
  have hscan : (!validKernelAddr start || !validKernelAddr stop || decide (stop ≤ start) ||
      decide (stop - start > kpMaxScanRange)) = !scannable start stop := by
    simp only [scannable, Bool.decide_and, Bool.not_and, Bool.decide_eq_true, ← decide_not, not_lt,
      not_le, Bool.or_assoc]
  unfold kpScanRange
  rw [hscan]
  cases hs : scannable start stop with
  | false => simp
  | true =>
    cases alloc with
    | false => simp
    | true =>
      simp only [Bool.not_true, Bool.false_eq_true, if_false, true_and]
      have hfst := firstHit_fst (f := fun pos s => match readNofault mem pos (chunkLen stop pos) with
          | none => (false, s)
          | some buf => kpScanChunkAt mem pos buf s)
        (p := fun pos => ((match readNofault mem pos (chunkLen stop pos) with
          | none => (false, {})
          | some buf => kpScanChunkAt mem pos buf {}) : Bool × ApSymbols).1)
        (fun pos s => Bool.eq_iff_iff.mpr ((hchunk pos s).trans (hchunk pos {}).symm))
        (chunkStarts start stop) s
      rw [hfst, List.any_eq_true]
      exact exists_congr fun pos => and_congr_right fun _ => hchunk pos {}

/-- **Reading by pages misses nothing.**  In a range that is scanned at all, between two addresses of
the kernel and at most 512 MiB long, and that can be read, the scan finds a table exactly when there
is one anywhere in the range: across the end of a page of 4096 bytes, at its start or in its
overlap. -/
theorem scan_unchunked {start stop : Nat} (hs : scannable start stop = true)
    (hr : Readable mem start (stop - start)) (s : ApSymbols) :
    (kpScanRange mem true start stop s).1 = true ↔
      ∃ a, start ≤ a ∧ a + kpSuName.length ≤ stop ∧ isTable mem a = true := by
  rw [scanRange_eq]
  have hlt : start < stop := by
    simp only [scannable, decide_eq_true_eq] at hs
    exact hs.2.2.1
  have hname := kpSuName_length
  simp only [hs, true_and, chunkStarts, List.mem_map, List.mem_range, kpScanChunk, chunkLen,
    kpScanOverlap, kpSymbolSize]
  constructor
  · rintro ⟨pos, ⟨k, -, rfl⟩, -, i, hi, htable⟩
    exact ⟨_, by omega, by omega, htable⟩
  · rintro ⟨a, hstart, hstop, htable⟩
    refine ⟨start + 4096 * ((a - start) / 4096), ⟨(a - start) / 4096, by omega, rfl⟩, ?_,
      (a - start) % 4096, by omega, ?_⟩
    · intro k hk
      have hread := hr (4096 * ((a - start) / 4096) + k) (by omega)
      rwa [← Nat.add_assoc] at hread
    · have heq : start + 4096 * ((a - start) / 4096) + (a - start) % 4096 = a := by omega
      rwa [heq]

/-- A symbol of a table. -/
def symbolBytes (addr : Nat) (name : Text) : List UInt8 :=
  Bytes.toBytes 8 addr ++ List.replicate 8 0 ++ name ++
    List.replicate (kpSymbolNameLen - name.length) 0

/-- Memory of zeros with a table of three symbols 4074 bytes behind the start of the range, so that
the name that is looked for lies across the end of a page. -/
def tableMem : Memory := fun a =>
  some (if a < 2 ^ 63 + 4074 then 0
    else (symbolBytes (2 ^ 63 + 1) kpSuName ++
      (symbolBytes (2 ^ 63 + 2) (ascii "su_allow_uid_profile") ++
        symbolBytes (2 ^ 63 + 3) (ascii "get_ap_mod_exclude"))).getD (a - (2 ^ 63 + 4074)) 0)

theorem scan_unchunked_across : (kpScanRange tableMem true (2 ^ 63) (2 ^ 63 + 5000) {}).1 = true :=
  (scan_unchunked (by decide) (fun _ _ => rfl) {}).mpr
    ⟨2 ^ 63 + 4090, by decide, by decide, by decide +kernel⟩

/-! ## 6. Detection -/

/-- `struct vm_struct`, of which three fields are compared. -/
structure VmStruct where
  addr : Nat
  size : Nat
  flags : Nat

/-- What a detection finds in the kernel: its memory, what `yz_lookup_callable_quiet` answers,
whether the buffer of a scan can be had, where the kernel keeps its areas, the paths that open, and
the two module parameters. -/
structure Kernel where
  mem : Memory
  lookup : Text → Nat
  alloc : Bool
  vmAt : Nat → Option VmStruct
  busyHead : Nat → Nat → Nat
  opens : Text → Bool
  ksuModulePresent : Bool
  forcePolicyFallback : Bool

/-- `YZ_KP_MAX_VMAP_AREAS`, `YZ_KP_MAX_VMAP_RANGE`, `YZ_KP_VM_FLAGS`. -/
def kpMaxVmapAreas : Nat := 4096
def kpMaxVmapRange : Nat := 64 * 1024 * 1024
def kpVmFlags : Nat := 0x44

/-- A word of kernel memory. -/
def readWord (mem : Memory) (addr : Nat) : Option Nat :=
  (readNofault mem addr 8).map (Bytes.readAt 0 8)

/-- `yz_kp_scan_kernel_image`. -/
def kpScanKernelImage (k : Kernel) (s : ApSymbols) : Bool × ApSymbols :=
  let text := k.lookup (ascii "_text")
  let start := if validKernelAddr text then text else k.lookup (ascii "_stext")
  kpScanRange k.mem k.alloc start (k.lookup (ascii "_end")) s

/-- One area of the walk in `yz_kp_scan_vmap_list`, from its bytes. -/
def kpScanArea (k : Kernel) (va : List UInt8) (s : ApSymbols) : Bool × ApSymbols :=
  let start := Bytes.readAt 0 8 va
  let stop := Bytes.readAt 8 8 va
  let vm := Bytes.readAt 56 8 va
  if validKernelAddr start ∧ validKernelAddr stop ∧ stop > start ∧
      stop - start ≥ kpSymbolSize ∧ stop - start ≤ kpMaxVmapRange ∧ validKernelAddr vm ∧
      (k.vmAt vm).any fun v => v.addr = start ∧ v.size = stop - start ∧ v.flags = kpVmFlags then
    kpScanRange k.mem k.alloc start stop s
  else (false, s)

/-- The walk of `yz_kp_scan_vmap_list`, with the number of areas that it may still look at. -/
def kpWalk (k : Kernel) (head : Nat) : Nat → Nat → ApSymbols → Bool × ApSymbols
  | 0, _, s => (false, s)
  | count + 1, pos, s =>
    if !validKernelAddr pos || pos = head then (false, s)
    else match readNofault k.mem (pos - 40) 72 with
      | none => (false, s)
      | some va =>
        if (kpScanArea k va s).1 then kpScanArea k va s
        else kpWalk k head count (Bytes.readAt 40 8 va) (kpScanArea k va s).2

/-- `yz_kp_scan_vmap_list`. -/
def kpScanVmapList (k : Kernel) (head : Nat) (s : ApSymbols) : Bool × ApSymbols :=
  if !validKernelAddr head then (false, s)
  else match readNofault k.mem head 16 with
    | none => (false, s)
    | some bytes => kpWalk k head kpMaxVmapAreas (Bytes.readAt 0 8 bytes) s

/-- `yz_kp_scan_vmap_nodes`. -/
def kpScanVmapNodes (k : Kernel) (s : ApSymbols) : Bool × ApSymbols :=
  let nodesSym := k.lookup (ascii "vmap_nodes")
  let nrSym := k.lookup (ascii "nr_vmap_nodes")
  if !validKernelAddr nodesSym || !validKernelAddr nrSym then (false, s)
  else match readWord k.mem nodesSym, readNofault k.mem nrSym 4 with
    | some nodes, some bytes =>
      let nr := Bytes.readAt 0 4 bytes
      if !validKernelAddr nodes || nr = 0 || nr > 1024 then (false, s)
      else firstHit (fun i s => kpScanVmapList k (k.busyHead nodes i) s) (List.range nr) s
    | _, _ => (false, s)

/-- `yz_kp_scan_legacy_vmap_list`. -/
def kpScanLegacyVmapList (k : Kernel) (s : ApSymbols) : Bool × ApSymbols :=
  let head := k.lookup (ascii "vmap_area_list")
  if !validKernelAddr head then (false, s) else kpScanVmapList k head s

/-- `yz_kp_scan_symbols`. -/
def kpScanSymbols (k : Kernel) (s : ApSymbols) : Bool × ApSymbols :=
  firstHit (fun scan s => scan k s) [kpScanKernelImage, kpScanVmapNodes, kpScanLegacyVmapList] s

inductive Owner
  | none | kernelsu | kernelpatch
  deriving DecidableEq

/-- `enum yz_root_owner`. -/
def Owner.value : Owner → UInt32
  | .none => 0
  | .kernelsu => 1
  | .kernelpatch => 2

/-- The variables of the file. -/
structure Root where
  mask : UInt32 := 0
  dispatcherNr : Int := -1
  owner : Owner := .none
  policyAllowed : Bool := false
  policyFallback : Bool := false
  cache : Option PolicyCache := none
  ksuIsAllowUid : Nat := 0
  ksuUidShouldUmount : Nat := 0
  ksuGetAllowList : Nat := 0
  ap : ApSymbols := {}

/-- `YZ_ROOT_KSU`, `YZ_ROOT_KSU_RDR`, `YZ_ROOT_APATCH`, `YZ_ROOT_MAGISK`, `YZ_ROOT_MULTI`,
`YZ_ROOT_NON_ROOT`. -/
def rootKsu : UInt32 := (1 : UInt32) <<< 0
def rootKsuRdr : UInt32 := (1 : UInt32) <<< 1
def rootApatch : UInt32 := (1 : UInt32) <<< 2
def rootMagisk : UInt32 := (1 : UInt32) <<< 3
def rootMulti : UInt32 := (1 : UInt32) <<< 4
def rootNonRoot : UInt32 := (1 : UInt32) <<< 5

/-- A symbol that is there, or 0. -/
def Kernel.symbol (k : Kernel) (name : Text) : Nat :=
  if validKernelAddr (k.lookup name) then k.lookup name else 0

/-- `yz_apatch_detect`. -/
def apatchDetect (k : Kernel) : Bool × ApSymbols :=
  let addr := k.symbol (ascii "su_get_path")
  if addr ≠ 0 then
    (true,
      { suGetPath := addr
        suAllowUidProfile := k.lookup (ascii "su_allow_uid_profile")
        getModExclude := k.lookup (ascii "get_ap_mod_exclude") })
  else kpScanSymbols k {}

/-- The dispatcher in `yz_ksu_detect`: a number that is not negative. -/
def ksuDispatcher (k : Kernel) (r : Root) : Root :=
  let addr := k.symbol (ascii "ksu_dispatcher_nr")
  if addr = 0 then r
  else match readNofault k.mem addr 4 with
    | none => r
    | some bytes =>
      let nr := Bytes.readAt 0 4 bytes
      if nr < 2 ^ 31 then { r with dispatcherNr := nr, mask := r.mask ||| rootKsuRdr } else r

/-- `yz_ksu_detect`: whether KernelSU was seen, and whether it can be asked. -/
def ksuDetect (k : Kernel) (r : Root) : Bool × Bool × Root :=
  let table := k.symbol (ascii "ksu_syscall_table")
  let umount := k.symbol (ascii "ksu_uid_should_umount")
  let list := k.symbol (ascii "ksu_get_allow_list")
  let r := if table ≠ 0 then ksuDispatcher k { r with mask := r.mask ||| rootKsu } else r
  let r := if umount ≠ 0 then
      { r with mask := r.mask ||| rootKsu, ksuUidShouldUmount := umount } else r
  let r := if list ≠ 0 then { r with mask := r.mask ||| rootKsu, ksuGetAllowList := list } else r
  let seen := table ≠ 0 || umount ≠ 0 || list ≠ 0
  let current := k.symbol (ascii "__ksu_is_allow_uid_for_current")
  let r := if seen && current ≠ 0 then { r with ksuIsAllowUid := current } else r
  let plain := k.symbol (ascii "__ksu_is_allow_uid")
  let r := if seen && r.ksuIsAllowUid = 0 && plain ≠ 0 then { r with ksuIsAllowUid := plain } else r
  let r := if k.ksuModulePresent then { r with mask := r.mask ||| rootKsu } else r
  (seen || k.ksuModulePresent, umount ≠ 0, r)

/-- `yz_magisk_detect`. -/
def magiskDetect (k : Kernel) : Bool :=
  [ascii "/sbin/magisk", ascii "/debug_ramdisk/sbin/magisk", ascii "/data/adb/magisk/magisk"].any
    k.opens

inductive DetectError
  | ebusy | eopnotsupp | enodev
  deriving DecidableEq

/-- `yz_host_root_detect`. -/
def yzHostRootDetect (k : Kernel) (r : Root) : Except DetectError Unit × Root :=
  let r := { ap := r.ap : Root }
  let (ksu, policy, r) := ksuDetect k r
  let apatch := apatchDetect k
  let r := { r with
    ap := apatch.2, mask := if apatch.1 then r.mask ||| rootApatch else r.mask }
  let policy := policy && !k.forcePolicyFallback
  let r := if k.forcePolicyFallback then
      { r with ksuUidShouldUmount := 0, ap := { r.ap with getModExclude := 0 } } else r
  let magisk := magiskDetect k
  let r := if magisk then { r with mask := r.mask ||| rootMagisk } else r
  if ksu.toNat + apatch.1.toNat + magisk.toNat > 1 then
    (.error .ebusy, { r with mask := r.mask ||| rootMulti })
  else if ksu then
    (.ok (), { r with owner := .kernelsu, policyAllowed := true, policyFallback := !policy })
  else if apatch.1 then
    (.ok (),
      { r with
        owner := .kernelpatch
        policyAllowed := true
        policyFallback := r.ap.getModExclude = 0 })
  else if magisk then (.error .eopnotsupp, r)
  else (.error .enodev, { r with mask := r.mask ||| rootNonRoot })

/-- `yz_host_root_exit`. -/
def yzHostRootExit (r : Root) : Root :=
  { r with
    policyAllowed := false, policyFallback := false, owner := .none, cache := none
    ksuIsAllowUid := 0, ksuUidShouldUmount := 0, ksuGetAllowList := 0, ap := {} }

/-- `yz_host_install_policy_cache`, with nothing running beside it. -/
def installPolicyCache (alloc : Bool) (file : List UInt8) (r : Root) : Root :=
  { r with
    cache := Cache.cacheAfter ⟨r.policyFallback, r.owner.value, alloc, r.policyFallback,
      r.owner.value⟩ r.cache file }

inductive UmountAnswer
  | value (shouldUmount : Bool)
  | eagain
  | eopnotsupp
  deriving DecidableEq

def UmountAnswer.ofCache : Option Bool → UmountAnswer
  | some b => .value b
  | none => .eagain

/-- `yz_host_uid_should_umount`; `call` is what the functions in the kernel answer, by address. -/
def yzHostUidShouldUmount (call : Nat → UInt32 → Bool) (r : Root) (uid : UInt32) : UmountAnswer :=
  if uid = 0 ∨ ¬ r.policyAllowed then .value false
  else match r.owner with
    | .kernelsu =>
      if r.ksuUidShouldUmount ≠ 0 then .value (call r.ksuUidShouldUmount uid)
      else .ofCache (Cache.yzPolicyCacheLookup r.cache uid)
    | .kernelpatch =>
      if r.ap.getModExclude ≠ 0 then .value (call r.ap.getModExclude uid)
      else .ofCache (Cache.yzPolicyCacheLookup r.cache uid)
    | .none => .eopnotsupp

/-- `YZ_ROOT_FLAG_KSU_REDIRECT`, `YZ_ROOT_STATUS_POLICY_KERNEL`, `YZ_ROOT_STATUS_POLICY_FALLBACK`,
`YZ_ROOT_STATUS_POLICY_CACHE_READY`. -/
def flagKsuRedirect : UInt32 := (1 : UInt32) <<< 0
def policyKernel : UInt32 := (1 : UInt32) <<< 1
def policyFallbackFlag : UInt32 := (1 : UInt32) <<< 2
def policyCacheReady : UInt32 := (1 : UInt32) <<< 3

/-- `yz_host_root_flags`. -/
def yzHostRootFlags (r : Root) : UInt32 :=
  (if r.mask &&& rootKsuRdr ≠ 0 then flagKsuRedirect else 0) |||
    (if r.policyFallback then policyFallbackFlag
      else if r.policyAllowed then policyKernel else 0) |||
    (if r.cache.isSome then policyCacheReady else 0)

/-! ## 7. Who answers -/

inductive Act
  | detect (k : Kernel)
  | install (alloc : Bool) (file : List UInt8)
  | exit

def root : Lts Root Act where
  init r := r = {}
  step r
    | .detect k => some (yzHostRootDetect k r).2
    | .install alloc file => some (installPolicyCache alloc file r)
    | .exit => some (yzHostRootExit r)

/-- What the variables of a state say together. -/
structure Coherent (r : Root) : Prop where
  allowed : r.policyAllowed = true ↔ r.owner ≠ .none
  fallback : r.policyFallback = true → r.owner ≠ .none
  kernelsu : r.owner = .kernelsu → (r.policyFallback = true ↔ r.ksuUidShouldUmount = 0)
  kernelpatch : r.owner = .kernelpatch → (r.policyFallback = true ↔ r.ap.getModExclude = 0)
  cached : ∀ c, r.cache = some c → r.policyFallback = true ∧ c.owner = r.owner.value

theorem ksuDispatcher_frame (k : Kernel) (r : Root) : (ksuDispatcher k r).owner = r.owner ∧
    (ksuDispatcher k r).policyAllowed = r.policyAllowed ∧
    (ksuDispatcher k r).policyFallback = r.policyFallback ∧ (ksuDispatcher k r).cache = r.cache ∧
    (ksuDispatcher k r).ksuUidShouldUmount = r.ksuUidShouldUmount := by
  unfold ksuDispatcher
  simp only
  split_ifs
  · simp
  · cases readNofault k.mem (k.symbol (ascii "ksu_dispatcher_nr")) 4 with
    | none => simp
    | some bytes =>
      simp only
      split_ifs <;> simp

/-- `yz_ksu_detect` changes what it is about only, and says whether it found the function. -/
theorem ksuDetect_frame (k : Kernel) (ap : ApSymbols) :
    (ksuDetect k { ap := ap }).2.2.owner = .none ∧
      (ksuDetect k { ap := ap }).2.2.policyAllowed = false ∧
      (ksuDetect k { ap := ap }).2.2.policyFallback = false ∧
      (ksuDetect k { ap := ap }).2.2.cache = none ∧
      ((ksuDetect k { ap := ap }).2.1 = true ↔
        (ksuDetect k { ap := ap }).2.2.ksuUidShouldUmount ≠ 0) := by
  generalize hr : ({ ap := ap } : Root) = r₀
  have h₀ : r₀.owner = .none ∧ r₀.policyAllowed = false ∧ r₀.policyFallback = false ∧
      r₀.cache = none ∧ r₀.ksuUidShouldUmount = 0 := by
    subst hr
    simp
  obtain ⟨h₁, h₂, h₃, h₄, h₅⟩ := h₀
  obtain ⟨d₁, d₂, d₃, d₄, d₅⟩ := ksuDispatcher_frame k { r₀ with mask := r₀.mask ||| rootKsu }
  unfold ksuDetect
  simp only
  split_ifs <;> simp_all

/-- A detection that accepts nothing. -/
theorem Coherent.refused {r : Root} (ho : r.owner = .none) (ha : r.policyAllowed = false)
    (hf : r.policyFallback = false) (hc : r.cache = none) : Coherent r := by
  constructor <;> simp [ho, ha, hf, hc]

/-- A detection leaves a state that belongs together. -/
theorem coherent_detect (k : Kernel) (r : Root) : Coherent (yzHostRootDetect k r).2 := by
  obtain ⟨howner, hallowed, hfallback, hcache, hpolicy⟩ := ksuDetect_frame k r.ap
  unfold yzHostRootDetect
  simp only
  generalize ksuDetect k { ap := r.ap } = found at *
  generalize apatchDetect k = apatch
  generalize magiskDetect k = magisk
  generalize k.forcePolicyFallback = force
  obtain ⟨ksu, policy, r'⟩ := found
  obtain ⟨apatch, symbols⟩ := apatch
  simp only at howner hallowed hfallback hcache hpolicy
  -- none or more than one solution is refused; one decides by its own function
  cases ksu <;> cases apatch
  · cases magisk <;> cases force <;> exact Coherent.refused howner hallowed hfallback hcache
  · cases magisk
    · cases force <;> constructor <;> simp [hcache]
    · cases force <;> exact Coherent.refused howner hallowed hfallback hcache
  · cases magisk
    · cases force
      · constructor <;> simp [hcache]
        cases policy <;> simp_all
      · constructor <;> simp [hcache]
    · cases force <;> exact Coherent.refused howner hallowed hfallback hcache
  · cases magisk <;> cases force <;> exact Coherent.refused howner hallowed hfallback hcache

/-- A cache that is handed over is taken only by its owner. -/
theorem coherent_install {r : Root} (h : Coherent r) (alloc : Bool) (file : List UInt8) :
    Coherent (installPolicyCache alloc file r) := by
  refine ⟨h.allowed, h.fallback, h.kernelsu, h.kernelpatch, ?_⟩
  intro c hc
  simp only [installPolicyCache, Cache.cacheAfter] at hc
  split at hc
  · rename_i new hnew
    obtain rfl := Option.some.inj hc
    rw [Cache.yzHostInstallPolicyCache] at hnew
    dsimp only at hnew
    split_ifs at hnew with hfallback hlen hvalid hsize halloc hpayload hbad hstale
    obtain rfl := Except.ok.inj hnew
    simp only [not_or, not_not] at hvalid
    have hf : r.policyFallback = true := by simpa using hfallback
    exact ⟨hf, hvalid.2.2.2.2.2.2.2.2⟩
  · exact h.cached c hc

theorem coherent_invariant : root.Invariant Lts.anyStep Coherent where
  init r h := by
    obtain rfl := h
    constructor <;> simp
  step r act r' h _ hstep := by
    cases act with
    | detect k =>
      obtain rfl := Option.some.inj hstep
      exact coherent_detect k r
    | install alloc file =>
      obtain rfl := Option.some.inj hstep
      exact coherent_install h alloc file
    | exit =>
      obtain rfl := Option.some.inj hstep
      constructor <;> simp [yzHostRootExit]

theorem flags_kernel (r : Root) : yzHostRootFlags r &&& policyKernel ≠ 0 ↔
    r.policyAllowed = true ∧ r.policyFallback = false := by
  unfold yzHostRootFlags
  cases r.policyAllowed <;> cases r.policyFallback <;> cases r.cache.isSome <;> split_ifs
  all_goals simp_all <;> decide

theorem flags_fallback (r : Root) : yzHostRootFlags r &&& policyFallbackFlag ≠ 0 ↔
    r.policyFallback = true := by
  unfold yzHostRootFlags
  cases r.policyAllowed <;> cases r.policyFallback <;> cases r.cache.isSome <;> split_ifs
  all_goals simp_all <;> decide

/-- **Who answers for the root solution.**  After any number of detections, of caches handed over
and of exits, one of three things is the case, and the status bits say which: a function of the
kernel that is not null answers, and there is no cache; the cache answers, whatever the functions of
the kernel would say, and it was written for the owner that the last detection found; or no root
solution was accepted, there is no cache, and nobody is cut off. -/
theorem answers_of_reach {r : Root} (h : root.Reach Lts.anyStep r) :
    (yzHostRootFlags r &&& policyKernel ≠ 0 ∧ yzHostRootFlags r &&& policyFallbackFlag = 0 ∧
      r.cache = none ∧ ∃ f ≠ 0, ∀ call uid, yzHostUidShouldUmount call r uid =
        .value (uid ≠ 0 && call f uid)) ∨
    (yzHostRootFlags r &&& policyKernel = 0 ∧ yzHostRootFlags r &&& policyFallbackFlag ≠ 0 ∧
      (∀ c, r.cache = some c → c.owner = r.owner.value) ∧
      ∀ call uid, yzHostUidShouldUmount call r uid =
        if uid = 0 then .value false else .ofCache (Cache.yzPolicyCacheLookup r.cache uid)) ∨
    (yzHostRootFlags r &&& policyKernel = 0 ∧ yzHostRootFlags r &&& policyFallbackFlag = 0 ∧
      r.cache = none ∧ ∀ call uid, yzHostUidShouldUmount call r uid = .value false) := by
  have hc := h.invariant coherent_invariant
  have hkernel := flags_kernel r
  have hfallback := flags_fallback r
  have hcache : r.policyFallback = false → r.cache = none := by
    intro hf
    cases hr : r.cache with
    | none => rfl
    | some c => simpa [hf] using (hc.cached c hr).1
  cases hallowed : r.policyAllowed with
  | false =>
    have hnone : r.owner = .none := by
      by_contra hne
      simp [hc.allowed.mpr hne] at hallowed
    have hf : r.policyFallback = false := by
      by_contra hf
      exact hc.fallback (by simpa using hf) hnone
    refine .inr (.inr ⟨?_, ?_, hcache hf, ?_⟩)
    · simpa [hallowed] using hkernel
    · simpa [hf] using hfallback
    · intro call uid
      simp [yzHostUidShouldUmount, hallowed]
  | true =>
    cases hf : r.policyFallback with
    | true =>
      refine .inr (.inl ⟨?_, hfallback.mpr hf, fun c hr => (hc.cached c hr).2, ?_⟩)
      · simpa [hf] using hkernel
      · intro call uid
        unfold yzHostUidShouldUmount
        cases howner : r.owner with
        | none => exact absurd howner (hc.allowed.mp hallowed)
        | kernelsu => simp [hallowed, (hc.kernelsu howner).mp hf]
        | kernelpatch => simp [hallowed, (hc.kernelpatch howner).mp hf]
    | false =>
      refine .inl ⟨hkernel.mpr ⟨hallowed, hf⟩, by simpa [hf] using hfallback, hcache hf, ?_⟩
      cases howner : r.owner with
      | none => exact absurd howner (hc.allowed.mp hallowed)
      | kernelsu =>
        have hne : r.ksuUidShouldUmount ≠ 0 := fun h => by
          simp [(hc.kernelsu howner).mpr h] at hf
        refine ⟨r.ksuUidShouldUmount, hne, ?_⟩
        intro call uid
        by_cases huid : uid = 0 <;> simp [yzHostUidShouldUmount, hallowed, howner, hne, huid]
      | kernelpatch =>
        have hne : r.ap.getModExclude ≠ 0 := fun h => by
          simp [(hc.kernelpatch howner).mpr h] at hf
        refine ⟨r.ap.getModExclude, hne, ?_⟩
        intro call uid
        by_cases huid : uid = 0 <;> simp [yzHostUidShouldUmount, hallowed, howner, hne, huid]

/-- A kernel with KernelSU whose policy can be asked, and nothing else. -/
def kernelSu : Kernel where
  mem _ := none
  lookup name := if name = ascii "ksu_uid_should_umount" then 2 ^ 63 + 4096 else 0
  alloc := true
  vmAt _ := none
  busyHead _ _ := 0
  opens _ := false
  ksuModulePresent := true
  forcePolicyFallback := false

theorem answers_of_reach_kernelSu :
    let r := (yzHostRootDetect kernelSu {}).2
    (yzHostRootFlags r &&& policyKernel ≠ 0 ∧ yzHostRootFlags r &&& policyFallbackFlag = 0 ∧
      r.cache = none ∧ ∃ f ≠ 0, ∀ call uid, yzHostUidShouldUmount call r uid =
        .value (uid ≠ 0 && call f uid)) ∨
    (yzHostRootFlags r &&& policyKernel = 0 ∧ yzHostRootFlags r &&& policyFallbackFlag ≠ 0 ∧
      (∀ c, r.cache = some c → c.owner = r.owner.value) ∧
      ∀ call uid, yzHostUidShouldUmount call r uid =
        if uid = 0 then .value false else .ofCache (Cache.yzPolicyCacheLookup r.cache uid)) ∨
    (yzHostRootFlags r &&& policyKernel = 0 ∧ yzHostRootFlags r &&& policyFallbackFlag = 0 ∧
      r.cache = none ∧ ∀ call uid, yzHostUidShouldUmount call r uid = .value false) :=
  answers_of_reach ((Lts.Reach.ofInit rfl).step (a := .detect kernelSu) trivial rfl)

end YukiZygisk.RootDetect
