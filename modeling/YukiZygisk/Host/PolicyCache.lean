/-
# The policy cache of the kernel (`kernel/host/root_impl.c`, `kernel/uapi/yukizygisk.h`)

When the kernel cannot ask the root solution itself, the daemon hands it a file: a header of 32
bytes and one entry of 8 bytes for each uid, in increasing order.  The kernel checks the file,
copies it into a cache and answers from there by binary search.

The file is modelled byte by byte: the daemon writes it with `PolicyCacheHeader.bytes` and
`PolicyCacheEntry.bytes`, the kernel reads it at the offsets of the two structures.

`kernel_enforces` is in three steps: what the daemon writes is read back field by field
(`ofBytes_entries`), a file whose uids increase and whose header counts them is accepted
(`install_ok`), and the search of the copied entries finds the entry of a uid if there is one
(`lookup_eq`, from `Lib/BinarySearch`).  In the other direction, `install_checked` takes any bytes:
whatever the kernel has accepted is well formed and in order, so the search is right on it, and a
file that it refuses leaves the cache as it was.
-/
import YukiZygisk.Lib.Bytes
import YukiZygisk.Lib.BinarySearch

namespace YukiZygisk.Cache

open Bytes

/-! ## 1. The file -/

/-- `YZ_POLICY_CACHE_MAGIC`. -/
def policyCacheMagic : UInt32 := 0x43505a59

/-- `YZ_POLICY_CACHE_VERSION`. -/
def policyCacheVersion : UInt16 := 1

/-- `YZ_POLICY_CACHE_MAX_ENTRIES`. -/
def policyCacheMaxEntries : Nat := 8192

/-- `YZ_POLICY_CACHE_F_COMPLETE`. -/
def policyCacheComplete : UInt16 := 1

/-- `YZ_POLICY_REFRESH_ALL`. -/
def policyRefreshAll : UInt32 := 0xffffffff

/-- `struct yz_policy_cache_header`. -/
structure PolicyCacheHeader where
  magic : UInt32
  version : UInt16
  headerSize : UInt16
  entrySize : UInt16
  flags : UInt16
  owner : UInt32
  generation : UInt32
  count : UInt32
  defaultShouldUmount : UInt32
  managerAppid : UInt32
  deriving DecidableEq

/-- `struct yz_policy_cache_entry`. -/
structure PolicyCacheEntry where
  uid : UInt32
  shouldUmount : UInt32
  deriving DecidableEq

/-- The sizes of the two structures. -/
def sizeofHeader : Nat := 32
def sizeofEntry : Nat := 8

/-- The header in memory. -/
def PolicyCacheHeader.bytes (h : PolicyCacheHeader) : List UInt8 :=
  toBytes 4 h.magic.toNat ++ (toBytes 2 h.version.toNat ++ (toBytes 2 h.headerSize.toNat ++
    (toBytes 2 h.entrySize.toNat ++ (toBytes 2 h.flags.toNat ++ (toBytes 4 h.owner.toNat ++
      (toBytes 4 h.generation.toNat ++ (toBytes 4 h.count.toNat ++
        (toBytes 4 h.defaultShouldUmount.toNat ++ toBytes 4 h.managerAppid.toNat))))))))

/-- The header that bytes are read as. -/
def PolicyCacheHeader.ofBytes (bytes : List UInt8) : PolicyCacheHeader where
  magic := UInt32.ofNat (readAt 0 4 bytes)
  version := UInt16.ofNat (readAt 4 2 bytes)
  headerSize := UInt16.ofNat (readAt 6 2 bytes)
  entrySize := UInt16.ofNat (readAt 8 2 bytes)
  flags := UInt16.ofNat (readAt 10 2 bytes)
  owner := UInt32.ofNat (readAt 12 4 bytes)
  generation := UInt32.ofNat (readAt 16 4 bytes)
  count := UInt32.ofNat (readAt 20 4 bytes)
  defaultShouldUmount := UInt32.ofNat (readAt 24 4 bytes)
  managerAppid := UInt32.ofNat (readAt 28 4 bytes)

/-- An entry in memory. -/
def PolicyCacheEntry.bytes (e : PolicyCacheEntry) : List UInt8 :=
  toBytes 4 e.uid.toNat ++ toBytes 4 e.shouldUmount.toNat

/-- Entry `i` of an array of entries. -/
def PolicyCacheEntry.ofBytes (bytes : List UInt8) (i : Nat) : PolicyCacheEntry where
  uid := UInt32.ofNat (readAt (sizeofEntry * i) 4 bytes)
  shouldUmount := UInt32.ofNat (readAt (sizeofEntry * i + 4) 4 bytes)

/-! ## 2. The kernel's side -/

/-- `struct yz_policy_cache`; `count` is the length of `entries`. -/
structure PolicyCache where
  owner : UInt32
  generation : UInt32
  managerAppid : UInt32
  complete : Bool
  defaultShouldUmount : Bool
  entries : List PolicyCacheEntry
  deriving DecidableEq

inductive InstallError
  | eopnotsupp | einval | enomem | estale
  deriving DecidableEq

/-- What an install finds in the kernel: `yz_root_policy_fallback` and `yz_root_owner` when it
starts and again when it publishes, and whether its allocation succeeds. -/
structure RootState where
  fallback : Bool
  owner : UInt32
  alloc : Bool
  fallbackThen : Bool
  ownerThen : UInt32
  deriving DecidableEq

/-- The loop over the entries; `previous` is the uid before them. -/
def entriesOk : Option UInt32 → List PolicyCacheEntry → Bool
  | _, [] => true
  | previous, e :: entries =>
    if e.shouldUmount > 1 ∨ previous.any (fun uid => decide (uid ≥ e.uid)) then false
    else entriesOk (some e.uid) entries

/-- `yz_host_install_policy_cache` on a file with these bytes. -/
def yzHostInstallPolicyCache (k : RootState) (file : List UInt8) :
    Except InstallError PolicyCache :=
  if !k.fallback then .error .eopnotsupp
  else if (file.take sizeofHeader).length ≠ sizeofHeader then .error .einval
  else
    let header := PolicyCacheHeader.ofBytes (file.take sizeofHeader)
    if header.magic ≠ policyCacheMagic ∨ header.version ≠ policyCacheVersion ∨
        header.headerSize.toNat ≠ sizeofHeader ∨ header.entrySize.toNat ≠ sizeofEntry ∨
        header.count.toNat > policyCacheMaxEntries ∨
        header.flags &&& ~~~policyCacheComplete ≠ 0 ∨ header.defaultShouldUmount > 1 ∨
        (header.managerAppid ≠ policyRefreshAll ∧ header.managerAppid ≥ 100000) ∨
        header.owner ≠ k.owner then .error .einval
    else
      let payloadSize := header.count.toNat * sizeofEntry
      if file.length ≠ sizeofHeader + payloadSize then .error .einval
      else if !k.alloc then .error .enomem
      else
        let payload := (file.drop sizeofHeader).take payloadSize
        if payload.length ≠ payloadSize then .error .einval
        else
          let entries := (List.range header.count.toNat).map (PolicyCacheEntry.ofBytes payload)
          if !entriesOk none entries then .error .einval
          else if !k.fallbackThen ∨ header.owner ≠ k.ownerThen then .error .estale
          else
            .ok
              { owner := header.owner
                generation := header.generation
                managerAppid := header.managerAppid
                complete := header.flags &&& policyCacheComplete ≠ 0
                defaultShouldUmount := header.defaultShouldUmount ≠ 0
                entries := entries }

/-- `yz_policy_cache_lookup`; `none` is `-EAGAIN`. -/
def yzPolicyCacheLookup (cache : Option PolicyCache) (uid : UInt32) : Option Bool :=
  match cache with
  | none => none
  | some cache =>
    if cache.managerAppid ≠ policyRefreshAll ∧ uid % 100000 = cache.managerAppid then some false
    else
      match BinarySearch.search (·.uid.toNat) cache.entries uid.toNat 0 cache.entries.length with
      | some entry => some (entry.shouldUmount ≠ 0)
      | none => if cache.complete then some cache.defaultShouldUmount else none

/-! ## 3. What was written is read -/

theorem PolicyCacheHeader.length_bytes (h : PolicyCacheHeader) : h.bytes.length = sizeofHeader := by
  simp only [bytes, List.length_append, length_toBytes]
  rfl

theorem PolicyCacheEntry.length_bytes (e : PolicyCacheEntry) : e.bytes.length = sizeofEntry := by
  simp only [bytes, List.length_append, length_toBytes]
  rfl

theorem toNat32_lt (x : UInt32) : x.toNat < 256 ^ 4 := x.toNat_lt

theorem toNat16_lt (x : UInt16) : x.toNat < 256 ^ 2 := x.toNat_lt

/-- **The header that is read is the one that was written.** -/
theorem PolicyCacheHeader.ofBytes_bytes (h : PolicyCacheHeader) : ofBytes h.bytes = h := by
  simp (disch := first | exact toNat32_lt _ | exact toNat16_lt _ | decide) only [ofBytes, bytes,
    readAt_next, readAt_here, readAt_last, Nat.reduceSub, UInt32.ofNat_toNat, UInt16.ofNat_toNat]

theorem PolicyCacheEntry.ofBytes_zero (e : PolicyCacheEntry) (l : List UInt8) :
    ofBytes (e.bytes ++ l) 0 = e := by
  simp (disch := first | exact toNat32_lt _ | decide) only [ofBytes, bytes, List.append_assoc,
    Nat.mul_zero, Nat.zero_add, readAt_next, readAt_here, Nat.reduceSub, UInt32.ofNat_toNat]

theorem PolicyCacheEntry.ofBytes_succ (e : PolicyCacheEntry) (l : List UInt8) (i : Nat) :
    ofBytes (e.bytes ++ l) (i + 1) = ofBytes l i := by
  have hlen := e.length_bytes
  have hskip : ∀ offset, readAt (sizeofEntry * (i + 1) + offset) 4 (e.bytes ++ l) =
      readAt (sizeofEntry * i + offset) 4 l := by
    intro offset
    have hle : e.bytes.length ≤ sizeofEntry * (i + 1) + offset := by
      rw [hlen, Nat.mul_succ]
      omega
    have hback : sizeofEntry * (i + 1) + offset - sizeofEntry = sizeofEntry * i + offset := by
      rw [Nat.mul_succ]
      omega
    rw [readAt_skip hle, hlen, hback]
  have hfirst : readAt (sizeofEntry * (i + 1)) 4 (e.bytes ++ l) = readAt (sizeofEntry * i) 4 l :=
    hskip 0
  simp only [ofBytes, hskip 4, hfirst]

/-- **The entries that are read are those that were written.** -/
theorem ofBytes_entries (entries : List PolicyCacheEntry) :
    (List.range entries.length).map (PolicyCacheEntry.ofBytes (entries.flatMap (·.bytes))) =
      entries := by
  induction entries with
  | nil => rfl
  | cons e entries ih =>
    rw [List.length_cons, List.range_succ_eq_map, List.map_cons, List.map_map, List.flatMap_cons,
      PolicyCacheEntry.ofBytes_zero]
    refine congrArg (e :: ·) ?_
    calc (List.range entries.length).map
          (PolicyCacheEntry.ofBytes (e.bytes ++ entries.flatMap (·.bytes)) ∘ Nat.succ)
        = (List.range entries.length).map
            (PolicyCacheEntry.ofBytes (entries.flatMap (·.bytes))) :=
          List.map_congr_left fun i _ => e.ofBytes_succ _ i
      _ = entries := ih

theorem length_entries (entries : List PolicyCacheEntry) :
    (entries.flatMap (·.bytes)).length = entries.length * sizeofEntry := by
  induction entries with
  | nil => rfl
  | cons e entries ih =>
    rw [List.flatMap_cons, List.length_append, e.length_bytes, ih, List.length_cons, Nat.succ_mul,
      Nat.add_comm]

/-! ## 4. What is accepted, and what it answers -/

/-- Entries with increasing uids and 0 or 1 for an answer. -/
structure Ordered (entries : List PolicyCacheEntry) : Prop where
  sorted : entries.Pairwise fun e f => e.uid < f.uid
  bool : ∀ e ∈ entries, e.shouldUmount ≤ 1

/-- Increasing uids pass the check. -/
theorem entriesOk_of_ordered {entries : List PolicyCacheEntry} (h : Ordered entries) :
    ∀ {previous : Option UInt32}, (∀ uid, previous = some uid → ∀ e ∈ entries, uid < e.uid) →
      entriesOk previous entries = true := by
  induction entries with
  | nil => exact fun _ => rfl
  | cons e entries ih =>
    intro previous hprevious
    obtain ⟨hsorted, hbool⟩ := h
    obtain ⟨hfirst, hrest⟩ := List.pairwise_cons.mp hsorted
    have hok : ¬ (e.shouldUmount > 1 ∨
        previous.any (fun uid => decide (uid ≥ e.uid)) = true) := by
      rintro (hbig | hany)
      · exact absurd (hbool e (List.mem_cons_self ..)) (UInt32.not_le.mpr hbig)
      · obtain ⟨uid, huid, hge⟩ := (Option.any_eq_true _ _).mp hany
        exact absurd (hprevious uid huid e (List.mem_cons_self ..))
          (UInt32.not_lt.mpr (of_decide_eq_true hge))
    rw [entriesOk, if_neg hok]
    refine ih ⟨hrest, fun f hf => hbool f (List.mem_cons_of_mem _ hf)⟩ fun uid huid f hf => ?_
    obtain rfl := Option.some.inj huid
    exact hfirst f hf

/-- A header that the kernel takes for a file with this many entries. -/
structure Acceptable (h : PolicyCacheHeader) (n : Nat) : Prop where
  magic : h.magic = policyCacheMagic
  version : h.version = policyCacheVersion
  headerSize : h.headerSize.toNat = sizeofHeader
  entrySize : h.entrySize.toNat = sizeofEntry
  count : h.count.toNat = n
  few : n ≤ policyCacheMaxEntries
  flags : h.flags &&& ~~~policyCacheComplete = 0
  bool : h.defaultShouldUmount ≤ 1
  manager : h.managerAppid = policyRefreshAll ∨ h.managerAppid < 100000

/-- The kernel is in fallback, has this owner, and has memory. -/
structure RootState.Ready (k : RootState) (o : UInt32) : Prop where
  fallback : k.fallback = true
  owner : k.owner = o
  alloc : k.alloc = true
  fallbackThen : k.fallbackThen = true
  ownerThen : k.ownerThen = o

/-- **An acceptable file is installed as it is.** -/
theorem install_ok {k : RootState} {h : PolicyCacheHeader} {entries : List PolicyCacheEntry}
    (hk : k.Ready h.owner) (hh : Acceptable h entries.length) (hentries : Ordered entries) :
    yzHostInstallPolicyCache k (h.bytes ++ entries.flatMap (·.bytes)) =
      .ok
        { owner := h.owner
          generation := h.generation
          managerAppid := h.managerAppid
          complete := h.flags &&& policyCacheComplete ≠ 0
          defaultShouldUmount := h.defaultShouldUmount ≠ 0
          entries := entries } := by
  have hlen := h.length_bytes
  have htake : (h.bytes ++ entries.flatMap (·.bytes)).take sizeofHeader = h.bytes := by
    rw [← hlen, List.take_left]
  have hdrop : (h.bytes ++ entries.flatMap (·.bytes)).drop sizeofHeader =
      entries.flatMap (·.bytes) := by
    rw [← hlen, List.drop_left]
  have hpayload : (entries.flatMap (·.bytes)).take (h.count.toNat * sizeofEntry) =
      entries.flatMap (·.bytes) := by
    rw [hh.count, ← length_entries, List.take_length]
  have hok : entriesOk none entries = true := entriesOk_of_ordered hentries nofun
  have hvalid : ¬ (h.magic ≠ policyCacheMagic ∨ h.version ≠ policyCacheVersion ∨
      h.headerSize.toNat ≠ sizeofHeader ∨ h.entrySize.toNat ≠ sizeofEntry ∨
      h.count.toNat > policyCacheMaxEntries ∨ h.flags &&& ~~~policyCacheComplete ≠ 0 ∨
      h.defaultShouldUmount > 1 ∨
      (h.managerAppid ≠ policyRefreshAll ∧ h.managerAppid ≥ 100000) ∨ h.owner ≠ k.owner) := by
    have hfew := hh.few
    rw [← hh.count] at hfew
    have hbool := UInt32.not_lt.mpr hh.bool
    have hmanager : ¬ (h.managerAppid ≠ policyRefreshAll ∧ h.managerAppid ≥ 100000) := by
      rintro ⟨hne, hge⟩
      rcases hh.manager with heq | hlt
      · exact hne heq
      · exact absurd hlt (UInt32.not_lt.mpr hge)
    rintro (h1 | h1 | h1 | h1 | h1 | h1 | h1 | h1 | h1)
    · exact h1 hh.magic
    · exact h1 hh.version
    · exact h1 hh.headerSize
    · exact h1 hh.entrySize
    · exact absurd hfew (Nat.not_le.mpr h1)
    · exact h1 hh.flags
    · exact hbool h1
    · exact hmanager h1
    · exact h1 hk.owner.symm
  have hsize : (h.bytes ++ entries.flatMap (·.bytes)).length =
      sizeofHeader + h.count.toNat * sizeofEntry := by
    rw [List.length_append, hlen, length_entries, hh.count]
  have hstale : ¬ ((!k.fallbackThen) = true ∨ h.owner ≠ k.ownerThen) := by
    rw [hk.fallbackThen, hk.ownerThen]
    simp
  have hfallback : ¬ (!k.fallback) = true := by simp [hk.fallback]
  have halloc : ¬ (!k.alloc) = true := by simp [hk.alloc]
  have hbad : ¬ (!entriesOk none entries) = true := by simp [hok]
  have hread : (entries.flatMap (·.bytes)).length = h.count.toNat * sizeofEntry := by
    rw [length_entries, hh.count]
  simp only [yzHostInstallPolicyCache, htake, hdrop, hpayload, PolicyCacheHeader.ofBytes_bytes]
  rw [if_neg hfallback, if_neg (not_not.mpr hlen), if_neg hvalid, if_neg (not_not.mpr hsize),
    if_neg halloc, if_neg (not_not.mpr hread), hh.count, ofBytes_entries, if_neg hbad,
    if_neg hstale]

/-- A file is installed only if the kernel is ready for it. -/
theorem ready_of_install {k : RootState} {h : PolicyCacheHeader} {rest : List UInt8}
    {c : PolicyCache} (hc : yzHostInstallPolicyCache k (h.bytes ++ rest) = .ok c) :
    k.Ready h.owner := by
  have htake : (h.bytes ++ rest).take sizeofHeader = h.bytes := by
    rw [← h.length_bytes, List.take_left]
  simp only [yzHostInstallPolicyCache, htake, PolicyCacheHeader.ofBytes_bytes] at hc
  split_ifs at hc with hfallback hlen hvalid hsize halloc hpayload hbad hstale
  simp only [not_or, not_not] at hvalid hstale
  exact
    { fallback := by simpa using hfallback
      owner := hvalid.2.2.2.2.2.2.2.2.symm
      alloc := by simpa using halloc
      fallbackThen := by simpa using hstale.1
      ownerThen := hstale.2.symm }

/-- **What a cache with increasing uids answers.** -/
theorem lookup_eq {cache : PolicyCache} (h : Ordered cache.entries) (uid : UInt32) :
    yzPolicyCacheLookup (some cache) uid =
      if cache.managerAppid ≠ policyRefreshAll ∧ uid % 100000 = cache.managerAppid then some false
      else
        match cache.entries.find? (·.uid = uid) with
        | some entry => some (entry.shouldUmount ≠ 0)
        | none => if cache.complete then some cache.defaultShouldUmount else none := by
  have hsorted : cache.entries.Pairwise fun e f => e.uid.toNat < f.uid.toNat :=
    h.sorted.imp fun hlt => UInt32.lt_iff_toNat_lt.mp hlt
  have hsearch : BinarySearch.search (·.uid.toNat) cache.entries uid.toNat 0
      cache.entries.length = cache.entries.find? (·.uid = uid) := by
    cases hfind : cache.entries.find? (·.uid = uid) with
    | some entry =>
      have huid : entry.uid = uid := by simpa using List.find?_some hfind
      exact (BinarySearch.search_eq_some hsorted).mpr
        ⟨List.mem_of_find?_eq_some hfind, congrArg UInt32.toNat huid⟩
    | none =>
      by_contra hne
      obtain ⟨entry, hentry⟩ := Option.ne_none_iff_exists'.mp hne
      obtain ⟨hmem, huid⟩ := (BinarySearch.search_eq_some hsorted).mp hentry
      have := List.find?_eq_none.mp hfind entry hmem
      simp only [decide_eq_true_eq] at this
      exact this (UInt32.toNat_inj.mp huid)
  simp only [yzPolicyCacheLookup, hsearch]

/-! ## 5. Every file -/

/-- The answer by a search through all entries. -/
def linearLookup (cache : PolicyCache) (uid : UInt32) : Option Bool :=
  if cache.managerAppid ≠ policyRefreshAll ∧ uid % 100000 = cache.managerAppid then some false
  else
    match cache.entries.find? (·.uid = uid) with
    | some entry => some (entry.shouldUmount ≠ 0)
    | none => if cache.complete then some cache.defaultShouldUmount else none

/-- `yz_policy_cache` after an install: the pointer is assigned at the end, when nothing has
failed. -/
def cacheAfter (k : RootState) (cache : Option PolicyCache) (file : List UInt8) :
    Option PolicyCache :=
  match yzHostInstallPolicyCache k file with
  | .ok new => some new
  | .error _ => cache

/-- The check passes increasing uids only. -/
theorem ordered_of_entriesOk {previous : Option UInt32} {entries : List PolicyCacheEntry}
    (h : entriesOk previous entries = true) :
    Ordered entries ∧ ∀ uid, previous = some uid → ∀ e ∈ entries, uid < e.uid := by
  induction entries generalizing previous with
  | nil => exact ⟨⟨.nil, fun e he => absurd he List.not_mem_nil⟩, fun _ _ e he =>
      absurd he List.not_mem_nil⟩
  | cons e entries ih =>
    rw [entriesOk] at h
    split_ifs at h with hbad
    rw [not_or] at hbad
    obtain ⟨hbool, hprevious⟩ := hbad
    obtain ⟨hrest, hfirst⟩ := ih h
    have hlt : ∀ f ∈ entries, e.uid < f.uid := hfirst e.uid rfl
    constructor
    · refine ⟨List.pairwise_cons.mpr ⟨hlt, hrest.sorted⟩, ?_⟩
      intro f hf
      rcases List.mem_cons.mp hf with rfl | hf
      · exact UInt32.not_lt.mp hbool
      · exact hrest.bool f hf
    · intro uid huid f hf
      have hpe : uid < e.uid := by
        by_contra hge
        refine hprevious ((Option.any_eq_true _ _).mpr ⟨uid, huid, ?_⟩)
        exact decide_eq_true (UInt32.not_lt.mp hge)
      rcases List.mem_cons.mp hf with rfl | hf
      · exact hpe
      · exact UInt32.lt_trans hpe (hlt f hf)

/-- What an install that succeeds has checked. -/
theorem checked_of_install {k : RootState} {file : List UInt8} {c : PolicyCache}
    (h : yzHostInstallPolicyCache k file = .ok c) :
    Ordered c.entries ∧ c.entries.length ≤ policyCacheMaxEntries ∧
      file.length = sizeofHeader + c.entries.length * sizeofEntry := by
  rw [yzHostInstallPolicyCache] at h
  dsimp only at h
  split_ifs at h with hfallback hlen hvalid hsize halloc hpayload hbad hstale
  obtain rfl := Except.ok.inj h
  simp only [not_or, not_not] at hvalid hsize
  have hok : entriesOk none ((List.range
      (PolicyCacheHeader.ofBytes (file.take sizeofHeader)).count.toNat).map (PolicyCacheEntry.ofBytes
        ((file.drop sizeofHeader).take
          ((PolicyCacheHeader.ofBytes (file.take sizeofHeader)).count.toNat * sizeofEntry)))) =
      true := by
    simpa using hbad
  refine ⟨(ordered_of_entriesOk hok).1, ?_, ?_⟩
  · rw [List.length_map, List.length_range]
    exact Nat.not_lt.mp hvalid.2.2.2.2.1
  · rw [List.length_map, List.length_range]
    exact hsize

/-- **Every file is rejected or checked.**  A file that is rejected leaves the answers of the cache
before it.  One that is accepted has increasing uids and is within the limit, so the binary search
answers what a search through all its entries answers. -/
theorem install_checked (k : RootState) (cache : Option PolicyCache) (file : List UInt8) :
    match yzHostInstallPolicyCache k file with
    | .error _ => ∀ uid, yzPolicyCacheLookup (cacheAfter k cache file) uid =
        yzPolicyCacheLookup cache uid
    | .ok new => cacheAfter k cache file = some new ∧
        new.entries.Pairwise (fun e f => e.uid < f.uid) ∧
        new.entries.length ≤ policyCacheMaxEntries ∧
        file.length = sizeofHeader + new.entries.length * sizeofEntry ∧
        ∀ uid, yzPolicyCacheLookup (cacheAfter k cache file) uid = linearLookup new uid := by
  cases h : yzHostInstallPolicyCache k file with
  | error e =>
    intro uid
    rw [cacheAfter, h]
  | ok new =>
    obtain ⟨hordered, hfew, hlen⟩ := checked_of_install h
    have hafter : cacheAfter k cache file = some new := by rw [cacheAfter, h]
    refine ⟨hafter, hordered.sorted, hfew, hlen, ?_⟩
    intro uid
    rw [hafter, linearLookup]
    exact lookup_eq hordered uid

end YukiZygisk.Cache
