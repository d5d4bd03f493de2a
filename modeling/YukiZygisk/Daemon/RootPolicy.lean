/-
# The root policy of the daemon (`userspace/zygisk/daemon/root_policy.cpp`)

The daemon keeps a map from uids to decisions and writes it to the kernel as a policy cache.
Under KernelSU it asks KernelSU for each uid it is asked about, adds the answer to the map and
writes the cache again.  Under KernelPatch it reads the map from a configuration file.

What a written cache makes the kernel answer is `kernel_enforces`.  From there the two may come
apart in two ways.

* A write that fails is ignored by a query, and one fails as soon as the map has more than 8192
  uids: then the kernel answers from an older cache, `not_answersAlike`.
* A refresh replaces the map before it writes the cache.  When the write fails the map is the new
  one and the stamp still that of the refresh before; if the file has that stamp, the next refresh
  finds nothing to do and says that it succeeded, `skipped_apart`.

As long as every query's map fits and no refresh is skipped after a failed one, both answer alike:
`answersAlike_of_fits`.

The run has the daemon and the kernel's cache side by side.  What a call does to both is one lemma
for each (`settled_refresh`, `enforced_of_refresh`, `query_eq`, `reply_ksu` and so on), of which the
common part is that writing a cache either leaves the kernel with the map as it is now, or fails and
leaves the older one (`enforced_push`).  The invariant (`Kept`) says that the answer just given is
the kernel's, and under KernelPatch that the kernel answers from the map when the last refresh that
read the file succeeded; the two guards are where a write may fail with nobody taking notice.  The
first counterexample needs a map of 8192 uids, so its run is not executed but built by induction:
`Grown m` is a state in which all uids are below the next one to be asked for, and each query adds
one (`Grown.grow`) until the map is full (`Grown.fill`).
-/
import YukiZygisk.Lib.Lts
import YukiZygisk.Host.PolicyCache

namespace YukiZygisk.RootPolicy

open Cache

/-! ## 1. Writing the cache -/

/-- `enum yz_root_owner_uapi`. -/
def ownerKernelSu : UInt32 := 1
def ownerKernelPatch : UInt32 := 2

/-- `kKsuDefaultProfileUid` and `kKsuWebViewZygoteUid`. -/
def ksuDefaultProfileUid : UInt32 := 9999
def ksuWebViewZygoteUid : UInt32 := 1053

/-- `SourceStamp` of a file that could be read. -/
structure SourceStamp where
  dev : Nat
  ino : Nat
  size : Int
  sec : Int
  nsec : Int
  deriving DecidableEq

/-- `Context`; an invalid stamp is `none`. -/
structure Context where
  enabled : Bool
  owner : UInt32
  managerAppid : UInt32
  generation : UInt32
  controlFd : Int
  complete : Bool
  defaultShouldUmount : Bool
  decisions : Std.TreeMap UInt32 Bool
  stamp : Option SourceStamp

/-- What one `push_cache` finds outside the daemon: whether it gets its file, whether the writes
and the seals succeed, and the kernel. -/
structure PushEnv where
  memfd : Bool
  writes : Bool
  root : RootState

namespace Context

/-- The daemon when `setup` makes its first refresh. -/
def setup (owner : UInt32) (controlFd : Int) : Context :=
  ⟨true, owner, policyRefreshAll, 0, controlFd, false, false, ∅, none⟩

variable (g : Context)

/-- The header `push_cache` writes. -/
def header : PolicyCacheHeader where
  magic := policyCacheMagic
  version := policyCacheVersion
  headerSize := UInt16.ofNat sizeofHeader
  entrySize := UInt16.ofNat sizeofEntry
  flags := if g.complete then policyCacheComplete else 0
  owner := g.owner
  generation := g.generation + 1
  count := UInt32.ofNat g.decisions.size
  defaultShouldUmount := if g.defaultShouldUmount then 1 else 0
  managerAppid := g.managerAppid

/-- The entries it writes, in the order of the map. -/
def entries : List PolicyCacheEntry :=
  g.decisions.toList.map fun d => ⟨d.1, if d.2 then 1 else 0⟩

/-- The file it hands over. -/
def cacheFile : List UInt8 := g.header.bytes ++ g.entries.flatMap (·.bytes)

/-- `push_cache`, with the kernel's cache after it. -/
def pushCache (cache : Option PolicyCache) (e : PushEnv) :
    Context × Option PolicyCache × Bool :=
  if g.controlFd < 0 ∨ g.decisions.size > policyCacheMaxEntries then (g, cache, false)
  else if !e.memfd then (g, cache, false)
  else
    let g' := { g with generation := g.generation + 1 }
    if !e.writes then (g', cache, false)
    else
      match yzHostInstallPolicyCache e.root g.cacheFile with
      | .error _ => (g', cache, false)
      | .ok cache' => (g', some cache', true)

/-- **What the cache stands for**: the manager keeps its mounts, a mapped uid has its decision,
and another uid has the default if the map is complete. -/
def enforced (uid : UInt32) : Option Bool :=
  if g.managerAppid ≠ policyRefreshAll ∧ uid % 100000 = g.managerAppid then some false
  else
    match g.decisions[uid]? with
    | some decision => some decision
    | none => if g.complete then some g.defaultShouldUmount else none

/-- An appid, or the value that matches no uid. -/
def ManagerOk : Prop := g.managerAppid = policyRefreshAll ∨ g.managerAppid < 100000

variable {g} {cache : Option PolicyCache} {e : PushEnv} {k : RootState}

theorem ordered_entries (g : Context) : Ordered g.entries := by
  constructor
  · rw [entries, List.pairwise_map]
    exact Std.TreeMap.ordered_keys_toList.imp fun h => Std.compare_eq_lt.mp h
  · intro entry hentry
    obtain ⟨d, -, rfl⟩ := List.mem_map.mp hentry
    cases hd : d.2 with
    | false => exact UInt32.le_iff_toNat_le.mpr (Nat.zero_le _)
    | true => exact UInt32.le_refl _

theorem length_entries (g : Context) : g.entries.length = g.decisions.size := by
  rw [entries, List.length_map, Std.TreeMap.length_toList]

theorem acceptable_header (hsize : g.decisions.size ≤ policyCacheMaxEntries)
    (hmanager : g.ManagerOk) : Acceptable g.header g.entries.length where
  magic := rfl
  version := rfl
  headerSize := rfl
  entrySize := rfl
  count := by
    rw [length_entries]
    refine UInt32.toNat_ofNat_of_lt' (Nat.lt_of_le_of_lt hsize ?_)
    decide
  few := by rwa [length_entries]
  flags := by
    simp only [header]
    split_ifs <;> decide
  bool := by
    simp only [header]
    split_ifs <;> decide
  manager := hmanager

/-- A uid is looked up in the entries as in the map. -/
theorem find_entries (g : Context) (uid : UInt32) :
    g.entries.find? (·.uid = uid) =
      g.decisions[uid]?.map fun decision => ⟨uid, if decision then 1 else 0⟩ := by
  have hmem : ∀ entry, entry ∈ g.entries ∧ entry.uid = uid ↔
      ∃ decision, g.decisions[uid]? = some decision ∧
        entry = ⟨uid, if decision then 1 else 0⟩ := by
    intro entry
    constructor
    · rintro ⟨hentry, rfl⟩
      obtain ⟨⟨u, decision⟩, hd, rfl⟩ := List.mem_map.mp hentry
      exact ⟨decision, Std.TreeMap.mem_toList_iff_getElem?_eq_some.mp hd, rfl⟩
    · rintro ⟨decision, hd, rfl⟩
      exact ⟨List.mem_map.mpr ⟨(uid, decision), Std.TreeMap.mem_toList_iff_getElem?_eq_some.mpr hd,
        rfl⟩, rfl⟩
  cases hfind : g.entries.find? (·.uid = uid) with
  | some entry =>
    have huid : entry.uid = uid := by simpa using List.find?_some hfind
    obtain ⟨decision, hd, rfl⟩ := (hmem entry).mp ⟨List.mem_of_find?_eq_some hfind, huid⟩
    rw [hd]
    rfl
  | none =>
    cases hd : g.decisions[uid]? with
    | none => rfl
    | some decision =>
      obtain ⟨hentry, -⟩ := (hmem ⟨uid, if decision then 1 else 0⟩).mpr ⟨decision, hd, rfl⟩
      exact absurd (decide_eq_true rfl) (List.find?_eq_none.mp hfind _ hentry)

/-- A cache made from the file answers what the daemon means. -/
theorem lookup_of_file {c : PolicyCache} (hmanager : c.managerAppid = g.managerAppid)
    (hcomplete : c.complete = g.complete) (hdefault : c.defaultShouldUmount = g.defaultShouldUmount)
    (hentries : c.entries = g.entries) (uid : UInt32) :
    yzPolicyCacheLookup (some c) uid = g.enforced uid := by
  have hord : Ordered c.entries := hentries ▸ g.ordered_entries
  rw [lookup_eq hord, enforced, hmanager, hcomplete, hdefault, hentries, find_entries]
  cases g.decisions[uid]? with
  | none => rfl
  | some decision => cases decision <;> rfl

/-- **The file is accepted and means what the daemon means.** -/
theorem enforced_of_install (hk : k.Ready g.owner)
    (hsize : g.decisions.size ≤ policyCacheMaxEntries) (hmanager : g.ManagerOk) :
    ∃ c, yzHostInstallPolicyCache k g.cacheFile = .ok c ∧
      ∀ uid, yzPolicyCacheLookup (some c) uid = g.enforced uid := by
  refine ⟨_, install_ok (h := g.header) hk (acceptable_header hsize hmanager) g.ordered_entries,
    lookup_of_file rfl ?_ ?_ rfl⟩
  · by_cases hcomplete : g.complete = true
    · simp only [header, hcomplete, if_true]
      decide
    · simp only [header, Bool.not_eq_true _ ▸ hcomplete, Bool.false_eq_true, if_false]
      decide
  · by_cases hdefault : g.defaultShouldUmount = true
    · simp only [header, hdefault, if_true]
      decide
    · simp only [header, Bool.not_eq_true _ ▸ hdefault, Bool.false_eq_true, if_false]
      decide

/-- A push that succeeds makes the kernel answer what the daemon means. -/
theorem enforced_of_push (hmanager : g.ManagerOk) (hok : (g.pushCache cache e).2.2 = true) :
    ∃ c, (g.pushCache cache e).2.1 = some c ∧
      ∀ uid, yzPolicyCacheLookup (some c) uid = g.enforced uid := by
  unfold pushCache at hok ⊢
  split_ifs at hok ⊢ with hbad hmem hwrites
  rw [not_or] at hbad
  cases hinstall : yzHostInstallPolicyCache e.root g.cacheFile with
  | error err =>
    simp only [hinstall] at hok
    cases hok
  | ok c =>
    have hsize := Nat.le_of_not_lt hbad.2
    have hready := ready_of_install (h := g.header) hinstall
    obtain ⟨c', hc', hlookup⟩ := enforced_of_install hready hsize hmanager
    obtain rfl := Except.ok.inj (hinstall.symm.trans hc')
    exact ⟨c, rfl, hlookup⟩

/-- When nothing is in the way, a push succeeds. -/
theorem push_ok (hmanager : g.ManagerOk) (hfd : ¬ g.controlFd < 0)
    (hsize : g.decisions.size ≤ policyCacheMaxEntries) (hmemfd : e.memfd = true)
    (hwrites : e.writes = true) (hk : e.root.Ready g.owner) :
    (g.pushCache cache e).2.2 = true := by
  obtain ⟨c, hc, -⟩ := enforced_of_install hk hsize hmanager
  have hbad : ¬ (g.controlFd < 0 ∨ g.decisions.size > policyCacheMaxEntries) := by
    rw [not_or]
    exact ⟨hfd, Nat.not_lt.mpr hsize⟩
  simp only [pushCache, if_neg hbad, hmemfd, hwrites, hc, Bool.not_true, Bool.false_eq_true,
    if_false]

/-- A push changes nothing of the daemon but its generation. -/
theorem push_context (g : Context) (cache : Option PolicyCache) (e : PushEnv) :
    ∃ n, (g.pushCache cache e).1 = { g with generation := n } := by
  unfold pushCache
  split_ifs
  · exact ⟨g.generation, rfl⟩
  · exact ⟨g.generation, rfl⟩
  · exact ⟨g.generation + 1, rfl⟩
  · cases yzHostInstallPolicyCache e.root g.cacheFile <;> exact ⟨g.generation + 1, rfl⟩

end Context

/-- **The kernel enforces what the daemon wrote.**  When the kernel is ready for a cache of this
owner it accepts the file, and then answers that the manager keeps its mounts, a mapped uid has
its decision, another uid has the default if the map is complete, and else that it does not
know. -/
theorem kernel_enforces (g : Context) (k : RootState) (hk : k.Ready g.owner)
    (hsize : g.decisions.size ≤ policyCacheMaxEntries)
    (hmanager : g.managerAppid = policyRefreshAll ∨ g.managerAppid < 100000) :
    ∃ c, yzHostInstallPolicyCache k g.cacheFile = .ok c ∧ ∀ uid,
      (g.managerAppid ≠ policyRefreshAll ∧ uid % 100000 = g.managerAppid →
        yzPolicyCacheLookup (some c) uid = some false) ∧
      (¬ (g.managerAppid ≠ policyRefreshAll ∧ uid % 100000 = g.managerAppid) →
        (∀ d, g.decisions[uid]? = some d → yzPolicyCacheLookup (some c) uid = some d) ∧
        (g.decisions[uid]? = none → yzPolicyCacheLookup (some c) uid =
          if g.complete then some g.defaultShouldUmount else none)) := by
  obtain ⟨c, hc, hlookup⟩ := Context.enforced_of_install hk hsize hmanager
  refine ⟨c, hc, fun uid => ⟨fun hm => ?_, fun hm => ⟨fun d hd => ?_, fun hd => ?_⟩⟩⟩
  · rw [hlookup, Context.enforced, if_pos hm]
  · rw [hlookup, Context.enforced, if_neg hm, hd]
  · rw [hlookup, Context.enforced, if_neg hm, hd]

/-- A complete map with one uid, and a manager. -/
def sampleContext : Context :=
  { Context.setup ownerKernelSu 3 with
    managerAppid := 10050, complete := true
    decisions := (∅ : Std.TreeMap UInt32 Bool).insert 10001 true }

theorem kernel_enforces_sample :
    ∃ c, yzHostInstallPolicyCache ⟨true, ownerKernelSu, true, true, ownerKernelSu⟩
        sampleContext.cacheFile = .ok c ∧
      yzPolicyCacheLookup (some c) 10001 = some true ∧
      yzPolicyCacheLookup (some c) 110050 = some false ∧
      yzPolicyCacheLookup (some c) 10002 = some false := by
  obtain ⟨c, hc, h⟩ := kernel_enforces sampleContext
    ⟨true, ownerKernelSu, true, true, ownerKernelSu⟩ ⟨rfl, rfl, rfl, rfl, rfl⟩
    (by decide +kernel) (.inr (by decide))
  refine ⟨c, hc, ((h 10001).2 (by decide)).1 true (by decide +kernel), (h 110050).1 (by decide), ?_⟩
  exact ((h 10002).2 (by decide)).2 (by decide +kernel)

/-! ## 2. Refreshing the map, and asking it -/

/-- What a refresh finds outside the daemon.  `source` is the stamp of the policy file,
`ksuRecords` the uids of the records of the KernelSU allowlist (`none` is a file that is not
one, or a record that is not one), `ksuQuery` and `ksuManager` what KernelSU answers, and
`apatchRows` the exclude and uid fields of the lines of the KernelPatch configuration. -/
structure SourceEnv where
  source : Option SourceStamp
  ksuReady : Bool
  ksuRecords : Option (List (Option UInt32))
  ksuQuery : UInt32 → Option Bool
  ksuManager : Option UInt32
  apatchRows : Option (List (Option (UInt32 × UInt32)))

/-- The loop of `parse_ksu_uids`: it stops at the first bad record. -/
def parseKsuUids : List (Option UInt32) → Std.TreeSet UInt32 → Std.TreeSet UInt32 × Bool
  | [], uids => (uids, true)
  | none :: _, uids => (uids, false)
  | some uid :: records, uids => parseKsuUids records (uids.insert uid)

/-- The loop of `parse_apatch`: it skips bad lines, and stops after too many good ones. -/
def parseApatch : List (Option (UInt32 × UInt32)) → Nat → Bool → Std.TreeMap UInt32 Bool →
    Std.TreeMap UInt32 Bool × Bool
  | [], _, valid, decisions => (decisions, valid)
  | none :: rows, count, _, decisions => parseApatch rows count false decisions
  | some (exclude, uid) :: rows, count, valid, decisions =>
    let decisions' := decisions.insert uid (decisions.getD uid false || exclude ≠ 0)
    if count + 1 > policyCacheMaxEntries then (decisions', false)
    else parseApatch rows (count + 1) valid decisions'

/-- The loop of `refresh_ksu` over the uids: the map, and whether KernelSU answered them all. -/
def queryUids (query : UInt32 → Option Bool) :
    List UInt32 → Std.TreeMap UInt32 Bool → Bool → Std.TreeMap UInt32 Bool × Bool
  | [], next, all => (next, all)
  | uid :: uids, next, all =>
    match query uid with
    | none => queryUids query uids next false
    | some decision => queryUids query uids (next.insert uid decision) all

namespace Context

variable (g : Context)

/-- `refresh_ksu` up to its push; nothing if KernelSU cannot be asked. -/
def loadKsu (env : SourceEnv) : Option Context :=
  if !env.ksuReady then none
  else
    let (uids, parsed) :=
      match env.ksuRecords with
      | none => (∅, false)
      | some records => parseKsuUids records ∅
    let uids := (uids.insert ksuDefaultProfileUid).insert ksuWebViewZygoteUid
    let (next, all) := queryUids env.ksuQuery uids.toList ∅ true
    some
      { g with
        decisions := next
        managerAppid := env.ksuManager.elim policyRefreshAll (· % 100000)
        defaultShouldUmount := next.getD ksuDefaultProfileUid false
        complete := parsed && all && env.ksuManager.isSome && next.contains ksuDefaultProfileUid }

/-- `refresh_apatch` up to its push. -/
def loadApatch (env : SourceEnv) : Context :=
  let (next, parsed) :=
    match env.apatchRows with
    | none => (∅, false)
    | some rows => parseApatch rows 0 true ∅
  { g with
    decisions := next
    managerAppid := policyRefreshAll
    defaultShouldUmount := false
    complete := parsed }

/-- The map from its source again. -/
def load (env : SourceEnv) : Option Context :=
  if g.owner = ownerKernelSu then g.loadKsu env
  else if g.owner = ownerKernelPatch then some (g.loadApatch env)
  else none

/-- Whether `refresh` reads the source. -/
def stale (force : Bool) (env : SourceEnv) : Bool :=
  g.enabled && (force || !(env.source.isSome && decide (env.source = g.stamp)))

/-- `refresh`. -/
def refresh (cache : Option PolicyCache) (force : Bool) (env : SourceEnv) (e : PushEnv) :
    Context × Option PolicyCache × Bool :=
  if g.stale force env then
    match g.load env with
    | none => (g, cache, false)
    | some g' =>
      match g'.pushCache cache e with
      | (g', cache', ok) =>
        (if ok && env.source.isSome then { g' with stamp := env.source } else g', cache', ok)
  else (g, cache, true)

/-- What `query_uid` answers under KernelPatch. -/
def ask (uid : UInt32) : Option Bool :=
  match g.decisions[uid]? with
  | some decision => some decision
  | none => if g.complete then some g.defaultShouldUmount else none

/-- `g.decisions[uid] = decision`. -/
def decided (uid : UInt32) (decision : Bool) : Context :=
  { g with decisions := g.decisions.insert uid decision }

/-- The end of `query_uid`, after its refresh.  `answer` is what KernelSU says. -/
def answerUid (cache : Option PolicyCache) (uid : UInt32) (answer : Option Bool) (e : PushEnv) :
    Context × Option PolicyCache × Option Bool :=
  if g.owner = ownerKernelSu then
    match answer with
    | none => (g, cache, none)
    | some decision =>
      match (g.decided uid decision).pushCache cache e with
      | (g', cache', _) => (g', cache', some decision)
  else if g.owner = ownerKernelPatch then (g, cache, g.ask uid)
  else (g, cache, none)

/-- `query_uid`. -/
def queryUid (cache : Option PolicyCache) (uid : UInt32) (env : SourceEnv) (e : PushEnv)
    (answer : Option Bool) (e' : PushEnv) : Context × Option PolicyCache × Option Bool :=
  if !g.enabled then (g, cache, none)
  else
    match g.refresh cache false env e with
    | (g', cache', _) => g'.answerUid cache' uid answer e'

end Context

/-! ## 3. Runs -/

/-- The daemon and the kernel's cache.  The last three are ghosts: whether the last refresh that
read its source succeeded, what the last refresh returned (that of a query too), and the uid and
decision of a query that just returned one. -/
structure PolicyRun where
  daemon : Context
  cache : Option PolicyCache
  synced : Bool
  refreshed : Bool
  asked : Option (UInt32 × Bool)

inductive PolicyAct
  | refresh (force : Bool) (env : SourceEnv) (e : PushEnv)
  | query (uid : UInt32) (env : SourceEnv) (e : PushEnv) (answer : Option Bool) (e' : PushEnv)

namespace PolicyRun

variable (s : PolicyRun)

/-- A refresh, with what becomes of the ghosts. -/
def refresh (force : Bool) (env : SourceEnv) (e : PushEnv) : PolicyRun :=
  match s.daemon.refresh s.cache force env e with
  | (g, cache, ok) => ⟨g, cache, if s.daemon.stale force env then ok else s.synced, ok, none⟩

def step : PolicyAct → Option PolicyRun
  | .refresh force env e => some (s.refresh force env e)
  | .query uid env e answer e' =>
    match s.daemon.queryUid s.cache uid env e answer e' with
    | (g, cache, result) =>
      some
        { daemon := g
          cache := cache
          synced := (s.refresh false env e).synced
          refreshed := (s.refresh false env e).refreshed
          asked := result.map (uid, ·) }

end PolicyRun

/-- The daemon at its start; the kernel may have a cache of an earlier one. -/
def policyLts : Lts PolicyRun PolicyAct where
  init s := ∃ owner controlFd cache, (owner = ownerKernelSu ∨ owner = ownerKernelPatch) ∧
    s = ⟨.setup owner controlFd, cache, false, false, none⟩
  step := PolicyRun.step

/-! ## 4. What each call keeps -/

namespace Context

variable {g g' : Context} {cache : Option PolicyCache} {env : SourceEnv} {e : PushEnv}
  {force : Bool} {uid : UInt32} {d : Bool}

/-- The two facts of the daemon that do not change, and the manager it knows. -/
structure Settled (g g' : Context) : Prop where
  enabled : g'.enabled = g.enabled
  owner : g'.owner = g.owner
  controlFd : g'.controlFd = g.controlFd
  manager : g.ManagerOk → g'.ManagerOk
  all : g.owner = ownerKernelPatch → g.managerAppid = policyRefreshAll →
    g'.managerAppid = policyRefreshAll

theorem Settled.rfl' (g : Context) : g.Settled g := ⟨rfl, rfl, rfl, id, fun _ => id⟩

theorem Settled.trans {g'' : Context} (h : g.Settled g') (h' : g'.Settled g'') :
    g.Settled g'' where
  enabled := h'.enabled.trans h.enabled
  owner := h'.owner.trans h.owner
  controlFd := h'.controlFd.trans h.controlFd
  manager hm := h'.manager (h.manager hm)
  all ho hm := h'.all (h.owner.trans ho) (h.all ho hm)

theorem settled_push (g : Context) (cache : Option PolicyCache) (e : PushEnv) :
    g.Settled (g.pushCache cache e).1 := by
  obtain ⟨n, hn⟩ := g.push_context cache e
  rw [hn]
  exact ⟨rfl, rfl, rfl, id, fun _ => id⟩

/-- Which answers a map gives does not depend on its generation. -/
theorem enforced_push (g : Context) (cache : Option PolicyCache) (e : PushEnv) (uid : UInt32) :
    (g.pushCache cache e).1.enforced uid = g.enforced uid := by
  obtain ⟨n, hn⟩ := g.push_context cache e
  rw [hn]
  rfl

theorem appid_lt (m : UInt32) : m % 100000 < 100000 := by
  rw [UInt32.lt_iff_toNat_lt, UInt32.toNat_mod]
  exact Nat.mod_lt _ (by decide)

/-- The appid of a manager, or of none. -/
theorem appid_ok (m : Option UInt32) : m.elim policyRefreshAll (· % 100000) = policyRefreshAll ∨
    m.elim policyRefreshAll (· % 100000) < 100000 := by
  cases m with
  | none => exact .inl rfl
  | some m => exact .inr (appid_lt m)

theorem settled_load (h : g.load env = some g') : g.Settled g' := by
  unfold load at h
  split_ifs at h with hksu hkp
  · unfold loadKsu at h
    split_ifs at h
    obtain rfl := Option.some.inj h
    refine ⟨rfl, rfl, rfl, ?_, ?_⟩
    · intro _
      exact appid_ok env.ksuManager
    · intro ho
      rw [hksu] at ho
      exact absurd ho (by decide)
  · obtain rfl := Option.some.inj h
    exact ⟨rfl, rfl, rfl, fun _ => .inl rfl, fun _ _ => rfl⟩

theorem refresh_of_not_stale (h : g.stale force env = false) :
    g.refresh cache force env e = (g, cache, true) := by
  simp only [refresh, h, Bool.false_eq_true, if_false]

/-- A refresh. -/
theorem settled_refresh (g : Context) (cache : Option PolicyCache) (force : Bool) (env : SourceEnv)
    (e : PushEnv) : g.Settled (g.refresh cache force env e).1 := by
  cases hstale : g.stale force env with
  | false =>
    rw [refresh_of_not_stale hstale]
    exact .rfl' g
  | true =>
    simp only [refresh, hstale, if_true]
    cases hload : g.load env with
    | none => exact .rfl' g
    | some g' =>
      refine (settled_load hload).trans ((settled_push g' cache e).trans ?_)
      simp only
      split_ifs
      · exact ⟨rfl, rfl, rfl, id, fun _ => id⟩
      · exact .rfl' _

/-- **A refresh that read its source and succeeded** makes the kernel answer what the daemon
means. -/
theorem enforced_of_refresh (hmanager : g.ManagerOk) (hstale : g.stale force env = true)
    (hok : (g.refresh cache force env e).2.2 = true) (uid : UInt32) :
    yzPolicyCacheLookup (g.refresh cache force env e).2.1 uid =
      (g.refresh cache force env e).1.enforced uid := by
  simp only [refresh, hstale, if_true] at hok ⊢
  cases hload : g.load env with
  | none =>
    rw [hload] at hok
    cases hok
  | some g' =>
    rw [hload] at hok
    simp only at hok ⊢
    obtain ⟨c, hc, hlookup⟩ := enforced_of_push ((settled_load hload).manager hmanager) hok
    have hsame : ∀ g'' : Context, (if ((g'.pushCache cache e).2.2 && env.source.isSome) = true then
        { g'' with stamp := env.source } else g'').enforced uid = g''.enforced uid := by
      intro g''
      split_ifs <;> rfl
    rw [hc, hlookup, hsame, enforced_push]

/-- Under KernelPatch no uid is a manager's. -/
theorem enforced_eq_ask (h : g.managerAppid = policyRefreshAll) : g.enforced uid = g.ask uid := by
  have hnot : ¬ (g.managerAppid ≠ policyRefreshAll ∧ uid % 100000 = g.managerAppid) :=
    fun hm => hm.1 h
  rw [enforced, if_neg hnot]
  rfl

/-- A decision that was just put into the map is enforced, unless the uid is the manager's. -/
theorem enforced_insert (hkeeps : g.managerAppid ≠ policyRefreshAll →
    uid % 100000 = g.managerAppid → d = false) :
    (g.decided uid d).enforced uid = some d := by
  have hlook : (g.decisions.insert uid d)[uid]? = some d := Std.TreeMap.getElem?_insert_self
  by_cases hmanager : g.managerAppid ≠ policyRefreshAll ∧ uid % 100000 = g.managerAppid
  · simp only [enforced, decided, if_pos hmanager, hkeeps hmanager.1 hmanager.2]
  · simp only [enforced, decided, if_neg hmanager, hlook]

end Context

namespace PolicyRun

/-- The daemon once the refresh of a query is done. -/
def queried (s : PolicyRun) (env : SourceEnv) (e : PushEnv) : Context :=
  (s.refresh false env e).daemon

end PolicyRun

/-- KernelSU never unmounts for the manager the daemon knows. -/
def KeepsManager (s : PolicyRun) : PolicyAct → Prop
  | .query uid env e answer _ => (s.queried env e).managerAppid ≠ policyRefreshAll →
      uid % 100000 = (s.queried env e).managerAppid → ∀ d, answer = some d → d = false
  | .refresh .. => True

/-- **The push of a query goes through**: the map with the new uid has at most 8192 of them, the
daemon has its control file, gets and writes the cache file, and the kernel is ready for it. -/
def Fits (s : PolicyRun) : PolicyAct → Prop
  | .query uid env e answer e' => ∀ d, answer = some d → (s.queried env e).owner = ownerKernelSu →
      ¬ (s.queried env e).controlFd < 0 ∧
      ((s.queried env e).decisions.insert uid d).size ≤ policyCacheMaxEntries ∧
      e'.memfd = true ∧ e'.writes = true ∧ e'.root.Ready (s.queried env e).owner
  | .refresh .. => True

/-- **A refresh under KernelPatch is skipped in step**: it finds the stamp unchanged only when the
last refresh that read the configuration succeeded. -/
def InStep (s : PolicyRun) : PolicyAct → Prop
  | .refresh force env _ => s.daemon.owner = ownerKernelPatch →
      s.daemon.stale force env = false → s.synced = true
  | .query _ env _ _ _ => s.daemon.owner = ownerKernelPatch →
      s.daemon.stale false env = false → s.synced = true

/-- **Daemon and kernel answer alike.**  A query that just returned a decision left the kernel
with the same one, under KernelPatch if its own refresh succeeded.  And after a refresh that
succeeded under KernelPatch the kernel and a query agree on every uid. -/
def AnswersAlike (P : PolicyRun → PolicyAct → Prop) : Prop :=
  ∀ s, policyLts.Reach P s →
    (∀ uid d, s.asked = some (uid, d) → s.daemon.owner = ownerKernelSu ∨ s.refreshed = true →
      yzPolicyCacheLookup s.cache uid = some d) ∧
    (s.daemon.owner = ownerKernelPatch → s.refreshed = true →
      ∀ uid, yzPolicyCacheLookup s.cache uid = s.daemon.ask uid)

namespace PolicyRun

variable {s : PolicyRun} {env : SourceEnv} {e e' : PushEnv} {force : Bool} {uid : UInt32}
  {answer : Option Bool}

/-- A refresh that is skipped says that it succeeded. -/
theorem refresh_of_not_stale (hstale : s.daemon.stale force env = false) :
    s.refresh force env e = { s with refreshed := true, asked := none } := by
  simp only [refresh, Context.refresh_of_not_stale hstale, hstale, Bool.false_eq_true, if_false]

/-- What every step keeps. -/
structure Kept (s : PolicyRun) : Prop where
  enabled : s.daemon.enabled = true
  owner : s.daemon.owner = ownerKernelSu ∨ s.daemon.owner = ownerKernelPatch
  manager : s.daemon.ManagerOk
  all : s.daemon.owner = ownerKernelPatch → s.daemon.managerAppid = policyRefreshAll
  synced : s.daemon.owner = ownerKernelPatch → s.synced = true →
    ∀ uid, yzPolicyCacheLookup s.cache uid = s.daemon.enforced uid
  refreshed : s.daemon.owner = ownerKernelPatch → s.refreshed = true → s.synced = true
  asked : ∀ uid d, s.asked = some (uid, d) → s.daemon.owner = ownerKernelSu ∨ s.refreshed = true →
    yzPolicyCacheLookup s.cache uid = some d

/-- A refresh keeps it, if it is not skipped after a failed one. -/
theorem refresh_kept (h : s.Kept) (force : Bool) (env : SourceEnv) (e : PushEnv)
    (hstep : s.daemon.owner = ownerKernelPatch → s.daemon.stale force env = false →
      s.synced = true) : (s.refresh force env e).Kept := by
  have hsettled := s.daemon.settled_refresh s.cache force env e
  have howner : (s.refresh force env e).daemon.owner = s.daemon.owner := hsettled.owner
  refine
    { enabled := hsettled.enabled.trans h.enabled
      owner := howner ▸ h.owner
      manager := hsettled.manager h.manager
      all := fun ho => hsettled.all (howner ▸ ho) (h.all (howner ▸ ho))
      synced := fun ho hsynced uid => ?_
      refreshed := fun ho hrefreshed => ?_
      asked := nofun }
  · rw [howner] at ho
    cases hstale : s.daemon.stale force env with
    | false =>
      rw [refresh_of_not_stale hstale] at hsynced ⊢
      exact h.synced ho hsynced uid
    | true =>
      have hok : (s.daemon.refresh s.cache force env e).2.2 = true := by
        simpa only [refresh, hstale, if_true] using hsynced
      exact Context.enforced_of_refresh h.manager hstale hok uid
  · rw [howner] at ho
    cases hstale : s.daemon.stale force env with
    | false =>
      rw [refresh_of_not_stale hstale]
      exact hstep ho hstale
    | true => simpa only [refresh, hstale, if_true] using hrefreshed

/-- What follows the refresh of a query. -/
def reply (s : PolicyRun) (uid : UInt32) (answer : Option Bool) (e : PushEnv) : PolicyRun :=
  match s.daemon.answerUid s.cache uid answer e with
  | (g, cache, result) => ⟨g, cache, s.synced, s.refreshed, result.map (uid, ·)⟩

/-- A query is its refresh and its answer. -/
theorem query_eq {s' : PolicyRun} (henabled : s.daemon.enabled = true)
    (hs : s.step (.query uid env e answer e') = some s') :
    s' = (s.refresh false env e).reply uid answer e' := by
  have hquery : s.daemon.queryUid s.cache uid env e answer e' =
      (s.refresh false env e).daemon.answerUid (s.refresh false env e).cache uid answer e' := by
    simp only [Context.queryUid, henabled, Bool.not_true, Bool.false_eq_true, if_false, refresh]
  simp only [step, hquery] at hs
  exact (Option.some.inj hs).symm

/-- Under KernelSU the answer is pushed. -/
theorem reply_ksu {d : Bool} (h : s.Kept) (howner : s.daemon.owner = ownerKernelSu)
    (hkeeps : s.daemon.managerAppid ≠ policyRefreshAll →
      uid % 100000 = s.daemon.managerAppid → d = false)
    (hfd : ¬ s.daemon.controlFd < 0)
    (hsize : (s.daemon.decisions.insert uid d).size ≤ policyCacheMaxEntries)
    (hmemfd : e.memfd = true) (hwrites : e.writes = true) (hk : e.root.Ready s.daemon.owner) :
    (s.reply uid (some d) e).Kept := by
  have hpush : ((s.daemon.decided uid d).pushCache s.cache e).2.2 = true :=
    Context.push_ok h.manager hfd hsize hmemfd hwrites hk
  obtain ⟨c, hc, hlookup⟩ := Context.enforced_of_push (g := s.daemon.decided uid d) h.manager hpush
  have hsettled := (s.daemon.decided uid d).settled_push s.cache e
  rcases hrun : (s.daemon.decided uid d).pushCache s.cache e with ⟨g', cache', ok⟩
  rw [hrun] at hc hsettled
  have heq : s.reply uid (some d) e = ⟨g', cache', s.synced, s.refreshed, some (uid, d)⟩ := by
    simp only [reply, Context.answerUid, howner, if_true, hrun, Option.map_some]
  have howner' : g'.owner = ownerKernelSu := hsettled.owner.trans howner
  have hne : g'.owner ≠ ownerKernelPatch := by
    rw [howner']
    decide
  rw [heq]
  refine
    { enabled := hsettled.enabled.trans h.enabled, owner := .inl howner'
      manager := hsettled.manager h.manager, all := fun ho => absurd ho hne
      synced := fun ho => absurd ho hne, refreshed := fun ho => absurd ho hne
      asked := fun u b hub _ => ?_ }
  obtain ⟨rfl, rfl⟩ := Prod.mk.inj (Option.some.inj hub)
  have hcache : cache' = some c := hc
  change yzPolicyCacheLookup cache' uid = some d
  rw [hcache, hlookup]
  exact Context.enforced_insert hkeeps

/-- Under KernelPatch the map is asked. -/
theorem reply_apatch (h : s.Kept) (howner : s.daemon.owner = ownerKernelPatch) :
    (s.reply uid answer e).Kept := by
  have hne : ¬ ownerKernelPatch = ownerKernelSu := by decide
  have heq : s.reply uid answer e =
      ⟨s.daemon, s.cache, s.synced, s.refreshed, (s.daemon.ask uid).map (uid, ·)⟩ := by
    simp only [reply, Context.answerUid, howner, if_neg hne, if_true]
  rw [heq]
  refine
    { enabled := h.enabled, owner := h.owner, manager := h.manager, all := h.all
      synced := h.synced, refreshed := h.refreshed, asked := fun u b hub hsynced => ?_ }
  obtain ⟨v, hv, hvb⟩ := Option.map_eq_some_iff.mp hub
  obtain ⟨rfl, rfl⟩ := Prod.mk.inj hvb
  rcases hsynced with hksu | hs
  · exact absurd (howner.symm.trans hksu) hne
  · rw [h.synced howner (h.refreshed howner hs) uid, Context.enforced_eq_ask (h.all howner), hv]

/-- KernelSU did not answer. -/
theorem reply_none (h : s.Kept) (howner : s.daemon.owner = ownerKernelSu) :
    (s.reply uid none e).Kept := by
  have heq : s.reply uid none e = ⟨s.daemon, s.cache, s.synced, s.refreshed, none⟩ := by
    simp only [reply, Context.answerUid, howner, if_true]
    rfl
  rw [heq]
  exact
    { enabled := h.enabled, owner := h.owner, manager := h.manager, all := h.all
      synced := h.synced, refreshed := h.refreshed, asked := nofun }

end PolicyRun

/-- The invariant holds in every run that meets the guards. -/
theorem kept_invariant :
    policyLts.Invariant (fun s a => KeepsManager s a ∧ Fits s a ∧ InStep s a) PolicyRun.Kept where
  init s hi := by
    obtain ⟨owner, controlFd, cache, howner, rfl⟩ := hi
    exact
      { enabled := rfl, owner := howner, manager := .inl rfl, all := fun _ => rfl
        synced := nofun, refreshed := nofun, asked := nofun }
  step s a s' h hP hs := by
    cases a with
    | refresh force env e =>
      obtain rfl := Option.some.inj hs
      exact PolicyRun.refresh_kept h force env e hP.2.2
    | query uid env e answer e' =>
      obtain ⟨hkeeps, hfits, hinstep⟩ := hP
      have hr := PolicyRun.refresh_kept h false env e hinstep
      rw [PolicyRun.query_eq h.enabled hs]
      rcases hr.owner with howner | howner
      · cases answer with
        | none => exact PolicyRun.reply_none hr howner
        | some d =>
          obtain ⟨hfd, hsize, hmemfd, hwrites, hk⟩ := hfits d rfl howner
          exact PolicyRun.reply_ksu hr howner (fun h1 h2 => hkeeps h1 h2 d rfl) hfd hsize hmemfd
            hwrites hk
      · exact PolicyRun.reply_apatch hr howner

/-! ## 5. Every run -/

theorem answersAlike_of_fits {P : PolicyRun → PolicyAct → Prop}
    (hP : ∀ s a, P s a → KeepsManager s a ∧ Fits s a ∧ InStep s a) : AnswersAlike P := by
  intro s hr
  have h := (hr.mono hP).invariant kept_invariant
  refine ⟨h.asked, ?_⟩
  intro howner hrefreshed uid
  rw [h.synced howner (h.refreshed howner hrefreshed) uid, Context.enforced_eq_ask (h.all howner)]

/-! ### The map that does not fit -/

/-- The policy file of the run below, and what its calls find: KernelSU answers, its allowlist is
empty and its manager is not known. -/
def sampleStamp : SourceStamp := ⟨1, 1, 8, 1, 1⟩
def sampleEnv : SourceEnv :=
  ⟨some sampleStamp, true, some [], fun _ => some false, none, none⟩
def samplePush : PushEnv := ⟨true, true, ⟨true, ownerKernelSu, true, true, ownerKernelSu⟩⟩
def sampleStart : PolicyRun := ⟨.setup ownerKernelSu 3, none, false, false, none⟩

namespace PolicyRun

/-- A state of the run below: the map has uids below `10000 + m`, and the kernel knows them. -/
structure Grown (s : PolicyRun) (m : Nat) : Prop where
  enabled : s.daemon.enabled = true
  owner : s.daemon.owner = ownerKernelSu
  controlFd : ¬ s.daemon.controlFd < 0
  manager : s.daemon.managerAppid = policyRefreshAll
  complete : s.daemon.complete = false
  stamp : s.daemon.stamp = some sampleStamp
  below : ∀ uid, uid ∈ s.daemon.decisions → uid.toNat < 10000 + m
  known : ∀ uid, yzPolicyCacheLookup s.cache uid = s.daemon.enforced uid

variable {s : PolicyRun} {m : Nat}

/-- The next uid, and the query for it. -/
def nextUid (m : Nat) : UInt32 := UInt32.ofNat (10000 + m)
def nextQuery (m : Nat) : PolicyAct :=
  .query (nextUid m) sampleEnv samplePush (some true) samplePush

theorem toNat_nextUid (h : m ≤ policyCacheMaxEntries) : (nextUid m).toNat = 10000 + m := by
  refine UInt32.toNat_ofNat_of_lt' ?_
  simp only [policyCacheMaxEntries] at h
  change _ < 2 ^ 32
  omega

/-- The query does not read the file again. -/
theorem Grown.refresh (h : s.Grown m) :
    s.refresh false sampleEnv samplePush = { s with refreshed := true, asked := none } := by
  refine refresh_of_not_stale ?_
  simp only [Context.stale, h.enabled, h.stamp]
  rfl

/-- What the query does. -/
theorem Grown.query (h : s.Grown m) : ∃ s', s.step (nextQuery m) = some s' ∧
    s'.daemon = ((s.daemon.decided (nextUid m) true).pushCache s.cache samplePush).1 ∧
    s'.cache = ((s.daemon.decided (nextUid m) true).pushCache s.cache samplePush).2.1 ∧
    s'.asked = some (nextUid m, true) := by
  obtain ⟨s', hs⟩ : ∃ s', s.step (nextQuery m) = some s' := ⟨_, rfl⟩
  refine ⟨s', hs, ?_⟩
  rw [query_eq h.enabled hs, h.refresh]
  rcases hrun : (s.daemon.decided (nextUid m) true).pushCache s.cache samplePush with
    ⟨g', cache', ok⟩
  simp only [reply, Context.answerUid, h.owner, if_true, hrun, Option.map_some, and_self]

theorem Grown.keepsManager (h : s.Grown m) : KeepsManager s (nextQuery m) := by
  intro hne
  rw [queried, h.refresh] at hne
  exact absurd h.manager hne

theorem Grown.fresh (h : s.Grown m) (hm : m ≤ policyCacheMaxEntries) :
    nextUid m ∉ s.daemon.decisions := by
  intro hmem
  have hlt := h.below _ hmem
  rw [toNat_nextUid hm] at hlt
  omega

/-- A query more. -/
theorem Grown.grow (h : s.Grown m) (hm : m ≤ policyCacheMaxEntries)
    (hsize : s.daemon.decisions.size < policyCacheMaxEntries) :
    ∃ s', policyLts.Path KeepsManager s s' ∧ s'.Grown (m + 1) ∧
      s'.daemon.decisions.size = s.daemon.decisions.size + 1 := by
  obtain ⟨s', hs, hdaemon, hcache, -⟩ := h.query
  have hsize' : (s.daemon.decided (nextUid m) true).decisions.size =
      s.daemon.decisions.size + 1 := by
    change (s.daemon.decisions.insert (nextUid m) true).size = _
    rw [Std.TreeMap.size_insert]
    exact if_neg (by simpa using h.fresh hm)
  have hmanager : (s.daemon.decided (nextUid m) true).ManagerOk := .inl h.manager
  have hok : ((s.daemon.decided (nextUid m) true).pushCache s.cache samplePush).2.2 = true :=
    Context.push_ok hmanager h.controlFd (hsize' ▸ hsize) rfl rfl
      ⟨rfl, h.owner.symm, rfl, rfl, h.owner.symm⟩
  obtain ⟨c, hc, hlookup⟩ := Context.enforced_of_push hmanager hok
  obtain ⟨n, hn⟩ := (s.daemon.decided (nextUid m) true).push_context s.cache samplePush
  refine ⟨s', .single ⟨_, h.keepsManager, hs⟩, ?_, ?_⟩
  · refine
      { enabled := ?_, owner := ?_, controlFd := ?_, manager := ?_, complete := ?_, stamp := ?_
        below := fun uid hmem => ?_, known := fun uid => ?_ }
    · rw [hdaemon, hn]
      exact h.enabled
    · rw [hdaemon, hn]
      exact h.owner
    · rw [hdaemon, hn]
      exact h.controlFd
    · rw [hdaemon, hn]
      exact h.manager
    · rw [hdaemon, hn]
      exact h.complete
    · rw [hdaemon, hn]
      exact h.stamp
    · rw [hdaemon, hn] at hmem
      rcases Std.TreeMap.mem_insert.mp hmem with heq | hold
      · have huid := Std.compare_eq_iff_eq.mp heq
        rw [← huid, toNat_nextUid hm]
        omega
      · have hlt := h.below uid hold
        omega
    · rw [hdaemon, Context.enforced_push, hcache, hc, hlookup]
  · rw [hdaemon, hn]
    exact hsize'

/-- The map grows until it is full. -/
theorem Grown.fill (h : s.Grown m) (hm : m + (policyCacheMaxEntries - s.daemon.decisions.size) ≤
    policyCacheMaxEntries) (hsize : s.daemon.decisions.size ≤ policyCacheMaxEntries) :
    ∃ s' k, policyLts.Path KeepsManager s s' ∧ s'.Grown k ∧ k ≤ policyCacheMaxEntries ∧
      s'.daemon.decisions.size = policyCacheMaxEntries := by
  induction hleft : policyCacheMaxEntries - s.daemon.decisions.size generalizing s m with
  | zero => exact ⟨s, m, .refl, h, by omega, by omega⟩
  | succ n ih =>
    obtain ⟨t, hp, ht, hsize'⟩ := h.grow (by omega) (by omega)
    obtain ⟨s', k, hp', hs', hk, hfull⟩ := ih ht (by omega) (by omega) (by omega)
    exact ⟨s', k, hp.trans hp', hs', hk, hfull⟩

/-- The first refresh. -/
theorem grown_start : (sampleStart.refresh true sampleEnv samplePush).Grown 0 := by
  have hok :
      (sampleStart.daemon.refresh sampleStart.cache true sampleEnv samplePush).2.2 = true := by
    decide +kernel
  exact
    { enabled := by decide +kernel
      owner := by decide +kernel
      controlFd := by decide +kernel
      manager := by decide +kernel
      complete := by decide +kernel
      stamp := by decide +kernel
      below := by
        intro uid hmem
        have hall : ((sampleStart.refresh true sampleEnv samplePush).daemon.decisions.keys.all
            fun uid => decide (uid.toNat < 10000)) = true := by decide +kernel
        exact of_decide_eq_true (List.all_eq_true.mp hall uid (Std.TreeMap.mem_keys.mpr hmem))
      known := Context.enforced_of_refresh (.inl rfl) rfl hok }

theorem Grown.fits (h : s.Grown m) (hsize : s.daemon.decisions.size < policyCacheMaxEntries) :
    Fits s (nextQuery m) := by
  intro d _ _
  have hqueried : s.queried sampleEnv samplePush = s.daemon := by
    rw [queried, h.refresh]
  rw [hqueried, Std.TreeMap.size_insert]
  refine ⟨h.controlFd, ?_, rfl, rfl, ⟨rfl, h.owner.symm, rfl, rfl, h.owner.symm⟩⟩
  split <;> omega

/-- The first refresh is a run, and leaves the map almost empty. -/
theorem reach_start {P : PolicyRun → PolicyAct → Prop}
    (hP : P sampleStart (.refresh true sampleEnv samplePush)) :
    policyLts.Reach P (sampleStart.refresh true sampleEnv samplePush) := by
  have hinit : policyLts.init sampleStart := ⟨ownerKernelSu, 3, none, .inl rfl, rfl⟩
  have hstep : policyLts.step sampleStart (.refresh true sampleEnv samplePush) =
      some (sampleStart.refresh true sampleEnv samplePush) := rfl
  exact .step (.ofInit hinit) hP hstep

theorem size_start :
    (sampleStart.refresh true sampleEnv samplePush).daemon.decisions.size = 2 := by
  decide +kernel

end PolicyRun

/-! ### The refresh that is skipped -/

/-- A daemon under KernelPatch whose configuration has uid 10001, and one of its refreshes that
cannot read the configuration. -/
def apatchStart : PolicyRun := ⟨.setup ownerKernelPatch 3, none, false, false, none⟩
def apatchEnv : SourceEnv :=
  ⟨some sampleStamp, false, none, fun _ => none, none, some [some (1, 10001)]⟩
def apatchPush : PushEnv := ⟨true, true, ⟨true, ownerKernelPatch, true, true, ownerKernelPatch⟩⟩

theorem init_apatchStart : policyLts.init apatchStart :=
  ⟨ownerKernelPatch, 3, none, .inr rfl, rfl⟩

/-- **A skipped refresh after a failed one.**  The second refresh can open neither the
configuration nor the file of its cache; the third finds the stamp of the first. -/
theorem skipped_apart : ∃ s, policyLts.Reach KeepsManager s ∧
    s.daemon.owner = ownerKernelPatch ∧ s.refreshed = true ∧
    yzPolicyCacheLookup s.cache 10001 = some true ∧ s.daemon.ask 10001 = none := by
  have hrun : (policyLts.exec apatchStart
      [.refresh true apatchEnv apatchPush,
        .refresh true { apatchEnv with apatchRows := none } { apatchPush with memfd := false },
        .refresh false apatchEnv apatchPush]).any
      (fun s => decide (s.daemon.owner = ownerKernelPatch ∧ s.refreshed = true ∧
        yzPolicyCacheLookup s.cache 10001 = some true ∧ s.daemon.ask 10001 = none)) = true := by
    decide +kernel
  obtain ⟨s, hs, hp⟩ := (Option.any_eq_true _ _).mp hrun
  have hpath : policyLts.Path KeepsManager apatchStart s := by
    refine Lts.path_of_exec _ _ _ (fun a ha t => ?_) hs
    cases a with
    | refresh => trivial
    | query => simp at ha
  exact ⟨s, (Lts.Reach.ofInit init_apatchStart).path hpath, of_decide_eq_true hp⟩

/-- Under KernelSU the kernel has the answer of a query.  Under KernelPatch it agrees with the
daemon after a refresh that was skipped. -/
theorem answersAlike_sample :
    (∃ s, policyLts.Reach (fun s a => KeepsManager s a ∧ Fits s a ∧ InStep s a) s ∧
      s.asked = some (10000, true) ∧ yzPolicyCacheLookup s.cache 10000 = some true) ∧
    ∃ s, policyLts.Reach (fun s a => KeepsManager s a ∧ Fits s a ∧ InStep s a) s ∧
      s.daemon.ask 10001 = some true ∧ yzPolicyCacheLookup s.cache 10001 = some true ∧
      yzPolicyCacheLookup s.cache 10002 = some false := by
  have hall : AnswersAlike fun s a => KeepsManager s a ∧ Fits s a ∧ InStep s a :=
    answersAlike_of_fits fun _ _ => id
  constructor
  · have hgrown := PolicyRun.grown_start
    obtain ⟨s, hstep, hdaemon, -, hasked⟩ := hgrown.query
    have hfits := hgrown.fits (by rw [PolicyRun.size_start]; decide)
    have hinstep : InStep (sampleStart.refresh true sampleEnv samplePush)
        (PolicyRun.nextQuery 0) := fun howner =>
      absurd (hgrown.owner.symm.trans howner) (by decide)
    have hr : policyLts.Reach (fun s a => KeepsManager s a ∧ Fits s a ∧ InStep s a) s :=
      (PolicyRun.reach_start ⟨trivial, trivial, nofun⟩).step
        ⟨hgrown.keepsManager, hfits, hinstep⟩ hstep
    obtain ⟨n, hn⟩ := ((sampleStart.refresh true sampleEnv samplePush).daemon.decided
      (PolicyRun.nextUid 0) true).push_context
      (sampleStart.refresh true sampleEnv samplePush).cache samplePush
    have howner : s.daemon.owner = ownerKernelSu := by
      rw [hdaemon, hn]
      exact hgrown.owner
    exact ⟨s, hr, hasked, (hall s hr).1 10000 true hasked (.inl howner)⟩
  · have hrun : ((apatchStart.refresh true apatchEnv apatchPush).refresh false apatchEnv
        apatchPush).refreshed = true ∧
        ((apatchStart.refresh true apatchEnv apatchPush).refresh false apatchEnv
          apatchPush).daemon.owner = ownerKernelPatch ∧
        ((apatchStart.refresh true apatchEnv apatchPush).refresh false apatchEnv
          apatchPush).daemon.ask 10001 = some true ∧
        ((apatchStart.refresh true apatchEnv apatchPush).refresh false apatchEnv
          apatchPush).daemon.ask 10002 = some false ∧
        (apatchStart.refresh true apatchEnv apatchPush).synced = true := by
      decide +kernel
    obtain ⟨hrefreshed, howner, hask, hother, hsynced⟩ := hrun
    have hr : policyLts.Reach (fun s a => KeepsManager s a ∧ Fits s a ∧ InStep s a)
        ((apatchStart.refresh true apatchEnv apatchPush).refresh false apatchEnv apatchPush) :=
      ((Lts.Reach.ofInit init_apatchStart).step
        (a := .refresh true apatchEnv apatchPush) ⟨trivial, trivial, nofun⟩ rfl).step
        (a := .refresh false apatchEnv apatchPush) ⟨trivial, trivial, fun _ _ => hsynced⟩ rfl
    have hagree := (hall _ hr).2 howner hrefreshed
    exact ⟨_, hr, hask, (hagree 10001).trans hask, (hagree 10002).trans hother⟩

/-- **The map grows over the limit.**  The query of uid 8193 answers, its push does not go
through, and the kernel does not know the uid. -/
theorem not_answersAlike : ¬ AnswersAlike KeepsManager := by
  intro h
  have hstart : policyLts.Reach KeepsManager (sampleStart.refresh true sampleEnv samplePush) :=
    PolicyRun.reach_start trivial
  obtain ⟨s, m, hp, hs, hm, hfull⟩ := PolicyRun.grown_start.fill (by omega)
    (by rw [PolicyRun.size_start]; decide)
  obtain ⟨s', hstep, hdaemon, hcache, hasked⟩ := hs.query
  have hr : policyLts.Reach KeepsManager s' := (hstart.path hp).step hs.keepsManager hstep
  have hover : (s.daemon.decided (PolicyRun.nextUid m) true).decisions.size >
      policyCacheMaxEntries := by
    change (s.daemon.decisions.insert (PolicyRun.nextUid m) true).size > _
    rw [Std.TreeMap.size_insert, if_neg (by simpa using hs.fresh hm), hfull]
    exact Nat.lt_succ_self _
  have hpush : (s.daemon.decided (PolicyRun.nextUid m) true).pushCache s.cache samplePush =
      (s.daemon.decided (PolicyRun.nextUid m) true, s.cache, false) := by
    simp only [Context.pushCache, if_pos (Or.inr hover)]
  rw [hpush] at hdaemon hcache
  have howner : s'.daemon.owner = ownerKernelSu := hdaemon ▸ hs.owner
  have hlookup := (h s' hr).1 _ _ hasked (.inl howner)
  have hnot : ¬ (s.daemon.managerAppid ≠ policyRefreshAll ∧
      PolicyRun.nextUid m % 100000 = s.daemon.managerAppid) := fun hmanager =>
    hmanager.1 hs.manager
  have hnone : s.daemon.decisions[PolicyRun.nextUid m]? = none :=
    Std.TreeMap.getElem?_eq_none (hs.fresh hm)
  rw [hcache, hs.known, Context.enforced, if_neg hnot, hnone, hs.complete] at hlookup
  cases hlookup

end YukiZygisk.RootPolicy
