/-
# The requests for native modules (`userspace/zygisk/core/src/yukizncore.cpp`)

A process in which the core runs asks the daemon for its native modules one request at a time.
It asks how many there are, then for what each one is, and for a module that is meant for it, for
the library, with a report once that is loaded.  The module itself can later connect to its
companion.  Every request is a connection of its own and says which module by a position only.
The daemon's answers to them are in `userspace/zygisk/daemon/zygiskd.cpp`.

`nativeClients` runs any number of such processes and the daemon's scans in any order.  A scan in
between can put another module at the position: `not_sameModules`.  As long as no scan moves a
module that a process has read about and may still ask for, and none takes a companion process
its place, what a process gets belongs to the module it read about: `sameModules_of_keepsReads`.

What a process read is a ghost of its state: the module whose info it was given, beside the index
that it keeps.  `Holds` says that in a list of modules, everything that a process may still ask for
is the module that it read about: the position of its next request, and the index of each handle
that can connect to a companion.  A request keeps it, since it asks for something that was read, or
reads it (`holds_info`); there is one lemma for each request (`holds_count` to `holds_companion`),
and `kept_step` puts them together.  A scan keeps it by the guard.  What a process obtains is right
because it is answered from the list in which the process `Holds`.
-/
import YukiZygisk.Daemon.Modules
import YukiZygisk.Feature.EarlyNative

namespace YukiZygisk.Daemon

open Native (nativeTargetName nativeTargetPath cString zpBasename)

/-! ## 1. The daemon's answers -/

/-- `kNativeModuleNameMax`, `kNativeModuleTargetMax` and `kNativeModulePathMax`. -/
def nativeModuleNameMax : Nat := 64
def nativeModuleTargetMax : Nat := 256
def nativeModulePathMax : Nat := 512

/-- `struct NativeModuleInfo`, with its strings. -/
structure NativeModuleInfo where
  targetType : UInt8
  hasCompanion : Bool
  moduleId : List UInt8
  target : List UInt8
  libPath : List UInt8
  deriving DecidableEq

/-- `Request::GetNativeModuleCount`. -/
def getNativeModuleCount (d : Lists) : Nat := d.nativeModules.length % 2 ^ 32

/-- `Request::GetNativeModuleInfo`.  Past the end the answer is all zero. -/
def getNativeModuleInfo (d : Lists) (idx : Nat) : NativeModuleInfo :=
  match d.nativeModules[idx]? with
  | none => ⟨0, false, [], [], []⟩
  | some m =>
    ⟨m.targetType, m.hasCompanion, cString nativeModuleNameMax m.moduleId,
      cString nativeModuleTargetMax m.target, cString nativeModulePathMax m.libPath⟩

/-- `Request::GetNativeModuleFd`: the module whose library the caller gets a copy of. -/
def getNativeModuleFd (d : Lists) (idx : Nat) (copied : Bool) : Option NativeModule :=
  if copied then d.nativeModules[idx]? else none

/-- `Request::ReportNativeInjection`: the module whose id goes to the kernel. -/
def reportNativeInjection (d : Lists) (idx : Nat) : Option NativeModule := d.nativeModules[idx]?

/-! ## 2. The core -/

/-- `struct ModuleHandle`.  `read` is a ghost: the module whose info gave the handle its index. -/
structure ModuleHandle where
  index : Nat
  moduleId : List UInt8
  early : Bool
  hasCompanion : Bool
  reported : Bool
  read : Option NativeModule
  deriving DecidableEq

/-- Where the core is.  What it read about the module that its next request is for is a ghost. -/
inductive Phase
  /-- before `load_matching_modules` -/
  | start
  /-- in its loop, before the info at `i` -/
  | asking (i count : Nat)
  /-- before the library at `i` -/
  | fetching (i count : Nat) (info : NativeModuleInfo) (read : Option NativeModule)
  /-- before the report at `i`, for handle `k` -/
  | reporting (i count k : Nat) (read : Option NativeModule)
  /-- before a call of `sync_early_native_reports_once` -/
  | resting
  /-- in its loops, before the info at `i` for handle `k` -/
  | syncing (k count i : Nat)
  /-- before the report at `i`, for handle `k` -/
  | syncReporting (k count i : Nat) (read : Option NativeModule)
  deriving DecidableEq

/-- A process with the core, its `g_loaded_modules`, and the file it runs. -/
structure Core where
  exe : List UInt8
  phase : Phase
  handles : List ModuleHandle
  deriving DecidableEq

/-- The fd, the report or the companion that a request was for: the module it belongs to, and the
one whose info was read at its position. -/
structure Obtained where
  read : Option NativeModule
  served : NativeModule
  deriving DecidableEq

/-- `target_matches`. -/
def infoMatches (info : NativeModuleInfo) (exe : List UInt8) : Bool :=
  if info.target = [] then false
  else if info.targetType = nativeTargetName then zpBasename exe = info.target
  else if info.targetType = nativeTargetPath then exe = info.target
  else false

/-- `find_loaded_module`. -/
def findLoadedModule (handles : List ModuleHandle) (moduleId : List UInt8) : Option Nat :=
  handles.findIdx? fun h => h.moduleId = moduleId

namespace ModuleHandle

variable (h : ModuleHandle)

/-- A handle whose early module is not reported yet. -/
def pending : Bool := h.early && !h.reported

/-- `api_connect_companion` sends a request for this handle. -/
def connects : Bool := !(h.early && !h.hasCompanion)

/-- The handle is given an index again. -/
def rebind (i : Nat) (info : NativeModuleInfo) (read : Option NativeModule) : ModuleHandle :=
  { h with index := i, hasCompanion := info.hasCompanion, read := read }

end ModuleHandle

/-- The loop of `load_matching_modules` goes on. -/
def askFrom (i count : Nat) : Phase := if i < count then .asking i count else .resting

/-- The outer loop of `sync_early_native_reports_once` goes on. -/
def syncFrom (handles : List ModuleHandle) (k count : Nat) : Phase :=
  match (handles.drop k).findIdx? ModuleHandle.pending with
  | none => .resting
  | some j => if 0 < count then .syncing (k + j) count 0 else .resting

/-- Its inner loop goes on. -/
def syncNext (handles : List ModuleHandle) (k count i : Nat) : Phase :=
  if i < count then .syncing k count i else syncFrom handles (k + 1) count

inductive CoreAct
  /-- the request for the count -/
  | count (answered : Bool)
  /-- the request for an info -/
  | info (answered : Bool)
  /-- the request for a library, which is then loaded -/
  | fetch (copied loads : Bool)
  /-- the report, and whether the kernel takes it -/
  | report (sent ok : Bool)
  /-- `api_connect_companion` for handle `k` -/
  | companion (k : Nat) (env : Env)

namespace Core

variable (c : Core) (d : Lists)

/-- `request_native_module_count`. -/
def count (answered : Bool) : Option Core :=
  match c.phase with
  | .start =>
    some { c with phase := if answered then askFrom 0 (getNativeModuleCount d) else .resting }
  | .resting =>
    if c.handles.any ModuleHandle.pending then
      some { c with
        phase := if answered then syncFrom c.handles 0 (getNativeModuleCount d) else .resting }
    else none
  | _ => none

/-- `request_native_info`, and what follows it up to the next request. -/
def info (answered : Bool) : Option Core :=
  match c.phase with
  | .asking i count =>
    let info := getNativeModuleInfo d i
    if !(answered && infoMatches info c.exe) then some { c with phase := askFrom (i + 1) count }
    else
      match findLoadedModule c.handles info.moduleId with
      | none => some { c with phase := .fetching i count info d.nativeModules[i]? }
      | some k => c.handles[k]?.map fun h =>
        { c with
          handles := c.handles.set k (h.rebind i info d.nativeModules[i]?)
          phase := if h.pending then .reporting i count k d.nativeModules[i]?
            else askFrom (i + 1) count }
  | .syncing k count i =>
    let info := getNativeModuleInfo d i
    c.handles[k]?.map fun h =>
      if !(answered && decide (info.moduleId = h.moduleId)) then
        { c with phase := syncNext c.handles k count (i + 1) }
      else
        { c with
          handles := c.handles.set k (h.rebind i info d.nativeModules[i]?)
          phase := .syncReporting k count i d.nativeModules[i]? }
  | _ => none

/-- The request for the library, and `load_native_module_from_fd`. -/
def fetch (copied loads : Bool) : Option (Core × List Obtained) :=
  match c.phase with
  | .fetching i count info read =>
    match getNativeModuleFd d i copied with
    | none => some ({ c with phase := askFrom (i + 1) count }, [])
    | some m =>
      if info.moduleId = [] ∨ info.libPath = [] ∨ loads = false then
        some ({ c with phase := askFrom (i + 1) count }, [⟨read, m⟩])
      else
        some ({ c with
          handles := c.handles ++ [⟨i, info.moduleId, false, info.hasCompanion, false, read⟩]
          phase := .reporting i count c.handles.length read }, [⟨read, m⟩])
  | _ => none

/-- The report that is made of a handle. -/
def reported (k : Nat) (ok : Bool) : List ModuleHandle :=
  match c.handles[k]? with
  | none => c.handles
  | some h => c.handles.set k { h with reported := ok }

/-- `report_native_injection`. -/
def report (sent ok : Bool) : Option (Core × List Obtained) :=
  let answer (i : Nat) := if sent then reportNativeInjection d i else none
  match c.phase with
  | .reporting i count k read =>
    let handles := c.reported k ((answer i).isSome && ok)
    some ({ c with handles := handles, phase := askFrom (i + 1) count },
      (answer i).toList.map (⟨read, ·⟩))
  | .syncReporting k count i read =>
    let handles := c.reported k ((answer i).isSome && ok)
    some ({ c with handles := handles, phase := syncFrom handles (k + 1) count },
      (answer i).toList.map (⟨read, ·⟩))
  | _ => none

/-- `api_connect_companion`: the daemon's lists after it, and what the module gets. -/
def companion (k : Nat) (env : Env) : Option (Lists × List Obtained) :=
  c.handles[k]?.map fun h =>
    if !h.connects then (d, [])
    else
      let (served, d') := connectNativeCompanion d h.index env
      (d', served.toList.map (⟨h.read, ·⟩))

/-- A request of the core. -/
def step : CoreAct → Option (Core × Lists × List Obtained)
  | .count answered => (c.count d answered).map fun c => (c, d, [])
  | .info answered => (c.info d answered).map fun c => (c, d, [])
  | .fetch copied loads => (c.fetch d copied loads).map fun r => (r.1, d, r.2)
  | .report sent ok => (c.report d sent ok).map fun r => (r.1, d, r.2)
  | .companion k env => (c.companion d k env).map fun r => (c, r.1, r.2)

end Core

/-! ## 3. Any number of processes and scans -/

/-- The daemon's lists, the processes, and what they obtained so far. -/
structure NativeRun where
  lists : Lists
  cores : List Core
  obtained : List Obtained
  deriving DecidableEq

inductive NativeAct
  | rescan (scanned : List Module) (nativeScanned : List (NativeModule × UInt8))
  | core (c : Nat) (a : CoreAct)

def NativeRun.step (s : NativeRun) : NativeAct → Option NativeRun
  | .rescan scanned nativeScanned =>
    some { s with lists := s.lists.rescanModules scanned nativeScanned }
  | .core i a => (s.cores[i]?).bind fun c => (c.step s.lists a).map fun r =>
    ⟨r.2.1, s.cores.set i r.1, r.2.2 ++ s.obtained⟩

/-- A process when the core has loaded the early modules with these ids. -/
def coreInit (exe : List UInt8) (early : List (List UInt8)) : Core :=
  ⟨exe, .start, early.map fun moduleId => ⟨0xffffffff, moduleId, true, false, false, none⟩⟩

/-- Scans and requests in any order. -/
def nativeClients : Lts NativeRun NativeAct where
  init s := (∃ elfClass, s.lists = listsInit elfClass) ∧
    (∀ c ∈ s.cores, ∃ exe early, c = coreInit exe early) ∧ s.obtained = []
  step := NativeRun.step

/-- One module: its id and its library. -/
def sameModule (p m : NativeModule) : Prop := p.moduleId = m.moduleId ∧ p.libPath = m.libPath

/-- The module is the one that was read about. -/
def OfRead (read : Option NativeModule) (m : NativeModule) : Prop :=
  ∃ r, read = some r ∧ sameModule r m

/-- **One index, one module.**  The fd, the report and the companion that a process obtained with
an index belong to the module whose info it read there. -/
def SameModules (P : NativeRun → NativeAct → Prop) : Prop :=
  ∀ s, nativeClients.Reach P s → ∀ o ∈ s.obtained, OfRead o.read o.served

/-- The position the next request is for, and what was read there. -/
def Phase.next : Phase → Option (Nat × Option NativeModule)
  | .fetching i _ _ read => some (i, read)
  | .reporting i _ _ read => some (i, read)
  | .syncReporting _ _ i read => some (i, read)
  | _ => none

/-- In a list of modules, what a process may still ask for is what it read about: the position
its next request is for, and that of each handle that can connect to a companion. -/
structure Core.Holds (l : List NativeModule) (c : Core) : Prop where
  phase : ∀ i read, c.phase.next = some (i, read) → ∀ m, l[i]? = some m → OfRead read m
  handles : ∀ h ∈ c.handles, h.connects = true → ∀ m, l[h.index]? = some m →
    m.hasCompanion = true → OfRead h.read m

/-- Every process can rely on what it read, and every companion process has its place. -/
structure ReadsHold (s : NativeRun) : Prop where
  cores : ∀ c ∈ s.cores, c.Holds s.lists.nativeModules
  places : Keeps NativeModule.hasCompanion sameModule s.lists.nativeCompanions
    s.lists.nativeModules

/-- A scan after which they still can. -/
def KeepsReads (s : NativeRun) : NativeAct → Prop
  | .rescan scanned nativeScanned =>
    ReadsHold { s with lists := s.lists.rescanModules scanned nativeScanned }
  | .core _ _ => True

/-! ## 4. What a request keeps -/

theorem sameModule_refl (m : NativeModule) : sameModule m m := ⟨rfl, rfl⟩

/-- What was just read is what is there. -/
theorem ofRead_self {l : List NativeModule} {i : Nat} {m : NativeModule} (h : l[i]? = some m) :
    OfRead l[i]? m :=
  ⟨m, h, sameModule_refl m⟩

@[simp] theorem next_askFrom (i count : Nat) : (askFrom i count).next = none := by
  unfold askFrom
  split <;> rfl

@[simp] theorem next_syncFrom (handles : List ModuleHandle) (k count : Nat) :
    (syncFrom handles k count).next = none := by
  unfold syncFrom
  split
  · rfl
  · split <;> rfl

@[simp] theorem next_syncNext (handles : List ModuleHandle) (k count i : Nat) :
    (syncNext handles k count i).next = none := by
  unfold syncNext
  split
  · rfl
  · exact next_syncFrom ..

namespace Core

variable {c c' : Core} {d d' : Lists} {l : List NativeModule} {k : Nat} {h : ModuleHandle}
  {new : List Obtained}

/-- A process whose next request is for no position. -/
theorem Holds.rest (hc : c.Holds l) {phase : Phase} (hp : phase.next = none) :
    ({ c with phase := phase } : Core).Holds l where
  phase i read hi := by
    rw [show ({ c with phase := phase } : Core).phase = phase from rfl, hp] at hi
    cases hi
  handles := hc.handles

/-- A process whose next request is for a position it just read about. -/
theorem Holds.turn {i : Nat} (hc : c.Holds d.nativeModules) {phase : Phase}
    (hp : phase.next = none ∨ phase.next = some (i, d.nativeModules[i]?)) :
    ({ c with phase := phase } : Core).Holds d.nativeModules where
  phase j read hj m hm := by
    rcases hp with hp | hp
    · have hnone := hj.symm.trans hp
      cases hnone
    · obtain ⟨rfl, rfl⟩ := Prod.mk.inj (Option.some.inj (hj.symm.trans hp))
      exact ofRead_self hm
  handles := hc.handles

/-- A handle is replaced. -/
theorem Holds.set (hc : c.Holds l) (hh : h.connects = true → ∀ m, l[h.index]? = some m →
    m.hasCompanion = true → OfRead h.read m) :
    ({ c with handles := c.handles.set k h } : Core).Holds l where
  phase := hc.phase
  handles h' hmem := by
    rcases List.mem_or_eq_of_mem_set hmem with hold | rfl
    · exact hc.handles h' hold
    · exact hh

theorem holds_count {answered : Bool} (hc : c.Holds l) (hs : c.count d answered = some c') :
    c'.Holds l := by
  unfold count at hs
  split at hs
  · obtain rfl := Option.some.inj hs
    refine hc.rest ?_
    cases answered with
    | false => rfl
    | true => exact next_askFrom ..
  · split_ifs at hs
    · obtain rfl := Option.some.inj hs
      exact hc.rest (next_syncFrom ..)
    · obtain rfl := Option.some.inj hs
      exact hc.rest rfl
  · cases hs

/-- A handle that is given the position that was just read. -/
theorem Holds.rebind (hc : c.Holds d.nativeModules) (k i : Nat) (h : ModuleHandle)
    (info : NativeModuleInfo) :
    ({ c with handles := c.handles.set k (h.rebind i info d.nativeModules[i]?) } : Core).Holds
      d.nativeModules :=
  hc.set fun _ _ hm _ => ofRead_self hm

/-- What an info tells a process is what is there. -/
theorem holds_info {answered : Bool} (hc : c.Holds d.nativeModules)
    (hs : c.info d answered = some c') : c'.Holds d.nativeModules := by
  unfold info at hs
  split at hs
  · rename_i i count _
    dsimp only at hs
    split_ifs at hs
    · obtain rfl := Option.some.inj hs
      exact hc.rest (next_askFrom ..)
    · split at hs
      · obtain rfl := Option.some.inj hs
        exact hc.turn (.inr rfl)
      · obtain ⟨h, -, rfl⟩ := Option.map_eq_some_iff.mp hs
        refine (hc.rebind _ i h _).turn (i := i) ?_
        split
        · exact .inr rfl
        · exact .inl (next_askFrom ..)
  · obtain ⟨h, -, rfl⟩ := Option.map_eq_some_iff.mp hs
    split
    · exact hc.rest (next_syncNext ..)
    · exact (hc.rebind _ _ h _).turn (.inr rfl)
  · cases hs

/-- The library is that of the module that was read about, and so is a handle for it. -/
theorem holds_fetch {copied loads : Bool} (hc : c.Holds d.nativeModules)
    (hs : c.fetch d copied loads = some (c', new)) :
    c'.Holds d.nativeModules ∧ ∀ o ∈ new, OfRead o.read o.served := by
  unfold fetch at hs
  split at hs
  · rename_i i count info read hphase
    have hread : ∀ m, d.nativeModules[i]? = some m → OfRead read m :=
      hc.phase i read (by rw [hphase]; rfl)
    split at hs
    · obtain ⟨rfl, rfl⟩ := Prod.mk.inj (Option.some.inj hs)
      refine ⟨hc.rest (next_askFrom ..), ?_⟩
      intro o ho
      cases ho
    · rename_i m hm
      have hmodule : d.nativeModules[i]? = some m := by
        unfold getNativeModuleFd at hm
        split_ifs at hm
        exact hm
      have hnew : ∀ o ∈ [Obtained.mk read m], OfRead o.read o.served := by
        intro o ho
        obtain rfl := List.mem_singleton.mp ho
        exact hread m hmodule
      split_ifs at hs
      · obtain ⟨rfl, rfl⟩ := Prod.mk.inj (Option.some.inj hs)
        exact ⟨hc.rest (next_askFrom ..), hnew⟩
      · obtain ⟨rfl, rfl⟩ := Prod.mk.inj (Option.some.inj hs)
        refine ⟨⟨?_, ?_⟩, hnew⟩
        · intro j read' hj
          obtain ⟨rfl, rfl⟩ := Prod.mk.inj (Option.some.inj hj)
          exact hread
        · intro h hh hconnects
          rcases List.mem_append.mp hh with hold | hlast
          · exact hc.handles h hold hconnects
          · obtain rfl := List.mem_singleton.mp hlast
            exact fun m hm _ => hread m hm
  · cases hs

/-- A report leaves a handle its index and what was read. -/
theorem Holds.reported (hc : c.Holds l) (k : Nat) (ok : Bool) :
    ({ c with handles := c.reported k ok } : Core).Holds l where
  phase := hc.phase
  handles h hh := by
    unfold Core.reported at hh
    dsimp only at hh
    split at hh
    · exact hc.handles h hh
    · rename_i h' hk
      rcases List.mem_or_eq_of_mem_set hh with hold | rfl
      · exact hc.handles h hold
      · exact hc.handles h' (List.mem_of_getElem? hk)

/-- The report is of the module that was read about. -/
theorem ofRead_report {i : Nat} {read : Option NativeModule} {sent : Bool}
    (hread : ∀ m, d.nativeModules[i]? = some m → OfRead read m) :
    ∀ o ∈ (if sent then reportNativeInjection d i else none).toList.map (Obtained.mk read),
      OfRead o.read o.served := by
  intro o ho
  obtain ⟨m, hm, rfl⟩ := List.mem_map.mp ho
  have hmodule := Option.mem_toList.mp hm
  split_ifs at hmodule
  exact hread m hmodule

theorem holds_report {sent ok : Bool} (hc : c.Holds d.nativeModules)
    (hs : c.report d sent ok = some (c', new)) :
    c'.Holds d.nativeModules ∧ ∀ o ∈ new, OfRead o.read o.served := by
  unfold report at hs
  dsimp only at hs
  split at hs
  · rename_i i count k read hphase
    obtain ⟨rfl, rfl⟩ := Prod.mk.inj (Option.some.inj hs)
    exact ⟨(hc.reported k _).rest (next_askFrom ..),
      ofRead_report (hc.phase i read (by rw [hphase]; rfl))⟩
  · rename_i k count i read hphase
    obtain ⟨rfl, rfl⟩ := Prod.mk.inj (Option.some.inj hs)
    exact ⟨(hc.reported k _).rest (next_syncFrom ..),
      ofRead_report (hc.phase i read (by rw [hphase]; rfl))⟩
  · cases hs

/-- A companion connection leaves the modules, and every process its place; it is with a
companion of the module that was read about. -/
theorem holds_companion {env : Env} (hc : c.Holds d.nativeModules)
    (hplaces : Keeps NativeModule.hasCompanion sameModule d.nativeCompanions d.nativeModules)
    (hs : c.companion d k env = some (d', new)) : d'.nativeModules = d.nativeModules ∧
      Keeps NativeModule.hasCompanion sameModule d'.nativeCompanions d.nativeModules ∧
      ∀ o ∈ new, OfRead o.read o.served := by
  obtain ⟨h, hk, hout⟩ := Option.map_eq_some_iff.mp hs
  split_ifs at hout with hconnects
  · obtain ⟨rfl, rfl⟩ := Prod.mk.inj hout
    refine ⟨rfl, hplaces, ?_⟩
    intro o ho
    cases ho
  · obtain ⟨rfl, rfl⟩ := Prod.mk.inj hout
    refine ⟨rfl, keeps_ensure hplaces sameModule_refl, ?_⟩
    intro o ho
    obtain ⟨p, hp, rfl⟩ := List.mem_map.mp ho
    obtain ⟨m, hm, hw, hpm⟩ := same_of_handOut hplaces sameModule_refl (Option.mem_toList.mp hp)
    obtain ⟨r, hr, hrm⟩ := hc.handles h (List.mem_of_getElem? hk) (by simpa using hconnects) m hm hw
    exact ⟨r, hr, hrm.1.trans hpm.1.symm, hrm.2.trans hpm.2.symm⟩

/-- What any request keeps, and what it gets. -/
structure Kept (d : Lists) (c' : Core) (d' : Lists) (new : List Obtained) : Prop where
  modules : d'.nativeModules = d.nativeModules
  holds : c'.Holds d.nativeModules
  places : Keeps NativeModule.hasCompanion sameModule d'.nativeCompanions d.nativeModules
  obtained : ∀ o ∈ new, OfRead o.read o.served

/-- **One request**, of any kind. -/
theorem kept_step {a : CoreAct} (hc : c.Holds d.nativeModules)
    (hplaces : Keeps NativeModule.hasCompanion sameModule d.nativeCompanions d.nativeModules)
    (hs : c.step d a = some (c', d', new)) : Kept d c' d' new := by
  cases a with
  | count answered =>
    obtain ⟨c', hcount, heq⟩ := Option.map_eq_some_iff.mp hs
    obtain ⟨rfl, rfl, rfl⟩ := by simpa only [Prod.mk.injEq] using heq
    exact ⟨rfl, holds_count hc hcount, hplaces, fun o ho => by cases ho⟩
  | info answered =>
    obtain ⟨c', hinfo, heq⟩ := Option.map_eq_some_iff.mp hs
    obtain ⟨rfl, rfl, rfl⟩ := by simpa only [Prod.mk.injEq] using heq
    exact ⟨rfl, holds_info hc hinfo, hplaces, fun o ho => by cases ho⟩
  | fetch copied loads =>
    obtain ⟨⟨c', new⟩, hfetch, heq⟩ := Option.map_eq_some_iff.mp hs
    obtain ⟨rfl, rfl, rfl⟩ := by simpa only [Prod.mk.injEq] using heq
    obtain ⟨hholds, hnew⟩ := holds_fetch hc hfetch
    exact ⟨rfl, hholds, hplaces, hnew⟩
  | report sent ok =>
    obtain ⟨⟨c', new⟩, hreport, heq⟩ := Option.map_eq_some_iff.mp hs
    obtain ⟨rfl, rfl, rfl⟩ := by simpa only [Prod.mk.injEq] using heq
    obtain ⟨hholds, hnew⟩ := holds_report hc hreport
    exact ⟨rfl, hholds, hplaces, hnew⟩
  | companion k env =>
    obtain ⟨⟨d', new⟩, hcompanion, heq⟩ := Option.map_eq_some_iff.mp hs
    obtain ⟨rfl, rfl, rfl⟩ := by simpa only [Prod.mk.injEq] using heq
    obtain ⟨hmodules, hkeeps, hnew⟩ := holds_companion hc hplaces hcompanion
    exact ⟨hmodules, hc, hkeeps, hnew⟩

/-- The core at its start has read nothing, and asks for no companion. -/
theorem holds_init (exe : List UInt8) (early : List (List UInt8)) :
    (coreInit exe early).Holds l where
  phase i read hi := by cases hi
  handles h hh hconnects := by
    obtain ⟨moduleId, -, rfl⟩ := List.mem_map.mp hh
    cases hconnects

end Core

/-! ## 5. Whole runs -/

/-- The invariant. -/
structure Right (s : NativeRun) : Prop where
  reads : ReadsHold s
  obtained : ∀ o ∈ s.obtained, OfRead o.read o.served

/-- The invariant holds in every run whose scans keep what was read. -/
theorem right_invariant : nativeClients.Invariant KeepsReads Right where
  init s hs := by
    obtain ⟨⟨elfClass, hlists⟩, hcores, hobtained⟩ := hs
    refine ⟨⟨fun c hc => ?_, ?_⟩, ?_⟩
    · obtain ⟨exe, early, rfl⟩ := hcores c hc
      exact Core.holds_init exe early
    · rw [hlists]
      intro i p m hp
      cases hp
    · rw [hobtained]
      intro o ho
      cases ho
  step s a s' hI hP hs := by
    cases a with
    | rescan scanned nativeScanned =>
      obtain rfl := Option.some.inj hs
      exact ⟨hP, hI.obtained⟩
    | core i a =>
      obtain ⟨c, hc, hcore⟩ := Option.bind_eq_some_iff.mp hs
      obtain ⟨⟨c', d', new⟩, hstep, rfl⟩ := Option.map_eq_some_iff.mp hcore
      have hkept :=
        Core.kept_step (hI.reads.cores c (List.mem_of_getElem? hc)) hI.reads.places hstep
      refine ⟨⟨?_, ?_⟩, ?_⟩
      · intro c'' hmem
        dsimp only
        rw [hkept.modules]
        rcases List.mem_or_eq_of_mem_set hmem with hold | rfl
        · exact hI.reads.cores c'' hold
        · exact hkept.holds
      · dsimp only
        rw [hkept.modules]
        exact hkept.places
      · intro o ho
        rcases List.mem_append.mp ho with hnew | hold
        · exact hkept.obtained o hnew
        · exact hI.obtained o hold

/-- **What a process gets belongs to the module it read about, in a run whose scans leave it
there.** -/
theorem sameModules_of_keepsReads {P : NativeRun → NativeAct → Prop}
    (hP : ∀ s a, P s a → KeepsReads s a) : SameModules P :=
  fun _ hr => ((hr.mono hP).invariant right_invariant).obtained

/-- Two modules for the file `/a`, in libraries of 64 bits. -/
def sampleScan : List (NativeModule × UInt8) :=
  [(⟨[97], nativeTargetPath, [Native.slash, 97], [1], false⟩, elfClass64),
    (⟨[98], nativeTargetPath, [Native.slash, 97], [2], false⟩, elfClass64)]

/-- A scan comes before the first request: a test of a step. -/
def scansFirst (s : NativeRun) : NativeAct → Bool
  | .rescan _ _ =>
    (s.cores.all fun c => decide (c.phase = .start) && c.handles.isEmpty) &&
      s.lists.nativeCompanions.isEmpty
  | .core _ _ => true

def ScansFirst (s : NativeRun) (a : NativeAct) : Prop := scansFirst s a = true

/-- Where all scans come first, a process gets the library and makes the report of the module it
read about. -/
theorem sameModules_scansFirst : ∃ s, nativeClients.Reach ScansFirst s ∧ s.obtained.length = 2 ∧
    ∀ o ∈ s.obtained, OfRead o.read o.served := by
  have hall : SameModules ScansFirst := by
    refine sameModules_of_keepsReads ?_
    intro s a h
    cases a with
    | core => trivial
    | rescan scanned nativeScanned =>
      simp only [ScansFirst, scansFirst, Bool.and_eq_true, List.all_eq_true, decide_eq_true_eq,
        List.isEmpty_iff] at h
      refine ⟨fun c hc => ⟨fun i read hi => ?_, fun h' hh => ?_⟩, ?_⟩
      · rw [(h.1 c hc).1] at hi
        cases hi
      · rw [(h.1 c hc).2] at hh
        cases hh
      · intro i p m hp
        have hnone : s.lists.nativeCompanions[i]? = some ⟨some p, true⟩ := hp
        rw [h.2] at hnone
        cases hnone
  have hinit : nativeClients.init ⟨listsInit elfClass64, [coreInit [Native.slash, 97] []], []⟩ :=
    ⟨⟨elfClass64, rfl⟩, fun c hc => ⟨_, _, List.mem_singleton.mp hc⟩, rfl⟩
  have hrun : ((nativeClients.restrict scansFirst).exec
      ⟨listsInit elfClass64, [coreInit [Native.slash, 97] []], []⟩
      [.rescan [] sampleScan, .core 0 (.count true), .core 0 (.info true),
        .core 0 (.fetch true true), .core 0 (.report true true)]).any
      (fun s => decide (s.obtained.length = 2)) = true := by
    decide +kernel
  obtain ⟨s, hr, hp⟩ := Lts.exists_reach_of_guarded (P := ScansFirst) (fun _ _ => id) hinit _ _
    hrun
  exact ⟨s, hr, of_decide_eq_true hp, hall s hr⟩

/-- **A scan between the info and the library.**  The process reads about the first module and
gets the library of the second. -/
theorem not_sameModules : ¬ SameModules Lts.anyStep := by
  intro h
  have hinit : nativeClients.init ⟨listsInit elfClass64, [coreInit [Native.slash, 97] []], []⟩ :=
    ⟨⟨elfClass64, rfl⟩, fun c hc => ⟨_, _, List.mem_singleton.mp hc⟩, rfl⟩
  have hrun : (nativeClients.exec ⟨listsInit elfClass64, [coreInit [Native.slash, 97] []], []⟩
      [.rescan [] sampleScan, .core 0 (.count true), .core 0 (.info true),
        .rescan [] sampleScan.reverse, .core 0 (.fetch true true)]).any
      (fun s => s.obtained.any fun o =>
        o.read.all fun r => decide (r.moduleId ≠ o.served.moduleId)) = true := by
    decide +kernel
  obtain ⟨s, hr, hp⟩ := Lts.exists_reach_of_exec hinit _ _ hrun
  obtain ⟨o, ho, hbad⟩ := List.any_eq_true.mp hp
  obtain ⟨r, hread, hsame⟩ := h s hr o ho
  rw [hread] at hbad
  exact of_decide_eq_true hbad hsame.1

end YukiZygisk.Daemon
