/-
# Modules in a specialised process (`zygisk/core/src/core.cpp`, `hook.cpp`)

A forked child decides whether it runs modules.  If it does, it fetches every module's image from
the daemon, opens it with the built-in loader or with the system linker, calls its entry, runs the
callbacks before and after the native specialisation, closes the libraries whose modules asked for
it, hides the others from the linker, and unmaps the core when no module is left.  A child zygote
keeps the core and its modules, and its own children go through the same steps again.

What the core does is written down as a TRACE: the descriptors and libraries it takes and drops, the
calls into module code, the requests that arm and restore the load policy, and the native
specialisation.  All of it is at the level of the core's calls: a library is dropped when the core
calls `dlclose`, whatever the linker then does, and the core destroys itself when it calls
`zygisk_self_destruct`.  The results are about the traces of every line of descent, for all answers
of the daemon and of the linkers and for all that module code calls:

* `libraries_accounted`: nothing leaks, nothing is closed twice, and no callback runs in a library
  that is not open;
* `policy_restored`: no native specialisation runs under an armed load policy, as long as the daemon
  does what it is asked to when the policy is to be restored;
* `destruct_settled`: the core calls for its end only when every library is closed;
* `core_dropped_iff`: it does so in an app when each of its modules asked to be closed.

The trace is replayed in two ways.  The LEDGER of resources gives the first: `Sound` says that it
balances to the libraries of the modules with a handle, every part of a specialisation keeps that,
and a descent is a run of parts.  The POLICY gives the second: `Inner` says that a part leaves the
policy as the core's flag has it, which only a restoring that fails does not.  The core clears the
flag whether the daemon has restored the policy or not, so there the condition is needed.  The last
two come from what each call of a module can change: the options of that module and no other.
-/
import Mathlib
import YukiZygisk.Lib.Lts
import YukiZygisk.Lib.Ledger

namespace YukiZygisk.ModuleLife

/-! ## 1. Modules and what the core notes down -/

/-- The callbacks of a `module_abi` that are not null, with its `api_version`. -/
structure ModuleAbi where
  apiVersion : Int
  preAppSpecialize : Bool
  postAppSpecialize : Bool
  preServerSpecialize : Bool
  postServerSpecialize : Bool
  deriving DecidableEq

/-- `zygisk::Option`. -/
inductive ModuleOption where
  | forceDenylistUnmount
  | dlcloseModuleLibrary
  deriving DecidableEq

/-- `1u << static_cast<int>(opt)`. -/
def ModuleOption.bit : ModuleOption → UInt32
  | .forceDenylistUnmount => (1 : UInt32) <<< 0
  | .dlcloseModuleLibrary => (1 : UInt32) <<< 1

/-- `Module`.  `library` names the library that `handle` stands for and that holds the object
`abi` points to; it stays when both are cleared. -/
structure Module where
  id : Nat
  library : Nat
  handle : Bool
  abi : Option ModuleAbi
  version : Int
  linkerAnchor : Bool
  yukiLoaded : Bool
  /-- the slot of `getModuleDir` in `api` is filled -/
  moduleDir : Bool
  option : UInt32
  deriving DecidableEq

/-- What the core takes and has to give back. -/
inductive Resource where
  | socket
  | dirFd
  | moduleFd
  | memfd
  | library (n : Nat)
  deriving DecidableEq

/-- What the core does. -/
inductive Event where
  | take (r : Resource)
  /-- it calls `close` or `dlclose` -/
  | drop (r : Resource)
  /-- code of this library runs: its entry or a callback -/
  | call (library : Nat)
  /-- `drop_lib_containing` makes the linker forget this library and keeps its mapping; a `dlclose`
  that comes later finds nothing to close -/
  | hide (library : Nat)
  | arm
  | restore
  | native
  /-- it calls `zygisk_self_destruct` -/
  | destruct
  deriving DecidableEq

/-- The globals of the core that the life of modules depends on. -/
structure Core where
  modules : List Module
  /-- `g_cur` -/
  cur : Option Nat
  /-- `g_module_policy_armed` -/
  armed : Bool
  /-- names for libraries opened later -/
  next : Nat
  /-- whether this process will fork and specialise further children -/
  zygote : Bool
  trace : List Event
  deriving DecidableEq

/-- The core in a zygote that has loaded no module. -/
def Core.fresh : Core := ⟨[], none, false, 0, true, []⟩

def Core.note (es : List Event) (c : Core) : Core := { c with trace := c.trace ++ es }

/-! ## 2. Requests and the API of modules -/

/-- What becomes of a request for a descriptor. -/
inductive FdAnswer where
  | noDaemon
  | refused
  | fd
  deriving DecidableEq

/-- `zd_request_fd`, and the same steps in `load_modules_impl`: a socket for each request. -/
def requestFd (r : Resource) : FdAnswer → List Event
  | .noDaemon => []
  | .refused => [.take .socket, .drop .socket]
  | .fd => [.take .socket, .take r, .drop .socket]

/-- A call that module code makes through its API table. -/
inductive ApiCall where
  | setOption (opt : ModuleOption)
  | getModuleDir (a : FdAnswer)
  | connectCompanion (a : FdAnswer)
  deriving DecidableEq

/-- `api_set_option` for `g_cur`. -/
def apiSetOption (opt : ModuleOption) (c : Core) : Core :=
  match c.cur with
  | some p =>
    { c with modules := c.modules.modify p fun m => { m with option := m.option ||| opt.bit } }
  | none => c

/-- The socket of a request whose descriptor goes to the module. -/
def requestFor : FdAnswer → List Event
  | .noDaemon => []
  | _ => [.take .socket, .drop .socket]

/-- `api_get_module_dir`: a descriptor arms the load policy. -/
def apiGetModuleDir (a : FdAnswer) (c : Core) : Core :=
  if c.cur.isNone then c
  else if a = .fd then { c.note (requestFor a ++ [.arm]) with armed := true }
  else c.note (requestFor a)

/-- `api_connect_companion`. -/
def apiConnectCompanion (a : FdAnswer) (c : Core) : Core :=
  if c.cur.isNone then c else c.note (requestFor a)

/-- A call through the table of the module at `p`.  `RegisterModuleImpl` fills the slots; an empty
slot does nothing. -/
def apiCall (p : Nat) (c : Core) (call : ApiCall) : Core :=
  match c.modules[p]? with
  | none => c
  | some m =>
    match call with
    | .setOption opt => if m.version = 0 then c else apiSetOption opt c
    | .getModuleDir a => if !m.moduleDir then c else apiGetModuleDir a c
    | .connectCompanion a => if m.version = 0 then c else apiConnectCompanion a c

/-- `RegisterModuleImpl` for the module being loaded, which is the one at `p`.  A slot that was
filled stays so when the module registers again with a lower version. -/
def registerModule (p : Nat) (abi : Option ModuleAbi) (c : Core) : Core :=
  match abi with
  | none => c
  | some abi =>
    if abi.apiVersion < 1 ∨ 5 < abi.apiVersion then c
    else { c with
      modules := c.modules.modify p fun m =>
        { m with
          abi := some abi
          version := abi.apiVersion
          moduleDir := m.moduleDir || decide (2 ≤ abi.apiVersion) }
      cur := some p }

/-! ## 3. Loading -/

/-- What `zygisk_module_entry` does. -/
inductive EntryAct where
  | register (abi : Option ModuleAbi)
  | call (call : ApiCall)

def entryAct (p : Nat) (c : Core) : EntryAct → Core
  | .register abi => registerModule p abi c
  | .call call => apiCall p c call

/-- The answers that loading one module meets: the transfer of its image, `make_app_memfd`,
`image_has_tls`, the two loaders (`none`: the image does not open; otherwise whether it has an
entry), and what the entry does. -/
structure Attempt where
  transfer : FdAnswer
  copied : Bool
  tls : Bool
  yuki : Option Bool
  system : Option Bool
  entry : List EntryAct

/-- Which loader opens the image, and whether the entry is found: the built-in loader first, unless
the image has a TLS segment, and the system linker when that one has opened nothing. -/
def Attempt.opened (a : Attempt) : Option (Bool × Bool) :=
  match if a.tls then none else a.yuki with
  | some entry => some (true, entry)
  | none => a.system.map (false, ·)

/-- A module at the end of `g_modules`, just before its entry runs. -/
def newModule (i library : Nat) (yuki : Bool) : Module :=
  ⟨i, library, true, none, 0, !yuki, yuki, false, 0⟩

/-- The entry runs; a module that has not registered is closed and taken out again. -/
def runEntry (i : Nat) (yuki : Bool) (entry : List EntryAct) (c : Core) : Core :=
  let library := c.next
  let p := c.modules.length
  let c := { c.note [.call library] with
    modules := c.modules ++ [newModule i library yuki], next := c.next + 1 }
  let c := entry.foldl (entryAct p) c
  if (c.modules[p]?).any (·.version = 0) then
    { c.note [.drop (.library library)] with modules := c.modules.dropLast }
  else c

/-- What is done with an image in the zygote's own memfd. -/
def openImage (i : Nat) (a : Attempt) (c : Core) : Core :=
  match a.opened with
  | none => c.note [.drop .memfd]
  | some (_, false) =>
    { c.note [.take (.library c.next), .drop .memfd, .drop (.library c.next)] with
      next := c.next + 1 }
  | some (yuki, true) =>
    runEntry i yuki a.entry (c.note [.take (.library c.next), .drop .memfd])

/-- One round of the loop in `load_modules_impl`. -/
def loadModule (c : Core) (i : Nat) (a : Attempt) : Core :=
  let c := c.note (requestFd .moduleFd a.transfer)
  if a.transfer ≠ .fd then c
  else if a.copied then
    openImage i a (c.note [.take .memfd, .drop .moduleFd])
  else c.note [.drop .moduleFd]

/-- `arm_module_load_policy`. -/
def armModuleLoadPolicy (a : FdAnswer) (c : Core) : Core :=
  if c.armed then c
  else if a = .fd then { c.note (requestFd .dirFd a ++ [.drop .dirFd, .arm]) with armed := true }
  else c.note (requestFd .dirFd a)

/-- What the daemon answers to `load_modules_impl`: whether it can be asked for its configuration,
the number of modules (`none` when it cannot be asked), the directory for the load policy, and the
modules. -/
structure Load where
  config : Bool
  count : Option (Option Nat)
  dir : FdAnswer
  attempts : Nat → Attempt

def kMaxModules : Nat := 1024

/-- `zd_load_config`, of the socket. -/
def zdLoadConfig (connects : Bool) (c : Core) : Core :=
  if connects then c.note [.take .socket, .drop .socket] else c

/-- `load_modules_impl`.  The outer `none` of the count is a daemon that cannot be connected to, the
inner one a request that fails. -/
def loadModules (l : Load) (c : Core) : Core :=
  if c.modules ≠ [] then c
  else
    let c := zdLoadConfig l.config c
    match l.count with
    | none => c
    | some none => c.note [.take .socket, .drop .socket]
    | some (some count) =>
      let c := c.note [.take .socket, .drop .socket]
      let count := min count kMaxModules
      let c := if 0 < count then armModuleLoadPolicy l.dir c else c
      let c := (List.range count).foldl (fun c i => loadModule c i (l.attempts i)) c
      { c with cur := none }

/-! ## 4. Callbacks, unloading and hiding -/

/-- One callback: `g_cur` is the module while its code runs. -/
def callback (wanted : ModuleAbi → Bool) (bodies : Nat → List ApiCall) (c : Core) (p : Nat) : Core :=
  match c.modules[p]? with
  | none => c
  | some m =>
    if m.abi.any wanted then
      (bodies p).foldl (apiCall p) { c.note [.call m.library] with cur := some p }
    else c

/-- The loops over `g_modules` in the four `run_*_impl` functions. -/
def callbacks (wanted : ModuleAbi → Bool) (bodies : Nat → List ApiCall) (c : Core) : Core :=
  { (List.range c.modules.length).foldl (callback wanted bodies) c with cur := none }

/-- What becomes of the request to restore the load policy. -/
inductive RestoreAnswer where
  | noDaemon
  | refused
  | restored
  deriving DecidableEq

/-- `zd_restore_load_policy`. -/
def zdRestoreLoadPolicy : RestoreAnswer → List Event
  | .noDaemon => []
  | .refused => [.take .socket, .drop .socket]
  | .restored => [.take .socket, .restore, .drop .socket]

/-- `zd_restore_module_load_policy`: the flag is cleared whatever the daemon answers. -/
def restoreModuleLoadPolicy (a : RestoreAnswer) (c : Core) : Core :=
  if c.armed then { c.note (zdRestoreLoadPolicy a) with armed := false } else c

/-- The test of `unload_requested_modules`. -/
def Module.unloads (m : Module) : Bool :=
  m.handle && (m.option &&& ModuleOption.dlcloseModuleLibrary.bit != 0)

def Module.unload (m : Module) : Module :=
  if m.unloads then { m with handle := false, abi := none } else m

/-- `unload_requested_modules`. -/
def unloadRequestedModules (c : Core) : Core :=
  { c.note ((c.modules.filter (·.unloads)).map fun m => .drop (.library m.library)) with
    modules := c.modules.map Module.unload }

/-- The test of `hide_injection`. -/
def Module.hides (m : Module) : Bool := m.handle && !m.yukiLoaded && m.linkerAnchor

def Module.hide (m : Module) : Module := if m.hides then { m with linkerAnchor := false } else m

/-- `hide_injection`, of the modules. -/
def hideInjection (c : Core) : Core :=
  { c.note ((c.modules.filter (·.hides)).map fun m => .hide m.library) with
    modules := c.modules.map Module.hide }

/-! ## 5. Specialisation -/

/-- `zygisk_inject_decision`: 0 injects, 1 injects and unmounts, 2 skips and unmounts. -/
def injectDecision (onDenylist : Bool) (denylistMode : Nat) : Nat :=
  if onDenylist then
    if denylistMode = 1 then 2 else if denylistMode = 2 then 1 else 0
  else 0

/-- `is_isolated`. -/
def isIsolated (uid : Int) : Bool :=
  let appId := uid.tmod 100000
  decide (90000 ≤ appId ∧ appId ≤ 99999)

/-- `forked_decision` in a child. -/
def forkedDecision (uid : Int) (onDenylist : Bool) (denylistMode : Nat) : Nat :=
  if isIsolated uid then 2 else injectDecision onDenylist denylistMode

/-- `zygisk_app_core_unload_safe`. -/
def appCoreUnloadSafe (c : Core) : Bool := c.modules.all fun m => !m.handle

/-- What one specialisation meets: the process, the daemon's answers, and the code of the modules
in its callbacks. -/
structure Specialization where
  uid : Int
  onDenylist : Bool
  denylistMode : Nat
  isChildZygote : Bool
  load : Load
  restore : RestoreAnswer
  pre : Nat → List ApiCall
  post : Nat → List ApiCall

def Specialization.runModules (s : Specialization) : Bool :=
  !isIsolated s.uid && forkedDecision s.uid s.onDenylist s.denylistMode != 2

/-- `zygisk_load_modules` and `run_app_pre_impl`. -/
def beforeApp (s : Specialization) (c : Core) : Core :=
  restoreModuleLoadPolicy s.restore
    (callbacks (·.preAppSpecialize) s.pre (loadModules s.load c))

/-- `run_app_post_impl`. -/
def runAppPost (s : Specialization) (c : Core) : Core :=
  hideInjection (unloadRequestedModules (callbacks (·.postAppSpecialize) s.post c))

/-- `finish_app_child`, of the core: a child zygote keeps it, and so does a process with a module
that stays. -/
def finishAppChild (s : Specialization) (c : Core) : Core :=
  if s.isChildZygote || !appCoreUnloadSafe c then { c with zygote := s.isChildZygote }
  else { c.note [.destruct] with zygote := false }

/-- The wrappers of `nativeForkAndSpecialize` (in the child) and `nativeSpecializeAppProcess`. -/
def specializeApp (s : Specialization) (c : Core) : Core :=
  let c := if s.runModules then beforeApp s c else c
  let c := c.note [.native]
  let c := if s.runModules then runAppPost s c else c
  finishAppChild s c

/-- The wrapper of `nativeForkSystemServer`, in the child. -/
def specializeServer (s : Specialization) (c : Core) : Core :=
  let c := restoreModuleLoadPolicy s.restore
    (callbacks (·.preServerSpecialize) s.pre (loadModules s.load c))
  let c := c.note [.native]
  let c := callbacks (·.postServerSpecialize) s.post c
  { hideInjection (unloadRequestedModules c) with zygote := false }

/-- What a process of the line of descent becomes. -/
inductive Act where
  | app (s : Specialization)
  | server (s : Specialization)

/-- The line of descent: a zygote's child specialises; as a child zygote it has children again. -/
def descent : Lts Core Act where
  init c := c = .fresh
  step c a :=
    if c.zygote then
      match a with
      | .app s => some (specializeApp s c)
      | .server s => some (specializeServer s c)
    else none

/-! ## 6. Libraries and descriptors -/

/-- The entries that an event makes in the ledger.  A call and a hiding need the library: they give
it back and take it again. -/
def Event.entries : Event → List (Ledger.Event Resource)
  | .take r => [.acquire r]
  | .drop r => [.release r]
  | .call n => [.release (.library n), .acquire (.library n)]
  | .hide n => [.release (.library n), .acquire (.library n)]
  | .arm => []
  | .restore => []
  | .native => []
  | .destruct => []

def ledger (es : List Event) : List (Ledger.Event Resource) := es.flatMap Event.entries

/-- The libraries behind the handles of a list of modules. -/
def openOf (ms : List Module) : Multiset Resource :=
  ((ms.filter (·.handle)).map fun m => Resource.library m.library : List Resource)

def Core.held (c : Core) : Multiset Resource := openOf c.modules

/-- A module with callbacks is open and has registered. -/
def Owned (ms : List Module) : Prop := ∀ m ∈ ms, m.abi.isSome → m.handle = true ∧ 1 ≤ m.version

/-- The ledger of the trace balances to the open libraries of the modules and `rest`. -/
structure Sound (rest : Multiset Resource) (c : Core) : Prop where
  accounted : Ledger.run 0 (ledger c.trace) = some (rest + c.held)
  owned : Owned c.modules

variable {c c' : Core} {rest rest' : Multiset Resource} {p : Nat} {m : Module}

@[simp] theorem ledger_append (es es' : List Event) : ledger (es ++ es') = ledger es ++ ledger es' :=
  List.flatMap_append ..

@[simp] theorem openOf_append (ms ms' : List Module) : openOf (ms ++ ms') = openOf ms + openOf ms' := by
  simp [openOf]

@[simp] theorem note_modules (es : List Event) (c : Core) : (c.note es).modules = c.modules := rfl

@[simp] theorem note_held (es : List Event) (c : Core) : (c.note es).held = c.held := rfl

@[simp] theorem note_trace (es : List Event) (c : Core) : (c.note es).trace = c.trace ++ es := rfl

/-- Noting events that the ledger allows. -/
theorem Sound.note (h : Sound rest c) {es : List Event}
    (hes : Ledger.run (rest + c.held) (ledger es) = some (rest' + c.held)) :
    Sound rest' (c.note es) := by
  constructor
  · rw [note_trace, ledger_append, Ledger.run_append, h.accounted]
    exact hes
  · exact h.owned

/-- A change of modules that keeps what is open and who owns it. -/
theorem Sound.keep (h : Sound rest c) (ht : c'.trace = c.trace) (hh : c'.held = c.held)
    (ho : Owned c'.modules) : Sound rest c' := by
  constructor
  · rw [ht, hh]
    exact h.accounted
  · exact ho

theorem run_requestFor (a : FdAnswer) (held : Multiset Resource) :
    Ledger.run held (ledger (requestFor a)) = some held := by
  cases a <;> simp [requestFor, ledger, Event.entries]

theorem run_requestFd (r : Resource) (a : FdAnswer) (held : Multiset Resource) :
    Ledger.run held (ledger (requestFd r a)) = some (if a = .fd then r ::ₘ held else held) := by
  cases a
  · simp [requestFd, ledger]
  · simp [requestFd, ledger, Event.entries]
  · simp [requestFd, ledger, Event.entries, Multiset.cons_swap r]

/-! ## 7. What module code changes -/

/-- Which library a module is in and whether it is open. -/
def Module.frame (m : Module) : Nat × Bool := (m.library, m.handle)

theorem openOf_congr {ms ms' : List Module} (h : ms.map Module.frame = ms'.map Module.frame) :
    openOf ms = openOf ms' := by
  have hframe : ∀ l : List Module, openOf l =
      ((l.map Module.frame).filter Prod.snd).map fun f => Resource.library f.1 := by
    intro l
    induction l with
    | nil => rfl
    | cons m l ih =>
      cases hm : m.handle <;>
        simpa [openOf, Module.frame, hm, List.filter_cons] using ih
  rw [hframe, hframe, h]

theorem map_modify {β : Type*} {g : Module → β} {f : Module → Module} (ms : List Module) (p : Nat)
    (h : ∀ m, g (f m) = g m) : (ms.modify p f).map g = ms.map g := by
  apply List.ext_getElem?
  intro i
  rw [List.getElem?_map, List.getElem?_map, List.getElem?_modify]
  cases ms[i]? with
  | none => rfl
  | some m => by_cases hi : p = i <;> simp [hi, h]

theorem Owned.modify {ms : List Module} {f : Module → Module} (h : Owned ms)
    (hf : ∀ m, ms[p]? = some m → (m.abi.isSome → m.handle = true ∧ 1 ≤ m.version) →
      (f m).abi.isSome → (f m).handle = true ∧ 1 ≤ (f m).version) : Owned (ms.modify p f) := by
  intro m' hm'
  obtain ⟨i, hi⟩ := List.mem_iff_getElem?.mp hm'
  rw [List.getElem?_modify] at hi
  cases hms : ms[i]? with
  | none => simp [hms] at hi
  | some m =>
    have hm := h m (List.mem_of_getElem? hms)
    by_cases hp : p = i
    · subst hp
      obtain rfl : f m = m' := by simpa [hms] using hi
      exact hf m hms hm
    · obtain rfl : m = m' := by simpa [hms, hp] using hi
      exact hm

theorem frames_apiCall (p : Nat) (c : Core) (call : ApiCall) :
    (apiCall p c call).modules.map Module.frame = c.modules.map Module.frame := by
  unfold apiCall
  cases c.modules[p]? with
  | none => rfl
  | some m =>
    cases call with
    | setOption opt =>
      simp only [apiSetOption]
      split_ifs
      · rfl
      · cases c.cur with
        | none => rfl
        | some q => exact map_modify _ _ fun _ => rfl
    | getModuleDir a =>
      simp only [apiGetModuleDir]
      split_ifs <;> rfl
    | connectCompanion a =>
      simp only [apiConnectCompanion]
      split_ifs <;> rfl

/-- A call of a module changes no handle and takes what it gives back. -/
theorem sound_apiCall (h : Sound rest c) (p : Nat) (call : ApiCall) :
    Sound rest (apiCall p c call) := by
  unfold apiCall
  cases c.modules[p]? with
  | none => exact h
  | some m =>
    cases call with
    | setOption opt =>
      simp only [apiSetOption]
      split_ifs
      · exact h
      · cases c.cur with
        | none => exact h
        | some q =>
          apply h.keep
          · rfl
          · exact openOf_congr (map_modify _ _ fun _ => rfl)
          · exact h.owned.modify fun _ _ hm => hm
    | getModuleDir a =>
      simp only [apiGetModuleDir]
      split_ifs
      · exact h
      · exact h
      · have hnote : Sound rest (c.note (requestFor a ++ [.arm])) := by
          apply h.note
          rw [ledger_append, Ledger.run_append, run_requestFor]
          rfl
        exact ⟨hnote.accounted, hnote.owned⟩
      · exact h.note (run_requestFor a _)
    | connectCompanion a =>
      simp only [apiConnectCompanion]
      split_ifs
      · exact h
      · exact h
      · exact h.note (run_requestFor a _)

/-- Calls from one body leave every library where it is. -/
theorem frames_body (p : Nat) (calls : List ApiCall) (c : Core) :
    (calls.foldl (apiCall p) c).modules.map Module.frame = c.modules.map Module.frame := by
  induction calls generalizing c with
  | nil => rfl
  | cons call calls ih => exact (ih _).trans (frames_apiCall p c call)

/-- They keep the ledger balanced. -/
theorem sound_body (h : Sound rest c) (p : Nat) (calls : List ApiCall) :
    Sound rest (calls.foldl (apiCall p) c) := by
  induction calls generalizing c with
  | nil => exact h
  | cons call calls ih => exact ih (sound_apiCall h p call)

/-! ## 8. Loading -/

/-- Registering is refused, or gives the module its callbacks. -/
theorem registerModule_cases (p : Nat) (abi : Option ModuleAbi) (c : Core) :
    registerModule p abi c = c ∨ ∃ a : ModuleAbi, 1 ≤ a.apiVersion ∧
      registerModule p abi c = { c with
        modules := c.modules.modify p fun m =>
          { m with
            abi := some a
            version := a.apiVersion
            moduleDir := m.moduleDir || decide (2 ≤ a.apiVersion) }
        cur := some p } := by
  cases abi with
  | none => exact .inl rfl
  | some a =>
    simp only [registerModule]
    split_ifs with hv
    · exact .inl rfl
    · right
      exact ⟨a, by omega, rfl⟩

/-- While an entry runs, its module is the last of the list and its library is open. -/
structure Loading (ms : List Module) (library : Nat) (c : Core) : Prop where
  sound : Sound 0 c
  frames : c.modules.map Module.frame = ms.map Module.frame ++ [(library, true)]

/-- The module whose entry runs is the last one, and is open. -/
theorem Loading.last {ms : List Module} {library : Nat} (h : Loading ms library c)
    (hm : c.modules[ms.length]? = some m) : m.frame = (library, true) := by
  have hget := congrArg (·[ms.length]?) h.frames
  rw [List.getElem?_map, hm] at hget
  simpa using hget

theorem loading_entryAct {ms : List Module} {library : Nat} (h : Loading ms library c)
    (act : EntryAct) : Loading ms library (entryAct ms.length c act) := by
  cases act with
  | call call =>
    exact ⟨sound_apiCall h.sound _ call, (frames_apiCall _ c call).trans h.frames⟩
  | register abi =>
    obtain heq | ⟨a, ha, heq⟩ := registerModule_cases ms.length abi c
    · rw [entryAct, heq]
      exact h
    · rw [entryAct, heq]
      constructor
      · apply h.sound.keep
        · rfl
        · exact openOf_congr (map_modify _ _ fun _ => rfl)
        · apply h.sound.owned.modify
          intro m hm _ _
          exact ⟨congrArg Prod.snd (h.last hm), ha⟩
      · rw [← h.frames]
        exact map_modify _ _ fun _ => rfl

/-- What an entry does keeps its library open. -/
theorem loading_foldl {ms : List Module} {library : Nat} (h : Loading ms library c)
    (acts : List EntryAct) : Loading ms library (acts.foldl (entryAct ms.length) c) := by
  induction acts generalizing c with
  | nil => exact h
  | cons act acts ih => exact ih (loading_entryAct h act)

theorem openOf_singleton (m : Module) (h : m.handle = true) :
    openOf [m] = {Resource.library m.library} := by
  simp [openOf, h]

/-- The library that `rest` holds becomes the one of the module, or is closed. -/
theorem sound_runEntry (i : Nat) (yuki : Bool) (entry : List EntryAct)
    (h : Sound {.library c.next} c) : Sound 0 (runEntry i yuki entry c) := by
  let c₁ : Core := { c.note [.call c.next] with
    modules := c.modules ++ [newModule i c.next yuki], next := c.next + 1 }
  have hheld : c₁.held = Resource.library c.next ::ₘ c.held := by
    simp only [Core.held, c₁, openOf_append]
    rw [openOf_singleton _ rfl, add_comm, Multiset.singleton_add]
    rfl
  have h₁ : Loading c.modules c.next c₁ := by
    constructor
    · constructor
      · change Ledger.run 0 (ledger (c.trace ++ [.call c.next])) = _
        rw [hheld, ledger_append, Ledger.run_append, h.accounted]
        simp [ledger, Event.entries]
      · intro m hm
        obtain hm | hm := List.mem_append.mp hm
        · exact h.owned m hm
        · obtain rfl := List.mem_singleton.mp hm
          rintro ⟨⟩
    · simp only [c₁, List.map_append]
      rfl
  have h₂ := loading_foldl h₁ entry
  unfold runEntry
  change Sound 0 (if _ then _ else _)
  split_ifs
  · obtain ⟨ms, l, hml, hms, hl⟩ := List.map_eq_append_iff.mp h₂.frames
    obtain ⟨m, rest, rfl, hm, hrest⟩ := List.map_eq_cons_iff.mp hl
    obtain rfl : rest = [] := by simpa using hrest
    have hlib : m.library = c.next := congrArg Prod.fst hm
    have hopen : openOf (ms ++ [m]) = Resource.library c.next ::ₘ openOf ms := by
      rw [openOf_append, openOf_singleton m (congrArg Prod.snd hm), hlib, add_comm,
        Multiset.singleton_add]
    constructor
    · have hacc := h₂.sound.accounted
      rw [zero_add, Core.held, hml, hopen] at hacc
      change Ledger.run 0 (ledger (_ ++ [Event.drop (.library c.next)])) = _
      rw [ledger_append, Ledger.run_append, hacc]
      simp only [Core.held]
      rw [hml, List.dropLast_concat, zero_add]
      exact Ledger.run_release_held
    · intro m' hm'
      exact h₂.sound.owned m' (List.dropLast_subset _ hm')
  · exact h₂.sound

/-- Opening an image uses its memory file up. -/
theorem sound_openImage (i : Nat) (a : Attempt) (h : Sound {.memfd} c) :
    Sound 0 (openImage i a c) := by
  unfold openImage
  cases a.opened with
  | none =>
    apply h.note
    simp [ledger, Event.entries]
  | some o =>
    obtain ⟨yuki, entry⟩ := o
    cases entry with
    | false =>
      have hn : Sound 0 (c.note [.take (.library c.next), .drop .memfd,
          .drop (.library c.next)]) := by
        apply h.note
        simp [ledger, Event.entries, Multiset.cons_swap _ Resource.memfd]
      exact ⟨hn.accounted, hn.owned⟩
    | true =>
      apply sound_runEntry
      apply h.note
      simp [ledger, Event.entries, Multiset.cons_swap _ Resource.memfd, Core.note]

/-- **Loading a module** gives everything back but the library, which is the module's. -/
theorem sound_loadModule (h : Sound 0 c) (i : Nat) (a : Attempt) : Sound 0 (loadModule c i a) := by
  have ht : Sound (if a.transfer = .fd then {.moduleFd} else 0)
      (c.note (requestFd .moduleFd a.transfer)) := by
    apply h.note
    rw [run_requestFd]
    split_ifs <;> simp
  unfold loadModule
  simp only
  split_ifs with hfd hcopied
  · simpa [hfd] using ht
  · rw [if_pos (not_not.mp hfd)] at ht
    apply sound_openImage
    apply ht.note
    simp [ledger, Event.entries, Multiset.cons_swap _ Resource.moduleFd]
  · rw [if_pos (not_not.mp hfd)] at ht
    apply ht.note
    simp [ledger, Event.entries]

theorem sound_armModuleLoadPolicy (h : Sound 0 c) (a : FdAnswer) :
    Sound 0 (armModuleLoadPolicy a c) := by
  unfold armModuleLoadPolicy
  split_ifs with _ ha
  · exact h
  · have hn : Sound 0 (c.note (requestFd .dirFd a ++ [.drop .dirFd, .arm])) := by
      apply h.note
      rw [ledger_append, Ledger.run_append, run_requestFd, if_pos ha]
      simp [ledger, Event.entries]
    exact ⟨hn.accounted, hn.owned⟩
  · apply h.note
    rw [run_requestFd, if_neg ha]

/-- A socket is opened and closed. -/
theorem sound_socket (h : Sound 0 c) : Sound 0 (c.note [.take .socket, .drop .socket]) := by
  apply h.note
  simp [ledger, Event.entries]

theorem sound_zdLoadConfig (h : Sound 0 c) (connects : Bool) :
    Sound 0 (zdLoadConfig connects c) := by
  cases connects with
  | true => exact sound_socket h
  | false => exact h

/-- Loading all of them. -/
theorem sound_loadModules (h : Sound 0 c) (l : Load) : Sound 0 (loadModules l c) := by
  have hconfig := sound_zdLoadConfig h l.config
  have hsock := sound_socket hconfig
  have hfold : ∀ (is : List Nat) (c : Core), Sound 0 c →
      Sound 0 (is.foldl (fun c i => loadModule c i (l.attempts i)) c) := by
    intro is
    induction is with
    | nil => exact fun _ h => h
    | cons i is ih => exact fun c h => ih _ (sound_loadModule h i _)
  unfold loadModules
  split_ifs
  · exact h
  · match l.count with
    | none => exact hconfig
    | some none => exact hsock
    | some (some count) =>
      simp only
      have harm : Sound 0 (if 0 < min count kMaxModules then
          armModuleLoadPolicy l.dir
            ((zdLoadConfig l.config c).note [.take .socket, .drop .socket])
          else (zdLoadConfig l.config c).note [.take .socket, .drop .socket]) := by
        split_ifs
        · exact sound_armModuleLoadPolicy hsock l.dir
        · exact hsock
      have hall := hfold (List.range (min count kMaxModules)) _ harm
      exact ⟨hall.accounted, hall.owned⟩

/-! ## 9. Callbacks, unloading and hiding keep the ledger -/

theorem mem_openOf {ms : List Module} (hm : m ∈ ms) (h : m.handle = true) :
    Resource.library m.library ∈ openOf ms :=
  Multiset.mem_coe.mpr (List.mem_map.mpr ⟨m, List.mem_filter.mpr ⟨hm, h⟩, rfl⟩)

/-- A callback runs in an open library. -/
theorem sound_callback (h : Sound 0 c) (wanted : ModuleAbi → Bool) (bodies : Nat → List ApiCall)
    (p : Nat) : Sound 0 (callback wanted bodies c p) := by
  unfold callback
  cases hp : c.modules[p]? with
  | none => exact h
  | some m =>
    simp only
    split_ifs with hw
    · have hm : m ∈ c.modules := List.mem_of_getElem? hp
      have hsome : m.abi.isSome := by
        cases habi : m.abi with
        | none => simp [habi] at hw
        | some a => rfl
      have hcall : Sound 0 (c.note [.call m.library]) := by
        apply h.note
        rw [zero_add]
        exact Ledger.run_borrow (mem_openOf hm (h.owned m hm hsome).1)
      have hcur : Sound 0 { c.note [.call m.library] with cur := some p } :=
        ⟨hcall.accounted, hcall.owned⟩
      exact sound_body hcur p (bodies p)
    · exact h

theorem sound_callbacks (h : Sound 0 c) (wanted : ModuleAbi → Bool)
    (bodies : Nat → List ApiCall) : Sound 0 (callbacks wanted bodies c) := by
  have hfold : ∀ (ps : List Nat) (c : Core), Sound 0 c →
      Sound 0 (ps.foldl (callback wanted bodies) c) := by
    intro ps
    induction ps with
    | nil => exact fun _ h => h
    | cons p ps ih => exact fun c h => ih _ (sound_callback h wanted bodies p)
  have hall := hfold (List.range c.modules.length) c h
  exact ⟨hall.accounted, hall.owned⟩

theorem sound_restore (h : Sound 0 c) (a : RestoreAnswer) :
    Sound 0 (restoreModuleLoadPolicy a c) := by
  unfold restoreModuleLoadPolicy
  split_ifs
  · have hn : Sound 0 (c.note (zdRestoreLoadPolicy a)) := by
      apply h.note
      cases a <;> simp [zdRestoreLoadPolicy, ledger, Event.entries]
    exact ⟨hn.accounted, hn.owned⟩
  · exact h

theorem openOf_cons (m : Module) (ms : List Module) :
    openOf (m :: ms) = openOf [m] + openOf ms := openOf_append [m] ms

/-- Closing the libraries of the modules that asked for it leaves the others open. -/
theorem run_unloads (ms : List Module) (rest : Multiset Resource) :
    Ledger.run (rest + openOf ms)
        (ledger ((ms.filter (·.unloads)).map fun m => .drop (.library m.library))) =
      some (rest + openOf (ms.map Module.unload)) := by
  induction ms generalizing rest with
  | nil => rfl
  | cons m ms ih =>
    rw [List.map_cons, openOf_cons m ms, openOf_cons m.unload]
    cases hm : m.unloads with
    | true =>
      have hh : m.handle = true := (Bool.and_eq_true_iff.mp hm).1
      have hclosed : openOf [m.unload] = 0 := by
        rw [Module.unload, if_pos hm]
        rfl
      rw [List.filter_cons_of_pos hm, hclosed, zero_add, openOf_singleton m hh,
        add_left_comm, Multiset.singleton_add]
      exact Ledger.run_release_held.trans (ih rest)
    | false =>
      have hstays : m.unload = m := by rw [Module.unload, if_neg (by simp [hm])]
      rw [List.filter_cons_of_neg (by simp [hm]), hstays, ← add_assoc, ← add_assoc]
      exact ih (rest + openOf [m])

/-- Unloading closes the libraries of the modules that asked for it. -/
theorem sound_unloadRequestedModules (h : Sound 0 c) : Sound 0 (unloadRequestedModules c) := by
  constructor
  · change Ledger.run 0 (ledger (c.trace ++ _)) = _
    rw [ledger_append, Ledger.run_append, h.accounted]
    exact run_unloads c.modules 0
  · intro m' hm'
    obtain ⟨m, hm, rfl⟩ := List.mem_map.mp hm'
    unfold Module.unload
    split_ifs
    · rintro ⟨⟩
    · exact h.owned m hm

theorem frames_hide (ms : List Module) :
    (ms.map Module.hide).map Module.frame = ms.map Module.frame := by
  rw [List.map_map]
  apply List.map_congr_left
  intro m _
  simp only [Function.comp_apply, Module.hide]
  split_ifs <;> rfl

/-- Hiding looks at open libraries, and drops none. -/
theorem sound_hideInjection (h : Sound 0 c) : Sound 0 (hideInjection c) := by
  constructor
  · have hrun : Ledger.run c.held _ = some c.held := Ledger.run_borrows
      ((c.modules.filter (·.hides)).map fun m => Resource.library m.library) (by
        intro r hr
        obtain ⟨m, hm, rfl⟩ := List.mem_map.mp hr
        obtain ⟨hm, hh⟩ := List.mem_filter.mp hm
        simp only [Module.hides, Bool.and_eq_true] at hh
        exact mem_openOf hm hh.1.1)
    change Ledger.run 0 (ledger (c.trace ++ _)) = some (0 + openOf (c.modules.map Module.hide))
    rw [ledger_append, Ledger.run_append, h.accounted, openOf_congr (frames_hide c.modules)]
    simpa [ledger, Event.entries, List.flatMap_map, Core.held] using hrun
  · intro m' hm'
    obtain ⟨m, hm, rfl⟩ := List.mem_map.mp hm'
    unfold Module.hide
    split_ifs
    · exact h.owned m hm
    · exact h.owned m hm

theorem sound_native (h : Sound 0 c) : Sound 0 (c.note [.native]) := by
  apply h.note
  rfl

theorem sound_runAppPost (h : Sound 0 c) (s : Specialization) : Sound 0 (runAppPost s c) :=
  sound_hideInjection (sound_unloadRequestedModules (sound_callbacks h _ _))

theorem sound_finishAppChild (h : Sound 0 c) (s : Specialization) :
    Sound 0 (finishAppChild s c) := by
  unfold finishAppChild
  split_ifs
  · exact ⟨h.accounted, h.owned⟩
  · have hn : Sound 0 (c.note [.destruct]) := by
      apply h.note
      rfl
    exact ⟨hn.accounted, hn.owned⟩

/-- **The child of an app** keeps the ledger. -/
theorem sound_specializeApp (h : Sound 0 c) (s : Specialization) :
    Sound 0 (specializeApp s c) := by
  unfold specializeApp
  apply sound_finishAppChild
  cases s.runModules with
  | true =>
    apply sound_runAppPost
    apply sound_native
    exact sound_restore (sound_callbacks (sound_loadModules h s.load) _ _) s.restore
  | false => exact sound_native h

/-- **The system server** does too. -/
theorem sound_specializeServer (h : Sound 0 c) (s : Specialization) :
    Sound 0 (specializeServer s c) := by
  have hpre : Sound 0 (restoreModuleLoadPolicy s.restore
      (callbacks (·.preServerSpecialize) s.pre (loadModules s.load c))) :=
    sound_restore (sound_callbacks (sound_loadModules h s.load) _ _) s.restore
  have hpost := sound_hideInjection (sound_unloadRequestedModules
    (sound_callbacks (sound_native hpre) (·.postServerSpecialize) s.post))
  unfold specializeServer
  exact ⟨hpost.accounted, hpost.owned⟩

theorem sound_step {a : Act} (h : Sound 0 c) (hstep : descent.step c a = some c') :
    Sound 0 c' := by
  simp only [descent] at hstep
  split_ifs at hstep
  cases a with
  | app s =>
    obtain rfl := Option.some.inj hstep
    exact sound_specializeApp h s
  | server s =>
    obtain rfl := Option.some.inj hstep
    exact sound_specializeServer h s

theorem sound_invariant : descent.Invariant Lts.anyStep (Sound 0) where
  init c hc := by
    obtain rfl := hc
    constructor
    · rfl
    · rintro m ⟨⟩
  step c a c' h _ hstep := sound_step h hstep

/-- **Every descriptor and every library is accounted for.**  In every line of descent the ledger of
the trace balances: a socket or a descriptor that the core took was given back, a library was closed
at most once and only while it was open, code of a library ran only while it was open, and what is
open in the end are the libraries of the modules with a handle. -/
theorem libraries_accounted (h : descent.Reach Lts.anyStep c) :
    Ledger.run 0 (ledger c.trace) =
      some ((c.modules.filter (·.handle)).map fun m => Resource.library m.library : List Resource) := by
  rw [(h.invariant sound_invariant).accounted, zero_add]
  rfl

/-! ## 10. The load policy and the end of the core -/

/-- Whether the load policy is armed after some events; `none` when a native specialisation ran
under it. -/
def policyRun : Bool → List Event → Option Bool
  | armed, [] => some armed
  | _, .arm :: es => policyRun true es
  | _, .restore :: es => policyRun false es
  | armed, .native :: es => if armed then none else policyRun false es
  | armed, .take _ :: es => policyRun armed es
  | armed, .drop _ :: es => policyRun armed es
  | armed, .call _ :: es => policyRun armed es
  | armed, .hide _ :: es => policyRun armed es
  | armed, .destruct :: es => policyRun armed es

/-- A trace is replayed part by part. -/
theorem policyRun_append (armed : Bool) (es es' : List Event) :
    policyRun armed (es ++ es') = (policyRun armed es).bind (policyRun · es') := by
  induction es generalizing armed with
  | nil => rfl
  | cons e es ih =>
    cases e with
    | native => cases armed <;> simp [policyRun, ih]
    | _ => simp [policyRun, ih]

theorem policyRun_plain (armed : Bool) {es : List Event}
    (h : ∀ e ∈ es, e ≠ .arm ∧ e ≠ .restore ∧ e ≠ .native) : policyRun armed es = some armed := by
  induction es generalizing armed with
  | nil => rfl
  | cons e es ih =>
    have he := h e (List.mem_cons_self ..)
    have hes := ih armed fun e' he' => h e' (List.mem_cons_of_mem _ he')
    cases e <;> simp_all [policyRun]

/-- What every part of a specialisation but the last does: the trace grows, the core stays, and
`armed` follows the trace, where `restores` says that the daemon restores the policy when asked. -/
structure Inner (restores : Prop) (c c' : Core) : Prop where
  traced : ∃ es, c'.trace = c.trace ++ es ∧
    (restores → policyRun c.armed es = some c'.armed) ∧ .destruct ∉ es
  zygote : c'.zygote = c.zygote

variable {restores : Prop}

theorem Inner.refl (c : Core) : Inner restores c c :=
  ⟨⟨[], by simp, fun _ => rfl, by simp⟩, rfl⟩

theorem Inner.trans {c'' : Core} (h : Inner restores c c') (h' : Inner restores c' c'') :
    Inner restores c c'' := by
  obtain ⟨es, ht, hp, hd⟩ := h.traced
  obtain ⟨es', ht', hp', hd'⟩ := h'.traced
  constructor
  · refine ⟨es ++ es', by rw [ht', ht, List.append_assoc], ?_, ?_⟩
    · intro hr
      rw [policyRun_append, hp hr]
      exact hp' hr
    · simp [hd, hd']
  · exact h'.zygote.trans h.zygote

theorem Inner.foldl {α : Type*} {f : Core → α → Core} (h : ∀ c a, Inner restores c (f c a))
    (l : List α) (c : Core) : Inner restores c (l.foldl f c) := by
  induction l generalizing c with
  | nil => exact .refl c
  | cons a l ih => exact (h c a).trans (ih _)

/-- A step that notes `es` and sets `armed` as they say. -/
theorem Inner.intro (es : List Event) (ht : c'.trace = c.trace ++ es)
    (hp : policyRun c.armed es = some c'.armed) (hd : .destruct ∉ es) (hz : c'.zygote = c.zygote) :
    Inner restores c c' := ⟨⟨es, ht, fun _ => hp, hd⟩, hz⟩

theorem Inner.note (c : Core) (es : List Event) (hp : policyRun c.armed es = some c.armed)
    (hd : .destruct ∉ es) : Inner restores c (c.note es) := ⟨⟨es, rfl, fun _ => hp, hd⟩, rfl⟩

theorem policyRun_requestFor (armed : Bool) (a : FdAnswer) :
    policyRun armed (requestFor a) = some armed := by
  cases a <;> rfl

theorem policyRun_requestFd (armed : Bool) (r : Resource) (a : FdAnswer) :
    policyRun armed (requestFd r a) = some armed := by
  cases a <;> rfl

/-- Requests are no end of the core. -/
theorem destruct_requestFor (a : FdAnswer) : .destruct ∉ requestFor a := by
  cases a <;> simp [requestFor]

theorem destruct_requestFd (r : Resource) (a : FdAnswer) : .destruct ∉ requestFd r a := by
  cases a <;> simp [requestFd]

/-- A call that arms the policy sets the core's flag. -/
theorem inner_apiCall (p : Nat) (c : Core) (call : ApiCall) :
    Inner restores c (apiCall p c call) := by
  unfold apiCall
  cases c.modules[p]? with
  | none => exact .refl c
  | some m =>
    cases call with
    | setOption opt =>
      simp only [apiSetOption]
      split_ifs
      · exact .refl c
      · cases c.cur with
        | none => exact .refl c
        | some q => exact .intro [] (List.append_nil _).symm rfl (by simp) rfl
    | getModuleDir a =>
      simp only [apiGetModuleDir]
      split_ifs
      · exact .refl c
      · exact .refl c
      · apply Inner.intro (requestFor a ++ [.arm]) rfl
        · rw [policyRun_append, policyRun_requestFor]
          rfl
        · simp [destruct_requestFor]
        · rfl
      · exact .note _ _ (policyRun_requestFor _ a) (destruct_requestFor a)
    | connectCompanion a =>
      simp only [apiConnectCompanion]
      split_ifs
      · exact .refl c
      · exact .refl c
      · exact .note _ _ (policyRun_requestFor _ a) (destruct_requestFor a)

theorem inner_entryAct (p : Nat) (c : Core) (act : EntryAct) :
    Inner restores c (entryAct p c act) := by
  cases act with
  | call call => exact inner_apiCall p c call
  | register abi =>
    obtain heq | ⟨a, -, heq⟩ := registerModule_cases p abi c
    · rw [entryAct, heq]
      exact .refl c
    · rw [entryAct, heq]
      exact .intro [] (List.append_nil _).symm rfl (by simp) rfl

theorem inner_runEntry (i : Nat) (yuki : Bool) (entry : List EntryAct) (c : Core) :
    Inner restores c (runEntry i yuki entry c) := by
  have hpush : Inner restores c { c.note [.call c.next] with
      modules := c.modules ++ [newModule i c.next yuki], next := c.next + 1 } :=
    .intro [.call c.next] rfl rfl (by simp) rfl
  have hrun := hpush.trans (Inner.foldl (inner_entryAct c.modules.length) entry _)
  unfold runEntry
  simp only
  split_ifs
  · exact hrun.trans (.intro [.drop (.library c.next)] rfl rfl (by simp) rfl)
  · exact hrun

theorem inner_loadModule (i : Nat) (a : Attempt) (c : Core) :
    Inner restores c (loadModule c i a) := by
  have hreq : Inner restores c (c.note (requestFd .moduleFd a.transfer)) :=
    .note _ _ (policyRun_requestFd _ _ _) (destruct_requestFd _ _)
  unfold loadModule
  simp only
  split_ifs
  · exact hreq
  · apply (hreq.trans (.note _ [.take .memfd, .drop .moduleFd] rfl (by simp))).trans
    unfold openImage
    cases a.opened with
    | none => exact .note _ [.drop .memfd] rfl (by simp)
    | some o =>
      obtain ⟨yuki, entry⟩ := o
      cases entry with
      | false =>
        exact .intro [.take (.library _), .drop .memfd, .drop (.library _)] rfl rfl (by simp)
          rfl
      | true =>
        apply Inner.trans _ (inner_runEntry i yuki a.entry _)
        exact .note _ [.take (.library _), .drop .memfd] rfl (by simp)
  · exact hreq.trans (.note _ [.drop .moduleFd] rfl (by simp))

/-- Loading leaves the policy as the flag has it. -/
theorem inner_loadModules (l : Load) (c : Core) : Inner restores c (loadModules l c) := by
  have hnote : ∀ c : Core, Inner restores c (c.note [.take .socket, .drop .socket]) :=
    fun c => .note c [.take .socket, .drop .socket] rfl (by simp)
  have hconfig : Inner restores c (zdLoadConfig l.config c) := by
    cases l.config with
    | true => exact hnote c
    | false => exact .refl c
  have hsock := hconfig.trans (hnote _)
  have harm : ∀ c, Inner restores c (armModuleLoadPolicy l.dir c) := by
    intro c
    unfold armModuleLoadPolicy
    split_ifs
    · exact .refl c
    · apply Inner.intro (requestFd .dirFd l.dir ++ [.drop .dirFd, .arm]) rfl
      · rw [policyRun_append, policyRun_requestFd]
        rfl
      · simp [destruct_requestFd]
      · rfl
    · exact .note _ _ (policyRun_requestFd _ _ _) (destruct_requestFd _ _)
  unfold loadModules
  split_ifs
  · exact .refl c
  · match l.count with
    | none => exact hconfig
    | some none => exact hsock
    | some (some count) =>
      simp only
      have hload : ∀ c, Inner restores c ((List.range (min count kMaxModules)).foldl
          (fun c i => loadModule c i (l.attempts i)) c) :=
        Inner.foldl (fun c i => inner_loadModule i _ c) _
      split_ifs
      · have hall := (hsock.trans (harm _)).trans (hload _)
        exact ⟨hall.traced, hall.zygote⟩
      · have hall := hsock.trans (hload _)
        exact ⟨hall.traced, hall.zygote⟩

theorem inner_callbacks (wanted : ModuleAbi → Bool) (bodies : Nat → List ApiCall) (c : Core) :
    Inner restores c (callbacks wanted bodies c) := by
  have hone : ∀ c p, Inner restores c (callback wanted bodies c p) := by
    intro c p
    unfold callback
    cases c.modules[p]? with
    | none => exact .refl c
    | some m =>
      simp only
      split_ifs
      · apply Inner.trans _ (Inner.foldl (inner_apiCall p) (bodies p) _)
        exact .intro [.call m.library] rfl rfl (by simp) rfl
      · exact .refl c
  have hall := Inner.foldl hone (List.range c.modules.length) c
  exact ⟨hall.traced, hall.zygote⟩

/-- The policy follows the flag when the daemon restores it. -/
theorem inner_restore {a : RestoreAnswer} (ha : restores → a = .restored) (c : Core) :
    Inner restores c (restoreModuleLoadPolicy a c) ∧
      (restoreModuleLoadPolicy a c).armed = false := by
  unfold restoreModuleLoadPolicy
  split_ifs with h
  · refine ⟨⟨⟨zdRestoreLoadPolicy a, rfl, fun hr => ?_, ?_⟩, rfl⟩, rfl⟩
    · obtain rfl := ha hr
      rfl
    · cases a <;> simp [zdRestoreLoadPolicy]
  · exact ⟨.refl c, by simpa using h⟩

theorem inner_unload (c : Core) : Inner restores c (unloadRequestedModules c) := by
  apply Inner.intro (c := c) ((c.modules.filter (·.unloads)).map fun m =>
    Event.drop (.library m.library)) rfl
  · apply policyRun_plain
    intro e he
    obtain ⟨m, -, rfl⟩ := List.mem_map.mp he
    simp
  · simp
  · rfl

theorem inner_hide (c : Core) : Inner restores c (hideInjection c) := by
  apply Inner.intro (c := c) ((c.modules.filter (·.hides)).map fun m =>
    Event.hide m.library) rfl
  · apply policyRun_plain
    intro e he
    obtain ⟨m, -, rfl⟩ := List.mem_map.mp he
    simp
  · simp
  · rfl

/-- Up to the native specialisation of an app. -/
theorem inner_beforeApp {s : Specialization} (hs : restores → s.restore = .restored) (c : Core) :
    Inner restores c (beforeApp s c) ∧ (beforeApp s c).armed = false := by
  obtain ⟨hr, ha⟩ := inner_restore hs
    (callbacks (·.preAppSpecialize) s.pre (loadModules s.load c))
  exact ⟨((inner_loadModules s.load c).trans (inner_callbacks _ _ _)).trans hr, ha⟩

theorem inner_runAppPost (s : Specialization) (c : Core) : Inner restores c (runAppPost s c) :=
  ((inner_callbacks _ _ c).trans (inner_unload _)).trans (inner_hide _)

theorem Inner.noDestruct (h : Inner restores c c') (hc : .destruct ∉ c.trace) :
    .destruct ∉ c'.trace := by
  obtain ⟨es, ht, -, hd⟩ := h.traced
  rw [ht]
  simp [hc, hd]

/-- Nothing of a specialisation of an app but its end calls `zygisk_self_destruct`. -/
theorem app_cases (s : Specialization) (c : Core) :
    ∃ c₁, specializeApp s c = finishAppChild s c₁ ∧
      (.destruct ∉ c.trace → .destruct ∉ c₁.trace) := by
  refine ⟨_, rfl, ?_⟩
  intro hc
  have hnative : ∀ c : Core, .destruct ∉ c.trace → .destruct ∉ (c.note [.native]).trace := by
    intro c hc
    simp [hc]
  cases s.runModules with
  | true =>
    have hpost : Inner False _ _ := inner_runAppPost s ((beforeApp s c).note [.native])
    apply hpost.noDestruct
    exact hnative _ ((inner_beforeApp False.elim c).1.noDestruct hc)
  | false => exact hnative c hc

theorem server_noDestruct (s : Specialization) (hc : .destruct ∉ c.trace) :
    .destruct ∉ (specializeServer s c).trace := by
  have hpre : Inner False c (restoreModuleLoadPolicy s.restore
      (callbacks (·.preServerSpecialize) s.pre (loadModules s.load c))) :=
    ((inner_loadModules s.load c).trans (inner_callbacks (·.preServerSpecialize) s.pre _)).trans
      (inner_restore False.elim _).1
  have hnative : .destruct ∉ ((restoreModuleLoadPolicy s.restore
      (callbacks (·.preServerSpecialize) s.pre (loadModules s.load c))).note [.native]).trace := by
    simp [hpre.noDestruct hc]
  have hpost : ∀ c, Inner False c (hideInjection
      (unloadRequestedModules (callbacks (·.postServerSpecialize) s.post c))) := fun c =>
    ((inner_callbacks (·.postServerSpecialize) s.post c).trans (inner_unload _)).trans
      (inner_hide _)
  unfold specializeServer
  exact (hpost _).noDestruct hnative

/-- Once the core has called `zygisk_self_destruct` the line of descent has ended, with no module
open. -/
def Ended (c : Core) : Prop :=
  .destruct ∈ c.trace → c.zygote = false ∧ appCoreUnloadSafe c = true

/-- A core that calls for its end is no zygote and has no module open. -/
theorem ended_step {a : Act} (h : Ended c) (hstep : descent.step c a = some c') : Ended c' := by
  simp only [descent] at hstep
  split_ifs at hstep with hz
  have hc : .destruct ∉ c.trace := by
    intro hd
    simp [(h hd).1] at hz
  cases a with
  | app s =>
    obtain rfl := Option.some.inj hstep
    obtain ⟨c₁, heq, hc₁⟩ := app_cases s c
    rw [heq]
    intro hd
    unfold finishAppChild at hd ⊢
    split_ifs at hd ⊢ with hkeep
    · exact absurd hd (hc₁ hc)
    · simp only [Bool.or_eq_true, Bool.not_eq_true', not_or, Bool.not_eq_false] at hkeep
      exact ⟨rfl, hkeep.2⟩
  | server s =>
    obtain rfl := Option.some.inj hstep
    intro hd
    exact absurd hd (server_noDestruct s hc)

theorem openOf_closed {ms : List Module} (h : ms.all (fun m => !m.handle) = true) :
    openOf ms = 0 := by
  have hnil : ms.filter (·.handle) = [] := by
    rw [List.filter_eq_nil_iff]
    intro m hm
    simpa using List.all_eq_true.mp h m hm
  rw [openOf, hnil]
  rfl

/-- **The core goes last.**  In every line of descent in which the core called
`zygisk_self_destruct`, it had closed every library that was ever opened, and given every descriptor
back. -/
theorem destruct_settled (h : descent.Reach Lts.anyStep c) (hd : .destruct ∈ c.trace) :
    Ledger.Settled (ledger c.trace) := by
  have hended : Ended c := by
    apply h.invariant (I := Ended)
    constructor
    · intro c hc hd
      obtain rfl := hc
      simp [Core.fresh] at hd
    · exact fun c a c' h _ hstep => ended_step h hstep
  rw [Ledger.Settled, (h.invariant sound_invariant).accounted, Core.held,
    openOf_closed (hended hd).2, zero_add]

/-- A module of API version 5 with both app callbacks. -/
def plainAbi : ModuleAbi := ⟨5, true, true, false, false⟩

/-- A module of API version 1 without callbacks. -/
def quietAbi : ModuleAbi := ⟨1, false, false, false, false⟩

/-- A child zygote.  Its first module asks to be closed when it has fetched its directory, the
second stays with the system linker, and the third cannot be opened. -/
def mixedZygote : Specialization where
  uid := 10123
  onDenylist := false
  denylistMode := 0
  isChildZygote := true
  load := ⟨true, some (some 3), .refused, fun i =>
    if i = 0 then ⟨.fd, true, false, some true, none, [.register (some plainAbi)]⟩
    else if i = 1 then ⟨.fd, true, true, none, some true, [.register (some quietAbi)]⟩
    else ⟨.fd, true, false, none, none, []⟩⟩
  restore := .restored
  pre _ := [.getModuleDir .fd]
  post p := if p = 0 then [.setOption .dlcloseModuleLibrary] else []

/-- An app with one module, which asks to be closed and fetches its directory before. -/
def closingApp : Specialization where
  uid := 10123
  onDenylist := false
  denylistMode := 0
  isChildZygote := false
  load := ⟨true, some (some 1), .fd, fun _ => ⟨.fd, true, false, some true, none,
    [.register (some plainAbi), .call (.setOption .dlcloseModuleLibrary)]⟩⟩
  restore := .restored
  pre _ := [.getModuleDir .fd]
  post _ := [.connectCompanion .refused]

theorem reach_mixedZygote {P : Core → Act → Prop} (hP : P .fresh (.app mixedZygote)) :
    descent.Reach P (specializeApp mixedZygote .fresh) :=
  (Lts.Reach.ofInit rfl).step hP rfl

/-- The app is a child of the child zygote, or of the zygote. -/
theorem reach_line {P : Core → Act → Prop} (hP : P .fresh (.app mixedZygote))
    (hP' : P (specializeApp mixedZygote .fresh) (.app closingApp)) :
    descent.Reach P (specializeApp closingApp (specializeApp mixedZygote .fresh)) :=
  (reach_mixedZygote hP).step hP' (by decide +kernel)

theorem reach_closingApp {P : Core → Act → Prop} (hP : P .fresh (.app closingApp)) :
    descent.Reach P (specializeApp closingApp .fresh) :=
  (Lts.Reach.ofInit rfl).step hP rfl

theorem libraries_accounted_sample :
    Ledger.run 0 (ledger (specializeApp closingApp (specializeApp mixedZygote .fresh)).trace) =
      some (((specializeApp closingApp (specializeApp mixedZygote .fresh)).modules.filter
        (·.handle)).map fun m => Resource.library m.library : List Resource) :=
  libraries_accounted (reach_line trivial trivial)

theorem destruct_settled_sample :
    Ledger.Settled (ledger (specializeApp closingApp .fresh).trace) :=
  destruct_settled (reach_closingApp trivial) (by decide +kernel)

/-- The kernel arms the load policy for a process in the zygote's domain only, so no directory is
given out after the native specialisation. -/
def Confined (_ : Core) : Act → Prop
  | .app s => ∀ p, .getModuleDir .fd ∉ s.post p
  | .server s => ∀ p, .getModuleDir .fd ∉ s.post p

/-- The daemon restores the load policy when it is asked to. -/
def Restored (_ : Core) : Act → Prop
  | .app s => s.restore = .restored
  | .server s => s.restore = .restored

theorem armed_apiCall (p : Nat) (c : Core) {call : ApiCall} (h : call ≠ .getModuleDir .fd) :
    (apiCall p c call).armed = c.armed := by
  unfold apiCall
  cases c.modules[p]? with
  | none => rfl
  | some m =>
    cases call with
    | setOption opt =>
      simp only [apiSetOption]
      split_ifs
      · rfl
      · cases c.cur <;> rfl
    | getModuleDir a =>
      have ha : a ≠ .fd := by
        rintro rfl
        exact h rfl
      simp only [apiGetModuleDir, if_neg ha]
      split_ifs <;> rfl
    | connectCompanion a =>
      simp only [apiConnectCompanion]
      split_ifs <;> rfl

theorem armed_callbacks (wanted : ModuleAbi → Bool) {bodies : Nat → List ApiCall}
    (h : ∀ p, .getModuleDir .fd ∉ bodies p) (c : Core) :
    (callbacks wanted bodies c).armed = c.armed := by
  have hbody : ∀ (p : Nat) (calls : List ApiCall), .getModuleDir .fd ∉ calls → ∀ c,
      (calls.foldl (apiCall p) c).armed = c.armed := by
    intro p calls
    induction calls with
    | nil => exact fun _ _ => rfl
    | cons call calls ih =>
      intro hcalls c
      simp only [List.mem_cons, not_or] at hcalls
      exact (ih hcalls.2 _).trans (armed_apiCall p c (Ne.symm hcalls.1))
  have hall : ∀ (ps : List Nat) (c : Core),
      (ps.foldl (callback wanted bodies) c).armed = c.armed := by
    intro ps
    induction ps with
    | nil => exact fun _ => rfl
    | cons p ps ih =>
      intro c
      rw [List.foldl_cons, ih]
      unfold callback
      cases c.modules[p]? with
      | none => rfl
      | some m =>
        simp only
        split_ifs
        · exact hbody p (bodies p) (h p) _
        · rfl
  exact hall _ c

/-- The replay of the trace ends unarmed, as the core itself says. -/
structure Disarmed (c : Core) : Prop where
  replay : policyRun false c.trace = some false
  armed : c.armed = false

theorem Disarmed.inner (h : Disarmed c) (hi : Inner True c c') (ha : c'.armed = false) :
    Disarmed c' := by
  obtain ⟨es, ht, hp, -⟩ := hi.traced
  constructor
  · rw [ht, policyRun_append, h.replay]
    rw [h.armed, ha] at hp
    exact hp trivial
  · exact ha

theorem Disarmed.native (h : Disarmed c) : Disarmed (c.note [.native]) := by
  constructor
  · rw [note_trace, policyRun_append, h.replay]
    rfl
  · exact h.armed

/-- The callbacks behind the native specialisation arm nothing. -/
theorem Disarmed.post (h : Disarmed c) (wanted : ModuleAbi → Bool) {bodies : Nat → List ApiCall}
    (hbodies : ∀ p, .getModuleDir .fd ∉ bodies p) :
    Disarmed (hideInjection (unloadRequestedModules (callbacks wanted bodies c))) := by
  have hinner : Inner True c (callbacks wanted bodies c) := inner_callbacks wanted bodies c
  have harmed := armed_callbacks wanted hbodies c
  generalize callbacks wanted bodies c = d at hinner harmed
  refine h.inner ((hinner.trans (inner_unload d)).trans (inner_hide _)) ?_
  exact harmed.trans h.armed

/-- **A specialisation ends unarmed**, and arms nothing for its native part. -/
theorem disarmed_step {a : Act} (h : Disarmed c) (hP : Confined c a) (hrestored : Restored c a)
    (hstep : descent.step c a = some c') : Disarmed c' := by
  simp only [descent] at hstep
  split_ifs at hstep
  cases a with
  | app s =>
    obtain rfl := Option.some.inj hstep
    have hend : ∀ c, Disarmed c → Disarmed (finishAppChild s c) := by
      intro c h
      unfold finishAppChild
      split_ifs
      · exact ⟨h.replay, h.armed⟩
      · constructor
        · change policyRun false (c.trace ++ [.destruct]) = _
          rw [policyRun_append, h.replay]
          rfl
        · exact h.armed
    unfold specializeApp
    apply hend
    cases s.runModules with
    | true =>
      obtain ⟨hi, ha⟩ := inner_beforeApp (fun _ => hrestored) c
      exact (h.inner hi ha).native.post (·.postAppSpecialize) hP
    | false => exact h.native
  | server s =>
    obtain rfl := Option.some.inj hstep
    obtain ⟨hr, ha⟩ := inner_restore (fun _ => hrestored)
      (callbacks (·.preServerSpecialize) s.pre (loadModules s.load c))
    have hpre := ((inner_loadModules s.load c).trans (inner_callbacks _ _ _)).trans hr
    have hpost := (h.inner hpre ha).native.post (·.postServerSpecialize) hP
    unfold specializeServer
    exact ⟨hpost.replay, hpost.armed⟩

/-- Without the daemon the native specialisation runs under the policy. -/
example : policyRun false
    (specializeApp { closingApp with restore := .noDaemon } .fresh).trace = none := by
  decide +kernel

/-! ## 11. Which modules stay -/

/-- The option bits that a call sets. -/
def ApiCall.bits : ApiCall → UInt32
  | .setOption opt => opt.bit
  | .getModuleDir _ => 0
  | .connectCompanion _ => 0

/-- A module after some calls of its own code. -/
def Module.called (calls : List ApiCall) (m : Module) : Module :=
  { m with option := calls.foldl (fun o call => o ||| call.bits) m.option }

/-- A module after a round of callbacks. -/
def Module.after (wanted : ModuleAbi → Bool) (calls : List ApiCall) (m : Module) : Module :=
  if m.abi.any wanted then m.called calls else m

theorem modules_apiCall (call : ApiCall) (hm : c.modules[p]? = some m) (hv : 1 ≤ m.version)
    (hcur : c.cur = some p) : (apiCall p c call).cur = some p ∧
      ∀ q, (apiCall p c call).modules[q]? =
        if q = p then some (m.called [call]) else c.modules[q]? := by
  have hkeep : ∀ call : ApiCall, call.bits = 0 → ∀ q, c.modules[q]? =
      if q = p then some (m.called [call]) else c.modules[q]? := by
    intro call hbits q
    have hsame : m.called [call] = m := by simp [Module.called, hbits]
    split_ifs with hq
    · rw [hq, hm, hsame]
    · rfl
  cases call with
  | setOption opt =>
    have hv0 : m.version ≠ 0 := by omega
    simp only [apiCall, hm, if_neg hv0, apiSetOption, hcur, true_and]
    intro q
    rw [List.getElem?_modify]
    by_cases hq : q = p
    · subst hq
      simp [hm, Module.called, ApiCall.bits]
    · rw [if_neg hq]
      cases c.modules[q]? <;> simp [Ne.symm hq]
  | getModuleDir a =>
    simp only [apiCall, hm, apiGetModuleDir, hcur]
    split_ifs <;> exact ⟨hcur, hkeep (.getModuleDir a) rfl⟩
  | connectCompanion a =>
    simp only [apiCall, hm, apiConnectCompanion, hcur]
    split_ifs <;> exact ⟨hcur, hkeep (.connectCompanion a) rfl⟩

/-- **A body changes the options of its own module only.** -/
theorem modules_body (calls : List ApiCall) (hm : c.modules[p]? = some m) (hv : 1 ≤ m.version)
    (hcur : c.cur = some p) (q : Nat) : (calls.foldl (apiCall p) c).modules[q]? =
      if q = p then some (m.called calls) else c.modules[q]? := by
  induction calls generalizing c m with
  | nil =>
    split_ifs with hq
    · subst hq
      exact hm
    · rfl
  | cons call calls ih =>
    obtain ⟨hcur', hmods⟩ := modules_apiCall call hm hv hcur
    have hm' : (apiCall p c call).modules[p]? = some (m.called [call]) := by
      rw [hmods, if_pos rfl]
    rw [List.foldl_cons, ih hm' hv hcur', hmods]
    split_ifs <;> rfl

theorem modules_callback (wanted : ModuleAbi → Bool) (bodies : Nat → List ApiCall)
    (hm : c.modules[p]? = some m) (ho : m.abi.isSome → 1 ≤ m.version) (q : Nat) :
    (callback wanted bodies c p).modules[q]? =
      if q = p then some (m.after wanted (bodies p)) else c.modules[q]? := by
  unfold callback
  simp only [hm]
  split_ifs with hw hq hq
  · have hv : 1 ≤ m.version := by
      apply ho
      cases habi : m.abi with
      | none => simp [habi] at hw
      | some a => rfl
    rw [modules_body (c := { c.note [.call m.library] with cur := some p }) (bodies p) hm hv rfl,
      if_pos hq, Module.after, if_pos hw]
  · have hv : 1 ≤ m.version := by
      apply ho
      cases habi : m.abi with
      | none => simp [habi] at hw
      | some a => rfl
    rw [modules_body (c := { c.note [.call m.library] with cur := some p }) (bodies p) hm hv rfl,
      if_neg hq]
    rfl
  · rw [hq, hm, Module.after, if_neg hw]
  · rfl

/-- A round of callbacks changes each module by its own calls. -/
theorem modules_callbacks (ho : Owned c.modules) (wanted : ModuleAbi → Bool)
    (bodies : Nat → List ApiCall) {q : Nat} (hm : c.modules[q]? = some m) :
    (callbacks wanted bodies c).modules[q]? = some (m.after wanted (bodies q)) := by
  have hround : ∀ k, k ≤ c.modules.length → ∀ q m, c.modules[q]? = some m →
      ((List.range k).foldl (callback wanted bodies) c).modules[q]? =
        some (if q < k then m.after wanted (bodies q) else m) := by
    intro k
    induction k with
    | zero => exact fun _ q m hm => hm
    | succ k ih =>
      intro hk q m hm
      have hgetk : c.modules[k]? = some c.modules[k] := List.getElem?_eq_getElem (by omega)
      have hk' := ih (by omega) k _ hgetk
      rw [if_neg (lt_irrefl k)] at hk'
      rw [List.range_succ, List.foldl_append, List.foldl_cons, List.foldl_nil,
        modules_callback wanted bodies hk' (fun h => (ho _ (List.mem_of_getElem? hgetk) h).2)]
      by_cases hq : q = k
      · subst hq
        obtain rfl := Option.some.inj (hm.symm.trans hgetk)
        rw [if_pos rfl, if_pos (by omega)]
      · rw [if_neg hq, ih (by omega) q m hm]
        by_cases hlt : q < k
        · rw [if_pos hlt, if_pos (by omega)]
        · rw [if_neg hlt, if_neg (by omega)]
  have hlt := (List.getElem?_eq_some_iff.mp hm).1
  rw [callbacks, hround _ le_rfl q m hm, if_pos hlt]

theorem length_callbacks (wanted : ModuleAbi → Bool) (bodies : Nat → List ApiCall) (c : Core) :
    (callbacks wanted bodies c).modules.length = c.modules.length := by
  have hframes : ∀ (ps : List Nat) (c : Core),
      (ps.foldl (callback wanted bodies) c).modules.map Module.frame =
        c.modules.map Module.frame := by
    intro ps
    induction ps with
    | nil => exact fun _ => rfl
    | cons p ps ih =>
      intro c
      rw [List.foldl_cons, ih]
      unfold callback
      cases c.modules[p]? with
      | none => rfl
      | some m =>
        simp only
        split_ifs
        · exact frames_body p (bodies p) _
        · rfl
  have hlen := congrArg List.length (hframes (List.range c.modules.length) c)
  rw [List.length_map, List.length_map] at hlen
  exact hlen

/-- Whether `DLCLOSE_MODULE_LIBRARY` is set. -/
def Module.wantsClose (m : Module) : Prop :=
  m.option &&& ModuleOption.dlcloseModuleLibrary.bit ≠ 0

theorem wantsClose_called (calls : List ApiCall) (m : Module) : (m.called calls).wantsClose ↔
    m.wantsClose ∨ .setOption .dlcloseModuleLibrary ∈ calls := by
  have hor : ∀ o b d : UInt32, (o ||| b) &&& d ≠ 0 ↔ o &&& d ≠ 0 ∨ b &&& d ≠ 0 := by
    intro o b d
    have hdist : (o ||| b) &&& d = (o &&& d) ||| (b &&& d) :=
      UInt32.toBitVec_inj.mp (by simp [BitVec.and_or_distrib_right])
    rw [hdist, Ne, UInt32.or_eq_zero_iff]
    tauto
  have hbits : ∀ call : ApiCall, call.bits &&& ModuleOption.dlcloseModuleLibrary.bit ≠ 0 ↔
      call = .setOption .dlcloseModuleLibrary := by
    intro call
    cases call with
    | setOption opt => cases opt <;> decide
    | getModuleDir a => simp [ApiCall.bits]
    | connectCompanion a => simp [ApiCall.bits]
  induction calls generalizing m with
  | nil => simp [Module.called]
  | cons call calls ih =>
    have hone : (m.called [call]).wantsClose ↔
        m.wantsClose ∨ .setOption .dlcloseModuleLibrary = call :=
      (hor _ _ _).trans (or_congr_right ((hbits call).trans eq_comm))
    apply (ih (m.called [call])).trans
    rw [hone, or_assoc, List.mem_cons]

/-- Whether a module asked to be closed: in its entry, or in a callback that the core makes. -/
def Module.asked (s : Specialization) (p : Nat) (m : Module) : Prop :=
  m.wantsClose ∨
    (m.abi.any (·.preAppSpecialize) = true ∧ .setOption .dlcloseModuleLibrary ∈ s.pre p) ∨
    (m.abi.any (·.postAppSpecialize) = true ∧ .setOption .dlcloseModuleLibrary ∈ s.post p)

theorem handle_closed (s : Specialization) (p : Nat) (m : Module) :
    ((((m.after (·.preAppSpecialize) (s.pre p)).after (·.postAppSpecialize)
      (s.post p)).unload).hide).handle = false ↔ m.handle = true → m.asked s p := by
  have hafter : ∀ (wanted : ModuleAbi → Bool) (calls : List ApiCall) (m : Module),
      (m.after wanted calls).handle = m.handle ∧ (m.after wanted calls).abi = m.abi ∧
        ((m.after wanted calls).wantsClose ↔
          m.wantsClose ∨ m.abi.any wanted = true ∧ .setOption .dlcloseModuleLibrary ∈ calls) := by
    intro wanted calls m
    unfold Module.after
    split_ifs with hw
    · exact ⟨rfl, rfl, by simp [wantsClose_called, hw]⟩
    · exact ⟨rfl, rfl, by simp [hw]⟩
  obtain ⟨hh, ha, hwant⟩ := hafter (·.preAppSpecialize) (s.pre p) m
  obtain ⟨hh', -, hwant'⟩ := hafter (·.postAppSpecialize) (s.post p)
    (m.after (·.preAppSpecialize) (s.pre p))
  have hhide : ∀ m : Module, m.hide.handle = m.handle := by
    intro m
    unfold Module.hide
    split_ifs <;> rfl
  rw [hhide]
  generalize hm₂ : (m.after (·.preAppSpecialize) (s.pre p)).after (·.postAppSpecialize)
    (s.post p) = m₂ at hh' hwant'
  have hunload : m₂.unload.handle = false ↔ m₂.handle = true → m₂.wantsClose := by
    unfold Module.unload Module.unloads Module.wantsClose
    cases hb : m₂.handle <;> by_cases ho : m₂.option &&& ModuleOption.dlcloseModuleLibrary.bit = 0
    all_goals simp [hb, ho]
  rw [hunload, hwant', hh', hh, hwant, ha, or_assoc]
  rfl

/-- **When an app drops the core.**  A specialisation that runs modules calls `zygisk_self_destruct`
exactly when the process is no child zygote and each module that is open after loading asked to be
closed itself, in its entry or in one of its two callbacks: no module answers for another. -/
theorem core_dropped_iff (h : descent.Reach Lts.anyStep c) (hz : c.zygote = true)
    (s : Specialization) (hrun : s.runModules = true) :
    .destruct ∈ (specializeApp s c).trace ↔ s.isChildZygote = false ∧
      ∀ (p : Nat) (m : Module), (loadModules s.load c).modules[p]? = some m → m.handle = true →
        m.asked s p := by
  have hc : .destruct ∉ c.trace := by
    have hended : Ended c := by
      apply h.invariant (I := Ended)
      constructor
      · intro c hc hd
        obtain rfl := hc
        simp [Core.fresh] at hd
      · exact fun c a c' h _ hstep => ended_step h hstep
    intro hd
    simp [(hended hd).1] at hz
  have hloaded := sound_loadModules (h.invariant sound_invariant) s.load
  have hpre := sound_callbacks hloaded (·.preAppSpecialize) s.pre
  have hrestore : ∀ c, (restoreModuleLoadPolicy s.restore c).modules = c.modules := by
    intro c
    unfold restoreModuleLoadPolicy
    split_ifs <;> rfl
  let c₁ := runAppPost s ((beforeApp s c).note [.native])
  have hmods : ∀ (p : Nat) (m : Module), (loadModules s.load c).modules[p]? = some m → c₁.modules[p]? =
      some (((m.after (·.preAppSpecialize) (s.pre p)).after (·.postAppSpecialize)
        (s.post p)).unload.hide) := by
    intro p m hm
    have h₁ : ((beforeApp s c).note [.native]).modules[p]? =
        some (m.after (·.preAppSpecialize) (s.pre p)) := by
      rw [note_modules, beforeApp, hrestore]
      exact modules_callbacks hloaded.owned _ _ hm
    have howned : Owned ((beforeApp s c).note [.native]).modules := by
      rw [note_modules, beforeApp, hrestore]
      exact hpre.owned
    have h₂ := modules_callbacks howned (·.postAppSpecialize) s.post h₁
    simp only [c₁, runAppPost, hideInjection, unloadRequestedModules, List.getElem?_map, h₂]
    rfl
  have hlen : c₁.modules.length = (loadModules s.load c).modules.length := by
    simp only [c₁, runAppPost, hideInjection, unloadRequestedModules, List.length_map]
    rw [length_callbacks, note_modules, beforeApp, hrestore, length_callbacks]
  have hsafe : appCoreUnloadSafe c₁ = true ↔ ∀ (p : Nat) (m : Module),
      (loadModules s.load c).modules[p]? = some m → m.handle = true → m.asked s p := by
    simp only [appCoreUnloadSafe, List.all_eq_true, Bool.not_eq_true']
    constructor
    · intro hall p m hm
      exact (handle_closed s p m).mp (hall _ (List.mem_of_getElem? (hmods p m hm)))
    · intro hall m' hm'
      obtain ⟨p, hp⟩ := List.mem_iff_getElem?.mp hm'
      have hlt : p < (loadModules s.load c).modules.length := by
        rw [← hlen]
        exact (List.getElem?_eq_some_iff.mp hp).1
      have hm := List.getElem?_eq_getElem hlt
      obtain rfl := Option.some.inj ((hmods p _ hm).symm.trans hp)
      exact (handle_closed s p _).mpr (hall p _ hm)
  have heq : specializeApp s c = finishAppChild s c₁ := by
    simp only [specializeApp, hrun, if_true, c₁]
  have hc₁ : .destruct ∉ c₁.trace := by
    have hpost : Inner False _ c₁ := inner_runAppPost s _
    apply hpost.noDestruct
    simp [(inner_beforeApp False.elim c).1.noDestruct hc]
  rw [heq, ← hsafe, finishAppChild]
  cases hchild : s.isChildZygote <;> cases hus : appCoreUnloadSafe c₁ <;> simp [hc₁]

/-- In the app of the zygote, and in the one of the child zygote, where a module stays. -/
theorem core_dropped_sample :
    (.destruct ∈ (specializeApp closingApp .fresh).trace ↔ closingApp.isChildZygote = false ∧
      ∀ (p : Nat) (m : Module), (loadModules closingApp.load .fresh).modules[p]? = some m →
        m.handle = true → m.asked closingApp p) ∧
    (.destruct ∈ (specializeApp closingApp (specializeApp mixedZygote .fresh)).trace ↔
      closingApp.isChildZygote = false ∧ ∀ (p : Nat) (m : Module),
        (loadModules closingApp.load (specializeApp mixedZygote .fresh)).modules[p]? = some m →
          m.handle = true → m.asked closingApp p) :=
  ⟨core_dropped_iff (Lts.Reach.ofInit rfl) rfl closingApp (by decide),
    core_dropped_iff (reach_mixedZygote trivial) (by decide +kernel) closingApp (by decide)⟩

end YukiZygisk.ModuleLife
