/-
# The status of native modules (`userspace/yzctl/status.cpp`)

When a process is executed the kernel looks for the FIRST native target that matches the file, and
its base record keeps that target.  The core in the process loads every module with a target that
matches, and reports each.  The status tool takes the module definitions that have the target of
the base record, and looks for the record of each module.

So a module that a process reaches through another target than the first one is not in the status
(`not_statusComplete`).  There is a second way to be left out: in a full table the slot for the
record can be that of another module of the same process, and then the report succeeds and stores
nothing (`Lost`).  In all other cases the status is complete: `statusComplete_iff`.

The run goes from the execution of a process, over the redirection of its entry point, to the report
and the next snapshot, with anything else in between; the guard is that the process stays alive and
does not execute another file.  Three things hold along it: the base record stays in its slot
(`BaseAt`, `baseAt_steps`), no record of a module of the process becomes EXITED (`Live`,
`live_steps`), and after the report the module has a record (`Recorded`, `recorded_of_path`).  An
accepted report that is not lost makes it `Recorded` (`Accepted.recorded`), one that is lost leaves
it without (`Accepted.not_recorded`).

What the status shows is read off the table (`nativeStatus_eq`, `shows_iff`).  Since the base record
of the process is the only native one (`base_unique`), a module that is recorded is shown exactly
when it has a definition with the target of that record (`shows_recorded`), and one that is not is
not (`not_shows_of_no_record`).
-/
import Mathlib
import YukiZygisk.Feature.RuntimeReport

namespace YukiZygisk.Status

open YukiZygisk.Native
open YukiZygisk.Runtime

/-! ## 1. The process -/

/-- `struct yz_native_target`. -/
structure NativeTarget where
  type : UInt8
  value : List UInt8
  deriving DecidableEq

/-- A target of a type matches a file. -/
def targetMatchesFile (filename : List UInt8) (type : UInt8) (value : List UInt8) : Bool :=
  if type = nativeTargetName then zpBasename filename = value
  else if type = nativeTargetPath then filename = value
  else false

/-- `zp_match_live_native_target`: the type and the label of the first target that matches. -/
def zpMatchLiveNativeTarget (targets : List NativeTarget) (filename : List UInt8) :
    Option (UInt8 × List UInt8) :=
  (targets.find? fun t => targetMatchesFile filename t.type t.value).map fun t =>
    (t.type, zpCopyName nativeTargetValueMax t.value)

/-- The bytes of `app_process`. -/
def appProcess : List UInt8 := [97, 112, 112, 95, 112, 114, 111, 99, 101, 115, 115]

/-- `zp_is_app_process_path`. -/
def zpIsAppProcessPath (filename : List UInt8) : Bool := appProcess.isPrefixOf (zpBasename filename)

/-- What the kernel knows when a process is executed: the live targets, the early entries, and the
process. -/
structure Exec where
  targets : List NativeTarget
  early : List EarlyNativeEntry
  filename : List UInt8
  initChild : Bool
  compat : Bool
  process : Buffer processMax

/-- `YZ_RUNTIME_ABI_32` and `YZ_RUNTIME_ABI_64`. -/
def Exec.abi (x : Exec) : UInt8 := if x.compat then 1 else 2

/-- The bytes of `native`, the label of a process without one. -/
def nativeLabel : List UInt8 := [110, 97, 116, 105, 118, 101]

/-- The match of `my_bprm_committed_creds`: the type, the label, and whether it is an early one. -/
def Exec.matched (x : Exec) : Option (UInt8 × List UInt8 × Bool) :=
  if zpIsAppProcessPath x.filename then none
  else
    match zpMatchLiveNativeTarget x.targets x.filename, x.initChild with
    | some (type, label), true => some (type, label, false)
    | _, _ => (zpMatchEarlyNativeTarget x.early x.filename).map fun m => (m.1, m.2, true)

theorem length_zpCopyName (size : Nat) (name : List UInt8) (h : 0 < size) :
    (zpCopyName size name).length < size := by
  rw [zpCopyName]
  exact (List.length_take_le _ _).trans_lt (by omega)

/-- What `zp_inject_tw_func` hands to `zp_runtime_begin` for a native process. -/
def Exec.beginArgs (x : Exec) : Option BeginArgs :=
  x.matched.map fun m =>
    { kind := .native
      abi := x.abi
      targetType := m.1
      flags := if m.2.2 then 1 else 0
      process := x.process
      target := ⟨zpCopyName nativeTargetValueMax (if m.2.1 = [] then nativeLabel else m.2.1),
        length_zpCopyName _ _ (by decide)⟩ }

/-! ## 2. The status tool -/

/-- `struct NativeDefinition`, with the fields of its `NativeModule` that the status reads. -/
structure NativeDefinition where
  moduleId : List UInt8
  targetType : UInt8
  target : List UInt8
  hasCompanion : Bool
  abi : UInt8
  deriving DecidableEq

/-- `struct NativeInjection`. -/
structure NativeInjection where
  pid : Nat
  process : List UInt8
  moduleId : List UInt8
  targetType : UInt8
  target : List UInt8
  abi : UInt8
  state : String
  hasCompanion : Bool
  deriving DecidableEq

/-- `runtime_state_name`. -/
def runtimeStateName : State → Option String
  | .injected => some "injected"
  | .safemode => some "crashed"
  | .exited => none
  | .detected | .redirected | .failed => some "failed"

/-- `find_ready_record`. -/
def findReadyRecord (records : List Record) (base : Record) (moduleId : List UInt8) :
    Option Record :=
  records.find? fun record =>
    record.kind = .native ∧ record.pid = base.pid ∧ record.generation = base.generation ∧
      record.abi = base.abi ∧ record.moduleId = moduleId ∧ record.state ≠ .exited

/-- The state that `build_native_injections` shows for a module. -/
def shownState (records : List Record) (base : Record) (moduleId : List UInt8) : Option String :=
  match findReadyRecord records base moduleId with
  | some ready => runtimeStateName ready.state
  | none => some (if base.state = .safemode then "crashed" else "failed")

/-- The inner loop of `build_native_injections`. -/
def injectionOf (records : List Record) (base : Record) (definition : NativeDefinition) :
    Option NativeInjection :=
  if definition.abi ≠ base.abi ∨ definition.targetType ≠ base.targetType ∨
      definition.target ≠ base.target then none
  else
    (shownState records base definition.moduleId).map fun state =>
      { pid := base.pid
        process := base.process
        moduleId := definition.moduleId
        targetType := base.targetType
        target := base.target
        abi := base.abi
        state
        hasCompanion := definition.hasCompanion }

/-- A record that the outer loop goes through. -/
def isNativeBase (base : Record) : Bool :=
  base.kind = .native && base.state ≠ .exited && base.moduleId = []

/-- The order of the status: by pid, module id, target type, target and ABI. -/
def injectionLe (a b : NativeInjection) : Bool :=
  ((compare a.pid b.pid).then ((compare a.moduleId b.moduleId).then
    ((compare a.targetType b.targetType).then ((compare a.target b.target).then
      (compare a.abi b.abi))))).isLE

/-- `build_native_injections`. -/
def buildNativeInjections (snap : Snapshot) (modules : List NativeDefinition) :
    List NativeInjection :=
  ((snap.records.filter isNativeBase).flatMap fun base =>
    modules.filterMap (injectionOf snap.records base)).mergeSort injectionLe

/-- The native part of the status, for the next snapshot of a table. -/
def nativeStatus (modules : List NativeDefinition) (seen : Nat → Tasks) (t : Table) :
    List NativeInjection :=
  match (getRuntime recordMax seen t).1 with
  | none => []
  | some snap => buildNativeInjections snap modules

/-! ## 3. A report and the snapshot after it -/

/-- The process of `current` is alive wherever the step looks, and it does not execute another
file.  (No caller of `zp_runtime_set_state` passes EXITED.) -/
def Quiet (current : Current) (_ : Table) (a : Act) : Prop :=
  (∀ args c seen, a = .begin args c seen → c.tgid ≠ current.tgid) ∧
    ∀ j, ¬ a.Ends j current.tgid current.startBoottime

/-- The record of a module of a process. -/
def IsModule (pid : Nat) (moduleId : List UInt8) (e : Entry) : Prop :=
  e.record.pid = pid ∧ e.record.moduleId = moduleId

/-- The record of the module is not evicted. -/
def Keeps (current : Current) (moduleId : List UInt8) (t : Table) (a : Act) : Prop :=
  ∀ (j : Nat) (e : Entry), t.entries[j]? = some e → IsModule current.tgid moduleId e →
    ∃ e', (after t a).entries[j]? = some e' ∧ IsModule current.tgid moduleId e'

/-- The kernel accepts a report of the process that was executed as `x`: it got a base record, was
alive since, and reports a module. -/
structure Accepted (x : Exec) (current : Current) (moduleId : List UInt8) (t : Table) (r : Report)
    (looks : Looks) : Prop where
  begun : ∃ args t₀ seen, x.beginArgs = some args ∧ runtime.Reach Lts.anyStep t₀ ∧
    (begin args current seen t₀).1 ≠ 0 ∧
    runtime.Path (Quiet current) (begin args current seen t₀).2 t
  pid : r.pid = current.tgid
  kind : r.kind = some .native
  moduleId : zpCopyName nativeModuleIdMax r.moduleId = moduleId
  quiet : Quiet current t (.report r looks)
  accepted : (reportRuntime r looks t).1 = none

/-- The status has an entry for the module of the process, in the injected state. -/
def Shows (injections : List NativeInjection) (pid : Nat) (moduleId : List UInt8) : Prop :=
  ∃ x ∈ injections, x.pid = pid ∧ x.moduleId = moduleId ∧ x.state = "injected"

/-- The report finds no record of its module, and the slot that is picked for it has a record that
looks like the one to be stored: that of another module of the process. -/
def Lost (r : Report) (looks : Looks) (t : Table) : Prop :=
  ∃ i base slot d, Found t r looks .native i base ∧
    let u := setStateLocked i .injected (refreshExited looks.seen t)
    findModule u r.pid (zpCopyName nativeModuleIdMax r.moduleId) = none ∧
      pickSlot u (some i) = some slot ∧ u.entries[slot]? = some d ∧
      d.record.generation = base.record.generation ∧ d.record.state = .injected ∧
      d.startBoottime = base.startBoottime

/-- The target that the kernel matched first is one of a definition of the module. -/
def HasDefinition (x : Exec) (modules : List NativeDefinition) (moduleId : List UInt8) : Prop :=
  ∃ args, x.beginArgs = some args ∧ ∃ d ∈ modules, d.moduleId = moduleId ∧ d.abi = args.abi ∧
    d.targetType = args.targetType ∧ d.target = args.target.bytes

/-- **The status is complete**: after the report of a module whose target matches the process and
whose ABI is its own, while the process is alive and the record is not evicted, the status shows the
module as injected. -/
def StatusComplete : Prop :=
  ∀ (x : Exec) (current : Current) (modules : List NativeDefinition) (d : NativeDefinition)
    (t t' : Table) (r : Report) (looks : Looks) (seen : Nat → Tasks), d ∈ modules →
    targetMatchesFile x.filename d.targetType d.target = true → d.abi = x.abi →
    Accepted x current d.moduleId t r looks →
    runtime.Path (fun t a => Quiet current t a ∧ Keeps current d.moduleId t a)
      (after t (.report r looks)) t' →
    (∀ j, taskAlive (seen j) current.tgid current.startBoottime = true) →
    Shows (nativeStatus modules seen t') current.tgid d.moduleId

/-! ## 4. The records of the process through a run -/

variable {x : Exec} {current : Current} {args : BeginArgs} {moduleId : List UInt8} {t t' : Table}
  {r : Report} {looks : Looks} {seen : Nat → Tasks} {modules : List NativeDefinition} {a : Act}
  {i : Nat} {b e : Entry} {own : Entry → Prop} {dead : Nat → Nat → Nat → Prop}

/-- Slot `i` has the base record `b`, in some state that is not EXITED. -/
def BaseAt (i : Nat) (b : Entry) (t : Table) : Prop :=
  ∃ s, t.entries[i]? = some (b.withState s) ∧ s ≠ .exited

/-- `b` is a base record of the process. -/
structure BaseOf (current : Current) (b : Entry) : Prop where
  pid : b.record.pid = current.tgid
  start : b.startBoottime = current.startBoottime
  kind : b.record.kind = .native
  base : b.Base

theorem BaseOf.used (h : BaseOf current b) : b.Used :=
  fun h' => current.tgid_ne (h.pid.symm.trans h')

theorem BaseOf.withState (h : BaseOf current b) (s : State) : BaseOf current (b.withState s) :=
  ⟨h.pid, h.start, h.kind, h.base⟩

/-- No record of the module is EXITED. -/
def Live (current : Current) (moduleId : List UInt8) (t : Table) : Prop :=
  ∀ (j : Nat) (e : Entry), t.entries[j]? = some e → IsModule current.tgid moduleId e →
    e.record.state ≠ .exited

theorem not_base (hm : moduleId ≠ []) (h : IsModule current.tgid moduleId e) : ¬ e.Base :=
  fun hb => hm (h.2.symm.trans hb)

theorem IsModule.used (h : IsModule current.tgid moduleId e) : e.Used :=
  fun h' => current.tgid_ne (h.1.symm.trans h')

/-- A quiet step gives up no native record of the process. -/
theorem not_givesUp (hq : Quiet current t a) (hpid : e.record.pid = current.tgid)
    (hkind : e.record.kind = .native) : ¬ a.GivesUp e := by
  cases a with
  | begin args c seen =>
    have hne := hq.1 args c seen rfl
    rintro (⟨-, hk, hown⟩ | ⟨-, -, hp⟩)
    · rw [← hk, hkind] at hown
      exact hne (hown.symm.trans hpid)
    · exact hne (hp.symm.trans hpid)
  | setState | getRuntime | report => exact fun h => h

/-- The base record stays. -/
theorem baseAt_steps (hs : Steps own dead t t') (hb : BaseOf current b) (h : BaseAt i b t)
    (hown : ∀ s, ¬ own (b.withState s))
    (hdead : ∀ j, ¬ dead j current.tgid current.startBoottime) : BaseAt i b t' := by
  obtain ⟨s, he, hlive⟩ := h
  have hbs := hb.withState s
  rcases kept_of_steps hs he hbs.used hbs.base hlive (fun s' h => absurd h (hown s')) with
    h | h | ⟨s', he', hs'⟩
  · exact absurd h (hown s)
  · rw [hbs.pid, hbs.start] at h
    exact absurd h (hdead i)
  · exact ⟨s', he', hs'⟩

/-- One change keeps the records of the module from being EXITED: what is stored for a module is
injected, and only a dead or restarted process has its records EXITED. -/
theorem live_change (hk : WellKeyed t) (hc : Change own dead t t') (hb : BaseOf current b)
    (hbase : BaseAt i b t) (hm : moduleId ≠ []) (hl : Live current moduleId t)
    (hown : ∀ e : Entry, e.record.pid = current.tgid → e.record.kind = .native → ¬ own e)
    (hdead : ∀ j, ¬ dead j current.tgid current.startBoottime) : Live current moduleId t' := by
  obtain ⟨s₀, hi, -⟩ := hbase
  have hbs := hb.withState s₀
  cases hc with
  | @state j e s he hdead' _ =>
    refine forall_put (P := fun e => IsModule current.tgid moduleId e → e.record.state ≠ .exited)
      hl fun hmod hexit => ?_
    have hmod' : IsModule current.tgid moduleId e := hmod
    have hnb := not_base hm hmod'
    have hcopy := hk.copies j i e _ he hi hmod'.used hnb (hl j e he hmod') hbs.used hbs.base
      hbs.kind (hmod'.1.trans hbs.pid.symm)
    have hstart : e.startBoottime = current.startBoottime := by
      rw [hcopy]
      exact hbs.start
    rcases hdead' hexit with h | h
    · rw [hmod'.1, hstart] at h
      exact hdead j h
    · exact hown e hmod'.1 (hk.native j e he hmod'.used hnb) h
  | @write j old new ho hw =>
    refine forall_put (P := fun e => IsModule current.tgid moduleId e → e.record.state ≠ .exited)
      hl fun hmod => ?_
    obtain ⟨_, base, -, -, -, hnew⟩ := hw.copy (not_base hm hmod)
    rw [hnew]
    exact nofun

theorem live_steps (hk : WellKeyed t) (hs : Steps own dead t t') (hb : BaseOf current b)
    (hbase : BaseAt i b t) (hm : moduleId ≠ []) (hl : Live current moduleId t)
    (hown : ∀ e : Entry, e.record.pid = current.tgid → e.record.kind = .native → ¬ own e)
    (hdead : ∀ j, ¬ dead j current.tgid current.startBoottime) : Live current moduleId t' := by
  induction hs with
  | refl => exact hl
  | tail hs hc ih =>
    exact live_change (hk.steps hs) hc hb
      (baseAt_steps hs hb hbase (fun s => hown _ (hb.withState s).pid (hb.withState s).kind) hdead)
      hm ih hown hdead

/-- What a quiet step keeps of the process. -/
theorem quiet_step (moduleId : List UInt8) (hk : WellKeyed t) (hq : Quiet current t a)
    (hb : BaseOf current b) (hbase : BaseAt i b t) :
    BaseAt i b (after t a) ∧
      (moduleId ≠ [] → Live current moduleId t → Live current moduleId (after t a)) :=
  ⟨baseAt_steps (steps_of_act hk a) hb hbase
    (fun s => not_givesUp hq (hb.withState s).pid (hb.withState s).kind) hq.2,
   fun hm hl => live_steps hk (steps_of_act hk a) hb hbase hm hl (fun _ => not_givesUp hq) hq.2⟩

/-- The module has a record, and none that is EXITED. -/
def Recorded (current : Current) (moduleId : List UInt8) (t : Table) : Prop :=
  (∃ (j : Nat) (e : Entry), t.entries[j]? = some e ∧ IsModule current.tgid moduleId e) ∧
    Live current moduleId t

/-- What a run keeps of the process and of the record of its module. -/
theorem recorded_of_path (hr : runtime.Reach Lts.anyStep t) (hb : BaseOf current b)
    (hm : moduleId ≠ []) (hbase : BaseAt i b t) (hrec : Recorded current moduleId t)
    (hp : runtime.Path (fun t a => Quiet current t a ∧ Keeps current moduleId t a) t t') :
    BaseAt i b t' ∧ Recorded current moduleId t' := by
  induction hp with
  | refl => exact ⟨hbase, hrec⟩
  | @tail u u' hp hstep ih =>
    obtain ⟨a, ⟨hq, hkeep⟩, ha⟩ := hstep
    obtain rfl : after u a = u' := by
      have h : some (after u a) = some u' := ha
      exact Option.some.inj h
    have hk := wellKeyed_of_reach (hr.path (Lts.Path.mono (fun _ _ _ => trivial) hp))
    obtain ⟨hbase', ⟨j, e, he, hmod⟩, hl⟩ := ih
    obtain ⟨h1, h2⟩ := quiet_step moduleId hk hq hb hbase'
    obtain ⟨e', he', hmod'⟩ := hkeep j e he hmod
    exact ⟨h1, ⟨j, e', he', hmod'⟩, h2 hm hl⟩

/-- The base record stays through a run. -/
theorem baseAt_of_path (hr : runtime.Reach Lts.anyStep t) (hb : BaseOf current b)
    (hbase : BaseAt i b t) (hp : runtime.Path (Quiet current) t t') : BaseAt i b t' := by
  induction hp with
  | refl => exact hbase
  | @tail u u' hp hstep ih =>
    obtain ⟨a, hq, ha⟩ := hstep
    obtain rfl : after u a = u' := by
      have h : some (after u a) = some u' := ha
      exact Option.some.inj h
    have hk := wellKeyed_of_reach (hr.path (Lts.Path.mono (fun _ _ _ => trivial) hp))
    exact (quiet_step [] hk hq hb ih).1

/-! ## 5. From the start of the process to its report -/

/-- What `zp_runtime_refresh_exited` changes: the records of the processes that are not alive. -/
theorem steps_of_refresh (seen : Nat → Tasks) (t : Table) :
    Steps (fun _ => False) (fun i pid start => taskAlive (seen i) pid start = false) t
      (refreshExited seen t) :=
  steps_refresh (fun _ _ _ h => h) t

theorem kind_beginArgs (h : x.beginArgs = some args) : args.kind = .native := by
  rw [Exec.beginArgs, Option.map_eq_some_iff] at h
  obtain ⟨m, -, rfl⟩ := h
  rfl

/-- A `begin` that returns a generation has stored the base record of the process. -/
theorem baseAt_begin (hk : WellKeyed t) (hkind : args.kind = .native)
    (hgen : (begin args current seen t).1 ≠ 0) :
    ∃ i generation, BaseAt i (newEntry args current 0 generation)
      (begin args current seen t).2 := by
  have hk1 : WellKeyed (refreshExited seen t) :=
    hk.steps (steps_of_refresh seen t)
  unfold begin at hgen ⊢
  rw [hkind] at hgen ⊢
  dsimp only at hgen ⊢
  cases hslot : (findNativePid (refreshExited seen t) current.tgid).or
      (pickSlot (exitModules current.tgid (refreshExited seen t)) none) with
  | none =>
    rw [hslot] at hgen
    exact absurd rfl hgen
  | some slot =>
    obtain ⟨old, ho⟩ : ∃ old,
        (exitModules current.tgid (refreshExited seen t)).entries[slot]? = some old := by
      rcases slotFor_native hk1.length hkind hslot with ⟨old, ho, -⟩ | ⟨-, hpick⟩
      · exact ⟨old, ho⟩
      · obtain ⟨old, ho, -⟩ := pickSlot_some hpick
        exact ⟨old, ho⟩
    exact ⟨slot, _, .detected, entries_put_self ho, nofun⟩

theorem baseOf_newEntry (hkind : args.kind = .native) (generation : Nat) :
    BaseOf current (newEntry args current 0 generation) := ⟨rfl, rfl, hkind, rfl⟩

/-- The process has its base record from its start to its report. -/
theorem Accepted.base (h : Accepted x current moduleId t r looks) :
    runtime.Reach Lts.anyStep t ∧ ∃ args i generation, x.beginArgs = some args ∧
      args.kind = .native ∧ BaseAt i (newEntry args current 0 generation) t := by
  obtain ⟨args, t₀, seen, hargs, hr, hgen, hp⟩ := h.begun
  have hkind := kind_beginArgs hargs
  have hstep : runtime.Reach Lts.anyStep (begin args current seen t₀).2 :=
    hr.step (a := .begin args current seen) trivial rfl
  obtain ⟨i, generation, hbase⟩ := baseAt_begin (wellKeyed_of_reach hr) hkind hgen
  exact ⟨hstep.path (Lts.Path.mono (fun _ _ _ => trivial) hp), args, i, generation, hargs, hkind,
    baseAt_of_path hstep (baseOf_newEntry hkind generation) hbase hp⟩

/-- The slot of the base record, and the last part of a report that is accepted. -/
theorem Accepted.stored (h : Accepted x current moduleId t r looks) (hk : WellKeyed t)
    (hb : BaseOf current b) (hbase : BaseAt i b t) :
    ∃ s, Found t r looks .native i (b.withState s) ∧
      (reportRuntime r looks t) = storeModule i (b.withState .injected) r.pid moduleId
        (setStateLocked i .injected (refreshExited looks.seen t)) ∧
      BaseAt i b (refreshExited looks.seen t) := by
  have hk1 : WellKeyed (refreshExited looks.seen t) :=
    hk.steps (steps_of_refresh looks.seen t)
  have hbase1 : BaseAt i b (refreshExited looks.seen t) :=
    baseAt_steps (steps_of_refresh looks.seen t) hb hbase (fun _ h => h)
      fun j hj => h.quiet.2 j (.inl hj)
  rcases report_cases t r looks with ⟨code, hrun⟩ | ⟨code, hrun⟩ | ⟨kind, i', base, hfound, hrun⟩
  · exact absurd h.accepted (by rw [hrun]; simp)
  · exact absurd h.accepted (by rw [hrun]; simp)
  obtain ⟨s, hi, hlive⟩ := hbase1
  have hbs := hb.withState s
  obtain rfl : kind = .native := Option.some.inj (hfound.addressed.kind_eq.symm.trans h.kind)
  have hpid : base.record.pid = current.tgid := hfound.addressed.pid.trans h.pid
  -- There is one native base record of the process.
  have hii : i' = i := by
    by_contra hne
    exact hk1.apart i' i base _ hfound.slot hi hne ⟨fun h' => current.tgid_ne (hpid.symm.trans h'),
      hbs.used, .inl ⟨hfound.addressed.base, hbs.base, hfound.addressed.kind, hbs.kind,
        hpid.trans hbs.pid.symm⟩⟩
  subst hii
  obtain rfl := Option.some.inj (hfound.slot.symm.trans hi)
  refine ⟨s, hfound, ?_, ⟨s, hi, hlive⟩⟩
  have hacc := h.accepted
  rw [hrun, h.moduleId] at hacc ⊢
  unfold reportBase at hacc ⊢
  split_ifs at hacc ⊢
  rfl

/-- A table has one record of a module at most, so one that is not EXITED speaks for all. -/
theorem recorded_of_record (hk : WellKeyed t) (hm : moduleId ≠ []) {j : Nat}
    (he : t.entries[j]? = some e) (hmod : IsModule current.tgid moduleId e)
    (hlive : e.record.state ≠ .exited) : Recorded current moduleId t := by
  refine ⟨⟨j, e, he, hmod⟩, ?_⟩
  intro j' e' he' hmod'
  have hjj : j' = j := by
    by_contra hne
    exact hk.apart j' j e' e he' he hne ⟨hmod'.used, hmod.used, .inr (.inr ⟨not_base hm hmod',
      not_base hm hmod, hmod'.1.trans hmod.1.symm, hmod'.2.trans hmod.2.symm⟩)⟩
  subst hjj
  obtain rfl := Option.some.inj (he.symm.trans he')
  exact hlive

/-- **A report that is accepted and not lost** leaves a record of its module. -/
theorem Accepted.recorded (h : Accepted x current moduleId t r looks) (hk : WellKeyed t)
    (hb : BaseOf current b) (hbase : BaseAt i b t) (hlost : ¬ Lost r looks t) :
    moduleId ≠ [] ∧ Recorded current moduleId (after t (.report r looks)) := by
  obtain ⟨s, hfound, hrun, -⟩ := h.stored hk hb hbase
  have hm : moduleId ≠ [] := h.moduleId ▸ hfound.moduleId rfl
  have hk' : WellKeyed (after t (.report r looks)) := hk.steps (steps_of_act hk _)
  refine ⟨hm, ?_⟩
  have hacc := h.accepted
  have hafter : after t (.report r looks) = (reportRuntime r looks t).2 := rfl
  rw [hafter] at hk' ⊢
  rw [hrun] at hacc hk' ⊢
  unfold storeModule at hacc hk' ⊢
  generalize hu : setStateLocked i .injected (refreshExited looks.seen t) = u at hacc hk' ⊢
  cases hslot : (findModule u r.pid moduleId).or (pickSlot u (some i)) with
  | none =>
    rw [hslot] at hacc
    exact absurd hacc (by simp)
  | some slot =>
    rw [hslot] at hk'
    dsimp only at hk' ⊢
    cases hold : u.entries[slot]? with
    | none =>
      -- A slot that is found has an entry.
      cases hf : findModule u r.pid moduleId with
      | some j =>
        rw [hf, Option.some_or] at hslot
        obtain ⟨d, hd, -⟩ := Keyed.first_some hf
        rw [Option.some.inj hslot, hold] at hd
        cases hd
      | none =>
        rw [hf, Option.none_or] at hslot
        obtain ⟨d, hd, -⟩ := pickSlot_some hslot
        rw [hold] at hd
        cases hd
    | some d =>
      rw [hold] at hk'
      dsimp only at hk' ⊢
      split_ifs at hk' ⊢ with hdiff
      · exact recorded_of_record hk' hm (entries_put_self hold) ⟨hb.pid, rfl⟩ nofun
      · simp only [not_or, not_not] at hdiff
        cases hf : findModule u r.pid moduleId with
        | some j =>
          rw [hf, Option.some_or] at hslot
          obtain rfl := Option.some.inj hslot
          obtain ⟨d', hd', hp⟩ := Keyed.first_some hf
          obtain rfl := Option.some.inj (hold.symm.trans hd')
          obtain ⟨hpid, -, hid⟩ := of_decide_eq_true hp
          refine recorded_of_record hk' hm hold ⟨hpid.trans h.pid, hid⟩ ?_
          rw [hdiff.2.1]
          exact nofun
        | none =>
          rw [hf, Option.none_or] at hslot
          refine absurd ⟨i, b.withState s, slot, d, hfound, ?_⟩ hlost
          rw [hu, h.moduleId]
          exact ⟨hf, hslot, hold, hdiff.1, hdiff.2.1, hdiff.2.2⟩

/-- A report that is lost leaves no record of its module. -/
theorem Accepted.not_recorded (h : Accepted x current moduleId t r looks) (hk : WellKeyed t)
    (hb : BaseOf current b) (hbase : BaseAt i b t) (hlost : Lost r looks t) :
    ∀ (j : Nat) (e : Entry), (after t (.report r looks)).entries[j]? = some e →
      e.record.kind = .native → ¬ IsModule current.tgid moduleId e := by
  obtain ⟨s, hfound, hrun, -⟩ := h.stored hk hb hbase
  obtain ⟨i', base', slot, d, hfound', hnone, hpick, hd, hgen, hstate, hstart⟩ := hlost
  have hii : i = i' := by
    have h1 := hfound.first
    have h2 := hfound'.first
    have hs : base'.startBoottime = (b.withState s).startBoottime :=
      Option.some.inj (hfound'.addressed.start.symm.trans hfound.addressed.start)
    rw [hs] at h2
    exact Option.some.inj (h1.symm.trans h2)
  subst hii
  obtain rfl := Option.some.inj (hfound.slot.symm.trans hfound'.slot)
  have hafter : after t (.report r looks) =
      setStateLocked i .injected (refreshExited looks.seen t) := by
    have : after t (.report r looks) = (reportRuntime r looks t).2 := rfl
    rw [this, hrun]
    rw [h.moduleId] at hnone
    unfold storeModule
    rw [hnone, Option.none_or, hpick]
    dsimp only
    rw [hd]
    dsimp only
    rw [if_neg]
    simp only [not_or, not_not]
    exact ⟨hgen, hstate, hstart⟩
  rw [hafter]
  intro j e he hkind hmod
  refine of_decide_eq_false (Keyed.first_none hnone he) ⟨hmod.1.trans h.pid.symm, hkind, ?_⟩
  rw [h.moduleId]
  exact hmod.2

/-! ## 6. The snapshot -/

/-- A snapshot has the records that are in use. -/
theorem mem_snapshot (hk : WellKeyed t) {record : Record} :
    record ∈ (snapshot recordMax t).records ↔
      ∃ (j : Nat) (e : Entry), t.entries[j]? = some e ∧ e.Used ∧ e.record = record := by
  have hlen :
      ((t.entries.filter fun e => e.record.pid ≠ 0).map Entry.record).length ≤ recordMax := by
    rw [List.length_map, ← hk.length]
    exact List.length_filter_le _ _
  rw [snapshot, List.take_of_length_le hlen, List.mem_map]
  constructor
  · rintro ⟨e, he, rfl⟩
    rw [List.mem_filter] at he
    obtain ⟨j, hj⟩ := List.mem_iff_getElem?.1 he.1
    exact ⟨j, e, hj, of_decide_eq_true he.2, rfl⟩
  · rintro ⟨j, e, hj, hu, rfl⟩
    exact ⟨e, List.mem_filter.2 ⟨List.mem_of_getElem? hj, decide_eq_true hu⟩, rfl⟩

/-- The status of a table is that of its snapshot with the dead records marked. -/
theorem nativeStatus_eq : nativeStatus modules seen t =
    buildNativeInjections (snapshot recordMax (refreshExited seen t)) modules := by
  rw [nativeStatus, getRuntime, if_neg (Nat.lt_irrefl _)]

/-- What the status shows, read off the records. -/
theorem shows_iff {snap : Snapshot} {pid : Nat} :
    Shows (buildNativeInjections snap modules) pid moduleId ↔
      ∃ base ∈ snap.records, base.kind = .native ∧ base.state ≠ .exited ∧ base.moduleId = [] ∧
        base.pid = pid ∧ shownState snap.records base moduleId = some "injected" ∧
        ∃ d ∈ modules, d.moduleId = moduleId ∧ d.abi = base.abi ∧
          d.targetType = base.targetType ∧ d.target = base.target := by
  unfold Shows buildNativeInjections
  simp only [List.mem_mergeSort, List.mem_flatMap, List.mem_filter, List.mem_filterMap,
    isNativeBase, Bool.and_eq_true, decide_eq_true_eq]
  constructor
  · rintro ⟨x, ⟨base, ⟨hbase, ⟨hkind, hlive⟩, hid⟩, d, hd, hx⟩, rfl, hmod, hstate⟩
    rw [injectionOf] at hx
    split_ifs at hx with hne
    simp only [not_or, not_not] at hne
    obtain ⟨state, hshown, rfl⟩ := Option.map_eq_some_iff.1 hx
    have hmod' : d.moduleId = moduleId := hmod
    have hstate' : state = "injected" := hstate
    subst hmod' hstate'
    exact ⟨base, hbase, hkind, hlive, hid, rfl, hshown, d, hd, rfl, hne⟩
  · rintro ⟨base, hbase, hkind, hlive, hid, rfl, hshown, d, hd, rfl, habi, htype, htarget⟩
    have hx : injectionOf snap.records base d = some
        { pid := base.pid, process := base.process, moduleId := d.moduleId,
          targetType := base.targetType, target := base.target, abi := base.abi,
          state := "injected", hasCompanion := d.hasCompanion } := by
      rw [injectionOf, if_neg (by simp [habi, htype, htarget]), hshown]
      rfl
    exact ⟨_, ⟨base, ⟨hbase, ⟨hkind, hlive⟩, hid⟩, d, hd, hx⟩, rfl, rfl, rfl⟩

/-- The record that the status finds for a recorded module is injected. -/
theorem shownState_recorded (hk : WellKeyed t) (hb : BaseOf current b) (hm : moduleId ≠ [])
    (hi : t.entries[i]? = some b) (hrec : Recorded current moduleId t) :
    shownState (snapshot recordMax t).records b.record moduleId = some "injected" := by
  obtain ⟨⟨j, e, he, hmod⟩, hlive⟩ := hrec
  have hcopy : ∀ (j : Nat) (e : Entry), t.entries[j]? = some e →
      IsModule current.tgid moduleId e → e = moduleEntry b moduleId := by
    intro j e he hmod
    have h := hk.copies j i e b he hi hmod.used (not_base hm hmod) (hlive j e he hmod) hb.used
      hb.base hb.kind (hmod.1.trans hb.pid.symm)
    rwa [hmod.2] at h
  have hmem : (moduleEntry b moduleId).record ∈ (snapshot recordMax t).records :=
    (mem_snapshot hk).2 ⟨j, e, he, hmod.used, by rw [hcopy j e he hmod]⟩
  rw [shownState]
  cases hfind : findReadyRecord (snapshot recordMax t).records b.record moduleId with
  | none =>
    rw [findReadyRecord, List.find?_eq_none] at hfind
    refine absurd (hfind _ hmem) ?_
    rw [not_not, decide_eq_true_eq]
    exact ⟨hb.kind, rfl, rfl, rfl, rfl, nofun⟩
  | some ready =>
    rw [findReadyRecord] at hfind
    have hp := List.find?_some hfind
    rw [decide_eq_true_eq] at hp
    obtain ⟨j', e', he', -, rfl⟩ := (mem_snapshot hk).1 (List.mem_of_find?_eq_some hfind)
    have hmod' : IsModule current.tgid moduleId e' := ⟨hp.2.1.trans hb.pid, hp.2.2.2.2.1⟩
    rw [hcopy j' e' he' hmod']
    rfl

/-- The base record of the process is the only native one. -/
theorem base_unique (hk : WellKeyed t) (hb : BaseOf current b) (hi : t.entries[i]? = some b)
    {record : Record} (hmem : record ∈ (snapshot recordMax t).records)
    (hkind : record.kind = .native) (hid : record.moduleId = [])
    (hpid : record.pid = current.tgid) :
    record = b.record := by
  obtain ⟨j, e, he, hu, rfl⟩ := (mem_snapshot hk).1 hmem
  have hji : j = i := by
    by_contra hne
    exact hk.apart j i e b he hi hne
      ⟨hu, hb.used, .inl ⟨hid, hb.base, hkind, hb.kind, hpid.trans hb.pid.symm⟩⟩
  subst hji
  rw [Option.some.inj (he.symm.trans hi)]

/-- **The status of a recorded module.**  It is shown exactly when a definition of the module has
the target that the kernel matched. -/
theorem shows_recorded (hk : WellKeyed t) (hargs : x.beginArgs = some args) {generation : Nat}
    (hbase : BaseAt i (newEntry args current 0 generation) t) (hm : moduleId ≠ [])
    (hrec : Recorded current moduleId t) :
    Shows (buildNativeInjections (snapshot recordMax t) modules) current.tgid moduleId ↔
      HasDefinition x modules moduleId := by
  obtain ⟨s, hi, hlive⟩ := hbase
  have hb : BaseOf current ((newEntry args current 0 generation).withState s) :=
    (baseOf_newEntry (kind_beginArgs hargs) generation).withState s
  have htarget : zpCopyName nativeTargetValueMax args.target.bytes = args.target.bytes :=
    zpCopyName_buffer args.target
  rw [shows_iff]
  constructor
  · rintro ⟨base, hmem, hkind, -, hid, hpid, -, d, hd, hdid, habi, htype, htgt⟩
    obtain rfl := base_unique hk hb hi hmem hkind hid hpid
    exact ⟨args, hargs, d, hd, hdid, habi, htype, htgt.trans htarget⟩
  · rintro ⟨args', hargs', d, hd, hdid, habi, htype, htgt⟩
    obtain rfl := Option.some.inj (hargs.symm.trans hargs')
    exact ⟨_, (mem_snapshot hk).2 ⟨i, _, hi, hb.used, rfl⟩, hb.kind, hlive, hb.base, hb.pid,
      shownState_recorded hk hb hm hi hrec, d, hd, hdid, habi, htype, htgt.trans htarget.symm⟩

/-- A module without a record is not shown as injected, unless its base record is. -/
theorem not_shows_of_no_record (hk : WellKeyed t)
    (hno : ∀ (j : Nat) (e : Entry), t.entries[j]? = some e → e.record.kind = .native →
      ¬ IsModule current.tgid moduleId e) :
    ¬ Shows (buildNativeInjections (snapshot recordMax t) modules) current.tgid moduleId := by
  rw [shows_iff]
  rintro ⟨base, -, -, -, -, hpid, hshown, -⟩
  rw [shownState] at hshown
  cases hfind : findReadyRecord (snapshot recordMax t).records base moduleId with
  | none =>
    rw [hfind] at hshown
    dsimp only at hshown
    split_ifs at hshown <;> simp at hshown
  | some ready =>
    rw [findReadyRecord] at hfind
    have hp := List.find?_some hfind
    rw [decide_eq_true_eq] at hp
    obtain ⟨j, e, he, -, rfl⟩ := (mem_snapshot hk).1 (List.mem_of_find?_eq_some hfind)
    exact hno j e he hp.1 ⟨hp.2.1.trans hpid, hp.2.2.2.2.1⟩

/-! ## 7. When the status is complete -/

/-- A record after the dead ones are marked has the key of the one before. -/
theorem of_refresh (hk : WellKeyed t) {j : Nat}
    (he : (refreshExited seen t).entries[j]? = some e) :
    ∃ d s, t.entries[j]? = some d ∧ e = d.withState s := by
  obtain ⟨d, hd, rfl⟩ := of_exitEach_at hk.length he
  obtain ⟨s, hs⟩ := exitIf_eq (gone seen) j d
  exact ⟨d, s, hd, hs⟩

/-- Marking the dead records keeps what is recorded of a live process. -/
theorem recorded_refresh (hk : WellKeyed t) (hb : BaseOf current b) (hbase : BaseAt i b t)
    (hm : moduleId ≠ []) (hrec : Recorded current moduleId t)
    (halive : ∀ j, taskAlive (seen j) current.tgid current.startBoottime = true) :
    BaseAt i b (refreshExited seen t) ∧ Recorded current moduleId (refreshExited seen t) := by
  have hs := steps_of_refresh seen t
  have hdead : ∀ j, ¬ taskAlive (seen j) current.tgid current.startBoottime = false := by
    intro j hj
    rw [halive j] at hj
    cases hj
  obtain ⟨⟨j, e, he, hmod⟩, hl⟩ := hrec
  refine ⟨baseAt_steps hs hb hbase (fun _ h => h) hdead, ⟨j, exitIf (gone seen) j e, ?_, ?_⟩,
    live_steps hk hs hb hbase hm hl (fun _ _ _ h => h) hdead⟩
  · rw [refreshExited, exitEach_at hk.length, he]
    rfl
  · obtain ⟨s, hs⟩ := exitIf_eq (gone seen) j e
    rw [hs]
    exact hmod

/-- **When the status is complete.**  After a report that is not lost, as long as the process is
alive and the record is not evicted, the next status shows the module as injected exactly when a
definition of the module has the target that the kernel matched first.  After a report that is
lost, the next status does not show the module. -/
theorem statusComplete_iff (modules : List NativeDefinition)
    (h : Accepted x current moduleId t r looks)
    (hp : runtime.Path (fun t a => Quiet current t a ∧ Keeps current moduleId t a)
      (after t (.report r looks)) t')
    (halive : ∀ j, taskAlive (seen j) current.tgid current.startBoottime = true) :
    (¬ Lost r looks t → (Shows (nativeStatus modules seen t') current.tgid moduleId ↔
      HasDefinition x modules moduleId)) ∧
    (Lost r looks t →
      ¬ Shows (nativeStatus modules seen (after t (.report r looks))) current.tgid moduleId) := by
  obtain ⟨hr, args, i, generation, hargs, hkind, hbase⟩ := h.base
  have hk := wellKeyed_of_reach hr
  have hb : BaseOf current (newEntry args current 0 generation) :=
    baseOf_newEntry hkind generation
  have hr1 : runtime.Reach Lts.anyStep (after t (.report r looks)) :=
    hr.step (a := .report r looks) trivial rfl
  constructor
  · intro hlost
    obtain ⟨hm, hrec⟩ := h.recorded hk hb hbase hlost
    have hbase1 := (quiet_step moduleId hk h.quiet hb hbase).1
    obtain ⟨hbase2, hrec2⟩ := recorded_of_path hr1 hb hm hbase1 hrec hp
    have hk2 := wellKeyed_of_reach (hr1.path (Lts.Path.mono (fun _ _ _ => trivial) hp))
    obtain ⟨hbase3, hrec3⟩ := recorded_refresh hk2 hb hbase2 hm hrec2 halive
    rw [nativeStatus_eq]
    exact shows_recorded (hk2.steps (steps_of_refresh seen t')) hargs hbase3 hm hrec3
  · intro hlost
    have hk1 := wellKeyed_of_reach hr1
    rw [nativeStatus_eq]
    refine not_shows_of_no_record (hk1.steps (steps_of_refresh seen _))
      fun j e he hkind' hmod => ?_
    obtain ⟨d, s, hd, rfl⟩ := of_refresh hk1 he
    exact h.not_recorded hk hb hbase hlost j d hd hkind' hmod

/-! ## 8. One process, two targets -/

/-- The file /x/foo is executed.  One target is its name, the next one its path. -/
def sampleExec : Exec where
  targets := [⟨nativeTargetName, [102, 111, 111]⟩,
    ⟨nativeTargetPath, [47, 120, 47, 102, 111, 111]⟩]
  early := []
  filename := [47, 120, 47, 102, 111, 111]
  initChild := true
  compat := false
  process := ⟨[102, 111, 111], by decide⟩

/-- Module `b` has the path as its target. -/
def sampleDefinition : NativeDefinition :=
  ⟨[98], nativeTargetPath, [47, 120, 47, 102, 111, 111], false, 2⟩

/-- Module `a` has the name. -/
def sampleModules : List NativeDefinition :=
  [⟨[97], nativeTargetName, [102, 111, 111], false, 2⟩, sampleDefinition]

def sampleCurrent : Current := ⟨7, 1, Nat.succ_ne_zero 6⟩

def sampleExecArgs : BeginArgs :=
  ⟨.native, 2, nativeTargetName, 0, ⟨[102, 111, 111], by decide⟩, ⟨[102, 111, 111], by decide⟩⟩

/-- Process 7 is alive in all looks. -/
def sampleTasks : Tasks := fun pid => if pid = 7 then some 1 else none

/-- The process was executed, and its entry point is redirected. -/
def sampleRedirected : Table :=
  setState 7 1 .redirected (begin sampleExecArgs sampleCurrent (fun _ => sampleTasks) .empty).2

def sampleReport : Report := ⟨7, 1, some .native, [98]⟩

def sampleLooks : Looks := ⟨sampleTasks, fun _ => sampleTasks, sampleTasks⟩

theorem accepted_sample :
    Accepted sampleExec sampleCurrent [98] sampleRedirected sampleReport sampleLooks where
  begun := by
    refine ⟨sampleExecArgs, .empty, fun _ => sampleTasks, rfl, .ofInit rfl, by decide +kernel, ?_⟩
    refine .single ⟨.setState 7 1 .redirected, ⟨nofun, fun _ h => ?_⟩, rfl⟩
    cases h
  pid := rfl
  kind := rfl
  moduleId := rfl
  quiet := by
    refine ⟨nofun, ?_⟩
    intro j h
    have halive : taskAlive sampleTasks 7 1 = true := by decide
    rcases h with h | h <;> exact absurd (halive.symm.trans h) (by decide)
  accepted := by decide +kernel

theorem statusComplete_iff_sample :
    (¬ Lost sampleReport sampleLooks sampleRedirected →
      (Shows (nativeStatus sampleModules (fun _ => sampleTasks)
        (after sampleRedirected (.report sampleReport sampleLooks))) 7 [98] ↔
        HasDefinition sampleExec sampleModules [98])) ∧
    (Lost sampleReport sampleLooks sampleRedirected →
      ¬ Shows (nativeStatus sampleModules (fun _ => sampleTasks)
        (after sampleRedirected (.report sampleReport sampleLooks))) 7 [98]) :=
  statusComplete_iff sampleModules accepted_sample .refl fun _ => by decide

/-- The process reports module `b`, and the status has no entry for it: the base record has the
target of module `a`. -/
theorem not_statusComplete : ¬ StatusComplete := by
  intro h
  have hshows := h sampleExec sampleCurrent sampleModules sampleDefinition sampleRedirected _
    sampleReport sampleLooks (fun _ => sampleTasks) (by decide) (by decide) rfl accepted_sample
    .refl fun _ => by decide
  rw [nativeStatus_eq, shows_iff] at hshows
  obtain ⟨base, hbase, -, -, -, -, -, d, hd, hid, -, htype, -⟩ := hshows
  have hpath : ∀ d ∈ sampleModules, d.moduleId = sampleDefinition.moduleId →
      d.targetType = nativeTargetPath := by decide
  have hname : ∀ record ∈ (snapshot recordMax (refreshExited (fun _ => sampleTasks)
      (after sampleRedirected (.report sampleReport sampleLooks)))).records,
      record.targetType = nativeTargetName := by decide +kernel
  rw [hpath d hd hid, hname base hbase] at htype
  exact absurd htype (by decide)

end YukiZygisk.Status
