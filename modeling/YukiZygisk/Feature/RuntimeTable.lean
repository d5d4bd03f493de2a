/-
# The runtime record table (`kernel/feature/zygote_probe.c`)

The probe keeps a table of 128 records.  A process that is about to be injected gets a BASE
record; when the core in the process reports a module, the table gets a MODULE record, a copy
of the base record with the id of the module.  The table is read by a poller, which compares
the generation of two snapshots to see whether anything has changed.

A slot is found by key, or it is the first free one, the oldest EXITED one or the oldest module
record.  Each call first marks the records of dead tasks as EXITED.  The task table is not under
the lock of the record table, so the model gives each look at it a task table of its own.

`put` is the only change the operations make.  From it: `wellKeyed_of_reach`, the keys in the table
are unique (`records_unique`); `advances_of_act`, the generation moves when a record does
(`snapshots_agree`).

The strings of a request are in buffers of the source's sizes, each with its proof that it fits
(`Buffer`), so that no operation is given a name that the kernel could not be.  `bumps` counts how
often the generation was advanced; no operation reads it, and the theorems use it to say how many
changes lie between two states.  The lemmas here are the projections of the two updates, a new state
and a put, which every later proof takes as rewriting rules.
-/
import Mathlib
import YukiZygisk.Lib.Lts
import YukiZygisk.Feature.EarlyNative

namespace YukiZygisk.Runtime

open YukiZygisk.Native (zpCopyName nativeTargetValueMax nativeModuleIdMax)

/-! ## 1. Records -/

/-- `YZ_RUNTIME_RECORD_MAX` and `YZ_RUNTIME_PROCESS_MAX`. -/
def recordMax : Nat := 128
def processMax : Nat := 256

/-- `enum yz_runtime_kind`. -/
inductive Kind where
  | zygote
  | native
  deriving DecidableEq

/-- `enum yz_runtime_state`. -/
inductive State where
  | detected
  | redirected
  | injected
  | failed
  | safemode
  | exited
  deriving DecidableEq

/-- `struct yz_runtime_record`.  A free slot has pid 0, and nothing reads its other fields. -/
structure Record where
  pid : Nat := 0
  generation : Nat := 0
  restarts : Nat := 0
  kind : Kind := .zygote
  state : State := .detected
  abi : UInt8 := 0
  targetType : UInt8 := 0
  flags : Nat := 0
  process : List UInt8 := []
  target : List UInt8 := []
  moduleId : List UInt8 := []
  deriving DecidableEq

/-- `struct zp_runtime_entry`. -/
structure Entry where
  record : Record := {}
  startBoottime : Nat := 0
  deriving DecidableEq

namespace Entry

/-- The slot is taken. -/
def Used (e : Entry) : Prop := e.record.pid ≠ 0

/-- The record is not one of a module. -/
def Base (e : Entry) : Prop := e.record.moduleId = []

instance (e : Entry) : Decidable e.Used := inferInstanceAs (Decidable (_ ≠ _))
instance (e : Entry) : Decidable e.Base := inferInstanceAs (Decidable (_ = _))

def withState (e : Entry) (state : State) : Entry :=
  { e with record := { e.record with state } }

@[simp] theorem withState_pid (e : Entry) (s : State) : (e.withState s).record.pid = e.record.pid :=
  rfl
@[simp] theorem withState_generation (e : Entry) (s : State) :
    (e.withState s).record.generation = e.record.generation := rfl
@[simp] theorem withState_kind (e : Entry) (s : State) :
    (e.withState s).record.kind = e.record.kind := rfl
@[simp] theorem withState_state (e : Entry) (s : State) : (e.withState s).record.state = s := rfl
@[simp] theorem withState_abi (e : Entry) (s : State) : (e.withState s).record.abi = e.record.abi :=
  rfl
@[simp] theorem withState_target (e : Entry) (s : State) :
    (e.withState s).record.target = e.record.target := rfl
@[simp] theorem withState_moduleId (e : Entry) (s : State) :
    (e.withState s).record.moduleId = e.record.moduleId := rfl
@[simp] theorem withState_start (e : Entry) (s : State) :
    (e.withState s).startBoottime = e.startBoottime := rfl
@[simp] theorem withState_withState (e : Entry) (s s' : State) :
    (e.withState s).withState s' = e.withState s' := rfl
@[simp] theorem used_withState (e : Entry) (s : State) : (e.withState s).Used ↔ e.Used := Iff.rfl
@[simp] theorem base_withState (e : Entry) (s : State) : (e.withState s).Base ↔ e.Base := Iff.rfl
theorem withState_self (e : Entry) : e.withState e.record.state = e := rfl

end Entry

/-- The table and `zp_runtime_generation`.  `bumps` counts the calls of
`zp_runtime_next_generation_locked`: it is there to speak about runs, the kernel has no such
field. -/
structure Table where
  entries : List Entry
  generation : Nat
  bumps : Nat
  deriving DecidableEq

/-- The table when the module is loaded. -/
def Table.empty : Table := ⟨List.replicate recordMax {}, 0, 0⟩

/-- `zp_runtime_next_generation_locked`, on the counter. -/
def nextGeneration (generation : Nat) : Nat :=
  let generation := (generation + 1) % 2 ^ 32
  if generation = 0 then 1 else generation

namespace Table

/-- Store an entry and take the next generation. -/
def put (t : Table) (i : Nat) (e : Entry) : Table :=
  ⟨t.entries.set i e, nextGeneration t.generation, t.bumps + 1⟩

@[simp] theorem put_entries (t : Table) (i : Nat) (e : Entry) :
    (t.put i e).entries = t.entries.set i e := rfl
@[simp] theorem put_generation (t : Table) (i : Nat) (e : Entry) :
    (t.put i e).generation = nextGeneration t.generation := rfl
@[simp] theorem put_bumps (t : Table) (i : Nat) (e : Entry) : (t.put i e).bumps = t.bumps + 1 := rfl

end Table

/-! ## 2. Tasks -/

/-- The tasks that have not exited: the start time of each pid. -/
abbrev Tasks := Nat → Option Nat

/-- `zp_runtime_task_alive`. -/
def taskAlive (tasks : Tasks) (pid startBoottime : Nat) : Bool := tasks pid = some startBoottime

/-- `current`, which is never the idle task. -/
structure Current where
  tgid : Nat
  startBoottime : Nat
  tgid_ne : tgid ≠ 0

/-- A string in a buffer of `size` bytes, with its zero byte. -/
structure Buffer (size : Nat) where
  bytes : List UInt8
  fits : bytes.length < size

theorem zpCopyName_buffer {size : Nat} (b : Buffer size) : zpCopyName size b.bytes = b.bytes :=
  List.take_of_length_le (by have := b.fits; omega)

/-! ## 3. Searching the table -/

/-- `zp_runtime_find_base_locked`. -/
def findBase (t : Table) (pid startBoottime : Nat) (kind : Kind) (generation : Nat) : Option Nat :=
  t.entries.findIdx? fun e =>
    e.record.pid = pid ∧ e.startBoottime = startBoottime ∧ e.record.kind = kind ∧
      e.record.generation = generation ∧ e.record.moduleId = [] ∧ e.record.state ≠ .exited

/-- `zp_runtime_find_native_pid_locked`. -/
def findNativePid (t : Table) (pid : Nat) : Option Nat :=
  t.entries.findIdx? fun e =>
    e.record.pid = pid ∧ e.record.kind = .native ∧ e.record.moduleId = []

/-- `zp_runtime_find_zygote_locked`. -/
def findZygote (t : Table) (target : List UInt8) (abi : UInt8) : Option Nat :=
  t.entries.findIdx? fun e =>
    e.record.pid ≠ 0 ∧ e.record.kind = .zygote ∧ e.record.abi = abi ∧ e.record.moduleId = [] ∧
      e.record.target = target

/-- `zp_runtime_find_module_locked`. -/
def findModule (t : Table) (pid : Nat) (moduleId : List UInt8) : Option Nat :=
  t.entries.findIdx? fun e =>
    e.record.pid = pid ∧ e.record.kind = .native ∧ e.record.moduleId = moduleId

/-- There is no candidate yet, or its generation is higher. -/
def older (e : Entry) (candidate : Option (Nat × Nat)) : Bool :=
  match candidate with
  | none => true
  | some (_, generation) => e.record.generation < generation

/-- The loop of `zp_runtime_pick_slot_locked` from slot `i` on: the slots `exited` and `module`,
each with its generation. -/
def pickSlotFrom (exclude : Option Nat) : List Entry → Nat → Option (Nat × Nat) →
    Option (Nat × Nat) → Option Nat
  | [], _, exited, module => (exited.or module).map Prod.fst
  | e :: rest, i, exited, module =>
    if exclude = some i then pickSlotFrom exclude rest (i + 1) exited module
    else if e.record.pid = 0 then some i
    else
      pickSlotFrom exclude rest (i + 1)
        (if e.record.state = .exited ∧ older e exited then some (i, e.record.generation)
          else exited)
        (if e.record.moduleId ≠ [] ∧ older e module then some (i, e.record.generation)
          else module)

/-- `zp_runtime_pick_slot_locked`. -/
def pickSlot (t : Table) (exclude : Option Nat) : Option Nat :=
  pickSlotFrom exclude t.entries 0 none none

/-! ## 4. The operations -/

/-- `zp_runtime_set_state_locked`. -/
def setStateLocked (i : Nat) (state : State) (t : Table) : Table :=
  match t.entries[i]? with
  | none => t
  | some e => if e.record.state = state then t else t.put i (e.withState state)

/-- Mark the record in a slot as EXITED when it meets the test. -/
def exitOne (test : Nat → Entry → Bool) (t : Table) (i : Nat) : Table :=
  match t.entries[i]? with
  | none => t
  | some e => if test i e then setStateLocked i .exited t else t

/-- Mark the records that meet the test as EXITED, slot by slot. -/
@[irreducible] def exitEach (test : Nat → Entry → Bool) (t : Table) : Table :=
  (List.range recordMax).foldl (exitOne test) t

/-- The test of `zp_runtime_refresh_exited_locked`; at slot `i` it sees the tasks `seen i`. -/
def gone (seen : Nat → Tasks) (i : Nat) (e : Entry) : Bool :=
  e.record.pid ≠ 0 && e.record.state ≠ .exited &&
    !taskAlive (seen i) e.record.pid e.startBoottime

/-- `zp_runtime_refresh_exited_locked`. -/
def refreshExited (seen : Nat → Tasks) (t : Table) : Table := exitEach (gone seen) t

/-- The loop of `zp_runtime_begin` over the modules of the process. -/
def exitModules (pid : Nat) (t : Table) : Table :=
  exitEach (fun _ e =>
    e.record.pid = pid && e.record.kind = .native && e.record.moduleId ≠ []) t

/-- The arguments of `zp_runtime_begin`. -/
structure BeginArgs where
  kind : Kind
  abi : UInt8
  targetType : UInt8
  flags : Nat
  process : Buffer processMax
  target : Buffer nativeTargetValueMax

/-- The record that `zp_runtime_begin` stores. -/
def newEntry (args : BeginArgs) (current : Current) (restarts generation : Nat) : Entry where
  record :=
    { pid := current.tgid
      generation
      restarts
      kind := args.kind
      state := .detected
      abi := args.abi
      targetType := args.targetType
      flags := args.flags
      process := zpCopyName processMax args.process.bytes
      target := zpCopyName nativeTargetValueMax args.target.bytes
      moduleId := [] }
  startBoottime := current.startBoottime

/-- The number of restarts of the record in a slot that is started again. -/
def restartsOf (t : Table) (matched : Option Nat) : Nat :=
  match matched.bind fun i => t.entries[i]? with
  | none => 0
  | some e => (e.record.restarts + 1) % 2 ^ 32

/-- `zp_runtime_begin`: the generation it returns and the table after it. -/
def begin (args : BeginArgs) (current : Current) (seen : Nat → Tasks) (t : Table) : Nat × Table :=
  let t := refreshExited seen t
  match args.kind with
  | .zygote =>
    let matched := findZygote t args.target.bytes args.abi
    match matched.or (pickSlot t none) with
    | none => (0, t)
    | some slot =>
      let generation := nextGeneration t.generation
      (generation, t.put slot (newEntry args current (restartsOf t matched) generation))
  | .native =>
    let matched := findNativePid t current.tgid
    let t := exitModules current.tgid t
    match matched.or (pickSlot t none) with
    | none => (0, t)
    | some slot =>
      let generation := nextGeneration t.generation
      (generation, t.put slot (newEntry args current 0 generation))

/-- `zp_runtime_set_state`. -/
def setState (pid generation : Nat) (state : State) (t : Table) : Table :=
  if generation = 0 then t
  else
    match t.entries.findIdx? fun e =>
        e.record.pid = pid ∧ e.record.generation = generation ∧ e.record.moduleId = [] with
    | none => t
    | some i => setStateLocked i state t

/-- What `yz_zygote_probe_get_runtime` gives back of the table. -/
structure Snapshot where
  records : List Record
  generation : Nat
  deriving DecidableEq

/-- The loop of `yz_zygote_probe_get_runtime`. -/
def snapshot (capacity : Nat) (t : Table) : Snapshot :=
  ⟨((t.entries.filter fun e => e.record.pid ≠ 0).map Entry.record).take capacity, t.generation⟩

/-- `yz_zygote_probe_get_runtime`: no snapshot is `-EINVAL`. -/
def getRuntime (capacity : Nat) (seen : Nat → Tasks) (t : Table) : Option Snapshot × Table :=
  if recordMax < capacity then (none, t)
  else (some (snapshot capacity (refreshExited seen t)), refreshExited seen t)

inductive Errno where
  | einval
  | esrch
  | eagain
  | enospc
  deriving DecidableEq

/-- `struct yz_runtime_report_cmd`.  `kind` is `none` when the byte is no kind. -/
structure Report where
  pid : Nat
  generation : Nat
  kind : Option Kind
  moduleId : List UInt8

/-- The looks of a report at the tasks: before the lock, while it marks the dead ones, and once
more on the base record. -/
structure Looks where
  found : Tasks
  seen : Nat → Tasks
  again : Tasks

/-- The module record that a report stores. -/
def moduleEntry (base : Entry) (moduleId : List UInt8) : Entry :=
  { base with record := { base.record with moduleId, state := .injected } }

/-- The last part of `yz_zygote_probe_report_runtime`: the module record of `base`, in slot
`baseSlot`. -/
def storeModule (baseSlot : Nat) (base : Entry) (pid : Nat) (moduleId : List UInt8) (t : Table) :
    Option Errno × Table :=
  match (findModule t pid moduleId).or (pickSlot t (some baseSlot)) with
  | none => (some .enospc, t)
  | some slot =>
    match t.entries[slot]? with
    | none => (none, t)
    | some module =>
      if module.record.generation ≠ base.record.generation ∨ module.record.state ≠ .injected ∨
          module.startBoottime ≠ base.startBoottime then
        (none, t.put slot (moduleEntry base moduleId))
      else (none, t)

/-- The part of `yz_zygote_probe_report_runtime` after the base record is found. -/
def reportBase (kind : Kind) (pid : Nat) (moduleId : List UInt8) (again : Tasks) (baseSlot : Nat)
    (base : Entry) (t : Table) : Option Errno × Table :=
  if !taskAlive again base.record.pid base.startBoottime then
    (some .esrch, setStateLocked baseSlot .exited t)
  else if base.record.state ≠ .redirected ∧ base.record.state ≠ .injected then (some .eagain, t)
  else
    let t := setStateLocked baseSlot .injected t
    match kind with
    | .zygote => (none, t)
    | .native => storeModule baseSlot (base.withState .injected) pid moduleId t

/-- The part of `yz_zygote_probe_report_runtime` under the lock. -/
def reportLocked (kind : Kind) (r : Report) (moduleId : List UInt8) (startBoottime : Nat)
    (looks : Looks) (t : Table) : Option Errno × Table :=
  let t := refreshExited looks.seen t
  match findBase t r.pid startBoottime kind r.generation with
  | none => (some .esrch, t)
  | some baseSlot =>
    match t.entries[baseSlot]? with
    | none => (some .esrch, t)
    | some base => reportBase kind r.pid moduleId looks.again baseSlot base t

/-- `yz_zygote_probe_report_runtime`: the error it returns, and the table after it. -/
def reportRuntime (r : Report) (looks : Looks) (t : Table) : Option Errno × Table :=
  match r.kind with
  | none => (some .einval, t)
  | some kind =>
    let moduleId := zpCopyName nativeModuleIdMax r.moduleId
    if r.pid = 0 ∨ r.generation = 0 then (some .einval, t)
    else if kind = .native ∧ moduleId = [] then (some .einval, t)
    else
      match looks.found r.pid with
      | none => (some .esrch, t)
      | some startBoottime => reportLocked kind r moduleId startBoottime looks t

/-! ## 5. Runs -/

inductive Act where
  | begin (args : BeginArgs) (current : Current) (seen : Nat → Tasks)
  | setState (pid generation : Nat) (state : State)
  | getRuntime (capacity : Nat) (seen : Nat → Tasks)
  | report (r : Report) (looks : Looks)

/-- The table after an operation. -/
def after (t : Table) : Act → Table
  | .begin args current seen => (begin args current seen t).2
  | .setState pid generation state => setState pid generation state t
  | .getRuntime capacity seen => (getRuntime capacity seen t).2
  | .report r looks => (reportRuntime r looks t).2

def runtime : Lts Table Act where
  init t := t = Table.empty
  step t a := some (after t a)

end YukiZygisk.Runtime
