/-
# Handing files to an app (`kernel/feature/zygote_ctl.c`)

A handoff takes references to the daemon's files, puts them into one of 64 slots and hangs the
slot's callback head on the task of the target.  The target installs the files when it runs its
task works.  A release, called for a tracked process that is freed, drops what is in the slot of
its pid, and so does the end of the module for every slot.

The callback head is part of its slot, and a slot is chosen by its pid alone.  So a handoff can
take a slot whose head is still on a task's list, and clearing a slot clears the link of its
head.  Heads and their lists are therefore modelled as the kernel keeps them: one link for each
slot, and for each task the two places a list of works starts at.

Handoffs, deliveries, releases and the life of tasks are steps that interleave.  The end of the
module takes no lock: it loads a file of a slot in one step and drops it in the next, and leaves
the slot in a step of its own, so that a delivery or a release can come in between.

`Steps` is the inversion of the step function: it lists what an action can have done, with its
conditions, so that each invariant of the two modules that follow is one lemma for each of its
cases.  References and deliveries are kept in ghost logs, `taken`, `installed` and `dropped`.  They
say what has been done with a reference and are read by no operation.
-/
import YukiZygisk.Lib.Lts
import YukiZygisk.Lib.Chains
import YukiZygisk.Lib.Tally
import YukiZygisk.Feature.OrchChildren

namespace YukiZygisk.Ctl

open Orch Chains Tally

/-! ## 1. Slots and tasks -/

/-- A reference to an open file, taken by a handoff.  Both fields are ghosts: no two references
have one `id`, and `pid` is the one the handoff was for. -/
structure FileRef where
  id : Nat
  pid : Nat
  deriving DecidableEq

/-- `struct yz_pending`; pid 0 is a free slot.  `files` is the first `n` entries of the array,
`next` and `func` are the callback head (`func` is whether it is `yz_deliver_cb`). -/
structure YzPending where
  pid : Nat
  appid : UInt32
  flags : UInt32
  files : List FileRef
  next : Option Nat
  func : Bool
  deriving DecidableEq

/-- `YZ_MAX_PENDING`. -/
def yzMaxPending : Nat := 64

/-- `YZ_MAX_MODULE_FDS`. -/
def yzMaxModuleFds : Nat := 8

/-- `memset(p, 0, sizeof(*p))`. -/
def YzPending.zero : YzPending := ⟨0, 0, 0, [], none, false⟩

/-- `yz_slot_of`. -/
def yzSlotOf (pending : List YzPending) (pid : Nat) : Option Nat :=
  pending.findIdx? fun p => p.pid = pid

theorem pendingSlot_some {pending : List YzPending} {pid i : Nat}
    (h : yzSlotOf pending pid = some i) : ∃ p, pending[i]? = some p ∧ p.pid = pid :=
  Keyed.slotOf_some h

theorem pendingSlot_none {pending : List YzPending} {pid : Nat} (h : yzSlotOf pending pid = none) :
    ∀ p ∈ pending, p.pid ≠ pid :=
  Keyed.slotOf_none h

/-- `struct yz_handoff_cmd`; `fds` is the first `n_fds` entries of the array. -/
structure YzHandoffCmd where
  pid : Nat
  appid : UInt32
  flags : UInt32
  fds : List Int

inductive HandoffError
  | einval | ebadf | enospc
  deriving DecidableEq

/-- The two places a list of works starts at: `task->task_works`, and what `task_work_run` has
taken and not called yet. -/
inductive Which
  | works | running
  deriving DecidableEq

/-- A task.  `exiting` is `PF_EXITING`, `gone` is set when its exit has run the last work and
`task_work_add` fails from then on, `reaped` when its pid is given back, `freed` when the
`sched_process_free` callback was called. -/
structure Task where
  pid : Nat
  leader : Bool
  exiting : Bool
  gone : Bool
  reaped : Bool
  freed : Bool
  works : Option Nat
  running : Option Nat
  deriving DecidableEq

def Task.head (task : Task) : Which → Option Nat
  | .works => task.works
  | .running => task.running

/-- The slots, the tasks, the table of the orchestrator, and where `yz_zygote_ctl_exit` is: at a
slot and a file of it, with the file it has loaded and not dropped yet.  The last three are
ghosts: the references handoffs took, those installed and in which task, and those dropped. -/
structure HandoffRun where
  pending : List YzPending
  tasks : List Task
  children : List ZoChild
  exitAt : Option (Nat × Nat)
  exitFile : Option FileRef
  taken : List FileRef
  installed : List (Nat × FileRef)
  dropped : List FileRef
  deriving DecidableEq

namespace HandoffRun

variable (s : HandoffRun)

def next (i : Nat) : Option Nat := s.pending[i]?.bind (·.next)
def head (place : Nat × Which) : Option Nat := s.tasks[place.1]?.bind (·.head place.2)

/-! ## 2. The control plane -/

/-- The references the `fget` loop takes. -/
def takes (cmd : YzHandoffCmd) (fget : Int → Bool) : List FileRef :=
  (List.range (cmd.fds.takeWhile fget).length).map fun k => ⟨s.taken.length + k, cmd.pid⟩

/-- `yz_task_work_add`: the head goes to the front, unless the task is past its last work. -/
def taskWorkAdd (t i : Nat) : HandoffRun :=
  match s.tasks[t]?, s.pending[i]? with
  | some task, some p =>
    if task.gone then s
    else
      { s with
        pending := s.pending.set i { p with next := task.works }
        tasks := s.tasks.set t { task with works := some i } }
  | _, _ => s

/-- The locked section of `yz_zygote_ctl_handoff` once it has its slot, and the drop of the files
that were in it.  `init_task_work` sets the function of the head and not its link. -/
def place (i : Nat) (cmd : YzHandoffCmd) (files : List FileRef) (task : Option Nat) : HandoffRun :=
  match s.pending[i]? with
  | none => s
  | some p =>
    let p' := { p with pid := cmd.pid, appid := cmd.appid, flags := cmd.flags, files := files }
    match task with
    | none => { s with pending := s.pending.set i p', dropped := s.dropped ++ p.files }
    | some t =>
      { s with
        pending := s.pending.set i { p' with func := true }
        dropped := s.dropped ++ p.files }.taskWorkAdd t i

/-- The slot a handoff takes. -/
def slotFor (pid : Nat) : Option Nat := (yzSlotOf s.pending pid).or (yzSlotOf s.pending 0)

/-- `yz_zygote_ctl_handoff` on a command it could copy.  `fget` says which descriptors of the
caller are open, `task` is what `find_task_by_vpid` found. -/
def yzZygoteCtlHandoff (cmd : YzHandoffCmd) (fget : Int → Bool) (task : Option Nat) :
    HandoffRun × Option HandoffError :=
  if yzMaxModuleFds < cmd.fds.length then (s, some .einval)
  else
    let files := s.takes cmd fget
    let s' := { s with taken := s.taken ++ files }
    if cmd.fds.all fget then
      match s.slotFor cmd.pid with
      | none => ({ s' with dropped := s.dropped ++ files }, some .enospc)
      | some i => (s'.place i cmd files task, none)
    else ({ s' with dropped := s.dropped ++ files }, some .ebadf)

/-- `yz_deliver_cb` in task `t`, called for the head of slot `i`, and what `task_work_run` does
around it: it reads the link of the head before the call.  `room` says which files got a
descriptor. -/
def yzDeliverCb (t : Nat) (task : Task) (i : Nat) (p : YzPending) (room : FileRef → Bool) :
    HandoffRun :=
  let s' :=
    { s with
      pending := s.pending.set i .zero
      tasks := s.tasks.set t { task with running := p.next } }
  if task.exiting then { s' with dropped := s.dropped ++ p.files }
  else
    { s' with
      installed := s.installed ++ (p.files.filter room).map (t, ·)
      dropped := s.dropped ++ p.files.filter (!room ·) }

/-- `yz_zygote_ctl_release`. -/
def yzZygoteCtlRelease (pid : Nat) : HandoffRun :=
  match yzSlotOf s.pending pid with
  | none => s
  | some i =>
    match s.pending[i]? with
    | none => s
    | some p => { s with pending := s.pending.set i .zero, dropped := s.dropped ++ p.files }

/-- One step of the loops of `yz_zygote_ctl_exit`: a file is loaded, the loaded file is dropped,
or a slot is left. -/
def yzZygoteCtlExit : Option HandoffRun :=
  match s.exitAt with
  | none => none
  | some (i, j) =>
    match s.exitFile with
    | some file =>
      some { s with dropped := s.dropped ++ [file], exitAt := some (i, j + 1), exitFile := none }
    | none =>
      match s.pending[i]? with
      | none => none
      | some p =>
        match p.files[j]? with
        | some file => some { s with exitFile := some file }
        | none =>
          some
            { s with
              pending := s.pending.set i { p with files := [], pid := 0 }
              exitAt := some (i + 1, 0) }

/-! ## 3. Steps -/

/-- The pid belongs to a task. -/
def used (pid : Nat) : Bool := s.tasks.any fun t => t.pid = pid && !t.reaped

/-- The callback of `sched_process_free`, `zo_on_free`, for task `t`. -/
def zoOnFree (task : Task) : HandoffRun :=
  if task.leader then
    let (children, tracked) := zoUntrack s.children task.pid
    let s' := { s with children := children }
    if tracked then s'.yzZygoteCtlRelease task.pid else s'
  else s

end HandoffRun

inductive HandoffAct
  /-- a task starts; a leader forked by zygote is tracked -/
  | spawn (pid : Nat) (leader zygote : Bool)
  | handoff (cmd : YzHandoffCmd) (fget : Int → Bool) (task : Option Nat)
  /-- `task_work_run` takes the list of task `t` -/
  | run (t : Nat)
  /-- `task_work_run` calls the next head -/
  | deliver (t : Nat) (room : FileRef → Bool)
  | exiting (t : Nat)
  /-- the exit of the task has no work left -/
  | gone (t : Nat)
  | reap (t : Nat)
  | free (t : Nat)
  /-- the module ends; the control file is gone by then -/
  | ctlExit
  | ctlExitStep

namespace HandoffRun

variable (s : HandoffRun)

def step : HandoffAct → Option HandoffRun
  | .spawn pid leader zygote =>
    if pid = 0 ∨ s.used pid then none
    else
      some
        { s with
          tasks := s.tasks ++ [⟨pid, leader, false, false, false, false, none, none⟩]
          children := if leader && zygote then zoTrack s.children pid else s.children }
  | .handoff cmd fget task =>
    if s.exitAt.isSome ∨ task.any fun t => !s.tasks[t]?.any (·.pid = cmd.pid) then none
    else some (s.yzZygoteCtlHandoff cmd fget task).1
  | .run t =>
    s.tasks[t]?.bind fun task =>
      if task.gone ∨ task.running ≠ none then none
      else some { s with tasks := s.tasks.set t { task with works := none, running := task.works } }
  | .deliver t room =>
    s.tasks[t]?.bind fun task =>
      task.running.bind fun i =>
        s.pending[i]?.bind fun p =>
          -- a head that was cleared has no function to call
          if p.func then some (s.yzDeliverCb t task i p room) else none
  | .exiting t =>
    s.tasks[t]?.bind fun task =>
      some { s with tasks := s.tasks.set t { task with exiting := true } }
  | .gone t =>
    s.tasks[t]?.bind fun task =>
      if task.exiting ∧ task.works = none ∧ task.running = none then
        some { s with tasks := s.tasks.set t { task with gone := true } }
      else none
  | .reap t =>
    s.tasks[t]?.bind fun task =>
      if task.gone then some { s with tasks := s.tasks.set t { task with reaped := true } }
      else none
  | .free t =>
    s.tasks[t]?.bind fun task =>
      if task.reaped ∧ ¬ task.freed then
        some { s.zoOnFree task with tasks := s.tasks.set t { task with freed := true } }
      else none
  | .ctlExit => if s.exitAt = none then some { s with exitAt := some (0, 0) } else none
  | .ctlExitStep => s.yzZygoteCtlExit

end HandoffRun

/-- The control plane at load time. -/
def handoffInit : HandoffRun :=
  ⟨List.replicate yzMaxPending .zero, [], zoChildrenInit, none, none, [], [], []⟩

/-- The slots, with tasks that start and end at any time. -/
def handoffLts : Lts HandoffRun HandoffAct where
  init s := s = handoffInit
  step := HandoffRun.step

/-! ## 4. What a step does -/

/-- Another state of a task: its lists are as before, and it is past its last work only if they
are empty. -/
structure Task.Later (task task' : Task) : Prop where
  pid : task'.pid = task.pid
  leader : task'.leader = task.leader
  works : task'.works = task.works
  running : task'.running = task.running
  gone : task'.gone = false ∨ task.gone = true ∨ task.works = none ∧ task.running = none

namespace HandoffRun

variable {s s' : HandoffRun} {a : HandoffAct} {t i : Nat} {p : YzPending}

/-- The slot that a free callback releases. -/
def releases (s : HandoffRun) (t : Nat) : Option Nat :=
  s.tasks[t]?.bind fun task =>
    if task.leader && (zoUntrack s.children task.pid).2 then yzSlotOf s.pending task.pid else none

/-- The slot that a handoff takes, when it gets that far. -/
def chosen (s : HandoffRun) (cmd : YzHandoffCmd) (fget : Int → Bool) : Option Nat :=
  if cmd.fds.length ≤ yzMaxModuleFds ∧ cmd.fds.all fget then s.slotFor cmd.pid else none

/-- The table of the orchestrator after a free callback. -/
def childrenAfter (s : HandoffRun) (task : Task) : List ZoChild :=
  if task.leader then (zoUntrack s.children task.pid).1 else s.children

/-- The slot of a handoff has its pid, or is free and no slot has the pid. -/
theorem slotFor_some {pid : Nat} (h : s.slotFor pid = some i) :
    ∃ p, s.pending[i]? = some p ∧ (p.pid = pid ∨ p.pid = 0 ∧ yzSlotOf s.pending pid = none) := by
  unfold slotFor at h
  cases hown : yzSlotOf s.pending pid with
  | some j =>
    rw [hown, Option.some_or] at h
    obtain rfl := Option.some.inj h
    obtain ⟨p, hp, hpid⟩ := pendingSlot_some hown
    exact ⟨p, hp, .inl hpid⟩
  | none =>
    rw [hown, Option.none_or] at h
    obtain ⟨p, hp, hpid⟩ := pendingSlot_some h
    exact ⟨p, hp, .inr ⟨hpid, rfl⟩⟩

/-- **A slot is taken**, and its head put on the list of the target or not. -/
theorem place_cases (cmd : YzHandoffCmd) (files : List FileRef) (task : Option Nat)
    (hp : s.pending[i]? = some p) :
    ∃ p' : YzPending, p'.pid = cmd.pid ∧ p'.files = files ∧
      ((s.place i cmd files task =
          { s with pending := s.pending.set i p', dropped := s.dropped ++ p.files } ∧
        p'.next = p.next ∧ ∀ t x, task = some t → s.tasks[t]? = some x → x.gone = true) ∨
      ∃ t x, task = some t ∧ s.tasks[t]? = some x ∧ x.gone = false ∧ p'.next = x.works ∧
        s.place i cmd files task =
          { s with
            pending := s.pending.set i p'
            tasks := s.tasks.set t { x with works := some i }
            dropped := s.dropped ++ p.files }) := by
  have hlt := (List.getElem?_eq_some_iff.mp hp).1
  let p' : YzPending :=
    { p with pid := cmd.pid, appid := cmd.appid, flags := cmd.flags, files := files }
  cases task with
  | none =>
    refine ⟨p', rfl, rfl, .inl ⟨?_, ?_, nofun⟩⟩
    · simp only [place, hp]
      rfl
    · rfl
  | some t =>
    cases hx : s.tasks[t]? with
    | none =>
      refine ⟨{ p' with func := true }, rfl, rfl, .inl ⟨?_, ?_, fun u x hu hxu => ?_⟩⟩
      · simp only [place, hp, taskWorkAdd, hx]
        rfl
      · rfl
      · obtain rfl := Option.some.inj hu
        rw [hx] at hxu
        cases hxu
    | some x =>
      cases hgone : x.gone with
      | true =>
        refine ⟨{ p' with func := true }, rfl, rfl, .inl ⟨?_, ?_, fun u y hu hy => ?_⟩⟩
        · simp only [place, hp, taskWorkAdd, hx, List.getElem?_set_self hlt, hgone, if_true]
          rfl
        · rfl
        · obtain rfl := Option.some.inj hu
          obtain rfl := Option.some.inj (hx.symm.trans hy)
          exact hgone
      | false =>
        refine ⟨{ p' with func := true, next := x.works }, rfl, rfl,
          .inr ⟨t, x, rfl, hx, hgone, rfl, ?_⟩⟩
        simp only [place, hp, taskWorkAdd, hx, List.getElem?_set_self hlt, hgone,
          Bool.false_eq_true, if_false, List.set_set]
        rfl

/-- **A handoff**: its command is refused, its references are dropped, or a slot is taken. -/
theorem handoff_cases (cmd : YzHandoffCmd) (fget : Int → Bool) (task : Option Nat) :
    (s.yzZygoteCtlHandoff cmd fget task).1 = s ∨
    (∃ files, files = s.takes cmd fget ∧ (s.yzZygoteCtlHandoff cmd fget task).1 =
      { s with taken := s.taken ++ files, dropped := s.dropped ++ files }) ∨
    ∃ i files, files = s.takes cmd fget ∧ s.chosen cmd fget = some i ∧
      s.slotFor cmd.pid = some i ∧ (s.yzZygoteCtlHandoff cmd fget task).1 =
        { s with taken := s.taken ++ files }.place i cmd files task := by
  by_cases hlen : yzMaxModuleFds < cmd.fds.length
  · exact .inl (by simp only [yzZygoteCtlHandoff, if_pos hlen])
  · by_cases hall : cmd.fds.all fget = true
    · cases hslot : s.slotFor cmd.pid with
      | none =>
        refine .inr (.inl ⟨_, rfl, ?_⟩)
        simp only [yzZygoteCtlHandoff, if_neg hlen, if_pos hall, hslot]
      | some i =>
        refine .inr (.inr ⟨i, _, rfl, ?_, rfl, ?_⟩)
        · rw [chosen, if_pos ⟨Nat.le_of_not_lt hlen, hall⟩, hslot]
        · simp only [yzZygoteCtlHandoff, if_neg hlen, if_pos hall, hslot]
    · refine .inr (.inl ⟨_, rfl, ?_⟩)
      simp only [yzZygoteCtlHandoff, if_neg hlen, if_neg hall]

/-- **A free callback**: it releases a slot, or leaves the slots alone. -/
theorem zoOnFree_cases {task : Task} (ht : s.tasks[t]? = some task) :
    (s.zoOnFree task = { s with children := s.childrenAfter task } ∧ s.releases t = none) ∨
    ∃ i p, s.releases t = some i ∧ s.pending[i]? = some p ∧ p.pid = task.pid ∧
      s.zoOnFree task =
        { s with
          children := s.childrenAfter task
          pending := s.pending.set i .zero
          dropped := s.dropped ++ p.files } := by
  cases hl : task.leader with
  | false =>
    refine .inl ⟨?_, ?_⟩
    · simp only [zoOnFree, childrenAfter, hl, Bool.false_eq_true, if_false]
    · simp only [releases, ht, Option.bind_some, hl, Bool.false_and, Bool.false_eq_true, if_false]
  | true =>
    cases htr : (zoUntrack s.children task.pid).2 with
    | false =>
      refine .inl ⟨?_, ?_⟩
      · simp only [zoOnFree, childrenAfter, hl, if_true, htr, Bool.false_eq_true, if_false]
      · simp only [releases, ht, Option.bind_some, hl, htr, Bool.and_false, Bool.false_eq_true,
          if_false]
    | true =>
      have hrel : s.releases t = yzSlotOf s.pending task.pid := by
        simp only [releases, ht, Option.bind_some, hl, htr, Bool.and_self, if_true]
      cases hslot : yzSlotOf s.pending task.pid with
      | none =>
        refine .inl ⟨?_, hrel.trans hslot⟩
        simp only [zoOnFree, childrenAfter, hl, if_true, htr, yzZygoteCtlRelease, hslot]
      | some i =>
        obtain ⟨p, hp, hpid⟩ := pendingSlot_some hslot
        refine .inr ⟨i, p, hrel.trans hslot, hp, hpid, ?_⟩
        simp only [zoOnFree, childrenAfter, hl, if_true, htr, yzZygoteCtlRelease, hslot, hp]

/-- **What a step can do.** -/
inductive Steps (s : HandoffRun) : HandoffAct → HandoffRun → Prop
  | spawn (pid : Nat) (leader zygote : Bool) (hpid : pid ≠ 0) :
    Steps s (.spawn pid leader zygote)
      { s with
        tasks := s.tasks ++ [⟨pid, leader, false, false, false, false, none, none⟩]
        children := if leader && zygote then zoTrack s.children pid else s.children }
  | handoff (cmd : YzHandoffCmd) (fget : Int → Bool) (task : Option Nat)
    (hexit : s.exitAt = none)
    (htask : ∀ t, task = some t → ∃ x, s.tasks[t]? = some x ∧ x.pid = cmd.pid) :
    Steps s (.handoff cmd fget task) (s.yzZygoteCtlHandoff cmd fget task).1
  | run (t : Nat) (task : Task) (ht : s.tasks[t]? = some task) (hgone : task.gone = false)
    (hrun : task.running = none) :
    Steps s (.run t)
      { s with tasks := s.tasks.set t { task with works := none, running := task.works } }
  | deliver (t : Nat) (room : FileRef → Bool) (task : Task) (i : Nat) (p : YzPending)
    (ht : s.tasks[t]? = some task) (hi : task.running = some i) (hp : s.pending[i]? = some p) :
    Steps s (.deliver t room) (s.yzDeliverCb t task i p room)
  | later (a : HandoffAct) (t : Nat) (task task' : Task)
    (ha : a = .exiting t ∨ a = .gone t ∨ a = .reap t) (ht : s.tasks[t]? = some task)
    (hlater : task.Later task') (hfreed : task'.freed = task.freed) :
    Steps s a { s with tasks := s.tasks.set t task' }
  | free (t : Nat) (task : Task) (ht : s.tasks[t]? = some task) (hfreed : task.freed = false) :
    Steps s (.free t) { s.zoOnFree task with tasks := s.tasks.set t { task with freed := true } }
  | ctlExit (hexit : s.exitAt = none) : Steps s .ctlExit { s with exitAt := some (0, 0) }
  | load (i j : Nat) (p : YzPending) (file : FileRef) (hexit : s.exitAt = some (i, j))
    (hnone : s.exitFile = none) (hp : s.pending[i]? = some p) (hfile : p.files[j]? = some file) :
    Steps s .ctlExitStep { s with exitFile := some file }
  | drop (i j : Nat) (file : FileRef) (hexit : s.exitAt = some (i, j))
    (hfile : s.exitFile = some file) :
    Steps s .ctlExitStep
      { s with dropped := s.dropped ++ [file], exitAt := some (i, j + 1), exitFile := none }
  | leave (i j : Nat) (p : YzPending) (hexit : s.exitAt = some (i, j)) (hnone : s.exitFile = none)
    (hp : s.pending[i]? = some p) (hfile : p.files.length ≤ j) :
    Steps s .ctlExitStep
      { s with
        pending := s.pending.set i { p with files := [], pid := 0 }
        exitAt := some (i + 1, 0) }

/-- **What an action does**, case by case. -/
theorem steps_of_step (h : s.step a = some s') : Steps s a s' := by
  cases a with
  | spawn pid leader zygote =>
    simp only [step] at h
    split at h
    · cases h
    · rename_i hbad
      obtain rfl := Option.some.inj h
      exact .spawn pid leader zygote fun h0 => hbad (.inl h0)
  | handoff cmd fget task =>
    simp only [step] at h
    split_ifs at h with hbad
    obtain rfl := Option.some.inj h
    rw [not_or] at hbad
    refine .handoff cmd fget task (by simpa using hbad.1) ?_
    intro t ht
    have hany := hbad.2
    rw [ht, Option.any_some] at hany
    have hpid : s.tasks[t]?.any (fun x => decide (x.pid = cmd.pid)) = true := by simpa using hany
    obtain ⟨x, hx, hpid⟩ := (Option.any_eq_true _ _).mp hpid
    exact ⟨x, hx, of_decide_eq_true hpid⟩
  | run t =>
    obtain ⟨task, ht, h⟩ := Option.bind_eq_some_iff.mp h
    split_ifs at h with hbad
    obtain rfl := Option.some.inj h
    rw [not_or] at hbad
    exact .run t task ht (by simpa using hbad.1) (not_not.mp hbad.2)
  | deliver t room =>
    obtain ⟨task, ht, h⟩ := Option.bind_eq_some_iff.mp h
    obtain ⟨i, hi, h⟩ := Option.bind_eq_some_iff.mp h
    obtain ⟨p, hp, h⟩ := Option.bind_eq_some_iff.mp h
    split_ifs at h
    obtain rfl := Option.some.inj h
    exact .deliver t room task i p ht hi hp
  | exiting t =>
    obtain ⟨task, ht, h⟩ := Option.bind_eq_some_iff.mp h
    obtain rfl := Option.some.inj h
    refine .later _ t task _ (.inl rfl) ht ⟨rfl, rfl, rfl, rfl, ?_⟩ rfl
    cases task.gone with
    | false => exact .inl rfl
    | true => exact .inr (.inl rfl)
  | gone t =>
    obtain ⟨task, ht, h⟩ := Option.bind_eq_some_iff.mp h
    split_ifs at h with hdone
    obtain rfl := Option.some.inj h
    exact .later _ t task _ (.inr (.inl rfl)) ht ⟨rfl, rfl, rfl, rfl, .inr (.inr hdone.2)⟩ rfl
  | reap t =>
    obtain ⟨task, ht, h⟩ := Option.bind_eq_some_iff.mp h
    split_ifs at h with hgone
    obtain rfl := Option.some.inj h
    exact .later _ t task _ (.inr (.inr rfl)) ht ⟨rfl, rfl, rfl, rfl, .inr (.inl hgone)⟩ rfl
  | free t =>
    obtain ⟨task, ht, h⟩ := Option.bind_eq_some_iff.mp h
    split_ifs at h with hdone
    obtain rfl := Option.some.inj h
    exact .free t task ht (by simpa using hdone.2)
  | ctlExit =>
    simp only [step] at h
    split_ifs at h with hexit
    obtain rfl := Option.some.inj h
    exact .ctlExit hexit
  | ctlExitStep =>
    simp only [step, yzZygoteCtlExit] at h
    split at h
    · cases h
    · rename_i i j hexit
      split at h
      · rename_i file hfile
        obtain rfl := Option.some.inj h
        exact .drop i j file hexit hfile
      · rename_i hnone
        split at h
        · cases h
        · rename_i p hp
          split at h
          · rename_i file hfile
            obtain rfl := Option.some.inj h
            exact .load i j p file hexit hnone hp hfile
          · rename_i hfile
            obtain rfl := Option.some.inj h
            exact .leave i j p hexit hnone hp (List.getElem?_eq_none_iff.mp hfile)

end HandoffRun

end YukiZygisk.Ctl
