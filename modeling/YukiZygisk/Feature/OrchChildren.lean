/-
# The children of zygote (`kernel/feature/zygote_orch.c`)

The orchestrator keeps a table of 512 slots for the children of zygote, keyed by pid.  The fork
callback takes a slot, the setresuid callback reports the child once, and the free callback
gives the slot back.

The pid is all a slot knows of its process.  The kernel gives a pid to a new process as soon as
the old one is released, and calls the free callback of the old one later.  So the free callback
of one process can meet the slot of another one, and the fork callback can find the slot of its
pid still taken: `not_reportsOnce`.  When every earlier owner of the pid is freed before the
fork, every child is reported once: `reportsOnce_of_pidFree`.

A process has a pid, and what its callbacks have done is in flags that no code reads.  The invariant
`Watched` says what the table knows of the processes: a live process owns its pid alone, the slot of
a live child tells whether its uid has changed, a child was reported exactly if it has, and every
slot belongs to a process whose free callback is still to come.  Each section changes the slot of
one pid (`track_spec`, `specialize_spec`, `untrack_spec`), so processes with other pids are not
touched; and a process with the same pid is dead and freed, by the guard.  `Keeps` collects what one
step has to say of the process it is about, and `watched_set` makes the invariant from it.
-/
import YukiZygisk.Lib.Lts
import YukiZygisk.Lib.Keyed

namespace YukiZygisk.Orch

/-! ## 1. The table -/

/-- `enum zo_state`. -/
inductive ZoState
  | forked | specialized
  deriving DecidableEq

/-- `struct zo_child`; pid 0 is a free slot. -/
structure ZoChild where
  pid : Nat
  uid : UInt32
  state : ZoState
  deriving DecidableEq

/-- `ZO_MAX_CHILDREN`. -/
def zoMaxChildren : Nat := 512

/-- `zo_children` at load time. -/
def zoChildrenInit : List ZoChild := List.replicate zoMaxChildren ⟨0, 0, .forked⟩

/-- `zo_slot_of`. -/
def zoSlotOf (children : List ZoChild) (pid : Nat) : Option Nat :=
  children.findIdx? fun c => c.pid = pid

/-- `zo_track`. -/
def zoTrack (children : List ZoChild) (pid : Nat) : List ZoChild :=
  match zoSlotOf children pid with
  | some _ => children
  | none =>
    match zoSlotOf children 0 with
    | none => children
    | some i => children.set i ⟨pid, 0xffffffff, .forked⟩

/-- The locked section of `zo_on_free`, with `tracked`. -/
def zoUntrack (children : List ZoChild) (pid : Nat) : List ZoChild × Bool :=
  match zoSlotOf children pid with
  | none => (children, false)
  | some i => (children.modify i fun c => { c with pid := 0 }, true)

/-- An app uid that is not an isolated one. -/
def isAppUid (uid : UInt32) : Bool := !decide (uid < 10000) && !decide (uid % 100000 ≥ 90000)

/-- The locked section of `yz_zygote_orch_on_setresuid`, with `specialized`. -/
def zoSpecialize (children : List ZoChild) (pid : Nat) (uid : UInt32) : List ZoChild × Bool :=
  match zoSlotOf children pid with
  | none => (children, false)
  | some i =>
    match children[i]? with
    | some c =>
      if c.state = .forked then
        (children.set i { c with uid := uid, state := .specialized }, true)
      else (children, false)
    | none => (children, false)

/-- No pid has two slots. -/
def Distinct (children : List ZoChild) : Prop := Keyed.Distinct (·.pid) children

/-- The slot of a pid is in this state. -/
def InState (children : List ZoChild) (pid : Nat) (state : ZoState) : Prop :=
  ∃ (i : Nat) (c : ZoChild), children[i]? = some c ∧ c.pid = pid ∧ c.state = state

/-- A pid has no slot. -/
def Absent (children : List ZoChild) (pid : Nat) : Prop := ∀ c ∈ children, c.pid ≠ pid

variable {children : List ZoChild} {pid q i : Nat} {uid : UInt32} {state : ZoState}

theorem slotOf_some (h : zoSlotOf children pid = some i) :
    ∃ c, children[i]? = some c ∧ c.pid = pid := Keyed.slotOf_some h

theorem slotOf_none (h : zoSlotOf children pid = none) : Absent children pid := Keyed.slotOf_none h

/-- A pid has one state. -/
theorem InState.unique (hd : Distinct children) {state' : ZoState} (hne : pid ≠ 0)
    (h : InState children pid state) (h' : InState children pid state') : state = state' := by
  obtain ⟨i, c, hc, hp, rfl⟩ := h
  obtain ⟨j, d, hj, hq, rfl⟩ := h'
  obtain rfl := hd i j c d hc hj (hp.trans_ne hne) (hp.trans hq.symm)
  obtain rfl := Option.some.inj (hc.symm.trans hj)
  rfl

/-- A child that was reported does not wait to be reported. -/
theorem not_forked (hd : Distinct children) (hne : pid ≠ 0)
    (h : InState children pid .specialized) : ¬ InState children pid .forked := by
  intro hf
  have heq := hf.unique hd hne h
  cases heq

/-! ## 2. The three sections -/

/-- The slots of other pids stay when one slot is replaced. -/
theorem inState_set {c d : ZoChild} (hold : children[i]? = some d) (hd : d.pid ≠ q)
    (hc : c.pid ≠ q) : InState (children.set i c) q state ↔ InState children q state := by
  have hlt := (List.getElem?_eq_some_iff.mp hold).1
  constructor
  · rintro ⟨j, x, hx, hp, hs⟩
    rcases eq_or_ne i j with rfl | hij
    · rw [List.getElem?_set_self hlt] at hx
      obtain rfl := Option.some.inj hx
      exact absurd hp hc
    · rw [List.getElem?_set_ne hij] at hx
      exact ⟨j, x, hx, hp, hs⟩
  · rintro ⟨j, x, hx, hp, hs⟩
    refine ⟨j, x, ?_, hp, hs⟩
    have hij : i ≠ j := by
      rintro rfl
      rw [hold] at hx
      exact hd (Option.some.inj hx ▸ hp)
    rwa [List.getElem?_set_ne hij]

/-- **Tracking a pid without a slot**, when a slot is free. -/
theorem track_spec (hd : Distinct children) (hnone : zoSlotOf children pid = none)
    (hfree : (zoSlotOf children 0).isSome) :
    Distinct (zoTrack children pid) ∧ InState (zoTrack children pid) pid .forked ∧
      ∀ q state, q ≠ pid → q ≠ 0 →
        (InState (zoTrack children pid) q state ↔ InState children q state) := by
  obtain ⟨i, hi⟩ := Option.isSome_iff_exists.mp hfree
  obtain ⟨c, hc, hc0⟩ := slotOf_some hi
  have habs := slotOf_none hnone
  simp only [zoTrack, hnone, hi]
  refine ⟨hd.set (.inr fun j d _ hj => habs d (List.mem_of_getElem? hj)),
    ⟨i, _, List.getElem?_set_self (List.getElem?_eq_some_iff.mp hc).1, rfl, rfl⟩,
    fun q state hq hq0 => inState_set hc ?_ (Ne.symm hq)⟩
  rw [hc0]
  exact hq0.symm

/-- **Untracking a pid** leaves it without a slot and the others alone. -/
theorem untrack_spec (hd : Distinct children) (hpid : pid ≠ 0) :
    Distinct (zoUntrack children pid).1 ∧
      (∀ state, ¬ InState (zoUntrack children pid).1 pid state) ∧
      ∀ q state, q ≠ pid → q ≠ 0 →
        (InState (zoUntrack children pid).1 q state ↔ InState children q state) := by
  unfold zoUntrack
  cases h : zoSlotOf children pid with
  | none =>
    have habs := slotOf_none h
    refine ⟨hd, ?_, fun _ _ _ _ => Iff.rfl⟩
    intro state hin
    obtain ⟨i, c, hc, hp, -⟩ := hin
    exact habs c (List.mem_of_getElem? hc) hp
  | some i =>
    obtain ⟨c, hc, hp⟩ := slotOf_some h
    have hset : children.modify i (fun c => { c with pid := 0 }) =
        children.set i { c with pid := 0 } := by
      rw [List.modify_eq_set_getElem?, hc]
      rfl
    simp only [hset]
    refine ⟨hd.set (.inl rfl), fun state hin => ?_, fun q state hq hq0 =>
      inState_set hc (fun he => hq (he.symm.trans hp)) hq0.symm⟩
    obtain ⟨j, x, hx, hxp, -⟩ := hin
    rcases eq_or_ne i j with rfl | hij
    · rw [List.getElem?_set_self (List.getElem?_eq_some_iff.mp hc).1] at hx
      obtain rfl := Option.some.inj hx
      exact hpid hxp.symm
    · rw [List.getElem?_set_ne hij] at hx
      exact hij (hd i j c x hc hx (hp.trans_ne hpid) (hp.trans hxp.symm))

/-- **Specialising a pid** reports it when its slot is a forked one, and moves only its own
slot. -/
theorem specialize_spec (uid : UInt32) (hd : Distinct children) (hpid : pid ≠ 0) :
    Distinct (zoSpecialize children pid uid).1 ∧
      ((zoSpecialize children pid uid).2 = true ↔ InState children pid .forked) ∧
      ¬ InState (zoSpecialize children pid uid).1 pid .forked ∧
      (InState (zoSpecialize children pid uid).1 pid .specialized ↔
        ∃ state, InState children pid state) ∧
      ∀ q state, q ≠ pid →
        (InState (zoSpecialize children pid uid).1 q state ↔ InState children q state) := by
  unfold zoSpecialize
  cases h : zoSlotOf children pid with
  | none =>
    have habs : ∀ state, ¬ InState children pid state := by
      rintro state ⟨i, c, hc, hp, -⟩
      exact slotOf_none h c (List.mem_of_getElem? hc) hp
    exact ⟨hd, ⟨nofun, fun hin => absurd hin (habs _)⟩, habs _,
      ⟨fun hin => absurd hin (habs _), fun ⟨_, hin⟩ => absurd hin (habs _)⟩, fun _ _ _ => Iff.rfl⟩
  | some i =>
    obtain ⟨c, hc, hp⟩ := slotOf_some h
    simp only [hc]
    have hin : InState children pid c.state := ⟨i, c, hc, hp, rfl⟩
    split_ifs with hst
    · -- a forked slot: it is specialised now
      rw [hst] at hin
      have hd' : Distinct (children.set i { c with uid := uid, state := .specialized }) :=
        hd.set (.inr fun j d hj hdj heq =>
          hj (hd i j c d hc hdj (hp.trans_ne hpid) heq.symm).symm)
      have hnew : InState (children.set i { c with uid := uid, state := .specialized }) pid
          .specialized :=
        ⟨i, _, List.getElem?_set_self (List.getElem?_eq_some_iff.mp hc).1, hp, rfl⟩
      refine ⟨hd', ⟨fun _ => hin, fun _ => rfl⟩, fun hf => ?_, ⟨fun _ => ⟨_, hin⟩, fun _ => hnew⟩,
        fun q state hq => inState_set hc (fun he => hq (he.symm.trans hp))
          (fun he => hq (he.symm.trans hp))⟩
      exact not_forked hd' hpid hnew hf
    · have hspec : InState children pid .specialized := by
        cases hs : c.state with
        | forked => exact absurd hs hst
        | specialized => rwa [hs] at hin
      have hno := not_forked hd hpid hspec
      exact ⟨hd, ⟨nofun, fun hf => absurd hf hno⟩, hno, ⟨fun _ => ⟨_, hin⟩, fun _ => hspec⟩,
        fun _ _ _ => Iff.rfl⟩

/-! ## 3. Processes -/

/-- A thread-group leader.  `child`: its fork callback found a zygote for a parent; `freed`: its
free callback was called.  `changed` and `events` are ghosts: whether it ever changed to an app
uid, and how often it was handed to `zo_queue_specialize_event`. -/
structure Process where
  pid : Nat
  child : Bool
  alive : Bool
  freed : Bool
  changed : Bool
  events : Nat

inductive OrchAct
  /-- `zo_on_fork`; a pid other than the tgid is a thread -/
  | fork (pid tgid : Nat) (fromZygote : Bool)
  /-- `yz_zygote_orch_on_setresuid` on the main thread of process `p` -/
  | setresuid (p : Nat) (uid : UInt32)
  /-- process `p` is released: its pid can be given away -/
  | die (p : Nat)
  /-- `zo_on_free` of process `p` -/
  | free (p : Nat)

structure OrchRun where
  children : List ZoChild
  processes : List Process

/-- A pid is taken by a process that is not released. -/
def OrchRun.taken (s : OrchRun) (pid : Nat) : Bool :=
  s.processes.any fun p => p.alive && decide (p.pid = pid)

def OrchRun.step (s : OrchRun) : OrchAct → Option OrchRun
  | .fork pid tgid fromZygote =>
    if pid ≠ tgid then some s
    else if pid = 0 ∨ s.taken pid then none
    else some
      { children := if fromZygote then zoTrack s.children pid else s.children
        processes := s.processes ++ [⟨pid, fromZygote, true, false, false, 0⟩] }
  | .setresuid p uid =>
    match s.processes[p]? with
    | none => none
    | some process =>
      if process.alive = false then none
      else if isAppUid uid = false then some s
      else
        let (children, specialized) := zoSpecialize s.children process.pid uid
        some
          { children := children
            processes := s.processes.set p { process with
              changed := true, events := process.events + specialized.toNat } }
  | .die p =>
    match s.processes[p]? with
    | none => none
    | some process =>
      if process.alive = false then none
      else some { s with processes := s.processes.set p { process with alive := false } }
  | .free p =>
    match s.processes[p]? with
    | none => none
    | some process =>
      if process.alive = true ∨ process.freed = true then none
      else some
        { children := (zoUntrack s.children process.pid).1
          processes := s.processes.set p { process with freed := true } }

/-- The orchestrator just loaded. -/
def orch : Lts OrchRun OrchAct where
  init s := s.children = zoChildrenInit ∧ s.processes = []
  step := OrchRun.step

/-! ## 4. Reported once -/

/-- No process is reported twice, and a child that changed to an app uid was reported. -/
def ReportedOnce (s : OrchRun) : Prop :=
  ∀ p ∈ s.processes, p.events ≤ 1 ∧ (p.child = true → p.changed = true → p.events = 1)

/-- **Specialisation is reported exactly once** in every run whose steps meet `P`. -/
def ReportsOnce (P : OrchRun → OrchAct → Prop) : Prop :=
  ∀ s, orch.Reach P s → ReportedOnce s

/-- A child is forked with fewer than 512 live children around: a test and a guard. -/
def fewChildren (s : OrchRun) : OrchAct → Bool
  | .fork _ _ true => s.processes.countP (fun p => p.child && p.alive) < zoMaxChildren
  | _ => true

def FewChildren (s : OrchRun) (a : OrchAct) : Prop := fewChildren s a = true

/-- The fork of a child finds every earlier owner of its pid freed, and a slot free. -/
def PidFree (s : OrchRun) (a : OrchAct) : Prop :=
  ∀ pid, a = .fork pid pid true →
    (∀ p ∈ s.processes, p.pid = pid → p.freed = true) ∧ (zoSlotOf s.children 0).isSome

/-- The slot state that a child's history asks for. -/
def Process.slotState (p : Process) : ZoState := if p.changed then .specialized else .forked

/-- What the table knows of the processes.  A live process owns its pid alone; the slot of a live
child tells whether it changed; a process that was reported and lives finds no forked slot. -/
structure Watched (s : OrchRun) : Prop where
  distinct : Distinct s.children
  pid_pos : ∀ p ∈ s.processes, p.pid ≠ 0
  owner : ∀ (i j : Nat) (p q : Process), s.processes[i]? = some p → s.processes[j]? = some q →
    p.alive = true → p.pid = q.pid → i ≠ j → q.alive = false ∧ (p.child = true → q.freed = true)
  freed : ∀ p ∈ s.processes, p.freed = true → p.alive = false
  slot : ∀ p ∈ s.processes, p.child = true → p.alive = true →
    InState s.children p.pid p.slotState
  reported : ∀ p ∈ s.processes, p.child = true → p.events = if p.changed then 1 else 0
  once : ∀ p ∈ s.processes, p.events ≤ 1
  quiet : ∀ p ∈ s.processes, p.alive = true → 0 < p.events → ¬ InState s.children p.pid .forked
  /-- a slot belongs to a process whose free callback is still to come -/
  held : ∀ q state, q ≠ 0 → InState s.children q state →
    ∃ p ∈ s.processes, p.pid = q ∧ p.freed = false

variable {s s' : OrchRun} {a : OrchAct} {i : Nat} {p p' : Process} {children' : List ZoChild}

/-- What a step that moves one process and the table has to keep. -/
structure Keeps (s : OrchRun) (i : Nat) (p p' : Process) (children' : List ZoChild) : Prop where
  pid : p'.pid = p.pid
  child : p'.child = p.child
  alive : p'.alive = true → p.alive = true
  freed : p.freed = true → p'.freed = true
  dead : p'.freed = true → p'.alive = false
  distinct : Distinct children'
  others : ∀ (j : Nat) (q : Process), j ≠ i → s.processes[j]? = some q → q.alive = true →
    (InState children' q.pid .forked → InState s.children q.pid .forked) ∧
    (q.child = true → ∀ state, InState s.children q.pid state → InState children' q.pid state)
  slot : p'.child = true → p'.alive = true → InState children' p'.pid p'.slotState
  reported : p'.child = true → p'.events = if p'.changed then 1 else 0
  once : p'.events ≤ 1
  quiet : p'.alive = true → 0 < p'.events → ¬ InState children' p'.pid .forked
  held : ∀ q state, q ≠ 0 → InState children' q state →
    (∃ state, InState s.children q state) ∧ (q = p.pid → p'.freed = p.freed)

/-- A process after one of them moved: it is that one, or an old one at another place. -/
theorem getElem?_processes {l : List Process} {j : Nat} {q : Process}
    (h : (l.set i p')[j]? = some q) :
    j = i ∧ q = p' ∨ j ≠ i ∧ l[j]? = some q := by
  rw [List.getElem?_set] at h
  split_ifs at h with h1 h2
  · exact .inl ⟨h1.symm, (Option.some.inj h).symm⟩
  · exact .inr ⟨Ne.symm h1, h⟩

/-- One process goes on, and the others are as they were. -/
theorem watched_set (hI : Watched s) (hp : s.processes[i]? = some p)
    (hk : Keeps s i p p' children') : Watched ⟨children', s.processes.set i p'⟩ := by
  have each : ∀ {Q : Process → Prop}, Q p' →
      (∀ (j : Nat) (q : Process), j ≠ i → s.processes[j]? = some q → Q q) →
      ∀ q ∈ s.processes.set i p', Q q := by
    intro Q hself hother q hq
    obtain ⟨j, hj⟩ := List.mem_iff_getElem?.mp hq
    rcases getElem?_processes hj with ⟨-, rfl⟩ | ⟨hne, hj⟩
    · exact hself
    · exact hother j q hne hj
  have hmem := List.mem_of_getElem? hp
  refine
    { distinct := hk.distinct
      pid_pos := each (hk.pid ▸ hI.pid_pos p hmem) fun j q _ hq =>
        hI.pid_pos q (List.mem_of_getElem? hq)
      owner := ?_
      freed := each hk.dead fun j q _ hq => hI.freed q (List.mem_of_getElem? hq)
      slot := each hk.slot fun j q hne hq hc ha =>
        (hk.others j q hne hq ha).2 hc _ (hI.slot q (List.mem_of_getElem? hq) hc ha)
      reported := each hk.reported fun j q _ hq => hI.reported q (List.mem_of_getElem? hq)
      once := each hk.once fun j q _ hq => hI.once q (List.mem_of_getElem? hq)
      quiet := each hk.quiet fun j q hne hq ha hpos hin =>
        hI.quiet q (List.mem_of_getElem? hq) ha hpos ((hk.others j q hne hq ha).1 hin)
      held := fun q state hq hin => ?_ }
  · intro j k x y hx hy hax heq hne
    rcases getElem?_processes hx with ⟨rfl, rfl⟩ | ⟨-, hx'⟩ <;>
      rcases getElem?_processes hy with ⟨rfl, rfl⟩ | ⟨-, hy'⟩
    · exact absurd rfl hne
    · rw [hk.pid] at heq
      rw [hk.child]
      exact hI.owner j k p y hp hy' (hk.alive hax) heq hne
    · rw [hk.pid] at heq
      obtain ⟨hdead, hfreed⟩ := hI.owner j k x p hx' hp hax heq hne
      refine ⟨?_, fun hc => hk.freed (hfreed hc)⟩
      cases ha : y.alive with
      | false => rfl
      | true => exact (hdead.symm.trans (hk.alive ha)).symm
    · exact hI.owner j k x y hx' hy' hax heq hne
  · obtain ⟨⟨state', hold⟩, hself⟩ := hk.held q state hq hin
    obtain ⟨r, hr, hrq, hrf⟩ := hI.held q state' hq hold
    obtain ⟨j, hj⟩ := List.mem_iff_getElem?.mp hr
    rcases eq_or_ne j i with rfl | hne
    · obtain rfl := Option.some.inj (hp.symm.trans hj)
      exact ⟨p', List.mem_of_getElem? (List.getElem?_set_self (List.getElem?_eq_some_iff.mp hp).1),
        hk.pid.trans hrq, (hself hrq.symm).trans hrf⟩
    · exact ⟨r, List.mem_of_getElem? ((List.getElem?_set_ne hne.symm).trans hj), hrq, hrf⟩

theorem setresuid_keeps (hI : Watched s) (hp : s.processes[i]? = some p) (ha : p.alive = true)
    (uid : UInt32) : Keeps s i p
      { p with changed := true
               events := p.events + (zoSpecialize s.children p.pid uid).2.toNat }
      (zoSpecialize s.children p.pid uid).1 := by
  have hmem := List.mem_of_getElem? hp
  have hpid := hI.pid_pos p hmem
  obtain ⟨hd, hspec, hnot, hin, hframe⟩ := specialize_spec uid hI.distinct hpid
  have hfree : p.freed = false := by
    by_contra hf
    have hdead := hI.freed p hmem (by simpa using hf)
    rw [ha] at hdead
    cases hdead
  have hevents : 0 < p.events → (zoSpecialize s.children p.pid uid).2 = false := by
    intro hpos
    by_contra hne
    exact hI.quiet p hmem ha hpos (hspec.mp (by simpa using hne))
  refine
    { pid := rfl, child := rfl, alive := fun _ => ha, freed := id, distinct := hd
      dead := fun hf => absurd hf (by simp [hfree])
      others := fun j q hne hq haq => ?_
      slot := fun hc _ => hin.mpr ⟨_, hI.slot p hmem hc ha⟩
      reported := fun hc => ?_, once := ?_, quiet := fun _ _ => hnot
      held := fun q state hq hin' => ⟨?_, fun _ => rfl⟩ }
  · have hneq : q.pid ≠ p.pid := by
      intro heq
      have hdead := (hI.owner i j p q hp hq ha heq.symm hne.symm).1
      rw [haq] at hdead
      cases hdead
    exact ⟨(hframe q.pid _ hneq).mp, fun _ state => (hframe q.pid state hneq).mpr⟩
  · -- a child is reported exactly when it changes for the first time
    have hrep := hI.reported p hmem hc
    have hslot := hI.slot p hmem hc ha
    unfold Process.slotState at hslot
    simp only [if_true]
    cases hch : p.changed with
    | true =>
      rw [hch] at hrep
      simp only [if_true] at hrep
      rw [hevents (by omega), hrep]
      rfl
    | false =>
      rw [hch] at hrep hslot
      simp only [Bool.false_eq_true, if_false] at hrep hslot
      rw [hspec.mpr hslot, hrep]
      rfl
  · have hle := hI.once p hmem
    have hone := Bool.toNat_le (zoSpecialize s.children p.pid uid).2
    simp only
    rcases Nat.eq_zero_or_pos p.events with h0 | hpos
    · omega
    · rw [hevents hpos, Bool.toNat_false]
      omega
  · by_cases heq : q = p.pid
    · subst heq
      cases state with
      | forked => exact absurd hin' hnot
      | specialized => exact hin.mp hin'
    · exact ⟨state, (hframe q state heq).mp hin'⟩

theorem free_keeps (hI : Watched s) (hp : s.processes[i]? = some p) (ha : p.alive = false)
    (hf : p.freed = false) :
    Keeps s i p { p with freed := true } (zoUntrack s.children p.pid).1 := by
  have hmem := List.mem_of_getElem? hp
  have hpid := hI.pid_pos p hmem
  obtain ⟨hd, hgone, hframe⟩ := untrack_spec hI.distinct hpid
  refine
    { pid := rfl, child := rfl, alive := id, freed := fun _ => rfl, distinct := hd
      dead := fun _ => ha
      others := fun j q hne hq haq => ?_
      slot := fun _ hal => ?_, reported := hI.reported p hmem, once := hI.once p hmem
      quiet := fun _ _ => hgone _
      held := fun q state hq hin => ?_ }
  · have hqpid := hI.pid_pos q (List.mem_of_getElem? hq)
    by_cases heq : q.pid = p.pid
    · -- a live process with the pid of the freed one is no child
      rw [heq]
      refine ⟨fun hin => absurd hin (hgone _), ?_⟩
      intro hc
      have := (hI.owner j i q p hq hp haq heq hne).2 hc
      rw [hf] at this
      cases this
    · exact ⟨(hframe q.pid _ heq hqpid).mp, fun _ state => (hframe q.pid state heq hqpid).mpr⟩
  · have hal : p.alive = true := hal
    rw [ha] at hal
    cases hal
  · have hne : q ≠ p.pid := fun he => hgone state (he ▸ hin)
    exact ⟨⟨state, (hframe q state hne hq).mp hin⟩, fun he => absurd he hne⟩

theorem die_keeps (hI : Watched s) (hp : s.processes[i]? = some p) :
    Keeps s i p { p with alive := false } s.children := by
  have hmem := List.mem_of_getElem? hp
  exact
    { pid := rfl, child := rfl, alive := nofun, freed := id, distinct := hI.distinct
      dead := fun _ => rfl, others := fun _ _ _ _ _ => ⟨id, fun _ _ => id⟩
      slot := nofun, reported := hI.reported p hmem, once := hI.once p hmem, quiet := nofun
      held := fun _ state _ hin => ⟨⟨state, hin⟩, fun _ => rfl⟩ }

/-- A fork keeps the table in step when the pid of a child is free. -/
theorem watched_fork (hI : Watched s) {pid : Nat} {z : Bool} (hpid : pid ≠ 0)
    (htaken : s.taken pid = false) (hP : z = true →
      (∀ p ∈ s.processes, p.pid = pid → p.freed = true) ∧ (zoSlotOf s.children 0).isSome) :
    Watched ⟨if z then zoTrack s.children pid else s.children,
      s.processes ++ [⟨pid, z, true, false, false, 0⟩]⟩ := by
  have hdead : ∀ q ∈ s.processes, q.pid = pid → q.alive = false := by
    intro q hq heq
    have := List.any_eq_false.mp htaken q hq
    simpa [heq] using this
  have htable : Distinct (if z then zoTrack s.children pid else s.children) ∧
      (z = true → InState (if z then zoTrack s.children pid else s.children) pid .forked) ∧
      ∀ q state, q ≠ pid → q ≠ 0 →
        (InState (if z then zoTrack s.children pid else s.children) q state ↔
          InState s.children q state) := by
    cases z with
    | false => exact ⟨hI.distinct, nofun, fun _ _ _ _ => Iff.rfl⟩
    | true =>
      obtain ⟨hfreed, hslot⟩ := hP rfl
      have hnone : zoSlotOf s.children pid = none := by
        by_contra hne
        obtain ⟨i, hi⟩ := Option.ne_none_iff_exists'.mp hne
        obtain ⟨c, hc, hcp⟩ := slotOf_some hi
        obtain ⟨q, hq, hqp, hqf⟩ := hI.held pid c.state hpid ⟨i, c, hc, hcp, rfl⟩
        rw [hfreed q hq hqp] at hqf
        cases hqf
      obtain ⟨h1, h2, h3⟩ := track_spec hI.distinct hnone hslot
      exact ⟨h1, fun _ => h2, h3⟩
  obtain ⟨hd, hnew, hframe⟩ := htable
  have each : ∀ {Q : Process → Prop}, Q ⟨pid, z, true, false, false, 0⟩ →
      (∀ q ∈ s.processes, Q q) → ∀ q ∈ s.processes ++ [⟨pid, z, true, false, false, 0⟩], Q q := by
    intro Q hself hother q hq
    rcases List.mem_append.mp hq with hq | hq
    · exact hother q hq
    · obtain rfl := List.mem_singleton.mp hq
      exact hself
  have hother : ∀ q ∈ s.processes, q.alive = true → q.pid ≠ pid := by
    intro q hq ha heq
    rw [hdead q hq heq] at ha
    cases ha
  refine
    { distinct := hd
      pid_pos := each hpid hI.pid_pos
      owner := ?_
      freed := each nofun hI.freed
      slot := each (fun hz _ => hnew hz) fun q hq hc ha =>
        (hframe _ _ (hother q hq ha) (hI.pid_pos q hq)).mpr (hI.slot q hq hc ha)
      reported := each (fun _ => rfl) hI.reported
      once := each (Nat.zero_le _) hI.once
      quiet := each (fun _ hpos => absurd hpos (Nat.lt_irrefl 0)) fun q hq ha hpos hin =>
        hI.quiet q hq ha hpos ((hframe _ _ (hother q hq ha) (hI.pid_pos q hq)).mp hin)
      held := fun q state hq hin => ?_ }
  · intro j k x y hx hy hax heq hne
    rcases Nat.lt_or_ge j s.processes.length with hj | hj
    · rw [List.getElem?_append_left hj] at hx
      rcases Nat.lt_or_ge k s.processes.length with hk | hk
      · rw [List.getElem?_append_left hk] at hy
        exact hI.owner j k x y hx hy hax heq hne
      · rw [List.getElem?_append_right hk] at hy
        obtain rfl := List.mem_singleton.mp (List.mem_of_getElem? hy)
        exact absurd heq (hother x (List.mem_of_getElem? hx) hax)
    · rw [List.getElem?_append_right hj] at hx
      obtain rfl := List.mem_singleton.mp (List.mem_of_getElem? hx)
      rcases Nat.lt_or_ge k s.processes.length with hk | hk
      · rw [List.getElem?_append_left hk] at hy
        have hmem := List.mem_of_getElem? hy
        exact ⟨hdead y hmem heq.symm, fun hz => (hP hz).1 y hmem heq.symm⟩
      · have hj' := (List.getElem?_eq_some_iff.mp hx).1
        rw [List.getElem?_append_right hk] at hy
        have hk' := (List.getElem?_eq_some_iff.mp hy).1
        simp only [List.length_singleton] at hj' hk'
        omega
  · by_cases heq : q = pid
    · exact ⟨_, List.mem_append_right _ (List.mem_singleton_self _), heq.symm, rfl⟩
    · obtain ⟨r, hr, hrest⟩ := hI.held q state hq ((hframe q state heq hq).mp hin)
      exact ⟨r, List.mem_append_left _ hr, hrest⟩

theorem distinct_init : Distinct zoChildrenInit := by
  intro i j c d hc _ hne
  have := List.eq_of_mem_replicate (List.mem_of_getElem? hc)
  rw [this] at hne
  exact absurd rfl hne

/-- The invariant, over the runs in which a pid is forked again only when its earlier owners are
freed. -/
theorem watched_invariant : orch.Invariant PidFree Watched where
  init s hi := by
    obtain ⟨hc, hp⟩ := hi
    refine
      { distinct := hc ▸ distinct_init, pid_pos := by simp [hp], owner := by simp [hp]
        freed := by simp [hp], slot := by simp [hp], reported := by simp [hp]
        once := by simp [hp], quiet := by simp [hp], held := fun q state hq hin => ?_ }
    obtain ⟨i, c, hci, hcq, -⟩ := hin
    rw [hc] at hci
    rw [List.eq_of_mem_replicate (List.mem_of_getElem? hci)] at hcq
    exact absurd hcq.symm hq
  step s a s' hI hP hs := by
    change s.step a = some s' at hs
    cases a with
    | fork pid tgid z =>
      simp only [OrchRun.step] at hs
      split_ifs at hs with hne hbad hz
      · obtain rfl := Option.some.inj hs
        exact hI
      all_goals
        rw [not_or] at hbad
        obtain rfl := Option.some.inj hs
        have heq : pid = tgid := not_not.mp hne
        subst heq
      · have :=
          watched_fork hI (z := z) hbad.1 (by simpa using hbad.2) fun hz' => hP pid (hz' ▸ rfl)
        rwa [if_pos hz] at this
      · have :=
          watched_fork hI (z := z) hbad.1 (by simpa using hbad.2) fun hz' => hP pid (hz' ▸ rfl)
        rwa [if_neg hz] at this
    | setresuid i uid =>
      simp only [OrchRun.step] at hs
      split at hs
      · cases hs
      · rename_i p hp
        split_ifs at hs with ha hu
        · obtain rfl := Option.some.inj hs
          exact hI
        · obtain rfl := Option.some.inj hs
          exact watched_set hI hp (setresuid_keeps hI hp (by simpa using ha) uid)
    | die i =>
      simp only [OrchRun.step] at hs
      split at hs
      · cases hs
      · rename_i p hp
        split_ifs at hs
        obtain rfl := Option.some.inj hs
        exact watched_set hI hp (die_keeps hI hp)
    | free i =>
      simp only [OrchRun.step] at hs
      split at hs
      · cases hs
      · rename_i p hp
        split_ifs at hs with hc
        rw [not_or] at hc
        obtain rfl := Option.some.inj hs
        exact watched_set hI hp (free_keeps hI hp (by simpa using hc.1) (by simpa using hc.2))

/-- **Every child is reported once in a run where forks find their pids free.** -/
theorem reportsOnce_of_pidFree {P : OrchRun → OrchAct → Prop} (hP : ∀ s a, P s a → PidFree s a) :
    ReportsOnce P := by
  intro s hr p hp
  have hwatched := (hr.mono hP).invariant watched_invariant
  refine ⟨hwatched.once p hp, ?_⟩
  intro hc hch
  rw [hwatched.reported p hp hc, hch]
  rfl

/-- A test of the guard. -/
def pidFree (s : OrchRun) : OrchAct → Bool
  | .fork pid pid' true =>
    s.processes.all (fun p => p.pid ≠ pid || p.freed) && (zoSlotOf s.children 0).isSome
      || pid ≠ pid'
  | _ => true

/-- The pid of a child that was freed goes to another one, and both are reported. -/
theorem reportsOnce_sample : ∃ s, orch.Reach PidFree s ∧ s.processes.length = 2 ∧
    (∀ p ∈ s.processes, p.pid = 7 ∧ p.child = true ∧ p.changed = true) ∧ ReportedOnce s := by
  have hall : ReportsOnce PidFree := reportsOnce_of_pidFree fun _ _ => id
  have hguard : ∀ s a, pidFree s a = true → PidFree s a := by
    rintro s a h pid rfl
    simp only [pidFree, ne_eq, not_true_eq_false, decide_false, Bool.or_false, Bool.and_eq_true,
      List.all_eq_true, Bool.or_eq_true, decide_eq_true_eq] at h
    exact ⟨fun p hp hpid => (h.1 p hp).resolve_left (absurd hpid), h.2⟩
  have hrun : ((orch.restrict pidFree).exec ⟨zoChildrenInit, []⟩
      [.fork 7 7 true, .setresuid 0 10001, .die 0, .free 0, .fork 7 7 true,
        .setresuid 1 10002]).any
      (fun s => decide (s.processes.length = 2 ∧
        ∀ p ∈ s.processes, p.pid = 7 ∧ p.child = true ∧ p.changed = true)) = true := by
    decide +kernel
  obtain ⟨s, hr, hp⟩ := Lts.exists_reach_of_guarded (M := orch) hguard ⟨rfl, rfl⟩ _ _ hrun
  obtain ⟨hlen, hboth⟩ := of_decide_eq_true hp
  exact ⟨s, hr, hlen, hboth, hall s hr⟩

/-- **A late free callback hides a child.**  The pid of a dead child goes to a new one before the
old one is freed: the new one keeps the specialised slot of the old one. -/
theorem not_reportsOnce : ¬ ReportsOnce FewChildren := by
  intro h
  have hrun : ((orch.restrict fewChildren).exec ⟨zoChildrenInit, []⟩
      [.fork 7 7 true, .setresuid 0 10001, .die 0, .fork 7 7 true, .setresuid 1 10002]).any
      (fun s => (s.processes[1]?).any fun p =>
        p.child && p.changed && decide (p.events ≠ 1)) = true := by
    decide +kernel
  obtain ⟨s, hr, hp⟩ := Lts.exists_reach_of_guarded (M := orch) (P := FewChildren)
    (fun _ _ => id) ⟨rfl, rfl⟩ _ _ hrun
  obtain ⟨p, hp, hbad⟩ := (Option.any_eq_true _ _).mp hp
  simp only [Bool.and_eq_true, decide_eq_true_eq] at hbad
  exact hbad.2 ((h s hr p (List.mem_of_getElem? hp)).2 hbad.1.1 hbad.1.2)

end YukiZygisk.Orch
