/-
# The life of the daemon (`userspace/zygisk/daemon/zygiskd.cpp`)

The 64-bit daemon takes its sockets, prepares what the kernel needs, and starts a 32-bit daemon
where one is wanted.  That one is the same program: it goes through the same steps, without a
companion of its own, and reports through a pipe.  Each daemon reports once to whoever started it,
and serves clients and events from then on until its channels fail.

A run is a trace; `daemon_resources` says what is held in the end, whatever fails on the way, and
`daemon_reports` what a report means, across the two processes.

The traces are composed as the source's calls are, and each part has a lemma that says what its
entries do to what is held (`run_notify`, `run_prepare`, `run_spawn`, `run_stop`): the ledger of the
library `Ledger` makes of a trace a function on multisets of resources, and of a trace in two parts
the composition.  `daemon_resources` is then a case for each way in which a start can end, and the
loop, which acquires nothing that it does not drop.

For the reports every part before the loop is `Quiet` except the report itself, which is the last
event of a start.  The 32-bit daemon is the same function on other answers, so what its report means
is the same result, without a companion (`reported_iff`), and the 64-bit daemon takes it for started
on that report only (`spawn_reported`).
-/
import YukiZygisk.Lib.Ledger
import YukiZygisk.Daemon.EventChannel

namespace YukiZygisk.Startup

/-! ## 1. The trace -/

inductive Resource
  | srv | nlfd | readyFd | readyIn | readyOut | client | compatDaemon
  deriving DecidableEq

inductive Event
  | take (r : Resource)
  | drop (r : Resource)
  | report (ok : Bool)
  | serve
  | drain (datagram : List UInt8)

def Event.entry : Event → List (Ledger.Event Resource)
  | .take r => [.acquire r]
  | .drop r => [.release r]
  | .report _ => []
  | .serve => []
  | .drain _ => []

def ledger (es : List Event) : List (Ledger.Event Resource) := es.flatMap Event.entry

/-! ## 2. Starting -/

/-- Where taking a socket fails; a netlink socket is not listened on. -/
inductive Listen
  | socket | bind | listen | ok
  deriving DecidableEq

/-- `bind_listen` and `nl_listen`. -/
def Listen.events (r : Resource) : Listen → List Event
  | .socket => []
  | .bind => [.take r, .drop r]
  | .listen => [.take r, .drop r]
  | .ok => [.take r]

/-- What the steps that both daemons take find. -/
structure Answers where
  readyFd : Bool
  srv : Listen
  claimControlFd : Bool
  prepareRuntimePolicy : Bool
  nl : Listen
  getRootStatus : Bool
  policySetup : Bool
  sendDlopenOffset : Bool

/-- `notify_ready`. -/
def notifyReady (readyFd ok : Bool) : List Event :=
  if readyFd then [.report ok, .drop .readyFd] else []

/-- `run_daemon` as far as both daemons go, without the report. -/
def prepare (a : Answers) : List Event × Bool :=
  if a.srv ≠ .ok then (a.srv.events .srv, false)
  else if !a.claimControlFd then ([.take .srv, .drop .srv], false)
  else if !a.prepareRuntimePolicy then ([.take .srv, .drop .srv], false)
  else if a.nl ≠ .ok then ([.take .srv] ++ a.nl.events .nlfd ++ [.drop .srv], false)
  else if !a.getRootStatus || !a.policySetup then
    ([.take .srv, .take .nlfd, .drop .nlfd, .drop .srv], false)
  else if !a.sendDlopenOffset then
    ([.take .srv, .take .nlfd, .drop .nlfd, .drop .srv], false)
  else ([.take .srv, .take .nlfd], true)

/-- What `spawn_compat_daemon` finds: its path and the pipe, whether there is a process, whether it
gets as far as the daemon, what the daemon finds there, and whether its report comes in time. -/
structure Spawn where
  path : Bool
  pipe : Bool
  fork : Bool
  executes : Bool
  child : Answers
  inTime : Bool

/-- What the child of `spawn_compat_daemon` reports, if it does. -/
def Spawn.reported (s : Spawn) : Option Bool :=
  if s.executes ∧ s.child.readyFd then some (prepare s.child).2 else none

/-- `spawn_compat_daemon`. -/
def spawnCompatDaemon (s : Spawn) : List Event × Bool :=
  if !s.path then ([], false)
  else if !s.pipe then ([], false)
  else if !s.fork then
    ([.take .readyIn, .take .readyOut, .drop .readyOut, .drop .readyIn], false)
  else
    let ok := s.inTime && s.reported = some true
    ([.take .readyIn, .take .readyOut, .take .compatDaemon, .drop .readyOut, .drop .readyIn] ++
      (if ok then [] else [.drop .compatDaemon]), ok)

/-- `stop_compat_daemon`. -/
def stopCompatDaemon (compat : Bool) : List Event := if compat then [.drop .compatDaemon] else []

/-- What the 64-bit daemon finds besides. -/
structure Lp64 where
  needsCompatDaemon : Bool
  spawn : Spawn
  integrated : Bool
  daemonReady : Bool

/-- `run_daemon` up to its loop: what it did, and whether a 32-bit daemon runs beside it where it
goes on. -/
def start (lp64 : Option Lp64) (a : Answers) : List Event × Option Bool :=
  let fail (es : List Event) : List Event × Option Bool :=
    (es ++ notifyReady a.readyFd false, none)
  let go (es : List Event) (compat : Bool) : List Event × Option Bool :=
    (es ++ notifyReady a.readyFd true, some compat)
  let (es, ok) := prepare a
  if !ok then fail es
  else match lp64 with
    | none => go es false
    | some l =>
      let (spawned, compat) := if l.needsCompatDaemon then spawnCompatDaemon l.spawn else ([], false)
      let es := es ++ spawned
      if l.needsCompatDaemon ∧ !compat then fail (es ++ [.drop .nlfd, .drop .srv])
      else if !l.integrated ∧ !l.daemonReady then
        fail (es ++ stopCompatDaemon compat ++ [.drop .nlfd, .drop .srv])
      else go es compat

/-! ## 3. Running -/

/-- One turn of the loop: `poll` fails, perhaps for a signal only, or names a failed channel, or a
client, which may be gone before it is accepted, and a datagram. -/
inductive Poll
  | failed (eintr : Bool)
  | ready (broken : Bool) (client : Option Bool) (datagram : Option (List UInt8))

/-- What a turn serves. -/
def served : Option Bool → List Event
  | some true => [.take .client, .serve, .drop .client]
  | _ => []

/-- The loop of `run_daemon`, and whether it still runs in the end. -/
def loop (compat : Bool) : List Poll → List Event × Bool
  | [] => ([], true)
  | .failed true :: polls => loop compat polls
  | .failed false :: _ => (stopCompatDaemon compat, false)
  | .ready true _ _ :: _ => (stopCompatDaemon compat, false)
  | .ready false client datagram :: polls =>
    let (es, running) := loop compat polls
    (served client ++ (datagram.toList.map Event.drain ++ es), running)

/-- `run_daemon`: its trace, and whether it still runs. -/
def runDaemon (lp64 : Option Lp64) (a : Answers) (polls : List Poll) : List Event × Bool :=
  match start lp64 a with
  | (es, none) => (es, false)
  | (es, some compat) => (es ++ (loop compat polls).1, (loop compat polls).2)

variable {lp64 : Option Lp64} {a : Answers} {polls : List Poll} {compat : Bool}

/-! ## 4. What is held -/

open Resource

theorem ledger_append (es es' : List Event) : ledger (es ++ es') = ledger es ++ ledger es' :=
  List.flatMap_append

/-- What a daemon holds that was asked to report. -/
def asked (readyFd : Bool) : Multiset Resource := if readyFd then {.readyFd} else 0

/-- The 32-bit daemon, where there is one. -/
def beside (compat : Bool) : Multiset Resource := if compat then {.compatDaemon} else 0

theorem sockets_add (held : Multiset Resource) :
    ({.nlfd, .srv} + held : Multiset Resource) = .nlfd ::ₘ .srv ::ₘ held := by
  rw [Multiset.insert_eq_cons, Multiset.cons_add, Multiset.singleton_add]

theorem run_notify (held : Multiset Resource) (readyFd ok : Bool) :
    Ledger.run (asked readyFd + held) (ledger (notifyReady readyFd ok)) = some held := by
  cases readyFd with
  | false => simp [asked, notifyReady, ledger]
  | true =>
    change Ledger.run ({.readyFd} + held) [.release .readyFd] = some held
    rw [Multiset.singleton_add, Ledger.run_release_held, Ledger.run_nil]

/-- The common steps end with both sockets or with none. -/
theorem prepare_cases (a : Answers) :
    ((prepare a).2 = true ∧ (prepare a).1 = [.take .srv, .take .nlfd]) ∨
      ((prepare a).2 = false ∧ ((prepare a).1 = [] ∨ (prepare a).1 = [.take .srv, .drop .srv] ∨
        (prepare a).1 = [.take .srv, .take .nlfd, .drop .nlfd, .drop .srv])) := by
  obtain ⟨readyFd, srv, claim, policy, nl, status, setup, offset⟩ := a
  cases srv with
  | socket => simp [prepare, Listen.events]
  | bind => simp [prepare, Listen.events]
  | listen => simp [prepare, Listen.events]
  | ok =>
    cases claim
    · simp [prepare]
    cases policy
    · simp [prepare]
    cases nl with
    | socket => simp [prepare, Listen.events]
    | bind => simp [prepare, Listen.events]
    | listen => simp [prepare, Listen.events]
    | ok => cases status <;> cases setup <;> cases offset <;> simp [prepare]

/-- The steps that both daemons take. -/
theorem run_prepare (held : Multiset Resource) (a : Answers) :
    Ledger.run held (ledger (prepare a).1) =
      some (if (prepare a).2 then {.nlfd, .srv} + held else held) := by
  obtain ⟨hok, hes⟩ | ⟨hok, hes | hes | hes⟩ := prepare_cases a
  · rw [hok, hes, if_pos rfl, sockets_add]
    rfl
  · rw [hok, hes]
    rfl
  · rw [hok, hes]
    change Ledger.run (.srv ::ₘ held) [.release .srv] = some held
    rw [Ledger.run_release_held, Ledger.run_nil]
  · rw [hok, hes]
    change Ledger.run (.nlfd ::ₘ .srv ::ₘ held) [.release .nlfd, .release .srv] = some held
    rw [Ledger.run_release_held, Ledger.run_release_held, Ledger.run_nil]

/-- The 32-bit daemon runs on, or is killed again. -/
theorem run_spawn (held : Multiset Resource) (s : Spawn) :
    Ledger.run held (ledger (spawnCompatDaemon s).1) =
      some (beside (spawnCompatDaemon s).2 + held) := by
  obtain ⟨path, pipe, fork, executes, child, inTime⟩ := s
  cases path
  · simp [spawnCompatDaemon, ledger, beside]
  cases pipe
  · simp [spawnCompatDaemon, ledger, beside]
  cases fork
  · simp only [spawnCompatDaemon, Bool.not_true, Bool.not_false, Bool.false_eq_true, if_true, if_false,
      beside, zero_add]
    change Ledger.run (.readyOut ::ₘ .readyIn ::ₘ held) [.release .readyOut, .release .readyIn] = _
    rw [Ledger.run_release_held, Ledger.run_release_held, Ledger.run_nil]
  simp only [spawnCompatDaemon, Bool.not_true, Bool.false_eq_true, if_false]
  generalize (inTime && decide (Spawn.reported ⟨true, true, true, executes, child, inTime⟩ = some true))
    = ok
  rw [ledger_append, Ledger.run_append]
  have hparent : Ledger.run held (ledger [.take .readyIn, .take .readyOut, .take .compatDaemon,
      .drop .readyOut, .drop .readyIn]) = some (.compatDaemon ::ₘ held) := by
    change Ledger.run (.compatDaemon ::ₘ .readyOut ::ₘ .readyIn ::ₘ held)
      [.release .readyOut, .release .readyIn] = _
    rw [Multiset.cons_swap, Ledger.run_release_held, Multiset.cons_swap, Ledger.run_release_held,
      Ledger.run_nil]
  rw [hparent, Option.bind_some]
  cases ok with
  | true => simp [ledger, beside]
  | false =>
    change Ledger.run (.compatDaemon ::ₘ held) [.release .compatDaemon] = _
    rw [Ledger.run_release_held, Ledger.run_nil]
    simp [beside]

theorem run_stop (held : Multiset Resource) (compat : Bool) :
    Ledger.run (beside compat + held) (ledger (stopCompatDaemon compat)) =
      some held := by
  cases compat with
  | false => simp [stopCompatDaemon, ledger, beside]
  | true =>
    change Ledger.run (.compatDaemon ::ₘ held) [.release .compatDaemon] = _
    rw [Ledger.run_release_held, Ledger.run_nil]

theorem run_close (held : Multiset Resource) :
    Ledger.run ({.nlfd, .srv} + held) (ledger [.drop .nlfd, .drop .srv]) = some held := by
  rw [sockets_add]
  change Ledger.run (.nlfd ::ₘ .srv ::ₘ held) [.release .nlfd, .release .srv] = some held
  rw [Ledger.run_release_held, Ledger.run_release_held, Ledger.run_nil]

/-- Up to the loop: a daemon that gives up holds nothing, one that goes on holds both sockets and the
32-bit daemon that it started. -/
theorem run_start (lp64 : Option Lp64) (a : Answers) :
    Ledger.run (asked a.readyFd) (ledger (start lp64 a).1) = some (match (start lp64 a).2 with
      | none => 0
      | some compat => {.nlfd, .srv} + beside compat) := by
  have hnotify : ∀ (held : Multiset Resource) (es : List Event) (ok : Bool),
      Ledger.run (asked a.readyFd) (ledger es) = some (asked a.readyFd + held) →
        Ledger.run (asked a.readyFd) (ledger (es ++ notifyReady a.readyFd ok)) = some held := by
    intro held es ok hrun
    rw [ledger_append, Ledger.run_append, hrun, Option.bind_some, run_notify]
  have hprep := run_prepare (asked a.readyFd) a
  unfold start
  simp only
  cases hok : (prepare a).2 with
  | false =>
    rw [hok] at hprep
    simp only [Bool.not_false, if_true]
    exact hnotify 0 _ false (by simpa using hprep)
  | true =>
    rw [hok, if_pos rfl] at hprep
    simp only [Bool.not_true, Bool.false_eq_true, if_false]
    cases lp64 with
    | none =>
      apply hnotify
      rw [hprep]
      simp [beside, add_comm]
    | some l =>
      simp only
      -- what was spawned comes on top of the sockets
      have hspawn : ∀ spawned : List Event × Bool,
          spawned = (if l.needsCompatDaemon then spawnCompatDaemon l.spawn else ([], false)) →
            Ledger.run (asked a.readyFd) (ledger ((prepare a).1 ++ spawned.1)) =
              some (beside spawned.2 + ({.nlfd, .srv} + asked a.readyFd)) := by
        rintro spawned rfl
        rw [ledger_append, Ledger.run_append, hprep, Option.bind_some]
        split_ifs
        · exact run_spawn _ _
        · simp [ledger, beside]
      generalize hsp : (if l.needsCompatDaemon then spawnCompatDaemon l.spawn else ([], false)) = sp
      have hrun := hspawn sp hsp.symm
      split_ifs with hfail hready
      · apply hnotify
        rw [ledger_append, Ledger.run_append, hrun, Option.bind_some]
        have hnone : sp.2 = false := by simpa using hfail.2
        rw [hnone, beside, if_neg Bool.false_ne_true, zero_add, run_close, add_zero]
      · apply hnotify
        rw [ledger_append, Ledger.run_append, ledger_append, Ledger.run_append, hrun, Option.bind_some,
          run_stop, Option.bind_some, run_close, add_zero]
      · apply hnotify
        rw [hrun, ← add_assoc, add_comm, add_comm (beside sp.2)]

/-- A turn of the loop leaves what is held. -/
theorem run_loop (held : Multiset Resource) (compat : Bool) (polls : List Poll) :
    Ledger.run (beside compat + held) (ledger (loop compat polls).1) =
      some (beside (compat && (loop compat polls).2) + held) := by
  induction polls with
  | nil => simp [loop, ledger]
  | cons poll polls ih =>
    cases poll with
    | failed eintr =>
      cases eintr with
      | true => exact ih
      | false =>
        rw [loop, run_stop]
        simp [beside]
    | ready broken client datagram =>
      cases broken with
      | true =>
        rw [loop, run_stop]
        simp [beside]
      | false =>
        have hserved : Ledger.run (beside compat + held) (ledger (served client)) =
            some (beside compat + held) := by
          match client with
          | none => rfl
          | some false => rfl
          | some true =>
            change Ledger.run (.client ::ₘ (beside compat + held)) [.release .client] = _
            rw [Ledger.run_release_held, Ledger.run_nil]
        have hdrained : ledger (datagram.toList.map Event.drain) = [] := by
          cases datagram <;> rfl
        simp only [loop]
        rw [ledger_append, Ledger.run_append, hserved, Option.bind_some, ledger_append, hdrained,
          List.nil_append, ih]

/-- **Nothing is left behind.**  Whatever fails while a daemon starts, and whatever its channels do
afterwards: a daemon that gives up has closed both sockets, killed the 32-bit daemon and handed back
its report pipe; one that runs holds the sockets and what it started; and when its loop ends the
32-bit daemon ends with it. -/
theorem daemon_resources (lp64 : Option Lp64) (a : Answers) (polls : List Poll) :
    Ledger.run (asked a.readyFd) (ledger (runDaemon lp64 a polls).1) =
      some (match (start lp64 a).2 with
        | none => 0
        | some compat => {.nlfd, .srv} + beside (compat && (runDaemon lp64 a polls).2)) := by
  have hstart := run_start lp64 a
  unfold runDaemon
  match hs : start lp64 a with
  | (es, none) =>
    rw [hs] at hstart
    exact hstart
  | (es, some compat) =>
    rw [hs] at hstart
    simp only at hstart ⊢
    rw [ledger_append, Ledger.run_append, hstart, Option.bind_some, add_comm, run_loop, add_comm]

/-! ## 5. What a report means -/

def Event.reported : Event → Option Bool
  | .report ok => some ok
  | _ => none

/-- Serving a client or acting on a datagram. -/
def Event.works : Event → Bool
  | .serve => true
  | .drain _ => true
  | _ => false

def reports (es : List Event) : List Bool := es.filterMap Event.reported

theorem reports_append (es es' : List Event) : reports (es ++ es') = reports es ++ reports es' :=
  List.filterMap_append

/-- Events that neither report nor work. -/
def Quiet (es : List Event) : Prop := ∀ e ∈ es, e.reported = none ∧ e.works = false

theorem Quiet.append {es es' : List Event} (h : Quiet es) (h' : Quiet es') : Quiet (es ++ es') := by
  intro e he
  exact (List.mem_append.mp he).elim (h e) (h' e)

theorem Quiet.reports {es : List Event} (h : Quiet es) : reports es = [] := by
  induction es with
  | nil => rfl
  | cons e es ih =>
    rw [Startup.reports, List.filterMap_cons, (h e (List.mem_cons_self ..)).1]
    exact ih fun e' he' => h e' (List.mem_cons_of_mem _ he')

theorem quiet_prepare (a : Answers) : Quiet (prepare a).1 := by
  obtain ⟨-, hes⟩ | ⟨-, hes | hes | hes⟩ := prepare_cases a
  all_goals simp [hes, Quiet, Event.reported, Event.works]

theorem quiet_spawn (s : Spawn) : Quiet (spawnCompatDaemon s).1 := by
  unfold spawnCompatDaemon
  simp only
  split_ifs <;> simp [Quiet, Event.reported, Event.works]

theorem quiet_stop (compat : Bool) : Quiet (stopCompatDaemon compat) := by
  cases compat <;> simp [stopCompatDaemon, Quiet, Event.reported, Event.works]

/-- Whether a daemon goes on. -/
def goesOn (lp64 : Option Lp64) (a : Answers) : Bool := (start lp64 a).2.isSome

/-- Up to its loop a daemon does nothing but report, at the end. -/
theorem start_eq (lp64 : Option Lp64) (a : Answers) :
    ∃ es, Quiet es ∧ (start lp64 a).1 = es ++ notifyReady a.readyFd (goesOn lp64 a) := by
  have hprep := quiet_prepare a
  have hclose : Quiet [.drop .nlfd, .drop .srv] := by simp [Quiet, Event.reported, Event.works]
  unfold goesOn start
  simp only
  cases (prepare a).2 with
  | false => exact ⟨_, hprep, rfl⟩
  | true =>
    simp only [Bool.not_true, Bool.false_eq_true, if_false]
    cases lp64 with
    | none => exact ⟨_, hprep, rfl⟩
    | some l =>
      have hspawn : Quiet (if l.needsCompatDaemon then spawnCompatDaemon l.spawn else ([], false)).1 := by
        split_ifs
        · exact quiet_spawn _
        · simp [Quiet]
      simp only
      generalize (if l.needsCompatDaemon then spawnCompatDaemon l.spawn else ([], false)) = spawned at *
      split_ifs
      · exact ⟨_, (hprep.append hspawn).append hclose, rfl⟩
      · exact ⟨_, ((hprep.append hspawn).append (quiet_stop _)).append hclose, rfl⟩
      · exact ⟨_, hprep.append hspawn, rfl⟩

theorem reports_notify (readyFd ok : Bool) :
    reports (notifyReady readyFd ok) = if readyFd then [ok] else [] := by
  cases readyFd <;> rfl

theorem reports_start (lp64 : Option Lp64) (a : Answers) :
    reports (start lp64 a).1 = if a.readyFd then [goesOn lp64 a] else [] := by
  obtain ⟨es, hquiet, heq⟩ := start_eq lp64 a
  rw [heq, reports_append, hquiet.reports, reports_notify, List.nil_append]

/-- What the parent reads from the pipe is what the 32-bit daemon reported. -/
theorem reported_iff (s : Spawn) : s.reported = some true ↔
    s.executes = true ∧ true ∈ reports (start none s.child).1 := by
  have hgoes : goesOn none s.child = (prepare s.child).2 := by
    unfold goesOn start
    simp only
    cases (prepare s.child).2 <;> rfl
  rw [reports_start, hgoes, Spawn.reported]
  cases s.executes with
  | false => simp
  | true => cases s.child.readyFd <;> cases (prepare s.child).2 <;> simp

/-- The 32-bit daemon is taken for started only on its own word. -/
theorem spawn_reported {s : Spawn} (h : (spawnCompatDaemon s).2 = true) :
    s.reported = some true := by
  unfold spawnCompatDaemon at h
  simp only at h
  split_ifs at h
  all_goals simp_all

theorem works_loop (compat : Bool) (polls : List Poll) : reports (loop compat polls).1 = [] := by
  induction polls with
  | nil => rfl
  | cons poll polls ih =>
    cases poll with
    | failed eintr =>
      cases eintr with
      | true => exact ih
      | false => exact (quiet_stop compat).reports
    | ready broken client datagram =>
      cases broken with
      | true => exact (quiet_stop compat).reports
      | false =>
        have hserved : reports (served client) = [] := by
          match client with
          | none => rfl
          | some false => rfl
          | some true => rfl
        have hdrained : reports (datagram.toList.map Event.drain) = [] := by
          cases datagram <;> rfl
        simp only [loop]
        rw [reports_append, reports_append, hserved, hdrained, ih]
        rfl

/-- **What a report means.**  A daemon that was asked to report does so exactly once, before it
serves anybody, and says whether it goes on; one that does not go on serves nobody.  A 64-bit daemon
goes on only when it has taken every step of its own, when the kernel took note, and, where it wants
a 32-bit daemon, when that one reported in turn that it goes on. -/
theorem daemon_reports (lp64 : Option Lp64) (a : Answers) (polls : List Poll) :
    (∃ before after, (runDaemon lp64 a polls).1 =
        before ++ notifyReady a.readyFd (goesOn lp64 a) ++ after ∧ Quiet before ∧
      reports after = [] ∧ (goesOn lp64 a = false → after = [])) ∧
    (goesOn lp64 a = true → (prepare a).2 = true ∧ ∀ l, lp64 = some l →
      (l.integrated = true ∨ l.daemonReady = true) ∧
        (l.needsCompatDaemon = true → true ∈ reports (start none l.spawn.child).1)) := by
  constructor
  · obtain ⟨before, hquiet, heq⟩ := start_eq lp64 a
    unfold runDaemon
    match hs : start lp64 a with
    | (es, none) =>
      rw [hs] at heq
      simp only at heq
      exact ⟨before, [], by rw [heq, List.append_nil], hquiet, rfl, fun _ => rfl⟩
    | (es, some compat) =>
      rw [hs] at heq
      simp only at heq
      refine ⟨before, (loop compat polls).1, by rw [heq], hquiet, works_loop compat polls, ?_⟩
      simp [goesOn, hs]
  · intro hgoes
    unfold goesOn start at hgoes
    simp only at hgoes
    cases hok : (prepare a).2 with
    | false => simp [hok] at hgoes
    | true =>
      refine ⟨rfl, ?_⟩
      rintro l rfl
      simp only [hok, Bool.not_true, Bool.false_eq_true, if_false] at hgoes
      constructor
      · by_contra hready
        rw [not_or] at hready
        simp only [hready.1, hready.2, Bool.not_false, and_self, if_true] at hgoes
        split_ifs at hgoes <;> cases hgoes
      · intro hneeds
        simp only [hneeds, if_true, true_and] at hgoes
        have hcompat : (spawnCompatDaemon l.spawn).2 = true := by
          by_contra hno
          rw [if_pos (by simpa using hno)] at hgoes
          cases hgoes
        exact ((reported_iff l.spawn).mp (spawn_reported hcompat)).2

end YukiZygisk.Startup
