/-
# The life of the driver (`kernel/core/module.c`, `bootstrap.c`)

`yukizygisk_init` starts the stages of the driver one by one; if one fails it stops those that are
up.  Later the guard may stop them all because no daemon became ready, and unloading the module stops
what is left.  The three teardowns exclude each other by `yz_lifecycle_lock`, and the exit of the
module first cancels the guard, waiting for it if it runs.

All of this interleaves freely.  In every run the stages are stopped in the reverse order of their
start, each that was started once, and when the module is gone or has failed to load nothing is left
(`stages_stacked`); and an unload always comes to its end, since the exit does not hold the lock
that the guard may be waiting for while it waits for the guard (`exit_ends`).

The log of the run has each start and each stop, and `replay` reads it as a stack: a stop must be
that of the stage on top.  `Sound` says that the stack is the stages that are up, in the order in
which the source starts them, that a teardown has stopped all stages that it is past (`Past`), and
that at most one of the three holds the lock.  One step of a teardown is the same for all three
parties (`Torn`, `torn_of_tear`), so the party enters only where it starts and where it ends.  The
end of an unload is a count of what the parties have still to do, which every step lowers
(`left_step`); and some party can always move, as one that waits for the lock waits for somebody who
holds it and is not waiting (`exists_step`).
-/
import YukiZygisk.Core.ControlGate

namespace YukiZygisk.DriverLife

open ControlGate (Stage order)

/-! ## 1. The driver -/

/-- Where a run of `yukizygisk_deactivate_locked` is: before the lock, in
`yukizygisk_bootstrap_exit`, before the first of these stages, or past the lock. -/
inductive Teardown where
  | locking
  | cancelling
  | before (rest : List Stage)
  | unlocked
  deriving DecidableEq

def Teardown.holds : Teardown → Bool
  | .locking | .unlocked => false
  | .cancelling | .before _ => true

inductive Party where
  | init
  | guard
  | exit
  deriving DecidableEq

/-- Where `yukizygisk_init` is: before the first of these stages (the bootstrap comes last), before
the bootstrap is noted as active, in its error path, or returned. -/
inductive InitPhase where
  | starting (rest : List Stage)
  | marking
  | failing (t : Teardown)
  | ended (ok : Bool)
  deriving DecidableEq

/-- The guard work: not queued, queued, running, or in `yukizygisk_bootstrap_fail_closed`. -/
inductive GuardPhase where
  | idle
  | pending
  | working
  | failing (t : Teardown)
  deriving DecidableEq

/-- Where `yukizygisk_exit` is: in `yukizygisk_bootstrap_exit`, or past it. -/
inductive ExitPhase where
  | notCalled
  | cancelling
  | tearing (t : Teardown)
  | ended
  deriving DecidableEq

inductive Event where
  | start (s : Stage)
  | stop (s : Stage)
  deriving DecidableEq

structure Driver where
  /-- the flags `yz_stage_*_active` -/
  active : Stage → Bool
  bootstrapActive : Bool
  /-- the prctl hook is registered -/
  hook : Bool
  /-- who holds `yz_lifecycle_lock` -/
  holder : Option Party
  init : InitPhase
  guard : GuardPhase
  exit : ExitPhase
  /-- the init and exit functions of the stages that were called -/
  log : List Event

def loading : Driver :=
  ⟨fun _ => false, false, false, none, .starting order.reverse, .idle, .notCalled, []⟩

/-! ## 2. Steps -/

def Driver.start (d : Driver) (s : Stage) : Driver :=
  { d with active := Function.update d.active s true, log := d.log ++ [.start s] }

def Driver.stop (d : Driver) (s : Stage) : Driver :=
  if d.active s then
    { d with active := Function.update d.active s false, log := d.log ++ [.stop s] }
  else d

/-- `cancel_delayed_work_sync` returns: the work is not running. -/
def GuardPhase.atRest : GuardPhase → Bool
  | .idle | .pending => true
  | .working | .failing _ => false

/-- `yukizygisk_deactivate_locked` between the lock and the unlock. -/
def Driver.tear (d : Driver) (who : Party) (skipBootstrap : Bool) :
    Teardown → Option (Driver × Teardown)
  | .locking =>
    if d.holder = none then
      some ({ d with holder := some who },
        if !skipBootstrap && d.bootstrapActive then .cancelling else .before order)
    else none
  | .cancelling =>
    if d.guard.atRest then
      some ({ d with guard := .idle, hook := false, bootstrapActive := false }, .before order)
    else none
  | .before (s :: rest) => some (d.stop s, .before rest)
  | .before [] => some ({ d with holder := none }, .unlocked)
  | .unlocked => none

/-- The stages without a bit in `init_stage_mask`. -/
def required : List Stage := [.host, .lsm]

/-- The stages whose initialisation may fail. -/
def fallible : List Stage := [.host, .control]

/-- `yukizygisk_init`, one step.  `chosen`: the bit of the stage; `ok`: its initialisation succeeds;
`cookie`: there is a cookie, so that the guard is queued. -/
def Driver.initStep (d : Driver) (chosen ok cookie : Bool) : Option Driver :=
  match d.init with
  | .starting (s :: rest) =>
    if !chosen && s ∉ required then some { d with init := .starting rest }
    else if ok || s ∉ fallible then some { d.start s with init := .starting rest }
    else if s = .host then some { d with init := .ended false }
    else some { d with init := .failing .locking }
  | .starting [] =>
    if !chosen then some { d with init := .ended true }
    else if ok then
      some { d with hook := true, guard := if cookie then .pending else .idle, init := .marking }
    else some { d with init := .failing .locking }
  | .marking => some { d with bootstrapActive := true, init := .ended true }
  | .failing .unlocked => some { d with init := .ended false }
  | .failing t => (d.tear .init false t).map fun (d, t) => { d with init := .failing t }
  | .ended _ => none

/-- How `yz_bootstrap_guard_work_fn` goes on: the work is queued again, is done, or fails closed. -/
inductive Verdict where
  | again
  | settled
  | close

/-- The guard work, one step.  A work that is being cancelled is not queued again. -/
def Driver.guardStep (d : Driver) (v : Verdict) : Option Driver :=
  match d.guard, v with
  | .idle, _ => none
  | .pending, _ => some { d with guard := .working }
  | .working, .again =>
    some { d with guard := if d.exit = .cancelling then .idle else .pending }
  | .working, .settled => some { d with guard := .idle }
  | .working, .close => some { d with hook := false, guard := .failing .locking }
  | .failing .unlocked, _ => some { d with guard := .idle }
  | .failing t, _ => (d.tear .guard true t).map fun (d, t) => { d with guard := .failing t }

/-- `yukizygisk_exit`, one step. -/
def Driver.exitStep (d : Driver) : Option Driver :=
  match d.exit with
  | .notCalled => if d.init = .ended true then some { d with exit := .cancelling } else none
  | .cancelling =>
    if d.guard.atRest then some { d with guard := .idle, hook := false, exit := .tearing .locking }
    else none
  | .tearing .unlocked => some { d with exit := .ended }
  | .tearing t =>
    (d.tear .exit true t).map fun (d, t) => { d with exit := .tearing t, bootstrapActive := false }
  | .ended => none

inductive Act where
  | init (chosen ok cookie : Bool)
  | guard (v : Verdict)
  | exit

def Driver.step (d : Driver) : Act → Option Driver
  | .init chosen ok cookie => d.initStep chosen ok cookie
  | .guard v => d.guardStep v
  | .exit => d.exitStep

def driver : Lts Driver Act := ⟨(· = loading), Driver.step⟩

/-! ## 3. Stages as a stack -/

/-- What is up, and what was started at all. -/
structure Stack where
  up : List Stage
  started : List Stage

/-- A stage is started once, and stopped when it is on top. -/
def Stack.apply (k : Stack) : Event → Option Stack
  | .start s => if s ∈ k.started then none else some ⟨s :: k.up, s :: k.started⟩
  | .stop s => if k.up.head? = some s then some ⟨k.up.tail, k.started⟩ else none

def replay (log : List Event) : Option Stack := log.foldlM Stack.apply ⟨[], []⟩

theorem replay_concat (log : List Event) (e : Event) :
    replay (log ++ [e]) = (replay log).bind (·.apply e) := by
  simp [replay, List.foldlM_append]

/-- The stages that are up, the last one first. -/
def Driver.up (d : Driver) : List Stage := order.filter d.active

variable {d d' : Driver} {pre rest : List Stage} {st : Stage}

theorem nodup_order : order.Nodup := by decide

theorem mem_order (st : Stage) : st ∈ order := by cases st <;> decide

theorem filter_update (b : Bool) (h : st ∉ rest) :
    rest.filter (Function.update d.active st b) = rest.filter d.active := by
  refine List.filter_congr fun x hx => ?_
  rw [Function.update_of_ne]
  rintro rfl
  exact h hx

/-- Where the first stages are down, the others are what is up. -/
theorem up_of_split (h : order = pre ++ rest) (hpre : ∀ s ∈ pre, d.active s = false) :
    d.up = rest.filter d.active := by
  have hnil : pre.filter d.active = [] := List.filter_eq_nil_iff.mpr (by simpa using hpre)
  rw [Driver.up, h, List.filter_append, hnil, List.nil_append]

theorem up_start (h : order.reverse = pre ++ st :: rest)
    (hrest : ∀ s ∈ st :: rest, d.active s = false) : (d.start st).up = st :: d.up := by
  have hnodup : (pre ++ st :: rest).Nodup := h ▸ List.nodup_reverse.mpr nodup_order
  rw [List.nodup_append] at hnodup
  obtain ⟨-, hcons, hapart⟩ := hnodup
  have hsplit : order = rest.reverse ++ st :: pre.reverse := by
    rw [← List.reverse_reverse order, h]
    simp
  have hpre : st ∉ pre.reverse := fun hmem =>
    hapart st (List.mem_reverse.mp hmem) st (List.mem_cons_self ..) rfl
  have hold : d.up = pre.reverse.filter d.active := by
    have hsplit' : order = (rest.reverse ++ [st]) ++ pre.reverse := by
      rw [hsplit]
      simp
    exact up_of_split hsplit' fun s hs => hrest s (by simpa [or_comm] using hs)
  have hnew : (d.start st).up = (st :: pre.reverse).filter (d.start st).active := by
    apply up_of_split hsplit
    intro s hs
    have hmem : s ∈ rest := List.mem_reverse.mp hs
    have hne : s ≠ st := by
      rintro rfl
      exact (List.nodup_cons.mp hcons).1 hmem
    simp only [Driver.start, Function.update_of_ne hne]
    exact hrest s (List.mem_cons_of_mem st hmem)
  rw [hnew, hold, List.filter_cons_of_pos (by simp [Driver.start])]
  exact congrArg _ (filter_update true hpre)

theorem up_stop (h : order = pre ++ st :: rest) (hpre : ∀ s ∈ pre, d.active s = false)
    (hactive : d.active st = true) : d.up = st :: (d.stop st).up := by
  have hnodup : (pre ++ st :: rest).Nodup := h ▸ nodup_order
  rw [List.nodup_append] at hnodup
  obtain ⟨-, hcons, -⟩ := hnodup
  have hdown : ∀ s ∈ pre ++ [st], (d.stop st).active s = false := by
    intro s hs
    rw [Driver.stop, if_pos hactive]
    by_cases hst : s = st
    · simp [hst]
    · simp only [Function.update_of_ne hst]
      exact hpre s (by simpa [hst] using hs)
  have hnew : (d.stop st).up = rest.filter (d.stop st).active :=
    up_of_split (by rw [h]; simp) hdown
  rw [up_of_split h hpre, List.filter_cons_of_pos hactive, hnew, Driver.stop, if_pos hactive]
  exact congrArg _ (filter_update false (List.nodup_cons.mp hcons).1).symm

/-- Stopping a stage that is down does nothing. -/
theorem stop_of_down (h : d.active st = false) : d.stop st = d := by simp [Driver.stop, h]

/-! ## 4. The invariant -/

/-- The run of `yukizygisk_deactivate_locked` of a party. -/
def Driver.teardown (d : Driver) : Party → Option Teardown
  | .init => match d.init with
    | .failing t => some t
    | _ => none
  | .guard => match d.guard with
    | .failing t => some t
    | _ => none
  | .exit => match d.exit with
    | .tearing t => some t
    | _ => none

/-- What a teardown has passed is down; it never cancels the guard. -/
def Past (active : Stage → Bool) : Teardown → Prop
  | .locking => True
  | .cancelling => False
  | .before rest => ∃ pre, order = pre ++ rest ∧ ∀ s ∈ pre, active s = false
  | .unlocked => ∀ s, active s = false

/-- What is down stays down for a teardown that is past it. -/
theorem Past.mono {f g : Stage → Bool} {t : Teardown} (h : Past f t)
    (hle : ∀ s, f s = false → g s = false) : Past g t := by
  cases t with
  | locking => trivial
  | cancelling => exact h
  | before rest =>
    obtain ⟨pre, horder, hpre⟩ := h
    exact ⟨pre, horder, fun s hs => hle s (hpre s hs)⟩
  | unlocked => exact fun s => hle s (h s)

structure Driver.Sound (d : Driver) : Prop where
  stack : ∃ k, replay d.log = some k ∧ k.up = d.up ∧
    ∀ rest, d.init = .starting rest → ∀ s ∈ rest, s ∉ k.started
  past : ∀ p t, d.teardown p = some t → Past d.active t
  lock : ∀ p, d.holder = some p ↔ ∃ t, d.teardown p = some t ∧ t.holds = true
  starting : ∀ rest, d.init = .starting rest →
    (∃ pre, order.reverse = pre ++ rest) ∧ ∀ s ∈ rest, d.active s = false
  /-- nothing else runs before the bootstrap has started -/
  early : d.init ≠ .marking → d.init ≠ .ended true → d.guard = .idle ∧ d.hook = false
  alone : d.init ≠ .ended true → d.exit = .notCalled ∧ d.bootstrapActive = false
  failed : d.init = .ended false → ∀ s, d.active s = false
  /-- the exit has cancelled the guard -/
  late : d.exit ≠ .notCalled → d.exit ≠ .cancelling → d.guard = .idle ∧ d.hook = false
  gone : d.exit = .ended → ∀ s, d.active s = false

/-- What a step of a teardown does. -/
structure Torn (d d' : Driver) (who : Party) (t' : Teardown) : Prop where
  init : d'.init = d.init
  guard : d'.guard = d.guard
  exit : d'.exit = d.exit
  hook : d'.hook = d.hook
  bootstrap : d'.bootstrapActive = d.bootstrapActive
  down : ∀ s, d.active s = false → d'.active s = false
  past : Past d'.active t'
  stack : ∀ k, replay d.log = some k → k.up = d.up →
    ∃ k', replay d'.log = some k' ∧ k'.up = d'.up ∧ k'.started = k.started
  holds : d'.holder = some who ↔ t'.holds = true
  others : ∀ p, p ≠ who → (d'.holder = some p ↔ d.holder = some p)

/-- A teardown stops one stage. -/
theorem torn_stop (h : order = pre ++ st :: rest) (hpre : ∀ s ∈ pre, d.active s = false)
    {who : Party} (hholder : d.holder = some who) : Torn d (d.stop st) who (.before rest) := by
  have hfields : (d.stop st).init = d.init ∧ (d.stop st).guard = d.guard ∧
      (d.stop st).exit = d.exit ∧ (d.stop st).hook = d.hook ∧
      (d.stop st).bootstrapActive = d.bootstrapActive ∧ (d.stop st).holder = d.holder := by
    rw [Driver.stop]
    split_ifs <;> simp
  obtain ⟨hinit, hguard, hexit, hhook, hboot, hholder'⟩ := hfields
  have hdown : ∀ s, d.active s = false → (d.stop st).active s = false := by
    intro s hs
    rw [Driver.stop]
    split_ifs
    · by_cases hst : s = st <;> simp [hst, hs, Function.update_of_ne]
    · exact hs
  have hst : (d.stop st).active st = false := by
    rw [Driver.stop]
    split_ifs with hactive
    · simp
    · simpa using hactive
  refine ⟨hinit, hguard, hexit, hhook, hboot, hdown, ?_, ?_, ?_, fun p _ => by rw [hholder']⟩
  · refine ⟨pre ++ [st], by rw [h]; simp, fun s hs => ?_⟩
    rw [List.mem_append, List.mem_singleton] at hs
    rcases hs with hs | rfl
    · exact hdown s (hpre s hs)
    · exact hst
  · intro k hk hup
    cases hactive : d.active st with
    | false => exact ⟨k, by rw [stop_of_down hactive]; exact ⟨hk, hup, rfl⟩⟩
    | true =>
      have htop := up_stop h hpre hactive
      refine ⟨⟨(d.stop st).up, k.started⟩, ?_, rfl, rfl⟩
      have hlog : (d.stop st).log = d.log ++ [.stop st] := by rw [Driver.stop, if_pos hactive]
      rw [hlog, replay_concat, hk, Option.bind_some, Stack.apply, hup, htop]
      simp
  · simp [hholder', hholder, Teardown.holds]

/-- **One step of a teardown**, whoever makes it. -/
theorem torn_of_tear {who : Party} {skip : Bool} {t t' : Teardown}
    (h : d.tear who skip t = some (d', t')) (hpast : Past d.active t)
    (hboot : skip = true ∨ d.bootstrapActive = false)
    (hholds : t.holds = true → d.holder = some who) : Torn d d' who t' := by
  cases t with
  | cancelling => exact hpast.elim
  | unlocked => simp [Driver.tear] at h
  | locking =>
    have hskip : (!skip && d.bootstrapActive) = false := by
      rcases hboot with hboot | hboot <;> simp [hboot]
    rw [Driver.tear, hskip, if_neg Bool.false_ne_true] at h
    split_ifs at h with hfree
    cases h
    refine ⟨rfl, rfl, rfl, rfl, rfl, fun s hs => hs, ⟨[], rfl, by simp⟩, ?_, ?_, ?_⟩
    · exact fun k hk hup => ⟨k, hk, hup, rfl⟩
    · simp [Teardown.holds]
    · intro p hp
      simp [hfree, hp.symm]
  | before rest =>
    have hholder : d.holder = some who := hholds rfl
    obtain ⟨pre, horder, hpre⟩ := hpast
    cases rest with
    | nil =>
      cases h
      rw [List.append_nil] at horder
      refine ⟨rfl, rfl, rfl, rfl, rfl, fun s hs => hs, fun s => hpre s (horder ▸ mem_order s), ?_,
        ?_, ?_⟩
      · exact fun k hk hup => ⟨k, hk, hup, rfl⟩
      · simp [Teardown.holds]
      · intro p hp
        simp [hholder, hp.symm]
    | cons st rest =>
      cases h
      exact torn_stop horder hpre hholder

/-! ## 5. Every step keeps it -/

theorem Driver.Sound.free (hs : d.Sound) (h : ∀ p t, d.teardown p = some t → t.holds = false) :
    d.holder = none := by
  cases hholder : d.holder with
  | none => rfl
  | some p =>
    obtain ⟨t, ht, hholds⟩ := (hs.lock p).mp hholder
    rw [h p t ht] at hholds
    cases hholds

theorem Driver.Sound.calm (hs : d.Sound) (h : d.init = .starting rest) :
    d.guard = .idle ∧ d.exit = .notCalled ∧ d.bootstrapActive = false ∧ d.hook = false ∧
      d.holder = none := by
  obtain ⟨hguard, hhook⟩ := hs.early (by simp [h]) (by simp [h])
  obtain ⟨hexit, hboot⟩ := hs.alone (by simp [h])
  refine ⟨hguard, hexit, hboot, hhook, hs.free fun p t ht => ?_⟩
  cases p <;> simp [Driver.teardown, h, hguard, hexit] at ht

/-- The exit is called only after the initialisation. -/
theorem Driver.Sound.initialised (hs : d.Sound) (h : d.exit ≠ .notCalled) :
    d.init = .ended true := by
  by_contra hended
  exact h (hs.alone hended).1

/-- A state in which only `yukizygisk_init` is under way. -/
theorem sound_calm {active : Stage → Bool} {log : List Event} {init : InitPhase} {k : Stack}
    (hmarking : init ≠ .marking) (hfailing : ∀ t, init = .failing t → t = .locking)
    (hk : replay log = some k) (hup : k.up = order.filter active)
    (hstarted : ∀ rest, init = .starting rest → ∀ s ∈ rest, s ∉ k.started)
    (hstarting : ∀ rest, init = .starting rest →
      (∃ pre, order.reverse = pre ++ rest) ∧ ∀ s ∈ rest, active s = false)
    (hfailed : init = .ended false → ∀ s, active s = false) :
    (Driver.mk active false false none init .idle .notCalled log).Sound where
  stack := ⟨k, hk, hup, hstarted⟩
  past p t ht := by
    cases p <;> cases init <;> simp [Driver.teardown] at ht
    rw [← ht, hfailing _ rfl]
    trivial
  lock p := by
    cases p <;> cases init <;> simp [Driver.teardown]
    simp [hfailing _ rfl, Teardown.holds]
  starting := hstarting
  early _ _ := ⟨rfl, rfl⟩
  alone _ := ⟨rfl, rfl⟩
  failed := hfailed
  late h := absurd rfl h
  gone h := by simp at h

/-- The guard goes on; it was not idle. -/
theorem Driver.Sound.setGuard (hs : d.Sound) (hne : d.guard ≠ .idle) (g : GuardPhase) (hook : Bool)
    (hpast : ∀ t, g = .failing t → Past d.active t)
    (hlock : d.holder = some .guard ↔ ∃ t, g = .failing t ∧ t.holds = true) :
    { d with guard := g, hook := hook }.Sound where
  stack := hs.stack
  past p t ht := by
    cases p with
    | guard =>
      cases g <;> simp [Driver.teardown] at ht
      exact hpast t (congrArg _ ht)
    | init => exact hs.past .init t ht
    | exit => exact hs.past .exit t ht
  lock p := by
    cases p with
    | guard => cases g <;> simpa [Driver.teardown] using hlock
    | init => exact hs.lock .init
    | exit => exact hs.lock .exit
  starting := hs.starting
  early hmarking hended := absurd (hs.early hmarking hended).1 hne
  alone := hs.alone
  failed := hs.failed
  late hcalled hcancelling := absurd (hs.late hcalled hcancelling).1 hne
  gone := hs.gone

/-- A teardown goes on. -/
theorem Driver.Sound.tear {who : Party} {t t' : Teardown} {e : Driver} (hs : d.Sound)
    (ht : Torn d d' who t') (hwho : d.teardown who = some t) (hactive : e.active = d'.active)
    (hlog : e.log = d'.log) (hholder : e.holder = d'.holder) (hnext : e.teardown who = some t')
    (hothers : ∀ p, p ≠ who → e.teardown p = d.teardown p) (hinit : ∀ rest, e.init ≠ .starting rest)
    (hearly : e.init ≠ .marking → e.init ≠ .ended true → e.guard = .idle ∧ e.hook = false)
    (halone : e.init ≠ .ended true → e.exit = .notCalled ∧ e.bootstrapActive = false)
    (hfailed : e.init ≠ .ended false)
    (hlate : e.exit ≠ .notCalled → e.exit ≠ .cancelling → e.guard = .idle ∧ e.hook = false)
    (hgone : e.exit ≠ .ended) : e.Sound where
  stack := by
    obtain ⟨k, hk, hup, -⟩ := hs.stack
    obtain ⟨k', hk', hup', -⟩ := ht.stack k hk hup
    refine ⟨k', by rw [hlog, hk'], ?_, fun rest h => absurd h (hinit rest)⟩
    rw [hup', Driver.up, Driver.up, hactive]
  past p u hu := by
    rw [hactive]
    by_cases hp : p = who
    · subst hp
      rw [hnext] at hu
      cases hu
      exact ht.past
    · rw [hothers p hp] at hu
      exact (hs.past p u hu).mono ht.down
  lock p := by
    rw [hholder]
    by_cases hp : p = who
    · subst hp
      simp [ht.holds, hnext]
    · rw [ht.others p hp, hothers p hp]
      exact hs.lock p
  starting rest h := absurd h (hinit rest)
  early := hearly
  alone := halone
  failed h := absurd h hfailed
  late := hlate
  gone h := absurd h hgone

theorem Driver.Sound.holds_of {who : Party} {t : Teardown} (hs : d.Sound)
    (hwho : d.teardown who = some t) (hholds : t.holds = true) : d.holder = some who :=
  (hs.lock who).mpr ⟨t, hwho, hholds⟩

theorem down_of_host (h : order.reverse = pre ++ .host :: rest) (s : Stage) :
    s ∈ Stage.host :: rest := by
  have hmem : s ∈ order.reverse := List.mem_reverse.mpr (mem_order s)
  cases pre with
  | nil => rwa [h] at hmem
  | cons a pre =>
    have ha : a = .host := by
      have hhead := congrArg List.head? h
      simpa [order] using hhead.symm
    have hnodup : (a :: pre ++ .host :: rest).Nodup := h ▸ List.nodup_reverse.mpr nodup_order
    simp [ha] at hnodup

/-- A stage that is started comes on top of the stack. -/
theorem sound_start {active : Stage → Bool} {log : List Event} {k : Stack}
    (hk : replay log = some k) (hup : k.up = order.filter active)
    (hfresh : ∀ s ∈ st :: rest, s ∉ k.started) (h : order.reverse = pre ++ st :: rest)
    (hdown : ∀ s ∈ st :: rest, active s = false) :
    (Driver.mk (Function.update active st true) false false none (.starting rest) .idle .notCalled
      (log ++ [.start st])).Sound := by
  have hnodup : (pre ++ st :: rest).Nodup := h ▸ List.nodup_reverse.mpr nodup_order
  have hst : st ∉ rest := (List.nodup_cons.mp (List.nodup_append.mp hnodup).2.1).1
  have hne : ∀ s ∈ rest, s ≠ st := fun s hs heq => hst (heq ▸ hs)
  have hpush := up_start (d := ⟨active, false, false, none, .starting rest, .idle, .notCalled, log⟩)
    h hdown
  apply sound_calm (k := ⟨st :: k.up, st :: k.started⟩) (by simp) (by simp)
  · rw [replay_concat, hk, Option.bind_some, Stack.apply,
      if_neg (hfresh st (List.mem_cons_self ..))]
  · rw [hup]
    exact hpush.symm
  · rintro rest' hrest s hs
    cases hrest
    rw [List.mem_cons, not_or]
    exact ⟨hne s hs, hfresh s (List.mem_cons_of_mem st hs)⟩
  · rintro rest' hrest
    cases hrest
    refine ⟨⟨pre ++ [st], by rw [h]; simp⟩, fun s hs => ?_⟩
    rw [Function.update_of_ne (hne s hs)]
    exact hdown s (List.mem_cons_of_mem st hs)
  · simp

theorem tear_of_initStep {chosen ok cookie : Bool} {t : Teardown} (hinit : d.init = .failing t)
    (hover : t ≠ .unlocked) (h : d.initStep chosen ok cookie = some d') :
    ∃ e t', d.tear .init false t = some (e, t') ∧ d' = { e with init := .failing t' } := by
  rw [Driver.initStep, hinit] at h
  have htear : (d.tear .init false t).map (fun (d, t) => { d with init := .failing t }) =
      some d' := by
    rw [← h]
    cases t <;> first | rfl | exact absurd rfl hover
  obtain ⟨⟨e, t'⟩, he, rfl⟩ := Option.map_eq_some_iff.mp htear
  exact ⟨e, t', he, rfl⟩

theorem tear_of_guardStep {v : Verdict} {t : Teardown} (hguard : d.guard = .failing t)
    (hover : t ≠ .unlocked) (h : d.guardStep v = some d') :
    ∃ e t', d.tear .guard true t = some (e, t') ∧ d' = { e with guard := .failing t' } := by
  unfold Driver.guardStep at h
  rw [hguard] at h
  have htear : (d.tear .guard true t).map (fun (d, t) => { d with guard := .failing t }) =
      some d' := by
    rw [← h]
    cases t <;> first | rfl | exact absurd rfl hover
  obtain ⟨⟨e, t'⟩, he, rfl⟩ := Option.map_eq_some_iff.mp htear
  exact ⟨e, t', he, rfl⟩

theorem tear_of_exitStep {t : Teardown} (hexit : d.exit = .tearing t) (hover : t ≠ .unlocked)
    (h : d.exitStep = some d') : ∃ e t', d.tear .exit true t = some (e, t') ∧
      d' = { e with exit := .tearing t', bootstrapActive := false } := by
  rw [Driver.exitStep, hexit] at h
  have htear : (d.tear .exit true t).map
      (fun (d, t) => { d with exit := .tearing t, bootstrapActive := false }) = some d' := by
    rw [← h]
    cases t <;> first | rfl | exact absurd rfl hover
  obtain ⟨⟨e, t'⟩, he, rfl⟩ := Option.map_eq_some_iff.mp htear
  exact ⟨e, t', he, rfl⟩

/-- Loading the module. -/
theorem sound_initStep {chosen ok cookie : Bool} (hs : d.Sound)
    (h : d.initStep chosen ok cookie = some d') : d'.Sound := by
  cases hinit : d.init with
  | starting rest =>
    obtain ⟨hguard, hexit, hboot, hhook, hholder⟩ := hs.calm hinit
    obtain ⟨k, hk, hup, hstarted⟩ := hs.stack
    obtain ⟨⟨pre, hpre⟩, hdown⟩ := hs.starting rest hinit
    have hfresh := hstarted rest hinit
    obtain ⟨active, boot, hook, holder, init, guard, exit, log⟩ := d
    dsimp only at hinit hguard hexit hboot hhook hholder hk hdown
    subst hinit hguard hexit hboot hhook hholder
    cases rest with
    | nil =>
      dsimp only [Driver.initStep] at h
      cases chosen
      · cases h
        exact sound_calm (by simp) (by simp) hk hup (by simp) (by simp) (by simp)
      cases ok
      · cases h
        exact sound_calm (by simp) (by simp) hk hup (by simp) (by simp) (by simp)
      · -- the hook is there, and the guard is queued when there is a cookie
        cases h
        refine ⟨⟨k, hk, hup, by simp⟩, fun p t ht => ?_, fun p => ?_, by simp, by simp,
          fun _ => ⟨rfl, rfl⟩, by simp, fun hcalled => absurd rfl hcalled, by simp⟩
        · cases p <;> cases cookie <;> simp [Driver.teardown] at ht
        · cases p <;> cases cookie <;> simp [Driver.teardown]
    | cons st rest =>
      dsimp only [Driver.initStep] at h
      split_ifs at h with hskip hok hhost
      · cases h
        refine sound_calm (by simp) (by simp) hk hup ?_ ?_ (by simp)
        · rintro rest' hrest s hmem
          cases hrest
          exact hfresh s (List.mem_cons_of_mem st hmem)
        · rintro rest' hrest
          cases hrest
          exact ⟨⟨pre ++ [st], by rw [hpre]; simp⟩, fun s hmem =>
            hdown s (List.mem_cons_of_mem st hmem)⟩
      · cases h
        exact sound_start hk hup hfresh hpre hdown
      · subst hhost
        cases h
        exact sound_calm (by simp) (by simp) hk hup (by simp) (by simp) fun _ s =>
          hdown s (down_of_host hpre s)
      · cases h
        exact sound_calm (by simp) (by simp) hk hup (by simp) (by simp) (by simp)
  | marking =>
    rw [Driver.initStep, hinit] at h
    cases h
    obtain ⟨hexit, -⟩ := hs.alone (by simp [hinit])
    have hsame : ∀ p,
        ({ d with bootstrapActive := true, init := .ended true } : Driver).teardown p =
          d.teardown p := by
      intro p
      cases p <;> simp [Driver.teardown, hinit]
    obtain ⟨k, hk, hup, -⟩ := hs.stack
    exact ⟨⟨k, hk, hup, by simp⟩, fun p t ht => hs.past p t (hsame p ▸ ht), fun p => by
      rw [hsame p]; exact hs.lock p, by simp, by simp, by simp, by simp,
      fun hcalled => absurd hexit hcalled, hs.gone⟩
  | failing t =>
    obtain ⟨hguard, hhook⟩ := hs.early (by simp [hinit]) (by simp [hinit])
    obtain ⟨hexit, hboot⟩ := hs.alone (by simp [hinit])
    have hwho : d.teardown .init = some t := by simp [Driver.teardown, hinit]
    by_cases hover : t = .unlocked
    · subst hover
      rw [Driver.initStep, hinit] at h
      cases h
      obtain ⟨k, hk, hup, -⟩ := hs.stack
      have hnone : ∀ p, ({ d with init := .ended false } : Driver).teardown p = none := by
        intro p
        cases p <;> simp [Driver.teardown, hguard, hexit]
      refine ⟨⟨k, hk, hup, by simp⟩, fun p t ht => ?_, fun p => ?_, by simp,
        fun _ _ => ⟨hguard, hhook⟩, fun _ => ⟨hexit, hboot⟩, fun _ => hs.past .init .unlocked hwho,
        fun hcalled => absurd hexit hcalled, hs.gone⟩
      · simp [hnone p] at ht
      · rw [hnone p]
        have hlock := hs.lock p
        cases p <;> simpa [Driver.teardown, hinit, hguard, hexit, Teardown.holds] using hlock
    · obtain ⟨e, t', he, rfl⟩ := tear_of_initStep hinit hover h
      have ht := torn_of_tear he (hs.past .init t hwho) (.inr hboot) (hs.holds_of hwho)
      refine hs.tear ht hwho rfl rfl rfl rfl (fun p hp => ?_) (by simp) (fun _ _ => ?_)
        (fun _ => ?_) (by simp) (fun hcalled => ?_) ?_
      · cases p with
        | init => exact absurd rfl hp
        | guard => simp [Driver.teardown, ht.guard]
        | exit => simp [Driver.teardown, ht.exit]
      · exact ⟨ht.guard.trans hguard, ht.hook.trans hhook⟩
      · exact ⟨ht.exit.trans hexit, ht.bootstrap.trans hboot⟩
      · exact absurd (ht.exit.trans hexit) hcalled
      · rw [show e.exit = .notCalled from ht.exit.trans hexit]
        simp
  | ended ok =>
    rw [Driver.initStep, hinit] at h
    cases h

/-- The work of the guard. -/
theorem sound_guardStep {v : Verdict} (hs : d.Sound) (h : d.guardStep v = some d') : d'.Sound := by
  cases hguard : d.guard with
  | idle =>
    unfold Driver.guardStep at h
    rw [hguard] at h
    cases h
  | pending =>
    unfold Driver.guardStep at h
    rw [hguard] at h
    cases h
    have hlock := hs.lock .guard
    exact hs.setGuard (by simp [hguard]) .working d.hook (by simp) (by
      simpa [Driver.teardown, hguard] using hlock)
  | working =>
    unfold Driver.guardStep at h
    rw [hguard] at h
    have hfree : d.holder ≠ some .guard := by
      have hlock := hs.lock .guard
      simpa [Driver.teardown, hguard] using hlock
    have hne : d.guard ≠ .idle := by simp [hguard]
    cases v with
    | again =>
      cases h
      refine hs.setGuard hne _ d.hook ?_ ?_
      · intro t ht
        split_ifs at ht
      · simp only [hfree, false_iff]
        rintro ⟨t, ht, -⟩
        split_ifs at ht
    | settled =>
      cases h
      exact hs.setGuard hne .idle d.hook (by simp) (by simp [hfree])
    | close =>
      cases h
      refine hs.setGuard hne (.failing .locking) false ?_ ?_
      · intro t ht
        cases ht
        trivial
      · simp [hfree, Teardown.holds]
  | failing t =>
    have hne : d.guard ≠ .idle := by simp [hguard]
    have hwho : d.teardown .guard = some t := by simp [Driver.teardown, hguard]
    by_cases hover : t = .unlocked
    · subst hover
      unfold Driver.guardStep at h
      rw [hguard] at h
      cases h
      have hlock := hs.lock .guard
      exact hs.setGuard hne .idle d.hook (by simp) (by
        simpa [Driver.teardown, hguard, Teardown.holds] using hlock)
    · obtain ⟨e, t', he, rfl⟩ := tear_of_guardStep hguard hover h
      have ht := torn_of_tear he (hs.past .guard t hwho) (.inl rfl) (hs.holds_of hwho)
      -- it runs, so the bootstrap has started and the exit has not cancelled it
      have hinit : d.init = .marking ∨ d.init = .ended true := by
        by_contra hother
        rw [not_or] at hother
        exact hne (hs.early hother.1 hother.2).1
      have hexit : d.exit = .notCalled ∨ d.exit = .cancelling := by
        by_contra hother
        rw [not_or] at hother
        exact hne (hs.late hother.1 hother.2).1
      refine hs.tear ht hwho rfl rfl rfl rfl (fun p hp => ?_) ?_ (fun hmarking hended => ?_)
        (fun hended => ?_) ?_ (fun hcalled hcancelling => ?_) ?_
      · cases p with
        | init => simp [Driver.teardown, ht.init]
        | guard => exact absurd rfl hp
        | exit => simp [Driver.teardown, ht.exit]
      · intro rest hrest
        have hsame : d.init = .starting rest := ht.init.symm.trans hrest
        rcases hinit with hinit | hinit <;> simp [hinit] at hsame
      · have hsame : e.init = d.init := ht.init
        rcases hinit with hinit | hinit
        · exact absurd (hsame.trans hinit) hmarking
        · exact absurd (hsame.trans hinit) hended
      · have halone := hs.alone fun hd => hended (ht.init.trans hd)
        exact ⟨ht.exit.trans halone.1, ht.bootstrap.trans halone.2⟩
      · intro hfailed
        have hsame : d.init = .ended false := ht.init.symm.trans hfailed
        rcases hinit with hinit | hinit <;> simp [hinit] at hsame
      · rcases hexit with hexit | hexit
        · exact absurd (ht.exit.trans hexit) hcalled
        · exact absurd (ht.exit.trans hexit) hcancelling
      · intro hended
        have hsame : d.exit = .ended := ht.exit.symm.trans hended
        rcases hexit with hexit | hexit <;> simp [hexit] at hsame

/-- Unloading the module. -/
theorem sound_exitStep (hs : d.Sound) (h : d.exitStep = some d') : d'.Sound := by
  cases hexit : d.exit with
  | notCalled =>
    rw [Driver.exitStep, hexit] at h
    dsimp only at h
    split_ifs at h with hinit
    cases h
    have hsame : ∀ p, ({ d with exit := .cancelling } : Driver).teardown p = d.teardown p := by
      intro p
      cases p <;> simp [Driver.teardown, hexit]
    exact ⟨hs.stack, fun p t ht => hs.past p t (hsame p ▸ ht), fun p => by
      rw [hsame p]; exact hs.lock p, hs.starting, hs.early, fun hended => absurd hinit hended,
      hs.failed, by simp, by simp⟩
  | cancelling =>
    have hinit := hs.initialised (by simp [hexit])
    rw [Driver.exitStep, hexit] at h
    dsimp only at h
    split_ifs at h with hrest
    cases h
    have hguard : d.guard = .idle ∨ d.guard = .pending := by
      cases hg : d.guard <;> simp [hg, GuardPhase.atRest] at hrest ⊢
    refine ⟨hs.stack, fun p t ht => ?_, fun p => ?_, hs.starting, fun _ _ => ⟨rfl, rfl⟩,
      fun hended => absurd hinit hended, hs.failed, fun _ _ => ⟨rfl, rfl⟩, by simp⟩
    · cases p <;> simp [Driver.teardown, hinit] at ht
      rw [← ht]
      trivial
    · have hlock := hs.lock p
      cases p <;> rcases hguard with hguard | hguard <;>
        simpa [Driver.teardown, hinit, hguard, hexit, Teardown.holds] using hlock
  | tearing t =>
    have hinit := hs.initialised (by simp [hexit])
    obtain ⟨hguard, hhook⟩ := hs.late (by simp [hexit]) (by simp [hexit])
    have hwho : d.teardown .exit = some t := by simp [Driver.teardown, hexit]
    by_cases hover : t = .unlocked
    · subst hover
      rw [Driver.exitStep, hexit] at h
      cases h
      refine ⟨hs.stack, fun p t ht => ?_, fun p => ?_, hs.starting, hs.early,
        fun hended => absurd hinit hended, hs.failed, fun _ _ => ⟨hguard, hhook⟩,
        fun _ => hs.past .exit .unlocked hwho⟩
      · cases p <;> simp [Driver.teardown, hinit, hguard] at ht
      · have hlock := hs.lock p
        cases p <;> simpa [Driver.teardown, hinit, hguard, hexit, Teardown.holds] using hlock
    · obtain ⟨e, t', he, rfl⟩ := tear_of_exitStep hexit hover h
      have ht := torn_of_tear he (hs.past .exit t hwho) (.inl rfl) (hs.holds_of hwho)
      have hsame : e.init = .ended true := ht.init.trans hinit
      refine hs.tear ht hwho rfl rfl rfl rfl (fun p hp => ?_) (by simp [hsame]) ?_ ?_
        (by simp [hsame]) (fun _ _ => ⟨ht.guard.trans hguard, ht.hook.trans hhook⟩) (by simp)
      · cases p with
        | init => simp [Driver.teardown, ht.init]
        | guard => simp [Driver.teardown, ht.guard]
        | exit => exact absurd rfl hp
      · exact fun _ hended => absurd hsame hended
      · exact fun hended => absurd hsame hended
  | ended =>
    rw [Driver.exitStep, hexit] at h
    cases h

theorem sound_loading : loading.Sound :=
  sound_calm (k := ⟨[], []⟩) (by simp) (by simp) rfl (by simp) (by simp)
    (fun rest hrest => ⟨⟨[], by cases hrest; rfl⟩, fun _ _ => rfl⟩) (by simp)

theorem sound_step {a : Act} (hs : d.Sound) (h : d.step a = some d') : d'.Sound := by
  cases a with
  | init chosen ok cookie => exact sound_initStep hs h
  | guard v => exact sound_guardStep hs h
  | exit => exact sound_exitStep hs h

/-- What holds in every run. -/
theorem sound_of_reach (hr : driver.Reach Lts.anyStep d) : d.Sound := by
  refine hr.invariant ⟨?_, ?_⟩
  · rintro d rfl
    exact sound_loading
  · exact fun _ _ _ hs _ h => sound_step hs h

/-! ## 6. Everything that is started is stopped -/

/-- Nothing of the driver is left. -/
structure Driver.Gone (d : Driver) : Prop where
  down : ∀ s, d.active s = false
  hook : d.hook = false
  guard : d.guard = .idle
  free : d.holder = none

/-- **The stages are a stack**, whoever starts and stops them: each is started at most once, and one
is stopped exactly when it was started last among those that are up, which are the active ones; and
when the module has failed to load or is gone, every stage that was started has been stopped. -/
theorem stages_stacked (hr : driver.Reach Lts.anyStep d) :
    ∃ k, replay d.log = some k ∧ k.up = order.filter d.active ∧
      (d.init = .ended false ∨ d.exit = .ended → k.up = [] ∧ d.Gone) := by
  have hs := sound_of_reach hr
  obtain ⟨k, hk, hup, -⟩ := hs.stack
  refine ⟨k, hk, hup, fun hend => ?_⟩
  have hdown : ∀ s, d.active s = false := hend.elim hs.failed hs.gone
  have hrest : d.guard = .idle ∧ d.hook = false := by
    rcases hend with hend | hend
    · exact hs.early (by simp [hend]) (by simp [hend])
    · exact hs.late (by simp [hend]) (by simp [hend])
  refine ⟨by simp [hup, Driver.up, hdown], hdown, hrest.2, hrest.1, hs.free fun p t ht => ?_⟩
  rcases hend with hend | hend
  · obtain ⟨hexit, -⟩ := hs.alone (by simp [hend])
    cases p <;> simp [Driver.teardown, hend, hrest.1, hexit] at ht
  · have hinit := hs.initialised (by simp [hend])
    cases p <;> simp [Driver.teardown, hend, hrest.1, hinit] at ht

/-- The control device cannot be made; the stages before it are stopped. -/
def failedLoad : List Act :=
  List.replicate 6 (.init true true false) ++ List.replicate 11 (.init true false false)

theorem stages_stacked_failedLoad :
    ∃ d : Driver, d.init = .ended false ∧ ∃ k, replay d.log = some k ∧ k.up = [] ∧ d.Gone := by
  obtain ⟨d, hr, hd⟩ := Lts.exists_reach_of_exec (M := driver) rfl failedLoad
    (fun d : Driver => d.init = .ended false) (by decide +kernel)
  have hend : d.init = .ended false := of_decide_eq_true hd
  obtain ⟨k, hk, -, hgone⟩ := stages_stacked hr
  exact ⟨d, hend, k, hk, hgone (.inl hend)⟩

/-! ## 7. The exit comes to its end -/

def Teardown.left : Teardown → ℕ
  | .locking => order.length + 2
  | .cancelling => order.length + 2
  | .before rest => rest.length + 1
  | .unlocked => 0

/-- What the guard and the exit have ahead of them once the exit is called. -/
def Driver.left (d : Driver) : ℕ :=
  (match d.guard with
    | .idle => 0
    | .pending => order.length + 5
    | .working => order.length + 4
    | .failing t => t.left + 1) +
  match d.exit with
    | .notCalled => order.length + 5
    | .cancelling => order.length + 4
    | .tearing t => t.left + 1
    | .ended => 0

/-- A teardown has less to do after each step. -/
theorem left_tear {who : Party} {skip : Bool} {t t' : Teardown}
    (h : d.tear who skip t = some (d', t')) (hpast : Past d.active t) (hpast' : Past d'.active t') :
    t'.left < t.left := by
  cases t with
  | cancelling => exact hpast.elim
  | unlocked => simp [Driver.tear] at h
  | locking =>
    rw [Driver.tear] at h
    split_ifs at h
    · cases h
      exact hpast'.elim
    · cases h
      exact Nat.lt_succ_self _
  | before rest => cases rest <;> cases h <;> simp [Teardown.left]

/-- Once the exit is called, every step brings it closer to its end. -/
theorem left_step {a : Act} (hs : d.Sound) (hcalled : d.exit ≠ .notCalled)
    (h : d.step a = some d') : d'.left < d.left ∧ d'.exit ≠ .notCalled := by
  have hinit := hs.initialised hcalled
  cases a with
  | init chosen ok cookie => simp [Driver.step, Driver.initStep, hinit] at h
  | guard v =>
    rw [Driver.step] at h
    cases hguard : d.guard with
    | idle =>
      unfold Driver.guardStep at h
      rw [hguard] at h
      cases h
    | pending =>
      unfold Driver.guardStep at h
      rw [hguard] at h
      cases h
      exact ⟨by simp [Driver.left, hguard], hcalled⟩
    | working =>
      -- the exit is still cancelling the guard, so that this does not queue it again
      have hexit : d.exit = .cancelling := by
        by_contra hother
        simpa [hguard] using (hs.late hcalled hother).1
      unfold Driver.guardStep at h
      rw [hguard] at h
      cases v <;> cases h <;>
        exact ⟨by simp [Driver.left, hguard, hexit, Teardown.left], hcalled⟩
    | failing t =>
      have hwho : d.teardown .guard = some t := by simp [Driver.teardown, hguard]
      by_cases hover : t = .unlocked
      · subst hover
        unfold Driver.guardStep at h
        rw [hguard] at h
        cases h
        exact ⟨by simp [Driver.left, hguard], hcalled⟩
      · obtain ⟨e, t', he, rfl⟩ := tear_of_guardStep hguard hover h
        have hpast := hs.past .guard t hwho
        have ht := torn_of_tear he hpast (.inl rfl) (hs.holds_of hwho)
        have hleft := left_tear he hpast ht.past
        have hsame : e.exit = d.exit := ht.exit
        exact ⟨by simp only [Driver.left, hguard, hsame]; omega, fun hc => hcalled (hsame ▸ hc)⟩
  | exit =>
    rw [Driver.step] at h
    cases hexit : d.exit with
    | notCalled => exact absurd hexit hcalled
    | cancelling =>
      rw [Driver.exitStep, hexit] at h
      dsimp only at h
      split_ifs at h
      cases h
      exact ⟨by simp only [Driver.left, hexit, Teardown.left]; split <;> omega, by simp⟩
    | tearing t =>
      have hwho : d.teardown .exit = some t := by simp [Driver.teardown, hexit]
      by_cases hover : t = .unlocked
      · subst hover
        rw [Driver.exitStep, hexit] at h
        cases h
        exact ⟨by simp [Driver.left, hexit], by simp⟩
      · obtain ⟨e, t', he, rfl⟩ := tear_of_exitStep hexit hover h
        have hpast := hs.past .exit t hwho
        have ht := torn_of_tear he hpast (.inl rfl) (hs.holds_of hwho)
        have hleft := left_tear he hpast ht.past
        have hsame : e.guard = d.guard := ht.guard
        exact ⟨by simp only [Driver.left, hexit, hsame]; omega, by simp⟩
    | ended =>
      rw [Driver.exitStep, hexit] at h
      cases h

/-- A teardown waits for the lock only. -/
theorem tear_isSome {who : Party} {skip : Bool} {t : Teardown} (hpast : Past d.active t)
    (hover : t ≠ .unlocked) (hfree : t = .locking → d.holder = none) :
    ∃ e, d.tear who skip t = some e := by
  cases t with
  | locking => exact ⟨_, by rw [Driver.tear, if_pos (hfree rfl)]⟩
  | cancelling => exact hpast.elim
  | before rest => cases rest <;> exact ⟨_, rfl⟩
  | unlocked => exact absurd rfl hover

/-- There is always a step until the exit has ended. -/
theorem exists_step (hs : d.Sound) (hcalled : d.exit ≠ .notCalled) (hended : d.exit ≠ .ended) :
    ∃ a d', d.step a = some d' := by
  have hinit := hs.initialised hcalled
  cases hexit : d.exit with
  | notCalled => exact absurd hexit hcalled
  | ended => exact absurd hexit hended
  | cancelling =>
    cases hguard : d.guard with
    | idle => exact ⟨.exit, _, by rw [Driver.step, Driver.exitStep, hexit, hguard]; rfl⟩
    | pending => exact ⟨.exit, _, by rw [Driver.step, Driver.exitStep, hexit, hguard]; rfl⟩
    | working => exact ⟨.guard .settled, _, by simp [Driver.step, Driver.guardStep, hguard]; rfl⟩
    | failing t =>
      by_cases hover : t = .unlocked
      · exact ⟨.guard .settled, _, by simp [Driver.step, Driver.guardStep, hguard, hover]; rfl⟩
      · -- the exit waits for the guard, but does not hold the lock
        have hfree : t = .locking → d.holder = none := by
          rintro rfl
          refine hs.free fun p u hu => ?_
          cases p <;> simp [Driver.teardown, hinit, hguard, hexit] at hu
          rw [← hu]
          rfl
        have hpast := hs.past .guard t (by simp [Driver.teardown, hguard])
        obtain ⟨e, he⟩ : ∃ e, d.tear .guard true t = some e := tear_isSome hpast hover hfree
        refine ⟨.guard .settled, { e.1 with guard := .failing e.2 }, ?_⟩
        rw [Driver.step]
        unfold Driver.guardStep
        rw [hguard]
        cases t <;> first | exact absurd rfl hover | exact Option.map_eq_some_iff.mpr ⟨e, he, rfl⟩
  | tearing t =>
    by_cases hover : t = .unlocked
    · exact ⟨.exit, _, by simp [Driver.step, Driver.exitStep, hexit, hover]; rfl⟩
    · obtain ⟨hguard, -⟩ := hs.late (by simp [hexit]) (by simp [hexit])
      have hfree : t = .locking → d.holder = none := by
        rintro rfl
        refine hs.free fun p u hu => ?_
        cases p <;> simp [Driver.teardown, hinit, hguard, hexit] at hu
        rw [← hu]
        rfl
      have hpast := hs.past .exit t (by simp [Driver.teardown, hexit])
      obtain ⟨e, he⟩ : ∃ e, d.tear .exit true t = some e := tear_isSome hpast hover hfree
      refine ⟨.exit, { e.1 with exit := .tearing e.2, bootstrapActive := false }, ?_⟩
      rw [Driver.step, Driver.exitStep, hexit]
      cases t <;> first | exact absurd rfl hover | exact Option.map_eq_some_iff.mpr ⟨e, he, rfl⟩

/-- **Unloading the module comes to its end.**  From the moment `yukizygisk_exit` is called only so
many steps can be taken, by whomever, and when none is left the exit has returned: it never waits
for a guard that waits for it. -/
theorem exit_ends {as : List Act} (hr : driver.Reach Lts.anyStep d) (hcalled : d.exit ≠ .notCalled)
    (h : driver.exec d as = some d') :
    as.length ≤ d.left ∧ ((∀ a, driver.step d' a = none) → d'.exit = .ended) := by
  have hs := sound_of_reach hr
  clear hr
  induction as generalizing d with
  | nil =>
    cases h
    refine ⟨Nat.zero_le _, fun hstuck => ?_⟩
    by_contra hended
    obtain ⟨a, e, he⟩ := exists_step hs hcalled hended
    exact absurd ((hstuck a).symm.trans he) (by simp)
  | cons a as ih =>
    obtain ⟨e, he, hrest⟩ := Option.bind_eq_some_iff.mp h
    obtain ⟨hleft, hcalled'⟩ := left_step hs hcalled he
    obtain ⟨hlen, hend⟩ := ih hcalled' hrest (sound_step hs he)
    exact ⟨by rw [List.length_cons]; omega, hend⟩

/-- The guard is about to tear the driver down when the module is unloaded. -/
def unloadedLate : List Act :=
  List.replicate 9 (.init true true true) ++
    [.guard .settled, .guard .close, .exit, .guard .settled]

theorem exit_ends_unloadedLate :
    ∃ d : Driver, d.exit = .cancelling ∧ d.guard = .failing (.before order) ∧ ∀ as d',
      driver.exec d as = some d' →
        as.length ≤ d.left ∧ ((∀ a, driver.step d' a = none) → d'.exit = .ended) := by
  obtain ⟨d, hr, hd⟩ := Lts.exists_reach_of_exec (M := driver) rfl unloadedLate
    (fun d : Driver => d.exit = .cancelling ∧ d.guard = .failing (.before order))
    (by decide +kernel)
  obtain ⟨hexit, hguard⟩ := of_decide_eq_true hd
  exact ⟨d, hexit, hguard, fun as d' h => exit_ends hr (by simp [hexit]) h⟩

end YukiZygisk.DriverLife
