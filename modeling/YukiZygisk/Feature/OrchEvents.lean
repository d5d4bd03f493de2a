/-
# The ring of specialise events (`kernel/feature/zygote_orch.c`)

The setresuid callback cannot talk to the daemon itself.  It puts an event into a ring of 128
entries under a lock, and a work item takes the events out again and emits them.  An event that
finds the ring full is only counted.

`events` runs any number of queue calls and the work item in any order.  A queue call is its
locked section and the `schedule_work` after it; a run of the work item is a section for every
entry, with what it does outside the lock in between.

Nothing accepted is lost, reordered or emitted twice, and no wakeup is lost: `relays_events`.
The count of dropped events is an `unsigned int`, so it is one modulo 2^32: `not_counted`.

The ring is read as a list (`contents`): the slots from the tail to the head.  Pushing appends to it
(`contents_push`) and popping takes the first (`contents_pop`), as long as head, tail and count
agree about it (`Slots`), for which the count must tell a full ring from an empty one.  What was
accepted is then always what was emitted, followed by what the worker holds and what the ring holds,
in order.  No wakeup is lost because `schedule_work` comes after the locked section: while the ring
has something, the work is scheduled, or it runs and will look once more, or a queue call has yet to
schedule it (`Awake`).
-/
import YukiZygisk.Lib.Lts

namespace YukiZygisk.Orch

/-! ## 1. The ring -/

/-- `struct zo_specialize_event`. -/
structure ZoSpecializeEvent where
  pid : Nat
  uid : UInt32
  appid : UInt32
  deriving DecidableEq

/-- `ZO_MAX_SPECIALIZE_EVENTS`. -/
def zoMaxSpecializeEvents : Nat := 128

/-- Where `zo_specialize_work_fn` is: not running, before the next pop, with what it popped, or
past its last pop. -/
inductive Worker
  | idle
  | next
  | emitting (event : ZoSpecializeEvent)
  | reporting (dropped : UInt32)
  | leaving
  deriving DecidableEq

/-- The ring, its work item, and what is under way.  `scheduling` counts the queue calls between
their section and their `schedule_work`, `pending` is whether the work item is scheduled.  The
last five are ghosts: the queue calls, the events they accepted, the events emitted, the drops
reported, and the drops that wrapped the counter. -/
structure EventRun where
  events : Nat → ZoSpecializeEvent
  head : Nat
  tail : Nat
  dropped : UInt32
  workQueued : Bool
  scheduling : Nat
  pending : Bool
  worker : Worker
  calls : Nat
  accepted : List ZoSpecializeEvent
  emitted : List ZoSpecializeEvent
  reported : Nat
  wraps : Nat

inductive EventAct
  /-- the locked section of `zo_queue_specialize_event` -/
  | queue (event : ZoSpecializeEvent)
  /-- its `schedule_work` -/
  | schedule
  /-- the work item starts -/
  | start
  /-- `zo_pop_specialize_event` -/
  | pop
  /-- what follows a pop: the event is emitted, the drops are reported, or the work item ends -/
  | go

namespace EventRun

variable (s : EventRun)

/-- The slot after this one. -/
def after (i : Nat) : Nat := (i + 1) % zoMaxSpecializeEvents

/-- The locked section of `zo_queue_specialize_event`. -/
def queue (event : ZoSpecializeEvent) : EventRun :=
  let s' :=
    if after s.head = s.tail then
      { s with
        dropped := s.dropped + 1
        wraps := s.wraps + if s.dropped + 1 = 0 then 1 else 0 }
    else
      { s with
        events := Function.update s.events s.head event
        head := after s.head
        accepted := s.accepted ++ [event] }
  { s' with
    calls := s.calls + 1
    workQueued := true
    scheduling := s.scheduling + if s.workQueued then 0 else 1 }

/-- `zo_pop_specialize_event`, with what its caller does next. -/
def pop : EventRun :=
  if s.tail ≠ s.head then
    { s with tail := after s.tail, worker := .emitting (s.events s.tail) }
  else if s.dropped ≠ 0 then { s with dropped := 0, worker := .reporting s.dropped }
  else { s with workQueued := false, worker := .leaving }

def step : EventAct → Option EventRun
  | .queue event => some (s.queue event)
  | .schedule =>
    if s.scheduling = 0 then none
    else some { s with scheduling := s.scheduling - 1, pending := true }
  | .start =>
    if s.pending = true ∧ s.worker = .idle then some { s with pending := false, worker := .next }
    else none
  | .pop => if s.worker = .next then some s.pop else none
  | .go =>
    match s.worker with
    | .emitting event => some { s with emitted := s.emitted ++ [event], worker := .next }
    | .reporting dropped =>
      some { s with reported := s.reported + dropped.toNat, worker := .next }
    | .leaving => some { s with worker := .idle }
    | .idle | .next => none

/-- How many entries are in the ring, and which. -/
def count : Nat := (s.head + zoMaxSpecializeEvents - s.tail) % zoMaxSpecializeEvents
def contents : List ZoSpecializeEvent :=
  (List.range s.count).map fun i => s.events ((s.tail + i) % zoMaxSpecializeEvents)

end EventRun

/-- The ring at load time; the entries may hold anything. -/
def eventsLts : Lts EventRun EventAct where
  init s := s.head = 0 ∧ s.tail = 0 ∧ s.dropped = 0 ∧ s.workQueued = false ∧ s.scheduling = 0 ∧
    s.pending = false ∧ s.worker = .idle ∧ s.calls = 0 ∧ s.accepted = [] ∧ s.emitted = [] ∧
    s.reported = 0 ∧ s.wraps = 0
  step := EventRun.step

/-! ## 2. What the ring holds -/

namespace EventRun

variable {s s' : EventRun} {event : ZoSpecializeEvent}

/-- Head and tail are slots. -/
def Slots (s : EventRun) : Prop := s.head < zoMaxSpecializeEvents ∧ s.tail < zoMaxSpecializeEvents

theorem contents_length (s : EventRun) : s.contents.length = s.count := by simp [contents]

theorem count_eq (h : s.Slots) :
    s.count = if s.tail ≤ s.head then s.head - s.tail else s.head + 128 - s.tail := by
  obtain ⟨hh, ht⟩ := h
  simp only [zoMaxSpecializeEvents] at hh ht
  simp only [count, zoMaxSpecializeEvents]
  split_ifs <;> omega

theorem after_eq {i : Nat} (h : i < zoMaxSpecializeEvents) :
    after i = if i = 127 then 0 else i + 1 := by
  simp only [zoMaxSpecializeEvents] at h
  simp only [after, zoMaxSpecializeEvents]
  split_ifs <;> omega

/-- The ring is empty when head and tail meet. -/
theorem contents_nil (h : s.Slots) : s.contents = [] ↔ s.tail = s.head := by
  rw [← List.length_eq_zero_iff, contents_length, count_eq h]
  obtain ⟨hh, ht⟩ := h
  simp only [zoMaxSpecializeEvents] at hh ht
  split_ifs <;> omega

/-- An accepted event is put at the end. -/
theorem contents_push (h : s.Slots) (hroom : after s.head ≠ s.tail) (h' : s'.events =
    Function.update s.events s.head event) (hhead : s'.head = after s.head)
    (htail : s'.tail = s.tail) : s'.contents = s.contents ++ [event] := by
  have hslots : s'.Slots := by
    refine ⟨?_, htail ▸ h.2⟩
    rw [hhead]
    exact Nat.mod_lt _ (by decide)
  have hcount : s'.count = s.count + 1 := by
    rw [count_eq hslots, count_eq h, hhead, htail, after_eq h.1]
    rw [after_eq h.1] at hroom
    obtain ⟨hh, ht⟩ := h
    simp only [zoMaxSpecializeEvents] at hh ht
    split_ifs at hroom ⊢ <;> omega
  have hcell : ∀ i, i < s.count → (s.tail + i) % zoMaxSpecializeEvents ≠ s.head := by
    intro i hi
    rw [count_eq h] at hi
    obtain ⟨hh, ht⟩ := h
    simp only [zoMaxSpecializeEvents] at hh ht ⊢
    split_ifs at hi <;> omega
  have hlast : (s.tail + s.count) % zoMaxSpecializeEvents = s.head := by
    rw [count_eq h]
    obtain ⟨hh, ht⟩ := h
    simp only [zoMaxSpecializeEvents] at hh ht ⊢
    split_ifs <;> omega
  rw [contents, contents, hcount, List.range_succ, List.map_append, h', htail, List.map_singleton,
    hlast, Function.update_self]
  congr 1
  refine List.map_congr_left ?_
  intro i hi
  exact Function.update_of_ne (hcell i (List.mem_range.mp hi)) _ _

/-- A pop takes the first event. -/
theorem contents_pop (h : s.Slots) (hne : s.tail ≠ s.head) (h' : s'.events = s.events)
    (hhead : s'.head = s.head) (htail : s'.tail = after s.tail) :
    s.contents = s.events s.tail :: s'.contents := by
  have hslots : s'.Slots := by
    refine ⟨hhead ▸ h.1, ?_⟩
    rw [htail]
    exact Nat.mod_lt _ (by decide)
  have hcount : s.count = s'.count + 1 := by
    rw [count_eq hslots, count_eq h, hhead, htail, after_eq h.2]
    obtain ⟨hh, ht⟩ := h
    simp only [zoMaxSpecializeEvents] at hh ht
    split_ifs <;> omega
  have hfirst : (s.tail + 0) % zoMaxSpecializeEvents = s.tail := Nat.mod_eq_of_lt h.2
  rw [contents, contents, hcount, List.range_succ_eq_map, List.map_cons, hfirst, List.map_map, h',
    htail]
  congr 1
  refine List.map_congr_left ?_
  intro i _
  simp only [Function.comp, after, Nat.mod_add_mod]
  congr 2
  omega

/-! ## 3. What the ring promises -/

/-- The event popped and not emitted yet. -/
def inHand (s : EventRun) : List ZoSpecializeEvent :=
  match s.worker with
  | .emitting event => [event]
  | _ => []

/-- The drops taken off the counter and not reported yet. -/
def dropsInHand (s : EventRun) : Nat :=
  match s.worker with
  | .reporting dropped => dropped.toNat
  | _ => 0

/-- The work item is scheduled, or running with a pop still to come, or a queue call is between
its section and its `schedule_work`. -/
def Awake (s : EventRun) : Prop :=
  s.pending = true ∨ (s.worker ≠ .idle ∧ s.worker ≠ .leaving) ∨ 0 < s.scheduling

/-- **What the ring promises**, but for `lost` queue calls that no counter has.  The events
emitted, the one in hand and those in the ring are the accepted ones in order; every other
queue call is a drop, reported, in hand or pending; and what waits is not forgotten. -/
structure Relays (s : EventRun) (lost : Nat) : Prop where
  order : s.emitted ++ s.inHand ++ s.contents = s.accepted
  counted : s.calls = s.emitted.length + s.inHand.length + s.contents.length + s.reported +
    s.dropsInHand + s.dropped.toNat + lost
  awake : s.contents ≠ [] ∨ s.dropped ≠ 0 → s.Awake

/-- What every step keeps. -/
structure Kept (s : EventRun) : Prop where
  slots : s.Slots
  order : s.emitted ++ s.inHand ++ s.contents = s.accepted
  counted : s.calls = s.accepted.length + s.reported + s.dropsInHand + s.dropped.toNat +
    2 ^ 32 * s.wraps
  queued : s.workQueued = true → s.Awake
  quiet : s.workQueued = false → s.contents = [] ∧ s.dropped = 0

theorem Kept.relays (h : s.Kept) : s.Relays (2 ^ 32 * s.wraps) := by
  refine ⟨h.order, ?_, ?_⟩
  · have hlen := congrArg List.length h.order
    rw [List.length_append, List.length_append] at hlen
    rw [h.counted, ← hlen]
  · intro hwait
    refine h.queued ?_
    by_contra hq
    obtain ⟨hc, hd⟩ := h.quiet (by simpa using hq)
    rcases hwait with hwait | hwait
    · exact hwait hc
    · exact hwait hd

/-- One more drop. -/
theorem toNat_succ (d : UInt32) :
    (d + 1).toNat + 2 ^ 32 * (if d + 1 = 0 then 1 else 0) = d.toNat + 1 := by
  have hlt := d.toNat_lt
  have hsum : (d + 1).toNat = (d.toNat + 1) % 2 ^ 32 := by
    rw [UInt32.toNat_add]
    rfl
  have hzero : d + 1 = 0 ↔ d.toNat + 1 = 2 ^ 32 := by
    rw [← UInt32.toNat_inj, hsum]
    simp only [UInt32.toNat_zero]
    omega
  split_ifs with h
  · rw [hzero] at h
    omega
  · rw [hzero] at h
    omega

/-- What a step leaves alone: the ring, the counters and the flag. -/
theorem Kept.frame (h : s.Kept) (hring : s'.contents = s.contents) (hslots : s'.Slots)
    (hcounts : s'.calls = s.calls ∧ s'.accepted = s.accepted ∧ s'.dropped = s.dropped ∧
      s'.wraps = s.wraps ∧ s'.workQueued = s.workQueued)
    (hhand : s'.emitted ++ s'.inHand = s.emitted ++ s.inHand)
    (hdrops : s'.reported + s'.dropsInHand = s.reported + s.dropsInHand)
    (hawake : s.Awake → s'.Awake) : s'.Kept := by
  obtain ⟨hcalls, haccepted, hdropped, hwraps, hqueued⟩ := hcounts
  refine
    { slots := hslots
      order := by rw [hhand, hring, haccepted, h.order]
      counted := ?_
      queued := fun hq => hawake (h.queued (hqueued ▸ hq))
      quiet := fun hq => ?_ }
  · have := h.counted
    rw [hcalls, haccepted, hdropped, hwraps]
    omega
  · rw [hring, hdropped]
    exact h.quiet (hqueued ▸ hq)

theorem queue_kept (h : s.Kept) : (s.queue event).Kept := by
  have hawake : (s.queue event).Awake := by
    cases hq : s.workQueued with
    | false =>
      refine .inr (.inr ?_)
      change 0 < s.scheduling + if s.workQueued then 0 else 1
      rw [hq]
      exact Nat.succ_pos _
    | true =>
      have := h.queued hq
      unfold queue
      split_ifs <;> simpa [Awake, hq] using this
  have hqueued : (s.queue event).workQueued = true := by unfold queue; split_ifs <;> rfl
  have hcounted := h.counted
  by_cases hfull : after s.head = s.tail
  · have heq : s.queue event =
        { s with
          dropped := s.dropped + 1
          wraps := s.wraps + if s.dropped + 1 = 0 then 1 else 0
          calls := s.calls + 1
          workQueued := true
          scheduling := s.scheduling + if s.workQueued then 0 else 1 } := by
      simp only [queue, if_pos hfull]
    refine { slots := ?_, order := ?_, counted := ?_, queued := fun _ => hawake, quiet := ?_ }
    · rw [heq]
      exact h.slots
    · rw [heq]
      exact h.order
    · have hsucc := toNat_succ s.dropped
      rw [heq]
      change s.calls + 1 = s.accepted.length + s.reported + s.dropsInHand +
        (s.dropped + 1).toNat + 2 ^ 32 * (s.wraps + if s.dropped + 1 = 0 then 1 else 0)
      rw [Nat.mul_add]
      omega
    · intro hq
      rw [hqueued] at hq
      cases hq
  · have heq : s.queue event =
        { s with
          events := Function.update s.events s.head event
          head := after s.head
          accepted := s.accepted ++ [event]
          calls := s.calls + 1
          workQueued := true
          scheduling := s.scheduling + if s.workQueued then 0 else 1 } := by
      simp only [queue, if_neg hfull]
    refine { slots := ?_, order := ?_, counted := ?_, queued := fun _ => hawake, quiet := ?_ }
    · rw [heq]
      exact ⟨Nat.mod_lt _ (by decide), h.slots.2⟩
    · have hevents : (s.queue event).events = Function.update s.events s.head event := by rw [heq]
      rw [contents_push h.slots hfull hevents (by rw [heq]) (by rw [heq]), heq]
      change s.emitted ++ s.inHand ++ (s.contents ++ [event]) = s.accepted ++ [event]
      rw [← List.append_assoc, h.order]
    · rw [heq]
      change s.calls + 1 = (s.accepted ++ [event]).length + s.reported + s.dropsInHand +
        s.dropped.toNat + 2 ^ 32 * s.wraps
      rw [List.length_append, List.length_singleton]
      omega
    · intro hq
      rw [hqueued] at hq
      cases hq

theorem pop_kept (h : s.Kept) (hnext : s.worker = .next) : s.pop.Kept := by
  have hhand : s.inHand = [] := by simp only [inHand, hnext]
  have hdrops : s.dropsInHand = 0 := by simp only [dropsInHand, hnext]
  have horder := h.order
  have hcounted := h.counted
  rw [hhand, List.append_nil] at horder
  rw [hdrops, Nat.add_zero] at hcounted
  by_cases hne : s.tail ≠ s.head
  · have heq : s.pop = { s with tail := after s.tail, worker := .emitting (s.events s.tail) } := by
      simp only [pop, if_pos hne]
    have hevents : s.pop.events = s.events := by rw [heq]
    have hpop := contents_pop h.slots hne hevents (by rw [heq]) (by rw [heq])
    refine
      { slots := ?_, order := ?_, counted := ?_
        queued := fun _ => .inr (.inl (by rw [heq]; exact ⟨nofun, nofun⟩)), quiet := fun hq => ?_ }
    · rw [heq]
      exact ⟨h.slots.1, Nat.mod_lt _ (by decide)⟩
    · have hsplit : s.pop.emitted ++ s.pop.inHand = s.emitted ++ [s.events s.tail] := by
        rw [heq]
        rfl
      rw [hsplit, List.append_assoc, List.singleton_append, ← hpop, horder, heq]
    · rw [heq]
      exact hcounted
    · have hq : s.workQueued = false := by rw [heq] at hq; exact hq
      exact absurd ((contents_nil h.slots).mp (h.quiet hq).1) hne
  · have hring := (contents_nil h.slots).mpr (not_not.mp hne)
    by_cases hd : s.dropped ≠ 0
    · have heq : s.pop = { s with dropped := 0, worker := .reporting s.dropped } := by
        simp only [pop, if_neg hne, if_pos hd]
      rw [heq]
      refine
        { slots := h.slots, order := ?_, counted := ?_
          queued := fun _ => .inr (.inl ⟨nofun, nofun⟩)
          quiet := fun hq => absurd (h.quiet hq).2 hd }
      · change s.emitted ++ [] ++ s.contents = s.accepted
        rw [List.append_nil, horder]
      · change s.calls = s.accepted.length + s.reported + s.dropped.toNat + 0 + 2 ^ 32 * s.wraps
        exact hcounted
    · have heq : s.pop = { s with workQueued := false, worker := .leaving } := by
        simp only [pop, if_neg hne, if_neg hd]
      rw [heq]
      refine
        { slots := h.slots, order := ?_, counted := ?_, queued := nofun
          quiet := fun _ => ⟨hring, not_not.mp hd⟩ }
      · change s.emitted ++ [] ++ s.contents = s.accepted
        rw [List.append_nil, horder]
      · exact hcounted

theorem kept_invariant : eventsLts.Invariant Lts.anyStep Kept where
  init s hi := by
    obtain ⟨hh, ht, hd, hq, hsc, hp, hw, hc, ha, he, hr, hwr⟩ := hi
    have hslots : s.Slots := by
      rw [Slots, hh, ht]
      decide
    have hring : s.contents = [] := (contents_nil hslots).mpr (ht.trans hh.symm)
    refine
      { slots := hslots, order := ?_, counted := ?_, queued := fun h => ?_
        quiet := fun _ => ⟨hring, hd⟩ }
    · simp only [he, inHand, hw, hring, ha, List.append_nil]
    · simp only [hc, ha, hr, dropsInHand, hw, hd, hwr, List.length_nil,
        UInt32.toNat_zero, Nat.mul_zero]
    · rw [hq] at h
      cases h
  step s a s' h _ hs := by
    change s.step a = some s' at hs
    cases a with
    | queue event =>
      obtain rfl := Option.some.inj hs
      exact queue_kept h
    | schedule =>
      simp only [step] at hs
      split_ifs at hs
      obtain rfl := Option.some.inj hs
      exact h.frame rfl h.slots ⟨rfl, rfl, rfl, rfl, rfl⟩ rfl rfl fun _ => .inl rfl
    | start =>
      simp only [step] at hs
      split_ifs at hs with hidle
      obtain rfl := Option.some.inj hs
      refine h.frame rfl h.slots ⟨rfl, rfl, rfl, rfl, rfl⟩ ?_ ?_ fun _ =>
        .inr (.inl ⟨nofun, nofun⟩)
      · simp only [inHand, hidle.2]
      · simp only [dropsInHand, hidle.2]
    | pop =>
      simp only [step] at hs
      split_ifs at hs with hnext
      obtain rfl := Option.some.inj hs
      exact pop_kept h hnext
    | go =>
      simp only [step] at hs
      split at hs
      · rename_i event hw
        obtain rfl := Option.some.inj hs
        refine h.frame rfl h.slots ⟨rfl, rfl, rfl, rfl, rfl⟩ ?_ ?_ fun _ =>
          .inr (.inl ⟨nofun, nofun⟩)
        · simp only [inHand, hw, List.append_nil]
        · simp only [dropsInHand, hw]
      · rename_i dropped hw
        obtain rfl := Option.some.inj hs
        refine h.frame rfl h.slots ⟨rfl, rfl, rfl, rfl, rfl⟩ ?_ ?_ fun _ =>
          .inr (.inl ⟨nofun, nofun⟩)
        · simp only [inHand, hw]
        · simp only [dropsInHand, hw, Nat.add_zero]
      · rename_i hw
        obtain rfl := Option.some.inj hs
        refine h.frame rfl h.slots ⟨rfl, rfl, rfl, rfl, rfl⟩ ?_ ?_ fun hawake => ?_
        · simp only [inHand, hw]
        · simp only [dropsInHand, hw]
        · rcases hawake with hp | ⟨-, hne⟩ | hsched
          · exact .inl hp
          · exact absurd hw hne
          · exact .inr (.inr hsched)
      all_goals cases hs

/-! ## 4. Every run -/

/-- With a full ring every queue call is a drop. -/
theorem drops_from_full (hfull : after s.head = s.tail) (n : Nat) :
    ∃ s' : EventRun, eventsLts.Path Lts.anyStep s s' ∧ after s'.head = s'.tail ∧
      s'.calls = s.calls + n ∧ s'.dropped = s.dropped + UInt32.ofNat n ∧
      s'.accepted = s.accepted ∧ s'.reported = s.reported ∧ s'.worker = s.worker ∧
      s'.emitted = s.emitted ∧ s'.contents = s.contents := by
  induction n with
  | zero => exact ⟨s, .refl, hfull, rfl, by simp, rfl, rfl, rfl, rfl, rfl⟩
  | succ n ih =>
    obtain ⟨t, hp, hf, hc, hd, ha, hr, hw, he, hring⟩ := ih
    refine ⟨t.queue ⟨0, 0, 0⟩, hp.tail ⟨.queue ⟨0, 0, 0⟩, trivial, rfl⟩, ?_⟩
    simp only [queue, if_pos hf]
    refine ⟨hf, congrArg (· + 1) hc, ?_, ha, hr, hw, he, hring⟩
    rw [hd, UInt32.ofNat_add, UInt32.add_assoc]
    rfl

end EventRun

open EventRun

/-- **Nothing accepted is lost, reordered or emitted twice, and no wakeup is lost.**  Of the
queue calls only those are missing from the counters that found `dropped` at its last value. -/
theorem relays_events (s : EventRun) (hr : eventsLts.Reach Lts.anyStep s) :
    s.Relays (2 ^ 32 * s.wraps) :=
  (hr.invariant kept_invariant).relays

/-- The ring at load time, with empty entries. -/
def eventRunInit : EventRun :=
  ⟨fun _ => ⟨0, 0, 0⟩, 0, 0, 0, false, 0, false, .idle, 0, [], [], 0, 0⟩

theorem eventRunInit_init : eventsLts.init eventRunInit :=
  ⟨rfl, rfl, rfl, rfl, rfl, rfl, rfl, rfl, rfl, rfl, rfl, rfl⟩

theorem relays_events_run : eventRunInit.Relays (2 ^ 32 * eventRunInit.wraps) :=
  relays_events eventRunInit (.ofInit eventRunInit_init)

/-- **2^32 drops in a row leave no trace.** -/
theorem not_counted : ¬ ∀ s, eventsLts.Reach Lts.anyStep s → s.Relays 0 := by
  intro h
  have hrun : (eventsLts.exec eventRunInit (List.replicate 127 (.queue ⟨0, 0, 0⟩))).any
      (fun s => decide (after s.head = s.tail)) = true := by decide +kernel
  obtain ⟨s, hr, hfull⟩ := Lts.exists_reach_of_exec eventRunInit_init _ _ hrun
  obtain ⟨t, hp, -, hc, hd, -, hrep, hw, he, hring⟩ :=
    drops_from_full (of_decide_eq_true hfull) (2 ^ 32)
  have hs := (h s hr).counted
  have ht := (h t (hr.path hp)).counted
  have hwrap : t.dropped = s.dropped := by
    rw [hd]
    exact UInt32.add_zero _
  simp only [inHand, dropsInHand, hw, he, hring, hrep, hwrap] at ht
  simp only [inHand, dropsInHand] at hs
  omega

end YukiZygisk.Orch
