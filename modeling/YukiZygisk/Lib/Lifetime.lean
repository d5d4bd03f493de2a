/-
# An object on a list, and the delayed work that drops it

Objects of this kind are dropped in one of two ways.  Somebody who finds one on its list takes
it off (`collect`), cancels its delayed work, hands back what it holds and frees it; or the
work runs first, takes it off the list itself and does the rest.  Whoever is under way has a
part of that still ahead of it, and `Life` counts these parts for ONE object: `ahead p` is how
often phase `p` is ahead of the parties in progress.

Two facts carry everything.

* `Placed` holds in every run: a born object is in exactly one place, on its list, in the
  hands of one party, or freed, and what it held was handed back as often as it got that far.
* `Still` needs a guard.  Whoever lists an object may schedule its work later, and a party
  that cancels before that cancels nothing.  When no cancel comes before the schedule, an
  object past its cancel has no work left, and in particular a freed one has none.

Nothing here mentions a particular kernel.

The events are those of one object: being born on a list, being collected, having its work
scheduled, cancelled or started, and being put through each phase of its end.  A party that collects
it gets all phases ahead of it at once, and takes them off one by one.  `placed_step` and
`still_step` go through the events; each is a small count.  A model of a program maps its own states
to a `Life` for each object, and its steps to runs of `lives`, so that the two invariants come from
here (`Path.simulate`).
-/
import YukiZygisk.Lib.Lts

namespace Lifetime

/-! ## 1. One object -/

/-- What a party in progress has still to do with the object. -/
inductive Phase
  /-- schedule its delayed work -/
  | schedule
  /-- cancel the work, waiting for it if it runs; then hand back, then free -/
  | cancel
  | restore
  | free
  /-- the work itself: look whether the object is still pending; then hand back, then free -/
  | expire
  | restoreSelf
  | freeSelf
  deriving DecidableEq

/-- The delayed work of an object. -/
inductive Work
  | idle
  | queued (due : Nat)
  | running
  deriving DecidableEq

/-- One object: its flag, its entries on lists, what is ahead of it, its work, and how often
what it holds was handed back and its memory freed. -/
structure Life where
  born : Bool
  pending : Bool
  listed : Nat
  ahead : Phase → Nat
  work : Work
  restores : Nat
  frees : Nat

/-- One occurrence of a phase is over, or starts. -/
def less (f : Phase → Nat) (p : Phase) : Phase → Nat := fun q => if q = p then f q - 1 else f q
def more (f : Phase → Nat) (p : Phase) : Phase → Nat := fun q => if q = p then f q + 1 else f q

inductive Event
  /-- the object is made and listed; `some due` schedules its work in the same step -/
  | list (due : Option Nat)
  | schedule (due : Nat)
  /-- the work starts to run -/
  | fire
  /-- somebody takes the object off its list -/
  | collect
  | cancel
  | restore
  | free
  | expire
  | restoreSelf
  | freeSelf

def Life.step (l : Life) : Event → Option Life
  | .list due =>
    if l.born then none
    else match due with
      | none => some { l with
          born := true, pending := true, listed := l.listed + 1, ahead := more l.ahead .schedule }
      | some due => some { l with
          born := true, pending := true, listed := l.listed + 1, work := .queued due }
  | .schedule due =>
    if l.ahead .schedule = 0 then none
    else some { l with ahead := less l.ahead .schedule, work := .queued due }
  | .fire =>
    match l.work with
    | .queued _ =>
      if l.frees = 0 then some { l with ahead := more l.ahead .expire, work := .running } else none
    | _ => none
  | .collect =>
    if l.listed = 0 then none
    else some { l with pending := false, listed := 0, ahead := more l.ahead .cancel }
  | .cancel =>
    if l.ahead .cancel = 0 ∨ l.work = .running then none
    else some { l with ahead := more (less l.ahead .cancel) .restore, work := .idle }
  | .restore =>
    if l.ahead .restore = 0 then none
    else some { l with
      ahead := more (less l.ahead .restore) .free, restores := l.restores + 1 }
  | .free =>
    if l.ahead .free = 0 then none
    else some { l with ahead := less l.ahead .free, frees := l.frees + 1 }
  | .expire =>
    if l.ahead .expire = 0 then none
    else if l.pending then some { l with
      pending := false, listed := 0, ahead := more (less l.ahead .expire) .restoreSelf }
    else some { l with ahead := less l.ahead .expire, work := .idle }
  | .restoreSelf =>
    if l.ahead .restoreSelf = 0 then none
    else some { l with
      ahead := more (less l.ahead .restoreSelf) .freeSelf, restores := l.restores + 1 }
  | .freeSelf =>
    if l.ahead .freeSelf = 0 then none
    else some { l with
      ahead := less l.ahead .freeSelf, work := .idle, frees := l.frees + 1 }

/-- An object as a transition system; it starts before it is made. -/
def lives : Lts Life Event where
  init l := l = ⟨false, false, 0, fun _ => 0, .idle, 0, 0⟩
  step := Life.step

variable {l l' : Life} {e : Event}

/-! ## 2. An object is in one place -/

/-- The object is on its list, or one party holds it, or it is freed. -/
structure Placed (l : Life) : Prop where
  place : l.listed + l.ahead .cancel + l.ahead .restore + l.ahead .free +
    l.ahead .restoreSelf + l.ahead .freeSelf + l.frees = l.born.toNat
  pending : l.pending.toNat = l.listed
  restored : l.restores = l.ahead .free + l.ahead .freeSelf + l.frees
  running : l.ahead .expire + l.ahead .restoreSelf + l.ahead .freeSelf =
    if l.work = .running then 1 else 0
  schedule : l.ahead .schedule ≤ l.born.toNat
  scheduled : l.work ≠ .idle → l.ahead .schedule = 0 ∧ l.born = true
  armed : 0 < l.listed →
    0 < l.ahead .schedule ∨ (∃ due, l.work = .queued due) ∨ 0 < l.ahead .expire

attribute [local simp] less more

/-- Each event moves the object on, and counts one phase off. -/
theorem placed_step (hI : Placed l) (h : lives.step l e = some l') : Placed l' := by
  obtain ⟨hplace, hpend, hrest, hrun, hsch, hidle, harm⟩ := hI
  have hone := Bool.toNat_le l.born
  cases e with
  | list due =>
    simp only [lives, Life.step] at h
    split_ifs at h with hb
    have hb : l.born = false := by simpa using hb
    have hw : l.work = .idle := by
      by_contra hne
      rw [(hidle hne).2] at hb
      cases hb
    simp only [hb, Bool.toNat_false, hw, reduceCtorEq, if_false] at hplace hsch hrun
    cases due with
    | none =>
      obtain rfl := Option.some.inj h
      constructor <;> simp [hw] <;> omega
    | some due =>
      obtain rfl := Option.some.inj h
      constructor <;> simp <;> omega
  | schedule due =>
    simp only [lives, Life.step] at h
    split_ifs at h with ha
    obtain rfl := Option.some.inj h
    have hw : l.work = .idle := by
      by_contra hne
      exact ha (hidle hne).1
    have hb : l.born = true := by
      by_contra hb
      simp only [Bool.not_eq_true] at hb
      rw [hb] at hsch
      exact ha (Nat.le_zero.mp hsch)
    simp only [hw, reduceCtorEq, if_false] at hrun
    constructor <;> simp [hb] <;> omega
  | fire =>
    simp only [lives, Life.step] at h
    split at h
    · rename_i due hw
      split_ifs at h with hf
      obtain rfl := Option.some.inj h
      obtain ⟨hs, hb⟩ := hidle (by rw [hw]; nofun)
      simp only [hw, hb, reduceCtorEq, if_false, Bool.toNat_true] at hrun hplace
      constructor <;> simp [hb, hs] <;> omega
    · cases h
  | collect =>
    simp only [lives, Life.step] at h
    split_ifs at h with hl
    obtain rfl := Option.some.inj h
    have hb : l.born = true := by
      by_contra hb
      simp only [Bool.not_eq_true] at hb
      rw [hb, Bool.toNat_false] at hplace
      omega
    simp only [hb, Bool.toNat_true] at hplace hsch
    have hsome : l.work ≠ .idle → l.ahead .schedule = 0 := fun hw => (hidle hw).1
    constructor <;> simp [hb] <;> omega
  | cancel =>
    simp only [lives, Life.step] at h
    split_ifs at h with hc
    obtain rfl := Option.some.inj h
    rw [not_or] at hc
    simp only [hc.2, if_false] at hrun
    constructor <;> simp <;> omega
  | restore =>
    simp only [lives, Life.step] at h
    split_ifs at h with hc
    obtain rfl := Option.some.inj h
    constructor <;> simp <;> omega
  | free =>
    simp only [lives, Life.step] at h
    split_ifs at h with hc
    obtain rfl := Option.some.inj h
    constructor <;> simp <;> omega
  | expire =>
    simp only [lives, Life.step] at h
    have hw : l.ahead .expire ≠ 0 → l.work = .running := fun hne => by
      by_contra hne'
      rw [if_neg hne'] at hrun
      omega
    split_ifs at h with hc hp
    · obtain rfl := Option.some.inj h
      have hw := hw hc
      obtain ⟨hs, hb⟩ := hidle (by rw [hw]; nofun)
      simp only [hw, hb, hp, if_true, Bool.toNat_true] at hrun hplace hpend
      constructor <;> simp [hw, hb, hs] <;> omega
    · obtain rfl := Option.some.inj h
      have hw := hw hc
      have hp : l.pending = false := by simpa using hp
      obtain ⟨hs, hb⟩ := hidle (by rw [hw]; nofun)
      simp only [hw, hb, hp, if_true, Bool.toNat_true, Bool.toNat_false] at hrun hplace hpend
      constructor <;> simp [hb, hs, hp] <;> omega
  | restoreSelf =>
    simp only [lives, Life.step] at h
    split_ifs at h with hc
    obtain rfl := Option.some.inj h
    constructor <;> simp <;> omega
  | freeSelf =>
    simp only [lives, Life.step] at h
    split_ifs at h with hc
    obtain rfl := Option.some.inj h
    have hw : l.work = .running := by
      by_contra hne
      rw [if_neg hne] at hrun
      omega
    obtain ⟨hs, hb⟩ := hidle (by rw [hw]; nofun)
    simp only [hw, hb, if_true, Bool.toNat_true] at hrun hplace
    constructor <;> simp [hb, hs] <;> omega

/-- **A born object is in one place**, in every run. -/
theorem placed_invariant (P : Life → Event → Prop) : lives.Invariant P Placed where
  init l hl := by
    obtain rfl : l = _ := hl
    constructor <;> simp
  step _ _ _ hI _ h := placed_step hI h

/-- An object in the hands of a party that draws it off its list is pending no more. -/
theorem Placed.not_pending (hI : Placed l)
    (h : 0 < l.ahead .cancel + l.ahead .restore + l.ahead .restoreSelf) :
    l.pending = false ∧ l.restores = 0 := by
  obtain ⟨hplace, hpend, hrest, -, -, -, -⟩ := hI
  have hone := Bool.toNat_le l.born
  refine ⟨?_, by omega⟩
  cases hp : l.pending with
  | false => rfl
  | true =>
    rw [hp, Bool.toNat_true] at hpend
    omega

/-! ## 3. An object past its cancel has no work left -/

/-- The work is scheduled before anybody cancels it. -/
def ScheduledFirst (l : Life) (e : Event) : Prop := e = .cancel → l.ahead .schedule = 0

/-- Off its list, past its cancel and not in the hands of its own work, an object has no
work. -/
def Still (l : Life) : Prop :=
  l.listed + l.ahead .cancel + l.ahead .restoreSelf + l.ahead .freeSelf = 0 →
    l.work = .idle ∧ l.ahead .schedule = 0

/-- A work that is scheduled before the object is cancelled is gone after that. -/
theorem still_step (hI : Placed l) (hS : Still l) (hP : ScheduledFirst l e)
    (h : lives.step l e = some l') : Still l' := by
  intro hoff
  cases e with
  | list due =>
    exfalso
    simp only [lives, Life.step] at h
    split_ifs at h with hb
    cases due <;> obtain rfl := Option.some.inj h <;> simp at hoff
  | schedule due =>
    exfalso
    simp only [lives, Life.step] at h
    split_ifs at h with ha
    obtain rfl := Option.some.inj h
    simp only [less] at hoff
    exact ha (hS (by simpa using hoff)).2
  | fire =>
    exfalso
    simp only [lives, Life.step] at h
    split at h
    · rename_i due hw
      split_ifs at h with hf
      obtain rfl := Option.some.inj h
      have := (hS (by simpa using hoff)).1
      rw [hw] at this
      cases this
    · cases h
  | collect =>
    exfalso
    simp only [lives, Life.step] at h
    split_ifs at h
    obtain rfl := Option.some.inj h
    simp at hoff
  | cancel =>
    have hsch := hP rfl
    simp only [lives, Life.step] at h
    split_ifs at h with hc
    obtain rfl := Option.some.inj h
    exact ⟨rfl, by simpa using hsch⟩
  | restore =>
    simp only [lives, Life.step] at h
    split_ifs at h
    obtain rfl := Option.some.inj h
    simpa using hS (by simpa using hoff)
  | free =>
    simp only [lives, Life.step] at h
    split_ifs at h
    obtain rfl := Option.some.inj h
    simpa using hS (by simpa using hoff)
  | expire =>
    simp only [lives, Life.step] at h
    split_ifs at h with hc hp
    · obtain rfl := Option.some.inj h
      simp at hoff
    · -- the work found the object taken off its list, and returns
      obtain rfl := Option.some.inj h
      have hw : l.work ≠ .idle := by
        intro hw
        have := hI.running
        simp only [hw, reduceCtorEq, if_false] at this
        omega
      exact ⟨rfl, by simpa using (hI.scheduled hw).1⟩
  | restoreSelf =>
    exfalso
    simp only [lives, Life.step] at h
    split_ifs at h
    obtain rfl := Option.some.inj h
    simp at hoff
  | freeSelf =>
    simp only [lives, Life.step] at h
    split_ifs at h with hc
    obtain rfl := Option.some.inj h
    have hw : l.work ≠ .idle := by
      intro hw
      have := hI.running
      simp only [hw, reduceCtorEq, if_false] at this
      omega
    exact ⟨rfl, by simpa using (hI.scheduled hw).1⟩

theorem still_invariant :
    lives.Invariant ScheduledFirst (fun l => Placed l ∧ Still l) where
  init l hl := by
    refine ⟨(placed_invariant ScheduledFirst).init l hl, ?_⟩
    intro _
    obtain rfl : l = _ := hl
    exact ⟨rfl, rfl⟩
  step _ _ _ hI hP h := ⟨placed_step hI.1 h, still_step hI.1 hI.2 hP h⟩

end Lifetime
