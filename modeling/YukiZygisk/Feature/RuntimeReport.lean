/-
# Reports to the runtime table

`yz_zygote_probe_report_runtime` first marks the base record of the process as INJECTED and then
looks for a slot for the record of the module.  Two things can go wrong from there.

* When there is no slot it returns `-ENOSPC`, and the base record has changed: `NoRoom`,
  `not_atomic`.
* When all slots are taken by live processes it takes the one with the oldest module record,
  whosever it is: `Evicts`, `not_atomic_of_evicts`.

Everything else about a report is as it should be, and these are the only ways it can go wrong:
`report_atomic_iff`.  The argument follows the slot that the report writes.  `pickSlot_spare` and
`pickSlot_oldest` say which one is picked, `slot_cases` what was in it, `given_up` that this was
nobody else's living record, and `atomic_of_success` that a report which writes over its own
records, or over nothing, is atomic.

`Atomic` is stated of one call on one table, with the looks at the tasks as a parameter: reaching
the table is not needed, as nothing about it but its length of 128 matters.  That `NoRoom` and
`Evicts` break it is shown on the slot that they name: in the first the base record has another
state behind an error, in the second the entry of a living process is gone.  Conversely, a report
that succeeds and meets neither writes at most two slots, its base record and one for the module;
the second was free, EXITED, dead or one of the process's own.
-/
import Mathlib
import YukiZygisk.Feature.RuntimeChanges

namespace YukiZygisk.Runtime

open YukiZygisk.Native (zpCopyName nativeModuleIdMax)

variable {t t' : Table} {r : Report} {looks : Looks} {i : Nat} {e base : Entry} {kind : Kind}

/-! ## 1. Atomic reports -/

/-- Nothing changed but the records of tasks that were found dead. -/
def Reaped (looks : Looks) (t t' : Table) : Prop :=
  ∀ j : Nat, t'.entries[j]? = t.entries[j]? ∨
    ∃ e, t.entries[j]? = some e ∧ t'.entries[j]? = some (e.withState .exited) ∧
      looks.Dead j e.record.pid e.startBoottime

/-- The record is a live base record of the process that reports: its pid, its start time, the
kind and the generation of the report. -/
structure Addressed (r : Report) (looks : Looks) (kind : Kind) (e : Entry) : Prop where
  kind_eq : r.kind = some kind
  start : looks.found r.pid = some e.startBoottime
  pid : e.record.pid = r.pid
  generation : e.record.generation = r.generation
  kind : e.record.kind = kind
  base : e.Base
  live : e.record.state ≠ .exited

/-- **A report is atomic.**  A report that fails changes nothing, and one that succeeds has found a
live record of its process in state REDIRECTED or INJECTED.  All it writes are records of its own
process: on its own base record only the state, and else over a slot that was free or EXITED, of a
task found dead, or a module record of its own pid.  A report of another generation, or of a
process that has the pid of another one, changes nothing. -/
structure Atomic (t : Table) (r : Report) (looks : Looks) : Prop where
  err : ∀ code, (reportRuntime r looks t).1 = some code → Reaped looks t (reportRuntime r looks t).2
  ok : (reportRuntime r looks t).1 = none →
    ∃ (kind : Kind) (i : Nat) (e : Entry), t.entries[i]? = some e ∧
    Addressed r looks kind e ∧ (e.record.state = .redirected ∨ e.record.state = .injected) ∧
      taskAlive looks.again e.record.pid e.startBoottime = true
  own : ∀ (j : Nat) (d d' : Entry), t.entries[j]? = some d →
    (reportRuntime r looks t).2.entries[j]? = some d' → d' ≠ d →
    (d' = d.withState .exited ∧ looks.Dead j d.record.pid d.startBoottime) ∨
    (d'.record.pid = r.pid ∧ d'.record.generation = r.generation ∧
      ((∃ s, d' = d.withState s) ∨ ¬ d.Used ∨ d.record.state = .exited ∨
        looks.Dead j d.record.pid d.startBoottime ∨ d.record.pid = r.pid ∧ ¬ d.Base))
  stale : (∀ (kind : Kind) (i : Nat) (e : Entry), t.entries[i]? = some e →
      ¬ Addressed r looks kind e) →
    Reaped looks t (reportRuntime r looks t).2

/-- What the lookups of a report find: the base record of its process, in slot `i`. -/
structure Found (t : Table) (r : Report) (looks : Looks) (kind : Kind) (i : Nat) (base : Entry) :
    Prop where
  pid : r.pid ≠ 0
  generation : r.generation ≠ 0
  moduleId : kind = .native → zpCopyName nativeModuleIdMax r.moduleId ≠ []
  addressed : Addressed r looks kind base
  first : findBase (refreshExited looks.seen t) r.pid base.startBoottime kind r.generation = some i
  slot : (refreshExited looks.seen t).entries[i]? = some base

/-- A native process reports its first module, and there is no slot for the record: with the dead
records marked, all others are base records of live processes. -/
structure NoRoom (t : Table) (r : Report) (looks : Looks) (i : Nat) (base : Entry) : Prop where
  found : Found t r looks .native i base
  alive : taskAlive looks.again base.record.pid base.startBoottime = true
  state : base.record.state = .redirected
  full : ∀ (j : Nat) (e : Entry), (refreshExited looks.seen t).entries[j]? = some e → j ≠ i →
    e.Used ∧ e.record.state ≠ .exited ∧ e.Base

/-- Slot `j` has the oldest module record of the table, and is the first of those. -/
structure OldestModule (t : Table) (exclude : Option Nat) (j : Nat) (e : Entry) : Prop where
  slot : t.entries[j]? = some e
  other : exclude ≠ some j
  module : ¬ e.Base
  oldest : ∀ (k : Nat) (d : Entry), t.entries[k]? = some d → exclude ≠ some k → ¬ d.Base →
    e.record.generation < d.record.generation ∨
      e.record.generation = d.record.generation ∧ j ≤ k

/-- A native process reports a module that has no record yet, and the slot for it is the one of
another live process: with the dead records marked all others are taken, and the oldest module
record, in slot `j`, has another pid.  `differs` is the code's own test that the record in the slot
is not the one to be stored. -/
structure Evicts (t : Table) (r : Report) (looks : Looks) (i : Nat) (base : Entry) (j : Nat)
    (e : Entry) : Prop where
  found : Found t r looks .native i base
  alive : taskAlive looks.again base.record.pid base.startBoottime = true
  state : base.record.state = .redirected ∨ base.record.state = .injected
  new : ∀ (k : Nat) (d : Entry), (refreshExited looks.seen t).entries[k]? = some d →
    d.record.pid = r.pid → d.record.kind = .native →
      d.record.moduleId ≠ zpCopyName nativeModuleIdMax r.moduleId
  full : ∀ (k : Nat) (d : Entry), (refreshExited looks.seen t).entries[k]? = some d → k ≠ i →
    d.Used ∧ d.record.state ≠ .exited
  oldest : OldestModule (refreshExited looks.seen t) (some i) j e
  other : e.record.pid ≠ r.pid
  living : taskAlive looks.again e.record.pid e.startBoottime = true
  differs : e.record.generation ≠ base.record.generation ∨ e.record.state ≠ .injected ∨
    e.startBoottime ≠ base.startBoottime

/-! ## 2. The parts of a report -/

/-- No slot can be picked: the others are base records that have not exited. -/
theorem pickSlot_none {exclude : Option Nat} (h : pickSlot t exclude = none) :
    ∀ (j : Nat) (e : Entry), t.entries[j]? = some e → exclude ≠ some j →
      e.Used ∧ e.record.state ≠ .exited ∧ e.Base := by
  have key : ∀ (rest : List Entry) (k : Nat) (exited module : Option (Nat × Nat)),
      pickSlotFrom exclude rest k exited module = none →
      exited = none ∧ module = none ∧ ∀ (j : Nat) (e : Entry), rest[j]? = some e →
        exclude ≠ some (k + j) → e.Used ∧ e.record.state ≠ .exited ∧ e.Base := by
    intro rest
    induction rest with
    | nil =>
      intro k exited module h
      simp only [pickSlotFrom, Option.map_eq_none_iff, Option.or_eq_none_iff] at h
      exact ⟨h.1, h.2, fun j e he => by simp at he⟩
    | cons d rest ih =>
      intro k exited module h
      -- The slots after the first one, in the numbering of the tail.
      have htail : ∀ {exited module}, pickSlotFrom exclude rest (k + 1) exited module = none →
          ∀ (j : Nat) (e : Entry), (d :: rest)[j + 1]? = some e → exclude ≠ some (k + (j + 1)) →
            e.Used ∧ e.record.state ≠ .exited ∧ e.Base := by
        intro exited module h j e he hex
        have hk : k + 1 + j = k + (j + 1) := by omega
        exact (ih _ _ _ h).2.2 j e (by simpa using he) (by rwa [hk])
      rw [pickSlotFrom] at h
      split_ifs at h with hex hfree hs hm hm
      · refine ⟨(ih _ _ _ h).1, (ih _ _ _ h).2.1, ?_⟩
        intro j e he hne
        cases j with
        | zero => exact absurd hex hne
        | succ j => exact htail h j e he hne
      · exact absurd (ih _ _ _ h).1 (by simp)
      · exact absurd (ih _ _ _ h).1 (by simp)
      · exact absurd (ih _ _ _ h).2.1 (by simp)
      · obtain ⟨rfl, rfl, -⟩ := ih _ _ _ h
        refine ⟨rfl, rfl, ?_⟩
        intro j e he hne
        cases j with
        | zero =>
          obtain rfl : d = e := by simpa using he
          refine ⟨hfree, fun h => hs ⟨h, rfl⟩, ?_⟩
          by_contra hb
          exact hm ⟨hb, rfl⟩
        | succ j => exact htail h j e he hne
  intro j e he hex
  exact (key _ _ _ _ h).2.2 j e he (by simpa using hex)

/-- No slot can be picked exactly when all others are base records that have not exited. -/
theorem pickSlot_none_iff {exclude : Option Nat} :
    pickSlot t exclude = none ↔ ∀ (j : Nat) (e : Entry), t.entries[j]? = some e →
      exclude ≠ some j → e.Used ∧ e.record.state ≠ .exited ∧ e.Base := by
  refine ⟨pickSlot_none, ?_⟩
  intro h
  cases hp : pickSlot t exclude with
  | none => rfl
  | some j =>
    obtain ⟨e, he, hex, hroom⟩ := pickSlot_some hp
    obtain ⟨h1, h2, h3⟩ := h j e he hex
    rcases hroom with h | h | h
    · exact absurd h1 h
    · exact absurd h h2
    · exact absurd h3 h

/-- While another slot is free or EXITED, such a slot is picked. -/
theorem pickSlot_spare {exclude : Option Nat} {j k : Nat} {d : Entry}
    (hd : t.entries[k]? = some d) (hex : exclude ≠ some k)
    (hspare : ¬ d.Used ∨ d.record.state = .exited) (h : pickSlot t exclude = some j) :
    ∃ e, t.entries[j]? = some e ∧ (¬ e.Used ∨ e.record.state = .exited) := by
  -- Invariant of the loop: the slot `exited` is EXITED, and it is there or the spare slot is ahead.
  have key : ∀ (rest : List Entry) (n : Nat) (exited module : Option (Nat × Nat)),
      (∀ m, rest[m]? = t.entries[n + m]?) →
      (∀ m g, exited = some (m, g) → ∃ e, t.entries[m]? = some e ∧ e.record.state = .exited) →
      (exited.isSome ∨ n ≤ k) → pickSlotFrom exclude rest n exited module = some j →
      ∃ e, t.entries[j]? = some e ∧ (¬ e.Used ∨ e.record.state = .exited) := by
    intro rest
    induction rest with
    | nil =>
      intro n exited module hrest hexited hahead hpick
      have hnone : ¬ n ≤ k := by
        intro hn
        have hat := hrest (k - n)
        rw [Nat.add_sub_cancel' hn, hd] at hat
        cases hat
      obtain ⟨⟨m, g⟩, rfl⟩ := Option.isSome_iff_exists.mp (hahead.resolve_right hnone)
      simp only [pickSlotFrom, Option.some_or, Option.map_some, Option.some.injEq] at hpick
      obtain ⟨e, he, hstate⟩ := hexited m g rfl
      exact ⟨e, hpick ▸ he, .inr hstate⟩
    | cons e rest ih =>
      intro n exited module hrest hexited hahead hpick
      have hn : t.entries[n]? = some e := by simpa using (hrest 0).symm
      have hrest' := tail_at hrest
      -- The spare slot is this one, or still ahead.
      have hnext : n ≠ k → exited.isSome ∨ n + 1 ≤ k := fun hne => hahead.imp_right (by omega)
      have hhere : n = k → e = d := fun heq => Option.some.inj (hn.symm.trans (heq ▸ hd))
      rw [pickSlotFrom] at hpick
      split_ifs at hpick with hskip hfree hs hm hm
      · exact ih _ _ _ hrest' hexited (hnext fun heq => hex (heq ▸ hskip)) hpick
      · obtain rfl := Option.some.inj hpick
        exact ⟨e, hn, .inl (not_not.mpr hfree)⟩
      · exact ih _ _ _ hrest' (fun m g hm => by
          obtain ⟨rfl, -⟩ := Prod.mk.inj (Option.some.inj hm)
          exact ⟨e, hn, hs.1⟩) (.inl rfl) hpick
      · exact ih _ _ _ hrest' (fun m g hm => by
          obtain ⟨rfl, -⟩ := Prod.mk.inj (Option.some.inj hm)
          exact ⟨e, hn, hs.1⟩) (.inl rfl) hpick
      all_goals
        refine ih _ _ _ hrest' hexited ?_ hpick
        by_cases heq : n = k
        · obtain rfl := hhere heq
          have hexit : e.record.state = .exited := hspare.resolve_left (not_not.mpr hfree)
          cases exited with
          | none => exact absurd ⟨hexit, rfl⟩ hs
          | some _ => exact .inl rfl
        · exact hnext heq
  exact key t.entries 0 none none (fun m => by rw [Nat.zero_add])
    (fun _ _ hm => by cases hm) (.inr k.zero_le) h

/-- The loop's candidate `module` is the oldest module record of the slots below `n`, and the first
of those. -/
def OldestBelow (t : Table) (exclude : Option Nat) (n : Nat) : Option (Nat × Nat) → Prop
  | none => ∀ (k : Nat) (d : Entry), k < n → t.entries[k]? = some d → exclude ≠ some k → d.Base
  | some (m, g) => (∃ e, t.entries[m]? = some e ∧ exclude ≠ some m ∧ ¬ e.Base ∧
      e.record.generation = g) ∧ m < n ∧
    ∀ (k : Nat) (d : Entry), k < n → t.entries[k]? = some d → exclude ≠ some k → ¬ d.Base →
      g < d.record.generation ∨ g = d.record.generation ∧ m ≤ k

/-- A slot that is no better candidate is passed over. -/
theorem OldestBelow.pass {exclude : Option Nat} {n : Nat} {module : Option (Nat × Nat)}
    (h : OldestBelow t exclude n module) (hn : t.entries[n]? = some e)
    (hpass : exclude ≠ some n → ¬ (¬ e.Base ∧ older e module = true)) :
    OldestBelow t exclude (n + 1) module := by
  cases module with
  | none =>
    intro k d hk hd hex
    rcases Nat.lt_succ_iff_lt_or_eq.mp hk with hk | rfl
    · exact h k d hk hd hex
    · obtain rfl := Option.some.inj (hd.symm.trans hn)
      by_contra hnb
      exact hpass hex ⟨hnb, rfl⟩
  | some best =>
    refine ⟨h.1, h.2.1.trans n.lt_succ_self, ?_⟩
    intro k d hk hd hex hd'
    rcases Nat.lt_succ_iff_lt_or_eq.mp hk with hk | rfl
    · exact h.2.2 k d hk hd hex hd'
    · obtain rfl := Option.some.inj (hd.symm.trans hn)
      have hge : ¬ d.record.generation < best.2 := fun hlt =>
        hpass hex ⟨hd', by simpa [older] using hlt⟩
      have hmk := h.2.1
      omega

/-- An older module record takes the candidate's place. -/
theorem OldestBelow.take {exclude : Option Nat} {n : Nat} {module : Option (Nat × Nat)}
    (h : OldestBelow t exclude n module) (hn : t.entries[n]? = some e) (hex : exclude ≠ some n)
    (hmodule : ¬ e.Base) (holder : older e module = true) :
    OldestBelow t exclude (n + 1) (some (n, e.record.generation)) := by
  refine ⟨⟨e, hn, hex, hmodule, rfl⟩, n.lt_succ_self, ?_⟩
  intro k d hk hd hexk hd'
  rcases Nat.lt_succ_iff_lt_or_eq.mp hk with hk | rfl
  · cases module with
    | none => exact absurd (h k d hk hd hexk) hd'
    | some best =>
      have hlt : e.record.generation < best.2 := by simpa [older] using holder
      rcases h.2.2 k d hk hd hexk hd' with h | ⟨h, -⟩
      · exact .inl (hlt.trans h)
      · exact .inl (h ▸ hlt)
  · obtain rfl := Option.some.inj (hd.symm.trans hn)
    exact .inr ⟨rfl, Nat.le_refl _⟩

/-- Behind the last slot the candidate is the oldest module record of the table. -/
theorem OldestBelow.picked {exclude : Option Nat} {n : Nat} {best : Option (Nat × Nat)}
    (h : OldestBelow t exclude n best) (hn : t.entries.length ≤ n) {j : Nat} :
    best.map Prod.fst = some j ↔ ∃ e, OldestModule t exclude j e := by
  have hlt : ∀ {k : Nat} {d : Entry}, t.entries[k]? = some d → k < n := fun hd =>
    (List.getElem?_eq_some_iff.mp hd).1.trans_le hn
  cases best with
  | none =>
    constructor
    · rintro ⟨⟩
    · rintro ⟨e, hmin⟩
      exact absurd (h j e (hlt hmin.slot) hmin.slot hmin.other) hmin.module
  | some best =>
    obtain ⟨⟨e, he, hex, hnb, hg⟩, -, hleast⟩ := h
    constructor
    · rintro ⟨⟩
      refine ⟨e, he, hex, hnb, fun k d hd hexk hd' => ?_⟩
      rw [hg]
      exact hleast k d (hlt hd) hd hexk hd'
    · rintro ⟨d, hmin⟩
      have h1 := hleast j d (hlt hmin.slot) hmin.slot hmin.other hmin.module
      have h2 := hmin.oldest best.1 e he hex hnb
      simp only [Option.map_some, Option.some.injEq]
      omega

/-- When the others are taken and not EXITED, the oldest module record is picked. -/
theorem pickSlot_oldest {exclude : Option Nat}
    (hfull : ∀ (k : Nat) (d : Entry), t.entries[k]? = some d → exclude ≠ some k →
      d.Used ∧ d.record.state ≠ .exited) {j : Nat} :
    pickSlot t exclude = some j ↔ ∃ e, OldestModule t exclude j e := by
  have key : ∀ (rest : List Entry) (n : Nat) (module : Option (Nat × Nat)),
      (∀ m, rest[m]? = t.entries[n + m]?) → OldestBelow t exclude n module →
      ∃ best N, t.entries.length ≤ N ∧ OldestBelow t exclude N best ∧
        pickSlotFrom exclude rest n none module = best.map Prod.fst := by
    intro rest
    induction rest with
    | nil =>
      intro n module hrest hbest
      refine ⟨module, n, ?_, hbest, by simp [pickSlotFrom]⟩
      exact List.getElem?_eq_none_iff.mp (by simpa using (hrest 0).symm)
    | cons e rest ih =>
      intro n module hrest hbest
      have hn : t.entries[n]? = some e := by simpa using (hrest 0).symm
      have hrest' := tail_at hrest
      rw [pickSlotFrom]
      split_ifs with hskip hfree hs hm hm
      · exact ih _ _ hrest' (hbest.pass hn fun hex => absurd hskip hex)
      · exact absurd hfree (hfull n e hn hskip).1
      · exact absurd hs.1 (hfull n e hn hskip).2
      · exact absurd hs.1 (hfull n e hn hskip).2
      · exact ih _ _ hrest' (hbest.take hn hskip hm.1 hm.2)
      · exact ih _ _ hrest' (hbest.pass hn fun _ => hm)
  obtain ⟨best, N, hN, hbest, hpick⟩ := key t.entries 0 none (fun m => by rw [Nat.zero_add])
    (fun k _ hk => absurd hk k.not_lt_zero)
  rw [pickSlot, hpick]
  exact hbest.picked hN

/-- Marking the dead records is all that a `Reaped` table has seen. -/
theorem reaped_refresh (looks : Looks) (hlen : t.entries.length = recordMax) :
    Reaped looks t (refreshExited looks.seen t) := by
  intro j
  rw [refreshExited, exitEach_at hlen]
  cases he : t.entries[j]? with
  | none => exact .inl rfl
  | some e =>
    by_cases hg : gone looks.seen j e = true
    · refine .inr ⟨e, rfl, by simp [exitIf, hg], .inl ?_⟩
      simp only [gone, Bool.and_eq_true, Bool.not_eq_true'] at hg
      exact hg.2
    · exact .inl (by simp [exitIf, hg])

/-- A record that is live after the dead ones are marked was there before. -/
theorem of_refresh_live (hlen : t.entries.length = recordMax)
    (he : (refreshExited looks.seen t).entries[i]? = some e) (hlive : e.record.state ≠ .exited) :
    t.entries[i]? = some e := by
  obtain ⟨d, hd, rfl⟩ := of_exitEach_at hlen he
  unfold exitIf at hlive ⊢
  split_ifs at hlive ⊢
  · exact absurd rfl hlive
  · exact hd

/-- **The ways through a report** up to its base record. -/
theorem report_cases (t : Table) (r : Report) (looks : Looks) :
    (∃ code, reportRuntime r looks t = (some code, t)) ∨
    (∃ code, reportRuntime r looks t = (some code, refreshExited looks.seen t)) ∨
    ∃ kind i base, Found t r looks kind i base ∧
      reportRuntime r looks t =
        reportBase kind r.pid (zpCopyName nativeModuleIdMax r.moduleId) looks.again i base
          (refreshExited looks.seen t) := by
  cases hkind : r.kind with
  | none => exact .inl ⟨.einval, by simp [reportRuntime, hkind]⟩
  | some kind =>
    by_cases hzero : r.pid = 0 ∨ r.generation = 0
    · exact .inl ⟨.einval, by simp [reportRuntime, hkind, hzero]⟩
    by_cases hid : kind = .native ∧ zpCopyName nativeModuleIdMax r.moduleId = []
    · exact .inl ⟨.einval, by simp [reportRuntime, hkind, hzero, hid]⟩
    cases hstart : looks.found r.pid with
    | none => exact .inl ⟨.esrch, by simp only [reportRuntime, hkind, hzero, hid, hstart, if_false]⟩
    | some start =>
      have hrun : reportRuntime r looks t =
          reportLocked kind r (zpCopyName nativeModuleIdMax r.moduleId) start looks t := by
        simp only [reportRuntime, hkind, hzero, hid, hstart, if_false]
      rw [hrun]
      cases hfind : findBase (refreshExited looks.seen t) r.pid start kind r.generation with
      | none => exact .inr (.inl ⟨.esrch, by simp only [reportLocked, hfind]⟩)
      | some j =>
        obtain ⟨base, hb, hpid, hst, hk, hg, hbase, hlive⟩ := findBase_some hfind
        refine .inr (.inr ⟨kind, j, base, ?_, by simp only [reportLocked, hfind, hb]⟩)
        refine ⟨fun h => hzero (.inl h), fun h => hzero (.inr h), fun h h' => hid ⟨h, h'⟩, ?_,
          by rw [hst]; exact hfind, hb⟩
        exact ⟨hkind, by rw [hst]; exact hstart, hpid, hg, hk, hbase, hlive⟩

/-- **The ways through the last part of a report.** -/
theorem storeModule_cases (t : Table) (i : Nat) (base : Entry) (pid : Nat)
    (moduleId : List UInt8) :
    (storeModule i base pid moduleId t = (some .enospc, t) ∧ findModule t pid moduleId = none ∧
      pickSlot t (some i) = none) ∨
    storeModule i base pid moduleId t = (none, t) ∨
    ∃ slot old, t.entries[slot]? = some old ∧
      (findModule t pid moduleId).or (pickSlot t (some i)) = some slot ∧
      (old.record.generation ≠ base.record.generation ∨ old.record.state ≠ .injected ∨
        old.startBoottime ≠ base.startBoottime) ∧
      storeModule i base pid moduleId t = (none, t.put slot (moduleEntry base moduleId)) := by
  unfold storeModule
  cases hslot : (findModule t pid moduleId).or (pickSlot t (some i)) with
  | none =>
    rw [Option.or_eq_none_iff] at hslot
    exact .inl ⟨rfl, hslot⟩
  | some slot =>
    cases hold : t.entries[slot]? with
    | none => exact .inr (.inl (by simp [hold]))
    | some old =>
      simp only [hold]
      split_ifs with hdiffers
      · exact .inr (.inr ⟨slot, old, hold, rfl, hdiffers, rfl⟩)
      · exact .inr (.inl rfl)

/-! ## 3. What a report changes -/

/-- The record of a slot after the dead ones are marked. -/
theorem refresh_at (hlen : t.entries.length = recordMax) {j : Nat} {d d' : Entry}
    (hd : t.entries[j]? = some d) (hd' : (refreshExited looks.seen t).entries[j]? = some d') :
    d' = d ∨ d' = d.withState .exited ∧ looks.Dead j d.record.pid d.startBoottime := by
  rcases reaped_refresh looks hlen j with h | ⟨e, he, h, hdead⟩
  · rw [h, hd] at hd'
    exact .inl (Option.some.inj hd').symm
  · obtain rfl := Option.some.inj (hd.symm.trans he)
    rw [h] at hd'
    exact .inr ⟨(Option.some.inj hd').symm, hdead⟩

/-- A report that fails and has only marked dead records is atomic. -/
theorem atomic_of_reaped {code : Errno} (hrun : reportRuntime r looks t = (some code, t'))
    (hreap : Reaped looks t t') : Atomic t r looks := by
  constructor
  · intro _ _
    rwa [hrun]
  · intro hok
    rw [hrun] at hok
    cases hok
  · intro j d d' hd hd' hne
    rw [hrun] at hd'
    rcases hreap j with h | ⟨e, he, h, hdead⟩
    · rw [h, hd] at hd'
      exact absurd (Option.some.inj hd').symm hne
    · obtain rfl := Option.some.inj (hd.symm.trans he)
      rw [h] at hd'
      exact .inl ⟨(Option.some.inj hd').symm, hdead⟩
  · intro _
    rwa [hrun]

theorem reaped_self : Reaped looks t t := fun _ => .inl rfl

/-- The table after the base record is marked as INJECTED. -/
theorem injected_at (h : Found t r looks kind i base) {j : Nat} {d' : Entry}
    (hd' : (setStateLocked i .injected (refreshExited looks.seen t)).entries[j]? = some d') :
    j = i ∧ d' = base.withState .injected ∨
      j ≠ i ∧ (refreshExited looks.seen t).entries[j]? = some d' := by
  rw [setStateLocked_at] at hd'
  split_ifs at hd' with hij
  · subst hij
    rw [h.slot] at hd'
    exact .inl ⟨rfl, (Option.some.inj hd').symm⟩
  · exact .inr ⟨Ne.symm hij, hd'⟩

/-- **What is in the slot for the record of a module.**  It is not the slot of the base record.  What
is in it may be given up, is a module record of the process itself, or all others are taken and it
is the oldest module record. -/
theorem slot_cases {u : Table} {pid slot : Nat} {moduleId : List UInt8} {old : Entry}
    (hu : u.entries[i]? = some base) (hb : base.Base) (hid : moduleId ≠ [])
    (hslot : (findModule u pid moduleId).or (pickSlot u (some i)) = some slot)
    (hold : u.entries[slot]? = some old) :
    slot ≠ i ∧ ((¬ old.Used ∨ old.record.state = .exited) ∨
      old.record.pid = pid ∧ ¬ old.Base ∨
      findModule u pid moduleId = none ∧
        (∀ (k : Nat) (d : Entry), u.entries[k]? = some d → k ≠ i →
          d.Used ∧ d.record.state ≠ .exited) ∧ OldestModule u (some i) slot old) := by
  cases hf : findModule u pid moduleId with
  | some j =>
    rw [hf, Option.some_or] at hslot
    obtain rfl := Option.some.inj hslot
    obtain ⟨d, hd, hp⟩ := Keyed.first_some hf
    obtain rfl := Option.some.inj (hd.symm.trans hold)
    obtain ⟨hpid, -, hm⟩ := of_decide_eq_true hp
    have hnb : ¬ d.Base := fun h => hid (hm.symm.trans h)
    constructor
    · rintro rfl
      obtain rfl := Option.some.inj (hu.symm.trans hd)
      exact hnb hb
    · exact .inr (.inl ⟨hpid, hnb⟩)
  | none =>
    rw [hf, Option.none_or] at hslot
    obtain ⟨d, hd, hex, -⟩ := pickSlot_some hslot
    have hne : slot ≠ i := fun h => hex (congrArg some h.symm)
    by_cases hspare : ∃ (k : Nat) (d : Entry), u.entries[k]? = some d ∧ some i ≠ some k ∧
        (¬ d.Used ∨ d.record.state = .exited)
    · obtain ⟨k, d, hd, hk, hspare⟩ := hspare
      obtain ⟨e, he, hgive⟩ := pickSlot_spare hd hk hspare hslot
      obtain rfl := Option.some.inj (he.symm.trans hold)
      exact ⟨hne, .inl hgive⟩
    · have hfull : ∀ (k : Nat) (d : Entry), u.entries[k]? = some d → some i ≠ some k →
          d.Used ∧ d.record.state ≠ .exited := by
        intro k d hd hk
        refine ⟨?_, fun h => hspare ⟨k, d, hd, hk, .inr h⟩⟩
        by_contra h
        exact hspare ⟨k, d, hd, hk, .inl h⟩
      obtain ⟨e, he⟩ := (pickSlot_oldest hfull).mp hslot
      obtain rfl := Option.some.inj (he.slot.symm.trans hold)
      exact ⟨hne, .inr (.inr ⟨rfl, fun k d hd hk => hfull k d hd fun h =>
        hk (Option.some.inj h).symm, he⟩)⟩

/-- A report that succeeds is atomic: `u` is the table with the base record INJECTED, or that
table with one more record of the module. -/
theorem atomic_of_success {u : Table} (hlen : t.entries.length = recordMax)
    (h : Found t r looks kind i base) (hrun : reportRuntime r looks t = (none, u))
    (halive : taskAlive looks.again base.record.pid base.startBoottime = true)
    (hstate : base.record.state = .redirected ∨ base.record.state = .injected)
    (hu : ∀ (j : Nat) (d' : Entry), u.entries[j]? = some d' →
      (setStateLocked i .injected (refreshExited looks.seen t)).entries[j]? = some d' ∨
      ∃ (moduleId : List UInt8) (old : Entry),
        d' = moduleEntry (base.withState .injected) moduleId ∧ j ≠ i ∧
        (refreshExited looks.seen t).entries[j]? = some old ∧
        (¬ old.Used ∨ old.record.state = .exited ∨
          looks.Dead j old.record.pid old.startBoottime ∨
          old.record.pid = r.pid ∧ ¬ old.Base)) :
    Atomic t r looks := by
  have hbase : t.entries[i]? = some base := of_refresh_live hlen h.slot h.addressed.live
  constructor
  · intro code hcode
    rw [hrun] at hcode
    cases hcode
  · intro _
    exact ⟨kind, i, base, hbase, h.addressed, hstate, halive⟩
  · intro j d d' hd hd' hne
    rw [hrun] at hd'
    rcases hu j d' hd' with hd' | ⟨moduleId, old, rfl, hji, hold, hroom⟩
    · rcases injected_at h hd' with ⟨rfl, rfl⟩ | ⟨-, hd'⟩
      · obtain rfl := Option.some.inj (hbase.symm.trans hd)
        exact .inr ⟨h.addressed.pid, h.addressed.generation, .inl ⟨_, rfl⟩⟩
      · rcases refresh_at hlen hd hd' with rfl | hreap
        · exact absurd rfl hne
        · exact .inl hreap
    · refine .inr ⟨h.addressed.pid, h.addressed.generation, .inr ?_⟩
      rcases refresh_at hlen hd hold with rfl | ⟨rfl, hdead⟩
      · exact hroom
      · exact .inr (.inr (.inl hdead))
  · intro hstale
    exact absurd h.addressed (hstale kind i base hbase)

/-! ## 4. When a report is atomic -/

/-- A report that finds its base record goes on with it. -/
theorem report_of_found (h : Found t r looks kind i base) :
    reportRuntime r looks t =
      reportBase kind r.pid (zpCopyName nativeModuleIdMax r.moduleId) looks.again i base
        (refreshExited looks.seen t) := by
  have hzero : ¬ (r.pid = 0 ∨ r.generation = 0) := not_or.mpr ⟨h.pid, h.generation⟩
  have hid : ¬ (kind = .native ∧ zpCopyName nativeModuleIdMax r.moduleId = []) :=
    fun hn => h.moduleId hn.1 hn.2
  simp only [reportRuntime, h.addressed.kind_eq, hzero, hid, h.addressed.start, if_false,
    reportLocked, h.first, h.slot]

/-- The other slots of the table with the base record INJECTED. -/
theorem injected_at_ne {j : Nat} (hji : j ≠ i) :
    (setStateLocked i .injected (refreshExited looks.seen t)).entries[j]? =
      (refreshExited looks.seen t).entries[j]? := by
  rw [setStateLocked_at, if_neg (Ne.symm hji)]

/-- The slot of the base record, once it is INJECTED. -/
theorem injected_at_self (h : Found t r looks kind i base) :
    (setStateLocked i .injected (refreshExited looks.seen t)).entries[i]? =
      some (base.withState .injected) := by
  rw [setStateLocked_at, if_pos rfl, h.slot]
  rfl

/-- The module has no record, and marking the base record as INJECTED gives it none. -/
theorem findModule_injected (h : Found t r looks .native i base)
    (hnew : ∀ (k : Nat) (d : Entry), (refreshExited looks.seen t).entries[k]? = some d → k ≠ i →
      d.record.pid = r.pid → d.record.kind = .native →
        d.record.moduleId ≠ zpCopyName nativeModuleIdMax r.moduleId) :
    findModule (setStateLocked i .injected (refreshExited looks.seen t)) r.pid
      (zpCopyName nativeModuleIdMax r.moduleId) = none := by
  cases hf : findModule (setStateLocked i .injected (refreshExited looks.seen t)) r.pid
    (zpCopyName nativeModuleIdMax r.moduleId) with
  | none => rfl
  | some j =>
    obtain ⟨e, he, hp⟩ := Keyed.first_some hf
    obtain ⟨hpid, hkind, hm⟩ := of_decide_eq_true hp
    rcases injected_at h he with ⟨-, rfl⟩ | ⟨hji, he'⟩
    · exact absurd (hm.symm.trans h.addressed.base) (h.moduleId rfl)
    · exact absurd hm (hnew j e he' hji hpid hkind)

/-- The report of a module of a live process in state REDIRECTED or INJECTED. -/
theorem report_of_state (h : Found t r looks .native i base)
    (halive : taskAlive looks.again base.record.pid base.startBoottime = true)
    (hstate : base.record.state = .redirected ∨ base.record.state = .injected) :
    reportRuntime r looks t =
      storeModule i (base.withState .injected) r.pid (zpCopyName nativeModuleIdMax r.moduleId)
        (setStateLocked i .injected (refreshExited looks.seen t)) := by
  have hdead : ¬ (!taskAlive looks.again base.record.pid base.startBoottime) = true := by
    rw [halive]
    simp
  have hother : ¬ (base.record.state ≠ .redirected ∧ base.record.state ≠ .injected) := by
    rintro ⟨h1, h2⟩
    exact hstate.elim h1 h2
  rw [report_of_found h]
  simp only [reportBase, hdead, hother, if_false]
  rfl

/-- Without room for the module the report fails, and the base record is INJECTED. -/
theorem report_of_noRoom (h : NoRoom t r looks i base) :
    reportRuntime r looks t =
      (some .enospc, setStateLocked i .injected (refreshExited looks.seen t)) := by
  have hmodule := findModule_injected h.found fun k d hd hk _ _ hm =>
    h.found.moduleId rfl (hm.symm.trans (h.full k d hd hk).2.2)
  have hpick : pickSlot (setStateLocked i .injected (refreshExited looks.seen t)) (some i) =
      none := by
    rw [pickSlot_none_iff]
    intro j e he hex
    have hji : j ≠ i := fun hji => hex (congrArg some hji.symm)
    rw [injected_at_ne hji] at he
    exact h.full j e he hji
  rw [report_of_state h.found h.alive (.inl h.state), storeModule, hmodule, hpick, Option.none_or]

/-- **A report without room is not atomic**: it fails and has changed its base record. -/
theorem not_atomic_of_noRoom (hlen : t.entries.length = recordMax)
    (h : NoRoom t r looks i base) : ¬ Atomic t r looks := by
  intro hatomic
  have hbase : t.entries[i]? = some base :=
    of_refresh_live hlen h.found.slot h.found.addressed.live
  have hrun := report_of_noRoom h
  have hreap := hatomic.err .enospc (by rw [hrun])
  rw [hrun] at hreap
  have hinj := injected_at_self h.found
  rcases hreap i with hsame | ⟨e, he, hexit, -⟩
  · rw [hinj, hbase] at hsame
    have := congrArg (fun e => e.record.state) (Option.some.inj hsame)
    simp [h.state] at this
  · rw [hinj] at hexit
    have := congrArg (fun e => e.record.state) (Option.some.inj hexit)
    simp at this

/-- Without a free or EXITED slot the record of the module goes where the oldest one is. -/
theorem report_of_evicts {j : Nat} (h : Evicts t r looks i base j e) :
    reportRuntime r looks t =
      (none, (setStateLocked i .injected (refreshExited looks.seen t)).put j
        (moduleEntry (base.withState .injected) (zpCopyName nativeModuleIdMax r.moduleId))) := by
  have hmodule := findModule_injected h.found fun k d hd _ => h.new k d hd
  have hji : j ≠ i := fun hji => h.oldest.other (congrArg some hji.symm)
  have hback : ∀ (k : Nat) (d : Entry),
      (setStateLocked i .injected (refreshExited looks.seen t)).entries[k]? = some d →
      some i ≠ some k → (refreshExited looks.seen t).entries[k]? = some d := by
    intro k d hd hk
    rwa [injected_at_ne fun h => hk (congrArg some h.symm)] at hd
  have hslot : (setStateLocked i .injected (refreshExited looks.seen t)).entries[j]? = some e :=
    (injected_at_ne hji).trans h.oldest.slot
  have hpick : pickSlot (setStateLocked i .injected (refreshExited looks.seen t)) (some i) =
      some j := by
    rw [pickSlot_oldest fun k d hd hk =>
      h.full k d (hback k d hd hk) fun h => hk (congrArg some h.symm)]
    exact ⟨e, hslot, h.oldest.other, h.oldest.module, fun k d hd hk =>
      h.oldest.oldest k d (hback k d hd hk) hk⟩
  rw [report_of_state h.found h.alive h.state, storeModule, hmodule, hpick, Option.none_or]
  simp only [hslot]
  exact if_pos h.differs

/-- A report that takes the slot of another live process is not atomic. -/
theorem not_atomic_of_evicts {j : Nat} (hlen : t.entries.length = recordMax)
    (h : Evicts t r looks i base j e) : ¬ Atomic t r looks := by
  intro hatomic
  have hji : j ≠ i := fun hji => h.oldest.other (congrArg some hji.symm)
  obtain ⟨hused, hlive⟩ := h.full j e h.oldest.slot hji
  have hold : t.entries[j]? = some e := of_refresh_live hlen h.oldest.slot hlive
  let new := moduleEntry (base.withState .injected) (zpCopyName nativeModuleIdMax r.moduleId)
  have hnew : (reportRuntime r looks t).2.entries[j]? = some new := by
    rw [report_of_evicts h]
    exact entries_put_self ((injected_at_ne hji).trans h.oldest.slot)
  have hpid : new.record.pid ≠ e.record.pid := fun heq =>
    h.other (heq.symm.trans h.found.addressed.pid)
  -- its task was seen alive by every look
  have halive : ¬ looks.Dead j e.record.pid e.startBoottime := by
    rintro (hseen | hagain)
    · have hgone : gone looks.seen j e = true := by
        simp only [gone, Bool.and_eq_true, Bool.not_eq_true']
        exact ⟨⟨decide_eq_true hused, decide_eq_true hlive⟩, hseen⟩
      obtain ⟨d, hd, hde⟩ := of_exitEach_at hlen h.oldest.slot
      obtain rfl := Option.some.inj (hold.symm.trans hd)
      rw [exitIf, if_pos hgone] at hde
      exact hlive (hde ▸ rfl)
    · rw [h.living] at hagain
      cases hagain
  rcases hatomic.own j e new hold hnew (fun heq => hpid (congrArg (·.record.pid) heq)) with
    ⟨heq, -⟩ | ⟨-, -, ⟨s, heq⟩ | hfree | hexit | hdead | ⟨hown, -⟩⟩
  · exact hpid (congrArg (·.record.pid) heq)
  · exact hpid (congrArg (·.record.pid) heq)
  · exact hfree hused
  · exact hlive hexit
  · exact halive hdead
  · exact h.other hown

/-- A report whose second look finds the task dead has only marked dead records. -/
theorem atomic_of_dead (hlen : t.entries.length = recordMax) (h : Found t r looks kind i base)
    (hdead : ¬ taskAlive looks.again base.record.pid base.startBoottime = true) :
    Atomic t r looks := by
  have hrun : reportRuntime r looks t =
      (some .esrch, setStateLocked i .exited (refreshExited looks.seen t)) := by
    rw [report_of_found h, reportBase, if_pos (by simpa using hdead)]
  refine atomic_of_reaped hrun ?_
  intro j
  rw [setStateLocked_at]
  split_ifs with hij
  · subst hij
    rw [h.slot]
    exact .inr ⟨base, of_refresh_live hlen h.slot h.addressed.live, rfl,
      .inr (by simpa using hdead)⟩
  · exact reaped_refresh _ hlen j

/-- Where no record is evicted, the one that the module's record replaces may be given up or is of
the process itself. -/
theorem given_up (h : Found t r looks .native i base)
    (halive : taskAlive looks.again base.record.pid base.startBoottime = true)
    (hok : base.record.state = .redirected ∨ base.record.state = .injected)
    (hother : ¬ ∃ i base j e, Evicts t r looks i base j e) {slot : Nat} {old : Entry}
    (hslot : (findModule (setStateLocked i .injected (refreshExited looks.seen t)) r.pid
        (zpCopyName nativeModuleIdMax r.moduleId)).or
      (pickSlot (setStateLocked i .injected (refreshExited looks.seen t)) (some i)) = some slot)
    (hold : (setStateLocked i .injected (refreshExited looks.seen t)).entries[slot]? = some old)
    (hdiffers : old.record.generation ≠ base.record.generation ∨ old.record.state ≠ .injected ∨
      old.startBoottime ≠ base.startBoottime) :
    slot ≠ i ∧ (refreshExited looks.seen t).entries[slot]? = some old ∧
      (¬ old.Used ∨ old.record.state = .exited ∨
        looks.Dead slot old.record.pid old.startBoottime ∨
        old.record.pid = r.pid ∧ ¬ old.Base) := by
  have hid := h.moduleId rfl
  obtain ⟨hne, hcases⟩ := slot_cases (injected_at_self h) h.addressed.base hid hslot hold
  have hold' : (refreshExited looks.seen t).entries[slot]? = some old :=
    (injected_at_ne hne).symm.trans hold
  refine ⟨hne, hold', ?_⟩
  rcases hcases with (hfree | hexit) | hown | ⟨hf, hfull, holdest⟩
  · exact .inl hfree
  · exact .inr (.inl hexit)
  · exact .inr (.inr (.inr hown))
  · by_cases hpid : old.record.pid = r.pid
    · exact .inr (.inr (.inr ⟨hpid, holdest.module⟩))
    · -- The record of another process must be that of a dead one.
      refine .inr (.inr (.inl (.inr ?_)))
      by_contra hliving
      refine hother ⟨i, base, slot, old, h, halive, hok, fun k d hd hdp hdk hdm => ?_,
        fun k d hd hk => hfull k d ((injected_at_ne hk).trans hd) hk,
        ⟨hold', holdest.other, holdest.module, fun k d hd hk => holdest.oldest k d
          ((injected_at_ne fun h => hk (congrArg some h.symm)).trans hd) hk⟩,
        hpid, by simpa using hliving, hdiffers⟩
      have hk : k ≠ i := by
        rintro rfl
        obtain rfl := Option.some.inj (hd.symm.trans h.slot)
        exact hid (hdm.symm.trans h.addressed.base)
      exact absurd (Keyed.first_none hf ((injected_at_ne hk).trans hd))
        (by simp [hdp, hdk, hdm])

/-- A found base record: the report is atomic, or there is no room for its module, or it takes the
slot of another process. -/
theorem atomic_of_found (hlen : t.entries.length = recordMax) (h : Found t r looks kind i base)
    (hroom : ¬ ∃ i base, NoRoom t r looks i base)
    (hother : ¬ ∃ i base j e, Evicts t r looks i base j e) : Atomic t r looks := by
  by_cases halive : taskAlive looks.again base.record.pid base.startBoottime = true
  swap
  · exact atomic_of_dead hlen h halive
  have hrun := report_of_found h
  have hnot : ¬ (!taskAlive looks.again base.record.pid base.startBoottime) = true := by
    simpa using halive
  by_cases hstate : base.record.state ≠ .redirected ∧ base.record.state ≠ .injected
  · have hrun : reportRuntime r looks t = (some .eagain, refreshExited looks.seen t) := by
      rw [hrun, reportBase, if_neg hnot, if_pos hstate]
    exact atomic_of_reaped hrun (reaped_refresh _ hlen)
  have hok : base.record.state = .redirected ∨ base.record.state = .injected := by
    by_contra hno
    exact hstate (not_or.mp hno)
  cases kind with
  | zygote =>
    refine atomic_of_success hlen h ?_ halive hok fun j d' hd' => .inl hd'
    rw [hrun, reportBase, if_neg hnot, if_neg hstate]
  | native =>
    rw [reportBase, if_neg hnot, if_neg hstate] at hrun
    simp only at hrun
    rcases storeModule_cases (setStateLocked i .injected (refreshExited looks.seen t)) i
        (base.withState .injected) r.pid (zpCopyName nativeModuleIdMax r.moduleId) with
      ⟨hs, hf, hpick⟩ | hs | ⟨slot, old, hold, hslot, hdiffers, hs⟩
    · -- The table is full: atomic only if the base record was INJECTED before.
      rw [hs] at hrun
      rcases hok with hred | hinjected
      · refine absurd ⟨i, base, h, halive, hred, ?_⟩ hroom
        intro j e he hji
        refine pickSlot_none hpick j e ?_ fun hex => hji (Option.some.inj hex).symm
        rw [injected_at_ne hji]
        exact he
      · refine atomic_of_reaped hrun ?_
        have hsame : setStateLocked i .injected (refreshExited looks.seen t) =
            refreshExited looks.seen t := by
          unfold setStateLocked
          simp only [h.slot, hinjected, if_true]
        rw [hsame]
        exact reaped_refresh _ hlen
    · rw [hs] at hrun
      exact atomic_of_success hlen h hrun halive hok fun j d' hd' => .inl hd'
    · rw [hs] at hrun
      obtain ⟨hne, hold', hgive⟩ := given_up h halive hok hother hslot hold hdiffers
      refine atomic_of_success hlen h hrun halive hok ?_
      intro j d' hd'
      rcases eq_or_ne slot j with rfl | hsj
      · rw [entries_put_self hold] at hd'
        exact .inr ⟨_, old, (Option.some.inj hd').symm, hne, hold', hgive⟩
      · rw [entries_put_ne hsj] at hd'
        exact .inl hd'

/-- **When a report is atomic.**  In every state of the table, with whatever the looks at the tasks
see: unless all slots are taken by live processes, and it is the first report of a native process
that waits in state REDIRECTED and all are base records, or the module is new and the oldest module
record is one of another process. -/
theorem report_atomic_iff (t : Table) (hlen : t.entries.length = recordMax) (r : Report)
    (looks : Looks) : Atomic t r looks ↔
      ¬ (∃ i base, NoRoom t r looks i base) ∧ ¬ ∃ i base j e, Evicts t r looks i base j e := by
  constructor
  · intro hatomic
    constructor
    · rintro ⟨i, base, h⟩
      exact not_atomic_of_noRoom hlen h hatomic
    · rintro ⟨i, base, j, e, h⟩
      exact not_atomic_of_evicts hlen h hatomic
  · rintro ⟨hroom, hother⟩
    rcases report_cases t r looks with ⟨code, hrun⟩ | ⟨code, hrun⟩ | ⟨kind, i, base, h, -⟩
    · exact atomic_of_reaped hrun reaped_self
    · exact atomic_of_reaped hrun (reaped_refresh _ hlen)
    · exact atomic_of_found hlen h hroom hother

/-! ## 5. A full table -/

/-- The base record of the native process `k + 1`, which started at that time. -/
def fullEntry (k : Nat) : Entry where
  record :=
    { pid := k + 1, generation := k + 1, kind := .native, state := .redirected, abi := 2,
      targetType := 1, target := [115] }
  startBoottime := k + 1

/-- The table when 128 native processes have been redirected. -/
def fullTable : Table := ⟨(List.range recordMax).map fullEntry, 2 * recordMax, 2 * recordMax⟩

/-- The first report of the last process. -/
def fullReport : Report := ⟨128, 128, some .native, [109]⟩

/-- All tasks are alive. -/
def fullLooks : Looks := ⟨fun pid => some pid, fun _ pid => some pid, fun pid => some pid⟩

/-- The table with the first two of them, and a module record of the first. -/
def roomTable : Table :=
  ⟨[fullEntry 0, fullEntry 1, moduleEntry (fullEntry 0) [109]] ++ List.replicate 125 ⟨{}, 0⟩, 3, 3⟩

theorem report_atomic_iff_room : Atomic roomTable ⟨2, 2, some .native, [109]⟩ fullLooks ∧
    (reportRuntime ⟨2, 2, some .native, [109]⟩ fullLooks roomTable).1 = none := by
  have hfree : (refreshExited fullLooks.seen roomTable).entries[3]? = some ⟨{}, 0⟩ := by
    decide +kernel
  have hbase : ∀ i base, Found roomTable ⟨2, 2, some .native, [109]⟩ fullLooks .native i base →
      (3 : Nat) ≠ i := by
    rintro i base h rfl
    obtain rfl := Option.some.inj (hfree.symm.trans h.slot)
    exact absurd h.addressed.pid (by decide)
  constructor
  · rw [report_atomic_iff roomTable (by simp [roomTable, recordMax])]
    constructor
    · rintro ⟨i, base, h⟩
      exact (h.full 3 ⟨{}, 0⟩ hfree (hbase i base h.found)).1 rfl
    · rintro ⟨i, base, j, e, h⟩
      exact (h.full 3 ⟨{}, 0⟩ hfree (hbase i base h.found)).1 rfl
  · decide +kernel

theorem not_atomic : ¬ ∀ t : Table, t.entries.length = recordMax → ∀ r looks,
    Atomic t r looks := by
  intro h
  have hcode : (reportRuntime fullReport fullLooks fullTable).1 = some .enospc := by decide +kernel
  have hbefore : fullTable.entries[127]?.map (fun e => e.record.state) = some .redirected := by
    decide +kernel
  have hafter : (reportRuntime fullReport fullLooks fullTable).2.entries[127]?.map
      (fun e => e.record.state) = some .injected := by decide +kernel
  have hatomic := h fullTable (by simp [fullTable]) fullReport fullLooks
  rcases hatomic.err .enospc hcode 127 with hsame | ⟨e, -, hexit, -⟩
  · rw [hsame, hbefore] at hafter
    simp at hafter
  · rw [hexit] at hafter
    simp at hafter

end YukiZygisk.Runtime
