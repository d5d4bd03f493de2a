/-
# What an operation does to the runtime table

Every operation is a run of single changes: a record gets a new state, or a slot gets a new
record (`steps_of_act`).  A record is written only over a free slot, an EXITED record, a module
record, or a record with the key of the `begin` that writes it, and no other slot has its key.

From that, by induction over the changes:

* `records_unique`: in every reachable state, with fewer than 2^32 generations taken, the
  generations of the base records are distinct and not 0, the keys of the records are distinct,
  and a base record that has not exited is overwritten only by a `begin` with its own key.
* `snapshots_agree`: two snapshots with the same capacity and the same generation have the same
  records, if fewer than 2^32 - 1 generations were taken in between; and an operation that
  changes a record changes the generation.

A single change is a new state for a record, or a new record over one that may be given up
(`Change`, `Write`); each puts the next generation of the counter on the table.  Every loop and
every branch of the four operations is taken apart into changes, with the reason why each is
allowed: who gave the old record up, or that its task was seen dead.  So the inductions of the last
sections are over lists of changes and have two cases.  Generations are 32-bit counters that pass
over zero; up to 2^32 of them are different (`genAt_inj`), and this is the bound in both theorems.
For the snapshots, a change of a record takes a generation, so an unchanged generation means that no
change took place, or as many as the counter needs to come round.
-/
import Mathlib
import YukiZygisk.Lib.Keyed
import YukiZygisk.Feature.RuntimeTable

namespace YukiZygisk.Runtime

open YukiZygisk.Native (zpCopyName nativeTargetValueMax nativeModuleIdMax)

variable {t t' : Table} {e new old : Entry} {i : Nat} {seen : Nat → Tasks}

/-! ## 1. Generations -/

/-- The generation after `n` calls of `zp_runtime_next_generation_locked`. -/
def genAt (n : Nat) : Nat := if n = 0 then 0 else (n - 1) % (2 ^ 32 - 1) + 1

theorem nextGeneration_genAt (n : Nat) : nextGeneration (genAt n) = genAt (n + 1) := by
  unfold nextGeneration genAt
  rcases Nat.eq_zero_or_pos n with rfl | hn
  · rfl
  · have h : n ≠ 0 := by omega
    simp only [h, if_false, Nat.add_one_ne_zero, Nat.add_sub_cancel]
    split_ifs <;> omega

/-- The first generations are the numbers themselves. -/
theorem genAt_of_lt {n : Nat} (h : n < 2 ^ 32) : genAt n = n := by
  unfold genAt
  split_ifs <;> omega

/-- The counter takes 2^32 - 1 calls to come back to a value. -/
theorem genAt_inj {m n : Nat} (hmn : m ≤ n) (hlt : n - m < 2 ^ 32 - 1) (h : genAt m = genAt n) :
    m = n := by
  unfold genAt at h
  split_ifs at h <;> omega

/-! ## 2. Keys -/

/-- The two records have the same key: native base records of one pid, zygote base records of one
target and ABI, or module records of one pid and module. -/
def SameKey (a b : Entry) : Prop :=
  (a.Base ∧ b.Base ∧ a.record.kind = .native ∧ b.record.kind = .native ∧
    a.record.pid = b.record.pid) ∨
  (a.Base ∧ b.Base ∧ a.record.kind = .zygote ∧ b.record.kind = .zygote ∧
    a.record.target = b.record.target ∧ a.record.abi = b.record.abi) ∨
  (¬ a.Base ∧ ¬ b.Base ∧ a.record.pid = b.record.pid ∧ a.record.moduleId = b.record.moduleId)

/-- Two used slots with one key. -/
def Clash (a b : Entry) : Prop := a.Used ∧ b.Used ∧ SameKey a b

theorem Clash.symm {a b : Entry} (h : Clash a b) : Clash b a := by
  obtain ⟨ha, hb, h⟩ := h
  refine ⟨hb, ha, ?_⟩
  unfold SameKey at h ⊢
  rcases h with ⟨h1, h2, h3, h4, h5⟩ | ⟨h1, h2, h3, h4, h5, h6⟩ | ⟨h1, h2, h3, h4⟩
  · exact .inl ⟨h2, h1, h4, h3, h5.symm⟩
  · exact .inr (.inl ⟨h2, h1, h4, h3, h5.symm, h6.symm⟩)
  · exact .inr (.inr ⟨h2, h1, h3.symm, h4.symm⟩)

/-- The base record has the key of this `begin`. -/
def OwnKey (args : BeginArgs) (current : Current) (e : Entry) : Prop :=
  e.Base ∧ e.record.kind = args.kind ∧
    match args.kind with
    | .native => e.record.pid = current.tgid
    | .zygote => e.record.target = args.target.bytes ∧ e.record.abi = args.abi

/-- The records that a `begin` may give up although they have not exited: the one with its key, and
those of the modules that the process had before. -/
def GivesUp (args : BeginArgs) (current : Current) (e : Entry) : Prop :=
  OwnKey args current e ∨ ¬ e.Base ∧ args.kind = .native ∧ e.record.pid = current.tgid

/-! ## 3. Single changes -/

/-- Two base records of one generation. -/
def SameGeneration (a b : Entry) : Prop :=
  a.Used ∧ b.Used ∧ a.Base ∧ b.Base ∧ a.record.generation = b.record.generation

theorem SameGeneration.symm {a b : Entry} (h : SameGeneration a b) : SameGeneration b a := by
  obtain ⟨h1, h2, h3, h4, h5⟩ := h
  exact ⟨h2, h1, h4, h3, h5.symm⟩

/-- The record `new` may be written over `old` in slot `i`.  A new record of a module copies a base
record that has not exited; when it is the base record of a native process, the records of the
modules that the process had before are EXITED. -/
structure Write (own : Entry → Prop) (t : Table) (i : Nat) (old new : Entry) : Prop where
  room : ¬ old.Used ∨ old.record.state = .exited ∨ ¬ old.Base ∨ own old
  fresh : new.Base → new.record.generation = nextGeneration t.generation
  native : ¬ new.Base → new.record.kind = .native
  apart : ∀ (j : Nat) (e : Entry), t.entries[j]? = some e → j ≠ i → ¬ Clash new e
  copy : ¬ new.Base → ∃ (j : Nat) (base : Entry), t.entries[j]? = some base ∧ base.Used ∧
    base.Base ∧ new = moduleEntry base new.record.moduleId
  restart : new.Base → new.record.kind = .native → ∀ (j : Nat) (e : Entry),
    t.entries[j]? = some e → e.Used → ¬ e.Base → e.record.pid = new.record.pid →
    e.record.state = .exited
  short : new.record.moduleId.length < nativeModuleIdMax

/-- One change of the table.  `own` are the records that may be given up although they have not
exited, `dead` says of a slot, a pid and a start time that the task was not found. -/
inductive Change (own : Entry → Prop) (dead : Nat → Nat → Nat → Prop) (t : Table) : Table → Prop
  | state {i : Nat} {e : Entry} (s : State) (he : t.entries[i]? = some e)
      (hdead : s = .exited → dead i e.record.pid e.startBoottime ∨ own e)
      (hmodule : ¬ e.Base → s = .exited) : Change own dead t (t.put i (e.withState s))
  | write {i : Nat} {old new : Entry} (ho : t.entries[i]? = some old)
      (hw : Write own t i old new) : Change own dead t (t.put i new)

/-- Any number of changes. -/
def Steps (own : Entry → Prop) (dead : Nat → Nat → Nat → Prop) : Table → Table → Prop :=
  Relation.ReflTransGen (Change own dead)

/-- The part of the invariant that holds however many generations are taken. -/
structure WellKeyed (t : Table) : Prop where
  length : t.entries.length = recordMax
  count : t.generation = genAt t.bumps
  apart : Keyed.Apart Clash t.entries
  native : ∀ (i : Nat) (e : Entry), t.entries[i]? = some e → e.Used → ¬ e.Base →
    e.record.kind = .native
  short : ∀ (i : Nat) (e : Entry), t.entries[i]? = some e →
    e.record.moduleId.length < nativeModuleIdMax
  copies : ∀ (i j : Nat) (e base : Entry), t.entries[i]? = some e → t.entries[j]? = some base →
    e.Used → ¬ e.Base → e.record.state ≠ .exited → base.Used → base.Base →
    base.record.kind = .native → e.record.pid = base.record.pid →
    e = moduleEntry base e.record.moduleId

/-- The part of the invariant about generations, while they are all different. -/
structure Fresh (t : Table) : Prop where
  apart : Keyed.Apart SameGeneration t.entries
  bound : ∀ (i : Nat) (e : Entry), t.entries[i]? = some e → e.Used → e.Base →
    0 < e.record.generation ∧ e.record.generation ≤ t.bumps

variable {own : Entry → Prop} {dead : Nat → Nat → Nat → Prop}

theorem entries_put_self (he : t.entries[i]? = some e) : (t.put i new).entries[i]? = some new := by
  have hi : i < t.entries.length := (List.getElem?_eq_some_iff.mp he).1
  simp [hi]

theorem entries_put_ne {j : Nat} (h : i ≠ j) : (t.put i new).entries[j]? = t.entries[j]? := by
  simp [h]

/-- A property of single entries after a `put`. -/
theorem forall_put {P : Entry → Prop} (ht : ∀ (j : Nat) (e : Entry), t.entries[j]? = some e → P e)
    (hnew : P new) : ∀ (j : Nat) (e : Entry), (t.put i new).entries[j]? = some e → P e := by
  intro j e he
  rw [Table.put_entries, List.getElem?_set] at he
  split_ifs at he with h1 h2
  · obtain rfl := Option.some.inj he
    exact hnew
  · exact ht j e he

/-- A module record that has not exited copies the base record of its process. -/
def Copies (e base : Entry) : Prop :=
  e.Used → ¬ e.Base → e.record.state ≠ .exited → base.Used → base.Base →
    base.record.kind = .native → e.record.pid = base.record.pid →
    e = moduleEntry base e.record.moduleId

/-- A relation between the entries of the table after a `put`. -/
theorem forall_put_pair {R : Entry → Entry → Prop}
    (ht : ∀ (j k : Nat) (d e : Entry), t.entries[j]? = some d → t.entries[k]? = some e → R d e)
    (hleft : ∀ (k : Nat) (e : Entry), t.entries[k]? = some e → k ≠ i → R new e)
    (hright : ∀ (j : Nat) (d : Entry), t.entries[j]? = some d → j ≠ i → R d new)
    (hself : R new new) :
    ∀ (j k : Nat) (d e : Entry), (t.put i new).entries[j]? = some d →
      (t.put i new).entries[k]? = some e → R d e := by
  intro j k d e hd he
  rw [Table.put_entries, List.getElem?_set] at hd he
  split_ifs at hd he with h1 h2 h3 h4 h5
  · obtain rfl := Option.some.inj hd
    obtain rfl := Option.some.inj he
    exact hself
  · obtain rfl := Option.some.inj hd
    exact hleft k e he (Ne.symm h3)
  · obtain rfl := Option.some.inj he
    exact hright j d hd (Ne.symm h1)
  · exact ht j k d e hd he

theorem WellKeyed.change (hk : WellKeyed t) (hc : Change own dead t t') : WellKeyed t' := by
  cases hc with
  | @state i e s he _ hmodule =>
    refine ⟨by simp [hk.length], by simp [hk.count, nextGeneration_genAt], ?_, ?_, ?_, ?_⟩
    · refine hk.apart.set (fun _ _ => Clash.symm) ?_
      intro j d hd hne hclash
      exact hk.apart i j e d he hd (Ne.symm hne) hclash
    · intro j d hd
      refine forall_put (P := fun d => d.Used → ¬ d.Base → d.record.kind = .native) hk.native
        ?_ j d hd
      exact hk.native i e he
    · intro j d hd
      refine forall_put (P := fun d => d.record.moduleId.length < nativeModuleIdMax) hk.short
        ?_ j d hd
      exact hk.short i e he
    · refine forall_put_pair (R := Copies) hk.copies ?_ ?_ ?_
      · intro k d hd _ hu hb hlive
        exact absurd (hmodule hb) hlive
      · intro j d hd _
        exact hk.copies j i d e hd he
      · intro _ hb _ _ hb'
        exact absurd hb' hb
  | @write i old new ho hw =>
    refine ⟨by simp [hk.length], by simp [hk.count, nextGeneration_genAt], ?_, ?_, ?_, ?_⟩
    · exact hk.apart.set (fun _ _ => Clash.symm) hw.apart
    · intro j d hd
      refine forall_put (P := fun d => d.Used → ¬ d.Base → d.record.kind = .native) hk.native
        ?_ j d hd
      exact fun _ hb => hw.native hb
    · intro j d hd
      exact forall_put (P := fun d => d.record.moduleId.length < nativeModuleIdMax) hk.short
        hw.short j d hd
    · refine forall_put_pair (R := Copies) hk.copies ?_ ?_ ?_
      · -- The new record is that of a module: its base record is the only one of the process.
        intro k b hb hki _ hnb _ hub hbb hkind hpid
        obtain ⟨j, base, hbase, hu, hbbase, hnew⟩ := hw.copy hnb
        have hkn : base.record.kind = .native := by
          have := hw.native hnb
          rw [hnew] at this
          exact this
        have hpid' : base.record.pid = b.record.pid := by
          rw [hnew] at hpid
          exact hpid
        have hjk : j = k := by
          by_contra hne
          exact hk.apart j k base b hbase hb hne ⟨hu, hub, .inl ⟨hbbase, hbb, hkn, hkind, hpid'⟩⟩
        subst hjk
        obtain rfl := Option.some.inj (hbase.symm.trans hb)
        exact hnew
      · intro j d hd _ hu hb hlive _ hbb hkind hpid
        exact absurd (hw.restart hbb hkind j d hd hu hb hpid) hlive
      · intro _ hb _ _ hb'
        exact absurd hb' hb

theorem Fresh.change (hk : WellKeyed t) (hf : Fresh t) (hlt : t.bumps + 1 < 2 ^ 32)
    (hc : Change own dead t t') : Fresh t' := by
  cases hc with
  | @state i e s he _ _ =>
    constructor
    · refine hf.apart.set (fun _ _ => SameGeneration.symm) ?_
      intro j d hd hne hsame
      exact hf.apart i j e d he hd (Ne.symm hne) hsame
    · have hold : ∀ (j : Nat) (d : Entry), t.entries[j]? = some d → d.Used → d.Base →
          0 < d.record.generation ∧ d.record.generation ≤ t.bumps + 1 := fun j d hd hu hb =>
        ⟨(hf.bound j d hd hu hb).1, Nat.le_succ_of_le (hf.bound j d hd hu hb).2⟩
      intro j d hd
      refine forall_put (P := fun d => d.Used → d.Base →
        0 < d.record.generation ∧ d.record.generation ≤ t.bumps + 1) hold ?_ j d hd
      exact hold i e he
  | @write i old new ho hw =>
    have hgen : new.Base → new.record.generation = t.bumps + 1 := by
      intro hb
      rw [hw.fresh hb, hk.count, nextGeneration_genAt, genAt_of_lt hlt]
    constructor
    · refine hf.apart.set (fun _ _ => SameGeneration.symm) ?_
      intro j d hd _ hsame
      obtain ⟨-, hu, hnb, hb, heq⟩ := hsame
      have := (hf.bound j d hd hu hb).2
      rw [← heq, hgen hnb] at this
      omega
    · intro j d hd
      refine forall_put (P := fun d => d.Used → d.Base →
        0 < d.record.generation ∧ d.record.generation ≤ t.bumps + 1) ?_ ?_ j d hd
      · intro j d hd hu hb
        exact ⟨(hf.bound j d hd hu hb).1, Nat.le_succ_of_le (hf.bound j d hd hu hb).2⟩
      · intro _ hb
        rw [hgen hb]
        omega

theorem WellKeyed.steps (hk : WellKeyed t) (hs : Steps own dead t t') : WellKeyed t' := by
  induction hs with
  | refl => exact hk
  | tail _ hc ih => exact ih.change hc

theorem bumps_of_change (hc : Change own dead t t') : t'.bumps = t.bumps + 1 := by
  cases hc <;> rfl

/-- Changes take generations, and where none was taken nothing has changed. -/
theorem bumps_of_steps (hs : Steps own dead t t') :
    t.bumps ≤ t'.bumps ∧ (t'.bumps = t.bumps → t' = t) := by
  induction hs with
  | refl => exact ⟨Nat.le_refl _, fun _ => rfl⟩
  | tail _ hc ih =>
    have := bumps_of_change hc
    exact ⟨by omega, fun h => by omega⟩

/-- Generations stay apart as long as they do not come round. -/
theorem Fresh.steps (hk : WellKeyed t) (hf : Fresh t) (hs : Steps own dead t t')
    (hlt : t'.bumps < 2 ^ 32) : Fresh t' := by
  induction hs with
  | refl => exact hf
  | tail hs hc ih =>
    have hb := bumps_of_change hc
    rw [hb] at hlt
    exact (ih (by omega)).change (hk.steps hs) hlt hc

/-- What is left of a base record that has not exited: its slot still has it, with some state,
unless the record was one of `own` or its task was found dead. -/
theorem kept_of_steps (hs : Steps own dead t t') (he : t.entries[i]? = some e) (hu : e.Used)
    (hb : e.Base) (hlive : e.record.state ≠ .exited)
    (hown : ∀ s, own (e.withState s) → own e) :
    own e ∨ dead i e.record.pid e.startBoottime ∨
      ∃ s, t'.entries[i]? = some (e.withState s) ∧ s ≠ .exited := by
  induction hs with
  | refl => exact .inr (.inr ⟨e.record.state, he, hlive⟩)
  | tail hs hc ih =>
    rcases ih with h | h | ⟨s, hi, hne⟩
    · exact .inl h
    · exact .inr (.inl h)
    · cases hc with
      | @state j d s' hd hdead _ =>
        rcases eq_or_ne j i with rfl | hji
        · obtain rfl := Option.some.inj (hi.symm.trans hd)
          by_cases hs' : s' = .exited
          · rcases hdead hs' with h | h
            · exact .inr (.inl h)
            · exact .inl (hown s h)
          · exact .inr (.inr ⟨s', entries_put_self hd, hs'⟩)
        · exact .inr (.inr ⟨s, by rw [entries_put_ne hji]; exact hi, hne⟩)
      | @write j old new ho hw =>
        rcases eq_or_ne j i with rfl | hji
        · obtain rfl := Option.some.inj (hi.symm.trans ho)
          rcases hw.room with h | h | h | h
          · exact absurd hu h
          · exact absurd h hne
          · exact absurd hb h
          · exact .inl (hown s h)
        · exact .inr (.inr ⟨s, by rw [entries_put_ne hji]; exact hi, hne⟩)

/-! ## 4. The loops -/

theorem steps_setState (s : State)
    (hdead : ∀ e, t.entries[i]? = some e →
      (s = .exited → dead i e.record.pid e.startBoottime ∨ own e) ∧ (¬ e.Base → s = .exited)) :
    Steps own dead t (setStateLocked i s t) := by
  unfold setStateLocked
  cases he : t.entries[i]? with
  | none => exact .refl
  | some e =>
    by_cases hs : e.record.state = s
    · simp only [hs, if_true]
      exact .refl
    · simp only [hs, if_false]
      exact .single (.state s he (hdead e he).1 (hdead e he).2)

/-- Marking entries as EXITED is one change for each. -/
theorem steps_exitEach {test : Nat → Entry → Bool}
    (hdead : ∀ i e, test i e = true → dead i e.record.pid e.startBoottime ∨ own e) (t : Table) :
    Steps own dead t (exitEach test t) := by
  have key : ∀ (is : List Nat) (t : Table), Steps own dead t (is.foldl (exitOne test) t) := by
    intro is
    induction is with
    | nil => intro t; exact .refl
    | cons i is ih =>
      intro t
      refine Relation.ReflTransGen.trans ?_ (ih (exitOne test t i))
      unfold exitOne
      cases he : t.entries[i]? with
      | none => exact .refl
      | some e =>
        by_cases ht : test i e = true
        · simp only [ht, if_true]
          refine steps_setState .exited ?_
          intro d hd
          obtain rfl := Option.some.inj (he.symm.trans hd)
          exact ⟨fun _ => hdead i e ht, fun _ => rfl⟩
        · simp only [ht]
          exact .refl
  unfold exitEach
  exact key _ t

/-- An entry after `exitEach`. -/
def exitIf (test : Nat → Entry → Bool) (i : Nat) (e : Entry) : Entry :=
  if test i e then e.withState .exited else e

theorem setStateLocked_at (s : State) (j : Nat) :
    (setStateLocked i s t).entries[j]? =
      if i = j then t.entries[j]?.map fun e => e.withState s else t.entries[j]? := by
  unfold setStateLocked
  cases he : t.entries[i]? with
  | none =>
    by_cases hij : i = j
    · subst hij; simp [he]
    · simp [hij]
  | some e =>
    by_cases hs : e.record.state = s
    · by_cases hij : i = j
      · subst hij hs; simp [he, Entry.withState_self]
      · simp [hs, hij]
    · by_cases hij : i = j
      · subst hij
        simp only [hs, if_false, if_true, he, Option.map_some]
        exact entries_put_self he
      · simp only [hs, if_false, hij]
        exact entries_put_ne hij

/-- What is in a slot after one entry was marked. -/
theorem exitOne_at (test : Nat → Entry → Bool) (j : Nat) :
    (exitOne test t i).entries[j]? =
      if i = j then t.entries[j]?.map (exitIf test i) else t.entries[j]? := by
  unfold exitOne
  cases he : t.entries[i]? with
  | none =>
    by_cases hij : i = j
    · subst hij; simp [he]
    · simp [hij]
  | some e =>
    by_cases hij : i = j
    · subst hij
      by_cases ht : test i e = true
      · simp [ht, setStateLocked_at, he, exitIf]
      · simp [ht, he, exitIf]
    · by_cases ht : test i e = true
      · simp [ht, setStateLocked_at, hij]
      · simp [ht, hij]

/-- What `exitEach` leaves in each slot. -/
theorem exitEach_at (hlen : t.entries.length = recordMax) (test : Nat → Entry → Bool) (j : Nat) :
    (exitEach test t).entries[j]? = t.entries[j]?.map (exitIf test j) := by
  have key : ∀ n, ((List.range n).foldl (exitOne test) t).entries[j]? =
      if j < n then t.entries[j]?.map (exitIf test j) else t.entries[j]? := by
    intro n
    induction n with
    | zero => simp
    | succ n ih =>
      rw [List.range_succ, List.foldl_append, List.foldl_cons, List.foldl_nil, exitOne_at, ih]
      rcases Nat.lt_trichotomy j n with h | rfl | h
      · simp [h, Nat.lt_succ_of_lt h, Nat.ne_of_gt h]
      · simp
      · simp [Nat.ne_of_lt h, Nat.not_lt.mpr (Nat.le_of_lt h), Nat.not_lt.mpr h]
  unfold exitEach
  rcases Nat.lt_or_ge j recordMax with h | h
  · exact (key recordMax).trans (if_pos h)
  · have hnone : t.entries[j]? = none := List.getElem?_eq_none (by omega)
    refine (key recordMax).trans ?_
    simp [hnone]

/-- An entry after `exitEach` is one from before, with its state or EXITED. -/
theorem of_exitEach_at (hlen : t.entries.length = recordMax) {test : Nat → Entry → Bool} {j : Nat}
    (he : (exitEach test t).entries[j]? = some e) :
    ∃ d, t.entries[j]? = some d ∧ e = exitIf test j d := by
  rw [exitEach_at hlen] at he
  cases hd : t.entries[j]? with
  | none => simp [hd] at he
  | some d =>
    rw [hd] at he
    exact ⟨d, rfl, (Option.some.inj he).symm⟩

theorem exitIf_eq (test : Nat → Entry → Bool) (j : Nat) (e : Entry) :
    ∃ s, exitIf test j e = e.withState s := by
  unfold exitIf
  split_ifs
  · exact ⟨.exited, rfl⟩
  · exact ⟨e.record.state, rfl⟩

/-- `exitEach` takes at most one generation for each slot. -/
theorem bumps_exitEach (test : Nat → Entry → Bool) (t : Table) :
    (exitEach test t).bumps ≤ t.bumps + recordMax := by
  have key : ∀ n, ((List.range n).foldl (exitOne test) t).bumps ≤ t.bumps + n := by
    intro n
    induction n with
    | zero => simp
    | succ n ih =>
      rw [List.range_succ, List.foldl_append, List.foldl_cons, List.foldl_nil]
      have hone : ∀ u : Table, (exitOne test u n).bumps ≤ u.bumps + 1 := by
        intro u
        unfold exitOne setStateLocked
        split
        · omega
        · split_ifs
          · split
            · omega
            · split_ifs <;> simp
          · omega
      have := hone ((List.range n).foldl (exitOne test) t)
      omega
  unfold exitEach
  exact key recordMax

/-- The slots after the first one, in the numbering of the table. -/
theorem tail_at {entries rest : List Entry} {n : Nat}
    (h : ∀ j : Nat, (e :: rest)[j]? = entries[n + j]?) (j : Nat) :
    rest[j]? = entries[n + 1 + j]? := by
  have := h (j + 1)
  rw [List.getElem?_cons_succ] at this
  rw [this]
  congr 1
  omega

/-- The slot that is picked is free, or its record has exited or is one of a module. -/
theorem pickSlot_some {exclude : Option Nat} (h : pickSlot t exclude = some i) :
    ∃ e, t.entries[i]? = some e ∧ exclude ≠ some i ∧
      (¬ e.Used ∨ e.record.state = .exited ∨ ¬ e.Base) := by
  -- Invariant of the loop: both candidates are such slots, and `all` is read from slot `k` on.
  have key : ∀ (rest : List Entry) (k : Nat) (exited module : Option (Nat × Nat)),
      (∀ j, rest[j]? = t.entries[k + j]?) →
      (∀ j g, exited = some (j, g) ∨ module = some (j, g) → ∃ e, t.entries[j]? = some e ∧
        exclude ≠ some j ∧ (¬ e.Used ∨ e.record.state = .exited ∨ ¬ e.Base)) →
      pickSlotFrom exclude rest k exited module = some i →
      ∃ e, t.entries[i]? = some e ∧ exclude ≠ some i ∧
        (¬ e.Used ∨ e.record.state = .exited ∨ ¬ e.Base) := by
    intro rest
    induction rest with
    | nil =>
      intro k exited module _ hcand hpick
      simp only [pickSlotFrom, Option.map_eq_some_iff] at hpick
      obtain ⟨⟨j, g⟩, hor, rfl⟩ := hpick
      refine hcand j g ?_
      cases exited with
      | none => exact .inr (by simpa using hor)
      | some p => exact .inl (by simpa using hor)
    | cons e rest ih =>
      intro k exited module hrest hcand hpick
      have hk : t.entries[k]? = some e := by simpa using (hrest 0).symm
      have hrest' := tail_at hrest
      rw [pickSlotFrom] at hpick
      split_ifs at hpick with hex hfree hs hm hm
      · exact ih _ _ _ hrest' hcand hpick
      · obtain rfl := Option.some.inj hpick
        exact ⟨e, hk, hex, .inl (not_not.mpr hfree)⟩
      all_goals
        refine ih _ _ _ hrest' (fun j g hj => ?_) hpick
        rcases hj with hj | hj
      · obtain ⟨rfl, -⟩ := Prod.mk.inj (Option.some.inj hj)
        exact ⟨e, hk, hex, .inr (.inl hs.1)⟩
      · obtain ⟨rfl, -⟩ := Prod.mk.inj (Option.some.inj hj)
        exact ⟨e, hk, hex, .inr (.inr hm.1)⟩
      · obtain ⟨rfl, -⟩ := Prod.mk.inj (Option.some.inj hj)
        exact ⟨e, hk, hex, .inr (.inl hs.1)⟩
      · exact hcand j g (.inr hj)
      · exact hcand j g (.inl hj)
      · obtain ⟨rfl, -⟩ := Prod.mk.inj (Option.some.inj hj)
        exact ⟨e, hk, hex, .inr (.inr hm.1)⟩
      · exact hcand j g (.inl hj)
      · exact hcand j g (.inr hj)
  refine key t.entries 0 none none (fun j => by simp) (fun j g hj => ?_) h
  rcases hj with hj | hj <;> simp at hj

/-! ## 5. The operations as runs of changes -/

theorem steps_refresh (hdead : ∀ i pid start, taskAlive (seen i) pid start = false →
    dead i pid start) (t : Table) : Steps own dead t (refreshExited seen t) := by
  refine steps_exitEach (fun i e ht => ?_) t
  simp only [gone, Bool.and_eq_true, Bool.not_eq_true'] at ht
  exact .inl (hdead i _ _ ht.2)

section Begin

variable {args : BeginArgs} {current : Current} {restarts generation : Nat}

/-- Whoever shares the key of the new record has the key of the `begin`. -/
theorem ownKey_of_clash (h : Clash (newEntry args current restarts generation) e) :
    OwnKey args current e := by
  obtain ⟨-, -, h⟩ := h
  have hbase : (newEntry args current restarts generation).Base := rfl
  have htarget : zpCopyName nativeTargetValueMax args.target.bytes = args.target.bytes :=
    zpCopyName_buffer args.target
  unfold OwnKey
  rcases h with ⟨-, hb, hk, hk', hp⟩ | ⟨-, hb, hk, hk', ht, ha⟩ | ⟨hb, -⟩
  · have hk : args.kind = .native := hk
    exact ⟨hb, hk'.trans hk.symm, by rw [hk]; exact hp.symm⟩
  · have hk : args.kind = .zygote := hk
    exact ⟨hb, hk'.trans hk.symm, by rw [hk]; exact ⟨ht.symm.trans htarget, ha.symm⟩⟩
  · exact absurd hbase hb

/-- Two used records with the key of one `begin` clash. -/
theorem clash_of_ownKey {a b : Entry} (hua : a.Used) (hub : b.Used)
    (ha : OwnKey args current a) (hb : OwnKey args current b) : Clash a b := by
  refine ⟨hua, hub, ?_⟩
  unfold OwnKey at ha hb
  cases hk : args.kind with
  | native =>
    simp only [hk] at ha hb
    exact .inl ⟨ha.1, hb.1, ha.2.1, hb.2.1, ha.2.2.trans hb.2.2.symm⟩
  | zygote =>
    simp only [hk] at ha hb
    exact .inr (.inl ⟨ha.1, hb.1, ha.2.1, hb.2.1, ha.2.2.1.trans hb.2.2.1.symm,
      ha.2.2.2.trans hb.2.2.2.symm⟩)

/-- The slot for a new record: the one with its key, or else one that may be given up while no
slot has its key. -/
def SlotFor (args : BeginArgs) (current : Current) (t : Table) (i : Nat) : Prop :=
  (∃ e, t.entries[i]? = some e ∧ e.Used ∧ OwnKey args current e) ∨
    (∀ (j : Nat) (e : Entry), t.entries[j]? = some e → e.Used → ¬ OwnKey args current e) ∧
      pickSlot t none = some i

/-- A new base record may be written to the slot that was found for it. -/
theorem write_newEntry (hk : WellKeyed t) (hslot : SlotFor args current t i)
    (hrestart : args.kind = .native → ∀ (j : Nat) (e : Entry), t.entries[j]? = some e → e.Used →
      ¬ e.Base → e.record.pid = current.tgid → e.record.state = .exited) :
    ∃ old, t.entries[i]? = some old ∧
      Write (GivesUp args current) t i old
        (newEntry args current restarts (nextGeneration t.generation)) := by
  have hbase : (newEntry args current restarts (nextGeneration t.generation)).Base := rfl
  have hshort : (newEntry args current restarts
      (nextGeneration t.generation)).record.moduleId.length < nativeModuleIdMax :=
    Nat.zero_lt_succ 63
  rcases hslot with ⟨old, ho, hu, hown⟩ | ⟨hnone, hpick⟩
  · refine ⟨old, ho, .inr (.inr (.inr (.inl hown))), fun _ => rfl, fun h => absurd hbase h, ?_,
      fun h => absurd hbase h, fun _ => hrestart, hshort⟩
    intro j e he hne hclash
    exact hk.apart i j old e ho he (Ne.symm hne)
      (clash_of_ownKey hu hclash.2.1 hown (ownKey_of_clash hclash))
  · obtain ⟨old, ho, -, hroom⟩ := pickSlot_some hpick
    refine ⟨old, ho, ?_, fun _ => rfl, fun h => absurd hbase h, ?_, fun h => absurd hbase h,
      fun _ => hrestart, hshort⟩
    · rcases hroom with h | h | h
      · exact .inl h
      · exact .inr (.inl h)
      · exact .inr (.inr (.inl h))
    · intro j e he _ hclash
      exact hnone j e he hclash.2.1 (ownKey_of_clash hclash)

/-- The records of the modules of the process are EXITED. -/
theorem exitModules_exited (hlen : t.entries.length = recordMax) (hk : WellKeyed t) :
    ∀ (j : Nat) (e : Entry), (exitModules current.tgid t).entries[j]? = some e → e.Used → ¬ e.Base →
      e.record.pid = current.tgid → e.record.state = .exited := by
  intro j e he hu hb hpid
  obtain ⟨d, hd, rfl⟩ := of_exitEach_at hlen he
  obtain ⟨s, hs⟩ := exitIf_eq (fun _ e => e.record.pid = current.tgid &&
    e.record.kind = .native && e.record.moduleId ≠ []) j d
  rw [hs] at hu hb hpid
  have hkind := hk.native j d hd hu hb
  have hid : d.record.moduleId ≠ [] := hb
  have hpid : d.record.pid = current.tgid := hpid
  unfold exitIf
  simp [hpid, hkind, hid]

theorem slotFor_zygote (hkind : args.kind = .zygote)
    (h : (findZygote t args.target.bytes args.abi).or (pickSlot t none) = some i) :
    SlotFor args current t i := by
  cases hf : findZygote t args.target.bytes args.abi with
  | some j =>
    rw [hf, Option.some_or] at h
    obtain rfl := Option.some.inj h
    obtain ⟨e, he, hp⟩ := Keyed.first_some hf
    obtain ⟨hu, hk, ha, hb, ht⟩ := of_decide_eq_true hp
    exact .inl ⟨e, he, hu, hb, hk.trans hkind.symm, by rw [hkind]; exact ⟨ht, ha⟩⟩
  | none =>
    rw [hf, Option.none_or] at h
    refine .inr ⟨fun j e he hu hown => ?_, h⟩
    have hp := of_decide_eq_false (Keyed.first_none hf he)
    unfold OwnKey at hown
    simp only [hkind] at hown
    exact hp ⟨hu, hown.2.1, hown.2.2.2, hown.1, hown.2.2.1⟩

theorem slotFor_native (hlen : t.entries.length = recordMax) (hkind : args.kind = .native)
    (h : (findNativePid t current.tgid).or (pickSlot (exitModules current.tgid t) none) = some i) :
    SlotFor args current (exitModules current.tgid t) i := by
  cases hf : findNativePid t current.tgid with
  | some j =>
    rw [hf, Option.some_or] at h
    obtain rfl := Option.some.inj h
    obtain ⟨e, he, hp⟩ := Keyed.first_some hf
    obtain ⟨hpid, hk, hb⟩ := of_decide_eq_true hp
    refine .inl ⟨_, by rw [exitModules, exitEach_at hlen, he]; rfl, ?_⟩
    obtain ⟨s, hs⟩ := exitIf_eq (fun _ e => e.record.pid = current.tgid &&
      e.record.kind = .native && e.record.moduleId ≠ []) j e
    rw [hs]
    refine ⟨?_, hb, hk.trans hkind.symm, by rw [hkind]; exact hpid⟩
    exact fun h0 => current.tgid_ne (hpid.symm.trans h0)
  | none =>
    rw [hf, Option.none_or] at h
    refine .inr ⟨fun j e he hu hown => ?_, h⟩
    obtain ⟨d, hd, rfl⟩ := of_exitEach_at hlen he
    obtain ⟨s, hs⟩ := exitIf_eq (fun _ e => e.record.pid = current.tgid &&
      e.record.kind = .native && e.record.moduleId ≠ []) j d
    rw [hs] at hown
    have hp := of_decide_eq_false (Keyed.first_none hf hd)
    unfold OwnKey at hown
    simp only [hkind] at hown
    exact hp ⟨hown.2.2, hown.2.1, hown.1⟩

/-- **Beginning an injection** is a run of changes. -/
theorem steps_begin (hk : WellKeyed t) (seen : Nat → Tasks) :
    Steps (GivesUp args current) (fun i pid start => taskAlive (seen i) pid start = false) t
      (begin args current seen t).2 := by
  have h1 : Steps (GivesUp args current)
      (fun i pid start => taskAlive (seen i) pid start = false) t (refreshExited seen t) :=
    steps_refresh (fun _ _ _ h => h) t
  have hk1 := hk.steps h1
  unfold begin
  cases hkind : args.kind with
  | zygote =>
    simp only
    split
    · simpa only using h1
    · rename_i slot hslot
      obtain ⟨old, ho, hw⟩ := write_newEntry hk1 (slotFor_zygote hkind hslot)
        (fun h => by rw [hkind] at h; cases h)
      exact h1.tail (.write ho hw)
  | native =>
    simp only
    have h2 : Steps (GivesUp args current)
        (fun i pid start => taskAlive (seen i) pid start = false) t
        (exitModules current.tgid (refreshExited seen t)) := by
      refine h1.trans (steps_exitEach (fun i e ht => ?_) _)
      simp only [Bool.and_eq_true, decide_eq_true_eq] at ht
      exact .inr (.inr ⟨ht.2, hkind, ht.1.1⟩)
    split
    · simpa only using h2
    · rename_i slot hslot
      obtain ⟨old, ho, hw⟩ := write_newEntry (hk.steps h2) (slotFor_native hk1.length hkind hslot)
        (fun _ => exitModules_exited hk1.length hk1)
      exact h2.tail (.write ho hw)

end Begin

/-! ## 6. Reports -/

/-- The module of a report gets a slot that no other module of the process has. -/
theorem write_moduleEntry {base : Entry} {baseSlot pid : Nat} {moduleId : List UInt8}
    (hk : WellKeyed t) (hbase : t.entries[baseSlot]? = some base) (hb : base.Base)
    (hpid : base.record.pid = pid) (hne : pid ≠ 0) (hid : moduleId ≠ [])
    (hshort : moduleId.length < nativeModuleIdMax) (hkind : base.record.kind = .native)
    (h : (findModule t pid moduleId).or (pickSlot t (some baseSlot)) = some i)
    (ho : t.entries[i]? = some old) :
    Write (fun _ => False) t i old (moduleEntry base moduleId) := by
  have hmod : ¬ (moduleEntry base moduleId).Base := hid
  have hcopy : ∃ (j : Nat) (b : Entry), t.entries[j]? = some b ∧ b.Used ∧ b.Base ∧
      moduleEntry base moduleId = moduleEntry b (moduleEntry base moduleId).record.moduleId :=
    ⟨baseSlot, base, hbase, fun h0 => hne (hpid.symm.trans h0), hb, rfl⟩
  -- A used slot that clashes with the new record is found by `findModule`.
  have hclash : ∀ (j : Nat) (e : Entry), t.entries[j]? = some e →
      Clash (moduleEntry base moduleId) e →
      ¬ e.Base ∧ e.record.pid = pid ∧ e.record.kind = .native ∧ e.record.moduleId = moduleId := by
    intro j e he hc
    obtain ⟨-, hu, ⟨hb, -⟩ | ⟨hb, -⟩ | ⟨-, hb, hp, hm⟩⟩ := hc
    · exact absurd hb hmod
    · exact absurd hb hmod
    · exact ⟨hb, hp.symm.trans hpid, hk.native j e he hu hb, hm.symm⟩
  cases hf : findModule t pid moduleId with
  | some j =>
    rw [hf, Option.some_or] at h
    obtain rfl := Option.some.inj h
    obtain ⟨d, hd, hp⟩ := Keyed.first_some hf
    obtain rfl := Option.some.inj (hd.symm.trans ho)
    obtain ⟨hdp, hdk, hdm⟩ := of_decide_eq_true hp
    have hdb : ¬ d.Base := fun hb => hid (hdm.symm.trans hb)
    refine ⟨.inr (.inr (.inl hdb)), fun hb => absurd hb hmod, fun _ => hkind, ?_, fun _ => hcopy,
      fun hb => absurd hb hmod, hshort⟩
    intro k e he hne' hc
    obtain ⟨heb, hep, -, hem⟩ := hclash k e he hc
    refine hk.apart j k d e hd he (Ne.symm hne') ⟨fun h0 => hne (hdp.symm.trans h0), hc.2.1, ?_⟩
    exact .inr (.inr ⟨hdb, heb, hdp.trans hep.symm, hdm.trans hem.symm⟩)
  | none =>
    rw [hf, Option.none_or] at h
    obtain ⟨d, hd, -, hroom⟩ := pickSlot_some h
    obtain rfl := Option.some.inj (hd.symm.trans ho)
    refine ⟨?_, fun hb => absurd hb hmod, fun _ => hkind, ?_, fun _ => hcopy,
      fun hb => absurd hb hmod, hshort⟩
    · rcases hroom with h | h | h
      · exact .inl h
      · exact .inr (.inl h)
      · exact .inr (.inr (.inl h))
    · intro k e he _ hc
      obtain ⟨-, hep, hek, hem⟩ := hclash k e he hc
      exact of_decide_eq_false (Keyed.first_none hf he) ⟨hep, hek, hem⟩

/-- What `find_base` finds. -/
theorem findBase_some {pid start generation : Nat} {kind : Kind}
    (h : findBase t pid start kind generation = some i) :
    ∃ e, t.entries[i]? = some e ∧ e.record.pid = pid ∧ e.startBoottime = start ∧
      e.record.kind = kind ∧ e.record.generation = generation ∧ e.Base ∧
      e.record.state ≠ .exited := by
  obtain ⟨e, he, hp⟩ := Keyed.first_some h
  obtain ⟨h1, h2, h3, h4, h5, h6⟩ := of_decide_eq_true hp
  exact ⟨e, he, h1, h2, h3, h4, h5, h6⟩

/-- A look of the report found the task dead. -/
def Looks.Dead (looks : Looks) (i pid start : Nat) : Prop :=
  taskAlive (looks.seen i) pid start = false ∨ taskAlive looks.again pid start = false

/-- What a report does once it has found its base record. -/
theorem steps_reportBase {base : Entry} {looks : Looks} {kind : Kind} {pid : Nat}
    {moduleId : List UInt8} (hk : WellKeyed t) (hb : t.entries[i]? = some base)
    (hbase : base.Base) (hpid : base.record.pid = pid) (hne : pid ≠ 0)
    (hkind : base.record.kind = kind) (hid : kind = .native → moduleId ≠ [])
    (hshort : moduleId.length < nativeModuleIdMax) :
    Steps (fun _ => False) looks.Dead t
      (reportBase kind pid moduleId looks.again i base t).2 := by
  unfold reportBase
  split_ifs with hdead hstate
  · refine steps_setState .exited ?_
    intro e he
    obtain rfl := Option.some.inj (hb.symm.trans he)
    exact ⟨fun _ => .inl (.inr (by simpa using hdead)), fun _ => rfl⟩
  · exact .refl
  · have h1 : Steps (fun _ => False) looks.Dead t (setStateLocked i .injected t) := by
      refine steps_setState .injected ?_
      intro e he
      obtain rfl := Option.some.inj (hb.symm.trans he)
      exact ⟨fun h => absurd h (by decide), fun h => absurd hbase h⟩
    have hinj : (setStateLocked i .injected t).entries[i]? = some (base.withState .injected) := by
      rw [setStateLocked_at, if_pos rfl, hb]
      rfl
    cases kind with
    | zygote => exact h1
    | native =>
      simp only
      unfold storeModule
      split
      · exact h1
      · rename_i slot hslot
        split
        · exact h1
        · rename_i module hm
          split_ifs
          · refine h1.tail (.write hm ?_)
            exact write_moduleEntry (hk.steps h1) hinj hbase hpid hne (hid rfl) hshort hkind hslot
              hm
          · exact h1

/-- **A report** is a run of changes. -/
theorem steps_report (hk : WellKeyed t) (r : Report) (looks : Looks) :
    Steps (fun _ => False) looks.Dead t (reportRuntime r looks t).2 := by
  have h1 : Steps (fun _ => False) looks.Dead t (refreshExited looks.seen t) :=
    steps_refresh (fun _ _ _ h => .inl h) t
  unfold reportRuntime
  split
  · exact .refl
  · rename_i kind _
    simp only
    split_ifs with hzero hid
    · exact .refl
    · exact .refl
    · split
      · exact .refl
      · unfold reportLocked
        simp only
        split
        · simpa only using h1
        · rename_i baseSlot hfind
          obtain ⟨base, hb, hpid, -, hkind, -, hbase, -⟩ := findBase_some hfind
          rw [hb]
          refine h1.trans (steps_reportBase (hk.steps h1) hb hbase hpid (fun h => hzero (.inl h))
            hkind (fun hn hnil => hid ⟨hn, hnil⟩) ?_)
          simp only [zpCopyName, List.length_take]
          unfold nativeModuleIdMax
          omega

/-! ## 7. Runs -/

/-- The base records that an operation may overwrite although they have not exited. -/
def Act.Own : Act → Entry → Prop
  | .begin args current _ => OwnKey args current
  | _ => fun _ => False

/-- The records that an operation may give up although they have not exited. -/
def Act.GivesUp : Act → Entry → Prop
  | .begin args current _ => Runtime.GivesUp args current
  | _ => fun _ => False

theorem own_of_givesUp {a : Act} (hb : e.Base) (h : a.GivesUp e) : a.Own e := by
  cases a with
  | begin args current seen =>
    rcases h with h | ⟨h, -⟩
    · exact h
    · exact absurd hb h
  | setState pid generation s => exact h
  | getRuntime capacity seen => exact h
  | report r looks => exact h

/-- A look of the operation at the task of slot `i` found it dead. -/
def Act.Dead : Act → Nat → Nat → Nat → Prop
  | .begin _ _ seen => fun i pid start => taskAlive (seen i) pid start = false
  | .getRuntime _ seen => fun i pid start => taskAlive (seen i) pid start = false
  | .report _ looks => looks.Dead
  | .setState _ _ _ => fun _ _ _ => False

/-- **A new state** is a run of changes. -/
theorem steps_setStateAct (pid generation : Nat) (s : State) (t : Table) :
    Steps own (fun _ _ _ => s = .exited) t (setState pid generation s t) := by
  unfold setState
  split_ifs
  · exact .refl
  · split
    · exact .refl
    · rename_i j hj
      obtain ⟨d, hd, hp⟩ := Keyed.first_some hj
      refine steps_setState s fun e he => ⟨fun h => .inl h, fun hb => ?_⟩
      obtain rfl := Option.some.inj (hd.symm.trans he)
      exact absurd (of_decide_eq_true hp).2.2 hb

/-- The looks at the tasks, and `zp_runtime_set_state`, which marks a task as EXITED when it is
called so. -/
def Act.Ends : Act → Nat → Nat → Nat → Prop
  | .setState _ _ s => fun _ _ _ => s = .exited
  | a => a.Dead

/-- Every operation is a run of changes. -/
theorem steps_of_act (hk : WellKeyed t) (a : Act) : Steps a.GivesUp a.Ends t (after t a) := by
  cases a with
  | begin args current seen => exact steps_begin hk seen
  | setState pid generation s => exact steps_setStateAct pid generation s t
  | getRuntime capacity seen =>
    have h1 : Steps (Act.getRuntime capacity seen).GivesUp (Act.getRuntime capacity seen).Ends t
        (refreshExited seen t) := steps_refresh (fun _ _ _ h => h) t
    simp only [after, getRuntime]
    split_ifs
    · exact .refl
    · simpa only using h1
  | report r looks => exact steps_report hk r looks

theorem wellKeyed_empty : WellKeyed Table.empty := by
  refine ⟨by simp [Table.empty], rfl, ?_, ?_, ?_, ?_⟩
  · intro i j a b ha _ _ hclash
    simp only [Table.empty, List.getElem?_replicate] at ha
    split_ifs at ha
    obtain rfl := Option.some.inj ha
    exact hclash.1 rfl
  · intro i e he hu _
    simp only [Table.empty, List.getElem?_replicate] at he
    split_ifs at he
    obtain rfl := Option.some.inj he
    exact absurd rfl hu
  · intro i e he
    simp only [Table.empty, List.getElem?_replicate] at he
    split_ifs at he
    obtain rfl := Option.some.inj he
    decide
  · intro i j e base he _ hu
    simp only [Table.empty, List.getElem?_replicate] at he
    split_ifs at he
    obtain rfl := Option.some.inj he
    exact absurd rfl hu

theorem fresh_empty : Fresh Table.empty := by
  constructor
  · intro i j a b ha _ _ hsame
    simp only [Table.empty, List.getElem?_replicate] at ha
    split_ifs at ha
    obtain rfl := Option.some.inj ha
    exact hsame.1 rfl
  · intro i e he hu _
    simp only [Table.empty, List.getElem?_replicate] at he
    split_ifs at he
    obtain rfl := Option.some.inj he
    exact absurd rfl hu

theorem wellKeyed_invariant : runtime.Invariant Lts.anyStep WellKeyed := by
  constructor
  · rintro t rfl
    exact wellKeyed_empty
  · intro t a t' hk _ hstep
    obtain rfl := Option.some.inj hstep
    exact hk.steps (steps_of_act hk a)

/-- Keys are apart in every state that is reached. -/
theorem wellKeyed_of_reach (hr : runtime.Reach Lts.anyStep t) : WellKeyed t :=
  hr.invariant wellKeyed_invariant

/-- Generations are apart as long as they have not come round. -/
theorem fresh_of_reach (hr : runtime.Reach Lts.anyStep t) (hlt : t.bumps < 2 ^ 32) : Fresh t := by
  have hinv :
      runtime.Invariant Lts.anyStep fun t => WellKeyed t ∧ (t.bumps < 2 ^ 32 → Fresh t) := by
    constructor
    · rintro t rfl
      exact ⟨wellKeyed_empty, fun _ => fresh_empty⟩
    · intro t a t' ⟨hk, hf⟩ _ hstep
      obtain rfl := Option.some.inj hstep
      have hs := steps_of_act hk a
      refine ⟨hk.steps hs, fun hlt => (hf ?_).steps hk hs hlt⟩
      exact Nat.lt_of_le_of_lt (bumps_of_steps hs).1 hlt
  exact (hr.invariant hinv).2 hlt

/-! ## 8. The records are unique -/

/-- What the table promises about its records. -/
structure Unique (t : Table) : Prop where
  generation_ne : ∀ (i : Nat) (e : Entry), t.entries[i]? = some e → e.Used → e.Base →
    e.record.generation ≠ 0
  generations : ∀ (i j : Nat) (a b : Entry), t.entries[i]? = some a → t.entries[j]? = some b →
    a.Used → b.Used → a.Base → b.Base → a.record.generation = b.record.generation → i = j
  natives : ∀ (i j : Nat) (a b : Entry), t.entries[i]? = some a → t.entries[j]? = some b →
    a.Used → b.Used → a.Base → b.Base → a.record.kind = .native → b.record.kind = .native →
    a.record.pid = b.record.pid → i = j
  zygotes : ∀ (i j : Nat) (a b : Entry), t.entries[i]? = some a → t.entries[j]? = some b →
    a.Used → b.Used → a.Base → b.Base → a.record.kind = .zygote → b.record.kind = .zygote →
    a.record.target = b.record.target → a.record.abi = b.record.abi → i = j
  modules : ∀ (i j : Nat) (a b : Entry), t.entries[i]? = some a → t.entries[j]? = some b →
    a.Used → b.Used → ¬ a.Base → ¬ b.Base → a.record.pid = b.record.pid →
    a.record.moduleId = b.record.moduleId → i = j

/-- From keys and generations that are apart the records are unique. -/
theorem unique_of_fresh (hk : WellKeyed t) (hf : Fresh t) : Unique t where
  generation_ne i e he hu hb := Nat.ne_of_gt (hf.bound i e he hu hb).1
  generations i j a b ha hb hua hub hba hbb heq := by
    by_contra hne
    exact hf.apart i j a b ha hb hne ⟨hua, hub, hba, hbb, heq⟩
  natives i j a b ha hb hua hub hba hbb hka hkb heq := by
    by_contra hne
    exact hk.apart i j a b ha hb hne ⟨hua, hub, .inl ⟨hba, hbb, hka, hkb, heq⟩⟩
  zygotes i j a b ha hb hua hub hba hbb hka hkb ht habi := by
    by_contra hne
    exact hk.apart i j a b ha hb hne ⟨hua, hub, .inr (.inl ⟨hba, hbb, hka, hkb, ht, habi⟩)⟩
  modules i j a b ha hb hua hub hba hbb hp hm := by
    by_contra hne
    exact hk.apart i j a b ha hb hne ⟨hua, hub, .inr (.inr ⟨hba, hbb, hp, hm⟩)⟩

/-- The records that a snapshot of full capacity shows. -/
def visible (t : Table) : List Record := (snapshot recordMax t).records

/-- The record of slot `i` is replaced in the step: more than its state changes. -/
def Overwritten (t' : Table) (i : Nat) (e : Entry) : Prop :=
  ∀ s, t'.entries[i]? ≠ some (e.withState s)

/-- `zp_runtime_set_state` replaces no record. -/
theorem not_overwritten_setState (pid generation : Nat) (s : State) (he : t.entries[i]? = some e) :
    ¬ Overwritten (setState pid generation s t) i e := by
  intro hover
  have hself : t.entries[i]? = some (e.withState e.record.state) := he
  unfold setState at hover
  split_ifs at hover
  · exact hover _ hself
  · split at hover
    · exact hover _ hself
    · rename_i j _
      by_cases hji : j = i
      · exact hover s (by rw [setStateLocked_at, if_pos hji, he]; rfl)
      · exact hover _ (by rw [setStateLocked_at, if_neg hji]; exact hself)

/-- A base record that has not exited is overwritten only by a `begin` with its own key, or after
the operation itself found its task dead. -/
theorem overwritten_by (hk : WellKeyed t) (a : Act) (he : t.entries[i]? = some e) (hu : e.Used)
    (hb : e.Base) (hlive : e.record.state ≠ .exited) (hover : Overwritten (after t a) i e) :
    a.Own e ∨ a.Dead i e.record.pid e.startBoottime := by
  have hkept : a.GivesUp e ∨ a.Ends i e.record.pid e.startBoottime := by
    have hown : ∀ s, a.GivesUp (e.withState s) → a.GivesUp e := by
      intro s h
      cases a <;> exact h
    rcases kept_of_steps (steps_of_act hk a) he hu hb hlive hown with h | h | ⟨s, h, -⟩
    · exact .inl h
    · exact .inr h
    · exact absurd h (hover s)
  cases a with
  | setState pid generation s =>
    exact absurd hover (not_overwritten_setState pid generation s he)
  | begin args current seen => exact hkept.imp (own_of_givesUp hb) id
  | getRuntime capacity seen => exact hkept.imp (own_of_givesUp hb) id
  | report r looks => exact hkept.imp (own_of_givesUp hb) id

/-- **The records of the table are unique.**  Of a state that any operations reach, as long as
fewer than 2^32 generations have been taken.  A base record that has not exited is overwritten
only by a `begin` with its own key; a record whose task the operation finds dead has exited
before the operation writes. -/
theorem records_unique (t : Table) (hr : runtime.Reach Lts.anyStep t) (hlt : t.bumps < 2 ^ 32) :
    Unique t ∧ ∀ a t', runtime.step t a = some t' → ∀ (i : Nat) (e : Entry),
      t.entries[i]? = some e → e.Used → e.Base → e.record.state ≠ .exited →
      Overwritten t' i e → a.Own e ∨ a.Dead i e.record.pid e.startBoottime := by
  have hk := wellKeyed_of_reach hr
  refine ⟨unique_of_fresh hk (fresh_of_reach hr hlt), ?_⟩
  intro a t' hstep i e he hu hb hlive hover
  obtain rfl := Option.some.inj hstep
  exact overwritten_by hk a he hu hb hlive hover

/-- The zygote, and a process of the target `svc` that is about to be injected. -/
def zygoteArgs : BeginArgs := ⟨.zygote, 2, 0, 0, ⟨[122], by decide⟩, ⟨[122], by decide⟩⟩
def sampleArgs : BeginArgs := ⟨.native, 2, 1, 0, ⟨[115], by decide⟩, ⟨[115, 118, 99], by decide⟩⟩

/-- Zygote is task 3 and the process is task 7. -/
def sampleTasks : Tasks := fun pid => if pid = 3 then some 1 else if pid = 7 then some 2 else none

/-- Both begin, the process is redirected, and it reports a module. -/
def sampleActs : List Act :=
  [.begin zygoteArgs ⟨3, 1, by decide⟩ fun _ => sampleTasks,
    .begin sampleArgs ⟨7, 2, by decide⟩ fun _ => sampleTasks,
    .setState 7 2 .redirected,
    .report ⟨7, 2, some .native, [109]⟩ ⟨sampleTasks, fun _ => sampleTasks, sampleTasks⟩]

/-- The table after these: a zygote record, a native one and one of a module. -/
def sampleTable : Table := sampleActs.foldl after Table.empty

example : (visible sampleTable).map (fun r => (r.pid, r.kind, r.moduleId)) =
    [(3, .zygote, []), (7, .native, []), (7, .native, [109])] := by decide +kernel

/-- Any operations are a run. -/
theorem reach_foldl (acts : List Act) (hr : runtime.Reach Lts.anyStep t) :
    runtime.Reach Lts.anyStep (acts.foldl after t) := by
  induction acts generalizing t with
  | nil => exact hr
  | cons a acts ih => exact ih (hr.step (a := a) trivial rfl)

theorem reach_sampleTable : runtime.Reach Lts.anyStep sampleTable :=
  reach_foldl sampleActs (.ofInit rfl)

theorem records_unique_sample : Unique sampleTable ∧ ∀ a t', runtime.step sampleTable a = some t' →
    ∀ (i : Nat) (e : Entry), sampleTable.entries[i]? = some e → e.Used → e.Base →
      e.record.state ≠ .exited → Overwritten t' i e →
      a.Own e ∨ a.Dead i e.record.pid e.startBoottime :=
  records_unique sampleTable reach_sampleTable (by decide +kernel)

/-! ## 9. The generation shows every change -/

/-- The table moves on: the generations taken only grow, and while none is taken nothing
changes. -/
def Advances (t t' : Table) : Prop := t.bumps ≤ t'.bumps ∧ (t'.bumps = t.bumps → t' = t)

theorem Advances.trans {u : Table} (h : Advances t u) (h' : Advances u t') : Advances t t' := by
  have := h.1
  have := h'.1
  refine ⟨by omega, ?_⟩
  intro heq
  rw [h'.2 (by omega), h.2 (by omega)]

theorem advances_of_act (hk : WellKeyed t) (a : Act) : Advances t (after t a) :=
  bumps_of_steps (steps_of_act hk a)

theorem advances_of_path (hr : runtime.Reach Lts.anyStep t)
    (hp : runtime.Path Lts.anyStep t t') : Advances t t' := by
  induction hp with
  | refl => exact ⟨Nat.le_refl _, fun _ => rfl⟩
  | tail hp hmove ih =>
    obtain ⟨a, -, hstep⟩ := hmove
    obtain rfl := Option.some.inj hstep
    exact ih.trans (advances_of_act (wellKeyed_of_reach (hr.path hp)) a)

/-- One state update takes at most one generation. -/
theorem bumps_setStateLocked (i : Nat) (s : State) (t : Table) :
    (setStateLocked i s t).bumps ≤ t.bumps + 1 := by
  unfold setStateLocked
  split
  · omega
  · split_ifs <;> simp

/-- One operation takes at most one generation for each slot, twice, and two more. -/
theorem bumps_after (t : Table) (a : Act) : (after t a).bumps ≤ t.bumps + 2 * recordMax + 2 := by
  cases a with
  | begin args current seen =>
    have h1 : (refreshExited seen t).bumps ≤ t.bumps + recordMax := bumps_exitEach _ t
    have h2 : (exitModules current.tgid (refreshExited seen t)).bumps ≤
        (refreshExited seen t).bumps + recordMax := bumps_exitEach _ _
    simp only [after, begin]
    split <;> split <;> simp only [Table.put_bumps] <;> omega
  | setState pid generation s =>
    simp only [after, setState]
    split_ifs
    · omega
    · split
      · omega
      · rename_i j _
        have := bumps_setStateLocked j s t
        omega
  | getRuntime capacity seen =>
    have h1 : (refreshExited seen t).bumps ≤ t.bumps + recordMax := bumps_exitEach _ t
    simp only [after, getRuntime]
    split_ifs
    · simp only; omega
    · simp only; omega
  | report r looks =>
    have h1 : (refreshExited looks.seen t).bumps ≤ t.bumps + recordMax := bumps_exitEach _ t
    have hstore : ∀ (j pid : Nat) (e : Entry) (m : List UInt8) (u : Table),
        (storeModule j e pid m u).2.bumps ≤ u.bumps + 1 := by
      intro j pid e m u
      unfold storeModule
      split
      · simp
      · split
        · simp
        · split_ifs <;> simp
    have hbase : ∀ (kind : Kind) (j pid : Nat) (e : Entry) (m : List UInt8) (again : Tasks)
        (u : Table), (reportBase kind pid m again j e u).2.bumps ≤ u.bumps + 2 := by
      intro kind j pid e m again u
      unfold reportBase
      have he := bumps_setStateLocked j .exited u
      have hi := bumps_setStateLocked j .injected u
      split_ifs
      · simp only; omega
      · simp
      · cases kind with
        | zygote => simp only; omega
        | native =>
          have := hstore j pid (e.withState .injected) m (setStateLocked j .injected u)
          simp only; omega
    simp only [after, reportRuntime]
    split
    · simp only; omega
    · split_ifs
      · simp only; omega
      · simp only; omega
      · split
        · simp only; omega
        · unfold reportLocked
          simp only
          split
          · simp only; omega
          · split
            · simp only; omega
            · exact Nat.le_trans (hbase _ _ _ _ _ _ _) (by omega)

/-- **Two snapshots of one generation agree.**  In one run, with the same capacity, as long as
fewer than 2^32 - 1 generations are taken between them; and an operation that changes a visible
record changes the generation. -/
theorem snapshots_agree (t : Table) (hr : runtime.Reach Lts.anyStep t) :
    (∀ capacity seen seen' s₁ s₂ t' u, getRuntime capacity seen t = (some s₁, t') →
      runtime.Path Lts.anyStep t' u → (getRuntime capacity seen' u).1 = some s₂ →
      (getRuntime capacity seen' u).2.bumps - t'.bumps < 2 ^ 32 - 1 →
      s₁.generation = s₂.generation → s₁ = s₂) ∧
    ∀ a t', runtime.step t a = some t' → visible t' ≠ visible t →
      t'.generation ≠ t.generation := by
  have hk := wellKeyed_of_reach hr
  constructor
  · intro capacity seen seen' s₁ s₂ t' u h₁ hp h₂ hlt hgen
    have hstep : ∀ v, runtime.Reach Lts.anyStep v →
        runtime.Reach Lts.anyStep (getRuntime capacity seen v).2 := fun v hv =>
      hv.step (a := .getRuntime capacity seen) trivial rfl
    have hr' : runtime.Reach Lts.anyStep t' := by
      have := hstep t hr
      rwa [h₁] at this
    have hu := wellKeyed_of_reach (hr'.path hp)
    have hadv : Advances t' (getRuntime capacity seen' u).2 :=
      (advances_of_path hr' hp).trans (advances_of_act hu (.getRuntime capacity seen'))
    have hku : WellKeyed (getRuntime capacity seen' u).2 :=
      hu.steps (steps_of_act hu (.getRuntime capacity seen'))
    have hkt := wellKeyed_of_reach hr'
    unfold getRuntime at h₁ h₂ hlt hadv hku
    by_cases hc : recordMax < capacity
    · simp [hc] at h₁
    · simp only [hc, if_false, Prod.mk.injEq, Option.some.injEq] at h₁ h₂ hlt hadv hku
      obtain ⟨rfl, rfl⟩ := h₁
      obtain rfl := h₂
      simp only [snapshot] at hgen
      rw [hkt.count, hku.count] at hgen
      exact congrArg (snapshot capacity) (hadv.2 (genAt_inj hadv.1 hlt hgen).symm).symm
  · intro a t' hstep hne hgen
    obtain rfl := Option.some.inj hstep
    have hadv := advances_of_act hk a
    have hk' : WellKeyed (after t a) := hk.steps (steps_of_act hk a)
    rw [hk'.count, hk.count] at hgen
    have hb := bumps_after t a
    have hmax : recordMax = 128 := rfl
    have heq := genAt_inj hadv.1 (by omega) hgen.symm
    exact hne (by rw [hadv.2 heq.symm])

theorem snapshots_agree_sample :
    (∀ capacity seen seen' s₁ s₂ t' u, getRuntime capacity seen sampleTable = (some s₁, t') →
      runtime.Path Lts.anyStep t' u → (getRuntime capacity seen' u).1 = some s₂ →
      (getRuntime capacity seen' u).2.bumps - t'.bumps < 2 ^ 32 - 1 →
      s₁.generation = s₂.generation → s₁ = s₂) ∧
    ∀ a t', runtime.step sampleTable a = some t' → visible t' ≠ visible sampleTable →
      t'.generation ≠ sampleTable.generation :=
  snapshots_agree sampleTable reach_sampleTable

end YukiZygisk.Runtime
