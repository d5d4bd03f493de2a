/-
# What the holders of temporary policy guarantee

Properties of every run of `probe`.

* Accounted for (`Accounted`): every reference the table counts belongs to one record that a
  call or a holder has still to hand back.
* Restored once (`RestoredOnce`): every holder's record is handed back once, its memory is freed
  once, and no work is left for freed memory.

Each fails on one kind of run, and each holds on every run that stays out of it.

* An early module is staged with the record of the loader, and its allow zeroes the record
  first.  A restore that fails leaves its references counted, and the record is zeroed all the
  same (`KeepsRecords`).
* A publisher lists its entry under the mutex and schedules the entry's work after it.  Who
  takes the entry off the list in between cancels nothing, and the publisher schedules the work
  of freed memory (`CancelsScheduled`).

The two theorems put together what the modules before them have shown.  For the first, the table
counts no more references than the records claim (`claims_le_names` and `refs_le_names`, from the
run of `tempRuns` that the machine makes), and the records that claim something are each named
once.  For the second, each holder is an object of `Lib/Lifetime.lean` (`life_step`), for which
being handed back and freed once holds in every run, and having no work left in the runs that
schedule before they cancel.  The runs that break the conditions are given as lists of actions and
evaluated.
-/
import YukiZygisk.Feature.ProbeRecords

namespace YukiZygisk.Probe

open Policy Lifetime Tally

/-! ## 1. A probe to run on -/

/-- The module just loaded on the policy of `n` types, with HZ = 100. -/
def demoProbe (n : Nat) (hn : n < 65536) : ProbeRun :=
  { run := demoRun n hn, holders := [], nativePending := [], moduleHolders := []
    moduleLocked := false, queued := [], calls := [], jiffies := 0, hz := 100, hooked := true
    controlAvailable := true, probeActive := true, hostActive := true, deactivating := false
    grants := [], permanent := fun _ => 0 }

/-- The probe to run on is one at its start. -/
theorem demoProbe_init (n : Nat) (hn : n < 65536) : probe.init (demoProbe n hn) :=
  ⟨demoRun_init n hn, rfl, rfl, rfl, rfl, rfl, rfl, rfl, rfl, rfl, rfl, fun _ => rfl⟩

/-- Call `i` goes on, and nothing fails. -/
def goOn (i : Nat) : ProbeAct := .run i ⟨true, none, editOk, runtimeOk⟩

/-- Call `i` opens a file of this type. -/
def opens (i type : Nat) : ProbeAct := .run i ⟨true, fileOf type, editOk, runtimeOk⟩

/-- Process 100 execs, and the injection starts in zygote's domain. -/
def injectZygote : List ProbeAct := [.exec ⟨100, false, false⟩, .inject 0 (credOf 1) false 0]

/-- Call `i` injects a payload of the app type, up to the publication of its record. -/
def injected (i : Nat) : List ProbeAct :=
  injectZygote ++ [opens i 4, goOn i, goOn i, goOn i, goOn i]

/-! ## 2. Accounted for -/

section Accounted

variable [AvtabFns]

/-- Every reference the table counts has one owner among the records of the calls in progress
and of the holders not handed back yet, no record owns more references than it claims, and no
two of them are the same record. -/
structure Accounted (s : ProbeRun) : Prop where
  owned : ∀ k b, ∃ owner : Fin (s.run.temp.rules.refs k b) → Fin s.names.length,
    ∀ j, Fintype.card {r // owner r = j} ≤ (s.run.value s.names[j]).claims k b
  unshared : ∀ i, s.names.count (some i) ≤ 1

/-- **Every reference is accounted for** in every run whose steps meet `P`. -/
def AccountsForAll (P : ProbeRun → ProbeAct → Prop) : Prop :=
  ∀ s, probe.Reach P s → Accounted s

/-- **Every reference is accounted for in a run that keeps its records.** -/
theorem accountsForAll_of_keepsRecords : AccountsForAll KeepsRecords := by
  intro s hr
  refine ⟨?_, fun i => (unshared_of_reach hr i).1⟩
  intro k b
  have hall := remembered_of_reach (fun _ _ hP => hP) hr
  exact exists_owner (refs_le_names hr hall k b)

/-- A counted reference that no record claims has no owner. -/
theorem Accounted.claimed {s : ProbeRun} (h : Accounted s) {k : PolicyKey} {b : Fin 32}
    (hpos : 0 < s.run.temp.rules.refs k b) :
    ∃ name ∈ s.names, 0 < (s.run.value name).claims k b := by
  obtain ⟨owner, hcard⟩ := h.owned k b
  refine ⟨_, List.getElem_mem (owner ⟨0, hpos⟩).2, lt_of_lt_of_le ?_ (hcard (owner ⟨0, hpos⟩))⟩
  exact Fintype.card_pos_iff.mpr ⟨⟨0, hpos⟩, rfl⟩

end Accounted

/-- A pending entry of an injection and the record of a module request share a permission. -/
theorem accountsForAll_twoRecords : ∃ s, probe.Reach KeepsRecords s ∧
    s.run.temp.rules.refs ⟨1, 4, 1⟩ 0 = 2 ∧ Accounted s := by
  obtain ⟨s, hr, hs⟩ := Lts.exists_reach_of_guarded (M := probe) (P := KeepsRecords)
    (g := keepsRecords) (fun _ _ => keepsRecords_of_test) (demoProbe_init 4 (by decide))
    (injected 0 ++ [goOn 0, .allowModule 200 (fileOf 4) (some (credOf 1)) true, goOn 1])
    (fun s => decide (s.run.temp.rules.refs ⟨1, 4, 1⟩ 0 = 2)) (by decide +kernel)
  exact ⟨s, hr, of_decide_eq_true hs, accountsForAll_of_keepsRecords s hr⟩

/-- **An early module of another type loses the loader's record.** -/
theorem not_accountsForAll : ¬ AccountsForAll Lts.anyStep := by
  intro h
  have hrun : (probe.exec (demoProbe 4 (by decide))
      [.exec ⟨100, true, true⟩, .inject 0 (credOf 1) false 1, opens 0 4, goOn 0, goOn 0,
        opens 0 2]).any
      (fun s => decide (0 < s.run.temp.rules.refs ⟨1, 4, 1⟩ 0) &&
        s.names.all fun name => decide ((s.run.value name).claims ⟨1, 4, 1⟩ 0 = 0)) = true := by
    decide +kernel
  obtain ⟨s, hr, hp⟩ := Lts.exists_reach_of_exec (demoProbe_init 4 (by decide)) _ _ hrun
  obtain ⟨hpos, hnone⟩ := Bool.and_eq_true_iff.mp hp
  obtain ⟨name, hmem, hclaim⟩ := (h s hr).claimed (of_decide_eq_true hpos)
  have hzero := of_decide_eq_true (List.all_eq_true.mp hnone name hmem)
  omega

/-! ## 3. Restored once -/

section RestoredOnce

variable [AvtabFns]

/-- Holder `h` is dropped once: its record was handed back, or one party has that still ahead;
so was its memory; a pending one has a work that looks after it, and a freed one has none. -/
structure RestoredOnce (s : ProbeRun) (h : Nat) (p : PolicyHolder) : Prop where
  restored : p.pending.toNat + s.ahead h .cancel + s.ahead h .restore +
    s.ahead h .restoreSelf + p.restores = 1
  freed : p.pending.toNat + s.ahead h .cancel + s.ahead h .restore +
    s.ahead h .restoreSelf + s.ahead h .free + s.ahead h .freeSelf + p.frees = 1
  watched : p.pending = true →
    0 < s.ahead h .schedule ∨ (∃ due, p.timeout = .queued due) ∨ 0 < s.ahead h .expire
  no_work : 0 < p.frees → p.timeout = .idle ∧ s.ahead h .schedule = 0

/-- **Exactly-once restore** in every run whose steps meet `P`. -/
def RestoresOnce (P : ProbeRun → ProbeAct → Prop) : Prop :=
  ∀ s, probe.Reach P s → ∀ h p, s.holders[h]? = some p → RestoredOnce s h p

/-- **Every holder is dropped once in a run in which no cancel comes before the schedule.** -/
theorem restoresOnce_of_cancelsScheduled : RestoresOnce CancelsScheduled := by
  intro s hr h p hh
  have hplaced := placed_of_reach hr h
  have hstill := still_of_reach (fun _ _ hP => hP) hr h
  rw [life_of_cell hh] at hplaced hstill
  obtain ⟨hplace, hpend, hrest, -, -, -, harm⟩ := hplaced
  simp only [Bool.toNat_true] at hplace hpend hrest harm
  refine ⟨by omega, by omega, ?_, ?_⟩
  · intro hp
    rw [hp, Bool.toNat_true] at hpend
    exact harm (by omega)
  · intro hf
    refine hstill ?_
    simp only
    omega

end RestoredOnce

/-- An entry that a restore request takes off the list and frees. -/
theorem restoresOnce_request : ∃ s, probe.Reach CancelsScheduled s ∧
    ∃ p, s.holders[0]? = some p ∧ p.frees = 1 ∧ RestoredOnce s 0 p := by
  obtain ⟨s, hr, hs⟩ := Lts.exists_reach_of_guarded (M := probe) (P := CancelsScheduled)
    (g := cancelsScheduled) (fun _ _ => cancelsScheduled_of_test)
    (demoProbe_init 4 (by decide))
    (injected 0 ++ [goOn 0, .restoreRequest 100, goOn 1, goOn 1, goOn 1, goOn 1])
    (fun s => (s.holders[0]?).any fun p : PolicyHolder => decide (p.frees = 1)) (by decide +kernel)
  obtain ⟨p, hp, hfrees⟩ := (Option.any_eq_true _ _).mp hs
  exact ⟨s, hr, p, hp, of_decide_eq_true hfrees, restoresOnce_of_cancelsScheduled s hr 0 p hp⟩

/-- **The work of freed memory is scheduled.**  The restore request takes the entry off the list
and frees it before its publisher schedules the work. -/
theorem not_restoresOnce : ¬ RestoresOnce Lts.anyStep := by
  intro h
  have hrun : (probe.exec (demoProbe 4 (by decide))
      (injected 0 ++ [.restoreRequest 100, goOn 1, goOn 1, goOn 1, goOn 1, goOn 0])).any
      (fun s => (s.holders[0]?).any fun p =>
        decide (0 < p.frees) && decide (p.timeout ≠ .idle)) = true := by
    decide +kernel
  obtain ⟨s, hr, hp⟩ := Lts.exists_reach_of_exec (demoProbe_init 4 (by decide)) _ _ hrun
  obtain ⟨p, hh, hp⟩ := (Option.any_eq_true _ _).mp hp
  rw [Bool.and_eq_true, decide_eq_true_eq, decide_eq_true_eq] at hp
  exact hp.2 ((h s hr 0 p hh).no_work hp.1).1

end YukiZygisk.Probe
