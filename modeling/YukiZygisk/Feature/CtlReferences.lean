/-
# Where the references of a handoff go

A reference that a handoff takes is held by one slot until it is installed or dropped, and it is
installed or dropped once.  `Accounted` counts one reference through every step.

Only the end of the module can break the count.  It loads and drops the files of a slot one by
one without the lock, and forgets the slot when it is through.  A delivery or a release after the
first load takes the same files out once more: `not_accounts`, where the delivery falls between
the load of a file and its drop.  In a run where nobody clears the slot from that load until the
end of the module leaves it, every reference is accounted for: `accounts_of_exitAlone`.

References are numbered as they are taken, so that two references to one file are two.  `Accounted`
compares, for each of them, what was taken with where it is now: in a slot, loaded by the end of the
module, installed, or dropped.  A step that moves references from a slot to somewhere else changes
one slot and the logs (`Accounted.out`), and the rest is arithmetic on counts.  While the end of the
module is inside a slot, the references it has dropped are still in the slot (`leaving`), and the
one it has loaded is on its way (`exitFile`), so the count is exact there too; only somebody who
clears that slot would count them twice.
-/
import YukiZygisk.Feature.CtlHandoff

namespace YukiZygisk.Ctl

open Orch Tally HandoffRun

/-! ## 1. The count of one reference -/

namespace HandoffRun

/-- What the slots hold. -/
def held (s : HandoffRun) : List FileRef := s.pending.flatMap (·.files)

/-- What the end of the module has dropped and not yet taken off its slot. -/
def leaving (s : HandoffRun) : List FileRef :=
  match s.exitAt with
  | some (i, j) => (s.pending[i]?.elim [] (·.files)).take j
  | none => []

/-- The end of the module is inside slot `i`: it has loaded a file of it, or dropped one. -/
def Inside (s : HandoffRun) (i : Nat) : Prop :=
  ∃ j, s.exitAt = some (i, j) ∧ (j ≠ 0 ∨ s.exitFile.isSome)

/-- The end of the module is not inside a slot. -/
def Between (s : HandoffRun) : Prop := ∀ i, ¬ s.Inside i

/-- The slot that an action clears. -/
def clears (s : HandoffRun) : HandoffAct → Option Nat
  | .deliver t _ => s.tasks[t]?.bind (·.running)
  | .free t => s.releases t
  | _ => none

/-- Every reference taken is held, installed or dropped, once in all; and a file that the end of
the module has loaded is still in its slot. -/
structure Accounted (s : HandoffRun) : Prop where
  distinct : s.taken.map (·.id) = List.range s.taken.length
  loaded : ∀ file, s.exitFile = some file →
    ∃ i j p, s.exitAt = some (i, j) ∧ s.pending[i]? = some p ∧ p.files[j]? = some file
  counted : ∀ r, s.held.count r + (s.installed.map (·.2)).count r + s.dropped.count r =
    s.taken.count r + s.leaving.count r

variable {s s' : HandoffRun} {r : FileRef} {i : Nat} {p p' : YzPending}

theorem count_held (s : HandoffRun) (r : FileRef) :
    s.held.count r = tally (fun p => p.files.count r) s.pending := by
  rw [held, List.count_flatMap]
  rfl

/-- One slot gets other files. -/
theorem count_held_set (hp : s.pending[i]? = some p) (h : s'.pending = s.pending.set i p') :
    s'.held.count r + p.files.count r = s.held.count r + p'.files.count r := by
  rw [count_held, count_held, h]
  exact tally_set (fun p => p.files.count r) hp p'

/-- The end of the module is about to start on a slot. -/
theorem between_of_zero (hexit : s.exitAt = some (i, 0)) (hnone : s.exitFile = none) :
    s.Between := by
  rintro k ⟨j, hij, hne | hload⟩
  · rw [hexit] at hij
    obtain ⟨-, rfl⟩ := Prod.mk.inj (Option.some.inj hij)
    exact hne rfl
  · rw [hnone] at hload
    cases hload

theorem leaving_between (h : s.Between) : s.leaving = [] := by
  unfold leaving
  split
  · rename_i i j hexit
    have hj : j = 0 := by
      by_contra hne
      exact h i ⟨j, hexit, .inl hne⟩
    rw [hj, List.take_zero]
  · rfl

/-- What is leaving stays when another slot gets other files. -/
theorem leaving_set (hexit : s'.exitAt = s.exitAt) (h : s'.pending = s.pending.set i p')
    (hne : ¬ s.Inside i) : s'.leaving = s.leaving := by
  unfold leaving
  rw [hexit, h]
  split
  · rename_i k j hk
    cases j with
    | zero => rw [List.take_zero, List.take_zero]
    | succ j =>
      have hik : i ≠ k := by
        rintro rfl
        exact hne ⟨j + 1, hk, .inl j.succ_ne_zero⟩
      rw [List.getElem?_set_ne hik]
  · rfl

/-- The loaded file stays in its slot when another slot gets other files. -/
theorem Accounted.loaded_set (h : s.Accounted) (hpending : s'.pending = s.pending.set i p')
    (hexit : s'.exitAt = s.exitAt) (hexitFile : s'.exitFile = s.exitFile) (hne : ¬ s.Inside i) :
    ∀ file, s'.exitFile = some file →
      ∃ k j p, s'.exitAt = some (k, j) ∧ s'.pending[k]? = some p ∧ p.files[j]? = some file := by
  intro file hfile
  rw [hexitFile] at hfile
  obtain ⟨k, j, p, hk, hp, hpj⟩ := h.loaded file hfile
  refine ⟨k, j, p, hexit ▸ hk, ?_, hpj⟩
  have hik : i ≠ k := by
    rintro rfl
    exact hne ⟨j, hk, .inr (hfile ▸ rfl)⟩
  rw [hpending, List.getElem?_set_ne hik]
  exact hp

/-- Files go from a slot to where they are counted next. -/
theorem Accounted.out (h : s.Accounted) (hp : s.pending[i]? = some p)
    (hpending : s'.pending = s.pending.set i p') (hfiles : p'.files = [])
    (hexit : s'.exitAt = s.exitAt) (hexitFile : s'.exitFile = s.exitFile)
    (hne : ¬ s.Inside i) (htaken : s'.taken = s.taken)
    (hout : ∀ r, (s'.installed.map (·.2)).count r + s'.dropped.count r =
      (s.installed.map (·.2)).count r + s.dropped.count r + p.files.count r) : s'.Accounted := by
  refine ⟨htaken ▸ h.distinct, h.loaded_set hpending hexit hexitFile hne, ?_⟩
  intro r
  have hheld := count_held_set (r := r) hp hpending
  have hcount := h.counted r
  rw [hfiles, List.count_nil] at hheld
  rw [leaving_set hexit hpending hne, htaken]
  have := hout r
  omega

/-- Steps that move no file. -/
theorem Accounted.congr (h : s.Accounted) (hpending : s'.pending = s.pending)
    (hexit : s'.exitAt = s.exitAt) (hexitFile : s'.exitFile = s.exitFile)
    (htaken : s'.taken = s.taken) (hinstalled : s'.installed = s.installed)
    (hdropped : s'.dropped = s.dropped) : s'.Accounted := by
  refine ⟨htaken ▸ h.distinct, ?_, ?_⟩
  · rw [hpending, hexit, hexitFile]
    exact h.loaded
  intro r
  have hcount := h.counted r
  simp only [held, leaving] at hcount ⊢
  rwa [hpending, hexit, htaken, hinstalled, hdropped]

/-! ## 2. Each step -/

/-- The references of a handoff are numbered behind those that were taken. -/
theorem takes_ids (s : HandoffRun) (cmd : YzHandoffCmd) (fget : Int → Bool) :
    (s.takes cmd fget).map (·.id) =
      (List.range (s.takes cmd fget).length).map (s.taken.length + ·) := by
  simp only [takes, List.map_map, List.length_map, List.length_range]
  rfl

/-- The references of a handoff are new. -/
theorem distinct_takes (h : s.Accounted) (cmd : YzHandoffCmd) (fget : Int → Bool) :
    (s.taken ++ s.takes cmd fget).map (·.id) =
      List.range (s.taken ++ s.takes cmd fget).length := by
  rw [List.map_append, h.distinct, takes_ids, List.length_append, List.range_add]

/-- A handoff holds what it takes, or drops it. -/
theorem handoff_accounted (h : s.Accounted) (hexit : s.exitAt = none) (cmd : YzHandoffCmd)
    (fget : Int → Bool) (task : Option Nat) :
    (s.yzZygoteCtlHandoff cmd fget task).1.Accounted := by
  have hbetween : s.Between := by
    rintro i ⟨j, hij, -⟩
    rw [hexit] at hij
    cases hij
  rcases s.handoff_cases cmd fget task with heq | ⟨files, hfiles, heq⟩ |
    ⟨i, files, hfiles, -, hslot, heq⟩
  · rwa [heq]
  · rw [heq, hfiles]
    refine ⟨distinct_takes h cmd fget, h.loaded, ?_⟩
    intro r
    have hcount := h.counted r
    change s.held.count r + (s.installed.map (·.2)).count r + (s.dropped ++ _).count r =
      (s.taken ++ _).count r + s.leaving.count r
    rw [List.count_append, List.count_append]
    omega
  · obtain ⟨p, hp, -⟩ := slotFor_some hslot
    have hplaced : ∃ p' : YzPending, p'.files = files ∧
        (s.yzZygoteCtlHandoff cmd fget task).1.pending = s.pending.set i p' ∧
        (s.yzZygoteCtlHandoff cmd fget task).1.exitAt = s.exitAt ∧
        (s.yzZygoteCtlHandoff cmd fget task).1.exitFile = s.exitFile ∧
        (s.yzZygoteCtlHandoff cmd fget task).1.taken = s.taken ++ files ∧
        (s.yzZygoteCtlHandoff cmd fget task).1.installed = s.installed ∧
        (s.yzZygoteCtlHandoff cmd fget task).1.dropped = s.dropped ++ p.files := by
      rw [heq]
      obtain ⟨p', -, hf, hcase⟩ := place_cases
        (s := { s with taken := s.taken ++ files }) cmd files task hp
      refine ⟨p', hf, ?_⟩
      rcases hcase with ⟨hplace, -, -⟩ | ⟨t, x, -, -, -, -, hplace⟩ <;> rw [hplace] <;>
        exact ⟨rfl, rfl, rfl, rfl, rfl, rfl⟩
    obtain ⟨p', hf, hpending, hexit', hexitFile, htaken, hinstalled, hdropped⟩ := hplaced
    refine ⟨?_, h.loaded_set hpending hexit' hexitFile (hbetween i), ?_⟩
    · rw [htaken, hfiles]
      exact distinct_takes h cmd fget
    · intro r
      have hheld := count_held_set (r := r) hp hpending
      have hcount := h.counted r
      rw [leaving_set hexit' hpending (hbetween i), htaken, hinstalled, hdropped, List.count_append,
        List.count_append]
      rw [hf] at hheld
      omega

/-- Every file of a delivery is installed or dropped. -/
theorem deliver_out (t : Nat) (task : Task) (i : Nat) (p : YzPending) (room : FileRef → Bool)
    (r : FileRef) : ((s.yzDeliverCb t task i p room).installed.map (·.2)).count r +
        (s.yzDeliverCb t task i p room).dropped.count r =
      (s.installed.map (·.2)).count r + s.dropped.count r + p.files.count r := by
  cases hexiting : task.exiting with
  | true =>
    simp only [yzDeliverCb, hexiting, if_true, List.count_append]
    omega
  | false =>
    have hsnd : ((p.files.filter room).map (t, ·)).map (·.2) = p.files.filter room := by
      rw [List.map_map]
      exact List.map_id _
    have hsplit := (List.filter_append_perm room p.files).count_eq r
    rw [List.count_append] at hsplit
    simp only [yzDeliverCb, hexiting, Bool.false_eq_true, if_false, List.map_append, hsnd,
      List.count_append]
    omega

end HandoffRun

/-- **No slot is cleared while the end of the module is inside it**, from its load of the first
file on. -/
def ExitAlone (s : HandoffRun) (a : HandoffAct) : Prop :=
  ∀ i, s.Inside i → s.clears a ≠ some i

/-- The count, over runs that leave the end of the module alone in its slot. -/
theorem accounted_invariant : handoffLts.Invariant ExitAlone Accounted where
  init s hi := by
    obtain rfl : s = handoffInit := hi
    refine ⟨rfl, nofun, ?_⟩
    intro r
    have hempty : handoffInit.held = [] := by decide
    rw [hempty]
    rfl
  step s a s' h hP hs := by
    cases steps_of_step hs with
    | spawn => exact h.congr rfl rfl rfl rfl rfl rfl
    | handoff cmd fget task hexit => exact handoff_accounted h hexit cmd fget task
    | run => exact h.congr rfl rfl rfl rfl rfl rfl
    | deliver t room task i p ht hi hp =>
      have hfields : (s.yzDeliverCb t task i p room).pending = s.pending.set i .zero ∧
          (s.yzDeliverCb t task i p room).exitAt = s.exitAt ∧
          (s.yzDeliverCb t task i p room).exitFile = s.exitFile ∧
          (s.yzDeliverCb t task i p room).taken = s.taken := by
        unfold yzDeliverCb
        split_ifs <;> exact ⟨rfl, rfl, rfl, rfl⟩
      obtain ⟨hpending, hexit, hexitFile, htaken⟩ := hfields
      refine h.out hp hpending rfl hexit hexitFile (fun hin => hP i hin ?_) htaken
        (deliver_out t task i p room)
      simp only [clears, ht, Option.bind_some, hi]
    | later => exact h.congr rfl rfl rfl rfl rfl rfl
    | free t task ht hfreed =>
      rcases zoOnFree_cases ht with ⟨heq, -⟩ | ⟨i, p, hrel, hp, -, heq⟩
      · rw [heq]
        exact h.congr rfl rfl rfl rfl rfl rfl
      · rw [heq]
        refine h.out hp rfl rfl rfl rfl (fun hin => hP i hin hrel) rfl ?_
        intro r
        change (s.installed.map (·.2)).count r + (s.dropped ++ p.files).count r = _
        rw [List.count_append, Nat.add_assoc]
    | ctlExit hexit =>
      refine ⟨h.distinct, fun file hfile => ?_, ?_⟩
      · obtain ⟨i, j, p, hij, -⟩ := h.loaded file hfile
        rw [hexit] at hij
        cases hij
      intro r
      have hcount := h.counted r
      have hout : s.leaving = [] := by
        unfold leaving
        rw [hexit]
      rw [hout] at hcount
      exact hcount
    | load i j p file hexit hnone hp hfile =>
      refine ⟨h.distinct, ?_, h.counted⟩
      intro f hf
      obtain rfl := Option.some.inj hf
      exact ⟨i, j, p, hexit, hp, hfile⟩
    | drop i j file hexit hload =>
      refine ⟨h.distinct, nofun, ?_⟩
      intro r
      have hcount := h.counted r
      obtain ⟨i', j', p, hexit', hp, hfile⟩ := h.loaded file hload
      obtain ⟨rfl, rfl⟩ := Prod.mk.inj (Option.some.inj (hexit.symm.trans hexit'))
      have hout : s.leaving = p.files.take j := by
        simp only [leaving, hexit, hp, Option.elim_some]
      have hout' : p.files.take (j + 1) = p.files.take j ++ [file] := by
        rw [List.take_add_one, hfile]
        rfl
      change s.held.count r + (s.installed.map (·.2)).count r + (s.dropped ++ [file]).count r =
        s.taken.count r + ((s.pending[i]?.elim [] (·.files)).take (j + 1)).count r
      rw [hp, Option.elim_some, hout', List.count_append, List.count_append]
      rw [hout] at hcount
      omega
    | leave i j p hexit hnone hp hfile =>
      refine ⟨h.distinct, fun file hload => absurd (hnone.symm.trans hload) nofun, ?_⟩
      intro r
      have hcount := h.counted r
      have hout : s.leaving = p.files := by
        simp only [leaving, hexit, hp, Option.elim_some]
        exact List.take_of_length_le hfile
      have hpending : { s with
          pending := s.pending.set i { p with files := [], pid := 0 }
          exitAt := some (i + 1, 0) }.pending =
            s.pending.set i { p with files := [], pid := 0 } := rfl
      have hheld := count_held_set (r := r) hp hpending
      rw [List.count_nil] at hheld
      rw [hout] at hcount
      rw [leaving_between (s := { s with
          pending := s.pending.set i { p with files := [], pid := 0 }
          exitAt := some (i + 1, 0) }) (between_of_zero rfl hnone), List.count_nil]
      change _ + (s.installed.map (·.2)).count r + s.dropped.count r = s.taken.count r + 0
      omega

/-! ## 3. Every run -/

/-- **Every reference is accounted for.**  When the end of the module is not inside a slot, the
references that handoffs took are those held by slots, those installed and those dropped, each
of them in one place and once. -/
def Accounts (P : HandoffRun → HandoffAct → Prop) : Prop :=
  ∀ s, handoffLts.Reach P s → s.Between →
    s.taken.Nodup ∧ (s.held ++ s.installed.map (·.2) ++ s.dropped).Perm s.taken

/-- **Every reference is accounted for**, in every run in which no slot is cleared while the end of
the module is inside of it. -/
theorem accounts_of_exitAlone {P : HandoffRun → HandoffAct → Prop}
    (hP : ∀ s a, P s a → ExitAlone s a) : Accounts P := by
  intro s hr hbetween
  have h := (hr.mono hP).invariant accounted_invariant
  refine ⟨List.Nodup.of_map (·.id) (h.distinct ▸ List.nodup_range), ?_⟩
  rw [List.perm_iff_count]
  intro r
  have hcount := h.counted r
  rw [leaving_between hbetween, List.count_nil] at hcount
  rw [List.count_append, List.count_append]
  exact hcount

/-- A test of the guard. -/
def exitAlone (s : HandoffRun) (a : HandoffAct) : Bool :=
  match s.exitAt with
  | some (i, j) => (j == 0 && s.exitFile.isNone) || s.clears a ≠ some i
  | none => true

/-- One file is installed, and the end of the module drops another one. -/
theorem accounts_sample : ∃ s, handoffLts.Reach ExitAlone s ∧ s.installed.length = 1 ∧
    s.dropped.length = 1 ∧ s.taken.Nodup ∧
    (s.held ++ s.installed.map (·.2) ++ s.dropped).Perm s.taken := by
  have hall : Accounts ExitAlone := accounts_of_exitAlone fun _ _ => id
  have hguard : ∀ s a, exitAlone s a = true → ExitAlone s a := by
    rintro s a h i ⟨j, hexit, hin⟩ hclears
    simp only [exitAlone, hexit, hclears, ne_eq, not_true_eq_false, decide_false, Bool.or_false,
      Bool.and_eq_true, beq_iff_eq, Option.isNone_iff_eq_none] at h
    rcases hin with hne | hload
    · exact hne h.1
    · rw [h.2] at hload
      cases hload
  have hrun : ((handoffLts.restrict exitAlone).exec handoffInit
      [.spawn 7 true true, .handoff ⟨7, 10001, 0, [3]⟩ (fun _ => true) (some 0), .run 0,
        .deliver 0 fun _ => true, .handoff ⟨7, 10001, 0, [4]⟩ (fun _ => true) (some 0), .ctlExit,
        .ctlExitStep, .ctlExitStep, .ctlExitStep]).any
      (fun s => decide (s.exitAt = some (1, 0) ∧ s.exitFile = none ∧ s.installed.length = 1 ∧
        s.dropped.length = 1)) = true := by
    decide +kernel
  obtain ⟨s, hr, hp⟩ := Lts.exists_reach_of_guarded (M := handoffLts) hguard rfl _ _ hrun
  obtain ⟨hexit, hnone, hinstalled, hdropped⟩ := of_decide_eq_true hp
  exact ⟨s, hr, hinstalled, hdropped, hall s hr (HandoffRun.between_of_zero hexit hnone)⟩

/-- **The end of the module drops what a delivery installs.**  It has loaded the only file of
slot 0 when the target takes it. -/
theorem not_accounts : ¬ Accounts Lts.anyStep := by
  intro h
  have hrun : (handoffLts.exec handoffInit
      [.spawn 7 true true, .handoff ⟨7, 10001, 0, [3]⟩ (fun _ => true) (some 0), .run 0, .ctlExit,
        .ctlExitStep, .deliver 0 fun _ => true, .ctlExitStep, .ctlExitStep]).any
      (fun s => decide (s.exitAt = some (1, 0) ∧ s.exitFile = none ∧ s.taken.length = 1 ∧
        s.installed.length = 1 ∧ s.dropped.length = 1)) = true := by
    decide +kernel
  obtain ⟨s, hr, hp⟩ := Lts.exists_reach_of_exec (M := handoffLts) rfl _ _ hrun
  obtain ⟨hexit, hnone, htaken, hinstalled, hdropped⟩ := of_decide_eq_true hp
  have hlen := (h s hr (HandoffRun.between_of_zero hexit hnone)).2.length_eq
  rw [List.length_append, List.length_append, List.length_map] at hlen
  omega

end YukiZygisk.Ctl
