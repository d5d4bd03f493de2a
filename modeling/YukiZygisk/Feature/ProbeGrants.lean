/-
# How long a module request is granted (`kernel/feature/zygote_probe.c`)

`yz_zygote_probe_allow_module_policy` grants what it requires for a time: until a restore request
for the process, or until the timeout work of its holder (`GrantsLast`).

It fails when a process asks again.  The second request finds the holder of the first one, hands
its own record back and returns `0`, and the holder's work stays scheduled for the first request
(`not_grantsLast`).

`grantsLast_of_holdsItsOwn`: a grant lasts in every run in which each module request with additions
keeps its own record.  The invariant is that the record of a grant whose time is not over is there,
and that it is nobody's, or a holder's whose work is due no sooner than the grant ends (`Watched`).

A grant is written down with the holder, the record and the end of its time when a module request
succeeds, and `GrantsWatched` speaks of all that were written down.  Time passes in jiffies, and a
work that is due may run late but never early.  The steps that could cut a grant short are the ones
that hand its record back: a restore request for its process, which ends the grant, and its holder's
own timeout, which is not due before.  For everything else there is `nameless_step`: a record that
no call and no other holder names is not touched.  Runs that tear the module down are left out, as
the code gives all grants back there on purpose (`Standing`).
-/
import YukiZygisk.Feature.ProbeTeardown

namespace YukiZygisk.Probe

open Policy Lifetime Tally

section Machine

variable [AvtabFns]

variable {s s' u : ProbeRun} {a : ProbeAct} {i h k : Nat} {env : OpEnv} {c : Call} {op : Op}
  {x : Holder} {p : PolicyHolder} {g : ModuleGrant}

/-! ## 1. Runs without a teardown -/

/-- The host layer is there, and no call is to take it down. -/
structure Standing (s : ProbeRun) : Prop where
  hostActive : s.hostActive = true
  calls : ∀ c ∈ s.calls, ¬ Tears c

/-- A call that starts in a run without a teardown. -/
theorem Standing.start (hs : Standing s) (hcalls : u.calls = s.calls ++ [c])
    (hactive : u.hostActive = s.hostActive) (hc : ¬ Tears c) : Standing u := by
  refine ⟨hactive.trans hs.hostActive, ?_⟩
  intro d hd
  rw [hcalls] at hd
  rcases List.mem_append.mp hd with hd | hd
  · exact hs.calls d hd
  · obtain rfl := List.mem_singleton.mp hd
    exact hc

/-- None of its operations tears anything down. -/
theorem Standing.runs (hs : Standing s) (hruns : Runs s i op c) : op.tears = false := by
  refine Bool.eq_false_iff.mpr ?_
  intro htears
  exact hs.calls _ (List.mem_of_getElem? hruns.call) ⟨op, List.mem_cons_self, htears⟩

/-- No step but a deactivation begins a teardown. -/
theorem standing_step (hst : Staged s) (hs : Standing s) (ha : a ≠ .deactivate)
    (h : probe.step s a = some s') : Standing s' := by
  cases a with
  | exec tw =>
    simp only [probe, ProbeRun.step] at h
    split_ifs at h
    obtain rfl := Option.some.inj h
    exact ⟨hs.hostActive, hs.calls⟩
  | inject j cred yuki count =>
    simp only [probe, ProbeRun.step] at h
    split at h
    · cases h
    rename_i tw _
    obtain rfl := Option.some.inj h
    exact hs.start rfl rfl
      (not_tears_of_serving (serving_inject tw.tgid cred (tw.kind yuki count)))
  | restoreRequest tgid =>
    simp only [probe, ProbeRun.step] at h
    split_ifs at h
    · obtain rfl := Option.some.inj h
      exact hs
    · obtain rfl := Option.some.inj h
      exact hs.start rfl rfl (by simp [Tears, Op.tears])
  | allowModule tgid dir cred alloc =>
    simp only [probe, ProbeRun.step] at h
    split_ifs at h
    · obtain rfl := Option.some.inj h
      exact hs
    · obtain rfl := Option.some.inj h
      exact hs.start rfl rfl (not_tears_of_serving (serving_allow tgid cred dir))
  | prepareRuntime current =>
    simp only [probe, ProbeRun.step] at h
    split_ifs at h
    · obtain rfl := Option.some.inj h
      exact hs
    · obtain rfl := Option.some.inj h
      exact hs.start rfl rfl (not_tears_of_dropping (dropping_prepare current))
  | deactivate => exact absurd rfl ha
  | fire h₀ =>
    simp only [probe, ProbeRun.step, ProbeRun.fire] at h
    split at h
    · cases h
    split at h
    · split_ifs at h
      obtain rfl := Option.some.inj h
      exact hs.start rfl rfl (by simp [Tears, Op.tears])
    · cases h
  | tick n =>
    obtain rfl := Option.some.inj h
    exact ⟨hs.hostActive, hs.calls⟩
  | run j env =>
    obtain ⟨op, c₀, c', hruns, hafter, -⟩ := runOp_after hst.formed h
    have hop := hs.runs hruns
    constructor
    · rw [hafter.hostActive, if_neg (by rintro rfl; cases hop)]
      exact hs.hostActive
    · intro d hd
      rw [hafter.calls] at hd
      rcases List.mem_or_eq_of_mem_set hd with hd | rfl
      · exact hs.calls d hd
      · rintro ⟨o, ho, htears⟩
        rcases hafter.tears o ho htears with rfl | ho
        · cases hop
        · exact hs.calls _ (List.mem_of_getElem? hruns.call)
            ⟨o, List.mem_cons_of_mem _ ho, htears⟩

/-! ## 2. A record that nobody else names -/

/-- No call has the record of a holder on its stack. -/
theorem holder_ne_call (hun : Unshared s) (hh : s.holders[h]? = some p) (howed : p.owed = some k)
    (hc : c ∈ s.calls) : c.state ≠ some k := by
  intro hstate
  have hcalls : 0 < (s.calls.map (·.state)).count (some k) :=
    List.count_pos_iff.mpr (List.mem_map.mpr ⟨c, hc, hstate⟩)
  have hholders : 0 < (s.holders.map (·.owed)).count (some k) :=
    List.count_pos_iff.mpr (List.mem_map.mpr ⟨p, List.mem_of_getElem? hh, howed⟩)
  have hone := (hun k).1
  rw [ProbeRun.names, List.count_append] at hone
  omega

/-- No other holder has it. -/
theorem holder_ne_holder {q : PolicyHolder} {h₀ : Nat} (hun : Unshared s)
    (hh : s.holders[h]? = some p) (howed : p.owed = some k) (hq : s.holders[h₀]? = some q)
    (hne : h ≠ h₀) : q.owed ≠ some k := by
  intro hq'
  have hat : (s.holders.map (·.owed))[h₀]? = some (some k) := by
    rw [List.getElem?_map, hq, Option.map_some, hq']
  have hren := renamed_set hat none k
  have hleft : 0 < ((s.holders.map (·.owed)).set h₀ none).count (some k) := by
    refine List.count_pos_iff.mpr (List.mem_of_getElem? (i := h) ?_)
    rw [List.getElem?_set_ne hne.symm, List.getElem?_map, hh, Option.map_some, howed]
  have hone := (hun k).1
  rw [ProbeRun.names, List.count_append] at hone
  simp only [List.count_singleton_self, List.count_singleton, beq_iff_eq, reduceCtorEq, if_false]
    at hren
  omega

/-- A call that edits one record keeps the others. -/
theorem edits_other {r : TempRun} {ta : TempAct} {j : Nat} (hta : Edits r ta j) (hne : j ≠ k)
    (hx : r.cells[k]? = some (some x)) : (r.after (some ta)).cells[k]? = some (some x) := by
  rcases hta with hc | ⟨_, _, -, hc⟩ <;> rw [hc]
  · exact hx
  · rwa [List.getElem?_set_ne hne]

theorem grows_other {r : TempRun} {ta : TempAct} (hta : Grows r ta)
    (hx : r.cells[k]? = some (some x)) : (r.after (some ta)).cells[k]? = some (some x) := by
  rcases hta with ⟨-, _, hc⟩ | ⟨-, hc⟩ <;> rw [hc]
  · rwa [List.getElem?_append_left (List.getElem?_eq_some_iff.mp hx).1]
  · exact hx

/-- A call into the policy leaves the records alone that it does not name. -/
theorem cell_kept {call : Option TempAct} {old new : Option Nat}
    (hmove : StateMove s old env call new) (hne : old ≠ some k)
    (hx : s.run.cells[k]? = some (some x)) :
    (s.run.after call).cells[k]? = some (some x) := by
  have hrestore : (s.run.after (s.restoreCall old env)).cells[k]? = some (some x) := by
    cases hcall : s.restoreCall old env with
    | none => exact hx
    | some ta =>
      obtain ⟨j, rfl, rfl⟩ := restoreCall_some hcall
      exact edits_other restore_edits (fun he => hne (he ▸ rfl)) hx
  have hwiden : ∀ ta, Widens old env ta →
      (s.run.after (some ta)).cells[k]? = some (some x) := by
    intro ta hta
    cases old with
    | none => exact grows_other (widens_grows hta) hx
    | some j => exact edits_other (widens_edits hta) (fun he => hne (he ▸ rfl)) hx
  cases hmove with
  | keep => exact hx
  | loaded ta hta => exact grows_other (loads_grows hta) hx
  | prepared cred => exact hx
  | widened ta hta => exact hwiden ta hta
  | refused ta hta => exact hwiden ta hta
  | restored => exact hrestore
  | quit => exact hrestore

/-- A record without a name stays, and gets none. -/
theorem nameless_step (hplaced : ∀ h, Placed (s.life h)) (hs : probe.step s a = some s')
    (hx : s.run.cells[k]? = some (some x)) (hno : some k ∉ s.names) :
    s'.run.cells[k]? = some (some x) ∧ some k ∉ s'.names := by
  have hcount := List.count_eq_zero.mpr hno
  cases names_step hplaced hs with
  | same hcells hnames =>
    rw [hcells, ← List.count_eq_zero, hnames]
    exact ⟨hx, hcount⟩
  | call old new env hmove hold _ hren hrun =>
    have hne : old ≠ some k := fun he => hno (hold k he)
    rw [hrun]
    refine ⟨cell_kept hmove hne hx, List.count_eq_zero.mp ?_⟩
    have hk := hren k
    have hnew : [new].count (some k) = 0 := by
      refine List.count_eq_zero.mpr ?_
      intro hin
      have hin := List.mem_singleton.mp hin
      rcases stateMove_new hmove with ⟨rfl, -⟩ | ⟨rfl, -⟩ | ⟨rfl, -⟩
      · exact hne hin.symm
      · cases hin
      · obtain rfl := Option.some.inj hin
        exact lt_irrefl _ (List.getElem?_eq_some_iff.mp hx).1
    omega

/-! ## 3. The holder of a grant -/

/-- A holder on the module list that waits for its time is in nobody's hands. -/
theorem waiting {due : Nat} (hplaced : Placed (s.life h)) (hh : s.holders[h]? = some p)
    (hmem : h ∈ s.moduleHolders) (hwork : p.timeout = .queued due) :
    p.owed = p.state ∧ h ∉ s.nativePending ∧ ∀ q, s.ahead h q = 0 := by
  rw [life_of_cell hh] at hplaced
  obtain ⟨hplace, -, hrest, hrun, -, hidle, -⟩ := hplaced
  have hlisted : s.listed h = s.nativePending.count h + s.moduleHolders.count h := rfl
  have hpos := List.count_pos_iff.mpr hmem
  simp only [hwork, Bool.toNat_true, reduceCtorEq, if_false] at hplace hrest hrun hidle
  have hschedule := (hidle (by rintro ⟨⟩)).1
  refine ⟨?_, List.count_eq_zero.mp (by omega), ?_⟩
  · rw [PolicyHolder.owed, if_pos (by omega)]
  · intro q
    cases q <;> omega

/-- What becomes of the record of a grant is that of nobody, or of a holder of the grant's process
that waits for the whole time. -/
inductive Watched (s : ProbeRun) (g : ModuleGrant) (k : Nat) : Prop
  | alone : some k ∉ s.names → Watched s g k
  | holder (h : Nat) (p : PolicyHolder) (due : Nat) : s.holders[h]? = some p →
      h ∈ s.moduleHolders → p.tgid = g.tgid → p.state = some k → p.timeout = .queued due →
      g.since + s.policyTimeout ≤ due → Watched s g k

/-- An operation on a holder leaves the other holders on the module list. -/
theorem proceedOn_rest {t : ProbeRun} {call : Option TempAct} {h₀ : Nat} {q : Phase}
    {holder : PolicyHolder} (hs : t.proceedOn i c call h₀ holder q = some s') :
    s'.hz = t.hz ∧ s'.jiffies = t.jiffies ∧ s'.grants = t.grants ∧
      (h ≠ h₀ → h ∈ t.moduleHolders → h ∈ s'.moduleHolders) := by
  cases q <;> simp only [ProbeRun.proceedOn] at hs
  case cancel =>
    split_ifs at hs
    obtain rfl := Option.some.inj hs
    exact ⟨rfl, rfl, rfl, fun _ => id⟩
  case expire =>
    split_ifs at hs
    · obtain rfl := Option.some.inj hs
      exact ⟨rfl, rfl, rfl, fun hne hmem => List.mem_filter.mpr ⟨hmem, by simpa using hne⟩⟩
    · obtain rfl := Option.some.inj hs
      exact ⟨rfl, rfl, rfl, fun _ => id⟩
  all_goals
    obtain rfl := Option.some.inj hs
    exact ⟨rfl, rfl, rfl, fun _ => id⟩

/-- The clock goes on, and a second stays a second. -/
theorem clock_step (hs : probe.step s a = some s') : s.jiffies ≤ s'.jiffies ∧ s'.hz = s.hz := by
  cases step_move hs with
  | idle a n => exact ⟨Nat.le_add_right _ _, rfl⟩
  | start => exact ⟨le_rfl, rfl⟩
  | fire => exact ⟨le_rfl, rfl⟩
  | onHolder i env c q h₀ holder _ _ _ hp =>
    obtain ⟨hhz, hjiffies, -⟩ := proceedOn_rest (h := 0) hp
    exact ⟨hjiffies.ge, hhz⟩
  | own i env c c' op _ _ _ _ hframe => exact ⟨hframe.jiffies.ge, hframe.hz⟩
  | exit => exact ⟨le_rfl, rfl⟩
  | collectNative => exact ⟨le_rfl, rfl⟩
  | collectModule => exact ⟨le_rfl, rfl⟩
  | collectAll i env c _ hactive =>
    rw [probeExit_eq hactive]
    exact ⟨le_rfl, rfl⟩
  | publish i env c _ hadd hok =>
    rw [publish_eq hadd hok]
    exact ⟨le_rfl, rfl⟩
  | arm i env c _ hadd hshared =>
    rw [arm_eq hadd hshared]
    exact ⟨le_rfl, rfl⟩

/-- A grant whose time is not over keeps its record, and who watches it. -/
theorem watched_step (hplaced : ∀ h, Placed (s.life h)) (hun : Unshared s) (hst : Standing s)
    (hw : Watched s g k) (hx : s.run.cells[k]? = some (some x))
    (hs : probe.step s a = some s') (hg : g ∈ s'.grants)
    (htime : s'.jiffies < g.since + s'.policyTimeout) :
    s'.run.cells[k]? = some (some x) ∧ Watched s' g k := by
  cases hw with
  | alone hno =>
    obtain ⟨hx', hno'⟩ := nameless_step hplaced hs hx hno
    exact ⟨hx', .alone hno'⟩
  | holder h p due hh hmem htgid hstate hwork hdue =>
    obtain ⟨howed, hnative, hahead⟩ := waiting (hplaced h) hh hmem hwork
    have hclock := clock_step hs
    have hsame : s'.policyTimeout = s.policyTimeout := by
      rw [ProbeRun.policyTimeout, ProbeRun.policyTimeout, hclock.2]
    have htaken : ∀ todo : List Nat, h ∉ todo → (takeOff todo s.holders)[h]? = some p := by
      intro todo hout
      rw [takeOff_getElem?, hh, Option.map_some, if_neg hout]
    have hlt := (List.getElem?_eq_some_iff.mp hh).1
    rw [← hsame] at hdue
    have hstays : s'.holders[h]? = some p → h ∈ s'.moduleHolders → Watched s' g k :=
      fun hh' hmem' => .holder h p due hh' hmem' htgid hstate hwork hdue
    cases step_move hs with
    | idle => exact ⟨hx, hstays hh hmem⟩
    | start => exact ⟨hx, hstays hh hmem⟩
    | fire h₀ p₀ due₀ hh₀ hwork₀ hle =>
      have hne : h₀ ≠ h := by
        rintro rfl
        obtain rfl := Option.some.inj (hh.symm.trans hh₀)
        obtain rfl := Work.queued.inj (hwork.symm.trans hwork₀)
        omega
      exact ⟨hx, hstays ((List.getElem?_set_ne hne).trans hh) hmem⟩
    | onHolder j env c q h₀ holder _ hruns hh₀ hp =>
      have hne : h ≠ h₀ := by
        rintro rfl
        have hpos := ahead_pos hruns.call List.mem_cons_self
        rw [hahead] at hpos
        cases hpos
      refine ⟨?_, hstays ((proceedOn_other hp hne).1.trans hh) ((proceedOn_rest hp).2.2.2 hne hmem)⟩
      rw [(proceedOn_run hp).1, opCall_on hh₀]
      split_ifs with hphase
      · -- only a holder that was not handed back yet is
        have howed₀ : holder.owed = holder.state := by
          have hpos := ahead_pos hruns.call List.mem_cons_self
          have hplace := (hplaced h₀).place
          have hrest := (hplaced h₀).restored
          rw [life_of_cell hh₀] at hplace hrest
          simp only [Bool.toNat_true] at hplace hrest
          rw [PolicyHolder.owed, if_pos]
          rcases hphase with rfl | rfl <;> omega
        have hmove : StateMove s holder.state env (s.restoreCall holder.state env) _ := .restored
        refine cell_kept hmove ?_ hx
        rw [← howed₀]
        exact holder_ne_holder hun hh (howed.trans hstate) hh₀ hne
      · exact hx
    | own j env c c' op _ _ hruns _ hframe _ _ hmove hrun _ =>
      have hother := holder_ne_call hun hh (howed.trans hstate) (List.mem_of_getElem? hruns.call)
      rw [hrun]
      refine ⟨cell_kept hmove hother hx, hstays ?_ ?_⟩
      · rwa [hframe.holders]
      · rwa [hframe.moduleHolders]
    | exit j env c hruns => cases hst.runs hruns
    | collectNative j env c hruns =>
      exact ⟨hx, hstays (htaken _ fun hin => hnative (List.mem_of_mem_filter hin)) hmem⟩
    | collectModule j env c hruns =>
      -- the request is for another process, as the grant is still there
      have hout : s.isPendingOf c.tgid h = false := by
        have hne := of_decide_eq_true (List.mem_filter.mp hg).2
        simp only [ProbeRun.isPendingOf, hh, Option.any_some, htgid, hne, decide_false,
          Bool.and_false]
      refine ⟨hx, hstays (htaken _ fun hin => ?_) (List.mem_filter.mpr ⟨hmem, by rw [hout]; rfl⟩)⟩
      exact absurd (List.mem_filter.mp hin).2 (by rw [hout]; decide)
    | collectAll j env c hruns => cases hst.runs hruns
    | publish j env c hruns hadd hok =>
      rw [publish_eq hadd hok] at hstays ⊢
      refine ⟨hx, hstays ?_ hmem⟩
      rw [List.getElem?_append_left (by rwa [takeOff_length])]
      exact htaken _ fun hin => hnative (List.mem_of_mem_filter hin)
    | arm j env c hruns hadd hshared =>
      rw [arm_eq hadd hshared] at hstays ⊢
      refine ⟨hx, hstays ?_ (List.mem_append_left _ hmem)⟩
      exact (List.getElem?_append_left hlt).trans hh

/-- A step keeps the grants, drops some, or adds the one of a module request that returns. -/
theorem grants_step (hs : probe.step s a = some s') (hg : g ∈ s'.grants) :
    g ∈ s.grants ∨ ∃ i env c, a = .run i env ∧ Runs s i .arm c ∧
      g = ⟨c.tgid, (s.run.named c.state).elim [] (·.required), s.jiffies⟩ := by
  cases step_move hs with
  | idle => exact .inl hg
  | start => exact .inl hg
  | fire => exact .inl hg
  | onHolder i env c q h₀ holder _ _ _ hp =>
    rw [(proceedOn_rest (h := 0) hp).2.2.1] at hg
    exact .inl hg
  | own i env c c' op _ grants hruns _ _ _ _ _ _ _ hgrants hnew =>
    rw [hgrants] at hg
    rcases List.mem_append.mp hg with hg | hg
    · exact .inl hg
    · rcases hnew with rfl | ⟨rfl, -, -, rfl⟩
      · cases hg
      · exact .inr ⟨i, env, c, rfl, hruns, List.mem_singleton.mp hg⟩
  | exit => exact .inl hg
  | collectNative => exact .inl hg
  | collectModule => exact .inl (List.mem_of_mem_filter hg)
  | collectAll i env c _ hactive =>
    rw [probeExit_eq hactive] at hg
    exact .inl hg
  | publish i env c _ hadd hok =>
    rw [publish_eq hadd hok] at hg
    exact .inl hg
  | arm i env c hruns hadd hshared =>
    rw [arm_eq hadd hshared] at hg
    rcases List.mem_append.mp hg with hg | hg
    · exact .inl hg
    · exact .inr ⟨i, env, c, rfl, hruns, List.mem_singleton.mp hg⟩

/-- The record of a module request that returns is in nobody's hands when it owns nothing, and
else in those of a new holder. -/
theorem watched_arm (hun : Unshared s) (hruns : Runs s i .arm c)
    (hfresh : zpNativePolicyHasAdditions (s.run.value c.state) = true → s.sharedHolder c = none)
    (hstate : c.state = some k) (hx : s.run.cells[k]? = some (some x))
    (hs : probe.step s (.run i env) = some s')
    (hg : g = ⟨c.tgid, (s.run.named c.state).elim [] (·.required), s.jiffies⟩) :
    s'.run.cells[k]? = some (some x) ∧ Watched s' g k := by
  have hcall : s.opCall c .arm env = none := by
    simp only [ProbeRun.opCall]
    by_cases hadd : zpNativePolicyHasAdditions (s.run.value c.state) = true
    · rw [hfresh hadd, if_neg (by simp)]
    · rw [hstate] at hadd ⊢
      rw [ProbeRun.restoreCall, if_neg hadd, ite_self]
  have hstep : s.armModule s i c none = s' := by
    simp only [probe, ProbeRun.step, ProbeRun.runOp, hruns.call, ProbeRun.proceed, hcall,
      TempRun.after] at hs
    exact Option.some.inj hs
  by_cases hadd : zpNativePolicyHasAdditions (s.run.value c.state) = true
  · rw [← hstep, arm_eq hadd (hfresh hadd), hg]
    exact ⟨hx, .holder s.holders.length _ _ List.getElem?_concat_length
      (List.mem_append_right _ List.mem_cons_self) rfl hstate rfl le_rfl⟩
  · have hquit : s' = s.granted (({ s with moduleLocked := false } : ProbeRun).quit i c) c := by
      rw [← hstep, ProbeRun.armModule]
      simp only [Bool.eq_false_iff.mpr hadd, Bool.not_false, if_true]
    refine ⟨by rw [hquit]; exact hx, .alone (List.count_eq_zero.mp ?_)⟩
    have hcalls : s'.calls = s.calls.set i { c with state := none, ops := [] } := by
      rw [hquit]
      rfl
    have hren := renamed_of_call hruns hcalls (by rw [hquit]; rfl) k
    have hone := (hun k).1
    rw [hstate, List.count_singleton_self] at hren
    simp only [List.count_singleton, beq_iff_eq, reduceCtorEq, if_false] at hren
    omega

/-- Every grant whose time is not over has its record, and who watches it. -/
def GrantsWatched (s : ProbeRun) : Prop :=
  ∀ g ∈ s.grants, s.jiffies < g.since + s.policyTimeout → g.required = [] ∨
    ∃ k x, s.run.cells[k]? = some (some x) ∧ x.required = g.required ∧ Watched s g k

/-! ## 4. What a module request is granted -/

/-- **A grant lasts** in every run whose steps meet `P`: what a module request required is allowed
until a restore request for its process, or until the full timeout from the request on. -/
def GrantsLast (P : ProbeRun → ProbeAct → Prop) : Prop :=
  ∀ s, probe.Reach P s → ∀ g ∈ s.grants, s.jiffies < g.since + s.policyTimeout →
    ∀ p ∈ g.required, ∀ b : Fin 32, p.2.getLsbD b = true →
      (s.run.temp.base.direct p.1).getLsbD b = true

/-- A module request with additions finds no holder to share, a request for policy finds its slots,
and there is no teardown. -/
structure HoldsItsOwn (s : ProbeRun) (a : ProbeAct) : Prop where
  fresh : ∀ i env c, a = .run i env → Runs s i .arm c →
    zpNativePolicyHasAdditions (s.run.value c.state) = true → s.sharedHolder c = none
  slots : ∀ ta, s.tempAct a = some ta → SlotsFit s.run ta
  stays : a ≠ .deactivate

/-- The same as a test. -/
def holdsItsOwn (s : ProbeRun) (a : ProbeAct) : Bool :=
  (s.tempAct a).all (fun ta => decide (SlotsFit s.run ta)) &&
    match a with
    | .run i _ => (s.calls[i]?).all fun c =>
      c.ops.head? != some .arm || !zpNativePolicyHasAdditions (s.run.value c.state) ||
        (s.sharedHolder { c with ops := c.ops.tail }).isNone
    | .deactivate => false
    | _ => true

theorem holdsItsOwn_of_test (h : holdsItsOwn s a = true) : HoldsItsOwn s a := by
  obtain ⟨hslots, hact⟩ := Bool.and_eq_true_iff.mp h
  refine ⟨?_, ?_, ?_⟩
  · rintro i env c rfl hruns hadd
    simpa [hruns.call, hadd] using hact
  · intro ta hta
    rw [hta] at hslots
    exact of_decide_eq_true hslots
  · rintro rfl
    cases hact

theorem grantsWatched_step (hplaced : ∀ h, Placed (s.life h)) (hun : Unshared s) (hst : Standing s)
    (hk : GrantsWatched s) (hP : HoldsItsOwn s a) (hs : probe.step s a = some s') :
    GrantsWatched s' := by
  intro g hg htime
  obtain ⟨hle, hhz⟩ := clock_step hs
  rcases grants_step hs hg with hold | ⟨i, env, c, rfl, hruns, hnew⟩
  · have hbefore : s.jiffies < g.since + s.policyTimeout := by
      rw [ProbeRun.policyTimeout] at htime ⊢
      rw [hhz] at htime
      omega
    refine (hk g hold hbefore).imp_right ?_
    rintro ⟨k, x, hx, hreq, hw⟩
    obtain ⟨hx', hw'⟩ := watched_step hplaced hun hst hw hx hs hg htime
    exact ⟨k, x, hx', hreq, hw'⟩
  · cases hstate : c.state with
    | none =>
      rw [hnew, hstate]
      exact .inl rfl
    | some k =>
      cases hx : s.run.named (some k) with
      | none =>
        rw [hnew, hstate, hx]
        exact .inl rfl
      | some x =>
        have hfresh := hP.fresh i env c rfl hruns
        have hcell := Option.join_eq_some_iff.mp hx
        obtain ⟨hx', hw⟩ := watched_arm hun hruns hfresh hstate hcell hs hnew
        refine .inr ⟨k, x, hx', ?_, hw⟩
        rw [hnew, hstate, hx]
        rfl

/-- The invariant, with the ones it rests on. -/
theorem grantsWatched_invariant : probe.Invariant HoldsItsOwn fun s =>
    ((Shaped s ∧ ∀ h, Placed (s.life h)) ∧ Unshared s) ∧
      Staged s ∧ Standing s ∧ GrantsWatched s where
  init s hi := by
    have hr : probe.Reach HoldsItsOwn s := ⟨s, hi, .refl⟩
    refine ⟨(unshared_invariant HoldsItsOwn).init s hi, staged_of_reach hr, ?_, ?_⟩
    · obtain ⟨-, -, -, -, -, hcalls, hactive, -⟩ := hi
      refine ⟨hactive, ?_⟩
      intro c hc
      rw [hcalls] at hc
      cases hc
    · obtain ⟨-, -, -, -, -, -, -, -, hgrants, -⟩ := hi
      intro g hg
      rw [hgrants] at hg
      cases hg
  step s a s' hI hP hs := by
    obtain ⟨hun, hstaged, hst, hk⟩ := hI
    exact ⟨(unshared_invariant HoldsItsOwn).step s a s' hun hP hs, staged_step hstaged hs,
      standing_step hstaged hst hP.stays hs, grantsWatched_step hun.1.2 hun.2 hst hk hP hs⟩

/-- **A grant lasts in a run in which each module request keeps its own record.** -/
theorem grantsLast_of_holdsItsOwn : GrantsLast HoldsItsOwn := by
  intro s hr g hg htime p hp b hb
  obtain ⟨-, -, hst, hk⟩ := hr.invariant grantsWatched_invariant
  rcases hk g hg htime with hnil | ⟨k, x, hx, hreq, -⟩
  · rw [hnil] at hp
    cases hp
  · obtain ⟨s₀, hi, hpath⟩ := hr
    have hpolicy := run_path (fun _ _ ta hP => hP.slots ta) hpath hst.hostActive
    exact direct_of_slotsFit ⟨s₀.run, hi.1, hpolicy⟩ (List.mem_of_getElem? hx) (hreq ▸ hp) hb

end Machine

/-- The steps of module requests, restore requests and timeout works, and of the clock. -/
def isModuleStep (_ : ProbeRun) : ProbeAct → Bool
  | .exec .. | .inject .. | .prepareRuntime .. | .deactivate => false
  | _ => true

/-- Process 100 asks for the files of a directory, in call `i`. -/
def asksModule (i : Nat) : List ProbeAct :=
  [.allowModule 100 (fileOf 4) (some (credOf 1)) true, goOn i, goOn i, goOn i]

/-- The grant of one process in its last jiffy, after another process has asked for the same
files. -/
theorem grantsLast_lastJiffy : ∃ s, probe.Reach HoldsItsOwn s ∧ ∃ g ∈ s.grants,
    s.jiffies + 1 = g.since + s.policyTimeout ∧ g.tgid = 100 ∧ s.grants.length = 2 ∧
    ∃ p ∈ g.required, p.2.getLsbD (0 : Fin 32) = true ∧
      (s.run.temp.base.direct p.1).getLsbD (0 : Fin 32) = true := by
  obtain ⟨s, hr, hs⟩ := Lts.exists_reach_of_guarded (M := probe) (P := HoldsItsOwn)
    (g := holdsItsOwn) (fun _ _ => holdsItsOwn_of_test) (demoProbe_init 4 (by decide))
    (asksModule 0 ++ [.tick 500, .allowModule 200 (fileOf 4) (some (credOf 1)) true, goOn 1,
      goOn 1, goOn 1, .tick 499])
    (fun s => decide (s.grants.length = 2) && s.grants.any fun g : ModuleGrant =>
      decide (s.jiffies + 1 = g.since + s.policyTimeout) && decide (g.tgid = 100) &&
        g.required.any fun p => p.2.getLsbD 0) (by decide +kernel)
  obtain ⟨hlen, hs⟩ := Bool.and_eq_true_iff.mp hs
  obtain ⟨g, hg, hs⟩ := List.any_eq_true.mp hs
  simp only [Bool.and_eq_true, decide_eq_true_eq] at hs
  obtain ⟨⟨htime, htgid⟩, hreq⟩ := hs
  obtain ⟨p, hp, hbit⟩ := List.any_eq_true.mp hreq
  exact ⟨s, hr, g, hg, htime, htgid, of_decide_eq_true hlen, p, hp, hbit,
    grantsLast_of_holdsItsOwn s hr g hg (by omega) p hp 0 hbit⟩

/-- **The timer of an earlier request takes the permission away.** -/
theorem not_grantsLast : ¬ GrantsLast fun s a => isModuleStep s a = true := by
  intro h
  obtain ⟨s, hr, hp⟩ := Lts.exists_reach_of_guarded (M := probe)
    (P := fun s a => isModuleStep s a = true) (fun _ _ => id)
    (demoProbe_init 4 (by decide))
    (asksModule 0 ++ [.tick 999] ++ asksModule 1 ++ [.tick 1, .fire 0, goOn 2, goOn 2])
    (fun s => s.grants.any fun g => decide (s.jiffies < g.since + s.policyTimeout) &&
      g.required.any fun p => p.2.getLsbD 0 && !(s.run.temp.base.direct p.1).getLsbD 0)
    (by decide +kernel)
  obtain ⟨g, hg, hp⟩ := List.any_eq_true.mp hp
  obtain ⟨htime, hp⟩ := Bool.and_eq_true_iff.mp hp
  obtain ⟨p, hmem, hbits⟩ := List.any_eq_true.mp hp
  rw [Bool.and_eq_true, Bool.not_eq_true'] at hbits
  have hdirect := h s hr g hg (of_decide_eq_true htime) p hmem 0 hbits.1
  exact Bool.false_ne_true (hbits.2.symm.trans hdirect)

end YukiZygisk.Probe
