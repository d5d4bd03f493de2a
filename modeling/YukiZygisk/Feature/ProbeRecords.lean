/-
# The records of the machine

Every record of `TempRun` that still owns something is named by a variable of a call or by a
holder, and by one of them only.

* `run_path`: what the machine does to the policy, the table and the records is a run of
  `tempRuns`, so what `Host/TempRuns.lean` proves of those holds here.
* `Unshared`: no record has two names, in every run.
* `Remembered`: no record that owns something is without a name.  It is lost when a file load
  overwrites it, or when its restore fails and the variable is zeroed all the same; `KeepsRecords`
  excludes both.

The three follow one after the other.  First, a step of the machine makes at most one call into the
temporary policy (`opCall`), and what it does to the records is what `tempRuns` does (`run_step`).
Second, names move with the records: a step keeps all names, or hands the name of a call to a
holder, or gives a new record its first name (`names_step`), so two names never come together.
Third, a record that owns something is in a name's hands until it owns nothing any more.  Where a
record grows it is the one that the call names (`remembered_of_grows`), where it is edited likewise
(`remembered_of_edits`), and where a call forgets its name the record must be empty, which is what
`KeepsRecords` asks.

The bound on the table is then a comparison of tallies: the references of a rule are at most the
claims of the records on it (`refs_le_names`), and each claim has one name (`claims_le_names`).
-/
import YukiZygisk.Feature.ProbeLife

namespace YukiZygisk.Probe

open Policy Lifetime Tally CountedGrants

/-! ## 1. Lists of names -/

/-- The record a holder has still to hand back. -/
def PolicyHolder.owed (p : PolicyHolder) : Option Nat := if p.restores = 0 then p.state else none

/-- One variable of a list changes, or a variable without a record comes in. -/
def Renamed (l l' : List (Option Nat)) (old new : Option Nat) : Prop :=
  ∀ k, l'.count (some k) + [old].count (some k) = l.count (some k) + [new].count (some k)

theorem renamed_set {l : List (Option Nat)} {n : Nat} {old : Option Nat} (h : l[n]? = some old)
    (new : Option Nat) : Renamed l (l.set n new) old new := by
  intro k
  obtain ⟨hlt, hold⟩ := List.getElem?_eq_some_iff.mp h
  have hmem : old = some k → 0 < l.count (some k) := fun he =>
    List.count_pos_iff.mpr (he ▸ List.mem_of_getElem? h)
  rw [List.count_set hlt, hold]
  simp only [List.count_singleton, beq_iff_eq]
  split_ifs with h1 h2 <;> simp_all

theorem Renamed.append {l l' m m' : List (Option Nat)} {old new old' new' : Option Nat}
    (h : Renamed l l' old new) (h' : Renamed m m' old' new') (k : Nat) :
    (l' ++ m').count (some k) + [old].count (some k) + [old'].count (some k) =
      (l ++ m).count (some k) + [new].count (some k) + [new'].count (some k) := by
  have := h k
  have := h' k
  simp only [List.count_append]
  omega

theorem renamed_push (l : List (Option Nat)) (new : Option Nat) :
    Renamed l (l ++ [new]) none new := by
  intro k
  simp [List.count_append]

theorem renamed_refl (l : List (Option Nat)) : Renamed l l none none := fun _ => rfl

/-- Taking holders off their list keeps what they owe. -/
theorem names_takeOff (hs : List Nat) (holders : List PolicyHolder) :
    (takeOff hs holders).map (·.owed) = holders.map (·.owed) := by
  refine List.ext_getElem? ?_
  intro h
  simp only [List.getElem?_map, takeOff_getElem?]
  cases holders[h]? with
  | none => rfl
  | some p =>
    simp only [Option.map_some]
    split_ifs <;> rfl

section Machine

variable [AvtabFns]

/-! ## 2. What a call into the policy does to the records -/

variable {r : TempRun} {ta : TempAct} {env : OpEnv} {name : Option Nat} {i : Nat}

/-- A record is handed out when the call succeeds, and nothing changes when it fails. -/
def Grows (r : TempRun) (ta : TempAct) : Prop :=
  (r.returns (some ta) = true ∧ ∃ h, (r.after (some ta)).cells = r.cells ++ [some h]) ∨
    (r.returns (some ta) = false ∧ (r.after (some ta)).cells = r.cells)

theorem loads_grows (hta : Loads env ta) : Grows r ta := by
  cases hta with
  | current file cred =>
    unfold Grows
    simp only [TempRun.returns, TempRun.after, TempRun.step, TempRun.allowFile,
      yzHostPolicyAllowFileCurrent, Option.getD_some]
    split
    · rename_i t st hop
      rw [hop]
      exact .inl ⟨rfl, _, rfl⟩
    · rename_i t st e hop
      rw [hop]
      exact .inr ⟨rfl, rfl⟩
  | cred file cred =>
    unfold Grows
    simp only [TempRun.returns, TempRun.after, TempRun.step, TempRun.allowFile,
      yzHostPolicyAllowFileCred, Option.getD_some]
    split
    · rename_i t st hop
      rw [hop]
      exact .inl ⟨rfl, _, rfl⟩
    · rename_i t st e hop
      rw [hop]
      exact .inr ⟨rfl, rfl⟩

/-- An execmem allow without a record makes one, or none. -/
theorem allowExecmem_grows {cred : Option Cred} :
    ((yzHostPolicyAllowExecmem r.temp cred .zero env.edit).2.2.isOk = true ∧
      ∃ h, ((r.allowExecmem none cred env.edit).getD r).cells = r.cells ++ [some h]) ∨
    ((yzHostPolicyAllowExecmem r.temp cred .zero env.edit).2.2.isOk = false ∧
      ((r.allowExecmem none cred env.edit).getD r).cells = r.cells) := by
  simp only [TempRun.allowExecmem, TempRun.target]
  split
  · rename_i t st hop
    rw [hop]
    exact .inl ⟨rfl, _, rfl⟩
  · rename_i t st e hop
    rw [hop]
    exact .inr ⟨rfl, rfl⟩

/-- An execmem request on a zeroed record. -/
theorem widens_grows (hta : Widens none env ta) : Grows r ta := by
  cases hta with
  | current cred => exact allowExecmem_grows
  | cred cred => exact allowExecmem_grows

/-- The call edits the record `i`, and no other one. -/
def Edits (r : TempRun) (ta : TempAct) (i : Nat) : Prop :=
  (r.after (some ta)).cells = r.cells ∨
    ∃ h c, r.cells[i]? = some (some h) ∧ (r.after (some ta)).cells = r.cells.set i c

theorem allowExecmem_edits {cred : Option Cred} :
    ((r.allowExecmem (some i) cred env.edit).getD r).cells = r.cells ∨
    ∃ h c, r.cells[i]? = some (some h) ∧
      ((r.allowExecmem (some i) cred env.edit).getD r).cells = r.cells.set i c := by
  simp only [TempRun.allowExecmem, TempRun.target]
  cases hc : (r.cells[i]?).join with
  | none => exact .inl rfl
  | some h =>
    right
    refine ⟨h, ?_⟩
    simp only
    split
    · exact ⟨_, Option.join_eq_some_iff.mp hc, rfl⟩
    · exact ⟨_, Option.join_eq_some_iff.mp hc, rfl⟩

/-- An execmem request on record `i`. -/
theorem widens_edits (hta : Widens (some i) env ta) : Edits r ta i := by
  cases hta with
  | current cred => exact allowExecmem_edits
  | cred cred => exact allowExecmem_edits

theorem restore_edits {e : EditEnv} : Edits r (.restore i e) i := by
  simp only [Edits, TempRun.after, TempRun.step]
  cases hc : (r.cells[i]?).join with
  | none => exact .inl rfl
  | some h =>
    simp only
    split
    · exact .inr ⟨h, none, Option.join_eq_some_iff.mp hc, rfl⟩
    · exact .inl rfl

/-- A successful restore leaves no record. -/
theorem restore_gone {e : EditEnv} {h : Holder} (hc : r.cells[i]? = some (some h))
    (hok : r.returns (some (.restore i e)) = true) :
    (r.after (some (.restore i e))).cells = r.cells.set i none := by
  have hj : (r.cells[i]?).join = some h := Option.join_eq_some_iff.mpr hc
  simp only [TempRun.returns, hj, Option.all_some] at hok
  simp only [TempRun.after, TempRun.step, hj]
  split
  · rfl
  · rename_i t e' hop
    rw [hop] at hok
    cases hok

/-! ## 3. What the machine does to the policy is a run of `tempRuns` -/

variable {s s' : ProbeRun} {a : ProbeAct} {c : Call} {op : Op}

/-- The call into the policy that an action makes. -/
def ProbeRun.tempAct (s : ProbeRun) : ProbeAct → Option TempAct
  | .run i env =>
    match s.calls[i]? with
    | none => none
    | some c =>
      match c.ops with
      | [] => none
      | op :: rest => s.opCall { c with ops := rest } op env
  | _ => none

/-- What a running operation asks of the policy. -/
theorem tempAct_of_runs (hruns : Runs s i op c) : s.tempAct (.run i env) = s.opCall c op env := by
  simp only [ProbeRun.tempAct, hruns.call]

/-- Only running operations ask for anything. -/
theorem tempAct_of_not_run (ha : ∀ i env, a ≠ .run i env) : s.tempAct a = none := by
  cases a <;> first | rfl | exact absurd rfl (ha _ _)

/-- What is asked is a run of the policy, of one step or of none. -/
theorem after_path {Q : TempRun → TempAct → Prop} (hQ : ∀ ta, s.tempAct a = some ta → Q s.run ta) :
    tempRuns.Path Q s.run (s.run.after (s.tempAct a)) := by
  cases hta : s.tempAct a with
  | none => exact .refl
  | some ta =>
    simp only [TempRun.after]
    cases hst : s.run.step ta with
    | none => exact .refl
    | some r => exact .single ⟨ta, hQ ta hta, hst⟩

/-- Going on with a holder does not touch the policy. -/
theorem proceedOn_run {t : ProbeRun} {call : Option TempAct} {h : Nat} {p : Phase}
    {holder : PolicyHolder} (hs : t.proceedOn i c call h holder p = some s') :
    s'.run = t.run ∧ s'.hostActive = t.hostActive := by
  cases p <;> simp only [ProbeRun.proceedOn] at hs <;> (try split_ifs at hs) <;>
    (obtain rfl := Option.some.inj hs; exact ⟨rfl, rfl⟩)

/-- A step makes its call into the policy, unless it is the end of the teardown. -/
theorem run_step (hs : probe.step s a = some s') :
    (s'.run = s.run.after (s.tempAct a) ∧ s'.hostActive = s.hostActive) ∨
      s'.hostActive = false ∧ s'.run = { s.run with temp := yzHostPolicyExit s.run.temp } := by
  cases step_move hs with
  | idle _ _ _ ha => exact .inl ⟨by rw [tempAct_of_not_run ha]; rfl, rfl⟩
  | start _ _ _ _ ha => exact .inl ⟨by rw [tempAct_of_not_run ha]; rfl, rfl⟩
  | fire => exact .inl ⟨rfl, rfl⟩
  | onHolder i env c p h holder _ hruns _ hp =>
    obtain ⟨hrun, hact⟩ := proceedOn_run hp
    exact .inl ⟨by rw [hrun, tempAct_of_runs hruns], hact⟩
  | own i env c c' op _ _ hruns _ hframe _ _ _ hrun =>
    exact .inl ⟨by rw [hrun, tempAct_of_runs hruns], hframe.hostActive⟩
  | exit => exact .inr ⟨rfl, rfl⟩
  | collectNative i env c hruns => exact .inl ⟨by rw [tempAct_of_runs hruns]; rfl, rfl⟩
  | collectModule i env c hruns => exact .inl ⟨by rw [tempAct_of_runs hruns]; rfl, rfl⟩
  | collectAll i env c hruns hact =>
    rw [probeExit_eq hact]
    exact .inl ⟨by rw [tempAct_of_runs hruns]; rfl, rfl⟩
  | publish i env c hruns hadd hok =>
    rw [publish_eq hadd hok]
    exact .inl ⟨by rw [tempAct_of_runs hruns]; rfl, rfl⟩
  | arm i env c hruns hadd hsh =>
    rw [arm_eq hadd hsh]
    refine .inl ⟨?_, rfl⟩
    rw [tempAct_of_runs hruns]
    simp only [ProbeRun.opCall, hsh]
    rfl

/-- **Runs of the machine are runs of the temporary policy**, as long as the host layer is
there. -/
theorem run_path {P : ProbeRun → ProbeAct → Prop} {Q : TempRun → TempAct → Prop}
    (hPQ : ∀ s a ta, P s a → s.tempAct a = some ta → Q s.run ta) {s₀ : ProbeRun}
    (hp : probe.Path P s₀ s) (hact : s.hostActive = true) :
    tempRuns.Path Q s₀.run s.run := by
  induction hp with
  | refl => exact .refl
  | tail _ hstep ih =>
    obtain ⟨a, hP, hs⟩ := hstep
    rcases run_step hs with ⟨hrun, hsame⟩ | ⟨hout, -⟩
    · rw [hrun]
      exact (ih (hsame ▸ hact)).trans (after_path fun ta hta => hPQ _ a ta hP hta)
    · rw [hout] at hact
      cases hact

/-- The state after a call that is made. -/
theorem after_of_step {r r' : TempRun} {ta : TempAct} (h : r.step ta = some r') :
    r.after (some ta) = r' := by
  rw [TempRun.after, h]
  rfl

/-- Without the host layer no call touches the policy or the table. -/
theorem after_of_not_ready {r : TempRun} (h : r.temp.base.ready = false)
    (call : Option TempAct) : (r.after call).temp = r.temp := by
  have hfile : ∀ (file : Option File) (cred : Option Cred) includeDir access env,
      (r.allowFile file cred includeDir access env).temp = r.temp := by
    intro file cred includeDir access env
    cases file <;> cases cred <;>
      simp [TempRun.allowFile, yzHostPolicyAllowFile, yzPolicyBaseLock, h]
  have hexecmem : ∀ target cred env,
      ((r.allowExecmem target cred env).getD r).temp = r.temp := by
    intro target cred env
    unfold TempRun.allowExecmem
    cases r.target target with
    | none => rfl
    | some x =>
      cases cred <;> cases target <;>
        simp [yzHostPolicyAllowExecmem, yzPolicyBaseLock, h, TempRun.store]
  cases call with
  | none => rfl
  | some ta =>
    simp only [TempRun.after]
    cases ta with
    | allowFileCurrent => exact hfile _ _ _ _ _
    | allowFileCred => exact hfile _ _ _ _ _
    | allowExecmemCurrent => exact hexecmem _ _ _
    | allowExecmemCred => exact hexecmem _ _ _
    | restore i env =>
      simp only [TempRun.step]
      cases (r.cells[i]?).join with
      | none => rfl
      | some x =>
        by_cases hx : x.state.Empty <;>
          simp [yzHostPolicyRestore, yzPolicyBaseLock, h, hx]
    | prepareRuntime => simp [TempRun.step, yzHostPolicyPrepareRuntimeCurrent, yzPolicyBaseLock, h]

/-- After the teardown the policy is out of reach and the table is empty. -/
def Exited (s : ProbeRun) : Prop :=
  s.hostActive = false →
    s.run.temp.base.ready = false ∧ ∀ k b, s.run.temp.rules.refs k b = 0

/-- Once the policy is out of reach it stays so. -/
theorem exited_invariant (P : ProbeRun → ProbeAct → Prop) : probe.Invariant P Exited where
  init s hi hact := by
    obtain ⟨-, -, -, -, -, -, hon, -⟩ := hi
    rw [hon] at hact
    cases hact
  step s a s' hI _ hs hact := by
    rcases run_step hs with ⟨hrun, hsame⟩ | ⟨-, hrun⟩
    · obtain ⟨hready, hrefs⟩ := hI (hsame ▸ hact)
      rw [hrun, after_of_not_ready hready]
      exact ⟨hready, hrefs⟩
    · rw [hrun]
      exact ⟨rfl, fun k b => refs_of_none (fun i hu => by cases hu) b⟩

/-! ## 4. No record has two names -/

/-- The variables that name records: one of each call, and one of each holder. -/
def ProbeRun.names (s : ProbeRun) : List (Option Nat) :=
  s.calls.map (·.state) ++ s.holders.map (·.owed)

/-- The record on the stack of the call that runs. -/
def ProbeRun.stateOf (s : ProbeRun) : ProbeAct → Option Nat
  | .run i _ => (s.calls[i]?).bind (·.state)
  | _ => none

/-- The record that a running operation is about. -/
theorem stateOf_of_runs (hruns : Runs s i op c) : s.stateOf (.run i env) = c.state := by
  simp only [ProbeRun.stateOf, hruns.call, Option.bind_some]

/-- A restore edits the record it is made on. -/
theorem restoreCall_some {ta : TempAct} (h : s.restoreCall name env = some ta) :
    ∃ i, name = some i ∧ ta = .restore i env.edit := by
  cases name with
  | none => cases h
  | some i =>
    simp only [ProbeRun.restoreCall] at h
    split_ifs at h
    exact ⟨i, rfl, (Option.some.inj h).symm⟩

/-- What a step does to the names: none changes, or one does with a call into the policy. -/
inductive NameMove (s : ProbeRun) (a : ProbeAct) (s' : ProbeRun) : Prop
  | same : s'.run.cells = s.run.cells →
      (∀ k, s'.names.count (some k) = s.names.count (some k)) → NameMove s a s'
  | call (old new : Option Nat) (env : OpEnv) : StateMove s old env (s.tempAct a) new →
      (∀ k, old = some k → some k ∈ s.names) →
      (∀ ta e, s.tempAct a = some ta → Loads e ta → old = s.stateOf a) →
      Renamed s.names s'.names old new → s'.run = s.run.after (s.tempAct a) → NameMove s a s'

theorem mem_names_of_call (hruns : Runs s i op c) : c.state ∈ s.names :=
  List.mem_append_left _ (List.mem_map.mpr ⟨_, List.mem_of_getElem? hruns.call, rfl⟩)

theorem mem_names_of_holder {p : PolicyHolder} (hp : p ∈ s.holders) : p.owed ∈ s.names :=
  List.mem_append_right _ (List.mem_map_of_mem hp)

/-- A step that changes one call, and no name among the holders. -/
theorem renamed_of_call {c' : Call} (hruns : Runs s i op c) (hc : s'.calls = s.calls.set i c')
    (hh : s'.holders.map (·.owed) = s.holders.map (·.owed)) :
    Renamed s.names s'.names c.state c'.state := by
  have hset : (s.calls.map (·.state))[i]? = some c.state := by
    rw [List.getElem?_map, hruns.call]
    rfl
  intro k
  rw [ProbeRun.names, ProbeRun.names, hc, hh, List.map_set]
  have := (renamed_set hset c'.state).append (renamed_refl (s.holders.map (·.owed))) k
  simpa using this

/-- A step that changes one call and leaves the names alone. -/
theorem nameMove_keep {c' : Call} (hruns : Runs s i op c) (hc : s'.calls = s.calls.set i c')
    (hstate : c'.state = c.state) (hh : s'.holders.map (·.owed) = s.holders.map (·.owed))
    (hcells : s'.run.cells = s.run.cells) : NameMove s a s' := by
  refine .same hcells ?_
  intro k
  have := renamed_of_call hruns hc hh k
  rw [hstate] at this
  omega

/-- A step that makes a record over to a new holder. -/
theorem nameMove_handOver {c' : Call} (holder : PolicyHolder) (hruns : Runs s i op c)
    (hc : s'.calls = s.calls.set i c') (hstate : c'.state = none)
    (hh : s'.holders.map (·.owed) = s.holders.map (·.owed) ++ [holder.owed])
    (howed : holder.owed = c.state) (hcells : s'.run.cells = s.run.cells) : NameMove s a s' := by
  have hset : (s.calls.map (·.state))[i]? = some c.state := by
    rw [List.getElem?_map, hruns.call]
    rfl
  refine .same hcells ?_
  intro k
  have := (renamed_set hset none).append
    (renamed_push (s.holders.map (·.owed)) c.state) k
  rw [ProbeRun.names, ProbeRun.names, hc, hh, List.map_set, hstate, howed]
  omega

/-- An operation on a holder that calls the policy hands its record back. -/
theorem opCall_on {h : Nat} {p : Phase} {holder : PolicyHolder} (hh : s.holders[h]? = some holder) :
    s.opCall c (.on p h) env =
      if p = .restore ∨ p = .restoreSelf then s.restoreCall holder.state env else none := by
  cases p <;> simp [ProbeRun.opCall, hh]

/-- What an operation on a holder leaves of the holder's name. -/
theorem proceedOn_holder {t : ProbeRun} {call : Option TempAct} {h : Nat} {p : Phase}
    {holder : PolicyHolder} (hs : t.proceedOn i c call h holder p = some s') :
    ∃ holder', s'.holders = t.holders.set h holder' ∧
      holder'.owed = if p = .restore ∨ p = .restoreSelf then none else holder.owed := by
  cases p <;> simp only [ProbeRun.proceedOn] at hs <;> (try split_ifs at hs) <;>
    (obtain rfl := Option.some.inj hs; exact ⟨_, rfl, by simp [PolicyHolder.owed]⟩)

/-- An operation on a holder keeps the names, or hands a record back. -/
theorem onHolder_names {h : Nat} {p : Phase} {holder : PolicyHolder}
    (hplaced : Placed (s.life h)) (hruns : Runs s i (.on p h) c)
    (hh : s.holders[h]? = some holder)
    (hs : { s with run := s.run.after (s.opCall c (.on p h) env) }.proceedOn i c
      (s.opCall c (.on p h) env) h holder p = some s') : NameMove s (.run i env) s' := by
  obtain ⟨ops, -, hcalls⟩ := proceedOn_calls hs
  obtain ⟨hrun, -⟩ := proceedOn_run hs
  obtain ⟨holder', hholders, howed⟩ := proceedOn_holder hs
  have hset : (s.holders.map (·.owed))[h]? = some holder.owed := by
    rw [List.getElem?_map, hh]
    rfl
  have hren : Renamed s.names s'.names holder.owed holder'.owed := by
    intro k
    have hcall : Renamed s.names (ProbeRun.names { s with calls := s'.calls }) c.state _ :=
      renamed_of_call hruns hcalls rfl
    have hcall := hcall k
    have hholder := renamed_set hset holder'.owed k
    simp only [ProbeRun.names, hholders, List.map_set, List.count_append] at hcall ⊢
    omega
  by_cases hp : p = .restore ∨ p = .restoreSelf
  · -- the holder is handed back for the first time
    have hlive : holder.owed = holder.state := by
      have hpos := ahead_pos hruns.call (List.mem_cons_self ..)
      have hnot := (hplaced.not_pending (by
        simp only [ProbeRun.life]
        rcases hp with rfl | rfl <;> omega)).2
      rw [life_of_cell hh] at hnot
      simp only [PolicyHolder.owed, if_pos hnot]
    rw [if_pos hp] at howed
    have hcall : s.tempAct (.run i env) = s.restoreCall holder.state env := by
      rw [tempAct_of_runs hruns, opCall_on hh, if_pos hp]
    refine .call holder.state none env (hcall ▸ .quit) (fun k hk => ?_) (fun ta e hta hl => ?_) ?_
      (by rw [hrun, tempAct_of_runs hruns])
    · rw [← hk, ← hlive]
      exact mem_names_of_holder (List.mem_of_getElem? hh)
    · obtain ⟨k, -, rfl⟩ := restoreCall_some (hcall.symm.trans hta)
      cases hl
    · rwa [howed, hlive] at hren
  · rw [if_neg hp] at howed
    refine .same (by rw [hrun, opCall_on hh, if_neg hp]; rfl) ?_
    intro k
    have := hren k
    rw [howed] at this
    omega

/-- **The steps of the machine, seen from the names.** -/
theorem names_step (hplaced : ∀ h, Placed (s.life h)) (hs : probe.step s a = some s') :
    NameMove s a s' := by
  cases step_move hs with
  | idle => exact .same rfl fun _ => rfl
  | start _ c d q _ _ hstate =>
    refine .same rfl ?_
    intro k
    have hcalls : ({ s with deactivating := d, queued := q }.start c).names =
        s.calls.map (·.state) ++ [none] ++ s.holders.map (·.owed) := by
      simp [ProbeRun.names, ProbeRun.start, hstate]
    rw [hcalls]
    simp [ProbeRun.names, List.count_append]
  | fire h p due hh =>
    refine .same rfl ?_
    intro k
    have hset : (s.holders.map (·.owed))[h]? = some p.owed := by
      rw [List.getElem?_map, hh]
      rfl
    have := renamed_set hset p.owed k
    simp only [ProbeRun.names, ProbeRun.start, ProbeRun.setHolder, List.map_append, List.map_set,
      List.map_singleton, List.count_append]
    simp only [List.count_singleton, beq_iff_eq, reduceCtorEq, if_false]
    change _ + 0 + ((s.holders.map (·.owed)).set h p.owed).count (some k) = _
    omega
  | onHolder i env c p h holder _ hruns hh hp => exact onHolder_names (hplaced h) hruns hh hp
  | own i env c c' op _ _ hruns _ hframe hcalls _ hstate hrun =>
    have hcall : s.tempAct (.run _ env) = _ := tempAct_of_runs hruns
    refine .call c.state c'.state env (hcall ▸ hstate) (fun k hk => ?_)
      (fun _ _ _ _ => (stateOf_of_runs hruns).symm)
      (renamed_of_call hruns hcalls (by rw [hframe.holders])) (hcall ▸ hrun)
    rw [← hk]
    exact mem_names_of_call hruns
  | exit i env c hruns =>
    exact nameMove_keep hruns rfl rfl rfl rfl
  | collectNative i env c hruns =>
    exact nameMove_keep hruns rfl rfl (names_takeOff _ _) rfl
  | collectModule i env c hruns =>
    exact nameMove_keep hruns rfl rfl (names_takeOff _ _) rfl
  | collectAll i env c hruns hact =>
    rw [probeExit_eq hact]
    exact nameMove_keep hruns rfl rfl (names_takeOff _ _) rfl
  | publish i env c hruns hadd hok =>
    rw [publish_eq hadd hok]
    refine nameMove_handOver ⟨.native, c.tgid, c.state, .idle, true, 0, 0⟩ hruns rfl rfl ?_ rfl
      rfl
    rw [List.map_append, names_takeOff]
    rfl
  | arm i env c hruns hadd hsh =>
    rw [arm_eq hadd hsh]
    exact nameMove_handOver ⟨.module, c.tgid, c.state,
      .queued (s.jiffies + s.policyTimeout), true, 0, 0⟩ hruns rfl rfl List.map_append rfl rfl

/-! ## 5. Every record that owns something has a name, and only one -/

/-- No record has two names, and a name names a record that was handed out. -/
def Unshared (s : ProbeRun) : Prop :=
  ∀ k, s.names.count (some k) ≤ 1 ∧ (some k ∈ s.names → k < s.run.cells.length)

theorem Edits.length {r : TempRun} (h : Edits r ta i) :
    (r.after (some ta)).cells.length = r.cells.length := by
  rcases h with h | ⟨_, _, -, h⟩ <;> rw [h]
  exact List.length_set

theorem Grows.length {r : TempRun} (h : Grows r ta) : (r.after (some ta)).cells.length =
    r.cells.length + if r.returns (some ta) then 1 else 0 := by
  rcases h with ⟨hret, _, hc⟩ | ⟨hret, hc⟩ <;> rw [hc, hret]
  · exact List.length_append
  · rfl

/-- A variable keeps its record, loses it, or gets one that is handed out in the step. -/
theorem stateMove_new {call : Option TempAct} {old new : Option Nat}
    (h : StateMove s old env call new) :
    (new = old ∧ (s.run.after call).cells.length = s.run.cells.length) ∨
    (new = none ∧ (s.run.after call).cells.length = s.run.cells.length) ∨
    (new = some s.run.cells.length ∧
      (s.run.after call).cells.length = s.run.cells.length + 1) := by
  have fresh : ∀ ta, Grows s.run ta →
      (s.loaded (some ta) = none ∧
        (s.run.after (some ta)).cells.length = s.run.cells.length) ∨
      (s.loaded (some ta) = some s.run.cells.length ∧
        (s.run.after (some ta)).cells.length = s.run.cells.length + 1) := by
    intro ta hg
    have hlen := hg.length
    unfold ProbeRun.loaded
    cases hret : s.run.returns (some ta) with
    | true => exact .inr ⟨rfl, by rw [hlen, hret]; rfl⟩
    | false => exact .inl ⟨rfl, by rw [hlen, hret]; rfl⟩
  have gone : (s.run.after (s.restoreCall old env)).cells.length = s.run.cells.length := by
    cases hcall : s.restoreCall old env with
    | none => rfl
    | some ta =>
      obtain ⟨i, -, rfl⟩ := restoreCall_some hcall
      exact restore_edits.length
  cases h with
  | keep => exact .inl ⟨rfl, rfl⟩
  | loaded ta hta => exact .inr (fresh ta (loads_grows hta))
  | widened ta hta hret =>
    cases old with
    | none => exact .inr (fresh ta (widens_grows hta))
    | some i => exact .inl ⟨rfl, (widens_edits hta).length⟩
  | prepared cred => exact .inl ⟨rfl, rfl⟩
  | refused ta hta hret =>
    refine .inl ⟨rfl, ?_⟩
    cases old with
    | none =>
      rw [(widens_grows hta).length, hret]
      rfl
    | some i => exact (widens_edits hta).length
  | restored =>
    unfold restored
    split_ifs
    · exact .inr (.inl ⟨rfl, gone⟩)
    · exact .inl ⟨rfl, gone⟩
  | quit => exact .inr (.inl ⟨rfl, gone⟩)

theorem unshared_step (hplaced : ∀ h, Placed (s.life h)) (hI : Unshared s)
    (hs : probe.step s a = some s') : Unshared s' := by
  intro k
  obtain ⟨hone, hlt⟩ := hI k
  rw [← List.count_pos_iff] at hlt ⊢
  cases names_step hplaced hs with
  | same hcells hcount =>
    rw [hcount, hcells]
    exact ⟨hone, hlt⟩
  | call old new env hstate _ _ hren hrun =>
    have hk := hren k
    rw [hrun]
    rcases stateMove_new hstate with ⟨rfl, hlen⟩ | ⟨rfl, hlen⟩ | ⟨rfl, hlen⟩ <;> rw [hlen]
    · exact ⟨by omega, fun hpos => hlt (by omega)⟩
    · simp only [List.count_singleton, beq_iff_eq, reduceCtorEq, if_false] at hk
      exact ⟨by omega, fun hpos => hlt (by omega)⟩
    · simp only [List.count_singleton, beq_iff_eq, Option.some.injEq] at hk
      split_ifs at hk <;> omega

/-- **No record has two names**, in every run. -/
theorem unshared_invariant (P : ProbeRun → ProbeAct → Prop) :
    probe.Invariant P fun s => (Shaped s ∧ ∀ h, Placed (s.life h)) ∧ Unshared s where
  init s hi := by
    refine ⟨(placed_invariant P).init s hi, ?_⟩
    intro k
    obtain ⟨-, hh, -, -, -, hc, -⟩ := hi
    simp [ProbeRun.names, hh, hc]
  step s a s' hI hP hs :=
    ⟨(placed_invariant P).step s a s' hI.1 hP hs, unshared_step hI.1.2 hI.2 hs⟩

theorem unshared_of_reach {P : ProbeRun → ProbeAct → Prop} (hr : probe.Reach P s) : Unshared s :=
  (hr.invariant (unshared_invariant P)).2

/-- A file load is only made with a record that owns nothing, and a restore succeeds. -/
structure KeepsRecords (s : ProbeRun) (a : ProbeAct) : Prop where
  loads : ∀ ta env, s.tempAct a = some ta → Loads env ta → (s.run.value (s.stateOf a)).Empty
  restores : ∀ j env, s.tempAct a = some (.restore j env) →
    s.run.returns (some (.restore j env)) = true

/-- The same as a test. -/
def keepsRecords (s : ProbeRun) (a : ProbeAct) : Bool :=
  match s.tempAct a with
  | some (.allowFileCurrent _ _ _) | some (.allowFileCred _ _ _) =>
    decide (s.run.value (s.stateOf a)).Empty
  | some (.restore j env) => s.run.returns (some (.restore j env))
  | _ => true

theorem keepsRecords_of_test (h : keepsRecords s a = true) : KeepsRecords s a := by
  constructor
  · intro ta env hta hl
    simp only [keepsRecords, hta] at h
    cases hl <;> exact of_decide_eq_true h
  · intro j env hta
    simpa only [keepsRecords, hta] using h

/-- Every record that owns something has a name. -/
def Remembered (s : ProbeRun) : Prop :=
  ∀ k h, s.run.cells[k]? = some (some h) → ¬ h.state.Empty → some k ∈ s.names

theorem value_of_cell {r : TempRun} {k : Nat} {h : Holder} (hc : r.cells[k]? = some (some h)) :
    r.value (some k) = h.state := by
  simp [TempRun.value, TempRun.named, hc]

/-- A record that is worth a restore is there. -/
theorem cell_of_restoreCall {ta : TempAct} (h : s.restoreCall (some i) env = some ta) :
    ∃ x, s.run.cells[i]? = some (some x) := by
  simp only [ProbeRun.restoreCall] at h
  split_ifs at h with hadd
  cases hc : s.run.named (some i) with
  | none =>
    have hv : s.run.value (some i) = .zero := by simp only [TempRun.value, hc]
    rw [hv] at hadd
    exact absurd hadd (by decide)
  | some x => exact ⟨x, Option.join_eq_some_iff.mp hc⟩

/-- A variable that is dropped names a record that owns nothing, or one that is gone. -/
theorem dropped_names {old : Option Nat}
    (hok : ∀ j e, s.restoreCall old env = some (.restore j e) →
      s.run.returns (some (.restore j e)) = true) {k : Nat} {x : Holder}
    (hx : (s.run.after (s.restoreCall old env)).cells[k]? = some (some x))
    (hne : ¬ x.state.Empty) :
    s.run.cells[k]? = some (some x) ∧ [old].count (some k) = 0 := by
  cases hcall : s.restoreCall old env with
  | none =>
    have hx : s.run.cells[k]? = some (some x) := by rwa [hcall] at hx
    have hv := value_of_cell hx
    refine ⟨hx, List.count_eq_zero.mpr fun hmem => hne ?_⟩
    obtain rfl := List.mem_singleton.mp hmem
    simpa [ProbeRun.restoreCall, zpNativePolicyHasAdditions, hv] using hcall
  | some ta =>
    obtain ⟨j, rfl, rfl⟩ := restoreCall_some hcall
    obtain ⟨y, hy⟩ := cell_of_restoreCall hcall
    rw [hcall, restore_gone hy (hok _ _ hcall)] at hx
    have hjk : j ≠ k := by
      rintro rfl
      rw [List.getElem?_set_self (List.getElem?_eq_some_iff.mp hy).1] at hx
      cases hx
    rw [List.getElem?_set_ne hjk] at hx
    exact ⟨hx, by simp [hjk]⟩

/-- A step that keeps its variable, or fills it in, loses no record. -/
theorem remembered_of_grows {old : Option Nat} (hun : Unshared s) (hI : Remembered s)
    (hmem : ∀ k, old = some k → some k ∈ s.names) (hta : Grows s.run ta)
    (hold : (s.run.value old).Empty)
    (hren : Renamed s.names s'.names old (s.loaded (some ta)))
    (hrun : s'.run = s.run.after (some ta)) : Remembered s' := by
  intro k x hx hne
  rw [← List.count_pos_iff]
  have hk := hren k
  have hkeep : s.run.cells[k]? = some (some x) → 0 < s'.names.count (some k) := by
    intro hcell
    have hpos := List.count_pos_iff.mpr (hI k x hcell hne)
    have hno : [old].count (some k) = 0 := List.count_eq_zero.mpr fun hmem => hne <| by
      obtain rfl := List.mem_singleton.mp hmem
      rwa [value_of_cell hcell] at hold
    omega
  rw [hrun] at hx
  rcases hta with ⟨hret, h, hc⟩ | ⟨hret, hc⟩
  · rw [hc] at hx
    rcases Nat.lt_trichotomy k s.run.cells.length with hlt | rfl | hgt
    · rw [List.getElem?_append_left hlt] at hx
      exact hkeep hx
    · -- the record was handed out in this step
      have hno : [old].count (some s.run.cells.length) = 0 := by
        refine List.count_eq_zero.mpr ?_
        intro hin
        exact lt_irrefl _ ((hun _).2 (hmem _ (List.mem_singleton.mp hin).symm))
      rw [ProbeRun.loaded, if_pos hret, List.count_singleton_self] at hk
      omega
    · rw [List.getElem?_eq_none (by simp; omega)] at hx
      cases hx
  · rw [hc] at hx
    exact hkeep hx

/-- A step that edits a named record in place loses no record. -/
theorem remembered_of_edits (hI : Remembered s) (hmem : some i ∈ s.names)
    (hta : Edits s.run ta i) (hren : Renamed s.names s'.names (some i) (some i))
    (hrun : s'.run = s.run.after (some ta)) : Remembered s' := by
  intro k x hx hne
  have hcount : s'.names.count (some k) = s.names.count (some k) := Nat.add_right_cancel (hren k)
  rw [← List.count_pos_iff, hcount, List.count_pos_iff]
  rcases eq_or_ne k i with rfl | hki
  · exact hmem
  · refine hI k x ?_ hne
    rw [hrun] at hx
    rcases hta with hc | ⟨h, c, -, hc⟩ <;> rw [hc] at hx
    · exact hx
    · rwa [List.getElem?_set_ne hki.symm] at hx

/-- No step that keeps its records forgets one that owns something. -/
theorem remembered_step (hplaced : ∀ h, Placed (s.life h)) (hun : Unshared s) (hI : Remembered s)
    (hP : KeepsRecords s a) (hs : probe.step s a = some s') : Remembered s' := by
  cases names_step hplaced hs with
  | same hcells hcount =>
    intro k x hx hne
    rw [← List.count_pos_iff, hcount, List.count_pos_iff]
    exact hI k x (hcells ▸ hx) hne
  | call old new env hstate hmem hload hren hrun =>
    have hrestores := hP.restores
    have hloads := hP.loads
    have hnone : (s.run.value none).Empty := empty_zero
    generalize s.tempAct a = call at hstate hload hrun hrestores hloads
    have hdrop : call = s.restoreCall old env → new = none ∨ new = old → Remembered s' := by
      rintro rfl hnew k x hx hne
      rw [hrun] at hx
      obtain ⟨hcell, hno⟩ := dropped_names hrestores hx hne
      have hpos := List.count_pos_iff.mpr (hI k x hcell hne)
      have hk := hren k
      rw [← List.count_pos_iff]
      omega
    cases hstate with
    | keep | prepared cred =>
      intro k x hx hne
      have hcount : s'.names.count (some k) = s.names.count (some k) :=
        Nat.add_right_cancel (hren k)
      rw [← List.count_pos_iff, hcount, List.count_pos_iff]
      rw [hrun] at hx
      exact hI k x hx hne
    | loaded ta hta =>
      refine remembered_of_grows hun hI hmem (loads_grows hta) ?_ hren hrun
      rw [hload ta env rfl hta]
      exact hloads ta env rfl hta
    | widened ta hta hret =>
      cases old with
      | none => exact remembered_of_grows hun hI hmem (widens_grows hta) hnone hren hrun
      | some i => exact remembered_of_edits hI (hmem i rfl) (widens_edits hta) hren hrun
    | refused ta hta hret =>
      cases old with
      | none =>
        refine remembered_of_grows hun hI hmem (widens_grows hta) hnone ?_ hrun
        rwa [ProbeRun.loaded, if_neg (by simp [hret])]
      | some i => exact remembered_of_edits hI (hmem i rfl) (widens_edits hta) hren hrun
    | restored => exact hdrop rfl (by unfold restored; split_ifs <;> simp)
    | quit => exact hdrop rfl (.inl rfl)

/-- **No record that owns something is lost**, in every run that keeps its records. -/
theorem remembered_invariant {P : ProbeRun → ProbeAct → Prop}
    (hP : ∀ s a, P s a → KeepsRecords s a) :
    probe.Invariant P fun s =>
      ((Shaped s ∧ ∀ h, Placed (s.life h)) ∧ Unshared s) ∧ Remembered s where
  init s hi := by
    refine ⟨(unshared_invariant P).init s hi, ?_⟩
    intro k x hx _
    obtain ⟨⟨-, hc⟩, -⟩ := hi
    simp [hc] at hx
  step s a s' hI hPa hs :=
    ⟨(unshared_invariant P).step s a s' hI.1 hPa hs,
      remembered_step hI.1.1.2 hI.1.2 hI.2 (hP s a hPa) hs⟩

/-- In every run that keeps its records, each one that owns something has a name. -/
theorem remembered_of_reach {P : ProbeRun → ProbeAct → Prop}
    (hP : ∀ s a, P s a → KeepsRecords s a) (hr : probe.Reach P s) : Remembered s :=
  (hr.invariant (remembered_invariant hP)).2

/-! ## 6. Every counted reference has a record -/

/-- What the cells claim, the named records claim as well. -/
theorem claims_le_names (hI : Remembered s) (k : PolicyKey) (b : Fin 32) :
    tally (cellClaims k b) s.run.cells ≤
      tally (fun name => (s.run.value name).claims k b) s.names := by
  refine tally_le_of_named ?_
  intro i x hx hne
  cases x with
  | none => exact absurd rfl hne
  | some h =>
    have hown : ¬ h.state.Empty := fun he => hne (he.claims k b)
    exact ⟨hI i h hx hown, le_of_eq (by rw [value_of_cell hx]; rfl)⟩

/-- **What the table counts, the named records claim.** -/
theorem refs_le_names {P : ProbeRun → ProbeAct → Prop} (hr : probe.Reach P s)
    (hI : Remembered s) (k : PolicyKey) (b : Fin 32) : s.run.temp.rules.refs k b ≤
      tally (fun name => (s.run.value name).claims k b) s.names := by
  cases hact : s.hostActive with
  | false =>
    rw [(hr.invariant (exited_invariant P) hact).2 k b]
    exact Nat.zero_le _
  | true =>
    obtain ⟨s₀, hi, hp⟩ := hr
    have hrun : tempRuns.Reach Lts.anyStep s.run :=
      ⟨s₀.run, hi.1, run_path (fun _ _ _ _ _ => trivial) hp hact⟩
    by_cases hk : k.Fits
    · have hcov : Covered (s.run.grant k b) :=
        (grant_reach (Q := Lts.anyStep) hk b (fun _ _ _ _ _ _ => trivial) hrun).invariant
          (covered_invariant _)
      exact hcov.trans (claims_le_names hI k b)
    · rw [(hrun.invariant (refs_of_not_fits _ hk b)).2]
      exact Nat.zero_le _

end Machine

end YukiZygisk.Probe
