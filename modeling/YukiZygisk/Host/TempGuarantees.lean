/-
# What the temporary policy guarantees

Three properties of every run of `tempRuns`, the purpose of the rule table.

* Conservation (`Conserves`): when every granted record has been restored, the policy is what
  it was and the table is empty.
* No early revocation (`NeverRevokesEarly`): what an allow required stays allowed while its
  record is not restored.
* Permanent grants (`PermanentStays`): what `prepare_runtime` asked for stays allowed.

Each fails on one kind of run, and each holds on every run that stays out of it.

* A file whose type is the tmpfs type makes the file key and the tmpfs key coincide.  The
  request is counted twice, and at the restore neither part is the last (`NoDoubleRequest`).
* Every key of a request is checked against the free slots on its own, and a key that finds
  none when it is added is not counted.  The next holder takes its permission for one that was
  there all along (`SlotsFit`).
* A permanent grant of a permission that a record owns at the moment leaves no trace, and the
  record takes the permission with it (`GrantsUnclaimed`).

All three are read off the counted grant of one permission (`grant_path`).  What remains is to see
that a run which meets the condition of the machine meets that of the grant for every permission: a
request that names each permission once asks for one reference of it (`single_of_asksOnce`), and one
for whose keys there are slots is counted in full (`counted_of_allowed`).  The statements are about
the live policy, so the vector that is read there is compared with the grant's own bit; a key with
values beyond the table's fields has the vector of its shortened form (`direct_cut`).
-/
import YukiZygisk.Host.TempRuns

namespace YukiZygisk.Policy

open CountedGrants Tally

/-! ## 1. Conservation -/

section Conservation

variable [AvtabFns]

/-- An operation of the temporary policy: an allow or a restore. -/
def TempOp (_ : TempRun) (a : TempAct) : Prop := ∀ current env, a ≠ .prepareRuntime current env

/-- **Conservation** in every run whose steps meet `P`: once every record handed out has been
restored, every vector is what it was at the start and no rule is in use. -/
def Conserves (P : TempRun → TempAct → Prop) : Prop :=
  ∀ s₀ s, tempRuns.init s₀ → tempRuns.Path P s₀ s → (∀ c ∈ s.cells, c = none) →
    (∀ k, s.temp.base.direct k = s₀.temp.base.direct k) ∧
    ∀ i, (s.temp.rules.rule i).used = false

/-- An allow or a restore, and an allow requests no permission through two keys, nor one that
its record owns. -/
def NoDoubleRequest (s : TempRun) (a : TempAct) : Prop :=
  TempOp s a ∧ ∀ k b, asks (s.held a) k b + asks (s.requests a) k b ≤ 1

/-- The second half: the permanent grants may be made as well. -/
def AsksOnce (s : TempRun) (a : TempAct) : Prop :=
  ∀ k b, asks (s.held a) k b + asks (s.requests a) k b ≤ 1

/-- Only the keys that are asked for matter. -/
instance (s : TempRun) (a : TempAct) : Decidable (AsksOnce s a) :=
  decidable_of_iff
    (∀ k ∈ (s.held a ++ s.requests a).map Prod.fst, ∀ b : Fin 32, asks (s.held a) k b +
      asks (s.requests a) k b ≤ 1) <| by
    refine ⟨fun h k b => ?_, fun h k _ b => h k b⟩
    by_cases hk : k ∈ (s.held a ++ s.requests a).map Prod.fst
    · exact h k hk b
    · have hzero := asks_of_notMem hk b
      rw [asks_append] at hzero
      omega

instance (s : TempRun) (a : TempAct) : Decidable (TempOp s a) :=
  match a with
  | .prepareRuntime current env => .isFalse fun h => h current env rfl
  | .allowFileCurrent .. | .allowFileCred .. | .allowExecmemCurrent .. | .allowExecmemCred ..
  | .restore .. => .isTrue nofun

instance (s : TempRun) (a : TempAct) : Decidable (NoDoubleRequest s a) :=
  inferInstanceAs (Decidable (TempOp s a ∧ AsksOnce s a))

/-- No record owns one permission through two of its parts. -/
def OnePart (s : TempRun) : Prop := ∀ h, some h ∈ s.cells → ∀ k b, h.state.claims k b ≤ 1

/-- No record claims a permission twice. -/
theorem onePart_step {s s' : TempRun} {a : TempAct} (hfit : CellsFit s) (hI : OnePart s)
    (hP : AsksOnce s a) (hs : tempRuns.step s a = some s') : OnePart s' := by
  intro x hx k b
  have hold : ∀ h, h = .fresh ∨ some h ∈ s.cells → h.state.claims k b ≤ 1 := by
    rintro h (rfl | hmem)
    · simp [Holder.fresh]
    · exact hI h hmem k b
  cases step_move hfit hs with
  | kept _ _ hc =>
    rcases hc with hc | ⟨h, h', hst, hk⟩
    · exact hI x (hc ▸ hx) k b
    · rcases hst.mem hx with heq | hx
      · obtain rfl := Option.some.inj heq
        rw [(kept_claims hk k b).1]
        exact hold h hst.old
      · exact hI x hx k b
  | granted _ h h' required hst _ hreq hheld _ hcl =>
    rcases hst.mem hx with heq | hx
    · obtain rfl := Option.some.inj heq
      have hone := hP k b
      rw [hreq] at hone
      rw [hcl]
      rcases hheld with hheld | rfl
      · rw [hheld] at hone
        exact hone
      · simp only [Holder.fresh, claims_zero]
        omega
    · exact hI x hx k b
  | restored i _ _ _ hc =>
    rw [hc] at hx
    rcases List.mem_or_eq_of_mem_set hx with hx | hx
    · exact hI x hx k b
    · cases hx
  | permitted _ _ hc => exact hI x (hc ▸ hx) k b

/-- A request that names a permission once is counted once, or not at all for want of a
slot. -/
theorem single_of_allowed {t t' : TempPolicy} {required : List (PolicyKey × Av)}
    (hall : Allowed t t' (requestOf t required)) {k : PolicyKey} {b : Fin 32}
    (hns : ¬ t.Settled k b) (hone : asks (requestOf t required) k b ≤ 1) :
    asks required k b ≤ 1 ∧ (t'.rules.refs k b = t.rules.refs k b + asks required k b ∨
      t'.rules.refs k b = t.rules.refs k b ∧ t.rules.refs k b = 0) := by
  have hreq : asks (requestOf t required) k b = asks required k b :=
    (asks_request t required k b).trans (if_neg hns)
  have hlt := refs_lt t.rules k b
  have hcnt : 0 < asks required k b → t.rules.refs k b < 65535 := fun hpos =>
    (hall.countable k b (hreq ▸ hpos)).2
  have hrefs := refs_addAll t.rules (requestOf t required) k b
  rw [← hall.rules, hreq] at hrefs
  rw [hreq] at hone
  refine ⟨hone, ?_⟩
  rcases hrefs with hr | ⟨hr, h0⟩
  · left
    rw [hr, Nat.mod_eq_of_lt]
    rcases Nat.eq_zero_or_pos (asks required k b) with h0 | hpos
    · omega
    · have := hcnt hpos
      omega
  · exact .inr ⟨hr.trans h0.symm, h0⟩

/-- The table keeps no idle rule, next to the two invariants its proof needs. -/
structure Tidy (s : TempRun) : Prop where
  fit : CellsFit s
  one : OnePart s
  clean : s.temp.rules.Clean

/-- What conservation needs of the table, in every run that asks once. -/
theorem tidy_invariant : tempRuns.Invariant AsksOnce Tidy where
  init s hi := by
    refine ⟨(cellsFit_invariant AsksOnce).init s hi, ?_, ?_⟩
    · intro h hmem
      rw [hi.2] at hmem
      cases hmem
    · rw [hi.1]
      exact clean_empty
  step s a s' hI hP hs := by
    refine ⟨(cellsFit_invariant AsksOnce).step s a s' hI.fit hP hs,
      onePart_step hI.fit hI.one hP hs, ?_⟩
    cases step_move hI.fit hs with
    | kept _ ht => rw [ht]; exact hI.clean
    | granted _ h h' required _ hfit hreq _ hall =>
      rw [hall.rules]
      refine clean_addAll hI.clean (requestOf_fit hfit) ?_
      intro k b hpos
      have hone := hP k b
      have hlt := (hall.countable k b hpos).2
      rw [hreq] at hone
      omega
    | restored _ _ _ _ _ _ hr =>
      rw [hr]
      exact clean_releaseAll hI.clean
    | permitted _ _ _ hr =>
      rw [hr]
      exact hI.clean

/-- The key as the avtab holds it. -/
def PolicyKey.cut (k : PolicyKey) : PolicyKey :=
  ⟨k.srcType % 65536, k.tgtType % 65536, k.tclass % 65536⟩

omit [AvtabFns] in
theorem PolicyKey.cut_fits (k : PolicyKey) : k.cut.Fits :=
  ⟨Nat.mod_lt _ (by decide), Nat.mod_lt _ (by decide), Nat.mod_lt _ (by decide)⟩

theorem direct_cut (base : PolicyBase) (k : PolicyKey) : base.direct k.cut = base.direct k := by
  have hk : k.cut.avkey = k.avkey := by simp [PolicyKey.avkey, PolicyKey.cut]
  simp only [PolicyBase.direct, Policydb.direct, Avtab.direct, hk]

/-- Vectors that agree on every key the avtab can hold agree on every key. -/
theorem direct_eq_of_fits {base base' : PolicyBase}
    (h : ∀ k : PolicyKey, k.Fits → base'.direct k = base.direct k) (k : PolicyKey) :
    base'.direct k = base.direct k := by
  rw [← direct_cut base, ← direct_cut base']
  exact h _ k.cut_fits

/-- One permission is asked for once, and left once. -/
theorem single_of_asksOnce {s : TempRun} {a : TempAct} (htidy : Tidy s) (hP : AsksOnce s a)
    (ha : TempOp s a) {k : PolicyKey} {b : Fin 32} {e : Event} (he : EventOf s a k b e) :
    Single (s.grant k b) e := by
  cases he with
  | ask t' required hreq hall =>
    intro hns
    have hone := hP k b
    rw [hreq] at hone
    exact single_of_allowed hall hns (by omega)
  | leave h hmem => exact htidy.one h hmem k b
  | permit current env he => exact absurd he (ha current env)

/-- What the permanent grants add while nobody claims it joins what was allowed at the start, and
every other step keeps the permission conserved. -/
theorem conserved_after {s s' : TempRun} {a : TempAct} {base : Bool} (htidy : Tidy s)
    (hP : AsksOnce s a) (hs : tempRuns.step s a = some s') {k : PolicyKey} (hk : k.Fits)
    (b : Fin 32) (hI : Conserved base (s.grant k b)) :
    (TempOp s a ∧ Conserved base (s'.grant k b)) ∨
      ∃ current env, a = .prepareRuntime current env ∧
        Conserved (base || ((s'.temp.base.direct k).getLsbD b &&
          !(s.temp.base.direct k).getLsbD b)) (s'.grant k b) := by
  by_cases ha : TempOp s a
  · refine .inl ⟨ha, ?_⟩
    rcases grant_step htidy.fit hs hk b with heq | ⟨e, he, hstep⟩
    · rwa [heq]
    · exact conserved_step hI (single_of_asksOnce htidy hP ha he) hstep
  · obtain ⟨current, env, rfl⟩ : ∃ current env, a = .prepareRuntime current env := by
      simpa [TempOp] using ha
    refine .inr ⟨current, env, rfl, ?_⟩
    obtain rfl := Option.some.inj hs
    refine conserved_permit hI fun hb => ?_
    have hspec := prepareRuntime_spec (Prod.mk.eta.symm :
      yzHostPolicyPrepareRuntimeCurrent s.temp.base current env = (_, _))
    rcases hspec with ⟨-, hsame⟩ | ⟨-, -, hmono, -⟩
    · rw [hsame]
      exact hb
    · exact hmono k b hb

/-- Once no record claims anything, no permission is counted, and each one is allowed if it was
at the start. -/
theorem unclaimed_of_noDoubleRequest {s₀ s : TempRun} (hi : tempRuns.init s₀)
    (hp : tempRuns.Path NoDoubleRequest s₀ s)
    (hnone : ∀ c ∈ s.cells, ∀ k b, cellClaims k b c = 0) {k : PolicyKey} (hk : k.Fits)
    (b : Fin 32) : s.temp.rules.refs k b = 0 ∧
      (s.temp.base.direct k).getLsbD b = (s₀.temp.base.direct k).getLsbD b := by
  have hpath : grants.Path Single (s₀.grant k b) (s.grant k b) := by
    refine grant_path hk b (fun t a e hrt hP he => ?_) (.ofInit hi) hp
    have htidy := (hrt.mono fun _ _ hP => hP.2).invariant tidy_invariant
    exact single_of_asksOnce htidy hP.2 hP.1 he
  have hcons : Conserved (s₀.temp.base.direct k |>.getLsbD b) (s.grant k b) := by
    obtain ⟨h0, hc, -⟩ := grant_init hi k b
    refine hpath.preserve (.ofInit (grant_init hi k b))
      (J := Conserved ((s₀.temp.base.direct k).getLsbD b))
      (fun g e g' _ hJ hP hs => conserved_step hJ hP hs) ⟨.inl (by omega), ?_, fun _ => hc⟩
    rw [hc]
    simp [TempRun.grant]
  have hzero : (s.grant k b).claims = 0 := tally_eq_zero fun c hc => hnone c hc k b
  have hall := hcons.allowed
  rw [hzero] at hall
  refine ⟨?_, by simpa [TempRun.grant] using hall⟩
  rcases hcons.counted with hcnt | ⟨hcnt, -⟩
  · exact hcnt.trans hzero
  · exact hcnt

/-- **Conservation holds in every run that requests no permission twice.** -/
theorem conserves_of_noDoubleRequest : Conserves NoDoubleRequest := by
  intro s₀ s hi hp hnone
  have hr : tempRuns.Reach NoDoubleRequest s := ⟨s₀, hi, hp⟩
  have hunclaimed : ∀ c ∈ s.cells, ∀ k b, cellClaims k b c = 0 := fun c hc k b => by
    rw [hnone c hc]
    rfl
  have hdone := fun {k : PolicyKey} (hk : k.Fits) =>
    unclaimed_of_noDoubleRequest hi hp hunclaimed hk
  refine ⟨direct_eq_of_fits fun k hk => ?_, ?_⟩
  · exact BitVec.eq_of_getLsbD_eq fun b hb => (hdone hk ⟨b, hb⟩).2
  · intro i
    by_contra hu
    have htidy := (hr.mono fun _ _ hP => hP.2).invariant tidy_invariant
    obtain ⟨hk, b, hb⟩ := htidy.clean _
      (find_isSome.mpr ⟨i, by simpa using hu, rfl⟩)
    exact hb (hdone hk b).1

end Conservation

/-- Zygote loads two files of the app type and asks for execmem; the records are restored in
another order. -/
theorem conserves_twoLoads : ∃ s s', tempRuns.Path NoDoubleRequest (demoRun 4 (by decide)) s ∧
    tempRuns.Path NoDoubleRequest s s' ∧ s.temp.rules.refs ⟨1, 4, 1⟩ 0 = 2 ∧
    (s.temp.base.direct ⟨1, 1, 3⟩).getLsbD 1 = true ∧
    (∀ k, s'.temp.base.direct k = (demoRun 4 (by decide)).temp.base.direct k) ∧
      ∀ i, (s'.temp.rules.rule i).used = false := by
  obtain ⟨s, s', hp, hp', hs, hs'⟩ := Lts.exists_path_of_guarded (M := tempRuns)
    (P := NoDoubleRequest) (g := fun s a => decide (NoDoubleRequest s a))
    (fun _ _ => of_decide_eq_true) (s := demoRun 4 (by decide))
    [.allowFileCurrent (fileOf 4) (credOf 1) editOk, .allowExecmemCurrent (some 0) (credOf 1) editOk,
      .allowFileCurrent (fileOf 4) (credOf 1) editOk]
    [.restore 0 editOk, .restore 1 editOk]
    (fun s => decide (s.temp.rules.refs ⟨1, 4, 1⟩ 0 = 2) &&
      (s.temp.base.direct ⟨1, 1, 3⟩).getLsbD 1)
    (fun s => s.cells.all (·.isNone)) (by decide +kernel)
  obtain ⟨hrefs, hbit⟩ := Bool.and_eq_true_iff.mp hs
  have hnone : ∀ c ∈ s'.cells, c = none := fun c hc => by
    simpa using List.all_eq_true.mp hs' c hc
  exact ⟨s, s', hp, hp', of_decide_eq_true hrefs, hbit,
    conserves_of_noDoubleRequest _ s' (demoRun_init 4 (by decide)) (hp.trans hp') hnone⟩

/-- **A file of tmpfs's own type leaks.**  Zygote loads it and the record is restored, but
both of its coinciding parts see two references, so neither clears the policy. -/
theorem not_conserves : ¬ Conserves TempOp := by
  intro h
  have hrun : (tempRuns.exec (demoRun 4 (by decide))
      [.allowFileCurrent (fileOf 3) (credOf 1) editOk, .restore 0 editOk]).any
      (fun s => s.cells.all (·.isNone) &&
        decide (s.temp.base.direct ⟨1, 3, 1⟩ ≠
          (demoRun 4 (by decide)).temp.base.direct ⟨1, 3, 1⟩)) = true := by
    decide +kernel
  obtain ⟨s, hs, hp⟩ := (Option.any_eq_true _ _).mp hrun
  obtain ⟨hcells, hne⟩ := Bool.and_eq_true_iff.mp hp
  have hpath : tempRuns.Path TempOp (demoRun 4 (by decide)) s := by
    refine Lts.path_of_exec _ _ _ (fun a ha t current env he => ?_) hs
    rw [he] at ha
    simp at ha
  refine of_decide_eq_true hne ((h _ s (demoRun_init 4 (by decide)) hpath fun c hc => ?_).1 _)
  simpa using List.all_eq_true.mp hcells c hc

/-! ## 2. No early revocation -/

/-- The execmem vector of a class names one permission at most. -/
theorem execmem_oneBit (cls : ClassDatum) : ∃ n, ∀ b : Nat,
    (yzPolicyRequiredAv cls yzProcessExecmemPerms).getLsbD b = true → b = n := by
  simp only [yzPolicyRequiredAv, yzProcessExecmemPerms, List.foldl_cons, List.foldl_nil]
  unfold yzPolicyPermMask
  split
  · exact ⟨0, fun b hb => by simp at hb⟩
  · rename_i value _
    split_ifs
    · exact ⟨0, fun b hb => by simp at hb⟩
    · refine ⟨value - 1, ?_⟩
      intro b hb
      simp only [BitVec.ofNat_eq_ofNat, BitVec.zero_or, BitVec.getLsbD_shiftLeft,
        BitVec.getLsbD_one] at hb
      simp at hb
      omega

section NoEarlyRevocation

variable [AvtabFns]

/-- **No early revocation** in every run whose steps meet `P`: whatever the allows of a live
record required is allowed. -/
def NeverRevokesEarly (P : TempRun → TempAct → Prop) : Prop :=
  ∀ s, tempRuns.Reach P s → ∀ h, some h ∈ s.cells → ∀ p ∈ h.required, ∀ b : Fin 32,
    p.2.getLsbD b = true → (s.temp.base.direct p.1).getLsbD b = true

/-- An allow that finds some slot free finds one for every key it requests that has no rule,
and a permission requested through several keys at once does not wrap its counter. -/
def SlotsFit (s : TempRun) (a : TempAct) : Prop :=
  (freeSlots s.temp.rules = ∅ ∨
    (newKeys s.temp.rules (s.requests a)).card ≤ (freeSlots s.temp.rules).card) ∧
  ∀ k b, 1 < asks (s.requests a) k b →
    s.temp.rules.refs k b + asks (s.requests a) k b ≤ 65535

instance (s : TempRun) (a : TempAct) : Decidable (SlotsFit s a) :=
  decidable_of_iff
    ((freeSlots s.temp.rules = ∅ ∨
      (newKeys s.temp.rules (s.requests a)).card ≤ (freeSlots s.temp.rules).card) ∧
    ∀ k ∈ (s.requests a).map Prod.fst, ∀ b : Fin 32, 1 < asks (s.requests a) k b →
      s.temp.rules.refs k b + asks (s.requests a) k b ≤ 65535) <| by
    refine and_congr_right fun _ => ⟨fun h k b hlt => ?_, fun h k _ b => h k b⟩
    by_cases hk : k ∈ (s.requests a).map Prod.fst
    · exact h k hk b hlt
    · rw [asks_of_notMem hk] at hlt
      cases hlt

/-- A request that could be planned has no new key when no slot is free. -/
theorem newKeys_empty_of_full {t t' : TempPolicy} {parts : List (PolicyKey × Av)}
    (hall : Allowed t t' parts) (hfull : freeSlots t.rules = ∅) : newKeys t.rules parts = ∅ := by
  refine Finset.eq_empty_of_forall_notMem ?_
  intro k hk
  obtain ⟨⟨p, hp, hne, rfl⟩, hnone⟩ := mem_newKeys.mp hk
  obtain ⟨b, hb⟩ := exists_bit hne
  rcases (hall.countable p.1 b (asks_pos.mpr ⟨p, hp, rfl, hb⟩)).1 with hsome | hfree
  · rw [hnone] at hsome
    cases hsome
  · obtain ⟨i, hi⟩ := Option.isSome_iff_exists.mp hfree
    have hmem : i ∈ freeSlots t.rules := mem_freeSlots.mpr (findFree_some hi)
    rw [hfull] at hmem
    cases hmem

/-- Under `SlotsFit` every request that is not settled is counted in full. -/
theorem counted_of_allowed {t t' : TempPolicy} {required : List (PolicyKey × Av)}
    (hall : Allowed t t' (requestOf t required))
    (hslots : freeSlots t.rules = ∅ ∨
      (newKeys t.rules (requestOf t required)).card ≤ (freeSlots t.rules).card)
    {k : PolicyKey} {b : Fin 32} (hns : ¬ t.Settled k b)
    (hwrap : 1 < asks (requestOf t required) k b →
      t.rules.refs k b + asks (requestOf t required) k b ≤ 65535) :
    t'.rules.refs k b = t.rules.refs k b + asks required k b := by
  have hreq : asks (requestOf t required) k b = asks required k b :=
    (asks_request t required k b).trans (if_neg hns)
  have hcard : (newKeys t.rules (requestOf t required)).card ≤ (freeSlots t.rules).card := by
    rcases hslots with hfull | hle
    · rw [newKeys_empty_of_full hall hfull]
      exact Nat.zero_le _
    · exact hle
  have hlt := refs_lt t.rules k b
  have hcnt : 0 < asks required k b → t.rules.refs k b < 65535 := fun hpos =>
    (hall.countable k b (hreq ▸ hpos)).2
  rw [hreq] at hwrap
  rw [hall.rules, refs_addAll_of_slots hcard, hreq, Nat.mod_eq_of_lt]
  rcases Nat.lt_or_ge 1 (asks required k b) with h2 | h1
  · have := hwrap h2
    omega
  · rcases Nat.eq_zero_or_pos (asks required k b) with h0 | hpos
    · omega
    · have := hcnt hpos
      omega

/-- A requested part of an execmem vector is all of it or nothing. -/
theorem requestAv_execmem {t : TempPolicy} {key : PolicyKey} {cls : ClassDatum}
    (h : requestAv t key (yzPolicyRequiredAv cls yzProcessExecmemPerms) ≠ 0) :
    requestAv t key (yzPolicyRequiredAv cls yzProcessExecmemPerms) =
      yzPolicyRequiredAv cls yzProcessExecmemPerms := by
  obtain ⟨n, hn⟩ := execmem_oneBit cls
  obtain ⟨b, hb⟩ := exists_bit h
  have hsub : ∀ i : Fin 32,
      (requestAv t key (yzPolicyRequiredAv cls yzProcessExecmemPerms)).getLsbD i = true →
      (yzPolicyRequiredAv cls yzProcessExecmemPerms).getLsbD i = true := by
    intro i hi
    rw [getLsbD_requestAv, Bool.and_eq_true] at hi
    exact hi.1
  refine BitVec.eq_of_getLsbD_eq fun i hi => Bool.eq_iff_iff.mpr ⟨hsub ⟨i, hi⟩, fun hreq => ?_⟩
  have hib : i = (b : Nat) := (hn i hreq).trans (hn b (hsub b hb)).symm
  exact hib ▸ hb

/-- What the cells of a run record truthfully. -/
structure Recorded (s : TempRun) : Prop where
  fit : CellsFit s
  /-- a record that owns an execmem permission owns all that the class asks for -/
  whole : ∀ h, some h ∈ s.cells → h.state.processAddedAv ≠ 0 →
    ∀ policy cls, s.temp.base.policy = some policy →
      classByName policy.policydb "process" = some cls →
      h.state.processAddedAv = yzPolicyRequiredAv cls yzProcessExecmemPerms
  /-- what a record required it claims or relies on -/
  noted : ∀ h, some h ∈ s.cells → ∀ p ∈ h.required, ∀ b : Fin 32, p.2.getLsbD b = true →
    p.1.Fits ∧ (0 < h.state.claims p.1 b ∨ 0 < asks h.relied p.1 b)

/-- The execmem vector does not change while the policy's symbols stay. -/
theorem whole_of_sameBase {base base' : PolicyBase} (hb : SameBase base base') {av : Av}
    (h : ∀ policy cls, base.policy = some policy →
      classByName policy.policydb "process" = some cls →
      av = yzPolicyRequiredAv cls yzProcessExecmemPerms) :
    ∀ policy cls, base'.policy = some policy →
      classByName policy.policydb "process" = some cls →
      av = yzPolicyRequiredAv cls yzProcessExecmemPerms := by
  intro policy cls hp hc
  obtain ⟨p, hp', hsym, -⟩ := hb.policy policy hp
  exact h p cls hp' ((classByName_congr hsym _).symm.trans hc)

theorem tempMove_sameBase {s s' : TempRun} {a : TempAct} (hm : TempMove s s' a) :
    SameBase s.temp.base s'.temp.base := by
  cases hm with
  | kept _ ht => rw [ht]; exact .refl _
  | granted _ _ _ _ _ _ _ _ hall => exact hall.base
  | restored _ _ _ _ _ hb => exact hb
  | permitted _ _ _ _ hb => exact hb

/-- The record after an allow notes the new requirements next to the old ones. -/
theorem noted_granted {t : TempPolicy} {h h' : Holder} {required : List (PolicyKey × Av)}
    (hfit : PartsFit required)
    (hold : ∀ p ∈ h.required, ∀ b : Fin 32, p.2.getLsbD b = true →
      p.1.Fits ∧ (0 < h.state.claims p.1 b ∨ 0 < asks h.relied p.1 b))
    (hcl : ∀ k b, h'.state.claims k b =
      h.state.claims k b + asks (requestOf t required) k b)
    (hreq : h'.required = h.required ++ required)
    (hrel : h'.relied = h.relied ++ reliedOf t required) :
    ∀ p ∈ h'.required, ∀ b : Fin 32, p.2.getLsbD b = true →
      p.1.Fits ∧ (0 < h'.state.claims p.1 b ∨ 0 < asks h'.relied p.1 b) := by
  intro p hp b hb
  rw [hreq, List.mem_append] at hp
  rw [hcl, hrel, asks_append, asks_relied,
    show asks (requestOf t required) p.1 b = _ from asks_request t required p.1 b]
  rcases hp with hp | hp
  · obtain ⟨hf, hor⟩ := hold p hp b hb
    exact ⟨hf, by omega⟩
  · have hne : p.2 ≠ 0 := by
      intro h0
      rw [h0] at hb
      simp at hb
    have hpos : 0 < asks required p.1 b := asks_pos.mpr ⟨p, hp, rfl, hb⟩
    refine ⟨hfit p hp hne, ?_⟩
    by_cases hset : t.Settled p.1 b
    · rw [if_pos hset, if_pos hset]; omega
    · rw [if_neg hset, if_neg hset]; omega

/-- What was granted is written down, in every run. -/
theorem recorded_invariant (P : TempRun → TempAct → Prop) : tempRuns.Invariant P Recorded where
  init s hi := by
    refine ⟨(cellsFit_invariant P).init s hi, fun h hmem => ?_, fun h hmem => ?_⟩ <;>
      (rw [hi.2] at hmem; cases hmem)
  step s a s' hI hP hs := by
    have hmove := step_move hI.fit hs
    have hbase := tempMove_sameBase hmove
    have hwhole : ∀ h, some h ∈ s.cells → h.state.processAddedAv ≠ 0 →
        ∀ policy cls, s'.temp.base.policy = some policy →
          classByName policy.policydb "process" = some cls →
          h.state.processAddedAv = yzPolicyRequiredAv cls yzProcessExecmemPerms :=
      fun h hmem hne => whole_of_sameBase hbase (hI.whole h hmem hne)
    have hnoted : ∀ h, h = .fresh ∨ some h ∈ s.cells → ∀ p ∈ h.required, ∀ b : Fin 32,
        p.2.getLsbD b = true →
        p.1.Fits ∧ (0 < h.state.claims p.1 b ∨ 0 < asks h.relied p.1 b) := by
      rintro h (rfl | hmem)
      · intro p hp
        cases hp
      · exact hI.noted h hmem
    refine ⟨(cellsFit_invariant P).step s a s' hI.fit hP hs, ?_, ?_⟩
    · intro x hx
      cases hmove with
      | kept _ ht hc =>
        rcases hc with hc | ⟨h, h', hst, hk⟩
        · exact hwhole x (hc ▸ hx)
        · rcases hst.mem hx with heq | hx
          · obtain rfl := Option.some.inj heq
            have hsame : x.state.processAddedAv = h.state.processAddedAv := by
              cases hk with
              | failed _ _ he => exact he
              | again _ _ _ he => rw [he]
            rw [hsame]
            rcases hst.old with rfl | hmem
            · exact fun hne => absurd rfl hne
            · exact hwhole h hmem
          · exact hwhole x hx
      | granted _ h h' required hst _ _ _ hall _ _ hproc =>
        rcases hst.mem hx with heq | hx
        · obtain rfl := Option.some.inj heq
          intro hne
          rcases hproc with h0 | ⟨c, key, av, hkey, hav⟩
          · exact absurd h0 hne
          · refine whole_of_sameBase hbase ?_
            intro policy cls hp hc
            obtain ⟨-, -, policy', cls', hp', hc', -, rfl⟩ := getExecmemKey_shape hkey
            obtain rfl := Option.some.inj (hp.symm.trans hp')
            obtain rfl := Option.some.inj (hc.symm.trans hc')
            rw [hav] at hne ⊢
            exact requestAv_execmem hne
        · exact hwhole x hx
      | restored i _ _ _ hc =>
        rw [hc] at hx
        rcases List.mem_or_eq_of_mem_set hx with hx | hx
        · exact hwhole x hx
        · cases hx
      | permitted _ _ hc => exact hwhole x (hc ▸ hx)
    · intro x hx
      cases hmove with
      | kept _ ht hc =>
        rcases hc with hc | ⟨h, h', hst, hk⟩
        · exact hI.noted x (hc ▸ hx)
        · rcases hst.mem hx with heq | hx
          · obtain rfl := Option.some.inj heq
            have hclaims := fun k b => kept_claims hk k b
            cases hk with
            | failed _ _ _ hr =>
              rw [hr]
              intro p hp b hb
              rw [(hclaims p.1 b).1, (hclaims p.1 b).2]
              exact hnoted h hst.old p hp b hb
            | again c key av he hown hty hcl hkey hr =>
              rw [hr]
              intro p hp b hb
              rw [(hclaims p.1 b).1, (hclaims p.1 b).2]
              rcases List.mem_append.mp hp with hp | hp
              · exact hnoted h hst.old p hp b hb
              · -- the record owns the execmem permission that is asked for again
                obtain rfl := List.mem_singleton.mp hp
                obtain ⟨hfit, htgt, policy, cls, hpol, hcls, -, rfl⟩ := getExecmemKey_shape hkey
                have hmem : some h ∈ s.cells := hst.old.resolve_left fun hf =>
                  hown (by rw [hf]; rfl)
                refine ⟨hfit, .inl (asks_pos.mpr ⟨(⟨h.state.processType, h.state.processType,
                  h.state.processClass⟩, h.state.processAddedAv), ?_, ?_, ?_⟩)⟩
                · simp [FileLoadPolicy.parts]
                · rw [hty, hcl]
                  exact processKey_eq htgt
                · rw [hI.whole h hmem hown policy cls hpol hcls]
                  exact hb
          · exact hI.noted x hx
      | granted _ h h' required hst hfit _ _ _ hcl _ _ hreq hrel =>
        rcases hst.mem hx with heq | hx
        · obtain rfl := Option.some.inj heq
          exact noted_granted hfit (hnoted h hst.old) hcl hreq hrel
        · exact hI.noted x hx
      | restored i _ _ _ hc =>
        rw [hc] at hx
        rcases List.mem_or_eq_of_mem_set hx with hx | hx
        · exact hI.noted x hx
        · cases hx
      | permitted _ _ hc => exact hI.noted x (hc ▸ hx)

/-- What a record required is allowed while it is there, when every request finds its slots. -/
theorem direct_of_slotsFit {s : TempRun} (hr : tempRuns.Reach SlotsFit s) {h : Holder}
    (hmem : some h ∈ s.cells) {p : PolicyKey × Av} (hp : p ∈ h.required) {b : Fin 32}
    (hb : p.2.getLsbD b = true) : (s.temp.base.direct p.1).getLsbD b = true := by
  obtain ⟨hk, hor⟩ := (hr.invariant (recorded_invariant _)).noted h hmem p hp b hb
  have hback : Backed (s.grant p.1 b) := by
    refine (grant_reach hk b (fun t a e hrt hP he => ?_) hr).invariant backed_invariant
    cases he with
    | ask t' required hreq hall =>
      intro hns
      obtain ⟨hslots, hwrap⟩ := hP
      rw [hreq] at hslots hwrap
      exact counted_of_allowed hall hslots hns (hwrap _ _)
    | leave h hmem => trivial
    | permit current env ha => trivial
  refine hback.allowed ?_
  have hcl : h.state.claims p.1 b ≤ (s.grant p.1 b).claims := le_tally (cellClaims p.1 b) hmem
  have hnd : asks h.relied p.1 b ≤ (s.grant p.1 b).needs := le_tally (cellNeeds p.1 b) hmem
  omega

/-- **Nothing is revoked early in a run in which every request finds its slots.** -/
theorem neverRevokesEarly_of_slotsFit : NeverRevokesEarly SlotsFit := by
  intro s hr h hmem p hp b hb
  exact direct_of_slotsFit hr hmem hp hb

end NoEarlyRevocation

/-- Two loads share a permission, and the first record is restored. -/
theorem neverRevokesEarly_shared : ∃ s, tempRuns.Reach SlotsFit s ∧
    ∃ h, some h ∈ s.cells ∧ s.cells[0]? = some none ∧ ∃ p ∈ h.required, p.1 = ⟨1, 4, 1⟩ ∧
      p.2.getLsbD (0 : Fin 32) = true ∧ (s.temp.base.direct p.1).getLsbD (0 : Fin 32) = true := by
  obtain ⟨s, hr, hs⟩ := Lts.exists_reach_of_guarded (M := tempRuns) (P := SlotsFit)
    (g := fun s a => decide (SlotsFit s a)) (fun _ _ => of_decide_eq_true)
    (demoRun_init 4 (by decide))
    [.allowFileCurrent (fileOf 4) (credOf 1) editOk, .allowFileCurrent (fileOf 4) (credOf 1) editOk,
      .restore 0 editOk]
    (fun s => (s.cells[0]?).any (·.isNone) && (s.cells[1]?).join.any fun h =>
      h.required.any fun p => decide (p.1 = ⟨1, 4, 1⟩) && p.2.getLsbD 0) (by decide +kernel)
  obtain ⟨hgone, hs⟩ := Bool.and_eq_true_iff.mp hs
  obtain ⟨c, hc, hnone⟩ := (Option.any_eq_true _ _).mp hgone
  obtain rfl := Option.isNone_iff_eq_none.mp hnone
  obtain ⟨h, hh, hreq⟩ := (Option.any_eq_true _ _).mp hs
  obtain ⟨p, hp, hkey⟩ := List.any_eq_true.mp hreq
  obtain ⟨hkey, hbit⟩ := Bool.and_eq_true_iff.mp hkey
  have hcell := List.mem_of_getElem? (Option.join_eq_some_iff.mp hh)
  exact ⟨s, hr, h, hcell, hc, p, hp, of_decide_eq_true hkey, hbit,
    neverRevokesEarly_of_slotsFit s hr h hcell p hp 0 hbit⟩

/-- A module load by zygote of a file with this type. -/
def loadCred (type : Nat) : TempAct := .allowFileCred (fileOf type) (some (credOf 1)) editOk

theorem tempOp_loadCred (s : TempRun) (type : Nat) : TempOp s (loadCred type) := nofun

/-- Thirty-one loads of different types leave one slot of the table.  The next one asks for
two more rules, gets one, and its directory part is not counted; the load after it finds the
directory permissions allowed and owned by nobody. -/
def lastSlot : List TempAct :=
  (List.range 31).map (fun i => loadCred (i + 5)) ++ [loadCred 36, loadCred 36, .restore 31 editOk]

/-- **The first holder takes the second one's permission away.** -/
theorem not_neverRevokesEarly : ¬ NeverRevokesEarly TempOp := by
  intro h
  have hrun : (tempRuns.exec (demoRun 36 (by decide)) lastSlot).any (fun s =>
      (s.cells[32]?).join.any fun h => h.required.any fun p =>
        p.2.getLsbD 0 && !(s.temp.base.direct p.1).getLsbD 0) = true := by
    decide +kernel
  obtain ⟨s, hs, hp⟩ := (Option.any_eq_true _ _).mp hrun
  obtain ⟨x, hx, hreq⟩ := (Option.any_eq_true _ _).mp hp
  obtain ⟨p, hmem, hbits⟩ := List.any_eq_true.mp hreq
  rw [Bool.and_eq_true, Bool.not_eq_true'] at hbits
  have hpath : tempRuns.Path TempOp (demoRun 36 (by decide)) s := by
    refine Lts.path_of_exec _ _ _ (fun a ha t => ?_) hs
    rcases List.mem_append.mp ha with ha | ha
    · obtain ⟨i, -, rfl⟩ := List.mem_map.mp ha
      exact tempOp_loadCred t _
    · simp only [List.mem_cons, List.not_mem_nil, or_false] at ha
      rcases ha with rfl | rfl | rfl
      · exact tempOp_loadCred t _
      · exact tempOp_loadCred t _
      · exact nofun
  have hcell := List.mem_of_getElem? (Option.join_eq_some_iff.mp hx)
  have hdir := h s ⟨_, demoRun_init 36 (by decide), hpath⟩ x hcell p hmem 0 hbits.1
  exact Bool.false_ne_true (hbits.2.symm.trans hdir)

/-! ## 3. Permanent grants -/

section PermanentGrants

variable [AvtabFns]

/-- **Permanent grants stay** when the state they are made in meets `P`: whatever a successful
`prepare_runtime` asked for is allowed in every later state of every run. -/
def PermanentStays (P : TempRun → TempAct → Prop) : Prop :=
  ∀ s current env s' s'', tempRuns.Reach Lts.anyStep s → P s (.prepareRuntime current env) →
    tempRuns.step s (.prepareRuntime current env) = some s' →
    (yzHostPolicyPrepareRuntimeCurrent s.temp.base current env).2 = .ok () →
    tempRuns.Path Lts.anyStep s' s'' → ∀ k (b : Fin 32), AsksRuntime s.temp.base current k b →
    (s''.temp.base.direct k).getLsbD b = true

/-- No live record owns a permission that the permanent grants ask for. -/
def GrantsUnclaimed (s : TempRun) (a : TempAct) : Prop :=
  ∀ current env, a = .prepareRuntime current env → ∀ k (b : Fin 32),
    AsksRuntime s.temp.base current k b → ∀ h, some h ∈ s.cells → h.state.claims k b = 0

/-- **Permanent grants made while nobody owns the permission stay**, whatever comes after. -/
theorem permanentStays_of_grantsUnclaimed : PermanentStays GrantsUnclaimed := by
  intro s current env s' s'' hr hP hs hok hp k b hask
  have hk := asksRuntime_fits hask
  have hcov : Covered (s.grant k b) :=
    (grant_reach (Q := Lts.anyStep) hk b (fun _ _ _ _ _ _ => trivial) hr).invariant
      (covered_invariant _)
  have hclaims : (s.grant k b).claims = 0 := tally_eq_zero fun c hc => by
    cases c with
    | none => rfl
    | some h => exact hP current env rfl k b hask h hc
  have hrefs : (s.grant k b).refs = 0 := Nat.le_zero.mp (hclaims ▸ hcov)
  have hr' : tempRuns.Reach Lts.anyStep s' := hr.step trivial hs
  have hunowned : Unowned (s'.grant k b) := by
    have hspec := prepareRuntime_spec (Prod.mk.eta.symm :
      yzHostPolicyPrepareRuntimeCurrent s.temp.base current env = (_, _))
    rcases hspec with ⟨hne, -⟩ | ⟨-, -, -, hasks⟩
    · exact absurd hok hne
    · obtain rfl : _ = s' := Option.some.inj hs
      exact ⟨hasks k b hask, hrefs, hclaims⟩
  have hpath : grants.Path Lts.anyStep (s'.grant k b) (s''.grant k b) :=
    grant_path hk b (fun _ _ _ _ _ _ => trivial) hr' hp
  have hreach : grants.Reach Lts.anyStep (s'.grant k b) :=
    grant_reach hk b (fun _ _ _ _ _ _ => trivial) hr'
  exact (hpath.preserve hreach (fun _ _ _ _ hJ _ hst => unowned_step hJ hst) hunowned).1

end PermanentGrants

/-- System_server's execmem is granted for good while a restored record has left nothing; a later
record of the same permission does not take it away. -/
theorem permanentStays_lateRecord : ∃ s, tempRuns.Reach Lts.anyStep s ∧
    (s.cells.any fun c => c.isNone) = true ∧
    ∃ s', tempRuns.step s (.prepareRuntime (credOf 4) runtimeOk) = some s' ∧
      ∃ s'', tempRuns.Path Lts.anyStep s' s'' ∧ s''.cells = [none, none] ∧
        (s''.temp.base.direct ⟨2, 2, 3⟩).getLsbD (1 : Fin 32) = true := by
  have hrun : (tempRuns.exec (demoRun 4 (by decide))
      [.allowFileCurrent (fileOf 4) (credOf 1) editOk, .restore 0 editOk]).any (fun s =>
      s.cells.all (·.isNone) && s.cells.any (·.isNone) &&
      decide ((yzHostPolicyPrepareRuntimeCurrent s.temp.base (credOf 4) runtimeOk).2 = .ok ()) &&
      (s.temp.base.policy.any fun p => (yzPolicySidtabSearch p 4).isSome &&
        (p.policydb.pTypes.lookup "system_server").any (fun d => d.value = 2) &&
        (classByName p.policydb "process").any fun c => c.value = 3 &&
          (yzPolicyRequiredAv c yzProcessExecmemPerms).getLsbD 1) &&
      (tempRuns.exec s [.prepareRuntime (credOf 4) runtimeOk,
        .allowExecmemCred none (some (credOf 2)) editOk, .restore 1 editOk]).any fun s =>
          s.cells.all (·.isNone) && s.cells.length == 2) = true := by
    decide +kernel
  obtain ⟨s, hs, hp⟩ := (Option.any_eq_true _ _).mp hrun
  simp only [Bool.and_eq_true, decide_eq_true_eq] at hp
  obtain ⟨⟨⟨⟨hall, hany⟩, hok⟩, hpol⟩, hlater⟩ := hp
  obtain ⟨p, hp, hq⟩ := (Option.any_eq_true _ _).mp hpol
  simp only [Bool.and_eq_true] at hq
  obtain ⟨⟨hctx, hty⟩, hcls⟩ := hq
  obtain ⟨ctx, hctx⟩ := Option.isSome_iff_exists.mp hctx
  obtain ⟨d, hd, hv⟩ := (Option.any_eq_true _ _).mp hty
  obtain ⟨c, hc, hcv⟩ := (Option.any_eq_true _ _).mp hcls
  simp only [Bool.and_eq_true, decide_eq_true_eq] at hv hcv
  have hask : AsksRuntime s.temp.base (credOf 4) ⟨2, 2, 3⟩ (1 : Fin 32) :=
    ⟨p, ctx, hp, hctx, .inr ⟨d, c, hd, hc, by rw [hv, hcv.1], hcv.2⟩⟩
  obtain ⟨s'', hs'', hcells⟩ := (Option.any_eq_true _ _).mp hlater
  obtain ⟨s', hs', hrest⟩ := Option.bind_eq_some_iff.mp hs''
  have hreach : tempRuns.Reach Lts.anyStep s :=
    ⟨_, demoRun_init 4 (by decide), Lts.path_of_exec _ _ _ (fun _ _ _ => trivial) hs⟩
  have hpath : tempRuns.Path Lts.anyStep s' s'' :=
    Lts.path_of_exec _ _ _ (fun _ _ _ => trivial) hrest
  have hfree : GrantsUnclaimed s (.prepareRuntime (credOf 4) runtimeOk) := by
    intro _ _ _ _ _ _ h hmem
    have hnone := List.all_eq_true.mp hall _ hmem
    cases hnone
  obtain ⟨hgone, hlen⟩ := Bool.and_eq_true_iff.mp hcells
  refine ⟨s, hreach, hany, s', hs', s'', hpath, ?_,
    permanentStays_of_grantsUnclaimed s _ _ s' s'' hreach hfree hs' hok hpath _ 1 hask⟩
  refine List.eq_replicate_iff.mpr ⟨by simpa using hlen, fun c hc => ?_⟩
  simpa using List.all_eq_true.mp hgone c hc

/-- **A temporary record takes a permanent grant with it.**  It owns system_server's execmem
when the daemon prepares the runtime, and clears it when it is restored. -/
theorem not_permanentStays : ¬ PermanentStays Lts.anyStep := by
  intro h
  have hrun : (tempRuns.exec (demoRun 4 (by decide))
      [.allowExecmemCred none (some (credOf 2)) editOk]).any (fun s =>
      decide ((yzHostPolicyPrepareRuntimeCurrent s.temp.base (credOf 4) runtimeOk).2 = .ok ()) &&
      (s.temp.base.policy.any fun p =>
        (yzPolicySidtabSearch p 4).isSome &&
        (p.policydb.pTypes.lookup "system_server").any (fun d => d.value = 2) &&
        (classByName p.policydb "process").any fun c => c.value = 3 &&
          (yzPolicyRequiredAv c yzProcessExecmemPerms).getLsbD 1) &&
      (tempRuns.exec s [.prepareRuntime (credOf 4) runtimeOk, .restore 0 editOk]).any fun s =>
        !(s.temp.base.direct ⟨2, 2, 3⟩).getLsbD 1) = true := by
    decide +kernel
  obtain ⟨s, hs, hp⟩ := (Option.any_eq_true _ _).mp hrun
  simp only [Bool.and_eq_true, decide_eq_true_eq] at hp
  obtain ⟨⟨hok, hpol⟩, hlater⟩ := hp
  obtain ⟨p, hp, hq⟩ := (Option.any_eq_true _ _).mp hpol
  simp only [Bool.and_eq_true] at hq
  obtain ⟨⟨hctx, hty⟩, hcls⟩ := hq
  obtain ⟨ctx, hctx⟩ := Option.isSome_iff_exists.mp hctx
  obtain ⟨d, hd, hv⟩ := (Option.any_eq_true _ _).mp hty
  obtain ⟨c, hc, hcv⟩ := (Option.any_eq_true _ _).mp hcls
  simp only [Bool.and_eq_true, decide_eq_true_eq] at hv hcv
  have hask : AsksRuntime s.temp.base (credOf 4) ⟨2, 2, 3⟩ (1 : Fin 32) :=
    ⟨p, ctx, hp, hctx, .inr ⟨d, c, hd, hc, by rw [hv, hcv.1], hcv.2⟩⟩
  obtain ⟨s'', hs'', hclear⟩ := (Option.any_eq_true _ _).mp hlater
  obtain ⟨s', hs', hrest⟩ := Option.bind_eq_some_iff.mp hs''
  have hreach : tempRuns.Reach Lts.anyStep s :=
    ⟨_, demoRun_init 4 (by decide), Lts.path_of_exec _ _ _ (fun _ _ _ => trivial) hs⟩
  have hpath : tempRuns.Path Lts.anyStep s' s'' :=
    Lts.path_of_exec _ _ _ (fun _ _ _ => trivial) hrest
  have := h s _ _ s' s'' hreach trivial hs' hok hpath _ 1 hask
  rw [Bool.not_eq_true'] at hclear
  exact Bool.false_ne_true (hclear.symm.trans this)

end YukiZygisk.Policy
