/-
# What a commit and a request leave alone (`kernel/host/policy.c`, `kernel/host/policy_temp.c`)

A commit edits a copy of the policy, key by key, and publishes it when no edit fails.  Its frame has
three parts: the vectors of the keys it does not name, the other rules of the table, and the whole
policy when it fails.

* `commit_frame`: the frame of the two commits, with what they do to the keys they name.
* `requests_atomic`: a request that fails leaves the policy and the rule table as they were, and the
  holder's record with what it owned; a restore that failed can be made again.

The rules of a table are compared as lists of nodes without those that the parts name
(`KeepsOthers`): each edit writes to a named node, removes one or inserts one, and so keeps that
list (`applyAv_keepsOthers`).  This says more than that the vectors of other keys are the same, as
rules that are no allow rules are in the table as well.  For the requests, what a failed one leaves
of the record depends on how far it came; `allowFile_record` and `restore_cases` go through the
exits of the source, and `RestoreAgain` compares two restores of one state, before and after the
failed one.
-/
import YukiZygisk.Host.PolicyTempOps
import YukiZygisk.Host.TempRuns

namespace YukiZygisk.Policy

/-! ## 1. The other rules -/

/-- A rule that some edit is about. -/
def Named (parts : List (PolicyKey × Av)) (n : AvtabNode) : Prop :=
  ∃ p ∈ parts, p.2 ≠ 0 ∧ n.key.Matches p.1.avkey

instance (parts : List (PolicyKey × Av)) (n : AvtabNode) : Decidable (Named parts n) :=
  inferInstanceAs (Decidable (∃ p ∈ parts, _))

/-- The rules that no edit is about, in the order of the table. -/
def Avtab.others (t : Avtab) (parts : List (PolicyKey × Av)) : List AvtabNode :=
  t.nodes.filter fun n => ¬ Named parts n

/-- The table `t'` has the other rules of `t`, and its counter is right if that of `t` is. -/
structure KeepsOthers (parts : List (PolicyKey × Av)) (t t' : Avtab) : Prop where
  others : t'.others parts = t.others parts
  counted : t.nel = t.nodes.length → t'.nel = t'.nodes.length

variable {parts : List (PolicyKey × Av)} {t t' : Avtab} {n : AvtabNode} {a : Nat}

theorem KeepsOthers.refl (parts : List (PolicyKey × Av)) (t : Avtab) : KeepsOthers parts t t :=
  ⟨rfl, id⟩

theorem KeepsOthers.trans {u : Avtab} (h : KeepsOthers parts t t') (h' : KeepsOthers parts t' u) :
    KeepsOthers parts t u :=
  ⟨h'.others.trans h.others, fun hc => h'.counted (h.counted hc)⟩

/-- One rule that is named comes into the table or leaves it. -/
theorem filter_named {l₁ l₂ : List AvtabNode} (hn : Named parts n) :
    (l₁ ++ n :: l₂).filter (fun n => ¬ Named parts n) =
      (l₁ ++ l₂).filter fun n => ¬ Named parts n := by
  simp [List.filter_append, hn]

theorem keepsOthers_modifyData (hn : n ∈ t.nodes) (haddr : (t.nodes.map (·.addr)).Nodup)
    (hnamed : Named parts n) (f : Av → Av) : KeepsOthers parts t (t.modifyData n.addr f) := by
  constructor
  · rw [Avtab.others, Avtab.others, nodes_modifyData, List.filter_map]
    have hkey : ∀ m : AvtabNode, Named parts
        (if m.addr = n.addr then { m with data := f m.data } else m) ↔ Named parts m := by
      intro m
      split_ifs
      · exact Iff.rfl
      · exact Iff.rfl
    have hfilter : t.nodes.filter ((fun n => decide ¬ Named parts n) ∘ fun m =>
        if m.addr = n.addr then { m with data := f m.data } else m) =
        t.nodes.filter fun n => ¬ Named parts n := by
      refine List.filter_congr ?_
      intro m _
      simp only [Function.comp_apply, hkey]
    rw [hfilter]
    refine (List.map_congr_left fun m hm => ?_).trans (List.map_id _)
    rw [List.mem_filter, decide_eq_true_eq] at hm
    refine if_neg ?_
    intro he
    obtain rfl := List.inj_on_of_nodup_map haddr hm.1 hn he
    exact hm.2 hnamed
  · intro hc
    rw [nodes_modifyData, List.length_map]
    exact hc

theorem keepsOthers_unlink (hn : n ∈ t.nodes) (haddr : (t.nodes.map (·.addr)).Nodup)
    (hnamed : Named parts n) (h : t.unlink n.addr = some t') : KeepsOthers parts t t' := by
  obtain ⟨c, hc, rfl⟩ := Option.map_eq_some_iff.mp h
  obtain ⟨-, l₁, m, l₂, hm, hf, hf'⟩ := unlinkSlots_some hc
  have hmem : m ∈ t.nodes := by
    rw [Avtab.nodes, hf]
    simp
  obtain rfl := List.inj_on_of_nodup_map haddr hmem hn hm
  constructor
  · rw [Avtab.others, Avtab.others, Avtab.nodes, Avtab.nodes, hf, hf', filter_named hnamed]
  · intro hcount
    rw [Avtab.nodes, hf] at hcount
    rw [Avtab.nodes, hf']
    simp only [List.length_append, List.length_cons] at hcount ⊢
    omega

/-! ## 2. A commit -/

/-- What the edits of one commit do to the vector of a key. -/
def editAll (allow : Bool) (parts : List (PolicyKey × Av)) (k : PolicyKey) (v : Av) : Av :=
  (parts.filter fun p => p.1.avkey = k.avkey).foldl (fun v p => editAv allow v p.2) v

/-- What the edits of a commit do to one bit. -/
theorem getLsbD_editAll (allow : Bool) (parts : List (PolicyKey × Av)) (k : PolicyKey) (v : Av)
    (b : Nat) : (editAll allow parts k v).getLsbD b =
      if Touches parts k b then allow else v.getLsbD b := by
  induction parts generalizing v with
  | nil =>
    rw [if_neg (touches_nil k b)]
    rfl
  | cons p parts ih =>
    by_cases hk : p.1.avkey = k.avkey
    · have hcons : editAll allow (p :: parts) k v = editAll allow parts k (editAv allow v p.2) := by
        rw [editAll, List.filter_cons_of_pos (by simpa using hk)]
        rfl
      rw [hcons, ih, getLsbD_editAv]
      simp only [touches_cons, hk, true_and]
      by_cases hrest : Touches parts k b
      · simp only [hrest, or_true, if_true]
      · simp only [hrest, or_false, if_false]
    · have hcons : editAll allow (p :: parts) k v = editAll allow parts k v := by
        rw [editAll, List.filter_cons_of_neg (by simpa using hk)]
        rfl
      rw [hcons, ih]
      simp only [touches_cons, hk, false_and, false_or]

/-- An empty process part owns nothing, whatever its key. -/
theorem claims_withProcess_zero {st : FileLoadPolicy} {type tclass : Nat} {k : PolicyKey}
    {b : Fin 32} (h : st.processAddedAv = 0) :
    (st.withProcess type tclass 0).claims k b = st.claims k b := by
  simp only [FileLoadPolicy.claims, FileLoadPolicy.parts, FileLoadPolicy.withProcess, asks_cons, h]
  simp

section Kernel

variable [AvtabFns]

theorem keepsOthers_insert {k : AvtabKey} {d : Av} (ho : AvtabFns.Ordered t.keys)
    (hi : AvtabFns.insertNonunique t k d = some (t', a)) (hnamed : Named parts ⟨a, k, d⟩) :
    KeepsOthers parts t t' := by
  obtain ⟨-, hnel, -, l₁, l₂, hl, hl'⟩ := AvtabFns.insert_some t k d t' a ho hi
  constructor
  · rw [Avtab.others, Avtab.others, hl, hl', filter_named hnamed]
  · intro hcount
    rw [hnel, hcount, hl, hl']
    simp only [List.length_append, List.length_cons]
    omega

variable {db db' : Policydb} {key : PolicyKey} {av : Av} {allow alloc : Bool}

theorem applyAv_keepsOthers (hmem : (key, av) ∈ parts)
    (h : yzPolicyApplyAv db key av allow alloc = .ok db') :
    KeepsOthers parts db.teAvtab db'.teAvtab := by
  unfold yzPolicyApplyAv at h
  split_ifs at h with h0 hname hallow
  · obtain rfl := Except.ok.inj h
    exact .refl ..
  · have hnamed : ∀ {n : AvtabNode}, n.key.Matches key.avkey → Named parts n :=
      fun hm => ⟨_, hmem, h0, hm⟩
    split at h
    · cases h
    · rename_i db₁ node hget
      obtain ⟨-, -, n, hn, rfl, hm⟩ := getAvtabNode_spec hget
      obtain rfl := Except.ok.inj h
      have hmod : KeepsOthers parts db₁.teAvtab (db₁.modifyNode n.addr (· ||| av)).teAvtab :=
        keepsOthers_modifyData hn db₁.teAvtab_wf.addr_inj (hnamed hm) (· ||| av)
      refine KeepsOthers.trans ?_ hmod
      unfold yzPolicyGetAvtabNode at hget
      split at hget
      · obtain ⟨rfl, -⟩ := Prod.mk.inj (Option.some.inj hget)
        exact .refl ..
      · split_ifs at hget
        split at hget
        · cases hget
        · rename_i t a hi
          obtain ⟨rfl, -⟩ := Prod.mk.inj (Option.some.inj hget)
          exact keepsOthers_insert db.teAvtab_wf.ordered hi (hnamed (matches_avkey.mpr rfl))
  · have hnamed : ∀ {n : AvtabNode}, n.key.Matches key.avkey → Named parts n :=
      fun hm => ⟨_, hmem, h0, hm⟩
    split at h
    · obtain rfl := Except.ok.inj h
      exact .refl ..
    · rename_i node hs
      obtain ⟨n, hn, rfl, hm⟩ := AvtabFns.search_some _ _ _ db.teAvtab_wf.ordered hs
      have hmod := keepsOthers_modifyData hn db.teAvtab_wf.addr_inj (hnamed hm) (· &&& ~~~av)
      have hmem' : ({ n with data := n.data &&& ~~~av } : AvtabNode) ∈
          (db.modifyNode n.addr (· &&& ~~~av)).teAvtab.nodes :=
        mem_modifyData.mpr ⟨n, hn, rfl, rfl, by rw [if_pos rfl]⟩
      simp only at h
      split_ifs at h
      · obtain rfl := Except.ok.inj h
        refine hmod.trans ?_
        unfold yzPolicyRemoveAvtabNode
        split_ifs
        · exact .refl ..
        · split
          · exact .refl ..
          · rename_i t hu
            exact keepsOthers_unlink (n := { n with data := n.data &&& ~~~av }) hmem'
              (db.modifyNode n.addr (· &&& ~~~av)).teAvtab_wf.addr_inj (hnamed hm) hu
      · obtain rfl := Except.ok.inj h
        exact hmod

theorem applyParts_keepsOthers {edits : List (PolicyKey × Av)} {ok : Nat → Bool} {i : Nat}
    (hsub : ∀ p ∈ edits, p ∈ parts) (h : applyParts allow ok i edits db = .ok db') :
    KeepsOthers parts db.teAvtab db'.teAvtab := by
  induction edits generalizing i db with
  | nil =>
    obtain rfl := Except.ok.inj h
    exact .refl ..
  | cons p edits ih =>
    obtain ⟨key, av⟩ := p
    rw [applyParts] at h
    have hrest : ∀ p ∈ edits, p ∈ parts := fun p hp => hsub p (List.mem_cons_of_mem _ hp)
    split_ifs at h with h0
    · exact ih hrest h
    · split at h
      · cases h
      · rename_i db₁ ha
        exact (applyAv_keepsOthers (hsub _ List.mem_cons_self) ha).trans (ih hrest h)

/-- A commit of these edits takes `base` to `base'`: it edits the vectors of the keys that are
named, and leaves the other vectors, the other rules and the symbols. -/
structure CommitFrame (allow : Bool) (parts : List (PolicyKey × Av)) (base base' : PolicyBase) :
    Prop where
  named : ∀ p ∈ parts, base'.direct p.1 = editAll allow parts p.1 (base.direct p.1)
  other : ∀ k : PolicyKey, (∀ p ∈ parts, p.2 ≠ 0 → p.1.avkey ≠ k.avkey) →
    base'.direct k = base.direct k
  rules : ∀ policy', base'.policy = some policy' → ∃ policy, base.policy = some policy ∧
    KeepsOthers parts policy.policydb.teAvtab policy'.policydb.teAvtab
  same : SameBase base base'

variable {base base' : PolicyBase} {env : EditEnv}

/-- A commit that publishes keeps the other rules of the table. -/
theorem commitLocked_rules {r : Except Errno Unit}
    (h : commitLocked allow base parts env = (base', r)) :
    ∀ policy', base'.policy = some policy' → ∃ policy, base.policy = some policy ∧
      KeepsOthers parts policy.policydb.teAvtab policy'.policydb.teAvtab := by
  have hrefl : ∀ policy', base.policy = some policy' → ∃ policy, base.policy = some policy ∧
      KeepsOthers parts policy.policydb.teAvtab policy'.policydb.teAvtab :=
    fun policy' hp => ⟨policy', hp, .refl ..⟩
  unfold commitLocked at h
  split_ifs at h
  · obtain ⟨rfl, -⟩ := Prod.mk.inj h
    exact hrefl
  split at h
  · obtain ⟨rfl, -⟩ := Prod.mk.inj h
    exact hrefl
  · rename_i policy hbegin
    split at h
    · obtain ⟨rfl, -⟩ := Prod.mk.inj h
      exact hrefl
    · rename_i db ha
      obtain ⟨rfl, -⟩ := Prod.mk.inj h
      intro policy' hp
      obtain rfl := Option.some.inj hp
      exact ⟨policy, (beginEdit_ok hbegin).2, applyParts_keepsOthers (fun p hp => hp) ha⟩

/-- A commit that succeeds has its frame. -/
theorem commitFrame_of_ok (h : commitLocked allow base parts env = (base', .ok ())) :
    CommitFrame allow parts base base' := by
  obtain ⟨hsame, hbits, -⟩ := commitLocked_spec h
  refine ⟨?_, ?_, commitLocked_rules h, hsame⟩
  · intro p _
    refine BitVec.eq_of_getLsbD_eq ?_
    intro b _
    rw [hbits rfl, getLsbD_editAll]
  · intro k hk
    refine BitVec.eq_of_getLsbD_eq ?_
    intro b _
    rw [hbits rfl, if_neg]
    rintro ⟨p, hp, hkey, hb⟩
    refine hk p hp (fun h0 => ?_) hkey
    rw [h0] at hb
    simp at hb

/-- What a commit returns. -/
def Commits (allow : Bool) (parts : List (PolicyKey × Av)) (base : PolicyBase)
    (out : PolicyBase × Except Errno Unit) : Prop :=
  match out.2 with
  | .ok () => CommitFrame allow parts base out.1
  | .error _ => out.1 = base

theorem commits_commitLocked (allow : Bool) (base : PolicyBase) (parts : List (PolicyKey × Av))
    (env : EditEnv) : Commits allow parts base (commitLocked allow base parts env) := by
  rcases h : commitLocked allow base parts env with ⟨base', r⟩
  cases r with
  | ok => exact commitFrame_of_ok h
  | error e => exact (commitLocked_spec h).2.2 nofun

/-- **The frame of a commit.**  An allow adds the bits of its four keys and a restore clears them;
nothing else changes, and nothing at all when it fails. -/
theorem commit_frame (base : PolicyBase) (file dir tmpfs process : PolicyKey × Av) (env : EditEnv) :
    Commits true [file, dir, tmpfs, process] base
      (yzPolicyBaseCommitAllowLocked base file dir tmpfs process env) ∧
    Commits false [file, dir, tmpfs, process] base
      (yzPolicyBaseCommitRestoreLocked base file dir tmpfs process env) :=
  ⟨commits_commitLocked .., commits_commitLocked ..⟩

/-! ## 3. A request -/

variable {t t' : TempPolicy} {st st' : FileLoadPolicy}

/-- What a restore that succeeds does: the record's references go, and with them those of its bits
that the table counts at most once before.  For a record that owns each bit through one key these
are the bits that nobody else counts; one that owns a bit through two keys keeps it
(`not_conserves`). -/
structure RestoreEffect (t : TempPolicy) (st : FileLoadPolicy) (t' : TempPolicy) : Prop where
  rules : t'.rules = releaseAll t.rules st.parts
  base : CommitFrame false
    (st.parts.map fun p => (p.1, yzPolicyTempPlanReleaseLocked t.rules p.1 p.2)) t.base t'.base

/-- A restore that failed has changed nothing: the same restore can be made again, with the effect
it would have had. -/
def RestoreAgain (t : TempPolicy) (st : FileLoadPolicy) (t' : TempPolicy) : Prop :=
  t' = t ∧ ∀ env, match yzHostPolicyRestore t' st env with
    | (t'', .ok ()) => yzHostPolicyRestore t st env = (t'', .ok ()) ∧ RestoreEffect t st t''
    | (t'', .error _) => t'' = t

/-- The requests are atomic, and a failed allow returns an empty record. -/
structure RequestsAtomic : Prop where
  file : ∀ (t : TempPolicy) (file : Option File) (cred : Option Cred) (includeDir : Bool)
    (access : TmpfsAccess) (st : FileLoadPolicy) (env : EditEnv) (t' : TempPolicy)
    (st' : FileLoadPolicy) (e : Errno),
    yzHostPolicyAllowFile t file cred includeDir access st env = (t', st', .error e) →
      t' = t ∧ st'.Empty
  execmem : ∀ (t : TempPolicy) (cred : Option Cred) (st : FileLoadPolicy) (env : EditEnv)
    (t' : TempPolicy) (st' : FileLoadPolicy) (e : Errno),
    yzHostPolicyAllowExecmem t cred st env = (t', st', .error e) → t' = t ∧ st'.Empty
  restore : ∀ (t : TempPolicy) (st : FileLoadPolicy) (env : EditEnv) (t' : TempPolicy) (e : Errno),
    yzHostPolicyRestore t st env = (t', .error e) → RestoreAgain t st t'

theorem restoreEffect_of_empty (h : st.Empty) (t : TempPolicy) : RestoreEffect t st t := by
  obtain ⟨h1, h2, h3, h4⟩ := h
  have hzero : ∀ p ∈ st.parts.map fun p => (p.1, yzPolicyTempPlanReleaseLocked t.rules p.1 p.2),
      p.2 = 0 := by
    simp [FileLoadPolicy.parts, h1, h2, h3, h4, yzPolicyTempPlanReleaseLocked]
  constructor
  · simp [releaseAll, FileLoadPolicy.parts, yzPolicyTempReleaseLocked, h1, h2, h3, h4]
  · have hskip :
        commitLocked false t.base _ (⟨.ok (), fun _ => true⟩ : EditEnv) = (t.base, .ok ()) :=
      if_pos hzero
    exact commitFrame_of_ok hskip

/-- What a restore returns, in every case. -/
theorem restore_cases (t : TempPolicy) (st : FileLoadPolicy) (env : EditEnv) :
    match yzHostPolicyRestore t st env with
    | (t', .ok ()) => RestoreEffect t st t'
    | (t', .error _) => t' = t := by
  rcases h : yzHostPolicyRestore t st env with ⟨t', r⟩
  unfold yzHostPolicyRestore at h
  split_ifs at h with hemp
  · obtain ⟨rfl, rfl⟩ := Prod.mk.inj h
    exact restoreEffect_of_empty hemp t
  split at h
  · obtain ⟨rfl, rfl⟩ := Prod.mk.inj h
    rfl
  dsimp only at h
  split at h
  · rename_i base e hcommit
    obtain ⟨rfl, rfl⟩ := Prod.mk.inj h
    obtain ⟨-, -, hsame⟩ := commitLocked_spec hcommit
    dsimp only
    rw [hsame nofun]
  · rename_i base hcommit
    obtain ⟨rfl, rfl⟩ := Prod.mk.inj h
    exact ⟨rfl, commitFrame_of_ok hcommit⟩

/-- After a failed restore another one does the same as it would have done. -/
theorem restoreAgain_of_error {e : Errno} (h : yzHostPolicyRestore t st env = (t', .error e)) :
    RestoreAgain t st t' := by
  have hsame := restore_cases t st env
  rw [h] at hsame
  obtain rfl : t' = t := hsame
  refine ⟨rfl, ?_⟩
  intro env'
  have hcases := restore_cases t' st env'
  rcases hr : yzHostPolicyRestore t' st env' with ⟨t'', r⟩
  rw [hr] at hcases
  cases r with
  | ok => exact ⟨rfl, hcases⟩
  | error => exact hcases

/-- What a file load that fails returns for a record. -/
theorem allowFile_record {file : Option File} {cred : Option Cred} {includeDir : Bool}
    {access : TmpfsAccess} {e : Errno}
    (h : yzHostPolicyAllowFile t file cred includeDir access st env = (t', st', .error e)) :
    if file.isSome ∧ cred.isSome then st'.Empty else st' = st := by
  unfold yzHostPolicyAllowFile at h
  split at h
  case h_2 hnone =>
    simp only [Prod.mk.injEq] at h
    rw [if_neg, h.2.1]
    rintro ⟨hf, hc⟩
    obtain ⟨f, rfl⟩ := Option.isSome_iff_exists.mp hf
    obtain ⟨c, rfl⟩ := Option.isSome_iff_exists.mp hc
    exact hnone f c rfl rfl
  rw [if_pos ⟨rfl, rfl⟩]
  have hzero : st' = .zero := by
    repeat' split at h
    all_goals
      rw [Prod.mk.injEq, Prod.mk.injEq] at h
      first
        | exact h.2.1.symm
        | cases h.2.2
  rw [hzero]
  exact empty_zero

/-- **The requests are atomic.**  A request that fails leaves the policy and the rule table.  A file
load that fails returns an empty record, unless it is refused for a null pointer; an execmem
request that fails, and a file load so refused, leave the record with what it owned.  A restore that
failed can be made again, with the effect that it would have had. -/
theorem requests_atomic (t : TempPolicy) (st : FileLoadPolicy) (env : EditEnv) :
    (∀ (file : Option File) (cred : Option Cred) (includeDir : Bool) (access : TmpfsAccess),
      match yzHostPolicyAllowFile t file cred includeDir access st env with
      | (_, _, .ok ()) => True
      | (t', st', .error _) =>
        t' = t ∧ if file.isSome ∧ cred.isSome then st'.Empty else st' = st) ∧
    (∀ cred : Option Cred, match yzHostPolicyAllowExecmem t cred st env with
      | (_, _, .ok ()) => True
      | (t', st', .error _) => t' = t ∧ ∀ k b, st'.claims k b = st.claims k b) ∧
    (match yzHostPolicyRestore t st env with
      | (t', .ok ()) => RestoreEffect t st t'
      | (t', .error _) => RestoreAgain t st t') := by
  refine ⟨?_, ?_, ?_⟩
  · intro file cred includeDir access
    rcases h : yzHostPolicyAllowFile t file cred includeDir access st env with ⟨t', st', r⟩
    cases r with
    | ok => trivial
    | error e =>
      dsimp only
      refine ⟨?_, allowFile_record h⟩
      rcases allowFile_spec h with ⟨-, ht, -⟩ | ⟨hok, -⟩
      · exact ht
      · cases hok
  · intro cred
    rcases h : yzHostPolicyAllowExecmem t cred st env with ⟨t', st', r⟩
    cases r with
    | ok => trivial
    | error e =>
      dsimp only
      rcases allowExecmem_spec h with ⟨-, ht, rfl | ⟨hz, type, tclass, rfl⟩⟩ | ⟨hok, -⟩
      · exact ⟨ht, fun _ _ => rfl⟩
      · exact ⟨ht, fun k b => claims_withProcess_zero hz⟩
      · cases hok
  · have hcases := restore_cases t st env
    rcases h : yzHostPolicyRestore t st env with ⟨t', r⟩
    rw [h] at hcases
    cases r with
    | ok => exact hcases
    | error e => exact restoreAgain_of_error h

end Kernel

/-- The policy without memory for a copy. -/
def editFull : EditEnv := ⟨.error .ENOMEM, fun _ => true⟩

/-- Zygote is allowed a file of the type app. -/
def sampleLoad : TempPolicy × FileLoadPolicy × Except Errno Unit :=
  yzHostPolicyAllowFileCurrent (demoRun 4 (by decide)).temp (fileOf 4) (credOf 1) .zero editOk

/-- It asks for execmem with the same record, and there is no memory. -/
def sampleExecmem : TempPolicy × FileLoadPolicy × Except Errno Unit :=
  yzHostPolicyAllowExecmemCurrent sampleLoad.1 (credOf 1) sampleLoad.2.1 editFull

/-- The record that the failed request returns has the file. -/
theorem not_requestsAtomic : ¬ RequestsAtomic := by
  intro h
  have hfail : sampleExecmem.2.2.isOk = false := by decide +kernel
  have howns : ¬ sampleExecmem.2.1.Empty := by decide +kernel
  rcases hx : sampleExecmem with ⟨t', st', r⟩
  rw [hx] at hfail howns
  cases r with
  | ok => cases hfail
  | error e =>
    exact howns (h.execmem sampleLoad.1 (some (credOf 1)) sampleLoad.2.1 editFull t' st' e hx).2

end YukiZygisk.Policy
