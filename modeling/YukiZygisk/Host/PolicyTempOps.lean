/-
# Allowing for a while and restoring (`kernel/host/policy_temp.c`, continued)

The operations of the temporary policy on the state `TempPolicy`: the live policy and the
rule table.  Each returns the state, the holder's record and the error code, as the source
does through its pointer argument.

The record a successful allow returns is a list of up to four parts, each a key with the bits
the record owns of it (`FileLoadPolicy.parts`), and `FileLoadPolicy.claims` is how many of
them name one permission.  One spec for each operation says what it does to every permission:

* an allow counts the parts it requests, and allows those of their bits that no rule counted
  (`allowFile_spec`, `allowExecmem_spec`);
* a restore takes the record's references away and clears what is counted once or not at all
  (`restore_spec`).

A failed operation leaves the policy and the table as they were.

An allow asks for more than it commits: the bits that are asked are those that are missing or
counted already (`requestAv`), and those that are committed are the ones among them that the table
does not count (`getLsbD_commitAv`).  A required bit that is allowed and not counted is neither, so
the holder relies on it without a claim (`relied`).  The proofs go through the exits of the source
one by one: each refused request is shown to leave the state as it was, and the one that goes
through is put together from `commitLocked_spec` and the counting of `PolicyTempParts.lean`.
-/
import YukiZygisk.Host.PolicyTempParts

namespace YukiZygisk.Policy

variable {rules : TempRules} {key : PolicyKey} {av : Av} {k : PolicyKey} {b : Fin 32}

/-! ## 1. The operations -/

/-- `struct yz_file_load_policy`: what one holder owns. -/
structure FileLoadPolicy where
  srcType : Nat
  tgtType : Nat
  tmpfsType : Nat
  processType : Nat
  targetClass : Nat
  processClass : Nat
  dirClass : Nat
  addedAv : Av
  tmpfsAddedAv : Av
  processAddedAv : Av
  dirAddedAv : Av
  deriving DecidableEq

/-- `memset(state, 0, sizeof(*state))`. -/
def FileLoadPolicy.zero : FileLoadPolicy := ⟨0, 0, 0, 0, 0, 0, 0, 0, 0, 0, 0⟩

/-- The four keys `yz_host_policy_restore` rebuilds, each with the bits the record owns. -/
def FileLoadPolicy.parts (st : FileLoadPolicy) : List (PolicyKey × Av) :=
  [(⟨st.srcType, st.tgtType, st.targetClass⟩, st.addedAv),
   (⟨st.srcType, st.tgtType, st.dirClass⟩, st.dirAddedAv),
   (⟨st.srcType, st.tmpfsType, st.targetClass⟩, st.tmpfsAddedAv),
   (⟨st.processType, st.processType, st.processClass⟩, st.processAddedAv)]

/-- The claims of a record on one permission. -/
def FileLoadPolicy.claims (st : FileLoadPolicy) (k : PolicyKey) (b : Fin 32) : Nat :=
  asks st.parts k b

/-- The record owns nothing: the first test of `yz_host_policy_restore`. -/
def FileLoadPolicy.Empty (st : FileLoadPolicy) : Prop :=
  st.addedAv = 0 ∧ st.tmpfsAddedAv = 0 ∧ st.processAddedAv = 0 ∧ st.dirAddedAv = 0

instance (st : FileLoadPolicy) : Decidable st.Empty := inferInstanceAs (Decidable (_ ∧ _))

theorem FileLoadPolicy.Empty.claims {st : FileLoadPolicy} (h : st.Empty) (k : PolicyKey)
    (b : Fin 32) : st.claims k b = 0 := by
  obtain ⟨h1, h2, h3, h4⟩ := h
  simp [FileLoadPolicy.claims, FileLoadPolicy.parts, h1, h2, h3, h4, asks]

theorem empty_zero : FileLoadPolicy.zero.Empty := ⟨rfl, rfl, rfl, rfl⟩

/-- The zeroed record claims nothing. -/
@[simp] theorem claims_zero (k : PolicyKey) (b : Fin 32) : FileLoadPolicy.zero.claims k b = 0 :=
  empty_zero.claims k b

/-- The bits to commit are the requested bits that no rule counts. -/
theorem getLsbD_commitAv (rules : TempRules) (key : PolicyKey) (av : Av) (b : Fin 32) :
    (av &&& ~~~(yzPolicyTempMaskLocked rules key)).getLsbD b =
      (av.getLsbD b && decide (rules.refs key b = 0)) := by
  simp only [BitVec.getLsbD_and, BitVec.getLsbD_not, b.isLt, decide_true, Bool.true_and,
    getLsbD_mask, decide_not, Bool.not_not]

variable {st : FileLoadPolicy}

/-- The process part replaced: what an execmem request does to a record. -/
def FileLoadPolicy.withProcess (st : FileLoadPolicy) (type tclass : Nat) (av : Av) :
    FileLoadPolicy :=
  { st with processType := type, processClass := tclass, processAddedAv := av }

theorem processKey_eq (hk : key.tgtType = key.srcType) :
    (⟨key.srcType, key.srcType, key.tclass⟩ : PolicyKey) = key := by
  cases key
  simpa using hk.symm

/-- A record without a process part gains exactly the new one. -/
theorem claims_withProcess (h : st.processAddedAv = 0) (hk : key.tgtType = key.srcType)
    (av : Av) (k : PolicyKey) (b : Fin 32) :
    (st.withProcess key.srcType key.tclass av).claims k b =
      st.claims k b + asks [(key, av)] k b := by
  have hkey := processKey_eq hk
  simp only [FileLoadPolicy.claims, FileLoadPolicy.parts, FileLoadPolicy.withProcess, asks_cons,
    hkey, h]
  simp [asks]
  omega

theorem partsFit_withProcess (h : PartsFit st.parts) (hk : key.tgtType = key.srcType)
    (hkey : av ≠ 0 → key.Fits) :
    PartsFit (st.withProcess key.srcType key.tclass av).parts := by
  have hself := processKey_eq hk
  intro p hp hne
  simp only [FileLoadPolicy.parts, FileLoadPolicy.withProcess, List.mem_cons, List.not_mem_nil,
    or_false, hself] at hp
  rcases hp with rfl | rfl | rfl | rfl
  · exact h _ (by simp [FileLoadPolicy.parts]) hne
  · exact h _ (by simp [FileLoadPolicy.parts]) hne
  · exact h _ (by simp [FileLoadPolicy.parts]) hne
  · exact hkey hne

variable [AvtabFns]

/-- The live policy and the rule table. -/
structure TempPolicy where
  base : PolicyBase
  rules : TempRules

/-- Bit `b` of `k` is in the policy and no rule counts it. -/
def TempPolicy.Settled (t : TempPolicy) (k : PolicyKey) (b : Fin 32) : Prop :=
  (t.base.direct k).getLsbD b = true ∧ t.rules.refs k b = 0

instance (t : TempPolicy) (k : PolicyKey) (b : Fin 32) : Decidable (t.Settled k b) :=
  inferInstanceAs (Decidable (_ ∧ _))

/-- `request_av` of `yz_policy_temp_plan_allow_locked`: the required bits that the policy
lacks or that the table counts. -/
def requestAv (t : TempPolicy) (key : PolicyKey) (requiredAv : Av) : Av :=
  requiredAv &&& (~~~(t.base.direct key) ||| yzPolicyTempMaskLocked t.rules key)

/-- `yz_policy_temp_plan_allow_locked`: the vectors it stores through `state_av` and
`commit_av`. -/
def yzPolicyTempPlanAllowLocked (t : TempPolicy) (key : PolicyKey) (requiredAv : Av) :
    Except Errno (Av × Av) :=
  if requiredAv = 0 then .error .ENOENT
  else if requestAv t key requiredAv = 0 then .ok (0, 0)
  else match yzPolicyTempValidateAddLocked t.rules key (requestAv t key requiredAv) with
    | .error e => .error e
    | .ok () => .ok (requestAv t key requiredAv,
        requestAv t key requiredAv &&& ~~~(yzPolicyTempMaskLocked t.rules key))

/-- A part of a file load that is planned only when something is required of it. -/
def planOptional (t : TempPolicy) (key : PolicyKey) (requiredAv : Av) :
    Except Errno (Av × Av) :=
  if requiredAv = 0 then .ok (0, 0) else yzPolicyTempPlanAllowLocked t key requiredAv

/-- The record that `yz_host_policy_allow_file` fills in. -/
def fileRecord (keys : FileLoadKeys) (addedAv dirAddedAv tmpfsAddedAv : Av) : FileLoadPolicy :=
  { FileLoadPolicy.zero with
    srcType := keys.file.srcType
    tgtType := keys.file.tgtType
    tmpfsType := keys.tmpfs.tgtType
    targetClass := keys.file.tclass
    dirClass := keys.dir.tclass
    addedAv := addedAv
    dirAddedAv := dirAddedAv
    tmpfsAddedAv := tmpfsAddedAv }

/-- `yz_host_policy_allow_file`; `none` is a null pointer. -/
def yzHostPolicyAllowFile (t : TempPolicy) (file : Option File) (cred : Option Cred)
    (includeDir : Bool) (access : TmpfsAccess) (st : FileLoadPolicy) (env : EditEnv) :
    TempPolicy × FileLoadPolicy × Except Errno Unit :=
  match file, cred with
  | some file, some cred =>
    match yzPolicyBaseLock t.base with
    | .error e => (t, .zero, .error e)
    | .ok () =>
      match yzPolicyBaseGetFileLoadKeys t.base file cred includeDir access with
      | .error e => (t, .zero, .error e)
      | .ok keys =>
        match yzPolicyTempPlanAllowLocked t keys.file keys.fileRequiredAv with
        | .error e => (t, .zero, .error e)
        | .ok (addedAv, fileCommitAv) =>
          match planOptional t keys.dir keys.dirRequiredAv with
          | .error e => (t, .zero, .error e)
          | .ok (dirAddedAv, dirCommitAv) =>
            match planOptional t keys.tmpfs keys.tmpfsRequiredAv with
            | .error e => (t, .zero, .error e)
            | .ok (tmpfsAddedAv, tmpfsCommitAv) =>
              match yzPolicyBaseCommitAllowLocked t.base (keys.file, fileCommitAv)
                  (keys.dir, dirCommitAv) (keys.tmpfs, tmpfsCommitAv) (.zero, 0) env with
              | (base, .error e) => ({ t with base := base }, .zero, .error e)
              | (base, .ok ()) =>
                let rules := yzPolicyTempAddLocked t.rules keys.file addedAv
                let rules := yzPolicyTempAddLocked rules keys.dir dirAddedAv
                let rules := yzPolicyTempAddLocked rules keys.tmpfs tmpfsAddedAv
                ({ base := base, rules := rules },
                  fileRecord keys addedAv dirAddedAv tmpfsAddedAv, .ok ())
  | _, _ => (t, st, .error .EINVAL)

/-- `yz_host_policy_allow_file_current`. -/
def yzHostPolicyAllowFileCurrent (t : TempPolicy) (file : Option File) (current : Cred)
    (st : FileLoadPolicy) (env : EditEnv) : TempPolicy × FileLoadPolicy × Except Errno Unit :=
  yzHostPolicyAllowFile t file (some current) false .load st env

/-- `yz_host_policy_allow_file_cred`. -/
def yzHostPolicyAllowFileCred (t : TempPolicy) (file : Option File) (cred : Option Cred)
    (st : FileLoadPolicy) (env : EditEnv) : TempPolicy × FileLoadPolicy × Except Errno Unit :=
  yzHostPolicyAllowFile t file cred true .receive st env

/-- `yz_host_policy_allow_execmem`. -/
def yzHostPolicyAllowExecmem (t : TempPolicy) (cred : Option Cred) (st : FileLoadPolicy)
    (env : EditEnv) : TempPolicy × FileLoadPolicy × Except Errno Unit :=
  match cred with
  | none => (t, st, .error .EINVAL)
  | some cred =>
    match yzPolicyBaseLock t.base with
    | .error e => (t, st, .error e)
    | .ok () =>
      match yzPolicyBaseGetExecmemKey t.base cred with
      | .error e => (t, st, .error e)
      | .ok (key, requiredAv) =>
        if (st.srcType ≠ 0 ∧ st.srcType ≠ key.srcType) ∨
            (st.processAddedAv ≠ 0 ∧
              (st.processType ≠ key.srcType ∨ st.processClass ≠ key.tclass)) then
          (t, st, .error .EINVAL)
        else if st.processAddedAv ≠ 0 then (t, st, .ok ())
        else
          match yzPolicyTempPlanAllowLocked t key requiredAv with
          | .error e => (t, { st with processAddedAv := 0 }, .error e)
          | .ok (processAddedAv, commitAv) =>
            match yzPolicyBaseCommitAllowLocked t.base (.zero, 0) (.zero, 0) (.zero, 0)
                (key, commitAv) env with
            | (base, .error e) =>
              ({ t with base := base },
                { st with processType := 0, processClass := 0, processAddedAv := 0 }, .error e)
            | (base, .ok ()) =>
              ({ base := base
                 rules := yzPolicyTempAddLocked t.rules key processAddedAv },
                { st with
                  processType := key.srcType
                  processClass := key.tclass
                  processAddedAv := processAddedAv }, .ok ())

/-- `yz_host_policy_allow_execmem_current`. -/
def yzHostPolicyAllowExecmemCurrent (t : TempPolicy) (current : Cred) (st : FileLoadPolicy)
    (env : EditEnv) : TempPolicy × FileLoadPolicy × Except Errno Unit :=
  yzHostPolicyAllowExecmem t (some current) st env

/-- `yz_host_policy_allow_execmem_cred`. -/
def yzHostPolicyAllowExecmemCred (t : TempPolicy) (cred : Option Cred) (st : FileLoadPolicy)
    (env : EditEnv) : TempPolicy × FileLoadPolicy × Except Errno Unit :=
  yzHostPolicyAllowExecmem t cred st env

/-- `yz_host_policy_restore`. -/
def yzHostPolicyRestore (t : TempPolicy) (st : FileLoadPolicy) (env : EditEnv) :
    TempPolicy × Except Errno Unit :=
  if st.Empty then (t, .ok ())
  else match yzPolicyBaseLock t.base with
    | .error e => (t, .error e)
    | .ok () =>
      let fileKey : PolicyKey := ⟨st.srcType, st.tgtType, st.targetClass⟩
      let dirKey : PolicyKey := ⟨st.srcType, st.tgtType, st.dirClass⟩
      let tmpfsKey : PolicyKey := ⟨st.srcType, st.tmpfsType, st.targetClass⟩
      let processKey : PolicyKey := ⟨st.processType, st.processType, st.processClass⟩
      match yzPolicyBaseCommitRestoreLocked t.base
          (fileKey, yzPolicyTempPlanReleaseLocked t.rules fileKey st.addedAv)
          (dirKey, yzPolicyTempPlanReleaseLocked t.rules dirKey st.dirAddedAv)
          (tmpfsKey, yzPolicyTempPlanReleaseLocked t.rules tmpfsKey st.tmpfsAddedAv)
          (processKey, yzPolicyTempPlanReleaseLocked t.rules processKey st.processAddedAv)
          env with
      | (base, .error e) => ({ t with base := base }, .error e)
      | (base, .ok ()) =>
        let rules := yzPolicyTempReleaseLocked t.rules fileKey st.addedAv
        let rules := yzPolicyTempReleaseLocked rules dirKey st.dirAddedAv
        let rules := yzPolicyTempReleaseLocked rules tmpfsKey st.tmpfsAddedAv
        let rules := yzPolicyTempReleaseLocked rules processKey st.processAddedAv
        ({ base := base, rules := rules }, .ok ())

/-- `yz_policy_temp_reset`: the table is zeroed whether or not the lock is there. -/
def yzPolicyTempReset (t : TempPolicy) : TempPolicy := { t with rules := .empty }

/-! ## 2. What the operations do to one permission -/

variable {t t' : TempPolicy} {st' : FileLoadPolicy} {env : EditEnv}
  {r : Except Errno Unit} {requiredAv : Av}

/-- A required bit is requested unless it is settled. -/
theorem getLsbD_requestAv (t : TempPolicy) (key : PolicyKey) (requiredAv : Av) (b : Fin 32) :
    (requestAv t key requiredAv).getLsbD b =
      (requiredAv.getLsbD b && !decide (t.Settled key b)) := by
  have hs : decide (t.Settled key b) =
      ((t.base.direct key).getLsbD b && decide (t.rules.refs key b = 0)) := by
    rw [Bool.eq_iff_iff]
    simp [TempPolicy.Settled]
  simp only [requestAv, BitVec.getLsbD_and, BitVec.getLsbD_or, BitVec.getLsbD_not, b.isLt,
    decide_true, Bool.true_and, getLsbD_mask, hs, decide_not, Bool.not_and]

/-- Nothing is requested where nothing is required. -/
theorem requestAv_ne_zero (h : requestAv t key requiredAv ≠ 0) : requiredAv ≠ 0 := by
  rintro rfl
  exact h BitVec.zero_and

/-- A plan that succeeds requests what it should, and every requested bit can be counted. -/
theorem planAllow_ok {s c : Av}
    (h : yzPolicyTempPlanAllowLocked t key requiredAv = .ok (s, c)) :
    s = requestAv t key requiredAv ∧
      c = requestAv t key requiredAv &&& ~~~(yzPolicyTempMaskLocked t.rules key) ∧
      ∀ b : Fin 32, s.getLsbD b = true → t.rules.Room key ∧ t.rules.refs key b < 65535 := by
  unfold yzPolicyTempPlanAllowLocked at h
  split_ifs at h with h0 hreq
  · obtain ⟨rfl, rfl⟩ := Prod.mk.inj (Except.ok.inj h)
    exact ⟨hreq.symm, by rw [hreq]; exact BitVec.zero_and.symm, fun b hb => by simp at hb⟩
  · split at h
    · cases h
    · rename_i hv
      obtain ⟨rfl, rfl⟩ := Prod.mk.inj (Except.ok.inj h)
      exact ⟨rfl, rfl, fun b hb => validateAdd_ok hv hb⟩

/-- A plan that succeeds has room for what it asks. -/
theorem planOptional_ok {s c : Av} (h : planOptional t key requiredAv = .ok (s, c)) :
    s = requestAv t key requiredAv ∧
      c = requestAv t key requiredAv &&& ~~~(yzPolicyTempMaskLocked t.rules key) ∧
      ∀ b : Fin 32, s.getLsbD b = true → t.rules.Room key ∧ t.rules.refs key b < 65535 := by
  unfold planOptional at h
  split_ifs at h with h0
  · obtain ⟨rfl, rfl⟩ := Prod.mk.inj (Except.ok.inj h)
    have hz : requestAv t key requiredAv = 0 := by rw [h0, requestAv]; exact BitVec.zero_and
    exact ⟨hz.symm, by rw [hz]; exact BitVec.zero_and.symm, fun b hb => by simp at hb⟩
  · exact planAllow_ok h

/-- The parts a file load requests. -/
def requestParts (t : TempPolicy) (keys : FileLoadKeys) : List (PolicyKey × Av) :=
  [(keys.file, requestAv t keys.file keys.fileRequiredAv),
   (keys.dir, requestAv t keys.dir keys.dirRequiredAv),
   (keys.tmpfs, requestAv t keys.tmpfs keys.tmpfsRequiredAv)]

/-- The parts a file load requires. -/
def requiredParts (keys : FileLoadKeys) : List (PolicyKey × Av) :=
  [(keys.file, keys.fileRequiredAv), (keys.dir, keys.dirRequiredAv),
   (keys.tmpfs, keys.tmpfsRequiredAv)]

/-- The requested parts are the required parts without what is settled. -/
theorem asks_request (t : TempPolicy) (parts : List (PolicyKey × Av)) (k : PolicyKey)
    (b : Fin 32) : asks (parts.map fun p => (p.1, requestAv t p.1 p.2)) k b =
      if t.Settled k b then 0 else asks parts k b := by
  induction parts with
  | nil => simp [asks]
  | cons p parts ih =>
    rw [List.map_cons, asks_cons, ih, asks_cons]
    simp only [getLsbD_requestAv]
    by_cases hs : t.Settled k b
    · rw [if_pos hs, if_pos hs, if_neg]
      rintro ⟨rfl, hb⟩
      simp [hs] at hb
    · rw [if_neg hs, if_neg hs]
      congr 1
      by_cases hk : p.1 = k
      · subst hk; simp [hs]
      · simp [hk]

/-- What a successful allow does: the parts it requests are counted, those of their bits that
no rule counted are allowed, and the table could count each of them when it was asked. -/
structure Allowed (t t' : TempPolicy) (parts : List (PolicyKey × Av)) : Prop where
  base : SameBase t.base t'.base
  rules : t'.rules = addAll t.rules parts
  direct : ∀ k : PolicyKey, k.Fits → ∀ b : Fin 32, (t'.base.direct k).getLsbD b =
    ((t.base.direct k).getLsbD b || decide (0 < asks parts k b ∧ t.rules.refs k b = 0))
  countable : ∀ k (b : Fin 32), 0 < asks parts k b →
    t.rules.Room k ∧ t.rules.refs k b < 65535

/-- A commit of requested parts allows them as `Allowed.direct` says. -/
theorem commitAllow_direct {base' : PolicyBase} {parts : List (PolicyKey × Av)}
    (hfit : PartsFit parts)
    (hdir : ∀ k b, (base'.direct k).getLsbD b =
      if Touches (parts.map fun p => (p.1, p.2 &&& ~~~(yzPolicyTempMaskLocked t.rules p.1))) k b
      then true else (t.base.direct k).getLsbD b)
    {k : PolicyKey} (hk : k.Fits) (b : Fin 32) : (base'.direct k).getLsbD b =
      ((t.base.direct k).getLsbD b || decide (0 < asks parts k b ∧ t.rules.refs k b = 0)) := by
  have hiff := touches_map (f := fun key av => av &&& ~~~(yzPolicyTempMaskLocked t.rules key))
    (c := fun key b => decide (t.rules.refs key b = 0)) hfit hk (b := b)
    (fun key av => getLsbD_commitAv t.rules key av b)
  rw [hdir]
  simp only [hiff, decide_eq_true_eq]
  split_ifs with hc
  · simp [hc]
  · simp [hc]

theorem requestParts_fit {keys : FileLoadKeys} (h : keys.Shape) :
    PartsFit (requestParts t keys) := by
  intro p hp _
  simp only [requestParts, List.mem_cons, List.not_mem_nil, or_false] at hp
  rcases hp with rfl | rfl | rfl
  · exact h.file_fits
  · exact h.dir_fits
  · exact h.tmpfs_fits

/-- **The record claims what was requested**: wherever it owns a bit, the key that a restore
rebuilds from it is the key that was requested. -/
theorem fileRecord_parts {keys : FileLoadKeys} (h : keys.Shape) :
    PartsFit (fileRecord keys (requestAv t keys.file keys.fileRequiredAv)
      (requestAv t keys.dir keys.dirRequiredAv)
      (requestAv t keys.tmpfs keys.tmpfsRequiredAv)).parts ∧
    ∀ k b, (fileRecord keys (requestAv t keys.file keys.fileRequiredAv)
      (requestAv t keys.dir keys.dirRequiredAv)
      (requestAv t keys.tmpfs keys.tmpfsRequiredAv)).claims k b =
        asks (requestParts t keys) k b := by
  have hdir : requestAv t keys.dir keys.dirRequiredAv ≠ 0 →
      (⟨keys.file.srcType, keys.file.tgtType, keys.dir.tclass⟩ : PolicyKey) = keys.dir := by
    intro hne
    obtain ⟨hs, ht⟩ := h.dir_types (requestAv_ne_zero hne)
    rw [← hs, ← ht]
  have htmp : requestAv t keys.tmpfs keys.tmpfsRequiredAv ≠ 0 →
      (⟨keys.file.srcType, keys.tmpfs.tgtType, keys.file.tclass⟩ : PolicyKey) = keys.tmpfs := by
    intro hne
    obtain ⟨hs, hc⟩ := h.tmpfs_types (requestAv_ne_zero hne)
    rw [← hs, ← hc]
  constructor
  · intro p hp hne
    simp only [FileLoadPolicy.parts, fileRecord, FileLoadPolicy.zero, List.mem_cons,
      List.not_mem_nil, or_false] at hp
    rcases hp with rfl | rfl | rfl | rfl
    · exact h.file_fits
    · exact (hdir hne).symm ▸ h.dir_fits
    · exact (htmp hne).symm ▸ h.tmpfs_fits
    · exact absurd rfl hne
  · intro k b
    refine asks_cons_congr (fun _ => rfl) (asks_cons_congr hdir (asks_cons_congr htmp ?_))
    exact asks_cons_zero _ _ _ _

/-- **A file load allows its parts or changes nothing.**  On success the record claims what
was requested; on failure it owns nothing, or the call was refused at the door. -/
theorem allowFile_spec {file : Option File} {cred : Option Cred} {includeDir : Bool}
    {access : TmpfsAccess}
    (h : yzHostPolicyAllowFile t file cred includeDir access st env = (t', st', r)) :
    (r ≠ .ok () ∧ t' = t ∧ (st' = .zero ∨ st' = st)) ∨
    (r = .ok () ∧ ∃ f c keys, file = some f ∧ cred = some c ∧
      yzPolicyBaseGetFileLoadKeys t.base f c includeDir access = .ok keys ∧
      Allowed t t' (requestParts t keys) ∧ PartsFit st'.parts ∧
      (∀ k b, st'.claims k b = asks (requestParts t keys) k b) ∧
      st'.processAddedAv = 0) := by
  have failed : ∀ (e : Errno) (s : FileLoadPolicy), s = .zero ∨ s = st →
      (t, s, Except.error e) = (t', st', r) →
      r ≠ .ok () ∧ t' = t ∧ (st' = .zero ∨ st' = st) := by
    intro e s hs he
    simp only [Prod.mk.injEq] at he
    obtain ⟨rfl, rfl, rfl⟩ := he
    exact ⟨nofun, rfl, hs⟩
  unfold yzHostPolicyAllowFile at h
  split at h
  case h_2 => exact .inl (failed _ _ (.inr rfl) h)
  rename_i f c
  split at h
  · exact .inl (failed _ _ (.inl rfl) h)
  split at h
  · exact .inl (failed _ _ (.inl rfl) h)
  rename_i keys hkeys
  split at h
  · exact .inl (failed _ _ (.inl rfl) h)
  rename_i fs fc hfile
  split at h
  · exact .inl (failed _ _ (.inl rfl) h)
  rename_i ds dc hdirp
  split at h
  · exact .inl (failed _ _ (.inl rfl) h)
  rename_i ts tc htmp
  obtain ⟨rfl, rfl, hbf⟩ := planAllow_ok hfile
  obtain ⟨rfl, rfl, hbd⟩ := planOptional_ok hdirp
  obtain ⟨rfl, rfl, hbt⟩ := planOptional_ok htmp
  split at h
  · rename_i base e hcommit
    obtain ⟨-, -, hsame⟩ := commitLocked_spec hcommit
    rw [hsame nofun] at h
    exact .inl (failed _ _ (.inl rfl) h)
  · rename_i base hcommit
    simp only [Prod.mk.injEq] at h
    obtain ⟨rfl, rfl, rfl⟩ := h
    obtain ⟨hbase, hdir, -⟩ := commitLocked_spec hcommit
    have hshape := getFileLoadKeys_shape hkeys
    have hfit := requestParts_fit hshape (t := t)
    have hrec := fileRecord_parts hshape (t := t)
    refine .inr ⟨rfl, f, c, keys, rfl, rfl, hkeys, ⟨hbase, rfl, fun k hk b => ?_, ?_⟩,
      hrec.1, hrec.2, rfl⟩
    · refine commitAllow_direct hfit (fun k b => ?_) hk b
      rw [hdir rfl]
      simp [Touches, requestParts]
    · intro k b hpos
      obtain ⟨p, hp, rfl, hb⟩ := asks_pos.mp hpos
      simp only [requestParts, List.mem_cons, List.not_mem_nil, or_false] at hp
      rcases hp with rfl | rfl | rfl
      · exact hbf b hb
      · exact hbd b hb
      · exact hbt b hb

/-- **An execmem request fails without effect, finds that the record has the permission
already, or allows it.** -/
theorem allowExecmem_spec {cred : Option Cred}
    (h : yzHostPolicyAllowExecmem t cred st env = (t', st', r)) :
    (r ≠ .ok () ∧ t' = t ∧
      (st' = st ∨ st.processAddedAv = 0 ∧ ∃ type tclass, st' = st.withProcess type tclass 0)) ∨
    (r = .ok () ∧ ∃ c key requiredAv, cred = some c ∧
      yzPolicyBaseGetExecmemKey t.base c = .ok (key, requiredAv) ∧
      ((st.processAddedAv ≠ 0 ∧ t' = t ∧ st' = st ∧ st.processType = key.srcType ∧
          st.processClass = key.tclass) ∨
        (st.processAddedAv = 0 ∧ Allowed t t' [(key, requestAv t key requiredAv)] ∧
          st' = st.withProcess key.srcType key.tclass (requestAv t key requiredAv)))) := by
  have failed : ∀ (e : Errno), (t, st, Except.error e) = (t', st', r) →
      r ≠ .ok () ∧ t' = t ∧ (st' = st ∨ st.processAddedAv = 0 ∧
        ∃ type tclass, st' = st.withProcess type tclass 0) := by
    intro e he
    simp only [Prod.mk.injEq] at he
    obtain ⟨rfl, rfl, rfl⟩ := he
    exact ⟨nofun, rfl, .inl rfl⟩
  unfold yzHostPolicyAllowExecmem at h
  split at h
  · exact .inl (failed _ h)
  rename_i c
  split at h
  · exact .inl (failed _ h)
  split at h
  · exact .inl (failed _ h)
  rename_i key requiredAv hkey
  split_ifs at h with hmis hown
  · exact .inl (failed _ h)
  · simp only [Prod.mk.injEq] at h
    obtain ⟨rfl, rfl, rfl⟩ := h
    rw [not_or] at hmis
    have hproc := not_and.mp hmis.2 hown
    rw [not_or] at hproc
    exact .inr ⟨rfl, c, key, requiredAv, rfl, hkey,
      .inl ⟨hown, rfl, rfl, by simpa using hproc.1, by simpa using hproc.2⟩⟩
  have hz : st.processAddedAv = 0 := by simpa using hown
  split at h
  · simp only [Prod.mk.injEq] at h
    obtain ⟨rfl, rfl, rfl⟩ := h
    exact .inl ⟨nofun, rfl, .inr ⟨hz, st.processType, st.processClass, rfl⟩⟩
  rename_i s cav hplan
  obtain ⟨rfl, rfl, hcount⟩ := planAllow_ok hplan
  split at h
  · rename_i base e hcommit
    obtain ⟨-, -, hsame⟩ := commitLocked_spec hcommit
    simp only [hsame nofun, Prod.mk.injEq] at h
    obtain ⟨rfl, rfl, rfl⟩ := h
    exact .inl ⟨nofun, rfl, .inr ⟨hz, 0, 0, rfl⟩⟩
  · rename_i base hcommit
    simp only [Prod.mk.injEq] at h
    obtain ⟨rfl, rfl, rfl⟩ := h
    obtain ⟨hbase, hdir, -⟩ := commitLocked_spec hcommit
    obtain ⟨hfit, -⟩ := getExecmemKey_shape hkey
    refine .inr ⟨rfl, c, key, requiredAv, rfl, hkey,
      .inr ⟨hz, ⟨hbase, rfl, fun k hk b => ?_, ?_⟩, rfl⟩⟩
    · refine commitAllow_direct (fun p hp _ => by obtain rfl := List.mem_singleton.mp hp; exact hfit)
        (fun k b => ?_) hk b
      rw [hdir rfl]
      simp [Touches]
    · intro k b hpos
      obtain ⟨p, hp, rfl, hb⟩ := asks_pos.mp hpos
      obtain rfl := List.mem_singleton.mp hp
      exact hcount b hb

/-- **A restore takes the record's references away and clears those of its bits that were counted
at most once, or changes nothing.** -/
theorem restore_spec (hfit : PartsFit st.parts)
    (h : yzHostPolicyRestore t st env = (t', r)) :
    (r ≠ .ok () ∧ t' = t) ∨
    (r = .ok () ∧ SameBase t.base t'.base ∧ t'.rules = releaseAll t.rules st.parts ∧
      ∀ k : PolicyKey, k.Fits → ∀ b : Fin 32, (t'.base.direct k).getLsbD b =
        ((t.base.direct k).getLsbD b &&
          !decide (0 < st.claims k b ∧ t.rules.refs k b ≤ 1))) := by
  unfold yzHostPolicyRestore at h
  split_ifs at h with hemp
  · simp only [Prod.mk.injEq] at h
    obtain ⟨rfl, rfl⟩ := h
    refine .inr ⟨rfl, .refl _, ?_, fun k _ b => by simp [hemp.claims]⟩
    obtain ⟨h1, h2, h3, h4⟩ := hemp
    simp [releaseAll, FileLoadPolicy.parts, yzPolicyTempReleaseLocked, h1, h2, h3, h4]
  split at h
  · simp only [Prod.mk.injEq] at h
    obtain ⟨rfl, rfl⟩ := h
    exact .inl ⟨nofun, rfl⟩
  simp only at h
  split at h
  · rename_i base e hcommit
    obtain ⟨-, -, hsame⟩ := commitLocked_spec hcommit
    simp only [hsame nofun, Prod.mk.injEq] at h
    obtain ⟨rfl, rfl⟩ := h
    exact .inl ⟨nofun, rfl⟩
  · rename_i base hcommit
    simp only [Prod.mk.injEq] at h
    obtain ⟨rfl, rfl⟩ := h
    obtain ⟨hbase, hdir, -⟩ := commitLocked_spec hcommit
    refine .inr ⟨rfl, hbase, rfl, fun k hk b => ?_⟩
    have hiff := touches_map (f := yzPolicyTempPlanReleaseLocked t.rules)
      (c := fun key b => decide (t.rules.refs key b ≤ 1)) hfit hk (b := b)
      (fun key av => getLsbD_planRelease t.rules key av b)
    rw [hdir rfl]
    simp only [FileLoadPolicy.parts, List.map_cons, List.map_nil] at hiff
    simp only [hiff, decide_eq_true_eq]
    change (if 0 < st.claims k b ∧ _ then false else _) = _
    split_ifs with hc
    · simp [hc]
    · simp [hc]

end YukiZygisk.Policy
