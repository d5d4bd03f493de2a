/-
# The table of temporary allowances (`kernel/host/policy_temp.c`)

A temporary allowance adds permissions to the live policy for one holder and takes them back
when the holder is done.  The module keeps a table of 64 rules, one a key, with a 16-bit
reference counter for each of the 32 permission bits, and hands each holder a record of the
bits it owns (`FileLoadPolicy`, the source's `struct yz_file_load_policy`).

An allow plans, commits and then counts:

* `yzPolicyTempPlanAllowLocked` asks for the required bits that the policy lacks or that the
  table already counts, and checks that the table could count them;
* the commit adds to the policy the asked bits that the table does not count yet;
* `yzPolicyTempAddLocked` counts the asked bits, key by key.

A restore plans which of the holder's bits are counted at most once, clears those, and uncounts
all of them.  Each operation runs under the policy lock, so it is one function here.

This file is the table, and its spec is permission by permission: `TempRules.refs` is the
counter of one bit of one key, and every function of the table says how it reads or moves that
counter.  The operations are `PolicyTempOps.lean`.  The table carries its invariant: no two
used rules have the same key.

Since no two used rules have one key, a lookup finds the rule of a key exactly if there is one, and
`refs` is the counter in it, or zero.  The updates of a rule are read through `refs`: `refs_add` and
`refs_release` say what adding and releasing a vector does to every permission, including the two
ways in which adding can miscount, a counter that wraps and a key that finds no free slot.
`validateAdd_ok` is what the check before it promises, and it promises it for one key at a time.
-/
import YukiZygisk.Host.PolicyRequests

namespace YukiZygisk.Policy

/-! ## 1. The rule table -/

/-- `struct yz_policy_temp_rule`. -/
structure TempRule where
  used : Bool
  key : PolicyKey
  refs : Fin 32 → UInt16

/-- `memset(rule, 0, sizeof(*rule))`. -/
def TempRule.zero : TempRule := ⟨false, .zero, fun _ => 0⟩

/-- `yz_policy_temp_rules`, with no key in two used rules. -/
structure TempRules where
  rule : Fin 64 → TempRule
  unique : ∀ i j, (rule i).used = true → (rule j).used = true →
    (rule i).key = (rule j).key → i = j

/-- The table at load time and after a reset. -/
def TempRules.empty : TempRules := ⟨fun _ => .zero, nofun⟩

/-- `yz_policy_temp_find_locked`. -/
def yzPolicyTempFindLocked (rules : TempRules) (key : PolicyKey) : Option (Fin 64) :=
  (List.finRange 64).find? fun i => (rules.rule i).used && decide ((rules.rule i).key = key)

/-- `yz_policy_temp_find_free_locked`. -/
def yzPolicyTempFindFreeLocked (rules : TempRules) : Option (Fin 64) :=
  (List.finRange 64).find? fun i => !(rules.rule i).used

/-- `yz_policy_temp_mask_locked`: the bits the table counts for a key. -/
def yzPolicyTempMaskLocked (rules : TempRules) (key : PolicyKey) : Av :=
  match yzPolicyTempFindLocked rules key with
  | none => 0
  | some i => BitVec.ofFnLE fun b => decide ((rules.rule i).refs b ≠ 0)

/-- `yz_policy_temp_validate_add_locked`. -/
def yzPolicyTempValidateAddLocked (rules : TempRules) (key : PolicyKey) (av : Av) :
    Except Errno Unit :=
  if av = 0 then .ok ()
  else match yzPolicyTempFindLocked rules key with
    | none =>
      match yzPolicyTempFindFreeLocked rules with
      | none => .error .ENOSPC
      | some _ => .ok ()
    | some i =>
      if ∃ b : Fin 32, av.getLsbD b = true ∧ (rules.rule i).refs b = 65535 then
        .error .EOVERFLOW
      else .ok ()

variable {rules : TempRules} {key : PolicyKey} {av : Av} {i : Fin 64}

theorem find_some (h : yzPolicyTempFindLocked rules key = some i) :
    (rules.rule i).used = true ∧ (rules.rule i).key = key := by
  have := List.find?_some h
  simpa using this

theorem find_none (h : yzPolicyTempFindLocked rules key = none) (i : Fin 64)
    (hu : (rules.rule i).used = true) : (rules.rule i).key ≠ key := by
  have := List.find?_eq_none.mp h i (List.mem_finRange i)
  simpa [hu] using this

theorem findFree_some (h : yzPolicyTempFindFreeLocked rules = some i) :
    (rules.rule i).used = false := by
  have := List.find?_some h
  simpa using this

theorem findFree_none (h : yzPolicyTempFindFreeLocked rules = none) (i : Fin 64) :
    (rules.rule i).used = true := by
  have := List.find?_eq_none.mp h i (List.mem_finRange i)
  simpa using this

/-- The rule of a key is the only one a search can find. -/
theorem find_of_used (hu : (rules.rule i).used = true) :
    yzPolicyTempFindLocked rules (rules.rule i).key = some i := by
  cases h : yzPolicyTempFindLocked rules (rules.rule i).key with
  | none => exact absurd rfl (find_none h i hu)
  | some j =>
    obtain ⟨hj, hk⟩ := find_some h
    rw [rules.unique j i hj hu hk]

/-- Set the counters of one rule. -/
def TempRules.setRefs (rules : TempRules) (i : Fin 64) (refs : Fin 32 → UInt16) : TempRules where
  rule := Function.update rules.rule i { rules.rule i with refs := refs }
  unique a b := by
    have hcong : ∀ c, (Function.update rules.rule i { rules.rule i with refs := refs } c).used =
        (rules.rule c).used ∧
        (Function.update rules.rule i { rules.rule i with refs := refs } c).key =
        (rules.rule c).key := by
      intro c
      by_cases hc : c = i
      · subst hc; simp
      · simp [hc]
    rw [(hcong a).1, (hcong b).1, (hcong a).2, (hcong b).2]
    exact rules.unique a b

/-- `memset(rule, 0, sizeof(*rule))` on a rule of the table. -/
def TempRules.clear (rules : TempRules) (i : Fin 64) : TempRules where
  rule := Function.update rules.rule i .zero
  unique a b ha hb := by
    by_cases hai : a = i
    · subst hai; simp [TempRule.zero] at ha
    · by_cases hbi : b = i
      · subst hbi; simp [TempRule.zero] at hb
      · simp only [Function.update_of_ne hai, Function.update_of_ne hbi] at *
        exact rules.unique a b ha hb

/-- Take a slot for a key that has no rule. -/
def TempRules.claim (rules : TempRules) (i : Fin 64) (key : PolicyKey)
    (h : yzPolicyTempFindLocked rules key = none) : TempRules where
  rule := Function.update rules.rule i ⟨true, key, fun _ => 0⟩
  unique a b ha hb hk := by
    by_cases hai : a = i
    · by_cases hbi : b = i
      · rw [hai, hbi]
      · subst hai
        simp only [Function.update_self, Function.update_of_ne hbi] at *
        exact absurd hk.symm (find_none h b hb)
    · by_cases hbi : b = i
      · subst hbi
        simp only [Function.update_self, Function.update_of_ne hai] at *
        exact absurd hk (find_none h a ha)
      · simp only [Function.update_of_ne hai, Function.update_of_ne hbi] at *
        exact rules.unique a b ha hb hk

/-- The counting loop of `yz_policy_temp_add_locked`. -/
def countBits (av : Av) (refs : Fin 32 → UInt16) : Fin 32 → UInt16 :=
  fun b => if av.getLsbD b then refs b + 1 else refs b

/-- The first loop of `yz_policy_temp_release_locked`. -/
def uncountBits (av : Av) (refs : Fin 32 → UInt16) : Fin 32 → UInt16 :=
  fun b => if av.getLsbD b && refs b ≠ 0 then refs b - 1 else refs b

/-- `yz_policy_temp_add_locked`: with no rule and no free slot nothing is counted. -/
def yzPolicyTempAddLocked (rules : TempRules) (key : PolicyKey) (av : Av) : TempRules :=
  if av = 0 then rules
  else match h : yzPolicyTempFindLocked rules key with
    | some i => rules.setRefs i (countBits av (rules.rule i).refs)
    | none =>
      match yzPolicyTempFindFreeLocked rules with
      | none => rules
      | some i => (rules.claim i key h).setRefs i (countBits av fun _ => 0)

/-- `yz_policy_temp_plan_release_locked`: the bits that the rule counts at most once. -/
def yzPolicyTempPlanReleaseLocked (rules : TempRules) (key : PolicyKey) (av : Av) : Av :=
  if av = 0 then 0
  else match yzPolicyTempFindLocked rules key with
    | none => av
    | some i => BitVec.ofFnLE fun b => av.getLsbD b && decide ((rules.rule i).refs b ≤ 1)

/-- `yz_policy_temp_release_locked`: a rule that counts nothing any more is freed. -/
def yzPolicyTempReleaseLocked (rules : TempRules) (key : PolicyKey) (av : Av) : TempRules :=
  if av = 0 then rules
  else match yzPolicyTempFindLocked rules key with
    | none => rules
    | some i =>
      let refs := uncountBits av (rules.rule i).refs
      if ∃ b, refs b ≠ 0 then rules.setRefs i refs else rules.clear i

/-! ## 2. The counters, permission by permission -/

/-- The references the table counts for one bit of one key. -/
def TempRules.refs (rules : TempRules) (key : PolicyKey) (b : Fin 32) : Nat :=
  match yzPolicyTempFindLocked rules key with
  | none => 0
  | some i => ((rules.rule i).refs b).toNat

/-- The table has a rule for the key, or a slot for one. -/
def TempRules.Room (rules : TempRules) (key : PolicyKey) : Prop :=
  (yzPolicyTempFindLocked rules key).isSome ∨ (yzPolicyTempFindFreeLocked rules).isSome

instance (rules : TempRules) (key : PolicyKey) : Decidable (rules.Room key) :=
  inferInstanceAs (Decidable (_ ∨ _))

theorem refs_of_used (hu : (rules.rule i).used = true) (b : Fin 32) :
    rules.refs (rules.rule i).key b = ((rules.rule i).refs b).toNat := by
  simp only [TempRules.refs, find_of_used hu]

theorem refs_of_none (h : ∀ i, (rules.rule i).used = true → (rules.rule i).key ≠ key)
    (b : Fin 32) : rules.refs key b = 0 := by
  unfold TempRules.refs
  cases hf : yzPolicyTempFindLocked rules key with
  | none => rfl
  | some i =>
    obtain ⟨hu, hk⟩ := find_some hf
    exact absurd hk (h i hu)

theorem refs_lt (rules : TempRules) (key : PolicyKey) (b : Fin 32) :
    rules.refs key b < 65536 := by
  unfold TempRules.refs
  split
  · decide
  · exact UInt16.toNat_lt _

/-- Two tables count alike for a key that the same rules carry in both. -/
theorem refs_congr {rules' : TempRules} {k : PolicyKey} {b : Fin 32}
    (h : ∀ i, ((rules'.rule i).used = true ∧ (rules'.rule i).key = k) ↔
      ((rules.rule i).used = true ∧ (rules.rule i).key = k))
    (hr : ∀ i, (rules.rule i).used = true → (rules.rule i).key = k →
      (rules'.rule i).refs b = (rules.rule i).refs b) :
    rules'.refs k b = rules.refs k b := by
  by_cases hex : ∃ i, (rules.rule i).used = true ∧ (rules.rule i).key = k
  · obtain ⟨i, hu, rfl⟩ := hex
    obtain ⟨hu', hk'⟩ := (h i).mpr ⟨hu, rfl⟩
    have h1 := refs_of_used hu' b
    rw [hk'] at h1
    rw [h1, refs_of_used hu, hr i hu rfl]
  · have hn : ∀ i, (rules.rule i).used = true → (rules.rule i).key ≠ k :=
      fun i hu hk => hex ⟨i, hu, hk⟩
    have hn' : ∀ i, (rules'.rule i).used = true → (rules'.rule i).key ≠ k :=
      fun i hu hk => hex ⟨i, (h i).mp ⟨hu, hk⟩⟩
    rw [refs_of_none hn, refs_of_none hn']

/-- New counters for one rule. -/
theorem refs_setRefs (hu : (rules.rule i).used = true) (refs : Fin 32 → UInt16)
    (k : PolicyKey) (b : Fin 32) :
    (rules.setRefs i refs).refs k b =
      if k = (rules.rule i).key then (refs b).toNat else rules.refs k b := by
  split_ifs with hk
  · have hu' : ((rules.setRefs i refs).rule i).used = true := by simpa [TempRules.setRefs]
    have := refs_of_used hu' b
    simpa [TempRules.setRefs, hk] using this
  · refine refs_congr (fun j => ?_) (fun j _ hj => ?_)
    · by_cases hj : j = i
      · subst hj; simp [TempRules.setRefs]
      · simp [TempRules.setRefs, hj]
    · have hji : j ≠ i := fun e => hk (by rw [← hj, e])
      simp [TempRules.setRefs, hji]

/-- A rule that is given up counts nothing. -/
theorem refs_clear (hu : (rules.rule i).used = true) (k : PolicyKey) (b : Fin 32) :
    (rules.clear i).refs k b = if k = (rules.rule i).key then 0 else rules.refs k b := by
  split_ifs with hk
  · refine refs_of_none (fun j hj => ?_) b
    by_cases hji : j = i
    · subst hji
      simp [TempRules.clear, TempRule.zero] at hj
    · simp only [TempRules.clear, Function.update_of_ne hji] at hj ⊢
      exact fun e => hji (rules.unique j i hj hu (e.trans hk))
  · refine refs_congr (fun j => ?_) (fun j _ hj => ?_)
    · by_cases hji : j = i
      · subst hji
        simp only [TempRules.clear, Function.update_self, TempRule.zero, Bool.false_eq_true,
          false_and, false_iff, not_and]
        exact fun _ e => hk e.symm
      · simp [TempRules.clear, hji]
    · have hji : j ≠ i := fun e => hk (by rw [← hj, e])
      simp [TempRules.clear, hji]

theorem refs_claim (hi : (rules.rule i).used = false)
    (h : yzPolicyTempFindLocked rules key = none) (k : PolicyKey) (b : Fin 32) :
    (rules.claim i key h).refs k b = rules.refs k b := by
  have hnone : rules.refs key b = 0 := refs_of_none (find_none h) b
  by_cases hk : k = key
  · subst hk
    have hu : ((rules.claim i k h).rule i).used = true := by simp [TempRules.claim]
    have := refs_of_used hu b
    rw [hnone]
    simpa [TempRules.claim] using this
  · refine refs_congr (fun j => ?_) (fun j hj _ => ?_)
    · by_cases hji : j = i
      · subst hji
        simp only [TempRules.claim, Function.update_self, true_and, hi, Bool.false_eq_true,
          false_and, iff_false]
        exact fun e => hk e.symm
      · simp [TempRules.claim, hji]
    · have hji : j ≠ i := by rintro rfl; rw [hi] at hj; cases hj
      simp [TempRules.claim, hji]

/-- The owned mask is the set of counted bits. -/
theorem getLsbD_mask (rules : TempRules) (key : PolicyKey) (b : Fin 32) :
    (yzPolicyTempMaskLocked rules key).getLsbD b = decide (rules.refs key b ≠ 0) := by
  unfold yzPolicyTempMaskLocked TempRules.refs
  cases yzPolicyTempFindLocked rules key with
  | none => simp
  | some i =>
    simp only [BitVec.getLsbD_ofFnLE, b.isLt, dif_pos, ne_eq, ← UInt16.toNat_inj,
      UInt16.toNat_zero]

/-- A planned release clears the bits of `av` that are counted once or not at all. -/
theorem getLsbD_planRelease (rules : TempRules) (key : PolicyKey) (av : Av) (b : Fin 32) :
    (yzPolicyTempPlanReleaseLocked rules key av).getLsbD b =
      (av.getLsbD b && decide (rules.refs key b ≤ 1)) := by
  unfold yzPolicyTempPlanReleaseLocked TempRules.refs
  split_ifs with h0
  · simp [h0]
  · cases yzPolicyTempFindLocked rules key with
    | none => simp
    | some i =>
      simp only [BitVec.getLsbD_ofFnLE, b.isLt, dif_pos, UInt16.le_iff_toNat_le,
        UInt16.toNat_one]

/-- A request the validation accepts meets no saturated counter, and the table has room. -/
theorem validateAdd_ok (h : yzPolicyTempValidateAddLocked rules key av = .ok ())
    {b : Fin 32} (hb : av.getLsbD b = true) :
    rules.Room key ∧ rules.refs key b < 65535 := by
  have h0 : av ≠ 0 := by rintro rfl; simp at hb
  unfold yzPolicyTempValidateAddLocked at h
  rw [if_neg h0] at h
  unfold TempRules.Room TempRules.refs
  cases hf : yzPolicyTempFindLocked rules key with
  | none =>
    rw [hf] at h
    cases hfree : yzPolicyTempFindFreeLocked rules with
    | none => rw [hfree] at h; cases h
    | some i => exact ⟨.inr rfl, Nat.zero_lt_succ _⟩
  | some i =>
    rw [hf] at h
    simp only at h
    split_ifs at h with hex
    refine ⟨.inl rfl, ?_⟩
    have hne : (rules.rule i).refs b ≠ 65535 := fun e => hex ⟨b, hb, e⟩
    have hne' : ((rules.rule i).refs b).toNat ≠ 65535 := fun e =>
      hne (UInt16.toNat_inj.mp e)
    have := UInt16.toNat_lt ((rules.rule i).refs b)
    simp only
    omega

/-- Counting adds one to each counter of the vector, modulo its width. -/
theorem toNat_countBits (refs : Fin 32 → UInt16) (b : Fin 32) :
    (countBits av refs b).toNat =
      if av.getLsbD b then ((refs b).toNat + 1) % 65536 else (refs b).toNat := by
  unfold countBits
  split_ifs <;> simp [UInt16.toNat_add]

/-- Uncounting takes one off each, down to zero. -/
theorem toNat_uncountBits (av : Av) (refs : Fin 32 → UInt16) (b : Fin 32) :
    (uncountBits av refs b).toNat = (refs b).toNat - (av.getLsbD b).toNat := by
  unfold uncountBits
  have hz : refs b = 0 ↔ (refs b).toNat = 0 := by
    rw [← UInt16.toNat_inj, UInt16.toNat_zero]
  cases hb : av.getLsbD b
  · simp
  · by_cases h0 : refs b = 0
    · simp [h0]
    · have hpos : (1 : UInt16) ≤ refs b := by
        rw [UInt16.le_iff_toNat_le, UInt16.toNat_one]
        have := mt hz.mpr h0
        omega
      simp [h0, UInt16.toNat_sub_of_le _ _ hpos]

/-- **What adding counts**: the bits of `av`, if there is a rule or a slot for the key. -/
theorem refs_add (rules : TempRules) (key : PolicyKey) (av : Av) (k : PolicyKey) (b : Fin 32) :
    (yzPolicyTempAddLocked rules key av).refs k b =
      if k = key ∧ av.getLsbD b = true ∧ rules.Room key then (rules.refs k b + 1) % 65536
      else rules.refs k b := by
  unfold yzPolicyTempAddLocked
  split_ifs with h0 hc hc
  · rw [h0] at hc; simp at hc
  · rfl
  · obtain ⟨rfl, hb, hroom⟩ := hc
    split
    · rename_i i hf
      obtain ⟨hu, hk⟩ := find_some hf
      rw [refs_setRefs hu, if_pos hk.symm, toNat_countBits, if_pos hb, ← refs_of_used hu, hk]
    · rename_i hf
      split
      · rename_i hfree
        unfold TempRules.Room at hroom
        simp [hf, hfree] at hroom
      · rename_i i hfree
        have hu : ((rules.claim i k hf).rule i).used = true := by simp [TempRules.claim]
        have hk : ((rules.claim i k hf).rule i).key = k := by simp [TempRules.claim]
        rw [refs_setRefs hu, hk, if_pos rfl, toNat_countBits, if_pos hb,
          refs_of_none (find_none hf)]
        rfl
  · split
    · rename_i i hf
      obtain ⟨hu, hk⟩ := find_some hf
      rw [refs_setRefs hu, toNat_countBits]
      split_ifs with hkk hb
      · exact absurd ⟨hkk.trans hk, hb, .inl (by rw [hf]; rfl)⟩ hc
      · rw [hkk, refs_of_used hu]
      · rfl
    · rename_i hf
      split
      · rfl
      · rename_i i hfree
        have hu : ((rules.claim i key hf).rule i).used = true := by simp [TempRules.claim]
        have hk : ((rules.claim i key hf).rule i).key = key := by simp [TempRules.claim]
        rw [refs_setRefs hu, hk, toNat_countBits, refs_claim (findFree_some hfree)]
        split_ifs with hkk hb
        · exact absurd ⟨hkk, hb, .inr (by rw [hfree]; rfl)⟩ hc
        · rw [hkk, refs_of_none (find_none hf)]
          rfl
        · rfl

/-- **What releasing uncounts**: the bits of `av`, down to zero. -/
theorem refs_release (rules : TempRules) (key : PolicyKey) (av : Av) (k : PolicyKey)
    (b : Fin 32) : (yzPolicyTempReleaseLocked rules key av).refs k b =
      rules.refs k b - if k = key ∧ av.getLsbD b = true then 1 else 0 := by
  unfold yzPolicyTempReleaseLocked
  split_ifs with h0 hc hc
  · rw [h0] at hc; simp at hc
  · rfl
  all_goals
    cases hf : yzPolicyTempFindLocked rules key with
    | none =>
      simp only
      by_cases hkk : k = key
      · rw [hkk, refs_of_none (find_none hf), Nat.zero_sub]
      · simp [hkk] at hc ⊢
    | some i => ?_
  all_goals
    obtain ⟨hu, rfl⟩ := find_some hf
    simp only
    have hcnt := toNat_uncountBits av (rules.rule i).refs b
    split_ifs with hex
  · rw [refs_setRefs hu, if_pos hc.1, hcnt, hc.2, hc.1, refs_of_used hu]
    rfl
  · rw [refs_clear hu, if_pos hc.1, hc.1, refs_of_used hu]
    push Not at hex
    rw [hex b, hc.2] at hcnt
    simpa using hcnt
  · rw [refs_setRefs hu, hcnt]
    split_ifs with hkk
    · have : av.getLsbD b = false := by simpa [hkk] using hc
      rw [this, hkk, refs_of_used hu]
      rfl
    · rfl
  · rw [refs_clear hu]
    push Not at hex
    rw [hex b] at hcnt
    split_ifs with hkk
    · have : av.getLsbD b = false := by simpa [hkk] using hc
      rw [this] at hcnt
      rw [hkk, refs_of_used hu]
      simpa using hcnt
    · rfl

end YukiZygisk.Policy
