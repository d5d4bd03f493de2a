/-
# Parts of a request and the slots they take (`kernel/host/policy_temp.c`, continued)

A request names up to four PARTS, each a key with a vector of bits, and the table counts and
uncounts them one after the other.  Parts may name the same key, so everything about them is
said permission by permission: `asks parts k b` is how many parts name bit `b` of key `k`.

* `refs_releaseAll`: releasing parts takes `asks` references away.
* `refs_addAll`: adding parts adds `asks` references, modulo the counter's width, or finds no
  slot for the key and counts nothing.
* `clean_addAll`, `clean_releaseAll`: no rule is left in use that counts nothing, as long as no
  counter wraps.
* `refs_addAll_of_slots`: adding counts all of them when every key that has no rule yet finds a
  free slot (`newKeys`, `freeSlots`).

The proofs are inductions on the list of parts, and the difficulty is that a part changes the table
for the parts behind it.  A part whose key has a rule does not change which keys have rules.  A part
whose key has none takes a free slot, if one is left, and all keys but this one find what they found
before (`used_add`, `find_isSome_add`).  When no slot is left nothing changes at all
(`not_room_add`).  For the count of slots, a key that was new is new no longer, so what is needed
goes down with what is there (`card_freeSlots_add`, `newKeys_add_subset`).
-/
import YukiZygisk.Host.PolicyTemp

namespace YukiZygisk.Policy

/-! ## 1. Parts and counters -/

/-- How many parts name bit `b` of key `k`. -/
def asks (parts : List (PolicyKey × Av)) (k : PolicyKey) (b : Fin 32) : Nat :=
  parts.countP fun p => decide (p.1 = k) && p.2.getLsbD b

theorem asks_cons (p : PolicyKey × Av) (parts : List (PolicyKey × Av)) (k : PolicyKey)
    (b : Fin 32) : asks (p :: parts) k b =
      asks parts k b + if p.1 = k ∧ p.2.getLsbD b = true then 1 else 0 := by
  simp [asks, List.countP_cons]

/-- Two lists of parts ask for what both ask for. -/
theorem asks_append (ps qs : List (PolicyKey × Av)) (k : PolicyKey) (b : Fin 32) :
    asks (ps ++ qs) k b = asks ps k b + asks qs k b :=
  List.countP_append

/-- A permission is asked for by some part. -/
theorem asks_pos {parts : List (PolicyKey × Av)} {k : PolicyKey} {b : Fin 32} :
    0 < asks parts k b ↔ ∃ p ∈ parts, p.1 = k ∧ p.2.getLsbD b = true := by
  simp [asks, List.countP_pos_iff]

theorem asks_of_notMem {parts : List (PolicyKey × Av)} {k : PolicyKey} (hk : k ∉ parts.map Prod.fst)
    (b : Fin 32) : asks parts k b = 0 := by
  by_contra hne
  obtain ⟨p, hp, rfl, -⟩ := asks_pos.mp (Nat.pos_of_ne_zero hne)
  exact hk (List.mem_map_of_mem hp)

/-- A vector that names something names a bit. -/
theorem exists_bit {av : Av} (h : av ≠ 0) : ∃ b : Fin 32, av.getLsbD b = true := by
  by_contra hno
  refine h (BitVec.eq_of_getLsbD_eq fun i hi => ?_)
  have : av.getLsbD i ≠ true := fun hb => hno ⟨⟨i, hi⟩, hb⟩
  simpa using this

/-- Parts ask alike when their keys agree wherever they name a bit. -/
theorem asks_cons_congr {k₁ k₂ : PolicyKey} {av : Av} {ps qs : List (PolicyKey × Av)}
    {k : PolicyKey} {b : Fin 32} (hk : av ≠ 0 → k₁ = k₂) (h : asks ps k b = asks qs k b) :
    asks ((k₁, av) :: ps) k b = asks ((k₂, av) :: qs) k b := by
  rw [asks_cons, asks_cons, h]
  by_cases h0 : av = 0
  · simp [h0]
  · rw [hk h0]

/-- A part that names nothing asks for nothing. -/
@[simp] theorem asks_cons_zero (k₀ : PolicyKey) (parts : List (PolicyKey × Av))
    (k : PolicyKey) (b : Fin 32) : asks ((k₀, 0#32) :: parts) k b = asks parts k b := by
  simp [asks_cons]

/-- Every part that names a bit has a key the avtab can hold. -/
def PartsFit (parts : List (PolicyKey × Av)) : Prop := ∀ p ∈ parts, p.2 ≠ 0 → p.1.Fits

/-- Parts narrowed bit by bit by a condition on the permission touch what they asked for and
the condition lets through. -/
theorem touches_map {parts : List (PolicyKey × Av)} {f : PolicyKey → Av → Av}
    {c : PolicyKey → Fin 32 → Bool} (hfit : PartsFit parts) {k : PolicyKey} (hk : k.Fits)
    {b : Fin 32}
    (hf : ∀ key (av : Av), (f key av).getLsbD b = (av.getLsbD b && c key b)) :
    Touches (parts.map fun p => (p.1, f p.1 p.2)) k b ↔
      0 < asks parts k b ∧ c k b = true := by
  rw [asks_pos]
  constructor
  · rintro ⟨q, hq, hkey, hb⟩
    obtain ⟨p, hp, rfl⟩ := List.mem_map.mp hq
    simp only [hf, Bool.and_eq_true] at hb
    have hne : p.2 ≠ 0 := by intro h0; rw [h0] at hb; simp at hb
    have hpk := (avkey_inj (hfit p hp hne) hk).mp hkey
    exact ⟨⟨p, hp, hpk, hb.1⟩, hpk ▸ hb.2⟩
  · rintro ⟨⟨p, hp, rfl, hb⟩, hc⟩
    exact ⟨_, List.mem_map.mpr ⟨p, hp, rfl⟩, rfl, by rw [hf, hb, hc]; rfl⟩

/-- Add a list of parts, one after the other. -/
def addAll (rules : TempRules) (parts : List (PolicyKey × Av)) : TempRules :=
  parts.foldl (fun rules p => yzPolicyTempAddLocked rules p.1 p.2) rules

/-- Release a list of parts, one after the other. -/
def releaseAll (rules : TempRules) (parts : List (PolicyKey × Av)) : TempRules :=
  parts.foldl (fun rules p => yzPolicyTempReleaseLocked rules p.1 p.2) rules

variable {rules : TempRules} {key : PolicyKey} {av : Av} {k : PolicyKey} {b : Fin 32}

/-- **Releasing parts takes their references away.** -/
theorem refs_releaseAll (rules : TempRules) (parts : List (PolicyKey × Av)) (k : PolicyKey)
    (b : Fin 32) : (releaseAll rules parts).refs k b = rules.refs k b - asks parts k b := by
  induction parts generalizing rules with
  | nil => rfl
  | cons p parts ih =>
    change (releaseAll (yzPolicyTempReleaseLocked rules p.1 p.2) parts).refs k b = _
    rw [ih, refs_release, asks_cons]
    simp only [eq_comm (a := k)]
    omega

theorem find_isSome : (yzPolicyTempFindLocked rules key).isSome ↔
    ∃ i, (rules.rule i).used = true ∧ (rules.rule i).key = key := by
  constructor
  · intro h
    obtain ⟨i, hi⟩ := Option.isSome_iff_exists.mp h
    exact ⟨i, find_some hi⟩
  · rintro ⟨i, hu, rfl⟩
    rw [find_of_used hu]
    rfl

/-- A rule in use keeps its slot and key when parts are added. -/
theorem used_add (key : PolicyKey) (av : Av) {i : Fin 64} (hu : (rules.rule i).used = true) :
    ((yzPolicyTempAddLocked rules key av).rule i).used = true ∧
      ((yzPolicyTempAddLocked rules key av).rule i).key = (rules.rule i).key := by
  unfold yzPolicyTempAddLocked
  split_ifs
  · exact ⟨hu, rfl⟩
  · split
    · rename_i j hf
      by_cases hij : i = j
      · subst hij; simp [TempRules.setRefs, hu]
      · simp [TempRules.setRefs, hij, hu]
    · split
      · exact ⟨hu, rfl⟩
      · rename_i j hfree
        have hij : i ≠ j := by rintro rfl; rw [findFree_some hfree] at hu; cases hu
        simp [TempRules.setRefs, TempRules.claim, hij, hu]

theorem find_isSome_add (key : PolicyKey) (av : Av)
    (h : (yzPolicyTempFindLocked rules k).isSome) :
    (yzPolicyTempFindLocked (yzPolicyTempAddLocked rules key av) k).isSome := by
  obtain ⟨i, hu, rfl⟩ := find_isSome.mp h
  exact find_isSome.mpr ⟨i, used_add _ _ hu⟩

/-- What has room has a rule once it is added. -/
theorem find_isSome_add_self (hav : av ≠ 0) (h : rules.Room key) :
    (yzPolicyTempFindLocked (yzPolicyTempAddLocked rules key av) key).isSome := by
  cases hf : yzPolicyTempFindLocked rules key with
  | some i => exact find_isSome_add _ _ (by rw [hf]; rfl)
  | none =>
    rcases h with h | h
    · rw [hf] at h; cases h
    · obtain ⟨j, hj⟩ := Option.isSome_iff_exists.mp h
      refine find_isSome.mpr ⟨j, ?_⟩
      unfold yzPolicyTempAddLocked
      rw [if_neg hav]
      split
      · rename_i i hf'
        rw [hf] at hf'; cases hf'
      · simp [hj, TempRules.setRefs, TempRules.claim]

/-- A full table without a rule for `k` stays one. -/
theorem not_room_add (h : ¬ rules.Room k) : ¬ (yzPolicyTempAddLocked rules key av).Room k := by
  have hfull : ∀ i, (rules.rule i).used = true := fun i =>
    findFree_none (by simpa using fun h' => h (.inr h')) i
  rintro (hr | hr)
  · obtain ⟨i, -, hk⟩ := find_isSome.mp hr
    have := used_add key av (hfull i)
    exact h (.inl (find_isSome.mpr ⟨i, hfull i, this.2.symm.trans hk⟩))
  · obtain ⟨i, hi⟩ := Option.isSome_iff_exists.mp hr
    have := used_add key av (hfull i)
    rw [findFree_some hi] at this
    exact Bool.false_ne_true this.1

theorem refs_of_not_room (h : ¬ rules.Room k) : rules.refs k b = 0 := by
  have hf : yzPolicyTempFindLocked rules k = none := by
    by_contra hne
    exact h (.inl (Option.ne_none_iff_isSome.mp hne))
  exact refs_of_none (find_none hf) b

/-- Where the table has no room for a key, nothing is counted. -/
theorem refs_addAll_of_not_room {parts : List (PolicyKey × Av)} (h : ¬ rules.Room k) :
    (addAll rules parts).refs k b = 0 := by
  induction parts generalizing rules with
  | nil => exact refs_of_not_room h
  | cons p parts ih => exact ih (not_room_add h)

/-- A key with a rule counts every part. -/
theorem refs_addAll_of_rule {parts : List (PolicyKey × Av)}
    (h : (yzPolicyTempFindLocked rules k).isSome) :
    (addAll rules parts).refs k b = (rules.refs k b + asks parts k b) % 65536 := by
  induction parts generalizing rules with
  | nil => exact (Nat.mod_eq_of_lt (refs_lt rules k b)).symm
  | cons p parts ih =>
    change (addAll (yzPolicyTempAddLocked rules p.1 p.2) parts).refs k b = _
    rw [ih (find_isSome_add _ _ h), refs_add, asks_cons]
    by_cases hp : p.1 = k ∧ p.2.getLsbD b = true
    · obtain ⟨rfl, hb⟩ := hp
      rw [if_pos ⟨rfl, hb, .inl h⟩, if_pos ⟨rfl, hb⟩]
      omega
    · rw [if_neg (fun hc => hp ⟨hc.1.symm, hc.2.1⟩), if_neg hp, Nat.add_zero]

/-- **Adding parts counts them, or finds no slot and counts nothing.** -/
theorem refs_addAll (rules : TempRules) (parts : List (PolicyKey × Av)) (k : PolicyKey)
    (b : Fin 32) : (addAll rules parts).refs k b = (rules.refs k b + asks parts k b) % 65536 ∨
      (addAll rules parts).refs k b = 0 ∧ rules.refs k b = 0 := by
  induction parts generalizing rules with
  | nil => exact .inl (Nat.mod_eq_of_lt (refs_lt rules k b)).symm
  | cons p parts ih =>
    change (addAll (yzPolicyTempAddLocked rules p.1 p.2) parts).refs k b = _ ∨
      (addAll (yzPolicyTempAddLocked rules p.1 p.2) parts).refs k b = 0 ∧ _
    by_cases hp : p.1 = k ∧ p.2.getLsbD b = true
    · by_cases hroom : rules.Room k
      · obtain ⟨rfl, hb⟩ := hp
        have hav : p.2 ≠ 0 := by intro h0; rw [h0] at hb; simp at hb
        left
        rw [refs_addAll_of_rule (find_isSome_add_self hav hroom), refs_add, asks_cons,
          if_pos ⟨rfl, hb, hroom⟩, if_pos ⟨rfl, hb⟩]
        omega
      · exact .inr ⟨refs_addAll_of_not_room (not_room_add hroom), refs_of_not_room hroom⟩
    · have := ih (yzPolicyTempAddLocked rules p.1 p.2)
      rw [refs_add, if_neg (fun hc => hp ⟨hc.1.symm, hc.2.1⟩)] at this
      rwa [asks_cons, if_neg hp, Nat.add_zero]

/-! ## 2. Tables without idle rules -/

/-- Every rule in use is for a key the avtab can hold, and counts something. -/
def TempRules.Clean (rules : TempRules) : Prop :=
  ∀ k, (yzPolicyTempFindLocked rules k).isSome → k.Fits ∧ ∃ b, rules.refs k b ≠ 0

theorem clean_empty : TempRules.empty.Clean := by
  intro k hk
  obtain ⟨i, hu, -⟩ := find_isSome.mp hk
  cases hu

/-- A slot after parts are added: as it was, or taken for the added key. -/
theorem slot_add (rules : TempRules) (key : PolicyKey) (av : Av) (i : Fin 64) :
    (((yzPolicyTempAddLocked rules key av).rule i).used = (rules.rule i).used ∧
      ((yzPolicyTempAddLocked rules key av).rule i).key = (rules.rule i).key) ∨
    (((yzPolicyTempAddLocked rules key av).rule i).key = key ∧ av ≠ 0 ∧ rules.Room key) := by
  unfold yzPolicyTempAddLocked
  split_ifs with h0
  · exact .inl ⟨rfl, rfl⟩
  · split
    · rename_i j hf
      left
      by_cases hij : i = j
      · subst hij; simp [TempRules.setRefs]
      · simp [TempRules.setRefs, hij]
    · split
      · exact .inl ⟨rfl, rfl⟩
      · rename_i j hfree
        by_cases hij : i = j
        · right
          subst hij
          exact ⟨by simp [TempRules.setRefs, TempRules.claim], h0, .inr (by rw [hfree]; rfl)⟩
        · left
          simp [TempRules.setRefs, TempRules.claim, hij]

/-- A slot after parts are released: as it was, or free. -/
theorem slot_release (rules : TempRules) (key : PolicyKey) (av : Av) (i : Fin 64) :
    (((yzPolicyTempReleaseLocked rules key av).rule i).used = (rules.rule i).used ∧
      ((yzPolicyTempReleaseLocked rules key av).rule i).key = (rules.rule i).key) ∨
    ((yzPolicyTempReleaseLocked rules key av).rule i).used = false := by
  unfold yzPolicyTempReleaseLocked
  split_ifs with h0
  · exact .inl ⟨rfl, rfl⟩
  · split
    · exact .inl ⟨rfl, rfl⟩
    · rename_i j hf
      by_cases hij : i = j
      · subst hij
        simp only
        split_ifs
        · left; simp [TempRules.setRefs]
        · right; simp [TempRules.clear, TempRule.zero]
      · left
        simp only
        split_ifs
        · simp [TempRules.setRefs, hij]
        · simp [TempRules.clear, hij]

/-- Releasing a key leaves its rule only while the rule counts something. -/
theorem refs_of_released (hav : av ≠ 0)
    (h : (yzPolicyTempFindLocked (yzPolicyTempReleaseLocked rules key av) key).isSome) :
    ∃ b, (yzPolicyTempReleaseLocked rules key av).refs key b ≠ 0 := by
  cases hf : yzPolicyTempFindLocked rules key with
  | none =>
    have hrel : yzPolicyTempReleaseLocked rules key av = rules := by
      unfold yzPolicyTempReleaseLocked
      rw [if_neg hav]
      simp only [hf]
    rw [hrel, hf] at h
    cases h
  | some i =>
    obtain ⟨hu, rfl⟩ := find_some hf
    by_cases hex : ∃ b, uncountBits av (rules.rule i).refs b ≠ 0
    · have hrel : yzPolicyTempReleaseLocked rules (rules.rule i).key av =
          rules.setRefs i (uncountBits av (rules.rule i).refs) := by
        unfold yzPolicyTempReleaseLocked
        rw [if_neg hav]
        simp only [hf, if_pos hex]
      obtain ⟨b, hb⟩ := hex
      refine ⟨b, ?_⟩
      rw [hrel, refs_setRefs hu, if_pos rfl]
      exact fun he => hb (UInt16.toNat_inj.mp he)
    · have hrel : yzPolicyTempReleaseLocked rules (rules.rule i).key av = rules.clear i := by
        unfold yzPolicyTempReleaseLocked
        rw [if_neg hav]
        simp only [hf, if_neg hex]
      rw [hrel] at h
      obtain ⟨j, hj, hk⟩ := find_isSome.mp h
      by_cases hji : j = i
      · subst hji
        simp [TempRules.clear, TempRule.zero] at hj
      · simp only [TempRules.clear, Function.update_of_ne hji] at hj hk
        exact absurd (rules.unique j i hj hu hk) hji

/-- Adding parts keeps the table clean as long as no counter wraps. -/
theorem clean_add (hc : rules.Clean) (hfit : av ≠ 0 → key.Fits)
    (hlt : ∀ b : Fin 32, av.getLsbD b = true → rules.refs key b < 65535) :
    (yzPolicyTempAddLocked rules key av).Clean := by
  have hmono : ∀ k b, rules.refs k b ≠ 0 → (yzPolicyTempAddLocked rules key av).refs k b ≠ 0 := by
    intro k b hne
    rw [refs_add]
    split_ifs with hcond
    · obtain ⟨rfl, hb, -⟩ := hcond
      have := hlt b hb
      omega
    · exact hne
  intro k hk
  obtain ⟨i, hu, rfl⟩ := find_isSome.mp hk
  rcases slot_add rules key av i with ⟨hus, hks⟩ | ⟨hks, hav, hroom⟩
  · obtain ⟨hkf, b, hb⟩ := hc (rules.rule i).key (find_isSome.mpr ⟨i, hus ▸ hu, rfl⟩)
    exact ⟨hks ▸ hkf, b, hks ▸ hmono _ b hb⟩
  · obtain ⟨b, hb⟩ := exists_bit hav
    have := hlt b hb
    rw [hks]
    refine ⟨hfit hav, b, ?_⟩
    rw [refs_add, if_pos ⟨rfl, hb, hroom⟩]
    omega

theorem clean_release (hc : rules.Clean) : (yzPolicyTempReleaseLocked rules key av).Clean := by
  intro k hk
  obtain ⟨i, hu, rfl⟩ := find_isSome.mp hk
  rcases slot_release rules key av i with ⟨hus, hks⟩ | hfree
  · obtain ⟨hkf, b, hb⟩ := hc (rules.rule i).key (find_isSome.mpr ⟨i, hus ▸ hu, rfl⟩)
    rw [hks] at hk ⊢
    refine ⟨hkf, ?_⟩
    by_cases hkey : (rules.rule i).key = key ∧ av ≠ 0
    · obtain ⟨rfl, hav⟩ := hkey
      exact refs_of_released hav hk
    · refine ⟨b, ?_⟩
      rw [refs_release, if_neg, Nat.sub_zero]
      · exact hb
      · rintro ⟨he, hbit⟩
        refine hkey ⟨he, ?_⟩
        rintro rfl
        simp at hbit
  · rw [hfree] at hu
    cases hu

theorem clean_addAll {parts : List (PolicyKey × Av)} (hc : rules.Clean) (hfit : PartsFit parts)
    (hlt : ∀ k b, 0 < asks parts k b → rules.refs k b + asks parts k b ≤ 65535) :
    (addAll rules parts).Clean := by
  induction parts generalizing rules with
  | nil => exact hc
  | cons p parts ih =>
    refine ih (clean_add hc (hfit p (List.mem_cons_self ..)) fun b hb => ?_)
      (fun q hq => hfit q (List.mem_cons_of_mem _ hq)) fun k b hpos => ?_
    · have := hlt p.1 b (by rw [asks_cons, if_pos ⟨rfl, hb⟩]; omega)
      rw [asks_cons, if_pos ⟨rfl, hb⟩] at this
      omega
    · have := hlt k b (by rw [asks_cons]; omega)
      rw [asks_cons] at this
      by_cases hp : p.1 = k ∧ p.2.getLsbD b = true
      · have hmod := Nat.mod_le (rules.refs k b + 1) 65536
        rw [if_pos hp] at this
        rw [refs_add]
        split_ifs
        · omega
        · omega
      · rw [if_neg hp] at this
        rwa [refs_add, if_neg fun hc => hp ⟨hc.1.symm, hc.2.1⟩]

/-- Releasing leaves no idle rule. -/
theorem clean_releaseAll {parts : List (PolicyKey × Av)} (hc : rules.Clean) :
    (releaseAll rules parts).Clean := by
  induction parts generalizing rules with
  | nil => exact hc
  | cons p parts ih => exact ih (clean_release hc)

/-! ## 3. Slots -/

/-- The free slots of the table. -/
def freeSlots (rules : TempRules) : Finset (Fin 64) :=
  Finset.univ.filter fun i => (rules.rule i).used = false

@[simp] theorem mem_freeSlots {i : Fin 64} :
    i ∈ freeSlots rules ↔ (rules.rule i).used = false := by
  rw [freeSlots, Finset.mem_filter]
  exact and_iff_right (Finset.mem_univ i)

/-- The keys of non-empty parts that have no rule yet. -/
def newKeys (rules : TempRules) (parts : List (PolicyKey × Av)) : Finset PolicyKey :=
  ((parts.filter fun p => decide (p.2 ≠ 0)).map (·.1)).toFinset.filter
    fun k => yzPolicyTempFindLocked rules k = none

theorem mem_newKeys {parts : List (PolicyKey × Av)} : k ∈ newKeys rules parts ↔
    (∃ p ∈ parts, p.2 ≠ 0 ∧ p.1 = k) ∧ yzPolicyTempFindLocked rules k = none := by
  simp only [newKeys, Finset.mem_filter, List.mem_toFinset, List.mem_map, List.mem_filter,
    decide_eq_true_eq, and_assoc]

/-- Adding to an existing rule takes no slot. -/
theorem freeSlots_add_of_rule (h : (yzPolicyTempFindLocked rules key).isSome) :
    freeSlots (yzPolicyTempAddLocked rules key av) = freeSlots rules := by
  unfold yzPolicyTempAddLocked
  split_ifs
  · rfl
  · split
    · rename_i i hf
      ext j
      rw [mem_freeSlots, mem_freeSlots]
      by_cases hj : j = i
      · subst hj; simp [TempRules.setRefs]
      · simp [TempRules.setRefs, hj]
    · rename_i hf
      rw [hf] at h; cases h

/-- Adding a new key takes at most one slot. -/
theorem card_freeSlots_add (rules : TempRules) (key : PolicyKey) (av : Av) :
    (freeSlots rules).card ≤ (freeSlots (yzPolicyTempAddLocked rules key av)).card + 1 := by
  unfold yzPolicyTempAddLocked
  split_ifs
  · omega
  · split
    · rename_i i hf
      refine Nat.le_succ_of_le (Finset.card_le_card fun j hj => ?_)
      rw [mem_freeSlots] at hj ⊢
      by_cases hji : j = i
      · subst hji
        simpa [TempRules.setRefs] using hj
      · simpa [TempRules.setRefs, hji] using hj
    · split
      · omega
      · rename_i i hfree
        have hsub : freeSlots rules ⊆ insert i (freeSlots
            ((rules.claim i key ‹_›).setRefs i (countBits av fun _ => 0))) := by
          intro j hj
          by_cases hji : j = i
          · exact hji ▸ Finset.mem_insert_self _ _
          · refine Finset.mem_insert_of_mem ?_
            rw [mem_freeSlots] at hj ⊢
            simpa [TempRules.setRefs, TempRules.claim, hji] using hj
        exact (Finset.card_le_card hsub).trans (Finset.card_insert_le _ _)

/-- The new keys left after one part is added. -/
theorem newKeys_add_subset (p : PolicyKey × Av) (parts : List (PolicyKey × Av))
    (hroom : rules.Room p.1) (hav : p.2 ≠ 0) :
    newKeys (yzPolicyTempAddLocked rules p.1 p.2) parts ⊆
      (newKeys rules (p :: parts)).erase p.1 := by
  intro k hk
  obtain ⟨⟨q, hq, hne, rfl⟩, hnone⟩ := mem_newKeys.mp hk
  refine Finset.mem_erase.mpr ⟨fun he => ?_, mem_newKeys.mpr
    ⟨⟨q, List.mem_cons_of_mem _ hq, hne, rfl⟩, ?_⟩⟩
  · have := find_isSome_add_self hav hroom
    rw [he] at hnone
    rw [hnone] at this
    cases this
  · by_contra hsome
    have := find_isSome_add p.1 p.2 (Option.ne_none_iff_isSome.mp hsome)
    rw [hnone] at this
    cases this

/-- **With a slot for every new key, every part is counted.** -/
theorem refs_addAll_of_slots {parts : List (PolicyKey × Av)}
    (h : (newKeys rules parts).card ≤ (freeSlots rules).card) :
    (addAll rules parts).refs k b = (rules.refs k b + asks parts k b) % 65536 := by
  induction parts generalizing rules with
  | nil => exact (Nat.mod_eq_of_lt (refs_lt rules k b)).symm
  | cons p parts ih =>
    change (addAll (yzPolicyTempAddLocked rules p.1 p.2) parts).refs k b = _
    by_cases hav : p.2 = 0
    · have hadd : yzPolicyTempAddLocked rules p.1 p.2 = rules := by
        unfold yzPolicyTempAddLocked; rw [if_pos hav]
      have hnew : newKeys rules parts ⊆ newKeys rules (p :: parts) := by
        intro k hk
        obtain ⟨⟨q, hq, hne, rfl⟩, hnone⟩ := mem_newKeys.mp hk
        exact mem_newKeys.mpr ⟨⟨q, List.mem_cons_of_mem _ hq, hne, rfl⟩, hnone⟩
      rw [hadd, ih ((Finset.card_le_card hnew).trans h), asks_cons, hav]
      simp
    · have hroom : rules.Room p.1 := by
        by_cases hf : (yzPolicyTempFindLocked rules p.1).isSome
        · exact .inl hf
        · have hmem : p.1 ∈ newKeys rules (p :: parts) :=
            mem_newKeys.mpr ⟨⟨p, List.mem_cons_self .., hav, rfl⟩, by simpa using hf⟩
          have hpos := Finset.card_pos.mpr ⟨_, hmem⟩
          obtain ⟨i, hi⟩ := Finset.card_pos.mp (lt_of_lt_of_le hpos h)
          refine .inr ?_
          by_contra hnone
          have := findFree_none (by simpa using hnone) i
          rw [(Finset.mem_filter.mp hi).2] at this
          cases this
      have hle : (newKeys (yzPolicyTempAddLocked rules p.1 p.2) parts).card ≤
          (freeSlots (yzPolicyTempAddLocked rules p.1 p.2)).card := by
        have hsub := Finset.card_le_card (newKeys_add_subset p parts hroom hav)
        by_cases hf : (yzPolicyTempFindLocked rules p.1).isSome
        · rw [freeSlots_add_of_rule hf]
          exact hsub.trans ((Finset.card_le_card (Finset.erase_subset _ _)).trans h)
        · have hmem : p.1 ∈ newKeys rules (p :: parts) :=
            mem_newKeys.mpr ⟨⟨p, List.mem_cons_self .., hav, rfl⟩, by simpa using hf⟩
          rw [Finset.card_erase_of_mem hmem] at hsub
          have := card_freeSlots_add rules p.1 p.2
          omega
      rw [ih hle, refs_add, asks_cons]
      by_cases hp : p.1 = k ∧ p.2.getLsbD b = true
      · obtain ⟨rfl, hb⟩ := hp
        rw [if_pos ⟨rfl, hb, hroom⟩, if_pos ⟨rfl, hb⟩]
        omega
      · rw [if_neg (fun hc => hp ⟨hc.1.symm, hc.2.1⟩), if_neg hp, Nat.add_zero]

end YukiZygisk.Policy
