/-
# The policy control base (`kernel/host/policy.c`)

The module changes the live SELinux policy by copying it, editing the access vector table of
the copy and publishing the copy.  This file models that layer:

* the symbol tables it reads (`Symtab`, `ClassDatum`), and the permission masks it computes
  from them (`yzPolicyPermMask`, `yzPolicyRequiredAv`);
* one edit of the table, `yzPolicyApplyAv`;
* a commit of up to four edits, all or nothing (`commitLocked`), in its two forms;
* the keys a file load or an execmem request is about;
* the permanent grants of `yz_host_policy_prepare_runtime_current`.

`Policydb` carries what makes a policy well formed: its table is, and its type values fit
the table's 16-bit fields.  Copying a policy (`policydb_write`, `policydb_read`) is taken to
be faithful when it succeeds, and what can fail is an answer of the environment.  Names that
are only printed are left out.

What is proved is layered in the same way.  `getLsbD_editAv` says what an edit does to one bit of a
vector.  `applyAv_spec` says what one edit of the table does to every vector, through the three ways
it goes about it: writing to the node that is there, inserting one, or removing the one that has
become empty.  `commitLocked_spec` says it for all the edits of a commit, or that nothing was
published; it is what the temporary policy builds on, and it also says that the symbol tables of the
policy stay the same.
-/
import YukiZygisk.Basic
import YukiZygisk.Host.Avtab

namespace YukiZygisk.Policy

/-! ## 1. The policy database -/

/-- `struct symtab`: the number of values, and `symtab_search`. -/
structure Symtab (α : Type) where
  nprim : Nat
  lookup : String → Option α

structure TypeDatum where
  value : Nat
  isAttribute : Bool

/-- `struct class_datum`; a permission's datum is its value. -/
structure ClassDatum where
  value : Nat
  permissions : Symtab Nat
  comdatum : Option (Symtab Nat)

/-- `yz_policy_perm_mask`: the class's own permissions first, then its common's. -/
def yzPolicyPermMask (cls : ClassDatum) (permName : String) : Av :=
  match (cls.permissions.lookup permName).or
      (cls.comdatum.bind fun common => common.lookup permName) with
  | none => 0
  | some value => if value = 0 ∨ 32 < value then 0 else 1#32 <<< (value - 1)

/-- `yz_policy_required_av`. -/
def yzPolicyRequiredAv (cls : ClassDatum) (perms : List String) : Av :=
  perms.foldl (fun av perm => av ||| yzPolicyPermMask cls perm) 0

/-- What one edit does to the allowed vector of its own key. -/
def editAv (allow : Bool) (old av : Av) : Av := if allow then old ||| av else old &&& ~~~av

@[simp] theorem editAv_zero (allow : Bool) (old : Av) : editAv allow old 0 = old := by
  cases allow
  · show old &&& ~~~0#32 = old
    rw [BitVec.not_zero, BitVec.and_allOnes]
  · exact BitVec.or_zero

/-- Bit by bit: the named bits are set or cleared, the others stay. -/
theorem getLsbD_editAv (allow : Bool) (old av : Av) (b : Nat) :
    (editAv allow old av).getLsbD b = if av.getLsbD b then allow else old.getLsbD b := by
  cases allow
  · simp only [editAv, Bool.false_eq_true, if_false, BitVec.getLsbD_and, BitVec.getLsbD_not]
    by_cases hb : b < 32
    · cases av.getLsbD b <;> simp [hb]
    · rw [BitVec.getLsbD_of_ge old b (by omega)]
      simp
  · simp only [editAv, if_true, BitVec.getLsbD_or]
    cases av.getLsbD b <;> simp

/-- Some part names bit `b` of a key that the table cannot tell from `k`. -/
def Touches (parts : List (PolicyKey × Av)) (k : PolicyKey) (b : Nat) : Prop :=
  ∃ p ∈ parts, p.1.avkey = k.avkey ∧ p.2.getLsbD b = true

instance (parts : List (PolicyKey × Av)) (k : PolicyKey) (b : Nat) :
    Decidable (Touches parts k b) :=
  inferInstanceAs (Decidable (∃ p ∈ parts, _))

@[simp] theorem touches_nil (k : PolicyKey) (b : Nat) : ¬ Touches [] k b := by
  simp [Touches]

/-- A bit is touched by the first part or by the others. -/
theorem touches_cons (p : PolicyKey × Av) (parts : List (PolicyKey × Av)) (k : PolicyKey)
    (b : Nat) : Touches (p :: parts) k b ↔
      (p.1.avkey = k.avkey ∧ p.2.getLsbD b = true) ∨ Touches parts k b := by
  simp [Touches]

variable [AvtabFns]

/-- `struct policydb`: what the module reads of it, and what makes it well formed. -/
structure Policydb where
  pTypes : Symtab TypeDatum
  pClasses : Symtab ClassDatum
  typeNames : Option (Nat → Option String)
  classNames : Option (Nat → Option String)
  teAvtab : Avtab
  len : Nat
  teAvtab_wf : teAvtab.Wf
  nprim_fits : pTypes.nprim < 65536
  type_fits : ∀ name d, pTypes.lookup name = some d → d.value < 65536

/-- `struct context`. -/
structure Context where
  type : Nat

/-- `struct selinux_policy`; `sidtab` is `sidtab_search_entry`. -/
structure SelinuxPolicy where
  policydb : Policydb
  sidtab : Nat → Option Context
  context_fits : ∀ sid c, sidtab sid = some c → c.type < 65536

/-- `yz_policy_type_name_by_value`. -/
def yzPolicyTypeNameByValue (db : Policydb) (type : Nat) : Option String :=
  if type = 0 ∨ db.pTypes.nprim < type then none
  else db.typeNames.bind fun names => names (type - 1)

/-- `yz_policy_class_name_by_value`. -/
def yzPolicyClassNameByValue (db : Policydb) (tclass : Nat) : Option String :=
  if tclass = 0 ∨ db.pClasses.nprim < tclass then none
  else db.classNames.bind fun names => names (tclass - 1)

/-- `yz_policy_type_value_by_name`. -/
def yzPolicyTypeValueByName (db : Policydb) (name : String) : Nat :=
  match db.pTypes.lookup name with
  | some type => type.value
  | none => 0

/-- A class by name, when its value fits `u16`. -/
def classByName (db : Policydb) (name : String) : Option ClassDatum :=
  match db.pClasses.lookup name with
  | some cls => if 65535 < cls.value then none else some cls
  | none => none

theorem classByName_fits {db : Policydb} {name : String} {cls : ClassDatum}
    (h : classByName db name = some cls) : cls.value < 65536 := by
  unfold classByName at h
  split at h
  · split_ifs at h with hv
    obtain rfl := Option.some.inj h
    omega
  · cases h

/-- The allowed vector of a key in the policy. -/
def Policydb.direct (db : Policydb) (key : PolicyKey) : Av := db.teAvtab.direct key

/-! ## 2. One edit -/

/-- `sizeof(struct avtab_key) + sizeof(struct avtab_datum)`. -/
def avtabNodeSize : Nat := 16

/-- `yz_policy_get_avtab_node`: the node of the key, inserted empty when there is none. -/
def yzPolicyGetAvtabNode (db : Policydb) (key : PolicyKey) (alloc : Bool) :
    Option (Policydb × Nat) :=
  match hs : AvtabFns.search db.teAvtab key.avkey with
  | some node => some (db, node)
  | none =>
    if alloc = false then none
    else match hi : AvtabFns.insertNonunique db.teAvtab key.avkey 0 with
      | none => none
      | some (t, node) =>
        some ({ db with
          teAvtab := t
          teAvtab_wf := db.teAvtab_wf.insert hs hi
          len := db.len + avtabNodeSize }, node)

/-- A write to the data of a node of the table. -/
def Policydb.modifyNode (db : Policydb) (node : Nat) (f : Av → Av) : Policydb :=
  { db with
    teAvtab := db.teAvtab.modifyData node f
    teAvtab_wf := db.teAvtab_wf.modifyData node f }

/-- `yz_policy_remove_avtab_node`: it allocates a table to free the node with, and does
nothing when that fails. -/
def yzPolicyRemoveAvtabNode (db : Policydb) (node : Nat) (alloc : Bool) : Policydb × Bool :=
  if alloc = false then (db, false)
  else match h : db.teAvtab.unlink node with
    | none => (db, false)
    | some t =>
      ({ db with
        teAvtab := t
        teAvtab_wf := db.teAvtab_wf.unlink h
        len := db.len - avtabNodeSize }, true)

/-- `yz_policy_apply_av`; `alloc` is the answer to the one allocation it may make. -/
def yzPolicyApplyAv (db : Policydb) (key : PolicyKey) (av : Av) (allow alloc : Bool) :
    Except Errno Policydb :=
  if av = 0 then .ok db
  else if yzPolicyTypeNameByValue db key.srcType = none ∨
      yzPolicyTypeNameByValue db key.tgtType = none ∨
      yzPolicyClassNameByValue db key.tclass = none then .error .ENOENT
  else if allow then
    match yzPolicyGetAvtabNode db key alloc with
    | none => .error .ENOMEM
    | some (db, node) => .ok (db.modifyNode node (· ||| av))
  else
    match AvtabFns.search db.teAvtab key.avkey with
    | none => .ok db
    | some node =>
      let db := db.modifyNode node (· &&& ~~~av)
      if db.teAvtab.data node = 0 then .ok (yzPolicyRemoveAvtabNode db node alloc).1
      else .ok db

/-- Two policies with the same symbols: everything but the table and its size. -/
structure SameSymbols (db db' : Policydb) : Prop where
  types : db'.pTypes = db.pTypes
  classes : db'.pClasses = db.pClasses
  typeNames : db'.typeNames = db.typeNames
  classNames : db'.classNames = db.classNames

theorem SameSymbols.refl (db : Policydb) : SameSymbols db db := ⟨rfl, rfl, rfl, rfl⟩

theorem SameSymbols.trans {a b c : Policydb} (h : SameSymbols a b) (h' : SameSymbols b c) :
    SameSymbols a c :=
  ⟨h'.1.trans h.1, h'.2.trans h.2, h'.3.trans h.3, h'.4.trans h.4⟩

variable {db db' : Policydb} {key : PolicyKey} {av : Av} {allow alloc : Bool}

/-- The node `yz_policy_get_avtab_node` returns is the key's, and no vector has moved. -/
theorem getAvtabNode_spec {node : Nat} (h : yzPolicyGetAvtabNode db key alloc = some (db', node)) :
    SameSymbols db db' ∧ (∀ k, db'.direct k = db.direct k) ∧
      ∃ n ∈ db'.teAvtab.nodes, n.addr = node ∧ n.key.Matches key.avkey := by
  unfold yzPolicyGetAvtabNode at h
  split at h
  · rename_i a hs
    obtain ⟨rfl, rfl⟩ := Prod.mk.inj (Option.some.inj h)
    exact ⟨.refl _, fun _ => rfl, AvtabFns.search_some _ _ _ db.teAvtab_wf.ordered hs⟩
  · rename_i hs
    split_ifs at h with hal
    split at h
    · cases h
    · rename_i t a hi
      obtain ⟨rfl, rfl⟩ := Prod.mk.inj (Option.some.inj h)
      exact ⟨⟨rfl, rfl, rfl, rfl⟩, db.teAvtab_wf.direct_insert hs hi,
        _, mem_insert db.teAvtab_wf hi, rfl, matches_avkey.mpr rfl⟩

theorem direct_modifyNode {n : AvtabNode} (hn : n ∈ db.teAvtab.nodes)
    (hm : n.key.Matches key.avkey) (f : Av → Av) (k : PolicyKey) :
    (db.modifyNode n.addr f).direct k =
      if k.avkey = key.avkey then f (db.direct k) else db.direct k :=
  db.teAvtab_wf.direct_modifyData hn hm f k

/-- Removing an emptied node moves no vector, whether or not the allocation succeeds. -/
theorem removeAvtabNode_spec (alloc : Bool) {n : AvtabNode} (hn : n ∈ db.teAvtab.nodes)
    (hm : n.key.Matches key.avkey) (hd : n.data = 0) :
    SameSymbols db (yzPolicyRemoveAvtabNode db n.addr alloc).1 ∧
      ∀ k, (yzPolicyRemoveAvtabNode db n.addr alloc).1.direct k = db.direct k := by
  unfold yzPolicyRemoveAvtabNode
  split_ifs
  · exact ⟨.refl _, fun _ => rfl⟩
  · split
    · exact ⟨.refl _, fun _ => rfl⟩
    · rename_i t h
      exact ⟨⟨rfl, rfl, rfl, rfl⟩, db.teAvtab_wf.direct_unlink hn hm hd h⟩

/-- **One edit changes one vector**: that of every key the table cannot tell from its own. -/
theorem applyAv_spec (h : yzPolicyApplyAv db key av allow alloc = .ok db') :
    SameSymbols db db' ∧ ∀ k, db'.direct k =
      if k.avkey = key.avkey then editAv allow (db.direct k) av else db.direct k := by
  unfold yzPolicyApplyAv at h
  split_ifs at h with h0 hname hallow
  · obtain rfl := Except.ok.inj h
    subst h0
    exact ⟨.refl _, fun k => by rw [editAv_zero, ite_self]⟩
  · subst hallow
    split at h
    · cases h
    · rename_i db₁ node hget
      obtain ⟨hsym, hdir, n, hn, rfl, hm⟩ := getAvtabNode_spec hget
      obtain rfl := Except.ok.inj h
      refine ⟨hsym.trans ⟨rfl, rfl, rfl, rfl⟩, ?_⟩
      intro k
      rw [direct_modifyNode hn hm, hdir]
      rfl
  · obtain rfl : allow = false := by simpa using hallow
    split at h
    · rename_i hs
      obtain rfl := Except.ok.inj h
      refine ⟨.refl _, ?_⟩
      intro k
      split_ifs with hk
      · -- no node: the vector is empty already
        have : db.direct k = 0 := db.teAvtab_wf.direct_of_none fun n hn hmk =>
          AvtabFns.search_none _ _ db.teAvtab_wf.ordered hs n hn (hk ▸ hmk)
        simp [this, editAv]
      · rfl
    · rename_i node hs
      obtain ⟨n, hn, rfl, hm⟩ := AvtabFns.search_some _ _ _ db.teAvtab_wf.ordered hs
      have hdir := direct_modifyNode hn hm (· &&& ~~~av)
      have hmem : ({ n with data := n.data &&& ~~~av } : AvtabNode) ∈
          (db.modifyNode n.addr (· &&& ~~~av)).teAvtab.nodes :=
        mem_modifyData.mpr ⟨n, hn, rfl, rfl, by rw [if_pos rfl]⟩
      simp only at h
      split_ifs at h with hz
      · have hz' : n.data &&& ~~~av = 0 := by
          rw [← hz]
          exact (data_of_mem (db.modifyNode n.addr _).teAvtab_wf.addr_inj hmem).symm
        have hrem := removeAvtabNode_spec alloc hmem hm hz'
        obtain rfl := Except.ok.inj h
        have hsym : SameSymbols db (db.modifyNode n.addr (· &&& ~~~av)) := ⟨rfl, rfl, rfl, rfl⟩
        exact ⟨hsym.trans hrem.1, fun k => (hrem.2 k).trans (hdir k)⟩
      · obtain rfl := Except.ok.inj h
        exact ⟨⟨rfl, rfl, rfl, rfl⟩, hdir⟩

/-! ## 3. A commit -/

/-- `yz_selinux_state` and the kernel functions: `ready` is `yz_policy_base_ready`. -/
structure PolicyBase where
  ready : Bool
  initialized : Bool
  policy : Option SelinuxPolicy

/-- What the kernel answers during one edit: whether the copy succeeds, and the allocations
of its table edits by position. -/
structure EditEnv where
  dup : Except Errno Unit
  alloc : Nat → Bool

/-- `yz_policy_base_lock`. -/
def yzPolicyBaseLock (base : PolicyBase) : Except Errno Unit :=
  if base.ready then .ok () else .error .EOPNOTSUPP

/-- `yz_policy_base_direct_allowed_av`. -/
def PolicyBase.direct (base : PolicyBase) (key : PolicyKey) : Av :=
  if base.ready = false then 0
  else match base.policy with
    | none => 0
    | some policy => policy.policydb.direct key

/-- `yz_policy_begin_edit_locked`: the copy to edit. -/
def yzPolicyBeginEditLocked (base : PolicyBase) (dup : Except Errno Unit) :
    Except Errno SelinuxPolicy :=
  if base.ready = false then .error .EOPNOTSUPP
  else if base.initialized = false then .error .EAGAIN
  else match base.policy, dup with
    | none, _ => .error .ENOENT
    | some _, .error e => .error e
    | some oldPolicy, .ok () => .ok oldPolicy

/-- `yz_policy_commit_edit_locked`: the edited copy becomes the live policy. -/
def yzPolicyCommitEditLocked (base : PolicyBase) (policy : SelinuxPolicy) (db : Policydb) :
    PolicyBase :=
  { base with policy := some { policy with policydb := db } }

/-- The edits of one commit in order; an empty vector is skipped, and the first error stops. -/
def applyParts (allow : Bool) (alloc : Nat → Bool) :
    Nat → List (PolicyKey × Av) → Policydb → Except Errno Policydb
  | _, [], db => .ok db
  | i, (key, av) :: parts, db =>
    if av = 0 then applyParts allow alloc (i + 1) parts db
    else match yzPolicyApplyAv db key av allow (alloc i) with
      | .error e => .error e
      | .ok db => applyParts allow alloc (i + 1) parts db

/-- The common body of the two commits. -/
def commitLocked (allow : Bool) (base : PolicyBase) (parts : List (PolicyKey × Av))
    (env : EditEnv) : PolicyBase × Except Errno Unit :=
  if ∀ p ∈ parts, p.2 = 0 then (base, .ok ())
  else match yzPolicyBeginEditLocked base env.dup with
    | .error e => (base, .error e)
    | .ok policy =>
      match applyParts allow env.alloc 0 parts policy.policydb with
      | .error e => (base, .error e)
      | .ok db => (yzPolicyCommitEditLocked base policy db, .ok ())

/-- `yz_policy_base_commit_allow_locked`: file, dir, tmpfs and process parts. -/
def yzPolicyBaseCommitAllowLocked (base : PolicyBase) (file dir tmpfs process : PolicyKey × Av)
    (env : EditEnv) : PolicyBase × Except Errno Unit :=
  commitLocked true base [file, dir, tmpfs, process] env

/-- `yz_policy_base_commit_restore_locked`. -/
def yzPolicyBaseCommitRestoreLocked (base : PolicyBase)
    (file dir tmpfs process : PolicyKey × Av) (env : EditEnv) :
    PolicyBase × Except Errno Unit :=
  commitLocked false base [file, dir, tmpfs, process] env

/-- The edits of a commit, one after the other. -/
theorem applyParts_spec {alloc : Nat → Bool} {i : Nat} {parts : List (PolicyKey × Av)}
    (h : applyParts allow alloc i parts db = .ok db') :
    SameSymbols db db' ∧ ∀ k b, (db'.direct k).getLsbD b =
      if Touches parts k b then allow else (db.direct k).getLsbD b := by
  induction parts generalizing i db with
  | nil =>
    obtain rfl := Except.ok.inj h
    exact ⟨.refl _, fun k b => by rw [if_neg (touches_nil k b)]⟩
  | cons p parts ih =>
    obtain ⟨key, av⟩ := p
    simp only [applyParts] at h
    split_ifs at h with h0
    · subst h0
      obtain ⟨hsym, hdir⟩ := ih h
      refine ⟨hsym, ?_⟩
      intro k b
      rw [hdir]
      simp [touches_cons]
    · cases ha : yzPolicyApplyAv db key av allow (alloc i) with
      | error e => rw [ha] at h; cases h
      | ok db₁ =>
        rw [ha] at h
        obtain ⟨hsym₁, hdir₁⟩ := applyAv_spec ha
        obtain ⟨hsym, hdir⟩ := ih h
        refine ⟨hsym₁.trans hsym, ?_⟩
        intro k b
        rw [hdir, hdir₁]
        simp only [touches_cons]
        by_cases hrest : Touches parts k b
        · simp [hrest]
        · by_cases hk : key.avkey = k.avkey
          · simp [hrest, hk, getLsbD_editAv]
          · simp [hrest, hk, Ne.symm hk]

/-- What a successful edit keeps of the base: everything but the policy's table. -/
structure SameBase (base base' : PolicyBase) : Prop where
  ready : base'.ready = base.ready
  initialized : base'.initialized = base.initialized
  policy : ∀ p', base'.policy = some p' → ∃ p, base.policy = some p ∧
    SameSymbols p.policydb p'.policydb ∧ p'.sidtab = p.sidtab

theorem SameBase.refl (base : PolicyBase) : SameBase base base :=
  ⟨rfl, rfl, fun p hp => ⟨p, hp, .refl _, rfl⟩⟩

theorem SameBase.trans {a b c : PolicyBase} (h : SameBase a b) (h' : SameBase b c) :
    SameBase a c where
  ready := h'.ready.trans h.ready
  initialized := h'.initialized.trans h.initialized
  policy p hp := by
    obtain ⟨q, hq, hs, ht⟩ := h'.policy p hp
    obtain ⟨r, hr, hs', ht'⟩ := h.policy q hq
    exact ⟨r, hr, hs'.trans hs, ht.trans ht'⟩

variable {base base' : PolicyBase} {env : EditEnv}

theorem beginEdit_ok {dup : Except Errno Unit} {policy : SelinuxPolicy}
    (h : yzPolicyBeginEditLocked base dup = .ok policy) :
    base.ready = true ∧ base.policy = some policy := by
  unfold yzPolicyBeginEditLocked at h
  split_ifs at h with hr hi
  split at h
  · cases h
  · cases h
  · rename_i hp
    obtain rfl := Except.ok.inj h
    exact ⟨by simpa using hr, hp⟩

theorem direct_of_policy {policy : SelinuxPolicy} (hr : base.ready = true)
    (hp : base.policy = some policy) (k : PolicyKey) :
    base.direct k = policy.policydb.direct k := by
  simp [PolicyBase.direct, hr, hp]

/-- Publishing an edited copy moves the vectors the way the copy's edit did. -/
theorem commitEdit_direct {policy : SelinuxPolicy} (hr : base.ready = true) (db : Policydb)
    (k : PolicyKey) : (yzPolicyCommitEditLocked base policy db).direct k = db.direct k := by
  simp [PolicyBase.direct, yzPolicyCommitEditLocked, hr]

/-- Publishing keeps everything of the base but the vectors. -/
theorem commitEdit_sameBase {policy : SelinuxPolicy} (hp : base.policy = some policy)
    {db : Policydb} (hs : SameSymbols policy.policydb db) :
    SameBase base (yzPolicyCommitEditLocked base policy db) := by
  refine ⟨rfl, rfl, fun p' hp' => ⟨policy, hp, ?_⟩⟩
  obtain rfl := Option.some.inj hp'
  exact ⟨hs, rfl⟩

/-- **A commit is all or nothing, and moves exactly the bits its parts name.** -/
theorem commitLocked_spec {parts : List (PolicyKey × Av)} {r : Except Errno Unit}
    (h : commitLocked allow base parts env = (base', r)) :
    SameBase base base' ∧ (r = .ok () → ∀ k b, (base'.direct k).getLsbD b =
      if Touches parts k b then allow else (base.direct k).getLsbD b) ∧
      (r ≠ .ok () → base' = base) := by
  unfold commitLocked at h
  split_ifs at h with hz
  · obtain ⟨rfl, rfl⟩ := Prod.mk.inj h
    refine ⟨.refl _, ?_, fun _ => rfl⟩
    intro _ k b
    rw [if_neg]
    rintro ⟨p, hp, -, hb⟩
    rw [hz p hp] at hb
    simp at hb
  · cases hbe : yzPolicyBeginEditLocked base env.dup with
    | error e =>
      rw [hbe] at h
      obtain ⟨rfl, rfl⟩ := Prod.mk.inj h
      exact ⟨.refl _, nofun, fun _ => rfl⟩
    | ok policy =>
      rw [hbe] at h
      obtain ⟨hr, hp⟩ := beginEdit_ok hbe
      cases ha : applyParts allow env.alloc 0 parts policy.policydb with
      | error e =>
        simp only [ha] at h
        obtain ⟨rfl, rfl⟩ := Prod.mk.inj h
        exact ⟨.refl _, nofun, fun _ => rfl⟩
      | ok db =>
        simp only [ha] at h
        obtain ⟨rfl, rfl⟩ := Prod.mk.inj h
        obtain ⟨hsym, hdir⟩ := applyParts_spec ha
        refine ⟨commitEdit_sameBase hp hsym, ?_, fun hne => absurd rfl hne⟩
        intro _ k b
        rw [commitEdit_direct hr, hdir, direct_of_policy hr hp]

end YukiZygisk.Policy
