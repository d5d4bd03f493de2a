/-
# The access vector table

`kernel/host/policy.c` edits the kernel's `struct avtab`: an array of hash chains whose
nodes it reaches through pointers.  A node is modelled with its address, a pointer to it is
that address, and a write through the pointer is `Avtab.modifyData`.

`avtab_search_node` and `avtab_insert_nonunique` are kernel functions the module looks up at
load time.  They are the class `AvtabFns`, whose laws are what their callers rely on: a
search returns a matching node and fails only when there is none, an insertion puts one new
node into one chain.  Unlinking a node (`yz_policy_remove_avtab_node`) is the module's own
walk along the chains, `Avtab.unlink`.

What the rest of the development reads off a table is `Avtab.direct`, the allowed vector of
one (source, target, class), together with how each edit changes it.  Those results are
about well-formed tables (`Avtab.Wf`), and every edit keeps a table well formed.

The argument about a table is one about its nodes: `Wf` says that addresses are distinct and that no
two nodes have one key.  A search then finds the only node there is (`direct_of_mem`), and the
vector of a key is that node's data, or nothing (`direct_of_none`).  Each edit is described by which
nodes there are afterwards (`mem_modifyData`, `mem_insert`, `mem_unlink`), and the vectors follow.
The order of the chains is a law of the insertion that no search depends on.  At the end a plain
implementation shows that the laws can be met.
-/
import Mathlib

namespace YukiZygisk.Policy

/-! ## 1. Nodes and chains -/

/-- An access vector, `u32`. -/
abbrev Av := BitVec 32

/-- `struct avtab_key`; the three type and class fields are `u16`. -/
structure AvtabKey where
  sourceType : Nat
  targetType : Nat
  targetClass : Nat
  specified : BitVec 16
  deriving DecidableEq, Repr

/-- `AVTAB_ALLOWED`. -/
def avtabAllowed : BitVec 16 := 1#16

/-- `struct yz_policy_key`. -/
structure PolicyKey where
  srcType : Nat
  tgtType : Nat
  tclass : Nat
  deriving DecidableEq, Repr

/-- The avtab key of an allow rule, its fields cut to 16 bits by the assignment. -/
def PolicyKey.avkey (key : PolicyKey) : AvtabKey :=
  { sourceType := key.srcType % 65536
    targetType := key.tgtType % 65536
    targetClass := key.tclass % 65536
    specified := avtabAllowed }

/-- The key survives the cut to the avtab's field width. -/
def PolicyKey.Fits (key : PolicyKey) : Prop :=
  key.srcType < 65536 ∧ key.tgtType < 65536 ∧ key.tclass < 65536

theorem avkey_inj {k k' : PolicyKey} (hk : k.Fits) (hk' : k'.Fits) :
    k.avkey = k'.avkey ↔ k = k' := by
  obtain ⟨h1, h2, h3⟩ := hk
  obtain ⟨h1', h2', h3'⟩ := hk'
  cases k; cases k'
  simp_all only [PolicyKey.avkey, AvtabKey.mk.injEq, PolicyKey.mk.injEq, Nat.mod_eq_of_lt,
    and_true]

/-- `struct avtab_node` with its address. -/
structure AvtabNode where
  addr : Nat
  key : AvtabKey
  data : Av
  deriving DecidableEq, Repr

/-- The comparison of `avtab_search_node`. -/
def AvtabKey.Matches (node key : AvtabKey) : Prop :=
  node.sourceType = key.sourceType ∧ node.targetType = key.targetType ∧
    node.targetClass = key.targetClass ∧ node.specified &&& key.specified ≠ 0#16

instance (node key : AvtabKey) : Decidable (node.Matches key) :=
  inferInstanceAs (Decidable (_ ∧ _))

theorem matches_avkey {k k' : PolicyKey} : k.avkey.Matches k'.avkey ↔ k.avkey = k'.avkey := by
  have h : avtabAllowed ≠ 0#16 := by decide
  simp [AvtabKey.Matches, PolicyKey.avkey, h]

/-- A node that matches two allow keys matches them because they are one. -/
theorem avkey_of_matches {n : AvtabKey} {k k' : PolicyKey} (h : n.Matches k.avkey)
    (h' : n.Matches k'.avkey) : k.avkey = k'.avkey := by
  obtain ⟨h1, h2, h3, -⟩ := h
  obtain ⟨h1', h2', h3', -⟩ := h'
  simp only [PolicyKey.avkey] at *
  rw [← h1, ← h2, ← h3, ← h1', ← h2', ← h3']

/-- `struct avtab`: the chains and the element count; `nslot` is the number of chains. -/
structure Avtab where
  htable : List (List AvtabNode)
  nel : Nat
  deriving DecidableEq, Repr

def Avtab.nodes (t : Avtab) : List AvtabNode := t.htable.flatten

/-- The keys along each chain: what the order of the chains depends on. -/
def Avtab.keys (t : Avtab) : List (List AvtabKey) := t.htable.map (·.map (·.key))

/-- `node->datum.u.data` through a pointer. -/
def Avtab.data (t : Avtab) (a : Nat) : Av :=
  ((t.nodes.find? (·.addr = a)).map (·.data)).getD 0

/-- A write to `node->datum.u.data` through a pointer. -/
def Avtab.modifyData (t : Avtab) (a : Nat) (f : Av → Av) : Avtab :=
  { t with htable := t.htable.map (·.map fun n =>
      if n.addr = a then { n with data := f n.data } else n) }

variable {t t' : Avtab}

/-- A node's data, by its address. -/
theorem data_of_mem {n : AvtabNode} (h : (t.nodes.map (·.addr)).Nodup) (hn : n ∈ t.nodes) :
    t.data n.addr = n.data := by
  unfold Avtab.data
  have hsome : (t.nodes.find? (·.addr = n.addr)).isSome := by
    rw [List.find?_isSome]
    exact ⟨n, hn, by simp⟩
  obtain ⟨m, hm⟩ := Option.isSome_iff_exists.mp hsome
  have hmem := List.mem_of_find?_eq_some hm
  have haddr : m.addr = n.addr := by simpa using List.find?_some hm
  rw [hm, List.inj_on_of_nodup_map h hmem hn haddr]
  rfl

/-! ## 2. A write through a pointer -/

theorem nodes_modifyData (a : Nat) (f : Av → Av) :
    (t.modifyData a f).nodes =
      t.nodes.map fun n => if n.addr = a then { n with data := f n.data } else n := by
  simp only [Avtab.nodes, Avtab.modifyData, List.map_flatten]

theorem keys_modifyData (a : Nat) (f : Av → Av) : (t.modifyData a f).keys = t.keys := by
  simp only [Avtab.keys, Avtab.modifyData, List.map_map]
  refine List.map_congr_left ?_
  intro c _
  simp only [Function.comp_apply, List.map_map]
  refine List.map_congr_left ?_
  intro n _
  simp only [Function.comp_apply]
  split <;> rfl

/-- The nodes after the write, one by one. -/
theorem mem_modifyData {a : Nat} {f : Av → Av} {m : AvtabNode} :
    m ∈ (t.modifyData a f).nodes ↔ ∃ n ∈ t.nodes, m.addr = n.addr ∧ m.key = n.key ∧
      m.data = if n.addr = a then f n.data else n.data := by
  rw [nodes_modifyData, List.mem_map]
  constructor
  · rintro ⟨n, hn, rfl⟩
    refine ⟨n, hn, ?_⟩
    split <;> exact ⟨rfl, rfl, rfl⟩
  · rintro ⟨n, hn, h1, h2, h3⟩
    refine ⟨n, hn, ?_⟩
    cases m
    split_ifs at h3 ⊢ <;> simp_all

/-! ## 3. Unlinking a node -/

/-- The walk along one chain: the chain without the node at `a`, if it is there. -/
def unlinkChain (a : Nat) : List AvtabNode → Option (List AvtabNode)
  | [] => none
  | cur :: next =>
    if cur.addr = a then some next else (unlinkChain a next).map (cur :: ·)

/-- The walk over the slots, up to the first chain that has the node. -/
def unlinkSlots (a : Nat) : List (List AvtabNode) → Option (List (List AvtabNode))
  | [] => none
  | c :: cs =>
    match unlinkChain a c with
    | some c' => some (c' :: cs)
    | none => (unlinkSlots a cs).map (c :: ·)

/-- Unlinking a node and freeing it; `nel` never goes below zero. -/
def Avtab.unlink (t : Avtab) (a : Nat) : Option Avtab :=
  (unlinkSlots a t.htable).map fun h => { htable := h, nel := t.nel - 1 }

/-- Unlinking takes one node out of a chain and keeps the others in their order. -/
theorem unlinkChain_some {a : Nat} {c c' : List AvtabNode} (h : unlinkChain a c = some c') :
    ∃ l₁ n l₂, n.addr = a ∧ c = l₁ ++ n :: l₂ ∧ c' = l₁ ++ l₂ := by
  induction c generalizing c' with
  | nil => simp [unlinkChain] at h
  | cons cur next ih =>
    simp only [unlinkChain] at h
    split_ifs at h with ha
    · exact ⟨[], cur, next, ha, rfl, (Option.some.inj h).symm⟩
    · obtain ⟨r, hr, rfl⟩ := Option.map_eq_some_iff.mp h
      obtain ⟨l₁, n, l₂, hn, rfl, rfl⟩ := ih hr
      exact ⟨cur :: l₁, n, l₂, hn, rfl, rfl⟩

/-- One node leaves, every other keeps its place. -/
theorem unlinkSlots_some {a : Nat} {c c' : List (List AvtabNode)}
    (h : unlinkSlots a c = some c') :
    List.Forall₂ List.Sublist c' c ∧
      ∃ l₁ n l₂, n.addr = a ∧ c.flatten = l₁ ++ n :: l₂ ∧ c'.flatten = l₁ ++ l₂ := by
  induction c generalizing c' with
  | nil => simp [unlinkSlots] at h
  | cons x xs ih =>
    simp only [unlinkSlots] at h
    cases hx : unlinkChain a x with
    | some x' =>
      rw [hx] at h
      obtain rfl := Option.some.inj h
      obtain ⟨l₁, n, l₂, hn, rfl, rfl⟩ := unlinkChain_some hx
      refine ⟨.cons (by simp) (List.forall₂_same.mpr fun _ _ => List.Sublist.refl _),
        l₁, n, l₂ ++ xs.flatten, hn, by simp, by simp⟩
    | none =>
      rw [hx] at h
      obtain ⟨r, hr, rfl⟩ := Option.map_eq_some_iff.mp h
      obtain ⟨hsub, l₁, n, l₂, hn, hf, hf'⟩ := ih hr
      exact ⟨.cons (List.Sublist.refl _) hsub, x ++ l₁, n, l₂, hn, by simp [hf], by simp [hf']⟩

/-! ## 4. The kernel's search and insertion -/

/-- The kernel's `avtab_search_node` and `avtab_insert_nonunique`.  `Ordered` is the order of
the chains that the search relies on and the insertion keeps; a table from which nodes are
taken out stays in order. -/
class AvtabFns where
  Ordered : List (List AvtabKey) → Prop
  search : Avtab → AvtabKey → Option Nat
  insertNonunique : Avtab → AvtabKey → Av → Option (Avtab × Nat)
  ordered_sublist : ∀ c c', Ordered c → List.Forall₂ List.Sublist c' c → Ordered c'
  search_some : ∀ t k a, Ordered t.keys → search t k = some a →
    ∃ n ∈ t.nodes, n.addr = a ∧ n.key.Matches k
  search_none : ∀ t k, Ordered t.keys → search t k = none → ∀ n ∈ t.nodes, ¬ n.key.Matches k
  insert_some : ∀ t k d t' a, Ordered t.keys → insertNonunique t k d = some (t', a) →
    Ordered t'.keys ∧ t'.nel = t.nel + 1 ∧ (∀ n ∈ t.nodes, n.addr ≠ a) ∧
      ∃ l₁ l₂, t.nodes = l₁ ++ l₂ ∧ t'.nodes = l₁ ++ ⟨a, k, d⟩ :: l₂

variable [AvtabFns]

/-- Well-formed: chains in order, distinct addresses, and at most one allow node a key. -/
structure Avtab.Wf (t : Avtab) : Prop where
  ordered : AvtabFns.Ordered t.keys
  addr_inj : (t.nodes.map (·.addr)).Nodup
  allowed_unique : ∀ (k : PolicyKey) n m, n ∈ t.nodes → m ∈ t.nodes →
    n.key.Matches k.avkey → m.key.Matches k.avkey → n = m

/-- `yz_policy_direct_allowed_av_locked` on the table. -/
def Avtab.direct (t : Avtab) (key : PolicyKey) : Av :=
  match AvtabFns.search t key.avkey with
  | some a => t.data a
  | none => 0

/-! ## 5. Reading a well-formed table -/

/-- **The vector of a key is the data of its node.** -/
theorem Avtab.Wf.direct_of_mem (hw : t.Wf) {k : PolicyKey} {n : AvtabNode} (hn : n ∈ t.nodes)
    (hm : n.key.Matches k.avkey) : t.direct k = n.data := by
  unfold Avtab.direct
  cases hs : AvtabFns.search t k.avkey with
  | none => exact absurd hm (AvtabFns.search_none t _ hw.ordered hs n hn)
  | some a =>
    obtain ⟨m, hmem, rfl, hmm⟩ := AvtabFns.search_some t _ a hw.ordered hs
    rw [hw.allowed_unique k n m hn hmem hm hmm]
    exact data_of_mem hw.addr_inj hmem

/-- A key without a node has the empty vector. -/
theorem Avtab.Wf.direct_of_none (hw : t.Wf) {k : PolicyKey}
    (h : ∀ n ∈ t.nodes, ¬ n.key.Matches k.avkey) : t.direct k = 0 := by
  unfold Avtab.direct
  cases hs : AvtabFns.search t k.avkey with
  | none => rfl
  | some a =>
    obtain ⟨m, hmem, -, hmm⟩ := AvtabFns.search_some t _ a hw.ordered hs
    exact absurd hmm (h m hmem)

/-- **Two tables agree on a key when its nodes carry the same data in both.** -/
theorem direct_congr (hw : t.Wf) (hw' : t'.Wf) {k : PolicyKey}
    (h : ∀ n ∈ t.nodes, n.key.Matches k.avkey →
      ∃ n' ∈ t'.nodes, n'.key.Matches k.avkey ∧ n'.data = n.data)
    (h' : ∀ n' ∈ t'.nodes, n'.key.Matches k.avkey → ∃ n ∈ t.nodes, n.key.Matches k.avkey) :
    t'.direct k = t.direct k := by
  by_cases hex : ∃ n ∈ t.nodes, n.key.Matches k.avkey
  · obtain ⟨n, hn, hm⟩ := hex
    obtain ⟨n', hn', hm', hd⟩ := h n hn hm
    rw [hw.direct_of_mem hn hm, hw'.direct_of_mem hn' hm', hd]
  · have hnone : ∀ n ∈ t.nodes, ¬ n.key.Matches k.avkey := fun n hn hm => hex ⟨n, hn, hm⟩
    rw [hw.direct_of_none hnone, hw'.direct_of_none]
    intro n' hn' hm'
    obtain ⟨n, hn, hm⟩ := h' n' hn' hm'
    exact hnone n hn hm

/-! ## 6. How each edit moves the vectors -/

theorem Avtab.Wf.modifyData (hw : t.Wf) (a : Nat) (f : Av → Av) : (t.modifyData a f).Wf where
  ordered := by rw [keys_modifyData]; exact hw.ordered
  addr_inj := by
    have : (t.modifyData a f).nodes.map (·.addr) = t.nodes.map (·.addr) := by
      rw [nodes_modifyData, List.map_map]
      refine List.map_congr_left ?_
      intro n _
      simp only [Function.comp_apply]
      split <;> rfl
    rw [this]
    exact hw.addr_inj
  allowed_unique k m m' hm hm' hk hk' := by
    obtain ⟨n, hn, ha, hkey, hd⟩ := mem_modifyData.mp hm
    obtain ⟨n', hn', ha', hkey', hd'⟩ := mem_modifyData.mp hm'
    obtain rfl : n = n' := hw.allowed_unique k n n' hn hn' (hkey ▸ hk) (hkey' ▸ hk')
    cases m; cases m'
    simp_all

/-- **A write through the pointer of one allow node changes that key alone.** -/
theorem Avtab.Wf.direct_modifyData (hw : t.Wf) {n : AvtabNode} {k : PolicyKey}
    (hn : n ∈ t.nodes) (hm : n.key.Matches k.avkey) (f : Av → Av) (k' : PolicyKey) :
    (t.modifyData n.addr f).direct k' =
      if k'.avkey = k.avkey then f (t.direct k') else t.direct k' := by
  have hw' := hw.modifyData n.addr f
  split_ifs with hk
  · have hm' : n.key.Matches k'.avkey := hk ▸ hm
    have hmem : ({ n with data := f n.data } : AvtabNode) ∈ (t.modifyData n.addr f).nodes :=
      mem_modifyData.mpr ⟨n, hn, rfl, rfl, by rw [if_pos rfl]⟩
    rw [hw'.direct_of_mem hmem hm', hw.direct_of_mem hn hm']
  · refine direct_congr hw hw' (fun m hmem hmk => ?_) (fun m hmem hmk => ?_)
    · have hne : m.addr ≠ n.addr := by
        intro he
        obtain rfl := List.inj_on_of_nodup_map hw.addr_inj hmem hn he
        exact hk (avkey_of_matches hmk hm)
      exact ⟨m, mem_modifyData.mpr ⟨m, hmem, rfl, rfl, by rw [if_neg hne]⟩, hmk, rfl⟩
    · obtain ⟨m₀, hm₀, -, hkey, -⟩ := mem_modifyData.mp hmem
      exact ⟨m₀, hm₀, hkey ▸ hmk⟩

theorem Avtab.Wf.insert (hw : t.Wf) {k : PolicyKey} {d : Av} {a : Nat}
    (hs : AvtabFns.search t k.avkey = none)
    (hi : AvtabFns.insertNonunique t k.avkey d = some (t', a)) : t'.Wf := by
  obtain ⟨hord, -, hfresh, l₁, l₂, hl, hl'⟩ :=
    AvtabFns.insert_some t k.avkey d t' a hw.ordered hi
  have hnone := AvtabFns.search_none t k.avkey hw.ordered hs
  have hperm : t'.nodes.Perm (⟨a, k.avkey, d⟩ :: t.nodes) := by
    rw [hl, hl']
    exact List.perm_middle
  have hmem : ∀ n, n ∈ t'.nodes ↔ n = ⟨a, k.avkey, d⟩ ∨ n ∈ t.nodes := fun n => by
    rw [hperm.mem_iff, List.mem_cons]
  refine ⟨hord, ?_, ?_⟩
  · rw [(hperm.map _).nodup_iff, List.map_cons, List.nodup_cons]
    refine ⟨?_, hw.addr_inj⟩
    intro hmem
    obtain ⟨n, hn, ha⟩ := List.mem_map.mp hmem
    exact hfresh n hn ha
  · intro k' n m hn hm hnk hmk
    -- a second match of the new node's key would have been found by the search
    have hnew : ∀ x ∈ t.nodes, k.avkey.Matches k'.avkey → ¬ x.key.Matches k'.avkey :=
      fun x hx hk hxk => hnone x hx (matches_avkey.mp hk ▸ hxk)
    rcases (hmem n).mp hn with rfl | hn <;> rcases (hmem m).mp hm with rfl | hm
    · rfl
    · exact absurd hmk (hnew m hm hnk)
    · exact absurd hnk (hnew n hn hmk)
    · exact hw.allowed_unique k' n m hn hm hnk hmk

/-- **A node inserted empty changes no vector.** -/
theorem Avtab.Wf.direct_insert (hw : t.Wf) {k : PolicyKey} {a : Nat}
    (hs : AvtabFns.search t k.avkey = none)
    (hi : AvtabFns.insertNonunique t k.avkey 0 = some (t', a)) (k' : PolicyKey) :
    t'.direct k' = t.direct k' := by
  have hw' := hw.insert hs hi
  obtain ⟨-, -, -, l₁, l₂, hl, hl'⟩ := AvtabFns.insert_some t k.avkey 0 t' a hw.ordered hi
  have hmem : ∀ n, n ∈ t'.nodes ↔ n = ⟨a, k.avkey, 0⟩ ∨ n ∈ t.nodes := fun n => by
    rw [hl, hl']; simp only [List.mem_append, List.mem_cons]; tauto
  by_cases hk : k.avkey.Matches k'.avkey
  · have hkk := matches_avkey.mp hk
    rw [hw'.direct_of_mem ((hmem _).mpr (.inl rfl)) hk, hw.direct_of_none]
    exact fun n hn hm => AvtabFns.search_none t k.avkey hw.ordered hs n hn (hkk ▸ hm)
  · refine direct_congr hw hw' (fun n hn hm => ⟨n, (hmem n).mpr (.inr hn), hm, rfl⟩) ?_
    intro n hn hm
    rcases (hmem n).mp hn with rfl | hn
    · exact absurd hm hk
    · exact ⟨n, hn, hm⟩

/-- The inserted node is in the table and matches its key. -/
theorem mem_insert (hw : t.Wf) {k : PolicyKey} {d : Av} {a : Nat}
    (hi : AvtabFns.insertNonunique t k.avkey d = some (t', a)) :
    (⟨a, k.avkey, d⟩ : AvtabNode) ∈ t'.nodes := by
  obtain ⟨-, -, -, l₁, l₂, -, hl'⟩ := AvtabFns.insert_some t k.avkey d t' a hw.ordered hi
  rw [hl']
  simp

/-- What is left is every other node. -/
theorem mem_unlink (hw : t.Wf) {a : Nat} (h : t.unlink a = some t') (m : AvtabNode) :
    m ∈ t'.nodes ↔ m ∈ t.nodes ∧ m.addr ≠ a := by
  obtain ⟨c, hc, rfl⟩ := Option.map_eq_some_iff.mp h
  obtain ⟨-, l₁, n, l₂, hn, hf, hf'⟩ := unlinkSlots_some hc
  have hnd := hw.addr_inj
  simp only [Avtab.nodes] at hnd ⊢
  rw [hf, List.map_append, List.map_cons, hn, List.nodup_middle, List.nodup_cons] at hnd
  have hne : ∀ x ∈ l₁ ++ l₂, x.addr ≠ a := fun x hx he =>
    hnd.1 (List.map_append ▸ List.mem_map.mpr ⟨x, hx, he⟩)
  rw [hf, hf']
  constructor
  · intro hm
    refine ⟨?_, hne m hm⟩
    rcases List.mem_append.mp hm with hm | hm
    · exact List.mem_append.mpr (.inl hm)
    · exact List.mem_append.mpr (.inr (List.mem_cons_of_mem _ hm))
  · rintro ⟨hm, ha⟩
    rcases List.mem_append.mp hm with hm | hm
    · exact List.mem_append.mpr (.inl hm)
    · rcases List.mem_cons.mp hm with rfl | hm
      · exact absurd hn ha
      · exact List.mem_append.mpr (.inr hm)

theorem Avtab.Wf.unlink (hw : t.Wf) {a : Nat} (h : t.unlink a = some t') : t'.Wf := by
  obtain ⟨c, hc, rfl⟩ := Option.map_eq_some_iff.mp h
  obtain ⟨hsub, l₁, n, l₂, hn, hf, hf'⟩ := unlinkSlots_some hc
  have hsubl : (List.flatten c).Sublist t.htable.flatten := by
    rw [hf, hf']
    exact List.Sublist.append (List.Sublist.refl _) (List.sublist_cons_self _ _)
  refine ⟨AvtabFns.ordered_sublist t.keys _ hw.ordered ?_, ?_, ?_⟩
  · simp only [Avtab.keys, List.forall₂_map_left_iff, List.forall₂_map_right_iff]
    exact hsub.imp fun _ _ h => h.map _
  · exact hw.addr_inj.sublist (hsubl.map _)
  · intro k x y hx hy
    exact hw.allowed_unique k x y (hsubl.subset hx) (hsubl.subset hy)

/-- **Unlinking an emptied allow node changes no vector.** -/
theorem Avtab.Wf.direct_unlink (hw : t.Wf) {n : AvtabNode} {k : PolicyKey} (hn : n ∈ t.nodes)
    (hm : n.key.Matches k.avkey) (hd : n.data = 0) (h : t.unlink n.addr = some t')
    (k' : PolicyKey) : t'.direct k' = t.direct k' := by
  have hw' := hw.unlink h
  by_cases hk : n.key.Matches k'.avkey
  · rw [hw.direct_of_mem hn hk, hd, hw'.direct_of_none]
    intro m hmem hmk
    obtain ⟨hmem, hne⟩ := (mem_unlink hw h m).mp hmem
    exact hne (hw.allowed_unique k' m n hmem hn hmk hk ▸ rfl)
  · refine direct_congr hw hw' (fun m hmem hmk => ?_) (fun m hmem hmk => ?_)
    · refine ⟨m, (mem_unlink hw h m).mpr ⟨hmem, fun he => ?_⟩, hmk, rfl⟩
      obtain rfl := List.inj_on_of_nodup_map hw.addr_inj hmem hn he
      exact hk hmk
    · exact ⟨m, ((mem_unlink hw h m).mp hmem).1, hmk⟩

end YukiZygisk.Policy

namespace YukiZygisk.Policy

/-! ## 7. A plain implementation

The laws of `AvtabFns` are those of functions that exist. -/

/-- An address no node of the table has. -/
def freshAddr (t : Avtab) : Nat := (t.nodes.map (·.addr)).sum + 1

/-- The two kernel functions on tables of any order: the first match, and a new head of the
first chain. -/
instance plainAvtabFns : AvtabFns where
  Ordered _ := True
  search t k := (t.nodes.find? fun n => decide (n.key.Matches k)).map (·.addr)
  insertNonunique t k d :=
    match t.htable with
    | [] => none
    | c :: cs =>
      some ({ htable := (⟨freshAddr t, k, d⟩ :: c) :: cs, nel := t.nel + 1 }, freshAddr t)
  ordered_sublist _ _ _ _ := trivial
  search_some t k a _ h := by
    obtain ⟨n, hn, rfl⟩ := Option.map_eq_some_iff.mp h
    exact ⟨n, List.mem_of_find?_eq_some hn, rfl, by simpa using List.find?_some hn⟩
  search_none t k _ h n hn := by
    have := List.find?_eq_none.mp (Option.map_eq_none_iff.mp h) n hn
    simpa using this
  insert_some t k d t' a _ h := by
    cases hc : t.htable with
    | nil => rw [hc] at h; cases h
    | cons c cs =>
      rw [hc] at h
      obtain ⟨rfl, rfl⟩ := Prod.mk.inj (Option.some.inj h)
      refine ⟨trivial, rfl, ?_, [], t.nodes, rfl, by simp [Avtab.nodes, hc]⟩
      intro n hn he
      have := List.single_le_sum (fun _ _ => Nat.zero_le _) _
        (List.mem_map_of_mem (f := (·.addr)) hn)
      rw [freshAddr] at he
      omega

end YukiZygisk.Policy
