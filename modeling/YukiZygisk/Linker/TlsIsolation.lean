/-
# Whose storage a thread gets (`zygisk/core/src/yukilinker.cpp`)

The model of the thread-local storage, with the storages that are allocated: whose thread, image
and generation each is, and its bytes when it was handed out.  A block of a thread stays in its
slot when the image is unloaded, and the next user of the module id is told apart from it by the
generation alone.

**As long as no image is given a generation of which a thread keeps a block, an access for an active
image gets storage of this thread, image and generation, initialised from the template of the
image, that overlaps no other storage; and the thread gets the same storage until the image is
unloaded** (`isolated`).  That is so in every run in which the counter of the generations does not
wrap (`inOrder_of_notWrapped`).  When it has wrapped a generation comes back, and a thread that has
kept a block of it gets the storage of the earlier image (`not_isolated`).

The storages are ghosts: a list of those that are live, each with its thread, its image and its
generation.  `Backed` ties them to the tables: each block in a slot of a thread has its storage and
each storage its block, a storage of an active generation was initialised from the template of that
generation, and no two overlap.  A look-up under the lock that finds no block of the active
generation allocates one, initialises it and stores it in the slot, so what was there is no longer
found (`Backed.store`).  The guard `inOrder` is asked of a step that takes a generation.  It holds
as long as the counter has not come round, since all generations that were taken are then smaller
(`inOrder_of_notWrapped`).
-/
import YukiZygisk.Linker.Tls

namespace YukiZygisk.Linker

/-! ## 1. The storages -/

/-- A storage that is allocated. -/
structure Storage where
  thread : Nat
  moduleId : Nat
  generation : Word
  image : Nat
  address : Word
  /-- The bytes when it was handed out. -/
  bytes : List UInt8
  deriving DecidableEq

/-- The bytes that `allocate_thread_storage` leaves: `memset`, then `memcpy` of the file's bytes. -/
def allocateThreadStorage (initialBytes : Nat → UInt8) (segment : TlsSegment) : List UInt8 :=
  (List.replicate segment.memoryBytes 0).mapIdx fun i zero =>
    if i < segment.fileBytes then initialBytes i else zero

/-- The block of a thread in a slot. -/
def blockAt (owner : Option ThreadTlsState) (moduleId : Nat) : Option ThreadTlsBlock :=
  owner.bind (findThreadBlock · moduleId)

/-- The linker, the threads, and the allocated storages. -/
structure HeapState where
  base : TlsState
  live : List Storage

/-- The storages after a call: a new block in the slot has a new storage, and the storage of the
block that was there is freed. -/
def liveAfter (initial : Nat → Nat → UInt8) (tls : Tls) (thread moduleId : Nat)
    (before after : Option ThreadTlsBlock) (live : List Storage) : List Storage :=
  match after, findTlsTemplate tls moduleId with
  | some block, some template =>
    if after = before then live
    else ⟨thread, moduleId, block.generation, template.image, block.storage,
        allocateThreadStorage (initial template.image) template.segment⟩ ::
      live.filter fun r => ¬ (r.thread = thread ∧ r.moduleId = moduleId)
  | _, _ => live

/-- One step, with the storages.  A thread that ends frees all of its storages. -/
def heapStep (initial : Nat → Nat → UInt8) (s : HeapState) (a : TlsAct) : Option HeapState :=
  (tlsStep s.base a).map fun base =>
    match a with
    | .getAddr thread index _ _ =>
      ⟨base, liveAfter initial s.base.tls thread index.module.toNat
        (blockAt (s.base.threads thread) index.module.toNat)
        (blockAt (base.threads thread) index.module.toNat) s.live⟩
    | .exit thread => ⟨base, s.live.filter fun r => r.thread ≠ thread⟩
    | .shutdown thread =>
      ⟨base, if s.base.tls.key = some true then s.live.filter fun r => r.thread ≠ thread
        else s.live⟩
    | _ => ⟨base, s.live⟩

/-- The linker on images whose TLS segments have the given bytes in the file. -/
def heapRuns (initial : Nat → Nat → UInt8) : Lts HeapState TlsAct where
  init s := s = ⟨⟨.initial, fun _ => none⟩, []⟩
  step := heapStep initial

/-- Two ranges have no common address. -/
def ApartFrom (a : Word) (n : Nat) (r : Storage) : Prop :=
  a.toNat + n ≤ r.address.toNat ∨ r.address.toNat + r.bytes.length ≤ a.toNat

/-- **The allocator**: what `posix_memalign` returns is a range of the address space that overlaps
no storage that is allocated. -/
def Allocates (s : HeapState) : TlsAct → Prop
  | .getAddr _ index _ memory =>
    ∀ a, memory.storage = some a → ∀ template,
      findTlsTemplate s.base.tls index.module.toNat = some template →
        a.toNat + template.segment.memoryBytes ≤ 2 ^ 64 ∧
          ∀ r ∈ s.live, ApartFrom a template.segment.memoryBytes r
  | _ => True

/-- **The generation is new to the slot**: no thread keeps a block of the generation that the image
is given in the slot that it takes. -/
def Fresh (s : HeapState) : TlsAct → Prop
  | .activate .. =>
    ∀ moduleId, freeModuleId s.base.tls = some moduleId → ∀ thread block,
      blockAt (s.base.threads thread) moduleId = some block →
        block.generation ≠ takeGeneration s.base.tls
  | _ => True

/-- The counter of the generations has not wrapped when an image is activated. -/
def NotWrapped (s : HeapState) : TlsAct → Prop
  | .activate .. => s.base.tls.nextGeneration ≠ 0
  | _ => True

/-- The guard of a run. -/
def inOrder (s : HeapState) (a : TlsAct) : Prop := Allocates s a ∧ Fresh s a

/-- A step that neither unloads the image nor ends the thread. -/
def Keeps (image thread : Nat) : TlsAct → Prop
  | .deactivate other => other ≠ image
  | .exit other => other ≠ thread
  | .shutdown _ => False
  | _ => True

/-- Every request of a call for memory is granted. -/
def Memory.Full (memory : Memory) : Prop :=
  memory.state = true ∧ memory.table = true ∧ memory.block = true ∧ memory.storage.isSome = true

/-! ## 2. What a call does to the table of the thread -/

variable {tls : Tls} {template : TlsTemplate} {moduleId image : Nat} {thread : ThreadTlsState}
  {owner : Option ThreadTlsState} {seen : Bool} {memory : Memory} {index : TlsIndex}
  {block : ThreadTlsBlock}

/-- What a call does: it may put a block of the active generation into its slot, and it answers from
the block that is then there. -/
structure CallSpec (tls : Tls) (memory : Memory) (index : TlsIndex)
    (before : Nat → Option ThreadTlsBlock) (answer : Word)
    (after : Nat → Option ThreadTlsBlock) : Prop where
  frame : ∀ k, k ≠ index.module.toNat → after k = before k
  slot : after index.module.toNat = before index.module.toNat ∨
    ∃ template a, findTlsTemplate tls index.module.toNat = some template ∧
      memory.storage = some a ∧
      after index.module.toNat = some ⟨template.generation, a, index.module.toNat⟩ ∧
      ∀ old, before index.module.toNat = some old → old.generation ≠ template.generation
  answer : ∀ template, findTlsTemplate tls index.module.toNat = some template →
    index.offset.toNat < template.segment.memoryBytes →
      (answer = 0 ∧ ¬ memory.Full) ∨
        ∃ block, after index.module.toNat = some block ∧
          block.generation = template.generation ∧ answer = block.storage + index.offset

theorem findThreadBlock_store (hlt : block.moduleId < thread.blocks.length) (k : Nat) :
    findThreadBlock (thread.store block) k =
      if k = block.moduleId then some block else findThreadBlock thread k := by
  rw [findThreadBlock, ThreadTlsState.store, List.getElem?_set]
  by_cases hk : k = block.moduleId
  · subst hk
    simp [hlt]
  · rw [if_neg (Ne.symm hk), if_neg hk]
    rfl

theorem lt_of_findThreadBlock (h : findThreadBlock thread moduleId = some block) :
    moduleId < thread.blocks.length := by
  rw [findThreadBlock] at h
  by_contra hge
  rw [List.getElem?_eq_none (not_lt.mp hge)] at h
  cases h

/-- A table that has grown has the blocks that it had, and the slot. -/
theorem ensureThreadBlockCapacity_spec {thread' : ThreadTlsState}
    (h : ensureThreadBlockCapacity thread moduleId memory = some thread') :
    moduleId < thread'.blocks.length ∧
      ∀ k, findThreadBlock thread' k = findThreadBlock thread k := by
  rw [ensureThreadBlockCapacity] at h
  by_cases hin : moduleId < thread.blocks.length
  · rw [if_pos hin] at h
    obtain rfl := Option.some.inj h
    exact ⟨hin, fun _ => rfl⟩
  rw [if_neg hin] at h
  by_cases hmax : moduleId = 2 ^ 64 - 1
  · rw [if_pos hmax] at h
    cases h
  rw [if_neg hmax] at h
  dsimp only at h
  split_ifs at h
  obtain rfl := Option.some.inj h
  have hge : moduleId + 1 ≤ grownCapacity thread.blocks.length moduleId :=
    doubled_ge (by split_ifs <;> omega) (by split_ifs <;> omega)
  refine ⟨by rw [List.length_append, List.length_replicate]; omega, ?_⟩
  intro k
  rw [findThreadBlock, findThreadBlock, List.getElem?_append]
  split_ifs with hk
  · rfl
  · rw [List.getElem?_eq_none (not_lt.mp hk), List.getElem?_replicate]
    split_ifs <;> rfl

/-- A table of a module id that exists is refused only for want of memory. -/
theorem ensureThreadBlockCapacity_full (hm : moduleId ≤ maxTlsModuleSlots)
    (h : ensureThreadBlockCapacity thread moduleId memory = none) : ¬ memory.Full := by
  rintro ⟨-, htable, -, -⟩
  obtain ⟨thread', hgrow, -⟩ := ensureThreadBlockCapacity_granted thread 0 hm
  rw [ensureThreadBlockCapacity] at h hgrow
  simp only [htable, Memory.granted] at h hgrow
  rw [h] at hgrow
  cases hgrow

theorem template_of_find (hs : tls.Sound) (h : findTlsTemplate tls moduleId = some template) :
    template ∈ tls.templates ∧ template.moduleId = moduleId ∧ moduleId ≤ maxTlsModuleSlots ∧
      activeTlsGeneration tls moduleId = template.generation ∧ template.generation ≠ 0 := by
  have hmem := List.mem_of_find?_eq_some h
  have hid : template.moduleId = moduleId := by simpa using List.find?_some h
  obtain ⟨h0, hmax, hgen, heq⟩ := hs.active template hmem
  rw [hid] at h0 hmax heq
  refine ⟨hmem, hid, hmax, ?_, hgen⟩
  rw [activeTlsGeneration, if_neg (by omega), heq]

/-- The part under the lock. -/
theorem lockedGetAddr_spec (hs : tls.Sound) (thread : ThreadTlsState) (memory : Memory)
    (index : TlsIndex) :
    CallSpec tls memory index (findThreadBlock thread) (lockedGetAddr tls thread memory index).1
      (findThreadBlock (lockedGetAddr tls thread memory index).2) := by
  rw [lockedGetAddr]
  rcases hfind : findTlsTemplate tls index.module.toNat with _ | template
  · exact ⟨fun _ _ => rfl, .inl rfl, fun t ht => by rw [hfind] at ht; cases ht⟩
  obtain ⟨-, hid, hmax, -, -⟩ := template_of_find hs hfind
  dsimp only
  by_cases hoff : template.segment.memoryBytes ≤ index.offset.toNat
  · rw [if_pos hoff]
    refine ⟨fun _ _ => rfl, .inl rfl, ?_⟩
    intro t ht hlt
    rw [hfind] at ht
    obtain rfl := Option.some.inj ht
    omega
  rw [if_neg hoff, hid]
  have hrefused : ∀ {after}, after = findThreadBlock thread → ¬ memory.Full →
      CallSpec tls memory index (findThreadBlock thread) 0 after := by
    rintro after rfl hfull
    exact ⟨fun _ _ => rfl, .inl rfl, fun _ _ _ => .inl ⟨rfl, hfull⟩⟩
  -- a block of the template in the slot of a table with the blocks of the thread
  have hstored : ∀ (thread' : ThreadTlsState) (a : Word), memory.storage = some a →
      index.module.toNat < thread'.blocks.length →
      (∀ k, findThreadBlock thread' k = findThreadBlock thread k) →
      (∀ old, findThreadBlock thread index.module.toNat = some old →
        old.generation ≠ template.generation) →
      CallSpec tls memory index (findThreadBlock thread) (a + index.offset)
        (findThreadBlock (thread'.store ⟨template.generation, a, template.moduleId⟩)) := by
    intro thread' a ha hlt hsame hold
    have hslot : (⟨template.generation, a, template.moduleId⟩ : ThreadTlsBlock).moduleId <
        thread'.blocks.length := hid.symm ▸ hlt
    have hstore := findThreadBlock_store hslot
    rw [hid] at hstore ⊢
    refine ⟨?_, .inr ⟨template, a, hfind, ha, ?_, hold⟩, fun t ht _ => .inr ?_⟩
    · intro k hk
      rw [hstore, if_neg hk, hsame]
    · rw [hstore, if_pos rfl]
    · rw [hfind] at ht
      obtain rfl := Option.some.inj ht
      exact ⟨_, (hstore _).trans (if_pos rfl), rfl, rfl⟩
  rcases hblock : findThreadBlock thread index.module.toNat with _ | block
  · dsimp only
    rcases hgrow : ensureThreadBlockCapacity thread index.module.toNat memory with _ | thread'
    · exact hrefused rfl (ensureThreadBlockCapacity_full hmax hgrow)
    obtain ⟨hlt, hsame⟩ := ensureThreadBlockCapacity_spec hgrow
    dsimp only
    rcases hcreate : createThreadBlock template memory with _ | new
    · refine hrefused (funext hsame) ?_
      intro hfull
      obtain ⟨a, ha⟩ := Option.isSome_iff_exists.mp hfull.2.2.2
      rw [createThreadBlock, if_pos hfull.2.2.1, ha] at hcreate
      cases hcreate
    · rw [createThreadBlock] at hcreate
      split_ifs at hcreate
      obtain ⟨a, ha, rfl⟩ := Option.map_eq_some_iff.mp hcreate
      exact hstored thread' a ha hlt hsame fun old hold => by rw [hblock] at hold; cases hold
  · dsimp only
    by_cases hgen : block.generation ≠ template.generation
    · rw [if_pos hgen]
      rcases hreset : resetThreadBlock template memory with _ | new
      · refine hrefused rfl ?_
        intro hfull
        obtain ⟨a, ha⟩ := Option.isSome_iff_exists.mp hfull.2.2.2
        rw [resetThreadBlock, ha] at hreset
        cases hreset
      · obtain ⟨a, ha, rfl⟩ := Option.map_eq_some_iff.mp hreset
        refine hstored thread a ha (lt_of_findThreadBlock hblock) (fun _ => rfl) ?_
        intro old hold
        rw [hblock] at hold
        obtain rfl := Option.some.inj hold
        exact hgen
    · rw [if_neg hgen]
      refine ⟨fun _ _ => rfl, .inl rfl, fun t ht _ => .inr ⟨block, hblock, ?_, rfl⟩⟩
      rw [hfind] at ht
      obtain rfl := Option.some.inj ht
      exact not_not.mp hgen

/-- The state that the part under the lock works on has the blocks of the thread. -/
theorem findThreadBlock_state {thread : ThreadTlsState}
    (h : (fastThreadTlsState seen owner).or (threadTlsState tls owner memory) = some thread) :
    blockAt owner = findThreadBlock thread := by
  rw [fastThreadTlsState, threadTlsState] at h
  rcases owner with _ | own
  · have hempty : thread = {} := by
      cases seen <;> split_ifs at h <;> simp_all
    subst hempty
    funext k
    simp [blockAt, findThreadBlock]
  · have hown : own = thread := by
      cases seen <;> split_ifs at h <;> simp_all
    subst hown
    rfl

/-- The part after the fast path. -/
theorem slowGetAddr_spec (hs : tls.Sound) (owner : Option ThreadTlsState) (seen : Bool)
    (memory : Memory) (index : TlsIndex) :
    CallSpec tls memory index (blockAt owner) (slowGetAddr tls owner seen memory index).1
      (blockAt (slowGetAddr tls owner seen memory index).2) := by
  rw [slowGetAddr]
  rcases hstate : (fastThreadTlsState seen owner).or (threadTlsState tls owner memory)
    with _ | thread
  · refine ⟨fun _ _ => rfl, .inl rfl, fun template hfind _ => .inl ⟨rfl, fun hfull => ?_⟩⟩
    obtain ⟨hmem, -⟩ := template_of_find hs hfind
    obtain ⟨hrun, hkey⟩ := hs.ready (List.ne_nil_of_mem hmem)
    rw [Option.or_eq_none_iff] at hstate
    rw [threadTlsState, hrun, hkey, hfull.1] at hstate
    simp at hstate
  · rw [findThreadBlock_state hstate]
    exact lockedGetAddr_spec hs thread memory index

/-- **What a call does.** -/
theorem getAddr_spec (hs : tls.Sound) (owner : Option ThreadTlsState) (seen : Bool)
    (memory : Memory) (index : TlsIndex) :
    CallSpec tls memory index (blockAt owner) (yukiTlsGetAddr tls owner seen memory index).1
      (blockAt (yukiTlsGetAddr tls owner seen memory index).2) := by
  rw [yukiTlsGetAddr]
  by_cases hactive : activeTlsGeneration tls index.module.toNat = 0
  · rw [if_pos hactive]
    refine ⟨fun _ _ => rfl, .inl rfl, ?_⟩
    intro template hfind _
    obtain ⟨-, -, -, hgen, hne⟩ := template_of_find hs hfind
    exact absurd (hgen.symm.trans hactive) hne
  rw [if_neg hactive]
  rcases hfast : (fastThreadTlsState seen owner).bind (findThreadBlock · index.module.toNat)
    with _ | block
  · exact slowGetAddr_spec hs owner seen memory index
  dsimp only
  by_cases hcur : block.generation = activeTlsGeneration tls index.module.toNat
  · rw [if_pos hcur]
    have hblock : blockAt owner index.module.toNat = some block := by
      rw [fastThreadTlsState] at hfast
      split_ifs at hfast
      · exact hfast
      · cases hfast
    refine ⟨fun _ _ => rfl, .inl rfl, fun template hfind _ => .inr ⟨block, hblock, ?_, rfl⟩⟩
    obtain ⟨-, -, -, hgen, -⟩ := template_of_find hs hfind
    exact hcur.trans hgen
  · rw [if_neg hcur]
    exact slowGetAddr_spec hs owner seen memory index

/-! ## 3. The blocks and the storages belong to each other -/

/-- **The invariant.**  Each block of a thread has its storage, and each storage its block; a
storage of the generation of a template is initialised from that template; and the storages do not
overlap. -/
structure Backed (initial : Nat → Nat → UInt8) (templates : List TlsTemplate)
    (blocks : Nat → Nat → Option ThreadTlsBlock) (live : List Storage) : Prop where
  owned : ∀ thread moduleId block, blocks thread moduleId = some block → ∃ r ∈ live,
    r.thread = thread ∧ r.moduleId = moduleId ∧ r.generation = block.generation ∧
      r.address = block.storage
  held : ∀ r ∈ live, ∃ block, blocks r.thread r.moduleId = some block ∧
    block.generation = r.generation ∧ block.storage = r.address
  current : ∀ template ∈ templates, ∀ r ∈ live, r.moduleId = template.moduleId →
    r.generation = template.generation → r.image = template.image ∧
      r.bytes = allocateThreadStorage (initial template.image) template.segment
  apart : live.Pairwise fun r r' => ApartFrom r.address r.bytes.length r'

variable {initial : Nat → Nat → UInt8} {templates : List TlsTemplate} {r : Storage}
  {blocks : Nat → Nat → Option ThreadTlsBlock} {live : List Storage} {t : Nat} {s s' : HeapState}
  {P : HeapState → TlsAct → Prop}

@[simp] theorem length_allocateThreadStorage (bytes : Nat → UInt8) (segment : TlsSegment) :
    (allocateThreadStorage bytes segment).length = segment.memoryBytes := by
  rw [allocateThreadStorage, List.length_mapIdx, List.length_replicate]

instance : Std.Symm fun r r' : Storage => ApartFrom r.address r.bytes.length r' :=
  ⟨fun _ _ h => h.symm⟩

/-- Fewer templates. -/
theorem Backed.anti (hb : Backed initial templates blocks live) {templates' : List TlsTemplate}
    (hsub : ∀ template ∈ templates', template ∈ templates) :
    Backed initial templates' blocks live :=
  ⟨hb.owned, hb.held, fun template ht => hb.current template (hsub template ht), hb.apart⟩

/-- A template of a generation that no thread keeps in the slot. -/
theorem Backed.add (hb : Backed initial templates blocks live)
    (hfresh : ∀ thread block, blocks thread template.moduleId = some block →
      block.generation ≠ template.generation) :
    Backed initial (template :: templates) blocks live := by
  refine ⟨hb.owned, hb.held, ?_, hb.apart⟩
  intro template' ht r hr hid hgen
  rcases List.mem_cons.mp ht with rfl | ht
  · obtain ⟨block, hblock, hblockGen, -⟩ := hb.held r hr
    rw [hid] at hblock
    exact absurd (hblockGen.trans hgen) (hfresh _ _ hblock)
  · exact hb.current template' ht r hr hid hgen

/-- A thread ends. -/
theorem Backed.exit (hb : Backed initial templates blocks live) (t : Nat) :
    Backed initial templates (Function.update blocks t fun _ => none)
      (live.filter fun r => r.thread ≠ t) := by
  refine ⟨fun thread moduleId block h => ?_, fun r hr => ?_, fun template ht r hr => ?_,
    hb.apart.filter _⟩
  · by_cases hthread : thread = t
    · rw [hthread, Function.update_self] at h
      cases h
    rw [Function.update_of_ne hthread] at h
    obtain ⟨r, hr, hrt, hrest⟩ := hb.owned _ _ _ h
    exact ⟨r, List.mem_filter.mpr ⟨hr, by simpa [hrt] using hthread⟩, hrt, hrest⟩
  · rw [List.mem_filter, decide_eq_true_eq] at hr
    rw [Function.update_of_ne hr.2]
    exact hb.held r hr.1
  · exact hb.current template ht r (List.mem_of_mem_filter hr)

/-- A new storage in the slot of a template. -/
theorem Backed.store (hb : Backed initial templates blocks live)
    (ht : template ∈ templates) (hids : (templates.map TlsTemplate.moduleId).Nodup)
    {blocks' : Nat → Nat → Option ThreadTlsBlock} {new : Storage} (hthread : new.thread = t)
    (hid : new.moduleId = template.moduleId) (hgen : new.generation = template.generation)
    (himage : new.image = template.image)
    (hbytes : new.bytes = allocateThreadStorage (initial template.image) template.segment)
    (hnew : ∃ block, blocks' t template.moduleId = some block ∧
      block.generation = template.generation ∧ block.storage = new.address)
    (hframe : ∀ thread moduleId, ¬ (thread = t ∧ moduleId = template.moduleId) →
      blocks' thread moduleId = blocks thread moduleId)
    (hfree : ∀ r ∈ live, ApartFrom new.address template.segment.memoryBytes r) :
    Backed initial templates blocks'
      (new :: live.filter fun r => ¬ (r.thread = t ∧ r.moduleId = template.moduleId)) := by
  obtain ⟨block, hblock, hblockGen, hstorage⟩ := hnew
  refine ⟨fun thread moduleId old h => ?_, fun r hr => ?_, fun other hother r hr hrid hrgen => ?_,
    List.pairwise_cons.mpr ⟨fun r hr => ?_, hb.apart.filter _⟩⟩
  · by_cases hslot : thread = t ∧ moduleId = template.moduleId
    · obtain ⟨rfl, rfl⟩ := hslot
      rw [hblock] at h
      obtain rfl := Option.some.inj h
      exact ⟨new, List.mem_cons_self, hthread, hid, hgen.trans hblockGen.symm, hstorage.symm⟩
    · rw [hframe _ _ hslot] at h
      obtain ⟨r, hr, hrt, hrm, hrest⟩ := hb.owned _ _ _ h
      refine ⟨r, List.mem_cons_of_mem _ (List.mem_filter.mpr ⟨hr, ?_⟩), hrt, hrm, hrest⟩
      rw [decide_eq_true_eq, hrt, hrm]
      exact hslot
  · rcases List.mem_cons.mp hr with rfl | hr
    · rw [hthread, hid]
      exact ⟨block, hblock, hblockGen.trans hgen.symm, hstorage⟩
    · rw [List.mem_filter, decide_eq_true_eq] at hr
      rw [hframe _ _ hr.2]
      exact hb.held r hr.1
  · rcases List.mem_cons.mp hr with rfl | hr
    · -- the module ids of the templates differ
      obtain rfl : other = template :=
        List.inj_on_of_nodup_map hids hother ht (hrid.symm.trans hid)
      exact ⟨himage, hbytes⟩
    · exact hb.current other hother r (List.mem_of_mem_filter hr) hrid hrgen
  · rw [hbytes, length_allocateThreadStorage]
    exact hfree r (List.mem_of_mem_filter hr)

/-! ## 4. Every step keeps them so -/

/-- The blocks of the threads. -/
def HeapState.blockOf (s : HeapState) : Nat → Nat → Option ThreadTlsBlock :=
  fun thread => blockAt (s.base.threads thread)

/-- The invariant of a state. -/
structure HeapState.Sound (initial : Nat → Nat → UInt8) (s : HeapState) : Prop where
  tables : s.base.tls.Sound
  backed : Backed initial s.base.tls.templates s.blockOf s.live

theorem blockOf_update {owner : Option ThreadTlsState}
    (h : s'.base.threads = Function.update s.base.threads t owner) :
    s'.blockOf = Function.update s.blockOf t (blockAt owner) := by
  funext thread
  rw [HeapState.blockOf, h]
  by_cases hthread : thread = t
  · rw [hthread, Function.update_self, Function.update_self]
  · rw [Function.update_of_ne hthread, Function.update_of_ne hthread, HeapState.blockOf]

/-- A thread has ended, and images may be unloaded. -/
theorem Backed.ended {u : HeapState} (hb : Backed initial s.base.tls.templates s.blockOf s.live)
    (hsub : ∀ template ∈ u.base.tls.templates, template ∈ s.base.tls.templates)
    (hthreads : u.base.threads = Function.update s.base.threads t none)
    (hlive : u.live = s.live.filter fun r => r.thread ≠ t) :
    Backed initial u.base.tls.templates u.blockOf u.live := by
  rw [blockOf_update hthreads, hlive]
  exact (hb.exit t).anti hsub

theorem base_step {a : TlsAct} (h : heapStep initial s a = some s') :
    tlsStep s.base a = some s'.base := by
  rw [heapStep, Option.map_eq_some_iff] at h
  obtain ⟨base, hbase, rfl⟩ := h
  cases a <;> exact hbase

theorem sound_tables (hr : (heapRuns initial).Reach P s) : s.base.tls.Sound := by
  obtain ⟨s₀, rfl, hp⟩ := hr
  refine sound_of_reach ((Lts.Reach.ofInit rfl).path ?_)
  refine hp.simulate (f := HeapState.base) (.ofInit rfl) ?_
  intro u a u' _ _ h
  exact .single ⟨a, trivial, base_step h⟩

/-- What is active after an image is unloaded. -/
theorem mem_deactivateTls (image : Nat) (tls : Tls) (template : TlsTemplate) :
    (template ∈ (deactivateTls image tls).templates → template ∈ tls.templates) ∧
      (template ∈ tls.templates → template.image ≠ image →
        template ∈ (deactivateTls image tls).templates) := by
  rw [deactivateTls]
  split
  · exact ⟨id, fun h _ => h⟩
  · exact ⟨List.mem_of_mem_filter,
      fun h hne => List.mem_filter.mpr ⟨h, by simpa using hne⟩⟩

theorem liveAfter_same (before : Option ThreadTlsBlock) :
    liveAfter initial tls t moduleId before before live = live := by
  unfold liveAfter
  split
  · exact if_pos rfl
  · rfl

theorem liveAfter_new {before : Option ThreadTlsBlock}
    (hfind : findTlsTemplate tls moduleId = some template) (hne : some block ≠ before) :
    liveAfter initial tls t moduleId before (some block) live =
      ⟨t, moduleId, block.generation, template.image, block.storage,
          allocateThreadStorage (initial template.image) template.segment⟩ ::
        live.filter fun r => ¬ (r.thread = t ∧ r.moduleId = moduleId) := by
  unfold liveAfter
  rw [hfind]
  exact if_neg hne

/-- An activation, in the state after it. -/
theorem activate_step {segment : TlsSegment} {created : Bool}
    (h : heapStep initial s (.activate image segment created) = some s') :
    s'.blockOf = s.blockOf ∧ s'.live = s.live ∧
      ((s'.base.tls.templates = s.base.tls.templates ∧
          s'.base.tls.nextGeneration = s.base.tls.nextGeneration) ∨
        ∃ moduleId, freeModuleId s.base.tls = some moduleId ∧
          s'.base.tls.templates =
            newTemplate s.base.tls image segment moduleId :: s.base.tls.templates ∧
          s'.base.tls.nextGeneration = takeGeneration s.base.tls + 1) := by
  rw [heapStep, Option.map_eq_some_iff] at h
  obtain ⟨base, hstep, rfl⟩ := h
  rw [tlsStep] at hstep
  split_ifs at hstep
  obtain rfl := Option.some.inj hstep
  refine ⟨rfl, rfl, ?_⟩
  rcases activateTls_cases image segment created s.base.tls with
    ⟨htemplates, -, hnext⟩ | ⟨moduleId, hfree, htemplates, -, hnext⟩
  · exact .inl ⟨htemplates, hnext⟩
  · exact .inr ⟨moduleId, hfree, htemplates, hnext⟩

/-- A call, in the state after it. -/
theorem getAddr_step (h : heapStep initial s (.getAddr t index seen memory) = some s') :
    s'.base.tls = s.base.tls ∧
      s'.blockOf = Function.update s.blockOf t
        (blockAt (yukiTlsGetAddr s.base.tls (s.base.threads t) seen memory index).2) ∧
      s'.live = liveAfter initial s.base.tls t index.module.toNat
        (s.blockOf t index.module.toNat) (s'.blockOf t index.module.toNat) s.live := by
  rw [heapStep, Option.map_eq_some_iff] at h
  obtain ⟨base, hbase, rfl⟩ := h
  obtain rfl := Option.some.inj hbase
  exact ⟨rfl, blockOf_update rfl, rfl⟩

/-- A call leaves the blocks and the storages alone, or it puts a new storage of the active
generation in its slot. -/
theorem getAddr_cases (hs : s.base.tls.Sound)
    (h : heapStep initial s (.getAddr t index seen memory) = some s') :
    (s'.blockOf = s.blockOf ∧ s'.live = s.live) ∨
      ∃ template a, findTlsTemplate s.base.tls index.module.toNat = some template ∧
        memory.storage = some a ∧
        (∀ old, s.blockOf t index.module.toNat = some old →
          old.generation ≠ template.generation) ∧
        s'.blockOf t index.module.toNat =
          some ⟨template.generation, a, index.module.toNat⟩ ∧
        (∀ thread moduleId, ¬ (thread = t ∧ moduleId = index.module.toNat) →
          s'.blockOf thread moduleId = s.blockOf thread moduleId) ∧
        s'.live = ⟨t, index.module.toNat, template.generation, template.image, a,
            allocateThreadStorage (initial template.image) template.segment⟩ ::
          s.live.filter fun r => ¬ (r.thread = t ∧ r.moduleId = index.module.toNat) := by
  obtain ⟨-, hblocks, hlive⟩ := getAddr_step h
  obtain ⟨hframe, hslot, -⟩ := getAddr_spec hs (s.base.threads t) seen memory index
  rw [hlive, hblocks, Function.update_self]
  rcases hslot with hsame | ⟨template, a, hfind, ha, hnew, hold⟩
  · left
    have hall : blockAt (yukiTlsGetAddr s.base.tls (s.base.threads t) seen memory index).2 =
        s.blockOf t := by
      funext k
      by_cases hk : k = index.module.toNat
      · rw [hk]
        exact hsame
      · exact hframe k hk
    rw [hall, Function.update_eq_self]
    exact ⟨rfl, liveAfter_same _⟩
  · right
    refine ⟨template, a, hfind, ha, hold, hnew, ?_, ?_⟩
    · intro thread moduleId hne
      by_cases hthread : thread = t
      · rw [hthread, Function.update_self]
        exact hframe _ fun hid => hne ⟨hthread, hid⟩
      · rw [Function.update_of_ne hthread]
    · rw [hnew]
      exact liveAfter_new hfind fun heq => hold _ heq.symm rfl

theorem HeapState.Sound.getAddr (hs : s.Sound initial)
    (halloc : Allocates s (.getAddr t index seen memory))
    (h : heapStep initial s (.getAddr t index seen memory) = some s') :
    Backed initial s'.base.tls.templates s'.blockOf s'.live := by
  rw [(getAddr_step h).1]
  rcases getAddr_cases hs.tables h with
    ⟨hblocks, hlive⟩ | ⟨template, a, hfind, ha, -, hnew, hframe, hlive⟩
  · rw [hblocks, hlive]
    exact hs.backed
  · obtain ⟨hmem, hid, -⟩ := template_of_find hs.tables hfind
    rw [hlive]
    rw [← hid] at hnew hframe ⊢
    exact hs.backed.store hmem hs.tables.ids rfl rfl rfl rfl rfl ⟨_, hnew, rfl, rfl⟩ hframe
      fun r hr => (halloc a ha template hfind).2 r hr

/-- **Every step keeps the blocks and the storages together.** -/
theorem HeapState.Sound.step {a : TlsAct} (hs : s.Sound initial) (hguard : inOrder s a)
    (h : heapStep initial s a = some s') :
    Backed initial s'.base.tls.templates s'.blockOf s'.live := by
  cases a with
  | activate image segment created =>
    obtain ⟨hblocks, hlive, ⟨htemplates, -⟩ | ⟨moduleId, hfree, htemplates, -⟩⟩ := activate_step h
    · rw [htemplates, hblocks, hlive]
      exact hs.backed
    · rw [htemplates, hblocks, hlive]
      exact hs.backed.add fun thread block hblock => hguard.2 moduleId hfree thread block hblock
  | deactivate image =>
    obtain rfl := Option.some.inj h
    exact hs.backed.anti fun template => (mem_deactivateTls image s.base.tls template).1
  | getAddr t index seen memory =>
    exact hs.getAddr hguard.1 h
  | exit t =>
    obtain rfl := Option.some.inj h
    exact hs.backed.ended (fun _ => id) rfl rfl
  | shutdown t =>
    obtain rfl := Option.some.inj h
    have hnone : ∀ template ∈ (shutdownTls s.base.tls).templates,
        template ∈ s.base.tls.templates := fun template ht => (List.not_mem_nil ht).elim
    by_cases hkey : s.base.tls.key = some true
    · simp only [if_pos hkey]
      exact hs.backed.ended (u := ⟨⟨shutdownTls s.base.tls, _⟩, _⟩) hnone rfl rfl
    · simp only [if_neg hkey]
      exact hs.backed.anti hnone

theorem sound_reach (hr : (heapRuns initial).Reach inOrder s) : s.Sound initial := by
  refine ⟨sound_tables hr, ?_⟩
  obtain ⟨s₀, rfl, hp⟩ := hr
  refine hp.preserve (J := fun u => Backed initial u.base.tls.templates u.blockOf u.live)
    (.ofInit rfl) (fun u a u' hu hb hguard hstep => ?_) ⟨nofun, nofun, nofun, List.Pairwise.nil⟩
  exact HeapState.Sound.step ⟨sound_tables hu, hb⟩ hguard hstep

/-! ## 5. Isolation -/

/-- The answer of a call. -/
def answerOf (s : HeapState) (t : Nat) (index : TlsIndex) (seen : Bool) (memory : Memory) : Word :=
  (yukiTlsGetAddr s.base.tls (s.base.threads t) seen memory index).1

/-- The index is of a byte in the segment of the image. -/
structure Within (template : TlsTemplate) (index : TlsIndex) : Prop where
  module : index.module.toNat = template.moduleId
  offset : index.offset.toNat < template.segment.memoryBytes

/-- The storage is the thread's own of the image: of this generation and initialised from this
template, and no other storage overlaps it. -/
structure OwnStorage (initial : Nat → Nat → UInt8) (s : HeapState) (template : TlsTemplate)
    (t : Nat) (r : Storage) : Prop where
  live : r ∈ s.live
  thread : r.thread = t
  moduleId : r.moduleId = template.moduleId
  generation : r.generation = template.generation
  image : r.image = template.image
  bytes : r.bytes = allocateThreadStorage (initial template.image) template.segment
  alone : ∀ other ∈ s.live, other ≠ r → ApartFrom r.address r.bytes.length other

/-- Every call of the thread for the image is answered from the storage. -/
def AnswersFrom (s : HeapState) (template : TlsTemplate) (t : Nat) (r : Storage) : Prop :=
  ∀ (index : TlsIndex) (seen : Bool) (memory : Memory), Within template index →
    answerOf s t index seen memory = r.address + index.offset

/-- **Isolation.**  A call for an active image is refused only for want of memory; else it is
answered from the thread's own storage of the image, and so is every later call until the image is
unloaded or the thread ends. -/
def Isolated (initial : Nat → Nat → UInt8) (P : HeapState → TlsAct → Prop) (s : HeapState) :
    Prop :=
  ∀ template ∈ s.base.tls.templates, ∀ (t : Nat) (index : TlsIndex) (seen : Bool)
    (memory : Memory), Within template index → P s (.getAddr t index seen memory) →
    ∀ s', heapStep initial s (.getAddr t index seen memory) = some s' →
      (answerOf s t index seen memory = 0 ∧ ¬ memory.Full) ∨
        ∃ r, answerOf s t index seen memory = r.address + index.offset ∧
          OwnStorage initial s' template t r ∧
          ∀ u, (heapRuns initial).Path (fun v a => P v a ∧ Keeps template.image t a) s' u →
            OwnStorage initial u template t r ∧ AnswersFrom u template t r

/-- The thread has the storage in the slot of the image. -/
structure HasStorage (s : HeapState) (template : TlsTemplate) (t : Nat) (r : Storage) : Prop where
  active : template ∈ s.base.tls.templates
  live : r ∈ s.live
  thread : r.thread = t
  moduleId : r.moduleId = template.moduleId
  generation : r.generation = template.generation
  block : ∃ block, s.blockOf t template.moduleId = some block ∧
    block.generation = template.generation ∧ block.storage = r.address

theorem find_of_mem (hs : tls.Sound) (h : template ∈ tls.templates) :
    findTlsTemplate tls template.moduleId = some template := by
  obtain ⟨h0, hmax, hgen, heq⟩ := hs.active template h
  have hactive : activeTlsGeneration tls template.moduleId ≠ 0 := by
    rw [activeTlsGeneration, if_neg (by omega), heq]
    exact hgen
  obtain ⟨found, hfind, hid, -⟩ := hs.find hactive
  rw [hfind, List.inj_on_of_nodup_map hs.ids (List.mem_of_find?_eq_some hfind) h hid]

theorem HasStorage.own (hh : HasStorage s template t r) (hs : s.Sound initial) :
    OwnStorage initial s template t r := by
  obtain ⟨himage, hbytes⟩ :=
    hs.backed.current template hh.active r hh.live hh.moduleId hh.generation
  exact ⟨hh.live, hh.thread, hh.moduleId, hh.generation, himage, hbytes, fun other hother hne =>
    hs.backed.apart.forall hh.live hother (Ne.symm hne)⟩

/-- A thread that has the storage gets it. -/
theorem HasStorage.answers (hh : HasStorage s template t r) (hs : s.base.tls.Sound) :
    AnswersFrom s template t r := by
  intro index seen memory hwithin
  obtain ⟨block, hblock, hgen, hstorage⟩ := hh.block
  have hfind := find_of_mem hs hh.active
  obtain ⟨-, -, -, hactive, hne⟩ := template_of_find hs hfind
  rw [← hwithin.module] at hblock hfind hactive
  obtain ⟨thread, howner, hthread⟩ := Option.bind_eq_some_iff.mp hblock
  have hlocked : (lockedGetAddr s.base.tls thread memory index).1 = r.address + index.offset := by
    rw [lockedGetAddr, hfind]
    dsimp only
    rw [if_neg (by have := hwithin.offset; omega), ← hwithin.module, hthread]
    dsimp only
    rw [if_neg (not_not.mpr hgen), hstorage]
  rw [answerOf, yukiTlsGetAddr, howner, if_neg (by rw [hactive]; exact hne)]
  cases seen with
  | true =>
    rw [fastThreadTlsState, if_pos rfl, Option.bind_some, hthread]
    dsimp only
    rw [if_pos (hgen.trans hactive.symm), hstorage]
  | false =>
    obtain ⟨hrun, hkey⟩ := hs.ready (List.ne_nil_of_mem hh.active)
    rw [fastThreadTlsState, if_neg (by decide), Option.bind_none]
    dsimp only
    rw [slowGetAddr, threadTlsState, hrun, hkey]
    exact hlocked

/-- A step that neither unloads the image nor ends the thread leaves it its storage. -/
theorem HasStorage.step {a : TlsAct} (hh : HasStorage s template t r) (hs : s.base.tls.Sound)
    (hkeeps : Keeps template.image t a) (h : heapStep initial s a = some s') :
    HasStorage s' template t r := by
  cases a with
  | activate image segment created =>
    obtain ⟨hblocks, hlive, htemplates⟩ := activate_step h
    refine ⟨?_, hlive ▸ hh.live, hh.thread, hh.moduleId, hh.generation, hblocks ▸ hh.block⟩
    rcases htemplates with ⟨hsame, -⟩ | ⟨moduleId, -, hnew, -⟩
    · exact hsame ▸ hh.active
    · exact hnew ▸ List.mem_cons_of_mem _ hh.active
  | deactivate image =>
    obtain rfl := Option.some.inj h
    exact ⟨(mem_deactivateTls image s.base.tls template).2 hh.active (Ne.symm hkeeps), hh.live,
      hh.thread, hh.moduleId, hh.generation, hh.block⟩
  | getAddr t' index seen memory =>
    have htls := (getAddr_step h).1
    rcases getAddr_cases hs h with
      ⟨hblocks, hlive⟩ | ⟨found, a, hfind, -, hold, -, hframe, hlive⟩
    · exact ⟨htls ▸ hh.active, hlive ▸ hh.live, hh.thread, hh.moduleId, hh.generation,
        hblocks ▸ hh.block⟩
    -- the slot of the thread is not written: its block is of the active generation
    have hother : ¬ (t = t' ∧ template.moduleId = index.module.toNat) := by
      rintro ⟨rfl, hid⟩
      obtain ⟨block, hblock, hgen, -⟩ := hh.block
      rw [← hid] at hold hfind
      rw [find_of_mem hs hh.active] at hfind
      obtain rfl := Option.some.inj hfind
      exact hold block hblock hgen
    refine ⟨htls ▸ hh.active, ?_, hh.thread, hh.moduleId, hh.generation, ?_⟩
    · rw [hlive]
      refine List.mem_cons_of_mem _ (List.mem_filter.mpr ⟨hh.live, ?_⟩)
      rw [decide_eq_true_eq, hh.thread, hh.moduleId]
      exact hother
    · rw [hframe _ _ hother]
      exact hh.block
  | exit t' =>
    obtain rfl := Option.some.inj h
    refine ⟨hh.active, List.mem_filter.mpr ⟨hh.live, ?_⟩, hh.thread, hh.moduleId, hh.generation, ?_⟩
    · rw [decide_eq_true_eq, hh.thread]
      exact Ne.symm hkeeps
    · have hsame : blockAt (Function.update s.base.threads t' none t) = s.blockOf t :=
        congrArg blockAt (Function.update_of_ne (Ne.symm hkeeps) _ _)
      obtain ⟨block, hblock, hrest⟩ := hh.block
      exact ⟨block, (congrFun hsame _).trans hblock, hrest⟩
  | shutdown t' => exact hkeeps.elim

/-- After a call that is answered, the thread has the storage of the answer. -/
theorem hasStorage_of_getAddr (hs : s.Sound initial) (hs' : s'.Sound initial)
    (hactive : template ∈ s.base.tls.templates) (hwithin : Within template index)
    (h : heapStep initial s (.getAddr t index seen memory) = some s') :
    (answerOf s t index seen memory = 0 ∧ ¬ memory.Full) ∨
      ∃ r, answerOf s t index seen memory = r.address + index.offset ∧
        HasStorage s' template t r := by
  obtain ⟨htls, hblocks, -⟩ := getAddr_step h
  have hfind := find_of_mem hs.tables hactive
  rw [← hwithin.module] at hfind
  rcases (getAddr_spec hs.tables (s.base.threads t) seen memory index).answer template hfind
    hwithin.offset with hrefused | ⟨block, hblock, hgen, hanswer⟩
  · exact .inl hrefused
  right
  have hslot : s'.blockOf t template.moduleId = some block := by
    rw [hblocks, Function.update_self, ← hwithin.module]
    exact hblock
  obtain ⟨r, hr, hthread, hid, hrgen, haddress⟩ := hs'.backed.owned _ _ _ hslot
  exact ⟨r, haddress ▸ hanswer, htls ▸ hactive, hr, hthread, hid, hrgen.trans hgen, block, hslot,
    hgen, haddress.symm⟩

/-- **Isolation holds in every run in which no image is given a generation of which a thread keeps
a block.** -/
theorem isolated (hr : (heapRuns initial).Reach inOrder s) : Isolated initial inOrder s := by
  intro template hactive t index seen memory hwithin hguard s' hstep
  have hr' := hr.step hguard hstep
  rcases hasStorage_of_getAddr (sound_reach hr) (sound_reach hr') hactive hwithin hstep with
    hrefused | ⟨r, hanswer, hh⟩
  · exact .inl hrefused
  refine .inr ⟨r, hanswer, hh.own (sound_reach hr'), fun u hp => ?_⟩
  have hru : (heapRuns initial).Reach inOrder u := hr'.path (hp.mono fun _ _ h => h.1)
  have hhu : HasStorage u template t r := by
    induction hp with
    | refl => exact hh
    | tail hp' hmove ih =>
      obtain ⟨a, hguard, hstep⟩ := hmove
      have hrv := hr'.path (Lts.Path.mono (fun _ _ h => h.1) hp')
      exact (ih hrv).step (sound_tables hrv) hguard.2 hstep
  exact ⟨hhu.own (sound_reach hru), hhu.answers (sound_tables hru)⟩

/-- No byte is in the file. -/
def noBytes : Nat → Nat → UInt8 := fun _ _ => 0

/-- No image is active. -/
def idleTls (next : Word) : Tls := ⟨[], fun _ => 0, next, some true, false⟩

/-- One image is active, with 8 bytes. -/
def loadedTls (image : Nat) (g next : Word) : Tls :=
  ⟨[⟨1, g, ⟨0, 8, 8⟩, image⟩], Function.update (fun _ => 0) 1 g, next, some true, false⟩

theorem activateTls_idle (image : Nat) (next : Word) :
    (activateTls image ⟨0, 8, 8⟩ true (idleTls next)).2 =
      loadedTls image (takeGeneration (idleTls next)) (takeGeneration (idleTls next) + 1) := rfl

theorem deactivateTls_loaded (image : Nat) (g next : Word) :
    deactivateTls image (loadedTls image g next) = idleTls next := by
  simp [deactivateTls, loadedTls, idleTls]

theorem find_loaded {g next : Word} {found : TlsTemplate}
    (h : findTlsTemplate (loadedTls image g next) (1 : Word).toNat = some found) :
    found.segment.memoryBytes = 8 := by
  obtain rfl := Option.some.inj h
  rfl

/-- The storage of thread 0 for image 1. -/
def sampleStorage : Storage := ⟨0, 1, 1, 1, 4096, List.replicate 8 0⟩

/-- Image 1 was loaded and thread 0 has its storage. -/
def sampleHeap (tls : Tls) : HeapState := ⟨⟨tls, sampleTls.threads⟩, [sampleStorage]⟩

theorem reach_loaded : (heapRuns noBytes).Reach inOrder (sampleHeap (loadedTls 1 1 2)) := by
  have hfirst : (heapRuns noBytes).Reach inOrder ⟨⟨.initial, fun _ => none⟩, []⟩ := .ofInit rfl
  have hactive : (heapRuns noBytes).Reach inOrder ⟨⟨loadedTls 1 1 2, fun _ => none⟩, []⟩ := by
    refine hfirst.step (a := .activate 1 ⟨0, 8, 8⟩ true) ⟨trivial, ?_⟩ rfl
    intro moduleId _ thread block hblock
    cases hblock
  refine hactive.step (a := .getAddr 0 ⟨1, 0⟩ true (.granted 4096)) ⟨?_, trivial⟩ rfl
  intro a ha template hfind
  obtain rfl := Option.some.inj ha
  rw [find_loaded hfind]
  exact ⟨by decide, nofun⟩

theorem isolated_sample : Isolated noBytes inOrder (sampleHeap (loadedTls 1 1 2)) :=
  isolated reach_loaded

/-! ## 6. While the counter has not wrapped -/

/-- Until the counter wraps, the generations that are in use are below it. -/
def Numbered (s : HeapState) : Prop :=
  s.base.tls.nextGeneration ≠ 0 →
    (∀ template ∈ s.base.tls.templates,
      template.generation.toNat < s.base.tls.nextGeneration.toNat) ∧
    ∀ thread moduleId block, s.blockOf thread moduleId = some block →
      block.generation.toNat < s.base.tls.nextGeneration.toNat

theorem fresh_of_numbered {a : TlsAct} (hn : Numbered s) (hwrap : NotWrapped s a) : Fresh s a := by
  cases a with
  | activate image segment created =>
    intro moduleId _ thread block hblock heq
    have hlt := (hn hwrap).2 thread moduleId block hblock
    rw [heq, takeGeneration, if_neg hwrap] at hlt
    exact lt_irrefl _ hlt
  | _ => trivial

/-- Fewer blocks and templates under the same counter. -/
theorem Numbered.anti {u : HeapState} (hn : Numbered s)
    (hnext : u.base.tls.nextGeneration = s.base.tls.nextGeneration)
    (htemplates : ∀ template ∈ u.base.tls.templates, template ∈ s.base.tls.templates)
    (hblocks : ∀ thread moduleId block, u.blockOf thread moduleId = some block →
      s.blockOf thread moduleId = some block) : Numbered u := by
  intro hne
  rw [hnext] at hne ⊢
  exact ⟨fun template ht => (hn hne).1 template (htemplates template ht),
    fun thread moduleId block hblock => (hn hne).2 _ _ _ (hblocks _ _ _ hblock)⟩

theorem blockOf_ended {u : HeapState}
    (h : u.base.threads = Function.update s.base.threads t none) {thread moduleId : Nat}
    (hblock : u.blockOf thread moduleId = some block) :
    s.blockOf thread moduleId = some block := by
  rw [blockOf_update h] at hblock
  by_cases hthread : thread = t
  · rw [hthread, Function.update_self] at hblock
    cases hblock
  · rwa [Function.update_of_ne hthread] at hblock

theorem Numbered.step {a : TlsAct} (hn : Numbered s) (hs : s.base.tls.Sound)
    (hwrap : NotWrapped s a) (h : heapStep initial s a = some s') : Numbered s' := by
  cases a with
  | activate image segment created =>
    obtain ⟨hblocks, -, ⟨htemplates, hnext⟩ | ⟨moduleId, -, htemplates, hnext⟩⟩ := activate_step h
    · exact hn.anti hnext (fun _ ht => htemplates ▸ ht) fun _ _ _ hb => hblocks ▸ hb
    intro hne
    rw [takeGeneration, if_neg hwrap] at hnext
    rw [hnext] at hne ⊢
    rw [htemplates, hblocks]
    have hsucc : (s.base.tls.nextGeneration + 1).toNat = s.base.tls.nextGeneration.toNat + 1 := by
      bv_omega
    obtain ⟨hbelow, hheld⟩ := hn hwrap
    rw [hsucc]
    refine ⟨fun template ht => ?_, fun thread moduleId block hblock =>
      Nat.lt_succ_of_lt (hheld thread moduleId block hblock)⟩
    rcases List.mem_cons.mp ht with rfl | ht
    · rw [newTemplate, takeGeneration, if_neg hwrap]
      exact Nat.lt_succ_self _
    · exact Nat.lt_succ_of_lt (hbelow template ht)
  | deactivate image =>
    obtain rfl := Option.some.inj h
    refine hn.anti ?_ (fun template => (mem_deactivateTls image s.base.tls template).1)
      fun _ _ _ => id
    dsimp only
    rw [deactivateTls]
    split <;> rfl
  | getAddr t index seen memory =>
    have htls := (getAddr_step h).1
    rcases getAddr_cases hs h with
      ⟨hblocks, -⟩ | ⟨template, a, hfind, -, -, hnew, hframe, -⟩
    · exact hn.anti (congrArg _ htls) (fun _ ht => htls ▸ ht) fun _ _ _ hb => hblocks ▸ hb
    intro hne
    rw [htls] at hne ⊢
    refine ⟨(hn hne).1, ?_⟩
    intro thread moduleId block hblock
    by_cases hslot : thread = t ∧ moduleId = index.module.toNat
    · obtain ⟨rfl, rfl⟩ := hslot
      rw [hnew] at hblock
      obtain rfl := Option.some.inj hblock
      exact (hn hne).1 template (List.mem_of_find?_eq_some hfind)
    · rw [hframe _ _ hslot] at hblock
      exact (hn hne).2 _ _ _ hblock
  | exit t =>
    obtain rfl := Option.some.inj h
    exact hn.anti rfl (fun _ => id) fun _ _ _ hb => blockOf_ended rfl hb
  | shutdown t =>
    obtain rfl := Option.some.inj h
    refine hn.anti rfl (fun _ ht => (List.not_mem_nil ht).elim) ?_
    intro _ _ _ hb
    by_cases hkey : s.base.tls.key = some true
    · refine blockOf_ended (t := t) ?_ hb
      exact if_pos hkey
    · simp only [HeapState.blockOf, if_neg hkey] at hb
      exact hb

/-- **A run in which the counter has not wrapped** when an image is activated meets the guard. -/
theorem inOrder_of_notWrapped
    (hr : (heapRuns initial).Reach (fun u a => Allocates u a ∧ NotWrapped u a) s) :
    (heapRuns initial).Reach inOrder s := by
  obtain ⟨s₀, rfl, hp⟩ := hr
  suffices h : (heapRuns initial).Reach inOrder s ∧ Numbered s from h.1
  induction hp with
  | refl => exact ⟨.ofInit rfl, fun _ => ⟨nofun, nofun⟩⟩
  | tail _ hmove ih =>
    obtain ⟨a, ⟨halloc, hwrap⟩, hstep⟩ := hmove
    exact ⟨ih.1.step ⟨halloc, fresh_of_numbered ih.2 hwrap⟩ hstep,
      ih.2.step (sound_tables ih.1) hwrap hstep⟩

/-! ## 7. After it has wrapped -/

/-- Image 2 is loaded and unloaded until the counter is back at 0. -/
theorem reach_idle (n : Nat) (hn : n + 2 ≤ 2 ^ 64) :
    (heapRuns noBytes).Reach Allocates (sampleHeap (idleTls (BitVec.ofNat 64 (n + 2)))) := by
  induction n with
  | zero =>
    refine (reach_loaded.mono fun _ _ h => h.1).step (a := .deactivate 1) trivial ?_
    exact congrArg (fun tls => some (sampleHeap tls)) (deactivateTls_loaded 1 1 2)
  | succ n ih =>
    have hne : BitVec.ofNat 64 (n + 2) ≠ 0 := by bv_omega
    have htake : takeGeneration (idleTls (BitVec.ofNat 64 (n + 2))) = BitVec.ofNat 64 (n + 2) :=
      if_neg hne
    have hnext : BitVec.ofNat 64 (n + 2) + 1 = BitVec.ofNat 64 (n + 1 + 2) := by bv_omega
    have hloaded : (heapRuns noBytes).Reach Allocates
        (sampleHeap (activateTls 2 ⟨0, 8, 8⟩ true (idleTls (BitVec.ofNat 64 (n + 2)))).2) :=
      (ih (by omega)).step (a := .activate 2 ⟨0, 8, 8⟩ true) trivial rfl
    rw [activateTls_idle, htake, hnext] at hloaded
    refine hloaded.step (a := .deactivate 2) trivial ?_
    exact congrArg (fun tls => some (sampleHeap tls)) (deactivateTls_loaded 2 _ _)

/-- The generations have wrapped: image 2 has the generation that image 1 had. -/
theorem reach_wrapped : (heapRuns noBytes).Reach Allocates (sampleHeap (loadedTls 2 1 2)) :=
  (reach_idle (2 ^ 64 - 2) (by decide)).step (a := .activate 2 ⟨0, 8, 8⟩ true) trivial rfl

/-- The thread that has kept its block of image 1 gets the storage of image 1 for image 2. -/
theorem not_isolated :
    ¬ ∀ initial s, (heapRuns initial).Reach Allocates s → Isolated initial Allocates s := by
  intro h
  have hguard : Allocates (sampleHeap (loadedTls 2 1 2))
      (.getAddr 0 ⟨1, 0⟩ true (.granted 8192)) := by
    intro a ha template hfind
    obtain rfl := Option.some.inj ha
    rw [find_loaded hfind]
    refine ⟨by decide, ?_⟩
    intro r hr
    obtain rfl := List.mem_singleton.mp hr
    exact .inr (by decide)
  rcases h noBytes _ reach_wrapped ⟨1, 1, ⟨0, 8, 8⟩, 2⟩ List.mem_cons_self 0 ⟨1, 0⟩ true
    (.granted 8192) ⟨rfl, by decide⟩ hguard _ rfl with ⟨hzero, -⟩ | ⟨r, -, hown, -⟩
  · exact absurd hzero (by decide)
  · obtain rfl := List.mem_singleton.mp hown.live
    exact absurd hown.image (by decide)

end YukiZygisk.Linker
