/-
# Thread-local storage of loaded images (`zygisk/core/src/yukilinker.cpp`)

The linker gives each image with a TLS segment a module id and a generation.  A thread gets its
block of a module when it first asks for an address in it.  `yuki_tls_get_addr` has two ways to
answer: without the lock, from the table of the thread, when the block there is of the
generation that is active; and under the lock, from the template of the module.

Only the second way checks the offset against the size of the segment.  So a thread with a block
gets an address where one without a block is refused (`not_agrees`), and exactly for the offsets
past the segment (`agrees_iff`).

`Sound` is the invariant of the tables: an active module id has one template, of the active
generation, and generations are not zero.  It holds in every run, in which images are activated and
deactivated and threads ask for addresses in any order.  The comparison of the two ways is then for
one state: where a thread's block has the active generation, the fast way answers its bytes plus the
offset, and the slow way would find the same block; where it has not, there is only the slow way.
`Agrees` compares what one argument gets in the two cases, so the condition is about the offset
alone.
-/
import Mathlib
import YukiZygisk.Lib.Lts

namespace YukiZygisk.Linker

/-! ## 1. Templates and blocks -/

/-- `uintptr_t`, a pointer and `unsigned long`. -/
abbrev Word := BitVec 64

/-- `kMaxTlsModuleSlots`. -/
def maxTlsModuleSlots : Nat := 1024

/-- What an image says of its TLS segment. -/
structure TlsSegment where
  fileBytes : Nat
  memoryBytes : Nat
  alignment : Nat
  deriving DecidableEq

/-- No alignment is an alignment of 1. -/
def TlsSegment.aligned (segment : TlsSegment) : TlsSegment :=
  { segment with alignment := if segment.alignment = 0 then 1 else segment.alignment }

/-- `struct TlsTemplate` of an active image.  The field `image` is the address of the image. -/
structure TlsTemplate where
  moduleId : Nat
  generation : Word
  segment : TlsSegment
  image : Nat
  deriving DecidableEq

/-- `struct ThreadTlsBlock`. -/
structure ThreadTlsBlock where
  generation : Word
  storage : Word
  moduleId : Nat
  deriving DecidableEq

/-- `struct ThreadTlsState`: the table `blocks`, of `block_capacity` slots. -/
structure ThreadTlsState where
  blocks : List (Option ThreadTlsBlock) := []
  deriving DecidableEq

/-- `struct TlsIndex`. -/
structure TlsIndex where
  module : Word
  offset : Word
  deriving DecidableEq

/-- What the threads share.  `key` is the outcome of `initialize_thread_tls_key`, once it has run,
and false after `shutdown`. -/
structure Tls where
  templates : List TlsTemplate
  generations : Nat → Word
  nextGeneration : Word
  key : Option Bool
  stopped : Bool

def Tls.initial : Tls := ⟨[], fun _ => 0, 1, none, false⟩

/-- What the C library answers during one call: it sets up the state of a thread, it grants the
table, it grants a block, and the storage that `posix_memalign` returns. -/
structure Memory where
  state : Bool
  table : Bool
  block : Bool
  storage : Option Word
  deriving DecidableEq

/-- Nothing fails, and the storage is at `address`. -/
def Memory.granted (address : Word) : Memory := ⟨true, true, true, some address⟩

/-! ## 2. Looking up an address -/

/-- `active_tls_generation`. -/
def activeTlsGeneration (tls : Tls) (moduleId : Nat) : Word :=
  if moduleId = 0 ∨ maxTlsModuleSlots < moduleId then 0 else tls.generations moduleId

/-- `find_tls_template`. -/
def findTlsTemplate (tls : Tls) (moduleId : Nat) : Option TlsTemplate :=
  tls.templates.find? fun candidate => candidate.moduleId = moduleId

/-- `find_thread_block`. -/
def findThreadBlock (thread : ThreadTlsState) (moduleId : Nat) : Option ThreadTlsBlock :=
  (thread.blocks[moduleId]?).join

/-- The loop of `ensure_thread_block_capacity`.  It doubles a positive capacity, so `required`
rounds are enough. -/
def doubled (required : Nat) : Nat → Nat → Nat
  | 0, capacity => capacity
  | fuel + 1, capacity =>
    if required ≤ capacity then capacity
    else if (2 ^ 64 - 1) / 2 < capacity then required
    else doubled required fuel (capacity * 2)

/-- The capacity of the new table. -/
def grownCapacity (capacity moduleId : Nat) : Nat :=
  doubled (moduleId + 1) (moduleId + 1) (if capacity = 0 then 8 else capacity)

/-- `ensure_thread_block_capacity`: no table is a failure. -/
def ensureThreadBlockCapacity (thread : ThreadTlsState) (moduleId : Nat) (memory : Memory) :
    Option ThreadTlsState :=
  if moduleId < thread.blocks.length then some thread
  else if moduleId = 2 ^ 64 - 1 then none
  else
    let capacity := grownCapacity thread.blocks.length moduleId
    if 2 ^ 64 ≤ capacity * 8 then none
    else if memory.table then
      some ⟨thread.blocks ++ List.replicate (capacity - thread.blocks.length) none⟩
    else none

/-- `create_thread_block`. -/
def createThreadBlock (tls : TlsTemplate) (memory : Memory) : Option ThreadTlsBlock :=
  if memory.block then memory.storage.map (⟨tls.generation, ·, tls.moduleId⟩) else none

/-- `reset_thread_block`. -/
def resetThreadBlock (tls : TlsTemplate) (memory : Memory) : Option ThreadTlsBlock :=
  memory.storage.map (⟨tls.generation, ·, tls.moduleId⟩)

/-- The table with a block in the slot of its module. -/
def ThreadTlsState.store (thread : ThreadTlsState) (block : ThreadTlsBlock) : ThreadTlsState :=
  ⟨thread.blocks.set block.moduleId (some block)⟩

/-- `fast_thread_tls_state`.  On AArch64 it may fail to see the state of a thread that has one;
elsewhere it is `pthread_getspecific`. -/
def fastThreadTlsState (seen : Bool) (thread : Option ThreadTlsState) : Option ThreadTlsState :=
  if seen then thread else none

/-- `thread_tls_state`.  A module is active, so `pthread_once` has run. -/
def threadTlsState (tls : Tls) (thread : Option ThreadTlsState) (memory : Memory) :
    Option ThreadTlsState :=
  if tls.stopped then none
  else if tls.key ≠ some true then none
  else thread.or (if memory.state then some {} else none)

/-- The part of `yuki_tls_get_addr` under the lock: the address and the table after it. -/
def lockedGetAddr (tls : Tls) (thread : ThreadTlsState) (memory : Memory) (index : TlsIndex) :
    Word × ThreadTlsState :=
  match findTlsTemplate tls index.module.toNat with
  | none => (0, thread)
  | some template =>
    if template.segment.memoryBytes ≤ index.offset.toNat then (0, thread)
    else
      match findThreadBlock thread template.moduleId with
      | none =>
        match ensureThreadBlockCapacity thread template.moduleId memory with
        | none => (0, thread)
        | some thread =>
          match createThreadBlock template memory with
          | none => (0, thread)
          | some block => (block.storage + index.offset, thread.store block)
      | some block =>
        if block.generation ≠ template.generation then
          match resetThreadBlock template memory with
          | none => (0, thread)
          | some block => (block.storage + index.offset, thread.store block)
        else (block.storage + index.offset, thread)

/-- The part of `yuki_tls_get_addr` after the fast path. -/
def slowGetAddr (tls : Tls) (thread : Option ThreadTlsState) (seen : Bool) (memory : Memory)
    (index : TlsIndex) : Word × Option ThreadTlsState :=
  match (fastThreadTlsState seen thread).or (threadTlsState tls thread memory) with
  | none => (0, thread)
  | some thread =>
    ((lockedGetAddr tls thread memory index).1, some (lockedGetAddr tls thread memory index).2)

/-- `yuki_tls_get_addr`: the address, 0 when the call is refused, and the state of the thread
after the call. -/
def yukiTlsGetAddr (tls : Tls) (thread : Option ThreadTlsState) (seen : Bool) (memory : Memory)
    (index : TlsIndex) : Word × Option ThreadTlsState :=
  let generation := activeTlsGeneration tls index.module.toNat
  if generation = 0 then (0, thread)
  else
    match (fastThreadTlsState seen thread).bind (findThreadBlock · index.module.toNat) with
    | none => slowGetAddr tls thread seen memory index
    | some block =>
      if block.generation = generation then (block.storage + index.offset, thread)
      else slowGetAddr tls thread seen memory index

/-! ## 3. Modules come and go -/

/-- `is_power_of_two`. -/
def isPowerOfTwo (value : Nat) : Bool := value ≠ 0 && value &&& (value - 1) = 0

/-- The first free module id. -/
def freeModuleId (tls : Tls) : Option Nat :=
  (List.range' 1 maxTlsModuleSlots).find? fun moduleId => tls.generations moduleId = 0

/-- `g_next_tls_generation++`, where 0 is passed over: the generation. -/
def takeGeneration (tls : Tls) : Word :=
  if tls.nextGeneration = 0 then tls.nextGeneration + 1 else tls.nextGeneration

/-- The template of an image that takes a module id. -/
def newTemplate (tls : Tls) (image : Nat) (segment : TlsSegment) (moduleId : Nat) :
    TlsTemplate where
  moduleId
  generation := takeGeneration tls
  segment := segment.aligned
  image

/-- `activate_tls`: whether it succeeds.  `created` is the answer of `pthread_key_create`. -/
def activateTls (image : Nat) (segment : TlsSegment) (created : Bool) (tls : Tls) : Bool × Tls :=
  if segment.memoryBytes = 0 then (true, tls)
  else if segment.memoryBytes < segment.fileBytes ∨ !isPowerOfTwo segment.aligned.alignment then
    (false, tls)
  else
    let tls := { tls with key := tls.key.or (some created) }
    if tls.key ≠ some true then (false, tls)
    else if tls.stopped then (false, tls)
    else
      match freeModuleId tls with
      | none => (false, tls)
      | some moduleId =>
        let template := newTemplate tls image segment moduleId
        (true, { tls with
          templates := template :: tls.templates
          generations := Function.update tls.generations moduleId template.generation
          nextGeneration := template.generation + 1 })

/-- `deactivate_tls`. -/
def deactivateTls (image : Nat) (tls : Tls) : Tls :=
  match tls.templates.find? fun template => template.image = image with
  | none => tls
  | some template =>
    { tls with
      templates := tls.templates.filter fun template => template.image ≠ image
      generations := Function.update tls.generations template.moduleId 0 }

/-- `shutdown`, on what the threads share. -/
def shutdownTls (tls : Tls) : Tls :=
  { tls with
    templates := []
    generations := fun _ => 0
    key := tls.key.map fun _ => false
    stopped := true }

/-- The shared tables, and the state of each thread that has one. -/
structure TlsState where
  tls : Tls
  threads : Nat → Option ThreadTlsState

inductive TlsAct where
  | activate (image : Nat) (segment : TlsSegment) (created : Bool)
  | deactivate (image : Nat)
  | getAddr (thread : Nat) (index : TlsIndex) (seen : Bool) (memory : Memory)
  | exit (thread : Nat)
  | shutdown (thread : Nat)

/-- One step.  Each load has an image of its own, so an image is not activated while it is
active. -/
def tlsStep (s : TlsState) : TlsAct → Option TlsState
  | .activate image segment created =>
    if ∃ template ∈ s.tls.templates, template.image = image then none
    else some { s with tls := (activateTls image segment created s.tls).2 }
  | .deactivate image => some { s with tls := deactivateTls image s.tls }
  | .getAddr thread index seen memory =>
    some { s with
      threads := Function.update s.threads thread
        (yukiTlsGetAddr s.tls (s.threads thread) seen memory index).2 }
  | .exit thread => some { s with threads := Function.update s.threads thread none }
  | .shutdown thread =>
    some ⟨shutdownTls s.tls,
      if s.tls.key = some true then Function.update s.threads thread none else s.threads⟩

def tlsRuns : Lts TlsState TlsAct where
  init s := s = ⟨.initial, fun _ => none⟩
  step := tlsStep

/-! ## 4. The tables agree -/

/-- A module has an active generation exactly when it has a template, and it is the template's. -/
structure Tls.Sound (tls : Tls) : Prop where
  active : ∀ template ∈ tls.templates, template.moduleId ≠ 0 ∧
    template.moduleId ≤ maxTlsModuleSlots ∧ template.generation ≠ 0 ∧
    tls.generations template.moduleId = template.generation
  ids : (tls.templates.map TlsTemplate.moduleId).Nodup
  images : (tls.templates.map TlsTemplate.image).Nodup
  covered : ∀ moduleId, tls.generations moduleId ≠ 0 →
    ∃ template ∈ tls.templates, template.moduleId = moduleId
  ready : tls.templates ≠ [] → tls.stopped = false ∧ tls.key = some true

variable {tls : Tls} {template : TlsTemplate} {moduleId image : Nat}

theorem sound_initial : Tls.initial.Sound where
  active := by simp [Tls.initial]
  ids := by simp [Tls.initial]
  images := by simp [Tls.initial]
  covered := by simp [Tls.initial]
  ready := by simp [Tls.initial]

theorem takeGeneration_ne (tls : Tls) : takeGeneration tls ≠ 0 := by
  rw [takeGeneration]
  split_ifs with h
  · rw [h]
    decide
  · exact h

/-- A module id that is given out is not active and has a place in the table. -/
theorem freeModuleId_spec (h : freeModuleId tls = some moduleId) :
    moduleId ≠ 0 ∧ moduleId ≤ maxTlsModuleSlots ∧ tls.generations moduleId = 0 := by
  have hmem := List.mem_of_find?_eq_some h
  have hfree := List.find?_some h
  rw [List.mem_range'_1] at hmem
  refine ⟨by omega, by omega, by simpa using hfree⟩

/-- What an activation does: it leaves the tables and the counter alone, or it gives the image a
free module id and the next generation. -/
theorem activateTls_cases (image : Nat) (segment : TlsSegment) (created : Bool) (tls : Tls) :
    ((activateTls image segment created tls).2.templates = tls.templates ∧
      (activateTls image segment created tls).2.generations = tls.generations ∧
      (activateTls image segment created tls).2.nextGeneration = tls.nextGeneration) ∨
    ∃ moduleId, freeModuleId tls = some moduleId ∧
      (activateTls image segment created tls).2.templates =
        newTemplate tls image segment moduleId :: tls.templates ∧
      (activateTls image segment created tls).2.generations =
        Function.update tls.generations moduleId (takeGeneration tls) ∧
      (activateTls image segment created tls).2.nextGeneration = takeGeneration tls + 1 := by
  rw [activateTls]
  split_ifs with h1 h2
  · exact .inl ⟨rfl, rfl, rfl⟩
  · exact .inl ⟨rfl, rfl, rfl⟩
  dsimp only
  split_ifs with h3 h4
  · exact .inl ⟨rfl, rfl, rfl⟩
  · exact .inl ⟨rfl, rfl, rfl⟩
  split
  · exact .inl ⟨rfl, rfl, rfl⟩
  · rename_i moduleId hfree
    exact .inr ⟨moduleId, hfree, rfl, rfl, rfl⟩

/-- A new template takes a free id. -/
theorem Tls.Sound.add (hs : tls.Sound) {new : Tls} (hready : tls.key = some true)
    (hrun : tls.stopped = false) (himage : ∀ t ∈ tls.templates, t.image ≠ template.image)
    (hid : template.moduleId ≠ 0 ∧ template.moduleId ≤ maxTlsModuleSlots ∧
      tls.generations template.moduleId = 0) (hgen : template.generation ≠ 0)
    (htemplates : new.templates = template :: tls.templates)
    (hgens : new.generations =
      Function.update tls.generations template.moduleId template.generation)
    (hkey : new.key = tls.key) (hstopped : new.stopped = tls.stopped) : new.Sound := by
  have hne : ∀ t ∈ tls.templates, t.moduleId ≠ template.moduleId := by
    intro t ht heq
    obtain ⟨-, -, h0, hg⟩ := hs.active t ht
    rw [heq, hid.2.2] at hg
    exact h0 hg.symm
  refine ⟨?_, ?_, ?_, ?_, ?_⟩
  · rw [htemplates, hgens]
    intro t ht
    rcases List.mem_cons.1 ht with rfl | ht
    · exact ⟨hid.1, hid.2.1, hgen, Function.update_self ..⟩
    · rw [Function.update_of_ne (hne t ht)]
      exact hs.active t ht
  · rw [htemplates, List.map_cons, List.nodup_cons]
    refine ⟨?_, hs.ids⟩
    intro h
    obtain ⟨t, ht, heq⟩ := List.mem_map.1 h
    exact hne t ht heq
  · rw [htemplates, List.map_cons, List.nodup_cons]
    refine ⟨?_, hs.images⟩
    intro h
    obtain ⟨t, ht, heq⟩ := List.mem_map.1 h
    exact himage t ht heq
  · rw [htemplates, hgens]
    intro m hm
    by_cases h : m = template.moduleId
    · exact ⟨template, by simp, h.symm⟩
    · rw [Function.update_of_ne h] at hm
      obtain ⟨t, ht, heq⟩ := hs.covered m hm
      exact ⟨t, List.mem_cons_of_mem _ ht, heq⟩
  · intro _
    rw [hkey, hstopped]
    exact ⟨hrun, hready⟩

/-- Activating an image keeps the tables sound. -/
theorem Tls.Sound.activate (hs : tls.Sound) (segment : TlsSegment) (created : Bool)
    (himage : ∀ t ∈ tls.templates, t.image ≠ image) :
    (activateTls image segment created tls).2.Sound := by
  have hkeyed : ({ tls with key := tls.key.or (some created) } : Tls).Sound := by
    refine ⟨hs.active, hs.ids, hs.images, hs.covered, ?_⟩
    intro h
    obtain ⟨h1, h2⟩ := hs.ready h
    exact ⟨h1, by simp [h2]⟩
  rw [activateTls]
  split_ifs with h1 h2
  · exact hs
  · exact hs
  dsimp only
  split_ifs with h3 h4
  · exact hkeyed
  · exact hkeyed
  split
  · exact hkeyed
  · rename_i moduleId hfree
    exact hkeyed.add (not_not.1 h3)
      (by simpa using h4) himage (freeModuleId_spec hfree) (takeGeneration_ne _) rfl rfl rfl rfl

/-- Deactivating one does too. -/
theorem Tls.Sound.deactivate (hs : tls.Sound) (image : Nat) : (deactivateTls image tls).Sound := by
  rw [deactivateTls]
  split
  · exact hs
  rename_i template hfind
  have hmem := List.mem_of_find?_eq_some hfind
  have himage : template.image = image := by simpa using List.find?_some hfind
  -- The other images are those of the other templates, and so are the module ids.
  have hother : ∀ t ∈ tls.templates, t.image ≠ image → t.moduleId ≠ template.moduleId := by
    intro t ht hne heq
    have : t = template := List.inj_on_of_nodup_map hs.ids ht hmem heq
    exact hne (this ▸ himage)
  have hsub : (tls.templates.filter fun t => t.image ≠ image).Sublist tls.templates :=
    List.filter_sublist
  refine ⟨?_, hs.ids.sublist (hsub.map _), hs.images.sublist (hsub.map _), ?_, ?_⟩
  · intro t ht
    rw [List.mem_filter, decide_eq_true_eq] at ht
    dsimp only
    rw [Function.update_of_ne (hother t ht.1 ht.2)]
    exact hs.active t ht.1
  · intro m hm
    dsimp only at hm ⊢
    by_cases h : m = template.moduleId
    · rw [h, Function.update_self] at hm
      exact absurd rfl hm
    rw [Function.update_of_ne h] at hm
    obtain ⟨t, ht, heq⟩ := hs.covered m hm
    refine ⟨t, List.mem_filter.2 ⟨ht, ?_⟩, heq⟩
    have : t.image ≠ image := by
      intro h'
      have : t = template := List.inj_on_of_nodup_map hs.images ht hmem (h'.trans himage.symm)
      exact h (heq.symm.trans (congrArg _ this))
    simpa using this
  · intro hne
    refine hs.ready fun h => hne ?_
    dsimp only
    rw [h, List.filter_nil]

theorem sound_shutdown (tls : Tls) : (shutdownTls tls).Sound where
  active := by simp [shutdownTls]
  ids := by simp [shutdownTls]
  images := by simp [shutdownTls]
  covered := by simp [shutdownTls]
  ready := by simp [shutdownTls]

theorem sound_of_reach {s : TlsState} (hr : tlsRuns.Reach Lts.anyStep s) : s.tls.Sound := by
  refine hr.invariant (I := fun s => s.tls.Sound) ⟨?_, ?_⟩
  · rintro s rfl
    exact sound_initial
  · intro s a s' hs _ hstep
    change tlsStep s a = some s' at hstep
    cases a with
    | activate image segment created =>
      rw [tlsStep] at hstep
      split_ifs at hstep with h
      cases hstep
      exact hs.activate segment created fun t ht heq => h ⟨t, ht, heq⟩
    | deactivate image =>
      cases hstep
      exact hs.deactivate image
    | getAddr thread index seen memory =>
      cases hstep
      exact hs
    | exit thread =>
      cases hstep
      exact hs
    | shutdown thread =>
      cases hstep
      exact sound_shutdown s.tls

/-- The slot of an active module is that of its template. -/
theorem Tls.Sound.find (hs : tls.Sound) (h : activeTlsGeneration tls moduleId ≠ 0) :
    ∃ template, findTlsTemplate tls moduleId = some template ∧ template.moduleId = moduleId ∧
      moduleId ≤ maxTlsModuleSlots ∧ template.generation = activeTlsGeneration tls moduleId := by
  rw [activeTlsGeneration] at h ⊢
  split_ifs at h ⊢ with hid
  · exact absurd rfl h
  obtain ⟨t, ht, heq⟩ := hs.covered _ h
  cases hfind : findTlsTemplate tls moduleId with
  | none =>
    rw [findTlsTemplate, List.find?_eq_none] at hfind
    exact absurd (hfind t ht) (by simpa using heq)
  | some template =>
    have hmod : template.moduleId = moduleId := by simpa using List.find?_some hfind
    have hgen := (hs.active _ (List.mem_of_find?_eq_some hfind)).2.2.2
    rw [hmod] at hgen
    exact ⟨template, rfl, hmod, by omega, hgen.symm⟩

theorem Tls.Sound.running (hs : tls.Sound) (h : activeTlsGeneration tls moduleId ≠ 0) :
    tls.stopped = false ∧ tls.key = some true := by
  obtain ⟨template, hfind, -⟩ := hs.find h
  exact hs.ready (List.ne_nil_of_mem (List.mem_of_find?_eq_some hfind))

/-! ## 5. The two ways to an address -/

variable {thread thread' : ThreadTlsState} {owner : Option ThreadTlsState} {seen : Bool}
  {memory : Memory} {index : TlsIndex} {block : ThreadTlsBlock} {address : Word}

/-- A thread owns a block in the slot of a module. -/
def Owns (owner : Option ThreadTlsState) (moduleId : Nat) (block : ThreadTlsBlock) : Prop :=
  ∃ thread, owner = some thread ∧ findThreadBlock thread moduleId = some block

/-- **The answer does not depend on whether the thread owns a block.**  A thread that owns a block
and one that has to create it, whether it has no state yet, too small a table or an empty slot,
get the same answer, when the new block is where the old one is if that is still in use. -/
def Agrees (tls : Tls) (owner : Option ThreadTlsState) (seen : Bool) (index : TlsIndex) : Prop :=
  ∀ block, Owns owner index.module.toNat block →
    ∀ (other : Option ThreadTlsState) (seen' : Bool) (address : Word),
      (∀ block', ¬ Owns other index.module.toNat block') →
      (block.generation = activeTlsGeneration tls index.module.toNat → address = block.storage) →
      (yukiTlsGetAddr tls owner seen (.granted address) index).1 =
        (yukiTlsGetAddr tls other seen' (.granted address) index).1

/-- The call takes the fast path. -/
structure FastPath (tls : Tls) (owner : Option ThreadTlsState) (seen : Bool) (index : TlsIndex)
    (block : ThreadTlsBlock) : Prop where
  seen : seen = true
  owns : Owns owner index.module.toNat block
  active : activeTlsGeneration tls index.module.toNat ≠ 0
  current : block.generation = activeTlsGeneration tls index.module.toNat

theorem doubled_ge {required fuel capacity : Nat} (h0 : 0 < capacity)
    (h : required ≤ capacity + fuel) : required ≤ doubled required fuel capacity := by
  induction fuel generalizing capacity with
  | zero => simpa [doubled] using h
  | succ fuel ih =>
    rw [doubled]
    split_ifs with h1 h2
    · exact h1
    · exact le_rfl
    · exact ih (by omega) (by omega)

theorem doubled_le {required fuel capacity bound : Nat} (hc : capacity ≤ bound)
    (hr : required * 2 ≤ bound) : doubled required fuel capacity ≤ bound := by
  induction fuel generalizing capacity with
  | zero => simpa [doubled] using hc
  | succ fuel ih =>
    rw [doubled]
    split_ifs with h1 h2
    · exact hc
    · omega
    · exact ih (by omega)

/-- A table grows when the memory is there, and the slot of the module is in it. -/
theorem ensureThreadBlockCapacity_granted (thread : ThreadTlsState) (address : Word)
    (hm : moduleId ≤ maxTlsModuleSlots) :
    ∃ thread', ensureThreadBlockCapacity thread moduleId (.granted address) = some thread' ∧
      moduleId < thread'.blocks.length := by
  rw [ensureThreadBlockCapacity]
  by_cases h : moduleId < thread.blocks.length
  · rw [if_pos h]
    exact ⟨thread, rfl, h⟩
  have hbound : maxTlsModuleSlots = 1024 := rfl
  have hle : grownCapacity thread.blocks.length moduleId ≤ 2050 :=
    doubled_le (by split_ifs <;> omega) (by omega)
  have hge : moduleId + 1 ≤ grownCapacity thread.blocks.length moduleId :=
    doubled_ge (by split_ifs <;> omega) (by split_ifs <;> omega)
  rw [if_neg h, if_neg (by omega)]
  dsimp only
  rw [if_neg (by omega)]
  refine ⟨_, rfl, ?_⟩
  rw [List.length_append, List.length_replicate]
  omega

/-- The answer under the lock: the offset is checked, and the storage is that of the block in use,
if there is one. -/
theorem lockedGetAddr_granted {template : TlsTemplate}
    (hfind : findTlsTemplate tls index.module.toNat = some template)
    (hmod : template.moduleId = index.module.toNat) (hm : template.moduleId ≤ maxTlsModuleSlots) :
    (lockedGetAddr tls thread (.granted address) index).1 =
      if template.segment.memoryBytes ≤ index.offset.toNat then 0
      else (match findThreadBlock thread index.module.toNat with
        | none => address
        | some block => if block.generation = template.generation then block.storage
          else address) + index.offset := by
  rw [lockedGetAddr, hfind]
  dsimp only
  split_ifs with hsize
  · rfl
  rw [hmod] at hm ⊢
  cases hblock : findThreadBlock thread index.module.toNat with
  | none =>
    obtain ⟨thread', hgrow, -⟩ := ensureThreadBlockCapacity_granted thread address hm
    simp only [hgrow]
    rfl
  | some block =>
    by_cases hgen : block.generation = template.generation
    · simp [hgen]
    · simp only [ne_eq, hgen, not_false_eq_true, if_true, if_false]
      rfl

/-- The fast path answers without a look at the size. -/
theorem FastPath.getAddr (h : FastPath tls owner seen index block) (memory : Memory) :
    (yukiTlsGetAddr tls owner seen memory index).1 = block.storage + index.offset := by
  obtain ⟨thread, rfl, hblock⟩ := h.owns
  rw [yukiTlsGetAddr]
  simp only [h.active, if_false, fastThreadTlsState, h.seen, if_true, Option.bind_some, hblock,
    h.current]

/-- The state that the part under the lock works on. -/
theorem slowGetAddr_eq (seen : Bool) (hs : tls.Sound) (h : activeTlsGeneration tls moduleId ≠ 0) :
    (slowGetAddr tls owner seen (.granted address) index).1 =
      (lockedGetAddr tls (owner.getD {}) (.granted address) index).1 := by
  obtain ⟨hrun, hkey⟩ := hs.running h
  rw [slowGetAddr, threadTlsState, hrun, hkey]
  cases owner with
  | none => cases seen <;> rfl
  | some thread => cases seen <;> rfl

/-- What a call answers that does not take the fast path. -/
theorem getAddr_of_slow (hs : tls.Sound) {template : TlsTemplate}
    (hactive : activeTlsGeneration tls index.module.toNat ≠ 0)
    (hfind : findTlsTemplate tls index.module.toNat = some template)
    (hmod : template.moduleId = index.module.toNat) (hm : template.moduleId ≤ maxTlsModuleSlots)
    (hslow : ∀ block, ¬ FastPath tls owner seen index block) :
    (yukiTlsGetAddr tls owner seen (.granted address) index).1 =
      if template.segment.memoryBytes ≤ index.offset.toNat then 0
      else (match findThreadBlock (owner.getD {}) index.module.toNat with
        | none => address
        | some block => if block.generation = template.generation then block.storage
          else address) + index.offset := by
  rw [← lockedGetAddr_granted hfind hmod hm, ← slowGetAddr_eq seen hs hactive,
    yukiTlsGetAddr]
  simp only [hactive, if_false]
  split
  · rfl
  · rename_i block hblock
    split_ifs with hcur
    · rw [Option.bind_eq_some_iff] at hblock
      obtain ⟨thread, hthread, hblock⟩ := hblock
      rw [fastThreadTlsState] at hthread
      split_ifs at hthread with hseen
      exact absurd ⟨hseen, ⟨thread, hthread, hblock⟩, hactive, hcur⟩ (hslow block)
    · rfl

/-- **The two ways agree for the offsets inside the segment, and for no others.**  In every
reachable state the answer is the same for a thread with a block and for one without, except when
the thread takes the fast path with an offset past the end of the segment (and the sum does not
wrap to the null pointer, which is a refusal). -/
theorem agrees_iff {s : TlsState} (hr : tlsRuns.Reach Lts.anyStep s) (t : Nat) (seen : Bool)
    (index : TlsIndex) :
    Agrees s.tls (s.threads t) seen index ↔
      ∀ block template, FastPath s.tls (s.threads t) seen index block →
        findTlsTemplate s.tls index.module.toNat = some template →
        index.offset.toNat < template.segment.memoryBytes ∨ block.storage + index.offset = 0 := by
  have hs := sound_of_reach hr
  generalize s.threads t = owner
  by_cases hactive : activeTlsGeneration s.tls index.module.toNat = 0
  · refine ⟨fun _ block template h => absurd hactive h.active,
      fun _ block _ other seen' address _ _ => ?_⟩
    rw [yukiTlsGetAddr, yukiTlsGetAddr]
    simp only [hactive, if_true]
  obtain ⟨template, hfind, hmod, hm, hgen⟩ := hs.find hactive
  rw [← hmod] at hm
  have hnone : ∀ {other : Option ThreadTlsState},
      (∀ block', ¬ Owns other index.module.toNat block') →
      findThreadBlock (other.getD {}) index.module.toNat = none := by
    intro other hother
    cases other with
    | none => simp [findThreadBlock]
    | some thread =>
      cases hb : findThreadBlock thread index.module.toNat with
      | none => exact hb
      | some block' => exact absurd ⟨thread, rfl, hb⟩ (hother block')
  constructor
  · intro hagree block template' hfast hfind'
    obtain rfl : template = template' := by simpa [hfind] using hfind'
    have hslow : ∀ block', ¬ Owns none index.module.toNat block' := by
      rintro block' ⟨thread, h, -⟩
      cases h
    have h := hagree block hfast.owns none true block.storage hslow fun _ => rfl
    rw [hfast.getAddr, getAddr_of_slow hs hactive hfind hmod hm
      fun block' h => hslow block' h.owns, hnone hslow] at h
    split_ifs at h with hsize
    · exact .inr h
    · exact .inl (by omega)
  · intro hcond block howns other seen' address hother haddress
    rw [getAddr_of_slow hs hactive hfind hmod hm fun block' h => hother block' h.owns,
      hnone hother]
    by_cases hfast : FastPath s.tls owner seen index block
    · rw [hfast.getAddr, haddress hfast.current]
      split_ifs with hsize
      · rcases hcond block template hfast hfind with h | h
        · omega
        · exact h
      · rfl
    · have hslow : ∀ block', ¬ FastPath s.tls owner seen index block' := by
        intro block' h
        obtain ⟨thread, rfl, hb⟩ := howns
        obtain ⟨thread', heq, hb'⟩ := h.owns
        cases heq
        rw [hb] at hb'
        cases hb'
        exact hfast h
      obtain ⟨thread, rfl, hb⟩ := howns
      rw [getAddr_of_slow hs hactive hfind hmod hm hslow]
      simp only [Option.getD_some, hb]
      by_cases hcur : block.generation = template.generation
      · rw [if_pos hcur, haddress (hcur.trans hgen)]
      · rw [if_neg hcur]

/-- An image with 8 bytes of thread-local storage is loaded, and thread 0 has its block. -/
def sampleTls : TlsState :=
  ⟨(activateTls 1 ⟨0, 8, 8⟩ true .initial).2,
    Function.update (fun _ => none) 0
      (yukiTlsGetAddr (activateTls 1 ⟨0, 8, 8⟩ true .initial).2 none true (.granted 4096) ⟨1, 0⟩).2⟩

theorem reach_sampleTls : tlsRuns.Reach Lts.anyStep sampleTls := by
  have h0 : tlsRuns.Reach Lts.anyStep ⟨.initial, fun _ => none⟩ := .ofInit rfl
  have h1 := h0.step (a := .activate 1 ⟨0, 8, 8⟩ true) trivial rfl
  exact h1.step (a := .getAddr 0 ⟨1, 0⟩ true (.granted 4096)) trivial rfl

theorem agrees_sample : Agrees sampleTls.tls (sampleTls.threads 0) true ⟨1, 4⟩ := by
  refine (agrees_iff reach_sampleTls 0 true ⟨1, 4⟩).2 fun block template _ hfind => .inl ?_
  obtain rfl : (⟨1, 1, ⟨0, 8, 8⟩, 1⟩ : TlsTemplate) = template := by
    simpa only [Option.some.injEq] using
      (show some (⟨1, 1, ⟨0, 8, 8⟩, 1⟩ : TlsTemplate) =
        findTlsTemplate sampleTls.tls (1 : Word).toNat by decide +kernel).trans hfind
  decide

/-- The byte after the segment: a thread with a block gets an address, one without is refused. -/
theorem not_agrees : ¬ ∀ s, tlsRuns.Reach Lts.anyStep s → ∀ (t : Nat) (seen : Bool)
    (index : TlsIndex), Agrees s.tls (s.threads t) seen index := by
  intro h
  have hblock : Owns (sampleTls.threads 0) (1 : Word).toNat ⟨1, 4096, 1⟩ :=
    ⟨_, rfl, by decide +kernel⟩
  have hnone : ∀ block', ¬ Owns none (1 : Word).toNat block' := by
    rintro block' ⟨thread, h, -⟩
    cases h
  have := h sampleTls reach_sampleTls 0 true ⟨1, 8⟩ ⟨1, 4096, 1⟩ hblock none true 4096 hnone
    fun _ => rfl
  exact absurd this (by decide +kernel)

end YukiZygisk.Linker
