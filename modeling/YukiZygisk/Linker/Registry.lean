/-
# The registry of images (`register_image`, `unregister_image`, `dl_iterate_phdr_hook`)

The loaded images are in a doubly linked list, in the order in which they were loaded.  A call of
`dlclose` takes its image out near its end, after the finalizers ran, which may themselves load and
unload, even the same image.

**In every run the registry is the list of the loaded images in load order, and an iteration visits
them in that order until a callback returns non-zero** (`images_listed`), provided that there is
memory for the snapshot; without it the iteration visits none of them.

The list is the doubly linked one of `Lib/DoublyLinked`, and the theorem is a simulation: loading
appends to the list of the loaded images and unloading takes one out, wherever it stands
(`good_step`).  Unloading an image that is not on the list, which can happen when its finalizers
have unloaded it already, changes nothing (`unregisterImage_of_not_mem`).  An iteration first copies
the list and then calls back, so an image that a callback loads is not visited, and one that it
unloads still is; `Visits` says what is visited, and why it stops.
-/
import YukiZygisk.Lib.DoublyLinked
import YukiZygisk.Lib.Lts

namespace YukiZygisk.Registry

open DoublyLinked

/-! ## 1. The list -/

/-- `g_first_image`, `g_last_image`, and the links of the images; an image is its address. -/
abbrev Images := Links ℕ

/-- `register_image`. -/
def registerImage (r : Images) (image : ℕ) : Images :=
  let previous := Function.update r.prev image r.last
  let next := Function.update r.next image none
  match r.last with
  | some last => ⟨Function.update next last (some image), previous, r.first, some image⟩
  | none => ⟨next, previous, some image, some image⟩

/-- `unregister_image`. -/
def unregisterImage (r : Images) (image : ℕ) : Images :=
  let next := match r.prev image with
    | some previous => Function.update r.next previous (r.next image)
    | none => r.next
  let first := match r.prev image with
    | some _ => r.first
    | none => if r.first = some image then r.next image else r.first
  let prev := match next image with
    | some next => Function.update r.prev next (r.prev image)
    | none => r.prev
  let last := match next image with
    | some _ => r.last
    | none => if r.last = some image then r.prev image else r.last
  ⟨Function.update next image none, Function.update prev image none, first, last⟩

/-! ## 2. Loading and unloading -/

/-- The registry, the `private_state` of the handles, the calls of `dlclose` that are under way, and
the objects that were handed out by the metadata allocator, which never takes one back. -/
structure Linker where
  registry : Images
  privateState : ℕ → Option ℕ
  closing : List (ℕ × ℕ)
  objects : List ℕ

/-- `loaded` is whether the image gets as far as `register_image`. -/
inductive Act where
  | dlopen (handle image : ℕ) (loaded : Bool)
  | dlcloseBegin (handle : ℕ)
  | dlcloseEnd (handle image : ℕ)

def linkerStep (s : Linker) : Act → Option Linker
  | .dlopen handle image loaded =>
    if handle ∈ s.objects ∨ image ∈ s.objects ∨ handle = image then none
    else
      some { s with
        registry := if loaded then registerImage s.registry image else s.registry
        privateState := Function.update s.privateState handle (if loaded then some image else none)
        objects := handle :: image :: s.objects }
  | .dlcloseBegin handle =>
    match s.privateState handle with
    | none => some s
    | some image => some { s with closing := (handle, image) :: s.closing }
  | .dlcloseEnd handle image =>
    if (handle, image) ∈ s.closing then
      some { s with
        registry := unregisterImage s.registry image
        privateState := Function.update s.privateState handle none
        closing := s.closing.erase (handle, image) }
    else none

def initial : Linker := ⟨⟨fun _ => none, fun _ => none, none, none⟩, fun _ => none, [], []⟩

def linker : Lts Linker Act := ⟨fun s => s = initial, linkerStep⟩

/-- What a call does to the loaded images. -/
def loadedStep (loaded : List ℕ) : Act → List ℕ
  | .dlopen _ image true => loaded ++ [image]
  | .dlopen _ _ false => loaded
  | .dlcloseBegin _ => loaded
  | .dlcloseEnd _ image => loaded.erase image

/-- The loaded images after some calls, in load order. -/
def loadedBy (acts : List Act) : List ℕ := acts.foldl loadedStep []

/-! ## 3. Iterating -/

/-- The fields of `ImageState` that an iteration reads. -/
structure ImageFields where
  bias : ℕ
  displayName : ℕ
  programHeaders : ℕ
  programHeaderCount : ℕ
  tlsActive : Bool
  moduleId : ℕ
  generation : ℕ

/-- `struct dl_phdr_info`. -/
structure PhdrInfo where
  addr : ℕ
  name : ℕ
  phdr : ℕ
  phnum : ℕ
  tlsModid : ℕ
  tlsData : ℕ
  deriving DecidableEq

/-- What the snapshot has of an image; `tlsData` is `current_thread_tls_data`. -/
def phdrInfo (image : ImageFields) (tlsData : ℕ → ℕ → ℕ) : PhdrInfo :=
  let modid := if image.tlsActive then image.moduleId else 0
  let generation := if image.tlsActive then image.generation else 0
  ⟨image.bias, image.displayName, image.programHeaders, image.programHeaderCount % 2 ^ 16, modid,
    tlsData modid generation⟩

/-- What an iteration uses.  `system` is the iteration of the system's linker with the callback, and
`δ` what the callbacks work on. -/
structure IterateEnv (δ : Type) where
  callback : Option (δ → PhdrInfo → ℤ × δ)
  system : Option (δ → ℤ × δ)
  tlsData : δ → ℕ → ℕ → ℕ
  fields : ℕ → ImageFields
  sizeMax : ℕ
  snapshotSize : ℕ
  malloc : ℕ → Bool

/-- A call of the callback. -/
structure Visit where
  image : ℕ
  info : PhdrInfo
  result : ℤ

variable {δ : Type}

/-- The loop over the snapshot. -/
def visitImages (env : IterateEnv δ) (callback : δ → PhdrInfo → ℤ × δ) :
    List ℕ → ℤ → δ → List Visit × ℤ × δ
  | [], result, d => ([], result, d)
  | image :: rest, _, d =>
    let info := phdrInfo (env.fields image) (env.tlsData d)
    let (result, d) := callback d info
    if result ≠ 0 then ([⟨image, info, result⟩], result, d)
    else
      let (visited, last, d) := visitImages env callback rest result d
      (⟨image, info, result⟩ :: visited, last, d)

/-- The part of the system's linker. -/
def IterateEnv.systemResult (env : IterateEnv δ) (d : δ) : ℤ × δ :=
  match env.system with
  | some system => system d
  | none => (0, d)

/-- Whether there is memory for the snapshot of so many images. -/
def IterateEnv.granted (env : IterateEnv δ) (count : ℕ) : Bool :=
  let bytes := count * env.snapshotSize
  decide (bytes ≤ env.sizeMax) && (decide (bytes = 0) || env.malloc bytes)

/-- `dl_iterate_phdr_hook`: the calls for the images of the registry, and the result. -/
def dlIteratePhdrHook (env : IterateEnv δ) (fuel : ℕ) (r : Images) (d : δ) :
    Option (List Visit × ℤ × δ) :=
  match env.callback with
  | none => some ([], 0, d)
  | some callback =>
    let (result, d) := env.systemResult d
    if result ≠ 0 then some ([], result, d)
    else
      match walk r.next fuel r.first with
      | none => none
      | some images =>
        if env.granted images.length then some (visitImages env callback images result d)
        else some ([], 0, d)

/-! ## 4. The registry is the list of the loaded images -/

variable {r : Images} {l : List ℕ} {image : ℕ}

theorem registerImage_eq (r : Images) (image : ℕ) : registerImage r image = r.append image := by
  rw [registerImage, Links.append]
  cases h : r.last with
  | none => simp [setAt]
  | some last => simp [setAt]

/-- An image of the list is taken out of it. -/
theorem unregisterImage_of_mem {a b : List ℕ} (h : Linked r (a ++ image :: b)) :
    unregisterImage r image = r.unlink image := by
  have hprev : r.prev image = a.getLast? := h.prev a image b rfl
  have hnext : r.next image = b.head? := h.next a image b rfl
  have hsides := not_mem_sides h.nodup
  -- The links of the image itself are not changed before they are read.
  have hself : ∀ previous, r.prev image = some previous → image ≠ previous := by
    rintro previous hp rfl
    rw [hprev] at hp
    exact hsides.1 (List.mem_of_getLast? hp)
  have hfirst : r.prev image = none → r.first = some image := by
    intro hp
    rw [hprev, List.getLast?_eq_none_iff] at hp
    subst hp
    exact h.first
  have hlast : r.next image = none → r.last = some image := by
    intro hn
    rw [hnext, List.head?_eq_none_iff] at hn
    subst hn
    exact h.last.trans List.getLast?_concat
  rw [unregisterImage, Links.unlink]
  cases hp : r.prev image with
  | none =>
    cases hn : r.next image with
    | none => simp [hn, hfirst hp, hlast hn, setAt]
    | some next => simp [hn, hfirst hp, setAt]
  | some previous =>
    have hread : Function.update r.next previous (r.next image) image = r.next image :=
      Function.update_of_ne (hself previous hp) _ _
    dsimp only
    rw [hread]
    cases hn : r.next image with
    | none => simp [hlast hn, setAt]
    | some next => simp [setAt]

/-- An image that is not in the list changes nothing. -/
theorem unregisterImage_of_not_mem (h : Linked r l) (hb : Bare r l) (himage : image ∉ l) :
    unregisterImage r image = r := by
  obtain ⟨hnext, hprev⟩ := hb image himage
  have hfirst : r.first ≠ some image := by
    rw [h.first]
    exact fun hi => himage (List.mem_of_head? hi)
  have hlast : r.last ≠ some image := by
    rw [h.last]
    exact fun hi => himage (List.mem_of_getLast? hi)
  have hupdate : ∀ f : ℕ → Option ℕ, f image = none → Function.update f image none = f := by
    intro f hf
    rw [← hf, Function.update_eq_self]
  obtain ⟨next, prev, first, last⟩ := r
  simp only at hnext hprev hfirst hlast
  simp only [unregisterImage, hprev, hnext, if_neg hfirst, if_neg hlast, hupdate next hnext,
    hupdate prev hprev]

/-- What holds of the registry and of the objects, in every run. -/
structure Good (s : Linker) (l : List ℕ) : Prop where
  linked : Linked s.registry l
  bare : Bare s.registry l
  objects : ∀ image ∈ l, image ∈ s.objects

/-- Each step keeps the registry in step with the list. -/
theorem good_step {s s' : Linker} {act : Act} (hg : Good s l) (h : linkerStep s act = some s') :
    Good s' (loadedStep l act) := by
  cases act with
  | dlopen handle image loaded =>
    rw [linkerStep] at h
    by_cases hused : handle ∈ s.objects ∨ image ∈ s.objects ∨ handle = image
    · rw [if_pos hused] at h
      cases h
    rw [if_neg hused] at h
    obtain rfl := Option.some.inj h
    rw [not_or, not_or] at hused
    have himage : image ∉ l := fun hi => hused.2.1 (hg.objects image hi)
    cases loaded with
    | false => exact ⟨hg.linked, hg.bare, fun i hi => by simp [hg.objects i hi]⟩
    | true =>
      refine ⟨?_, ?_, ?_⟩
      · change Linked (registerImage s.registry image) (l ++ [image])
        rw [registerImage_eq]
        exact hg.linked.append himage
      · change Bare (registerImage s.registry image) (l ++ [image])
        rw [registerImage_eq]
        exact hg.bare.append hg.linked
      · intro i hi
        rcases List.mem_append.mp hi with hi | hi
        · simp [hg.objects i hi]
        · simp [List.mem_singleton.mp hi]
  | dlcloseBegin handle =>
    rw [linkerStep] at h
    split at h
    · obtain rfl := Option.some.inj h
      exact hg
    · obtain rfl := Option.some.inj h
      exact ⟨hg.linked, hg.bare, hg.objects⟩
  | dlcloseEnd handle image =>
    rw [linkerStep] at h
    split_ifs at h with hclosing
    obtain rfl := Option.some.inj h
    by_cases himage : image ∈ l
    · obtain ⟨a, b, rfl⟩ := List.append_of_mem himage
      have herase : (a ++ image :: b).erase image = a ++ b := by
        rw [List.erase_append_right _ (not_mem_sides hg.linked.nodup).1, List.erase_cons_head]
      have hunlink := unregisterImage_of_mem hg.linked
      refine ⟨?_, ?_, fun i hi => hg.objects i ?_⟩
      · change Linked (unregisterImage s.registry image) ((a ++ image :: b).erase image)
        rw [hunlink, herase]
        exact hg.linked.unlink
      · change Bare (unregisterImage s.registry image) ((a ++ image :: b).erase image)
        rw [hunlink, herase]
        exact hg.bare.unlink hg.linked
      · exact List.mem_of_mem_erase hi
    · have hsame := unregisterImage_of_not_mem hg.linked hg.bare himage
      have herase : l.erase image = l := List.erase_of_not_mem himage
      refine ⟨?_, ?_, fun i hi => hg.objects i (List.mem_of_mem_erase hi)⟩
      · change Linked (unregisterImage s.registry image) (l.erase image)
        rw [hsame, herase]
        exact hg.linked
      · change Bare (unregisterImage s.registry image) (l.erase image)
        rw [hsame, herase]
        exact hg.bare

theorem good_exec : ∀ (acts : List Act) (s s' : Linker) (l : List ℕ), Good s l →
    linker.exec s acts = some s' → Good s' (acts.foldl loadedStep l) := by
  intro acts
  induction acts with
  | nil =>
    intro s s' l hg h
    obtain rfl := Option.some.inj h
    exact hg
  | cons act acts ih =>
    intro s s' l hg h
    obtain ⟨t, ht, hrest⟩ := Option.bind_eq_some_iff.mp h
    exact ih t s' _ (good_step hg ht) hrest

theorem good_initial : Good initial [] :=
  ⟨linked_nil initial.registry, fun _ _ => ⟨rfl, rfl⟩, fun _ h => absurd h List.not_mem_nil⟩

/-! ## 5. An iteration -/

/-- What an iteration over some images has called: a part of them from the first on, each with its
fields; it goes on while the results are zero, and has called all unless the last one was not. -/
structure Visits (fields : ℕ → ImageFields) (images : List ℕ) (visited : List Visit) (result : ℤ) :
    Prop where
  order : visited.map Visit.image <+: images
  described : ∀ v ∈ visited, ∃ tlsData, v.info = phdrInfo (fields v.image) tlsData
  goesOn : ∀ a v b, visited = a ++ v :: b → b ≠ [] → v.result = 0
  stops : visited.map Visit.image ≠ images → ∃ v, visited.getLast? = some v ∧ v.result ≠ 0
  returned : result = (visited.getLast?.map Visit.result).getD 0

theorem visits_nil (fields : ℕ → ImageFields) : Visits fields [] [] 0 where
  order := List.prefix_rfl
  described v h := absurd h List.not_mem_nil
  goesOn a v b h := absurd h (by simp)
  stops h := absurd rfl h
  returned := rfl

/-- The callback stops the iteration. -/
theorem visits_stop {fields : ℕ → ImageFields} {v : Visit} {rest : List ℕ}
    (hinfo : ∃ tlsData, v.info = phdrInfo (fields v.image) tlsData) (h : v.result ≠ 0) :
    Visits fields (v.image :: rest) [v] v.result where
  order := ⟨rest, rfl⟩
  described w hw := by
    obtain rfl := List.mem_singleton.mp hw
    exact hinfo
  goesOn a w b hsplit hb := by
    have hlen := congrArg List.length hsplit
    have := List.length_pos_of_ne_nil hb
    simp only [List.length_append, List.length_cons, List.length_nil] at hlen
    omega
  stops _ := ⟨v, rfl, h⟩
  returned := rfl

/-- The callback lets the iteration go on. -/
theorem visits_cons {fields : ℕ → ImageFields} {v : Visit} {rest : List ℕ} {visited : List Visit}
    {result : ℤ} (hinfo : ∃ tlsData, v.info = phdrInfo (fields v.image) tlsData)
    (hzero : v.result = 0) (h : Visits fields rest visited result) :
    Visits fields (v.image :: rest) (v :: visited) result where
  order := List.cons_prefix_cons.mpr ⟨rfl, h.order⟩
  described w hw := by
    rcases List.mem_cons.mp hw with rfl | hw
    · exact hinfo
    · exact h.described w hw
  goesOn a w b hsplit hb := by
    cases a with
    | nil =>
      obtain ⟨rfl, -⟩ := List.cons.inj hsplit
      exact hzero
    | cons u a => exact h.goesOn a w b (List.cons.inj hsplit).2 hb
  stops hne := by
    obtain ⟨w, hw, hresult⟩ := h.stops fun heq => hne (congrArg (v.image :: ·) heq)
    refine ⟨w, ?_, hresult⟩
    rw [List.getLast?_cons, hw]
    rfl
  returned := by
    rw [h.returned, List.getLast?_cons]
    cases visited.getLast? with
    | none => exact hzero.symm
    | some w => rfl

/-- **The loop over the snapshot** visits its images until a callback returns non-zero. -/
theorem visits_visitImages (env : IterateEnv δ) (callback : δ → PhdrInfo → ℤ × δ) :
    ∀ (images : List ℕ) (d : δ), ∃ visited result d',
      visitImages env callback images 0 d = (visited, result, d') ∧
        Visits env.fields images visited result := by
  intro images
  induction images with
  | nil => exact fun d => ⟨[], 0, d, rfl, visits_nil _⟩
  | cons image images ih =>
    intro d
    have hinfo : ∃ tlsData, phdrInfo (env.fields image) (env.tlsData d) =
        phdrInfo (env.fields image) tlsData := ⟨_, rfl⟩
    generalize hi : phdrInfo (env.fields image) (env.tlsData d) = info at hinfo
    cases hcall : callback d info with
    | mk result d' =>
      by_cases hzero : result = 0
      · subst hzero
        obtain ⟨visited, last, d'', hvisit, hvisits⟩ := ih d'
        refine ⟨_, _, d'', ?_, visits_cons (v := ⟨image, info, 0⟩) hinfo rfl hvisits⟩
        simp only [visitImages, hi, hcall, ne_eq, not_true_eq_false, if_false, hvisit]
      · refine ⟨_, _, d', ?_, visits_stop (v := ⟨image, info, result⟩) hinfo hzero⟩
        simp only [visitImages, hi, hcall, ne_eq, hzero, not_false_eq_true, if_true]

/-- **The registry is the list of the loaded images in load order**, in every run of loads and
unloads, **and an iteration visits exactly them in that order until a callback returns non-zero**.
The images of the system's linker come first, and may stop it too; and when there is no memory for
the snapshot, the iteration ends with zero and visits none. -/
theorem images_listed {acts : List Act} {s : Linker} (h : linker.exec initial acts = some s) :
    Linked s.registry (loadedBy acts) ∧
      ∀ (δ : Type) (env : IterateEnv δ) (callback : δ → PhdrInfo → ℤ × δ) (fuel : ℕ) (d : δ),
        env.callback = some callback → (loadedBy acts).length ≤ fuel →
        ∃ visited result d', dlIteratePhdrHook env fuel s.registry d = some (visited, result, d') ∧
          if (env.systemResult d).1 ≠ 0 then visited = [] ∧ result = (env.systemResult d).1
          else if env.granted (loadedBy acts).length = true then
            Visits env.fields (loadedBy acts) visited result
          else visited = [] ∧ result = 0 := by
  have hgood := good_exec acts initial s [] good_initial h
  have hlinked : Linked s.registry (loadedBy acts) := hgood.linked
  refine ⟨hlinked, fun δ env callback fuel d hcallback hfuel => ?_⟩
  cases hsystem : env.systemResult d with
  | mk result d₁ =>
    by_cases hstop : result = 0
    · subst hstop
      obtain ⟨visited, result, d', hvisit, hvisits⟩ :=
        visits_visitImages env callback (loadedBy acts) d₁
      by_cases hgranted : env.granted (loadedBy acts).length = true
      · refine ⟨visited, result, d', ?_, ?_⟩
        · simp only [dlIteratePhdrHook, hcallback, hsystem, ne_eq, not_true_eq_false, if_false,
            hlinked.walk hfuel, hgranted, if_true, hvisit]
        · rw [if_neg (by simp), if_pos hgranted]
          exact hvisits
      · refine ⟨[], 0, d₁, ?_, ?_⟩
        · simp only [dlIteratePhdrHook, hcallback, hsystem, ne_eq, not_true_eq_false, if_false,
            hlinked.walk hfuel, hgranted, Bool.false_eq_true]
        · rw [if_neg (by simp), if_neg hgranted]
          exact ⟨rfl, rfl⟩
    · refine ⟨[], result, d₁, ?_, ?_⟩
      · simp only [dlIteratePhdrHook, hcallback, hsystem, ne_eq, hstop, not_false_eq_true, if_true]
      · rw [if_pos hstop]
        exact ⟨rfl, rfl⟩

/-- Two images are loaded, and the first one is unloaded. -/
def someActs : List Act :=
  [.dlopen 1 2 true, .dlopen 3 4 true, .dlcloseBegin 1, .dlcloseEnd 1 2]

/-- An iteration that counts, with memory for so many bytes. -/
def counting (memory : ℕ) : IterateEnv ℕ where
  callback := some fun n _ => (0, n + 1)
  system := none
  tlsData := fun _ _ _ => 0
  fields := fun image => ⟨image, 0, 0, 0, false, 0, 0⟩
  sizeMax := 2 ^ 64 - 1
  snapshotSize := 72
  malloc := fun bytes => bytes ≤ memory

theorem images_listed_sample :
    ∃ s, linker.exec initial someActs = some s ∧ Linked s.registry [4] ∧
      ∃ visited result d', dlIteratePhdrHook (counting 72) 1 s.registry 0 =
        some (visited, result, d') ∧
          if ((counting 72).systemResult 0).1 ≠ 0 then
            visited = [] ∧ result = ((counting 72).systemResult 0).1
          else if (counting 72).granted (loadedBy someActs).length = true then
            Visits (counting 72).fields (loadedBy someActs) visited result
          else visited = [] ∧ result = 0 :=
  ⟨_, rfl, (@images_listed someActs _ rfl).1,
    (@images_listed someActs _ rfl).2 ℕ (counting 72) _ 1 0 rfl (by decide)⟩

/-- Without memory for the snapshot an image is loaded and not visited, though no callback has
returned non-zero. -/
theorem not_visited :
    ∃ s, linker.exec initial someActs = some s ∧ loadedBy someActs = [4] ∧
      dlIteratePhdrHook (counting 0) 1 s.registry 0 = some ([], 0, 0) :=
  ⟨_, rfl, rfl, rfl⟩

end YukiZygisk.Registry
