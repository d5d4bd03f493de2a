/-
# Loading an image (`zygisk/core/src/yukilinker.cpp`)

`dlopen_memfd` maps the file, reserves an address range, copies the segments into it, opens the
libraries the image needs, gives its TLS segment a module id, relocates and protects it, and puts
it on the list of images.  Each of these steps can fail.  Most failures go to
`release_failed_image`, and some steps clean up on their own.

One step does both: `create_address_space` unmaps the reservation when there is no memory for the
copy of the program headers, but the image keeps its address, and `release_failed_image` unmaps it
again (`not_clean`).  At every other point a failed load leaves nothing behind: `clean_iff`.

A load is a list of what was taken and given back, mappings, libraries and module ids, in the order
of the calls (`Ledger` of the library), and `Clean` says that a failed load settles and leaves the
TLS tables as they were.  Each stage of the load either fails and has settled by itself, or goes on
with what it took; a failure further on is settled by `release_failed_image`, which gives back what
the fields of the image name (`run_releaseFailedImage`).  The one stage that gives something back
and leaves the field is `create_address_space`.  Loads are also taken in runs, one after the other
with unloads in between, because the table of TLS modules that a failed load has to restore depends
on the loads before it.
-/
import Mathlib
import YukiZygisk.Lib.Ledger
import YukiZygisk.Linker.Tls

namespace YukiZygisk.Linker

open Ledger (Event run Settled run_append)

/-! ## 1. What a load does -/

/-- A mapping of the process. -/
structure Range where
  address : Word
  bytes : Nat
  deriving DecidableEq

/-- What a load acquires, besides its place on the list of images. -/
inductive Resource where
  | mapping (range : Range)
  | handle (handle : Word)
  | tlsModule (moduleId : Nat)
  deriving DecidableEq

/-- A program header, as far as the copy of the segments looks at it.  `copied` is the answer of
`map_one_segment` for it. -/
structure ProgramHeader where
  load : Bool
  memoryBytes : Nat
  copied : Bool
  deriving DecidableEq

/-- `struct SourceLayout`. -/
structure SourceLayout where
  lowest : Nat
  highest : Nat
  headers : List ProgramHeader
  deriving DecidableEq

/-- An entry of the dynamic section.  A needed library has a valid name or not, gets an object
from the metadata allocator or not, and `dlopen` answers with a handle or not. -/
inductive DynamicEntry where
  | null
  | needed (valid object : Bool) (handle : Option Word)
  | other
  deriving DecidableEq

/-- The arguments of a load, and what the file and the system say when it asks. -/
structure LoadEnv where
  memfd : Int
  /-- the size that `fstat` reports -/
  size : Option Int
  source : Option Word
  /-- the answer of `inspect_source` -/
  layout : Option SourceLayout
  /-- the metadata allocator grants the handle and the image, and the copy of the headers -/
  handleObject : Bool
  imageObject : Bool
  headerCopy : Bool
  reservation : Option Word
  /-- the TLS segment, the dynamic section and the symbol table are well formed -/
  metadataReady : Bool
  systemTls : Bool
  entries : List DynamicEntry
  segment : TlsSegment
  /-- the answer of `pthread_key_create` -/
  created : Bool
  relocated : Bool
  restored : Bool
  relro : Bool

/-- `struct ImageState`, as far as the clean-up looks at it. -/
structure Image where
  id : Nat
  reservation : Option Range
  dependencies : List (Option Word)
  deriving DecidableEq

/-- The TLS tables, the list of images, and the number of images made so far. -/
structure Loader where
  tls : Tls
  registry : List Nat
  objects : Nat

/-- How a load ends: whether it succeeds, the loader after it, and its log. -/
structure Loaded where
  ok : Bool
  loader : Loader
  log : List (Event Resource)

/-- The handles that were opened. -/
def handles (dependencies : List (Option Word)) : List Resource :=
  (dependencies.filterMap id).map .handle

/-- `open_dependencies`: whether it succeeds, and the dependencies it has put on the image. -/
def openDependencies : List DynamicEntry → Bool × List (Option Word)
  | [] => (true, [])
  | .null :: _ => (true, [])
  | .other :: rest => openDependencies rest
  | .needed valid object handle :: rest =>
    if !valid then (false, [])
    else if !object then (false, [])
    else ((openDependencies rest).1, handle :: (openDependencies rest).2)

/-- The module id of an image. -/
def tlsModuleOf (image : Nat) (tls : Tls) : List Resource :=
  ((tls.templates.find? fun template => template.image = image).map
    fun template => .tlsModule template.moduleId).toList

/-- `sizeof(ElfW(Phdr))`. -/
def programHeaderBytes : Nat := 56

/-- `create_address_space`: whether it succeeds, the reservation that the image remembers, and the
log. -/
def createAddressSpace (env : LoadEnv) (layout : SourceLayout) :
    Bool × Option Range × List (Event Resource) :=
  match env.reservation with
  | none => (false, none, [])
  | some address =>
    let reservation := ⟨address, layout.highest - layout.lowest⟩
    let failed := [.acquire (.mapping reservation), .release (.mapping reservation)]
    if 2 ^ 64 ≤ layout.headers.length * programHeaderBytes then (false, some reservation, failed)
    else if !env.headerCopy then (false, some reservation, failed)
    else if layout.headers.any fun ph => ph.load && ph.memoryBytes ≠ 0 && !ph.copied then
      (false, none, failed)
    else (true, some reservation, [.acquire (.mapping reservation)])

/-- The part of `dlopen_memfd` from the TLS segment to the protections: whether it succeeds, the
dependencies of the image, the TLS tables, and the log. -/
def prepare (env : LoadEnv) (image : Nat) (tls : Tls) :
    Bool × List (Option Word) × Tls × List (Event Resource) :=
  if env.metadataReady && env.systemTls then (false, [], tls, [])
  else if !env.metadataReady then (false, [], tls, [])
  else
    let dependencies := openDependencies env.entries
    let opened := (handles dependencies.2).map .acquire
    if !dependencies.1 then (false, dependencies.2, tls, opened)
    else
      let active := activateTls image env.segment env.created tls
      (active.1 && env.relocated && env.restored && env.relro, dependencies.2, active.2,
        opened ++ (tlsModuleOf image active.2).map .acquire)

/-- `release_failed_image`: the TLS tables and the log. -/
def releaseFailedImage (image : Image) (tls : Tls) : Tls × List (Event Resource) :=
  (deactivateTls image.id tls,
    (tlsModuleOf image.id tls).map .release ++ (handles image.dependencies).map .release ++
      (image.reservation.map fun range => .release (.mapping range)).toList)

/-- The part of `dlopen_memfd` once the file is mapped and the objects are made. -/
def loadImage (env : LoadEnv) (layout : SourceLayout) (source : Range) (s : Loader) : Loaded :=
  let id := s.objects
  let s := { s with objects := s.objects + 1 }
  let space := createAddressSpace env layout
  if !space.1 then
    let released := releaseFailedImage ⟨id, space.2.1, []⟩ s.tls
    ⟨false, { s with tls := released.1 },
      space.2.2 ++ .release (.mapping source) :: released.2⟩
  else
    let prepared := prepare env id s.tls
    let log := space.2.2 ++ prepared.2.2.2
    if !prepared.1 then
      let released := releaseFailedImage ⟨id, space.2.1, prepared.2.1⟩ prepared.2.2.1
      ⟨false, { s with tls := released.1 }, log ++ .release (.mapping source) :: released.2⟩
    else
      ⟨true, { s with tls := prepared.2.2.1, registry := s.registry ++ [id] },
        log ++ [.release (.mapping source)]⟩

/-- The size of the file, when `dlopen_memfd` can use it. -/
def fileSize (env : LoadEnv) : Option Nat :=
  if env.memfd < 0 then none
  else env.size.bind fun size => if size ≤ 0 then none else some size.toNat

/-- `dlopen_memfd`. -/
def dlopenMemfd (env : LoadEnv) (s : Loader) : Loaded :=
  match fileSize env, env.source with
  | some bytes, some address =>
    let source := ⟨address, bytes⟩
    let failed := [.acquire (.mapping source), .release (.mapping source)]
    match env.layout with
    | none => ⟨false, s, failed⟩
    | some layout =>
      if !env.handleObject || !env.imageObject then ⟨false, s, failed⟩
      else
        let loaded := loadImage env layout source s
        ⟨loaded.ok, loaded.loader, .acquire (.mapping source) :: loaded.log⟩
  | _, _ => ⟨false, s, []⟩

/-! ## 2. Runs of the loader -/

inductive LoaderAct where
  | dlopen (env : LoadEnv)
  | dlclose (image : Nat)
  | shutdown

/-- One call.  `dlclose` of an image that is not loaded does nothing. -/
def loaderStep (s : Loader) : LoaderAct → Option Loader
  | .dlopen env => some (dlopenMemfd env s).loader
  | .dlclose image =>
    if image ∈ s.registry then
      some { s with tls := deactivateTls image s.tls, registry := s.registry.erase image }
    else some s
  | .shutdown => some { s with tls := shutdownTls s.tls }

def loader : Lts Loader LoaderAct where
  init s := s = ⟨.initial, [], 0⟩
  step := loaderStep

variable {env : LoadEnv} {s : Loader} {layout : SourceLayout} {tls : Tls} {image : Nat}

/-! ## 3. The TLS tables -/

/-- Only images made before have a module id. -/
def Loader.Fresh (s : Loader) : Prop := ∀ template ∈ s.tls.templates, template.image < s.objects

/-- The templates and the slots of the modules are the same. -/
structure SameTls (tls tls' : Tls) : Prop where
  templates : tls'.templates = tls.templates
  generations : tls'.generations = tls.generations

theorem SameTls.refl (tls : Tls) : SameTls tls tls := ⟨rfl, rfl⟩

/-- An image that is activated gets at most one template, for a free module id. -/
theorem activateTls_sameTls (image : Nat) (segment : TlsSegment) (created : Bool) (tls : Tls) :
    SameTls tls (activateTls image segment created tls).2 ∨
    ∃ template : TlsTemplate, template.image = image ∧ tls.generations template.moduleId = 0 ∧
      (activateTls image segment created tls).2.templates = template :: tls.templates ∧
      (activateTls image segment created tls).2.generations =
        Function.update tls.generations template.moduleId template.generation := by
  rcases activateTls_cases image segment created tls with
    ⟨htemplates, hgens, -⟩ | ⟨moduleId, hfree, htemplates, hgens, -⟩
  · exact .inl ⟨htemplates, hgens⟩
  · exact .inr ⟨newTemplate tls image segment moduleId, rfl, (freeModuleId_spec hfree).2.2,
      htemplates, hgens⟩

theorem deactivateTls_of_absent (h : ∀ t ∈ tls.templates, t.image ≠ image) :
    deactivateTls image tls = tls := by
  have hnone : (tls.templates.find? fun t => t.image = image) = none := by
    rw [List.find?_eq_none]
    intro t ht
    simpa using h t ht
  rw [deactivateTls, hnone]

theorem tlsModuleOf_of_absent (h : ∀ t ∈ tls.templates, t.image ≠ image) :
    tlsModuleOf image tls = [] := by
  have hnone : (tls.templates.find? fun t => t.image = image) = none := by
    rw [List.find?_eq_none]
    intro t ht
    simpa using h t ht
  rw [tlsModuleOf, hnone]
  rfl

/-- **What a failed load takes back of the TLS tables**: the template of the image and its slot. -/
theorem sameTls_deactivate (segment : TlsSegment) (created : Bool)
    (h : ∀ t ∈ tls.templates, t.image ≠ image) :
    SameTls tls (deactivateTls image (activateTls image segment created tls).2) := by
  rcases activateTls_sameTls image segment created tls with hsame | ⟨t, himage, hfree, hts, hgens⟩
  · rw [deactivateTls_of_absent (by rwa [hsame.templates])]
    exact hsame
  · have hfind : (activateTls image segment created tls).2.templates.find?
        (fun t => t.image = image) = some t := by
      rw [hts, List.find?_cons_of_pos (by simpa using himage)]
    rw [deactivateTls, hfind]
    constructor
    · dsimp only
      rw [hts, List.filter_cons_of_neg (by simpa using himage), List.filter_eq_self]
      intro t' ht'
      simpa using h t' ht'
    · dsimp only
      rw [hgens, Function.update_idem, ← hfree, Function.update_eq_self]

/-! ## 4. Failed loads -/

/-- **A failed load leaves nothing behind and frees nothing twice.**  What its log acquires it also
releases, once and not before; and the list of images and the TLS tables are as they were. -/
def Clean (env : LoadEnv) (s : Loader) : Prop :=
  (dlopenMemfd env s).ok = false → Settled (dlopenMemfd env s).log ∧
    (dlopenMemfd env s).loader.registry = s.registry ∧
    SameTls s.tls (dlopenMemfd env s).loader.tls

/-- There is a reservation, and no memory for the copy of the program headers. -/
def copyRefused (env : LoadEnv) (layout : SourceLayout) : Prop :=
  env.reservation.isSome ∧
    (2 ^ 64 ≤ layout.headers.length * programHeaderBytes ∨ env.headerCopy = false)

/-- The load gets as far as the copy of the program headers, and that is refused. -/
def HeadersRefused (env : LoadEnv) : Prop :=
  (fileSize env).isSome ∧ env.source.isSome ∧ env.handleObject = true ∧ env.imageObject = true ∧
    ∃ layout, env.layout = some layout ∧ copyRefused env layout

/-- The ways out of `create_address_space`. -/
theorem createAddressSpace_cases (env : LoadEnv) (layout : SourceLayout) :
    (¬ copyRefused env layout ∧ (createAddressSpace env layout).1 = false ∧
      (createAddressSpace env layout).2.1 = none ∧
      ∀ held, run held (createAddressSpace env layout).2.2 = some held) ∨
    (¬ copyRefused env layout ∧ (createAddressSpace env layout).1 = true ∧
      ∃ range, createAddressSpace env layout =
        (true, some range, [.acquire (.mapping range)])) ∨
    (copyRefused env layout ∧ ∃ range, createAddressSpace env layout =
      (false, some range, [.acquire (.mapping range), .release (.mapping range)])) := by
  rw [createAddressSpace]
  cases hr : env.reservation with
  | none =>
    refine .inl ⟨fun h => ?_, rfl, rfl, fun held => rfl⟩
    rw [copyRefused, hr] at h
    exact absurd h.1 (by simp)
  | some address =>
    have hs : env.reservation.isSome = true := by rw [hr]; rfl
    dsimp only
    split_ifs with h1 h2 h3
    · exact .inr (.inr ⟨⟨hs, .inl h1⟩, _, rfl⟩)
    · exact .inr (.inr ⟨⟨hs, .inr (by simpa using h2)⟩, _, rfl⟩)
    · refine .inl ⟨?_, rfl, rfl, fun held => by simp⟩
      rintro ⟨-, h | h⟩
      · exact h1 h
      · exact h2 (by simp [h])
    · refine .inr (.inl ⟨?_, rfl, _, rfl⟩)
      rintro ⟨-, h | h⟩
      · exact h1 h
      · exact h2 (by simp [h])

/-- What a load holds after `prepare`: its module id and the libraries it has opened. -/
theorem run_prepare (h : ∀ t ∈ tls.templates, t.image ≠ image) (held : Multiset Resource) :
    run held (prepare env image tls).2.2.2 =
      some ((handles (prepare env image tls).2.1 : Multiset Resource) +
        (tlsModuleOf image (prepare env image tls).2.2.1 + held)) := by
  have hnone : tlsModuleOf image tls = [] := tlsModuleOf_of_absent h
  rw [prepare]
  split_ifs
  · simp [hnone, handles]
  · simp [hnone, handles]
  dsimp only
  split_ifs
  · rw [Ledger.run_acquires, hnone]
    simp
  · rw [run_append, Ledger.run_acquires, Option.bind_some, Ledger.run_acquires]
    simp only [← add_assoc, add_comm]

/-- `prepare` leaves the TLS tables as `deactivate_tls` finds them. -/
theorem sameTls_prepare (h : ∀ t ∈ tls.templates, t.image ≠ image) :
    SameTls tls (deactivateTls image (prepare env image tls).2.2.1) := by
  have hsame : SameTls tls (deactivateTls image tls) := by
    rw [deactivateTls_of_absent h]
    exact .refl tls
  rw [prepare]
  split_ifs
  · exact hsame
  · exact hsame
  dsimp only
  split_ifs
  · exact hsame
  · exact sameTls_deactivate env.segment env.created h

/-- What an image holds. -/
def Image.held (i : Image) (tls : Tls) : Multiset Resource :=
  (tlsModuleOf i.id tls : Multiset Resource) + ((handles i.dependencies : Multiset Resource) +
    Multiset.ofList (i.reservation.map Resource.mapping).toList)

/-- `release_failed_image` gives back what the image holds. -/
theorem run_releaseFailedImage (i : Image) (tls : Tls) (held : Multiset Resource) :
    run (i.held tls + held) (releaseFailedImage i tls).2 = some held := by
  rw [Image.held, add_assoc, add_assoc]
  rw [releaseFailedImage, run_append, run_append, Ledger.run_releases, Option.bind_some,
    Ledger.run_releases, Option.bind_some]
  cases i.reservation with
  | none => simp
  | some range =>
    simp only [Option.map_some, Option.toList_some, ← Multiset.cons_coe, Multiset.cons_add,
      Multiset.coe_nil, zero_add]
    rw [Ledger.run_release_held, Ledger.run_nil]

/-- A load that fails once the objects are made. -/
theorem loadImage_clean (hfresh : s.Fresh) {source : Range}
    (hfail : (loadImage env layout source s).ok = false) :
    (run {.mapping source} (loadImage env layout source s).log = some 0 ↔
      ¬ copyRefused env layout) ∧
    (loadImage env layout source s).loader.registry = s.registry ∧
    SameTls s.tls (loadImage env layout source s).loader.tls := by
  have habsent : ∀ t ∈ s.tls.templates, t.image ≠ s.objects :=
    fun t ht => (hfresh t ht).ne
  have hnone := tlsModuleOf_of_absent habsent
  rw [loadImage] at hfail ⊢
  rcases createAddressSpace_cases env layout with
    ⟨hc, hok, hrange, hrun⟩ | ⟨hc, hok, range, heq⟩ | ⟨hc, range, heq⟩
  · simp only [hok, Bool.not_false, if_true, hrange]
    refine ⟨iff_of_true ?_ hc, trivial, ?_⟩
    · rw [run_append, hrun, Option.bind_some, ← Multiset.cons_zero, Ledger.run_release_held]
      simp [releaseFailedImage, hnone, handles]
    · rw [releaseFailedImage, deactivateTls_of_absent habsent]
      exact .refl s.tls
  · simp only [heq, Bool.not_true, Bool.false_eq_true, if_false] at hfail ⊢
    split_ifs at hfail ⊢ with hp
    refine ⟨iff_of_true ?_ hc, rfl, sameTls_prepare habsent⟩
    rw [run_append, run_append, Ledger.run_acquire, Ledger.run_nil, Option.bind_some,
      run_prepare habsent, Option.bind_some]
    have hheld : (handles (prepare env s.objects s.tls).2.1 : Multiset Resource) +
        ((tlsModuleOf s.objects (prepare env s.objects s.tls).2.2.1 : Multiset Resource) +
          Resource.mapping range ::ₘ {Resource.mapping source}) =
        Resource.mapping source ::ₘ (Image.held
          ⟨s.objects, some range, (prepare env s.objects s.tls).2.1⟩
            (prepare env s.objects s.tls).2.2.1 + 0) := by
      simp only [Image.held, Option.map_some, Option.toList_some, Multiset.coe_singleton, add_zero,
        ← Multiset.singleton_add]
      abel
    rw [hheld, Ledger.run_release_held]
    exact run_releaseFailedImage ⟨s.objects, some range, (prepare env s.objects s.tls).2.1⟩ _ 0
  · simp only [heq, Bool.not_false, if_true]
    refine ⟨iff_of_false ?_ (not_not.2 hc), trivial, ?_⟩
    · -- The reservation is released twice.
      simp only [releaseFailedImage, hnone, handles, List.map_nil, List.nil_append,
        List.filterMap_nil, Option.map_some, Option.toList_some, List.cons_append,
        Ledger.run_acquire, Ledger.run_release_held]
      rw [← Multiset.cons_zero, Ledger.run_release_held,
        Ledger.run_release_of_notMem (Multiset.notMem_zero _)]
      exact nofun
    · rw [releaseFailedImage, deactivateTls_of_absent habsent]
      exact .refl s.tls

/-! ## 5. Every load of every run -/

theorem fresh_of_sameTls {s' : Loader} (h : s.Fresh) (ht : SameTls s.tls s'.tls)
    (ho : s.objects ≤ s'.objects) : s'.Fresh := by
  intro t hmem
  rw [ht.templates] at hmem
  exact (h t hmem).trans_le ho

theorem mem_templates_deactivate {t : TlsTemplate} (h : t ∈ (deactivateTls image tls).templates) :
    t ∈ tls.templates := by
  rw [deactivateTls] at h
  split at h
  · exact h
  · exact List.mem_of_mem_filter h

/-- The templates that a load leaves are those before it, and one of its own image. -/
theorem mem_templates_prepare {t : TlsTemplate}
    (h : t ∈ (prepare env image tls).2.2.1.templates) : t ∈ tls.templates ∨ t.image = image := by
  rw [prepare] at h
  split_ifs at h
  · exact .inl h
  · exact .inl h
  dsimp only at h
  split_ifs at h
  · exact .inl h
  rcases activateTls_sameTls image env.segment env.created tls with hsame | ⟨t', himage, -, hts, -⟩
  · exact .inl (hsame.templates ▸ h)
  · rw [hts] at h
    rcases List.mem_cons.1 h with rfl | h
    · exact .inr himage
    · exact .inl h

/-- A load leaves the tables free of images that are still to come. -/
theorem fresh_loadImage (h : s.Fresh) (source : Range) :
    (loadImage env layout source s).loader.Fresh := by
  have habsent : ∀ t ∈ s.tls.templates, t.image ≠ s.objects := fun t ht => (h t ht).ne
  rw [loadImage]
  dsimp only
  split_ifs
  · refine fresh_of_sameTls h ?_ (Nat.le_succ _)
    rw [releaseFailedImage, deactivateTls_of_absent habsent]
    exact .refl s.tls
  · exact fresh_of_sameTls h (sameTls_prepare habsent) (Nat.le_succ _)
  · intro t ht
    rcases mem_templates_prepare ht with ht | ht
    · exact (h t ht).trans (Nat.lt_succ_self _)
    · exact ht ▸ Nat.lt_succ_self _

/-- A load that ends before its objects are made, or one that is a `loadImage`. -/
theorem dlopenMemfd_cases (env : LoadEnv) (s : Loader) :
    ((dlopenMemfd env s).ok = false ∧ (dlopenMemfd env s).loader = s ∧
      Settled (dlopenMemfd env s).log ∧ ¬ HeadersRefused env) ∨
    ∃ source layout, (HeadersRefused env ↔ copyRefused env layout) ∧
      dlopenMemfd env s = ⟨(loadImage env layout source s).ok,
        (loadImage env layout source s).loader,
        .acquire (.mapping source) :: (loadImage env layout source s).log⟩ := by
  rw [dlopenMemfd]
  cases hsize : fileSize env with
  | none => exact .inl ⟨rfl, rfl, rfl, fun h => by simp [HeadersRefused, hsize] at h⟩
  | some bytes =>
    cases hsource : env.source with
    | none => exact .inl ⟨rfl, rfl, rfl, fun h => by simp [HeadersRefused, hsource] at h⟩
    | some address =>
      have hsettled : Settled [Event.acquire (Resource.mapping ⟨address, bytes⟩),
          .release (.mapping ⟨address, bytes⟩)] := by
        rw [Settled, Ledger.run_acquire, Ledger.run_release_held, Ledger.run_nil]
      cases hlayout : env.layout with
      | none =>
        exact .inl ⟨rfl, rfl, hsettled, fun h => by simp [HeadersRefused, hlayout] at h⟩
      | some layout =>
        dsimp only
        split_ifs with hobjects
        · refine .inl ⟨rfl, rfl, hsettled, fun h => ?_⟩
          obtain ⟨-, -, h1, h2, -⟩ := h
          simp [h1, h2] at hobjects
        · refine .inr ⟨⟨address, bytes⟩, layout, ?_, rfl⟩
          simp only [Bool.or_eq_true, Bool.not_eq_true', not_or, Bool.not_eq_false] at hobjects
          simp [HeadersRefused, hsize, hsource, hlayout, hobjects]

theorem fresh_of_reach (hr : loader.Reach Lts.anyStep s) : s.Fresh := by
  refine hr.invariant (I := Loader.Fresh) ⟨?_, ?_⟩
  · rintro s rfl t ht
    exact absurd ht List.not_mem_nil
  · intro s a s' hs _ hstep
    change loaderStep s a = some s' at hstep
    cases a with
    | dlopen env =>
      cases hstep
      rcases dlopenMemfd_cases env s with ⟨-, heq, -⟩ | ⟨source, layout, -, heq⟩
      · rw [heq]
        exact hs
      · rw [heq]
        exact fresh_loadImage hs source
    | dlclose image =>
      rw [loaderStep] at hstep
      split_ifs at hstep
      · cases hstep
        exact fun t ht => hs t (mem_templates_deactivate ht)
      · cases hstep
        exact hs
    | shutdown =>
      cases hstep
      exact fun t ht => absurd ht List.not_mem_nil

/-- **A failed load is clean at every point but one.**  In every state of the loader, a load leaves
nothing behind and frees nothing twice exactly when it is not the copy of the program headers that
there is no memory for. -/
theorem clean_iff (hr : loader.Reach Lts.anyStep s) (env : LoadEnv) :
    Clean env s ↔ ¬ HeadersRefused env := by
  have hfresh := fresh_of_reach hr
  rcases dlopenMemfd_cases env s with ⟨-, heq, hlog, hnot⟩ | ⟨source, layout, hiff, heq⟩
  · refine iff_of_true (fun _ => ⟨hlog, ?_⟩) hnot
    rw [heq]
    exact ⟨rfl, .refl s.tls⟩
  · rw [Clean, heq, hiff, Settled, Ledger.run_acquire, Multiset.cons_zero]
    constructor
    · intro h hc
      have hfail : (loadImage env layout source s).ok = false := by
        rcases createAddressSpace_cases env layout with ⟨hn, -⟩ | ⟨hn, -⟩ | ⟨-, range, hspace⟩
        · exact absurd hc hn
        · exact absurd hc hn
        · simp [loadImage, hspace]
      exact (loadImage_clean hfresh hfail).1.1 (h hfail).1 hc
    · intro hc hfail
      obtain ⟨h1, h2, h3⟩ := loadImage_clean hfresh hfail
      exact ⟨h1.2 hc, h2, h3⟩

/-- An image with a library it needs and a TLS segment, which fails at its relocations. -/
def sampleEnv : LoadEnv where
  memfd := 5
  size := some 4096
  source := some 0x10000
  layout := some ⟨0, 8192, [⟨true, 4096, true⟩, ⟨true, 4096, true⟩]⟩
  handleObject := true
  imageObject := true
  headerCopy := true
  reservation := some 0x20000
  metadataReady := true
  systemTls := false
  entries := [.other, .needed true true (some 7), .null]
  segment := ⟨0, 8, 8⟩
  created := true
  relocated := false
  restored := true
  relro := true

theorem clean_sample : Clean sampleEnv ⟨.initial, [], 0⟩ := by
  refine (clean_iff (.ofInit rfl) sampleEnv).2 ?_
  rintro ⟨-, -, -, -, layout, hlayout, -, h⟩
  cases hlayout
  rcases h with h | h
  · simp [programHeaderBytes] at h
  · cases h

/-- No memory for the copy of the program headers: the reservation is unmapped twice. -/
theorem not_clean : ¬ ∀ s, loader.Reach Lts.anyStep s → ∀ env, Clean env s := by
  intro h
  have hlog := (h ⟨.initial, [], 0⟩ (.ofInit rfl) { sampleEnv with headerCopy := false } rfl).1
  exact absurd hlog (by decide +kernel)

end YukiZygisk.Linker
