/-
# Exit callbacks (`module_cxa_atexit`, `module_cxa_finalize`, `drain_exit_callbacks`)

A module registers callbacks for its end, each with the `dso` that it belongs to.  They are kept in
the image that the `dso` lies in, the newest first.  `module_cxa_finalize` runs those of one `dso`,
and `dlclose` runs all that are left, one after the other: each is taken out of the list before it
runs, so that it can register others, finalize and unload.

The calls nest, on one thread: a callback runs inside the call that took it, and what it calls has
returned before the loop looks at the list again.  A second thread that runs code of an image while
`dlclose` unmaps it is outside the model, and breaks what `dlclose` expects of its caller.

**In every run each callback runs at most once, and exactly once by the time its image is unloaded;
it is the newest one that the call asks for; and it is run by a call for its own image**
(`callbacks_run`).  Callbacks of one image do not run in reverse order when a call asks only for
some of them (`not_reverse`).

The lists are the stacks by key of `Lib/KeyedStacks`, an image being the key, and a call of
`cxa_finalize` or of an unload is what wants items of it.  So the count and the order are those of
the library: an item is taken once, and after all newer ones that the call wants.  What this file
adds is which calls there are.  `Good` says that images which are registered are in use, that the
list of an image which is not in use is empty, and that an unload which is under way is about an
image that has been loaded.  The list stays empty behind an unload, because its drain goes on until
nothing is left and nothing can be registered for an image that is gone: a `dso` lies in one
registered image or in none (`Good.owner`).
-/
import YukiZygisk.Lib.KeyedStacks
import YukiZygisk.Lib.Lts

namespace YukiZygisk.ExitCallbacks

open KeyedStacks

/-! ## 1. Images, callbacks and calls -/

/-- `ExitCallback`, without its link. -/
structure Callback where
  function : ℕ
  argument : ℕ
  dso : ℕ
  deriving DecidableEq

/-- An image is registered and its initializers run; they have returned; it is unloaded. -/
inductive Phase where
  | unused
  | loading
  | ready
  | closed
  deriving DecidableEq

/-- A call of `drain_exit_callbacks` that is under way, by `module_cxa_finalize` or by
`dlclose`. -/
structure Call where
  image : ℕ
  dso : ℕ
  unload : Bool
  deriving DecidableEq

/-- The registered images in load order, with the memory of each; `g_initializing_image`; the calls
under way; and the callbacks of each image. -/
structure State where
  registered : List ℕ
  memory : ℕ → ℕ × ℕ
  phase : ℕ → Phase
  initializing : Option ℕ
  calls : List Call
  callbacks : Stacks ℕ Callback Call

/-- Whether a call asks for a callback of its image. -/
def Call.asks (call : Call) (callback : Callback) : Bool :=
  call.dso = 0 || callback.dso = call.dso

/-- `image_contains`. -/
def imageContains (s : State) (dso image : ℕ) : Bool :=
  (s.memory image).1 ≤ dso && dso < (s.memory image).1 + (s.memory image).2

/-- `find_exit_owner`. -/
def findExitOwner (s : State) (dso : ℕ) : Option ℕ :=
  if dso ≠ 0 then
    match s.registered.find? (imageContains s dso) with
    | some image => some image
    | none => s.initializing
  else s.initializing

/-- `module_cxa_atexit`; `memory` is whether there is memory for the callback. -/
def moduleCxaAtexit (s : State) (function argument dso : ℕ) (memory : Bool) : State :=
  if function = 0 then s
  else
    match findExitOwner s dso with
    | none => s
    | some owner =>
      if !memory then s else { s with callbacks := s.callbacks.push owner ⟨function, argument, dso⟩ }

/-- `module_cxa_finalize`, up to the loop. -/
def moduleCxaFinalize (s : State) (dso : ℕ) : State :=
  match findExitOwner s dso with
  | none => s
  | some owner => { s with calls := ⟨owner, dso, false⟩ :: s.calls }

/-- What `dlclose` does when the loop is over.  The run is on one thread, so nothing runs between the
last look at the list and the end of `unregister_image`. -/
def finishUnload (s : State) (image : ℕ) : State :=
  { s with
    registered := s.registered.filter (· ≠ image)
    phase := Function.update s.phase image .closed
    callbacks := { s.callbacks with pending := Function.update s.callbacks.pending image [] } }

/-- A turn of the loop of `drain_exit_callbacks`. -/
def drainTurn (s : State) (call : Call) : State :=
  match s.callbacks.take Call.image Call.asks call with
  | some callbacks => { s with callbacks := callbacks }
  | none =>
    let s := { s with calls := s.calls.erase call }
    if call.unload then finishUnload s call.image else s

/-! ## 2. Runs -/

/-- What a module, its callbacks and its finalizers can do, and the turns of the loops. -/
inductive Act where
  | dlopen (image base span : ℕ)
  | initReturn (image : ℕ)
  | atexit (function argument dso : ℕ) (memory : Bool)
  | finalize (dso : ℕ)
  | dlclose (image : ℕ)
  | drain (call : Call)

/-- One step.  Calls nest, but which of them goes on is left open.  An image whose initializers
have not returned is not unloaded. -/
def exitStep (s : State) : Act → Option State
  | .dlopen image base span =>
    if s.phase image = .unused then
      some { s with
        registered := s.registered ++ [image]
        memory := Function.update s.memory image (base, span)
        phase := Function.update s.phase image .loading
        initializing := some image }
    else none
  | .initReturn image =>
    if s.phase image = .loading then
      some { s with
        phase := Function.update s.phase image .ready
        initializing := if s.initializing = some image then none else s.initializing }
    else none
  | .atexit function argument dso memory => some (moduleCxaAtexit s function argument dso memory)
  | .finalize dso => some (moduleCxaFinalize s dso)
  | .dlclose image =>
    match s.phase image with
    | .ready => some { s with calls := ⟨image, 0, true⟩ :: s.calls }
    | .closed => some s
    | .loading | .unused => none
  | .drain call => if call ∈ s.calls then some (drainTurn s call) else none

def initial : State := ⟨[], fun _ => (0, 0), fun _ => .unused, none, [], empty⟩

def machine : Lts State Act := ⟨fun s => s = initial, exitStep⟩

/-! ## 3. What holds in every run -/

structure Good (s : State) : Prop where
  sound : Sound Call.image Call.asks s.callbacks
  live : ∀ image ∈ s.registered, s.phase image = .loading ∨ s.phase image = .ready
  initializing : ∀ image, s.initializing = some image → s.phase image = .loading
  quiet : ∀ image, s.phase image = .unused ∨ s.phase image = .closed →
    s.callbacks.pending image = []
  unloads : ∀ call ∈ s.calls, call.unload = true →
    call.dso = 0 ∧ s.phase call.image ≠ .loading ∧ s.phase call.image ≠ .unused

variable {s s' : State} {image dso : ℕ} {call : Call}

theorem good_initial : Good initial where
  sound := sound_empty
  live _ h := absurd h List.not_mem_nil
  initializing _ h := by cases h
  quiet _ _ := rfl
  unloads _ h := absurd h List.not_mem_nil

/-- A callback is registered for an image that is not unloaded yet. -/
theorem Good.owner (hg : Good s) (h : findExitOwner s dso = some image) :
    s.phase image = .loading ∨ s.phase image = .ready := by
  rw [findExitOwner] at h
  split_ifs at h with hdso
  · cases hfind : s.registered.find? (imageContains s dso) with
    | some found =>
      rw [hfind] at h
      obtain rfl := Option.some.inj h
      exact hg.live _ (List.mem_of_find?_eq_some hfind)
    | none =>
      rw [hfind] at h
      exact .inl (hg.initializing image h)
  · exact .inl (hg.initializing image h)

theorem Good.dlopen (hg : Good s) (hunused : s.phase image = .unused) (memory : ℕ → ℕ × ℕ) :
    Good { s with
      registered := s.registered ++ [image]
      memory := memory
      phase := Function.update s.phase image .loading
      initializing := some image } := by
  have hother : ∀ i, s.phase i ≠ .unused → Function.update s.phase image .loading i = s.phase i :=
    fun i hi => Function.update_of_ne (fun h => hi (by rw [h, hunused])) _ _
  refine ⟨hg.sound, ?_, ?_, ?_, ?_⟩
  · intro i hi
    rcases List.mem_append.mp hi with hi | hi
    · have hlive := hg.live i hi
      change Function.update s.phase image .loading i = _ ∨
        Function.update s.phase image .loading i = _
      rw [hother i (by rcases hlive with h | h <;> rw [h] <;> decide)]
      exact hlive
    · rw [List.mem_singleton.mp hi]
      exact .inl (Function.update_self ..)
  · intro i hi
    obtain rfl := Option.some.inj hi
    exact Function.update_self ..
  · intro i hi
    by_cases himage : i = image
    · subst himage
      change Function.update s.phase i .loading i = _ ∨ Function.update s.phase i .loading i = _
        at hi
      rw [Function.update_self] at hi
      rcases hi with h | h <;> cases h
    · change Function.update s.phase image .loading i = _ ∨
        Function.update s.phase image .loading i = _ at hi
      rw [Function.update_of_ne himage] at hi
      exact hg.quiet i hi
  · intro call hcall hunload
    obtain ⟨hdso, hloading, hused⟩ := hg.unloads call hcall hunload
    refine ⟨hdso, ?_⟩
    change Function.update s.phase image .loading call.image ≠ _ ∧
      Function.update s.phase image .loading call.image ≠ _
    rw [hother call.image hused]
    exact ⟨hloading, hused⟩

theorem Good.initReturn (hg : Good s) :
    Good { s with
      phase := Function.update s.phase image .ready
      initializing := if s.initializing = some image then none else s.initializing } := by
  have hother : ∀ i, i ≠ image → Function.update s.phase image .ready i = s.phase i :=
    fun i hi => Function.update_of_ne hi _ _
  have hself : Function.update s.phase image .ready image = .ready := Function.update_self ..
  refine ⟨hg.sound, ?_, ?_, ?_, ?_⟩
  · intro i hi
    dsimp only
    by_cases himage : i = image
    · rw [himage, hself]
      exact .inr rfl
    · rw [hother i himage]
      exact hg.live i hi
  · intro i hi
    dsimp only at hi ⊢
    split_ifs at hi with hinit
    rw [hother i fun h => hinit (h ▸ hi)]
    exact hg.initializing i hi
  · intro i hi
    dsimp only at hi ⊢
    by_cases himage : i = image
    · rw [himage, hself] at hi
      rcases hi with h | h <;> cases h
    · rw [hother i himage] at hi
      exact hg.quiet i hi
  · intro call hcall hunload
    obtain ⟨hdso, hloading, hused⟩ := hg.unloads call hcall hunload
    dsimp only
    by_cases himage : call.image = image
    · rw [himage, hself]
      exact ⟨hdso, by decide, by decide⟩
    · rw [hother call.image himage]
      exact ⟨hdso, hloading, hused⟩

/-- A registration goes on the list of the image that its `dso` lies in. -/
theorem Good.atexit (hg : Good s) (function argument dso : ℕ) (memory : Bool) :
    Good (moduleCxaAtexit s function argument dso memory) := by
  by_cases hfunction : function = 0
  · rw [moduleCxaAtexit, if_pos hfunction]
    exact hg
  · rw [moduleCxaAtexit, if_neg hfunction]
    split
    · exact hg
    · rename_i owner howner
      split_ifs
      · exact hg
      · refine ⟨hg.sound.push owner _, hg.live, hg.initializing, ?_, hg.unloads⟩
        intro i hi
        have hne : i ≠ owner := by
          rintro rfl
          rcases hg.owner howner with h | h <;> rw [h] at hi <;> rcases hi with hi | hi <;> cases hi
        exact (pending_push_of_ne hne).trans (hg.quiet i hi)

theorem Good.finalize (hg : Good s) (dso : ℕ) : Good (moduleCxaFinalize s dso) := by
  rw [moduleCxaFinalize]
  split
  · exact hg
  · refine ⟨hg.sound, hg.live, hg.initializing, hg.quiet, ?_⟩
    intro call hcall hunload
    rcases List.mem_cons.mp hcall with rfl | hcall
    · cases hunload
    · exact hg.unloads call hcall hunload

/-- A call that asks for all finds nothing only when nothing is left. -/
theorem pending_eq_nil (hdso : call.dso = 0)
    (h : s.callbacks.take Call.image Call.asks call = none) :
    s.callbacks.pending call.image = [] := by
  refine List.eq_nil_iff_forall_not_mem.mpr fun c hc => take_none h c hc ?_
  rw [Call.asks, hdso]
  rfl

/-- An unload that has drained its list ends. -/
theorem Good.finish (hg : Good s) (hphase : s.phase call.image ≠ .loading)
    (hnil : s.callbacks.pending call.image = []) : Good (finishUnload s call.image) := by
  have hpending : Function.update s.callbacks.pending call.image [] = s.callbacks.pending := by
    rw [← hnil, Function.update_eq_self]
  have hself : Function.update s.phase call.image .closed call.image = .closed :=
    Function.update_self ..
  have hother : ∀ i, i ≠ call.image → Function.update s.phase call.image .closed i = s.phase i :=
    fun i hi => Function.update_of_ne hi _ _
  rw [finishUnload, hpending]
  refine ⟨hg.sound, ?_, ?_, ?_, ?_⟩
  · intro i hi
    obtain ⟨hmem, hne⟩ := List.mem_filter.mp hi
    dsimp only
    rw [hother i (of_decide_eq_true hne)]
    exact hg.live i hmem
  · intro i hi
    have hloading := hg.initializing i hi
    dsimp only
    rw [hother i fun h => hphase (h ▸ hloading)]
    exact hloading
  · intro i hi
    dsimp only at hi ⊢
    by_cases himage : i = call.image
    · rw [himage, hnil]
    · rw [hother i himage] at hi
      exact hg.quiet i hi
  · intro c hc hunload
    obtain ⟨hdso, hloading, hused⟩ := hg.unloads c hc hunload
    dsimp only
    by_cases himage : c.image = call.image
    · rw [himage, hself]
      exact ⟨hdso, by decide, by decide⟩
    · rw [hother c.image himage]
      exact ⟨hdso, hloading, hused⟩

/-- **One turn of a drain** takes the newest callback that the call asks for. -/
theorem Good.drain (hg : Good s) (hcall : call ∈ s.calls) : Good (drainTurn s call) := by
  rw [drainTurn]
  cases htake : s.callbacks.take Call.image Call.asks call with
  | some callbacks =>
    refine ⟨hg.sound.take htake, hg.live, hg.initializing, ?_, hg.unloads⟩
    intro i hi
    obtain ⟨c, above, below, hstack, -, -, rfl⟩ := take_spec htake
    have hquiet := hg.quiet i hi
    have hne : i ≠ call.image := by
      rintro rfl
      rw [hstack] at hquiet
      exact absurd hquiet (by simp)
    exact (Function.update_of_ne hne _ _).trans hquiet
  | none =>
    have hgood : Good { s with calls := s.calls.erase call } :=
      ⟨hg.sound, hg.live, hg.initializing, hg.quiet,
        fun c hc => hg.unloads c (List.mem_of_mem_erase hc)⟩
    dsimp only
    split_ifs with hunload
    · obtain ⟨hdso, hphase, -⟩ := hg.unloads call hcall hunload
      exact hgood.finish hphase (pending_eq_nil hdso htake)
    · exact hgood

/-- Every step keeps what holds. -/
theorem good_step {act : Act} (hg : Good s) (h : exitStep s act = some s') : Good s' := by
  cases act with
  | dlopen image base span =>
    rw [exitStep] at h
    split_ifs at h with hunused
    obtain rfl := Option.some.inj h
    exact hg.dlopen hunused _
  | initReturn image =>
    rw [exitStep] at h
    by_cases hloading : s.phase image = .loading
    · rw [if_pos hloading] at h
      obtain rfl := Option.some.inj h
      exact hg.initReturn
    · rw [if_neg hloading] at h
      cases h
  | atexit function argument dso memory =>
    obtain rfl := Option.some.inj h
    exact hg.atexit function argument dso memory
  | finalize dso =>
    obtain rfl := Option.some.inj h
    exact hg.finalize dso
  | dlclose image =>
    rw [exitStep] at h
    cases hphase : s.phase image with
    | ready =>
      rw [hphase] at h
      obtain rfl := Option.some.inj h
      refine ⟨hg.sound, hg.live, hg.initializing, hg.quiet, ?_⟩
      intro call hcall hunload
      rcases List.mem_cons.mp hcall with rfl | hcall
      · exact ⟨rfl, by rw [hphase]; decide, by rw [hphase]; decide⟩
      · exact hg.unloads call hcall hunload
    | closed =>
      rw [hphase] at h
      obtain rfl := Option.some.inj h
      exact hg
    | loading =>
      rw [hphase] at h
      cases h
    | unused =>
      rw [hphase] at h
      cases h
  | drain call =>
    rw [exitStep] at h
    split_ifs at h with hcall
    obtain rfl := Option.some.inj h
    exact hg.drain hcall

theorem good_exec : ∀ (acts : List Act) (s s' : State), Good s →
    machine.exec s acts = some s' → Good s' := by
  intro acts
  induction acts with
  | nil =>
    intro s s' hg h
    obtain rfl := Option.some.inj h
    exact hg
  | cons act acts ih =>
    intro s s' hg h
    obtain ⟨t, ht, hrest⟩ := Option.bind_eq_some_iff.mp h
    exact ih t s' (good_step hg ht) hrest

/-- **Exit callbacks run once, the newest first, and only for their own image**: in every run of
registrations, finalizations and unloads, nested in any way, a callback runs at most once, and has
run exactly once when its image is unloaded; when it runs, all callbacks of the image that the call
asks for and that were registered after it have run; and the call is one for its image. -/
theorem callbacks_run {acts : List Act} (h : machine.exec initial acts = some s) :
    s.callbacks.taken.Nodup ∧ (∀ c ∈ s.callbacks.taken, c ∈ s.callbacks.history) ∧
      (∀ c ∈ s.callbacks.history, s.phase c.key = .closed → s.callbacks.taken.count c = 1) ∧
      (∀ before t after, s.callbacks.log = before ++ t :: after → ∀ c ∈ s.callbacks.history,
        c.key = t.item.key → t.call.asks c.value = true → t.item.serial < c.serial →
        c.serial < t.time → c ∈ before.map Taken.item) ∧
      ∀ t ∈ s.callbacks.log, t.item.key = t.call.image ∧ t.call.asks t.item.value = true := by
  have hg := good_exec acts initial s good_initial h
  refine ⟨hg.sound.once, hg.sound.taken_mem, fun c hc hclosed => ?_,
    fun before t after hlog c hc hkey hasks hserial htime => ?_, hg.sound.wanted⟩
  · refine List.count_eq_one_of_mem hg.sound.once ((hg.sound.kept c hc).resolve_left fun hmem => ?_)
    rw [hg.quiet c.key (.inr hclosed)] at hmem
    exact List.not_mem_nil hmem
  · have ht : t ∈ s.callbacks.log := hlog ▸ List.mem_append_right before List.mem_cons_self
    exact hg.sound.order before t after hlog c hc (hkey.trans (hg.sound.wanted t ht).1) hasks
      hserial htime

/-- Two callbacks of one image with a `dso` each; the first one's `dso` is finalized, and then the
image is unloaded. -/
def twoDsos : List Act :=
  [.dlopen 1 100 50, .initReturn 1, .atexit 7 0 110 true, .atexit 8 0 120 true, .finalize 110,
    .drain ⟨1, 110, false⟩, .drain ⟨1, 110, false⟩, .dlclose 1, .drain ⟨1, 0, true⟩,
    .drain ⟨1, 0, true⟩]

theorem callbacks_run_sample : ∃ s, machine.exec initial twoDsos = some s ∧
    s.phase 1 = .closed ∧ s.callbacks.taken.Nodup ∧
      ∀ c ∈ s.callbacks.history, s.phase c.key = .closed → s.callbacks.taken.count c = 1 :=
  ⟨_, rfl, rfl, (@callbacks_run _ twoDsos rfl).1,
    (@callbacks_run _ twoDsos rfl).2.2.1⟩

/-- The callback that was registered first runs first, though both are registered before. -/
theorem not_reverse : ∃ s, machine.exec initial twoDsos = some s ∧
    s.callbacks.log.map (fun t => (t.item.key, t.item.serial, t.time)) = [(1, 0, 2), (1, 1, 2)] :=
  ⟨_, rfl, rfl⟩

end YukiZygisk.ExitCallbacks
