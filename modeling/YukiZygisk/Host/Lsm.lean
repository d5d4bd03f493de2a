/-
# Hooks on the slots of the security modules (`kernel/host/lsm.c`)

A hook replaces a function pointer, the slot, in an entry of the kernel's list of security hooks,
and remembers a function to put back.  The slot is looked for by the function in it.  Where a
tracked hook is there already, the search takes the function that this hook replaced for the one in
the slot, and the new hook remembers that: **the one that is removed first writes it back while the
other one is still registered** (`not_slotsHeld`).

`slots_held`: as long as a hook is removed when it is alone on its slot, or when it remembers the
replacement of another hook there, every slot holds its original function or the replacement of a
hook that is registered on it.  `breaks_of_shared` says that this is the exact condition on a
removal.

Both versions of the adapter are modelled, the one for kernels with static calls (from 6.12 on) and
the one for kernels with lists of heads.

Four things a call can do to a hook: nothing (`Kept`), install it on a slot (`Installed`), take it
off (`Removed`), or fail halfway and leave it as it was.  `apply_cases` and `remove_cases` say so
for both versions, whichever of the steps fail, from one lemma for each loop of the search: what it
selects is a slot, with a function that was in it or that a tracked hook there has replaced
(`Found`, `select_spec`).  The invariant `Inv` says what every slot holds and what every registered
hook remembers.  With it, removing a hook puts back what it remembers, and that is right in the two
cases of the guard.  `breaks_of_shared` goes the other way: in a state with the invariant, a removal
outside of the guard leaves a function in the slot that no registered hook put there while one is
registered.
-/
import YukiZygisk.Basic
import YukiZygisk.Lib.Lts

namespace YukiZygisk.Lsm

/-! ## 1. The state -/

/-- The address of a function; zero is the null pointer. -/
abbrev Fn := ℕ

/-- How the kernel calls its security hooks. -/
inductive Version where
  | staticCalls
  | hookHeads
  deriving DecidableEq

/-- `struct yz_host_lsm_hook`. -/
structure Hook where
  targetName : Option (List UInt8)
  hookOffset : ℕ
  replacement : Fn
  offset : ℤ
  original : Fn
  /-- The entry whose slot is hooked, while the hook is registered. -/
  entry : Option ℕ
  scall : Option ℕ
  deriving DecidableEq

/-- The slot of a registered hook. -/
def Hook.slot (h : Hook) : Option ℕ := h.entry.map (· + h.hookOffset)

/-- The static variables of `yz_lsm_hook_apply`. -/
structure Statics where
  scallsAddr : ℕ
  scallsCount : ℕ
  lsmMaxCnt : ℕ
  deriving DecidableEq

/-- The slots and the static calls of the kernel, the hooks, and the tracking table. -/
structure State where
  slots : ℕ → Fn
  scalls : ℕ → Fn
  hooks : ℕ → Hook
  tracked : List ℕ
  statics : Statics

/-- What a call finds in the kernel, and which of its text patches succeed. -/
structure Env where
  lookupCallable : List UInt8 → Fn
  /-- The address of `static_calls_table` or of `security_hook_heads`. -/
  lookupTable : ℕ
  /-- The size of the table, and of a static call in it. -/
  tableSize : ℕ
  scallSize : ℕ
  lsmActiveCnt : Option ℕ
  /-- The entry of a static call. -/
  hl : ℕ → Option ℕ
  /-- The entries of each head. -/
  heads : List (List ℕ)
  patchText : ℕ → Bool

def EALREADY : Errno := .other 114
def ENOSYS : Errno := .other 38

/-- `ARRAY_SIZE(yz_lsm_hook_entries)`. -/
def trackingSize : ℕ := 16

/-- `yz_lsm_hook_track`: the table, or `-ENOSPC`. -/
def yzLsmHookTrack (tracked : List ℕ) (id : ℕ) : Option (List ℕ) :=
  if id ∈ tracked then some tracked
  else if trackingSize ≤ tracked.length then none
  else some (tracked ++ [id])

/-- `yz_lsm_hook_untrack`: the last entry of the table takes the place of the hook. -/
def yzLsmHookUntrack (tracked : List ℕ) (id : ℕ) : List ℕ :=
  match tracked.findIdx? (· = id) with
  | none => tracked
  | some i => (tracked.set i (tracked.getLastD id)).dropLast

/-- `yz_lsm_hook_patch_slot`: whether it succeeds is the kernel's. -/
def yzLsmHookPatchSlot (slots : ℕ → Fn) (slot : ℕ) (value : Fn) : ℕ → Fn :=
  Function.update slots slot value

/-- `yz_lsm_hook_update_scall`, which always returns zero. -/
def yzLsmHookUpdateScall (scalls : ℕ → Fn) (scall : Option ℕ) (value : Fn) : (ℕ → Fn) × ℕ :=
  match scall with
  | some i => (Function.update scalls i value, 0)
  | none => (scalls, 0)

/-! ## 2. The search for the slot -/

/-- The function in a slot as the search sees it: that of a tracked hook stands for the function it
replaced. -/
def resolve (s : State) (origin : Fn) : Fn :=
  match s.tracked.find? fun j => (s.hooks j).replacement = origin with
  | some j => (s.hooks j).original
  | none => origin

/-- A slot to be hooked, and the function that the hook will remember. -/
structure Selected where
  entry : ℕ
  scall : Option ℕ
  slot : ℕ
  origin : Fn

/-- One turn of the loop over the static calls; `none` when it goes on. -/
def scallTurn (s : State) (env : Env) (h : Hook) (target : Fn) (i : ℕ) :
    Option (Except Errno Selected) :=
  match env.hl i with
  | none => none
  | some entry =>
    let origin := resolve s (s.slots (entry + h.hookOffset))
    if origin = h.replacement then some (.error EALREADY)
    else if origin ≠ target then none
    else if h.offset = 0 then some (.ok ⟨entry, some i, entry + h.hookOffset, origin⟩)
    else
      let maxCnt := s.statics.lsmMaxCnt
      -- in `size_t`
      let hookIdx := (((i / maxCnt : ℕ) + h.offset) * maxCnt % 2 ^ 64).toNat
      if s.statics.scallsCount ≤ hookIdx then some (.error .EINVAL)
      else
        match env.hl hookIdx with
        | none => some (.error .ENOENT)
        | some entry =>
          let origin := s.slots (entry + h.hookOffset)
          if origin = h.replacement then some (.error EALREADY)
          else some (.ok ⟨entry, some hookIdx, entry + h.hookOffset, origin⟩)

/-- The loop over the static calls. -/
def selectScall (s : State) (env : Env) (h : Hook) (target : Fn) : Except Errno Selected :=
  ((List.range s.statics.scallsCount).findSome? (scallTurn s env h target)).getD (.error .ENOENT)

/-- One turn of the loop over the entries of a head. -/
def entryTurn (s : State) (h : Hook) (target : Fn) (entry : ℕ) : Option (Except Errno Selected) :=
  let origin := resolve s (s.slots (entry + h.hookOffset))
  if origin = h.replacement then some (.error EALREADY)
  else if origin = target then some (.ok ⟨entry, none, entry + h.hookOffset, origin⟩)
  else none

/-- The loop over the heads: the number of the head at which it stops. -/
def headLoop (s : State) (h : Hook) (target : Fn) :
    ℕ → List (List ℕ) → Option (ℕ × Except Errno Selected)
  | _, [] => none
  | i, entries :: heads =>
    match entries.findSome? (entryTurn s h target) with
    | some r => some (i, r)
    | none => headLoop s h target (i + 1) heads

/-- The first entry of the head that stands `offset` heads further. -/
def selectAtOffset (s : State) (env : Env) (h : Hook) (i : ℕ) : Except Errno Selected :=
  if i + h.offset < 0 ∨ env.heads.length ≤ i + h.offset then .error .EINVAL
  else
    let entries := env.heads.getD (i + h.offset).toNat []
    if entries.any fun entry => s.slots (entry + h.hookOffset) = h.replacement then
      .error EALREADY
    else
      match entries with
      | [] => .error .ENOENT
      | entry :: _ =>
        .ok ⟨entry, none, entry + h.hookOffset, s.slots (entry + h.hookOffset)⟩

/-- The search in the lists of heads. -/
def selectHead (s : State) (env : Env) (h : Hook) (target : Fn) : Except Errno Selected :=
  match headLoop s h target 0 env.heads with
  | none => .error .ENOENT
  | some (_, .error e) => .error e
  | some (i, .ok sel) => if h.offset = 0 then .ok sel else selectAtOffset s env h i

/-- The static variables after the first part of the call, or why it ends there. -/
def prepareScalls (statics : Statics) (env : Env) : Statics × Except Errno Unit :=
  let statics := if statics.scallsAddr = 0 then
    { statics with scallsAddr := env.lookupTable } else statics
  if statics.scallsAddr = 0 then (statics, .error ENOSYS)
  else
    let active := env.lsmActiveCnt.getD 5
    let statics :=
      if statics.scallsCount ≠ 0 ∨ active = 0 ∨ 20 < active then statics
      else { statics with lsmMaxCnt := active, scallsCount := env.tableSize / env.scallSize }
    if statics.scallsCount = 0 then (statics, .error ENOSYS) else (statics, .ok ())

/-- The search of either version. -/
def select (version : Version) (s : State) (env : Env) (h : Hook) (target : Fn) :
    State × Except Errno Selected :=
  match version with
  | .staticCalls =>
    let (statics, r) := prepareScalls s.statics env
    let s := { s with statics := statics }
    match r with
    | .error e => (s, .error e)
    | .ok () => (s, selectScall s env h target)
  | .hookHeads =>
    if env.lookupTable = 0 then (s, .error .ENOENT) else (s, selectHead s env h target)

/-! ## 3. Registering and removing a hook -/

/-- The hook of a slot that has been patched. -/
def Hook.registered (h : Hook) (sel : Selected) : Hook :=
  { h with entry := some sel.entry, scall := sel.scall, original := sel.origin }

/-- The part of `yz_lsm_hook_apply` behind the search. -/
def patchSelected (version : Version) (s : State) (id : ℕ) (sel : Selected) (env : Env) :
    State × Except Errno Unit :=
  let h := s.hooks id
  match yzLsmHookTrack s.tracked id with
  | none => (s, .error .ENOSPC)
  | some tracked =>
    if !env.patchText 0 then
      ({ s with tracked := yzLsmHookUntrack tracked id }, .error .EFAULT)
    else
      let slots := yzLsmHookPatchSlot s.slots sel.slot h.replacement
      let hooks := Function.update s.hooks id (h.registered sel)
      match version with
      | .staticCalls =>
        let (scalls, ret) := yzLsmHookUpdateScall s.scalls sel.scall h.replacement
        if ret ≠ 0 then
          let slots := if env.patchText 1 then yzLsmHookPatchSlot slots sel.slot sel.origin
            else slots
          ({ s with slots := slots, scalls := scalls,
                    tracked := yzLsmHookUntrack tracked id }, .error .EFAULT)
        else ({ s with slots := slots, scalls := scalls, hooks := hooks, tracked := tracked }, .ok ())
      | .hookHeads => ({ s with slots := slots, hooks := hooks, tracked := tracked }, .ok ())

/-- `yz_lsm_hook_apply`. -/
def yzLsmHookApply (version : Version) (s : State) (hook : Option ℕ) (env : Env) :
    State × Except Errno Unit :=
  match hook with
  | none => (s, .error .EINVAL)
  | some id =>
    let h := s.hooks id
    if h.replacement = 0 then (s, .error .EINVAL)
    else if h.entry.isSome then (s, .error EALREADY)
    else
      match h.targetName with
      | none => (s, .error .EINVAL)
      | some targetName =>
        let target := if h.original = 0 then env.lookupCallable targetName else h.original
        if target = 0 then (s, .error .ENOENT)
        else
          match select version s env h target with
          | (s, .error e) => (s, .error e)
          | (s, .ok sel) => patchSelected version s id sel env

/-- The end of `yz_lsm_hook_remove`. -/
def forget (s : State) (id : ℕ) : State :=
  { s with
    hooks := Function.update s.hooks id { s.hooks id with entry := none, scall := none }
    tracked := yzLsmHookUntrack s.tracked id }

/-- `yz_lsm_hook_remove`. -/
def yzLsmHookRemove (version : Version) (s : State) (id : ℕ) (env : Env) : State :=
  let h := s.hooks id
  match h.slot with
  | none => s
  | some slot =>
    if version = .staticCalls ∧ h.scall = none then s
    else if !env.patchText 0 then s
    else
      let slots := yzLsmHookPatchSlot s.slots slot h.original
      match version with
      | .staticCalls =>
        let (scalls, ret) := yzLsmHookUpdateScall s.scalls h.scall h.original
        if ret ≠ 0 then
          { s with
            slots := if env.patchText 1 then yzLsmHookPatchSlot slots slot h.replacement else slots
            scalls := scalls }
        else forget { s with slots := slots, scalls := scalls } id
      | .hookHeads => forget { s with slots := slots } id

/-- The calls. -/
inductive Action where
  | register (hook : Option ℕ) (env : Env)
  | unregister (hook : ℕ) (env : Env)

/-- The adapter on a kernel with the given functions in its slots. -/
def lsm (version : Version) (orig : ℕ → Fn) : Lts State Action where
  init s := s.slots = orig ∧ (∀ id, (s.hooks id).entry = none) ∧ s.tracked = [] ∧
    s.statics = ⟨0, 0, 5⟩
  step s
    | .register hook env => some (yzLsmHookApply version s hook env).1
    | .unregister hook env => some (yzLsmHookRemove version s hook env)

/-! ## 4. What a call does -/

variable {version : Version} {orig : ℕ → Fn} {s s' : State} {env : Env} {h : Hook} {target : Fn}
  {id id' slot : ℕ} {sel : Selected}

theorem mem_untrack {tracked : List ℕ} {j : ℕ} (h : j ∈ yzLsmHookUntrack tracked id) :
    j ∈ tracked ∨ j = id := by
  rw [yzLsmHookUntrack] at h
  split at h
  · exact .inl h
  rcases List.mem_or_eq_of_mem_set (List.mem_of_mem_dropLast h) with h | rfl
  · exact .inl h
  · rcases tracked.eq_nil_or_concat with rfl | ⟨l, a, rfl⟩
    · exact .inr rfl
    · exact .inl (by simp)

theorem mem_track {tracked tracked' : List ℕ} (h : yzLsmHookTrack tracked id = some tracked')
    {j : ℕ} (hj : j ∈ tracked') : j ∈ tracked ∨ j = id := by
  rw [yzLsmHookTrack] at h
  split_ifs at h
  · obtain rfl := Option.some.inj h
    exact .inl hj
  · obtain rfl := Option.some.inj h
    simpa using hj

/-- What the search finds: a slot, with the function in it or the one that this stands for. -/
structure Selected.Found (sel : Selected) (s : State) (h : Hook) : Prop where
  slot : sel.slot = sel.entry + h.hookOffset
  origin : sel.origin = s.slots sel.slot ∨ sel.origin = resolve s (s.slots sel.slot)

theorem found_scallTurn {i : ℕ} (hs : scallTurn s env h target i = some (.ok sel)) :
    sel.Found s h := by
  unfold scallTurn at hs
  split at hs
  · cases hs
  dsimp only at hs
  split_ifs at hs with hsame htarget hoff hout
  · cases hs
  · cases hs
    exact ⟨rfl, .inr rfl⟩
  · cases hs
  · split at hs
    · cases hs
    · split_ifs at hs
      · cases hs
      · cases hs
        exact ⟨rfl, .inl rfl⟩

/-- A slot that the search of static calls gives is one it has found. -/
theorem found_selectScall (hs : selectScall s env h target = .ok sel) : sel.Found s h := by
  unfold selectScall at hs
  rcases hf : (List.range s.statics.scallsCount).findSome? (scallTurn s env h target) with _ | r
  · rw [hf] at hs
    cases hs
  · rw [hf] at hs
    obtain ⟨i, -, hi⟩ := List.exists_of_findSome?_eq_some hf
    obtain rfl : r = .ok sel := hs
    exact found_scallTurn hi

theorem found_entryTurn {entry : ℕ} (hs : entryTurn s h target entry = some (.ok sel)) :
    sel.Found s h := by
  unfold entryTurn at hs
  dsimp only at hs
  split_ifs at hs
  · cases hs
  · cases hs
    exact ⟨rfl, .inr rfl⟩

theorem found_headLoop {heads : List (List ℕ)} {i j : ℕ}
    (hs : headLoop s h target i heads = some (j, .ok sel)) : sel.Found s h := by
  induction heads generalizing i with
  | nil => cases hs
  | cons entries heads ih =>
    rw [headLoop] at hs
    split at hs
    · rename_i r hr
      obtain ⟨entry, -, hentry⟩ := List.exists_of_findSome?_eq_some hr
      cases hs
      exact found_entryTurn hentry
    · exact ih hs

theorem found_selectAtOffset {i : ℕ} (hs : selectAtOffset s env h i = .ok sel) :
    sel.Found s h := by
  unfold selectAtOffset at hs
  split_ifs at hs
  dsimp only at hs
  split_ifs at hs
  split at hs
  · cases hs
  · cases hs
    exact ⟨rfl, .inl rfl⟩

theorem found_selectHead (hs : selectHead s env h target = .ok sel) : sel.Found s h := by
  unfold selectHead at hs
  split at hs
  · cases hs
  · cases hs
  · rename_i i sel' hloop
    split_ifs at hs
    · cases hs
      exact found_headLoop hloop
    · exact found_selectAtOffset hs

/-- The search changes nothing but the static variables. -/
theorem select_spec {r : Except Errno Selected}
    (hs : select version s env h target = (s', r)) :
    (∃ statics, s' = { s with statics := statics }) ∧ ∀ sel, r = .ok sel → sel.Found s' h := by
  cases version with
  | staticCalls =>
    unfold select at hs
    dsimp only at hs
    split at hs
    · cases hs
      exact ⟨⟨_, rfl⟩, nofun⟩
    · cases hs
      exact ⟨⟨_, rfl⟩, fun sel hsel => found_selectScall hsel⟩
  | hookHeads =>
    unfold select at hs
    dsimp only at hs
    split_ifs at hs
    · cases hs
      exact ⟨⟨s.statics, rfl⟩, nofun⟩
    · cases hs
      exact ⟨⟨s.statics, rfl⟩, fun sel hsel => found_selectHead hsel⟩

/-- A call after which every slot and every hook is as before. -/
structure Kept (id : ℕ) (s s' : State) : Prop where
  slots : s'.slots = s.slots
  hooks : s'.hooks = s.hooks
  tracked : ∀ j ∈ s'.tracked, j ∈ s.tracked ∨ j = id

/-- A call that has registered a hook. -/
structure Installed (id : ℕ) (sel : Selected) (s s' : State) : Prop where
  unregistered : (s.hooks id).entry = none
  found : sel.Found s (s.hooks id)
  slots : s'.slots = Function.update s.slots sel.slot (s.hooks id).replacement
  hooks : s'.hooks = Function.update s.hooks id ((s.hooks id).registered sel)
  tracked : ∀ j ∈ s'.tracked, j ∈ s.tracked ∨ j = id

/-- A call that has removed a hook. -/
structure Removed (id slot : ℕ) (s s' : State) : Prop where
  registered : (s.hooks id).slot = some slot
  slots : s'.slots = Function.update s.slots slot (s.hooks id).original
  hooks : s'.hooks =
    Function.update s.hooks id { s.hooks id with entry := none, scall := none }
  tracked : ∀ j ∈ s'.tracked, j ∈ s.tracked ∨ j = id

theorem Kept.refl (id : ℕ) (s : State) : Kept id s s := ⟨rfl, rfl, fun _ h => .inl h⟩

theorem updateScall_ret (scalls : ℕ → Fn) (scall : Option ℕ) (value : Fn) :
    (yzLsmHookUpdateScall scalls scall value).2 = 0 := by
  cases scall <;> rfl

/-- Patching the slot installs the hook, or fails and leaves everything as it was. -/
theorem patchSelected_cases (version : Version) (env : Env) (hun : (s.hooks id).entry = none)
    (hsel : sel.Found s (s.hooks id)) :
    Kept id s (patchSelected version s id sel env).1 ∨
      Installed id sel s (patchSelected version s id sel env).1 := by
  unfold patchSelected
  dsimp only
  split
  · exact .inl (Kept.refl id s)
  rename_i tracked htrack
  by_cases hpatch : (!env.patchText 0) = true
  · rw [if_pos hpatch]
    exact .inl ⟨rfl, rfl, fun j hj => (mem_untrack hj).elim (mem_track htrack) .inr⟩
  · rw [if_neg hpatch]
    cases version with
    | staticCalls =>
      refine .inr ?_
      simp only [updateScall_ret, ne_eq, not_true_eq_false, if_false]
      exact ⟨hun, hsel, rfl, rfl, fun j hj => mem_track htrack hj⟩
    | hookHeads => exact .inr ⟨hun, hsel, rfl, rfl, fun j hj => mem_track htrack hj⟩

/-- **What registering a hook can do.** -/
theorem apply_cases (version : Version) (s : State) (id : ℕ) (env : Env) :
    Kept id s (yzLsmHookApply version s (some id) env).1 ∨
      ∃ sel, Installed id sel s (yzLsmHookApply version s (some id) env).1 := by
  unfold yzLsmHookApply
  dsimp only
  by_cases hnull : (s.hooks id).replacement = 0
  · rw [if_pos hnull]
    exact .inl (Kept.refl id s)
  by_cases hentry : (s.hooks id).entry.isSome = true
  · rw [if_neg hnull, if_pos hentry]
    exact .inl (Kept.refl id s)
  rw [if_neg hnull, if_neg hentry]
  have hun : (s.hooks id).entry = none := by simpa using hentry
  split
  · exact .inl (Kept.refl id s)
  rename_i targetName _
  generalize (if (s.hooks id).original = 0 then env.lookupCallable targetName
    else (s.hooks id).original) = target
  by_cases htarget : target = 0
  · rw [if_pos htarget]
    exact .inl (Kept.refl id s)
  rw [if_neg htarget]
  rcases hs : select version s env (s.hooks id) target with ⟨s', r⟩
  obtain ⟨⟨statics, rfl⟩, hfound⟩ := select_spec hs
  cases r with
  | error e => exact .inl ⟨rfl, rfl, fun _ h => .inl h⟩
  | ok sel =>
    have hsel := hfound sel rfl
    have hfound' : sel.Found s (s.hooks id) := ⟨hsel.slot, hsel.origin⟩
    have hun' : (({ s with statics := statics } : State).hooks id).entry = none := hun
    rcases patchSelected_cases version env hun' hsel with h | h
    · exact .inl ⟨h.slots, h.hooks, h.tracked⟩
    · exact .inr ⟨sel, hun, hfound', h.slots, h.hooks, h.tracked⟩

/-- **What removing a hook can do.** -/
theorem remove_cases (version : Version) (s : State) (id : ℕ) (env : Env) :
    yzLsmHookRemove version s id env = s ∨
      ∃ slot, Removed id slot s (yzLsmHookRemove version s id env) := by
  unfold yzLsmHookRemove
  dsimp only
  split
  · exact .inl rfl
  rename_i slot hslot
  by_cases hscall : version = .staticCalls ∧ (s.hooks id).scall = none
  · exact .inl (if_pos hscall)
  rw [if_neg hscall]
  by_cases hpatch : (!env.patchText 0) = true
  · exact .inl (if_pos hpatch)
  rw [if_neg hpatch]
  refine .inr ⟨slot, ?_⟩
  cases version with
  | staticCalls =>
    simp only [updateScall_ret, ne_eq, not_true_eq_false, if_false]
    exact ⟨hslot, rfl, rfl, fun j hj => mem_untrack hj⟩
  | hookHeads => exact ⟨hslot, rfl, rfl, fun j hj => mem_untrack hj⟩

/-! ## 5. What the slots hold -/

/-- A hook is registered on a slot. -/
def RegisteredAt (s : State) (id slot : ℕ) : Prop := (s.hooks id).slot = some slot

/-- **The guarantee**: a slot with no hook holds its original function, a slot with hooks holds the
replacement of one of them. -/
structure SlotsHeld (orig : ℕ → Fn) (s : State) : Prop where
  free : ∀ slot, (∀ id, ¬ RegisteredAt s id slot) → s.slots slot = orig slot
  held : ∀ slot id, RegisteredAt s id slot →
    ∃ id', RegisteredAt s id' slot ∧ s.slots slot = (s.hooks id').replacement

/-- A replacement is the original function of no slot. -/
def Fresh (orig : ℕ → Fn) (h : Hook) : Prop := ∀ slot, orig slot ≠ h.replacement

/-- The hook is alone on its slot, or it remembers the replacement of another hook there. -/
def OnTop (s : State) (id : ℕ) : Prop :=
  ∀ slot, RegisteredAt s id slot → (∀ id', RegisteredAt s id' slot → id' = id) ∨
    ∃ id', id' ≠ id ∧ RegisteredAt s id' slot ∧ (s.hooks id').replacement = (s.hooks id).original

/-- The guard: new functions are registered, and hooks are removed from the top. -/
def topFirst (orig : ℕ → Fn) (s : State) : Action → Prop
  | .register hook _ => ∀ id, hook = some id → Fresh orig (s.hooks id)
  | .unregister id _ => OnTop s id

/-- What holds in every state of a guarded run.  One hook on each slot with hooks remembers the
slot's original function. -/
structure Inv (orig : ℕ → Fn) (s : State) : Prop where
  held : SlotsHeld orig s
  ground : ∀ slot id, RegisteredAt s id slot →
    ∃ g, RegisteredAt s g slot ∧ (s.hooks g).original = orig slot
  freshTracked : ∀ id ∈ s.tracked, Fresh orig (s.hooks id)
  freshRegistered : ∀ slot id, RegisteredAt s id slot → Fresh orig (s.hooks id)

/-- In a slot without hooks no tracked hook stands for another function. -/
theorem Inv.resolve (h : Inv orig s) (slot : ℕ) : resolve s (orig slot) = orig slot := by
  unfold Lsm.resolve
  split
  · rename_i j hj
    obtain ⟨-, hmem⟩ := List.find?_eq_some_iff_append.mp hj
    have hrep := List.find?_some hj
    exact absurd (by simpa using hrep) (h.freshTracked j (List.mem_of_find?_eq_some hj) slot).symm
  · rfl

/-! ## 6. Every call keeps the invariant -/

theorem registeredAt_unique {slot' : ℕ} (h : RegisteredAt s id slot)
    (h' : RegisteredAt s id slot') : slot' = slot :=
  Option.some.inj (h'.symm.trans h)

/-- A call that changes nothing of the slots keeps the invariant. -/
theorem Inv.kept (h : Inv orig s) (hk : Kept id s s') (hfresh : Fresh orig (s.hooks id)) :
    Inv orig s' := by
  have hreg : ∀ j slot, RegisteredAt s' j slot ↔ RegisteredAt s j slot := fun j slot => by
    rw [RegisteredAt, RegisteredAt, hk.hooks]
  refine ⟨⟨fun slot hfree => ?_, fun slot j hj => ?_⟩, fun slot j hj => ?_, fun j hj => ?_,
    fun slot j hj => ?_⟩
  · rw [hk.slots]
    exact h.held.free slot fun j hj => hfree j ((hreg j slot).mpr hj)
  · obtain ⟨k, hk1, hk2⟩ := h.held.held slot j ((hreg j slot).mp hj)
    refine ⟨k, (hreg k slot).mpr hk1, ?_⟩
    rw [hk.slots, hk.hooks]
    exact hk2
  · obtain ⟨g, hg, horig⟩ := h.ground slot j ((hreg j slot).mp hj)
    refine ⟨g, (hreg g slot).mpr hg, ?_⟩
    rw [hk.hooks]
    exact horig
  · rw [hk.hooks]
    rcases hk.tracked j hj with hj | rfl
    · exact h.freshTracked j hj
    · exact hfresh
  · rw [hk.hooks]
    exact h.freshRegistered slot j ((hreg j slot).mp hj)

/-- A hook that is registered is on its slot; the others are where they were. -/
theorem Installed.registeredAt (hi : Installed id sel s s') (j slot : ℕ) :
    RegisteredAt s' j slot ↔ RegisteredAt s j slot ∨ (j = id ∧ slot = sel.slot) := by
  rw [RegisteredAt, RegisteredAt, hi.hooks]
  by_cases hj : j = id
  · subst hj
    have hold : (s.hooks j).slot = none := by rw [Hook.slot, hi.unregistered]; rfl
    have hnew : ((s.hooks j).registered sel).slot = some sel.slot := by
      rw [hi.found.slot]
      rfl
    rw [Function.update_self, hold, hnew]
    simp [eq_comm]
  · rw [Function.update_of_ne hj]
    simp [hj]

theorem Installed.replacement (hi : Installed id sel s s') (j : ℕ) :
    (s'.hooks j).replacement = (s.hooks j).replacement := by
  rw [hi.hooks]
  by_cases hj : j = id
  · subst hj
    rw [Function.update_self]
    rfl
  · rw [Function.update_of_ne hj]

/-- **Registering keeps the invariant**: on an empty slot the new hook remembers the original
function, on the others there is one that does. -/
theorem Inv.installed (h : Inv orig s) (hi : Installed id sel s s')
    (hfresh : Fresh orig (s.hooks id)) : Inv orig s' := by
  have hhere : RegisteredAt s' id sel.slot := (hi.registeredAt id sel.slot).mpr (.inr ⟨rfl, rfl⟩)
  have hfresh' : ∀ j, Fresh orig (s.hooks j) → Fresh orig (s'.hooks j) := fun j hj slot => by
    rw [hi.replacement j]
    exact hj slot
  refine ⟨⟨fun slot hfree => ?_, fun slot j hj => ?_⟩, fun slot j hj => ?_, fun j hj => ?_,
    fun slot j hj => ?_⟩
  · have hne : slot ≠ sel.slot := by
      rintro rfl
      exact hfree id hhere
    rw [hi.slots, Function.update_of_ne hne]
    exact h.held.free slot fun j hj => hfree j ((hi.registeredAt j slot).mpr (.inl hj))
  · by_cases hslot : slot = sel.slot
    · subst hslot
      refine ⟨id, hhere, ?_⟩
      rw [hi.slots, Function.update_self, hi.replacement]
    · rcases (hi.registeredAt j slot).mp hj with hj | ⟨-, hj⟩
      · obtain ⟨k, hk1, hk2⟩ := h.held.held slot j hj
        refine ⟨k, (hi.registeredAt k slot).mpr (.inl hk1), ?_⟩
        rw [hi.slots, Function.update_of_ne hslot, hi.replacement]
        exact hk2
      · exact absurd hj hslot
  · by_cases hold : ∃ k, RegisteredAt s k slot
    · obtain ⟨k, hk⟩ := hold
      obtain ⟨g, hg, horig⟩ := h.ground slot k hk
      refine ⟨g, (hi.registeredAt g slot).mpr (.inl hg), ?_⟩
      have hne : g ≠ id := by
        rintro rfl
        rw [RegisteredAt, Hook.slot, hi.unregistered] at hg
        cases hg
      rw [hi.hooks, Function.update_of_ne hne]
      exact horig
    · rcases (hi.registeredAt j slot).mp hj with hj | ⟨rfl, rfl⟩
      · exact absurd ⟨j, hj⟩ hold
      refine ⟨j, hhere, ?_⟩
      have hempty : s.slots sel.slot = orig sel.slot :=
        h.held.free sel.slot fun k hk => hold ⟨k, hk⟩
      have horigin : sel.origin = orig sel.slot := by
        rcases hi.found.origin with ho | ho
        · exact ho.trans hempty
        · rw [ho, hempty]
          exact h.resolve sel.slot
      rw [hi.hooks, Function.update_self]
      exact horigin
  · rcases hi.tracked j hj with hj | rfl
    · exact hfresh' j (h.freshTracked j hj)
    · exact hfresh' j hfresh
  · rcases (hi.registeredAt j slot).mp hj with hj | ⟨rfl, -⟩
    · exact hfresh' j (h.freshRegistered slot j hj)
    · exact hfresh' j hfresh

/-- A hook that is removed is on no slot; the others are where they were. -/
theorem Removed.registeredAt (hr : Removed id slot s s') (j slot' : ℕ) :
    RegisteredAt s' j slot' ↔ j ≠ id ∧ RegisteredAt s j slot' := by
  rw [RegisteredAt, RegisteredAt, hr.hooks]
  by_cases hj : j = id
  · subst hj
    rw [Function.update_self]
    simp [Hook.slot]
  · rw [Function.update_of_ne hj]
    simp [hj]

theorem Removed.hook (hr : Removed id slot s s') {j : ℕ} (hj : j ≠ id) :
    s'.hooks j = s.hooks j := by
  rw [hr.hooks, Function.update_of_ne hj]

theorem Removed.replacement (hr : Removed id slot s s') (j : ℕ) :
    (s'.hooks j).replacement = (s.hooks j).replacement := by
  by_cases hj : j = id
  · subst hj
    rw [hr.hooks, Function.update_self]
  · rw [hr.hook hj]

/-- **Removing from the top keeps the invariant.** -/
theorem Inv.removed (h : Inv orig s) (hr : Removed id slot s s') (htop : OnTop s id) :
    Inv orig s' := by
  have hhere : RegisteredAt s id slot := hr.registered
  obtain ⟨g, hg, horig⟩ := h.ground slot id hhere
  refine ⟨⟨fun slot' hfree => ?_, fun slot' j hj => ?_⟩, fun slot' j hj => ?_, fun j hj => ?_,
    fun slot' j hj => ?_⟩
  · by_cases hslot : slot' = slot
    · subst hslot
      -- no other hook is left, so the removed one was the one that remembers the original function
      have halone : ∀ k, RegisteredAt s k slot' → k = id := fun k hk => by
        by_contra hne
        exact hfree k ((hr.registeredAt k slot').mpr ⟨hne, hk⟩)
      rw [hr.slots, Function.update_self, ← halone g hg]
      exact horig
    · rw [hr.slots, Function.update_of_ne hslot]
      refine h.held.free slot' fun k hk => hfree k ((hr.registeredAt k slot').mpr ⟨?_, hk⟩)
      rintro rfl
      exact hslot (registeredAt_unique hhere hk)
  · obtain ⟨hne, hj⟩ := (hr.registeredAt j slot').mp hj
    by_cases hslot : slot' = slot
    · subst hslot
      rcases htop slot' hhere with halone | ⟨k, hk, hkreg, hkrep⟩
      · exact absurd (halone j hj) hne
      · refine ⟨k, (hr.registeredAt k slot').mpr ⟨hk, hkreg⟩, ?_⟩
        rw [hr.slots, Function.update_self, hr.hook hk, hkrep]
    · obtain ⟨k, hk1, hk2⟩ := h.held.held slot' j hj
      have hk : k ≠ id := by
        rintro rfl
        exact hslot (registeredAt_unique hhere hk1)
      refine ⟨k, (hr.registeredAt k slot').mpr ⟨hk, hk1⟩, ?_⟩
      rw [hr.slots, Function.update_of_ne hslot, hr.hook hk]
      exact hk2
  · obtain ⟨hne, hj⟩ := (hr.registeredAt j slot').mp hj
    obtain ⟨g', hg', horig'⟩ := h.ground slot' j hj
    have hg'ne : g' ≠ id := by
      rintro rfl
      obtain rfl := registeredAt_unique hhere hg'
      rcases htop slot' hhere with halone | ⟨k, -, hkreg, hkrep⟩
      · exact hne (halone j hj)
      · -- the function put back would be a replacement and an original one
        exact h.freshRegistered slot' k hkreg slot' (horig'.symm.trans hkrep.symm)
    exact ⟨g', (hr.registeredAt g' slot').mpr ⟨hg'ne, hg'⟩, (hr.hook hg'ne).symm ▸ horig'⟩
  · intro slot'
    rw [hr.replacement]
    rcases hr.tracked j hj with hj | rfl
    · exact h.freshTracked j hj slot'
    · exact h.freshRegistered slot j hhere slot'
  · obtain ⟨hne, hj⟩ := (hr.registeredAt j slot').mp hj
    rw [hr.hook hne]
    exact h.freshRegistered slot' j hj

theorem inv_init (hinit : (lsm version orig).init s) : Inv orig s := by
  obtain ⟨hslots, hentry, htracked, -⟩ := hinit
  have hnone : ∀ id slot, ¬ RegisteredAt s id slot := fun id slot h => by
    rw [RegisteredAt, Hook.slot, hentry id] at h
    cases h
  refine ⟨⟨fun slot _ => congrFun hslots slot, fun slot id h => absurd h (hnone id slot)⟩,
    fun slot id h => absurd h (hnone id slot), fun id hid => ?_,
    fun slot id h => absurd h (hnone id slot)⟩
  rw [htracked] at hid
  cases hid

/-- **The slots in every run**, with removals that the guard allows. -/
theorem invariant (version : Version) (orig : ℕ → Fn) :
    (lsm version orig).Invariant (topFirst orig) (Inv orig) := by
  constructor
  · exact fun s hinit => inv_init hinit
  · rintro s (⟨_ | id, env⟩ | ⟨id, env⟩) s' hinv hguard hstep
    · obtain rfl := Option.some.inj hstep
      exact hinv
    · obtain rfl := Option.some.inj hstep
      rcases apply_cases version s id env with hk | ⟨sel, hi⟩
      · exact hinv.kept hk (hguard id rfl)
      · exact hinv.installed hi (hguard id rfl)
    · obtain rfl := Option.some.inj hstep
      rcases remove_cases version s id env with hk | ⟨slot, hr⟩
      · rw [hk]
        exact hinv
      · exact hinv.removed hr hguard

/-- **A hook removed from below another one leaves the slot with a function of no hook.** -/
theorem breaks_of_shared (hr : Removed id slot s s') (htop : ¬ OnTop s id) :
    ¬ SlotsHeld orig s' := by
  intro hheld
  refine htop ?_
  intro slot' hslot'
  obtain rfl := registeredAt_unique hr.registered hslot'
  by_cases halone : ∀ k, RegisteredAt s k slot' → k = id
  · exact .inl halone
  obtain ⟨k, hkreg, hk⟩ : ∃ k, RegisteredAt s k slot' ∧ k ≠ id := by
    by_contra hnone
    exact halone fun k hk => by_contra fun hne => hnone ⟨k, hk, hne⟩
  obtain ⟨m, hmreg, hm⟩ := hheld.held slot' k ((hr.registeredAt k slot').mpr ⟨hk, hkreg⟩)
  obtain ⟨hmne, hmreg⟩ := (hr.registeredAt m slot').mp hmreg
  rw [hr.slots, Function.update_self, hr.hook hmne] at hm
  exact .inr ⟨m, hmne, hmreg, hm.symm⟩

/-! ## 7. The guarantee -/

/-- **In every run in which hooks are removed from the top, a slot without hooks holds its original
function and a slot with hooks holds the replacement of one of them**, whatever the calls find in
the kernel and whichever text patches fail. -/
theorem slots_held (version : Version) (orig : ℕ → Fn) (s : State)
    (hr : (lsm version orig).Reach (topFirst orig) s) : SlotsHeld orig s :=
  (hr.invariant (invariant version orig)).held

/-- Slot 24 holds the function at 101, the others that at 100.  Hook 0 is for the function at 101,
and hook 1 for what is one head behind the one at 100, which is slot 24 as well. -/
def stackOrig (slot : ℕ) : Fn := if slot = 24 then 101 else 100

def stackInit : State where
  slots := stackOrig
  scalls _ := 0
  hooks i := ⟨some [], 8, 200 + i, if i = 1 then 1 else 0, if i = 0 then 101 else 0, none, none⟩
  tracked := []
  statics := ⟨0, 0, 5⟩

/-- A kernel with two heads, in which every patch succeeds. -/
def stackEnv : Env where
  lookupCallable _ := 100
  lookupTable := 4096
  tableSize := 32
  scallSize := 32
  lsmActiveCnt := some 1
  hl _ := some 0
  heads := [[0], [16]]
  patchText _ := true

/-- Both hooks are on the slot, the second one over the first. -/
def stacked : State :=
  (yzLsmHookApply .hookHeads (yzLsmHookApply .hookHeads stackInit (some 0) stackEnv).1 (some 1)
    stackEnv).1

/-- The hook on top is removed. -/
theorem slots_held_sample :
    SlotsHeld stackOrig (yzLsmHookRemove .hookHeads stacked 1 stackEnv) := by
  refine slots_held .hookHeads stackOrig _ ?_
  have hfresh : ∀ i, Fresh stackOrig (stackInit.hooks i) := fun i slot h => by
    have hvalue : (if slot = 24 then 101 else 100 : ℕ) = 200 + i := h
    split_ifs at hvalue <;> omega
  have hinit : (lsm .hookHeads stackOrig).Reach (topFirst stackOrig) stackInit :=
    .ofInit ⟨rfl, fun _ => rfl, rfl, rfl⟩
  have hfirst := hinit.step (a := Action.register (some 0) stackEnv)
    (fun id hid => Option.some.inj hid ▸ hfresh 0) rfl
  have hstacked : (lsm .hookHeads stackOrig).Reach (topFirst stackOrig) stacked :=
    hfirst.step (a := Action.register (some 1) stackEnv)
      (fun id hid => Option.some.inj hid ▸ hfresh 1) rfl
  have htop : OnTop stacked 1 := by
    intro slot hslot
    obtain rfl : 24 = slot := Option.some.inj hslot
    exact .inr ⟨0, by decide, rfl, rfl⟩
  exact hstacked.step (a := Action.unregister 1 stackEnv) htop rfl

/-- Every slot holds the function at 100, and hook `i` replaces it by the one at `200 + i`. -/
def sampleInit : State where
  slots _ := 100
  scalls _ := 0
  hooks i := ⟨some [], 8, 200 + i, 0, 0, none, none⟩
  tracked := []
  statics := ⟨0, 0, 5⟩

/-- A kernel with one entry, at address zero, in which every patch succeeds. -/
def sampleEnv : Env where
  lookupCallable _ := 100
  lookupTable := 4096
  tableSize := 32
  scallSize := 32
  lsmActiveCnt := some 1
  hl _ := some 0
  heads := [[0]]
  patchText _ := true

theorem sampleInit_init (version : Version) : (lsm version fun _ => 100).init sampleInit :=
  ⟨rfl, fun _ => rfl, rfl, rfl⟩

theorem fresh_sample (i : ℕ) : Fresh (fun _ => 100) (sampleInit.hooks i) := fun _ h => by
  have hvalue : 100 = 200 + i := h
  omega

/-- The second of two hooks on a slot is removed. -/
def sampleShared (version : Version) : State :=
  yzLsmHookRemove version (yzLsmHookApply version
    (yzLsmHookApply version sampleInit (some 0) sampleEnv).1 (some 1) sampleEnv).1 1 sampleEnv

theorem replacement_apply (version : Version) (s : State) (id : ℕ) (env : Env) (j : ℕ) :
    ((yzLsmHookApply version s (some id) env).1.hooks j).replacement = (s.hooks j).replacement := by
  rcases apply_cases version s id env with hk | ⟨sel, hi⟩
  · rw [hk.hooks]
  · exact hi.replacement j

theorem replacement_remove (version : Version) (s : State) (id : ℕ) (env : Env) (j : ℕ) :
    ((yzLsmHookRemove version s id env).hooks j).replacement = (s.hooks j).replacement := by
  rcases remove_cases version s id env with hk | ⟨slot, hr⟩
  · rw [hk]
  · exact hr.replacement j

/-- Removing the second of two hooks on a slot writes the original function over the first one. -/
theorem sampleShared_breaks (version : Version) :
    ¬ ∀ orig s, (lsm version orig).Reach Lts.anyStep s → SlotsHeld orig s := by
  intro hheld
  have hinit : (lsm version fun _ => 100).Reach Lts.anyStep sampleInit :=
    .ofInit (sampleInit_init version)
  have hfirst := hinit.step (a := .register (some 0) sampleEnv) trivial rfl
  have hsecond := hfirst.step (a := .register (some 1) sampleEnv) trivial rfl
  have hreach : (lsm version fun _ => 100).Reach Lts.anyStep (sampleShared version) :=
    hsecond.step (a := .unregister 1 sampleEnv) trivial rfl
  have hreg : RegisteredAt (sampleShared version) 0 8 := by cases version <;> rfl
  have hslot : (sampleShared version).slots 8 = 100 := by cases version <;> rfl
  obtain ⟨j, -, hj⟩ := (hheld _ _ hreach).held 8 0 hreg
  rw [hslot, sampleShared, replacement_remove, replacement_apply, replacement_apply] at hj
  exact fresh_sample j 8 hj

/-- **Neither version keeps the slots.** -/
theorem not_slotsHeld :
    (¬ ∀ orig s, (lsm .staticCalls orig).Reach Lts.anyStep s → SlotsHeld orig s) ∧
      ¬ ∀ orig s, (lsm .hookHeads orig).Reach Lts.anyStep s → SlotsHeld orig s :=
  ⟨sampleShared_breaks .staticCalls, sampleShared_breaks .hookHeads⟩

end YukiZygisk.Lsm
