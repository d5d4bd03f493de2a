/-
# Crash-loop safe mode (`kernel/feature/zygote_probe.c`)

The probe counts, for each of the first four zygote names it sees, how often the pid behind the
name changes.  At the third change it goes into safe mode and injects no zygote any more.

The code keeps a table of four slots.  `skips_iff` says what it decides in terms of the whole
history of starts, without the table: `Follows` is the invariant that ties the two together.  The
table has the first four names, and while the safe mode is not active, each slot has the last pid
behind its name and how often it has changed.

A start first claims a slot for its name (`claimSlot_spec`).  What it does then has one lemma for
each branch of the code: no slot is left (`follows_unclaimed`), the safe mode is active already
(`follows_active`), and otherwise the first start of the name (`follows_first`), the same pid again
(`follows_same`) and another pid (`follows_crash`).

The history is a list of starts.  `names` is the names in the order of their first start, `pidsOf`
the pids that one name has had, and `changes` how often two neighbours of them differ; so
`CrashLoop` needs no state.  For the induction over the history each of these is computed for a
history with one more start (`names_append`, `pidsOf_append`, `changes_append`).  The table knows
the first four names only, which is why the slots are compared with the first four of `names`
(`slots`).
-/
import Mathlib
import YukiZygisk.Feature.EarlyNative

namespace YukiZygisk.SafeMode

open YukiZygisk.Native (zpCopyName)

/-! ## 1. The guards -/

/-- `YZ_ZYGOTE_NAME_MAX`, `YZ_ZYGOTE_CRASH_THRESHOLD` and `ZP_ZYGOTE_GUARD_MAX`. -/
def zygoteNameMax : Nat := 64
def zygoteCrashThreshold : Nat := 3
def zygoteGuardMax : Nat := 4

/-- `struct zp_zygote_guard`.  A free slot has the empty name. -/
structure Guard where
  name : List UInt8 := []
  lastPid : Nat := 0
  zygoteCrashes : Nat := 0
  deriving DecidableEq

/-- The variables under `zp_safemode_lock`. -/
structure SafeModeState where
  guards : List Guard := List.replicate zygoteGuardMax {}
  active : Bool := false
  zygoteCrashes : Nat := 0
  zygote : List UInt8 := []

/-- A zygote that starts: its socket name, and its pid, which is that of a task and so not 0. -/
structure Observation where
  name : List UInt8
  pid : Nat
  pid_ne : pid ≠ 0

/-- The bytes of `zygote`. -/
def defaultName : List UInt8 := [0x7a, 0x79, 0x67, 0x6f, 0x74, 0x65]

/-- The name that `zp_zygote_safemode_should_skip` works with. -/
def zygoteName (o : Observation) : List UInt8 :=
  zpCopyName zygoteNameMax (if o.name = [] then defaultName else o.name)

/-- The loop of `zp_zygote_guard_slot_locked` from slot `i` on: the slot of the name, and the
first free one. -/
def guardSlotFrom (name : List UInt8) : List Guard → Nat → Option Nat → Option Nat × Option Nat
  | [], _, free => (none, free)
  | g :: guards, i, free =>
    if g.name = [] then guardSlotFrom name guards (i + 1) (free.or (some i))
    else if g.name = name then (some i, free)
    else guardSlotFrom name guards (i + 1) free

/-- `zp_zygote_guard_slot_locked`. -/
def guardSlot (name : List UInt8) (guards : List Guard) : Option Nat × Option Nat :=
  guardSlotFrom name guards 0 none

/-- The slot of the name, which takes the first free one when it has none. -/
def claimSlot (zygote : List UInt8) (guards : List Guard) : Option Nat × List Guard :=
  match guardSlot zygote guards with
  | (some slot, _) => (some slot, guards)
  | (none, some free) =>
    (some free, guards.modify free fun g => { g with name := zpCopyName zygoteNameMax zygote })
  | (none, none) => (none, guards)

/-- The branch of `zp_zygote_safemode_should_skip` for a new pid behind the name of slot `i`. -/
def crashed (o : Observation) (s : SafeModeState) (guards : List Guard) (i : Nat) (guard : Guard) :
    Bool × SafeModeState :=
  let crashes := (guard.zygoteCrashes + 1) % 2 ^ 32
  let guards := guards.set i { guard with lastPid := o.pid, zygoteCrashes := crashes }
  if zygoteCrashThreshold ≤ crashes then
    (true, ⟨guards, true, crashes, zpCopyName zygoteNameMax (zygoteName o)⟩)
  else (false, { s with guards })

/-- `zp_zygote_safemode_should_skip`. -/
def shouldSkip (o : Observation) (s : SafeModeState) : Bool × SafeModeState :=
  let (slot, guards) := claimSlot (zygoteName o) s.guards
  let s := { s with guards }
  if s.active then
    match slot with
    | none => (true, s)
    | some i => (true, { s with guards := s.guards.modify i fun g => { g with lastPid := o.pid } })
  else
    match slot.bind fun i => (s.guards[i]?).map fun g => (i, g) with
    | none => (false, s)
    | some (i, guard) =>
      if guard.lastPid = 0 then
        (false, { s with guards := s.guards.set i { guard with lastPid := o.pid } })
      else if guard.lastPid ≠ o.pid then crashed o s s.guards i guard
      else (false, s)

/-- The state after a history of starts. -/
def run (history : List Observation) : SafeModeState :=
  history.foldl (fun s o => (shouldSkip o s).2) {}

/-! ## 2. What the history says -/

/-- The distinct names in the order in which they were first seen. -/
def names (history : List Observation) : List (List UInt8) :=
  history.foldl (fun ns o => if zygoteName o ∈ ns then ns else ns ++ [zygoteName o]) []

/-- The first four of them. -/
def firstNames (history : List Observation) : List (List UInt8) :=
  (names history).take zygoteGuardMax

/-- The pids seen behind a name, oldest first. -/
def pidsOf (name : List UInt8) (history : List Observation) : List Nat :=
  (history.filter fun o => zygoteName o = name).map Observation.pid

/-- How often the pid is another one than before. -/
def changes : List Nat → Nat
  | p :: q :: pids => (if p = q then 0 else 1) + changes (q :: pids)
  | _ => 0

/-- One of the first four names has changed its pid often enough. -/
def CrashLoop (history : List Observation) : Prop :=
  ∃ name ∈ firstNames history, zygoteCrashThreshold ≤ changes (pidsOf name history)

variable {history : List Observation} {o : Observation} {name : List UInt8}

theorem names_append (history : List Observation) (o : Observation) :
    names (history ++ [o]) =
      if zygoteName o ∈ names history then names history
      else names history ++ [zygoteName o] := by
  rw [names, List.foldl_append]
  rfl

theorem run_append (history : List Observation) (o : Observation) :
    run (history ++ [o]) = (shouldSkip o (run history)).2 := by
  simp [run, List.foldl_append]

/-- A start adds its pid to those of its name. -/
theorem pidsOf_append (name : List UInt8) (history : List Observation) (o : Observation) :
    pidsOf name (history ++ [o]) =
      if zygoteName o = name then pidsOf name history ++ [o.pid] else pidsOf name history := by
  unfold pidsOf
  by_cases h : zygoteName o = name <;> simp [List.filter_append, h]

/-- A pid that is not the last one is a change. -/
theorem changes_append (pids : List Nat) (p : Nat) :
    changes (pids ++ [p]) =
      changes pids + match pids.getLast? with
        | none => 0
        | some q => if q = p then 0 else 1 := by
  induction pids with
  | nil => rfl
  | cons a pids ih =>
    cases pids with
    | nil => simp [changes]
    | cons b pids =>
      have hlast : (a :: b :: pids).getLast? = (b :: pids).getLast? := by simp
      rw [hlast]
      simp only [List.cons_append, changes] at ih ⊢
      omega

theorem zygoteName_ne (o : Observation) : zygoteName o ≠ [] := by
  unfold zygoteName zpCopyName zygoteNameMax
  split_ifs with h
  · decide
  · intro hnil
    rcases List.take_eq_nil_iff.mp hnil with h' | h'
    · omega
    · exact h h'

theorem zpCopyName_zygoteName (o : Observation) :
    zpCopyName zygoteNameMax (zygoteName o) = zygoteName o := by
  simp [zygoteName, zpCopyName, List.take_take]

theorem mem_names_ne (h : name ∈ names history) : name ≠ [] := by
  induction history using List.reverseRecOn with
  | nil => simp [names] at h
  | append_singleton history o ih =>
    rw [names_append] at h
    split_ifs at h
    · exact ih h
    · rcases List.mem_append.mp h with h | h
      · exact ih h
      · rw [List.mem_singleton.mp h]
        exact zygoteName_ne o

theorem nodup_names (history : List Observation) : (names history).Nodup := by
  induction history using List.reverseRecOn with
  | nil => simp [names]
  | append_singleton history o ih =>
    rw [names_append]
    split_ifs with h
    · exact ih
    · rw [List.nodup_append]
      refine ⟨ih, by simp, ?_⟩
      intro a ha b hb
      rw [List.mem_singleton.mp hb]
      rintro rfl
      exact h ha

/-- A name that has not been seen has no pids. -/
theorem pidsOf_nil (h : name ∉ names history) : pidsOf name history = [] := by
  induction history using List.reverseRecOn with
  | nil => rfl
  | append_singleton history o ih =>
    rw [names_append] at h
    rw [pidsOf_append]
    split_ifs at h with hmem
    · have hne : zygoteName o ≠ name := by
        rintro rfl
        exact h hmem
      rw [if_neg hne, ih h]
    · have hne : zygoteName o ≠ name := fun heq => h (by simp [heq])
      rw [if_neg hne, ih (fun hmem' => h (by simp [hmem']))]

/-! ## 3. The table and the history -/

/-- The names of the four slots. -/
def slots (history : List Observation) : List (List UInt8) :=
  firstNames history ++ List.replicate (zygoteGuardMax - (names history).length) []

/-- The guard that the history asks for. -/
def guardOf (history : List Observation) (name : List UInt8) : Guard where
  name := name
  lastPid := (pidsOf name history).getLast?.getD 0
  zygoteCrashes := changes (pidsOf name history)

theorem slots_at_lt {i : Nat} (hi : i < zygoteGuardMax) (hn : i < (names history).length) :
    (slots history)[i]? = (names history)[i]? := by
  have hlt : i < (firstNames history).length := by simp [firstNames]; omega
  rw [slots, List.getElem?_append_left hlt, firstNames, List.getElem?_take_of_lt hi]

theorem slots_at_ge {i : Nat} (hi : i < zygoteGuardMax) (hn : (names history).length ≤ i) :
    (slots history)[i]? = some [] := by
  have hge : (firstNames history).length ≤ i := by simp [firstNames]; omega
  rw [slots, List.getElem?_append_right hge, List.getElem?_replicate, if_pos]
  simp only [firstNames, List.length_take]
  omega

theorem length_slots (history : List Observation) : (slots history).length = zygoteGuardMax := by
  simp only [slots, firstNames, List.length_append, List.length_take, List.length_replicate]
  omega

/-- A name of a slot is one of the first four names, or the slot is free. -/
theorem mem_firstNames_of_slot {i : Nat} (h : (slots history)[i]? = some name) (hne : name ≠ []) :
    name ∈ firstNames history := by
  have hmem := List.mem_of_getElem? h
  rcases List.mem_append.mp hmem with h | h
  · exact h
  · exact absurd (List.eq_of_mem_replicate h) hne

/-- No name has two slots. -/
theorem slots_inj {i j : Nat} (hi : (slots history)[i]? = some name)
    (hj : (slots history)[j]? = some name) (hne : name ≠ []) : i = j := by
  have hlt : ∀ k, (slots history)[k]? = some name → k < zygoteGuardMax ∧
      (names history)[k]? = some name := by
    intro k hk
    have hk4 : k < zygoteGuardMax := by
      rw [← length_slots history]
      exact (List.getElem?_eq_some_iff.mp hk).1
    rcases Nat.lt_or_ge k (names history).length with hn | hn
    · exact ⟨hk4, (slots_at_lt hk4 hn).symm.trans hk⟩
    · rw [slots_at_ge hk4 hn] at hk
      exact absurd (Option.some.inj hk).symm hne
  have hi' := (hlt i hi).2
  exact (List.getElem?_inj (List.getElem?_eq_some_iff.mp hi').1 (nodup_names history)).mp
    (hi'.trans (hlt j hj).2.symm)

/-- What the search for a slot finds. -/
theorem guardSlotFrom_spec (name : List UInt8) (hne : name ≠ []) :
    ∀ (guards : List Guard) (k : Nat) (free : Option Nat),
      (∃ i g, guards[i]? = some g ∧ g.name = name ∧
        (guardSlotFrom name guards k free).1 = some (k + i)) ∨
      (∀ (i : Nat) (g : Guard), guards[i]? = some g → g.name ≠ name) ∧
        (guardSlotFrom name guards k free).1 = none ∧
        (guardSlotFrom name guards k free).2 =
          free.or ((guards.findIdx? fun g => g.name = []).map (k + ·)) := by
  intro guards
  induction guards with
  | nil =>
    intro k free
    refine .inr ⟨fun i g h => by simp at h, rfl, ?_⟩
    simp [guardSlotFrom]
  | cons g guards ih =>
    intro k free
    rw [guardSlotFrom]
    by_cases hfree : g.name = []
    · rw [if_pos hfree]
      rcases ih (k + 1) (free.or (some k)) with ⟨i, d, hd, hn, hrun⟩ | ⟨hno, hrun, hf⟩
      · exact .inl ⟨i + 1, d, by simpa using hd, hn, by rw [hrun]; congr 1; omega⟩
      · refine .inr ⟨?_, hrun, ?_⟩
        · intro i d hd
          cases i with
          | zero =>
            obtain rfl : g = d := by simpa using hd
            exact fun h => hne (h.symm.trans hfree)
          | succ i => exact hno i d (by simpa using hd)
        · rw [hf]
          simp [List.findIdx?_cons, hfree]
    · rw [if_neg hfree]
      by_cases hname : g.name = name
      · rw [if_pos hname]
        exact .inl ⟨0, g, by simp, hname, rfl⟩
      · rw [if_neg hname]
        rcases ih (k + 1) free with ⟨i, d, hd, hn, hrun⟩ | ⟨hno, hrun, hf⟩
        · exact .inl ⟨i + 1, d, by simpa using hd, hn, by rw [hrun]; congr 1; omega⟩
        · refine .inr ⟨?_, hrun, ?_⟩
          · intro i d hd
            cases i with
            | zero =>
              obtain rfl : g = d := by simpa using hd
              exact hname
            | succ i => exact hno i d (by simpa using hd)
          · rw [hf]
            have hcons : (g :: guards).findIdx? (fun g => g.name = []) =
                (guards.findIdx? fun g => g.name = []).map (· + 1) := by
              simp [List.findIdx?_cons, hfree]
            rw [hcons, Option.map_map]
            congr 2
            funext i
            simp only [Function.comp_apply]
            omega

/-- The slots after one more start. -/
theorem slots_append (history : List Observation) (o : Observation) :
    slots (history ++ [o]) =
      if zygoteName o ∈ names history ∨ zygoteGuardMax ≤ (names history).length then slots history
      else (slots history).set (names history).length (zygoteName o) := by
  apply List.ext_getElem?
  intro i
  rcases Nat.lt_or_ge i zygoteGuardMax with hi | hi
  swap
  · have h1 : ∀ l : List (List UInt8), l.length = zygoteGuardMax → l[i]? = none := fun l hl =>
      List.getElem?_eq_none (by omega)
    rw [h1 _ (length_slots _)]
    split_ifs
    · exact (h1 _ (length_slots _)).symm
    · exact (h1 _ (by rw [List.length_set, length_slots])).symm
  by_cases hmem : zygoteName o ∈ names history
  · have hn : names (history ++ [o]) = names history := by rw [names_append, if_pos hmem]
    rw [if_pos (.inl hmem), slots, firstNames, hn]
    rfl
  have hn : names (history ++ [o]) = names history ++ [zygoteName o] := by
    rw [names_append, if_neg hmem]
  have hlen : (names (history ++ [o])).length = (names history).length + 1 := by simp [hn]
  rcases Nat.lt_trichotomy i (names history).length with hlt | heq | hgt
  · have hold : (slots (history ++ [o]))[i]? = (slots history)[i]? := by
      rw [slots_at_lt hi (by omega), slots_at_lt hi hlt, hn, List.getElem?_append_left hlt]
    rw [hold]
    split_ifs
    · rfl
    · rw [List.getElem?_set_ne (by omega)]
  · subst heq
    rw [if_neg (by rintro (h | h); exacts [hmem h, absurd hi (Nat.not_lt.mpr h)]),
      List.getElem?_set_self (by rw [length_slots]; exact hi), slots_at_lt hi (by omega), hn]
    simp
  · have hold : (slots (history ++ [o]))[i]? = (slots history)[i]? := by
      rw [slots_at_ge hi (by omega), slots_at_ge hi (by omega)]
    rw [hold]
    split_ifs
    · rfl
    · rw [List.getElem?_set_ne (by omega)]

/-- A name that has been seen has a slot, or the four slots went to others. -/
theorem slot_of_mem (h : name ∈ names history) (hlen : (names history).length ≤ zygoteGuardMax) :
    ∃ i : Nat, (slots history)[i]? = some name := by
  obtain ⟨i, hi⟩ := List.mem_iff_getElem?.mp h
  have hlt := (List.getElem?_eq_some_iff.mp hi).1
  exact ⟨i, (slots_at_lt (by omega) hlt).trans hi⟩

theorem slots_at_guard {guards : List Guard} (hnames : guards.map Guard.name = slots history)
    {i : Nat} {g : Guard} (hg : guards[i]? = some g) : (slots history)[i]? = some g.name := by
  rw [← hnames, List.getElem?_map, hg]
  rfl

theorem length_guards {guards : List Guard} (hnames : guards.map Guard.name = slots history) :
    guards.length = zygoteGuardMax := by
  rw [← length_slots history, ← hnames, List.length_map]

/-- The first free slot comes after the names. -/
theorem free_slot {guards : List Guard} (hnames : guards.map Guard.name = slots history) :
    (guards.findIdx? fun g => g.name = []) =
      if (names history).length < zygoteGuardMax then some (names history).length else none := by
  have hat := fun (i : Nat) (g : Guard) => slots_at_guard (i := i) (g := g) hnames
  have hlen := length_guards hnames
  have hused : ∀ (i : Nat) (g : Guard), guards[i]? = some g → i < (names history).length →
      g.name ≠ [] := by
    intro i g hg hi
    have hi4 : i < zygoteGuardMax := by
      rw [← hlen]
      exact (List.getElem?_eq_some_iff.mp hg).1
    have hn := hat i g hg
    rw [slots_at_lt hi4 hi] at hn
    exact mem_names_ne (List.mem_of_getElem? hn)
  split_ifs with h4
  · rw [List.findIdx?_eq_some_iff_getElem]
    refine ⟨by omega, ?_, ?_⟩
    · have hn := hat _ _ (List.getElem?_eq_getElem (by omega : (names history).length <
        guards.length))
      rw [slots_at_ge h4 (Nat.le_refl _)] at hn
      simpa using (Option.some.inj hn).symm
    · intro j hj
      have := hused j _ (List.getElem?_eq_getElem (by omega)) hj
      simpa using this
  · rw [List.findIdx?_eq_none_iff]
    intro g hg
    obtain ⟨i, hi⟩ := List.mem_iff_getElem?.mp hg
    have := hused i g hi (by have := (List.getElem?_eq_some_iff.mp hi).1; omega)
    simpa using this

/-- A start has the slot `i`, which is renamed if it was free. -/
structure Claimed (history : List Observation) (o : Observation) (guards guards' : List Guard)
    (i : Nat) : Prop where
  claim : claimSlot (zygoteName o) guards = (some i, guards')
  named : guards'.map Guard.name = slots (history ++ [o])
  slot : (slots (history ++ [o]))[i]? = some (zygoteName o)
  others : ∀ j : Nat, j ≠ i → guards'[j]? = guards[j]? ∧
    (slots (history ++ [o]))[j]? = (slots history)[j]?
  guard : ∃ g, guards[i]? = some g ∧ guards'[i]? = some { g with name := zygoteName o } ∧
    (g.name = zygoteName o ∨ g.name = [] ∧ zygoteName o ∉ names history)

/-- Four other names came first. -/
structure Unclaimed (history : List Observation) (o : Observation) (guards : List Guard) :
    Prop where
  claim : claimSlot (zygoteName o) guards = (none, guards)
  kept : slots (history ++ [o]) = slots history
  absent : ∀ i : Nat, (slots history)[i]? ≠ some (zygoteName o)

/-- **The claim of a slot.**  The name of the start has a slot then, which is renamed if it was
free; or it has none, because four other names came first. -/
theorem claimSlot_spec {guards : List Guard} (hnames : guards.map Guard.name = slots history)
    (o : Observation) :
    (∃ i guards', Claimed history o guards guards' i) ∨ Unclaimed history o guards := by
  have hat := fun (i : Nat) (g : Guard) => slots_at_guard (i := i) (g := g) hnames
  have hlen := length_guards hnames
  rcases guardSlotFrom_spec (zygoteName o) (zygoteName_ne o) guards 0 none with
    ⟨i, g, hg, hn, hrun⟩ | ⟨hno, hrun, hfree⟩
  · -- The name has its slot.
    have hslot := hat i g hg
    rw [hn] at hslot
    have hmem : zygoteName o ∈ names history :=
      List.mem_of_mem_take (mem_firstNames_of_slot hslot (zygoteName_ne o))
    have hsame : slots (history ++ [o]) = slots history := by
      rw [slots_append, if_pos (.inl hmem)]
    refine .inl ⟨i, guards, ?_, by rw [hsame]; exact hnames, by rw [hsame]; exact hslot,
      fun j _ => ⟨rfl, by rw [hsame]⟩, g, hg, by rw [hg, ← hn], .inl hn⟩
    unfold claimSlot guardSlot
    rcases hr : guardSlotFrom (zygoteName o) guards 0 none with ⟨slot, free⟩
    rw [hr] at hrun
    simp only [Nat.zero_add] at hrun
    subst hrun
    rfl
  have hnoslot : ∀ i : Nat, (slots history)[i]? ≠ some (zygoteName o) := by
    intro i hi
    rw [← hnames, List.getElem?_map, Option.map_eq_some_iff] at hi
    obtain ⟨g, hg, hn⟩ := hi
    exact hno i g hg hn
  rw [Option.none_or, free_slot hnames] at hfree
  have hclaim : claimSlot (zygoteName o) guards =
      match guardSlotFrom (zygoteName o) guards 0 none with
      | (some slot, _) => (some slot, guards)
      | (none, some free) => (some free, guards.modify free fun g =>
          { g with name := zpCopyName zygoteNameMax (zygoteName o) })
      | (none, none) => (none, guards) := rfl
  rcases hr : guardSlotFrom (zygoteName o) guards 0 none with ⟨slot, free⟩
  rw [hr] at hrun hfree hclaim
  simp only at hrun hfree
  subst hrun
  by_cases h4 : (names history).length < zygoteGuardMax
  · -- It takes the first free slot.
    rw [if_pos h4, Option.map_some, Nat.zero_add] at hfree
    subst hfree
    have hnew : zygoteName o ∉ names history := by
      intro hmem
      obtain ⟨i, hi⟩ := slot_of_mem hmem (Nat.le_of_lt h4)
      exact hnoslot i hi
    have hslots : slots (history ++ [o]) =
        (slots history).set (names history).length (zygoteName o) := by
      rw [slots_append, if_neg]
      rintro (h | h)
      · exact hnew h
      · omega
    have hi : (names history).length < guards.length := by omega
    have hold : (slots history)[(names history).length]? =
        some (guards[(names history).length]).name := hat _ _ (List.getElem?_eq_getElem hi)
    rw [slots_at_ge h4 (Nat.le_refl _)] at hold
    have hempty := (Option.some.inj hold).symm
    simp only [zpCopyName_zygoteName] at hclaim
    refine .inl ⟨(names history).length, _, hclaim, ?_, ?_, ?_, guards[(names history).length],
      List.getElem?_eq_getElem hi, ?_, .inr ⟨hempty, hnew⟩⟩
    · rw [hslots, ← hnames]
      apply List.ext_getElem?
      intro j
      rcases eq_or_ne (names history).length j with rfl | hne
      · simp [hi]
      · simp [List.getElem?_set_ne hne, hne]
    · rw [hslots, List.getElem?_set_self (by rw [length_slots]; exact h4)]
    · intro j hj
      rw [hslots]
      exact ⟨by simp [Ne.symm hj], List.getElem?_set_ne (Ne.symm hj)⟩
    · simp [hi]
  · -- Four other names came first.
    rw [if_neg h4, Option.map_none] at hfree
    subst hfree
    refine .inr ⟨hclaim, ?_, hnoslot⟩
    rw [slots_append, if_pos (.inr (Nat.not_lt.mp h4))]

/-! ## 4. The decision -/

theorem pidsOf_ne (name : List UInt8) (history : List Observation) :
    ∀ p ∈ pidsOf name history, p ≠ 0 := by
  intro p hp
  obtain ⟨o, -, rfl⟩ := List.mem_map.mp hp
  exact o.pid_ne

theorem changes_mono (name : List UInt8) (history : List Observation) (o : Observation) :
    changes (pidsOf name history) ≤ changes (pidsOf name (history ++ [o])) := by
  rw [pidsOf_append]
  split_ifs
  · rw [changes_append]
    omega
  · exact Nat.le_refl _

/-- A crash loop in terms of the slots. -/
theorem crashLoop_iff : CrashLoop history ↔
    ∃ (i : Nat) (name : List UInt8), (slots history)[i]? = some name ∧
      zygoteCrashThreshold ≤ changes (pidsOf name history) := by
  constructor
  · rintro ⟨name, hmem, hc⟩
    obtain ⟨i, hi⟩ := List.mem_iff_getElem?.mp hmem
    refine ⟨i, name, ?_, hc⟩
    rw [slots, List.getElem?_append_left (List.getElem?_eq_some_iff.mp hi).1]
    exact hi
  · rintro ⟨i, name, hi, hc⟩
    by_cases hne : name = []
    · subst hne
      have hnil : pidsOf [] history = [] := pidsOf_nil fun h => mem_names_ne h rfl
      rw [hnil] at hc
      simp [changes, zygoteCrashThreshold] at hc
    · exact ⟨name, mem_firstNames_of_slot hi hne, hc⟩

/-- What the variables hold after a history. -/
structure Follows (history : List Observation) (s : SafeModeState) : Prop where
  names : s.guards.map Guard.name = slots history
  active : s.active = true ↔ CrashLoop history
  guards : s.active = false → ∀ (i : Nat) (name : List UInt8), (slots history)[i]? = some name →
    s.guards[i]? = some (guardOf history name)

theorem CrashLoop.append (h : CrashLoop history) (hs : ∀ (i : Nat) (name : List UInt8),
    (slots history)[i]? = some name → name ≠ [] → ∃ j : Nat,
      (slots (history ++ [o]))[j]? = some name) : CrashLoop (history ++ [o]) := by
  rw [crashLoop_iff] at h ⊢
  obtain ⟨i, name, hi, hc⟩ := h
  have hne : name ≠ [] := by
    rintro rfl
    rw [pidsOf_nil fun h => mem_names_ne h rfl] at hc
    simp [changes, zygoteCrashThreshold] at hc
  obtain ⟨j, hj⟩ := hs i name hi hne
  exact ⟨j, name, hj, Nat.le_trans hc (changes_mono name history o)⟩

/-- A guard of another name asks for the same after the start. -/
theorem guardOf_append_ne (h : zygoteName o ≠ name) :
    guardOf (history ++ [o]) name = guardOf history name := by
  simp only [guardOf, pidsOf_append, if_neg h]

/-- The guard of the name after the start: the new pid, and one more crash if it is another one
than before. -/
theorem guardOf_append_self (history : List Observation) (o : Observation) :
    guardOf (history ++ [o]) (zygoteName o) =
      { guardOf history (zygoteName o) with
        lastPid := o.pid
        zygoteCrashes := changes (pidsOf (zygoteName o) history) +
          if (guardOf history (zygoteName o)).lastPid = 0 ∨
            (guardOf history (zygoteName o)).lastPid = o.pid then 0 else 1 } := by
  simp only [guardOf, pidsOf_append, if_true, List.getLast?_append, List.getLast?_singleton,
    Option.some_or, Option.getD_some, changes_append, Guard.mk.injEq, true_and]
  congr 1
  split
  · rename_i hlast
    simp [hlast]
  · rename_i q hlast
    have hq := pidsOf_ne _ _ q (List.mem_of_getLast? hlast)
    simp [hlast, hq]

variable {s s' : SafeModeState} {guards : List Guard} {i : Nat}

/-- While the safe mode is not active, no name with a slot has changed its pid often enough. -/
theorem Follows.below (h : Follows history s) (hactive : s.active = false) {j : Nat}
    {name : List UInt8} (hj : (slots history)[j]? = some name) :
    changes (pidsOf name history) < zygoteCrashThreshold := by
  by_contra hge
  have hloop := h.active.mpr (crashLoop_iff.mpr ⟨j, name, hj, Nat.not_lt.mp hge⟩)
  exact absurd (hactive.symm.trans hloop) (by decide)

/-- The guard of the name is the one the history asks for, also when it is new. -/
theorem Claimed.guard_eq (hc : Claimed history o s.guards guards i) (h : Follows history s)
    (hactive : s.active = false) : guards[i]? = some (guardOf history (zygoteName o)) := by
  obtain ⟨g, hg, hg', hfrom⟩ := hc.guard
  rw [hg']
  have hold : (slots history)[i]? = some g.name := by
    rw [← h.names, List.getElem?_map, hg]
    rfl
  have hgd : g = guardOf history g.name :=
    Option.some.inj (hg.symm.trans (h.guards hactive i g.name hold))
  rcases hfrom with hn | ⟨hn, hnew⟩
  · rw [hn] at hgd
    rw [hgd]
    rfl
  · rw [hgd, hn]
    simp only [guardOf, pidsOf_nil hnew,
      pidsOf_nil (fun h => mem_names_ne h rfl : ([] : List UInt8) ∉ names history)]

/-- So are the guards of the other names. -/
theorem Claimed.rest (hc : Claimed history o s.guards guards i) (h : Follows history s)
    (hactive : s.active = false) {j : Nat} {name : List UInt8} (hji : j ≠ i)
    (hj : (slots (history ++ [o]))[j]? = some name) :
    guards[j]? = some (guardOf history name) := by
  rw [(hc.others j hji).1]
  exact h.guards hactive j name ((hc.others j hji).2.symm.trans hj)

/-- The name itself has not changed its pid often enough either. -/
theorem Claimed.count_lt (hc : Claimed history o s.guards guards i) (h : Follows history s)
    (hactive : s.active = false) :
    changes (pidsOf (zygoteName o) history) < zygoteCrashThreshold := by
  obtain ⟨g, hg, -, hfrom⟩ := hc.guard
  rcases hfrom with hn | ⟨-, hnew⟩
  · refine h.below hactive (j := i) ?_
    rw [← h.names, List.getElem?_map, hg, Option.map_some, hn]
  · rw [pidsOf_nil hnew]
    simp [changes, zygoteCrashThreshold]

/-- While the safe mode is not active and the name has a slot: what a start leaves follows the
history if the guard of its name does, and if the safe mode is as the count of that name says. -/
theorem Claimed.follows (hc : Claimed history o s.guards guards i) (h : Follows history s)
    (hactive : s.active = false)
    (hs : s'.guards = guards.set i (guardOf (history ++ [o]) (zygoteName o)))
    (hactive' : s'.active = true ↔
      zygoteCrashThreshold ≤ changes (pidsOf (zygoteName o) (history ++ [o]))) :
    Follows (history ++ [o]) s' := by
  have hself := hc.guard_eq h hactive
  have hilt : i < guards.length := (List.getElem?_eq_some_iff.mp hself).1
  have hne : ∀ (j : Nat) (name : List UInt8), j ≠ i →
      (slots (history ++ [o]))[j]? = some name → zygoteName o ≠ name := by
    rintro j name hji hj rfl
    exact hji (slots_inj hj hc.slot (zygoteName_ne o))
  constructor
  · rw [hs, ← hc.named]
    apply List.ext_getElem?
    intro j
    rcases eq_or_ne i j with rfl | hij
    · rw [List.getElem?_map, List.getElem?_set_self hilt, List.getElem?_map, hself]
      rfl
    · rw [List.getElem?_map, List.getElem?_set_ne hij, List.getElem?_map]
  · rw [hactive', crashLoop_iff]
    constructor
    · intro hcount
      exact ⟨i, _, hc.slot, hcount⟩
    · rintro ⟨j, name, hj, hcount⟩
      rcases eq_or_ne j i with rfl | hji
      · rw [hc.slot] at hj
        rwa [← Option.some.inj hj] at hcount
      · rw [pidsOf_append, if_neg (hne j name hji hj)] at hcount
        have hbelow := h.below hactive ((hc.others j hji).2.symm.trans hj)
        omega
  · intro _ j name hj
    rw [hs]
    rcases eq_or_ne i j with rfl | hij
    · rw [hc.slot] at hj
      rw [List.getElem?_set_self hilt, ← Option.some.inj hj]
    · rw [List.getElem?_set_ne hij, hc.rest h hactive (Ne.symm hij) hj,
        guardOf_append_ne (hne j name (Ne.symm hij) hj)]

/-- What a start does, and its answer, follow the history. -/
def Answers (history : List Observation) (o : Observation) (r : Bool × SafeModeState) : Prop :=
  Follows (history ++ [o]) r.2 ∧ r.1 = r.2.active

/-- Four other names came first: nothing is counted. -/
theorem follows_unclaimed (h : Follows history s) (hu : Unclaimed history o s.guards) :
    Answers history o (shouldSkip o s) := by
  have hloop : CrashLoop (history ++ [o]) ↔ CrashLoop history := by
    rw [crashLoop_iff, crashLoop_iff, hu.kept]
    have hsame : ∀ (i : Nat) (name : List UInt8), (slots history)[i]? = some name →
        pidsOf name (history ++ [o]) = pidsOf name history := by
      rintro i name hi
      rw [pidsOf_append, if_neg]
      rintro rfl
      exact hu.absent i hi
    constructor
    · rintro ⟨i, name, hi, hc⟩
      exact ⟨i, name, hi, by rwa [hsame i name hi] at hc⟩
    · rintro ⟨i, name, hi, hc⟩
      exact ⟨i, name, hi, by rwa [hsame i name hi]⟩
  have hrun : shouldSkip o s = (s.active, s) := by
    have hclaim := hu.claim
    obtain ⟨guards, active, crashes, zygote⟩ := s
    simp only at hclaim
    unfold shouldSkip
    simp only [hclaim]
    cases active <;> rfl
  rw [hrun]
  refine ⟨⟨hu.kept ▸ h.names, h.active.trans hloop.symm, ?_⟩, rfl⟩
  intro ha i name hi
  rw [hu.kept] at hi
  rw [h.guards ha i name hi, guardOf_append_ne]
  rintro rfl
  exact hu.absent i hi

/-- In the safe mode only the last pid is written. -/
theorem follows_active (h : Follows history s) (hc : Claimed history o s.guards guards i)
    (hactive : s.active = true) : Answers history o (shouldSkip o s) := by
  have hrun : shouldSkip o s = (true, { s with
      guards := guards.modify i fun g => { g with lastPid := o.pid } }) := by
    unfold shouldSkip
    simp only [hc.claim, hactive, if_true]
  have hloop : CrashLoop (history ++ [o]) := by
    obtain ⟨g, hg, -, hfrom⟩ := hc.guard
    refine (h.active.mp hactive).append ?_
    intro j name hj hne
    rcases eq_or_ne j i with rfl | hji
    · rcases hfrom with hn | ⟨hn, -⟩
      · refine ⟨j, ?_⟩
        rw [hc.slot, ← hj, ← h.names, List.getElem?_map, hg, Option.map_some, hn]
      · rw [← h.names, List.getElem?_map, hg, Option.map_some, hn] at hj
        exact absurd (Option.some.inj hj).symm hne
    · exact ⟨j, (hc.others j hji).2.trans hj⟩
  rw [hrun]
  refine ⟨⟨?_, ⟨fun _ => hloop, fun _ => hactive⟩, ?_⟩, hactive.symm⟩
  · rw [← hc.named]
    apply List.ext_getElem?
    intro j
    rw [List.getElem?_map, List.getElem?_map, List.getElem?_modify]
    cases guards[j]? with
    | none => rfl
    | some d => by_cases hij : i = j <;> simp [hij]
  · intro hfalse
    exact absurd (hactive.symm.trans hfalse) (by simp)

/-- Otherwise the guard of the name decides. -/
theorem shouldSkip_claimed (h : Follows history s) (hc : Claimed history o s.guards guards i)
    (hactive : s.active = false) : shouldSkip o s =
      if (guardOf history (zygoteName o)).lastPid = 0 then
        (false, { s with
          guards := guards.set i { guardOf history (zygoteName o) with lastPid := o.pid } })
      else if (guardOf history (zygoteName o)).lastPid ≠ o.pid then
        crashed o s guards i (guardOf history (zygoteName o))
      else (false, { s with guards }) := by
  unfold shouldSkip
  simp only [hc.claim, hactive, Bool.false_eq_true, if_false, Option.bind_some,
    hc.guard_eq h hactive, Option.map_some, crashed]

/-- The count of a name that the history does not say is often enough. -/
theorem inactive_iff (hactive : s'.active = false)
    (hcount : (guardOf (history ++ [o]) (zygoteName o)).zygoteCrashes < zygoteCrashThreshold) :
    s'.active = true ↔
      zygoteCrashThreshold ≤ changes (pidsOf (zygoteName o) (history ++ [o])) := by
  have hcrashes : changes (pidsOf (zygoteName o) (history ++ [o])) =
      (guardOf (history ++ [o]) (zygoteName o)).zygoteCrashes := rfl
  rw [hactive, hcrashes]
  simp only [Bool.false_eq_true, false_iff]
  omega

/-- The first start of the name. -/
theorem follows_first (h : Follows history s) (hc : Claimed history o s.guards guards i)
    (hactive : s.active = false) (hzero : (guardOf history (zygoteName o)).lastPid = 0) :
    Answers history o (shouldSkip o s) := by
  have hafter := guardOf_append_self history o
  simp only [hzero, true_or, if_true, Nat.add_zero] at hafter
  rw [shouldSkip_claimed h hc hactive, if_pos hzero]
  refine ⟨hc.follows h hactive ?_ (inactive_iff hactive ?_), hactive.symm⟩
  · rw [hafter]
    rfl
  · rw [hafter]
    exact hc.count_lt h hactive

/-- The same pid again. -/
theorem follows_same (h : Follows history s) (hc : Claimed history o s.guards guards i)
    (hactive : s.active = false) (hzero : (guardOf history (zygoteName o)).lastPid ≠ 0)
    (hpid : (guardOf history (zygoteName o)).lastPid = o.pid) :
    Answers history o (shouldSkip o s) := by
  have hself := hc.guard_eq h hactive
  have hafter := guardOf_append_self history o
  simp only [hpid, or_true, if_true, Nat.add_zero] at hafter
  rw [shouldSkip_claimed h hc hactive, if_neg hzero, if_neg (not_not.mpr hpid)]
  refine ⟨hc.follows h hactive ?_ (inactive_iff hactive ?_), hactive.symm⟩
  · have hsame : guardOf (history ++ [o]) (zygoteName o) = guardOf history (zygoteName o) := by
      rw [hafter, ← hpid]
      rfl
    rw [hsame]
    apply List.ext_getElem?
    intro j
    rcases eq_or_ne i j with rfl | hij
    · rw [List.getElem?_set_self (List.getElem?_eq_some_iff.mp hself).1, hself]
    · rw [List.getElem?_set_ne hij]
  · rw [hafter]
    exact hc.count_lt h hactive

/-- Another pid is a crash. -/
theorem follows_crash (h : Follows history s) (hc : Claimed history o s.guards guards i)
    (hactive : s.active = false) (hzero : (guardOf history (zygoteName o)).lastPid ≠ 0)
    (hpid : (guardOf history (zygoteName o)).lastPid ≠ o.pid) :
    Answers history o (shouldSkip o s) := by
  have hcount := hc.count_lt h hactive
  have hafter := guardOf_append_self history o
  simp only [hzero, hpid, or_self, if_false] at hafter
  have hval : ((guardOf history (zygoteName o)).zygoteCrashes + 1) % 2 ^ 32 =
      changes (pidsOf (zygoteName o) history) + 1 :=
    Nat.mod_eq_of_lt (by
      unfold zygoteCrashThreshold at hcount
      have hcrashes : (guardOf history (zygoteName o)).zygoteCrashes =
        changes (pidsOf (zygoteName o) history) := rfl
      omega)
  rw [shouldSkip_claimed h hc hactive, if_neg hzero, if_pos hpid]
  simp only [crashed, hval]
  by_cases hthree : zygoteCrashThreshold ≤ changes (pidsOf (zygoteName o) history) + 1
  · rw [if_pos hthree]
    refine ⟨hc.follows h hactive ?_ (iff_of_true rfl ?_), rfl⟩
    · rw [hafter]
    · have hcrashes : changes (pidsOf (zygoteName o) (history ++ [o])) =
          (guardOf (history ++ [o]) (zygoteName o)).zygoteCrashes := rfl
      rw [hcrashes, hafter]
      exact hthree
  · rw [if_neg hthree]
    refine ⟨hc.follows h hactive ?_ (inactive_iff hactive ?_), hactive.symm⟩
    · rw [hafter]
    · rw [hafter]
      exact Nat.lt_of_not_le hthree

/-- **One start.**  The table follows the history, and the answer is whether the safe mode is
active after the start. -/
theorem follows_shouldSkip (h : Follows history s) (o : Observation) :
    Answers history o (shouldSkip o s) := by
  rcases claimSlot_spec h.names o with ⟨i, guards, hc⟩ | hu
  · cases hactive : s.active with
    | true => exact follows_active h hc hactive
    | false =>
      by_cases hzero : (guardOf history (zygoteName o)).lastPid = 0
      · exact follows_first h hc hactive hzero
      · by_cases hpid : (guardOf history (zygoteName o)).lastPid = o.pid
        · exact follows_same h hc hactive hzero hpid
        · exact follows_crash h hc hactive hzero hpid
  · exact follows_unclaimed h hu

/-- **The table follows the history**, after any number of starts. -/
theorem follows_run (history : List Observation) : Follows history (run history) := by
  induction history using List.reverseRecOn with
  | nil =>
    constructor
    · decide
    · constructor
      · intro h
        exact absurd h (by decide)
      · rintro ⟨name, hmem, -⟩
        simp [firstNames, names] at hmem
    · intro _ i name hi
      have hslots : slots [] = List.replicate zygoteGuardMax [] := rfl
      rw [hslots, List.getElem?_replicate] at hi
      split_ifs at hi with h4
      obtain rfl := Option.some.inj hi
      have hguards : (run []).guards = List.replicate zygoteGuardMax {} := rfl
      rw [hguards, List.getElem?_replicate, if_pos h4]
      rfl
  | append_singleton history o ih =>
    rw [run_append]
    exact (follows_shouldSkip ih o).1

/-- **Safe mode is exact.**  After any history of starts, the next one is skipped exactly when, it
included, one of the first four names has changed its pid three times.  Once a start is skipped
all later ones are; and a start with the pid that its name had before counts no change. -/
theorem skips_iff (history : List Observation) (o : Observation) :
    ((shouldSkip o (run history)).1 = true ↔ CrashLoop (history ++ [o])) ∧
    ((run history).active = true → ∀ later o', (shouldSkip o' (run (history ++ later))).1 = true) ∧
    ((pidsOf (zygoteName o) history).getLast? = some o.pid →
      (∀ name, changes (pidsOf name (history ++ [o])) = changes (pidsOf name history)) ∧
        (shouldSkip o (run history)).1 = (run history).active) := by
  have hanswer : ∀ history o, (shouldSkip o (run history)).1 = true ↔
      CrashLoop (history ++ [o]) := by
    intro history o
    obtain ⟨hf, heq⟩ := follows_shouldSkip (follows_run history) o
    rw [heq]
    exact hf.active
  have hstays : ∀ history o, CrashLoop history → CrashLoop (history ++ [o]) := by
    intro history o hc
    have hact := (follows_run history).active.mpr hc
    refine (hanswer history o).mp ?_
    unfold shouldSkip
    rcases claimSlot (zygoteName o) (run history).guards with ⟨slot, guards⟩
    simp only [hact, if_true]
    cases slot <;> rfl
  refine ⟨hanswer history o, ?_, ?_⟩
  · intro hact later o'
    rw [hanswer]
    apply hstays
    induction later using List.reverseRecOn with
    | nil =>
      rw [List.append_nil]
      exact (follows_run history).active.mp hact
    | append_singleton later o'' ih =>
      rw [← List.append_assoc]
      exact hstays _ _ ih
  · intro hlast
    have hsame : ∀ name,
        changes (pidsOf name (history ++ [o])) = changes (pidsOf name history) := by
      intro name
      rw [pidsOf_append]
      split_ifs with hn
      · subst hn
        rw [changes_append, hlast]
        simp
      · rfl
    have hmem : zygoteName o ∈ names history := by
      by_contra hno
      rw [pidsOf_nil hno] at hlast
      simp at hlast
    have hnames : firstNames (history ++ [o]) = firstNames history := by
      rw [firstNames, names_append, if_pos hmem]
      rfl
    refine ⟨hsame, ?_⟩
    rw [Bool.eq_iff_iff, hanswer, (follows_run history).active]
    simp only [CrashLoop, hnames, hsame]

/-- A zygote that is restarted three times, with another one in between. -/
example : (shouldSkip ⟨[97], 4, by decide⟩
    (run [⟨[97], 1, by decide⟩, ⟨[98], 9, by decide⟩, ⟨[97], 2, by decide⟩,
      ⟨[97], 3, by decide⟩])).1 = true := by decide

end YukiZygisk.SafeMode
