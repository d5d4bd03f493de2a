/-
# The daemon's modules and their companions (`userspace/zygisk/daemon/zygiskd.cpp`)

The daemon has one list of zygisk modules and one of native modules, and replaces both whenever
it scans the module directory.  A companion is a process it starts for a module at the first
request for it.  Its record is found by position: `g_companions` is indexed like `g_modules`, and
`g_native_companions` like `g_native_modules`.  A scan does not touch the records.

`companions` runs scans and companion requests in any order; the daemon serves one at a time.  A
scan that puts another module where a record is leaves the module with the process of the one
before it: `not_servesOwn`.  As long as no scan does, every connection goes to a process that was
started from the library of the module that was asked for: `servesOwn_of_keeps`.  The condition is
exact for a scan: after one that breaks it, one request is enough (`misserves_of_not_keeps`).

Both kinds of companions are the same code over two lists, so there is one model of it, with the
module's type as a parameter (`ensure`, `handOut`).  What a record does at a request is four cases
(`ensure_cases`): nothing was looked at, a process was found, none could be started, or one was
started for the module that is there now.  `Keeps` says that every process with an entry is in a
place with no other module that is wanted; a request keeps it (`keeps_ensure`), as a process that it
starts is started for the module in its place.  A connection then has the right library
(`same_of_handOut`, `path_of_handOut`).  The invariant `Aligned` is this for both lists, and that
the connections so far were right.
-/
import YukiZygisk.Lib.Lts

namespace YukiZygisk.Daemon

/-! ## 1. The lists -/

/-- `struct Module`. -/
structure Module where
  name : List UInt8
  libPath : List UInt8
  deriving DecidableEq

/-- `struct NativeModule`. -/
structure NativeModule where
  moduleId : List UInt8
  targetType : UInt8
  target : List UInt8
  libPath : List UInt8
  hasCompanion : Bool
  deriving DecidableEq

/-- `struct Companion`.  A record with a pid is one with a process, which is known here by the
module it was started for. -/
structure Companion (μ : Type) where
  process : Option μ
  hasEntry : Bool
  deriving DecidableEq

/-- A record nothing was started for. -/
def Companion.unset (μ : Type) : Companion μ := ⟨none, false⟩

/-- `ELFCLASS32` and `ELFCLASS64`. -/
def elfClass32 : UInt8 := 1
def elfClass64 : UInt8 := 2

/-- The lists of the daemon.  `elfClass` is its own class, `kElfClass`. -/
structure Lists where
  elfClass : UInt8
  modules : List Module
  nativeTargets : List NativeModule
  nativeModules : List NativeModule
  companions : List (Companion Module)
  nativeCompanions : List (Companion NativeModule)
  deriving DecidableEq

/-- `rescan_modules`, with what `scan_modules` and `scan_native_modules` find and the class
`native_module_elf_class` reads from each library. -/
def Lists.rescanModules (d : Lists) (scanned : List Module)
    (nativeScanned : List (NativeModule × UInt8)) : Lists :=
  { d with
    modules := scanned
    nativeTargets := (nativeScanned.filter fun m => m.2 = elfClass32 ∨ m.2 = elfClass64).map (·.1)
    nativeModules := (nativeScanned.filter fun m =>
      (m.2 = elfClass32 ∨ m.2 = elfClass64) ∧ m.2 = d.elfClass).map (·.1) }

/-! ## 2. Companions -/

/-- What the system does when a companion is started: whether there is a process, and the byte it
writes before the time is up. -/
structure Spawn where
  forked : Bool
  ready : Option UInt8

/-- What the system does at a request for a companion: the start, the socket pair for the caller,
and the message with its other end. -/
structure Env where
  spawn : Spawn
  pair : Bool
  sent : Bool

/-- `std::vector::resize`. -/
def resize {α : Type} (size : Nat) (fill : α) (l : List α) : List α :=
  l.take size ++ List.replicate (size - l.length) fill

section Ensure

variable {μ : Type} (wanted : μ → Bool)

/-- The records, when there is one for each module. -/
def sized (modules : List μ) (companions : List (Companion μ)) : List (Companion μ) :=
  if companions.length ≠ modules.length then
    resize modules.length (Companion.unset μ) companions else companions

/-- The body of `ensure_companion` and of `ensure_native_companion`: whether there is a process
with an entry for the module at this position, and the records after it. -/
def ensure (modules : List μ) (companions : List (Companion μ)) (idx : Nat) (spawn : Spawn) :
    Bool × List (Companion μ) :=
  match modules[idx]? with
  | none => (false, companions)
  | some m =>
    if wanted m = false then (false, companions)
    else
      let companions := sized modules companions
      match companions[idx]? with
      | none => (false, companions)
      | some ⟨some _, hasEntry⟩ => (hasEntry, companions)
      | some ⟨none, _⟩ =>
        if spawn.forked = false then (false, companions)
        else
          match spawn.ready with
          | none => (false, companions)
          | some ready => (ready == 1, companions.set idx ⟨some m, ready == 1⟩)

end Ensure

/-- `ensure_companion`. -/
def ensureCompanion (d : Lists) (idx : Nat) (spawn : Spawn) : Bool × List (Companion Module) :=
  ensure (fun _ => true) d.modules d.companions idx spawn

/-- `ensure_native_companion`. -/
def ensureNativeCompanion (d : Lists) (idx : Nat) (spawn : Spawn) :
    Bool × List (Companion NativeModule) :=
  ensure NativeModule.hasCompanion d.nativeModules d.nativeCompanions idx spawn

/-- The rest of a request: the process that the other end of the connection is sent to. -/
def handOut {μ : Type} (ready : Bool) (companions : List (Companion μ)) (idx : Nat) (env : Env) :
    Option μ :=
  if ready && env.pair && env.sent then companions[idx]?.bind (·.process) else none

/-- `Request::ConnectCompanion`. -/
def connectCompanion (d : Lists) (idx : Nat) (env : Env) : Option Module × Lists :=
  let r := ensureCompanion d idx env.spawn
  (handOut r.1 r.2 idx env, { d with companions := r.2 })

/-- `Request::ConnectNativeCompanion`. -/
def connectNativeCompanion (d : Lists) (idx : Nat) (env : Env) : Option NativeModule × Lists :=
  let r := ensureNativeCompanion d idx env.spawn
  (handOut r.1 r.2 idx env, { d with nativeCompanions := r.2 })

/-! ## 3. One request -/

theorem getElem?_resize_of_lt {α : Type} {size i : Nat} {fill c : α} {l : List α}
    (h : l[i]? = some c) (hi : i < size) : (resize size fill l)[i]? = some c := by
  have hl : i < l.length := (List.getElem?_eq_some_iff.mp h).1
  rw [resize, List.getElem?_append_left (by rw [List.length_take]; omega),
    List.getElem?_take_of_lt hi, h]

theorem mem_of_resize {α : Type} {size i : Nat} {fill c : α} {l : List α}
    (h : (resize size fill l)[i]? = some c) : l[i]? = some c ∨ c = fill := by
  rw [resize, List.getElem?_append] at h
  split_ifs at h with hi
  · rw [List.length_take] at hi
    rw [List.getElem?_take_of_lt (by omega)] at h
    exact .inl h
  · exact .inr (List.eq_of_mem_replicate (List.mem_of_getElem? h))

section Ensure

variable {μ : Type} {wanted : μ → Bool} {modules : List μ} {companions : List (Companion μ)}
  {idx i : Nat} {spawn : Spawn} {env : Env} {m m' : μ}

theorem sized_of_lt {c : Companion μ} (h : companions[i]? = some c) (hi : i < modules.length) :
    (sized modules companions)[i]? = some c := by
  unfold sized
  split
  · exact getElem?_resize_of_lt h hi
  · exact h

theorem of_sized {hasEntry : Bool}
    (h : (sized modules companions)[i]? = some ⟨some m, hasEntry⟩) :
    companions[i]? = some ⟨some m, hasEntry⟩ := by
  unfold sized at h
  split at h
  · rcases mem_of_resize h with h | h
    · exact h
    · cases h
  · exact h

/-- **What a request can do.**  It fails before it looks at a record; or it finds a process, or
starts none, or starts one for the module of this moment. -/
theorem ensure_cases (wanted : μ → Bool) (modules : List μ) (companions : List (Companion μ))
    (idx : Nat) (spawn : Spawn) :
    ensure wanted modules companions idx spawn = (false, companions) ∨
      ∃ m, modules[idx]? = some m ∧ wanted m = true ∧
        ((∃ p hasEntry, (sized modules companions)[idx]? = some ⟨some p, hasEntry⟩ ∧
            ensure wanted modules companions idx spawn = (hasEntry, sized modules companions)) ∨
          ensure wanted modules companions idx spawn = (false, sized modules companions) ∨
          ∃ hasEntry, idx < (sized modules companions).length ∧
            ensure wanted modules companions idx spawn =
              (hasEntry, (sized modules companions).set idx ⟨some m, hasEntry⟩)) := by
  unfold ensure
  cases hm : modules[idx]? with
  | none => exact .inl rfl
  | some m =>
    cases hw : wanted m with
    | false => exact .inl (by simp [hw])
    | true =>
      refine .inr ⟨m, rfl, hw, ?_⟩
      dsimp only
      rw [if_neg (by simp [hw])]
      rcases hc : (sized modules companions)[idx]? with _ | ⟨_ | p, hasEntry⟩
      · exact .inr (.inl rfl)
      · have hlt := (List.getElem?_eq_some_iff.mp hc).1
        dsimp only
        split_ifs
        · exact .inr (.inl rfl)
        · rcases spawn.ready with _ | ready
          · exact .inr (.inl rfl)
          · exact .inr (.inr ⟨ready == 1, hlt, rfl⟩)
      · exact .inl ⟨p, hasEntry, rfl, rfl⟩

/-- A process with an entry that a list of modules leaves its place: where it is, there is no
other module that is wanted. -/
def Keeps (wanted : μ → Bool) (same : μ → μ → Prop) (companions : List (Companion μ))
    (modules : List μ) : Prop :=
  ∀ (i : Nat) (p m : μ), companions[i]? = some ⟨some p, true⟩ → modules[i]? = some m →
    wanted m = true → same p m

variable {same : μ → μ → Prop}

/-- Resizing leaves every process its place. -/
theorem keeps_sized (h : Keeps wanted same companions modules) :
    Keeps wanted same (sized modules companions) modules :=
  fun i p m hp => h i p m (of_sized hp)

/-- A request leaves every process its place. -/
theorem keeps_ensure (h : Keeps wanted same companions modules) (hrefl : ∀ m, same m m) :
    Keeps wanted same (ensure wanted modules companions idx spawn).2 modules := by
  rcases ensure_cases wanted modules companions idx spawn with
    he | ⟨m, hm, -, ⟨p, hasEntry, -, he⟩ | he | ⟨hasEntry, hlt, he⟩⟩
  · rw [he]
    exact h
  · rw [he]
    exact keeps_sized h
  · rw [he]
    exact keeps_sized h
  · rw [he]
    intro i p m' hp hm' hw
    by_cases hi : idx = i
    · subst hi
      rw [List.getElem?_set_self hlt] at hp
      have hpm : m = p := by simpa using congrArg (fun c => c.bind Companion.process) hp
      obtain rfl : m = m' := Option.some.inj (hm.symm.trans hm')
      rw [← hpm]
      exact hrefl m
    · rw [List.getElem?_set_ne hi] at hp
      exact keeps_sized h i p m' hp hm' hw

/-- A request that succeeds has a process with an entry in the place of a module that is
wanted. -/
theorem record_of_ensure (h : (ensure wanted modules companions idx spawn).1 = true) :
    ∃ p m, modules[idx]? = some m ∧ wanted m = true ∧
      (ensure wanted modules companions idx spawn).2[idx]? = some ⟨some p, true⟩ := by
  rcases ensure_cases wanted modules companions idx spawn with
    he | ⟨m, hm, hw, ⟨p, hasEntry, hp, he⟩ | he | ⟨hasEntry, hlt, he⟩⟩
  · rw [he] at h
    cases h
  · rw [he] at h
    obtain rfl : hasEntry = true := h
    exact ⟨p, m, hm, hw, by rw [he, hp]⟩
  · rw [he] at h
    cases h
  · rw [he] at h
    obtain rfl : hasEntry = true := h
    exact ⟨m, m, hm, hw, by rw [he, List.getElem?_set_self hlt]⟩

/-- A process with an entry is found again, for any module in its place that is wanted. -/
theorem ensure_of_record {p : μ} (hp : companions[idx]? = some ⟨some p, true⟩)
    (hm : modules[idx]? = some m) (hw : wanted m = true) (spawn : Spawn) :
    ensure wanted modules companions idx spawn = (true, sized modules companions) := by
  have hc := sized_of_lt hp (List.getElem?_eq_some_iff.mp hm).1
  simp only [ensure, hm, hc, hw]
  rfl

/-- A connection is with the process in the record. -/
theorem handOut_some {ready : Bool} {p : μ} (h : handOut ready companions idx env = some p) :
    ready = true ∧ ∃ hasEntry, companions[idx]? = some ⟨some p, hasEntry⟩ := by
  unfold handOut at h
  split_ifs at h with hok
  simp only [Bool.and_eq_true] at hok
  obtain ⟨⟨process, hasEntry⟩, hc, hp⟩ := Option.bind_eq_some_iff.mp h
  obtain rfl : process = some p := hp
  exact ⟨hok.1.1, hasEntry, hc⟩

/-- **A connection goes to a process for the module that was asked for**, if every process has
kept its place. -/
theorem same_of_handOut (h : Keeps wanted same companions modules) (hrefl : ∀ m, same m m) {p : μ}
    (hout : handOut (ensure wanted modules companions idx spawn).1
      (ensure wanted modules companions idx spawn).2 idx env = some p) :
    ∃ m, modules[idx]? = some m ∧ wanted m = true ∧ same p m := by
  obtain ⟨hready, hasEntry, hp⟩ := handOut_some hout
  obtain ⟨p', m, hm, hw, hp'⟩ := record_of_ensure hready
  have heq := hp.symm.trans hp'
  simp only [Option.some.injEq, Companion.mk.injEq] at heq
  exact ⟨m, hm, hw, keeps_ensure h hrefl idx p m (by rw [hp, heq.2]) hm hw⟩

/-- Modules with one library. -/
def sameLib (path : μ → List UInt8) (p m : μ) : Prop := path p = path m

/-- The libraries of a process that is handed out and of the module that was asked for. -/
theorem path_of_handOut {path : μ → List UInt8} {started : List UInt8}
    (h : Keeps wanted (sameLib path) companions modules)
    (hout : (handOut (ensure wanted modules companions idx spawn).1
      (ensure wanted modules companions idx spawn).2 idx env).map path = some started) :
    modules[idx]?.map path = some started := by
  obtain ⟨p, hp, rfl⟩ := Option.map_eq_some_iff.mp hout
  obtain ⟨m, hm, -, hsame⟩ := same_of_handOut h (fun _ => rfl) hp
  rw [hm, Option.map_some, hsame]

/-- A request for which nothing fails. -/
def served : Env := ⟨⟨true, some 1⟩, true, true⟩

/-- A module in the place of a process is served by it, whatever it was started for. -/
theorem handOut_of_record {p : μ} (hp : companions[idx]? = some ⟨some p, true⟩)
    (hm : modules[idx]? = some m) (hw : wanted m = true) :
    handOut (ensure wanted modules companions idx served.spawn).1
      (ensure wanted modules companions idx served.spawn).2 idx served = some p := by
  have hc := sized_of_lt hp (List.getElem?_eq_some_iff.mp hm).1
  rw [ensure_of_record hp hm hw]
  simp only [handOut, served, Bool.and_self, if_true, hc, Option.bind_some]

/-- Where a place is not kept, a request is served by a process of another library. -/
theorem misserved_of_not_keeps {path : μ → List UInt8}
    (h : ¬ Keeps wanted (sameLib path) companions modules) :
    ∃ idx p m, modules[idx]? = some m ∧ path p ≠ path m ∧
      handOut (ensure wanted modules companions idx served.spawn).1
        (ensure wanted modules companions idx served.spawn).2 idx served = some p := by
  simp only [Keeps, not_forall] at h
  obtain ⟨idx, p, m, hp, hm, hw, hne⟩ := h
  exact ⟨idx, p, m, hm, hne, handOut_of_record hp hm hw⟩

end Ensure

/-! ## 4. Any number of scans and requests -/

/-- A connection that was handed out: the library its process was started from, and the library
of the module at the position that was asked for, at the request. -/
structure Connection where
  started : List UInt8
  asked : Option (List UInt8)
  deriving DecidableEq

/-- The lists, and the connections so far. -/
structure CompanionRun where
  lists : Lists
  handed : List Connection
  deriving DecidableEq

inductive CompanionAct
  | rescan (scanned : List Module) (nativeScanned : List (NativeModule × UInt8))
  | connect (idx : Nat) (env : Env)
  | connectNative (idx : Nat) (env : Env)

/-- The connections after a request. -/
def record (handed : List Connection) (served asked : Option (List UInt8)) : List Connection :=
  match served with
  | none => handed
  | some started => ⟨started, asked⟩ :: handed

def CompanionRun.step (s : CompanionRun) : CompanionAct → Option CompanionRun
  | .rescan scanned nativeScanned =>
    some { s with lists := s.lists.rescanModules scanned nativeScanned }
  | .connect idx env =>
    let (served, lists) := connectCompanion s.lists idx env
    some ⟨lists, record s.handed (served.map Module.libPath)
      (s.lists.modules[idx]?.map Module.libPath)⟩
  | .connectNative idx env =>
    let (served, lists) := connectNativeCompanion s.lists idx env
    some ⟨lists, record s.handed (served.map NativeModule.libPath)
      (s.lists.nativeModules[idx]?.map NativeModule.libPath)⟩

/-- The daemon of this class before its first scan. -/
def listsInit (elfClass : UInt8) : Lists := ⟨elfClass, [], [], [], [], []⟩

/-- Scans and requests in any order. -/
def companions : Lts CompanionRun CompanionAct where
  init s := ∃ elfClass, s = ⟨listsInit elfClass, []⟩
  step := CompanionRun.step

/-- Each connection goes to a process that was started from the library of the module that was at
the position asked for, in every state that these steps reach. -/
def ServesOwn (P : CompanionRun → CompanionAct → Prop) : Prop :=
  ∀ s, companions.Reach P s → ∀ c ∈ s.handed, c.asked = some c.started

/-- In the place of each process with an entry the lists have no module of another library; a
native module that wants no companion does not count. -/
def KeepsProcesses (d : Lists) : Prop :=
  Keeps (fun _ => true) (sameLib Module.libPath) d.companions d.modules ∧
    Keeps NativeModule.hasCompanion (sameLib NativeModule.libPath) d.nativeCompanions
      d.nativeModules

/-- A scan that leaves every process with an entry its place. -/
def KeepsPlaces (s : CompanionRun) : CompanionAct → Prop
  | .rescan scanned nativeScanned => KeepsProcesses (s.lists.rescanModules scanned nativeScanned)
  | _ => True

/-- The invariant: the processes have kept their places, and the connections are right. -/
structure Aligned (s : CompanionRun) : Prop where
  places : KeepsProcesses s.lists
  handed : ∀ c ∈ s.handed, c.asked = some c.started

theorem record_right {handed : List Connection} {served asked : Option (List UInt8)}
    (h : ∀ c ∈ handed, c.asked = some c.started)
    (hs : ∀ started, served = some started → asked = some started) :
    ∀ c ∈ record handed served asked, c.asked = some c.started := by
  intro c hc
  cases served with
  | none => exact h c hc
  | some started =>
    rcases List.mem_cons.mp hc with rfl | hc
    · exact hs started rfl
    · exact h c hc

/-- `Aligned` holds in every run whose scans keep the places. -/
theorem aligned_invariant : companions.Invariant KeepsPlaces Aligned where
  init s hs := by
    obtain ⟨elfClass, rfl⟩ := hs
    refine ⟨⟨?_, ?_⟩, fun c hc => by cases hc⟩
    · intro i p m hp
      cases hp
    · intro i p m hp
      cases hp
  step s a s' hI hP hs := by
    cases a with
    | rescan scanned nativeScanned =>
      obtain rfl := Option.some.inj hs
      exact ⟨hP, hI.handed⟩
    | connect idx env =>
      obtain rfl := Option.some.inj hs
      refine ⟨⟨keeps_ensure hI.places.1 fun _ => rfl, hI.places.2⟩, ?_⟩
      exact record_right hI.handed fun _ => path_of_handOut hI.places.1
    | connectNative idx env =>
      obtain rfl := Option.some.inj hs
      refine ⟨⟨hI.places.1, keeps_ensure hI.places.2 fun _ => rfl⟩, ?_⟩
      exact record_right hI.handed fun _ => path_of_handOut hI.places.2

/-- **Every connection goes to the module's own process, in a run whose scans leave the processes
their places.** -/
theorem servesOwn_of_keeps {P : CompanionRun → CompanionAct → Prop}
    (hP : ∀ s a, P s a → KeepsPlaces s a) : ServesOwn P :=
  fun _ hr => ((hr.mono hP).invariant aligned_invariant).handed

/-- The places of the processes are kept: a test of the lists. -/
def keeps {μ : Type} (path : μ → List UInt8) (companions : List (Companion μ))
    (modules : List μ) : Bool :=
  (companions.zip modules).all fun x => x.1.process.all fun p => path p = path x.2

theorem keeps_of_test {μ : Type} {wanted : μ → Bool} {path : μ → List UInt8}
    {companions : List (Companion μ)} {modules : List μ}
    (h : keeps path companions modules = true) :
    Keeps wanted (sameLib path) companions modules := by
  intro i p m hp hm _
  have hmem : (⟨some p, true⟩, m) ∈ companions.zip modules :=
    List.mem_of_getElem? (List.getElem?_zip_eq_some.mpr ⟨hp, hm⟩)
  have hpath : decide (path p = path m) = true := List.all_eq_true.mp h _ hmem
  rw [decide_eq_true_eq] at hpath
  exact hpath

/-- A test of the guard. -/
def keepsPlaces (s : CompanionRun) : CompanionAct → Bool
  | .rescan scanned nativeScanned =>
    let d := s.lists.rescanModules scanned nativeScanned
    keeps Module.libPath d.companions d.modules &&
      keeps NativeModule.libPath d.nativeCompanions d.nativeModules
  | _ => true

/-- A module is added behind one with a companion, and both are served. -/
theorem servesOwn_sample : ∃ s, companions.Reach KeepsPlaces s ∧ s.handed.length = 3 ∧
    ∀ c ∈ s.handed, c.asked = some c.started := by
  have hall : ServesOwn KeepsPlaces := servesOwn_of_keeps fun _ _ => id
  have hguard : ∀ s a, keepsPlaces s a = true → KeepsPlaces s a := by
    intro s a h
    cases a with
    | rescan scanned nativeScanned =>
      obtain ⟨hmodules, hnative⟩ := Bool.and_eq_true_iff.mp h
      exact ⟨keeps_of_test hmodules, keeps_of_test hnative⟩
    | _ => trivial
  have hrun : ((companions.restrict keepsPlaces).exec ⟨listsInit elfClass64, []⟩
      [.rescan [⟨[97], [1]⟩] [], .connect 0 served, .rescan [⟨[97], [1]⟩, ⟨[98], [2]⟩] [],
        .connect 1 served, .connect 0 served]).any
      (fun s => decide (s.handed.length = 3)) = true := by
    decide +kernel
  obtain ⟨s, hr, hp⟩ := Lts.exists_reach_of_guarded (M := companions) hguard ⟨elfClass64, rfl⟩ _ _
    hrun
  exact ⟨s, hr, of_decide_eq_true hp, hall s hr⟩

/-- **A scan that moves a module needs one more request.**  After a scan that leaves a process
in the place of another library, some connection goes to it. -/
theorem misserves_of_not_keeps {s s' : CompanionRun} {a : CompanionAct} (h : ¬ KeepsPlaces s a)
    (hs : companions.step s a = some s') : ∃ b s'', companions.step s' b = some s'' ∧
      ∃ c ∈ s''.handed, c.asked ≠ some c.started := by
  cases a with
  | connect => exact absurd trivial h
  | connectNative => exact absurd trivial h
  | rescan scanned nativeScanned =>
    obtain rfl := Option.some.inj hs
    rcases not_and_or.mp h with h | h
    · obtain ⟨idx, p, m, hm, hne, hout⟩ := misserved_of_not_keeps h
      refine ⟨.connect idx served, _, rfl, ⟨p.libPath, some m.libPath⟩, ?_, ?_⟩
      · simp only [ensureCompanion, hout, hm, record, Option.map_some]
        exact List.mem_cons_self ..
      · exact fun heq => hne (Option.some.inj heq).symm
    · obtain ⟨idx, p, m, hm, hne, hout⟩ := misserved_of_not_keeps h
      refine ⟨.connectNative idx served, _, rfl, ⟨p.libPath, some m.libPath⟩, ?_, ?_⟩
      · simp only [ensureNativeCompanion, hout, hm, record, Option.map_some]
        exact List.mem_cons_self ..
      · exact fun heq => hne (Option.some.inj heq).symm

/-- **Two modules that change places.**  The second one gets the process of the first one. -/
theorem not_servesOwn : ¬ ServesOwn Lts.anyStep := by
  intro h
  have hrun : (companions.exec ⟨listsInit elfClass64, []⟩
      [.rescan [⟨[97], [1]⟩, ⟨[98], [2]⟩] [], .connect 0 served,
        .rescan [⟨[98], [2]⟩, ⟨[97], [1]⟩] [], .connect 0 served]).any
      (fun s => s.handed.any fun c => decide (c.asked ≠ some c.started)) = true := by
    decide +kernel
  obtain ⟨s, hr, hp⟩ := Lts.exists_reach_of_exec (M := companions) ⟨elfClass64, rfl⟩ _ _ hrun
  obtain ⟨c, hc, hbad⟩ := List.any_eq_true.mp hp
  exact of_decide_eq_true hbad (h s hr c hc)

end YukiZygisk.Daemon
