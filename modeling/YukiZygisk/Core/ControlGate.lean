/-
# The control file and the teardown (`kernel/core/control.c`, `module.c`)

A control file is an anonymous file whose `ioctl` reaches every part of the driver.  Three things
keep it safe while the driver is torn down: a read-write semaphore around the dispatcher with a flag
that says whether it may run, the order in which the parts are torn down, and a reference to the
module for every open file and every delivery under way.

Processes duplicate, close and use the files, deliveries install new ones, the guard may tear the
driver down at any time, and the module is unloaded when nothing refers to it.  All of this
interleaves freely.  In every run

* a request is dispatched only while every part of the driver is up (`dispatch_safe`);
* once a teardown is past the control stage no request is dispatched any more (`gate_closed`);
* from the moment the module goes, no file is open, no request is under way and no delivery is
  pending (`unload_safe`).

A file has its users, the descriptors that refer to it, and the requests that are under way on it,
each in a phase of the dispatcher.  `Counted` says that the references to the module are the open
files and the deliveries under way, so a module without references has no open file; a request is on
an open file, as the caller's descriptor keeps it open.  `Gated` says which phases are possible
while a writer holds the semaphore or the flag is down: a request that waits or has looked at the
flag, but none in the dispatcher.  Stopping the stages is the last part of a teardown, behind the
flag, which is why a live dispatcher sees every stage up.  The flag is put up once, when the module
starts, so a gate that has been closed stays closed.
-/
import Mathlib
import YukiZygisk.Lib.Lts
import YukiZygisk.Lib.Tally

namespace YukiZygisk.ControlGate

open Tally

/-! ## 1. The driver -/

/-- The stages of the driver that are torn down with the bootstrap skipped. -/
inductive Stage where
  | control
  | ctl
  | orch
  | nl
  | probe
  | lsm
  | host
  deriving DecidableEq

/-- The order of `yukizygisk_deactivate_locked`. -/
def order : List Stage := [.control, .ctl, .orch, .nl, .probe, .lsm, .host]

/-- Where a call of `yukizygisk_ioctl` is. -/
inductive CallPhase where
  /-- before `down_read` -/
  | entering
  /-- holds the semaphore, has not read the flag -/
  | reading
  /-- in `yukizygisk_ioctl_dispatch` -/
  | dispatching
  /-- has read that the file is not available -/
  | refused
  /-- after `up_read`; the kernel still holds the file for the call -/
  | returning
  deriving DecidableEq

/-- The calls that hold the semaphore. -/
def CallPhase.holds : CallPhase → Bool
  | .entering => false
  | .reading => true
  | .dispatching => true
  | .refused => true
  | .returning => false

/-- A control file: its descriptors in all processes, and the calls on it. -/
structure File where
  fds : Nat
  bootstrap : Bool
  calls : List CallPhase
  deriving DecidableEq

/-- What keeps a file from being released. -/
def File.users (F : File) : Nat := F.fds + F.calls.length

/-- Where a run of `yukizygisk_deactivate_locked` is: before the lock, before the first of these
stages, in `yukizygisk_control_exit` with the semaphore held for writing, or returned. -/
inductive TeardownPhase where
  | locking
  | before (rest : List Stage)
  | draining (rest : List Stage)
  | finished
  deriving DecidableEq

structure Driver where
  /-- `yz_control_available` -/
  available : Bool
  /-- `yz_control_sem` is held for writing -/
  writing : Bool
  files : List File
  /-- deliveries on the work list of a task; whether they have read the flag -/
  sessions : List Bool
  /-- the reference count of the module -/
  refs : Nat
  /-- the module is not going -/
  loaded : Bool
  /-- `yz_lifecycle_lock` is held -/
  locked : Bool
  /-- the flags `yz_stage_*_active` -/
  active : Stage → Bool
  /-- the stages whose exit has not run, and those that were started -/
  live : Stage → Bool
  started : Stage → Bool
  teardowns : List TeardownPhase

/-- What the module looks like when its initialisation has returned. -/
def Driver.Initial (d : Driver) : Prop :=
  d.available = d.active .control ∧ d.writing = false ∧ d.files = [] ∧ d.sessions = [] ∧
    d.refs = 0 ∧ d.loaded = true ∧ d.locked = false ∧ d.live = d.active ∧ d.started = d.active ∧
    d.teardowns = []

/-! ## 2. Steps -/

inductive Act where
  /-- `yz_queue_control_session` succeeds -/
  | queue
  /-- a delivery reads the flag in `yukizygisk_control_install_fd` -/
  | check (i : Nat)
  /-- it goes on; `ok`: allocation, descriptor, module reference and file succeed -/
  | install (i : Nat) (ok bootstrap : Bool)
  | dup (f : Nat)
  | close (f : Nat)
  | ioctl (f : Nat)
  /-- call `i` on file `f` goes on -/
  | call (f i : Nat)
  /-- `yukizygisk_bootstrap_fail_closed`, or the exit of an unloaded module -/
  | deactivate
  /-- `delete_module` -/
  | unload
  /-- teardown `t` goes on -/
  | teardown (t : Nat)

/-- A file after a descriptor or a call has gone: the last one releases it, and
`yukizygisk_release` gives the module's reference back. -/
def Driver.put (d : Driver) (f : Nat) (F : File) : Driver :=
  { d with files := d.files.set f F, refs := if F.users = 0 then d.refs - 1 else d.refs }

/-- `yukizygisk_ioctl`, one step. -/
def Driver.callStep (d : Driver) (f i : Nat) (F : File) : CallPhase → Option Driver
  | .entering =>
    if d.writing then none
    else some { d with files := d.files.set f { F with calls := F.calls.set i .reading } }
  | .reading =>
    let next := if d.available then CallPhase.dispatching else .refused
    some { d with files := d.files.set f { F with calls := F.calls.set i next } }
  | .dispatching =>
    some { d with files := d.files.set f { F with calls := F.calls.set i .returning } }
  | .refused =>
    some { d with files := d.files.set f { F with calls := F.calls.set i .returning } }
  | .returning => some (d.put f { F with calls := F.calls.eraseIdx i })

/-- Whether some call holds the semaphore. -/
def Driver.hasReader (d : Driver) : Bool := d.files.any fun F => F.calls.any (·.holds)

/-- `yukizygisk_deactivate_locked` with the lock around it, one step. -/
def Driver.teardownStep (d : Driver) (t : Nat) : TeardownPhase → Option Driver
  | .locking =>
    if d.locked then none
    else some { d with locked := true, teardowns := d.teardowns.set t (.before order) }
  | .before [] => some { d with locked := false, teardowns := d.teardowns.set t .finished }
  | .before (st :: rest) =>
    if d.active st = false then some { d with teardowns := d.teardowns.set t (.before rest) }
    else if st = .control then
      -- `down_write` waits for the readers
      if d.writing || d.hasReader then none
      else some { d with writing := true, teardowns := d.teardowns.set t (.draining rest) }
    else
      some { d with
        live := Function.update d.live st false
        active := Function.update d.active st false
        teardowns := d.teardowns.set t (.before rest) }
  | .draining rest =>
    some { d with
      available := false
      writing := false
      live := Function.update d.live .control false
      active := Function.update d.active .control false
      teardowns := d.teardowns.set t (.before rest) }
  | .finished => none

def Driver.step (d : Driver) : Act → Option Driver
  | .queue =>
    if d.available && d.loaded then
      some { d with refs := d.refs + 1, sessions := d.sessions ++ [false] }
    else none
  | .check i =>
    match d.sessions[i]? with
    | some false =>
      if d.available then some { d with sessions := d.sessions.set i true }
      else some { d with sessions := d.sessions.eraseIdx i, refs := d.refs - 1 }
    | _ => none
  | .install i ok bootstrap =>
    match d.sessions[i]? with
    | some true =>
      if ok then
        -- the file's reference comes, the delivery's goes
        some { d with
          sessions := d.sessions.eraseIdx i
          files := d.files ++ [⟨1, bootstrap, []⟩] }
      else some { d with sessions := d.sessions.eraseIdx i, refs := d.refs - 1 }
    | _ => none
  | .dup f =>
    match d.files[f]? with
    | some F => if 0 < F.fds then some { d with files := d.files.set f { F with fds := F.fds + 1 } }
                else none
    | none => none
  | .close f =>
    match d.files[f]? with
    | some F => if 0 < F.fds then some (d.put f { F with fds := F.fds - 1 }) else none
    | none => none
  | .ioctl f =>
    match d.files[f]? with
    | some F =>
      if 0 < F.fds then
        some { d with files := d.files.set f { F with calls := F.calls ++ [.entering] } }
      else none
    | none => none
  | .call f i =>
    match d.files[f]? with
    | some F =>
      match F.calls[i]? with
      | some phase => d.callStep f i F phase
      | none => none
    | none => none
  | .deactivate => some { d with teardowns := d.teardowns ++ [.locking] }
  | .unload =>
    if d.loaded && d.refs == 0 then
      some { d with loaded := false, teardowns := d.teardowns ++ [.locking] }
    else none
  | .teardown t =>
    match d.teardowns[t]? with
    | some phase => d.teardownStep t phase
    | none => none

def driver : Lts Driver Act where
  init := Driver.Initial
  step := Driver.step

variable {d d' : Driver} {a : Act} {F : File}

/-! ## 3. Who refers to the module -/

/-- An open file counts for one reference. -/
def File.weight (F : File) : Nat := if F.users = 0 then 0 else 1

/-- The module's references are the open files and the deliveries; a module that goes has none. -/
structure Counted (d : Driver) : Prop where
  refs : d.refs = tally File.weight d.files + d.sessions.length
  gone : d.loaded = false → d.refs = 0

theorem length_eraseIdx_getElem? {α : Type*} {l : List α} {i : Nat} {x : α} (h : l[i]? = some x) :
    (l.eraseIdx i).length + 1 = l.length := by
  have hi := (List.getElem?_eq_some_iff.mp h).1
  rw [List.length_eraseIdx_of_lt hi]
  omega

/-- A file that stays open counts as before. -/
theorem Counted.set {f : Nat} {F' : File} (h : Counted d) (hF : d.files[f]? = some F)
    (hopen : 0 < F.users) (hopen' : 0 < F'.users) :
    Counted { d with files := d.files.set f F' } := by
  constructor
  · have htally := tally_set File.weight hF F'
    have hw : F.weight = 1 := if_neg (by omega)
    have hw' : F'.weight = 1 := if_neg (by omega)
    have := h.refs
    simp only
    omega
  · exact h.gone

theorem counted_put {f : Nat} {F' : File} (h : Counted d) (hF : d.files[f]? = some F)
    (hopen : 0 < F.users) : Counted (d.put f F') := by
  have htally := tally_set File.weight hF F'
  have hw : F.weight = 1 := if_neg (by omega)
  have hrefs := h.refs
  constructor
  · simp only [Driver.put]
    split_ifs with hidle
    · have hw' : F'.weight = 0 := if_pos hidle
      omega
    · have hw' : F'.weight = 1 := if_neg hidle
      omega
  · intro hgone
    have hzero := h.gone hgone
    have hle := le_tally File.weight (List.mem_of_getElem? hF)
    omega

theorem counted_callStep {f i : Nat} {phase : CallPhase} (h : Counted d)
    (hF : d.files[f]? = some F) (hphase : F.calls[i]? = some phase)
    (hstep : d.callStep f i F phase = some d') : Counted d' := by
  have hcalls := (List.getElem?_eq_some_iff.mp hphase).1
  have hopen : 0 < F.users := by
    simp only [File.users]
    omega
  have hset : ∀ c : CallPhase, 0 < ({ F with calls := F.calls.set i c } : File).users := by
    intro c
    simp only [File.users, List.length_set]
    omega
  cases phase with
  | entering =>
    simp only [Driver.callStep] at hstep
    split_ifs at hstep
    obtain rfl := Option.some.inj hstep
    exact h.set hF hopen (hset _)
  | reading =>
    obtain rfl := Option.some.inj hstep
    exact h.set hF hopen (hset _)
  | dispatching =>
    obtain rfl := Option.some.inj hstep
    exact h.set hF hopen (hset _)
  | refused =>
    obtain rfl := Option.some.inj hstep
    exact h.set hF hopen (hset _)
  | returning =>
    obtain rfl := Option.some.inj hstep
    exact counted_put h hF hopen

/-- A teardown touches neither files nor references. -/
theorem teardownStep_frame {t : Nat} {phase : TeardownPhase}
    (hstep : d.teardownStep t phase = some d') :
    d'.files = d.files ∧ d'.sessions = d.sessions ∧ d'.refs = d.refs ∧ d'.loaded = d.loaded := by
  cases phase with
  | locking =>
    simp only [Driver.teardownStep] at hstep
    split_ifs at hstep
    obtain rfl := Option.some.inj hstep
    exact ⟨rfl, rfl, rfl, rfl⟩
  | before rest =>
    cases rest with
    | nil =>
      obtain rfl := Option.some.inj hstep
      exact ⟨rfl, rfl, rfl, rfl⟩
    | cons st rest =>
      simp only [Driver.teardownStep] at hstep
      split_ifs at hstep
      all_goals
        obtain rfl := Option.some.inj hstep
        exact ⟨rfl, rfl, rfl, rfl⟩
  | draining rest =>
    obtain rfl := Option.some.inj hstep
    exact ⟨rfl, rfl, rfl, rfl⟩
  | finished => cases hstep

/-- Every step keeps the count of references. -/
theorem counted_step (h : Counted d) (hstep : driver.step d a = some d') : Counted d' := by
  have hrefs := h.refs
  cases a with
  | queue =>
    simp only [driver, Driver.step, Bool.and_eq_true] at hstep
    split_ifs at hstep with hq
    obtain rfl := Option.some.inj hstep
    constructor
    · simp only [List.length_append, List.length_singleton]
      omega
    · intro hgone
      simp [hq.2] at hgone
  | check i =>
    simp only [driver, Driver.step] at hstep
    cases hs : d.sessions[i]? with
    | none => simp [hs] at hstep
    | some checked =>
      have hlen := length_eraseIdx_getElem? hs
      cases checked with
      | true => simp [hs] at hstep
      | false =>
        simp only [hs] at hstep
        split_ifs at hstep
        · obtain rfl := Option.some.inj hstep
          exact ⟨by simpa using hrefs, h.gone⟩
        · obtain rfl := Option.some.inj hstep
          constructor
          · simp only
            omega
          · intro hgone
            have := h.gone hgone
            simp only
            omega
  | install i ok bootstrap =>
    simp only [driver, Driver.step] at hstep
    cases hs : d.sessions[i]? with
    | none => simp [hs] at hstep
    | some checked =>
      have hlen := length_eraseIdx_getElem? hs
      cases checked with
      | false => simp [hs] at hstep
      | true =>
        simp only [hs] at hstep
        split_ifs at hstep
        · obtain rfl := Option.some.inj hstep
          constructor
          · simp only [tally_append, tally_cons, tally_nil, File.weight, File.users, List.length_nil]
            simp only [Nat.add_zero, one_ne_zero, if_false]
            omega
          · exact h.gone
        · obtain rfl := Option.some.inj hstep
          constructor
          · simp only
            omega
          · intro hgone
            have := h.gone hgone
            simp only
            omega
  | dup f =>
    simp only [driver, Driver.step] at hstep
    cases hF : d.files[f]? with
    | none => simp [hF] at hstep
    | some F =>
      simp only [hF] at hstep
      split_ifs at hstep with hfds
      obtain rfl := Option.some.inj hstep
      apply h.set hF
      · simp only [File.users]
        omega
      · simp only [File.users]
        omega
  | close f =>
    simp only [driver, Driver.step] at hstep
    cases hF : d.files[f]? with
    | none => simp [hF] at hstep
    | some F =>
      simp only [hF] at hstep
      split_ifs at hstep with hfds
      obtain rfl := Option.some.inj hstep
      apply counted_put h hF
      simp only [File.users]
      omega
  | ioctl f =>
    simp only [driver, Driver.step] at hstep
    cases hF : d.files[f]? with
    | none => simp [hF] at hstep
    | some F =>
      simp only [hF] at hstep
      split_ifs at hstep with hfds
      obtain rfl := Option.some.inj hstep
      apply h.set hF
      · simp only [File.users]
        omega
      · simp only [File.users]
        omega
  | call f i =>
    simp only [driver, Driver.step] at hstep
    cases hF : d.files[f]? with
    | none => simp [hF] at hstep
    | some F =>
      cases hphase : F.calls[i]? with
      | none => simp [hF, hphase] at hstep
      | some phase =>
        simp only [hF, hphase] at hstep
        exact counted_callStep h hF hphase hstep
  | deactivate =>
    obtain rfl := Option.some.inj hstep
    exact ⟨hrefs, h.gone⟩
  | unload =>
    simp only [driver, Driver.step, Bool.and_eq_true, beq_iff_eq] at hstep
    split_ifs at hstep with hun
    obtain rfl := Option.some.inj hstep
    exact ⟨hrefs, fun _ => hun.2⟩
  | teardown t =>
    simp only [driver, Driver.step] at hstep
    cases ht : d.teardowns[t]? with
    | none => simp [ht] at hstep
    | some phase =>
      simp only [ht] at hstep
      obtain ⟨hfiles, hsessions, hr, hl⟩ := teardownStep_frame hstep
      constructor
      · rw [hfiles, hsessions, hr]
        exact hrefs
      · rw [hr, hl]
        exact h.gone

theorem counted_invariant (P : Driver → Act → Prop) : driver.Invariant P Counted where
  init d hd := by
    obtain ⟨-, -, hfiles, hsessions, hrefs, hloaded, -⟩ := hd
    constructor
    · rw [hrefs, hfiles, hsessions]
      rfl
    · intro hgone
      simp [hloaded] at hgone
  step _ _ _ h _ hstep := counted_step h hstep

/-- **The module goes last.**  From the moment it is being unloaded no delivery is pending, and no
control file has a descriptor in any process or a call under way. -/
theorem unload_safe {P : Driver → Act → Prop} (h : driver.Reach P d) (hgone : d.loaded = false) :
    d.sessions = [] ∧ ∀ F ∈ d.files, F.fds = 0 ∧ F.calls = [] := by
  have hinv := h.invariant (counted_invariant P)
  have hzero := hinv.gone hgone
  have hrefs := hinv.refs
  constructor
  · exact List.eq_nil_of_length_eq_zero (by omega)
  · intro F hF
    have hle := le_tally File.weight hF
    have husers : F.users = 0 := by
      by_contra hne
      have hw : F.weight = 1 := if_neg hne
      omega
    simp only [File.users] at husers
    exact ⟨by omega, List.eq_nil_of_length_eq_zero (by omega)⟩

/-- All stages are up and nobody has a control file. -/
def loadedDriver : Driver :=
  ⟨true, false, [], [], 0, true, false, fun _ => true, fun _ => true, fun _ => true, []⟩

theorem initial_loadedDriver : driver.init loadedDriver :=
  ⟨rfl, rfl, rfl, rfl, rfl, rfl, rfl, rfl, rfl, rfl⟩

/-- The only descriptor is closed during a request; the file goes with the request, and then the
module. -/
theorem unload_safe_lastFile : ∃ d : Driver, d.sessions = [] ∧
    ∀ F ∈ d.files, F.fds = 0 ∧ F.calls = [] := by
  obtain ⟨d, hr, hd⟩ := Lts.exists_reach_of_exec initial_loadedDriver [.queue, .check 0,
    .install 0 true false, .ioctl 0, .close 0, .call 0 0, .call 0 0, .call 0 0, .call 0 0, .unload]
    (fun d => !d.loaded) (by decide)
  exact ⟨d, unload_safe hr (by simpa using hd)⟩

/-! ## 4. The gate -/

/-- Every call on every file meets `P`. -/
def AllCalls (P : CallPhase → Prop) (files : List File) : Prop := ∀ F ∈ files, ∀ c ∈ F.calls, P c

theorem AllCalls.set {P : CallPhase → Prop} {files : List File} (h : AllCalls P files) (f : Nat)
    (hF : ∀ c ∈ F.calls, P c) : AllCalls P (files.set f F) := by
  intro F' hF'
  obtain hmem | rfl := List.mem_or_eq_of_mem_set hF'
  · exact h F' hmem
  · exact hF

/-- The semaphore and the flag, of one call: none holds it against a writer, and one that is
dispatched has the flag. -/
def Allowed (writing available : Bool) (c : CallPhase) : Prop :=
  (writing = true → c.holds = false) ∧ (c = .dispatching → available = true)

def TeardownPhase.drains : TeardownPhase → Nat
  | .draining _ => 1
  | .locking => 0
  | .before _ => 0
  | .finished => 0

/-- A teardown before these stages is before all of them, or the flag is cleared. -/
def TeardownPhase.fits (available : Bool) : TeardownPhase → Prop
  | .before rest => rest = order ∨ available = false
  | .finished => available = false
  | .locking => True
  | .draining _ => True

structure Gated (d : Driver) : Prop where
  calls : AllCalls (Allowed d.writing d.available) d.files
  drains : tally TeardownPhase.drains d.teardowns = if d.writing then 1 else 0
  fits : ∀ T ∈ d.teardowns, T.fits d.available
  flag : d.available = true → d.active .control = true
  live : ∀ st ≠ .control, d.live st = d.started st ∨ d.available = false

theorem AllCalls.set_call {P : CallPhase → Prop} {files : List File} (h : AllCalls P files)
    {f i : Nat} (hF : files[f]? = some F) {c : CallPhase} (hc : P c) :
    AllCalls P (files.set f { F with calls := F.calls.set i c }) := by
  apply h.set f
  intro c' hc'
  obtain hmem | rfl := List.mem_or_eq_of_mem_set hc'
  · exact h F (List.mem_of_getElem? hF) c' hmem
  · exact hc

/-- **A request goes one phase on**; it enters the dispatcher only while the flag is up. -/
theorem gated_callStep {f i : Nat} {phase : CallPhase} (h : Gated d) (hF : d.files[f]? = some F)
    (hphase : F.calls[i]? = some phase) (hstep : d.callStep f i F phase = some d') :
    Gated d' := by
  have hP := h.calls F (List.mem_of_getElem? hF) phase (List.mem_of_getElem? hphase)
  cases phase with
  | entering =>
    simp only [Driver.callStep] at hstep
    split_ifs at hstep with hw
    obtain rfl := Option.some.inj hstep
    constructor
    · apply h.calls.set_call hF
      constructor
      · exact fun hw' => absurd hw' hw
      · rintro ⟨⟩
    · exact h.drains
    · exact h.fits
    · exact h.flag
    · exact h.live
  | reading =>
    obtain rfl := Option.some.inj hstep
    constructor
    · apply h.calls.set_call hF
      have hw : d.writing ≠ true := by
        intro hw
        have := hP.1 hw
        simp [CallPhase.holds] at this
      split_ifs with ha
      · exact ⟨fun hw' => absurd hw' hw, fun _ => ha⟩
      · constructor
        · exact fun hw' => absurd hw' hw
        · rintro ⟨⟩
    · exact h.drains
    · exact h.fits
    · exact h.flag
    · exact h.live
  | dispatching =>
    obtain rfl := Option.some.inj hstep
    constructor
    · apply h.calls.set_call hF
      constructor
      · exact fun _ => rfl
      · rintro ⟨⟩
    · exact h.drains
    · exact h.fits
    · exact h.flag
    · exact h.live
  | refused =>
    obtain rfl := Option.some.inj hstep
    constructor
    · apply h.calls.set_call hF
      constructor
      · exact fun _ => rfl
      · rintro ⟨⟩
    · exact h.drains
    · exact h.fits
    · exact h.flag
    · exact h.live
  | returning =>
    obtain rfl := Option.some.inj hstep
    constructor
    · apply h.calls.set f
      intro c hc
      exact h.calls F (List.mem_of_getElem? hF) c (List.mem_of_mem_eraseIdx hc)
    · exact h.drains
    · exact h.fits
    · exact h.flag
    · exact h.live

theorem fits_set {t : Nat} {T : TeardownPhase} {available : Bool}
    (h : ∀ T ∈ d.teardowns, T.fits available) (hT : T.fits available) :
    ∀ T' ∈ d.teardowns.set t T, T'.fits available := by
  intro T' hT'
  obtain hmem | rfl := List.mem_or_eq_of_mem_set hT'
  · exact h T' hmem
  · exact hT

/-- Clearing the flag keeps every teardown in its place. -/
theorem TeardownPhase.fits_false {T : TeardownPhase} : T.fits false := by
  cases T with
  | before rest => exact .inr rfl
  | finished => rfl
  | locking => trivial
  | draining rest => trivial

/-- A teardown goes one phase on; it takes the flag down while it is the only one inside. -/
theorem gated_teardownStep {t : Nat} {phase : TeardownPhase} (h : Gated d)
    (ht : d.teardowns[t]? = some phase) (hstep : d.teardownStep t phase = some d') :
    Gated d' := by
  have hfits := h.fits phase (List.mem_of_getElem? ht)
  have htally := fun T => tally_set TeardownPhase.drains ht T
  have hdrains := h.drains
  cases phase with
  | locking =>
    simp only [Driver.teardownStep] at hstep
    split_ifs at hstep
    obtain rfl := Option.some.inj hstep
    constructor
    · exact h.calls
    · have := htally (.before order)
      simp only [TeardownPhase.drains] at this
      simp only
      omega
    · exact fits_set h.fits (.inl rfl)
    · exact h.flag
    · exact h.live
  | before rest =>
    cases rest with
    | nil =>
      obtain rfl := Option.some.inj hstep
      constructor
      · exact h.calls
      · have := htally .finished
        simp only [TeardownPhase.drains] at this
        simp only
        omega
      · apply fits_set h.fits
        exact hfits.resolve_left (by simp [order])
      · exact h.flag
      · exact h.live
    | cons st rest =>
      have hfirst : st ≠ .control → d.available = false := by
        intro hst
        exact hfits.resolve_left fun heq => hst (List.cons.inj heq).1
      have hnext : (TeardownPhase.before rest).drains = 0 := rfl
      have hthis : (TeardownPhase.before (st :: rest)).drains = 0 := rfl
      simp only [Driver.teardownStep] at hstep
      split_ifs at hstep with hactive hst hbusy
      · -- a stage that is not active is passed; for the control stage the flag is off by then
        have hoff : d.available = false := by
          by_cases hst : st = .control
          · rw [hst] at hactive
            cases hav : d.available with
            | false => rfl
            | true => simp [h.flag hav] at hactive
          · exact hfirst hst
        obtain rfl := Option.some.inj hstep
        constructor
        · exact h.calls
        · have := htally (.before rest)
          simp only
          omega
        · exact fits_set h.fits (.inr hoff)
        · exact h.flag
        · exact h.live
      · -- `down_write`: no reader is in, and none comes in until `up_write`
        obtain rfl := Option.some.inj hstep
        simp only [Bool.or_eq_true, not_or, Bool.not_eq_true] at hbusy
        constructor
        · intro F hF c hc
          constructor
          · intro _
            have hquiet := hbusy.2
            simp only [Driver.hasReader, List.any_eq_false] at hquiet
            have := hquiet F hF
            simp only [List.any_eq_true, not_exists, not_and] at this
            simpa using this c hc
          · exact (h.calls F hF c hc).2
        · have hmid := htally (.draining rest)
          have hone : (TeardownPhase.draining rest).drains = 1 := rfl
          rw [hbusy.1] at hdrains
          simp only [if_true, Bool.false_eq_true, if_false] at hdrains ⊢
          omega
        · exact fits_set h.fits trivial
        · exact h.flag
        · exact h.live
      · have hoff := hfirst hst
        obtain rfl := Option.some.inj hstep
        constructor
        · exact h.calls
        · have := htally (.before rest)
          simp only
          omega
        · exact fits_set h.fits (.inr hoff)
        · intro hav
          simp [hoff] at hav
        · exact fun _ _ => .inr hoff
  | draining rest =>
    have hthis : (TeardownPhase.draining rest).drains = 1 := rfl
    have hwriting : d.writing = true := by
      have hle := le_tally TeardownPhase.drains (List.mem_of_getElem? ht)
      by_contra hw
      rw [if_neg hw] at hdrains
      omega
    obtain rfl := Option.some.inj hstep
    constructor
    · intro F hF c hc
      constructor
      · rintro ⟨⟩
      · rintro rfl
        have := (h.calls F hF _ hc).1 hwriting
        simp [CallPhase.holds] at this
    · have := htally (.before rest)
      have hnext : (TeardownPhase.before rest).drains = 0 := rfl
      rw [hwriting, if_pos rfl] at hdrains
      simp only [Bool.false_eq_true, if_false]
      omega
    · exact fun _ _ => TeardownPhase.fits_false
    · rintro ⟨⟩
    · exact fun _ _ => .inr rfl
  | finished => cases hstep

/-- A step that leaves the semaphore, the flag and the stages alone. -/
theorem Gated.frame (h : Gated d) (hw : d'.writing = d.writing) (ha : d'.available = d.available)
    (hactive : d'.active = d.active) (hlive : d'.live = d.live) (hstarted : d'.started = d.started)
    (hdrains : tally TeardownPhase.drains d'.teardowns = tally TeardownPhase.drains d.teardowns)
    (hfits : ∀ T ∈ d'.teardowns, T ∈ d.teardowns ∨ T = .locking)
    (hcalls : AllCalls (Allowed d.writing d.available) d'.files) : Gated d' := by
  constructor
  · rw [hw, ha]
    exact hcalls
  · rw [hdrains, hw]
    exact h.drains
  · intro T hT
    rw [ha]
    obtain hmem | rfl := hfits T hT
    · exact h.fits T hmem
    · trivial
  · rw [ha, hactive]
    exact h.flag
  · rw [ha, hlive, hstarted]
    exact h.live

/-- Every step keeps the gate. -/
theorem gated_step (h : Gated d) (hstep : driver.step d a = some d') : Gated d' := by
  cases a with
  | queue =>
    simp only [driver, Driver.step] at hstep
    split_ifs at hstep
    obtain rfl := Option.some.inj hstep
    exact h.frame rfl rfl rfl rfl rfl rfl (fun _ => .inl) h.calls
  | check i =>
    simp only [driver, Driver.step] at hstep
    cases hs : d.sessions[i]? with
    | none => simp [hs] at hstep
    | some checked =>
      cases checked with
      | true => simp [hs] at hstep
      | false =>
        simp only [hs] at hstep
        split_ifs at hstep
        all_goals
          obtain rfl := Option.some.inj hstep
          exact h.frame rfl rfl rfl rfl rfl rfl (fun _ => .inl) h.calls
  | install i ok bootstrap =>
    simp only [driver, Driver.step] at hstep
    cases hs : d.sessions[i]? with
    | none => simp [hs] at hstep
    | some checked =>
      cases checked with
      | false => simp [hs] at hstep
      | true =>
        simp only [hs] at hstep
        split_ifs at hstep
        · obtain rfl := Option.some.inj hstep
          have hcalls : AllCalls (Allowed d.writing d.available)
              (d.files ++ [⟨1, bootstrap, []⟩]) := by
            intro F hF
            obtain hmem | hnew := List.mem_append.mp hF
            · exact h.calls F hmem
            · obtain rfl := List.mem_singleton.mp hnew
              rintro c ⟨⟩
          exact h.frame rfl rfl rfl rfl rfl rfl (fun _ => .inl) hcalls
        · obtain rfl := Option.some.inj hstep
          exact h.frame rfl rfl rfl rfl rfl rfl (fun _ => .inl) h.calls
  | dup f =>
    simp only [driver, Driver.step] at hstep
    cases hF : d.files[f]? with
    | none => simp [hF] at hstep
    | some F =>
      simp only [hF] at hstep
      split_ifs at hstep
      obtain rfl := Option.some.inj hstep
      exact h.frame rfl rfl rfl rfl rfl rfl (fun _ => .inl)
        (h.calls.set f (h.calls F (List.mem_of_getElem? hF)))
  | close f =>
    simp only [driver, Driver.step] at hstep
    cases hF : d.files[f]? with
    | none => simp [hF] at hstep
    | some F =>
      simp only [hF] at hstep
      split_ifs at hstep
      obtain rfl := Option.some.inj hstep
      exact h.frame rfl rfl rfl rfl rfl rfl (fun _ => .inl)
        (h.calls.set f (h.calls F (List.mem_of_getElem? hF)))
  | ioctl f =>
    simp only [driver, Driver.step] at hstep
    cases hF : d.files[f]? with
    | none => simp [hF] at hstep
    | some F =>
      simp only [hF] at hstep
      split_ifs at hstep
      obtain rfl := Option.some.inj hstep
      have hcalls : AllCalls (Allowed d.writing d.available)
          (d.files.set f { F with calls := F.calls ++ [.entering] }) := by
        apply h.calls.set f
        intro c hc
        obtain hmem | hnew := List.mem_append.mp hc
        · exact h.calls F (List.mem_of_getElem? hF) c hmem
        · obtain rfl := List.mem_singleton.mp hnew
          constructor
          · exact fun _ => rfl
          · rintro ⟨⟩
      exact h.frame rfl rfl rfl rfl rfl rfl (fun _ => .inl) hcalls
  | call f i =>
    simp only [driver, Driver.step] at hstep
    cases hF : d.files[f]? with
    | none => simp [hF] at hstep
    | some F =>
      cases hphase : F.calls[i]? with
      | none => simp [hF, hphase] at hstep
      | some phase =>
        simp only [hF, hphase] at hstep
        exact gated_callStep h hF hphase hstep
  | deactivate =>
    obtain rfl := Option.some.inj hstep
    exact h.frame rfl rfl rfl rfl rfl (by simp [TeardownPhase.drains])
      (fun T hT => by simpa using hT) h.calls
  | unload =>
    simp only [driver, Driver.step] at hstep
    split_ifs at hstep
    obtain rfl := Option.some.inj hstep
    exact h.frame rfl rfl rfl rfl rfl (by simp [TeardownPhase.drains])
      (fun T hT => by simpa using hT) h.calls
  | teardown t =>
    simp only [driver, Driver.step] at hstep
    cases ht : d.teardowns[t]? with
    | none => simp [ht] at hstep
    | some phase =>
      simp only [ht] at hstep
      exact gated_teardownStep h ht hstep

theorem gated_invariant (P : Driver → Act → Prop) : driver.Invariant P Gated where
  init d hd := by
    obtain ⟨hav, hw, hfiles, -, -, -, -, hlive, hstarted, hteardowns⟩ := hd
    constructor
    · rw [hfiles]
      rintro F ⟨⟩
    · rw [hteardowns, hw]
      rfl
    · rw [hteardowns]
      rintro T ⟨⟩
    · rw [hav]
      exact id
    · rw [hlive, hstarted]
      exact fun _ _ => .inl rfl
  step _ _ _ h _ hstep := gated_step h hstep

/-- **A request is dispatched only while the whole driver is up.**  In every run of deliveries,
requests on any control files, teardowns and unloading, each stage that was started is still there
while a call is in the dispatcher. -/
theorem dispatch_safe {P : Driver → Act → Prop} (h : driver.Reach P d) (hF : F ∈ d.files)
    (hc : .dispatching ∈ F.calls) {st : Stage} (hst : st ≠ .control) :
    d.available = true ∧ d.live st = d.started st := by
  have hinv := h.invariant (gated_invariant P)
  have hav := (hinv.calls F hF _ hc).2 rfl
  constructor
  · exact hav
  · exact (hinv.live st hst).resolve_right (by simp [hav])

/-- A delivery, and a request on the file that is let in. -/
def firstRequest : List Act := [.queue, .check 0, .install 0 true true, .ioctl 0, .call 0 0, .call 0 0]

theorem dispatch_safe_firstRequest : ∃ d : Driver, ∀ st ≠ .control,
    d.available = true ∧ d.live st = d.started st := by
  obtain ⟨d, hr, hd⟩ := Lts.exists_reach_of_exec initial_loadedDriver firstRequest
    (fun d => d.files == [⟨1, true, [.dispatching]⟩]) (by decide)
  rw [beq_iff_eq] at hd
  exact ⟨d, fun st hst => dispatch_safe hr (F := ⟨1, true, [.dispatching]⟩) (by simp [hd]) (by simp)
    hst⟩

/-- A teardown that has left the control stage behind. -/
def TeardownPhase.pastControl : TeardownPhase → Prop
  | .before rest => rest ≠ order
  | .finished => True
  | .locking => False
  | .draining _ => False

/-- The flag is never put up again. -/
theorem available_step (hoff : d.available = false) (hstep : driver.step d a = some d') :
    d'.available = false := by
  cases a with
  | call f i =>
    simp only [driver, Driver.step] at hstep
    cases hF : d.files[f]? with
    | none => simp [hF] at hstep
    | some F =>
      cases hphase : F.calls[i]? with
      | none => simp [hF, hphase] at hstep
      | some phase =>
        simp only [hF, hphase] at hstep
        cases phase with
        | entering =>
          simp only [Driver.callStep] at hstep
          split_ifs at hstep
          obtain rfl := Option.some.inj hstep
          exact hoff
        | _ =>
          obtain rfl := Option.some.inj hstep
          exact hoff
  | teardown t =>
    simp only [driver, Driver.step] at hstep
    cases ht : d.teardowns[t]? with
    | none => simp [ht] at hstep
    | some phase =>
      simp only [ht] at hstep
      cases phase with
      | locking =>
        simp only [Driver.teardownStep] at hstep
        split_ifs at hstep
        obtain rfl := Option.some.inj hstep
        exact hoff
      | before rest =>
        cases rest with
        | nil =>
          obtain rfl := Option.some.inj hstep
          exact hoff
        | cons st rest =>
          simp only [Driver.teardownStep] at hstep
          split_ifs at hstep
          all_goals
            obtain rfl := Option.some.inj hstep
            exact hoff
      | draining rest =>
        obtain rfl := Option.some.inj hstep
        rfl
      | finished => cases hstep
  | queue =>
    simp only [driver, Driver.step, hoff] at hstep
    cases hstep
  | deactivate =>
    obtain rfl := Option.some.inj hstep
    exact hoff
  | unload =>
    simp only [driver, Driver.step] at hstep
    split_ifs at hstep
    obtain rfl := Option.some.inj hstep
    exact hoff
  | _ =>
    simp only [driver, Driver.step] at hstep
    split at hstep
    · split_ifs at hstep
      all_goals
        obtain rfl := Option.some.inj hstep
        exact hoff
    · cases hstep

/-- **A closed gate stays closed.**  Once some teardown is past the control stage, no call is in the
dispatcher, in this state or in any later one. -/
theorem gate_closed {P : Driver → Act → Prop} (h : driver.Reach P d) {T : TeardownPhase}
    (hT : T ∈ d.teardowns) (hpast : T.pastControl) (hp : driver.Path P d d') (hF : F ∈ d'.files) :
    .dispatching ∉ F.calls := by
  have hinv := h.invariant (gated_invariant P)
  have hoff : d.available = false := by
    have hfits := hinv.fits T hT
    cases T with
    | before rest => exact hfits.resolve_left hpast
    | finished => exact hfits
    | locking => exact hpast.elim
    | draining rest => exact hpast.elim
  have hoff' : d'.available = false :=
    Lts.Path.preserve (J := fun d => d.available = false) h hp
      (fun _ _ _ _ hoff _ hstep => available_step hoff hstep) hoff
  intro hc
  have hav := ((h.path hp).invariant (gated_invariant P)).calls F hF _ hc
  simp [hoff', Allowed] at hav

/-- The driver is torn down while a call has not entered yet; the call then finds the gate shut. -/
def lateCall : List Act :=
  [.queue, .check 0, .install 0 true true, .ioctl 0, .deactivate, .teardown 0, .teardown 0,
    .teardown 0]

theorem gate_closed_lateCall : ∃ d : Driver, ∀ F ∈ d.files, .dispatching ∉ F.calls := by
  obtain ⟨d, d', hr, hp, hd, -⟩ := Lts.exists_path_of_exec initial_loadedDriver lateCall
    [.call 0 0, .call 0 0]
    (fun d => d.teardowns == [.before [.ctl, .orch, .nl, .probe, .lsm, .host]])
    (fun d => d.files == [⟨1, true, [.refused]⟩]) (by decide)
  rw [beq_iff_eq] at hd
  exact ⟨d', fun F hF => gate_closed hr
    (T := .before [.ctl, .orch, .nl, .probe, .lsm, .host]) (by simp [hd])
    (by simp [TeardownPhase.pastControl, order]) hp hF⟩

end YukiZygisk.ControlGate
