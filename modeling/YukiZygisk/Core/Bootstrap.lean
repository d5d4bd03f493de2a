/-
# The prctl bootstrap (`kernel/core/bootstrap.c`)

One atomic word, `yz_bootstrap_claim_state`, decides which process receives the privileged
control file.  Four kinds of context move it: the kprobe pre-handler of `prctl`, the task
work a successful pre-handler queues, the delayed guard work, and module exit.  Nothing
else orders them, so the model is a transition system in which every access to shared
memory is one step and the contexts interleave freely.

* A SESSION is one call of `prctl` that reached the pre-handler, with the task work it may
  have queued.  `Phase` is its program counter together with its local variables.
* `phaseStep` is one session's next step: it reads the shared word and the two module
  globals it needs, and returns the new word and phase.
* `Boot.step` interleaves sessions, the guard (`yz_bootstrap_guard_work_fn`), the
  `YZ_IOCTL_DAEMON_READY` report and `yukizygisk_bootstrap_exit`.

What the kernel answers (allocation, fd table, `copy_to_user`, task-work queueing) is an
argument of the action, so every failure can happen at every point.  `unregister_kprobe`
also waits for running pre-handlers; the model lets them run on, which only adds runs.

The session's program is written out as phases with the values that the source keeps in locals, so a
session can be suspended between any two of its accesses.  The guard and the exit are smaller
programs of the same kind.  The claims, the descriptors and the works of all sessions are in one
state, `Boot`; what holds in every run of it is in `BootstrapRuns.lean`.
-/
import YukiZygisk.Basic

namespace YukiZygisk.Bootstrap

/-! ## 1. The shared word and the calls a session makes -/

/-- `enum yz_bootstrap_claim_state`. -/
inductive ClaimState
  | unclaimed | claiming | delivered | ready | closed
  deriving DecidableEq, Repr

/-- `YZ_PRCTL_BOOTSTRAP_OPTION`, `YZ_PRCTL_BOOTSTRAP_MAGIC_YUKIHOOK`,
`YZ_PRCTL_CONTROL_OPTION` and `YZ_PRCTL_CONTROL_MAGIC`. -/
def yzPrctlBootstrapOption : BitVec 32 := 0x595a0001#32
def yzPrctlBootstrapMagicYukihook : ULong := 0x6b6f6f68696b7579#64
def yzPrctlControlOption : BitVec 32 := 0x595a0002#32
def yzPrctlControlMagic : BitVec 32 := 0x797a6374#32

/-- `struct yz_bootstrap_args`: the five registers of one `prctl` call. -/
structure BootstrapArgs where
  option : ULong
  magic1 : ULong
  cookieLo : ULong
  cookieHi : ULong
  outFd : ULong
  deriving DecidableEq, Repr

/-- What the kernel answers while `yz_queue_control_session` runs. -/
structure QueueEnv where
  hasMm : Bool
  rootEuid : Bool
  moduleGet : Bool
  alloc : Bool
  workAdd : Except Errno Unit

/-- `yz_queue_control_session`: whether a session is now on the task's work list. -/
def yzQueueControlSession (available : Bool) (env : QueueEnv) (outFd : ULong) :
    Except Errno Unit :=
  if outFd = 0 ∨ env.hasMm = false ∨ env.rootEuid = false then .error .EPERM
  else if available = false then .error .ENODEV
  else if env.moduleGet = false then .error .ENODEV
  else if env.alloc = false then .error .ENOMEM
  else env.workAdd

/-- What the kernel answers while `yukizygisk_control_install_fd` runs. -/
structure InstallEnv where
  alloc : Bool
  unusedFd : Except Errno Nat
  moduleGet : Bool
  file : Except Errno Unit

/-- `yukizygisk_control_install_fd` (`kernel/core/control.c`): the installed descriptor. -/
def yukizygiskControlInstallFd (available : Bool) (env : InstallEnv) : Except Errno Nat :=
  if available = false then .error .ENODEV
  else if env.alloc = false then .error .ENOMEM
  else match env.unusedFd with
    | .error e => .error e
    | .ok fd =>
      if env.moduleGet = false then .error .ENODEV
      else match env.file with
        | .error e => .error e
        | .ok () => .ok fd

/-- `yukizygisk_bootstrap_daemon_ready`: the word after its compare-and-swap, and the
returned code. -/
def yukizygiskBootstrapDaemonReady (w : ClaimState) : ClaimState × Except Errno Unit :=
  match w with
  | .delivered => (.ready, .ok ())
  | .ready => (.ready, .ok ())
  | .closed => (.closed, .error .ENODEV)
  | w => (w, .error .EAGAIN)

/-! ## 2. A session -/

/-- The program counter of one session: `yz_bootstrap_prctl_pre` up to `refused`, then
`yz_bootstrap_task_work` from `queued` on.  `bootstrap` is `session->bootstrap`. -/
inductive Phase
  /-- no call yet -/
  | idle
  /-- the registers name the bootstrap request; nothing shared was read -/
  | entered (args : BootstrapArgs)
  /-- `cookie_lo` is read -/
  | readLo (args : BootstrapArgs) (lo : ULong)
  /-- both cookie halves are read -/
  | readHi (args : BootstrapArgs) (lo hi : ULong)
  /-- this handler moved the word UNCLAIMED -> CLAIMING -/
  | claimed (outFd : ULong)
  /-- `yz_queue_control_session` failed; the `atomic_set` is next -/
  | refused
  /-- the task work is queued -/
  | queued (bootstrap : Bool) (outFd : ULong)
  /-- the control file is installed; the CLAIMING -> DELIVERED swap is next -/
  | installed (outFd : ULong) (fd : Nat)
  /-- that swap failed; the descriptor is still open -/
  | lostClaim (fd : Nat)
  /-- `copy_to_user` is next -/
  | switched (bootstrap : Bool) (outFd : ULong) (fd : Nat)
  /-- `copy_to_user` failed; the descriptor is still open -/
  | copyFailed (bootstrap : Bool) (fd : Nat)
  /-- the descriptor is closed; the DELIVERED -> UNCLAIMED swap is next -/
  | copyClosed
  /-- `fd < 0`: the CLAIMING -> UNCLAIMED swap is next.  `rolledBack` records that the
  failed copy already ran its own DELIVERED -> UNCLAIMED swap. -/
  | failing (rolledBack : Bool) (err : Errno)
  /-- the descriptor is delivered; clearing the cookie is next -/
  | copied (fd : Nat)
  /-- the session is over and its process has the descriptor open -/
  | holding (bootstrap : Bool) (fd : Nat)
  /-- the session is over and nothing of it is open -/
  | finished
  deriving DecidableEq, Repr

/-- The session has passed its own CLAIMING -> DELIVERED swap, and either its descriptor
is still open or its rollback is still to come. -/
def Phase.pastSwitch : Phase → Bool
  | .switched true _ _ | .copyFailed true _ | .copyClosed | .copied _ | .holding true _ => true
  | _ => false

/-- The bootstrap descriptor of this session is delivered to the process and open. -/
def Phase.deliveredOpen : Phase → Bool
  | .copied _ | .holding true _ => true
  | _ => false

/-- The session claimed the word and has not yet switched it or given it back. -/
def Phase.holdsClaim : Phase → Bool
  | .claimed _ | .refused | .queued true _ | .installed _ _ | .lostClaim _
  | .failing false _ => true
  | _ => false

/-- A bootstrap control file of this session is in its process's fd table. -/
def Phase.bootstrapFileOpen : Phase → Bool
  | .installed _ _ | .lostClaim _ | .switched true _ _ | .copyFailed true _ | .copied _
  | .holding true _ => true
  | _ => false

/-- The next step of a session, with what the kernel answers. -/
inductive SessionAct
  | prctl (args : BootstrapArgs) (env : QueueEnv)
  | readCookieLo
  | readCookieHi
  | claim
  | queue (env : QueueEnv)
  | unclaim
  | install (env : InstallEnv)
  | switch
  | closeLost
  | copy (ok : Bool)
  | closeCopy
  | rollback
  | giveBack
  | clearCookie
  | closeFd

/-- The shared memory a session step reads. -/
structure Shared where
  claimState : ClaimState
  cookieLo : ULong
  cookieHi : ULong
  available : Bool
  registered : Bool

/-- `atomic_cmpxchg(&yz_bootstrap_claim_state, old, new)`: the word afterwards. -/
def cmpxchg (w old new : ClaimState) : ClaimState := if w = old then new else w

/-- One step of one session: the word and the phase afterwards. -/
def phaseStep (g : Shared) : Phase → SessionAct → Option (ClaimState × Phase)
  -- yz_bootstrap_prctl_pre: the kprobe is armed and the registers are read
  | .idle, .prctl args env =>
    if g.registered = false then none
    else if args.option.setWidth 32 = yzPrctlControlOption ∧
        args.magic1.setWidth 32 = yzPrctlControlMagic then
      match yzQueueControlSession g.available env args.cookieLo with
      | .ok () => some (g.claimState, .queued false args.cookieLo)
      | .error _ => some (g.claimState, .finished)
    else if args.option.setWidth 32 ≠ yzPrctlBootstrapOption ∨
        args.magic1 ≠ yzPrctlBootstrapMagicYukihook then some (g.claimState, .finished)
    else some (g.claimState, .entered args)
  | .entered args, .readCookieLo => some (g.claimState, .readLo args g.cookieLo)
  | .readLo args lo, .readCookieHi => some (g.claimState, .readHi args lo g.cookieHi)
  | .readHi args lo hi, .claim =>
    if (lo = 0 ∧ hi = 0) ∨ args.cookieLo ≠ lo ∨ args.cookieHi ≠ hi ∨ args.outFd = 0 then
      some (g.claimState, .finished)
    else if g.claimState = .unclaimed then some (.claiming, .claimed args.outFd)
    else some (g.claimState, .finished)
  | .claimed outFd, .queue env =>
    match yzQueueControlSession g.available env outFd with
    | .ok () => some (g.claimState, .queued true outFd)
    | .error _ => some (g.claimState, .refused)
  -- atomic_set, whatever the word is by now
  | .refused, .unclaim => some (.unclaimed, .finished)
  -- yz_bootstrap_task_work
  | .queued bootstrap outFd, .install env =>
    match yukizygiskControlInstallFd g.available env, bootstrap with
    | .ok fd, true => some (g.claimState, .installed outFd fd)
    | .ok fd, false => some (g.claimState, .switched false outFd fd)
    | .error e, true => some (g.claimState, .failing false e)
    | .error _, false => some (g.claimState, .finished)
  | .installed outFd fd, .switch =>
    if g.claimState = .claiming then some (.delivered, .switched true outFd fd)
    else some (g.claimState, .lostClaim fd)
  | .lostClaim _, .closeLost => some (g.claimState, .failing false .ECANCELED)
  | .switched bootstrap outFd fd, .copy ok =>
    if outFd ≠ 0 ∧ ok = false then some (g.claimState, .copyFailed bootstrap fd)
    else if bootstrap then some (g.claimState, .copied fd)
    else some (g.claimState, .holding false fd)
  | .copyFailed bootstrap _, .closeCopy =>
    some (g.claimState, if bootstrap then .copyClosed else .finished)
  | .copyClosed, .rollback =>
    some (cmpxchg g.claimState .delivered .unclaimed, .failing true .EFAULT)
  -- the second write-back of a failed delivery: no check of whose claim it is
  | .failing _ _, .giveBack => some (cmpxchg g.claimState .claiming .unclaimed, .finished)
  | .copied fd, .clearCookie => some (g.claimState, .holding true fd)
  | .holding _ _, .closeFd => some (g.claimState, .finished)
  | _, _ => none

/-! ## 3. The guard work and module exit -/

/-- Where `yz_bootstrap_guard_work_fn` is. -/
inductive Guard
  /-- not scheduled -/
  | off
  /-- scheduled for this jiffy -/
  | scheduled (due : Nat)
  | started
  /-- `atomic_read` returned this state, neither READY nor CLOSED -/
  | sampled (state : ClaimState)
  /-- both waiting conditions failed; the swap to CLOSED is next -/
  | closing (state : ClaimState)
  /-- the gate is closed; clearing the cookie is next -/
  | shut
  | cleared
  | unregistered
  deriving DecidableEq, Repr

/-- Where `yukizygisk_bootstrap_exit` is. -/
inductive Exit
  | notYet | stored | cleared | cancelled | done
  deriving DecidableEq, Repr

/-- The module's globals, the clock, and every session.  `owner` is a ghost: the session
whose own compare-and-swap put the word in CLAIMING, while the word stays there. -/
structure Boot where
  shared : Shared
  jiffies : Nat
  guardDelay : Nat
  guardDeadline : Nat
  guard : Guard
  exit : Exit
  sessions : Nat → Phase
  owner : Option Nat

/-- The module parameters and the tick rate `yukizygisk_bootstrap_init` reads. -/
structure Params where
  cookieLo : ULong
  cookieHi : ULong
  guardDelaySec : Nat
  guardMaxSec : Nat
  hz : Nat

/-- `yukizygisk_bootstrap_init` with the kprobe registered, at jiffy `now`. -/
def yukizygiskBootstrapInit (p : Params) (now : Nat) : Boot :=
  let hasCookie := p.cookieLo ≠ 0 ∨ p.cookieHi ≠ 0
  { shared :=
      { claimState := if hasCookie then .unclaimed else .closed
        cookieLo := p.cookieLo
        cookieHi := p.cookieHi
        available := true
        registered := true }
    jiffies := now
    guardDelay := max 1 p.guardDelaySec * p.hz
    guardDeadline := if hasCookie then now + max 1 p.guardMaxSec * p.hz else 0
    guard := if hasCookie then .scheduled (now + max 1 p.guardDelaySec * p.hz) else .off
    exit := .notYet
    sessions := fun _ => .idle
    owner := none }

/-- `schedule_delayed_work(&yz_bootstrap_guard_work, delay)`. -/
def Boot.reschedule (b : Boot) : Boot := { b with guard := .scheduled (b.jiffies + b.guardDelay) }

/-- Store a new value of the word.  The ghost owner is the session that just moved it to
CLAIMING, and is dropped when the word leaves CLAIMING. -/
def Boot.setClaimState (b : Boot) (w : ClaimState) (claimant : Option Nat) : Boot :=
  { b with
    shared := { b.shared with claimState := w }
    owner := if w ≠ .claiming then none
      else if b.shared.claimState = .claiming then b.owner else claimant }

def Boot.setPhase (b : Boot) (c : Nat) (p : Phase) : Boot :=
  { b with sessions := Function.update b.sessions c p }

/-- `yz_bootstrap_clear_cookie`. -/
def Boot.clearCookie (b : Boot) : Boot :=
  { b with shared := { b.shared with cookieLo := 0, cookieHi := 0 } }

/-- `yz_bootstrap_unregister_kprobe`. -/
def Boot.unregister (b : Boot) : Boot :=
  { b with shared := { b.shared with registered := false } }

/-- One step of any context. -/
inductive Act
  | tick (n : Nat)
  | session (c : Nat) (a : SessionAct)
  | daemonReady (c : Nat)
  | guardStart
  | guardRead
  | guardDecide (servicesOrLater : Bool)
  | guardClose
  | guardClear
  | guardUnregister
  | guardFailClosed
  | exitStore
  | exitClear
  | exitCancel
  | exitUnregister

def Boot.sessionStep (b : Boot) (c : Nat) (a : SessionAct) : Option Boot :=
  match phaseStep b.shared (b.sessions c) a with
  | none => none
  | some (w, p) =>
    let b' := (b.setClaimState w (some c)).setPhase c p
    match a with
    | .clearCookie => some b'.clearCookie
    | _ => some b'

def Boot.step (b : Boot) : Act → Option Boot
  | .tick n => some { b with jiffies := b.jiffies + n }
  | .session c a => b.sessionStep c a
  -- YZ_IOCTL_DAEMON_READY needs an open bootstrap control file
  | .daemonReady c =>
    if b.shared.available = false ∨ (b.sessions c).bootstrapFileOpen = false then none
    else
      let b' := b.setClaimState (yukizygiskBootstrapDaemonReady b.shared.claimState).1 none
      match b.shared.claimState, b.guard with
      -- cancel_delayed_work does not wait: a running guard goes on
      | .delivered, .scheduled _ => some { b' with guard := .off }
      | _, _ => some b'
  | .guardStart =>
    match b.guard with
    | .scheduled due => if due ≤ b.jiffies then some { b with guard := .started } else none
    | _ => none
  | .guardRead =>
    match b.guard with
    | .started =>
      match b.shared.claimState with
      | .ready | .closed => some { b with guard := .off }
      | st => some { b with guard := .sampled st }
    | _ => none
  | .guardDecide servicesOrLater =>
    match b.guard with
    | .sampled st =>
      if st = .claiming ∧ b.jiffies < b.guardDeadline then some b.reschedule
      else if servicesOrLater = false ∧ b.jiffies < b.guardDeadline then some b.reschedule
      else some { b with guard := .closing st }
    | _ => none
  | .guardClose =>
    match b.guard with
    | .closing st =>
      if b.shared.claimState = st then some { b.setClaimState .closed none with guard := .shut }
      else some b.reschedule
    | _ => none
  | .guardClear =>
    match b.guard with
    | .shut => some { b.clearCookie with guard := .cleared }
    | _ => none
  | .guardUnregister =>
    match b.guard with
    | .cleared => some { b.unregister with guard := .unregistered }
    | _ => none
  -- yukizygisk_bootstrap_fail_closed: yukizygisk_control_exit and the other stages
  | .guardFailClosed =>
    match b.guard with
    | .unregistered =>
      some { b with shared := { b.shared with available := false }, guard := .off }
    | _ => none
  | .exitStore =>
    match b.exit with
    | .notYet => some { b.setClaimState .closed none with exit := .stored }
    | _ => none
  | .exitClear =>
    match b.exit with
    | .stored => some { b.clearCookie with exit := .cleared }
    | _ => none
  -- cancel_delayed_work_sync: waits for a running guard
  | .exitCancel =>
    match b.exit, b.guard with
    | .cleared, .off | .cleared, .scheduled _ =>
      some { b with guard := .off, exit := .cancelled }
    | _, _ => none
  | .exitUnregister =>
    match b.exit with
    | .cancelled => some { b.unregister with exit := .done }
    | _ => none

/-- The bootstrap of a module loaded with any parameters at any time. -/
def boot : Lts Boot Act where
  init b := ∃ p now, b = yukizygiskBootstrapInit p now
  step := Boot.step

end YukiZygisk.Bootstrap
