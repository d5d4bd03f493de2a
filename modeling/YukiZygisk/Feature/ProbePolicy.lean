/-
# The holders of temporary policy (`kernel/feature/zygote_probe.c`)

Three kinds of call ask for temporary policy, or hand it back.

* An INJECTION runs in a process that has just exec'ed.  The hook only queues it, as a task work
  of the process, which may start at any time after, also when the hook is gone.  It stages its
  payload files with one `struct yz_file_load_policy` on its stack, and in the end publishes that
  record as a pending entry of the process.
* A MODULE REQUEST allows a directory for a process and keeps the record in a holder.
* A RESTORE REQUEST for a process takes its entries and its holders off the two lists, cancels
  their timeout works and hands their records back.  The teardown does so for every holder.

The daemon may also ask for the permanent grants, which no record owns.  The timeout work of an
entry or a holder is one more call.  `probe` runs all of them in any order.  A call in progress is
the list of operations it has still to run, and one operation is what a call does between two
points at which another one can run: the sections under a mutex, the calls into `policy_temp.c`,
the works that are scheduled or cancelled, the memory that is freed.

A variable of type `struct yz_file_load_policy` is the name of a record of `TempRun`: `none`
for a zeroed one.  Copying a record to its holder and zeroing the copied one moves the name.

The interleaving is at the points where the source lets it in.  `zp_native_policy_lock` and
`zp_module_policy_lock` protect their lists; a module request holds the second one from its first
call into the policy to its end, and `moduleLocked` keeps the others out meanwhile.  The timeouts
are delayed works, which may start between any two operations of others, and which
`cancel_delayed_work_sync` stops or waits for.  A work that runs to its look at its holder, and
finds the holder gone from its list, does nothing more.  The teardown is a call as well, with the
stages of `module.c` as its operations.

Some fields are read by no operation: which grants were given, which permissions were made
permanent, how often a holder's record was handed back and its memory freed.  They are what the
theorems speak of.
-/
import YukiZygisk.Host.TempRuns
import YukiZygisk.Lib.Lifetime

namespace YukiZygisk.Policy

variable [AvtabFns]

/-! ## 1. Records by name -/

/-- The record a variable names. -/
def TempRun.named (s : TempRun) (name : Option Nat) : Option Holder :=
  name.bind fun i => (s.cells[i]?).join

/-- The value of the variable. -/
def TempRun.value (s : TempRun) (name : Option Nat) : FileLoadPolicy :=
  match s.named name with
  | some h => h.state
  | none => .zero

/-- The machine of the temporary policy after a call into it. -/
def TempRun.after (s : TempRun) (call : Option TempAct) : TempRun :=
  match call with
  | some a => (s.step a).getD s
  | none => s

/-- The call returns `0`. -/
def TempRun.returns (s : TempRun) (call : Option TempAct) : Bool :=
  match call with
  | none => true
  | some (.allowFileCurrent file current env) =>
    (yzHostPolicyAllowFileCurrent s.temp file current .zero env).2.2.isOk
  | some (.allowFileCred file cred env) =>
    (yzHostPolicyAllowFileCred s.temp file cred .zero env).2.2.isOk
  | some (.allowExecmemCurrent target current env) =>
    (s.target target).any fun h =>
      (yzHostPolicyAllowExecmemCurrent s.temp current h.state env).2.2.isOk
  | some (.allowExecmemCred target cred env) =>
    (s.target target).any fun h =>
      (yzHostPolicyAllowExecmemCred s.temp cred h.state env).2.2.isOk
  | some (.restore i env) =>
    (s.cells[i]?).join.all fun h => (yzHostPolicyRestore s.temp h.state env).2.isOk
  | some (.prepareRuntime current env) =>
    (yzHostPolicyPrepareRuntimeCurrent s.temp.base current env).2.isOk

end YukiZygisk.Policy

namespace YukiZygisk.Probe

open Policy Lifetime

/-! ## 2. Holders, calls and the state -/

/-- `zp_native_policy_has_additions`. -/
def zpNativePolicyHasAdditions (state : FileLoadPolicy) : Bool := !decide state.Empty

/-- The list a holder is made for. -/
inductive HolderKind
  | native | module
  deriving DecidableEq

/-- `struct zp_native_policy_pending` and `struct zp_module_policy_holder`, which have the same
fields.  `restores` and `frees` are ghosts: how often its record was handed to a restore, and
how often its memory was freed. -/
structure PolicyHolder where
  kind : HolderKind
  tgid : Int
  state : Option Nat
  timeout : Work
  pending : Bool
  restores : Nat
  frees : Nat

/-- What a call has still to do. -/
inductive Op
  /-- `zp_stage_fd` with the injection's record, up to its allow; `early` tells an early native
  module from the loader -/
  | stageFd (early : Bool)
  /-- the rest of `zp_stage_fd`: the copy of the file gets its descriptor -/
  | installFd (early : Bool)
  /-- `zp_stage_fd` of the core, without a record -/
  | stageCore
  /-- the end of `zp_stage_early_native_packet` -/
  | stagePacket
  | allowExecmemCurrent
  /-- from `vm_mmap` to `zp_write_stack_at_entry` -/
  | redirect
  | publish
  | giveBack
  /-- the sections under a mutex of `yz_zygote_probe_restore_native_policy` and
  `zp_restore_module_policy` -/
  | collectNative
  | collectModule
  /-- `yz_zygote_probe_allow_module_policy`, from its lock to its unlock -/
  | allowCred
  | allowExecmemCred
  | arm
  | rollback
  /-- `yz_host_policy_prepare_runtime_current` -/
  | prepareRuntime
  /-- `yukizygisk_deactivate_locked`, as far as it touches the policy and who asks for it -/
  | controlExit
  | probeExit
  | unregister
  | hostExit
  /-- what the source does to one holder outside the mutexes, and its timeout work -/
  | on (p : Phase) (h : Nat)
  deriving DecidableEq

/-- A call in progress: whether it is a control request, its arguments, the record on its
stack, `hdr->count` of the early packet, and the operations ahead. -/
structure Call where
  control : Bool
  tgid : Int
  cred : Option Cred
  dir : Option File
  state : Option Nat
  staged : Nat
  ops : List Op

/-- A module request that returned `0`, with what it required, until a restore request for its
process.  A ghost. -/
structure ModuleGrant where
  tgid : Int
  required : List (PolicyKey × Av)
  since : Nat

/-- The answers of the kernel to one operation: whether its fallible calls succeed, the file a
path opens to, and the environments of a policy edit. -/
structure OpEnv where
  ok : Bool
  file : Option File
  edit : EditEnv
  runtime : RuntimeEnv

/-- `enum zp_inject_kind` with what `zp_inject_tw_func` derives from it: whether a zygote is
loaded through yukilinker, and how many early modules match a native target. -/
inductive InjectKind
  | zygote (yuki : Bool)
  | native (early : Option Nat)

/-- `struct zp_inject_tw`, which the hook queues to the task of process `tgid`. -/
structure InjectTw where
  tgid : Int
  native : Bool
  earlyNative : Bool
  deriving DecidableEq

/-- What the queued work turns out to be when it starts. -/
def InjectTw.kind (tw : InjectTw) (yuki : Bool) (count : Nat) : InjectKind :=
  if tw.native then .native (if tw.earlyNative then some count else none) else .zygote yuki

/-- The operations of `zp_inject_tw_func` that touch its record, in their order. -/
def zpInjectTwFunc : InjectKind → List Op
  | .zygote yuki =>
    .stageFd false :: (if yuki then [.stageCore] else []) ++
      [.allowExecmemCurrent, .redirect, .publish]
  | .native none => [.stageFd false, .stageCore, .allowExecmemCurrent, .redirect, .publish]
  | .native (some count) =>
    [.stageFd false, .stageCore] ++ List.replicate count (.stageFd true) ++
      [.stagePacket, .allowExecmemCurrent, .redirect, .publish]

inductive ProbeAct
  /-- a process execs, and the hook queues its task work -/
  | exec (tw : InjectTw)
  /-- the task work at `j` in the queue starts -/
  | inject (j : Nat) (cred : Cred) (yuki : Bool) (count : Nat)
  /-- `yz_zygote_probe_restore_native_policy` -/
  | restoreRequest (tgid : Int)
  /-- `yz_zygote_probe_allow_module_policy`; `alloc` is whether its `kzalloc` succeeds -/
  | allowModule (tgid : Int) (dir : Option File) (cred : Option Cred) (alloc : Bool)
  /-- `YZ_IOCTL_PREPARE_RUNTIME_POLICY` -/
  | prepareRuntime (current : Cred)
  /-- `yukizygisk_deactivate_locked` -/
  | deactivate
  /-- a timer expires, and its work starts -/
  | fire (h : Nat)
  /-- jiffies pass -/
  | tick (n : Nat)
  /-- call `i` runs its next operation -/
  | run (i : Nat) (env : OpEnv)

section State

variable [AvtabFns]

structure ProbeRun where
  run : TempRun
  holders : List PolicyHolder
  nativePending : List Nat
  moduleHolders : List Nat
  /-- `zp_module_policy_lock` is held across operations -/
  moduleLocked : Bool
  /-- the task works that the hook has queued, and that have not started yet -/
  queued : List InjectTw
  calls : List Call
  jiffies : Nat
  hz : Nat
  /-- the bprm hook is registered -/
  hooked : Bool
  /-- `yz_control_available` -/
  controlAvailable : Bool
  probeActive : Bool
  hostActive : Bool
  /-- `yz_lifecycle_lock` is held -/
  deactivating : Bool
  grants : List ModuleGrant
  /-- what the permanent grants have added to the live policy; a ghost -/
  permanent : PolicyKey → Av

variable (s : ProbeRun)

/-- `ZP_NATIVE_POLICY_TIMEOUT` and `ZP_MODULE_POLICY_TIMEOUT`. -/
def ProbeRun.policyTimeout : Nat := 10 * s.hz

def ProbeRun.start (c : Call) : ProbeRun := { s with calls := s.calls ++ [c] }

def ProbeRun.setCall (i : Nat) (c : Call) : ProbeRun := { s with calls := s.calls.set i c }

def ProbeRun.setHolder (h : Nat) (p : PolicyHolder) : ProbeRun :=
  { s with holders := s.holders.set h p }

/-- Take holders off their list: they are not pending any more. -/
def takeOff (hs : List Nat) (holders : List PolicyHolder) : List PolicyHolder :=
  holders.mapIdx fun h p => if h ∈ hs then { p with pending := false } else p

/-- The loop over what was taken off a list: each holder is cancelled, handed back and freed. -/
def drain (hs : List Nat) : List Op := hs.map (.on .cancel)

def ProbeRun.hasTgid (tgid : Int) (h : Nat) : Bool :=
  (s.holders[h]?).any fun p => p.tgid = tgid

/-- `!holder->pending || holder->tgid != tgid` is false. -/
def ProbeRun.isPendingOf (tgid : Int) (h : Nat) : Bool :=
  (s.holders[h]?).any fun p => p.pending && decide (p.tgid = tgid)

/-- `zp_module_policy_same`. -/
def ProbeRun.zpModulePolicySame (tgid : Int) (state : FileLoadPolicy) (h : Nat) : Bool :=
  (s.holders[h]?).any fun p =>
    p.pending && decide (p.tgid = tgid) &&
      decide ((s.run.value p.state).srcType = state.srcType) &&
      decide ((s.run.value p.state).tgtType = state.tgtType) &&
      decide ((s.run.value p.state).targetClass = state.targetClass) &&
      decide ((s.run.value p.state).dirClass = state.dirClass)

/-! ## 3. The calls into the temporary policy -/

/-- `zp_restore_native_policy_state` and `yz_host_file_load_policy_restore` on the record a
variable names: a record without additions is left alone. -/
def ProbeRun.restoreCall (name : Option Nat) (env : OpEnv) : Option TempAct :=
  match name with
  | none => none
  | some i =>
    if zpNativePolicyHasAdditions (s.run.value (some i)) then some (.restore i env.edit) else none

/-- The module request finds a holder that its record can share. -/
def ProbeRun.sharedHolder (c : Call) : Option Nat :=
  s.moduleHolders.find? (s.zpModulePolicySame c.tgid (s.run.value c.state))

/-- The call into `policy_temp.c` that an operation makes. -/
def ProbeRun.opCall (c : Call) (op : Op) (env : OpEnv) : Option TempAct :=
  match op with
  | .stageFd _ => env.file.map fun file =>
      .allowFileCurrent (some file) (c.cred.getD ⟨none⟩) env.edit
  | .installFd _ => if env.ok then none else s.restoreCall c.state env
  | .allowExecmemCurrent =>
    some (.allowExecmemCurrent c.state (c.cred.getD ⟨none⟩) env.edit)
  | .giveBack | .rollback => s.restoreCall c.state env
  | .allowCred => some (.allowFileCred c.dir c.cred env.edit)
  | .allowExecmemCred => some (.allowExecmemCred c.state c.cred env.edit)
  | .arm => if (s.sharedHolder c).isSome then s.restoreCall c.state env else none
  | .prepareRuntime => some (.prepareRuntime (c.cred.getD ⟨none⟩) env.runtime)
  | .on .restore h | .on .restoreSelf h =>
    (s.holders[h]?).bind fun p => s.restoreCall p.state env
  | _ => none

/-- The variable after a file load, which zeroes it before it fills it in. -/
def ProbeRun.loaded (call : Option TempAct) : Option Nat :=
  if s.run.returns call then some s.run.cells.length else none

/-- The variable after an execmem request, which fills it in and zeroes nothing. -/
def ProbeRun.widened (name : Option Nat) (call : Option TempAct) : Option Nat :=
  match name with
  | some i => some i
  | none => s.loaded call

/-- The variable after a restore.  A record without additions is not touched; another one is
zeroed whatever the restore returned. -/
def restored (name : Option Nat) (call : Option TempAct) : Option Nat :=
  if call.isSome then none else name

/-- What the permanent grants have added once the call is made. -/
def ProbeRun.permitted (call : Option TempAct) : PolicyKey → Av :=
  match call with
  | some (.prepareRuntime _ _) => fun k =>
    s.permanent k ||| ((s.run.after call).temp.base.direct k &&& ~~~(s.run.temp.base.direct k))
  | _ => s.permanent

/-! ## 4. The operations

Each is the state after the call into the policy, `t`, with what the rest of the operation
does.  `c` is the call without the operation, and `s` the state before it. -/

section Operations

variable (t : ProbeRun) (i : Nat) (c : Call) (env : OpEnv) (call : Option TempAct)

/-- `goto out` without a record. -/
def ProbeRun.quit : ProbeRun := t.setCall i { c with state := none, ops := [] }

/-- `zp_restore_native_policy_state` on the injection's record, and `goto out`. -/
def ProbeRun.fail : ProbeRun := t.setCall i { c with ops := [.giveBack] }

/-- `zp_stage_fd`, up to its allow.  What the allow returns is only logged. -/
def ProbeRun.zpStageFd (early : Bool) : ProbeRun :=
  match env.file with
  | none => t.setCall i (if early then c else { c with ops := [] })
  | some _ => t.setCall i { c with state := s.loaded call, ops := .installFd early :: c.ops }

/-- The rest of `zp_stage_fd`.  A failed early module is skipped. -/
def ProbeRun.zpInstallFd (early : Bool) : ProbeRun :=
  if env.ok then t.setCall i { c with staged := c.staged + if early then 1 else 0 }
  else if early then t.setCall i { c with state := restored c.state call }
  else t.quit i c

/-- `zp_publish_native_policy_state`, up to its unlock: the entries that its process has already
are taken off the list, and the record becomes a new one. -/
def ProbeRun.zpPublishNativePolicyState : ProbeRun :=
  if !zpNativePolicyHasAdditions (s.run.value c.state) then t.quit i c
  else if !env.ok then t.fail i c
  else
    let old := t.nativePending.filter (t.hasTgid c.tgid)
    let entry : PolicyHolder :=
      { kind := .native, tgid := c.tgid, state := c.state, timeout := .idle, pending := true
        restores := 0, frees := 0 }
    { t with
      holders := takeOff old t.holders ++ [entry]
      nativePending :=
        t.nativePending.filter (fun h => !t.hasTgid c.tgid h) ++ [t.holders.length]
      calls := t.calls.set i { c with
        state := none, ops := .on .schedule t.holders.length :: drain old } }

/-- The list section of `yz_zygote_probe_restore_native_policy`. -/
def ProbeRun.collectNative : ProbeRun :=
  let todo := t.nativePending.filter (t.hasTgid c.tgid)
  { t with
    holders := takeOff todo t.holders
    nativePending := t.nativePending.filter fun h => !t.hasTgid c.tgid h
    calls := t.calls.set i { c with ops := drain todo ++ c.ops } }

/-- The list section of `zp_restore_module_policy`. -/
def ProbeRun.zpRestoreModulePolicy : ProbeRun :=
  let todo := t.moduleHolders.filter (t.isPendingOf c.tgid)
  { t with
    holders := takeOff todo t.holders
    moduleHolders := t.moduleHolders.filter fun h => !t.isPendingOf c.tgid h
    calls := t.calls.set i { c with ops := drain todo ++ c.ops }
    grants := t.grants.filter fun g => g.tgid ≠ c.tgid }

/-- `yz_zygote_probe_exit`, up to the unlock of `zp_cleanup_module_policies`. -/
def ProbeRun.probeExit : ProbeRun :=
  if t.probeActive then
    { t with
      holders := takeOff t.moduleHolders t.holders
      moduleHolders := []
      calls := t.calls.set i { c with
        ops := drain t.moduleHolders ++ [.unregister, .hostExit] } }
  else t.setCall i { c with ops := [.hostExit] }

/-- The ghost entry of a module request that returns `0`. -/
def ProbeRun.granted : ProbeRun :=
  { t with grants := t.grants ++
    [{ tgid := c.tgid, required := (s.run.named c.state).elim [] (·.required)
       since := t.jiffies }] }

/-- The list section of `yz_zygote_probe_allow_module_policy`, up to its unlock. -/
def ProbeRun.armModule : ProbeRun :=
  let t := { t with moduleLocked := false }
  if !zpNativePolicyHasAdditions (s.run.value c.state) then (s.granted (t.quit i c) c)
  else match s.sharedHolder c with
    | some _ =>
      if s.run.returns call then s.granted (t.quit i c) c else t.quit i c
    | none =>
      let holder : PolicyHolder :=
        { kind := .module, tgid := c.tgid, state := c.state
          timeout := .queued (t.jiffies + t.policyTimeout), pending := true
          restores := 0, frees := 0 }
      s.granted { t with
        holders := t.holders ++ [holder]
        moduleHolders := t.moduleHolders ++ [t.holders.length]
        calls := t.calls.set i { c with state := none, ops := [] } } c

/-- What is done to holder `h` outside the mutexes, and its timeout work.  A cancel waits for
the work while it runs.  `zp_restore_module_policy` leaves the record in the holder instead of
zeroing it, which nobody reads before the memory is freed. -/
def ProbeRun.proceedOn (h : Nat) (p : PolicyHolder) : Phase → Option ProbeRun
  | .schedule => some
      ((t.setCall i c).setHolder h { p with timeout := .queued (t.jiffies + t.policyTimeout) })
  | .cancel =>
    if p.timeout = .running then none
    else some ((t.setCall i { c with ops := .on .restore h :: c.ops }).setHolder h
      { p with timeout := .idle })
  | .restore => some
      ((t.setCall i { c with ops := .on .free h :: c.ops }).setHolder h
        { p with state := restored p.state call, restores := p.restores + 1 })
  | .free => some ((t.setCall i c).setHolder h { p with frees := p.frees + 1 })
  | .expire =>
    if p.kind = .module ∧ t.moduleLocked = true then none
    else if p.pending then some
      { t with
        holders := t.holders.set h { p with pending := false }
        nativePending := t.nativePending.filter (· ≠ h)
        moduleHolders := t.moduleHolders.filter (· ≠ h)
        calls := t.calls.set i { c with ops := .on .restoreSelf h :: c.ops } }
    else some ((t.setCall i c).setHolder h { p with timeout := .idle })
  | .restoreSelf => some
      ((t.setCall i { c with ops := .on .freeSelf h :: c.ops }).setHolder h
        { p with state := restored p.state call, restores := p.restores + 1 })
  | .freeSelf => some
      ((t.setCall i c).setHolder h { p with timeout := .idle, frees := p.frees + 1 })

/-- `yz_host_policy_exit`: the table is zeroed, and the policy cannot be reached any more. -/
def yzHostPolicyExit (t : TempPolicy) : TempPolicy :=
  { yzPolicyTempReset t with base := { (yzPolicyTempReset t).base with ready := false } }

/-- One operation after its call into the policy. -/
def ProbeRun.proceed : Op → Option ProbeRun
  | .stageFd early => some (s.zpStageFd t i c env call early)
  | .installFd early => some (t.zpInstallFd i c env call early)
  | .stageCore => some (if env.ok then t.setCall i c else t.fail i c)
  | .stagePacket => some (if env.ok && decide (0 < c.staged) then t.setCall i c else t.fail i c)
  | .allowExecmemCurrent =>
    some (if s.run.returns call then t.setCall i { c with state := s.widened c.state call }
      else t.fail i c)
  | .redirect => some (if env.ok then t.setCall i c else t.fail i c)
  | .publish => some (s.zpPublishNativePolicyState t i c env)
  | .giveBack => some (t.quit i c)
  | .collectNative => some (t.collectNative i c)
  | .collectModule => if t.moduleLocked then none else some (t.zpRestoreModulePolicy i c)
  | .allowCred =>
    if t.moduleLocked then none
    else if s.run.returns call then some
      ({ t with moduleLocked := true }.setCall i { c with state := s.loaded call })
    else some (t.quit i c)
  | .allowExecmemCred => some
      (if s.run.returns call then t.setCall i { c with state := s.widened c.state call }
        else t.setCall i { c with ops := [.rollback] })
  | .arm => some (s.armModule t i c call)
  | .rollback => some ({ t with moduleLocked := false }.quit i c)
  | .prepareRuntime => some ({ t with permanent := s.permitted call }.setCall i c)
  | .controlExit =>
    if t.calls.any fun d => d.control && !d.ops.isEmpty then none
    else some ({ t with controlAvailable := false }.setCall i c)
  | .probeExit =>
    if t.probeActive && t.moduleLocked then none else some (t.probeExit i c)
  | .unregister => some ({ t with hooked := false, probeActive := false }.setCall i c)
  | .hostExit => some ({ t with
      run := { t.run with temp := yzHostPolicyExit t.run.temp }
      hostActive := false, deactivating := false }.setCall i c)
  | .on p h =>
    match t.holders[h]? with
    | none => none
    | some holder => t.proceedOn i c call h holder p

end Operations

/-- Call `i` runs the operation at the head of its list. -/
def ProbeRun.runOp (i : Nat) (env : OpEnv) : Option ProbeRun :=
  match s.calls[i]? with
  | none => none
  | some c =>
    match c.ops with
    | [] => none
    | op :: rest =>
      let c := { c with ops := rest }
      let call := s.opCall c op env
      s.proceed { s with run := s.run.after call } i c env call op

/-- The delayed work of holder `h` starts.  On freed memory there is nothing to run. -/
def ProbeRun.fire (h : Nat) : Option ProbeRun :=
  match s.holders[h]? with
  | none => none
  | some p =>
    match p.timeout with
    | .queued due =>
      if s.jiffies < due ∨ p.frees ≠ 0 then none
      else some ((s.setHolder h { p with timeout := .running }).start
        ⟨false, p.tgid, none, none, none, 0, [.on .expire h]⟩)
    | _ => none

def ProbeRun.step : ProbeAct → Option ProbeRun
  | .exec tw => if s.hooked then some { s with queued := s.queued ++ [tw] } else none
  | .inject j cred yuki count =>
    match s.queued[j]? with
    | none => none
    | some tw => some ({ s with queued := s.queued.eraseIdx j }.start
        ⟨false, tw.tgid, some cred, none, none, 0, zpInjectTwFunc (tw.kind yuki count)⟩)
  | .restoreRequest tgid =>
    -- -ENODEV, -EINVAL
    if s.controlAvailable = false ∨ tgid ≤ 0 then some s
    else some (s.start ⟨true, tgid, none, none, none, 0, [.collectNative, .collectModule]⟩)
  | .allowModule tgid dir cred alloc =>
    -- -ENODEV, -EINVAL, -ENOMEM
    if s.controlAvailable = false ∨ tgid ≤ 0 ∨ dir.isNone ∨ cred.isNone ∨ alloc = false then
      some s
    else
      some (s.start ⟨true, tgid, cred, dir, none, 0, [.allowCred, .allowExecmemCred, .arm]⟩)
  | .prepareRuntime current =>
    -- -ENODEV
    if s.controlAvailable = false then some s
    else some (s.start ⟨true, 0, some current, none, none, 0, [.prepareRuntime]⟩)
  | .deactivate =>
    if s.deactivating then none
    else if s.hostActive then
      some ({ s with deactivating := true }.start
        ⟨false, 0, none, none, none, 0, [.controlExit, .probeExit]⟩)
    else some s
  | .fire h => s.fire h
  | .tick n => some { s with jiffies := s.jiffies + n }
  | .run i env => s.runOp i env

/-- The module just loaded, at any time, on any policy, with or without its control backend;
the hook is a part of the probe stage. -/
def probe : Lts ProbeRun ProbeAct where
  init s := tempRuns.init s.run ∧ s.holders = [] ∧ s.nativePending = [] ∧
    s.moduleHolders = [] ∧ s.moduleLocked = false ∧ s.calls = [] ∧ s.hostActive = true ∧
    s.deactivating = false ∧ s.grants = [] ∧ s.queued = [] ∧ (s.permanent = fun _ => 0) ∧
    (s.hooked = true → s.probeActive = true)
  step := ProbeRun.step

end State

end YukiZygisk.Probe
