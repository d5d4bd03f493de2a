/-
# What one step of the machine can do

`Move` sorts the steps of `probe` by what they do to the holders, the lists and the calls, and
`step_move` is the inversion every invariant starts from.

The operations on holders stand at the front of a call (`OnFirst`), so a call that gives up
loses none of them: `shaped_invariant`.

There are many operations, but few things that an operation can do to its surroundings: it may
change nothing but its own call (`own`), hand a record back, make one, add to one, list a holder,
take holders off a list, or do one phase of a holder's end.  `Move` has one constructor for each,
with everything that the later invariants need to know: which records were named before and after,
what the policy was asked to do, and what the call has ahead afterwards.  Each section of the source
gets its lemma (`stageFd_move`, `branch_move`, `arm_move` and so on), and `runOp_move` puts them
together by the operation at hand.
-/
import YukiZygisk.Feature.ProbePolicy

namespace YukiZygisk.Probe

open Policy Lifetime Tally

/-! ## 1. Operations on holders come first -/

/-- The operation is about a holder. -/
def Op.isOn : Op → Bool
  | .on _ _ => true
  | _ => false

/-- The operations on holders stand before all others. -/
def OnFirst (ops : List Op) : Prop := ops.Pairwise fun a b => b.isOn = true → a.isOn = true

/-- No operation is about a holder. -/
def Plain (ops : List Op) : Prop := ∀ op ∈ ops, op.isOn = false

instance (ops : List Op) : Decidable (Plain ops) :=
  inferInstanceAs (Decidable (∀ op ∈ ops, op.isOn = false))

theorem Plain.onFirst {ops : List Op} (h : Plain ops) : OnFirst ops := by
  refine List.Pairwise.imp_of_mem (R := fun _ _ => True) ?_
    (List.pairwise_of_forall fun _ _ => trivial)
  intro a b _ hb _ hon
  rw [h b hb] at hon
  cases hon

theorem Plain.count {ops : List Op} (h : Plain ops) (p : Phase) (n : Nat) :
    ops.count (.on p n) = 0 :=
  List.count_eq_zero.mpr fun hmem => Bool.false_ne_true ((h _ hmem).symm.trans rfl)

theorem OnFirst.tail {op : Op} {ops : List Op} (h : OnFirst (op :: ops)) : OnFirst ops :=
  (List.pairwise_cons.mp h).2

/-- Behind an operation that is not about a holder there is none that is. -/
theorem OnFirst.plain {op : Op} {ops : List Op} (h : OnFirst (op :: ops))
    (hop : op.isOn = false) : Plain ops := by
  intro b hb
  by_contra hon
  have := (List.pairwise_cons.mp h).1 b hb (by simpa using hon)
  rw [hop] at this
  cases this

theorem plain_cons {op : Op} {ops : List Op} (hop : op.isOn = false) (h : Plain ops) :
    Plain (op :: ops) := by
  intro b hb
  rcases List.mem_cons.mp hb with rfl | hb
  · exact hop
  · exact h b hb

/-- Operations on holders may be put in front. -/
theorem OnFirst.append {ons ops : List Op} (hons : ∀ op ∈ ons, op.isOn = true)
    (h : OnFirst ops) : OnFirst (ons ++ ops) := by
  refine List.pairwise_append.mpr ⟨?_, h, fun a ha _ _ _ => hons a ha⟩
  exact List.Pairwise.imp_of_mem (R := fun _ _ => True) (fun ha _ _ _ => hons _ ha)
    (List.pairwise_of_forall fun _ _ => trivial)

theorem isOn_drain (hs : List Nat) : ∀ op ∈ drain hs, op.isOn = true := by
  intro op hop
  obtain ⟨h, -, rfl⟩ := List.mem_map.mp hop
  rfl

/-- Draining begins with the cancel of each holder. -/
theorem count_drain (hs : List Nat) (p : Phase) (h : Nat) :
    (drain hs).count (.on p h) = if p = .cancel then hs.count h else 0 := by
  induction hs with
  | nil => simp [drain]
  | cons a hs ih =>
    have hd : drain (a :: hs) = .on .cancel a :: drain hs := rfl
    rw [hd, List.count_cons, ih, List.count_cons]
    cases p <;> simp

/-- An injection starts without operations on holders. -/
theorem plain_zpInjectTwFunc (kind : InjectKind) : Plain (zpInjectTwFunc kind) := by
  rcases kind with (_ | _) | (_ | n)
  · decide
  · decide
  · decide
  · intro op hop
    simp only [zpInjectTwFunc, List.mem_append, List.mem_cons, List.mem_replicate,
      List.not_mem_nil, or_false] at hop
    rcases hop with ((rfl | rfl) | ⟨-, rfl⟩) | rfl | rfl | rfl | rfl <;> rfl

/-- The operations that an operation may put into its call. -/
def Op.next : Op → List Op
  | .stageFd early => [.installFd early]
  | .stageCore | .stagePacket | .allowExecmemCurrent | .redirect | .publish => [.giveBack]
  | .allowExecmemCred => [.rollback]
  | .probeExit => [.hostExit]
  | _ => []

/-- What an operation is followed by has no operation on a holder. -/
theorem Op.plain_next (op : Op) : Plain op.next := by
  intro o ho
  cases op <;> simp only [Op.next, List.mem_singleton, List.not_mem_nil] at ho <;> subst ho <;> rfl

theorem plain_next {op : Op} {ops ops' : List Op} (h : Plain ops)
    (hops : ∀ o ∈ ops', o ∈ ops ∨ o ∈ op.next) : Plain ops' :=
  fun o ho => (hops o ho).elim (h o) (op.plain_next o)

section Machine

variable [AvtabFns]

/-! ## 2. What one step can do -/

/-- The holders, the lists and the clock stay. -/
structure Framed (s s' : ProbeRun) : Prop where
  holders : s'.holders = s.holders
  nativePending : s'.nativePending = s.nativePending
  moduleHolders : s'.moduleHolders = s.moduleHolders
  jiffies : s'.jiffies = s.jiffies
  hz : s'.hz = s.hz
  hostActive : s'.hostActive = s.hostActive

/-- An execmem request on the record of a call. -/
inductive Widens (name : Option Nat) (env : OpEnv) : TempAct → Prop
  | current (cred : Cred) : Widens name env (.allowExecmemCurrent name cred env.edit)
  | cred (cred : Option Cred) : Widens name env (.allowExecmemCred name cred env.edit)

/-- A file load of a call. -/
inductive Loads (env : OpEnv) : TempAct → Prop
  | current (file : Option File) (cred : Cred) : Loads env (.allowFileCurrent file cred env.edit)
  | cred (file : Option File) (cred : Option Cred) : Loads env (.allowFileCred file cred env.edit)

/-- What becomes of a variable that names a record, in a call into the policy. -/
inductive StateMove (s : ProbeRun) (name : Option Nat) (env : OpEnv) :
    Option TempAct → Option Nat → Prop
  | keep : StateMove s name env none name
  | loaded (ta : TempAct) : Loads env ta → StateMove s name env (some ta) (s.loaded (some ta))
  | widened (ta : TempAct) : Widens name env ta → s.run.returns (some ta) = true →
      StateMove s name env (some ta) (s.widened name (some ta))
  | refused (ta : TempAct) : Widens name env ta → s.run.returns (some ta) = false →
      StateMove s name env (some ta) name
  | prepared (cred : Cred) : StateMove s name env (some (.prepareRuntime cred env.runtime)) name
  | restored : StateMove s name env (s.restoreCall name env)
      (restored name (s.restoreCall name env))
  | quit : StateMove s name env (s.restoreCall name env) none

/-- Call `i` is about to run `op`; `c` is what is left of it. -/
structure Runs (s : ProbeRun) (i : Nat) (op : Op) (c : Call) : Prop where
  call : s.calls[i]? = some { c with ops := op :: c.ops }

/-- What one step of the machine can do. -/
inductive Move (s : ProbeRun) : ProbeAct → ProbeRun → Prop
  /-- time passes, a work is queued, or a request is refused -/
  | idle (a : ProbeAct) (n : Nat) (q : List InjectTw) : (∀ i env, a ≠ .run i env) →
      Move s a { s with jiffies := s.jiffies + n, queued := q }
  /-- a call starts, with a zeroed record -/
  | start (a : ProbeAct) (c : Call) (d : Bool) (q : List InjectTw) : (∀ i env, a ≠ .run i env) →
      (∀ h, a ≠ .fire h) → c.state = none → Plain c.ops →
      Move s a ({ s with deactivating := d, queued := q }.start c)
  /-- a timeout work starts -/
  | fire (h : Nat) (p : PolicyHolder) (due : Nat) : s.holders[h]? = some p →
      p.timeout = .queued due → due ≤ s.jiffies → p.frees = 0 →
      Move s (.fire h) ((s.setHolder h { p with timeout := .running }).start
        ⟨false, p.tgid, none, none, none, 0, [.on .expire h]⟩)
  /-- something is done to one holder -/
  | onHolder (i : Nat) (env : OpEnv) (c : Call) (p : Phase) (h : Nat) (holder : PolicyHolder)
      (s' : ProbeRun) : Runs s i (.on p h) c → s.holders[h]? = some holder →
      { s with run := s.run.after (s.opCall c (.on p h) env) }.proceedOn i c
        (s.opCall c (.on p h) env) h holder p = some s' → Move s (.run i env) s'
  /-- a call works on its own record -/
  | own (i : Nat) (env : OpEnv) (c c' : Call) (op : Op) (s' : ProbeRun)
      (grants : List ModuleGrant) : Runs s i op c → op.isOn = false → Framed s s' →
      s'.calls = s.calls.set i c' → (∀ o ∈ c'.ops, o ∈ c.ops ∨ o ∈ op.next) →
      StateMove s c.state env (s.opCall c op env) c'.state →
      s'.run = s.run.after (s.opCall c op env) →
      s'.permanent = s.permitted (s.opCall c op env) → s'.grants = s.grants ++ grants →
      (grants = [] ∨ op = .arm ∧ c'.state = none ∧
        (zpNativePolicyHasAdditions (s.run.value c.state) = false ∨
          ∃ h, s.sharedHolder c = some h) ∧
        grants = [{ tgid := c.tgid, required := (s.run.named c.state).elim [] (·.required)
                    since := s.jiffies }]) → Move s (.run i env) s'
  /-- the teardown is over -/
  | exit (i : Nat) (env : OpEnv) (c : Call) : Runs s i .hostExit c →
      Move s (.run i env) ({ s with
        run := { s.run with temp := yzHostPolicyExit s.run.temp }
        hostActive := false, deactivating := false }.setCall i c)
  /-- entries are taken off the native list -/
  | collectNative (i : Nat) (env : OpEnv) (c : Call) : Runs s i .collectNative c →
      Move s (.run i env) (s.collectNative i c)
  /-- holders are taken off the module list -/
  | collectModule (i : Nat) (env : OpEnv) (c : Call) : Runs s i .collectModule c →
      s.moduleLocked = false → Move s (.run i env) (s.zpRestoreModulePolicy i c)
  /-- every holder is taken off the module list -/
  | collectAll (i : Nat) (env : OpEnv) (c : Call) : Runs s i .probeExit c →
      s.probeActive = true → s.moduleLocked = false → Move s (.run i env) (s.probeExit i c)
  /-- a record becomes a pending entry -/
  | publish (i : Nat) (env : OpEnv) (c : Call) : Runs s i .publish c →
      zpNativePolicyHasAdditions (s.run.value c.state) = true → env.ok = true →
      Move s (.run i env) (s.zpPublishNativePolicyState s i c env)
  /-- a record becomes a holder -/
  | arm (i : Nat) (env : OpEnv) (c : Call) : Runs s i .arm c →
      zpNativePolicyHasAdditions (s.run.value c.state) = true → s.sharedHolder c = none →
      Move s (.run i env) (s.armModule s i c none)

variable {s s' : ProbeRun} {a : ProbeAct}

/-- A record handed back adds nothing to the permanent grants. -/
theorem permitted_restoreCall {name : Option Nat} {env : OpEnv} :
    s.permitted (s.restoreCall name env) = s.permanent := by
  cases name with
  | none => rfl
  | some i =>
    simp only [ProbeRun.restoreCall]
    split_ifs <;> rfl

/-- Only the permanent grants change what is permitted for good. -/
theorem permitted_opCall {c : Call} {op : Op} {env : OpEnv} (hop : op ≠ .prepareRuntime) :
    s.permitted (s.opCall c op env) = s.permanent := by
  cases op with
  | prepareRuntime => exact absurd rfl hop
  | stageFd early =>
    simp only [ProbeRun.opCall]
    cases env.file <;> rfl
  | installFd early =>
    simp only [ProbeRun.opCall]
    split_ifs
    · rfl
    · exact permitted_restoreCall
  | giveBack | rollback => exact permitted_restoreCall
  | arm =>
    simp only [ProbeRun.opCall]
    split_ifs
    · exact permitted_restoreCall
    · rfl
  | on p h =>
    cases p with
    | restore | restoreSelf =>
      simp only [ProbeRun.opCall]
      cases s.holders[h]? with
      | none => rfl
      | some holder => exact permitted_restoreCall
    | _ => rfl
  | _ => rfl

/-- A step that only works on the call's record and the flags. -/
theorem own_move {i : Nat} {env : OpEnv} {c : Call} {op : Op} (hruns : Runs s i op c)
    (hop : op.isOn = false) (hprep : op ≠ .prepareRuntime) (c' : Call)
    (locked hooked available active : Bool)
    (hops : ∀ o ∈ c'.ops, o ∈ c.ops ∨ o ∈ op.next)
    (hstate : StateMove s c.state env (s.opCall c op env) c'.state) :
    Move s (.run i env) ({ s with
      run := s.run.after (s.opCall c op env), moduleLocked := locked, hooked := hooked
      controlAvailable := available, probeActive := active }.setCall i c') :=
  .own i env c c' op _ [] hruns hop ⟨rfl, rfl, rfl, rfl, rfl, rfl⟩ rfl hops hstate rfl
    (permitted_opCall (s := s) hprep).symm (List.append_nil _).symm (.inl rfl)

/-- A record without additions is not handed to the policy. -/
theorem restoreCall_none {name : Option Nat} {env : OpEnv}
    (h : zpNativePolicyHasAdditions (s.run.value name) = false) :
    s.restoreCall name env = none := by
  cases name with
  | none => rfl
  | some i => simp only [ProbeRun.restoreCall, h, Bool.false_eq_true, if_false]

theorem stageFd_move {i : Nat} {env : OpEnv} {c : Call} {early : Bool}
    (hruns : Runs s i (.stageFd early) c)
    (h : s.proceed { s with run := s.run.after (s.opCall c (.stageFd early) env) } i c env
      (s.opCall c (.stageFd early) env) (.stageFd early) = some s') :
    Move s (.run i env) s' := by
  obtain rfl := Option.some.inj h
  unfold ProbeRun.zpStageFd
  cases hf : env.file with
  | none =>
    have hcall : s.opCall c (.stageFd early) env = none := by simp [ProbeRun.opCall, hf]
    refine own_move hruns rfl nofun _ _ _ _ _ ?_ ?_
    · intro o ho
      cases early with
      | true => exact .inl ho
      | false => cases ho
    · rw [hcall]
      cases early <;> exact .keep
  | some file =>
    have hcall : s.opCall c (.stageFd early) env =
        some (.allowFileCurrent (some file) (c.cred.getD ⟨none⟩) env.edit) := by
      simp [ProbeRun.opCall, hf]
    refine own_move hruns rfl nofun _ _ _ _ _ (fun o ho => ?_) ?_
    · exact (List.mem_cons.mp ho).elim (fun h => .inr (List.mem_singleton.mpr h)) .inl
    · rw [hcall]
      exact .loaded _ (.current _ _)

theorem installFd_move {i : Nat} {env : OpEnv} {c : Call} {early : Bool}
    (hruns : Runs s i (.installFd early) c)
    (h : s.proceed { s with run := s.run.after (s.opCall c (.installFd early) env) } i c env
      (s.opCall c (.installFd early) env) (.installFd early) = some s') :
    Move s (.run i env) s' := by
  obtain rfl := Option.some.inj h
  unfold ProbeRun.zpInstallFd
  cases hok : env.ok with
  | true =>
    refine own_move hruns rfl nofun _ _ _ _ _ (fun _ => .inl) ?_
    have hcall : s.opCall c (.installFd early) env = none := by simp [ProbeRun.opCall, hok]
    rw [hcall]
    exact .keep
  | false =>
    have hcall : s.opCall c (.installFd early) env = s.restoreCall c.state env := by
      simp [ProbeRun.opCall, hok]
    cases early with
    | true =>
      refine own_move hruns rfl nofun _ _ _ _ _ (fun _ => .inl) ?_
      rw [hcall]
      exact .restored
    | false =>
      refine own_move hruns rfl nofun _ _ _ _ _ nofun ?_
      rw [hcall]
      exact .quit

/-- An operation without a record goes on or gives up. -/
theorem branch_move {i : Nat} {env : OpEnv} {c : Call} {op : Op} {b : Bool}
    (hruns : Runs s i op c) (hop : op.isOn = false) (hprep : op ≠ .prepareRuntime)
    (hnext : op.next = [.giveBack])
    (hcall : s.opCall c op env = none) :
    Move s (.run i env)
      (if b then s.setCall i c else s.setCall i { c with ops := [.giveBack] }) := by
  have hstate : StateMove s c.state env (s.opCall c op env) c.state := by rw [hcall]; exact .keep
  have hrun : s.run.after (s.opCall c op env) = s.run := by rw [hcall]; rfl
  cases b with
  | true =>
    have := own_move hruns hop hprep c s.moduleLocked s.hooked s.controlAvailable s.probeActive
      (fun _ => .inl) hstate
    rwa [hrun] at this
  | false =>
    have := own_move hruns hop hprep { c with ops := [.giveBack] } s.moduleLocked s.hooked
      s.controlAvailable s.probeActive (fun o ho => .inr (hnext ▸ ho)) hstate
    rwa [hrun] at this

/-- An execmem request goes on with a wider record, or gives up. -/
theorem execmem_move {i : Nat} {env : OpEnv} {c : Call} {op op' : Op} {ta : TempAct}
    (hruns : Runs s i op c) (hop : op.isOn = false) (hprep : op ≠ .prepareRuntime)
    (hnext : op.next = [op'])
    (hcall : s.opCall c op env = some ta) (hta : Widens c.state env ta) :
    Move s (.run i env)
      (if s.run.returns (some ta) then
        { s with run := s.run.after (some ta) }.setCall i
          { c with state := s.widened c.state (some ta) }
      else { s with run := s.run.after (some ta) }.setCall i { c with ops := [op'] }) := by
  rw [← hcall]
  cases hok : s.run.returns (s.opCall c op env) with
  | true =>
    refine own_move hruns hop hprep _ _ _ _ _ (fun _ => .inl) ?_
    rw [hcall] at hok ⊢
    exact .widened ta hta hok
  | false =>
    refine own_move hruns hop hprep _ _ _ _ _ (fun o ho => .inr (hnext ▸ ho)) ?_
    rw [hcall] at hok ⊢
    exact .refused ta hta hok

theorem publish_move {i : Nat} {env : OpEnv} {c : Call} (hruns : Runs s i .publish c)
    (h : s.proceed { s with run := s.run.after (s.opCall c .publish env) } i c env
      (s.opCall c .publish env) .publish = some s') : Move s (.run i env) s' := by
  obtain rfl := Option.some.inj h
  cases hadd : zpNativePolicyHasAdditions (s.run.value c.state) with
  | false =>
    have hs : s.zpPublishNativePolicyState s i c env = s.quit i c := by
      simp only [ProbeRun.zpPublishNativePolicyState, hadd, Bool.not_false, if_true]
    change Move s _ (s.zpPublishNativePolicyState s i c env)
    rw [hs]
    refine own_move hruns rfl nofun _ _ _ _ _ nofun ?_
    have : StateMove s c.state env (s.restoreCall c.state env) none := .quit
    rwa [restoreCall_none hadd] at this
  | true =>
    cases hok : env.ok with
    | true => exact .publish i env c hruns hadd hok
    | false =>
      have hs : s.zpPublishNativePolicyState s i c env = s.fail i c := by
        simp only [ProbeRun.zpPublishNativePolicyState, hadd, hok, Bool.not_true, Bool.not_false,
          Bool.false_eq_true, if_false, if_true]
      change Move s _ (s.zpPublishNativePolicyState s i c env)
      rw [hs]
      exact own_move hruns rfl nofun _ _ _ _ _ (fun _ => .inr) .keep

theorem allowCred_move {i : Nat} {env : OpEnv} {c : Call} (hruns : Runs s i .allowCred c)
    (h : s.proceed { s with run := s.run.after (s.opCall c .allowCred env) } i c env
      (s.opCall c .allowCred env) .allowCred = some s') : Move s (.run i env) s' := by
  simp only [ProbeRun.proceed] at h
  split_ifs at h with hl hok
  · obtain rfl := Option.some.inj h
    exact own_move hruns rfl nofun _ _ _ _ _ (fun _ => .inl) (.loaded _ (.cred _ _))
  · obtain rfl := Option.some.inj h
    refine own_move hruns rfl nofun _ _ _ _ _ nofun ?_
    have : StateMove s c.state env (some (.allowFileCred c.dir c.cred env.edit)) _ :=
      .loaded _ (.cred c.dir c.cred)
    rwa [ProbeRun.loaded, if_neg (by simpa [ProbeRun.opCall] using hok)] at this

/-- The end of a module request that arms nothing. -/
theorem arm_move {i : Nat} {env : OpEnv} {c : Call} (hruns : Runs s i .arm c)
    (h : s.proceed { s with run := s.run.after (s.opCall c .arm env) } i c env
      (s.opCall c .arm env) .arm = some s') : Move s (.run i env) s' := by
  obtain rfl := Option.some.inj h
  have harm : Op.arm ≠ .prepareRuntime := nofun
  have hquit : StateMove s c.state env (s.restoreCall c.state env) none := .quit
  cases hadd : zpNativePolicyHasAdditions (s.run.value c.state) with
  | false =>
    have hcall : s.opCall c .arm env = s.restoreCall c.state env := by
      simp [ProbeRun.opCall, restoreCall_none hadd]
    rw [← hcall] at hquit
    refine .own i env c { c with state := none, ops := [] } .arm _ _ hruns rfl ?_ ?_
      nofun hquit ?_ ?_ ?_
      (.inr ⟨rfl, rfl, .inl hadd, rfl⟩) <;>
      simp only [ProbeRun.armModule, hadd, Bool.not_false, if_true]
    · exact ⟨rfl, rfl, rfl, rfl, rfl, rfl⟩
    · rfl
    · rfl
    · exact (permitted_opCall (s := s) harm).symm
    · rfl
  | true =>
    cases hsh : s.sharedHolder c with
    | none =>
      have hcall : s.opCall c .arm env = none := by simp [ProbeRun.opCall, hsh]
      rw [hcall]
      exact .arm i env c hruns hadd hsh
    | some h₀ =>
      have hcall : s.opCall c .arm env = s.restoreCall c.state env := by
        simp [ProbeRun.opCall, hsh]
      rw [← hcall] at hquit
      cases hret : s.run.returns (s.opCall c .arm env) with
      | true =>
        refine .own i env c { c with state := none, ops := [] } .arm _ _ hruns rfl ?_ ?_
          nofun hquit ?_ ?_ ?_
          (.inr ⟨rfl, rfl, .inr ⟨h₀, hsh⟩, rfl⟩) <;>
          simp only [ProbeRun.armModule, hadd, hsh, hret, Bool.not_true, Bool.false_eq_true,
            if_false, if_true]
        · exact ⟨rfl, rfl, rfl, rfl, rfl, rfl⟩
        · rfl
        · rfl
        · exact (permitted_opCall (s := s) harm).symm
        · rfl
      | false =>
        refine .own i env c { c with state := none, ops := [] } .arm _ [] hruns rfl ?_ ?_
          nofun hquit ?_ ?_ ?_ (.inl rfl) <;>
          simp only [ProbeRun.armModule, hadd, hsh, hret, Bool.not_true, Bool.false_eq_true,
            if_false, List.append_nil]
        · exact ⟨rfl, rfl, rfl, rfl, rfl, rfl⟩
        · rfl
        · rfl
        · exact (permitted_opCall (s := s) harm).symm
        · rfl

/-- Draining the holders of the module requests. -/
theorem probeExit_move {i : Nat} {env : OpEnv} {c : Call} (hruns : Runs s i .probeExit c)
    (h : s.proceed { s with run := s.run.after (s.opCall c .probeExit env) } i c env
      (s.opCall c .probeExit env) .probeExit = some s') : Move s (.run i env) s' := by
  simp only [ProbeRun.proceed] at h
  split_ifs at h with hl
  obtain rfl := Option.some.inj h
  change Move s _ (s.probeExit i c)
  cases hact : s.probeActive with
  | true =>
    have hl : s.moduleLocked = false := by simpa [hact] using hl
    exact .collectAll i env c hruns hact hl
  | false =>
    have hs : s.probeExit i c = s.setCall i { c with ops := [.hostExit] } := by
      simp only [ProbeRun.probeExit, hact, Bool.false_eq_true, if_false]
    rw [hs]
    exact own_move hruns rfl nofun _ _ _ _ _ (fun _ => .inr) .keep

/-- **What an operation does**, case by case. -/
theorem runOp_move {i : Nat} {env : OpEnv} (h : s.runOp i env = some s') :
    Move s (.run i env) s' := by
  unfold ProbeRun.runOp at h
  split at h
  · cases h
  rename_i c₀ hc₀
  split at h
  · cases h
  rename_i op rest hops
  simp only at h
  have hruns : Runs s i op { c₀ with ops := rest } := ⟨by rw [hc₀, ← hops]⟩
  generalize { c₀ with ops := rest } = c at h hruns
  cases op with
  | stageFd early => exact stageFd_move hruns h
  | installFd early => exact installFd_move hruns h
  | stageCore =>
    obtain rfl := Option.some.inj h
    exact branch_move hruns rfl nofun rfl rfl
  | stagePacket =>
    obtain rfl := Option.some.inj h
    exact branch_move hruns rfl nofun rfl rfl
  | allowExecmemCurrent =>
    obtain rfl := Option.some.inj h
    exact execmem_move hruns rfl nofun rfl rfl (.current _)
  | redirect =>
    obtain rfl := Option.some.inj h
    exact branch_move hruns rfl nofun rfl rfl
  | publish => exact publish_move hruns h
  | giveBack =>
    obtain rfl := Option.some.inj h
    exact own_move hruns rfl nofun _ _ _ _ _ nofun .quit
  | collectNative =>
    obtain rfl := Option.some.inj h
    exact .collectNative i env c hruns
  | collectModule =>
    simp only [ProbeRun.proceed] at h
    split_ifs at h with hl
    obtain rfl := Option.some.inj h
    exact .collectModule i env c hruns (by simpa using hl)
  | allowCred => exact allowCred_move hruns h
  | allowExecmemCred =>
    obtain rfl := Option.some.inj h
    exact execmem_move hruns rfl nofun rfl rfl (.cred _)
  | arm => exact arm_move hruns h
  | rollback =>
    obtain rfl := Option.some.inj h
    exact own_move hruns rfl nofun _ _ _ _ _ nofun .quit
  | prepareRuntime =>
    obtain rfl := Option.some.inj h
    exact .own i env c c .prepareRuntime _ [] hruns rfl ⟨rfl, rfl, rfl, rfl, rfl, rfl⟩ rfl
      (fun _ => .inl) (.prepared _) rfl rfl (List.append_nil _).symm (.inl rfl)
  | controlExit =>
    simp only [ProbeRun.proceed] at h
    split_ifs at h
    obtain rfl := Option.some.inj h
    exact own_move hruns rfl nofun _ _ _ _ _ (fun _ => .inl) .keep
  | probeExit => exact probeExit_move hruns h
  | unregister =>
    obtain rfl := Option.some.inj h
    exact own_move hruns rfl nofun _ _ _ _ _ (fun _ => .inl) .keep
  | hostExit =>
    obtain rfl := Option.some.inj h
    exact .exit i env c hruns
  | on p h₀ =>
    simp only [ProbeRun.proceed] at h
    split at h
    · cases h
    · rename_i holder hh
      exact .onHolder i env c p h₀ holder s' hruns hh h

/-- **The steps of the machine, sorted.** -/
theorem step_move (h : probe.step s a = some s') : Move s a s' := by
  cases a with
  | exec tw =>
    change (if s.hooked then _ else none) = some s' at h
    split_ifs at h
    obtain rfl := Option.some.inj h
    exact .idle _ 0 (s.queued ++ [tw]) (by rintro _ _ ⟨⟩)
  | inject j cred yuki count =>
    simp only [probe, ProbeRun.step] at h
    split at h
    · cases h
    obtain rfl := Option.some.inj h
    exact .start _ _ s.deactivating (s.queued.eraseIdx j) (by rintro _ _ ⟨⟩) (by rintro _ ⟨⟩) rfl
      (plain_zpInjectTwFunc _)
  | restoreRequest tgid =>
    have hplain : Plain [.collectNative, .collectModule] := by decide
    change (if s.controlAvailable = false ∨ tgid ≤ 0 then some s else some _) = some s' at h
    split_ifs at h
    · obtain rfl := Option.some.inj h
      exact .idle _ 0 s.queued (by rintro _ _ ⟨⟩)
    · obtain rfl := Option.some.inj h
      exact .start _ _ s.deactivating s.queued (by rintro _ _ ⟨⟩) (by rintro _ ⟨⟩) rfl hplain
  | allowModule tgid dir cred alloc =>
    have hplain : Plain [.allowCred, .allowExecmemCred, .arm] := by decide
    change (if s.controlAvailable = false ∨ _ then some s else some _) = some s' at h
    split_ifs at h
    · obtain rfl := Option.some.inj h
      exact .idle _ 0 s.queued (by rintro _ _ ⟨⟩)
    · obtain rfl := Option.some.inj h
      exact .start _ _ s.deactivating s.queued (by rintro _ _ ⟨⟩) (by rintro _ ⟨⟩) rfl hplain
  | prepareRuntime current =>
    have hplain : Plain [.prepareRuntime] := by decide
    change (if s.controlAvailable = false then some s else some _) = some s' at h
    split_ifs at h
    · obtain rfl := Option.some.inj h
      exact .idle _ 0 s.queued (by rintro _ _ ⟨⟩)
    · obtain rfl := Option.some.inj h
      exact .start _ _ s.deactivating s.queued (by rintro _ _ ⟨⟩) (by rintro _ ⟨⟩) rfl hplain
  | deactivate =>
    change (if s.deactivating then none else if s.hostActive then some _ else some s) = some s' at h
    split_ifs at h
    · obtain rfl := Option.some.inj h
      exact .start _ _ true s.queued (by rintro _ _ ⟨⟩) (by rintro _ ⟨⟩) rfl (by decide)
    · obtain rfl := Option.some.inj h
      exact .idle _ 0 s.queued (by rintro _ _ ⟨⟩)
  | fire h₀ =>
    change s.fire h₀ = some s' at h
    unfold ProbeRun.fire at h
    split at h
    · cases h
    · rename_i p hp
      split at h
      · rename_i due hdue
        split_ifs at h with hc
        obtain rfl := Option.some.inj h
        rw [not_or, not_lt, not_not] at hc
        exact .fire h₀ p due hp hdue hc.1 hc.2
      · cases h
  | tick n =>
    obtain rfl := Option.some.inj h
    exact .idle _ n s.queued (by rintro _ _ ⟨⟩)
  | run i env => exact runOp_move h

/-! ## 3. The shape of the calls -/

/-- Every call in progress has its operations on holders in front. -/
def Shaped (s : ProbeRun) : Prop := ∀ c ∈ s.calls, OnFirst c.ops

variable {i : Nat} {op : Op} {c c' : Call} {env : OpEnv}

theorem Shaped.runs (hI : Shaped s) (h : Runs s i op c) : OnFirst (op :: c.ops) :=
  hI _ (List.mem_of_getElem? h.call)

/-- What is left of a call after an operation that is not about a holder is about none. -/
theorem Shaped.plain (hI : Shaped s) (h : Runs s i op c) (hop : op.isOn = false) :
    Plain c.ops :=
  (hI.runs h).plain hop

theorem Shaped.set (hI : Shaped s) (c' : Call) (hc : OnFirst c'.ops)
    (hs : s'.calls = s.calls.set i c') : Shaped s' := by
  intro d hd
  rw [hs] at hd
  rcases List.mem_or_eq_of_mem_set hd with hd | rfl
  · exact hI d hd
  · exact hc

theorem Shaped.append (hI : Shaped s) (c' : Call) (hc : OnFirst c'.ops)
    (hs : s'.calls = s.calls ++ [c']) : Shaped s' := by
  intro d hd
  rw [hs] at hd
  rcases List.mem_append.mp hd with hd | hd
  · exact hI d hd
  · obtain rfl := List.mem_singleton.mp hd
    exact hc

theorem probeExit_eq (h : s.probeActive = true) : s.probeExit i c = { s with
    holders := takeOff s.moduleHolders s.holders
    moduleHolders := []
    calls := s.calls.set i { c with
      ops := drain s.moduleHolders ++ [.unregister, .hostExit] } } := by
  simp only [ProbeRun.probeExit, h, if_true]

theorem publish_eq (hadd : zpNativePolicyHasAdditions (s.run.value c.state) = true)
    (hok : env.ok = true) : s.zpPublishNativePolicyState s i c env = { s with
      holders := takeOff (s.nativePending.filter (s.hasTgid c.tgid)) s.holders ++
        [⟨.native, c.tgid, c.state, .idle, true, 0, 0⟩]
      nativePending :=
        s.nativePending.filter (fun h => !s.hasTgid c.tgid h) ++ [s.holders.length]
      calls := s.calls.set i { c with
        state := none
        ops := .on .schedule s.holders.length ::
          drain (s.nativePending.filter (s.hasTgid c.tgid)) } } := by
  simp only [ProbeRun.zpPublishNativePolicyState, hadd, hok, Bool.not_true, Bool.false_eq_true,
    if_false]

theorem arm_eq (hadd : zpNativePolicyHasAdditions (s.run.value c.state) = true)
    (hsh : s.sharedHolder c = none) : s.armModule s i c none = s.granted { s with
      moduleLocked := false
      holders := s.holders ++
        [⟨.module, c.tgid, c.state, .queued (s.jiffies + s.policyTimeout), true, 0, 0⟩]
      moduleHolders := s.moduleHolders ++ [s.holders.length]
      calls := s.calls.set i { c with state := none, ops := [] } } c := by
  simp only [ProbeRun.armModule, hadd, hsh, Bool.not_true, Bool.false_eq_true, if_false]
  rfl

/-- What an operation on a holder does to its call: it is done, or the next one on the same
holder takes its place. -/
theorem proceedOn_calls {t : ProbeRun} {call : Option TempAct} {h : Nat} {p : Phase}
    {holder : PolicyHolder} (hs : t.proceedOn i c call h holder p = some s') :
    ∃ ops, (ops = [] ∨ ∃ q, ops = [.on q h]) ∧
      s'.calls = t.calls.set i { c with ops := ops ++ c.ops } := by
  cases p <;> simp only [ProbeRun.proceedOn] at hs
  case schedule | free | freeSelf =>
    obtain rfl := Option.some.inj hs
    exact ⟨[], .inl rfl, rfl⟩
  case restore | restoreSelf =>
    obtain rfl := Option.some.inj hs
    exact ⟨[.on _ h], .inr ⟨_, rfl⟩, rfl⟩
  case cancel =>
    split_ifs at hs
    obtain rfl := Option.some.inj hs
    exact ⟨[.on _ h], .inr ⟨_, rfl⟩, rfl⟩
  case expire =>
    split_ifs at hs
    · obtain rfl := Option.some.inj hs
      exact ⟨[.on _ h], .inr ⟨_, rfl⟩, rfl⟩
    · obtain rfl := Option.some.inj hs
      exact ⟨[], .inl rfl, rfl⟩

theorem shaped_step (hI : Shaped s) (hs : probe.step s a = some s') : Shaped s' := by
  cases step_move hs with
  | idle => exact hI
  | start _ c d q _ _ _ hplain => exact hI.append c hplain.onFirst rfl
  | fire h p due =>
    exact hI.append ⟨false, p.tgid, none, none, none, 0, [.on .expire h]⟩
      (List.pairwise_singleton _ _) rfl
  | onHolder i env c p h holder _ hruns _ hp =>
    obtain ⟨ops, hops, hcalls⟩ := proceedOn_calls hp
    refine hI.set _ (OnFirst.append ?_ (hI.runs hruns).tail) hcalls
    rcases hops with rfl | ⟨q, rfl⟩
    · exact nofun
    · intro op hop
      obtain rfl := List.mem_singleton.mp hop
      rfl
  | own i env c c' op _ _ hruns hop _ hcalls hops =>
    exact hI.set _ (plain_next (hI.plain hruns hop) hops).onFirst hcalls
  | exit i env c hruns => exact hI.set _ (hI.plain hruns rfl).onFirst rfl
  | collectNative i env c hruns =>
    exact hI.set _ (OnFirst.append (isOn_drain _) (hI.plain hruns rfl).onFirst) rfl
  | collectModule i env c hruns =>
    exact hI.set _ (OnFirst.append (isOn_drain _) (hI.plain hruns rfl).onFirst) rfl
  | collectAll i env c hruns hact =>
    rw [probeExit_eq hact]
    exact hI.set _ (OnFirst.append (isOn_drain _) (Plain.onFirst (by decide))) rfl
  | publish i env c hruns hadd hok =>
    have hdrain := OnFirst.append
      (isOn_drain (s.nativePending.filter (s.hasTgid c.tgid))) List.Pairwise.nil
    rw [List.append_nil] at hdrain
    rw [publish_eq hadd hok]
    refine hI.set _ ?_ rfl
    exact List.pairwise_cons.mpr ⟨fun _ _ _ => rfl, hdrain⟩
  | arm i env c hruns hadd hsh =>
    rw [arm_eq hadd hsh]
    refine hI.set _ ?_ rfl
    exact List.Pairwise.nil

theorem shaped_invariant (P : ProbeRun → ProbeAct → Prop) : probe.Invariant P Shaped where
  init s hi := by
    obtain ⟨-, -, -, -, -, hc, -⟩ := hi
    intro c hmem
    rw [hc] at hmem
    cases hmem
  step _ _ _ hI _ hs := shaped_step hI hs

end Machine

end YukiZygisk.Probe
