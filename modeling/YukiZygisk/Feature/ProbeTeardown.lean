/-
# What the teardown leaves of the temporary policy (`kernel/core/module.c`)

`yukizygisk_deactivate_locked` takes the control requests off, drains the holders of the module
requests, unregisters the hook of the injections and leaves the host stage, after which the policy
cannot be reached any more.

It drains one of the two lists only.  **An entry that an injection has published stays on the other
one, its permission stays in the live policy and its work stays scheduled** (`not_leavesNothing`).

To unregister the hook is not to stop its injections: each is a task work that the hook has queued,
and one that starts after the drain publishes its entry as before.  Once the host stage is left it
finds the policy out of reach and publishes nothing.

`leavesNothing_of_tearsDown`: when the drain finds no such entry and no other call under way, and
no injection starts between the drain and the end of the host stage, nothing is left and nothing
can be added.  What stays in the policy is what was there, and what the daemon was granted for good
(`conserved_of_path`).  The proof goes by three invariants: what a call has still ahead (`Formed`),
which stages of the teardown are past (`Staged`), and that from the drain on nothing else is under
way (`Drained`).

`Formed` sorts the calls into three kinds.  A serving call allows and publishes and may have to roll
back (`Serving`), a dropping one only hands back (`Dropping`), and a tearing one has some suffix of
the teardown's stages ahead (`Tearing`).  Every operation takes a call of one kind to one of the
same kind (`formed_run`), which is why the teardown can be followed by looking at the flags and at
what is left of its stages.  After the end of the host stage nothing can change the policy: a
serving call that is late fails at its first allow and publishes nothing (`Late`).
-/
import YukiZygisk.Feature.ProbeGuarantees
import YukiZygisk.Host.TempGuarantees

namespace YukiZygisk.Probe

open Policy Lifetime

variable {op : Op} {c c' : Call}

/-! ## 1. What a call has ahead -/

/-- After it the call names no record, unless it goes on to hand the record back. -/
def Op.closes : Op → Bool
  | .publish | .giveBack | .arm | .rollback => true
  | _ => false

/-- An operation of the teardown. -/
def Op.tears : Op → Bool
  | .controlExit | .probeExit | .unregister | .hostExit => true
  | _ => false

/-- A section of a request that has no record of its own. -/
def Op.collects : Op → Bool
  | .collectNative | .collectModule | .prepareRuntime => true
  | _ => false

/-- A call with a record of its own: what closes it is still ahead, and the record is zeroed until
the first file load. -/
structure Serving (c : Call) : Prop where
  closes : ∃ o ∈ c.ops, o.closes = true
  plain : ∀ o ∈ c.ops, o.isOn = false ∧ o.tears = false ∧ o.collects = false
  first : .stageFd false ∉ c.ops.tail
  fresh : c.ops.head? = some (.stageFd false) → c.state = none

/-- A call without a record of its own, or one that is over. -/
structure Dropping (c : Call) : Prop where
  state : c.state = none
  ops : ∀ o ∈ c.ops, o.isOn = true ∨ o.collects = true

/-- The teardown. -/
structure Tearing (c : Call) : Prop where
  state : c.state = none
  control : c.control = false
  ops : c.ops = [.controlExit, .probeExit] ∨ c.ops = [.probeExit] ∨ ∃ ons : List Op,
    (∀ o ∈ ons, o.isOn = true) ∧
      (c.ops = ons ++ [.unregister, .hostExit] ∨ c.ops = ons ++ [.hostExit])

def Formed (c : Call) : Prop := Serving c ∨ Dropping c ∨ Tearing c

theorem Serving.next (hs : Serving { c with ops := op :: c.ops }) (hop : op.closes = false)
    (state : Option Nat) (staged : Nat) :
    Serving { c with state := state, staged := staged } := by
  have hfirst : .stageFd false ∉ c.ops := hs.first
  refine ⟨?_, fun o ho => hs.plain o (List.mem_cons_of_mem _ ho),
    fun hmem => hfirst (List.mem_of_mem_tail hmem), fun hhead => ?_⟩
  · obtain ⟨o, ho, hclose⟩ := hs.closes
    rcases List.mem_cons.mp ho with rfl | ho
    · rw [hop] at hclose
      cases hclose
    · exact ⟨o, ho, hclose⟩
  · exact absurd (List.mem_of_mem_head? hhead) hfirst

theorem Serving.install (hs : Serving { c with ops := op :: c.ops }) (hop : op.closes = false)
    (early : Bool) (state : Option Nat) :
    Serving { c with state := state, ops := .installFd early :: c.ops } := by
  obtain ⟨⟨o, ho, hclose⟩, hplain, -, -⟩ := hs.next hop state c.staged
  refine ⟨⟨o, List.mem_cons_of_mem _ ho, hclose⟩, ?_, hs.first, nofun⟩
  intro p hp
  rcases List.mem_cons.mp hp with rfl | hp
  · exact ⟨rfl, rfl, rfl⟩
  · exact hplain p hp

/-- Handing its record back it still serves. -/
theorem serving_handBack (c : Call) : Serving { c with ops := [.giveBack] } := by
  refine ⟨⟨_, List.mem_cons_self, rfl⟩, ?_, nofun, nofun⟩
  intro o ho
  obtain rfl := List.mem_singleton.mp ho
  exact ⟨rfl, rfl, rfl⟩

theorem serving_rollback (c : Call) : Serving { c with ops := [.rollback] } := by
  refine ⟨⟨_, List.mem_cons_self, rfl⟩, ?_, nofun, nofun⟩
  intro o ho
  obtain rfl := List.mem_singleton.mp ho
  exact ⟨rfl, rfl, rfl⟩

/-- A call with nothing ahead and no record. -/
theorem dropping_over (h : c.state = none) (hops : c.ops = []) : Dropping c :=
  ⟨h, fun o ho => by rw [hops] at ho; cases ho⟩

/-- The teardown begins with an operation of its own or with one on a holder. -/
theorem Tearing.head (ht : Tearing { c with ops := op :: c.ops }) :
    op.tears = true ∨ op.isOn = true := by
  rcases ht.ops with h | h | ⟨ons, hons, h | h⟩
  · exact .inl (by rw [(List.cons.inj h).1]; rfl)
  · exact .inl (by rw [(List.cons.inj h).1]; rfl)
  all_goals
    cases ons with
    | nil => exact .inl (by rw [(List.cons.inj h).1]; rfl)
    | cons o ons =>
      rw [(List.cons.inj h).1]
      exact .inr (hons o List.mem_cons_self)

/-- The operations of a serving call are not those of the other kinds. -/
theorem Formed.serving (hf : Formed { c with ops := op :: c.ops }) (hon : op.isOn = false)
    (ht : op.tears = false) (hcollect : op.collects = false) :
    Serving { c with ops := op :: c.ops } := by
  rcases hf with h | h | h
  · exact h
  · rcases h.ops op List.mem_cons_self with h | h
    · rw [hon] at h
      cases h
    · rw [hcollect] at h
      cases h
  · rcases h.head with h | h
    · rw [ht] at h
      cases h
    · rw [hon] at h
      cases h

theorem Formed.dropping (hf : Formed { c with ops := op :: c.ops })
    (hcollect : op.collects = true) : Dropping { c with ops := op :: c.ops } := by
  rcases hf with h | h | h
  · rw [(h.plain op List.mem_cons_self).2.2] at hcollect
    cases hcollect
  · exact h
  · rcases h.head with h | h <;> cases op <;> simp [Op.tears, Op.isOn, Op.collects] at h hcollect

theorem Formed.tearing (hf : Formed { c with ops := op :: c.ops }) (ht : op.tears = true) :
    Tearing { c with ops := op :: c.ops } := by
  rcases hf with h | h | h
  · rw [(h.plain op List.mem_cons_self).2.1] at ht
    cases ht
  · rcases h.ops op List.mem_cons_self with h | h <;>
      cases op <;> simp [Op.tears, Op.isOn, Op.collects] at h ht
  · exact h

theorem isOn_tears {o : Op} (h : o.isOn = true) : o.tears = false := by
  cases o <;> first | rfl | cases h

/-- What the teardown has ahead after one of its operations. -/
theorem Tearing.next (ht : Tearing { c with ops := op :: c.ops }) :
    Tearing c ∨ c.ops = [] ∧ (op = .probeExit ∨ op = .hostExit) := by
  rcases ht.ops with h | h | ⟨ons, hons, h | h⟩
  · exact .inl ⟨ht.state, ht.control, .inr (.inl (List.cons.inj h).2)⟩
  · exact .inr ⟨(List.cons.inj h).2, .inl (List.cons.inj h).1⟩
  · refine .inl ⟨ht.state, ht.control, .inr (.inr ?_)⟩
    cases ons with
    | nil => exact ⟨[], nofun, .inr (List.cons.inj h).2⟩
    | cons o ons =>
      exact ⟨ons, fun p hp => hons p (List.mem_cons_of_mem _ hp), .inl (List.cons.inj h).2⟩
  · cases ons with
    | nil => exact .inr ⟨(List.cons.inj h).2, .inr (List.cons.inj h).1⟩
    | cons o ons =>
      refine .inl ⟨ht.state, ht.control, .inr (.inr ?_)⟩
      exact ⟨ons, fun p hp => hons p (List.mem_cons_of_mem _ hp), .inr (List.cons.inj h).2⟩

/-- Behind the drain the other stages are ahead. -/
theorem Tearing.probeExit (ht : Tearing { c with ops := .probeExit :: c.ops }) : c.ops = [] := by
  rcases ht.ops with h | h | ⟨ons, hons, h | h⟩
  · cases (List.cons.inj h).1
  · exact (List.cons.inj h).2
  all_goals
    cases ons with
    | nil => cases (List.cons.inj h).1
    | cons o ons =>
      have hon := hons o List.mem_cons_self
      rw [← (List.cons.inj h).1] at hon
      cases hon

/-- Behind the end of the host stage nothing is ahead. -/
theorem Tearing.hostExit (ht : Tearing { c with ops := .hostExit :: c.ops }) : c.ops = [] := by
  rcases ht.ops with h | h | ⟨ons, hons, h | h⟩
  · cases (List.cons.inj h).1
  · cases (List.cons.inj h).1
  all_goals
    cases ons with
    | nil => first | exact (List.cons.inj h).2 | cases (List.cons.inj h).1
    | cons o ons =>
      have hon := hons o List.mem_cons_self
      rw [← (List.cons.inj h).1] at hon
      cases hon

/-- An operation on a holder may put others in its place. -/
theorem Formed.on (hf : Formed { c with ops := op :: c.ops }) (hon : op.isOn = true)
    {ops : List Op} (hops : ∀ o ∈ ops, o.isOn = true) : Formed { c with ops := ops ++ c.ops } := by
  rcases hf with h | h | h
  · rw [(h.plain op List.mem_cons_self).1] at hon
    cases hon
  · refine .inr (.inl ⟨h.state, fun o ho => ?_⟩)
    rcases List.mem_append.mp ho with ho | ho
    · exact .inl (hops o ho)
    · exact h.ops o (List.mem_cons_of_mem _ ho)
  · refine .inr (.inr ⟨h.state, h.control, .inr (.inr ?_)⟩)
    rcases h.ops with h | h | ⟨ons, hons, h⟩
    · rw [(List.cons.inj h).1] at hon
      cases hon
    · rw [(List.cons.inj h).1] at hon
      cases hon
    · cases ons with
      | nil =>
        rcases h with h | h
        · rw [(List.cons.inj h).1] at hon
          cases hon
        · rw [(List.cons.inj h).1] at hon
          cases hon
      | cons o ons =>
        refine ⟨ops ++ ons, ?_, ?_⟩
        · intro p hp
          rcases List.mem_append.mp hp with hp | hp
          · exact hops p hp
          · exact hons p (List.mem_cons_of_mem _ hp)
        · rcases h with h | h
          · exact .inl ((congrArg (ops ++ ·) (List.cons.inj h).2).trans (List.append_assoc ..).symm)
          · exact .inr ((congrArg (ops ++ ·) (List.cons.inj h).2).trans (List.append_assoc ..).symm)

/-- A section that takes holders off a list. -/
theorem Dropping.collect (hd : Dropping { c with ops := op :: c.ops }) (todo : List Nat) :
    Dropping { c with ops := drain todo ++ c.ops } := by
  refine ⟨hd.state, ?_⟩
  intro o ho
  rcases List.mem_append.mp ho with ho | ho
  · exact .inl (isOn_drain todo o ho)
  · exact hd.ops o (List.mem_cons_of_mem _ ho)

/-- What tears is not among the operations on drained holders. -/
theorem tears_drain {todo : List Nat} {ops : List Op} {o : Op} (ho : o ∈ drain todo ++ ops)
    (ht : o.tears = true) : o ∈ ops := by
  rcases List.mem_append.mp ho with ho | ho
  · rw [isOn_tears (isOn_drain todo o ho)] at ht
    cases ht
  · exact ho

theorem keeps_of_plain (hop : op.tears = false) (hon : op.isOn = false) {p : Prop} :
    op.tears = true ∨ op.isOn = true → p := by
  rw [hop, hon]
  exact nofun

/-- The teardown is still ahead of the call. -/
def Tears (c : Call) : Prop := ∃ o ∈ c.ops, o.tears = true

theorem Formed.of_tears (hf : Formed c) (ht : Tears c) : Tearing c := by
  obtain ⟨o, ho, htears⟩ := ht
  rcases hf with h | h | h
  · rw [(h.plain o ho).2.1] at htears
    cases htears
  · rcases h.ops o ho with h | h <;> cases o <;> simp [Op.tears, Op.isOn, Op.collects] at h htears
  · exact h

/-- Only its first stage ends the control requests. -/
theorem Tearing.control_tail (ht : Tearing { c with ops := op :: c.ops }) :
    .controlExit ∉ c.ops := by
  rcases ht.ops with h | h | ⟨ons, hons, h⟩
  · rw [(List.cons.inj h).2]
    simp
  · rw [(List.cons.inj h).2]
    simp
  · intro hmem
    have hmem : .controlExit ∈ op :: c.ops := List.mem_cons_of_mem _ hmem
    have hon : ¬ .controlExit ∈ ons := fun hin => by cases hons _ hin
    rcases h with h | h
    · rw [show op :: c.ops = _ from h] at hmem
      simp [hon] at hmem
    · rw [show op :: c.ops = _ from h] at hmem
      simp [hon] at hmem

theorem serving_inject (tgid : Int) (cred : Cred) (kind : InjectKind) :
    Serving ⟨false, tgid, some cred, none, none, 0, zpInjectTwFunc kind⟩ := by
  refine ⟨⟨.publish, ?_, rfl⟩, ?_, ?_, fun _ => rfl⟩
  · rcases kind with (_ | _) | (_ | n) <;> simp [zpInjectTwFunc]
  · intro o ho
    rcases kind with (_ | _) | (_ | n)
    all_goals
      simp only [zpInjectTwFunc, List.mem_append, List.mem_cons, List.mem_replicate,
        List.not_mem_nil, or_false, if_true, if_false, List.cons_append, List.nil_append,
        Bool.false_eq_true] at ho
    · rcases ho with rfl | rfl | rfl | rfl <;> exact ⟨rfl, rfl, rfl⟩
    · rcases ho with rfl | rfl | rfl | rfl | rfl <;> exact ⟨rfl, rfl, rfl⟩
    · rcases ho with rfl | rfl | rfl | rfl | rfl <;> exact ⟨rfl, rfl, rfl⟩
    · rcases ho with rfl | rfl | ⟨-, rfl⟩ | rfl | rfl | rfl | rfl <;> exact ⟨rfl, rfl, rfl⟩
  · rcases kind with (_ | _) | (_ | n) <;> simp [zpInjectTwFunc]

theorem serving_allow (tgid : Int) (cred : Option Cred) (dir : Option File) :
    Serving ⟨true, tgid, cred, dir, none, 0, [.allowCred, .allowExecmemCred, .arm]⟩ := by
  refine ⟨⟨.arm, by simp, rfl⟩, ?_, by simp, nofun⟩
  intro o ho
  simp only [List.mem_cons, List.not_mem_nil, or_false] at ho
  rcases ho with rfl | rfl | rfl <;> exact ⟨rfl, rfl, rfl⟩

/-- The request for the permanent grants keeps no record. -/
theorem dropping_prepare (current : Cred) :
    Dropping ⟨true, 0, some current, none, none, 0, [.prepareRuntime]⟩ :=
  ⟨rfl, fun o ho => .inr (by rw [List.mem_singleton.mp ho]; rfl)⟩

theorem not_tears_of_serving (hs : Serving c) : ¬ Tears c := by
  rintro ⟨o, ho, htears⟩
  rw [(hs.plain o ho).2.1] at htears
  cases htears

theorem not_tears_of_dropping (hd : Dropping c) : ¬ Tears c := by
  rintro ⟨o, ho, htears⟩
  rcases hd.ops o ho with h | h <;> cases o <;> simp [Op.tears, Op.isOn, Op.collects] at h htears

section Machine

variable [AvtabFns]

variable {s s' : ProbeRun} {a : ProbeAct} {i : Nat} {env : OpEnv} {call : Option TempAct}

/-! ## 2. What an operation does to its call and to the flags -/

/-- The call and the flags after an operation. -/
structure After (s : ProbeRun) (op : Op) (c : Call) (i : Nat) (s' : ProbeRun) (c' : Call) :
    Prop where
  calls : s'.calls = s.calls.set i c'
  control : c'.control = c.control
  hooked : s'.hooked = if op = .unregister then false else s.hooked
  probeActive : s'.probeActive = if op = .unregister then false else s.probeActive
  available : s'.controlAvailable = if op = .controlExit then false else s.controlAvailable
  deactivating : s'.deactivating = if op = .hostExit then false else s.deactivating
  hostActive : s'.hostActive = if op = .hostExit then false else s.hostActive
  tears : ∀ o ∈ c'.ops, o.tears = true → op = .probeExit ∨ o ∈ c.ops
  native : op ≠ .publish → s.nativePending = [] → s'.nativePending = []
  modules : op ≠ .arm → s.moduleHolders = [] → s'.moduleHolders = []
  idle : op = .controlExit → ∀ d ∈ s.calls, d.control = true → d.ops = []
  exits : op = .probeExit → s.probeActive = true → .unregister ∈ c'.ops ∧ s'.moduleHolders = []
  keeps : op.tears = true ∨ op.isOn = true → ∀ o ∈ c.ops, o ∈ c'.ops

/-- An operation that changes its own call, the lock and the ghost. -/
theorem after_setCall (s : ProbeRun) (r : TempRun) (locked : Bool) (grants : List ModuleGrant)
    (hop : op.tears = false) (hon : op.isOn = false) (hc : c'.control = c.control)
    (hops : ∀ o ∈ c'.ops, o ∈ c.ops ∨ o.tears = false) :
    After s op c i ({ s with run := r, moduleLocked := locked, grants := grants }.setCall i c')
      c' := by
  have hne : ∀ o : Op, o.tears = true → op ≠ o := by
    rintro o ho rfl
    rw [hop] at ho
    cases ho
  refine ⟨rfl, hc, (if_neg (hne _ rfl)).symm, (if_neg (hne _ rfl)).symm, (if_neg (hne _ rfl)).symm,
    (if_neg (hne _ rfl)).symm, (if_neg (hne _ rfl)).symm, fun o ho htears => ?_, fun _ => id,
    fun _ => id, fun h => absurd h (hne _ rfl), fun h => absurd h (hne _ rfl),
    keeps_of_plain hop hon⟩
  rcases hops o ho with h | h
  · exact .inr h
  · rw [htears] at h
    cases h

/-- It goes on with what it has ahead. -/
theorem formed_next (hs : Serving { c with ops := op :: c.ops }) (hclose : op.closes = false)
    (r : TempRun) (locked : Bool) (grants : List ModuleGrant) (state : Option Nat) (staged : Nat) :
    ∃ c', After s op c i ({ s with run := r, moduleLocked := locked, grants := grants }.setCall i
      { c with state := state, staged := staged }) c' ∧ Formed c' :=
  ⟨_, after_setCall s r locked grants (hs.plain op List.mem_cons_self).2.1
    (hs.plain op List.mem_cons_self).1 rfl fun _ => .inl, .inl (hs.next hclose state staged)⟩

/-- It is over. -/
theorem formed_quit (op : Op) (hop : op.tears = false) (hon : op.isOn = false) (r : TempRun)
    (locked : Bool) (grants : List ModuleGrant) :
    ∃ c', After s op c i ({ s with run := r, moduleLocked := locked, grants := grants }.setCall i
      { c with state := none, ops := [] }) c' ∧ Formed c' :=
  ⟨_, after_setCall s r locked grants hop hon rfl nofun, .inr (.inl (dropping_over rfl rfl))⟩

/-- It hands its record back. -/
theorem formed_fail (op : Op) (hop : op.tears = false) (hon : op.isOn = false) (r : TempRun)
    (o : Op) (ho : o = .giveBack ∨ o = .rollback) :
    ∃ c', After s op c i ({ s with run := r }.setCall i { c with ops := [o] }) c' ∧ Formed c' := by
  refine ⟨_, after_setCall s r s.moduleLocked s.grants hop hon rfl fun p hp => .inr ?_, .inl ?_⟩
  · obtain rfl := List.mem_singleton.mp hp
    rcases ho with rfl | rfl <;> rfl
  · rcases ho with rfl | rfl
    · exact serving_handBack c
    · exact serving_rollback c

/-- A serving call that branches on a result. -/
theorem formed_branch {b : Bool} (hs : Serving { c with ops := op :: c.ops })
    (hclose : op.closes = false) (r : TempRun) :
    ∃ c', After s op c i (if b then { s with run := r }.setCall i c
      else { s with run := r }.fail i c) c' ∧ Formed c' := by
  obtain ⟨hon, hop, -⟩ := hs.plain op List.mem_cons_self
  cases b with
  | true => exact formed_next hs hclose r s.moduleLocked s.grants c.state c.staged
  | false => exact formed_fail _ hop hon r _ (.inl rfl)

/-- It returns `0`. -/
theorem formed_armed {r : TempRun} : ∃ c', After s .arm c i
    (s.granted (({ s with run := r, moduleLocked := false } : ProbeRun).quit i c) c) c' ∧
      Formed c' :=
  ⟨_, ⟨rfl, rfl, rfl, rfl, rfl, rfl, rfl, nofun, fun _ => id, fun _ => id, nofun, nofun,
    keeps_of_plain rfl rfl⟩, .inr (.inl (dropping_over rfl rfl))⟩

/-- Going on with a holder leaves the flags alone. -/
theorem proceedOn_flags {t : ProbeRun} {h : Nat} {p : Phase} {holder : PolicyHolder}
    (hs : t.proceedOn i c call h holder p = some s') :
    s'.hooked = t.hooked ∧ s'.probeActive = t.probeActive ∧
      s'.controlAvailable = t.controlAvailable ∧ s'.deactivating = t.deactivating ∧
      s'.hostActive = t.hostActive ∧ (t.nativePending = [] → s'.nativePending = []) ∧
      (t.moduleHolders = [] → s'.moduleHolders = []) ∧ s'.permanent = t.permanent := by
  cases p <;> simp only [ProbeRun.proceedOn] at hs
  case schedule | free | freeSelf | restore | restoreSelf =>
    obtain rfl := Option.some.inj hs
    exact ⟨rfl, rfl, rfl, rfl, rfl, id, id, rfl⟩
  case cancel =>
    split_ifs at hs
    obtain rfl := Option.some.inj hs
    exact ⟨rfl, rfl, rfl, rfl, rfl, id, id, rfl⟩
  case expire =>
    split_ifs at hs
    · obtain rfl := Option.some.inj hs
      exact ⟨rfl, rfl, rfl, rfl, rfl, fun h => by simp [h], fun h => by simp [h], rfl⟩
    · obtain rfl := Option.some.inj hs
      exact ⟨rfl, rfl, rfl, rfl, rfl, id, id, rfl⟩

theorem formed_stageFd {r : TempRun} {early : Bool}
    (hs : Serving { c with ops := .stageFd early :: c.ops }) :
    ∃ c', After s (.stageFd early) c i
      (s.zpStageFd { s with run := r } i c env call early) c' ∧ Formed c' := by
  unfold ProbeRun.zpStageFd
  cases env.file with
  | none =>
    cases early with
    | true => exact formed_next hs rfl r s.moduleLocked s.grants c.state c.staged
    | false =>
      exact ⟨_, after_setCall s r s.moduleLocked s.grants rfl rfl rfl (by rintro o ⟨⟩),
        .inr (.inl (dropping_over (hs.fresh rfl) rfl))⟩
  | some file =>
    refine ⟨_, after_setCall s r s.moduleLocked s.grants rfl rfl rfl fun o ho => ?_,
      .inl (hs.install rfl early (s.loaded call))⟩
    rcases List.mem_cons.mp ho with rfl | ho
    · exact .inr rfl
    · exact .inl ho

theorem formed_installFd {r : TempRun} {early : Bool}
    (hs : Serving { c with ops := .installFd early :: c.ops }) :
    ∃ c', After s (.installFd early) c i
      (({ s with run := r } : ProbeRun).zpInstallFd i c env call early) c' ∧ Formed c' := by
  unfold ProbeRun.zpInstallFd
  by_cases hok : env.ok = true
  · rw [if_pos hok]
    exact formed_next hs rfl r s.moduleLocked s.grants c.state _
  rw [if_neg hok]
  by_cases hearly : early = true
  · rw [if_pos hearly]
    exact formed_next hs rfl r s.moduleLocked s.grants _ c.staged
  · rw [if_neg hearly]
    exact formed_quit (.installFd early) rfl rfl r s.moduleLocked s.grants

theorem formed_publish {r : TempRun} :
    ∃ c', After s .publish c i (s.zpPublishNativePolicyState { s with run := r } i c env) c' ∧
      Formed c' := by
  unfold ProbeRun.zpPublishNativePolicyState
  split_ifs
  · exact formed_quit _ rfl rfl r s.moduleLocked s.grants
  · exact formed_fail _ rfl rfl r _ (.inl rfl)
  · have hon : ∀ o ∈ Op.on .schedule s.holders.length ::
        drain (s.nativePending.filter (s.hasTgid c.tgid)), o.isOn = true := by
      intro o ho
      rcases List.mem_cons.mp ho with rfl | ho
      · rfl
      · exact isOn_drain _ o ho
    refine ⟨_, ⟨rfl, rfl, rfl, rfl, rfl, rfl, rfl, fun o ho htears => ?_,
      fun hne => absurd rfl hne, fun _ => id, by rintro ⟨⟩, by rintro ⟨⟩, keeps_of_plain rfl rfl⟩,
      .inr (.inl ⟨rfl, fun o ho => .inl (hon o ho)⟩)⟩
    rw [isOn_tears (hon o ho)] at htears
    cases htears

theorem formed_collectNative {r : TempRun} (hd : Dropping { c with ops := .collectNative :: c.ops }) :
    ∃ c', After s .collectNative c i (({ s with run := r } : ProbeRun).collectNative i c) c' ∧
      Formed c' :=
  ⟨_, ⟨rfl, rfl, rfl, rfl, rfl, rfl, rfl, fun o ho ht => .inr (tears_drain ho ht),
    fun _ hnil => by simp [ProbeRun.collectNative, hnil], fun _ => id, by rintro ⟨⟩, by rintro ⟨⟩,
    keeps_of_plain rfl rfl⟩, .inr (.inl (hd.collect _))⟩

theorem formed_collectModule {r : TempRun} (hd : Dropping { c with ops := .collectModule :: c.ops }) :
    ∃ c', After s .collectModule c i
      (({ s with run := r } : ProbeRun).zpRestoreModulePolicy i c) c' ∧ Formed c' :=
  ⟨_, ⟨rfl, rfl, rfl, rfl, rfl, rfl, rfl, fun o ho ht => .inr (tears_drain ho ht),
    fun _ => id, fun _ hnil => by simp [ProbeRun.zpRestoreModulePolicy, hnil], by rintro ⟨⟩,
    by rintro ⟨⟩, keeps_of_plain rfl rfl⟩, .inr (.inl (hd.collect _))⟩

theorem formed_arm {r : TempRun} :
    ∃ c', After s .arm c i (s.armModule { s with run := r } i c call) c' ∧ Formed c' := by
  unfold ProbeRun.armModule
  dsimp only
  by_cases hadd : (!zpNativePolicyHasAdditions (s.run.value c.state)) = true
  · rw [if_pos hadd]
    exact formed_armed
  rw [if_neg hadd]
  cases s.sharedHolder c with
  | none =>
    exact ⟨_, ⟨rfl, rfl, rfl, rfl, rfl, rfl, rfl, by rintro o ⟨⟩, fun _ => id,
      fun hne => absurd rfl hne, by rintro ⟨⟩, by rintro ⟨⟩, keeps_of_plain rfl rfl⟩,
      .inr (.inl (dropping_over rfl rfl))⟩
  | some _ =>
    dsimp only
    by_cases hret : s.run.returns call = true
    · rw [if_pos hret]
      exact formed_armed
    · rw [if_neg hret]
      exact formed_quit .arm rfl rfl r false s.grants

/-- The permanent grants are made. -/
theorem formed_prepareRuntime {r : TempRun} {permanent : PolicyKey → Av}
    (hd : Dropping { c with ops := .prepareRuntime :: c.ops }) :
    ∃ c', After s .prepareRuntime c i
      (({ s with run := r, permanent := permanent } : ProbeRun).setCall i c) c' ∧ Formed c' :=
  ⟨c, ⟨rfl, rfl, rfl, rfl, rfl, rfl, rfl, fun o ho _ => .inr ho, fun _ => id, fun _ => id,
    by rintro ⟨⟩, by rintro ⟨⟩, keeps_of_plain rfl rfl⟩,
    .inr (.inl ⟨hd.state, fun o ho => hd.ops o (List.mem_cons_of_mem _ ho)⟩)⟩

omit [AvtabFns] in
/-- The teardown goes on after one of its first or last operations. -/
theorem Tearing.rest (ht : Tearing { c with ops := op :: c.ops }) (hp : op ≠ .probeExit)
    (he : op ≠ .hostExit) : Formed c := by
  rcases ht.next with h | ⟨-, h | h⟩
  · exact .inr (.inr h)
  · exact absurd h hp
  · exact absurd h he

theorem formed_controlExit {r : TempRun} (ht : Tearing { c with ops := .controlExit :: c.ops })
    (hbusy : ¬ (s.calls.any fun d => d.control && !d.ops.isEmpty) = true) :
    ∃ c', After s .controlExit c i
      (({ s with run := r, controlAvailable := false } : ProbeRun).setCall i c) c' ∧ Formed c' := by
  refine ⟨c, ⟨rfl, rfl, rfl, rfl, rfl, rfl, rfl, fun o ho _ => .inr ho, fun _ => id, fun _ => id,
    fun _ d hd hcontrol => ?_, by rintro ⟨⟩, fun _ _ => id⟩, ht.rest (by rintro ⟨⟩) (by rintro ⟨⟩)⟩
  have hidle := List.any_eq_false.mp (Bool.eq_false_iff.mpr hbusy) d hd
  simpa [hcontrol] using hidle

theorem formed_probeExit {r : TempRun} (ht : Tearing { c with ops := .probeExit :: c.ops }) :
    ∃ c', After s .probeExit c i (({ s with run := r } : ProbeRun).probeExit i c) c' ∧
      Formed c' := by
  have hrest := ht.probeExit
  unfold ProbeRun.probeExit
  by_cases hactive : s.probeActive = true
  · rw [if_pos hactive]
    refine ⟨_, ⟨rfl, rfl, rfl, rfl, rfl, rfl, rfl, fun _ _ _ => .inl rfl, fun _ => id,
      fun _ _ => rfl, by rintro ⟨⟩, fun _ _ => ⟨?_, rfl⟩, fun _ o ho => ?_⟩, .inr (.inr ⟨ht.state,
        ht.control, .inr (.inr ⟨drain s.moduleHolders, isOn_drain _, .inl rfl⟩)⟩)⟩
    · exact List.mem_append_right _ List.mem_cons_self
    · rw [hrest] at ho
      cases ho
  · rw [if_neg hactive]
    refine ⟨_, ⟨rfl, rfl, rfl, rfl, rfl, rfl, rfl, fun _ _ _ => .inl rfl, fun _ => id,
      fun _ => id, by rintro ⟨⟩, fun _ h => absurd h hactive, fun _ o ho => ?_⟩,
      .inr (.inr ⟨ht.state, ht.control, .inr (.inr ⟨[], by rintro o ⟨⟩, .inr rfl⟩)⟩)⟩
    rw [hrest] at ho
    cases ho

theorem formed_unregister {r : TempRun} (ht : Tearing { c with ops := .unregister :: c.ops }) :
    ∃ c', After s .unregister c i
      (({ s with run := r, hooked := false, probeActive := false } : ProbeRun).setCall i c) c' ∧
      Formed c' :=
  ⟨c, ⟨rfl, rfl, rfl, rfl, rfl, rfl, rfl, fun o ho _ => .inr ho, fun _ => id, fun _ => id,
    by rintro ⟨⟩, by rintro ⟨⟩, fun _ _ => id⟩, ht.rest (by rintro ⟨⟩) (by rintro ⟨⟩)⟩

theorem formed_hostExit {r : TempRun} (ht : Tearing { c with ops := .hostExit :: c.ops }) :
    ∃ c', After s .hostExit c i (({ s with
      run := r, hostActive := false, deactivating := false } : ProbeRun).setCall i c) c' ∧
      Formed c' := by
  refine ⟨c, ⟨rfl, rfl, rfl, rfl, rfl, rfl, rfl, fun o ho _ => .inr ho, fun _ => id, fun _ => id,
    by rintro ⟨⟩, by rintro ⟨⟩, fun _ _ => id⟩, ?_⟩
  rcases ht.next with h | ⟨h, -⟩
  · exact .inr (.inr h)
  · exact .inr (.inl (dropping_over ht.state h))

/-- An operation on a holder, for any kind of call. -/
theorem formed_on {r : TempRun} {p : Phase} {h₀ : Nat} {holder : PolicyHolder}
    (hf : Formed { c with ops := .on p h₀ :: c.ops })
    (h : ({ s with run := r } : ProbeRun).proceedOn i c call h₀ holder p = some s') :
    ∃ c', After s (.on p h₀) c i s' c' ∧ Formed c' := by
  obtain ⟨ops, hops, hcalls⟩ := proceedOn_calls h
  obtain ⟨h1, h2, h3, h4, h5, hnative, hmodules, -⟩ := proceedOn_flags h
  have hon : ∀ o ∈ ops, o.isOn = true := by
    intro o ho
    rcases hops with rfl | ⟨q, rfl⟩
    · cases ho
    · obtain rfl := List.mem_singleton.mp ho
      rfl
  refine ⟨_, ⟨hcalls, rfl, h1, h2, h3, h4, h5, fun o ho ht => ?_, fun _ => hnative,
    fun _ => hmodules, by rintro ⟨⟩, by rintro ⟨⟩, fun _ o ho => List.mem_append_right _ ho⟩,
    hf.on rfl hon⟩
  rcases List.mem_append.mp ho with ho | ho
  · rw [isOn_tears (hon o ho)] at ht
    cases ht
  · exact .inr ho

/-- **What an operation does to its call.** -/
theorem formed_run {r : TempRun} (hf : Formed { c with ops := op :: c.ops })
    (h : s.proceed { s with run := r } i c env call op = some s') :
    ∃ c', After s op c i s' c' ∧ Formed c' := by
  cases op with
  | stageFd early =>
    obtain rfl := Option.some.inj h
    exact formed_stageFd (hf.serving rfl rfl rfl)
  | installFd early =>
    obtain rfl := Option.some.inj h
    exact formed_installFd (hf.serving rfl rfl rfl)
  | stageCore | stagePacket | redirect =>
    obtain rfl := Option.some.inj h
    exact formed_branch (hf.serving rfl rfl rfl) rfl r
  | allowExecmemCurrent =>
    obtain rfl := Option.some.inj h
    split_ifs
    · exact formed_next (hf.serving rfl rfl rfl) rfl r s.moduleLocked s.grants _ c.staged
    · exact formed_fail _ rfl rfl r _ (.inl rfl)
  | publish =>
    obtain rfl := Option.some.inj h
    exact formed_publish
  | giveBack =>
    obtain rfl := Option.some.inj h
    exact formed_quit _ rfl rfl r s.moduleLocked s.grants
  | collectNative =>
    obtain rfl := Option.some.inj h
    exact formed_collectNative (hf.dropping rfl)
  | collectModule =>
    simp only [ProbeRun.proceed] at h
    split_ifs at h
    obtain rfl := Option.some.inj h
    exact formed_collectModule (hf.dropping rfl)
  | allowCred =>
    simp only [ProbeRun.proceed] at h
    split_ifs at h
    · obtain rfl := Option.some.inj h
      exact formed_next (hf.serving rfl rfl rfl) rfl r true s.grants _ c.staged
    · obtain rfl := Option.some.inj h
      exact formed_quit _ rfl rfl r s.moduleLocked s.grants
  | allowExecmemCred =>
    obtain rfl := Option.some.inj h
    split_ifs
    · exact formed_next (hf.serving rfl rfl rfl) rfl r s.moduleLocked s.grants _ c.staged
    · exact formed_fail _ rfl rfl r _ (.inr rfl)
  | arm =>
    obtain rfl := Option.some.inj h
    exact formed_arm
  | rollback =>
    obtain rfl := Option.some.inj h
    exact formed_quit _ rfl rfl r false s.grants
  | prepareRuntime =>
    obtain rfl := Option.some.inj h
    exact formed_prepareRuntime (hf.dropping rfl)
  | controlExit =>
    simp only [ProbeRun.proceed] at h
    split_ifs at h with hbusy
    obtain rfl := Option.some.inj h
    exact formed_controlExit (hf.tearing rfl) hbusy
  | probeExit =>
    simp only [ProbeRun.proceed] at h
    split_ifs at h
    obtain rfl := Option.some.inj h
    exact formed_probeExit (hf.tearing rfl)
  | unregister =>
    obtain rfl := Option.some.inj h
    exact formed_unregister (hf.tearing rfl)
  | hostExit =>
    obtain rfl := Option.some.inj h
    exact formed_hostExit (hf.tearing rfl)
  | on p h₀ =>
    simp only [ProbeRun.proceed] at h
    split at h
    · cases h
    exact formed_on hf h

/-! ## 3. The stages of the teardown -/

/-- What every run keeps of the calls and the flags: one call at most is the teardown, and what it
has done already is done. -/
structure Staged (s : ProbeRun) : Prop where
  formed : ∀ c ∈ s.calls, Formed c
  one : ∃ k, ∀ (i : Nat) (c : Call), s.calls[i]? = some c → Tears c →
    i = k ∧ s.deactivating = true
  control : s.controlAvailable = false → ∀ c ∈ s.calls, c.control = true → c.ops = []
  closed : ∀ c ∈ s.calls, Tears c → .controlExit ∉ c.ops → s.controlAvailable = false
  unhooked : ∀ c ∈ s.calls, .hostExit ∈ c.ops → .unregister ∉ c.ops → s.hooked = false
  active : s.hooked = true → s.probeActive = true

/-- **What an operation does to its call**, and that it stays of its kind. -/
theorem runOp_after (hf : ∀ c ∈ s.calls, Formed c) (h : s.runOp i env = some s') :
    ∃ op c c', Runs s i op c ∧ After s op c i s' c' ∧ Formed c' := by
  unfold ProbeRun.runOp at h
  split at h
  · cases h
  rename_i c₀ hc₀
  split at h
  · cases h
  rename_i op rest hops
  have hruns : Runs s i op { c₀ with ops := rest } := ⟨by rw [hc₀, ← hops]⟩
  obtain ⟨c', hafter, hformed⟩ :=
    formed_run (hf _ (List.mem_of_getElem? hruns.call)) h
  exact ⟨op, _, c', hruns, hafter, hformed⟩

/-- A call starts that is not the teardown. -/
theorem Staged.start {u : ProbeRun} {c : Call} (hs : Staged s) (hcalls : u.calls = s.calls ++ [c])
    (hdeactivating : u.deactivating = s.deactivating)
    (hcontrol : u.controlAvailable = s.controlAvailable) (hhooked : u.hooked = s.hooked)
    (hactive : u.probeActive = s.probeActive) (hf : Formed c) (ht : ¬ Tears c)
    (hrequest : c.control = true → s.controlAvailable = true) : Staged u := by
  have hold : ∀ d ∈ u.calls, d ∈ s.calls ∨ d = c := by
    intro d hd
    rw [hcalls] at hd
    rcases List.mem_append.mp hd with hd | hd
    · exact .inl hd
    · exact .inr (List.mem_singleton.mp hd)
  refine ⟨?_, ?_, ?_, ?_, ?_, ?_⟩
  · intro d hd
    rcases hold d hd with hd | rfl
    · exact hs.formed d hd
    · exact hf
  · obtain ⟨k, hk⟩ := hs.one
    refine ⟨k, ?_⟩
    intro i d hd htears
    rw [hdeactivating]
    rw [hcalls] at hd
    rcases Nat.lt_or_ge i s.calls.length with hi | hi
    · rw [List.getElem?_append_left hi] at hd
      exact hk i d hd htears
    · rw [List.getElem?_append_right hi] at hd
      obtain rfl := List.mem_singleton.mp (List.mem_of_getElem? hd)
      exact absurd htears ht
  · intro hoff d hd hctl
    rw [hcontrol] at hoff
    rcases hold d hd with hd | rfl
    · exact hs.control hoff d hd hctl
    · rw [hrequest hctl] at hoff
      cases hoff
  · intro d hd htears hno
    rw [hcontrol]
    rcases hold d hd with hd | rfl
    · exact hs.closed d hd htears hno
    · exact absurd htears ht
  · intro d hd hexit hno
    rw [hhooked]
    rcases hold d hd with hd | rfl
    · exact hs.unhooked d hd hexit hno
    · exact absurd ⟨_, hexit, rfl⟩ ht
  · rw [hhooked, hactive]
    exact hs.active

/-- The teardown starts. -/
theorem Staged.deactivate (hs : Staged s) (hidle : s.deactivating = false) :
    Staged ({ s with deactivating := true }.start
      ⟨false, 0, none, none, none, 0, [.controlExit, .probeExit]⟩) := by
  have hnone : ∀ c ∈ s.calls, ¬ Tears c := by
    intro c hc ht
    obtain ⟨k, hk⟩ := hs.one
    obtain ⟨i, hi⟩ := List.mem_iff_getElem?.mp hc
    rw [hidle] at hk
    cases (hk i c hi ht).2
  have hold : ∀ d ∈
        s.calls ++ [(⟨false, 0, none, none, none, 0, [.controlExit, .probeExit]⟩ : Call)],
      d ∈ s.calls ∨ d = ⟨false, 0, none, none, none, 0, [.controlExit, .probeExit]⟩ := by
    intro d hd
    rcases List.mem_append.mp hd with hd | hd
    · exact .inl hd
    · exact .inr (List.mem_singleton.mp hd)
  refine ⟨?_, ⟨s.calls.length, ?_⟩, ?_, ?_, ?_, hs.active⟩
  · intro d hd
    rcases hold d hd with hd | rfl
    · exact hs.formed d hd
    · exact .inr (.inr ⟨rfl, rfl, .inl rfl⟩)
  · intro i d hd ht
    refine ⟨?_, rfl⟩
    have hd : (s.calls ++ [_])[i]? = some d := hd
    rcases Nat.lt_trichotomy i s.calls.length with hi | hi | hi
    · rw [List.getElem?_append_left hi] at hd
      exact absurd ht (hnone d (List.mem_of_getElem? hd))
    · exact hi
    · rw [List.getElem?_eq_none (by simp; omega)] at hd
      cases hd
  · intro hoff d hd hctl
    rcases hold d hd with hd | rfl
    · exact hs.control hoff d hd hctl
    · cases hctl
  · intro d hd ht hno
    rcases hold d hd with hd | rfl
    · exact absurd ht (hnone d hd)
    · exact absurd List.mem_cons_self hno
  · intro d hd hexit hno
    rcases hold d hd with hd | rfl
    · exact absurd ⟨_, hexit, rfl⟩ (hnone d hd)
    · simp at hexit

/-- An operation of the teardown moves the stages on. -/
theorem Staged.run {op : Op} {c c' : Call} (hs : Staged s) (hruns : Runs s i op c)
    (hafter : After s op c i s' c') (hf : Formed c') : Staged s' := by
  have hcall := hruns.call
  have hmem := List.mem_of_getElem? hcall
  have hlt : i < s.calls.length := (List.getElem?_eq_some_iff.mp hcall).1
  have hold : ∀ d ∈ s'.calls, d ∈ s.calls ∨ d = c' := by
    intro d hd
    rw [hafter.calls] at hd
    exact List.mem_or_eq_of_mem_set hd
  -- the teardown has been that of the call before
  have htears : Tears c' → Tears { c with ops := op :: c.ops } := by
    rintro ⟨o, ho, ht⟩
    rcases hafter.tears o ho ht with rfl | ho
    · exact ⟨_, List.mem_cons_self, rfl⟩
    · exact ⟨o, List.mem_cons_of_mem _ ho, ht⟩
  have hcontrol : s'.controlAvailable = false ∨ s'.controlAvailable = s.controlAvailable := by
    rw [hafter.available]
    split_ifs
    · exact .inl rfl
    · exact .inr rfl
  have hhooked : s'.hooked = false ∨ s'.hooked = s.hooked := by
    rw [hafter.hooked]
    split_ifs
    · exact .inl rfl
    · exact .inr rfl
  have hother : ∀ (j : Nat) (d : Call), j ≠ i → s'.calls[j]? = some d → s.calls[j]? = some d := by
    intro j d hj hd
    rwa [hafter.calls, List.getElem?_set_ne (Ne.symm hj)] at hd
  have hself : s'.calls[i]? = some c' := by
    rw [hafter.calls, List.getElem?_set_self hlt]
  refine ⟨?_, ?_, ?_, ?_, ?_, ?_⟩
  · intro d hd
    rcases hold d hd with hd | rfl
    · exact hs.formed d hd
    · exact hf
  · obtain ⟨k, hk⟩ := hs.one
    refine ⟨k, ?_⟩
    intro j d hd ht
    have hbefore : j = k ∧ s.deactivating = true := by
      by_cases hj : j = i
      · subst hj
        rw [hself] at hd
        obtain rfl := Option.some.inj hd
        exact hk j _ hcall (htears ht)
      · exact hk j d (hother j d hj hd) ht
    refine ⟨hbefore.1, ?_⟩
    rw [hafter.deactivating, hbefore.2]
    refine if_neg ?_
    rintro rfl
    -- the host stage is left by the teardown, which has nothing ahead then
    have htearing : Tears { c with ops := .hostExit :: c.ops } := ⟨_, List.mem_cons_self, rfl⟩
    have hi := (hk i _ hcall htearing).1
    have hji : j = i := hbefore.1.trans hi.symm
    subst hji
    rw [hself] at hd
    obtain rfl := Option.some.inj hd
    obtain ⟨o, ho, hot⟩ := ht
    rcases hafter.tears o ho hot with h | ho
    · cases h
    rw [((hs.formed _ hmem).of_tears htearing).hostExit] at ho
    cases ho
  · intro hoff d hd hctl
    have hbefore : ∀ d ∈ s.calls, d.control = true → d.ops = [] := by
      by_cases hop : op = .controlExit
      · exact hafter.idle hop
      · rw [hafter.available, if_neg hop] at hoff
        exact hs.control hoff
    rcases hold d hd with hd | rfl
    · exact hbefore d hd hctl
    · rw [hafter.control] at hctl
      cases hbefore _ hmem hctl
  · intro d hd ht hno
    rcases hcontrol with h | h
    · exact h
    rw [h]
    rcases hold d hd with hd | rfl
    · exact hs.closed d hd ht hno
    by_cases hop : op = .controlExit
    · rw [← h, hafter.available, if_pos hop]
    refine hs.closed _ hmem (htears ht) ?_
    intro hin
    rcases List.mem_cons.mp hin with heq | hin
    · exact hop heq.symm
    · exact ((hs.formed _ hmem).of_tears (htears ht)).control_tail hin
  · intro d hd hexit hno
    rcases hhooked with h | h
    · exact h
    rw [h]
    rcases hold d hd with hd | rfl
    · exact hs.unhooked d hd hexit hno
    rcases hafter.tears _ hexit rfl with hop | hexit
    · by_contra hon
      exact hno (hafter.exits hop (hs.active (by simpa using hon))).1
    by_cases hop : op = .unregister
    · rw [← h, hafter.hooked, if_pos hop]
    have ht : Tears { c with ops := op :: c.ops } := ⟨_, List.mem_cons_of_mem _ hexit, rfl⟩
    refine hs.unhooked _ hmem (List.mem_cons_of_mem _ hexit) ?_
    intro hin
    rcases List.mem_cons.mp hin with heq | hin
    · exact hop heq.symm
    · exact hno (hafter.keeps ((hs.formed _ hmem).of_tears ht).head _ hin)
  · intro hon
    rw [hafter.hooked] at hon
    rw [hafter.probeActive]
    by_cases hop : op = .unregister
    · rw [if_pos hop] at hon
      cases hon
    · rw [if_neg hop] at hon ⊢
      exact hs.active hon

theorem staged_step (hs : Staged s) (h : probe.step s a = some s') : Staged s' := by
  cases a with
  | exec tw =>
    simp only [probe, ProbeRun.step] at h
    split_ifs at h
    obtain rfl := Option.some.inj h
    exact ⟨hs.formed, hs.one, hs.control, hs.closed, hs.unhooked, hs.active⟩
  | inject j cred yuki count =>
    simp only [probe, ProbeRun.step] at h
    split at h
    · cases h
    rename_i tw _
    obtain rfl := Option.some.inj h
    have hserving := serving_inject tw.tgid cred (tw.kind yuki count)
    exact hs.start rfl rfl rfl rfl rfl (.inl hserving) (not_tears_of_serving hserving)
      fun hc => absurd hc Bool.false_ne_true
  | restoreRequest tgid =>
    simp only [probe, ProbeRun.step] at h
    split_ifs at h with hcond
    · obtain rfl := Option.some.inj h
      exact hs
    obtain rfl := Option.some.inj h
    have hdrop : Dropping ⟨true, tgid, none, none, none, 0, [.collectNative, .collectModule]⟩ :=
      ⟨rfl, fun o ho => .inr (by
        simp only [List.mem_cons, List.not_mem_nil, or_false] at ho
        rcases ho with rfl | rfl <;> rfl)⟩
    exact hs.start rfl rfl rfl rfl rfl (.inr (.inl hdrop)) (not_tears_of_dropping hdrop) fun _ => by
      simpa using (not_or.mp hcond).1
  | allowModule tgid dir cred alloc =>
    simp only [probe, ProbeRun.step] at h
    split_ifs at h with hcond
    · obtain rfl := Option.some.inj h
      exact hs
    obtain rfl := Option.some.inj h
    have hserving := serving_allow tgid cred dir
    exact hs.start rfl rfl rfl rfl rfl (.inl hserving) (not_tears_of_serving hserving) fun _ => by
      simpa using (not_or.mp hcond).1
  | prepareRuntime current =>
    simp only [probe, ProbeRun.step] at h
    split_ifs at h with hcond
    · obtain rfl := Option.some.inj h
      exact hs
    obtain rfl := Option.some.inj h
    have hdrop := dropping_prepare current
    exact hs.start rfl rfl rfl rfl rfl (.inr (.inl hdrop)) (not_tears_of_dropping hdrop) fun _ => by
      simpa using hcond
  | deactivate =>
    simp only [probe, ProbeRun.step] at h
    split_ifs at h with hbusy hactive
    · obtain rfl := Option.some.inj h
      exact hs.deactivate (by simpa using hbusy)
    · obtain rfl := Option.some.inj h
      exact hs
  | fire h₀ =>
    simp only [probe, ProbeRun.step, ProbeRun.fire] at h
    split at h
    · cases h
    rename_i p hp
    split at h
    · split_ifs at h
      obtain rfl := Option.some.inj h
      have hdrop : Dropping ⟨false, p.tgid, none, none, none, 0, [.on .expire h₀]⟩ :=
        ⟨rfl, fun o ho => .inl (by rw [List.mem_singleton.mp ho]; rfl)⟩
      exact hs.start rfl rfl rfl rfl rfl (.inr (.inl hdrop)) (not_tears_of_dropping hdrop)
        fun hc => absurd hc Bool.false_ne_true
    · cases h
  | tick n =>
    obtain rfl := Option.some.inj h
    exact ⟨hs.formed, hs.one, hs.control, hs.closed, hs.unhooked, hs.active⟩
  | run i env =>
    obtain ⟨op, c, c', hruns, hafter, hf⟩ := runOp_after hs.formed h
    exact hs.run hruns hafter hf

theorem staged_of_reach {P : ProbeRun → ProbeAct → Prop} (hr : probe.Reach P s) : Staged s := by
  refine hr.invariant ⟨fun s hi => ?_, fun u a u' hu _ h => staged_step hu h⟩
  obtain ⟨-, -, -, -, -, hcalls, -, -, -, -, -, hactive⟩ := hi
  have hnone : ∀ c : Call, c ∉ s.calls := fun c hc => by rw [hcalls] at hc; cases hc
  refine ⟨fun c hc => absurd hc (hnone c), ⟨0, fun i c hc => ?_⟩, fun _ c hc => absurd hc (hnone c),
    fun c hc => absurd hc (hnone c), fun c hc => absurd hc (hnone c), hactive⟩
  exact absurd (List.mem_of_getElem? hc) (hnone c)

/-! ## 4. Nothing is under way -/

/-- The call is over, or it is a timeout work that has not looked at its holder yet. -/
def Waits (c : Call) : Prop := c.ops = [] ∨ ∃ h, c.ops = [.on .expire h]

/-- The teardown finds no entry of an injection and no other call under way when it drains the
holders, no injection that the hook has queued starts between the drain and the end of the host
stage, and no step is one of the defects of the table and of the records. -/
structure TearsDown (s : ProbeRun) (a : ProbeAct) : Prop where
  records : KeepsRecords s a
  scheduled : CancelsScheduled s a
  requests : ∀ ta, s.tempAct a = some ta → AsksOnce s.run ta
  quiet : ∀ i env c, a = .run i env → Runs s i .probeExit c → s.probeActive = true ∧
    s.nativePending = [] ∧ ∀ (j : Nat) (d : Call), j ≠ i → s.calls[j]? = some d → Waits d
  late : ∀ j cred yuki count, a = .inject j cred yuki count → ∀ c ∈ s.calls, .hostExit ∉ c.ops

/-- The same as tests. -/
def Call.waits (c : Call) : Bool :=
  match c.ops with
  | [] | [.on .expire _] => true
  | _ => false

def tearsDown (s : ProbeRun) (a : ProbeAct) : Bool :=
  keepsRecords s a && cancelsScheduled s a &&
    (s.tempAct a).all (fun ta => decide (AsksOnce s.run ta)) &&
    match a with
    | .run i _ => (s.calls[i]?).all fun c =>
      c.ops.head? != some .probeExit ||
        s.probeActive && s.nativePending.isEmpty && (s.calls.eraseIdx i).all Call.waits
    | .inject .. => s.calls.all fun c => decide (.hostExit ∉ c.ops)
    | _ => true

omit [AvtabFns] in
theorem waits_of_test (h : c.waits = true) : Waits c := by
  unfold Call.waits at h
  split at h
  · exact .inl ‹_›
  · exact .inr ⟨_, ‹_›⟩
  · cases h

theorem tearsDown_of_test (h : tearsDown s a = true) : TearsDown s a := by
  simp only [tearsDown, Bool.and_eq_true] at h
  obtain ⟨⟨⟨hrecords, hscheduled⟩, hasks⟩, hact⟩ := h
  refine ⟨keepsRecords_of_test hrecords, cancelsScheduled_of_test hscheduled, ?_, ?_, ?_⟩
  · intro ta hta
    rw [hta] at hasks
    exact of_decide_eq_true hasks
  · rintro i env c rfl hruns
    simp only [hruns.call, Option.all_some, List.head?_cons, bne_self_eq_false, Bool.false_or,
      Bool.and_eq_true, List.isEmpty_iff, List.all_eq_true] at hact
    obtain ⟨⟨hactive, hnative⟩, hothers⟩ := hact
    exact ⟨hactive, hnative, fun j d hj hd =>
      waits_of_test (hothers d (List.mem_eraseIdx_iff_getElem?.mpr ⟨j, hj, hd⟩))⟩
  · rintro j cred yuki count rfl c hc
    simpa using List.all_eq_true.mp hact c hc

/-- From the drain on, the lists are empty and no other call is under way. -/
def Drained (s : ProbeRun) : Prop :=
  ∀ (i : Nat) (c : Call), s.calls[i]? = some c → .hostExit ∈ c.ops →
    s.nativePending = [] ∧ s.moduleHolders = [] ∧
      ∀ (j : Nat) (d : Call), j ≠ i → s.calls[j]? = some d → Waits d

theorem Drained.start {u : ProbeRun} {c₀ : Call} (hd : Drained s)
    (hcalls : u.calls = s.calls ++ [c₀])
    (hnative : u.nativePending = s.nativePending) (hmodules : u.moduleHolders = s.moduleHolders)
    (ht : ¬ Tears c₀) (hwait : (∃ c ∈ s.calls, .hostExit ∈ c.ops) → Waits c₀) : Drained u := by
  intro i c hc hexit
  have hold : ∀ (j : Nat) (d : Call), u.calls[j]? = some d → s.calls[j]? = some d ∨ d = c₀ := by
    intro j d hd
    rw [hcalls] at hd
    rcases Nat.lt_or_ge j s.calls.length with hj | hj
    · rw [List.getElem?_append_left hj] at hd
      exact .inl hd
    · rw [List.getElem?_append_right hj] at hd
      exact .inr (List.mem_singleton.mp (List.mem_of_getElem? hd))
  rcases hold i c hc with hc | rfl
  · obtain ⟨hn, hm, hothers⟩ := hd i c hc hexit
    refine ⟨hnative.trans hn, hmodules.trans hm, ?_⟩
    intro j d hj hdj
    rcases hold j d hdj with hdj | rfl
    · exact hothers j d hj hdj
    · exact hwait ⟨c, List.mem_of_getElem? hc, hexit⟩
  · exact absurd ⟨_, hexit, rfl⟩ ht

/-- A call with the end of the host stage ahead is the teardown, past its first stage. -/
theorem exits_of_mem (hs : Staged s) {c : Call} (hc : c ∈ s.calls) (hexit : .hostExit ∈ c.ops) :
    s.controlAvailable = false ∧ s.deactivating = true := by
  have ht : Tears c := ⟨_, hexit, rfl⟩
  obtain ⟨k, hk⟩ := hs.one
  obtain ⟨i, hi⟩ := List.mem_iff_getElem?.mp hc
  refine ⟨hs.closed c hc ht fun hin => ?_, (hk i c hi ht).2⟩
  rcases ((hs.formed c hc).of_tears ht).ops with h | h | ⟨ons, hons, h⟩
  · rw [h] at hexit
    simp at hexit
  · rw [h] at hexit
    simp at hexit
  · have hon : ¬ .controlExit ∈ ons := fun hin => by cases hons _ hin
    rcases h with h | h <;>
    · rw [h] at hin
      simp [hon] at hin

/-- A timeout work that finds its holder off the lists is over. -/
theorem expire_over {h₀ : Nat} {c : Call} (hruns : Runs s i (.on .expire h₀) c)
    (hoff : ∀ p, s.holders[h₀]? = some p → p.pending = false) (h : s.runOp i env = some s') :
    s'.calls = s.calls.set i c := by
  simp only [ProbeRun.runOp, hruns.call, ProbeRun.proceed] at h
  split at h
  · cases h
  rename_i p hp
  have hp : s.holders[h₀]? = some p := hp
  simp only [ProbeRun.proceedOn, hoff p hp] at h
  split_ifs at h with hlocked hpending
  · exact hpending.elim
  · obtain rfl := Option.some.inj h
    rfl

/-- An operation keeps what is drained: it is the teardown's own, or one of a timeout work that the
teardown waits for. -/
theorem drained_run (hs : Staged s) (hplaced : ∀ h, Placed (s.life h)) (hd : Drained s) {k : Nat}
    {env : OpEnv} (hP : TearsDown s (.run k env)) (h : probe.step s (.run k env) = some s') :
    Drained s' := by
  obtain ⟨op, c₀, c', hruns, hafter, hf⟩ := runOp_after hs.formed h
  have hmem := List.mem_of_getElem? hruns.call
  have hlt : k < s.calls.length := (List.getElem?_eq_some_iff.mp hruns.call).1
  have hother : ∀ (j : Nat) (d : Call), j ≠ k → s'.calls[j]? = some d →
      s.calls[j]? = some d := by
    intro j d hj hdj
    rwa [hafter.calls, List.getElem?_set_ne (Ne.symm hj)] at hdj
  intro i c hc hexit
  by_cases hik : i = k
  · -- the teardown itself goes on
    subst hik
    rw [hafter.calls, List.getElem?_set_self hlt] at hc
    obtain rfl := Option.some.inj hc
    rcases hafter.tears _ hexit rfl with rfl | hexit
    · obtain ⟨hactive, hnative, hwait⟩ := hP.quiet i env c₀ rfl hruns
      exact ⟨hafter.native (by rintro ⟨⟩) hnative, (hafter.exits rfl hactive).2,
        fun j d hj hdj => hwait j d hj (hother j d hj hdj)⟩
    · have htears : Tears { c₀ with ops := op :: c₀.ops } :=
        ⟨_, List.mem_cons_of_mem _ hexit, rfl⟩
      have hhead := ((hs.formed _ hmem).of_tears htears).head
      obtain ⟨hnative, hmodules, hwait⟩ :=
        hd i _ hruns.call (List.mem_cons_of_mem _ hexit)
      refine ⟨hafter.native ?_ hnative, hafter.modules ?_ hmodules,
        fun j d hj hdj => hwait j d hj (hother j d hj hdj)⟩
      all_goals
        rintro rfl
        rcases hhead with h | h <;> cases h
  · -- a timeout work that the teardown waits for, or has waited for
    obtain ⟨hnative, hmodules, hwait⟩ := hd i c (hother i c hik hc) hexit
    rcases hwait k _ (Ne.symm hik) hruns.call with hops | ⟨h₀, hops⟩
    · cases hops
    obtain ⟨rfl, hrest⟩ := List.cons.inj hops
    have hoff : ∀ p, s.holders[h₀]? = some p → p.pending = false := by
      intro p hp
      have hpend := (hplaced h₀).pending
      simp only [ProbeRun.life, ProbeRun.listed, hnative, hmodules, hp, List.count_nil] at hpend
      simpa using hpend
    have hcalls := expire_over hruns hoff h
    refine ⟨hafter.native (by rintro ⟨⟩) hnative, hafter.modules (by rintro ⟨⟩) hmodules,
      fun j d hj hdj => ?_⟩
    by_cases hjk : j = k
    · subst hjk
      rw [hcalls, List.getElem?_set_self hlt] at hdj
      obtain rfl := Option.some.inj hdj
      exact .inl hrest
    · exact hwait j d hj (hother j d hjk hdj)

/-- From the drain on nothing else is under way. -/
theorem drained_step (hs : Staged s) (hplaced : ∀ h, Placed (s.life h)) (hd : Drained s)
    (hP : TearsDown s a) (h : probe.step s a = some s') : Drained s' := by
  cases a with
  | exec tw =>
    simp only [probe, ProbeRun.step] at h
    split_ifs at h
    obtain rfl := Option.some.inj h
    exact hd
  | inject j cred yuki count =>
    simp only [probe, ProbeRun.step] at h
    split at h
    · cases h
    rename_i tw _
    obtain rfl := Option.some.inj h
    have hserving := serving_inject tw.tgid cred (tw.kind yuki count)
    refine hd.start rfl rfl rfl (not_tears_of_serving hserving) ?_
    rintro ⟨c, hc, hexit⟩
    exact absurd hexit (hP.late j cred yuki count rfl c hc)
  | restoreRequest tgid =>
    simp only [probe, ProbeRun.step] at h
    split_ifs at h with hcond
    · obtain rfl := Option.some.inj h
      exact hd
    obtain rfl := Option.some.inj h
    refine hd.start rfl rfl rfl (by rintro ⟨o, ho, ht⟩; simp at ho; rcases ho with rfl | rfl <;>
      cases ht) ?_
    rintro ⟨c, hc, hexit⟩
    exact absurd (.inl (exits_of_mem hs hc hexit).1) hcond
  | allowModule tgid dir cred alloc =>
    simp only [probe, ProbeRun.step] at h
    split_ifs at h with hcond
    · obtain rfl := Option.some.inj h
      exact hd
    obtain rfl := Option.some.inj h
    refine hd.start rfl rfl rfl (not_tears_of_serving (serving_allow tgid cred dir)) ?_
    rintro ⟨c, hc, hexit⟩
    exact absurd (.inl (exits_of_mem hs hc hexit).1) hcond
  | prepareRuntime current =>
    simp only [probe, ProbeRun.step] at h
    split_ifs at h with hcond
    · obtain rfl := Option.some.inj h
      exact hd
    obtain rfl := Option.some.inj h
    refine hd.start rfl rfl rfl (not_tears_of_dropping (dropping_prepare current)) ?_
    rintro ⟨c, hc, hexit⟩
    exact absurd (exits_of_mem hs hc hexit).1 hcond
  | deactivate =>
    simp only [probe, ProbeRun.step] at h
    split_ifs at h with hbusy hactive
    · obtain rfl := Option.some.inj h
      intro i c hc hexit
      have hc : (s.calls ++ [_])[i]? = some c := hc
      rcases List.mem_append.mp (List.mem_of_getElem? hc) with hc | hc
      · rw [(exits_of_mem hs hc hexit).2] at hbusy
        exact absurd rfl hbusy
      · rw [List.mem_singleton.mp hc] at hexit
        simp at hexit
    · obtain rfl := Option.some.inj h
      exact hd
  | fire h₀ =>
    simp only [probe, ProbeRun.step, ProbeRun.fire] at h
    split at h
    · cases h
    rename_i p hp
    split at h
    · split_ifs at h
      obtain rfl := Option.some.inj h
      refine hd.start rfl rfl rfl ?_ fun _ => .inr ⟨h₀, rfl⟩
      rintro ⟨o, ho, ht⟩
      rw [List.mem_singleton.mp ho] at ht
      cases ht
    · cases h
  | tick n =>
    obtain rfl := Option.some.inj h
    exact hd
  | run k env => exact drained_run hs hplaced hd hP h

/-! ## 5. After the teardown -/

/-- What the live policy allows directly. -/
def allowed (base : PolicyBase) (k : PolicyKey) : Av :=
  match base.policy with
  | none => 0
  | some policy => policy.policydb.direct k

/-- A call that can only fail: its record is zeroed, and all it has ahead are operations of an
injection. -/
structure Late (c : Call) : Prop where
  state : c.state = none
  ops : ∀ o ∈ c.ops, o.isOn = false ∧ o.tears = false ∧ o.collects = false

/-- Nothing that a request or an injection added is left next to the permanent grants, and nothing
can add to it again: an injection that starts now finds the policy out of reach. -/
structure TornDown (s₀ s : ProbeRun) : Prop where
  policy : ∀ k, allowed s.run.temp.base k = allowed s₀.run.temp.base k ||| s.permanent k
  native : s.nativePending = []
  modules : s.moduleHolders = []
  timeouts : ∀ (h : Nat) (p : PolicyHolder), s.holders[h]? = some p →
    p.pending = false ∧ p.timeout = .idle
  calls : ∀ c ∈ s.calls, Late c
  closed : s.hooked = false ∧ s.controlAvailable = false

/-- **The teardown leaves nothing** in every run whose steps meet `P`. -/
def LeavesNothing (P : ProbeRun → ProbeAct → Prop) : Prop :=
  ∀ s₀ s, probe.init s₀ → probe.Path P s₀ s → s.hostActive = false → TornDown s₀ s

/-- Without the policy no call gets a record. -/
theorem stateMove_unready (hready : s.run.temp.base.ready = false) {new : Option Nat}
    (hmove : StateMove s none env call new) : new = none := by
  have hfile : ∀ (file : Option File) (cred : Option Cred) includeDir access (e : EditEnv),
      (yzHostPolicyAllowFile s.run.temp file cred includeDir access .zero e).2.2.isOk = false := by
    intro file cred includeDir access e
    cases file <;> cases cred <;>
      simp [yzHostPolicyAllowFile, yzPolicyBaseLock, hready, Except.isOk, Except.toBool]
  have hexecmem : ∀ (cred : Option Cred) (state : FileLoadPolicy) (e : EditEnv),
      (yzHostPolicyAllowExecmem s.run.temp cred state e).2.2.isOk = false := by
    intro cred state e
    cases cred <;>
      simp [yzHostPolicyAllowExecmem, yzPolicyBaseLock, hready, Except.isOk, Except.toBool]
  cases hmove with
  | keep | prepared | refused | quit => rfl
  | loaded ta hta =>
    refine if_neg (Bool.eq_false_iff.mp ?_)
    cases hta with
    | current file cred => exact hfile file (some cred) _ _ _
    | cred file cred => exact hfile file cred _ _ _
  | widened ta hta hret =>
    exfalso
    have hno : s.run.returns (some ta) = false := by
      cases hta with
      | current cred => exact hexecmem (some cred) _ _
      | cred cred => exact hexecmem cred _ _
    rw [hno] at hret
    cases hret
  | restored => rfl

omit [AvtabFns] in
/-- The operations that a late call can get are those of an injection as well. -/
theorem late_next {o : Op} (htears : op.tears = false) (ho : o ∈ op.next) :
    o.isOn = false ∧ o.tears = false ∧ o.collects = false := by
  cases op <;> simp only [Op.next, List.mem_singleton, List.not_mem_nil] at ho <;>
    first | (subst ho; exact ⟨rfl, rfl, rfl⟩) | cases htears

/-- **A late call changes nothing but itself.** -/
theorem late_run (hready : s.run.temp.base.ready = false) (hst : Staged s)
    (hlate : ∀ c ∈ s.calls, Late c) (h : probe.step s (.run i env) = some s') :
    Framed s s' ∧ s'.permanent = s.permanent ∧ s'.run.temp = s.run.temp ∧
      (s'.hooked = s.hooked ∧ s'.controlAvailable = s.controlAvailable) ∧
      ∀ c ∈ s'.calls, Late c := by
  have hops : ∀ {op : Op} {c : Call}, Runs s i op c → c.state = none ∧
      (op.isOn = false ∧ op.tears = false ∧ op.collects = false) ∧
        ∀ o ∈ c.ops, o.isOn = false ∧ o.tears = false ∧ o.collects = false := by
    intro op c hruns
    obtain ⟨hstate, hops⟩ := hlate _ (List.mem_of_getElem? hruns.call)
    exact ⟨hstate, hops op List.mem_cons_self, fun o ho => hops o (List.mem_cons_of_mem _ ho)⟩
  have hadds : ∀ {op : Op} {c : Call}, Runs s i op c →
      zpNativePolicyHasAdditions (s.run.value c.state) = false := by
    intro op c hruns
    rw [(hops hruns).1]
    rfl
  cases step_move h with
  | idle _ _ _ ha => exact absurd rfl (ha i env)
  | start _ _ _ _ ha => exact absurd rfl (ha i env)
  | onHolder _ _ c p h₀ holder _ hruns => cases (hops hruns).2.1.1
  | own _ _ c c' op _ grants hruns hon hframed hcalls hnext hmove hrun hpermanent =>
    obtain ⟨hstate, ⟨-, htears, hcollects⟩, hrest⟩ := hops hruns
    have hprep : op ≠ .prepareRuntime := by
      rintro rfl
      cases hcollects
    rw [hstate] at hmove
    refine ⟨hframed, hpermanent.trans (permitted_opCall hprep),
      by rw [hrun, after_of_not_ready hready], ?_, ?_⟩
    · obtain ⟨op', c₀, c₁, hruns', hafter, -⟩ := runOp_after hst.formed h
      obtain ⟨-, ⟨-, htears', -⟩, -⟩ := hops hruns'
      refine ⟨hafter.hooked.trans (if_neg ?_), hafter.available.trans (if_neg ?_)⟩
      all_goals
        rintro rfl
        cases htears'
    · intro d hd
      rw [hcalls] at hd
      rcases List.mem_or_eq_of_mem_set hd with hd | rfl
      · exact hlate d hd
      · refine ⟨stateMove_unready hready hmove, fun o ho => ?_⟩
        rcases hnext o ho with ho | ho
        · exact hrest o ho
        · exact late_next htears ho
  | exit _ _ c hruns => cases (hops hruns).2.1.2.1
  | collectNative _ _ c hruns => cases (hops hruns).2.1.2.2
  | collectModule _ _ c hruns => cases (hops hruns).2.1.2.2
  | collectAll _ _ c hruns => cases (hops hruns).2.1.2.1
  | publish _ _ c hruns hadd =>
    rw [hadds hruns] at hadd
    cases hadd
  | arm _ _ c hruns hadd =>
    rw [hadds hruns] at hadd
    cases hadd

/-- Nothing more happens. -/
theorem TornDown.step {s₀ : ProbeRun} (ht : TornDown s₀ s) (hoff : s.hostActive = false)
    (hready : s.run.temp.base.ready = false) (hst : Staged s)
    (h : probe.step s a = some s') : TornDown s₀ s' := by
  obtain ⟨hpolicy, hnative, hmodules, htimeouts, hcalls, hhooked, hcontrol⟩ := ht
  have hsame : TornDown s₀ s := ⟨hpolicy, hnative, hmodules, htimeouts, hcalls, hhooked, hcontrol⟩
  cases a with
  | exec tw =>
    simp [probe, ProbeRun.step, hhooked] at h
  | inject j cred yuki count =>
    simp only [probe, ProbeRun.step] at h
    split at h
    · cases h
    rename_i tw _
    obtain rfl := Option.some.inj h
    refine ⟨hpolicy, hnative, hmodules, htimeouts, fun c hc => ?_, hhooked, hcontrol⟩
    rcases List.mem_append.mp hc with hc | hc
    · exact hcalls c hc
    · obtain rfl := List.mem_singleton.mp hc
      exact ⟨rfl, (serving_inject tw.tgid cred (tw.kind yuki count)).plain⟩
  | restoreRequest tgid =>
    simp only [probe, ProbeRun.step, hcontrol, true_or, if_true] at h
    obtain rfl := Option.some.inj h
    exact hsame
  | allowModule tgid dir cred alloc =>
    simp only [probe, ProbeRun.step, hcontrol, true_or, if_true] at h
    obtain rfl := Option.some.inj h
    exact hsame
  | prepareRuntime current =>
    simp only [probe, ProbeRun.step, hcontrol, if_true] at h
    obtain rfl := Option.some.inj h
    exact hsame
  | deactivate =>
    simp only [probe, ProbeRun.step, hoff, Bool.false_eq_true, if_false] at h
    split_ifs at h
    obtain rfl := Option.some.inj h
    exact hsame
  | fire h₀ =>
    simp only [probe, ProbeRun.step, ProbeRun.fire] at h
    split at h
    · cases h
    rename_i p hp
    rw [(htimeouts h₀ p hp).2] at h
    cases h
  | tick n =>
    obtain rfl := Option.some.inj h
    exact ⟨hpolicy, hnative, hmodules, htimeouts, hcalls, hhooked, hcontrol⟩
  | run i env =>
    obtain ⟨hframed, hpermanent, htemp, ⟨hhooked', hcontrol'⟩, hcalls'⟩ :=
      late_run hready hst hcalls h
    refine ⟨fun k => ?_, hframed.nativePending.trans hnative, hframed.moduleHolders.trans hmodules,
      fun h₀ p hp => htimeouts h₀ p (hframed.holders ▸ hp), hcalls', hhooked'.trans hhooked,
      hcontrol'.trans hcontrol⟩
    rw [htemp, hpermanent]
    exact hpolicy k

/-- The lock of the policy is there as long as it was at the start, and without it the policy
stays. -/
theorem ready_of_path {Q : TempRun → TempAct → Prop} {r₀ r : TempRun} (hi : tempRuns.init r₀)
    (hp : tempRuns.Path Q r₀ r) : r.temp.base.ready = r₀.temp.base.ready ∧
      (r₀.temp.base.ready = false → r.temp = r₀.temp) := by
  refine hp.preserve (J := fun u => u.temp.base.ready = r₀.temp.base.ready ∧
    (r₀.temp.base.ready = false → u.temp = r₀.temp)) (.ofInit hi) (fun u a u' hu hJ _ hs => ?_)
    ⟨rfl, fun _ => rfl⟩
  have hfit := hu.invariant (cellsFit_invariant Q)
  refine ⟨(tempMove_sameBase (Policy.step_move hfit hs)).ready.trans hJ.1, ?_⟩
  intro hoff
  have hafter := after_of_not_ready (hJ.1.trans hoff) (some a)
  rw [after_of_step hs] at hafter
  exact hafter.trans (hJ.2 hoff)

/-- The ghost of the permanent grants moves with the calls into the policy. -/
theorem permanent_step (h : probe.step s a = some s') : s'.permanent = s.permitted (s.tempAct a) := by
  cases step_move h with
  | idle _ _ _ ha => rw [tempAct_of_not_run ha]; rfl
  | start _ _ _ _ ha => rw [tempAct_of_not_run ha]; rfl
  | fire => rfl
  | onHolder i env c p h₀ holder _ hruns hh hs =>
    have hprep : Op.on p h₀ ≠ .prepareRuntime := nofun
    rw [tempAct_of_runs hruns, permitted_opCall hprep, (proceedOn_flags hs).2.2.2.2.2.2.2]
  | own i env c c' op _ grants hruns _ _ _ _ _ _ hpermanent =>
    rw [tempAct_of_runs hruns, hpermanent]
  | exit i env c hruns => rw [tempAct_of_runs hruns]; rfl
  | collectNative i env c hruns => rw [tempAct_of_runs hruns]; rfl
  | collectModule i env c hruns => rw [tempAct_of_runs hruns]; rfl
  | collectAll i env c hruns hact =>
    rw [tempAct_of_runs hruns, probeExit_eq hact]
    rfl
  | publish i env c hruns hadd hok =>
    rw [tempAct_of_runs hruns, publish_eq hadd hok]
    rfl
  | arm i env c hruns hadd hsh =>
    have hprep : Op.arm ≠ .prepareRuntime := nofun
    rw [tempAct_of_runs hruns, permitted_opCall hprep, arm_eq hadd hsh]
    rfl

/-- What is permitted of a key is so of its shortened form. -/
theorem permitted_cut (call : Option TempAct) {k : PolicyKey}
    (hk : s.permanent k.cut = s.permanent k) : s.permitted call k.cut = s.permitted call k := by
  unfold ProbeRun.permitted
  split
  · simp only [direct_cut, hk]
  · exact hk

/-- What is granted for good is granted on keys as the avtab holds them. -/
theorem permanent_cut {P : ProbeRun → ProbeAct → Prop} (hr : probe.Reach P s) (k : PolicyKey) :
    s.permanent k.cut = s.permanent k := by
  refine hr.invariant (I := fun s => s.permanent k.cut = s.permanent k)
    ⟨fun s hi => ?_, fun u a u' hu _ h => ?_⟩
  · obtain ⟨-, -, -, -, -, -, -, -, -, -, hpermanent, -⟩ := hi
    rw [hpermanent]
  · rw [permanent_step h]
    exact permitted_cut _ hu

/-- Any other call permits nothing for good. -/
theorem permitted_of_ne {ta : TempAct} (h : ∀ current renv, ta ≠ .prepareRuntime current renv) :
    s.permitted (some ta) = s.permanent := by
  cases ta <;> first | rfl | exact absurd rfl (h _ _)

/-- **Every permission is conserved next to the permanent grants**, in every run that asks for none
twice. -/
theorem conserved_of_path {P : ProbeRun → ProbeAct → Prop}
    (hP : ∀ s a ta, P s a → s.tempAct a = some ta → AsksOnce s.run ta) {s₀ : ProbeRun}
    (hi : probe.init s₀) (hp : probe.Path P s₀ s) (hon : s.hostActive = true) {k : PolicyKey}
    (hk : k.Fits) (b : Fin 32) :
    CountedGrants.Conserved ((s₀.run.temp.base.direct k).getLsbD b || (s.permanent k).getLsbD b)
      (s.run.grant k b) := by
  induction hp with
  | refl =>
    obtain ⟨hrefs, hclaims, -⟩ := grant_init hi.1 k b
    obtain ⟨-, -, -, -, -, -, -, -, -, -, hpermanent, -⟩ := hi
    refine ⟨.inl (hrefs.trans hclaims.symm), ?_, fun _ => hclaims⟩
    rw [hpermanent, hclaims]
    simp [TempRun.grant]
  | @tail u v hp' hstep ih =>
    obtain ⟨a, hPa, hs⟩ := hstep
    rcases run_step hs with ⟨hrun, hsame⟩ | ⟨hout, -⟩
    swap
    · rw [hout] at hon
      cases hon
    have hu := hsame ▸ hon
    have hcons := ih hu
    have hreach : tempRuns.Reach AsksOnce u.run := ⟨s₀.run, hi.1, run_path hP hp' hu⟩
    rw [hrun, permanent_step hs]
    cases hta : u.tempAct a with
    | none => exact hcons
    | some ta =>
      cases hst : u.run.step ta with
      | none =>
        have hkept : u.run.after (some ta) = u.run := by
          rw [TempRun.after, hst]
          rfl
        rw [hkept, permitted_of_ne (by rintro current renv rfl; cases hst)]
        exact hcons
      | some r =>
        have hafter := after_of_step hst
        rw [hafter]
        rcases conserved_after (hreach.invariant tidy_invariant) (hP _ a ta hPa hta) hst hk b
          hcons with ⟨hta', h⟩ | ⟨current, renv, rfl, h⟩
        · rwa [permitted_of_ne hta']
        · have hbit : (u.permitted (some (.prepareRuntime current renv)) k).getLsbD b =
              ((u.permanent k).getLsbD b || ((r.temp.base.direct k).getLsbD b &&
                !(u.run.temp.base.direct k).getLsbD b)) := by
            simp only [ProbeRun.permitted, hafter, BitVec.getLsbD_or, BitVec.getLsbD_and,
              BitVec.getLsbD_not, b.isLt, decide_true, Bool.true_and]
          rw [hbit, ← Bool.or_assoc]
          exact h

/-- When the host stage is left, no phase of a holder is ahead but that of its timeout work. -/
theorem ahead_of_drained {c : Call} (hruns : Runs s i .hostExit c) (hrest : c.ops = [])
    (hwait : ∀ (j : Nat) (d : Call), j ≠ i → s.calls[j]? = some d → Waits d) (h : Nat) {p : Phase}
    (hp : p ≠ .expire) : s.ahead h p = 0 := by
  refine Tally.tally_eq_zero fun d hd => List.count_eq_zero.mpr ?_
  obtain ⟨j, hj⟩ := List.mem_iff_getElem?.mp hd
  by_cases hji : j = i
  · subst hji
    rw [hruns.call] at hj
    obtain rfl := Option.some.inj hj
    rw [hrest]
    simp
  · rcases hwait j d hji hj with hops | ⟨h₀, hops⟩ <;> rw [hops]
    · simp
    · simp [hp]

/-- The host stage is left by the teardown's last operation only. -/
theorem hostExit_of_step (h : probe.step s a = some s') (hon : s.hostActive = true)
    (hoff : s'.hostActive = false) : ∃ i env c, a = .run i env ∧ Runs s i .hostExit c := by
  have hsame : s'.hostActive = s.hostActive → False := fun heq => by
    rw [heq, hon] at hoff
    cases hoff
  cases step_move h with
  | idle => exact (hsame rfl).elim
  | start => exact (hsame rfl).elim
  | fire => exact (hsame rfl).elim
  | onHolder i env c p h₀ holder _ hruns hh hs => exact (hsame (proceedOn_flags hs).2.2.2.2.1).elim
  | own i env c c' op _ grants hruns hon hframed => exact (hsame hframed.hostActive).elim
  | exit i env c hruns => exact ⟨i, env, c, rfl, hruns⟩
  | collectNative => exact (hsame rfl).elim
  | collectModule => exact (hsame rfl).elim
  | collectAll i env c hruns hact =>
    rw [probeExit_eq hact] at hsame
    exact (hsame rfl).elim
  | publish i env c hruns hadd hok =>
    rw [publish_eq hadd hok] at hsame
    exact (hsame rfl).elim
  | arm i env c hruns hadd hsh =>
    rw [arm_eq hadd hsh] at hsame
    exact (hsame rfl).elim

/-- Without the policy nothing is permitted any more. -/
theorem permitted_of_unready (hready : s.run.temp.base.ready = false) (call : Option TempAct)
    (k : PolicyKey) : s.permitted call k = s.permanent k := by
  have hafter := after_of_not_ready hready call
  unfold ProbeRun.permitted
  split
  · simp [hafter]
  · rfl

/-- Without the policy nothing is granted for good. -/
theorem permanent_of_unready {P : ProbeRun → ProbeAct → Prop} {s₀ : ProbeRun} (hi : probe.init s₀)
    (hp : probe.Path P s₀ s) (hoff : s₀.run.temp.base.ready = false) (k : PolicyKey) :
    s.permanent k = 0 := by
  suffices h : s.run.temp.base.ready = false ∧ s.permanent k = 0 from h.2
  induction hp with
  | refl =>
    obtain ⟨-, -, -, -, -, -, -, -, -, -, hpermanent, -⟩ := hi
    exact ⟨hoff, by rw [hpermanent]⟩
  | @tail u v _ hstep ih =>
    obtain ⟨a, -, hs⟩ := hstep
    obtain ⟨hready, hzero⟩ := ih
    constructor
    · rcases run_step hs with ⟨hrun, -⟩ | ⟨-, hrun⟩ <;> rw [hrun]
      · rw [after_of_not_ready hready, hready]
      · rfl
    · rw [permanent_step hs, permitted_of_unready hready, hzero]

/-- Once no record claims anything, the policy allows what it did at the start, and what was
granted for good. -/
theorem direct_of_unclaimed {s₀ : ProbeRun} (hi : probe.init s₀)
    (hp : probe.Path TearsDown s₀ s) (hon : s.hostActive = true)
    (hclaims : ∀ cell ∈ s.run.cells, ∀ k b, cellClaims k b cell = 0) (k : PolicyKey) :
    s.run.temp.base.direct k = s₀.run.temp.base.direct k ||| s.permanent k := by
  rw [← direct_cut s.run.temp.base, ← direct_cut s₀.run.temp.base,
    ← permanent_cut (P := TearsDown) ⟨s₀, hi, hp⟩]
  refine BitVec.eq_of_getLsbD_eq fun b hb => ?_
  have hcons := conserved_of_path (fun _ _ ta hP => hP.requests ta) hi hp hon k.cut_fits ⟨b, hb⟩
  have hzero : (s.run.grant k.cut ⟨b, hb⟩).claims = 0 :=
    Tally.tally_eq_zero fun cell hcell => hclaims cell hcell _ _
  have hall := hcons.allowed
  rw [hzero] at hall
  simpa [TempRun.grant] using hall

/-- **The last step of the teardown.** -/
theorem tornDown_of_hostExit {s₀ : ProbeRun} {c : Call} (hi : probe.init s₀)
    (hp : probe.Path TearsDown s₀ s) (hd : Drained s) (hon : s.hostActive = true)
    (hruns : Runs s i .hostExit c) (h : s.runOp i env = some s') : TornDown s₀ s' := by
  have hr : probe.Reach TearsDown s := ⟨s₀, hi, hp⟩
  have hs := staged_of_reach hr
  have hmem := List.mem_of_getElem? hruns.call
  have ht : Tearing { c with ops := .hostExit :: c.ops } :=
    (hs.formed _ hmem).of_tears ⟨_, List.mem_cons_self, rfl⟩
  have hrest := ht.hostExit
  obtain ⟨hnative, hmodules, hwait⟩ := hd i _ hruns.call List.mem_cons_self
  have hlisted : ∀ h, s.listed h = 0 := fun h => by simp [ProbeRun.listed, hnative, hmodules]
  have hahead := fun (h : Nat) {p : Phase} => ahead_of_drained hruns hrest hwait h (p := p)
  -- every work is idle, and every holder freed
  have hidle : ∀ h, (s.life h).work = .idle := fun h => by
    refine (still_of_reach (fun _ _ hP => hP.scheduled) hr h ?_).1
    simp only [ProbeRun.life, hlisted, hahead h (p := .cancel) (by rintro ⟨⟩),
      hahead h (p := .restoreSelf) (by rintro ⟨⟩), hahead h (p := .freeSelf) (by rintro ⟨⟩)]
  have hexpire : ∀ h, s.ahead h .expire = 0 := fun h => by
    have hrun := (placed_of_reach hr h).running
    rw [hidle h, if_neg (by rintro ⟨⟩)] at hrun
    have heq : (s.life h).ahead .expire = s.ahead h .expire := rfl
    omega
  have hdone : ∀ (j : Nat) (d : Call), j ≠ i → s.calls[j]? = some d → d.ops = [] := by
    intro j d hj hdj
    rcases hwait j d hj hdj with hops | ⟨h₀, hops⟩
    · exact hops
    · have hpos := ahead_pos (h := h₀) (p := .expire) hdj (by rw [hops]; exact List.mem_cons_self)
      rw [hexpire] at hpos
      cases hpos
  have hholder : ∀ (h : Nat) (p : PolicyHolder), s.holders[h]? = some p →
      p.pending = false ∧ p.timeout = .idle ∧ p.owed = none := by
    intro h p hh
    obtain ⟨hplace, hpend, hrestored, -⟩ := placed_of_reach hr h
    have hwork := hidle h
    simp only [ProbeRun.life, hlisted, hh, Option.isSome_some, Bool.toNat_true, Option.any_some,
      Option.elim_some, hahead h (p := .cancel) (by rintro ⟨⟩),
      hahead h (p := .restore) (by rintro ⟨⟩), hahead h (p := .free) (by rintro ⟨⟩),
      hahead h (p := .restoreSelf) (by rintro ⟨⟩), hahead h (p := .freeSelf) (by rintro ⟨⟩)]
      at hplace hpend hrestored hwork
    refine ⟨by simpa using hpend, hwork, ?_⟩
    rw [PolicyHolder.owed, if_neg (by omega)]
  have hnames : ∀ name ∈ s.names, name = none := by
    intro name hname
    rcases List.mem_append.mp hname with hname | hname
    · obtain ⟨d, hdmem, rfl⟩ := List.mem_map.mp hname
      obtain ⟨j, hj⟩ := List.mem_iff_getElem?.mp hdmem
      by_cases hji : j = i
      · subst hji
        rw [hruns.call] at hj
        obtain rfl := Option.some.inj hj
        exact ht.state
      · rcases hs.formed d hdmem with hf | hf | hf
        · obtain ⟨o, ho, -⟩ := hf.closes
          rw [hdone j d hji hj] at ho
          cases ho
        · exact hf.state
        · exact hf.state
    · obtain ⟨p, hpmem, rfl⟩ := List.mem_map.mp hname
      obtain ⟨h₀, hh⟩ := List.mem_iff_getElem?.mp hpmem
      exact (hholder h₀ p hh).2.2
  have hclaims : ∀ cell ∈ s.run.cells, ∀ k b, cellClaims k b cell = 0 := by
    intro cell hcell k b
    have hle := claims_le_names (remembered_of_reach (fun _ _ hP => hP.records) hr) k b
    have hzero : Tally.tally (fun name => (s.run.value name).claims k b) s.names = 0 := by
      refine Tally.tally_eq_zero ?_
      intro name hname
      rw [hnames name hname]
      exact empty_zero.claims k b
    have hcell := Tally.le_tally (cellClaims k b) hcell
    omega
  have hpolicy : ∀ k, allowed s.run.temp.base k =
      allowed s₀.run.temp.base k ||| s.permanent k := by
    intro k
    obtain ⟨hready, hkept⟩ :=
      ready_of_path hi.1 (run_path (fun _ _ ta hP => hP.requests ta) hp hon)
    by_cases hoff : s₀.run.temp.base.ready = false
    · simp [hkept hoff, permanent_of_unready hi hp hoff]
    · have hdirect := direct_of_unclaimed hi hp hon hclaims k
      rw [PolicyBase.direct, PolicyBase.direct, if_neg hoff, hready, if_neg hoff] at hdirect
      exact hdirect
  simp only [ProbeRun.runOp, hruns.call, ProbeRun.proceed] at h
  obtain rfl := Option.some.inj h
  refine ⟨hpolicy, hnative, hmodules, ?_, ?_, ?_, ?_⟩
  · intro h p hh
    obtain ⟨hpending, hwork, -⟩ := hholder h p hh
    exact ⟨hpending, hwork⟩
  · intro d hd
    have hd : d ∈ s.calls.set i c := hd
    obtain ⟨j, hj⟩ := List.mem_iff_getElem?.mp hd
    by_cases hji : j = i
    · subst hji
      rw [List.getElem?_set_self (List.getElem?_eq_some_iff.mp hruns.call).1] at hj
      obtain rfl := Option.some.inj hj
      exact ⟨ht.state, by simp [hrest]⟩
    · rw [List.getElem?_set_ne (Ne.symm hji)] at hj
      refine ⟨hnames _ ?_, by simp [hdone j d hji hj]⟩
      exact List.mem_append_left _ (List.mem_map_of_mem (List.mem_of_getElem? hj))
  · refine hs.unhooked _ hmem List.mem_cons_self ?_
    intro hin
    rw [hrest] at hin
    simp at hin
  · exact (exits_of_mem hs hmem List.mem_cons_self).1

/-- **The teardown leaves nothing in a run in which it finds nothing under way.** -/
theorem leavesNothing_of_tearsDown : LeavesNothing TearsDown := by
  intro s₀ s hi hp hoff
  suffices h : Drained s ∧ (s.hostActive = false → TornDown s₀ s) from h.2 hoff
  clear hoff
  induction hp with
  | refl =>
    obtain ⟨-, -, -, -, -, hcalls, hon, -⟩ := hi
    constructor
    · intro i c hc
      rw [hcalls] at hc
      cases hc
    · intro hoff
      rw [hon] at hoff
      cases hoff
  | @tail u v hp' hmove ih =>
    obtain ⟨a, hP, hstep⟩ := hmove
    have hr : probe.Reach TearsDown u := ⟨s₀, hi, hp'⟩
    refine ⟨drained_step (staged_of_reach hr) (placed_of_reach hr) ih.1 hP hstep, ?_⟩
    intro hoff
    by_cases hon : u.hostActive = false
    · exact (ih.2 hon).step hon (hr.invariant (exited_invariant _) hon).1 (staged_of_reach hr) hstep
    · have hon := Bool.eq_true_of_not_eq_false hon
      obtain ⟨i, env, c, rfl, hruns⟩ := hostExit_of_step hstep hon hoff
      exact tornDown_of_hostExit hi hp' ih.1 hon hruns hstep

end Machine

/-- A module request, an injection and the restore request that takes its entry back, next to a
permanent grant. -/
def beforeTeardown : List ProbeAct :=
  [.prepareRuntime (credOf 4), goOn 0, .allowModule 200 (fileOf 4) (some (credOf 1)) true, goOn 1,
    goOn 1, goOn 1] ++ injected 2 ++
    [goOn 2, .restoreRequest 100, goOn 3, goOn 3, goOn 3, goOn 3, goOn 3]

/-- The teardown, after which an injection starts that was queued before. -/
def teardown : List ProbeAct :=
  [.exec ⟨300, false, false⟩, .deactivate] ++ List.replicate 7 (goOn 4) ++
    [.inject 0 (credOf 1) false 0, opens 5 4]

/-- **A teardown with a holder of a module to drain and an injection that comes too late.** -/
theorem leavesNothing_lateInjection : ∃ s s', probe.Path TearsDown (demoProbe 4 (by decide)) s ∧
    probe.Path TearsDown s s' ∧ s.moduleHolders.length = 1 ∧
    (allowed s.run.temp.base ⟨1, 4, 1⟩).getLsbD 0 = true ∧ s'.hostActive = false ∧
    s'.calls.length = 6 ∧ (s'.permanent ⟨2, 2, 3⟩).getLsbD 1 = true ∧
    TornDown (demoProbe 4 (by decide)) s' := by
  obtain ⟨s, s', hp, hp', hs, hs'⟩ := Lts.exists_path_of_guarded (M := probe) (P := TearsDown)
    (g := tearsDown) (fun _ _ => tearsDown_of_test) (s := demoProbe 4 (by decide)) beforeTeardown
    teardown
    (fun s => decide (s.moduleHolders.length = 1) &&
      (allowed s.run.temp.base ⟨1, 4, 1⟩).getLsbD 0)
    (fun s => decide (s.hostActive = false) && decide (s.calls.length = 6) &&
      (s.permanent ⟨2, 2, 3⟩).getLsbD 1) (by decide +kernel)
  simp only [Bool.and_eq_true, decide_eq_true_eq] at hs hs'
  exact ⟨s, s', hp, hp', hs.1, hs.2, hs'.1.1, hs'.1.2, hs'.2,
    leavesNothing_of_tearsDown _ s' (demoProbe_init 4 (by decide)) (hp.trans hp') hs'.1.1⟩

/-- Every edit of the policy succeeds. -/
def EditsSucceed (_ : ProbeRun) (a : ProbeAct) : Prop := ∀ i env, a = .run i env → env.edit = editOk

/-- **An entry of an injection survives the teardown**, and so does the permission it was made
for: only the holders of the modules are drained. -/
theorem not_leavesNothing : ¬ LeavesNothing EditsSucceed := by
  intro h
  have hrun : (probe.exec (demoProbe 4 (by decide))
      (injected 0 ++ [goOn 0, .deactivate, goOn 1, goOn 1, goOn 1, goOn 1])).any
      (fun s => decide (s.hostActive = false) && decide (allowed s.run.temp.base ⟨1, 4, 1⟩ ≠
        allowed (demoProbe 4 (by decide)).run.temp.base ⟨1, 4, 1⟩ ||| s.permanent ⟨1, 4, 1⟩)) =
        true := by
    decide +kernel
  obtain ⟨s, hs, hp⟩ := (Option.any_eq_true _ _).mp hrun
  obtain ⟨hoff, hne⟩ := Bool.and_eq_true_iff.mp hp
  have hpath : probe.Path EditsSucceed (demoProbe 4 (by decide)) s := by
    refine Lts.path_of_exec _ _ _ (fun a ha t i env he => ?_) hs
    subst he
    simp only [injected, injectZygote, opens, goOn, List.cons_append, List.nil_append,
      List.mem_cons, ProbeAct.run.injEq, List.not_mem_nil, or_false, reduceCtorEq, false_or] at ha
    rcases ha with ⟨-, rfl⟩ | ⟨-, rfl⟩ | ⟨-, rfl⟩ | ⟨-, rfl⟩ | ⟨-, rfl⟩ | ⟨-, rfl⟩ | ⟨-, rfl⟩ |
      ⟨-, rfl⟩ | ⟨-, rfl⟩ | ⟨-, rfl⟩ <;> rfl
  exact of_decide_eq_true hne
    ((h _ s (demoProbe_init 4 (by decide)) hpath (of_decide_eq_true hoff)).policy _)

end YukiZygisk.Probe
