/-
# The bootstrap gate under every interleaving

`Bootstrap.lean` models the contexts that move `yz_bootstrap_claim_state`.  This file asks
three questions about every run.

* Is CLOSED final, and READY final until module exit?  (`FailClosedPermanent`)
* Is at most one bootstrap descriptor delivered and open?  (`SingleChannel`)
* Does a claim belong to the session that made it?  (`ClaimOwnership`)

None of them holds of every run, and each has one culprit.

* The pre-handler answers a failed `yz_queue_control_session` with `atomic_set`, not with a
  compare-and-swap, so it writes UNCLAIMED over whatever the word has become.  That breaks
  the first two (`not_failClosedPermanent`, `not_singleChannel`).
* A delivery whose copy failed writes back twice, DELIVERED -> UNCLAIMED and then
  CLAIMING -> UNCLAIMED.  The second swap is meant for a delivery that never left
  CLAIMING; run after the first one it hits whoever claimed in between
  (`not_claimOwnership`).

For each question the file states the exact window as a guard on steps (`StoreSeesOpenGate`,
`StoreSeesNoDelivery`, `GiveBackSeesNoClaim`) and proves the property of every run that
stays out of it.  The proofs rest on one inversion lemma for a session step
(`phaseStep_move`) and one for the other contexts (`step_other`).
-/
import YukiZygisk.Core.Bootstrap

namespace YukiZygisk.Bootstrap

/-! ## 1. What one step can do -/

/-- What one session step can do to the word: the five accesses that write it, and every
other step, which leaves it alone. -/
inductive WordMove (g : Shared) (p : Phase) (w : ClaimState) (q : Phase) : SessionAct → Prop
  | claim (args : BootstrapArgs) (lo hi : ULong) : p = .readHi args lo hi →
      g.claimState = .unclaimed → w = .claiming → q = .claimed args.outFd →
      WordMove g p w q .claim
  | store : p = .refused → w = .unclaimed → q = .finished → WordMove g p w q .unclaim
  | switch (outFd : ULong) (fd : Nat) : p = .installed outFd fd → g.claimState = .claiming →
      w = .delivered → q = .switched true outFd fd → WordMove g p w q .switch
  | rollback : p = .copyClosed → g.claimState = .delivered → w = .unclaimed →
      q = .failing true .EFAULT → WordMove g p w q .rollback
  | giveBack (r : Bool) (e : Errno) : p = .failing r e → g.claimState = .claiming →
      w = .unclaimed → q = .finished → WordMove g p w q .giveBack
  | quiet (a : SessionAct) : w = g.claimState → (q.holdsClaim → p.holdsClaim) →
      (p.holdsClaim → q.holdsClaim ∨ g.claimState ≠ .claiming) →
      (q.pastSwitch → p.pastSwitch) → WordMove g p w q a

theorem phaseStep_move {g : Shared} {p q : Phase} {a : SessionAct} {w : ClaimState}
    (h : phaseStep g p a = some (w, q)) : WordMove g p w q a := by
  unfold phaseStep at h
  split at h
  case h_4 args lo hi =>
    split_ifs at h with hbad hfree <;> simp only [Option.some.injEq, Prod.mk.injEq] at h <;>
      obtain ⟨rfl, rfl⟩ := h
    · exact .quiet _ rfl nofun nofun nofun
    · exact .claim args lo hi rfl hfree rfl rfl
    · exact .quiet _ rfl nofun nofun nofun
  case h_6 =>
    simp only [Option.some.injEq, Prod.mk.injEq] at h
    exact .store rfl h.1.symm h.2.symm
  case h_8 outFd fd =>
    split_ifs at h with hc <;> simp only [Option.some.injEq, Prod.mk.injEq] at h <;>
      obtain ⟨rfl, rfl⟩ := h
    · exact .switch outFd fd rfl hc rfl rfl
    · exact .quiet _ rfl (fun _ => rfl) (fun _ => .inl rfl) nofun
  case h_12 =>
    simp only [Option.some.injEq, Prod.mk.injEq, cmpxchg] at h
    obtain ⟨hw, rfl⟩ := h
    by_cases hd : g.claimState = .delivered
    · rw [if_pos hd] at hw
      exact .rollback rfl hd hw.symm rfl
    · rw [if_neg hd] at hw
      exact .quiet _ hw.symm nofun nofun nofun
  case h_13 r e =>
    simp only [Option.some.injEq, Prod.mk.injEq, cmpxchg] at h
    obtain ⟨hw, rfl⟩ := h
    by_cases hc : g.claimState = .claiming
    · rw [if_pos hc] at hw
      exact .giveBack r e rfl hc hw.symm rfl
    · rw [if_neg hc] at hw
      exact .quiet _ hw.symm nofun (fun _ => .inr hc) nofun
  case h_7 bootstrap outFd env =>
    cases hi : yukizygiskControlInstallFd g.available env <;> cases bootstrap <;>
      simp only [hi, Option.some.injEq, Prod.mk.injEq] at h <;> obtain ⟨rfl, rfl⟩ := h
    · exact .quiet _ rfl nofun nofun nofun
    · exact .quiet _ rfl (fun _ => rfl) (fun _ => .inl rfl) nofun
    · exact .quiet _ rfl nofun nofun nofun
    · exact .quiet _ rfl (fun _ => rfl) (fun _ => .inl rfl) nofun
  case h_10 bootstrap outFd fd ok =>
    cases bootstrap <;> simp only [Bool.false_eq_true, ↓reduceIte] at h <;>
      split_ifs at h <;> simp only [Option.some.injEq, Prod.mk.injEq] at h <;>
      obtain ⟨rfl, rfl⟩ := h
    · exact .quiet _ rfl nofun nofun nofun
    · exact .quiet _ rfl nofun nofun nofun
    · exact .quiet _ rfl nofun nofun (fun _ => rfl)
    · exact .quiet _ rfl nofun nofun (fun _ => rfl)
  case h_11 bootstrap fd =>
    simp only [Option.some.injEq, Prod.mk.injEq] at h
    obtain ⟨rfl, rfl⟩ := h
    cases bootstrap
    · exact .quiet _ rfl nofun nofun nofun
    · exact .quiet _ rfl nofun nofun (fun _ => rfl)
  -- the remaining arms leave the word alone and enter no tracked phase from outside it
  all_goals
    (repeat' split at h) <;> try contradiction
    all_goals
      simp only [Option.some.injEq, Prod.mk.injEq] at h
      obtain ⟨rfl, rfl⟩ := h
      refine .quiet _ rfl ?_ ?_ ?_ <;>
        first | exact fun _ => rfl | exact fun _ => .inl rfl | exact nofun

/-- The word and the phases after a session step. -/
theorem step_session {b b' : Boot} {c : Nat} {a : SessionAct}
    (h : b.step (.session c a) = some b') :
    ∃ w q, WordMove b.shared (b.sessions c) w q a ∧ b'.shared.claimState = w ∧
      b'.sessions = Function.update b.sessions c q ∧ b'.guard = b.guard ∧
      (w = .claiming →
        b'.owner = if b.shared.claimState = .claiming then b.owner else some c) := by
  simp only [Boot.step, Boot.sessionStep] at h
  cases hp : phaseStep b.shared (b.sessions c) a with
  | none => rw [hp] at h; cases h
  | some wq =>
    obtain ⟨w, q⟩ := wq
    rw [hp] at h
    refine ⟨w, q, phaseStep_move hp, ?_⟩
    -- clearing the cookie touches neither the word nor the phases
    have hb : b' = (b.setClaimState w (some c)).setPhase c q ∨
        b' = ((b.setClaimState w (some c)).setPhase c q).clearCookie := by
      cases a <;> simp only [Option.some.injEq] at h <;> simp [h]
    rcases hb with rfl | rfl <;>
      exact ⟨rfl, rfl, rfl, fun hw => by
        simp [Boot.clearCookie, Boot.setPhase, Boot.setClaimState, hw]⟩

/-- What the word can do in a step of the clock, the daemon's report, the guard or exit. -/
inductive OtherMove (b b' : Boot) : Act → Prop
  | still (a : Act) : b'.shared.claimState = b.shared.claimState →
      (b.shared.claimState = .claiming → b'.owner = b.owner) → OtherMove b b' a
  | report (c : Nat) : b.shared.claimState = .delivered → b'.shared.claimState = .ready →
      OtherMove b b' (.daemonReady c)
  | guardClose (st : ClaimState) : b.guard = .closing st → b.shared.claimState = st →
      b'.shared.claimState = .closed → OtherMove b b' .guardClose
  | exitStore : b'.shared.claimState = .closed → OtherMove b b' .exitStore

theorem step_other {b b' : Boot} {a : Act} (ha : ∀ c s, a ≠ .session c s)
    (h : b.step a = some b') : b'.sessions = b.sessions ∧ OtherMove b b' a := by
  cases a with
  | session c s => exact absurd rfl (ha c s)
  | daemonReady c =>
    simp only [Boot.step] at h
    split_ifs at h with hopen
    have hb : b'.sessions = b.sessions ∧
        b'.shared = (b.setClaimState
          (yukizygiskBootstrapDaemonReady b.shared.claimState).1 none).shared ∧
        b'.owner = (b.setClaimState
          (yukizygiskBootstrapDaemonReady b.shared.claimState).1 none).owner := by
      split at h <;> simp only [Option.some.injEq] at h <;> subst h <;> exact ⟨rfl, rfl, rfl⟩
    obtain ⟨hs, hw, ho⟩ := hb
    refine ⟨hs, ?_⟩
    by_cases hd : b.shared.claimState = .delivered
    · exact .report c hd (by rw [hw, hd]; rfl)
    · refine .still _ ?_ ?_
      · rw [hw]
        cases hc : b.shared.claimState <;> first | rfl | exact absurd hc hd
      · intro hc
        rw [ho, hc]
        simp [Boot.setClaimState, yukizygiskBootstrapDaemonReady, hc]
  | guardClose =>
    simp only [Boot.step] at h
    split at h <;> try contradiction
    rename_i st hg
    split_ifs at h with hst <;> simp only [Option.some.injEq] at h <;> subst h
    · exact ⟨rfl, .guardClose st hg hst rfl⟩
    · exact ⟨rfl, .still _ rfl (fun _ => rfl)⟩
  | exitStore =>
    simp only [Boot.step] at h
    split at h <;> try contradiction
    simp only [Option.some.injEq] at h
    subst h
    exact ⟨rfl, .exitStore rfl⟩
  | _ =>
    simp only [Boot.step] at h
    (repeat' split at h) <;> try contradiction
    all_goals
      simp only [Option.some.injEq] at h
      subst h
      exact ⟨rfl, .still _ rfl (fun _ => rfl)⟩

/-- The guard closes only a gate it sampled open. -/
def GuardSampledOpen (b : Boot) : Prop :=
  ∀ st, b.guard = .sampled st ∨ b.guard = .closing st → st ≠ .ready ∧ st ≠ .closed

theorem guardSampledOpen_invariant (P : Boot → Act → Prop) :
    boot.Invariant P GuardSampledOpen where
  init := by
    rintro b ⟨p, now, rfl⟩ st h
    simp only [yukizygiskBootstrapInit] at h
    split_ifs at h <;> simp at h
  step := by
    intro b a b' hI _ h
    change b.step a = some b' at h
    cases a with
    | session c s =>
      obtain ⟨-, -, -, -, -, hg, -⟩ := step_session h
      intro st; rw [hg]; exact hI st
    | guardRead =>
      simp only [Boot.step] at h
      split at h <;> try contradiction
      split at h <;> simp only [Option.some.injEq] at h <;> subst h <;> intro st' hst'
      · simp at hst'
      · simp at hst'
      · rename_i hr hc
        simp only [Guard.sampled.injEq, reduceCtorEq, or_false] at hst'
        exact hst' ▸ ⟨fun e => hr e, fun e => hc e⟩
    | guardDecide s =>
      simp only [Boot.step] at h
      split at h <;> try contradiction
      rename_i st hg
      split_ifs at h <;> simp only [Option.some.injEq] at h <;> subst h <;> intro st' hst'
      · simp [Boot.reschedule] at hst'
      · simp [Boot.reschedule] at hst'
      · simp only [reduceCtorEq, Guard.closing.injEq, false_or] at hst'
        exact hst' ▸ hI st (.inl hg)
    | guardClose =>
      simp only [Boot.step] at h
      split at h <;> try contradiction
      split_ifs at h <;> simp only [Option.some.injEq] at h <;> subst h <;> intro st' hst' <;>
        simp [Boot.reschedule] at hst'
    | _ =>
      simp only [Boot.step] at h
      (repeat' split at h) <;> try contradiction
      all_goals
        simp only [Option.some.injEq] at h
        subst h
        first
          | exact hI
          | (intro st' hst'; simp at hst')

/-! ## 2. CLOSED is final -/

/-- In every run whose steps meet `P`: once the word is CLOSED it stays CLOSED, and it
leaves READY only in the store that module exit makes. -/
def FailClosedPermanent (P : Boot → Act → Prop) : Prop :=
  (∀ b b', boot.Reach P b → boot.Path P b b' →
    b.shared.claimState = .closed → b'.shared.claimState = .closed) ∧
  (∀ b a b', boot.Reach P b → P b a → boot.step b a = some b' →
    b.shared.claimState = .ready → b'.shared.claimState ≠ .ready → a = .exitStore)

/-- The pre-handler's store after a failed `yz_queue_control_session` finds the word
neither CLOSED nor READY. -/
def StoreSeesOpenGate (b : Boot) (a : Act) : Prop :=
  ∀ c, a = .session c .unclaim →
    b.shared.claimState ≠ .closed ∧ b.shared.claimState ≠ .ready

theorem closed_step {b b' : Boot} {a : Act} (hP : StoreSeesOpenGate b a)
    (h : b.step a = some b') (hc : b.shared.claimState = .closed) :
    b'.shared.claimState = .closed := by
  by_cases ha : ∃ c s, a = .session c s
  · obtain ⟨c, s, rfl⟩ := ha
    obtain ⟨w, q, hm, rfl, -⟩ := step_session h
    cases hm with
    | claim _ _ _ _ hw => rw [hc] at hw; cases hw
    | store _ _ => exact absurd hc (hP c rfl).1
    | switch _ _ _ hw => rw [hc] at hw; cases hw
    | rollback _ hw => rw [hc] at hw; cases hw
    | giveBack _ _ _ hw => rw [hc] at hw; cases hw
    | quiet _ hw => rw [hw, hc]
  · obtain ⟨-, hm⟩ := step_other (fun c s e => ha ⟨c, s, e⟩) h
    cases hm with
    | still _ hw => rw [hw, hc]
    | report _ hw => rw [hc] at hw; cases hw
    | guardClose _ _ _ hw => exact hw
    | exitStore hw => exact hw

theorem ready_step {b b' : Boot} {a : Act} (hg : GuardSampledOpen b)
    (hP : StoreSeesOpenGate b a) (h : b.step a = some b') (hr : b.shared.claimState = .ready)
    (hr' : b'.shared.claimState ≠ .ready) : a = .exitStore := by
  by_cases ha : ∃ c s, a = .session c s
  · obtain ⟨c, s, rfl⟩ := ha
    obtain ⟨w, q, hm, rfl, -⟩ := step_session h
    cases hm with
    | claim _ _ _ _ hw => rw [hr] at hw; cases hw
    | store _ _ => exact absurd hr (hP c rfl).2
    | switch _ _ _ hw => rw [hr] at hw; cases hw
    | rollback _ hw => rw [hr] at hw; cases hw
    | giveBack _ _ _ hw => rw [hr] at hw; cases hw
    | quiet _ hw => exact absurd (hw.trans hr) hr'
  · obtain ⟨-, hm⟩ := step_other (fun c s e => ha ⟨c, s, e⟩) h
    cases hm with
    | still _ hw => exact absurd (hw.trans hr) hr'
    | report _ hw => rw [hr] at hw; cases hw
    | guardClose st hst hw => exact absurd (hw ▸ hr) (hg st (.inr hst)).1
    | exitStore _ => rfl

/-- **The gate stays shut in every run whose queue-failure stores find it open.** -/
theorem failClosedPermanent_of_storeSeesOpenGate {P : Boot → Act → Prop}
    (hP : ∀ b a, P b a → StoreSeesOpenGate b a) : FailClosedPermanent P := by
  constructor
  · intro b b' hr hp hc
    exact hp.preserve hr (J := fun b => b.shared.claimState = .closed)
      (fun t a t' _ hJ ha h => closed_step (hP t a ha) h hJ) hc
  · intro b a b' hr ha h hrd hrd'
    exact ready_step (hr.invariant (guardSampledOpen_invariant _)) (hP b a ha) h hrd hrd'

/-- Module parameters with a cookie, and the calls of processes that present it. -/
def demoParams : Params :=
  { cookieLo := 1, cookieHi := 0, guardDelaySec := 5, guardMaxSec := 30, hz := 100 }

def demoArgs : BootstrapArgs :=
  { option := 0x595a0001, magic1 := yzPrctlBootstrapMagicYukihook
    cookieLo := 1, cookieHi := 0, outFd := 0x7000 }

/-- A queueing attempt that succeeds, and one that finds no memory for the session. -/
def queueOk : QueueEnv := ⟨true, true, true, true, .ok ()⟩
def queueNoMem : QueueEnv := ⟨true, true, true, false, .ok ()⟩
def installOk (fd : Nat) : InstallEnv := ⟨true, .ok fd, true, .ok ()⟩

/-- Session `c` up to both cookie reads, and then its claim. -/
def readCookie (c : Nat) : List Act :=
  [.session c (.prctl demoArgs queueOk), .session c .readCookieLo, .session c .readCookieHi]
def claimBy (c : Nat) : List Act := readCookie c ++ [.session c .claim]

/-- Session 0 claims, the guard's deadline passes and it closes the gate, and only then does
session 0 learn that its session could not be allocated. -/
def closeDuringQueue : List Act :=
  claimBy 0 ++ ([.tick 3000, .guardStart, .guardRead, .guardDecide false, .guardClose] : List Act)

/-- No session writes UNCLAIMED: a test of a step. -/
def noUnclaim (_ : Boot) : Act → Bool
  | .session _ .unclaim => false
  | .session _ .giveBack => false
  | _ => true

def NoUnclaim (b : Boot) (a : Act) : Prop := noUnclaim b a = true

/-- Where no session writes UNCLAIMED, a gate that the guard closed over a claim stays closed. -/
theorem failClosedPermanent_noUnclaim : ∃ b, boot.Reach NoUnclaim b ∧
    b.shared.claimState = .closed ∧ ∀ b', boot.Path NoUnclaim b b' →
      b'.shared.claimState = .closed := by
  have hall : FailClosedPermanent NoUnclaim := by
    refine failClosedPermanent_of_storeSeesOpenGate ?_
    intro b a h c ha
    subst ha
    cases h
  obtain ⟨b, hr, hc⟩ := Lts.exists_reach_of_guarded (M := boot) (P := NoUnclaim) (fun _ _ => id)
    ⟨demoParams, 0, rfl⟩ closeDuringQueue (fun b => b.shared.claimState = .closed) (by decide)
  have hclosed : b.shared.claimState = .closed := of_decide_eq_true hc
  exact ⟨b, hr, hclosed, fun b' hp => hall.1 b b' hr hp hclosed⟩

/-- **The gate reopens.**  Session 0's store finds CLOSED and writes UNCLAIMED. -/
theorem not_failClosedPermanent : ¬ FailClosedPermanent Lts.anyStep := by
  intro h
  obtain ⟨b, b', hr, hp, hc, ho⟩ := boot.exists_path_of_exec
    (s := yukizygiskBootstrapInit demoParams 0) ⟨demoParams, 0, rfl⟩ closeDuringQueue
    [.session 0 (.queue queueNoMem), .session 0 .unclaim]
    (fun b => b.shared.claimState = .closed) (fun b => b.shared.claimState = .unclaimed)
    (by decide)
  have hcl : b'.shared.claimState = .closed := h.1 b b' hr hp (of_decide_eq_true hc)
  rw [of_decide_eq_true ho] at hcl
  cases hcl

/-! ## 3. One delivered descriptor -/

/-- In every run whose steps meet `P`, at most one session's bootstrap descriptor is
delivered and open. -/
def SingleChannel (P : Boot → Act → Prop) : Prop :=
  ∀ b, boot.Reach P b → ∀ c c', (b.sessions c).deliveredOpen → (b.sessions c').deliveredOpen →
    c = c'

/-- The pre-handler's store after a failed `yz_queue_control_session` finds no session past
its switch to DELIVERED. -/
def StoreSeesNoDelivery (b : Boot) (a : Act) : Prop :=
  ∀ c, a = .session c .unclaim → ∀ c', (b.sessions c').pastSwitch = false

/-- Sessions past their switch: none while the word can still be claimed or switched, and
never two. -/
structure OnePastSwitch (b : Boot) : Prop where
  open_gate : b.shared.claimState = .unclaimed ∨ b.shared.claimState = .claiming →
    ∀ c, (b.sessions c).pastSwitch = false
  unique : ∀ c c', (b.sessions c).pastSwitch → (b.sessions c').pastSwitch → c = c'

theorem deliveredOpen_pastSwitch {p : Phase} (h : p.deliveredOpen) : p.pastSwitch := by
  unfold Phase.deliveredOpen at h
  split at h
  · rfl
  · rfl
  · cases h

/-- If nobody but `c` can be past its switch after the step, uniqueness is immediate. -/
theorem unique_of_only {b : Boot} {c : Nat} {q : Phase}
    (h : ∀ d, d ≠ c → (b.sessions d).pastSwitch = false) (d d' : Nat)
    (hd : (Function.update b.sessions c q d).pastSwitch)
    (hd' : (Function.update b.sessions c q d').pastSwitch) : d = d' := by
  have key : ∀ e, (Function.update b.sessions c q e).pastSwitch → e = c := by
    intro e he
    by_contra hne
    rw [Function.update_of_ne hne, h e hne] at he
    cases he
  rw [key d hd, key d' hd']

theorem onePastSwitch_session {b b' : Boot} {c : Nat} {a : SessionAct} (hI : OnePastSwitch b)
    (hP : StoreSeesNoDelivery b (.session c a)) (h : b.step (.session c a) = some b') :
    OnePastSwitch b' := by
  obtain ⟨w, q, hm, hw', hs', -⟩ := step_session h
  -- all the cases below know the word and the phases of `b'` through these two equations
  have mk : ((w = .unclaimed ∨ w = .claiming) →
        ∀ d, (Function.update b.sessions c q d).pastSwitch = false) →
      (∀ d d', (Function.update b.sessions c q d).pastSwitch →
        (Function.update b.sessions c q d').pastSwitch → d = d') → OnePastSwitch b' := by
    intro h1 h2
    constructor
    · rw [hw', hs']; exact h1
    · rw [hs']; exact h2
  have stays : q.pastSwitch = false → (∀ d, (b.sessions d).pastSwitch = false) →
      ∀ d, (Function.update b.sessions c q d).pastSwitch = false := by
    intro hq hall d
    by_cases hd : d = c
    · rw [hd, Function.update_self]; exact hq
    · rw [Function.update_of_ne hd]; exact hall d
  cases hm with
  | claim args lo hi hp hg hw hq =>
    have hall := hI.open_gate (.inl hg)
    subst hq
    exact mk (fun _ => stays rfl hall) (unique_of_only fun d _ => hall d)
  | store hp hw hq =>
    have hall := hP c rfl
    subst hq
    exact mk (fun _ => stays rfl hall) (unique_of_only fun d _ => hall d)
  | switch outFd fd hp hg hw hq =>
    have hall := hI.open_gate (.inr hg)
    subst hw
    refine mk ?_ (unique_of_only fun d _ => hall d)
    rintro (h | h) <;> cases h
  | rollback hp hg hw hq =>
    -- the session that rolls back was the one past its switch, so nobody else is
    have hothers : ∀ d, d ≠ c → (b.sessions d).pastSwitch = false := by
      intro d hd
      by_contra hcon
      exact hd (hI.unique d c (by simpa using hcon) (by rw [hp]; rfl))
    subst hq
    refine mk (fun _ d => ?_) (unique_of_only hothers)
    by_cases hd : d = c
    · rw [hd, Function.update_self]; rfl
    · rw [Function.update_of_ne hd]; exact hothers d hd
  | giveBack r e hp hg hw hq =>
    have hall := hI.open_gate (.inr hg)
    subst hq
    exact mk (fun _ => stays rfl hall) (unique_of_only fun d _ => hall d)
  | quiet _ hw hhold hkeep hpast =>
    have key : ∀ d, (Function.update b.sessions c q d).pastSwitch →
        (b.sessions d).pastSwitch := by
      intro d hd
      by_cases hdc : d = c
      · subst hdc
        rw [Function.update_self] at hd
        exact hpast hd
      · rwa [Function.update_of_ne hdc] at hd
    refine mk (fun hopen d => ?_) (fun d d' hd hd' => hI.unique d d' (key d hd) (key d' hd'))
    rw [hw] at hopen
    by_contra hcon
    have := key d (by simpa using hcon)
    rw [hI.open_gate hopen d] at this
    cases this

theorem onePastSwitch_invariant : boot.Invariant StoreSeesNoDelivery OnePastSwitch where
  init := by
    rintro b ⟨p, now, rfl⟩
    exact ⟨fun _ _ => rfl, fun _ _ h => by cases h⟩
  step := by
    intro b a b' hI hP h
    by_cases ha : ∃ c s, a = .session c s
    · obtain ⟨c, s, rfl⟩ := ha
      exact onePastSwitch_session hI hP h
    · obtain ⟨hs, hm⟩ := step_other (fun c s e => ha ⟨c, s, e⟩) h
      refine ⟨?_, by rw [hs]; exact hI.unique⟩
      intro hopen
      rw [hs]
      cases hm with
      | still _ hw => exact hI.open_gate (hw ▸ hopen)
      | report _ _ hw => rw [hw] at hopen; rcases hopen with h | h <;> cases h
      | guardClose _ _ _ hw => rw [hw] at hopen; rcases hopen with h | h <;> cases h
      | exitStore hw => rw [hw] at hopen; rcases hopen with h | h <;> cases h

/-- **One channel in every run whose queue-failure stores meet no delivery.** -/
theorem singleChannel_of_storeSeesNoDelivery {P : Boot → Act → Prop}
    (hP : ∀ b a, P b a → StoreSeesNoDelivery b a) : SingleChannel P := by
  intro b hr c c' hc hc'
  exact ((hr.mono hP).invariant onePastSwitch_invariant).unique c c' (deliveredOpen_pastSwitch hc)
    (deliveredOpen_pastSwitch hc')

/-- Session 0 gets its descriptor. -/
def deliverOne : List Act :=
  claimBy 0 ++ ([.session 0 (.queue queueOk), .session 0 (.install (installOk 5)),
    .session 0 .switch, .session 0 (.copy true)] : List Act)

/-- Where no session writes UNCLAIMED, session 0's descriptor is the only one. -/
theorem singleChannel_noUnclaim : ∃ b, boot.Reach NoUnclaim b ∧ (b.sessions 0).deliveredOpen ∧
    ∀ c, (b.sessions c).deliveredOpen → c = 0 := by
  have hall : SingleChannel NoUnclaim := by
    refine singleChannel_of_storeSeesNoDelivery ?_
    intro b a h c ha
    subst ha
    cases h
  obtain ⟨b, hr, hc⟩ := Lts.exists_reach_of_guarded (M := boot) (P := NoUnclaim) (fun _ _ => id)
    ⟨demoParams, 0, rfl⟩ deliverOne (fun b => (b.sessions 0).deliveredOpen) (by decide)
  exact ⟨b, hr, hc, fun c hc' => hall b hr c 0 hc' hc⟩

/-- Session 0 is delivered but its copy fails; between its two write-backs session 1 claims,
so the second write-back frees session 1's claim and session 2 can claim as well. -/
def stealClaim : List Act :=
  claimBy 0 ++
  ([.session 0 (.queue queueOk), .session 0 (.install (installOk 5)), .session 0 .switch,
    .session 0 (.copy false), .session 0 .closeCopy, .session 0 .rollback] : List Act) ++
  claimBy 1 ++ ([.session 1 (.queue queueOk), .session 0 .giveBack] : List Act) ++ claimBy 2

/-- Session 1 is delivered on session 2's claim, session 2's failed queueing opens the gate
again, and session 3, which read the cookie early, is delivered too. -/
def twoChannels : List Act :=
  readCookie 3 ++ stealClaim ++
  ([.session 1 (.install (installOk 6)), .session 1 .switch, .session 1 (.copy true),
    .session 2 (.queue queueNoMem), .session 2 .unclaim,
    .session 3 .claim, .session 3 (.queue queueOk), .session 3 (.install (installOk 7)),
    .session 3 .switch, .session 3 (.copy true)] : List Act)

/-- **Two descriptors at once.** -/
theorem not_singleChannel : ¬ SingleChannel Lts.anyStep := by
  intro h
  obtain ⟨b, hr, hp⟩ := boot.exists_reach_of_exec
    (s := yukizygiskBootstrapInit demoParams 0) ⟨demoParams, 0, rfl⟩ twoChannels
    (fun b => (b.sessions 1).deliveredOpen && (b.sessions 3).deliveredOpen) (by decide)
  obtain ⟨h1, h3⟩ := Bool.and_eq_true_iff.mp hp
  exact absurd (h b hr 1 3 h1 h3) (by decide)

/-! ## 4. A claim belongs to its session -/

/-- In every run whose steps meet `P`: a claim held by session `c` leaves CLAIMING only by a
step of `c` itself or into CLOSED, and a session that got as far as its switch wins it
unless the gate is closed; with a successful copy it then holds the descriptor. -/
structure ClaimOwnership (P : Boot → Act → Prop) : Prop where
  given_back : ∀ b a b' c, boot.Reach P b → P b a → boot.step b a = some b' →
    b.shared.claimState = .claiming → b.owner = some c →
    b'.shared.claimState = .claiming ∧ b'.owner = some c ∨
    b'.shared.claimState = .unclaimed ∧ (a = .session c .unclaim ∨ a = .session c .giveBack) ∨
    b'.shared.claimState = .delivered ∧ a = .session c .switch ∨
    b'.shared.claimState = .closed ∧ (a = .guardClose ∨ a = .exitStore)
  switch_wins : ∀ b b' c outFd fd, boot.Reach P b → b.sessions c = .installed outFd fd →
    boot.step b (.session c .switch) = some b' → b.shared.claimState ≠ .closed →
    b'.sessions c = .switched true outFd fd
  copy_delivers : ∀ b b' c outFd fd, b.sessions c = .switched true outFd fd →
    boot.step b (.session c (.copy true)) = some b' → (b'.sessions c).deliveredOpen

/-- The CLAIMING -> UNCLAIMED swap of a delivery that already rolled back finds nobody's
claim in the word. -/
def GiveBackSeesNoClaim (b : Boot) (a : Act) : Prop :=
  ∀ c e, a = .session c .giveBack → b.sessions c = .failing true e →
    b.shared.claimState ≠ .claiming

/-- Sessions that hold a claim: one at most, and its claim is in the word unless the gate
was closed over it. -/
structure OneClaim (b : Boot) : Prop where
  holder : b.shared.claimState = .claiming →
    ∃ c, b.owner = some c ∧ (b.sessions c).holdsClaim
  claim_live : ∀ c, (b.sessions c).holdsClaim →
    b.shared.claimState = .claiming ∨ b.shared.claimState = .closed
  unique : ∀ c c', (b.sessions c).holdsClaim → (b.sessions c').holdsClaim → c = c'

theorem OneClaim.owner_eq {b : Boot} (hI : OneClaim b) {c : Nat}
    (hc : (b.sessions c).holdsClaim) (hw : b.shared.claimState = .claiming) :
    b.owner = some c := by
  obtain ⟨d, ho, hd⟩ := hI.holder hw
  rw [ho, hI.unique d c hd hc]

/-- Nobody holds a claim while the word is neither CLAIMING nor CLOSED. -/
theorem OneClaim.none_holds {b : Boot} (hI : OneClaim b)
    (h1 : b.shared.claimState ≠ .claiming) (h2 : b.shared.claimState ≠ .closed) (c : Nat) :
    (b.sessions c).holdsClaim = false := by
  by_contra hcon
  rcases hI.claim_live c (by simpa using hcon) with h | h
  · exact h1 h
  · exact h2 h

/-- When the one holder lets go, nobody holds a claim. -/
theorem OneClaim.released {b : Boot} (hI : OneClaim b) {c : Nat} {q : Phase}
    (hc : (b.sessions c).holdsClaim) (hq : q.holdsClaim = false) (d : Nat) :
    (Function.update b.sessions c q d).holdsClaim = false := by
  by_cases hd : d = c
  · rw [hd, Function.update_self]; exact hq
  · rw [Function.update_of_ne hd]
    by_contra hcon
    exact hd (hI.unique d c (by simpa using hcon) hc)

/-- A state in which nobody holds a claim and the word is not CLAIMING. -/
theorem OneClaim.ofNone {b : Boot} (hw : b.shared.claimState ≠ .claiming)
    (h : ∀ c, (b.sessions c).holdsClaim = false) : OneClaim b :=
  ⟨fun e => absurd e hw, fun c hc => absurd hc (by simp [h c]),
    fun c _ hc => absurd hc (by simp [h c])⟩

theorem oneClaim_session {b b' : Boot} {c : Nat} {a : SessionAct} (hI : OneClaim b)
    (hP : GiveBackSeesNoClaim b (.session c a)) (h : b.step (.session c a) = some b') :
    OneClaim b' := by
  obtain ⟨w, q, hm, hw', hs', -, ho'⟩ := step_session h
  cases hm with
  | claim args lo hi hp hg hw hq =>
    have hnone := hI.none_holds (by rw [hg]; decide) (by rw [hg]; decide)
    have howner : b'.owner = some c := by rw [ho' hw, hg]; rfl
    have honly : ∀ d, (b'.sessions d).holdsClaim → d = c := by
      intro d hd
      by_contra hne
      rw [hs', Function.update_of_ne hne, hnone d] at hd
      cases hd
    refine ⟨fun _ => ⟨c, howner, ?_⟩, fun _ _ => .inl (hw'.trans hw), ?_⟩
    · rw [hs', Function.update_self, hq]; rfl
    · intro d d' hd hd'
      rw [honly d hd, honly d' hd']
  | store hp hw hq =>
    refine .ofNone (by rw [hw', hw]; decide) ?_
    rw [hs']
    exact hI.released (by rw [hp]; rfl) (by rw [hq]; rfl)
  | switch outFd fd hp hg hw hq =>
    refine .ofNone (by rw [hw', hw]; decide) ?_
    rw [hs']
    exact hI.released (by rw [hp]; rfl) (by rw [hq]; rfl)
  | rollback hp hg hw hq =>
    have hnone := hI.none_holds (by rw [hg]; decide) (by rw [hg]; decide)
    refine .ofNone (by rw [hw', hw]; decide) ?_
    intro d
    rw [hs']
    by_cases hd : d = c
    · rw [hd, Function.update_self, hq]; rfl
    · rw [Function.update_of_ne hd]; exact hnone d
  | giveBack r e hp hg hw hq =>
    -- under the guard the failing delivery still holds its own claim
    cases r with
    | true => exact absurd hg (hP c e rfl hp)
    | false =>
      refine .ofNone (by rw [hw', hw]; decide) ?_
      rw [hs']
      exact hI.released (by rw [hp]; rfl) (by rw [hq]; rfl)
  | quiet _ hw hhold hkeep hpast =>
    have key : ∀ d, (b'.sessions d).holdsClaim → (b.sessions d).holdsClaim := by
      intro d hd
      rw [hs'] at hd
      by_cases hdc : d = c
      · subst hdc
        rw [Function.update_self] at hd
        exact hhold hd
      · rwa [Function.update_of_ne hdc] at hd
    refine ⟨fun hcl => ?_, fun d hd => ?_,
      fun d d' hd hd' => hI.unique d d' (key d hd) (key d' hd')⟩
    · have hcl' : b.shared.claimState = .claiming := hw ▸ hw' ▸ hcl
      obtain ⟨d, hod, hd⟩ := hI.holder hcl'
      refine ⟨d, by rw [ho' (hw.trans hcl'), if_pos hcl']; exact hod, ?_⟩
      rw [hs']
      by_cases hdc : d = c
      · subst hdc
        rw [Function.update_self]
        exact (hkeep hd).resolve_right (fun hne => hne hcl')
      · rwa [Function.update_of_ne hdc]
    · rw [hw', hw]; exact hI.claim_live d (key d hd)

theorem oneClaim_invariant : boot.Invariant GiveBackSeesNoClaim OneClaim where
  init := by
    rintro b ⟨p, now, rfl⟩
    refine .ofNone ?_ fun _ => rfl
    simp only [yukizygiskBootstrapInit]
    split_ifs <;> decide
  step := by
    intro b a b' hI hP h
    by_cases ha : ∃ c s, a = .session c s
    · obtain ⟨c, s, rfl⟩ := ha
      exact oneClaim_session hI hP h
    · obtain ⟨hs, hm⟩ := step_other (fun c s e => ha ⟨c, s, e⟩) h
      have hun : ∀ c c', (b'.sessions c).holdsClaim → (b'.sessions c').holdsClaim → c = c' := by
        rw [hs]; exact hI.unique
      cases hm with
      | still _ hw ho =>
        refine ⟨?_, ?_, hun⟩
        · intro hcl
          have hcl' := hw ▸ hcl
          rw [ho hcl', hs]
          exact hI.holder hcl'
        · intro c hc
          rw [hw]; exact hI.claim_live c (hs ▸ hc)
      | report c hd hw =>
        refine .ofNone (by rw [hw]; decide) ?_
        intro d
        rw [hs]
        exact hI.none_holds (by rw [hd]; decide) (by rw [hd]; decide) d
      | guardClose _ _ _ hw =>
        exact ⟨fun hcl => absurd (hw ▸ hcl) (by decide), fun _ _ => .inr hw, hun⟩
      | exitStore hw =>
        exact ⟨fun hcl => absurd (hw ▸ hcl) (by decide), fun _ _ => .inr hw, hun⟩

/-- Who can end a claim, one step at a time. -/
theorem claim_given_back {b b' : Boot} {a : Act} {c : Nat} (hI : OneClaim b)
    (hP : GiveBackSeesNoClaim b a) (h : b.step a = some b')
    (hcl : b.shared.claimState = .claiming) (ho : b.owner = some c) :
    b'.shared.claimState = .claiming ∧ b'.owner = some c ∨
    b'.shared.claimState = .unclaimed ∧ (a = .session c .unclaim ∨ a = .session c .giveBack) ∨
    b'.shared.claimState = .delivered ∧ a = .session c .switch ∨
    b'.shared.claimState = .closed ∧ (a = .guardClose ∨ a = .exitStore) := by
  have own : ∀ d, (b.sessions d).holdsClaim → d = c := fun d hd =>
    Option.some.inj ((hI.owner_eq hd hcl).symm.trans ho)
  by_cases ha : ∃ c s, a = .session c s
  · obtain ⟨d, s, rfl⟩ := ha
    obtain ⟨w, q, hm, hw', -, -, ho'⟩ := step_session h
    cases hm with
    | claim _ _ _ _ hg => rw [hcl] at hg; cases hg
    | store hp hw =>
      obtain rfl := own d (by rw [hp]; rfl)
      exact .inr (.inl ⟨hw'.trans hw, .inl rfl⟩)
    | switch _ _ hp _ hw =>
      obtain rfl := own d (by rw [hp]; rfl)
      exact .inr (.inr (.inl ⟨hw'.trans hw, rfl⟩))
    | rollback _ hg => rw [hcl] at hg; cases hg
    | giveBack r e hp _ hw =>
      cases r with
      | true => exact absurd hcl (hP d e rfl hp)
      | false =>
        obtain rfl := own d (by rw [hp]; rfl)
        exact .inr (.inl ⟨hw'.trans hw, .inr rfl⟩)
    | quiet _ hw =>
      exact .inl ⟨hw'.trans (hw.trans hcl), by rw [ho' (hw.trans hcl), if_pos hcl, ho]⟩
  · obtain ⟨-, hm⟩ := step_other (fun c s e => ha ⟨c, s, e⟩) h
    cases hm with
    | still _ hw hk => exact .inl ⟨hw.trans hcl, (hk hcl).trans ho⟩
    | report _ hd => rw [hcl] at hd; cases hd
    | guardClose _ _ _ hw => exact .inr (.inr (.inr ⟨hw, .inl rfl⟩))
    | exitStore hw => exact .inr (.inr (.inr ⟨hw, .inr rfl⟩))

/-- **Claims are owned in every run whose second write-backs meet no claim.** -/
theorem claimOwnership_of_giveBackSeesNoClaim {P : Boot → Act → Prop}
    (hP : ∀ b a, P b a → GiveBackSeesNoClaim b a) : ClaimOwnership P where
  given_back b a b' c hr ha h hcl ho :=
    claim_given_back ((hr.mono hP).invariant oneClaim_invariant) (hP b a ha) h hcl ho
  switch_wins := by
    intro b b' c outFd fd hr hp h hopen
    have hI := (hr.mono hP).invariant oneClaim_invariant
    have hcl : b.shared.claimState = .claiming :=
      (hI.claim_live c (by rw [hp]; rfl)).resolve_right hopen
    have h' : b.sessionStep c .switch = some b' := h
    simp only [Boot.sessionStep, hp, phaseStep, hcl, if_true, Option.some.injEq] at h'
    rw [← h']
    exact Function.update_self ..
  copy_delivers := by
    intro b b' c outFd fd hp h
    have h' : b.sessionStep c (.copy true) = some b' := h
    simp only [Boot.sessionStep, hp, phaseStep, Bool.true_eq_false, and_false, if_false, if_true,
      Option.some.injEq] at h'
    rw [← h']
    show (Function.update b.sessions c (.copied fd) c).deliveredOpen = true
    rw [Function.update_self]; rfl

/-- Where no session writes UNCLAIMED, session 0's claim is not given back. -/
theorem claimOwnership_noUnclaim : ∃ b, boot.Reach NoUnclaim b ∧ b.owner = some 0 ∧
    ∀ a b', NoUnclaim b a → boot.step b a = some b' → b'.shared.claimState ≠ .unclaimed := by
  have hall : ClaimOwnership NoUnclaim := by
    refine claimOwnership_of_giveBackSeesNoClaim ?_
    intro b a h c e ha
    subst ha
    cases h
  obtain ⟨b, hr, hp⟩ := Lts.exists_reach_of_guarded (M := boot) (P := NoUnclaim) (fun _ _ => id)
    ⟨demoParams, 0, rfl⟩ (claimBy 0)
    (fun b => b.shared.claimState = .claiming && b.owner = some 0) (by decide)
  simp only [Bool.and_eq_true, decide_eq_true_eq] at hp
  refine ⟨b, hr, hp.2, ?_⟩
  intro a b' ha hs hun
  rcases hall.given_back b a b' 0 hr ha hs hp.1 hp.2 with h | ⟨-, rfl | rfl⟩ | h | h
  · rw [hun] at h
    cases h.1
  · cases ha
  · cases ha
  · rw [hun] at h
    cases h.1
  · rw [hun] at h
    cases h.1

/-- **A failed delivery cancels another session's claim.**  Session 1 holds the word when
session 0 runs the second of its two write-backs. -/
theorem not_claimOwnership : ¬ ClaimOwnership Lts.anyStep := by
  intro h
  obtain ⟨b, hr, hp⟩ := boot.exists_reach_of_exec
    (s := yukizygiskBootstrapInit demoParams 0) ⟨demoParams, 0, rfl⟩
    (claimBy 0 ++
      ([.session 0 (.queue queueOk), .session 0 (.install (installOk 5)), .session 0 .switch,
        .session 0 (.copy false), .session 0 .closeCopy, .session 0 .rollback] : List Act) ++
      claimBy 1)
    (fun b => b.shared.claimState = .claiming && b.owner = some 1 &&
      (b.step (.session 0 .giveBack)).any fun b' => b'.shared.claimState = .unclaimed)
    (by decide)
  simp only [Bool.and_eq_true, decide_eq_true_eq] at hp
  obtain ⟨⟨hcl, ho⟩, hs⟩ := hp
  obtain ⟨b', hb', hw⟩ := (Option.any_eq_true _ _).mp hs
  have hw' : b'.shared.claimState = .unclaimed := of_decide_eq_true hw
  rcases h.given_back b (.session 0 .giveBack) b' 1 hr trivial hb' hcl ho with h | h | h | h
  · rw [hw'] at h; exact absurd h.1 (by decide)
  · rcases h.2 with h | h <;> simp at h
  · rw [hw'] at h; exact absurd h.1 (by decide)
  · rw [hw'] at h; exact absurd h.1 (by decide)

end YukiZygisk.Bootstrap
