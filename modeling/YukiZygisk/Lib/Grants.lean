/-
# One permission, granted for a while by several holders

A store grants permissions to holders and takes them away again when the holders leave.
Seen from ONE permission, such a store keeps two things: whether the permission is allowed,
and a counter of the references it knows of.  What it does not keep is what the holders
themselves remember, and that is what its correctness is about.

* `claims` counts the references that live holders say they own.
* `needs` counts the requests of live holders that found the permission allowed and
  uncounted, and so rely on it without owning it.

`grants` is the transition system of such a permission.  A request (`ask`) that finds it
allowed and uncounted only relies on it; every other request claims it, and the counter
moves to some value the store chooses, up to the number of claims made.  A holder that
leaves (`leave`) clears the permission when the counter is at most one.

Three invariants follow, each under its own condition on the counter.  Nothing here
mentions a particular store.

The three are these.  That the counter covers the claims of live holders (`Covered`) holds in every
run.  That the permission is allowed exactly when it was at first or somebody claims it
(`Conserved`) needs that no holder claims it twice, as a release of both then finds a counter above
one and clears nothing.  That it is allowed while somebody needs it (`Backed`) needs that the
counter is that of the claims, which a store with a full table cannot promise.  A store is connected
by mapping its states to a `Grant` for each permission and its steps to runs of `grants`; the guards
are then the windows of the store.
-/
import YukiZygisk.Lib.Lts

namespace CountedGrants

/-- One permission: what the store keeps, and what the holders remember. -/
structure Grant where
  allowed : Bool
  refs : Nat
  claims : Nat
  needs : Nat
  deriving DecidableEq

inductive Event
  /-- one request names the permission `n` times; the counter is `refs'` if it claims -/
  | ask (n refs' : Nat)
  /-- a holder with `n` claims and `u` needs leaves -/
  | leave (n u : Nat)
  /-- the permission is allowed by someone who holds nothing -/
  | permit

/-- A request finds the permission allowed and uncounted. -/
def Grant.settled (g : Grant) : Prop := g.allowed = true ∧ g.refs = 0

instance (g : Grant) : Decidable g.settled := inferInstanceAs (Decidable (_ ∧ _))

def Grant.step (g : Grant) : Event → Option Grant
  | .ask n refs' =>
    if g.settled then some { g with needs := g.needs + n }
    else if g.refs + n < refs' then none
    else some { g with
      allowed := g.allowed || decide (0 < n ∧ g.refs = 0)
      refs := refs'
      claims := g.claims + n }
  | .leave n u =>
    if g.claims < n ∨ g.needs < u then none
    else some
      { allowed := g.allowed && decide (n = 0 ∨ 1 < g.refs)
        refs := g.refs - n
        claims := g.claims - n
        needs := g.needs - u }
  | .permit => some { g with allowed := true }

/-- The permission as a transition system; it starts unclaimed and uncounted. -/
def grants : Lts Grant Event where
  init g := g.refs = 0 ∧ g.claims = 0 ∧ g.needs = 0
  step := Grant.step

theorem grants_step (g : Grant) (e : Event) : grants.step g e = g.step e := rfl

variable {g g' : Grant}

/-- The two outcomes of a request. -/
theorem step_ask {n refs' : Nat} (h : grants.step g (.ask n refs') = some g') :
    g.settled ∧ g' = { g with needs := g.needs + n } ∨
    ¬ g.settled ∧ refs' ≤ g.refs + n ∧
      g'.allowed = (g.allowed || decide (0 < n ∧ g.refs = 0)) ∧ g'.refs = refs' ∧
      g'.claims = g.claims + n ∧ g'.needs = g.needs := by
  simp only [grants_step, Grant.step] at h
  split_ifs at h with hs hr
  · exact .inl ⟨hs, (Option.some.inj h).symm⟩
  · obtain rfl := Option.some.inj h
    exact .inr ⟨hs, by omega, rfl, rfl, rfl, rfl⟩

theorem step_leave {n u : Nat} (h : grants.step g (.leave n u) = some g') :
    n ≤ g.claims ∧ u ≤ g.needs ∧
      g'.allowed = (g.allowed && decide (n = 0 ∨ 1 < g.refs)) ∧
      g'.refs = g.refs - n ∧ g'.claims = g.claims - n ∧ g'.needs = g.needs - u := by
  simp only [grants_step, Grant.step] at h
  split_ifs at h with hc
  obtain rfl := Option.some.inj h
  exact ⟨by omega, by omega, rfl, rfl, rfl, rfl⟩

theorem step_permit (h : grants.step g .permit = some g') : g' = { g with allowed := true } :=
  (Option.some.inj h).symm

/-! ## 1. Every reference has a claim -/

/-- The store counts no reference that no holder remembers. -/
def Covered (g : Grant) : Prop := g.refs ≤ g.claims

/-- A request adds its claim to the counter, and a release takes its own off. -/
theorem covered_step {e : Event} (hI : Covered g) (h : grants.step g e = some g') :
    Covered g' := by
  unfold Covered at *
  cases e with
  | ask n refs' =>
    rcases step_ask h with ⟨-, rfl⟩ | ⟨-, hle, -, hr, hc, -⟩
    · exact hI
    · omega
  | leave n u =>
    obtain ⟨hn, -, -, hr, hc, -⟩ := step_leave h
    omega
  | permit =>
    obtain rfl := step_permit h
    exact hI

/-- **Counted references are claimed references**, in every run. -/
theorem covered_invariant (P : Grant → Event → Prop) : grants.Invariant P Covered where
  init g hg := by
    obtain ⟨hr, -, -⟩ := hg
    simp [Covered, hr]
  step _ _ _ hI _ h := covered_step hI h

/-! ## 2. A permission that was allowed on its own stays -/

/-- Allowed, and claimed by nobody. -/
def Unowned (g : Grant) : Prop := g.allowed = true ∧ g.refs = 0 ∧ g.claims = 0

/-- **Nobody comes to own an unowned permission**: a request only relies on it, and a holder
that leaves has nothing to clear. -/
theorem unowned_step {e : Event} (hI : Unowned g) (h : grants.step g e = some g') :
    Unowned g' := by
  obtain ⟨ha, hr, hc⟩ := hI
  cases e with
  | ask n refs' =>
    rcases step_ask h with ⟨-, rfl⟩ | ⟨hs, -⟩
    · exact ⟨ha, hr, hc⟩
    · exact absurd ⟨ha, hr⟩ hs
  | leave n u =>
    obtain ⟨hn, -, ha', hr', hc', -⟩ := step_leave h
    have hn0 : n = 0 := by omega
    exact ⟨by simp [ha', ha, hn0], by omega, by omega⟩
  | permit =>
    obtain rfl := step_permit h
    exact ⟨rfl, hr, hc⟩

/-! ## 3. Conservation -/

/-- A request names the permission once, and counts it unless it is uncounted anyway; a
holder leaves with at most one claim; nothing is allowed from outside. -/
def Single (g : Grant) : Event → Prop
  | .ask n refs' =>
    ¬ g.settled → n ≤ 1 ∧ (refs' = g.refs + n ∨ refs' = g.refs ∧ g.refs = 0)
  | .leave n _ => n ≤ 1
  | .permit => False

/-- The permission is allowed exactly when it was to begin with or is claimed; the counter
is the number of claims, or it lost the only one. -/
structure Conserved (base : Bool) (g : Grant) : Prop where
  counted : g.refs = g.claims ∨ g.refs = 0 ∧ g.claims = 1
  allowed : g.allowed = (base || decide (0 < g.claims))
  base_free : base = true → g.claims = 0

/-- A release clears the permission exactly when nothing else claims it. -/
theorem conserved_step {base : Bool} {e : Event} (hI : Conserved base g) (hP : Single g e)
    (h : grants.step g e = some g') : Conserved base g' := by
  obtain ⟨hcnt, hall, hbase⟩ := hI
  cases e with
  | ask n refs' =>
    rcases step_ask h with ⟨-, rfl⟩ | ⟨hs, -, ha, hr, hc, -⟩
    · exact ⟨hcnt, hall, hbase⟩
    · obtain ⟨hn, href⟩ := hP hs
      -- not settled: either counted already, or not allowed at all
      have hfree : base = false := by
        cases base with
        | false => rfl
        | true =>
          have h0 := hbase rfl
          exact absurd ⟨by simp [hall], by omega⟩ hs
      have hnew : g.refs = 0 → g.claims = 0 := by
        intro h0
        by_contra hne
        exact hs ⟨by simp [hall]; omega, h0⟩
      subst hfree
      refine ⟨by omega, ?_, nofun⟩
      rw [ha, hall, hc, Bool.false_or, Bool.false_or, ← Bool.decide_or, decide_eq_decide]
      omega
  | leave n u =>
    have hP : n ≤ 1 := hP
    obtain ⟨hn, -, ha, hr, hc, -⟩ := step_leave h
    refine ⟨by omega, ?_, fun hb => by have := hbase hb; omega⟩
    rw [ha, hall, hc]
    cases base with
    | true =>
      have := hbase rfl
      simp; omega
    | false =>
      rw [Bool.false_or, Bool.false_or, ← Bool.decide_and, decide_eq_decide]
      omega
  | permit => exact hP.elim

/-- **What is allowed from outside while nobody claims it joins the permissions that were there
to begin with**; what a holder claims already does not. -/
theorem conserved_permit {base allowed : Bool} (hI : Conserved base g)
    (hmono : g.allowed = true → allowed = true) :
    Conserved (base || (allowed && !g.allowed)) { g with allowed := allowed } := by
  obtain ⟨hcnt, hall, hbase⟩ := hI
  cases hg : g.allowed with
  | true =>
    rw [hmono hg, Bool.not_true, Bool.and_false, Bool.or_false]
    exact ⟨hcnt, hg ▸ hall, hbase⟩
  | false =>
    have hfree : base = false ∧ g.claims = 0 := by
      rw [hg, eq_comm, Bool.or_eq_false_iff, decide_eq_false_iff_not] at hall
      exact ⟨hall.1, by omega⟩
    obtain ⟨rfl, hzero⟩ := hfree
    refine ⟨hcnt, ?_, fun _ => hzero⟩
    simp [hzero]

/-! ## 4. No early revocation -/

/-- A request that claims the permission is counted in full. -/
def Counted (g : Grant) : Event → Prop
  | .ask n refs' => ¬ g.settled → refs' = g.refs + n
  | _ => True

/-- Every claim is counted, what is counted is allowed, and a holder relies only on what is
allowed and uncounted. -/
structure Backed (g : Grant) : Prop where
  claims_le : g.claims ≤ g.refs
  refs_allowed : 0 < g.refs → g.allowed = true
  needs_settled : 0 < g.needs → g.settled

/-- What a holder claims or relies on is allowed. -/
theorem Backed.allowed (hI : Backed g) (h : 0 < g.claims ∨ 0 < g.needs) : g.allowed = true := by
  rcases h with h | h
  · exact hI.refs_allowed (lt_of_lt_of_le h hI.claims_le)
  · exact (hI.needs_settled h).1

/-- While somebody needs it, the counter stands above one when another holder leaves. -/
theorem backed_step {e : Event} (hI : Backed g) (hP : Counted g e)
    (h : grants.step g e = some g') : Backed g' := by
  obtain ⟨hle, href, hneed⟩ := hI
  cases e with
  | ask n refs' =>
    rcases step_ask h with ⟨hs, rfl⟩ | ⟨hs, -, ha, hr, hc, hu⟩
    · exact ⟨hle, href, fun _ => hs⟩
    · have hr' : g'.refs = g.refs + n := hr.trans (hP hs)
      refine ⟨by omega, ?_, fun hpos => absurd (hneed (hu ▸ hpos)) hs⟩
      intro hpos
      rw [ha]
      by_cases h0 : g.refs = 0
      · simp [h0]; omega
      · rw [href (Nat.pos_of_ne_zero h0), Bool.true_or]
  | leave n u =>
    obtain ⟨hn, hun, ha, hr, hc, hu⟩ := step_leave h
    refine ⟨by omega, ?_, ?_⟩
    · intro hpos
      rw [ha, href (by omega), Bool.true_and, decide_eq_true_eq]
      omega
    · intro hpos
      -- a holder with a claim and another with a need cannot coexist
      have hset := hneed (by omega)
      have hn0 : n = 0 := by have := hset.2; omega
      exact ⟨by rw [ha, hset.1, hn0]; rfl, by rw [hr, hset.2, Nat.zero_sub]⟩
  | permit =>
    obtain rfl := step_permit h
    exact ⟨hle, fun _ => rfl, fun hpos => ⟨rfl, (hneed hpos).2⟩⟩

theorem backed_invariant : grants.Invariant Counted Backed where
  init g hg := by
    obtain ⟨hr, hc, hu⟩ := hg
    exact ⟨by omega, fun h => absurd h (by omega), fun h => absurd h (by omega)⟩
  step _ _ _ hI hP h := backed_step hI hP h

end CountedGrants
