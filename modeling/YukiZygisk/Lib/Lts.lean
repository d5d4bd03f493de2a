/-
# Labelled transition systems with guarded runs

Every concurrent component of the development is one executable step function
`step : σ → α → Option σ`, where `none` says that the action is not enabled.  This file
fixes what a run of such a function is and proves the rules the rest uses:

* `Reach.invariant`: a predicate that holds initially and that every step preserves holds
  in every reachable state;
* `Path.preserve`: a predicate that every step out of a reachable state preserves survives
  along every later run;
* `Path.simulate`: a map that takes steps to runs of another system takes runs to runs.

All carry a GUARD `P : σ → α → Prop`, a condition on the state before a step and on its
action.  `Reach M P` is reachability by steps that all meet `P`; with the trivial guard
`anyStep` it is plain reachability.  A guard is how a theorem says "in every run in which
this window stays shut".  Nothing here mentions a particular system.

Concrete runs are lists of actions, executed with `exec`.  `exists_reach_of_exec` turns the
evaluation of such a list into a reachable state, and `exists_reach_of_guarded` does so for a guard
that is given as a test, which is evaluated along the run.  So a counterexample or a sample is one
list of actions and one evaluation.
-/
import Mathlib

/-- A labelled transition system given by an executable, partial step function. -/
structure Lts (σ α : Type*) where
  init : σ → Prop
  step : σ → α → Option σ

namespace Lts

variable {σ α : Type*} {M : Lts σ α} {P Q : σ → α → Prop} {I J : σ → Prop}

/-! ## 1. Guarded steps, runs and reachability -/

/-- The guard that forbids nothing. -/
def anyStep : σ → α → Prop := fun _ _ => True

/-- One step that meets the guard. -/
def Moves (M : Lts σ α) (P : σ → α → Prop) (s s' : σ) : Prop :=
  ∃ a, P s a ∧ M.step s a = some s'

/-- A run: any number of guarded steps. -/
def Path (M : Lts σ α) (P : σ → α → Prop) : σ → σ → Prop :=
  Relation.ReflTransGen (M.Moves P)

/-- The states that guarded runs reach from an initial state. -/
def Reach (M : Lts σ α) (P : σ → α → Prop) (s : σ) : Prop :=
  ∃ s₀, M.init s₀ ∧ M.Path P s₀ s

/-- A step under a guard is one under a weaker guard. -/
theorem Moves.mono (h : ∀ s a, P s a → Q s a) {s s' : σ} : M.Moves P s s' → M.Moves Q s s' :=
  fun ⟨a, hP, hs⟩ => ⟨a, h s a hP, hs⟩

theorem Path.mono (h : ∀ s a, P s a → Q s a) {s s' : σ} (hp : M.Path P s s') :
    M.Path Q s s' := by
  induction hp with
  | refl => exact .refl
  | tail _ hstep ih => exact ih.tail (hstep.mono h)

/-- What is reached under a guard is reached under a weaker one. -/
theorem Reach.mono (h : ∀ s a, P s a → Q s a) {s : σ} (hr : M.Reach P s) : M.Reach Q s := by
  obtain ⟨s₀, hi, hp⟩ := hr
  exact ⟨s₀, hi, hp.mono h⟩

theorem Reach.ofInit {s : σ} (hi : M.init s) : M.Reach P s := ⟨s, hi, .refl⟩

theorem Reach.path {s s' : σ} (hr : M.Reach P s) (hp : M.Path P s s') : M.Reach P s' := by
  obtain ⟨s₀, hi, hp₀⟩ := hr
  exact ⟨s₀, hi, hp₀.trans hp⟩

theorem Reach.step {s s' : σ} {a : α} (hr : M.Reach P s) (hP : P s a)
    (hs : M.step s a = some s') : M.Reach P s' :=
  hr.path (.single ⟨a, hP, hs⟩)

/-! ## 2. The invariant rules -/

/-- `I` holds initially and every guarded step out of a state with `I` keeps it. -/
structure Invariant (M : Lts σ α) (P : σ → α → Prop) (I : σ → Prop) : Prop where
  init : ∀ s, M.init s → I s
  step : ∀ s a s', I s → P s a → M.step s a = some s' → I s'

/-- **The invariant rule.**  An inductive predicate holds in every reachable state. -/
theorem Reach.invariant {s : σ} (hr : M.Reach P s) (h : M.Invariant P I) : I s := by
  obtain ⟨s₀, hi, hp⟩ := hr
  induction hp with
  | refl => exact h.init _ hi
  | tail _ hstep ih =>
    obtain ⟨a, hP, hs⟩ := hstep
    exact h.step _ a _ ih hP hs

/-- **The preservation rule.**  What every guarded step out of a reachable state preserves,
a run from a reachable state preserves. -/
theorem Path.preserve {s s' : σ} (hr : M.Reach P s) (hp : M.Path P s s')
    (h : ∀ t a t', M.Reach P t → J t → P t a → M.step t a = some t' → J t') (hJ : J s) :
    J s' := by
  induction hp with
  | refl => exact hJ
  | tail hp' hstep ih =>
    obtain ⟨a, hP, hs⟩ := hstep
    exact h _ a _ (hr.path hp') ih hP hs

/-- **The simulation rule.**  If `f` takes every guarded step out of a reachable state to a
run of `A`, it takes every run from a reachable state to a run of `A`. -/
theorem Path.simulate {τ β : Type*} {A : Lts τ β} {R : τ → β → Prop} {f : σ → τ} {s s' : σ}
    (hr : M.Reach P s) (hp : M.Path P s s')
    (h : ∀ t a t', M.Reach P t → P t a → M.step t a = some t' → A.Path R (f t) (f t')) :
    A.Path R (f s) (f s') := by
  induction hp with
  | refl => exact .refl
  | tail hp' hstep ih =>
    obtain ⟨a, hP, hs⟩ := hstep
    exact ih.trans (h _ a _ (hr.path hp') hP hs)

/-! ## 3. Concrete runs -/

/-- Run a list of actions in order. -/
def exec (M : Lts σ α) : σ → List α → Option σ
  | s, [] => some s
  | s, a :: as => (M.step s a).bind (M.exec · as)

/-- An executed list of actions that always meet the guard is a guarded run. -/
theorem path_of_exec : ∀ (as : List α) (s s' : σ), (∀ a ∈ as, ∀ t, P t a) →
    M.exec s as = some s' → M.Path P s s'
  | [], s, s', _, h => by
    obtain rfl : s = s' := by simpa [exec] using h
    exact .refl
  | a :: as, s, s', hP, h => by
    obtain ⟨t, ht, hrest⟩ := Option.bind_eq_some_iff.mp h
    exact .head ⟨a, hP a (List.mem_cons_self ..) s, ht⟩
      (path_of_exec as t s' (fun b hb => hP b (List.mem_cons_of_mem _ hb)) hrest)

/-- **Reading a concrete run off its evaluation.**  If `as` leads from an initial state to a
state that passes `p`, and `bs` leads on from there to one that passes `q`, then a reachable
state passes `p` and has a run to a state that passes `q`. -/
theorem exists_path_of_exec {s : σ} (hi : M.init s) (as bs : List α) (p q : σ → Bool)
    (h : (M.exec s as).any (fun t => p t && (M.exec t bs).any q) = true) :
    ∃ t t', M.Reach anyStep t ∧ M.Path anyStep t t' ∧ p t = true ∧ q t' = true := by
  obtain ⟨t, ht, h'⟩ := (Option.any_eq_true _ _).mp h
  obtain ⟨hp, hq⟩ := Bool.and_eq_true_iff.mp h'
  obtain ⟨t', ht', hq'⟩ := (Option.any_eq_true _ _).mp hq
  exact ⟨t, t', ⟨s, hi, path_of_exec as s t (fun _ _ _ => trivial) ht⟩,
    path_of_exec bs t t' (fun _ _ _ => trivial) ht', hp, hq'⟩

/-- The same for one state: if `as` leads to a state that passes `p`, a reachable state
does. -/
theorem exists_reach_of_exec {s : σ} (hi : M.init s) (as : List α) (p : σ → Bool)
    (h : (M.exec s as).any p = true) : ∃ t, M.Reach anyStep t ∧ p t = true := by
  obtain ⟨t, ht, hp⟩ := (Option.any_eq_true _ _).mp h
  exact ⟨t, ⟨s, hi, path_of_exec as s t (fun _ _ _ => trivial) ht⟩, hp⟩

/-- The system without the steps that fail a test. -/
def restrict (M : Lts σ α) (g : σ → α → Bool) : Lts σ α where
  init := M.init
  step s a := if g s a then M.step s a else none

/-- A run of the system with the guard built in is a guarded run. -/
theorem path_of_restrict {g : σ → α → Bool} (hg : ∀ s a, g s a = true → P s a) {s s' : σ}
    (hp : (M.restrict g).Path anyStep s s') : M.Path P s s' := by
  induction hp with
  | refl => exact .refl
  | tail _ hstep ih =>
    obtain ⟨a, -, hs⟩ := hstep
    simp only [restrict] at hs
    split_ifs at hs with hga
    exact ih.tail ⟨a, hg _ a hga, hs⟩

/-- **Reading a guarded run off its evaluation**, with a test of the guard at every step. -/
theorem exists_reach_of_guarded {g : σ → α → Bool} (hg : ∀ s a, g s a = true → P s a) {s : σ}
    (hi : M.init s) (as : List α) (p : σ → Bool)
    (h : ((M.restrict g).exec s as).any p = true) : ∃ t, M.Reach P t ∧ p t = true := by
  obtain ⟨t, ht, hp⟩ := (Option.any_eq_true _ _).mp h
  have hpath := path_of_exec (M := M.restrict g) as s t (fun _ _ _ => trivial) ht
  exact ⟨t, ⟨s, hi, path_of_restrict hg hpath⟩, hp⟩

/-- The same for a run that goes on. -/
theorem exists_path_of_guarded {g : σ → α → Bool} (hg : ∀ s a, g s a = true → P s a) {s : σ}
    (as bs : List α) (p q : σ → Bool)
    (h : ((M.restrict g).exec s as).any
      (fun t => p t && ((M.restrict g).exec t bs).any q) = true) :
    ∃ t t', M.Path P s t ∧ M.Path P t t' ∧ p t = true ∧ q t' = true := by
  obtain ⟨t, ht, h'⟩ := (Option.any_eq_true _ _).mp h
  obtain ⟨hp, hq⟩ := Bool.and_eq_true_iff.mp h'
  obtain ⟨t', ht', hq'⟩ := (Option.any_eq_true _ _).mp hq
  have hpath := path_of_exec (M := M.restrict g) as s t (fun _ _ _ => trivial) ht
  have hpath' := path_of_exec (M := M.restrict g) bs t t' (fun _ _ _ => trivial) ht'
  exact ⟨t, t', path_of_restrict hg hpath, path_of_restrict hg hpath', hp, hq'⟩

end Lts
