/-
# Ledgers of acquired and released resources

A call that acquires resources and gives them back leaves a LOG of what it did.  `run` replays a
log from what is held at first.  It fails when the log releases something that is not held, so
`Settled log`, which says that the replay from nothing ends with nothing, means that each resource
was released as often as it was acquired and none too early.

Replaying is compositional (`run_append`), so a log is checked stage by stage.

A log is an ordered list of events, and what is held is a multiset, so a resource that was acquired
twice is held twice.  Most logs of a program have a simple shape: some resources are acquired, then
all are released.  For that shape settling is a statement about lists: the log settles exactly when
what is released is a permutation of what was acquired (`settled_iff_perm`).  A stage that gives
back all that it takes does not change what is held (`run_borrow`), and so such stages can be put in
anywhere.
-/
import Mathlib

namespace Ledger

variable {ρ : Type*} [DecidableEq ρ]

/-- One entry of a log. -/
inductive Event (ρ : Type*)
  | acquire (r : ρ)
  | release (r : ρ)
  deriving DecidableEq

/-- What is held after a log. -/
def run : Multiset ρ → List (Event ρ) → Option (Multiset ρ)
  | held, [] => some held
  | held, .acquire r :: log => run (r ::ₘ held) log
  | held, .release r :: log => if r ∈ held then run (held.erase r) log else none

/-- Everything acquired was released, and nothing else. -/
def Settled (log : List (Event ρ)) : Prop := run 0 log = some 0

instance (log : List (Event ρ)) : Decidable (Settled log) := inferInstanceAs (Decidable (_ = _))

variable {held : Multiset ρ} {log log' : List (Event ρ)} {r : ρ}

@[simp] theorem run_nil : run held [] = some held := rfl

@[simp] theorem run_acquire : run held (.acquire r :: log) = run (r ::ₘ held) log := rfl

@[simp] theorem run_release_held : run (r ::ₘ held) (.release r :: log) = run held log := by
  rw [run, if_pos (Multiset.mem_cons_self r held), Multiset.erase_cons_head]

theorem run_release_of_notMem (h : r ∉ held) : run held (.release r :: log) = none := by
  rw [run, if_neg h]

/-- **Replaying is compositional.** -/
theorem run_append : run held (log ++ log') = (run held log).bind (run · log') := by
  induction log generalizing held with
  | nil => rfl
  | cons e log ih =>
    cases e with
    | acquire r => exact ih
    | release r =>
      rw [List.cons_append, run, run]
      split_ifs
      · exact ih
      · rfl

/-- A list of resources is acquired one by one. -/
theorem run_acquires (l : List ρ) : run held (l.map .acquire) = some ((l : Multiset ρ) + held) := by
  induction l generalizing held with
  | nil => simp
  | cons r l ih =>
    rw [List.map_cons, run_acquire, ih, ← Multiset.cons_coe, Multiset.cons_add,
      Multiset.add_cons]

/-- A list of held resources is released one by one. -/
theorem run_releases (l : List ρ) : run ((l : Multiset ρ) + held) (l.map .release) = some held := by
  induction l with
  | nil => simp
  | cons r l ih => rw [List.map_cons, ← Multiset.cons_coe, Multiset.cons_add, run_release_held, ih]

/-- What could be released was held. -/
theorem held_of_run_releases {rest : Multiset ρ} (l : List ρ)
    (h : run held (l.map .release) = some rest) : held = (l : Multiset ρ) + rest := by
  induction l generalizing held with
  | nil =>
    rw [Multiset.coe_nil, zero_add]
    exact Option.some.inj h
  | cons r l ih =>
    rw [List.map_cons, run] at h
    split_ifs at h with hr
    rw [← Multiset.cons_erase hr, ih h, ← Multiset.cons_coe, Multiset.cons_add]

/-- **What is released is what was acquired.** -/
theorem settled_iff_perm {l l' : List ρ} :
    Settled (l.map .acquire ++ l'.map .release) ↔ l.Perm l' := by
  rw [Settled, run_append, run_acquires, add_zero, Option.bind_some]
  constructor
  · intro h
    have hheld := held_of_run_releases l' h
    rw [add_zero] at hheld
    exact Multiset.coe_eq_coe.mp hheld
  · intro h
    have hsame : (l : Multiset ρ) = l' := Multiset.coe_eq_coe.mpr h
    have hrun : run ((l' : Multiset ρ) + 0) (l'.map .release) = some 0 := run_releases l'
    rwa [add_zero, ← hsame] at hrun

/-- What is held can be given back and taken again. -/
theorem run_borrow (h : r ∈ held) : run held [.release r, .acquire r] = some held := by
  rw [run, if_pos h, run_acquire, Multiset.cons_erase h, run_nil]

/-- So can each of a list of held resources in turn. -/
theorem run_borrows (l : List ρ) (h : ∀ r ∈ l, r ∈ held) :
    run held (l.flatMap fun r => [.release r, .acquire r]) = some held := by
  induction l with
  | nil => rfl
  | cons r l ih =>
    rw [List.flatMap_cons, run_append, run_borrow (h r (List.mem_cons_self ..))]
    exact ih fun r' hr' => h r' (List.mem_cons_of_mem _ hr')

end Ledger
