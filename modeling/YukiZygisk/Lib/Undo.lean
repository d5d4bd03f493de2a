/-
# Changes that save what they overwrite

A change to a memory saves what its window held, and is undone by writing that back.  Undoing the
changes that are in place, the last one first, gives the memory from before them (`undoAll`).  A
new change does not alter that memory (`undoAll_install`), and **undoing a change early does not
either, if no later change that is in place touches its window** (`undoAll_remove`).

A record `Saved` has a window and what was there.  `restore_eq` says that restoring twice is
restoring once, and `restore_comm` that two restores with disjoint windows can be exchanged.
Everything else is an induction on the changes: undoing one in the middle is moved past the later
ones, with which it commutes, to the place where it belongs.  Where a later change does touch the
window, the exchange fails and the memory is not what it was: that is a property of the code that
uses this, not of the order in which it is proved.
-/
import Mathlib

namespace Undo

variable {α β : Type*}

/-- A window of a memory, and what was in it. -/
structure Saved (α β : Type*) where
  window : Set α
  value : α → β

open Classical in
/-- Writes back what was saved. -/
noncomputable def Saved.restore (r : Saved α β) (m : α → β) : α → β :=
  r.window.piecewise r.value m

/-- Undoes the changes, the last one first. -/
noncomputable def undoAll (l : List (Saved α β)) (m : α → β) : α → β := l.foldr Saved.restore m

variable {r q : Saved α β} {l l' : List (Saved α β)} {m m' : α → β} {a : α}

/-- In the window the saved value comes back. -/
theorem restore_of_mem (h : a ∈ r.window) : r.restore m a = r.value a := by
  classical exact Set.piecewise_eq_of_mem _ _ _ h

theorem restore_of_notMem (h : a ∉ r.window) : r.restore m a = m a := by
  classical exact Set.piecewise_eq_of_notMem _ _ _ h

/-- What was saved is what is there after it is written back. -/
theorem restore_eq (hsaved : ∀ a ∈ r.window, r.value a = m a) (hsame : ∀ a ∉ r.window, m' a = m a) :
    r.restore m' = m := by
  funext a
  by_cases ha : a ∈ r.window
  · rw [restore_of_mem ha, hsaved a ha]
  · rw [restore_of_notMem ha, hsame a ha]

/-- Changes whose windows do not meet are undone in either order. -/
theorem restore_comm (h : Disjoint r.window q.window) (m : α → β) :
    r.restore (q.restore m) = q.restore (r.restore m) := by
  funext a
  by_cases ha : a ∈ r.window
  · have hq : a ∉ q.window := Set.disjoint_left.mp h ha
    rw [restore_of_mem ha, restore_of_notMem hq, restore_of_mem ha]
  · by_cases hq : a ∈ q.window
    · rw [restore_of_notMem ha, restore_of_mem hq, restore_of_mem hq]
    · rw [restore_of_notMem ha, restore_of_notMem hq, restore_of_notMem hq, restore_of_notMem ha]

/-- The changes of two lists are undone one list after the other. -/
theorem undoAll_append (l l' : List (Saved α β)) (m : α → β) :
    undoAll (l ++ l') m = undoAll l (undoAll l' m) := List.foldr_append

/-- **A new change leaves the memory from before all changes as it was.** -/
theorem undoAll_install (hsaved : ∀ a ∈ r.window, r.value a = m a)
    (hsame : ∀ a ∉ r.window, m' a = m a) : undoAll (l ++ [r]) m' = undoAll l m := by
  rw [undoAll_append]
  exact congrArg (undoAll l) (restore_eq hsaved hsame)

/-- A restore that touches no window is exchanged with all of them. -/
theorem undoAll_restore (h : ∀ q ∈ l, Disjoint r.window q.window) (m : α → β) :
    undoAll l (r.restore m) = r.restore (undoAll l m) := by
  induction l with
  | nil => rfl
  | cons q l ih =>
    have hl := ih fun p hp => h p (List.mem_cons_of_mem q hp)
    calc undoAll (q :: l) (r.restore m) = q.restore (r.restore (undoAll l m)) :=
          congrArg q.restore hl
      _ = r.restore (q.restore (undoAll l m)) := (restore_comm (h q List.mem_cons_self) _).symm

/-- **Undoing a change that no later one touches leaves the memory from before all changes as it
was.** -/
theorem undoAll_remove (h : ∀ q ∈ l', Disjoint r.window q.window) :
    undoAll (l ++ l') (r.restore m) = undoAll (l ++ r :: l') m := by
  rw [undoAll_append, undoAll_append, undoAll_restore h]
  rfl

end Undo
