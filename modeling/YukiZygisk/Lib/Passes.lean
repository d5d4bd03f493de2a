/-
# Passes over a table, with a log of what they write

A pass goes through a list of entries, and does one step for each, until a step fails.  A step
changes a state and logs what it writes; a step that fails may have changed the state too.
`reached` lists the entries a pass gets to, each with the state before its step.

`forall_writes_pass` is the rule: what holds of every write of every step that is reached holds of
every write of the pass, and conversely.  Steps need no reasoning about the whole run.

The use is for loops that write through checks, such as a relocation pass: to show that every write
is inside some bounds it is enough to show it for one step from any state that the pass can reach.
The log is in the order of the writes, and a failing step contributes what it wrote before it
failed.
-/
import Mathlib

namespace Passes

variable {α σ ω : Type*}

/-- How a step or a pass ends. -/
structure Outcome (σ ω : Type*) where
  ok : Bool
  state : σ
  writes : List ω

/-- A step that fails and writes nothing. -/
def Outcome.fail (s : σ) : Outcome σ ω := ⟨false, s, []⟩

/-- A step that succeeds and writes nothing. -/
def Outcome.done (s : σ) : Outcome σ ω := ⟨true, s, []⟩

/-- Go on when the first part succeeds. -/
def Outcome.andThen (o : Outcome σ ω) (f : σ → Outcome σ ω) : Outcome σ ω :=
  if o.ok then ⟨(f o.state).ok, (f o.state).state, o.writes ++ (f o.state).writes⟩ else o

/-- A step for each entry, until one fails. -/
def pass (f : α → σ → Outcome σ ω) : List α → σ → Outcome σ ω
  | [], s => .done s
  | a :: l, s => (f a s).andThen (pass f l)

/-- The entries that a pass gets to, each with the state before its step. -/
def reached (f : α → σ → Outcome σ ω) : List α → σ → List (α × σ)
  | [], _ => []
  | a :: l, s => (a, s) :: if (f a s).ok then reached f l (f a s).state else []

variable {f : α → σ → Outcome σ ω} {l : List α} {s : σ} {P : ω → Prop}

theorem forall_writes_fail : ∀ w ∈ (Outcome.fail s : Outcome σ ω).writes, P w :=
  fun _ h => absurd h List.not_mem_nil

theorem forall_writes_done : ∀ w ∈ (Outcome.done s : Outcome σ ω).writes, P w :=
  fun _ h => absurd h List.not_mem_nil

/-- The writes of two steps are those of the first, and those of the second if it is reached. -/
theorem forall_writes_andThen {o : Outcome σ ω} {g : σ → Outcome σ ω} :
    (∀ w ∈ (o.andThen g).writes, P w) ↔
      (∀ w ∈ o.writes, P w) ∧ (o.ok = true → ∀ w ∈ (g o.state).writes, P w) := by
  rw [Outcome.andThen]
  split_ifs with hok
  · simp only [List.mem_append, or_imp, forall_and, hok, true_imp_iff]
  · exact ⟨fun h => ⟨h, fun h' => absurd h' hok⟩, fun h => h.1⟩

/-- **The rule of passes.** -/
theorem forall_writes_pass :
    (∀ w ∈ (pass f l s).writes, P w) ↔
      ∀ p ∈ reached f l s, ∀ w ∈ (f p.1 p.2).writes, P w := by
  induction l generalizing s with
  | nil => exact iff_of_true forall_writes_done fun _ h => absurd h List.not_mem_nil
  | cons a l ih =>
    rw [pass, reached, forall_writes_andThen, List.forall_mem_cons]
    refine and_congr_right ?_
    intro _
    split_ifs with hok
    · simp only [hok, true_imp_iff, ih]
    · exact iff_of_true (fun h => absurd h hok) fun _ h => absurd h List.not_mem_nil

/-- What every step keeps to, a pass keeps to. -/
theorem forall_writes_of_step (h : ∀ a s, ∀ w ∈ (f a s).writes, P w) :
    ∀ w ∈ (pass f l s).writes, P w :=
  forall_writes_pass.2 fun p _ => h p.1 p.2

end Passes
