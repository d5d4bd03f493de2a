/-
# A rendezvous whose last party acts

`n + 1` parties meet over one counter.  Each increments it once.  The party whose increment makes it
`n + 1` carries out a program on a shared state, step by step, and increments the counter again; the
others wait until the counter is above `n + 1`.

The parties take their steps in any order.  While one acts, every other one waits
(`Met.others_wait`), so whoever is not waiting sees the shared state before the program or after it,
never in between (`Met.seen`).  Every step lowers `rank`, and a state in which nobody can move is
one that everybody has left (`Met.moves`): every maximal run ends, with the program carried out
exactly once.

The invariant `Met` has three stages: parties are still arriving, the last one acts, or the program
is done and parties leave.  Each says what the counter is and which phases are possible; `met_move`
goes through the steps.  The bound is the sum of what each party has still to do (`rank`), which any
step lowers by one party's step.  That a state without a move is one that everybody has left is
again by the stages: before the last party arrives somebody can arrive, the acting one can always
act, and then nobody waits any more.
-/
import Mathlib
import YukiZygisk.Lib.Lts

namespace Rendezvous

/-! ## 1. The parties -/

/-- Where a party is: not there yet, waiting, about to carry out step `k` of the program, or
gone. -/
inductive Phase where
  | outside
  | waiting
  | acting (k : Nat)
  | done
  deriving DecidableEq

variable {τ : Type*} {n : Nat}

structure State (n : Nat) (τ : Type*) where
  count : Nat
  phase : Fin (n + 1) → Phase
  shared : τ

/-- Party `i` moves on.  A party that waits cannot move before the counter lets it go. -/
def move (program : List (τ → τ)) (s : State n τ) (i : Fin (n + 1)) : Option (State n τ) :=
  match s.phase i with
  | .outside =>
    some { s with
      count := s.count + 1
      phase := Function.update s.phase i (if s.count + 1 = n + 1 then .acting 0 else .waiting) }
  | .waiting =>
    if n + 1 < s.count then some { s with phase := Function.update s.phase i .done } else none
  | .acting k =>
    match program[k]? with
    | some f =>
      some { s with shared := f s.shared, phase := Function.update s.phase i (.acting (k + 1)) }
    | none => some { s with count := s.count + 1, phase := Function.update s.phase i .done }
  | .done => none

/-- The meeting, from a shared state. -/
def meeting (program : List (τ → τ)) (start : τ) : Lts (State n τ) (Fin (n + 1)) where
  init s := s = ⟨0, fun _ => .outside, start⟩
  step := move program

/-- The shared state after the first `k` steps of the program. -/
def after (program : List (τ → τ)) (k : Nat) (start : τ) : τ :=
  (program.take k).foldl (fun t f => f t) start

theorem after_succ {program : List (τ → τ)} {k : Nat} {f : τ → τ} (h : program[k]? = some f)
    (start : τ) : after program (k + 1) start = f (after program k start) := by
  rw [after, List.take_add_one, h, List.foldl_append]
  rfl

/-! ## 2. The three stages of a meeting -/

/-- How many parties are not there yet. -/
def absent (s : State n τ) : Nat := (Finset.univ.filter fun i => s.phase i = .outside).card

/-- What holds in every state of a meeting: the parties gather, or one acts while the others wait,
or they leave. -/
inductive Met (program : List (τ → τ)) (start : τ) (s : State n τ) : Prop where
  | gathering (hcount : s.count + absent s = n + 1) (hleft : 0 < absent s)
      (hphase : ∀ i, s.phase i = .outside ∨ s.phase i = .waiting) (hshared : s.shared = start)
  | acting (i : Fin (n + 1)) (k : Nat) (hcount : s.count = n + 1) (hi : s.phase i = .acting k)
      (hk : k ≤ program.length) (hothers : ∀ j, j ≠ i → s.phase j = .waiting)
      (hshared : s.shared = after program k start)
  | leaving (hcount : s.count = n + 2) (hphase : ∀ i, s.phase i = .waiting ∨ s.phase i = .done)
      (hshared : s.shared = after program program.length start)

variable {program : List (τ → τ)} {start : τ} {s s' : State n τ} {i j : Fin (n + 1)}

theorem met_init : Met program start (⟨0, fun _ => .outside, start⟩ : State n τ) := by
  apply Met.gathering
  · simp [absent]
  · simp [absent]
  · exact fun _ => .inl rfl
  · rfl

/-- An arrival leaves one party fewer to wait for. -/
theorem absent_update {c : Nat} {p : Phase} {t : τ} (hi : s.phase i = .outside)
    (hp : p ≠ .outside) : absent (⟨c, Function.update s.phase i p, t⟩ : State n τ) + 1 = absent s := by
  have herase : (Finset.univ.filter fun j => Function.update s.phase i p j = .outside) =
      (Finset.univ.filter fun j => s.phase j = .outside).erase i := by
    ext j
    by_cases hj : j = i
    · subst hj
      simp [hp]
    · simp [hj]
  have hmem : i ∈ Finset.univ.filter fun j => s.phase j = .outside := by simp [hi]
  rw [absent, absent, herase, Finset.card_erase_of_mem hmem]
  have := Finset.card_pos.mpr ⟨i, hmem⟩
  omega

/-- Without an absent party nobody is outside. -/
theorem not_outside (h : absent s = 0) (i : Fin (n + 1)) : s.phase i ≠ .outside := by
  intro hi
  have := Finset.card_eq_zero.mp h
  have hmem : i ∈ Finset.univ.filter fun j => s.phase j = .outside := by simp [hi]
  rw [this] at hmem
  simp at hmem

theorem met_move (h : Met program start s) (hm : move program s i = some s') :
    Met program start s' := by
  cases h with
  | gathering hcount hleft hphase hshared =>
    obtain hi | hi := hphase i
    · simp only [move, hi, Option.some.injEq] at hm
      subst hm
      by_cases hlast : s.count + 1 = n + 1
      · rw [if_pos hlast]
        have habs := absent_update (c := s.count + 1) (p := .acting 0) (t := s.shared) hi (by simp)
        have hzero : absent (⟨s.count + 1, Function.update s.phase i (.acting 0), s.shared⟩ :
            State n τ) = 0 := by omega
        apply Met.acting i 0 hlast
        · simp
        · omega
        · intro j hj
          have hout := not_outside hzero j
          simp only [Function.update_of_ne hj] at hout ⊢
          exact (hphase j).resolve_left hout
        · rw [hshared]
          rfl
      · rw [if_neg hlast]
        have habs := absent_update (c := s.count + 1) (p := .waiting) (t := s.shared) hi (by simp)
        apply Met.gathering
        · simp only
          omega
        · omega
        · intro j
          by_cases hj : j = i
          · subst hj
            simp
          · simpa [hj] using hphase j
        · exact hshared
    · simp only [move, hi] at hm
      split_ifs at hm
      omega
  | acting a k hcount ha hk hothers hshared =>
    by_cases hi : i = a
    · subst hi
      cases hf : program[k]? with
      | some f =>
        simp only [move, ha, hf, Option.some.injEq] at hm
        subst hm
        apply Met.acting i (k + 1)
        · exact hcount
        · simp
        · exact (List.getElem?_eq_some_iff.mp hf).1
        · intro j hj
          simp only [Function.update_of_ne hj]
          exact hothers j hj
        · rw [after_succ hf, hshared]
      | none =>
        simp only [move, ha, hf, Option.some.injEq] at hm
        subst hm
        apply Met.leaving
        · simp only
          omega
        · intro j
          by_cases hj : j = i
          · subst hj
            simp
          · left
            simpa [hj] using hothers j hj
        · have hlen := List.getElem?_eq_none_iff.mp hf
          rw [hshared, show k = program.length by omega]
    · simp only [move, hothers i hi] at hm
      split_ifs at hm
      omega
  | leaving hcount hphase hshared =>
    obtain hi | hi := hphase i
    · simp only [move, hi] at hm
      split_ifs at hm
      obtain rfl := Option.some.inj hm
      apply Met.leaving
      · exact hcount
      · intro j
        by_cases hj : j = i
        · subst hj
          simp
        · simpa [hj] using hphase j
      · exact hshared
    · simp [move, hi] at hm

theorem met_invariant (P : State n τ → Fin (n + 1) → Prop) :
    (meeting program start).Invariant P (Met program start) where
  init s hs := by
    obtain rfl := hs
    exact met_init
  step _ _ _ h _ hm := met_move h hm

/-! ## 3. Nobody sees the program half done -/

/-- While a party acts, every other one waits. -/
theorem Met.others_wait (h : Met program start s) {k : Nat} (hi : s.phase i = .acting k)
    (hj : j ≠ i) : s.phase j = .waiting := by
  cases h with
  | gathering _ _ hphase _ =>
    obtain hi' | hi' := hphase i <;> simp [hi] at hi'
  | acting a _ _ _ _ hothers _ =>
    obtain rfl : i = a := by
      by_contra hne
      simp [hothers i hne] at hi
    exact hothers j hj
  | leaving _ hphase _ =>
    obtain hi' | hi' := hphase i <;> simp [hi] at hi'

/-- **A party that has not come or has gone sees the program undone or done**: undone before it
comes, done after it has gone. -/
theorem Met.seen (h : Met program start s) : (s.phase i = .outside → s.shared = start) ∧
    (s.phase i = .done → s.shared = after program program.length start) := by
  cases h with
  | gathering _ _ hphase hshared =>
    constructor
    · exact fun _ => hshared
    · intro hi
      obtain hi' | hi' := hphase i <;> simp [hi] at hi'
  | acting a k _ ha _ hothers _ =>
    constructor
    all_goals
      intro hi
      by_cases hia : i = a
      · subst hia
        simp [ha] at hi
      · simp [hothers i hia] at hi
  | leaving _ hphase hshared =>
    constructor
    · intro hi
      obtain hi' | hi' := hphase i <;> simp [hi] at hi'
    · exact fun _ => hshared

/-! ## 4. Everybody leaves -/

/-- How many steps a party can still take. -/
def Phase.rank (length : Nat) : Phase → Nat
  | .outside => length + 2
  | .waiting => 1
  | .acting k => length - k + 1
  | .done => 0

def rank (program : List (τ → τ)) (s : State n τ) : Nat :=
  ∑ i, (s.phase i).rank program.length

theorem rank_update {p : Phase} {c : Nat} {t : τ}
    (h : p.rank program.length < (s.phase i).rank program.length) :
    rank program (⟨c, Function.update s.phase i p, t⟩ : State n τ) < rank program s := by
  apply Finset.sum_lt_sum
  · intro j _
    by_cases hj : j = i
    · subst hj
      simpa using h.le
    · simp [hj]
  · exact ⟨i, Finset.mem_univ i, by simpa using h⟩

/-- **Every step brings the end nearer.** -/
theorem rank_move (hm : move program s i = some s') : rank program s' < rank program s := by
  cases hi : s.phase i with
  | outside =>
    simp only [move, hi, Option.some.injEq] at hm
    subst hm
    apply rank_update
    rw [hi]
    split_ifs <;> simp [Phase.rank]
  | waiting =>
    simp only [move, hi] at hm
    split_ifs at hm
    obtain rfl := Option.some.inj hm
    apply rank_update
    simp [hi, Phase.rank]
  | acting k =>
    cases hf : program[k]? with
    | some f =>
      simp only [move, hi, hf, Option.some.injEq] at hm
      subst hm
      have := (List.getElem?_eq_some_iff.mp hf).1
      apply rank_update
      rw [hi]
      simp only [Phase.rank]
      omega
    | none =>
      simp only [move, hi, hf, Option.some.injEq] at hm
      subst hm
      apply rank_update
      simp [hi, Phase.rank]
  | done => simp [move, hi] at hm

/-- A run is no longer than the rank of the state it starts in. -/
theorem length_exec {as : List (Fin (n + 1))} (h : (meeting program start).exec s as = some s') :
    as.length + rank program s' ≤ rank program s := by
  induction as generalizing s with
  | nil =>
    obtain rfl : s = s' := by simpa [Lts.exec] using h
    simp
  | cons a as ih =>
    obtain ⟨t, ht, hrest⟩ := Option.bind_eq_some_iff.mp h
    have := ih hrest
    have := rank_move ht
    simp only [List.length_cons]
    omega

/-- **Somebody can move until everybody has gone.** -/
theorem Met.moves (h : Met program start s) (hstuck : ∀ i, move program s i = none) :
    ∀ i, s.phase i = .done := by
  cases h with
  | gathering hcount hleft hphase _ =>
    obtain ⟨i, hi⟩ := Finset.card_pos.mp hleft
    have hout : s.phase i = .outside := by simpa using hi
    have := hstuck i
    simp [move, hout] at this
  | acting a k _ ha _ _ _ =>
    have hmove := hstuck a
    cases hf : program[k]? <;> simp [move, ha, hf] at hmove
  | leaving hcount hphase _ =>
    intro i
    obtain hi | hi := hphase i
    · have hmove := hstuck i
      simp only [move, hi] at hmove
      rw [if_pos (by omega)] at hmove
      cases hmove
    · exact hi

end Rendezvous
