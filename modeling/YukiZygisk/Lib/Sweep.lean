/-
# Sweeping tagged intervals

Half-open intervals with tags, in the order of their starts, are made disjoint in one pass: an
interval is clipped to what is behind the last one, is dropped when nothing is left of it, and is
merged with the last one when it continues it with the same tag.

**The pass keeps the union** (`union_sweep`).  What it needs of the order is that nothing between the
start of the interval at hand and the end of the last one is uncovered (`Covers`), which the next
start, being no smaller, inherits.  The result is sorted and disjoint whatever the order is
(`pairwise_sweep`), and every point has the tag of some interval that it comes from (`tag_sweep`).

The pass is a fold with a stack of disjoint intervals, and its invariant has two parts.  `Separated`
says that the stack is sorted and disjoint, and clipping alone makes it so (`Separated.add`): no
order is used.  `Covers` says that there is no gap between a point and the end of the stack's top,
for the point where the next interval starts; that is where the order of the starts comes in
(`Covers.add`), since the clipped part must have been covered already.  The union and the tags then
follow step by step.
-/
import Mathlib

namespace Sweep

variable {α τ : Type*} [LinearOrder α]

/-! ## 1. Intervals -/

/-- The points from `start` to before `stop`. -/
structure Interval (α τ : Type*) where
  start : α
  stop : α
  tag : τ
  deriving DecidableEq

def Interval.range (r : Interval α τ) : Set α := Set.Ico r.start r.stop

/-- The points of some interval. -/
def union (l : List (Interval α τ)) : Set α := {x | ∃ r ∈ l, x ∈ r.range}

/-- The part of an interval behind the last one. -/
def clip (out : List (Interval α τ)) (r : Interval α τ) : Interval α τ :=
  match out with
  | [] => r
  | last :: _ => if r.start < last.stop then { r with start := last.stop } else r

variable {out l : List (Interval α τ)} {r : Interval α τ} {x : α}

@[simp] theorem union_nil : union ([] : List (Interval α τ)) = ∅ := by
  simp [union]

@[simp] theorem union_cons : union (r :: l) = r.range ∪ union l := by
  ext x
  simp [union]

@[simp] theorem union_append (l l' : List (Interval α τ)) : union (l ++ l') = union l ∪ union l' := by
  ext x
  simp [union, or_and_right, exists_or]

theorem union_congr {l l' : List (Interval α τ)} (h : ∀ r, r ∈ l ↔ r ∈ l') :
    union l = union l' := by
  ext x
  simp [union, h]

@[simp] theorem clip_stop : (clip out r).stop = r.stop := by
  unfold clip
  split
  · rfl
  · split_ifs <;> rfl

@[simp] theorem clip_tag : (clip out r).tag = r.tag := by
  unfold clip
  split
  · rfl
  · split_ifs <;> rfl

theorem start_le_clip : r.start ≤ (clip out r).start := by
  unfold clip
  split
  · exact le_rfl
  · split_ifs with h
    · exact h.le
    · exact le_rfl

theorem clip_subset : (clip out r).range ⊆ r.range :=
  Set.Ico_subset_Ico start_le_clip clip_stop.le

/-- What is clipped starts behind the last interval. -/
theorem stop_le_clip {last : Interval α τ} : last.stop ≤ (clip (last :: l) r).start := by
  simp only [clip]
  split_ifs with h
  · exact le_rfl
  · exact not_lt.mp h

/-- Nonempty intervals, each behind the ones after it in the list. -/
structure Separated (out : List (Interval α τ)) : Prop where
  apart : out.Pairwise fun later earlier => earlier.stop ≤ later.start
  nonempty : ∀ r ∈ out, r.start < r.stop

/-- The next interval may begin where the last one ends. -/
theorem Separated.push (h : Separated out) (hr : r.start < r.stop)
    (hlast : ∀ last ∈ out.head?, last.stop ≤ r.start) : Separated (r :: out) := by
  have hbehind : ∀ a ∈ out, a.stop ≤ r.start := by
    intro a ha
    cases out with
    | nil => cases ha
    | cons last rest =>
      have hstop : last.stop ≤ r.start := hlast last rfl
      rcases List.mem_cons.mp ha with rfl | ha
      · exact hstop
      · have hbefore := (List.pairwise_cons.mp h.apart).1 a ha
        exact hbefore.trans ((h.nonempty last (List.mem_cons_self ..)).le.trans hstop)
  constructor
  · exact List.pairwise_cons.mpr ⟨hbehind, h.apart⟩
  · rintro a (_ | ⟨_, ha⟩)
    · exact hr
    · exact h.nonempty a ha

/-- Nothing is uncovered between a point and the end of the last interval. -/
def Covers (out : List (Interval α τ)) (p : α) : Prop :=
  ∀ last ∈ out.head?, Set.Ico p last.stop ⊆ union out

theorem Covers.mono {p q : α} (h : Covers out p) (hpq : p ≤ q) : Covers out q := fun last hlast =>
  (Set.Ico_subset_Ico_left hpq).trans (h last hlast)

/-- What is clipped off is covered. -/
theorem Covers.range_subset (h : Covers out r.start) : r.range ⊆ union out ∪ (clip out r).range := by
  rintro x ⟨hstart, hstop⟩
  rcases out with - | ⟨last, rest⟩
  · exact .inr ⟨hstart, hstop⟩
  · by_cases hx : x < last.stop
    · exact .inl (h last rfl ⟨hstart, hx⟩)
    · refine .inr ⟨?_, by rwa [clip_stop]⟩
      simp only [clip]
      split_ifs
      · exact not_lt.mp hx
      · exact hstart

/-! ## 2. The pass -/

variable [DecidableEq τ]

/-- One interval, with those before it, the last first. -/
def add (out : List (Interval α τ)) (r : Interval α τ) : List (Interval α τ) :=
  match out with
  | [] => if r.stop ≤ r.start then [] else [r]
  | last :: rest =>
    let r := if r.start < last.stop then { r with start := last.stop } else r
    if r.stop ≤ r.start then last :: rest
    else if last.stop = r.start ∧ last.tag = r.tag then { last with stop := r.stop } :: rest
    else r :: last :: rest

/-- The pass over a list. -/
def sweep (l : List (Interval α τ)) : List (Interval α τ) := (l.foldl add []).reverse

/-- **The turns of the pass.**  Nothing is left of the interval, or it continues the last one, or it
is a new one. -/
theorem add_cases (out : List (Interval α τ)) (r : Interval α τ) :
    (add out r = out ∧ (clip out r).stop ≤ (clip out r).start) ∨
    (∃ last rest, out = last :: rest ∧ last.stop = (clip out r).start ∧ last.tag = r.tag ∧
      (clip out r).start < r.stop ∧ add out r = { last with stop := r.stop } :: rest) ∨
    ((clip out r).start < r.stop ∧ add out r = clip out r :: out) := by
  rcases out with - | ⟨last, rest⟩
  · by_cases h : r.stop ≤ r.start
    · exact .inl ⟨if_pos h, h⟩
    · exact .inr (.inr ⟨not_le.mp h, if_neg h⟩)
  · have hadd : add (last :: rest) r =
        if (clip (last :: rest) r).stop ≤ (clip (last :: rest) r).start then last :: rest
        else if last.stop = (clip (last :: rest) r).start ∧ last.tag = (clip (last :: rest) r).tag
        then { last with stop := (clip (last :: rest) r).stop } :: rest
        else clip (last :: rest) r :: last :: rest := rfl
    rw [hadd]
    split_ifs with hempty hmerge
    · exact .inl ⟨rfl, hempty⟩
    · rw [clip_stop] at hempty ⊢
      rw [clip_tag] at hmerge
      exact .inr (.inl ⟨last, rest, rfl, hmerge.1, hmerge.2, not_le.mp hempty, rfl⟩)
    · rw [clip_stop] at hempty
      exact .inr (.inr ⟨not_le.mp hempty, rfl⟩)

/-- One interval more keeps the stack disjoint. -/
theorem Separated.add (h : Separated out) : Separated (add out r) := by
  obtain ⟨heq, -⟩ | ⟨last, rest, rfl, hstop, -, hlt, heq⟩ | ⟨hlt, heq⟩ := add_cases out r
  · rwa [heq]
  · rw [heq]
    refine ⟨List.pairwise_cons.mpr (List.pairwise_cons.mp h.apart), ?_⟩
    rintro a (_ | ⟨_, ha⟩)
    · exact (h.nonempty last (List.mem_cons_self ..)).trans (hstop.trans_lt hlt)
    · exact h.nonempty a (List.mem_cons_of_mem _ ha)
  · rw [heq]
    apply h.push (by rwa [clip_stop])
    intro last hlast
    obtain ⟨rest, rfl⟩ := List.head?_eq_some_iff.mp hlast
    exact stop_le_clip

theorem Separated.foldl (h : Separated out) : Separated (l.foldl Sweep.add out) := by
  induction l generalizing out with
  | nil => exact h
  | cons r l ih => exact ih h.add

/-- The result is disjoint, in whatever order the intervals come. -/
theorem separated_sweep (l : List (Interval α τ)) : Separated (l.foldl add []) :=
  Separated.foldl ⟨.nil, by simp⟩

/-- **Sorted and disjoint.** -/
theorem pairwise_sweep (l : List (Interval α τ)) :
    (sweep l).Pairwise fun a b => a.stop ≤ b.start :=
  List.pairwise_reverse.mpr (separated_sweep l).apart

theorem nonempty_sweep (l : List (Interval α τ)) : ∀ r ∈ sweep l, r.start < r.stop := fun r hr =>
  (separated_sweep l).nonempty r (List.mem_reverse.mp hr)

/-! ## 3. The union -/

/-- One turn of the pass. -/
theorem union_add (hs : Separated out) (h : Covers out r.start) :
    union (add out r) = union out ∪ r.range := by
  have hkeep : union out ∪ (clip out r).range = union out ∪ r.range := by
    refine Set.Subset.antisymm (Set.union_subset_union_right _ clip_subset) ?_
    exact Set.union_subset Set.subset_union_left h.range_subset
  rw [← hkeep]
  obtain ⟨heq, hempty⟩ | ⟨last, rest, rfl, hstop, -, hlt, heq⟩ | ⟨hlt, heq⟩ := add_cases out r
  · rw [heq, Interval.range, Set.Ico_eq_empty (not_lt.mpr hempty), Set.union_empty]
  · have hnonempty := hs.nonempty last (List.mem_cons_self ..)
    have hjoin : Set.Ico last.start r.stop = last.range ∪ (clip (last :: rest) r).range := by
      rw [Interval.range, Interval.range, clip_stop, ← hstop,
        Set.Ico_union_Ico_eq_Ico hnonempty.le (hstop.trans_lt hlt).le]
    rw [heq, union_cons, union_cons, Set.union_right_comm, ← hjoin]
    rfl
  · rw [heq, union_cons, Set.union_comm]

/-- The interval is covered afterwards, and it ends where the last one does, if not before. -/
theorem Covers.add (hs : Separated out) (h : Covers out r.start) : Covers (add out r) r.start := by
  intro last hlast
  have hunion := union_add hs h
  obtain ⟨heq, -⟩ | ⟨last', rest, rfl, -, -, -, heq⟩ | ⟨-, heq⟩ := add_cases out r
  · rw [heq] at hlast ⊢
    exact h last hlast
  · have hstop : last.stop = r.stop := by
      rw [heq] at hlast
      obtain rfl := Option.some.inj hlast
      rfl
    rw [hunion, hstop]
    exact Set.subset_union_right
  · have hstop : last.stop = r.stop := by
      rw [heq] at hlast
      obtain rfl := Option.some.inj hlast
      exact clip_stop
    rw [hunion, hstop]
    exact Set.subset_union_right

/-- The union of the stack grows by that of the intervals. -/
theorem union_foldl (hs : Separated out) (hsorted : l.Pairwise fun a b => a.start ≤ b.start)
    (h : ∀ r ∈ l, Covers out r.start) : union (l.foldl add out) = union out ∪ union l := by
  induction l generalizing out with
  | nil => rw [List.foldl_nil, union_nil, Set.union_empty]
  | cons r l ih =>
    obtain ⟨hle, hsorted⟩ := List.pairwise_cons.mp hsorted
    have hcovers := h r (List.mem_cons_self ..)
    have hnext : ∀ r' ∈ l, Covers (add out r) r'.start := fun r' hr' =>
      (Covers.add hs hcovers).mono (hle r' hr')
    rw [List.foldl_cons, ih hs.add hsorted hnext, union_add hs hcovers, union_cons, Set.union_assoc]

/-- **The pass keeps the union** of intervals in the order of their starts. -/
theorem union_sweep (hsorted : l.Pairwise fun a b => a.start ≤ b.start) :
    union (sweep l) = union l := by
  have hfold : union (l.foldl add []) = union [] ∪ union l :=
    union_foldl ⟨.nil, by simp⟩ hsorted fun r _ last hlast => by cases hlast
  rw [union_nil, Set.empty_union] at hfold
  rw [← hfold]
  exact union_congr fun r => List.mem_reverse

/-! ## 4. The tags -/

/-- Every point has the tag of an interval of `l` that it is in. -/
def Tagged (l out : List (Interval α τ)) : Prop :=
  ∀ a ∈ out, ∀ x ∈ a.range, ∃ r ∈ l, x ∈ r.range ∧ r.tag = a.tag

/-- The tag of a new piece is that of the interval it comes from. -/
theorem Tagged.add (h : Tagged l out) (hr : r ∈ l) : Tagged l (add out r) := by
  obtain ⟨heq, -⟩ | ⟨last, rest, rfl, hstop, htag, -, heq⟩ | ⟨-, heq⟩ := add_cases out r
  · rwa [heq]
  · rw [heq]
    rintro a (_ | ⟨_, ha⟩) x hx
    · by_cases hlast : x < last.stop
      · exact h last (List.mem_cons_self ..) x ⟨hx.1, hlast⟩
      · have hin : (clip (last :: rest) r).start ≤ x := hstop ▸ not_lt.mp hlast
        exact ⟨r, hr, ⟨start_le_clip.trans hin, hx.2⟩, htag.symm⟩
    · exact h a (List.mem_cons_of_mem _ ha) x hx
  · rw [heq]
    rintro a (_ | ⟨_, ha⟩) x hx
    · exact ⟨r, hr, clip_subset hx, clip_tag.symm⟩
    · exact h a ha x hx

theorem Tagged.foldl {l' : List (Interval α τ)} (h : Tagged l out) (hl : ∀ r ∈ l', r ∈ l) :
    Tagged l (l'.foldl Sweep.add out) := by
  induction l' generalizing out with
  | nil => exact h
  | cons r l' ih =>
    exact ih (h.add (hl r (List.mem_cons_self ..))) fun r hr => hl r (List.mem_cons_of_mem _ hr)

/-- **Every point has the tag of an interval that it comes from.** -/
theorem tag_sweep (l : List (Interval α τ)) : Tagged l (sweep l) := by
  have hfold : Tagged l (l.foldl add []) := Tagged.foldl (fun a ha => by cases ha) fun _ hr => hr
  exact fun a ha => hfold a (List.mem_reverse.mp ha)

end Sweep
