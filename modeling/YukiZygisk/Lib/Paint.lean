/-
# Passes that paint

A pass over a list gives every point of the region of an entry the value of the entry, one entry
after the other, and may fail at any of them.  A point in no region keeps its value
(`frame_of_pass`); a point has the value that all regions around it agree on (`value_of_pass`).

The relation `Paints` says what one step does to the points: inside of its region they have its
value, and outside nothing changes.  Composing steps composes the relations (`Paints.trans`).  A
pass that fails has painted the regions before the entry that failed, so both results speak of the
entries that were done.
-/
import Mathlib

namespace Paint

variable {ι κ ν : Type*} {g : (κ → ν) → ι → Option (κ → ν)} {S : ι → Set κ} {v : ι → ν}
  {l : List ι} {f f' : κ → ν} {x : κ}

/-- The points of a region get a value, and the others keep theirs. -/
structure Paints (f f' : κ → ν) (S : Set κ) (v : ν) : Prop where
  inside : ∀ x ∈ S, f' x = v
  outside : ∀ x ∉ S, f' x = f x

/-- Two regions of one value, one after the other. -/
theorem Paints.trans {f₁ : κ → ν} {S T : Set κ} {p : ν} (h : Paints f f₁ S p)
    (h' : Paints f₁ f' T p) : Paints f f' (S ∪ T) p := by
  constructor
  · intro x hx
    by_cases hT : x ∈ T
    · exact h'.inside x hT
    · rw [h'.outside x hT]
      exact h.inside x (hx.resolve_right hT)
  · intro x hx
    rw [h'.outside x fun hT => hx (.inr hT), h.outside x fun hS => hx (.inl hS)]

/-- The step for an entry paints its region. -/
def Painter (g : (κ → ν) → ι → Option (κ → ν)) (S : ι → Set κ) (v : ι → ν) (a : ι) : Prop :=
  ∀ f f', g f a = some f' → Paints f f' (S a) (v a)

/-- **Points outside all regions.** -/
theorem frame_of_pass (hg : ∀ a ∈ l, Painter g S v a) (h : l.foldlM g f = some f')
    (hx : ∀ a ∈ l, x ∉ S a) : f' x = f x := by
  induction l generalizing f with
  | nil => rw [Option.some.inj h]
  | cons a l ih =>
    rw [List.foldlM_cons, Option.bind_eq_bind, Option.bind_eq_some_iff] at h
    obtain ⟨f₁, hstep, hrest⟩ := h
    have hkeep := (hg a List.mem_cons_self f f₁ hstep).outside x (hx a List.mem_cons_self)
    rw [ih (fun b hb => hg b (List.mem_cons_of_mem a hb)) hrest
      fun b hb => hx b (List.mem_cons_of_mem a hb), hkeep]

/-- **Points of regions that agree.** -/
theorem value_of_pass {p : ν} (hg : ∀ a ∈ l, Painter g S v a) (h : l.foldlM g f = some f')
    (hsome : ∃ a ∈ l, x ∈ S a) (hagree : ∀ a ∈ l, x ∈ S a → v a = p) : f' x = p := by
  induction l generalizing f with
  | nil =>
    obtain ⟨a, ha, -⟩ := hsome
    cases ha
  | cons a l ih =>
    rw [List.foldlM_cons, Option.bind_eq_bind, Option.bind_eq_some_iff] at h
    obtain ⟨f₁, hstep, hrest⟩ := h
    have hg' : ∀ b ∈ l, Painter g S v b := fun b hb => hg b (List.mem_cons_of_mem a hb)
    by_cases hlater : ∃ b ∈ l, x ∈ S b
    · exact ih hg' hrest hlater fun b hb => hagree b (List.mem_cons_of_mem a hb)
    -- no later region has the point, so the first one decides
    · have hnone : ∀ b ∈ l, x ∉ S b := fun b hb hxb => hlater ⟨b, hb, hxb⟩
      obtain ⟨b, hb, hxb⟩ := hsome
      rcases List.mem_cons.mp hb with rfl | hb
      · rw [frame_of_pass hg' hrest hnone, ← hagree b List.mem_cons_self hxb]
        exact (hg b List.mem_cons_self f f₁ hstep).inside x hxb
      · exact absurd hxb (hnone b hb)

end Paint
