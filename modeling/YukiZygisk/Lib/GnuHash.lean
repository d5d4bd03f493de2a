/-
# GNU hash sections

A GNU hash section covers the symbols of a table from an offset on.  The symbols of one bucket come
one after the other, and have one word each in the chain array; the last word of a bucket is odd
and the others are even.  A bucket holds the index of its first symbol, or zero if it has none.

The largest bucket is the one whose symbols come last (`largest_eq`).

`starts first bs` lists where the blocks of symbols begin when they are laid out from index `first`
on.  These indices go up with the blocks, and a bucket without symbols holds zero, so the largest
entry of the buckets is where the last block begins.  A loop that goes from there to the odd word of
the block comes to the last symbol of the table, since the blocks are all the symbols there are.
-/
import Mathlib

namespace GnuHash

/-- What a section holds; `blocks` are the parts of the chain array, one for each bucket that is not
empty, in the order of the symbols. -/
structure Section where
  symOffset : ℕ
  bloom : List ℕ
  bloomShift : ℕ
  buckets : List ℕ
  blocks : List (List ℕ)

/-- The chain array. -/
def Section.chain (s : Section) : List ℕ := s.blocks.flatten

/-- The number of symbols that a section covers, the ones in front of its offset included. -/
def Section.count (s : Section) : ℕ := s.symOffset + s.chain.length

/-- The indices of the first symbols of the blocks. -/
def starts : ℕ → List (List ℕ) → List ℕ
  | _, [] => []
  | first, b :: bs => first :: starts (first + b.length) bs

/-- The words of one bucket. -/
def Block (b : List ℕ) : Prop :=
  ∃ front last, b = front ++ [last] ∧ (∀ x ∈ front, x % 2 = 0) ∧ last % 2 = 1

/-- A well-formed section.  The first symbol of a table is in no bucket. -/
structure Section.WellFormed (s : Section) : Prop where
  offset : 0 < s.symOffset
  bloom : s.bloom ≠ []
  buckets : s.buckets ≠ []
  blocks : ∀ b ∈ s.blocks, Block b
  bucket : ∀ b ∈ s.buckets, b = 0 ∨ b ∈ starts s.symOffset s.blocks
  start : ∀ i ∈ starts s.symOffset s.blocks, i ∈ s.buckets

variable {s : Section} {first i : ℕ} {bs : List (List ℕ)} {b : List ℕ} {l : List ℕ}

theorem starts_append (first : ℕ) (bs : List (List ℕ)) (b : List ℕ) :
    starts first (bs ++ [b]) = starts first bs ++ [first + bs.flatten.length] := by
  induction bs generalizing first with
  | nil => rfl
  | cons c bs ih =>
    rw [List.cons_append, starts, ih, starts, List.flatten_cons, List.length_append,
      List.cons_append, Nat.add_assoc]

theorem le_of_mem_starts (h : i ∈ starts first bs) : i ≤ first + bs.flatten.length := by
  induction bs generalizing first with
  | nil => cases h
  | cons c bs ih =>
    rw [List.flatten_cons, List.length_append]
    rcases List.mem_cons.mp h with rfl | h
    · omega
    · have := ih h
      omega

/-- The largest of some numbers is an upper bound, and one of them unless it is the start. -/
theorem foldl_max_spec (l : List ℕ) (x : ℕ) :
    x ≤ l.foldl max x ∧ (∀ y ∈ l, y ≤ l.foldl max x) ∧ (l.foldl max x = x ∨ l.foldl max x ∈ l) := by
  induction l generalizing x with
  | nil => exact ⟨le_rfl, nofun, .inl rfl⟩
  | cons z l ih =>
    obtain ⟨hle, hall, hmem⟩ := ih (max x z)
    refine ⟨(le_max_left x z).trans hle, ?_, ?_⟩
    · intro y hy
      rcases List.mem_cons.mp hy with rfl | hy
      · exact (le_max_right x y).trans hle
      · exact hall y hy
    · rw [List.foldl_cons]
      rcases hmem with heq | hmem
      · rw [heq]
        rcases max_choice x z with h | h
        · exact .inl h
        · exact .inr (by rw [h]; exact List.mem_cons_self)
      · exact .inr (List.mem_cons_of_mem z hmem)

/-- **Without symbols in buckets** the largest bucket is zero. -/
theorem largest_of_empty (h : s.WellFormed) (hnil : s.blocks = []) :
    s.buckets.foldl max 0 = 0 := by
  rcases (foldl_max_spec s.buckets 0).2.2 with hzero | hmem
  · exact hzero
  · rcases h.bucket _ hmem with hzero | hstart
    · exact hzero
    · rw [hnil] at hstart
      cases hstart

/-- **The largest bucket begins the last block.** -/
theorem largest_eq (h : s.WellFormed) (hlast : s.blocks = bs ++ [b]) :
    s.buckets.foldl max 0 = s.symOffset + bs.flatten.length := by
  have hstarts : starts s.symOffset s.blocks =
      starts s.symOffset bs ++ [s.symOffset + bs.flatten.length] := by
    rw [hlast, starts_append]
  obtain ⟨-, hall, hmem⟩ := foldl_max_spec s.buckets 0
  refine le_antisymm ?_ (hall _ (h.start _ ?_))
  · rcases hmem with hzero | hmem
    · omega
    · rcases h.bucket _ hmem with hzero | hstart
      · omega
      · rw [hstarts] at hstart
        rcases List.mem_append.mp hstart with hstart | hstart
        · exact le_of_mem_starts hstart
        · exact (List.mem_singleton.mp hstart).le
  · rw [hstarts]
    exact List.mem_append_right _ List.mem_cons_self

end GnuHash
