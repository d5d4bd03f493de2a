/-
# Bump allocation from several arenas

An arena is a range of addresses that is given out from a cursor upwards; what is below the cursor
is its header and the blocks that it has given.  A block is carved out of one of the arenas at or
behind its cursor, and an arena is added when none has room.

**The blocks are disjoint from each other and from every header** (`Tiled`): both moves keep it
(`Tiled.extend`, `Tiled.carve`), because an arena's blocks are below its cursor and the arenas are
apart.

The moves are those of an allocator that never takes a block back: the cursor of one arena goes up
(`carve`), or an arena is added (`extend`).  A block that an arena gave lies between its header and
its cursor (`Gave`), so it is inside of the arena's range and apart from the header.  Two blocks are
apart for one of two reasons: they come from arenas that are apart, or from one arena, where the
later one begins at or behind the cursor that the earlier one left.  `carve` proves just this for
the new block against all older ones, and nothing is said about the sizes or the alignment of
blocks, which are the allocator's own matter.
-/
import Mathlib

namespace Arenas

structure Arena where
  base : ℕ
  size : ℕ
  cursor : ℕ

structure Block where
  start : ℕ
  length : ℕ

/-! ## 1. Ranges -/

def Arena.range (a : Arena) : Set ℕ := Set.Ico a.base (a.base + a.size)

/-- The first `head` addresses of an arena. -/
def Arena.header (head : ℕ) (a : Arena) : Set ℕ := Set.Ico a.base (a.base + head)

def Block.range (b : Block) : Set ℕ := Set.Ico b.start (b.start + b.length)

/-- The block is one that the arena has given. -/
def Arena.Gave (head : ℕ) (a : Arena) (b : Block) : Prop :=
  a.base + head ≤ b.start ∧ b.start + b.length ≤ a.base + a.cursor

/-- The arenas and what they have given. -/
structure Tiled (head : ℕ) (arenas : List Arena) (blocks : List Block) : Prop where
  cursor : ∀ a ∈ arenas, head ≤ a.cursor ∧ a.cursor ≤ a.size
  apart : arenas.Pairwise fun a a' => Disjoint a.range a'.range
  gave : ∀ b ∈ blocks, ∃ a ∈ arenas, a.Gave head b
  disjoint : blocks.Pairwise fun b b' => Disjoint b.range b'.range

variable {head : ℕ} {arenas before after : List Arena} {blocks : List Block} {a a' : Arena}
  {b : Block}

theorem disjoint_of_le {k l m n : ℕ} (h : l ≤ m) : Disjoint (Set.Ico k l) (Set.Ico m n) :=
  Set.Ico_disjoint_Ico.mpr ((min_le_left _ _).trans (h.trans (le_max_right _ _)))

theorem Arena.Gave.subset (h : a.Gave head b) (hcursor : a.cursor ≤ a.size) :
    b.range ⊆ a.range := by
  refine Set.Ico_subset_Ico (le_trans (Nat.le_add_right _ _) h.1) (h.2.trans ?_)
  exact Nat.add_le_add_left hcursor _

theorem Arena.header_subset (h : head ≤ a.size) : a.header head ⊆ a.range :=
  Set.Ico_subset_Ico_right (Nat.add_le_add_left h _)

/-! ## 2. What holds of the blocks -/

namespace Tiled

theorem empty (head : ℕ) : Tiled head [] [] := ⟨by simp, .nil, by simp, .nil⟩

/-- A block lies in its arena. -/
theorem inside (h : Tiled head arenas blocks) (hb : b ∈ blocks) :
    ∃ a ∈ arenas, b.range ⊆ a.range := by
  obtain ⟨a, ha, hgave⟩ := h.gave b hb
  exact ⟨a, ha, hgave.subset (h.cursor a ha).2⟩

/-- Two arenas of the list are one or apart. -/
theorem eq_or_disjoint (h : Tiled head arenas blocks) (ha : a ∈ arenas) (ha' : a' ∈ arenas) :
    a = a' ∨ Disjoint a.range a'.range := by
  by_cases heq : a = a'
  · exact .inl heq
  · have : Std.Symm fun a a' : Arena => Disjoint a.range a'.range := ⟨fun _ _ h => h.symm⟩
    exact .inr (h.apart.forall ha ha' heq)

/-- **A block overlaps no header.** -/
theorem header_disjoint (h : Tiled head arenas blocks) (hb : b ∈ blocks) (ha : a ∈ arenas) :
    Disjoint (a.header head) b.range := by
  obtain ⟨a', ha', hgave⟩ := h.gave b hb
  obtain rfl | hapart := h.eq_or_disjoint ha ha'
  · exact disjoint_of_le hgave.1
  · have hhead : a.header head ⊆ a.range :=
      Arena.header_subset ((h.cursor a ha).1.trans (h.cursor a ha).2)
    exact hapart.mono hhead (hgave.subset (h.cursor a' ha').2)

/-! ## 3. The moves -/

/-- A new arena, apart from the others and with nothing given. -/
theorem extend (h : Tiled head arenas blocks) (hcursor : a.cursor = head) (hsize : head ≤ a.size)
    (hapart : ∀ a' ∈ arenas, Disjoint a.range a'.range) : Tiled head (a :: arenas) blocks := by
  constructor
  · rintro a' (_ | ⟨_, ha'⟩)
    · exact ⟨hcursor.ge, hcursor.trans_le hsize⟩
    · exact h.cursor a' ha'
  · exact List.pairwise_cons.mpr ⟨hapart, h.apart⟩
  · intro b hb
    obtain ⟨a', ha', hgave⟩ := h.gave b hb
    exact ⟨a', List.mem_cons_of_mem _ ha', hgave⟩
  · exact h.disjoint

/-- What is behind the cursor of an arena is in no block. -/
theorem fresh (h : Tiled head arenas blocks) (ha : a ∈ arenas) {start stop : ℕ}
    (hstart : a.base + a.cursor ≤ start) (hstop : stop ≤ a.base + a.size) (hb : b ∈ blocks) :
    Disjoint (Set.Ico start stop) b.range := by
  obtain ⟨a', ha', hgave⟩ := h.gave b hb
  obtain rfl | hapart := h.eq_or_disjoint ha ha'
  · exact (disjoint_of_le (hgave.2.trans hstart)).symm
  · have hsub : Set.Ico start stop ⊆ a.range :=
      Set.Ico_subset_Ico (le_trans (Nat.le_add_right _ _) hstart) hstop
    exact hapart.mono hsub (hgave.subset (h.cursor a' ha').2)

/-- **A block is carved out**, at or behind the cursor of an arena that has room for it. -/
theorem carve {offset length : ℕ} (h : Tiled head (before ++ a :: after) blocks)
    (hoffset : a.cursor ≤ offset) (hroom : offset + length ≤ a.size) :
    Tiled head (before ++ { a with cursor := offset + length } :: after)
      (⟨a.base + offset, length⟩ :: blocks) := by
  have hmem : a ∈ before ++ a :: after := by simp
  constructor
  · intro a' ha'
    obtain hbefore | rfl | hafter : a' ∈ before ∨ a' = _ ∨ a' ∈ after := by
      simpa [List.mem_append, List.mem_cons] using ha'
    · exact h.cursor a' (by simp [hbefore])
    · exact ⟨(h.cursor a hmem).1.trans (le_trans hoffset (Nat.le_add_right _ _)), hroom⟩
    · exact h.cursor a' (by simp [hafter])
  · -- the ranges of the arenas are what they were
    have hmap := List.pairwise_map.mpr h.apart
    refine List.pairwise_map (f := Arena.range) |>.mp ?_
    simpa [Arena.range] using hmap
  · intro b hb
    obtain rfl | hb := List.mem_cons.mp hb
    · refine ⟨_, List.mem_append_right _ (List.mem_cons_self ..), ?_, ?_⟩
      · exact Nat.add_le_add_left ((h.cursor a hmem).1.trans hoffset) _
      · exact (Nat.add_assoc _ _ _).le
    · obtain ⟨a', ha', hgave⟩ := h.gave b hb
      obtain hbefore | rfl | hafter : a' ∈ before ∨ a' = a ∨ a' ∈ after := by
        simpa [List.mem_append, List.mem_cons] using ha'
      · exact ⟨a', by simp [hbefore], hgave⟩
      · refine ⟨_, List.mem_append_right _ (List.mem_cons_self ..), hgave.1, hgave.2.trans ?_⟩
        exact Nat.add_le_add_left (le_trans hoffset (Nat.le_add_right _ _)) _
      · exact ⟨a', by simp [hafter], hgave⟩
  · refine List.pairwise_cons.mpr ⟨?_, h.disjoint⟩
    intro b hb
    exact h.fresh hmem (Nat.add_le_add_left hoffset _) (by dsimp only; omega) hb

end Tiled

end Arenas
