/-
# The RELR encoding of a set of offsets

A table of relative relocations, packed into words of `w` bytes.  An even word is the offset of one
relocation.  An odd word is a bitmap for the words behind the last one that was described: its bits
from the second on stand for one word each, and the next word of the table goes on behind them.

`decode` gives the offsets that a table describes, in the order of the table, and `Encodes` says
that a table is one for a set: it begins with an address, and it describes each member of the set
once and nothing else.  So a loop over the table that does something for each offset does it once
for each member of the set.  `Within` keeps the bitmaps below a limit, for a reader that counts
addresses in machine words.
-/
import Mathlib

namespace Relr

variable {w base : ℕ} {es es' : List ℕ} {S : Finset ℕ}

/-- The words that a bitmap stands for. -/
def bitmapBits (w : ℕ) : ℕ := w * 8 - 1

/-- The offsets that a word of the table describes. -/
def offsets (w base e : ℕ) : List ℕ :=
  if e % 2 = 0 then [e]
  else ((List.range (bitmapBits w)).filter fun bit => (e / 2).testBit bit).map fun bit =>
    base + bit * w

/-- Where the next bitmap begins. -/
def next (w base e : ℕ) : ℕ := if e % 2 = 0 then e + w else base + bitmapBits w * w

/-- The offsets that a table describes, from a place on. -/
def decode (w : ℕ) : ℕ → List ℕ → List ℕ
  | _, [] => []
  | base, e :: es => offsets w base e ++ decode w (next w base e) es

/-- A table of which each bitmap ends before `limit`. -/
def Within (w limit : ℕ) : ℕ → List ℕ → Prop
  | _, [] => True
  | base, e :: es => (e % 2 = 1 → next w base e ≤ limit) ∧ Within w limit (next w base e) es

instance (w limit : ℕ) : ∀ base es, Decidable (Within w limit base es)
  | _, [] => .isTrue trivial
  | base, e :: es =>
    have := instDecidableWithin w limit (next w base e) es
    inferInstanceAs (Decidable (_ ∧ _))

/-- **A table encodes a set**: it begins with an address, and describes each offset of the set once
and nothing else. -/
structure Encodes (w : ℕ) (es : List ℕ) (S : Finset ℕ) : Prop where
  head : ∀ e ∈ es.head?, e % 2 = 0
  nodup : (decode w 0 es).Nodup
  set : (decode w 0 es).toFinset = S

/-- A table describes the members of the set it encodes. -/
theorem Encodes.mem_iff (h : Encodes w es S) {o : ℕ} : o ∈ decode w 0 es ↔ o ∈ S := by
  rw [← h.set, List.mem_toFinset]

end Relr
