/-
# Token buckets

A bucket holds at most `burst` tokens and gets one at every tick of a clock.  It is kept as the
tokens that it had at a tick, so what it holds at a later one is computed when it is looked at
(`available`), and a token is taken with a reading of the clock (`take`).

With the reading of the clock itself a take costs a token (`available_take`).  With an older one it
costs a token only if the reading is not older than the bucket, and if what has come in since then
did not fill the bucket (`Settles`).  From that, what is taken in any stretch of time is at most
`burst` and one for every tick (`Spent.bounded`).

The account of a stretch is a `Spent`: what was taken, what is available at its beginning and its
end, and the two times.  Takes add up along a run (`Spent.trans`), and each one keeps that what was
taken and what is left is no more than what there was and one for each tick.  At the end of the
stretch something may be left, which only makes the bound smaller.
-/
import Mathlib.Order.MinMax
import Mathlib.Tactic.Common

namespace TokenBucket

/-- The tokens at a tick. -/
structure Bucket where
  tick : ℕ
  tokens : ℕ

variable {burst now reading : ℕ} {b b' : Bucket}

/-- The tokens that the bucket holds at a tick. -/
def Bucket.available (burst now : ℕ) (b : Bucket) : ℕ := min burst (b.tokens + (now - b.tick))

/-- Take a token with a reading of the clock.  An older reading than the bucket's own gets no
refill, and the bucket is left at the reading. -/
def Bucket.take (burst reading : ℕ) (b : Bucket) : Option Bucket :=
  let tokens := if b.tick < reading then b.available burst reading else b.tokens
  if tokens = 0 then none else some ⟨reading, tokens - 1⟩

/-- The reading is not older than the bucket, and it is that of the clock, or nothing that came in
up to the clock was lost. -/
def Settles (burst now reading : ℕ) (b : Bucket) : Prop :=
  b.tick ≤ reading ∧ (reading = now ∨ b.tokens + (now - b.tick) ≤ burst)

/-- As time passes at most one token comes in at a tick. -/
theorem available_mono {later : ℕ} (h : now ≤ later) :
    b.available burst later ≤ b.available burst now + (later - now) := by
  simp only [Bucket.available]
  omega

/-- A bucket never holds more than its burst. -/
theorem available_le (burst now : ℕ) (b : Bucket) : b.available burst now ≤ burst :=
  Nat.min_le_left _ _

/-- **A take costs a token.** -/
theorem available_take (htokens : b.tokens ≤ burst) (hreading : reading ≤ now)
    (hsettles : Settles burst now reading b) (h : b.take burst reading = some b') :
    b'.available burst now + 1 ≤ b.available burst now := by
  obtain ⟨hle, hnow⟩ := hsettles
  simp only [Bucket.take] at h
  split_ifs at h with hlt hempty hempty <;> obtain rfl := Option.some.inj h <;>
    simp only [Bucket.available] at hempty ⊢ <;> omega

/-- A bucket never holds more than `burst`. -/
theorem tokens_take (htokens : b.tokens ≤ burst) (h : b.take burst reading = some b') :
    b'.tokens ≤ burst ∧ b'.tick = reading := by
  simp only [Bucket.take] at h
  split_ifs at h with hlt hempty hempty <;> obtain rfl := Option.some.inj h <;>
    simp only [Bucket.available, and_true] at hempty ⊢ <;> omega

/-! ## What is taken in a stretch of time -/

/-- What was taken and what is available, from one state of a run to a later one, are at most what
was available and came in. -/
structure Spent (taken taken' available available' now now' : ℕ) : Prop where
  clock : now ≤ now'
  spent : taken' + available' ≤ taken + available + (now' - now)

variable {taken taken' taken'' available available' available'' now' now'' : ℕ}

theorem Spent.refl (taken available now : ℕ) : Spent taken taken available available now now :=
  ⟨le_rfl, by omega⟩

theorem Spent.trans (h : Spent taken taken' available available' now now')
    (h' : Spent taken' taken'' available' available'' now' now'') :
    Spent taken taken'' available available'' now now'' := by
  obtain ⟨hclock, hspent⟩ := h
  obtain ⟨hclock', hspent'⟩ := h'
  exact ⟨hclock.trans hclock', by omega⟩

/-- **At most `burst` and one for every tick.** -/
theorem Spent.bounded (h : Spent taken taken' available available' now now')
    (hburst : available ≤ burst) : taken' ≤ taken + burst + (now' - now) := by
  have := h.spent
  omega

end TokenBucket
