/-
# The rate limit of the log (`userspace/zygisk/daemon/log.cpp`)

`take_rate_token` keeps a token bucket in one word, the tick of the last grant above the tokens that
were left.  Any number of writers read the clock, load the word and exchange it for the next one
(`limiter`), in any interleaving, so that a reading can be old when it takes effect.

The word it is exchanged for has the tick of that reading.  **A writer with an old reading moves the
bucket back**, and the ticks since then are granted a second time (`not_rateBounded`).

`rateBounded_of_settled`: in a run in which no exchange has an older reading than the word, nor one
older than the clock when the bucket has filled up since, what is granted in any stretch of time is
at most the burst and one for every tick.

The proof reads the word as a bucket of the library `TokenBucket` (`bucketOf`), and the exchange as
one grant from it, at the tick of the reading (`take_of_nextWord`).  The library bounds what such
grants spend, when every grant is at a tick that the bucket settles with.  What has to be shown of
the program is that no reading is ahead of the clock and the bucket holds no more than the burst
(`Bounded`), which one step keeps (`limiter_step`); the guard says the rest.  The fields of the word
are 48 and 16 bits, so the guard also has the tick fit its field.
-/
import YukiZygisk.Lib.Lts
import YukiZygisk.Lib.TokenBucket

namespace YukiZygisk.RateLimit

open TokenBucket

/-! ## 1. `take_rate_token` -/

/-- The parameters of one rate state. -/
structure Limit where
  burst : UInt16
  tickMilliseconds : UInt64

/-- `g_runtime_rate_state` and `g_runtime_priority_rate_state`. -/
def runtimeRate : Limit := ⟨256, 250⟩
def runtimePriorityRate : Limit := ⟨64, 1000⟩

/-- `g_daemon_rate_state` and `g_daemon_priority_rate_state`. -/
def daemonRate : Limit := ⟨128, 250⟩
def daemonPriorityRate : Limit := ⟨32, 1000⟩

variable (limit : Limit)

/-- `tick`, from a monotonic clock of nanoseconds. -/
def readTick (clock : ℕ) : UInt64 :=
  (UInt64.ofNat (clock / 1000000000) * 1000 + UInt64.ofNat (clock % 1000000000) / 1000000) /
    limit.tickMilliseconds

/-- `tokens`, after the refill. -/
def refilled (tick old : UInt64) : UInt64 :=
  let oldTick := old >>> 16
  let tokens := old &&& 0xffff
  if tick > oldTick then
    -- `std::min`
    let sum := tokens + tick - oldTick
    if sum < limit.burst.toUInt64 then sum else limit.burst.toUInt64
  else tokens

/-- The turn of the loop up to the exchange: `next`, or no token. -/
def nextWord (tick old : UInt64) : Option UInt64 :=
  let tokens := refilled limit tick old
  if tokens = 0 then none else some ((tick <<< 16) ||| (tokens - 1))

/-! ## 2. The writers -/

/-- A writer in `take_rate_token`: outside, with its reading, and with what it loaded. -/
inductive Phase
  | idle
  | read (tick : UInt64)
  | loaded (tick old : UInt64)

/-- The clock, the atomic word, the writers, and how many exchanges took effect. -/
structure Limiter where
  clock : ℕ
  state : UInt64
  writers : ℕ → Phase
  granted : ℕ

inductive Act
  | pass (nanoseconds : ℕ)
  /-- `clock_gettime`; when it fails the writer returns `true` without a token -/
  | call (w : ℕ) (answers : Bool)
  | load (w : ℕ)
  /-- `compare_exchange_weak`, which may fail on the expected word -/
  | exchange (w : ℕ) (spurious : Bool)

def Limiter.setWriter (s : Limiter) (w : ℕ) (phase : Phase) : Limiter :=
  { s with writers := Function.update s.writers w phase }

def Limiter.step (s : Limiter) : Act → Option Limiter
  | .pass n => some { s with clock := s.clock + n }
  | .call w answers =>
    match s.writers w with
    | .idle => some (if answers then s.setWriter w (.read (readTick limit s.clock)) else s)
    | _ => none
  | .load w =>
    match s.writers w with
    | .read tick => some (s.setWriter w (.loaded tick s.state))
    | _ => none
  | .exchange w spurious =>
    match s.writers w with
    | .loaded tick old =>
      match nextWord limit tick old with
      | none => some (s.setWriter w .idle)
      | some next =>
        if s.state = old ∧ spurious = false then
          some { s.setWriter w .idle with state := next, granted := s.granted + 1 }
        else some (s.setWriter w (.loaded tick s.state))
    | _ => none

/-- The daemon just started, at any time. -/
def limiter : Lts Limiter Act where
  init s := s.state = limit.burst.toUInt64 ∧ (∀ w, s.writers w = .idle) ∧ s.granted = 0
  step := Limiter.step limit

/-! ## 3. The word as a bucket -/

def bucketOf (word : UInt64) : Bucket := ⟨(word >>> 16).toNat, (word &&& 0xffff).toNat⟩

/-- The ticks up to a time. -/
def ticks (clock : ℕ) : ℕ := clock / 1000000 / limit.tickMilliseconds.toNat

variable {limit} {s s' : Limiter} {a : Act}

theorem ticks_mono {clock later : ℕ} (h : clock ≤ later) : ticks limit clock ≤ ticks limit later :=
  Nat.div_le_div_right (Nat.div_le_div_right h)

/-- A reading is at most the tick of the clock. -/
theorem readTick_le (clock : ℕ) : (readTick limit clock).toNat ≤ ticks limit clock := by
  rw [readTick, UInt64.toNat_div, ticks]
  refine Nat.div_le_div_right ?_
  simp only [UInt64.toNat_add, UInt64.toNat_mul, UInt64.toNat_div, UInt64.toNat_ofNat']
  simp
  omega

/-- The two parts of a word. -/
theorem bucketOf_word {tick tokens : UInt64} (htick : tick.toNat < 2 ^ 48)
    (htokens : tokens.toNat < 2 ^ 16) :
    bucketOf ((tick <<< 16) ||| tokens) = ⟨tick.toNat, tokens.toNat⟩ := by
  have hshift : (tick <<< 16).toNat = tick.toNat * 2 ^ 16 := by
    rw [UInt64.toNat_shiftLeft, Nat.shiftLeft_eq]
    exact Nat.mod_eq_of_lt (by simp; omega)
  have hword : ((tick <<< 16) ||| tokens).toNat = 2 ^ 16 * tick.toNat + tokens.toNat := by
    rw [UInt64.toNat_or, hshift, Nat.mul_comm, Nat.two_pow_add_eq_or_of_lt htokens]
  have hlow : ∀ word : UInt64, (word &&& 0xffff).toNat = word.toNat % 2 ^ 16 := fun word =>
    Nat.and_two_pow_sub_one_eq_mod _ 16
  have hhigh : ∀ word : UInt64, (word >>> 16).toNat = word.toNat / 2 ^ 16 := fun word => by
    rw [UInt64.toNat_shiftRight, Nat.shiftRight_eq_div_pow]
    rfl
  rw [bucketOf, hlow, hhigh, hword, Bucket.mk.injEq]
  constructor <;> omega

theorem tokens_lt (word : UInt64) : (bucketOf word).tokens < 2 ^ 16 := by
  have hlow : (word &&& 0xffff).toNat = word.toNat % 2 ^ 16 := Nat.and_two_pow_sub_one_eq_mod _ 16
  rw [bucketOf, hlow]
  exact Nat.mod_lt _ (by decide)

/-- The tokens after the refill. -/
theorem refilled_toNat {tick old : UInt64} (htick : tick.toNat < 2 ^ 48) :
    (refilled limit tick old).toNat =
      if (bucketOf old).tick < tick.toNat then
        (bucketOf old).available limit.burst.toNat tick.toNat
      else (bucketOf old).tokens := by
  have hold := tokens_lt old
  have hburst : limit.burst.toUInt64.toNat = limit.burst.toNat := by simp
  have htokens : (old &&& 0xffff).toNat = (bucketOf old).tokens := rfl
  have hoff : (old >>> 16).toNat = (bucketOf old).tick := rfl
  simp only [refilled]
  by_cases hnew : tick > old >>> 16
  · have hlt : (bucketOf old).tick < tick.toNat := UInt64.lt_iff_toNat_lt.mp hnew
    have hadd : ((old &&& 0xffff) + tick).toNat = (bucketOf old).tokens + tick.toNat := by
      rw [UInt64.toNat_add, htokens]
      exact Nat.mod_eq_of_lt (by omega)
    have hle : old >>> 16 ≤ (old &&& 0xffff) + tick := by
      rw [UInt64.le_iff_toNat_le, hadd, hoff]
      omega
    have hsum : ((old &&& (0xffff : UInt64)) + tick - old >>> 16).toNat =
        (bucketOf old).tokens + (tick.toNat - (bucketOf old).tick) := by
      rw [UInt64.toNat_sub_of_le _ _ hle, hadd, hoff]
      omega
    rw [if_pos hnew, if_pos hlt, Bucket.available]
    split_ifs with hfull <;> rw [UInt64.lt_iff_toNat_lt, hsum, hburst] at hfull
    · rw [hsum]
      omega
    · rw [hburst]
      omega
  · have hle : ¬ (bucketOf old).tick < tick.toNat := fun hlt =>
      hnew (UInt64.lt_iff_toNat_lt.mpr hlt)
    rw [if_neg hnew, if_neg hle, htokens]

/-- **The next word is the bucket with a token less.** -/
theorem take_of_nextWord {tick old next : UInt64} (htick : tick.toNat < 2 ^ 48)
    (h : nextWord limit tick old = some next) :
    (bucketOf old).take limit.burst.toNat tick.toNat = some (bucketOf next) := by
  have hmax : limit.burst.toNat < 2 ^ 16 := limit.burst.toNat_lt
  have hrefilled : (refilled limit tick old).toNat = _ := refilled_toNat htick
  have hbound : (refilled limit tick old).toNat < 2 ^ 16 := by
    rw [hrefilled]
    split_ifs
    · exact lt_of_le_of_lt (available_le _ _ _) hmax
    · exact tokens_lt old
  simp only [nextWord] at h
  split_ifs at h with hempty
  obtain rfl := Option.some.inj h
  have hpos : (refilled limit tick old).toNat ≠ 0 := fun hzero =>
    hempty (UInt64.toNat_inj.mp hzero)
  have hone : (refilled limit tick old - 1).toNat = (refilled limit tick old).toNat - 1 :=
    UInt64.toNat_sub_of_le _ _ (UInt64.le_iff_toNat_le.mpr (Nat.one_le_iff_ne_zero.mpr hpos))
  rw [bucketOf_word htick (by omega), hone]
  simp only [Bucket.take]
  rw [← hrefilled, if_neg hpos]

/-! ## 4. What is granted -/

/-- The tokens that the bucket holds at the clock. -/
def available (limit : Limit) (s : Limiter) : ℕ :=
  (bucketOf s.state).available limit.burst.toNat (ticks limit s.clock)

/-- **The rate is bounded** in every run whose steps meet `P`: in any stretch of it at most the
burst is granted, and one token for every tick. -/
def RateBounded (limit : Limit) (P : Limiter → Act → Prop) : Prop :=
  ∀ s s', (limiter limit).Reach P s → (limiter limit).Path P s s' →
    s'.granted ≤ s.granted + limit.burst.toNat + (ticks limit s'.clock - ticks limit s.clock)

/-- The step is an exchange that takes effect, with this reading. -/
def Takes (limit : Limit) (s : Limiter) (a : Act) (tick : UInt64) : Prop :=
  ∃ w, a = .exchange w false ∧ s.writers w = .loaded tick s.state ∧
    (nextWord limit tick s.state).isSome

/-- An exchange that takes effect has a reading that the bucket settles with; and ticks have 48
bits. -/
def Settled (limit : Limit) (s : Limiter) (a : Act) : Prop :=
  ∀ tick, Takes limit s a tick → tick.toNat < 2 ^ 48 ∧
    Settles limit.burst.toNat (ticks limit s.clock) tick.toNat (bucketOf s.state)

/-- No reading is ahead of the clock, and the bucket holds at most the burst. -/
structure Bounded (limit : Limit) (s : Limiter) : Prop where
  tokens : (bucketOf s.state).tokens ≤ limit.burst.toNat
  readings : ∀ w tick, (s.writers w = .read tick ∨ ∃ old, s.writers w = .loaded tick old) →
    tick.toNat ≤ ticks limit s.clock

theorem Bounded.setWriter (h : Bounded limit s) (w : ℕ) (phase : Phase)
    (hphase : ∀ tick, (phase = .read tick ∨ ∃ old, phase = .loaded tick old) →
      tick.toNat ≤ ticks limit s.clock) : Bounded limit (s.setWriter w phase) := by
  refine ⟨h.tokens, ?_⟩
  intro v tick hv
  simp only [Limiter.setWriter] at hv ⊢
  rcases eq_or_ne v w with rfl | hne
  · rw [Function.update_self] at hv
    exact hphase tick hv
  · rw [Function.update_of_ne hne] at hv
    exact h.readings v tick hv

theorem Bounded.idle (h : Bounded limit s) (w : ℕ) : Bounded limit (s.setWriter w .idle) := by
  apply h.setWriter
  rintro tick (hread | ⟨old, hloaded⟩)
  · cases hread
  · cases hloaded

/-- A writer with a reading that is not ahead of the clock. -/
theorem Bounded.reading (h : Bounded limit s) (w : ℕ) {tick : UInt64} {phase : Phase}
    (hphase : phase = .read tick ∨ ∃ old, phase = .loaded tick old)
    (htick : tick.toNat ≤ ticks limit s.clock) : Bounded limit (s.setWriter w phase) := by
  apply h.setWriter
  rintro tick' (rfl | ⟨old', rfl⟩)
  · obtain hread | ⟨old, hloaded⟩ := hphase
    · obtain rfl := Phase.read.inj hread
      exact htick
    · cases hloaded
  · obtain hread | ⟨old, hloaded⟩ := hphase
    · cases hread
    · obtain ⟨rfl, -⟩ := Phase.loaded.inj hloaded
      exact htick

/-- **One step** keeps the bounds, and spends no more than what the ticks add. -/
theorem limiter_step (h : Bounded limit s) (hP : Settled limit s a)
    (hs : (limiter limit).step s a = some s') :
    Bounded limit s' ∧ Spent s.granted s'.granted (available limit s) (available limit s')
      (ticks limit s.clock) (ticks limit s'.clock) := by
  cases a with
  | pass n =>
    obtain rfl := Option.some.inj hs
    have hle : ticks limit s.clock ≤ ticks limit (s.clock + n) := ticks_mono (Nat.le_add_right _ _)
    refine ⟨⟨h.tokens, fun w tick hw => (h.readings w tick hw).trans hle⟩, hle, ?_⟩
    have hrefill : (bucketOf s.state).available limit.burst.toNat _ ≤ _ := available_mono hle
    simp only [available]
    omega
  | call w answers =>
    simp only [limiter, Limiter.step] at hs
    split at hs
    · obtain rfl := Option.some.inj hs
      split_ifs
      · exact ⟨h.reading w (.inl rfl) (readTick_le s.clock), .refl _ _ _⟩
      · exact ⟨h, .refl _ _ _⟩
    · cases hs
  | load w =>
    simp only [limiter, Limiter.step] at hs
    split at hs
    · rename_i tick hw
      obtain rfl := Option.some.inj hs
      exact ⟨h.reading w (.inr ⟨_, rfl⟩) (h.readings w tick (.inl hw)), .refl _ _ _⟩
    · cases hs
  | exchange w spurious =>
    simp only [limiter, Limiter.step] at hs
    split at hs
    · rename_i tick old hw
      have hreading := h.readings w tick (.inr ⟨old, hw⟩)
      split at hs
      · obtain rfl := Option.some.inj hs
        exact ⟨h.idle w, .refl _ _ _⟩
      · rename_i next hnext
        split_ifs at hs with hexpected
        · -- the exchange takes effect: the bucket gives a token
          obtain ⟨rfl, rfl⟩ := hexpected
          obtain rfl := Option.some.inj hs
          obtain ⟨htick, hsettles⟩ := hP tick ⟨w, rfl, hw, by rw [hnext]; rfl⟩
          have htake := take_of_nextWord htick hnext
          have hcost := available_take h.tokens hreading hsettles htake
          refine ⟨⟨(tokens_take h.tokens htake).1, (h.idle w).readings⟩, le_rfl, ?_⟩
          simp only [available, Limiter.setWriter]
          omega
        · obtain rfl := Option.some.inj hs
          exact ⟨h.reading w (.inr ⟨_, rfl⟩) hreading, .refl _ _ _⟩
    · cases hs

/-- `Bounded` holds in every run that meets the guard. -/
theorem bounded_invariant : (limiter limit).Invariant (Settled limit) (Bounded limit) where
  init s hi := by
    obtain ⟨hstate, hidle, -⟩ := hi
    constructor
    · have hlow : (bucketOf s.state).tokens = s.state.toNat % 2 ^ 16 :=
        Nat.and_two_pow_sub_one_eq_mod _ 16
      rw [hlow, hstate, UInt16.toNat_toUInt64]
      exact Nat.mod_le _ _
    · intro w tick hw
      rw [hidle w] at hw
      rcases hw with hw | ⟨old, hw⟩ <;> cases hw
  step _ _ _ h hP hs := (limiter_step h hP hs).1

/-- **The rate is bounded in a run in which the bucket settles with every reading.** -/
theorem rateBounded_of_settled (limit : Limit) : RateBounded limit (Settled limit) := by
  intro s s' hr hp
  have hrun := hp.preserve (J := fun t => Bounded limit t ∧ Spent s.granted t.granted
    (available limit s) (available limit t) (ticks limit s.clock) (ticks limit t.clock)) hr
    (fun t a t' _ hJ hP hs => by
      obtain ⟨hbounded, hspent⟩ := limiter_step hJ.1 hP hs
      exact ⟨hbounded, hJ.2.trans hspent⟩)
    ⟨hr.invariant bounded_invariant, .refl _ _ _⟩
  exact hrun.2.bounded (available_le _ _ _)

/-- Writer `w` asks for a token, and nobody else does meanwhile. -/
def asks (w : ℕ) : List Act := [.call w true, .load w, .exchange w false]

/-- The test of `Settled`. -/
def settled (limit : Limit) (s : Limiter) : Act → Bool
  | .exchange w false =>
    match s.writers w with
    | .loaded tick _ => decide (tick.toNat < 2 ^ 48 ∧
        (bucketOf s.state).tick ≤ tick.toNat ∧ (tick.toNat = ticks limit s.clock ∨
          (bucketOf s.state).tokens + (ticks limit s.clock - (bucketOf s.state).tick) ≤
            limit.burst.toNat))
    | _ => true
  | _ => true

theorem settled_of_test (h : settled limit s a = true) : Settled limit s a := by
  rintro tick ⟨w, rfl, hw, -⟩
  simp only [settled, hw, decide_eq_true_eq] at h
  exact h

/-- Writer 0 loads the word, and writer 1 takes 31 tokens before it takes the last one.  Two ticks
later there are two more tokens, and no third. -/
def burst : List Act :=
  ([.call 0 true, .load 0] : List Act) ++ (List.replicate 31 (asks 1)).flatten ++
    ([.exchange 0 false, .exchange 0 false, .pass 2000000000] : List Act) ++ asks 1 ++ asks 0 ++
      asks 1

/-- The bound is reached. -/
theorem rateBounded_of_settled_burst : ∃ s s',
    (limiter daemonPriorityRate).Reach (Settled daemonPriorityRate) s ∧
    (limiter daemonPriorityRate).Path (Settled daemonPriorityRate) s s' ∧
    (s.granted = 0 ∧ s.clock = 0) ∧ (s'.granted = 34 ∧ s'.clock = 2000000000) ∧
    s'.granted ≤ s.granted + daemonPriorityRate.burst.toNat +
      (ticks daemonPriorityRate s'.clock - ticks daemonPriorityRate s.clock) := by
  obtain ⟨s, s', hp, hp', hs, hs'⟩ := Lts.exists_path_of_guarded (M := limiter daemonPriorityRate)
    (P := Settled daemonPriorityRate) (g := settled daemonPriorityRate)
    (fun _ _ => settled_of_test) (s := ⟨0, 32, fun _ => .idle, 0⟩) [] burst
    (fun s => decide (s.granted = 0) && decide (s.clock = 0))
    (fun s => decide (s.granted = 34) && decide (s.clock = 2000000000)) (by decide +kernel)
  simp only [Bool.and_eq_true, decide_eq_true_eq] at hs hs'
  have hr : (limiter daemonPriorityRate).Reach (Settled daemonPriorityRate) s :=
    ⟨_, ⟨rfl, fun _ => rfl, rfl⟩, hp⟩
  exact ⟨s, s', hr, hp', hs, hs', rateBounded_of_settled daemonPriorityRate s s' hr hp'⟩

/-- Writer 0 reads the clock, and 32 ticks pass. -/
def stale : List Act := [.call 0 true, .pass 32000000000]

/-- Writer 1 takes all tokens but one.  Writer 0 takes that one with its old reading, and the 32
ticks are there again for writer 1. -/
def regrants : List Act :=
  (List.replicate 31 (asks 1)).flatten ++ ([.load 0, .exchange 0 false] : List Act) ++ asks 1

/-- **Ticks are granted twice.** -/
theorem not_rateBounded : ¬ RateBounded daemonPriorityRate Lts.anyStep := by
  intro h
  obtain ⟨s, s', hr, hp, hs, hs'⟩ := Lts.exists_path_of_exec (M := limiter daemonPriorityRate)
    (s := ⟨0, 32, fun _ => .idle, 0⟩) ⟨rfl, fun _ => rfl, rfl⟩ stale regrants
    (fun s => decide (s.granted = 0) && decide (s.clock = 32000000000))
    (fun s => decide (s.granted = 33) && decide (s.clock = 32000000000)) (by decide +kernel)
  have hbound := h s s' hr hp
  simp only [Bool.and_eq_true, decide_eq_true_eq] at hs hs'
  rw [hs.1, hs'.1, hs.2, hs'.2] at hbound
  exact absurd hbound (by decide)

end YukiZygisk.RateLimit
