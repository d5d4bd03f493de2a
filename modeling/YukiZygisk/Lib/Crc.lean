/-
# Reflected cyclic redundancy checks

A register of `w` bits stands for a polynomial over the field of two elements, the bit of weight
`2 ^ i` for the coefficient at `w - 1 - i` (`ofRegister`), and a list of bits for the one whose
highest coefficient is the first bit (`message`).  One step of the usual loop, to the right, is a
multiplication by the indeterminate modulo the generator (`shift_dvd`).  So the loop over a message
in chunks of `n` bits divides it by the generator (`run_eq`): what is left in the register is

    (X ^ length * initial + X ^ w * message) %ₘ generator.

The steps of the argument are these.  Shifting the register to the right by one bit multiplies the
polynomial by the indeterminate, and takes the generator away when a bit falls out (`shift_dvd`);
`n` such steps multiply by its `n`th power (`shifts_dvd`).  Exclusive-oring a chunk into the low end
of the register adds the chunk at the high coefficients (`ofRegister_chunk`), so a step of the loop
adds the chunk's message behind what was fed (`feed_dvd`).  By induction on the chunks, the register
and the message differ by a multiple of the generator (`run_dvd`), and as the register has a degree
below that of the generator it is the remainder (`run_eq`).
-/
import Mathlib.Algebra.Polynomial.Div
import Mathlib.Algebra.CharP.Two
import Mathlib.Algebra.Field.ZMod

namespace Crc

open Polynomial Finset

variable {w : ℕ}

/-! ## 1. Registers and messages as polynomials -/

def bit (b : Bool) : ZMod 2 := if b then 1 else 0

theorem bit_xor (a b : Bool) : bit (a ^^ b) = bit a + bit b := by
  revert a b
  decide

noncomputable def ofRegister (c : BitVec w) : (ZMod 2)[X] :=
  ∑ i ∈ range w, C (bit (c.getLsbD i)) * X ^ (w - 1 - i)

noncomputable def message (bits : List Bool) : (ZMod 2)[X] :=
  bits.foldl (fun p b => X * p + C (bit b)) 0

/-- The register of a polynomial, bit by bit. -/
noncomputable def reflect (w : ℕ) (p : (ZMod 2)[X]) : BitVec w :=
  (List.range w).foldl
    (fun c i => c ||| if p.coeff (w - 1 - i) = 1 then BitVec.twoPow w i else 0#w) 0#w

noncomputable def generator (P : BitVec w) : (ZMod 2)[X] := X ^ w + ofRegister P

/-- The coefficient that a bit of the register stands for. -/
theorem coeff_ofRegister (c : BitVec w) (k : ℕ) :
    (ofRegister c).coeff k = if k < w then bit (c.getLsbD (w - 1 - k)) else 0 := by
  simp only [ofRegister, finsetSum_coeff, coeff_C_mul, coeff_X_pow]
  split_ifs with hk
  · rw [sum_eq_single (w - 1 - k)]
    · rw [if_pos (by omega), mul_one]
    · intro i hi hne
      rw [mem_range] at hi
      rw [if_neg (by omega), mul_zero]
    · intro hout
      exact absurd (mem_range.mpr (by omega)) hout
  · refine sum_eq_zero ?_
    intro i hi
    rw [mem_range] at hi
    rw [if_neg (by omega), mul_zero]

/-- A register stands for a polynomial of a degree below its width. -/
theorem degree_ofRegister (c : BitVec w) : (ofRegister c).degree < w := by
  refine (degree_lt_iff_coeff_zero _ _).mpr ?_
  intro k hk
  rw [coeff_ofRegister, if_neg (by omega)]

theorem getLsbD_reflect (p : (ZMod 2)[X]) {j : ℕ} (hj : j < w) :
    (reflect w p).getLsbD j = decide (p.coeff (w - 1 - j) = 1) := by
  suffices h : ∀ n, ((List.range n).foldl (fun c i =>
      c ||| if p.coeff (w - 1 - i) = 1 then BitVec.twoPow w i else 0#w) 0#w).getLsbD j =
        (decide (j < n) && decide (p.coeff (w - 1 - j) = 1)) by
    rw [reflect, h w, decide_eq_true hj, Bool.true_and]
  intro n
  induction n with
  | zero => simp
  | succ n ih =>
    rw [List.range_succ, List.foldl_append, List.foldl_cons, List.foldl_nil, BitVec.getLsbD_or, ih]
    rcases eq_or_ne j n with rfl | hne
    · split_ifs with hcoeff <;> simp [hcoeff, hj]
    · have hbit : (if p.coeff (w - 1 - n) = 1 then BitVec.twoPow w n else 0#w).getLsbD j =
          false := by
        split_ifs
        · simp [Ne.symm hne]
        · simp
      rw [hbit, Bool.or_false, show decide (j < n + 1) = decide (j < n) by
        rw [decide_eq_decide]
        omega]

/-- A polynomial of a register gives the register back. -/
theorem reflect_ofRegister (c : BitVec w) : reflect w (ofRegister c) = c := by
  refine BitVec.eq_of_getLsbD_eq ?_
  intro i hi
  rw [getLsbD_reflect _ hi, coeff_ofRegister, if_pos (by omega),
    show w - 1 - (w - 1 - i) = i by omega]
  cases c.getLsbD i <;> simp [bit]

theorem ofRegister_xor (c d : BitVec w) : ofRegister (c ^^^ d) = ofRegister c + ofRegister d := by
  simp only [ofRegister, BitVec.getLsbD_xor, bit_xor, C_add, add_mul, sum_add_distrib]

theorem ofRegister_twoPow {i : ℕ} (hi : i < w) :
    ofRegister (BitVec.twoPow w i) = X ^ (w - 1 - i) := by
  ext k
  rw [coeff_ofRegister, coeff_X_pow, BitVec.getLsbD_twoPow]
  by_cases hk : k = w - 1 - i
  · rw [if_pos (by omega), if_pos hk, decide_eq_true hi, decide_eq_true (by omega)]
    rfl
  · rw [if_neg hk]
    split_ifs with hlt
    · rw [decide_eq_false (p := i = w - 1 - k) (by omega), Bool.and_false]
      rfl
    · rfl

theorem generator_monic (P : BitVec w) : (generator P).Monic :=
  monic_X_pow_add (degree_ofRegister P)

theorem degree_generator (P : BitVec w) : (generator P).degree = w := by
  rw [generator, degree_add_eq_left_of_degree_lt, degree_X_pow]
  rw [degree_X_pow]
  exact degree_ofRegister P

/-- What a message is when another one comes behind it. -/
theorem message_append (front back : List Bool) :
    message (front ++ back) = X ^ back.length * message front + message back := by
  induction back using List.reverseRecOn with
  | nil => simp [message]
  | append_singleton back b ih =>
    rw [← List.append_assoc, message, List.foldl_append, ← message, ih]
    have hback : message (back ++ [b]) = X * message back + C (bit b) := by
      rw [message, List.foldl_append, ← message]
      rfl
    rw [hback, List.length_append]
    simp only [List.foldl_cons, List.foldl_nil, List.length_singleton]
    ring

theorem message_range (f : ℕ → Bool) (n : ℕ) :
    message ((List.range n).map f) = ∑ i ∈ range n, C (bit (f i)) * X ^ (n - 1 - i) := by
  induction n with
  | zero => rfl
  | succ n ih =>
    have hlast : message [f n] = C (bit (f n)) := by simp [message]
    rw [List.range_succ, List.map_append, message_append, ih, List.map_singleton, hlast,
      sum_range_succ, List.length_singleton, pow_one, mul_sum]
    congr 1
    · refine sum_congr rfl ?_
      intro i hi
      rw [mem_range] at hi
      rw [show n + 1 - 1 - i = n - 1 - i + 1 by omega]
      ring
    · simp

/-! ## 2. The loop -/

variable (P : BitVec w)

/-- One step of the loop: to the right, and the generator where a bit came out. -/
def shift (c : BitVec w) : BitVec w := (c >>> 1) ^^^ (if c.getLsbD 0 then P else 0#w)

/-- A chunk of `n` bits goes in, the first bit the lowest. -/
def feed (n : ℕ) (c chunk : BitVec w) : BitVec w := (shift P)^[n] (c ^^^ chunk)

/-- The bits of a chunk in the order in which they go in. -/
def chunkBits (n : ℕ) (chunk : BitVec w) : List Bool := (List.range n).map fun i => chunk.getLsbD i

/-- What division leaves of a message behind an initial register. -/
noncomputable def remainder (initial : BitVec w) (bits : List Bool) : (ZMod 2)[X] :=
  (X ^ bits.length * ofRegister initial + X ^ w * message bits) %ₘ generator P

theorem X_mul_ofRegister (hw : 0 < w) (c : BitVec w) :
    X * ofRegister c = ofRegister (c >>> 1) + C (bit (c.getLsbD 0)) * X ^ w := by
  ext k
  rw [coeff_add, coeff_C_mul, coeff_X_pow, coeff_ofRegister, BitVec.getLsbD_ushiftRight]
  cases k with
  | zero =>
    rw [coeff_X_mul_zero, if_pos hw, if_neg (by omega), BitVec.getLsbD_of_ge c _ (by omega)]
    simp [bit]
  | succ k =>
    rw [coeff_X_mul, coeff_ofRegister]
    rcases Nat.lt_trichotomy (k + 1) w with hlt | heq | hgt
    · rw [if_pos (by omega), if_pos hlt, if_neg (by omega), mul_zero, add_zero,
        show 1 + (w - 1 - (k + 1)) = w - 1 - k by omega]
    · rw [if_pos (by omega), if_neg (by omega), if_pos heq, mul_one, zero_add,
        show w - 1 - k = 0 by omega]
    · rw [if_neg (by omega), if_neg (by omega), if_neg (by omega), mul_zero, add_zero]

/-- **A step is a multiplication by the indeterminate**, modulo the generator. -/
theorem shift_dvd (hw : 0 < w) (c : BitVec w) :
    generator P ∣ ofRegister (shift P c) - X * ofRegister c := by
  rw [X_mul_ofRegister hw, shift, ofRegister_xor, generator]
  cases c.getLsbD 0 with
  | false =>
    simp [bit, ofRegister]
  | true =>
    refine dvd_of_eq ?_
    simp only [bit, if_true, C_1, one_mul, CharTwo.sub_eq_add]
    rw [add_add_add_comm, CharTwo.add_self_eq_zero, zero_add, add_comm]

/-- Several shifts multiply by a power of the indeterminate, modulo the generator. -/
theorem shifts_dvd (hw : 0 < w) (n : ℕ) (c : BitVec w) :
    generator P ∣ ofRegister ((shift P)^[n] c) - X ^ n * ofRegister c := by
  induction n with
  | zero => simp
  | succ n ih =>
    rw [Function.iterate_succ_apply']
    have hstep := dvd_add (shift_dvd P hw ((shift P)^[n] c)) (ih.mul_left X)
    convert hstep using 1
    ring

/-- A chunk stands for its bits, high up in the register. -/
theorem ofRegister_chunk {n : ℕ} (hn : n ≤ w) {chunk : BitVec w}
    (hchunk : ∀ i, n ≤ i → chunk.getLsbD i = false) :
    X ^ n * ofRegister chunk = X ^ w * message (chunkBits n chunk) := by
  rw [chunkBits, message_range fun i => chunk.getLsbD i, ofRegister,
    ← sum_subset (range_subset_range.mpr hn), mul_sum, mul_sum]
  · refine sum_congr rfl ?_
    intro i hi
    rw [mem_range] at hi
    rw [mul_left_comm, mul_left_comm (X ^ w), ← pow_add, ← pow_add,
      show n + (w - 1 - i) = w + (n - 1 - i) by omega]
  · intro i _ hi
    rw [mem_range, not_lt] at hi
    simp [hchunk i hi, bit]

/-- Feeding a chunk multiplies by a power and adds the chunk. -/
theorem feed_dvd (hw : 0 < w) {n : ℕ} (hn : n ≤ w) (c : BitVec w) {chunk : BitVec w}
    (hchunk : ∀ i, n ≤ i → chunk.getLsbD i = false) :
    generator P ∣ ofRegister (feed P n c chunk) -
      (X ^ n * ofRegister c + X ^ w * message (chunkBits n chunk)) := by
  have hshifts := shifts_dvd P hw n (c ^^^ chunk)
  rwa [ofRegister_xor, mul_add, ofRegister_chunk hn hchunk] at hshifts

/-- The loop over the chunks of a message. -/
theorem run_dvd (hw : 0 < w) {n : ℕ} (hn : n ≤ w) (initial : BitVec w) (chunks : List (BitVec w))
    (hchunks : ∀ chunk ∈ chunks, ∀ i, n ≤ i → chunk.getLsbD i = false) :
    generator P ∣ ofRegister (chunks.foldl (feed P n) initial) -
      (X ^ (chunks.flatMap (chunkBits n)).length * ofRegister initial +
        X ^ w * message (chunks.flatMap (chunkBits n))) := by
  induction chunks using List.reverseRecOn with
  | nil => simp [message]
  | append_singleton chunks chunk ih =>
    have hbefore := ih fun d hd => hchunks d (List.mem_append_left _ hd)
    have hlast := feed_dvd P hw hn (chunks.foldl (feed P n) initial)
      (hchunks chunk (List.mem_append_right _ List.mem_cons_self))
    have hlength : (chunkBits n chunk).length = n := by simp [chunkBits]
    rw [List.foldl_append, List.foldl_cons, List.foldl_nil, List.flatMap_append,
      List.flatMap_singleton, message_append, List.length_append, hlength]
    have hboth := dvd_add hlast (hbefore.mul_left (X ^ n))
    convert hboth using 1
    ring

/-- **The loop divides by the generator**, and the register is what is left. -/
theorem run_eq (hw : 0 < w) {n : ℕ} (hn : n ≤ w) (initial : BitVec w) (chunks : List (BitVec w))
    (hchunks : ∀ chunk ∈ chunks, ∀ i, n ≤ i → chunk.getLsbD i = false) :
    chunks.foldl (feed P n) initial =
      reflect w (remainder P initial (chunks.flatMap (chunkBits n))) := by
  have hself : ofRegister (chunks.foldl (feed P n) initial) %ₘ generator P =
      ofRegister (chunks.foldl (feed P n) initial) := by
    rw [modByMonic_eq_self_iff (generator_monic P), degree_generator]
    exact degree_ofRegister _
  rw [remainder, ← modByMonic_eq_of_dvd_sub (generator_monic P)
    (run_dvd P hw hn initial chunks hchunks), hself, reflect_ofRegister]

end Crc
