/-
# Reads that are checked

A program over a block of bytes that may read anywhere: a read that is not in the block has no
result, and neither has a program that does one.  So **a program that has a result has read in the
block only**, and a program with a result on every block reads nothing else whatever the bytes are.

A field is little-endian; a string ends at its first zero, which has to be in the block.

Programs are functions into `Option`, composed with `bind`, and `foldlM` is the loop over a list
that stops when a step has no result.  When no step of a loop fails, the loop is the plain fold
(`foldlM_eq`), so that a parser whose reads are in the block is the parser without checks; that is
how a theorem about checked reads becomes one about the plain text.  `foldlM_append` and
`foldl_last` are the two shapes of such loops: one that collects, and one that also keeps the last
element of some kind.
-/
import YukiZygisk.Lib.Bytes

namespace CheckedReads

variable {σ α : Type*} {bytes : List UInt8} {offset w n limit : ℕ}

/-! ## 1. Fields -/

/-- Some bytes of the block. -/
def fetch (bytes : List UInt8) (offset n : ℕ) : Option (List UInt8) :=
  if offset + n ≤ bytes.length then some ((bytes.drop offset).take n) else none

/-- A number of `w` bytes. -/
def field (bytes : List UInt8) (offset w : ℕ) : Option ℕ :=
  (fetch bytes offset w).map Bytes.ofBytes

theorem fetch_eq (h : offset + n ≤ bytes.length) :
    fetch bytes offset n = some ((bytes.drop offset).take n) := if_pos h

theorem field_eq (h : offset + w ≤ bytes.length) :
    field bytes offset w = some (Bytes.readAt offset w bytes) := by
  rw [field, fetch_eq h]
  rfl

/-! ## 2. Strings -/

/-- `strnlen`, which reads no further than the zero and the limit. -/
def strnlen : List UInt8 → ℕ → Option ℕ
  | _, 0 => some 0
  | [], _ + 1 => none
  | b :: bytes, limit + 1 => if b = 0 then some 0 else (strnlen bytes limit).map (· + 1)

/-- The bytes of a string, up to its zero. -/
def cString : List UInt8 → Option (List UInt8)
  | [] => none
  | b :: bytes => if b = 0 then some [] else (cString bytes).map (b :: ·)

/-- The length of a string up to its first zero, or to the limit. -/
theorem strnlen_eq (h : limit ≤ bytes.length) :
    strnlen bytes limit = some ((bytes.take limit).takeWhile (· ≠ 0)).length := by
  induction bytes generalizing limit with
  | nil =>
    obtain rfl : limit = 0 := Nat.le_zero.mp h
    rfl
  | cons b bytes ih =>
    cases limit with
    | zero => rfl
    | succ limit =>
      rw [strnlen, List.take_succ_cons, List.takeWhile_cons]
      by_cases hzero : b = 0
      · simp [hzero]
      · rw [if_neg hzero, ih (Nat.le_of_succ_le_succ h)]
        simp [hzero]

theorem cString_eq (h : (0 : UInt8) ∈ bytes) : cString bytes = some (bytes.takeWhile (· ≠ 0)) := by
  induction bytes with
  | nil => cases h
  | cons b bytes ih =>
    rw [cString, List.takeWhile_cons]
    by_cases hzero : b = 0
    · simp [hzero]
    · rw [if_neg hzero, ih ((List.mem_cons.mp h).resolve_left (Ne.symm hzero))]
      simp [hzero]

/-- A string that ends before the limit has its zero in the block. -/
theorem takeWhile_of_lt (h : limit ≤ bytes.length)
    (hlt : ((bytes.take limit).takeWhile (· ≠ 0)).length < limit) :
    (0 : UInt8) ∈ bytes ∧ (bytes.take limit).takeWhile (· ≠ 0) = bytes.takeWhile (· ≠ 0) := by
  induction bytes generalizing limit with
  | nil =>
    obtain rfl : limit = 0 := Nat.le_zero.mp h
    cases hlt
  | cons b bytes ih =>
    cases limit with
    | zero => cases hlt
    | succ limit =>
      rw [List.take_succ_cons, List.takeWhile_cons] at hlt ⊢
      rw [List.takeWhile_cons]
      by_cases hzero : b = 0
      · simp [hzero]
      · simp only [ne_eq, hzero, not_false_eq_true, decide_true, if_true, List.length_cons] at hlt ⊢
        obtain ⟨hmem, heq⟩ := ih (Nat.le_of_succ_le_succ h) (Nat.lt_of_succ_lt_succ hlt)
        exact ⟨List.mem_cons_of_mem _ hmem, by rw [← heq]⟩

/-! ## 3. Loops -/

/-- A loop whose turns have results has one. -/
theorem foldlM_eq {f : σ → α → Option σ} {g : σ → α → σ} {l : List α}
    (h : ∀ a ∈ l, ∀ s, f s a = some (g s a)) (s : σ) : l.foldlM f s = some (l.foldl g s) := by
  induction l generalizing s with
  | nil => rfl
  | cons a l ih =>
    rw [List.foldlM_cons, h a (List.mem_cons_self ..), List.foldl_cons]
    exact ih (fun b hb => h b (List.mem_cons_of_mem _ hb)) _

/-- A loop that appends. -/
theorem foldlM_append {f : List α → σ → Option (List α)} {g : σ → List α} {l : List σ}
    (h : ∀ a ∈ l, ∀ s, f s a = some (s ++ g a)) (s : List α) :
    l.foldlM f s = some (s ++ l.flatMap g) := by
  rw [foldlM_eq h]
  congr 1
  induction l generalizing s with
  | nil => rw [List.foldl_nil, List.flatMap_nil, List.append_nil]
  | cons a l ih =>
    rw [List.foldl_cons, ih (fun b hb => h b (List.mem_cons_of_mem _ hb)), List.flatMap_cons,
      List.append_assoc]

/-- A loop that appends, and keeps the last element with a property. -/
theorem foldl_last (p : α → Bool) (g : α → List σ) (l : List α) (s : List σ × Option α) :
    l.foldl (fun s a => (s.1 ++ g a, if p a then some a else s.2)) s =
      (s.1 ++ l.flatMap g, (l.filter p).getLast?.or s.2) := by
  induction l generalizing s with
  | nil => simp
  | cons a l ih =>
    rw [List.foldl_cons, ih, List.flatMap_cons, List.append_assoc]
    congr 1
    by_cases hp : p a = true
    · rw [List.filter_cons_of_pos hp, List.getLast?_cons, if_pos hp]
      cases (l.filter p).getLast? <;> rfl
    · rw [List.filter_cons_of_neg hp, if_neg hp]

end CheckedReads
