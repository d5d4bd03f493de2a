/-
# Words between separators

The words of a list are its longest nonempty pieces without a separator.  A program rarely splits a
text at once: it skips separators, takes a word, and goes on with what follows it.  `tokens_eq` says
that this gives the words, and the lemmas before it how words come about when texts are put
together.

`words p l` is Mathlib's splitting at the separators without the empty pieces.  `next` is what such
a loop does once, and `words_next` says that its word is the first one and that the words of the
rest are the others.  Trimming takes separators off both ends and so keeps the words
(`words_trim`).  For a text that is put together from words and gaps, `words_append_gap` and its
neighbours give the words of the whole from those of the parts, provided that a separator stands
between.
-/
import Mathlib

namespace Words

variable {α : Type*} {p : α → Bool} {a : α} {l l' w s rest : List α} {fuel : ℕ}

/-! ## 1. Words -/

def words (p : α → Bool) (l : List α) : List (List α) := (l.splitOnP p).filter (!·.isEmpty)

@[simp] theorem words_nil : words p [] = [] := by simp [words]

theorem words_append_cons (l l' : List α) (h : p a = true) :
    words p (l ++ a :: l') = words p l ++ words p l' := by
  rw [words, List.splitOnP_append_cons l l' h, List.filter_append]
  rfl

theorem words_cons (h : p a = true) : words p (a :: l) = words p l := by
  have hsplit := words_append_cons [] l h
  rwa [words_nil, List.nil_append, List.nil_append] at hsplit

theorem words_singleton (h : ∀ x ∈ w, p x = false) (hw : w ≠ []) : words p w = [w] := by
  rw [words, List.splitOnP_eq_singleton h]
  simp [hw]

/-- Separators in front do not matter. -/
theorem words_blank_append (h : ∀ x ∈ s, p x = true) : words p (s ++ l) = words p l := by
  induction s with
  | nil => rfl
  | cons a s ih =>
    rw [List.cons_append, words_cons (h a (List.mem_cons_self ..))]
    exact ih fun x hx => h x (List.mem_cons_of_mem _ hx)

/-- Nor do separators behind. -/
theorem words_append_blank (h : ∀ x ∈ s, p x = true) : words p (l ++ s) = words p l := by
  cases s with
  | nil => rw [List.append_nil]
  | cons a s =>
    have hblank := words_blank_append (l := []) fun x hx => h x (List.mem_cons_of_mem _ hx)
    rw [List.append_nil, words_nil] at hblank
    rw [words_append_cons _ _ (h a (List.mem_cons_self ..)), hblank, List.append_nil]

/-- A word, up to the separator that ends it. -/
theorem words_append (h : ∀ x ∈ w, p x = false) (hw : w ≠ [])
    (hrest : ∀ x ∈ rest.head?, p x = true) : words p (w ++ rest) = w :: words p rest := by
  cases rest with
  | nil => rw [List.append_nil, words_singleton h hw, words_nil]
  | cons a rest =>
    have ha : p a = true := hrest a rfl
    rw [words_append_cons _ _ ha, words_singleton h hw, words_cons ha]
    rfl

/-- A word and a gap behind it. -/
theorem words_append_gap (h : ∀ x ∈ w, p x = false) (hw : w ≠ []) (hs : ∀ x ∈ s, p x = true)
    (hne : s ≠ []) : words p (w ++ (s ++ l)) = w :: words p l := by
  have hhead : ∀ x ∈ (s ++ l).head?, p x = true := by
    intro x hx
    rw [List.head?_append_of_ne_nil s hne] at hx
    exact hs x (List.mem_of_mem_head? hx)
  rw [words_append h hw hhead, words_blank_append hs]

/-- A word with nothing but separators behind it. -/
theorem words_append_end (h : ∀ x ∈ w, p x = false) (hw : w ≠ []) (hs : ∀ x ∈ s, p x = true) :
    words p (w ++ s) = [w] := by
  rw [words_append_blank hs, words_singleton h hw]

theorem ne_nil_of_mem_words (h : w ∈ words p l) : w ≠ [] := by
  rw [words, List.mem_filter] at h
  simpa using h.2

theorem words_dropWhile (p : α → Bool) (l : List α) : words p (l.dropWhile p) = words p l := by
  have hblank : ∀ x ∈ l.takeWhile p, p x = true := fun x hx => List.mem_takeWhile_imp hx
  rw [← words_blank_append hblank (l := l.dropWhile p), List.takeWhile_append_dropWhile]

/-! ## 2. Taking words one by one -/

/-- The next word, and what follows it. -/
def next (p : α → Bool) (l : List α) : List α × List α :=
  ((l.dropWhile p).takeWhile fun x => !p x, (l.dropWhile p).dropWhile fun x => !p x)

/-- What is skipped and what is taken make the text. -/
theorem next_append (p : α → Bool) (l : List α) : (next p l).1 ++ (next p l).2 = l.dropWhile p :=
  List.takeWhile_append_dropWhile

/-- A word that is taken makes the rest shorter. -/
theorem length_next (p : α → Bool) (l : List α) :
    (next p l).1.length + (next p l).2.length ≤ l.length := by
  rw [← List.length_append, next_append]
  exact (List.dropWhile_sublist p).length_le

theorem words_next (p : α → Bool) (l : List α) :
    words p l = if (next p l).1 = [] then [] else (next p l).1 :: words p (next p l).2 := by
  rw [← words_dropWhile, ← next_append]
  split_ifs with hnil
  · -- nothing is left but separators
    have hdrop : l.dropWhile p = [] := by
      cases hl : l.dropWhile p with
      | nil => rfl
      | cons a rest =>
        have ha : p a = false := by
          have hhead := List.head_dropWhile_not p (by simp [hl] : l.dropWhile p ≠ [])
          simpa [hl] using hhead
        simp [next, hl, ha] at hnil
    simp [next, hdrop]
  · apply words_append _ hnil
    · intro x hx
      unfold next at hx
      cases hrest : (l.dropWhile p).dropWhile fun x => !p x with
      | nil => simp [hrest] at hx
      | cons a rest =>
        have ha := List.head_dropWhile_not (fun x => !p x)
          (by simp [hrest] : (l.dropWhile p).dropWhile (fun x => !p x) ≠ [])
        simp only [hrest, List.head?_cons, Option.mem_some_iff, List.head_cons,
          Bool.not_eq_false'] at hx ha
        rwa [← hx]
    · intro x hx
      simpa using List.mem_takeWhile_imp hx

/-- A loop over `next`, as long as there is a word. -/
def tokens (p : α → Bool) : ℕ → List α → List (List α)
  | 0, _ => []
  | fuel + 1, l =>
    if (next p l).1.isEmpty then [] else (next p l).1 :: tokens p fuel (next p l).2

/-- **The words, taken one by one.** -/
theorem tokens_eq (h : l.length < fuel) : tokens p fuel l = words p l := by
  induction fuel generalizing l with
  | zero => omega
  | succ fuel ih =>
    rw [tokens, words_next]
    by_cases hnil : (next p l).1 = []
    · simp [hnil]
    · have hlen := length_next p l
      have hpos : 0 < (next p l).1.length := List.length_pos_iff.mpr hnil
      rw [if_neg (by simpa using hnil), if_neg hnil, ih (by omega)]

/-! ## 3. Trimming -/

/-- A list without the separators at its ends. -/
def trim (p : α → Bool) (l : List α) : List α := (((l.dropWhile p).reverse.dropWhile p).reverse)

theorem words_trim (p : α → Bool) (l : List α) : words p (trim p l) = words p l := by
  have hsplit : l.dropWhile p = trim p l ++ ((l.dropWhile p).reverse.takeWhile p).reverse := by
    rw [trim, ← List.reverse_append, List.takeWhile_append_dropWhile, List.reverse_reverse]
  have hblank : ∀ x ∈ ((l.dropWhile p).reverse.takeWhile p).reverse, p x = true := fun x hx =>
    List.mem_takeWhile_imp (List.mem_reverse.mp hx)
  rw [← words_dropWhile p l, hsplit, words_append_blank hblank]

/-- A trimmed list begins with its first word. -/
theorem head?_trim (p : α → Bool) (l : List α) :
    (trim p l).head? = (words p l).head?.bind List.head? := by
  have hhead : ∀ x ∈ (trim p l).head?, p x = false := by
    intro x hx
    have hmem : x ∈ (l.dropWhile p).head? := by
      have hpre : trim p l <+: l.dropWhile p := by
        rw [trim, ← List.reverse_suffix, List.reverse_reverse]
        exact List.dropWhile_suffix p
      obtain ⟨t, ht⟩ := hpre
      cases htrim : trim p l with
      | nil => simp [htrim] at hx
      | cons y ys =>
        rw [htrim] at hx ht
        rw [← ht]
        exact hx
    cases hl : l.dropWhile p with
    | nil => simp [hl] at hmem
    | cons a rest =>
      have ha := List.head_dropWhile_not p (by simp [hl] : l.dropWhile p ≠ [])
      simp only [hl, List.head?_cons, Option.mem_some_iff, List.head_cons] at hmem ha
      rwa [← hmem]
  rw [← words_trim, words_next]
  cases htrim : trim p l with
  | nil => simp [next]
  | cons a rest =>
    have ha : p a = false := hhead a (by rw [htrim]; rfl)
    simp [next, ha]

end Words
