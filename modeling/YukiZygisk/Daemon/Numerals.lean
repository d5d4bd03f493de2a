/-
# What a number field may look like (`userspace/zygisk/daemon/root_policy.cpp`)

`parse_u32` reads the numbers of a policy file by `strtoull` and looks at what `strtoull` left.
That takes every decimal numeral that fits for what it is.  It takes more: `strtoull` skips blanks,
takes a sign, negates modulo 2^64, and stops at the first NUL, and none of that is looked at
(`Decorated`).

`parseU32_exact_iff`: the text is read as a decimal numeral, and refused when it is none, exactly
if it is not decorated.

`Reads` cuts a text into what `strtoull` makes of it: blanks, a sign or none, digits, and what is
behind the first NUL. A text that `parse_u32` accepts can be cut so with a value of 32 bits
(`reads_of_parseU32`), and one that can be cut so is accepted (`parseU32_of_reads`).  A numeral is
cut with nothing but digits.  A text that is `Decorated` can be cut with something else besides
them, so it is accepted and is no numeral (`numeral_of_decorated`), which makes the condition
exact.  The smallest surprise is a minus sign: the number behind it is negated modulo 2^64, so one
that is near enough to 2^64 passes the test of the range (`not_parseU32_exact`).
-/
import YukiZygisk.Daemon.PolicyFiles

namespace YukiZygisk.PolicyFiles

/-! ## 1. Decimal numerals -/

/-- The decimal numeral of a value that fits in 32 bits: digits only, and at least one. -/
def numeral (text : List UInt8) : Option UInt32 :=
  if text ≠ [] ∧ text.all isDigit = true ∧ decimal text ≤ uint32Max then
    some (UInt32.ofNat (decimal text))
  else none

/-- The value of the digits behind a sign, modulo 2^64. -/
def signedValue (sign digits : List UInt8) : Nat :=
  if sign = [45] then (ullongMax + 1 - decimal digits) % (ullongMax + 1) else decimal digits

/-- A text that `strtoull` reads to its end, or to a NUL, as a number of 32 bits: blanks, a sign or
none, digits, and what is behind the NUL. -/
structure Reads (text blanks sign digits rest : List UInt8) : Prop where
  parts : text = blanks ++ (sign ++ (digits ++ rest))
  blank : ∀ c ∈ blanks, isSpace c = true
  signed : sign = [] ∨ sign = [43] ∨ sign = [45]
  nonempty : digits ≠ []
  digit : ∀ c ∈ digits, isDigit c = true
  stops : rest = [] ∨ rest.head? = some 0
  range : decimal digits ≤ ullongMax
  fits : signedValue sign digits ≤ uint32Max

/-- There is something besides the digits. -/
def Decorated (text : List UInt8) : Prop :=
  ∃ blanks sign digits rest, Reads text blanks sign digits rest ∧
    ¬ (blanks = [] ∧ sign = [] ∧ rest = [])

/-! ## 2. The characters -/

theorem isSpace_ne_zero {c : UInt8} (h : isSpace c = true) : c ≠ 0 := by
  rintro rfl
  exact absurd h (by decide)

theorem isDigit_ne_zero {c : UInt8} (h : isDigit c = true) : c ≠ 0 := by
  rintro rfl
  exact absurd h (by decide)

theorem isSpace_of_isDigit {c : UInt8} (h : isDigit c = true) : isSpace c = false := by
  simp only [isDigit, Bool.and_eq_true, decide_eq_true_eq, UInt8.le_iff_toNat_le] at h
  simp only [isSpace, Bool.or_eq_false_iff, decide_eq_false_iff_not, Bool.and_eq_false_iff,
    UInt8.le_iff_toNat_le, ← UInt8.toNat_inj] at h ⊢
  simp at h ⊢
  omega

theorem not_sign_of_isDigit {c : UInt8} (h : isDigit c = true) : c ≠ 45 ∧ c ≠ 43 := by
  constructor <;> rintro rfl <;> exact absurd h (by decide)

/-- A run of characters is what `takeWhile` finds, and what `dropWhile` leaves is behind it. -/
theorem span_append {P : UInt8 → Bool} {run : List UInt8} (rest : List UInt8)
    (hrun : ∀ c ∈ run, P c = true) (hrest : ∀ c, rest.head? = some c → P c = false) :
    (run ++ rest).takeWhile P = run ∧ (run ++ rest).dropWhile P = rest := by
  have htake : rest.takeWhile P = [] := by
    cases rest with
    | nil => rfl
    | cons c rest => rw [List.takeWhile_cons_of_neg (by rw [hrest c rfl]; decide)]
  have hdrop : rest.dropWhile P = rest := by
    cases rest with
    | nil => rfl
    | cons c rest => rw [List.dropWhile_cons_of_neg (by rw [hrest c rfl]; decide)]
  rw [List.takeWhile_append_of_pos hrun, List.dropWhile_append_of_pos hrun, htake, hdrop,
    List.append_nil]
  exact ⟨rfl, rfl⟩

/-! ## 3. What `parse_u32` accepts -/

/-- What can be cut so is accepted. -/
theorem parseU32_of_reads {text blanks sign digits rest : List UInt8}
    (h : Reads text blanks sign digits rest) :
    parseU32 text = some (UInt32.ofNat (signedValue sign digits)) := by
  obtain ⟨rfl, hblank, hsign, hne, hdigit, hstops, hrange, hfits⟩ := h
  obtain ⟨d, ds, rfl⟩ := List.exists_cons_of_ne_nil hne
  have hd := hdigit d List.mem_cons_self
  -- the text up to its first NUL
  have hcStr : (blanks ++ (sign ++ (d :: ds ++ rest))).takeWhile (· ≠ 0) =
      blanks ++ (sign ++ d :: ds) := by
    rw [← List.append_assoc, ← List.append_assoc]
    have hrun : ∀ c ∈ blanks ++ sign ++ d :: ds, decide (c ≠ 0) = true := by
      intro c hc
      rw [decide_eq_true_eq]
      rcases List.mem_append.mp hc with hc | hc
      · rcases List.mem_append.mp hc with hc | hc
        · exact isSpace_ne_zero (hblank c hc)
        · rcases hsign with rfl | rfl | rfl <;> simp at hc <;> rw [hc] <;> decide
      · exact isDigit_ne_zero (hdigit c hc)
    refine (span_append _ hrun fun c hc => ?_).1.trans (List.append_assoc _ _ _)
    rcases hstops with rfl | hzero
    · cases hc
    · rw [hzero] at hc
      obtain rfl := Option.some.inj hc
      decide
  -- the blanks are skipped
  have htrimmed : (blanks ++ (sign ++ d :: ds)).dropWhile isSpace = sign ++ d :: ds := by
    refine (span_append _ hblank fun c hc => ?_).2
    rcases hsign with rfl | rfl | rfl
    · obtain rfl := Option.some.inj hc
      exact isSpace_of_isDigit hd
    · obtain rfl := Option.some.inj hc
      decide
    · obtain rfl := Option.some.inj hc
      decide
  have hspan := span_append [] hdigit (by rintro c ⟨⟩)
  rw [List.append_nil] at hspan
  have hnonempty : blanks ++ (sign ++ (d :: ds ++ rest)) ≠ [] := by simp
  have hmoved : ([] : List UInt8) ≠ blanks ++ (sign ++ d :: ds) := by simp
  have hparsed : strtoull (blanks ++ (sign ++ d :: ds)) =
      ⟨signedValue sign (d :: ds), [], false⟩ := by
    rw [strtoull, htrimmed]
    rcases hsign with rfl | rfl | rfl
    · obtain ⟨hminus, hplus⟩ := not_sign_of_isDigit hd
      simp [hminus, hplus, hspan.1, hspan.2, signedValue, Nat.not_lt.mpr hrange]
    · simp [hspan.1, hspan.2, signedValue, Nat.not_lt.mpr hrange]
    · simp [hspan.1, hspan.2, signedValue, Nat.not_lt.mpr hrange]
  rw [parseU32, if_neg hnonempty]
  dsimp only
  rw [hcStr, hparsed, if_neg]
  simp only [Bool.false_eq_true, false_or]
  rintro (h | h | h)
  · exact hmoved h
  · exact h rfl
  · omega

/-- What `strtoull` does with a text: it finds no number, or one out of range, or it reads blanks, a
sign and digits. -/
theorem strtoull_cases (text : List UInt8) :
    (strtoull text).stop = text ∨ (strtoull text).range = true ∨
      ∃ blanks sign digits rest, text = blanks ++ (sign ++ (digits ++ rest)) ∧
        (∀ c ∈ blanks, isSpace c = true) ∧ (sign = [] ∨ sign = [43] ∨ sign = [45]) ∧
        digits ≠ [] ∧ (∀ c ∈ digits, isDigit c = true) ∧ decimal digits ≤ ullongMax ∧
        strtoull text = ⟨signedValue sign digits, rest, false⟩ := by
  -- the sign, and what is behind it
  have hsplit : ∃ sign number, text.dropWhile isSpace = sign ++ number ∧
      (sign = [] ∨ sign = [43] ∨ sign = [45]) ∧
      strtoull text =
        if number.takeWhile isDigit = [] then ⟨0, text, false⟩
        else if decimal (number.takeWhile isDigit) > ullongMax then
          ⟨ullongMax, number.dropWhile isDigit, true⟩
        else ⟨signedValue sign (number.takeWhile isDigit), number.dropWhile isDigit, false⟩ := by
    rw [strtoull]
    cases htrimmed : text.dropWhile isSpace with
    | nil => exact ⟨[], [], rfl, .inl rfl, by simp⟩
    | cons c number =>
      by_cases hminus : c = 45
      · subst hminus
        exact ⟨[45], number, rfl, .inr (.inr rfl), by simp [signedValue]⟩
      by_cases hplus : c = 43
      · subst hplus
        exact ⟨[43], number, rfl, .inr (.inl rfl), by simp [signedValue]⟩
      · exact ⟨[], c :: number, rfl, .inl rfl, by simp [signedValue, hminus, hplus]⟩
  obtain ⟨sign, number, htrimmed, hsigned, hparsed⟩ := hsplit
  split_ifs at hparsed with hdigits hrange
  · rw [hparsed]
    exact .inl rfl
  · rw [hparsed]
    exact .inr (.inl rfl)
  · refine .inr (.inr ⟨text.takeWhile isSpace, sign, number.takeWhile isDigit,
      number.dropWhile isDigit, ?_, fun c hc => List.mem_takeWhile_imp hc, hsigned, hdigits,
      fun c hc => List.mem_takeWhile_imp hc, Nat.not_lt.mp hrange, hparsed⟩)
    rw [List.takeWhile_append_dropWhile, ← htrimmed, List.takeWhile_append_dropWhile]

/-- What is accepted can be cut so. -/
theorem reads_of_parseU32 {text : List UInt8} {value : UInt32} (h : parseU32 text = some value) :
    ∃ blanks sign digits rest, Reads text blanks sign digits rest ∧
      value = UInt32.ofNat (signedValue sign digits) := by
  rw [parseU32] at h
  split_ifs at h with hempty
  dsimp only at h
  split_ifs at h with hbad
  simp only [not_or, Nat.not_lt, not_not] at hbad
  obtain ⟨hrange, hmoved, hstop, hfits⟩ := hbad
  rcases strtoull_cases (text.takeWhile (· ≠ 0)) with hnone | hout |
    ⟨blanks, sign, digits, rest, hparts, hblank, hsigned, hne, hdigit, hmax, hparsed⟩
  · exact absurd hnone hmoved
  · exact absurd hout hrange
  · rw [hparsed] at hstop hfits h
    have hrest : rest = [] := hstop
    refine ⟨blanks, sign, digits, text.dropWhile (· ≠ 0), ⟨?_, hblank, hsigned, hne, hdigit, ?_,
      hmax, hfits⟩, (Option.some.inj h).symm⟩
    · conv_lhs => rw [← List.takeWhile_append_dropWhile (p := fun c => decide (c ≠ 0)) (l := text)]
      rw [hparts, hrest]
      simp only [List.append_nil, List.append_assoc]
    · cases htail : text.dropWhile (· ≠ 0) with
      | nil => exact .inl rfl
      | cons c tail =>
        have hc := List.head?_dropWhile_not (fun c => decide (c ≠ 0)) text
        rw [htail] at hc
        right
        simpa using hc

/-! ## 4. When that is the numerals -/

/-- What is decorated is no numeral. -/
theorem numeral_of_decorated {text : List UInt8} (h : Decorated text) : numeral text = none := by
  obtain ⟨blanks, sign, digits, rest, hreads, hmore⟩ := h
  refine if_neg ?_
  rintro ⟨-, hall, -⟩
  refine hmore ?_
  rw [List.all_eq_true] at hall
  obtain ⟨rfl, hblank, hsigned, -, -, hstops, -, -⟩ := hreads
  refine ⟨?_, ?_, ?_⟩
  · refine List.eq_nil_iff_forall_not_mem.mpr ?_
    intro c hc
    have hdigit := isSpace_of_isDigit (hall c (List.mem_append_left _ hc))
    rw [hblank c hc] at hdigit
    cases hdigit
  · rcases hsigned with rfl | rfl | rfl
    · rfl
    · exact absurd (hall 43 (by simp)) (by decide)
    · exact absurd (hall 45 (by simp)) (by decide)
  · rcases hstops with rfl | hzero
    · rfl
    · obtain ⟨tail, rfl⟩ := List.head?_eq_some_iff.mp hzero
      exact absurd (hall 0 (by simp)) (by decide)

/-- **A text is read as a decimal numeral that fits, and refused when it is none, exactly if it is
not decorated.** -/
theorem parseU32_exact_iff (text : List UInt8) :
    parseU32 text = numeral text ↔ ¬ Decorated text := by
  constructor
  · intro h hdecorated
    obtain ⟨blanks, sign, digits, rest, hreads, -⟩ := id hdecorated
    rw [parseU32_of_reads hreads, numeral_of_decorated hdecorated] at h
    cases h
  · intro hplain
    cases hparse : parseU32 text with
    | some value =>
      obtain ⟨blanks, sign, digits, rest, hreads, rfl⟩ := reads_of_parseU32 hparse
      have hnone : blanks = [] ∧ sign = [] ∧ rest = [] := by
        by_contra hmore
        exact hplain ⟨blanks, sign, digits, rest, hreads, hmore⟩
      obtain ⟨rfl, rfl, rfl⟩ := hnone
      obtain ⟨rfl, -, -, hne, hdigit, -, -, hfits⟩ := hreads
      simp only [List.nil_append, List.append_nil, signedValue, List.nil_eq, reduceCtorEq,
        if_false] at hne hfits ⊢
      rw [numeral, if_pos ⟨hne, List.all_eq_true.mpr hdigit, hfits⟩]
    | none =>
      rw [numeral, if_neg]
      rintro ⟨hne, hall, hfits⟩
      have hreads : Reads text [] [] text [] := by
        refine ⟨?_, by rintro c ⟨⟩, .inl rfl, hne, List.all_eq_true.mp hall, .inl rfl, ?_, ?_⟩
        · rw [List.append_nil, List.nil_append, List.nil_append]
        · exact hfits.trans (by decide)
        · rwa [signedValue, if_neg (by decide)]
      rw [parseU32_of_reads hreads] at hparse
      cases hparse

/-- `-18446744073709551615` is read as one. -/
theorem not_parseU32_exact : ¬ ∀ text, parseU32 text = numeral text := by
  intro h
  have hone := h [45, 49, 56, 52, 52, 54, 55, 52, 52, 48, 55, 51, 55, 48, 57, 53, 53, 49, 54, 49, 53]
  exact absurd hone (by decide)

end YukiZygisk.PolicyFiles
