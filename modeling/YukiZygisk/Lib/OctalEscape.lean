/-
# Texts with some bytes escaped as octal

A byte of a chosen set is written as a backslash and its three octal digits, any other as itself.
The escaped text is the text itself exactly when nothing in it is escaped (`escape_eq_self`).  What
is made only of bytes that an escape does not write is a prefix, a part or the whole of the escaped
text exactly when it is one of the text (`prefix_escape`, `infix_escape`, `escape_eq_plain`).

The bytes of an escape are a backslash and digits.  If a text is searched for something that has
none of these bytes, an escape can neither be a part of what is found nor overlap it, so the search
is one in the text that was escaped.  That is `mem_escape` and the three equivalences built on it.
Where the searched text does have such bytes there is no such result, and a program that compares
escaped text with plain text goes wrong.
-/
import Mathlib

namespace OctalEscape

variable {special : UInt8 → Bool} {p s : List UInt8}

/-- A byte of the set as `\ooo`. -/
def escapeByte (special : UInt8 → Bool) (b : UInt8) : List UInt8 :=
  if special b then [92, 48 + b / 64, 48 + b / 8 % 8, 48 + b % 8] else [b]

def escape (special : UInt8 → Bool) (s : List UInt8) : List UInt8 := s.flatMap (escapeByte special)

/-- The bytes that an escape is written with. -/
def isEscapeText (b : UInt8) : Bool := b = 92 || (48 ≤ b && b < 56)

theorem escape_nil : escape special [] = [] := rfl

/-- An escaped byte is a backslash and three digits. -/
theorem escape_special {b : UInt8} (h : special b = true) :
    escape special (b :: s) =
      92 :: (48 + b / 64) :: (48 + b / 8 % 8) :: (48 + b % 8) :: escape special s := by
  rw [escape, List.flatMap_cons, escapeByte, if_pos h]
  rfl

theorem escape_other {b : UInt8} (h : special b ≠ true) :
    escape special (b :: s) = b :: escape special s := by
  rw [escape, List.flatMap_cons, escapeByte, if_neg h]
  rfl

/-! ## 1. When nothing is escaped -/

/-- Every escaped byte makes the text three bytes longer. -/
theorem length_escape :
    (escape special s).length = s.length + 3 * s.countP special := by
  induction s with
  | nil => rfl
  | cons b s ih =>
    by_cases h : special b = true
    · rw [escape_special h, List.countP_cons_of_pos h]
      simp only [List.length_cons, ih]
      omega
    · rw [escape_other h, List.countP_cons_of_neg h]
      simp only [List.length_cons, ih]
      omega

/-- A text is its own escape exactly when it has no byte of the set. -/
theorem escape_eq_self : escape special s = s ↔ ∀ b ∈ s, special b = false := by
  constructor
  · intro h b hb
    have hlen := congrArg List.length h
    rw [length_escape] at hlen
    have hzero : s.countP special = 0 := by omega
    exact Bool.eq_false_iff.mpr (List.countP_eq_zero.mp hzero b hb)
  · intro h
    induction s with
    | nil => rfl
    | cons b s ih =>
      rw [escape_other (by simp [h b]), ih fun c hc => h c (List.mem_cons_of_mem b hc)]

/-! ## 2. The bytes of an escaped text -/

theorem isEscapeText_digit (n : UInt8) (h : n < 8) : isEscapeText (48 + n) = true := by
  have hall : ∀ n : Fin 8, isEscapeText (48 + UInt8.ofNat n) = true := by decide
  have := hall ⟨n.toNat, UInt8.lt_iff_toNat_lt.mp h⟩
  rwa [UInt8.ofNat_toNat] at this

theorem escape_digits (b : UInt8) : b / 64 < 8 ∧ b / 8 % 8 < 8 ∧ b % 8 < 8 := by
  have hb := b.toNat_lt
  refine ⟨?_, ?_, ?_⟩ <;> rw [UInt8.lt_iff_toNat_lt] <;> simp <;> omega

/-- A byte of the escaped text is one of the text that is not escaped, or one of an escape. -/
theorem mem_escape {b : UInt8} (h : b ∈ escape special s) :
    (b ∈ s ∧ special b = false) ∨ isEscapeText b = true := by
  obtain ⟨c, hc, hb⟩ := List.mem_flatMap.mp h
  obtain ⟨hhigh, hmiddle, hlow⟩ := escape_digits c
  rw [escapeByte] at hb
  split at hb
  · simp only [List.mem_cons, List.not_mem_nil, or_false] at hb
    rcases hb with rfl | rfl | rfl | rfl
    · exact .inr rfl
    · exact .inr (isEscapeText_digit _ hhigh)
    · exact .inr (isEscapeText_digit _ hmiddle)
    · exact .inr (isEscapeText_digit _ hlow)
  · rename_i hspecial
    obtain rfl := List.mem_singleton.mp hb
    exact .inl ⟨hc, Bool.eq_false_iff.mpr hspecial⟩

/-! ## 3. Finding a plain text -/

/-- Made only of bytes that are not escaped, and that an escape is not written with. -/
def Plain (special : UInt8 → Bool) (p : List UInt8) : Prop :=
  ∀ b ∈ p, special b = false ∧ isEscapeText b = false

instance : Decidable (Plain special p) := inferInstanceAs (Decidable (∀ b ∈ p, _))

/-- No text of other bytes begins an escape. -/
theorem not_prefix_of_escapeText {a c : UInt8} {t : List UInt8} (ha : isEscapeText a = false)
    (hc : isEscapeText c = true) : ¬ a :: p <+: c :: t := by
  intro h
  rw [(List.cons_prefix_cons.mp h).1, hc] at ha
  cases ha

/-- A plain text begins the escaped text exactly when it begins the text. -/
theorem prefix_escape (hp : Plain special p) : p <+: escape special s ↔ p <+: s := by
  induction p generalizing s with
  | nil => exact ⟨fun _ => List.nil_prefix, fun _ => List.nil_prefix⟩
  | cons a p ih =>
    obtain ⟨hspecial, htext⟩ := hp a List.mem_cons_self
    cases s with
    | nil => rw [escape_nil]
    | cons b s =>
      by_cases h : special b = true
      · rw [escape_special h]
        refine iff_of_false (not_prefix_of_escapeText htext rfl) ?_
        intro hbegin
        rw [(List.cons_prefix_cons.mp hbegin).1, h] at hspecial
        cases hspecial
      · rw [escape_other h, List.cons_prefix_cons, List.cons_prefix_cons,
          ih fun c hc => hp c (List.mem_cons_of_mem a hc)]

/-- A plain text is a part of the escaped text exactly when it is one of the text. -/
theorem infix_escape (hp : Plain special p) (hne : p ≠ []) :
    p <:+: escape special s ↔ p <:+: s := by
  obtain ⟨a, p, rfl⟩ := List.exists_cons_of_ne_nil hne
  obtain ⟨hspecial, htext⟩ := hp a List.mem_cons_self
  induction s with
  | nil => rw [escape_nil]
  | cons b s ih =>
    rw [List.infix_cons_iff (a := b), ← prefix_escape hp (s := b :: s)]
    by_cases h : special b = true
    · obtain ⟨hhigh, hmiddle, hlow⟩ := escape_digits b
      -- The text does not begin at any of the four bytes of the escape.
      rw [escape_special h, List.infix_cons_iff, List.infix_cons_iff, List.infix_cons_iff,
        List.infix_cons_iff, ih]
      simp only [not_prefix_of_escapeText htext (isEscapeText_digit _ hhigh),
        not_prefix_of_escapeText htext (isEscapeText_digit _ hmiddle),
        not_prefix_of_escapeText htext (isEscapeText_digit _ hlow), false_or]
    · rw [escape_other h, List.infix_cons_iff, ih]

/-- The escaped text is a plain text exactly when the text is. -/
theorem escape_eq_plain (hp : Plain special p) : escape special s = p ↔ s = p := by
  constructor
  · rintro rfl
    have hbegin := (prefix_escape hp).mp List.prefix_rfl
    refine (hbegin.eq_of_length_le ?_).symm
    rw [length_escape]
    omega
  · rintro rfl
    exact escape_eq_self.mpr fun b hb => (hp b hb).1

end OctalEscape
