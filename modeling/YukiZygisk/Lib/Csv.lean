/-
# Lines of quoted fields

A text is read line by line, and a line is split at the separators outside quotes; in quotes a
doubled quote stands for one.  Fields that are enclosed in quotes and joined by separators are
read back as they were (`split_join`).

The scanner has one state bit, whether it is inside of quotes, and the lemmas `scan_sep` to
`scan_close` are its transitions, one for each kind of character.  `scan_doubled` takes it over a
field whose quotes were doubled, by induction on the field, and `scan_enclose` over a field with its
quotes around it.  Then `split_join` is an induction on the fields: each one is scanned to its
closing quote, and the separator behind it ends it.
-/
import Mathlib

namespace Csv

variable {α : Type*} [DecidableEq α]

/-! ## 1. Lines -/

/-- The lines read one after the other.  A newline at the end of the text begins no further line. -/
def lines (newline : α) : List α → List (List α)
  | [] => []
  | c :: text =>
    if c = newline then [] :: lines newline text
    else
      match lines newline text with
      | [] => [[c]]
      | line :: more => (c :: line) :: more

variable {newline quote sep : α} {text line field rest : List α}

theorem lines_eq_nil : lines newline text = [] ↔ text = [] := by
  cases text with
  | nil => simp only [lines]
  | cons c text =>
    rw [lines]
    by_cases hc : c = newline
    · simp [hc]
    · cases h : lines newline text <;> simp [hc]

/-! ## 2. Fields -/

/-- The fields of the rest of a line: whether it begins in quotes, and the field begun. -/
def scan (quote sep : α) : Bool → List α → List α → List (List α)
  | _, field, [] => [field]
  | quoted, field, c :: rest =>
    if c = quote then
      match rest with
      | [] => scan quote sep (!quoted) field []
      | d :: rest' =>
        if quoted = true ∧ d = quote then scan quote sep quoted (field ++ [quote]) rest'
        else scan quote sep (!quoted) field (d :: rest')
    else if c = sep ∧ quoted = false then field :: scan quote sep quoted [] rest
    else scan quote sep quoted (field ++ [c]) rest

def split (quote sep : α) (line : List α) : List (List α) := scan quote sep false [] line

/-- A field with its quotes doubled. -/
def doubled (quote : α) (field : List α) : List α :=
  field.flatMap fun c => if c = quote then [quote, quote] else [c]

/-- A field in quotes. -/
def enclose (quote : α) (field : List α) : List α := quote :: doubled quote field ++ [quote]

/-- Fields in quotes, joined by separators. -/
def join (quote sep : α) : List (List α) → List α
  | [] => []
  | [field] => enclose quote field
  | field :: more => enclose quote field ++ sep :: join quote sep more

theorem doubled_quote : doubled quote (quote :: field) = quote :: quote :: doubled quote field := by
  simp [doubled]

theorem doubled_other {c : α} (hc : c ≠ quote) :
    doubled quote (c :: field) = c :: doubled quote field := by
  simp [doubled, hc]

/-- A separator outside quotes ends a field. -/
theorem scan_sep (hsep : sep ≠ quote) :
    scan quote sep false field (sep :: rest) = field :: scan quote sep false [] rest := by
  conv_lhs => unfold scan
  simp only [if_neg hsep, and_self, if_true]

/-- In quotes any other sign is one of the field. -/
theorem scan_other {c : α} (hc : c ≠ quote) :
    scan quote sep true field (c :: rest) = scan quote sep true (field ++ [c]) rest := by
  conv_lhs => unfold scan
  simp only [if_neg hc, Bool.true_eq_false, and_false, if_false]

/-- In quotes a doubled quote is a quote of the field. -/
theorem scan_double :
    scan quote sep true field (quote :: quote :: rest) =
      scan quote sep true (field ++ [quote]) rest := by
  conv_lhs => unfold scan
  simp only [and_self, if_true]

/-- A quote opens the quotes. -/
theorem scan_open :
    scan quote sep false field (quote :: rest) = scan quote sep true field rest := by
  conv_lhs => unfold scan
  cases rest <;> simp

/-- A quote that is not doubled ends the quotes. -/
theorem scan_close (hrest : rest.head? ≠ some quote) :
    scan quote sep true field (quote :: rest) = scan quote sep false field rest := by
  cases rest with
  | nil => simp [scan]
  | cons d rest =>
    have hd : d ≠ quote := by simpa using hrest
    conv_lhs => unfold scan
    simp only [if_true, hd, and_false, if_false, Bool.not_true]

/-- In quotes a field is read up to the quote that ends it. -/
theorem scan_doubled (hrest : rest.head? ≠ some quote) (text field : List α) :
    scan quote sep true field (doubled quote text ++ quote :: rest) =
      scan quote sep false (field ++ text) rest := by
  induction text generalizing field with
  | nil => simpa [doubled] using scan_close hrest
  | cons c text ih =>
    by_cases hc : c = quote
    · rw [hc, doubled_quote, List.cons_append, List.cons_append, scan_double, ih,
        List.append_assoc, List.singleton_append]
    · rw [doubled_other hc, List.cons_append, scan_other hc, ih, List.append_assoc,
        List.singleton_append]

/-- A field in quotes is read as itself. -/
theorem scan_enclose (hrest : rest.head? ≠ some quote) (text : List α) :
    scan quote sep false [] (enclose quote text ++ rest) = scan quote sep false text rest := by
  have hopen : enclose quote text ++ rest = quote :: (doubled quote text ++ quote :: rest) := by
    simp [enclose]
  rw [hopen, scan_open, scan_doubled hrest, List.nil_append]

/-- **Fields in quotes are read back.** -/
theorem split_join (hsep : sep ≠ quote) {fields : List (List α)} (hne : fields ≠ []) :
    split quote sep (join quote sep fields) = fields := by
  rw [split]
  induction fields with
  | nil => exact absurd rfl hne
  | cons field more ih =>
    cases more with
    | nil =>
      have hread : scan quote sep false [] (enclose quote field ++ []) =
          scan quote sep false field [] := scan_enclose (by simp) field
      rw [List.append_nil] at hread
      rw [join, hread, scan]
    | cons next more =>
      have hhead : (sep :: join quote sep (next :: more)).head? ≠ some quote := by simpa using hsep
      have hjoin : join quote sep (field :: next :: more) =
          enclose quote field ++ sep :: join quote sep (next :: more) := rfl
      rw [hjoin, scan_enclose hhead, scan_sep hsep, ih (by simp)]

end Csv
