/-
# JSON texts

The grammar of JSON over bytes.  A value is derived together with its text; the leaves of the
grammar, the numbers and the bodies of strings, are checked by functions.  Strings are decoded to
bytes: an escape of four digits stands for the bytes of its code unit in UTF-8, and other bytes
stand for themselves, whether or not they are UTF-8 together.

`read` is a reader that accepts what the grammar derives and gives its value back
(`read_of_jsonText`), so a text has one value at most.

The grammar is a family of inductive relations: `Derives` for values, `Elements` and `Members` for
what is between brackets and braces.  White space may stand around every token, which the relations
say by naming it.  The reader is a recursive descent with fuel.  That it accepts what is derived is
one induction over the three relations (`readValue_of_derives`): each case skips the white space,
finds the first byte of the value, which says which kind it is (`derives_begins`), and reads on; the
fuel is bounded by the length of the text.  Strings and numbers are leaves, for which
`readString_of_decode` and `numberRun` say where the reader stops.
-/
import Mathlib

namespace JsonGrammar

abbrev Text := List UInt8

/-! ## 1. Bytes -/

abbrev quote : UInt8 := 34
abbrev comma : UInt8 := 44
abbrev colon : UInt8 := 58
abbrev openBracket : UInt8 := 91
abbrev backslash : UInt8 := 92
abbrev closeBracket : UInt8 := 93
abbrev openBrace : UInt8 := 123
abbrev closeBrace : UInt8 := 125

/-- Space, tab, line feed and carriage return. -/
def isBlank (c : UInt8) : Bool := c = 32 || c = 9 || c = 10 || c = 13

def isDigit (c : UInt8) : Bool := 48 ≤ c && c ≤ 57

/-- The bytes that numbers consist of: digits, signs, the point and the letter of the exponent. -/
def isNumberByte (c : UInt8) : Bool :=
  isDigit c || c = 43 || c = 45 || c = 46 || c = 69 || c = 101

/-! ## 2. Numbers and strings -/

/-- A letter for the exponent, a sign or none, and digits. -/
def isExponent : Text → Bool
  | [] => true
  | c :: rest =>
    let digits := if rest.head? = some 43 ∨ rest.head? = some 45 then rest.tail else rest
    (c = 69 || c = 101) && !digits.isEmpty && digits.all isDigit

/-- A point and digits, or nothing, before the exponent. -/
def isFraction : Text → Bool
  | [] => true
  | c :: rest =>
    if c = 46 then
      (rest.head?.any isDigit) && isExponent (rest.dropWhile isDigit)
    else isExponent (c :: rest)

/-- A number without its sign.  It has no zeros in front. -/
def isUnsigned : Text → Bool
  | [] => false
  | c :: rest => isDigit c && isFraction (if c = 48 then rest else rest.dropWhile isDigit)

/-- The bytes are a number. -/
def isNumber (t : Text) : Bool :=
  t.all isNumberByte && isUnsigned (if t.head? = some 45 then t.tail else t)

/-- The byte that an escape of one letter stands for. -/
def simpleEscape (c : UInt8) : Option UInt8 :=
  if c = quote ∨ c = backslash ∨ c = 47 then some c
  else if c = 98 then some 8
  else if c = 102 then some 12
  else if c = 110 then some 10
  else if c = 114 then some 13
  else if c = 116 then some 9
  else none

/-- The value of a hexadecimal digit. -/
def hexValue (c : UInt8) : Option ℕ :=
  if isDigit c then some (c.toNat - 48)
  else if 65 ≤ c && c ≤ 70 then some (c.toNat - 55)
  else if 97 ≤ c && c ≤ 102 then some (c.toNat - 87)
  else none

/-- The value of four hexadecimal digits. -/
def hexUnit (a b c d : UInt8) : Option ℕ :=
  match hexValue a, hexValue b, hexValue c, hexValue d with
  | some a, some b, some c, some d => some (((a * 16 + b) * 16 + c) * 16 + d)
  | _, _, _, _ => none

/-- The bytes of a code unit. -/
def utf8 (n : ℕ) : Text :=
  if n < 0x80 then [UInt8.ofNat n]
  else if n < 0x800 then [UInt8.ofNat (0xc0 + n / 64), UInt8.ofNat (0x80 + n % 64)]
  else [UInt8.ofNat (0xe0 + n / 4096), UInt8.ofNat (0x80 + n / 64 % 64),
    UInt8.ofNat (0x80 + n % 64)]

/-- The string with this body: no quotation mark and no control byte stands in it, and every
backslash begins an escape. -/
def decode : Text → Option Text
  | [] => some []
  | c :: rest =>
    if c = backslash then
      match rest with
      | [] => none
      | e :: rest =>
        if e = 117 then
          match rest with
          | h₁ :: h₂ :: h₃ :: h₄ :: rest =>
            (hexUnit h₁ h₂ h₃ h₄).bind fun n => (decode rest).map (utf8 n ++ ·)
          | _ => none
        else (simpleEscape e).bind fun b => (decode rest).map (b :: ·)
    else if c < 32 ∨ c = quote then none
    else (decode rest).map (c :: ·)

/-! ## 3. The grammar -/

/-- A JSON value.  A number is its text, and an object the list of its members. -/
inductive Value where
  | null
  | bool (b : Bool)
  | number (t : Text)
  | string (s : Text)
  | array (a : List Value)
  | object (o : List (Text × Value))

/-- Nothing but white space. -/
def Blank (w : Text) : Prop := ∀ c ∈ w, isBlank c = true

/-- `null`, `true` and `false`. -/
def nullText : Text := [110, 117, 108, 108]
def trueText : Text := [116, 114, 117, 101]
def falseText : Text := [102, 97, 108, 115, 101]

/-- A string with a colon behind it. -/
inductive Key : Text → Text → Prop
  | mk {w w' s t : Text} (hw : Blank w) (h : decode t = some s) (hw' : Blank w') :
    Key s (w ++ (quote :: (t ++ quote :: (w' ++ [colon]))))

mutual

/-- The value has this text, without white space around it. -/
inductive Derives : Value → Text → Prop
  | null : Derives .null nullText
  | true : Derives (.bool true) trueText
  | false : Derives (.bool false) falseText
  | number {t : Text} (h : isNumber t = Bool.true) : Derives (.number t) t
  | string {s t : Text} (h : decode t = some s) : Derives (.string s) (quote :: (t ++ [quote]))
  | emptyArray {w : Text} (hw : Blank w) :
    Derives (.array []) (openBracket :: (w ++ [closeBracket]))
  | array {a : List Value} {t : Text} (h : Elements a t) :
    Derives (.array a) (openBracket :: (t ++ [closeBracket]))
  | emptyObject {w : Text} (hw : Blank w) :
    Derives (.object []) (openBrace :: (w ++ [closeBrace]))
  | object {o : List (Text × Value)} {t : Text} (h : Members o t) :
    Derives (.object o) (openBrace :: (t ++ [closeBrace]))

/-- The values have this text, with commas between them. -/
inductive Elements : List Value → Text → Prop
  | one {w w' t : Text} {v : Value} (hw : Blank w) (h : Derives v t) (hw' : Blank w') :
    Elements [v] (w ++ (t ++ w'))
  | cons {w w' t s : Text} {v : Value} {a : List Value} (hw : Blank w) (h : Derives v t)
    (hw' : Blank w') (hs : Elements a s) : Elements (v :: a) (w ++ (t ++ (w' ++ comma :: s)))

/-- The members have this text, with commas between them. -/
inductive Members : List (Text × Value) → Text → Prop
  | one {k key w w' t : Text} {v : Value} (hk : Key key k) (hw : Blank w) (h : Derives v t)
    (hw' : Blank w') : Members [(key, v)] (k ++ (w ++ (t ++ w')))
  | cons {k key w w' t s : Text} {v : Value} {o : List (Text × Value)} (hk : Key key k)
    (hw : Blank w) (h : Derives v t) (hw' : Blank w') (hs : Members o s) :
    Members ((key, v) :: o) (k ++ (w ++ (t ++ (w' ++ comma :: s))))

end

/-- **The bytes are one JSON text, with this value.** -/
def JsonText (v : Value) (t : Text) : Prop :=
  ∃ w t' w', Blank w ∧ Derives v t' ∧ Blank w' ∧ t = w ++ (t' ++ w')

/-! ## 4. A reader -/

/-- The text behind white space. -/
def skipBlank (t : Text) : Text := t.dropWhile isBlank

/-- The body of a string and the text behind its end. -/
def untilQuote : Text → Option (Text × Text)
  | [] => none
  | c :: rest =>
    if c = quote then some ([], rest)
    else if c = backslash then
      match rest with
      | [] => none
      | e :: rest => (untilQuote rest).map fun r => (c :: e :: r.1, r.2)
    else (untilQuote rest).map fun r => (c :: r.1, r.2)

/-- A string without its first quotation mark. -/
def readString (t : Text) : Option (Text × Text) :=
  (untilQuote t).bind fun r => (decode r.1).map fun s => (s, r.2)

/-- The text behind a byte. -/
def expect (c : UInt8) : Text → Option Text
  | [] => none
  | d :: rest => if d = c then some rest else none

/-- The text behind a literal. -/
def expectAll (literal t : Text) : Option Text :=
  if literal.isPrefixOf t then some (t.drop literal.length) else none

mutual

/-- A value at the beginning of the text, and what is behind it. -/
def readValue : ℕ → Text → Option (Value × Text)
  | 0, _ => none
  | _, [] => none
  | n + 1, c :: rest =>
    if c = quote then (readString rest).map fun r => (.string r.1, r.2)
    else if c = openBracket then
      match expect closeBracket (skipBlank rest) with
      | some rest => some (.array [], rest)
      | none => (readElements n rest).map fun r => (.array r.1, r.2)
    else if c = openBrace then
      match expect closeBrace (skipBlank rest) with
      | some rest => some (.object [], rest)
      | none => (readMembers n rest).map fun r => (.object r.1, r.2)
    else if isNumberByte c then
      let t := (c :: rest).takeWhile isNumberByte
      if isNumber t then some (.number t, (c :: rest).dropWhile isNumberByte) else none
    else if c = 110 then (expectAll nullText (c :: rest)).map fun rest => (.null, rest)
    else if c = 116 then (expectAll trueText (c :: rest)).map fun rest => (.bool true, rest)
    else (expectAll falseText (c :: rest)).map fun rest => (.bool false, rest)

/-- The elements of an array up to its end. -/
def readElements : ℕ → Text → Option (List Value × Text)
  | 0, _ => none
  | n + 1, t =>
    (readValue n (skipBlank t)).bind fun r =>
      match expect comma (skipBlank r.2) with
      | some rest => (readElements n rest).map fun r' => (r.1 :: r'.1, r'.2)
      | none => (expect closeBracket (skipBlank r.2)).map fun rest => ([r.1], rest)

/-- The members of an object up to its end. -/
def readMembers : ℕ → Text → Option (List (Text × Value) × Text)
  | 0, _ => none
  | n + 1, t =>
    (expect quote (skipBlank t)).bind fun t =>
      (readString t).bind fun key =>
        (expect colon (skipBlank key.2)).bind fun t =>
          (readValue n (skipBlank t)).bind fun r =>
            match expect comma (skipBlank r.2) with
            | some rest => (readMembers n rest).map fun r' => ((key.1, r.1) :: r'.1, r'.2)
            | none =>
              (expect closeBrace (skipBlank r.2)).map fun rest => ([(key.1, r.1)], rest)

end

/-- The value of a JSON text. -/
def read (t : Text) : Option Value :=
  (readValue (t.length + 1) (skipBlank t)).bind fun r =>
    if (skipBlank r.2).isEmpty then some r.1 else none

/-! ## 5. What the reader makes of the leaves -/

variable {c d : UInt8} {t t' w rest s k key : Text} {v : Value} {n : ℕ}

theorem hexValue_ne (h : hexValue c ≠ none) : c ≠ quote ∧ c ≠ backslash := by
  constructor
  · rintro rfl
    exact h (by decide)
  · rintro rfl
    exact h (by decide)

/-- The four digits of an escape are digits. -/
theorem hexUnit_some {a b : UInt8} {m : ℕ} (h : hexUnit a b c d = some m) :
    hexValue a ≠ none ∧ hexValue b ≠ none ∧ hexValue c ≠ none ∧ hexValue d ≠ none := by
  rw [hexUnit] at h
  cases ha : hexValue a <;> cases hb : hexValue b <;> cases hc : hexValue c <;>
    cases hd : hexValue d <;> simp_all

/-- A byte that is neither a quote nor a backslash is passed over. -/
theorem untilQuote_plain (hquote : c ≠ quote) (hback : c ≠ backslash) (t : Text) :
    untilQuote (c :: t) = (untilQuote t).map fun r => (c :: r.1, r.2) := by
  rw [untilQuote.eq_def]
  exact (if_neg hquote).trans (if_neg hback)

theorem untilQuote_end (t : Text) : untilQuote (quote :: t) = some ([], t) := by
  rw [untilQuote.eq_def]
  exact if_pos rfl

/-- A backslash takes the byte behind it along. -/
theorem untilQuote_escape (e : UInt8) (t : Text) :
    untilQuote (backslash :: e :: t) =
      (untilQuote t).map fun r => (backslash :: e :: r.1, r.2) := by
  rw [untilQuote.eq_def]
  exact (if_neg (by decide)).trans (if_pos rfl)

/-- The body of a string goes to the next quotation mark that is not escaped. -/
theorem untilQuote_of_decode (h : decode t = some s) (rest : Text) :
    untilQuote (t ++ quote :: rest) = some (t, rest) := by
  fun_induction decode t generalizing s with
  | case1 => exact untilQuote_end rest
  | case2 => cases h
  | case3 h₁ h₂ h₃ h₄ t ih =>
    obtain ⟨m, hunit, hrest⟩ := Option.bind_eq_some_iff.mp h
    obtain ⟨s', hs', -⟩ := Option.map_eq_some_iff.mp hrest
    obtain ⟨hv₁, hv₂, hv₃, hv₄⟩ := hexUnit_some hunit
    simp only [List.cons_append]
    rw [untilQuote_escape, untilQuote_plain (hexValue_ne hv₁).1 (hexValue_ne hv₁).2,
      untilQuote_plain (hexValue_ne hv₂).1 (hexValue_ne hv₂).2,
      untilQuote_plain (hexValue_ne hv₃).1 (hexValue_ne hv₃).2,
      untilQuote_plain (hexValue_ne hv₄).1 (hexValue_ne hv₄).2, ih hs']
    rfl
  | case4 => cases h
  | case5 e t he ih =>
    obtain ⟨b, -, hrest⟩ := Option.bind_eq_some_iff.mp h
    obtain ⟨s', hs', -⟩ := Option.map_eq_some_iff.mp hrest
    rw [List.cons_append, List.cons_append, untilQuote_escape, ih hs']
    rfl
  | case6 => cases h
  | case7 c t hback hplain ih =>
    obtain ⟨s', hs', -⟩ := Option.map_eq_some_iff.mp h
    rw [not_or] at hplain
    rw [List.cons_append, untilQuote_plain hplain.2 hback, ih hs']
    rfl

/-- A body that can be decoded is read up to its quote. -/
theorem readString_of_decode (h : decode t = some s) (rest : Text) :
    readString (t ++ quote :: rest) = some (s, rest) := by
  rw [readString, untilQuote_of_decode h, Option.bind_some, h, Option.map_some]

theorem skipBlank_append (hw : Blank w) (t : Text) : skipBlank (w ++ t) = skipBlank t :=
  List.dropWhile_append_of_pos hw

theorem skipBlank_cons (hc : isBlank c = false) (t : Text) : skipBlank (c :: t) = c :: t :=
  List.dropWhile_cons_of_neg (by rw [hc]; exact Bool.false_ne_true)

theorem skipBlank_to (hw : Blank w) (hc : isBlank c = false) (t : Text) :
    skipBlank (w ++ c :: t) = c :: t := by
  rw [skipBlank_append hw, skipBlank_cons hc]

@[simp] theorem expect_self (c : UInt8) (t : Text) : expect c (c :: t) = some t := if_pos rfl

theorem expect_ne (h : d ≠ c) (t : Text) : expect c (d :: t) = none := if_neg h

@[simp] theorem expectAll_append (literal t : Text) :
    expectAll literal (literal ++ t) = some t := by
  have hpre : literal.isPrefixOf (literal ++ t) = true :=
    List.isPrefixOf_iff_prefix.mpr (List.prefix_append literal t)
  rw [expectAll, if_pos hpre, List.drop_left]

/-- The text does not go on with a number. -/
def Ends (t : Text) : Prop := ∀ c ∈ t.head?, isNumberByte c = false

theorem numberByte_of_blank (h : isBlank c = true) : isNumberByte c = false := by
  simp only [isBlank, Bool.or_eq_true, decide_eq_true_eq] at h
  rcases h with ((rfl | rfl) | rfl) | rfl <;> decide

theorem ends_append (hw : Blank w) (hc : isNumberByte c = false) (t : Text) :
    Ends (w ++ c :: t) := by
  intro d hd
  cases w with
  | nil => exact (Option.some.inj hd) ▸ hc
  | cons b w =>
    obtain rfl : b = d := Option.some.inj hd
    exact numberByte_of_blank (hw b List.mem_cons_self)

/-- A number ends where no byte of a number follows. -/
theorem numberRun (ht : t.all isNumberByte = true) (hrest : Ends rest) :
    (t ++ rest).takeWhile isNumberByte = t ∧ (t ++ rest).dropWhile isNumberByte = rest := by
  have hall : ∀ c ∈ t, isNumberByte c = true := List.all_eq_true.mp ht
  rw [List.takeWhile_append_of_pos hall, List.dropWhile_append_of_pos hall]
  cases rest with
  | nil => exact ⟨List.append_nil t, rfl⟩
  | cons c rest =>
    have hc := hrest c rfl
    rw [List.takeWhile_cons_of_neg (by rw [hc]; exact Bool.false_ne_true),
      List.dropWhile_cons_of_neg (by rw [hc]; exact Bool.false_ne_true)]
    exact ⟨List.append_nil t, rfl⟩

/-! ## 6. The reader accepts what the grammar derives -/

/-- How the text of a value begins. -/
structure Begins (c : UInt8) : Prop where
  blank : isBlank c = false
  bracket : c ≠ closeBracket

theorem number_ne_nil (h : isNumber t = true) : ∃ c s, t = c :: s ∧ isNumberByte c = true := by
  rw [isNumber, Bool.and_eq_true] at h
  cases t with
  | nil => exact absurd h.2 (by decide)
  | cons c s => exact ⟨c, s, rfl, List.all_eq_true.mp h.1 c List.mem_cons_self⟩

theorem numberByte_cases (h : isNumberByte c = true) :
    isBlank c = false ∧ c ≠ closeBracket ∧ c ≠ quote ∧ c ≠ openBracket ∧ c ≠ openBrace := by
  refine ⟨?_, ?_, ?_, ?_, ?_⟩
  · by_contra hblank
    rw [Bool.not_eq_false] at hblank
    rw [numberByte_of_blank hblank] at h
    cases h
  all_goals
    rintro rfl
    exact absurd h (by decide)

theorem derives_begins (h : Derives v t) : ∃ c s, t = c :: s ∧ Begins c := by
  cases h with
  | null => exact ⟨_, _, rfl, by decide, by decide⟩
  | true => exact ⟨_, _, rfl, by decide, by decide⟩
  | false => exact ⟨_, _, rfl, by decide, by decide⟩
  | number hnum =>
    obtain ⟨c, s, rfl, hc⟩ := number_ne_nil hnum
    exact ⟨c, s, rfl, (numberByte_cases hc).1, (numberByte_cases hc).2.1⟩
  | string _ => exact ⟨_, _, rfl, by decide, by decide⟩
  | emptyArray _ => exact ⟨_, _, rfl, by decide, by decide⟩
  | array _ => exact ⟨_, _, rfl, by decide, by decide⟩
  | emptyObject _ => exact ⟨_, _, rfl, by decide, by decide⟩
  | object _ => exact ⟨_, _, rfl, by decide, by decide⟩

/-- In front of a value the reader skips the white space and nothing more. -/
theorem skipBlank_derives (hw : Blank w) (h : Derives v t) (rest : Text) :
    skipBlank (w ++ (t ++ rest)) = t ++ rest := by
  obtain ⟨c, s, rfl, hc⟩ := derives_begins h
  exact skipBlank_to hw hc.blank (s ++ rest)

theorem readValue_quote (n : ℕ) (t : Text) :
    readValue (n + 1) (quote :: t) = (readString t).map fun r => (.string r.1, r.2) := by
  rw [readValue]
  exact if_pos rfl

theorem readValue_bracket (n : ℕ) (t : Text) :
    readValue (n + 1) (openBracket :: t) =
      match expect closeBracket (skipBlank t) with
      | some rest => some (.array [], rest)
      | none => (readElements n t).map fun r => (.array r.1, r.2) := by
  rw [readValue]
  exact (if_neg (by decide)).trans (if_pos rfl)

theorem readValue_brace (n : ℕ) (t : Text) :
    readValue (n + 1) (openBrace :: t) =
      match expect closeBrace (skipBlank t) with
      | some rest => some (.object [], rest)
      | none => (readMembers n t).map fun r => (.object r.1, r.2) := by
  rw [readValue]
  exact (if_neg (by decide)).trans ((if_neg (by decide)).trans (if_pos rfl))

theorem readValue_number (n : ℕ) (ht : isNumber t = true) (hrest : Ends rest) :
    readValue (n + 1) (t ++ rest) = some (.number t, rest) := by
  have hall : t.all isNumberByte = true := by
    rw [isNumber, Bool.and_eq_true] at ht
    exact ht.1
  obtain ⟨hrun, hbehind⟩ := numberRun hall hrest
  obtain ⟨c, s, rfl, hc⟩ := number_ne_nil ht
  obtain ⟨-, -, hquote, hbracket, hbrace⟩ := numberByte_cases hc
  rw [List.cons_append] at hrun hbehind ⊢
  rw [readValue, if_neg hquote, if_neg hbracket, if_neg hbrace, if_pos hc]
  simp only [hrun, hbehind, ht, if_true]

/-- The elements do not begin with the end of their array. -/
theorem elements_begin {a : List Value} (h : Elements a t) (rest : Text) :
    expect closeBracket (skipBlank (t ++ rest)) = none := by
  cases h with
  | one hw hv _ =>
    obtain ⟨c, s, rfl, hc⟩ := derives_begins hv
    rw [List.append_assoc, List.cons_append, List.cons_append, skipBlank_to hw hc.blank]
    exact expect_ne hc.bracket _
  | cons hw hv _ _ =>
    obtain ⟨c, s, rfl, hc⟩ := derives_begins hv
    rw [List.append_assoc, List.cons_append, List.cons_append, skipBlank_to hw hc.blank]
    exact expect_ne hc.bracket _

/-- The reader takes a key. -/
theorem key_read (h : Key key k) (rest : Text) :
    ∃ t, expect quote (skipBlank (k ++ rest)) = some t ∧
      expect closeBrace (skipBlank (k ++ rest)) = none ∧
      ∃ u, readString t = some (key, u) ∧ expect colon (skipBlank u) = some rest := by
  obtain @⟨w, w', _, t, hw, hs, hw'⟩ := h
  have hlist : w ++ (quote :: (t ++ quote :: (w' ++ [colon]))) ++ rest =
      w ++ quote :: (t ++ quote :: (w' ++ colon :: rest)) := by simp
  rw [hlist, skipBlank_to hw (by decide)]
  refine ⟨_, expect_self _ _, expect_ne (by decide) _, _, readString_of_decode hs _, ?_⟩
  rw [skipBlank_to hw' (by decide)]
  exact expect_self _ _

theorem members_begin {o : List (Text × Value)} (h : Members o t) (rest : Text) :
    expect closeBrace (skipBlank (t ++ rest)) = none := by
  cases h with
  | one hk _ _ _ =>
    rw [List.append_assoc]
    obtain ⟨-, -, hnone, -⟩ := key_read hk _
    exact hnone
  | cons hk _ _ _ _ =>
    rw [List.append_assoc]
    obtain ⟨-, -, hnone, -⟩ := key_read hk _
    exact hnone

mutual

/-- **A value that is derived is read**, when no number goes on behind it. -/
theorem readValue_of_derives {v : Value} {t : Text} (h : Derives v t) {n : ℕ} (hn : t.length < n)
    {rest : Text} (hrest : Ends rest) : readValue n (t ++ rest) = some (v, rest) := by
  obtain ⟨n, rfl⟩ := Nat.exists_eq_add_of_lt (Nat.lt_of_le_of_lt (Nat.zero_le _) hn)
  rw [Nat.zero_add] at hn ⊢
  match h with
  | .null => rfl
  | .true => rfl
  | .false => rfl
  | .number hnum => exact readValue_number n hnum hrest
  | @Derives.string s body hs =>
    have hlist : quote :: (body ++ [quote]) ++ rest = quote :: (body ++ quote :: rest) := by simp
    rw [hlist, readValue_quote, readString_of_decode hs, Option.map_some]
  | @Derives.emptyArray w hw =>
    have hlist : openBracket :: (w ++ [closeBracket]) ++ rest =
        openBracket :: (w ++ closeBracket :: rest) := by simp
    rw [hlist, readValue_bracket, skipBlank_to hw (by decide), expect_self]
  | @Derives.array a inner ha =>
    have hlist : openBracket :: (inner ++ [closeBracket]) ++ rest =
        openBracket :: (inner ++ closeBracket :: rest) := by simp
    have hlen : inner.length + 1 < n := by
      simp only [List.length_cons, List.length_append, List.length_nil] at hn
      omega
    rw [hlist, readValue_bracket, elements_begin ha, readElements_of_elements ha hlen]
    rfl
  | @Derives.emptyObject w hw =>
    have hlist : openBrace :: (w ++ [closeBrace]) ++ rest =
        openBrace :: (w ++ closeBrace :: rest) := by simp
    rw [hlist, readValue_brace, skipBlank_to hw (by decide), expect_self]
  | @Derives.object o inner ho =>
    have hlist : openBrace :: (inner ++ [closeBrace]) ++ rest =
        openBrace :: (inner ++ closeBrace :: rest) := by simp
    have hlen : inner.length + 1 < n := by
      simp only [List.length_cons, List.length_append, List.length_nil] at hn
      omega
    rw [hlist, readValue_brace, members_begin ho, readMembers_of_members ho hlen]
    rfl

/-- The reader comes to the closing bracket. -/
theorem readElements_of_elements {a : List Value} {t : Text} (h : Elements a t) {n : ℕ}
    (hn : t.length + 1 < n) {rest : Text} :
    readElements n (t ++ closeBracket :: rest) = some (a, rest) := by
  obtain ⟨n, rfl⟩ := Nat.exists_eq_add_of_lt (Nat.lt_of_le_of_lt (Nat.zero_le _) hn)
  rw [Nat.zero_add] at hn ⊢
  match h with
  | @Elements.one w w' t₁ v hw hv hw' =>
    have hlen : t₁.length < n := by
      simp only [List.length_append] at hn
      omega
    have hlist : w ++ (t₁ ++ w') ++ closeBracket :: rest =
        w ++ (t₁ ++ (w' ++ closeBracket :: rest)) := by simp
    rw [hlist, readElements, skipBlank_derives hw hv,
      readValue_of_derives hv hlen (ends_append hw' (by decide) rest), Option.bind_some,
      skipBlank_to hw' (by decide), expect_ne (by decide), expect_self]
    rfl
  | @Elements.cons w w' t₁ s v a hw hv hw' hs =>
    have hlen : t₁.length < n ∧ s.length + 1 < n := by
      simp only [List.length_append, List.length_cons] at hn
      omega
    have hlist : w ++ (t₁ ++ (w' ++ comma :: s)) ++ closeBracket :: rest =
        w ++ (t₁ ++ (w' ++ comma :: (s ++ closeBracket :: rest))) := by simp
    rw [hlist, readElements, skipBlank_derives hw hv,
      readValue_of_derives hv hlen.1 (ends_append hw' (by decide) _), Option.bind_some,
      skipBlank_to hw' (by decide), expect_self]
    change (readElements n (s ++ closeBracket :: rest)).map _ = _
    rw [readElements_of_elements hs hlen.2]
    rfl

theorem readMembers_of_members {o : List (Text × Value)} {t : Text} (h : Members o t) {n : ℕ}
    (hn : t.length + 1 < n) {rest : Text} :
    readMembers n (t ++ closeBrace :: rest) = some (o, rest) := by
  obtain ⟨n, rfl⟩ := Nat.exists_eq_add_of_lt (Nat.lt_of_le_of_lt (Nat.zero_le _) hn)
  rw [Nat.zero_add] at hn ⊢
  match h with
  | @Members.one k key w w' t₁ v hk hw hv hw' =>
    have hlen : t₁.length < n := by
      simp only [List.length_append] at hn
      omega
    have hlist : k ++ (w ++ (t₁ ++ w')) ++ closeBrace :: rest =
        k ++ (w ++ (t₁ ++ (w' ++ closeBrace :: rest))) := by simp
    obtain ⟨u, hquote, -, u', hstring, hcolon⟩ := key_read hk
      (w ++ (t₁ ++ (w' ++ closeBrace :: rest)))
    rw [hlist, readMembers, hquote, Option.bind_some, hstring, Option.bind_some, hcolon,
      Option.bind_some, skipBlank_derives hw hv,
      readValue_of_derives hv hlen (ends_append hw' (by decide) rest), Option.bind_some,
      skipBlank_to hw' (by decide), expect_ne (by decide), expect_self]
    rfl
  | @Members.cons k key w w' t₁ s v o hk hw hv hw' hs =>
    have hlen : t₁.length < n ∧ s.length + 1 < n := by
      simp only [List.length_append, List.length_cons] at hn
      omega
    have hlist : k ++ (w ++ (t₁ ++ (w' ++ comma :: s))) ++ closeBrace :: rest =
        k ++ (w ++ (t₁ ++ (w' ++ comma :: (s ++ closeBrace :: rest)))) := by simp
    obtain ⟨u, hquote, -, u', hstring, hcolon⟩ := key_read hk
      (w ++ (t₁ ++ (w' ++ comma :: (s ++ closeBrace :: rest))))
    rw [hlist, readMembers, hquote, Option.bind_some, hstring, Option.bind_some, hcolon,
      Option.bind_some, skipBlank_derives hw hv,
      readValue_of_derives hv hlen.1 (ends_append hw' (by decide) _), Option.bind_some,
      skipBlank_to hw' (by decide), expect_self]
    change (readMembers n (s ++ closeBrace :: rest)).map _ = _
    rw [readMembers_of_members hs hlen.2]
    rfl

end

/-- **A JSON text is read as its value.** -/
theorem read_of_jsonText (h : JsonText v t) : read t = some v := by
  obtain ⟨w, t', w', hw, hv, hw', rfl⟩ := h
  have hlen : t'.length < (w ++ (t' ++ w')).length + 1 := by
    simp only [List.length_append]
    omega
  have hends : Ends w' := fun c hc =>
    numberByte_of_blank (hw' c (List.mem_of_mem_head? hc))
  have hblank : skipBlank w' = [] := by
    have := skipBlank_append hw' []
    rwa [List.append_nil] at this
  rw [read, skipBlank_derives hw hv, readValue_of_derives hv hlen hends, Option.bind_some, hblank]
  rfl

end JsonGrammar
