/-
# When the JSON reader ends

`json::parse` calls itself and loops with no bound.  `scan` goes over a text once, byte by byte,
with a stack of the arrays and objects that are open, and finds the first of two places: a number
that `std::stod` rejects, where the reader ends by an exception, and an element of an array that
begins with a byte that begins no value.

**The reader ends exactly when the scan finds no such element** (`terminates_iff`): the loop of
`parse_array` asks for a value there, which passes nothing, and asks again (`not_terminates`).
When the reader ends it has thrown exactly if the scan found a number (`scan_of_parse`).

The scan has no recursion but that over the text, so it cannot hang, and it makes the condition one
that can be computed.  It has to be shown that it follows the reader.  Where the reader is given a
text, the scan is in a mode that says what is expected there, and it is in the next mode where the
reader goes on (`verdict_parse`, one induction on the fuel for the three functions); strings,
numbers and blanks are runs of bytes over which the scan stays in a mode (`verdict_string`,
`verdict_number`, `verdict_skipWhitespace`).  So an answer of the reader is that of the scan.

The other direction is termination.  What a function leaves is shorter than what it was given,
except where it is given a byte that begins no value (`shrinks_parse`), and that is the byte that
the scan reports.  So where the scan finds none the length of the text goes down, and there is
enough fuel (`reads_value`, `reads_rest`).
-/
import YukiZygisk.Common.Json

namespace YukiZygisk.Json

/-! ## 1. One pass over a text -/

/-- What is open around a place of the text. -/
inductive Frame where
  | array
  | object

/-- What is expected at a place of the text. -/
inductive Mode where
  | value
  | element
  | key
  | colon
  /-- A value has ended. -/
  | after
  /-- Inside a string, which is a key or a value. -/
  | string (isKey : Bool)
  | escaped (isKey : Bool)
  /-- Inside a literal, with the bytes still to pass. -/
  | skip (n : ℕ)
  /-- Inside a number, with its bytes so far. -/
  | number (text : Text)
  /-- The outermost value has ended. -/
  | over
  | rejected
  | unreadable

/-- A state of the scan. -/
structure Scan where
  mode : Mode
  stack : List Frame

/-- What a scan finds first. -/
inductive Verdict where
  | readable
  /-- A number that `std::stod` does not take. -/
  | rejected
  /-- An element of an array that begins with a byte that begins no value. -/
  | unreadable
  deriving DecidableEq

/-- The state in a value that a byte begins. -/
def beginValue (κ : List Frame) (c : UInt8) : Option Scan :=
  if c = ch 'n' then some ⟨.skip 3, κ⟩
  else if c = ch 't' then some ⟨.skip 3, κ⟩
  else if c = ch 'f' then some ⟨.skip 4, κ⟩
  else if c = quote then some ⟨.string false, κ⟩
  else if c = openBracket then some ⟨.element, .array :: κ⟩
  else if c = openBrace then some ⟨.key, .object :: κ⟩
  else if c = minus || isDigit c then some ⟨.number [c], κ⟩
  else none

/-- A byte where an element or the end of an array is expected. -/
def atElement (κ : List Frame) (c : UInt8) : Scan :=
  if isSpace c then ⟨.element, κ⟩
  else if c = closeBracket then ⟨.after, κ.tail⟩
  else
    match beginValue κ c with
    | some s => s
    | none => if c = comma then ⟨.element, κ⟩ else ⟨.unreadable, κ⟩

/-- A byte where a key or the end of an object is expected: every byte opens a key. -/
def atKey (κ : List Frame) (c : UInt8) : Scan :=
  if isSpace c then ⟨.key, κ⟩
  else if c = closeBrace then ⟨.after, κ.tail⟩
  else ⟨.string true, κ⟩

/-- A byte behind a value. -/
def afterValue (κ : List Frame) (c : UInt8) : Scan :=
  match κ with
  | [] => ⟨.over, []⟩
  | .array :: _ =>
    if isSpace c then ⟨.after, κ⟩ else if c = comma then ⟨.element, κ⟩ else atElement κ c
  | .object :: _ =>
    if isSpace c then ⟨.after, κ⟩ else if c = comma then ⟨.key, κ⟩ else atKey κ c

/-- A byte where a value is expected outside of an array. -/
def atValue (κ : List Frame) (c : UInt8) : Scan :=
  if isSpace c then ⟨.value, κ⟩ else (beginValue κ c).getD (afterValue κ c)

/-- A byte behind a key. -/
def atColon (κ : List Frame) (c : UInt8) : Scan :=
  if isSpace c then ⟨.colon, κ⟩ else if c = colon then ⟨.value, κ⟩ else atValue κ c

/-- The mode behind a string. -/
def afterString (isKey : Bool) : Mode := if isKey then .colon else .after

/-- One byte of the scan. -/
def Scan.step (reportsTiny : ℚ → Bool) (s : Scan) (c : UInt8) : Scan :=
  match s.mode with
  | .value => atValue s.stack c
  | .element => atElement s.stack c
  | .key => atKey s.stack c
  | .colon => atColon s.stack c
  | .after => afterValue s.stack c
  | .string isKey =>
    if c = quote then ⟨afterString isKey, s.stack⟩
    else if c = backslash then ⟨.escaped isKey, s.stack⟩
    else s
  | .escaped isKey => ⟨.string isKey, s.stack⟩
  | .skip 0 => afterValue s.stack c
  | .skip (n + 1) => ⟨.skip n, s.stack⟩
  | .number text =>
    if isNumberByte c then ⟨.number (text ++ [c]), s.stack⟩
    else
      match stod reportsTiny text with
      | .ok _ => afterValue s.stack c
      | .error _ => ⟨.rejected, s.stack⟩
  | .over | .rejected | .unreadable => s

/-- The verdict at the end of the text. -/
def Scan.finish (reportsTiny : ℚ → Bool) (s : Scan) : Verdict :=
  match s.mode with
  | .unreadable => .unreadable
  | .rejected => .rejected
  | .number text =>
    match stod reportsTiny text with
    | .ok _ => .readable
    | .error _ => .rejected
  | _ => .readable

/-- The verdict of the rest of a text. -/
def Scan.verdict (reportsTiny : ℚ → Bool) (s : Scan) (text : Text) : Verdict :=
  (text.foldl (Scan.step reportsTiny) s).finish reportsTiny

/-- The verdict of a text. -/
def scan (reportsTiny : ℚ → Bool) (text : Text) : Verdict :=
  Scan.verdict reportsTiny ⟨.value, []⟩ text

/-! ## 2. The scan of what the loops of the reader pass -/

variable {reportsTiny : ℚ → Bool} {s : Scan} {κ : List Frame} {text rest left : Text} {c : UInt8}
  {fuel : ℕ} {v : Value} {e : StodError}

@[simp] theorem verdict_cons (s : Scan) (c : UInt8) (rest : Text) :
    s.verdict reportsTiny (c :: rest) = (s.step reportsTiny c).verdict reportsTiny rest := rfl

/-- What stays in its mode over spaces does not see them. -/
theorem verdict_skipWhitespace (h : ∀ c, isSpace c → s.step reportsTiny c = s) (text : Text) :
    s.verdict reportsTiny (skipWhitespace text) = s.verdict reportsTiny text := by
  induction text with
  | nil => rfl
  | cons c rest ih =>
    by_cases hc : isSpace c
    · rw [verdict_cons, h c hc, ← ih, skipWhitespace, List.dropWhile_cons_of_pos hc]
      rfl
    · rw [skipWhitespace, List.dropWhile_cons_of_neg hc]

theorem isSpace_skipWhitespace (h : skipWhitespace text = c :: rest) : isSpace c = false := by
  have hhead := List.head?_dropWhile_not isSpace text
  rw [skipWhitespace] at h
  rw [h] at hhead
  simpa using hhead

theorem length_skipWhitespace (text : Text) : (skipWhitespace text).length ≤ text.length :=
  (List.dropWhile_sublist _).length_le

theorem length_skipByte (c : UInt8) (text : Text) : (skipByte c text).length ≤ text.length := by
  cases text with
  | nil => exact le_rfl
  | cons d rest =>
    rw [skipByte]
    split_ifs
    · exact Nat.le_succ _
    · exact le_rfl

theorem length_stringBody (text : Text) : (stringBody text).2.length ≤ text.length := by
  induction text using stringBody.induct with
  | case1 => exact le_rfl
  | case2 rest =>
    rw [stringBody_quote]
    exact Nat.le_succ _
  | case3 => exact Nat.zero_le _
  | case4 next rest _ ih => exact ih.trans (by simp only [List.length_cons]; omega)
  | case5 c rest hquote hback ih =>
    rw [stringBody_cons hquote hback]
    exact ih.trans (Nat.le_succ _)

/-- The scan of a string ends where the reader's loop does. -/
theorem verdict_string (isKey : Bool) (κ : List Frame) (text : Text) :
    Scan.verdict reportsTiny ⟨.string isKey, κ⟩ text =
      Scan.verdict reportsTiny ⟨afterString isKey, κ⟩ (stringBody text).2 := by
  induction text using stringBody.induct with
  | case1 => cases isKey <;> rfl
  | case2 rest =>
    rw [stringBody_quote]
    rfl
  | case3 => cases isKey <;> rfl
  | case4 next rest _ ih => exact ih
  | case5 c rest hquote hback ih =>
    have hstep : Scan.step reportsTiny ⟨.string isKey, κ⟩ c = ⟨.string isKey, κ⟩ :=
      (if_neg hquote).trans (if_neg hback)
    rw [verdict_cons, hstep, ih, stringBody_cons hquote hback]

/-- The letters of a literal. -/
theorem verdict_skip (n : ℕ) (κ : List Frame) (text : Text) :
    Scan.verdict reportsTiny ⟨.skip n, κ⟩ text =
      Scan.verdict reportsTiny ⟨.after, κ⟩ (text.drop n) := by
  induction text generalizing n with
  | nil => rw [List.drop_nil]; rfl
  | cons c rest ih =>
    cases n with
    | zero => rfl
    | succ n => exact ih n

theorem verdict_rejected (κ : List Frame) (text : Text) :
    Scan.verdict reportsTiny ⟨.rejected, κ⟩ text = .rejected := by
  induction text with
  | nil => rfl
  | cons c rest ih => exact ih

theorem verdict_unreadable (κ : List Frame) (text : Text) :
    Scan.verdict reportsTiny ⟨.unreadable, κ⟩ text = .unreadable := by
  induction text with
  | nil => rfl
  | cons c rest ih => exact ih

theorem verdict_outermost (text : Text) :
    Scan.verdict reportsTiny ⟨.after, []⟩ text = .readable := by
  have hover : ∀ l, Scan.verdict reportsTiny ⟨.over, []⟩ l = .readable := by
    intro l
    induction l with
    | nil => rfl
    | cons c l ih => exact ih
  cases text with
  | nil => rfl
  | cons c rest => exact hover rest

/-- The scan of a number ends where the reader's loop does, or rejects it. -/
theorem verdict_number (head : Text) (κ : List Frame) (text : Text) :
    Scan.verdict reportsTiny ⟨.number head, κ⟩ text =
      match stod reportsTiny (head ++ text.takeWhile isNumberByte) with
      | .ok _ => Scan.verdict reportsTiny ⟨.after, κ⟩ (text.dropWhile isNumberByte)
      | .error _ => .rejected := by
  induction text generalizing head with
  | nil =>
    rw [List.takeWhile_nil, List.append_nil, List.dropWhile_nil]
    rcases hn : stod reportsTiny head <;> simp [Scan.verdict, Scan.finish, hn]
  | cons c rest ih =>
    by_cases hc : isNumberByte c
    · rw [verdict_cons, List.takeWhile_cons_of_pos hc, List.dropWhile_cons_of_pos hc]
      have hstep : Scan.step reportsTiny ⟨.number head, κ⟩ c = ⟨.number (head ++ [c]), κ⟩ :=
        if_pos hc
      rw [hstep, ih, List.append_assoc]
      rfl
    · rw [verdict_cons, List.takeWhile_cons_of_neg hc, List.dropWhile_cons_of_neg hc,
        List.append_nil]
      rcases hn : stod reportsTiny head
      · have hstep : Scan.step reportsTiny ⟨.number head, κ⟩ c = ⟨.rejected, κ⟩ := by
          simp [Scan.step, hc, hn]
        rw [hstep]
        exact verdict_rejected κ rest
      · have hstep : Scan.step reportsTiny ⟨.number head, κ⟩ c = afterValue κ c := by
          simp [Scan.step, hc, hn]
        rw [hstep]
        rfl

/-! ## 3. The scan follows the reader -/

theorem step_value (hc : isSpace c = false) (κ : List Frame) :
    Scan.step reportsTiny ⟨.value, κ⟩ c = (beginValue κ c).getD (afterValue κ c) :=
  if_neg (by rw [hc]; exact Bool.false_ne_true)

theorem step_value_space (c : UInt8) (hc : isSpace c) :
    Scan.step reportsTiny ⟨.value, κ⟩ c = ⟨.value, κ⟩ := if_pos hc

theorem step_element_space (c : UInt8) (hc : isSpace c) :
    Scan.step reportsTiny ⟨.element, κ⟩ c = ⟨.element, κ⟩ := if_pos hc

theorem step_key_space (c : UInt8) (hc : isSpace c) :
    Scan.step reportsTiny ⟨.key, κ⟩ c = ⟨.key, κ⟩ := if_pos hc

theorem step_colon_space (c : UInt8) (hc : isSpace c) :
    Scan.step reportsTiny ⟨.colon, κ⟩ c = ⟨.colon, κ⟩ := if_pos hc

theorem step_after_space (f : Frame) (c : UInt8) (hc : isSpace c) :
    Scan.step reportsTiny ⟨.after, f :: κ⟩ c = ⟨.after, f :: κ⟩ := by
  cases f <;> exact if_pos hc

/-- The mode at the head of the loop that a frame stands for. -/
def Frame.head : Frame → Mode
  | .array => .element
  | .object => .key

/-- Behind a value a comma is passed, and the loop goes on. -/
theorem verdict_after (f : Frame) (κ : List Frame) (left : Text) :
    Scan.verdict reportsTiny ⟨.after, f :: κ⟩ left =
      Scan.verdict reportsTiny ⟨f.head, f :: κ⟩ (skipByte comma (skipWhitespace left)) := by
  rw [← verdict_skipWhitespace (step_after_space f)]
  rcases hs : skipWhitespace left with _ | ⟨c, rest⟩
  · cases f <;> rfl
  have hc := isSpace_skipWhitespace hs
  rw [skipByte]
  split_ifs with hcomma
  · subst hcomma
    cases f <;> rfl
  · cases f <;>
      simp [Scan.step, afterValue, Frame.head, hc, hcomma]

/-- Behind a key a colon is passed. -/
theorem verdict_colon (κ : List Frame) (text : Text) :
    Scan.verdict reportsTiny ⟨.colon, κ⟩ text =
      Scan.verdict reportsTiny ⟨.value, κ⟩ (skipByte colon (skipWhitespace text)) := by
  rw [← verdict_skipWhitespace step_colon_space]
  rcases hs : skipWhitespace text with _ | ⟨c, rest⟩
  · rfl
  have hc := isSpace_skipWhitespace hs
  rw [skipByte]
  split_ifs with hcolon
  · subst hcolon
    rfl
  · simp [Scan.step, atColon, hc, hcolon]

/-- An element is read as a value is. -/
theorem step_element (hc : isSpace c = false) (hend : c ≠ closeBracket) (κ : List Frame) :
    Scan.step reportsTiny ⟨.element, .array :: κ⟩ c =
      Scan.step reportsTiny ⟨.value, .array :: κ⟩ c := by
  rw [step_value hc]
  have hleft : Scan.step reportsTiny ⟨.element, .array :: κ⟩ c = atElement (.array :: κ) c := rfl
  have hafter : afterValue (.array :: κ) c =
      if c = comma then ⟨.element, .array :: κ⟩ else atElement (.array :: κ) c := by
    simp [afterValue, hc]
  rw [hleft, hafter]
  rcases hb : beginValue (.array :: κ) c with _ | s <;> simp [atElement, hc, hend, hb]

theorem step_key (hc : isSpace c = false) (hend : c ≠ closeBrace) (κ : List Frame) :
    Scan.step reportsTiny ⟨.key, κ⟩ c = ⟨.string true, κ⟩ := by
  simp [Scan.step, atKey, hc, hend]

/-- The verdict of a text that the reader has read: that of what is left behind the value, or that
of a number that it rejected. -/
def Follows (reportsTiny : ℚ → Bool) (κ : List Frame) (d : Verdict) :
    Except StodError (Value × Text) → Prop
  | .ok (_, left) => d = Scan.verdict reportsTiny ⟨.after, κ⟩ left
  | .error _ => d = .rejected

/-- A number, or what `std::stod` rejects. -/
theorem follows_number (hc : isNumberByte c) {r : Except StodError (Value × Text)}
    (h : parseNumber reportsTiny (c :: rest) = some r) :
    Follows reportsTiny κ (Scan.verdict reportsTiny ⟨.number [c], κ⟩ rest) r := by
  rw [parseNumber, List.takeWhile_cons_of_pos hc, List.dropWhile_cons_of_pos hc] at h
  rw [verdict_number, List.singleton_append]
  rcases hn : stod reportsTiny (c :: rest.takeWhile isNumberByte) with e | n
  · rw [hn] at h
    obtain rfl := Option.some.inj h
    rfl
  · rw [hn] at h
    obtain rfl := Option.some.inj h
    rfl

/-- One turn of the loop of `parse_array`: the text ends, the array ends, an element is rejected, or
an element is read and the loop goes on. -/
theorem parseArray_cases {a : List Value} {r : Except StodError (Value × Text)}
    (h : parseArray reportsTiny (fuel + 1) a text = some r) :
    (skipWhitespace text = [] ∧ r = .ok (.array a, [])) ∨
    (∃ rest, skipWhitespace text = closeBracket :: rest ∧ r = .ok (.array a, rest)) ∨
    ∃ c rest, skipWhitespace text = c :: rest ∧ c ≠ closeBracket ∧
      ((∃ e, parseValue reportsTiny fuel (c :: rest) = some (.error e) ∧ r = .error e) ∨
        ∃ v left, parseValue reportsTiny fuel (c :: rest) = some (.ok (v, left)) ∧
          parseArray reportsTiny fuel (a ++ [v]) (skipByte comma (skipWhitespace left)) =
            some r) := by
  rw [parseArray] at h
  rcases hs : skipWhitespace text with _ | ⟨c, rest⟩
  · rw [hs] at h
    exact .inl ⟨rfl, (Option.some.inj h).symm⟩
  simp only [hs] at h
  split_ifs at h with hend
  · subst hend
    exact .inr (.inl ⟨rest, rfl, (Option.some.inj h).symm⟩)
  refine .inr (.inr ⟨c, rest, rfl, hend, ?_⟩)
  rcases hv : parseValue reportsTiny fuel (c :: rest) with _ | e | ⟨v, left⟩
  · rw [hv] at h
    cases h
  · rw [hv] at h
    exact .inl ⟨e, rfl, (Option.some.inj h).symm⟩
  · rw [hv] at h
    exact .inr ⟨v, left, rfl, h⟩

/-- The same for `parse_object`. -/
theorem parseObject_cases {o : List (Text × Value)} {r : Except StodError (Value × Text)}
    (h : parseObject reportsTiny (fuel + 1) o text = some r) :
    (skipWhitespace text = [] ∧ r = .ok (.object o, [])) ∨
    (∃ rest, skipWhitespace text = closeBrace :: rest ∧ r = .ok (.object o, rest)) ∨
    ∃ c rest, skipWhitespace text = c :: rest ∧ c ≠ closeBrace ∧
      ((∃ e, parseValue reportsTiny fuel
          (skipByte colon (skipWhitespace (parseString (c :: rest)).2)) = some (.error e) ∧
            r = .error e) ∨
        ∃ v left, parseValue reportsTiny fuel
            (skipByte colon (skipWhitespace (parseString (c :: rest)).2)) =
              some (.ok (v, left)) ∧
          parseObject reportsTiny fuel (OrderedMap.insert (parseString (c :: rest)).1 v o)
            (skipByte comma (skipWhitespace left)) = some r) := by
  rw [parseObject] at h
  rcases hs : skipWhitespace text with _ | ⟨c, rest⟩
  · rw [hs] at h
    exact .inl ⟨rfl, (Option.some.inj h).symm⟩
  simp only [hs] at h
  split_ifs at h with hend
  · subst hend
    exact .inr (.inl ⟨rest, rfl, (Option.some.inj h).symm⟩)
  refine .inr (.inr ⟨c, rest, rfl, hend, ?_⟩)
  rcases hv : parseValue reportsTiny fuel
      (skipByte colon (skipWhitespace (parseString (c :: rest)).2)) with _ | e | ⟨v, left⟩
  · rw [hv] at h
    cases h
  · rw [hv] at h
    exact .inl ⟨e, rfl, (Option.some.inj h).symm⟩
  · rw [hv] at h
    exact .inr ⟨v, left, rfl, h⟩

/-- **What the reader returns and what the scan finds agree**, for a value, for the rest of an
array and for the rest of an object. -/
theorem verdict_parse (fuel : ℕ) :
    (∀ text κ r, parseValue reportsTiny fuel text = some r →
      Follows reportsTiny κ (Scan.verdict reportsTiny ⟨.value, κ⟩ text) r) ∧
    (∀ a text κ r, parseArray reportsTiny fuel a text = some r →
      Follows reportsTiny κ (Scan.verdict reportsTiny ⟨.element, .array :: κ⟩ text) r) ∧
    (∀ o text κ r, parseObject reportsTiny fuel o text = some r →
      Follows reportsTiny κ (Scan.verdict reportsTiny ⟨.key, .object :: κ⟩ text) r) := by
  induction fuel with
  | zero => exact ⟨nofun, nofun, nofun⟩
  | succ fuel ih =>
    obtain ⟨hvalue, harray, hobject⟩ := ih
    refine ⟨fun text κ r h => ?_, fun a text κ r h => ?_, fun o text κ r h => ?_⟩
    · rw [parseValue] at h
      rw [← verdict_skipWhitespace step_value_space]
      rcases hs : skipWhitespace text with _ | ⟨c, rest⟩
      · rw [hs] at h
        obtain rfl := Option.some.inj h
        cases κ <;> rfl
      have hc := isSpace_skipWhitespace hs
      rw [verdict_cons, step_value hc]
      simp only [hs] at h
      split_ifs at h with hn ht hf hq ha ho hnum
      · subst hn
        obtain rfl := Option.some.inj h
        exact verdict_skip 3 κ rest
      · subst ht
        obtain rfl := Option.some.inj h
        exact verdict_skip 3 κ rest
      · subst hf
        obtain rfl := Option.some.inj h
        exact verdict_skip 4 κ rest
      · subst hq
        obtain rfl := Option.some.inj h
        exact verdict_string false κ rest
      · subst ha
        exact harray _ _ κ r h
      · subst ho
        exact hobject _ _ κ r h
      · have hbegin : beginValue κ c = some ⟨.number [c], κ⟩ := by
          rw [beginValue, if_neg hn, if_neg ht, if_neg hf, if_neg hq, if_neg ha, if_neg ho,
            if_pos hnum]
        rw [hbegin]
        refine follows_number ?_ h
        rcases Bool.or_eq_true_iff.mp hnum with h | h <;> simp [isNumberByte, h]
      · have hbegin : beginValue κ c = none := by
          rw [beginValue, if_neg hn, if_neg ht, if_neg hf, if_neg hq, if_neg ha, if_neg ho,
            if_neg hnum]
        rw [hbegin]
        obtain rfl := Option.some.inj h
        rfl
    · rw [← verdict_skipWhitespace step_element_space]
      rcases parseArray_cases h with ⟨hs, rfl⟩ | ⟨rest, hs, rfl⟩ | ⟨c, rest, hs, hend, hv⟩
      · rw [hs]
        cases κ <;> rfl
      · rw [hs]
        rfl
      rw [hs, verdict_cons, step_element (isSpace_skipWhitespace hs) hend, ← verdict_cons]
      rcases hv with ⟨e, hv, rfl⟩ | ⟨v, left, hv, h⟩
      · exact hvalue _ _ _ hv
      · have hstep : Scan.verdict reportsTiny ⟨.value, .array :: κ⟩ (c :: rest) =
            Scan.verdict reportsTiny ⟨.after, .array :: κ⟩ left := hvalue _ _ _ hv
        rw [hstep, verdict_after]
        exact harray _ _ κ r h
    · rw [← verdict_skipWhitespace step_key_space]
      rcases parseObject_cases h with ⟨hs, rfl⟩ | ⟨rest, hs, rfl⟩ | ⟨c, rest, hs, hend, hv⟩
      · rw [hs]
        cases κ <;> rfl
      · rw [hs]
        rfl
      rw [hs, verdict_cons, step_key (isSpace_skipWhitespace hs) hend, verdict_string]
      have hcolon : Scan.verdict reportsTiny ⟨afterString true, .object :: κ⟩ (stringBody rest).2 =
          Scan.verdict reportsTiny ⟨.value, .object :: κ⟩
            (skipByte colon (skipWhitespace (parseString (c :: rest)).2)) := verdict_colon _ _
      rw [hcolon]
      rcases hv with ⟨e, hv, rfl⟩ | ⟨v, left, hv, h⟩
      · exact hvalue _ _ _ hv
      · have hstep : Scan.verdict reportsTiny ⟨.value, .object :: κ⟩
            (skipByte colon (skipWhitespace (parseString (c :: rest)).2)) =
              Scan.verdict reportsTiny ⟨.after, .object :: κ⟩ left := hvalue _ _ _ hv
        rw [hstep, verdict_after]
        exact hobject _ _ κ r h

/-! ## 4. What the reader leaves -/

/-- A value passes its first byte, or the byte begins no value and nothing is passed. -/
def Progresses (c : UInt8) (rest : Text) : Except StodError (Value × Text) → Prop
  | .ok (_, left) => left.length ≤ rest.length ∨ (left = c :: rest ∧ ∀ κ, beginValue κ c = none)
  | .error _ => True

/-- What is left of a text is no longer than the text. -/
def Shrinks (text : Text) : Except StodError (Value × Text) → Prop
  | .ok (_, left) => left.length ≤ text.length
  | .error _ => True

theorem shrinks_parseNumber {r : Except StodError (Value × Text)} (hc : isNumberByte c)
    (h : parseNumber reportsTiny (c :: rest) = some r) : Shrinks rest r := by
  rw [parseNumber, List.dropWhile_cons_of_pos hc] at h
  split at h <;> obtain rfl := Option.some.inj h
  · trivial
  · exact (List.dropWhile_sublist _).length_le

theorem Shrinks.progresses {r : Except StodError (Value × Text)} (h : Shrinks rest r) :
    Progresses c rest r := by
  rcases r with e | ⟨v, left⟩
  · trivial
  · exact .inl h

theorem Progresses.shrinks {r : Except StodError (Value × Text)} (h : Progresses c rest r) :
    Shrinks (c :: rest) r := by
  rcases r with e | ⟨v, left⟩
  · trivial
  rcases h with h | ⟨rfl, -⟩
  · exact h.trans (Nat.le_succ _)
  · exact le_rfl

theorem Shrinks.mono {r : Except StodError (Value × Text)} (h : Shrinks text r)
    (hle : text.length ≤ rest.length) : Shrinks rest r := by
  rcases r with e | ⟨v, left⟩
  · trivial
  · exact le_trans (b := text.length) h hle

/-- What is left before the next turn of a loop. -/
theorem length_next (hs : skipWhitespace text = c :: rest)
    (h : Shrinks (c :: rest) (.ok (v, left))) :
    (skipByte comma (skipWhitespace left)).length ≤ text.length :=
  calc (skipByte comma (skipWhitespace left)).length
      ≤ (skipWhitespace left).length := length_skipByte _ _
    _ ≤ left.length := length_skipWhitespace _
    _ ≤ (skipWhitespace text).length := hs ▸ h
    _ ≤ text.length := length_skipWhitespace _

theorem length_member (rest : Text) (c : UInt8) :
    (skipByte colon (skipWhitespace (parseString (c :: rest)).2)).length ≤ rest.length :=
  calc (skipByte colon (skipWhitespace (stringBody rest).2)).length
      ≤ (skipWhitespace (stringBody rest).2).length := length_skipByte _ _
    _ ≤ (stringBody rest).2.length := length_skipWhitespace _
    _ ≤ rest.length := length_stringBody _

theorem progresses_parseValue (hc : isSpace c = false)
    (harray : ∀ r, parseArray reportsTiny fuel [] rest = some r → Shrinks rest r)
    (hobject : ∀ r, parseObject reportsTiny fuel [] rest = some r → Shrinks rest r)
    {r : Except StodError (Value × Text)}
    (h : parseValue reportsTiny (fuel + 1) (c :: rest) = some r) : Progresses c rest r := by
  have hs : skipWhitespace (c :: rest) = c :: rest := List.dropWhile_cons_of_neg (by simp [hc])
  rw [parseValue] at h
  simp only [hs] at h
  split_ifs at h with hn ht hf hq ha ho hnum
  · obtain rfl := Option.some.inj h
    exact .inl (List.drop_sublist _ _).length_le
  · obtain rfl := Option.some.inj h
    exact .inl (List.drop_sublist _ _).length_le
  · obtain rfl := Option.some.inj h
    exact .inl (List.drop_sublist _ _).length_le
  · obtain rfl := Option.some.inj h
    exact .inl (length_stringBody _)
  · exact (harray _ h).progresses
  · exact (hobject _ h).progresses
  · refine (shrinks_parseNumber ?_ h).progresses
    rcases Bool.or_eq_true_iff.mp hnum with h | h <;> simp [isNumberByte, h]
  · obtain rfl := Option.some.inj h
    refine .inr ⟨rfl, fun κ => ?_⟩
    rw [beginValue, if_neg hn, if_neg ht, if_neg hf, if_neg hq, if_neg ha, if_neg ho, if_neg hnum]

theorem length_closed (hs : skipWhitespace text = c :: rest) : rest.length ≤ text.length := by
  have hle := length_skipWhitespace text
  rw [hs] at hle
  exact (Nat.le_succ _).trans hle

/-- **What the functions leave is shorter**, where a value begins. -/
theorem shrinks_parse (fuel : ℕ) :
    (∀ text r, parseValue reportsTiny fuel text = some r → Shrinks text r) ∧
    (∀ a text r, parseArray reportsTiny fuel a text = some r → Shrinks text r) ∧
    (∀ o text r, parseObject reportsTiny fuel o text = some r → Shrinks text r) := by
  induction fuel with
  | zero => exact ⟨nofun, nofun, nofun⟩
  | succ fuel ih =>
    obtain ⟨hvalue, harray, hobject⟩ := ih
    refine ⟨?_, ?_, ?_⟩
    · intro text r h
      rcases hs : skipWhitespace text with _ | ⟨c, rest⟩
      · rw [parseValue, hs] at h
        obtain rfl := Option.some.inj h
        exact Nat.zero_le _
      have hc := isSpace_skipWhitespace hs
      have hsame : parseValue reportsTiny (fuel + 1) (c :: rest) = some r := by
        have hskip : skipWhitespace (c :: rest) = c :: rest :=
          List.dropWhile_cons_of_neg (by simp [hc])
        rw [parseValue] at h ⊢
        rw [hs] at h
        rw [hskip]
        exact h
      exact ((progresses_parseValue hc (harray [] rest) (hobject [] rest) hsame).shrinks).mono
        (hs ▸ length_skipWhitespace text)
    · intro a text r h
      rcases parseArray_cases h with ⟨-, rfl⟩ | ⟨rest, hs, rfl⟩ |
        ⟨c, rest, hs, -, ⟨e, -, rfl⟩ | ⟨v, left, hv, h⟩⟩
      · exact Nat.zero_le _
      · exact length_closed hs
      · trivial
      · exact (harray _ _ _ h).mono (length_next hs (hvalue _ _ hv))
    · intro o text r h
      rcases parseObject_cases h with ⟨-, rfl⟩ | ⟨rest, hs, rfl⟩ |
        ⟨c, rest, hs, -, ⟨e, -, rfl⟩ | ⟨v, left, hv, h⟩⟩
      · exact Nat.zero_le _
      · exact length_closed hs
      · trivial
      · have hleft : Shrinks (c :: rest) (.ok (v, left)) :=
          (hvalue _ _ hv).mono ((length_member rest c).trans (Nat.le_succ _))
        exact (hobject _ _ _ h).mono (length_next hs hleft)

/-! ## 5. The reader ends where the scan finds no unreadable element -/

theorem ReadsValue.follows {r : Except StodError (Value × Text)}
    (h : ReadsValue reportsTiny text r) (κ : List Frame) :
    Follows reportsTiny κ (Scan.verdict reportsTiny ⟨.value, κ⟩ text) r := by
  obtain ⟨fuel, h⟩ := h
  exact (verdict_parse fuel).1 text κ r h

theorem ReadsValue.progresses {r : Except StodError (Value × Text)}
    (h : ReadsValue reportsTiny (c :: rest) r) (hc : isSpace c = false) : Progresses c rest r := by
  obtain ⟨fuel, h⟩ := h
  cases fuel with
  | zero => cases h
  | succ fuel =>
    exact progresses_parseValue hc ((shrinks_parse fuel).2.1 [] rest)
      ((shrinks_parse fuel).2.2 [] rest) h

/-- A readable element leaves less than there was, the comma behind it included. -/
theorem element_shrinks (hc : isSpace c = false) (hend : c ≠ closeBracket)
    (hread : Scan.verdict reportsTiny ⟨.element, .array :: κ⟩ (c :: rest) ≠ .unreadable)
    (hv : ReadsValue reportsTiny (c :: rest) (.ok (v, left))) :
    (skipByte comma (skipWhitespace left)).length ≤ rest.length := by
  rcases hv.progresses hc with h | ⟨rfl, hnone⟩
  · exact ((length_skipByte _ _).trans (length_skipWhitespace _)).trans h
  by_cases hcomma : c = comma
  · subst hcomma
    exact le_rfl
  -- the byte begins no value and is no comma: the scan stops there
  refine absurd ?_ hread
  have hstep : Scan.step reportsTiny ⟨.element, .array :: κ⟩ c = ⟨.unreadable, .array :: κ⟩ := by
    simp [Scan.step, atElement, hc, hend, hnone, hcomma]
  rw [verdict_cons, hstep]
  exact verdict_unreadable _ _

/-- A value is read, when the arrays and objects in shorter texts are. -/
theorem reads_value (hread : Scan.verdict reportsTiny ⟨.value, κ⟩ text ≠ .unreadable)
    (harray : ∀ rest, rest.length < text.length →
      Scan.verdict reportsTiny ⟨.element, .array :: κ⟩ rest ≠ .unreadable →
        ∃ r, ReadsArray reportsTiny [] rest r)
    (hobject : ∀ rest, rest.length < text.length →
      Scan.verdict reportsTiny ⟨.key, .object :: κ⟩ rest ≠ .unreadable →
        ∃ r, ReadsObject reportsTiny [] rest r) : ∃ r, ReadsValue reportsTiny text r := by
  rcases hs : skipWhitespace text with _ | ⟨c, rest⟩
  · refine ⟨.ok (.null, []), 1, ?_⟩
    rw [parseValue, hs]
  have hc := isSpace_skipWhitespace hs
  have hlt : rest.length < text.length := by
    have hle := length_skipWhitespace text
    rw [hs] at hle
    exact hle
  rw [← verdict_skipWhitespace step_value_space, hs] at hread
  by_cases ha : c = openBracket
  · subst ha
    obtain ⟨r, h⟩ := harray rest hlt hread
    exact ⟨r, readsValue_array hs h⟩
  by_cases ho : c = openBrace
  · subst ho
    obtain ⟨r, h⟩ := hobject rest hlt hread
    exact ⟨r, readsValue_object hs h⟩
  -- every other value is read without a loop over values
  rcases h : parseValue reportsTiny 1 text with _ | r
  · rw [parseValue] at h
    simp only [hs, if_neg ha, if_neg ho, parseNumber] at h
    split_ifs at h
    split at h <;> cases h
  · exact ⟨r, 1, h⟩

/-- The rest of an array or of an object in a readable text is read. -/
theorem reads_rest (reportsTiny : ℚ → Bool) (n : ℕ) :
    (∀ text a κ, text.length < n →
      Scan.verdict reportsTiny ⟨.element, .array :: κ⟩ text ≠ .unreadable →
        ∃ r, ReadsArray reportsTiny a text r) ∧
    (∀ text o κ, text.length < n →
      Scan.verdict reportsTiny ⟨.key, .object :: κ⟩ text ≠ .unreadable →
        ∃ r, ReadsObject reportsTiny o text r) := by
  induction n with
  | zero => exact ⟨nofun, nofun⟩
  | succ n ih =>
    obtain ⟨harray, hobject⟩ := ih
    have hvalue : ∀ text κ, text.length ≤ n →
        Scan.verdict reportsTiny ⟨.value, κ⟩ text ≠ .unreadable →
          ∃ r, ReadsValue reportsTiny text r := fun text κ hle hread =>
      reads_value hread (fun rest hlt => harray rest [] κ (hlt.trans_le hle))
        (fun rest hlt => hobject rest [] κ (hlt.trans_le hle))
    refine ⟨fun text a κ hlt hread => ?_, fun text o κ hlt hread => ?_⟩
    · have hle : (skipWhitespace text).length ≤ n :=
        (length_skipWhitespace text).trans (Nat.lt_succ_iff.mp hlt)
      rw [← verdict_skipWhitespace step_element_space] at hread
      rcases hs : skipWhitespace text with _ | ⟨c, rest⟩
      · refine ⟨.ok (.array a, []), 1, ?_⟩
        rw [parseArray, hs]
      have hc := isSpace_skipWhitespace hs
      rw [hs] at hread hle
      by_cases hend : c = closeBracket
      · subst hend
        exact ⟨_, readsArray_end hs⟩
      have hsame : Scan.verdict reportsTiny ⟨.element, .array :: κ⟩ (c :: rest) =
          Scan.verdict reportsTiny ⟨.value, .array :: κ⟩ (c :: rest) := by
        rw [verdict_cons, step_element hc hend, ← verdict_cons]
      obtain ⟨e | ⟨v, left⟩, hv⟩ := hvalue (c :: rest) (.array :: κ) hle (hsame ▸ hread)
      · exact ⟨_, readsArray_throw hs hend hv⟩
      have hafter : Scan.verdict reportsTiny ⟨.value, .array :: κ⟩ (c :: rest) =
          Scan.verdict reportsTiny ⟨.after, .array :: κ⟩ left := hv.follows _
      have hshort := (element_shrinks hc hend hread hv).trans_lt hle
      rw [hsame, hafter, verdict_after] at hread
      obtain ⟨r, h⟩ := harray _ (a ++ [v]) κ hshort hread
      exact ⟨r, readsArray_next hs hend hv h⟩
    · have hle : (skipWhitespace text).length ≤ n :=
        (length_skipWhitespace text).trans (Nat.lt_succ_iff.mp hlt)
      rw [← verdict_skipWhitespace step_key_space] at hread
      rcases hs : skipWhitespace text with _ | ⟨c, rest⟩
      · refine ⟨.ok (.object o, []), 1, ?_⟩
        rw [parseObject, hs]
      have hc := isSpace_skipWhitespace hs
      rw [hs] at hread hle
      by_cases hend : c = closeBrace
      · subst hend
        exact ⟨_, readsObject_end hs⟩
      have hsame : Scan.verdict reportsTiny ⟨.key, .object :: κ⟩ (c :: rest) =
          Scan.verdict reportsTiny ⟨.value, .object :: κ⟩
            (skipByte colon (skipWhitespace (parseString (c :: rest)).2)) := by
        rw [verdict_cons, step_key hc hend, verdict_string]
        exact verdict_colon _ _
      have hmember := (length_member rest c).trans (Nat.le_of_succ_le hle)
      obtain ⟨e | ⟨v, left⟩, hv⟩ := hvalue _ (.object :: κ) hmember (hsame ▸ hread)
      · exact ⟨_, readsObject_throw hs hend hv⟩
      have hafter : Scan.verdict reportsTiny ⟨.value, .object :: κ⟩
          (skipByte colon (skipWhitespace (parseString (c :: rest)).2)) =
            Scan.verdict reportsTiny ⟨.after, .object :: κ⟩ left := hv.follows _
      have hshort : (skipByte comma (skipWhitespace left)).length < n := by
        obtain ⟨fuel, hv⟩ := hv
        have hleft : left.length ≤ rest.length :=
          ((shrinks_parse fuel).1 _ _ hv).trans (length_member rest c)
        exact (((length_skipByte _ _).trans (length_skipWhitespace _)).trans hleft).trans_lt hle
      rw [hsame, hafter, verdict_after] at hread
      obtain ⟨r, h⟩ := hobject _ (OrderedMap.insert (parseString (c :: rest)).1 v o) κ hshort hread
      exact ⟨r, readsObject_next hs hend rfl hv h⟩

/-- What the reader makes of a text is what the scan finds in it. -/
theorem scan_of_parse {r : Except StodError Value} (h : parse reportsTiny text fuel = some r) :
    scan reportsTiny text =
      match r with
      | .ok _ => .readable
      | .error _ => .rejected := by
  obtain ⟨r', hr, rfl⟩ := Option.map_eq_some_iff.mp h
  have hfollows := ReadsValue.follows ⟨fuel, hr⟩ []
  rcases r' with e | ⟨v, left⟩
  · exact hfollows
  · exact Eq.trans hfollows (verdict_outermost left)

/-- The reader ends where the scan finds no such element. -/
theorem returns_of_scan (h : scan reportsTiny text ≠ .unreadable) :
    Fuel.Returns (parse reportsTiny text) := by
  obtain ⟨harray, hobject⟩ := reads_rest reportsTiny text.length
  obtain ⟨r, fuel, hr⟩ :=
    reads_value h (fun rest => harray rest [] []) fun rest => hobject rest [] []
  exact ⟨fuel, _, Option.map_eq_some_iff.mpr ⟨r, hr, rfl⟩⟩

/-- **The reader ends exactly on the texts in which every element of an array that it comes to
begins with a byte that begins a value, a comma or the closing bracket.** -/
theorem terminates_iff (reportsTiny : ℚ → Bool) (text : Text) :
    Fuel.Returns (parse reportsTiny text) ↔ scan reportsTiny text ≠ .unreadable := by
  constructor
  · rintro ⟨fuel, r, h⟩ hscan
    have hfound := scan_of_parse h
    rw [hscan] at hfound
    split at hfound <;> cases hfound
  · exact returns_of_scan

/-- On an opening bracket and a letter that begins no value the reader does not end. -/
theorem not_terminates :
    ¬ ∀ (reportsTiny : ℚ → Bool) (text : Text), Fuel.Returns (parse reportsTiny text) := by
  intro h
  obtain ⟨fuel, r, hr⟩ := h (fun _ => false) [openBracket, ch 'x']
  have hfound := scan_of_parse hr
  have hscan : scan (fun _ => false) [openBracket, ch 'x'] = .unreadable := by decide
  rw [hscan] at hfound
  split at hfound <;> cases hfound

end YukiZygisk.Json
