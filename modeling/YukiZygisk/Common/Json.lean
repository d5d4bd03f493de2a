/-
# The JSON reader and writer

The header `common/json.hpp`: the values, the text that `dump` writes and the values that `parse`
reads.  The reader is lenient.  It skips the letters of a literal without looking at them, takes
the end of the text for the end of whatever is open, and an array goes on after something that is
no value.

The reader can run for ever, so its functions are given fuel and answer `none` when it ends
(`parseValue`, `parseArray`, `parseObject`); more fuel changes no answer (`parse_steady`).  A
number that `std::stod` rejects ends the reader by an exception.

The three functions call each other and each loops besides, so fuel is spent at every call and every
turn.  That more fuel changes no answer is one induction for the three of them (`steady`), as a
property of functions of fuel of the library `Fuel`.  It lets the reader be spoken of without fuel:
`ReadsValue`, `ReadsArray` and `ReadsObject` say that some fuel gives an answer, and each has the
rules of its function, one for each way a turn can go (`readsArray_next`, `readsObject_end` and so
on).  What the daemon, the tool and the round trip need of the reader is stated in these.
-/
import YukiZygisk.Lib.Fuel
import YukiZygisk.Lib.OrderedMap

namespace YukiZygisk.Json

/-! ## 1. Characters -/

/-- The bytes of a `std::string`. -/
abbrev Text := List UInt8

/-- `char_traits<char>::compare` orders strings by their unsigned bytes. -/
instance byteOrder : LinearOrder UInt8 where
  le_refl := UInt8.le_refl
  le_trans _ _ _ := UInt8.le_trans
  le_antisymm _ _ := UInt8.le_antisymm
  le_total := UInt8.le_total
  lt_iff_le_not_ge a b := by simp only [UInt8.lt_iff_toNat_lt, UInt8.le_iff_toNat_le]; omega
  toDecidableLE := inferInstance
  toDecidableEq := inferInstance
  toDecidableLT := inferInstance

abbrev quote : UInt8 := 34
abbrev comma : UInt8 := 44
abbrev minus : UInt8 := 45
abbrev point : UInt8 := 46
abbrev zero : UInt8 := 48
abbrev colon : UInt8 := 58
abbrev openBracket : UInt8 := 91
abbrev backslash : UInt8 := 92
abbrev closeBracket : UInt8 := 93
abbrev openBrace : UInt8 := 123
abbrev closeBrace : UInt8 := 125

/-- The code of a letter. -/
abbrev ch (c : Char) : UInt8 := c.toNat.toUInt8

/-- `std::isspace` of the C locale: the space and the controls from tab to carriage return. -/
def isSpace (c : UInt8) : Bool := c = 32 || (9 ≤ c && c ≤ 13)

/-- `std::isdigit`. -/
def isDigit (c : UInt8) : Bool := zero ≤ c && c ≤ 57

/-! ## 2. Numbers -/

/-- A finite `double`: its sign and its exact magnitude. -/
structure Double where
  negative : Bool
  magnitude : ℚ
  deriving DecidableEq

/-- What `==` compares: the two zeros are equal. -/
def Double.toRat (n : Double) : ℚ := if n.negative then -n.magnitude else n.magnitude

/-- The nearest natural number, a tie going to the even one. -/
def roundHalfEven (x : ℚ) : ℕ :=
  let whole := ⌊x⌋₊
  if x - whole < 1 / 2 then whole
  else if 1 / 2 < x - whole then whole + 1
  else if whole % 2 = 0 then whole else whole + 1

/-- The distance of neighbouring doubles at a magnitude. -/
def unitInLastPlace (x : ℚ) : ℚ := 2 ^ max (Int.log 2 x - 52) (-1074)

/-- The nearest double of a magnitude, the exponent unbounded above. -/
def roundDouble (x : ℚ) : ℚ := roundHalfEven (x / unitInLastPlace x) * unitInLastPlace x

/-- The two exceptions of `std::stod`. -/
inductive StodError where
  | invalidArgument
  | outOfRange
  deriving DecidableEq

/-- The number that decimal digits write. -/
def ofDigits (digits : Text) : ℕ := digits.foldl (fun n c => 10 * n + (c.toNat - 48)) 0

/--
`std::stod` on text of digits, minus signs and points: the longest start that is a decimal number,
rounded to the nearest double.  Whether the C library reports a result below the normal range as
out of range is its own choice (`reportsTiny`).
-/
def stod (reportsTiny : ℚ → Bool) (text : Text) : Except StodError Double :=
  let negative := text.head? = some minus
  let digits := if negative then text.tail else text
  let whole := digits.takeWhile isDigit
  let fraction :=
    match digits.drop whole.length with
    | [] => []
    | c :: rest => if c = point then rest.takeWhile isDigit else []
  if whole = [] ∧ fraction = [] then .error .invalidArgument
  else
    let exact : ℚ := ofDigits (whole ++ fraction) / 10 ^ fraction.length
    if 2 ^ 1024 ≤ roundDouble exact then .error .outOfRange
    else if 0 < exact ∧ exact < 2 ^ (-1022 : ℤ) ∧ reportsTiny exact then .error .outOfRange
    else .ok ⟨negative, roundDouble exact⟩

/-- The decimal digits of a number. -/
def decimal (n : ℕ) : Text := (Nat.toDigits 10 n).map ch

/-- `std::to_string(double)`: six digits after the point. -/
def toString (n : Double) : Text :=
  let scaled := roundHalfEven (n.magnitude * 10 ^ 6)
  let fraction := decimal (scaled % 10 ^ 6)
  (if n.negative then [minus] else []) ++ decimal (scaled / 10 ^ 6) ++ [point] ++
    List.replicate (6 - fraction.length) zero ++ fraction

/-- The number without the zeros at its end, and without a point that is then last. -/
def numberText (n : Double) : Text :=
  let s := ((toString n).reverse.dropWhile (· = zero)).reverse
  if s.getLast? = some point then s.dropLast else s

/-! ## 3. Values -/

/-- `json::Value`.  An object is a `std::map`, the list of its members in the order of the keys. -/
inductive Value where
  | null
  | bool (b : Bool)
  | number (n : Double)
  | string (s : Text)
  | array (a : List Value)
  | object (o : List (Text × Value))

/-- `Value::as_bool`: what holds no boolean holds `false`. -/
def Value.asBool : Value → Bool
  | .bool b => b
  | _ => false

/-- `Value::as_number`: what holds no number holds zero. -/
def Value.asNumber : Value → Double
  | .number n => n
  | _ => ⟨false, 0⟩

/-- `Value::at`: the member, or a null value. -/
def Value.at (key : Text) : Value → Value
  | .object o => (OrderedMap.find key o).getD .null
  | _ => .null

/-- `Value::contains`. -/
def Value.contains (key : Text) : Value → Bool
  | .object o => (OrderedMap.find key o).isSome
  | _ => false

mutual
/-- Every object of the value has its keys strictly increasing, as a `std::map` has. -/
def Value.Ordered : Value → Prop
  | .array a => OrderedAll a
  | .object o => OrderedMap.Ordered o ∧ OrderedMembers o
  | _ => True

/-- `Value.Ordered` of every element. -/
def OrderedAll : List Value → Prop
  | [] => True
  | v :: a => v.Ordered ∧ OrderedAll a

/-- `Value.Ordered` of every member. -/
def OrderedMembers : List (Text × Value) → Prop
  | [] => True
  | (_, v) :: o => v.Ordered ∧ OrderedMembers o
end

/-- A value that a program can hold. -/
structure Document where
  value : Value
  ordered : value.Ordered

/-! ## 4. The writer -/

/-- A byte below sixteen as a hexadecimal digit. -/
def hexDigit (c : UInt8) : UInt8 := if c < 10 then zero + c else ch 'a' + (c - 10)

/-- What `escape_string` writes for a byte. -/
def escapeByte (c : UInt8) : Text :=
  if c = quote then [backslash, quote]
  else if c = backslash then [backslash, backslash]
  else if c = 8 then [backslash, ch 'b']
  else if c = 12 then [backslash, ch 'f']
  else if c = 10 then [backslash, ch 'n']
  else if c = 13 then [backslash, ch 'r']
  else if c = 9 then [backslash, ch 't']
  else if c < 32 then [backslash, ch 'u', zero, zero, hexDigit (c / 16), hexDigit (c % 16)]
  else [c]

/-- `escape_string`. -/
def escapeString (s : Text) : Text := quote :: (s.flatMap escapeByte ++ [quote])

/-- `INT_MAX`. -/
def intMax : ℕ := 2147483647

/-- `level + 1`, in `int`. -/
def nextLevel (level : ℕ) : Option ℕ := if level + 1 ≤ intMax then some (level + 1) else none

/-- `std::string(level * indent, ' ')` when there is an indent; the product is made in `int`. -/
def padding (indent : ℤ) (level : ℕ) : Option Text :=
  if indent < 0 then some []
  else if level * indent ≤ intMax then some (List.replicate (level * indent).toNat 32)
  else none

/-- The line end that stands after an opening bracket and a comma when there is an indent. -/
def newline (indent : ℤ) : Text := if indent < 0 then [] else [10]

/-- What stands between two elements. -/
def separator (indent : ℤ) : Text := comma :: (if indent < 0 then [32] else [10])

mutual
/-- `dump`; `none` when an `int` of the indentation overflows. -/
def dump (indent : ℤ) (level : ℕ) : Value → Option Text
  | .null => some [ch 'n', ch 'u', ch 'l', ch 'l']
  | .bool true => some [ch 't', ch 'r', ch 'u', ch 'e']
  | .bool false => some [ch 'f', ch 'a', ch 'l', ch 's', ch 'e']
  | .number n => some (numberText n)
  | .string s => some (escapeString s)
  | .array [] => some [openBracket, closeBracket]
  | .array (v :: a) => do
    let next ← nextLevel level
    let elements ← dumpElements indent next (v :: a)
    let last ← padding indent level
    some (openBracket :: (newline indent ++ elements ++ newline indent ++ last ++ [closeBracket]))
  | .object [] => some [openBrace, closeBrace]
  | .object (p :: o) => do
    let next ← nextLevel level
    let members ← dumpMembers indent next (p :: o)
    let last ← padding indent level
    some (openBrace :: (newline indent ++ members ++ newline indent ++ last ++ [closeBrace]))

/-- The loop of `dump` over the elements of an array. -/
def dumpElements (indent : ℤ) (level : ℕ) : List Value → Option Text
  | [] => some []
  | v :: a => do
    let pad ← padding indent level
    let value ← dump indent level v
    let rest ← dumpElements indent level a
    some (pad ++ value ++ (if a.isEmpty then [] else separator indent) ++ rest)

/-- The loop of `dump` over the members of an object. -/
def dumpMembers (indent : ℤ) (level : ℕ) : List (Text × Value) → Option Text
  | [] => some []
  | (key, v) :: o => do
    let pad ← padding indent level
    let value ← dump indent level v
    let rest ← dumpMembers indent level o
    some (pad ++ escapeString key ++ (colon :: if indent < 0 then [] else [32]) ++ value ++
      (if o.isEmpty then [] else separator indent) ++ rest)
end

/-! ## 5. The reader -/

/-- `skip_whitespace`: the text from the first byte that is no space. -/
def skipWhitespace (text : Text) : Text := text.dropWhile isSpace

/-- Passes a byte if it is the next one. -/
def skipByte (c : UInt8) : Text → Text
  | [] => []
  | d :: rest => if d = c then rest else d :: rest

/-- What a backslash and a byte stand for. -/
def unescape (next : UInt8) : UInt8 :=
  if next = ch 'n' then 10 else if next = ch 't' then 9 else next

/-- The loop of `parse_string`: the string and the text after it. -/
def stringBody : Text → Text × Text
  | [] => ([], [])
  | c :: rest =>
    if c = quote then ([], rest)
    else if c = backslash then
      match rest with
      | [] => ([], [])
      | next :: rest => ((unescape next :: (stringBody rest).1), (stringBody rest).2)
    else (c :: (stringBody rest).1, (stringBody rest).2)

/-- The closing quote. -/
theorem stringBody_quote (rest : Text) : stringBody (quote :: rest) = ([], rest) := by
  cases rest <;> rfl

/-- A byte behind a backslash. -/
theorem stringBody_escape (next : UInt8) (rest : Text) :
    stringBody (backslash :: next :: rest) =
      (unescape next :: (stringBody rest).1, (stringBody rest).2) := rfl

/-- Any other byte. -/
theorem stringBody_cons {c : UInt8} (hquote : c ≠ quote) (hback : c ≠ backslash) (rest : Text) :
    stringBody (c :: rest) = (c :: (stringBody rest).1, (stringBody rest).2) := by
  cases rest <;> exact (if_neg hquote).trans (if_neg hback)

/-- `parse_string`: the first byte is passed, whatever it is. -/
def parseString (text : Text) : Text × Text := stringBody (text.drop 1)

/-- The bytes that the loop of `parse_number` takes. -/
def isNumberByte (c : UInt8) : Bool := isDigit c || c = minus || c = point

/-- What a function of the reader makes: nothing yet, an exception, or a value and the text that is
left. -/
abbrev Answer := Option (Except StodError (Value × Text))

/-- `parse_number`. -/
def parseNumber (reportsTiny : ℚ → Bool) (text : Text) : Answer :=
  match stod reportsTiny (text.takeWhile isNumberByte) with
  | .error e => some (.error e)
  | .ok n => some (.ok (.number n, text.dropWhile isNumberByte))

mutual
/-- `parse_value`. -/
def parseValue (reportsTiny : ℚ → Bool) : ℕ → Text → Answer
  | 0, _ => none
  | fuel + 1, text =>
    match skipWhitespace text with
    | [] => some (.ok (.null, []))
    | c :: rest =>
      if c = ch 'n' then some (.ok (.null, rest.drop 3))
      else if c = ch 't' then some (.ok (.bool true, rest.drop 3))
      else if c = ch 'f' then some (.ok (.bool false, rest.drop 4))
      else if c = quote then
        some (.ok (.string (parseString (c :: rest)).1, (parseString (c :: rest)).2))
      else if c = openBracket then parseArray reportsTiny fuel [] rest
      else if c = openBrace then parseObject reportsTiny fuel [] rest
      else if c = minus || isDigit c then parseNumber reportsTiny (c :: rest)
      -- nothing that begins a value: a null value, and nothing is passed
      else some (.ok (.null, c :: rest))

/-- The loop of `parse_array`, with the elements so far. -/
def parseArray (reportsTiny : ℚ → Bool) : ℕ → List Value → Text → Answer
  | 0, _, _ => none
  | fuel + 1, a, text =>
    match skipWhitespace text with
    | [] => some (.ok (.array a, []))
    | c :: rest =>
      if c = closeBracket then some (.ok (.array a, rest))
      else
        match parseValue reportsTiny fuel (c :: rest) with
        | none => none
        | some (.error e) => some (.error e)
        | some (.ok (v, left)) =>
          parseArray reportsTiny fuel (a ++ [v]) (skipByte comma (skipWhitespace left))

/-- The loop of `parse_object`, with the members so far. -/
def parseObject (reportsTiny : ℚ → Bool) : ℕ → List (Text × Value) → Text → Answer
  | 0, _, _ => none
  | fuel + 1, o, text =>
    match skipWhitespace text with
    | [] => some (.ok (.object o, []))
    | c :: rest =>
      if c = closeBrace then some (.ok (.object o, rest))
      else
        match parseValue reportsTiny fuel
            (skipByte colon (skipWhitespace (parseString (c :: rest)).2)) with
        | none => none
        | some (.error e) => some (.error e)
        | some (.ok (v, left)) =>
          parseObject reportsTiny fuel (OrderedMap.insert (parseString (c :: rest)).1 v o)
            (skipByte comma (skipWhitespace left))
end

/-- `json::parse`. -/
def parse (reportsTiny : ℚ → Bool) (text : Text) (fuel : ℕ) : Option (Except StodError Value) :=
  (parseValue reportsTiny fuel text).map fun r => r.map Prod.fst

/-! ## 6. More fuel changes no answer -/

variable {reportsTiny : ℚ → Bool} {text : Text} {r : Except StodError (Value × Text)}

/-- **More fuel changes no answer**, of the three functions at once. -/
theorem steady (fuel : ℕ) :
    (∀ text r, parseValue reportsTiny fuel text = some r →
      parseValue reportsTiny (fuel + 1) text = some r) ∧
    (∀ a text r, parseArray reportsTiny fuel a text = some r →
      parseArray reportsTiny (fuel + 1) a text = some r) ∧
    (∀ o text r, parseObject reportsTiny fuel o text = some r →
      parseObject reportsTiny (fuel + 1) o text = some r) := by
  induction fuel with
  | zero => exact ⟨nofun, nofun, nofun⟩
  | succ fuel ih =>
    obtain ⟨hvalue, harray, hobject⟩ := ih
    refine ⟨?_, ?_, ?_⟩
    · intro text r h
      rw [parseValue] at h ⊢
      rcases hs : skipWhitespace text with _ | ⟨c, rest⟩
      · rwa [hs] at h
      simp only [hs] at h ⊢
      split_ifs at h ⊢
      all_goals first | exact h | exact harray _ _ _ h | exact hobject _ _ _ h
    · intro a text r h
      rw [parseArray] at h ⊢
      rcases hs : skipWhitespace text with _ | ⟨c, rest⟩
      · rwa [hs] at h
      simp only [hs] at h ⊢
      split_ifs at h ⊢ with hend
      · exact h
      rcases hv : parseValue reportsTiny fuel (c :: rest) with _ | e | ⟨v, left⟩
      · rw [hv] at h
        cases h
      · rw [hv] at h
        rw [hvalue _ _ hv]
        exact h
      · rw [hv] at h
        rw [hvalue _ _ hv]
        exact harray _ _ _ h
    · intro o text r h
      rw [parseObject] at h ⊢
      rcases hs : skipWhitespace text with _ | ⟨c, rest⟩
      · rwa [hs] at h
      simp only [hs] at h ⊢
      split_ifs at h ⊢ with hend
      · exact h
      rcases hv : parseValue reportsTiny fuel
          (skipByte colon (skipWhitespace (parseString (c :: rest)).2)) with _ | e | ⟨v, left⟩
      · rw [hv] at h
        cases h
      · rw [hv] at h
        rw [hvalue _ _ hv]
        exact h
      · rw [hv] at h
        rw [hvalue _ _ hv]
        exact hobject _ _ _ h

theorem parseValue_steady (reportsTiny : ℚ → Bool) (text : Text) :
    Fuel.Steady fun fuel => parseValue reportsTiny fuel text :=
  fun fuel r => (steady fuel).1 text r

theorem parseArray_steady (reportsTiny : ℚ → Bool) (a : List Value) (text : Text) :
    Fuel.Steady fun fuel => parseArray reportsTiny fuel a text :=
  fun fuel r => (steady fuel).2.1 a text r

theorem parseObject_steady (reportsTiny : ℚ → Bool) (o : List (Text × Value)) (text : Text) :
    Fuel.Steady fun fuel => parseObject reportsTiny fuel o text :=
  fun fuel r => (steady fuel).2.2 o text r

/-- **The value that is read does not depend on the fuel.** -/
theorem parse_steady (reportsTiny : ℚ → Bool) (text : Text) :
    Fuel.Steady (parse reportsTiny text) := by
  intro fuel r h
  obtain ⟨r', hr, rfl⟩ := Option.map_eq_some_iff.mp h
  have hnext : parseValue reportsTiny (fuel + 1) text = some r' := (steady fuel).1 text r' hr
  rw [parse, hnext]
  rfl

/-! ## 7. The reader without fuel -/

/-- With some fuel a value is read so. -/
def ReadsValue (reportsTiny : ℚ → Bool) (text : Text) (r : Except StodError (Value × Text)) :
    Prop :=
  ∃ fuel, parseValue reportsTiny fuel text = some r

/-- With some fuel the rest of an array is read so. -/
def ReadsArray (reportsTiny : ℚ → Bool) (a : List Value) (text : Text)
    (r : Except StodError (Value × Text)) : Prop :=
  ∃ fuel, parseArray reportsTiny fuel a text = some r

/-- With some fuel the rest of an object is read so. -/
def ReadsObject (reportsTiny : ℚ → Bool) (o : List (Text × Value)) (text : Text)
    (r : Except StodError (Value × Text)) : Prop :=
  ∃ fuel, parseObject reportsTiny fuel o text = some r

variable {a : List Value} {o : List (Text × Value)} {c : UInt8} {rest left : Text} {v : Value}
  {e : StodError}

theorem readsValue_array (hs : skipWhitespace text = openBracket :: rest)
    (h : ReadsArray reportsTiny [] rest r) : ReadsValue reportsTiny text r := by
  obtain ⟨fuel, h⟩ := h
  refine ⟨fuel + 1, ?_⟩
  rw [parseValue, hs]
  exact h

theorem readsValue_object (hs : skipWhitespace text = openBrace :: rest)
    (h : ReadsObject reportsTiny [] rest r) : ReadsValue reportsTiny text r := by
  obtain ⟨fuel, h⟩ := h
  refine ⟨fuel + 1, ?_⟩
  rw [parseValue, hs]
  exact h

/-- An array that is closed. -/
theorem readsArray_end (hs : skipWhitespace text = closeBracket :: rest) :
    ReadsArray reportsTiny a text (.ok (.array a, rest)) := by
  refine ⟨1, ?_⟩
  rw [parseArray, hs]
  rfl

/-- An element at which the reader throws. -/
theorem readsArray_throw (hs : skipWhitespace text = c :: rest) (hend : c ≠ closeBracket)
    (hv : ReadsValue reportsTiny (c :: rest) (.error e)) :
    ReadsArray reportsTiny a text (.error e) := by
  obtain ⟨fuel, hv⟩ := hv
  refine ⟨fuel + 1, ?_⟩
  rw [parseArray, hs]
  simp only [if_neg hend, hv]

/-- An element, and what comes behind it. -/
theorem readsArray_next (hs : skipWhitespace text = c :: rest) (hend : c ≠ closeBracket)
    (hv : ReadsValue reportsTiny (c :: rest) (.ok (v, left)))
    (h : ReadsArray reportsTiny (a ++ [v]) (skipByte comma (skipWhitespace left)) r) :
    ReadsArray reportsTiny a text r := by
  obtain ⟨f, hv⟩ := hv
  obtain ⟨g, h⟩ := h
  refine ⟨max f g + 1, ?_⟩
  rw [parseArray, hs]
  simp only [if_neg hend, (parseValue_steady _ _).lift hv (Nat.le_max_left f g)]
  exact (parseArray_steady _ _ _).lift h (Nat.le_max_right f g)

/-- An object that is closed. -/
theorem readsObject_end (hs : skipWhitespace text = closeBrace :: rest) :
    ReadsObject reportsTiny o text (.ok (.object o, rest)) := by
  refine ⟨1, ?_⟩
  rw [parseObject, hs]
  rfl

/-- A member at which the reader throws. -/
theorem readsObject_throw (hs : skipWhitespace text = c :: rest) (hend : c ≠ closeBrace)
    (hv : ReadsValue reportsTiny
      (skipByte colon (skipWhitespace (parseString (c :: rest)).2)) (.error e)) :
    ReadsObject reportsTiny o text (.error e) := by
  obtain ⟨fuel, hv⟩ := hv
  refine ⟨fuel + 1, ?_⟩
  rw [parseObject, hs]
  simp only [if_neg hend, hv]

/-- A member, and what comes behind it. -/
theorem readsObject_next {key behind : Text} (hs : skipWhitespace text = c :: rest)
    (hend : c ≠ closeBrace) (hkey : parseString (c :: rest) = (key, behind))
    (hv : ReadsValue reportsTiny (skipByte colon (skipWhitespace behind)) (.ok (v, left)))
    (h : ReadsObject reportsTiny (OrderedMap.insert key v o)
      (skipByte comma (skipWhitespace left)) r) :
    ReadsObject reportsTiny o text r := by
  obtain ⟨f, hv⟩ := hv
  obtain ⟨g, h⟩ := h
  refine ⟨max f g + 1, ?_⟩
  rw [parseObject, hs]
  simp only [if_neg hend, hkey, (parseValue_steady _ _).lift hv (Nat.le_max_left f g)]
  exact (parseObject_steady _ _ _).lift h (Nat.le_max_right f g)

end YukiZygisk.Json
