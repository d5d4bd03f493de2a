/-
# Writing a JSON value and reading it back

`dump` writes a byte of a string in one of four ways: as it is, after a backslash, as a backslash
and a letter, or as a backslash, `u` and four digits.  `parse_string` knows the backslash and the
letters `n` and `t`; any other byte behind a backslash it takes as it is.

What is read back of a dumped value is therefore the value with other strings in it
(`reads_dump`), the same one exactly when no string and no key has a control byte other than tab
and line feed (`reread_eq_iff`).  **A value without numbers is given back by `parse` on the text of
`dump` exactly when its strings are so and the indentation fits an `int`** (`roundTrips_iff`).

The dumped text is followed from left to right, in front of anything that may come behind
(`reads_dump`, mutually with the elements of an array and the members of an object, by recursion on
the value): the indentation is blank, and the reader skips blanks wherever the writer puts some.  A
string is read back byte by byte (`stringBody_escapeByte`), each as what its spelling is taken for,
so the string that comes back is the same exactly when no byte's spelling is taken for another.
Members come back in the order of their keys, which for a value of this program is the order that
they have (`Ordered`).

The indentation is a product of two `int`s that may overflow; `dump` then has no text.
`dump_isSome` says for which depth and indentation it has one, which is a condition on the depth of
the value only.
-/
import YukiZygisk.Common.Json

namespace YukiZygisk.Json

variable {reportsTiny : ℚ → Bool} {c : UInt8} {s text rest lead tail : Text} {v : Value}
  {a acc : List Value} {o members : List (Text × Value)} {indent : ℤ} {level : ℕ}

/-! ## 1. Strings -/

/-- The bytes that are read as they were written. -/
def isPlain (c : UInt8) : Bool := 32 ≤ c || c = 9 || c = 10

/-- What is read of the text that `escape_string` writes for a byte. -/
def rereadByte (c : UInt8) : Text :=
  if isPlain c then [c]
  else if c = 8 then [ch 'b']
  else if c = 12 then [ch 'f']
  else if c = 13 then [ch 'r']
  else [ch 'u', zero, zero, hexDigit (c / 16), hexDigit (c % 16)]

/-- What is read of a dumped string. -/
def rereadText (s : Text) : Text := s.flatMap rereadByte

theorem hexDigit_ok : ∀ n : Fin 16, hexDigit (UInt8.ofNat n) ≠ quote ∧
    hexDigit (UInt8.ofNat n) ≠ backslash ∧ isPlain (hexDigit (UInt8.ofNat n)) := by decide

/-- A hexadecimal digit ends no string and escapes nothing. -/
theorem hexDigit_spec (h : c < 16) :
    hexDigit c ≠ quote ∧ hexDigit c ≠ backslash ∧ isPlain (hexDigit c) := by
  have hc := hexDigit_ok ⟨c.toNat, UInt8.lt_iff_toNat_lt.mp h⟩
  simpa using hc

theorem div_byte (h : c < 32) : c / 16 < 16 := by
  rw [UInt8.lt_iff_toNat_lt] at h ⊢
  rw [UInt8.toNat_div]
  exact Nat.div_lt_of_lt_mul (h.trans (by decide))

theorem mod_byte (c : UInt8) : c % 16 < 16 := by
  rw [UInt8.lt_iff_toNat_lt, UInt8.toNat_mod]
  exact Nat.mod_lt _ (by decide)

/-- What the loop of `parse_string` makes of one escaped byte. -/
theorem stringBody_escapeByte (c : UInt8) (rest : Text) :
    stringBody (escapeByte c ++ rest) =
      (rereadByte c ++ (stringBody rest).1, (stringBody rest).2) := by
  by_cases hquote : c = quote
  · subst hquote
    exact stringBody_escape _ _
  by_cases hback : c = backslash
  · subst hback
    exact stringBody_escape _ _
  by_cases h8 : c = 8
  · subst h8
    exact stringBody_escape _ _
  by_cases h12 : c = 12
  · subst h12
    exact stringBody_escape _ _
  by_cases h10 : c = 10
  · subst h10
    exact stringBody_escape _ _
  by_cases h13 : c = 13
  · subst h13
    exact stringBody_escape _ _
  by_cases h9 : c = 9
  · subst h9
    exact stringBody_escape _ _
  by_cases hctl : c < 32
  · have hesc : escapeByte c =
        [backslash, ch 'u', zero, zero, hexDigit (c / 16), hexDigit (c % 16)] := by
      simp only [escapeByte, if_neg hquote, if_neg hback, if_neg h8, if_neg h12, if_neg h10,
        if_neg h13, if_neg h9, if_pos hctl]
    have hplain : isPlain c = false := by simp [isPlain, h9, h10, not_le.mpr hctl]
    have hread : rereadByte c =
        [ch 'u', zero, zero, hexDigit (c / 16), hexDigit (c % 16)] := by
      simp only [rereadByte, hplain, if_neg h8, if_neg h12, if_neg h13, Bool.false_eq_true,
        if_false]
    obtain ⟨hq1, hb1, -⟩ := hexDigit_spec (div_byte hctl)
    obtain ⟨hq2, hb2, -⟩ := hexDigit_spec (mod_byte c)
    rw [hesc, hread]
    simp only [List.cons_append, List.nil_append]
    rw [stringBody_escape, stringBody_cons (by decide) (by decide),
      stringBody_cons (by decide) (by decide), stringBody_cons hq1 hb1, stringBody_cons hq2 hb2]
    rfl
  · have hesc : escapeByte c = [c] := by
      simp only [escapeByte, if_neg hquote, if_neg hback, if_neg h8, if_neg h12, if_neg h10,
        if_neg h13, if_neg h9, if_neg hctl]
    have hread : rereadByte c = [c] := if_pos (by simp [isPlain, not_lt.mp hctl])
    rw [hesc, hread]
    exact stringBody_cons hquote hback rest

/-- **The reader's string**: the escaped bytes up to the quote. -/
theorem stringBody_escapeString (s rest : Text) :
    stringBody (s.flatMap escapeByte ++ quote :: rest) = (rereadText s, rest) := by
  induction s with
  | nil => exact stringBody_quote rest
  | cons c s ih =>
    rw [List.flatMap_cons, List.append_assoc, stringBody_escapeByte, ih]
    rfl

theorem isPlain_rereadByte (c : UInt8) : ∀ d ∈ rereadByte c, isPlain d := by
  rw [rereadByte]
  split_ifs with hplain h8 h12 h13
  · exact List.forall_mem_singleton.mpr hplain
  · exact List.forall_mem_singleton.mpr (by decide)
  · exact List.forall_mem_singleton.mpr (by decide)
  · exact List.forall_mem_singleton.mpr (by decide)
  · have hctl : c < 32 := by
      simp only [isPlain, Bool.or_eq_true, decide_eq_true_eq, not_or, not_le] at hplain
      exact hplain.1.1
    have hu : isPlain (ch 'u') := by decide
    have hz : isPlain zero := by decide
    have hdigits : ∀ d ∈ [hexDigit (c / 16), hexDigit (c % 16)], isPlain d :=
      List.forall_mem_cons.mpr ⟨(hexDigit_spec (div_byte hctl)).2.2,
        List.forall_mem_singleton.mpr (hexDigit_spec (mod_byte c)).2.2⟩
    exact List.forall_mem_cons.mpr ⟨hu, List.forall_mem_cons.mpr ⟨hz,
      List.forall_mem_cons.mpr ⟨hz, hdigits⟩⟩⟩

/-- A string whose bytes are read as they were written. -/
def PlainText (s : Text) : Prop := ∀ c ∈ s, isPlain c

instance (s : Text) : Decidable (PlainText s) :=
  decidable_of_iff (s.all isPlain = true) List.all_eq_true

/-- What is read back can be written as it is. -/
theorem plain_rereadText (s : Text) : PlainText (rereadText s) := by
  intro d hd
  obtain ⟨c, -, hd⟩ := List.mem_flatMap.mp hd
  exact isPlain_rereadByte c d hd

/-- A plain string comes back. -/
theorem rereadText_plain (h : PlainText s) : rereadText s = s := by
  induction s with
  | nil => rfl
  | cons c s ih =>
    have hc : rereadByte c = [c] := if_pos (h c List.mem_cons_self)
    rw [rereadText, List.flatMap_cons, hc, ← rereadText,
      ih fun d hd => h d (List.mem_cons_of_mem c hd)]
    rfl

/-! ## 2. Values -/

mutual
/-- Every string and every key of the value is plain. -/
def Value.Plain : Value → Prop
  | .string s => PlainText s
  | .array a => PlainAll a
  | .object o => PlainMembers o
  | _ => True

/-- `Value.Plain` of every element. -/
def PlainAll : List Value → Prop
  | [] => True
  | v :: a => v.Plain ∧ PlainAll a

/-- `Value.Plain` of every member and its key. -/
def PlainMembers : List (Text × Value) → Prop
  | [] => True
  | (key, v) :: o => (PlainText key ∧ v.Plain) ∧ PlainMembers o
end

mutual
/-- There is no number in the value. -/
def Value.NoNumbers : Value → Prop
  | .number _ => False
  | .array a => NoNumbersAll a
  | .object o => NoNumbersMembers o
  | _ => True

/-- `Value.NoNumbers` of every element. -/
def NoNumbersAll : List Value → Prop
  | [] => True
  | v :: a => v.NoNumbers ∧ NoNumbersAll a

/-- `Value.NoNumbers` of every member. -/
def NoNumbersMembers : List (Text × Value) → Prop
  | [] => True
  | (_, v) :: o => v.NoNumbers ∧ NoNumbersMembers o
end

mutual
/-- What is read of a dumped value: other strings, and the members stored under other keys. -/
def Value.reread : Value → Value
  | .string s => .string (rereadText s)
  | .array a => .array (rereadAll a)
  | .object o => .object (OrderedMap.insertAll [] (rereadMembers o))
  | v => v

/-- `Value.reread` of every element. -/
def rereadAll : List Value → List Value
  | [] => []
  | v :: a => v.reread :: rereadAll a

/-- `Value.reread` of every member and its key. -/
def rereadMembers : List (Text × Value) → List (Text × Value)
  | [] => []
  | (key, v) :: o => (rereadText key, v.reread) :: rereadMembers o
end

theorem plainMembers_iff : PlainMembers o ↔ ∀ p ∈ o, PlainText p.1 ∧ p.2.Plain := by
  induction o with
  | nil => simp [PlainMembers]
  | cons p o ih =>
    rw [PlainMembers, ih, List.forall_mem_cons]

mutual
/-- What is read of a dumped value is plain. -/
theorem plain_reread : ∀ v : Value, v.reread.Plain
  | .null => trivial
  | .bool _ => trivial
  | .number _ => trivial
  | .string s => plain_rereadText s
  | .array a => plain_rereadAll a
  | .object o => by
    refine plainMembers_iff.mpr ?_
    intro p hp
    rcases OrderedMap.mem_insertAll hp with hp | hp
    · cases hp
    · exact plainMembers_iff.mp (plain_rereadMembers o) p hp

theorem plain_rereadAll : ∀ a : List Value, PlainAll (rereadAll a)
  | [] => trivial
  | v :: a => ⟨plain_reread v, plain_rereadAll a⟩

theorem plain_rereadMembers : ∀ o : List (Text × Value), PlainMembers (rereadMembers o)
  | [] => trivial
  | (key, v) :: o => ⟨⟨plain_rereadText key, plain_reread v⟩, plain_rereadMembers o⟩
end

mutual
theorem reread_plain : ∀ v : Value, v.Plain → v.Ordered → v.reread = v
  | .null, _, _ => rfl
  | .bool _, _, _ => rfl
  | .number _, _, _ => rfl
  | .string s, hplain, _ => congrArg Value.string (rereadText_plain hplain)
  | .array a, hplain, hord => congrArg Value.array (rereadAll_plain a hplain hord)
  | .object o, hplain, hord => by
    rw [Value.reread, rereadMembers_plain o hplain hord.2,
      OrderedMap.insertAll_ordered hord.1]

theorem rereadAll_plain : ∀ a : List Value, PlainAll a → OrderedAll a → rereadAll a = a
  | [], _, _ => rfl
  | v :: a, hplain, hord => by
    rw [rereadAll, reread_plain v hplain.1 hord.1, rereadAll_plain a hplain.2 hord.2]

theorem rereadMembers_plain :
    ∀ o : List (Text × Value), PlainMembers o → OrderedMembers o → rereadMembers o = o
  | [], _, _ => rfl
  | (key, v) :: o, hplain, hord => by
    rw [rereadMembers, rereadText_plain hplain.1.1, reread_plain v hplain.1.2 hord.1,
      rereadMembers_plain o hplain.2 hord.2]
end

/-- A value is read as it was written exactly when its strings are plain. -/
theorem reread_eq_iff (d : Document) : d.value.reread = d.value ↔ d.value.Plain := by
  constructor
  · intro h
    rw [← h]
    exact plain_reread _
  · exact fun h => reread_plain _ h d.ordered

/-! ## 3. What is read of a dumped value -/

/-- Text of spaces only. -/
def Blank (s : Text) : Prop := ∀ c ∈ s, isSpace c

theorem skipWhitespace_blank (h : Blank lead) (rest : Text) :
    skipWhitespace (lead ++ rest) = skipWhitespace rest :=
  List.dropWhile_append_of_pos h

theorem skipWhitespace_cons (h : isSpace c = false) (rest : Text) :
    skipWhitespace (c :: rest) = c :: rest := List.dropWhile_cons_of_neg (by simp [h])

theorem blank_nil : Blank [] := nofun

theorem Blank.append (h : Blank lead) (h' : Blank tail) : Blank (lead ++ tail) :=
  fun c hc => (List.mem_append.mp hc).elim (h c) (h' c)

theorem blank_newline (indent : ℤ) : Blank (newline indent) := by
  rw [newline]
  split_ifs
  · exact blank_nil
  · exact List.forall_mem_singleton.mpr (by decide)

theorem blank_padding (h : padding indent level = some lead) : Blank lead := by
  rw [padding] at h
  split_ifs at h
  · obtain rfl := Option.some.inj h
    exact blank_nil
  · obtain rfl := Option.some.inj h
    intro c hc
    rw [List.eq_of_mem_replicate hc]
    decide

/-- A separator is a comma and then blank. -/
theorem separator_eq (indent : ℤ) : ∃ w, Blank w ∧ separator indent = comma :: w := by
  refine ⟨_, ?_, rfl⟩
  split_ifs <;> exact List.forall_mem_singleton.mpr (by decide)

/-- Only what follows the spaces matters to `parse_value`. -/
theorem readsValue_skip {r : Except StodError (Value × Text)}
    (hs : skipWhitespace text = skipWhitespace rest) (h : ReadsValue reportsTiny rest r) :
    ReadsValue reportsTiny text r := by
  obtain ⟨_ | fuel, h⟩ := h
  · cases h
  · refine ⟨fuel + 1, ?_⟩
    rw [parseValue] at h ⊢
    rwa [hs]

/-- The first byte of a dumped value is no space and closes no array. -/
theorem dump_head (hn : v.NoNumbers) (h : dump indent level v = some text) :
    ∃ c rest, text = c :: rest ∧ isSpace c = false ∧ c ≠ closeBracket := by
  match v, h with
  | .null, h => exact ⟨_, _, (Option.some.inj h).symm, by decide, by decide⟩
  | .bool true, h => exact ⟨_, _, (Option.some.inj h).symm, by decide, by decide⟩
  | .bool false, h => exact ⟨_, _, (Option.some.inj h).symm, by decide, by decide⟩
  | .number _, h => exact hn.elim
  | .string s, h => exact ⟨_, _, (Option.some.inj h).symm, by decide, by decide⟩
  | .array [], h => exact ⟨_, _, (Option.some.inj h).symm, by decide, by decide⟩
  | .array (v :: a), h =>
    simp only [dump, Option.bind_eq_bind, Option.bind_eq_some_iff, Option.some.injEq] at h
    obtain ⟨_, _, _, _, _, _, rfl⟩ := h
    exact ⟨_, _, rfl, by decide, by decide⟩
  | .object [], h => exact ⟨_, _, (Option.some.inj h).symm, by decide, by decide⟩
  | .object (p :: o), h =>
    simp only [dump, Option.bind_eq_bind, Option.bind_eq_some_iff, Option.some.injEq] at h
    obtain ⟨_, _, _, _, _, _, rfl⟩ := h
    exact ⟨_, _, rfl, by decide, by decide⟩

/-- Where a loop of the reader goes on behind an element of a dumped value. -/
theorem loop_next (close : UInt8) {others : Text} {last : Bool} (hclose : isSpace close = false)
    (hne : close ≠ comma) (htail : Blank tail) (hlast : last = true → others = [])
    (indent : ℤ) (rest : Text) :
    ∃ lead' tail', Blank lead' ∧ Blank tail' ∧
      skipByte comma (skipWhitespace
        ((if last then [] else separator indent) ++ others ++ tail ++ close :: rest)) =
          lead' ++ others ++ tail' ++ close :: rest := by
  cases last with
  | true =>
    refine ⟨[], [], blank_nil, blank_nil, ?_⟩
    rw [if_pos rfl, hlast rfl, List.nil_append, List.nil_append, skipWhitespace_blank htail,
      skipWhitespace_cons hclose, skipByte, if_neg hne]
    rfl
  | false =>
    obtain ⟨w, hw, hsep⟩ := separator_eq indent
    refine ⟨w, tail, hw, htail, ?_⟩
    rw [if_neg Bool.false_ne_true, hsep]
    simp only [List.cons_append]
    rw [skipWhitespace_cons (by decide), skipByte, if_pos rfl]

mutual
/-- **What `parse_value` reads of a dumped value**, whatever stands behind it. -/
theorem reads_dump : ∀ (v : Value) (level : ℕ) (text rest : Text), v.NoNumbers →
    dump indent level v = some text →
      ReadsValue reportsTiny (text ++ rest) (.ok (v.reread, rest))
  | .null, level, text, rest, _, h => by
    obtain rfl := Option.some.inj h
    exact ⟨1, rfl⟩
  | .bool true, level, text, rest, _, h => by
    obtain rfl := Option.some.inj h
    exact ⟨1, rfl⟩
  | .bool false, level, text, rest, _, h => by
    obtain rfl := Option.some.inj h
    exact ⟨1, rfl⟩
  | .number _, _, _, _, hn, _ => hn.elim
  | .string s, level, text, rest, _, h => by
    obtain rfl := Option.some.inj h
    refine ⟨1, ?_⟩
    have hbody := stringBody_escapeString s rest
    have hread : parseValue reportsTiny 1 (escapeString s ++ rest) =
        some (.ok (.string (stringBody (s.flatMap escapeByte ++ [quote] ++ rest)).1,
          (stringBody (s.flatMap escapeByte ++ [quote] ++ rest)).2)) := rfl
    rw [hread, List.append_assoc, List.singleton_append, hbody]
    rfl
  | .array [], level, text, rest, _, h => by
    obtain rfl := Option.some.inj h
    exact readsValue_array rfl (readsArray_end rfl)
  | .array (v :: a), level, text, rest, hn, h => by
    simp only [dump, Option.bind_eq_bind, Option.bind_eq_some_iff, Option.some.injEq] at h
    obtain ⟨next, -, elements, helements, last, hlast, rfl⟩ := h
    refine readsValue_array rfl ?_
    have hread := reads_elements (v :: a) [] next (newline indent) elements
      (newline indent ++ last) rest hn helements (blank_newline indent)
      ((blank_newline indent).append (blank_padding hlast))
    simpa [List.append_assoc, Value.reread] using hread
  | .object [], level, text, rest, _, h => by
    obtain rfl := Option.some.inj h
    exact readsValue_object rfl (readsObject_end rfl)
  | .object (p :: o), level, text, rest, hn, h => by
    simp only [dump, Option.bind_eq_bind, Option.bind_eq_some_iff, Option.some.injEq] at h
    obtain ⟨next, -, members, hmembers, last, hlast, rfl⟩ := h
    refine readsValue_object rfl ?_
    have hread := reads_members (p :: o) [] next (newline indent) members
      (newline indent ++ last) rest hn hmembers (blank_newline indent)
      ((blank_newline indent).append (blank_padding hlast))
    simpa [List.append_assoc, Value.reread] using hread

/-- The elements of an array. -/
theorem reads_elements : ∀ (a acc : List Value) (level : ℕ) (lead text tail rest : Text),
    NoNumbersAll a → dumpElements indent level a = some text → Blank lead → Blank tail →
      ReadsArray reportsTiny acc (lead ++ text ++ tail ++ closeBracket :: rest)
        (.ok (.array (acc ++ rereadAll a), rest))
  | [], acc, level, lead, text, tail, rest, _, h, hlead, htail => by
    obtain rfl := Option.some.inj h
    rw [rereadAll, List.append_nil, List.append_nil]
    refine readsArray_end ?_
    rw [skipWhitespace_blank (hlead.append htail), skipWhitespace_cons (by decide)]
  | v :: a, acc, level, lead, text, tail, rest, hn, h, hlead, htail => by
    simp only [dumpElements, Option.bind_eq_bind, Option.bind_eq_some_iff, Option.some.injEq] at h
    obtain ⟨pad, hpad, value, hvalue, others, hothers, rfl⟩ := h
    obtain ⟨c, first, rfl, hspace, hend⟩ := dump_head hn.1 hvalue
    have hlast : a.isEmpty = true → others = [] := by
      intro ha
      obtain rfl := List.isEmpty_iff.mp ha
      exact (Option.some.inj hothers).symm
    obtain ⟨lead', tail', hlead', htail', hnext⟩ :=
      loop_next closeBracket (by decide) (by decide) htail hlast indent rest
    have hv := reads_dump v level _
      ((if a.isEmpty then [] else separator indent) ++ others ++ tail ++ closeBracket :: rest)
      hn.1 hvalue
    have hothersRead := reads_elements a (acc ++ [v.reread]) level
      lead' others tail' rest hn.2 hothers hlead' htail'
    rw [← hnext, List.append_assoc acc] at hothersRead
    have hskip : skipWhitespace (lead ++ (pad ++ c :: first ++
        (if a.isEmpty then [] else separator indent) ++ others) ++ tail ++ closeBracket :: rest) =
        c :: (first ++ ((if a.isEmpty then [] else separator indent) ++ others ++ tail ++
          closeBracket :: rest)) := by
      simp only [List.append_assoc, List.cons_append]
      rw [← List.append_assoc lead, skipWhitespace_blank (hlead.append (blank_padding hpad)),
        skipWhitespace_cons hspace]
    exact readsArray_next hskip hend hv hothersRead

/-- The members of an object. -/
theorem reads_members : ∀ (o acc : List (Text × Value)) (level : ℕ) (lead text tail rest : Text),
    NoNumbersMembers o → dumpMembers indent level o = some text → Blank lead → Blank tail →
      ReadsObject reportsTiny acc (lead ++ text ++ tail ++ closeBrace :: rest)
        (.ok (.object (OrderedMap.insertAll acc (rereadMembers o)), rest))
  | [], acc, level, lead, text, tail, rest, _, h, hlead, htail => by
    obtain rfl := Option.some.inj h
    rw [rereadMembers, List.append_nil]
    refine readsObject_end ?_
    rw [skipWhitespace_blank (hlead.append htail), skipWhitespace_cons (by decide)]
  | (key, v) :: o, acc, level, lead, text, tail, rest, hn, h, hlead, htail => by
    simp only [dumpMembers, Option.bind_eq_bind, Option.bind_eq_some_iff, Option.some.injEq] at h
    obtain ⟨pad, hpad, value, hvalue, others, hothers, rfl⟩ := h
    have hlast : o.isEmpty = true → others = [] := by
      intro ho
      obtain rfl := List.isEmpty_iff.mp ho
      exact (Option.some.inj hothers).symm
    obtain ⟨lead', tail', hlead', htail', hnext⟩ :=
      loop_next closeBrace (by decide) (by decide) htail hlast indent rest
    have hgap : Blank (if indent < 0 then [] else [32]) := by
      split_ifs
      · exact blank_nil
      · exact List.forall_mem_singleton.mpr (by decide)
    have hv := reads_dump v level _
      ((if o.isEmpty then [] else separator indent) ++ others ++ tail ++ closeBrace :: rest)
      hn.1 hvalue
    have hothersRead := reads_members o
      (OrderedMap.insert (rereadText key) v.reread acc) level lead' others tail' rest hn.2 hothers
      hlead' htail'
    rw [← hnext] at hothersRead
    generalize hbehind : (if o.isEmpty then [] else separator indent) ++ others ++ tail ++
      closeBrace :: rest = behind at hv hothersRead
    generalize hcolon : (colon :: if indent < 0 then [] else [32] : Text) = gap
    have hskip : skipWhitespace (lead ++ (pad ++ escapeString key ++ gap ++ value ++
        (if o.isEmpty then [] else separator indent) ++ others) ++ tail ++ closeBrace :: rest) =
        quote :: (key.flatMap escapeByte ++ quote :: (gap ++ (value ++ behind))) := by
      rw [← hbehind]
      simp only [List.append_assoc, List.cons_append, escapeString, List.nil_append]
      rw [← List.append_assoc lead, skipWhitespace_blank (hlead.append (blank_padding hpad)),
        skipWhitespace_cons (by decide)]
    -- the key is read up to its quote, and the value from behind the colon
    have hkey : parseString
        (quote :: (key.flatMap escapeByte ++ quote :: (gap ++ (value ++ behind)))) =
          (rereadText key, gap ++ (value ++ behind)) := stringBody_escapeString key _
    have hmember : ReadsValue reportsTiny
        (skipByte colon (skipWhitespace (gap ++ (value ++ behind)))) (.ok (v.reread, behind)) := by
      refine readsValue_skip ?_ hv
      rw [← hcolon, List.cons_append, skipWhitespace_cons (by decide), skipByte, if_pos rfl,
        skipWhitespace_blank hgap]
    exact readsObject_next hskip (by decide) hkey hmember hothersRead
end

/-! ## 4. The indentation -/

mutual
/-- How deep arrays and objects with something in them stand in each other. -/
def Value.height : Value → ℕ
  | .array [] => 0
  | .array (v :: a) => heightAll (v :: a) + 1
  | .object [] => 0
  | .object (p :: o) => heightMembers (p :: o) + 1
  | _ => 0

/-- The largest `Value.height` of the elements. -/
def heightAll : List Value → ℕ
  | [] => 0
  | v :: a => max v.height (heightAll a)

/-- The largest `Value.height` of the members. -/
def heightMembers : List (Text × Value) → ℕ
  | [] => 0
  | (_, v) :: o => max v.height (heightMembers o)
end

/-- The number of spaces at a level fits an `int`. -/
def PaddingFits (indent : ℤ) (level : ℕ) : Prop := 0 ≤ indent → level * indent ≤ intMax

/-- A level and the number of its spaces fit an `int`. -/
def LevelFits (indent : ℤ) (level : ℕ) : Prop := level ≤ intMax ∧ PaddingFits indent level

theorem LevelFits.mono {n m : ℕ} (h : LevelFits indent m) (hle : n ≤ m) : LevelFits indent n := by
  refine ⟨hle.trans h.1, fun hpos => le_trans ?_ (h.2 hpos)⟩
  exact mul_le_mul_of_nonneg_right (by exact_mod_cast hle) hpos

/-- When a line's indentation fits. -/
theorem padding_isSome : (padding indent level).isSome ↔ PaddingFits indent level := by
  rw [padding, PaddingFits]
  split_ifs with hneg hfits
  · simp [not_le.mpr hneg]
  · simp [hfits]
  · simp [not_lt.mp hneg, hfits]

/-- What the values at a level need: nothing if there is no container, else that the innermost level
fits. -/
def BelowFits (indent : ℤ) (level height : ℕ) : Prop :=
  height = 0 ∨ LevelFits indent (level + height)

theorem belowFits_max {n m : ℕ} : BelowFits indent level (max n m) ↔
    BelowFits indent level n ∧ BelowFits indent level m := by
  constructor
  · rintro (h | h)
    · exact ⟨.inl (by omega), .inl (by omega)⟩
    · exact ⟨.inr (h.mono (by omega)), .inr (h.mono (by omega))⟩
  · rintro ⟨hn, hm⟩
    rcases le_total n m with hle | hle
    · rwa [max_eq_right hle]
    · rwa [max_eq_left hle]

theorem belowFits_succ {n : ℕ} : BelowFits indent level (n + 1) ↔
    level + 1 ≤ intMax ∧ (PaddingFits indent (level + 1) ∧ BelowFits indent (level + 1) n) ∧
      PaddingFits indent level := by
  constructor
  · rintro (h | h)
    · cases h
    · exact ⟨(h.mono (by omega : level + 1 ≤ _)).1, ⟨(h.mono (by omega : level + 1 ≤ _)).2,
        .inr (h.mono (by omega))⟩, (h.mono (by omega : level ≤ _)).2⟩
  · rintro ⟨hlevel, ⟨hpad, rfl | h⟩, -⟩
    · exact .inr ⟨hlevel, hpad⟩
    · exact .inr (h.mono (by omega))

/-- What brackets around elements need. -/
theorem brackets_isSome (elements : ℕ → Option Text) (wrap : Text → Text → Text) :
    (do
      let next ← nextLevel level
      let inner ← elements next
      let last ← padding indent level
      some (wrap inner last)).isSome ↔
      level + 1 ≤ intMax ∧ (elements (level + 1)).isSome ∧ PaddingFits indent level := by
  rw [← padding_isSome]
  by_cases h : level + 1 ≤ intMax
  · rw [nextLevel, if_pos h]
    rcases he : elements (level + 1) with _ | inner <;> rcases padding indent level with _ | last <;>
      simp [h, he]
  · rw [nextLevel, if_neg h]
    simp [h]

/-- What one element and the others need. -/
theorem element_isSome (value others : Option Text) (wrap : Text → Text → Text → Text) :
    (do
      let pad ← padding indent level
      let value ← value
      let others ← others
      some (wrap pad value others)).isSome ↔
      PaddingFits indent level ∧ value.isSome ∧ others.isSome := by
  rw [← padding_isSome]
  rcases padding indent level with _ | pad <;> rcases value with _ | value <;>
    rcases others with _ | others <;> simp

mutual
/-- **`dump` writes a value exactly when its innermost level fits.** -/
theorem dump_isSome : ∀ (v : Value) (level : ℕ),
    (dump indent level v).isSome ↔ BelowFits indent level v.height
  | .null, _ => ⟨fun _ => .inl rfl, fun _ => rfl⟩
  | .bool true, _ => ⟨fun _ => .inl rfl, fun _ => rfl⟩
  | .bool false, _ => ⟨fun _ => .inl rfl, fun _ => rfl⟩
  | .number _, _ => ⟨fun _ => .inl rfl, fun _ => rfl⟩
  | .string _, _ => ⟨fun _ => .inl rfl, fun _ => rfl⟩
  | .array [], _ => ⟨fun _ => .inl rfl, fun _ => rfl⟩
  | .array (v :: a), level => by
    rw [Value.height, belowFits_succ, ← dumpElements_isSome (v :: a) (level + 1)
      (List.cons_ne_nil v a), dump]
    exact brackets_isSome _ _
  | .object [], _ => ⟨fun _ => .inl rfl, fun _ => rfl⟩
  | .object (p :: o), level => by
    rw [Value.height, belowFits_succ, ← dumpMembers_isSome (p :: o) (level + 1)
      (List.cons_ne_nil p o), dump]
    exact brackets_isSome _ _

theorem dumpElements_isSome : ∀ (a : List Value) (level : ℕ), a ≠ [] →
    ((dumpElements indent level a).isSome ↔
      PaddingFits indent level ∧ BelowFits indent level (heightAll a))
  | [], _, h => absurd rfl h
  | v :: a, level, _ => by
    rw [heightAll, belowFits_max, ← dump_isSome v level, dumpElements]
    refine (element_isSome _ _ _).trans ?_
    rcases ha : a with _ | ⟨w, b⟩
    · simp [dumpElements, heightAll, BelowFits]
    · rw [dumpElements_isSome (w :: b) level (List.cons_ne_nil w b)]
      tauto

theorem dumpMembers_isSome : ∀ (o : List (Text × Value)) (level : ℕ), o ≠ [] →
    ((dumpMembers indent level o).isSome ↔
      PaddingFits indent level ∧ BelowFits indent level (heightMembers o))
  | [], _, h => absurd rfl h
  | (key, v) :: o, level, _ => by
    rw [heightMembers, belowFits_max, ← dump_isSome v level, dumpMembers]
    refine (element_isSome _ _ _).trans ?_
    rcases ho : o with _ | ⟨p, b⟩
    · simp [dumpMembers, heightMembers, BelowFits]
    · rw [dumpMembers_isSome (p :: b) level (List.cons_ne_nil p b)]
      tauto
end

/-! ## 5. The round trip -/

/-- `dump` writes the value, and `parse` gives it back. -/
def RoundTrips (reportsTiny : ℚ → Bool) (indent : ℤ) (v : Value) : Prop :=
  ∃ text, dump indent 0 v = some text ∧ ∃ fuel, parse reportsTiny text fuel = some (.ok v)

/-- The spaces before the innermost values, and its level, fit an `int`. -/
def IndentFits (indent : ℤ) (v : Value) : Prop := BelowFits indent 0 v.height

/-- **What `parse` makes of the text of a value.** -/
theorem parse_dump (reportsTiny : ℚ → Bool) (hn : v.NoNumbers) (h : dump indent 0 v = some text) :
    ∃ fuel, parse reportsTiny text fuel = some (.ok v.reread) := by
  obtain ⟨fuel, hread⟩ : ReadsValue reportsTiny (text ++ []) (.ok (v.reread, [])) :=
    reads_dump v 0 text [] hn h
  rw [List.append_nil] at hread
  refine ⟨fuel, ?_⟩
  rw [parse, hread]
  rfl

/-- **A value without numbers survives the round trip exactly when none of its strings and keys
has a control byte other than tab and line feed, and its indentation fits an `int`.** -/
theorem roundTrips_iff (reportsTiny : ℚ → Bool) (indent : ℤ) (d : Document)
    (hn : d.value.NoNumbers) :
    RoundTrips reportsTiny indent d.value ↔ d.value.Plain ∧ IndentFits indent d.value := by
  constructor
  · rintro ⟨text, htext, fuel, hparse⟩
    have hsome : (dump indent 0 d.value).isSome := by rw [htext]; rfl
    obtain ⟨fuel', hread⟩ := parse_dump reportsTiny hn htext
    have hsame := (parse_steady reportsTiny text).unique hread hparse
    exact ⟨(reread_eq_iff d).mp (Except.ok.inj hsame), (dump_isSome d.value 0).mp hsome⟩
  · rintro ⟨hplain, hfits⟩
    obtain ⟨text, htext⟩ := Option.isSome_iff_exists.mp ((dump_isSome d.value 0).mpr hfits)
    obtain ⟨fuel, hread⟩ := parse_dump reportsTiny hn htext
    rw [(reread_eq_iff d).mpr hplain] at hread
    exact ⟨text, htext, fuel, hread⟩

/-- An object with a nested array, whose strings hold a quote, a backslash, a tab and a byte past
the ASCII range. -/
def sampleValue : Value :=
  .object [([97], .array [.string [quote, backslash, 9, 200], .null]), ([98, 10], .bool true)]

theorem roundTrips_sample : RoundTrips (fun _ => false) 2 sampleValue := by
  have hord : sampleValue.Ordered := by
    refine ⟨?_, ⟨trivial, trivial, trivial⟩, trivial, trivial⟩
    exact List.pairwise_pair.mpr (by decide)
  have ha : PlainText [97] := by decide
  have hb : PlainText [98, 10] := by decide
  have hs : PlainText [quote, backslash, 9, 200] := by decide
  have hplain : sampleValue.Plain := ⟨⟨ha, hs, trivial, trivial⟩, ⟨hb, trivial⟩, trivial⟩
  have hfits : IndentFits 2 sampleValue := .inr ⟨by decide, fun _ => by decide⟩
  exact (roundTrips_iff (fun _ => false) 2 ⟨sampleValue, hord⟩
    ⟨⟨trivial, trivial, trivial⟩, trivial, trivial⟩).mpr ⟨hplain, hfits⟩

/-- A carriage return is written as a backslash and an `r`, and read as an `r`. -/
theorem not_roundTrips :
    ¬ ∀ (reportsTiny : ℚ → Bool) (indent : ℤ) (d : Document), d.value.NoNumbers →
      RoundTrips reportsTiny indent d.value := by
  intro h
  obtain ⟨text, htext, fuel, hparse⟩ := h (fun _ => false) (-1) ⟨.string [13], trivial⟩ trivial
  have hn : (Value.string [13]).NoNumbers := trivial
  obtain ⟨fuel', hread⟩ := parse_dump (fun _ => false) hn htext
  have hsame := (parse_steady (fun _ => false) text).unique hread hparse
  injection hsame with hsame
  injection hsame with hsame
  exact absurd hsame (by decide)

end YukiZygisk.Json
