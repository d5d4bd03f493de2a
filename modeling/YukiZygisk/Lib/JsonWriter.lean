/-
# Writing JSON texts

A writer that puts no white space into its text.  How it escapes the bytes of strings is a
parameter: a way from which they are decoded again.  The text of a value is then a JSON text with
that value (`jsonText_render`), when the numbers in the value are numbers.

The text of an array is its elements between commas, and the grammar has its elements between commas
with white space around; the empty white space will do.  So the derivation follows the recursion of
the writer: values, elements and members at once (`derives_render`).  The one condition is on the
leaves.  A number of a value is kept as its text, which has to be a number of the grammar
(`Numeric`), and a string is written by the escaping that is given, from which it is decoded again
(`decode_body`).
-/
import YukiZygisk.Lib.JsonGrammar

namespace JsonGrammar

/-! ## 1. The text of a value -/

/-- Texts with commas between them. -/
def separated : List Text → Text
  | [] => []
  | [t] => t
  | t :: l => t ++ comma :: separated l

/-- A way to write the bytes of a string, from which they are decoded. -/
structure Escape where
  byte : UInt8 → Text
  decode_byte : ∀ c t, decode (byte c ++ t) = (decode t).map (c :: ·)

variable (e : Escape)

def Escape.body (s : Text) : Text := s.flatMap e.byte

def Escape.string (s : Text) : Text := quote :: (e.body s ++ [quote])

/-- A member of an object. -/
def Escape.member (key t : Text) : Text := e.string key ++ colon :: t

mutual

/-- The text of a value. -/
def Escape.render : Value → Text
  | .null => nullText
  | .bool true => trueText
  | .bool false => falseText
  | .number t => t
  | .string s => e.string s
  | .array a => openBracket :: (separated (renderElements a) ++ [closeBracket])
  | .object o => openBrace :: (separated (renderMembers o) ++ [closeBrace])

def Escape.renderElements : List Value → List Text
  | [] => []
  | v :: a => Escape.render v :: renderElements a

def Escape.renderMembers : List (Text × Value) → List Text
  | [] => []
  | (key, v) :: o => e.member key (Escape.render v) :: renderMembers o

end

@[simp] theorem render_number (t : Text) : e.render (.number t) = t := rfl

@[simp] theorem render_string (s : Text) : e.render (.string s) = e.string s := rfl

@[simp] theorem render_array (a : List Value) :
    e.render (.array a) = openBracket :: (separated (e.renderElements a) ++ [closeBracket]) := rfl

@[simp] theorem render_object (o : List (Text × Value)) :
    e.render (.object o) = openBrace :: (separated (e.renderMembers o) ++ [closeBrace]) := rfl

mutual

/-- The numbers in a value are numbers. -/
def Value.Numeric : Value → Prop
  | .null => True
  | .bool _ => True
  | .number t => isNumber t = true
  | .string _ => True
  | .array a => NumericElements a
  | .object o => NumericMembers o

def NumericElements : List Value → Prop
  | [] => True
  | v :: a => v.Numeric ∧ NumericElements a

def NumericMembers : List (Text × Value) → Prop
  | [] => True
  | (_, v) :: o => v.Numeric ∧ NumericMembers o

end

/-! ## 2. The grammar derives it -/

/-- What was written is decoded. -/
theorem decode_body (s : Text) : decode (e.body s) = some s := by
  induction s with
  | nil => rfl
  | cons c s ih =>
    have hcons : e.body (c :: s) = e.byte c ++ e.body s := List.flatMap_cons
    rw [hcons, e.decode_byte, ih, Option.map_some]

theorem blank_nil : Blank [] := fun _ h => absurd h List.not_mem_nil

theorem derives_string (s : Text) : Derives (.string s) (e.string s) :=
  .string (decode_body e s)

theorem key_string (key : Text) : Key key (e.string key ++ [colon]) := by
  have h := Key.mk blank_nil (decode_body e key) blank_nil
  have hlist : e.string key ++ [colon] =
      [] ++ (quote :: (e.body key ++ quote :: ([] ++ [colon]))) := by
    simp [Escape.string]
  rw [hlist]
  exact h

theorem elements_one {v : Value} {t : Text} (h : Derives v t) : Elements [v] t := by
  have hone := Elements.one blank_nil h blank_nil
  rwa [List.append_nil] at hone

theorem members_one {key t : Text} {v : Value} (h : Derives v t) :
    Members [(key, v)] (e.member key t) := by
  have hone := Members.one (key_string e key) blank_nil h blank_nil
  rw [List.append_nil, List.nil_append, List.append_assoc] at hone
  exact hone

mutual

/-- **The text of a value is derived.** -/
theorem derives_render : (v : Value) → v.Numeric → Derives v (e.render v)
  | .null, _ => .null
  | .bool true, _ => .true
  | .bool false, _ => .false
  | .number _, h => .number h
  | .string s, _ => derives_string e s
  | .array [], _ => .emptyArray blank_nil
  | .array (v :: a), h => .array (elements_render (v :: a) h (List.cons_ne_nil v a))
  | .object [], _ => .emptyObject blank_nil
  | .object (m :: o), h => .object (members_render (m :: o) h (List.cons_ne_nil m o))

theorem elements_render : (a : List Value) → NumericElements a → a ≠ [] →
    Elements a (separated (e.renderElements a))
  | [], _, hne => absurd rfl hne
  | [v], h, _ => elements_one (derives_render v h.1)
  | v :: u :: a, h, _ => .cons blank_nil (derives_render v h.1) blank_nil
      (elements_render (u :: a) h.2 (List.cons_ne_nil u a))

theorem members_render : (o : List (Text × Value)) → NumericMembers o → o ≠ [] →
    Members o (separated (e.renderMembers o))
  | [], _, hne => absurd rfl hne
  | [(_, v)], h, _ => members_one e (derives_render v h.1)
  | (key, v) :: m :: o, h, _ => by
    have hcons := Members.cons (key_string e key) blank_nil (derives_render v h.1) blank_nil
      (members_render (m :: o) h.2 (List.cons_ne_nil m o))
    rw [List.append_assoc] at hcons
    have hlist : separated (e.renderMembers ((key, v) :: m :: o)) =
        e.string key ++ (colon :: e.render v ++
          comma :: separated (e.renderMembers (m :: o))) := by
      rw [← List.append_assoc]
      rfl
    rw [hlist]
    exact hcons

end

/-- **The text of a value is one JSON text.** -/
theorem jsonText_render {v : Value} (h : v.Numeric) : JsonText v (e.render v) :=
  ⟨[], e.render v, [], blank_nil, derives_render e v h, blank_nil, (List.append_nil _).symm⟩

/-- The elements of an array are written one by one. -/
theorem renderElements_eq (a : List Value) : e.renderElements a = a.map e.render := by
  induction a with
  | nil => rfl
  | cons v a ih => exact congrArg (e.render v :: ·) ih

/-- Numbers in an array are the numbers in its elements. -/
theorem numericElements_iff (a : List Value) : NumericElements a ↔ ∀ v ∈ a, v.Numeric := by
  induction a with
  | nil => exact ⟨fun _ _ h => absurd h List.not_mem_nil, fun _ => trivial⟩
  | cons v a ih => rw [NumericElements, ih, List.forall_mem_cons]

theorem separated_cons (t : Text) (l : List Text) :
    separated (t :: l) = t ++ l.flatMap (comma :: ·) := by
  induction l generalizing t with
  | nil => exact (List.append_nil t).symm
  | cons u l ih => rw [separated, ih, List.flatMap_cons, List.cons_append]; simp

end JsonGrammar
