/-
# The manifest of native modules (`userspace/zygisk/daemon/native_modules.hpp`, `zygiskd.cpp`)

A module names the programs that its libraries are for in a text file, one a line: the program by
name or by path, the library, and perhaps the word `companion`; anything may be spaced at will, and
lines that begin with `#` are passed over.

* `line_accepted_iff` says which lines are taken, by their words alone, of a module whose name is
  shorter than 64 bytes (a longer one has no lines);
* `library_expanded`, what the path of a library stands for;
* `manifest_rendered`, that what is written is read back, in order.

The parser cuts a line token by token from what is left of it.  `parseNativeModuleLine_eq` makes of
that a function of the words of the line, and the first result reads it off.  The last one needs the
converse as well, how a line is written: words with spaces around them have just these words, and a
text of lines has just these lines.

What stands for the module in the path of its library, `${…}` or `$…`, is replaced in two passes
over the text, the braced form first.  A text whose parts are plain, without a dollar sign, has each
part left as it is and each name replaced, and a name that has a dollar sign itself would be
replaced again, which is why `library_expanded` asks for one without.
-/
import YukiZygisk.Daemon.PolicyFiles
import YukiZygisk.Daemon.TargetPublication
import YukiZygisk.Host.Mount
import YukiZygisk.Lib.Words

namespace YukiZygisk.Manifest

open Daemon (NativeModule Parsed parseTarget nameHead pathHead)
open Mount (Text ascii)
open Native (nativeModuleIdMax nativeTargetName nativeTargetPath nativeTargetValueMax)
open PolicyFiles (isSpace)
open Words

variable {access : Text → Bool} {moduleId base line : Text}

/-! ## 1. Lines -/

/-- `trim_copy`. -/
def trimCopy (s : Text) : Text := trim isSpace s

/-- `next_token`. -/
def nextToken (rest : Text) : Text × Text := next isSpace rest

/-- The loop of `replace_all`, which passes over what it has replaced. -/
def replaceFrom (pat repl : Text) : Nat → Text → Text
  | _, [] => []
  | skip + 1, _ :: s => replaceFrom pat repl skip s
  | 0, b :: s =>
    if pat.isPrefixOf (b :: s) then repl ++ replaceFrom pat repl (pat.length - 1) s
    else b :: replaceFrom pat repl 0 s

/-- `replace_all`. -/
def replaceAll (s pat repl : Text) : Text := if pat = [] then s else replaceFrom pat repl 0 s

def bracedId : Text := ascii "$\x7bmoduleId\x7d"
def bareId : Text := ascii "$moduleId"

/-- The path of a library: absolute, or in the directory of the module. -/
def libPathOf (moduleId base lib : Text) : Text :=
  let lib := replaceAll lib bracedId moduleId
  let lib := replaceAll lib bareId moduleId
  if lib.head? = some 47 then lib else base ++ 47 :: lib

def companionWord : Text := ascii "companion"

/-- One turn of the loop over the words behind the target: the flag, and the library. -/
def takeWord (s : Bool × Text) (token : Text) : Bool × Text :=
  if token = companionWord then (true, s.2) else if s.2 = [] then (s.1, token) else s

/-- What follows the first word in `parse_native_module_line`. -/
def parseTokens (access : Text → Bool) (moduleId base head : Text) (tokens : List Text) :
    Option NativeModule :=
  (parseTarget head).bind fun (type, target) =>
    let (companion, lib) := tokens.foldl takeWord (false, [])
    if lib = [] then none
    else
      let path := libPathOf moduleId base lib
      if access path then some ⟨moduleId, type, target, path, companion⟩ else none

/-- `parse_native_module_line`; `access` says which files are there. -/
def parseNativeModuleLine (access : Text → Bool) (moduleId base line : Text) :
    Option NativeModule :=
  if nativeModuleIdMax ≤ moduleId.length then none
  else
    let text := trimCopy line
    if text = [] ∨ text.head? = some 35 then none
    else
      let (head, rest) := nextToken text
      if head = [] then none
      else parseTokens access moduleId base head (tokens isSpace (rest.length + 1) rest)

/-- `for_each_manifest_line`, from inside a line. -/
def linesFrom (line : Text) : Text → List Text
  | [] => if line = [] then [] else [line]
  | b :: text => if b = 10 then line :: linesFrom [] text else linesFrom (line ++ [b]) text

/-- `for_each_manifest_line`. -/
def manifestLines (text : Text) : List Text := linesFrom [] text

/-- What `scan_native_modules` takes from one manifest. -/
def scanManifest (access : Text → Bool) (moduleId base text : Text) : List NativeModule :=
  (manifestLines text).filterMap (parseNativeModuleLine access moduleId base)

/-! ## 2. The words of a line -/

/-- What the words of a line mean. -/
def ofWords (access : Text → Bool) (moduleId base : Text) : List Text → Option NativeModule
  | [] => none
  | head :: tokens =>
    if head.head? = some 35 then none else parseTokens access moduleId base head tokens

/-- The spaces of a line do not matter. -/
theorem parseNativeModuleLine_eq (access : Text → Bool) (moduleId base line : Text) :
    parseNativeModuleLine access moduleId base line =
      if nativeModuleIdMax ≤ moduleId.length then none
      else ofWords access moduleId base (words isSpace line) := by
  unfold parseNativeModuleLine trimCopy nextToken
  split_ifs with hid
  · rfl
  have hhead := head?_trim isSpace line
  have hwords := words_next isSpace (trim isSpace line)
  rw [words_trim] at hwords
  dsimp only
  by_cases hnil : (next isSpace (trim isSpace line)).1 = []
  · rw [if_pos hnil] at hwords ⊢
    rw [hwords, ite_self]
    rfl
  · rw [if_neg hnil] at hwords ⊢
    have htext : trim isSpace line ≠ [] := fun htrim => hnil (by simp [htrim, next])
    rw [hwords] at hhead ⊢
    rw [tokens_eq (Nat.lt_succ_self _), hhead]
    simp only [htext, false_or]
    rfl

/-- A word that may name the library. -/
def namesLibrary (token : Text) : Bool := token ≠ companionWord

/-- The loop over the words: whether `companion` is among them, and the first of the others. -/
theorem foldl_takeWord (tokens : List Text) (hne : ∀ t ∈ tokens, t ≠ []) (flag : Bool)
    (lib : Text) :
    tokens.foldl takeWord (flag, lib) =
      (flag || tokens.any (· = companionWord),
        if lib = [] then (tokens.find? namesLibrary).getD [] else lib) := by
  induction tokens generalizing flag lib with
  | nil => simp
  | cons t tokens ih =>
    have htokens : ∀ t ∈ tokens, t ≠ [] := fun x hx => hne x (List.mem_cons_of_mem t hx)
    rw [List.foldl_cons, takeWord]
    by_cases hflag : t = companionWord
    · simp [hflag, ih htokens, namesLibrary]
    · have ht : t ≠ [] := hne t (List.mem_cons_self ..)
      by_cases hlib : lib = []
      · simp [hflag, hlib, ih htokens, ht, namesLibrary]
      · simp [hflag, hlib, ih htokens]

/-- A line that is passed over names no target. -/
theorem head?_of_parseTarget {head target : Text} {type : UInt8}
    (h : parseTarget head = some (type, target)) : head.head? ≠ some 35 := by
  intro hcomment
  obtain ⟨rest, rfl⟩ := List.head?_eq_some_iff.mp hcomment
  simp [parseTarget, nameHead, pathHead] at h

/-- `m` is what the words of the line say. -/
def Says (access : Text → Bool) (moduleId base line : Text) (m : NativeModule) : Prop :=
  moduleId.length < nativeModuleIdMax ∧ m.moduleId = moduleId ∧
    ∃ head rest lib, words isSpace line = head :: rest ∧
      parseTarget head = some (m.targetType, m.target) ∧
      rest.find? namesLibrary = some lib ∧
      m.libPath = libPathOf moduleId base lib ∧ access m.libPath = true ∧
      (m.hasCompanion = true ↔ companionWord ∈ rest)

/-- A line that is taken says so by its words. -/
theorem says_of_accepted {m : NativeModule}
    (h : parseNativeModuleLine access moduleId base line = some m) :
    Says access moduleId base line m := by
  rw [parseNativeModuleLine_eq] at h
  split_ifs at h with hid
  cases hwords : words isSpace line with
  | nil => simp [hwords, ofWords] at h
  | cons head rest =>
    have hne : ∀ t ∈ rest, t ≠ [] := fun t ht =>
      ne_nil_of_mem_words (hwords ▸ List.mem_cons_of_mem head ht)
    rw [hwords, ofWords] at h
    split_ifs at h with hcomment
    rw [parseTokens, Option.bind_eq_some_iff] at h
    obtain ⟨⟨type, target⟩, htarget, h⟩ := h
    simp only [foldl_takeWord rest hne, Bool.false_or, if_true] at h
    split_ifs at h with hlib haccess
    cases h
    cases hfind : rest.find? namesLibrary with
    | none => simp [hfind] at hlib
    | some lib =>
      rw [hfind, Option.getD_some] at haccess
      exact ⟨by omega, rfl, head, rest, lib, hwords, htarget, hfind, rfl, haccess, by simp⟩

/-- **What a line is taken for.**  The name of the module has less than 64 bytes.  A line is taken
exactly if its first word names a target, one of the
others is not `companion`, and the library that the first such word names is there; the flag is set
exactly if the word `companion` is among the others, wherever it stands. -/
theorem line_accepted_iff (access : Text → Bool) (moduleId base line : Text) (m : NativeModule) :
    parseNativeModuleLine access moduleId base line = some m ↔
      Says access moduleId base line m := by
  refine ⟨says_of_accepted, ?_⟩
  rintro ⟨hid, hm, head, rest, lib, hwords, htarget, hfind, hpath, haccess, hflag⟩
  obtain ⟨_, type, target, path, flag⟩ := m
  dsimp only at hm htarget hpath haccess hflag
  subst hm hpath
  have hne : ∀ t ∈ rest, t ≠ [] := fun t ht =>
    ne_nil_of_mem_words (hwords ▸ List.mem_cons_of_mem head ht)
  have hlib : lib ≠ [] := hne lib (List.mem_of_find?_eq_some hfind)
  have hany : rest.any (· = companionWord) = flag := by
    rw [Bool.eq_iff_iff, hflag]
    simp
  rw [parseNativeModuleLine_eq, if_neg (Nat.not_le.mpr hid), hwords, ofWords,
    if_neg (head?_of_parseTarget htarget), parseTokens, htarget]
  simp [foldl_takeWord rest hne, hfind, hlib, haccess, hany]

/-- What is scanned can be published. -/
theorem parsed_of_mem_scanManifest {text : Text} {m : NativeModule}
    (h : m ∈ scanManifest access moduleId base text) : Parsed m := by
  obtain ⟨line, -, hline⟩ := List.mem_filterMap.mp h
  obtain ⟨-, -, head, _, _, -, htarget, -⟩ := says_of_accepted hline
  exact ⟨head, htarget⟩

/-! ## 3. The path of a library -/

section Paths

variable {pat repl s t : Text}

theorem replaceFrom_skip (pat repl : Text) (skip : Nat) (s : Text) :
    replaceFrom pat repl skip s = replaceFrom pat repl 0 (s.drop skip) := by
  induction s generalizing skip with
  | nil => cases skip <;> rfl
  | cons b s ih =>
    cases skip with
    | zero => rfl
    | succ skip => rw [replaceFrom, ih, List.drop_succ_cons]

theorem replaceFrom_pat (b : UInt8) (pat repl s : Text) :
    replaceFrom (b :: pat) repl 0 (b :: pat ++ s) = repl ++ replaceFrom (b :: pat) repl 0 s := by
  have hprefix : (b :: pat).isPrefixOf (b :: (pat ++ s)) = true := by
    rw [List.isPrefixOf_iff_prefix]
    exact List.prefix_append (b :: pat) s
  rw [List.cons_append, replaceFrom, if_pos hprefix, replaceFrom_skip]
  simp

/-- A text without a `$` stays. -/
theorem replaceFrom_text (ht : 36 ∉ t) :
    replaceFrom (36 :: pat) repl 0 (t ++ s) = t ++ replaceFrom (36 :: pat) repl 0 s := by
  induction t with
  | nil => rfl
  | cons b t ih =>
    rw [List.mem_cons, not_or] at ht
    have hprefix : (36 :: pat).isPrefixOf (b :: (t ++ s)) = false := by
      simp [List.isPrefixOf, ht.1]
    rw [List.cons_append, replaceFrom, hprefix, ih ht.2]
    rfl

/-- The two forms differ in their second byte. -/
theorem replaceFrom_bare : replaceFrom bracedId repl 0 (bareId ++ s) =
    bareId ++ replaceFrom bracedId repl 0 s := by
  have hprefix : bracedId.isPrefixOf (36 :: (ascii "moduleId" ++ s)) = false := rfl
  have hrest : replaceFrom bracedId repl 0 (ascii "moduleId" ++ s) =
      ascii "moduleId" ++ replaceFrom bracedId repl 0 s := replaceFrom_text (by decide)
  rw [show bareId = 36 :: ascii "moduleId" from rfl, List.cons_append, replaceFrom, hprefix, hrest]
  rfl

/-- A piece of the path of a library in a manifest. -/
inductive Part
  | text (t : Text)
  | braced
  | bare

def Part.render : Part → Text
  | .text t => t
  | .braced => bracedId
  | .bare => bareId

def Part.expand (moduleId : Text) : Part → Text
  | .text t => t
  | .braced | .bare => moduleId

/-- What `replace_all` leaves at first. -/
def Part.halfway (moduleId : Text) : Part → Text
  | .text t => t
  | .braced => moduleId
  | .bare => bareId

def PlainPart (part : Part) : Prop := ∀ t, part = .text t → 36 ∉ t

theorem replaceAll_braced {parts : List Part} (h : ∀ part ∈ parts, PlainPart part) :
    replaceAll (parts.flatMap Part.render) bracedId moduleId =
      parts.flatMap (Part.halfway moduleId) := by
  rw [replaceAll, if_neg (by decide)]
  induction parts with
  | nil => rfl
  | cons part parts ih =>
    rw [List.flatMap_cons, List.flatMap_cons, ← ih fun p hp => h p (List.mem_cons_of_mem part hp)]
    cases part with
    | text t => exact replaceFrom_text (h _ (List.mem_cons_self ..) t rfl)
    | braced => exact replaceFrom_pat 36 _ moduleId _
    | bare => exact replaceFrom_bare

theorem replaceAll_bare {parts : List Part} (h : ∀ part ∈ parts, PlainPart part)
    (hid : 36 ∉ moduleId) :
    replaceAll (parts.flatMap (Part.halfway moduleId)) bareId moduleId =
      parts.flatMap (Part.expand moduleId) := by
  rw [replaceAll, if_neg (by decide)]
  induction parts with
  | nil => rfl
  | cons part parts ih =>
    rw [List.flatMap_cons, List.flatMap_cons, ← ih fun p hp => h p (List.mem_cons_of_mem part hp)]
    cases part with
    | text t => exact replaceFrom_text (h _ (List.mem_cons_self ..) t rfl)
    | braced => exact replaceFrom_text hid
    | bare => exact replaceFrom_pat 36 _ moduleId _

/-- **What the path of a library stands for.**  Every `${moduleId}` and every `$moduleId` in it is
the name of the module, wherever they stand and however many there are, and the rest stays; an
absolute path is taken as it is. -/
theorem library_expanded {parts : List Part} (h : ∀ part ∈ parts, PlainPart part)
    (hid : 36 ∉ moduleId) :
    libPathOf moduleId base (parts.flatMap Part.render) =
      let path := parts.flatMap (Part.expand moduleId)
      if path.head? = some 47 then path else base ++ 47 :: path := by
  simp only [libPathOf, replaceAll_braced h, replaceAll_bare h hid]

theorem library_expanded_both :
    libPathOf (ascii "fix") (ascii "/m")
        ([.braced, .text (ascii ".so"), .bare].flatMap Part.render) = ascii "/m/fix.sofix" :=
  library_expanded (by rintro part hpart t rfl; simp at hpart; subst hpart; decide) (by decide)

end Paths

/-! ## 4. Writing a manifest, and reading it back -/

structure Entry where
  byPath : Bool
  target : Text
  lib : Text
  companion : Bool

def Entry.head (e : Entry) : Text := (if e.byPath then pathHead else nameHead) ++ e.target

/-- A line as its author writes it. -/
inductive Item
  | entry (e : Entry) (lead gap flagGap tail : Text)
  | comment (lead text : Text)
  | blank (space : Text)

def Item.text : Item → Text
  | .entry e lead gap flagGap tail =>
    let flag := if e.companion then flagGap ++ (companionWord ++ tail) else tail
    lead ++ (e.head ++ (gap ++ (e.lib ++ flag)))
  | .comment lead text => lead ++ 35 :: text
  | .blank space => space

/-- What it is to be read as. -/
def Item.module (moduleId base : Text) : Item → Option NativeModule
  | .entry e .. =>
    some ⟨moduleId, if e.byPath then nativeTargetPath else nativeTargetName, e.target,
      libPathOf moduleId base e.lib, e.companion⟩
  | _ => none

def IsWord (t : Text) : Prop := t ≠ [] ∧ ∀ b ∈ t, isSpace b = false
def IsGap (t : Text) : Prop := ∀ b ∈ t, isSpace b = true ∧ b ≠ 10

instance (t : Text) : Decidable (IsWord t) := inferInstanceAs (Decidable (_ ∧ _))
instance (t : Text) : Decidable (IsGap t) := inferInstanceAs (Decidable (∀ b ∈ t, _))

def Item.Fits (access : Text → Bool) (moduleId base : Text) : Item → Prop
  | .entry e lead gap flagGap tail =>
    (IsWord e.target ∧ e.target.length < nativeTargetValueMax) ∧
      (IsWord e.lib ∧ e.lib ≠ companionWord ∧ access (libPathOf moduleId base e.lib) = true) ∧
      IsGap lead ∧ (IsGap gap ∧ gap ≠ []) ∧ (IsGap flagGap ∧ flagGap ≠ []) ∧ IsGap tail
  | .comment lead text => IsGap lead ∧ 10 ∉ text
  | .blank space => IsGap space

instance (item : Item) : Decidable (item.Fits access moduleId base) :=
  match item with
  | .entry .. => inferInstanceAs (Decidable (_ ∧ _))
  | .comment .. => inferInstanceAs (Decidable (_ ∧ _))
  | .blank space => inferInstanceAs (Decidable (IsGap space))

theorem IsGap.blank {t : Text} (h : IsGap t) : ∀ b ∈ t, isSpace b = true := fun b hb => (h b hb).1

theorem IsGap.newline {t : Text} (h : IsGap t) : 10 ∉ t := fun hmem => (h 10 hmem).2 rfl

theorem IsWord.newline {t : Text} (h : IsWord t) : 10 ∉ t := by
  intro hmem
  have hspace := h.2 10 hmem
  simp [isSpace] at hspace

theorem isWord_companionWord : IsWord companionWord := ⟨by decide, by decide +kernel⟩

theorem Entry.isWord_head {e : Entry} (h : IsWord e.target) : IsWord e.head := by
  obtain ⟨hne, hword⟩ := h
  refine ⟨by simp [Entry.head, hne], fun b hb => ?_⟩
  rw [Entry.head, List.mem_append] at hb
  rcases hb with hb | hb
  · split_ifs at hb
    · exact (by decide +kernel : ∀ b ∈ pathHead, isSpace b = false) b hb
    · exact (by decide +kernel : ∀ b ∈ nameHead, isSpace b = false) b hb
  · exact hword b hb

theorem Entry.parseTarget_head {e : Entry} (hne : e.target ≠ [])
    (hlen : e.target.length < nativeTargetValueMax) :
    parseTarget e.head =
      some (if e.byPath then nativeTargetPath else nativeTargetName, e.target) := by
  cases hpath : e.byPath <;>
    simp [Entry.head, hpath, parseTarget, nameHead, pathHead, hne, Nat.not_le.mpr hlen]

/-- The words of an entry. -/
theorem Item.words_entry {e : Entry} {lead gap flagGap tail : Text}
    (h : (Item.entry e lead gap flagGap tail).Fits access moduleId base) :
    words isSpace (Item.entry e lead gap flagGap tail).text =
      e.head :: e.lib :: if e.companion then [companionWord] else [] := by
  obtain ⟨⟨htarget, -⟩, ⟨hlib, -, -⟩, hlead, ⟨hgap, hgapne⟩, ⟨hflag, hflagne⟩, htail⟩ := h
  obtain ⟨hheadne, hhead⟩ := Entry.isWord_head htarget
  rw [Item.text, words_blank_append hlead.blank, words_append_gap hhead hheadne hgap.blank hgapne]
  cases e.companion
  · rw [if_neg Bool.false_ne_true, if_neg Bool.false_ne_true,
      words_append_end hlib.2 hlib.1 htail.blank]
  · rw [if_pos rfl, if_pos rfl, words_append_gap hlib.2 hlib.1 hflag.blank hflagne,
      words_append_end isWord_companionWord.2 isWord_companionWord.1 htail.blank]

/-- One line, written and read. -/
theorem Item.parse_text {item : Item} (hid : moduleId.length < nativeModuleIdMax)
    (h : item.Fits access moduleId base) :
    parseNativeModuleLine access moduleId base item.text = item.module moduleId base := by
  rw [parseNativeModuleLine_eq, if_neg (Nat.not_le.mpr hid)]
  cases item with
  | entry e lead gap flagGap tail =>
    rw [Item.words_entry h]
    obtain ⟨⟨htarget, hlen⟩, ⟨hlib, hother, haccess⟩, -⟩ := h
    have hhead := Entry.parseTarget_head htarget.1 hlen
    rw [ofWords, if_neg (head?_of_parseTarget hhead), parseTokens, hhead]
    cases hflag : e.companion <;>
      simp [takeWord, hother, hlib.1, haccess, Item.module, hflag]
  | comment lead text =>
    have hcomment : isSpace 35 = false := rfl
    rw [Item.text, words_blank_append h.1.blank, words_next]
    simp [next, hcomment, ofWords, Item.module]
  | blank space =>
    have hwords := words_blank_append (l := []) h.blank
    rw [List.append_nil, words_nil] at hwords
    rw [Item.text, hwords]
    rfl

theorem Item.newline_text {item : Item} (h : item.Fits access moduleId base) : 10 ∉ item.text := by
  cases item with
  | entry e lead gap flagGap tail =>
    obtain ⟨⟨htarget, -⟩, ⟨hlib, -, -⟩, hlead, ⟨hgap, -⟩, ⟨hflag, -⟩, htail⟩ := h
    have hhead := (Entry.isWord_head htarget).newline
    cases hcompanion : e.companion <;>
      simp [Item.text, hcompanion, hhead, hlib.newline, hlead.newline, hgap.newline, hflag.newline,
        htail.newline, isWord_companionWord.newline]
  | comment lead text => simp [Item.text, h.1.newline, h.2]
  | blank space => exact h.newline

/-- A whole line, from inside it. -/
theorem linesFrom_line {t : Text} (ht : 10 ∉ t) (line text : Text) :
    linesFrom line (t ++ 10 :: text) = (line ++ t) :: linesFrom [] text := by
  induction t generalizing line with
  | nil => simp [linesFrom]
  | cons b t ih =>
    rw [List.mem_cons, not_or] at ht
    rw [List.cons_append, linesFrom, if_neg (Ne.symm ht.1), ih ht.2, List.append_assoc]
    rfl

theorem linesFrom_last {t : Text} (ht : 10 ∉ t) (line : Text) :
    linesFrom line t = if line ++ t = [] then [] else [line ++ t] := by
  induction t generalizing line with
  | nil => simp [linesFrom]
  | cons b t ih =>
    rw [List.mem_cons, not_or] at ht
    rw [linesFrom, if_neg (Ne.symm ht.1), ih ht.2, List.append_assoc]
    rfl

/-- **A manifest is read as it was written.**  The name of the module has less than 64 bytes.
Entries in any spacing, with comments and empty lines among them, give their modules in order and
nothing else, with or without a newline behind the last line. -/
theorem manifest_rendered {items : List Item} {last : Item}
    (hid : moduleId.length < nativeModuleIdMax)
    (h : ∀ item ∈ items, item.Fits access moduleId base) (hlast : last.Fits access moduleId base) :
    scanManifest access moduleId base (items.flatMap (·.text ++ [10]) ++ last.text) =
      (items ++ [last]).filterMap (Item.module moduleId base) := by
  rw [scanManifest, manifestLines]
  induction items with
  | nil =>
    have hparse := Item.parse_text hid hlast
    rw [List.flatMap_nil, List.nil_append, linesFrom_last (Item.newline_text hlast)]
    split_ifs with hempty
    · rw [List.nil_append] at hempty
      rw [hempty, parseNativeModuleLine_eq, words_nil, ofWords, ite_self] at hparse
      simp [← hparse]
    · simp [List.filterMap_cons, hparse]
  | cons item items ih =>
    have hitem := h item (List.mem_cons_self ..)
    rw [List.flatMap_cons, List.append_assoc, List.append_assoc, List.singleton_append,
      linesFrom_line (Item.newline_text hitem), List.nil_append, List.filterMap_cons,
      ih fun i hi => h i (List.mem_cons_of_mem item hi), Item.parse_text hid hitem,
      List.cons_append, List.filterMap_cons]

def sampleItems : List Item :=
  [.comment [] (ascii " two programs"), .blank [9],
    .entry ⟨false, ascii "app", ascii "lib.so", true⟩ [32] [32, 32] [9] []]

def sampleLast : Item := .entry ⟨true, ascii "/bin/app", ascii "/lib.so", false⟩ [] [9] [32] [13]

theorem manifest_rendered_sample :
    scanManifest (fun _ => true) (ascii "fix") (ascii "/m")
        (sampleItems.flatMap (·.text ++ [10]) ++ sampleLast.text) =
      [⟨ascii "fix", nativeTargetName, ascii "app", ascii "/m/lib.so", true⟩,
        ⟨ascii "fix", nativeTargetPath, ascii "/bin/app", ascii "/lib.so", false⟩] :=
  (manifest_rendered (by decide) (by decide +kernel) (by decide +kernel)).trans (by decide +kernel)

end YukiZygisk.Manifest
