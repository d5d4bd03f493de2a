/-
# The symbols of a file (`userspace/zygisk/core/src/yukizncore.cpp`)

A module asks for symbols that a library does not export, and the core finds them in its file: in the
symbol tables, and in those of the compressed image in `.gnu_debugdata`.  The file may have any bytes,
so every offset, size and index in it is checked before it is used.

**The parser reads in the image only, and what it adds is the symbols of the tables in their order**
(`loadSymbolsFromImage_exact`).  A read outside has no result here, so the first half is that there is
one for every image; the symbols are those that are defined, have a value, and have a name that ends in
its string table.

The decompression is a parameter.

The parser is written with checked reads (`Lib/CheckedReads`), and for each of its functions there
is a lemma which says that behind the source's own checks none of them fails, and what the function
then is (`readSection_eq`, `addSymbol_eq`, `visitSection_eq` and so on).  So the parser as a whole
is a plain fold over the sections (`visitSections_eq`), each of which adds its symbols.  The string
table of a symbol table is the section that its `sh_link` names, a name must have its zero byte
inside of it, and the last `.gnu_debugdata` of the file is the one that is decompressed.
-/
import YukiZygisk.Lib.CheckedReads
import YukiZygisk.Linker.Mapping

namespace YukiZygisk.ElfSymbols

open CheckedReads
open Mapping (Abi elfMag)

/-! ## 1. The headers -/

/-- A value of the 64-bit classes, or of the 32-bit ones. -/
def pick (abi : Abi) (lp64 ilp32 : ℕ) : ℕ :=
  match abi with
  | .lp64 => lp64
  | .ilp32 => ilp32

/-- `sizeof(ElfW(Shdr))`. -/
def shdrSize (abi : Abi) : ℕ := pick abi 64 40

/-- `sizeof(ElfW(Sym))`. -/
def symSize (abi : Abi) : ℕ := pick abi 24 16

/-- The bytes of an address, an offset or a size. -/
def wordBytes (abi : Abi) : ℕ := pick abi 8 4

/-- What is used of an `ElfW(Ehdr)`. -/
structure Ehdr where
  magic : List UInt8
  elfClass : ℕ
  type : ℕ
  shoff : ℕ
  shentsize : ℕ
  shnum : ℕ
  shstrndx : ℕ
  deriving DecidableEq

/-- What is used of an `ElfW(Shdr)`. -/
structure Shdr where
  name : ℕ
  type : ℕ
  offset : ℕ
  size : ℕ
  link : ℕ
  entsize : ℕ
  deriving DecidableEq

/-- What is used of an `ElfW(Sym)`. -/
structure Sym where
  name : ℕ
  shndx : ℕ
  value : ℕ
  size : ℕ
  deriving DecidableEq

/-- `ResolvedSymbol`. -/
structure ResolvedSymbol where
  name : List UInt8
  addr : ℕ
  size : ℕ
  deriving DecidableEq

/-- `SHT_PROGBITS`, `SHT_SYMTAB` and `SHT_DYNSYM`. -/
def shtProgbits : ℕ := 1
def shtSymtab : ℕ := 2
def shtDynsym : ℕ := 11

/-- `ET_EXEC`. -/
def etExec : ℕ := 2

/-- ".gnu_debugdata". -/
def gnuDebugdata : List UInt8 := [46, 103, 110, 117, 95, 100, 101, 98, 117, 103, 100, 97, 116, 97]

section
variable (abi : Abi) (image : List UInt8)

def readEhdr : Option Ehdr := do
  let magic ← fetch image 0 4
  let elfClass ← field image 4 1
  let type ← field image 16 2
  let shoff ← field image (pick abi 40 32) (wordBytes abi)
  let shentsize ← field image (pick abi 58 46) 2
  let shnum ← field image (pick abi 60 48) 2
  let shstrndx ← field image (pick abi 62 50) 2
  pure ⟨magic, elfClass, type, shoff, shentsize, shnum, shstrndx⟩

def readShdr (base : ℕ) : Option Shdr := do
  let name ← field image base 4
  let type ← field image (base + 4) 4
  let offset ← field image (base + pick abi 24 16) (wordBytes abi)
  let size ← field image (base + pick abi 32 20) (wordBytes abi)
  let link ← field image (base + pick abi 40 24) 4
  let entsize ← field image (base + pick abi 56 36) (wordBytes abi)
  pure ⟨name, type, offset, size, link, entsize⟩

def readSym (base : ℕ) : Option Sym := do
  let name ← field image base 4
  let shndx ← field image (base + pick abi 6 14) 2
  let value ← field image (base + pick abi 8 4) (wordBytes abi)
  let size ← field image (base + pick abi 16 8) (wordBytes abi)
  pure ⟨name, shndx, value, size⟩

/-! ## 2. The parser -/

/-- `elf_range_ok`. -/
def elfRangeOk (fileSize off size : ℕ) : Bool := off ≤ fileSize && size ≤ fileSize - off

/-- `elf_image_ok`: the header, if the image is one for this build with a section table. -/
def elfImageOk : Option (Option Ehdr) :=
  if image.length < abi.ehdrSize then some none
  else do
    let eh ← readEhdr abi image
    if eh.magic ≠ elfMag ∨ eh.elfClass ≠ abi.elfClass ∨ eh.shoff = 0 ∨ eh.shnum = 0 ∨
        eh.shentsize ≠ shdrSize abi then
      pure none
    else if !elfRangeOk image.length eh.shoff (eh.shnum * eh.shentsize) then pure none
    else pure (some eh)

/-- `sections[i]`. -/
def readSection (eh : Ehdr) (i : ℕ) : Option Shdr := readShdr abi image (eh.shoff + i * shdrSize abi)

/-- `section_name_equals`. -/
def sectionNameEquals (eh : Ehdr) (sh : Shdr) (want : List UInt8) : Option Bool :=
  if eh.shstrndx = 0 ∨ eh.shnum ≤ eh.shstrndx then some false
  else do
    let names ← readSection abi image eh eh.shstrndx
    if !elfRangeOk image.length names.offset names.size ∨ names.size ≤ sh.name then pure false
    else
      let limit := names.size - sh.name
      if limit ≤ want.length then pure false
      else
        let name ← fetch image (names.offset + sh.name) want.length
        if name ≠ want then pure false
        else
          let last ← field image (names.offset + sh.name + want.length) 1
          pure (last = 0)

/-- A turn of the loop of `add_symbols_from_section`. -/
def addSymbol (base : ℕ) (eh : Ehdr) (sh str : Shdr) (symbols : List ResolvedSymbol) (i : ℕ) :
    Option (List ResolvedSymbol) := do
  let sym ← readSym abi image (sh.offset + i * symSize abi)
  if sym.name = 0 ∨ sym.shndx = 0 ∨ sym.value = 0 then pure symbols
  else if str.size ≤ sym.name then pure symbols
  else
    let name := image.drop (str.offset + sym.name)
    let nameLimit := str.size - sym.name
    let nameLen ← strnlen name nameLimit
    if nameLen = 0 ∨ nameLen = nameLimit then pure symbols
    else
      let addr := if eh.type = etExec then sym.value else (base + sym.value) % abi.space
      let name ← cString name
      pure (symbols ++ [⟨name, addr, sym.size⟩])

/-- `add_symbols_from_section`. -/
def addSymbolsFromSection (base : ℕ) (eh : Ehdr) (symbols : List ResolvedSymbol) (sh : Shdr) :
    Option (List ResolvedSymbol) :=
  if sh.entsize ≠ symSize abi ∨ eh.shnum ≤ sh.link then some symbols
  else do
    let str ← readSection abi image eh sh.link
    if !elfRangeOk image.length sh.offset sh.size ∨ !elfRangeOk image.length str.offset str.size ∨
        str.size = 0 then
      pure symbols
    else (List.range (sh.size / sh.entsize)).foldlM (addSymbol abi image base eh sh str) symbols

/-- A turn of the loop of `load_symbols_from_image`, with the symbols and `gnu_debugdata`. -/
def visitSection (parse : Bool) (base : ℕ) (eh : Ehdr)
    (s : List ResolvedSymbol × Option Shdr) (i : ℕ) : Option (List ResolvedSymbol × Option Shdr) := do
  let sh ← readSection abi image eh i
  if sh.type = shtDynsym ∨ sh.type = shtSymtab then
    let symbols ← addSymbolsFromSection abi image base eh s.1 sh
    pure (symbols, s.2)
  else if !parse ∨ sh.type ≠ shtProgbits then pure s
  else
    let equal ← sectionNameEquals abi image eh sh gnuDebugdata
    pure (if equal then (s.1, some sh) else s)

/-- `load_symbols_from_image`, with the call for the image that is in this one. -/
def loadImage (inner : List UInt8 → List ResolvedSymbol → Option (Bool × List ResolvedSymbol))
    (decompress : List UInt8 → Option (List UInt8)) (parse : Bool) (base : ℕ)
    (symbols : List ResolvedSymbol) : Option (Bool × List ResolvedSymbol) := do
  match ← elfImageOk abi image with
  | none => pure (false, symbols)
  | some eh =>
    let (added, debug) ←
      (List.range eh.shnum).foldlM (visitSection abi image parse base eh) (symbols, none)
    let all ← match debug with
      | none => pure added
      | some sh =>
        if !elfRangeOk image.length sh.offset sh.size then pure added
        else
          let xz ← fetch image sh.offset sh.size
          match decompress xz with
          | none => pure added
          | some debugElf => (inner debugElf added).map Prod.snd
    pure (all.length ≠ symbols.length, all)

end

/-- `load_symbols_from_image`.  The call for the image in `.gnu_debugdata` looks for no other, so that
it has none to call for. -/
def loadSymbolsFromImage (abi : Abi) (decompress : List UInt8 → Option (List UInt8)) (base : ℕ)
    (parse : Bool) (image : List UInt8) (symbols : List ResolvedSymbol) :
    Option (Bool × List ResolvedSymbol) :=
  let inner (image : List UInt8) (symbols : List ResolvedSymbol) :=
    loadImage abi image (fun _ symbols => some (false, symbols)) decompress false base symbols
  if parse then loadImage abi image inner decompress true base symbols else inner image symbols

/-! ## 3. The symbols of an image -/

section
variable (abi : Abi) (image : List UInt8)

def ehdrAt : Ehdr :=
  ⟨image.take 4, Bytes.readAt 4 1 image, Bytes.readAt 16 2 image,
    Bytes.readAt (pick abi 40 32) (wordBytes abi) image, Bytes.readAt (pick abi 58 46) 2 image,
    Bytes.readAt (pick abi 60 48) 2 image, Bytes.readAt (pick abi 62 50) 2 image⟩

def shdrAt (base : ℕ) : Shdr :=
  ⟨Bytes.readAt base 4 image, Bytes.readAt (base + 4) 4 image,
    Bytes.readAt (base + pick abi 24 16) (wordBytes abi) image,
    Bytes.readAt (base + pick abi 32 20) (wordBytes abi) image,
    Bytes.readAt (base + pick abi 40 24) 4 image,
    Bytes.readAt (base + pick abi 56 36) (wordBytes abi) image⟩

def symAt (base : ℕ) : Sym :=
  ⟨Bytes.readAt base 4 image, Bytes.readAt (base + pick abi 6 14) 2 image,
    Bytes.readAt (base + pick abi 8 4) (wordBytes abi) image,
    Bytes.readAt (base + pick abi 16 8) (wordBytes abi) image⟩

/-- The section of an index. -/
def sectionAt (i : ℕ) : Shdr := shdrAt abi image ((ehdrAt abi image).shoff + i * shdrSize abi)

/-- The image has the header of this build and its section table. -/
def HasSections : Prop :=
  abi.ehdrSize ≤ image.length ∧ (ehdrAt abi image).magic = elfMag ∧
    (ehdrAt abi image).elfClass = abi.elfClass ∧ (ehdrAt abi image).shoff ≠ 0 ∧
    (ehdrAt abi image).shnum ≠ 0 ∧ (ehdrAt abi image).shentsize = shdrSize abi ∧
    (ehdrAt abi image).shoff + (ehdrAt abi image).shnum * shdrSize abi ≤ image.length

instance : Decidable (HasSections abi image) :=
  inferInstanceAs (Decidable (_ ∧ _ ∧ _ ∧ _ ∧ _ ∧ _ ∧ _))

/-- The sections in their order. -/
def sections : List Shdr :=
  if HasSections abi image then
    (List.range (ehdrAt abi image).shnum).map (sectionAt abi image) else []

/-- The section is a symbol table of this build, with a string table, and both are in the image. -/
def IsTable (sh : Shdr) : Prop :=
  (sh.type = shtDynsym ∨ sh.type = shtSymtab) ∧ sh.entsize = symSize abi ∧
    sh.link < (ehdrAt abi image).shnum ∧ sh.offset + sh.size ≤ image.length ∧
    (sectionAt abi image sh.link).offset + (sectionAt abi image sh.link).size ≤ image.length ∧
    (sectionAt abi image sh.link).size ≠ 0

instance (sh : Shdr) : Decidable (IsTable abi image sh) :=
  inferInstanceAs (Decidable ((_ ∨ _) ∧ _ ∧ _ ∧ _ ∧ _ ∧ _))

/-- The name at a place of a string table: it is not empty, and its zero is in the table. -/
def nameAt (str : Shdr) (n : ℕ) : Option (List UInt8) :=
  let name := ((image.drop (str.offset + n)).take (str.size - n)).takeWhile (· ≠ 0)
  if n = 0 ∨ str.size ≤ n ∨ name = [] ∨ name.length = str.size - n then none else some name

/-- A symbol that is defined, has a value and has a name. -/
def symbolOf (base : ℕ) (str : Shdr) (sym : Sym) : Option ResolvedSymbol :=
  if sym.shndx = 0 ∨ sym.value = 0 then none
  else (nameAt image str sym.name).map fun name =>
    ⟨name, if (ehdrAt abi image).type = etExec then sym.value else (base + sym.value) % abi.space,
      sym.size⟩

/-- The symbols of a table. -/
def tableSymbols (base : ℕ) (sh : Shdr) : List ResolvedSymbol :=
  (List.range (sh.size / symSize abi)).filterMap fun i =>
    symbolOf abi image base (sectionAt abi image sh.link)
      (symAt abi image (sh.offset + i * symSize abi))

/-- The symbols of a section. -/
def sectionSymbols (base : ℕ) (sh : Shdr) : List ResolvedSymbol :=
  if IsTable abi image sh then tableSymbols abi image base sh else []

/-- The symbols of the tables of the image. -/
def imageSymbols (base : ℕ) : List ResolvedSymbol :=
  (sections abi image).flatMap (sectionSymbols abi image base)

/-- The section has this name in the table of the section names. -/
def IsNamed (want : List UInt8) (sh : Shdr) : Prop :=
  let names := sectionAt abi image (ehdrAt abi image).shstrndx
  (ehdrAt abi image).shstrndx ≠ 0 ∧ (ehdrAt abi image).shstrndx < (ehdrAt abi image).shnum ∧
    names.offset + names.size ≤ image.length ∧ sh.name + want.length < names.size ∧
    (image.drop (names.offset + sh.name)).take (want.length + 1) = want ++ [0]

instance (want : List UInt8) (sh : Shdr) : Decidable (IsNamed abi image want sh) :=
  inferInstanceAs (Decidable (_ ∧ _ ∧ _ ∧ _ ∧ _))

/-- The section is one of debug data. -/
def IsDebug (sh : Shdr) : Prop := sh.type = shtProgbits ∧ IsNamed abi image gnuDebugdata sh

instance (sh : Shdr) : Decidable (IsDebug abi image sh) := inferInstanceAs (Decidable (_ ∧ _))

/-- The image that the last section of debug data has, if it can be decompressed. -/
def debugImage (decompress : List UInt8 → Option (List UInt8)) : Option (List UInt8) :=
  ((sections abi image).filter (IsDebug abi image)).getLast?.bind fun sh =>
    if sh.offset + sh.size ≤ image.length then decompress ((image.drop sh.offset).take sh.size)
    else none

/-- The symbols of an image and of the one in its debug data. -/
def allSymbols (decompress : List UInt8 → Option (List UInt8)) (base : ℕ) (parse : Bool) :
    List ResolvedSymbol :=
  imageSymbols abi image base ++
    if parse then (debugImage abi image decompress).elim [] fun inner => imageSymbols abi inner base
    else []

end

/-! ## 4. The reads are in the image -/

section
variable {abi : Abi} {image : List UInt8} {base i : ℕ} {sh str : Shdr} {symbols : List ResolvedSymbol}

/-- The check of a range is that it lies in the file. -/
theorem elfRangeOk_iff {fileSize off size : ℕ} :
    elfRangeOk fileSize off size = true ↔ off + size ≤ fileSize := by
  simp only [elfRangeOk, Bool.and_eq_true, decide_eq_true_eq]
  omega

theorem readEhdr_eq (h : abi.ehdrSize ≤ image.length) :
    readEhdr abi image = some (ehdrAt abi image) := by
  cases abi <;>
  · simp only [Abi.ehdrSize] at h
    simp only [readEhdr, pick, wordBytes]
    rw [fetch_eq (by omega), field_eq (by omega), field_eq (by omega), field_eq (by omega),
      field_eq (by omega), field_eq (by omega), field_eq (by omega)]
    rfl

theorem readShdr_eq (h : base + shdrSize abi ≤ image.length) :
    readShdr abi image base = some (shdrAt abi image base) := by
  cases abi <;>
  · simp only [shdrSize, pick] at h
    simp only [readShdr, pick, wordBytes]
    rw [field_eq (by omega), field_eq (by omega), field_eq (by omega), field_eq (by omega),
      field_eq (by omega), field_eq (by omega)]
    rfl

theorem readSym_eq (h : base + symSize abi ≤ image.length) :
    readSym abi image base = some (symAt abi image base) := by
  cases abi <;>
  · simp only [symSize, pick] at h
    simp only [readSym, pick, wordBytes]
    rw [field_eq (by omega), field_eq (by omega), field_eq (by omega), field_eq (by omega)]
    rfl

/-- The section table is in the image. -/
theorem readSection_eq (h : HasSections abi image) (hi : i < (ehdrAt abi image).shnum) :
    readSection abi image (ehdrAt abi image) i = some (sectionAt abi image i) := by
  refine readShdr_eq ?_
  have hend := h.2.2.2.2.2.2
  have hle : (i + 1) * shdrSize abi ≤ (ehdrAt abi image).shnum * shdrSize abi :=
    Nat.mul_le_mul_right _ hi
  rw [Nat.succ_mul] at hle
  omega

/-- **The header** is checked before anything of it is used. -/
theorem elfImageOk_eq : elfImageOk abi image =
    some (if HasSections abi image then some (ehdrAt abi image) else none) := by
  rw [elfImageOk]
  by_cases hsize : image.length < abi.ehdrSize
  · have hnot : ¬ HasSections abi image := fun h => absurd h.1 (by omega)
    rw [if_pos hsize, if_neg hnot]
  · rw [if_neg hsize, readEhdr_eq (not_lt.mp hsize)]
    simp only [Option.bind_eq_bind, Option.bind_some, Option.pure_def]
    by_cases hok : HasSections abi image
    · have ⟨_, hmagic, hclass, hoff, hnum, hentsize, hend⟩ := hok
      have hrange : elfRangeOk image.length (ehdrAt abi image).shoff
          ((ehdrAt abi image).shnum * (ehdrAt abi image).shentsize) = true :=
        elfRangeOk_iff.mpr (by rwa [hentsize])
      rw [if_neg (by simp [hmagic, hclass, hoff, hnum, hentsize]), hrange, if_pos hok]
      rfl
    · rw [if_neg hok]
      split_ifs with hbad hrange
      · rfl
      · rfl
      · simp only [not_or, not_not] at hbad
        obtain ⟨hmagic, hclass, hoff, hnum, hentsize⟩ := hbad
        rw [Bool.not_eq_true, Bool.not_eq_false', elfRangeOk_iff, hentsize] at hrange
        exact absurd ⟨not_lt.mp hsize, hmagic, hclass, hoff, hnum, hentsize, hrange⟩ hok

/-- A text with its zero behind it. -/
theorem take_eq_append_zero {off : ℕ} (want : List UInt8)
    (h : off + want.length + 1 ≤ image.length) :
    (image.drop off).take (want.length + 1) = want ++ [0] ↔
      (image.drop off).take want.length = want ∧ Bytes.readAt (off + want.length) 1 image = 0 := by
  have hlt : off + want.length < image.length := h
  have htake : (image.drop off).take (want.length + 1) =
      (image.drop off).take want.length ++ [image[off + want.length]] := by
    rw [List.take_add_one, List.getElem?_drop, List.getElem?_eq_getElem hlt, Option.toList_some]
  have hread : Bytes.readAt (off + want.length) 1 image = image[off + want.length].toNat := by
    rw [Bytes.readAt, List.drop_eq_getElem_cons hlt, List.take_succ_cons, List.take_zero]
    rfl
  rw [htake, hread, List.append_singleton_inj]
  exact and_congr_right fun _ => UInt8.toNat_inj.symm

/-- **The name of a section**, which is read when it has room for the zero. -/
theorem sectionNameEquals_eq (h : HasSections abi image) (sh : Shdr) (want : List UInt8) :
    sectionNameEquals abi image (ehdrAt abi image) sh want =
      some (decide (IsNamed abi image want sh)) := by
  have hnot : ∀ {b : Bool}, ¬ IsNamed abi image want sh → b = false →
      some b = some (decide (IsNamed abi image want sh)) := by
    intro b hnamed hb
    rw [hb, decide_eq_false hnamed]
  rw [sectionNameEquals]
  split_ifs with hndx
  · exact hnot (fun hn => hndx.elim hn.1 fun hle => absurd hn.2.1 (not_lt.mpr hle)) rfl
  obtain ⟨hzero, hlt⟩ := not_or.mp hndx
  rw [readSection_eq h (not_le.mp hlt)]
  simp only [Option.bind_eq_bind, Option.bind_some, Option.pure_def]
  set names := sectionAt abi image (ehdrAt abi image).shstrndx with hnames
  split_ifs with hrange hlimit
  · refine hnot (fun hn => ?_) rfl
    rw [Bool.not_eq_true', Bool.eq_false_iff, ne_eq, elfRangeOk_iff] at hrange
    exact hrange.elim (fun hout => hout hn.2.2.1) fun hle => by
      have hroom : sh.name + want.length < names.size := hn.2.2.2.1
      omega
  · refine hnot (fun hn => ?_) rfl
    have hroom : sh.name + want.length < names.size := hn.2.2.2.1
    omega
  · rw [Bool.not_eq_true', Bool.eq_false_iff, ne_eq, elfRangeOk_iff, not_or, not_not] at hrange
    have hin : names.offset + sh.name + want.length + 1 ≤ image.length := by omega
    have hlast : field image (names.offset + sh.name + want.length) 1 = _ := field_eq (by omega)
    rw [fetch_eq (by omega), Option.bind_some, hlast, Option.bind_some]
    have hroom : sh.name + want.length < names.size := by omega
    have hname : IsNamed abi image want sh ↔ _ := ⟨fun hn => hn.2.2.2.2, fun htake =>
      ⟨hzero, not_le.mp hlt, hrange.1, hroom, htake⟩⟩
    have htext := hname.trans (take_eq_append_zero want hin)
    split_ifs with hdiffer
    · rw [decide_eq_false fun hn => hdiffer (htext.mp hn).1]
    · refine congrArg some (decide_eq_decide.mpr ?_)
      rw [htext]
      exact ⟨fun hend => ⟨not_not.mp hdiffer, hend⟩, fun h => h.2⟩

/-- A name is read to its zero, or to the end of the string table. -/
theorem readName {n : ℕ} (hstr : str.offset + str.size ≤ image.length) (hn : n < str.size)
    (name : List UInt8)
    (hname : name = ((image.drop (str.offset + n)).take (str.size - n)).takeWhile (· ≠ 0)) :
    strnlen (image.drop (str.offset + n)) (str.size - n) = some name.length ∧
      (name.length ≠ str.size - n → cString (image.drop (str.offset + n)) = some name) := by
  have hlimit : str.size - n ≤ (image.drop (str.offset + n)).length := by
    rw [List.length_drop]
    omega
  subst hname
  refine ⟨strnlen_eq hlimit, ?_⟩
  intro hlen
  have hle := (List.takeWhile_prefix (p := fun b : UInt8 => b ≠ 0)
    (l := (image.drop (str.offset + n)).take (str.size - n))).length_le
  rw [List.length_take, min_eq_left hlimit] at hle
  obtain ⟨hzero, heq⟩ := takeWhile_of_lt hlimit (lt_of_le_of_ne hle hlen)
  rw [cString_eq hzero, heq]

/-- **A symbol of a table** is read in the table, and its name in the string table. -/
theorem addSymbol_eq (hstr : str.offset + str.size ≤ image.length)
    (hsym : sh.offset + i * symSize abi + symSize abi ≤ image.length) :
    addSymbol abi image base (ehdrAt abi image) sh str symbols i =
      some (symbols ++ (symbolOf abi image base str
        (symAt abi image (sh.offset + i * symSize abi))).toList) := by
  rw [addSymbol, readSym_eq hsym]
  simp only [Option.bind_eq_bind, Option.bind_some, Option.pure_def]
  set sym := symAt abi image (sh.offset + i * symSize abi)
  have hskipped : symbolOf abi image base str sym = none → some symbols =
      some (symbols ++ (symbolOf abi image base str sym).toList) := by
    intro hnone
    rw [hnone, Option.toList_none, List.append_nil]
  by_cases hundefined : sym.shndx = 0 ∨ sym.value = 0
  · rw [if_pos (.inr hundefined)]
    exact hskipped (if_pos hundefined)
  have hsymbol : symbolOf abi image base str sym = (nameAt image str sym.name).map fun name =>
      ⟨name, if (ehdrAt abi image).type = etExec then sym.value else (base + sym.value) % abi.space,
        sym.size⟩ := if_neg hundefined
  have hunnamed : nameAt image str sym.name = none → some symbols =
      some (symbols ++ (symbolOf abi image base str sym).toList) := by
    intro hnone
    exact hskipped (by rw [hsymbol, hnone, Option.map_none])
  by_cases hzero : sym.name = 0
  · rw [if_pos (.inl hzero)]
    exact hunnamed (if_pos (.inl hzero))
  rw [if_neg (fun h => h.elim hzero hundefined)]
  by_cases hout : str.size ≤ sym.name
  · rw [if_pos hout]
    exact hunnamed (if_pos (.inr (.inl hout)))
  obtain ⟨hlen, hstring⟩ := readName hstr (not_le.mp hout) _ rfl
  rw [if_neg hout, hlen, Option.bind_some]
  by_cases hempty : ((image.drop (str.offset + sym.name)).take (str.size - sym.name)).takeWhile
      (fun b => decide (b ≠ 0)) = []
  · rw [if_pos (.inl (List.length_eq_zero_iff.mpr hempty))]
    exact hunnamed (if_pos (.inr (.inr (.inl hempty))))
  by_cases hends : (((image.drop (str.offset + sym.name)).take (str.size - sym.name)).takeWhile
      (fun b => decide (b ≠ 0))).length = str.size - sym.name
  · rw [if_pos (.inr hends)]
    exact hunnamed (if_pos (.inr (.inr (.inr hends))))
  · have hnamed : nameAt image str sym.name = some _ :=
      if_neg fun h => h.elim hzero fun h => h.elim hout fun h => h.elim hempty hends
    rw [if_neg (fun h => h.elim (fun h => hempty (List.length_eq_zero_iff.mp h)) hends),
      hstring hends, Option.bind_some, hsymbol, hnamed]
    rfl

/-- **A section** adds the symbols of its table, if it is one. -/
theorem addSymbolsFromSection_eq (h : HasSections abi image)
    (htype : sh.type = shtDynsym ∨ sh.type = shtSymtab) :
    addSymbolsFromSection abi image base (ehdrAt abi image) symbols sh =
      some (symbols ++ sectionSymbols abi image base sh) := by
  have hskip : ¬ IsTable abi image sh →
      some symbols = some (symbols ++ sectionSymbols abi image base sh) := by
    intro hnot
    rw [sectionSymbols, if_neg hnot, List.append_nil]
  rw [addSymbolsFromSection]
  split_ifs with hlink
  · exact hskip fun hn => hlink.elim (fun he => he hn.2.1) fun hle => absurd hn.2.2.1 (not_lt.mpr hle)
  · obtain ⟨hentsize, hlt⟩ := not_or.mp hlink
    rw [readSection_eq h (not_le.mp hlt)]
    simp only [Option.bind_eq_bind, Option.bind_some, Option.pure_def, Bool.not_eq_true',
      Bool.eq_false_iff, ne_eq, elfRangeOk_iff]
    split_ifs with hrange
    · apply hskip
      intro hn
      rcases hrange with hout | hout | hempty
      · exact hout hn.2.2.2.1
      · exact hout hn.2.2.2.2.1
      · exact hn.2.2.2.2.2 hempty
    · simp only [not_or, not_not] at hrange
      obtain ⟨hin, hstr, hnonempty⟩ := hrange
      have htable : IsTable abi image sh :=
        ⟨htype, not_not.mp hentsize, not_le.mp hlt, hin, hstr, hnonempty⟩
      rw [sectionSymbols, if_pos htable, not_not.mp hentsize, tableSymbols,
        List.filterMap_eq_flatMap_toList]
      have hentry : ∀ i ∈ List.range (sh.size / symSize abi),
          sh.offset + i * symSize abi + symSize abi ≤ image.length := by
        intro i hi
        have hend : (i + 1) * symSize abi ≤ sh.size :=
          (Nat.mul_le_mul_right _ (List.mem_range.mp hi)).trans (Nat.div_mul_le_self _ _)
        rw [Nat.succ_mul] at hend
        omega
      exact foldlM_append (f := addSymbol abi image base (ehdrAt abi image) sh _)
        (fun i hi s => addSymbol_eq hstr (hentry i hi)) symbols

/-- **A turn of the loop** over the sections. -/
theorem visitSection_eq (h : HasSections abi image) (hi : i < (ehdrAt abi image).shnum) (parse : Bool)
    (s : List ResolvedSymbol × Option Shdr) :
    visitSection abi image parse base (ehdrAt abi image) s i =
      some (s.1 ++ sectionSymbols abi image base (sectionAt abi image i),
        if parse = true ∧ IsDebug abi image (sectionAt abi image i) then
          some (sectionAt abi image i) else s.2) := by
  rw [visitSection, readSection_eq h hi]
  simp only [Option.bind_eq_bind, Option.bind_some, Option.pure_def]
  generalize sectionAt abi image i = sh
  by_cases htype : sh.type = shtDynsym ∨ sh.type = shtSymtab
  · have hnot : ¬ (parse = true ∧ IsDebug abi image sh) := fun hn => by
      rw [hn.2.1] at htype
      exact absurd htype (by decide)
    rw [if_pos htype, addSymbolsFromSection_eq h htype, if_neg hnot]
    rfl
  · have hnone : sectionSymbols abi image base sh = [] := if_neg fun hn => htype hn.1
    rw [if_neg htype, hnone, List.append_nil]
    by_cases hskip : (!parse) = true ∨ sh.type ≠ shtProgbits
    · have hnot : ¬ (parse = true ∧ IsDebug abi image sh) := fun hn =>
        hskip.elim (fun hoff => by simp [hn.1] at hoff) fun hother => hother hn.2.1
      rw [if_pos hskip, if_neg hnot]
    · obtain ⟨hparse, hprogbits⟩ := not_or.mp hskip
      have hiff : parse = true ∧ IsDebug abi image sh ↔ IsNamed abi image gnuDebugdata sh :=
        ⟨fun hn => hn.2.2, fun hn => ⟨by simpa using hparse, not_not.mp hprogbits, hn⟩⟩
      rw [if_neg hskip, sectionNameEquals_eq h, Option.bind_some]
      by_cases hnamed : IsNamed abi image gnuDebugdata sh
      · rw [if_pos (hiff.mpr hnamed), decide_eq_true hnamed]
        rfl
      · rw [if_neg (fun hn => hnamed (hiff.mp hn)), decide_eq_false hnamed]
        rfl

/-! ## 5. What is loaded -/

/-- **The loop over the sections.** -/
theorem visitSections_eq (h : HasSections abi image) (parse : Bool) :
    (List.range (ehdrAt abi image).shnum).foldlM
        (visitSection abi image parse base (ehdrAt abi image)) (symbols, none) =
      some (symbols ++ imageSymbols abi image base,
        if parse then ((sections abi image).filter (IsDebug abi image)).getLast? else none) := by
  have hsections : (List.range (ehdrAt abi image).shnum).map (sectionAt abi image) =
      sections abi image := by
    rw [sections, if_pos h]
  have hloop := foldl_last (fun sh => decide (parse = true ∧ IsDebug abi image sh))
    (sectionSymbols abi image base) (sections abi image) (symbols, none)
  rw [foldlM_eq fun i hi s => visitSection_eq h (List.mem_range.mp hi) parse s]
  rw [← hsections, List.foldl_map] at hloop
  simp only [decide_eq_true_eq] at hloop
  rw [hloop, hsections, imageSymbols, Option.or_none]
  cases parse <;> simp

/-- **The symbols of an image are loaded**, by a parser that loads those of the image inside. -/
theorem loadImage_eq {decompress : List UInt8 → Option (List UInt8)}
    {inner : List UInt8 → List ResolvedSymbol → Option (Bool × List ResolvedSymbol)} (parse : Bool)
    (hinner : parse = true → ∀ image symbols,
      (inner image symbols).map Prod.snd = some (symbols ++ imageSymbols abi image base)) :
    loadImage abi image inner decompress parse base symbols =
      some (decide (allSymbols abi image decompress base parse ≠ []),
        symbols ++ allSymbols abi image decompress base parse) := by
  rw [loadImage, elfImageOk_eq]
  by_cases h : HasSections abi image
  · rw [if_pos h]
    simp only [Option.bind_eq_bind, Option.bind_some, Option.pure_def]
    rw [visitSections_eq h]
    simp only [Option.bind_some]
    have hdone : ∀ new, allSymbols abi image decompress base parse = new →
        some (decide ((symbols ++ new).length ≠ symbols.length), symbols ++ new) =
          some (decide (allSymbols abi image decompress base parse ≠ []),
            symbols ++ allSymbols abi image decompress base parse) := by
      rintro new rfl
      simp
    by_cases hparse : parse = true
    · simp only [if_pos hparse]
      have hall : allSymbols abi image decompress base parse = imageSymbols abi image base ++
          (debugImage abi image decompress).elim [] fun inner => imageSymbols abi inner base := by
        rw [allSymbols, if_pos hparse]
      rw [debugImage] at hall
      generalize ((sections abi image).filter (IsDebug abi image)).getLast? = debug at hall ⊢
      cases debug with
      | none => exact hdone _ (hall.trans (List.append_nil _))
      | some sh =>
        rw [Option.bind_some] at hall
        by_cases hrange : sh.offset + sh.size ≤ image.length
        · rw [if_pos hrange] at hall
          dsimp only
          rw [if_neg (by simpa [elfRangeOk_iff] using hrange), fetch_eq hrange, Option.bind_some]
          generalize decompress ((image.drop sh.offset).take sh.size) = found at hall ⊢
          cases found with
          | none => exact hdone _ (hall.trans (List.append_nil _))
          | some debugElf =>
            dsimp only
            rw [hinner hparse, Option.bind_some, List.append_assoc]
            exact hdone _ hall
        · rw [if_neg hrange] at hall
          dsimp only
          rw [if_pos (by simpa [Bool.eq_false_iff, elfRangeOk_iff] using hrange)]
          exact hdone _ (hall.trans (List.append_nil _))
    · simp only [if_neg hparse]
      refine hdone _ ?_
      rw [allSymbols, if_neg hparse, List.append_nil]
  · have hsections : sections abi image = [] := if_neg h
    have hnone : allSymbols abi image decompress base parse = [] := by
      rw [allSymbols, imageSymbols, debugImage, hsections]
      cases parse <;> rfl
    rw [if_neg h, hnone, List.append_nil]
    rfl

/-- **The symbols of a file.**  The parser reads in the image only, whatever its bytes are; it adds the
symbols of the tables in their order, and tells if there are any. -/
theorem loadSymbolsFromImage_exact (abi : Abi) (decompress : List UInt8 → Option (List UInt8))
    (base : ℕ) (parse : Bool) (image : List UInt8) (symbols : List ResolvedSymbol) :
    loadSymbolsFromImage abi decompress base parse image symbols =
      some (decide (allSymbols abi image decompress base parse ≠ []),
        symbols ++ allSymbols abi image decompress base parse) := by
  have hinner : ∀ image symbols, loadImage abi image (fun _ symbols => some (false, symbols))
      decompress false base symbols = some (decide (allSymbols abi image decompress base false ≠ []),
        symbols ++ allSymbols abi image decompress base false) := fun image symbols =>
    loadImage_eq false (by intro h; cases h)
  cases parse with
  | false => exact hinner image symbols
  | true =>
    apply loadImage_eq true
    intro _ image symbols
    rw [hinner]
    simp [allSymbols]

end

end YukiZygisk.ElfSymbols
