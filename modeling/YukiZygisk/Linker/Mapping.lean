/-
# Mapping the segments of an image (`inspect_source`, `create_address_space`)

The loader checks the headers of a file, reserves an address range for all of its segments, and
maps each segment into it.  A mapping replaces whole pages, so the check refuses a file in which
the pages of a segment begin before those of the segment in front of it end.

**When a file passes the check and its segments are mapped, every segment lies in the reservation
and holds what the file describes: its bytes of the file, and zeros behind them**
(`mapped_as_described`).  The proof goes over the segments: a mapping changes its own pages only
(`mapOneSegment_spec`), and the check puts the pages of the segments one after the other
(`inspectHeaders_spec`).

A segment is copied into zero pages, or its pages are mapped from the file and what is behind its
bytes is cleared.  Both ways give the same image (`modes_agree`).

`Inspected` is the invariant of the check: the segments seen so far lie in the range from `low` to
`high`, have their pages one after the other, and are well formed.  It is kept by a header that is
passed over (`Inspected.skip`) and extended by a loadable one (`inspectLoad_spec`).  `Reserved` is
what creating the address space leaves, and `Fills` what one mapping has to do: put the bytes of the
file and the zeros behind them where they belong, and change nothing outside of its pages.  Both
ways of mapping are shown to fill their segment (`fills_anonymous`, `fills_fileBacked`); the second
one maps more of the file than belongs to the segment and clears what is too much.  From there the
two modes need no comparison of their own.
-/
import YukiZygisk.Lib.Bytes

namespace YukiZygisk.Mapping

/-! ## 1. The file -/

/-- The two builds of the loader. -/
inductive Abi where
  | lp64
  | ilp32
  deriving DecidableEq

/-- The number of values of a `uintptr_t`. -/
def Abi.space : Abi → ℕ
  | .lp64 => 2 ^ 64
  | .ilp32 => 2 ^ 32

/-- `UINTPTR_MAX`. -/
def Abi.max (abi : Abi) : ℕ := abi.space - 1

/-- `ElfW(Phdr)`, but for the physical address. -/
structure Phdr where
  type : ℕ
  flags : ℕ
  offset : ℕ
  vaddr : ℕ
  filesz : ℕ
  memsz : ℕ
  align : ℕ
  deriving DecidableEq

/-- `sizeof(ElfW(Ehdr))`. -/
def Abi.ehdrSize : Abi → ℕ
  | .lp64 => 64
  | .ilp32 => 52

/-- `sizeof(ElfW(Phdr))`. -/
def Abi.phdrSize : Abi → ℕ
  | .lp64 => 56
  | .ilp32 => 32

/-- The program header at a place of the file. -/
def Abi.phdrAt (abi : Abi) (file : List UInt8) (base : ℕ) : Phdr :=
  let field (offset width : ℕ) : ℕ := Bytes.readAt (base + offset) width file
  match abi with
  | .lp64 => ⟨field 0 4, field 4 4, field 8 8, field 16 8, field 32 8, field 40 8, field 48 8⟩
  | .ilp32 => ⟨field 0 4, field 24 4, field 4 4, field 8 4, field 16 4, field 20 4, field 28 4⟩

/-- `ELFMAG`. -/
def elfMag : List UInt8 := [0x7f, 0x45, 0x4c, 0x46]

/-- `ELFCLASS64` or `ELFCLASS32`. -/
def Abi.elfClass : Abi → ℕ
  | .lp64 => 2
  | .ilp32 => 1

/-- `EM_AARCH64` or `EM_ARM`. -/
def Abi.machine : Abi → ℕ
  | .lp64 => 183
  | .ilp32 => 40

def Abi.phoff (abi : Abi) (file : List UInt8) : ℕ :=
  match abi with
  | .lp64 => Bytes.readAt 32 8 file
  | .ilp32 => Bytes.readAt 28 4 file

def Abi.phentsize (abi : Abi) (file : List UInt8) : ℕ :=
  match abi with
  | .lp64 => Bytes.readAt 54 2 file
  | .ilp32 => Bytes.readAt 42 2 file

def Abi.phnum (abi : Abi) (file : List UInt8) : ℕ :=
  match abi with
  | .lp64 => Bytes.readAt 56 2 file
  | .ilp32 => Bytes.readAt 44 2 file

def ptLoad : ℕ := 1
def ptDynamic : ℕ := 2

/-! ## 2. Pages -/

/-- `is_power_of_two`. -/
def isPowerOfTwo (value : ℕ) : Bool := value ≠ 0 && value &&& (value - 1) = 0

/-- `loader_page_size`, from the page size in the auxiliary vector. -/
def loaderPageSize (aux : ℕ) : ℕ := if 4096 ≤ aux && isPowerOfTwo aux then aux else 4096

/-- `page_floor`.  The page size is a power of two, so the mask keeps whole pages. -/
def pageFloor (ps value : ℕ) : ℕ := value / ps * ps

/-- `page_ceil`. -/
def pageCeil (abi : Abi) (ps value : ℕ) : Option ℕ :=
  if abi.max - (ps - 1) < value then none else some (pageFloor ps (value + ps - 1))

/-- `multiply_overflow`. -/
def multiplyOverflow (abi : Abi) (a b : ℕ) : Option ℕ :=
  if a ≠ 0 ∧ abi.max / a < b then none else some (a * b)

/-- `file_region_valid`. -/
def fileRegionValid (fileSize offset bytes : ℕ) : Bool :=
  offset ≤ fileSize && bytes ≤ fileSize - offset

/-! ## 3. The check of the headers -/

/-- The variables of the loop of `inspect_source`. -/
structure Inspect where
  low : ℕ
  high : ℕ
  previousLoadEnd : ℕ
  sawLoad : Bool
  dynamicIndex : Option ℕ

/-- The checks on a segment that look at nothing else. -/
def segmentValid (ps fileSize : ℕ) (ph : Phdr) : Bool :=
  ph.filesz ≤ ph.memsz && fileRegionValid fileSize ph.offset ph.filesz &&
  (ph.align ≤ 1 || (isPowerOfTwo ph.align && ph.vaddr % ph.align = ph.offset % ph.align)) &&
  ph.offset % ps = ph.vaddr % ps

/-- The part of a turn of the loop that is about a `PT_LOAD` header. -/
def inspectLoad (abi : Abi) (ps fileSize : ℕ) (st : Inspect) (ph : Phdr) : Option Inspect :=
  if !segmentValid ps fileSize ph then none
  else if ph.memsz = 0 then some st
  else if abi.max - ph.memsz < ph.vaddr then none
  else
    match pageCeil abi ps (ph.vaddr + ph.memsz) with
    | none => none
    | some segmentEnd =>
      let segmentBegin := pageFloor ps ph.vaddr
      -- a mapping replaces whole pages
      if st.sawLoad && segmentBegin < st.previousLoadEnd then none
      else some
        { st with
          previousLoadEnd := segmentEnd
          sawLoad := true
          low := min segmentBegin st.low
          high := max segmentEnd st.high }

/-- The loop of `inspect_source`. -/
def inspectHeaders (abi : Abi) (ps fileSize : ℕ) : ℕ → Inspect → List Phdr → Option Inspect
  | _, st, [] => some st
  | i, st, ph :: phs =>
    if ph.type = ptDynamic then
      if st.dynamicIndex.isSome then none
      else inspectHeaders abi ps fileSize (i + 1) { st with dynamicIndex := some i } phs
    else if ph.type = ptLoad then
      match inspectLoad abi ps fileSize st ph with
      | none => none
      | some st => inspectHeaders abi ps fileSize (i + 1) st phs
    else inspectHeaders abi ps fileSize (i + 1) st phs

/-- `struct SourceLayout`. -/
structure SourceLayout where
  programHeaders : List Phdr
  lowestVaddr : ℕ
  highestVaddr : ℕ
  dynamicIndex : ℕ
  deriving DecidableEq

/-- The header is that of a shared object for this build. -/
def headerValid (abi : Abi) (file : List UInt8) : Bool :=
  file.take 4 = elfMag && Bytes.readAt 4 1 file = abi.elfClass && Bytes.readAt 5 1 file = 1 &&
  Bytes.readAt 18 2 file = abi.machine && Bytes.readAt 16 2 file = 3 &&
  abi.phentsize file = abi.phdrSize && abi.phnum file ≠ 0

/-- `inspect_source`. -/
def inspectSource (abi : Abi) (ps : ℕ) (file : List UInt8) : Option SourceLayout :=
  if file.length < abi.ehdrSize then none
  else if !headerValid abi file then none
  else
    match multiplyOverflow abi (abi.phnum file) abi.phdrSize with
    | none => none
    | some phdrBytes =>
      if !fileRegionValid file.length (abi.phoff file) phdrBytes then none
      else
        let headers := (List.range (abi.phnum file)).map fun i =>
          abi.phdrAt file (abi.phoff file + i * abi.phdrSize)
        match inspectHeaders abi ps file.length 0 ⟨abi.max, 0, 0, false, none⟩ headers with
        | none => none
        | some st =>
          match st.dynamicIndex with
          | none => none
          | some dynamicIndex =>
            if st.low = abi.max ∨ st.high ≤ st.low then none
            else some ⟨headers, st.low, st.high, dynamicIndex⟩

/-! ## 4. The mappings -/

/-- The memory of the process. -/
abbrev Memory := ℕ → UInt8

/-- A private anonymous mapping, or `memset`: zeros. -/
def zeroFill (mem : Memory) (a n : ℕ) : Memory := fun x =>
  if a ≤ x ∧ x < a + n then 0 else mem x

/-- A private mapping of the file, or `memcpy` from it.  Behind the end of the file the last page of
a mapping is zero. -/
def fileFill (mem : Memory) (a n : ℕ) (file : List UInt8) (offset : ℕ) : Memory := fun x =>
  if a ≤ x ∧ x < a + n then file.getD (offset + (x - a)) 0 else mem x

/-- `struct AddressSpace`. -/
structure AddressSpace where
  reservation : ℕ
  span : ℕ
  lowestVaddr : ℕ
  bias : ℕ
  fileBacked : Bool

/-- The address at which a virtual address of the file is at run time. -/
def AddressSpace.runtime (abi : Abi) (space : AddressSpace) (vaddr : ℕ) : ℕ :=
  (space.bias + vaddr) % abi.space

/-- What the system answers: the reservation, which is a range of the address space, the memory for
the copy of the headers, and the mappings of a segment. -/
structure Env (abi : Abi) where
  reserve : (span : ℕ) → Option { a : ℕ // a + span ≤ abi.space }
  headerCopy : Bool
  mmap : Phdr → ℕ → Bool

/-- The anonymous mapping of a segment. -/
def mapAnonymous (file : List UInt8) (mem : Memory) (ph : Phdr)
    (destination pagePrefix mappedBytes : ℕ) (mmap : ℕ → Bool) : Option Memory :=
  if !mmap 0 then none
  else
    let mem := zeroFill mem destination mappedBytes
    if ph.filesz = 0 then some mem
    else if !fileRegionValid file.length ph.offset ph.filesz then none
    else some (fileFill mem (destination + pagePrefix) ph.filesz file ph.offset)

/-- The mapping of a segment from the file. -/
def mapFileBacked (abi : Abi) (ps : ℕ) (file : List UInt8) (mem : Memory) (ph : Phdr)
    (destination pagePrefix mappedBytes : ℕ) (mmap : ℕ → Bool) : Option Memory :=
  match pageCeil abi ps (pagePrefix + ph.filesz) with
  | none => none
  | some fileMappingBytes =>
    if fileMappingBytes ≠ 0 ∧ mmap 0 = false then none
    else
      let mem := fileFill mem destination fileMappingBytes file (ph.offset - pagePrefix)
      let dataEnd := pagePrefix + ph.filesz
      let zeroBytes := min (fileMappingBytes - dataEnd) (ph.memsz - ph.filesz)
      if zeroBytes ≠ 0 ∧ ph.flags / 2 % 2 = 0 then none
      else
        let mem := zeroFill mem (destination + dataEnd) zeroBytes
        if fileMappingBytes < mappedBytes then
          if !mmap 1 then none
          else some (zeroFill mem (destination + fileMappingBytes)
            (mappedBytes - fileMappingBytes))
        else some mem

/-- `map_one_segment`. -/
def mapOneSegment (abi : Abi) (ps : ℕ) (file : List UInt8) (space : AddressSpace) (mem : Memory)
    (ph : Phdr) (mmap : ℕ → Bool) : Option Memory :=
  let segmentPage := pageFloor ps ph.vaddr
  let pagePrefix := ph.vaddr - segmentPage
  match pageCeil abi ps (pagePrefix + ph.memsz) with
  | none => none
  | some mappedBytes =>
    let destination := space.runtime abi segmentPage
    if !space.fileBacked then mapAnonymous file mem ph destination pagePrefix mappedBytes mmap
    else mapFileBacked abi ps file mem ph destination pagePrefix mappedBytes mmap

/-- The loop of `create_address_space`. -/
def mapSegments (abi : Abi) (ps : ℕ) (file : List UInt8) (space : AddressSpace) (env : Env abi) :
    Memory → List Phdr → Option Memory
  | mem, [] => some mem
  | mem, ph :: phs =>
    if ph.type = ptLoad ∧ ph.memsz ≠ 0 then
      match mapOneSegment abi ps file space mem ph (env.mmap ph) with
      | none => none
      | some mem => mapSegments abi ps file space env mem phs
    else mapSegments abi ps file space env mem phs

/-- `create_address_space`: the address space, and the memory when all segments are mapped. -/
def createAddressSpace (abi : Abi) (ps : ℕ) (file : List UInt8) (layout : SourceLayout)
    (fileBacked : Bool) (env : Env abi) (mem : Memory) : Option (AddressSpace × Memory) :=
  let span := layout.highestVaddr - layout.lowestVaddr
  match env.reserve span with
  | none => none
  | some reservation =>
    let space : AddressSpace := ⟨reservation, span, layout.lowestVaddr,
      (reservation + (abi.space - layout.lowestVaddr)) % abi.space, fileBacked⟩
    match multiplyOverflow abi layout.programHeaders.length abi.phdrSize with
    | none => none
    | some _ =>
      if !env.headerCopy then none
      else
        match mapSegments abi ps file space env mem layout.programHeaders with
        | none => none
        | some mem => some (space, mem)

/-! ## 5. What the check says -/

variable {abi : Abi} {ps n i : ℕ} {file : List UInt8} {st st' : Inspect} {ph : Phdr}
  {phs : List Phdr} {space : AddressSpace} {mem mem' : Memory} {layout : SourceLayout}

theorem loaderPageSize_pos (aux : ℕ) : 0 < loaderPageSize aux := by
  rw [loaderPageSize]
  split_ifs with h
  · simp only [Bool.and_eq_true, decide_eq_true_eq] at h
    omega
  · decide

/-- A segment that is mapped. -/
def IsLoad (ph : Phdr) : Prop := ph.type = ptLoad ∧ ph.memsz ≠ 0

/-- Where the pages of a segment begin and end. -/
def segBegin (ps : ℕ) (ph : Phdr) : ℕ := pageFloor ps ph.vaddr

def segEnd (ps : ℕ) (ph : Phdr) : ℕ := pageFloor ps (ph.vaddr + ph.memsz + ps - 1)

/-- Rounding up, where it does not overflow. -/
theorem pageCeil_eq {value e : ℕ} (h : pageCeil abi ps value = some e) :
    e = pageFloor ps (value + ps - 1) := by
  rw [pageCeil] at h
  split_ifs at h
  exact (Option.some.inj h).symm

theorem le_of_pageCeil {value e : ℕ} (h : pageCeil abi ps value = some e) :
    value ≤ abi.max := by
  rw [pageCeil] at h
  split_ifs at h with hle
  exact (not_lt.mp hle).trans (Nat.sub_le _ _)

theorem le_pageFloor_up (hps : 0 < ps) (value : ℕ) : value ≤ pageFloor ps (value + ps - 1) := by
  have hmod := Nat.div_add_mod (value + ps - 1) ps
  have hlt := Nat.mod_lt (value + ps - 1) hps
  rw [pageFloor, Nat.mul_comm]
  omega

theorem le_pageCeil (hps : 0 < ps) {value e : ℕ} (h : pageCeil abi ps value = some e) :
    value ≤ e := by
  rw [pageCeil_eq h]
  exact le_pageFloor_up hps value

theorem pageFloor_le (ps value : ℕ) : pageFloor ps value ≤ value := Nat.div_mul_le_self value ps

theorem pageFloor_mono {a b : ℕ} (h : a ≤ b) : pageFloor ps a ≤ pageFloor ps b :=
  Nat.mul_le_mul_right ps (Nat.div_le_div_right h)

/-- The pages of a segment begin before they end. -/
theorem segBegin_le_segEnd (hps : 0 < ps) (ph : Phdr) : segBegin ps ph ≤ segEnd ps ph :=
  pageFloor_mono (by omega)

/-- The pages behind the first one of a segment. -/
theorem segEnd_eq (hps : 0 < ps) (ph : Phdr) : segEnd ps ph =
    segBegin ps ph + pageFloor ps (ph.vaddr - segBegin ps ph + ph.memsz + ps - 1) := by
  have hsplit : ph.vaddr + ph.memsz + ps - 1 =
      ph.vaddr - segBegin ps ph + ph.memsz + ps - 1 + ph.vaddr / ps * ps := by
    have hle : ph.vaddr / ps * ps ≤ ph.vaddr := pageFloor_le ps ph.vaddr
    rw [segBegin, pageFloor]
    omega
  rw [segEnd, hsplit, pageFloor, Nat.add_mul_div_right _ _ hps, Nat.add_mul, Nat.add_comm]
  rfl

/-- The end of a segment is in its last page. -/
theorem end_le_segEnd (hps : 0 < ps) (ph : Phdr) : ph.vaddr + ph.memsz ≤ segEnd ps ph :=
  le_pageFloor_up hps _

/-- What the check says about a segment that is mapped. -/
structure Placed (abi : Abi) (ps : ℕ) (st : Inspect) (ph : Phdr) : Prop where
  fits : ph.vaddr + ph.memsz ≤ abi.max
  low : st.low ≤ segBegin ps ph
  high : segEnd ps ph ≤ st.high

/-- What the check says about every `PT_LOAD` header. -/
structure FileValid (n : ℕ) (ph : Phdr) : Prop where
  sizes : ph.filesz ≤ ph.memsz
  region : ph.offset + ph.filesz ≤ n

theorem fileValid_of_segmentValid (h : segmentValid ps n ph = true) : FileValid n ph := by
  simp only [segmentValid, fileRegionValid, Bool.and_eq_true, decide_eq_true_eq] at h
  exact ⟨h.1.1.1, by omega⟩

/-- One turn of the loop on a `PT_LOAD` header. -/
theorem inspectLoad_spec (h : inspectLoad abi ps n st ph = some st') :
    FileValid n ph ∧ (ph.memsz = 0 ∧ st' = st ∨
      ph.memsz ≠ 0 ∧ ph.vaddr + ph.memsz ≤ abi.max ∧
        (st.sawLoad = true → st.previousLoadEnd ≤ segBegin ps ph) ∧
        st' = ⟨min (segBegin ps ph) st.low, max (segEnd ps ph) st.high, segEnd ps ph, true,
          st.dynamicIndex⟩) := by
  rw [inspectLoad] at h
  split_ifs at h with hvalid hzero hover
  · exact ⟨fileValid_of_segmentValid (by simpa using hvalid),
      .inl ⟨hzero, (Option.some.inj h).symm⟩⟩
  · refine ⟨fileValid_of_segmentValid (by simpa using hvalid), .inr ?_⟩
    split at h
    · cases h
    rename_i e he
    have hfits := le_of_pageCeil he
    obtain rfl := pageCeil_eq he
    dsimp only at h
    split_ifs at h with hback
    refine ⟨hzero, hfits, ?_, (Option.some.inj h).symm⟩
    intro hsaw
    rw [hsaw, Bool.true_and, decide_eq_true_eq, not_lt] at hback
    exact hback

/-- What the whole loop says about the headers that it goes over. -/
structure Inspected (abi : Abi) (ps n : ℕ) (st st' : Inspect) (phs : List Phdr) : Prop where
  low : st'.low ≤ st.low
  high : st.high ≤ st'.high
  valid : ∀ ph ∈ phs, ph.type = ptLoad → FileValid n ph
  placed : ∀ ph ∈ phs, IsLoad ph → Placed abi ps st' ph
  behind : st.sawLoad = true → ∀ ph ∈ phs, IsLoad ph → st.previousLoadEnd ≤ segBegin ps ph
  sorted : phs.Pairwise fun p q => IsLoad p → IsLoad q → segEnd ps p ≤ segBegin ps q

/-- A header that is not mapped changes nothing. -/
theorem Inspected.skip (h : Inspected abi ps n st st' phs) (hnot : ¬ IsLoad ph)
    (hvalid : ph.type = ptLoad → FileValid n ph) : Inspected abi ps n st st' (ph :: phs) := by
  refine ⟨h.low, h.high, fun p hp => ?_, fun p hp => ?_, fun hsaw p hp => ?_,
    List.pairwise_cons.mpr ⟨fun q _ hload => absurd hload hnot, h.sorted⟩⟩
  · rcases List.mem_cons.mp hp with rfl | hp
    · exact hvalid
    · exact h.valid p hp
  · rcases List.mem_cons.mp hp with rfl | hp
    · exact fun hload => absurd hload hnot
    · exact h.placed p hp
  · rcases List.mem_cons.mp hp with rfl | hp
    · exact fun hload => absurd hload hnot
    · exact h.behind hsaw p hp

/-- **The check puts the pages of the segments one after the other.** -/
theorem inspectHeaders_spec (hps : 0 < ps) (h : inspectHeaders abi ps n i st phs = some st') :
    Inspected abi ps n st st' phs := by
  induction phs generalizing i st with
  | nil =>
    obtain rfl := Option.some.inj h
    exact ⟨le_rfl, le_rfl, nofun, nofun, fun _ => nofun, .nil⟩
  | cons ph phs ih =>
    rw [inspectHeaders] at h
    by_cases hdyn : ph.type = ptDynamic
    · rw [if_pos hdyn] at h
      split_ifs at h
      have hne : ph.type ≠ ptLoad := by rw [hdyn]; decide
      obtain ⟨h1, h2, h3, h4, h5, h6⟩ := ih h
      exact Inspected.skip ⟨h1, h2, h3, h4, h5, h6⟩ (fun hload => hne hload.1)
        fun hload => absurd hload hne
    rw [if_neg hdyn] at h
    by_cases hload : ph.type = ptLoad
    · rw [if_pos hload] at h
      split at h
      · cases h
      rename_i st₁ hst₁
      obtain ⟨hvalid, ⟨hzero, rfl⟩ | ⟨hne, hfits, hprev, rfl⟩⟩ := inspectLoad_spec hst₁
      · exact (ih h).skip (fun hl => hl.2 hzero) fun _ => hvalid
      · have hrest := ih h
        have hbehind := hrest.behind rfl
        refine ⟨hrest.low.trans (min_le_right _ _), (le_max_right _ _).trans hrest.high,
          fun p hp => ?_, fun p hp => ?_, fun hsaw p hp hl => ?_, ?_⟩
        · rcases List.mem_cons.mp hp with rfl | hp
          · exact fun _ => hvalid
          · exact hrest.valid p hp
        · rcases List.mem_cons.mp hp with rfl | hp
          · exact fun _ => ⟨hfits, hrest.low.trans (min_le_left _ _),
              (le_max_left _ _).trans hrest.high⟩
          · exact hrest.placed p hp
        · rcases List.mem_cons.mp hp with rfl | hp
          · exact hprev hsaw
          · exact ((hprev hsaw).trans (segBegin_le_segEnd hps ph)).trans (hbehind p hp hl)
        · exact List.pairwise_cons.mpr ⟨fun q hq _ hlq => hbehind q hq hlq, hrest.sorted⟩
    · rw [if_neg hload] at h
      exact (ih h).skip (fun hl => hload hl.1) fun hl => absurd hl hload

/-- The check looks at every `PT_LOAD` header. -/
theorem inspectHeaders_valid (h : inspectHeaders abi ps n i st phs = some st') :
    ∀ ph ∈ phs, ph.type = ptLoad → segmentValid ps n ph = true := by
  induction phs generalizing i st with
  | nil => nofun
  | cons ph phs ih =>
    rw [inspectHeaders] at h
    intro q hq htype
    by_cases hdyn : ph.type = ptDynamic
    · rw [if_pos hdyn] at h
      split_ifs at h
      rcases List.mem_cons.mp hq with rfl | hq
      · rw [hdyn] at htype
        exact absurd htype (by decide)
      · exact ih h q hq htype
    rw [if_neg hdyn] at h
    by_cases hload : ph.type = ptLoad
    · rw [if_pos hload] at h
      split at h
      · cases h
      rename_i st₁ hst₁
      rcases List.mem_cons.mp hq with rfl | hq
      · rw [inspectLoad] at hst₁
        split_ifs at hst₁ with hvalid
        all_goals simpa using hvalid
      · exact ih h q hq htype
    · rw [if_neg hload] at h
      rcases List.mem_cons.mp hq with rfl | hq
      · exact absurd htype hload
      · exact ih h q hq htype

/-- The lowest address is that of a page, once there is a segment. -/
theorem inspectHeaders_low (h : inspectHeaders abi ps n i st phs = some st')
    (hst : st.low = abi.max ∨ ps ∣ st.low) : st'.low = abi.max ∨ ps ∣ st'.low := by
  induction phs generalizing i st with
  | nil => rwa [← Option.some.inj h]
  | cons ph phs ih =>
    rw [inspectHeaders] at h
    by_cases hdyn : ph.type = ptDynamic
    · rw [if_pos hdyn] at h
      split_ifs at h
      exact ih h hst
    rw [if_neg hdyn] at h
    by_cases hload : ph.type = ptLoad
    · rw [if_pos hload] at h
      split at h
      · cases h
      rename_i st₁ hst₁
      obtain ⟨-, ⟨-, rfl⟩ | ⟨-, -, -, rfl⟩⟩ := inspectLoad_spec hst₁
      · exact ih h hst
      · refine ih h ?_
        rcases min_choice (segBegin ps ph) st.low with hmin | hmin
        · rw [hmin]
          exact .inr (Nat.dvd_mul_left ps _)
        · rwa [hmin]
    · rw [if_neg hload] at h
      exact ih h hst

/-- The part of a page in front of a segment is in the file too. -/
theorem prefix_le_offset (h : segmentValid ps n ph = true) :
    ph.vaddr - segBegin ps ph ≤ ph.offset := by
  simp only [segmentValid, Bool.and_eq_true, decide_eq_true_eq] at h
  have hmod := Nat.div_add_mod ph.vaddr ps
  have hoff := Nat.mod_le ph.offset ps
  rw [segBegin, pageFloor, Nat.mul_comm]
  omega

/-! ## 6. What a mapping does -/

/-- The bytes of a segment at run time: those of the file, and zeros behind them. -/
structure Holds (abi : Abi) (file : List UInt8) (space : AddressSpace) (mem : Memory) (ph : Phdr) :
    Prop where
  bytes : ∀ i < ph.filesz, mem (space.runtime abi (ph.vaddr + i)) = file.getD (ph.offset + i) 0
  zeros : ∀ i, ph.filesz ≤ i → i < ph.memsz → mem (space.runtime abi (ph.vaddr + i)) = 0

/-- An address space for the virtual addresses from `low` to `high`. -/
structure Reserved (abi : Abi) (space : AddressSpace) (low high : ℕ) : Prop where
  anonymous : space.fileBacked = false
  span : space.span = high - low
  fits : space.reservation + (high - low) ≤ abi.space
  lowFits : low ≤ abi.space
  bias : space.bias = (space.reservation + (abi.space - low)) % abi.space

/-- An address in the reservation. -/
theorem Reserved.runtime_eq {low high v : ℕ} (h : Reserved abi space low high) (hlow : low ≤ v)
    (hhigh : v < high) : space.runtime abi v = space.reservation + (v - low) := by
  have hsum : space.reservation + (abi.space - low) + v =
      space.reservation + (v - low) + abi.space := by
    have := h.lowFits
    omega
  rw [AddressSpace.runtime, h.bias, Nat.mod_add_mod, hsum, Nat.add_mod_right]
  refine Nat.mod_eq_of_lt ?_
  have := h.fits
  omega

/-- A mapping changes its pages only, and fills its segment as the file says. -/
structure Fills (file : List UInt8) (mem mem' : Memory) (ph : Phdr)
    (destination pagePrefix mappedBytes : ℕ) : Prop where
  frame : ∀ x, x < destination ∨ destination + mappedBytes ≤ x → mem' x = mem x
  bytes : ∀ i < ph.filesz, mem' (destination + pagePrefix + i) = file.getD (ph.offset + i) 0
  zeros : ∀ i, ph.filesz ≤ i → i < ph.memsz → mem' (destination + pagePrefix + i) = 0

/-- Copying into zero pages fills the segment. -/
theorem fills_anonymous {destination pagePrefix mappedBytes : ℕ} {mmap : ℕ → Bool}
    (h : mapAnonymous file mem ph destination pagePrefix mappedBytes mmap = some mem')
    (hsize : ph.filesz ≤ ph.memsz) (hmapped : pagePrefix + ph.memsz ≤ mappedBytes) :
    Fills file mem mem' ph destination pagePrefix mappedBytes := by
  have hmem : mem' = fileFill (zeroFill mem destination mappedBytes) (destination + pagePrefix)
      ph.filesz file ph.offset := by
    rw [mapAnonymous] at h
    dsimp only at h
    split_ifs at h with _ hzero _
    · obtain rfl := Option.some.inj h
      funext x
      rw [fileFill, if_neg (by omega)]
    · exact (Option.some.inj h).symm
  subst hmem
  refine ⟨?_, ?_, ?_⟩
  · intro x hx
    rw [fileFill, if_neg (by omega), zeroFill, if_neg (by omega)]
  · intro i hi
    rw [fileFill, if_pos (by omega), Nat.add_sub_cancel_left]
  · intro i hlo hhi
    rw [fileFill, if_neg (by omega), zeroFill, if_pos (by omega)]

/-- The memory after a mapping from the file: the pages of the file, then zeros behind the bytes of
the segment to the end of its last page of the file, then zero pages. -/
theorem mapFileBacked_eq {destination pagePrefix mappedBytes fileMappingBytes : ℕ}
    {mmap : ℕ → Bool} (hceil : pageCeil abi ps (pagePrefix + ph.filesz) = some fileMappingBytes)
    (h : mapFileBacked abi ps file mem ph destination pagePrefix mappedBytes mmap = some mem') :
    mem' = zeroFill (zeroFill (fileFill mem destination fileMappingBytes file
        (ph.offset - pagePrefix)) (destination + (pagePrefix + ph.filesz))
        (min (fileMappingBytes - (pagePrefix + ph.filesz)) (ph.memsz - ph.filesz)))
      (destination + fileMappingBytes) (mappedBytes - fileMappingBytes) := by
  rw [mapFileBacked, hceil] at h
  dsimp only at h
  split_ifs at h with _ _ hmore
  · exact (Option.some.inj h).symm
  · obtain rfl := Option.some.inj h
    funext x
    conv_rhs => rw [zeroFill, if_neg (by omega)]

/-- **Mapping the file** and clearing what is behind its bytes fills the segment. -/
theorem fills_fileBacked {destination pagePrefix mappedBytes : ℕ} {mmap : ℕ → Bool} (hps : 0 < ps)
    (h : mapFileBacked abi ps file mem ph destination pagePrefix mappedBytes mmap = some mem')
    (hsize : ph.filesz ≤ ph.memsz) (hbegin : pagePrefix ≤ ph.offset)
    (hmapped : pageCeil abi ps (pagePrefix + ph.memsz) = some mappedBytes) :
    Fills file mem mem' ph destination pagePrefix mappedBytes := by
  obtain ⟨fileMappingBytes, hceil⟩ : ∃ n, pageCeil abi ps (pagePrefix + ph.filesz) = some n := by
    cases hceil : pageCeil abi ps (pagePrefix + ph.filesz) with
    | none =>
      rw [mapFileBacked, hceil] at h
      cases h
    | some n => exact ⟨n, rfl⟩
  have hlast := le_pageCeil hps hceil
  have hall := le_pageCeil hps hmapped
  have hle : fileMappingBytes ≤ mappedBytes := by
    rw [pageCeil_eq hceil, pageCeil_eq hmapped]
    exact pageFloor_mono (by omega)
  obtain rfl := mapFileBacked_eq hceil h
  refine ⟨?_, ?_, ?_⟩
  · intro x hx
    rw [zeroFill, if_neg (by omega), zeroFill, if_neg (by omega), fileFill, if_neg (by omega)]
  · intro i hi
    have hfile : ph.offset - pagePrefix + (destination + pagePrefix + i - destination) =
        ph.offset + i := by omega
    rw [zeroFill, if_neg (by omega), zeroFill, if_neg (by omega), fileFill, if_pos (by omega),
      hfile]
  · intro i hlo hhi
    -- in the last page of the file, or in the zero pages
    by_cases hpage : pagePrefix + i < fileMappingBytes
    · rw [zeroFill, if_neg (by omega), zeroFill, if_pos (by omega)]
    · rw [zeroFill, if_pos (by omega)]

/-- **A mapping fills its segment and changes nothing but its pages**, in both modes. -/
theorem mapOneSegment_spec {low high : ℕ} {mmap : ℕ → Bool} (hps : 0 < ps)
    (hspace : Reserved abi { space with fileBacked := false } low high)
    (hvalid : segmentValid ps n ph = true) (hne : ph.memsz ≠ 0)
    (hlow : low ≤ segBegin ps ph) (hhigh : segEnd ps ph ≤ high)
    (h : mapOneSegment abi ps file space mem ph mmap = some mem') :
    Holds abi file space mem' ph ∧
    ∀ v, low ≤ v → v < high → v < segBegin ps ph ∨ segEnd ps ph ≤ v →
      mem' (space.runtime abi v) = mem (space.runtime abi v) := by
  have hbegin : segBegin ps ph ≤ ph.vaddr := pageFloor_le ps ph.vaddr
  have hend := end_le_segEnd hps ph
  have hpage : pageFloor ps ph.vaddr = segBegin ps ph := rfl
  have hsizes := (fileValid_of_segmentValid hvalid).sizes
  have hruntime : ∀ {v : ℕ}, low ≤ v → v < high →
      space.runtime abi v = space.reservation + (v - low) := hspace.runtime_eq
  rw [mapOneSegment, hpage] at h
  dsimp only at h
  split at h
  · cases h
  rename_i mappedBytes hceil
  have hmapped : segBegin ps ph + mappedBytes = segEnd ps ph := by
    rw [segEnd_eq hps, pageCeil_eq hceil]
  have hdest : space.runtime abi (segBegin ps ph) =
      space.reservation + (segBegin ps ph - low) := hruntime hlow (by omega)
  have hin : ∀ i < ph.memsz, space.runtime abi (ph.vaddr + i) =
      space.reservation + (segBegin ps ph - low) + (ph.vaddr - segBegin ps ph) + i := fun i hi => by
    rw [hruntime (by omega) (by omega)]
    omega
  rw [hdest] at h
  have hfills : Fills file mem mem' ph (space.reservation + (segBegin ps ph - low))
      (ph.vaddr - segBegin ps ph) mappedBytes := by
    cases hmode : space.fileBacked with
    | false =>
      rw [hmode, if_pos Bool.not_false] at h
      exact fills_anonymous h hsizes (by omega)
    | true =>
      rw [hmode, if_neg (by decide)] at h
      exact fills_fileBacked hps h hsizes (prefix_le_offset hvalid) hceil
  refine ⟨⟨fun i hi => ?_, fun i hlo hhi => ?_⟩, ?_⟩
  · rw [hin i (hi.trans_le hsizes)]
    exact hfills.bytes i hi
  · rw [hin i hhi]
    exact hfills.zeros i hlo hhi
  · intro v hlo hhi hout
    rw [hruntime hlo hhi]
    exact hfills.frame _ (by omega)

/-- **When all segments are mapped each holds what the file says**, and what is in no page of a
segment is as before. -/
theorem mapSegments_spec {low high : ℕ} {env : Env abi} (hps : 0 < ps)
    (hspace : Reserved abi { space with fileBacked := false } low high)
    (hvalid : ∀ ph ∈ phs, ph.type = ptLoad → segmentValid ps n ph = true)
    (hplaced : ∀ ph ∈ phs, IsLoad ph → low ≤ segBegin ps ph ∧ segEnd ps ph ≤ high)
    (hsorted : phs.Pairwise fun p q => IsLoad p → IsLoad q → segEnd ps p ≤ segBegin ps q)
    (h : mapSegments abi ps file space env mem phs = some mem') :
    (∀ ph ∈ phs, IsLoad ph → Holds abi file space mem' ph) ∧
    ∀ v, low ≤ v → v < high → (∀ ph ∈ phs, IsLoad ph → v < segBegin ps ph) →
      mem' (space.runtime abi v) = mem (space.runtime abi v) := by
  induction phs generalizing mem with
  | nil =>
    obtain rfl := Option.some.inj h
    exact ⟨nofun, fun _ _ _ _ => rfl⟩
  | cons ph phs ih =>
    obtain ⟨hbefore, hsorted⟩ := List.pairwise_cons.mp hsorted
    have hvalid' := fun q hq => hvalid q (List.mem_cons_of_mem ph hq)
    have hplaced' := fun q hq => hplaced q (List.mem_cons_of_mem ph hq)
    rw [mapSegments] at h
    by_cases hload : ph.type = ptLoad ∧ ph.memsz ≠ 0
    · rw [if_pos hload] at h
      split at h
      · cases h
      rename_i mem₁ hmap
      obtain ⟨hlow, hhigh⟩ := hplaced ph List.mem_cons_self hload
      have hvalidPh := hvalid ph List.mem_cons_self hload.1
      obtain ⟨hholds, hframe⟩ := mapOneSegment_spec hps hspace hvalidPh hload.2 hlow hhigh hmap
      obtain ⟨hrest, hkeep⟩ := ih hvalid' hplaced' hsorted h
      have hbegin : segBegin ps ph ≤ ph.vaddr := pageFloor_le ps ph.vaddr
      have hend := end_le_segEnd hps ph
      -- the segments behind this one begin where its pages have ended
      have hsame : ∀ i < ph.memsz, mem' (space.runtime abi (ph.vaddr + i)) =
          mem₁ (space.runtime abi (ph.vaddr + i)) := fun i hi =>
        hkeep _ (by omega) (by omega) fun q hq hlq => by
          have := hbefore q hq hload hlq
          omega
      constructor
      · intro q hq hlq
        rcases List.mem_cons.mp hq with rfl | hq
        · have hsizes := (fileValid_of_segmentValid hvalidPh).sizes
          exact ⟨fun i hi => (hsame i (hi.trans_le hsizes)).trans (hholds.bytes i hi),
            fun i hi hi' => (hsame i hi').trans (hholds.zeros i hi hi')⟩
        · exact hrest q hq hlq
      · intro v hlo hhi hout
        rw [hkeep v hlo hhi fun q hq => hout q (List.mem_cons_of_mem ph hq)]
        exact hframe v hlo hhi (.inl (hout ph List.mem_cons_self hload))
    · rw [if_neg hload] at h
      obtain ⟨hrest, hkeep⟩ := ih hvalid' hplaced' hsorted h
      refine ⟨fun q hq hlq => ?_, fun v hlo hhi hout =>
        hkeep v hlo hhi fun q hq => hout q (List.mem_cons_of_mem ph hq)⟩
      rcases List.mem_cons.mp hq with rfl | hq
      · exact absurd hlq hload
      · exact hrest q hq hlq

/-! ## 7. The mapped image -/

/-- The facts of a file that has passed the check. -/
theorem inspectSource_spec (hps : 0 < ps) (h : inspectSource abi ps file = some layout) :
    ∃ st, Inspected abi ps file.length ⟨abi.max, 0, 0, false, none⟩ st layout.programHeaders ∧
      (∀ ph ∈ layout.programHeaders, ph.type = ptLoad →
        segmentValid ps file.length ph = true) ∧ ps ∣ st.low ∧
      layout.lowestVaddr = st.low ∧ layout.highestVaddr = st.high := by
  rw [inspectSource] at h
  split_ifs at h
  split at h
  · cases h
  dsimp only at h
  split_ifs at h
  split at h
  · cases h
  rename_i st hst
  split at h
  · cases h
  split_ifs at h with hempty
  obtain rfl := Option.some.inj h
  obtain ⟨hsome, -⟩ := not_or.mp hempty
  have halign := (inspectHeaders_low hst (.inl rfl)).resolve_left hsome
  exact ⟨st, inspectHeaders_spec hps hst, inspectHeaders_valid hst, halign, rfl, rfl⟩

/-- A segment lies in the reservation, and holds its bytes of the file and zeros behind them. -/
structure Described (abi : Abi) (file : List UInt8) (space : AddressSpace) (mem : Memory)
    (ph : Phdr) : Prop where
  inside : ∀ i < ph.memsz, space.reservation ≤ space.runtime abi (ph.vaddr + i) ∧
    space.runtime abi (ph.vaddr + i) < space.reservation + space.span
  bytes : ∀ i < ph.filesz,
    file[ph.offset + i]? = some (mem (space.runtime abi (ph.vaddr + i)))
  zeros : ∀ i, ph.filesz ≤ i → i < ph.memsz → mem (space.runtime abi (ph.vaddr + i)) = 0

/-- The address space that `create_address_space` makes, and what it maps. -/
theorem createAddressSpace_spec {fileBacked : Bool} {env : Env abi}
    (h : createAddressSpace abi ps file layout fileBacked env mem = some (space, mem')) :
    (∃ reservation, env.reserve (layout.highestVaddr - layout.lowestVaddr) = some reservation ∧
      space = ⟨reservation, layout.highestVaddr - layout.lowestVaddr, layout.lowestVaddr,
        (reservation + (abi.space - layout.lowestVaddr)) % abi.space, fileBacked⟩) ∧
    mapSegments abi ps file space env mem layout.programHeaders = some mem' := by
  rw [createAddressSpace] at h
  dsimp only at h
  split at h
  · cases h
  rename_i reservation hreserve
  split at h
  · cases h
  split_ifs at h
  split at h
  · cases h
  rename_i mem₁ hmap
  obtain ⟨rfl, rfl⟩ := Prod.mk.inj (Option.some.inj h)
  exact ⟨⟨reservation, hreserve, rfl⟩, hmap⟩

/-- The addresses of the segments are in the reservation. -/
theorem reserved_of_create {fileBacked : Bool} {env : Env abi}
    (h : createAddressSpace abi ps file layout fileBacked env mem = some (space, mem'))
    (hlow : layout.lowestVaddr ≤ abi.space) :
    Reserved abi { space with fileBacked := false } layout.lowestVaddr layout.highestVaddr := by
  obtain ⟨⟨reservation, -, rfl⟩, -⟩ := createAddressSpace_spec h
  exact ⟨rfl, rfl, reservation.2, hlow, rfl⟩

/-- What the check says about a layout. -/
structure Laid (abi : Abi) (ps n : ℕ) (layout : SourceLayout) : Prop where
  lowFits : layout.lowestVaddr ≤ abi.space
  low : ps ∣ layout.lowestVaddr
  valid : ∀ ph ∈ layout.programHeaders, ph.type = ptLoad → segmentValid ps n ph = true
  placed : ∀ ph ∈ layout.programHeaders, IsLoad ph →
    layout.lowestVaddr ≤ segBegin ps ph ∧ segEnd ps ph ≤ layout.highestVaddr
  sorted : layout.programHeaders.Pairwise fun p q =>
    IsLoad p → IsLoad q → segEnd ps p ≤ segBegin ps q

/-- **A file that passes the check has its segments one after the other, from a page on.** -/
theorem laid_of_inspect (hps : 0 < ps) (h : inspectSource abi ps file = some layout) :
    Laid abi ps file.length layout := by
  obtain ⟨st, hst, hvalid, halign, hlow, hhigh⟩ := inspectSource_spec hps h
  have hle : layout.lowestVaddr ≤ abi.max := hlow ▸ hst.low
  refine ⟨hle.trans (Nat.sub_le _ _), hlow ▸ halign, hvalid, ?_, hst.sorted⟩
  intro ph hph hload
  rw [hlow, hhigh]
  exact ⟨(hst.placed ph hph hload).low, (hst.placed ph hph hload).high⟩

/-- In both modes every segment is mapped as the file says. -/
theorem described_of_create {fileBacked : Bool} {env : Env abi} (hps : 0 < ps)
    (hsource : inspectSource abi ps file = some layout)
    (hcreate : createAddressSpace abi ps file layout fileBacked env mem = some (space, mem')) :
    ∀ ph ∈ layout.programHeaders, ph.type = ptLoad → Described abi file space mem' ph := by
  have hlaid := laid_of_inspect hps hsource
  have hspace := reserved_of_create hcreate hlaid.lowFits
  have hmap := (createAddressSpace_spec hcreate).2
  have hholds := (mapSegments_spec hps hspace hlaid.valid hlaid.placed hlaid.sorted hmap).1
  intro ph hph htype
  have hfile := fileValid_of_segmentValid (hlaid.valid ph hph htype)
  by_cases hzero : ph.memsz = 0
  · have hnone := hfile.sizes
    exact ⟨fun i hi => by omega, fun i hi => by omega, fun i _ hi => by omega⟩
  have hload : IsLoad ph := ⟨htype, hzero⟩
  obtain ⟨hfirst, hlast⟩ := hlaid.placed ph hph hload
  have hbegin : segBegin ps ph ≤ ph.vaddr := pageFloor_le _ _
  have hend := end_le_segEnd hps ph
  refine ⟨?_, ?_, (hholds ph hph hload).zeros⟩
  · intro i hi
    have hruntime : space.runtime abi (ph.vaddr + i) =
        space.reservation + (ph.vaddr + i - layout.lowestVaddr) :=
      hspace.runtime_eq (by omega) (by omega)
    have hspan : space.span = layout.highestVaddr - layout.lowestVaddr := hspace.span
    rw [hruntime, hspan]
    omega
  · intro i hi
    have hbyte := (hholds ph hph hload).bytes i hi
    have hin : ph.offset + i < file.length := by
      have := hfile.region
      omega
    rw [hbyte, List.getD_eq_getElem _ _ hin, List.getElem?_eq_getElem hin]

/-- **The mapped image is the one that the file describes**: when a file passes the check and its
segments are mapped into anonymous memory, every `PT_LOAD` segment lies in the reservation, its
first bytes are those of the file, and the others are zero. -/
theorem mapped_as_described (abi : Abi) (aux : ℕ) (file : List UInt8) (layout : SourceLayout)
    (env : Env abi) (mem : Memory) (space : AddressSpace) (mem' : Memory)
    (hsource : inspectSource abi (loaderPageSize aux) file = some layout)
    (hcreate : createAddressSpace abi (loaderPageSize aux) file layout false env mem =
      some (space, mem')) :
    ∀ ph ∈ layout.programHeaders, ph.type = ptLoad → Described abi file space mem' ph :=
  described_of_create (loaderPageSize_pos aux) hsource hcreate

/-- A shared object for ARM.  Its first page has the headers, and can be executed; from the middle of
the next one on it has a writable segment, of 20 bytes of the file and the zeros of two pages behind
them, the first of which is made read-only when the image is relocated. -/
def sampleFile : List UInt8 :=
  elfMag ++ [1, 1] ++ List.replicate 10 0 ++ Bytes.toBytes 2 3 ++ Bytes.toBytes 2 40 ++
  List.replicate 8 0 ++ Bytes.toBytes 4 52 ++ List.replicate 10 0 ++ Bytes.toBytes 2 32 ++
  Bytes.toBytes 2 4 ++ List.replicate 6 0 ++
  Bytes.toBytes 4 1 ++ List.replicate 12 0 ++ Bytes.toBytes 4 180 ++ Bytes.toBytes 4 180 ++
  Bytes.toBytes 4 5 ++ Bytes.toBytes 4 4096 ++
  Bytes.toBytes 4 1 ++ Bytes.toBytes 4 180 ++ Bytes.toBytes 4 4276 ++ List.replicate 4 0 ++
  Bytes.toBytes 4 20 ++ Bytes.toBytes 4 5000 ++ Bytes.toBytes 4 6 ++ Bytes.toBytes 4 4096 ++
  Bytes.toBytes 4 0x6474e552 ++ List.replicate 4 0 ++ Bytes.toBytes 4 4276 ++
  List.replicate 8 0 ++ Bytes.toBytes 4 100 ++ List.replicate 8 0 ++
  Bytes.toBytes 4 2 ++ List.replicate 28 0 ++
  List.replicate 20 7

def sampleLayout : SourceLayout :=
  ⟨[⟨1, 5, 0, 0, 180, 180, 4096⟩, ⟨1, 6, 180, 4276, 20, 5000, 4096⟩,
    ⟨0x6474e552, 0, 0, 4276, 0, 100, 0⟩, ⟨2, 0, 0, 0, 0, 0, 0⟩], 0, 12288, 3⟩

theorem inspectSource_sample :
    inspectSource .ilp32 4096 sampleFile = some sampleLayout := by
  decide +kernel

/-- A system that reserves the addresses from 65536 on. -/
def sampleEnv : Env .ilp32 where
  reserve span := if h : 65536 + span ≤ Abi.space .ilp32 then some ⟨65536, h⟩ else none
  headerCopy := true
  mmap _ _ := true

set_option maxRecDepth 4000 in
theorem mapped_as_described_sample : ∃ space mem,
    createAddressSpace .ilp32 4096 sampleFile sampleLayout false sampleEnv
      (fun _ => 255) = some (space, mem) ∧
    ∀ ph ∈ sampleLayout.programHeaders, ph.type = ptLoad → Described .ilp32 sampleFile space mem ph :=
  ⟨_, _, rfl, mapped_as_described .ilp32 4096 sampleFile sampleLayout sampleEnv (fun _ => 255) _ _
    inspectSource_sample rfl⟩

/-! ## 8. The two modes -/

/-- Two images that hold what the file describes hold the same bytes. -/
theorem Described.agree {space' : AddressSpace} (h : Described abi file space mem ph)
    (h' : Described abi file space' mem' ph) (hi : i < ph.memsz) :
    mem (space.runtime abi (ph.vaddr + i)) = mem' (space'.runtime abi (ph.vaddr + i)) := by
  by_cases hfile : i < ph.filesz
  · exact Option.some.inj ((h.bytes i hfile).symm.trans (h'.bytes i hfile))
  · rw [h.zeros i (not_lt.mp hfile) hi, h'.zeros i (not_lt.mp hfile) hi]

/-- **Mapping from the file and copying agree**: when a file passes the check and is mapped in both
modes, every byte of every `PT_LOAD` segment is the same in both images. -/
theorem modes_agree (abi : Abi) (aux : ℕ) (file : List UInt8) (layout : SourceLayout)
    (env env' : Env abi) (mem₀ mem₀' : Memory) (space space' : AddressSpace) (mem mem' : Memory)
    (hsource : inspectSource abi (loaderPageSize aux) file = some layout)
    (hanonymous : createAddressSpace abi (loaderPageSize aux) file layout false env mem₀ =
      some (space, mem))
    (hbacked : createAddressSpace abi (loaderPageSize aux) file layout true env' mem₀' =
      some (space', mem')) :
    ∀ ph ∈ layout.programHeaders, ph.type = ptLoad → ∀ i < ph.memsz,
      mem (space.runtime abi (ph.vaddr + i)) = mem' (space'.runtime abi (ph.vaddr + i)) := by
  have hps := loaderPageSize_pos aux
  intro ph hph htype i hi
  have hcopy := described_of_create hps hsource hanonymous ph hph htype
  have hmap := described_of_create hps hsource hbacked ph hph htype
  exact hcopy.agree hmap hi

set_option maxRecDepth 4000 in
theorem modes_agree_sample : ∃ space mem space' mem',
    createAddressSpace .ilp32 4096 sampleFile sampleLayout false sampleEnv
      (fun _ => 255) = some (space, mem) ∧
    createAddressSpace .ilp32 4096 sampleFile sampleLayout true sampleEnv
      (fun _ => 254) = some (space', mem') ∧
    ∀ ph ∈ sampleLayout.programHeaders, ph.type = ptLoad → ∀ i < ph.memsz,
      mem (space.runtime .ilp32 (ph.vaddr + i)) = mem' (space'.runtime .ilp32 (ph.vaddr + i)) :=
  ⟨_, _, _, _, rfl, rfl, modes_agree .ilp32 4096 sampleFile sampleLayout sampleEnv sampleEnv
    (fun _ => 255) (fun _ => 254) _ _ _ _ inspectSource_sample rfl rfl⟩

end YukiZygisk.Mapping
