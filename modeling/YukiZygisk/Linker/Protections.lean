/-
# The protections of a loaded image (`restore_anonymous_protections`, `protect_relro`)

A segment that is copied into zero pages is writable while it is relocated, and gets the
protection of its flags afterwards; a segment that is mapped from the file has it from the start.
Last, the pages of the RELRO ranges are made read-only.  All of it goes by whole pages.

**After a load every page of a segment has the protection of its flags, but for the pages of a
RELRO range, which are read-only** (`final_protections`).  No page is left writable for another
reason: what is in no segment and no RELRO range is the reservation, without any access.

A pass over the segments is a pass that paints (`Lib/Paint`): mapping a segment, restoring its
protection or protecting a RELRO range sets the pages that it touches and no others.  `touched` is
the set of pages of a range, and the lemmas of the third section are about rounding: a range and its
rounded form touch the same pages, and the pages of a segment's bytes and of its zeros are those of
the segment (`touched_segment`).  As the pages of different segments are apart by the check of the
headers, a page is painted by the mapping and the restoring of one segment (`eq_of_page`), and then
by the RELRO ranges that touch it.
-/
import YukiZygisk.Lib.Paint
import YukiZygisk.Linker.Mapping
import YukiZygisk.Linker.Relocation

namespace YukiZygisk.Mapping

open Paint (Paints Painter)

/-! ## 1. Protections -/

/-- The `PROT_` flags of a page. -/
structure Protection where
  read : Bool
  write : Bool
  exec : Bool
  deriving DecidableEq

/-- `PROT_NONE`. -/
def protNone : Protection := ⟨false, false, false⟩

/-- `PROT_READ`. -/
def protRead : Protection := ⟨true, false, false⟩

/-- `protection_for`, of the flags `PF_X` = 1, `PF_W` = 2 and `PF_R` = 4. -/
def protectionFor (flags : ℕ) : Protection :=
  ⟨flags / 4 % 2 = 1, flags / 2 % 2 = 1, flags % 2 = 1⟩

/-- The protections of the pages of the process, by their number. -/
abbrev Pages := ℕ → Protection

/-- The pages that have a byte of a range. -/
def touched (ps a n : ℕ) : Set ℕ := {page | a / ps ≤ page ∧ page < (a + n + ps - 1) / ps}

/-- What a successful `mmap` or `mprotect` does to the protections. -/
def setPages (ps : ℕ) (pages : Pages) (a n : ℕ) (p : Protection) : Pages := fun page =>
  if a / ps ≤ page ∧ page < (a + n + ps - 1) / ps then p else pages page

/-- The address space, as the relocations see it. -/
def AddressSpace.image (abi : Abi) (space : AddressSpace) : Relocation.Image where
  arch := match abi with
    | .lp64 => .aarch64
    | .ilp32 => .arm
  full := true
  reservation := space.reservation
  span := space.span
  lowest := space.lowestVaddr
  rel := 0
  relBytes := 0
  plt := 0
  pltBytes := 0
  relr := 0
  relrBytes := 0
  symbols := 0
  symbolCount := 0
  tlsActive := false
  tlsModule := 0
  tlsGeneration := 0
  tlsBytes := 0

/-! ## 2. The passes over the segments -/

/-- The protections after a `map_one_segment` whose mappings succeed. -/
def mapPages (abi : Abi) (ps : ℕ) (space : AddressSpace) (pages : Pages) (ph : Phdr) :
    Option Pages :=
  let segmentPage := pageFloor ps ph.vaddr
  let pagePrefix := ph.vaddr - segmentPage
  match pageCeil abi ps (pagePrefix + ph.memsz) with
  | none => none
  | some mappedBytes =>
    let destination := space.runtime abi segmentPage
    let final := protectionFor ph.flags
    if !space.fileBacked then
      some (setPages ps pages destination mappedBytes { final with read := true, write := true })
    else
      match pageCeil abi ps (pagePrefix + ph.filesz) with
      | none => none
      | some fileMappingBytes =>
        let pages := if fileMappingBytes ≠ 0 then
          setPages ps pages destination fileMappingBytes final else pages
        some (if fileMappingBytes < mappedBytes then
          setPages ps pages (destination + fileMappingBytes) (mappedBytes - fileMappingBytes) final
          else pages)

/-- One turn of the loop of `restore_anonymous_protections`. -/
def restoreSegment (abi : Abi) (ps : ℕ) (space : AddressSpace) (mprotect : ℕ → ℕ → Bool)
    (pages : Pages) (ph : Phdr) : Option Pages :=
  let segmentPage := pageFloor ps ph.vaddr
  let pagePrefix := ph.vaddr - segmentPage
  match pageCeil abi ps (pagePrefix + ph.memsz) with
  | none => none
  | some rounded =>
    match Relocation.runtimePointer (space.image abi) 1 rounded segmentPage with
    | none => none
    | some address =>
      if !mprotect address rounded then none
      else some (setPages ps pages address rounded (protectionFor ph.flags))

/-- One turn of the loop of `protect_relro`. -/
def protectSegment (abi : Abi) (ps : ℕ) (space : AddressSpace) (mprotect : ℕ → ℕ → Bool)
    (pages : Pages) (ph : Phdr) : Option Pages :=
  if abi.max - space.bias < ph.vaddr then none
  else
    let unroundedStart := space.bias + ph.vaddr
    if abi.max - unroundedStart < ph.memsz then none
    else
      let start := pageFloor ps unroundedStart
      match pageCeil abi ps (unroundedStart + ph.memsz) with
      | none => none
      | some last =>
        if last ≤ start then none
        else if !Relocation.addressSpaceContains (space.image abi) start (last - start) then none
        else if !mprotect start (last - start) then none
        else some (setPages ps pages start (last - start) protRead)

/-- `PT_GNU_RELRO`. -/
def ptGnuRelro : ℕ := 0x6474e552

/-- The headers that the passes over the segments take. -/
def loads (phs : List Phdr) : List Phdr := phs.filter fun ph => ph.type = ptLoad ∧ ph.memsz ≠ 0

/-- The headers that `protect_relro` takes. -/
def relros (phs : List Phdr) : List Phdr :=
  phs.filter fun ph => ph.type = ptGnuRelro ∧ ph.memsz ≠ 0

/-- `restore_anonymous_protections`. -/
def restoreAnonymousProtections (abi : Abi) (ps : ℕ) (space : AddressSpace)
    (mprotect : ℕ → ℕ → Bool) (phs : List Phdr) (pages : Pages) : Option Pages :=
  if space.fileBacked then some pages
  else (loads phs).foldlM (restoreSegment abi ps space mprotect) pages

/-- `protect_relro`. -/
def protectRelro (abi : Abi) (ps : ℕ) (space : AddressSpace) (mprotect : ℕ → ℕ → Bool)
    (phs : List Phdr) (pages : Pages) : Option Pages :=
  (relros phs).foldlM (protectSegment abi ps space mprotect) pages

/-- What the system answers during a load.  Reservations begin at a page.  `prepared` is whether
everything between the mapping and the protections succeeds: the dynamic section, the libraries,
thread-local storage and the relocations. -/
structure LoadEnv (abi : Abi) (ps : ℕ) where
  reserve : (span : ℕ) → Option { a : ℕ // a + span ≤ abi.space ∧ ps ∣ a }
  headerCopy : Bool
  mmap : Phdr → ℕ → Bool
  prepared : Bool
  mprotect : ℕ → ℕ → Bool

def LoadEnv.toEnv {abi : Abi} {ps : ℕ} (env : LoadEnv abi ps) : Env abi where
  reserve span := (env.reserve span).map fun a => ⟨a.1, a.2.1⟩
  headerCopy := env.headerCopy
  mmap := env.mmap

/-- `dlopen_memfd` up to the protections: the layout, the address space and the protections of a
load that succeeds. -/
def loadProtected (abi : Abi) (ps : ℕ) (file : List UInt8) (fileBacked : Bool)
    (env : LoadEnv abi ps) (mem : Memory) (pages : Pages) :
    Option (SourceLayout × AddressSpace × Pages) := do
  let layout ← inspectSource abi ps file
  let (space, _) ← createAddressSpace abi ps file layout fileBacked env.toEnv mem
  let reserved := setPages ps pages space.reservation space.span protNone
  let mapped ← (loads layout.programHeaders).foldlM (mapPages abi ps space) reserved
  if env.prepared then
    let restored ← restoreAnonymousProtections abi ps space env.mprotect layout.programHeaders mapped
    let final ← protectRelro abi ps space env.mprotect layout.programHeaders restored
    some (layout, space, final)
  else none

/-! ## 3. Pages of ranges -/

variable {abi : Abi} {ps n i low high : ℕ} {file : List UInt8} {st st' : Inspect} {ph q : Phdr}
  {phs : List Phdr} {space : AddressSpace} {mem : Memory} {pages pages' : Pages}
  {layout : SourceLayout} {mprotect : ℕ → ℕ → Bool} {env : LoadEnv abi ps}

/-- A page has a byte of a segment or of another range of the file. -/
def HasPage (abi : Abi) (ps : ℕ) (space : AddressSpace) (ph : Phdr) : Set ℕ :=
  {page | ∃ i < ph.memsz, page = space.runtime abi (ph.vaddr + i) / ps}

/-- Setting a range of pages paints what it touches. -/
theorem paints_setPages (pages : Pages) (a n : ℕ) (p : Protection) :
    Paints pages (setPages ps pages a n p) (touched ps a n) p :=
  ⟨fun _ hx => if_pos hx, fun _ hx => if_neg hx⟩

/-- The pages of a range are those of its bytes. -/
theorem mem_touched_iff (hps : 0 < ps) {a page : ℕ} (hn : 0 < n) :
    page ∈ touched ps a n ↔ ∃ i < n, page = (a + i) / ps := by
  rw [touched, Set.mem_ofPred_eq]
  constructor
  · rintro ⟨hlo, hhi⟩
    have hlast : page * ps < a + n := by
      have hle := (Nat.le_div_iff_mul_le hps).mp (Nat.succ_le_of_lt hhi)
      rw [Nat.succ_mul] at hle
      omega
    have hnext : a < (page + 1) * ps := (Nat.div_lt_iff_lt_mul hps).mp (by omega)
    by_cases hfirst : a ≤ page * ps
    · refine ⟨page * ps - a, by omega, ?_⟩
      rw [Nat.add_sub_cancel' hfirst, Nat.mul_div_cancel _ hps]
    · refine ⟨0, hn, ?_⟩
      rw [Nat.add_zero]
      exact (Nat.div_eq_of_lt_le (by omega) hnext).symm
  · rintro ⟨i, hi, rfl⟩
    refine ⟨Nat.div_le_div_right (by omega), ?_⟩
    have hup : (a + i) / ps + 1 = (a + i + ps) / ps := (Nat.add_div_right _ hps).symm
    have hle : (a + i + ps) / ps ≤ (a + n + ps - 1) / ps := Nat.div_le_div_right (by omega)
    omega

/-- Rounding a range out to whole pages adds no page. -/
theorem touched_round (hps : 0 < ps) {a r x : ℕ} (ha : a = pageFloor ps x)
    (hr : a + r = pageFloor ps (x + n + ps - 1)) : touched ps a r = touched ps x n := by
  have hfirst : a / ps = x / ps := by
    rw [ha, pageFloor, Nat.mul_div_cancel _ hps]
  have hlast : (a + r + ps - 1) / ps = (x + n + ps - 1) / ps := by
    rw [hr, pageFloor, Nat.add_sub_assoc hps, Nat.add_comm, Nat.add_mul_div_right _ _ hps,
      Nat.div_eq_of_lt (by omega), Nat.zero_add]
  rw [touched, touched, hfirst, hlast]

/-- Two ranges of whole pages, one behind the other. -/
theorem touched_append (hps : 0 < ps) {a b : ℕ} (ha : ps ∣ a) (hb : ps ∣ b) :
    touched ps a b ∪ touched ps (a + b) n = touched ps a (b + n) := by
  obtain ⟨c, rfl⟩ := ha
  obtain ⟨d, rfl⟩ := hb
  have hsum : ps * c + ps * d = ps * (c + d) := (Nat.mul_add ps c d).symm
  have hmid : (ps * (c + d) + ps - 1) / ps = c + d := by
    rw [Nat.add_sub_assoc hps, Nat.mul_add_div hps, Nat.div_eq_of_lt (by omega), Nat.add_zero]
  have hle : c + d ≤ (ps * (c + d) + n + ps - 1) / ps :=
    hmid.symm.trans_le (Nat.div_le_div_right (by omega))
  ext page
  simp only [touched, Set.mem_union, Set.mem_ofPred_eq, ← Nat.add_assoc, hsum, hmid,
    Nat.mul_div_cancel_left _ hps]
  omega

/-! ## 4. What one turn of a pass does -/

/-- An address space that begins at a page, for virtual addresses from a page on. -/
structure Aligned (abi : Abi) (ps : ℕ) (space : AddressSpace) (low high : ℕ) : Prop where
  reserved : Reserved abi { space with fileBacked := false } low high
  lowest : space.lowestVaddr = low
  reservation : ps ∣ space.reservation
  low : ps ∣ low

theorem pageFloor_add (hps : 0 < ps) {a b : ℕ} (ha : ps ∣ a) :
    pageFloor ps (a + b) = a + pageFloor ps b := by
  obtain ⟨c, rfl⟩ := ha
  rw [pageFloor, pageFloor, Nat.mul_add_div hps, Nat.add_mul, Nat.mul_comm c]

/-- The addresses of a segment at run time. -/
theorem Aligned.runtime_eq (h : Aligned abi ps space low high) {v : ℕ} (hlow : low ≤ v)
    (hhigh : v < high) : space.runtime abi v = space.reservation + (v - low) :=
  h.reserved.runtime_eq hlow hhigh

/-- **The pages that a pass over the segments changes are those of the segment.** -/
theorem touched_segment (hps : 0 < ps) (h : Aligned abi ps space low high) (hne : ph.memsz ≠ 0)
    (hlow : low ≤ segBegin ps ph) (hhigh : segEnd ps ph ≤ high) {mappedBytes : ℕ}
    (hmapped : pageCeil abi ps (ph.vaddr - segBegin ps ph + ph.memsz) = some mappedBytes) :
    touched ps (space.runtime abi (segBegin ps ph)) mappedBytes = HasPage abi ps space ph := by
  have hbegin : segBegin ps ph ≤ ph.vaddr := pageFloor_le ps ph.vaddr
  have hend := end_le_segEnd hps ph
  have hpages : ps ∣ space.reservation + (segBegin ps ph - low) :=
    Nat.dvd_add h.reservation (Nat.dvd_sub (Nat.dvd_mul_left ps _) h.low)
  have hin : ph.vaddr - segBegin ps ph < ps := by
    have hmod := Nat.div_add_mod ph.vaddr ps
    have hlt := Nat.mod_lt ph.vaddr hps
    rw [segBegin, pageFloor, Nat.mul_comm]
    omega
  have hstart : space.runtime abi (segBegin ps ph) = pageFloor ps
      (space.reservation + (segBegin ps ph - low) + (ph.vaddr - segBegin ps ph)) := by
    rw [h.runtime_eq hlow (by omega), pageFloor_add hps hpages, pageFloor, Nat.div_eq_of_lt hin,
      Nat.zero_mul, Nat.add_zero]
  have hstop : space.runtime abi (segBegin ps ph) + mappedBytes = pageFloor ps
      (space.reservation + (segBegin ps ph - low) + (ph.vaddr - segBegin ps ph) + ph.memsz +
        ps - 1) := by
    have hsum : space.reservation + (segBegin ps ph - low) + (ph.vaddr - segBegin ps ph) +
        ph.memsz + ps - 1 = space.reservation + (segBegin ps ph - low) +
          (ph.vaddr - segBegin ps ph + ph.memsz + ps - 1) := by omega
    rw [h.runtime_eq hlow (by omega), hsum, pageFloor_add hps hpages, pageCeil_eq hmapped]
  rw [touched_round hps hstart hstop]
  ext page
  rw [mem_touched_iff hps (Nat.pos_of_ne_zero hne)]
  refine exists_congr fun i => and_congr_right ?_
  intro hi
  rw [h.runtime_eq (by omega) (by omega)]
  have hsame : space.reservation + (segBegin ps ph - low) + (ph.vaddr - segBegin ps ph) + i =
      space.reservation + (ph.vaddr + i - low) := by omega
  rw [hsame]

/-- The protection of a segment between its mapping and the last passes. -/
def loadingProtection (space : AddressSpace) (ph : Phdr) : Protection :=
  if space.fileBacked then protectionFor ph.flags
  else { protectionFor ph.flags with read := true, write := true }

theorem touched_zero (hps : 0 < ps) {a : ℕ} (ha : ps ∣ a) : touched ps a 0 = ∅ := by
  obtain ⟨c, rfl⟩ := ha
  have hlast : (ps * c + 0 + ps - 1) / ps = c := by
    rw [Nat.add_zero, Nat.add_sub_assoc hps, Nat.mul_add_div hps, Nat.div_eq_of_lt (by omega),
      Nat.add_zero]
  ext page
  rw [touched, Set.mem_ofPred_eq, hlast, Nat.mul_div_cancel_left _ hps]
  exact iff_of_false (by omega) (Set.notMem_empty page)

/-- Nothing is painted when there is nothing to map. -/
theorem paints_if {c : Prop} [Decidable c] {a n : ℕ} {p : Protection} (hps : 0 < ps) (ha : ps ∣ a)
    (hn : ¬ c → n = 0) (pages : Pages) :
    Paints pages (if c then setPages ps pages a n p else pages) (touched ps a n) p := by
  split_ifs with hc
  · exact paints_setPages pages a n p
  · rw [hn hc, touched_zero hps ha]
    exact ⟨fun x hx => absurd hx (Set.notMem_empty x), fun _ _ => rfl⟩

/-- **The mapping of a segment gives its pages the protection for the load.** -/
theorem painter_mapPages (hps : 0 < ps) (h : Aligned abi ps space low high) (hne : ph.memsz ≠ 0)
    (hsize : ph.filesz ≤ ph.memsz) (hlow : low ≤ segBegin ps ph) (hhigh : segEnd ps ph ≤ high) :
    Painter (mapPages abi ps space) (HasPage abi ps space) (loadingProtection space) ph := by
  intro pages pages' hstep
  have hpage : pageFloor ps ph.vaddr = segBegin ps ph := rfl
  rw [mapPages, hpage] at hstep
  dsimp only at hstep
  split at hstep
  · cases hstep
  rename_i mappedBytes hmapped
  rw [← touched_segment hps h hne hlow hhigh hmapped]
  rw [loadingProtection]
  cases hmode : space.fileBacked with
  | false =>
    rw [hmode, if_pos Bool.not_false] at hstep
    obtain rfl := Option.some.inj hstep
    exact paints_setPages pages _ _ _
  | true =>
    rw [hmode, if_neg (by decide)] at hstep
    split at hstep
    · cases hstep
    rename_i fileMappingBytes hfile
    obtain rfl := Option.some.inj hstep
    have hle : fileMappingBytes ≤ mappedBytes := by
      rw [pageCeil_eq hfile, pageCeil_eq hmapped]
      exact pageFloor_mono (by omega)
    have hbegin : segBegin ps ph ≤ ph.vaddr := pageFloor_le ps ph.vaddr
    have hend := end_le_segEnd hps ph
    have hdest : ps ∣ space.runtime abi (segBegin ps ph) := by
      rw [h.runtime_eq hlow (by omega)]
      exact Nat.dvd_add h.reservation (Nat.dvd_sub (Nat.dvd_mul_left ps _) h.low)
    have hpages : ps ∣ fileMappingBytes := pageCeil_eq hfile ▸ Nat.dvd_mul_left ps _
    have hsplit := touched_append (n := mappedBytes - fileMappingBytes) hps hdest hpages
    rw [Nat.add_sub_cancel' hle] at hsplit
    rw [← hsplit]
    refine (paints_if hps hdest (fun hz => not_not.mp hz) pages).trans ?_
    exact paints_if hps (Nat.dvd_add hdest hpages) (fun hlt => by omega) _

theorem wordMax_image (abi : Abi) (space : AddressSpace) :
    (space.image abi).wordMax + 1 = abi.space := by
  cases abi <;> simp [AddressSpace.image, Relocation.Image.wordMax, Relocation.Arch.wordMax,
    Relocation.Arch.wordBytes, Abi.space]

theorem bias_image (h : Aligned abi ps space low high) : (space.image abi).bias = space.bias := by
  have hbias : space.bias = (space.reservation + (abi.space - low)) % abi.space := h.reserved.bias
  have hreservation : (space.image abi).reservation = space.reservation := rfl
  have hlowest : (space.image abi).lowest = low := h.lowest
  rw [Relocation.Image.bias, wordMax_image, hbias, hreservation, hlowest,
    Nat.add_sub_assoc h.reserved.lowFits]

/-- `runtime_pointer` finds the place of a virtual address at run time. -/
theorem runtimePointer_runtime (h : Aligned abi ps space low high) {size count v p : ℕ}
    (hp : Relocation.runtimePointer (space.image abi) size count v = some p) :
    p = space.runtime abi v := by
  have hmax := wordMax_image abi space
  have hbias : space.bias < abi.space := by
    rw [show space.bias = _ from h.reserved.bias]
    exact Nat.mod_lt _ (by omega)
  rw [Relocation.runtimePointer, bias_image h] at hp
  split_ifs at hp
  rw [← Option.some.inj hp, AddressSpace.runtime, Nat.mod_eq_of_lt (by omega)]

/-- **Restoring a segment gives its pages the protection of its flags.** -/
theorem painter_restoreSegment (hps : 0 < ps) (h : Aligned abi ps space low high)
    (hne : ph.memsz ≠ 0) (hlow : low ≤ segBegin ps ph) (hhigh : segEnd ps ph ≤ high) :
    Painter (restoreSegment abi ps space mprotect) (HasPage abi ps space)
      (fun ph => protectionFor ph.flags) ph := by
  intro pages pages' hstep
  have hpage : pageFloor ps ph.vaddr = segBegin ps ph := rfl
  rw [restoreSegment, hpage] at hstep
  split at hstep
  · cases hstep
  rename_i rounded hmapped
  split at hstep
  · cases hstep
  rename_i address haddress
  split_ifs at hstep
  obtain rfl := Option.some.inj hstep
  rw [runtimePointer_runtime h haddress, ← touched_segment hps h hne hlow hhigh hmapped]
  exact paints_setPages pages _ _ _

/-- **Protecting a RELRO range makes its pages read-only.** -/
theorem painter_protectSegment (hps : 0 < ps) (hne : ph.memsz ≠ 0) :
    Painter (protectSegment abi ps space mprotect) (HasPage abi ps space) (fun _ => protRead)
      ph := by
  intro pages pages' hstep
  rw [protectSegment] at hstep
  dsimp only at hstep
  split_ifs at hstep with hbias hsize
  split at hstep
  · cases hstep
  rename_i last hlast
  split_ifs at hstep with horder
  obtain rfl := Option.some.inj hstep
  have hend : pageFloor ps (space.bias + ph.vaddr) + (last - pageFloor ps (space.bias + ph.vaddr)) =
      pageFloor ps (space.bias + ph.vaddr + ph.memsz + ps - 1) := by
    rw [← pageCeil_eq hlast]
    omega
  have hpages : touched ps (pageFloor ps (space.bias + ph.vaddr))
      (last - pageFloor ps (space.bias + ph.vaddr)) = HasPage abi ps space ph := by
    rw [touched_round hps rfl hend]
    ext page
    rw [mem_touched_iff hps (Nat.pos_of_ne_zero hne)]
    refine exists_congr fun i => and_congr_right ?_
    intro hi
    have hspace : abi.max + 1 = abi.space := by cases abi <;> rfl
    rw [AddressSpace.runtime, ← Nat.add_assoc, Nat.mod_eq_of_lt (by omega)]
  rw [← hpages]
  exact paints_setPages pages _ _ _

/-! ## 5. The protections after a load -/

theorem mem_loads : ph ∈ loads phs ↔ ph ∈ phs ∧ IsLoad ph := by
  rw [loads, List.mem_filter, decide_eq_true_eq]
  rfl

theorem mem_relros : ph ∈ relros phs ↔ ph ∈ phs ∧ ph.type = ptGnuRelro ∧ ph.memsz ≠ 0 := by
  rw [relros, List.mem_filter, decide_eq_true_eq]

/-- Two segments with a common page are the same. -/
theorem eq_of_page (hps : 0 < ps) {n : ℕ} (hlaid : Laid abi ps n layout)
    (h : Aligned abi ps space layout.lowestVaddr layout.highestVaddr)
    (hp : ph ∈ loads layout.programHeaders) (hq : q ∈ loads layout.programHeaders) {page : ℕ}
    (hpage : page ∈ HasPage abi ps space ph) (hpage' : page ∈ HasPage abi ps space q) : ph = q := by
  obtain ⟨hph, hload⟩ := mem_loads.mp hp
  obtain ⟨hqh, hload'⟩ := mem_loads.mp hq
  by_contra hne
  -- pages of a segment are those from its first to its last one
  have hbetween : ∀ {r : Phdr}, r ∈ layout.programHeaders → IsLoad r →
      page ∈ HasPage abi ps space r →
      space.reservation + (segBegin ps r - layout.lowestVaddr) ≤ page * ps ∧
        page * ps < space.reservation + (segEnd ps r - layout.lowestVaddr) := by
    rintro r hr hl ⟨i, hi, hpg⟩
    obtain ⟨hlow, hhigh⟩ := hlaid.placed r hr hl
    have hbegin : segBegin ps r ≤ r.vaddr := pageFloor_le ps r.vaddr
    have hend := end_le_segEnd hps r
    have hrun := h.runtime_eq (v := r.vaddr + i) (by omega) (by omega)
    have hdvd : ps ∣ space.reservation + (segBegin ps r - layout.lowestVaddr) :=
      Nat.dvd_add h.reservation (Nat.dvd_sub (Nat.dvd_mul_left ps _) h.low)
    obtain ⟨c, hc⟩ := hdvd
    have hfloor : page * ps ≤ space.runtime abi (r.vaddr + i) :=
      hpg ▸ Nat.div_mul_le_self _ _
    refine ⟨?_, by omega⟩
    rw [hc, Nat.mul_comm ps]
    refine Nat.mul_le_mul_right ps ?_
    rw [hpg, Nat.le_div_iff_mul_le hps, Nat.mul_comm, ← hc]
    omega
  let Apart : Phdr → Phdr → Prop := fun p q => IsLoad p → IsLoad q →
    segEnd ps p ≤ segBegin ps q ∨ segEnd ps q ≤ segBegin ps p
  have hsymm : Std.Symm Apart := ⟨fun p q hpq hlq hlp => (hpq hlp hlq).symm⟩
  have hsorted : layout.programHeaders.Pairwise Apart :=
    hlaid.sorted.imp fun hpq hlp hlq => .inl (hpq hlp hlq)
  have hapart := hsorted.forall hph hqh hne hload hload'
  have hin := hbetween hph hload hpage
  have hin' := hbetween hqh hload' hpage'
  have hlow := (hlaid.placed ph hph hload).1
  have hlow' := (hlaid.placed q hqh hload').1
  omega

/-- **After the passes over the segments**, the pages of a segment have one protection and the
others are as before. -/
theorem segments_of_pass (hps : 0 < ps) {n : ℕ} (hlaid : Laid abi ps n layout)
    (h : Aligned abi ps space layout.lowestVaddr layout.highestVaddr)
    {g : Pages → Phdr → Option Pages} {v : Phdr → Protection}
    (hg : ∀ ph ∈ loads layout.programHeaders, Painter g (HasPage abi ps space) v ph)
    (hpass : (loads layout.programHeaders).foldlM g pages = some pages') :
    (∀ ph ∈ loads layout.programHeaders, ∀ page ∈ HasPage abi ps space ph, pages' page = v ph) ∧
    ∀ page, (∀ ph ∈ loads layout.programHeaders, page ∉ HasPage abi ps space ph) →
      pages' page = pages page := by
  refine ⟨?_, fun page hnone => Paint.frame_of_pass hg hpass hnone⟩
  intro ph hph page hpage
  refine Paint.value_of_pass hg hpass ⟨ph, hph, hpage⟩ fun q hq hpage' => ?_
  rw [eq_of_page hps hlaid h hph hq hpage hpage']

/-- The protections that a load leaves. -/
structure Protected (abi : Abi) (ps : ℕ) (layout : SourceLayout) (space : AddressSpace)
    (pages : Pages) : Prop where
  relro : ∀ ph ∈ layout.programHeaders, ph.type = ptGnuRelro →
    ∀ page ∈ HasPage abi ps space ph, pages page = protRead
  segment : ∀ ph ∈ layout.programHeaders, ph.type = ptLoad →
    ∀ page ∈ HasPage abi ps space ph,
      (∀ r ∈ layout.programHeaders, r.type = ptGnuRelro → page ∉ HasPage abi ps space r) →
      pages page = protectionFor ph.flags
  noTemporary : ∀ page ∈ touched ps space.reservation space.span, (pages page).write = true →
    ∃ ph ∈ layout.programHeaders, ph.type = ptLoad ∧ page ∈ HasPage abi ps space ph ∧
      (protectionFor ph.flags).write = true

/-- A range with a page is not empty. -/
theorem memsz_ne_zero {page : ℕ} (h : page ∈ HasPage abi ps space ph) : ph.memsz ≠ 0 := by
  obtain ⟨i, hi, -⟩ := h
  omega

/-- **What the last two passes leave**, when the segments have the protection for the load. -/
theorem protected_of_passes (hps : 0 < ps) {n : ℕ} (hlaid : Laid abi ps n layout)
    (h : Aligned abi ps space layout.lowestVaddr layout.highestVaddr)
    {reserved mapped restored : Pages}
    (hnone : ∀ page ∈ touched ps space.reservation space.span, reserved page = protNone)
    (hmap : (loads layout.programHeaders).foldlM (mapPages abi ps space) reserved = some mapped)
    (hrestore : restoreAnonymousProtections abi ps space mprotect layout.programHeaders mapped =
      some restored)
    (hrelro : protectRelro abi ps space mprotect layout.programHeaders restored = some pages) :
    Protected abi ps layout space pages := by
  have hplaced : ∀ ph ∈ loads layout.programHeaders, ph ∈ layout.programHeaders ∧ IsLoad ph ∧
      layout.lowestVaddr ≤ segBegin ps ph ∧ segEnd ps ph ≤ layout.highestVaddr := fun ph hph => by
    obtain ⟨hmem, hload⟩ := mem_loads.mp hph
    exact ⟨hmem, hload, hlaid.placed ph hmem hload⟩
  obtain ⟨hloading, hframe⟩ := segments_of_pass hps hlaid h (fun ph hph => by
    obtain ⟨hmem, hload, hlow, hhigh⟩ := hplaced ph hph
    have hsizes := (fileValid_of_segmentValid (hlaid.valid ph hmem hload.1)).sizes
    exact painter_mapPages hps h hload.2 hsizes hlow hhigh) hmap
  -- the pages of the segments have the protection of their flags now, in both modes
  have hrestored : (∀ ph ∈ loads layout.programHeaders, ∀ page ∈ HasPage abi ps space ph,
      restored page = protectionFor ph.flags) ∧
      ∀ page, (∀ ph ∈ loads layout.programHeaders, page ∉ HasPage abi ps space ph) →
        restored page = mapped page := by
    rw [restoreAnonymousProtections] at hrestore
    split_ifs at hrestore with hmode
    · obtain rfl := Option.some.inj hrestore
      refine ⟨?_, fun _ _ => rfl⟩
      intro ph hph page hpage
      rw [hloading ph hph page hpage, loadingProtection, if_pos hmode]
    · exact segments_of_pass hps hlaid h (fun ph hph => by
        obtain ⟨-, hload, hlow, hhigh⟩ := hplaced ph hph
        exact painter_restoreSegment hps h hload.2 hlow hhigh) hrestore
  have hpainter : ∀ r ∈ relros layout.programHeaders, Painter (protectSegment abi ps space mprotect)
      (HasPage abi ps space) (fun _ => protRead) r :=
    fun r hr => painter_protectSegment hps (mem_relros.mp hr).2.2
  have hread : ∀ page, (∃ r ∈ relros layout.programHeaders, page ∈ HasPage abi ps space r) →
      pages page = protRead := fun page hsome =>
    Paint.value_of_pass hpainter hrelro hsome fun _ _ _ => rfl
  have hkeep : ∀ page, (∀ r ∈ relros layout.programHeaders, page ∉ HasPage abi ps space r) →
      pages page = restored page := fun page => Paint.frame_of_pass hpainter hrelro
  refine ⟨fun r hr htype page hpage => ?_, fun ph hph htype page hpage hno => ?_,
    fun page hin hwrite => ?_⟩
  · exact hread page ⟨r, mem_relros.mpr ⟨hr, htype, memsz_ne_zero hpage⟩, hpage⟩
  · rw [hkeep page fun r hr => hno r (mem_relros.mp hr).1 (mem_relros.mp hr).2.1]
    exact hrestored.1 ph (mem_loads.mpr ⟨hph, htype, memsz_ne_zero hpage⟩) page hpage
  · by_cases hro : ∃ r ∈ relros layout.programHeaders, page ∈ HasPage abi ps space r
    · rw [hread page hro] at hwrite
      cases hwrite
    · have hno : ∀ r ∈ relros layout.programHeaders, page ∉ HasPage abi ps space r :=
        fun r hr hp => hro ⟨r, hr, hp⟩
      rw [hkeep page hno] at hwrite
      by_cases hseg : ∃ ph ∈ loads layout.programHeaders, page ∈ HasPage abi ps space ph
      · obtain ⟨ph, hph, hpage⟩ := hseg
        rw [hrestored.1 ph hph page hpage] at hwrite
        obtain ⟨hmem, hload⟩ := mem_loads.mp hph
        exact ⟨ph, hmem, hload.1, hpage, hwrite⟩
      · have hout : ∀ ph ∈ loads layout.programHeaders, page ∉ HasPage abi ps space ph :=
          fun ph hph hp => hseg ⟨ph, hph, hp⟩
        rw [hrestored.2 page hout, hframe page hout, hnone page hin] at hwrite
        cases hwrite

/-- **After a load, every page of a segment has the protection of its flags**, but for the pages
of a RELRO range, which are read-only; and every writable page is one of a writable segment. -/
theorem final_protections (abi : Abi) (aux : ℕ) (file : List UInt8) (fileBacked : Bool)
    (env : LoadEnv abi (loaderPageSize aux)) (mem : Memory) (pages : Pages) (layout : SourceLayout)
    (space : AddressSpace) (pages' : Pages)
    (hload : loadProtected abi (loaderPageSize aux) file fileBacked env mem pages =
      some (layout, space, pages')) :
    Protected abi (loaderPageSize aux) layout space pages' := by
  have hps := loaderPageSize_pos aux
  simp only [loadProtected, Option.bind_eq_bind, Option.bind_eq_some_iff] at hload
  obtain ⟨layout, hsource, ⟨space, mem'⟩, hcreate, mapped, hmap, hload⟩ := hload
  split_ifs at hload with hprepared
  simp only [Option.bind_eq_some_iff] at hload
  obtain ⟨restored, hrestore, final, hrelro, heq⟩ := hload
  obtain ⟨rfl, rfl, rfl⟩ : layout = _ ∧ space = _ ∧ final = _ := by simpa using heq
  have hlaid := laid_of_inspect hps hsource
  obtain ⟨⟨reservation, hreserve, hspace⟩, -⟩ := createAddressSpace_spec hcreate
  have hdvd : loaderPageSize aux ∣ space.reservation := by
    obtain ⟨a, -, rfl⟩ := Option.map_eq_some_iff.mp hreserve
    rw [hspace]
    exact a.2.2
  have haligned : Aligned abi (loaderPageSize aux) space layout.lowestVaddr layout.highestVaddr :=
    ⟨reserved_of_create hcreate hlaid.lowFits, by rw [hspace], hdvd, hlaid.low⟩
  refine protected_of_passes hps hlaid haligned (fun page hpage => ?_) hmap hrestore hrelro
  exact (paints_setPages pages _ _ _).inside page hpage

/-- A system that reserves the addresses from 65536 on, and in which everything succeeds. -/
def relroEnv : LoadEnv .ilp32 4096 where
  reserve span := if h : 65536 + span ≤ Abi.space .ilp32 ∧ 4096 ∣ 65536 then some ⟨65536, h⟩
    else none
  headerCopy := true
  mmap _ _ := true
  prepared := true
  mprotect _ _ := true

set_option maxRecDepth 4000 in
theorem final_protections_sample : ∃ space pages,
    loadProtected .ilp32 4096 sampleFile false relroEnv (fun _ => 0) (fun _ => protNone) =
      some (sampleLayout, space, pages) ∧
    Protected .ilp32 4096 sampleLayout space pages := by
  have hload : ∃ r, loadProtected .ilp32 4096 sampleFile false relroEnv (fun _ => 0)
      (fun _ => protNone) = some r ∧ r.1 = sampleLayout := by
    rw [loadProtected, inspectSource_sample]
    exact ⟨_, rfl, rfl⟩
  obtain ⟨⟨_, space, pages⟩, hload, rfl⟩ := hload
  exact ⟨space, pages, hload, final_protections .ilp32 4096 sampleFile false relroEnv (fun _ => 0)
    (fun _ => protNone) sampleLayout space pages hload⟩

end YukiZygisk.Mapping
