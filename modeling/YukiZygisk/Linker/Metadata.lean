/-
# The memory of the loader's own records (`metadata_allocate`)

The loader cannot use `malloc`.  It takes its records from pages that it maps, each with a header of
the next page, the size of the mapping and a cursor: a block is carved out of the first page that has
room behind its cursor, and a page is mapped when none has.

`allocator` is the allocator with its clients, which write into their blocks between the requests.
**In every state it reaches, the blocks are aligned, disjoint, in their mappings and clear of the
headers; and a block is zero when it is given** (`metadataAllocate_sound`).  The sizes are those of
a build, so that a request can be too large for them; it fails then.

What is asked of `mmap` is what the system promises: whole pages, not at zero, with an address
behind them, and apart from the pages that are mapped.

The pages are arenas and the records their blocks (`Lib/Arenas`), so disjointness comes from the
library; the file has to show that a request is one of its moves.  `takeBlock_spec` says where a
block is put: at the first aligned address behind the cursor, if it fits.  `mappingSize_spec` says
that a new page is large enough for the header and the block with its alignment, and that the sum
does not overflow, which is where the sizes of the build come in.  A block is cleared when it is
given, and since it is apart from every other one, that changes no client's bytes; and a client that
writes into its own blocks reaches no header and no block of another (`Sound.newest`,
`Sound.guaranteed`).
-/
import YukiZygisk.Lib.Arenas
import YukiZygisk.Lib.Lts
import YukiZygisk.Linker.Mapping

namespace YukiZygisk.Metadata

open Arenas Mapping

/-! ## 1. `metadata_allocate` -/

/-- `struct MetadataPage` and where it lies; `next` is the order of the list. -/
structure MetadataPage where
  address : ℕ
  mappedSize : ℕ
  cursor : ℕ

/-- The pages, with the memory of the process.  The headers are kept in the pages. -/
structure State where
  pages : List MetadataPage
  memory : Memory

/-- `kMetadataPageSize`. -/
def kMetadataPageSize : ℕ := 64 * 1024

variable (abi : Abi) (ps bytes alignment : ℕ)

/-- `sizeof(MetadataPage)`. -/
def header : Abi → ℕ
  | .lp64 => 24
  | .ilp32 => 12

/-- `alignof(max_align_t)`. -/
def maxAlign : Abi → ℕ
  | .lp64 => 16
  | .ilp32 => 8

/-- `(value + alignment - 1) & ~(alignment - 1)`.  The alignment is a power of two, so the mask keeps
its multiples. -/
def alignUp (value alignment : ℕ) : ℕ :=
  (value + alignment - 1) % abi.space / alignment * alignment

/-- `header_aligned`. -/
def headerAligned : ℕ := alignUp abi (header abi) (maxAlign abi)

/-- `add_overflow`. -/
def addOverflow (a b : ℕ) : Option ℕ := if abi.max - b < a then none else some (a + b)

/-- The block at an offset of the page, with the page after it. -/
def MetadataPage.bump (page : MetadataPage) (offset : ℕ) : MetadataPage :=
  { page with cursor := (offset + bytes) % abi.space }

/-- The loop over the pages: the pages and the block, when one has room. -/
def takeBlock : List MetadataPage → Option (List MetadataPage × ℕ)
  | [] => none
  | page :: pages =>
    let offset := alignUp abi page.cursor alignment
    if offset ≤ page.mappedSize ∧ bytes ≤ page.mappedSize - offset then
      some (page.bump abi bytes offset :: pages, page.address + offset)
    else (takeBlock pages).map fun (rest, result) => (page :: rest, result)

/-- `mapping_size`, or an overflow. -/
def mappingSize : Option ℕ :=
  ((addOverflow abi (headerAligned abi) (alignment - 1)).bind (addOverflow abi · bytes)).bind
    fun required => (pageCeil abi ps required).map fun rounded =>
      if rounded < kMetadataPageSize then kMetadataPageSize else rounded

/-- `metadata_allocate`, with the answer of `mmap` if it comes to that. -/
def metadataAllocate (s : State) (mapping : Option ℕ) : State × Option ℕ :=
  if bytes = 0 ∨ !isPowerOfTwo alignment then (s, none)
  else
    match takeBlock abi bytes alignment s.pages with
    | some (pages, result) => (⟨pages, zeroFill s.memory result bytes⟩, some result)
    | none =>
      match mappingSize abi ps bytes alignment, mapping with
      | some size, some address =>
        let page : MetadataPage := ⟨address, size, headerAligned abi⟩
        let offset := alignUp abi page.cursor alignment
        let memory := zeroFill s.memory address size
        (⟨page.bump abi bytes offset :: s.pages, zeroFill memory (address + offset) bytes⟩,
          some (address + offset))
      | _, _ => (s, none)

/-! ## 2. The allocator and its clients -/

/-- A block, and the alignment that it was asked with. -/
structure Given where
  block : Block
  alignment : ℕ

/-- The allocator, and what it has given, the last first. -/
structure Heap where
  state : State
  given : List Given

inductive Act
  | request (bytes alignment : ℕ) (mapping : Option ℕ)
  /-- a client writes a byte into a block -/
  | store (address : ℕ) (value : UInt8)

def Heap.step (s : Heap) : Act → Option Heap
  | .request bytes alignment mapping =>
    match metadataAllocate abi ps bytes alignment s.state mapping with
    | (state, some result) => some ⟨state, ⟨⟨result, bytes⟩, alignment⟩ :: s.given⟩
    | (state, none) => some ⟨state, s.given⟩
  | .store address value =>
    if s.given.any fun g => g.block.start ≤ address && address < g.block.start + g.block.length then
      some { s with state.memory := Function.update s.state.memory address value }
    else none

/-- The loader when it starts, in any memory. -/
def allocator : Lts Heap Act where
  init s := s.state.pages = [] ∧ s.given = []
  step := Heap.step abi ps

/-- What `mmap` answers for so many bytes, while these pages are mapped. -/
structure Mapped (pages : List MetadataPage) (size address : ℕ) : Prop where
  page : address % ps = 0
  pos : 0 < address
  behind : address + size < abi.space
  apart : ∀ page ∈ pages,
    address + size ≤ page.address ∨ page.address + page.mappedSize ≤ address

/-- The alignments are up to a page, and `mmap` answers as it has to. -/
def Proper (s : Heap) : Act → Prop
  | .request bytes alignment mapping => alignment ≤ ps ∧
    ∀ size, mappingSize abi ps bytes alignment = some size →
      ∀ address, mapping = some address → Mapped abi ps s.state.pages size address
  | .store _ _ => True

/-! ## 3. Sizes -/

variable {abi ps bytes alignment} {s : Heap}

/-- The sizes of a request do not fit a `size_t`. -/
def Overflows (abi : Abi) (ps bytes alignment : ℕ) : Prop :=
  abi.space ≤ headerAligned abi + (alignment - 1) + bytes + (ps - 1)

theorem dvd_alignUp (abi : Abi) (value alignment : ℕ) : alignment ∣ alignUp abi value alignment :=
  Nat.dvd_mul_left _ _

/-- Rounding up goes less than one alignment further. -/
theorem alignUp_bounds (abi : Abi) (value : ℕ) (hpos : 0 < alignment)
    (hfits : value + alignment - 1 < abi.space) :
    value ≤ alignUp abi value alignment ∧
      alignUp abi value alignment ≤ value + (alignment - 1) := by
  rw [alignUp, Nat.mod_eq_of_lt hfits]
  have hdiv := Nat.div_add_mod (value + alignment - 1) alignment
  have hmod := Nat.mod_lt (value + alignment - 1) hpos
  rw [Nat.mul_comm] at hdiv
  omega

theorem headerAligned_eq (abi : Abi) :
    header abi ≤ headerAligned abi ∧ headerAligned abi < abi.space ∧ 0 < headerAligned abi := by
  cases abi <;> decide

/-- The test of one bit is that of a power of two. -/
theorem isPowerOfTwo_iff {value : ℕ} : isPowerOfTwo value = true ↔ ∃ k, value = 2 ^ k := by
  have h := Nat.ne_zero_and_sub_one_eq_zero_iff_isPowerOfTwo (n := value)
  simpa [isPowerOfTwo, Nat.isPowerOfTwo] using h

/-- The page size is a power of two. -/
theorem loaderPageSize_eq (aux : ℕ) : ∃ k, loaderPageSize aux = 2 ^ k := by
  rw [loaderPageSize]
  split_ifs with h
  · exact isPowerOfTwo_iff.mp (Bool.and_eq_true_iff.mp h).2
  · exact ⟨12, rfl⟩

theorem dvd_of_le {m n : ℕ} (hm : ∃ k, m = 2 ^ k) (hn : ∃ k, n = 2 ^ k) (h : m ≤ n) : m ∣ n := by
  obtain ⟨k, rfl⟩ := hm
  obtain ⟨l, rfl⟩ := hn
  exact Nat.pow_dvd_pow 2 ((Nat.pow_le_pow_iff_right (by decide)).mp h)

theorem space_eq (abi : Abi) : ∃ k, abi.space = 2 ^ k := by
  cases abi
  · exact ⟨64, rfl⟩
  · exact ⟨32, rfl⟩

theorem addOverflow_eq {a b c : ℕ} (ha : 0 < a) :
    addOverflow abi a b = some c ↔ a + b < abi.space ∧ c = a + b := by
  have hspace : 0 < abi.space := by cases abi <;> decide
  rw [addOverflow, Abi.max]
  split_ifs with h
  · constructor
    · rintro ⟨⟩
    · rintro ⟨hlt, -⟩
      omega
  · constructor
    · rintro ⟨⟩
      exact ⟨by omega, rfl⟩
    · rintro ⟨-, rfl⟩
      rfl

/-- **The size of a mapping.**  It is whole pages, with room for the block wherever it is aligned. -/
theorem mappingSize_spec {size : ℕ} (hps : ∃ k, ps = 2 ^ k)
    (h : mappingSize abi ps bytes alignment = some size) :
    ¬ Overflows abi ps bytes alignment ∧
      headerAligned abi + (alignment - 1) + bytes ≤ size ∧ ps ∣ size := by
  have hhead := headerAligned_eq abi
  simp only [mappingSize, Option.bind_eq_some_iff, Option.map_eq_some_iff] at h
  obtain ⟨required, ⟨front, hfront, hrequired⟩, rounded, hrounded, rfl⟩ := h
  obtain ⟨-, rfl⟩ := (addOverflow_eq hhead.2.2).mp hfront
  obtain ⟨-, rfl⟩ := (addOverflow_eq (by omega)).mp hrequired
  have hpos : 0 < ps := by
    obtain ⟨k, rfl⟩ := hps
    exact Nat.two_pow_pos k
  have hceil : ¬ abi.max - (ps - 1) < headerAligned abi + (alignment - 1) + bytes := by
    intro hlt
    rw [pageCeil, if_pos hlt] at hrounded
    cases hrounded
  obtain rfl := pageCeil_eq hrounded
  have hpages : ps ∣ pageFloor ps (headerAligned abi + (alignment - 1) + bytes + ps - 1) :=
    Nat.dvd_mul_left ps _
  have hrequired : headerAligned abi + (alignment - 1) + bytes ≤
      pageFloor ps (headerAligned abi + (alignment - 1) + bytes + ps - 1) :=
    le_pageFloor_up hpos _
  refine ⟨?_, ?_, ?_⟩
  · rw [Abi.max] at hceil
    rw [Overflows]
    omega
  · split_ifs <;> omega
  · split_ifs with hsmall
    · -- a page is smaller than the mapping then, and both are powers of two
      refine dvd_of_le hps ⟨16, rfl⟩ (le_trans (Nat.le_of_dvd ?_ hpages) hsmall.le)
      omega
    · exact hpages

/-! ## 4. The pages as arenas -/

def MetadataPage.arena (page : MetadataPage) : Arena := ⟨page.address, page.mappedSize, page.cursor⟩

/-- The blocks are carved out of the pages, which are whole pages of the address space, and they are
aligned. -/
structure Sound (abi : Abi) (ps : ℕ) (s : Heap) : Prop where
  tiled : Tiled (headerAligned abi) (s.state.pages.map MetadataPage.arena) (s.given.map Given.block)
  pages : ∀ page ∈ s.state.pages, ps ∣ page.address ∧ 0 < page.address ∧ ps ∣ page.mappedSize ∧
    page.address + page.mappedSize < abi.space
  aligned : ∀ g ∈ s.given, g.alignment ∣ g.block.start

/-- No page reaches the last page of the address space, and none is the first. -/
theorem Sound.mappedSize_le (h : Sound abi ps s) (hps : ∃ k, ps = 2 ^ k) {page : MetadataPage}
    (hpage : page ∈ s.state.pages) : page.mappedSize + 2 * ps ≤ abi.space := by
  obtain ⟨haddress, hpos, hsize, hbehind⟩ := h.pages page hpage
  have hfirst : ps ≤ page.address := Nat.le_of_dvd hpos haddress
  have hspace : ps ∣ abi.space := dvd_of_le hps (space_eq abi) (by omega)
  have hlast : ps ≤ abi.space - (page.address + page.mappedSize) :=
    Nat.le_of_dvd (by omega) (Nat.dvd_sub hspace (Nat.dvd_add haddress hsize))
  omega

/-- What `takeBlock` finds. -/
theorem takeBlock_spec {pages pages' : List MetadataPage} {result : ℕ}
    (h : takeBlock abi bytes alignment pages = some (pages', result)) :
    ∃ before page after, pages = before ++ page :: after ∧
      alignUp abi page.cursor alignment + bytes ≤ page.mappedSize ∧
      pages' = before ++ page.bump abi bytes (alignUp abi page.cursor alignment) :: after ∧
      result = page.address + alignUp abi page.cursor alignment := by
  induction pages generalizing pages' with
  | nil => cases h
  | cons page pages ih =>
    simp only [takeBlock] at h
    split_ifs at h with hroom
    · obtain ⟨rfl, rfl⟩ := Prod.mk.inj (Option.some.inj h)
      exact ⟨[], page, pages, rfl, by omega, rfl, rfl⟩
    · obtain ⟨⟨rest, result'⟩, hrest, heq⟩ := Option.map_eq_some_iff.mp h
      obtain ⟨rfl, rfl⟩ := Prod.mk.inj heq
      obtain ⟨before, page', after, rfl, hroom, rfl, hresult⟩ := ih hrest
      exact ⟨page :: before, page', after, rfl, hroom, rfl, hresult⟩

/-- **A block that is carved out of a page.** -/
theorem Sound.carve (before : List MetadataPage) {after : List MetadataPage}
    {page : MetadataPage} {memory : Memory}
    {given : List Given} (h : Sound abi ps ⟨⟨before ++ page :: after, memory⟩, given⟩)
    (hps : ∃ k, ps = 2 ^ k) (hpos : 0 < alignment) (hpow : alignment ∣ ps)
    (hroom : alignUp abi page.cursor alignment + bytes ≤ page.mappedSize) (memory' : Memory) :
    Sound abi ps
      ⟨⟨before ++ page.bump abi bytes (alignUp abi page.cursor alignment) :: after, memory'⟩,
        ⟨⟨page.address + alignUp abi page.cursor alignment, bytes⟩, alignment⟩ :: given⟩ := by
  have hpage : page ∈ before ++ page :: after := by simp
  have hsize := h.mappedSize_le hps hpage
  have hcursor : page.cursor ≤ page.mappedSize :=
    (h.tiled.cursor page.arena (List.mem_map_of_mem hpage)).2
  have hle : alignment ≤ ps := Nat.le_of_dvd (by obtain ⟨k, rfl⟩ := hps; positivity) hpow
  have hfront : page.cursor ≤ alignUp abi page.cursor alignment :=
    (alignUp_bounds abi page.cursor hpos (by omega)).1
  have hbump : (page.bump abi bytes (alignUp abi page.cursor alignment)).arena =
      { page.arena with cursor := alignUp abi page.cursor alignment + bytes } := by
    simp only [MetadataPage.arena, MetadataPage.bump]
    rw [Nat.mod_eq_of_lt (by omega)]
  have htiled := h.tiled
  simp only [List.map_append, List.map_cons] at htiled
  constructor
  · simp only [List.map_append, List.map_cons, hbump]
    exact htiled.carve hfront hroom
  · intro page' hpage'
    obtain hbefore | rfl | hafter : page' ∈ before ∨ page' = _ ∨ page' ∈ after := by
      simpa [List.mem_append, List.mem_cons] using hpage'
    · exact h.pages page' (by simp [hbefore])
    · exact h.pages page hpage
    · exact h.pages page' (by simp [hafter])
  · rintro g (_ | ⟨_, hg⟩)
    · exact Nat.dvd_add (hpow.trans (h.pages page hpage).1) (dvd_alignUp abi _ _)
    · exact h.aligned g hg

/-- **A page that is mapped.** -/
theorem Sound.extend (h : Sound abi ps s) {size address : ℕ}
    (hmapped : Mapped abi ps s.state.pages size address) (hps : ps ∣ size)
    (hsize : headerAligned abi ≤ size) (memory : Memory) :
    Sound abi ps ⟨⟨⟨address, size, headerAligned abi⟩ :: s.state.pages, memory⟩, s.given⟩ := by
  constructor
  · apply h.tiled.extend (a := ⟨address, size, _⟩) rfl hsize
    intro a ha
    obtain ⟨page, hpage, rfl⟩ := List.mem_map.mp ha
    obtain hbelow | habove := hmapped.apart page hpage
    · exact disjoint_of_le hbelow
    · exact (disjoint_of_le habove).symm
  · rintro page (_ | ⟨_, hpage⟩)
    · exact ⟨Nat.dvd_of_mod_eq_zero hmapped.page, hmapped.pos, hps, hmapped.behind⟩
    · exact h.pages page hpage
  · exact h.aligned

/-! ## 5. The guarantees -/

/-- What holds of the blocks of the clients. -/
structure Guaranteed (abi : Abi) (s : Heap) : Prop where
  aligned : ∀ g ∈ s.given, g.alignment ∣ g.block.start
  disjoint : s.given.Pairwise fun g g' => Disjoint g.block.range g'.block.range
  inside : ∀ g ∈ s.given, ∃ page ∈ s.state.pages,
    g.block.range ⊆ Set.Ico page.address (page.address + page.mappedSize)
  header : ∀ g ∈ s.given, ∀ page ∈ s.state.pages,
    Disjoint (Set.Ico page.address (page.address + header abi)) g.block.range

/-- What a request does: a block that it gives is zero, the other blocks keep their bytes, and there
is none when the sizes do not fit. -/
structure Answered (abi : Abi) (ps bytes alignment : ℕ) (mapping : Option ℕ) (s : Heap) : Prop where
  zeroed : ∀ result,
    (metadataAllocate abi ps bytes alignment s.state mapping).2 = some result →
    ∀ x ∈ Set.Ico result (result + bytes),
      (metadataAllocate abi ps bytes alignment s.state mapping).1.memory x = 0
  kept : ∀ g ∈ s.given, ∀ x ∈ g.block.range,
    (metadataAllocate abi ps bytes alignment s.state mapping).1.memory x = s.state.memory x
  overflow : Overflows abi ps bytes alignment →
    (metadataAllocate abi ps bytes alignment s.state mapping).2 = none

theorem zeroFill_of_mem {mem : Memory} {a n x : ℕ} (h : x ∈ Set.Ico a (a + n)) :
    zeroFill mem a n x = 0 := if_pos h

theorem zeroFill_of_disjoint {mem : Memory} {a n x : ℕ} {t : Set ℕ} (hx : x ∈ t)
    (h : Disjoint (Set.Ico a (a + n)) t) : zeroFill mem a n x = mem x :=
  if_neg fun hin => Set.disjoint_left.mp h hin hx

theorem Sound.guaranteed (h : Sound abi ps s) : Guaranteed abi s := by
  have hdisjoint := List.pairwise_map (f := Given.block) |>.mp h.tiled.disjoint
  constructor
  · exact h.aligned
  · exact hdisjoint
  · intro g hg
    obtain ⟨a, ha, hsub⟩ := h.tiled.inside (List.mem_map_of_mem hg)
    obtain ⟨page, hpage, rfl⟩ := List.mem_map.mp ha
    exact ⟨page, hpage, hsub⟩
  · intro g hg page hpage
    have hdisjoint := h.tiled.header_disjoint (List.mem_map_of_mem hg) (List.mem_map_of_mem hpage)
    refine hdisjoint.mono_left (Set.Ico_subset_Ico_right ?_)
    exact Nat.add_le_add_left (headerAligned_eq abi).1 _

/-- The newest block is apart from the others. -/
theorem Sound.newest {g : Given} {state : State} {given : List Given}
    (h : Sound abi ps ⟨state, g :: given⟩) {g' : Given} (hg' : g' ∈ given) :
    Disjoint g.block.range g'.block.range :=
  (List.pairwise_cons.mp h.guaranteed.disjoint).1 g' hg'

/-- **A request that is served.** -/
theorem Sound.request (h : Sound abi ps s) (hps : ∃ k, ps = 2 ^ k) {mapping : Option ℕ}
    (hproper : Proper abi ps s (.request bytes alignment mapping)) {state : State} {result : ℕ}
    (hresult : metadataAllocate abi ps bytes alignment s.state mapping = (state, some result)) :
    Sound abi ps ⟨state, ⟨⟨result, bytes⟩, alignment⟩ :: s.given⟩ ∧
      ¬ Overflows abi ps bytes alignment ∧
      (∀ x ∈ Set.Ico result (result + bytes), state.memory x = 0) ∧
      ∀ g ∈ s.given, ∀ x ∈ g.block.range, state.memory x = s.state.memory x := by
  obtain ⟨hle, hmapping⟩ := hproper
  simp only [metadataAllocate] at hresult
  split_ifs at hresult with hrejected
  · cases hresult
  obtain ⟨-, hpower⟩ := not_or.mp hrejected
  have hpower : ∃ k, alignment = 2 ^ k := isPowerOfTwo_iff.mp (by simpa using hpower)
  have hpow : alignment ∣ ps := dvd_of_le hpower hps hle
  have hpos : 0 < alignment := by
    obtain ⟨k, rfl⟩ := hpower
    exact Nat.two_pow_pos k
  split at hresult
  · -- a page has room
    rename_i pages result' htake
    obtain ⟨rfl, hsome⟩ := Prod.mk.inj hresult
    obtain rfl := Option.some.inj hsome
    obtain ⟨before, page, after, hpages, hroom, rfl, rfl⟩ := takeBlock_spec htake
    obtain ⟨⟨pages, memory⟩, given⟩ := s
    obtain rfl : pages = before ++ page :: after := hpages
    have hsound := h.carve before hps hpos hpow hroom (zeroFill memory
      (page.address + alignUp abi page.cursor alignment) bytes)
    refine ⟨hsound, ?_, fun x hx => zeroFill_of_mem hx, fun g hg x hx =>
      zeroFill_of_disjoint hx (hsound.newest hg)⟩
    have hpage : page ∈ before ++ page :: after := by simp
    have hsize := h.mappedSize_le hps hpage
    have hcursor : headerAligned abi ≤ page.cursor ∧ page.cursor ≤ page.mappedSize :=
      h.tiled.cursor page.arena (List.mem_map_of_mem hpage)
    have hfront := (alignUp_bounds abi page.cursor hpos (by omega)).1
    rw [Overflows]
    omega
  · split at hresult
    · -- a page is mapped
      rename_i size address hsize
      obtain ⟨rfl, hsome⟩ := Prod.mk.inj hresult
      obtain rfl := Option.some.inj hsome
      obtain ⟨hfits, hroom, hwhole⟩ := mappingSize_spec hps hsize
      have hmapped := hmapping size hsize address rfl
      have hextended := h.extend hmapped hwhole (by omega) (zeroFill s.state.memory address size)
      have hspace : size + 2 * ps ≤ abi.space :=
        hextended.mappedSize_le hps (List.mem_cons_self ..)
      have hup := alignUp_bounds abi (headerAligned abi) hpos (by omega)
      have hin : alignUp abi (headerAligned abi) alignment + bytes ≤ size := by omega
      have hsound := Sound.carve [] hextended hps hpos hpow hin
        (zeroFill (zeroFill s.state.memory address size)
          (address + alignUp abi (headerAligned abi) alignment) bytes)
      refine ⟨hsound, hfits, fun x hx => zeroFill_of_mem hx, ?_⟩
      intro g hg x hx
      refine (zeroFill_of_disjoint hx (hsound.newest hg)).trans ?_
      -- the block lies in a page that was mapped before
      obtain ⟨page, hpage, hsub⟩ := h.guaranteed.inside g hg
      refine zeroFill_of_disjoint (hsub hx) ?_
      obtain hbelow | habove := hmapped.apart page hpage
      · exact disjoint_of_le hbelow
      · exact (disjoint_of_le habove).symm
    · cases hresult

/-- A request that is refused changes nothing. -/
theorem metadataAllocate_none {state state' : State} {mapping : Option ℕ}
    (h : metadataAllocate abi ps bytes alignment state mapping = (state', none)) :
    state' = state := by
  simp only [metadataAllocate] at h
  split_ifs at h
  · exact (Prod.mk.inj h).1.symm
  split at h
  · cases h
  · split at h
    · cases h
    · exact (Prod.mk.inj h).1.symm

/-- **What a request is answered**: nothing, or a block that is new, aligned and zero. -/
theorem Sound.answered (h : Sound abi ps s) (hps : ∃ k, ps = 2 ^ k) {mapping : Option ℕ}
    (hproper : Proper abi ps s (.request bytes alignment mapping)) :
    Answered abi ps bytes alignment mapping s := by
  rcases heq : metadataAllocate abi ps bytes alignment s.state mapping with ⟨state, - | result⟩
  · obtain rfl := metadataAllocate_none heq
    constructor <;> rw [heq]
    · rintro _ ⟨⟩
    · exact fun _ _ _ _ => rfl
    · exact fun _ => rfl
  · obtain ⟨-, hfits, hzero, hkept⟩ := h.request hps hproper heq
    constructor <;> rw [heq]
    · rintro _ ⟨⟩
      exact hzero
    · exact hkept
    · exact fun hoverflow => absurd hoverflow hfits

theorem sound_invariant (hps : ∃ k, ps = 2 ^ k) :
    (allocator abi ps).Invariant (Proper abi ps) (Sound abi ps) where
  init s hi := by
    obtain ⟨⟨pages, memory⟩, given⟩ := s
    obtain ⟨rfl, rfl⟩ := hi
    exact ⟨.empty _, by simp, by simp⟩
  step s a s' h hP hs := by
    cases a with
    | request bytes alignment mapping =>
      simp only [allocator, Heap.step] at hs
      split at hs
      · rename_i state result heq
        obtain rfl := Option.some.inj hs
        exact (h.request hps hP heq).1
      · rename_i state heq
        obtain rfl := Option.some.inj hs
        obtain rfl := metadataAllocate_none heq
        exact h
    | store address value =>
      simp only [allocator, Heap.step] at hs
      split_ifs at hs
      obtain rfl := Option.some.inj hs
      exact ⟨h.tiled, h.pages, h.aligned⟩

/-- **The metadata allocator.**  After any requests, the blocks are aligned, disjoint, inside their
mappings and clear of the headers; and the next request gives a block of zeros and leaves the others
alone, or fails when its sizes overflow. -/
theorem metadataAllocate_sound (abi : Abi) (aux : ℕ) (s : Heap)
    (hr : (allocator abi (loaderPageSize aux)).Reach (Proper abi (loaderPageSize aux)) s) :
    Guaranteed abi s ∧ ∀ bytes alignment mapping,
      Proper abi (loaderPageSize aux) s (.request bytes alignment mapping) →
      Answered abi (loaderPageSize aux) bytes alignment mapping s := by
  have hps := loaderPageSize_eq aux
  have h := hr.invariant (sound_invariant hps)
  exact ⟨h.guaranteed, fun _ _ _ hproper => h.answered hps hproper⟩

/-- `Proper`, as a test. -/
def properly (abi : Abi) (ps : ℕ) (s : Heap) : Act → Bool
  | .request bytes alignment mapping => decide (alignment ≤ ps) &&
    (mappingSize abi ps bytes alignment).all fun size => mapping.all fun address =>
      decide (address % ps = 0 ∧ 0 < address ∧ address + size < abi.space) &&
      s.state.pages.all fun page =>
        address + size ≤ page.address || page.address + page.mappedSize ≤ address
  | .store _ _ => true

theorem proper_of_properly (s : Heap) (a : Act) (h : properly abi ps s a = true) :
    Proper abi ps s a := by
  cases a with
  | store => trivial
  | request bytes alignment mapping =>
    simp only [properly, Bool.and_eq_true, decide_eq_true_eq] at h
    refine ⟨h.1, ?_⟩
    intro size hsize address haddress
    simp only [hsize, haddress, Option.all_some, Bool.and_eq_true, decide_eq_true_eq,
      List.all_eq_true, Bool.or_eq_true] at h
    exact ⟨h.2.1.1, h.2.1.2.1, h.2.1.2.2, h.2.2⟩

/-- Two pages and three blocks, and a client that writes into the first. -/
theorem metadataAllocate_sound_sample : ∃ s : Heap, s.given.length = 3 ∧ s.state.pages.length = 2 ∧
    Guaranteed .lp64 s ∧ Answered .lp64 (loaderPageSize 16384) (2 ^ 64 - 40) 8 none s := by
  obtain ⟨s, hr, hs⟩ := Lts.exists_reach_of_guarded
    (M := allocator .lp64 (loaderPageSize 16384)) (g := properly .lp64 (loaderPageSize 16384))
    proper_of_properly (s := ⟨⟨[], fun _ => 7⟩, []⟩) ⟨rfl, rfl⟩
    [.request 100 16 (some 0x7000010000), .store 0x7000010021 5,
      .request 70000 4096 (some 0x7000100000), .request 5 1 none]
    (fun s => decide (s.given.length = 3) && decide (s.state.pages.length = 2))
    (by decide +kernel)
  simp only [Bool.and_eq_true, decide_eq_true_eq] at hs
  obtain ⟨hguaranteed, hanswered⟩ := metadataAllocate_sound .lp64 16384 s hr
  exact ⟨s, hs.1, hs.2, hguaranteed,
    hanswered _ _ _ (proper_of_properly s _ (by simp [properly]; decide))⟩

end YukiZygisk.Metadata
