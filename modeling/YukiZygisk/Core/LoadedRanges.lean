/-
# The ranges of a loaded object (`collect_loaded_object`, `normalize_loaded_ranges`)

Before the mappings of a library are replaced by anonymous ones, their ranges are collected from its
program headers: the pages of what each load segment has in the file, split where the RELRO range
begins and ends so that its pages are not reported writable.  The pieces are sorted and swept into
disjoint ranges, those that touch with one protection merged.

The array has room for 64 pieces, and **what does not fit is left out** (`not_rangesExact`).
`loadedRanges_spec`: the ranges are sorted and disjoint, none that is writable has a page of the RELRO
range, and they are exactly the pages of the segments when the pieces fit.

The pieces of a segment are its pages cut at the ends of the RELRO range (`split_spec`), each with
its protection, so no writable piece has a page of that range.  The array of 64 is a prefix of the
pieces of all segments (`collect_eq`).  Sorting keeps the pieces, whatever order it gives to pieces
with one start, and the sweep of `Lib/Sweep` keeps their union and makes them disjoint.  A segment
whose pages would not all be pages of the address space is passed over, which is what `addressable`
says.
-/
import YukiZygisk.Lib.Sweep
import YukiZygisk.Linker.Protections

namespace YukiZygisk.LoadedRanges

open Sweep (Interval sweep union)
open Mapping

/-! ## 1. Collecting -/

/-- `struct MapRange`. -/
abbrev MapRange := Interval ℕ Protection

/-- `dl_phdr_info`: where the object is loaded, and its program headers. -/
structure DlPhdrInfo (abi : Abi) where
  addr : ℕ
  phdr : List Phdr
  addr_le : addr ≤ abi.max

/-- `add_loaded_range`. -/
def addLoadedRange (ranges : List MapRange) (start stop : ℕ) (prot : Protection) : List MapRange :=
  if ranges.length ≥ 64 ∨ stop ≤ start then ranges else ranges ++ [⟨start, stop, prot⟩]

section
variable {abi : Abi} (pg : ℕ) (info : DlPhdrInfo abi)

/-- The first loop of `collect_loaded_object`: a load segment has the address. -/
def contains (address : ℕ) : Bool := info.phdr.any fun ph =>
  ph.type = ptLoad && !(abi.max - info.addr < ph.vaddr) &&
    let start := info.addr + ph.vaddr
    !(abi.max - start < ph.memsz) && start ≤ address && address < start + ph.memsz

/-- The pages of the bytes at a header's address, unless they do not fit.  The page size is a power of
two, so that the masks of `page_down` and `page_up` keep whole pages. -/
def pagesOf (ph : Phdr) (size : ℕ) : Option (ℕ × ℕ) :=
  if abi.max - info.addr < ph.vaddr then none
  else
    let start := info.addr + ph.vaddr
    if abi.max - start < size ∨ abi.max - (pg - 1) < start + size then none
    else some (pageFloor pg start, pageFloor pg (start + size + pg - 1))

/-- `relro_start` and `relro_end`, from the first header that has them. -/
def relroRange : ℕ × ℕ :=
  (info.phdr.findSome? fun ph =>
    if ph.type = ptGnuRelro then pagesOf pg info ph ph.memsz else none).getD (0, 0)

/-- A turn of the last loop of `collect_loaded_object`. -/
def addSegment (ranges : List MapRange) (ph : Phdr) : List MapRange :=
  if ph.type ≠ ptLoad ∨ ph.filesz = 0 then ranges
  else
    match pagesOf pg info ph ph.filesz with
    | none => ranges
    | some (start, stop) =>
      let prot := protectionFor ph.flags
      let relro := relroRange pg info
      let protectedStart := max start relro.1
      let protectedStop := min stop relro.2
      if relro.2 ≤ relro.1 ∨ protectedStop ≤ protectedStart then
        addLoadedRange ranges start stop prot
      else
        let ranges := addLoadedRange ranges start protectedStart prot
        let ranges := addLoadedRange ranges protectedStart protectedStop { prot with write := false }
        addLoadedRange ranges protectedStop stop prot

/-- `collect_loaded_object` on the object, if it has the address. -/
def collectLoadedObject (address : ℕ) : Option (List MapRange) :=
  if pg = 0 then none
  else if !contains info address then none
  else some (info.phdr.foldl (addSegment pg info) [])

end

/-! ## 2. Normalising -/

/-- The comparison of `normalize_loaded_ranges`. -/
def before (a b : MapRange) : Bool := a.start < b.start || (a.start = b.start && a.stop < b.stop)

/-- `std::sort` with that comparison, which may put what it does not tell apart in any order. -/
structure Sorting where
  sort : List MapRange → List MapRange
  perm : ∀ l, (sort l).Perm l
  sorted : ∀ l, (sort l).Pairwise fun a b => before b a = false

/-- `normalize_loaded_ranges`.  The loop writes no further than it has read. -/
def normalizeLoadedRanges (sorting : Sorting) (ranges : List MapRange) : List MapRange :=
  sweep (sorting.sort ranges)

/-- A stable sort. -/
def stableSorting : Sorting where
  sort l := l.mergeSort fun a b => !before b a
  perm l := List.mergeSort_perm l _
  sorted l := by
    have h : (l.mergeSort fun a b => !before b a).Pairwise fun a b => (!before b a) = true :=
      List.pairwise_mergeSort (fun a b c hab hbc => by simp [before] at *; omega)
        (fun a b => by simp [before]; omega) l
    simpa using h

/-! ## 3. The pieces of a segment -/

/-- One piece, if it has a page. -/
def piece (start stop : ℕ) (prot : Protection) : List MapRange :=
  if stop ≤ start then [] else [⟨start, stop, prot⟩]

section
variable {abi : Abi} {pg : ℕ} {info : DlPhdrInfo abi} {ph : Phdr} {size start stop : ℕ}
  {prot : Protection}

@[simp] theorem union_piece : union (piece start stop prot) = Set.Ico start stop := by
  rw [piece]
  split_ifs with h
  · rw [Sweep.union_nil, Set.Ico_eq_empty (not_lt.mpr h)]
  · rw [Sweep.union_cons, Sweep.union_nil, Set.union_empty]
    rfl

theorem addLoadedRange_take (l : List MapRange) (start stop : ℕ) (prot : Protection) :
    addLoadedRange (l.take 64) start stop prot = (l ++ piece start stop prot).take 64 := by
  rw [addLoadedRange, piece, List.length_take]
  by_cases hempty : stop ≤ start
  · rw [if_pos (.inr hempty), if_pos hempty, List.append_nil]
  · rw [if_neg hempty]
    by_cases hfull : 64 ≤ l.length
    · rw [if_pos (.inl (by omega)), List.take_append_of_le_length hfull]
    · rw [if_neg (by omega), List.take_of_length_le (by omega), List.take_of_length_le]
      simp only [List.length_append, List.length_singleton]
      omega

/-- The pieces that a segment is split into. -/
def piecesOf (pg : ℕ) (info : DlPhdrInfo abi) (ph : Phdr) : List MapRange :=
  if ph.type ≠ ptLoad ∨ ph.filesz = 0 then []
  else
    match pagesOf pg info ph ph.filesz with
    | none => []
    | some (start, stop) =>
      let prot := protectionFor ph.flags
      let relro := relroRange pg info
      let protectedStart := max start relro.1
      let protectedStop := min stop relro.2
      if relro.2 ≤ relro.1 ∨ protectedStop ≤ protectedStart then piece start stop prot
      else piece start protectedStart prot ++
        piece protectedStart protectedStop { prot with write := false } ++
        piece protectedStop stop prot

/-- The pieces of all segments. -/
def pieces (pg : ℕ) (info : DlPhdrInfo abi) : List MapRange := info.phdr.flatMap (piecesOf pg info)

theorem addSegment_take (l : List MapRange) (ph : Phdr) :
    addSegment pg info (l.take 64) ph = (l ++ piecesOf pg info ph).take 64 := by
  simp only [addSegment, piecesOf]
  split_ifs
  · rw [List.append_nil]
  · rcases pagesOf pg info ph ph.filesz with - | ⟨start, stop⟩
    · rw [List.append_nil]
    · dsimp only
      split_ifs
      · rw [addLoadedRange_take]
      · rw [addLoadedRange_take, addLoadedRange_take, addLoadedRange_take, List.append_assoc,
          List.append_assoc, List.append_assoc]

theorem foldl_addSegment (pg : ℕ) (info : DlPhdrInfo abi) (phs : List Phdr) (l : List MapRange) :
    phs.foldl (addSegment pg info) (l.take 64) = (l ++ phs.flatMap (piecesOf pg info)).take 64 := by
  induction phs generalizing l with
  | nil => rw [List.foldl_nil, List.flatMap_nil, List.append_nil]
  | cons ph phs ih =>
    rw [List.foldl_cons, addSegment_take, ih, List.flatMap_cons, List.append_assoc]

/-- **What is collected** is the first 64 pieces. -/
theorem collect_eq {address : ℕ} {ranges : List MapRange}
    (h : collectLoadedObject pg info address = some ranges) :
    0 < pg ∧ ranges = (pieces pg info).take 64 := by
  simp only [collectLoadedObject] at h
  split_ifs at h with hpg
  obtain rfl := Option.some.inj h
  refine ⟨Nat.pos_of_ne_zero hpg, ?_⟩
  have hfold := foldl_addSegment pg info info.phdr []
  rwa [List.take_nil, List.nil_append] at hfold

/-! ## 4. The pages of the segments -/

/-- The pages of the bytes are pages of the address space. -/
def Rounds (pg : ℕ) (info : DlPhdrInfo abi) (ph : Phdr) (size : ℕ) : Prop :=
  info.addr + ph.vaddr + size + (pg - 1) ≤ abi.max

instance (pg : ℕ) (info : DlPhdrInfo abi) (ph : Phdr) (size : ℕ) :
    Decidable (Rounds pg info ph size) := Nat.decLe _ _

/-- The addresses of the pages of the bytes at a header's address. -/
def pagesAt (pg : ℕ) (info : DlPhdrInfo abi) (ph : Phdr) (size : ℕ) : Set ℕ :=
  Set.Ico (pageFloor pg (info.addr + ph.vaddr)) (pageFloor pg (info.addr + ph.vaddr + size + pg - 1))

/-- What the load segments have in the file, in whole pages. -/
def fileBacked (pg : ℕ) (info : DlPhdrInfo abi) : Set ℕ :=
  {x | ∃ ph ∈ info.phdr, ph.type = ptLoad ∧ ph.filesz ≠ 0 ∧ x ∈ pagesAt pg info ph ph.filesz}

/-- The same of the segments whose pages are pages of the address space. -/
def addressable (pg : ℕ) (info : DlPhdrInfo abi) : Set ℕ :=
  {x | ∃ ph ∈ info.phdr, ph.type = ptLoad ∧ ph.filesz ≠ 0 ∧ Rounds pg info ph ph.filesz ∧
    x ∈ pagesAt pg info ph ph.filesz}

/-- The RELRO range: the pages of the first RELRO header that has them. -/
def relro (pg : ℕ) (info : DlPhdrInfo abi) : Set ℕ :=
  {x | ∃ ph, info.phdr.find? (fun ph => ph.type = ptGnuRelro ∧ Rounds pg info ph ph.memsz) = some ph ∧
    x ∈ pagesAt pg info ph ph.memsz}

theorem pagesOf_eq (hmax : pg ≤ abi.max) (info : DlPhdrInfo abi) (ph : Phdr) (size : ℕ) :
    pagesOf pg info ph size = if Rounds pg info ph size then
      some (pageFloor pg (info.addr + ph.vaddr),
        pageFloor pg (info.addr + ph.vaddr + size + pg - 1)) else none := by
  have haddr := info.addr_le
  have hguards : Rounds pg info ph size ↔ ¬ abi.max - info.addr < ph.vaddr ∧
      ¬ (abi.max - (info.addr + ph.vaddr) < size ∨
        abi.max - (pg - 1) < info.addr + ph.vaddr + size) := by
    unfold Rounds
    omega
  by_cases hrounds : Rounds pg info ph size
  · obtain ⟨hfar, hend⟩ := hguards.mp hrounds
    rw [if_pos hrounds, pagesOf, if_neg hfar]
    exact if_neg hend
  · rw [if_neg hrounds, pagesOf]
    split_ifs with hfar
    · rfl
    · exact if_pos (by_contra fun hend => hrounds (hguards.mpr ⟨hfar, hend⟩))

/-- The pages of the RELRO range. -/
theorem relroRange_eq (hmax : pg ≤ abi.max) (info : DlPhdrInfo abi) :
    Set.Ico (relroRange pg info).1 (relroRange pg info).2 = relro pg info := by
  have hsome : (info.phdr.findSome? fun ph =>
      if ph.type = ptGnuRelro then pagesOf pg info ph ph.memsz else none) =
      (info.phdr.find? (fun ph => ph.type = ptGnuRelro ∧ Rounds pg info ph ph.memsz)).map fun ph =>
        (pageFloor pg (info.addr + ph.vaddr),
          pageFloor pg (info.addr + ph.vaddr + ph.memsz + pg - 1)) := by
    induction info.phdr with
    | nil => rfl
    | cons ph phs ih =>
      rw [List.findSome?_cons, List.find?_cons, pagesOf_eq hmax]
      by_cases htype : ph.type = ptGnuRelro
      · by_cases hrounds : Rounds pg info ph ph.memsz
        · simp [htype, hrounds]
        · simp only [htype, hrounds, if_true, if_false, and_false, decide_false]
          exact ih
      · simp only [htype, if_false, false_and, decide_false]
        exact ih
  rw [relroRange, hsome, relro]
  generalize info.phdr.find? (fun ph => ph.type = ptGnuRelro ∧ Rounds pg info ph ph.memsz) = found
  ext x
  cases found with
  | none => simp
  | some ph => simp [pagesAt]

/-- What is left of a writable piece after the split has no page of the RELRO range. -/
theorem disjoint_of_mem_piece {r : MapRange} {t : Set ℕ} (hr : r ∈ piece start stop prot)
    (h : Disjoint (Set.Ico start stop) t) : Disjoint r.range t := by
  have hsub : r.range ⊆ union (piece start stop prot) := fun x hx => ⟨r, hr, hx⟩
  exact h.mono_left (hsub.trans union_piece.subset)

theorem tag_of_mem_piece {r : MapRange} (hr : r ∈ piece start stop prot) : r.tag = prot := by
  rw [piece] at hr
  split_ifs at hr
  · cases hr
  · rw [List.mem_singleton.mp hr]

/-- **A range that is split** where another begins and ends. -/
theorem split_spec (prot : Protection) {low high : ℕ} (hpart : ¬ (high ≤ low ∨ min stop high ≤ max start low)) :
    (∀ x, x ∈ union (piece start (max start low) prot ++
        piece (max start low) (min stop high) { prot with write := false } ++
        piece (min stop high) stop prot) ↔ x ∈ Set.Ico start stop) ∧
    ∀ r ∈ piece start (max start low) prot ++
        piece (max start low) (min stop high) { prot with write := false } ++
        piece (min stop high) stop prot,
      r.tag.write = true → Disjoint r.range (Set.Ico low high) := by
  constructor
  · intro x
    simp only [Sweep.union_append, union_piece, Set.mem_union, Set.mem_Ico]
    omega
  · intro r hr hwrite
    simp only [List.mem_append] at hr
    rcases hr with (hr | hr) | hr
    · apply disjoint_of_mem_piece hr
      rw [Set.Ico_disjoint_Ico]
      omega
    · rw [tag_of_mem_piece hr] at hwrite
      cases hwrite
    · apply disjoint_of_mem_piece hr
      rw [Set.Ico_disjoint_Ico]
      omega

/-- **The pieces of a segment** are its pages, and none that is writable has a page of the RELRO
range. -/
theorem piecesOf_spec (hmax : pg ≤ abi.max) (info : DlPhdrInfo abi) (ph : Phdr) :
    (∀ x, x ∈ union (piecesOf pg info ph) ↔ ph.type = ptLoad ∧ ph.filesz ≠ 0 ∧
      Rounds pg info ph ph.filesz ∧ x ∈ pagesAt pg info ph ph.filesz) ∧
    ∀ r ∈ piecesOf pg info ph, r.tag.write = true → Disjoint r.range (relro pg info) := by
  rw [← relroRange_eq hmax]
  simp only [piecesOf]
  split_ifs with hskip
  · constructor
    · intro x
      rw [Sweep.union_nil]
      apply iff_of_false (Set.notMem_empty x)
      rintro ⟨htype, hsize, -⟩
      exact hskip.elim (fun h => h htype) hsize
    · intro r hr
      cases hr
  · obtain ⟨htype, hsize⟩ := not_or.mp hskip
    rw [pagesOf_eq hmax]
    by_cases hrounds : Rounds pg info ph ph.filesz
    · have hiff : ∀ x, x ∈ pagesAt pg info ph ph.filesz ↔ ph.type = ptLoad ∧ ph.filesz ≠ 0 ∧
          Rounds pg info ph ph.filesz ∧ x ∈ pagesAt pg info ph ph.filesz := fun x =>
        ⟨fun hx => ⟨not_not.mp htype, hsize, hrounds, hx⟩, fun hx => hx.2.2.2⟩
      rw [if_pos hrounds]
      dsimp only
      split_ifs with hwhole
      · constructor
        · intro x
          rw [union_piece]
          exact hiff x
        · intro r hr _
          apply disjoint_of_mem_piece hr
          rw [Set.Ico_disjoint_Ico]
          omega
      · obtain ⟨hunion, hwrite⟩ := split_spec (protectionFor ph.flags) hwhole
        exact ⟨fun x => (hunion x).trans (hiff x), hwrite⟩
    · rw [if_neg hrounds]
      constructor
      · intro x
        rw [Sweep.union_nil]
        exact iff_of_false (Set.notMem_empty x) fun h => hrounds h.2.2.1
      · intro r hr
        cases hr

/-! ## 5. The normalised ranges -/

/-- The ranges are in order and disjoint, and none that is writable has a page of the RELRO range. -/
structure Normalized (pg : ℕ) (info : DlPhdrInfo abi) (ranges : List MapRange) : Prop where
  nonempty : ∀ r ∈ ranges, r.start < r.stop
  sorted : ranges.Pairwise fun a b => a.stop ≤ b.start
  relro : ∀ r ∈ ranges, r.tag.write = true → Disjoint r.range (relro pg info)

/-- **The ranges are those of the file**: normalised, they are the pages of what the load segments
have in it. -/
def RangesExact (sorting : Sorting) (pg : ℕ) (info : DlPhdrInfo abi) (address : ℕ) : Prop :=
  ∀ ranges, collectLoadedObject pg info address = some ranges →
    Normalized pg info (normalizeLoadedRanges sorting ranges) ∧
      union (normalizeLoadedRanges sorting ranges) = fileBacked pg info

/-- Normalising keeps the union. -/
theorem union_normalize (sorting : Sorting) (ranges : List MapRange) :
    union (normalizeLoadedRanges sorting ranges) = union ranges := by
  rw [normalizeLoadedRanges, Sweep.union_sweep]
  · exact Sweep.union_congr fun r => (sorting.perm ranges).mem_iff
  · refine (sorting.sorted ranges).imp fun {a b} h => ?_
    simp only [before, Bool.or_eq_false_iff, decide_eq_false_iff_not] at h
    exact not_lt.mp h.1

/-- **The pieces are the pages of the segments.** -/
theorem mem_union_pieces (hmax : pg ≤ abi.max) {x : ℕ} :
    x ∈ union (pieces pg info) ↔ x ∈ addressable pg info := by
  have hflat : x ∈ union (pieces pg info) ↔ ∃ ph ∈ info.phdr, x ∈ union (piecesOf pg info ph) := by
    simp only [union, pieces, List.mem_flatMap, Set.mem_ofPred_eq]
    constructor
    · rintro ⟨r, ⟨ph, hph, hr⟩, hx⟩
      exact ⟨ph, hph, r, hr, hx⟩
    · rintro ⟨ph, hph, r, hr, hx⟩
      exact ⟨r, ⟨ph, hph, hr⟩, hx⟩
  rw [hflat]
  exact exists_congr fun ph => and_congr_right fun _ => (piecesOf_spec hmax info ph).1 x

/-- **The ranges of a loaded object** are in order and disjoint, no page of the RELRO range is
writable, and they are the pages of the segments if there are at most 64 pieces, and some of them
otherwise. -/
theorem loadedRanges_spec (sorting : Sorting) (hmax : pg ≤ abi.max) {address : ℕ}
    {ranges : List MapRange} (h : collectLoadedObject pg info address = some ranges) :
    Normalized pg info (normalizeLoadedRanges sorting ranges) ∧
      union (normalizeLoadedRanges sorting ranges) ⊆ addressable pg info ∧
      ((pieces pg info).length ≤ 64 →
        union (normalizeLoadedRanges sorting ranges) = addressable pg info) := by
  obtain rfl := (collect_eq h).2
  have hrelro : ∀ r ∈ normalizeLoadedRanges sorting ((pieces pg info).take 64),
      r.tag.write = true → Disjoint r.range (relro pg info) := by
    intro r hr hwrite
    rw [Set.disjoint_left]
    intro x hx
    -- a point of the range has its protection from a piece
    obtain ⟨r', hr', hx', htag⟩ := Sweep.tag_sweep _ r hr x hx
    have hpiece : r' ∈ pieces pg info := List.mem_of_mem_take ((sorting.perm _).mem_iff.mp hr')
    obtain ⟨ph, -, hph⟩ := List.mem_flatMap.mp hpiece
    have hdisjoint := (piecesOf_spec hmax info ph).2 r' hph (htag ▸ hwrite)
    exact Set.disjoint_left.mp hdisjoint hx'
  refine ⟨⟨Sweep.nonempty_sweep _, Sweep.pairwise_sweep _, hrelro⟩, ?_, ?_⟩
  · intro x hx
    rw [union_normalize] at hx
    obtain ⟨r, hr, hx⟩ := hx
    exact (mem_union_pieces hmax).mp ⟨r, List.mem_of_mem_take hr, hx⟩
  · intro hfit
    rw [union_normalize, List.take_of_length_le hfit]
    ext x
    exact mem_union_pieces hmax

end

/-- A read-only segment, and a writable one of three pages with a RELRO range in the middle. -/
def relroInside : DlPhdrInfo .lp64 where
  addr := 0x7000000000
  phdr := [⟨1, 5, 0, 0, 0x1234, 0x1234, 0x1000⟩, ⟨1, 6, 0x2000, 0x2000, 0x2800, 0x3000, 0x1000⟩,
    ⟨0x6474e552, 4, 0x3000, 0x3000, 0x1000, 0x1000, 1⟩]
  addr_le := by decide

theorem loadedRanges_spec_sample : ∃ ranges, ranges.length = 4 ∧
    Normalized 4096 relroInside (normalizeLoadedRanges stableSorting ranges) ∧
    union (normalizeLoadedRanges stableSorting ranges) = addressable 4096 relroInside := by
  obtain ⟨ranges, hranges, hcount⟩ := (Option.any_eq_true _ _).mp (show
    ((collectLoadedObject 4096 relroInside 0x7000000000).any fun r => decide (r.length = 4)) = true by
      decide +kernel)
  obtain ⟨hnormalized, -, hexact⟩ := loadedRanges_spec stableSorting (by decide) hranges
  exact ⟨ranges, of_decide_eq_true hcount, hnormalized, hexact (by decide +kernel)⟩

/-- 65 segments of one page, with a page between each two. -/
def crowded : DlPhdrInfo .lp64 where
  addr := 0x7000000000
  phdr := (List.range 65).map fun i => ⟨1, 4, 0, i * 0x2000, 1, 1, 1⟩
  addr_le := by decide

/-- **The last of 65 segments is left out.** -/
theorem not_rangesExact : ¬ RangesExact stableSorting 4096 crowded crowded.addr := by
  intro h
  obtain ⟨ranges, hranges, hout⟩ := (Option.any_eq_true _ _).mp (show
    ((collectLoadedObject 4096 crowded crowded.addr).any fun ranges =>
      ranges.all fun r => !(r.start ≤ 0x7000080000 && 0x7000080000 < r.stop)) = true by
      decide +kernel)
  have hunion := (h ranges hranges).2
  rw [union_normalize] at hunion
  have hin : 0x7000080000 ∈ fileBacked 4096 crowded :=
    ⟨⟨1, 4, 0, 64 * 0x2000, 1, 1, 1⟩, List.mem_map.mpr ⟨64, by decide, rfl⟩, rfl, by decide,
      by decide, by decide⟩
  obtain ⟨r, hr, hx⟩ := hunion.symm.subset hin
  have hfalse := List.all_eq_true.mp hout r hr
  simp only [Bool.not_eq_true', Bool.and_eq_false_iff, decide_eq_false_iff_not] at hfalse
  exact hfalse.elim (fun hstart => hstart hx.1) fun hstop => hstop hx.2

end YukiZygisk.LoadedRanges
