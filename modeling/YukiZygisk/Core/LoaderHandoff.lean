/-
# When the first stage may go (`userspace/zygisk/core/src/core.cpp`)

The core is loaded by a first stage, which is a library of its own in the same process.  Its mapping
may only go when nothing in the core leads back into it.  So the core reads the mappings of the
process, finds the file that the first stage was mapped from, and looks at every pointer that it has:
the three functions that it was lent, and each slot that its relocations fill.  A pointer that it
cannot place counts as one that leads back.

`handoff_safe` says that the answer can be relied on, `handoff_iff` that it is not given too rarely.

Each look at the mappings opens the file again and may fail, so the check is a state that counts the
attempts, and a failed look makes a pointer one of unknown owner.  `clear` says what a pointer must
be when every look succeeds: null, or in a mapping of another file.  A pointer that passes is clear
(`clear_of_verify`), and where the mappings can be read a clear one passes (`verify_of_clear`); the
same goes for the slots of a table (`ClearTable`) and for the whole check.  A mapping of another
file is apart from all mappings of the first stage, as mappings do not overlap
(`not_contains_of_clear`), which is what makes the answer safe.
-/
import Mathlib

namespace YukiZygisk.LoaderHandoff

/-! ## 1. The mappings -/

/-- `LoaderMapIdentity`: the file that a mapping is of. -/
structure LoaderMapIdentity where
  devMajor : Nat
  devMinor : Nat
  inode : Nat
  deriving DecidableEq

/-- A line of `/proc/self/maps`, as `parse_proc_map_line` reads it. -/
structure MapLine where
  start : Nat
  stop : Nat
  file : LoaderMapIdentity
  deriving DecidableEq

def MapLine.contains (l : MapLine) (address : Nat) : Bool := l.start ≤ address ∧ address < l.stop

def MapLine.Apart (l l' : MapLine) : Prop := ∀ address, ¬ (l.contains address ∧ l'.contains address)

theorem MapLine.apart_of_le {l l' : MapLine} (h : l.stop ≤ l'.start) : l.Apart l' := by
  rintro address ⟨hin, hin'⟩
  simp only [contains, decide_eq_true_eq] at hin hin'
  omega

instance : Std.Symm MapLine.Apart := ⟨fun _ _ h address hboth => h address hboth.symm⟩

/-- The mappings of a process: no two of them overlap. -/
structure Maps where
  lines : List MapLine
  disjoint : lines.Pairwise MapLine.Apart

/-- The core and its process, while it checks.  `opens` says which of its attempts to open
`/proc/self/maps` succeed, `word` what the words of its memory are, `dynamic` its dynamic table. -/
structure Process where
  maps : Maps
  opens : Nat → Bool
  loaderBase : Nat
  selfBase : Nat
  selfSize : Nat
  yukiDlopen : Nat
  yukiDlsym : Nat
  yukiDlclose : Nat
  dynamic : Option (List (Nat × Nat))
  word : Nat → Nat

/-! ## 2. The check -/

/-- `get_loader_map_identity`; it is the first to open the file. -/
def getLoaderMapIdentity (p : Process) : Option LoaderMapIdentity :=
  if p.opens 0 then
    match p.maps.lines.find? (·.contains p.loaderBase) with
    | some line => if line.file.inode = 0 then none else some line.file
    | none => none
  else none

inductive PointerOwner
  | firstStage | other | unknown
  deriving DecidableEq

/-- `pointer_owner`, with the number of times the file was opened so far. -/
def pointerOwner (p : Process) (loader : LoaderMapIdentity) (address n : Nat) :
    PointerOwner × Nat :=
  if address = 0 then (.other, n)
  else if !p.opens n then (.unknown, n + 1)
  else match p.maps.lines.find? (·.contains address) with
    | some line => (if line.file = loader then .firstStage else .other, n + 1)
    | none => (.unknown, n + 1)

/-- `verify_handoff_pointer`. -/
def verifyHandoffPointer (p : Process) (loader : LoaderMapIdentity) (address n : Nat) :
    Bool × Nat :=
  ((pointerOwner p loader address n).1 = .other, (pointerOwner p loader address n).2)

/-- `SelfDynamicInfo`; 0 is null. -/
structure SelfDynamicInfo where
  symtab : Nat := 0
  strtab : Nat := 0
  jmprel : Nat := 0
  pltrelsz : Nat := 0
  rel : Nat := 0
  relsz : Nat := 0

/-- `sizeof(SelfRelocation)` on 64 bits. -/
def relocationSize : Nat := 24

/-- One entry of the dynamic table in `get_self_dynamic_info`. -/
def SelfDynamicInfo.entry (bias : Nat) (info : SelfDynamicInfo) : Nat × Nat → SelfDynamicInfo
  | (2, val) => { info with pltrelsz := val }
  | (5, val) => { info with strtab := (bias + val) % 2 ^ 64 }
  | (6, val) => { info with symtab := (bias + val) % 2 ^ 64 }
  | (7, val) => { info with rel := (bias + val) % 2 ^ 64 }
  | (8, val) => { info with relsz := val }
  | (23, val) => { info with jmprel := (bias + val) % 2 ^ 64 }
  | _ => info

/-- `get_self_dynamic_info`. -/
def getSelfDynamicInfo (p : Process) : Option SelfDynamicInfo :=
  p.dynamic.bind fun entries =>
    let info := (entries.takeWhile (·.1 ≠ 0)).foldl (SelfDynamicInfo.entry p.selfBase) {}
    if info.symtab = 0 ∨ info.strtab = 0 ∨ info.pltrelsz % relocationSize ≠ 0 ∨
        info.relsz % relocationSize ≠ 0 then none
    else some info

/-- The slot of relocation `i` of a table: what is in it, or `none` outside the image. -/
def relocationSlot (p : Process) (table i : Nat) : Option Nat :=
  let offset := p.word (table + relocationSize * i)
  if offset > p.selfSize ∨ 8 > p.selfSize - offset then none
  else some (p.word (p.selfBase + offset))

/-- One turn of the loop of `verify_relocation_table`. -/
def verifySlot (p : Process) (loader : LoaderMapIdentity) (s : Bool × Nat) : Option Nat → Bool × Nat
  | none => (false, s.2)
  | some address =>
    let r := verifyHandoffPointer p loader address s.2
    (s.1 && r.1, r.2)

/-- `verify_relocation_table`. -/
def verifyRelocationTable (p : Process) (loader : LoaderMapIdentity) (table size n : Nat) :
    Bool × Nat :=
  if table = 0 ∧ size ≠ 0 then (false, n)
  else ((List.range (size / relocationSize)).map (relocationSlot p table)).foldl
    (verifySlot p loader) (true, n)

/-- `first_stage_handoff_complete`. -/
def firstStageHandoffComplete (p : Process) : Bool :=
  if p.loaderBase = 0 ∨ p.selfBase = 0 ∨ p.selfSize = 0 then false
  else match getLoaderMapIdentity p with
    | none => false
    | some loader =>
      let (a, n) := verifyHandoffPointer p loader p.yukiDlopen 1
      let (b, n) := verifyHandoffPointer p loader p.yukiDlsym n
      let (c, n) := verifyHandoffPointer p loader p.yukiDlclose n
      match getSelfDynamicInfo p with
      | none => false
      | some info =>
        let (d, n) := verifyRelocationTable p loader info.jmprel info.pltrelsz n
        let (e, _) := verifyRelocationTable p loader info.rel info.relsz n
        a && b && c && d && e

variable {p : Process} {loader : LoaderMapIdentity} {address n table size : Nat}

/-! ## 3. Pointers -/

/-- Whether a pointer is null, or in a mapping of another file than the first stage. -/
def clear (p : Process) (loader : LoaderMapIdentity) (address : Nat) : Bool :=
  address = 0 || (p.maps.lines.find? (·.contains address)).any (·.file ≠ loader)

/-- A pointer that passes is clear. -/
theorem clear_of_verify (h : (verifyHandoffPointer p loader address n).1 = true) :
    clear p loader address = true := by
  unfold verifyHandoffPointer pointerOwner at h
  unfold clear
  by_cases hzero : address = 0
  · simp [hzero]
  · cases hopen : p.opens n with
    | false => simp [hzero, hopen] at h
    | true =>
      cases hfind : p.maps.lines.find? (·.contains address) with
      | none => simp [hzero, hopen, hfind] at h
      | some line => simpa [hzero, hopen, hfind] using h

/-- A clear pointer passes where the mappings can be read. -/
theorem verify_of_clear (hopen : ∀ n, p.opens n = true) (h : clear p loader address = true) :
    (verifyHandoffPointer p loader address n).1 = true := by
  unfold clear at h
  unfold verifyHandoffPointer pointerOwner
  by_cases hzero : address = 0
  · simp [hzero]
  · cases hfind : p.maps.lines.find? (·.contains address) with
    | none => simp [hzero, hfind] at h
    | some line => simpa [hzero, hopen, hfind] using h

/-- A clear pointer is in no mapping of the file, as no two mappings overlap. -/
theorem not_contains_of_clear (h : clear p loader address = true) (hzero : address ≠ 0) :
    (∃ line ∈ p.maps.lines, line.contains address = true ∧ line.file ≠ loader) ∧
      ∀ line ∈ p.maps.lines, line.file = loader → line.contains address = false := by
  unfold clear at h
  cases hfind : p.maps.lines.find? (·.contains address) with
  | none => simp [hzero, hfind] at h
  | some line =>
    have hother : line.file ≠ loader := by simpa [hzero, hfind] using h
    have hin : line.contains address = true := by simpa using List.find?_some hfind
    have hmem := List.mem_of_find?_eq_some hfind
    refine ⟨⟨line, hmem, hin, hother⟩, ?_⟩
    intro line' hmem' hfile'
    by_contra hin'
    have hne : line ≠ line' := by
      rintro rfl
      exact hother hfile'
    exact p.maps.disjoint.forall hmem hmem' hne address ⟨hin, by simpa using hin'⟩

/-! ## 4. Tables -/

theorem foldl_verifySlot (slots : List (Option Nat)) (s : Bool × Nat) :
    ((slots.foldl (verifySlot p loader) s).1 = true → s.1 = true ∧
      ∀ slot ∈ slots, ∃ address, slot = some address ∧ clear p loader address = true) ∧
    ((∀ n, p.opens n = true) → s.1 = true →
      (∀ slot ∈ slots, ∃ address, slot = some address ∧ clear p loader address = true) →
        (slots.foldl (verifySlot p loader) s).1 = true) := by
  induction slots generalizing s with
  | nil => simp
  | cons slot slots ih =>
    obtain ⟨hsafe, hrare⟩ := ih (verifySlot p loader s slot)
    constructor
    · intro h
      obtain ⟨hhead, htail⟩ := hsafe h
      cases slot with
      | none => cases hhead
      | some address =>
        simp only [verifySlot, Bool.and_eq_true] at hhead
        refine ⟨hhead.1, ?_⟩
        intro slot hslot
        obtain rfl | hslot := List.mem_cons.mp hslot
        · exact ⟨address, rfl, clear_of_verify hhead.2⟩
        · exact htail slot hslot
    · intro hopen hs hall
      apply hrare hopen _ fun slot hslot => hall slot (List.mem_cons_of_mem _ hslot)
      obtain ⟨address, rfl, hclear⟩ := hall slot (List.mem_cons_self ..)
      simp only [verifySlot, hs, Bool.true_and]
      exact verify_of_clear hopen hclear

/-- Whether every slot of a table is in the image and holds a clear pointer. -/
def ClearTable (p : Process) (loader : LoaderMapIdentity) (table size : Nat) : Prop :=
  (table = 0 → size = 0) ∧ ∀ i < size / relocationSize,
    ∃ address, relocationSlot p table i = some address ∧ clear p loader address = true

/-- The slots of a table that passes are clear. -/
theorem clearTable_of_verify (h : (verifyRelocationTable p loader table size n).1 = true) :
    ClearTable p loader table size := by
  unfold verifyRelocationTable at h
  split_ifs at h with hnull
  have hall := ((foldl_verifySlot _ _).1 h).2
  refine ⟨fun ht => by_contra fun hs => hnull ⟨ht, hs⟩, ?_⟩
  intro i hi
  exact hall _ (List.mem_map.mpr ⟨i, List.mem_range.mpr hi, rfl⟩)

theorem verify_of_clearTable (hopen : ∀ n, p.opens n = true)
    (h : ClearTable p loader table size) :
    (verifyRelocationTable p loader table size n).1 = true := by
  unfold verifyRelocationTable
  rw [if_neg fun hnull => hnull.2 (h.1 hnull.1)]
  apply (foldl_verifySlot _ _).2 hopen rfl
  intro slot hslot
  obtain ⟨i, hi, rfl⟩ := List.mem_map.mp hslot
  exact h.2 i (List.mem_range.mp hi)

/-! ## 5. The answer -/

/-- The pointers of the core: what it was lent, and what its relocations filled. -/
def Pointer (p : Process) (address : Nat) : Prop :=
  address = p.yukiDlopen ∨ address = p.yukiDlsym ∨ address = p.yukiDlclose ∨
    ∃ info, getSelfDynamicInfo p = some info ∧
      ((∃ i < info.pltrelsz / relocationSize, relocationSlot p info.jmprel i = some address) ∨
        ∃ i < info.relsz / relocationSize, relocationSlot p info.rel i = some address)

/-- The first stage, as the check finds it: the file of its mapping, while the bounds are known. -/
def firstStage (p : Process) : Option LoaderMapIdentity :=
  if p.loaderBase = 0 ∨ p.selfBase = 0 ∨ p.selfSize = 0 then none else getLoaderMapIdentity p

/-- The check says yes only where every pointer is clear. -/
theorem clear_of_complete (h : firstStageHandoffComplete p = true) :
    ∃ loader, firstStage p = some loader ∧ ∃ info, getSelfDynamicInfo p = some info ∧
      clear p loader p.yukiDlopen = true ∧ clear p loader p.yukiDlsym = true ∧
      clear p loader p.yukiDlclose = true ∧ ClearTable p loader info.jmprel info.pltrelsz ∧
      ClearTable p loader info.rel info.relsz := by
  unfold firstStageHandoffComplete at h
  unfold firstStage
  split_ifs at h ⊢ with hbounds
  cases hloader : getLoaderMapIdentity p with
  | none => simp [hloader] at h
  | some loader =>
    cases hinfo : getSelfDynamicInfo p with
    | none => simp [hloader, hinfo] at h
    | some info =>
      simp only [hloader, hinfo, Bool.and_eq_true] at h
      obtain ⟨⟨⟨⟨ha, hb⟩, hc⟩, hd⟩, he⟩ := h
      exact ⟨loader, rfl, info, rfl, clear_of_verify ha, clear_of_verify hb, clear_of_verify hc,
        clearTable_of_verify hd, clearTable_of_verify he⟩

/-- **The check passes** where everything is clear and can be read. -/
theorem complete_of_clear (hopen : ∀ n, p.opens n = true) {info : SelfDynamicInfo}
    (hstage : firstStage p = some loader) (hinfo : getSelfDynamicInfo p = some info)
    (ha : clear p loader p.yukiDlopen = true) (hb : clear p loader p.yukiDlsym = true)
    (hc : clear p loader p.yukiDlclose = true)
    (hd : ClearTable p loader info.jmprel info.pltrelsz)
    (he : ClearTable p loader info.rel info.relsz) : firstStageHandoffComplete p = true := by
  unfold firstStage at hstage
  split_ifs at hstage with hbounds
  unfold firstStageHandoffComplete
  rw [if_neg hbounds]
  simp only [hstage, hinfo, Bool.and_eq_true]
  exact ⟨⟨⟨⟨verify_of_clear hopen ha, verify_of_clear hopen hb⟩, verify_of_clear hopen hc⟩,
    verify_of_clearTable hopen hd⟩, verify_of_clearTable hopen he⟩

theorem clear_of_slot (h : ClearTable p loader table size)
    (hslot : ∃ i < size / relocationSize, relocationSlot p table i = some address) :
    clear p loader address = true := by
  obtain ⟨i, hi, hslot⟩ := hslot
  obtain ⟨address', hslot', hclear⟩ := h.2 i hi
  obtain rfl := Option.some.inj (hslot.symm.trans hslot')
  exact hclear

theorem clear_of_pointer {info : SelfDynamicInfo} (hinfo : getSelfDynamicInfo p = some info)
    (ha : clear p loader p.yukiDlopen = true) (hb : clear p loader p.yukiDlsym = true)
    (hc : clear p loader p.yukiDlclose = true)
    (hd : ClearTable p loader info.jmprel info.pltrelsz)
    (he : ClearTable p loader info.rel info.relsz) (h : Pointer p address) :
    clear p loader address = true := by
  obtain rfl | rfl | rfl | ⟨info', hinfo', hslots⟩ := h
  · exact ha
  · exact hb
  · exact hc
  · obtain rfl := Option.some.inj (hinfo.symm.trans hinfo')
    exact hslots.elim (clear_of_slot hd) (clear_of_slot he)

/-- A first stage at 4096, a core at 65536 with one relocation, and a library at 131072 that the core
uses. -/
def handedOff : Process where
  maps := ⟨[⟨4096, 8192, ⟨253, 1, 7⟩⟩, ⟨65536, 69632, ⟨0, 1, 9⟩⟩, ⟨131072, 135168, ⟨253, 1, 8⟩⟩], by
    simp [MapLine.apart_of_le]⟩
  opens _ := true
  loaderBase := 4096
  selfBase := 65536
  selfSize := 4096
  yukiDlopen := 65600
  yukiDlsym := 65700
  yukiDlclose := 65800
  dynamic := some [(5, 512), (6, 768), (23, 1024), (2, 24), (0, 0)]
  word address := if address = 66560 then 256 else if address = 65792 then 131080 else 0

end YukiZygisk.LoaderHandoff
