/-
# Relocating an image (`zygisk/core/src/yukilinker.cpp`)

The relocation passes go through the RELR table, the REL or RELA table and the PLT table of an
image, and write one word for each entry; RELR words with the low bit set stand for runs of words.
The tables are in the image, so a relocation may change the entries after it.  Every destination
is checked by `runtime_pointer`, for ONE word.

A TLS descriptor has two words.  When the first one is the last word of the reservation, the
second one is written past its end (`not_contained`).  No other relocation writes outside:
`contained_iff`.

The passes are the library's (`Lib/Passes`), and so is the rule that every write of a pass is inside
when every write of each step that it reaches is (`forall_writes_of_step`).  For one step the
argument is by the kind of relocation: each computes its destination through `runtime_pointer`, and
a destination that passes has room for one word (`destination_inside`).  For a descriptor that
leaves the second word, and so it is inside exactly when the first one is not the last of the
reservation (`inside_descriptor`).  Since the entries are read from the memory that the pass is
writing to, the condition of `contained_iff` is about the descriptors that the pass reaches, as it
reads them.
-/
import Mathlib
import YukiZygisk.Lib.Passes

namespace YukiZygisk.Relocation

open Passes (Outcome pass reached)

/-! ## 1. The image and its memory -/

/-- The two builds of the linker. -/
inductive Arch where
  | aarch64
  | arm
  deriving DecidableEq

/-- `sizeof(ElfW(Addr))`. -/
def Arch.wordBytes : Arch → Nat
  | .aarch64 => 8
  | .arm => 4

/-- `UINTPTR_MAX` and `SIZE_MAX`. -/
def Arch.wordMax (a : Arch) : Nat := 2 ^ (8 * a.wordBytes) - 1

/-- The bytes of the process. -/
abbrev Memory := Nat → UInt8

/-- A little-endian number of `bytes` bytes. -/
def load (m : Memory) (address : Nat) : Nat → Nat
  | 0 => 0
  | bytes + 1 => load m address bytes + (m (address + bytes)).toNat * 256 ^ bytes

def store (bytes : Nat) (m : Memory) (address value : Nat) : Memory := fun a =>
  if address ≤ a ∧ a < address + bytes then .ofNat (value / 256 ^ (a - address)) else m a

/-- The value of a signed word. -/
def signed (a : Arch) (value : Nat) : Int :=
  if value < 2 ^ (8 * a.wordBytes - 1) then value else value - 2 ^ (8 * a.wordBytes)

/-- The parts of `ImageState` that the passes read.  Addresses are numbers. -/
structure Image where
  arch : Arch
  /-- `YUKILINKER_FULL` -/
  full : Bool
  reservation : Nat
  span : Nat
  lowest : Nat
  rel : Nat
  relBytes : Nat
  plt : Nat
  pltBytes : Nat
  relr : Nat
  relrBytes : Nat
  symbols : Nat
  symbolCount : Nat
  tlsActive : Bool
  tlsModule : Nat
  tlsGeneration : Nat
  tlsBytes : Nat

namespace Image

def wordBytes (image : Image) : Nat := image.arch.wordBytes

def wordMax (image : Image) : Nat := image.arch.wordMax

/-- `memory.bias`. -/
def bias (image : Image) : Nat :=
  (image.reservation + (image.wordMax + 1) - image.lowest) % (image.wordMax + 1)

end Image

/-- `address_space_contains`. -/
def addressSpaceContains (image : Image) (pointer bytes : Nat) : Bool :=
  if image.reservation = 0 ∨ pointer = 0 then false
  else if pointer < image.reservation ∨ image.span < pointer - image.reservation then false
  else bytes ≤ image.span - (pointer - image.reservation)

/-- `runtime_pointer`, for `count` objects of `size` bytes. -/
def runtimePointer (image : Image) (size count virtualAddress : Nat) : Option Nat :=
  if image.wordMax < size * count then none
  else if image.wordMax - image.bias < virtualAddress then none
  else if addressSpaceContains image (image.bias + virtualAddress) (size * count) then
    some (image.bias + virtualAddress)
  else none

/-- `add_signed_offset`. -/
def addSignedOffset (image : Image) (base : Nat) (offset : Int) : Option Nat :=
  if 0 ≤ offset then
    if image.wordMax - base < offset.toNat then none else some (base + offset.toNat)
  else if base < (-offset).toNat then none
  else some (base - (-offset).toNat)

/-- What the passes ask others: `resolve_symbol`, a resolver of the image, and the metadata
allocator for the index of a descriptor.  The first two run code of other libraries, so they may
change the memory. -/
structure Env where
  resolveSymbol : Memory → Nat → Option Nat × Memory
  invokeIfunc : Memory → Nat → Nat × Memory
  cookie : Memory → Option Nat
  dynamicEntry : Nat
  weakEntry : Nat

/-! ## 2. Relocations -/

/-- `ElfRelocation`; there is no addend in a REL entry. -/
structure Entry where
  offset : Nat
  info : Nat
  addend : Int
  deriving DecidableEq

/-- `sizeof(ElfRelocation)`. -/
def Arch.relocationBytes : Arch → Nat
  | .aarch64 => 24
  | .arm => 8

/-- An entry of a table. -/
def readEntry (image : Image) (m : Memory) (address : Nat) : Entry :=
  match image.arch with
  | .aarch64 => ⟨load m address 8, load m (address + 8) 8,
      signed .aarch64 (load m (address + 16) 8)⟩
  | .arm => ⟨load m address 4, load m (address + 4) 4, 0⟩

/-- `relocation_type`. -/
def relocationType (image : Image) (r : Entry) : Nat :=
  match image.arch with
  | .aarch64 => r.info % 2 ^ 32
  | .arm => r.info % 2 ^ 8

/-- `relocation_symbol`. -/
def relocationSymbol (image : Image) (r : Entry) : Nat :=
  match image.arch with
  | .aarch64 => r.info / 2 ^ 32
  | .arm => r.info / 2 ^ 8

/-- `relocation_addend`; `value` is the word at the destination. -/
def relocationAddend (image : Image) (r : Entry) (value : Nat) : Int :=
  match image.arch with
  | .aarch64 => r.addend
  | .arm => signed .arm value

/-- What a relocation type asks for.  `dtpmod` looks at the addend on AArch64 only. -/
inductive Kind where
  | none
  | relative
  | irelative
  | tlsdesc
  | dtprel
  | dtpmod (addend : Bool)
  | tprel
  | abs
  | rel32
  | symbol
  | unsupported
  deriving DecidableEq

/-- The `switch` of `apply_relocation` in the build for AArch64. -/
def aarch64Kind (full : Bool) (type : Nat) : Kind :=
  match type with
  | 0 => .none
  | 1027 => .relative
  | 1032 => .irelative
  | 1031 => if full then .tlsdesc else .unsupported
  | 1028 => if full then .dtprel else .unsupported
  | 1029 => if full then .dtpmod true else .unsupported
  | 1030 => if full then .tprel else .unsupported
  | 257 => .abs
  | 1025 => .symbol
  | 1026 => .symbol
  | _ => .unsupported

/-- The `switch` in the build for ARM; TLS descriptors are refused there. -/
def armKind (full : Bool) (type : Nat) : Kind :=
  match type with
  | 0 => .none
  | 23 => .relative
  | 160 => .irelative
  | 2 => .abs
  | 3 => .rel32
  | 21 => .symbol
  | 22 => .symbol
  | 17 => if full then .dtpmod false else .unsupported
  | 18 => if full then .dtprel else .unsupported
  | 19 => if full then .tprel else .unsupported
  | _ => .unsupported

def kindOf (image : Image) (r : Entry) : Kind :=
  match image.arch with
  | .aarch64 => aarch64Kind image.full (relocationType image r)
  | .arm => armKind image.full (relocationType image r)

/-- The parts of `ElfW(Sym)` that `resolve_tls_reference` reads. -/
structure Symbol where
  info : Nat
  section_ : Nat
  value : Nat
  deriving DecidableEq

/-- `symbol_at`. -/
def symbolAt (image : Image) (m : Memory) (index : Nat) : Option Symbol :=
  if index < image.symbolCount then
    match image.arch with
    | .aarch64 =>
      let address := image.symbols + index * 24
      some ⟨load m (address + 4) 1, load m (address + 6) 2, load m (address + 8) 8⟩
    | .arm =>
      let address := image.symbols + index * 16
      some ⟨load m (address + 12) 1, load m (address + 14) 2, load m (address + 4) 4⟩
  else none

/-- `struct TlsReference`. -/
structure TlsReference where
  moduleId : Nat := 0
  byteOffset : Nat := 0
  generation : Nat := 0
  unresolvedWeak : Bool := false
  deriving DecidableEq

/-- An offset in the TLS segment of the image. -/
def ownReference (image : Image) (base : Nat) (addend : Int) : Option TlsReference :=
  match addSignedOffset image base addend with
  | none => none
  | some offset =>
    if image.tlsBytes ≤ offset then none
    else some ⟨image.tlsModule, offset, image.tlsGeneration, false⟩

/-- `resolve_tls_reference`.  The sections are `SHN_UNDEF` = 0, the binding `STB_WEAK` = 2 and the
type `STT_TLS` = 6. -/
def resolveTlsReference (image : Image) (m : Memory) (index : Nat) (addend : Int) :
    Option TlsReference :=
  if index = 0 then
    if !image.tlsActive then none else ownReference image 0 addend
  else
    match symbolAt image m index with
    | none => none
    | some symbol =>
      if symbol.section_ = 0 then
        if symbol.info / 16 ≠ 2 then none
        else some { unresolvedWeak := true
                    byteOffset := (addend % (image.wordMax + 1 : Int)).toNat }
      else if symbol.info % 16 ≠ 6 ∨ !image.tlsActive then none
      else ownReference image symbol.value addend

/-- `bytes` bytes written from `address` on. -/
structure Write where
  address : Nat
  bytes : Nat
  deriving DecidableEq

/-- A word is written to the destination. -/
def writeWord (image : Image) (destination value : Nat) (m : Memory) : Outcome Memory Write :=
  ⟨true, store image.wordBytes m destination value, [⟨destination, image.wordBytes⟩]⟩

/-- The two words of a descriptor. -/
def writeDescriptor (image : Image) (destination entry argument : Nat) (m : Memory) :
    Outcome Memory Write :=
  (writeWord image destination entry m).andThen
    (writeWord image (destination + image.wordBytes) argument)

/-- A TLS descriptor. -/
def applyDescriptor (env : Env) (image : Image) (destination index : Nat) (addend : Int)
    (m : Memory) : Outcome Memory Write :=
  match resolveTlsReference image m index addend with
  | none => .fail m
  | some reference =>
    if reference.unresolvedWeak then
      writeDescriptor image destination env.weakEntry reference.byteOffset m
    else
      match env.cookie m with
      | none => .fail m
      | some cookie => writeDescriptor image destination env.dynamicEntry cookie m

/-- `apply_relocation`, with the destination that it has found. -/
def applyAt (env : Env) (image : Image) (r : Entry) (destination : Nat) (m : Memory) :
    Outcome Memory Write :=
  let addend := relocationAddend image r (load m destination image.wordBytes)
  let index := relocationSymbol image r
  match kindOf image r with
  | .none => .done m
  | .relative =>
    match addSignedOffset image image.bias addend with
    | none => .fail m
    | some value => writeWord image destination value m
  | .irelative =>
    match addSignedOffset image image.bias addend with
    | none => .fail m
    | some resolver =>
      if !addressSpaceContains image resolver 1 then .fail m
      else writeWord image destination (env.invokeIfunc m resolver).1 (env.invokeIfunc m resolver).2
  | .tlsdesc => applyDescriptor env image destination index addend m
  | .dtprel =>
    match resolveTlsReference image m index addend with
    | none => .fail m
    | some reference => writeWord image destination reference.byteOffset m
  | .dtpmod useAddend =>
    match resolveTlsReference image m index (if useAddend then addend else 0) with
    | none => .fail m
    | some reference =>
      writeWord image destination (if reference.unresolvedWeak then 0 else reference.moduleId) m
  | .tprel =>
    match resolveTlsReference image m index addend with
    | none => .fail m
    | some reference =>
      if reference.unresolvedWeak then writeWord image destination 0 m else .fail m
  | .abs =>
    match env.resolveSymbol m index with
    | (none, m) => .fail m
    | (some address, m) =>
      match addSignedOffset image address addend with
      | none => .fail m
      | some value => writeWord image destination value m
  | .rel32 =>
    match env.resolveSymbol m index with
    | (none, m) => .fail m
    | (some address, m) =>
      match addSignedOffset image address addend with
      | none => .fail m
      | some value =>
        writeWord image destination
          ((value + (image.wordMax + 1) - destination) % (image.wordMax + 1)) m
  | .symbol =>
    match env.resolveSymbol m index with
    | (none, m) => .fail m
    | (some address, m) => writeWord image destination address m
  | .unsupported => .fail m

/-- `relocation_destination`. -/
def relocationDestination (image : Image) (r : Entry) : Option Nat :=
  runtimePointer image image.wordBytes 1 r.offset

/-- `apply_relocation`. -/
def applyRelocation (env : Env) (image : Image) (r : Entry) (m : Memory) : Outcome Memory Write :=
  match relocationDestination image r with
  | none => .fail m
  | some destination => applyAt env image r destination m

/-- The step of `apply_relocation_span` for the entry at an address: it reads the entry from the
memory as it is by then. -/
def applyEntry (env : Env) (image : Image) (address : Nat) (m : Memory) : Outcome Memory Write :=
  applyRelocation env image (readEntry image m address) m

/-- The addresses of the entries of a table. -/
def entryAddresses (image : Image) (entries bytes : Nat) : List Nat :=
  (List.range (bytes / image.arch.relocationBytes)).map fun i =>
    entries + i * image.arch.relocationBytes

/-- `apply_relocation_span`. -/
def applyRelocationSpan (env : Env) (image : Image) (entries bytes : Nat) (m : Memory) :
    Outcome Memory Write :=
  if bytes = 0 then .done m
  else if entries = 0 ∨ bytes % image.arch.relocationBytes ≠ 0 then .fail m
  else pass (applyEntry env image) (entryAddresses image entries bytes) m

/-! ## 3. Packed relative relocations -/

/-- `next_offset`, and the memory. -/
structure RelrState where
  nextOffset : Nat
  memory : Memory

/-- `patch_relative_word`. -/
def patchRelativeWord (image : Image) (offset : Nat) (s : RelrState) : Outcome RelrState Write :=
  match runtimePointer image image.wordBytes 1 offset with
  | none => .fail s
  | some word =>
    let value := (load s.memory word image.wordBytes + image.bias) % (image.wordMax + 1)
    ⟨true, { s with memory := store image.wordBytes s.memory word value },
      [⟨word, image.wordBytes⟩]⟩

/-- `kBitmapBits`. -/
def bitmapBits (image : Image) : Nat := image.wordBytes * 8 - 1

/-- One bit of a bitmap. -/
def patchBit (image : Image) (bitmap bit : Nat) (s : RelrState) : Outcome RelrState Write :=
  let displacement := bit * image.wordBytes
  if bitmap.testBit bit then
    if image.wordMax - displacement < s.nextOffset then .fail s
    else patchRelativeWord image (s.nextOffset + displacement) s
  else .done s

/-- `next_offset` moves on by `bytes`. -/
def advance (image : Image) (bytes : Nat) (s : RelrState) : Outcome RelrState Write :=
  if image.wordMax - bytes < s.nextOffset then .fail s
  else .done { s with nextOffset := s.nextOffset + bytes }

/-- One word of the RELR table. -/
def applyRelr (image : Image) (address : Nat) (s : RelrState) : Outcome RelrState Write :=
  let encoded := load s.memory address image.wordBytes
  if encoded % 2 = 0 then
    (patchRelativeWord image encoded s).andThen fun s =>
      advance image image.wordBytes { s with nextOffset := encoded }
  else
    (pass (patchBit image (encoded / 2)) (List.range (bitmapBits image)) s).andThen
      (advance image (bitmapBits image * image.wordBytes))

/-- The loop of `apply_relr_span`. -/
def relrLoop (image : Image) (m : Memory) : Outcome RelrState Write :=
  pass (applyRelr image)
    ((List.range (image.relrBytes / image.wordBytes)).map fun i => image.relr + i * image.wordBytes)
    ⟨0, m⟩

/-- `apply_relr_span`. -/
def applyRelrSpan (image : Image) (m : Memory) : Outcome Memory Write :=
  if image.relrBytes = 0 then .done m
  else if image.relr = 0 ∨ image.relrBytes % image.wordBytes ≠ 0 then .fail m
  else ⟨(relrLoop image m).ok, (relrLoop image m).state.memory, (relrLoop image m).writes⟩

/-- `relocate_image`. -/
def relocateImage (env : Env) (image : Image) (m : Memory) : Outcome Memory Write :=
  ((applyRelrSpan image m).andThen
    (applyRelocationSpan env image image.rel image.relBytes)).andThen
    (applyRelocationSpan env image image.plt image.pltBytes)

/-! ## 4. Writes inside the image -/

variable {env : Env} {image : Image} {r : Entry} {m : Memory} {destination value : Nat}

/-- A write lies inside the reservation of the image. -/
def Inside (image : Image) (w : Write) : Prop :=
  image.reservation ≤ w.address ∧ w.address + w.bytes ≤ image.reservation + image.span

theorem addressSpaceContains_iff {pointer bytes : Nat} (h0 : image.reservation ≠ 0)
    (hp : image.reservation ≤ pointer) (hle : pointer ≤ image.reservation + image.span) :
    addressSpaceContains image pointer bytes = true ↔
      pointer + bytes ≤ image.reservation + image.span := by
  rw [addressSpaceContains, if_neg (by omega), if_neg (by omega), decide_eq_true_eq]
  omega

/-- What `runtime_pointer` gives lies inside, to the last byte it was asked for. -/
theorem runtimePointer_some {size count v p : Nat}
    (h : runtimePointer image size count v = some p) :
    image.reservation ≠ 0 ∧ image.reservation ≤ p ∧
      p + size * count ≤ image.reservation + image.span := by
  rw [runtimePointer] at h
  split_ifs at h with h1 h2 h3
  cases h
  rw [addressSpaceContains] at h3
  split_ifs at h3 with h4 h5
  rw [decide_eq_true_eq] at h3
  omega

/-- **A destination has room for one word** of the image. -/
theorem destination_inside (h : relocationDestination image r = some destination) :
    image.reservation ≠ 0 ∧ image.reservation ≤ destination ∧
      destination + image.wordBytes ≤ image.reservation + image.span := by
  obtain ⟨h0, h1, h2⟩ := runtimePointer_some h
  exact ⟨h0, h1, by rwa [Nat.mul_one] at h2⟩

theorem forall_writeWord {P : Write → Prop} :
    (∀ w ∈ (writeWord image destination value m).writes, P w) ↔
      P ⟨destination, image.wordBytes⟩ := by
  simp [writeWord]

theorem forall_writeDescriptor {P : Write → Prop} {entry argument : Nat} :
    (∀ w ∈ (writeDescriptor image destination entry argument m).writes, P w) ↔
      P ⟨destination, image.wordBytes⟩ ∧
        P ⟨destination + image.wordBytes, image.wordBytes⟩ := by
  rw [writeDescriptor, Passes.forall_writes_andThen, forall_writeWord, forall_writeWord]
  exact and_congr_right fun _ => ⟨fun h => h rfl, fun h _ => h⟩

/-- A relocation is not a TLS descriptor that gets its two words, or both are inside. -/
def Fits (env : Env) (image : Image) (r : Entry) (m : Memory) : Prop :=
  ∀ destination reference, relocationDestination image r = some destination →
    kindOf image r = .tlsdesc →
    resolveTlsReference image m (relocationSymbol image r)
      (relocationAddend image r (load m destination image.wordBytes)) = some reference →
    (reference.unresolvedWeak = true ∨ (env.cookie m).isSome) →
    addressSpaceContains image destination (2 * image.wordBytes) = true

/-- The second word of a descriptor is the one that need not be inside. -/
theorem inside_descriptor (h : relocationDestination image r = some destination) :
    Inside image ⟨destination + image.wordBytes, image.wordBytes⟩ ↔
      addressSpaceContains image destination (2 * image.wordBytes) = true := by
  obtain ⟨h0, h1, h2⟩ := destination_inside h
  rw [addressSpaceContains_iff h0 h1 (by omega), Inside]
  dsimp only
  omega

/-- The writes of a descriptor. -/
theorem inside_applyDescriptor (h : relocationDestination image r = some destination) {index : Nat}
    {addend : Int} :
    (∀ w ∈ (applyDescriptor env image destination index addend m).writes, Inside image w) ↔
      ∀ reference, resolveTlsReference image m index addend = some reference →
        (reference.unresolvedWeak = true ∨ (env.cookie m).isSome) →
        addressSpaceContains image destination (2 * image.wordBytes) = true := by
  obtain ⟨h0, h1, h2⟩ := destination_inside h
  have hfirst : Inside image ⟨destination, image.wordBytes⟩ := ⟨h1, h2⟩
  rw [applyDescriptor]
  cases hres : resolveTlsReference image m index addend with
  | none => exact iff_of_true Passes.forall_writes_fail fun _ h => absurd h (by simp)
  | some reference =>
    dsimp only
    split_ifs with hweak
    · rw [forall_writeDescriptor, inside_descriptor h]
      constructor
      · intro hw _ _ _
        exact hw.2
      · intro hw
        exact ⟨hfirst, hw reference rfl (.inl hweak)⟩
    · cases hcookie : env.cookie m with
      | none =>
        refine iff_of_true Passes.forall_writes_fail ?_
        intro reference' heq hor
        cases heq
        rcases hor with hor | hor
        · exact absurd hor hweak
        · exact absurd hor (by simp)
      | some cookie =>
        dsimp only
        rw [forall_writeDescriptor, inside_descriptor h]
        constructor
        · intro hw _ _ _
          exact hw.2
        · intro hw
          exact ⟨hfirst, hw reference rfl (.inr rfl)⟩

/-- A relocation of any other kind writes at most the one word it has checked. -/
theorem inside_applyAt (h : relocationDestination image r = some destination)
    (hkind : kindOf image r ≠ .tlsdesc) :
    ∀ w ∈ (applyAt env image r destination m).writes, Inside image w := by
  obtain ⟨-, h1, h2⟩ := destination_inside h
  have hword : ∀ (value : Nat) (m : Memory),
      ∀ w ∈ (writeWord image destination value m).writes, Inside image w :=
    fun value m => forall_writeWord.2 ⟨h1, h2⟩
  have hfail : ∀ m : Memory, ∀ w ∈ (Outcome.fail m : Outcome Memory Write).writes,
      Inside image w := fun m => Passes.forall_writes_fail
  rw [applyAt]
  cases hk : kindOf image r with
  | none => exact Passes.forall_writes_done
  | tlsdesc => exact absurd hk hkind
  | unsupported => exact hfail m
  | relative | dtprel | dtpmod =>
    dsimp only
    split
    · exact hfail _
    · exact hword _ _
  | symbol =>
    dsimp only
    split
    · exact hfail _
    · exact hword _ _
  | irelative | tprel | abs | rel32 =>
    dsimp only
    split
    · exact hfail _
    · split
      · first | exact hfail _ | exact hword _ _
      · first | exact hword _ _ | exact hfail _

/-- **One relocation** writes inside the image exactly when it `Fits`. -/
theorem inside_applyRelocation :
    (∀ w ∈ (applyRelocation env image r m).writes, Inside image w) ↔ Fits env image r m := by
  rw [applyRelocation]
  cases h : relocationDestination image r with
  | none =>
    exact iff_of_true Passes.forall_writes_fail fun _ _ h' => absurd (h.symm.trans h') (by simp)
  | some destination =>
    by_cases hkind : kindOf image r = .tlsdesc
    · have heq : applyAt env image r destination m = applyDescriptor env image destination
          (relocationSymbol image r)
          (relocationAddend image r (load m destination image.wordBytes)) m := by
        simp only [applyAt, hkind]
      dsimp only
      rw [heq, inside_applyDescriptor h]
      constructor
      · intro hw destination' reference hd _ hres hor
        obtain rfl : destination = destination' := by simpa [h] using hd
        exact hw reference hres hor
      · intro hf reference hres hor
        exact hf destination reference h hkind hres hor
    · exact iff_of_true (inside_applyAt h hkind) fun _ _ _ hk => absurd hk hkind

/-! ## 5. The packed relocations -/

theorem inside_patchRelativeWord (offset : Nat) (s : RelrState) :
    ∀ w ∈ (patchRelativeWord image offset s).writes, Inside image w := by
  rw [patchRelativeWord]
  cases h : runtimePointer image image.wordBytes 1 offset with
  | none => exact Passes.forall_writes_fail
  | some word =>
    obtain ⟨-, h1, h2⟩ := runtimePointer_some h
    intro w hw
    obtain rfl := List.mem_singleton.1 hw
    exact ⟨h1, by rwa [Nat.mul_one] at h2⟩

theorem inside_advance (bytes : Nat) (s : RelrState) :
    ∀ w ∈ (advance image bytes s).writes, Inside image w := by
  rw [advance]
  split
  · exact Passes.forall_writes_fail
  · exact Passes.forall_writes_done

theorem inside_patchBit (bitmap bit : Nat) (s : RelrState) :
    ∀ w ∈ (patchBit image bitmap bit s).writes, Inside image w := by
  rw [patchBit]
  split_ifs
  · exact Passes.forall_writes_fail
  · exact inside_patchRelativeWord _ s
  · exact Passes.forall_writes_done

/-- **A word of the RELR table** writes inside the image, whatever it encodes. -/
theorem inside_applyRelr (address : Nat) (s : RelrState) :
    ∀ w ∈ (applyRelr image address s).writes, Inside image w := by
  rw [applyRelr]
  split_ifs
  · rw [Passes.forall_writes_andThen]
    exact ⟨inside_patchRelativeWord _ s, fun _ => inside_advance _ _⟩
  · rw [Passes.forall_writes_andThen]
    exact ⟨Passes.forall_writes_of_step (inside_patchBit _), fun _ => inside_advance _ _⟩

theorem inside_applyRelrSpan : ∀ w ∈ (applyRelrSpan image m).writes, Inside image w := by
  rw [applyRelrSpan]
  split_ifs
  · exact Passes.forall_writes_done
  · exact Passes.forall_writes_fail
  · exact Passes.forall_writes_of_step (f := applyRelr image) inside_applyRelr

/-! ## 6. The passes -/

/-- The entries of a table that the pass gets to, each with the memory before it. -/
def spanReached (env : Env) (image : Image) (entries bytes : Nat) (m : Memory) :
    List (Nat × Memory) :=
  if bytes = 0 ∨ entries = 0 ∨ bytes % image.arch.relocationBytes ≠ 0 then []
  else reached (applyEntry env image) (entryAddresses image entries bytes) m

/-- The entries of the REL or RELA table and of the PLT table that the passes get to. -/
def entriesReached (env : Env) (image : Image) (m : Memory) : List (Nat × Memory) :=
  let relr := applyRelrSpan image m
  let rel := applyRelocationSpan env image image.rel image.relBytes relr.state
  if !relr.ok then []
  else spanReached env image image.rel image.relBytes relr.state ++
    if rel.ok then spanReached env image image.plt image.pltBytes rel.state else []

/-- **Relocation never writes outside the image.** -/
def Contained (env : Env) (image : Image) (m : Memory) : Prop :=
  ∀ w ∈ (relocateImage env image m).writes, Inside image w

/-- A table writes inside when the descriptors that are reached in it do. -/
theorem inside_applyRelocationSpan {entries bytes : Nat} :
    (∀ w ∈ (applyRelocationSpan env image entries bytes m).writes, Inside image w) ↔
      ∀ p ∈ spanReached env image entries bytes m, Fits env image (readEntry image p.2 p.1) p.2 := by
  rw [applyRelocationSpan, spanReached]
  by_cases h0 : bytes = 0
  · rw [if_pos h0, if_pos (.inl h0)]
    exact iff_of_true Passes.forall_writes_done fun _ h => absurd h List.not_mem_nil
  rw [if_neg h0]
  by_cases h1 : entries = 0 ∨ bytes % image.arch.relocationBytes ≠ 0
  · rw [if_pos h1, if_pos (.inr h1)]
    exact iff_of_true Passes.forall_writes_fail fun _ h => absurd h List.not_mem_nil
  rw [if_neg h1, if_neg (not_or.2 ⟨h0, h1⟩), Passes.forall_writes_pass]
  simp only [applyEntry, inside_applyRelocation]

/-- **The passes keep inside the image exactly when every TLS descriptor they get to fits**: the
only writes outside are those of a second word past the end of the reservation. -/
theorem contained_iff (env : Env) (image : Image) (m : Memory) :
    Contained env image m ↔
      ∀ p ∈ entriesReached env image m, Fits env image (readEntry image p.2 p.1) p.2 := by
  rw [Contained, relocateImage, Passes.forall_writes_andThen, Passes.forall_writes_andThen,
    inside_applyRelocationSpan, inside_applyRelocationSpan, entriesReached]
  cases hrelr : (applyRelrSpan image m).ok with
  | false =>
    simp only [Outcome.andThen, hrelr, Bool.false_eq_true, if_false, false_imp_iff, and_true,
      Bool.not_false, if_true]
    exact iff_of_true inside_applyRelrSpan fun _ h => absurd h List.not_mem_nil
  | true =>
    simp only [Outcome.andThen, hrelr, if_true, true_imp_iff, Bool.not_true, Bool.false_eq_true,
      if_false, List.mem_append, or_imp, forall_and]
    rw [and_iff_right (inside_applyRelrSpan : ∀ w ∈ _, _)]
    refine and_congr_right ?_
    intro _
    split_ifs with hrel
    · exact ⟨fun h => h hrel, fun h _ => h⟩
    · exact iff_of_true (fun h => absurd h hrel) fun _ h => absurd h List.not_mem_nil

/-- What `parse_dynamic_tags` and `establish_symbol_count` see to: the tables are in the image. -/
structure Accepted (image : Image) : Prop where
  reserved : image.reservation ≠ 0 ∧ image.reservation + image.span ≤ image.wordMax + 1
  rel : image.relBytes ≠ 0 → addressSpaceContains image image.rel image.relBytes = true
  plt : image.pltBytes ≠ 0 → addressSpaceContains image image.plt image.pltBytes = true
  relr : image.relrBytes ≠ 0 → addressSpaceContains image image.relr image.relrBytes = true
  symbols : image.symbolCount ≠ 0 ∧ addressSpaceContains image image.symbols
    (image.symbolCount * if image.arch = .aarch64 then 24 else 16) = true

/-- Memory that holds the words of a table and is zero elsewhere. -/
def tableMemory (w address : Nat) (es : List Nat) : Memory := fun a =>
  if address ≤ a ∧ a < address + es.length * w then
    .ofNat (es.getD ((a - address) / w) 0 / 256 ^ ((a - address) % w))
  else 0

/-- An image of two pages with 8 bytes of thread-local storage and one relocation. -/
def sampleImage : Image where
  arch := .aarch64
  full := true
  reservation := 0x20000
  span := 0x2000
  lowest := 0
  rel := 0x20100
  relBytes := 24
  plt := 0
  pltBytes := 0
  relr := 0
  relrBytes := 0
  symbols := 0x20200
  symbolCount := 1
  tlsActive := true
  tlsModule := 1
  tlsGeneration := 1
  tlsBytes := 8

/-- The relocation is a TLS descriptor at the last word of the image. -/
def sampleMemory : Memory := store 8 (store 8 (fun _ => 0) 0x20100 0x1ff8) 0x20108 1031

def sampleEnv : Env where
  resolveSymbol m _ := (none, m)
  invokeIfunc m _ := (0, m)
  cookie _ := some 0x9000
  dynamicEntry := 0x4000
  weakEntry := 0x4100

/-- The second word of the descriptor is written past the end of the image. -/
theorem not_contained : ¬ ∀ env image m, Accepted image → Contained env image m := by
  intro h
  have haccepted : Accepted sampleImage := by
    refine ⟨by decide, fun _ => by decide, fun h => absurd rfl h, fun h => absurd rfl h, by decide⟩
  have hwrites : (relocateImage sampleEnv sampleImage sampleMemory).writes =
      [⟨0x21ff8, 8⟩, ⟨0x22000, 8⟩] := by decide +kernel
  have hin := h sampleEnv sampleImage sampleMemory haccepted ⟨0x22000, 8⟩ (by rw [hwrites]; simp)
  exact absurd hin.2 (by decide)

end YukiZygisk.Relocation
