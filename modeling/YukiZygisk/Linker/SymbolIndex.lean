/-
# Looking up a symbol by its name (`build_symbol_index`, `find_defined_symbol`)

The defined symbols of an image are put into a hash table with linear probing, which has at least
twice as many slots as there are symbols.  When there are too many of them, or no memory for the
table, a look-up goes through the symbols instead.

**Both ways find the same symbol**, the first defined one with the name
(`find_eq_first`).  The table finds the first of the entries with a key whatever the hash is
(`Probing.find_build`), and it is never full.

The table of the source keeps indices, with zero for a free slot, and finds its place with a mask
instead of a remainder; `decodeSlots` and `and_mask` turn it into a table of the library.  The key
of an entry is its name, and the home of a name comes from its hash, about which nothing is
assumed.  Names are read from the string table up to their zero byte, and a symbol without a name,
or one that is not defined, is in neither of the two searches (`length_definedSymbols` bounds the
load of the table by the number of symbols).
-/
import YukiZygisk.Lib.Probing
import YukiZygisk.Linker.Relocation

namespace YukiZygisk.Relocation

/-! ## 1. Symbols and names -/

/-- The parts of `ElfW(Sym)` that a look-up reads: `st_name` and `st_shndx`. -/
structure DynamicSymbol where
  name : ℕ
  section_ : ℕ
  deriving DecidableEq

/-- A table of symbols and their names, with `index_slots` and `index_capacity` when there is an
index. -/
structure DynamicSymbols where
  entries : List DynamicSymbol
  strings : List UInt8
  index : Option (ℕ × (ℕ → ℕ))

/-- A C string: the bytes up to the first zero. -/
def cName (bytes : List UInt8) : List UInt8 := bytes.takeWhile fun b => b ≠ 0

/-- The string at `strings + symbol.st_name`. -/
def nameOf (strings : List UInt8) (symbol : DynamicSymbol) : List UInt8 :=
  cName (strings.drop symbol.name)

/-- `symbol_name_valid`. -/
def symbolNameValid (strings : List UInt8) (symbol : DynamicSymbol) : Bool :=
  symbol.name < strings.length && (strings.drop symbol.name).contains 0

/-- Not `SHN_UNDEF`, and with a valid name. -/
def isDefined (strings : List UInt8) (symbol : DynamicSymbol) : Bool :=
  symbol.section_ ≠ 0 && symbolNameValid strings symbol

/-- The name of the symbol with an index. -/
def nameAt (entries : List DynamicSymbol) (strings : List UInt8) (i : ℕ) : List UInt8 :=
  match entries[i]? with
  | some symbol => nameOf strings symbol
  | none => []

/-- The symbol with an index is defined. -/
def definedAt (entries : List DynamicSymbol) (strings : List UInt8) (i : ℕ) : Bool :=
  match entries[i]? with
  | some symbol => isDefined strings symbol
  | none => false

/-- `symbol_name_hash`. -/
def symbolNameHash (name : List UInt8) : UInt32 :=
  name.foldl (fun hash byte => (hash ^^^ byte.toUInt32) * 16777619) 2166136261

/-! ## 2. The index -/

/-- The loop that doubles the capacity.  It is positive, so `target` turns are enough. -/
def growCapacity (sizeMax target : ℕ) : ℕ → ℕ → Option ℕ
  | 0, capacity => some capacity
  | turns + 1, capacity =>
    if capacity < target then
      if sizeMax / 2 < capacity then none else growCapacity sizeMax target turns (capacity * 2)
    else some capacity

/-- The inner loop of `build_symbol_index`, for the symbol `i` with this name. -/
def insertSymbol (entries : List DynamicSymbol) (strings : List UInt8) (mask : ℕ)
    (slots : ℕ → ℕ) (i : ℕ) (name : List UInt8) : ℕ → ℕ → (ℕ → ℕ)
  | 0, _ => slots
  | probes + 1, slot =>
    let encoded := slots slot
    if encoded = 0 then Function.update slots slot ((i + 1) % 2 ^ 32)
    else if nameAt entries strings (encoded - 1) = name then slots
    else insertSymbol entries strings mask slots i name probes ((slot + 1) &&& mask)

/-- The slots of an index, from zeros on. -/
def fillIndex (entries : List DynamicSymbol) (strings : List UInt8) (capacity : ℕ) : ℕ → ℕ :=
  (List.range entries.length).foldl (fun slots i =>
    if definedAt entries strings i then
      let name := nameAt entries strings i
      insertSymbol entries strings (capacity - 1) slots i name capacity
        ((symbolNameHash name).toNat &&& (capacity - 1))
    else slots) fun _ => 0

/-- `build_symbol_index`; `memory` is whether there is memory for the slots. -/
def buildSymbolIndex (arch : Arch) (entries : List DynamicSymbol) (strings : List UInt8)
    (memory : Bool) : Option (ℕ × (ℕ → ℕ)) :=
  if 2 ^ 32 - 1 < entries.length then none
  else
    let definedCount := entries.countP (isDefined strings)
    if definedCount = 0 then none
    else if arch.wordMax < definedCount * 2 then none
    else
      match growCapacity arch.wordMax (definedCount * 2) (definedCount * 2) 8 with
      | none => none
      | some capacity =>
        if arch.wordMax < capacity * 4 then none
        else if !memory then none
        else some (capacity, fillIndex entries strings capacity)

/-- The look-up in the index. -/
def searchIndex (entries : List DynamicSymbol) (strings : List UInt8) (mask : ℕ) (slots : ℕ → ℕ)
    (name : List UInt8) : ℕ → ℕ → Option ℕ
  | 0, _ => none
  | probes + 1, slot =>
    let encoded := slots slot
    if encoded = 0 then none
    else if nameAt entries strings (encoded - 1) = name then some (encoded - 1)
    else searchIndex entries strings mask slots name probes ((slot + 1) &&& mask)

/-- The look-up without an index. -/
def scanSymbols (entries : List DynamicSymbol) (strings : List UInt8) (name : List UInt8) :
    Option ℕ :=
  (List.range entries.length).find? fun i =>
    definedAt entries strings i && nameAt entries strings i = name

/-- `find_defined_symbol`: the index of the symbol. -/
def findDefinedSymbol (symbols : DynamicSymbols) (bytes : List UInt8) : Option ℕ :=
  let name := cName bytes
  match symbols.index with
  | some (capacity, slots) =>
    if capacity = 0 then scanSymbols symbols.entries symbols.strings name
    else
      searchIndex symbols.entries symbols.strings (capacity - 1) slots name capacity
        ((symbolNameHash name).toNat &&& (capacity - 1))
  | none => scanSymbols symbols.entries symbols.strings name

/-! ## 3. The index as a table with linear probing -/

variable {entries : List DynamicSymbol} {strings name : List UInt8} {slots : ℕ → ℕ}
  {capacity target turns i h : ℕ}

/-- The entries in the slots; zero is an empty slot. -/
def decodeSlots (slots : ℕ → ℕ) : Probing.Slots ℕ := fun s =>
  if slots s = 0 then none else some (slots s - 1)

/-- The home of a name. -/
def homeOf (name : List UInt8) : ℕ := (symbolNameHash name).toNat

/-- The capacity is a power of two, and large enough. -/
theorem growCapacity_spec {sizeMax start capacity k : ℕ} (hstart : start = 2 ^ k)
    (hturns : target ≤ start + turns) (h : growCapacity sizeMax target turns start = some capacity) :
    target ≤ capacity ∧ ∃ k, capacity = 2 ^ k := by
  induction turns generalizing start k with
  | zero =>
    obtain rfl := Option.some.inj h
    exact ⟨hturns, k, hstart⟩
  | succ turns ih =>
    rw [growCapacity] at h
    have hpos : 0 < start := hstart ▸ Nat.two_pow_pos k
    split_ifs at h with hless hover
    · exact ih (k := k + 1) (by rw [hstart, pow_succ]) (by omega) h
    · obtain rfl := Option.some.inj h
      exact ⟨not_lt.mp hless, k, hstart⟩

theorem and_mask {k : ℕ} (hcap : capacity = 2 ^ k) (x : ℕ) :
    x &&& (capacity - 1) = x % capacity := by
  rw [hcap, Nat.and_two_pow_sub_one_eq_mod]

theorem decodeSlots_update {s e : ℕ} (he : e ≠ 0) :
    decodeSlots (Function.update slots s e) =
      Function.update (decodeSlots slots) s (some (e - 1)) := by
  funext x
  by_cases hx : x = s
  · rw [hx, Function.update_self, decodeSlots, Function.update_self, if_neg he]
  · rw [Function.update_of_ne hx, decodeSlots, decodeSlots, Function.update_of_ne hx]

/-- **Putting a symbol in** is putting an entry in. -/
theorem decode_insertSymbol {k : ℕ} (hcap : capacity = 2 ^ k) (hi : i + 1 < 2 ^ 32)
    (hname : nameAt entries strings i = name) :
    decodeSlots (insertSymbol entries strings (capacity - 1) slots i name turns (h % capacity)) =
      Probing.place (nameAt entries strings) capacity (decodeSlots slots) i turns h := by
  induction turns generalizing h with
  | zero => rfl
  | succ turns ih =>
    rw [insertSymbol, Probing.place]
    by_cases hempty : slots (h % capacity) = 0
    · have hnone : decodeSlots slots (h % capacity) = none := if_pos hempty
      rw [if_pos hempty, hnone, Nat.mod_eq_of_lt hi, decodeSlots_update (Nat.succ_ne_zero i)]
      rfl
    · have hsome : decodeSlots slots (h % capacity) = some (slots (h % capacity) - 1) :=
        if_neg hempty
      rw [if_neg hempty, hsome]
      dsimp only
      rw [hname]
      by_cases hsame : nameAt entries strings (slots (h % capacity) - 1) = name
      · rw [if_pos hsame, if_pos hsame]
      · rw [if_neg hsame, if_neg hsame, and_mask hcap, Nat.mod_add_mod]
        exact ih

/-- **The look-up in the index** is the look-up in the table. -/
theorem searchIndex_eq {k : ℕ} (hcap : capacity = 2 ^ k) :
    searchIndex entries strings (capacity - 1) slots name turns (h % capacity) =
      Probing.look (nameAt entries strings) capacity (decodeSlots slots) name turns h := by
  induction turns generalizing h with
  | zero => rfl
  | succ turns ih =>
    rw [searchIndex, Probing.look]
    by_cases hempty : slots (h % capacity) = 0
    · have hnone : decodeSlots slots (h % capacity) = none := if_pos hempty
      rw [if_pos hempty, hnone]
    · have hsome : decodeSlots slots (h % capacity) = some (slots (h % capacity) - 1) :=
        if_neg hempty
      rw [if_neg hempty, hsome]
      dsimp only
      by_cases hsame : nameAt entries strings (slots (h % capacity) - 1) = name
      · rw [if_pos hsame, if_pos hsame]
      · rw [if_neg hsame, if_neg hsame, and_mask hcap, Nat.mod_add_mod]
        exact ih

/-- The defined symbols, in their order. -/
def definedSymbols (entries : List DynamicSymbol) (strings : List UInt8) : List ℕ :=
  (List.range entries.length).filter fun i => definedAt entries strings i

/-- **The index is the table of the defined symbols.** -/
theorem decode_fillIndex {k : ℕ} (hcap : capacity = 2 ^ k) (hcount : entries.length < 2 ^ 32) :
    decodeSlots (fillIndex entries strings capacity) =
      Probing.build (nameAt entries strings) homeOf capacity (definedSymbols entries strings) := by
  have hfold : ∀ (l : List ℕ) (slots : ℕ → ℕ), (∀ i ∈ l, i < entries.length) →
      decodeSlots (l.foldl (fun slots i => if definedAt entries strings i then
        insertSymbol entries strings (capacity - 1) slots i (nameAt entries strings i) capacity
          ((symbolNameHash (nameAt entries strings i)).toNat &&& (capacity - 1)) else slots) slots) =
      (l.filter fun i => definedAt entries strings i).foldl
        (Probing.insert (nameAt entries strings) homeOf capacity) (decodeSlots slots) := by
    intro l
    induction l with
    | nil => exact fun _ _ => rfl
    | cons i l ih =>
      intro slots hl
      have hi := hl i List.mem_cons_self
      rw [List.foldl_cons, ih _ fun j hj => hl j (List.mem_cons_of_mem i hj)]
      by_cases hdefined : definedAt entries strings i = true
      · rw [if_pos hdefined, List.filter_cons_of_pos hdefined, List.foldl_cons, and_mask hcap,
          decode_insertSymbol hcap (by omega) rfl]
        rfl
      · rw [if_neg hdefined, List.filter_cons_of_neg hdefined]
  exact hfold _ _ fun i hi => List.mem_range.mp hi

/-- There are as many defined symbols as the first pass counts. -/
theorem length_definedSymbols (entries : List DynamicSymbol) (strings : List UInt8) :
    (definedSymbols entries strings).length = entries.countP (isDefined strings) := by
  have hmap : entries = (List.range entries.length).map fun i => entries.getD i ⟨0, 0⟩ := by
    refine List.ext_getElem (by simp) ?_
    intro i hi _
    simp [List.getD_eq_getElem?_getD, List.getElem?_eq_getElem hi]
  conv_rhs => rw [hmap]
  rw [definedSymbols, ← List.countP_eq_length_filter, List.countP_map]
  refine List.countP_congr ?_
  intro i hi
  have hlt := List.mem_range.mp hi
  simp only [definedAt, List.getElem?_eq_getElem hlt, Function.comp_apply,
    List.getD_eq_getElem?_getD, Option.getD_some]

/-- Scanning the symbols finds the first defined one with the name. -/
theorem scanSymbols_eq (entries : List DynamicSymbol) (strings name : List UInt8) :
    scanSymbols entries strings name =
      (definedSymbols entries strings).find? fun i => nameAt entries strings i = name := by
  rw [scanSymbols, definedSymbols, List.find?_filter]
  refine congrArg (List.find? · _) (funext fun i => ?_)
  cases definedAt entries strings i <;> simp

/-- An index that was built is the table filled over a capacity found by doubling, and its symbols'
numbers fit the slots. -/
theorem index_of_build {arch : Arch} {entries : List DynamicSymbol} {strings : List UInt8}
    {memory : Bool} {capacity : ℕ} {slots : ℕ → ℕ}
    (h : buildSymbolIndex arch entries strings memory = some (capacity, slots)) :
    entries.length ≤ 2 ^ 32 - 1 ∧
      growCapacity arch.wordMax (entries.countP (isDefined strings) * 2)
        (entries.countP (isDefined strings) * 2) 8 = some capacity ∧
      slots = fillIndex entries strings capacity := by
  cases memory with
  | false =>
    simp only [buildSymbolIndex, Bool.not_false, if_true] at h
    split_ifs at h
    split at h <;> simp at h
  | true =>
    simp only [buildSymbolIndex, Bool.not_true, Bool.false_eq_true, if_false] at h
    split_ifs at h with hcount
    split at h
    · cases h
    · rename_i hcapacity
      split_ifs at h
      obtain ⟨rfl, rfl⟩ := Prod.mk.inj (Option.some.inj h)
      exact ⟨not_lt.mp hcount, hcapacity, rfl⟩

/-- **A look-up finds the first defined symbol with the name**, through the index as through the
symbols: for every table of symbols, whatever the memory, and for every name. -/
theorem find_eq_first (arch : Arch) (entries : List DynamicSymbol) (strings : List UInt8)
    (memory : Bool) (name : List UInt8) :
    findDefinedSymbol ⟨entries, strings, buildSymbolIndex arch entries strings memory⟩ name =
      scanSymbols entries strings (cName name) := by
  rw [findDefinedSymbol]
  cases hindex : buildSymbolIndex arch entries strings memory with
  | none => rfl
  | some index =>
    obtain ⟨capacity, slots⟩ := index
    obtain ⟨hcount, hcapacity, rfl⟩ := index_of_build hindex
    obtain ⟨hle, k, hk⟩ := growCapacity_spec (k := 3) rfl (Nat.le_add_left _ _) hcapacity
    have hpos : 0 < capacity := hk ▸ Nat.two_pow_pos k
    have hlen : (definedSymbols entries strings).length ≤ capacity := by
      rw [length_definedSymbols]
      omega
    dsimp only
    rw [if_neg hpos.ne', and_mask hk, searchIndex_eq hk, decode_fillIndex hk (by omega),
      scanSymbols_eq]
    exact Probing.find_build hpos hlen (cName name)

end YukiZygisk.Relocation
