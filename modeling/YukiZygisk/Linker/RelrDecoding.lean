/-
# What the RELR table relocates (`apply_relr_span`)

The RELR table of an image encodes the offsets of the words that get the load bias.  The loader
reads the table word by word and relocates as it goes, and the table is in the image too: when it
relocates a word of the table that it has not read yet, it reads something else there.  And it
gives up at a bitmap that reaches past the end of the address space, also at one without a bit, in
the middle of the table (`not_relocates`).

**A table that no relocation changes before it is read, and that ends in the address space, adds
the bias to each word of its set once, and changes nothing else** (`relocates`).

The words of the table are read from the memory as it is at that time, so the first step is that
they are read as they were written (`ReadsSame`): a word that is relocated before it is read would
be another one, and `ReadFirst` excludes that.  Then a word of the table adds the bias at the
offsets that it describes (`applyRelr_word`), each of which is inside and aligned, and aligned words
do not overlap (`apart_of_aligned`), so the order does not matter and no word gets the bias twice.
The table as a whole relocates the offsets that it is decoded to, which are those of the set.
-/
import YukiZygisk.Lib.Relr
import YukiZygisk.Linker.Relocation

namespace YukiZygisk.Relocation

open Passes (Outcome pass)

/-! ## 1. Words of the memory -/

variable {image : Image} {m m' : Memory} {a v n o base : ℕ} {l l' es : List ℕ} {S : Finset ℕ}

theorem load_congr (h : ∀ i < n, m' (a + i) = m (a + i)) : load m' a n = load m a n := by
  induction n with
  | zero => rfl
  | succ n ih =>
    rw [load, load, ih fun i hi => h i (Nat.lt_succ_of_lt hi), h n (Nat.lt_succ_self n)]

/-- A store changes its own bytes only. -/
theorem store_apart {x : ℕ} (h : x < a ∨ a + n ≤ x) : store n m a v x = m x :=
  if_neg (by omega)

theorem load_store_part {k : ℕ} (hk : k ≤ n) : load (store n m a v) a k = v % 256 ^ k := by
  induction k with
  | zero => rw [load, pow_zero, Nat.mod_one]
  | succ k ih =>
    have hbyte : (store n m a v (a + k)).toNat = v / 256 ^ k % 256 := by
      rw [store, if_pos (by omega), Nat.add_sub_cancel_left]
      exact UInt8.toNat_ofNat'
    rw [load, ih (Nat.le_of_succ_le hk), hbyte, Nat.mul_comm, pow_succ, Nat.mod_mul]

/-- What was stored is loaded. -/
theorem load_store (hv : v < 256 ^ n) : load (store n m a v) a n = v := by
  rw [load_store_part le_rfl, Nat.mod_eq_of_lt hv]

theorem pow_wordBytes (image : Image) : 256 ^ image.wordBytes = image.wordMax + 1 := by
  rw [Image.wordBytes, Image.wordMax, Arch.wordMax]
  cases image.arch <;> rfl

theorem wordBytes_pos (image : Image) : 0 < image.wordBytes := by
  rw [Image.wordBytes]
  cases image.arch <;> decide

/-! ## 2. Relocated words -/

/-- The word at an offset with the bias added. -/
def patchWord (image : Image) (m : Memory) (o : ℕ) : Memory :=
  store image.wordBytes m (image.bias + o)
    ((load m (image.bias + o) image.wordBytes + image.bias) % (image.wordMax + 1))

/-- The words at some offsets with the bias added. -/
def patched (image : Image) (m : Memory) (l : List ℕ) : Memory := l.foldl (patchWord image) m

/-- The write for an offset. -/
def wordWrite (image : Image) (o : ℕ) : Write := ⟨image.bias + o, image.wordBytes⟩

/-- Relocating some words, then others. -/
theorem patched_append (image : Image) (m : Memory) (l l' : List ℕ) :
    patched image m (l ++ l') = patched image (patched image m l) l' := List.foldl_append

/-- Relocation changes the words at the offsets only. -/
theorem patched_apart (h : ∀ o ∈ l, a < image.bias + o ∨ image.bias + o + image.wordBytes ≤ a) :
    patched image m l a = m a := by
  induction l generalizing m with
  | nil => rfl
  | cons o l ih =>
    have hrest : patched image (patchWord image m o) l a = patchWord image m o a :=
      ih fun o' ho' => h o' (List.mem_cons_of_mem o ho')
    exact hrest.trans (store_apart (h o List.mem_cons_self))

/-- Two aligned words that are not the same have no byte in common. -/
theorem apart_of_aligned {w o o' : ℕ} (ho : w ∣ o) (ho' : w ∣ o') (hne : o ≠ o') :
    o + w ≤ o' ∨ o' + w ≤ o := by
  obtain ⟨c, rfl⟩ := ho
  obtain ⟨d, rfl⟩ := ho'
  rcases Nat.lt_or_gt_of_ne fun heq : c = d => hne (by rw [heq]) with hlt | hlt
  · exact .inl (by rw [← Nat.mul_succ]; exact Nat.mul_le_mul_left w hlt)
  · exact .inr (by rw [← Nat.mul_succ]; exact Nat.mul_le_mul_left w hlt)

/-- A word is not changed by the relocation of others. -/
theorem load_patched_apart (halign : ∀ o ∈ l, image.wordBytes ∣ o) (ho : image.wordBytes ∣ o)
    (hno : o ∉ l) : load (patched image m l) (image.bias + o) image.wordBytes =
      load m (image.bias + o) image.wordBytes := by
  refine load_congr fun i hi => patched_apart ?_
  intro o' ho'
  rcases apart_of_aligned ho (halign o' ho') fun heq => hno (heq ▸ ho') with hlt | hlt
  · exact .inl (by omega)
  · exact .inr (by omega)

/-- **Each word of the set gets the bias once.** -/
theorem load_patched (halign : ∀ o ∈ l, image.wordBytes ∣ o) (hnodup : l.Nodup) (ho : o ∈ l) :
    load (patched image m l) (image.bias + o) image.wordBytes =
      (load m (image.bias + o) image.wordBytes + image.bias) % (image.wordMax + 1) := by
  induction l generalizing m with
  | nil => cases ho
  | cons x l ih =>
    obtain ⟨hx, hnodup⟩ := List.nodup_cons.mp hnodup
    have halign' : ∀ o ∈ l, image.wordBytes ∣ o := fun o h => halign o (List.mem_cons_of_mem x h)
    have hstep : patched image m (x :: l) = patched image (patchWord image m x) l := rfl
    rw [hstep]
    rcases List.mem_cons.mp ho with rfl | ho
    · rw [load_patched_apart halign' (halign o List.mem_cons_self) hx, patchWord, load_store]
      rw [pow_wordBytes]
      exact Nat.mod_lt _ (Nat.succ_pos _)
    · rw [ih halign' hnodup ho]
      have hother : load (patchWord image m x) (image.bias + o) image.wordBytes =
          load m (image.bias + o) image.wordBytes :=
        load_patched_apart (l := [x]) (fun y hy => List.mem_singleton.mp hy ▸
          halign x List.mem_cons_self) (halign' o ho) fun h => hx (List.mem_singleton.mp h ▸ ho)
      rw [hother]

/-! ## 3. The image -/

/-- What the earlier steps of a load see to, for an image whose table has these words: the
reservation and the addresses of the image are in the address space, `runtime_pointer` has found
the table, and the table is as long as it says. -/
structure Table (image : Image) (m : Memory) (es : List ℕ) : Prop where
  reserved : image.reservation ≠ 0 ∧ image.reservation + image.span ≤ image.wordMax + 1
  fits : image.lowest + image.span ≤ image.wordMax
  bytes : image.relrBytes = es.length * image.wordBytes
  found : image.relrBytes ≠ 0 → ∃ v, runtimePointer image image.wordBytes 1 v = some image.relr
  words : ∀ i (h : i < es.length),
    load m (image.relr + i * image.wordBytes) image.wordBytes = es.get ⟨i, h⟩

/-- The word at an offset is in the image. -/
def WordInside (image : Image) (o : ℕ) : Prop :=
  image.lowest ≤ o ∧ o + image.wordBytes ≤ image.lowest + image.span

/-- An image in which `runtime_pointer` finds something is not loaded below its own addresses. -/
theorem lowest_le_reservation (h : Table image m es) {p : ℕ}
    (hp : runtimePointer image n 1 v = some p) : image.lowest ≤ image.reservation := by
  by_contra hlt
  obtain ⟨⟨h0, hres⟩, hfits⟩ := And.intro h.reserved h.fits
  have hbias : image.bias = image.reservation + (image.wordMax + 1) - image.lowest := by
    rw [Image.bias, Nat.mod_eq_of_lt (by omega)]
  rw [runtimePointer, hbias] at hp
  split_ifs at hp with _ hv hin
  rw [addressSpaceContains] at hin
  split_ifs at hin with _ hrange
  omega

theorem bias_eq (hle : image.lowest ≤ image.reservation)
    (hres : image.reservation ≤ image.wordMax) :
    image.bias = image.reservation - image.lowest := by
  have hsum : image.reservation + (image.wordMax + 1) - image.lowest =
      image.reservation - image.lowest + (image.wordMax + 1) := by omega
  rw [Image.bias, hsum, Nat.add_mod_right, Nat.mod_eq_of_lt (by omega)]

/-- An image whose words `runtime_pointer` finds. -/
structure Placed (image : Image) : Prop where
  reserved : image.reservation ≠ 0 ∧ image.reservation + image.span ≤ image.wordMax + 1
  fits : image.lowest + image.span ≤ image.wordMax
  above : image.lowest ≤ image.reservation

/-- A word inside of the image has an address. -/
theorem runtimePointer_inside (h : Placed image) (ho : WordInside image o) :
    runtimePointer image image.wordBytes 1 o = some (image.bias + o) := by
  obtain ⟨⟨h0, hres⟩, hfits, habove⟩ := h
  obtain ⟨hlo, hhi⟩ := ho
  have hpos := wordBytes_pos image
  have hbias := bias_eq habove (by omega)
  have hin : addressSpaceContains image (image.bias + o) (image.wordBytes * 1) = true := by
    rw [addressSpaceContains_iff h0 (by omega) (by omega)]
    omega
  rw [runtimePointer, if_neg (by omega), if_neg (by omega), if_pos hin]

/-! ## 4. One word of the table -/

theorem patchRelativeWord_inside (h : Placed image) (ho : WordInside image o) (base : ℕ)
    (m : Memory) : patchRelativeWord image o ⟨base, m⟩ =
      ⟨true, ⟨base, patchWord image m o⟩, [wordWrite image o]⟩ := by
  rw [patchRelativeWord, runtimePointer_inside h ho]
  rfl

theorem andThen_ok {σ ω : Type*} {s : σ} {ws : List ω} {f : σ → Outcome σ ω} :
    (⟨true, s, ws⟩ : Outcome σ ω).andThen f = ⟨(f s).ok, (f s).state, ws ++ (f s).writes⟩ := rfl

/-- **The bits of a bitmap.** -/
theorem pass_bits (h : Placed image) {bitmap : ℕ} {bits : List ℕ}
    (hin : ∀ bit ∈ bits, bitmap.testBit bit = true →
      WordInside image (base + bit * image.wordBytes)) :
    pass (patchBit image bitmap) bits ⟨base, m⟩ =
      ⟨true, ⟨base, patched image m ((bits.filter fun bit => bitmap.testBit bit).map fun bit =>
          base + bit * image.wordBytes)⟩,
        ((bits.filter fun bit => bitmap.testBit bit).map fun bit =>
          base + bit * image.wordBytes).map (wordWrite image)⟩ := by
  induction bits generalizing m with
  | nil => rfl
  | cons bit bits ih =>
    have hrest := fun m : Memory =>
      ih (m := m) fun b hb => hin b (List.mem_cons_of_mem bit hb)
    rw [Passes.pass, patchBit]
    by_cases hbit : bitmap.testBit bit = true
    · have hword := hin bit List.mem_cons_self hbit
      have hroom : ¬ image.wordMax - bit * image.wordBytes < base := by
        have := h.fits
        have := hword.2
        omega
      simp only [if_pos hbit, if_neg hroom]
      rw [patchRelativeWord_inside h hword, andThen_ok, hrest, List.filter_cons_of_pos hbit]
      rfl
    · simp only [if_neg hbit]
      rw [Outcome.done, andThen_ok, hrest, List.filter_cons_of_neg hbit]
      rfl

/-- **A word of the table relocates the offsets that it describes.** -/
theorem applyRelr_word (h : Placed image) {address e : ℕ}
    (hword : load m address image.wordBytes = e)
    (hin : ∀ o ∈ Relr.offsets image.wordBytes base e, WordInside image o)
    (hwithin : e % 2 = 1 → Relr.next image.wordBytes base e ≤ image.wordMax) :
    applyRelr image address ⟨base, m⟩ =
      ⟨true, ⟨Relr.next image.wordBytes base e,
          patched image m (Relr.offsets image.wordBytes base e)⟩,
        (Relr.offsets image.wordBytes base e).map (wordWrite image)⟩ := by
  rw [applyRelr]
  simp only [hword]
  by_cases heven : e % 2 = 0
  · rw [Relr.offsets, if_pos heven] at hin ⊢
    have hinside := hin e List.mem_cons_self
    have hroom : ¬ image.wordMax - image.wordBytes < e := by
      have := h.fits
      have := hinside.2
      omega
    rw [if_pos heven, patchRelativeWord_inside h hinside, andThen_ok, advance, if_neg hroom,
      Relr.next, if_pos heven]
    rfl
  · have hnext : Relr.next image.wordBytes base e =
        base + bitmapBits image * image.wordBytes := by rw [Relr.next, if_neg heven]; rfl
    have hle := hwithin (by omega)
    rw [hnext] at hle ⊢
    rw [Relr.offsets, if_neg heven] at hin ⊢
    have hbits : ∀ bit ∈ List.range (bitmapBits image), (e / 2).testBit bit = true →
        WordInside image (base + bit * image.wordBytes) := fun bit hbit hset =>
      hin _ (List.mem_map.mpr ⟨bit, List.mem_filter.mpr ⟨hbit, hset⟩, rfl⟩)
    have hroom : ¬ image.wordMax - bitmapBits image * image.wordBytes < base := by omega
    rw [if_neg heven, pass_bits h hbits, andThen_ok, advance, if_neg hroom, Outcome.done]
    rw [List.append_nil]
    rfl

/-! ## 5. The table -/

/-- A table that reads the same, word after word, while it is applied. -/
def ReadsSame (image : Image) (m : Memory) (base start : ℕ) (es : List ℕ) : Prop :=
  ∀ i (h : i < es.length),
    load (patched image m (Relr.decode image.wordBytes base (es.take i)))
      (image.relr + (start + i) * image.wordBytes) image.wordBytes = es.get ⟨i, h⟩

/-- **The words of the table, one after the other.** -/
theorem pass_words (h : Placed image) {start : ℕ} (hsame : ReadsSame image m base start es)
    (hin : ∀ o ∈ Relr.decode image.wordBytes base es, WordInside image o)
    (hwithin : Relr.Within image.wordBytes image.wordMax base es) :
    ∃ last, pass (applyRelr image)
      ((List.range' start es.length).map fun i => image.relr + i * image.wordBytes) ⟨base, m⟩ =
      ⟨true, ⟨last, patched image m (Relr.decode image.wordBytes base es)⟩,
        (Relr.decode image.wordBytes base es).map (wordWrite image)⟩ := by
  induction es generalizing base start m with
  | nil => exact ⟨base, rfl⟩
  | cons e es ih =>
    have hread : load m (image.relr + start * image.wordBytes) image.wordBytes = e :=
      hsame 0 (Nat.succ_pos _)
    rw [Relr.decode] at hin
    have hfirst := applyRelr_word h hread
      (fun o ho => hin o (List.mem_append_left _ ho)) hwithin.1
    have hsame' : ReadsSame image (patched image m (Relr.offsets image.wordBytes base e))
        (Relr.next image.wordBytes base e) (start + 1) es := fun i hi => by
      have hlater := hsame (i + 1) (Nat.succ_lt_succ hi)
      rw [List.take_succ_cons, Relr.decode, patched_append, ← Nat.add_assoc,
        Nat.add_right_comm] at hlater
      exact hlater
    obtain ⟨last, hrest⟩ := ih hsame' (fun o ho => hin o (List.mem_append_right _ ho)) hwithin.2
    refine ⟨last, ?_⟩
    rw [List.length_cons, List.range'_succ, List.map_cons, Passes.pass, hfirst, andThen_ok, hrest,
      Relr.decode, patched_append, List.map_append]

/-- **The table adds the bias once to the word at each offset of the set, and to no other.** -/
structure Relocates (image : Image) (m : Memory) (S : Finset ℕ) : Prop where
  ok : (applyRelrSpan image m).ok = true
  words : ∀ o ∈ S, load (applyRelrSpan image m).state (image.bias + o) image.wordBytes =
    (load m (image.bias + o) image.wordBytes + image.bias) % (image.wordMax + 1)
  once : ∃ l : List ℕ, l.Nodup ∧ l.toFinset = S ∧
    (applyRelrSpan image m).writes = l.map (wordWrite image)
  frame : ∀ a, (∀ o ∈ S, a < image.bias + o ∨ image.bias + o + image.wordBytes ≤ a) →
    (applyRelrSpan image m).state a = m a

/-- The offsets of a set are those of words of the image. -/
def SetInside (image : Image) (S : Finset ℕ) : Prop :=
  ∀ o ∈ S, image.wordBytes ∣ o ∧ WordInside image o

/-- No word of the table is relocated before it is read. -/
def ReadFirst (image : Image) (es : List ℕ) : Prop :=
  ∀ i < es.length, ∀ o ∈ Relr.decode image.wordBytes 0 (es.take i),
    image.bias + o + image.wordBytes ≤ image.relr + i * image.wordBytes ∨
      image.relr + i * image.wordBytes + image.wordBytes ≤ image.bias + o

/-- The bitmaps of the table end in the address space. -/
def EndsInSpace (image : Image) (es : List ℕ) : Prop :=
  Relr.Within image.wordBytes image.wordMax 0 es

theorem readsSame_of_readFirst (h : Table image m es) (hfirst : ReadFirst image es) :
    ReadsSame image m 0 0 es := fun i hi => by
  rw [Nat.zero_add, ← h.words i hi]
  refine load_congr fun b hb => patched_apart ?_
  intro o ho
  rcases hfirst i hi o ho with hlt | hlt
  · exact .inr (by omega)
  · exact .inl (by omega)

/-- The whole of `apply_relr_span`. -/
theorem applyRelrSpan_eq (h : Table image m es)
    (hin : ∀ o ∈ Relr.decode image.wordBytes 0 es, WordInside image o)
    (hfirst : ReadFirst image es) (hends : EndsInSpace image es) :
    applyRelrSpan image m = ⟨true, patched image m (Relr.decode image.wordBytes 0 es),
      (Relr.decode image.wordBytes 0 es).map (wordWrite image)⟩ := by
  have hpos := wordBytes_pos image
  rw [applyRelrSpan]
  by_cases hempty : image.relrBytes = 0
  · have hnil : es = [] := by
      rw [h.bytes] at hempty
      exact List.length_eq_zero_iff.mp ((Nat.mul_eq_zero.mp hempty).resolve_right (by omega))
    subst hnil
    rw [if_pos hempty]
    rfl
  obtain ⟨v, hv⟩ := h.found hempty
  have hplaced : Placed image := ⟨h.reserved, h.fits, lowest_le_reservation h hv⟩
  obtain ⟨-, hrelr, -⟩ := runtimePointer_some hv
  have hcount : image.relrBytes / image.wordBytes = es.length := by
    rw [h.bytes, Nat.mul_div_cancel _ hpos]
  have hguard : ¬ (image.relr = 0 ∨ image.relrBytes % image.wordBytes ≠ 0) := by
    rw [h.bytes, Nat.mul_mod_left]
    have := h.reserved.1
    omega
  obtain ⟨last, hpass⟩ := pass_words hplaced (readsSame_of_readFirst h hfirst) hin hends
  rw [if_neg hempty, if_neg hguard, relrLoop, hcount, List.range_eq_range', hpass]

/-- **What the RELR table does**: for every set of aligned offsets of words of the image and every
table that encodes it, of which no word is relocated before it is read and no bitmap reaches past
the end of the address space, each word of the set gets the bias once and nothing else changes. -/
theorem relocates (image : Image) (m : Memory) (es : List ℕ) (S : Finset ℕ)
    (htable : Table image m es) (hset : SetInside image S)
    (hencodes : Relr.Encodes image.wordBytes es S) (hfirst : ReadFirst image es)
    (hends : EndsInSpace image es) : Relocates image m S := by
  have hmem : ∀ {o}, o ∈ Relr.decode image.wordBytes 0 es ↔ o ∈ S := hencodes.mem_iff
  have hspan := applyRelrSpan_eq htable (fun o ho => (hset o (hmem.mp ho)).2) hfirst hends
  have halign : ∀ o ∈ Relr.decode image.wordBytes 0 es, image.wordBytes ∣ o :=
    fun o ho => (hset o (hmem.mp ho)).1
  refine ⟨?_, ?_, ⟨_, hencodes.nodup, hencodes.set, ?_⟩, ?_⟩
  · rw [hspan]
  · intro o ho
    rw [hspan]
    exact load_patched halign hencodes.nodup (hmem.mpr ho)
  · rw [hspan]
  · intro a ha
    rw [hspan]
    exact patched_apart fun o ho => ha o (hmem.mp ho)

/-- An image of one page, from a lowest address on, with its table at offset
`0x100` of the page. -/
def tableImage (arch : Arch) (lowest reservation : ℕ) (es : List ℕ) : Image where
  arch := arch
  full := true
  reservation := reservation
  span := 0x1000
  lowest := lowest
  rel := 0
  relBytes := 0
  plt := 0
  pltBytes := 0
  relr := reservation + 0x100
  relrBytes := es.length * arch.wordBytes
  symbols := 0
  symbolCount := 0
  tlsActive := false
  tlsModule := 0
  tlsGeneration := 0
  tlsBytes := 0

/-- An address and a bitmap of two words. -/
theorem relocates_sample : Relocates (tableImage .aarch64 0 0x20000 [0x200, 11])
    (tableMemory 8 0x20100 [0x200, 11]) {0x200, 0x208, 0x218} := by
  refine relocates _ _ [0x200, 11] _ ⟨by decide, by decide, by decide, fun _ => ⟨0x100, by decide⟩,
    by decide +kernel⟩ ?_ ⟨by decide, by decide, by decide⟩ ?_ ?_
  · unfold SetInside WordInside
    decide
  · unfold ReadFirst
    decide
  · unfold EndsInSpace
    decide

/-- A table whose first word relocates the second one. -/
def selfTable : List ℕ := [0x104, 0x200]

/-- A table that goes past the end of the address space, without a bit, before its last word. -/
def emptyRun : List ℕ := 0xFFFFEFF0 :: List.replicate 34 1 ++ [0xFFFFEFF8]

/-- Both provisos are needed: **a word that is relocated before it is read** is read as something
else, and **a bitmap past the end of the address space** ends the pass. -/
theorem not_relocates :
    (¬ ∀ image m es S, Table image m es → SetInside image S →
      Relr.Encodes image.wordBytes es S → EndsInSpace image es → Relocates image m S) ∧
    ¬ ∀ image m es S, Table image m es → SetInside image S →
      Relr.Encodes image.wordBytes es S → ReadFirst image es → Relocates image m S := by
  constructor
  · intro h
    have hrel := h (tableImage .arm 0 0x20000 selfTable) (tableMemory 4 0x20100 selfTable) selfTable
      {0x104, 0x200} ⟨by decide, by decide, by decide, fun _ => ⟨0x100, by decide⟩,
        by decide +kernel⟩ (by unfold SetInside WordInside; decide)
      ⟨by decide, by decide, by decide⟩ (by unfold EndsInSpace; decide)
    have hok : (applyRelrSpan (tableImage .arm 0 0x20000 selfTable)
        (tableMemory 4 0x20100 selfTable)).ok = false := by decide +kernel
    rw [hrel.ok] at hok
    cases hok
  · intro h
    have hrel := h (tableImage .arm 0xFFFFE000 0xFFFFF000 emptyRun)
      (tableMemory 4 0xFFFFF100 emptyRun) emptyRun {0xFFFFEFF0, 0xFFFFEFF8}
      ⟨by decide, by decide, by decide, fun _ => ⟨0xFFFFE100, by decide⟩, by decide +kernel⟩
      (by unfold SetInside WordInside; decide)
      ⟨by decide, by decide +kernel, by decide +kernel⟩ (by unfold ReadFirst; decide +kernel)
    have hok : (applyRelrSpan (tableImage .arm 0xFFFFE000 0xFFFFF000 emptyRun)
        (tableMemory 4 0xFFFFF100 emptyRun)).ok = false := by decide +kernel
    rw [hrel.ok] at hok
    cases hok

end YukiZygisk.Relocation
