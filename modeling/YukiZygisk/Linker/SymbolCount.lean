/-
# Counting symbols by a GNU hash section (`symbol_count_from_gnu`)

The number of symbols of an image is written nowhere.  The loader takes it from the hash section:
it looks for the largest bucket, and follows its chain to the word that ends it.  The section is
data of the file, so its counts may be anything, and a chain may have no end.

**For a well-formed section the loader counts its symbols** (`counts_symbols`).  Whatever the bytes
are, it comes to an end, and reads in the image only (`returns_inside`): each word is checked
before it is read, and the words of a chain follow each other to the end of the image.

The reads are a list that goes with the result, so that reading inside is a statement about any
bytes.  The loop over the chain has no bound in the source.  It ends because the address of the word
grows with each turn and has to stay inside of the image (`chainAddress_succ`), so fuel in the size
of the image is enough, and more of it changes nothing (`steady_count`).  For a well-formed section
the largest bucket is where the last block begins (`Lib/GnuHash`), and the loop goes over that block
to its odd word, which is the last one (`followChain_block`).
-/
import YukiZygisk.Lib.Fuel
import YukiZygisk.Lib.GnuHash
import YukiZygisk.Linker.Relocation

namespace YukiZygisk.Relocation

/-! ## 1. The count -/

/-- `bytes` bytes that are read from `address` on. -/
structure Read where
  address : ℕ
  bytes : ℕ
  deriving DecidableEq

/-- What a count gives, and what it has read. -/
structure Count where
  symbols : ℕ
  reads : List Read
  deriving DecidableEq

/-- A `uint32_t` of the image. -/
def word32 (m : Memory) (address : ℕ) : ℕ := load m address 4

/-- The address `chains + (symbol_index - first_hashed_symbol)`, in machine arithmetic. -/
def chainAddress (image : Image) (chains firstHashed symbolIndex : ℕ) : ℕ :=
  (chains + (symbolIndex + (image.wordMax + 1) - firstHashed) % (image.wordMax + 1) * 4) %
    (image.wordMax + 1)

/-- The last loop of `symbol_count_from_gnu`, with a bound on its turns. -/
def followChain (image : Image) (m : Memory) (chains firstHashed : ℕ) : ℕ → ℕ → Option Count
  | 0, _ => none
  | turns + 1, symbolIndex =>
    let chain := chainAddress image chains firstHashed symbolIndex
    if !addressSpaceContains image chain 4 then some ⟨0, []⟩
    else
      let next := (symbolIndex + 1) % (image.wordMax + 1)
      if word32 m chain % 2 = 1 then some ⟨next, [⟨chain, 4⟩]⟩
      else (followChain image m chains firstHashed turns next).map fun c =>
        { c with reads := ⟨chain, 4⟩ :: c.reads }

/-- The reads of the words of an array. -/
def arrayReads (address count : ℕ) : List Read :=
  (List.range count).map fun i => ⟨address + i * 4, 4⟩

/-- The part of `symbol_count_from_gnu` behind its checks. -/
def countBuckets (image : Image) (m : Memory) (turns buckets bucketCount firstHashed : ℕ) :
    Option Count :=
  let largestBucket :=
    ((List.range bucketCount).map fun i => word32 m (buckets + i * 4)).foldl max 0
  if largestBucket < firstHashed then some ⟨firstHashed, arrayReads buckets bucketCount⟩
  else
    (followChain image m (buckets + bucketCount * 4) firstHashed turns largestBucket).map fun c =>
      { c with reads := arrayReads buckets bucketCount ++ c.reads }

/-- `symbol_count_from_gnu`, with a bound on the turns of its last loop. -/
def symbolCountFromGnu (image : Image) (m : Memory) (turns table : ℕ) : Option Count :=
  if !addressSpaceContains image table (4 * 4) then some ⟨0, []⟩
  else
    let bucketCount := word32 m table
    let firstHashed := word32 m (table + 4)
    let bloomWords := word32 m (table + 8)
    let header := arrayReads table 3
    if bucketCount = 0 ∨ bloomWords = 0 then some ⟨0, header⟩
    else
      let bloom := table + 16
      let bloomBytes := bloomWords * image.wordBytes
      if image.wordMax < bloomBytes ∨ !addressSpaceContains image bloom bloomBytes then
        some ⟨0, header⟩
      else
        let buckets := bloom + bloomBytes
        if image.wordMax < bucketCount * 4 ∨
            !addressSpaceContains image buckets (bucketCount * 4) then some ⟨0, header⟩
        else
          (countBuckets image m turns buckets bucketCount firstHashed).map fun c =>
            { c with reads := header ++ c.reads }

/-! ## 2. Any bytes -/

variable {image : Image} {m : Memory} {a n turns table chains firstHashed symbolIndex : ℕ}
  {c : Count}

/-- A read lies in the reservation of the image. -/
def ReadInside (image : Image) (r : Read) : Prop :=
  image.reservation ≤ r.address ∧ r.address + r.bytes ≤ image.reservation + image.span

/-- What passes the check lies in the image. -/
theorem inside_of_contains (h : addressSpaceContains image a n = true) :
    image.reservation ≤ a ∧ a + n ≤ image.reservation + image.span := by
  rw [addressSpaceContains] at h
  split_ifs at h with _ hrange
  rw [decide_eq_true_eq] at h
  omega

/-- An array that passes is read inside. -/
theorem arrayReads_inside {k : ℕ} (h : addressSpaceContains image a n = true) (hk : k * 4 ≤ n) :
    ∀ r ∈ arrayReads a k, ReadInside image r := by
  intro r hr
  obtain ⟨i, hi, rfl⟩ := List.mem_map.mp hr
  have hi' := List.mem_range.mp hi
  obtain ⟨hlo, hhi⟩ := inside_of_contains h
  exact ⟨by dsimp only; omega, by dsimp only; omega⟩

theorem load_lt (m : Memory) (a n : ℕ) : load m a n < 256 ^ n := by
  induction n with
  | zero => exact Nat.one_pos
  | succ n ih =>
    have hbyte : (m (a + n)).toNat < 256 := UInt8.toNat_lt _
    have hle : (m (a + n)).toNat * 256 ^ n ≤ 255 * 256 ^ n :=
      Nat.mul_le_mul_right _ (by omega)
    rw [load, pow_succ]
    omega

theorem word32_le (image : Image) (m : Memory) (a : ℕ) : word32 m a ≤ image.wordMax := by
  have hlt : word32 m a < 256 ^ 4 := load_lt m a 4
  have hword : 2 ^ 32 - 1 ≤ image.wordMax := by
    rw [Image.wordMax, Arch.wordMax]
    cases image.arch <;> decide
  omega

/-- **The words of a chain follow each other**, in machine arithmetic. -/
theorem chainAddress_succ (chains symbolIndex : ℕ) (hfirst : firstHashed ≤ image.wordMax + 1) :
    chainAddress image chains firstHashed ((symbolIndex + 1) % (image.wordMax + 1)) =
      (chainAddress image chains firstHashed symbolIndex + 4) % (image.wordMax + 1) := by
  generalize hN : image.wordMax + 1 = N at hfirst
  have hindex : ((symbolIndex + 1) % N + N - firstHashed) % N ≡
      (symbolIndex + N - firstHashed) % N + 1 [MOD N] := by
    have hsub : ∀ x, x + N - firstHashed = x + (N - firstHashed) := fun x => by omega
    rw [hsub, hsub]
    calc ((symbolIndex + 1) % N + (N - firstHashed)) % N
        ≡ (symbolIndex + 1) % N + (N - firstHashed) [MOD N] := Nat.mod_modEq _ _
      _ ≡ symbolIndex + 1 + (N - firstHashed) [MOD N] := (Nat.mod_modEq _ _).add_right _
      _ = symbolIndex + (N - firstHashed) + 1 := by omega
      _ ≡ (symbolIndex + (N - firstHashed)) % N + 1 [MOD N] :=
        ((Nat.mod_modEq _ _).symm).add_right 1
  rw [chainAddress, chainAddress, hN, Nat.mod_add_mod]
  have hmul := (hindex.mul_right 4).add_left chains
  rw [Nat.add_mul, Nat.one_mul, ← Nat.add_assoc] at hmul
  exact hmul

/-- **A chain ends** in the image, or where the image does. -/
theorem followChain_returns (hspace : image.reservation + image.span ≤ image.wordMax + 1)
    (hfirst : firstHashed ≤ image.wordMax + 1)
    (hturns : image.reservation + image.span <
      chainAddress image chains firstHashed symbolIndex + 4 * turns) (hpos : 0 < turns) :
    ∃ c, followChain image m chains firstHashed turns symbolIndex = some c ∧
      ∀ r ∈ c.reads, ReadInside image r := by
  induction turns generalizing symbolIndex with
  | zero => omega
  | succ turns ih =>
    rw [followChain]
    dsimp only
    by_cases hin : addressSpaceContains image (chainAddress image chains firstHashed symbolIndex)
        4 = true
    · obtain ⟨hlo, hhi⟩ := inside_of_contains hin
      have hread : ReadInside image ⟨chainAddress image chains firstHashed symbolIndex, 4⟩ :=
        ⟨hlo, hhi⟩
      rw [if_neg (by rw [hin]; decide)]
      split_ifs with hodd
      · exact ⟨_, rfl, fun r hr => List.mem_singleton.mp hr ▸ hread⟩
      -- the next word is 4 bytes on, or the first one of the address space
      have hnext := chainAddress_succ chains symbolIndex hfirst
      obtain ⟨c, hc, hreads⟩ : ∃ c, followChain image m chains firstHashed turns
          ((symbolIndex + 1) % (image.wordMax + 1)) = some c ∧
            ∀ r ∈ c.reads, ReadInside image r := by
        have hturn : 0 < turns := by omega
        by_cases hlast : chainAddress image chains firstHashed symbolIndex + 4 = image.wordMax + 1
        · rw [hlast, Nat.mod_self] at hnext
          obtain ⟨t, rfl⟩ := Nat.exists_eq_succ_of_ne_zero hturn.ne'
          have hnull : addressSpaceContains image 0 4 = false := by
            rw [addressSpaceContains, if_pos (.inr rfl)]
          refine ⟨⟨0, []⟩, ?_, by rintro r ⟨⟩⟩
          rw [followChain, hnext, hnull]
          rfl
        · have hlt : chainAddress image chains firstHashed symbolIndex + 4 < image.wordMax + 1 := by
            omega
          rw [Nat.mod_eq_of_lt hlt] at hnext
          exact ih (by rw [hnext]; omega) hturn
      refine ⟨_, by rw [hc]; rfl, ?_⟩
      intro r hr
      rcases List.mem_cons.mp hr with rfl | hr
      · exact hread
      · exact hreads r hr
    · rw [if_pos (by simpa using hin)]
      exact ⟨_, rfl, by rintro r ⟨⟩⟩

/-- **The count comes to an end and reads in the image only**, for any bytes. -/
theorem returns_inside (image : Image) (m : Memory) (table turns : ℕ)
    (hspace : image.reservation + image.span ≤ image.wordMax + 1)
    (hturns : image.reservation + image.span < turns) :
    ∃ c, symbolCountFromGnu image m turns table = some c ∧ ∀ r ∈ c.reads, ReadInside image r := by
  rw [symbolCountFromGnu]
  dsimp only
  by_cases htable : addressSpaceContains image table (4 * 4) = true
  · rw [if_neg (by rw [htable]; decide)]
    have hheader := arrayReads_inside (k := 3) htable (by omega)
    split_ifs with hzero hbloom hbuckets
    · exact ⟨_, rfl, hheader⟩
    · exact ⟨_, rfl, hheader⟩
    · exact ⟨_, rfl, hheader⟩
    have hin : addressSpaceContains image
        (table + 16 + word32 m (table + 8) * image.wordBytes) (word32 m table * 4) = true := by
      simpa using (not_or.mp hbuckets).2
    have harray := arrayReads_inside hin le_rfl
    rw [countBuckets]
    split_ifs with hnone
    · refine ⟨_, rfl, ?_⟩
      intro r hr
      rcases List.mem_append.mp hr with hr | hr
      · exact hheader r hr
      · exact harray r hr
    · have hfirst := (word32_le image m (table + 4)).trans (Nat.le_succ _)
      have hreturns : ∀ chains symbolIndex, ∃ c, followChain image m chains (word32 m (table + 4))
          turns symbolIndex = some c ∧ ∀ r ∈ c.reads, ReadInside image r :=
        fun chains symbolIndex => followChain_returns hspace hfirst (by omega) (by omega)
      obtain ⟨c, hc, hreads⟩ := hreturns
        (table + 16 + word32 m (table + 8) * image.wordBytes + word32 m table * 4)
        (((List.range (word32 m table)).map fun i => word32 m
          (table + 16 + word32 m (table + 8) * image.wordBytes + i * 4)).foldl max 0)
      refine ⟨_, by rw [hc]; rfl, ?_⟩
      intro r hr
      rcases List.mem_append.mp hr with hr | hr
      · exact hheader r hr
      · rcases List.mem_append.mp hr with hr | hr
        · exact harray r hr
        · exact hreads r hr
  · rw [if_pos (by simpa using htable)]
    exact ⟨_, rfl, nofun⟩

/-! ## 3. Well-formed sections -/

/-- The section is in the image from `table` on, and its symbols can be counted. -/
structure HoldsSection (image : Image) (m : Memory) (table : ℕ) (s : GnuHash.Section) : Prop where
  bucketCount : word32 m table = s.buckets.length
  symOffset : word32 m (table + 4) = s.symOffset
  bloomWords : word32 m (table + 8) = s.bloom.length
  buckets : ∀ i (h : i < s.buckets.length),
    word32 m (table + 16 + s.bloom.length * image.wordBytes + i * 4) = s.buckets.get ⟨i, h⟩
  chain : ∀ i (h : i < s.chain.length),
    word32 m (table + 16 + s.bloom.length * image.wordBytes + s.buckets.length * 4 + i * 4) =
      s.chain.get ⟨i, h⟩
  inside : addressSpaceContains image table (16 + s.bloom.length * image.wordBytes +
    s.buckets.length * 4 + s.chain.length * 4) = true
  count : s.count ≤ image.wordMax

/-- Part of a range in the image is in it. -/
theorem contains_part {k d : ℕ} (h : addressSpaceContains image a n = true) (hd : d + k ≤ n) :
    addressSpaceContains image (a + d) k = true := by
  rw [addressSpaceContains] at h
  split_ifs at h with hnull hrange
  rw [decide_eq_true_eq] at h
  rw [addressSpaceContains, if_neg (by omega), if_neg (by omega), decide_eq_true_eq]
  omega

/-- The address of a word of the chain array. -/
theorem chainAddress_eq {i : ℕ} (hindex : firstHashed + i ≤ image.wordMax)
    (haddress : chains + i * 4 ≤ image.wordMax) :
    chainAddress image chains firstHashed (firstHashed + i) = chains + i * 4 := by
  have hsum : firstHashed + i + (image.wordMax + 1) - firstHashed = i + (image.wordMax + 1) := by
    omega
  have hmod : (i + (image.wordMax + 1)) % (image.wordMax + 1) = i := by
    rw [Nat.add_mod_right, Nat.mod_eq_of_lt (by omega)]
  rw [chainAddress, hsum, hmod, Nat.mod_eq_of_lt (by omega)]

/-- **Following the rest of a block** counts its symbols. -/
theorem followChain_block {front : List ℕ} {last i : ℕ} (hlast : last % 2 = 1)
    (hfront : ∀ x ∈ front, x % 2 = 0)
    (hwords : ∀ j (h : j < (front ++ [last]).length),
      word32 m (chains + (i + j) * 4) = (front ++ [last]).get ⟨j, h⟩)
    (hin : ∀ j < (front ++ [last]).length,
      addressSpaceContains image (chains + (i + j) * 4) 4 = true ∧
        chains + (i + j) * 4 ≤ image.wordMax)
    (hindex : firstHashed + i + (front ++ [last]).length ≤ image.wordMax)
    (hturns : (front ++ [last]).length ≤ turns) :
    ∃ reads, followChain image m chains firstHashed turns (firstHashed + i) =
      some ⟨firstHashed + i + (front ++ [last]).length, reads⟩ := by
  induction front generalizing i turns with
  | nil =>
    obtain ⟨t, rfl⟩ := Nat.exists_eq_succ_of_ne_zero (by simp at hturns; omega : turns ≠ 0)
    have hone : ([] ++ [last] : List ℕ).length = 1 := rfl
    rw [hone] at hindex ⊢
    obtain ⟨hcontained, haddress⟩ := hin 0 Nat.one_pos
    have hword : word32 m (chains + (i + 0) * 4) = last := hwords 0 Nat.one_pos
    rw [Nat.add_zero] at hcontained haddress hword
    have hlt : firstHashed + i + 1 < image.wordMax + 1 := by omega
    rw [followChain]
    dsimp only
    rw [chainAddress_eq (by omega) haddress, hcontained, hword, if_neg (by decide), if_pos hlast,
      Nat.mod_eq_of_lt hlt]
    exact ⟨_, rfl⟩
  | cons x front ih =>
    have hlength : (x :: front ++ [last]).length = (front ++ [last]).length + 1 := rfl
    rw [hlength] at hindex hturns ⊢
    obtain ⟨t, rfl⟩ := Nat.exists_eq_succ_of_ne_zero (by omega : turns ≠ 0)
    obtain ⟨hcontained, haddress⟩ := hin 0 (Nat.succ_pos _)
    have hword : word32 m (chains + (i + 0) * 4) = x := hwords 0 (Nat.succ_pos _)
    rw [Nat.add_zero] at hcontained haddress hword
    have hnext : ∀ j, i + 1 + j = i + (j + 1) := fun j => by omega
    obtain ⟨reads, hrest⟩ : ∃ reads, followChain image m chains firstHashed t
        (firstHashed + (i + 1)) = some ⟨firstHashed + (i + 1) + (front ++ [last]).length, reads⟩ :=
      ih (fun y hy => hfront y (List.mem_cons_of_mem x hy))
        (fun j hj => by rw [hnext]; exact hwords (j + 1) (Nat.succ_lt_succ hj))
        (fun j hj => by rw [hnext]; exact hin (j + 1) (Nat.succ_lt_succ hj))
        (by omega) (by omega)
    have heven : ¬ x % 2 = 1 := by
      rw [hfront x List.mem_cons_self]
      decide
    have hlt : firstHashed + i + 1 < image.wordMax + 1 := by omega
    rw [followChain]
    dsimp only
    rw [chainAddress_eq (by omega) haddress, hcontained, hword, if_neg (by decide), if_neg heven,
      Nat.mod_eq_of_lt hlt, Nat.add_assoc firstHashed, hrest]
    have hsum : firstHashed + (i + 1) + (front ++ [last]).length =
        firstHashed + i + ((front ++ [last]).length + 1) := by omega
    rw [← hsum]
    exact ⟨_, rfl⟩

/-- **The count of a well-formed section** is the number of symbols that it covers. -/
theorem count_of_section {s : GnuHash.Section} (hwell : s.WellFormed)
    (hspace : image.reservation + image.span ≤ image.wordMax + 1)
    (hsection : HoldsSection image m table s) (hturns : s.chain.length < turns) :
    ∃ reads, symbolCountFromGnu image m turns table = some ⟨s.count, reads⟩ := by
  obtain ⟨hbuckets, hoffset, hbloom, hbucketWords, hchain, hinside, hcount⟩ := hsection
  obtain ⟨-, hend⟩ := inside_of_contains hinside
  have hbucketsPos : s.buckets.length ≠ 0 := fun h => hwell.buckets (List.length_eq_zero_iff.mp h)
  have hbloomPos : s.bloom.length ≠ 0 := fun h => hwell.bloom (List.length_eq_zero_iff.mp h)
  have htable : addressSpaceContains image table (4 * 4) = true :=
    contains_part (d := 0) hinside (by omega)
  have hbloomIn : addressSpaceContains image (table + 16)
      (s.bloom.length * image.wordBytes) = true := contains_part hinside (by omega)
  have hbucketsIn : addressSpaceContains image (table + 16 + s.bloom.length * image.wordBytes)
      (s.buckets.length * 4) = true := by
    rw [Nat.add_assoc]
    exact contains_part hinside (by omega)
  have hlargest : ((List.range s.buckets.length).map fun i => word32 m
      (table + 16 + s.bloom.length * image.wordBytes + i * 4)).foldl max 0 =
      s.buckets.foldl max 0 := by
    congr 1
    refine List.ext_getElem (by simp) ?_
    intro i h _
    rw [List.length_map, List.length_range] at h
    simpa using hbucketWords i h
  rw [symbolCountFromGnu]
  dsimp only
  rw [htable, hbuckets, hoffset, hbloom, hbloomIn, hbucketsIn, if_neg (by decide),
    if_neg (by omega), if_neg (by simp; omega), if_neg (by simp; omega), countBuckets, hlargest]
  rcases List.eq_nil_or_concat s.blocks with hnil | ⟨front, block, hlast⟩
  · -- no symbol is in a bucket
    have hzero : s.count = s.symOffset := by
      rw [GnuHash.Section.count, GnuHash.Section.chain, hnil]
      rfl
    have hoffsetPos := hwell.offset
    rw [GnuHash.largest_of_empty hwell hnil, if_pos hwell.offset, hzero]
    exact ⟨_, rfl⟩
  · rw [List.concat_eq_append] at hlast
    have hblock : block ∈ s.blocks := hlast ▸ List.mem_append_right _ List.mem_cons_self
    obtain ⟨init, last, rfl, heven, hodd⟩ := hwell.blocks block hblock
    have hsplit : s.chain = front.flatten ++ (init ++ [last]) := by
      rw [GnuHash.Section.chain, hlast, List.flatten_append, List.flatten_singleton]
    have hlength : s.chain.length = front.flatten.length + (init ++ [last]).length := by
      rw [hsplit, List.length_append]
    have hall : s.count = s.symOffset + front.flatten.length + (init ++ [last]).length := by
      rw [GnuHash.Section.count, hlength, Nat.add_assoc]
    have hwords : ∀ j (h : j < (init ++ [last]).length), word32 m (table + 16 +
        s.bloom.length * image.wordBytes + s.buckets.length * 4 + (front.flatten.length + j) * 4) =
        (init ++ [last]).get ⟨j, h⟩ := fun j h => by
      rw [hchain (front.flatten.length + j) (by omega)]
      simp only [List.get_eq_getElem, hsplit]
      rw [List.getElem_append_right (by omega)]
      simp
    have hchainIn : ∀ j < (init ++ [last]).length, addressSpaceContains image (table + 16 +
        s.bloom.length * image.wordBytes + s.buckets.length * 4 + (front.flatten.length + j) * 4)
        4 = true ∧ table + 16 + s.bloom.length * image.wordBytes + s.buckets.length * 4 +
          (front.flatten.length + j) * 4 ≤ image.wordMax := fun j hj => by
      refine ⟨?_, by omega⟩
      have hshape : table + 16 + s.bloom.length * image.wordBytes + s.buckets.length * 4 +
          (front.flatten.length + j) * 4 = table + (16 + s.bloom.length * image.wordBytes +
            s.buckets.length * 4 + (front.flatten.length + j) * 4) := by omega
      rw [hshape]
      exact contains_part hinside (by omega)
    obtain ⟨reads, hfollow⟩ : ∃ reads, followChain image m (table + 16 +
        s.bloom.length * image.wordBytes + s.buckets.length * 4) s.symOffset turns
        (s.symOffset + front.flatten.length) =
        some ⟨s.symOffset + front.flatten.length + (init ++ [last]).length, reads⟩ :=
      followChain_block hodd heven hwords hchainIn (by omega) (by omega)
    rw [GnuHash.largest_eq hwell hlast, if_neg (by omega), hfollow, hall]
    exact ⟨_, rfl⟩

/-! ## 4. The count -/

theorem steady_followChain (symbolIndex : ℕ) :
    Fuel.Steady fun turns => followChain image m chains firstHashed turns symbolIndex := by
  intro turns c h
  induction turns generalizing symbolIndex c with
  | zero => cases h
  | succ turns ih =>
    dsimp only at h ih ⊢
    rw [followChain] at h ⊢
    dsimp only at h ⊢
    split_ifs at h ⊢ with hin hodd
    · exact h
    · exact h
    · obtain ⟨c', hc', rfl⟩ := Option.map_eq_some_iff.mp h
      rw [ih _ c' hc']
      rfl

/-- A larger bound on the turns changes no count. -/
theorem steady_count (image : Image) (m : Memory) (table : ℕ) :
    Fuel.Steady fun turns => symbolCountFromGnu image m turns table := by
  intro turns c h
  dsimp only at h ⊢
  rw [symbolCountFromGnu] at h ⊢
  dsimp only at h ⊢
  split_ifs at h ⊢
  · exact h
  · exact h
  · exact h
  · exact h
  rw [countBuckets] at h ⊢
  split_ifs at h ⊢
  · exact h
  · obtain ⟨c', hc', rfl⟩ := Option.map_eq_some_iff.mp h
    obtain ⟨c'', hc'', rfl⟩ := Option.map_eq_some_iff.mp hc'
    have hnext := steady_followChain _ turns c'' hc''
    dsimp only at hnext
    rw [hnext]
    rfl

/-- **The count of an image**: whatever the bytes at `table` are, `symbol_count_from_gnu` comes to
an end, every read is in the reservation of the image, and for a well-formed section the result is
the number of symbols that it covers. -/
theorem counts_symbols (image : Image) (m : Memory) (table : ℕ)
    (hspace : image.reservation + image.span ≤ image.wordMax + 1) :
    ∃ c, (∃ bound, ∀ turns, bound ≤ turns → symbolCountFromGnu image m turns table = some c) ∧
      (∀ r ∈ c.reads, ReadInside image r) ∧
      ∀ s : GnuHash.Section, s.WellFormed → HoldsSection image m table s → c.symbols = s.count := by
  have hsteady := steady_count image m table
  obtain ⟨c, hc, hreads⟩ := returns_inside image m table _ hspace (Nat.lt_succ_self _)
  refine ⟨c, ⟨_, fun turns hle => hsteady.lift hc hle⟩, hreads, ?_⟩
  intro s hwell hsection
  obtain ⟨reads, hcount⟩ := count_of_section hwell hspace hsection (Nat.lt_succ_self _)
  rw [hsteady.unique hc hcount]

/-- A section with two buckets, the first one with one symbol and the second one with two. -/
def sampleSection : GnuHash.Section := ⟨1, [0], 0, [3, 1], [[4, 7], [9]]⟩

/-- The section counts four symbols. -/
theorem counts_symbols_sample : ∃ c, (∃ bound, ∀ turns, bound ≤ turns →
    symbolCountFromGnu sampleImage (tableMemory 4 0x20100 [2, 1, 1, 0, 0, 0, 3, 1, 4, 7, 9]) turns
      0x20100 = some c) ∧ c.symbols = 4 := by
  obtain ⟨c, hturns, -, hcount⟩ := counts_symbols sampleImage
    (tableMemory 4 0x20100 [2, 1, 1, 0, 0, 0, 3, 1, 4, 7, 9]) 0x20100 (by decide)
  have hblocks : ∀ b ∈ sampleSection.blocks, GnuHash.Block b := by
    intro b hb
    rcases List.mem_cons.mp hb with rfl | hb
    · exact ⟨[4], 7, rfl, by decide, by decide⟩
    · obtain rfl := List.mem_singleton.mp hb
      exact ⟨[], 9, rfl, nofun, by decide⟩
  refine ⟨c, hturns, hcount sampleSection ⟨by decide, by decide, by decide, hblocks, by decide,
    by decide⟩ ⟨by decide, by decide, by decide, by decide +kernel, by decide +kernel, by decide,
    by decide⟩⟩

end YukiZygisk.Relocation
