/-
# Hash tables with linear probing

Entries are put into a table of slots one after the other, and are never taken out.  An entry goes
to the first free slot from its home on, unless an entry with its key is met before.  A look-up
goes the same way.  So the table finds, for every key, **the first of the entries with it**
(`find_build`), as long as there are no more entries than slots.

`Indexed` says how the table and the list of entries belong together: each entry that is first with
its key stands in some slot, every slot between its home and that slot is taken by another key
(`Passed`), and nothing else is in the table.  A look-up goes over the same slots and so comes to
the entry (`look_of_passed`); for a key without an entry it comes to a free slot, of which there is
one as long as the table is not full (`exists_free`).  Putting an entry in changes one free slot,
and a free slot is passed by nobody, so the others stay as they are (`Indexed.insert`).
-/
import Mathlib

namespace Probing

variable {ι κ : Type*} [DecidableEq κ]

/-- The slots, by their number. -/
abbrev Slots (ι : Type*) := ℕ → Option ι

/-- Put an entry into the first free slot from `h` on, in at most `turns` turns. -/
def place (key : ι → κ) (cap : ℕ) (slots : Slots ι) (a : ι) : ℕ → ℕ → Slots ι
  | 0, _ => slots
  | turns + 1, h =>
    match slots (h % cap) with
    | none => Function.update slots (h % cap) (some a)
    | some b => if key b = key a then slots else place key cap slots a turns (h + 1)

/-- Look for a key from slot `h` on, in at most `turns` turns. -/
def look (key : ι → κ) (cap : ℕ) (slots : Slots ι) (k : κ) : ℕ → ℕ → Option ι
  | 0, _ => none
  | turns + 1, h =>
    match slots (h % cap) with
    | none => none
    | some b => if key b = k then some b else look key cap slots k turns (h + 1)

def insert (key : ι → κ) (home : κ → ℕ) (cap : ℕ) (slots : Slots ι) (a : ι) : Slots ι :=
  place key cap slots a cap (home (key a))

def find (key : ι → κ) (home : κ → ℕ) (cap : ℕ) (slots : Slots ι) (k : κ) : Option ι :=
  look key cap slots k cap (home k)

/-- The table of some entries. -/
def build (key : ι → κ) (home : κ → ℕ) (cap : ℕ) (l : List ι) : Slots ι :=
  l.foldl (insert key home cap) fun _ => none

variable {key : ι → κ} {home : κ → ℕ} {cap turns h d n : ℕ} {slots : Slots ι} {a b : ι} {k : κ}
  {l : List ι}

/-- The slots from `h` on are taken by entries with other keys. -/
def Passed (key : ι → κ) (cap : ℕ) (slots : Slots ι) (k : κ) (h d : ℕ) : Prop :=
  ∀ e < d, ∃ c, slots ((h + e) % cap) = some c ∧ key c ≠ k

omit [DecidableEq κ] in
theorem Passed.next (hp : Passed key cap slots k h (d + 1)) : Passed key cap slots k (h + 1) d :=
  fun e he => by
    have := hp (e + 1) (Nat.succ_lt_succ he)
    rwa [← Nat.add_assoc, Nat.add_right_comm] at this

/-- **A look-up stops at the key** once it has passed the others. -/
theorem look_of_passed (hp : Passed key cap slots k h d) (hd : d < turns)
    (hslot : slots ((h + d) % cap) = some b) (hkey : key b = k) :
    look key cap slots k turns h = some b := by
  induction d generalizing h turns with
  | zero =>
    obtain ⟨t, rfl⟩ := Nat.exists_eq_succ_of_ne_zero (by omega : turns ≠ 0)
    rw [Nat.add_zero] at hslot
    rw [look, hslot]
    exact if_pos hkey
  | succ d ih =>
    obtain ⟨t, rfl⟩ := Nat.exists_eq_succ_of_ne_zero (by omega : turns ≠ 0)
    obtain ⟨c, hc, hne⟩ := hp 0 (Nat.succ_pos d)
    rw [Nat.add_zero] at hc
    rw [look, hc]
    dsimp only
    rw [if_neg hne]
    refine ih hp.next (by omega) ?_
    rwa [Nat.add_assoc, Nat.add_comm 1]

/-- What a look-up finds is in the table. -/
theorem mem_of_look (hlook : look key cap slots k turns h = some b) :
    key b = k ∧ ∃ s, slots s = some b := by
  induction turns generalizing h with
  | zero => cases hlook
  | succ turns ih =>
    rw [look] at hlook
    split at hlook
    · cases hlook
    rename_i c hc
    split_ifs at hlook with hkey
    · obtain rfl := Option.some.inj hlook
      exact ⟨hkey, _, hc⟩
    · exact ih hlook

/-- An entry with a key that is there already changes nothing. -/
theorem place_of_passed (hp : Passed key cap slots (key a) h d) (hd : d < turns)
    (hslot : slots ((h + d) % cap) = some b) (hkey : key b = key a) :
    place key cap slots a turns h = slots := by
  induction d generalizing h turns with
  | zero =>
    obtain ⟨t, rfl⟩ := Nat.exists_eq_succ_of_ne_zero (by omega : turns ≠ 0)
    rw [Nat.add_zero] at hslot
    rw [place, hslot]
    exact if_pos hkey
  | succ d ih =>
    obtain ⟨t, rfl⟩ := Nat.exists_eq_succ_of_ne_zero (by omega : turns ≠ 0)
    obtain ⟨c, hc, hne⟩ := hp 0 (Nat.succ_pos d)
    rw [Nat.add_zero] at hc
    rw [place, hc]
    dsimp only
    rw [if_neg hne]
    refine ih hp.next (by omega) ?_
    rwa [Nat.add_assoc, Nat.add_comm 1]

/-- **A new entry goes to the first free slot.** -/
theorem place_of_free (hp : Passed key cap slots (key a) h d) (hd : d < turns)
    (hslot : slots ((h + d) % cap) = none) :
    place key cap slots a turns h = Function.update slots ((h + d) % cap) (some a) := by
  induction d generalizing h turns with
  | zero =>
    obtain ⟨t, rfl⟩ := Nat.exists_eq_succ_of_ne_zero (by omega : turns ≠ 0)
    rw [Nat.add_zero] at hslot ⊢
    rw [place, hslot]
  | succ d ih =>
    obtain ⟨t, rfl⟩ := Nat.exists_eq_succ_of_ne_zero (by omega : turns ≠ 0)
    obtain ⟨c, hc, hne⟩ := hp 0 (Nat.succ_pos d)
    rw [Nat.add_zero] at hc
    have hshift : h + 1 + d = h + (d + 1) := by omega
    rw [place, hc]
    dsimp only
    rw [if_neg hne, ih hp.next (by omega) (by rwa [hshift]), hshift]

/-- The slots that are taken. -/
def taken (cap : ℕ) (slots : Slots ι) : Finset ℕ :=
  (Finset.range cap).filter fun s => (slots s).isSome

/-- What holds of the table of some entries. -/
structure Indexed (key : ι → κ) (home : κ → ℕ) (cap : ℕ) (slots : Slots ι) (l : List ι) : Prop where
  first : ∀ s b, slots s = some b → l.find? (fun c => key c = key b) = some b
  reach : ∀ b, l.find? (fun c => key c = key b) = some b → ∃ d < cap,
    Passed key cap slots (key b) (home (key b)) d ∧ slots ((home (key b) + d) % cap) = some b
  room : (taken cap slots).card ≤ l.length

theorem indexed_nil : Indexed key home cap (fun _ => none : Slots ι) [] := by
  refine ⟨nofun, nofun, ?_⟩
  rw [taken, Finset.filter_false_of_mem (by simp)]
  exact le_rfl

/-- The key of an entry of the list belongs to a first entry. -/
theorem first_of_mem (ha : a ∈ l) (hkey : key a = k) :
    ∃ b, l.find? (fun c => key c = k) = some b ∧ key b = k := by
  obtain ⟨b, hb⟩ := Option.isSome_iff_exists.mp
    (List.find?_isSome.mpr ⟨a, ha, by simpa using hkey⟩ :
      (l.find? fun c => key c = k).isSome)
  exact ⟨b, hb, by simpa using List.find?_some hb⟩

/-- There is a free slot as long as there are fewer entries than slots, and it can be reached. -/
theorem exists_free (hcap : 0 < cap) (hroom : (taken cap slots).card < cap) (h : ℕ) :
    ∃ d < cap, slots ((h + d) % cap) = none := by
  obtain ⟨s, hs, hfree⟩ : ∃ s < cap, slots s = none := by
    by_contra hall
    push Not at hall
    have hfull : taken cap slots = Finset.range cap := by
      rw [taken, Finset.filter_true_of_mem]
      exact fun s hs => Option.isSome_iff_ne_none.mpr (hall s (Finset.mem_range.mp hs))
    rw [hfull, Finset.card_range] at hroom
    exact lt_irrefl _ hroom
  refine ⟨(s + (cap - h % cap)) % cap, Nat.mod_lt _ hcap, ?_⟩
  have hmod : (h + (s + (cap - h % cap)) % cap) % cap = s := by
    have hle : h % cap ≤ cap := (Nat.mod_lt h hcap).le
    have hsum : h % cap + (s + (cap - h % cap)) = s + cap := by omega
    rw [Nat.add_mod_mod, ← Nat.mod_add_mod, hsum, Nat.add_mod_right, Nat.mod_eq_of_lt hs]
  rwa [hmod]

/-- **Putting an entry in** keeps the table right. -/
theorem Indexed.insert (hcap : 0 < cap) (hi : Indexed key home cap slots l)
    (hlen : l.length < cap) (a : ι) :
    Indexed key home cap (insert key home cap slots a) (l ++ [a]) := by
  obtain ⟨hfirst, hreach, hroom⟩ := hi
  by_cases hold : ∃ c ∈ l, key c = key a
  · -- an earlier entry has the key
    obtain ⟨c, hc, hkey⟩ := hold
    obtain ⟨b, hb, hbkey⟩ := first_of_mem hc hkey
    obtain ⟨d, hd, hpassed, hslot⟩ := hreach b (by rwa [hbkey])
    rw [hbkey] at hpassed hslot
    have hfind : ∀ k, (l ++ [a]).find? (fun c => key c = k) = l.find? fun c => key c = k := by
      intro k
      rw [List.find?_append]
      by_cases hk : key a = k
      · obtain ⟨b', hb', -⟩ := first_of_mem hc (hkey.trans hk)
        rw [hb', Option.some_or]
      · rw [List.find?_cons_of_neg (by simpa using hk), List.find?_nil, Option.or_none]
    rw [Probing.insert, place_of_passed hpassed hd hslot hbkey]
    refine ⟨?_, ?_, ?_⟩
    · intro s b hs
      rw [hfind]
      exact hfirst s b hs
    · intro b hb
      rw [hfind] at hb
      exact hreach b hb
    · rw [List.length_append]
      exact hroom.trans (Nat.le_add_right _ _)
  · -- the key is new
    push Not at hold
    have hother : ∀ s b, slots s = some b → key b ≠ key a := fun s b hs =>
      hold b (List.mem_of_find?_eq_some (hfirst s b hs))
    have hfree := exists_free hcap (hroom.trans_lt hlen) (home (key a))
    obtain ⟨hlt, hslot⟩ := Nat.find_spec hfree
    have hpassed : Passed key cap slots (key a) (home (key a)) (Nat.find hfree) := fun e he => by
      have hsome : slots ((home (key a) + e) % cap) ≠ none := fun hnone =>
        Nat.find_min hfree he ⟨he.trans hlt, hnone⟩
      obtain ⟨c, hc⟩ := Option.ne_none_iff_exists'.mp hsome
      exact ⟨c, hc, hother _ c hc⟩
    rw [Probing.insert, place_of_free hpassed hlt hslot]
    generalize hs : (home (key a) + Nat.find hfree) % cap = s at hslot ⊢
    -- the slots that were taken are as before
    have hkeep : ∀ s' b, slots s' = some b → Function.update slots s (some a) s' = some b := by
      intro s' b hs'
      rw [Function.update_of_ne, hs']
      rintro rfl
      rw [hslot] at hs'
      cases hs'
    have hkeepPassed : ∀ {k h d}, Passed key cap slots k h d →
        Passed key cap (Function.update slots s (some a)) k h d := fun hp e he => by
      obtain ⟨c, hc, hne⟩ := hp e he
      exact ⟨c, hkeep _ c hc, hne⟩
    have hnone : l.find? (fun c => key c = key a) = none := by
      rw [List.find?_eq_none]
      exact fun c hc => by simpa using hold c hc
    refine ⟨?_, ?_, ?_⟩
    · intro s' b hs'
      by_cases heq : s' = s
      · rw [heq, Function.update_self] at hs'
        obtain rfl := Option.some.inj hs'
        rw [List.find?_append, hnone, Option.none_or]
        exact List.find?_cons_of_pos (decide_eq_true rfl)
      · rw [Function.update_of_ne heq] at hs'
        rw [List.find?_append, hfirst s' b hs', Option.some_or]
    · intro b hb
      rw [List.find?_append] at hb
      cases hl : l.find? fun c => key c = key b with
      | some b' =>
        rw [hl, Option.some_or] at hb
        obtain rfl := Option.some.inj hb
        obtain ⟨d, hd, hp, hslot'⟩ := hreach b' hl
        exact ⟨d, hd, hkeepPassed hp, hkeep _ b' hslot'⟩
      | none =>
        rw [hl, Option.none_or] at hb
        obtain rfl := List.mem_singleton.mp (List.mem_of_find?_eq_some hb)
        refine ⟨Nat.find hfree, hlt, hkeepPassed hpassed, ?_⟩
        rw [hs, Function.update_self]
    · have hsub : taken cap (Function.update slots s (some a)) ⊆
          Insert.insert s (taken cap slots) := fun s' hs' => by
        obtain ⟨hrange, hsome⟩ := Finset.mem_filter.mp hs'
        by_cases heq : s' = s
        · exact Finset.mem_insert.mpr (.inl heq)
        · rw [Function.update_of_ne heq] at hsome
          exact Finset.mem_insert_of_mem (Finset.mem_filter.mpr ⟨hrange, hsome⟩)
      rw [List.length_append]
      exact (Finset.card_le_card hsub).trans
        ((Finset.card_insert_le _ _).trans (Nat.succ_le_succ hroom))

theorem indexed_build (key : ι → κ) (home : κ → ℕ) (hcap : 0 < cap) (hlen : l.length ≤ cap) :
    Indexed key home cap (build key home cap l) l := by
  induction l using List.reverseRecOn with
  | nil => exact indexed_nil
  | append_singleton l a ih =>
    rw [List.length_append, List.length_singleton] at hlen
    rw [build, List.foldl_append]
    exact (ih (by omega)).insert hcap (by omega) a

/-- **The table finds the first entry with a key.** -/
theorem find_build (hcap : 0 < cap) (hlen : l.length ≤ cap) (k : κ) :
    find key home cap (build key home cap l) k = l.find? fun c => key c = k := by
  obtain ⟨hfirst, hreach, -⟩ := indexed_build key home hcap hlen
  cases hl : l.find? fun c => key c = k with
  | some b =>
    have hkey : key b = k := by simpa using List.find?_some hl
    obtain ⟨d, hd, hp, hslot⟩ := hreach b (by rwa [hkey])
    rw [hkey] at hp hslot
    exact look_of_passed hp hd hslot hkey
  | none =>
    cases hfind : find key home cap (build key home cap l) k with
    | none => rfl
    | some b =>
      obtain ⟨hkey, s, hs⟩ := mem_of_look hfind
      have hb := hfirst s b hs
      rw [hkey, hl] at hb
      cases hb

end Probing
