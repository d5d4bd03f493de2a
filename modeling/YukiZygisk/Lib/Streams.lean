/-
# Exact reads from a stream

A stream gives its bytes in pieces that have nothing to do with how they were written: a read may
take less than it asks for.  A loop that reads until it has what it wants hides that.  It gets the
next `n` items, however they arrive, and only if there are so many (`readExact_sound`,
`readExact_complete`).

An `Incoming` is the data that is still to come, with a list of sizes that say how it is cut into
pieces.  The loop is bounded by the number of items, because a read gets at least one item as long
as there is data (`amount_pos`).  Soundness and completeness say together that the pieces do not
matter: what is read is the next items, and it is read exactly if they are there.  The same follows
for a number of `w` bytes.
-/
import YukiZygisk.Lib.Bytes

namespace Streams

variable {α : Type*}

/-- What is still to come, and how much more than one item each of the next reads may take. -/
structure Incoming (α : Type*) where
  data : List α
  sizes : List ℕ

/-- How much a read takes that asks for `n`. -/
def Incoming.amount (c : Incoming α) (n : ℕ) : ℕ :=
  match c.sizes with
  | [] => min n c.data.length
  | size :: _ => min (min n (size + 1)) c.data.length

/-- Reads until there are `n` items; a read that gives nothing ends it. -/
def Incoming.readLoop : ℕ → Incoming α → ℕ → Option (List α × Incoming α)
  | _, c, 0 => some ([], c)
  | 0, _, _ + 1 => none
  | fuel + 1, c, n + 1 =>
    let r := c.amount (n + 1)
    if r = 0 then none
    else
      (Incoming.readLoop fuel ⟨c.data.drop r, c.sizes.tail⟩ (n + 1 - r)).map fun (got, c') =>
        (c.data.take r ++ got, c')

def Incoming.readExact (c : Incoming α) (n : ℕ) : Option (List α × Incoming α) :=
  Incoming.readLoop n c n

variable {c c' : Incoming α} {n fuel : ℕ} {got rest : List α}

/-- A read gets no more than it asked for, and no more than there is. -/
theorem amount_le (c : Incoming α) (n : ℕ) : c.amount n ≤ n ∧ c.amount n ≤ c.data.length := by
  unfold Incoming.amount
  split <;> omega

theorem amount_pos (hn : 0 < n) (hdata : c.data ≠ []) : 0 < c.amount n := by
  have hlen : 0 < c.data.length := List.length_pos_iff.mpr hdata
  unfold Incoming.amount
  split <;> omega

/-- What the loop has read is the next items. -/
theorem readLoop_sound (h : c.readLoop fuel n = some (got, c')) :
    got.length = n ∧ c.data = got ++ c'.data := by
  induction fuel generalizing c n got with
  | zero =>
    cases n with
    | zero =>
      cases h
      exact ⟨rfl, rfl⟩
    | succ n => cases h
  | succ fuel ih =>
    cases n with
    | zero =>
      cases h
      exact ⟨rfl, rfl⟩
    | succ n =>
      rw [Incoming.readLoop] at h
      dsimp only at h
      split_ifs at h with hzero
      obtain ⟨⟨got', e⟩, he, heq⟩ := Option.map_eq_some_iff.mp h
      rw [Prod.mk.injEq] at heq
      obtain ⟨rfl, rfl⟩ := heq
      obtain ⟨hlen, hdata⟩ := ih he
      obtain ⟨hle, hle'⟩ := amount_le c (n + 1)
      have hsum : (c.data.take (c.amount (n + 1))).length + got'.length = n + 1 := by
        rw [List.length_take]
        omega
      refine ⟨List.length_append.trans hsum, ?_⟩
      rw [List.append_assoc, ← hdata, List.take_append_drop]

/-- The loop reads the next items if they are there. -/
theorem readLoop_complete (hfuel : n ≤ fuel) (hlen : got.length = n) (hdata : c.data = got ++ rest) :
    ∃ c', c.readLoop fuel n = some (got, c') ∧ c'.data = rest := by
  induction fuel generalizing c n got with
  | zero =>
    obtain rfl : n = 0 := by omega
    obtain rfl := List.length_eq_zero_iff.mp hlen
    exact ⟨c, rfl, hdata⟩
  | succ fuel ih =>
    cases n with
    | zero =>
      obtain rfl := List.length_eq_zero_iff.mp hlen
      exact ⟨c, rfl, hdata⟩
    | succ n =>
      have hne : c.data ≠ [] := by
        intro hnil
        rw [hnil] at hdata
        simp [(List.append_eq_nil_iff.mp hdata.symm).1] at hlen
      obtain ⟨hle, -⟩ := amount_le c (n + 1)
      have hpos : 0 < c.amount (n + 1) := amount_pos (Nat.succ_pos n) hne
      have hdrop : c.data.drop (c.amount (n + 1)) = got.drop (c.amount (n + 1)) ++ rest := by
        rw [hdata, List.drop_append_of_le_length (by omega)]
      have hgot : (got.drop (c.amount (n + 1))).length = n + 1 - c.amount (n + 1) := by
        rw [List.length_drop, hlen]
      obtain ⟨c', hc', hrest⟩ :=
        ih (c := ⟨c.data.drop (c.amount (n + 1)), c.sizes.tail⟩) (by omega) hgot hdrop
      refine ⟨c', ?_, hrest⟩
      rw [Incoming.readLoop]
      dsimp only
      rw [if_neg (by omega), hc', Option.map_some, hdata,
        List.take_append_of_le_length (by omega), List.take_append_drop]

theorem readExact_sound (h : c.readExact n = some (got, c')) :
    got.length = n ∧ c.data = got ++ c'.data := readLoop_sound h

theorem readExact_complete (hlen : got.length = n) (hdata : c.data = got ++ rest) :
    ∃ c', c.readExact n = some (got, c') ∧ c'.data = rest :=
  readLoop_complete le_rfl hlen hdata

/-! ## Numbers -/

/-- The next number, of `w` bytes. -/
def Incoming.readNat (c : Incoming UInt8) (w : ℕ) : Option (ℕ × Incoming UInt8) :=
  (c.readExact w).map fun (bytes, c) => (Bytes.ofBytes bytes, c)

section Numbers

variable {c c' : Incoming UInt8} {rest : List UInt8} {w v : ℕ}

/-- A number that was read is the one whose bytes came. -/
theorem readNat_sound (h : c.readNat w = some (v, c')) :
    v < 256 ^ w ∧ c.data = Bytes.toBytes w v ++ c'.data := by
  obtain ⟨⟨bytes, e⟩, he, heq⟩ := Option.map_eq_some_iff.mp h
  cases heq
  obtain ⟨hlen, hdata⟩ := readExact_sound he
  subst hlen
  exact ⟨Bytes.ofBytes_lt bytes, by rw [Bytes.toBytes_ofBytes]; exact hdata⟩

theorem readNat_complete (hv : v < 256 ^ w) (hdata : c.data = Bytes.toBytes w v ++ rest) :
    ∃ c', c.readNat w = some (v, c') ∧ c'.data = rest := by
  obtain ⟨c', hc', hrest⟩ := readExact_complete (Bytes.length_toBytes w v) hdata
  refine ⟨c', ?_, hrest⟩
  rw [Incoming.readNat, hc', Option.map_some]
  dsimp only
  rw [Bytes.ofBytes_toBytes, Nat.mod_eq_of_lt hv]

end Numbers

end Streams
