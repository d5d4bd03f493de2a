/-
# Where the entry point is on the initial stack (`zp_find_stack_at_entry`)

The kernel puts the argument count, the argument pointers, the environment pointers and the
auxiliary vector on the stack of a process that starts, in words of 4 or 8 bytes.  The probe walks
over them to the `AT_ENTRY` pair of the auxiliary vector, which it then redirects.  On every such
stack it finds the first one, or that there is none (`zpFindStackAtEntry_exact`).

The stack is stated as the words that are written one after the other (`Holds`), for both word
sizes.  The walk has two loops.  The first passes over the environment pointers to the null behind
them (`skipEnv_eq`).  The second reads pairs until it finds `AT_ENTRY` or the null pair
(`findEntry_pass`, `findEntry_found`, `findEntry_null`), and what it finds is the first `AT_ENTRY`
of the auxiliary vector (`findEntry_auxv`).  Addresses are computed modulo 2^64, and on a stack that
ends in the address space none of them wraps (`plus_eq`).  The two loops of the source have no
bound, so the walk is given fuel; as many turns as the stack has words are enough.
-/
import YukiZygisk.Lib.Bytes

namespace YukiZygisk.InitialStack

open Bytes

/-! ## 1. The walk -/

/-- The memory of the process; `none` is a byte that cannot be read. -/
abbrev Memory := Nat → Option UInt8

/-- The bytes from an address on, if all can be read. -/
def userBytes (mem : Memory) : Nat → Nat → Option (List UInt8)
  | 0, _ => some []
  | n + 1, p =>
    match mem p, userBytes mem n (p + 1) with
    | some b, some bytes => some (b :: bytes)
    | _, _ => none

/-- `get_user` of a word of `w` bytes. -/
def getUser (mem : Memory) (w p : Nat) : Option Nat := (userBytes mem w p).map ofBytes

/-- `AT_NULL` and `AT_ENTRY`. -/
def atNull : Nat := 0
def atEntry : Nat := 9

inductive Errno where
  | efault
  | enoent
  deriving DecidableEq

/-- An `unsigned long` sum. -/
def plus (p : Nat) (n : Int) : Nat := ((p + n) % 2 ^ 64).toNat

/-- A word as an `int`. -/
def toInt (word : Nat) : Int := (BitVec.ofNat 32 word).toInt

/-- The loop over the environment, to the address behind its terminator. -/
def skipEnv (mem : Memory) (w : Nat) : Nat → Nat → Option (Except Errno Nat)
  | 0, _ => none
  | fuel + 1, p =>
    match getUser mem w p with
    | none => some (.error .efault)
    | some word => if word = 0 then some (.ok (plus p w)) else skipEnv mem w fuel (plus p w)

/-- The loop over the auxiliary vector: `*entry_addr` and `*entry_value`. -/
def findEntry (mem : Memory) (w : Nat) : Nat → Nat → Option (Except Errno (Nat × Nat))
  | 0, _ => none
  | fuel + 1, p =>
    match getUser mem w p, getUser mem w (plus p w) with
    | some word, some val =>
      if word = atNull then some (.error .enoent)
      else if word = atEntry then some (.ok (plus p w, val))
      else findEntry mem w fuel (plus p (2 * w))
    | _, _ => some (.error .efault)

/-- The walk with words of `w` bytes, in `fuel` steps of each loop. -/
def walk (mem : Memory) (w fuel sp : Nat) : Option (Except Errno (Nat × Nat)) :=
  match getUser mem w sp with
  | none => some (.error .efault)
  | some word =>
    let argc := toInt word
    let p := plus (plus sp w) ((argc + 1) * w)
    match skipEnv mem w fuel p with
    | none => none
    | some (.error e) => some (.error e)
    | some (.ok p) => findEntry mem w fuel p

/-- `zp_find_stack_at_entry`: `compat_ulong_t` has 4 bytes, `unsigned long` 8. -/
def zpFindStackAtEntry (mem : Memory) (compat : Bool) (fuel sp : Nat) :
    Option (Except Errno (Nat × Nat)) :=
  if compat then walk mem 4 fuel sp else walk mem 8 fuel sp

/-! ## 2. The stack of a process that starts -/

/-- What the kernel puts on the stack, in words of `w` bytes: any arguments, environment pointers
that are not null, and a vector that ends at its first `AT_NULL`.  The arguments are counted by an
`int`. -/
structure Stack (w : Nat) where
  argv : List Nat
  env : List Nat
  auxv : List (Nat × Nat)
  last : Nat
  count : argv.length + 1 < 2 ^ 31
  argv_lt : ∀ a ∈ argv, a < 256 ^ w
  env_lt : ∀ a ∈ env, a < 256 ^ w
  env_ne : ∀ a ∈ env, a ≠ 0
  auxv_lt : ∀ a ∈ auxv, a.1 < 256 ^ w ∧ a.2 < 256 ^ w
  auxv_ne : ∀ a ∈ auxv, a.1 ≠ atNull
  last_lt : last < 256 ^ w

namespace Stack

variable {w : Nat} (s : Stack w)

/-- The auxiliary vector with its terminator. -/
def auxvWords : List Nat := s.auxv.flatMap (fun a => [a.1, a.2]) ++ [atNull, s.last]

def words : List Nat := s.argv.length :: s.argv ++ 0 :: s.env ++ 0 :: s.auxvWords

def bytes : List UInt8 := s.words.flatMap (toBytes w)

/-- How many words are in front of the auxiliary vector. -/
def auxvIndex : Nat := s.argv.length + s.env.length + 3

/-- The first `AT_ENTRY` pair, as its place in the vector and its value. -/
def entry : Option (Nat × Nat) :=
  match s.auxv.findIdx? (·.1 = atEntry) with
  | none => none
  | some i => (s.auxv[i]?).map fun a => (i, a.2)

end Stack

/-- The memory holds these bytes at an address. -/
def Holds (mem : Memory) (p : Nat) (bytes : List UInt8) : Prop :=
  ∀ i (h : i < bytes.length), mem (p + i) = some bytes[i]

/-! ## 3. Reading words -/

variable {mem : Memory} {w n p sp fuel : Nat} {bytes l l' : List UInt8} {a : Nat} {words : List Nat}

theorem Holds.left (h : Holds mem p (l ++ l')) : Holds mem p l := by
  intro i hi
  have hlt : i < (l ++ l').length := by
    rw [List.length_append]
    omega
  rw [h i hlt, List.getElem_append_left hi]

theorem Holds.right (h : Holds mem p (l ++ l')) : Holds mem (p + l.length) l' := by
  intro i hi
  have hlt : l.length + i < (l ++ l').length := by
    rw [List.length_append]
    omega
  have hread := h (l.length + i) hlt
  rw [← Nat.add_assoc] at hread
  rw [hread, List.getElem_append_right (Nat.le_add_right _ _)]
  simp

theorem userBytes_of_holds (h : Holds mem p l) : userBytes mem l.length p = some l := by
  induction l generalizing p with
  | nil => rfl
  | cons b l ih =>
    have hhead : mem p = some b := h 0 (by simp)
    have htail : Holds mem (p + 1) l := Holds.right (l := [b]) h
    rw [List.length_cons, userBytes, hhead, ih htail]

/-- The first word is read. -/
theorem getUser_of_holds (ha : a < 256 ^ w) (h : Holds mem p ((a :: words).flatMap (toBytes w))) :
    getUser mem w p = some a := by
  rw [List.flatMap_cons] at h
  have hbytes := userBytes_of_holds h.left
  rw [length_toBytes] at hbytes
  rw [getUser, hbytes, Option.map_some, ofBytes_toBytes, Nat.mod_eq_of_lt ha]

/-- The words behind the first ones are where they end. -/
theorem holds_behind (front words : List Nat)
    (h : Holds mem p ((front ++ words).flatMap (toBytes w))) :
    Holds mem (p + front.length * w) (words.flatMap (toBytes w)) := by
  rw [List.flatMap_append] at h
  have hlen : (front.flatMap (toBytes w)).length = front.length * w := by
    simp [List.length_flatMap]
  exact hlen ▸ h.right

/-- A sum that stays in the address space. -/
theorem plus_eq (h : p + n < 2 ^ 64) : plus p n = p + n := by
  rw [plus]
  omega

theorem toInt_eq (h : n < 2 ^ 31) : toInt n = n := by
  rw [toInt, BitVec.toInt_eq_toNat_cond, BitVec.toNat_ofNat]
  omega

/-! ## 4. The loops -/

/-- The environment is passed over with its terminator. -/
theorem skipEnv_eq {env rest : List Nat} (hlt : ∀ a ∈ env, a < 256 ^ w) (hne : ∀ a ∈ env, a ≠ 0)
    (hmem : Holds mem p ((env ++ 0 :: rest).flatMap (toBytes w)))
    (hfits : p + (env.length + 1) * w < 2 ^ 64) (hfuel : env.length < fuel) :
    skipEnv mem w fuel p = some (.ok (p + (env.length + 1) * w)) := by
  induction env generalizing p fuel with
  | nil =>
    obtain ⟨fuel, rfl⟩ := Nat.exists_eq_succ_of_ne_zero (by omega : fuel ≠ 0)
    have hread : getUser mem w p = some 0 := getUser_of_holds (by positivity) hmem
    simp only [List.length_nil, Nat.zero_add, Nat.one_mul] at hfits ⊢
    rw [skipEnv, hread, plus_eq hfits]
    rfl
  | cons a env ih =>
    obtain ⟨fuel, rfl⟩ := Nat.exists_eq_succ_of_ne_zero (by omega : fuel ≠ 0)
    have hread : getUser mem w p = some a :=
      getUser_of_holds (hlt a List.mem_cons_self) hmem
    have hnext := holds_behind [a] _ hmem
    simp only [List.length_cons, List.length_nil, Nat.zero_add, Nat.one_mul, Nat.add_mul]
      at hfits hfuel hnext ⊢
    rw [skipEnv, hread]
    dsimp only
    rw [if_neg (hne a List.mem_cons_self), plus_eq (by omega),
      ih (fun b hb => hlt b (List.mem_cons_of_mem a hb))
        (fun b hb => hne b (List.mem_cons_of_mem a hb)) hnext (by rw [Nat.add_mul]; omega)
        (by omega)]
    congr 2
    rw [Nat.add_mul]
    omega

/-- The words of some pairs. -/
def pairWords (auxv : List (Nat × Nat)) : List Nat := auxv.flatMap fun a => [a.1, a.2]

theorem length_pairWords (auxv : List (Nat × Nat)) : (pairWords auxv).length = 2 * auxv.length := by
  simp [pairWords, List.length_flatMap, Nat.mul_comm]

/-- The two words of a pair are read. -/
theorem getUser_pair {a : Nat × Nat} {rest : List Nat} (ha : a.1 < 256 ^ w ∧ a.2 < 256 ^ w)
    (hmem : Holds mem p ((a.1 :: a.2 :: rest).flatMap (toBytes w))) (hfits : p + w < 2 ^ 64) :
    getUser mem w p = some a.1 ∧ getUser mem w (plus p w) = some a.2 ∧ plus p w = p + w := by
  have hnext := holds_behind [a.1] _ hmem
  rw [List.length_singleton, Nat.one_mul] at hnext
  have hplus : plus p w = p + w := plus_eq hfits
  refine ⟨getUser_of_holds ha.1 hmem, ?_, hplus⟩
  rw [hplus]
  exact getUser_of_holds ha.2 hnext

/-- Pairs of other types are passed over. -/
theorem findEntry_pass {before : List (Nat × Nat)} {rest : List Nat}
    (hlt : ∀ a ∈ before, a.1 < 256 ^ w ∧ a.2 < 256 ^ w)
    (hne : ∀ a ∈ before, a.1 ≠ atNull ∧ a.1 ≠ atEntry)
    (hmem : Holds mem p ((pairWords before ++ rest).flatMap (toBytes w)))
    (hfits : p + 2 * before.length * w < 2 ^ 64) :
    findEntry mem w (before.length + fuel) p =
      findEntry mem w fuel (p + 2 * before.length * w) := by
  induction before generalizing p with
  | nil => simp
  | cons a before ih =>
    have hlen : p + 2 * (a :: before).length * w = p + 2 * w + 2 * before.length * w := by
      rw [List.length_cons]
      ring
    have hnext := holds_behind [a.1, a.2] (pairWords before ++ rest) hmem
    have hstep : p + [a.1, a.2].length * w = p + 2 * w := rfl
    rw [hlen] at hfits ⊢
    rw [hstep] at hnext
    obtain ⟨htype, hvalue, -⟩ :=
      getUser_pair (hlt a List.mem_cons_self) hmem (by omega)
    have hfuel : (a :: before).length + fuel = before.length + fuel + 1 := by
      rw [List.length_cons]
      omega
    rw [hfuel, findEntry, htype, hvalue]
    dsimp only
    obtain ⟨hnull, hentry⟩ := hne a List.mem_cons_self
    have hplus : plus p (2 * w : Nat) = p + 2 * w := plus_eq (by omega)
    rw [if_neg hnull, if_neg hentry, ← Nat.cast_ofNat, ← Nat.cast_mul, hplus]
    exact ih (fun b hb => hlt b (List.mem_cons_of_mem a hb))
      (fun b hb => hne b (List.mem_cons_of_mem a hb)) hnext hfits

/-- A pair of the wanted type ends the search. -/
theorem findEntry_found {value : Nat} {rest : List Nat} (hentry : atEntry < 256 ^ w)
    (hvalue : value < 256 ^ w) (hfuel : fuel ≠ 0)
    (hmem : Holds mem p ((atEntry :: value :: rest).flatMap (toBytes w)))
    (hfits : p + w < 2 ^ 64) : findEntry mem w fuel p = some (.ok (p + w, value)) := by
  obtain ⟨fuel, rfl⟩ := Nat.exists_eq_succ_of_ne_zero hfuel
  obtain ⟨htype, hread, hplus⟩ := getUser_pair (a := (atEntry, value)) ⟨hentry, hvalue⟩ hmem hfits
  rw [findEntry, htype, hread, hplus]
  rfl

/-- So does the end of the vector. -/
theorem findEntry_null {last : Nat} {rest : List Nat} (hlast : last < 256 ^ w) (hfuel : fuel ≠ 0)
    (hmem : Holds mem p ((atNull :: last :: rest).flatMap (toBytes w)))
    (hfits : p + w < 2 ^ 64) : findEntry mem w fuel p = some (.error .enoent) := by
  obtain ⟨fuel, rfl⟩ := Nat.exists_eq_succ_of_ne_zero hfuel
  obtain ⟨htype, hread, -⟩ :=
    getUser_pair (a := (atNull, last)) ⟨Nat.pow_pos (by decide), hlast⟩ hmem hfits
  rw [findEntry, htype, hread]
  rfl

/-! ## 5. The whole walk -/

/-- What the walk is to find. -/
def Stack.found (s : Stack w) (sp : Nat) : Except Errno (Nat × Nat) :=
  match s.entry with
  | some (i, value) => .ok (sp + (s.auxvIndex + 2 * i + 1) * w, value)
  | none => .error .enoent

/-- The search of the vector. -/
theorem findEntry_auxv (s : Stack w) (hw : 0 < w)
    (hmem : Holds mem p (s.auxvWords.flatMap (toBytes w)))
    (hfits : p + s.auxvWords.length * w ≤ 2 ^ 64) (hfuel : s.auxv.length < fuel)
    (hentry : atEntry < 256 ^ w) :
    findEntry mem w fuel p =
      some (match s.entry with
        | some (i, value) => .ok (p + (2 * i + 1) * w, value)
        | none => .error .enoent) := by
  have hlen : s.auxvWords.length = 2 * s.auxv.length + 2 := by
    rw [Stack.auxvWords, List.length_append, ← pairWords, length_pairWords]
    rfl
  rw [hlen, Nat.add_mul] at hfits
  rw [Stack.auxvWords, ← pairWords] at hmem
  cases hfind : s.auxv.findIdx? (·.1 = atEntry) with
  | none =>
    have hnone := List.findIdx?_eq_none_iff.mp hfind
    have hentry : s.entry = none := by rw [Stack.entry, hfind]
    obtain ⟨more, rfl⟩ : ∃ more, fuel = s.auxv.length + more := ⟨fuel - s.auxv.length, by omega⟩
    rw [findEntry_pass s.auxv_lt (fun a ha => ⟨s.auxv_ne a ha, by simpa using hnone a ha⟩) hmem
      (by omega), hentry]
    have hend := holds_behind _ _ hmem
    rw [length_pairWords] at hend
    exact findEntry_null s.last_lt (by omega) hend (by omega)
  | some i =>
    obtain ⟨hi, htype, hbefore⟩ := List.findIdx?_eq_some_iff_getElem.mp hfind
    have htype : s.auxv[i].1 = atEntry := by simpa using htype
    have hsome : s.entry = some (i, s.auxv[i].2) := by
      rw [Stack.entry, hfind]
      simp [hi]
    have hmemi : s.auxv[i] ∈ s.auxv := List.getElem_mem hi
    have hsplit : pairWords s.auxv = pairWords (s.auxv.take i) ++
        (atEntry :: s.auxv[i].2 :: pairWords (s.auxv.drop (i + 1))) := by
      conv_lhs => rw [← List.take_append_drop i s.auxv, List.drop_eq_getElem_cons hi]
      rw [pairWords, List.flatMap_append, List.flatMap_cons, htype]
      rfl
    have htake : (s.auxv.take i).length = i := List.length_take_of_le hi.le
    have hroom : 2 * i * w + 2 * w ≤ 2 * s.auxv.length * w := by
      rw [← Nat.add_mul]
      exact Nat.mul_le_mul_right w (by omega)
    rw [hsplit, List.append_assoc] at hmem
    obtain ⟨more, rfl⟩ : ∃ more, fuel = (s.auxv.take i).length + more := ⟨fuel - i, by omega⟩
    rw [findEntry_pass (fun a ha => s.auxv_lt a (List.mem_of_mem_take ha)) ?_ hmem
      (by rw [htake]; omega), hsome]
    · have hend := holds_behind _ _ hmem
      rw [length_pairWords] at hend
      rw [findEntry_found hentry (s.auxv_lt _ hmemi).2 (by omega) hend (by rw [htake]; omega),
        htake]
      simp only [Nat.add_mul, Nat.one_mul, Nat.add_assoc]
    · intro a ha
      obtain ⟨j, hj, rfl⟩ := List.mem_take_iff_getElem.mp ha
      have := hbefore j (by omega)
      exact ⟨s.auxv_ne _ (List.getElem_mem _), by simpa using this⟩

/-- The walk over the whole stack. -/
theorem walk_eq (s : Stack w) (hw : 0 < w) (hentry : atEntry < 256 ^ w)
    (hcount : s.argv.length < 256 ^ w) (hmem : Holds mem sp s.bytes)
    (hfits : sp + s.bytes.length ≤ 2 ^ 64) (hfuel : s.words.length ≤ fuel) :
    walk mem w fuel sp = some (s.found sp) := by
  have hlen : s.words.length =
      1 + s.argv.length + (1 + s.env.length) + (1 + s.auxvWords.length) := by
    simp only [Stack.words, List.length_append, List.length_cons]
    omega
  have hbytes : s.bytes.length = s.words.length * w := by
    simp [Stack.bytes, List.length_flatMap]
  have hauxv : s.auxvWords.length = 2 * s.auxv.length + 2 := by
    rw [Stack.auxvWords, List.length_append, ← pairWords, length_pairWords]
    rfl
  have htotal : s.words.length * w =
      (s.argv.length + 2) * w + (s.env.length + 1) * w + s.auxvWords.length * w := by
    rw [hlen]
    ring
  have hpos : 2 * w ≤ s.auxvWords.length * w := Nat.mul_le_mul_right w (by omega)
  rw [hbytes, htotal] at hfits
  have hargv : (s.argv.length + 2) * w = w + (s.argv.length + 1) * w := by ring
  have hread : getUser mem w sp = some s.argv.length := getUser_of_holds hcount hmem
  have hint : toInt s.argv.length = s.argv.length := toInt_eq (by have := s.count; omega)
  have hskip : plus (plus sp w) ((toInt s.argv.length + 1) * w) =
      sp + (s.argv.length + 2) * w := by
    rw [hint, ← Nat.cast_succ, ← Nat.cast_mul, plus_eq (p := sp) (by omega),
      plus_eq (by rw [Nat.succ_eq_add_one]; omega), hargv, Nat.add_assoc]
  have henv : Holds mem (sp + (s.argv.length + 2) * w)
      ((s.env ++ 0 :: s.auxvWords).flatMap (toBytes w)) := by
    have h := holds_behind (s.argv.length :: s.argv ++ [0]) (s.env ++ 0 :: s.auxvWords)
      (by simpa [Stack.bytes, Stack.words] using hmem)
    have hfront : (s.argv.length :: s.argv ++ [0]).length = s.argv.length + 2 := by simp
    rwa [hfront] at h
  have hvector : Holds mem (sp + (s.argv.length + 2) * w + (s.env.length + 1) * w)
      (s.auxvWords.flatMap (toBytes w)) := by
    have h := holds_behind (s.env ++ [0]) s.auxvWords (by simpa using henv)
    have hfront : (s.env ++ [0]).length = s.env.length + 1 := by simp
    rwa [hfront] at h
  rw [walk, hread]
  dsimp only
  rw [hskip, skipEnv_eq s.env_lt s.env_ne henv (by omega) (by omega)]
  dsimp only
  rw [findEntry_auxv s hw hvector (by omega) (by omega) hentry, Stack.found]
  cases s.entry with
  | none => rfl
  | some found =>
    obtain ⟨i, value⟩ := found
    simp only [Stack.auxvIndex]
    congr 3
    ring

/-- The size of a word. -/
def wordSize (compat : Bool) : Nat := if compat then 4 else 8

/-- **The walk finds the first `AT_ENTRY` pair**, or that there is none, on every stack of a
process that starts; and what it finds is in the auxiliary vector. -/
theorem zpFindStackAtEntry_exact (mem : Memory) (compat : Bool) (sp fuel : Nat)
    (s : Stack (wordSize compat)) (hmem : Holds mem sp s.bytes)
    (hfits : sp + s.bytes.length ≤ 2 ^ 64) (hfuel : s.words.length ≤ fuel) :
    zpFindStackAtEntry mem compat fuel sp = some (s.found sp) ∧
      ∀ addr value, s.found sp = .ok (addr, value) →
        sp + s.auxvIndex * wordSize compat < addr ∧
          ∃ i, s.auxv[i]? = some (atEntry, value) ∧
            (∀ j < i, ∀ a, s.auxv[j]? = some a → a.1 ≠ atEntry) ∧
            addr = sp + (s.auxvIndex + 2 * i + 1) * wordSize compat := by
  have hcount := s.count
  constructor
  · cases compat with
    | true =>
      have hlt : s.argv.length < 256 ^ 4 := by omega
      exact walk_eq (w := 4) s (by decide) (by decide) hlt hmem hfits hfuel
    | false =>
      have hlt : s.argv.length < 256 ^ 8 := by omega
      exact walk_eq (w := 8) s (by decide) (by decide) hlt hmem hfits hfuel
  · intro addr value hfound
    have hw : 0 < wordSize compat := by cases compat <;> decide
    rw [Stack.found, Stack.entry] at hfound
    cases hfind : s.auxv.findIdx? (·.1 = atEntry) with
    | none => simp [hfind] at hfound
    | some i =>
      obtain ⟨hi, htype, hbefore⟩ := List.findIdx?_eq_some_iff_getElem.mp hfind
      simp only [hfind, List.getElem?_eq_getElem hi, Option.map_some, Except.ok.injEq,
        Prod.mk.injEq] at hfound
      obtain ⟨rfl, rfl⟩ := hfound
      refine ⟨?_, i, ?_, ?_, rfl⟩
      · have hmul : s.auxvIndex * wordSize compat < (s.auxvIndex + 2 * i + 1) * wordSize compat :=
          Nat.mul_lt_mul_of_pos_right (by omega) hw
        omega
      · have htype : s.auxv[i].1 = atEntry := by simpa using htype
        rw [List.getElem?_eq_getElem hi, ← htype]
      · intro j hj a ha
        have hlt : j < s.auxv.length := by omega
        rw [List.getElem?_eq_getElem hlt] at ha
        have hother := hbefore j hj
        rw [Option.some.inj ha] at hother
        simpa using hother

/-- One argument, and a vector with an entry point. -/
def sampleStack : Stack (wordSize true) where
  argv := [9]
  env := [9]
  auxv := [(3, 9), (9, 4096), (9, 0)]
  last := 0
  count := by decide
  argv_lt := by decide
  env_lt := by decide
  env_ne := by decide
  auxv_lt := by decide
  auxv_ne := by decide
  last_lt := by decide

theorem zpFindStackAtEntry_exact_sample :
    zpFindStackAtEntry (fun p => sampleStack.bytes[p - 65536]?) true 13 65536 =
      some (.ok (65568, 4096)) := by
  refine (zpFindStackAtEntry_exact (fun p => sampleStack.bytes[p - 65536]?) true 65536 13
    sampleStack ?_ (by decide) (by decide)).1.trans (by decide)
  intro i hi
  dsimp only
  rw [Nat.add_sub_cancel_left, List.getElem?_eq_getElem hi]

end YukiZygisk.InitialStack
