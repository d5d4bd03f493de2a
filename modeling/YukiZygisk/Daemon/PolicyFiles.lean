/-
# The files that a root policy is read from (`userspace/zygisk/daemon/root_policy.cpp`)

The daemon reads which uids are to be unmounted from the file of the root implementation.  The
allowlist of KernelSU is binary: `parse_ksu_uids` accepts exactly the allowlists, and reads the
uids of their records (`parseKsuUids_exact`).  The configuration of KernelPatch is a text of quoted
fields: `parse_apatch` is true exactly if every row can be read and there are not too many, and
what it decides for a uid is the OR over the rows of the uid, whatever their order and whatever is
between them (`parseApatch_exact`).

The fields of a row are split by the library `Csv`, so what remains is the loop over the rows.  It
stops at nothing but the limit: a row that cannot be read makes the answer `false` and is passed
over.  Its answer and its decisions are two results (`loop_valid`, `loop_decides`), both by
induction on the rows, and the OR of the decisions does not depend on their order.

A record of the allowlist is a key that ends, a uid that is not negative, and what else is in it.
It is read as its uid (`ksuRecord_bytes`), and bytes that can be read are a record
(`profile_of_ksuRecord`), which gives both directions for a whole file: the records are at multiples
of their size behind the header, and the size of the file says how many there are.
-/
import YukiZygisk.Lib.Bytes
import YukiZygisk.Lib.Csv
import YukiZygisk.Daemon.RootPolicy

namespace YukiZygisk.PolicyFiles

open Bytes Cache

/-! ## 1. Numbers and fields -/

/-- `isspace` and `isdigit`. -/
def isSpace (c : UInt8) : Bool := c = 32 || (9 ≤ c && c ≤ 13)
def isDigit (c : UInt8) : Bool := 48 ≤ c && c ≤ 57

/-- `ULLONG_MAX` and `UINT32_MAX`. -/
def ullongMax : Nat := 18446744073709551615
def uint32Max : Nat := 4294967295

/-- What `strtoull` answers: the number, the text it stopped at, and whether it set `ERANGE`. -/
structure Parsed where
  value : Nat
  stop : List UInt8
  range : Bool

def decimal (digits : List UInt8) : Nat := digits.foldl (fun n c => 10 * n + (c.toNat - 48)) 0

/-- `strtoull` with the base ten: a minus sign negates the number modulo 2^64. -/
def strtoull (text : List UInt8) : Parsed :=
  let trimmed := text.dropWhile isSpace
  let negative := trimmed.head? = some 45
  let signed := negative ∨ trimmed.head? = some 43
  let number := if signed then trimmed.tail else trimmed
  let magnitude := decimal (number.takeWhile isDigit)
  if number.takeWhile isDigit = [] then ⟨0, text, false⟩
  else if magnitude > ullongMax then ⟨ullongMax, number.dropWhile isDigit, true⟩
  else
    ⟨if negative then (ullongMax + 1 - magnitude) % (ullongMax + 1) else magnitude,
      number.dropWhile isDigit, false⟩

/-- `parse_u32`.  `strtoull` sees the text up to its first NUL. -/
def parseU32 (text : List UInt8) : Option UInt32 :=
  if text = [] then none
  else
    let cStr := text.takeWhile (· ≠ 0)
    let parsed := strtoull cStr
    if parsed.range ∨ parsed.stop = cStr ∨ parsed.stop ≠ [] ∨ parsed.value > uint32Max then none
    else some (UInt32.ofNat parsed.value)

/-- `split_csv`, with `'"'` and `','`. -/
def splitCsv (line : List UInt8) : List (List UInt8) := Csv.split 34 44 line

/-- The fields joined by commas, each in quotes with its quotes doubled. -/
def joinCsv (fields : List (List UInt8)) : List UInt8 := Csv.join 34 44 fields

/-- **Splitting inverts quoting.** -/
theorem splitCsv_joinCsv (fields : List (List UInt8)) (hne : fields ≠ []) :
    splitCsv (joinCsv fields) = fields :=
  Csv.split_join (by decide) hne

/-- A field of quotes and commas, an empty one, and one that ends in a quote. -/
theorem splitCsv_joinCsv_sample :
    splitCsv (joinCsv [[34, 44, 34], [], [97, 34]]) = [[34, 44, 34], [], [97, 34]] :=
  splitCsv_joinCsv _ (by decide)

/-! ## 2. The configuration of KernelPatch -/

/-- The exclude and uid fields of a row, if it can be read. -/
def apatchRow (line : List UInt8) : Option (UInt32 × UInt32) :=
  match splitCsv line with
  | _ :: exclude :: _ :: uid :: _ =>
    match parseU32 exclude, parseU32 uid with
    | some exclude, some uid => some (exclude, uid)
    | _, _ => none
  | _ => none

/-- The lines behind the header that are not empty. -/
def dataRows (text : List UInt8) : List (List UInt8) := (Csv.lines 10 text).tail.filter (· ≠ [])

/-- `parse_apatch` of a file with this text. -/
def parseApatch (text : List UInt8) (decisions : Std.TreeMap UInt32 Bool) :
    Std.TreeMap UInt32 Bool × Bool :=
  match Csv.lines 10 text with
  | [] => (decisions, false)
  | _ :: _ => RootPolicy.parseApatch ((dataRows text).map apatchRow) 0 true decisions

/-- At least four fields, and `parse_u32` accepts the second and the fourth. -/
structure RowReads (line : List UInt8) (exclude uid : UInt32) : Prop where
  fields : 4 ≤ (splitCsv line).length
  exclude : (splitCsv line)[1]?.bind parseU32 = some exclude
  uid : (splitCsv line)[3]?.bind parseU32 = some uid

def WellFormed (line : List UInt8) : Prop := ∃ exclude uid, RowReads line exclude uid

/-- What is read from the rows that are well formed, in their order. -/
def readings (text : List UInt8) : List (UInt32 × UInt32) := (dataRows text).filterMap apatchRow

theorem apatchRow_eq_some {line : List UInt8} {exclude uid : UInt32} :
    apatchRow line = some (exclude, uid) ↔ RowReads line exclude uid := by
  rw [apatchRow]
  constructor
  · intro h
    split at h
    · rename_i hfields
      split at h
      · rename_i hexclude huid
        cases h
        refine ⟨?_, ?_, ?_⟩
        · rw [hfields]
          simp
        · simpa [hfields] using hexclude
        · simpa [hfields] using huid
      · cases h
    · cases h
  · rintro ⟨hfields, hexclude, huid⟩
    match hline : splitCsv line, hfields with
    | _ :: e :: _ :: u :: _, _ =>
      simp only [hline, List.getElem?_cons_succ, List.getElem?_cons_zero, Option.bind_some]
        at hexclude huid
      simp only [hexclude, huid]

theorem mem_readings {text : List UInt8} {exclude uid : UInt32} :
    (exclude, uid) ∈ readings text ↔ ∃ row ∈ dataRows text, RowReads row exclude uid := by
  simp only [readings, List.mem_filterMap, apatchRow_eq_some]

theorem apatchRow_isSome {line : List UInt8} : (apatchRow line).isSome ↔ WellFormed line := by
  rw [Option.isSome_iff_exists]
  constructor
  · rintro ⟨⟨exclude, uid⟩, h⟩
    exact ⟨exclude, uid, apatchRow_eq_some.mp h⟩
  · rintro ⟨exclude, uid, h⟩
    exact ⟨(exclude, uid), apatchRow_eq_some.mpr h⟩

/-! ## 3. The loop over the rows -/

variable {rows : List (Option (UInt32 × UInt32))} {count : Nat} {valid : Bool}
  {decisions : Std.TreeMap UInt32 Bool}

/-- The loop is true exactly if it was, every row is good and the good ones are few enough. -/
theorem loop_valid : (RootPolicy.parseApatch rows count valid decisions).2 = true ↔
    valid = true ∧ (∀ row ∈ rows, row.isSome) ∧
      (rows ≠ [] → count + rows.length ≤ policyCacheMaxEntries) := by
  induction rows generalizing count valid decisions with
  | nil => simp [RootPolicy.parseApatch]
  | cons row rows ih =>
    cases row with
    | none =>
      rw [RootPolicy.parseApatch, ih]
      simp
    | some reading =>
      obtain ⟨exclude, uid⟩ := reading
      rw [RootPolicy.parseApatch]
      by_cases hfull : count + 1 > policyCacheMaxEntries
      · simp only [if_pos hfull, Bool.false_eq_true, false_iff, not_and]
        intro _ _ hfew
        have := hfew (by simp)
        simp only [List.length_cons] at this
        omega
      · rw [if_neg hfull, ih]
        cases rows with
        | nil =>
          simp
          omega
        | cons next rows =>
          simp
          intro _ _ _
          omega

/-- The decision of the good rows for a uid, on top of what was decided. -/
def decided (readings : List (UInt32 × UInt32)) (before : Option Bool) (uid : UInt32) :
    Option Bool :=
  if readings.any (·.2 = uid) then
    some (before.getD false || readings.any fun reading => reading.2 = uid && reading.1 ≠ 0)
  else before

/-- One more good row in front. -/
theorem decided_cons (exclude u uid : UInt32) (readings : List (UInt32 × UInt32))
    (before : Option Bool) :
    decided ((exclude, u) :: readings) before uid =
      decided readings (if u = uid then some (before.getD false || exclude ≠ 0) else before)
        uid := by
  by_cases hu : u = uid
  · subst hu
    by_cases hmore : readings.any (·.2 = u) = true
    · simp [decided, hmore, Bool.or_assoc]
    · have hnone : (readings.any fun reading =>
          decide (reading.2 = u) && !decide (reading.1 = 0)) = false := by
        simp only [List.any_eq_true, not_exists, not_and] at hmore
        simp only [List.any_eq_false]
        intro reading hreading
        simp [by simpa using hmore reading hreading]
      simp [decided, hmore, hnone]
  · simp [decided, hu]

/-- Below the limit the loop decides what the good rows decide. -/
theorem loop_decides (hfew : count + (rows.reduceOption).length ≤ policyCacheMaxEntries)
    (uid : UInt32) : (RootPolicy.parseApatch rows count valid decisions).1[uid]? =
      decided (rows.reduceOption) decisions[uid]? uid := by
  induction rows generalizing count valid decisions with
  | nil => simp [RootPolicy.parseApatch, decided]
  | cons row rows ih =>
    cases row with
    | none =>
      rw [List.reduceOption_cons_of_none] at hfew ⊢
      exact ih hfew
    | some reading =>
      obtain ⟨exclude, u⟩ := reading
      rw [List.reduceOption_cons_of_some] at hfew ⊢
      rw [List.length_cons] at hfew
      rw [RootPolicy.parseApatch, if_neg (by omega), ih (by omega), decided_cons]
      congr 1
      rw [Std.TreeMap.getElem?_insert, Std.TreeMap.getD_eq_getD_getElem?]
      by_cases hu : u = uid
      · simp [hu]
      · simp [hu]

theorem reduceOption_rows (text : List UInt8) :
    ((dataRows text).map apatchRow).reduceOption = readings text := by
  rw [List.reduceOption, List.filterMap_map, Function.id_comp, readings]

theorem decided_iff {l : List (UInt32 × UInt32)} {uid : UInt32} {decision : Bool} :
    decided l none uid = some decision ↔
      (∃ exclude, (exclude, uid) ∈ l) ∧
        (decision = true ↔ ∃ exclude, (exclude, uid) ∈ l ∧ exclude ≠ 0) := by
  have hsome : l.any (·.2 = uid) = true ↔ ∃ exclude, (exclude, uid) ∈ l := by
    simp
  have hor : (l.any fun reading => reading.2 = uid && reading.1 ≠ 0) = true ↔
      ∃ exclude, (exclude, uid) ∈ l ∧ exclude ≠ 0 := by
    simp
  rw [decided, ← hsome, ← hor]
  by_cases h : l.any (·.2 = uid) = true
  · simp only [h, if_true, Option.getD_none, Bool.false_or, Option.some.injEq, true_and]
    constructor
    · rintro rfl
      exact Iff.rfl
    · intro heq
      exact (Bool.eq_iff_iff.mpr heq).symm
  · simp [h]

/-- Below the limit the configuration decides what its readings do. -/
theorem parseApatch_decides {text : List UInt8}
    (hfew : (readings text).length ≤ policyCacheMaxEntries) (uid : UInt32) :
    (parseApatch text ∅).1[uid]? = decided (readings text) none uid := by
  have hrows := reduceOption_rows text
  rw [parseApatch]
  cases hlines : Csv.lines 10 text with
  | nil =>
    have hnone : readings text = [] := by
      simp [readings, dataRows, hlines]
    simp [hnone, decided]
  | cons header lines =>
    have hloop : (RootPolicy.parseApatch ((dataRows text).map apatchRow) 0 true ∅).1[uid]? =
        decided ((dataRows text).map apatchRow).reduceOption
          (∅ : Std.TreeMap UInt32 Bool)[uid]? uid :=
      loop_decides (by rwa [hrows, Nat.zero_add]) uid
    rw [hrows] at hloop
    simpa using hloop

/-- The answer of the parser. -/
theorem parseApatch_valid (text : List UInt8) :
    (parseApatch text ∅).2 = true ↔ Csv.lines 10 text ≠ [] ∧
      (∀ row ∈ dataRows text, WellFormed row) ∧ (dataRows text).length ≤ policyCacheMaxEntries := by
  rw [parseApatch]
  cases hlines : Csv.lines 10 text with
  | nil => simp
  | cons header lines =>
    dsimp only
    rw [loop_valid]
    simp only [List.forall_mem_map, apatchRow_isSome, List.length_map, Nat.zero_add, true_and,
      ne_eq, List.map_eq_nil_iff, reduceCtorEq, not_false_eq_true]
    refine and_congr_right fun _ => ⟨fun hfew => ?_, fun hfew _ => hfew⟩
    by_cases hrows : dataRows text = []
    · rw [hrows]
      exact Nat.zero_le _
    · exact hfew hrows

/-- **What the configuration of KernelPatch means.**  A text with a first line is parsed to `true`
exactly if every data row is well formed and there are not too many; and if the well-formed rows
are not too many, the decision for a uid is the OR of their exclude flags, the same for every text
with these well-formed rows in any order and any malformed ones between them. -/
theorem parseApatch_exact (text : List UInt8) (hheader : text ≠ []) :
    ((parseApatch text ∅).2 = true ↔
      (∀ row ∈ dataRows text, WellFormed row) ∧
        (dataRows text).length ≤ policyCacheMaxEntries) ∧
    ((readings text).length ≤ policyCacheMaxEntries →
      (∀ uid decision, (parseApatch text ∅).1[uid]? = some decision ↔
        (∃ row ∈ dataRows text, ∃ exclude, RowReads row exclude uid) ∧
          (decision = true ↔
            ∃ row ∈ dataRows text, ∃ exclude, RowReads row exclude uid ∧ exclude ≠ 0)) ∧
      ∀ text' : List UInt8, (readings text).Perm (readings text') →
        ∀ uid : UInt32, (parseApatch text' ∅).1[uid]? = (parseApatch text ∅).1[uid]?) := by
  refine ⟨?_, fun hfew => ⟨fun uid decision => ?_, fun text' hperm uid => ?_⟩⟩
  · have hlines : Csv.lines 10 text ≠ [] := mt Csv.lines_eq_nil.mp hheader
    rw [parseApatch_valid, and_iff_right hlines]
  · rw [parseApatch_decides hfew, decided_iff]
    simp only [mem_readings]
    constructor
    · rintro ⟨⟨exclude, row, hrow, hread⟩, hor⟩
      refine ⟨⟨row, hrow, exclude, hread⟩, hor.trans ⟨?_, ?_⟩⟩
      · rintro ⟨e, ⟨r, hr, he⟩, hne⟩
        exact ⟨r, hr, e, he, hne⟩
      · rintro ⟨r, hr, e, he, hne⟩
        exact ⟨e, ⟨r, hr, he⟩, hne⟩
    · rintro ⟨⟨row, hrow, exclude, hread⟩, hor⟩
      refine ⟨⟨exclude, row, hrow, hread⟩, hor.trans ⟨?_, ?_⟩⟩
      · rintro ⟨r, hr, e, he, hne⟩
        exact ⟨e, ⟨r, hr, he⟩, hne⟩
      · rintro ⟨e, ⟨r, hr, he⟩, hne⟩
        exact ⟨r, hr, e, he, hne⟩
  · rw [parseApatch_decides hfew, parseApatch_decides (hperm.length_eq ▸ hfew), decided, decided,
      hperm.any_eq, hperm.any_eq]

/-- A header, and the rows `p,1,,7` and `q,0,,7`. -/
def sampleConfig : List UInt8 :=
  [104, 10, 112, 44, 49, 44, 44, 55, 10, 113, 44, 48, 44, 44, 55, 10]

theorem parseApatch_exact_sample : (parseApatch sampleConfig ∅).1[(7 : UInt32)]? = some true := by
  have hfew : (readings sampleConfig).length ≤ policyCacheMaxEntries := by decide
  have hread : RowReads [112, 44, 49, 44, 44, 55] 1 7 := apatchRow_eq_some.mp (by decide)
  have hrow : [112, 44, 49, 44, 44, 55] ∈ dataRows sampleConfig := by decide
  exact (((parseApatch_exact sampleConfig (by decide)).2 hfew).1 7 true).mpr
    ⟨⟨_, hrow, 1, hread⟩, ⟨fun _ => ⟨_, hrow, 1, hread, by decide⟩, fun _ => rfl⟩⟩

/-! ## 4. The allowlist of KernelSU -/

/-- `kMaxPolicyFile`. -/
def maxPolicyFile : Nat := 16 * 1024 * 1024

/-- `kKsuAllowlistMagic`, the sizes of a record, and where its key and its uid are. -/
def ksuAllowlistMagic : Nat := 0x7f4b5355
def ksuLegacyProfileSize : Nat := 776
def ksuV4ProfileSize : Nat := 784
def ksuUidOffset : Nat := 260
def ksuKeyOffset : Nat := 4
def ksuKeySize : Nat := 256

/-- `read_all` of a file that can be read. -/
def readAll (file : List UInt8) : Option (List UInt8) :=
  if file.length > maxPolicyFile then none else some file

/-- `record_size`. -/
def ksuRecordSize (version : Nat) : Nat :=
  if version ≥ 4 then ksuV4ProfileSize else ksuLegacyProfileSize

/-- The uid of the record at the front, unless its key does not end or the uid is negative. -/
def ksuRecord (record : List UInt8) : Option UInt32 :=
  if 0 ∉ (record.drop ksuKeyOffset).take ksuKeySize then none
  else
    let uid := UInt32.ofNat (readAt ksuUidOffset 4 record)
    if uid.toInt32 < 0 then none else some uid

/-- The records, each `size` bytes behind the one before. -/
def ksuRecords (size : Nat) : Nat → List UInt8 → List (Option UInt32)
  | 0, _ => []
  | n + 1, data => ksuRecord data :: ksuRecords size n (data.drop size)

/-- `parse_ksu_uids` of a file with these bytes. -/
def parseKsuUids (file : List UInt8) (uids : Std.TreeSet UInt32) : Std.TreeSet UInt32 × Bool :=
  match readAll file with
  | none => (uids, false)
  | some data =>
    if data.length < 8 then (uids, false)
    else
      let magic := readAt 0 4 data
      let version := readAt 4 4 data
      if magic ≠ ksuAllowlistMagic ∨ version < 2 ∨ version > 4 then (uids, false)
      else
        let recordSize := ksuRecordSize version
        let count := (data.length - 8) / recordSize
        if (data.length - 8) % recordSize ≠ 0 ∨ count > policyCacheMaxEntries then (uids, false)
        else RootPolicy.parseKsuUids (ksuRecords recordSize count (data.drop 8)) uids

/-- A record of `size` bytes, with a key that ends and a uid that is not negative. -/
structure KsuProfile (size : Nat) where
  lead : List UInt8
  key : List UInt8
  uid : UInt32
  rest : List UInt8
  lead_length : lead.length = ksuKeyOffset
  key_length : key.length = ksuKeySize
  key_ends : 0 ∈ key
  uid_nonneg : uid.toNat < 2 ^ 31
  rest_length : 264 + rest.length = size

def KsuProfile.bytes {size : Nat} (p : KsuProfile size) : List UInt8 :=
  p.lead ++ (p.key ++ (toBytes 4 p.uid.toNat ++ p.rest))

/-- An allowlist: a supported version, and records of its size. -/
structure KsuAllowlist where
  version : Nat
  supported : 2 ≤ version ∧ version ≤ 4
  profiles : List (KsuProfile (ksuRecordSize version))
  few : profiles.length ≤ policyCacheMaxEntries

def KsuAllowlist.bytes (a : KsuAllowlist) : List UInt8 :=
  toBytes 4 ksuAllowlistMagic ++ (toBytes 4 a.version ++ a.profiles.flatMap KsuProfile.bytes)

/-! ## 5. What the allowlist is read as -/

variable {size n : Nat} {data l : List UInt8} {records : List (Option UInt32)}
  {uids : Std.TreeSet UInt32} {uid : UInt32}

theorem toInt32_neg : uid.toInt32 < 0 ↔ 2 ^ 31 ≤ uid.toNat := by
  have hint : uid.toInt32.toInt = uid.toBitVec.toInt := rfl
  rw [Int32.lt_iff_toInt_lt, hint, BitVec.toInt_eq_toNat_cond]
  have hlt := uid.toNat_lt
  have hnat : uid.toBitVec.toNat = uid.toNat := rfl
  have hzero : (0 : Int32).toInt = 0 := rfl
  rw [hnat, hzero]
  omega

theorem KsuProfile.length_bytes (p : KsuProfile size) : p.bytes.length = size := by
  have hlead := p.lead_length
  have hkey := p.key_length
  have hrest := p.rest_length
  simp only [ksuKeyOffset, ksuKeySize] at hlead hkey
  simp only [KsuProfile.bytes, List.length_append, length_toBytes]
  omega

/-- A record is read as its uid. -/
theorem ksuRecord_bytes (p : KsuProfile size) (l : List UInt8) :
    ksuRecord (p.bytes ++ l) = some p.uid := by
  have hkey : ((p.bytes ++ l).drop ksuKeyOffset).take ksuKeySize = p.key := by
    rw [KsuProfile.bytes, List.append_assoc, List.append_assoc, ← p.lead_length, List.drop_left,
      ← p.key_length, List.take_left]
  have huid : readAt ksuUidOffset 4 (p.bytes ++ l) = p.uid.toNat := by
    rw [KsuProfile.bytes, List.append_assoc, List.append_assoc, List.append_assoc,
      readAt_skip (by rw [p.lead_length]; decide),
      readAt_skip (by rw [p.lead_length, p.key_length]; decide), p.lead_length, p.key_length]
    exact readAt_here (p.uid.toNat_lt.trans_le (by decide))
  have hneg : ¬ p.uid.toInt32 < 0 := by
    rw [toInt32_neg, Nat.not_le]
    exact p.uid_nonneg
  rw [ksuRecord, hkey, if_neg (not_not_intro p.key_ends), huid, UInt32.ofNat_toNat]
  exact if_neg hneg

theorem ksuRecords_bytes (profiles : List (KsuProfile size)) :
    ksuRecords size profiles.length (profiles.flatMap KsuProfile.bytes) =
      profiles.map fun p => some p.uid := by
  induction profiles with
  | nil => rfl
  | cons p profiles ih =>
    have hdrop : (p.bytes ++ profiles.flatMap KsuProfile.bytes).drop size =
        profiles.flatMap KsuProfile.bytes := List.drop_left' p.length_bytes
    rw [List.flatMap_cons, List.length_cons, ksuRecords, ksuRecord_bytes, hdrop, ih, List.map_cons]

/-- What can be read is a record. -/
theorem profile_of_ksuRecord (hsize : 264 ≤ size) (hdata : size ≤ data.length)
    (h : ksuRecord data = some uid) : ∃ p : KsuProfile size, p.bytes = data.take size := by
  have hkey : ¬ 0 ∉ (data.drop ksuKeyOffset).take ksuKeySize := by
    intro hbad
    rw [ksuRecord, if_pos hbad] at h
    cases h
  rw [ksuRecord, if_neg hkey] at h
  dsimp only at h
  split_ifs at h with hneg
  have hread : UInt32.ofNat (readAt ksuUidOffset 4 data) = uid := Option.some.inj h
  rw [hread, toInt32_neg, Nat.not_le] at hneg
  have hfield : ((data.drop 260).take 4).length = 4 := by
    simp only [List.length_take, List.length_drop]
    omega
  have hlt : ofBytes ((data.drop 260).take 4) < 2 ^ 32 := by
    have := ofBytes_lt ((data.drop 260).take 4)
    rwa [hfield] at this
  have hnat : uid.toNat = ofBytes ((data.drop 260).take 4) := by
    rw [← hread, UInt32.toNat_ofNat']
    exact Nat.mod_eq_of_lt hlt
  have hbytes : toBytes 4 uid.toNat = (data.drop 260).take 4 := by
    have := toBytes_ofBytes ((data.drop 260).take 4)
    rwa [hfield, ← hnat] at this
  refine ⟨⟨data.take 4, (data.drop 4).take 256, uid, (data.drop 264).take (size - 264), ?_, ?_,
    not_not.mp hkey, hneg, ?_⟩, ?_⟩
  · exact List.length_take_of_le (by omega)
  · exact List.length_take_of_le (by rw [List.length_drop]; omega)
  · rw [List.length_take_of_le (by rw [List.length_drop]; omega)]
    omega
  · have hsplit : data.take size =
        data.take 4 ++ ((data.drop 4).take 256 ++ ((data.drop 260).take 4 ++
          (data.drop 264).take (size - 264))) := by
      have h1 : size = 4 + (256 + (4 + (size - 264))) := by omega
      conv_lhs => rw [h1, List.take_add, List.take_add, List.take_add]
      simp only [List.drop_drop]
    rw [hsplit, KsuProfile.bytes, hbytes]

/-- Records that can be read are profiles. -/
theorem profiles_of_ksuRecords (hsize : 264 ≤ size) (hdata : data.length = n * size)
    (h : ∀ r ∈ ksuRecords size n data, r.isSome) :
    ∃ profiles : List (KsuProfile size), profiles.length = n ∧
      profiles.flatMap KsuProfile.bytes = data := by
  induction n generalizing data with
  | zero =>
    rw [Nat.zero_mul] at hdata
    exact ⟨[], rfl, (List.eq_nil_of_length_eq_zero hdata).symm⟩
  | succ n ih =>
    rw [Nat.add_mul, Nat.one_mul] at hdata
    rw [ksuRecords, List.forall_mem_cons] at h
    obtain ⟨uid, huid⟩ := Option.isSome_iff_exists.mp h.1
    obtain ⟨p, hp⟩ := profile_of_ksuRecord hsize (by omega) huid
    obtain ⟨profiles, hlen, hprofiles⟩ := ih (by rw [List.length_drop]; omega) h.2
    refine ⟨p :: profiles, by rw [List.length_cons, hlen], ?_⟩
    rw [List.flatMap_cons, hp, hprofiles, List.take_append_drop]

/-- The loop over the records accepts them if each can be read. -/
theorem ksuLoop_valid :
    (RootPolicy.parseKsuUids records uids).2 = true ↔ ∀ r ∈ records, r.isSome := by
  induction records generalizing uids with
  | nil => simp [RootPolicy.parseKsuUids]
  | cons r records ih =>
    cases r with
    | none => simp [RootPolicy.parseKsuUids]
    | some uid =>
      rw [RootPolicy.parseKsuUids, ih]
      simp

/-- It collects their uids. -/
theorem mem_ksuLoop {read : List UInt32} :
    uid ∈ (RootPolicy.parseKsuUids (read.map some) uids).1 ↔ uid ∈ uids ∨ uid ∈ read := by
  induction read generalizing uids with
  | nil => simp [RootPolicy.parseKsuUids]
  | cons u read ih =>
    rw [List.map_cons, RootPolicy.parseKsuUids, ih, Std.TreeSet.mem_insert, List.mem_cons,
      Std.compare_eq_iff_eq]
    constructor
    · rintro ((rfl | h) | h)
      · exact .inr (.inl rfl)
      · exact .inl h
      · exact .inr (.inr h)
    · rintro (h | rfl | h)
      · exact .inl (.inr h)
      · exact .inl (.inl rfl)
      · exact .inr h

theorem ksuRecordSize_bounds (version : Nat) :
    264 ≤ ksuRecordSize version ∧ ksuRecordSize version ≤ 784 := by
  rw [ksuRecordSize]
  split_ifs <;> decide

theorem KsuAllowlist.length_bytes (a : KsuAllowlist) :
    a.bytes.length = 8 + a.profiles.length * ksuRecordSize a.version := by
  have hprofiles : (a.profiles.flatMap KsuProfile.bytes).length =
      a.profiles.length * ksuRecordSize a.version := by
    simp [List.length_flatMap, KsuProfile.length_bytes]
  simp only [KsuAllowlist.bytes, List.length_append, length_toBytes, hprofiles]
  omega

/-- The file of an allowlist is read as its records. -/
theorem parseKsuUids_bytes (a : KsuAllowlist) (uids : Std.TreeSet UInt32) :
    parseKsuUids a.bytes uids =
      RootPolicy.parseKsuUids ((a.profiles.map (·.uid)).map some) uids := by
  obtain ⟨hlo, hhi⟩ := ksuRecordSize_bounds a.version
  have hlen := a.length_bytes
  have hfew := a.few
  have hmax : a.profiles.length * ksuRecordSize a.version ≤ policyCacheMaxEntries * 784 :=
    Nat.mul_le_mul hfew hhi
  have hread : readAll a.bytes = some a.bytes := by
    refine if_neg (Nat.not_lt.mpr ?_)
    rw [hlen]
    exact (Nat.add_le_add_left hmax 8).trans (by decide)
  have hmagic : readAt 0 4 a.bytes = ksuAllowlistMagic := readAt_here (by decide)
  have hversion : readAt 4 4 a.bytes = a.version := by
    have hlt : a.version < 256 ^ 4 := a.supported.2.trans_lt (by decide)
    rw [KsuAllowlist.bytes, readAt_next (Nat.le_refl 4)]
    exact readAt_here hlt
  have hcount : (a.bytes.length - 8) / ksuRecordSize a.version = a.profiles.length := by
    rw [hlen, Nat.add_sub_cancel_left]
    exact Nat.mul_div_cancel _ (by omega)
  have hrest : (a.bytes.length - 8) % ksuRecordSize a.version = 0 := by
    rw [hlen, Nat.add_sub_cancel_left]
    exact Nat.mul_mod_left _ _
  have hdrop : a.bytes.drop 8 = a.profiles.flatMap KsuProfile.bytes := by
    rw [KsuAllowlist.bytes, ← List.append_assoc]
    exact List.drop_left' (by simp)
  have hgood : ¬ (ksuAllowlistMagic ≠ ksuAllowlistMagic ∨ a.version < 2 ∨ a.version > 4) := by
    have := a.supported
    omega
  have hwhole : ¬ ((0 : Nat) ≠ 0 ∨ a.profiles.length > policyCacheMaxEntries) := by
    omega
  rw [parseKsuUids, hread]
  dsimp only
  rw [if_neg (by omega), hmagic, hversion, if_neg hgood, hrest, hcount, if_neg hwhole, hdrop,
    ksuRecords_bytes, List.map_map]
  rfl

/-- What is accepted is the file of an allowlist. -/
theorem allowlist_of_valid {file : List UInt8} (h : (parseKsuUids file uids).2 = true) :
    ∃ a : KsuAllowlist, a.bytes = file := by
  have hread : readAll file = some file := by
    by_contra hbad
    have hnone : readAll file = none := by
      rw [readAll] at hbad ⊢
      by_cases hbig : file.length > maxPolicyFile
      · exact if_pos hbig
      · exact absurd (if_neg hbig) hbad
    rw [parseKsuUids, hnone] at h
    cases h
  rw [parseKsuUids, hread] at h
  dsimp only at h
  split_ifs at h with hshort hheader hsize
  rw [ksuLoop_valid] at h
  rw [not_or, not_or, not_not] at hheader
  rw [not_or, not_not] at hsize
  obtain ⟨hmagic, hversion⟩ := hheader
  obtain ⟨hwhole, hfew⟩ := hsize
  obtain ⟨hlo, -⟩ := ksuRecordSize_bounds (readAt 4 4 file)
  have hlen : (file.drop 8).length =
      (file.length - 8) / ksuRecordSize (readAt 4 4 file) * ksuRecordSize (readAt 4 4 file) := by
    rw [List.length_drop]
    exact (Nat.div_mul_cancel (Nat.dvd_of_mod_eq_zero hwhole)).symm
  obtain ⟨profiles, hcount, hprofiles⟩ := profiles_of_ksuRecords hlo hlen h
  refine ⟨⟨readAt 4 4 file, by omega, profiles, by omega⟩, ?_⟩
  have hfield : ∀ offset, offset + 4 ≤ 8 →
      toBytes 4 (readAt offset 4 file) = (file.drop offset).take 4 := by
    intro offset hoffset
    have hfour : ((file.drop offset).take 4).length = 4 := by
      rw [List.length_take_of_le (by rw [List.length_drop]; omega)]
    have := toBytes_ofBytes ((file.drop offset).take 4)
    rwa [hfour] at this
  have hsplit : file = file.take 4 ++ ((file.drop 4).take 4 ++ file.drop 8) := by
    conv_lhs => rw [← List.take_append_drop 4 file, ← List.take_append_drop 4 (file.drop 4)]
    rw [List.drop_drop]
  rw [KsuAllowlist.bytes, hprofiles, ← hmagic, hfield 0 (by omega), hfield 4 (by omega),
    List.drop_zero]
  exact hsplit.symm

/-- **`parse_ksu_uids` inverts the format of the allowlist.**  It accepts exactly the files of
allowlists, and then the set has exactly the uids of the records. -/
theorem parseKsuUids_exact (file : List UInt8) :
    ((parseKsuUids file ∅).2 = true ↔ ∃ a : KsuAllowlist, a.bytes = file) ∧
    ∀ a : KsuAllowlist, a.bytes = file → ∀ uid,
      uid ∈ (parseKsuUids file ∅).1 ↔ ∃ p ∈ a.profiles, p.uid = uid := by
  refine ⟨⟨allowlist_of_valid, ?_⟩, ?_⟩
  · rintro ⟨a, rfl⟩
    rw [parseKsuUids_bytes, ksuLoop_valid]
    simp
  · rintro a rfl uid
    rw [parseKsuUids_bytes, mem_ksuLoop]
    simp

/-- The allowlist of one record of the old size, for the uid 10420. -/
def sampleAllowlist : KsuAllowlist where
  version := 2
  supported := by decide
  profiles := [{
    lead := List.replicate 4 0
    key := List.replicate 256 0
    uid := 10420
    rest := List.replicate 512 0
    lead_length := by decide
    key_length := List.length_replicate
    key_ends := List.mem_replicate.mpr ⟨by decide, rfl⟩
    uid_nonneg := by decide
    rest_length := by rw [List.length_replicate]; rfl }]
  few := by decide

theorem parseKsuUids_exact_sample :
    (parseKsuUids sampleAllowlist.bytes ∅).2 = true ∧
      (10420 : UInt32) ∈ (parseKsuUids sampleAllowlist.bytes ∅).1 := by
  have h := parseKsuUids_exact sampleAllowlist.bytes
  exact ⟨h.1.mpr ⟨_, rfl⟩, (h.2 _ rfl _).mpr ⟨_, List.mem_singleton_self _, rfl⟩⟩

end YukiZygisk.PolicyFiles
