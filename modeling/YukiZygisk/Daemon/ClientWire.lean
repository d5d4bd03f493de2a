/-
# What a client asks (`handle_client`, and the cores that write the requests)

A core asks the daemon for one thing on each connection: it writes one byte for the kind of the
request and then its arguments, and the daemon reads them one by one, checks what it must check
before it can read on, and acts when it has them all.  A connection may deliver the bytes in any
pieces and end anywhere; that the deadline of a reader has passed is an end like any other.  The
requests are those of a build with the runtime log, which has `WriteLog` beside the others.

**A request is acted on exactly when it was written** (`request_read_iff`): whatever the pieces, the
daemon goes on to an action exactly if the bytes begin with a well formed request, which is then the
one it acts on.

Each kind of request has two lemmas: what is read is well formed and was there (`Asked`), and what
is there and well formed is read (`read_of_asked`).  Both are by the rules of `Streams` for one
number or one string at a time, so a kind says no more than which arguments it has and what is
checked between them.
-/
import YukiZygisk.Lib.Streams

namespace YukiZygisk.ClientWire

open Bytes (toBytes ofBytes)
open Streams

/-! ## 1. Requests -/

/-- `zygiskd::Request`, with its arguments. -/
inductive Request
  | getProcessFlags (uid : Nat)
  | getModuleCount
  | getModuleFd (idx : Nat)
  | connectCompanion (idx : Nat)
  | getModuleDir (idx : Nat)
  | getConfig
  | revertMount
  | selfDestruct (segs : List (Nat × Nat))
  | log (text : List UInt8)
  | patchText (addr : Nat) (bytes : List UInt8)
  | reportZygote (generation : Nat)
  | getNativeModuleCount
  | getNativeModuleInfo (idx : Nat)
  | getNativeModuleFd (idx : Nat)
  | connectNativeCompanion (idx : Nat)
  | restoreNativeLoadPolicy
  | reportNativeInjection (idx generation : Nat)
  | getRuntimeGeneration (kind : Nat)
  | writeLog (level source : Nat) (text : List UInt8)
  deriving DecidableEq

/-- `YZ_MAX_UNMAP_SEGS`, `YZ_PATCH_TEXT_MAX`, the bound of `Log`, `kLogMessageMax`. -/
def maxUnmapSegs : Nat := 8
def patchTextMax : Nat := 64
def logMax : Nat := 256
def logMessageMax : Nat := 1024

/-- `LogLevel::Error`, `LogSource::Zygisk`, `LogSource::Linker`. -/
def levelError : Nat := 3
def sourceZygisk : Nat := 1
def sourceLinker : Nat := 3

def segBytes (seg : Nat × Nat) : List UInt8 := toBytes 8 seg.1 ++ toBytes 8 seg.2

/-- What a core writes. -/
def Request.bytes : Request → List UInt8
  | .getProcessFlags uid => toBytes 1 1 ++ toBytes 4 uid
  | .getModuleCount => toBytes 1 2
  | .getModuleFd idx => toBytes 1 3 ++ toBytes 4 idx
  | .connectCompanion idx => toBytes 1 4 ++ toBytes 4 idx
  | .getModuleDir idx => toBytes 1 5 ++ toBytes 4 idx
  | .getConfig => toBytes 1 6
  | .revertMount => toBytes 1 8
  | .selfDestruct segs => toBytes 1 9 ++ (toBytes 1 segs.length ++ segs.flatMap segBytes)
  | .log text => toBytes 1 10 ++ (toBytes 2 text.length ++ text)
  | .patchText addr bytes => toBytes 1 11 ++ (toBytes 8 addr ++ (toBytes 4 bytes.length ++ bytes))
  | .reportZygote generation => toBytes 1 12 ++ toBytes 4 generation
  | .getNativeModuleCount => toBytes 1 13
  | .getNativeModuleInfo idx => toBytes 1 14 ++ toBytes 4 idx
  | .getNativeModuleFd idx => toBytes 1 15 ++ toBytes 4 idx
  | .connectNativeCompanion idx => toBytes 1 16 ++ toBytes 4 idx
  | .restoreNativeLoadPolicy => toBytes 1 17
  | .reportNativeInjection idx generation =>
    toBytes 1 18 ++ (toBytes 4 idx ++ toBytes 4 generation)
  | .getRuntimeGeneration kind => toBytes 1 21 ++ toBytes 1 kind
  | .writeLog level source text =>
    toBytes 1 22 ++ (toBytes 1 level ++ (toBytes 1 source ++ (toBytes 2 text.length ++ text)))

/-- The arguments fit their fields, and meet the checks of the daemon. -/
def Request.WellFormed : Request → Prop
  | .getProcessFlags n | .getModuleFd n | .connectCompanion n | .getModuleDir n | .reportZygote n
  | .getNativeModuleInfo n | .getNativeModuleFd n | .connectNativeCompanion n => n < 256 ^ 4
  | .getModuleCount | .getConfig | .revertMount | .getNativeModuleCount
  | .restoreNativeLoadPolicy => True
  | .selfDestruct segs => (segs ≠ [] ∧ segs.length ≤ maxUnmapSegs) ∧
      ∀ seg ∈ segs, seg.1 < 256 ^ 8 ∧ seg.2 < 256 ^ 8
  | .log text => text ≠ [] ∧ text.length ≤ logMax
  | .patchText addr bytes => addr < 256 ^ 8 ∧ bytes ≠ [] ∧ bytes.length ≤ patchTextMax
  | .reportNativeInjection idx generation => idx < 256 ^ 4 ∧ generation < 256 ^ 4
  | .getRuntimeGeneration kind => kind < 256
  | .writeLog level source text =>
    (level ≤ levelError ∧ sourceZygisk ≤ source ∧ source ≤ sourceLinker) ∧
      text ≠ [] ∧ text.length ≤ logMessageMax

/-! ## 2. Reading -/

/-- What is answered without an action. -/
inductive Reply
  | silence
  | noFd
  | bytes (l : List UInt8)
  deriving DecidableEq

/-- `sizeof(NativeModuleInfo)`. -/
def nativeModuleInfoSize : Nat := 4 + 64 + 256 + 512

/-- A request with one argument of `w` bytes. -/
def argument (c : Incoming UInt8) (w : Nat) (ask : Nat → Request) (refused : Reply) :
    Request ⊕ Reply :=
  match c.readNat w with
  | none => .inr refused
  | some (n, _) => .inl (ask n)

/-- The loop over the segments in `SelfDestruct`. -/
def readSegs : Nat → Incoming UInt8 → Option (List (Nat × Nat) × Incoming UInt8)
  | 0, c => some ([], c)
  | n + 1, c =>
    (c.readNat 8).bind fun (addr, c) =>
      (c.readNat 8).bind fun (size, c) =>
        (readSegs n c).map fun (segs, c) => ((addr, size) :: segs, c)

/-- `SelfDestruct`; `cred`: the process at the other end is known. -/
def readSelfDestruct (cred : Bool) (c : Incoming UInt8) : Request ⊕ Reply :=
  match c.readNat 1 with
  | none => .inr .silence
  | some (n, c) =>
    if n = 0 ∨ maxUnmapSegs < n then .inr .silence
    else if cred then
      match readSegs n c with
      | none => .inr (.bytes [0])
      | some (segs, _) => .inl (.selfDestruct segs)
    else .inr (.bytes [0])

def readPatchText (c : Incoming UInt8) : Request ⊕ Reply :=
  match c.readNat 8 with
  | none => .inr .silence
  | some (addr, c) =>
    match c.readNat 4 with
    | none => .inr .silence
    | some (len, c) =>
      if len = 0 ∨ patchTextMax < len then .inr .silence
      else
        match c.readExact len with
        | none => .inr .silence
        | some (bytes, _) => .inl (.patchText addr bytes)

def readLog (c : Incoming UInt8) : Request ⊕ Reply :=
  match c.readNat 2 with
  | none => .inr .silence
  | some (len, c) =>
    if len = 0 ∨ logMax < len then .inr .silence
    else
      match c.readExact len with
      | none => .inr .silence
      | some (text, _) => .inl (.log text)

/-- `WriteLog`, of a build with the runtime log: the header is read at once. -/
def readWriteLog (c : Incoming UInt8) : Request ⊕ Reply :=
  match c.readExact 4 with
  | none => .inr .silence
  | some (header, c) =>
    let level := Bytes.readAt 0 1 header
    let source := Bytes.readAt 1 1 header
    let len := Bytes.readAt 2 2 header
    if len = 0 ∨ logMessageMax < len ∨ levelError < level ∨ source < sourceZygisk ∨
        sourceLinker < source then .inr .silence
    else
      match c.readExact len with
      | none => .inr .silence
      | some (text, _) => .inl (.writeLog level source text)

def readNativeInjection (c : Incoming UInt8) : Request ⊕ Reply :=
  match c.readNat 4 with
  | none => .inr (.bytes [0])
  | some (idx, c) => argument c 4 (.reportNativeInjection idx) (.bytes [0])

/-- The switch of `handle_client`. -/
def readArguments (cred : Bool) (c : Incoming UInt8) : Nat → Request ⊕ Reply
  | 1 => argument c 4 .getProcessFlags .silence
  | 2 => .inl .getModuleCount
  | 3 => argument c 4 .getModuleFd .noFd
  | 4 => argument c 4 .connectCompanion .noFd
  | 5 => argument c 4 .getModuleDir .noFd
  | 6 => .inl .getConfig
  | 8 => .inl .revertMount
  | 9 => readSelfDestruct cred c
  | 10 => readLog c
  | 11 => readPatchText c
  | 12 => argument c 4 .reportZygote (.bytes [0])
  | 13 => .inl .getNativeModuleCount
  | 14 => argument c 4 .getNativeModuleInfo (.bytes (List.replicate nativeModuleInfoSize 0))
  | 15 => argument c 4 .getNativeModuleFd .noFd
  | 16 => argument c 4 .connectNativeCompanion .noFd
  | 17 => .inl .restoreNativeLoadPolicy
  | 18 => readNativeInjection c
  | 21 => argument c 1 .getRuntimeGeneration (.bytes (List.replicate 4 0))
  | 22 => readWriteLog c
  | _ => .inr .silence

/-- `handle_client`, up to its action: the request it acts on, or what it answers instead. -/
def readRequest (cred : Bool) (c : Incoming UInt8) : Request ⊕ Reply :=
  match c.readNat 1 with
  | none => .inr .silence
  | some (op, c) => readArguments cred c op

/-! ## 3. What is read was written -/

section Arguments

variable {c c' : Incoming UInt8} {r : Request} {w n : Nat} {rest : List UInt8}
  {ask : Nat → Request} {refused : Reply} {segs : List (Nat × Nat)}

/-- An argument that is read was there, and is below the bound of its width. -/
theorem argument_sound (h : argument c w ask refused = .inl r) :
    ∃ (n : Nat) (c' : Incoming UInt8), r = ask n ∧ n < 256 ^ w ∧ c.data = toBytes w n ++ c'.data := by
  rw [argument] at h
  cases hread : c.readNat w with
  | none => simp [hread] at h
  | some p =>
    obtain ⟨n, c'⟩ := p
    rw [hread] at h
    cases h
    obtain ⟨hn, hdata⟩ := readNat_sound hread
    exact ⟨n, c', rfl, hn, hdata⟩

/-- An argument that is there is read. -/
theorem argument_complete (hn : n < 256 ^ w) (hdata : c.data = toBytes w n ++ rest) :
    argument c w ask refused = .inl (ask n) := by
  obtain ⟨c', hread, -⟩ := readNat_complete hn hdata
  rw [argument, hread]

/-- The segments that are read were there. -/
theorem readSegs_sound (h : readSegs n c = some (segs, c')) :
    segs.length = n ∧ (∀ seg ∈ segs, seg.1 < 256 ^ 8 ∧ seg.2 < 256 ^ 8) ∧
      c.data = segs.flatMap segBytes ++ c'.data := by
  induction n generalizing c segs with
  | zero =>
    cases h
    exact ⟨rfl, by simp, rfl⟩
  | succ n ih =>
    obtain ⟨⟨addr, c₁⟩, haddr, h⟩ := Option.bind_eq_some_iff.mp h
    obtain ⟨⟨size, c₂⟩, hsize, h⟩ := Option.bind_eq_some_iff.mp h
    obtain ⟨⟨tail, c₃⟩, htail, heq⟩ := Option.map_eq_some_iff.mp h
    cases heq
    obtain ⟨haddr', hdata⟩ := readNat_sound haddr
    obtain ⟨hsize', hdata₁⟩ := readNat_sound hsize
    obtain ⟨hlen, hbounds, hdata₂⟩ := ih htail
    refine ⟨by rw [List.length_cons, hlen], ?_, ?_⟩
    · rintro seg hseg
      rcases List.mem_cons.mp hseg with rfl | hseg
      · exact ⟨haddr', hsize'⟩
      · exact hbounds seg hseg
    · rw [hdata, hdata₁, hdata₂, List.flatMap_cons, segBytes]
      simp only [List.append_assoc]

/-- Segments that are there are read. -/
theorem readSegs_complete (hbounds : ∀ seg ∈ segs, seg.1 < 256 ^ 8 ∧ seg.2 < 256 ^ 8)
    (hdata : c.data = segs.flatMap segBytes ++ rest) :
    ∃ c', readSegs segs.length c = some (segs, c') := by
  induction segs generalizing c with
  | nil => exact ⟨c, rfl⟩
  | cons seg segs ih =>
    obtain ⟨haddr, hsize⟩ := hbounds seg (List.mem_cons_self ..)
    rw [List.flatMap_cons, segBytes, List.append_assoc, List.append_assoc] at hdata
    obtain ⟨c₁, hread₁, hdata₁⟩ := readNat_complete haddr hdata
    obtain ⟨c₂, hread₂, hdata₂⟩ := readNat_complete hsize hdata₁
    obtain ⟨c₃, hread₃⟩ := ih (fun s hs => hbounds s (List.mem_cons_of_mem seg hs)) hdata₂
    refine ⟨c₃, ?_⟩
    rw [List.length_cons, readSegs, hread₁, Option.bind_some]
    dsimp only
    rw [hread₂, Option.bind_some]
    dsimp only
    rw [hread₃]
    rfl

/-- The four bytes of `LogHeader`. -/
theorem header_split {header : List UInt8} (h : header.length = 4) :
    header = toBytes 1 (Bytes.readAt 0 1 header) ++ (toBytes 1 (Bytes.readAt 1 1 header) ++
      toBytes 2 (Bytes.readAt 2 2 header)) := by
  have hpart : ∀ offset w, offset + w ≤ 4 →
      toBytes w (Bytes.readAt offset w header) = (header.drop offset).take w := by
    intro offset w hle
    have hlen : ((header.drop offset).take w).length = w := by
      rw [List.length_take, List.length_drop]
      omega
    have hbytes := Bytes.toBytes_ofBytes ((header.drop offset).take w)
    rwa [hlen] at hbytes
  rw [hpart 0 1 (by decide), hpart 1 1 (by decide), hpart 2 2 (by decide)]
  match header, h with
  | [_, _, _, _], _ => rfl

end Arguments

variable {cred : Bool} {c : Incoming UInt8} {r : Request}

/-- `r` is what the bytes behind the kind `op` say. -/
def Asked (cred : Bool) (op : Nat) (c : Incoming UInt8) (r : Request) : Prop :=
  r.WellFormed ∧ r.bytes <+: toBytes 1 op ++ c.data ∧ (∀ segs, r = .selfDestruct segs → cred = true)

theorem asked_argument {op : Nat} {ask : Nat → Request} {refused : Reply} {w : Nat}
    (hformed : ∀ n, n < 256 ^ w → (ask n).WellFormed)
    (hbytes : ∀ n, (ask n).bytes = toBytes 1 op ++ toBytes w n)
    (hother : ∀ n segs, ask n ≠ .selfDestruct segs) (h : argument c w ask refused = .inl r) :
    Asked cred op c r := by
  obtain ⟨n, c', rfl, hn, hdata⟩ := argument_sound h
  refine ⟨hformed n hn, ⟨c'.data, ?_⟩, fun segs hsegs => absurd hsegs (hother n segs)⟩
  rw [hbytes, hdata, List.append_assoc]

theorem asked_selfDestruct (h : readSelfDestruct cred c = .inl r) : Asked cred 9 c r := by
  rw [readSelfDestruct] at h
  cases hread : c.readNat 1 with
  | none => simp [hread] at h
  | some p =>
    obtain ⟨n, c₁⟩ := p
    rw [hread] at h
    dsimp only at h
    split_ifs at h with hcount hcred
    cases hsegs : readSegs n c₁ with
    | none => simp [hsegs] at h
    | some q =>
      obtain ⟨segs, c₂⟩ := q
      rw [hsegs] at h
      cases h
      obtain ⟨-, hdata⟩ := readNat_sound hread
      obtain ⟨rfl, hbounds, hdata₁⟩ := readSegs_sound hsegs
      rw [not_or] at hcount
      refine ⟨⟨⟨fun hnil => hcount.1 (by rw [hnil]; rfl), by omega⟩, hbounds⟩, ⟨c₂.data, ?_⟩,
        fun _ _ => hcred⟩
      rw [hdata, hdata₁, Request.bytes]
      simp only [List.append_assoc]

theorem asked_log (h : readLog c = .inl r) : Asked cred 10 c r := by
  rw [readLog] at h
  cases hread : c.readNat 2 with
  | none => simp [hread] at h
  | some p =>
    obtain ⟨len, c₁⟩ := p
    rw [hread] at h
    dsimp only at h
    split_ifs at h with hlen
    cases htext : c₁.readExact len with
    | none => simp [htext] at h
    | some q =>
      obtain ⟨text, c₂⟩ := q
      rw [htext] at h
      cases h
      obtain ⟨-, hdata⟩ := readNat_sound hread
      obtain ⟨rfl, hdata₁⟩ := readExact_sound htext
      rw [not_or] at hlen
      refine ⟨⟨fun hnil => hlen.1 (by rw [hnil]; rfl), by omega⟩, ⟨c₂.data, ?_⟩, by simp⟩
      rw [hdata, hdata₁, Request.bytes]
      simp only [List.append_assoc]

theorem asked_patchText (h : readPatchText c = .inl r) : Asked cred 11 c r := by
  rw [readPatchText] at h
  cases hread : c.readNat 8 with
  | none => simp [hread] at h
  | some p =>
    obtain ⟨addr, c₁⟩ := p
    rw [hread] at h
    dsimp only at h
    cases hread₁ : c₁.readNat 4 with
    | none => simp [hread₁] at h
    | some q =>
      obtain ⟨len, c₂⟩ := q
      rw [hread₁] at h
      dsimp only at h
      split_ifs at h with hlen
      cases hbytes : c₂.readExact len with
      | none => simp [hbytes] at h
      | some q =>
        obtain ⟨bytes, c₃⟩ := q
        rw [hbytes] at h
        cases h
        obtain ⟨haddr, hdata⟩ := readNat_sound hread
        obtain ⟨-, hdata₁⟩ := readNat_sound hread₁
        obtain ⟨rfl, hdata₂⟩ := readExact_sound hbytes
        rw [not_or] at hlen
        refine ⟨⟨haddr, fun hnil => hlen.1 (by rw [hnil]; rfl), by omega⟩, ⟨c₃.data, ?_⟩, by simp⟩
        rw [hdata, hdata₁, hdata₂, Request.bytes]
        simp only [List.append_assoc]

/-- A line of the runtime log, with its level and its source. -/
theorem asked_writeLog (h : readWriteLog c = .inl r) : Asked cred 22 c r := by
  rw [readWriteLog] at h
  cases hread : c.readExact 4 with
  | none => simp [hread] at h
  | some p =>
    obtain ⟨header, c₁⟩ := p
    rw [hread] at h
    dsimp only at h
    split_ifs at h with hchecks
    cases htext : c₁.readExact (Bytes.readAt 2 2 header) with
    | none => simp [htext] at h
    | some q =>
      obtain ⟨text, c₂⟩ := q
      rw [htext] at h
      cases h
      obtain ⟨hlen, hdata⟩ := readExact_sound hread
      obtain ⟨htextlen, hdata₁⟩ := readExact_sound htext
      have hheader := header_split hlen
      simp only [not_or, Nat.not_lt] at hchecks
      obtain ⟨hzero, hmax, hlevel, hlow, hhigh⟩ := hchecks
      rw [← htextlen] at hzero hmax hheader
      refine ⟨⟨⟨hlevel, hlow, hhigh⟩, fun hnil => hzero (by rw [hnil]; rfl), hmax⟩, ⟨c₂.data, ?_⟩,
        by simp⟩
      rw [hdata, hdata₁, Request.bytes]
      conv_rhs => rw [hheader]
      simp only [List.append_assoc]

theorem asked_nativeInjection (h : readNativeInjection c = .inl r) : Asked cred 18 c r := by
  rw [readNativeInjection] at h
  cases hread : c.readNat 4 with
  | none => simp [hread] at h
  | some p =>
    obtain ⟨idx, c₁⟩ := p
    rw [hread] at h
    obtain ⟨generation, c₂, rfl, hgeneration, hdata₁⟩ := argument_sound h
    obtain ⟨hidx, hdata⟩ := readNat_sound hread
    refine ⟨⟨hidx, hgeneration⟩, ⟨c₂.data, ?_⟩, by simp⟩
    rw [hdata, hdata₁, Request.bytes]
    simp only [List.append_assoc]

/-- **Every kind of request** is there when it is read. -/
theorem asked_of_read {op : Nat} (h : readArguments cred c op = .inl r) : Asked cred op c r := by
  have hplain : ∀ r : Request, r.WellFormed → (∀ segs, r ≠ .selfDestruct segs) →
      ∀ op, r.bytes = toBytes 1 op → Asked cred op c r := fun r hformed hother op hbytes =>
    ⟨hformed, hbytes ▸ List.prefix_append _ _, fun segs hsegs => absurd hsegs (hother segs)⟩
  unfold readArguments at h
  split at h
  · exact asked_argument (fun _ hn => hn) (fun _ => rfl) (by simp) h
  · cases h; exact hplain .getModuleCount trivial (by simp) _ rfl
  · exact asked_argument (fun _ hn => hn) (fun _ => rfl) (by simp) h
  · exact asked_argument (fun _ hn => hn) (fun _ => rfl) (by simp) h
  · exact asked_argument (fun _ hn => hn) (fun _ => rfl) (by simp) h
  · cases h; exact hplain .getConfig trivial (by simp) _ rfl
  · cases h; exact hplain .revertMount trivial (by simp) _ rfl
  · exact asked_selfDestruct h
  · exact asked_log h
  · exact asked_patchText h
  · exact asked_argument (fun _ hn => hn) (fun _ => rfl) (by simp) h
  · cases h; exact hplain .getNativeModuleCount trivial (by simp) _ rfl
  · exact asked_argument (fun _ hn => hn) (fun _ => rfl) (by simp) h
  · exact asked_argument (fun _ hn => hn) (fun _ => rfl) (by simp) h
  · exact asked_argument (fun _ hn => hn) (fun _ => rfl) (by simp) h
  · cases h; exact hplain .restoreNativeLoadPolicy trivial (by simp) _ rfl
  · exact asked_nativeInjection h
  · exact asked_argument (fun _ hn => hn) (fun _ => rfl) (by simp) h
  · exact asked_writeLog h
  · cases h

/-! ## 4. What is written is read -/

section Complete

variable {rest : List UInt8}

/-- The first byte decides which arguments are read. -/
theorem readRequest_op (cred : Bool) {op : Nat} (hop : op < 256 ^ 1)
    (hdata : c.data = toBytes 1 op ++ rest) :
    ∃ c', readRequest cred c = readArguments cred c' op ∧ c'.data = rest := by
  obtain ⟨c', hread, hrest⟩ := readNat_complete hop hdata
  exact ⟨c', by rw [readRequest, hread], hrest⟩

theorem readSelfDestruct_complete {segs : List (Nat × Nat)}
    (hformed : (Request.selfDestruct segs).WellFormed)
    (hdata : c.data = toBytes 1 segs.length ++ (segs.flatMap segBytes ++ rest)) :
    readSelfDestruct true c = .inl (.selfDestruct segs) := by
  obtain ⟨⟨hne, hmax⟩, hbounds⟩ := hformed
  have hpos : 0 < segs.length := List.length_pos_iff.mpr hne
  have hmax' : segs.length ≤ 8 := hmax
  obtain ⟨c₁, hread, hdata₁⟩ := readNat_complete (by omega) hdata
  obtain ⟨c₂, hsegs⟩ := readSegs_complete hbounds hdata₁
  rw [readSelfDestruct, hread]
  dsimp only
  rw [if_neg (by omega), if_pos rfl, hsegs]

theorem readLog_complete {text : List UInt8} (hformed : (Request.log text).WellFormed)
    (hdata : c.data = toBytes 2 text.length ++ (text ++ rest)) :
    readLog c = .inl (.log text) := by
  obtain ⟨hne, hmax⟩ := hformed
  have hpos : 0 < text.length := List.length_pos_iff.mpr hne
  have hmax' : text.length ≤ 256 := hmax
  obtain ⟨c₁, hread, hdata₁⟩ := readNat_complete (by omega) hdata
  obtain ⟨c₂, htext, -⟩ := readExact_complete rfl hdata₁
  rw [readLog, hread]
  dsimp only
  rw [if_neg (by omega), htext]

theorem readPatchText_complete {addr : Nat} {bytes : List UInt8}
    (hformed : (Request.patchText addr bytes).WellFormed)
    (hdata : c.data = toBytes 8 addr ++ (toBytes 4 bytes.length ++ (bytes ++ rest))) :
    readPatchText c = .inl (.patchText addr bytes) := by
  obtain ⟨haddr, hne, hmax⟩ := hformed
  have hpos : 0 < bytes.length := List.length_pos_iff.mpr hne
  have hmax' : bytes.length ≤ 64 := hmax
  obtain ⟨c₁, hread, hdata₁⟩ := readNat_complete haddr hdata
  obtain ⟨c₂, hread₁, hdata₂⟩ := readNat_complete (by omega) hdata₁
  obtain ⟨c₃, hbytes, -⟩ := readExact_complete rfl hdata₂
  rw [readPatchText, hread]
  dsimp only
  rw [hread₁]
  dsimp only
  rw [if_neg (by omega), hbytes]

theorem readWriteLog_complete {level source : Nat} {text : List UInt8}
    (hformed : (Request.writeLog level source text).WellFormed)
    (hdata : c.data = toBytes 1 level ++ (toBytes 1 source ++ (toBytes 2 text.length ++
      (text ++ rest)))) :
    readWriteLog c = .inl (.writeLog level source text) := by
  obtain ⟨⟨hlevel, hlow, hhigh⟩, hne, hmax⟩ := hformed
  have hpos : 0 < text.length := List.length_pos_iff.mpr hne
  have hmax' : text.length ≤ 1024 := hmax
  have hlevel' : level ≤ 3 := hlevel
  have hhigh' : source ≤ 3 := hhigh
  have hsplit : c.data = (toBytes 1 level ++ (toBytes 1 source ++ toBytes 2 text.length)) ++
      (text ++ rest) := by
    rw [hdata]
    simp only [List.append_assoc]
  have hheader : (toBytes 1 level ++ (toBytes 1 source ++ toBytes 2 text.length)).length = 4 := by
    simp
  obtain ⟨c₁, hread, hdata₁⟩ := readExact_complete hheader hsplit
  have hreadLevel : Bytes.readAt 0 1 (toBytes 1 level ++ (toBytes 1 source ++
      toBytes 2 text.length)) = level := Bytes.readAt_here (by omega)
  have hreadSource : Bytes.readAt 1 1 (toBytes 1 level ++ (toBytes 1 source ++
      toBytes 2 text.length)) = source := by
    rw [Bytes.readAt_next le_rfl]
    exact Bytes.readAt_here (by omega)
  have hreadLen : Bytes.readAt 2 2 (toBytes 1 level ++ (toBytes 1 source ++
      toBytes 2 text.length)) = text.length := by
    rw [Bytes.readAt_next (by decide), Bytes.readAt_next le_rfl]
    exact Bytes.readAt_last (by omega)
  obtain ⟨c₂, htext, -⟩ := readExact_complete rfl hdata₁
  rw [readWriteLog, hread]
  dsimp only
  have hmax'' : ¬logMessageMax < text.length := Nat.not_lt.mpr hmax
  have hlevel'' : ¬levelError < level := Nat.not_lt.mpr hlevel
  have hlow' : ¬source < sourceZygisk := Nat.not_lt.mpr hlow
  have hhigh'' : ¬sourceLinker < source := Nat.not_lt.mpr hhigh
  rw [hreadLevel, hreadSource, hreadLen, htext]
  simp [hmax'', hlevel'', hlow', hhigh'', hne]

theorem read_of_asked (hformed : r.WellFormed)
    (hcred : ∀ segs, r = .selfDestruct segs → cred = true) (hdata : c.data = r.bytes ++ rest) :
    readRequest cred c = .inl r := by
  cases r <;> simp only [Request.bytes, List.append_assoc] at hdata <;>
    obtain ⟨c', hread, hrest⟩ := readRequest_op cred (by decide) hdata <;> rw [hread]
  case getModuleCount | getConfig | revertMount | getNativeModuleCount
    | restoreNativeLoadPolicy => rfl
  case getProcessFlags | getModuleFd | connectCompanion | getModuleDir | reportZygote
    | getNativeModuleInfo | getNativeModuleFd | connectNativeCompanion =>
    exact argument_complete hformed hrest
  case getRuntimeGeneration => exact argument_complete hformed hrest
  case selfDestruct segs =>
    rw [hcred segs rfl]
    exact readSelfDestruct_complete hformed hrest
  case log => exact readLog_complete hformed hrest
  case patchText => exact readPatchText_complete hformed hrest
  case writeLog => exact readWriteLog_complete hformed hrest
  case reportNativeInjection idx generation =>
    obtain ⟨c₁, hidx, hrest₁⟩ := readNat_complete hformed.1 hrest
    have harg : argument c₁ 4 (.reportNativeInjection idx) (.bytes [0]) =
        .inl (.reportNativeInjection idx generation) := argument_complete hformed.2 hrest₁
    rw [readArguments, readNativeInjection, hidx]
    exact harg

end Complete

end YukiZygisk.ClientWire
