/-
# The status document (`query_status` in `userspace/yzctl/status.cpp`)

The status tool writes its document by hand: braces, commas and member names are literals, the
strings go through an escaping of its own, and the lists are loops that put the commas between their
elements.

**Whatever the contents are, the document is one JSON text, and a reader gets the contents back**,
each string with its bytes: `statusText_exact`.

A writer of JSON is an escaping of strings and a spelling of the structure, and the library
`JsonWriter` says of any such writer, from whose escaping a reader decodes the bytes again, that its
text is one JSON text with the value.  So there are two steps here.  The first makes of the
hand-written pieces the text that the library's writer renders for the contents as a value: each
literal is a brace, a comma or a member's name (`member_lit`), each loop puts commas between its
elements (`appendEach_eq`), and the loop over the zygotes, which skips some, is a loop over those
that are left (`appendZygotes_eq`).  The second is about the leaves: what the escaping writes for a
byte is decoded to that byte (`decode_escapeByte`), control bytes by four hex digits
(`hexUnit_control`), and a number is written as a JSON number (`isNumber_decimal`).
-/
import YukiZygisk.Common.Json
import YukiZygisk.Lib.JsonWriter
import YukiZygisk.Yzctl.Config
import YukiZygisk.Yzctl.Status

namespace YukiZygisk.StatusText

open YukiZygisk.Runtime YukiZygisk.Status JsonGrammar
open Json (ch decimal)
open Config (YzConfig)

/-! ## 1. What the document is made of -/

/-- The bytes of a literal. -/
def lit (s : String) : Text := s.toList.map ch

/-- `RuntimeSnapshot`. -/
structure RuntimeSnapshot where
  generation : ℕ
  safeMode : Bool
  zygoteCrashes : ℕ
  safeModeZygote : Text
  records : List Record

/-- `struct yz_root_status_cmd`. -/
structure RootStatus where
  owner : UInt32
  mask : UInt32
  flags : UInt32

/-- `struct NativeModuleView`. -/
structure NativeModuleView where
  moduleId : Text
  targetType : UInt8
  target : Text
  hasCompanion : Bool
  state : String

/-- `YZ_ROOT_OWNER_UAPI_KERNELSU` and `YZ_ROOT_OWNER_UAPI_KERNELPATCH`. -/
def rootOwnerKernelsu : UInt32 := 1
def rootOwnerKernelpatch : UInt32 := 2

/-- `YZ_ROOT_STATUS_KSU_REDIRECT`, `YZ_ROOT_STATUS_POLICY_KERNEL`, `YZ_ROOT_STATUS_POLICY_FALLBACK`
and `YZ_ROOT_STATUS_POLICY_CACHE_READY`. -/
def ksuRedirect : UInt32 := 1
def policyKernel : UInt32 := 2
def policyFallback : UInt32 := 4
def policyCacheReady : UInt32 := 8

/-- A flag is set. -/
def RootStatus.has (s : RootStatus) (flag : UInt32) : Bool := s.flags &&& flag ≠ 0

/-- `root_impl_name`. -/
def rootImplName (s : RootStatus) : String :=
  if s.owner = rootOwnerKernelsu then if s.has ksuRedirect then "kernelsu-redirect" else "kernelsu"
  else if s.owner = rootOwnerKernelpatch then "kernelpatch"
  else "unsupported"

/-- `root_policy_name`. -/
def rootPolicyName (s : RootStatus) : String :=
  if s.has policyKernel then "kernel"
  else if !s.has policyFallback then "unavailable"
  else if s.owner = rootOwnerKernelsu then "userspace-ksu-api"
  else if s.owner = rootOwnerKernelpatch then "userspace-apatch-config"
  else "unavailable"

/-- `YZ_RUNTIME_ABI_32` and `YZ_RUNTIME_ABI_64`. -/
def runtimeAbi32 : UInt8 := 1
def runtimeAbi64 : UInt8 := 2

/-- `abi_name`. -/
def abiName (abi : UInt8) : String :=
  if abi = runtimeAbi32 then "armeabi-v7a"
  else if abi = runtimeAbi64 then "arm64-v8a"
  else "unknown"

/-- `target_type_name`. -/
def targetTypeName (type : UInt8) : String :=
  if type = Native.nativeTargetPath then "path" else "name"

/-- `snapshot_abi`. -/
def snapshotAbi (snapshot : RuntimeSnapshot) : String :=
  let live := snapshot.records.filter fun record => record.state ≠ .exited
  let abi32 := live.any fun record => record.abi = runtimeAbi32
  let abi64 := live.any fun record => record.abi = runtimeAbi64
  if abi32 && abi64 then "arm64-v8a + armeabi-v7a"
  else if abi32 then "armeabi-v7a"
  else "arm64-v8a"

/-- `injected_base_count`. -/
def injectedBaseCount (snapshot : RuntimeSnapshot) : ℕ :=
  let keys := (snapshot.records.filter fun record =>
    record.state = .injected && record.moduleId = []).map fun record =>
      (record.pid, record.generation, record.kind, record.abi)
  (keys.foldl (fun injected key => if key ∈ injected then injected else injected ++ [key])
    []).length

/-- `aggregate_state`. -/
def aggregateState (moduleId : Text) (targetType : UInt8) (target : Text)
    (injections : List NativeInjection) : String :=
  let same := injections.filter fun injection =>
    injection.moduleId = moduleId && injection.targetType = targetType &&
      injection.target = target
  if same.any fun injection => injection.state = "crashed" then "crashed"
  else if same.any fun injection => injection.state = "failed" then "failed"
  else if same.any fun injection => injection.state = "injected" then "injected"
  else "failed"

/-- The body of the loop of `build_native_module_views`. -/
def addModuleView (injections : List NativeInjection) (modules : List NativeModuleView)
    (source : NativeDefinition) : List NativeModuleView :=
  match modules.findIdx? fun module =>
    module.moduleId = source.moduleId && module.targetType = source.targetType &&
      module.target = source.target with
  | none => modules ++ [⟨source.moduleId, source.targetType, source.target, source.hasCompanion,
      aggregateState source.moduleId source.targetType source.target injections⟩]
  | some i => modules.modify i fun existing =>
      { existing with hasCompanion := existing.hasCompanion || source.hasCompanion }

/-- `build_native_module_views`. -/
def buildNativeModuleViews (definitions : List NativeDefinition)
    (injections : List NativeInjection) : List NativeModuleView :=
  definitions.foldl (addModuleView injections) []

/-- What `query_status` has found out when it writes the document. -/
structure StatusContents where
  runtime : RuntimeSnapshot
  rootStatus : RootStatus
  config : YzConfig
  zygiskModules : List Text
  nativeModules : List NativeModuleView
  nativeInjections : List NativeInjection

/-! ## 2. The document -/

/-- What `append_escaped` appends.  Its cases are those of `json::escape_string`. -/
def appendEscaped (value : Text) : Text := value.flatMap Json.escapeByte

/-- What `append_json_string` appends. -/
def appendJsonString (value : Text) : Text := quote :: (appendEscaped value ++ [quote])

/-- The literal of a member name, with the colon. -/
def key (name : String) : Text := quote :: (lit name ++ [quote, colon])

/-- `condition ? "true" : "false"`. -/
def boolText (b : Bool) : Text := lit (if b then "true" else "false")

/-- What the loop of `append_zygotes` appends for a record, without the comma. -/
def zygoteText (monitor : Bool) (record : Record) (state : String) : Text := List.flatten
  [[openBrace], key "pid", decimal record.pid,
    [comma], key "name", appendJsonString record.target,
    [comma], key "target", appendJsonString record.target,
    [comma], key "abi", appendJsonString (lit (abiName record.abi)),
    if monitor then comma :: (key "state" ++ appendJsonString (lit state)) else [],
    [closeBrace]]

/-- The body of the loop of `append_zygotes`, with what was appended and `first`. -/
def appendZygote (monitor : Bool) (s : Text × Bool) (record : Record) : Text × Bool :=
  if record.kind ≠ .zygote then s
  else
    match runtimeStateName record.state with
    | none => s
    | some state =>
      if !monitor && record.state ≠ .injected then s
      else (s.1 ++ ((if s.2 then [] else [comma]) ++ zygoteText monitor record state), false)

/-- What `append_zygotes` appends. -/
def appendZygotes (snapshot : RuntimeSnapshot) (monitor : Bool) : Text :=
  (snapshot.records.foldl (appendZygote monitor) ([], true)).1

/-- A loop over an index, with a comma in front of each element but that at 0. -/
def appendEach {α : Type} (item : α → Text) (l : List α) : Text :=
  l.zipIdx.flatMap fun p => (if p.2 ≠ 0 then [comma] else []) ++ item p.1

def nativeModuleText (module : NativeModuleView) : Text := List.flatten
  [[openBrace], key "id", appendJsonString module.moduleId,
    [comma], key "target_type", appendJsonString (lit (targetTypeName module.targetType)),
    [comma], key "target", appendJsonString module.target,
    [comma], key "companion", boolText module.hasCompanion,
    [comma], key "state", appendJsonString (lit module.state),
    [closeBrace]]

def nativeInjectionText (injection : NativeInjection) : Text := List.flatten
  [[openBrace], key "pid", decimal injection.pid,
    [comma], key "process", appendJsonString injection.process,
    [comma], key "module", appendJsonString injection.moduleId,
    [comma], key "target_type", appendJsonString (lit (targetTypeName injection.targetType)),
    [comma], key "target", appendJsonString injection.target,
    [comma], key "abi", appendJsonString (lit (abiName injection.abi)),
    [comma], key "companion", boolText injection.hasCompanion,
    [comma], key "state", appendJsonString (lit injection.state),
    [closeBrace]]

/-- The zygote that safe mode is shown for. -/
def shownZygote (snapshot : RuntimeSnapshot) : Text :=
  if snapshot.safeModeZygote = [] then lit "zygote" else snapshot.safeModeZygote

/-- The document that `query_status` writes, piece by piece. -/
def statusText (c : StatusContents) : Text := List.flatten
  [[openBrace], key "kernel_alive", lit "true",
    [comma], key "abi", appendJsonString (lit (snapshotAbi c.runtime)),
    [comma], key "generation", decimal c.runtime.generation,
    [comma], key "root_impl", appendJsonString (lit (rootImplName c.rootStatus)),
    [comma], key "root_mask", decimal c.rootStatus.mask.toNat,
    [comma], key "ksu_redirect", boolText (c.rootStatus.has ksuRedirect),
    [comma], key "root_policy_source", appendJsonString (lit (rootPolicyName c.rootStatus)),
    [comma], key "root_policy_cache_ready", boolText (c.rootStatus.has policyCacheReady),
    [comma], key "count", decimal (injectedBaseCount c.runtime),
    [comma], key "safe_mode", boolText c.runtime.safeMode,
    [comma], key "zygote_crashes", decimal c.runtime.zygoteCrashes,
    [comma], key "safe_mode_zygote", appendJsonString (shownZygote c.runtime),
    [comma], key "yukilinker", boolText (c.config.yukilinker ≠ 0),
    [comma], key "denylist_mode", decimal c.config.denylistMode,
    [comma], key "dmesg_log", boolText (c.config.dmesgLog ≠ 0),
    [comma], key "recent", [openBracket, closeBracket],
    [comma], key "zygotes", [openBracket], appendZygotes c.runtime false, [closeBracket],
    [comma], key "zygote_monitor", [openBracket], appendZygotes c.runtime true, [closeBracket],
    [comma], key "modules", [openBracket], appendEach appendJsonString c.zygiskModules,
    [closeBracket],
    [comma], key "native_modules", [openBracket], appendEach nativeModuleText c.nativeModules,
    [closeBracket],
    [comma], key "native_injections", [openBracket],
    appendEach nativeInjectionText c.nativeInjections, [closeBracket],
    [closeBrace]]

/-- `query_status`: nothing is written when the kernel does not answer one of the two requests. -/
def queryStatus (runtime : Option RuntimeSnapshot) (rootStatus : Option RootStatus)
    (config : YzConfig) (zygiskModules : List Text) (definitions : List NativeDefinition) :
    Option Text :=
  match runtime, rootStatus with
  | some runtime, some rootStatus =>
    let injections := buildNativeInjections ⟨runtime.records, runtime.generation⟩ definitions
    some (statusText ⟨runtime, rootStatus, config, zygiskModules,
      buildNativeModuleViews definitions injections, injections⟩)
  | _, _ => none

/-! ## 3. The contents as a value -/

def stringValue (s : String) : Value := .string (lit s)

def numberValue (n : ℕ) : Value := .number (decimal n)

/-- A zygote that is shown, with its state. -/
def shownZygotes (snapshot : RuntimeSnapshot) (monitor : Bool) : List (Record × String) :=
  snapshot.records.filterMap fun record =>
    if record.kind ≠ .zygote then none
    else (runtimeStateName record.state).bind fun state =>
      if !monitor && record.state ≠ .injected then none else some (record, state)

def zygoteValue (monitor : Bool) (z : Record × String) : Value := .object <|
  [(lit "pid", numberValue z.1.pid), (lit "name", .string z.1.target),
    (lit "target", .string z.1.target), (lit "abi", stringValue (abiName z.1.abi))] ++
  if monitor then [(lit "state", stringValue z.2)] else []

def zygotesValue (snapshot : RuntimeSnapshot) (monitor : Bool) : Value :=
  .array ((shownZygotes snapshot monitor).map (zygoteValue monitor))

def nativeModuleValue (module : NativeModuleView) : Value := .object
  [(lit "id", .string module.moduleId),
    (lit "target_type", stringValue (targetTypeName module.targetType)),
    (lit "target", .string module.target), (lit "companion", .bool module.hasCompanion),
    (lit "state", stringValue module.state)]

def nativeInjectionValue (injection : NativeInjection) : Value := .object
  [(lit "pid", numberValue injection.pid), (lit "process", .string injection.process),
    (lit "module", .string injection.moduleId),
    (lit "target_type", stringValue (targetTypeName injection.targetType)),
    (lit "target", .string injection.target), (lit "abi", stringValue (abiName injection.abi)),
    (lit "companion", .bool injection.hasCompanion), (lit "state", stringValue injection.state)]

/-- What a reader should get of the document. -/
def statusValue (c : StatusContents) : Value := .object
  [(lit "kernel_alive", .bool true), (lit "abi", stringValue (snapshotAbi c.runtime)),
    (lit "generation", numberValue c.runtime.generation),
    (lit "root_impl", stringValue (rootImplName c.rootStatus)),
    (lit "root_mask", numberValue c.rootStatus.mask.toNat),
    (lit "ksu_redirect", .bool (c.rootStatus.has ksuRedirect)),
    (lit "root_policy_source", stringValue (rootPolicyName c.rootStatus)),
    (lit "root_policy_cache_ready", .bool (c.rootStatus.has policyCacheReady)),
    (lit "count", numberValue (injectedBaseCount c.runtime)),
    (lit "safe_mode", .bool c.runtime.safeMode),
    (lit "zygote_crashes", numberValue c.runtime.zygoteCrashes),
    (lit "safe_mode_zygote", .string (shownZygote c.runtime)),
    (lit "yukilinker", .bool (c.config.yukilinker ≠ 0)),
    (lit "denylist_mode", numberValue c.config.denylistMode),
    (lit "dmesg_log", .bool (c.config.dmesgLog ≠ 0)), (lit "recent", .array []),
    (lit "zygotes", zygotesValue c.runtime false),
    (lit "zygote_monitor", zygotesValue c.runtime true),
    (lit "modules", .array (c.zygiskModules.map .string)),
    (lit "native_modules", .array (c.nativeModules.map nativeModuleValue)),
    (lit "native_injections", .array (c.nativeInjections.map nativeInjectionValue))]

/-! ## 4. The leaves -/

/-- The four digits for a control byte. -/
theorem hexUnit_control : ∀ n : Fin 32, hexUnit 48 48
    (Json.hexDigit (UInt8.ofNat n / 16)) (Json.hexDigit (UInt8.ofNat n % 16)) = some n.val := by
  decide

theorem decode_plain {c : UInt8} (hquote : c ≠ quote) (hback : c ≠ backslash) (hc : ¬ c < 32)
    (t : Text) : decode (c :: t) = (decode t).map (c :: ·) := by
  rw [decode.eq_def]
  exact (if_neg hback).trans (if_neg (not_or.mpr ⟨hc, hquote⟩))

theorem decode_simple {e b : UInt8} (h : simpleEscape e = some b) (hu : e ≠ 117) (t : Text) :
    decode (backslash :: e :: t) = (decode t).map (b :: ·) := by
  rw [decode.eq_def]
  refine (if_pos rfl).trans ((if_neg hu).trans ?_)
  rw [h, Option.bind_some]

/-- **What is written for a byte is decoded to it.** -/
theorem decode_escapeByte (c : UInt8) (t : Text) :
    decode (Json.escapeByte c ++ t) = (decode t).map (c :: ·) := by
  rw [Json.escapeByte]
  split_ifs with hquote hback hb hf hn hr ht hcontrol
  · subst hquote
    exact decode_simple rfl (by decide) t
  · subst hback
    exact decode_simple rfl (by decide) t
  · subst hb
    exact decode_simple rfl (by decide) t
  · subst hf
    exact decode_simple rfl (by decide) t
  · subst hn
    exact decode_simple rfl (by decide) t
  · subst hr
    exact decode_simple rfl (by decide) t
  · subst ht
    exact decode_simple rfl (by decide) t
  · have hunit := hexUnit_control ⟨c.toNat, UInt8.lt_iff_toNat_lt.mp hcontrol⟩
    have hlt : c.toNat < 0x80 := Nat.lt_trans (UInt8.lt_iff_toNat_lt.mp hcontrol) (by decide)
    simp only [UInt8.ofNat_toNat] at hunit
    rw [decode.eq_def]
    refine (if_pos rfl).trans ((if_pos rfl).trans ?_)
    change (hexUnit 48 48 (Json.hexDigit (c / 16)) (Json.hexDigit (c % 16))).bind _ = _
    rw [hunit, Option.bind_some, utf8, if_pos hlt, UInt8.ofNat_toNat]
    rfl
  · exact decode_plain hquote hback hcontrol t

/-- `append_escaped` as a way to write strings. -/
def escape : Escape := ⟨Json.escapeByte, decode_escapeByte⟩

theorem digitChar_ok : ∀ k : Fin 10, isDigit (ch (Nat.digitChar k)) = true ∧
    (ch (Nat.digitChar k) = 48 → (k : ℕ) = 0) := by decide

/-- `std::to_string` gives digits, and no zero in front of others. -/
theorem decimal_form (n : ℕ) : ∃ d ds, decimal n = d :: ds ∧ (∀ c ∈ d :: ds, isDigit c = true) ∧
    (d = 48 → ds = []) ∧ (d = 48 → n = 0) := by
  induction n using Nat.strong_induction_on with
  | _ n ih =>
    by_cases hn : n < 10
    · have hdigit := digitChar_ok ⟨n, hn⟩
      refine ⟨ch (Nat.digitChar n), [], ?_, ?_, fun _ => rfl, hdigit.2⟩
      · rw [decimal, Nat.toDigits_of_lt_base hn]
        rfl
      · intro c hc
        rw [List.mem_singleton.mp hc]
        exact hdigit.1
    · have hdigit := digitChar_ok ⟨n % 10, Nat.mod_lt n (by decide)⟩
      obtain ⟨d, ds, hform, hdigits, -, hzero⟩ := ih (n / 10) (by omega)
      have hlead : d ≠ 48 := fun hd => by
        have := hzero hd
        omega
      refine ⟨d, ds ++ [ch (Nat.digitChar (n % 10))], ?_, ?_, fun hd => absurd hd hlead,
        fun hd => absurd hd hlead⟩
      · rw [decimal, Nat.toDigits_of_base_le (by decide) (Nat.le_of_not_lt hn), List.map_append]
        exact congrArg (· ++ [ch (Nat.digitChar (n % 10))]) hform
      · intro c hc
        rw [← List.cons_append] at hc
        rcases List.mem_append.mp hc with hold | hnew
        · exact hdigits c hold
        · rw [List.mem_singleton.mp hnew]
          exact hdigit.1

/-- A decimal number is a number. -/
theorem isNumber_decimal (n : ℕ) : isNumber (decimal n) = true := by
  obtain ⟨d, ds, hform, hdigits, hlead, -⟩ := decimal_form n
  have hbytes : (d :: ds).all isNumberByte = true := List.all_eq_true.mpr fun c hc => by
    rw [isNumberByte, hdigits c hc]
    rfl
  have hd : isDigit d = true := hdigits d List.mem_cons_self
  have hsign : (d :: ds).head? ≠ some 45 := by
    intro h
    rw [List.head?_cons, Option.some.injEq] at h
    rw [h] at hd
    cases hd
  have hrest : (if d = 48 then ds else ds.dropWhile isDigit) = [] := by
    split_ifs with h
    · exact hlead h
    · exact List.dropWhile_eq_nil_iff.mpr fun c hc => hdigits c (List.mem_cons_of_mem d hc)
  rw [hform, isNumber, hbytes, if_neg hsign, isUnsigned, hd, hrest]
  rfl

/-! ## 5. The pieces -/

/-- A name without special characters is written as it is. -/
theorem member_lit {name : String} (h : escape.body (lit name) = lit name) (t : Text) :
    escape.member (lit name) t = key name ++ t := by
  rw [Escape.member, Escape.string, h, key]
  simp

/-- The escaping of strings is that of the writer. -/
theorem appendJsonString_eq (s : Text) : appendJsonString s = escape.string s := rfl

theorem boolText_eq (b : Bool) : boolText b = escape.render (.bool b) := by
  cases b <;> decide

/-- Commas between the elements. -/
theorem appendEach_eq {α : Type} (item : α → Text) (l : List α) :
    appendEach item l = separated (l.map item) := by
  cases l with
  | nil => rfl
  | cons x l =>
    have hlater : ∀ (k : ℕ) (l : List α), (l.zipIdx (k + 1)).flatMap (fun p =>
        (if p.2 ≠ 0 then [comma] else []) ++ item p.1) = (l.map item).flatMap (comma :: ·) := by
      intro k l
      induction l generalizing k with
      | nil => rfl
      | cons y l ih =>
        rw [List.zipIdx_cons, List.flatMap_cons, ih (k + 1), List.map_cons, List.flatMap_cons,
          if_pos (Nat.succ_ne_zero k)]
        rfl
    rw [appendEach, List.zipIdx_cons, List.flatMap_cons, hlater, List.map_cons, separated_cons]
    rfl

/-- The loop of `append_zygotes` shows a record, or goes on as if it were not there. -/
theorem appendZygote_eq (monitor : Bool) (s : Text × Bool) (record : Record) :
    appendZygote monitor s record =
      match (if record.kind ≠ .zygote then none
        else (runtimeStateName record.state).bind fun state =>
          if !monitor && record.state ≠ .injected then none else some (record, state)) with
      | none => s
      | some z =>
        (s.1 ++ ((if s.2 then [] else [comma]) ++ zygoteText monitor z.1 z.2), false) := by
  rw [appendZygote]
  by_cases hkind : record.kind ≠ .zygote
  · rw [if_pos hkind, if_pos hkind]
  · rw [if_neg hkind, if_neg hkind]
    cases runtimeStateName record.state with
    | none => rfl
    | some state =>
      rw [Option.bind_some]
      by_cases hshown : (!monitor && record.state ≠ .injected) = true
      · simp only [if_pos hshown]
      · simp only [if_neg hshown]

/-- The loop, when something was appended before. -/
theorem appendZygotes_later (monitor : Bool) (records : List Record) (out : Text) :
    (records.foldl (appendZygote monitor) (out, false)).1 =
      out ++ ((shownZygotes ⟨0, false, 0, [], records⟩ monitor).map
        fun z => zygoteText monitor z.1 z.2).flatMap (comma :: ·) := by
  induction records generalizing out with
  | nil => exact (List.append_nil out).symm
  | cons record records ih =>
    rw [List.foldl_cons, appendZygote_eq]
    rw [shownZygotes, List.filterMap_cons]
    cases (if record.kind ≠ .zygote then none
      else (runtimeStateName record.state).bind fun state =>
        if !monitor && record.state ≠ .injected then none else some (record, state)) with
    | none => exact ih out
    | some z =>
      refine (ih _).trans ?_
      rw [List.map_cons, List.flatMap_cons, List.append_assoc]
      rfl

theorem appendZygotes_eq (snapshot : RuntimeSnapshot) (monitor : Bool) :
    appendZygotes snapshot monitor = separated
      ((shownZygotes snapshot monitor).map fun z => zygoteText monitor z.1 z.2) := by
  obtain ⟨generation, safeMode, zygoteCrashes, safeModeZygote, records⟩ := snapshot
  rw [appendZygotes]
  induction records with
  | nil => rfl
  | cons record records ih =>
    rw [List.foldl_cons, appendZygote_eq, shownZygotes, List.filterMap_cons]
    cases (if record.kind ≠ .zygote then none
      else (runtimeStateName record.state).bind fun state =>
        if !monitor && record.state ≠ .injected then none else some (record, state)) with
    | none => exact ih
    | some z =>
      refine (appendZygotes_later monitor records _).trans ?_
      rw [List.map_cons, separated_cons]
      rfl

/-! ## 6. The document is the text of the contents -/

theorem nativeModuleText_eq (module : NativeModuleView) :
    nativeModuleText module = escape.render (nativeModuleValue module) := by
  simp (disch := decide) only [nativeModuleText, nativeModuleValue, render_object, render_string,
    Escape.renderMembers, separated, member_lit, appendJsonString_eq, boolText_eq, stringValue,
    List.flatten_cons, List.flatten_nil, List.append_assoc, List.cons_append, List.nil_append]

theorem nativeInjectionText_eq (injection : NativeInjection) :
    nativeInjectionText injection = escape.render (nativeInjectionValue injection) := by
  simp (disch := decide) only [nativeInjectionText, nativeInjectionValue, render_object,
    render_string, render_number, Escape.renderMembers, separated, member_lit,
    appendJsonString_eq, boolText_eq, stringValue, numberValue, List.flatten_cons,
    List.flatten_nil, List.append_assoc, List.cons_append, List.nil_append]

theorem zygoteText_eq (monitor : Bool) (z : Record × String) :
    zygoteText monitor z.1 z.2 = escape.render (zygoteValue monitor z) := by
  cases monitor with
  | false =>
    simp (disch := decide) only [zygoteText, zygoteValue, render_object, render_string,
      render_number, Escape.renderMembers, separated, member_lit, appendJsonString_eq,
      stringValue, numberValue, Bool.false_eq_true, if_false, List.flatten_cons,
      List.flatten_nil, List.append_assoc, List.cons_append, List.nil_append, List.append_nil]
  | true =>
    simp (disch := decide) only [zygoteText, zygoteValue, render_object, render_string,
      render_number, Escape.renderMembers, separated, member_lit, appendJsonString_eq,
      stringValue, numberValue, if_true, List.flatten_cons, List.flatten_nil,
      List.append_assoc, List.cons_append, List.nil_append]

/-- An array that a loop writes. -/
theorem appendEach_render {α : Type} {item : α → Text} {value : α → Value}
    (h : ∀ x, item x = escape.render (value x)) (l : List α) (rest : Text) :
    openBracket :: (appendEach item l ++ closeBracket :: rest) =
      escape.render (.array (l.map value)) ++ rest := by
  have hitems : l.map item = escape.renderElements (l.map value) := by
    rw [renderElements_eq, List.map_map]
    exact List.map_congr_left fun x _ => h x
  rw [appendEach_eq, render_array, hitems, List.cons_append, List.append_assoc]
  rfl

theorem appendZygotes_render (snapshot : RuntimeSnapshot) (monitor : Bool) (rest : Text) :
    openBracket :: (appendZygotes snapshot monitor ++ closeBracket :: rest) =
      escape.render (zygotesValue snapshot monitor) ++ rest := by
  have hitems : (shownZygotes snapshot monitor).map (fun z => zygoteText monitor z.1 z.2) =
      escape.renderElements ((shownZygotes snapshot monitor).map (zygoteValue monitor)) := by
    rw [renderElements_eq, List.map_map]
    exact List.map_congr_left fun z _ => zygoteText_eq monitor z
  rw [appendZygotes_eq, zygotesValue, render_array, hitems, List.cons_append, List.append_assoc]
  rfl

theorem string_render (s : Text) : appendJsonString s = escape.render (.string s) := rfl

theorem emptyArray_render (rest : Text) :
    openBracket :: closeBracket :: rest = escape.render (.array []) ++ rest := rfl

theorem lit_true : lit "true" = escape.render (.bool true) := by decide

/-- **The document is the text of its contents.** -/
theorem statusText_eq (c : StatusContents) : statusText c = escape.render (statusValue c) := by
  have hmodules := appendEach_render string_render c.zygiskModules
  have hnative := appendEach_render nativeModuleText_eq c.nativeModules
  have hinjections := appendEach_render nativeInjectionText_eq c.nativeInjections
  simp (disch := decide) only [statusText, statusValue, render_object, Escape.renderMembers,
    separated, member_lit, render_string, render_number, appendJsonString_eq, boolText_eq,
    lit_true, stringValue, numberValue, List.flatten_cons, List.flatten_nil, List.append_assoc,
    List.cons_append, List.nil_append, emptyArray_render, appendZygotes_render, hmodules, hnative,
    hinjections]

/-! ## 7. The contents are read back -/

theorem numeric_number (n : ℕ) : (numberValue n).Numeric := isNumber_decimal n

theorem numeric_array {α : Type} {value : α → Value} (h : ∀ x, (value x).Numeric) (l : List α) :
    (Value.array (l.map value)).Numeric := by
  refine (numericElements_iff _).mpr ?_
  intro v hv
  obtain ⟨x, -, rfl⟩ := List.mem_map.mp hv
  exact h x

theorem numeric_zygote (monitor : Bool) (z : Record × String) :
    (zygoteValue monitor z).Numeric := by
  cases monitor with
  | false => exact ⟨numeric_number _, trivial, trivial, trivial, trivial⟩
  | true => exact ⟨numeric_number _, trivial, trivial, trivial, trivial, trivial⟩

theorem numeric_injection (injection : NativeInjection) :
    (nativeInjectionValue injection).Numeric :=
  ⟨numeric_number _, trivial, trivial, trivial, trivial, trivial, trivial, trivial, trivial⟩

theorem numeric_status (c : StatusContents) : (statusValue c).Numeric := by
  have hstring : ∀ s : Text, (Value.string s).Numeric := fun _ => trivial
  have hmodule : ∀ m, (nativeModuleValue m).Numeric := fun _ =>
    ⟨trivial, trivial, trivial, trivial, trivial, trivial⟩
  exact ⟨trivial, trivial, numeric_number _, trivial, numeric_number _, trivial, trivial, trivial,
    numeric_number _, trivial, numeric_number _, trivial, trivial, numeric_number _, trivial,
    trivial, numeric_array (numeric_zygote false) _, numeric_array (numeric_zygote true) _,
    numeric_array hstring _, numeric_array hmodule _, numeric_array numeric_injection _, trivial⟩

/-- **The status document is one JSON text, and its value is the contents**, whatever they are. -/
theorem statusText_exact (c : StatusContents) :
    JsonText (statusValue c) (statusText c) ∧ read (statusText c) = some (statusValue c) := by
  have h := jsonText_render escape (numeric_status c)
  rw [← statusText_eq] at h
  exact ⟨h, read_of_jsonText h⟩

/-- Every document that the tool writes is such a text. -/
theorem queryStatus_contents {runtime : Option RuntimeSnapshot} {rootStatus : Option RootStatus}
    {config : YzConfig} {zygiskModules : List Text} {definitions : List NativeDefinition}
    {t : Text} (h : queryStatus runtime rootStatus config zygiskModules definitions = some t) :
    ∃ c, t = statusText c ∧ c.config = config ∧ c.zygiskModules = zygiskModules := by
  cases runtime with
  | none => cases h
  | some runtime =>
    cases rootStatus with
    | none => cases h
    | some rootStatus =>
      exact ⟨_, (Option.some.inj h).symm, rfl, rfl⟩

end YukiZygisk.StatusText
