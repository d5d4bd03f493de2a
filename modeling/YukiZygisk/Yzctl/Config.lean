/-
# The two readers of the configuration

The daemon (`read_yzconfig`) and the status tool (`read_config`) read the same file with the same
parser.  They differ in three places: the daemon has no handler for the exceptions of the parser,
it takes a switch that holds no boolean for one that is off, and it asks whether a member is there
where the tool asks for its type.

For `denylist_mode` and `dmesg_log` the difference shows in nothing, as what is off is the default.
`yukilinker` is on by default: **the readers agree exactly on the texts that the parser reads and
in which that member is missing or boolean** (`agree_iff`).

Both readers are three assignments to a default, one for each member, and the members do not
interfere (`yukilinker_withMode`, `dmesgLog_withMode` and so on), so the readers are compared member
by member.  The mode is a number in both (`mode_agrees`); a mode that is none of the three leaves
the default.  The switch of the kernel log is off in both when it is no boolean (`log_agrees`).  For
the linker the tool keeps the default, which is on, and the daemon reads what it finds as a boolean,
which is off for anything that is none (`switch_agrees_iff`).  Before any of that the parser must
return (`Common/JsonReader.lean`), and it must not throw, as only the tool handles that.
-/
import YukiZygisk.Common.JsonReader

namespace YukiZygisk.Config

open YukiZygisk.Json

/-! ## 1. The readers -/

/-- `struct yz_config`. -/
structure YzConfig where
  yukilinker : ℕ
  denylistMode : ℕ
  dmesgLog : ℕ
  reserved : ℕ
  deriving DecidableEq

/-- `yz_config{1, 0, 0, 0}`. -/
def defaultConfig : YzConfig := ⟨1, 0, 0, 0⟩

def text (s : List Char) : Text := s.map ch

/-- The member names. -/
def yukilinkerKey : Text := text ['y', 'u', 'k', 'i', 'l', 'i', 'n', 'k', 'e', 'r']

def denylistModeKey : Text :=
  text ['d', 'e', 'n', 'y', 'l', 'i', 's', 't', '_', 'm', 'o', 'd', 'e']

def dmesgLogKey : Text := text ['d', 'm', 'e', 's', 'g', '_', 'l', 'o', 'g']

/-- The mode that a number sets, if it is one of the three. -/
def setMode (mode : Double) (cfg : YzConfig) : YzConfig :=
  if mode.toRat = 0 ∨ mode.toRat = 1 ∨ mode.toRat = 2 then
    { cfg with denylistMode := ⌊mode.toRat⌋₊ }
  else cfg

/-- `bool ? 1 : 0`. -/
def flag (b : Bool) : ℕ := if b then 1 else 0

/-- What `read_yzconfig` makes of the value in the file. -/
def daemonConfig (root : Value) : YzConfig :=
  match root with
  | .object _ =>
    let cfg := defaultConfig
    let cfg := if root.contains yukilinkerKey then
      { cfg with yukilinker := flag (root.at yukilinkerKey).asBool } else cfg
    let cfg := if root.contains denylistModeKey then
      setMode (root.at denylistModeKey).asNumber cfg else cfg
    if root.contains dmesgLogKey then
      { cfg with dmesgLog := flag (root.at dmesgLogKey).asBool } else cfg
  | _ => defaultConfig

/-- What `read_config` makes of the value in the file. -/
def statusConfig (root : Value) : YzConfig :=
  match root with
  | .object _ =>
    let cfg := defaultConfig
    let cfg := match root.at yukilinkerKey with
      | .bool b => { cfg with yukilinker := flag b }
      | _ => cfg
    let cfg := match root.at denylistModeKey with
      | .number n => setMode n cfg
      | _ => cfg
    match root.at dmesgLogKey with
      | .bool b => { cfg with dmesgLog := flag b }
      | _ => cfg
  | _ => defaultConfig

/-- `read_yzconfig` on the file's bytes, if it can be opened: an exception of the parser leaves
it. -/
def readYzconfig (reportsTiny : ℚ → Bool) (file : Option Text) (fuel : ℕ) :
    Option (Except StodError YzConfig) :=
  match file with
  | none => some (.ok defaultConfig)
  | some buf => (parse reportsTiny buf fuel).map fun r => r.map daemonConfig

/-- `read_config` on the file's bytes: an exception of the parser gives the default. -/
def readConfig (reportsTiny : ℚ → Bool) (file : Option Text) (fuel : ℕ) : Option YzConfig :=
  match file with
  | none => some defaultConfig
  | some contents =>
    (parse reportsTiny contents fuel).map fun r =>
      match r with
      | .ok root => statusConfig root
      | .error _ => defaultConfig

/-! ## 2. Where they agree -/

variable {reportsTiny : ℚ → Bool} {buf : Text} {root : Value}

/-- Both readers end with no exception and with one configuration. -/
def Agree (reportsTiny : ℚ → Bool) (file : Option Text) : Prop :=
  ∃ cfg, (∃ fuel, readYzconfig reportsTiny file fuel = some (.ok cfg)) ∧
    ∃ fuel, readConfig reportsTiny file fuel = some cfg

/-- The switch of the linker is missing or holds a boolean. -/
def SwitchBoolean (root : Value) : Prop :=
  root.contains yukilinkerKey = true → ∃ b, root.at yukilinkerKey = .bool b

/-- What is missing is read as null. -/
theorem at_of_not_contains {key : Text} (h : ¬ root.contains key = true) : root.at key = .null := by
  cases root with
  | object o =>
    have hfind : OrderedMap.find key o = none := by simpa [Value.contains] using h
    rw [Value.at, hfind]
    rfl
  | _ => rfl

/-- A mode that is no number is the default one. -/
theorem setMode_zero {cfg : YzConfig} (h : cfg.denylistMode = 0) :
    setMode ⟨false, 0⟩ cfg = cfg := by
  have hzero : (⟨false, 0⟩ : Double).toRat = 0 := rfl
  rw [setMode, hzero, if_pos (.inl rfl), Nat.floor_zero, ← h]

/-- What `read_config` does with the mode. -/
def withMode (root : Value) (cfg : YzConfig) : YzConfig :=
  match root.at denylistModeKey with
  | .number n => setMode n cfg
  | _ => cfg

/-- What `read_config` does with the switch of the kernel log. -/
def withLog (root : Value) (cfg : YzConfig) : YzConfig :=
  match root.at dmesgLogKey with
  | .bool b => { cfg with dmesgLog := flag b }
  | _ => cfg

/-- What `read_config` does with the switch of the linker. -/
def withSwitch (root : Value) (cfg : YzConfig) : YzConfig :=
  match root.at yukilinkerKey with
  | .bool b => { cfg with yukilinker := flag b }
  | _ => cfg

/-- The daemon reads the mode as the tool does. -/
theorem mode_agrees {cfg : YzConfig} (h : cfg.denylistMode = 0) :
    (if root.contains denylistModeKey then setMode (root.at denylistModeKey).asNumber cfg
      else cfg) = withMode root cfg := by
  rw [withMode]
  split_ifs with hin
  · cases root.at denylistModeKey with
    | number n => rfl
    | _ => exact setMode_zero h
  · rw [at_of_not_contains hin]

/-- The daemon reads the switch of the kernel log as the tool does. -/
theorem log_agrees {cfg : YzConfig} (h : cfg.dmesgLog = 0) :
    (if root.contains dmesgLogKey then
      { cfg with dmesgLog := flag (root.at dmesgLogKey).asBool } else cfg) = withLog root cfg := by
  have hoff : ({ cfg with dmesgLog := flag false } : YzConfig) = cfg := by
    rw [flag, if_neg Bool.false_ne_true, ← h]
  rw [withLog]
  split_ifs with hin
  · cases root.at dmesgLogKey with
    | bool b => rfl
    | _ => exact hoff
  · rw [at_of_not_contains hin]

/-- The switch of the linker as the daemon reads it. -/
def daemonSwitch (root : Value) : YzConfig :=
  if root.contains yukilinkerKey then
    { defaultConfig with yukilinker := flag (root.at yukilinkerKey).asBool } else defaultConfig

/-- The switch of the linker, in both readers. -/
theorem switch_agrees_iff :
    (daemonSwitch root).yukilinker = (withSwitch root defaultConfig).yukilinker ↔
      SwitchBoolean root := by
  rw [daemonSwitch, withSwitch, SwitchBoolean]
  split_ifs with hin
  · cases hat : root.at yukilinkerKey with
    | bool b => simp [Value.asBool]
    | _ => simp [Value.asBool, flag, defaultConfig, hin]
  · rw [at_of_not_contains hin]
    simp [hin]

theorem yukilinker_setMode (n : Double) (cfg : YzConfig) :
    (setMode n cfg).yukilinker = cfg.yukilinker := by
  rw [setMode]
  split_ifs <;> rfl

theorem yukilinker_withMode (cfg : YzConfig) :
    (withMode root cfg).yukilinker = cfg.yukilinker := by
  rw [withMode]
  split
  · exact yukilinker_setMode _ _
  · rfl

theorem yukilinker_withLog (cfg : YzConfig) : (withLog root cfg).yukilinker = cfg.yukilinker := by
  rw [withLog]
  split <;> rfl

theorem dmesgLog_withMode (cfg : YzConfig) : (withMode root cfg).dmesgLog = cfg.dmesgLog := by
  rw [withMode]
  split
  · rw [setMode]
    split_ifs <;> rfl
  · rfl

theorem daemonSwitch_rest (root : Value) :
    daemonSwitch root = { defaultConfig with yukilinker := (daemonSwitch root).yukilinker } := by
  rw [daemonSwitch]
  split_ifs <;> rfl

theorem withSwitch_rest (root : Value) : withSwitch root defaultConfig =
    { defaultConfig with yukilinker := (withSwitch root defaultConfig).yukilinker } := by
  rw [withSwitch]
  split <;> rfl

/-- **The two readers make the same of a value exactly when the switch of the linker is missing or
boolean.** -/
theorem daemonConfig_eq_iff (root : Value) :
    daemonConfig root = statusConfig root ↔ SwitchBoolean root := by
  cases root with
  | object o =>
    generalize hroot : Value.object o = root
    have hdaemon : daemonConfig root = withLog root (withMode root (daemonSwitch root)) := by
      have hmode : (daemonSwitch root).denylistMode = 0 := by rw [daemonSwitch_rest]; rfl
      have hlog : (withMode root (daemonSwitch root)).dmesgLog = 0 := by
        rw [dmesgLog_withMode, daemonSwitch_rest]
        rfl
      rw [← log_agrees hlog, ← mode_agrees hmode, ← hroot]
      rfl
    have hstatus :
        statusConfig root = withLog root (withMode root (withSwitch root defaultConfig)) := by
      rw [← hroot]
      rfl
    rw [hdaemon, hstatus, ← switch_agrees_iff]
    constructor
    · intro h
      have hfield := congrArg YzConfig.yukilinker h
      rwa [yukilinker_withLog, yukilinker_withLog, yukilinker_withMode, yukilinker_withMode]
        at hfield
    · intro h
      rw [daemonSwitch_rest, withSwitch_rest, h]
  | _ => exact ⟨nofun, fun _ => rfl⟩

/-- The file is missing, or it is read with no hang and no exception and its switch of the linker
is missing or boolean. -/
def ReadAlike (reportsTiny : ℚ → Bool) : Option Text → Prop
  | none => True
  | some buf => scan reportsTiny buf = .readable ∧
      ∀ fuel root, parse reportsTiny buf fuel = some (.ok root) → SwitchBoolean root

/-- **The readers end with no exception and with one configuration exactly on the files that are
read alike.** -/
theorem agree_iff (reportsTiny : ℚ → Bool) (file : Option Text) :
    Agree reportsTiny file ↔ ReadAlike reportsTiny file := by
  cases file with
  | none => exact ⟨fun _ => trivial, fun _ => ⟨defaultConfig, ⟨0, rfl⟩, 0, rfl⟩⟩
  | some buf =>
    constructor
    · rintro ⟨cfg, ⟨fuel, hdaemon⟩, fuel', hstatus⟩
      obtain ⟨r, hr, hcfg⟩ := Option.map_eq_some_iff.mp hdaemon
      obtain ⟨r', hr', hcfg'⟩ := Option.map_eq_some_iff.mp hstatus
      obtain rfl := (parse_steady reportsTiny buf).unique hr hr'
      rcases r with e | root
      · cases hcfg
      refine ⟨scan_of_parse hr, ?_⟩
      intro fuel'' root' hroot'
      obtain rfl := Except.ok.inj ((parse_steady reportsTiny buf).unique hr hroot')
      exact (daemonConfig_eq_iff root).mp ((Except.ok.inj hcfg).trans hcfg'.symm)
    · rintro ⟨hscan, hswitch⟩
      obtain ⟨fuel, r, hr⟩ := returns_of_scan (by rw [hscan]; decide)
      have hfound := scan_of_parse hr
      rw [hscan] at hfound
      rcases r with e | root
      · cases hfound
      refine ⟨statusConfig root, ⟨fuel, ?_⟩, fuel, ?_⟩
      · rw [readYzconfig, hr, ← (daemonConfig_eq_iff root).mpr (hswitch fuel root hr)]
        rfl
      · rw [readConfig, hr]
        rfl

/-- The text of an object whose switch of the linker is null. -/
def nullSwitch : Text :=
  [openBrace, quote] ++ yukilinkerKey ++ [quote, colon] ++ text ['n', 'u', 'l', 'l'] ++ [closeBrace]

/-- The daemon takes a switch that is null for one that is off, the tool for one that is not
there. -/
theorem not_agree : ¬ ∀ reportsTiny file, Agree reportsTiny file := by
  intro h
  obtain ⟨cfg, ⟨fuel, hdaemon⟩, fuel', hstatus⟩ := h (fun _ => false) (some nullSwitch)
  obtain ⟨r, hr, hcfg⟩ := Option.map_eq_some_iff.mp hdaemon
  obtain ⟨r', hr', hcfg'⟩ := Option.map_eq_some_iff.mp hstatus
  have hparse : parse (fun _ => false) nullSwitch 3 =
      some (.ok (.object [(yukilinkerKey, .null)])) := rfl
  obtain rfl := (parse_steady _ _).unique hparse hr
  obtain rfl := (parse_steady _ _).unique hparse hr'
  have hsame : daemonConfig (.object [(yukilinkerKey, .null)]) =
      statusConfig (.object [(yukilinkerKey, .null)]) := (Except.ok.inj hcfg).trans hcfg'.symm
  exact absurd hsame (by decide)

end YukiZygisk.Config
