/-
# The targets that are published to the kernel (`publish_native_targets`)

The daemon gives the kernel the targets of its native modules, each once, so that the probe can
tell which processes are to be injected when they are executed; which modules a process then loads
is decided by the core (`target_matches`).  The list has room for 64 targets of 255 bytes, which is
what a line of a module's manifest may have.

**The kernel matches a file exactly when the core would load some module for it**, as long as the
modules have at most 64 targets (`publication_exact`): a target that is left out is there already,
and one that the kernel does not take matches nothing.

Between the text of a manifest and the kernel's test there are two arrays and a comparison of
strings, so the result goes by what a target stands for: its type and the string that its bytes
begin with (`key`).  Writing a string into an array that has room for it and reading it back gives
the string (`cStr_snprintf`), the test for a duplicate compares keys (`duplicate_iff`), the loop
puts every key into the command as long as there are at most as many as it has room for
(`key_mem_publishLoop`), and the kernel keeps the targets whose key has a known type and a string
that is not empty (`keepTarget_published`, `string_of_keepTarget`).  Both tests, the kernel's and
the core's, are tests of the key.
-/
import YukiZygisk.Daemon.NativeClients

namespace YukiZygisk.Daemon

open Native (nativeTargetName nativeTargetPath nativeTargetValueMax cString zpBasename zpCopyName)

/-! ## 1. The targets of a manifest -/

/-- `kNamePrefix` and `kPathPrefix`: `name=` and `path=`. -/
def nameHead : List UInt8 := [110, 97, 109, 101, 61]
def pathHead : List UInt8 := [112, 97, 116, 104, 61]

/-- The target in the first token of a manifest line, in `parse_native_module_line`. -/
def parseTarget (head : List UInt8) : Option (UInt8 × List UInt8) :=
  let target := head.drop nameHead.length
  if nameHead.isPrefixOf head ∨ pathHead.isPrefixOf head then
    if target = [] ∨ target.length ≥ nativeTargetValueMax then none
    else if nameHead.isPrefixOf head then some (nativeTargetName, target)
    else some (nativeTargetPath, target)
  else none

/-- The target of the module is one that a manifest line may have. -/
def Parsed (m : NativeModule) : Prop := ∃ head, parseTarget head = some (m.targetType, m.target)

/-! ## 2. Publishing -/

/-- `YZ_NATIVE_TARGET_MAX`. -/
def nativeTargetMax : Nat := 64

/-- `struct yz_native_target`, with the bytes of its array. -/
structure YzNativeTarget where
  type : UInt8
  value : List UInt8
  deriving DecidableEq

/-- `struct yz_native_targets_cmd`. -/
structure YzNativeTargetsCmd where
  count : Nat
  targets : List YzNativeTarget

/-- The string that bytes begin with. -/
def cStr (bytes : List UInt8) : List UInt8 := bytes.takeWhile (· ≠ 0)

/-- `strcmp` is zero. -/
def strcmp (a b : List UInt8) : Bool := cStr a = cStr b

/-- `snprintf(value, sizeof(value), "%s", text)` into an array of zeros. -/
def snprintf (size : Nat) (text : List UInt8) : List UInt8 :=
  let written := (cStr text).take (size - 1)
  written ++ List.replicate (size - written.length) 0

/-- The loop of `publish_native_targets`, with the targets that it has put into the command. -/
def publishLoop : List NativeModule → List YzNativeTarget → List YzNativeTarget
  | [], targets => targets
  | m :: modules, targets =>
    if targets.length ≥ nativeTargetMax then targets
    else if targets.any fun t => t.type = m.targetType && strcmp t.value m.target then
      publishLoop modules targets
    else publishLoop modules (targets ++ [⟨m.targetType, snprintf nativeTargetValueMax m.target⟩])

/-- The command of `publish_native_targets`: what is not used of its array is zero. -/
def publishNativeTargets (modules : List NativeModule) : YzNativeTargetsCmd :=
  let targets := publishLoop modules []
  let unused : YzNativeTarget := ⟨0, List.replicate nativeTargetValueMax 0⟩
  ⟨targets.length, targets ++ List.replicate (nativeTargetMax - targets.length) unused⟩

/-! ## 3. The kernel -/

/-- What `yz_zygote_probe_set_native_targets` keeps of a target. -/
def keepTarget (src : YzNativeTarget) : Option YzNativeTarget :=
  if src.type ≠ nativeTargetName ∧ src.type ≠ nativeTargetPath then none
  else if src.value.head? = some 0 then none
  else some ⟨src.type, src.value.take (nativeTargetValueMax - 1) ++ [0]⟩

/-- `yz_zygote_probe_set_native_targets`: the list of the kernel afterwards. -/
def zpSetNativeTargets (cmd : YzNativeTargetsCmd) : List YzNativeTarget :=
  (cmd.targets.take (min cmd.count nativeTargetMax)).filterMap keepTarget

/-- The test of `zp_match_live_native_target` on one target. -/
def liveMatches (filename : List UInt8) (t : YzNativeTarget) : Bool :=
  if t.type = nativeTargetName then strcmp (zpBasename filename) t.value
  else if t.type = nativeTargetPath then strcmp filename t.value
  else false

/-- `zp_match_live_native_target`: the type and the label of the first target that matches. -/
def zpMatchLiveNativeTarget (targets : List YzNativeTarget) (filename : List UInt8) :
    Option (UInt8 × List UInt8) :=
  (targets.find? (liveMatches filename)).map fun t =>
    (t.type, zpCopyName nativeTargetValueMax (cStr t.value))

/-- The answer of `Request::GetNativeModuleInfo` about a module. -/
def infoOf (m : NativeModule) : NativeModuleInfo :=
  ⟨m.targetType, m.hasCompanion, cString nativeModuleNameMax m.moduleId,
    cString nativeModuleTargetMax m.target, cString nativeModulePathMax m.libPath⟩

theorem getNativeModuleInfo_eq {d : Lists} {idx : Nat} {m : NativeModule}
    (h : d.nativeModules[idx]? = some m) : getNativeModuleInfo d idx = infoOf m := by
  rw [getNativeModuleInfo, h]
  rfl

/-! ## 4. What a target stands for -/

/-- A type and a string. -/
abbrev Key := UInt8 × List UInt8

def YzNativeTarget.key (t : YzNativeTarget) : Key := (t.type, cStr t.value)

def NativeModule.key (m : NativeModule) : Key := (m.targetType, cStr m.target)

/-- The file is of the target. -/
def KeyMatches (filename : List UInt8) (k : Key) : Prop :=
  k.2 ≠ [] ∧ (k.1 = nativeTargetName ∧ zpBasename filename = k.2 ∨
    k.1 = nativeTargetPath ∧ filename = k.2)

variable {modules : List NativeModule} {targets : List YzNativeTarget} {m : NativeModule}
  {t : YzNativeTarget} {k : Key} {filename s : List UInt8}

theorem cStr_eq_self (h : (0 : UInt8) ∉ s) : cStr s = s := by
  rw [cStr, List.takeWhile_eq_self_iff]
  intro c hc
  exact decide_eq_true fun hzero => h (hzero ▸ hc)

theorem not_mem_cStr (s : List UInt8) : (0 : UInt8) ∉ cStr s := by
  intro h
  have := List.mem_takeWhile_imp h
  simp at this

/-- A string that has room is read back from its array. -/
theorem cStr_snprintf {size : Nat} (h : (cStr s).length < size) :
    cStr (snprintf size s) = cStr s := by
  have htake : (cStr s).take (size - 1) = cStr s := List.take_of_length_le (by omega)
  obtain ⟨n, hn⟩ : ∃ n, size - (cStr s).length = n + 1 := ⟨size - (cStr s).length - 1, by omega⟩
  have hself : ∀ c ∈ cStr s, decide (c ≠ 0) = true := by
    intro c hc
    exact decide_eq_true fun hzero => not_mem_cStr s (hzero ▸ hc)
  rw [snprintf]
  simp only [htake, hn, List.replicate_succ]
  rw [cStr, List.takeWhile_append_of_pos hself]
  simp

theorem length_cStr_le (s : List UInt8) : (cStr s).length ≤ s.length :=
  (List.takeWhile_sublist _).length_le

theorem length_of_parsed (h : Parsed m) : m.target.length < nativeTargetValueMax := by
  obtain ⟨head, hhead⟩ := h
  rw [parseTarget] at hhead
  split_ifs at hhead with hforms hbad hname
  · rw [not_or] at hbad
    obtain ⟨-, htarget⟩ := Prod.mk.inj (Option.some.inj hhead)
    rw [← htarget]
    exact Nat.not_le.mp hbad.2
  · rw [not_or] at hbad
    obtain ⟨-, htarget⟩ := Prod.mk.inj (Option.some.inj hhead)
    rw [← htarget]
    exact Nat.not_le.mp hbad.2

/-- The core tests the string of a module's target. -/
theorem infoMatches_infoOf (h : Parsed m) :
    infoMatches (infoOf m) filename = true ↔ KeyMatches filename m.key := by
  have hlen := length_of_parsed h
  have htarget : cString nativeModuleTargetMax m.target = cStr m.target := by
    have htake : m.target.take (nativeModuleTargetMax - 1) = m.target :=
      List.take_of_length_le (by
        rw [nativeModuleTargetMax]
        rw [nativeTargetValueMax] at hlen
        omega)
    rw [cString, htake, cStr]
  rw [infoMatches, KeyMatches, NativeModule.key, infoOf]
  simp only [htarget]
  by_cases hempty : cStr m.target = []
  · simp [hempty]
  · rw [if_neg hempty]
    by_cases hname : m.targetType = nativeTargetName
    · have hpath : nativeTargetName ≠ nativeTargetPath := by decide
      simp [hname, hempty, hpath]
    · by_cases hpath : m.targetType = nativeTargetPath
      · have hne : nativeTargetPath ≠ nativeTargetName := by decide
        simp [hpath, hempty, hne]
      · simp [hname, hpath]

/-! ## 5. The command -/

/-- The test for a duplicate compares what the targets stand for. -/
theorem duplicate_iff : (t.type = m.targetType && strcmp t.value m.target) = true ↔
    t.key = m.key := by
  simp [YzNativeTarget.key, NativeModule.key, strcmp]

/-- A target as it is put into the command. -/
def NativeModule.published (m : NativeModule) : YzNativeTarget :=
  ⟨m.targetType, snprintf nativeTargetValueMax m.target⟩

theorem key_published (h : Parsed m) : m.published.key = m.key := by
  have hlen : (cStr m.target).length < nativeTargetValueMax :=
    (length_cStr_le _).trans_lt (length_of_parsed h)
  rw [YzNativeTarget.key, NativeModule.published, NativeModule.key, cStr_snprintf hlen]

/-- The targets of the command come from modules. -/
theorem of_mem_publishLoop (h : t ∈ publishLoop modules targets) :
    t ∈ targets ∨ ∃ m ∈ modules, t = m.published := by
  induction modules generalizing targets with
  | nil => exact .inl h
  | cons m modules ih =>
    rw [publishLoop] at h
    split_ifs at h with hfull hdup
    · exact .inl h
    · rcases ih h with h | ⟨m', hm', h⟩
      · exact .inl h
      · exact .inr ⟨m', List.mem_cons_of_mem m hm', h⟩
    · rcases ih h with h | ⟨m', hm', h⟩
      · rcases List.mem_append.mp h with h | h
        · exact .inl h
        · exact .inr ⟨m, List.mem_cons_self, List.mem_singleton.mp h⟩
      · exact .inr ⟨m', List.mem_cons_of_mem m hm', h⟩

theorem length_publishLoop (h : targets.length ≤ nativeTargetMax) :
    (publishLoop modules targets).length ≤ nativeTargetMax := by
  induction modules generalizing targets with
  | nil => exact h
  | cons m modules ih =>
    rw [publishLoop]
    split_ifs with hfull hdup
    · exact h
    · exact ih h
    · refine ih ?_
      rw [List.length_append, List.length_singleton]
      omega

/-- **Every target of a module is in the command**, if there are few enough. -/
theorem key_mem_publishLoop (hparsed : ∀ m ∈ modules, Parsed m)
    (hnodup : (targets.map YzNativeTarget.key).Nodup)
    (hfew : ((targets.map YzNativeTarget.key).toFinset ∪
      (modules.map NativeModule.key).toFinset).card ≤ nativeTargetMax) :
    (∀ t ∈ targets, t ∈ publishLoop modules targets) ∧
      ∀ m ∈ modules, ∃ t ∈ publishLoop modules targets, t.key = m.key := by
  induction modules generalizing targets with
  | nil => exact ⟨fun t ht => ht, fun m hm => absurd hm List.not_mem_nil⟩
  | cons m modules ih =>
    rw [List.forall_mem_cons] at hparsed
    have hcons : ((m :: modules).map NativeModule.key).toFinset =
        insert m.key (modules.map NativeModule.key).toFinset := by
      rw [List.map_cons, List.toFinset_cons]
    rw [publishLoop]
    by_cases hfull : targets.length ≥ nativeTargetMax
    · -- the array is full: then every target is there
      rw [if_pos hfull]
      have hcard : (targets.map YzNativeTarget.key).toFinset.card = targets.length := by
        rw [List.toFinset_card_of_nodup hnodup, List.length_map]
      have hsub : (targets.map YzNativeTarget.key).toFinset ⊆
          (targets.map YzNativeTarget.key).toFinset ∪
            ((m :: modules).map NativeModule.key).toFinset := Finset.subset_union_left
      have hall := Finset.eq_of_subset_of_card_le hsub (by omega)
      refine ⟨fun t ht => ht, ?_⟩
      intro m' hm'
      have hmem : m'.key ∈ (targets.map YzNativeTarget.key).toFinset := by
        rw [hall]
        exact Finset.mem_union_right _ (List.mem_toFinset.mpr (List.mem_map_of_mem hm'))
      obtain ⟨t, ht, hkey⟩ := List.mem_map.mp (List.mem_toFinset.mp hmem)
      exact ⟨t, ht, hkey⟩
    · rw [if_neg hfull]
      by_cases hdup : (targets.any fun t => t.type = m.targetType && strcmp t.value m.target) = true
      · rw [if_pos hdup]
        obtain ⟨t, ht, hsame⟩ := List.any_eq_true.mp hdup
        have hkey := duplicate_iff.mp hsame
        have hless : ((targets.map YzNativeTarget.key).toFinset ∪
            (modules.map NativeModule.key).toFinset).card ≤ nativeTargetMax := by
          refine (Finset.card_le_card (Finset.union_subset_union_right ?_)).trans hfew
          rw [hcons]
          exact Finset.subset_insert _ _
        obtain ⟨hold, hnew⟩ := ih hparsed.2 hnodup hless
        refine ⟨hold, List.forall_mem_cons.mpr ⟨⟨t, hold t ht, hkey⟩, hnew⟩⟩
      · rw [if_neg hdup]
        have hfresh : m.published.key ∉ targets.map YzNativeTarget.key := by
          intro hmem
          obtain ⟨t, ht, hkey⟩ := List.mem_map.mp hmem
          rw [key_published hparsed.1] at hkey
          exact hdup (List.any_eq_true.mpr ⟨t, ht, duplicate_iff.mpr hkey⟩)
        have hmap : (targets ++ [m.published]).map YzNativeTarget.key =
            targets.map YzNativeTarget.key ++ [m.published.key] := by
          rw [List.map_append, List.map_singleton]
        have hsame : ((targets ++ [m.published]).map YzNativeTarget.key).toFinset ∪
            (modules.map NativeModule.key).toFinset =
              (targets.map YzNativeTarget.key).toFinset ∪
                ((m :: modules).map NativeModule.key).toFinset := by
          rw [hmap, hcons, key_published hparsed.1]
          ext k
          simp only [Finset.mem_union, List.mem_toFinset, List.mem_append, List.mem_singleton,
            Finset.mem_insert]
          tauto
        have hnodup' : ((targets ++ [m.published]).map YzNativeTarget.key).Nodup := by
          rw [hmap, List.nodup_append]
          refine ⟨hnodup, List.nodup_singleton _, ?_⟩
          intro a ha b hb hab
          rw [List.mem_singleton.mp hb] at hab
          exact hfresh (hab ▸ ha)
        obtain ⟨hold, hnew⟩ := ih hparsed.2 hnodup' (by rw [hsame]; exact hfew)
        refine ⟨fun t ht => hold t (List.mem_append_left _ ht),
          List.forall_mem_cons.mpr ⟨⟨m.published, hold _ (by simp), key_published hparsed.1⟩, hnew⟩⟩

/-! ## 6. What the kernel matches -/

/-- A target of the command is kept with its string, or it has none. -/
theorem keepTarget_published (h : Parsed m) (htype : m.targetType = nativeTargetName ∨
    m.targetType = nativeTargetPath) (hne : cStr m.target ≠ []) :
    ∃ t, keepTarget m.published = some t ∧ t.key = m.key := by
  have hlen : (cStr m.target).length < nativeTargetValueMax :=
    (length_cStr_le _).trans_lt (length_of_parsed h)
  have hstring := cStr_snprintf hlen
  have hhead : ¬ m.published.value.head? = some 0 := by
    intro hzero
    obtain ⟨rest, hrest⟩ := List.head?_eq_some_iff.mp hzero
    have hempty : cStr (snprintf nativeTargetValueMax m.target) = [] := by
      have hvalue : snprintf nativeTargetValueMax m.target = 0 :: rest := hrest
      rw [hvalue]
      rfl
    exact hne (hstring ▸ hempty)
  have hkinds : ¬ (m.published.type ≠ nativeTargetName ∧ m.published.type ≠ nativeTargetPath) := by
    rw [not_and_or, not_not, not_not]
    exact htype
  refine ⟨_, by rw [keepTarget, if_neg hkinds, if_neg hhead], ?_⟩
  have hcut : cStr ((snprintf nativeTargetValueMax m.target).take (nativeTargetValueMax - 1)) =
      cStr m.target := by
    rw [cStr, ← List.take_takeWhile, ← cStr, hstring]
    exact List.take_of_length_le (by omega)
  have hclosed : ∀ l : List UInt8, cStr (l ++ [0]) = cStr l := by
    intro l
    rw [cStr, cStr, List.takeWhile_append]
    split_ifs with hall
    · rw [List.takeWhile_cons_of_neg (by decide), List.append_nil]
      exact ((List.takeWhile_prefix _).eq_of_length hall).symm
    · rfl
  exact Prod.ext rfl ((hclosed _).trans hcut)

/-- What is kept has a type that is known, and a string. -/
theorem of_keepTarget {src : YzNativeTarget} (h : keepTarget src = some t) :
    (src.type = nativeTargetName ∨ src.type = nativeTargetPath) ∧ src.value.head? ≠ some 0 := by
  rw [keepTarget] at h
  split_ifs at h with htype hhead
  refine ⟨?_, hhead⟩
  rwa [not_and_or, not_not, not_not] at htype

/-- A target without a string is not kept. -/
theorem string_of_keepTarget (h : keepTarget m.published = some t) : cStr m.target ≠ [] := by
  intro hempty
  refine (of_keepTarget h).2 ?_
  rw [NativeModule.published, snprintf]
  simp only [hempty, List.take_nil, List.nil_append, List.length_nil]
  rfl

theorem liveMatches_iff (hname : (0 : UInt8) ∉ filename) (hne : t.key.2 ≠ []) :
    liveMatches filename t = true ↔ KeyMatches filename t.key := by
  have hbase : (0 : UInt8) ∉ zpBasename filename := by
    intro h
    rw [zpBasename, List.mem_reverse] at h
    exact hname (List.mem_reverse.mp ((List.takeWhile_sublist _).subset h))
  rw [liveMatches, KeyMatches]
  simp only [YzNativeTarget.key, strcmp, cStr_eq_self hbase, cStr_eq_self hname] at hne ⊢
  by_cases htype : t.type = nativeTargetName
  · have hpath : nativeTargetName ≠ nativeTargetPath := by decide
    simp [htype, hne, hpath]
  · by_cases hpath : t.type = nativeTargetPath
    · have hother : nativeTargetPath ≠ nativeTargetName := by decide
      simp [hpath, hne, hother]
    · simp [htype, hpath]

/-- The kernel reads what the loop has put into the command. -/
theorem take_targets (modules : List NativeModule) :
    (publishNativeTargets modules).targets.take
        (min (publishNativeTargets modules).count nativeTargetMax) = publishLoop modules [] := by
  have hlen : (publishLoop modules []).length ≤ nativeTargetMax :=
    length_publishLoop (Nat.zero_le _)
  simp only [publishNativeTargets]
  rw [Nat.min_eq_left hlen, List.take_left]

/-- The pairs of type and target of the modules. -/
def targetPairs (modules : List NativeModule) : Finset (UInt8 × List UInt8) :=
  (modules.map fun m => (m.targetType, m.target)).toFinset

theorem card_keys_le (modules : List NativeModule) :
    (modules.map NativeModule.key).toFinset.card ≤ (targetPairs modules).card := by
  have himage : (modules.map NativeModule.key).toFinset =
      (targetPairs modules).image fun k => (k.1, cStr k.2) := by
    ext k
    simp [targetPairs, NativeModule.key]
  rw [himage]
  exact Finset.card_image_le

/-- **The kernel matches a file exactly when the core accepts it for some module**, whatever the
modules are, as long as their targets are at most 64. -/
theorem publication_exact (modules : List NativeModule) (filename : List UInt8)
    (hparsed : ∀ m ∈ modules, Parsed m) (hfew : (targetPairs modules).card ≤ nativeTargetMax)
    (hname : (0 : UInt8) ∉ filename) :
    (zpMatchLiveNativeTarget (zpSetNativeTargets (publishNativeTargets modules)) filename).isSome ↔
      ∃ m ∈ modules, infoMatches (infoOf m) filename = true := by
  have hnone : (([] : List YzNativeTarget).map YzNativeTarget.key).Nodup := List.nodup_nil
  obtain ⟨-, hall⟩ := key_mem_publishLoop hparsed hnone (by
    rw [List.map_nil, List.toFinset_nil, Finset.empty_union]
    exact (card_keys_le modules).trans hfew)
  rw [zpMatchLiveNativeTarget, Option.isSome_map, List.find?_isSome, zpSetNativeTargets,
    take_targets]
  constructor
  · rintro ⟨t, ht, hmatch⟩
    obtain ⟨src, hsrc, hkeep⟩ := List.mem_filterMap.mp ht
    rcases of_mem_publishLoop hsrc with hsrc | ⟨m, hm, rfl⟩
    · cases hsrc
    · have hne := string_of_keepTarget hkeep
      obtain ⟨t', ht', hkey⟩ :=
        keepTarget_published (hparsed m hm) (of_keepTarget hkeep).1 hne
      obtain rfl := Option.some.inj (hkeep.symm.trans ht')
      rw [liveMatches_iff hname (hkey ▸ hne), hkey] at hmatch
      exact ⟨m, hm, (infoMatches_infoOf (hparsed m hm)).mpr hmatch⟩
  · rintro ⟨m, hm, hmatch⟩
    rw [infoMatches_infoOf (hparsed m hm)] at hmatch
    obtain ⟨src, hsrc, hkey⟩ := hall m hm
    rcases of_mem_publishLoop hsrc with h | ⟨m', hm', rfl⟩
    · cases h
    · rw [key_published (hparsed m' hm')] at hkey
      rw [← hkey] at hmatch
      have htype : m'.targetType = nativeTargetName ∨ m'.targetType = nativeTargetPath :=
        hmatch.2.imp And.left And.left
      obtain ⟨t, hkeep, htkey⟩ := keepTarget_published (hparsed m' hm') htype hmatch.1
      rw [← htkey] at hmatch
      exact ⟨t, List.mem_filterMap.mpr ⟨_, hsrc, hkeep⟩,
        (liveMatches_iff hname hmatch.1).mpr hmatch⟩

/-- `name=a` and `path=/b`, the first one twice. -/
def sampleModules : List NativeModule :=
  [⟨[109], nativeTargetName, [97], [112], false⟩, ⟨[110], nativeTargetName, [97], [113], false⟩,
    ⟨[111], nativeTargetPath, [47, 98], [114], false⟩]

theorem publication_exact_sample :
    (zpMatchLiveNativeTarget (zpSetNativeTargets (publishNativeTargets sampleModules))
      [47, 97]).isSome = true := by
  refine (publication_exact sampleModules [47, 97] ?_ (by decide) (by decide)).mpr
    ⟨_, List.mem_cons_self, by decide⟩
  intro m hm
  simp only [sampleModules, List.mem_cons, List.not_mem_nil, or_false] at hm
  rcases hm with rfl | rfl | rfl
  · exact ⟨nameHead ++ [97], by decide⟩
  · exact ⟨nameHead ++ [97], by decide⟩
  · exact ⟨pathHead ++ [47, 98], by decide⟩

end YukiZygisk.Daemon
