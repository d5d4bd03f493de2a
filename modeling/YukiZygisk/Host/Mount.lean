/-
# Detaching the module mounts of an app (`mount.c`)

The host reads `/proc/self/mountinfo` of the app, looks for the mounts that belong to modules, and
detaches them from the last one to the first.  A line has six fields, any number of optional ones, a
separator and three more; the kernel writes the paths with space, tab, newline and backslash escaped
as octal.

The scan finds exactly the lines of the module mounts, in their order, whatever the sizes of the
reads are (`calls_of_scan`).  It never undoes the escapes, so that **the paths it detaches are the
mount points exactly when none of them has a byte that is escaped** (`detaches_iff`).

A line is read by words between blanks: six fields, an unknown number of optional ones, a dash and
three more (`parseFields_optional`).  None of the fields has a blank or a newline in it, since those
are escaped (`fields_separated`), so the words of a line are its fields and the lines of the text
are its entries (`parseMountinfo_line`).  The test for a module mount looks for parts in the fields
that no escape can be a part of, so it gives the same answer on the escaped text
(`isModule_escape`).  Reading in pieces loses nothing, for the reader puts the pieces together
before it looks for lines (`readFile_eq`).
-/
import YukiZygisk.Lib.OctalEscape

namespace YukiZygisk.Mount

open OctalEscape

abbrev Text := List UInt8

def ascii (s : String) : Text := s.toList.map fun c => UInt8.ofNat c.toNat

/-! ## 1. The table of mounts, and its text -/

/-- The bytes that are escaped in a path. -/
def pathSpecial (b : UInt8) : Bool := b = 32 || b = 9 || b = 10 || b = 92

/-- The bytes that are escaped in the type and the source of a file system. -/
def nameSpecial (b : UInt8) : Bool := pathSpecial b || b = 35

/-- A field that is written as it is. -/
abbrev Field := { f : Text // ∀ b ∈ f, b ≠ 0 ∧ b ≠ 10 ∧ b ≠ 32 }

/-- A path, or another C string that is written with escapes. -/
abbrev Str := { s : Text // ∀ b ∈ s, b ≠ 0 }

/-- A mount, with the fields of its line. -/
structure MountEntry where
  id : Field
  parent : Field
  device : Field
  root : Str
  target : Str
  options : Field
  optional : List { f : Field // f.val ≠ ascii "-" }
  fstype : Str
  source : Str
  super : Str

/-- The fields of a line as they are written. -/
def MountEntry.fields (m : MountEntry) : List Text :=
  [m.id.val, m.parent.val, m.device.val, escape pathSpecial m.root.val,
      escape pathSpecial m.target.val, m.options.val] ++
    (m.optional.map (·.val.val) ++
      [ascii "-", escape nameSpecial m.fstype.val, escape nameSpecial m.source.val,
        escape pathSpecial m.super.val])

def MountEntry.line (m : MountEntry) : Text := [32].intercalate m.fields

/-- The text of `/proc/self/mountinfo`. -/
def render (mounts : List MountEntry) : Text := mounts.flatMap fun m => m.line ++ [10]

/-! ## 2. A line -/

/-- `yz_mount_is_module`. -/
def mountIsModule (root target source : Text) (super : Option Text) : Bool :=
  if ascii "/adb/modules" <+: root then true
  else if ascii "/data/adb/" <+: target then true
  else if source = ascii "KSU" || source = ascii "YukiSU" || source = ascii "magisk" ||
      source = ascii "APatch" || source = ascii "YukiZygisk" then true
  else
    match super with
    | some super => ascii "/adb/modules" <:+: super || ascii "/data/adb/" <:+: super
    | none => false

/-- What `yz_parse_mountinfo` finds in a line. -/
structure Parsed where
  root : Text
  target : Text
  source : Text
  super : Option Text

/-- What `yz_parse_mountinfo` does after the separator. -/
def fieldsAfterDash (f3 f4 : Option Text) : List Text → Option Parsed
  | _fstype :: src :: more =>
    match f3, f4 with
    | some root, some target => some ⟨root, target, src, more.head?⟩
    | _, _ => none
  | _ => none

/-- The loop of `yz_parse_mountinfo` over the tokens that `strsep` cuts off. -/
def parseFields (n : ℕ) (f3 f4 : Option Text) : List Text → Option Parsed
  | [] => none
  | tok :: rest =>
    if n = 3 then parseFields (n + 1) (some tok) f4 rest
    else if n = 4 then parseFields (n + 1) f3 (some tok) rest
    else if 6 ≤ n ∧ tok = ascii "-" then fieldsAfterDash f3 f4 rest
    else parseFields (n + 1) f3 f4 rest

/-- `yz_parse_mountinfo`. -/
def parseMountinfo (line : Text) : Option Parsed := parseFields 0 none none (line.splitOn 32)

/-! ## 3. The scan -/

/-- `YZ_UMOUNT_MAX_TARGETS`. -/
def umountMaxTargets : ℕ := 512

/-- `YZ_MOUNTINFO_BUF`. -/
def mountinfoBuf : ℕ := 256 * 1024

/-- What the scan uses of the kernel.  `read pos want` is what `yz_kernel_read` delivers from a
position of the file on, and `σ` is the state of the mounts that `path_umount` changes. -/
structure Host (σ Path : Type) where
  vmalloc : Bool
  kmalloc : Bool
  fileOpen : ℤ
  read : ℕ → ℕ → Except ℤ Text
  pathUmountFound : Bool
  kernPath : σ → Text → Except ℤ (Path × Bool)
  pathUmount : σ → Path → ℤ × σ

variable {σ Path : Type}

/-- `yz_try_umount`; the path of a mount is one whose `dentry` is the root of the mount. -/
def tryUmount (host : Host σ Path) (state : σ) (mnt : Text) : ℤ × σ :=
  if mnt = [] then (-22, state)
  else if !host.pathUmountFound then (-2, state)
  else
    match host.kernPath state mnt with
    | .error ret => (ret, state)
    | .ok (path, isRoot) => if !isRoot then (-22, state) else host.pathUmount state path

/-- The loop that reads the file; each turn but the last reads at least a byte. -/
def readFile (read : ℕ → ℕ → Except ℤ Text) (size : ℕ) : ℕ → Text → Except ℤ Text
  | 0, buf => .ok buf
  | turns + 1, buf =>
    if buf.length < size then
      match read buf.length (size - buf.length) with
      | .error ret => .error ret
      | .ok [] => .ok buf
      | .ok chunk => readFile read size turns (buf ++ chunk)
    else .ok buf

/-- The C string at the start of the buffer. -/
def cString (buf : Text) : Text := buf.takeWhile fun b => b ≠ 0

/-- What a line adds to the targets. -/
def collect (targets : List Text) (line : Text) : List Text :=
  if line = [] then targets
  else
    match parseMountinfo line with
    | none => targets
    | some f =>
      if mountIsModule f.root f.target f.source f.super && targets.length < umountMaxTargets then
        targets ++ [f.target]
      else targets

/-- The calls of `yz_try_umount` and their results. -/
def detachAll (host : Host σ Path) : List Text → σ → List (Text × ℤ)
  | [], _ => []
  | mnt :: rest, state =>
    let (ret, state) := tryUmount host state mnt
    (mnt, ret) :: detachAll host rest state

/-- `yz_umount_scan_mountinfo`, with the calls it makes. -/
def umountScanMountinfo (host : Host σ Path) (state : σ) : ℤ × List (Text × ℤ) :=
  if !host.vmalloc then (-12, [])
  else if !host.kmalloc then (-12, [])
  else if host.fileOpen ≠ 0 then (host.fileOpen, [])
  else
    match readFile host.read (mountinfoBuf - 1) mountinfoBuf [] with
    | .error ret => (ret, [])
    | .ok buf =>
      let targets := ((cString buf).splitOn 10).foldl collect []
      (0, detachAll host targets.reverse state)

/-- The paths that the scan calls detach on, in their order. -/
def calls (host : Host σ Path) (state : σ) : List Text :=
  (umountScanMountinfo host state).2.map Prod.fst

/-- The kernel has the memory, and delivers the text in reads of whatever sizes. -/
structure Host.Serves (host : Host σ Path) (text : Text) : Prop where
  vmalloc : host.vmalloc = true
  kmalloc : host.kmalloc = true
  fileOpen : host.fileOpen = 0
  read_some : ∀ pos want, pos < text.length → 0 < want → ∃ chunk, host.read pos want = .ok chunk ∧
    chunk ≠ [] ∧ chunk.length ≤ want ∧ chunk <+: text.drop pos
  read_end : ∀ pos want, text.length ≤ pos → host.read pos want = .ok []

/-! ## 4. A line is read back -/

/-- A byte of the escaped text that is special, or is not in the text, belongs to an escape. -/
theorem plain_of_escape {special : UInt8 → Bool} {s : Text} {b : UInt8}
    (hb : b ∈ escape special s) (h : special b = true ∨ b ∉ s) : isEscapeText b = true := by
  rcases mem_escape hb with ⟨hmem, hspecial⟩ | htext
  · rcases h with h | h
    · rw [h] at hspecial
      cases hspecial
    · exact absurd hmem h
  · exact htext

/-- No field has the byte between the fields, the one between the lines or the end of a string. -/
theorem fields_separated (m : MountEntry) {f : Text} (hf : f ∈ m.fields) {b : UInt8}
    (hb : b = 0 ∨ b = 10 ∨ b = 32) : b ∉ f := by
  have hfield : ∀ f : Field, b ∉ f.val := by
    rintro f hmem
    obtain ⟨h0, h10, h32⟩ := f.property b hmem
    rcases hb with rfl | rfl | rfl
    · exact h0 rfl
    · exact h10 rfl
    · exact h32 rfl
  have hstr : ∀ (special : UInt8 → Bool) (s : Str), special 10 = true → special 32 = true →
      b ∉ escape special s.val := by
    intro special s h10 h32 hmem
    have hother : special b = true ∨ b ∉ s.val := by
      rcases hb with rfl | rfl | rfl
      · exact .inr fun hzero => s.property 0 hzero rfl
      · exact .inl h10
      · exact .inl h32
    have htext := plain_of_escape hmem hother
    rcases hb with rfl | rfl | rfl <;> exact absurd htext (by decide)
  have hdash : b ∉ ascii "-" := by
    rcases hb with rfl | rfl | rfl <;> decide
  simp only [MountEntry.fields, List.mem_append, List.mem_cons, List.mem_map, List.not_mem_nil,
    or_false] at hf
  rcases hf with (rfl | rfl | rfl | rfl | rfl | rfl) | ⟨o, -, rfl⟩ | rfl | rfl | rfl | rfl
  · exact hfield _
  · exact hfield _
  · exact hfield _
  · exact hstr _ _ rfl rfl
  · exact hstr _ _ rfl rfl
  · exact hfield _
  · exact hfield _
  · exact hdash
  · exact hstr _ _ rfl rfl
  · exact hstr _ _ rfl rfl
  · exact hstr _ _ rfl rfl

theorem line_separated (m : MountEntry) {b : UInt8} (hb : b = 0 ∨ b = 10) : b ∉ m.line := by
  intro hmem
  have hjoin : ∀ fs : List Text, (∀ f ∈ fs, b ∉ f) → b ∉ [32].intercalate fs := by
    intro fs
    induction fs with
    | nil => exact fun _ => List.not_mem_nil
    | cons f fs ih =>
      intro hfs
      cases fs with
      | nil => simpa using hfs f List.mem_cons_self
      | cons g gs =>
        rw [List.intercalate_cons_cons, List.append_assoc, List.mem_append, List.mem_append]
        rintro (hf | hsep | hrest)
        · exact hfs f List.mem_cons_self hf
        · obtain rfl := List.mem_singleton.mp hsep
          rcases hb with h | h <;> exact absurd h (by decide)
        · exact ih (fun g hg => hfs g (List.mem_cons_of_mem f hg)) hrest
  exact hjoin m.fields (fun f hf => fields_separated m hf (hb.imp_right Or.inl)) hmem

/-- The optional fields are passed over, whatever their number. -/
theorem parseFields_optional (root target fstype source super : Text) :
    ∀ (optional : List { f : Field // f.val ≠ ascii "-" }) (n : ℕ), 6 ≤ n →
      parseFields n (some root) (some target)
          (optional.map (·.val.val) ++ [ascii "-", fstype, source, super]) =
        some ⟨root, target, source, some super⟩ := by
  intro optional
  induction optional with
  | nil =>
    intro n hn
    rw [List.map_nil, List.nil_append, parseFields, if_neg (by omega), if_neg (by omega),
      if_pos ⟨hn, rfl⟩]
    rfl
  | cons o optional ih =>
    intro n hn
    rw [List.map_cons, List.cons_append, parseFields, if_neg (by omega), if_neg (by omega),
      if_neg fun h => o.property h.2]
    exact ih (n + 1) (by omega)

/-- A line of the table is parsed into its fields, as they are written. -/
theorem parseMountinfo_line (m : MountEntry) :
    parseMountinfo m.line = some ⟨escape pathSpecial m.root.val, escape pathSpecial m.target.val,
      escape nameSpecial m.source.val, some (escape pathSpecial m.super.val)⟩ := by
  have hsplit : m.line.splitOn 32 = m.fields :=
    List.splitOn_intercalate 32 (fun f hf => fields_separated m hf (.inr (.inr rfl)))
      (List.cons_ne_nil _ _)
  rw [parseMountinfo, hsplit]
  exact parseFields_optional _ _ _ _ _ m.optional 6 le_rfl

/-- Whether a mount belongs to a module, by its fields themselves. -/
def MountEntry.isModule (m : MountEntry) : Bool :=
  mountIsModule m.root.val m.target.val m.source.val (some m.super.val)

/-- The escapes do not change which mounts belong to a module. -/
theorem isModule_escape (m : MountEntry) :
    mountIsModule (escape pathSpecial m.root.val) (escape pathSpecial m.target.val)
      (escape nameSpecial m.source.val) (some (escape pathSpecial m.super.val)) = m.isModule := by
  have hmodules : Plain pathSpecial (ascii "/adb/modules") := by decide +kernel
  have hdata : Plain pathSpecial (ascii "/data/adb/") := by decide +kernel
  have hksu : Plain nameSpecial (ascii "KSU") := by decide +kernel
  have hyukisu : Plain nameSpecial (ascii "YukiSU") := by decide +kernel
  have hmagisk : Plain nameSpecial (ascii "magisk") := by decide +kernel
  have hapatch : Plain nameSpecial (ascii "APatch") := by decide +kernel
  have hyuki : Plain nameSpecial (ascii "YukiZygisk") := by decide +kernel
  simp only [MountEntry.isModule, mountIsModule, prefix_escape hmodules, prefix_escape hdata,
    escape_eq_plain hksu, escape_eq_plain hyukisu, escape_eq_plain hmagisk,
    escape_eq_plain hapatch, escape_eq_plain hyuki, infix_escape hmodules (by decide +kernel),
    infix_escape hdata (by decide +kernel)]

/-! ## 5. The scan finds the lines of the module mounts -/

/-- The whole text is read, whatever the sizes of the reads are. -/
theorem readFile_eq {host : Host σ Path} {text : Text} (h : host.Serves text) {size : ℕ}
    (hsize : text.length ≤ size) :
    ∀ (turns : ℕ) (buf : Text), buf <+: text → text.length - buf.length < turns →
      readFile host.read size turns buf = .ok text := by
  intro turns
  induction turns with
  | zero => exact fun _ _ hturns => absurd hturns (Nat.not_lt_zero _)
  | succ turns ih =>
    intro buf hbuf hturns
    have hle := hbuf.length_le
    rw [readFile]
    by_cases hend : text.length ≤ buf.length
    · obtain rfl := hbuf.eq_of_length_le hend
      rw [h.read_end _ _ le_rfl, ite_self]
    · obtain ⟨chunk, hread, hne, -, hbegin⟩ :=
        h.read_some buf.length (size - buf.length) (by omega) (by omega)
      obtain ⟨b, chunk, rfl⟩ := List.exists_cons_of_ne_nil hne
      rw [if_pos (by omega), hread]
      refine ih _ ?_ ?_
      · obtain ⟨rest, rfl⟩ := hbuf
        rw [List.drop_left] at hbegin
        exact (List.prefix_append_right_inj buf).mpr hbegin
      · rw [List.length_append, List.length_cons]
        omega

theorem splitOn_render (mounts : List MountEntry) :
    (render mounts).splitOn 10 = mounts.map MountEntry.line ++ [[]] := by
  induction mounts with
  | nil => rfl
  | cons m mounts ih =>
    rw [render, List.flatMap_cons, List.append_assoc, List.singleton_append,
      List.splitOn_append_cons_self_of_not_mem (line_separated m (.inr rfl)), ← render, ih]
    rfl

theorem cString_render (mounts : List MountEntry) : cString (render mounts) = render mounts := by
  refine List.takeWhile_eq_self_iff.mpr ?_
  intro b hb
  obtain ⟨m, -, hline⟩ := List.mem_flatMap.mp hb
  refine decide_eq_true ?_
  intro hzero
  subst hzero
  rcases List.mem_append.mp hline with hmem | hmem
  · exact line_separated m (.inl rfl) hmem
  · exact absurd hmem (by decide)

/-- A line of a module mount adds its mount point as it is written, and another line nothing. -/
theorem collect_line {targets : List Text} {m : MountEntry}
    (h : m.isModule = true → targets.length < umountMaxTargets) :
    collect targets m.line =
      if m.isModule then targets ++ [escape pathSpecial m.target.val] else targets := by
  have hne : m.line ≠ [] := by
    intro hnil
    have hparse := parseMountinfo_line m
    rw [hnil] at hparse
    cases hparse
  rw [collect, if_neg hne, parseMountinfo_line]
  dsimp only
  rw [isModule_escape]
  by_cases hmodule : m.isModule = true
  · rw [if_pos (by simp [hmodule, h hmodule]), if_pos hmodule]
  · rw [if_neg (by simp [hmodule]), if_neg hmodule]

/-- The targets are the mount points of the module mounts, as they are written. -/
theorem collect_lines : ∀ (mounts : List MountEntry) (targets : List Text),
    targets.length + (mounts.filter MountEntry.isModule).length ≤ umountMaxTargets →
    (mounts.map MountEntry.line ++ [[]]).foldl collect targets =
      targets ++ (mounts.filter MountEntry.isModule).map fun m =>
        escape pathSpecial m.target.val := by
  intro mounts
  induction mounts with
  | nil => exact fun targets _ => (List.append_nil targets).symm
  | cons m mounts ih =>
    intro targets hcount
    rw [List.map_cons, List.cons_append, List.foldl_cons]
    by_cases hmodule : m.isModule = true
    · rw [List.filter_cons_of_pos hmodule, List.length_cons] at hcount
      rw [collect_line fun _ => by omega, if_pos hmodule, List.filter_cons_of_pos hmodule, ih,
        List.map_cons, List.append_assoc, List.singleton_append]
      rw [List.length_append, List.length_singleton]
      omega
    · rw [List.filter_cons_of_neg hmodule] at hcount
      rw [collect_line fun h => absurd h hmodule, if_neg hmodule,
        List.filter_cons_of_neg hmodule, ih _ hcount]

/-- What is detached is what was collected. -/
theorem detachAll_fst (host : Host σ Path) : ∀ (targets : List Text) (state : σ),
    (detachAll host targets state).map Prod.fst = targets := by
  intro targets
  induction targets with
  | nil => exact fun _ => rfl
  | cons mnt targets ih =>
    intro state
    rw [detachAll, List.map_cons, ih]

/-- The scan detaches the mount points of the module mounts as they are written, from the last one
to the first. -/
theorem calls_of_scan {host : Host σ Path} {mounts : List MountEntry}
    (h : host.Serves (render mounts)) (state : σ) (hsize : (render mounts).length < mountinfoBuf)
    (hcount : (mounts.filter MountEntry.isModule).length ≤ umountMaxTargets) :
    calls host state = ((mounts.filter MountEntry.isModule).map fun m =>
      escape pathSpecial m.target.val).reverse := by
  have hread := readFile_eq h (Nat.le_sub_one_of_lt hsize) mountinfoBuf [] List.nil_prefix
    (by rw [List.length_nil, Nat.sub_zero]; exact hsize)
  rw [calls, umountScanMountinfo, h.vmalloc, h.kmalloc, h.fileOpen, hread]
  simp only [Bool.not_true, Bool.false_eq_true, if_false, ne_eq, not_true_eq_false]
  rw [cString_render, splitOn_render, collect_lines mounts [] (by simpa using hcount),
    List.nil_append, detachAll_fst]

/-- **The scan detaches the module mounts, each once for its line and from the last one to the
first, exactly when no mount point among them has a byte that is escaped.**  Otherwise it asks for
the escaped text, which is another path. -/
theorem detaches_iff {host : Host σ Path} {mounts : List MountEntry}
    (h : host.Serves (render mounts)) (state : σ) (hsize : (render mounts).length < mountinfoBuf)
    (hcount : (mounts.filter MountEntry.isModule).length ≤ umountMaxTargets) :
    calls host state = ((mounts.filter MountEntry.isModule).map fun m => m.target.val).reverse ↔
      ∀ m ∈ mounts, m.isModule = true → ∀ b ∈ m.target.val, pathSpecial b = false := by
  rw [calls_of_scan h state hsize hcount, List.reverse_inj, List.map_inj_left]
  simp only [List.mem_filter, escape_eq_self, and_imp]

/-- A kernel that has the memory and fills every read. -/
def fullReads (text : Text) : Host Unit Unit where
  vmalloc := true
  kmalloc := true
  fileOpen := 0
  read pos want := .ok ((text.drop pos).take want)
  pathUmountFound := true
  kernPath := fun _ _ => .ok ((), true)
  pathUmount := fun _ _ => (0, ())

theorem serves_fullReads (text : Text) : (fullReads text).Serves text where
  vmalloc := rfl
  kmalloc := rfl
  fileOpen := rfl
  read_some := by
    intro pos want hpos hwant
    refine ⟨_, rfl, ?_, List.length_take_le _ _, List.take_prefix _ _⟩
    rw [ne_eq, List.take_eq_nil_iff, List.drop_eq_nil_iff]
    omega
  read_end := by
    intro pos want hpos
    exact congrArg Except.ok (by rw [List.drop_of_length_le hpos, List.take_nil])

/-- A module mount at `/data/adb/a b`, with one optional field. -/
def spacedMount : MountEntry where
  id := ⟨ascii "36", by decide +kernel⟩
  parent := ⟨ascii "35", by decide +kernel⟩
  device := ⟨ascii "0:31", by decide +kernel⟩
  root := ⟨ascii "/", by decide +kernel⟩
  target := ⟨ascii "/data/adb/a b", by decide +kernel⟩
  options := ⟨ascii "rw,nosuid", by decide +kernel⟩
  optional := [⟨⟨ascii "shared:1", by decide +kernel⟩, by decide +kernel⟩]
  fstype := ⟨ascii "tmpfs", by decide +kernel⟩
  source := ⟨ascii "KSU", by decide +kernel⟩
  super := ⟨ascii "rw", by decide +kernel⟩

/-- A mount of the system, and a module mount without anything to escape. -/
def systemMount : MountEntry :=
  { spacedMount with
    id := ⟨ascii "21", by decide +kernel⟩
    target := ⟨ascii "/system", by decide +kernel⟩
    optional := []
    fstype := ⟨ascii "ext4", by decide +kernel⟩
    source := ⟨ascii "/dev/block/dm-0", by decide +kernel⟩ }

def vendorMount : MountEntry :=
  { spacedMount with
    id := ⟨ascii "37", by decide +kernel⟩
    target := ⟨ascii "/vendor/lib64", by decide +kernel⟩ }

theorem detaches_iff_sample :
    calls (fullReads (render [systemMount, vendorMount, spacedMount])) () =
        (([systemMount, vendorMount, spacedMount].filter MountEntry.isModule).map
          fun m => m.target.val).reverse ↔
      ∀ m ∈ [systemMount, vendorMount, spacedMount], m.isModule = true →
        ∀ b ∈ m.target.val, pathSpecial b = false :=
  detaches_iff (serves_fullReads _) () (by decide +kernel) (by decide +kernel)

/-- A mount point with a space is not detached: the path asked for is `/data/adb/a\040b`. -/
theorem not_detaches :
    ¬ ∀ (host : Host Unit Unit) (mounts : List MountEntry), host.Serves (render mounts) →
      (render mounts).length < mountinfoBuf →
      (mounts.filter MountEntry.isModule).length ≤ umountMaxTargets →
      calls host () =
        ((mounts.filter MountEntry.isModule).map fun m => m.target.val).reverse := by
  intro hall
  have hsize : (render [spacedMount]).length < mountinfoBuf := by decide +kernel
  have hcount : ([spacedMount].filter MountEntry.isModule).length ≤ umountMaxTargets := by
    decide +kernel
  have hcalls := hall _ _ (serves_fullReads (render [spacedMount])) hsize hcount
  rw [calls_of_scan (serves_fullReads _) () hsize hcount] at hcalls
  exact absurd hcalls (by decide +kernel)

end YukiZygisk.Mount
