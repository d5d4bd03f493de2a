/-
# The arguments of a zygote (`kernel/feature/zygote_probe.c`)

The probe reads the argument area of a process that is about to start, one argument after the
other, through a buffer of 96 bytes.  An argument that is longer is cut, and the rest of it is
passed over: `zpNextArg_consumes`.  So the scan sees the first 64 arguments, each of them once, and
answers by them: `zpParseZygoteArgs_exact`.

The two loops that read one argument are followed together (`fill_skip`), since the second must know
whether the first has seen the terminator.  The scan is then an induction on the arguments
(`scanArgs_areaOf`): a comparison with what the buffer holds is one with the whole argument
(`take_eq_xzygote`, `take_socketPrefix_iff`), because the buffer is longer than both words.

The area is what the kernel makes of the arguments: each one with a zero byte behind it.  A read
that fails ends the scan with what has been found; where the whole area can be read none fails.  Two
kinds of argument matter, the word that says which zygote it is and the one with the socket's name,
and of several the last one counts.  The limit of 64 arguments is the code's own.
-/
import Mathlib

namespace YukiZygisk.ZygoteArgs

/-! ## 1. Reading one argument -/

/-- The bytes from `*p` to the end of the area; `none` is a byte that `get_user` cannot read. -/
abbrev Area := List (Option UInt8)

/-- The first loop of `zp_next_arg`: what is put in the buffer, the last byte that was read, and
what is left.  `room` is how many bytes the buffer still takes. -/
def fillArg : Nat → UInt8 → Area → Option (List UInt8 × UInt8 × Area)
  | _, c, [] => some ([], c, [])
  | 0, c, area => some ([], c, area)
  | _ + 1, _, none :: _ => none
  | room + 1, _, some c :: area =>
    if c = 0 then some ([], 0, area)
    else
      match fillArg room c area with
      | none => none
      | some (arg, last, rest) => some (c :: arg, last, rest)

/-- The second loop: it passes over the rest of an argument that was cut. -/
def skipArg : UInt8 → Area → Option Area
  | _, [] => some []
  | c, byte :: area =>
    if c = 0 then some (byte :: area)
    else
      match byte with
      | none => none
      | some c => skipArg c area

/-- `zp_next_arg`: the argument and what is left of the area. -/
def zpNextArg (argLen : Nat) (area : Area) : Option (List UInt8 × Area) :=
  if argLen = 0 ∨ area = [] then none
  else
    match fillArg (argLen - 1) 0 area with
    | none => none
    | some (arg, c, rest) =>
      match skipArg c rest with
      | none => none
      | some rest => some (arg, rest)

/-! ## 2. The scan -/

/-- `zp_copy_name` into a buffer of `dstLen` bytes. -/
def zpCopyName (dstLen : Nat) (dst src : List UInt8) : List UInt8 :=
  if dstLen = 0 then dst else (src.takeWhile (· ≠ 0)).take (dstLen - 1)

/-- `YZ_ZYGOTE_NAME_MAX`, and the size of `arg`. -/
def zygoteNameMax : Nat := 64
def argMax : Nat := 96

/-- `"-Xzygote"`, `socket_prefix` and `"zygote"`. -/
def xzygote : List UInt8 := [45, 88, 122, 121, 103, 111, 116, 101]
def socketPrefix : List UInt8 := [45, 45, 115, 111, 99, 107, 101, 116, 45, 110, 97, 109, 101, 61]
def defaultName : List UInt8 := [122, 121, 103, 111, 116, 101]

/-- The loop of `zp_parse_zygote_args`, with how many arguments it may still read: the answer, which
is `none` if an argument cannot be read, and the name so far. -/
def scanArgs (nameLen : Nat) : Nat → Area → Bool → List UInt8 → Option Bool × List UInt8
  | 0, _, found, name => (some found, name)
  | _ + 1, [], found, name => (some found, name)
  | more + 1, byte :: area, found, name =>
    match zpNextArg argMax (byte :: area) with
    | none => (none, name)
    | some (arg, rest) =>
      if arg = xzygote then scanArgs nameLen more rest true name
      else if arg.take socketPrefix.length = socketPrefix then
        scanArgs nameLen more rest found (zpCopyName nameLen name (arg.drop socketPrefix.length))
      else scanArgs nameLen more rest found name

/-- The two fields of `struct mm_struct`: `arg_start`, and the bytes up to `arg_end`. -/
structure Mm where
  argStart : Nat
  area : Area

/-- `zp_parse_zygote_args`, with the name as the caller's buffer holds it afterwards. -/
def zpParseZygoteArgs (mm : Option Mm) (nameLen : Nat) (buffer : List UInt8) :
    Bool × List UInt8 :=
  match mm with
  | none => (false, buffer)
  | some mm =>
    let name := if nameLen ≠ 0 then [] else buffer
    if mm.argStart = 0 ∨ mm.area = [] then (false, name)
    else
      match scanArgs nameLen 64 mm.area false name with
      | (none, name) => (false, name)
      | (some found, name) =>
        if found ∧ nameLen ≠ 0 ∧ name = [] then (found, zpCopyName nameLen name defaultName)
        else (found, name)

/-! ## 3. One argument is consumed -/

/-- An argument with its terminator, in memory that can be read. -/
def stored (arg : List UInt8) : Area := (arg ++ [0]).map some

/-- An area of arguments. -/
def areaOf (args : List (List UInt8)) : Area := args.flatMap stored

/-- No argument has a NUL in it. -/
def Strings (args : List (List UInt8)) : Prop := ∀ arg ∈ args, (0 : UInt8) ∉ arg

variable {arg name : List UInt8} {args : List (List UInt8)} {area : Area} {c : UInt8} {found : Bool}
  {room nameLen argLen more : Nat}

theorem stored_cons (c : UInt8) (arg : List UInt8) : stored (c :: arg) = some c :: stored arg := rfl

/-- The rest of an argument is passed over with its terminator. -/
theorem skipArg_stored (hc : c ≠ 0) (harg : (0 : UInt8) ∉ arg) :
    skipArg c (stored arg ++ area) = some area := by
  induction arg generalizing c with
  | nil =>
    have hread : skipArg c (some 0 :: area) = skipArg 0 area := by
      rw [skipArg, if_neg hc]
    rw [stored, List.nil_append, List.map_singleton, List.singleton_append, hread]
    cases area <;> simp [skipArg]
  | cons d arg ih =>
    simp only [List.mem_cons, not_or] at harg
    rw [stored_cons, List.cons_append, skipArg, if_neg hc]
    exact ih (Ne.symm harg.1) harg.2

/-- The two loops together: the buffer takes what has room, and the argument is gone. -/
theorem fill_skip (hc : c ≠ 0 ∨ 0 < room) (harg : (0 : UInt8) ∉ arg) :
    ∃ last rest, fillArg room c (stored arg ++ area) = some (arg.take room, last, rest) ∧
      skipArg last rest = some area := by
  induction arg generalizing room c with
  | nil =>
    rw [stored, List.nil_append, List.map_singleton, List.singleton_append]
    cases room with
    | zero =>
      have hc : c ≠ 0 := hc.resolve_right (lt_irrefl 0)
      have hskip : skipArg c (stored [] ++ area) = some area := skipArg_stored hc (by simp)
      exact ⟨c, some 0 :: area, by simp [fillArg], hskip⟩
    | succ room =>
      refine ⟨0, area, by simp [fillArg], ?_⟩
      cases area <;> simp [skipArg]
  | cons d arg ih =>
    simp only [List.mem_cons, not_or] at harg
    have hd : d ≠ 0 := Ne.symm harg.1
    rw [stored_cons, List.cons_append]
    cases room with
    | zero =>
      have hc : c ≠ 0 := hc.resolve_right (lt_irrefl 0)
      have hskip : skipArg c (stored (d :: arg) ++ area) = some area :=
        skipArg_stored hc (by simp [harg])
      exact ⟨c, some d :: (stored arg ++ area), by simp [fillArg], hskip⟩
    | succ room =>
      obtain ⟨last, rest, hfill, hskip⟩ : ∃ last rest,
          fillArg room d (stored arg ++ area) = some (arg.take room, last, rest) ∧
            skipArg last rest = some area := ih (.inl hd) harg.2
      refine ⟨last, rest, ?_, hskip⟩
      rw [fillArg, if_neg hd, hfill]
      rfl

/-- **Each step consumes one argument**, and cuts it to the buffer. -/
theorem zpNextArg_consumes (hlen : 1 < argLen) (harg : (0 : UInt8) ∉ arg) :
    zpNextArg argLen (stored arg ++ area) = some (arg.take (argLen - 1), area) := by
  obtain ⟨last, rest, hfill, hskip⟩ : ∃ last rest,
      fillArg (argLen - 1) 0 (stored arg ++ area) = some (arg.take (argLen - 1), last, rest) ∧
        skipArg last rest = some area := fill_skip (.inr (by omega)) harg
  have hne : ¬ (argLen = 0 ∨ stored arg ++ area = []) := by
    rw [not_or]
    exact ⟨by omega, by simp [stored]⟩
  rw [zpNextArg, if_neg hne, hfill]
  simp only [hskip]

/-! ## 4. What the scan finds -/

/-- The argument names a socket. -/
def namesSocket (arg : List UInt8) : Bool := socketPrefix.isPrefixOf arg

/-- The name in an argument, cut to the two buffers. -/
def socketName (nameLen : Nat) (arg : List UInt8) : List UInt8 :=
  ((arg.take (argMax - 1)).drop socketPrefix.length).take (nameLen - 1)

/-- The name of the last socket-name argument; nothing if there is none. -/
def lastName (nameLen : Nat) (args : List (List UInt8)) : List UInt8 :=
  ((args.filter namesSocket).getLast?.map (socketName nameLen)).getD []

/-- The buffer holds enough of an argument to compare it. -/
theorem take_eq_xzygote : arg.take (argMax - 1) = xzygote ↔ arg = xzygote := by
  constructor
  · intro h
    have hlen := congrArg List.length h
    rw [List.length_take] at hlen
    have hshort : arg.length ≤ argMax - 1 := by
      simp only [xzygote, argMax, List.length_cons, List.length_nil] at hlen ⊢
      omega
    rwa [List.take_of_length_le hshort] at h
  · rintro rfl
    rfl

/-- Cutting an argument keeps whether it names a socket. -/
theorem take_socketPrefix_iff : (arg.take (argMax - 1)).take socketPrefix.length = socketPrefix ↔
    namesSocket arg = true := by
  rw [List.take_take, namesSocket, List.isPrefixOf_iff_prefix, List.prefix_iff_eq_take]
  exact eq_comm

theorem not_namesSocket_xzygote : namesSocket xzygote = false := by decide

/-- What is copied from an argument that names a socket. -/
theorem zpCopyName_socket (hname : nameLen ≠ 0) (harg : (0 : UInt8) ∉ arg) :
    zpCopyName nameLen name ((arg.take (argMax - 1)).drop socketPrefix.length) =
      socketName nameLen arg := by
  have hstring : ∀ c ∈ (arg.take (argMax - 1)).drop socketPrefix.length, decide (c ≠ 0) = true := by
    intro c hc
    have hmem : c ∈ arg := List.mem_of_mem_take (List.mem_of_mem_drop hc)
    exact decide_eq_true fun hzero => harg (hzero ▸ hmem)
  rw [zpCopyName, if_neg hname, List.takeWhile_eq_self_iff.mpr hstring, socketName]

/-- The scan of an area of arguments: what it finds, and the name it is left with. -/
theorem scanArgs_areaOf (hname : nameLen ≠ 0) (hargs : Strings args) :
    scanArgs nameLen more (areaOf args) found name =
      (some (found || decide (xzygote ∈ args.take more)),
        (((args.take more).filter namesSocket).getLast?.map (socketName nameLen)).getD name) := by
  induction args generalizing more found name with
  | nil => cases more <;> simp [areaOf, scanArgs]
  | cons arg args ih =>
    cases more with
    | zero => simp [scanArgs]
    | succ more =>
      have harg : (0 : UInt8) ∉ arg := hargs arg List.mem_cons_self
      have hrest : Strings args := fun a ha => hargs a (List.mem_cons_of_mem arg ha)
      have hnext : zpNextArg argMax (stored arg ++ areaOf args) =
          some (arg.take (argMax - 1), areaOf args) := zpNextArg_consumes (by decide) harg
      have harea : areaOf (arg :: args) = stored arg ++ areaOf args := rfl
      obtain ⟨byte, area, hcons⟩ : ∃ byte area, stored arg ++ areaOf args = byte :: area :=
        List.exists_cons_of_ne_nil (by simp [stored])
      rw [harea, hcons, scanArgs, ← hcons, hnext, List.take_succ_cons]
      dsimp only
      by_cases hx : arg = xzygote
      · rw [if_pos (take_eq_xzygote.mpr hx), ih hrest, hx,
          List.filter_cons_of_neg (by simp [not_namesSocket_xzygote])]
        simp
      · have hx' : ¬ xzygote = arg := Ne.symm hx
        rw [if_neg (mt take_eq_xzygote.mp hx)]
        by_cases hsocket : namesSocket arg = true
        · rw [if_pos (take_socketPrefix_iff.mpr hsocket), ih hrest, zpCopyName_socket hname harg,
            List.filter_cons_of_pos hsocket, List.getLast?_cons]
          cases ((args.take more).filter namesSocket).getLast? <;> simp [hx']
        · rw [if_neg (mt take_socketPrefix_iff.mp hsocket), ih hrest,
            List.filter_cons_of_neg hsocket]
          simp [hx']

/-- **A zygote is recognised by its first 64 arguments.**  Each step of the scan consumes one
argument; the answer is yes exactly if `-Xzygote` is among the first 64, and then the name is that
of the last socket-name argument among them, or the default when it is empty or there is none. -/
theorem zpParseZygoteArgs_exact (argStart nameLen : Nat) (buffer : List UInt8)
    (args : List (List UInt8)) (hstart : argStart ≠ 0) (hname : nameLen ≠ 0)
    (hargs : Strings args) :
    (∀ arg ∈ args, ∀ area, zpNextArg argMax (stored arg ++ area) =
      some (arg.take (argMax - 1), area)) ∧
    ((zpParseZygoteArgs (some ⟨argStart, areaOf args⟩) nameLen buffer).1 = true ↔
      xzygote ∈ args.take 64) ∧
    (xzygote ∈ args.take 64 →
      (zpParseZygoteArgs (some ⟨argStart, areaOf args⟩) nameLen buffer).2 =
        if lastName nameLen (args.take 64) = [] then defaultName.take (nameLen - 1)
        else lastName nameLen (args.take 64)) := by
  refine ⟨fun arg harg area => zpNextArg_consumes (by decide) (hargs arg harg), ?_⟩
  have hscan : scanArgs nameLen 64 (areaOf args) false [] =
      (some (false || decide (xzygote ∈ args.take 64)),
        (((args.take 64).filter namesSocket).getLast?.map (socketName nameLen)).getD []) :=
    scanArgs_areaOf hname hargs
  have hdefault : zpCopyName nameLen [] defaultName = defaultName.take (nameLen - 1) := by
    rw [zpCopyName, if_neg hname]
    rfl
  cases args with
  | nil => simp [zpParseZygoteArgs, areaOf]
  | cons first rest =>
    have hne : ¬ (argStart = 0 ∨ areaOf (first :: rest) = []) := by
      rw [not_or]
      exact ⟨hstart, by simp [areaOf, stored]⟩
    rw [zpParseZygoteArgs]
    dsimp only
    rw [if_neg hne, if_pos hname, hscan, ← lastName]
    generalize (first :: rest).take 64 = seen
    by_cases hx : xzygote ∈ seen
    · by_cases hempty : lastName nameLen seen = []
      · simp [hx, hempty, hname, hdefault]
      · simp [hx, hempty]
    · simp [hx]

/-- The second of three arguments is longer than the buffer; the last names no socket. -/
theorem zpParseZygoteArgs_exact_sample :
    (zpParseZygoteArgs (some ⟨4096, areaOf [xzygote, List.replicate 100 97, socketPrefix]⟩)
      zygoteNameMax []).1 = true ∧
    (zpParseZygoteArgs (some ⟨4096, areaOf [xzygote, List.replicate 100 97, socketPrefix]⟩)
      zygoteNameMax []).2 = defaultName := by
  have h := zpParseZygoteArgs_exact 4096 zygoteNameMax []
    [xzygote, List.replicate 100 97, socketPrefix] (by decide) (by decide) (by
      intro arg harg
      simp only [List.mem_cons, List.not_mem_nil, or_false] at harg
      rcases harg with rfl | rfl | rfl <;> decide)
  exact ⟨h.2.1.mpr (by decide), (h.2.2 (by decide)).trans (by decide)⟩

end YukiZygisk.ZygoteArgs
