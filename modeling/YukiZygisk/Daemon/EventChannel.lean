/-
# The kernel's events (`kernel/feature/zygote_nl.c`, `userspace/zygisk/daemon/zygiskd.cpp`)

The kernel tells the daemons what happened through a netlink socket.  A datagram holds messages with
a header each; the daemon walks through them by the lengths that they state themselves, and hands on
the events in them.

Two things can go wrong with lengths that a message states itself: the walk can leave what was
received, or never end.  `drain_reads` says that it does neither, whatever the datagram holds:
each turn is made inside the rest (`loop_isSome`), and a message is at least its header long, so
the rest gets shorter.  `drain_bytes` is about datagrams that were written as messages, and that fit
the buffer: what is read off them is the events of the messages, in order, however the messages are
padded and whatever other types are among them.

A read is an `Option`, and `none` where the source would read outside of what was received, so
`drain_reads` is that the walk is `some`.  The fuel of the walk is the number of bytes: a turn takes
a header at least.  For a datagram of messages the walk is described in one turn (`Message.reads`):
in front of a message, whatever was walked over and whatever is behind, it reads the event in that
message, if it is one, and goes on behind its padding.  `events_emit` then says that what the kernel
puts into a message for an event is that event.
-/
import YukiZygisk.Lib.CheckedReads

namespace YukiZygisk.EventChannel

open Bytes CheckedReads

/-! ## 1. Messages -/

/-- `struct yz_event`. -/
structure YzEvent where
  type : UInt32
  pid : UInt32
  appid : UInt32
  deriving DecidableEq

def YzEvent.bytes (e : YzEvent) : List UInt8 :=
  toBytes 4 e.type.toNat ++ (toBytes 4 e.pid.toNat ++ toBytes 4 e.appid.toNat)

/-- `YZ_EV_RELOAD` and `YZ_EV_POLICY_REFRESH`, the events that the daemon acts on. -/
def evReload : UInt32 := 2
def evPolicyRefresh : UInt32 := 4

/-- `YZ_NL_MSG_EVENT` -/
def nlMsgEvent : Nat := 0x10

/-- `sizeof(struct nlmsghdr)`, `NLMSG_LENGTH(sizeof(yz_event))`, `NLMSG_ALIGN`. -/
def nlmsgHdrLen : Nat := 16
def eventLen : Nat := nlmsgHdrLen + 12
def nlmsgAlign (len : Nat) : Nat := (len + 3) / 4 * 4

/-- A netlink message; its length has to fit the header. -/
structure Message where
  type : UInt16
  payload : List UInt8
  fits : nlmsgHdrLen + payload.length < 256 ^ 4

def Message.len (m : Message) : Nat := nlmsgHdrLen + m.payload.length

/-- A message as `nlmsg_put` lays it out, padded to a multiple of 4. -/
def Message.bytes (m : Message) : List UInt8 :=
  toBytes 4 m.len ++ (toBytes 2 m.type.toNat ++ (List.replicate 10 0 ++ (m.payload ++
    List.replicate (nlmsgAlign m.len - m.len) 0)))

/-- `yz_zygote_nl_emit_event`. -/
def yzZygoteNlEmitEvent (type pid appid : UInt32) : Message where
  type := 0x10
  payload := YzEvent.bytes ⟨type, pid, appid⟩
  fits := by
    simp only [YzEvent.bytes, List.length_append, length_toBytes]
    decide

/-! ## 2. What the daemon reads -/

/-- `sizeof(buf)` in `nl_drain`. -/
def bufLen : Nat := 4096

/-- The event of a message whose header is at `pos`. -/
def readEvent (bytes : List UInt8) (pos len : Nat) : Option (List YzEvent) :=
  (field bytes (pos + 4) 2).bind fun type =>
    if type = nlMsgEvent ∧ eventLen ≤ len then
      (field bytes (pos + 16) 4).bind fun type =>
        (field bytes (pos + 20) 4).bind fun pid =>
          (field bytes (pos + 24) 4).map fun appid =>
            [⟨UInt32.ofNat type, UInt32.ofNat pid, UInt32.ofNat appid⟩]
    else some []

/-- The loop of `nl_drain`.  There is no result where a read is not in the bytes received, and none
where the loop goes on for longer than `fuel` turns. -/
def nlDrainLoop (bytes : List UInt8) : Nat → Nat → Nat → List YzEvent → Option (List YzEvent)
  | 0, _, _, _ => none
  | fuel + 1, pos, remaining, seen =>
    if remaining < nlmsgHdrLen then some seen
    else (field bytes pos 4).bind fun len =>
      if len < nlmsgHdrLen ∨ remaining < len then some seen
      else (readEvent bytes pos len).bind fun events =>
        if remaining < nlmsgAlign len then some (seen ++ events)
        else nlDrainLoop bytes fuel (pos + nlmsgAlign len) (remaining - nlmsgAlign len)
          (seen ++ events)

/-- `nl_drain`: the events that it acts on, of a datagram that `recv` cuts off at the buffer. -/
def nlDrain (datagram : List UInt8) : Option (List YzEvent) :=
  let bytes := datagram.take bufLen
  nlDrainLoop bytes (bytes.length + 1) 0 bytes.length []

variable {bytes : List UInt8} {pos remaining fuel len : Nat}

/-! ## 3. Any datagram -/

theorem le_nlmsgAlign (len : Nat) : len ≤ nlmsgAlign len := by
  unfold nlmsgAlign
  omega

/-- An event is read inside of its message. -/
theorem readEvent_isSome (hlen : nlmsgHdrLen ≤ len) (h : pos + len ≤ bytes.length) :
    ∃ events, readEvent bytes pos len = some events := by
  unfold readEvent
  simp only [nlmsgHdrLen] at hlen
  rw [field_eq (by omega), Option.bind_some]
  split_ifs with hevent
  · simp only [eventLen, nlmsgHdrLen] at hevent
    rw [field_eq (by omega), field_eq (by omega), field_eq (by omega)]
    exact ⟨_, rfl⟩
  · exact ⟨_, rfl⟩

theorem loop_isSome (h : pos + remaining ≤ bytes.length) (hfuel : remaining < fuel)
    (seen : List YzEvent) :
    ∃ events, nlDrainLoop bytes fuel pos remaining seen = some (seen ++ events) := by
  induction fuel generalizing pos remaining seen with
  | zero => omega
  | succ fuel ih =>
    rw [nlDrainLoop]
    by_cases hshort : remaining < nlmsgHdrLen
    · exact ⟨[], by rw [if_pos hshort, List.append_nil]⟩
    · have hmore : 16 ≤ remaining := not_lt.mp hshort
      rw [if_neg hshort, field_eq (by omega), Option.bind_some]
      by_cases hbad : readAt pos 4 bytes < nlmsgHdrLen ∨ remaining < readAt pos 4 bytes
      · exact ⟨[], by rw [if_pos hbad, List.append_nil]⟩
      · rw [if_neg hbad]
        rw [not_or, not_lt, not_lt] at hbad
        obtain ⟨events, hevents⟩ := readEvent_isSome hbad.1 (show pos + _ ≤ bytes.length by omega)
        rw [hevents, Option.bind_some]
        split_ifs with hstep
        · exact ⟨events, rfl⟩
        · have hle := le_nlmsgAlign (readAt pos 4 bytes)
          simp only [nlmsgHdrLen] at hbad
          obtain ⟨rest, hrest⟩ := ih (show pos + nlmsgAlign (readAt pos 4 bytes) +
            (remaining - nlmsgAlign (readAt pos 4 bytes)) ≤ bytes.length by omega) (by omega)
            (seen ++ events)
          exact ⟨events ++ rest, by rw [hrest, List.append_assoc]⟩

/-- **A datagram of any content is safe.**  Whatever lengths its headers state, the daemon reads in
the bytes that it received only, and comes to an end. -/
theorem drain_reads (datagram : List UInt8) : ∃ events, nlDrain datagram = some events := by
  obtain ⟨events, h⟩ := loop_isSome (Nat.le_of_eq (Nat.zero_add (datagram.take bufLen).length))
    (Nat.lt_succ_self _) []
  exact ⟨events, h⟩

/-! ## 4. Datagrams of messages -/

theorem Message.length_bytes (m : Message) : m.bytes.length = nlmsgAlign m.len := by
  have hle := le_nlmsgAlign m.len
  simp only [bytes, List.length_append, length_toBytes, List.length_replicate]
  simp only [len, nlmsgHdrLen] at *
  omega

/-- The event that a message carries. -/
def Message.events (m : Message) : List YzEvent :=
  if m.type.toNat = nlMsgEvent ∧ eventLen ≤ m.len then
    [⟨UInt32.ofNat (readAt 0 4 m.payload), UInt32.ofNat (readAt 4 4 m.payload),
      UInt32.ofNat (readAt 8 4 m.payload)⟩]
  else []

/-- Reading in front of the end of a block. -/
theorem readAt_append {l l' : List UInt8} {offset w : Nat} (h : offset + w ≤ l.length) :
    readAt offset w (l ++ l') = readAt offset w l := by
  rw [readAt, readAt, List.drop_append_of_le_length (by omega), List.take_append_of_le_length]
  rw [List.length_drop]
  omega

/-- The header of a message, and its payload, are read as they were written. -/
theorem Message.reads (m : Message) (l l' : List UInt8) :
    readAt l.length 4 (l ++ (m.bytes ++ l')) = m.len ∧
      readAt (l.length + 4) 2 (l ++ (m.bytes ++ l')) = m.type.toNat ∧
      ∀ offset, offset + 4 ≤ m.payload.length →
        readAt (l.length + (16 + offset)) 4 (l ++ (m.bytes ++ l')) = readAt offset 4 m.payload := by
  have hskip : ∀ offset w, readAt (l.length + offset) w (l ++ (m.bytes ++ l')) =
      readAt offset w (m.bytes ++ l') := by
    intro offset w
    rw [readAt_skip (Nat.le_add_right ..), Nat.add_sub_cancel_left]
  have hfirst := hskip 0 4
  rw [Nat.add_zero] at hfirst
  refine ⟨?_, ?_, ?_⟩
  · rw [hfirst]
    simp only [bytes, List.append_assoc]
    exact readAt_here m.fits
  · rw [hskip]
    simp only [bytes, List.append_assoc]
    rw [readAt_next (le_refl 4), readAt_here m.type.toNat_lt]
  · intro offset hoffset
    have hzeros : (List.replicate 10 (0 : UInt8)).length = 10 := List.length_replicate ..
    rw [hskip]
    simp only [bytes, List.append_assoc]
    rw [readAt_next (by omega), readAt_next (by omega), readAt_skip (by omega), hzeros,
      readAt_append (by omega)]
    congr 1
    omega

theorem readEvent_bytes (m : Message) (l l' : List UInt8) :
    readEvent (l ++ (m.bytes ++ l')) l.length m.len = some m.events := by
  obtain ⟨-, htype, hpayload⟩ := m.reads l l'
  have hle := le_nlmsgAlign m.len
  have hlen : (l ++ (m.bytes ++ l')).length = l.length + nlmsgAlign m.len + l'.length := by
    simp only [List.length_append, m.length_bytes]
    omega
  have hhdr : nlmsgHdrLen ≤ m.len := Nat.le_add_right ..
  unfold readEvent Message.events
  simp only [nlmsgHdrLen] at hhdr
  rw [field_eq (by omega), Option.bind_some, htype]
  split_ifs with hevent
  · have hpay : 12 ≤ m.payload.length := by
      simp only [eventLen, Message.len] at hevent
      omega
    simp only [eventLen, nlmsgHdrLen] at hevent
    rw [field_eq (by omega), field_eq (by omega), field_eq (by omega)]
    have h₀ := hpayload 0 (by omega)
    have h₁ := hpayload 4 (by omega)
    have h₂ := hpayload 8 (by omega)
    simp only [Nat.add_zero, Nat.reduceAdd] at h₀ h₁ h₂
    simp only [Option.bind_some, Option.map_some, h₀, h₁, h₂]
  · rfl

/-- The walk over messages that were written. -/
theorem loop_bytes (ms : List Message) (l : List UInt8) (seen : List YzEvent)
    (hfuel : (ms.flatMap (·.bytes)).length < fuel) :
    nlDrainLoop (l ++ ms.flatMap (·.bytes)) fuel l.length (ms.flatMap (·.bytes)).length seen =
      some (seen ++ ms.flatMap (·.events)) := by
  induction ms generalizing l seen fuel with
  | nil =>
    cases fuel with
    | zero => cases hfuel
    | succ fuel => simp [nlDrainLoop, nlmsgHdrLen]
  | cons m ms ih =>
    cases fuel with
    | zero => cases hfuel
    | succ fuel =>
      obtain ⟨hlen, -, -⟩ := m.reads l (ms.flatMap (·.bytes))
      have hbytes := m.length_bytes
      have hle := le_nlmsgAlign m.len
      have hhdr : nlmsgHdrLen ≤ m.len := Nat.le_add_right ..
      have htotal : (m.bytes ++ ms.flatMap (·.bytes)).length =
          nlmsgAlign m.len + (ms.flatMap (·.bytes)).length := by
        rw [List.length_append, hbytes]
      rw [List.flatMap_cons] at hfuel ⊢
      rw [nlDrainLoop, htotal, if_neg (by omega), field_eq (by
        rw [List.length_append, htotal]
        simp only [nlmsgHdrLen] at hhdr
        omega), Option.bind_some, hlen, if_neg (by omega), readEvent_bytes, Option.bind_some,
        if_neg (by omega), Nat.add_sub_cancel_left]
      have hnext := ih (l ++ m.bytes) (seen ++ m.events) (show _ < fuel by
        simp only [nlmsgHdrLen] at hhdr
        omega)
      rw [List.length_append, hbytes, List.append_assoc, List.append_assoc] at hnext
      rw [hnext, List.flatMap_cons]

/-- **Every event arrives, in order.**  A datagram of messages that fits the buffer is read as the
events of its messages, one after the other; other messages are passed over, however long. -/
theorem drain_bytes (ms : List Message) (h : (ms.flatMap (·.bytes)).length ≤ bufLen) :
    nlDrain (ms.flatMap (·.bytes)) = some (ms.flatMap (·.events)) := by
  have hloop := loop_bytes ms [] [] (Nat.lt_succ_self _)
  unfold nlDrain
  simp only [List.take_of_length_le h]
  simpa using hloop

/-- The kernel's own messages carry the event that they were made for. -/
theorem events_emit (type pid appid : UInt32) :
    (yzZygoteNlEmitEvent type pid appid).events = [⟨type, pid, appid⟩] := by
  have hlt : ∀ x : UInt32, x.toNat < 256 ^ 4 := fun x => x.toNat_lt
  have hlen : eventLen ≤ (yzZygoteNlEmitEvent type pid appid).len := by
    simp only [Message.len, yzZygoteNlEmitEvent, YzEvent.bytes, List.length_append, length_toBytes]
    decide
  rw [Message.events, if_pos ⟨rfl, hlen⟩]
  simp (disch := first | exact hlt _ | decide) only [yzZygoteNlEmitEvent, YzEvent.bytes, readAt_here,
    readAt_next, readAt_last, Nat.reduceSub, UInt32.ofNat_toNat]

/-- A reload and a refresh of one user. -/
theorem drain_bytes_two :
    nlDrain ([yzZygoteNlEmitEvent evReload 0 0, yzZygoteNlEmitEvent evPolicyRefresh 1 10123].flatMap
      (·.bytes)) = some ([yzZygoteNlEmitEvent evReload 0 0,
        yzZygoteNlEmitEvent evPolicyRefresh 1 10123].flatMap (·.events)) :=
  drain_bytes _ (by decide)

end YukiZygisk.EventChannel
