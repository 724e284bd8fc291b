import DclProcessor.Library.Transition
import DclProcessor.Camera.Gvsp

/-!
`read_register` and `write_register`: a request is sent over the control socket, and the
first datagram of the size of an acknowledgement that comes within the time is taken for
the answer. Datagrams of the camera may be delayed, lost and come in another order.
-/

namespace DclProcessor.Camera

open Bytes Transition

/-- `GVCP_PACKET_TYPE_ACK` -/
def gvcpPacketTypeAck : Nat := 0x00

/-- Size of a header and of a register value. -/
def gvcpAckSize : Nat := 8 + 4

/-- `htons`, `htonl` -/
def beBytes (k n : Nat) : List UInt8 := (leBytes k n).reverse

/-- Type, flags, command, size and id, as in `struct gvcp_header`. -/
def gvcpHeader (command size packetId : Nat) : List UInt8 :=
  [0x42, 0x01] ++ beBytes 2 command ++ beBytes 2 size ++ beBytes 2 packetId

def gvcpReadRegisterPacket (regAddr packetId : Nat) : List UInt8 :=
  gvcpHeader 0x0080 4 packetId ++ beBytes 4 regAddr

def gvcpWriteRegisterPacket (regAddr regValue packetId : Nat) : List UInt8 :=
  gvcpHeader 0x0082 8 packetId ++ beBytes 4 regAddr ++ beBytes 4 regValue

/-- `header->id` -/
def gvcpId (packet : List UInt8) : List UInt8 := member packet 6 2

/-- The value that is in `*value` after `gvcp_register_ack`. -/
def gvcpRegisterAck (value : Nat) : Option (List UInt8) → Nat
  | none => value
  | some packet =>
    if leValue (member packet 0 1) = gvcpPacketTypeAck then beValue (member packet 8 4) else value

/-- A datagram of the camera; `req` tells which request it acknowledges. -/
structure Datagram where
  req : Nat
  bytes : List UInt8
  deriving DecidableEq

/-- A call that listens for its acknowledgement. -/
structure Call where
  req : Nat
  isRead : Bool
  rc : Int
  value : Nat
  deriving DecidableEq

/-- A call that has returned: what it took for its acknowledgement, and `*value`. -/
structure Result where
  call : Call
  packet : Option Datagram
  value : Nat
  deriving DecidableEq

/-- The control socket between the program and the camera. -/
structure Control where
  requests : Nat
  flight : List Datagram
  queue : List Datagram
  call : Option Call

def Control.start : Control := ⟨0, [], [], none⟩

/-- What the program and the network do. `written`: whether `write` succeeds; `answer`: what
the camera sends for the request, if anything. -/
inductive Action
  | readRegister (regAddr value packetId : Nat) (written : Bool) (answer : Option (List UInt8))
  | writeRegister (regAddr value packetId : Nat) (written : Bool) (answer : Option (List UInt8))
  | arrive (i : Nat)
  | lose (i : Nat)
  | recvfrom
  | timeout
  | fail

namespace Datagram

/-- `bytes == packet_size`; a shorter one is passed over. -/
def whole (d : Datagram) : Bool := gvcpAckSize ≤ d.bytes.length

def isAck (d : Datagram) : Bool := leValue (member d.bytes 0 1) = gvcpPacketTypeAck

/-- The acknowledgement of the very request. -/
def Answers (d : Datagram) (c : Call) : Prop := d.req = c.req ∧ d.isAck = true

end Datagram

/-- The result of `write` is what the call returns. -/
def Call.finish (c : Call) (packet : Option Datagram) : Result where
  call := c
  packet := packet
  value := gvcpRegisterAck c.value (packet.map (·.bytes))

namespace Control

/-- A call begins: the request is written, and the camera answers it with its id. -/
def request (s : Control) (isRead : Bool) (packet : List UInt8) (value : Nat) (written : Bool)
    (answer : Option (List UInt8)) : Option Control :=
  if s.call.isNone ∧ (answer.isSome → written) ∧
      answer.all (fun bytes => bytes.length < 8 || gvcpId bytes = gvcpId packet) then
    some { s with
      requests := s.requests + 1
      flight := s.flight ++ (answer.map (Datagram.mk s.requests)).toList
      call := some ⟨s.requests, isRead, if written then packet.length else -1, value⟩ }
  else none

def step (s : Control) : Action → Option Control
  | .readRegister regAddr value packetId written answer =>
    s.request true (gvcpReadRegisterPacket regAddr packetId) value written answer
  | .writeRegister regAddr value packetId written answer =>
    s.request false (gvcpWriteRegisterPacket regAddr value packetId) value written answer
  | .arrive i => (s.flight[i]?).map fun d =>
      { s with flight := s.flight.eraseIdx i, queue := s.queue ++ [d] }
  | .lose i => (s.flight[i]?).map fun _ => { s with flight := s.flight.eraseIdx i }
  | .recvfrom => s.call.bind fun _ =>
      match s.queue with
      | [] => none
      | d :: queue =>
        if d.whole then some { s with queue := queue, call := none }
        else some { s with queue := queue }
  | .timeout => s.call.bind fun _ =>
      if s.queue.isEmpty then some { s with call := none } else none
  | .fail => s.call.map fun _ => { s with call := none }

/-- What `listen_packet_ack_new` has found, once it has returned. -/
def returned (s : Control) : Action → List Result
  | .recvfrom => s.call.toList.flatMap fun c => match s.queue with
      | [] => []
      | d :: _ => if d.whole then [c.finish (some d)] else []
  | .timeout => s.call.toList.map (·.finish none)
  | .fail => s.call.toList.map (·.finish none)
  | _ => []

end Control

def gvcp : System Control Action Result where
  step := Control.step
  emit := Control.returned

/-- A `read_register` reports failure, or stores the value that the acknowledgement of its
own request carries. -/
def Result.Matched (r : Result) : Prop :=
  r.call.isRead = true → r.call.rc < 0 ∨
    ∃ d, r.packet = some d ∧ d.Answers r.call ∧ r.value = beValue (member d.bytes 8 4)

/-- A `read_register` whose request was sent. -/
def Call.Awaits (c : Call) : Prop := c.isRead = true ∧ 0 ≤ c.rc

/-- The acknowledgement of a sent request comes in time: nothing that could be taken for it
waits in the socket, it is the first to arrive, and it arrives before the time is over. -/
def InTime (s : Control) : Action → Prop
  | .readRegister _ _ _ written _ => written = true → ∀ d ∈ s.queue, d.whole = false
  | .arrive i => ∀ c, s.call = some c → c.Awaits → (∀ d ∈ s.queue, d.whole = false) →
      ∀ d, s.flight[i]? = some d → d.whole = true → d.Answers c
  | .timeout => ∀ c, s.call = some c → ¬ c.Awaits
  | .fail => ∀ c, s.call = some c → ¬ c.Awaits
  | _ => True

/-- The requests in the sockets are earlier ones. -/
structure Control.Numbered (s : Control) : Prop where
  flight : ∀ d ∈ s.flight, d.req < s.requests
  queue : ∀ d ∈ s.queue, d.req < s.requests

/-- What the call in progress will take for its acknowledgement is not it. -/
def Control.Misled (s : Control) : Prop :=
  ∃ c, s.call = some c ∧ c.Awaits ∧ ∃ d, s.queue.find? (·.whole) = some d ∧ ¬ d.Answers c

/-- A call has gone wrong, or the one in progress will. -/
def AtFault (results : List Result) (s : Control) : Prop :=
  (∃ r ∈ results, ¬ r.Matched) ∨ s.Misled

theorem finish_matched (c : Call) (packet : Option Datagram) :
    (c.finish packet).Matched ↔ (c.Awaits → ∃ d, packet = some d ∧ d.Answers c) := by
  constructor
  · rintro h ⟨hread, hrc⟩
    rcases h hread with hneg | ⟨d, hd, hans, -⟩
    · exact absurd hneg (not_lt.mpr hrc)
    · exact ⟨d, hd, hans⟩
  · intro h hread
    by_cases hrc : c.rc < 0
    · exact Or.inl hrc
    · obtain ⟨d, rfl, hans⟩ := h ⟨hread, not_lt.mp hrc⟩
      have hack : leValue (member d.bytes 0 1) = gvcpPacketTypeAck := by
        simpa [Datagram.isAck] using hans.2
      exact Or.inr ⟨d, rfl, hans, if_pos hack⟩

variable {s s' : Control} {results : List Result}

theorem atFault_finish (results : List Result) (c : Call) (packet : Option Datagram) :
    AtFault (results ++ [c.finish packet]) { s with call := none } ↔
      (∃ r ∈ results, ¬ r.Matched) ∨ (c.Awaits ∧ ∀ d, packet = some d → ¬ d.Answers c) := by
  have hnone : ¬ Control.Misled { s with call := none } := by
    rintro ⟨c, hc, -⟩
    cases hc
  have hlast : ¬ (c.finish packet).Matched ↔
      c.Awaits ∧ ∀ d, packet = some d → ¬ d.Answers c := by
    rw [finish_matched, Classical.not_imp]
    exact and_congr_right fun _ => by simp
  rw [AtFault, or_iff_left hnone, ← hlast]
  simp [or_and_right, exists_or]

theorem not_misled_of_idle (h : s.call = none) : ¬ s.Misled := by
  rintro ⟨c, hc, -⟩
  rw [h] at hc
  cases hc

/-- A new call is misled by a whole datagram that is already there, as that can only
acknowledge an earlier request. -/
theorem request_step (results : List Result) {isRead written : Bool} {packet : List UInt8}
    {value : Nat} {answer : Option (List UInt8)} (hn : s.Numbered)
    (h : s.request isRead packet value written answer = some s') :
    s'.Numbered ∧ (AtFault results s' ↔
      AtFault results s ∨ ¬ (isRead = true → written = true → ∀ d ∈ s.queue, d.whole = false)) := by
  rw [Control.request] at h
  split at h
  case isFalse => cases h
  case isTrue hguard =>
    obtain ⟨hidle, -, -⟩ := hguard
    cases h
    refine ⟨⟨fun d hd => ?_, fun d hd => Nat.lt_succ_of_lt (hn.queue d hd)⟩, ?_⟩
    · rcases List.mem_append.mp hd with hold | hnew
      · exact Nat.lt_succ_of_lt (hn.flight d hold)
      · cases answer with
        | none => cases hnew
        | some bytes =>
          obtain rfl : d = ⟨s.requests, bytes⟩ := by simpa using hnew
          exact Nat.lt_succ_self _
    · have hquiet : ¬ s.Misled := not_misled_of_idle (by simpa using hidle)
      rw [AtFault, AtFault, or_iff_left hquiet]
      refine or_congr_right ?_
      constructor
      · rintro ⟨c, hc, ⟨hread, hrc⟩, d, hd, -⟩ hall
        cases hc
        cases written with
        | false => simp at hrc
        | true =>
          have hwhole := List.find?_some hd
          rw [hall hread rfl d (List.mem_of_find?_eq_some hd)] at hwhole
          cases hwhole
      · intro hnot
        push Not at hnot
        obtain ⟨hread, hwritten, d, hd, hwhole⟩ := hnot
        have hsome : (s.queue.find? (·.whole)).isSome = true :=
          List.find?_isSome.mpr ⟨d, hd, by simpa using hwhole⟩
        obtain ⟨d', hd'⟩ := Option.isSome_iff_exists.mp hsome
        refine ⟨_, rfl, ⟨hread, ?_⟩, d', hd', fun hans => ?_⟩
        · simp [hwritten]
        · have hreq := hn.queue d' (List.mem_of_find?_eq_some hd')
          have hsame : d'.req = s.requests := hans.1
          omega

/-- A datagram arrives behind those that are there. -/
theorem arrive_step {i : Nat} {d : Datagram} (hd : s.flight[i]? = some d) :
    Control.Misled { s with flight := s.flight.eraseIdx i, queue := s.queue ++ [d] } ↔
      s.Misled ∨ ¬ InTime s (.arrive i) := by
  cases hcall : s.call with
  | none =>
    have hquiet : ¬ s.Misled := not_misled_of_idle hcall
    have htime : InTime s (.arrive i) := fun c hc => by
      rw [hcall] at hc
      cases hc
    simp only [hquiet, htime, not_true_eq_false, or_false, iff_false]
    exact not_misled_of_idle rfl
  | some c =>
    have hfind : (s.queue ++ [d]).find? (·.whole) =
        (s.queue.find? (·.whole)).or (if d.whole then some d else none) := by
      rw [List.find?_append]
      cases hw : d.whole <;> simp [hw]
    simp only [Control.Misled, InTime, hcall, hfind, Option.some.injEq, exists_eq_left', hd,
      forall_eq']
    cases hqueue : s.queue.find? (·.whole) with
    | some d' =>
      have hmem := List.mem_of_find?_eq_some hqueue
      have hwhole : d'.whole = true := by simpa using List.find?_some hqueue
      have hnot : ¬ ∀ d ∈ s.queue, d.whole = false := fun hall => by
        rw [hall d' hmem] at hwhole
        cases hwhole
      simp [hnot]
    | none =>
      have hall : ∀ d ∈ s.queue, d.whole = false := by simpa using List.find?_eq_none.mp hqueue
      cases hw : d.whole <;> simp [iff_true_intro hall]

/-- The end of a call without an acknowledgement. -/
theorem none_step {c : Call} (hcall : s.call = some c) :
    AtFault (results ++ [c.finish none]) { s with call := none } ↔
      AtFault results s ∨ ¬ ∀ c', s.call = some c' → ¬ c'.Awaits := by
  rw [atFault_finish, AtFault, or_assoc]
  refine or_congr_right ?_
  simp only [hcall, Option.some.injEq, forall_eq', Control.Misled, exists_eq_left', not_not]
  constructor
  · rintro ⟨hawaits, -⟩
    exact Or.inr hawaits
  · rintro (⟨hawaits, -⟩ | hawaits) <;> exact ⟨hawaits, fun _ hd => by cases hd⟩

/-- A datagram is taken, or passed over if it is too short. -/
theorem recvfrom_step (results : List Result) (hn : s.Numbered) (h : s.step .recvfrom = some s') :
    s'.Numbered ∧ (AtFault (results ++ s.returned .recvfrom) s' ↔ AtFault results s) := by
  obtain ⟨c, hcall, h⟩ := Option.bind_eq_some_iff.mp h
  cases hqueue : s.queue with
  | nil =>
    rw [hqueue] at h
    cases h
  | cons d queue =>
    rw [hqueue] at h
    have hn' : ∀ d' ∈ queue, d'.req < s.requests := fun d' hd' =>
      hn.queue d' (by rw [hqueue]; exact List.mem_cons_of_mem _ hd')
    cases hw : d.whole with
    | true =>
      have hs' : s' = { s with queue := queue, call := none } := by simpa [hw] using h.symm
      have hret : s.returned .recvfrom = [c.finish (some d)] := by
        simp [Control.returned, hcall, hqueue, hw]
      have hfind : s.queue.find? (·.whole) = some d := by
        rw [hqueue]
        exact List.find?_cons_of_pos hw
      subst hs'
      refine ⟨⟨hn.flight, hn'⟩, ?_⟩
      have hfinish := atFault_finish (s := { s with queue := queue }) results c (some d)
      rw [hret, hfinish, AtFault]
      simp [Control.Misled, hcall, hfind]
    | false =>
      have hs' : s' = { s with queue := queue } := by simpa [hw] using h.symm
      have hret : s.returned .recvfrom = [] := by
        simp [Control.returned, hcall, hqueue, hw]
      have hfind : s.queue.find? (·.whole) = queue.find? (·.whole) := by
        rw [hqueue]
        exact List.find?_cons_of_neg (by simp [hw])
      subst hs'
      refine ⟨⟨hn.flight, hn'⟩, ?_⟩
      rw [hret, List.append_nil, AtFault, AtFault, Control.Misled, Control.Misled, hfind]

/-- One step leads to a fault exactly when it is not in time. -/
theorem atFault_step {a : Action} (hn : s.Numbered) (h : s.step a = some s') :
    s'.Numbered ∧
      (AtFault (results ++ s.returned a) s' ↔ AtFault results s ∨ ¬ InTime s a) := by
  cases a with
  | readRegister regAddr value packetId written answer =>
    obtain ⟨hn', hiff⟩ := request_step results hn h
    have hnil : results ++ s.returned (.readRegister regAddr value packetId written answer) =
        results := List.append_nil _
    rw [hnil, hiff]
    simp [hn', InTime]
  | writeRegister regAddr value packetId written answer =>
    obtain ⟨hn', hiff⟩ := request_step results hn h
    have hnil : results ++ s.returned (.writeRegister regAddr value packetId written answer) =
        results := List.append_nil _
    rw [hnil, hiff]
    simp [hn', InTime]
  | arrive i =>
    obtain ⟨d, hd, rfl⟩ := Option.map_eq_some_iff.mp h
    refine ⟨⟨fun d' hd' => hn.flight d' (List.mem_of_mem_eraseIdx hd'), fun d' hd' => ?_⟩, ?_⟩
    · rcases List.mem_append.mp hd' with hold | hnew
      · exact hn.queue d' hold
      · obtain rfl : d' = d := by simpa using hnew
        exact hn.flight d' (List.mem_of_getElem? hd)
    · have hnil : results ++ s.returned (.arrive i) = results := List.append_nil _
      rw [hnil, AtFault, AtFault, arrive_step hd, or_assoc]
  | lose i =>
    obtain ⟨d, -, rfl⟩ := Option.map_eq_some_iff.mp h
    refine ⟨⟨fun d' hd' => hn.flight d' (List.mem_of_mem_eraseIdx hd'), hn.queue⟩, ?_⟩
    have hnil : results ++ s.returned (.lose i) = results := List.append_nil _
    rw [hnil]
    simp [InTime, AtFault, Control.Misled]
  | recvfrom =>
    obtain ⟨hn', hiff⟩ := recvfrom_step results hn h
    exact ⟨hn', by rw [hiff]; simp [InTime]⟩
  | timeout =>
    obtain ⟨c, hcall, h⟩ := Option.bind_eq_some_iff.mp h
    have hret : s.returned .timeout = [c.finish none] := by simp [Control.returned, hcall]
    split at h
    case isFalse => cases h
    case isTrue =>
      cases h
      rw [hret]
      exact ⟨⟨hn.flight, hn.queue⟩, none_step hcall⟩
  | fail =>
    obtain ⟨c, hcall, rfl⟩ := Option.map_eq_some_iff.mp h
    have hret : s.returned .fail = [c.finish none] := by simp [Control.returned, hcall]
    rw [hret]
    exact ⟨⟨hn.flight, hn.queue⟩, none_step hcall⟩

/-- **Replies are matched to their requests** in every run in which each acknowledgement that
a `read_register` waits for comes in time; and in no other, once its calls have returned. -/
theorem matched_iff {as : List Action} (h : gvcp.run as .start = some (results, s)) :
    (gvcp.Meets InTime as .start → ∀ r ∈ results, r.Matched) ∧
      (s.call = none → (∀ r ∈ results, r.Matched) → gvcp.Meets InTime as .start) := by
  have hstart : Control.start.Numbered := ⟨by simp [Control.start], by simp [Control.start]⟩
  have hquiet : ¬ AtFault [] .start := by
    rintro (⟨r, hr, -⟩ | ⟨c, hc, -⟩)
    · cases hr
    · cases hc
  have hstep : ∀ es s a s', Control.Numbered s → gvcp.step s a = some s' → s'.Numbered ∧
      (AtFault (es ++ gvcp.emit s a) s' ↔ AtFault es s ∨ ¬ InTime s a) :=
    fun _ _ _ _ hn hs => atFault_step hn hs
  have hfault : AtFault ([] ++ results) s ↔ AtFault [] .start ∨ ¬ gvcp.Meets InTime as .start :=
    fault_iff hstep hstart h
  rw [List.nil_append, or_iff_right hquiet] at hfault
  constructor
  · intro hmeets r hr
    by_contra hwrong
    exact hfault.mp (Or.inl ⟨r, hr, hwrong⟩) hmeets
  · intro hidle hall
    by_contra hnot
    rcases hfault.mpr hnot with ⟨r, hr, hwrong⟩ | hmisled
    · exact hwrong (hall r hr)
    · exact not_misled_of_idle hidle hmisled

/-- An acknowledgement of `packet` with the value of a register. -/
def ackBytes (packet : List UInt8) (value : Nat) : List UInt8 :=
  [0x00, 0x00, 0x00, 0x81, 0x00, 0x04] ++ gvcpId packet ++ beBytes 4 value

/-- A register is read, and the acknowledgement comes. -/
def promptRead : List Action :=
  [.readRegister 0x938 0 0xf001 true (some (ackBytes (gvcpReadRegisterPacket 0x938 0xf001) 7)),
    .arrive 0, .recvfrom]

theorem promptRead_runs : (gvcp.run promptRead .start).isSome = true := by decide

theorem matched_iff_promptRead :
    (gvcp.Meets InTime promptRead .start →
        ∀ r ∈ ((gvcp.run promptRead .start).get promptRead_runs).1, r.Matched) ∧
      (((gvcp.run promptRead .start).get promptRead_runs).2.call = none →
        (∀ r ∈ ((gvcp.run promptRead .start).get promptRead_runs).1, r.Matched) →
        gvcp.Meets InTime promptRead .start) :=
  matched_iff (Option.some_get promptRead_runs).symm

/-- The acknowledgement of the first request comes when its time is over, and is taken for
that of the second. -/
def lateAck : List Action :=
  [.readRegister 0x938 0 0xf001 true (some (ackBytes (gvcpReadRegisterPacket 0x938 0xf001) 7)),
    .timeout, .arrive 0,
    .readRegister 0x93c 0 0xf002 true (some (ackBytes (gvcpReadRegisterPacket 0x93c 0xf002) 9)),
    .recvfrom]

theorem lateAck_runs : (gvcp.run lateAck .start).isSome = true := by decide

/-- The second call returns the size written and the value of the first register. -/
theorem earlier_value_stored : ∃ r ∈ ((gvcp.run lateAck .start).get lateAck_runs).1,
    ¬ r.Matched ∧ r.call.req = 1 ∧ r.call.rc = 12 ∧ r.value = 7 := by
  refine ⟨⟨⟨1, true, 12, 0⟩, some ⟨0, ackBytes (gvcpReadRegisterPacket 0x938 0xf001) 7⟩, 7⟩,
    by decide, ?_, rfl, rfl, rfl⟩
  intro h
  rcases h rfl with hneg | ⟨d, hd, hans, -⟩
  · exact absurd hneg (by decide)
  · cases hd
    exact absurd hans.1 (by decide)

end DclProcessor.Camera
