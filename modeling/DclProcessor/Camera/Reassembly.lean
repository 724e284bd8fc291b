import DclProcessor.Camera.Gvsp
import Mathlib.Data.List.Chain

/-!
What the thread delivers of a stream whose frames come one after the other, compared
with the payload bytes that were received.
-/

namespace DclProcessor.Camera

open Bytes

/-- A packet as it is received: its header is there, and it fits into the buffer. -/
structure GvspPacket (packetSize : Nat) where
  bytes : List UInt8
  header_le : packetDataOffset bytes ≤ bytes.length
  length_le : bytes.length ≤ packetSize

namespace GvspPacket

variable {packetSize : Nat}

/-- A block of image data, not reported as an error. -/
def isDataBlock (p : GvspPacket packetSize) : Bool :=
  packetGetPacketType p.bytes ≠ packetTypeError && packetGetContentType p.bytes = .dataBlock

/-- The payload bytes that were received. -/
def payload (p : GvspPacket packetSize) : List UInt8 := packetGetData p.bytes

/-- The size that is copied for a block. -/
def room (p : GvspPacket packetSize) : Nat := packetSize - packetDataOffset p.bytes

end GvspPacket

section Packets

variable {packetSize : Nat}

def blocks (ps : List (GvspPacket packetSize)) : List (GvspPacket packetSize) :=
  ps.filter (·.isDataBlock)

def payloadOf (ps : List (GvspPacket packetSize)) : List UInt8 :=
  (blocks ps).flatMap (·.payload)

def roomOf (ps : List (GvspPacket packetSize)) : Nat := ((blocks ps).map (·.room)).sum

/-- Every block has the length of the buffer. -/
def AllFull (ps : List (GvspPacket packetSize)) : Prop :=
  ∀ p ∈ blocks ps, p.bytes.length = packetSize

/-- Only full blocks, and no more bytes than a frame may have. -/
structure FullFrame (ps : List (GvspPacket packetSize)) : Prop where
  full : AllFull ps
  fits : (payloadOf ps).length ≤ maxFrameSize

/-- The thread reads the same id from all these packets. -/
structure ReadAs (id : Nat) (ps : List (GvspPacket packetSize)) : Prop where
  ne_nil : ps ≠ []
  ne_zero : id ≠ 0
  frameId_eq : ∀ p ∈ ps, packetGetFrameId p.bytes = id

end Packets

/-- The id of a packet. Both headers have it in network order. -/
def networkFrameId (packet : List UInt8) : Nat :=
  if packetHasExtendedIds packet then beValue (member packet 8 8) else beValue (member packet 2 2)

/-- The packets of one frame, in the order of their arrival. -/
structure CameraFrame (packetSize : Nat) where
  id : Nat
  packets : List (GvspPacket packetSize)
  id_ne_zero : id ≠ 0
  packets_ne_nil : packets ≠ []
  frameId_eq : ∀ p ∈ packets, networkFrameId p.bytes = id

variable {packetSize : Nat}

namespace CameraFrame

/-- What `new_frame_action` should be given for a frame. -/
def expected (f : CameraFrame packetSize) : Iframe := ⟨f.id, payloadOf f.packets⟩

/-- What the thread reads as the id of the first packet. -/
def codeId (f : CameraFrame packetSize) : Nat :=
  packetGetFrameId (f.packets.head f.packets_ne_nil).bytes

/-- All packets have standard headers, or all have extended ones. -/
def OneHeader (f : CameraFrame packetSize) : Prop :=
  ∃ extended, ∀ p ∈ f.packets, packetHasExtendedIds p.bytes = extended

end CameraFrame

def run (packetSize : Nat) (t : Thread) (ps : List (GvspPacket packetSize)) : Thread :=
  ps.foldl (fun t p => t.receive packetSize p.bytes) t

section Payload

variable {p : GvspPacket packetSize} {ps : List (GvspPacket packetSize)}

theorem offset_bounds (packet : List UInt8) :
    8 ≤ packetDataOffset packet ∧ packetDataOffset packet ≤ 20 := by
  unfold packetDataOffset
  split <;> omega

theorem payload_length (p : GvspPacket packetSize) :
    p.payload.length = p.bytes.length - packetDataOffset p.bytes := by
  simp [GvspPacket.payload, packetGetData]

theorem payload_le_room (p : GvspPacket packetSize) : p.payload.length ≤ p.room := by
  have hlength := p.length_le
  rw [payload_length, GvspPacket.room]
  omega

theorem payload_eq_room_iff : p.payload.length = p.room ↔ p.bytes.length = packetSize := by
  have hlength := p.length_le
  have hheader := p.header_le
  rw [payload_length, GvspPacket.room]
  omega

@[simp] theorem blocks_append (ps qs : List (GvspPacket packetSize)) :
    blocks (ps ++ qs) = blocks ps ++ blocks qs := List.filter_append ..

@[simp] theorem payloadOf_append (ps qs : List (GvspPacket packetSize)) :
    payloadOf (ps ++ qs) = payloadOf ps ++ payloadOf qs := by
  simp [payloadOf]

@[simp] theorem roomOf_append (ps qs : List (GvspPacket packetSize)) :
    roomOf (ps ++ qs) = roomOf ps + roomOf qs := by
  simp [roomOf]

theorem allFull_append {ps qs : List (GvspPacket packetSize)} :
    AllFull (ps ++ qs) ↔ AllFull ps ∧ AllFull qs := by
  simp [AllFull, or_imp, forall_and]

theorem blocks_block (h : p.isDataBlock = true) : blocks [p] = [p] := by simp [blocks, h]

theorem blocks_other (h : p.isDataBlock = false) : blocks [p] = [] := by simp [blocks, h]

/-- The payload of some packets is as long as the room for their blocks only if all are
full. -/
theorem payloadOf_length (ps : List (GvspPacket packetSize)) :
    (payloadOf ps).length ≤ roomOf ps ∧ ((payloadOf ps).length = roomOf ps ↔ AllFull ps) := by
  induction ps with
  | nil => simp [payloadOf, roomOf, AllFull, blocks]
  | cons p ps ih =>
    obtain ⟨hle, hiff⟩ := ih
    have hsplit : p :: ps = [p] ++ ps := rfl
    rw [hsplit, payloadOf_append, roomOf_append, allFull_append, List.length_append, ← hiff]
    cases hblock : p.isDataBlock with
    | false =>
      have hpayload : payloadOf [p] = [] := by simp [payloadOf, blocks_other hblock]
      have hroomOf : roomOf [p] = 0 := by simp [roomOf, blocks_other hblock]
      have hfull : AllFull [p] := by simp [AllFull, blocks_other hblock]
      rw [hpayload, hroomOf, List.length_nil, Nat.zero_add, Nat.zero_add]
      exact ⟨hle, (and_iff_right hfull).symm⟩
    | true =>
      have hroom := payload_le_room p
      have hfull : AllFull [p] ↔ p.payload.length = p.room := by
        simp [AllFull, blocks_block hblock, payload_eq_room_iff]
      have hpayload : payloadOf [p] = p.payload := by simp [payloadOf, blocks_block hblock]
      have hroomOf : roomOf [p] = p.room := by simp [roomOf, blocks_block hblock]
      rw [hfull, hpayload, hroomOf]
      omega

end Payload

section Header

variable {bytes rest : List UInt8}

theorem member_append {off len : Nat} (h : off + len ≤ bytes.length) :
    member (bytes ++ rest) off len = member bytes off len := by
  rw [member, member, List.drop_append_of_le_length (by omega),
    List.take_append_of_le_length (by rw [List.length_drop]; omega)]

/-- What is left in the buffer behind a packet does not reach its header. -/
theorem header_append (h : packetDataOffset bytes ≤ bytes.length) :
    packetDataOffset (bytes ++ rest) = packetDataOffset bytes ∧
    packetGetFrameId (bytes ++ rest) = packetGetFrameId bytes ∧
    packetGetPacketType (bytes ++ rest) = packetGetPacketType bytes ∧
    packetGetContentType (bytes ++ rest) = packetGetContentType bytes := by
  have hoffset := offset_bounds bytes
  have hext : packetHasExtendedIds (bytes ++ rest) = packetHasExtendedIds bytes := by
    rw [packetHasExtendedIds, packetHasExtendedIds, member_append (by omega)]
  refine ⟨?_, ?_, ?_, ?_⟩
  · rw [packetDataOffset, packetDataOffset, hext]
  · rw [packetGetFrameId, packetGetFrameId, hext]
    cases hb : packetHasExtendedIds bytes with
    | false =>
      rw [if_neg Bool.false_ne_true, if_neg Bool.false_ne_true, member_append (by omega)]
    | true =>
      have hlong : 20 ≤ bytes.length := by simpa [packetDataOffset, hb] using h
      have hid : member (bytes ++ rest) 8 8 = member bytes 8 8 := member_append (by omega)
      rw [hid, if_pos rfl, if_pos rfl]
  · rw [packetGetPacketType, packetGetPacketType, member_append (by omega)]
  · rw [packetGetContentType, packetGetContentType, member_append (by omega)]

end Header

/-- The thread while it receives frame `id`, of which it has got `ps`; `out` was delivered
before. -/
structure Filled (packetSize : Nat) (t : Thread) (id : Nat) (ps : List (GvspPacket packetSize))
    (out : List Iframe) : Prop where
  packet : t.packet.length = packetSize
  lastFrameId : t.lastFrameId = id
  isStarted : t.isStarted = true
  nPackets : t.nPackets = 0
  delivered : t.delivered = out
  overrun : t.overrun = true → maxFrameSize < roomOf ps
  buffer : t.overrun = false → t.iframe.buffer.length = roomOf ps ∧ roomOf ps ≤ maxFrameSize ∧
    (AllFull ps → t.iframe.buffer = payloadOf ps)

variable {t : Thread} {id : Nat} {ps : List (GvspPacket packetSize)} {out : List Iframe}

/-- The buffer after `recvfrom`. -/
theorem recvfrom_packet (t : Thread) (p : GvspPacket packetSize) :
    (t.recvfrom packetSize p.bytes).packet = p.bytes ++ t.packet.drop p.bytes.length := by
  rw [Thread.recvfrom, List.take_of_length_le p.length_le]
  simp [overwrite]

/-- A received packet with what is left behind it. -/
structure Holds (packetSize : Nat) (packet : List UInt8) (p : GvspPacket packetSize) : Prop where
  offset : packetDataOffset packet = packetDataOffset p.bytes
  frameId : packetGetFrameId packet = packetGetFrameId p.bytes
  packetType : packetGetPacketType packet = packetGetPacketType p.bytes
  contentType : packetGetContentType packet = packetGetContentType p.bytes
  length : packet.length = packetSize
  full : p.bytes.length = packetSize → packet = p.bytes

theorem holds_recvfrom (ht : t.packet.length = packetSize) (p : GvspPacket packetSize) :
    Holds packetSize (t.recvfrom packetSize p.bytes).packet p := by
  have hlength := p.length_le
  rw [recvfrom_packet]
  obtain ⟨hoffset, hid, htype, hcontent⟩ := header_append p.header_le
  refine ⟨hoffset, hid, htype, hcontent, ?_, fun hfull => ?_⟩
  · rw [List.length_append, List.length_drop]
    omega
  · rw [List.drop_eq_nil_of_le (by omega), List.append_nil]

/-- What is appended for a block: as many bytes as there is room for, and its payload if
it is full. -/
theorem Holds.data {packet : List UInt8} {p : GvspPacket packetSize}
    (h : Holds packetSize packet p) (hsize : packetSize < 2 ^ 32) :
    packetGetDataSize packet packetSize = p.room ∧ (packetGetData packet).length = p.room ∧
      (p.bytes.length = packetSize → packetGetData packet = p.payload) := by
  have hheader := p.header_le
  have hlength := p.length_le
  refine ⟨?_, ?_, fun hfull => ?_⟩
  · rw [packetGetDataSize, h.offset, GvspPacket.room]
    omega
  · rw [packetGetData, List.length_drop, h.offset, h.length, GvspPacket.room]
  · rw [h.full hfull, GvspPacket.payload]

section Handle

variable {p : GvspPacket packetSize}

/-- As `n_packets` stays 0, no packet is taken for a duplicate. -/
theorem handlePacket_eq (hstarted : t.isStarted = true) (hn : t.nPackets = 0) :
    t.handlePacket packetSize =
      if packetGetPacketType t.packet = packetTypeError then
        { t with nErrorPackets := t.nErrorPackets + 1 }
      else match packetGetContentType t.packet with
        | .dataLeader => t
        | .dataBlock => t.appendBlock packetSize
        | .dataTrailer => t
        | _ => { t with nIgnoredPackets := t.nIgnoredPackets + 1 } := by
  have hnone : ¬ packetGetPacketId t.packet < t.nPackets := by omega
  cases hcontent : packetGetContentType t.packet <;>
    simp [Thread.handlePacket, hstarted, hnone, hcontent]

theorem handlePacket_block (hstarted : t.isStarted = true) (hn : t.nPackets = 0)
    (hp : Holds packetSize t.packet p) (hblock : p.isDataBlock = true) :
    t.handlePacket packetSize = t.appendBlock packetSize := by
  simp only [GvspPacket.isDataBlock, ne_eq, Bool.and_eq_true, decide_eq_true_eq] at hblock
  rw [handlePacket_eq hstarted hn, hp.packetType, hp.contentType, if_neg hblock.1, hblock.2]

/-- A packet that is no data block only counts. -/
theorem handlePacket_other (hstarted : t.isStarted = true) (hn : t.nPackets = 0)
    (hp : Holds packetSize t.packet p) (hblock : p.isDataBlock = false) :
    ∃ errors ignored, t.handlePacket packetSize =
      { t with nErrorPackets := errors, nIgnoredPackets := ignored } := by
  rw [handlePacket_eq hstarted hn, hp.packetType, hp.contentType]
  by_cases herror : packetGetPacketType p.bytes = packetTypeError
  · exact ⟨_, _, if_pos herror⟩
  · rw [if_neg herror]
    cases hcontent : packetGetContentType p.bytes with
    | dataBlock => simp [GvspPacket.isDataBlock, herror, hcontent] at hblock
    | dataLeader | dataTrailer => exact ⟨t.nErrorPackets, t.nIgnoredPackets, rfl⟩
    | allIn | other => exact ⟨_, _, rfl⟩

/-- One more packet of the frame. -/
theorem filled_handlePacket (hsize : packetSize < 2 ^ 32) (h : Filled packetSize t id ps out)
    (hover : t.overrun = false) (hp : Holds packetSize t.packet p) :
    Filled packetSize (t.handlePacket packetSize) id (ps ++ [p]) out := by
  obtain ⟨hpacket, hlast, hstarted, hn, hout, -, hbuffer⟩ := h
  obtain ⟨hlen, hfits, hpayload⟩ := hbuffer hover
  cases hblock : p.isDataBlock with
  | false =>
    have hroom : roomOf (ps ++ [p]) = roomOf ps := by simp [roomOf, blocks_other hblock]
    have hbytes : payloadOf (ps ++ [p]) = payloadOf ps := by
      simp [payloadOf, blocks_other hblock]
    obtain ⟨errors, ignored, heq⟩ := handlePacket_other hstarted hn hp hblock
    rw [heq]
    refine ⟨hpacket, hlast, hstarted, hn, hout, fun htrue => ?_, fun _ => ?_⟩
    · exact absurd (hover.symm.trans htrue) Bool.false_ne_true
    · rw [hroom, hbytes]
      exact ⟨hlen, hfits, fun hall => hpayload (allFull_append.mp hall).1⟩
  | true =>
    have hroom : roomOf (ps ++ [p]) = roomOf ps + p.room := by simp [roomOf, blocks_block hblock]
    have hbytes : payloadOf (ps ++ [p]) = payloadOf ps ++ p.payload := by
      simp [payloadOf, blocks_block hblock]
    have hfull : AllFull [p] ↔ p.bytes.length = packetSize := by
      simp [AllFull, blocks_block hblock]
    obtain ⟨hdata, hdataLen, hdataFull⟩ := hp.data hsize
    rw [handlePacket_block hstarted hn hp hblock]
    simp only [Thread.appendBlock, hdata, List.take_of_length_le hdataLen.le]
    split
    · rename_i hroomLeft
      refine ⟨hpacket, hlast, hstarted, hn, hout, fun htrue => ?_, fun _ => ?_⟩
      · exact absurd (hover.symm.trans htrue) Bool.false_ne_true
      · refine ⟨?_, by omega, fun hall => ?_⟩
        · rw [List.length_append, hlen, hdataLen, hroom]
        · obtain ⟨hps, hlast⟩ := allFull_append.mp hall
          rw [hpayload hps, hdataFull (hfull.mp hlast), hbytes]
    · refine ⟨hpacket, hlast, hstarted, hn, hout, fun _ => by omega, fun hfalse => ?_⟩
      exact absurd hfalse (by simp)

/-- One more packet of the frame is received. -/
theorem filled_receive (hsize : packetSize < 2 ^ 32) (h : Filled packetSize t id ps out)
    (hid : packetGetFrameId p.bytes = id) :
    Filled packetSize (t.receive packetSize p.bytes) id (ps ++ [p]) out := by
  cases hover : t.overrun with
  | true =>
    have hmore : roomOf ps ≤ roomOf (ps ++ [p]) := by rw [roomOf_append]; omega
    rw [Thread.receive, if_pos hover]
    refine { h with
      overrun := fun _ => (h.overrun hover).trans_le hmore
      buffer := fun hfalse => ?_ }
    exact absurd (hover.symm.trans hfalse) (by simp)
  | false =>
    have hp := holds_recvfrom h.packet p
    have hsame : (t.recvfrom packetSize p.bytes).startFrame
        (packetGetFrameId (t.recvfrom packetSize p.bytes).packet) =
        t.recvfrom packetSize p.bytes := by
      rw [hp.frameId, hid, Thread.startFrame, if_neg]
      exact fun hne => hne h.lastFrameId.symm
    have hfilled : Filled packetSize (t.recvfrom packetSize p.bytes) id ps out :=
      { h with packet := hp.length }
    simp only [Thread.receive, hover, Bool.false_eq_true, if_false, hsame]
    exact filled_handlePacket hsize hfilled hover hp

theorem filled_run (hsize : packetSize < 2 ^ 32) (h : Filled packetSize t id ps out)
    (qs : List (GvspPacket packetSize)) (hid : ∀ q ∈ qs, packetGetFrameId q.bytes = id) :
    Filled packetSize (run packetSize t qs) id (ps ++ qs) out := by
  induction qs generalizing t ps with
  | nil => rwa [List.append_nil]
  | cons q qs ih =>
    have hnext := ih (filled_receive hsize h (hid q (List.mem_cons_self ..)))
      fun q' hq' => hid q' (List.mem_cons_of_mem _ hq')
    rwa [List.append_assoc] at hnext

/-- What was delivered when a new frame starts. -/
def deliveredBefore (t : Thread) : List Iframe :=
  t.delivered ++ if t.isStarted then [⟨t.lastFrameId, t.iframe.buffer⟩] else []

theorem filled_startFrame (hpacket : t.packet.length = packetSize) (hover : t.overrun = false)
    (hnew : id ≠ t.lastFrameId) :
    Filled packetSize (t.startFrame id) id [] (deliveredBefore t) ∧
      (t.startFrame id).overrun = false ∧ (t.startFrame id).packet = t.packet := by
  rw [Thread.startFrame, if_pos hnew, Thread.newFrameAction, deliveredBefore]
  cases hstarted : t.isStarted with
  | false => exact ⟨⟨hpacket, rfl, rfl, rfl, (List.append_nil _).symm, by simp [hover],
      fun _ => ⟨rfl, Nat.zero_le _, fun _ => rfl⟩⟩, hover, rfl⟩
  | true => exact ⟨⟨hpacket, rfl, rfl, rfl, rfl, by simp [hover],
      fun _ => ⟨rfl, Nat.zero_le _, fun _ => rfl⟩⟩, hover, rfl⟩

/-- The first packet of a frame makes the thread deliver the frame before. -/
theorem filled_first (hsize : packetSize < 2 ^ 32) (hpacket : t.packet.length = packetSize)
    (hover : t.overrun = false) (hid : packetGetFrameId p.bytes = id) (hnew : id ≠ t.lastFrameId) :
    Filled packetSize (t.receive packetSize p.bytes) id [p] (deliveredBefore t) := by
  have hp := holds_recvfrom hpacket p
  have hover : (t.recvfrom packetSize p.bytes).overrun = false := hover
  have hnew : id ≠ (t.recvfrom packetSize p.bytes).lastFrameId := hnew
  obtain ⟨hfilled, hover', hpacket'⟩ := filled_startFrame hp.length hover hnew
  have hgoes : t.overrun ≠ true := by simpa [Thread.recvfrom] using hover
  rw [Thread.receive, if_neg hgoes]
  simp only [hp.frameId, hid]
  exact filled_handlePacket hsize hfilled hover' (hpacket' ▸ hp)

end Handle

/-! ## A stream that is cut into frames -/

section Frames

variable {F : Type*} {pk : F → List (GvspPacket packetSize)} {code ids : F → Nat} {f : F}
  {frames : List F}

theorem run_append (t : Thread) (ps qs : List (GvspPacket packetSize)) :
    run packetSize t (ps ++ qs) = run packetSize (run packetSize t ps) qs := List.foldl_append ..

/-- After all the packets of a frame. -/
theorem filled_frame (hsize : packetSize < 2 ^ 32) (hpacket : t.packet.length = packetSize)
    (hover : t.overrun = false) (hread : ReadAs id ps) (hnew : id ≠ t.lastFrameId) :
    Filled packetSize (run packetSize t ps) id ps (deliveredBefore t) := by
  have hids := hread.frameId_eq
  obtain ⟨p, qs, hps⟩ := List.exists_cons_of_ne_nil hread.ne_nil
  rw [hps] at hids ⊢
  have hfirst := filled_first hsize hpacket hover (hids p (List.mem_cons_self ..)) hnew
  exact filled_run hsize hfirst qs fun q hq => hids q (List.mem_cons_of_mem _ hq)

/-- The buffer holds what was received of a frame if and only if the frame is full. -/
theorem buffer_eq_iff (h : Filled packetSize t id ps out) (hover : t.overrun = false) :
    t.iframe.buffer = payloadOf ps ↔ FullFrame ps := by
  obtain ⟨hlen, hfits, hpayload⟩ := h.buffer hover
  obtain ⟨-, hfull⟩ := payloadOf_length ps
  constructor
  · intro hbuffer
    have hroom : (payloadOf ps).length = roomOf ps := by rw [← hbuffer, hlen]
    exact ⟨hfull.mp hroom, by omega⟩
  · exact fun hfullFrame => hpayload hfullFrame.full

theorem run_overrun (hover : t.overrun = true) (ps : List (GvspPacket packetSize)) :
    run packetSize t ps = t := by
  induction ps with
  | nil => rfl
  | cons p ps ih =>
    rw [run, List.foldl_cons, Thread.receive, if_pos hover]
    exact ih

theorem handlePacket_delivered (t : Thread) :
    (t.handlePacket packetSize).delivered = t.delivered := by
  simp only [Thread.handlePacket, Thread.appendBlock]
  repeat' split
  all_goals rfl

theorem startFrame_delivered (t : Thread) (id : Nat) :
    t.delivered <+: (t.startFrame id).delivered := by
  simp only [Thread.startFrame, Thread.newFrameAction]
  split
  · split
    · exact List.prefix_append ..
    · exact List.prefix_rfl
  · exact List.prefix_rfl

/-- What was delivered stays. -/
theorem run_delivered (t : Thread) (ps : List (GvspPacket packetSize)) :
    t.delivered <+: (run packetSize t ps).delivered := by
  induction ps generalizing t with
  | nil => exact List.prefix_rfl
  | cons p ps ih =>
    refine List.IsPrefix.trans ?_ (ih (t.receive packetSize p.bytes))
    rw [Thread.receive]
    split
    · exact List.prefix_rfl
    · rw [handlePacket_delivered]
      exact startFrame_delivered (t.recvfrom packetSize p.bytes) _

/-- A frame with more bytes than there is room for is not full. -/
theorem not_full_of_overrun (h : maxFrameSize < roomOf ps) : ¬ FullFrame ps := by
  rintro ⟨hfull, hfits⟩
  have hroom := (payloadOf_length ps).2.mpr hfull
  omega

theorem deliveredBefore_filled (h : Filled packetSize t id ps out) :
    deliveredBefore t = out ++ [⟨id, t.iframe.buffer⟩] := by
  rw [deliveredBefore, h.isStarted, h.delivered, h.lastFrameId]
  rfl

variable (ids) in
/-- From a thread that has received frame `f` and goes on with `frames`. -/
theorem delivered_iff (hsize : packetSize < 2 ^ 32)
    (h : Filled packetSize t (code f) (pk f) out) (hover : t.overrun = false)
    (hread : ∀ g ∈ frames, ReadAs (code g) (pk g))
    (hchain : (f :: frames).IsChain (code · ≠ code ·)) :
    (run packetSize t (frames.flatMap pk)).delivered =
        out ++ (f :: frames).dropLast.map (fun g => ⟨ids g, payloadOf (pk g)⟩) ↔
      ∀ g ∈ (f :: frames).dropLast, ids g = code g ∧ FullFrame (pk g) := by
  induction frames generalizing t f out with
  | nil => simp [run, h.delivered]
  | cons g frames ih =>
    rw [List.isChain_cons_cons] at hchain
    obtain ⟨hne, hchain⟩ := hchain
    have hrest : ∀ g' ∈ frames, ReadAs (code g') (pk g') :=
      fun g' hg' => hread g' (List.mem_cons_of_mem _ hg')
    have hnew : code g ≠ t.lastFrameId := by
      rw [h.lastFrameId]
      exact hne.symm
    have hnext := filled_frame hsize h.packet hover (hread g (List.mem_cons_self ..)) hnew
    rw [deliveredBefore_filled h] at hnext
    have hprefix := run_delivered (run packetSize t (pk g)) (frames.flatMap pk)
    rw [hnext.delivered] at hprefix
    obtain ⟨rest, hdelivered⟩ := hprefix
    have hdrop : (f :: g :: frames).dropLast = f :: (g :: frames).dropLast := rfl
    have hbuffer : (⟨code f, t.iframe.buffer⟩ : Iframe) = ⟨ids f, payloadOf (pk f)⟩ ↔
        ids f = code f ∧ FullFrame (pk f) := by
      rw [← buffer_eq_iff h hover, Iframe.mk.injEq, eq_comm (a := code f)]
    have hgoes : rest = ((g :: frames).dropLast.map fun g => ⟨ids g, payloadOf (pk g)⟩) ↔
        ∀ g' ∈ (g :: frames).dropLast, ids g' = code g' ∧ FullFrame (pk g') := by
      cases hlost : (run packetSize t (pk g)).overrun with
      | false =>
        rw [← ih hnext hlost hrest hchain, ← hdelivered, List.append_cancel_left_eq]
      | true =>
        rw [run_overrun hlost, hnext.delivered] at hdelivered
        obtain rfl : rest = [] := by simpa using hdelivered
        cases frames with
        | nil => simp
        | cons g' frames =>
          have hincomplete := not_full_of_overrun (hnext.overrun hlost)
          simp [List.dropLast, hincomplete]
    rw [List.flatMap_cons, run_append, ← hdelivered, hdrop, List.map_cons, List.forall_mem_cons,
      List.append_assoc, List.append_cancel_left_eq, List.singleton_append, List.cons.injEq,
      hbuffer, hgoes]

variable (pk code ids) in
/-- **What is delivered of a stream** in which the thread tells the frames apart: all but the
last, if and only if they are full and read with the ids expected. -/
theorem start_delivered_iff (hsize : packetSize < 2 ^ 32) {packet : List UInt8}
    (hpacket : packet.length = packetSize) (iframe : Iframe) (nPackets : Nat)
    (hread : ∀ f ∈ frames, ReadAs (code f) (pk f))
    (hchain : frames.IsChain (code · ≠ code ·)) :
    (run packetSize (.start packet iframe nPackets) (frames.flatMap pk)).delivered =
        frames.dropLast.map (fun f => ⟨ids f, payloadOf (pk f)⟩) ↔
      ∀ f ∈ frames.dropLast, ids f = code f ∧ FullFrame (pk f) := by
  cases frames with
  | nil => simp [run, Thread.start]
  | cons f frames =>
    have hf := hread f (List.mem_cons_self ..)
    have hfirst : Filled packetSize (run packetSize (.start packet iframe nPackets) (pk f))
        (code f) (pk f) [] := filled_frame hsize hpacket rfl hf hf.ne_zero
    rw [List.flatMap_cons, run_append]
    cases hlost : (run packetSize (.start packet iframe nPackets) (pk f)).overrun with
    | false =>
      have hiff := delivered_iff ids hsize hfirst hlost
        (fun g hg => hread g (List.mem_cons_of_mem _ hg)) hchain
      rwa [List.nil_append] at hiff
    | true =>
      rw [run_overrun hlost, hfirst.delivered]
      cases frames with
      | nil => simp
      | cons g frames =>
        have hincomplete := not_full_of_overrun (hfirst.overrun hlost)
        simp [List.dropLast, hincomplete]

end Frames

/-! ## Ids in network order -/

section Ids

variable {f : CameraFrame packetSize} {frames : List (CameraFrame packetSize)}

/-- The bytes of an id in a received packet. -/
theorem member_length_of_extended {p : GvspPacket packetSize}
    (h : packetHasExtendedIds p.bytes = true) : (member p.bytes 8 8).length = 8 := by
  have hheader := p.header_le
  simp only [packetDataOffset, h, if_true] at hheader
  rw [member, List.length_take, List.length_drop]
  omega

/-- With the same kind of header, packets of the same id are read alike. -/
theorem frameId_congr {p q : GvspPacket packetSize}
    (hheader : packetHasExtendedIds p.bytes = packetHasExtendedIds q.bytes)
    (hid : networkFrameId p.bytes = networkFrameId q.bytes) :
    packetGetFrameId p.bytes = packetGetFrameId q.bytes := by
  unfold networkFrameId at hid
  unfold packetGetFrameId
  cases hext : packetHasExtendedIds q.bytes with
  | false =>
    rw [hext] at hheader
    simpa [hheader, hext] using hid
  | true =>
    rw [hext] at hheader
    simp only [hheader, hext, if_true, beValue] at hid ⊢
    have hbytes := leValue_inj (by simp [member_length_of_extended hheader,
      member_length_of_extended hext]) hid
    rw [List.reverse_injective hbytes]

theorem leValue_eq_zero_iff (bs : List UInt8) : leValue bs = 0 ↔ ∀ b ∈ bs, b = 0 := by
  induction bs with
  | nil => simp [leValue]
  | cons b bs ih =>
    have hzero : b.toNat = 0 ↔ b = 0 := ⟨fun h => UInt8.toNat_inj.mp h, fun h => h ▸ rfl⟩
    rw [leValue, List.forall_mem_cons, ← ih, ← hzero]
    omega

/-- An id other than 0 is not read as 0. -/
theorem frameId_ne_zero {packet : List UInt8} (h : networkFrameId packet ≠ 0) :
    packetGetFrameId packet ≠ 0 := by
  unfold networkFrameId at h
  unfold packetGetFrameId
  cases hext : packetHasExtendedIds packet with
  | false => simpa [hext] using h
  | true =>
    simp only [hext, if_true, beValue] at h ⊢
    rw [Ne, leValue_eq_zero_iff] at h ⊢
    simpa using h

theorem head_mem (f : CameraFrame packetSize) : f.packets.head f.packets_ne_nil ∈ f.packets :=
  List.head_mem _

theorem readAs_of_oneHeader (h : f.OneHeader) : ReadAs f.codeId f.packets where
  ne_nil := f.packets_ne_nil
  ne_zero := frameId_ne_zero (by rw [f.frameId_eq _ (head_mem f)]; exact f.id_ne_zero)
  frameId_eq p hp := by
    obtain ⟨extended, hext⟩ := h
    refine frameId_congr ((hext p hp).trans (hext _ (head_mem f)).symm) ?_
    rw [f.frameId_eq p hp, f.frameId_eq _ (head_mem f)]

end Ids

section Main

variable {frames : List (CameraFrame packetSize)} {packet : List UInt8}

end Main

section Runs

/-- A data block of frame `id` with a header of eight bytes. -/
def blockBytes (id : UInt8) (data : List UInt8) : List UInt8 :=
  [0, 0, 0, id, 0x03, 0, 0, 1] ++ data

/-- The same packets for a camera whose packets have one byte of data. -/
def fullFrames : List (CameraFrame 9) :=
  [⟨1, [⟨blockBytes 1 [7], by decide, by decide⟩], by decide, by decide, by decide⟩,
    ⟨2, [⟨blockBytes 2 [8], by decide, by decide⟩], by decide, by decide, by decide⟩]

end Runs

end DclProcessor.Camera
