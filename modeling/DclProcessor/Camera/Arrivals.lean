import DclProcessor.Camera.Reassembly
import Mathlib.Data.List.DropRight

/-!
What has arrived at `camera_gvsp_thread`: for each datagram the bytes that then lie in the
buffer, and how many of them are its own. The thread follows the arrivals: the frame it is
in is that of the last ones with the same frame id.
-/

namespace DclProcessor.Camera

open Bytes

structure Arrival where
  buffer : List UInt8
  received : Nat
  deriving DecidableEq

namespace Arrival

def frameId (a : Arrival) : Nat := packetGetFrameId a.buffer

def packetId (a : Arrival) : Nat := packetGetPacketId a.buffer

def packetType (a : Arrival) : Nat := packetGetPacketType a.buffer

/-- A data block that `gvsp_packet_type_is_error` does not take for an error. -/
def isBlock (a : Arrival) : Bool :=
  a.packetType ≠ packetTypeError && packetGetContentType a.buffer = .dataBlock

def offset (a : Arrival) : Nat := packetDataOffset a.buffer

/-- What a block adds to `buffer_size`. -/
def room (packetSize : Nat) (a : Arrival) : Nat :=
  if a.isBlock then packetGetDataSize a.buffer packetSize else 0

end Arrival

def roomIn (packetSize : Nat) : List Arrival → Nat
  | [] => 0
  | a :: as => a.room packetSize + roomIn packetSize as

/-- What a datagram is when it has come into the buffer. -/
def arrival (packetSize : Nat) (s : List UInt8 × List Arrival) (datagram : List UInt8) : Arrival :=
  let bytes := datagram.take packetSize
  ⟨overwrite s.1 0 bytes, bytes.length⟩

/-- The buffer after a datagram, and what has arrived with it. -/
def arrive (packetSize : Nat) (s : List UInt8 × List Arrival) (datagram : List UInt8) :
    List UInt8 × List Arrival :=
  ((arrival packetSize s datagram).buffer, s.2 ++ [arrival packetSize s datagram])

theorem arrive_snd (packetSize : Nat) (s : List UInt8 × List Arrival) (datagram : List UInt8) :
    (arrive packetSize s datagram).2 = s.2 ++ [arrival packetSize s datagram] := rfl

/-- From a buffer with `packet` in it. -/
def arrived (packetSize : Nat) (packet : List UInt8) (datagrams : List (List UInt8)) :
    List UInt8 × List Arrival :=
  datagrams.foldl (arrive packetSize) (packet, [])

/-- The thread after some datagrams. -/
def Thread.after (packetSize : Nat) (t : Thread) (datagrams : List (List UInt8)) : Thread :=
  datagrams.foldl (Thread.receive packetSize) t

/-- `last_frame_id` -/
def lastId (as : List Arrival) : Nat := (as.getLast?.map (·.frameId)).getD 0

/-- The thread starts with 0 for the last frame id, and no frame. -/
def Started (as : List Arrival) : Prop := ∃ a ∈ as, a.frameId ≠ 0

instance (as : List Arrival) : Decidable (Started as) :=
  inferInstanceAs (Decidable (∃ a ∈ as, a.frameId ≠ 0))

/-- The arrivals of the frame that the last one belongs to. -/
def currentFrame (as : List Arrival) : List Arrival := as.rtakeWhile (·.frameId = lastId as)

section Lists

variable {as : List Arrival} {a : Arrival}

theorem roomIn_concat (packetSize : Nat) (as : List Arrival) (a : Arrival) :
    roomIn packetSize (as ++ [a]) = roomIn packetSize as + a.room packetSize := by
  induction as with
  | nil => simp [roomIn]
  | cons b as ih => rw [List.cons_append, roomIn, ih, roomIn, Nat.add_assoc]

@[simp] theorem lastId_concat (as : List Arrival) (a : Arrival) :
    lastId (as ++ [a]) = a.frameId := by
  simp [lastId]

theorem started_concat : Started (as ++ [a]) ↔ Started as ∨ a.frameId ≠ 0 := by
  simp [Started, or_and_right, exists_or]

/-- As long as no frame has started, all frame ids are 0. -/
theorem lastId_of_not_started (h : ¬ Started as) : lastId as = 0 := by
  induction as using List.reverseRecOn with
  | nil => rfl
  | append_singleton as a _ =>
    rw [lastId_concat]
    by_contra hne
    exact h (started_concat.mpr (Or.inr hne))

theorem currentFrame_same (h : a.frameId = lastId as) :
    currentFrame (as ++ [a]) = currentFrame as ++ [a] := by
  rw [currentFrame, lastId_concat, List.rtakeWhile_concat_pos _ _ _ (by simp), h, currentFrame]

theorem currentFrame_new (h : a.frameId ≠ lastId as) : currentFrame (as ++ [a]) = [a] := by
  rw [currentFrame, lastId_concat, List.rtakeWhile_concat_pos _ _ _ (by simp)]
  have hnone : as.rtakeWhile (·.frameId = a.frameId) = [] := by
    induction as using List.reverseRecOn with
    | nil => rfl
    | append_singleton as b _ =>
      rw [lastId_concat] at h
      exact List.rtakeWhile_concat_neg _ _ _ (by simpa using h.symm)
  rw [hnone, List.nil_append]

end Lists

section Run

variable {packetSize : Nat} {t : Thread}

theorem after_concat (t : Thread) (ds : List (List UInt8)) (d : List UInt8) :
    t.after packetSize (ds ++ [d]) = (t.after packetSize ds).receive packetSize d := by
  rw [Thread.after, List.foldl_append]
  rfl

theorem arrived_concat (packet : List UInt8) (ds : List (List UInt8)) (d : List UInt8) :
    arrived packetSize packet (ds ++ [d]) =
      arrive packetSize (arrived packetSize packet ds) d := by
  rw [arrived, List.foldl_append]
  rfl

theorem arrival_length {s : List UInt8 × List Arrival} (h : s.1.length = packetSize)
    (d : List UInt8) : (arrival packetSize s d).buffer.length = packetSize := by
  rw [arrival]
  refine (overwrite_length ?_).trans h
  rw [List.length_take, h]
  omega

theorem arrived_length {packet : List UInt8} (h : packet.length = packetSize)
    (ds : List (List UInt8)) : (arrived packetSize packet ds).1.length = packetSize := by
  induction ds using List.reverseRecOn with
  | nil => exact h
  | append_singleton ds d ih =>
    rw [arrived_concat]
    exact arrival_length ih d

/-- What the rest of the loop's body leaves as it is. -/
theorem handlePacket_fields (packetSize : Nat) (t : Thread) :
    (t.handlePacket packetSize).packet = t.packet ∧
    (t.handlePacket packetSize).lastFrameId = t.lastFrameId ∧
    (t.handlePacket packetSize).isStarted = t.isStarted ∧
    (t.handlePacket packetSize).nPackets = t.nPackets := by
  simp only [Thread.handlePacket, Thread.appendBlock]
  repeat' split
  all_goals exact ⟨rfl, rfl, rfl, rfl⟩

theorem startFrame_fields (t : Thread) (id : Nat) : (t.startFrame id).packet = t.packet ∧
    (t.startFrame id).lastFrameId = id ∧
    ((t.startFrame id).isStarted = true ↔ t.isStarted = true ∨ id ≠ t.lastFrameId) ∧
    ((t.isStarted = true → t.nPackets = 0) → (t.startFrame id).isStarted = true →
      (t.startFrame id).nPackets = 0) ∧
    (t.startFrame id).overrun = t.overrun ∧
    (t.startFrame id).iframe.buffer = if id ≠ t.lastFrameId then [] else t.iframe.buffer := by
  by_cases hnew : id ≠ t.lastFrameId
  · rw [Thread.startFrame, if_pos hnew, if_pos hnew, Thread.newFrameAction]
    cases hstarted : t.isStarted <;> simp [hnew]
  · rw [Thread.startFrame, if_neg hnew, if_neg hnew]
    have hsame : id = t.lastFrameId := not_not.mp hnew
    simp [hsame]

/-- The thread is where the arrivals have brought it. -/
structure Follows (t : Thread) (s : List UInt8 × List Arrival) : Prop where
  packet : t.packet = s.1
  lastFrameId : t.lastFrameId = lastId s.2
  isStarted : t.isStarted = true ↔ Started s.2
  nPackets : t.isStarted = true → t.nPackets = 0

/-- The thread when a datagram has come and its frame is there. -/
def Thread.atPacket (packetSize : Nat) (t : Thread) (d : List UInt8) : Thread :=
  let t := t.recvfrom packetSize d
  t.startFrame (packetGetFrameId t.packet)

theorem receive_eq (hover : t.overrun = false) (d : List UInt8) :
    t.receive packetSize d = (t.atPacket packetSize d).handlePacket packetSize := by
  have hgoes : ¬ t.overrun = true := by rw [hover]; exact Bool.false_ne_true
  rw [Thread.receive, if_neg hgoes]
  rfl

theorem overrun_of_receive {d : List UInt8} (h : (t.receive packetSize d).overrun = false) :
    t.overrun = false := by
  cases hover : t.overrun with
  | false => rfl
  | true =>
    rw [Thread.receive, if_pos hover, hover] at h
    cases h

theorem Follows.recvfrom_packet {s : List UInt8 × List Arrival} (h : Follows t s)
    (d : List UInt8) : (t.recvfrom packetSize d).packet = (arrival packetSize s d).buffer := by
  rw [Thread.recvfrom, h.packet]
  rfl

theorem follows_atPacket (packetSize : Nat) {s : List UInt8 × List Arrival} (h : Follows t s)
    (d : List UInt8) :
    Follows (t.atPacket packetSize d) (arrive packetSize s d) := by
  obtain ⟨hpacket, hlast, hstarted, hn, -, -⟩ := startFrame_fields
    (t.recvfrom packetSize d) (packetGetFrameId (t.recvfrom packetSize d).packet)
  have hbuffer : (t.recvfrom packetSize d).packet = (arrive packetSize s d).1 :=
    h.recvfrom_packet d
  refine ⟨hpacket.trans hbuffer, ?_, ?_, hn h.nPackets⟩
  · rw [Thread.atPacket, hlast, hbuffer, arrive_snd, lastId_concat]
    rfl
  · have hid : packetGetFrameId (arrive packetSize s d).1 = (arrival packetSize s d).frameId := rfl
    have hold : (t.recvfrom packetSize d).isStarted = true ↔ Started s.2 := h.isStarted
    have hlastId : (t.recvfrom packetSize d).lastFrameId = lastId s.2 := h.lastFrameId
    rw [Thread.atPacket, hstarted, hold, hlastId, hbuffer, hid, arrive_snd, started_concat]
    by_cases hs : Started s.2
    · simp [hs]
    · rw [lastId_of_not_started hs]

theorem follows_receive {s : List UInt8 × List Arrival} (h : Follows t s)
    (hover : t.overrun = false) (d : List UInt8) :
    Follows (t.receive packetSize d) (arrive packetSize s d) := by
  obtain ⟨hpacket, hlast, hstarted, hn⟩ :=
    handlePacket_fields packetSize (t.atPacket packetSize d)
  have hat := follows_atPacket packetSize h d
  rw [receive_eq hover]
  exact ⟨hpacket.trans hat.packet, hlast.trans hat.lastFrameId, by rw [hstarted, hat.isStarted],
    fun hs => hn.trans (hat.nPackets (hstarted.symm.trans hs))⟩

/-- As long as nothing was written past the end, the thread follows what arrives. -/
theorem follows_after (packet : List UInt8) (iframe : Iframe) (nPackets : Nat)
    (ds : List (List UInt8))
    (hover : ((Thread.start packet iframe nPackets).after packetSize ds).overrun = false) :
    Follows ((Thread.start packet iframe nPackets).after packetSize ds)
      (arrived packetSize packet ds) := by
  induction ds using List.reverseRecOn with
  | nil => exact ⟨rfl, rfl, by simp [Thread.after, Thread.start, arrived, Started],
      fun h => by simp [Thread.after, Thread.start] at h⟩
  | append_singleton ds d ih =>
    rw [after_concat] at hover ⊢
    rw [arrived_concat]
    have hbefore := overrun_of_receive hover
    exact follows_receive (ih hbefore) hbefore d

end Run

section Frame

variable {packetSize : Nat} {t : Thread} {a : Arrival}

/-- The size wraps around if the packet has no room for its header. -/
theorem dataSize_eq (hsize : packetSize < 2 ^ 32) (packet : List UInt8) :
    packetGetDataSize packet packetSize =
      if packetDataOffset packet ≤ packetSize then packetSize - packetDataOffset packet
      else packetSize + 2 ^ 64 - packetDataOffset packet := by
  have hoffset := offset_bounds packet
  rw [packetGetDataSize]
  split <;> omega

theorem header_le_of_dataSize_le (hsize : packetSize < 2 ^ 32) {packet : List UInt8}
    (h : packetGetDataSize packet packetSize ≤ maxFrameSize) :
    packetDataOffset packet ≤ packetSize := by
  have hoffset := offset_bounds packet
  by_contra hshort
  rw [dataSize_eq hsize, if_neg hshort, maxFrameSize] at h
  omega

/-- What happens to the frame when `a` has come. -/
theorem handlePacket_frame (packetSize : Nat) (hstarted : t.isStarted = true)
    (hn : t.nPackets = 0) (ha : t.packet = a.buffer) :
    (a.isBlock = true → t.handlePacket packetSize = t.appendBlock packetSize) ∧
    (a.isBlock = false → (t.handlePacket packetSize).overrun = t.overrun ∧
      (t.handlePacket packetSize).iframe = t.iframe) := by
  rw [handlePacket_eq hstarted hn, ha, Arrival.isBlock, Arrival.packetType]
  by_cases herror : packetGetPacketType a.buffer = packetTypeError
  · simp [herror]
  · cases packetGetContentType a.buffer <;> simp [herror]

/-- A block is copied if its size is left in the buffer. -/
theorem appendBlock_length (hsize : packetSize < 2 ^ 32) (hlen : t.packet.length = packetSize)
    (hover : t.overrun = false) :
    ((t.appendBlock packetSize).overrun = false ↔
      t.iframe.buffer.length + packetGetDataSize t.packet packetSize ≤ maxFrameSize) ∧
    ((t.appendBlock packetSize).overrun = false →
      (t.appendBlock packetSize).iframe.buffer.length =
        t.iframe.buffer.length + packetGetDataSize t.packet packetSize) := by
  by_cases hfits : t.iframe.buffer.length + packetGetDataSize t.packet packetSize ≤ maxFrameSize
  · have hheader := header_le_of_dataSize_le hsize (le_of_add_le_right hfits)
    have hdata : (packetGetData t.packet).length = packetGetDataSize t.packet packetSize := by
      rw [dataSize_eq hsize, if_pos hheader, packetGetData, List.length_drop, hlen]
    simp [Thread.appendBlock, hfits, hover, hdata]
  · simp [Thread.appendBlock, hfits]

/-- The thread has copied the blocks of its frame, and they fit. -/
def HoldsFrame (packetSize : Nat) (t : Thread) (as : List Arrival) : Prop :=
  t.isStarted = true → t.iframe.buffer.length = roomIn packetSize (currentFrame as) ∧
    roomIn packetSize (currentFrame as) ≤ maxFrameSize

variable {s : List UInt8 × List Arrival}

/-- The frame is there for the packet that has come, with what it held before. -/
theorem atPacket_frame (h : Follows t s) (hframe : HoldsFrame packetSize t s.2) (d : List UInt8)
    (hstarted : (t.atPacket packetSize d).isStarted = true) :
    (t.atPacket packetSize d).iframe.buffer.length + (arrival packetSize s d).room packetSize =
        roomIn packetSize (currentFrame (arrive packetSize s d).2) ∧
      (t.atPacket packetSize d).iframe.buffer.length ≤ maxFrameSize := by
  obtain ⟨-, -, hstart, -, -, hbuffer⟩ := startFrame_fields
    (t.recvfrom packetSize d) (packetGetFrameId (t.recvfrom packetSize d).packet)
  have hid : packetGetFrameId (t.recvfrom packetSize d).packet =
      (arrival packetSize s d).frameId := congrArg packetGetFrameId (h.recvfrom_packet d)
  have hlastId : (t.recvfrom packetSize d).lastFrameId = lastId s.2 := h.lastFrameId
  rw [hid, hlastId] at hbuffer
  rw [Thread.atPacket, hstart, hid, hlastId] at hstarted
  rw [Thread.atPacket, hid, hbuffer, arrive_snd]
  by_cases hnew : (arrival packetSize s d).frameId ≠ lastId s.2
  · rw [if_pos hnew, currentFrame_new hnew]
    simp [roomIn]
  · obtain ⟨hlength, hfits⟩ := hframe (hstarted.resolve_right hnew)
    have hlength : (t.recvfrom packetSize d).iframe.buffer.length =
        roomIn packetSize (currentFrame s.2) := hlength
    rw [if_neg hnew, currentFrame_same (not_not.mp hnew), roomIn_concat, hlength]
    exact ⟨rfl, hfits⟩

/-- The next packet is put to its frame. -/
theorem holdsFrame_receive (hsize : packetSize < 2 ^ 32) (h : Follows t s)
    (hlen : s.1.length = packetSize) (hframe : HoldsFrame packetSize t s.2)
    (hover : t.overrun = false) (d : List UInt8) :
    ((t.receive packetSize d).overrun = false ↔
      (Started (arrive packetSize s d).2 →
        roomIn packetSize (currentFrame (arrive packetSize s d).2) ≤ maxFrameSize)) ∧
    ((t.receive packetSize d).overrun = false →
      HoldsFrame packetSize (t.receive packetSize d) (arrive packetSize s d).2) := by
  have hat := follows_atPacket packetSize h d
  have hpacket : (t.atPacket packetSize d).packet = (arrival packetSize s d).buffer := hat.packet
  have hatOver : (t.atPacket packetSize d).overrun = false := by
    obtain ⟨-, -, -, -, hsame, -⟩ := startFrame_fields
      (t.recvfrom packetSize d) (packetGetFrameId (t.recvfrom packetSize d).packet)
    exact hsame.trans hover
  have hlength : (t.atPacket packetSize d).packet.length = packetSize :=
    (congrArg List.length hpacket).trans (arrival_length hlen d)
  rw [receive_eq hover, HoldsFrame, (handlePacket_fields packetSize _).2.2.1]
  cases hstarted : (t.atPacket packetSize d).isStarted with
  | false =>
    have hnot : ¬ Started (arrive packetSize s d).2 := by
      rw [← hat.isStarted, hstarted]
      exact Bool.false_ne_true
    simp [Thread.handlePacket, hstarted, hatOver, hnot]
  | true =>
    obtain ⟨hroom, hfits⟩ := atPacket_frame h hframe d hstarted
    obtain ⟨hblock, hother⟩ :=
      handlePacket_frame packetSize hstarted (hat.nPackets hstarted) hpacket
    have hyes : Started (arrive packetSize s d).2 := hat.isStarted.mp hstarted
    rw [← hroom, Arrival.room]
    cases hkind : (arrival packetSize s d).isBlock with
    | true =>
      obtain ⟨hcopied, hthen⟩ := appendBlock_length hsize hlength hatOver
      rw [hpacket] at hcopied hthen
      rw [hblock hkind, if_pos rfl]
      exact ⟨by simp [hcopied, hyes], fun hgoes _ => ⟨hthen hgoes, hcopied.mp hgoes⟩⟩
    | false =>
      obtain ⟨hsame, hiframe⟩ := hother hkind
      rw [hsame, hatOver, hiframe, if_neg Bool.false_ne_true, Nat.add_zero]
      exact ⟨by simp [hfits], fun _ _ => ⟨rfl, hfits⟩⟩

/-- As long as nothing was written past the end, the buffer holds the frame. -/
theorem holdsFrame_after (hsize : packetSize < 2 ^ 32) {packet : List UInt8}
    (hpacket : packet.length = packetSize) (iframe : Iframe) (nPackets : Nat)
    (ds : List (List UInt8))
    (hover : ((Thread.start packet iframe nPackets).after packetSize ds).overrun = false) :
    HoldsFrame packetSize ((Thread.start packet iframe nPackets).after packetSize ds)
      (arrived packetSize packet ds).2 := by
  induction ds using List.reverseRecOn with
  | nil => exact fun hstarted => absurd hstarted (by simp [Thread.after, Thread.start])
  | append_singleton ds d ih =>
    rw [after_concat] at hover ⊢
    rw [arrived_concat]
    have hbefore := overrun_of_receive hover
    have hfollows := follows_after packet iframe nPackets ds hbefore
    have hlen := arrived_length hpacket ds
    exact (holdsFrame_receive hsize hfollows hlen (ih hbefore) hbefore d).2 hover

end Frame

end DclProcessor.Camera
