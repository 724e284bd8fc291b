import DclProcessor.Camera.Arrivals

/-!
Packets that should leave the frame alone: those with an error status, and the blocks whose
packet id has been received before.
-/

namespace DclProcessor.Camera

open Bytes

/-- A status other than `GVSP_PACKET_TYPE_OK` and `GVSP_PACKET_TYPE_RESEND`, such as
`GVSP_PACKET_TYPE_PACKET_UNAVAILABLE`. -/
def ErrorStatus (status : Nat) : Prop := status ≠ 0x0000 ∧ status ≠ 0x0100

instance (status : Nat) : Decidable (ErrorStatus status) := inferInstanceAs (Decidable (_ ∧ _))

namespace Arrival

/-- The block has come with one of the packets of the frame. -/
def IsDuplicate (a : Arrival) (frame : List Arrival) : Prop :=
  packetGetContentType a.buffer = .dataBlock ∧
    ∃ b ∈ frame, ¬ ErrorStatus b.packetType ∧ b.packetId = a.packetId

def IsSpurious (a : Arrival) (frame : List Arrival) : Prop :=
  ErrorStatus a.packetType ∨ a.IsDuplicate frame

end Arrival

/-- The thread takes the datagram and leaves its frame as it is. -/
structure Untouched (packetSize : Nat) (t : Thread) (d : List UInt8) (a : Arrival) : Prop where
  overrun : (t.receive packetSize d).overrun = false
  buffer : (t.receive packetSize d).iframe.buffer = t.iframe.buffer
  counted : ErrorStatus a.packetType →
    (t.receive packetSize d).nErrorPackets = t.nErrorPackets + 1

section Receive

variable {packetSize : Nat} {t : Thread} {s : List UInt8 × List Arrival} {d : List UInt8}

/-- A packet of the frame that the thread is in. -/
theorem receive_same (h : Follows t s) (hover : t.overrun = false)
    (hframe : (arrival packetSize s d).frameId = lastId s.2) :
    t.receive packetSize d = (t.recvfrom packetSize d).handlePacket packetSize := by
  have hid : packetGetFrameId (t.recvfrom packetSize d).packet =
      (arrival packetSize s d).frameId := congrArg packetGetFrameId (h.recvfrom_packet d)
  have hlastId : (t.recvfrom packetSize d).lastFrameId = lastId s.2 := h.lastFrameId
  have hold : ¬ (arrival packetSize s d).frameId ≠ (t.recvfrom packetSize d).lastFrameId := by
    rw [hlastId, hframe]
    exact not_not.mpr rfl
  rw [receive_eq hover, Thread.atPacket, hid, Thread.startFrame, if_neg hold]

/-- A block leaves the frame as it is only if packets have no room for data. -/
theorem appendBlock_same (hsize : packetSize < 2 ^ 32) (hlen : t.packet.length = packetSize)
    (hover : t.overrun = false) (hfits : t.iframe.buffer.length ≤ maxFrameSize) :
    (t.appendBlock packetSize).overrun = false ∧
        (t.appendBlock packetSize).iframe.buffer = t.iframe.buffer ↔
      packetSize = packetDataOffset t.packet := by
  obtain ⟨hcopied, hlength⟩ := appendBlock_length hsize hlen hover
  constructor
  · rintro ⟨hgoes, hsame⟩
    have hheader := header_le_of_dataSize_le hsize (le_of_add_le_right (hcopied.mp hgoes))
    have hnothing := hlength hgoes
    rw [hsame, dataSize_eq hsize, if_pos hheader] at hnothing
    omega
  · intro hempty
    have hzero : packetGetDataSize t.packet packetSize = 0 := by
      rw [dataSize_eq hsize, if_pos hempty.ge]
      omega
    have hgoes : (t.appendBlock packetSize).overrun = false := hcopied.mpr (by omega)
    refine ⟨hgoes, ?_⟩
    rw [Thread.appendBlock, hzero]
    simp [hfits]

/-- Only the status of GVCP is counted. -/
theorem handlePacket_errors (packetSize : Nat) (hstarted : t.isStarted = true)
    (hn : t.nPackets = 0) :
    (packetGetPacketType t.packet = packetTypeError →
      t.handlePacket packetSize = { t with nErrorPackets := t.nErrorPackets + 1 }) ∧
    (packetGetPacketType t.packet ≠ packetTypeError →
      (t.handlePacket packetSize).nErrorPackets = t.nErrorPackets) := by
  rw [handlePacket_eq hstarted hn]
  constructor
  · intro herror
    rw [if_pos herror]
  · intro herror
    rw [if_neg herror, Thread.appendBlock]
    repeat' split
    all_goals rfl

/-- Of the packets that should leave the frame alone, those do that have the error status of
GVCP, or a status that is none and no data. -/
theorem untouched_of_frame (hsize : packetSize < 2 ^ 32) (h : Follows t s)
    (hlen : s.1.length = packetSize) (hover : t.overrun = false)
    (hstarted : t.isStarted = true) (hfits : t.iframe.buffer.length ≤ maxFrameSize)
    (hframe : (arrival packetSize s d).frameId = lastId s.2)
    (hspurious : (arrival packetSize s d).IsSpurious (currentFrame s.2)) :
    Untouched packetSize t d (arrival packetSize s d) ↔
      (arrival packetSize s d).packetType = packetTypeError ∨
        ¬ ErrorStatus (arrival packetSize s d).packetType ∧
          packetSize = (arrival packetSize s d).offset := by
  have hpacket : (t.recvfrom packetSize d).packet = (arrival packetSize s d).buffer :=
    h.recvfrom_packet d
  have hlength : (t.recvfrom packetSize d).packet.length = packetSize :=
    (congrArg List.length hpacket).trans (arrival_length hlen d)
  have hstarted : (t.recvfrom packetSize d).isStarted = true := hstarted
  have hn : (t.recvfrom packetSize d).nPackets = 0 := h.nPackets hstarted
  obtain ⟨hcounts, hnot⟩ := handlePacket_errors packetSize hstarted hn
  obtain ⟨hblock, -⟩ := handlePacket_frame packetSize hstarted hn hpacket
  have heq := receive_same h hover hframe
  rw [hpacket] at hcounts hnot
  by_cases herror : (arrival packetSize s d).packetType = packetTypeError
  · rw [hcounts herror] at heq
    refine iff_of_true ⟨?_, ?_, fun _ => ?_⟩ (Or.inl herror)
    · rw [heq]
      exact hover
    · rw [heq]
      rfl
    · rw [heq]
      rfl
  by_cases hstatus : ErrorStatus (arrival packetSize s d).packetType
  · refine iff_of_false (fun huntouched => ?_) (by simp [herror, hstatus])
    have hcounted := huntouched.counted hstatus
    rw [heq, hnot herror] at hcounted
    have hold : (t.recvfrom packetSize d).nErrorPackets = t.nErrorPackets := rfl
    bv_omega
  · have hcontent := (hspurious.resolve_left hstatus).1
    have hkind : (arrival packetSize s d).isBlock = true := by
      simp [Arrival.isBlock, herror, hcontent]
    have hsame := appendBlock_same hsize hlength hover hfits
    rw [hblock hkind] at heq
    rw [hpacket, ← heq] at hsame
    have hgoal : Untouched packetSize t d (arrival packetSize s d) ↔
        (t.receive packetSize d).overrun = false ∧
          (t.receive packetSize d).iframe.buffer = t.iframe.buffer :=
      ⟨fun hu => ⟨hu.overrun, hu.buffer⟩, fun hu => ⟨hu.1, hu.2, fun hs => absurd hs hstatus⟩⟩
    rw [hgoal, Arrival.offset]
    simp only [herror, hstatus, false_or, not_false_eq_true, true_and]
    exact hsame

/-- **Of the packets that should leave the frame alone**, in every state with a started
frame, those do that have the error status of GVCP, or no error status and no data. -/
theorem untouched_iff (hsize : packetSize < 2 ^ 32) (packet : List UInt8)
    (hpacket : packet.length = packetSize) (iframe : Iframe) (nPackets : Nat)
    (ds : List (List UInt8)) (d : List UInt8)
    (hover : ((Thread.start packet iframe nPackets).after packetSize ds).overrun = false)
    (hstarted : ((Thread.start packet iframe nPackets).after packetSize ds).isStarted = true)
    (hframe : (arrival packetSize (arrived packetSize packet ds) d).frameId =
      lastId (arrived packetSize packet ds).2)
    (hspurious : (arrival packetSize (arrived packetSize packet ds) d).IsSpurious
      (currentFrame (arrived packetSize packet ds).2)) :
    Untouched packetSize ((Thread.start packet iframe nPackets).after packetSize ds) d
        (arrival packetSize (arrived packetSize packet ds) d) ↔
      (arrival packetSize (arrived packetSize packet ds) d).packetType = packetTypeError ∨
        ¬ ErrorStatus (arrival packetSize (arrived packetSize packet ds) d).packetType ∧
          packetSize = (arrival packetSize (arrived packetSize packet ds) d).offset := by
  have hfollows := follows_after packet iframe nPackets ds hover
  have hholds := holdsFrame_after hsize hpacket iframe nPackets ds hover hstarted
  have hfits : ((Thread.start packet iframe nPackets).after packetSize ds).iframe.buffer.length ≤
      maxFrameSize := hholds.1.trans_le hholds.2
  exact untouched_of_frame hsize hfollows (arrived_length hpacket ds) hover hstarted hfits
    hframe hspurious

end Receive

section Runs

/-- A packet of frame 1 and packet id 1, with the content type of a block. -/
def frameBlock (status : List UInt8) (data : List UInt8) : List UInt8 :=
  status ++ [0, 1, 0x03, 0, 0, 1] ++ data

/-- A block of one byte that has come into a buffer of nine. -/
def openedWith : List UInt8 × List Arrival :=
  arrived 9 (List.replicate 9 0) [frameBlock [0, 0] [7]]

def openedThread : Thread :=
  (Thread.start (List.replicate 9 0) ⟨0, []⟩ 0).after 9 [frameBlock [0, 0] [7]]

theorem untouched_iff_gvcpError : Untouched 9 openedThread (frameBlock [0, 0x80] [8])
    (arrival 9 openedWith (frameBlock [0, 0x80] [8])) :=
  have hsize : 9 < 2 ^ 32 := by decide
  (untouched_iff hsize (List.replicate 9 0) rfl ⟨0, []⟩ 0 [frameBlock [0, 0] [7]]
    (frameBlock [0, 0x80] [8]) (by decide) (by decide) (by decide)
    (Or.inl (by decide))).mpr (Or.inl (by decide))

/-- A packet that is not available, and a block that comes once more, are put to the frame. -/
theorem unavailable_appended :
    (ErrorStatus (arrival 9 openedWith (frameBlock [0x80, 0x0c] [8])).packetType ∧
      ¬ Untouched 9 openedThread (frameBlock [0x80, 0x0c] [8])
        (arrival 9 openedWith (frameBlock [0x80, 0x0c] [8]))) ∧
    ((arrival 9 openedWith (frameBlock [0, 0] [7])).IsDuplicate (currentFrame openedWith.2) ∧
      ¬ Untouched 9 openedThread (frameBlock [0, 0] [7])
        (arrival 9 openedWith (frameBlock [0, 0] [7]))) := by
  refine ⟨⟨by decide, fun h => ?_⟩, ⟨by decide, ?_⟩, fun h => ?_⟩
  · exact absurd h.buffer (by decide)
  · exact ⟨arrival 9 (List.replicate 9 0, []) (frameBlock [0, 0] [7]), by decide, by decide,
      by decide⟩
  · exact absurd h.buffer (by decide)

end Runs

end DclProcessor.Camera
