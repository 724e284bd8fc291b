import DclProcessor.Library.Bytes
import Mathlib.Logic.Function.Basic

/-!
`camera_gvsp_thread`: the packets of a camera's stream are put together to frames. Every
datagram is received in the same buffer `packet`, where a shorter one leaves the rest of
the one before.
-/

namespace DclProcessor.Camera

open Bytes

/-- `MAX_FRAME_SIZE` -/
def maxFrameSize : Nat := 120000000

/-- `GVCP_PACKET_TYPE_ERROR` -/
def packetTypeError : Nat := 0x80

inductive ContentType
  | dataLeader
  | dataTrailer
  | dataBlock
  | allIn
  | other
  deriving DecidableEq

def contentTypeOf : Nat → ContentType
  | 0x01 => .dataLeader
  | 0x02 => .dataTrailer
  | 0x03 => .dataBlock
  | 0x04 => .allIn
  | _ => .other

section Packet

variable (packet : List UInt8)

/-- The member of a packed structure at `off`. -/
def member (off len : Nat) : List UInt8 := (packet.drop off).take len

/-- `ntohs`, `ntohl` -/
def beValue (bytes : List UInt8) : Nat := leValue bytes.reverse

/-- `packet->header[2] & GVSP_PACKET_EXTENDED_ID_MODE_MASK` -/
def packetHasExtendedIds : Bool := leValue (member packet 4 1) &&& 0x80 ≠ 0

def packetGetPacketType : Nat := beValue (member packet 0 2)

/-- `packet_info` has the same place in both headers. -/
def packetGetContentType : ContentType :=
  contentTypeOf ((beValue (member packet 4 4) &&& 0x7f000000) >>> 24)

def packetGetPacketId : Nat :=
  if packetHasExtendedIds packet then beValue (member packet 16 4)
  else beValue (member packet 4 4) &&& 0x00ffffff

/-- The 64 bits of an extended id are taken as they are in memory. -/
def packetGetFrameId : Nat :=
  if packetHasExtendedIds packet then leValue (member packet 8 8)
  else beValue (member packet 2 2)

/-- The offset of `data` in the packet: `sizeof(struct gvsp_packet)` and the header. -/
def packetDataOffset : Nat := if packetHasExtendedIds packet then 2 + 18 else 2 + 6

def packetGetData : List UInt8 := packet.drop (packetDataOffset packet)

/-- In `size_t`; how many bytes were received plays no part. -/
def packetGetDataSize (packetSize : Nat) : Nat :=
  (packetSize + 2 ^ 64 - packetDataOffset packet) % 2 ^ 64

end Packet

/-- `struct iframe_data`; `buffer` has the `buffer_size` bytes in use. -/
structure Iframe where
  frameId : Nat
  buffer : List UInt8
  deriving DecidableEq

/-- The locals of the thread, what it uses of `*frame` and of the camera, and the calls of
`new_frame_action` so far. `overrun`: a block has been copied past the end of
`iframe.buffer`, and nothing is said of what follows. -/
structure Thread where
  packet : List UInt8
  lastFrameId : Nat
  isStarted : Bool
  nPackets : Nat
  received : Nat → Bool
  iframe : Iframe
  nReceivedPackets : BitVec 32
  nErrorPackets : BitVec 32
  nIgnoredPackets : BitVec 32
  delivered : List Iframe
  overrun : Bool

namespace Thread

/-- `if (frame->is_started)` in the change to a new frame. -/
def newFrameAction (t : Thread) : Thread :=
  if t.isStarted then
    let iframe := { t.iframe with frameId := t.lastFrameId }
    { t with iframe := iframe, delivered := t.delivered ++ [iframe] }
  else t

/-- `if (frame_id != last_frame_id)` -/
def startFrame (t : Thread) (frameId : Nat) : Thread :=
  if frameId ≠ t.lastFrameId then
    let t := t.newFrameAction
    { t with
      iframe := { t.iframe with buffer := [] }
      isStarted := true
      nPackets := 0
      lastFrameId := frameId }
  else t

/-- `memcpy` of the data of the block behind what is there, and the new `buffer_size`. -/
def appendBlock (t : Thread) (packetSize : Nat) : Thread :=
  let size := packetGetDataSize t.packet packetSize
  if t.iframe.buffer.length + size ≤ maxFrameSize then
    let data := (packetGetData t.packet).take size
    { t with iframe := { t.iframe with buffer := t.iframe.buffer ++ data } }
  else { t with overrun := true }

/-- The rest of the loop's body, from `if (frame->is_started)` on. -/
def handlePacket (t : Thread) (packetSize : Nat) : Thread :=
  let packetId := packetGetPacketId t.packet
  if !t.isStarted then { t with nIgnoredPackets := t.nIgnoredPackets + 1 }
  else if packetGetPacketType t.packet = packetTypeError then
    { t with nErrorPackets := t.nErrorPackets + 1 }
  else if packetId < t.nPackets ∧ t.received packetId then t
  else
    let t := if packetId < t.nPackets then
      { t with received := Function.update t.received packetId true } else t
    match packetGetContentType t.packet with
    | .dataLeader => t
    | .dataBlock => t.appendBlock packetSize
    | .dataTrailer => t
    | _ => { t with nIgnoredPackets := t.nIgnoredPackets + 1 }

/-- `recvfrom` has room for `packet_size` bytes. -/
def recvfrom (t : Thread) (packetSize : Nat) (datagram : List UInt8) : Thread :=
  { t with
    packet := overwrite t.packet 0 (datagram.take packetSize)
    nReceivedPackets := t.nReceivedPackets + 1 }

/-- One turn of the loop in which a datagram is there. -/
def receive (packetSize : Nat) (t : Thread) (datagram : List UInt8) : Thread :=
  if t.overrun then t
  else
    let t := t.recvfrom packetSize datagram
    (t.startFrame (packetGetFrameId t.packet)).handlePacket packetSize

/-- The thread before its loop: `malloc` leaves something in `packet`, as an earlier run
may have in the camera. -/
def start (packet : List UInt8) (iframe : Iframe) (nPackets : Nat) : Thread where
  packet := packet
  lastFrameId := 0
  isStarted := false
  nPackets := nPackets
  received := fun _ => false
  iframe := iframe
  nReceivedPackets := 0
  nErrorPackets := 0
  nIgnoredPackets := 0
  delivered := []
  overrun := false

end Thread

end DclProcessor.Camera
