import DclProcessor.Camera.Header

/-!
The tables of `gige_camera_ops.c`: what each operation reads and writes, in order, and how
the requests get their packet ids. An operation has its own copy of the packet id, which
`next_packet_id` advances before each request.
-/

namespace DclProcessor.Camera

open Bytes

/-- A line of an operation; `value` is its local of that name. -/
inductive Command
  /-- `read_register(fd, regAddr, &value, next_packet_id(packet_id))` -/
  | read (regAddr : Nat)
  /-- `write_register(fd, regAddr, regValue, next_packet_id(packet_id))` -/
  | write (regAddr regValue : Nat)
  /-- `write_register(fd, regAddr, value, next_packet_id(packet_id))` -/
  | writeBack (regAddr : Nat)
  /-- `if (value != regValue) write_register(fd, regAddr, regValue, ...)` -/
  | writeUnless (regAddr regValue : Nat)
  /-- `if (value > limit) { value = limit; write_register(fd, regAddr, value, ...); }` -/
  | limitTo (regAddr limit : Nat)
  /-- `read_register` with a number for the address of the value. -/
  | readNowhere (regAddr : Nat)
  deriving DecidableEq

/-- The `no` operations take no packet id, and an operation is its lines otherwise. -/
structure GigeCameraOps where
  gvcpWatchdog : List Command
  gvcpStart : List Command
  gvcpStop : List Command

/-- `GV_CONTROL_CHANNEL_PRIVILEGE_OFFSET` -/
def privilege : Nat := 0xa00

/-- `GV_STREAM_CHANNEL_0_PORT_OFFSET` -/
def channelPort : Nat := 0xd00

/-- `GV_STREAM_CHANNEL_SOURCE_PORT_OFFSET` -/
def sourcePort : Nat := 0xd1c

/-- `GV_STREAM_CHANNEL_0_PACKET_SIZE_OFFSET` -/
def channelPacketSize : Nat := 0xd04

def gigeCameraOpsNo : GigeCameraOps := ⟨[], [], []⟩

def gigeCameraOpsArvfake : GigeCameraOps where
  gvcpWatchdog := [.read privilege, .writeUnless privilege 0x02]
  gvcpStart := [.write privilege 0x02, .write 0x124 0x01]
  gvcpStop := [.write privilege 0x02, .write 0x124 0x00]

def gigeCameraOpsFlirColor : GigeCameraOps where
  gvcpWatchdog :=
    [.read privilege, .writeUnless privilege 0x02, .write 0xF0F04030 0x80000000, .read sourcePort]
  gvcpStart :=
    [.write privilege 0x02, .write 0xF0F00A08 0, .read 0xF0F00A0C, .writeBack 0xF0F00A0C,
      .write 0xF0F00A08 0, .read 0xF0F00960, .read 0xF0F00964, .read 0xF0F00530, .read 0xF0F00830,
      .write 0xF0F00830 0x80000000, .read 0xF0F0083C, .writeBack 0xF0F0083C, .read 0xF0F0053C,
      .read 0xF0F0083C, .write 0xF0F0083C 0xC2000610, .write 0xF0F00968 0x41200000,
      .read 0xF0F05410, .read 0xF0F04050, .read 0xF0F04054, .read channelPort, .read sourcePort,
      .write 0xF0F04030 0x80000000]
  gvcpStop := [.write privilege 0x02, .read 0xF0F00614, .write 0xF0F00614 0]

def gigeCameraOpsFlirColor2 : GigeCameraOps where
  gvcpWatchdog := [.write privilege 0x02]
  gvcpStart :=
    [.write privilege 0x02, .write 0x81044 0, .write 0x81024 0, .read 0x81084, .read 0x81084,
      .write 0x81044 0, .write 0x81024 0, .read 0xC1108, .read 0xC1148, .read 0xC8C40,
      .read 0xC8C20, .read 0xC8C00, .write 0xC8424 0, .write 0xC1124 1, .read 0x20002008,
      .read channelPort, .read sourcePort, .write privilege 0x02, .write 0xC0004 1]
  gvcpStop := [.write privilege 0x02, .read 0xC0004, .write 0xC0024 1]

def gigeCameraOpsFlirPolar : GigeCameraOps where
  gvcpWatchdog := [.read privilege]
  gvcpStart :=
    [.write privilege 0x02, .write 0x81044 0, .write 0x81024 0, .write 0x81084 0xc8,
      .write 0x81064 0xc8, .write privilege 0x02, .read sourcePort, .read channelPacketSize,
      .write 0x4050 0, .write 0x4054 0, .write privilege 0x02, .write 0xc00c8 0, .write 0xc1104 1,
      .write 0xc0004 1]
  gvcpStop := [.write privilege 0x02, .write 0xc1124 0]

def gigeCameraOpsLucidPolar : GigeCameraOps where
  gvcpWatchdog := [.write privilege 0x02]
  gvcpStart := [.write privilege 0x02, .write 0x10300004 0x01]
  gvcpStop := [.read privilege, .write 0x10300004 0x00]

/-- The address `0x820001004` is cut to 32 bits when it is passed. -/
def gigeCameraOpsBaumer : GigeCameraOps where
  gvcpWatchdog := [.write privilege 0x801]
  gvcpStart :=
    [.write privilege 0x803, .read channelPort, .read sourcePort, .write privilege 0x02,
      .write 0x82000000 0x801, .read 0x820001004]
  gvcpStop := [.readNowhere privilege, .write 0x820C0024 1]

inductive Table
  | no | arvfake | flirColor | flirColor2 | flirPolar | lucidPolar | baumer
  deriving DecidableEq

def Table.ops : Table → GigeCameraOps
  | no => gigeCameraOpsNo
  | arvfake => gigeCameraOpsArvfake
  | flirColor => gigeCameraOpsFlirColor
  | flirColor2 => gigeCameraOpsFlirColor2
  | flirPolar => gigeCameraOpsFlirPolar
  | lucidPolar => gigeCameraOpsLucidPolar
  | baumer => gigeCameraOpsBaumer

inductive Operation
  | watchdog | start | stop
  deriving DecidableEq

def GigeCameraOps.lines (ops : GigeCameraOps) : Operation → List Command
  | .watchdog => ops.gvcpWatchdog
  | .start => ops.gvcpStart
  | .stop => ops.gvcpStop

/-! ## Requests -/

/-- What comes of a request: whether `write` succeeds, and what is read then, if anything. -/
structure Outcome where
  written : Bool
  answer : Option (List UInt8)

/-- What comes of each request of a session. -/
abbrev Outcomes := Nat → Outcome

/-- What `next_packet_id` has as its value when it has advanced the id to `id`. -/
def wireId (id : Nat) : Nat := 0xf000 ||| (id &&& 0xfff)

namespace Command

/-- Whether a line sends a request. -/
def sends (value : Nat) : Command → Bool
  | .writeUnless _ regValue => value ≠ regValue
  | .limitTo _ limit => limit < value
  | _ => true

def packet (value packetId : Nat) : Command → List UInt8
  | .read regAddr => gvcpReadRegisterPacket regAddr packetId
  | .write regAddr regValue => gvcpWriteRegisterPacket regAddr regValue packetId
  | .writeBack regAddr => gvcpWriteRegisterPacket regAddr value packetId
  | .writeUnless regAddr regValue => gvcpWriteRegisterPacket regAddr regValue packetId
  | .limitTo regAddr limit => gvcpWriteRegisterPacket regAddr limit packetId
  | .readNowhere regAddr => gvcpReadRegisterPacket regAddr packetId

/-- What is in `value` then. -/
def valueAfter (value : Nat) (answer : Option (List UInt8)) : Command → Nat
  | .read _ => gvcpRegisterAck value answer
  | .limitTo _ limit => if limit < value then limit else value
  | _ => value

/-- Only with an answer is something stored where the number points to. -/
def crashes (answer : Option (List UInt8)) : Command → Bool
  | .readNowhere _ => answer.isSome
  | _ => false

end Command

/-- An operation on its way: its locals, how many requests the session has made so far, and
those of them that were written. -/
structure Exec where
  packetId : Nat
  value : Nat
  requests : Nat
  written : List (List UInt8)
  crashed : Bool

namespace Exec

variable (outcomes : Outcomes)

/-- `read_register` and `write_register` go on when `write` fails. -/
def command (e : Exec) (c : Command) : Exec :=
  let outcome := outcomes e.requests
  let packetId := (e.packetId + 1) % 2 ^ 32
  if c.sends e.value then
    { packetId := packetId
      value := c.valueAfter e.value outcome.answer
      requests := e.requests + 1
      written :=
        if outcome.written then e.written ++ [c.packet e.value (wireId packetId)] else e.written
      crashed := c.crashes outcome.answer }
  else e

/-- Line by line, until the process has crashed. -/
def lines (e : Exec) (cs : List Command) : Exec :=
  cs.foldl (fun e c => if e.crashed then e else e.command outcomes c) e

end Exec

/-- The id in a request that is written. -/
def requestId (packet : List UInt8) : Nat := beValue (gvcpId packet)

/-- How many requests some lines make from request `n` of the session on, and whether the
process crashes. -/
def sentBy (outcomes : Outcomes) : Nat → Nat → List Command → Nat × Bool
  | _, _, [] => (0, false)
  | n, value, c :: cs =>
    if c.sends value then
      if c.crashes (outcomes n).answer then (1, true)
      else
        let rest := sentBy outcomes (n + 1) (c.valueAfter value (outcomes n).answer) cs
        (rest.1 + 1, rest.2)
    else sentBy outcomes n value cs

theorem wireId_eq (id : Nat) : wireId id = 0xf000 + id % 4096 := by
  have hhigh : 0xf000 = 15 <<< 12 := rfl
  have hlow : 0xfff = 2 ^ 12 - 1 := rfl
  rw [wireId, hlow, Nat.and_two_pow_sub_one_eq_mod, hhigh,
    ← Nat.shiftLeft_add_eq_or_of_lt (Nat.mod_lt _ (by decide))]

theorem wireId_bounds (id : Nat) : 0xf000 ≤ wireId id ∧ wireId id ≤ 0xffff := by
  rw [wireId_eq]
  omega

theorem wireId_mod (id : Nat) : wireId (id % 2 ^ 32) = wireId id := by
  rw [wireId_eq, wireId_eq]
  omega

/-- A header has its id behind type, flags, command and size. -/
theorem gvcpHeader_id (command size packetId : Nat) (data : List UInt8) :
    gvcpId (gvcpHeader command size packetId ++ data) = beBytes 2 packetId := by
  rw [gvcpId, gvcpHeader]
  exact member_at (by simp) (by simp)

theorem requestId_packet (c : Command) (value id : Nat) :
    requestId (c.packet value (wireId id)) = wireId id := by
  have hid : gvcpId (c.packet value (wireId id)) = beBytes 2 (wireId id) := by
    cases c with
    | read | readNowhere => exact gvcpHeader_id ..
    | write | writeBack | writeUnless | limitTo =>
      rw [Command.packet, gvcpWriteRegisterPacket, List.append_assoc]
      exact gvcpHeader_id ..
  have hbounds := wireId_bounds id
  rw [requestId, hid, beValue_beBytes, Nat.mod_eq_of_lt (by omega)]

end DclProcessor.Camera
