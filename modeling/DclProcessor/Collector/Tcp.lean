import DclProcessor.Library.Bytes
import DclProcessor.Library.Transition

/-!
`source_data_thread_tcp`: frames come over a byte stream, each with a header that
holds its size and its id, and every `read` returns some of the bytes asked for.
-/

namespace DclProcessor.Collector

open Transition Bytes

/-- `header_len`: `sizeof(size_t) + sizeof(int)`. -/
def headerLen : Nat := 12

/-- Linux transfers at most this many bytes in one `read`, so that the `int bytes`
of the loop can hold its result. -/
def readMax : Nat := 0x7ffff000

/-- Arithmetic of `size_t`. -/
def sizeAdd (a b : Nat) : Nat := (a + b) % 2 ^ 64
def sizeSub (a b : Nat) : Nat := (a + 2 ^ 64 - b) % 2 ^ 64

/-- A frame of `data_len` bytes with its `int` id. -/
structure Frame (dataLen : Nat) where
  id : BitVec 32
  data : List UInt8
  length_data : data.length = dataLen

/-- A frame as it is sent: the size of header and data, the id, the data. -/
def encode {dataLen : Nat} (f : Frame dataLen) : List UInt8 :=
  leBytes 8 (headerLen + dataLen) ++ leBytes 4 f.id.toNat ++ f.data

/-- The buffers of `struct data_packet`, the local variables of the thread, the
bytes not read yet and the calls of `new_frame_action` so far. `overrun`: a read
has written past the end of `packet->header` or `packet->data`. -/
structure Reader where
  header : List UInt8
  data : List UInt8
  recievedLen : Nat
  remainingLen : Nat
  frameId : BitVec 32
  headerOk : Bool
  exitFlag : Bool
  overrun : Bool
  stream : List UInt8
  delivered : List (BitVec 32 × List UInt8)

/-- What `read` returns: -1, 0, or a number of bytes. -/
inductive ReadResult
  | error
  | none
  | bytes (n : Nat)

namespace Reader

/-- The size asked for; the first test of the loop sets a zero to `header_len`. -/
def asked (r : Reader) : Nat := if r.remainingLen = 0 then headerLen else r.remainingLen

/-- `if (!header_ok && recieved_len < packet->header_len)` -/
def headerPart (n : Nat) (r : Reader) : Reader :=
  if !r.headerOk && r.recievedLen < headerLen then
    { r with remainingLen := sizeSub r.remainingLen n }
  else r

/-- `if (!header_ok && recieved_len == packet->header_len)` -/
def headerEnd (r : Reader) : Reader :=
  if !r.headerOk && r.recievedLen = headerLen then
    { r with
      frameId := BitVec.ofNat 32 (leValue ((r.header.drop 8).take 4))
      recievedLen := 0
      remainingLen := leValue (r.header.take 8)
      headerOk := true }
  else r

/-- `if (header_ok && recieved_len < packet->data_len)` -/
def dataPart (dataLen n : Nat) (r : Reader) : Reader :=
  if r.headerOk && r.recievedLen < dataLen then
    { r with remainingLen := sizeSub r.remainingLen n }
  else r

/-- `if (header_ok && recieved_len == packet->data_len)` -/
def dataEnd (dataLen : Nat) (r : Reader) : Reader :=
  if r.headerOk && r.recievedLen = dataLen then
    { r with
      remainingLen := headerLen
      recievedLen := 0
      headerOk := false
      delivered := r.delivered ++ [(r.frameId, r.data)] }
  else r

/-- The branch for `bytes > 0`. -/
def account (dataLen n : Nat) (r : Reader) : Reader :=
  dataEnd dataLen (dataPart dataLen n (headerEnd (headerPart n
    { r with recievedLen := sizeAdd r.recievedLen n })))

/-- `read` of `n` bytes to `packet->header` or `packet->data`. -/
def fill (dataLen n : Nat) (r : Reader) : Reader :=
  let chunk := r.stream.take n
  let r := { r with remainingLen := r.asked, stream := r.stream.drop n }
  if r.headerOk then
    if r.recievedLen + n ≤ dataLen then { r with data := overwrite r.data r.recievedLen chunk }
    else { r with overrun := true }
  else
    if r.recievedLen + n ≤ headerLen then
      { r with header := overwrite r.header r.recievedLen chunk }
    else { r with overrun := true }

/-- One turn of the loop. After an overrun the behaviour is undefined, and no step
follows. -/
def step (dataLen : Nat) (r : Reader) (res : ReadResult) : Option Reader :=
  if r.exitFlag || r.overrun then none
  else
    match res with
    | .error => some { r with exitFlag := true }
    | .none => some { r with remainingLen := r.asked }
    | .bytes n =>
        if 0 < n ∧ n ≤ r.asked ∧ n ≤ readMax ∧ n ≤ r.stream.length then
          let r := r.fill dataLen n
          if r.overrun then some r else some (r.account dataLen n)
        else none

/-- Before the first read; the buffers come from `malloc`. -/
def start (header data stream : List UInt8) : Reader where
  header := header
  data := data
  recievedLen := 0
  remainingLen := headerLen
  frameId := -1
  headerOk := false
  exitFlag := false
  overrun := false
  stream := stream
  delivered := []

end Reader

/-- The loop, with the sizes of the reads as events. -/
def tcp (dataLen : Nat) : System Reader ReadResult Nat where
  step := Reader.step dataLen
  emit _
    | .bytes n => [n]
    | _ => []

end DclProcessor.Collector
