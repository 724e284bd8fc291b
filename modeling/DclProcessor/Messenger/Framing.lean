import Mathlib.Data.List.DropRight
import DclProcessor.Library.CString
import DclProcessor.Library.Transition
import DclProcessor.Messenger.Request

/-!
The framing of messages: `read_connection_data` appends what comes on a connection to its
buffer, and `connection_extract_message` looks for a line in it. The line it finds stays
in the buffer, and the code that is to move the rest to the front runs when no line is
found, on a null pointer.
-/

namespace DclProcessor.Messenger

open Transition Bytes

def newline : UInt8 := 10

/-- `sizeof(conn->buffer)`. -/
def bufferSize : Nat := maxMsgLen + 1

/-- `struct connection`, the fields of the receive buffer. -/
structure Connection where
  buffer : List UInt8
  offset : Nat
  deriving DecidableEq, Repr

/-- `connection_add`. -/
def connectionAdd : Connection := ⟨List.replicate bufferSize 0, 0⟩

def Connection.remainder (conn : Connection) : Nat := bufferSize - conn.offset

/-- `read_connection_data` when `read` returns `bytes`; `none` when it returns 1. -/
def readConnectionData (conn : Connection) (bytes : List UInt8) : Option Connection :=
  if conn.remainder = 0 ∨ bytes = [] then none
  else some ⟨overwrite conn.buffer conn.offset bytes, conn.offset + bytes.length⟩

/-- `connection_extract_message`, with the text of the message. Without a line `endl` is
the null pointer when it is incremented and moved from, which is undefined (`none`). -/
def connectionExtractMessage (conn : Connection) : Option (Connection × List UInt8) :=
  match (conn.buffer.take conn.offset).findIdx? (· = newline) with
  | some endl =>
      let buffer := conn.buffer.set endl 0
      some ({ conn with buffer := buffer }, cString buffer)
  | none => none

/-! ## One connection -/

/-- `closed`: deleted after `read_connection_data` has returned 1; `undefined`: the process
has run into undefined behaviour. -/
inductive Status
  | listening (conn : Connection)
  | closed
  | undefined

structure Stream where
  status : Status
  /-- The bytes read so far. -/
  received : List UInt8

/-- The loop body of `tcp_server_process` and `event_thread` for an event on the connection,
with the messages given to the callback. -/
def handle (conn : Connection) (bytes : List UInt8) : Status × List (List UInt8) :=
  match readConnectionData conn bytes with
  | none => (.closed, [])
  | some conn =>
      match connectionExtractMessage conn with
      | some (conn, text) => (.listening conn, [text])
      | none => (.undefined, [])

/-- `read` returns at least one byte and at most as many as fit. -/
def receive (s : Stream) (bytes : List UInt8) : Option Stream :=
  match s.status with
  | .listening conn =>
      if conn.remainder = 0 then some { s with status := .closed }
      else if bytes ≠ [] ∧ bytes.length ≤ conn.remainder then
        some ⟨(handle conn bytes).1, s.received ++ bytes⟩
      else none
  | _ => none

def delivered (s : Stream) (bytes : List UInt8) : List (List UInt8) :=
  match s.status with
  | .listening conn => if conn.remainder = 0 then [] else (handle conn bytes).2
  | _ => []

/-- Each action is the bytes of one `read`, each event a message given to the callback. -/
def messenger : System Stream (List UInt8) (List UInt8) where
  step := receive
  emit := delivered

/-- Runs of a new connection: every way to receive a stream in pieces. -/
abbrev Received (messages : List (List UInt8)) (s : Stream) : Prop :=
  Trace messenger (fun _ => True) ⟨.listening connectionAdd, []⟩ messages s

/-- The lines of a stream, without their newlines. -/
def lines (bytes : List UInt8) : List (List UInt8) := (bytes.splitOn newline).dropLast

/-- What comes after the last line. -/
def unfinished (bytes : List UInt8) : List UInt8 := bytes.rtakeWhile (· ≠ newline)

/-- The messages are the lines of the stream, and the buffer holds what has come after the
last of them. -/
def Framed (messages : List (List UInt8)) (s : Stream) : Prop :=
  ∃ conn, s.status = .listening conn ∧ messages = lines s.received ∧
    conn.buffer.take conn.offset = unfinished s.received ∧ conn.offset ≤ bufferSize

/-! ## What the buffer holds -/

theorem readConnectionData_some {conn conn' : Connection} {bytes : List UInt8}
    (h : readConnectionData conn bytes = some conn') :
    conn' = ⟨overwrite conn.buffer conn.offset bytes, conn.offset + bytes.length⟩ := by
  unfold readConnectionData at h
  split at h
  · cases h
  · exact (Option.some.inj h).symm

theorem extract_some {conn conn' : Connection} {text : List UInt8}
    (h : connectionExtractMessage conn = some (conn', text)) :
    ∃ endl, (conn.buffer.take conn.offset).findIdx? (· = newline) = some endl ∧
      conn' = { conn with buffer := conn.buffer.set endl 0 } ∧ text = cString conn'.buffer := by
  unfold connectionExtractMessage at h
  split at h
  · next endl hfind =>
    simp only [Option.some.injEq, Prod.mk.injEq] at h
    obtain ⟨rfl, rfl⟩ := h
    exact ⟨endl, hfind, rfl, rfl⟩
  · cases h

/-- The cases of an event on the connection. -/
theorem receive_cases {s s' : Stream} {bytes : List UInt8} (h : receive s bytes = some s') :
    ∃ conn, s.status = .listening conn ∧
      (conn.remainder = 0 ∧ s' = { s with status := .closed } ∧ delivered s bytes = [] ∨
        bytes ≠ [] ∧ bytes.length ≤ conn.remainder ∧ s'.received = s.received ++ bytes ∧
          (s'.status = .undefined ∧ delivered s bytes = [] ∨
            ∃ read conn' text, readConnectionData conn bytes = some read ∧
              connectionExtractMessage read = some (conn', text) ∧
              s'.status = .listening conn' ∧ delivered s bytes = [text])) := by
  unfold receive at h
  split at h
  · next conn hconn =>
    refine ⟨conn, hconn, ?_⟩
    unfold delivered
    rw [hconn]
    simp only
    split at h
    · next hfull =>
      cases h
      exact Or.inl ⟨hfull, rfl, by rw [if_pos hfull]⟩
    · next hroom =>
      split at h
      · next hbytes =>
        cases h
        refine Or.inr ⟨hbytes.1, hbytes.2, rfl, ?_⟩
        rw [if_neg hroom]
        have hread : readConnectionData conn bytes =
            some ⟨overwrite conn.buffer conn.offset bytes, conn.offset + bytes.length⟩ := by
          simp [readConnectionData, hroom, hbytes.1]
        unfold handle
        rw [hread]
        simp only
        cases hx : connectionExtractMessage
            ⟨overwrite conn.buffer conn.offset bytes, conn.offset + bytes.length⟩ with
        | none => exact Or.inl ⟨rfl, rfl⟩
        | some r => exact Or.inr ⟨_, r.1, r.2, rfl, hx, rfl, rfl⟩
      · cases h
  · cases h

/-- Nothing ever leaves the buffer. -/
structure Holds (conn : Connection) (received : List UInt8) : Prop where
  size : conn.buffer.length = bufferSize
  offset : conn.offset = received.length
  fits : conn.offset ≤ bufferSize
  line : received ≠ [] → newline ∈ received

def Kept (s : Stream) : Prop :=
  match s.status with
  | .listening conn => Holds conn s.received
  | _ => s.received ≠ []

theorem Kept.holds {s : Stream} {conn : Connection} (h : Kept s)
    (hconn : s.status = .listening conn) : Holds conn s.received := by
  unfold Kept at h
  rw [hconn] at h
  exact h

theorem newline_mem_take {conn conn' : Connection} {text : List UInt8}
    (h : connectionExtractMessage conn = some (conn', text)) :
    newline ∈ conn.buffer.take conn.offset := by
  obtain ⟨endl, hfind, -, -⟩ := extract_some h
  obtain ⟨hlt, hline, -⟩ := List.findIdx?_eq_some_iff_getElem.mp hfind
  have hnl : (conn.buffer.take conn.offset)[endl] = newline := by simpa using hline
  exact hnl ▸ List.getElem_mem hlt

theorem kept_step {s s' : Stream} {bytes : List UInt8} (h : Kept s)
    (hs : receive s bytes = some s') : Kept s' := by
  obtain ⟨conn, hconn, hcase⟩ := receive_cases hs
  have hholds := h.holds hconn
  rcases hcase with ⟨hfull, rfl, -⟩ | ⟨hne, hlen, hrec, ⟨hst, -⟩ | ⟨read, conn', text, hread, hx, hst, -⟩⟩
  · show s.received ≠ []
    intro hnil
    have := hholds.offset
    simp [Connection.remainder, bufferSize, this, hnil] at hfull
  · unfold Kept
    rw [hst, hrec]
    simp [hne]
  · obtain rfl := readConnectionData_some hread
    obtain ⟨endl, -, rfl, -⟩ := extract_some hx
    have hsize := hholds.size
    have hoff := hholds.offset
    have hroom : conn.offset + bytes.length ≤ conn.buffer.length := by
      unfold Connection.remainder at hlen
      have := hholds.fits
      omega
    unfold Kept
    rw [hst, hrec]
    refine ⟨?_, ?_, ?_, fun _ => ?_⟩
    · rw [List.length_set, overwrite_length hroom, hsize]
    · simp [hoff]
    · show conn.offset + bytes.length ≤ bufferSize
      omega
    · rcases Classical.em (s.received = []) with hnil | hsome
      · -- the first bytes: they are all that the buffer holds
        have hmem := newline_mem_take hx
        have hzero : conn.offset = 0 := by rw [hoff, hnil]; rfl
        simpa [overwrite, hzero, hnil] using hmem
      · exact List.mem_append_left _ (hholds.line hsome)

theorem kept_of_received {messages : List (List UInt8)} {s : Stream} (h : Received messages s) :
    Kept s := by
  refine invariant (P := fun _ s => Kept s) ?_ (fun _ _ _ _ hk _ hs => kept_step hk hs) h
  exact ⟨by simp [connectionAdd], rfl, by simp [connectionAdd], fun hne => absurd rfl hne⟩

/-- A connection on which nothing has been received is as it was made. -/
theorem fresh_of_received {messages : List (List UInt8)} {s : Stream}
    (h : Received messages s) (hnil : s.received = []) :
    messages = [] ∧ s.status = .listening connectionAdd := by
  induction h with
  | start => exact ⟨rfl, rfl⟩
  | @next messages s s' bytes htrace hok hs ih =>
    obtain ⟨conn, hconn, ⟨hfull, rfl, -⟩ | ⟨hne, -, hrec, -⟩⟩ := receive_cases hs
    · obtain ⟨-, hnew⟩ := ih hnil
      rw [hconn] at hnew
      cases hnew
      exact absurd hfull (by decide)
    · rw [hrec] at hnil
      exact absurd (List.append_eq_nil_iff.mp hnil).2 hne

/-- **Messages are framed** only as long as nothing has been received. -/
theorem framed_iff {messages : List (List UInt8)} {s : Stream} (h : Received messages s) :
    Framed messages s ↔ s.received = [] := by
  have hkept := kept_of_received h
  constructor
  · rintro ⟨conn, hconn, -, hrest, -⟩
    by_contra hne
    have hholds := hkept.holds hconn
    have hlen := congrArg List.length hrest
    rw [List.length_take, hholds.size, Nat.min_eq_left hholds.fits, hholds.offset] at hlen
    -- the last line is longer than nothing
    have hall := List.rtakeWhile_eq_self_iff.mp
      ((List.rtakeWhile_suffix _ _).eq_of_length hlen.symm) newline (hholds.line hne)
    simp at hall
  · intro hnil
    obtain ⟨rfl, hst⟩ := fresh_of_received h hnil
    refine ⟨connectionAdd, hst, ?_, ?_, by simp [connectionAdd]⟩ <;> rw [hnil]
    · rfl
    · rfl

/-! ## What is delivered instead -/

/-- The first line of a stream, as a C string. -/
def firstLine (bytes : List UInt8) : List UInt8 :=
  bytes.takeWhile fun b => b ≠ newline && b ≠ 0

theorem firstLine_cons (x : UInt8) (xs : List UInt8) :
    firstLine (x :: xs) = if x = newline ∨ x = 0 then [] else x :: firstLine xs := by
  by_cases hx : x = newline <;> by_cases hz : x = 0 <;> simp [firstLine, hx, hz]

/-- Ending the first line with a null character leaves it the first line. -/
theorem firstLine_set {xs : List UInt8} {endl : Nat}
    (h : xs.findIdx? (· = newline) = some endl) (zs : List UInt8) :
    firstLine (xs.set endl 0) = firstLine xs ∧ cString (xs.set endl 0 ++ zs) = firstLine xs ∧
      (firstLine xs).length < xs.length := by
  induction xs generalizing endl with
  | nil => simp at h
  | cons x xs ih =>
    rw [List.findIdx?_cons] at h
    split at h
    · next hx =>
      obtain rfl : endl = 0 := (Option.some.inj h).symm
      simp only [decide_eq_true_eq] at hx
      simp [firstLine_cons, cString_cons, hx]
    · next hx =>
      obtain ⟨j, hj, rfl⟩ := Option.map_eq_some_iff.mp h
      obtain ⟨hset, hstr, hlen⟩ := ih hj
      simp only [decide_eq_true_eq] at hx
      rw [List.set_cons_succ, List.cons_append, firstLine_cons, firstLine_cons, cString_cons]
      by_cases hzero : x = 0
      · simp [hzero]
      · simp [hx, hzero, hset, hstr, hlen]

/-- The null character is set in what has been received, not behind it. -/
theorem set_newline {buffer : List UInt8} {n endl : Nat}
    (h : (buffer.take n).findIdx? (· = newline) = some endl) :
    buffer.set endl 0 = (buffer.take n).set endl 0 ++ buffer.drop n := by
  obtain ⟨hin, -⟩ := List.findIdx?_eq_some_iff_getElem.mp h
  rw [← List.set_append_left _ _ hin, List.take_append_drop]

theorem firstLine_append {xs : List UInt8} (h : (firstLine xs).length < xs.length)
    (ys : List UInt8) : firstLine (xs ++ ys) = firstLine xs := by
  unfold firstLine at h ⊢
  rw [List.takeWhile_append, if_neg (Nat.ne_of_lt h)]

/-- The buffer begins with the first line of the stream. -/
def ShowsFirst (s : Stream) : Prop :=
  ∀ conn, s.status = .listening conn → s.received ≠ [] →
    firstLine (conn.buffer.take conn.offset) = firstLine s.received ∧
      (firstLine s.received).length < conn.offset

/-- The first line of the buffer is that of the stream, with the new bytes too. -/
theorem ShowsFirst.append {s : Stream} (h : ShowsFirst s) {conn : Connection}
    (hconn : s.status = .listening conn) (hholds : Holds conn s.received) (bytes : List UInt8) :
    firstLine (conn.buffer.take conn.offset ++ bytes) = firstLine (s.received ++ bytes) := by
  have hoff := hholds.offset
  rcases Classical.em (s.received = []) with hnil | hsome
  · have hzero : conn.offset = 0 := by rw [hoff, hnil]; rfl
    rw [hzero, hnil]
    rfl
  · obtain ⟨hsame, hlt⟩ := h conn hconn hsome
    have hlong : (conn.buffer.take conn.offset).length = conn.offset := by
      rw [List.length_take, hholds.size, Nat.min_eq_left hholds.fits]
    rw [firstLine_append (by rw [hsame, hlong]; exact hlt), hsame,
      firstLine_append (by rw [← hoff]; exact hlt)]

theorem showsFirst_step {s s' : Stream} {bytes : List UInt8} (hkept : Kept s)
    (h : ShowsFirst s) (hs : receive s bytes = some s') :
    ShowsFirst s' ∧ ∀ m ∈ delivered s bytes, m = firstLine s'.received := by
  obtain ⟨conn, hconn, hcase⟩ := receive_cases hs
  have hholds := hkept.holds hconn
  rcases hcase with ⟨hfull, rfl, hdel⟩ | ⟨hne, hlen, hrec, ⟨hst, hdel⟩ |
      ⟨read, conn', text, hread, hx, hst, hdel⟩⟩
  · exact ⟨(fun conn' hconn' => by cases hconn'), by simp [hdel]⟩
  · refine ⟨fun conn' hconn' => ?_, by simp [hdel]⟩
    rw [hst] at hconn'
    cases hconn'
  · obtain rfl := readConnectionData_some hread
    obtain ⟨endl, hfind, rfl, rfl⟩ := extract_some hx
    have hsize := hholds.size
    have hroom : conn.offset + bytes.length ≤ conn.buffer.length := by
      unfold Connection.remainder at hlen
      have := hholds.fits
      omega
    have htake : (overwrite conn.buffer conn.offset bytes).take (conn.offset + bytes.length) =
        conn.buffer.take conn.offset ++ bytes := by
      unfold overwrite
      rw [List.take_append_of_le_length (by simp; omega), List.take_of_length_le (by simp)]
    have hfirst := h.append hconn hholds bytes
    have hsplit := set_newline hfind
    simp only [htake] at hfind hsplit
    obtain ⟨hset, hstr, hlt⟩ := firstLine_set hfind
      ((overwrite conn.buffer conn.offset bytes).drop (conn.offset + bytes.length))
    refine ⟨fun conn' hconn' _ => ?_, ?_⟩
    · rw [hst] at hconn'
      cases hconn'
      have hbuffer : ((overwrite conn.buffer conn.offset bytes).set endl 0).take
          (conn.offset + bytes.length) = (conn.buffer.take conn.offset ++ bytes).set endl 0 := by
        rw [hsplit, List.take_append_of_le_length (by simp; omega),
          List.take_of_length_le (by simp)]
      rw [hbuffer, hset, hrec, ← hfirst]
      refine ⟨rfl, ?_⟩
      simpa [Nat.min_eq_left (show conn.offset ≤ conn.buffer.length by omega)] using hlt
    · rw [hdel, hrec, ← hfirst]
      simp only [List.mem_singleton, forall_eq]
      rw [hsplit]
      exact hstr

/-- Every message that a connection delivers is the first line of its stream. -/
theorem messages_first_line {messages : List (List UInt8)} {s : Stream}
    (h : Received messages s) : ∀ m ∈ messages, m = firstLine s.received := by
  have hinv : ShowsFirst s ∧ ∀ m ∈ messages, m = firstLine s.received := by
    induction h with
    | start => exact ⟨fun _ _ hne => absurd rfl hne, by simp⟩
    | @next messages s s' bytes htrace hok hs ih =>
      obtain ⟨hshows, hall⟩ := ih
      obtain ⟨hshows', hnew⟩ := showsFirst_step (kept_of_received htrace) hshows hs
      refine ⟨hshows', fun m hm => ?_⟩
      rcases List.mem_append.mp hm with hm | hm
      · rw [hall m hm]
        obtain ⟨conn, hconn, ⟨-, rfl, -⟩ | ⟨-, -, hrec, -⟩⟩ := receive_cases hs
        · rfl
        · have hsome : s.received ≠ [] := by
            intro hnil
            rw [(fresh_of_received htrace hnil).1] at hm
            cases hm
          obtain ⟨-, hlt⟩ := hshows conn hconn hsome
          have hoff := ((kept_of_received htrace).holds hconn).offset
          rw [hrec, firstLine_append (by rw [← hoff]; exact hlt)]
      · exact hnew m hm
  exact hinv.2

/-- Two lines in two reads. -/
def twoLines : List (List UInt8) := [[65, 10], [66, 10]]

theorem twoLines_runs : (messenger.run twoLines ⟨.listening connectionAdd, []⟩).isSome = true := by
  decide

theorem framed_iff_start : Framed [] ⟨.listening connectionAdd, []⟩ :=
  (framed_iff .start).mpr rfl

/-- The first line is delivered twice, the second never. -/
theorem second_line_lost : ¬ ∀ messages s, Received messages s →
    (∀ line ∈ s.received.splitOn newline, line.length ≤ maxMsgLen) → Framed messages s := by
  intro hall
  have hrun : Received _ _ := trace_of_isSome (fun _ _ => trivial) twoLines_runs
  obtain ⟨conn, -, hlines, -⟩ := hall _ _ hrun (by decide)
  revert hlines
  decide

end DclProcessor.Messenger
