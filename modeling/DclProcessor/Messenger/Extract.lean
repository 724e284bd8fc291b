import DclProcessor.Messenger.Framing

/-!
What `connection_extract_message` makes of the memory that `malloc` has given for a
message: `strncpy` copies the characters of the line and no zero behind them, and
`parse_api_request` sets a command only when it finds one.
-/

namespace DclProcessor.Messenger

open Bytes

/-- The numbers of `enum MSG_CMD`. -/
def MsgCmd.value : MsgCmd → Nat
  | quit => 0
  | status => 1
  | set => 2
  | get => 3
  | start => 4
  | stop => 5
  | init => 6
  | config => 7
  | connect => 8

/-- The numbers of `enum MSG_TYPE`. -/
def MsgType.value : MsgType → Int
  | unknown => -1
  | request => 0
  | reply => 1

/-- `struct message` in memory, where `cmd` and `type` may have any number and
`msg_string` any bytes. -/
structure RawMessage where
  cmd : Nat
  cmdLen : Nat
  type : Int
  srcId : Int
  dstId : Int
  msgLen : Nat
  msgString : List UInt8
  size : msgString.length = maxMsgLen

/-- The characters of a C string. -/
def chars (bytes : List UInt8) : List Char := bytes.map fun b => Char.ofNat b.toNat

namespace RawMessage

def apply (buf : List Char) (msg : RawMessage) (t : Test) : RawMessage :=
  if t.matches buf then { msg with cmd := t.cmd.value, cmdLen := t.counted.length } else msg

/-- `none` when `msg_string` has no end. -/
def parseApiRequest (msg : RawMessage) : Option RawMessage :=
  if msg.msgLen = 0 then some msg
  else
    (strOf msg.msgString).map fun bytes =>
      let buf := chars bytes
      let msg := { msg with type := MsgType.request.value }
      let msg :=
        if strcasestr buf "RE" || strcasestr buf "ER" then
          { msg with type := MsgType.reply.value, cmdLen := 2 }
        else msg
      tests.foldl (apply buf) msg

/-- The fields that are set before the message is parsed; `text` is what `strlen` counts. -/
def fill (msg : RawMessage) (text : List UInt8) (h : text.length ≤ maxMsgLen) : RawMessage where
  cmd := msg.cmd
  cmdLen := msg.cmdLen
  type := MsgType.request.value
  srcId := -1
  dstId := -1
  msgLen := text.length
  msgString := overwrite msg.msgString 0 text
  size := (overwrite_length (by rw [Nat.zero_add, msg.size]; exact h)).trans msg.size

/-- `connection_extract_message` for a message in memory. -/
def extract (conn : Connection) (msg : RawMessage) : Option RawMessage :=
  match connectionExtractMessage conn with
  | some (_, text) =>
    if h : text.length ≤ maxMsgLen then (msg.fill text h).parseApiRequest else none
  | none => none

/-- A zero behind the first `n` characters. -/
def EndsAt (msg : RawMessage) (n : Nat) : Prop := msg.msgString[n]? = some 0

instance (msg : RawMessage) (n : Nat) : Decidable (msg.EndsAt n) :=
  inferInstanceAs (Decidable (_ = _))

end RawMessage

/-- The line that the buffer begins with. -/
def Connection.line (conn : Connection) : List UInt8 :=
  (conn.buffer.take conn.offset).takeWhile (· ≠ newline)

/-- One of the words that stand for a command. -/
def HasKeyword (line : List UInt8) : Prop := ∃ t ∈ tests, t.matches (chars line) = true

instance (line : List UInt8) : Decidable (HasKeyword line) :=
  inferInstanceAs (Decidable (∃ t ∈ tests, t.matches (chars line) = true))

def IsCommand (cmd : Nat) : Prop := ∃ c : MsgCmd, cmd = c.value

/-- Two messages that are the same and nothing but the line. -/
structure OnlyLine (line : List UInt8) (msg msg' : RawMessage) : Prop where
  string : strOf msg.msgString = some line
  string' : strOf msg'.msgString = some line
  type : msg.type = msg'.type
  cmd : msg.cmd = msg'.cmd
  noCommand : ¬ HasKeyword line → ¬ IsCommand msg.cmd ∧ ¬ IsCommand msg'.cmd

/-- What was in the memory plays no part in the message. -/
def DependsOnLine (conn : Connection) (msg msg' : RawMessage) : Prop :=
  ∃ r r', msg.extract conn = some r ∧ msg'.extract conn = some r' ∧ OnlyLine conn.line r r'

/-! ## The commands -/

section Parse

variable {bytes : List UInt8}

/-- The command after the tests. -/
def cmdOf (bytes : List UInt8) (cmd : Nat) : Nat :=
  tests.foldl (fun c t => if t.matches (chars bytes) then t.cmd.value else c) cmd

def typeOf (bytes : List UInt8) : Int :=
  if strcasestr (chars bytes) "RE" || strcasestr (chars bytes) "ER" then MsgType.reply.value
  else MsgType.request.value

theorem apply_fields (buf : List Char) (ts : List Test) (msg : RawMessage) :
    (ts.foldl (RawMessage.apply buf) msg).msgString = msg.msgString ∧
    (ts.foldl (RawMessage.apply buf) msg).type = msg.type ∧
    (ts.foldl (RawMessage.apply buf) msg).cmd =
      ts.foldl (fun c t => if t.matches buf then t.cmd.value else c) msg.cmd := by
  induction ts generalizing msg with
  | nil => exact ⟨rfl, rfl, rfl⟩
  | cons t ts ih =>
    obtain ⟨hstring, htype, hcmd⟩ := ih (RawMessage.apply buf msg t)
    rw [List.foldl_cons, List.foldl_cons, hstring, htype, hcmd, RawMessage.apply]
    split
    · exact ⟨rfl, rfl, rfl⟩
    · exact ⟨rfl, rfl, rfl⟩

/-- Without a word for a command the number that was there stays. -/
theorem cmdOf_of_none (h : ¬ HasKeyword bytes) (cmd : Nat) : cmdOf bytes cmd = cmd := by
  simp only [HasKeyword, not_exists, not_and] at h
  unfold cmdOf
  generalize tests = ts at h
  induction ts with
  | nil => rfl
  | cons t ts ih =>
    rw [List.foldl_cons, if_neg (h t (List.mem_cons_self ..))]
    exact ih fun t' ht' => h t' (List.mem_cons_of_mem _ ht')

/-- With one, the last test that matches decides. -/
theorem cmdOf_of_some (h : HasKeyword bytes) : ∃ c : MsgCmd, ∀ cmd, cmdOf bytes cmd = c.value := by
  obtain ⟨t, ht, hm⟩ := h
  unfold cmdOf
  generalize tests = ts at ht
  induction ts using List.reverseRecOn with
  | nil => cases ht
  | append_singleton ts last ih =>
    simp only [List.foldl_append, List.foldl_cons, List.foldl_nil]
    by_cases hlast : last.matches (chars bytes) = true
    · exact ⟨last.cmd, fun _ => if_pos hlast⟩
    · simp only [if_neg hlast]
      refine ih ((List.mem_append.mp ht).resolve_right fun hmem => hlast ?_)
      rwa [← List.mem_singleton.mp hmem]

theorem not_hasKeyword_nil : ¬ HasKeyword [] := by decide

theorem typeOf_nil : typeOf [] = MsgType.request.value := by decide

/-- What is parsed is the string in the message. -/
theorem parse_eq_some {msg : RawMessage} (hstr : strOf msg.msgString = some bytes)
    (htype : msg.type = MsgType.request.value) (hlen : msg.msgLen = 0 → bytes = []) :
    ∃ r, msg.parseApiRequest = some r ∧ r.msgString = msg.msgString ∧ r.type = typeOf bytes ∧
      r.cmd = cmdOf bytes msg.cmd := by
  by_cases hempty : msg.msgLen = 0
  · obtain rfl := hlen hempty
    exact ⟨msg, if_pos hempty, rfl, htype.trans typeOf_nil.symm,
      (cmdOf_of_none not_hasKeyword_nil _).symm⟩
  · rw [RawMessage.parseApiRequest, if_neg hempty, hstr]
    refine ⟨_, rfl, ?_⟩
    obtain ⟨hstring, htype', hcmd⟩ := apply_fields (chars bytes) tests
      (if strcasestr (chars bytes) "RE" || strcasestr (chars bytes) "ER" then
        { msg with type := MsgType.reply.value, cmdLen := 2 }
      else { msg with type := MsgType.request.value })
    refine ⟨hstring.trans ?_, htype'.trans ?_, hcmd.trans ?_⟩
    · split <;> rfl
    · rw [typeOf]
      split <;> rfl
    · split <;> rfl

theorem apply_rest (buf : List Char) (ts : List Test) (msg : RawMessage) :
    ts.foldl (RawMessage.apply buf) msg =
      { msg with
        cmd := (ts.foldl (RawMessage.apply buf) msg).cmd
        cmdLen := (ts.foldl (RawMessage.apply buf) msg).cmdLen } := by
  induction ts generalizing msg with
  | nil => rfl
  | cons t ts ih =>
    rw [List.foldl_cons, ih]
    unfold RawMessage.apply
    split <;> rfl

/-- Nothing else of the message is changed. -/
theorem parse_rest {msg r : RawMessage} (h : msg.parseApiRequest = some r) :
    r = { msg with cmd := r.cmd, cmdLen := r.cmdLen, type := r.type } := by
  unfold RawMessage.parseApiRequest at h
  split at h
  · rw [← Option.some.inj h]
  · obtain ⟨bytes, -, rfl⟩ := Option.map_eq_some_iff.mp h
    rw [apply_rest]
    split <;> rfl

theorem parse_msgString {msg r : RawMessage} (h : msg.parseApiRequest = some r) :
    r.msgString = msg.msgString := by rw [parse_rest h]

end Parse

/-! ## The text of the message -/

section Text

variable {conn : Connection} {line : List UInt8} {msg : RawMessage}

/-- What `strlen` counts: the line up to its first zero. -/
theorem extract_text (h : newline ∈ conn.buffer.take conn.offset) :
    ∃ conn', connectionExtractMessage conn = some (conn', cString conn.line) := by
  obtain ⟨endl, hfind⟩ : ∃ endl,
      (conn.buffer.take conn.offset).findIdx? (· = newline) = some endl :=
    Option.isSome_iff_exists.mp (by
      rw [List.findIdx?_isSome, List.any_eq_true]
      exact ⟨newline, h, decide_eq_true rfl⟩)
  obtain ⟨-, hstr, -⟩ := firstLine_set hfind (conn.buffer.drop conn.offset)
  have hline : cString conn.line = firstLine (conn.buffer.take conn.offset) := by
    rw [cString, Connection.line, List.takeWhile_takeWhile, firstLine]
    congr 1
    funext b
    by_cases hb : b = 0 <;> simp [hb]
  refine ⟨{ conn with buffer := conn.buffer.set endl 0 }, ?_⟩
  rw [connectionExtractMessage, hfind]
  simp only
  rw [set_newline hfind, hstr, hline]

/-- The characters of a line that is copied end with it only if there is a zero behind them
already. -/
theorem strOf_fill_iff (h : line.length ≤ maxMsgLen) (hzero : (0 : UInt8) ∉ line) :
    strOf (msg.fill line h).msgString = some line ↔ msg.EndsAt line.length := by
  have hfill : (msg.fill line h).msgString = line ++ msg.msgString.drop line.length := by
    simp [RawMessage.fill, overwrite]
  rw [strOf_eq_some_iff, and_iff_right hzero, hfill, List.prefix_append_right_inj,
    RawMessage.EndsAt, ← List.head?_drop]
  cases msg.msgString.drop line.length with
  | nil => simp
  | cons b bs => simp [eq_comm]

/-- A line without a zero is copied as it is. -/
theorem extract_eq (h : newline ∈ conn.buffer.take conn.offset)
    (hfits : conn.line.length ≤ maxMsgLen) (hzero : (0 : UInt8) ∉ conn.line) (msg : RawMessage) :
    msg.extract conn = (msg.fill conn.line hfits).parseApiRequest := by
  obtain ⟨conn', hextract⟩ := extract_text h
  have hstr : cString conn.line = conn.line := cString_eq_self hzero
  rw [hstr] at hextract
  rw [RawMessage.extract, hextract]
  exact dif_pos hfits

/-- The message has the line for its string if and only if there is a zero where it ends. -/
theorem extract_string_iff (h : newline ∈ conn.buffer.take conn.offset)
    (hfits : conn.line.length ≤ maxMsgLen) (msg : RawMessage) :
    (∃ r, msg.extract conn = some r ∧ strOf r.msgString = some conn.line) ↔
      (0 : UInt8) ∉ conn.line ∧ msg.EndsAt conn.line.length := by
  constructor
  · rintro ⟨r, hr, hstr⟩
    have hzero := (strOf_eq_some_iff.mp hstr).1
    rw [extract_eq h hfits hzero] at hr
    rw [parse_msgString hr, strOf_fill_iff hfits hzero] at hstr
    exact ⟨hzero, hstr⟩
  · rintro ⟨hzero, hends⟩
    have hstr := (strOf_fill_iff hfits hzero).mpr hends
    obtain ⟨r, hr, hstring, -⟩ := parse_eq_some hstr rfl List.length_eq_zero_iff.mp
    exact ⟨r, (extract_eq h hfits hzero msg).trans hr, hstring ▸ hstr⟩

theorem extract_fields (h : newline ∈ conn.buffer.take conn.offset)
    (hfits : conn.line.length ≤ maxMsgLen) {r : RawMessage} (hr : msg.extract conn = some r)
    (hstr : strOf r.msgString = some conn.line) :
    r.type = typeOf conn.line ∧ r.cmd = cmdOf conn.line msg.cmd := by
  obtain ⟨hzero, hends⟩ := (extract_string_iff h hfits msg).mp ⟨r, hr, hstr⟩
  obtain ⟨r', hr', -, htype, hcmd⟩ := parse_eq_some ((strOf_fill_iff hfits hzero).mpr hends) rfl
    List.length_eq_zero_iff.mp
  rw [extract_eq h hfits hzero, hr', Option.some.injEq] at hr
  rw [← hr]
  exact ⟨htype, hcmd⟩

/-- **The message depends on the line only** if and only if the line has no zero, there is
one behind its place in both memories, and it has a word for a command, or there is the same
number in both for the command, and it stands for none. -/
theorem dependsOnLine_iff (h : newline ∈ conn.buffer.take conn.offset)
    (hfits : conn.line.length ≤ maxMsgLen) (msg msg' : RawMessage) :
    DependsOnLine conn msg msg' ↔
      (0 : UInt8) ∉ conn.line ∧
        (msg.EndsAt conn.line.length ∧ msg'.EndsAt conn.line.length) ∧
        (HasKeyword conn.line ∨ msg.cmd = msg'.cmd ∧ ¬ IsCommand msg.cmd) := by
  constructor
  · rintro ⟨r, r', hr, hr', honly⟩
    obtain ⟨hzero, hends⟩ := (extract_string_iff h hfits msg).mp ⟨r, hr, honly.string⟩
    obtain ⟨-, hends'⟩ := (extract_string_iff h hfits msg').mp ⟨r', hr', honly.string'⟩
    refine ⟨hzero, ⟨hends, hends'⟩, ?_⟩
    by_cases hword : HasKeyword conn.line
    · exact Or.inl hword
    · have hcmd := (extract_fields h hfits hr honly.string).2
      have hcmd' := (extract_fields h hfits hr' honly.string').2
      rw [cmdOf_of_none hword] at hcmd hcmd'
      refine Or.inr ⟨?_, ?_⟩
      · rw [← hcmd, ← hcmd', honly.cmd]
      · rw [← hcmd]
        exact (honly.noCommand hword).1
  · rintro ⟨hzero, ⟨hends, hends'⟩, hcommand⟩
    obtain ⟨r, hr, hstr⟩ := (extract_string_iff h hfits msg).mpr ⟨hzero, hends⟩
    obtain ⟨r', hr', hstr'⟩ := (extract_string_iff h hfits msg').mpr ⟨hzero, hends'⟩
    obtain ⟨htype, hcmd⟩ := extract_fields h hfits hr hstr
    obtain ⟨htype', hcmd'⟩ := extract_fields h hfits hr' hstr'
    refine ⟨r, r', hr, hr', hstr, hstr', htype.trans htype'.symm, ?_, fun hnone => ?_⟩
    · rw [hcmd, hcmd']
      rcases hcommand with hword | ⟨hsame, -⟩
      · obtain ⟨c, hc⟩ := cmdOf_of_some hword
        rw [hc, hc]
      · rw [hsame]
    · obtain ⟨hsame, hno⟩ := hcommand.resolve_left hnone
      rw [hcmd, hcmd', cmdOf_of_none hnone, cmdOf_of_none hnone, ← hsame]
      exact ⟨hno, hno⟩

end Text

/-! ## Messages with a command -/

/-- The memory holds a message whose command and type are ones of the enumerations. -/
structure Stores (raw : RawMessage) (msg : Message) : Prop where
  cmd : raw.cmd = msg.cmd.value
  cmdLen : raw.cmdLen = msg.cmdLen
  type : raw.type = msg.type.value
  msgLen : raw.msgLen = msg.msgLen
  msgString : ∃ bytes, strOf raw.msgString = some bytes ∧ msg.msgString = chars bytes

theorem Stores.apply {raw : RawMessage} {msg : Message} (h : Stores raw msg) (buf : List Char)
    (ts : List Test) :
    Stores (ts.foldl (RawMessage.apply buf) raw) (ts.foldl (Test.apply buf) msg) := by
  induction ts generalizing raw msg with
  | nil => exact h
  | cons t ts ih =>
    rw [List.foldl_cons, List.foldl_cons]
    refine ih ?_
    rw [RawMessage.apply, Test.apply]
    split
    · exact { h with cmd := rfl, cmdLen := rfl }
    · exact h

/-- In memory a message is parsed to the command that it is parsed to as a text. -/
theorem Stores.parsed {raw : RawMessage} {msg : Message} (h : Stores raw msg) :
    ∃ raw', raw.parseApiRequest = some raw' ∧ Stores raw' (parseApiRequest msg) := by
  obtain ⟨bytes, hstr, htext⟩ := h.msgString
  rw [RawMessage.parseApiRequest, parseApiRequest]
  by_cases hempty : raw.msgLen = 0
  · rw [if_pos hempty, if_pos (h.msgLen ▸ hempty)]
    exact ⟨raw, rfl, h⟩
  · rw [if_neg hempty, if_neg (h.msgLen ▸ hempty), hstr]
    refine ⟨_, rfl, ?_⟩
    simp only [← htext]
    refine Stores.apply ?_ _ _
    split
    · exact { h with cmdLen := rfl, type := rfl }
    · exact { h with type := rfl }

/-- **Parsing in memory** sets the command, its length and the type to those of the text, and
leaves the ids, the length and every byte of the string. -/
theorem Stores.parse {raw : RawMessage} {msg : Message} (h : Stores raw msg) :
    raw.parseApiRequest = some { raw with
      cmd := (parseApiRequest msg).cmd.value
      cmdLen := (parseApiRequest msg).cmdLen
      type := (parseApiRequest msg).type.value } := by
  obtain ⟨raw', hparse, hstored⟩ := h.parsed
  rw [hparse, parse_rest hparse, ← hstored.cmd, ← hstored.cmdLen, ← hstored.type]

section Runs

/-- A buffer that begins with `text` and a newline. -/
def lineBuffer (text : String) : Connection where
  buffer := text.toList.map (fun c => UInt8.ofNat c.toNat) ++ [newline] ++ List.replicate 500 0
  offset := text.length + 1

/-- What `malloc` gives: nothing but zeros except for `cmd` and some characters. -/
def memory (cmd : Nat) (text : String) (h : text.length ≤ 512) : RawMessage where
  cmd := cmd
  cmdLen := 0
  type := 0
  srcId := 0
  dstId := 0
  msgLen := 0
  msgString := text.toList.map (fun c => UInt8.ofNat c.toNat) ++
    List.replicate (512 - text.length) 0
  size := by
    have hlen : text.toList.length = text.length := String.length_toList
    rw [List.length_append, List.length_map, List.length_replicate, hlen, maxMsgLen]
    omega

/-- A command as the memory of a client has it. -/
def stopMessage : Message := ⟨.quit, 0, .unknown, 4, "stop".toList⟩

/-- Behind the text are the bytes of another message. -/
def stopMemory : RawMessage where
  cmd := MsgCmd.quit.value
  cmdLen := 0
  type := MsgType.unknown.value
  srcId := 3
  dstId := 5
  msgLen := 4
  msgString := [115, 116, 111, 112, 0, 71, 69, 84] ++ List.replicate 504 0
  size := by
    rw [List.length_append, List.length_replicate]
    rfl

theorem Stores.parse_stop : stopMemory.parseApiRequest = some { stopMemory with
    cmd := MsgCmd.stop.value
    cmdLen := 4
    type := MsgType.request.value } := by
  have hstores : Stores stopMemory stopMessage :=
    ⟨rfl, rfl, rfl, rfl, [115, 116, 111, 112], by decide +kernel, by decide +kernel⟩
  have hcmd : (parseApiRequest stopMessage).cmd = .stop := by decide +kernel
  have hlen : (parseApiRequest stopMessage).cmdLen = 4 := by decide +kernel
  have htype : (parseApiRequest stopMessage).type = .request := by decide +kernel
  rw [Stores.parse hstores, hcmd, hlen, htype]

theorem dependsOnLine_iff_stop : DependsOnLine (lineBuffer "STOP") (memory 3 "" (by decide))
    (memory 7 "" (by decide)) :=
  (dependsOnLine_iff (by decide) (by decide) (memory 3 "" (by decide))
    (memory 7 "" (by decide))).mpr
      ⟨by decide, ⟨by decide +kernel, by decide +kernel⟩, Or.inl (by decide)⟩

/-- A line without a command quits, or stops when an earlier message is left behind it. -/
theorem hello_stops :
    ¬ HasKeyword (lineBuffer "HELLO").line ∧
    ((memory 0 "" (by decide)).extract (lineBuffer "HELLO")).map (·.cmd) =
      some MsgCmd.quit.value ∧
    ((memory 0 "HELLOSTOP" (by decide)).extract (lineBuffer "HELLO")).map (·.cmd) =
      some MsgCmd.stop.value ∧
    ¬ DependsOnLine (lineBuffer "HELLO") (memory 0 "" (by decide))
      (memory 0 "HELLOSTOP" (by decide)) := by
  refine ⟨by decide, by decide +kernel, by decide +kernel, ?_⟩
  rintro ⟨r, r', hr, hr', honly⟩
  have hstring := honly.string'
  have hmap := congrArg (Option.map fun m : RawMessage => strOf m.msgString) hr'
  rw [Option.map_some, hstring] at hmap
  revert hmap
  decide +kernel

end Runs

end DclProcessor.Messenger
