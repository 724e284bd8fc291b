import DclProcessor.Library.Text

/-!
The commands of the messenger: `parse_api_request` finds the command of a message by the
words it contains, and `msg_get_connect_information` takes host and port from the text
after the command.
-/

namespace DclProcessor.Messenger

open Text

/-- `enum MSG_CMD`. -/
inductive MsgCmd
  | quit | status | set | get | start | stop | init | config | connect
  deriving DecidableEq, Repr

/-- `enum MSG_TYPE`. -/
inductive MsgType
  | unknown | request | reply
  deriving DecidableEq, Repr

/-- `MAX_MSG_LEN`, the size of `msg_string`. -/
def maxMsgLen : Nat := 512

/-- `struct message`; `msgString` is the string that `msg_string` holds. -/
structure Message where
  cmd : MsgCmd
  cmdLen : Nat
  type : MsgType
  msgLen : Nat
  msgString : List Char
  deriving DecidableEq, Repr

/-- `strcasestr`: the word stands somewhere in the text, in capital or small letters. -/
def strcasestr (text : List Char) (word : String) : Bool :=
  decide (word.toList.map Char.toLower <:+: text.map Char.toLower)

/-- `strcasecmp(...) == 0`. -/
def strcaseeq (text : List Char) (word : String) : Bool :=
  text.map Char.toLower = word.toList.map Char.toLower

/-- One `if` of `parse_api_request`: a word to look for, the texts that count as a match
as a whole, the command to set, and the word whose length becomes `cmd_len`. -/
structure Test where
  word : String
  whole : List String
  cmd : MsgCmd
  counted : String

/-- The tests for commands, in the order in which they are made. -/
def tests : List Test :=
  [⟨"CONNECT", [], .connect, "CONNECT"⟩,
   ⟨"INIT", [], .start, "START"⟩,
   ⟨"START", [], .start, "START"⟩,
   ⟨"STOP", [], .stop, "STOP"⟩,
   ⟨"STATUS", [], .status, "STATUS"⟩,
   ⟨"SET", [], .set, "SET"⟩,
   ⟨"GET", [], .get, "GET"⟩,
   ⟨"CONFIG", [], .config, "CONFIG"⟩,
   ⟨"QUIT", ["Q", "Q\n"], .quit, "QUIT"⟩]

def Test.matches (t : Test) (buf : List Char) : Bool :=
  strcasestr buf t.word || t.whole.any (strcaseeq buf)

/-- A test that matches overrides what the ones before it have set. -/
def Test.apply (buf : List Char) (msg : Message) (t : Test) : Message :=
  if t.matches buf then { msg with cmd := t.cmd, cmdLen := t.counted.length } else msg

def parseApiRequest (msg : Message) : Message :=
  if msg.msgLen = 0 then msg
  else
    let buf := msg.msgString
    let msg := { msg with type := .request }
    let msg :=
      if strcasestr buf "RE" || strcasestr buf "ER" then { msg with type := .reply, cmdLen := 2 }
      else msg
    tests.foldl (Test.apply buf) msg

/-- Host and port; `none` without a space after the command. -/
def msgGetConnectInformation (msg : Message) : Option (List Char × List Char) :=
  let result := msg.msgString.drop (msg.cmdLen + 1)
  if ' ' ∈ result then
    -- the space becomes the end of the host, the last character is cut off the port
    some ((result.rdropWhile (· ≠ ' ')).dropLast, (result.rtakeWhile (· ≠ ' ')).dropLast)
  else none

/-! ## The tests, one after the other -/

theorem apply_msgString (buf : List Char) (ts : List Test) (msg : Message) :
    (ts.foldl (Test.apply buf) msg).msgString = msg.msgString := by
  induction ts generalizing msg with
  | nil => rfl
  | cons t ts ih =>
    rw [List.foldl_cons, ih]
    unfold Test.apply
    split <;> rfl

/-- Tests that do not match change nothing. -/
theorem apply_of_none {buf : List Char} {ts : List Test} (h : ∀ t ∈ ts, t.matches buf = false)
    (msg : Message) : ts.foldl (Test.apply buf) msg = msg := by
  induction ts with
  | nil => rfl
  | cons t ts ih =>
    have ht : Test.apply buf msg t = msg := by
      simp [Test.apply, h t (List.mem_cons_self ..)]
    rw [List.foldl_cons, ht]
    exact ih fun t' ht' => h t' (List.mem_cons_of_mem _ ht')

/-- If a test matches, the command is that of one of the tests. -/
theorem apply_of_some {buf : List Char} {ts : List Test} {t : Test} (ht : t ∈ ts)
    (hm : t.matches buf = true) (msg : Message) :
    ∃ t' ∈ ts, (ts.foldl (Test.apply buf) msg).cmd = t'.cmd := by
  induction ts using List.reverseRecOn generalizing t with
  | nil => cases ht
  | append_singleton ts last ih =>
    rw [List.foldl_append, List.foldl_cons, List.foldl_nil]
    cases hlast : last.matches buf with
    | true => exact ⟨last, by simp, by simp [Test.apply, hlast]⟩
    | false =>
      rcases List.mem_append.mp ht with hmem | hmem
      · obtain ⟨t', ht', hcmd⟩ := ih hmem hm
        exact ⟨t', List.mem_append_left _ ht', by simpa [Test.apply, hlast] using hcmd⟩
      · obtain rfl : t = last := by simpa using hmem
        rw [hm] at hlast
        cases hlast

/-! ## Messages with a host and a port -/

/-- The command words of a message with a host and a port. -/
inductive Keyword
  | connect | init | start | stop | set | get | config
  deriving DecidableEq, Repr

namespace Keyword

def text : Keyword → String
  | connect => "CONNECT"
  | init => "INIT"
  | start => "START"
  | stop => "STOP"
  | set => "SET"
  | get => "GET"
  | config => "CONFIG"

def cmd : Keyword → MsgCmd
  | connect => .connect
  | init => .init
  | start => .start
  | stop => .stop
  | set => .set
  | get => .get
  | config => .config

/-- The tests made after the one for the keyword. -/
def later (k : Keyword) : List Test := (tests.dropWhile fun t => t.word ≠ k.text).tail

def earlier (k : Keyword) : List Test := tests.takeWhile fun t => t.word ≠ k.text

end Keyword

/-- `K host port` and a newline. -/
def request (k : Keyword) (host port : List Char) : List Char :=
  k.text.toList ++ ' ' :: (host ++ ' ' :: (port ++ ['\n']))

/-- The message is decoded to its command, host and port; `msg` is the memory that it was
read into. -/
def Decodes (msg : Message) (k : Keyword) (host port : List Char) : Prop :=
  let text := request k host port
  let msg := parseApiRequest { msg with msgLen := text.length, msgString := text }
  msg.cmd = k.cmd ∧ msg.cmdLen = k.text.length ∧ msgGetConnectInformation msg = some (host, port)

/-- The words of the tests have no separators in them, and none of the texts that count as
a whole has a space. -/
theorem tests_words : ∀ t ∈ tests, ' ' ∉ t.word.toList.map Char.toLower ∧
    '\n' ∉ t.word.toList.map Char.toLower ∧ t.word.toList.map Char.toLower ≠ [] ∧
    ∀ w ∈ t.whole, ' ' ∉ w.toList.map Char.toLower := by
  decide

/-- A word in a request stands in the keyword, in the host or in the port. -/
theorem matches_request {t : Test} (ht : t ∈ tests) (k : Keyword) (host port : List Char) :
    t.matches (request k host port) = true ↔ strcasestr k.text.toList t.word = true ∨
      strcasestr host t.word = true ∨ strcasestr port t.word = true := by
  obtain ⟨hspace, hnewline, hne, hwhole⟩ := tests_words t ht
  have hlower : (request k host port).map Char.toLower = k.text.toList.map Char.toLower ++
      ' ' :: (host.map Char.toLower ++ ' ' :: (port.map Char.toLower ++ ['\n'])) := by
    simp only [request, List.map_append, List.map_cons, List.map_nil]
    rfl
  have hnot : t.whole.any (strcaseeq (request k host port)) = false := by
    rw [List.any_eq_false]
    intro w hw heq
    have heq' : (request k host port).map Char.toLower = w.toList.map Char.toLower := by
      simpa [strcaseeq] using heq
    refine hwhole w hw ?_
    rw [← heq', hlower]
    simp
  simp only [Test.matches, hnot, Bool.or_false, strcasestr, decide_eq_true_eq]
  rw [hlower, infix_separator_iff hspace hne, infix_separator_iff hspace hne,
    infix_separator_iff hnewline hne]
  simp [hne]

/-- The test for the keyword stands between the earlier and the later ones. -/
theorem tests_split (k : Keyword) (hk : k ≠ .init) :
    tests = k.earlier ++ ⟨k.text, [], k.cmd, k.text⟩ :: k.later := by
  cases k <;> first
    | rfl
    | exact absurd rfl hk

theorem tests_cmd : ∀ t ∈ tests, t.cmd ≠ .init := by decide

theorem later_cmd (k : Keyword) : ∀ t ∈ k.later, t.cmd ≠ k.cmd := by
  cases k <;> decide

theorem later_sub (k : Keyword) : ∀ t ∈ k.later, t ∈ tests :=
  fun _ ht => (List.dropWhile_suffix _).subset (List.mem_of_mem_tail ht)

theorem later_word (k : Keyword) : ∀ t ∈ k.later, strcasestr k.text.toList t.word = false := by
  cases k <;> decide

theorem own_matches (k : Keyword) (host port : List Char) :
    Test.matches ⟨k.text, [], k.cmd, k.text⟩ (request k host port) = true := by
  have hinfix : k.text.toList <:+: request k host port := ⟨[], _, rfl⟩
  simp [Test.matches, strcasestr, hinfix.map]

theorem parse_eq (msg : Message) (k : Keyword) (host port : List Char) : ∃ base : Message,
    base.msgString = request k host port ∧
    parseApiRequest { msg with msgLen := (request k host port).length,
                               msgString := request k host port } =
      tests.foldl (Test.apply (request k host port)) base := by
  have hlen : (request k host port).length ≠ 0 := by simp [request]
  unfold parseApiRequest
  rw [if_neg hlen]
  simp only
  split
  · exact ⟨_, rfl, rfl⟩
  · exact ⟨_, rfl, rfl⟩

/-- With the right `cmd_len` host and port come out. -/
theorem connect_information {msg : Message} {k : Keyword} {host port : List Char}
    (hport : ' ' ∉ port) (hlen : msg.cmdLen = k.text.length)
    (htext : msg.msgString = request k host port) :
    msgGetConnectInformation msg = some (host, port) := by
  have hdrop : (request k host port).drop (k.text.length + 1) = host ++ ' ' :: (port ++ ['\n']) := by
    cases k <;> rfl
  have hrest : ' ' ∉ port ++ ['\n'] := by simp [hport]
  obtain ⟨htake, hrest⟩ := rtakeWhile_separator host hrest
  unfold msgGetConnectInformation
  simp only [hlen, htext, hdrop]
  rw [if_pos (by simp), htake, hrest]
  simp

/-- **Decoding inverts the command format** if and only if the keyword is not `INIT` and no
word of a later test stands in the host or the port. -/
theorem decodes_iff (msg : Message) (k : Keyword) (host : List Char) {port : List Char}
    (hport : ' ' ∉ port) : Decodes msg k host port ↔ k ≠ .init ∧
      ∀ t ∈ k.later, strcasestr host t.word = false ∧ strcasestr port t.word = false := by
  obtain ⟨base, hbase, hparse⟩ := parse_eq msg k host port
  have htext := apply_msgString (request k host port) tests base
  unfold Decodes
  simp only [hparse]
  constructor
  · rintro ⟨hcmd, -, -⟩
    have hinit : k ≠ .init := by
      rintro rfl
      have hmatch : Test.matches ⟨"INIT", [], .start, "START"⟩ (request .init host port) = true :=
        own_matches .init host port
      have htest : ⟨"INIT", [], .start, "START"⟩ ∈ tests := by simp [tests]
      obtain ⟨t, ht, htcmd⟩ := apply_of_some htest hmatch base
      exact tests_cmd t ht (htcmd.symm.trans hcmd)
    refine ⟨hinit, fun t ht => ?_⟩
    rw [tests_split k hinit, List.foldl_append, List.foldl_cons] at hcmd
    have hnone : t.matches (request k host port) = false := by
      cases hm : t.matches (request k host port) with
      | false => rfl
      | true =>
        obtain ⟨t', ht', hcmd'⟩ := apply_of_some ht hm _
        exact absurd (hcmd'.symm.trans hcmd) (later_cmd k t' ht')
    have hwords := matches_request (later_sub k t ht) k host port
    rw [hnone] at hwords
    simpa [later_word k t ht] using hwords
  · rintro ⟨hinit, hlater⟩
    have hnone : ∀ t ∈ k.later, t.matches (request k host port) = false := by
      intro t ht
      have hwords := matches_request (later_sub k t ht) k host port
      obtain ⟨hhost, hport'⟩ := hlater t ht
      simpa [later_word k t ht, hhost, hport'] using hwords
    have hresult : (tests.foldl (Test.apply (request k host port)) base).cmd = k.cmd ∧
        (tests.foldl (Test.apply (request k host port)) base).cmdLen = k.text.length := by
      rw [tests_split k hinit, List.foldl_append, List.foldl_cons, apply_of_none hnone,
        Test.apply, if_pos (own_matches k host port)]
      exact ⟨rfl, rfl⟩
    exact ⟨hresult.1, hresult.2, connect_information hport hresult.2 (htext.trans hbase)⟩

/-- What `malloc` may have left in a message. -/
def freshMessage : Message := ⟨.quit, 0, .unknown, 0, []⟩

theorem decodes_iff_localhost : Decodes freshMessage .connect "localhost".toList "4444".toList :=
  have hport : ' ' ∉ "4444".toList := by decide
  (decodes_iff freshMessage .connect "localhost".toList hport).mpr (by decide)

/-- `INIT` is taken for `START`, whose length is not that of `INIT`. -/
theorem init_not_decoded : ¬ ∀ msg k host port, host ≠ [] → port ≠ [] → ' ' ∉ host → ' ' ∉ port →
    '\n' ∉ host → '\n' ∉ port → (request k host port).length < maxMsgLen →
    Decodes msg k host port := by
  intro hall
  obtain ⟨hcmd, -, -⟩ := hall freshMessage .init ['h'] ['1'] (by decide) (by decide) (by decide)
    (by decide) (by decide) (by decide) (by decide)
  revert hcmd
  decide

end DclProcessor.Messenger
