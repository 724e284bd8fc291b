import DclProcessor.Messenger.Connections

/-!
The connections of a server do not disturb each other: what the callback is given from one
of them is what a server with this connection alone would give it.
-/

namespace DclProcessor.Messenger

open Transition Bytes

/-- The texts of the messages from one connection. -/
def texts (ptr : Nat) (es : List Handed) : List (List UInt8) :=
  es.filterMap fun e => if e.ptr = ptr then some e.text else none

@[simp] theorem texts_append (ptr : Nat) (es fs : List Handed) :
    texts ptr (es ++ fs) = texts ptr es ++ texts ptr fs := List.filterMap_append

/-- Each connection, also one that is no longer there, has run as `messenger` does. -/
structure Apart (es : List Handed) (srv : Server) : Prop where
  run : ∀ ptr, ∃ st, Received (texts ptr es) ⟨st, srv.received ptr⟩ ∧
    ∀ p ∈ srv.connectionList, p.ptr = ptr → st = .listening p.conn
  unread : ∀ ptr, srv.allocated ≤ ptr → srv.received ptr = []

/-- The message that is given to the callback is the text, as far as it is long. -/
def Carries (e : Handed) : Prop :=
  e.msg.msgLen = e.text.length ∧ e.msg.msgString.take e.msg.msgLen = e.text

section Runs

variable {callback : RawMessage → Bool} {maxEvents : Nat} {srv srv' : Server}
  {a : ServerAction} {es fs : List Handed}

/-- Steps that read nothing, and leave no connection that was not there. -/
theorem Apart.keep (h : Apart es srv) (hreceived : srv'.received = srv.received)
    (hallocated : srv'.allocated = srv.allocated)
    (hlist : ∀ p ∈ srv'.connectionList, p ∈ srv.connectionList) : Apart es srv' where
  run ptr := by
    obtain ⟨st, hrun, hst⟩ := h.run ptr
    exact ⟨st, hreceived ▸ hrun, fun p hp => hst p (hlist p hp)⟩
  unread ptr hptr := by
    rw [hreceived]
    exact h.unread ptr (hallocated ▸ hptr)

/-- A new connection has a number on which nothing has been read. -/
theorem Apart.add (h : Apart es srv) (fd : Nat) (host service : String) :
    Apart es (srv.connectionAdd fd host service) where
  run ptr := by
    obtain ⟨st, hrun, hst⟩ := h.run ptr
    refine ⟨st, hrun, fun p hp hptr => ?_⟩
    rcases List.mem_append.mp hp with hp | hp
    · exact hst p hp hptr
    · obtain rfl := List.mem_singleton.mp hp
      exact (fresh_of_received hrun (h.unread ptr hptr.le)).2
  unread ptr hptr := h.unread ptr (Nat.le_of_succ_le hptr)

theorem mem_store {ptr : Nat} {conn : Connection} {q : Peer} (hq : q ∈ srv.store ptr conn) :
    q.ptr = ptr ∧ q.conn = conn ∨ q.ptr ≠ ptr ∧ q ∈ srv.connectionList := by
  obtain ⟨q', hq', rfl⟩ := List.mem_map.mp hq
  split
  · next hsame => exact Or.inl ⟨hsame, rfl⟩
  · next hother => exact Or.inr ⟨hother, hq'⟩

/-- One read is one step of the connection that is read from. -/
theorem receive_listening {conn read conn' : Connection} {bytes text : List UInt8}
    {received : List UInt8} (hroom : conn.remainder ≠ 0) (hne : bytes ≠ [])
    (hfits : bytes.length ≤ conn.remainder) (hread : readConnectionData conn bytes = some read)
    (hextract : connectionExtractMessage read = some (conn', text)) :
    receive ⟨.listening conn, received⟩ bytes = some ⟨.listening conn', received ++ bytes⟩ ∧
      delivered ⟨.listening conn, received⟩ bytes = [text] := by
  have hhandle : handle conn bytes = (.listening conn', [text]) := by
    simp [handle, hread, hextract]
  constructor
  · simp [receive, hroom, hne, hfits, hhandle]
  · simp [delivered, hroom, hhandle]

theorem Apart.read (h : Apart es srv) (hlinked : Linked srv) {p : Peer}
    (hp : p ∈ srv.connectionList) {conn conn' : Connection} {bytes text : List UInt8}
    {msg : RawMessage} (flag : Bool) (hroom : p.conn.remainder ≠ 0) (hne : bytes ≠ [])
    (hfits : bytes.length ≤ p.conn.remainder)
    (hread : readConnectionData p.conn bytes = some conn)
    (hextract : connectionExtractMessage conn = some (conn', text)) :
    Apart (es ++ [⟨p.ptr, text, msg⟩]) { srv with
      connectionList := srv.store p.ptr conn'
      exitFlag := flag
      received := Function.update srv.received p.ptr (srv.received p.ptr ++ bytes) } where
  run ptr := by
    obtain ⟨st, hrun, hst⟩ := h.run ptr
    by_cases hptr : ptr = p.ptr
    · subst hptr
      obtain rfl := hst p hp rfl
      obtain ⟨hstep, hdelivered⟩ := receive_listening hroom hne hfits hread hextract
      have hnext : Received _ _ := hrun.next trivial hstep
      refine ⟨.listening conn', ?_, fun q hq hsame => ?_⟩
      · simpa [texts, messenger, hdelivered] using hnext
      · obtain ⟨-, hconn⟩ | ⟨hother, -⟩ := mem_store hq
        · rw [hconn]
        · exact absurd hsame hother
    · refine ⟨st, ?_, fun q hq hsame => ?_⟩
      · simpa [texts, Ne.symm hptr, hptr] using hrun
      · obtain ⟨hsame', -⟩ | ⟨-, hq⟩ := mem_store hq
        · exact absurd (hsame.symm.trans hsame') hptr
        · exact hst q hq hsame
  unread ptr hptr := by
    have hne' : ptr ≠ p.ptr := by
      rintro rfl
      exact Nat.lt_irrefl _ (Nat.lt_of_lt_of_le (hlinked.made p hp) hptr)
    simp only [Function.update_of_ne hne']
    exact h.unread ptr hptr

theorem apart_step (hlinked : Linked srv) (h : Apart es srv)
    (hs : ServerStep callback maxEvents srv a fs srv') : Apart (es ++ fs) srv' := by
  cases hs with
  | accepted hphase hfd =>
    rw [List.append_nil]
    exact (h.add _ _ _).keep rfl rfl fun _ hp => hp
  | closed hphase hp =>
    rw [List.append_nil]
    exact h.keep rfl rfl fun q hq => (List.mem_filter.mp hq).1
  | @handed _ p bytes conn conn' text memory msg hphase hp hroom hne hfits hread hextract _ =>
    exact (h.read hlinked hp (srv.exitFlag || callback msg) hroom hne hfits hread hextract).keep rfl
      rfl fun _ hp => hp
  | _ =>
    rw [List.append_nil]
    exact h.keep rfl rfl fun _ hp => hp

theorem apart_of_served (h : Served callback maxEvents es srv) : Apart es srv := by
  induction h with
  | start => exact ⟨fun ptr => ⟨_, .start, nofun⟩, fun _ _ => rfl⟩
  | next htrace _ hs ih =>
    exact apart_step (coherent_of_served htrace).linked ih (serverStep_of_step hs)

/-! ## The messages -/

theorem apply_msgLen (buf : List Char) (ts : List Test) (msg : RawMessage) :
    (ts.foldl (RawMessage.apply buf) msg).msgLen = msg.msgLen := by
  induction ts generalizing msg with
  | nil => rfl
  | cons t ts ih =>
    rw [List.foldl_cons, ih, RawMessage.apply]
    split <;> rfl

theorem parse_msgLen {msg r : RawMessage} (h : msg.parseApiRequest = some r) :
    r.msgLen = msg.msgLen := by
  unfold RawMessage.parseApiRequest at h
  split at h
  · rw [← Option.some.inj h]
  · obtain ⟨bytes, -, rfl⟩ := Option.map_eq_some_iff.mp h
    refine (apply_msgLen ..).trans ?_
    split <;> rfl

theorem carries_of_extract {conn conn' : Connection} {text : List UInt8} {memory msg : RawMessage}
    {ptr : Nat} (hextract : connectionExtractMessage conn = some (conn', text))
    (hmsg : memory.extract conn = some msg) : Carries ⟨ptr, text, msg⟩ := by
  rw [RawMessage.extract, hextract] at hmsg
  simp only at hmsg
  split at hmsg
  · next hfits =>
    have hlen : msg.msgLen = text.length := parse_msgLen hmsg
    refine ⟨hlen, ?_⟩
    rw [hlen, parse_msgString hmsg]
    simp [RawMessage.fill, overwrite]
  · cases hmsg

theorem carries_of_served (h : Served callback maxEvents es srv) : ∀ e ∈ es, Carries e := by
  induction h with
  | start => nofun
  | next _ _ hs ih =>
    intro e he
    rcases List.mem_append.mp he with he | he
    · exact ih e he
    · generalize hemit : (tcpServerProcess callback maxEvents).emit _ _ = fs at he hs
      cases hemit ▸ serverStep_of_step hs with
      | handed _ _ _ _ _ _ hextract hmsg =>
        rw [List.mem_singleton.mp he]
        exact carries_of_extract hextract hmsg
      | _ => cases he

/-- **Connections do not disturb each other.** In every run of the server each connection, also
one that has been closed, has delivered what it would have delivered alone, and every message
is the first line that its peer has sent. -/
theorem connections_apart (h : Served callback maxEvents es srv) :
    (∀ ptr, ∃ st, Received (texts ptr es) ⟨st, srv.received ptr⟩ ∧
      ∀ p ∈ srv.connectionList, p.ptr = ptr → st = .listening p.conn) ∧
    ∀ e ∈ es, Carries e ∧ e.text = firstLine (srv.received e.ptr) := by
  have hapart := apart_of_served h
  refine ⟨hapart.run, fun e he => ⟨carries_of_served h e he, ?_⟩⟩
  obtain ⟨st, hrun, -⟩ := hapart.run e.ptr
  refine messages_first_line hrun e.text (List.mem_filterMap.mpr ⟨e, he, ?_⟩)
  exact if_pos rfl

theorem connections_apart_twoPeers :
    (((tcpServerProcess serverExecuteCallback 10).run twoPeers serverCreate).get
      twoPeers_runs).1.map Handed.text =
    (((tcpServerProcess serverExecuteCallback 10).run twoPeers serverCreate).get
      twoPeers_runs).1.map fun e => firstLine ((((tcpServerProcess serverExecuteCallback 10).run
        twoPeers serverCreate).get twoPeers_runs).2.received e.ptr) :=
  List.map_congr_left fun e he =>
    ((connections_apart (trace_of_isSome (fun _ _ => trivial) twoPeers_runs)).2 e he).2

end Runs

end DclProcessor.Messenger
