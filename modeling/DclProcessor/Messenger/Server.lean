import DclProcessor.Messenger.Extract

/-!
The event loop of the server: `tcp_server_process` takes the events that `epoll_pwait`
reports, adds a connection for each that it accepts, and reads from the others, whose
messages it gives to the callback. A `struct connection` is named by the number of its
`malloc`, which is never used again.
-/

namespace DclProcessor.Messenger

open Transition Bytes

/-- `struct connection` in the list of the server; `ptr` is where it is in memory. -/
structure Peer where
  ptr : Nat
  fd : Nat
  host : String
  service : String
  conn : Connection

/-- `events[i].data.ptr`: that of the listening socket, or a connection. -/
inductive Ready
  | listener
  | peer (ptr : Nat)
  deriving DecidableEq

/-- The ways to undefined behaviour: a null pointer without a line, a message without its
end, an event on a connection that has been freed, and freeing one again; for a client also
the null pointer that `connection_get` has returned, writing to a connection that has been
freed, and two operations on the list at the same time. -/
inductive Fault
  | noLine | noEnd | freed | freedTwice | noConnection | written | race
  deriving DecidableEq

/-- Where `tcp_server_process` is: in `epoll_pwait`, in the loop over the events, of which
`ready` are left, or behind the loop. -/
inductive Phase
  | waiting
  | serving (ready : List Ready)
  | returned
  | undefined (fault : Fault)
  deriving DecidableEq

/-- `struct server`; `epoll` is the set of `epoll_fd`, descriptors and pointers. -/
structure Server where
  connectionList : List Peer
  connectionCnt : Int
  epoll : List (Nat × Nat)
  exitFlag : Bool
  phase : Phase
  /-- How many connections have been made. -/
  allocated : Nat
  /-- The bytes read so far from each connection. -/
  received : Nat → List UInt8

/-- The server before the first event. -/
def serverCreate : Server := ⟨[], 0, [], false, .waiting, 0, fun _ => []⟩

/-- A message that is given to the callback, the text that was found and all of it. -/
structure Handed where
  ptr : Nat
  text : List UInt8
  msg : RawMessage

/-- `server_execute_callback`: whether it sets `exit_flag`. -/
def serverExecuteCallback (msg : RawMessage) : Bool := msg.cmd = MsgCmd.stop.value

namespace Server

variable (srv : Server)

/-- `connection_add` for the list of the server. -/
def connectionAdd (fd : Nat) (host service : String) : Server :=
  { srv with
    connectionList :=
      srv.connectionList ++ [⟨srv.allocated, fd, host, service, Messenger.connectionAdd⟩]
    connectionCnt := srv.connectionCnt + 1
    allocated := srv.allocated + 1 }

/-- `connection_delete`; a descriptor that is closed leaves the set of epoll. -/
def connectionDelete (p : Peer) : Server :=
  { srv with
    connectionList := srv.connectionList.filter (·.ptr ≠ p.ptr)
    connectionCnt := srv.connectionCnt - 1
    epoll := srv.epoll.filter (·.1 ≠ p.fd) }

/-- `server_add_connection`, when `malloc` gives memory and when `epoll_ctl` succeeds. -/
def addConnection (fd : Nat) (host service : String) (memory added : Bool) :
    Except Fault Server :=
  if memory then
    if added then
      .ok { srv.connectionAdd fd host service with epoll := srv.epoll ++ [(fd, srv.allocated)] }
    else
      -- `connection_delete` has freed the connection that is freed after it
      .error .freedTwice
  else .ok srv

/-- The list with what is now in the buffer of a connection. -/
def store (ptr : Nat) (conn : Connection) : List Peer :=
  srv.connectionList.map fun q => if q.ptr = ptr then { q with conn := conn } else q

/-- The body of the loop for an event on a connection: `read` returns `bytes`, and `malloc`
gives `memory` for the message. -/
def readEvent (callback : RawMessage → Bool) (p : Peer) (bytes : List UInt8)
    (memory : RawMessage) : Except Fault (List Handed × Server) :=
  match readConnectionData p.conn bytes with
  | none => .ok ([], srv.connectionDelete p)
  | some conn =>
      match connectionExtractMessage conn, memory.extract conn with
      | none, _ => .error .noLine
      | some _, none => .error .noEnd
      | some (conn, text), some msg =>
          .ok ([⟨p.ptr, text, msg⟩],
            { srv with
              connectionList := srv.store p.ptr conn
              exitFlag := srv.exitFlag || callback msg
              received := Function.update srv.received p.ptr (srv.received p.ptr ++ bytes) })

/-- The loop over the events goes on, or the outer loop looks at the flag. -/
def proceed (rest : List Ready) : Server :=
  { srv with
    phase :=
      if rest = [] then if srv.exitFlag then .returned else .waiting else .serving rest }

/-- The rest of the events, unless the process is at fault. -/
def goOn (rest : List Ready) :
    Except Fault (List Handed × Server) → List Handed × Server
  | .ok (handed, srv') => (handed, srv'.proceed rest)
  | .error fault => ([], { srv with phase := .undefined fault })

/-- An event that `epoll_pwait` can report. -/
def Registered : Ready → Prop
  | .listener => True
  | .peer ptr => ptr ∈ srv.epoll.map Prod.snd

instance (ready : Ready) : Decidable (srv.Registered ready) :=
  match ready with
  | .listener => inferInstanceAs (Decidable True)
  | .peer _ => inferInstanceAs (Decidable (_ ∈ _))

/-- The events that are left of those reported. -/
def batch : List Ready :=
  match srv.phase with
  | .serving ready => ready
  | _ => []

end Server

/-- What `epoll_pwait` returns; `interrupted` stands for `EAGAIN` and `EINTR`. -/
inductive Waited
  | events (ready : List Ready)
  | interrupted
  | failed

/-- What `accept` and the calls after it return. -/
inductive Accepted
  | failed
  | connected (fd : Nat) (host service : String) (memory added : Bool)

/-- The steps of the server thread, with what its calls return; `raiseExit` is one of another
thread. -/
inductive ServerAction
  | wait (result : Waited)
  | accept (result : Accepted)
  | data (bytes : List UInt8) (memory : RawMessage)
  | raiseExit

/-- What the calls of the kernel allow: each event is reported once and no more of them than
asked for, `accept` gives a descriptor that is not in use, `read` no more than fits. -/
def serverNext (callback : RawMessage → Bool) (maxEvents : Nat) (srv : Server) :
    ServerAction → Option (List Handed × Server)
  | .wait result =>
      match srv.phase with
      | .waiting =>
          if srv.exitFlag then some ([], { srv with phase := .returned })
          else
            match result with
            | .events ready =>
                if ready.Nodup ∧ ready.length ≤ maxEvents ∧ ∀ r ∈ ready, srv.Registered r then
                  some ([], srv.proceed ready)
                else none
            | .interrupted => some ([], srv)
            | .failed => some ([], { srv with phase := .returned })
      | _ => none
  | .accept result =>
      match srv.phase with
      | .serving (.listener :: rest) =>
          match result with
          | .failed => some ([], srv.proceed rest)
          | .connected fd host service memory added =>
              if fd ∉ srv.connectionList.map Peer.fd then
                some (srv.goOn rest ((srv.addConnection fd host service memory added).map ([], ·)))
              else none
      | _ => none
  | .data bytes memory =>
      match srv.phase with
      | .serving (.peer ptr :: rest) =>
          match srv.connectionList.find? (·.ptr = ptr) with
          | none => some ([], { srv with phase := .undefined .freed })
          | some p =>
              if bytes.length ≤ p.conn.remainder then
                some (srv.goOn rest (srv.readEvent callback p bytes memory))
              else none
      | _ => none
  | .raiseExit => some ([], { srv with exitFlag := true })

/-- Each event is a message given to the callback. -/
def tcpServerProcess (callback : RawMessage → Bool) (maxEvents : Nat) :
    System Server ServerAction Handed where
  step srv a := (serverNext callback maxEvents srv a).map Prod.snd
  emit srv a := ((serverNext callback maxEvents srv a).map Prod.fst).getD []

/-- Every run of the server, whatever its peers send and the kernel reports. -/
abbrev Served (callback : RawMessage → Bool) (maxEvents : Nat) (es : List Handed)
    (srv : Server) : Prop :=
  Trace (tcpServerProcess callback maxEvents) (fun _ => True) serverCreate es srv

/-- `server_destroy` after the loop: every connection from the first on, with the descriptors
that are closed. -/
def serverDestroy (srv : Server) : List Nat × Server :=
  match _hlist : srv.connectionList with
  | [] => ([], srv)
  | p :: _ =>
      let rest := serverDestroy (srv.connectionDelete p)
      (p.fd :: rest.1, rest.2)
termination_by srv.connectionList.length
decreasing_by
  simp only [Server.connectionDelete, _hlist, List.length_cons, ne_eq, not_true_eq_false,
    decide_false, Bool.false_eq_true, not_false_eq_true, List.filter_cons_of_neg]
  exact Nat.lt_succ_of_le (List.length_filter_le ..)

/-! ## The cases of a step -/

section Step

variable {callback : RawMessage → Bool} {maxEvents : Nat} {srv srv' : Server} {a : ServerAction}

theorem step_eq_some (h : (tcpServerProcess callback maxEvents).step srv a = some srv') :
    serverNext callback maxEvents srv a =
      some ((tcpServerProcess callback maxEvents).emit srv a, srv') := by
  obtain ⟨⟨es, t⟩, hnext, rfl⟩ := Option.map_eq_some_iff.mp h
  simp [tcpServerProcess, hnext]

/-- What one step does to the server, and what it hands to the callback. -/
inductive ServerStep (callback : RawMessage → Bool) (maxEvents : Nat) (srv : Server)
    (a : ServerAction) : List Handed → Server → Prop
  | leave : srv.phase = .waiting → ServerStep callback maxEvents srv a []
      { srv with phase := .returned }
  | reported {ready : List Ready} : srv.phase = .waiting → srv.exitFlag = false → ready.Nodup →
      ready.length ≤ maxEvents → (∀ r ∈ ready, srv.Registered r) →
      ServerStep callback maxEvents srv a [] (srv.proceed ready)
  | interrupted : srv.phase = .waiting → ServerStep callback maxEvents srv a [] srv
  | skipped {rest : List Ready} : srv.phase = .serving (.listener :: rest) →
      ServerStep callback maxEvents srv a [] (srv.proceed rest)
  | accepted {rest : List Ready} {fd : Nat} {host service : String} :
      srv.phase = .serving (.listener :: rest) → fd ∉ srv.connectionList.map Peer.fd →
      (∃ result, a = .accept result) → ServerStep callback maxEvents srv a []
        (Server.proceed { srv.connectionAdd fd host service with
          epoll := srv.epoll ++ [(fd, srv.allocated)] } rest)
  | closed {rest : List Ready} {p : Peer} : srv.phase = .serving (.peer p.ptr :: rest) →
      p ∈ srv.connectionList →
      ServerStep callback maxEvents srv a [] ((srv.connectionDelete p).proceed rest)
  | handed {rest : List Ready} {p : Peer} {bytes : List UInt8} {conn conn' : Connection}
      {text : List UInt8} {memory msg : RawMessage} : srv.phase = .serving (.peer p.ptr :: rest) →
      p ∈ srv.connectionList → p.conn.remainder ≠ 0 → bytes ≠ [] →
      bytes.length ≤ p.conn.remainder → readConnectionData p.conn bytes = some conn →
      connectionExtractMessage conn = some (conn', text) → memory.extract conn = some msg →
      ServerStep callback maxEvents srv a [⟨p.ptr, text, msg⟩]
        (Server.proceed { srv with
          connectionList := srv.store p.ptr conn'
          exitFlag := srv.exitFlag || callback msg
          received := Function.update srv.received p.ptr (srv.received p.ptr ++ bytes) } rest)
  | fault {fault : Fault} {r : Ready} {rest : List Ready} : srv.phase = .serving (r :: rest) →
      (fault = .freed → ∃ ptr, r = .peer ptr ∧ ∀ p ∈ srv.connectionList, p.ptr ≠ ptr) →
      ServerStep callback maxEvents srv a [] { srv with phase := .undefined fault }
  | raised : a = .raiseExit → ServerStep callback maxEvents srv a [] { srv with exitFlag := true }

theorem readEvent_step {rest : List Ready} {p : Peer} {bytes : List UInt8} {memory : RawMessage}
    (hphase : srv.phase = .serving (.peer p.ptr :: rest)) (hp : p ∈ srv.connectionList)
    (hfits : bytes.length ≤ p.conn.remainder) :
    ServerStep callback maxEvents srv a
      (srv.goOn rest (srv.readEvent callback p bytes memory)).1
      (srv.goOn rest (srv.readEvent callback p bytes memory)).2 := by
  unfold Server.readEvent
  cases hread : readConnectionData p.conn bytes with
  | none => exact .closed hphase hp
  | some conn =>
    have hsome : ¬ (p.conn.remainder = 0 ∨ bytes = []) := by
      intro hno
      rw [readConnectionData, if_pos hno] at hread
      cases hread
    rw [not_or] at hsome
    cases hextract : connectionExtractMessage conn with
    | none =>
      simp only [hextract]
      exact .fault hphase fun hfreed => Fault.noConfusion hfreed
    | some found =>
      cases hmsg : memory.extract conn with
      | none =>
        simp only [hextract, hmsg]
        exact .fault hphase fun hfreed => Fault.noConfusion hfreed
      | some msg =>
        simp only [hextract, hmsg]
        exact .handed hphase hp hsome.1 hsome.2 hfits hread hextract hmsg

/-- The steps of the server are these. -/
theorem serverStep_of_next {es : List Handed}
    (h : serverNext callback maxEvents srv a = some (es, srv')) :
    ServerStep callback maxEvents srv a es srv' := by
  cases a with
  | wait result =>
    simp only [serverNext] at h
    split at h
    · next hphase =>
      split at h
      · cases h
        exact .leave hphase
      · next hflag =>
        simp only [Bool.not_eq_true] at hflag
        cases result with
        | events ready =>
          simp only at h
          split at h
          · next hready =>
            cases h
            exact .reported hphase hflag hready.1 hready.2.1 hready.2.2
          · cases h
        | interrupted =>
          cases h
          exact .interrupted hphase
        | failed =>
          cases h
          exact .leave hphase
    · cases h
  | accept result =>
    simp only [serverNext] at h
    split at h
    · next rest hphase =>
      cases result with
      | failed =>
        cases h
        exact .skipped hphase
      | connected fd host service memory added =>
        simp only at h
        split at h
        · next hfd =>
          cases memory <;> cases added <;> cases h
          · exact .skipped hphase
          · exact .skipped hphase
          · exact .fault hphase (by simp)
          · exact .accepted hphase hfd ⟨_, rfl⟩
        · cases h
    · cases h
  | data bytes memory =>
    simp only [serverNext] at h
    split at h
    · next ptr rest hphase =>
      split at h
      · next hnone =>
        cases h
        refine .fault hphase fun _ => ⟨ptr, rfl, fun p hp hptr => ?_⟩
        simpa [hptr] using List.find?_eq_none.mp hnone p hp
      · next p hfind =>
        split at h
        · next hfits =>
          obtain rfl : p.ptr = ptr := by simpa using List.find?_some hfind
          have hstep : ServerStep callback maxEvents srv (.data bytes memory)
              (srv.goOn rest (srv.readEvent callback p bytes memory)).1
              (srv.goOn rest (srv.readEvent callback p bytes memory)).2 :=
            readEvent_step hphase (List.mem_of_find?_eq_some hfind) hfits
          rw [Option.some.inj h] at hstep
          exact hstep
        · cases h
    · cases h
  | raiseExit =>
    cases h
    exact .raised rfl

theorem serverStep_of_step (h : (tcpServerProcess callback maxEvents).step srv a = some srv') :
    ServerStep callback maxEvents srv a ((tcpServerProcess callback maxEvents).emit srv a) srv' :=
  serverStep_of_next (step_eq_some h)

end Step

end DclProcessor.Messenger
