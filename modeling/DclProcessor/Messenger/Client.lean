import DclProcessor.Messenger.Connections

/-!
The client of the messenger: `tcp_client_process` reads commands, connects and writes them,
while `event_thread` reads what the servers answer. Both threads use the list of connections
and `connection_cnt` without a lock, so that every load and store of the counter is a step, and
an operation on the list begins and ends; where two of them overlap the behaviour is undefined.
-/

namespace DclProcessor.Messenger

open Transition Bytes

/-- A command as it was read, and what `parse_api_request` makes of it. -/
structure Command where
  text : List UInt8
  msg : Message

namespace Command

/-- `read_action_callback` and `parse_api_request`; `memory` has the `cmd` that `malloc` left.
A number there that stands for no command does what `STATUS` does. -/
def read (text : List UInt8) (memory : Message) : Command where
  text := text
  msg := parseApiRequest { memory with
    type := .unknown
    msgLen := text.length
    msgString := chars text }

/-- The host and the port of a command. -/
def target (c : Command) : Option (List Char × List Char) := msgGetConnectInformation c.msg

end Command

/-- The variables of `client_add_connection`, in which a command may be waiting. -/
structure Adding where
  host : List Char
  port : List Char
  fd : Nat
  waiting : Option Command

/-- Where `tcp_client_process` is. It is in `connection_get` at `walk`, and in `list_add_back`
at `link`, behind which `ptr` is the connection that it adds; at `send` it has read `conn->fd`. -/
inductive ClientPc
  | test
  | read
  | get (host port : List Char) (c : Command)
  | walk (host port : List Char) (c : Command)
  | connect (host port : List Char) (waiting : Option Command)
  | add (a : Adding)
  | link (a : Adding)
  | loadCnt (a : Adding) (ptr : Nat)
  | storeCnt (a : Adding) (ptr : Nat) (cnt : Int)
  | names (a : Adding) (ptr : Nat)
  | register (a : Adding) (ptr : Nat)
  | write (ptr : Nat) (c : Command)
  | send (ptr fd : Nat) (c : Command)
  | join
  | ended

/-- Where `event_thread` is; `rest` are the events that are left. From `remove` on it is in
`connection_delete`, at `unlink` in `list_remove_elem`. -/
inductive EventPc
  | test
  | waiting
  | serving (rest : List Nat)
  | remove (p : Peer) (rest : List Nat)
  | unlink (p : Peer) (rest : List Nat)
  | loadCnt (p : Peer) (rest : List Nat)
  | storeCnt (p : Peer) (rest : List Nat) (cnt : Int)
  | close (p : Peer) (rest : List Nat)
  | free (p : Peer) (rest : List Nat)
  | returned

/-- The thread is between the beginning and the end of an operation on the list. -/
def ClientPc.inList : ClientPc → Bool
  | walk .. | link .. => true
  | _ => false

def EventPc.inList : EventPc → Bool
  | unlink .. => true
  | _ => false

/-- The descriptor of a connection that is not yet on the list. -/
def ClientPc.attaching : ClientPc → Option Nat
  | add a | link a => some a.fd
  | _ => none

/-- The descriptor and the pointer of a connection that is on the list and not yet in the set
of epoll. -/
def ClientPc.adding : ClientPc → Option (Nat × Nat)
  | loadCnt a ptr | storeCnt a ptr _ | names a ptr | register a ptr => some (a.fd, ptr)
  | _ => none

/-- The connection that is to go and still on the list. -/
def EventPc.removing : EventPc → Option Peer
  | remove p _ | unlink p _ => some p
  | _ => none

/-- The events that are left, with the one on a connection that is still on the list. -/
def EventPc.batch : EventPc → List Nat
  | serving rest | loadCnt _ rest | storeCnt _ rest _ | close _ rest | free _ rest => rest
  | remove p rest | unlink p rest => p.ptr :: rest
  | _ => []

/-- The connection that is no longer on the list, and whose descriptor is open. -/
def EventPc.unlinked : EventPc → List Peer
  | loadCnt p _ | storeCnt p _ _ | close p _ => [p]
  | _ => []

/-- The connection that is closed and not yet freed. -/
def EventPc.freeing : EventPc → List Peer
  | free p _ => [p]
  | _ => []

/-- `struct client` with the places of its threads. -/
structure Client where
  connectionList : List Peer
  connectionCnt : Int
  epoll : List (Nat × Nat)
  exitFlag : Bool
  /-- How many connections have been made. -/
  allocated : Nat
  pc : ClientPc
  events : EventPc
  /-- The process has come to undefined behaviour. -/
  fault : Option Fault

/-- What `getaddrinfo`, `socket` and `connect` come to, and `malloc` for the connection. -/
inductive Connected
  | failed
  | connected (fd : Nat) (memory : Bool)

/-- What `epoll_pwait` returns, in a client. -/
inductive Reported
  | events (ready : List Nat)
  | interrupted
  | failed

/-- `step` and `event` are steps of `tcp_client_process` and of `event_thread` that depend on
nothing else, the others have a call with what it returns: `register` that of `epoll_ctl`,
`write` and `data` those of `write` and `read`, the latter with what `malloc` gives for the
message. -/
inductive ClientAction
  | step
  | read (text : List UInt8) (memory : Message)
  | connect (result : Connected)
  | register (added : Bool)
  | write (n : Nat)
  | event
  | wait (result : Reported)
  | data (bytes : List UInt8) (memory : Option RawMessage)

/-- `asked`: a command has been read; `connected`: a connection is on the list; `wrote`: the
connection that the descriptor belongs to has received `n` bytes. -/
inductive ClientEvent
  | asked (c : Command)
  | connected (ptr : Nat) (host port : List Char)
  | wrote (ptr : Nat) (c : Command) (n : Nat)
  | reply (e : Handed)

/-- `strcmp` of both names, as `connection_get` compares them. -/
def Peer.named (p : Peer) (host port : List Char) : Bool :=
  p.service = String.ofList port && p.host = String.ofList host

/-- `memcpy` of both names. -/
def Peer.setNames (host port : List Char) (p : Peer) : Peer :=
  { p with host := String.ofList host, service := String.ofList port }

/-- What the set of epoll has of a connection. -/
def Peer.key (p : Peer) : Nat × Nat := (p.fd, p.ptr)

/-- The list with another value for one connection. -/
def updateAt (ptr : Nat) (f : Peer → Peer) (ps : List Peer) : List Peer :=
  ps.map fun p => if p.ptr = ptr then f p else p

namespace Client

variable (cli : Client)

/-- The connections whose descriptors are open. -/
def opened : List Peer := cli.connectionList ++ cli.events.unlinked

def keys : List (Nat × Nat) := cli.connectionList.map Peer.key

def openKeys : List (Nat × Nat) := cli.opened.map Peer.key

/-- The connections whose memory has not been freed. -/
def aliveKeys : List (Nat × Nat) := cli.openKeys ++ cli.events.freeing.map Peer.key

/-- `client_execute_callback` as far as the calls on connections. -/
def execute (c : Command) : Client :=
  match c.msg.cmd with
  | .quit => { cli with exitFlag := true, pc := .test }
  | .status => { cli with pc := .test }
  | .connect =>
      match c.target with
      | some (host, port) => { cli with pc := .connect host port none }
      | none => { cli with pc := .test }
  | _ =>
      match c.target with
      | some (host, port) => { cli with pc := .get host port c }
      | none => { cli with pc := .test }

/-- The end of `connection_get`: the first connection with these names. -/
def get (host port : List Char) (c : Command) : Client :=
  match cli.connectionList.find? (·.named host port) with
  | some p => { cli with pc := .write p.ptr c }
  | none => { cli with pc := .connect host port (some c) }

/-- The end of `list_add_back`, for a connection that `memset` has cleared. -/
def link (a : Adding) : Client :=
  { cli with
    connectionList := cli.connectionList ++ [⟨cli.allocated, a.fd, "", "", connectionAdd⟩]
    allocated := cli.allocated + 1
    pc := .loadCnt a cli.allocated }

/-- Behind `client_add_connection`: a command that was waiting goes on with the null pointer
that `connection_get` has returned. -/
def added (waiting : Option Command) : Client :=
  { cli with pc := .test, fault := if waiting.isSome then some .noConnection else none }

/-- A step of `tcp_client_process` that depends on nothing else. -/
def step : Option (List ClientEvent × Client) :=
  match cli.pc with
  | .test => some ([], { cli with pc := if cli.exitFlag then .join else .read })
  | .get host port c =>
      some ([], if cli.events.inList then { cli with fault := some .race }
        else { cli with pc := .walk host port c })
  | .walk host port c => some ([], cli.get host port c)
  | .add a =>
      some ([], if cli.events.inList then { cli with fault := some .race }
        else { cli with pc := .link a })
  | .link a => some ([.connected cli.allocated a.host a.port], cli.link a)
  | .loadCnt a ptr => some ([], { cli with pc := .storeCnt a ptr cli.connectionCnt })
  | .storeCnt a ptr cnt => some ([], { cli with connectionCnt := cnt + 1, pc := .names a ptr })
  | .names a ptr =>
      some ([], { cli with
        connectionList := updateAt ptr (Peer.setNames a.host a.port) cli.connectionList
        pc := .register a ptr })
  | .write ptr c =>
      match cli.opened.find? (·.ptr = ptr) with
      | some p => some ([], { cli with pc := .send ptr p.fd c })
      | none =>
          match cli.events with
          | .free p _ =>
              some ([], if p.ptr = ptr then { cli with pc := .send ptr p.fd c }
                else { cli with fault := some .written })
          | _ => some ([], { cli with fault := some .written })
  | .join =>
      match cli.events with
      | .returned => some ([], { cli with pc := .ended })
      | _ => none
  | _ => none

/-- The loop over the events goes on, with what is now in the buffer of the connection. -/
def goOn (p : Peer) (rest : List Nat) (conn : Connection) : Client :=
  { cli with
    connectionList := updateAt p.ptr (fun q => { q with conn := conn }) cli.connectionList
    events := .serving rest }

/-- `connection_extract_message` and the callback; without memory for a message nothing is
looked for. -/
def extract (p : Peer) (rest : List Nat) (conn : Connection) :
    Option RawMessage → List ClientEvent × Client
  | none => ([], cli.goOn p rest conn)
  | some memory =>
      match connectionExtractMessage conn, memory.extract conn with
      | none, _ => ([], { cli with fault := some .noLine })
      | some _, none => ([], { cli with fault := some .noEnd })
      | some (conn, text), some msg => ([.reply ⟨p.ptr, text, msg⟩], cli.goOn p rest conn)

/-- A step of `event_thread` that depends on nothing else. -/
def event : Option Client :=
  match cli.events with
  | .test => some { cli with events := if cli.exitFlag then .returned else .waiting }
  | .serving [] => some { cli with events := .test }
  | .remove p rest =>
      some (if cli.pc.inList then { cli with fault := some .race }
        else { cli with events := .unlink p rest })
  | .unlink p rest =>
      some { cli with
        connectionList := cli.connectionList.filter (·.ptr ≠ p.ptr)
        events := .loadCnt p rest }
  | .loadCnt p rest => some { cli with events := .storeCnt p rest cli.connectionCnt }
  | .storeCnt p rest cnt => some { cli with connectionCnt := cnt - 1, events := .close p rest }
  | .close p rest =>
      some { cli with epoll := cli.epoll.filter (·.1 ≠ p.fd), events := .free p rest }
  | .free _ rest => some { cli with events := .serving rest }
  | _ => none

/-- What the calls of the kernel allow: each event is reported once and no more of them than
asked for, and `socket` gives a descriptor that is not in use. -/
def next (maxEvents : Nat) : ClientAction → Option (List ClientEvent × Client)
  | .step => cli.step
  | .read text memory =>
      match cli.pc with
      | .read => some ([.asked (.read text memory)], cli.execute (.read text memory))
      | _ => none
  | .connect result =>
      match cli.pc with
      | .connect host port waiting =>
          match result with
          | .failed => some ([], { cli with pc := .test })
          | .connected fd memory =>
              if fd ∉ cli.opened.map Peer.fd then
                some ([], if memory then { cli with pc := .add ⟨host, port, fd, waiting⟩ }
                  else cli.added waiting)
              else none
      | _ => none
  | .register added =>
      match cli.pc with
      | .register a ptr =>
          -- `connection_delete` frees the connection that is freed after it
          some ([], if added then
              { cli with epoll := cli.epoll ++ [(a.fd, ptr)] }.added a.waiting
            else { cli with fault := some .freedTwice })
      | _ => none
  | .write n =>
      match cli.pc with
      | .send _ fd c =>
          match cli.opened.find? (·.fd = fd) with
          | some p =>
              if n ≤ c.text.length then some ([.wrote p.ptr c n], { cli with pc := .test })
              else none
          | none => some ([], { cli with pc := .test })
      | _ => none
  | .event => cli.event.map ([], ·)
  | .wait result =>
      match cli.events with
      | .waiting =>
          if cli.exitFlag then some ([], { cli with events := .returned })
          else
            match result with
            | .events ready =>
                if ready.Nodup ∧ ready.length ≤ maxEvents ∧
                    ∀ ptr ∈ ready, ptr ∈ cli.epoll.map Prod.snd then
                  some ([], { cli with events := .serving ready })
                else none
            | .interrupted => some ([], { cli with events := .test })
            | .failed => some ([], { cli with events := .returned })
      | _ => none
  | .data bytes memory =>
      match cli.events with
      | .serving (ptr :: rest) =>
          match cli.connectionList.find? (·.ptr = ptr) with
          | none => some ([], { cli with fault := some .freed })
          | some p =>
              if bytes.length ≤ p.conn.remainder then
                some (match readConnectionData p.conn bytes with
                  | none => ([], { cli with events := .remove p rest })
                  | some conn => cli.extract p rest conn memory)
              else none
      | _ => none

end Client

/-- The two threads, as long as the behaviour of the process is defined. -/
def tcpClientProcess (maxEvents : Nat) : System Client ClientAction ClientEvent where
  step cli a := if cli.fault = none then (cli.next maxEvents a).map Prod.snd else none
  emit cli a := ((cli.next maxEvents a).map Prod.fst).getD []

/-- `client_create` -/
def clientCreate : Client := ⟨[], 0, [], false, 0, .test, .test, none⟩

/-- Every run of the client, whatever is typed in and whatever its servers do. -/
abbrev Asked (maxEvents : Nat) (es : List ClientEvent) (cli : Client) : Prop :=
  Trace (tcpClientProcess maxEvents) (fun _ => True) clientCreate es cli

/-! ## The cases of a step -/

/-- What one step of `tcp_client_process` does, and what it shows. -/
inductive CommandStep (cli : Client) : List ClientEvent → Client → Prop
  | tested : cli.pc = .test →
      CommandStep cli [] { cli with pc := if cli.exitFlag then .join else .read }
  | asked (c : Command) : cli.pc = .read → CommandStep cli [.asked c] (cli.execute c)
  | walks {host port : List Char} {c : Command} : cli.pc = .get host port c →
      CommandStep cli [] { cli with pc := .walk host port c }
  | looked {host port : List Char} {c : Command} : cli.pc = .walk host port c →
      CommandStep cli [] (cli.get host port c)
  | refused {host port : List Char} {waiting : Option Command} :
      cli.pc = .connect host port waiting → CommandStep cli [] { cli with pc := .test }
  | noMemory {host port : List Char} {waiting : Option Command} :
      cli.pc = .connect host port waiting → CommandStep cli [] (cli.added waiting)
  | connects {host port : List Char} {waiting : Option Command} {fd : Nat} :
      cli.pc = .connect host port waiting → fd ∉ cli.opened.map Peer.fd →
      CommandStep cli [] { cli with pc := .add ⟨host, port, fd, waiting⟩ }
  | links {a : Adding} : cli.pc = .add a → CommandStep cli [] { cli with pc := .link a }
  | linked {a : Adding} : cli.pc = .link a →
      CommandStep cli [.connected cli.allocated a.host a.port] (cli.link a)
  | loaded {a : Adding} {ptr : Nat} : cli.pc = .loadCnt a ptr →
      CommandStep cli [] { cli with pc := .storeCnt a ptr cli.connectionCnt }
  | stored {a : Adding} {ptr : Nat} {cnt : Int} : cli.pc = .storeCnt a ptr cnt →
      CommandStep cli [] { cli with connectionCnt := cnt + 1, pc := .names a ptr }
  | named {a : Adding} {ptr : Nat} : cli.pc = .names a ptr →
      CommandStep cli [] { cli with
        connectionList := updateAt ptr (Peer.setNames a.host a.port) cli.connectionList
        pc := .register a ptr }
  | registered {a : Adding} {ptr : Nat} : cli.pc = .register a ptr →
      CommandStep cli [] ({ cli with epoll := cli.epoll ++ [(a.fd, ptr)] }.added a.waiting)
  | found {ptr : Nat} {c : Command} {p : Peer} : cli.pc = .write ptr c → p.ptr = ptr →
      (p ∈ cli.opened ∨ ∃ rest, cli.events = .free p rest) →
      CommandStep cli [] { cli with pc := .send ptr p.fd c }
  | wrote {ptr n : Nat} {c : Command} {p : Peer} : cli.pc = .send ptr p.fd c → p ∈ cli.opened →
      n ≤ c.text.length → CommandStep cli [.wrote p.ptr c n] { cli with pc := .test }
  | unwritten {ptr fd : Nat} {c : Command} : cli.pc = .send ptr fd c →
      CommandStep cli [] { cli with pc := .test }
  | joined : cli.pc = .join → CommandStep cli [] { cli with pc := .ended }
  | fault {f : Fault} : f ≠ .freed → CommandStep cli [] { cli with fault := some f }

/-- What one step of `event_thread` does. -/
inductive EventStep (maxEvents : Nat) (cli : Client) : List ClientEvent → Client → Prop
  | tested : cli.events = .test →
      EventStep maxEvents cli [] { cli with events := if cli.exitFlag then .returned else .waiting }
  | left {events : EventPc} : cli.events = .waiting → (events = .test ∨ events = .returned) →
      EventStep maxEvents cli [] { cli with events := events }
  | reported {ready : List Nat} : cli.events = .waiting → ready.Nodup →
      ready.length ≤ maxEvents → (∀ ptr ∈ ready, ptr ∈ cli.epoll.map Prod.snd) →
      EventStep maxEvents cli [] { cli with events := .serving ready }
  | handled : cli.events = .serving [] → EventStep maxEvents cli [] { cli with events := .test }
  | broken {p : Peer} {rest : List Nat} : cli.events = .serving (p.ptr :: rest) →
      p ∈ cli.connectionList → EventStep maxEvents cli [] { cli with events := .remove p rest }
  | handed {p : Peer} {rest : List Nat} {conn : Connection} (reply : Option Handed) :
      cli.events = .serving (p.ptr :: rest) → p ∈ cli.connectionList →
      EventStep maxEvents cli (reply.toList.map .reply) (cli.goOn p rest conn)
  | removes {p : Peer} {rest : List Nat} : cli.events = .remove p rest →
      EventStep maxEvents cli [] { cli with events := .unlink p rest }
  | removed {p : Peer} {rest : List Nat} : cli.events = .unlink p rest →
      EventStep maxEvents cli [] { cli with
        connectionList := cli.connectionList.filter (·.ptr ≠ p.ptr)
        events := .loadCnt p rest }
  | loaded {p : Peer} {rest : List Nat} : cli.events = .loadCnt p rest →
      EventStep maxEvents cli [] { cli with events := .storeCnt p rest cli.connectionCnt }
  | stored {p : Peer} {rest : List Nat} {cnt : Int} : cli.events = .storeCnt p rest cnt →
      EventStep maxEvents cli [] { cli with connectionCnt := cnt - 1, events := .close p rest }
  | closed {p : Peer} {rest : List Nat} : cli.events = .close p rest →
      EventStep maxEvents cli [] { cli with
        epoll := cli.epoll.filter (·.1 ≠ p.fd)
        events := .free p rest }
  | freed {p : Peer} {rest : List Nat} : cli.events = .free p rest →
      EventStep maxEvents cli [] { cli with events := .serving rest }
  | fault {f : Fault} : (f = .freed → ∃ ptr rest, cli.events = .serving (ptr :: rest) ∧
      ∀ p ∈ cli.connectionList, p.ptr ≠ ptr) →
      EventStep maxEvents cli [] { cli with fault := some f }

section Step

variable {maxEvents : Nat} {cli cli' : Client} {a : ClientAction} {es : List ClientEvent}

theorem commandStep_of_step (h : cli.step = some (es, cli')) : CommandStep cli es cli' := by
  unfold Client.step at h
  split at h
  · next hpc =>
    cases h
    exact .tested hpc
  · next hpc =>
    cases h
    split
    · exact .fault (by decide)
    · exact .walks hpc
  · next hpc =>
    cases h
    exact .looked hpc
  · next hpc =>
    cases h
    split
    · exact .fault (by decide)
    · exact .links hpc
  · next hpc =>
    cases h
    exact .linked hpc
  · next hpc =>
    cases h
    exact .loaded hpc
  · next hpc =>
    cases h
    exact .stored hpc
  · next hpc =>
    cases h
    exact .named hpc
  · next ptr c hpc =>
    split at h
    · next p hfind =>
      cases h
      have hptr : p.ptr = ptr := by simpa using List.find?_some hfind
      exact .found hpc hptr (Or.inl (List.mem_of_find?_eq_some hfind))
    · split at h
      · next p rest hevents =>
        cases h
        split
        · next hptr => exact .found hpc hptr (Or.inr ⟨rest, hevents⟩)
        · exact .fault (by decide)
      · cases h
        exact .fault (by decide)
  · next hpc =>
    split at h
    · cases h
      exact .joined hpc
    · cases h
  · cases h

theorem eventStep_of_event (h : cli.event = some cli') : EventStep maxEvents cli [] cli' := by
  unfold Client.event at h
  split at h
  · next hevents =>
    cases h
    exact .tested hevents
  · next hevents =>
    cases h
    exact .handled hevents
  · next hevents =>
    cases h
    split
    · exact .fault nofun
    · exact .removes hevents
  · next hevents =>
    cases h
    exact .removed hevents
  · next hevents =>
    cases h
    exact .loaded hevents
  · next hevents =>
    cases h
    exact .stored hevents
  · next hevents =>
    cases h
    exact .closed hevents
  · next hevents =>
    cases h
    exact .freed hevents
  · cases h

theorem eventStep_of_data {bytes : List UInt8} {memory : Option RawMessage}
    (h : cli.next maxEvents (.data bytes memory) = some (es, cli')) :
    EventStep maxEvents cli es cli' := by
  simp only [Client.next] at h
  split at h
  · next ptr rest hevents =>
    split at h
    · next hnone =>
      cases h
      refine .fault fun _ => ⟨ptr, rest, hevents, fun p hp hptr => ?_⟩
      simpa [hptr] using List.find?_eq_none.mp hnone p hp
    · next p hfind =>
      have hp := List.mem_of_find?_eq_some hfind
      obtain rfl : p.ptr = ptr := by simpa using List.find?_some hfind
      split at h
      · split at h
        · cases h
          exact .broken hevents hp
        · cases memory with
          | none =>
            cases h
            exact .handed none hevents hp
          | some memory =>
            simp only [Client.extract, Option.some.injEq] at h
            split at h <;> cases h
            · exact .fault nofun
            · exact .fault nofun
            · exact .handed (some _) hevents hp
      · cases h
  · cases h

theorem eventStep_of_wait {result : Reported}
    (h : cli.next maxEvents (.wait result) = some (es, cli')) :
    EventStep maxEvents cli es cli' := by
  simp only [Client.next] at h
  split at h
  · next hevents =>
    split at h
    · cases h
      exact .left hevents (Or.inr rfl)
    · cases result with
      | events ready =>
        simp only at h
        split at h
        · next hready =>
          cases h
          exact .reported hevents hready.1 hready.2.1 hready.2.2
        · cases h
      | interrupted =>
        cases h
        exact .left hevents (Or.inl rfl)
      | failed =>
        cases h
        exact .left hevents (Or.inr rfl)
  · cases h

/-- A step is one of the two threads. -/
theorem clientStep_of_next (h : cli.next maxEvents a = some (es, cli')) :
    CommandStep cli es cli' ∨ EventStep maxEvents cli es cli' := by
  cases a with
  | step => exact Or.inl (commandStep_of_step h)
  | read text memory =>
    simp only [Client.next] at h
    split at h
    · next hpc =>
      cases h
      exact Or.inl (.asked _ hpc)
    · cases h
  | connect result =>
    simp only [Client.next] at h
    split at h
    · next hpc =>
      cases result with
      | failed =>
        cases h
        exact Or.inl (.refused hpc)
      | connected fd memory =>
        simp only at h
        split at h
        · next hfd =>
          cases h
          split
          · exact Or.inl (.connects hpc hfd)
          · exact Or.inl (.noMemory hpc)
        · cases h
    · cases h
  | register added =>
    simp only [Client.next] at h
    split at h
    · next hpc =>
      cases h
      split
      · exact Or.inl (.registered hpc)
      · exact Or.inl (.fault (by decide))
    · cases h
  | write n =>
    simp only [Client.next] at h
    split at h
    · next ptr fd c hpc =>
      split at h
      · next p hfind =>
        obtain rfl : p.fd = fd := by simpa using List.find?_some hfind
        split at h
        · next hn =>
          cases h
          exact Or.inl (.wrote hpc (List.mem_of_find?_eq_some hfind) hn)
        · cases h
      · cases h
        exact Or.inl (.unwritten hpc)
    · cases h
  | event =>
    obtain ⟨cli', hevent, heq⟩ := Option.map_eq_some_iff.mp h
    cases heq
    exact Or.inr (eventStep_of_event hevent)
  | wait result => exact Or.inr (eventStep_of_wait h)
  | data bytes memory => exact Or.inr (eventStep_of_data h)

theorem clientStep_of_step (h : (tcpClientProcess maxEvents).step cli a = some cli') :
    cli.fault = none ∧ (CommandStep cli ((tcpClientProcess maxEvents).emit cli a) cli' ∨
      EventStep maxEvents cli ((tcpClientProcess maxEvents).emit cli a) cli') := by
  simp only [tcpClientProcess, Option.ite_none_right_eq_some, Option.map_eq_some_iff] at h
  obtain ⟨hfault, ⟨es, t⟩, hnext, rfl⟩ := h
  have hemit : (tcpClientProcess maxEvents).emit cli a = es := by simp [tcpClientProcess, hnext]
  rw [hemit]
  exact ⟨hfault, clientStep_of_next hnext⟩

end Step

end DclProcessor.Messenger
