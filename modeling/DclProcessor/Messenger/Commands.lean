import DclProcessor.Messenger.Accounts
import DclProcessor.Messenger.Streams

/-!
The way of a command: the client writes it to a connection with its host and port that was
there when it was read, and the server is given the first command of a connection only.
-/

namespace DclProcessor.Messenger

open Transition Bytes

/-- What `tcp_client_process` has done, without the answers. -/
def ClientEvent.isCall : ClientEvent → Bool
  | .reply _ => false
  | _ => true

def calls (es : List ClientEvent) : List ClientEvent := es.filter (·.isCall)

/-- The connection that was made, by its number. -/
def ClientEvent.made : ClientEvent → Option Nat
  | .connected ptr _ _ => some ptr
  | _ => none

/-- The bytes that were written to a connection. -/
def sent (ptr : Nat) (es : List ClientEvent) : List UInt8 :=
  es.flatMap fun
    | .wrote p c n => if p = ptr then c.text.take n else []
    | _ => []

/-- The last call is the read of `c`, and a connection with its host and port was made before. -/
def Aims (cs : List ClientEvent) (ptr : Nat) (c : Command) : Prop :=
  ∃ pre host port, cs = pre ++ [.asked c] ∧ c.target = some (host, port) ∧
    .connected ptr host port ∈ pre

/-- The connection that has not got its names yet. -/
def ClientPc.unnamed : ClientPc → Option Nat
  | loadCnt _ ptr | storeCnt _ ptr _ | names _ ptr => some ptr
  | _ => none

/-- What `tcp_client_process` knows of its command. A descriptor that it takes from a connection
belongs to this one or is closed. -/
def AtPc (cs : List ClientEvent) (cli : Client) : Prop :=
  match cli.pc with
  | .get host port c | .walk host port c =>
      c.target = some (host, port) ∧ ∃ pre, cs = pre ++ [.asked c]
  | .loadCnt a ptr | .storeCnt a ptr _ | .names a ptr => .connected ptr a.host a.port ∈ cs
  | .write ptr c => Aims cs ptr c ∧ ∀ k ∈ cli.aliveKeys, k.2 = ptr →
      ∀ k' ∈ cli.openKeys, k'.1 = k.1 → k'.2 = ptr
  | .send ptr fd c => Aims cs ptr c ∧ ∀ k ∈ cli.openKeys, k.1 = fd → k.2 = ptr
  | _ => True

/-- Every command that was written had been read just before. -/
def Writes (cs : List ClientEvent) : Prop :=
  ∀ pre post ptr c n, cs = pre ++ .wrote ptr c n :: post → n ≤ c.text.length ∧ Aims pre ptr c

/-- The connections are those that were made, each once and under its names. -/
structure Known (cs : List ClientEvent) (cli : Client) : Prop where
  made : cs.filterMap ClientEvent.made = List.range cli.allocated
  named : ∀ p ∈ cli.connectionList, cli.pc.unnamed = some p.ptr ∨
    ∃ host port, p.named host port = true ∧ .connected p.ptr host port ∈ cs

/-- What `event_thread` does: no connection is new, and those that are left have their names. -/
structure KeepsNames (cli cli' : Client) : Prop where
  pc : cli'.pc = cli.pc
  allocated : cli'.allocated = cli.allocated
  openKeys : cli'.openKeys ⊆ cli.openKeys
  aliveKeys : cli'.aliveKeys ⊆ cli.aliveKeys
  named : ∀ p ∈ cli'.connectionList, ∃ q ∈ cli.connectionList,
    q.ptr = p.ptr ∧ q.host = p.host ∧ q.service = p.service

structure Tidy (cs : List ClientEvent) (cli : Client) : Prop where
  known : Known cs cli
  pc : AtPc cs cli
  writes : Writes cs

section Calls

variable {maxEvents : Nat} {cs es : List ClientEvent} {e : ClientEvent} {cli cli' : Client}

theorem calls_append (es fs : List ClientEvent) : calls (es ++ fs) = calls es ++ calls fs :=
  List.filter_append ..

theorem Writes.concat (h : Writes cs)
    (he : ∀ ptr c n, e = .wrote ptr c n → n ≤ c.text.length ∧ Aims cs ptr c) :
    Writes (cs ++ [e]) := by
  intro pre post ptr c n heq
  rcases List.eq_nil_or_concat post with rfl | ⟨post, last, rfl⟩
  · obtain ⟨rfl, hlast⟩ := List.append_inj' heq rfl
    exact he ptr c n (List.singleton_inj.mp hlast)
  · rw [List.concat_eq_append, ← List.cons_append, ← List.append_assoc] at heq
    exact h pre post ptr c n (List.append_inj' heq rfl).1

theorem Known.concat (h : Known cs cli) (he : e.made = none) : Known (cs ++ [e]) cli where
  made := by
    rw [List.filterMap_append, List.filterMap_cons_none he, List.filterMap_nil, List.append_nil,
      h.made]
  named p hp := (h.named p hp).imp_right fun ⟨host, port, hnamed, hmem⟩ =>
    ⟨host, port, hnamed, List.mem_append_left _ hmem⟩

/-- A step that leaves the connections and their names. -/
theorem Known.goto (h : Known cs cli) (hlist : cli'.connectionList = cli.connectionList)
    (hallocated : cli'.allocated = cli.allocated) (hunnamed : cli'.pc.unnamed = cli.pc.unnamed) :
    Known cs cli' where
  made := hallocated ▸ h.made
  named p hp := by
    rw [hunnamed]
    exact h.named p (hlist ▸ hp)

/-- The names that are compared are those of the connection. -/
theorem Peer.named_congr {p q : Peer} (hhost : q.host = p.host) (hservice : q.service = p.service)
    (host port : List Char) : q.named host port = p.named host port := by
  rw [Peer.named, Peer.named, hhost, hservice]

theorem Known.keep (h : Known cs cli) (hkeep : KeepsNames cli cli') : Known cs cli' where
  made := hkeep.allocated ▸ h.made
  named p hp := by
    obtain ⟨q, hq, hptr, hhost, hservice⟩ := hkeep.named p hp
    rw [hkeep.pc, ← hptr]
    refine (h.named q hq).imp_right fun ⟨host, port, hnamed, hmem⟩ => ⟨host, port, ?_, hmem⟩
    rw [← Peer.named_congr hhost hservice]
    exact hnamed

/-- The connection that is put on the list has no names yet. -/
theorem Known.link (h : Known cs cli) {a : Adding} (hpc : cli.pc = .link a) :
    Known (cs ++ [.connected cli.allocated a.host a.port]) (cli.link a) where
  made := by
    rw [List.filterMap_append, h.made]
    exact List.range_succ.symm
  named p hp := by
    rcases List.mem_append.mp hp with hp | hp
    · right
      obtain ⟨host, port, hnamed, hmem⟩ := (h.named p hp).resolve_left (by rw [hpc]; nofun)
      exact ⟨host, port, hnamed, List.mem_append_left _ hmem⟩
    · left
      rw [List.mem_singleton.mp hp]
      rfl

/-- The connection gets the names that it was made for. -/
theorem Known.name (h : Known cs cli) {a : Adding} {ptr : Nat} (hpc : cli.pc = .names a ptr)
    (hmade : .connected ptr a.host a.port ∈ cs) : Known cs { cli with
      connectionList := updateAt ptr (Peer.setNames a.host a.port) cli.connectionList
      pc := .register a ptr } where
  made := h.made
  named p hp := by
    right
    obtain ⟨q, hq, rfl⟩ := List.mem_map.mp hp
    split
    · next hptr =>
      refine ⟨a.host, a.port, by simp [Peer.named, Peer.setNames], ?_⟩
      simp only [Peer.setNames, hptr]
      exact hmade
    · next hptr =>
      refine (h.named q hq).resolve_left fun hunnamed => hptr ?_
      rw [hpc] at hunnamed
      exact (Option.some.inj hunnamed).symm

/-- A connection has one host and one port. -/
theorem Peer.named_inj {p : Peer} {host host' port port' : List Char}
    (h : p.named host port = true) (h' : p.named host' port' = true) :
    host = host' ∧ port = port' := by
  simp only [Peer.named, Bool.and_eq_true, decide_eq_true_eq] at h h'
  exact ⟨String.ofList_injective (h.2.symm.trans h'.2),
    String.ofList_injective (h.1.symm.trans h'.1)⟩

/-- `event_thread` makes no connection and leaves the names of those that it does not delete. -/
theorem event_keeps (h : Accounted maxEvents cli) (hs : EventStep maxEvents cli es cli') :
    KeepsNames cli cli' := by
  have hsame : ∀ events fault, cli.events.unlinked = EventPc.unlinked events →
      EventPc.freeing events ⊆ cli.events.freeing → ∀ cnt,
      KeepsNames cli { cli with events := events, fault := fault, connectionCnt := cnt } := by
    intro events fault hunlinked hfreeing cnt
    have hopen : Client.openKeys { cli with
        events := events, fault := fault, connectionCnt := cnt } = cli.openKeys := by
      rw [Client.openKeys_eq, Client.openKeys_eq, hunlinked]
      rfl
    refine ⟨rfl, rfl, by rw [hopen]; exact List.Subset.refl _, ?_,
      fun p hp => ⟨p, hp, rfl, rfl, rfl⟩⟩
    rw [Client.aliveKeys, Client.aliveKeys, hopen]
    exact List.append_subset.mpr ⟨List.subset_append_left .., fun k hk =>
      List.mem_append_right _ (List.map_subset _ hfreeing hk)⟩
  cases hs with
  | tested hevents =>
    refine hsame _ _ ?_ ?_ _
    · rw [hevents]
      split <;> rfl
    · split <;> exact List.nil_subset _
  | left hevents hnext =>
    rcases hnext with rfl | rfl <;>
      exact hsame _ _ (by rw [hevents]; rfl) (List.nil_subset _) _
  | reported hevents | handled hevents | broken hevents | removes hevents | loaded hevents
  | stored hevents | freed hevents =>
    exact hsame _ _ (by rw [hevents]; rfl) (List.nil_subset _) _
  | fault hfreed => exact hsame _ _ rfl (List.Subset.refl _) _
  | @handed p rest conn reply hevents hp =>
    have hkeys := updateAt_key p.ptr (fun q => { q with conn := conn }) (fun _ => rfl)
      cli.connectionList
    have hopen : (cli.goOn p rest conn).openKeys = cli.openKeys := by
      rw [Client.openKeys_eq, cli.openKeys_eq, Client.keys, Client.goOn, hkeys, hevents]
      rfl
    refine ⟨rfl, rfl, by rw [hopen]; exact List.Subset.refl _, ?_, fun q hq => ?_⟩
    · rw [Client.aliveKeys_of_none rfl, hopen]
      exact fun k hk => cli.mem_aliveKeys hk
    · obtain ⟨q', hq', rfl⟩ := List.mem_map.mp hq
      refine ⟨q', hq', ?_⟩
      split <;> exact ⟨rfl, rfl, rfl⟩
  | @removed p rest hevents =>
    have hp : p.key ∈ cli.keys := h.removing p (by rw [hevents]; rfl)
    have hopen : Client.openKeys { cli with
        connectionList := cli.connectionList.filter (·.ptr ≠ p.ptr)
        events := .loadCnt p rest } ⊆ cli.openKeys := by
      rw [Client.openKeys_eq]
      intro k hk
      refine cli.mem_openKeys ?_
      rcases List.mem_append.mp hk with hk | hk
      · exact List.map_subset _ (List.filter_subset_self _) hk
      · exact List.mem_singleton.mp hk ▸ hp
    refine ⟨rfl, rfl, hopen, ?_, fun q hq => ⟨q, (List.mem_filter.mp hq).1, rfl, rfl, rfl⟩⟩
    rw [Client.aliveKeys_of_none rfl]
    exact fun k hk => cli.mem_aliveKeys (hopen hk)
  | @closed p rest hevents =>
    have hopen : cli.openKeys = cli.keys ++ [p.key] := by
      rw [cli.openKeys_eq, hevents]
      rfl
    have halive : Client.aliveKeys { cli with
        epoll := cli.epoll.filter (·.1 ≠ p.fd)
        events := .free p rest } = cli.aliveKeys := by
      rw [cli.aliveKeys_of_none (by rw [hevents]; rfl), hopen, Client.aliveKeys,
        Client.openKeys_eq, List.append_assoc]
      rfl
    refine ⟨rfl, rfl, ?_, halive ▸ List.Subset.refl _, fun q hq => ⟨q, hq, rfl, rfl, rfl⟩⟩
    rw [hopen, Client.openKeys_eq]
    exact List.append_subset.mpr ⟨List.subset_append_left .., List.nil_subset _⟩

end Calls

/-! ## Every run of the client -/

section Client

variable {maxEvents : Nat} {cs es : List ClientEvent} {cli cli' : Client}

theorem tidy_execute (h : Tidy cs cli) (hpc : cli.pc = .read) (c : Command) :
    Tidy (cs ++ [.asked c]) (cli.execute c) := by
  have hknown := h.known.concat (e := .asked c) rfl
  have hgoto : ∀ flag pc, ClientPc.unnamed pc = none →
      AtPc (cs ++ [.asked c]) { cli with exitFlag := flag, pc := pc } →
      Tidy (cs ++ [.asked c]) { cli with exitFlag := flag, pc := pc } :=
    fun flag pc hunnamed hat =>
      ⟨hknown.goto rfl rfl (hunnamed.trans (by rw [hpc]; rfl)), hat, h.writes.concat (by simp)⟩
  unfold Client.execute
  split
  · exact hgoto _ _ rfl trivial
  · exact hgoto _ _ rfl trivial
  · split <;> exact hgoto _ _ rfl trivial
  · split
    · next htarget => exact hgoto _ _ rfl ⟨htarget, cs, rfl⟩
    · exact hgoto _ _ rfl trivial

/-- A connection that is found has the names that were looked for. -/
theorem tidy_get (h : Tidy cs cli) (hacc : Accounted maxEvents cli) {host port : List Char}
    {c : Command} (hpc : cli.pc = .walk host port c) : Tidy cs (cli.get host port c) := by
  have hat := h.pc
  rw [AtPc, hpc] at hat
  obtain ⟨htarget, pre, hpre⟩ := hat
  unfold Client.get
  split
  · next p hfind =>
    have hp := List.mem_of_find?_eq_some hfind
    have hnamed : p.named host port = true := by simpa using List.find?_some hfind
    obtain ⟨host', port', hnamed', hmem⟩ :=
      (h.known.named p hp).resolve_left (by rw [hpc]; nofun)
    obtain ⟨rfl, rfl⟩ := Peer.named_inj hnamed hnamed'
    refine ⟨h.known.goto rfl rfl (by rw [hpc]; rfl), ⟨⟨pre, host, port, hpre, htarget, ?_⟩, ?_⟩,
      h.writes⟩
    · rw [hpre] at hmem
      rcases List.mem_append.mp hmem with hmem | hmem
      · exact hmem
      · cases List.mem_singleton.mp hmem
    · intro k hk hptr k' hk' hfd
      have hkey : p.key ∈ cli.openKeys := cli.mem_openKeys (List.mem_map_of_mem hp)
      have hsame : k = p.key :=
        List.inj_on_of_nodup_map hacc.ptrs hk (cli.mem_aliveKeys hkey) hptr
      rw [hacc.key_eq hk' hkey (Or.inr (hsame ▸ hfd))]
      rfl
  · exact ⟨h.known.goto rfl rfl (by rw [hpc]; rfl), trivial, h.writes⟩

theorem tidy_commandStep (h : Tidy cs cli) (hacc : Accounted maxEvents cli)
    (hs : CommandStep cli es cli') : Tidy (cs ++ calls es) cli' := by
  have hnone : cs ++ calls [] = cs := List.append_nil cs
  have hat := h.pc
  cases hs with
  | tested hpc =>
    rw [hnone]
    have hpc' (flag : Bool) : (if flag then ClientPc.join else .read).unnamed = none := by
      cases flag <;> rfl
    refine ⟨h.known.goto rfl rfl ((hpc' _).trans (by rw [hpc]; rfl)), ?_, h.writes⟩
    cases hflag : cli.exitFlag <;> simp [AtPc]
  | asked c hpc => exact tidy_execute h hpc c
  | walks hpc =>
    rw [hnone]
    rw [AtPc, hpc] at hat
    exact ⟨h.known.goto rfl rfl (by rw [hpc]; rfl), hat, h.writes⟩
  | looked hpc =>
    rw [hnone]
    exact tidy_get h hacc hpc
  | refused hpc | noMemory hpc | connects hpc | links hpc | unwritten hpc | joined hpc =>
    rw [hnone]
    exact ⟨h.known.goto rfl rfl (by rw [hpc]; rfl), trivial, h.writes⟩
  | registered hpc =>
    rw [hnone]
    exact ⟨h.known.goto rfl rfl (by rw [hpc]; rfl), trivial, h.writes⟩
  | @linked a hpc =>
    exact ⟨h.known.link hpc, List.mem_append_right _ (List.mem_singleton_self _),
      h.writes.concat (by simp)⟩
  | loaded hpc | stored hpc =>
    rw [hnone]
    rw [AtPc, hpc] at hat
    exact ⟨h.known.goto rfl rfl (by rw [hpc]; rfl), hat, h.writes⟩
  | named hpc =>
    rw [hnone]
    rw [AtPc, hpc] at hat
    exact ⟨h.known.name hpc hat, trivial, h.writes⟩
  | @found ptr c p hpc hptr hp =>
    rw [hnone]
    rw [AtPc, hpc] at hat
    have halive : p.key ∈ cli.aliveKeys := by
      rcases hp with hp | ⟨rest, hevents⟩
      · exact cli.mem_aliveKeys (List.mem_map_of_mem hp)
      · rw [Client.aliveKeys, hevents]
        exact List.mem_append_right _ (List.mem_singleton_self _)
    exact ⟨h.known.goto rfl rfl (by rw [hpc]; rfl), ⟨hat.1, hat.2 p.key halive hptr⟩, h.writes⟩
  | @wrote ptr n c p hpc hp hn =>
    rw [AtPc, hpc] at hat
    obtain rfl : p.ptr = ptr := hat.2 p.key (List.mem_map_of_mem hp) rfl
    refine ⟨(h.known.concat rfl).goto rfl rfl (by rw [hpc]; rfl), trivial,
      h.writes.concat fun _ _ _ heq => ?_⟩
    cases heq
    exact ⟨hn, hat.1⟩
  | fault =>
    rw [hnone]
    exact ⟨h.known.goto rfl rfl rfl, hat, h.writes⟩

theorem tidy_eventStep (h : Tidy cs cli) (hacc : Accounted maxEvents cli)
    (hs : EventStep maxEvents cli es cli') : Tidy (cs ++ calls es) cli' := by
  have hcalls : calls es = [] := by
    cases hs with
    | handed reply => cases reply <;> rfl
    | _ => rfl
  have hkeep := event_keeps hacc hs
  rw [hcalls, List.append_nil]
  refine ⟨h.known.keep hkeep, ?_, h.writes⟩
  have hat := h.pc
  rw [AtPc, hkeep.pc]
  unfold AtPc at hat
  split at hat
  case h_6 => exact ⟨hat.1, fun k hk hptr k' hk' hfd =>
    hat.2 k (hkeep.aliveKeys hk) hptr k' (hkeep.openKeys hk') hfd⟩
  case h_7 => exact ⟨hat.1, fun k hk hfd => hat.2 k (hkeep.openKeys hk) hfd⟩
  all_goals exact hat

theorem tidy_create : Tidy [] clientCreate where
  known := ⟨rfl, fun _ hp => nomatch hp⟩
  pc := trivial
  writes pre post ptr c n heq := by simp at heq

theorem tidy_of_asked (h : Asked maxEvents es cli) :
    Tidy (calls es) cli ∧ Accounted maxEvents cli := by
  induction h with
  | start => exact ⟨tidy_create, accounted_create⟩
  | next _ _ hs ih =>
    obtain ⟨hfault, hstep⟩ := clientStep_of_step hs
    rw [calls_append]
    rcases hstep with hstep | hstep
    · exact ⟨tidy_commandStep ih.1 ih.2 hstep, accounted_commandStep ih.2 hfault hstep⟩
    · exact ⟨tidy_eventStep ih.1 ih.2 hstep, accounted_eventStep ih.2 hstep⟩

/-- **Commands are aimed.** In every run of the client a command is written at most once, when
it has just been read, to a connection with its host and port that was there before; one for
which the client has to connect is never written. The list and the set of epoll agree, but for
the connection that is being added and the one that is being deleted. -/
theorem commands_aimed (h : Asked maxEvents es cli) : Writes (calls es) ∧
    (calls es).filterMap ClientEvent.made = List.range cli.allocated ∧
    Accounted maxEvents cli := by
  obtain ⟨htidy, haccounted⟩ := tidy_of_asked h
  exact ⟨htidy.writes, htidy.known.made, haccounted⟩

/-- Its characters in memory. -/
def bytesOf (text : String) : List UInt8 := text.toList.map fun c => UInt8.ofNat c.toNat

/-- A client connects to a server, and writes it two commands. -/
def twoCommands : List ClientAction :=
  [.step, .read (bytesOf "CONNECT h 1\n") freshMessage, .connect (.connected 5 true)] ++
    List.replicate 5 .step ++ [.register true] ++
    [.step, .read (bytesOf "GET h 1\n") freshMessage, .step, .step, .step, .write 8] ++
    [.step, .read (bytesOf "STOP h 1\n") freshMessage, .step, .step, .step, .write 9]

theorem twoCommands_runs : ((tcpClientProcess 10).run twoCommands clientCreate).isSome = true := by
  decide +kernel

/-- The server closes the connection while the client makes another one, and one thread counts
up what the other has counted down. -/
def lostUpdate : List ClientAction :=
  twoCommands ++ [.event, .wait (.events [0]), .data [] none, .event, .event,
    .step, .read (bytesOf "CONNECT g 2\n") freshMessage, .connect (.connected 6 true), .step, .step,
    .event, .step, .event, .step, .event, .event, .step, .register true]

theorem lostUpdate_runs : ((tcpClientProcess 10).run lostUpdate clientCreate).isSome = true := by
  decide +kernel

def lostUpdateState : Client :=
  (((tcpClientProcess 10).run lostUpdate clientCreate).get lostUpdate_runs).2

theorem commands_aimed_lostUpdate :
    Writes (calls (((tcpClientProcess 10).run lostUpdate clientCreate).get lostUpdate_runs).1) ∧
      sent 0 (((tcpClientProcess 10).run lostUpdate clientCreate).get lostUpdate_runs).1 =
        bytesOf "GET h 1\nSTOP h 1\n" ∧
      Accounted 10 lostUpdateState ∧ lostUpdateState.connectionCnt = 2 ∧
      lostUpdateState.keys = [(6, 1)] ∧ lostUpdateState.epoll = [(6, 1)] := by
  have hrun : Asked 10 _ lostUpdateState := trace_of_isSome (fun _ _ => trivial) lostUpdate_runs
  obtain ⟨hwrites, -, haccounted⟩ := commands_aimed hrun
  exact ⟨hwrites, by decide +kernel, haccounted, by decide +kernel, by decide +kernel,
    by decide +kernel⟩

end Client

/-! ## From the client to the server -/

/-- The first write to a connection, and the calls before it. -/
def FirstWrite (ptr : Nat) (cs pre : List ClientEvent) (c : Command) (n : Nat) : Prop :=
  (∃ post, cs = pre ++ .wrote ptr c n :: post) ∧ ∀ c' n', .wrote ptr c' n' ∉ pre

section Sent

variable {ptr : Nat}

theorem sent_append (es fs : List ClientEvent) : sent ptr (es ++ fs) = sent ptr es ++ sent ptr fs :=
  List.flatMap_append

theorem sent_calls (es : List ClientEvent) : sent ptr (calls es) = sent ptr es := by
  induction es with
  | nil => rfl
  | cons e es ih =>
    rw [← List.singleton_append, calls_append, sent_append, sent_append, ih]
    cases e <;> rfl

theorem sent_unwritten {cs : List ClientEvent} (h : ∀ c n, .wrote ptr c n ∉ cs) :
    sent ptr cs = [] := by
  rw [sent, List.flatMap_eq_nil_iff]
  intro e he
  cases e with
  | wrote p c n =>
    have hne : p ≠ ptr := by
      rintro rfl
      exact h c n he
    exact if_neg hne
  | _ => rfl

/-- What was written begins with the first write. -/
theorem firstWrite_of_sent {cs : List ClientEvent} (h : sent ptr cs ≠ []) :
    ∃ pre c n rest, FirstWrite ptr cs pre c n ∧ sent ptr cs = c.text.take n ++ rest := by
  induction cs with
  | nil => exact absurd rfl h
  | cons e cs ih =>
    by_cases hwrite : ∃ c n, e = .wrote ptr c n
    · obtain ⟨c, n, rfl⟩ := hwrite
      refine ⟨[], c, n, sent ptr cs, ⟨⟨cs, rfl⟩, fun _ _ hmem => nomatch hmem⟩, ?_⟩
      simp [sent]
    · have hnone : sent ptr [e] = [] := sent_unwritten fun c n hmem =>
        hwrite ⟨c, n, (List.mem_singleton.mp hmem).symm⟩
      have hsame : sent ptr (e :: cs) = sent ptr cs := by
        rw [← List.singleton_append, sent_append, hnone, List.nil_append]
      rw [hsame] at h
      obtain ⟨pre, c, n, rest, ⟨⟨post, hpost⟩, hfirst⟩, hsent⟩ := ih h
      refine ⟨e :: pre, c, n, rest, ⟨⟨post, by rw [hpost, List.cons_append]⟩, ?_⟩,
        hsame.trans hsent⟩
      intro c' n' hmem
      rcases List.mem_cons.mp hmem with heq | hmem
      · exact hwrite ⟨c', n', heq.symm⟩
      · exact hfirst c' n' hmem

end Sent

section EndToEnd

theorem firstLine_ends {xs : List UInt8} (h : newline ∈ xs) :
    (firstLine xs).length < xs.length := by
  induction xs with
  | nil => cases h
  | cons x xs ih =>
    rw [firstLine_cons]
    split
    · exact Nat.zero_lt_succ _
    · next hno =>
      have hmem : newline ∈ xs := (List.mem_cons.mp h).resolve_left fun heq =>
        hno (Or.inl heq.symm)
      exact Nat.succ_lt_succ (ih hmem)

/-- A connection that has delivered a message has received the end of its first line. -/
theorem ends_of_received {messages : List (List UInt8)} {s : Stream} (h : Received messages s)
    (hsome : messages ≠ []) : newline ∈ s.received := by
  induction h with
  | start => exact absurd rfl hsome
  | @next messages s s' bytes htrace _ hs ih =>
    obtain ⟨conn, hconn, ⟨-, rfl, hnone⟩ | ⟨hne, -, hreceived, ⟨-, hnone⟩ | ⟨_, _, _, -, -, hstatus,
      -⟩⟩⟩ := receive_cases hs
    · rw [show messenger.emit s bytes = [] from hnone, List.append_nil] at hsome
      exact ih hsome
    · rw [show messenger.emit s bytes = [] from hnone, List.append_nil] at hsome
      rw [hreceived]
      exact List.mem_append_left _ (ih hsome)
    · apply ((kept_step (kept_of_received htrace) hs).holds hstatus).line
      rw [hreceived]
      exact List.append_ne_nil_of_right_ne_nil _ hne

variable {maxEvents maxEvents' : Nat} {callback : RawMessage → Bool} {es : List ClientEvent}
  {cli : Client} {fs : List Handed} {srv : Server} {p q : Nat}

/-- **Only the first command arrives.** Where a server reads what a client has written to a
connection, every message that it hands over is the first command that was written there, if
that one was written whole; it was read by the client just before, for this connection's host
and port. -/
theorem first_command_only (hclient : Asked maxEvents es cli)
    (hserver : Served callback maxEvents' fs srv) (hstream : srv.received q <+: sent p es)
    {e : Handed} (he : e ∈ fs) (hptr : e.ptr = q) :
    ∃ pre c n, FirstWrite p (calls es) pre c n ∧ Aims pre p c ∧
      (n = c.text.length → newline ∈ c.text → e.text = firstLine c.text) := by
  obtain ⟨st, hrun, -⟩ := (apart_of_served hserver).run q
  have hmem : e.text ∈ texts q fs := List.mem_filterMap.mpr ⟨e, he, if_pos hptr⟩
  have hends := ends_of_received hrun (List.ne_nil_of_mem hmem)
  obtain ⟨rest, hrest⟩ := hstream
  have hsame : e.text = firstLine (sent p es) := by
    rw [messages_first_line hrun _ hmem, ← hrest, firstLine_append (firstLine_ends hends)]
  have hsome : sent p (calls es) ≠ [] := by
    rw [sent_calls, ← hrest]
    exact List.append_ne_nil_of_left_ne_nil (List.ne_nil_of_mem hends) _
  obtain ⟨pre, c, n, tail, hfirst, hsent⟩ := firstWrite_of_sent hsome
  obtain ⟨post, hpost⟩ := hfirst.1
  refine ⟨pre, c, n, hfirst, ((tidy_of_asked hclient).1.writes _ _ _ _ _ hpost).2, ?_⟩
  intro hwhole hline
  rw [hsame, ← sent_calls, hsent, hwhole, List.take_length, firstLine_append (firstLine_ends hline)]

/-- The server of the two commands. -/
def twoReads : List ServerAction :=
  [.wait (.events [.listener]), .accept (.connected 5 "h" "1000" true true),
   .wait (.events [.peer 0]), .data (bytesOf "GET h 1\n") (memory 3 "old" (by decide)),
   .wait (.events [.peer 0]), .data (bytesOf "STOP h 1\n") (memory 3 "old" (by decide))]

theorem twoReads_runs :
    ((tcpServerProcess serverExecuteCallback 10).run twoReads serverCreate).isSome = true := by
  decide +kernel

/-- It is given the first one twice, and does not stop. -/
theorem first_command_only_twoCommands : ∃ fs srv,
    Served serverExecuteCallback 10 fs srv ∧ fs.length = 2 ∧ srv.exitFlag = false ∧
      ∀ e ∈ fs, e.ptr = 0 → ∃ pre c n,
        FirstWrite 0 (calls (((tcpClientProcess 10).run twoCommands clientCreate).get
          twoCommands_runs).1) pre c n ∧ Aims pre 0 c ∧
          (n = c.text.length → newline ∈ c.text → e.text = firstLine c.text) := by
  have hclient : Asked 10 _ _ := trace_of_isSome (fun _ _ => trivial) twoCommands_runs
  have hserver : Served serverExecuteCallback 10 _ _ :=
    trace_of_isSome (fun _ _ => trivial) twoReads_runs
  exact ⟨_, _, hserver, by decide +kernel, by decide +kernel, fun e he hptr =>
    first_command_only hclient hserver (by decide +kernel) he hptr⟩

end EndToEnd

end DclProcessor.Messenger
