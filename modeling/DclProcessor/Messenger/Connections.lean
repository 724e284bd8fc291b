import Mathlib.Data.List.Nodup
import DclProcessor.Messenger.Server

/-!
What the server knows of its connections in every run: the list, the counter and the set of
epoll agree, and no event is left on a connection that has been freed. After a message that
stops the server only the events already reported are handled.
-/

namespace DclProcessor.Messenger

open Transition Bytes

/-- The list, `connection_cnt` and the set of epoll speak of the same connections, which have
different descriptors. -/
structure Linked (srv : Server) : Prop where
  count : srv.connectionCnt = srv.connectionList.length
  ptrs : (srv.connectionList.map Peer.ptr).Nodup
  fds : (srv.connectionList.map Peer.fd).Nodup
  epoll : srv.epoll = srv.connectionList.map fun p => (p.fd, p.ptr)
  made : ∀ p ∈ srv.connectionList, p.ptr < srv.allocated

/-- The events that are left are on different connections, none of which has been freed. -/
structure Coherent (maxEvents : Nat) (srv : Server) : Prop where
  linked : Linked srv
  once : srv.batch.Nodup
  few : srv.batch.length ≤ maxEvents
  live : ∀ ptr, Ready.peer ptr ∈ srv.batch → ptr ∈ srv.connectionList.map Peer.ptr
  notFreed : srv.phase ≠ .undefined .freed

section Operations

variable {srv : Server} {rest ready : List Ready} {r : Ready}

theorem Server.batch_of_serving (h : srv.phase = .serving ready) : srv.batch = ready := by
  simp [Server.batch, h]

@[simp] theorem Server.proceed_batch : (srv.proceed rest).batch = rest := by
  unfold Server.proceed Server.batch
  split
  · next ready hready =>
    simp only at hready
    split at hready
    · split at hready <;> cases hready
    · cases hready
      rfl
  · next hno =>
    by_contra hne
    have hsome : rest ≠ [] := fun hnil => hne hnil.symm
    exact hno rest (by simp [hsome])

@[simp] theorem Server.proceed_exitFlag : (srv.proceed rest).exitFlag = srv.exitFlag := rfl

theorem Server.proceed_defined (fault : Fault) : (srv.proceed rest).phase ≠ .undefined fault := by
  unfold Server.proceed
  split
  · split <;> simp
  · simp

theorem Linked.keep (h : Linked srv) (phase : Phase) (flag : Bool) :
    Linked { srv with phase := phase, exitFlag := flag } :=
  ⟨h.count, h.ptrs, h.fds, h.epoll, h.made⟩

/-- In a coherent list the pointer tells which connection it is, as the descriptor does. -/
theorem Linked.same (h : Linked srv) {p q : Peer} (hp : p ∈ srv.connectionList)
    (hq : q ∈ srv.connectionList) : q.ptr = p.ptr ↔ q.fd = p.fd := by
  constructor
  · intro hptr
    rw [List.inj_on_of_nodup_map h.ptrs hq hp hptr]
  · intro hfd
    rw [List.inj_on_of_nodup_map h.fds hq hp hfd]

theorem Linked.add (h : Linked srv) {fd : Nat} (hfd : fd ∉ srv.connectionList.map Peer.fd)
    (host service : String) :
    Linked { srv.connectionAdd fd host service with
      epoll := srv.epoll ++ [(fd, srv.allocated)] } where
  count := by simp [Server.connectionAdd, h.count]
  ptrs := by
    simp only [Server.connectionAdd, List.map_append, List.map_cons, List.map_nil]
    refine List.nodup_append.mpr ⟨h.ptrs, List.nodup_singleton _, ?_⟩
    intro ptr hptr other hother hsame
    obtain ⟨p, hp, rfl⟩ := List.mem_map.mp hptr
    have := h.made p hp
    rw [hsame, List.mem_singleton.mp hother] at this
    exact Nat.lt_irrefl _ this
  fds := by
    simp only [Server.connectionAdd, List.map_append, List.map_cons, List.map_nil]
    refine List.nodup_append.mpr ⟨h.fds, List.nodup_singleton _, ?_⟩
    intro other hother new hnew hsame
    rw [List.mem_singleton.mp hnew] at hsame
    exact hfd (hsame ▸ hother)
  epoll := by simp [Server.connectionAdd, h.epoll]
  made := by
    intro p hp
    rcases List.mem_append.mp hp with hp | hp
    · exact Nat.lt_succ_of_lt (h.made p hp)
    · rw [List.mem_singleton.mp hp]
      exact Nat.lt_succ_self _

theorem Linked.delete (h : Linked srv) {p : Peer} (hp : p ∈ srv.connectionList) :
    Linked (srv.connectionDelete p) where
  count := by
    have herase : (srv.connectionList.filter (·.ptr ≠ p.ptr)).map Peer.ptr =
        (srv.connectionList.map Peer.ptr).erase p.ptr := by
      rw [h.ptrs.erase_eq_filter, List.filter_map]
      refine congrArg (List.map Peer.ptr) (List.filter_congr fun q _ => ?_)
      simp [bne, beq_eq_decide]
    have hlen := congrArg List.length herase
    have hmem := List.mem_map_of_mem (f := Peer.ptr) hp
    have hpos := List.length_pos_of_mem hp
    rw [List.length_erase_of_mem hmem, List.length_map, List.length_map] at hlen
    simp only [Server.connectionDelete, h.count, hlen]
    omega
  ptrs := (h.ptrs.sublist (List.filter_sublist.map _))
  fds := (h.fds.sublist (List.filter_sublist.map _))
  epoll := by
    simp only [Server.connectionDelete, h.epoll, List.filter_map]
    congr 1
    refine List.filter_congr fun q hq => ?_
    simp [h.same hp hq]
  made q hq := h.made q (List.mem_filter.mp hq).1

theorem Server.store_map {β : Type} (f : Peer → β) (ptr : Nat) (conn : Connection)
    (hf : ∀ q : Peer, f { q with conn := conn } = f q) :
    (srv.store ptr conn).map f = srv.connectionList.map f := by
  rw [Server.store, List.map_map]
  refine List.map_congr_left fun q _ => ?_
  simp only [Function.comp_apply]
  split
  · exact hf q
  · rfl

theorem Linked.store (h : Linked srv) (ptr : Nat) (conn : Connection) (flag : Bool)
    (received : Nat → List UInt8) :
    Linked { srv with
      connectionList := srv.store ptr conn
      exitFlag := flag
      received := received } where
  count := by simp [Server.store, h.count]
  ptrs := by
    rw [Server.store_map Peer.ptr ptr conn fun _ => rfl]
    exact h.ptrs
  fds := by
    rw [Server.store_map Peer.fd ptr conn fun _ => rfl]
    exact h.fds
  epoll := by
    rw [Server.store_map (fun p => (p.fd, p.ptr)) ptr conn fun _ => rfl]
    exact h.epoll
  made := by
    intro q hq
    obtain ⟨q', hq', rfl⟩ := List.mem_map.mp hq
    split <;> exact h.made q' hq'

end Operations

/-! ## Every run -/

section Runs

variable {callback : RawMessage → Bool} {maxEvents : Nat} {srv srv' : Server}
  {a : ServerAction} {es : List Handed}

/-- The events that are left after the first one. -/
theorem Coherent.rest (h : Coherent maxEvents srv) {r : Ready} {rest : List Ready}
    (hphase : srv.phase = .serving (r :: rest)) :
    (r :: rest).Nodup ∧ rest.length < maxEvents ∧
      ∀ ptr, Ready.peer ptr ∈ r :: rest → ptr ∈ srv.connectionList.map Peer.ptr := by
  have hbatch := Server.batch_of_serving hphase
  have honce := h.once
  have hfew := h.few
  have hlive := h.live
  rw [hbatch] at honce hfew hlive
  exact ⟨honce, hfew, hlive⟩

/-- A server that goes on with these events. -/
theorem Linked.coherent (h : Linked srv) {rest : List Ready} (honce : rest.Nodup)
    (hfew : rest.length ≤ maxEvents)
    (hlive : ∀ ptr, Ready.peer ptr ∈ rest → ptr ∈ srv.connectionList.map Peer.ptr) :
    Coherent maxEvents (srv.proceed rest) where
  linked := h.keep _ _
  once := by rwa [Server.proceed_batch]
  few := by rwa [Server.proceed_batch]
  live ptr hptr := by
    rw [Server.proceed_batch] at hptr
    exact hlive ptr hptr
  notFreed := Server.proceed_defined _

theorem coherent_step (h : Coherent maxEvents srv)
    (hs : ServerStep callback maxEvents srv a es srv') : Coherent maxEvents srv' := by
  cases hs with
  | leave _ =>
    exact ⟨h.linked.keep _ _, List.nodup_nil, Nat.zero_le _, fun _ hmem => (nomatch hmem), nofun⟩
  | @reported ready hphase hflag honce hfew hreg =>
    refine h.linked.coherent honce hfew fun ptr hptr => ?_
    have hmem : ptr ∈ srv.epoll.map Prod.snd := hreg _ hptr
    rw [h.linked.epoll, List.map_map] at hmem
    exact hmem
  | interrupted _ => exact h
  | @skipped rest hphase =>
    obtain ⟨honce, hfew, hlive⟩ := h.rest hphase
    exact h.linked.coherent honce.of_cons hfew.le fun ptr hptr =>
      hlive ptr (List.mem_cons_of_mem _ hptr)
  | @accepted rest fd host service hphase hfd =>
    obtain ⟨honce, hfew, hlive⟩ := h.rest hphase
    refine (h.linked.add hfd host service).coherent honce.of_cons hfew.le fun ptr hptr => ?_
    simp only [Server.connectionAdd, List.map_append]
    exact List.mem_append_left _ (hlive ptr (List.mem_cons_of_mem _ hptr))
  | @closed rest p hphase hp =>
    obtain ⟨honce, hfew, hlive⟩ := h.rest hphase
    refine (h.linked.delete hp).coherent honce.of_cons hfew.le fun ptr hptr => ?_
    -- the event on the connection that goes was the only one on it
    have hother : ptr ≠ p.ptr := by
      rintro rfl
      exact (List.nodup_cons.mp honce).1 hptr
    obtain ⟨q, hq, rfl⟩ := List.mem_map.mp (hlive ptr (List.mem_cons_of_mem _ hptr))
    exact List.mem_map.mpr ⟨q, List.mem_filter.mpr ⟨hq, by simpa using hother⟩, rfl⟩
  | @handed rest p bytes conn conn' text memory msg hphase hp =>
    obtain ⟨honce, hfew, hlive⟩ := h.rest hphase
    refine (h.linked.store ..).coherent honce.of_cons hfew.le fun ptr hptr => ?_
    simp only
    rw [Server.store_map Peer.ptr p.ptr conn' fun _ => rfl]
    exact hlive ptr (List.mem_cons_of_mem _ hptr)
  | @fault fault r rest hphase hfreed =>
    refine ⟨h.linked.keep _ _, List.nodup_nil, Nat.zero_le _, fun _ hmem => (nomatch hmem), ?_⟩
    rintro ⟨rfl⟩
    obtain ⟨ptr, rfl, hnone⟩ := hfreed rfl
    obtain ⟨-, -, hlive⟩ := h.rest hphase
    obtain ⟨p, hp, hptr⟩ := List.mem_map.mp (hlive ptr (List.mem_cons_self ..))
    exact hnone p hp hptr
  | raised _ => exact ⟨h.linked.keep _ _, h.once, h.few, h.live, h.notFreed⟩

theorem coherent_create : Coherent maxEvents serverCreate :=
  ⟨⟨rfl, List.nodup_nil, List.nodup_nil, rfl, nofun⟩, List.nodup_nil, Nat.zero_le _,
    fun _ hmem => (nomatch hmem), nofun⟩

theorem coherent_of_served (h : Served callback maxEvents es srv) : Coherent maxEvents srv :=
  Reaches.invariant (P := Coherent maxEvents) coherent_create
    (fun _ _ _ hcoh _ hs => coherent_step hcoh (serverStep_of_step hs)) ⟨es, h⟩

end Runs

/-! ## The end of the server -/

section End

variable {callback : RawMessage → Bool} {maxEvents : Nat} {srv srv' : Server}
  {a : ServerAction} {es : List Handed}

/-- `connection_delete` of the first connection leaves the others. -/
theorem Linked.delete_head (h : Linked srv) {p : Peer} {rest : List Peer}
    (hlist : srv.connectionList = p :: rest) :
    (srv.connectionDelete p).connectionList = rest := by
  have hptrs := h.ptrs
  rw [hlist, List.map_cons, List.nodup_cons] at hptrs
  simp only [Server.connectionDelete, hlist]
  rw [List.filter_cons_of_neg (by simp), List.filter_eq_self]
  intro q hq
  have hne : q.ptr ≠ p.ptr := fun hsame => hptrs.1 (List.mem_map.mpr ⟨q, hq, hsame⟩)
  simpa using hne

theorem destroy_of_linked (h : Linked srv) :
    (serverDestroy srv).1 = srv.connectionList.map Peer.fd ∧
      (serverDestroy srv).2.connectionList = [] ∧ Linked (serverDestroy srv).2 := by
  induction hn : srv.connectionList.length generalizing srv with
  | zero =>
    have hnil := List.length_eq_zero_iff.mp hn
    rw [serverDestroy]
    split
    · exact ⟨by rw [hnil, List.map_nil], hnil, h⟩
    · next hcons => cases hnil.symm.trans hcons
  | succ n ih =>
    rw [serverDestroy]
    split
    · next hnil => simp [hnil] at hn
    · next p rest hcons =>
      have hrest := h.delete_head hcons
      have hp : p ∈ srv.connectionList := hcons ▸ List.mem_cons_self ..
      obtain ⟨hclosed, hempty, hlinked⟩ := ih (h.delete hp) (by rw [hrest]; simpa [hcons] using hn)
      refine ⟨?_, hempty, hlinked⟩
      rw [hcons, List.map_cons, ← hrest, ← hclosed]

/-- The messages from the first one on that the callback stops the server for. -/
def late (callback : RawMessage → Bool) (es : List Handed) : List Handed :=
  es.dropWhile fun e => !callback e.msg

theorem late_append (fs : List Handed) (h : late callback es ≠ []) :
    late callback (es ++ fs) = late callback es ++ fs := by
  unfold late at h ⊢
  rw [List.dropWhile_append, if_neg (by simpa using h)]

theorem late_append_of_nil (fs : List Handed) (h : late callback es = []) :
    late callback (es ++ fs) = late callback fs := by
  unfold late at h ⊢
  rw [List.dropWhile_append, if_pos (by simpa using h)]

/-- After a message that stops it the server handles what has been reported and no more. -/
structure Stopped (callback : RawMessage → Bool) (maxEvents : Nat) (es : List Handed)
    (srv : Server) : Prop where
  flag : srv.exitFlag = true
  left : srv.phase ≠ .waiting
  few : (late callback es).length + srv.batch.length ≤ maxEvents

theorem proceed_left (h : srv.exitFlag = true) (rest : List Ready) :
    (srv.proceed rest).phase ≠ .waiting := by
  unfold Server.proceed
  rw [h]
  split <;> simp

/-- A server that is to stop has fewer events left after each of its own steps, of which it
may have handed one message. -/
theorem stopping_step (hflag : srv.exitFlag = true) (hleft : srv.phase ≠ .waiting)
    {fs : List Handed} (hs : ServerStep callback maxEvents srv a fs srv') :
    srv'.exitFlag = true ∧ srv'.phase ≠ .waiting ∧
      fs.length + srv'.batch.length ≤ srv.batch.length ∧
      (a ≠ .raiseExit → srv'.batch.length < srv.batch.length) := by
  cases hs with
  | leave hphase | reported hphase | interrupted hphase => exact absurd hphase hleft
  | skipped hphase | accepted hphase | closed hphase =>
    refine ⟨hflag, proceed_left hflag _, ?_⟩
    simp [Server.batch_of_serving hphase]
  | handed hphase =>
    refine ⟨by simp [hflag], proceed_left (by simp [hflag]) _, ?_⟩
    rw [Server.batch_of_serving hphase, Server.proceed_batch]
    simp [Nat.add_comm]
  | fault hphase =>
    refine ⟨hflag, by simp, ?_⟩
    rw [Server.batch_of_serving hphase]
    simp [Server.batch]
  | raised ha => exact ⟨rfl, hleft, by simp [Server.batch], fun hne => absurd ha hne⟩

theorem Stopped.step (h : Stopped callback maxEvents es srv) {fs : List Handed}
    (hlate : late callback es ≠ []) (hs : ServerStep callback maxEvents srv a fs srv') :
    Stopped callback maxEvents (es ++ fs) srv' := by
  obtain ⟨hflag, hleft, hfewer, -⟩ := stopping_step h.flag h.left hs
  refine ⟨hflag, hleft, ?_⟩
  have hfew := h.few
  rw [late_append _ hlate, List.length_append]
  omega

/-- The first message that stops the server. -/
theorem stopped_of_first (hcoh : Coherent maxEvents srv) {fs : List Handed}
    (hnone : late callback es = []) (hlate : late callback (es ++ fs) ≠ [])
    (hs : ServerStep callback maxEvents srv a fs srv') :
    Stopped callback maxEvents (es ++ fs) srv' := by
  cases hs with
  | @handed rest p bytes conn conn' text memory msg hphase =>
    rw [late_append_of_nil _ hnone] at hlate
    have hstop : callback msg = true := by
      by_contra hno
      simp [late, hno] at hlate
    obtain ⟨-, hfew, -⟩ := hcoh.rest hphase
    refine ⟨by simp [hstop], proceed_left (by simp [hstop]) _, ?_⟩
    rw [Server.proceed_batch, late_append_of_nil _ hnone]
    have hone : (late callback [⟨p.ptr, text, msg⟩]).length ≤ 1 :=
      (List.dropWhile_sublist _).length_le
    omega
  | _ =>
    rw [List.append_nil] at hlate
    exact absurd hnone hlate

theorem stopped_of_served (h : Served callback maxEvents es srv) (hlate : late callback es ≠ []) :
    Stopped callback maxEvents es srv := by
  induction h with
  | start => exact absurd rfl hlate
  | @next es srv srv' a htrace _ hs ih =>
    have hstep := serverStep_of_step hs
    by_cases hnone : late callback es = []
    · exact stopped_of_first (coherent_of_served htrace) hnone hlate hstep
    · exact (ih hnone).step hnone hstep

/-- A server that is to stop makes at most one step for each event that is left. -/
theorem steps_le_batch (hflag : srv.exitFlag = true) (hleft : srv.phase ≠ .waiting)
    {as : List ServerAction} {fs : List Handed} (hown : ∀ a ∈ as, a ≠ .raiseExit)
    (hrun : (tcpServerProcess callback maxEvents).run as srv = some (fs, srv')) :
    as.length ≤ srv.batch.length := by
  have hpaid := count_le_of_budget (p := fun _ _ => true)
    (I := fun t : Server => t.exitFlag = true ∧ t.phase ≠ .waiting) (fun t => t.batch.length)
    (fun t a t' ht ha hs => by
      obtain ⟨hflag', hleft', -, hfewer⟩ := stopping_step ht.1 ht.2 (serverStep_of_step hs)
      exact ⟨⟨hflag', hleft'⟩, hfewer ha⟩) ⟨hflag, hleft⟩ hown hrun
  rw [count_all hrun] at hpaid
  exact Nat.le_of_add_right_le hpaid

/-- **The server keeps account of its connections** in every run: the list, the counter and
the set of epoll agree, no event is handled on a connection that has been freed, and
`server_destroy` closes each descriptor once. -/
theorem connections_coherent (h : Served callback maxEvents es srv) :
    Coherent maxEvents srv ∧ (serverDestroy srv).1 = srv.connectionList.map Peer.fd ∧
      (serverDestroy srv).2.connectionList = [] ∧ (serverDestroy srv).2.connectionCnt = 0 ∧
      (serverDestroy srv).2.epoll = [] := by
  have hcoh := coherent_of_served h
  obtain ⟨hclosed, hempty, hlinked⟩ := destroy_of_linked hcoh.linked
  refine ⟨hcoh, hclosed, hempty, ?_, ?_⟩
  · rw [hlinked.count, hempty]
    rfl
  · rw [hlinked.epoll, hempty]
    rfl

/-- Two peers, of which the second one stops the server while the first one is at work. -/
def twoPeers : List ServerAction :=
  [.wait (.events [.listener]),
   .accept (.connected 5 "left" "1000" true true),
   .wait (.events [.listener, .peer 0]),
   .accept (.connected 6 "right" "1001" true true),
   .data [71, 69, 84, 10] (memory 3 "" (by decide)),
   .wait (.events [.peer 1, .peer 0]),
   .data [83, 84, 79, 80, 10] (memory 3 "" (by decide)),
   .data [83, 69, 84, 10] (memory 3 "" (by decide))]

theorem twoPeers_runs :
    ((tcpServerProcess serverExecuteCallback 10).run twoPeers serverCreate).isSome = true := by
  decide +kernel

theorem connections_coherent_twoPeers :
    Coherent 10 (((tcpServerProcess serverExecuteCallback 10).run twoPeers serverCreate).get
      twoPeers_runs).2 :=
  (connections_coherent (trace_of_isSome (fun _ _ => trivial) twoPeers_runs)).1

/-- **A server that is told to stop stops**, whatever its peers send: from the message on that
the callback stops it for it hands over at most as many as it takes from `epoll_pwait` at
once, and it makes at most one more step for each event that is left. -/
theorem few_after_stop (h : Served callback maxEvents es srv) :
    (late callback es).length ≤ maxEvents ∧
      (late callback es ≠ [] → ∀ (as : List ServerAction) (fs : List Handed) (t : Server),
        (∀ a ∈ as, a ≠ .raiseExit) →
          (tcpServerProcess callback maxEvents).run as srv = some (fs, t) →
          as.length ≤ srv.batch.length) := by
  by_cases hlate : late callback es = []
  · exact ⟨by simp [hlate], fun hne => absurd hlate hne⟩
  · have hstopped := stopped_of_served h hlate
    exact ⟨Nat.le_of_add_right_le hstopped.few, fun _ as fs t hown hrun =>
      steps_le_batch hstopped.flag hstopped.left hown hrun⟩

theorem few_after_stop_twoPeers :
    (late serverExecuteCallback (((tcpServerProcess serverExecuteCallback 10).run twoPeers
      serverCreate).get twoPeers_runs).1).length ≤ 10 :=
  (few_after_stop (trace_of_isSome (fun _ _ => trivial) twoPeers_runs)).1

end End

end DclProcessor.Messenger
