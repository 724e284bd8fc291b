import DclProcessor.Messenger.Client

/-!
What the two threads of the client know of its connections in every run. `connection_cnt` can
lose an update; the list and the set of epoll agree, but for the connection that is being added
and the one that is being deleted, and no event is handled on a connection that has been freed.
-/

namespace DclProcessor.Messenger

open Transition

/-- What the two threads know of the connections. The set of epoll has those on the list, but
for the one that is being added, and the one that is being deleted; the events that are left
are on different connections of the list. -/
structure Accounted (maxEvents : Nat) (cli : Client) : Prop where
  ptrs : (cli.aliveKeys.map Prod.snd).Nodup
  fds : (cli.openKeys.map Prod.fst).Nodup
  made : ∀ k ∈ cli.aliveKeys, k.2 < cli.allocated
  registered : ∀ k ∈ cli.epoll, k ∈ cli.openKeys
  listed : ∀ k ∈ cli.keys, cli.pc.adding = some k ∨ k ∈ cli.epoll
  adding : ∀ k, cli.pc.adding = some k → k ∈ cli.keys ∧ k ∉ cli.epoll
  attaching : ∀ fd, cli.pc.attaching = some fd → fd ∉ cli.openKeys.map Prod.fst
  removing : ∀ p, cli.events.removing = some p → p.key ∈ cli.keys
  once : cli.events.batch.Nodup
  few : cli.events.batch.length ≤ maxEvents
  live : ∀ ptr ∈ cli.events.batch, ∃ fd, (fd, ptr) ∈ cli.keys ∧ (fd, ptr) ∈ cli.epoll
  notFreed : cli.fault ≠ some .freed

section Connections

variable {maxEvents : Nat} {cli cli' : Client} {es : List ClientEvent}

theorem Client.openKeys_eq (cli : Client) :
    cli.openKeys = cli.keys ++ cli.events.unlinked.map Peer.key := List.map_append ..

theorem Client.mem_openKeys {k : Nat × Nat} (hk : k ∈ cli.keys) : k ∈ cli.openKeys := by
  rw [cli.openKeys_eq]
  exact List.mem_append_left _ hk

theorem Client.mem_aliveKeys {k : Nat × Nat} (hk : k ∈ cli.openKeys) : k ∈ cli.aliveKeys :=
  List.mem_append_left _ hk

theorem Client.aliveKeys_of_none (h : cli.events.freeing = []) : cli.aliveKeys = cli.openKeys := by
  rw [Client.aliveKeys, h]
  exact List.append_nil _

/-- A key is the only one with its pointer, and with its descriptor. -/
theorem Accounted.key_eq (h : Accounted maxEvents cli) {k k' : Nat × Nat}
    (hk : k ∈ cli.openKeys) (hk' : k' ∈ cli.openKeys) (hsame : k.2 = k'.2 ∨ k.1 = k'.1) :
    k = k' := by
  rcases hsame with hptr | hfd
  · exact List.inj_on_of_nodup_map h.ptrs (cli.mem_aliveKeys hk) (cli.mem_aliveKeys hk') hptr
  · exact List.inj_on_of_nodup_map h.fds hk hk' hfd

theorem updateAt_key (ptr : Nat) (f : Peer → Peer) (hf : ∀ p : Peer, (f p).key = p.key)
    (ps : List Peer) : (updateAt ptr f ps).map Peer.key = ps.map Peer.key := by
  rw [updateAt, List.map_map]
  refine List.map_congr_left fun p _ => ?_
  rw [Function.comp_apply]
  split
  · exact hf p
  · rfl

/-- Most steps leave the connections as they are. -/
theorem Accounted.keep (h : Accounted maxEvents cli) (hkeys : cli'.keys = cli.keys)
    (hepoll : cli'.epoll = cli.epoll) (hallocated : cli'.allocated = cli.allocated)
    (hadding : cli'.pc.adding = cli.pc.adding)
    (hattaching : ∀ fd, cli'.pc.attaching = some fd → fd ∉ cli.openKeys.map Prod.fst)
    (hunlinked : cli'.events.unlinked = cli.events.unlinked)
    (hfreeing : cli'.events.freeing.Sublist cli.events.freeing)
    (hremoving : ∀ p, cli'.events.removing = some p → p.key ∈ cli.keys)
    (hbatch : cli'.events.batch.Sublist cli.events.batch) (hfault : cli'.fault ≠ some .freed) :
    Accounted maxEvents cli' := by
  have hopen : cli'.openKeys = cli.openKeys := by
    rw [cli'.openKeys_eq, cli.openKeys_eq, hkeys, hunlinked]
  have halive : cli'.aliveKeys.Sublist cli.aliveKeys := by
    rw [Client.aliveKeys, Client.aliveKeys, hopen]
    exact (hfreeing.map _).append_left _
  constructor
  case ptrs => exact h.ptrs.sublist (halive.map _)
  case fds => exact hopen ▸ h.fds
  case made =>
    intro k hk
    rw [hallocated]
    exact h.made k (halive.subset hk)
  case registered =>
    rw [hopen, hepoll]
    exact h.registered
  case listed =>
    rw [hkeys, hadding, hepoll]
    exact h.listed
  case adding =>
    rw [hkeys, hadding, hepoll]
    exact h.adding
  case attaching =>
    rw [hopen]
    exact hattaching
  case removing =>
    rw [hkeys]
    exact hremoving
  case once => exact h.once.sublist hbatch
  case few => exact hbatch.length_le.trans h.few
  case live =>
    intro ptr hptr
    rw [hkeys, hepoll]
    exact h.live ptr (hbatch.subset hptr)
  case notFreed => exact hfault

/-- A step of `tcp_client_process` that leaves the connections. -/
theorem Accounted.goto (h : Accounted maxEvents cli) (hkeys : cli'.keys = cli.keys)
    (hepoll : cli'.epoll = cli.epoll) (hallocated : cli'.allocated = cli.allocated)
    (hevents : cli'.events = cli.events) (hadding : cli'.pc.adding = cli.pc.adding)
    (hattaching : ∀ fd, cli'.pc.attaching = some fd → fd ∉ cli.openKeys.map Prod.fst)
    (hfault : cli'.fault ≠ some .freed) : Accounted maxEvents cli' :=
  h.keep hkeys hepoll hallocated hadding hattaching (by rw [hevents]) (by rw [hevents])
    (by rw [hevents]; exact h.removing) (by rw [hevents]) hfault

/-- The connection that is put on the list. -/
theorem Accounted.link (h : Accounted maxEvents cli) {a : Adding} (hpc : cli.pc = .link a) :
    Accounted maxEvents (cli.link a) := by
  have hkeys : (cli.link a).keys = cli.keys ++ [(a.fd, cli.allocated)] := List.map_append ..
  have hmem : ∀ k, k ∈ (cli.link a).openKeys ↔ k ∈ cli.openKeys ∨ k = (a.fd, cli.allocated) := by
    intro k
    rw [(cli.link a).openKeys_eq, hkeys, cli.openKeys_eq]
    simp only [Client.link, List.mem_append, List.mem_singleton]
    exact or_right_comm
  have hperm : (cli.link a).openKeys.Perm ((a.fd, cli.allocated) :: cli.openKeys) := by
    rw [(cli.link a).openKeys_eq, hkeys, cli.openKeys_eq, List.append_assoc,
      List.singleton_append]
    exact List.perm_middle
  have halive : (cli.link a).aliveKeys.Perm ((a.fd, cli.allocated) :: cli.aliveKeys) :=
    hperm.append_right _
  have hnew : ∀ k ∈ cli.openKeys, k ≠ (a.fd, cli.allocated) := by
    rintro k hk rfl
    exact Nat.lt_irrefl _ (h.made _ (cli.mem_aliveKeys hk))
  constructor
  case ptrs =>
    rw [(halive.map Prod.snd).nodup_iff]
    refine List.nodup_cons.mpr ⟨fun hmem => ?_, h.ptrs⟩
    obtain ⟨k, hk, hptr⟩ := List.mem_map.mp hmem
    exact Nat.ne_of_lt (h.made k hk) hptr
  case fds =>
    rw [(hperm.map Prod.fst).nodup_iff]
    exact List.nodup_cons.mpr ⟨h.attaching a.fd (by rw [hpc]; rfl), h.fds⟩
  case made =>
    intro k hk
    rcases List.mem_cons.mp (halive.mem_iff.mp hk) with rfl | hk
    · exact Nat.lt_succ_self _
    · exact Nat.lt_succ_of_lt (h.made k hk)
  case registered => exact fun k hk => (hmem k).mpr (Or.inl (h.registered k hk))
  case listed =>
    intro k hk
    rw [hkeys, List.mem_append, List.mem_singleton] at hk
    rcases hk with hk | rfl
    · refine Or.inr ((h.listed k hk).resolve_left fun hadding => ?_)
      rw [hpc] at hadding
      cases hadding
    · exact Or.inl rfl
  case adding =>
    intro k hk
    obtain rfl : (a.fd, cli.allocated) = k := Option.some.inj hk
    refine ⟨?_, fun hepoll => hnew _ (h.registered _ hepoll) rfl⟩
    rw [hkeys]
    exact List.mem_append_right _ (List.mem_singleton_self _)
  case attaching => exact fun fd hfd => nomatch hfd
  case removing =>
    intro p hp
    rw [hkeys]
    exact List.mem_append_left _ (h.removing p hp)
  case once => exact h.once
  case few => exact h.few
  case live =>
    intro ptr hptr
    obtain ⟨fd, hkey, hepoll⟩ := h.live ptr hptr
    rw [hkeys]
    exact ⟨fd, List.mem_append_left _ hkey, hepoll⟩
  case notFreed => exact h.notFreed

/-- The connection that is put in the set of epoll. -/
theorem Accounted.register (h : Accounted maxEvents cli) {a : Adding} {ptr : Nat}
    (hpc : cli.pc = .register a ptr) :
    Accounted maxEvents ({ cli with epoll := cli.epoll ++ [(a.fd, ptr)] }.added a.waiting) := by
  obtain ⟨hkey, -⟩ := h.adding (a.fd, ptr) (by rw [hpc]; rfl)
  have hopen : (a.fd, ptr) ∈ cli.openKeys := by
    rw [cli.openKeys_eq]
    exact List.mem_append_left _ hkey
  constructor
  case ptrs => exact h.ptrs
  case fds => exact h.fds
  case made => exact h.made
  case registered =>
    intro k hk
    rcases List.mem_append.mp hk with hk | hk
    · exact h.registered k hk
    · rw [List.mem_singleton.mp hk]
      exact hopen
  case listed =>
    intro k hk
    right
    rcases h.listed k hk with hadding | hepoll
    · rw [hpc] at hadding
      obtain rfl : (a.fd, ptr) = k := Option.some.inj hadding
      exact List.mem_append_right _ (List.mem_singleton_self _)
    · exact List.mem_append_left _ hepoll
  case adding => exact fun k hk => nomatch hk
  case attaching => exact fun fd hfd => nomatch hfd
  case removing => exact h.removing
  case once => exact h.once
  case few => exact h.few
  case live =>
    intro p hp
    obtain ⟨fd, hlisted, hepoll⟩ := h.live p hp
    exact ⟨fd, hlisted, List.mem_append_left _ hepoll⟩
  case notFreed =>
    simp only [Client.added]
    split <;> decide

/-- The connection that is taken off the list. -/
theorem Accounted.remove (h : Accounted maxEvents cli) {p : Peer} {rest : List Nat}
    (hevents : cli.events = .unlink p rest) : Accounted maxEvents { cli with
      connectionList := cli.connectionList.filter (·.ptr ≠ p.ptr)
      events := .loadCnt p rest } := by
  obtain ⟨cli', hcli'⟩ : ∃ cli' : Client, cli' = { cli with
    connectionList := cli.connectionList.filter (·.ptr ≠ p.ptr)
    events := .loadCnt p rest } := ⟨_, rfl⟩
  rw [← hcli']
  have hp : p.key ∈ cli.keys := h.removing p (by rw [hevents]; rfl)
  have hopen : cli.openKeys = cli.keys := by
    rw [cli.openKeys_eq, hevents]
    exact List.append_nil _
  have hkeys : cli'.keys = cli.keys.filter (·.2 ≠ p.ptr) := by
    rw [hcli', Client.keys, Client.keys, List.filter_map]
    rfl
  have hmem : ∀ k, k ∈ cli'.keys ↔ k ∈ cli.keys ∧ k.2 ≠ p.ptr := fun k => by
    simp [hkeys, List.mem_filter]
  have hopen' : cli'.openKeys = cli'.keys ++ [p.key] := by
    rw [cli'.openKeys_eq, hcli']
    rfl
  have hperm : cli'.openKeys.Perm cli.openKeys := by
    have hnodup : cli.keys.Nodup := hopen ▸ h.fds.of_map
    rw [hopen, hopen']
    refine (List.perm_ext_iff_of_nodup ?_ hnodup).mpr fun k => ?_
    · rw [hkeys]
      refine List.nodup_append.mpr ⟨hnodup.filter _, List.nodup_singleton _, ?_⟩
      rintro k hk other hother rfl
      rw [List.mem_singleton.mp hother] at hk
      simp [Peer.key] at hk
    · rw [List.mem_append, List.mem_singleton, hmem]
      constructor
      · rintro (hk | rfl)
        · exact hk.1
        · exact hp
      · intro hk
        by_cases hptr : k.2 = p.ptr
        · exact Or.inr (h.key_eq (cli.mem_openKeys hk) (cli.mem_openKeys hp) (Or.inl hptr))
        · exact Or.inl ⟨hk, hptr⟩
  have halive : cli'.aliveKeys.Perm cli.aliveKeys := by
    rw [cli.aliveKeys_of_none (by rw [hevents]; rfl), cli'.aliveKeys_of_none (by rw [hcli']; rfl)]
    exact hperm
  have honce := h.once
  rw [hevents] at honce
  have hrest : ∀ ptr ∈ rest, ptr ∈ cli.events.batch := fun ptr hptr => by
    rw [hevents]
    exact List.mem_cons_of_mem _ hptr
  have hepoll : cli'.epoll = cli.epoll := by rw [hcli']
  have hpc : cli'.pc = cli.pc := by rw [hcli']
  have hbatch : cli'.events.batch = rest := by
    rw [hcli']
    rfl
  constructor
  case ptrs => exact (halive.map _).nodup_iff.mpr h.ptrs
  case fds => exact (hperm.map _).nodup_iff.mpr h.fds
  case made =>
    intro k hk
    have hallocated : cli'.allocated = cli.allocated := by rw [hcli']
    rw [hallocated]
    exact h.made k (halive.mem_iff.mp hk)
  case registered =>
    intro k hk
    exact hperm.mem_iff.mpr (h.registered k (hepoll ▸ hk))
  case listed =>
    intro k hk
    rw [hpc, hepoll]
    exact h.listed k ((hmem k).mp hk).1
  case adding =>
    intro k hk
    rw [hpc] at hk
    obtain ⟨hkey, hno⟩ := h.adding k hk
    refine ⟨(hmem k).mpr ⟨hkey, fun hptr => ?_⟩, hepoll ▸ hno⟩
    -- an event has been reported on the connection that is deleted
    obtain ⟨fd, hlisted, hregistered⟩ := h.live p.ptr (by rw [hevents]; exact List.mem_cons_self ..)
    have hsame := h.key_eq (cli.mem_openKeys hkey) (cli.mem_openKeys hlisted) (Or.inl hptr)
    exact hno (hsame ▸ hregistered)
  case attaching =>
    intro fd hfd hmem'
    rw [hpc] at hfd
    exact h.attaching fd hfd ((hperm.map _).mem_iff.mp hmem')
  case removing =>
    intro q hq
    rw [hcli'] at hq
    cases hq
  case once =>
    rw [hbatch]
    exact honce.of_cons
  case few =>
    have hfew := h.few
    rw [hevents] at hfew
    rw [hbatch]
    exact (Nat.le_succ _).trans hfew
  case live =>
    intro ptr hptr
    rw [hbatch] at hptr
    obtain ⟨fd, hlisted, hregistered⟩ := h.live ptr (hrest ptr hptr)
    refine ⟨fd, (hmem _).mpr ⟨hlisted, ?_⟩, hepoll ▸ hregistered⟩
    rintro rfl
    exact (List.nodup_cons.mp honce).1 hptr
  case notFreed =>
    rw [hcli']
    exact h.notFreed

/-- The descriptor that is closed, which leaves the set of epoll. -/
theorem Accounted.close (h : Accounted maxEvents cli) {p : Peer} {rest : List Nat}
    (hevents : cli.events = .close p rest) : Accounted maxEvents { cli with
      epoll := cli.epoll.filter (·.1 ≠ p.fd)
      events := .free p rest } := by
  have hopen : cli.openKeys = cli.keys ++ [p.key] := by
    rw [cli.openKeys_eq, hevents]
    rfl
  have hlt : (cli.keys ++ []).Sublist cli.openKeys := by
    rw [hopen, List.append_nil]
    exact List.sublist_append_left ..
  have hother : ∀ k ∈ cli.keys, k.1 ≠ p.fd := by
    intro k hk hfd
    have hfds := h.fds
    rw [hopen, List.map_append] at hfds
    exact (List.nodup_append.mp hfds).2.2 k.1 (List.mem_map_of_mem hk) p.fd
      (List.mem_singleton_self _) hfd
  have hbatch : cli.events.batch = rest := by
    rw [hevents]
    rfl
  have hopen' : ∀ epoll, Client.openKeys { cli with epoll := epoll, events := .free p rest } =
      cli.keys ++ [] := fun epoll => Client.openKeys_eq _
  have halive : ∀ epoll, Client.aliveKeys { cli with epoll := epoll, events := .free p rest } =
      cli.aliveKeys := by
    intro epoll
    rw [cli.aliveKeys_of_none (by rw [hevents]; rfl), hopen, Client.aliveKeys, hopen',
      List.append_nil]
    rfl
  constructor
  case ptrs =>
    rw [halive]
    exact h.ptrs
  case fds =>
    rw [hopen']
    exact h.fds.sublist (hlt.map _)
  case made =>
    intro k hk
    rw [halive] at hk
    exact h.made k hk
  case registered =>
    intro k hk
    obtain ⟨hk, hfd⟩ := List.mem_filter.mp hk
    have hmem := h.registered k hk
    rw [hopen, List.mem_append, List.mem_singleton] at hmem
    rw [hopen', List.append_nil]
    refine hmem.resolve_right ?_
    rintro rfl
    simp [Peer.key] at hfd
  case listed =>
    intro k hk
    refine (h.listed k hk).imp id fun hepoll => ?_
    exact List.mem_filter.mpr ⟨hepoll, by simpa using hother k hk⟩
  case adding =>
    intro k hk
    obtain ⟨hkey, hno⟩ := h.adding k hk
    exact ⟨hkey, fun hmem => hno (List.mem_filter.mp hmem).1⟩
  case attaching =>
    intro fd hfd hmem
    rw [hopen'] at hmem
    exact h.attaching fd hfd ((hlt.map _).subset hmem)
  case removing => exact fun q hq => nomatch hq
  case once => exact (hbatch ▸ h.once : rest.Nodup)
  case few => exact (hbatch ▸ h.few : rest.length ≤ maxEvents)
  case live =>
    intro ptr hptr
    obtain ⟨fd, hlisted, hregistered⟩ := h.live ptr (hbatch ▸ hptr)
    exact ⟨fd, hlisted, List.mem_filter.mpr ⟨hregistered, by simpa using hother _ hlisted⟩⟩
  case notFreed => exact h.notFreed

/-- The events that are reported. -/
theorem Accounted.report (h : Accounted maxEvents cli) {ready : List Nat}
    (hevents : cli.events = .waiting) (honce : ready.Nodup) (hfew : ready.length ≤ maxEvents)
    (hready : ∀ ptr ∈ ready, ptr ∈ cli.epoll.map Prod.snd) :
    Accounted maxEvents { cli with events := .serving ready } := by
  have hopen : cli.openKeys = cli.keys := by
    rw [cli.openKeys_eq, hevents]
    exact List.append_nil _
  have hopen' : Client.openKeys { cli with events := .serving ready } = cli.openKeys := by
    rw [hopen, Client.openKeys_eq]
    exact List.append_nil _
  have halive : Client.aliveKeys { cli with events := .serving ready } = cli.aliveKeys := by
    rw [cli.aliveKeys_of_none (by rw [hevents]; rfl), Client.aliveKeys_of_none rfl, hopen']
  constructor
  case ptrs => exact halive ▸ h.ptrs
  case fds => exact hopen' ▸ h.fds
  case made =>
    rw [halive]
    exact h.made
  case registered =>
    rw [hopen']
    exact h.registered
  case listed => exact h.listed
  case adding => exact h.adding
  case attaching =>
    rw [hopen']
    exact h.attaching
  case removing => exact fun p hp => nomatch hp
  case once => exact honce
  case few => exact hfew
  case live =>
    intro ptr hptr
    obtain ⟨⟨fd, ptr'⟩, hepoll, rfl⟩ := List.mem_map.mp (hready ptr hptr)
    exact ⟨fd, hopen ▸ h.registered _ hepoll, hepoll⟩
  case notFreed => exact h.notFreed

theorem execute_fields (cli : Client) (c : Command) :
    (cli.execute c).keys = cli.keys ∧ (cli.execute c).epoll = cli.epoll ∧
      (cli.execute c).allocated = cli.allocated ∧ (cli.execute c).events = cli.events ∧
      (cli.execute c).fault = cli.fault ∧ (cli.execute c).pc.adding = none ∧
      (cli.execute c).pc.attaching = none := by
  unfold Client.execute
  repeat' split
  all_goals exact ⟨rfl, rfl, rfl, rfl, rfl, rfl, rfl⟩

theorem get_fields (cli : Client) (host port : List Char) (c : Command) :
    (cli.get host port c).keys = cli.keys ∧ (cli.get host port c).epoll = cli.epoll ∧
      (cli.get host port c).allocated = cli.allocated ∧
      (cli.get host port c).events = cli.events ∧ (cli.get host port c).fault = cli.fault ∧
      (cli.get host port c).pc.adding = none ∧ (cli.get host port c).pc.attaching = none := by
  unfold Client.get
  split <;> exact ⟨rfl, rfl, rfl, rfl, rfl, rfl, rfl⟩

theorem accounted_commandStep (h : Accounted maxEvents cli) (hfault : cli.fault = none)
    (hs : CommandStep cli es cli') : Accounted maxEvents cli' := by
  have hok : cli.fault ≠ some .freed := by simp [hfault]
  have hadding : ∀ {pc : ClientPc}, cli.pc = pc → cli.pc.adding = pc.adding := fun hpc => by
    rw [hpc]
  cases hs with
  | tested hpc =>
    refine h.goto rfl rfl rfl rfl ((hadding hpc).trans ?_).symm ?_ hok
    · show none = (if cli.exitFlag then ClientPc.join else .read).adding
      split <;> rfl
    · show ∀ fd, (if cli.exitFlag then ClientPc.join else .read).attaching = some fd → _
      split <;> nofun
  | asked c hpc =>
    obtain ⟨hkeys, hepoll, hallocated, hevents, hsame, hnone, hno⟩ := execute_fields cli c
    exact h.goto hkeys hepoll hallocated hevents (hnone.trans (hadding hpc).symm)
      (by rw [hno]; nofun) (hsame ▸ hok)
  | @looked host port c hpc =>
    obtain ⟨hkeys, hepoll, hallocated, hevents, hsame, hnone, hno⟩ := get_fields cli host port c
    exact h.goto hkeys hepoll hallocated hevents (hnone.trans (hadding hpc).symm)
      (by rw [hno]; nofun) (hsame ▸ hok)
  | @connects host port waiting fd hpc hfd =>
    refine h.goto rfl rfl rfl rfl (hadding hpc).symm ?_ hok
    rintro fd' ⟨rfl⟩ hmem
    rw [Client.openKeys, List.map_map] at hmem
    exact hfd hmem
  | @links a hpc =>
    refine h.goto rfl rfl rfl rfl (hadding hpc).symm ?_ hok
    rintro fd' ⟨rfl⟩
    exact h.attaching a.fd (by rw [hpc]; rfl)
  | linked hpc => exact h.link hpc
  | @named a ptr hpc =>
    have hkeys := updateAt_key ptr (Peer.setNames a.host a.port) (fun _ => rfl) cli.connectionList
    exact h.goto hkeys rfl rfl rfl (hadding hpc).symm nofun hok
  | registered hpc => exact h.register hpc
  | @noMemory host port waiting hpc =>
    refine h.goto rfl rfl rfl rfl (hadding hpc).symm nofun ?_
    simp only [Client.added]
    split <;> decide
  | @fault f hf => exact h.goto rfl rfl rfl rfl rfl h.attaching fun heq => hf (Option.some.inj heq)
  | walks hpc | refused hpc | loaded hpc | stored hpc | found hpc | wrote hpc | unwritten hpc
  | joined hpc => exact h.goto rfl rfl rfl rfl (hadding hpc).symm nofun hok

theorem accounted_eventStep (h : Accounted maxEvents cli)
    (hs : EventStep maxEvents cli es cli') : Accounted maxEvents cli' := by
  cases hs with
  | tested hevents =>
    refine h.keep rfl rfl rfl rfl h.attaching ?_ ?_ ?_ ?_ h.notFreed
    · rw [hevents]
      show (if cli.exitFlag then EventPc.returned else .waiting).unlinked = []
      split <;> rfl
    · show (if cli.exitFlag then EventPc.returned else .waiting).freeing.Sublist _
      split <;> exact List.nil_sublist _
    · show ∀ p, (if cli.exitFlag then EventPc.returned else .waiting).removing = some p → _
      split <;> nofun
    · show (if cli.exitFlag then EventPc.returned else .waiting).batch.Sublist _
      split <;> exact List.nil_sublist _
  | left hevents hnext =>
    rcases hnext with rfl | rfl <;>
      exact h.keep rfl rfl rfl rfl h.attaching (by rw [hevents]; rfl) (List.nil_sublist _) nofun
        (List.nil_sublist _) h.notFreed
  | reported hevents honce hfew hready => exact h.report hevents honce hfew hready
  | handled hevents =>
    exact h.keep rfl rfl rfl rfl h.attaching (by rw [hevents]; rfl) (List.nil_sublist _) nofun
      (List.nil_sublist _) h.notFreed
  | @broken p rest hevents hp =>
    refine h.keep rfl rfl rfl rfl h.attaching (by rw [hevents]; rfl) (List.nil_sublist _)
      ?_ ?_ h.notFreed
    · rintro q ⟨rfl⟩
      exact List.mem_map_of_mem hp
    · rw [hevents]
      exact List.Sublist.refl _
  | @handed p rest conn reply hevents hp =>
    have hkeys := updateAt_key p.ptr (fun q => { q with conn := conn }) (fun _ => rfl)
      cli.connectionList
    refine h.keep hkeys rfl rfl rfl h.attaching (by rw [hevents]; rfl) (List.nil_sublist _)
      nofun ?_ h.notFreed
    rw [hevents]
    exact List.sublist_cons_self ..
  | removes hevents =>
    refine h.keep rfl rfl rfl rfl h.attaching (by rw [hevents]; rfl) (List.nil_sublist _)
      ?_ ?_ h.notFreed
    · rintro q ⟨rfl⟩
      exact h.removing _ (by rw [hevents]; rfl)
    · rw [hevents]
      exact List.Sublist.refl _
  | removed hevents => exact h.remove hevents
  | loaded hevents | stored hevents | freed hevents =>
    refine h.keep rfl rfl rfl rfl h.attaching (by rw [hevents]; rfl) (List.nil_sublist _) nofun
      ?_ h.notFreed
    rw [hevents]
    exact List.Sublist.refl _
  | closed hevents => exact h.close hevents
  | @fault f hfreed =>
    refine h.keep rfl rfl rfl rfl h.attaching rfl (List.Sublist.refl _) h.removing
      (List.Sublist.refl _) ?_
    rintro ⟨rfl⟩
    obtain ⟨ptr, rest, hevents, hnone⟩ := hfreed rfl
    obtain ⟨fd, hkey, -⟩ := h.live ptr (by rw [hevents]; exact List.mem_cons_self ..)
    obtain ⟨p, hp, hsame⟩ := List.mem_map.mp hkey
    exact hnone p hp (congrArg Prod.snd hsame)

theorem accounted_create : Accounted maxEvents clientCreate := by
  constructor
  case few => exact Nat.zero_le _
  case ptrs | fds | once => exact List.nodup_nil
  case notFreed => decide
  all_goals nofun

end Connections

end DclProcessor.Messenger
