import DclProcessor.Library.Stretch
import DclProcessor.Camera.Ops

/-!
A session with a camera: `gige_camera_init`, and then operations of its table. The camera
keeps `last_gvcp_packet_id`, which goes up by one for each function that is called, however
many requests the function sends.
-/

namespace DclProcessor.Camera

open Bytes Stretch

/-- `DEFAULT_PACKET_SIZE` -/
def defaultPacketSize : Nat := 8000

/-- What a session has of `struct gige_camera`, how many requests it has made, and those that
were written; `ended` when there is no camera, or the process has crashed. -/
structure Session where
  lastGvcpPacketId : Nat
  requests : Nat
  written : List (List UInt8)
  ended : Bool

/-- `next_packet_id(cam->last_gvcp_packet_id)` -/
def Session.next (s : Session) : Session :=
  { s with lastGvcpPacketId := (s.lastGvcpPacketId + 1) % 2 ^ 32 }

@[simp] theorem Session.next_last (s : Session) :
    s.next.lastGvcpPacketId = (s.lastGvcpPacketId + 1) % 2 ^ 32 := rfl

section Run

variable (outcomes : Outcomes)

/-- A call of an operation; `value` is -1 at its beginning. -/
def Session.call (s : Session) (cs : List Command) : Session :=
  if s.ended then s
  else
    let s := s.next
    let e := Exec.lines outcomes
      ⟨wireId s.lastGvcpPacketId, 0xffffffff, s.requests, s.written, false⟩ cs
    { s with requests := e.requests, written := e.written, ended := e.crashed }

/-- `gvcp_init`; its first request has the packet id as it is passed. -/
def gvcpInit (packetId ip port requests : Nat) (written : List (List UInt8)) : Exec :=
  let outcome := outcomes requests
  let written :=
    if outcome.written then written ++ [gvcpReadRegisterPacket 0x904 packetId] else written
  let e := Exec.lines outcomes
    ⟨packetId, gvcpRegisterAck 0xffffffff outcome.answer, requests + 1, written, false⟩
    [.read 0x934, .write privilege 0x02, .write 0xd18 ip, .write channelPort port]
  -- packet_size is 0 at first
  Exec.lines outcomes { e with value := 0 }
    [.read channelPacketSize, .limitTo channelPacketSize defaultPacketSize]

/-- The two reads of `gvcp_get_timestamp_tick_frequency`. -/
def tickFrequencyLines : List Command := [.read 0x93c, .read 0x940]

/-- `gige_camera_init`; without a packet size there is no camera. -/
def gigeCameraInit (ip port : Nat) : Session :=
  let s := Session.next ⟨0xf000, 0, [], false⟩
  let e := gvcpInit outcomes (wireId s.lastGvcpPacketId) ip port s.requests s.written
  let s := { s with requests := e.requests, written := e.written }
  if 0 < e.value then Session.call outcomes s tickFrequencyLines else { s with ended := true }

/-- The lines of the operations that are called. -/
def operationLines (ops : List (Table × Operation)) : List (List Command) :=
  ops.map fun op => op.1.ops.lines op.2

def session (ip port : Nat) (ops : List (Table × Operation)) : Session :=
  (operationLines ops).foldl (Session.call outcomes) (gigeCameraInit outcomes ip port)

/-- Of `k` requests, the first of which is request `n` of the session and has place `first`,
the places of those that are written. -/
def places : Nat → Nat → Nat → List Nat
  | _, _, 0 => []
  | n, first, k + 1 =>
    if (outcomes n).written then first :: places (n + 1) (first + 1) k
    else places (n + 1) (first + 1) k

/-- The places of the requests that each call writes, from request `n` of the session on; the
first request of a call has place 1. -/
def callPlaces : Nat → List (List Command) → List (List Nat)
  | _, [] => []
  | n, cs :: calls =>
    let sent := sentBy outcomes n 0xffffffff cs
    places outcomes n 1 sent.1 :: if sent.2 then [] else callPlaces (n + sent.1) calls

/-- Those of `gvcp_init`, whose first request has place 0, of the tick frequency and of the
operations. -/
def sessionPlaces (ip port : Nat) (ops : List (Table × Operation)) : List (List Nat) :=
  let e := gvcpInit outcomes (wireId 0xf001) ip port 0 []
  places outcomes 0 0 e.requests ::
    if 0 < e.value then callPlaces outcomes e.requests (tickFrequencyLines :: operationLines ops)
    else []

end Run

/-- Consecutive requests have different ids, all of them from `0xf000` on. -/
structure DistinctIds (s : Session) : Prop where
  differ : (s.written.map requestId).IsChain (· ≠ ·)
  range : ∀ id ∈ s.written.map requestId, 0xf000 ≤ id ∧ id ≤ 0xffff

/-! ## Ids as stretches of numbers -/

variable {outcomes : Outcomes}

/-- The written requests have the ids that belong to some numbers. -/
def Numbered (written : List (List UInt8)) (ns : List Nat) : Prop :=
  written.map requestId = ns.map wireId

theorem Numbered.append {written more : List (List UInt8)} {ns ms : List Nat}
    (h : Numbered written ns) (h' : Numbered more ms) : Numbered (written ++ more) (ns ++ ms) := by
  rw [Numbered, List.map_append, List.map_append, h, h']

section Places

theorem places_succ (outcomes : Outcomes) (n first k : Nat) : places outcomes n first (k + 1) =
    (if (outcomes n).written then [first] else []) ++ places outcomes (n + 1) (first + 1) k := by
  rw [places]
  split <;> rfl

theorem places_append (outcomes : Outcomes) (n first j k : Nat) :
    places outcomes n first (j + k) =
      places outcomes n first j ++ places outcomes (n + j) (first + j) k := by
  induction j generalizing n first with
  | zero => rw [Nat.zero_add, places, List.nil_append, Nat.add_zero, Nat.add_zero]
  | succ j ih =>
    rw [Nat.succ_add, places_succ, places_succ, ih, List.append_assoc, Nat.add_right_comm n,
      Nat.add_right_comm first, Nat.add_assoc, Nat.add_assoc]

/-- Places count from a base. -/
theorem places_base (outcomes : Outcomes) (c n first k : Nat) :
    (places outcomes n first k).map (c + ·) = places outcomes n (c + first) k := by
  induction k generalizing n first with
  | zero => rfl
  | succ k ih =>
    rw [places_succ, places_succ, List.map_append, ih, ← Nat.add_assoc]
    split <;> rfl

/-- The ids count modulo 4096 only. -/
theorem places_wireId (outcomes : Outcomes) (n : Nat) {b c : Nat} (h : b % 4096 = c % 4096)
    (k : Nat) : (places outcomes n b k).map wireId = (places outcomes n c k).map wireId := by
  induction k generalizing n b c with
  | zero => rfl
  | succ k ih =>
    have hfirst : wireId b = wireId c := by rw [wireId_eq, wireId_eq, h]
    rw [places_succ, places_succ, List.map_append, List.map_append,
      ih (n + 1) (show (b + 1) % 4096 = (c + 1) % 4096 by omega)]
    split
    · rw [List.map_singleton, List.map_singleton, hfirst]
    · rfl

theorem places_bounds {n first k p : Nat} (hp : p ∈ places outcomes n first k) :
    first ≤ p ∧ p < first + k := by
  induction k generalizing n first with
  | zero => cases hp
  | succ k ih =>
    rw [places_succ] at hp
    rcases List.mem_append.mp hp with hp | hp
    · split at hp
      · rw [List.mem_singleton.mp hp]
        omega
      · cases hp
    · have hbounds := ih hp
      omega

/-- Within a call no id comes twice. -/
theorem places_distinct (outcomes : Outcomes) (n first : Nat) {k : Nat} (hk : k ≤ 4096) :
    Distinct 4096 (places outcomes n first k) := by
  induction k generalizing n first with
  | zero => exact List.isChain_nil
  | succ k ih =>
    have hrest := ih (n + 1) (first + 1) (by omega)
    rw [places]
    split
    · refine List.isChain_cons.mpr ⟨fun y hy => ?_, hrest⟩
      have hbounds := places_bounds (List.mem_of_mem_head? hy)
      exact mod_ne_of_lt (by omega) (by omega)
    · exact hrest

end Places

section Lines

theorem lines_of_crashed {e : Exec} (h : e.crashed = true) (cs : List Command) :
    e.lines outcomes cs = e := by
  induction cs with
  | nil => rfl
  | cons c cs ih =>
    rw [Exec.lines, List.foldl_cons, h, if_pos rfl]
    exact ih

theorem lines_cons {e : Exec} (h : e.crashed = false) (c : Command) (cs : List Command) :
    e.lines outcomes (c :: cs) = (e.command outcomes c).lines outcomes cs := by
  rw [Exec.lines, List.foldl_cons, h]
  rfl

/-- A request has the next number. -/
theorem numbered_request (c : Command) (value packetId : Nat) :
    Numbered [c.packet value (wireId ((packetId + 1) % 2 ^ 32))] [packetId + 1] := by
  rw [Numbered, List.map_singleton, List.map_singleton, requestId_packet, wireId_mod]

/-- What a run of requests has done, from a state with these requests on: `k` of them, of
which those that were written have the places from `first` on. -/
structure Requested (outcomes : Outcomes) (n : Nat) (written : List (List UInt8)) (first k : Nat)
    (n' : Nat) (written' : List (List UInt8)) : Prop where
  count : n' = n + k
  more : ∃ more, written' = written ++ more ∧ Numbered more (places outcomes n first k)

theorem Requested.one (outcomes : Outcomes) (n : Nat) (written : List (List UInt8))
    {packet : List UInt8} {first : Nat} (h : Numbered [packet] [first]) :
    Requested outcomes n written first 1 (n + 1)
      (if (outcomes n).written then written ++ [packet] else written) where
  count := rfl
  more := by
    rw [places]
    split
    · exact ⟨_, rfl, h⟩
    · exact ⟨[], (List.append_nil _).symm, rfl⟩

theorem Requested.none (n : Nat) (written : List (List UInt8)) (first : Nat) :
    Requested outcomes n written first 0 n written where
  count := rfl
  more := ⟨[], (List.append_nil _).symm, rfl⟩

theorem Requested.shift {n n' first first' k : Nat} {written written' : List (List UInt8)}
    (h : Requested outcomes n written first k n' written') (hbase : first % 4096 = first' % 4096) :
    Requested outcomes n written first' k n' written' where
  count := h.count
  more := by
    obtain ⟨more, hwritten, hnumbered⟩ := h.more
    exact ⟨more, hwritten, hnumbered.trans (places_wireId outcomes n hbase k)⟩

theorem Requested.append {n n' n'' first first' j k : Nat}
    {written written' written'' : List (List UInt8)}
    (h : Requested outcomes n written first j n' written')
    (h' : Requested outcomes n' written' first' k n'' written'')
    (hbase : first' % 4096 = (first + j) % 4096) :
    Requested outcomes n written first (j + k) n'' written'' where
  count := by rw [h'.count, h.count, Nat.add_assoc]
  more := by
    obtain ⟨more, hwritten, hnumbered⟩ := h.more
    obtain ⟨more', hwritten', hnumbered'⟩ := (h'.shift hbase).more
    refine ⟨more ++ more', by rw [hwritten', hwritten, List.append_assoc], ?_⟩
    rw [places_append]
    rw [h.count] at hnumbered'
    exact hnumbered.append hnumbered'

/-- Lines make requests with the numbers that go on from the packet id. -/
theorem lines_requested (outcomes : Outcomes) (e : Exec) (cs : List Command)
    (hcrashed : e.crashed = false) :
    Requested outcomes e.requests e.written (e.packetId + 1)
        (sentBy outcomes e.requests e.value cs).1 (e.lines outcomes cs).requests
        (e.lines outcomes cs).written ∧
      (e.lines outcomes cs).packetId % 4096 =
        (e.packetId + (sentBy outcomes e.requests e.value cs).1) % 4096 ∧
      (e.lines outcomes cs).crashed = (sentBy outcomes e.requests e.value cs).2 := by
  induction cs generalizing e with
  | nil => exact ⟨.none .., rfl, hcrashed⟩
  | cons c cs ih =>
    rw [lines_cons hcrashed, sentBy, Exec.command]
    cases hsends : c.sends e.value with
    | false => exact ih e hcrashed
    | true =>
      have hone := Requested.one outcomes e.requests e.written
        (numbered_request c e.value e.packetId)
      cases hcrash : c.crashes (outcomes e.requests).answer with
      | true =>
        rw [if_pos rfl, if_pos rfl, if_pos rfl, lines_of_crashed rfl]
        exact ⟨hone, by simp only; omega, rfl⟩
      | false =>
        simp only [if_true, Bool.false_eq_true, if_false]
        obtain ⟨hmore, hpacket, hcr⟩ := ih
          ⟨(e.packetId + 1) % 2 ^ 32, c.valueAfter e.value (outcomes e.requests).answer,
            e.requests + 1, if (outcomes e.requests).written then e.written ++
              [c.packet e.value (wireId ((e.packetId + 1) % 2 ^ 32))] else e.written, false⟩ rfl
        refine ⟨?_, ?_, hcr⟩
        · rw [Nat.add_comm (sentBy _ _ _ _).1 1]
          exact hone.append hmore (by simp only; omega)
        · rw [hpacket]
          simp only
          omega

theorem sentBy_le (outcomes : Outcomes) (n value : Nat) (cs : List Command) :
    (sentBy outcomes n value cs).1 ≤ cs.length := by
  induction cs generalizing n value with
  | nil => exact Nat.le_refl _
  | cons c cs ih =>
    rw [sentBy, List.length_cons]
    split
    · split
      · omega
      · exact Nat.succ_le_succ (ih ..)
    · exact (ih ..).trans (Nat.le_succ _)

end Lines

section Calls

/-- The requests of a call begin after the number of its session. -/
theorem call_requested (outcomes : Outcomes) {s : Session} (hs : s.ended = false)
    (cs : List Command) :
    Requested outcomes s.requests s.written (s.lastGvcpPacketId + 2)
        (sentBy outcomes s.requests 0xffffffff cs).1 (s.call outcomes cs).requests
        (s.call outcomes cs).written ∧
      (s.call outcomes cs).lastGvcpPacketId % 4096 = (s.lastGvcpPacketId + 1) % 4096 ∧
      (s.call outcomes cs).ended = (sentBy outcomes s.requests 0xffffffff cs).2 := by
  have hgoes : ¬ s.ended = true := by rw [hs]; exact Bool.false_ne_true
  obtain ⟨hmore, -, hcr⟩ := lines_requested outcomes
    ⟨wireId s.next.lastGvcpPacketId, 0xffffffff, s.requests, s.written, false⟩ cs rfl
  have hid : (wireId s.next.lastGvcpPacketId + 1) % 4096 = (s.lastGvcpPacketId + 2) % 4096 := by
    rw [wireId_eq, Session.next_last]
    omega
  have hlast : s.next.lastGvcpPacketId % 4096 = (s.lastGvcpPacketId + 1) % 4096 := by
    rw [Session.next_last]
    omega
  rw [Session.call, if_neg hgoes]
  exact ⟨hmore.shift hid, hlast, hcr⟩

theorem calls_of_ended {s : Session} (hs : s.ended = true) (calls : List (List Command)) :
    calls.foldl (Session.call outcomes) s = s := by
  induction calls with
  | nil => rfl
  | cons cs calls ih =>
    have hstays : s.call outcomes cs = s := if_pos hs
    rw [List.foldl_cons, hstays, ih]

/-- The calls of a session have a base each. -/
theorem calls_written (outcomes : Outcomes) {s : Session} (hs : s.ended = false)
    (calls : List (List Command)) {c : Nat} (hc : s.lastGvcpPacketId % 4096 = c % 4096) :
    ∃ more, (calls.foldl (Session.call outcomes) s).written = s.written ++ more ∧
      Numbered more (numbers (c + 1) (callPlaces outcomes s.requests calls)) := by
  induction calls generalizing s c with
  | nil => exact ⟨[], (List.append_nil _).symm, rfl⟩
  | cons cs calls ih =>
    obtain ⟨hcall, hlast, hended⟩ := call_requested outcomes hs cs
    obtain ⟨more, hwritten, hnumbered⟩ :=
      (hcall.shift (show (s.lastGvcpPacketId + 2) % 4096 = (c + 1 + 1) % 4096 by omega)).more
    rw [← places_base] at hnumbered
    rw [List.foldl_cons, callPlaces, numbers]
    cases hcrash : (sentBy outcomes s.requests 0xffffffff cs).2 with
    | true =>
      rw [hcrash] at hended
      rw [calls_of_ended hended, if_pos rfl, numbers, List.append_nil]
      exact ⟨more, hwritten, hnumbered⟩
    | false =>
      rw [hcrash] at hended
      obtain ⟨rest, hrest, hnumbered'⟩ := ih hended (c := c + 1) (by omega)
      rw [hcall.count] at hnumbered'
      refine ⟨more ++ rest, by rw [hrest, hwritten, List.append_assoc], ?_⟩
      simp only [Bool.false_eq_true, if_false]
      exact hnumbered.append hnumbered'

end Calls

section Init

variable (outcomes) (ip port : Nat)

/-- `gvcp_init` makes six or seven requests, numbered from 1 on. -/
theorem gvcpInit_requested : ∃ k ≤ 2, Requested outcomes 0 [] 1 (5 + k)
    (gvcpInit outcomes (wireId 0xf001) ip port 0 []).requests
    (gvcpInit outcomes (wireId 0xf001) ip port 0 []).written := by
  have hfirst : Numbered [gvcpReadRegisterPacket 0x904 (wireId 0xf001)] [1] := by
    have hid := requestId_packet (.read 0x904) 0 0xf001
    rw [Numbered, List.map_singleton]
    exact congrArg (· :: []) hid
  have hone := Requested.one outcomes 0 [] hfirst
  obtain ⟨hfour, hpacket, hcr⟩ := lines_requested outcomes
    ⟨wireId 0xf001, gvcpRegisterAck 0xffffffff (outcomes 0).answer, 0 + 1,
      if (outcomes 0).written then [] ++ [gvcpReadRegisterPacket 0x904 (wireId 0xf001)] else [],
      false⟩
    [.read 0x934, .write privilege 0x02, .write 0xd18 ip, .write channelPort port] rfl
  unfold gvcpInit
  simp only
  generalize Exec.lines outcomes ⟨wireId 0xf001, gvcpRegisterAck 0xffffffff (outcomes 0).answer,
    0 + 1, if (outcomes 0).written then [] ++ [gvcpReadRegisterPacket 0x904 (wireId 0xf001)]
      else [], false⟩
    [.read 0x934, .write privilege 0x02, .write 0xd18 ip, .write channelPort port] = e
    at hfour hpacket hcr ⊢
  obtain ⟨htwo, -, -⟩ := lines_requested outcomes { e with value := 0 }
    [.read channelPacketSize, .limitTo channelPacketSize defaultPacketSize] hcr
  have hsecond : (wireId 0xf001 + 1) % 4096 = (1 + 1) % 4096 := by decide
  have hnext : (e.packetId + 1) % 4096 = (1 + (1 + 4)) % 4096 := by
    have hlast : e.packetId % 4096 = (0 + 5) % 4096 := by
      rw [hpacket]
      exact (by decide : (wireId 0xf001 + 4) % 4096 = (0 + 5) % 4096)
    omega
  have hall := (hone.append hfour hsecond).append htwo hnext
  exact ⟨_, sentBy_le outcomes e.requests 0
    [.read channelPacketSize, .limitTo channelPacketSize defaultPacketSize], hall⟩

end Init

section Main

theorem distinctIds_iff_of_numbered {s : Session} {ns : List Nat} (h : Numbered s.written ns) :
    DistinctIds s ↔ Distinct 4096 ns := by
  have hiff : (s.written.map requestId).IsChain (· ≠ ·) ↔ Distinct 4096 ns := by
    rw [h, List.isChain_map, Distinct]
    simp only [wireId_eq, ne_eq, Nat.add_left_cancel_iff]
  constructor
  · exact fun hdistinct => hiff.mp hdistinct.differ
  · intro hdistinct
    refine ⟨hiff.mpr hdistinct, fun id hid => ?_⟩
    rw [h] at hid
    obtain ⟨n, -, rfl⟩ := List.mem_map.mp hid
    exact wireId_bounds n

theorem gigeCameraInit_eq (outcomes : Outcomes) (ip port : Nat) :
    gigeCameraInit outcomes ip port =
      if 0 < (gvcpInit outcomes (wireId 0xf001) ip port 0 []).value then
        Session.call outcomes
          ⟨0xf001, (gvcpInit outcomes (wireId 0xf001) ip port 0 []).requests,
            (gvcpInit outcomes (wireId 0xf001) ip port 0 []).written, false⟩ tickFrequencyLines
      else ⟨0xf001, (gvcpInit outcomes (wireId 0xf001) ip port 0 []).requests,
        (gvcpInit outcomes (wireId 0xf001) ip port 0 []).written, true⟩ := rfl

/-- The requests of a session that were written. -/
theorem session_written (outcomes : Outcomes) (ip port : Nat) (ops : List (Table × Operation)) :
    Numbered (session outcomes ip port ops).written
      (numbers 1 (sessionPlaces outcomes ip port ops)) := by
  obtain ⟨k, -, hinit⟩ := gvcpInit_requested outcomes ip port
  obtain ⟨more, hwritten, hnumbered⟩ := hinit.more
  have hcount := hinit.count
  rw [Nat.zero_add] at hcount
  rw [← hcount, ← Nat.add_zero 1, ← places_base] at hnumbered
  rw [session, gigeCameraInit_eq, sessionPlaces, numbers]
  by_cases hvalue : 0 < (gvcpInit outcomes (wireId 0xf001) ip port 0 []).value
  · rw [if_pos hvalue, if_pos hvalue]
    obtain ⟨rest, hrest, hnumbered'⟩ := calls_written outcomes
      (s := ⟨0xf001, (gvcpInit outcomes (wireId 0xf001) ip port 0 []).requests,
        (gvcpInit outcomes (wireId 0xf001) ip port 0 []).written, false⟩) rfl
      (tickFrequencyLines :: operationLines ops) (show 0xf001 % 4096 = 1 % 4096 by decide)
    have hall := hnumbered.append hnumbered'
    rw [← List.nil_append more, ← hwritten, ← hrest] at hall
    exact hall
  · have hnone : Numbered [] (numbers (1 + 1) []) := rfl
    have hall := hnumbered.append hnone
    rw [if_neg hvalue, if_neg hvalue, calls_of_ended rfl]
    rw [List.append_nil, ← List.nil_append more, ← hwritten] at hall
    exact hall

theorem lines_length (t : Table) (op : Operation) : (t.ops.lines op).length ≤ 22 := by
  cases t <;> cases op <;> decide

theorem callPlaces_distinct (outcomes : Outcomes) (n : Nat) {calls : List (List Command)}
    (hcalls : ∀ cs ∈ calls, cs.length ≤ 22) :
    ∀ ps ∈ callPlaces outcomes n calls, Distinct 4096 ps := by
  induction calls generalizing n with
  | nil => exact fun _ hps => nomatch hps
  | cons cs calls ih =>
    intro ps hps
    rw [callPlaces] at hps
    have hle := sentBy_le outcomes n 0xffffffff cs
    have hlen := hcalls cs (List.mem_cons_self ..)
    rcases List.mem_cons.mp hps with rfl | hps
    · exact places_distinct outcomes n 1 (by omega)
    · split at hps
      · cases hps
      · exact ih _ (fun cs hcs => hcalls cs (List.mem_cons_of_mem _ hcs)) ps hps

theorem sessionPlaces_distinct (outcomes : Outcomes) (ip port : Nat)
    (ops : List (Table × Operation)) :
    ∀ ps ∈ sessionPlaces outcomes ip port ops, Distinct 4096 ps := by
  obtain ⟨k, hk, hinit⟩ := gvcpInit_requested outcomes ip port
  have hcount := hinit.count
  intro ps hps
  rw [sessionPlaces] at hps
  rcases List.mem_cons.mp hps with rfl | hps
  · exact places_distinct outcomes 0 0 (by omega)
  · split at hps
    · refine callPlaces_distinct outcomes _ (fun cs hcs => ?_) ps hps
      rcases List.mem_cons.mp hcs with rfl | hcs
      · decide
      · obtain ⟨op, -, rfl⟩ := List.mem_map.mp hcs
        exact lines_length op.1 op.2
    · cases hps

/-- **Consecutive requests have different ids** if and only if no function whose last written
request is its `p`-th, with `d` functions that write none between it and the next one that
does, whose first written request is its `q`-th, has `p = q + d + 1` modulo 4096. -/
theorem distinctIds_iff (outcomes : Outcomes) (ip port : Nat) (ops : List (Table × Operation)) :
    DistinctIds (session outcomes ip port ops) ↔
      Spaced 4096 (sessionPlaces outcomes ip port ops) := by
  rw [distinctIds_iff_of_numbered (session_written outcomes ip port ops)]
  exact distinct_numbers_iff (sessionPlaces_distinct outcomes ip port ops) 1

/-- The acknowledgement of the packet size, and none else. -/
def packetSizeAnswered : Outcomes := fun n =>
  ⟨true, if n = 5 then some (ackBytes (gvcpReadRegisterPacket channelPacketSize 0xf006) 1500)
    else none⟩

/-- The first request of the first operation has the id of the one before it. -/
theorem start_repeats_id :
    ((session packetSizeAnswered 0 0 [(.arvfake, .start)]).written.map requestId).drop 7 =
      [0xf004, 0xf004, 0xf005] ∧
    ¬ DistinctIds (session packetSizeAnswered 0 0 [(.arvfake, .start)]) := by
  refine ⟨by decide, fun h => ?_⟩
  have hdiffer := h.differ
  revert hdiffer
  decide

end Main

/-! ## One table -/

section OneTable

variable {outcomes : Outcomes} {ip port : Nat}

/-- Every operation of a table that sends anything begins with a request. -/
theorem lines_begin {t : Table} (ht : t ≠ .no) (op : Operation) :
    ∃ c cs, t.ops.lines op = c :: cs ∧ ∀ value, c.sends value = true := by
  cases t with
  | no => exact absurd rfl ht
  | arvfake | flirColor | flirColor2 | flirPolar | lucidPolar | baumer =>
    cases op <;> exact ⟨_, _, rfl, fun _ => rfl⟩

theorem sentBy_pos (outcomes : Outcomes) {c : Command} (h : ∀ value, c.sends value = true)
    (n value : Nat) (cs : List Command) : ∃ k, (sentBy outcomes n value (c :: cs)).1 = k + 1 := by
  rw [sentBy, if_pos (h value)]
  split
  · exact ⟨0, rfl⟩
  · exact ⟨_, rfl⟩

/-- Operations without requests. -/
theorem callPlaces_no (outcomes : Outcomes) (n : Nat) (ops : List Operation) :
    callPlaces outcomes n (operationLines (ops.map fun op => (.no, op))) =
      List.replicate ops.length [] := by
  induction ops generalizing n with
  | nil => rfl
  | cons op ops ih =>
    have hnone : Table.no.ops.lines op = [] := by cases op <;> rfl
    have hlines : operationLines ((op :: ops).map fun op => (Table.no, op)) =
        [] :: operationLines (ops.map fun op => (.no, op)) := by
      rw [List.map_cons, operationLines, List.map_cons, hnone]
      rfl
    rw [hlines, callPlaces, List.length_cons, List.replicate_succ]
    exact congrArg ([] :: ·) (ih n)

theorem next_replicate (d : Nat) : next (List.replicate d []) = none := by
  induction d with
  | zero => rfl
  | succ d ih => rw [List.replicate_succ, next, ih, Option.map_none]

theorem spaced_replicate (m d : Nat) : Spaced m (List.replicate d []) := by
  induction d with
  | zero => trivial
  | succ d ih =>
    rw [List.replicate_succ]
    exact ⟨fun _ hp => (nomatch hp), ih⟩

/-- A camera keeps its table: where all requests are written, the ids of its session differ only
if no operation is called, or none of them sends anything. -/
theorem distinctIds_table_iff (hwritten : ∀ n, (outcomes n).written = true)
    (hcamera : 0 < (gvcpInit outcomes (wireId 0xf001) ip port 0 []).value) (t : Table)
    (ops : List Operation) :
    DistinctIds (session outcomes ip port (ops.map fun op => (t, op))) ↔ t = .no ∨ ops = [] := by
  have hall : ∀ n first k, places outcomes n first k = List.range' first k := by
    intro n first k
    induction k generalizing n first with
    | zero => rfl
    | succ k ih => rw [places, if_pos (hwritten n), ih, List.range'_succ]
  obtain ⟨k, hk, hinit⟩ := gvcpInit_requested outcomes ip port
  have hcount := hinit.count
  have htick : (sentBy outcomes (0 + (5 + k)) 0xffffffff tickFrequencyLines) = (2, false) := rfl
  have hlast : (List.range' 0 (0 + (5 + k))).getLast? = some (4 + k) := by
    rw [List.getLast?_range', if_neg (by omega)]
    congr 1
    omega
  rw [distinctIds_iff, sessionPlaces]
  simp only [if_pos hcamera, hcount, callPlaces, htick, hall, Bool.false_eq_true, if_false]
  rw [Spaced, hlast]
  constructor
  · intro hspaced
    by_contra hnot
    obtain ⟨hno, hops⟩ := not_or.mp hnot
    obtain ⟨op, ops, rfl⟩ := List.exists_cons_of_ne_nil hops
    obtain ⟨c, cs, hlines, hsends⟩ := lines_begin hno op
    obtain ⟨j, hj⟩ := sentBy_pos outcomes hsends (0 + (5 + k) + 2) 0xffffffff cs
    rw [List.map_cons, operationLines, List.map_cons, hlines, callPlaces, hall] at hspaced
    simp only [hj] at hspaced
    exact hspaced.2.1 2 rfl 2 rfl rfl
  · intro hsilent
    have hrest : callPlaces outcomes (0 + (5 + k) + 2)
        (operationLines (ops.map fun op => (t, op))) = List.replicate ops.length [] := by
      rcases hsilent with rfl | rfl
      · exact callPlaces_no outcomes _ ops
      · rfl
    rw [hrest]
    refine ⟨?_, ?_, spaced_replicate ..⟩
    · rintro p ⟨rfl⟩ q ⟨rfl⟩
      exact (mod_ne_of_lt (by omega) (by omega)).symm
    · rintro p - q hq
      rw [next_replicate] at hq
      cases hq

end OneTable

end DclProcessor.Camera
