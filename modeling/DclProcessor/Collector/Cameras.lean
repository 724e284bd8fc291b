import DclProcessor.Camera.Arrivals
import DclProcessor.Camera.Reassembly
import DclProcessor.Collector.Gige
import DclProcessor.Collector.Holding

/-!
From the packets of the cameras to the objects: `camera_gvsp_thread` puts frames together and
calls `new_frame_action`, which waits for the collector at an object boundary. The stream of
packets and the threads of the collector are one system here.
-/

namespace DclProcessor.Collector

open Transition Camera

/-- What the cameras have before their threads run. -/
structure Cameras where
  packetSize : Nat → Nat
  packet : Nat → List UInt8
  iframe : Nat → Iframe
  nPackets : Nat → Nat
  packet_length : ∀ i, (packet i).length = packetSize i
  fits : ∀ i, packetSize i < 2 ^ 32

/-- The threads of the collector and of its sources, and what those of the cameras have. -/
structure Filmed where
  mixed : Mixed
  threads : Nat → Camera.Thread

/-- What `epoll_wait` and `recvfrom` come to. -/
inductive PacketResult
  | error
  | none
  | datagram (bytes : List UInt8)

/-- `camera i res detected`: the camera of source `i` makes a step; when it reads it gets `res`,
and the detection says `detected` of the frame if there is one. A source without a camera may
add any frame. -/
inductive FilmedAction
  | camera (i : Nat) (res : PacketResult) (detected : Bool)
  | tcp (i : Nat) (read : Read) (frame : FrameData)
  | udp (i : Nat)
  | collector
  | firstAction
  | raiseSource (i : Nat)
  | raiseCollector

/-- `add_frame_callback` gets the id as an `int`. -/
def frameData (f : Iframe) : FrameData := (BitVec.ofNat 32 f.frameId, f.buffer)

/-- One turn of the loop; after a block has gone over the end of the buffer the behaviour is
undefined, and no step follows. -/
def takePacket (packetSize : Nat) (t : Camera.Thread) : PacketResult → Option Camera.Thread
  | .datagram bytes => if t.overrun then none else some (t.receive packetSize bytes)
  | .none | .error => if t.overrun then none else some t

/-- What a turn of the loop comes to: `new_frame_action` is called when a new frame starts. -/
def packetRead (t t' : Camera.Thread) (res : PacketResult) (detected : Bool) : Read :=
  if t'.delivered = t.delivered then
    match res with
    | .error => .error
    | _ => .incomplete
  else .frame detected

/-- The frames that `new_frame_action` was called with. -/
def calls (t : Camera.Thread) : List FrameData := t.delivered.map frameData

/-- The last of them. -/
def lastCall (t : Camera.Thread) : FrameData := frameData (t.delivered.getLastD ⟨0, []⟩)

namespace Filmed

variable (C : Cameras) (names : Nat → String) (n : Nat) (gige : Nat → Bool) (s : Filmed)

/-- The step of the collector, with the packet of a camera that reads. -/
def mixedStep (t' : Nat → Camera.Thread) : FilmedAction → MixedAction
  | .camera i res detected => .camera i (packetRead (s.threads i) (t' i) res detected)
  | .tcp i read _ => .tcp i read
  | .udp i => .udp i
  | .collector => .collector
  | .firstAction => .firstAction
  | .raiseSource i => .raiseSource i
  | .raiseCollector => .raiseCollector

/-- The threads of the cameras after a step. -/
def threadsAfter : FilmedAction → Option (Nat → Camera.Thread)
  | .camera i res _ =>
      if (s.mixed.barrier.srcs i).pc = .reading then
        (takePacket (C.packetSize i) (s.threads i) res).map (Function.update s.threads i)
      else some s.threads
  | _ => some s.threads

def packetEvents : FilmedAction → List (IntakeEvent (List UInt8))
  | .camera i (.datagram bytes) _ =>
      if (s.mixed.barrier.srcs i).pc = .reading then [.read i bytes] else []
  | _ => []

/-- The frame that source `j` adds in a step. -/
def frameOf (a : FilmedAction) (j : Nat) : FrameData :=
  match a with
  | .tcp _ _ frame => frame
  | _ => lastCall (s.threads j)

def next (a : FilmedAction) : Option (List (IntakeEvent (List UInt8)) × Filmed) :=
  (s.threadsAfter C a).bind fun threads =>
    let step := s.mixedStep threads a
    (s.mixed.step names n gige step).map fun mixed =>
      (s.packetEvents a ++ (s.mixed.events step).map (.ofBarrier (s.frameOf a)), ⟨mixed, threads⟩)

def initial : Filmed where
  mixed := .initial names
  threads i := .start (C.packet i) (C.iframe i) (C.nPackets i)

end Filmed

/-- `n` sources, some of them with cameras that get packets, and their collector. -/
def filmed (C : Cameras) (names : Nat → String) (n : Nat) (gige : Nat → Bool) :
    System Filmed FilmedAction (IntakeEvent (List UInt8)) where
  step s a := (s.next C names n gige a).map Prod.snd
  emit s a := ((s.next C names n gige a).map Prod.fst).getD []

/-- Every run, with any packets, errors and results of the detection. -/
abbrev Shot (C : Cameras) (names : Nat → String) (n : Nat) (gige : Nat → Bool)
    (es : List (IntakeEvent (List UInt8))) (s : Filmed) : Prop :=
  Trace (filmed C names n gige) (fun _ => True) (Filmed.initial C names) es s

/-! ## The parts of the system -/

section Parts

variable {C : Cameras} {names : Nat → String} {n : Nat} {gige : Nat → Bool} {s s' : Filmed}
  {a : FilmedAction} {es : List (IntakeEvent (List UInt8))} {i : Nat}

theorem Filmed.step_some (h : (filmed C names n gige).step s a = some s') :
    s.threadsAfter C a = some s'.threads ∧
      s.mixed.step names n gige (s.mixedStep s'.threads a) = some s'.mixed ∧
      (filmed C names n gige).emit s a = s.packetEvents a ++
        (s.mixed.events (s.mixedStep s'.threads a)).map (.ofBarrier (s.frameOf a)) := by
  obtain ⟨⟨fs, t⟩, hnext, rfl⟩ := Option.map_eq_some_iff.mp h
  have hemit : (filmed C names n gige).emit s a = fs := by simp [filmed, hnext]
  obtain ⟨threads, hthreads, hrest⟩ := Option.bind_eq_some_iff.mp hnext
  obtain ⟨mixed, hmixed, hfinal⟩ := Option.map_eq_some_iff.mp hrest
  cases hfinal
  exact ⟨hthreads, hmixed, hemit⟩

/-- A packet is neither an event of the barrier nor a frame. -/
theorem packetEvents_project {φ : Type} (f : IntakeEvent (List UInt8) → Option φ)
    (hf : ∀ i x, f (.read i x) = none) (s : Filmed) (a : FilmedAction) :
    (s.packetEvents a).filterMap f = [] := by
  cases a with
  | camera i res _ =>
    cases res with
    | datagram bytes =>
      simp only [Filmed.packetEvents]
      split <;> simp [hf]
    | _ => rfl
  | _ => rfl

/-- A run is one of the threads of the collector. -/
theorem mixed_of_shot (h : Shot C names n gige es s) :
    Trace (mixed names n gige) (fun _ => True) (.initial names)
      (es.filterMap IntakeEvent.barrier) s.mixed := by
  refine h.part (T := mixed names n gige) Filmed.mixed
    (fun s a => ((s.threadsAfter C a).map fun t => s.mixedStep t a).toList) _ ?_
  intro s a s' hs
  obtain ⟨hthreads, hmixed, hemit⟩ := Filmed.step_some hs
  rw [hemit, List.filterMap_append, packetEvents_project _ (fun _ _ => rfl),
    IntakeEvent.filterMap_barrier, List.nil_append, hthreads]
  exact System.run_single hmixed

/-- The thread of a camera has handled the packets that it has got. -/
theorem threads_of_shot (h : Shot C names n gige es s) (j : Nat) :
    s.threads j = (Camera.Thread.start (C.packet j) (C.iframe j) (C.nPackets j)).after
      (C.packetSize j) (es.filterMap (IntakeEvent.got j)) := by
  induction h with
  | start => rfl
  | @next es s s' a _ _ hs ih =>
    obtain ⟨hthreads, -, hemit⟩ := Filmed.step_some hs
    rw [hemit, List.filterMap_append, List.filterMap_append, IntakeEvent.filterMap_got,
      List.append_nil]
    cases a with
    | camera i res detected =>
      simp only [Filmed.threadsAfter] at hthreads
      by_cases hpc : (s.mixed.barrier.srcs i).pc = .reading
      · by_cases hij : i = j
        · subst hij
          have ht := entry_updated hpc hthreads
          cases res with
          | datagram bytes =>
            simp only [takePacket, Option.ite_none_left_eq_some, Option.some.injEq] at ht
            simp [Filmed.packetEvents, hpc, IntakeEvent.got, after_concat, ← ih, ht.2]
          | none | error =>
            simp only [takePacket, Option.ite_none_left_eq_some, Option.some.injEq] at ht
            simp [Filmed.packetEvents, ← ih, ht.2]
        · rw [entry_other (Ne.symm hij) hthreads]
          cases res <;> simp [Filmed.packetEvents, hpc, IntakeEvent.got, hij, ← ih]
      · rw [entry_kept hpc hthreads]
        cases res <;> simp [Filmed.packetEvents, hpc, ← ih]
    | _ =>
      rw [← Option.some.inj hthreads]
      simp [Filmed.packetEvents, ← ih]

end Parts

/-! ## The frames of a camera -/

section Frames

variable {g g' : Gige} {src src' : Source} {hand hand' : FrameData}
  {whole whole' adds : List FrameData} {read : Read}

/-- `camera_gvsp_thread` does with a frame what the other sources do. -/
theorem holding_cameraStep (h : Holding src hand whole adds)
    (hs : g.cameraStep src read = some (g', src'))
    (hfeeds : Feeds src hand hand' whole whole' read) :
    Holding src' hand' whole' (adds ++ if src.pc = .addFrame then [hand] else []) := by
  have hplain : (src.step read).map (g, ·) = some (g', src') →
      Holding src' hand' whole' (adds ++ if src.pc = .addFrame then [hand] else []) := by
    intro hstep
    obtain ⟨src'', hstep', heq⟩ := Option.map_eq_some_iff.mp hstep
    obtain ⟨-, rfl⟩ := Prod.mk.inj heq
    exact holding_step h hstep' hfeeds
  cases hpc : src.pc with
  | waitStart | postEnd | ended => simp [Gige.cameraStep, hpc] at hs
  | loop =>
    simp only [Feeds, hpc, reduceCtorEq, if_false] at hfeeds
    obtain ⟨rfl, rfl⟩ := hfeeds
    rw [if_neg (by simp), List.append_nil]
    simp only [Gige.cameraStep, hpc] at hs
    split at hs <;> cases hs <;>
      exact h.keep (by simp [hpc, SourcePc.pending]) (by simp) fun hexit => hexit
  | reading =>
    simp only [Gige.cameraStep, hpc] at hs
    split at hs
    · next herror =>
      simp only [Feeds, hpc, if_true] at hfeeds
      rcases hfeeds with ⟨detected, -, hframe⟩ | ⟨rfl, -⟩
      · rw [herror] at hframe
        cases hframe
      · cases hs
        rw [if_neg (by simp), List.append_nil]
        rcases h with hall | ⟨hexit, hno, hdropped⟩
        · exact Or.inl (by simpa [inHand, hpc, SourcePc.pending] using hall)
        · exact Or.inr ⟨hexit, by simp, hdropped⟩
    · rw [hpc] at hplain
      exact hplain hs
  | _ =>
    rw [hpc] at hplain
    refine hplain ?_
    simpa only [Gige.cameraStep, hpc] using hs

/-- The thread of a camera leaves the one that watches it where it is. -/
theorem pc_cameraStep (hs : g.cameraStep src read = some (g', src')) : g'.pc = g.pc := by
  have hplain : (src.step read).map (g, ·) = some (g', src') → g'.pc = g.pc := by
    intro hstep
    obtain ⟨src'', -, heq⟩ := Option.map_eq_some_iff.mp hstep
    rw [← (Prod.mk.inj heq).1]
  cases hpc : src.pc <;> simp only [Gige.cameraStep, hpc] at hs
  case waitStart | postEnd | ended => cases hs
  case loop => split at hs <;> cases hs <;> rfl
  case reading =>
    split at hs
    · cases hs
      rfl
    · exact hplain hs
  all_goals exact hplain hs

theorem receive_delivered (packetSize : Nat) (t : Camera.Thread) (bytes : List UInt8) :
    (t.receive packetSize bytes).delivered = t.delivered ∨
      ∃ f, (t.receive packetSize bytes).delivered = t.delivered ++ [f] := by
  rw [Thread.receive]
  split
  · exact Or.inl rfl
  · rw [handlePacket_delivered]
    simp only [Thread.startFrame, Thread.newFrameAction]
    split
    · split
      · exact Or.inr ⟨_, rfl⟩
      · exact Or.inl rfl
    · exact Or.inl rfl

theorem feeds_packet {packetSize : Nat} {t t' : Camera.Thread} {res : PacketResult}
    (detected : Bool) (h : src.pc = .reading → takePacket packetSize t res = some t')
    (hsame : src.pc ≠ .reading → t' = t) :
    Feeds src (lastCall t) (lastCall t') (calls t) (calls t') (packetRead t t' res detected) := by
  unfold Feeds
  split
  · next hpc =>
    have ht := h hpc
    have hcall : t'.delivered = t.delivered ∨ ∃ f, t'.delivered = t.delivered ++ [f] := by
      cases res with
      | datagram bytes =>
        simp only [takePacket, Option.ite_none_left_eq_some, Option.some.injEq] at ht
        exact ht.2 ▸ receive_delivered packetSize t bytes
      | none | error =>
        simp only [takePacket, Option.ite_none_left_eq_some, Option.some.injEq] at ht
        exact Or.inl (by rw [ht.2])
    unfold packetRead
    rcases hcall with hsame' | ⟨f, hnew⟩
    · rw [if_pos hsame']
      refine Or.inr ⟨by rw [calls, calls, hsame'], ?_⟩
      cases res
      · exact Or.inl rfl
      · exact Or.inr rfl
      · exact Or.inr rfl
    · rw [if_neg (by simp [hnew])]
      exact Or.inl ⟨detected, by simp [calls, lastCall, hnew], rfl⟩
  · next hpc =>
    obtain rfl := hsame hpc
    exact ⟨rfl, rfl⟩

end Frames

section Runs

variable {C : Cameras} {names : Nat → String} {n : Nat} {gige : Nat → Bool} {s s' : Filmed}
  {a : FilmedAction} {es : List (IntakeEvent (List UInt8))} {i : Nat}

/-- Until `source_data_thread_udp` has created it the thread of the camera does nothing. -/
def Gige.Created (g : Gige) (src : Source) : Prop :=
  g.pc = .waitStart ∨ g.pc = .start ∨ g.pc = .create → src.pc = .waitStart

theorem created_of_run {m : Mixed} {fs : List BarrierEvent}
    (h : Trace (mixed names n gige) (fun _ => True) (.initial names) fs m)
    (hgige : gige i = true) : (m.gige i).Created (m.barrier.srcs i) := by
  induction h with
  | start => exact fun _ => rfl
  | @next fs m m' b _ _ hs ih =>
    cases mixed_cases hs with
    | @udp j p _ _ hp =>
      simp only [Mixed.setGige, Barrier.setSource_srcs]
      by_cases hij : i = j
      · subst hij
        rw [if_pos rfl, Function.update_self]
        intro hearly
        cases hpc : (m.gige i).pc <;> simp only [Gige.udpStep, hpc] at hp
        all_goals
          (repeat' split at hp) <;> cases hp <;> simp_all [Gige.Created]
      · rw [if_neg hij, Function.update_of_ne hij]
        exact ih
    | @camera j read p _ _ hp =>
      simp only [Mixed.setGige, Barrier.setSource_srcs]
      by_cases hij : i = j
      · subst hij
        rw [if_pos rfl, Function.update_self]
        intro hearly
        rw [pc_cameraStep hp] at hearly
        simp [Gige.cameraStep, ih hearly] at hp
      · rw [if_neg hij, Function.update_of_ne hij]
        exact ih
    | @other _ step barrier' _ htcp hbarrier =>
      have hpc := Barrier.pc_keeps hbarrier fun read hread => by
        rw [htcp i read hread] at hgige
        cases hgige
      exact fun hearly => hpc.trans (ih hearly)

/-- What a step of the others leaves of a source with a camera. -/
theorem camera_keeps (hgige : gige i = true) {m m' : Mixed} {b : MixedAction}
    (hcreated : (m.gige i).Created (m.barrier.srcs i))
    (hs : (mixed names n gige).step m b = some m') (hb : ∀ read, b ≠ .camera i read) :
    (m'.barrier.srcs i).pc.pending = (m.barrier.srcs i).pc.pending ∧
      ((m'.barrier.srcs i).pc = .addFrame → (m.barrier.srcs i).pc = .addFrame) ∧
      ((m.barrier.srcs i).exitFlag = true → (m'.barrier.srcs i).exitFlag = true) := by
  cases mixed_cases hs with
  | @udp j p _ _ hp =>
    simp only [Mixed.setGige, Barrier.setSource_srcs]
    by_cases hij : i = j
    · subst hij
      rw [if_pos rfl]
      have hpc : p.2.pc = (m.barrier.srcs i).pc ∨
          p.2.pc = .loop ∧ (m.barrier.srcs i).pc = .waitStart := by
        cases hpc : (m.gige i).pc <;> simp only [Gige.udpStep, hpc] at hp
        case create =>
          cases hp
          exact Or.inr ⟨rfl, hcreated (Or.inr (Or.inr hpc))⟩
        all_goals
          (repeat' split at hp) <;> cases hp <;> exact Or.inl rfl
      refine ⟨?_, ?_, exitFlag_udp hp⟩ <;> rcases hpc with hpc | ⟨hpc, hwait⟩
      · rw [hpc]
      · rw [hpc, hwait]
        rfl
      · exact hpc.symm.trans
      · intro hadd
        rw [hpc] at hadd
        cases hadd
    · rw [if_neg hij]
      exact ⟨rfl, fun hadd => hadd, fun hexit => hexit⟩
  | @camera j read p _ _ hp =>
    have hij : i ≠ j := fun hij => hb read (by rw [hij])
    have hsame : (m.setGige j p).barrier.srcs i = m.barrier.srcs i := by
      rw [Mixed.setGige, Barrier.setSource_srcs, if_neg hij]
    rw [hsame]
    exact ⟨rfl, fun hadd => hadd, fun hexit => hexit⟩
  | @other _ step barrier' _ htcp hbarrier =>
    have hother : ∀ read, step ≠ .source i read := by
      intro read hread
      rw [htcp i read hread] at hgige
      cases hgige
    have hpc := Barrier.pc_keeps hbarrier hother
    exact ⟨congrArg _ hpc, hpc.symm.trans, Barrier.exitFlag_keeps hbarrier i⟩

/-- The others do not add its frames. -/
theorem no_frame_of_other (hgige : gige i = true) {m m' : Mixed} {b : MixedAction}
    {frame' : Nat → FrameData} (hs : (mixed names n gige).step m b = some m')
    (hb : ∀ read, b ≠ .camera i read) :
    ((m.events b).map (IntakeEvent.ofBarrier (ρ := List UInt8) frame')).filterMap
      (IntakeEvent.frame i) = [] := by
  cases mixed_cases hs with
  | udp => rfl
  | @camera j read _ _ _ _ =>
    have hij : i ≠ j := fun hij => hb read (by rw [hij])
    exact IntakeEvent.filterMap_other (b := m.barrier) (a := .source j read) fun read' heq => by
      injection heq with hj
      exact hij hj.symm
  | @other _ step _ hstep htcp _ =>
    simp only [Mixed.events, hstep]
    apply IntakeEvent.filterMap_other
    intro read hread
    rw [htcp i read hread] at hgige
    cases hgige

/-- The frames that a camera has called `new_frame_action` with are added one after the
other. -/
theorem holding_of_shot (h : Shot C names n gige es s) (hi : i < n) (hgige : gige i = true) :
    Holding (s.mixed.barrier.srcs i) (lastCall (s.threads i)) (calls (s.threads i))
      (es.filterMap (IntakeEvent.frame i)) := by
  induction h with
  | start => exact Or.inl rfl
  | @next es s s' a htrace _ hs ih =>
    obtain ⟨hthreads, hmixed, hemit⟩ := Filmed.step_some hs
    rw [hemit, List.filterMap_append, List.filterMap_append,
      packetEvents_project _ (fun _ _ => rfl), List.nil_append]
    by_cases hown : ∃ res detected, a = .camera i res detected
    · obtain ⟨res, detected, rfl⟩ := hown
      have hcamera : (s.mixed.gige i).cameraStep (s.mixed.barrier.srcs i)
          (packetRead (s.threads i) (s'.threads i) res detected) =
            some (s'.mixed.gige i, s'.mixed.barrier.srcs i) := by
        simp only [Filmed.mixedStep, Mixed.step, if_pos (And.intro hgige hi),
          Option.map_eq_some_iff] at hmixed
        obtain ⟨p, hp, hnew⟩ := hmixed
        rw [hp, ← hnew]
        simp [Mixed.setGige, Barrier.setSource_srcs]
      simp only [Filmed.threadsAfter] at hthreads
      have hfeeds : Feeds (s.mixed.barrier.srcs i) (lastCall (s.threads i))
          (lastCall (s'.threads i)) (calls (s.threads i)) (calls (s'.threads i))
          (packetRead (s.threads i) (s'.threads i) res detected) := by
        apply feeds_packet detected
        · intro hpc
          exact entry_updated hpc hthreads
        · intro hpc
          rw [entry_kept hpc hthreads]
      have hevents : s.mixed.events (s.mixedStep s'.threads (.camera i res detected)) =
          s.mixed.barrier.events (.source i
            (packetRead (s.threads i) (s'.threads i) res detected)) := rfl
      rw [hevents, IntakeEvent.filterMap_own]
      exact holding_cameraStep ih hcamera hfeeds
    · have hother : ∀ read, s.mixedStep s'.threads a ≠ .camera i read := by
        intro read
        cases a with
        | camera j res detected =>
          simp only [Filmed.mixedStep]
          rintro ⟨rfl⟩
          exact hown ⟨res, detected, rfl⟩
        | _ => simp [Filmed.mixedStep]
      have hsame : s'.threads i = s.threads i := by
        cases a with
        | camera j res detected =>
          have hij : i ≠ j := fun hij => hown ⟨res, detected, by rw [hij]⟩
          exact entry_other hij hthreads
        | _ => rw [← Option.some.inj hthreads]
      obtain ⟨hpending, hadd, hexit⟩ :=
        camera_keeps hgige (created_of_run (mixed_of_shot htrace) hgige) hmixed hother
      rw [no_frame_of_other hgige hmixed hother, List.append_nil, hsame]
      exact ih.keep hpending hadd hexit

end Runs

/-! ## From the packets to the objects -/

section Stream

variable {C : Cameras} {names : Nat → String} {n : Nat} {gige : Nat → Bool} {s : Filmed}
  {es : List (IntakeEvent (List UInt8))} {i : Nat}

theorem after_packets (packetSize : Nat) (t : Camera.Thread) (ps : List (GvspPacket packetSize)) :
    t.after packetSize (ps.map (·.bytes)) = Camera.run packetSize t ps := by
  rw [Thread.after, List.foldl_map]
  rfl

/-- Packets behind each other from which the thread reads the same id. -/
structure ReadFrame (packetSize : Nat) where
  id : Nat
  packets : List (GvspPacket packetSize)
  read : ReadAs id packets

def ReadFrame.expected {packetSize : Nat} (f : ReadFrame packetSize) : Iframe :=
  ⟨f.id, payloadOf f.packets⟩

/-- `new_frame_action` is called with every frame that another has followed. -/
theorem delivered_of_full {packetSize : Nat} (hsize : packetSize < 2 ^ 32)
    {packet : List UInt8} (hpacket : packet.length = packetSize) (iframe : Iframe) (nPackets : Nat)
    {frames : List (ReadFrame packetSize)} (hchain : frames.IsChain (·.id ≠ ·.id))
    (hfull : ∀ f ∈ frames.dropLast, FullFrame f.packets) :
    (Camera.run packetSize (.start packet iframe nPackets)
      (frames.flatMap (·.packets))).delivered = frames.dropLast.map (·.expected) :=
  (start_delivered_iff ReadFrame.packets ReadFrame.id ReadFrame.id hsize hpacket iframe nPackets
    (fun f _ => f.read) hchain).mpr fun f hf => ⟨rfl, hfull f hf⟩

/-- **From the packets to the objects.** Where the packets of a camera are those of frames with
full blocks, its source adds each frame that another has followed once and in order, whatever
the other threads do; without an exit flag it leaves none out but the one in hand, and to
objects in the order of their names. -/
theorem objects_get_packets (hinj : Function.Injective names) (h : Shot C names n gige es s)
    (hi : i < n) (hgige : gige i = true) {frames : List (ReadFrame (C.packetSize i))}
    (hchain : frames.IsChain (·.id ≠ ·.id)) (hfull : ∀ f ∈ frames.dropLast, FullFrame f.packets)
    (hgot : es.filterMap (IntakeEvent.got i) = (frames.flatMap (·.packets)).map (·.bytes)) :
    let whole := frames.dropLast.map fun f => frameData f.expected
    es.filterMap (IntakeEvent.frame i) <+: whole ∧
      ((s.mixed.barrier.srcs i).exitFlag = false →
        es.filterMap (IntakeEvent.frame i) ++
          inHand (s.mixed.barrier.srcs i) (lastCall (s.threads i)) = whole) ∧
      (s.mixed.Unstopped n gige → ∃ ks : List Nat,
        es.filterMap (IntakeEvent.object i) = ks.map names ∧ ks.Pairwise (· ≤ ·)) := by
  intro whole
  have hcalls : calls (s.threads i) = whole := by
    rw [calls, threads_of_shot h i, hgot, after_packets, delivered_of_full (C.fits i)
      (C.packet_length i) (C.iframe i) (C.nPackets i) hchain hfull, List.map_map]
    rfl
  have hheld := (holding_of_shot h hi hgige).added
  rw [hcalls] at hheld
  refine ⟨hheld.1, hheld.2, fun hstop => ?_⟩
  obtain ⟨b, hbarrier, -⟩ := barrier_of_mixed (mixed_of_shot h) hstop
  obtain ⟨ks, hks, hsorted, -⟩ := objects_of_run hinj hbarrier hi
  exact ⟨ks, (IntakeEvent.filterMap_object es).trans hks, hsorted⟩

/-- A camera whose packets have one byte of data. -/
def oneCamera : Cameras where
  packetSize _ := 9
  packet _ := List.replicate 9 0
  iframe _ := ⟨0, []⟩
  nPackets _ := 0
  packet_length _ := rfl
  fits _ := by decide

/-- A frame with one kind of header, as the thread reads it. -/
def readFrame {packetSize : Nat} (f : CameraFrame packetSize) (h : f.OneHeader) :
    ReadFrame packetSize := ⟨f.codeId, f.packets, readAs_of_oneHeader h⟩

theorem fullFrames_oneHeader : ∀ f ∈ fullFrames, f.OneHeader := fun f hf =>
  ⟨false, (by decide : ∀ f ∈ fullFrames, ∀ p ∈ f.packets,
    packetHasExtendedIds p.bytes = false) f hf⟩

/-- A frame of one byte, and the beginning of the next. -/
def twoReadFrames : List (ReadFrame 9) := fullFrames.pmap readFrame fullFrames_oneHeader

/-- The packet of the second frame makes the camera add the first. -/
def firstPackets : List FilmedAction :=
  List.replicate 5 .firstAction ++ List.replicate 5 .collector ++ List.replicate 3 (.udp 0) ++
    [.camera 0 .none false, .camera 0 (.datagram (blockBytes 1 [7])) false,
     .camera 0 .none false, .camera 0 (.datagram (blockBytes 2 [8])) false,
     .camera 0 .none false, .camera 0 .none false] ++
    List.replicate 6 .collector ++ List.replicate 5 .firstAction ++
    List.replicate 5 .collector ++ List.replicate 3 (.camera 0 .none false)

theorem firstPackets_runs :
    ((filmed oneCamera Barrier.countedNames 1 fun _ => true).run firstPackets
      (Filmed.initial oneCamera Barrier.countedNames)).isSome = true := by
  decide

theorem objects_get_packets_fullFrames : ∃ es s,
    Shot oneCamera Barrier.countedNames 1 (fun _ => true) es s ∧
    es.filterMap (IntakeEvent.frame 0) = [(1, [7])] ∧
    es.filterMap (IntakeEvent.frame 0) ++
      inHand (s.mixed.barrier.srcs 0) (lastCall (s.threads 0)) =
        twoReadFrames.dropLast.map fun f => frameData f.expected := by
  have hrun : Shot oneCamera Barrier.countedNames 1 (fun _ => true) _ _ :=
    trace_of_isSome (fun _ _ => trivial) firstPackets_runs
  have hfull : ∀ f ∈ twoReadFrames.dropLast, FullFrame f.packets := by
    intro f hf
    obtain rfl : f = twoReadFrames.head (by decide) := List.mem_singleton.mp hf
    exact ⟨by unfold AllFull; decide, by decide⟩
  have hchain : twoReadFrames.IsChain (·.id ≠ ·.id) :=
    List.isChain_cons_cons.mpr ⟨by decide, .singleton _⟩
  have hall := (objects_get_packets Barrier.countedNames_injective hrun Nat.zero_lt_one rfl
    hchain hfull (by decide)).2.1 (by decide)
  exact ⟨_, _, hrun, by decide, hall⟩

end Stream

end DclProcessor.Collector
