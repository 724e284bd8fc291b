import DclProcessor.Library.Simulation
import DclProcessor.Collector.Fragments
import DclProcessor.Collector.Holding

/-!
From the connections to the objects: each source reads frames from its connection and adds
them to the object of the moment, while the collector goes from object to object. The loop
of `source_data_thread_tcp` and the barrier are one system here.
-/

namespace DclProcessor.Collector

open Transition

/-- What the peers of the sources send, and the buffers of the packets at first. -/
structure Input where
  dataLen : Nat → Nat
  frames : ∀ i, List (Frame (dataLen i))
  header : Nat → List UInt8
  packet : Nat → List UInt8
  header_length : ∀ i, (header i).length = headerLen
  packet_length : ∀ i, (packet i).length = dataLen i
  fits : ∀ i, frameLen (dataLen i) < 2 ^ 64

/-- The barrier, and the reading loop of each source. -/
structure Intake where
  barrier : Barrier
  readers : Nat → Reader

/-- `source i res detected`: source `i` makes a step; when it reads, `read` returns `res`, and
the detection says `detected` of the frame if there is one. -/
inductive IntakeAction
  | source (i : Nat) (res : ReadResult) (detected : Bool)
  | collector
  | firstAction
  | raiseSource (i : Nat)
  | raiseCollector

namespace Reader

variable (dataLen : Nat) (r : Reader)

/-- What a turn of the loop comes to: `new_frame_action` is called when a frame is whole. -/
def read (r' : Reader) (detected : Bool) : Read :=
  if r'.delivered = r.delivered then if r'.exitFlag then .error else .incomplete
  else .frame detected

/-- The frame in the packet. -/
def frame : FrameData := (r.frameId, r.data)

end Reader

namespace Intake

variable (C : Input) (names : Nat → String) (n : Nat) (s : Intake)

/-- What the loop of source `j` sees of a step. -/
def readerMoves (j : Nat) : IntakeAction → List ReadResult
  | .source i res _ => if i = j ∧ (s.barrier.srcs i).pc = .reading then [res] else []
  | _ => []

def reads (i : Nat) : ReadResult → List (IntakeEvent Nat)
  | .bytes n => [.read i n]
  | _ => []

/-- The step of the barrier, with the reader of a source that reads. -/
def barrierStep (r' : Nat → Reader) : IntakeAction → Step
  | .source i _ detected => .source i ((s.readers i).read (r' i) detected)
  | .collector => .collector
  | .firstAction => .firstAction
  | .raiseSource i => .raiseSource i
  | .raiseCollector => .raiseCollector

/-- The readers after a step. -/
def readersAfter : IntakeAction → Option (Nat → Reader)
  | .source i res _ =>
      if (s.barrier.srcs i).pc = .reading then
        ((s.readers i).step (C.dataLen i) res).map (Function.update s.readers i)
      else some s.readers
  | _ => some s.readers

def readEvents : IntakeAction → List (IntakeEvent Nat)
  | .source i res _ => if (s.barrier.srcs i).pc = .reading then reads i res else []
  | _ => []

def next (a : IntakeAction) : Option (List (IntakeEvent Nat) × Intake) :=
  (s.readersAfter C a).bind fun readers =>
    let step := s.barrierStep readers a
    (s.barrier.step names n step).map fun barrier =>
      (s.readEvents a ++
        (s.barrier.events step).map (.ofBarrier fun i => (s.readers i).frame),
        ⟨barrier, readers⟩)

def initial : Intake where
  barrier := .initial names
  readers i := .start (C.header i) (C.packet i) ((C.frames i).flatMap encode)

end Intake

/-- `n` sources with their connections, the collector and the calls of `first_action`. -/
def intake (C : Input) (names : Nat → String) (n : Nat) :
    System Intake IntakeAction (IntakeEvent Nat) where
  step s a := (s.next C names n a).map Prod.snd
  emit s a := ((s.next C names n a).map Prod.fst).getD []

/-- Every run of the collector, with any results of the reads and of the detection. -/
abbrev Taken (C : Input) (names : Nat → String) (n : Nat) (es : List (IntakeEvent Nat))
    (s : Intake) : Prop :=
  Trace (intake C names n) (fun _ => True) (Intake.initial C names) es s

/-! ## The parts of the system -/

namespace Intake

variable {C : Input} {names : Nat → String} {n : Nat} {s s' : Intake} {a : IntakeAction}
  {es : List (IntakeEvent Nat)}

theorem step_some (h : (intake C names n).step s a = some s') :
    s.readersAfter C a = some s'.readers ∧
      s.barrier.step names n (s.barrierStep s'.readers a) = some s'.barrier ∧
      (intake C names n).emit s a = s.readEvents a ++
        (s.barrier.events (s.barrierStep s'.readers a)).map
          (.ofBarrier fun i => (s.readers i).frame) := by
  obtain ⟨⟨fs, t⟩, hnext, rfl⟩ := Option.map_eq_some_iff.mp h
  have hemit : (intake C names n).emit s a = fs := by simp [intake, hnext]
  obtain ⟨readers, hreaders, hrest⟩ := Option.bind_eq_some_iff.mp hnext
  obtain ⟨barrier, hbarrier, hfinal⟩ := Option.map_eq_some_iff.mp hrest
  cases hfinal
  exact ⟨hreaders, hbarrier, hemit⟩

/-- What a source reads is neither an event of the barrier nor a frame. -/
theorem readEvents_project {φ : Type} (f : IntakeEvent Nat → Option φ)
    (hf : ∀ i n, f (.read i n) = none) (s : Intake) (a : IntakeAction) :
    (s.readEvents a).filterMap f = [] := by
  cases a with
  | source i res _ =>
    simp only [readEvents]
    split
    · cases res <;> simp [reads, hf]
    · rfl
  | _ => rfl

/-- A run is one of the barrier. -/
theorem barrier_of_taken (h : Taken C names n es s) :
    Trace (Collector.barrier names n) (fun _ => True) (.initial names)
      (es.filterMap IntakeEvent.barrier) s.barrier := by
  refine h.part (T := Collector.barrier names n) Intake.barrier
    (fun s a => ((s.readersAfter C a).map fun r => s.barrierStep r a).toList) _ ?_
  intro s a s' hs
  obtain ⟨hreaders, hbarrier, hemit⟩ := step_some hs
  rw [hemit, List.filterMap_append, readEvents_project _ (fun _ _ => rfl),
    IntakeEvent.filterMap_barrier, List.nil_append, hreaders]
  exact System.run_single hbarrier

/-- A run is one of each reading loop. -/
theorem reader_of_taken (h : Taken C names n es s) (j : Nat) :
    Trace (tcp (C.dataLen j)) (fun _ => True)
      (.start (C.header j) (C.packet j) ((C.frames j).flatMap encode))
      (es.filterMap (IntakeEvent.got j)) (s.readers j) := by
  refine h.part (T := tcp (C.dataLen j)) (fun s => s.readers j) (fun s a => s.readerMoves j a) _ ?_
  intro s a s' hs
  obtain ⟨hreaders, -, hemit⟩ := step_some hs
  rw [hemit, List.filterMap_append, IntakeEvent.filterMap_got, List.append_nil]
  cases a with
  | source i res detected =>
    simp only [readersAfter, readerMoves, readEvents] at hreaders ⊢
    by_cases hpc : (s.barrier.srcs i).pc = .reading
    · rw [if_pos hpc]
      by_cases hij : i = j
      · subst hij
        rw [if_pos ⟨rfl, hpc⟩]
        refine (System.run_single (entry_updated hpc hreaders)).trans ?_
        cases res <;> simp [reads, tcp, IntakeEvent.got]
      · rw [if_neg (fun hand => hij hand.1), entry_other (Ne.symm hij) hreaders]
        cases res <;> simp [System.run, reads, IntakeEvent.got, hij]
    · rw [if_neg hpc, if_neg (fun hand => hpc hand.2), entry_kept hpc hreaders]
      rfl
  | _ =>
    rw [← Option.some.inj hreaders]
    rfl

/-! ## The frames of a source -/

theorem delivered_account (dataLen n : Nat) (r : Reader) :
    (r.account dataLen n).delivered = r.delivered ∨
      (r.account dataLen n).delivered = r.delivered ++ [(r.account dataLen n).frame] := by
  have hpart : (Reader.dataPart dataLen n (Reader.headerEnd (Reader.headerPart n
      { r with recievedLen := sizeAdd r.recievedLen n }))).delivered = r.delivered := by
    unfold Reader.dataPart Reader.headerEnd Reader.headerPart
    split <;> split <;> split <;> rfl
  unfold Reader.account
  generalize Reader.dataPart dataLen n (Reader.headerEnd (Reader.headerPart n
    { r with recievedLen := sizeAdd r.recievedLen n })) = t at hpart
  unfold Reader.dataEnd
  split
  · exact Or.inr (by simp [hpart, Reader.frame])
  · exact Or.inl hpart

theorem delivered_fill (dataLen n : Nat) (r : Reader) :
    (r.fill dataLen n).delivered = r.delivered := by
  simp only [Reader.fill]
  split <;> split <;> rfl

/-- A turn of the loop calls `new_frame_action` at most once, with the frame in the packet. -/
theorem delivered_step {dataLen : Nat} {r r' : Reader} {res : ReadResult}
    (h : r.step dataLen res = some r') :
    r'.delivered = r.delivered ∨ r'.delivered = r.delivered ++ [r'.frame] := by
  unfold Reader.step at h
  split at h
  · cases h
  · cases res with
    | error =>
      cases h
      exact Or.inl rfl
    | none =>
      cases h
      exact Or.inl rfl
    | bytes n =>
      simp only at h
      split at h
      · split at h
        · cases h
          exact Or.inl (delivered_fill ..)
        · cases h
          have hcall := delivered_account dataLen n (r.fill dataLen n)
          rwa [delivered_fill] at hcall
      · cases h

theorem feeds_read {src : Source} {r r' : Reader} (detected : Bool)
    (h : src.pc = .reading → ∃ dataLen res, r.step dataLen res = some r')
    (hsame : src.pc ≠ .reading → r' = r) :
    Feeds src r.frame r'.frame r.delivered r'.delivered (r.read r' detected) := by
  unfold Feeds
  split
  · next hpc =>
    obtain ⟨dataLen, res, hstep⟩ := h hpc
    unfold Reader.read
    rcases delivered_step hstep with hdelivered | hdelivered
    · rw [if_pos hdelivered]
      refine Or.inr ⟨hdelivered, ?_⟩
      split
      · exact Or.inl rfl
      · exact Or.inr rfl
    · rw [if_neg (by simp [hdelivered])]
      exact Or.inl ⟨detected, hdelivered, rfl⟩
  · next hpc =>
    obtain rfl := hsame hpc
    exact ⟨rfl, rfl⟩

theorem holding_of_taken (h : Taken C names n es s) {i : Nat} (hi : i < n) :
    Holding (s.barrier.srcs i) (s.readers i).frame (s.readers i).delivered
      (es.filterMap (IntakeEvent.frame i)) := by
  induction h with
  | start => exact Or.inl rfl
  | @next es s s' a _ _ hs ih =>
    obtain ⟨hreaders, hbarrier, hemit⟩ := step_some hs
    rw [hemit, List.filterMap_append, List.filterMap_append,
      readEvents_project _ (fun _ _ => rfl), List.nil_append]
    by_cases hown : ∃ res detected, a = .source i res detected
    · obtain ⟨res, detected, rfl⟩ := hown
      rw [barrierStep, IntakeEvent.filterMap_own]
      simp only [barrierStep, Barrier.step, if_pos hi, Option.map_eq_some_iff] at hbarrier
      obtain ⟨src, hsrc, hnew⟩ := hbarrier
      have hsrc' : s'.barrier.srcs i = src := by rw [← hnew, Barrier.setSource_srcs, if_pos rfl]
      simp only [readersAfter] at hreaders
      have hfeeds : Feeds (s.barrier.srcs i) (s.readers i).frame (s'.readers i).frame
          (s.readers i).delivered (s'.readers i).delivered
          ((s.readers i).read (s'.readers i) detected) := by
        refine feeds_read detected (fun hpc => ?_) fun hpc => ?_
        · exact ⟨_, res, entry_updated hpc hreaders⟩
        · rw [entry_kept hpc hreaders]
      rw [hsrc']
      exact holding_step ih hsrc hfeeds
    · have hother : ∀ read, s.barrierStep s'.readers a ≠ .source i read := by
        intro read
        cases a with
        | source j res detected =>
          simp only [barrierStep]
          rintro ⟨rfl⟩
          exact hown ⟨res, detected, rfl⟩
        | _ => simp [barrierStep]
      have hsame : s'.readers i = s.readers i := by
        cases a with
        | source j res detected =>
          have hij : i ≠ j := fun hij => hown ⟨res, detected, by rw [hij]⟩
          exact entry_other hij hreaders
        | _ => rw [← Option.some.inj hreaders]
      have hpc := Barrier.pc_keeps hbarrier hother
      rw [IntakeEvent.filterMap_other hother, List.append_nil, hsame]
      exact ih.keep (congrArg _ hpc) hpc.symm.trans (Barrier.exitFlag_keeps hbarrier i)

/-- **From the connections to the objects.** Unless a read goes over the end of a frame, each
source adds the frames that its peer has sent, each one once and in order, to objects in the
order of their names; without an exit flag it leaves none out. -/
theorem objects_get_stream (hinj : Function.Injective names) (h : Taken C names n es s) {i : Nat}
    (hi : i < n) (haligned : Aligned (C.dataLen i) (es.filterMap (IntakeEvent.got i))) :
    let whole := ((C.frames i).take
      ((es.filterMap (IntakeEvent.got i)).sum / frameLen (C.dataLen i))).map
        fun f => (f.id, f.data)
    es.filterMap (IntakeEvent.frame i) <+: whole ∧
      ((s.barrier.srcs i).exitFlag = false →
        es.filterMap (IntakeEvent.frame i) ++ inHand (s.barrier.srcs i) (s.readers i).frame =
          whole) ∧
      ∃ ks : List Nat, es.filterMap (IntakeEvent.object i) = ks.map names ∧
        ks.Pairwise (· ≤ ·) := by
  intro whole
  have hdelivered : (s.readers i).delivered = whole := by
    rcases outcome_of_trace (C.header_length i) (C.packet_length i) (C.fits i)
      (reader_of_taken h i) with ⟨-, j, off, hsum, hgood⟩ | ⟨hnot, -, -⟩
    · exact hgood.delivered_frames hsum
    · exact absurd haligned hnot
  obtain ⟨ks, hks, hsorted, -⟩ := objects_of_run hinj (barrier_of_taken h) hi
  obtain ⟨honce, hall⟩ := (holding_of_taken h hi).added
  rw [hdelivered] at honce hall
  exact ⟨honce, hall, ks, (IntakeEvent.filterMap_object es).trans hks, hsorted⟩

/-- One source, whose peer sends two frames. -/
def oneSource : Input where
  dataLen _ := 2
  frames _ := twoFrames
  header _ := List.replicate 12 0
  packet _ := [0, 0]
  header_length _ := rfl
  packet_length _ := rfl
  fits _ := by decide

/-- The first frame comes in two reads and begins the first object. -/
def firstFrame : List IntakeAction :=
  List.replicate 5 .firstAction ++ List.replicate 5 .collector ++
    [.source 0 .none false, .source 0 .none false, .source 0 (.bytes 12) false,
     .source 0 .none false, .source 0 (.bytes 2) false, .source 0 .none false,
     .source 0 .none false] ++
    List.replicate 6 .collector ++ List.replicate 5 .firstAction ++
    List.replicate 5 .collector ++ List.replicate 3 (.source 0 .none false)

theorem firstFrame_runs :
    ((intake oneSource Barrier.countedNames 1).run firstFrame
      (initial oneSource Barrier.countedNames)).isSome = true := by
  decide

theorem aligned_firstFrame : Aligned 2 [12, 2] := by
  intro k hk
  have hle : k ≤ 1 := by
    simp [frameLen, headerLen] at hk
    omega
  rcases Nat.le_one_iff_eq_zero_or_eq_one.mp hle with rfl | rfl
  · exact ⟨[], List.nil_prefix, by simp⟩
  · exact ⟨[12, 2], List.prefix_rfl, rfl⟩

theorem objects_get_stream_firstFrame : ∃ es s, Taken oneSource Barrier.countedNames 1 es s ∧
    es.filterMap (IntakeEvent.frame 0) = [(1, [10, 11])] ∧
    es.filterMap (IntakeEvent.frame 0) ++ inHand (s.barrier.srcs 0) (s.readers 0).frame =
      (twoFrames.take 1).map fun f => (f.id, f.data) := by
  have hrun : Taken oneSource Barrier.countedNames 1 _ _ :=
    trace_of_isSome (fun _ _ => trivial) firstFrame_runs
  have hread : (((intake oneSource Barrier.countedNames 1).run firstFrame
      (initial oneSource Barrier.countedNames)).get firstFrame_runs).1.filterMap
        (IntakeEvent.got 0) = [12, 2] := by decide
  have hall := (objects_get_stream Barrier.countedNames_injective hrun Nat.zero_lt_one
    (hread ▸ aligned_firstFrame)).2.1 (by decide)
  rw [hread] at hall
  exact ⟨_, _, hrun, by decide, hall⟩

end Intake

end DclProcessor.Collector
