import DclProcessor.Collector.Ending
import DclProcessor.Collector.Segmentation

/-!
The frames that a source gets and the frames that it adds. `new_frame_action` is called with
one frame at a time and adds it to the object of the moment, or drops it when the source has
been told to exit.
-/

namespace DclProcessor.Collector

open Transition

/-- What `add_frame_callback` is given of a frame: its id and its data. -/
abbrev FrameData := BitVec 32 × List UInt8

/-- `read`: a source has read something; `added`: `add_frame_callback` was called with a
frame. -/
inductive IntakeEvent (ρ : Type)
  | read (i : Nat) (got : ρ)
  | added (i boundaries : Nat) (name : String) (frame : FrameData)
  | taken (name : String)

/-- The object that source `j` adds a frame to. -/
def BarrierEvent.object (j : Nat) : BarrierEvent → Option String
  | .added i _ name => if i = j then some name else none
  | .taken _ => none

namespace IntakeEvent

variable {ρ : Type}

/-- The events of the barrier, with the frame that source `i` adds. -/
def ofBarrier (frame : Nat → FrameData) : BarrierEvent → IntakeEvent ρ
  | .added i boundaries name => .added i boundaries name (frame i)
  | .taken name => .taken name

/-- The events of the barrier. -/
def barrier : IntakeEvent ρ → Option BarrierEvent
  | .read _ _ => none
  | .added i boundaries name _ => some (.added i boundaries name)
  | .taken name => some (.taken name)

/-- What source `j` has read. -/
def got (j : Nat) : IntakeEvent ρ → Option ρ
  | .read i x => if i = j then some x else none
  | _ => none

/-- The frames that source `j` has added. -/
def frame (j : Nat) : IntakeEvent ρ → Option FrameData
  | .added i _ _ f => if i = j then some f else none
  | _ => none

/-- The objects that source `j` has added frames to. -/
def object (j : Nat) (e : IntakeEvent ρ) : Option String := e.barrier.bind (BarrierEvent.object j)

section Project

variable {frame' : Nat → FrameData} {fs : List BarrierEvent} {i j : Nat} {b : Barrier} {a : Step}

theorem filterMap_barrier (fs : List BarrierEvent) :
    (fs.map (ofBarrier (ρ := ρ) frame')).filterMap barrier = fs := by
  rw [List.filterMap_map]
  induction fs with
  | nil => rfl
  | cons e fs ih => cases e <;> simp [ofBarrier, barrier, ih]

theorem filterMap_got (fs : List BarrierEvent) :
    (fs.map (ofBarrier (ρ := ρ) frame')).filterMap (got j) = [] := by
  rw [List.filterMap_map, List.filterMap_eq_nil_iff]
  intro e _
  cases e <;> rfl

theorem filterMap_object (es : List (IntakeEvent ρ)) :
    es.filterMap (object j) = (es.filterMap barrier).filterMap (BarrierEvent.object j) := by
  rw [List.filterMap_filterMap]
  rfl

/-- The frame that a source adds in its own step. -/
theorem filterMap_own (read : Read) :
    ((b.events (.source i read)).map (ofBarrier (ρ := ρ) frame')).filterMap (frame i) =
      if (b.srcs i).pc = .addFrame then [frame' i] else [] := by
  simp only [Barrier.events]
  split <;> simp [ofBarrier, frame]

/-- In the steps of the others it adds none. -/
theorem filterMap_other (ha : ∀ read, a ≠ .source i read) :
    ((b.events a).map (ofBarrier (ρ := ρ) frame')).filterMap (frame i) = [] := by
  cases a with
  | source j read =>
    have hij : j ≠ i := fun hij => ha read (by rw [hij])
    simp only [Barrier.events]
    split <;> simp [ofBarrier, frame, hij]
  | firstAction =>
    simp only [Barrier.events]
    split <;> simp [ofBarrier, frame]
  | _ => simp [Barrier.events]

end Project

end IntakeEvent

/-! ## One entry of a table

A step of source `j` changes the entry of `j` only, and only where `c` holds.
-/

section Entry

variable {α : Type} {f g : Nat → α} {c : Prop} [Decidable c] {r : Option α} {i j : Nat}

theorem entry_updated (hc : c) (h : (if c then r.map (Function.update f j) else some f) = some g) :
    r = some (g j) := by
  rw [if_pos hc] at h
  obtain ⟨x, hx, rfl⟩ := Option.map_eq_some_iff.mp h
  rw [hx, Function.update_self]

theorem entry_kept (hc : ¬ c) (h : (if c then r.map (Function.update f j) else some f) = some g) :
    g = f := by
  rw [if_neg hc] at h
  exact (Option.some.inj h).symm

theorem entry_other (hij : i ≠ j)
    (h : (if c then r.map (Function.update f j) else some f) = some g) : g i = f i := by
  by_cases hc : c
  · rw [if_pos hc] at h
    obtain ⟨x, -, rfl⟩ := Option.map_eq_some_iff.mp h
    exact Function.update_of_ne hij ..
  · rw [entry_kept hc h]

end Entry

/-! ## The frames of a source -/

/-- The frame that `new_frame_action` is at. -/
def inHand (src : Source) (hand : FrameData) : List FrameData :=
  if src.pc.pending = 1 then [hand] else []

/-- Of the frames that were whole all have been added but the one in hand; a source that was
told to exit may have dropped the last. -/
def Holding (src : Source) (hand : FrameData) (whole adds : List FrameData) : Prop :=
  adds ++ inHand src hand = whole ∨
    src.exitFlag = true ∧ src.pc ≠ .addFrame ∧ adds <+: whole

/-- What is read while the source makes a step. -/
def Feeds (src : Source) (hand hand' : FrameData) (whole whole' : List FrameData) (read : Read) :
    Prop :=
  if src.pc = .reading then
    (∃ detected, whole' = whole ++ [hand'] ∧ read = .frame detected) ∨
      whole' = whole ∧ (read = .error ∨ read = .incomplete)
  else hand' = hand ∧ whole' = whole

section Step

variable {src src' : Source} {hand hand' : FrameData} {whole whole' adds : List FrameData}
  {read : Read}

theorem Feeds.grows (h : Feeds src hand hand' whole whole' read) : whole <+: whole' := by
  unfold Feeds at h
  split at h
  · rcases h with ⟨-, rfl, -⟩ | ⟨rfl, -⟩
    · exact List.prefix_append ..
    · exact List.prefix_rfl
  · exact h.2 ▸ List.prefix_rfl

/-- A frame is added only after a look at the exit flag. -/
theorem addFrame_of_step (hs : src.step read = some src') (hadd : src'.pc = .addFrame) :
    src.pc = .testAdd ∧ src.exitFlag = false := by
  cases hpc : src.pc <;> simp only [Source.step, hpc] at hs
  all_goals
    (repeat' split at hs) <;> cases hs <;> simp_all

theorem holding_step (h : Holding src hand whole adds) (hs : src.step read = some src')
    (hfeeds : Feeds src hand hand' whole whole' read) :
    Holding src' hand' whole' (adds ++ if src.pc = .addFrame then [hand] else []) := by
  rcases h with hall | ⟨hexit, hno, hdropped⟩
  · unfold Feeds at hfeeds
    cases hpc : src.pc <;> simp only [hpc, reduceCtorEq, if_true, if_false] at hfeeds ⊢
    case reading =>
      have hsame : adds = whole := by simpa [inHand, hpc, SourcePc.pending] using hall
      rw [List.append_nil, hsame]
      simp only [Source.step, hpc] at hs
      rcases hfeeds with ⟨detected, hnew, rfl⟩ | ⟨hsame', rfl | rfl⟩
      · -- a frame is in hand, at a boundary or not
        simp only at hs
        split at hs <;> cases hs <;> exact Or.inl (by simp [inHand, SourcePc.pending, hnew])
      · cases hs
        exact Or.inl (by simp [inHand, SourcePc.pending, hsame'])
      · cases hs
        exact Or.inl (by simp [inHand, SourcePc.pending, hsame'])
    case testAdd =>
      obtain ⟨rfl, rfl⟩ := hfeeds
      simp only [Source.step, hpc] at hs
      have hin : adds ++ [hand'] = whole' := by simpa [inHand, hpc, SourcePc.pending] using hall
      rw [List.append_nil]
      split at hs
      · next hexit =>
        cases hs
        exact Or.inr ⟨hexit, by simp, ⟨_, hin⟩⟩
      · cases hs
        exact Or.inl (by simp [inHand, SourcePc.pending, hin])
    case addFrame =>
      obtain ⟨rfl, rfl⟩ := hfeeds
      simp only [Source.step, hpc] at hs
      cases hs
      exact Or.inl (by simpa [inHand, hpc, SourcePc.pending] using hall)
    all_goals
      obtain ⟨rfl, rfl⟩ := hfeeds
      simp only [Source.step, hpc] at hs
      rw [List.append_nil]
      refine Or.inl ?_
      rw [← hall]
      simp only [inHand, hpc, SourcePc.pending]
      (repeat' split at hs) <;> cases hs <;> simp
  · refine Or.inr ⟨Barrier.exitFlag_of_step hs hexit, fun hadd => ?_, ?_⟩
    · rw [(addFrame_of_step hs hadd).2] at hexit
      cases hexit
    · rw [if_neg hno, List.append_nil]
      exact hdropped.trans hfeeds.grows

/-- A step of the others, which leave a source where it is. -/
theorem Holding.keep (h : Holding src hand whole adds) (hpending : src'.pc.pending = src.pc.pending)
    (hadd : src'.pc = .addFrame → src.pc = .addFrame)
    (hexit : src.exitFlag = true → src'.exitFlag = true) : Holding src' hand whole adds := by
  rcases h with hall | ⟨hflag, hno, hdropped⟩
  · exact Or.inl (by rwa [inHand, hpending])
  · exact Or.inr ⟨hexit hflag, fun hadd' => hno (hadd hadd'), hdropped⟩

/-- What has been added, where all that was whole is known. -/
theorem Holding.added (h : Holding src hand whole adds) : adds <+: whole ∧
    (src.exitFlag = false → adds ++ inHand src hand = whole) := by
  rcases h with hall | ⟨hexit, -, hdropped⟩
  · exact ⟨⟨_, hall⟩, fun _ => hall⟩
  · exact ⟨hdropped, fun hno => absurd (hexit.symm.trans hno) (by decide)⟩

end Step

/-! ## The objects of a source -/

section Objects

variable {names : Nat → String} {n : Nat} {b b' : Barrier} {fs : List BarrierEvent} {a : Step}
  {i : Nat}

theorem generated_le (hs : b.step names n a = some b') : b.generated ≤ b'.generated := by
  cases a with
  | source i read =>
    simp only [Barrier.step, Option.ite_none_right_eq_some, Option.map_eq_some_iff] at hs
    obtain ⟨-, src, -, rfl⟩ := hs
    exact Nat.le_refl _
  | collector => exact Nat.le_of_eq (Barrier.collectorStep_frame hs).2.1.symm
  | firstAction =>
    simp only [Barrier.step] at hs
    cases hf : b.first <;> simp only [Barrier.firstStep, hf] at hs
    all_goals
      (repeat' split at hs) <;> cases hs <;> simp
  | raiseSource | raiseCollector =>
    cases hs
    exact Nat.le_refl _

/-- A source that adds a frame adds it to the object of the last name. -/
theorem adding_name (hsound : b.Sound n) (hnamed : b.Named names n fs) (hi : i < n)
    (hadd : (b.srcs i).pc = .addFrame) : (b.srcs i).data = names b.generated := by
  have hphase : (b.srcs i).phase = .writing := by rw [Source.phase, hadd]
  have hpermit := hsound.permit i hi
  rw [Source.Permit, hphase] at hpermit
  exact hnamed.source i hi (by simp [hphase]) hpermit.2.2

/-- What source `i` adds a frame to in a step, if it does. -/
theorem events_object (b : Barrier) (a : Step) (i : Nat) :
    (b.events a).filterMap (BarrierEvent.object i) = [] ∨
      (b.srcs i).pc = .addFrame ∧
        (b.events a).filterMap (BarrierEvent.object i) = [(b.srcs i).data] := by
  cases a with
  | source j read =>
    simp only [Barrier.events]
    split
    · next hadd =>
      by_cases hij : j = i
      · subst hij
        exact Or.inr ⟨hadd, by simp [BarrierEvent.object]⟩
      · exact Or.inl (by simp [BarrierEvent.object, hij])
    · exact Or.inl rfl
  | firstAction =>
    simp only [Barrier.events]
    split <;> exact Or.inl rfl
  | _ => exact Or.inl rfl

/-- A source goes from object to object in the order of the names. -/
theorem objects_of_run (hinj : Function.Injective names)
    (h : Trace (barrier names n) (fun _ => True) (.initial names) fs b) (hi : i < n) :
    ∃ ks : List Nat, fs.filterMap (BarrierEvent.object i) = ks.map names ∧
      ks.Pairwise (· ≤ ·) ∧ ∀ k ∈ ks, k ≤ b.generated := by
  induction h with
  | start => exact ⟨[], rfl, .nil, by simp⟩
  | @next fs b b' a htrace _ hs ih =>
    obtain ⟨hsound, hnamed, -⟩ := Barrier.invariants_of_run hinj htrace
    obtain ⟨ks, hks, hsorted, hbound⟩ := ih
    have hle := generated_le hs
    rw [List.filterMap_append, show (barrier names n).emit b a = b.events a from rfl]
    rcases events_object b a i with hnone | ⟨hadd, hone⟩
    · rw [hnone, List.append_nil]
      exact ⟨ks, hks, hsorted, fun k hk => Nat.le_trans (hbound k hk) hle⟩
    · refine ⟨ks ++ [b.generated], ?_, ?_, ?_⟩
      · rw [hone, hks, adding_name hsound hnamed hi hadd]
        simp
      · refine List.pairwise_append.mpr ⟨hsorted, List.pairwise_singleton .., ?_⟩
        intro k hk l hl
        rw [List.mem_singleton.mp hl]
        exact hbound k hk
      · intro k hk
        rcases List.mem_append.mp hk with hk | hk
        · exact Nat.le_trans (hbound k hk) hle
        · rw [List.mem_singleton.mp hk]
          exact hle

end Objects

end DclProcessor.Collector
