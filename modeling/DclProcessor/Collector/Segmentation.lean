import DclProcessor.Collector.Objects

/-!
How many frames an object gets from each source, for any limit of frames. The barrier is the
one of the limit that `source_init` sets; what it does does not hang on the counts of frames
but through the boundaries that the sources come to.
-/

namespace DclProcessor.Collector

open Transition

/-- `Source.step` with `object_detection_frame_limit`. -/
def Source.stepLimit (limit : Nat) (src : Source) (read : Read) : Option Source :=
  match src.pc, read with
  | .reading, .frame detected =>
    if detected ∨ src.framesInObject % limit = 0 then
      some { src with framesInObject := 0, pc := .postBoundary }
    else some { src with pc := .testAdd }
  | _, _ => src.step read

/-- `new_frame_action` is called. -/
def Source.captures (src : Source) (read : Read) : Nat :=
  match src.pc, read with
  | .reading, .frame _ => 1
  | _, _ => 0

/-- A frame that was captured and not added yet. -/
def SourcePc.pending : SourcePc → Nat
  | .postBoundary | .testExit | .waitEmpty | .testAdd | .addFrame => 1
  | _ => 0

/-- The barrier, and how many frames every source has captured. -/
structure Capture where
  barrier : Barrier
  captured : Nat → Nat

namespace Capture

variable (names : Nat → String) (n limit : Nat)

def step (s : Capture) : Step → Option Capture
  | .source i read =>
    if i < n then ((s.barrier.srcs i).stepLimit limit read).map fun src =>
      { barrier := s.barrier.setSource i src
        captured := fun j =>
          if j = i then s.captured i + (s.barrier.srcs i).captures read else s.captured j }
    else none
  | a => (s.barrier.step names n a).map fun barrier => { s with barrier }

def initial : Capture := ⟨.initial names, fun _ => 0⟩

end Capture

/-- `n` sources with a limit of frames. -/
def capturing (names : Nat → String) (n limit : Nat) : System Capture Step BarrierEvent where
  step := Capture.step names n limit
  emit s a := s.barrier.events a

/-- `add_frame_callback` of source `i`. -/
def BarrierEvent.adds (i : Nat) : BarrierEvent → Bool
  | .added j _ _ => j = i
  | .taken _ => false

def BarrierEvent.addsTo (i : Nat) (name : String) : BarrierEvent → Bool
  | .added j _ name' => j = i ∧ name' = name
  | .taken _ => false

/-- Frames that source `i` adds between two boundaries. -/
def BarrierEvent.addsAt (i boundaries : Nat) : BarrierEvent → Bool
  | .added j b _ => j = i ∧ b = boundaries
  | .taken _ => false

/-- An object with a name has frames of all sources when it is handed over, and never more
than the limit; and of the captured frames all are added but the one that is pending. -/
structure Segmented (n limit : Nat) (es : List BarrierEvent) (s : Capture) : Prop where
  handed : ∀ pre name post, es = pre ++ .taken name :: post → name ≠ "" →
    ∀ i < n, 1 ≤ pre.countP (BarrierEvent.addsTo i name) ∧
      es.countP (BarrierEvent.addsTo i name) ≤ limit
  once : ∀ i < n, es.countP (BarrierEvent.adds i) + (s.barrier.srcs i).pc.pending = s.captured i

/-- No call of `first_action` hands over the first name that was generated, the one that the
sources start with. -/
def KeepsFirst (n : Nat) (s : Capture) (a : Step) : Prop :=
  match a with
  | .firstAction => s.barrier.first = .take → n = 0 ∨ s.barrier.generated ≠ 1
  | _ => True

variable {names : Nat → String} {n limit : Nat} {src src' : Source} {read : Read}

@[simp] theorem stepLimit_objectDetectionFrameLimit :
    src.stepLimit objectDetectionFrameLimit read = src.step read := by
  unfold Source.stepLimit
  split
  case h_1 detected hpc => simp only [Source.step, hpc]
  case h_2 => rfl

/-- A step for any limit is one of the barrier, from some count of frames. -/
theorem step_of_stepLimit (h : src.stepLimit limit read = some src') :
    ∃ frames read' src'', ({ src with framesInObject := frames } : Source).step read' = some src'' ∧
      src' = { src'' with framesInObject := src'.framesInObject } := by
  unfold Source.stepLimit at h
  split at h
  case h_2 => exact ⟨src.framesInObject, _, src', h, rfl⟩
  case h_1 detected hpc =>
    split at h
    · obtain rfl := Option.some.inj h
      exact ⟨0, .frame true, _, by simp [Source.step, hpc]; rfl, rfl⟩
    · obtain rfl := Option.some.inj h
      exact ⟨1, .frame false, _, by simp [Source.step, hpc, objectDetectionFrameLimit]; rfl, rfl⟩

/-! ## Frames between two boundaries -/

/-- Frames that the step adds. -/
def SourcePc.adding : SourcePc → Nat
  | .addFrame => 1
  | _ => 0

/-- `frames_in_object` against the frames `a` that were added since the last boundary. -/
def InRound (limit : Nat) (src : Source) (a : Nat) : Prop :=
  match src.pc with
  | .waitStart | .loop | .reading => a = src.framesInObject ∧ (1 ≤ src.boundaries → 1 ≤ a)
  | .postBoundary => src.framesInObject = 0 ∧ (1 ≤ src.boundaries → 1 ≤ a)
  | .testExit | .waitEmpty => src.framesInObject = 0 ∧ a = 0 ∧ 1 ≤ src.boundaries
  | .testAdd | .addFrame => a = src.framesInObject ∧ a < limit ∧ 1 ≤ src.boundaries
  | .postEnd | .ended => False

theorem flag_stepLimit (h : src.stepLimit limit read = some src')
    (hexit : src'.exitFlag = false) : src.exitFlag = false := by
  obtain ⟨frames, read', src'', hstep, hsame⟩ := step_of_stepLimit h
  have hexit'' : src''.exitFlag = false := by rw [hsame] at hexit; exact hexit
  have hflag : ({ src with framesInObject := frames } : Source).exitFlag = false :=
    flag_step hstep hexit''
  exact hflag

/-- A captured frame is added before the next one is captured. -/
theorem pending_stepLimit (h : src.stepLimit limit read = some src')
    (hexit : src'.exitFlag = false) :
    src.pc.adding + src'.pc.pending = src.pc.pending + src.captures read := by
  have hflag := flag_stepLimit h hexit
  cases hpc : src.pc <;>
    simp only [Source.stepLimit, Source.step, Source.captures, hpc] at h ⊢
  case reading => cases read <;> grind [SourcePc.adding, SourcePc.pending]
  all_goals grind [SourcePc.adding, SourcePc.pending]

/-- The frame that no boundary comes before is one of fewer than the limit. -/
theorem inRound_frame {detected : Bool} {a : Nat} (hpc : src.pc = .reading)
    (h : src.stepLimit limit (.frame detected) = some src') (hround : InRound limit src a)
    (ha : a ≤ limit) (hnone : src.boundaries = 0 → a = 0) :
    src'.boundaries = src.boundaries ∧ InRound limit src' a := by
  simp only [InRound, hpc] at hround
  obtain ⟨rfl, hgrown⟩ := hround
  simp only [Source.stepLimit, hpc] at h
  split at h
  case isTrue =>
    obtain rfl := Option.some.inj h
    exact ⟨rfl, rfl, hgrown⟩
  case isFalse hnot =>
    obtain rfl := Option.some.inj h
    obtain ⟨-, hmod⟩ := not_or.mp hnot
    have hlimit : src.framesInObject ≠ limit := fun heq => hmod (by rw [heq, Nat.mod_self])
    have hzero : src.framesInObject ≠ 0 := fun heq => hmod (by rw [heq, Nat.zero_mod])
    have hboundary : src.boundaries ≠ 0 := fun heq => hzero (hnone heq)
    exact ⟨rfl, rfl, by omega, by simp only; omega⟩

theorem inRound_stepLimit (hlimit : 1 ≤ limit) {a : Nat}
    (h : src.stepLimit limit read = some src') (hexit : src'.exitFlag = false)
    (hround : InRound limit src a) (ha : a ≤ limit) (hnone : src.boundaries = 0 → a = 0)
    (hboundary : src.pc ≠ .postBoundary) :
    src'.boundaries = src.boundaries ∧ InRound limit src' (a + src.pc.adding) ∧
      a + src.pc.adding ≤ limit := by
  have hflag := flag_stepLimit h hexit
  by_cases hframe : src.pc = .reading ∧ ∃ detected, read = .frame detected
  · obtain ⟨hpc, detected, rfl⟩ := hframe
    obtain ⟨hsame, hround'⟩ := inRound_frame hpc h hround ha hnone
    rw [hpc]
    exact ⟨hsame, hround', ha⟩
  · cases hpc : src.pc <;> simp only [Source.stepLimit, Source.step, hpc] at h <;>
      simp only [InRound, hpc, SourcePc.adding] at hround ⊢
    case reading => cases read <;> grind
    all_goals grind

/-- No frame is added before the first boundary. -/
theorem InRound.adding_eq_zero {a : Nat} (h : InRound limit src a) (hzero : src.boundaries = 0) :
    src.pc.adding = 0 := by
  cases hpc : src.pc <;> simp only [InRound, hpc] at h <;> first | rfl | omega

/-- Behind a boundary no frame was added yet. -/
theorem inRound_boundary {a : Nat} (hpc : src.pc = .postBoundary)
    (h : src.stepLimit limit read = some src') (hround : InRound limit src a) :
    src'.boundaries = src.boundaries + 1 ∧ InRound limit src' 0 ∧ (1 ≤ src.boundaries → 1 ≤ a) := by
  simp only [InRound, hpc] at hround
  simp only [Source.stepLimit, Source.step, hpc] at h
  obtain rfl := Option.some.inj h
  exact ⟨rfl, ⟨hround.1, rfl, Nat.succ_pos _⟩, hround.2⟩

namespace Barrier

variable {es : List BarrierEvent} {s : Barrier}

/-- The count of frames of one source is another one. -/
def reframe (s : Barrier) (i frames : Nat) : Barrier :=
  s.setSource i { s.srcs i with framesInObject := frames }

theorem Counted.reframe (h : s.Counted names n es) (i frames : Nat) :
    (s.reframe i frames).Counted names n es := by
  refine ⟨fun j hj hholds => ?_, fun j hj hholds => ?_, h.added⟩
  · have hheld := h.held j hj hholds
    rw [Barrier.reframe, setSource_srcs]
    split
    case isTrue hji => exact hji ▸ hheld
    case isFalse => exact hheld
  · have hgiven := h.given j hj hholds
    rw [Barrier.reframe, setSource_srcs]
    split
    case isTrue hji => exact hji ▸ hgiven
    case isFalse => exact hgiven

/-- What is known of a run of the barrier says nothing about the counts of frames. -/
structure Known (names : Nat → String) (n : Nat) (es : List BarrierEvent) (s : Barrier) :
    Prop where
  sound : s.Sound n
  named : s.Named names n es
  counted : s.Quiet n → s.Counted names n es

theorem Known.reframe (h : s.Known names n es) (i frames : Nat) :
    (s.reframe i frames).Known names n es where
  sound := h.sound.setSource (fun _ hpermit => hpermit) id
  named := h.named.setSource rfl id
  counted hquiet := (h.counted (hquiet.of_setSource id)).reframe i frames

theorem Known.step (hinj : Function.Injective names) (h : s.Known names n es) {a : Step}
    {s' : Barrier} (hs : s.step names n a = some s') : s'.Known names n (es ++ s.events a) where
  sound := sound_step h.sound a hs
  named := named_step hinj h.sound h.named a hs
  counted hquiet := counted_step h.sound h.named hquiet (h.counted (quiet_of_step hs hquiet)) hs

end Barrier

namespace Capture

open Barrier

variable {es : List BarrierEvent} {s s' : Capture}

/-- The steps that no source takes are those of the barrier. -/
theorem step_other {a : Step} (ha : ∀ i read, a ≠ .source i read)
    (hs : s.step names n limit a = some s') :
    ∃ barrier, s.barrier.step names n a = some barrier ∧ s' = { s with barrier } := by
  cases a with
  | source i read => exact absurd rfl (ha i read)
  | collector | firstAction | raiseSource i | raiseCollector =>
    simp only [Capture.step] at hs
    obtain ⟨barrier, hbarrier, rfl⟩ := Option.map_eq_some_iff.mp hs
    exact ⟨barrier, hbarrier, rfl⟩

theorem known_step (hinj : Function.Injective names) (h : s.barrier.Known names n es) {a : Step}
    (hs : s.step names n limit a = some s') :
    s'.barrier.Known names n (es ++ s.barrier.events a) := by
  cases a with
  | source i read =>
    simp only [step, Option.ite_none_right_eq_some, Option.map_eq_some_iff] at hs
    obtain ⟨hi, src, hsrc, rfl⟩ := hs
    obtain ⟨frames, read', src', hstep, hsame⟩ := step_of_stepLimit hsrc
    have hbarrier : (s.barrier.reframe i frames).step names n (.source i read') =
        some ((s.barrier.reframe i frames).setSource i src') := by
      simp only [Barrier.step, if_pos hi, reframe, setSource_srcs, if_true, hstep, Option.map_some]
    have hknown := ((h.reframe i frames).step hinj hbarrier).reframe i src.framesInObject
    have hback : ((s.barrier.reframe i frames).setSource i src').reframe i src.framesInObject =
        s.barrier.setSource i src := by
      rw [reframe, setSource_srcs, if_pos rfl, ← hsame]
      simp only [reframe, setSource, Function.update_idem]
    have hevents : (s.barrier.reframe i frames).events (.source i read') =
        s.barrier.events (.source i read) := by
      simp only [events, reframe, setSource_srcs, if_true]
    rwa [hback, hevents] at hknown
  | collector | firstAction | raiseSource i | raiseCollector =>
    obtain ⟨barrier, hbarrier, rfl⟩ := step_other (by simp) hs
    exact h.step hinj hbarrier

theorem known_of_trace (hinj : Function.Injective names)
    (h : Trace (capturing names n limit) (fun _ => True) (initial names) es s) :
    s.barrier.Known names n es := by
  refine invariant (P := fun es s => s.barrier.Known names n es)
    ⟨sound_initial names n, named_initial, fun _ => counted_initial⟩ ?_ h
  intro es s a s' hknown _ hs
  exact known_step hinj hknown hs

/-- What the frames of source `i` have come to. -/
structure Framed (limit : Nat) (es : List BarrierEvent) (s : Capture) (i : Nat) : Prop where
  past : ∀ b, 1 ≤ b → b < (s.barrier.srcs i).boundaries →
    1 ≤ es.countP (BarrierEvent.addsAt i b)
  bounded : ∀ b, es.countP (BarrierEvent.addsAt i b) ≤ limit
  later : ∀ b, (s.barrier.srcs i).boundaries < b → es.countP (BarrierEvent.addsAt i b) = 0
  none : es.countP (BarrierEvent.addsAt i 0) = 0
  here : InRound limit (s.barrier.srcs i)
    (es.countP (BarrierEvent.addsAt i (s.barrier.srcs i).boundaries))
  once : es.countP (BarrierEvent.adds i) + (s.barrier.srcs i).pc.pending = s.captured i

theorem framed_initial (i : Nat) : Framed limit [] (initial names) i where
  past b _ hb := absurd hb (Nat.not_lt_zero b)
  bounded _ := Nat.zero_le _
  later _ _ := rfl
  none := rfl
  here := ⟨rfl, fun h => absurd h (Nat.not_succ_le_zero 0)⟩
  once := rfl

theorem addsAt_le (es : List BarrierEvent) (i b : Nat) :
    es.countP (BarrierEvent.addsAt i b) ≤ es.countP (BarrierEvent.adds i) := by
  refine List.countP_mono_left fun e _ he => ?_
  cases e with
  | taken name => exact he
  | added j b' name =>
    simp only [BarrierEvent.addsAt, BarrierEvent.adds, decide_eq_true_eq] at he ⊢
    exact he.1

/-- A step that is not one of source `i`. -/
theorem Framed.frame {i : Nat} {fs : List BarrierEvent} (h : Framed limit es s i)
    (hpc : (s'.barrier.srcs i).pc = (s.barrier.srcs i).pc)
    (hframes : (s'.barrier.srcs i).framesInObject = (s.barrier.srcs i).framesInObject)
    (hboundaries : (s'.barrier.srcs i).boundaries = (s.barrier.srcs i).boundaries)
    (hcaptured : s'.captured i = s.captured i) (hadds : fs.countP (BarrierEvent.adds i) = 0) :
    Framed limit (es ++ fs) s' i := by
  have hat (b : Nat) : (es ++ fs).countP (BarrierEvent.addsAt i b) =
      es.countP (BarrierEvent.addsAt i b) := by
    have hle := addsAt_le fs i b
    rw [List.countP_append]
    omega
  constructor
  · intro b hb hlt
    rw [hat]
    exact h.past b hb (hboundaries ▸ hlt)
  · intro b
    rw [hat]
    exact h.bounded b
  · intro b hlt
    rw [hat]
    exact h.later b (hboundaries ▸ hlt)
  · rw [hat]
    exact h.none
  · rw [hat, hboundaries]
    simpa only [InRound, hpc, hframes, hboundaries] using h.here
  · rw [List.countP_append, hadds, hpc, hcaptured, Nat.add_zero]
    exact h.once

theorem source_events (s : Barrier) (i : Nat) (read : Read) :
    (s.events (.source i read)).countP (BarrierEvent.adds i) = (s.srcs i).pc.adding ∧
      ∀ b, (s.events (.source i read)).countP (BarrierEvent.addsAt i b) =
        if b = (s.srcs i).boundaries then (s.srcs i).pc.adding else 0 := by
  rw [events]
  split
  case isTrue hpc =>
    rw [hpc]
    refine ⟨by simp [BarrierEvent.adds, SourcePc.adding], fun b => ?_⟩
    by_cases hb : b = (s.srcs i).boundaries
    · simp [BarrierEvent.addsAt, SourcePc.adding, hb]
    · simp [BarrierEvent.addsAt, hb, Ne.symm hb]
  case isFalse hpc =>
    have hnone : (s.srcs i).pc.adding = 0 := by
      cases hpc' : (s.srcs i).pc <;> first | rfl | exact absurd hpc' hpc
    simp [hnone]

section Source

variable {i : Nat} (h : Framed limit es s i)
    (hsrc : (s.barrier.srcs i).stepLimit limit read = some src) (hexit : src.exitFlag = false)
    (hsrc' : s'.barrier.srcs i = src)
    (hcaptured : s'.captured i = s.captured i + (s.barrier.srcs i).captures read)

include h hsrc hexit hsrc' hcaptured

theorem once_source : (es ++ s.barrier.events (.source i read)).countP (BarrierEvent.adds i) +
    (s'.barrier.srcs i).pc.pending = s'.captured i := by
  have hpending := pending_stepLimit hsrc hexit
  have hold := h.once
  rw [List.countP_append, (source_events s.barrier i read).1, hcaptured, hsrc']
  omega

/-- A step that ends the round of the source. -/
theorem Framed.boundary (hpc : (s.barrier.srcs i).pc = .postBoundary) :
    Framed limit (es ++ s.barrier.events (.source i read)) s' i := by
  obtain ⟨hnext, hround, hgrown⟩ := inRound_boundary hpc hsrc h.here
  have hat (b : Nat) : (es ++ s.barrier.events (.source i read)).countP
      (BarrierEvent.addsAt i b) = es.countP (BarrierEvent.addsAt i b) := by
    rw [List.countP_append, (source_events s.barrier i read).2, hpc]
    simp [SourcePc.adding]
  refine ⟨fun b hb hlt => ?_, fun b => ?_, fun b hlt => ?_, ?_, ?_,
    once_source h hsrc hexit hsrc' hcaptured⟩
  · rw [hat]
    rw [hsrc', hnext] at hlt
    by_cases hlast : b = (s.barrier.srcs i).boundaries
    · rw [hlast]
      exact hgrown (hlast ▸ hb)
    · exact h.past b hb (by omega)
  · rw [hat]
    exact h.bounded b
  · rw [hat]
    rw [hsrc', hnext] at hlt
    exact h.later b (by omega)
  · rw [hat]
    exact h.none
  · rw [hat, hsrc', hnext, h.later _ (Nat.lt_succ_self _)]
    exact hround

/-- A step within the round of the source. -/
theorem Framed.within (hlimit : 1 ≤ limit) (hpc : (s.barrier.srcs i).pc ≠ .postBoundary) :
    Framed limit (es ++ s.barrier.events (.source i read)) s' i := by
  have hnone : (s.barrier.srcs i).boundaries = 0 →
      es.countP (BarrierEvent.addsAt i (s.barrier.srcs i).boundaries) = 0 :=
    fun hzero => hzero ▸ h.none
  obtain ⟨hsame, hround, hbound⟩ :=
    inRound_stepLimit hlimit hsrc hexit h.here (h.bounded _) hnone hpc
  have hat (b : Nat) : (es ++ s.barrier.events (.source i read)).countP
      (BarrierEvent.addsAt i b) = es.countP (BarrierEvent.addsAt i b) +
        if b = (s.barrier.srcs i).boundaries then (s.barrier.srcs i).pc.adding else 0 := by
    rw [List.countP_append, (source_events s.barrier i read).2]
  refine ⟨fun b hb hlt => ?_, fun b => ?_, fun b hlt => ?_, ?_, ?_,
    once_source h hsrc hexit hsrc' hcaptured⟩
  · rw [hat]
    have hpast := h.past b hb (by rw [hsrc', hsame] at hlt; exact hlt)
    omega
  · rw [hat]
    split
    case isTrue hb => rw [hb]; exact hbound
    case isFalse => exact h.bounded b
  · rw [hsrc', hsame] at hlt
    rw [hat, h.later b hlt, if_neg (by omega)]
  · rw [hat, h.none, Nat.zero_add]
    split
    case isTrue hzero => exact h.here.adding_eq_zero hzero.symm
    case isFalse => rfl
  · rw [hat, hsrc', hsame, if_pos rfl]
    exact hround

/-- A step of source `i`. -/
theorem Framed.source (hlimit : 1 ≤ limit) :
    Framed limit (es ++ s.barrier.events (.source i read)) s' i := by
  by_cases hpc : (s.barrier.srcs i).pc = .postBoundary
  · exact h.boundary hsrc hexit hsrc' hcaptured hpc
  · exact h.within hsrc hexit hsrc' hcaptured hlimit hpc

end Source

/-- The steps of the others leave what a source has counted. -/
theorem rounds_of_step {b b' : Barrier} {a : Step} (ha : ∀ i read, a ≠ .source i read)
    (hs : b.step names n a = some b') (i : Nat) :
    (b'.srcs i).pc = (b.srcs i).pc ∧ (b'.srcs i).framesInObject = (b.srcs i).framesInObject ∧
      (b'.srcs i).boundaries = (b.srcs i).boundaries := by
  cases a with
  | source j read => exact absurd rfl (ha j read)
  | collector =>
    simp only [Barrier.step] at hs
    cases hpc : b.pc <;> simp only [collectorStep, hpc] at hs
    all_goals
      (repeat' split at hs) <;> cases hs <;> simp only [setSource_srcs] <;> grind
  | firstAction =>
    simp only [Barrier.step] at hs
    cases hf : b.first <;> simp only [firstStep, hf] at hs
    all_goals
      (repeat' split at hs) <;> cases hs <;> exact ⟨rfl, rfl, rfl⟩
  | raiseSource j =>
    cases hs
    simp only [setSource_srcs]
    grind
  | raiseCollector =>
    cases hs
    exact ⟨rfl, rfl, rfl⟩

theorem other_events (b : Barrier) {a : Step} {i : Nat} (ha : ∀ read, a ≠ .source i read) :
    (b.events a).countP (BarrierEvent.adds i) = 0 := by
  cases a with
  | source j read =>
    have hji : j ≠ i := fun heq => ha read (by rw [heq])
    rw [events]
    split <;> simp [BarrierEvent.adds, hji]
  | firstAction =>
    rw [events]
    split <;> simp [BarrierEvent.adds]
  | collector | raiseSource j | raiseCollector => rfl

theorem framed_step (hlimit : 1 ≤ limit) {i : Nat} {a : Step} (h : Framed limit es s i)
    (hs : s.step names n limit a = some s') (hexit : (s'.barrier.srcs i).exitFlag = false) :
    Framed limit (es ++ s.barrier.events a) s' i := by
  cases a with
  | source j read =>
    simp only [step, Option.ite_none_right_eq_some, Option.map_eq_some_iff] at hs
    obtain ⟨-, src, hsrc, rfl⟩ := hs
    by_cases hij : i = j
    · subst hij
      simp only [setSource_srcs, if_true] at hexit
      exact h.source hsrc hexit (by simp) (by simp) hlimit
    · refine h.frame ?_ ?_ ?_ (by simp [hij]) (other_events s.barrier fun read' heq => ?_)
      · simp [hij]
      · simp [hij]
      · simp [hij]
      · exact hij (Step.source.inj heq).1.symm
  | collector | firstAction | raiseSource j | raiseCollector =>
    obtain ⟨barrier, hbarrier, rfl⟩ := step_other (by simp) hs
    obtain ⟨hpc, hframes, hboundaries⟩ := rounds_of_step (by simp) hbarrier i
    exact h.frame hpc hframes hboundaries rfl (other_events s.barrier (by simp))

/-- No step takes an exit flag back. -/
theorem quiet_of_capture {a : Step} (hs : s.step names n limit a = some s')
    (h : s'.barrier.Quiet n) : s.barrier.Quiet n := by
  cases a with
  | source j read =>
    simp only [step, Option.ite_none_right_eq_some, Option.map_eq_some_iff] at hs
    obtain ⟨-, src, hsrc, rfl⟩ := hs
    exact h.of_setSource (flag_stepLimit hsrc)
  | collector | firstAction | raiseSource j | raiseCollector =>
    obtain ⟨barrier, hbarrier, rfl⟩ := step_other (by simp) hs
    exact quiet_of_step hbarrier h

theorem framed_of_trace (hlimit : 1 ≤ limit)
    (h : Trace (capturing names n limit) (fun _ => True) (initial names) es s)
    (hquiet : s.barrier.Quiet n) {i : Nat} (hi : i < n) : Framed limit es s i := by
  refine invariant (P := fun es s => s.barrier.Quiet n → Framed limit es s i)
    (fun _ => framed_initial i) ?_ h hquiet
  intro es s a s' hframed _ hs hquiet'
  exact framed_step hlimit (hframed (quiet_of_capture hs hquiet')) hs (hquiet'.2 i hi)

/-! ## The objects that are handed over -/

/-- No object was handed over with an exit flag set if none is set at the end. -/
theorem quiet_of_trace {s₀ : Capture} (h : Trace (capturing names n limit) (fun _ => True) s₀ es s)
    (hquiet : s.barrier.Quiet n) : s₀.barrier.Quiet n := by
  induction h with
  | start => exact hquiet
  | next _ _ hs ih => exact ih (quiet_of_capture hs hquiet)

/-- The frames of an object are those after the boundary before its name came. -/
theorem addsTo_eq (hinj : Function.Injective names) (h : s.barrier.Counted names n es) (i b : Nat) :
    es.countP (BarrierEvent.addsTo i (names (b + 1))) = es.countP (BarrierEvent.addsAt i b) := by
  refine List.countP_congr fun e he => ?_
  cases e with
  | taken name => exact Iff.rfl
  | added j b' name =>
    obtain rfl := h.added j b' name he
    simp only [BarrierEvent.addsTo, BarrierEvent.addsAt, decide_eq_true_eq]
    refine and_congr_right fun _ => ⟨fun heq => ?_, fun heq => by rw [heq]⟩
    exact Nat.succ.inj (hinj heq)

/-- When a name is taken, every source is behind as many boundaries as names were generated. -/
theorem boundaries_of_take (hknown : s.barrier.Known names n es) (hquiet : s.barrier.Quiet n)
    (htake : s.barrier.first = .take) {i : Nat} (hi : i < n) :
    (s.barrier.srcs i).boundaries = s.barrier.generated := by
  have hturn : s.barrier.first.hasTurn = true := by rw [htake]; rfl
  have hphase := (hknown.sound.permit i hi).not_over (hquiet.2 i hi)
  obtain ⟨hcollector, hheld⟩ := hknown.sound.exclusive hturn hi hphase
  have hturns := hknown.sound.turns_of_quiet hquiet.1
  have hcount := (hknown.counted hquiet).held i hi hheld
  have hdistributes : s.barrier.pc.distributes = false := by
    cases hpc : s.barrier.pc <;> simp only [hpc, CollectorPc.hasTurn] at hcollector <;>
      first | rfl | cases hcollector
  have hempty : s.barrier.emptyReady = 0 := by
    rw [turns, hturn] at hturns
    simp only [Bool.toNat_true] at hturns
    omega
  rw [renewed, htake, hdistributes, hempty] at hcount
  simpa using hcount

theorem events_taken {b : Barrier} {a : Step} {name : String} (h : b.events a = [.taken name]) :
    a = .firstAction ∧ b.first = .take ∧ name = b.data := by
  cases a with
  | firstAction =>
    rw [events] at h
    split at h
    case isTrue htake =>
      cases h
      exact ⟨rfl, htake, rfl⟩
    case isFalse => cases h
  | source i read =>
    rw [events] at h
    split at h <;> cases h
  | collector | raiseSource i | raiseCollector => cases h

/-- The state in which a name is taken. -/
theorem take_of_mem (hinj : Function.Injective names)
    (h : Trace (capturing names n limit) (fun _ => True) (initial names) es s)
    (hquiet : s.barrier.Quiet n) {pre post : List BarrierEvent} {name : String}
    (hes : es = pre ++ .taken name :: post) :
    ∃ t, Trace (capturing names n limit) (fun _ => True) (initial names) pre t ∧
      t.barrier.first = .take ∧ name = names t.barrier.generated ∧ t.barrier.Quiet n := by
  have hone (u : Capture) (a : Step) : ((capturing names n limit).emit u a).length ≤ 1 := by
    simp only [capturing, events]
    split
    · split <;> simp
    · split <;> simp
    · simp
  subst hes
  obtain ⟨t, a, t', hpre, -, hstep, hemit, hpost⟩ := h.split hone
  refine ⟨t, hpre, ?_, ?_, quiet_of_capture hstep (quiet_of_trace hpost hquiet)⟩
  · exact (events_taken hemit).2.1
  · rw [(events_taken hemit).2.2]
    exact (known_of_trace hinj hpre).named.current

/-- **Later objects**: every object that is handed over after the first one with a name has at
least one frame of each source by then, and never more than the limit. -/
theorem later_segmented (hinj : Function.Injective names) (hlimit : 1 ≤ limit)
    (h : Trace (capturing names n limit) (fun _ => True) (initial names) es s)
    (hquiet : s.barrier.Quiet n) {pre post : List BarrierEvent} {name : String}
    (hes : es = pre ++ .taken name :: post) (hzero : name ≠ names 0) (hone : name ≠ names 1)
    {i : Nat} (hi : i < n) : 1 ≤ pre.countP (BarrierEvent.addsTo i name) ∧
      es.countP (BarrierEvent.addsTo i name) ≤ limit := by
  obtain ⟨t, htrace, htake, rfl, hquiet'⟩ := take_of_mem hinj h hquiet hes
  have hknown := known_of_trace hinj htrace
  have hboundaries := boundaries_of_take hknown hquiet' htake hi
  have hfirst : t.barrier.generated ≠ 0 := fun heq => hzero (by rw [heq])
  have hsecond : t.barrier.generated ≠ 1 := fun heq => hone (by rw [heq])
  obtain ⟨b, hb⟩ : ∃ b, t.barrier.generated = b + 1 := ⟨t.barrier.generated - 1, by omega⟩
  rw [hb, addsTo_eq hinj (hknown.counted hquiet'),
    addsTo_eq hinj ((known_of_trace hinj h).counted hquiet)]
  exact ⟨(framed_of_trace hlimit htrace hquiet' hi).past b (by omega) (by omega),
    (framed_of_trace hlimit h hquiet hi).bounded b⟩

/-- The frames of the first object with a name would be those before the first boundary. -/
theorem segmented_iff_not_mem (hempty : names 0 = "") (hinj : Function.Injective names)
    (hlimit : 1 ≤ limit)
    (h : Trace (capturing names n limit) (fun _ => True) (initial names) es s)
    (hquiet : s.barrier.Quiet n) : Segmented n limit es s ↔ n = 0 ∨ .taken (names 1) ∉ es := by
  constructor
  · intro hsegmented
    by_contra hnot
    push Not at hnot
    obtain ⟨hn, hmem⟩ := hnot
    obtain ⟨pre, post, hes⟩ := List.append_of_mem hmem
    obtain ⟨t, htrace, -, -, hquiet'⟩ := take_of_mem hinj h hquiet hes
    have hname : names 1 ≠ "" := fun heq => absurd (hinj (heq.trans hempty.symm)) (by decide)
    obtain ⟨hsome, -⟩ := hsegmented.handed pre (names 1) post hes hname 0 (by omega)
    rw [addsTo_eq hinj ((known_of_trace hinj htrace).counted hquiet'),
      (framed_of_trace hlimit htrace hquiet' (by omega)).none] at hsome
    exact absurd hsome (by decide)
  · intro hcond
    refine ⟨fun pre name post hes hname i hi => ?_,
      fun i hi => (framed_of_trace hlimit h hquiet hi).once⟩
    refine later_segmented hinj hlimit h hquiet hes (hempty ▸ hname) ?_ hi
    rintro rfl
    rcases hcond with rfl | hnot
    · exact Nat.not_lt_zero i hi
    · exact hnot (hes ▸ List.mem_append_right _ List.mem_cons_self)

/-- The name that is handed over is the last that was generated. -/
theorem current_step {a : Step} (hcurrent : s.barrier.data = names s.barrier.generated)
    (hs : s.step names n limit a = some s') : s'.barrier.data = names s'.barrier.generated := by
  cases a with
  | source i read =>
    simp only [step, Option.ite_none_right_eq_some, Option.map_eq_some_iff] at hs
    obtain ⟨-, src, -, rfl⟩ := hs
    exact hcurrent
  | collector =>
    obtain ⟨barrier, hbarrier, rfl⟩ := step_other (by simp) hs
    obtain ⟨hdata, hgen, -⟩ := collectorStep_frame hbarrier
    rw [hdata, hgen, hcurrent]
  | firstAction =>
    obtain ⟨barrier, hbarrier, rfl⟩ := step_other (by simp) hs
    simp only [Barrier.step] at hbarrier
    cases hf : s.barrier.first <;> simp only [firstStep, hf] at hbarrier
    case rename =>
      cases hbarrier
      rfl
    all_goals
      (repeat' split at hbarrier) <;> cases hbarrier <;> exact hcurrent
  | raiseSource i | raiseCollector =>
    obtain ⟨barrier, hbarrier, rfl⟩ := step_other (by simp) hs
    cases hbarrier
    exact hcurrent

theorem keepsFirst_iff (hinj : Function.Injective names)
    (hcurrent : s.barrier.data = names s.barrier.generated) (a : Step) :
    ¬ KeepsFirst n s a ↔ n ≠ 0 ∧ .taken (names 1) ∈ s.barrier.events a := by
  cases a with
  | firstAction =>
    rw [KeepsFirst, events]
    by_cases htake : s.barrier.first = .take
    · rw [if_pos htake, List.mem_singleton, BarrierEvent.taken.injEq, hcurrent, hinj.eq_iff]
      simp only [htake, forall_const, not_or, ne_eq, not_not]
      exact and_congr_right fun _ => eq_comm
    · simp [htake]
  | source i read =>
    simp only [KeepsFirst, not_true_eq_false, false_iff, events]
    split <;> simp
  | collector | raiseSource i | raiseCollector => simp [KeepsFirst, events]

/-- Some source has no frame in an object that was handed over. -/
def HandsFirst (names : Nat → String) (n : Nat) (es : List BarrierEvent) (_ : Capture) : Prop :=
  n ≠ 0 ∧ .taken (names 1) ∈ es

theorem meets_iff_not_mem (hinj : Function.Injective names) {as : List Step}
    (h : (capturing names n limit).run as (initial names) = some (es, s)) :
    (capturing names n limit).Meets (KeepsFirst n) as (initial names) ↔
      n = 0 ∨ .taken (names 1) ∉ es := by
  have hstep : ∀ (es : List BarrierEvent) (s : Capture) a s',
      s.barrier.data = names s.barrier.generated → (capturing names n limit).step s a = some s' →
      s'.barrier.data = names s'.barrier.generated ∧
        (HandsFirst names n (es ++ (capturing names n limit).emit s a) s' ↔
          HandsFirst names n es s ∨ ¬ KeepsFirst n s a) := by
    intro es s a s' hcurrent hs
    refine ⟨current_step hcurrent hs, ?_⟩
    rw [keepsFirst_iff hinj hcurrent a, HandsFirst, HandsFirst, List.mem_append, and_or_left]
    rfl
  have hfault : HandsFirst names n ([] ++ es) s ↔ HandsFirst names n [] (initial names) ∨
      ¬ (capturing names n limit).Meets (KeepsFirst n) as (initial names) :=
    fault_iff hstep rfl h
  have hstart : ¬ HandsFirst names n [] (initial names) := fun hhands => List.not_mem_nil hhands.2
  rw [or_iff_right hstart, List.nil_append, HandsFirst] at hfault
  tauto

/-- **Objects are segmented** in exactly the runs without exit in which the first object that
was given a name is not handed over. -/
theorem segmented_iff (hempty : names 0 = "") (hinj : Function.Injective names)
    (hlimit : 1 ≤ limit) {as : List Step}
    (h : (capturing names n limit).run as (initial names) = some (es, s))
    (hquiet : s.barrier.Quiet n) :
    Segmented n limit es s ↔
      (capturing names n limit).Meets (KeepsFirst n) as (initial names) := by
  rw [meets_iff_not_mem hinj h]
  exact segmented_iff_not_mem hempty hinj hlimit (trace_of_run (fun _ _ => trivial) h) hquiet

/-- Two sources have captured a frame each and wait for the name of their object. -/
def firstFrames : List Step :=
  List.replicate 5 .firstAction ++ List.replicate 7 .collector ++
    List.replicate 5 (.source 0 (.frame false)) ++ List.replicate 5 (.source 1 (.frame true))

theorem firstFrames_runs :
    ((capturing countedNames 2 3).run firstFrames (initial countedNames)).isSome = true := by
  decide

theorem segmented_firstFrames : Segmented 2 3
    (((capturing countedNames 2 3).run firstFrames (initial countedNames)).get firstFrames_runs).1
    (((capturing countedNames 2 3).run firstFrames
      (initial countedNames)).get firstFrames_runs).2 := by
  refine (segmented_iff rfl countedNames_injective (by decide)
    (Option.some_get firstFrames_runs).symm ⟨by decide, by decide⟩).mpr ?_
  rw [meets_iff_not_mem countedNames_injective (Option.some_get firstFrames_runs).symm]
  exact Or.inr (by decide)

theorem firstRound_captured :
    ((capturing countedNames 2 50).run firstRound (initial countedNames)).isSome = true := by
  decide

/-- In the first round both sources have come to a boundary with their first frame. -/
theorem first_object_empty : ¬ Segmented 2 50
    (((capturing countedNames 2 50).run firstRound (initial countedNames)).get
      firstRound_captured).1
    (((capturing countedNames 2 50).run firstRound (initial countedNames)).get
      firstRound_captured).2 := by
  have htrace : Trace (capturing countedNames 2 50) (fun _ => True) (initial countedNames) _ _ :=
    trace_of_isSome (fun _ _ => trivial) firstRound_captured
  rw [segmented_iff_not_mem rfl countedNames_injective (by decide) htrace ⟨by decide, by decide⟩]
  decide

end Capture

end DclProcessor.Collector
