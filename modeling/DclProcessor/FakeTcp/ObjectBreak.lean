import Mathlib.Data.List.DropRight
import Mathlib.Algebra.Ring.Nat
import Mathlib.Algebra.Ring.Int.Defs

/-!
`cv_collect_data_thread`: where one object ends and the next begins is told from the radius
that is found on each frame. Three counters of type `int` are kept; what they count is said
here in terms of the frames since the last break.
-/

namespace DclProcessor.FakeTcp

/-- What is asked of a radius: below 135, at least 150, or neither. -/
inductive FrameClass
  | below
  | atLeast
  | neither
  deriving DecidableEq

/-- The locals of the thread that the detection uses. -/
structure Counters where
  framesObjCnt : BitVec 32
  framesEmptyCnt : BitVec 32
  framesNonCnt : BitVec 32
  newObject : Bool
  deriving DecidableEq

namespace Counters

def start : Counters := ⟨0, 0, 0, false⟩

/-- What a frame makes of the counters, and whether `data_ready` is posted for a break. -/
def collect (s : Counters) (frame : FrameClass) : Counters × Bool :=
  if frame = .below ∧ s.newObject = false then
    let s := { s with framesEmptyCnt := s.framesEmptyCnt + 1 }
    if 16 ≤ s.framesObjCnt.toInt ∧ 8 ≤ s.framesEmptyCnt.toInt then
      ({ framesObjCnt := 0, framesEmptyCnt := 0, framesNonCnt := 0, newObject := false }, true)
    else (s, false)
  else if frame = .atLeast then
    ({ s with
        framesObjCnt := s.framesObjCnt + 1 + s.framesEmptyCnt + s.framesNonCnt
        framesEmptyCnt := 0
        framesNonCnt := 0 }, false)
  else ({ s with framesNonCnt := s.framesNonCnt + 1 }, false)

end Counters

/-- The counters after some frames. -/
def countersAfter (frames : List FrameClass) : Counters :=
  frames.foldl (fun s frame => (s.collect frame).1) .start

/-- Whether a break is signalled on `frame` when it comes after `frames`. -/
def breakSignalled (frames : List FrameClass) (frame : FrameClass) : Bool :=
  ((countersAfter frames).collect frame).2

/-! ## Segments -/

/-- The position of the last frame with an object, 0 if there is none. -/
def lastObject (segment : List FrameClass) : Nat := (segment.rdropWhile (· ≠ .atLeast)).length

/-- How many frames of a class have come after it. -/
def since (frame : FrameClass) (segment : List FrameClass) : Nat :=
  (segment.rtakeWhile (· ≠ .atLeast)).count frame

/-- The last frame of a segment ends it. -/
def IsBreak (segment : List FrameClass) : Prop :=
  segment.getLast? = some .below ∧ 16 ≤ lastObject segment ∧ 8 ≤ since .below segment

instance (segment : List FrameClass) : Decidable (IsBreak segment) :=
  inferInstanceAs (Decidable (_ ∧ _ ∧ _))

/-- A segment goes on, or a new one starts. -/
def nextSegment (segment : List FrameClass) (frame : FrameClass) : List FrameClass :=
  if IsBreak (segment ++ [frame]) then [] else segment ++ [frame]

/-- The frames since the last break. -/
def currentSegment (frames : List FrameClass) : List FrameClass := frames.foldl nextSegment []

/-- The counters, and the signal, after `frame` has come. -/
structure Agrees (frames : List FrameClass) (frame : FrameClass) : Prop where
  position : (countersAfter (frames ++ [frame])).framesObjCnt.toInt =
    lastObject (currentSegment (frames ++ [frame]))
  total : (countersAfter (frames ++ [frame])).framesObjCnt.toInt +
      (countersAfter (frames ++ [frame])).framesEmptyCnt.toInt +
      (countersAfter (frames ++ [frame])).framesNonCnt.toInt =
    (currentSegment (frames ++ [frame])).length
  signal : breakSignalled frames frame = true ↔ IsBreak (currentSegment frames ++ [frame])

/-- Breaks are detected all along. -/
def Detects (frames : List FrameClass) : Prop :=
  ∀ pre frame, pre ++ [frame] <+: frames → Agrees pre frame

/-- What is counted of a segment fits into an `int`. -/
structure Fits (segment : List FrameClass) : Prop where
  object : lastObject segment < 2 ^ 31
  below : since .below segment < 2 ^ 31
  neither : since .neither segment < 2 ^ 31

def Bounded (frames : List FrameClass) : Prop :=
  ∀ pre, pre <+: frames → Fits (currentSegment pre)

section Segment

variable (segment : List FrameClass)

@[simp] theorem lastObject_nil : lastObject [] = 0 := rfl

@[simp] theorem since_nil (frame : FrameClass) : since frame [] = 0 := rfl

theorem lastObject_atLeast : lastObject (segment ++ [.atLeast]) = segment.length + 1 := by
  rw [lastObject, List.rdropWhile_concat_neg _ _ _ (by simp)]
  simp

theorem since_atLeast (frame : FrameClass) : since frame (segment ++ [.atLeast]) = 0 := by
  rw [since, List.rtakeWhile_concat_neg _ _ _ (by simp)]
  rfl

variable {segment} {frame : FrameClass}

theorem lastObject_concat (h : frame ≠ .atLeast) :
    lastObject (segment ++ [frame]) = lastObject segment := by
  rw [lastObject, List.rdropWhile_concat_pos _ _ _ (by simpa using h), lastObject]

theorem since_concat (h : frame ≠ .atLeast) (frame' : FrameClass) :
    since frame' (segment ++ [frame]) =
      since frame' segment + if frame = frame' then 1 else 0 := by
  rw [since, List.rtakeWhile_concat_pos _ _ _ (by simpa using h), List.count_append,
    List.count_singleton, since]
  simp

/-- Every frame stands up to the last object, or comes after it in one of two classes. -/
theorem segment_length (segment : List FrameClass) :
    lastObject segment + since .below segment + since .neither segment = segment.length := by
  induction segment using List.reverseRecOn with
  | nil => rfl
  | append_singleton segment frame ih =>
    cases frame with
    | atLeast =>
      rw [lastObject_atLeast, since_atLeast, since_atLeast, List.length_append]
      rfl
    | below =>
      simp only [lastObject_concat, since_concat, ne_eq, reduceCtorEq, not_false_eq_true,
        List.length_append, List.length_singleton, if_true, if_false]
      omega
    | neither =>
      simp only [lastObject_concat, since_concat, ne_eq, reduceCtorEq, not_false_eq_true,
        List.length_append, List.length_singleton, if_true, if_false]
      omega

/-- A break comes with the eighth frame below. -/
def Calm (segment : List FrameClass) : Prop :=
  16 ≤ lastObject segment → since .below segment < 8

theorem calm_nextSegment (h : Calm segment) (frame : FrameClass) :
    Calm (nextSegment segment frame) := by
  unfold nextSegment
  split
  case isTrue => exact fun hlast => absurd hlast (by simp)
  case isFalse hgoes =>
    intro hlast
    cases frame with
    | atLeast =>
      rw [since_atLeast]
      omega
    | below =>
      by_contra hmany
      exact hgoes ⟨by simp, hlast, by omega⟩
    | neither =>
      rw [lastObject_concat (by decide)] at hlast
      rw [since_concat (by decide)]
      exact h hlast

end Segment

/-! ## Counters -/

/-- What the counters are, as numbers of 32 bits. -/
structure Counts (s : Counters) (segment : List FrameClass) : Prop where
  object : s.framesObjCnt = BitVec.ofNat 32 (lastObject segment)
  below : s.framesEmptyCnt = BitVec.ofNat 32 (since .below segment)
  neither : s.framesNonCnt = BitVec.ofNat 32 (since .neither segment)
  newObject : s.newObject = false

section Step

variable {s : Counters} {segment : List FrameClass}

/-- A number that fits is read back. -/
theorem toInt_ofNat_eq_iff (n : Nat) : (BitVec.ofNat 32 n).toInt = n ↔ n < 2 ^ 31 := by
  rw [BitVec.toInt_ofNat', Int.bmod_def]
  split <;> omega

theorem toInt_ofNat_le (n : Nat) : (BitVec.ofNat 32 n).toInt ≤ n := by
  rw [BitVec.toInt_ofNat', Int.bmod_def]
  split <;> omega

/-- The test of the code for a break. -/
theorem tests_iff (h : Counts s segment) (hcalm : Calm segment) (hfits : Fits segment) :
    (16 ≤ s.framesObjCnt.toInt ∧ 8 ≤ (s.framesEmptyCnt + 1).toInt) ↔
      IsBreak (segment ++ [.below]) := by
  have hobj := (toInt_ofNat_eq_iff _).mpr hfits.object
  have hone : s.framesEmptyCnt + 1 = BitVec.ofNat 32 (since .below segment + 1) := by
    rw [h.below, BitVec.ofNat_add]
    rfl
  rw [IsBreak, lastObject_concat (by decide), since_concat (by decide), if_pos rfl, h.object,
    hobj, hone]
  constructor
  · rintro ⟨hlast, hmany⟩
    have hlast : 16 ≤ lastObject segment := by omega
    have hfew := hcalm hlast
    have hread := (toInt_ofNat_eq_iff (since .below segment + 1)).mpr (by omega)
    exact ⟨by simp, hlast, by omega⟩
  · rintro ⟨-, hlast, hmany⟩
    have hfew := hcalm hlast
    have hread := (toInt_ofNat_eq_iff (since .below segment + 1)).mpr (by omega)
    omega

/-- A frame: the counters go with the segment, and the signal with its break. -/
theorem counts_collect (h : Counts s segment) (hcalm : Calm segment) (hfits : Fits segment)
    (frame : FrameClass) : Counts (s.collect frame).1 (nextSegment segment frame) ∧
      ((s.collect frame).2 = true ↔ IsBreak (segment ++ [frame])) := by
  have hone : ∀ n, BitVec.ofNat 32 n + 1 = BitVec.ofNat 32 (n + 1) := fun n => by
    rw [BitVec.ofNat_add]
    rfl
  cases frame with
  | below =>
    have htests := tests_iff h hcalm hfits
    rw [Counters.collect, if_pos ⟨rfl, h.newObject⟩, nextSegment]
    by_cases hbreak : IsBreak (segment ++ [.below])
    · simp only [if_pos (htests.mpr hbreak), if_pos hbreak]
      exact ⟨⟨rfl, rfl, rfl, rfl⟩, iff_of_true trivial hbreak⟩
    · simp only [if_neg (fun ht => hbreak (htests.mp ht)), if_neg hbreak]
      refine ⟨⟨?_, ?_, ?_, h.newObject⟩, iff_of_false Bool.false_ne_true hbreak⟩
      · rw [lastObject_concat (by decide), h.object]
      · rw [since_concat (by decide), if_pos rfl, h.below, hone]
      · rw [since_concat (by decide), if_neg (by decide), h.neither, Nat.add_zero]
  | atLeast =>
    have hgoes : ¬ IsBreak (segment ++ [.atLeast]) := fun hbreak => by simp [IsBreak] at hbreak
    rw [Counters.collect, if_neg (by simp), if_pos rfl, nextSegment, if_neg hgoes]
    refine ⟨⟨?_, ?_, ?_, h.newObject⟩, iff_of_false Bool.false_ne_true hgoes⟩
    · have hall : segment.length + 1 =
          lastObject segment + 1 + since .below segment + since .neither segment := by
        rw [← segment_length]
        omega
      rw [lastObject_atLeast, hall, BitVec.ofNat_add, BitVec.ofNat_add, ← hone, h.object,
        h.below, h.neither]
    · rw [since_atLeast]
      rfl
    · rw [since_atLeast]
      rfl
  | neither =>
    have hgoes : ¬ IsBreak (segment ++ [.neither]) := fun hbreak => by simp [IsBreak] at hbreak
    rw [Counters.collect, if_neg (by simp), if_neg (by decide), nextSegment, if_neg hgoes]
    refine ⟨⟨?_, ?_, ?_, h.newObject⟩, iff_of_false Bool.false_ne_true hgoes⟩
    · rw [lastObject_concat (by decide), h.object]
    · rw [since_concat (by decide), if_neg (by decide), h.below, Nat.add_zero]
    · rw [since_concat (by decide), if_pos rfl, h.neither, hone]

end Step

section Run

variable {frames : List FrameClass}

theorem countersAfter_concat (frames : List FrameClass) (frame : FrameClass) :
    countersAfter (frames ++ [frame]) = ((countersAfter frames).collect frame).1 := by
  rw [countersAfter, List.foldl_append]
  rfl

theorem currentSegment_concat (frames : List FrameClass) (frame : FrameClass) :
    currentSegment (frames ++ [frame]) = nextSegment (currentSegment frames) frame := by
  rw [currentSegment, List.foldl_append]
  rfl

theorem calm_currentSegment (frames : List FrameClass) : Calm (currentSegment frames) := by
  induction frames using List.reverseRecOn with
  | nil => exact fun hlast => absurd hlast (by simp [currentSegment])
  | append_singleton frames frame ih =>
    rw [currentSegment_concat]
    exact calm_nextSegment ih frame

theorem bounded_concat (frame : FrameClass) : Bounded (frames ++ [frame]) ↔
    Bounded frames ∧ Fits (currentSegment (frames ++ [frame])) := by
  simp only [Bounded, List.prefix_concat_iff]
  constructor
  · intro h
    exact ⟨fun pre hpre => h pre (Or.inr hpre), h _ (Or.inl rfl)⟩
  · rintro ⟨h, hlast⟩ pre (rfl | hpre)
    · exact hlast
    · exact h pre hpre

theorem detects_concat (frame : FrameClass) : Detects (frames ++ [frame]) ↔
    Detects frames ∧ Agrees frames frame := by
  simp only [Detects, List.prefix_concat_iff]
  constructor
  · intro h
    exact ⟨fun pre f hpre => h pre f (Or.inr hpre), h _ _ (Or.inl rfl)⟩
  · rintro ⟨h, hlast⟩ pre f (heq | hpre)
    · obtain ⟨rfl, hf⟩ := List.append_inj' heq rfl
      obtain rfl : f = frame := by simpa using hf
      exact hlast
    · exact h pre f hpre

theorem counts_of_bounded (h : Bounded frames) :
    Counts (countersAfter frames) (currentSegment frames) := by
  induction frames using List.reverseRecOn with
  | nil => exact ⟨rfl, rfl, rfl, rfl⟩
  | append_singleton frames frame ih =>
    obtain ⟨hbounded, -⟩ := (bounded_concat frame).mp h
    have hfits := hbounded frames (List.prefix_refl frames)
    rw [countersAfter_concat, currentSegment_concat]
    exact (counts_collect (ih hbounded) (calm_currentSegment frames) hfits frame).1

/-- The counters mean what they should exactly if it fits. -/
theorem counts_iff_fits {s : Counters} {segment : List FrameClass} (h : Counts s segment) :
    (s.framesObjCnt.toInt = lastObject segment ∧ s.framesObjCnt.toInt +
      s.framesEmptyCnt.toInt + s.framesNonCnt.toInt = segment.length) ↔ Fits segment := by
  have hlength := segment_length segment
  have hbelow := toInt_ofNat_le (since .below segment)
  have hneither := toInt_ofNat_le (since .neither segment)
  rw [h.object, h.below, h.neither]
  constructor
  · rintro ⟨hobj, htotal⟩
    exact ⟨(toInt_ofNat_eq_iff _).mp hobj, (toInt_ofNat_eq_iff _).mp (by omega),
      (toInt_ofNat_eq_iff _).mp (by omega)⟩
  · intro hfits
    have hobj := (toInt_ofNat_eq_iff _).mpr hfits.object
    have hempty := (toInt_ofNat_eq_iff _).mpr hfits.below
    have hnon := (toInt_ofNat_eq_iff _).mpr hfits.neither
    omega

theorem agrees_iff (h : Bounded frames) (frame : FrameClass) :
    Agrees frames frame ↔ Fits (currentSegment (frames ++ [frame])) := by
  have hfits := h frames (List.prefix_refl frames)
  obtain ⟨hcounts, hsignal⟩ :=
    counts_collect (counts_of_bounded h) (calm_currentSegment frames) hfits frame
  rw [← countersAfter_concat, ← currentSegment_concat] at hcounts
  rw [← counts_iff_fits hcounts]
  exact ⟨fun ha => ⟨ha.position, ha.total⟩, fun hc => ⟨hc.1, hc.2, hsignal⟩⟩

/-- **Breaks are detected** if and only if no segment comes to a number that an `int` does
not hold. -/
theorem detects_iff (frames : List FrameClass) : Detects frames ↔ Bounded frames := by
  induction frames using List.reverseRecOn with
  | nil =>
    refine iff_of_true (fun pre frame hpre => ?_) fun pre hpre => ?_
    · simp at hpre
    · obtain rfl := List.prefix_nil.mp hpre
      exact ⟨by simp [currentSegment], by simp [currentSegment], by simp [currentSegment]⟩
  | append_singleton frames frame ih =>
    rw [detects_concat, bounded_concat, ih]
    exact and_congr_right fun h => agrees_iff h frame

end Run

section Idle

/-- Frames without any object are all counted as empty ones. -/
theorem countersAfter_idle (n : Nat) :
    countersAfter (List.replicate n .below) = ⟨0, BitVec.ofNat 32 n, 0, false⟩ := by
  induction n with
  | zero => rfl
  | succ n ih =>
    rw [List.replicate_succ', countersAfter_concat, ih, Counters.collect, if_pos ⟨rfl, rfl⟩]
    rw [if_neg (by simp), BitVec.ofNat_add]
    rfl

theorem currentSegment_idle (n : Nat) :
    currentSegment (List.replicate n .below) = List.replicate n .below ∧
      lastObject (List.replicate n .below) = 0 := by
  induction n with
  | zero => exact ⟨rfl, rfl⟩
  | succ n ih =>
    have hlast : lastObject (List.replicate n .below ++ [.below]) = 0 := by
      rw [lastObject_concat (by decide), ih.2]
    rw [List.replicate_succ', currentSegment_concat, ih.1, nextSegment, if_neg]
    · exact ⟨rfl, hlast⟩
    · rintro ⟨-, h16, -⟩
      rw [hlast] at h16
      omega

theorem lt_of_agrees_idle {n : Nat} (h : Agrees (List.replicate n .below) .below) :
    n + 1 < 2 ^ 31 := by
  have htotal := h.total
  rw [← List.replicate_succ', countersAfter_idle, (currentSegment_idle _).1,
    List.length_replicate] at htotal
  exact (toInt_ofNat_eq_iff (n + 1)).mp (by simpa using htotal)

/-- With nothing on the belt for `2 ^ 31` frames, the counter of empty frames is negative. -/
theorem idle_not_detected :
    (countersAfter (List.replicate (2 ^ 31) .below)).framesEmptyCnt.toInt = -2 ^ 31 ∧
      ¬ Detects (List.replicate (2 ^ 31) .below) := by
  obtain ⟨n, hn⟩ : ∃ n, 2 ^ 31 = n + 1 := ⟨2 ^ 31 - 1, by omega⟩
  constructor
  · rw [countersAfter_idle]
    decide
  · intro h
    have hframes : List.replicate n FrameClass.below ++ [.below] =
        List.replicate (2 ^ 31) .below := by
      rw [hn, List.replicate_succ']
    have hlt := lt_of_agrees_idle (h _ _ ⟨[], by rw [List.append_nil, hframes]⟩)
    omega

end Idle

end DclProcessor.FakeTcp
