import DclProcessor.Collector.Rounds

/-!
Which object the frames go to. A source that may write has the name that is in
`collector->data`; while `first_action` has the turn, no source may write. Without exit
flags a source has had one name more than it has come to object boundaries.
-/

namespace DclProcessor.Collector

open Transition

variable {names : Nat → String} {n : Nat}

theorem data_step {src src' : Source} {read : Read} (h : src.step read = some src') :
    src'.data = src.data := by
  cases hpc : src.pc <;> simp only [Source.step, hpc] at h
  case reading => cases read <;> simp at h <;> grind
  all_goals grind

theorem CollectorPc.holds_of_hasTurn {pc : CollectorPc} (i : Nat) (h : pc.hasTurn = false) :
    pc.holds i = true := by
  cases pc <;> first | rfl | cases h

namespace Barrier

variable {s s' : Barrier}

/-- While `first_action` has the turn, the collector has all permits. -/
theorem Sound.exclusive (h : s.Sound n) (hfirst : s.first.hasTurn = true) {i : Nat} (hi : i < n)
    (hphase : (s.srcs i).phase ≠ .over) : s.pc.hasTurn = false ∧ s.pc.holds i = true := by
  have hnone : s.pc.hasTurn = false := by
    rcases h.turn (Or.inr (Or.inr hfirst)) with hone | hend
    · rw [turns, hfirst] at hone
      cases hturn : s.pc.hasTurn with
      | false => rfl
      | true => simp [hturn] at hone
    · exact absurd (hend.2 i hi) hphase
  exact ⟨hnone, CollectorPc.holds_of_hasTurn i hnone⟩

/-- The collector is not between the copy of a name and its post when a call renames. -/
theorem Sound.not_postEmpty (h : s.Sound n) (hfirst : s.first.hasTurn = true) (j : Nat) :
    s.pc ≠ .postEmpty j := by
  intro hpc
  rcases h.turn (Or.inr (Or.inr hfirst)) with hone | ⟨hfinal | hloop, -⟩
  · rw [turns, hfirst, hpc] at hone
    simp [CollectorPc.hasTurn] at hone
  · simp [hpc, CollectorPc.final] at hfinal
  · simp [hpc] at hloop

theorem collectorStep_frame (h : s.collectorStep n = some s') :
    s'.data = s.data ∧ s'.generated = s.generated ∧ s'.first = s.first := by
  cases hpc : s.pc <;> simp only [collectorStep, hpc] at h
  all_goals
    (repeat' split at h) <;> cases h <;> exact ⟨rfl, rfl, rfl⟩

/-- A source that has its permit after a step of the collector had it before, or gets it now. -/
theorem Sound.given (hsound : s.Sound n) (h : s.collectorStep n = some s') {i : Nat} (hi : i < n)
    (hphase : (s'.srcs i).phase ≠ .over) (hheld : s'.pc.holds i = false) :
    (s'.srcs i).data = (s.srcs i).data ∧
      ((s.srcs i).phase ≠ .over ∧ s.pc.holds i = false ∨ s.pc = .postEmpty i) := by
  have hstopped := hsound.stopped
  have hstop : (s.srcs i).phase = .over →
      ({ s.srcs i with exitFlag := true } : Source).phase = .over := over_of_stop
  cases hpc : s.pc <;> simp only [collectorStep, hpc] at h hstopped ⊢
  case stopSource j =>
    split at h <;> cases h
    case isTrue => simp [CollectorPc.holds] at hheld
    case isFalse => exact absurd (hstopped j rfl i hi (by omega)) hphase
  case finalStop j =>
    split at h <;> cases h
    case isTrue =>
      simp only [setSource_srcs, CollectorPc.holds] at hphase hheld ⊢
      grind
    case isFalse => simp [CollectorPc.holds] at hheld
  all_goals
    (repeat' split at h) <;> cases h <;>
      simp only [setSource_srcs, CollectorPc.holds] at hphase hheld ⊢ <;> grind

/-- The names that the sources and the pipeline have. -/
structure Named (names : Nat → String) (n : Nat) (es : List BarrierEvent) (s : Barrier) :
    Prop where
  current : s.data = names s.generated
  source : ∀ i < n, (s.srcs i).phase ≠ .over → s.pc.holds i = false →
    (s.srcs i).data = names s.generated
  copied : ∀ j, s.pc = .postEmpty j → (s.srcs j).data = names s.generated
  taken : ∀ name, .taken name ∈ es →
    ∃ k ≤ s.generated, name = names k ∧ (k = s.generated → s.first = .rename)
  unwritten : es.Pairwise fun e f => ∀ name, e = .taken name → ∀ i k, f ≠ .added i k name

variable {es : List BarrierEvent}

theorem named_initial : (initial names).Named names n [] where
  current := rfl
  source _ _ _ _ := rfl
  copied j hj := by cases hj
  taken name hname := by cases hname
  unwritten := .nil

/-- A step that changes one source keeps the names. -/
theorem Named.setSource (h : s.Named names n es) {j : Nat} {src : Source}
    (hdata : src.data = (s.srcs j).data)
    (hover : (s.srcs j).phase = .over → src.phase = .over) :
    (s.setSource j src).Named names n es where
  current := h.current
  source i hi hphase hheld := by
    rw [setSource_srcs] at hphase ⊢
    split
    case isTrue hij =>
      subst hij
      rw [if_pos rfl] at hphase
      rw [hdata]
      exact h.source i hi (fun hold => hphase (hover hold)) hheld
    case isFalse hij =>
      rw [if_neg hij] at hphase
      exact h.source i hi hphase hheld
  copied k hk := by
    rw [setSource_srcs]
    split
    case isTrue hkj => rw [hdata, ← hkj]; exact h.copied k hk
    case isFalse => exact h.copied k hk
  taken := h.taken
  unwritten := h.unwritten

/-- A source does not write to an object that the pipeline has. -/
theorem Named.not_taken (hinj : Function.Injective names) (hsound : s.Sound n)
    (h : s.Named names n es) {i : Nat} (hi : i < n) (hadd : (s.srcs i).pc = .addFrame) :
    .taken (s.srcs i).data ∉ es := by
  intro hmem
  have hphase : (s.srcs i).phase = .writing := by rw [Source.phase, hadd]
  have hheld : s.pc.holds i = false := by
    have hpermit := hsound.permit i hi
    rw [Source.Permit, hphase] at hpermit
    exact hpermit.2.2
  obtain ⟨k, -, hname, hfirst⟩ := h.taken _ hmem
  rw [h.source i hi (by simp [hphase]) hheld] at hname
  have hrename := hfirst (hinj hname).symm
  have hall := hsound.exclusive (by simp [hrename, FirstPc.hasTurn]) hi (by simp [hphase])
  exact absurd (hall.2.symm.trans hheld) (by decide)

/-- A step that emits an event. -/
theorem Named.snoc (h : s.Named names n es) {e : BarrierEvent}
    (htaken : ∀ name, e = .taken name →
      ∃ k ≤ s.generated, name = names k ∧ (k = s.generated → s.first = .rename))
    (hadded : ∀ i k name, e = .added i k name → .taken name ∉ es) :
    s.Named names n (es ++ [e]) where
  current := h.current
  source := h.source
  copied := h.copied
  taken name hname := by
    rcases List.mem_append.mp hname with hold | hnew
    · exact h.taken name hold
    · exact htaken name (List.mem_singleton.mp hnew).symm
  unwritten := by
    refine List.pairwise_append.mpr ⟨h.unwritten, List.pairwise_singleton .., ?_⟩
    rintro _ hmem f hf name rfl i k rfl
    exact hadded i k name (List.mem_singleton.mp hf).symm hmem

theorem named_collectorStep (hsound : s.Sound n) (h : s.Named names n es)
    (hs : s.collectorStep n = some s') : s'.Named names n es := by
  obtain ⟨hdata, hgen, hfirst⟩ := collectorStep_frame hs
  refine ⟨?_, fun i hi hphase hheld => ?_, fun j hj => ?_, ?_, h.unwritten⟩
  · rw [hdata, hgen]
    exact h.current
  · obtain ⟨hsame, ⟨hphase', hheld'⟩ | hpc⟩ := hsound.given hs hi hphase hheld
    · rw [hsame, hgen]
      exact h.source i hi hphase' hheld'
    · rw [hsame, hgen]
      exact h.copied i hpc
  · have hcopy := h.current
    cases hpc : s.pc <;> simp only [collectorStep, hpc] at hs
    case copyName k =>
      split at hs <;> cases hs
      · cases hj
        simpa [setSource] using hcopy
      · cases hj
    all_goals
      (repeat' split at hs) <;> cases hs <;> simp at hj
  · rw [hgen, hfirst]
    exact h.taken

theorem named_firstStep (hsound : s.Sound n) (h : s.Named names n es)
    (hs : s.firstStep names = some s') :
    s'.Named names n (es ++ if s.first = .take then [.taken s.data] else []) := by
  obtain ⟨hcurrent, hsource, hcopied, htaken, hunwritten⟩ := h
  cases hf : s.first <;> simp only [firstStep, hf] at hs
  case take =>
    cases hs
    rw [if_pos rfl]
    refine Named.snoc (s := { s with first := .rename })
      ⟨hcurrent, hsource, hcopied, fun name hname => ?_, hunwritten⟩ ?_ ?_
    · obtain ⟨k, hk, hname, -⟩ := htaken name hname
      exact ⟨k, hk, hname, fun _ => rfl⟩
    · rintro _ ⟨⟩
      exact ⟨s.generated, Nat.le_refl _, hcurrent, fun _ => rfl⟩
    · rintro i k _ ⟨⟩
  case rename =>
    cases hs
    have hturn : s.first.hasTurn = true := by rw [hf]; rfl
    rw [if_neg (by simp), List.append_nil]
    refine ⟨rfl, fun i hi hphase hheld => ?_, fun j hj => ?_, fun name hname => ?_, hunwritten⟩
    · exact absurd ((hsound.exclusive hturn hi hphase).2.symm.trans hheld) (by decide)
    · exact absurd hj (hsound.not_postEmpty hturn j)
    · obtain ⟨k, hk, hname, -⟩ := htaken name hname
      exact ⟨k, Nat.le_succ_of_le hk, hname, fun heq => absurd heq (by simp only; omega)⟩
  all_goals
    (repeat' split at hs) <;> cases hs <;> rw [if_neg (by simp), List.append_nil] <;>
      refine ⟨hcurrent, hsource, hcopied, fun name hname => ?_, hunwritten⟩ <;>
      obtain ⟨k, hk, hname, hrename⟩ := htaken name hname <;>
      exact ⟨k, hk, hname, fun heq => by simp [hf] at hrename; exact absurd heq hrename⟩

theorem named_step (hinj : Function.Injective names) (hsound : s.Sound n)
    (h : s.Named names n es) (a : Step) (hs : s.step names n a = some s') :
    s'.Named names n (es ++ s.events a) := by
  cases a with
  | source i read =>
    simp only [step, Option.ite_none_right_eq_some, Option.map_eq_some_iff] at hs
    obtain ⟨hi, src, hsrc, rfl⟩ := hs
    have hkeep := h.setSource (data_step hsrc) (over_step hsrc)
    simp only [events]
    split
    case isTrue hadd =>
      refine hkeep.snoc (fun _ heq => by cases heq) ?_
      rintro _ _ _ ⟨⟩
      exact h.not_taken hinj hsound hi hadd
    case isFalse => rwa [List.append_nil]
  | collector =>
    simp only [events, List.append_nil]
    exact named_collectorStep hsound h hs
  | firstAction => exact named_firstStep hsound h hs
  | raiseSource i =>
    cases hs
    simp only [events, List.append_nil]
    exact h.setSource rfl over_of_stop
  | raiseCollector =>
    cases hs
    simp only [events, List.append_nil]
    exact ⟨h.current, h.source, h.copied, h.taken, h.unwritten⟩

end Barrier

/-- The collector gives a name to the sources. -/
def CollectorPc.distributes : CollectorPc → Bool
  | .copyName _ | .postEmpty _ => true
  | _ => false

/-- A source comes to its boundary when it posts `data_ready`. -/
theorem count_step {src src' : Source} {read : Read} {held : Bool}
    (h : src.step read = some src') (hpermit : src.Permit held) (hexit : src'.exitFlag = false) :
    src'.boundaries + src.dataReady = src.boundaries + src'.dataReady ∧
      (held = true → src'.boundaries = src.boundaries) := by
  cases hpc : src.pc <;> simp only [Source.step, hpc] at h <;>
    simp only [Source.Permit, Source.phase, hpc] at hpermit
  case reading => cases read <;> simp at h <;> grind
  all_goals grind

theorem flag_step {src src' : Source} {read : Read} (h : src.step read = some src')
    (hexit : src'.exitFlag = false) : src.exitFlag = false := by
  cases hpc : src.pc <;> simp only [Source.step, hpc] at h
  case reading => cases read <;> simp at h <;> grind
  all_goals grind

theorem Source.Permit.not_over {src : Source} {held : Bool} (h : src.Permit held)
    (hexit : src.exitFlag = false) : src.phase ≠ .over := by
  intro hover
  simp [Source.Permit, hover, hexit] at h

/-- Without its exit flag, a source has its permit in one of three places. -/
theorem Source.Permit.of_quiet {src : Source} {held : Bool} (h : src.Permit held)
    (hexit : src.exitFlag = false) : src.dataReady + held.toNat ≤ 1 := by
  simp only [Source.Permit] at h
  split at h
  · obtain ⟨-, hready, rfl⟩ := h
    simp [hready]
  · omega
  · simp [hexit] at h

namespace Barrier

variable (names : Nat → String) (n : Nat) (es : List BarrierEvent) (s : Barrier)

def Quiet : Prop := s.exitFlag = false ∧ ∀ i < n, (s.srcs i).exitFlag = false

/-- The names on the way from `first_action` to the sources. -/
def renewed : Nat :=
  s.emptyReady + (decide (s.first = .postEmpty)).toNat + s.pc.distributes.toNat

/-- The boundaries that the sources have come to, and the names they were given. -/
structure Counted : Prop where
  held : ∀ i < n, s.pc.holds i = true → (s.srcs i).boundaries + s.renewed = s.generated
  given : ∀ i < n, s.pc.holds i = false →
    (s.srcs i).boundaries + 1 = s.generated + (s.srcs i).dataReady
  added : ∀ i k name, .added i k name ∈ es → name = names (k + 1)

variable {names n es s} {s' : Barrier}

theorem counted_initial : (initial names).Counted names n [] where
  held _ _ _ := rfl
  given _ _ h := by cases h
  added _ _ _ h := by cases h

theorem Sound.turns_of_quiet (h : s.Sound n) (hexit : s.exitFlag = false) : s.turns = 1 := by
  rcases h.turn (Or.inl hexit) with hone | ⟨hfinal | hloop, -⟩
  · exact hone
  · have hleaving : s.pc.leaving = true := by
      cases hpc : s.pc <;> simp only [hpc, CollectorPc.final] at hfinal <;>
        first | rfl | cases hfinal
    exact absurd (h.leaving hleaving) (by simp [hexit])
  · exact absurd hloop.2 (by simp [hexit])

/-- While the collector has the turn, only it has a name for the sources. -/
theorem emptyReady_of_hasTurn (hturns : s.turns = 1) (hturn : s.pc.hasTurn = true) :
    s.emptyReady = 0 ∧ s.first ≠ .postEmpty := by
  simp only [turns, hturn, Bool.toNat_true] at hturns
  refine ⟨by omega, fun hfirst => ?_⟩
  simp [hfirst, FirstPc.hasTurn] at hturns

theorem counted_collectorStep (hsound : s.Sound n) (hquiet : s.Quiet n)
    (h : s.Counted names n es) (hs : s.collectorStep n = some s') : s'.Counted names n es := by
  have hturn := emptyReady_of_hasTurn (hsound.turns_of_quiet hquiet.1)
  have hleaving := hsound.leaving
  have hcount : ∀ i < n, (s'.pc.holds i = true →
        (s'.srcs i).boundaries + s'.renewed = s'.generated) ∧
      (s'.pc.holds i = false →
        (s'.srcs i).boundaries + 1 = s'.generated + (s'.srcs i).dataReady) := by
    intro i hi
    have hpermit := (hsound.permit i hi).of_quiet (hquiet.2 i hi)
    have hheld := h.held i hi
    have hgiven := h.given i hi
    cases hpc : s.pc <;> simp only [collectorStep, hpc] at hs <;>
      simp only [renewed, hpc, CollectorPc.holds, CollectorPc.hasTurn, CollectorPc.distributes,
        CollectorPc.leaving, hquiet.1] at hpermit hheld hgiven hturn hleaving
    case stopSource | finalStop | finalWait | finalPost => cases hleaving trivial
    all_goals
      (repeat' split at hs) <;> cases hs <;>
        simp only [renewed, setSource, Function.update_apply, CollectorPc.holds,
          CollectorPc.distributes] <;> grind
  exact ⟨fun i hi => (hcount i hi).1, fun i hi => (hcount i hi).2, h.added⟩

theorem counted_firstStep (hsound : s.Sound n) (hquiet : s.Quiet n)
    (h : s.Counted names n es) (hs : s.firstStep names = some s') : s'.Counted names n es := by
  obtain ⟨hheld, hgiven, hadded⟩ := h
  cases hf : s.first <;> simp only [firstStep, hf] at hs
  case rename =>
    cases hs
    have hturn : s.first.hasTurn = true := by rw [hf]; rfl
    refine ⟨fun i hi hholds => ?_, fun i hi hholds => ?_, hadded⟩
    · have hcount := hheld i hi hholds
      simp only [renewed, hf, decide_true, decide_false, reduceCtorEq] at hcount ⊢
      simp only [Bool.toNat_true, Bool.toNat_false] at hcount ⊢
      omega
    · have hphase := (hsound.permit i hi).not_over (hquiet.2 i hi)
      exact absurd ((hsound.exclusive hturn hi hphase).2.symm.trans hholds) (by decide)
  case exitPost => exact absurd (hsound.exitPost hf) (by simp [hquiet.1])
  case postEmpty =>
    cases hs
    refine ⟨fun i hi hholds => ?_, hgiven, hadded⟩
    have hcount := hheld i hi hholds
    simp [renewed, hf] at hcount ⊢
    omega
  all_goals
    (repeat' split at hs) <;> cases hs <;>
      refine ⟨fun i hi hholds => ?_, hgiven, hadded⟩ <;>
      have hcount := hheld i hi hholds <;>
      simpa [renewed, hf] using hcount

/-- A frame is added in the round that its source has counted. -/
theorem Counted.added_name (hsound : s.Sound n) (hnamed : s.Named names n es)
    (h : s.Counted names n es) {i : Nat} (hi : i < n) (hadd : (s.srcs i).pc = .addFrame) :
    (s.srcs i).data = names ((s.srcs i).boundaries + 1) := by
  have hphase : (s.srcs i).phase = .writing := by rw [Source.phase, hadd]
  have hpermit := hsound.permit i hi
  rw [Source.Permit, hphase] at hpermit
  obtain ⟨-, hready, hheld⟩ := hpermit
  rw [hnamed.source i hi (by simp [hphase]) hheld, h.given i hi hheld, hready, Nat.add_zero]

/-- A step of a source that keeps its exit flag down. -/
theorem Counted.setSource (hsound : s.Sound n) (h : s.Counted names n es) {i : Nat}
    {read : Read} {src : Source} (hsrc : (s.srcs i).step read = some src)
    (hexit : src.exitFlag = false) : (s.setSource i src).Counted names n es := by
  refine ⟨fun j hj hholds => ?_, fun j hj hholds => ?_, h.added⟩
  · have hheld := h.held j hj hholds
    rw [setSource_srcs]
    split
    case isTrue hji =>
      subst hji
      obtain ⟨-, hsame⟩ := count_step hsrc (hsound.permit j hj) hexit
      rw [hsame hholds]
      exact hheld
    case isFalse => exact hheld
  · have hgiven := h.given j hj hholds
    rw [setSource_srcs]
    split
    case isTrue hji =>
      subst hji
      obtain ⟨hcount, -⟩ := count_step hsrc (hsound.permit j hj) hexit
      simp only [Barrier.setSource] at hgiven ⊢
      omega
    case isFalse => exact hgiven

theorem Quiet.of_setSource {i : Nat} {src : Source} (h : (s.setSource i src).Quiet n)
    (hexit : src.exitFlag = false → (s.srcs i).exitFlag = false) : s.Quiet n := by
  refine ⟨h.1, fun j hj => ?_⟩
  have hflag := h.2 j hj
  rw [setSource_srcs] at hflag
  split at hflag
  case isTrue hji => exact hji ▸ hexit hflag
  case isFalse => exact hflag

/-- No step takes an exit flag back. -/
theorem quiet_of_step {a : Step} (hs : s.step names n a = some s') (h : s'.Quiet n) :
    s.Quiet n := by
  cases a with
  | source i read =>
    simp only [step, Option.ite_none_right_eq_some, Option.map_eq_some_iff] at hs
    obtain ⟨-, src, hsrc, rfl⟩ := hs
    exact h.of_setSource (flag_step hsrc)
  | collector =>
    simp only [step] at hs
    cases hpc : s.pc <;> simp only [collectorStep, hpc] at hs
    all_goals
      (repeat' split at hs) <;> cases hs
    all_goals
      first
      | exact h
      | exact Quiet.of_setSource h fun hdown => hdown
      | exact Quiet.of_setSource h fun hup => by cases hup
      | exact absurd h.1 (by simp)
  | firstAction =>
    simp only [step] at hs
    cases hf : s.first <;> simp only [firstStep, hf] at hs
    all_goals
      (repeat' split at hs) <;> cases hs <;> exact h
  | raiseSource i =>
    cases hs
    exact h.of_setSource fun hup => by cases hup
  | raiseCollector =>
    cases hs
    exact absurd h.1 (by simp)

theorem counted_step (hsound : s.Sound n) (hnamed : s.Named names n es) (hquiet : s'.Quiet n)
    (h : s.Counted names n es) {a : Step} (hs : s.step names n a = some s') :
    s'.Counted names n (es ++ s.events a) := by
  have hbefore := quiet_of_step hs hquiet
  cases a with
  | source i read =>
    simp only [step, Option.ite_none_right_eq_some, Option.map_eq_some_iff] at hs
    obtain ⟨hi, src, hsrc, rfl⟩ := hs
    have hexit : src.exitFlag = false := by simpa using hquiet.2 i hi
    have hkeep := h.setSource hsound hsrc hexit
    simp only [events]
    split
    case isTrue hadd =>
      refine ⟨hkeep.held, hkeep.given, fun j k name hmem => ?_⟩
      rcases List.mem_append.mp hmem with hold | hnew
      · exact h.added j k name hold
      · cases List.mem_singleton.mp hnew
        exact h.added_name hsound hnamed hi hadd
    case isFalse => rwa [List.append_nil]
  | collector =>
    simp only [events, List.append_nil]
    exact counted_collectorStep hsound hbefore h hs
  | firstAction =>
    obtain ⟨hheld, hgiven, hadded⟩ := counted_firstStep hsound hbefore h hs
    refine ⟨hheld, hgiven, fun i k name hmem => ?_⟩
    rcases List.mem_append.mp hmem with hold | hnew
    · exact hadded i k name hold
    · simp only [events] at hnew
      split at hnew <;> simp at hnew
  | raiseSource i =>
    cases hs
    simp only [events, List.append_nil]
    have hother : ∀ j < n, j ≠ i := by
      rintro j hj rfl
      exact absurd (hquiet.2 j hj) (by simp)
    refine ⟨fun j hj hholds => ?_, fun j hj hholds => ?_, h.added⟩
    · rw [setSource_srcs, if_neg (hother j hj)]
      exact h.held j hj hholds
    · rw [setSource_srcs, if_neg (hother j hj)]
      exact h.given j hj hholds
  | raiseCollector =>
    cases hs
    exact absurd hquiet.1 (by simp)

/-- What holds in every run. -/
theorem invariants_of_run (hinj : Function.Injective names)
    (h : Trace (barrier names n) (fun _ => True) (initial names) es s) :
    s.Sound n ∧ s.Named names n es ∧ (s.Quiet n → s.Counted names n es) := by
  refine invariant (P := fun es s => s.Sound n ∧ s.Named names n es ∧
    (s.Quiet n → s.Counted names n es))
    ⟨sound_initial names n, named_initial, fun _ => counted_initial⟩ ?_ h
  rintro es s a s' ⟨hsound, hnamed, hcounted⟩ - hs
  refine ⟨sound_step hsound a hs, named_step hinj hsound hnamed a hs, fun hquiet => ?_⟩
  exact counted_step hsound hnamed hquiet (hcounted (quiet_of_step hs hquiet)) hs

/-- **An object that the pipeline has is not written again**; and while no exit flag is set,
the frames of one round go to one object. -/
theorem handed_object_not_written (hinj : Function.Injective names)
    (h : Trace (barrier names n) (fun _ => True) (initial names) es s) :
    (∀ pre post name, es = pre ++ .taken name :: post → ∀ i k, .added i k name ∉ post) ∧
      (s.Quiet n → ∀ i j k x y, .added i k x ∈ es → .added j k y ∈ es → x = y) := by
  obtain ⟨-, hnamed, hcounted⟩ := invariants_of_run hinj h
  refine ⟨?_, fun hquiet i j k x y hx hy => ?_⟩
  · rintro pre post name rfl i k hmem
    have htail := (List.pairwise_append.mp hnamed.unwritten).2.1
    exact (List.pairwise_cons.mp htail).1 _ hmem name rfl i k rfl
  · have hadded := (hcounted hquiet).added
    rw [hadded i k x hx, hadded j k y hy]

def countedNames (k : Nat) : String := String.ofList (List.replicate k 'o')

/-- Two sources come to their first boundary, and add one frame each after it. -/
def firstRound : List Step :=
  List.replicate 5 .firstAction ++ List.replicate 7 .collector ++
    List.replicate 5 (.source 0 (.frame false)) ++ List.replicate 5 (.source 1 (.frame true)) ++
    List.replicate 8 .collector ++ List.replicate 5 .firstAction ++
    List.replicate 5 .collector ++ List.replicate 3 (.source 0 .incomplete) ++
    List.replicate 3 (.source 1 .incomplete)

theorem firstRound_runs :
    ((barrier countedNames 2).run firstRound (initial countedNames)).isSome = true := by
  decide

theorem countedNames_injective : Function.Injective countedNames := fun k l h => by
  simpa using congrArg List.length (String.ofList_injective h)

theorem handed_object_not_written_firstRound : ∃ es s,
    Trace (barrier countedNames 2) (fun _ => True) (initial countedNames) es s ∧
    .added 0 1 (countedNames 2) ∈ es ∧ .added 1 1 (countedNames 2) ∈ es ∧
    (∀ pre post name, es = pre ++ .taken name :: post → ∀ i k, .added i k name ∉ post) ∧
    ∀ i j k x y, .added i k x ∈ es → .added j k y ∈ es → x = y := by
  have hrun : Trace (barrier countedNames 2) (fun _ => True) (initial countedNames) _ _ :=
    trace_of_isSome (fun _ _ => trivial) firstRound_runs
  have hquiet : Quiet 2 (((barrier countedNames 2).run firstRound
      (initial countedNames)).get firstRound_runs).2 := ⟨by decide, by decide⟩
  have hproved := handed_object_not_written countedNames_injective hrun
  exact ⟨_, _, hrun, by decide, by decide, hproved.1, hproved.2 hquiet⟩

end Barrier

end DclProcessor.Collector
