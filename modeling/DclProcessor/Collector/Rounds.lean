import DclProcessor.Collector.Barrier

/-!
The rounds of the barrier. A source may add frames only while it has the permit that goes
from it to its `data_ready`, to the collector and back through its `empty_ready`; and the
collector and `first_action` hand each other one turn through theirs.
-/

namespace DclProcessor.Collector

open Transition

/-- A source adds frames, waits for its permit, or will never add a frame again. -/
inductive SourcePhase
  | writing
  | parked
  | over
  deriving DecidableEq

def Source.phase (src : Source) : SourcePhase :=
  match src.pc with
  | .addFrame => .writing
  | .waitStart | .testExit | .waitEmpty => if src.exitFlag then .over else .parked
  | .loop | .reading | .postBoundary | .testAdd => if src.exitFlag then .over else .writing
  | .postEnd | .ended => .over

/-- The collector has the permit of source `i`. -/
def CollectorPc.holds (i : Nat) : CollectorPc → Bool
  | .loop => false
  | .copyName j => j ≤ i
  | .postEmpty j => j ≤ i
  | .waitData j => i < j
  | .finalStop j => i < j
  | .finalWait j => i < j
  | _ => true

/-- There is one permit, unless the source was stopped. -/
def Source.Permit (src : Source) (held : Bool) : Prop :=
  match src.phase with
  | .writing => src.emptyReady = 0 ∧ src.dataReady = 0 ∧ held = false
  | .parked => src.emptyReady + src.dataReady + held.toNat = 1
  | .over => src.exitFlag = true

section Source

variable {src src' : Source} {read : Read} {held : Bool}

theorem over_step (h : src.step read = some src') (hover : src.phase = .over) :
    src'.phase = .over := by
  cases hpc : src.pc <;> simp only [Source.step, hpc] at h <;>
    simp only [Source.phase, hpc] at hover
  case reading => cases read <;> simp at h <;> grind [Source.phase]
  all_goals grind [Source.phase]

theorem permit_step (h : src.step read = some src') (hpermit : src.Permit held) :
    src'.Permit held := by
  cases hpc : src.pc <;> simp only [Source.step, hpc] at h <;>
    simp only [Source.Permit, Source.phase, hpc] at hpermit
  case reading => cases read <;> simp at h <;> grind [Source.phase, Source.Permit]
  all_goals grind [Source.phase, Source.Permit]

end Source

section Permit

variable {src : Source} {held : Bool}

theorem Source.Permit.of_over {held' : Bool} (h : src.Permit held') (hover : src.phase = .over) :
    src.Permit held := by
  simpa [Source.Permit, hover] using h

/-- The collector gives the permit back. -/
theorem Source.Permit.give (h : src.Permit true) :
    ({ src with emptyReady := src.emptyReady + 1 } : Source).Permit false := by
  simp only [Source.Permit, Source.phase] at h ⊢
  grind

/-- The collector takes the permit. -/
theorem Source.Permit.collect (h : src.Permit false) (hready : src.dataReady ≠ 0) :
    ({ src with dataReady := src.dataReady - 1 } : Source).Permit true := by
  simp only [Source.Permit, Source.phase] at h ⊢
  grind

theorem Source.Permit.stop (h : src.Permit held) :
    ({ src with exitFlag := true } : Source).Permit held := by
  simp only [Source.Permit, Source.phase] at h ⊢
  grind

/-- Where the collector has the permit, a source that is stopped is over. -/
theorem Source.Permit.over_of_stop (h : src.Permit true) :
    ({ src with exitFlag := true } : Source).phase = .over := by
  simp only [Source.Permit, Source.phase] at h ⊢
  grind

theorem over_of_stop (h : src.phase = .over) :
    ({ src with exitFlag := true } : Source).phase = .over := by
  simp only [Source.phase] at h ⊢
  grind

end Permit

/-- The calls of `first_action` hand the turn on. -/
def FirstPc.hasTurn : FirstPc → Bool
  | .take | .rename | .postEmpty => true
  | _ => false

/-- The collector has the turn: names go out to the sources, or permits come in. -/
def CollectorPc.hasTurn : CollectorPc → Bool
  | .copyName _ | .postEmpty _ | .loop | .waitData _ | .postData => true
  | .finalStop _ | .finalWait _ | .finalPost => true
  | _ => false

/-- The collector has seen its exit flag. -/
def CollectorPc.leaving : CollectorPc → Bool
  | .stopSource _ | .finalStop _ | .finalWait _ | .finalPost | .ended => true
  | _ => false

/-- The collector will not go to the sources with a name again. -/
def CollectorPc.final : CollectorPc → Bool
  | .finalStop _ | .finalWait _ | .finalPost | .ended => true
  | _ => false

namespace Barrier

variable (n : Nat) (s : Barrier)

def turns : Nat :=
  s.dataReady + s.emptyReady + s.first.hasTurn.toNat + s.pc.hasTurn.toNat

/-- A call may still copy the name of `collector->data`. -/
def MayTake : Prop :=
  s.exitFlag = false ∨ s.first = .waitData ∨ s.first.hasTurn = true

def AllOver : Prop := ∀ i < n, (s.srcs i).phase = .over

/-- After a name was posted and the collector has stopped, its last turn comes on top. -/
def Ending : Prop :=
  (s.pc.final = true ∨ (s.pc = .loop ∧ s.exitFlag = true)) ∧ s.AllOver n

structure Sound : Prop where
  permit : ∀ i < n, (s.srcs i).Permit (s.pc.holds i)
  stopped : ∀ j, s.pc = .stopSource j → ∀ i < n, i < j → (s.srcs i).phase = .over
  leaving : s.pc.leaving = true → s.exitFlag = true
  turn : s.MayTake → s.turns = 1 ∨ s.Ending n
  exitPost : s.first = .exitPost → s.exitFlag = true

variable {n s} {s' : Barrier}

@[simp] theorem setSource_srcs (j : Nat) (src : Source) (i : Nat) :
    (s.setSource j src).srcs i = if i = j then src else s.srcs i := by
  simp [setSource, Function.update_apply]

/-- A step that only changes one source keeps the rest of the invariant. -/
theorem Sound.setSource {j : Nat} {src : Source} (h : s.Sound n)
    (hpermit : ∀ held, (s.srcs j).Permit held → src.Permit held)
    (hover : (s.srcs j).phase = .over → src.phase = .over) : (s.setSource j src).Sound n where
  permit i hi := by
    rw [setSource_srcs]
    split
    case isTrue hij => exact hpermit _ (hij ▸ h.permit i hi)
    case isFalse => exact h.permit i hi
  stopped k hk i hi hik := by
    have hphase := h.stopped k hk i hi hik
    rw [setSource_srcs]
    split
    case isTrue hij => exact hover (hij ▸ hphase)
    case isFalse => exact hphase
  leaving := h.leaving
  turn htake := by
    refine (h.turn htake).imp_right fun ⟨hfinal, hall⟩ => ⟨hfinal, fun i hi => ?_⟩
    rw [setSource_srcs]
    split
    case isTrue hij => exact hover (hij ▸ hall i hi)
    case isFalse => exact hall i hi
  exitPost := h.exitPost

theorem sound_firstStep {names : Nat → String} (h : s.Sound n) (hs : s.firstStep names = some s') :
    s'.Sound n := by
  obtain ⟨hpermit, hstopped, hleaving, hturn, hexit⟩ := h
  cases hf : s.first <;> simp only [firstStep, hf] at hs
  case waitData =>
    split at hs <;> cases hs
    refine ⟨hpermit, hstopped, hleaving, fun _ => ?_, by simp⟩
    have hold := hturn (Or.inr (Or.inl hf))
    simp only [turns, hf, FirstPc.hasTurn, Ending, AllOver] at hold ⊢
    exact hold.imp_left fun hone => by simp at hone ⊢; omega
  all_goals
    cases hs
    refine ⟨hpermit, hstopped, hleaving, fun htake => ?_, ?_⟩
    · simp only [turns, MayTake, hf, FirstPc.hasTurn, Ending, AllOver] at hturn hexit htake ⊢
      grind
    · grind

/-- A step of the collector: the permits are accounted for, and the turn is handed on or the
collector is about to end. -/
theorem Sound.next (h : s.Sound n) (hfirst : s'.first = s.first)
    (hexit : s.exitFlag = true → s'.exitFlag = true)
    (hpermit : ∀ i < n, (s'.srcs i).Permit (s'.pc.holds i))
    (hstopped : ∀ j, s'.pc = .stopSource j → ∀ i < n, i < j → (s'.srcs i).phase = .over)
    (hleaving : s'.pc.leaving = true → s'.exitFlag = true)
    (hturns : s'.turns = s.turns ∨ s'.Ending n) (hending : s.Ending n → s'.Ending n) :
    s'.Sound n where
  permit := hpermit
  stopped := hstopped
  leaving := hleaving
  turn htake := by
    have hold : s.MayTake := by
      refine htake.imp (fun hgo => ?_) (fun hfirst' => hfirst ▸ hfirst')
      exact Bool.eq_false_iff.mpr fun hset => by simp [hexit hset] at hgo
    rcases hturns with hsame | hending'
    · exact (h.turn hold).imp (hsame.trans ·) hending
    · exact Or.inr hending'
  exitPost hpost := hexit (h.exitPost (hfirst ▸ hpost))

/-- The permits after a step that changes source `j`. -/
theorem Sound.permits (h : s.Sound n) {pc : CollectorPc} {j : Nat} {src : Source}
    (hother : ∀ i < n, i ≠ j → pc.holds i = s.pc.holds i)
    (hself : j < n → src.Permit (pc.holds j)) :
    ∀ i < n, ((s.setSource j src).srcs i).Permit (pc.holds i) := by
  intro i hi
  rw [setSource_srcs]
  split
  case isTrue hij => exact hij ▸ hself (hij ▸ hi)
  case isFalse hij => exact hother i hi hij ▸ h.permit i hi

/-- The permits after the collector has taken the one of source `j`. -/
theorem Sound.permits_collect (h : s.Sound n) {pc : CollectorPc} {j : Nat}
    (hold : ∀ i, s.pc.holds i = decide (i < j)) (hnew : ∀ i, pc.holds i = decide (i < j + 1))
    (hready : (s.srcs j).dataReady ≠ 0) :
    ∀ i < n, ((s.setSource j { s.srcs j with dataReady := (s.srcs j).dataReady - 1 }).srcs
      i).Permit (pc.holds i) := by
  refine h.permits (fun i _ hij => ?_) fun hj => ?_
  · rw [hold, hnew, decide_eq_decide]
    omega
  · have hheld := h.permit j hj
    rw [hold, decide_eq_false (Nat.lt_irrefl j)] at hheld
    rw [hnew, decide_eq_true (Nat.lt_succ_self j)]
    exact hheld.collect hready

/-- The permits after the last source was asked for its one. -/
theorem Sound.permits_all (h : s.Sound n) {j : Nat} (hj : ¬ j < n)
    (hold : ∀ i, s.pc.holds i = decide (i < j)) : ∀ i < n, (s.srcs i).Permit true := by
  intro i hi
  have hheld := h.permit i hi
  rwa [hold, decide_eq_true (by omega : i < j)] at hheld

/-- A step of the collector within its loop: the turn is handed on. -/
theorem Sound.goOn (h : s.Sound n) (hloop : s.pc.final = false ∧ s.pc ≠ .loop)
    (hfirst : s'.first = s.first) (hexit : s.exitFlag = true → s'.exitFlag = true)
    (hpermit : ∀ i < n, (s'.srcs i).Permit (s'.pc.holds i)) (hstays : s'.pc.leaving = false)
    (hturns : s'.turns = s.turns) : s'.Sound n := by
  refine h.next hfirst hexit hpermit (fun j hstop => ?_) (fun hleaves => ?_) (Or.inl hturns)
    fun hend => ?_
  · rw [hstop] at hstays
    cases hstays
  · rw [hstays] at hleaves
    cases hleaves
  · rcases hend.1 with hfinal | ⟨hpc, -⟩
    · rw [hloop.1] at hfinal
      cases hfinal
    · exact absurd hpc hloop.2

/-- No source that is over changes that when one source is changed. -/
theorem AllOver.setSource (h : s.AllOver n) {j : Nat} {src : Source}
    (hover : (s.srcs j).phase = .over → src.phase = .over) : (s.setSource j src).AllOver n := by
  intro i hi
  rw [setSource_srcs]
  split
  case isTrue hij => exact hover (hij ▸ h i hi)
  case isFalse => exact h i hi

/-- A step of the collector on its way round. -/
theorem sound_roundStep (h : s.Sound n) (hs : s.collectorStep n = some s')
    (hround : s.pc.leaving = false) : s'.Sound n := by
  have hpermit := h.permit
  cases hpc : s.pc <;> simp only [hpc, CollectorPc.leaving, reduceCtorEq] at hround <;>
    simp only [collectorStep, hpc] at hs <;> simp only [hpc] at hpermit
  case waitStart | waitEmpty =>
    split at hs <;> cases hs
    refine h.goOn (by simp [hpc, CollectorPc.final]) rfl id (fun i hi => hpermit i hi) rfl ?_
    simp [turns, hpc, CollectorPc.hasTurn]
    omega
  case copyName j =>
    split at hs <;> cases hs
    case isTrue hj =>
      have hself := hpermit j hj
      refine h.goOn (by simp [hpc, CollectorPc.final]) rfl id
        (h.permits (fun i _ _ => by rw [hpc]; rfl) fun _ => hself) rfl ?_
      simp [turns, hpc, CollectorPc.hasTurn, setSource]
    case isFalse hj =>
      refine h.goOn (by simp [hpc, CollectorPc.final]) rfl id (fun i hi => ?_) rfl ?_
      · have hheld := hpermit i hi
        have hji : ¬ j ≤ i := by omega
        simpa only [CollectorPc.holds, hji, decide_false] using hheld
      · simp [turns, hpc, CollectorPc.hasTurn]
  case postEmpty j =>
    cases hs
    refine h.goOn (by simp [hpc, CollectorPc.final]) rfl id
      (h.permits (fun i _ hij => ?_) fun hj => ?_) rfl ?_
    · rw [hpc]
      simp only [CollectorPc.holds]
      grind
    · have hheld := hpermit j hj
      have hgone : ¬ j + 1 ≤ j := by omega
      simp only [CollectorPc.holds, Nat.le_refl, decide_true] at hheld
      simpa only [CollectorPc.holds, hgone, decide_false] using hheld.give
    · simp [turns, hpc, CollectorPc.hasTurn, setSource]
  case loop =>
    cases hs
    by_cases hexit : s.exitFlag = true
    · rw [if_pos hexit]
      refine h.next rfl id (fun i hi => ?_) (by simp) (fun _ => hexit) (Or.inl ?_) ?_
      · simpa [CollectorPc.holds] using hpermit i hi
      · simp [turns, hpc, CollectorPc.hasTurn]
      · exact fun hend => ⟨Or.inl rfl, hend.2⟩
    · rw [if_neg hexit]
      refine h.next rfl id (fun i hi => ?_) (by simp) (by simp [CollectorPc.leaving]) (Or.inl ?_) ?_
      · simpa [CollectorPc.holds] using hpermit i hi
      · simp [turns, hpc, CollectorPc.hasTurn]
      · simp [Ending, hpc, hexit, CollectorPc.final]
  case waitData j =>
    split at hs
    case isTrue hj =>
      split at hs <;> cases hs
      rename_i hready
      refine h.goOn (by simp [hpc, CollectorPc.final]) rfl id
        (h.permits_collect (fun i => by rw [hpc]; rfl) (fun i => rfl) hready) rfl ?_
      simp [turns, hpc, CollectorPc.hasTurn, setSource]
    case isFalse hj =>
      cases hs
      refine h.goOn (by simp [hpc, CollectorPc.final]) rfl id
        (h.permits_all hj fun i => by rw [hpc]; rfl) rfl ?_
      simp [turns, hpc, CollectorPc.hasTurn]
  case postData =>
    cases hs
    refine h.goOn (by simp [hpc, CollectorPc.final]) rfl id (fun i hi => hpermit i hi) rfl ?_
    simp [turns, hpc, CollectorPc.hasTurn]
    omega
  case checkSource j =>
    (repeat' split at hs) <;> cases hs
    all_goals
      refine h.goOn (by simp [hpc, CollectorPc.final]) rfl id (fun i hi => hpermit i hi) rfl ?_
      simp [turns, hpc, CollectorPc.hasTurn]
  case raiseExit j =>
    cases hs
    refine h.goOn (by simp [hpc, CollectorPc.final]) rfl (fun _ => rfl)
      (fun i hi => hpermit i hi) rfl ?_
    simp [turns, hpc, CollectorPc.hasTurn]
  case testExit =>
    cases hs
    refine h.next rfl id (fun i hi => ?_) (by split <;> simp) ?_ (Or.inl ?_) ?_
    · split <;> exact hpermit i hi
    · split <;> simp_all [CollectorPc.leaving]
    · split <;> simp [turns, hpc, CollectorPc.hasTurn]
    · simp [Ending, hpc, CollectorPc.final]

/-- A step of the collector that stops the sources. -/
theorem sound_leavingStep (h : s.Sound n) (hs : s.collectorStep n = some s')
    (hleave : s.pc.leaving = true) : s'.Sound n := by
  have hpermit := h.permit
  have hstopped := h.stopped
  have hexit := h.leaving hleave
  cases hpc : s.pc <;> simp only [hpc, CollectorPc.leaving, reduceCtorEq] at hleave <;>
    simp only [collectorStep, hpc] at hs <;> simp only [hpc] at hpermit hstopped
  case stopSource j =>
    split at hs <;> cases hs
    case isTrue hj =>
      have hself := (hpermit j hj)
      refine h.next rfl id (h.permits (fun i _ _ => by rw [hpc]; rfl) fun _ => hself.stop) ?_
        (fun _ => hexit) (Or.inl ?_) ?_
      · intro k hk i hi hik
        simp only [CollectorPc.stopSource.injEq] at hk
        subst hk
        simp only [setSource_srcs]
        split
        · exact hself.over_of_stop
        · exact hstopped j rfl i hi (by omega)
      · simp [turns, hpc, CollectorPc.hasTurn, setSource]
      · simp [Ending, hpc, CollectorPc.final]
    case isFalse hj =>
      have hall : ∀ i < n, (s.srcs i).phase = .over := fun i hi => hstopped j rfl i hi (by omega)
      refine h.next rfl id (fun i hi => (hpermit i hi).of_over (hall i hi)) (by simp)
        (by simp [CollectorPc.leaving]) (Or.inr ?_) ?_
      · exact ⟨Or.inr ⟨rfl, hexit⟩, hall⟩
      · simp [Ending, hpc, CollectorPc.final]
  case finalStop j =>
    split at hs <;> cases hs
    case isTrue hj =>
      refine h.next rfl id (h.permits (fun i _ _ => by rw [hpc]; rfl) fun _ => ?_) (by simp)
        (fun _ => hexit) (Or.inl ?_) ?_
      · exact (hpermit j hj).stop
      · simp [turns, hpc, CollectorPc.hasTurn, setSource]
      · exact fun hend => ⟨Or.inl rfl, hend.2.setSource over_of_stop⟩
    case isFalse hj =>
      refine h.next rfl id (h.permits_all hj fun i => by rw [hpc]; rfl) (by simp)
        (fun _ => hexit) (Or.inl ?_) ?_
      · simp [turns, hpc, CollectorPc.hasTurn]
      · exact fun hend => ⟨Or.inl rfl, hend.2⟩
  case finalWait j =>
    split at hs <;> cases hs
    rename_i hready
    refine h.next rfl id
      (h.permits_collect (fun i => by rw [hpc]; rfl) (fun i => rfl) hready) (by simp)
      (fun _ => hexit) (Or.inl ?_) ?_
    · simp [turns, hpc, CollectorPc.hasTurn, setSource]
    · exact fun hend => ⟨Or.inl rfl, hend.2.setSource fun hover => hover⟩
  case finalPost =>
    cases hs
    refine h.next rfl id (fun i hi => hpermit i hi) (by simp) (fun _ => hexit)
      (Or.inl ?_) ?_
    · simp [turns, hpc, CollectorPc.hasTurn]; omega
    · exact fun hend => ⟨Or.inl rfl, hend.2⟩
  case ended => cases hs

theorem sound_collectorStep (h : s.Sound n) (hs : s.collectorStep n = some s') : s'.Sound n := by
  cases hpc : s.pc.leaving with
  | false => exact sound_roundStep h hs hpc
  | true => exact sound_leavingStep h hs hpc

theorem sound_initial (names : Nat → String) (n : Nat) : (initial names).Sound n where
  permit i _ := by simp [initial, Source.Permit, Source.phase, CollectorPc.holds]
  stopped j hj := by cases hj
  leaving h := by cases h
  turn _ := Or.inl rfl
  exitPost h := by cases h

/-- The exit flag of the collector may be set at any moment. -/
theorem Sound.raise (h : s.Sound n) : ({ s with exitFlag := true } : Barrier).Sound n := by
  refine h.next rfl (fun _ => rfl) h.permit h.stopped (fun _ => rfl) (Or.inl rfl) ?_
  exact fun hend => ⟨hend.1.imp_right fun hloop => ⟨hloop.1, rfl⟩, hend.2⟩

theorem sound_step {names : Nat → String} (h : s.Sound n) (a : Step)
    (hs : s.step names n a = some s') : s'.Sound n := by
  cases a with
  | source i read =>
    simp only [step, Option.ite_none_right_eq_some, Option.map_eq_some_iff] at hs
    obtain ⟨-, src, hsrc, rfl⟩ := hs
    exact h.setSource (fun _ => permit_step hsrc) (over_step hsrc)
  | collector => exact sound_collectorStep h hs
  | firstAction => exact sound_firstStep h hs
  | raiseSource i =>
    cases hs
    exact h.setSource (fun _ => Source.Permit.stop) over_of_stop
  | raiseCollector =>
    cases hs
    exact h.raise

end Barrier

end DclProcessor.Collector
