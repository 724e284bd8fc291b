import DclProcessor.Collector.Objects

/-!
How `collect_data_thread` ends. Without exit flag it waits for `data_ready` of a source once
in a round; when it has seen its own exit flag it waits once more for each source, also for
those that have ended and posted for the last time.
-/

namespace DclProcessor.Collector

open Transition

/-- How often the collector still waits for source `i` before it ends. -/
def CollectorPc.need (i : Nat) : CollectorPc → Nat
  | .waitData j => if j ≤ i then 2 else 1
  | .finalStop j | .finalWait j => if j ≤ i then 1 else 0
  | .finalPost | .ended => 0
  | _ => 1

/-- A bound on the steps that the collector still takes when its exit flag is set. -/
def CollectorPc.toEnd (n : Nat) : CollectorPc → Nat
  | .ended => 0
  | .finalPost => 1
  | .finalStop j => 2 + 2 * (n - j)
  | .finalWait j => 3 + 2 * (n - (j + 1))
  | .loop => 3 + 2 * n
  | .copyName j => 4 + 2 * n + 2 * (n - j)
  | .postEmpty j => 5 + 2 * n + 2 * (n - (j + 1))
  | .stopSource j => 4 + 2 * n + (n - j)
  | .waitStart | .waitEmpty => 5 + 4 * n
  | .testExit => 6 + 4 * n
  | .checkSource j => 7 + 4 * n + 2 * (n - j)
  | .raiseExit j => 8 + 4 * n + 2 * (n - (j + 1))
  | .postData => 8 + 6 * n
  | .waitData j => 9 + 6 * n + (n - j)

/-- How far `first_action` is from its next post. -/
def FirstPc.toPost : FirstPc → Nat
  | .exitPost | .postEmpty => 1
  | .idle | .rename => 2
  | .take => 3
  | .waitData => 4

namespace Barrier

variable {names : Nat → String} {n : Nat} {es : List BarrierEvent} {s s' : Barrier}

theorem sound_of_run (h : Trace (barrier names n) (fun _ => True) (initial names) es s) :
    s.Sound n :=
  invariant (P := fun _ s => s.Sound n) (sound_initial names n)
    (fun _ _ a _ hsound _ hs => sound_step hsound a hs) h

variable (n s)

/-- All threads of sources have ended. -/
def SourcesEnded : Prop := ∀ i < n, (s.srcs i).pc = .ended

/-- The posts of the sources that are left are enough. -/
def Enough : Prop := ∀ i < n, s.pc.need i ≤ (s.srcs i).dataReady

/-- The collector waits only for sources that it has. -/
def Waiting : Prop := ∀ j, s.pc = .finalWait j → j < n

def toEnd : Nat := 8 * s.pc.toEnd n + if s.emptyReady = 0 then s.first.toPost else 0

variable {n s}

theorem collectorStep_pc (hs : s.collectorStep n = some s') (i : Nat) :
    (s'.srcs i).pc = (s.srcs i).pc := by
  cases hpc : s.pc <;> simp only [collectorStep, hpc] at hs
  all_goals
    (repeat' split at hs) <;> cases hs <;> simp only [setSource_srcs]
  all_goals grind

theorem firstStep_frame (hs : s.firstStep names = some s') :
    s'.srcs = s.srcs ∧ s'.pc = s.pc ∧ s'.exitFlag = s.exitFlag := by
  cases hf : s.first <;> simp only [firstStep, hf] at hs
  all_goals
    (repeat' split at hs) <;> cases hs <;> exact ⟨rfl, rfl, rfl⟩

theorem exitFlag_of_step {src src' : Source} {read : Read} (hs : src.step read = some src')
    (hexit : src.exitFlag = true) : src'.exitFlag = true := by
  by_contra hno
  have hclear := flag_step hs (by simpa using hno)
  rw [hexit] at hclear
  cases hclear

/-- The other threads leave a source where it is. -/
theorem pc_keeps {a : Step} {i : Nat} (hs : s.step names n a = some s')
    (ha : ∀ read, a ≠ .source i read) : (s'.srcs i).pc = (s.srcs i).pc := by
  cases a with
  | source j read =>
    simp only [step, Option.ite_none_right_eq_some, Option.map_eq_some_iff] at hs
    obtain ⟨-, src, -, rfl⟩ := hs
    rw [setSource_srcs, if_neg fun hij => ha read (by rw [hij])]
  | collector => exact collectorStep_pc hs i
  | firstAction => rw [(firstStep_frame hs).1]
  | raiseSource j =>
    cases hs
    rw [setSource_srcs]
    split
    · next hij => rw [hij]
    · rfl
  | raiseCollector =>
    cases hs
    rfl

/-- No step takes an exit flag back. -/
theorem exitFlag_keeps {a : Step} (hs : s.step names n a = some s') (i : Nat)
    (hexit : (s.srcs i).exitFlag = true) : (s'.srcs i).exitFlag = true := by
  cases a with
  | source j read =>
    simp only [step, Option.ite_none_right_eq_some, Option.map_eq_some_iff] at hs
    obtain ⟨-, src, hsrc, rfl⟩ := hs
    rw [setSource_srcs]
    split
    · next hij => exact exitFlag_of_step hsrc (hij ▸ hexit)
    · exact hexit
  | collector =>
    simp only [step] at hs
    cases hpc : s.pc <;> simp only [collectorStep, hpc] at hs
    all_goals
      (repeat' split at hs) <;> cases hs <;> simp only [setSource_srcs]
    all_goals grind
  | firstAction =>
    rw [(firstStep_frame hs).1]
    exact hexit
  | raiseSource j =>
    cases hs
    rw [setSource_srcs]
    split
    · rfl
    · exact hexit
  | raiseCollector =>
    cases hs
    exact hexit

theorem collectorStep_waiting (hs : s.collectorStep n = some s') : s'.Waiting n := by
  intro j hj
  cases hpc : s.pc <;> simp only [collectorStep, hpc] at hs
  all_goals
    (repeat' split at hs) <;> cases hs <;> grind

/-- A step of the collector does not make up for a post that is missing. -/
theorem enough_of_collectorStep (hs : s.collectorStep n = some s') (h : s'.Enough n) :
    s.Enough n := by
  intro i hi
  have hneed := h i hi
  cases hpc : s.pc <;> simp only [collectorStep, hpc] at hs
  all_goals
    (repeat' split at hs) <;> cases hs <;>
      simp only [setSource_srcs, CollectorPc.need] at hneed ⊢ <;> grind

/-- No step makes up for a missing post once the sources have ended. -/
theorem enough_of_step {a : Step} (hended : s.SourcesEnded n) (hs : s.step names n a = some s')
    (h : s'.Enough n) : s.Enough n := by
  cases a with
  | source i read =>
    simp only [step, Option.ite_none_right_eq_some, Option.map_eq_some_iff] at hs
    obtain ⟨hi, src, hsrc, -⟩ := hs
    simp [Source.step, hended i hi] at hsrc
  | collector => exact enough_of_collectorStep hs h
  | firstAction =>
    obtain ⟨hsrcs, hpc, -⟩ := firstStep_frame hs
    rwa [Enough, hsrcs, hpc] at h
  | raiseSource i =>
    cases hs
    intro j hj
    have hneed := h j hj
    rw [setSource_srcs] at hneed
    split at hneed
    case isTrue hji => subst hji; exact hneed
    case isFalse => exact hneed
  | raiseCollector =>
    cases hs
    exact h

theorem sourcesEnded_step {a : Step} (hended : s.SourcesEnded n)
    (hs : s.step names n a = some s') : s'.SourcesEnded n := by
  intro i hi
  have hold := hended i hi
  cases a with
  | source j read =>
    simp only [step, Option.ite_none_right_eq_some, Option.map_eq_some_iff] at hs
    obtain ⟨hj, src, hsrc, -⟩ := hs
    simp [Source.step, hended j hj] at hsrc
  | collector => rw [collectorStep_pc hs, hold]
  | firstAction => rw [(firstStep_frame hs).1, hold]
  | raiseSource j =>
    cases hs
    rw [setSource_srcs]
    split
    case isTrue hij => subst hij; exact hold
    case isFalse => exact hold
  | raiseCollector =>
    cases hs
    exact hold

/-- A collector that can end has all posts it waits for. -/
theorem enough_of_reaches {t : Barrier} (hended : s.SourcesEnded n)
    (h : Reaches (barrier names n) (fun _ => True) s t) (hend : t.pc = .ended) : s.Enough n := by
  have hlast : t.Enough n := fun i _ => by simp [hend, CollectorPc.need]
  by_contra hshort
  refine absurd hlast (h.invariant (P := fun u => u.SourcesEnded n ∧ ¬ u.Enough n)
    ⟨hended, hshort⟩ ?_).2
  rintro u a u' ⟨hu, hshort⟩ - hs
  exact ⟨sourcesEnded_step hu hs, fun henough => hshort (enough_of_step hu hs henough)⟩

theorem enough_collectorStep (hexit : s.exitFlag = true) (hs : s.collectorStep n = some s')
    (h : s.Enough n) : s'.Enough n := by
  intro i hi
  have hneed := h i hi
  cases hpc : s.pc <;> simp only [collectorStep, hpc] at hs
  all_goals
    (repeat' split at hs) <;> cases hs <;>
      simp only [hpc, setSource_srcs, CollectorPc.need] at hneed ⊢ <;> grind

theorem toEnd_collectorStep (hexit : s.exitFlag = true) (hs : s.collectorStep n = some s') :
    s'.pc.toEnd n < s.pc.toEnd n ∧ s'.exitFlag = true := by
  cases hpc : s.pc <;> simp only [collectorStep, hpc] at hs
  all_goals
    (repeat' split at hs) <;> cases hs <;> refine ⟨?_, by first | exact hexit | rfl⟩ <;>
      simp only [CollectorPc.toEnd] <;> grind

theorem collector_enabled (henough : s.Enough n) (hwaiting : s.Waiting n) (hend : s.pc ≠ .ended)
    (hready : s.pc = .waitStart ∨ s.pc = .waitEmpty → s.emptyReady ≠ 0) :
    ∃ s', s.collectorStep n = some s' := by
  cases hpc : s.pc <;> simp only [collectorStep, hpc]
  case waitStart => exact ⟨_, if_neg (hready (Or.inl hpc))⟩
  case waitEmpty => exact ⟨_, if_neg (hready (Or.inr hpc))⟩
  case waitData j =>
    split
    case isTrue hj =>
      have hneed := henough j hj
      simp only [hpc, CollectorPc.need, Nat.le_refl, if_true] at hneed
      exact ⟨_, if_neg (by omega)⟩
    case isFalse => exact ⟨_, rfl⟩
  case finalWait j =>
    have hneed := henough j (hwaiting j hpc)
    simp only [hpc, CollectorPc.need, Nat.le_refl, if_true] at hneed
    exact ⟨_, if_neg (by omega)⟩
  case ended => exact absurd hpc hend
  all_goals
    (repeat' split) <;> exact ⟨_, rfl⟩

/-- Where the collector waits for a name, the calls of `first_action` come to their post. -/
theorem first_enabled (names : Nat → String) (hsound : s.Sound n) (hexit : s.exitFlag = true)
    (hpc : s.pc = .waitStart ∨ s.pc = .waitEmpty) (hempty : s.emptyReady = 0) :
    ∃ s', s.firstStep names = some s' ∧ s'.toEnd n < s.toEnd n := by
  cases hf : s.first <;> simp only [firstStep, hf]
  case waitData =>
    have hturns : s.turns = 1 := by
      refine (hsound.turn (Or.inr (Or.inl hf))).resolve_right fun hend => ?_
      rcases hpc with hpc | hpc <;> simp [Ending, hpc, CollectorPc.final] at hend
    have hready : s.dataReady ≠ 0 := by
      rcases hpc with hpc | hpc <;>
        simp [turns, hf, hpc, hempty, FirstPc.hasTurn, CollectorPc.hasTurn] at hturns <;> omega
    exact ⟨_, if_neg hready, by simp [toEnd, hempty, hf, FirstPc.toPost]⟩
  case idle => exact ⟨_, rfl, by simp [toEnd, hempty, hf, hexit, FirstPc.toPost]⟩
  all_goals exact ⟨_, rfl, by simp [toEnd, hempty, hf, FirstPc.toPost]⟩

theorem waiting_of_run (h : Trace (barrier names n) (fun _ => True) (initial names) es s) :
    s.Waiting n := by
  refine invariant (P := fun _ s => s.Waiting n) (fun j hj => by cases hj) ?_ h
  rintro - s a s' hwaiting - hs
  cases a with
  | source i read =>
    simp only [barrier, step, Option.ite_none_right_eq_some, Option.map_eq_some_iff] at hs
    obtain ⟨-, src, -, rfl⟩ := hs
    exact hwaiting
  | collector => exact collectorStep_waiting hs
  | firstAction =>
    obtain ⟨-, hpc, -⟩ := firstStep_frame hs
    rwa [Waiting, hpc]
  | raiseSource i =>
    cases hs
    exact hwaiting
  | raiseCollector =>
    cases hs
    exact hwaiting

/-- With its exit flag set and enough posts left, the collector goes on, or a call of
`first_action` does. -/
theorem ending_progress (hsound : s.Sound n) (henough : s.Enough n) (hwaiting : s.Waiting n)
    (hexit : s.exitFlag = true) (hpc : s.pc ≠ .ended) :
    ∃ a s', s.step names n a = some s' ∧
      (s'.Sound n ∧ s'.Enough n ∧ s'.Waiting n ∧ s'.exitFlag = true) ∧ s'.toEnd n < s.toEnd n := by
  by_cases hready : (s.pc = .waitStart ∨ s.pc = .waitEmpty) ∧ s.emptyReady = 0
  · obtain ⟨s', hs, hlt⟩ := first_enabled names hsound hexit hready.1 hready.2
    obtain ⟨hsrcs, hpc', hexit'⟩ := firstStep_frame hs
    refine ⟨.firstAction, s', hs, ⟨sound_firstStep hsound hs, ?_, ?_, ?_⟩, hlt⟩
    · rwa [Enough, hsrcs, hpc']
    · rwa [Waiting, hpc']
    · rw [hexit', hexit]
  · obtain ⟨s', hs⟩ := collector_enabled henough hwaiting hpc
      fun hwait hempty => hready ⟨hwait, hempty⟩
    obtain ⟨hlt, hexit'⟩ := toEnd_collectorStep hexit hs
    refine ⟨.collector, s', hs, ⟨sound_collectorStep hsound hs,
      enough_collectorStep hexit hs henough, collectorStep_waiting hs, hexit'⟩, ?_⟩
    have hfirst : (if s'.emptyReady = 0 then s'.first.toPost else 0) ≤ 4 := by
      split
      · cases s'.first <;> decide
      · exact Nat.zero_le _
    simp only [toEnd]
    omega

theorem reaches_ended (hsound : s.Sound n) (henough : s.Enough n) (hwaiting : s.Waiting n)
    (hexit : s.exitFlag = true) :
    ∃ t, Reaches (barrier names n) (fun _ => True) s t ∧ t.pc = .ended := by
  have hprogress : ∀ u : Barrier, (u.Sound n ∧ u.Enough n ∧ u.Waiting n ∧ u.exitFlag = true) →
      ¬ u.pc = .ended → ∃ a u', True ∧ (barrier names n).step u a = some u' ∧
        (u'.Sound n ∧ u'.Enough n ∧ u'.Waiting n ∧ u'.exitFlag = true) ∧
        u'.toEnd n < u.toEnd n := by
    rintro u ⟨hsound, henough, hwaiting, hexit⟩ hpc
    obtain ⟨a, u', hs, hkeep, hlt⟩ := ending_progress hsound henough hwaiting hexit hpc
    exact ⟨a, u', trivial, hs, hkeep, hlt⟩
  obtain ⟨t, hreaches, -, hend⟩ := reaches_of_variant (fun u : Barrier => u.toEnd n) hprogress
    ⟨hsound, henough, hwaiting, hexit⟩
  exact ⟨t, hreaches, hend⟩

/-- **When the collector can end.** After the last source has ended, the collector can come
to its end if and only if the posts that are left cover the waits that it still has. -/
theorem can_end_iff_enough (h : Trace (barrier names n) (fun _ => True) (initial names) es s)
    (hended : s.SourcesEnded n) :
    (∃ t, Reaches (barrier names n) (fun _ => True) s t ∧ t.pc = .ended) ↔ s.Enough n := by
  refine ⟨fun ⟨t, hreaches, hend⟩ => enough_of_reaches hended hreaches hend, fun henough => ?_⟩
  -- `collector_destroy` sets the exit flag first
  have hwaiting := waiting_of_run h
  obtain ⟨t, hreaches, hend⟩ := reaches_ended (sound_of_run h).raise henough hwaiting rfl
  exact ⟨t, .head .raiseCollector trivial rfl hreaches, hend⟩

/-- The exit flag of the collector is set, its source posts once and ends. -/
def destroyed : List Step :=
  List.replicate 5 .firstAction ++ List.replicate 4 .collector ++ [.raiseCollector] ++
    List.replicate 2 .collector ++ List.replicate 3 (.source 0 .incomplete)

theorem destroyed_runs :
    ((barrier countedNames 1).run destroyed (initial countedNames)).isSome = true := by decide

theorem can_end_destroyed : ∃ es s,
    Trace (barrier countedNames 1) (fun _ => True) (initial countedNames) es s ∧
    s.SourcesEnded 1 ∧ s.pc = .finalWait 0 ∧
    ∃ t, Reaches (barrier countedNames 1) (fun _ => True) s t ∧ t.pc = .ended := by
  have hrun : Trace (barrier countedNames 1) (fun _ => True) (initial countedNames) _ _ :=
    trace_of_isSome (fun _ _ => trivial) destroyed_runs
  have hended : (((barrier countedNames 1).run destroyed
      (initial countedNames)).get destroyed_runs).2.SourcesEnded 1 := by
    intro i hi
    obtain rfl : i = 0 := by omega
    decide
  have henough : (((barrier countedNames 1).run destroyed
      (initial countedNames)).get destroyed_runs).2.Enough 1 := by
    intro i hi
    obtain rfl : i = 0 := by omega
    decide
  exact ⟨_, _, hrun, hended, by decide, (can_end_iff_enough hrun hended).2 henough⟩

/-- The only source has a read error and ends. The collector takes its post in the round,
then it waits for one more. -/
def readError : List Step :=
  List.replicate 5 .firstAction ++ List.replicate 4 .collector ++
    List.replicate 4 (.source 0 .error) ++ List.replicate 12 .collector

theorem readError_runs :
    ((barrier countedNames 1).run readError (initial countedNames)).isSome = true := by decide

theorem waits_after_last_post :
    ¬ ∀ (names : Nat → String) (n : Nat) (es : List BarrierEvent) (s : Barrier), 1 ≤ n →
      Function.Injective names →
      Trace (barrier names n) (fun _ => True) (initial names) es s → s.SourcesEnded n →
      ∃ t, Reaches (barrier names n) (fun _ => True) s t ∧ t.pc = .ended := by
  intro hclaim
  have hrun : Trace (barrier countedNames 1) (fun _ => True) (initial countedNames) _ _ :=
    trace_of_isSome (fun _ _ => trivial) readError_runs
  have hended : (((barrier countedNames 1).run readError
      (initial countedNames)).get readError_runs).2.SourcesEnded 1 := by
    intro i hi
    obtain rfl : i = 0 := by omega
    decide
  obtain ⟨t, hreaches, hend⟩ := hclaim countedNames 1 _ _ (Nat.le_refl 1)
    countedNames_injective hrun hended
  exact absurd (enough_of_reaches hended hreaches hend 0 Nat.one_pos) (by decide)

end Barrier

end DclProcessor.Collector
