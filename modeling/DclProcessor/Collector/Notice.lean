import DclProcessor.Collector.Rounds

/-!
What `collect_data_thread` makes of the exit flags of its sources: the loop that counts them,
and the flags that it raises before its main loop ends.
-/

namespace DclProcessor.Collector

open Transition

/-- Before the loop over the exit flags, which are as they happen to be. -/
def Barrier.checking (s : Barrier) : Barrier := { s with pc := .checkSource 0, exitFlag := false }

/-- The loop ends; it has raised `collector->exit_flag` exactly when all flags are set, and by
the end of the main loop, which needs that flag, all flags are set. -/
structure Notices (names : Nat → String) (n : Nat) (s : Barrier) : Prop where
  ends : ∃ t, Reaches (barrier names n) (· = .collector) s.checking t ∧ t.pc = .testExit
  counts : ∀ t, Reaches (barrier names n) (· = .collector) s.checking t → t.pc = .testExit →
    (t.exitFlag = true ↔ ∀ i < n, (s.srcs i).exitFlag = true)
  stops : ∀ t, Reaches (barrier names n) (· = .collector) s.checking t → t.pc = .finalStop 0 →
    ∀ i < n, (t.srcs i).exitFlag = true

variable {names : Nat → String} {n : Nat} {s t t' : Barrier}

/-- The only case in which `cnt` comes to `sources_cnt`. -/
def Single (n : Nat) (s : Barrier) : Prop := n = 1 ∧ (s.srcs 0).exitFlag = true

/-- `collector->exit_flag` is raised for a single source only, and then the flag that would be
raised for it is set already. -/
structure Checked (n : Nat) (s t : Barrier) : Prop where
  flags : ∀ i < n, (t.srcs i).exitFlag = (s.srcs i).exitFlag
  raised : t.exitFlag = true → Single n s
  raises : ∀ j, t.pc = .raiseExit j → Single n s
  missed : Single n s → t.exitFlag = true ∨ t.pc = .checkSource 0 ∨ t.pc = .raiseExit 0
  leaving : t.pc.leaving = true → t.exitFlag = true

theorem checked_start (n : Nat) (s : Barrier) : Checked n s s.checking where
  flags _ _ := rfl
  raised h := by cases h
  raises j h := by cases h
  missed _ := Or.inr (Or.inl rfl)
  leaving h := by cases h

/-- The statements of the loop over the exit flags. -/
def CollectorPc.inCheck : CollectorPc → Bool
  | .checkSource _ | .raiseExit _ => true
  | _ => false

/-- A step that changes no flag, outside of the loop. -/
theorem Checked.next (h : Checked n s t) (hout : t.pc.inCheck = false)
    (hflags : ∀ i < n, (t'.srcs i).exitFlag = (t.srcs i).exitFlag)
    (hexit : t'.exitFlag = t.exitFlag) (hraise : ∀ j, t'.pc ≠ .raiseExit j)
    (hleaving : t'.pc.leaving = true → t.exitFlag = true) : Checked n s t' where
  flags i hi := (hflags i hi).trans (h.flags i hi)
  raised hset := h.raised (hexit ▸ hset)
  raises j hj := absurd hj (hraise j)
  missed hsingle := by
    rcases h.missed hsingle with hset | hpc | hpc
    · exact Or.inl (hexit ▸ hset)
    · rw [hpc] at hout
      cases hout
    · rw [hpc] at hout
      cases hout
  leaving hpc := hexit ▸ hleaving hpc

/-- Where the collector is leaving, raising the flag of a source changes nothing. -/
theorem Checked.set (h : Checked n s t) (hexit : t.exitFlag = true) {i j : Nat} (hi : i < n)
    (hj : j < n) : ((t.setSource j { t.srcs j with exitFlag := true }).srcs i).exitFlag =
      (t.srcs i).exitFlag := by
  obtain ⟨rfl, hset⟩ := h.raised hexit
  obtain rfl : i = 0 := by omega
  obtain rfl : j = 0 := by omega
  rw [Barrier.setSource_srcs, if_pos rfl, h.flags 0 hi, hset]

theorem setSource_exitFlag {i j : Nat} {src : Source}
    (hsrc : src.exitFlag = (t.srcs j).exitFlag) :
    ((t.setSource j src).srcs i).exitFlag = (t.srcs i).exitFlag := by
  rw [Barrier.setSource_srcs]
  split
  case isTrue hij => rw [hsrc, hij]
  case isFalse => rfl

/-- In the loop `cnt` is the number of sources only for a single source that has ended. -/
theorem Checked.cnt_iff (h : Checked n s t) {j : Nat} (hj : j < n) :
    (if (t.srcs j).exitFlag = true then 1 else 0) = n ↔ j = 0 ∧ Single n s := by
  rw [h.flags j hj, Single]
  constructor
  · intro hcnt
    split at hcnt
    case isTrue hset =>
      obtain rfl : j = 0 := by omega
      exact ⟨rfl, hcnt.symm, hset⟩
    case isFalse => omega
  · rintro ⟨rfl, rfl, hset⟩
    rw [if_pos hset]

theorem Checked.checkSource (h : Checked n s t) {j : Nat} (hpc : t.pc = .checkSource j)
    (hs : t.collectorStep n = some t') : Checked n s t' := by
  have hcnt := h.cnt_iff (j := j)
  obtain ⟨hflags, hraised, -, hmissed, -⟩ := h
  simp only [Barrier.collectorStep, hpc] at hs
  simp only [hpc, CollectorPc.checkSource.injEq, reduceCtorEq, or_false] at hmissed
  split at hs
  case isTrue hj =>
    by_cases hall : (if (t.srcs j).exitFlag = true then 1 else 0) = n
    · obtain ⟨rfl, hsingle⟩ := (hcnt hj).mp hall
      simp only [if_pos hall] at hs
      cases hs
      exact ⟨hflags, hraised, fun _ _ => hsingle, fun _ => Or.inr (Or.inr rfl),
        by simp [CollectorPc.leaving]⟩
    · simp only [if_neg hall] at hs
      cases hs
      refine ⟨hflags, hraised, by simp, fun hsingle => ?_, by simp [CollectorPc.leaving]⟩
      rcases hmissed hsingle with hset | rfl
      · exact Or.inl hset
      · exact absurd ((hcnt hj).mpr ⟨rfl, hsingle⟩) hall
  case isFalse hj =>
    cases hs
    refine ⟨hflags, hraised, by simp, fun hsingle => ?_, by simp [CollectorPc.leaving]⟩
    rcases hmissed hsingle with hset | rfl
    · exact Or.inl hset
    · exact absurd hsingle.1 (by omega)

theorem Checked.step (h : Checked n s t) (hs : t.collectorStep n = some t') :
    Checked n s t' := by
  have hleaving := h.leaving
  cases hpc : t.pc <;> simp only [hpc, CollectorPc.leaving] at hleaving
  case checkSource j => exact h.checkSource hpc hs
  case raiseExit j =>
    have hsingle := h.raises j hpc
    simp only [Barrier.collectorStep, hpc] at hs
    cases hs
    exact ⟨h.flags, fun _ => hsingle, by simp, fun _ => Or.inl rfl, fun _ => rfl⟩
  all_goals
    have hout : t.pc.inCheck = false := by rw [hpc]; rfl
    simp only [Barrier.collectorStep, hpc] at hs
  case stopSource j | finalStop j =>
    split at hs <;> cases hs
    case isTrue hj =>
      exact h.next hout (fun i hi => h.set (hleaving trivial) hi hj) rfl (by simp)
        fun _ => hleaving trivial
    case isFalse =>
      exact h.next hout (fun _ _ => rfl) rfl (by simp) fun _ => hleaving trivial
  case loop | testExit =>
    cases hs
    refine h.next hout (fun _ _ => rfl) rfl ?_ ?_
    · intro j
      dsimp only
      split <;> simp
    · dsimp only
      split
      case isTrue hset => exact fun _ => hset
      case isFalse => exact fun h => by cases h
  case ended => cases hs
  case postEmpty j =>
    cases hs
    exact h.next hout (fun _ _ => setSource_exitFlag rfl) rfl (by simp)
        (by simp [CollectorPc.leaving])
  case postData =>
    cases hs
    exact h.next hout (fun _ _ => rfl) rfl (by simp) (by simp [CollectorPc.leaving])
  case finalPost =>
    cases hs
    exact h.next hout (fun _ _ => rfl) rfl (by simp) fun _ => hleaving trivial
  case finalWait j =>
    split at hs <;> cases hs
    exact h.next hout (fun _ _ => setSource_exitFlag rfl) rfl (by simp) fun _ => hleaving trivial
  case waitStart | waitEmpty =>
    split at hs <;> cases hs
    exact h.next hout (fun _ _ => rfl) rfl (by simp) (by simp [CollectorPc.leaving])
  case copyName j =>
    split at hs <;> cases hs
    · exact h.next hout (fun _ _ => setSource_exitFlag rfl) rfl (by simp)
        (by simp [CollectorPc.leaving])
    · exact h.next hout (fun _ _ => rfl) rfl (by simp) (by simp [CollectorPc.leaving])
  case waitData j =>
    split at hs
    · split at hs <;> cases hs
      exact h.next hout (fun _ _ => setSource_exitFlag rfl) rfl (by simp)
        (by simp [CollectorPc.leaving])
    · cases hs
      exact h.next hout (fun _ _ => rfl) rfl (by simp) (by simp [CollectorPc.leaving])

theorem checked_of_reaches (h : Reaches (barrier names n) (· = .collector) s.checking t) :
    Checked n s t := by
  refine h.invariant (checked_start n s) fun u a u' hu ha hs => ?_
  subst ha
  exact hu.step hs

/-- The loop goes over all sources. -/
theorem checks (j : Nat) (hj : j ≤ n) (hpc : t.pc = .checkSource (n - j)) :
    ∃ u, Reaches (barrier names n) (· = .collector) t u ∧ u.pc = .testExit := by
  induction j generalizing t with
  | zero =>
    have hs : t.collectorStep n = some { t with pc := .testExit } := by
      simp [Barrier.collectorStep, hpc]
    exact ⟨_, .step .collector rfl hs, rfl⟩
  | succ j ih =>
    have hlt : n - (j + 1) < n := by omega
    have hnext : n - (j + 1) + 1 = n - j := by omega
    by_cases hcnt : (if (t.srcs (n - (j + 1))).exitFlag = true then 1 else 0) = n
    · have hs : t.collectorStep n = some { t with pc := .raiseExit (n - (j + 1)) } := by
        simp only [Barrier.collectorStep, hpc, if_pos hlt, if_pos hcnt]
      obtain ⟨u, hreach, hend⟩ := ih (t := { t with exitFlag := true, pc := .checkSource (n - j) })
        (by omega) rfl
      have hraise : Barrier.collectorStep n { t with pc := .raiseExit (n - (j + 1)) } =
          some { t with exitFlag := true, pc := .checkSource (n - j) } := by
        simp only [Barrier.collectorStep, hnext]
      exact ⟨u, .head .collector rfl hs (.head .collector rfl hraise hreach), hend⟩
    · have hs : t.collectorStep n = some { t with pc := .checkSource (n - j) } := by
        simp only [Barrier.collectorStep, hpc, if_pos hlt, if_neg hcnt, hnext]
      obtain ⟨u, hreach, hend⟩ := ih (t := { t with pc := .checkSource (n - j) }) (by omega) rfl
      exact ⟨u, .head .collector rfl hs hreach, hend⟩

theorem check_ends (names : Nat → String) (n : Nat) (s : Barrier) :
    ∃ t, Reaches (barrier names n) (· = .collector) s.checking t ∧ t.pc = .testExit :=
  checks n (Nat.le_refl n) (congrArg CollectorPc.checkSource (Nat.sub_self n).symm)

/-- Behind the loop the flag is raised for a single source that has ended. -/
theorem raised_iff (h : Reaches (barrier names n) (· = .collector) s.checking t)
    (hpc : t.pc = .testExit) : t.exitFlag = true ↔ Single n s := by
  have hchecked := checked_of_reaches h
  refine ⟨hchecked.raised, fun hsingle => ?_⟩
  rcases hchecked.missed hsingle with hset | hpc' | hpc'
  · exact hset
  · cases hpc.symm.trans hpc'
  · cases hpc.symm.trans hpc'

/-- **The end of all sources is noticed** if and only if there is a single source, or one has
not ended. -/
theorem notices_iff (names : Nat → String) (n : Nat) (s : Barrier) :
    Notices names n s ↔ n = 1 ∨ ∃ i < n, (s.srcs i).exitFlag = false := by
  constructor
  · intro hnotices
    by_contra hnot
    push Not at hnot
    obtain ⟨hn, hall⟩ := hnot
    obtain ⟨t, hreach, hpc⟩ := check_ends names n s
    have hset : ∀ i < n, (s.srcs i).exitFlag = true := fun i hi => by simpa using hall i hi
    have hsingle := (raised_iff hreach hpc).mp ((hnotices.counts t hreach hpc).mpr hset)
    exact hn hsingle.1
  · intro hcond
    refine ⟨check_ends names n s, fun t hreach hpc => ?_, fun t hreach hpc i hi => ?_⟩
    · rw [raised_iff hreach hpc]
      constructor
      · rintro ⟨rfl, hset⟩ i hi
        obtain rfl : i = 0 := by omega
        exact hset
      · intro hall
        rcases hcond with rfl | ⟨i, hi, hunset⟩
        · exact ⟨rfl, hall 0 Nat.one_pos⟩
        · exact absurd ((hall i hi).symm.trans hunset) (by decide)
    · have hchecked := checked_of_reaches hreach
      obtain ⟨rfl, hset⟩ := hchecked.raised (hchecked.leaving (by rw [hpc]; rfl))
      obtain rfl : i = 0 := by omega
      rw [hchecked.flags 0 hi, hset]

/-- Both sources of a collector have ended. -/
def bothEnded (names : Nat → String) : Barrier :=
  { Barrier.initial names with srcs := fun _ => ⟨.ended, true, 0, 0, names 0, 0, 0⟩ }

theorem both_missed : ¬ Notices (fun _ => "") 2 (bothEnded fun _ => "") := by
  intro hnotices
  obtain ⟨t, hreach, hpc⟩ := hnotices.ends
  have hset := (hnotices.counts t hreach hpc).mpr fun _ _ => rfl
  exact absurd ((raised_iff hreach hpc).mp hset).1 (by decide)

end DclProcessor.Collector
