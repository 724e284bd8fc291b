import DclProcessor.Pipeline.Verdict

/-! What becomes of a call of `pipeline_stop`: the verdict of the startup loop
overwrites the state that it writes, unless it comes after the verdict. -/

namespace DclProcessor.Pipeline.Startup

open Transition

variable {st : Setup} {s s' : State}

/-- No module is live, and the pipeline is not on the way to it. -/
def Stopped (s : State) : Prop := (∀ i, (s.mods i).state ≠ .live) ∧ ready s.plState = false

/-- `pipeline_stop` writes `pl->state` after the verdict, unless fewer than two modules
can be started. -/
def Setup.stopsInTime (st : Setup) (s : State) : Action → Bool
  | .owner =>
      match s.owner with
      | .setPl .stop => s.sup.decided || st.startable < 2
      | _ => true
  | _ => true

/-- `pipeline_stop` goes through the list; behind it no module is live. -/
structure Swept (st : Setup) (s : State) : Prop where
  outside : ∀ i, st.modulesCnt ≤ i → (s.mods i).state ≠ .live
  behind : ∀ k, s.owner = .setModule .stop k → ∀ i < k, (s.mods i).state ≠ .live
  all : s.owner = .setPl .stop → ∀ i, (s.mods i).state ≠ .live

theorem swept_initial (st : Setup) : Swept st st.initial where
  outside _ _ := by simp [Setup.initial, addedModule]
  behind _ h := by cases h
  all h := by cases h

/-- Nobody but the owner moves the owner on in a call. -/
theorem owner_of_step {a : Action} (hs : st.step s a = some s') (ha : a ≠ .owner) :
    s'.owner = s.owner ∨ ∃ call, s'.owner = .test call := by
  cases a with
  | sup => exact Or.inl (sup_frame hs).1
  | thread i => exact Or.inl (thread_frame hs).2.1
  | client i r => obtain ⟨pc, -, rfl⟩ := Option.map_eq_some_iff.mp hs; exact Or.inl rfl
  | call c =>
    simp only [Setup.step] at hs
    split at hs <;> cases hs
    exact Or.inr ⟨c, rfl⟩
  | owner => exact absurd rfl ha

theorem swept_owner (hb : InBody st s) (h : Swept st s) (hs : st.step s .owner = some s') :
    Swept st s' := by
  have houtside : ∀ i, st.modulesCnt ≤ i → (s'.mods i).state ≠ .live := fun i hi =>
    ne_live_step hb (h.outside i hi) hs fun _ _ => hi
  refine ⟨houtside, ?_, ?_⟩
  all_goals simp only [Setup.step, Setup.ownerStep] at hs
  · intro k hk
    split at hs
    case h_1 => cases hs
    case h_2 call hcall =>
      split at hs
      · cases hs
        cases hk
        intro i hi
        omega
      · split at hs <;> cases hs <;> simp [hcall] at hk
    case h_3 call j hcall =>
      split at hs <;> cases hs <;> cases hk
      intro i hi
      rcases Nat.lt_succ_iff_lt_or_eq.mp hi with hi | rfl
      · exact setModState_ne_live (h.behind j hcall i hi) (by simp [mdState])
      · simp only [State.setMod, Function.update_self, Module.setState, mdState]
        split <;> simp [*]
    case h_4 => cases hs; cases hk
  · intro hk
    split at hs
    case h_1 => cases hs
    case h_2 call hcall =>
      split at hs
      · cases hs; cases hk
      · split at hs <;> cases hs <;> simp [hcall] at hk
    case h_3 call j hcall =>
      split at hs <;> cases hs <;> cases hk
      intro i
      rcases Nat.lt_or_ge i j with hi | hi
      · exact h.behind j hcall i hi
      · exact h.outside i (by omega)
    case h_4 => cases hs; cases hk

theorem swept_step {a : Action} (hb : InBody st s) (h : Swept st s) (hs : st.step s a = some s') :
    Swept st s' := by
  by_cases ha : a = .owner
  · subst ha
    exact swept_owner hb h hs
  · have hkeep : ∀ i, (s.mods i).state ≠ .live → (s'.mods i).state ≠ .live := fun i hi =>
      ne_live_step hb hi hs fun ho => absurd ho ha
    refine ⟨fun i hi => hkeep i (h.outside i hi), fun k hk i hi => ?_, fun hk i => ?_⟩
    · rcases owner_of_step hs ha with ho | ⟨call, ho⟩
      · exact hkeep i (h.behind k (ho ▸ hk) i hi)
      · rw [ho] at hk; cases hk
    · rcases owner_of_step hs ha with ho | ⟨call, ho⟩
      · exact hkeep i (h.all (ho ▸ hk) i)
      · rw [ho] at hk; cases hk

/-- After a call of `pipeline_stop` that came in time. -/
structure Over (st : Setup) (s : State) : Prop where
  quiet : Quiet s
  decided : s.sup.decided = true ∨ st.startable < 2

theorem over_step {a : Action} (hb : InBody st s) (hi : Sound st s) (h : Over st s)
    (hs : st.step s a = some s') : Over st s' := by
  refine ⟨quiet_step hb h.quiet hs fun _ hv => ?_, h.decided.imp_left (decided_step hs)⟩
  rcases h.decided with hd | hfew
  · rw [hv] at hd; cases hd
  · unfold Sound at hi
    rw [hv] at hi
    rw [hi.1.count]
    exact hfew

theorem over_of_return {a : Action} (hw : Swept st s) (hs : st.step s a = some s')
    (hret : Event.returned .stop ∈ emit s a) (htime : st.stopsInTime s a = true) : Over st s' := by
  cases a with
  | owner =>
    simp only [emit] at hret
    split at hret
    · next call hcall =>
      obtain rfl : OwnerCall.stop = call := by simpa using hret
      simp only [Setup.stopsInTime, hcall, Bool.or_eq_true, decide_eq_true_eq] at htime
      simp only [Setup.step, Setup.ownerStep, hcall, Option.some.injEq] at hs
      subst hs
      exact ⟨⟨rfl, rfl, hw.all hcall⟩, htime⟩
    · cases hret
  | thread i =>
    simp only [emit] at hret
    split at hret <;> simp at hret
  | _ => cases hret

/-- **No stop request is lost** in a run in which every `pipeline_stop` writes
`pl->state` after the verdict of the startup. -/
theorem stop_kept {es : List Event}
    (h : Trace (st.system.restrict st.stopsInTime) (fun _ => True) st.initial es s)
    (hret : .returned .stop ∈ es) : Stopped s := by
  have hinv : (InBody st s ∧ Sound st s ∧ Swept st s) ∧ (.returned .stop ∈ es → Over st s) := by
    refine invariant (P := fun es s => (InBody st s ∧ Sound st s ∧ Swept st s) ∧
      (.returned .stop ∈ es → Over st s))
      ⟨⟨inBody_initial st, sound_initial st, swept_initial st⟩, fun h => by cases h⟩ ?_ h
    rintro es s a s' ⟨⟨hb, hi, hw⟩, ho⟩ - hs
    obtain ⟨htime, hs⟩ := restrict_step hs
    refine ⟨⟨inBody_step hb hs, sound_step hi hs, swept_step hb hw hs⟩, fun hmem => ?_⟩
    rcases List.mem_append.mp hmem with hold | hnew
    · exact over_step hb hi (ho hold) hs
    · exact over_of_return hw hs hnew htime
  have hover := hinv.2 hret
  exact ⟨hover.quiet.mods, hover.quiet.pl⟩

/-! ## A stop request during the startup -/

/-- An initial thread and a finalization. -/
def twoModules : Setup where
  minfos := [⟨0, .first, false, 1, none⟩, ⟨1, .last, false, -1, none⟩]
  accepted := rfl
  processCnt := 0
  processCntMax := 10
  spawns _ := true
  offsets := [0, 64]

/-- `pipeline_thread` up to its verdict. -/
def startTwo : List Action :=
  List.replicate 3 .sup ++ List.replicate 2 (.thread 0) ++ List.replicate 5 .sup ++
    List.replicate 2 (.thread 1) ++ List.replicate 5 .sup

/-- A call of the owner over a list of two modules. -/
def callOver (call : OwnerCall) : List Action := .call call :: List.replicate 5 .owner

def stopAfterVerdict : List Action := startTwo ++ callOver .stop

theorem stopAfterVerdict_runs : ((twoModules.system.restrict twoModules.stopsInTime).run
    stopAfterVerdict twoModules.initial).isSome = true := by decide

theorem stop_kept_afterVerdict : Stopped (((twoModules.system.restrict
    twoModules.stopsInTime).run stopAfterVerdict twoModules.initial).get
      stopAfterVerdict_runs).2 :=
  stop_kept (trace_of_isSome (fun _ _ => trivial) stopAfterVerdict_runs) (by decide)

/-- The owner stops the pipeline before the startup loop, and sets it live after it. -/
def stopBeforeVerdict : List Action :=
  callOver .stop ++ startTwo ++ callOver .start ++ callOver .live

theorem stopBeforeVerdict_runs :
    (twoModules.system.run stopBeforeVerdict twoModules.initial).isSome = true := by decide

theorem live_after_stop : ¬ ∀ (st : Setup) (es : List Event) (s : State),
    st.Run es s → .returned .stop ∈ es → Stopped s := by
  intro hclaim
  have hstopped := hclaim twoModules _ _
    (trace_of_isSome (fun _ _ => trivial) stopBeforeVerdict_runs) (by decide)
  have hlive : (((twoModules.system.run stopBeforeVerdict twoModules.initial).get
    stopBeforeVerdict_runs).2.mods 0).state = .live := by decide
  exact hstopped.1 0 hlive

end DclProcessor.Pipeline.Startup
