import DclProcessor.Library.Transition

/-!
Runs of one system as runs of another. A step is matched by any number of steps of the other
system, none included, with the events that the other system has. A part of a system is the
case in which its states are a function of those of the whole.
-/

namespace DclProcessor.Transition

variable {σ α ε τ β φ : Type*} {S : System σ α ε} {T : System τ β φ} {ok : α → Prop}

/-- **Simulation rule.** While `P` holds, which no step brings back, a run is matched. -/
theorem Trace.simulate {P : σ → Prop} {R : σ → τ → Prop} (seen : ε → Option φ)
    (hback : ∀ s a s', S.step s a = some s' → P s' → P s)
    (hstep : ∀ s t a s', R s t → P s' → S.step s a = some s' →
      ∃ bs t', T.run bs t = some ((S.emit s a).filterMap seen, t') ∧ R s' t')
    {s₀ s : σ} {t₀ : τ} {es : List ε} (h : Trace S ok s₀ es s) (hR : R s₀ t₀) (hP : P s) :
    ∃ t, Trace T (fun _ => True) t₀ (es.filterMap seen) t ∧ R s t := by
  induction h with
  | start => exact ⟨t₀, .start, hR⟩
  | next _ _ hs ih =>
    obtain ⟨t, htrace, hrel⟩ := ih (hback _ _ _ hs hP)
    obtain ⟨bs, t', hrun, hrel'⟩ := hstep _ _ _ _ hrel hP hs
    rw [List.filterMap_append]
    exact ⟨t', htrace.append (trace_of_run (fun _ _ => trivial) hrun), hrel'⟩

/-- **Part rule.** A run of the whole is one of each part. -/
theorem Trace.part (part : σ → τ) (moves : σ → α → List β) (seen : ε → Option φ)
    (hstep : ∀ s a s', S.step s a = some s' →
      T.run (moves s a) (part s) = some ((S.emit s a).filterMap seen, part s'))
    {s₀ s : σ} {es : List ε} (h : Trace S ok s₀ es s) :
    Trace T (fun _ => True) (part s₀) (es.filterMap seen) (part s) := by
  obtain ⟨t, htrace, rfl⟩ := h.simulate (P := fun _ => True) (R := fun s t => t = part s) seen
    (fun _ _ _ _ _ => trivial)
    (fun s t a s' hrel _ hs => ⟨moves s a, part s', hrel ▸ hstep s a s' hs, rfl⟩) rfl trivial
  exact htrace

/-- One step, as a run. -/
theorem System.run_single {t t' : τ} {b : β} (h : T.step t b = some t') :
    T.run [b] t = some (T.emit t b, t') := by
  simp [System.run, h]

end DclProcessor.Transition
