import Mathlib.Data.List.Basic

/-!
Labelled transition systems with events, for any type of states, actions and
events. A `Trace` is a finite run together with the events it has emitted, in
order. `invariant` turns one step lemma into a fact about all runs, and
`reaches_of_variant` turns progress and a decreasing measure into a run that
finishes.
-/

namespace DclProcessor.Transition

/-- `step s a = none` when action `a` is not enabled (blocked) in `s`. -/
structure System (σ α ε : Type*) where
  step : σ → α → Option σ
  emit : σ → α → List ε

variable {σ α ε : Type*} (S : System σ α ε) (ok : α → Prop)

/-- Runs from `s₀` which take only actions that `ok` allows. -/
inductive Trace (s₀ : σ) : List ε → σ → Prop
  | start : Trace s₀ [] s₀
  | next {es : List ε} {s s' : σ} {a : α} :
      Trace s₀ es s → ok a → S.step s a = some s' → Trace s₀ (es ++ S.emit s a) s'

def Reaches (s t : σ) : Prop := ∃ es, Trace S ok s es t

variable {S ok}

theorem invariant {s₀ : σ} {P : List ε → σ → Prop} (h0 : P [] s₀)
    (hstep : ∀ es s a s', P es s → ok a → S.step s a = some s' → P (es ++ S.emit s a) s')
    {es : List ε} {s : σ} (h : Trace S ok s₀ es s) : P es s := by
  induction h with
  | start => exact h0
  | next _ hok hs ih => exact hstep _ _ _ _ ih hok hs

theorem Trace.mono {ok' : α → Prop} (hm : ∀ a, ok a → ok' a) {s₀ s : σ} {es : List ε}
    (h : Trace S ok s₀ es s) : Trace S ok' s₀ es s := by
  induction h with
  | start => exact .start
  | next _ hok hs ih => exact .next ih (hm _ hok) hs

theorem Trace.append {s₀ s t : σ} {es fs : List ε} (h : Trace S ok s₀ es s)
    (h' : Trace S ok s fs t) : Trace S ok s₀ (es ++ fs) t := by
  induction h' with
  | start => simpa using h
  | next _ hok hs ih =>
    rw [← List.append_assoc]
    exact .next ih hok hs

/-- Where a run emits at most one event a step, every event of a run is that of one
step, which cuts the run in two. -/
theorem Trace.split {s₀ s : σ} {pre post : List ε} {e : ε}
    (hone : ∀ s a, (S.emit s a).length ≤ 1) (h : Trace S ok s₀ (pre ++ e :: post) s) :
    ∃ s₁ a s₂, Trace S ok s₀ pre s₁ ∧ ok a ∧ S.step s₁ a = some s₂ ∧ S.emit s₁ a = [e] ∧
      Trace S ok s₂ post s := by
  generalize hes : pre ++ e :: post = es at h
  induction h generalizing post with
  | start => simp at hes
  | @next es s s' a htrace hok hs ih =>
    have hlen := hone s a
    rcases hemit : S.emit s a with _ | ⟨x, xs⟩
    · rw [hemit, List.append_nil] at hes
      obtain ⟨s₁, b, s₂, hpre, hb, hb', hbe, hpost⟩ := ih hes
      have hnext := hpost.next hok hs
      rw [hemit, List.append_nil] at hnext
      exact ⟨s₁, b, s₂, hpre, hb, hb', hbe, hnext⟩
    · rw [hemit, List.length_cons] at hlen
      obtain rfl : xs = [] := List.length_eq_zero_iff.mp (by omega)
      rw [hemit] at hes
      rcases post.eq_nil_or_concat with rfl | ⟨post', y, rfl⟩
      · obtain ⟨rfl, hx⟩ := List.append_inj' hes rfl
        obtain rfl : e = x := by simpa using hx
        exact ⟨s, a, s', htrace, hok, hs, hemit, .start⟩
      · rw [List.concat_eq_append] at hes ⊢
        rw [← List.cons_append, ← List.append_assoc] at hes
        obtain ⟨hes', hy⟩ := List.append_inj' hes rfl
        obtain rfl : y = x := by simpa using hy
        obtain ⟨s₁, b, s₂, hpre, hb, hb', hbe, hpost⟩ := ih hes'
        have hnext := hpost.next hok hs
        rw [hemit] at hnext
        exact ⟨s₁, b, s₂, hpre, hb, hb', hbe, hnext⟩

theorem Reaches.refl (s : σ) : Reaches S ok s s := ⟨[], .start⟩

theorem Reaches.trans {s t u : σ} (h : Reaches S ok s t) (h' : Reaches S ok t u) :
    Reaches S ok s u := by
  obtain ⟨es, h⟩ := h
  obtain ⟨fs, h'⟩ := h'
  exact ⟨es ++ fs, h.append h'⟩

theorem Reaches.step {s t : σ} (a : α) (hok : ok a) (hs : S.step s a = some t) :
    Reaches S ok s t := ⟨_, Trace.start.next hok hs⟩

theorem Reaches.head {s t u : σ} (a : α) (hok : ok a) (hs : S.step s a = some t)
    (h : Reaches S ok t u) : Reaches S ok s u :=
  (Reaches.step a hok hs).trans h

/-- Execute a list of actions; used to evaluate concrete runs. -/
def System.run (S : System σ α ε) : List α → σ → Option (List ε × σ)
  | [], s => some ([], s)
  | a :: as, s => (S.step s a).bind fun s' =>
      (S.run as s').map fun p => (S.emit s a ++ p.1, p.2)

theorem trace_of_run {as : List α} {s₀ t : σ} {es : List ε} (hok : ∀ a ∈ as, ok a)
    (h : S.run as s₀ = some (es, t)) : Trace S ok s₀ es t := by
  induction as generalizing s₀ es with
  | nil =>
    simp only [System.run, Option.some.injEq, Prod.mk.injEq] at h
    obtain ⟨rfl, rfl⟩ := h
    exact .start
  | cons a as ih =>
    cases hs : S.step s₀ a with
    | none => simp [System.run, hs] at h
    | some s₁ =>
      cases hr : S.run as s₁ with
      | none => simp [System.run, hs, hr] at h
      | some p =>
        obtain ⟨fs, u⟩ := p
        simp only [System.run, hs, hr, Option.bind_some, Option.map_some, Option.some.injEq,
          Prod.mk.injEq] at h
        obtain ⟨rfl, rfl⟩ := h
        have htail := ih (fun b hb => hok b (List.mem_cons_of_mem _ hb)) hr
        have hhead : Trace S ok s₀ ([] ++ S.emit s₀ a) s₁ :=
          Trace.start.next (hok a (List.mem_cons_self ..)) hs
        simpa using hhead.append htail

theorem trace_of_isSome {as : List α} {s₀ : σ} (hok : ∀ a ∈ as, ok a)
    (h : (S.run as s₀).isSome = true) :
    Trace S ok s₀ ((S.run as s₀).get h).1 ((S.run as s₀).get h).2 :=
  trace_of_run hok (Option.some_get h).symm

theorem reaches_of_run (as : List α) {s₀ t : σ} {es : List ε} (hok : ∀ a ∈ as, ok a)
    (h : S.run as s₀ = some (es, t)) : Reaches S ok s₀ t := ⟨es, trace_of_run hok h⟩

/-- A property of states that the steps keep. -/
theorem Reaches.invariant {s₀ s : σ} {P : σ → Prop} (h0 : P s₀)
    (hstep : ∀ s a s', P s → ok a → S.step s a = some s' → P s') (h : Reaches S ok s₀ s) : P s := by
  obtain ⟨es, h⟩ := h
  exact Transition.invariant (P := fun _ s => P s) h0 (fun _ s a s' => hstep s a s') h

/-- **Variant rule.** If outside `goal` some allowed step keeps `P` and decreases `V`,
a run ends in `goal`. -/
theorem reaches_of_variant {P goal : σ → Prop} (V : σ → Nat)
    (hstep : ∀ s, P s → ¬ goal s → ∃ a s', ok a ∧ S.step s a = some s' ∧ P s' ∧ V s' < V s)
    {s : σ} (hs : P s) : ∃ t, Reaches S ok s t ∧ P t ∧ goal t := by
  induction hn : V s using Nat.strongRecOn generalizing s with
  | _ n ih =>
    by_cases hg : goal s
    · exact ⟨s, .refl s, hs, hg⟩
    · obtain ⟨a, s', hok, ha, hs', hlt⟩ := hstep s hs hg
      obtain ⟨t, hr, ht⟩ := ih (V s') (hn ▸ hlt) hs' rfl
      exact ⟨t, .head a hok ha hr, ht⟩

/-- The steps of a run that meet `p`. -/
def System.count (S : System σ α ε) (p : σ → α → Bool) : List α → σ → Nat
  | [], _ => 0
  | a :: as, s => (p s a).toNat + ((S.step s a).map (S.count p as)).getD 0

/-- **Budget rule.** If every step pays for itself where it meets `p`, a run from `s` has at
most `V s` such steps. -/
theorem count_le_of_budget {p : σ → α → Bool} {I : σ → Prop} (V : σ → Nat)
    (hstep : ∀ s a s', I s → ok a → S.step s a = some s' → I s' ∧ V s' + (p s a).toNat ≤ V s)
    {as : List α} {s t : σ} {es : List ε} (hs : I s) (hok : ∀ a ∈ as, ok a)
    (h : S.run as s = some (es, t)) : S.count p as s + V t ≤ V s := by
  induction as generalizing s es with
  | nil =>
    obtain ⟨-, rfl⟩ := Prod.mk.inj (Option.some.inj h)
    exact Nat.le_of_eq (Nat.zero_add _)
  | cons a as ih =>
    obtain ⟨s', hs', h'⟩ := Option.bind_eq_some_iff.mp h
    obtain ⟨q, hrest, heq⟩ := Option.map_eq_some_iff.mp h'
    obtain ⟨-, rfl⟩ := Prod.mk.inj heq
    obtain ⟨hkept, hpaid⟩ := hstep s a s' hs (hok a (List.mem_cons_self ..)) hs'
    have hbelow := ih hkept (fun b hb => hok b (List.mem_cons_of_mem _ hb)) hrest
    simp only [System.count, hs', Option.map_some, Option.getD_some]
    omega

theorem count_all {as : List α} {s t : σ} {es : List ε} (h : S.run as s = some (es, t)) :
    S.count (fun _ _ => true) as s = as.length := by
  induction as generalizing s es with
  | nil => rfl
  | cons a as ih =>
    obtain ⟨s', hs', h'⟩ := Option.bind_eq_some_iff.mp h
    obtain ⟨q, hrest, heq⟩ := Option.map_eq_some_iff.mp h'
    obtain ⟨-, rfl⟩ := Prod.mk.inj heq
    simp only [System.count, hs', Option.map_some, Option.getD_some, ih hrest, Bool.toNat_true,
      List.length_cons]
    omega

/-- The system whose steps all meet a condition on the state and the action. -/
def System.restrict (S : System σ α ε) (p : σ → α → Bool) : System σ α ε where
  step s a := if p s a then S.step s a else none
  emit := S.emit

theorem restrict_step {p : σ → α → Bool} {s s' : σ} {a : α}
    (h : (S.restrict p).step s a = some s') : p s a = true ∧ S.step s a = some s' := by
  simp only [System.restrict] at h
  split at h
  · exact ⟨by assumption, h⟩
  · cases h

/-- Every step of a run meets `p`. -/
def System.Meets (S : System σ α ε) (p : σ → α → Prop) : List α → σ → Prop
  | [], _ => True
  | a :: as, s => p s a ∧ ∀ s', S.step s a = some s' → S.Meets p as s'

instance System.Meets.decidable (p : σ → α → Prop) [∀ s a, Decidable (p s a)] :
    ∀ (as : List α) (s : σ), Decidable (S.Meets p as s)
  | [], _ => inferInstanceAs (Decidable True)
  | a :: as, s =>
    match hs : S.step s a with
    | none => decidable_of_iff (p s a) (by simp [System.Meets, hs])
    | some s' =>
      have := System.Meets.decidable p as s'
      decidable_of_iff (p s a ∧ S.Meets p as s') (by simp [System.Meets, hs])

/-- Every state of a run has the property `P`. -/
def System.Always (S : System σ α ε) (P : σ → Prop) : List α → σ → Prop
  | [], s => P s
  | a :: as, s => P s ∧ ∀ s', S.step s a = some s' → S.Always P as s'

instance System.Always.decidable (P : σ → Prop) [DecidablePred P] :
    ∀ (as : List α) (s : σ), Decidable (S.Always P as s)
  | [], s => inferInstanceAs (Decidable (P s))
  | a :: as, s =>
    match hs : S.step s a with
    | none => decidable_of_iff (P s) (by simp [System.Always, hs])
    | some s' =>
      have := System.Always.decidable P as s'
      decidable_of_iff (P s ∧ S.Always P as s') (by simp [System.Always, hs])

theorem System.Always.here {P : σ → Prop} {as : List α} {s : σ} (h : S.Always P as s) : P s := by
  cases as with
  | nil => exact h
  | cons a as => exact h.1

/-- **Step rule.** If a step from a state with `P` comes to one with `P` exactly when it meets
`p`, a run has `P` always exactly when all its steps meet `p`. -/
theorem always_iff {P I : σ → Prop} {p : σ → α → Prop}
    (hstep : ∀ s a s', I s → P s → S.step s a = some s' → (P s' ↔ p s a) ∧ (P s' → I s'))
    {as : List α} {s t : σ} {es : List ε} (hs : I s) (hP : P s) (h : S.run as s = some (es, t)) :
    S.Always P as s ↔ S.Meets p as s := by
  induction as generalizing es s t with
  | nil => exact iff_of_true hP trivial
  | cons a as ih =>
    cases hstep' : S.step s a with
    | none => simp [System.run, hstep'] at h
    | some s₁ =>
      cases hr : S.run as s₁ with
      | none => simp [System.run, hstep', hr] at h
      | some q =>
        obtain ⟨hiff, hnext⟩ := hstep s a s₁ hs hP hstep'
        have halways : S.Always P (a :: as) s ↔ S.Always P as s₁ := by
          simp [System.Always, hstep', hP]
        have hmeets : S.Meets p (a :: as) s ↔ p s a ∧ S.Meets p as s₁ := by
          simp [System.Meets, hstep']
        rw [halways, hmeets, ← hiff]
        by_cases hP₁ : P s₁
        · rw [ih (hnext hP₁) hP₁ hr, and_iff_right hP₁]
        · exact iff_of_false (fun hrest => hP₁ hrest.here) fun hrest => hP₁ hrest.1

/-- Two conditions that agree wherever an invariant holds. -/
theorem meets_congr {I : σ → Prop} {p q : σ → α → Prop}
    (hstep : ∀ s a, I s → (p s a ↔ q s a) ∧ ∀ s', S.step s a = some s' → I s')
    {as : List α} {s : σ} (hs : I s) : S.Meets p as s ↔ S.Meets q as s := by
  induction as generalizing s with
  | nil => exact Iff.rfl
  | cons a as ih =>
    obtain ⟨hpq, hnext⟩ := hstep s a hs
    exact and_congr hpq (forall_congr' fun s' => forall_congr' fun hs' => ih (hnext s' hs'))

/-- **Fault rule.** If a step is at fault exactly when it does not meet `p`, and a fault
stays, a run has a fault exactly when one of its steps does not meet `p`. -/
theorem fault_iff {I : σ → Prop} {Bad : List ε → σ → Prop} {p : σ → α → Prop}
    (hstep : ∀ es s a s', I s → S.step s a = some s' →
      I s' ∧ (Bad (es ++ S.emit s a) s' ↔ Bad es s ∨ ¬ p s a))
    {as : List α} {es fs : List ε} {s t : σ} (hs : I s) (h : S.run as s = some (fs, t)) :
    Bad (es ++ fs) t ↔ Bad es s ∨ ¬ S.Meets p as s := by
  induction as generalizing es fs s with
  | nil =>
    simp only [System.run, Option.some.injEq, Prod.mk.injEq] at h
    obtain ⟨rfl, rfl⟩ := h
    simp [System.Meets]
  | cons a as ih =>
    cases hstep' : S.step s a with
    | none => simp [System.run, hstep'] at h
    | some s₁ =>
      cases hr : S.run as s₁ with
      | none => simp [System.run, hstep', hr] at h
      | some q =>
        simp only [System.run, hstep', hr, Option.bind_some, Option.map_some, Option.some.injEq,
          Prod.mk.injEq] at h
        obtain ⟨rfl, rfl⟩ := h
        obtain ⟨hs₁, hiff⟩ := hstep es s a s₁ hs hstep'
        have hmeets : S.Meets p (a :: as) s ↔ p s a ∧ S.Meets p as s₁ := by
          simp [System.Meets, hstep']
        rw [← List.append_assoc, ih hs₁ hr, hiff, hmeets, not_and_or, or_assoc]

end DclProcessor.Transition
