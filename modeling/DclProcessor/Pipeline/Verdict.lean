import Mathlib.Tactic.IntervalCases
import DclProcessor.Pipeline.Opening

/-! What the startup loop writes to `pl->state`, and which pipelines the owner can set
live after it. -/

namespace DclProcessor.Pipeline.Startup

open Transition

variable {st : Setup} {s s' : State}

/-! ## Threads in their bodies -/

/-- Every module thread is at a statement of its own body. -/
def InBody (st : Setup) (s : State) : Prop :=
  ∀ i meth, st.method i = some meth → meth.hasPc (s.mods i).thread.pc = true

theorem InBody.same (h : InBody st s) (hs : ∀ i, (s'.mods i).thread = (s.mods i).thread) :
    InBody st s' := fun i meth hm => by rw [hs i]; exact h i meth hm

theorem InBody.setMod {k : Nat} {m : Module} (h : InBody st s)
    (hm : m.thread = (s.mods k).thread) : InBody st (s.setMod k m) := by
  refine h.same fun i => ?_
  rcases eq_or_ne i k with rfl | hi
  · simpa [State.setMod] using hm
  · simp [State.setMod, hi]

theorem inBody_initial (st : Setup) : InBody st st.initial := fun _ meth _ => by cases meth <;> rfl

theorem inBody_loopStep {i : Nat} {meth : Method} (h : InBody st s) (hm : st.method i = some meth)
    (hs : st.loopStep s i meth = some s') : InBody st s' := by
  obtain ⟨j, w, hw, rfl⟩ := loopStep_some hs
  obtain ⟨e, -, rfl⟩ := threadStep_some hw
  intro k meth' hm'
  obtain ⟨b, hb⟩ := putView_mods s i j (e.goto (meth.body (test (s.view i j))
    (s.view i j).me.thread.pc)) k
  rw [hb]
  split
  · next hk =>
    subst hk
    rw [hm] at hm'
    cases hm'
    exact hasPc_body _ _ _
  · exact h k meth' hm'

theorem inBody_sup (h : InBody st s) (hs : st.supStep s = some s') : InBody st s' := by
  unfold Setup.supStep at hs
  split at hs
  case h_2 =>
    split at hs <;> cases hs
    · exact h.setMod rfl
    · exact h
  case h_3 k _ =>
    cases hs
    intro i meth hm
    rcases eq_or_ne i k with rfl | hi
    · simpa [Setup.createThread, State.setMod, State.enter, hm] using hasPc_loopEntry meth
    · simpa [Setup.createThread, State.setMod, State.enter, hi] using h i meth hm
  case h_4 => obtain ⟨n, -, rfl⟩ := Option.map_eq_some_iff.mp hs; exact h
  case h_6 => split at hs <;> cases hs; exact h
  case h_7 => cases hs; exact h.setMod (Module.setState_thread _ _)
  case h_9 => cases hs; exact h.setMod (Module.setState_thread _ _)
  case h_11 =>
    split at hs
    · split at hs <;> cases hs; exact h
    · cases hs; exact h
  case h_12 => cases hs; exact h.setMod rfl
  case h_13 => cases hs
  all_goals cases hs; exact h

theorem inBody_step {a : Action} (h : InBody st s) (hs : st.step s a = some s') :
    InBody st s' := by
  cases a with
  | sup => exact inBody_sup h hs
  | thread i =>
    obtain ⟨meth, hm, ⟨-, hs⟩ | ⟨-, hs⟩⟩ := threadStep_cases hs
    · exact inBody_loopStep h hm hs
    · refine h.same fun j => ?_
      unfold Setup.entryStep at hs
      split at hs <;> cases hs <;> try rfl
      rcases eq_or_ne j i with rfl | hj
      · simp [State.enter, Setup.startProcess, State.setMod]
      · simp [State.enter, Setup.startProcess, State.setMod, hj]
  | client i r =>
    obtain ⟨⟨p, cl⟩, -, rfl⟩ := Option.map_eq_some_iff.mp hs
    exact h.setMod rfl
  | call c =>
    simp only [Setup.step] at hs
    split at hs <;> cases hs
    exact h
  | owner =>
    simp only [Setup.step, Setup.ownerStep] at hs
    split at hs
    · cases hs
    · split at hs
      · cases hs; exact h
      · split at hs <;> cases hs <;> exact h
    · split at hs <;> cases hs
      · exact h.setMod (Module.setState_thread _ _)
      · exact h
    · cases hs; exact h

/-! ## A pipeline that is not ready -/

/-- The pipeline states that a successful startup leads to. -/
def ready (pl : PlState) : Bool := pl = .init || pl = .pause || pl = .live

/-- Inside `pipeline_start`, `pipeline_live` or `pipeline_pause`, after the test. -/
def OwnerPc.raises : OwnerPc → Bool
  | .setModule call _ | .setPl call => call ≠ .stop
  | _ => false

structure Quiet (s : State) : Prop where
  pl : ready s.plState = false
  owner : s.owner.raises = false
  mods : ∀ i, (s.mods i).state ≠ .live

theorem setState_ne_live {m : Module} {x : MdState} (h : m.state ≠ .live) (hx : x ≠ .live) :
    (m.setState x).state ≠ .live := by
  unfold Module.setState
  split
  · exact h
  · exact hx

theorem setMod_ne_live {i k : Nat} {m : Module} (h : (s.mods i).state ≠ .live)
    (hm : k = i → m.state ≠ .live) : ((s.setMod k m).mods i).state ≠ .live := by
  rcases eq_or_ne i k with rfl | hi
  · simpa [State.setMod] using hm rfl
  · simpa [State.setMod, hi] using h

theorem setModState_ne_live {i k : Nat} {x : MdState} (h : (s.mods i).state ≠ .live)
    (hx : x ≠ .live) : ((s.setMod k ((s.mods k).setState x)).mods i).state ≠ .live :=
  setMod_ne_live h fun hk => setState_ne_live (hk ▸ h) hx

/-- `pipeline_thread` never writes a module live. -/
theorem sup_ne_live {i : Nat} (h : (s.mods i).state ≠ .live) (hs : st.supStep s = some s') :
    (s'.mods i).state ≠ .live := by
  unfold Setup.supStep at hs
  split at hs
  case h_2 =>
    split at hs <;> cases hs
    · exact setMod_ne_live h (by simp [moduleInit])
    · exact h
  case h_3 k _ => cases hs; exact setMod_ne_live h fun hk => hk ▸ h
  case h_4 => obtain ⟨n, -, rfl⟩ := Option.map_eq_some_iff.mp hs; exact h
  case h_6 => split at hs <;> cases hs; exact h
  case h_7 k _ => cases hs; exact setModState_ne_live h (by simp)
  case h_9 k _ => cases hs; exact setModState_ne_live h (by simp)
  case h_11 =>
    split at hs
    · split at hs <;> cases hs; exact h
    · cases hs; exact h
  case h_12 => cases hs; exact setMod_ne_live h (by simp [Module.destroy])
  case h_13 => cases hs
  all_goals cases hs; exact h

theorem loop_ne_live {i k : Nat} {meth : Method} (hb : InBody st s) (hm : st.method i = some meth)
    (h : (s.mods k).state ≠ .live) (hs : st.loopStep s i meth = some s') :
    (s'.mods k).state ≠ .live := by
  obtain ⟨j, w, hw, rfl⟩ := loopStep_some hs
  obtain ⟨e, he, rfl⟩ := threadStep_some hw
  obtain ⟨b, hb'⟩ := putView_mods s i j (e.goto (meth.body (test (s.view i j))
    (s.view i j).me.thread.pc)) k
  rw [hb']
  split
  · next hk =>
    show e.me.state ≠ .live
    rcases exec_state he (hb i meth hm) with hst | hst | hst <;> rw [hst]
    · exact hk ▸ h
    · simp
    · simp
  · exact h

/-- What only `pipeline_thread` and the owner write. -/
theorem thread_frame {i : Nat} (hs : st.step s (.thread i) = some s') :
    s'.plState = s.plState ∧ s'.owner = s.owner ∧ s'.sup = s.sup ∧
      s'.realStarted = s.realStarted := by
  obtain ⟨meth, -, ⟨-, hs⟩ | ⟨-, hs⟩⟩ := threadStep_cases hs
  · obtain ⟨j, w, -, rfl⟩ := loopStep_some hs
    simp only [State.putView]
    split <;> exact ⟨rfl, rfl, rfl, rfl⟩
  · obtain ⟨hsup, hcount, hpl, howner, -, -⟩ := entryStep_frame hs
    exact ⟨hpl, howner, hsup, hcount⟩

theorem thread_ne_live {i k : Nat} (hb : InBody st s) (h : (s.mods k).state ≠ .live)
    (hs : st.step s (.thread i) = some s') : (s'.mods k).state ≠ .live := by
  obtain ⟨meth, hm, ⟨-, hs⟩ | ⟨-, hs⟩⟩ := threadStep_cases hs
  · exact loop_ne_live hb hm h hs
  · obtain ⟨-, -, -, -, hstate, -⟩ := entryStep_frame hs
    rw [hstate k]
    exact h

/-- Only `pipeline_live` writes a module live. -/
theorem ne_live_step {a : Action} {i : Nat} (hb : InBody st s) (h : (s.mods i).state ≠ .live)
    (hs : st.step s a = some s')
    (hlive : a = .owner → s.owner = .setModule .live i → st.modulesCnt ≤ i) :
    (s'.mods i).state ≠ .live := by
  cases a with
  | sup => exact sup_ne_live h hs
  | thread j => exact thread_ne_live hb h hs
  | client j r =>
    obtain ⟨⟨p, cl⟩, -, rfl⟩ := Option.map_eq_some_iff.mp hs
    exact setMod_ne_live h fun hj => hj ▸ h
  | call c =>
    simp only [Setup.step] at hs
    split at hs <;> cases hs
    exact h
  | owner =>
    simp only [Setup.step, Setup.ownerStep] at hs
    split at hs
    · cases hs
    · split at hs
      · cases hs; exact h
      · split at hs <;> cases hs <;> exact h
    · next call k hcall =>
      split at hs <;> cases hs
      · next hk =>
        refine setMod_ne_live h fun hki => ?_
        subst hki
        refine setState_ne_live h ?_
        rintro hcl
        obtain rfl : call = .live := by cases call <;> simp [mdState] at hcl ⊢
        have := hlive rfl hcall
        omega
      · exact h
    · cases hs; exact h

/-- What the owner and the modules see of a step of `pipeline_thread`. -/
theorem sup_frame (hs : st.supStep s = some s') : s'.owner = s.owner ∧
    (s'.plState = s.plState ∨ s'.plState = .unknown ∨ s'.plState = .error ∨
      s.sup = .verdict ∧ 2 ≤ s.realStarted ∧ s'.plState = .init) := by
  unfold Setup.supStep at hs
  split at hs
  case h_1 => cases hs; exact ⟨rfl, Or.inr (Or.inl rfl)⟩
  case h_2 => split at hs <;> cases hs <;> exact ⟨rfl, Or.inl rfl⟩
  case h_4 =>
    obtain ⟨n, -, rfl⟩ := Option.map_eq_some_iff.mp hs
    exact ⟨rfl, Or.inl rfl⟩
  case h_6 => split at hs <;> cases hs; exact ⟨rfl, Or.inl rfl⟩
  case h_8 => cases hs; exact ⟨rfl, Or.inr (Or.inr (Or.inl rfl))⟩
  case h_10 hp =>
    cases hs
    refine ⟨rfl, Or.inr (Or.inr ?_)⟩
    rcases Nat.lt_or_ge s.realStarted 2 with hlt | hge
    · exact Or.inl (by simp [Nat.not_le.mpr hlt])
    · exact Or.inr ⟨hp, hge, by simp [hge]⟩
  case h_11 =>
    split at hs
    · split at hs <;> cases hs; exact ⟨rfl, Or.inl rfl⟩
    · cases hs; exact ⟨rfl, Or.inl rfl⟩
  case h_13 => cases hs
  all_goals cases hs; exact ⟨rfl, Or.inl rfl⟩

/-- The owner passes no test but that of `pipeline_stop`. -/
theorem owner_quiet (hpl : ready s.plState = false) (howner : s.owner.raises = false)
    (hs : st.step s .owner = some s') :
    ready s'.plState = false ∧ s'.owner.raises = false := by
  simp only [Setup.step, Setup.ownerStep] at hs
  split at hs
  case h_1 => cases hs
  case h_2 call _ =>
    split at hs
    · next htest =>
      have hstop : call = .stop := by
        cases call <;> simp [expects] at htest ⊢ <;> rw [← htest] at hpl <;> cases hpl
      subst hstop
      cases hs
      exact ⟨hpl, rfl⟩
    · split at hs <;> cases hs
      · exact ⟨hpl, howner⟩
      · exact ⟨hpl, rfl⟩
  case h_3 call k hcall =>
    rw [hcall] at howner
    split at hs <;> cases hs <;> exact ⟨hpl, howner⟩
  case h_4 call hcall =>
    rw [hcall] at howner
    obtain rfl : call = .stop := by simpa [OwnerPc.raises] using howner
    cases hs
    exact ⟨rfl, rfl⟩

/-- A pipeline that is not ready becomes ready by a verdict over two modules or more. -/
theorem quiet_step {a : Action} (hb : InBody st s) (h : Quiet s) (hs : st.step s a = some s')
    (hverdict : a = .sup → s.sup = .verdict → s.realStarted < 2) : Quiet s' := by
  have hmods : ∀ i, (s'.mods i).state ≠ .live := fun i =>
    ne_live_step hb (h.mods i) hs fun _ hlive => by
      have howner := h.owner
      rw [hlive] at howner
      cases howner
  suffices hrest : ready s'.plState = false ∧ s'.owner.raises = false from
    ⟨hrest.1, hrest.2, hmods⟩
  cases a with
  | sup =>
    obtain ⟨howner, hpl⟩ := sup_frame hs
    rw [howner]
    refine ⟨?_, h.owner⟩
    rcases hpl with hpl | hpl | hpl | ⟨hp, htwo, -⟩
    · rw [hpl]; exact h.pl
    · rw [hpl]; rfl
    · rw [hpl]; rfl
    · have := hverdict rfl hp
      omega
  | thread i =>
    obtain ⟨hpl, howner, -, -⟩ := thread_frame hs
    rw [hpl, howner]
    exact ⟨h.pl, h.owner⟩
  | client i r =>
    obtain ⟨⟨p, cl⟩, -, rfl⟩ := Option.map_eq_some_iff.mp hs
    exact ⟨h.pl, h.owner⟩
  | call c =>
    simp only [Setup.step] at hs
    split at hs <;> cases hs
    exact ⟨h.pl, rfl⟩
  | owner => exact owner_quiet h.pl h.owner hs

theorem quiet_initial (st : Setup) : Quiet st.initial :=
  ⟨rfl, rfl, fun _ => by simp [Setup.initial, addedModule]⟩

/-! ## The verdict -/

theorem decided_step {a : Action} (hs : st.step s a = some s') (h : s.sup.decided = true) :
    s'.sup.decided = true := by
  cases a with
  | sup =>
    simp only [Setup.step] at hs
    unfold Setup.supStep at hs
    cases hp : s.sup <;> rw [hp] at h <;> simp only [hp] at hs <;> try (cases h; done)
    case join k =>
      split at hs
      · split at hs <;> cases hs; rfl
      · cases hs; rfl
    case destroy k => cases hs; rfl
    case returned => cases hs
  | thread i => rw [(thread_frame hs).2.2.1]; exact h
  | client i r => rw [(SameStartup.client hs).sup]; exact h
  | call c => rw [(SameStartup.call hs).sup]; exact h
  | owner => rw [(SameStartup.owner hs).sup]; exact h

/-- Before the verdict no pipeline is ready. -/
theorem quiet_of_undecided {es : List Event} (h : st.Run es s) (hp : s.sup.decided = false) :
    Quiet s := by
  have hinv : InBody st s ∧ (s.sup.decided = false → Quiet s) := by
    refine invariant (P := fun _ s => InBody st s ∧ (s.sup.decided = false → Quiet s))
      ⟨inBody_initial st, fun _ => quiet_initial st⟩ ?_ h
    rintro es s a s' ⟨hb, hq⟩ - hs
    refine ⟨inBody_step hb hs, fun hp' => ?_⟩
    have hp : s.sup.decided = false := by
      cases hd : s.sup.decided with
      | false => rfl
      | true => rw [decided_step hs hd] at hp'; cases hp'
    refine quiet_step hb (hq hp) hs fun ha hv => ?_
    subst ha
    change st.supStep s = some s' at hs
    simp only [Setup.supStep, hv, Option.some.injEq] at hs
    subst hs
    cases hp'
  exact hinv.2 hp

/-- With fewer than two modules to start, no pipeline is ever ready. -/
theorem quiet_of_few {es : List Event} (hfew : st.startable < 2) (h : st.Run es s) : Quiet s := by
  have hinv : InBody st s ∧ Sound st s ∧ Quiet s := by
    refine invariant (P := fun _ s => InBody st s ∧ Sound st s ∧ Quiet s)
      ⟨inBody_initial st, sound_initial st, quiet_initial st⟩ ?_ h
    rintro es s a s' ⟨hb, hi, hq⟩ - hs
    refine ⟨inBody_step hb hs, sound_step hi hs, quiet_step hb hq hs fun _ hv => ?_⟩
    unfold Sound at hi
    rw [hv] at hi
    rw [hi.1.count]
    exact hfew
  exact hinv.2.2

/-- Every module of the list has been started. -/
def AllStarted (st : Setup) (s : State) : Prop := ∀ i < st.modulesCnt, 0 ≤ (s.mods i).idx

/-- Where `pipeline_thread` is about to write its verdict. -/
theorem allStarted_iff (h : Sound st s) (hp : s.sup = .verdict) :
    AllStarted st s ↔ st.startable = st.modulesCnt := by
  unfold Sound at h
  rw [hp] at h
  obtain ⟨-, hpos, hneg⟩ := h
  have hle := st.startable_le
  constructor
  · intro hall
    by_contra hne
    have hlt : st.startable < st.modulesCnt := by omega
    have hidx := hall _ hlt
    rw [hneg hlt] at hidx
    omega
  · intro heq i hi
    exact hpos i (by omega)

/-- What the startup promises when `pipeline_thread` has just written its verdict:
`pl->state` tells whether the pipeline has two modules or more and all of them are
started, and only such a pipeline can become live. -/
structure VerdictCorrect (st : Setup) (s : State) : Prop where
  init : s.plState = .init ↔ 2 ≤ st.modulesCnt ∧ AllStarted st s
  error : s.plState ≠ .init → s.plState = .error
  live : ∀ t, Reaches st.system (fun _ => True) s t →
    (t.plState = .live ∨ ∃ i, (t.mods i).state = .live) → AllStarted st s

/-- **The verdict.** It is correct exactly when every module can be started, or fewer
than two modules stand before the first that cannot. -/
theorem verdictCorrect_iff {es : List Event} (h : st.Run es s) (hp : s.sup = .verdict)
    (hs : st.step s .sup = some s') :
    VerdictCorrect st s' ↔ st.startable = st.modulesCnt ∨ st.startable < 2 := by
  have hsound := sound_of_run h
  have hcount : s.realStarted = st.startable := by
    unfold Sound at hsound
    rw [hp] at hsound
    exact hsound.1.count
  have hrun : st.Run (es ++ emit s .sup) s' := Trace.next (a := Action.sup) h trivial hs
  have hle := st.startable_le
  have hall : AllStarted st s' ↔ st.startable = st.modulesCnt := by
    rw [← allStarted_iff hsound hp]
    change st.supStep s = some s' at hs
    simp only [Setup.supStep, hp, Option.some.injEq] at hs
    subst hs
    rfl
  have hpl : s'.plState = if 2 ≤ st.startable then .init else .error := by
    change st.supStep s = some s' at hs
    simp only [Setup.supStep, hp, Option.some.injEq, hcount] at hs
    rw [← hs]
  constructor
  · intro hc
    by_contra hcond
    have hinit : s'.plState = .init := by rw [hpl, if_pos (by omega)]
    have := hall.mp (hc.init.mp hinit).2
    omega
  · rintro (heq | hfew)
    · refine ⟨?_, ?_, fun _ _ _ => hall.mpr heq⟩
      · rw [hpl, hall, heq]
        split <;> simp [*]
      · rw [hpl]
        split <;> simp
    · have herror : s'.plState = .error := by rw [hpl, if_neg (by omega)]
      refine ⟨?_, fun _ => herror, fun t ht hlive => ?_⟩
      · rw [herror, hall]
        constructor
        · intro h; cases h
        · omega
      · obtain ⟨fs, ht⟩ := ht
        have hquiet := quiet_of_few hfew (hrun.append ht)
        rcases hlive with hlive | ⟨i, hlive⟩
        · have hpl' := hquiet.pl
          rw [hlive] at hpl'
          cases hpl'
        · exact absurd hlive (hquiet.mods i)

/-! ## A pipeline whose third module does not start -/

/-- An initial thread, two processes and a finalization; the second program is not
there. -/
def thirdMissing : Setup where
  minfos := [⟨0, .first, false, 1, none⟩, ⟨1, .middle, true, 2, some ["bin/phandler"]⟩,
    ⟨2, .middle, true, 3, some ["bin/missing"]⟩, ⟨3, .last, false, -1, none⟩]
  accepted := rfl
  processCnt := 0
  processCntMax := 10
  spawns i := i ≠ 2
  offsets := [0, 64]

/-- The startup loop up to the verdict. -/
def thirdFails : List Action :=
  List.replicate 3 .sup ++ List.replicate 2 (.thread 0) ++ List.replicate 5 .sup ++
    List.replicate 4 (.thread 1) ++ List.replicate 5 .sup ++ List.replicate 5 (.thread 2) ++
    List.replicate 5 .sup

theorem thirdFails_runs :
    (thirdMissing.system.run thirdFails thirdMissing.initial).isSome = true := by decide

def thirdFailed : State :=
  ((thirdMissing.system.run thirdFails thirdMissing.initial).get thirdFails_runs).2

theorem thirdFailed_run : ∃ es, thirdMissing.Run es thirdFailed :=
  ⟨_, trace_of_isSome (fun _ _ => trivial) thirdFails_runs⟩

theorem thirdFailed_sup : thirdFailed.sup = .verdict := by decide

/-- The state after the verdict. -/
def thirdJudged : State := { thirdFailed with plState := .init, sup := .join 0 }

theorem thirdJudged_step : thirdMissing.step thirdFailed .sup = some thirdJudged := by
  have hcount : thirdFailed.realStarted = 2 := by decide
  simp [Setup.step, Setup.supStep, thirdFailed_sup, hcount, thirdJudged]

theorem verdictCorrect_iff_thirdMissing :
    VerdictCorrect thirdMissing thirdJudged ↔
      thirdMissing.startable = thirdMissing.modulesCnt ∨ thirdMissing.startable < 2 := by
  obtain ⟨es, hrun⟩ := thirdFailed_run
  exact verdictCorrect_iff hrun thirdFailed_sup thirdJudged_step

/-- Every module of the list has a thread body that posts `start_control`, whether or
not `process_start` succeeds. -/
def Posting (st : Setup) : Prop :=
  ∀ i < st.modulesCnt, ∃ meth, st.method i = some meth ∧
    (meth.hasClient = true → (st.argv i).isSome = true)

theorem thirdMissing_posting : Posting thirdMissing := by
  intro i hi
  have hi' : i < 4 := hi
  interval_cases i <;> exact ⟨_, rfl, by decide⟩

/-- `pipeline_start` and `pipeline_live`, one after the other. -/
def setLive : List Action :=
  .call .start :: List.replicate 7 .owner ++ .call .live :: List.replicate 7 .owner

theorem setLive_runs : (thirdMissing.system.run setLive thirdJudged).isSome = true := by decide

/-- The pipeline without its third module becomes live. -/
theorem live_without_third :
    ¬ ∀ (st : Setup) (es : List Event) (s s' : State), Posting st → st.Run es s →
      s.sup = .verdict → st.step s .sup = some s' → VerdictCorrect st s' := by
  intro hclaim
  obtain ⟨es, hrun⟩ := thirdFailed_run
  have hcorrect := hclaim thirdMissing es _ _ thirdMissing_posting hrun thirdFailed_sup
    thirdJudged_step
  have hlive : ((thirdMissing.system.run setLive thirdJudged).get setLive_runs).2.plState =
      .live := by decide
  have hall := hcorrect.live _ ⟨_, trace_of_isSome (fun _ _ => trivial) setLive_runs⟩
    (Or.inl hlive)
  have hidx : (thirdJudged.mods 2).idx = -1 := by decide
  have hpos := hall 2 (by decide)
  omega

end DclProcessor.Pipeline.Startup
