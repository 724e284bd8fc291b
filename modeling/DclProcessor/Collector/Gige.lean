import DclProcessor.Library.Simulation
import DclProcessor.Collector.Ending

/-!
Sources with a GigE camera. `source_data_thread_udp` starts the camera and watches it, and
`camera_gvsp_thread` calls `new_frame_action`. Until such a source is told to exit, the two
threads do together what `source_data_thread_tcp` does alone.
-/

namespace DclProcessor.Collector

open Transition

/-- Where `source_data_thread_udp` is; `watch` is the loop with `gvcp_watchdog`. -/
inductive UdpPc
  | waitStart
  | start
  | create
  | watch
  | setStop
  | raise
  | postEnd
  | closeSocket
  | join
  | ended
  deriving DecidableEq

/-- The camera of a source: `live` when its state is `STREAM_LIVE`, `socket` when `gvcp_fd` is
not -1. -/
structure Gige where
  pc : UdpPc
  live : Bool
  socket : Bool

/-- A collector with sources of both kinds; the `pc` of a source with a camera is that of
`camera_gvsp_thread`, which is `waitStart` before the thread has been created. -/
structure Mixed where
  barrier : Barrier
  gige : Nat → Gige

inductive MixedAction
  | tcp (i : Nat) (read : Read)
  | udp (i : Nat)
  | camera (i : Nat) (read : Read)
  | collector
  | firstAction
  | raiseSource (i : Nat)
  | raiseCollector

/-- `source_data_thread_udp`. -/
def Gige.udpStep (g : Gige) (src : Source) : Option (Gige × Source) :=
  match g.pc with
  | .waitStart =>
    if src.emptyReady = 0 then none
    else some ({ g with pc := .start }, { src with emptyReady := src.emptyReady - 1 })
  | .start => some ({ g with live := true, pc := .create }, src)
  | .create => some ({ g with pc := .watch }, { src with pc := .loop })
  | .watch => some (if !src.exitFlag && g.live then g else { g with pc := .setStop }, src)
  | .setStop => some ({ g with live := false, pc := .raise }, src)
  | .raise => some ({ g with pc := .postEnd }, { src with exitFlag := true })
  | .postEnd => some ({ g with pc := .closeSocket }, { src with dataReady := src.dataReady + 1 })
  | .closeSocket => some ({ g with socket := false, pc := .join }, src)
  | .join => if src.pc = .ended then some ({ g with pc := .ended }, src) else none
  | .ended => none

/-- `camera_gvsp_thread`: a packet may call `new_frame_action`, which does what it does for the
other sources; after an error the thread returns at once. -/
def Gige.cameraStep (g : Gige) (src : Source) (read : Read) : Option (Gige × Source) :=
  match src.pc with
  | .waitStart | .postEnd | .ended => none
  | .loop =>
    if g.live && g.socket then some (g, { src with pc := .reading })
    else some ({ g with live := false }, { src with pc := .ended })
  | .reading =>
    if read = .error then some (g, { src with pc := .ended })
    else (src.step read).map (g, ·)
  | _ => (src.step read).map (g, ·)

namespace Mixed

variable (names : Nat → String) (n : Nat) (gige : Nat → Bool) (s : Mixed)

/-- Exchange one source and its camera. -/
def setGige (i : Nat) (p : Gige × Source) : Mixed :=
  ⟨s.barrier.setSource i p.2, Function.update s.gige i p.1⟩

/-- `gige i` when source `i` has a camera. -/
def step : MixedAction → Option Mixed
  | .tcp i read =>
    if gige i then none
    else (s.barrier.step names n (.source i read)).map fun barrier => { s with barrier }
  | .udp i =>
    if gige i ∧ i < n then ((s.gige i).udpStep (s.barrier.srcs i)).map (s.setGige i) else none
  | .camera i read =>
    if gige i ∧ i < n then
      ((s.gige i).cameraStep (s.barrier.srcs i) read).map (s.setGige i)
    else none
  | .collector => (s.barrier.step names n .collector).map fun barrier => { s with barrier }
  | .firstAction => (s.barrier.step names n .firstAction).map fun barrier => { s with barrier }
  | .raiseSource i =>
    (s.barrier.step names n (.raiseSource i)).map fun barrier => { s with barrier }
  | .raiseCollector =>
    (s.barrier.step names n .raiseCollector).map fun barrier => { s with barrier }

/-- A step as the barrier sees it; that of `source_data_thread_udp` emits nothing. -/
def barrierStep : MixedAction → Option Step
  | .tcp i read => some (.source i read)
  | .udp _ => none
  | .camera i read => some (.source i read)
  | .collector => some .collector
  | .firstAction => some .firstAction
  | .raiseSource i => some (.raiseSource i)
  | .raiseCollector => some .raiseCollector

def events (a : MixedAction) : List BarrierEvent :=
  match barrierStep a with
  | some step => s.barrier.events step
  | none => []

def initial : Mixed where
  barrier := .initial names
  gige _ := ⟨.waitStart, false, true⟩

end Mixed

/-- `n` sources, some of them with cameras, their collector and the calls of `first_action`. -/
def mixed (names : Nat → String) (n : Nat) (gige : Nat → Bool) :
    System Mixed MixedAction BarrierEvent where
  step := Mixed.step names n gige
  emit := Mixed.events

/-! ## As a source that reads by itself -/

/-- The place of `source_data_thread_tcp` where the two threads are together. -/
def Gige.place (g : Gige) (pc : SourcePc) : SourcePc :=
  match g.pc with
  | .waitStart => .waitStart
  | .start | .create => .loop
  | _ => if pc = .ended then .reading else pc

/-- A source with a camera as one without. -/
def Mixed.places (s : Mixed) (gige : Nat → Bool) (i : Nat) (pc : SourcePc) : SourcePc :=
  if gige i then (s.gige i).place pc else pc

/-- The barrier with its sources elsewhere. -/
def Barrier.relocate (b : Barrier) (f : Nat → SourcePc → SourcePc) : Barrier :=
  { b with srcs := fun i => { b.srcs i with pc := f i (b.srcs i).pc } }

/-- A source with a camera that has not been told to exit. -/
def Gige.Running (g : Gige) (src : Source) : Prop :=
  match g.pc with
  | .waitStart => src.pc = .waitStart ∧ g.socket = true
  | .start => src.pc = .waitStart ∧ g.socket = true
  | .create => src.pc = .waitStart ∧ g.live = true ∧ g.socket = true
  | .watch => src.pc ≠ .waitStart ∧ src.pc ≠ .postEnd ∧ g.live = true ∧ g.socket = true
  | _ => False

/-- The cameras that have not been told to exit run, and the collector is one of sources
without cameras. -/
structure Mixed.AsTcp (n : Nat) (gige : Nat → Bool) (s : Mixed) (b : Barrier) : Prop where
  same : b = s.barrier.relocate (s.places gige)
  running : ∀ i < n, gige i = true → (s.gige i).Running (s.barrier.srcs i)

/-- No source with a camera has been told to exit. -/
def Mixed.Unstopped (n : Nat) (gige : Nat → Bool) (s : Mixed) : Prop :=
  ∀ i < n, gige i = true → (s.barrier.srcs i).exitFlag = false

section Relocate

variable {names : Nat → String} {n : Nat} {b b' : Barrier} {f g : Nat → SourcePc → SourcePc}

theorem setSource_relocate (b : Barrier) (f : Nat → SourcePc → SourcePc) (j : Nat) (src : Source) :
    (b.setSource j src).relocate f =
      (b.relocate f).setSource j { src with pc := f j src.pc } := by
  simp only [Barrier.relocate, Barrier.setSource]
  congr 1
  funext i
  by_cases hij : i = j
  · subst hij
    simp
  · simp [hij]

/-- The collector does not look at where its sources are. -/
theorem collectorStep_relocate (hs : b.collectorStep n = some b') :
    (b.relocate f).collectorStep n = some (b'.relocate f) := by
  cases hpc : b.pc <;> simp only [Barrier.collectorStep, hpc] at hs
  all_goals
    (repeat' split at hs) <;> cases hs <;>
      simp_all [Barrier.collectorStep, Barrier.relocate, Barrier.setSource, funext_iff] <;> grind

end Relocate

/-! ## One step -/

section Step

variable {g g' : Gige} {src src' : Source} {read : Read}

/-- A source where its two threads are together. -/
def Gige.asTcp (g : Gige) (src : Source) : Source := { src with pc := g.place src.pc }

/-- `source_data_thread_udp` takes the first permit, and is not seen after it. -/
theorem udp_running (h : g.Running src) (hexit : src.exitFlag = false)
    (hs : g.udpStep src = some (g', src')) :
    g'.Running src' ∧ (g'.asTcp src' = g.asTcp src ∨
      (g.asTcp src).pc = .waitStart ∧ (g.asTcp src).step .incomplete = some (g'.asTcp src')) := by
  cases hpc : g.pc <;> simp only [Gige.Running, hpc] at h <;>
    simp only [Gige.udpStep, hpc] at hs
  case waitStart =>
    split at hs
    · cases hs
    · next hready =>
      cases hs
      refine ⟨h, Or.inr ⟨by simp [Gige.asTcp, Gige.place, hpc], ?_⟩⟩
      simp [Gige.asTcp, Gige.place, hpc, Source.step, hready]
  case start =>
    cases hs
    exact ⟨⟨h.1, rfl, h.2⟩, Or.inl (by simp [Gige.asTcp, Gige.place, hpc])⟩
  case create =>
    cases hs
    refine ⟨⟨by simp, by simp, h.2⟩, Or.inl ?_⟩
    simp [Gige.asTcp, Gige.place, hpc]
  case watch =>
    rw [hexit, h.2.2.1] at hs
    obtain ⟨rfl, rfl⟩ := Prod.mk.inj (Option.some.inj hs)
    refine ⟨?_, Or.inl rfl⟩
    show g.Running src
    simpa only [Gige.Running, hpc] using h

/-- `camera_gvsp_thread` is where `source_data_thread_tcp` is, unless it has returned. -/
theorem camera_running (h : g.Running src) (hexit : src.exitFlag = false)
    (hs : g.cameraStep src read = some (g', src')) :
    g' = g ∧ g.pc = .watch ∧ g'.Running src' ∧
      (src.pc = .reading ∧ g'.asTcp src' = g.asTcp src ∨
        (g.asTcp src).pc = src.pc ∧ (g.asTcp src).step read = some (g'.asTcp src')) := by
  have hwatch : g.pc = .watch := by
    cases hpc : g.pc <;> simp only [Gige.Running, hpc] at h <;> try rfl
    all_goals simp [Gige.cameraStep, h.1] at hs
  simp only [Gige.Running, hwatch] at h
  obtain ⟨hwait, hpost, hlive, hsocket⟩ := h
  have hplace : ∀ pc : SourcePc, pc ≠ .ended → g.place pc = pc := fun pc hpc => by
    simp [Gige.place, hwatch, hpc]
  cases hpc : src.pc <;> simp only [Gige.cameraStep, hpc] at hs
  case waitStart => exact absurd hpc hwait
  case postEnd => exact absurd hpc hpost
  case ended => cases hs
  case loop =>
    rw [hlive, hsocket] at hs
    cases hs
    refine ⟨rfl, hwatch, by simp [Gige.Running, hwatch, hlive, hsocket], Or.inr ⟨?_, ?_⟩⟩
    · simp [Gige.asTcp, hpc, hplace]
    · simp [Gige.asTcp, hpc, hplace, Source.step, hexit]
  case reading =>
    split at hs
    · cases hs
      refine ⟨rfl, hwatch, by simp [Gige.Running, hwatch, hlive, hsocket], Or.inl ⟨rfl, ?_⟩⟩
      simp [Gige.asTcp, Gige.place, hwatch, hpc]
    · next hread =>
      obtain ⟨src'', hstep, heq⟩ := Option.map_eq_some_iff.mp hs
      cases heq
      cases read with
      | error => exact absurd rfl hread
      | incomplete =>
        simp only [Source.step, hpc] at hstep
        cases hstep
        refine ⟨rfl, hwatch, by simp [Gige.Running, hwatch, hlive, hsocket], Or.inr ⟨?_, ?_⟩⟩
        · simp [Gige.asTcp, hpc, hplace]
        · simp [Gige.asTcp, hpc, hplace, Source.step]
      | frame detected =>
        simp only [Source.step, hpc] at hstep
        refine ⟨rfl, hwatch, ?_, Or.inr ⟨by simp [Gige.asTcp, hpc, hplace], ?_⟩⟩
        · split at hstep <;> cases hstep <;> simp [Gige.Running, hwatch, hlive, hsocket]
        · split at hstep <;> cases hstep <;> simp_all [Gige.asTcp, Source.step]
  all_goals
    obtain ⟨src'', hstep, heq⟩ := Option.map_eq_some_iff.mp hs
    cases heq
    simp only [Source.step, hpc] at hstep
    refine ⟨rfl, hwatch, ?_, Or.inr ⟨by simp [Gige.asTcp, hpc, hplace], ?_⟩⟩
    · (repeat' split at hstep) <;> cases hstep <;>
        simp [Gige.Running, hwatch, hlive, hsocket]
    · (repeat' split at hstep) <;> cases hstep <;> simp_all [Gige.asTcp, Source.step]

end Step

section Runs

variable {names : Nat → String} {n : Nat} {gige : Nat → Bool} {s s' : Mixed} {b : Barrier}
  {a : MixedAction}

theorem relocate_srcs (s : Mixed) (gige : Nat → Bool) (i : Nat) :
    (s.barrier.relocate (s.places gige)).srcs i =
      if gige i then (s.gige i).asTcp (s.barrier.srcs i) else s.barrier.srcs i := by
  simp only [Barrier.relocate, Mixed.places, Gige.asTcp]
  split <;> rfl

theorem setSource_self (b : Barrier) (i : Nat) : b.setSource i (b.srcs i) = b := by
  simp [Barrier.setSource]

theorem relocate_setGige {i : Nat} (hi : gige i = true) (p : Gige × Source) :
    (s.setGige i p).barrier.relocate ((s.setGige i p).places gige) =
      (s.barrier.relocate (s.places gige)).setSource i (p.1.asTcp p.2) := by
  simp only [Mixed.setGige, Barrier.relocate, Barrier.setSource, Gige.asTcp]
  congr 1
  funext j
  by_cases hij : j = i
  · subst hij
    simp [Mixed.places, hi]
  · simp [Mixed.places, hij]

/-- A change of a source with a camera, as the barrier of sources without cameras has it. -/
theorem Mixed.AsTcp.setGige (h : s.AsTcp n gige b) {i : Nat} (hgige : gige i = true)
    {p : Gige × Source} (hrunning : p.1.Running p.2) :
    (s.setGige i p).AsTcp n gige (b.setSource i (p.1.asTcp p.2)) where
  same := by rw [relocate_setGige hgige, h.same]
  running := by
    intro j hj hgige'
    simp only [Mixed.setGige, Barrier.setSource_srcs]
    by_cases hij : j = i
    · subst hij
      simpa using hrunning
    · simpa [hij] using h.running j hj hgige'

theorem Mixed.AsTcp.srcs (h : s.AsTcp n gige b) {i : Nat} (hgige : gige i = true) :
    b.srcs i = (s.gige i).asTcp (s.barrier.srcs i) := by
  rw [h.same, relocate_srcs, if_pos hgige]

theorem exitFlag_udp {g g' : Gige} {src src' : Source} (hs : g.udpStep src = some (g', src'))
    (hexit : src.exitFlag = true) : src'.exitFlag = true := by
  cases hpc : g.pc <;> simp only [Gige.udpStep, hpc] at hs
  all_goals
    (repeat' split at hs) <;> cases hs <;> first | exact hexit | rfl

theorem exitFlag_camera {g g' : Gige} {src src' : Source} {read : Read}
    (hs : g.cameraStep src read = some (g', src')) (hexit : src.exitFlag = true) :
    src'.exitFlag = true := by
  cases hpc : src.pc <;> simp only [Gige.cameraStep, hpc] at hs
  case waitStart | postEnd | ended => cases hs
  case loop => split at hs <;> cases hs <;> exact hexit
  case reading =>
    split at hs
    · cases hs
      exact hexit
    · obtain ⟨src'', hstep, heq⟩ := Option.map_eq_some_iff.mp hs
      cases heq
      exact Barrier.exitFlag_of_step hstep hexit
  all_goals
    obtain ⟨src'', hstep, heq⟩ := Option.map_eq_some_iff.mp hs
    cases heq
    exact Barrier.exitFlag_of_step hstep hexit

theorem exitFlag_setGige {i j : Nat} {p : Gige × Source}
    (hp : (s.barrier.srcs i).exitFlag = true → p.2.exitFlag = true)
    (hexit : (s.barrier.srcs j).exitFlag = true) :
    ((s.setGige i p).barrier.srcs j).exitFlag = true := by
  simp only [Mixed.setGige, Barrier.setSource_srcs]
  split
  · next hij => exact hp (hij ▸ hexit)
  · exact hexit

/-- The cases of a step: one of the two threads of a source with a camera, or one of the
barrier by another thread. -/
inductive MixedStep (names : Nat → String) (n : Nat) (gige : Nat → Bool) (s : Mixed) :
    MixedAction → Mixed → Prop
  | udp {i : Nat} {p : Gige × Source} : gige i = true → i < n →
      (s.gige i).udpStep (s.barrier.srcs i) = some p →
      MixedStep names n gige s (.udp i) (s.setGige i p)
  | camera {i : Nat} {read : Read} {p : Gige × Source} : gige i = true → i < n →
      (s.gige i).cameraStep (s.barrier.srcs i) read = some p →
      MixedStep names n gige s (.camera i read) (s.setGige i p)
  | other {a : MixedAction} {step : Step} {barrier : Barrier} : Mixed.barrierStep a = some step →
      (∀ i read, step = .source i read → gige i = false) →
      s.barrier.step names n step = some barrier →
      MixedStep names n gige s a { s with barrier }

theorem mixed_cases (hs : (mixed names n gige).step s a = some s') :
    MixedStep names n gige s a s' := by
  cases a with
  | udp j =>
    simp only [mixed, Mixed.step, Option.ite_none_right_eq_some, Option.map_eq_some_iff] at hs
    obtain ⟨⟨hgige, hj⟩, p, hp, rfl⟩ := hs
    exact .udp hgige hj hp
  | camera j read =>
    simp only [mixed, Mixed.step, Option.ite_none_right_eq_some, Option.map_eq_some_iff] at hs
    obtain ⟨⟨hgige, hj⟩, p, hp, rfl⟩ := hs
    exact .camera hgige hj hp
  | tcp j read =>
    simp only [mixed, Mixed.step, Option.ite_none_left_eq_some, Option.map_eq_some_iff] at hs
    obtain ⟨hgige, barrier, hbarrier, rfl⟩ := hs
    refine .other rfl ?_ hbarrier
    rintro i read ⟨⟩
    simpa using hgige
  | collector | firstAction | raiseSource | raiseCollector =>
    simp only [mixed, Mixed.step, Option.map_eq_some_iff] at hs
    obtain ⟨barrier, hbarrier, rfl⟩ := hs
    exact .other rfl (by simp) hbarrier

theorem unstopped_back (hs : (mixed names n gige).step s a = some s')
    (h : s'.Unstopped n gige) : s.Unstopped n gige := by
  intro i hi hgige
  by_contra hno
  have hexit : (s.barrier.srcs i).exitFlag = true := by simpa using hno
  have hkept : (s'.barrier.srcs i).exitFlag = true := by
    cases mixed_cases hs with
    | udp _ _ hp => exact exitFlag_setGige (exitFlag_udp hp) hexit
    | camera _ _ hp => exact exitFlag_setGige (exitFlag_camera hp) hexit
    | other _ _ hbarrier => exact Barrier.exitFlag_keeps hbarrier i hexit
  rw [h i hi hgige] at hkept
  cases hkept

/-! ## A run -/

/-- The steps of the other threads are the same wherever the cameras are. -/
theorem step_relocate {step : Step} {barrier : Barrier}
    (hs : s.barrier.step names n step = some barrier)
    (htcp : ∀ i read, step = .source i read → gige i = false) :
    (s.barrier.relocate (s.places gige)).step names n step =
      some (barrier.relocate (Mixed.places ⟨barrier, s.gige⟩ gige)) := by
  have hplaces : Mixed.places ⟨barrier, s.gige⟩ gige = s.places gige := rfl
  rw [hplaces]
  cases step with
  | source i read =>
    have hplain := htcp i read rfl
    simp only [Barrier.step, Option.ite_none_right_eq_some, Option.map_eq_some_iff] at hs
    obtain ⟨hi, src, hsrc, rfl⟩ := hs
    rw [Barrier.step, if_pos hi, relocate_srcs, hplain, if_neg Bool.false_ne_true, hsrc,
      setSource_relocate]
    simp [Mixed.places, hplain]
  | collector => exact collectorStep_relocate hs
  | firstAction =>
    simp only [Barrier.step] at hs ⊢
    cases hf : s.barrier.first <;> simp only [Barrier.firstStep, hf] at hs
    all_goals
      (repeat' split at hs) <;> cases hs <;> simp_all [Barrier.firstStep, Barrier.relocate]
  | raiseSource i =>
    cases hs
    rw [setSource_relocate]
    rfl
  | raiseCollector =>
    cases hs
    rfl

theorem Mixed.AsTcp.step (h : s.AsTcp n gige b) (hstop : s'.Unstopped n gige)
    (hs : (mixed names n gige).step s a = some s') :
    ∃ bs b', (Collector.barrier names n).run bs b = some (s.events a, b') ∧ s'.AsTcp n gige b' := by
  have hclear := unstopped_back hs hstop
  cases mixed_cases hs with
  | @udp i p hgige hi hp =>
    obtain ⟨hrunning, hstep⟩ := udp_running (h.running i hi hgige) (hclear i hi hgige) hp
    have hnext := h.setGige hgige hrunning
    rcases hstep with hsame | ⟨hwait, hstep⟩
    · rw [hsame, ← h.srcs hgige, setSource_self] at hnext
      exact ⟨[], b, rfl, hnext⟩
    · rw [← h.srcs hgige] at hwait hstep
      have hb : (Collector.barrier names n).step b (.source i .incomplete) =
          some (b.setSource i (p.1.asTcp p.2)) := by
        simp only [Collector.barrier, Barrier.step, if_pos hi, hstep, Option.map_some]
      refine ⟨_, _, (System.run_single hb).trans ?_, hnext⟩
      simp [Collector.barrier, Barrier.events, hwait, Mixed.events, Mixed.barrierStep]
  | @camera i read p hgige hi hp =>
    obtain ⟨-, -, hrunning, hstep⟩ :=
      camera_running (h.running i hi hgige) (hclear i hi hgige) hp
    have hnext := h.setGige hgige hrunning
    rcases hstep with ⟨hreading, hsame⟩ | ⟨hpc, hstep⟩
    · rw [hsame, ← h.srcs hgige, setSource_self] at hnext
      refine ⟨[], b, ?_, hnext⟩
      simp [System.run, Mixed.events, Mixed.barrierStep, Barrier.events, hreading]
    · have hsrcs := h.srcs hgige
      rw [← hsrcs] at hpc hstep
      have hb : (Collector.barrier names n).step b (.source i read) =
          some (b.setSource i (p.1.asTcp p.2)) := by
        simp only [Collector.barrier, Barrier.step, if_pos hi, hstep, Option.map_some]
      refine ⟨_, _, (System.run_single hb).trans ?_, hnext⟩
      simp only [Collector.barrier, Barrier.events, hpc, Mixed.events, Mixed.barrierStep]
      rw [hsrcs]
      rfl
  | @other _ step barrier' hstep htcp hbarrier =>
    have hb := step_relocate hbarrier htcp
    rw [← h.same] at hb
    refine ⟨_, _, (System.run_single (T := Collector.barrier names n) hb).trans ?_, rfl, ?_⟩
    · have hevents : b.events step = s.barrier.events step := by
        rw [h.same]
        cases step with
        | source i read =>
          simp only [Barrier.events, relocate_srcs, htcp i read rfl, Bool.false_eq_true, if_false]
        | _ => rfl
      simp only [Collector.barrier, Mixed.events, hstep, hevents]
    · intro i hi hgige
      have hpc := Barrier.pc_keeps hbarrier fun read hread => by
        rw [htcp i read hread] at hgige
        cases hgige
      have hrunning := h.running i hi hgige
      simp only [Gige.Running] at hrunning ⊢
      rw [hpc]
      exact hrunning

theorem asTcp_initial : (Mixed.initial names).AsTcp n gige (.initial names) where
  same := by
    simp only [Mixed.initial, Barrier.initial, Barrier.relocate, Mixed.places, Gige.place]
    congr 1
    funext i
    simp
  running _ _ _ := ⟨rfl, rfl⟩

variable {es : List BarrierEvent}

/-- As long as no source with a camera has been told to exit, every run of the collector is one
with sources that read by themselves. -/
theorem barrier_of_mixed (h : Trace (mixed names n gige) (fun _ => True) (.initial names) es s)
    (hstop : s.Unstopped n gige) :
    ∃ b, Trace (barrier names n) (fun _ => True) (.initial names) es b ∧ s.AsTcp n gige b := by
  obtain ⟨b, htrace, hrel⟩ := h.simulate (T := barrier names n) (P := Mixed.Unstopped n gige)
    (R := Mixed.AsTcp n gige) some (fun _ _ _ hs => unstopped_back hs)
    (fun s t a s' hrel hstop hs => by
      obtain ⟨bs, t', hrun, hrel'⟩ := hrel.step hstop hs
      rw [List.filterMap_some]
      exact ⟨bs, t', hrun, hrel'⟩) asTcp_initial hstop
  rw [List.filterMap_some] at htrace
  exact ⟨b, htrace, hrel⟩

/-- **Cameras change nothing.** As long as no source with a camera has been told to exit, every
run of the collector is one with sources that read by themselves; so an object that the
pipeline has is not written again, and without any exit flag the frames of one round go to one
object. -/
theorem gige_as_tcp (hinj : Function.Injective names)
    (h : Trace (mixed names n gige) (fun _ => True) (.initial names) es s)
    (hstop : s.Unstopped n gige) :
    (∃ b, Trace (barrier names n) (fun _ => True) (.initial names) es b ∧ s.AsTcp n gige b) ∧
      (∀ pre post name, es = pre ++ .taken name :: post → ∀ i k, .added i k name ∉ post) ∧
      (s.barrier.Quiet n → ∀ i j k x y, .added i k x ∈ es → .added j k y ∈ es → x = y) := by
  obtain ⟨b, htrace, hrel⟩ := barrier_of_mixed h hstop
  obtain ⟨-, hnamed, hcounted⟩ := Barrier.invariants_of_run hinj htrace
  refine ⟨⟨b, htrace, hrel⟩, ?_, fun hquiet i j k x y hx hy => ?_⟩
  · rintro pre post name rfl i k hmem
    have htail := (List.pairwise_append.mp hnamed.unwritten).2.1
    exact (List.pairwise_cons.mp htail).1 _ hmem name rfl i k rfl
  · have hquiet' : b.Quiet n := by
      rw [hrel.same]
      exact hquiet
    have hadded := (hcounted hquiet').added
    rw [hadded i k x hx, hadded j k y hy]

/-- A source with a camera comes to the frame after its first boundary. -/
def firstObject : List MixedAction :=
  List.replicate 5 .firstAction ++ List.replicate 5 .collector ++ List.replicate 3 (.udp 0) ++
    List.replicate 4 (.camera 0 (.frame false)) ++ List.replicate 6 .collector ++
    List.replicate 5 .firstAction ++ List.replicate 5 .collector ++
    List.replicate 2 (.camera 0 .incomplete)

/-- The camera adds the frame. -/
def firstAdded : List MixedAction := firstObject ++ [.camera 0 .incomplete]

theorem firstAdded_runs : ((mixed Barrier.countedNames 1 fun _ => true).run firstAdded
    (.initial Barrier.countedNames)).isSome = true := by
  decide

theorem gige_as_tcp_firstObject : ∃ es s, es = [.taken "", .taken "o", .added 0 1 "oo"] ∧
    Trace (mixed Barrier.countedNames 1 fun _ => true) (fun _ => True)
      (.initial Barrier.countedNames) es s ∧
    (∃ b, Trace (barrier Barrier.countedNames 1) (fun _ => True)
      (.initial Barrier.countedNames) es b ∧ s.AsTcp 1 (fun _ => true) b) ∧
    (∀ pre post name, es = pre ++ .taken name :: post → ∀ i k, .added i k name ∉ post) ∧
    ∀ i j k x y, .added i k x ∈ es → .added j k y ∈ es → x = y := by
  have hrun : Trace (mixed Barrier.countedNames 1 fun _ => true) (fun _ => True)
      (.initial Barrier.countedNames) _ _ := trace_of_isSome (fun _ _ => trivial) firstAdded_runs
  have honly : ∀ i < 1, i = 0 := fun i hi => Nat.lt_one_iff.mp hi
  obtain ⟨htcp, hunwritten, hround⟩ := gige_as_tcp Barrier.countedNames_injective hrun
    (fun i hi _ => by
      obtain rfl := honly i hi
      decide)
  refine ⟨_, _, by decide, hrun, htcp, hunwritten, hround ⟨by decide, fun i hi => ?_⟩⟩
  obtain rfl := honly i hi
  decide

/-- The source is told to exit while its camera is about to add the frame. -/
def lateFrame : List MixedAction :=
  firstObject ++ [.raiseSource 0] ++ List.replicate 4 (.udp 0) ++ List.replicate 3 .collector ++
    List.replicate 3 .firstAction ++ [.camera 0 .incomplete]

theorem lateFrame_runs : ((mixed Barrier.countedNames 1 fun _ => true).run lateFrame
    (.initial Barrier.countedNames)).isSome = true := by
  decide

/-- When the exit flag comes, `source_data_thread_udp` posts while the camera still adds its
frame: the pipeline has the object before the frame is there. -/
theorem camera_writes_after_exit : ¬ ∀ es s,
    Trace (mixed Barrier.countedNames 1 fun _ => true) (fun _ => True)
      (.initial Barrier.countedNames) es s →
    ∀ pre post name, es = pre ++ .taken name :: post → ∀ i k, .added i k name ∉ post := by
  intro hall
  have hrun : Trace (mixed Barrier.countedNames 1 fun _ => true) (fun _ => True)
      (.initial Barrier.countedNames) _ _ := trace_of_isSome (fun _ _ => trivial) lateFrame_runs
  exact hall _ _ hrun [.taken "", .taken "o"] [.added 0 1 "oo"] "oo" (by decide) 0 1 (by simp)

end Runs

end DclProcessor.Collector
