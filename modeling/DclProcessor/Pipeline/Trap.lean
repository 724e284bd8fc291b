import DclProcessor.Pipeline.Leave

/-!
Where a shutdown hangs. A source thread waits for the exit flag, which
`pipeline_destroy` raises only after the join; an initial thread can wait for the answer
of a client that it does not have, or for a chunk that is not there.
-/

namespace DclProcessor.Pipeline.Shutdown

open Transition

namespace Listed

variable {p : Listed} {s s' : State}

/-! ## A head that does not end -/

/-- `pipeline_thread` has still to join the head. -/
def awaitsHead : SupPc → Prop
  | .join rest => 0 ∈ rest
  | .destroy i rest => i ≠ 0 ∧ 0 ∈ rest
  | .returned => False

/-- `Q` holds of the modules while the owner and `pipeline_thread` wait for the head. -/
structure Held (Q : Sys → Prop) (s : State) : Prop where
  sys : Q s.sys
  owner : s.owner = .joinThread
  sup : awaitsHead s.sup
  idx : (s.sys.mods 0).idx ≠ -1

/-- What the modules keep to themselves, and what keeps the head from ending. -/
structure Keeps (p : Listed) (Q : Sys → Prop) : Prop where
  thread : ∀ sys i sys', Q sys → p.chain.step sys (.thread i) = some sys' → Q sys'
  client : ∀ sys i r sys', Q sys → p.chain.step sys (.client i r) = some sys' → Q sys'
  destroy : ∀ sys i, i ≠ 0 → Q sys → Q (sys.setMod i (sys.mods i).destroy)
  running : ∀ sys, Q sys → (sys.mods 0).thread.pc ≠ .ended

theorem held_step {Q : Sys → Prop} {a : Action} (hk : Keeps p Q) (h : Held Q s)
    (hs : p.step s a = some s') : Held Q s' := by
  cases a with
  | module a =>
    obtain ⟨hstep, hsup, howner, hexit, hcalls⟩ := step_module hs
    refine ⟨?_, howner.trans h.owner, hsup ▸ h.sup, by rw [Chain.idx_of_step hstep]; exact h.idx⟩
    cases a with
    | thread i => exact hk.thread _ i _ h.sys hstep
    | client i r => exact hk.client _ i r _ h.sys hstep
    | owner call =>
      have hcalls' := hcalls call rfl
      rw [h.owner] at hcalls'
      cases hcalls'
    | raiseExit => exact absurd rfl hexit
  | sup =>
    have hwait := h.sup
    simp only [step, supStep] at hs
    split at hs
    case h_1 hp => rw [hp] at hwait; cases hwait
    case h_2 i rest hp =>
      split at hs <;> cases hs
      next hjoin =>
      have hne : i ≠ 0 := by
        rintro rfl
        exact hjoin.elim h.idx (hk.running _ h.sys)
      rw [hp] at hwait
      exact ⟨h.sys, h.owner, ⟨hne, (List.mem_cons.mp hwait).resolve_left (Ne.symm hne)⟩, h.idx⟩
    case h_3 i rest hp =>
      cases hs
      rw [hp] at hwait
      refine ⟨hk.destroy _ i hwait.1 h.sys, h.owner, hwait.2, ?_⟩
      simpa [Sys.setMod, Ne.symm hwait.1] using h.idx
    case h_4 => cases hs
  | destroy => simp [step, h.owner] at hs
  | owner =>
    have hwait := h.sup
    simp only [step, ownerStep, h.owner] at hs
    split at hs
    · next hover => rw [hover] at hwait; cases hwait
    · cases hs

theorem never_finished {Q : Sys → Prop} (hk : Keeps p Q) (h : Held Q s) :
    ¬ ∃ u, Reaches p.system Answers s u ∧ p.Finished u := by
  rintro ⟨u, hu, -, -, hover⟩
  have hheld := hu.invariant (P := Held Q) h fun _ _ _ h _ hs => held_step hk h hs
  rw [hheld.owner] at hover
  cases hover

/-! ## A source thread -/

/-- Its loop ends with the exit flag only. -/
def InLoop (p : Listed) (sys : Sys) : Prop :=
  sys.exitFlag = false ∧ (p.chain.method 0).hasPc (sys.mods 0).thread.pc = true ∧
    (sys.mods 0).thread.pc.stopPath = false

theorem keeps_inLoop (hsource : p.chain.head = .source) : Keeps p (InLoop p) where
  thread := by
    rintro sys i sys' ⟨hexit, hpc, hin⟩ hs
    obtain ⟨-, w, hw, rfl⟩ := Chain.step_thread hs
    rcases Nat.eq_zero_or_pos i with rfl | hi
    · refine ⟨hexit, ?_, ?_⟩ <;> rw [Sys.putView_me]
      · obtain ⟨e, -, rfl⟩ := threadStep_some hw
        exact hasPc_body _ _ _
      · cases hout : w.me.thread.pc.stopPath with
        | false => rfl
        | true =>
          have hleave := (head_leaves hw Chain.readsBox_zero hpc hin).2 hout
          rcases hleave with hex | ⟨hm, -⟩
          · have hex' : sys.exitFlag = true := hex
            rw [hexit] at hex'
            cases hex'
          · have hinit := Chain.method_initial hm
            rw [hsource] at hinit
            cases hinit
    · obtain ⟨b, hb⟩ := sys.putView_frame i w (j := 0) (by omega)
      refine ⟨hexit, ?_, ?_⟩ <;> rw [hb]
      · exact hpc
      · exact hin
  client := by
    rintro sys i r sys' ⟨hexit, hpc, hin⟩ hs
    obtain ⟨-, q, cl, -, rfl⟩ := Chain.step_client hs
    rcases Nat.eq_zero_or_pos i with rfl | hi
    · exact ⟨hexit, by simpa [Sys.setMod] using hpc, by simpa [Sys.setMod] using hin⟩
    · refine ⟨hexit, ?_, ?_⟩
      · simpa [Sys.setMod, Nat.ne_of_lt hi] using hpc
      · simpa [Sys.setMod, Nat.ne_of_lt hi] using hin
  destroy := by
    rintro sys i hi ⟨hexit, hpc, hin⟩
    have hsame := destroy_sameWork sys i
    refine ⟨hexit, ?_, ?_⟩ <;> rw [hsame.thread]
    · exact hpc
    · exact hin
  running := by
    rintro sys ⟨-, -, hin⟩ hp
    rw [hp] at hin
    cases hin

/-- The state after `pipeline_stop` and the entry of `pipeline_destroy`. -/
def stopAndDestroy (s : State) : State :=
  { s with sys := { s.sys.setStates .stop with plState := .stop }, owner := .joinThread }

theorem finishes_of_possible {t : State} (h : ShutdownPossible p)
    (h0 : Reaches p.system Answers p.initial s) (ho : s.owner = .calls)
    (ht : Reaches p.system Answers (stopAndDestroy s) t) :
    ∃ u, Reaches p.system Answers t u ∧ p.Finished u := by
  refine h s { s with sys := { s.sys.setStates .stop with plState := .stop } } _ (stopAndDestroy s)
    t h0 ?_ (.refl _) ?_ ht
  · simp [step, ho, Sys.call]
  · simp [step, ho, stopAndDestroy]

theorem zero_mem_order (p : Listed) : 0 ∈ p.order :=
  p.perm.mem_iff.mpr (List.mem_range.mpr (by unfold Chain.cnt; omega))

theorem idx_zero (p : Listed) : p.chain.idx 0 ≠ -1 := by
  have := p.started 0 (by unfold Chain.cnt; omega)
  omega

/-- A pipeline with a source thread never finishes. -/
theorem source_trapped (hsource : p.chain.head = .source) : ¬ ShutdownPossible p := by
  intro h
  refine never_finished (keeps_inLoop hsource) ⟨⟨rfl, ?_, ?_⟩, rfl, ?_, ?_⟩
    (finishes_of_possible h (.refl p.initial) rfl (.refl _))
  · simpa [stopAndDestroy, Sys.setStates, initial, Chain.started, startedModule] using
      hasPc_loopEntry (p.chain.method 0)
  · simp [stopAndDestroy, Sys.setStates, initial, Chain.started, startedModule, Chain.method,
      hsource, Head.method, Method.loopEntry, Pc.stopPath, Pc.stopSent]
  · exact p.zero_mem_order
  · simpa [stopAndDestroy, Sys.setStates, initial, Chain.started, startedModule] using p.idx_zero

/-! ## The head alone -/

/-- `k` steps of one thread while nobody else moves. -/
def alone (meth : Method) : Nat → View → Option View
  | 0, v => some v
  | k + 1, v => (threadStep meth v).bind (alone meth k)

theorem alone_add (meth : Method) (j k : Nat) (v : View) :
    alone meth (j + k) v = (alone meth j v).bind (alone meth k) := by
  induction j generalizing v with
  | zero => rw [Nat.zero_add]; rfl
  | succ j ih =>
    rw [Nat.succ_add]
    simp only [alone, Option.bind_assoc]
    exact congrArg _ (funext ih)

theorem threadStep_context {meth : Method} {v w : View} (hs : threadStep meth v = some w) :
    w.nextIdx = v.nextIdx ∧ w.exitFlag = v.exitFlag := by
  obtain ⟨e, he, rfl⟩ := threadStep_some hs
  unfold exec at he
  cases hp : v.me.thread.pc <;> simp only [hp, Option.map_eq_some_iff, Option.some.injEq] at he
  case popRing => split at he <;> cases he; exact ⟨rfl, rfl⟩
  all_goals first
    | (subst he; exact ⟨rfl, rfl⟩)
    | (obtain ⟨n, -, rfl⟩ := he; exact ⟨rfl, rfl⟩)
    | cases he

theorem reaches_alone {k : Nat} {w : View}
    (h : alone (p.chain.method 0) k (s.sys.view 0) = some w) :
    ∃ t, Reaches p.system Answers s t ∧ t.sys.view 0 = w ∧ t.sup = s.sup ∧ t.owner = s.owner ∧
      (∃ b, t.sys.mods 1 = { s.sys.mods 1 with box := b }) ∧
      ∀ j, 1 < j → t.sys.mods j = s.sys.mods j := by
  induction k generalizing s with
  | zero =>
    simp only [alone, Option.some.injEq] at h
    exact ⟨s, .refl s, h, rfl, rfl, ⟨(s.sys.mods 1).box, rfl⟩, fun _ _ => rfl⟩
  | succ k ih =>
    obtain ⟨v, hv, h⟩ := Option.bind_eq_some_iff.mp h
    have hs : p.chain.step s.sys (.thread 0) = some (s.sys.putView 0 v) := by
      simp [Chain.step, Chain.cnt, hv]
    have hview : (s.sys.putView 0 v).view 0 = v := by
      obtain ⟨hidx, hexit⟩ := threadStep_context hv
      simp only [Sys.view, Sys.putView_me, Sys.putView_next, Sys.putView_ring,
        Sys.putView_exitFlag]
      rw [show (s.sys.mods (0 + 1)).idx = v.nextIdx from hidx.symm,
        show s.sys.exitFlag = v.exitFlag from hexit.symm]
    obtain ⟨t, ht, hw, hsup, howner, ⟨b, hb⟩, hmods⟩ :=
      ih (s := { s with sys := s.sys.putView 0 v }) (by rw [hview]; exact h)
    refine ⟨t, ?_, hw, hsup, howner, ⟨b, ?_⟩, fun j hj => ?_⟩
    · exact .head (.module (.thread 0)) trivial (module_step hs (Or.inl ⟨0, rfl⟩)) ht
    · rw [hb, show (s.sys.putView 0 v).mods 1 = { s.sys.mods 1 with box := v.next } from
        s.sys.putView_next 0 v]
    · rw [hmods j hj]
      exact s.sys.putView_of_ne 0 v (by omega) (by omega)

/-! ## An initial thread before an external process -/

/-- After a stop request `initial_thread` sends the stop command to the next module. -/
theorem alone_tells {v : View} (hpc : v.me.thread.pc = .testExit) (hstate : v.me.state = .stop)
    (hexit : v.exitFlag = false) (hnext : v.next.result = 1) :
    ∃ w, alone .initial 5 v = some w ∧ w.me.thread.pc = .stopTestIdx ∧
      w.me.proc = v.me.proc ∧ w.me.client = v.me.client ∧ w.me.idx = v.me.idx ∧
      w.nextIdx = v.nextIdx := by
  simp [alone, threadStep, exec, test, Method.body, initialThread, View.goto, View.setThread,
    semWait, hpc, hstate, hexit, hnext]

/-- Then it comes to wait for the answer of a client, if the index of the next module is
more than one. -/
theorem alone_asks {v : View} (hpc : v.me.thread.pc = .stopTestIdx) (hidx : 1 < v.nextIdx) :
    ∃ w, alone .initial 3 v = some w ∧ w.me.thread.pc = .stopWaitJobResult ∧
      w.me.proc.semResult = v.me.proc.semResult ∧ w.me.client = v.me.client ∧
      w.me.idx = v.me.idx := by
  simp [alone, threadStep, exec, test, Method.body, initialThread, View.goto, View.setThread,
    View.setProc, hpc, hidx]

theorem alone_awaits {v : View} (hpc : v.me.thread.pc = .testExit) (hstate : v.me.state = .stop)
    (hexit : v.exitFlag = false) (hnext : v.next.result = 1) (hidx : 1 < v.nextIdx) :
    ∃ w, alone .initial 8 v = some w ∧ w.me.thread.pc = .stopWaitJobResult ∧
      w.me.proc.semResult = v.me.proc.semResult ∧ w.me.client = v.me.client ∧
      w.me.idx = v.me.idx := by
  obtain ⟨u, hu, hpcu, hproc, hclient, hme, hnextIdx⟩ := alone_tells hpc hstate hexit hnext
  obtain ⟨w, hw, hpcw, hres, hclient', hme'⟩ := alone_asks hpcu (hnextIdx ▸ hidx)
  have hboth : alone .initial (5 + 3) v = some w := by rw [alone_add, hu, Option.bind_some, hw]
  exact ⟨w, hboth, hpcw, hres.trans (by rw [hproc]), hclient'.trans hclient, hme'.trans hme⟩

/-- The head waits for the answer of a client that has left. -/
def AwaitsNobody (sys : Sys) : Prop :=
  (sys.mods 0).thread.pc = .stopWaitJobResult ∧ (sys.mods 0).proc.semResult = 0 ∧
    (sys.mods 0).client.pc = .left

theorem keeps_awaitsNobody : Keeps p AwaitsNobody where
  thread := by
    rintro sys i sys' ⟨hpc, hres, hclient⟩ hs
    obtain ⟨-, w, hw, rfl⟩ := Chain.step_thread hs
    rcases Nat.eq_zero_or_pos i with rfl | hi
    · obtain ⟨e, he, -⟩ := threadStep_some hw
      have hview : (sys.view 0).me = sys.mods 0 := rfl
      simp [exec, hview, hpc, hres, semWait] at he
    · obtain ⟨b, hb⟩ := sys.putView_frame i w (j := 0) (by omega)
      unfold AwaitsNobody
      rw [hb]
      exact ⟨hpc, hres, hclient⟩
  client := by
    rintro sys i r sys' ⟨hpc, hres, hclient⟩ hs
    obtain ⟨-, q, cl, hcl, rfl⟩ := Chain.step_client hs
    rcases Nat.eq_zero_or_pos i with rfl | hi
    · simp [clientStep, hclient] at hcl
    · simpa [AwaitsNobody, Sys.setMod, Nat.ne_of_lt hi] using ⟨hpc, hres, hclient⟩
  destroy := by
    rintro sys i hi ⟨hpc, hres, hclient⟩
    have hsame := destroy_sameWork sys i
    unfold AwaitsNobody
    rw [hsame.thread, hsame.proc, hsame.client]
    exact ⟨hpc, hres, hclient⟩
  running := by
    rintro sys ⟨hpc, -, -⟩ hp
    rw [hpc] at hp
    cases hp

theorem initial_awaits (hhead : p.chain.head = .initial) (hidx : 1 < p.chain.idx 1) :
    ¬ ShutdownPossible p := by
  intro h
  have hm : p.chain.method 0 = .initial := by simp [Chain.method, hhead, Head.method]
  obtain ⟨w, hw, hpc, hres, hclient, hidx0⟩ :=
    alone_awaits (v := (stopAndDestroy p.initial).sys.view 0)
      (by simp [stopAndDestroy, Sys.setStates, Sys.view, initial, Chain.started, startedModule, hm,
        Method.loopEntry])
      (by simp [stopAndDestroy, Sys.setStates, Sys.view, initial, Chain.started, startedModule,
        Module.setState])
      rfl
      (by simp [stopAndDestroy, Sys.setStates, Sys.view, initial, Chain.started, startedModule])
      (by simpa [stopAndDestroy, Sys.setStates, Sys.view, initial, Chain.started, startedModule]
        using hidx)
  obtain ⟨t, ht, hview, hsup, howner, -, -⟩ :=
    reaches_alone (p := p) (s := stopAndDestroy p.initial) (k := 8) (w := w) (by rw [hm]; exact hw)
  have hme : t.sys.mods 0 = w.me := by rw [← hview]; rfl
  refine never_finished keeps_awaitsNobody ⟨⟨?_, ?_, ?_⟩, howner, ?_, ?_⟩
    (finishes_of_possible h (.refl p.initial) rfl ht)
  · rw [hme]; exact hpc
  · rw [hme, hres]
    simp [stopAndDestroy, Sys.setStates, Sys.view, initial, Chain.started, startedModule]
  · rw [hme, hclient]
    simp [stopAndDestroy, Sys.setStates, Sys.view, initial, Chain.started, startedModule, hm,
      Method.hasClient]
  · rw [hsup]; exact p.zero_mem_order
  · rw [hme, hidx0]
    simpa [stopAndDestroy, Sys.setStates, Sys.view, initial, Chain.started, startedModule]
      using p.idx_zero

/-! ## An initial thread over an empty ring -/

/-- Without a chunk in the ring a live `initial_thread` comes to wait for one. -/
theorem alone_pops {v : View} (hpc : v.me.thread.pc = .testExit) (hstate : v.me.state = .live)
    (hexit : v.exitFlag = false) :
    ∃ w, alone .initial 4 v = some w ∧ w.me.thread.pc = .popRing ∧ w.ring = v.ring ∧
      w.next = v.next ∧ w.me.client = v.me.client ∧ w.me.idx = v.me.idx := by
  simp [alone, threadStep, exec, test, Method.body, initialThread, View.goto, View.setThread,
    hpc, hstate, hexit]

/-- A client without a job. -/
def Resting (m : Module) : Prop :=
  m.client.pc = .left ∨ m.client.pc = .waitJob ∧ m.proc.semJob = 0

/-- The head waits for a chunk, and nobody has one. -/
def Starved (sys : Sys) : Prop :=
  (sys.mods 0).thread.pc = .popRing ∧ sys.ring = [] ∧ (∀ i, Resting (sys.mods i)) ∧
    ∀ i, 0 < i → (sys.mods i).thread.pc = .waitNewCmd ∧ (sys.mods i).box.newCmd = 0

theorem Starved.sameWork {sys sys' : Sys} (h : Starved sys) (hsame : Sys.SameWork sys sys') :
    Starved sys' := by
  obtain ⟨hpc, hring, hrest, hidle⟩ := h
  refine ⟨by rw [hsame.thread]; exact hpc, hsame.ring.trans hring, fun j => ?_, fun j hj => ?_⟩
  · unfold Resting
    rw [hsame.client, hsame.proc]
    exact hrest j
  · rw [hsame.thread, hsame.box]
    exact hidle j hj

theorem keeps_starved : Keeps p Starved where
  thread := by
    rintro sys i sys' ⟨hpc, hring, -, hidle⟩ hs
    obtain ⟨-, w, hw, -⟩ := Chain.step_thread hs
    obtain ⟨e, he, -⟩ := threadStep_some hw
    have hview : (sys.view i).me = sys.mods i := rfl
    have hview' : (sys.view i).ring = sys.ring := rfl
    rcases Nat.eq_zero_or_pos i with rfl | hi
    · simp [exec, hview, hview', hpc, hring] at he
    · obtain ⟨hp, hnew⟩ := hidle i hi
      simp [exec, hview, hp, hnew, semWait] at he
  client := by
    rintro sys i r sys' ⟨-, -, hrest, -⟩ hs
    obtain ⟨-, q, cl, hcl, -⟩ := Chain.step_client hs
    rcases hrest i with hp | ⟨hp, hjob⟩
    · simp [clientStep, hp] at hcl
    · simp [clientStep, hp, hjob] at hcl
  destroy := fun sys i _ h => h.sameWork (destroy_sameWork sys i)
  running := by
    rintro sys ⟨hpc, -⟩ hp
    rw [hpc] at hp
    cases hp

/-- The state after `pipeline_start` and `pipeline_live`. -/
def live (p : Listed) : State :=
  { p.initial with sys := { (p.initial.sys.setStates .pause).setStates .live with plState := .live } }

theorem reaches_live (p : Listed) : Reaches p.system Answers p.initial p.live :=
  .head (.module (.owner .start)) trivial rfl (.step (.module (.owner .live)) trivial rfl)

theorem live_mods (p : Listed) (i : Nat) : p.live.sys.mods i =
    { startedModule (p.chain.method i) (p.chain.idx i) with state := .live } := rfl

theorem live_resting (p : Listed) (i : Nat) : Resting (p.live.sys.mods i) := by
  rw [live_mods]
  cases hc : (p.chain.method i).hasClient
  · exact Or.inl (by simp [startedModule, hc])
  · exact Or.inr (by simp [startedModule, hc])

theorem live_waits (p : Listed) {i : Nat} (hi : 0 < i) :
    (p.live.sys.mods i).thread.pc = .waitNewCmd ∧ (p.live.sys.mods i).box.newCmd = 0 := by
  rw [live_mods]
  exact ⟨Chain.loopEntry_reader (p.chain.method_readsBox hi), rfl⟩

/-- Over an empty ring the live pipeline comes to a state where all wait for each other. -/
theorem reaches_starved (hhead : p.chain.head = .initial) (hdata : p.chain.dataCnt = 0) :
    ∃ t, Reaches p.system Answers p.live t ∧ Starved t.sys ∧ t.sup = p.live.sup ∧
      t.owner = p.live.owner ∧ (t.sys.mods 0).idx = (p.live.sys.mods 0).idx := by
  have hm : p.chain.method 0 = .initial := by simp [Chain.method, hhead, Head.method]
  obtain ⟨w, hw, hpc, hring, hnext, hclient, hidx⟩ := alone_pops (v := p.live.sys.view 0)
    (by simp [Sys.view, live_mods, startedModule, hm, Method.loopEntry])
    (by simp [Sys.view, live_mods]) rfl
  obtain ⟨t, ht, hview, hsup, howner, ⟨b, hb⟩, hmods⟩ :=
    reaches_alone (p := p) (s := p.live) (k := 4) (w := w) (by rw [hm]; exact hw)
  have hme : t.sys.mods 0 = w.me := by rw [← hview]; rfl
  have hbox : (t.sys.mods 1).box = (p.live.sys.mods 1).box := by
    have hbox' : (t.sys.view 0).next = w.next := by rw [hview]
    exact hbox'.trans hnext
  have hring' : (t.sys.view 0).ring = w.ring := by rw [hview]
  refine ⟨t, ht, ⟨by rw [hme]; exact hpc, ?_, fun i => ?_, fun i hi => ?_⟩, hsup, howner, ?_⟩
  · refine hring'.trans (hring.trans ?_)
    show p.chain.offsets = []
    simp [Chain.offsets, hdata]
  · rcases Nat.lt_trichotomy i 1 with h1 | rfl | h1
    · obtain rfl : i = 0 := by omega
      refine Or.inl ?_
      rw [hme, hclient]
      simp [Sys.view, live_mods, startedModule, hm, Method.hasClient]
    · rw [hb]
      exact p.live_resting 1
    · rw [hmods i h1]
      exact p.live_resting i
  · obtain ⟨hwait, hnew⟩ := p.live_waits hi
    rcases Nat.lt_or_ge 1 i with h1 | h1
    · rw [hmods i h1]
      exact ⟨hwait, hnew⟩
    · obtain rfl : i = 1 := by omega
      refine ⟨?_, by rw [hbox]; exact hnew⟩
      rw [hb]
      exact hwait
  · rw [hme, hidx]
    rfl

theorem initial_starves (hhead : p.chain.head = .initial) (hdata : p.chain.dataCnt = 0) :
    ¬ ShutdownPossible p := by
  intro h
  obtain ⟨t, ht, hstarved, hsup, howner, hidx⟩ := reaches_starved hhead hdata
  refine never_finished keeps_starved
    ⟨hstarved.sameWork (t.sys.setStates_sameWork .stop .stop), rfl, ?_, ?_⟩
    (finishes_of_possible h (p.reaches_live.trans ht) howner (.refl _))
  · show awaitsHead t.sup
    rw [hsup]
    exact p.zero_mem_order
  · show (((t.sys.mods 0).setState .stop).idx) ≠ -1
    rw [Module.setState_idx, hidx]
    simpa [live_mods, startedModule] using p.idx_zero

/-! ## When a shutdown is possible -/

/-- Every shutdown can be finished exactly in the pipelines in which the head can leave. -/
theorem shutdownPossible_iff (p : Listed) : ShutdownPossible p ↔ CanLeave p := by
  refine ⟨fun h => ?_, shutdownPossible⟩
  have hhead : p.chain.head = .initial := by
    cases hm : p.chain.head with
    | source => exact absurd h (source_trapped hm)
    | initial => rfl
  refine ⟨hhead, ?_, ?_⟩
  · by_contra hidx
    exact initial_awaits hhead (by omega) h
  · by_contra hdata
    exact initial_starves hhead (by omega) h

/-- Three modules with a source thread at the head, listed in the order of the chain. -/
def threeListed : Listed := ⟨threeModules, [0, 1, 2], .refl _, by decide⟩

/-- The shutdown of a pipeline with a source thread hangs in the join. -/
theorem shutdown_hangs : ¬ ∀ p : Listed, ShutdownPossible p :=
  fun h => source_trapped (p := threeListed) rfl (h threeListed)

end Listed

end DclProcessor.Pipeline.Shutdown
