import DclProcessor.Pipeline.Drain

/-!
Deadlock freedom. While the head is live no stop command is on its way, so a
blocked chain would have, from the finalization up, every module waiting at an
empty mailbox, and the head at an empty ring: but then the chunks are nowhere.
-/

namespace DclProcessor.Pipeline

open Transition

theorem semWait_none {n : Nat} (h : semWait n = none) : n = 0 := by
  unfold semWait at h
  split at h
  · cases h
  · omega

/-! ## When the head leaves its loop -/

/-- The tests at which a head leaves its loop. -/
theorem head_leaves {meth : Method} {v w : View} (hs : threadStep meth v = some w)
    (hm : meth.readsBox = false) (hpc : meth.hasPc v.me.thread.pc = true)
    (hin : v.me.thread.pc.stopPath = false) :
    w.me.state = v.me.state ∧ (w.me.thread.pc.stopPath = true →
      v.exitFlag = true ∨ meth = .initial ∧ v.me.state = .stop) := by
  obtain ⟨e, he, rfl⟩ := threadStep_some hs
  unfold exec at he
  rw [View.goto_pc]
  cases hp : v.me.thread.pc <;> rw [hp] at hpc hin <;> cases meth <;> first
    | (cases hm; done)
    | (cases hpc; done)
    | (cases hin; done)
    | skip
  all_goals
    simp only [hp, Option.map_eq_some_iff, Option.some.injEq] at he
  case popRing.initial => split at he <;> cases he; exact ⟨rfl, fun h => by cases h⟩
  case popRing.source => split at he <;> cases he; exact ⟨rfl, fun h => by cases h⟩
  all_goals first
    | (obtain ⟨n, -, rfl⟩ := he; exact ⟨rfl, fun h => by cases h⟩)
    | subst he
  all_goals
    refine ⟨rfl, fun hout => ?_⟩
    simp [Method.body, initialThread, sourceThread, test, hp] at hout
  all_goals
    split at hout <;> rename_i hcond <;> first
      | exact Or.inl hcond
      | exact Or.inr ⟨rfl, hcond⟩
      | cases hout

/-- After its loop a head writes at most its final state. -/
theorem head_ends {meth : Method} {v w : View} (hs : threadStep meth v = some w)
    (hm : meth.readsBox = false) (hpc : meth.hasPc v.me.thread.pc = true)
    (hout : v.me.thread.pc.stopPath = true) (herr : v.me.state ≠ .error) :
    w.me.state = v.me.state ∨ meth = .initial ∧ w.me.state = .stop ∨
      meth = .source ∧ w.me.state = .init := by
  obtain ⟨e, he, rfl⟩ := threadStep_some hs
  unfold exec at he
  cases hp : v.me.thread.pc <;> rw [hp] at hpc hout <;> try (cases hout; done)
  all_goals
    simp only [hp, Option.map_eq_some_iff, Option.some.injEq] at he
  case ended => cases he
  case setState st =>
    subst he
    have hst : (v.me.setState st).state = st := by simp [Module.setState, herr]
    cases meth <;> cases st <;> first
      | (cases hm; done)
      | (cases hpc; done)
      | exact Or.inr (Or.inl ⟨rfl, hst⟩)
      | exact Or.inr (Or.inr ⟨rfl, hst⟩)
  all_goals first
    | (cases he; exact Or.inl rfl)
    | (obtain ⟨n, -, rfl⟩ := he; exact Or.inl rfl)

namespace Chain

variable {c : Chain} {s s' : Sys}

/-- The head leaves its loop only for the exit flag or, `initial_thread`, for
`pipeline_stop`. -/
structure HeadLoop (c : Chain) (s : Sys) : Prop where
  stopped : (s.mods 0).state = .stop → s.exitFlag = true ∨ s.plState = .stop
  left : (s.mods 0).thread.pc.stopPath = true →
    s.exitFlag = true ∨ c.head = .initial ∧ s.plState = .stop ∧ (s.mods 0).state = .stop
  noError : (s.mods 0).state ≠ .error

theorem headLoop_started : c.HeadLoop c.started where
  stopped h := by cases h
  left h := by
    simp only [started, startedModule, method, if_true] at h
    cases hc : c.head <;> rw [hc] at h <;> cases h
  noError := by simp [started, startedModule]

theorem method_initial (h : c.method 0 = .initial) : c.head = .initial := by
  simp only [method, if_true] at h
  cases hc : c.head
  · rfl
  · rw [hc] at h; cases h

theorem method_source (h : c.method 0 = .source) : c.head = .source := by
  simp only [method, if_true] at h
  cases hc : c.head
  · rw [hc] at h; cases h
  · rfl

theorem headLoop_head {w : View} (hw : c.Wired s) (hh : c.HeadLoop s)
    (hs : threadStep (c.method 0) (s.view 0) = some w) : c.HeadLoop (s.putView 0 w) := by
  have hpc : (c.method 0).hasPc (s.view 0).me.thread.pc = true := hw.hasPc 0
  obtain ⟨hstopped, hleft, herr⟩ := hh
  cases hout : (s.mods 0).thread.pc.stopPath with
  | false =>
    obtain ⟨hstate, hleave⟩ := head_leaves hs readsBox_zero hpc hout
    have hstate' : w.me.state = (s.mods 0).state := hstate
    constructor <;> rw [Sys.putView_me]
    · rw [hstate']; exact hstopped
    · intro hp
      rcases hleave hp with hexit | ⟨hm, hstop⟩
      · exact Or.inl hexit
      · have hstop' : (s.mods 0).state = .stop := hstop
        rcases hstopped hstop' with hexit | hpl
        · exact Or.inl hexit
        · exact Or.inr ⟨method_initial hm, hpl, hstate'.trans hstop'⟩
    · rw [hstate']; exact herr
  | true =>
    have hexit := hleft hout
    have hend : w.me.state = (s.mods 0).state ∨ c.head = .initial ∧ w.me.state = .stop ∨
        c.head = .source ∧ w.me.state = .init := by
      rcases head_ends hs readsBox_zero hpc hout herr with h | ⟨hm, h⟩ | ⟨hm, h⟩
      · exact Or.inl h
      · exact Or.inr (Or.inl ⟨method_initial hm, h⟩)
      · exact Or.inr (Or.inr ⟨method_source hm, h⟩)
    constructor <;> rw [Sys.putView_me]
    · intro _
      rcases hexit with hexit | ⟨-, hpl, -⟩
      · exact Or.inl hexit
      · exact Or.inr hpl
    · intro _
      rcases hexit with hexit | ⟨hinit, hpl, hstop⟩
      · exact Or.inl hexit
      · refine Or.inr ⟨hinit, hpl, ?_⟩
        rcases hend with h | ⟨-, h⟩ | ⟨hsource, -⟩
        · exact h.trans hstop
        · exact h
        · rw [hinit] at hsource; cases hsource
    · rcases hend with h | ⟨-, h⟩ | ⟨-, h⟩ <;> rw [h]
      · exact herr
      · simp
      · simp

/-- The owner writes another state than stop only before it has called
`pipeline_stop`. -/
theorem headLoop_setStates {st : MdState} {pl : PlState} (hh : c.HeadLoop s)
    (hpl : s.plState ≠ .stop) (hst : st ≠ .stop) (herr : st ≠ .error) :
    c.HeadLoop { s.setStates st with plState := pl } := by
  have hset : ((s.mods 0).setState st).state = st := by simp [Module.setState, hh.noError]
  constructor <;> simp only [Sys.setStates, hset, Module.setState_thread]
  · intro h
    exact absurd h hst
  · intro hp
    rcases hh.left hp with hexit | ⟨-, hstop, -⟩
    · exact Or.inl hexit
    · exact absurd hstop hpl
  · exact herr

theorem headLoop_call {call : OwnerCall} (hh : c.HeadLoop s) (h : s.call call = some s') :
    c.HeadLoop s' := by
  cases call <;> simp only [Sys.call] at h
  case start =>
    split at h <;> cases h
    rename_i hpl
    exact headLoop_setStates hh (by simp [hpl]) (by simp) (by simp)
  case live =>
    cases h
    split
    · rename_i hpl
      exact headLoop_setStates hh (by simp [hpl]) (by simp) (by simp)
    · exact hh
  case pause =>
    cases h
    split
    · rename_i hpl
      exact headLoop_setStates hh (by simp [hpl]) (by simp) (by simp)
    · exact hh
  case stop =>
    cases h
    have hset : ((s.mods 0).setState .stop).state = .stop := by
      simp [Module.setState, hh.noError]
    constructor <;> simp only [Sys.setStates, hset, Module.setState_thread]
    · intro _
      exact Or.inr trivial
    · intro hp
      rcases hh.left hp with hexit | ⟨hinit, -⟩
      · exact Or.inl hexit
      · exact Or.inr ⟨hinit, trivial, trivial⟩
    · simp

theorem headLoop_step {a : Action} (hw : c.Wired s) (hh : c.HeadLoop s)
    (h : c.step s a = some s') : c.HeadLoop s' := by
  cases a with
  | thread i =>
    obtain ⟨-, w, hs, rfl⟩ := step_thread h
    rcases Nat.eq_zero_or_pos i with rfl | hi
    · exact headLoop_head hw hh hs
    · have hsame := s.putView_of_ne i w (j := 0) (by omega) (by omega)
      constructor <;> rw [hsame]
      · exact hh.stopped
      · exact hh.left
      · exact hh.noError
  | client i r =>
    obtain ⟨-, p, cl, -, rfl⟩ := step_client h
    have hsame : ((s.setMod i { s.mods i with proc := p, client := cl }).mods 0).state =
        (s.mods 0).state ∧ ((s.setMod i { s.mods i with proc := p, client := cl }).mods 0).thread =
        (s.mods 0).thread := by
      by_cases hi : 0 = i
      · subst hi; simp [Sys.setMod]
      · simp [Sys.setMod, hi]
    constructor <;> rw [hsame.1] <;> try rw [hsame.2]
    · exact hh.stopped
    · exact hh.left
    · exact hh.noError
  | owner call => exact headLoop_call hh h
  | raiseExit =>
    simp only [step, Option.some.injEq] at h
    subst h
    exact ⟨fun _ => Or.inl rfl, fun _ => Or.inl rfl, hh.noError⟩

theorem headLoop_of_run {ok : Action → Prop} {es : List Event} (h : c.Run ok es s) :
    c.HeadLoop s := by
  have hinv : c.Wired s ∧ c.HeadLoop s := by
    refine invariant (P := fun _ s => c.Wired s ∧ c.HeadLoop s)
      ⟨wired_started, headLoop_started⟩ ?_ h
    rintro es s a s' ⟨hw, hh⟩ - hs
    exact ⟨wired_step hw hs, headLoop_step hw hh hs⟩
  exact hinv.2

/-! ## Nobody waits for everybody -/

/-- Before the head has sent the stop command no module has left its loop. -/
theorem inLoop {i : Nat} (hw : c.Wired s) (hhead : (s.mods 0).thread.pc.stopPath = false)
    (hi : i < c.cnt) : (s.mods i).thread.pc.stopPath = false := by
  induction i with
  | zero => exact hhead
  | succ i ih =>
    have hprev := ih (by omega)
    have hsent : (s.mods i).thread.pc.stopSent = false := by
      cases hp : (s.mods i).thread.pc <;> rw [hp] at hprev <;> first
        | rfl
        | cases hprev
    have hread : (s.mods (i + 1)).thread.stopRead = false := by
      cases hr : (s.mods (i + 1)).thread.stopRead with
      | false => rfl
      | true =>
        rw [(hw.link i hi).stop.mpr (Or.inr hr)] at hsent
        cases hsent
    simp only [Thread.stopRead, Bool.or_eq_false_iff] at hread
    exact hread.1

/-- A thread that cannot move has ended, or stands at one of the four waits and the
wait is for something that is not there. -/
inductive Halted (v : View) : Prop
  | ended (hp : v.me.thread.pc = .ended)
  | ring (hp : v.me.thread.pc = .popRing) (h : v.ring = [])
  | newCmd (hp : v.me.thread.pc = .waitNewCmd) (h : v.me.box.newCmd = 0)
  | jobResult (hp : v.me.thread.pc.awaits = true) (h : v.me.proc.semResult = 0)
  | next (hp : v.me.thread.pc = .waitNext ∨ v.me.thread.pc = .stopWaitNext)
      (h : v.next.result = 0)

theorem halted_of_blocked {meth : Method} {v : View} (h : threadStep meth v = none) : Halted v := by
  have he : exec v = none := Option.map_eq_none_iff.mp h
  unfold exec at he
  cases hp : v.me.thread.pc <;> simp only [hp, Option.map_eq_none_iff, reduceCtorEq] at he
  case popRing =>
    refine .ring hp ?_
    cases hr : v.ring with
    | nil => rfl
    | cons d ring => simp [hr] at he
  case waitNewCmd => exact .newCmd hp (semWait_none he)
  case waitJobResult => exact .jobResult (by rw [hp]; rfl) (semWait_none he)
  case stopWaitJobResult => exact .jobResult (by rw [hp]; rfl) (semWait_none he)
  case waitNext => exact .next (Or.inl hp) (semWait_none he)
  case stopWaitNext => exact .next (Or.inr hp) (semWait_none he)
  case ended => exact .ended hp

/-- At its empty mailbox, or gone. -/
def Idle (m : Module) : Prop :=
  m.thread.pc = .waitNewCmd ∧ m.box.newCmd = 0 ∨ m.thread.pc = .ended

/-- A module does not wait for the slot of an idle next one. -/
theorem not_next_of_idle {i : Nat} (hw : c.Wired s) (hi : i + 1 < c.cnt)
    (hidle : Idle (s.mods (i + 1)))
    (hp : (s.mods i).thread.pc = .waitNext ∨ (s.mods i).thread.pc = .stopWaitNext) :
    (s.mods (i + 1)).box.result ≠ 0 := by
  have hlink := hw.link i hi
  have hsends : (s.mods i).thread.pc.sends = false := by rcases hp with hp | hp <;> rw [hp] <;> rfl
  rcases hidle with ⟨hp', hbox⟩ | hended
  · have hsem := hlink.sem
    rw [hp', hbox, hsends] at hsem
    simp [Pc.reads] at hsem
    omega
  · have hsent := hlink.stop.mpr (Or.inr (by simp [Thread.stopRead, hended, Pc.stopPath, Pc.stopSent]))
    rcases hp with hp | hp <;> rw [hp] at hsent <;> cases hsent

theorem reader_not_popRing {i : Nat} (hw : c.Wired s) (hi : 0 < i) :
    (s.mods i).thread.pc ≠ .popRing := by
  intro hp
  have hpc := hw.hasPc i
  have hreader := c.method_readsBox hi
  rw [hp] at hpc
  cases hm : c.method i <;> rw [hm] at hpc hreader <;> first
    | (cases hpc; done)
    | cases hreader

/-- From the finalization up, every halted module is idle. -/
theorem idle_of_halted (hw : c.Wired s) (hhalt : ∀ j, 0 < j → j < c.cnt → Halted (s.view j))
    (hclient : ∀ j, 0 < j → j < c.cnt → (s.mods j).thread.pc.awaits = false) (k : Nat) {i : Nat}
    (hi : 0 < i) (hk : i + k + 1 = c.cnt) : Idle (s.mods i) := by
  induction k generalizing i with
  | zero =>
    rcases hhalt i hi (by omega) with hp | ⟨hp, -⟩ | ⟨hp, h⟩ | ⟨hp, -⟩ | ⟨hp, -⟩
    · exact Or.inr hp
    · exact absurd hp (reader_not_popRing hw hi)
    · exact Or.inl ⟨hp, h⟩
    · have := hclient i hi (by omega)
      rw [show (s.mods i).thread.pc.awaits = true from hp] at this
      cases this
    · have hpc := hw.hasPc i
      rw [show i = c.middle + 1 by unfold cnt at hk; omega, method_last] at hpc
      rw [show i = c.middle + 1 by unfold cnt at hk; omega] at hp
      rcases hp with hp | hp <;>
        rw [show (s.mods (c.middle + 1)).thread.pc = _ from hp] at hpc <;> cases hpc
  | succ k ih =>
    have hnext := ih (i := i + 1) (by omega) (by omega)
    rcases hhalt i hi (by omega) with hp | ⟨hp, -⟩ | ⟨hp, h⟩ | ⟨hp, -⟩ | ⟨hp, h⟩
    · exact Or.inr hp
    · exact absurd hp (reader_not_popRing hw hi)
    · exact Or.inl ⟨hp, h⟩
    · have := hclient i hi (by omega)
      rw [show (s.mods i).thread.pc.awaits = true from hp] at this
      cases this
    · exact absurd h (not_next_of_idle hw (by omega) hnext hp)

/-- An idle module has ended exactly when the one before it has sent the stop command. -/
theorem ended_of_idle {i : Nat} (hw : c.Wired s) (hi : i + 1 < c.cnt)
    (hidle : Idle (s.mods (i + 1))) :
    (s.mods (i + 1)).thread.pc = .ended ↔ (s.mods i).thread.pc.stopSent = true := by
  rw [(hw.link i hi).stop]
  rcases hidle with ⟨hp, hbox⟩ | hp
  · simp [hp, hbox, Mailbox.unread, Thread.stopRead, Pc.stopPath, Pc.stopSent]
  · simp [hp, Thread.stopRead, Pc.stopPath, Pc.stopSent]

/-- When the head waits at an empty ring and all others at empty mailboxes, the chunks
are nowhere. -/
theorem not_all_waiting (hw : c.Wired s) (hchunks : c.chunks s = (c.offsets : Multiset Nat))
    (hdata : 1 ≤ c.dataCnt) (hhead : (s.mods 0).thread.pc = .popRing) (hring : s.ring = [])
    (hidle : ∀ i, 0 < i → i < c.cnt →
      (s.mods i).thread.pc = .waitNewCmd ∧ (s.mods i).box.newCmd = 0) : False := by
  have hempty : ∀ i ∈ Finset.range c.cnt, (s.mods i).chunks = 0 := by
    intro i hi
    have hi' := Finset.mem_range.mp hi
    rcases Nat.eq_zero_or_pos i with rfl | hpos
    · rw [Module.chunks, chunk_of_idle (by rw [hhead]; rfl) (by simp [hhead]) (by simp [hhead]),
        chunk_empty (by rw [hw.headBox]) (by rw [hhead]; rfl), add_zero]
    · obtain ⟨hp, hbox⟩ := hidle i hpos hi'
      rw [Module.chunks, chunk_of_idle (by rw [hp]; rfl) (by simp [hp]) (by simp [hp]),
        chunk_empty hbox (by rw [hp]; rfl), add_zero]
  rw [chunks, hring, Finset.sum_eq_zero hempty] at hchunks
  have hcard := congrArg Multiset.card hchunks
  simp [offsets] at hcard
  omega

/-- Where no thread can move, one waits for its client, or all have ended. -/
theorem all_halted (hw : c.Wired s) (hchunks : c.chunks s = (c.offsets : Multiset Nat))
    (hdata : 1 ≤ c.dataCnt) (hhalt : ∀ j < c.cnt, Halted (s.view j)) :
    (∃ j < c.cnt, (s.mods j).thread.pc.awaits = true) ∨
      ∀ j < c.cnt, (s.mods j).thread.pc = .ended := by
  by_cases hawait : ∃ j < c.cnt, (s.mods j).thread.pc.awaits = true
  · exact Or.inl hawait
  have hclient : ∀ j < c.cnt, (s.mods j).thread.pc.awaits = false := fun j hj => by
    simpa using fun h => hawait ⟨j, hj, h⟩
  have hcnt : 1 < c.cnt := by unfold cnt; omega
  have hidle : ∀ i, 0 < i → i < c.cnt → Idle (s.mods i) := fun i hi hi' =>
    idle_of_halted hw (fun j _ => hhalt j) (fun j _ => hclient j) (c.cnt - i - 1) hi (by omega)
  rcases hhalt 0 (by omega) with hp | ⟨hp, hring⟩ | ⟨hp, -⟩ | ⟨hp, -⟩ | ⟨hp, h⟩
  · -- the stop command has gone through the chain
    right
    intro j hj
    induction j with
    | zero => exact hp
    | succ j ih =>
      rw [ended_of_idle hw hj (hidle (j + 1) (by omega) hj), ih (by omega)]
      rfl
  · -- no stop command is on its way, so all others wait
    have hwait : ∀ i, i < c.cnt → (s.mods i).thread.pc.stopSent = false ∧
        (0 < i → (s.mods i).thread.pc = .waitNewCmd ∧ (s.mods i).box.newCmd = 0) := by
      intro i hi
      induction i with
      | zero => exact ⟨by rw [show (s.mods 0).thread.pc = .popRing from hp]; rfl, by omega⟩
      | succ i ih =>
        have hiff := ended_of_idle hw hi (hidle (i + 1) (by omega) hi)
        rcases hidle (i + 1) (by omega) hi with ⟨hp', hbox⟩ | hended
        · exact ⟨by rw [hp']; rfl, fun _ => ⟨hp', hbox⟩⟩
        · have hsent := hiff.mp hended
          rw [(ih (by omega)).1] at hsent
          cases hsent
    exact (not_all_waiting hw hchunks hdata hp hring fun i hi hi' => (hwait i hi').2 hi).elim
  · refine absurd (reader_of_touchesBox (hw.hasPc 0) ?_) (Nat.lt_irrefl 0)
    rw [show (s.mods 0).thread.pc = .waitNewCmd from hp]
    rfl
  · have := hclient 0 (by omega)
    rw [show (s.mods 0).thread.pc.awaits = true from hp] at this
    cases this
  · exact absurd h (not_next_of_idle hw hcnt (hidle 1 (by omega) hcnt) hp)

/-- What holds of the modules in every run in which the clients answer. -/
structure Steady (c : Chain) (s : Sys) : Prop where
  wired : c.Wired s
  shake : ∀ i, Shake (s.mods i)
  attended : ∀ i, (c.method i).hasClient = true → (s.mods i).Attended
  chunks : c.chunks s = (c.offsets : Multiset Nat)

theorem steady_of_run {es : List Event} (h : c.Run Answers es s) : c.Steady s where
  wired := wired_of_run h
  shake := shake_of_run h
  attended _ hi := attended_of_run h hi
  chunks := chunks_of_run h

theorem steady_step {a : Action} (hs : c.Steady s) (hok : Answers a) (h : c.step s a = some s') :
    c.Steady s' where
  wired := wired_step hs.wired h
  shake := shake_step hs.wired h hs.shake
  attended i hi := attended_step hs.shake h hok hi (hs.attended i hi)
  chunks := (chunks_step hs.wired h).trans hs.chunks

theorem steady_sameWork (hs : c.Steady s) (h : s.SameWork s') : c.Steady s' where
  wired := wired_sameWork hs.wired h
  shake i := by
    obtain ⟨hserved, hposted⟩ := hs.shake i
    constructor
    · unfold Module.Served
      rw [h.proc, h.client, h.thread]
      exact hserved
    · constructor <;> rw [h.thread] <;> try rw [h.proc]
      · exact hposted.cmdJob
      · exact hposted.procCmd
      · exact hposted.procOffs
      · exact hposted.procStop
  attended i hi := by
    unfold Module.Attended
    rw [h.proc, h.client, h.thread]
    exact hs.attended i hi
  chunks := (chunks_sameWork h).trans hs.chunks

/-- Some thread can move, or waits for a client that can, unless all have ended. Every
thread that waits for a client is to have one. -/
theorem goes_on (hs : c.Steady s) (hdata : 1 ≤ c.dataCnt)
    (hclient : ∀ i < c.cnt, (s.mods i).thread.pc.awaits = true → (c.method i).hasClient = true) :
    (∃ i < c.cnt, (∃ s', c.step s (.thread i) = some s') ∨
      (s.mods i).thread.pc.awaits = true ∧ ∀ r, ∃ s', c.step s (.client i r) = some s') ∨
    ∀ i < c.cnt, (s.mods i).thread.pc = .ended := by
  by_cases hmove : ∃ i < c.cnt, ∃ s', c.step s (.thread i) = some s'
  · obtain ⟨i, hi, hstep⟩ := hmove
    exact Or.inl ⟨i, hi, Or.inl hstep⟩
  have hhalt : ∀ j < c.cnt, Halted (s.view j) := by
    intro j hj
    cases hstep : threadStep (c.method j) (s.view j) with
    | none => exact halted_of_blocked hstep
    | some w => exact (hmove ⟨j, hj, s.putView j w, by simp [step, hj, hstep]⟩).elim
  rcases all_halted hs.wired hs.chunks hdata hhalt with ⟨j, hj, hp⟩ | hended
  · have hres : (s.mods j).proc.semResult = 0 := by
      rcases hhalt j hj with hp' | ⟨hp', -⟩ | ⟨hp', -⟩ | ⟨-, h'⟩ | ⟨hp', -⟩
      · rw [show (s.mods j).thread.pc = .ended from hp'] at hp; cases hp
      · rw [show (s.mods j).thread.pc = .popRing from hp'] at hp; cases hp
      · rw [show (s.mods j).thread.pc = .waitNewCmd from hp'] at hp; cases hp
      · exact h'
      · rcases hp' with hp' | hp' <;>
          rw [show (s.mods j).thread.pc = _ from hp'] at hp <;> cases hp
    refine Or.inl ⟨j, hj, Or.inr ⟨hp, fun r => ?_⟩⟩
    obtain ⟨p, cl, hcl⟩ := client_goes_on r (hs.attended j (hclient j hj hp))
      (hs.shake j).served hp hres
    exact ⟨s.setMod j { s.mods j with proc := p, client := cl }, by simp [step, hj, hcl]⟩
  · exact Or.inr hended

/-- **Deadlock freedom.** While the head is live and the exit flag is clear, some
module thread can move, or some module thread waits for the answer to a job its
client has and can go on with. -/
theorem no_deadlock (hdata : 1 ≤ c.dataCnt) {es : List Event} (h : c.Run Answers es s)
    (hlive : (s.mods 0).state = .live) (hexit : s.exitFlag = false) :
    ∃ i < c.cnt, (∃ s', c.step s (.thread i) = some s') ∨
      (s.mods i).thread.pc = .waitJobResult ∧ ∀ r, ∃ s', c.step s (.client i r) = some s' := by
  have hw := wired_of_run h
  have hhead : (s.mods 0).thread.pc.stopPath = false := by
    cases hp : (s.mods 0).thread.pc.stopPath with
    | false => rfl
    | true =>
      rcases (headLoop_of_run h).left hp with hex | ⟨-, -, hst⟩
      · rw [hexit] at hex; cases hex
      · rw [hlive] at hst; cases hst
  have hawait : ∀ i < c.cnt, (s.mods i).thread.pc.awaits = true →
      (s.mods i).thread.pc = .waitJobResult := by
    intro i hi hp
    have hin := inLoop hw hhead hi
    cases hpc : (s.mods i).thread.pc <;> rw [hpc] at hp hin <;> first
      | rfl
      | (cases hp; done)
      | cases hin
  have hclient : ∀ i < c.cnt, (s.mods i).thread.pc.awaits = true →
      (c.method i).hasClient = true := by
    intro i hi hp
    have hpc := hw.hasPc i
    rw [hawait i hi hp] at hpc
    cases hm : c.method i <;> rw [hm] at hpc <;> first
      | rfl
      | cases hpc
  rcases goes_on (steady_of_run h) hdata hclient with ⟨i, hi, hmove | ⟨hp, hmove⟩⟩ | hended
  · exact ⟨i, hi, Or.inl hmove⟩
  · exact ⟨i, hi, Or.inr ⟨hawait i hi hp, hmove⟩⟩
  · have hp := hended 0 (by unfold cnt; omega)
    rw [hp] at hhead
    cases hhead

/-- The source has posted its first job, and its client has not answered it. -/
def firstJob : List Action :=
  [.owner .start, .owner .live] ++ List.replicate 7 (.thread 0)

theorem firstJob_runs :
    (threeModules.system.run firstJob threeModules.started).isSome = true := by decide

theorem firstJob_answers : ∀ a ∈ firstJob, Answers a := by
  intro a ha
  cases a with
  | client i r => simp [firstJob] at ha
  | _ => trivial

def firstJobState : Sys := ((threeModules.system.run firstJob threeModules.started).get
  firstJob_runs).2

theorem firstJob_run : ∃ es, threeModules.Run Answers es firstJobState :=
  ⟨_, trace_of_isSome firstJob_answers firstJob_runs⟩

theorem no_deadlock_firstJob : ∃ i < threeModules.cnt,
    (∃ s', threeModules.step firstJobState (.thread i) = some s') ∨
      (firstJobState.mods i).thread.pc = .waitJobResult ∧
        ∀ r, ∃ s', threeModules.step firstJobState (.client i r) = some s' := by
  obtain ⟨es, hrun⟩ := firstJob_run
  exact no_deadlock (by decide) hrun (by decide) (by decide)

/-- A module thread is blocked when it has not ended and cannot move. -/
def Blocked (c : Chain) (s : Sys) (i : Nat) : Prop :=
  (s.mods i).thread.pc ≠ .ended ∧ c.step s (.thread i) = none

/-- While a client works on a job all module threads can be blocked. -/
theorem all_blocked_while_client_works :
    ¬ ∀ (c : Chain) (es : List Event) (s : Sys), 1 ≤ c.dataCnt → c.Run Answers es s →
      (s.mods 0).state = .live → s.exitFlag = false → ∃ i < c.cnt, ¬ c.Blocked s i := by
  intro hclaim
  obtain ⟨es, hrun⟩ := firstJob_run
  obtain ⟨i, hi, hfree⟩ := hclaim threeModules es _ (by decide) hrun (by decide) (by decide)
  have hblocked : ∀ i < threeModules.cnt, (firstJobState.mods i).thread.pc ≠ .ended ∧
      (threeModules.step firstJobState (.thread i)).isNone = true := by decide
  exact hfree ⟨(hblocked i hi).1, Option.isNone_iff_eq_none.mp (hblocked i hi).2⟩

end Chain

end DclProcessor.Pipeline
