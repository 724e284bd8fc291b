import DclProcessor.Pipeline.Leave

/-!
A pipeline that is paused. The head takes at most one more chunk, the modules behind it go on
with the jobs that are under way, and when they can do no more all chunks are in the ring.
-/

namespace DclProcessor.Pipeline

open Transition Finset

/-- The tests that a head makes again and again while it is not live. -/
def Pc.looks : Pc → Bool
  | .testExit | .testStop | .testLive => true
  | _ => false

/-- Bound on the statements before the thread waits for a command, looks at its state or ends;
for a job that it posts, its client makes three steps more. -/
def Pc.steps : Pc → Nat
  | .readCmd => 16
  | .readOffset => 15
  | .postResult | .loadCmd => 14
  | .testCmd | .popRing => 13
  | .setProcCmd => 12
  | .setProcOffs | .stopWaitNext => 11
  | .postJob | .stopSetNextCmd => 10
  | .stopPostNext => 9
  | .stopTestIdx => 8
  | .stopSetProcCmd => 7
  | .waitJobResult | .stopPostJob => 6
  | .testCmdResult => 5
  | .waitNext => 4
  | .setNextCmd => 3
  | .setNextOffset | .stopWaitJobResult => 2
  | .postNext | .dropChunk | .returnChunk | .setState _ => 1
  | .testExit | .testStop | .testLive | .waitNewCmd | .ended => 0

/-- The thread is on the way to a command for the next module. -/
def Pc.owes : Pc → Bool
  | .testExit | .testStop | .testLive | .waitNewCmd | .dropChunk | .returnChunk => false
  | pc => !pc.stopSent

/-- What a thread has left to do, where `next` stands for all that comes of a command for the
next module. Before its stop command it owes that too. -/
def Pc.weight (next : Nat) (pc : Pc) : Nat :=
  pc.steps + (if pc.owes then next else 0) + if pc.stopPath then 0 else 12 + next

/-- What a module has left to do, where `load` stands for what comes of a command in its
mailbox. -/
def Module.weight (load next : Nat) (m : Module) : Nat := m.burden (Pc.weight next) load

section Thread

variable {meth : Method} {v w : View} {load next : Nat}

theorem test_notLive (hp : v.me.thread.pc = .testLive) (hlive : v.me.state ≠ .live) :
    test v = true := by
  simpa [test, hp] using hlive

/-- Every statement of a thread is paid for, but for the tests of a head that is not live. -/
theorem weight_thread (hs : threadStep meth v = some w)
    (hpc : meth.hasPc v.me.thread.pc = true) (hlive : v.me.state ≠ .live ∨ meth.readsBox = true)
    (hload : next + 17 ≤ load) :
    w.me.weight load next + next * w.next.newCmd + (!v.me.thread.pc.looks).toNat ≤
      v.me.weight load next + next * v.next.newCmd := by
  obtain ⟨e, he, rfl⟩ := threadStep_some hs
  unfold exec at he
  cases hp : v.me.thread.pc <;> rw [hp] at hpc <;> cases meth <;>
    try (cases hpc; done)
  all_goals
    simp only [hp, Option.map_eq_some_iff, Option.some.injEq] at he
  case testLive.initial | testLive.source =>
    subst he
    have htest := test_notLive hp (hlive.resolve_right Bool.false_ne_true)
    simp [Module.weight, Module.burden, Pc.weight, hp, View.goto, View.setThread, Pc.steps,
      Pc.owes, Pc.looks, Pc.stopPath, Pc.stopSent, Method.body, initialThread, sourceThread, htest]
  case popRing.initial | popRing.source =>
    cases hr : v.ring <;> simp only [hr, reduceCtorEq, Option.some.injEq] at he
    subst he
    simp only [Module.weight, Module.burden, Pc.weight, hp, View.goto, View.setThread, Pc.steps,
      Pc.owes, Pc.looks, Pc.stopPath, Pc.stopSent, Method.body, initialThread, sourceThread,
      Bool.not_false, Bool.toNat_true, Bool.false_eq_true, if_true, if_false]
    omega
  all_goals first
    | (cases he; done)
    | subst he
    | (obtain ⟨n, hn, rfl⟩ := he; have hn' := semWait_some hn)
  all_goals
    cases hcond : test v <;>
      simp [Module.weight, Module.burden, Pc.weight, View.goto, View.setThread, View.setBox,
        View.setProc, Pc.steps, Pc.owes, Pc.looks, Pc.stopPath, Pc.stopSent, Method.body,
        initialThread, sourceThread, processThread, finalizationThread, clientRank, Nat.mul_add,
        *] <;>
      omega

/-- A head that is not live does not come to the ring. -/
theorem takes_thread (hs : threadStep meth v = some w) (hpc : meth.hasPc v.me.thread.pc = true)
    (hlive : v.me.state ≠ .live) (hw : w.me.thread.pc = .loadCmd ∨ w.me.thread.pc = .popRing) :
    v.me.thread.pc = .loadCmd ∧ w.me.thread.pc = .popRing := by
  obtain ⟨e, -, rfl⟩ := threadStep_some hs
  rw [View.goto_pc] at hw ⊢
  cases hp : v.me.thread.pc <;> rw [hp] at hpc hw <;> cases meth <;> try (cases hpc; done)
  case testLive.initial | testLive.source =>
    rw [test_notLive hp hlive] at hw
    rcases hw with hw | hw <;> cases hw
  case loadCmd.initial | loadCmd.source => exact ⟨rfl, rfl⟩
  all_goals
    cases hcond : test v <;> rw [hcond] at hw <;> rcases hw with hw | hw <;> cases hw

end Thread

namespace Chain

variable {c : Chain} {s s' t : Sys} {ok : Action → Prop} {es fs : List Event} {as : List Action}
  {a : Action} {i : Nat}

/-- What comes of a command in the mailbox of module `i`. -/
def load (c : Chain) (i : Nat) : Nat := 17 * (c.cnt - i)

/-- What all modules have left to do. -/
def work (c : Chain) (s : Sys) : Nat :=
  ∑ i ∈ range c.cnt, (s.mods i).weight (c.load i) (c.load (i + 1))

/-- Steps of threads and clients, but for the tests of the head. -/
def working (s : Sys) : Action → Bool
  | .thread i => !(s.mods i).thread.pc.looks
  | .client _ _ => true
  | .owner _ | .raiseExit => false

/-- The head takes a chunk from the ring. -/
def takes (s : Sys) : Action → Bool
  | .thread 0 => (s.mods 0).thread.pc = .popRing
  | _ => false

/-- Nothing can be done but to test and to wait. -/
def Settled (c : Chain) (s : Sys) : Prop := ∀ a, working s a = true → c.step s a = none

/-! ## A paused pipeline stays paused -/

theorem not_live_step (h : c.step s a = some s') (hlive : (s.mods 0).state ≠ .live)
    (ha : a ≠ .owner .live) (hw : c.Wired s) : (s'.mods 0).state ≠ .live := by
  cases a with
  | owner call =>
    simp only [step] at h
    cases call <;> simp only [Sys.call] at h
    case start =>
      split at h <;> cases h
      simp only [Sys.setStates, Module.setState]
      split <;> simp_all
    case live => exact absurd rfl ha
    case pause =>
      cases h
      split
      · simp only [Sys.setStates, Module.setState]
        split <;> simp_all
      · exact hlive
    case stop =>
      cases h
      simp only [Sys.setStates, Module.setState]
      split <;> simp_all
  | raiseExit =>
    simp only [step, Option.some.injEq] at h
    subst h
    exact hlive
  | thread i =>
    obtain ⟨-, w, hs, rfl⟩ := step_thread h
    by_cases hi : i = 0
    · subst hi
      obtain ⟨e, he, rfl⟩ := threadStep_some hs
      rw [Sys.putView_me]
      show e.me.state ≠ .live
      rcases exec_state he (hw.hasPc 0) with hst | hst | hst <;> rw [hst]
      · exact hlive
      · decide
      · decide
    · obtain ⟨b, hb⟩ := s.putView_frame i w (Ne.symm hi)
      rw [hb]
      exact hlive
  | client i r =>
    obtain ⟨-, p, cl, -, rfl⟩ := step_client h
    by_cases hi : i = 0
    · subst hi
      simpa [Sys.setMod] using hlive
    · simpa [Sys.setMod, Ne.symm hi] using hlive

/-! ## The work that is left -/

theorem thread_pays {w : View} {d : Nat} (hi : i < c.cnt)
    (hpaid : w.me.weight (c.load i) (c.load (i + 1)) + c.load (i + 1) * w.next.newCmd + d ≤
      (s.mods i).weight (c.load i) (c.load (i + 1)) +
        c.load (i + 1) * (s.mods (i + 1)).box.newCmd) :
    c.work (s.putView i w) + d ≤ c.work s := by
  have hlast : c.load c.cnt = 0 := by rw [load, Nat.sub_self]
  exact burden_thread hlast hi hpaid

/-- Every step of a paused pipeline is paid for by the work that it does. -/
theorem step_pays (hw : c.Wired s) (hlive : (s.mods 0).state ≠ .live)
    (h : c.step s a = some s') : c.work s' + (working s a).toNat ≤ c.work s := by
  cases a with
  | owner call => exact (burden_sameWork (step_owner h)).le
  | raiseExit => exact (burden_sameWork (step_raiseExit h)).le
  | client i r =>
    obtain ⟨hi, p, cl, hs, rfl⟩ := step_client h
    exact burden_client hi hs
  | thread i =>
    obtain ⟨hi, w, hs, rfl⟩ := step_thread h
    refine thread_pays hi (weight_thread hs (hw.hasPc i) ?_ ?_)
    · rcases Nat.eq_zero_or_pos i with rfl | hpos
      · exact Or.inl hlive
      · exact Or.inr (method_readsBox hpos)
    · simp only [load]
      omega

/-- The head takes a chunk only if it has been on the way to the ring. -/
theorem takes_step (hw : c.Wired s) (hlive : (s.mods 0).state ≠ .live)
    (h : c.step s a = some s') :
    (decide ((s'.mods 0).thread.pc = .loadCmd ∨ (s'.mods 0).thread.pc = .popRing)).toNat +
        (takes s a).toNat ≤
      (decide ((s.mods 0).thread.pc = .loadCmd ∨ (s.mods 0).thread.pc = .popRing)).toNat := by
  have hother : a ≠ .thread 0 → takes s a = false := by
    intro ha
    rcases a with (_ | i) | _ | _ | _ <;> first
      | exact absurd rfl ha
      | rfl
  rcases step_module h 0 with ⟨ha, -, b, st, hmod⟩ | ⟨rfl, w, hs, hmod⟩ | ⟨r, p, cl, rfl, -, hmod⟩
  · rw [hmod, hother ha]
    exact le_rfl
  · rw [hmod]
    by_cases htaking : w.me.thread.pc = .loadCmd ∨ w.me.thread.pc = .popRing
    · obtain ⟨hbefore, -⟩ := takes_thread hs (hw.hasPc 0) hlive htaking
      have hload : (s.mods 0).thread.pc = .loadCmd := hbefore
      simp [takes, hload, htaking]
    · simp only [takes, htaking, decide_false, Bool.toNat_false, Nat.zero_add]
      by_cases hpop : (s.mods 0).thread.pc = .popRing <;> simp [hpop]
  · rw [hmod, hother (by simp)]
    exact le_rfl

/-- At most one command is in a mailbox, and a client has at most one job. -/
theorem work_le (hw : c.Wired s) (hserved : ∀ i, (s.mods i).Served) :
    c.work s ≤ c.cnt * (51 * c.cnt + 31) := by
  have hmod : ∀ i ∈ range c.cnt, (s.mods i).weight (c.load i) (c.load (i + 1)) ≤
      51 * c.cnt + 31 := by
    intro i hi
    have hlt := mem_range.mp hi
    have hload : c.load i ≤ 17 * c.cnt := by
      simp only [load]
      omega
    have hnext : c.load (i + 1) ≤ 17 * c.cnt := by
      simp only [load]
      omega
    have hone : (s.mods i).box.newCmd ≤ 1 := by
      rcases Nat.eq_zero_or_pos i with rfl | hpos
      · rw [hw.headBox]
        decide
      · obtain ⟨j, rfl⟩ : ∃ j, i = j + 1 := ⟨i - 1, by omega⟩
        have hsem := (hw.link j hlt).sem
        omega
    have hbox : c.load i * (s.mods i).box.newCmd ≤ 17 * c.cnt :=
      (Nat.mul_le_mul hload hone).trans (Nat.mul_one _).le
    have hclient : clientRank (s.mods i).proc (s.mods i).client ≤ 3 := by
      have hjob := hserved i
      have hawait : (s.mods i).thread.pc.awaits.toNat ≤ 1 := Bool.toNat_le _
      unfold Module.Served at hjob
      cases hpc : (s.mods i).client.pc <;>
        simp [clientRank, Client.busy, hpc] at hjob ⊢ <;> omega
    have hpc : (s.mods i).thread.pc.weight (c.load (i + 1)) ≤ 28 + 2 * c.load (i + 1) := by
      have hsteps : (s.mods i).thread.pc.steps ≤ 16 := by
        cases (s.mods i).thread.pc <;> simp [Pc.steps]
      unfold Pc.weight
      split <;> split <;> omega
    unfold Module.weight Module.burden
    omega
  have hsum := sum_le_sum hmod
  rwa [sum_const, card_range, Nat.nsmul_eq_mul] at hsum

/-! ## When nothing is left to do -/

theorem halted_of_settled (h : c.Settled s) (hi : i < c.cnt)
    (hlooks : (s.mods i).thread.pc.looks = false) : Halted (s.view i) := by
  have hnone := h (.thread i) (by simp [working, hlooks])
  cases hstep : threadStep (c.method i) (s.view i) with
  | none => exact halted_of_blocked hstep
  | some w => simp [step, hi, hstep] at hnone

/-- A client goes on with a job, so no thread waits for it. -/
theorem not_awaits_of_settled (hs : c.Steady s) (h : c.Settled s) (hi : i < c.cnt)
    (hclient : (c.method i).hasClient = true) : (s.mods i).thread.pc.awaits = false := by
  by_contra hawaits
  have hpc := eq_true_of_ne_false hawaits
  have hlooks : (s.mods i).thread.pc.looks = false := by
    cases hp : (s.mods i).thread.pc <;> rw [hp] at hpc <;> first
      | rfl
      | cases hpc
  have hresult : (s.mods i).proc.semResult = 0 := by
    rcases halted_of_settled h hi hlooks with hp | ⟨hp, -⟩ | ⟨hp, -⟩ | ⟨-, hzero⟩ | ⟨hp | hp, -⟩
    case jobResult => exact hzero
    all_goals
      rw [show (s.mods i).thread.pc = _ from hp] at hpc
      cases hpc
  obtain ⟨p, cl, hcl⟩ := client_goes_on ⟨0, false⟩ (hs.attended i hclient) (hs.shake i).served hpc
    hresult
  have hnone := h (.client i ⟨0, false⟩) rfl
  simp [step, hi, hcl] at hnone

/-- Behind the head every module waits for a command, or has ended. -/
theorem idle_of_settled (hs : c.Steady s) (h : c.Settled s) (hi : 0 < i) (hlt : i < c.cnt) :
    Idle (s.mods i) := by
  have hreader : ∀ j, 0 < j → ∀ pc, (c.method j).hasPc pc = true →
      pc.looks = false ∧ (pc.awaits = true → (c.method j).hasClient = true) := by
    intro j hj pc hpc
    have hreads := c.method_readsBox hj
    cases hm : c.method j <;> rw [hm] at hpc hreads <;> first
      | (cases hreads; done)
      | (cases pc <;> first
          | (cases hpc; done)
          | exact ⟨rfl, fun hawaits => by first | rfl | cases hawaits⟩)
  refine idle_of_halted hs.wired (fun j hj hj' => ?_) (fun j hj hj' => ?_) (c.cnt - i - 1) hi
    (by omega)
  · exact halted_of_settled h hj' (hreader j hj _ (hs.wired.hasPc j)).1
  · cases hawaits : (s.mods j).thread.pc.awaits with
    | false => rfl
    | true =>
      have hclient := (hreader j hj _ (hs.wired.hasPc j)).2 hawaits
      rw [not_awaits_of_settled hs h hj' hclient] at hawaits
      cases hawaits

/-- A module without a job and with an empty mailbox has no chunk. -/
theorem chunks_zero {m : Module} (hholds : m.thread.pc.holds = false)
    (hread : m.thread.pc ≠ .postResult ∧ m.thread.pc ≠ .testCmd)
    (hreads : m.thread.pc.reads = false) (hbox : m.box.newCmd = 0) : m.chunks = 0 := by
  rw [Module.chunks, chunk_of_idle hholds hread.1 hread.2, chunk_empty hbox hreads, add_zero]

theorem chunks_of_idle (hs : c.Steady s) (hi : 0 < i) (hlt : i < c.cnt)
    (hidle : Idle (s.mods i)) : (s.mods i).chunks = 0 := by
  rcases hidle with ⟨hp, hbox⟩ | hp
  · exact chunks_zero (by rw [hp]; rfl) (by simp [hp]) (by rw [hp]; rfl) hbox
  · obtain ⟨j, rfl⟩ : ∃ j, i = j + 1 := ⟨i - 1, by omega⟩
    have hbox := (hs.wired.link j hlt).stopLast
      (by simp [Thread.stopRead, hp, Pc.stopPath, Pc.stopSent])
    exact chunks_zero (by rw [hp]; rfl) (by simp [hp]) (by rw [hp]; rfl) hbox

/-- The head is never in the midst of a mailbox. -/
theorem head_outside {pc : Pc} (h : (c.method 0).hasPc pc = true) :
    pc.reads = false ∧ pc ≠ .postResult ∧ pc ≠ .testCmd := by
  simp only [method, if_true] at h
  cases hc : c.head <;> rw [hc] at h <;> cases pc <;> first
    | (cases h; done)
    | exact ⟨rfl, by simp, by simp⟩

theorem head_chunks_of_settled (hs : c.Steady s) (h : c.Settled s) : (s.mods 0).chunks = 0 := by
  have hcnt : 1 < c.cnt := by unfold cnt; omega
  have hmeth := hs.wired.hasPc 0
  have hbox : (s.mods 0).box.newCmd = 0 := by rw [hs.wired.headBox]
  have houtside := head_outside hmeth
  refine chunks_zero ?_ houtside.2 houtside.1 hbox
  by_contra hjob
  have hholds := eq_true_of_ne_false hjob
  have hlooks : (s.mods 0).thread.pc.looks = false := by
    cases hp : (s.mods 0).thread.pc <;> rw [hp] at hholds <;> first
      | rfl
      | cases hholds
  rcases halted_of_settled h (by omega) hlooks with hp | ⟨hp, -⟩ | ⟨hp, -⟩ | ⟨hp, -⟩ | ⟨hp, hzero⟩
  case jobResult =>
    -- only a source waits for a client that has a job
    have hclient : (c.method 0).hasClient = true := by
      cases hpc : (s.mods 0).thread.pc <;> rw [hpc] at hholds hmeth <;> try (cases hholds; done)
      all_goals cases hm : c.method 0 <;> rw [hm] at hmeth <;> first
        | rfl
        | (cases hmeth; done)
        | (rw [show (s.view 0).me.thread.pc = _ from hpc] at hp; cases hp)
    have hawaits := not_awaits_of_settled hs h (by omega) hclient
    rw [show (s.mods 0).thread.pc.awaits = true from hp] at hawaits
    cases hawaits
  case next =>
    exact not_next_of_idle hs.wired hcnt (idle_of_settled hs h (by decide) hcnt) hp hzero
  all_goals
    rw [show (s.mods 0).thread.pc = _ from hp] at hholds
    cases hholds

/-- When nothing is left to do, all chunks are in the ring. -/
theorem ring_of_settled (hs : c.Steady s) (h : c.Settled s) :
    (s.ring : Multiset Nat) = (c.offsets : Multiset Nat) := by
  have hzero : ∀ i ∈ range c.cnt, (s.mods i).chunks = 0 := by
    intro i hi
    rcases Nat.eq_zero_or_pos i with rfl | hpos
    · exact head_chunks_of_settled hs h
    · have hlt := mem_range.mp hi
      exact chunks_of_idle hs hpos hlt (idle_of_settled hs h hpos hlt)
  have hchunks := hs.chunks
  rwa [chunks, sum_eq_zero hzero, add_zero] at hchunks

/-- **A paused pipeline comes to rest.** Until the next `pipeline_live` the head takes at most
one more chunk, all threads and clients together make no more steps than a bound that depends
on the number of modules only, and when none of them can go on every chunk is in the ring. -/
theorem pause_settles (h : c.Run ok es s) (hpaused : (s.mods 0).state ≠ .live)
    (has : ∀ a ∈ as, a ≠ .owner .live) (hrun : c.system.run as s = some (fs, t)) :
    c.system.count takes as s ≤ 1 ∧
      c.system.count working as s ≤ c.cnt * (51 * c.cnt + 31) ∧
      ((∀ a, ok a → Answers a) → (∀ a ∈ as, Answers a) → c.Settled t →
        t.ring.Perm c.offsets ∧ ∀ i, 0 < i → i < c.cnt → Idle (t.mods i)) := by
  have hw := wired_of_run h
  have hkept : ∀ u a u', c.Wired u ∧ (u.mods 0).state ≠ .live → a ≠ .owner .live →
      c.step u a = some u' → c.Wired u' ∧ (u'.mods 0).state ≠ .live :=
    fun u a u' hu ha hs => ⟨wired_step hu.1 hs, not_live_step hs hu.2 ha hu.1⟩
  refine ⟨?_, ?_, fun hok hanswers hsettled => ?_⟩
  · have htaken := count_le_of_budget (S := c.system) (p := takes) (fun u : Sys =>
      (decide ((u.mods 0).thread.pc = .loadCmd ∨ (u.mods 0).thread.pc = .popRing)).toNat)
      (fun u a u' hu ha hs => ⟨hkept u a u' hu ha hs, takes_step hu.1 hu.2 hs⟩) ⟨hw, hpaused⟩
      has hrun
    exact (Nat.le_of_add_right_le htaken).trans (Bool.toNat_le _)
  · have hdone := count_le_of_budget (S := c.system) (p := working) c.work
      (fun u a u' hu ha hs => ⟨hkept u a u' hu ha hs, step_pays hu.1 hu.2 hs⟩) ⟨hw, hpaused⟩
      has hrun
    exact (Nat.le_of_add_right_le hdone).trans
      (work_le hw fun i => (shake_of_run h i).served)
  · have hall := (h.mono hok).append (trace_of_run hanswers hrun)
    have hsteady := steady_of_run hall
    exact ⟨Multiset.coe_eq_coe.mp (ring_of_settled hsteady hsettled),
      fun i hi hlt => idle_of_settled hsteady hsettled hi hlt⟩

/-- The pipeline is paused while the first chunk is on its way. -/
def pausedChunk : List Action :=
  [.owner .start, .owner .live] ++ List.replicate 7 (.thread 0) ++
    List.replicate 3 (.client 0 ⟨0, false⟩) ++ List.replicate 5 (.thread 0) ++ [.owner .pause]

theorem pausedChunk_runs :
    (threeModules.system.run pausedChunk threeModules.started).isSome = true := by decide

theorem pausedChunk_answers : ∀ a ∈ pausedChunk, Answers a := by
  intro a ha
  cases a with
  | client i r => simp_all [pausedChunk, Answers]
  | _ => trivial

def pausedState : Sys :=
  ((threeModules.system.run pausedChunk threeModules.started).get pausedChunk_runs).2

/-- What is done with it then. -/
def settling : List Action :=
  List.replicate 8 (.thread 1) ++ List.replicate 3 (.client 1 ⟨0, false⟩) ++
    List.replicate 6 (.thread 1) ++ List.replicate 6 (.thread 2)

theorem settling_runs : (threeModules.system.run settling pausedState).isSome = true := by decide

theorem settling_answers : ∀ a ∈ settling, Answers a := by
  intro a ha
  cases a with
  | client i r => simp_all [settling, Answers]
  | _ => trivial

def settledState : Sys := ((threeModules.system.run settling pausedState).get settling_runs).2

theorem settledState_settled : threeModules.Settled settledState := by
  intro a ha
  have hthree : ∀ i, ¬ i < threeModules.cnt ∨ i = 0 ∨ i = 1 ∨ i = 2 := fun i => by
    have hcnt : threeModules.cnt = 3 := rfl
    omega
  cases a with
  | thread i =>
    rcases hthree i with hi | rfl | rfl | rfl
    · exact if_neg hi
    · exact absurd ha (by decide)
    · rfl
    · rfl
  | client i r =>
    rcases hthree i with hi | rfl | rfl | rfl
    · exact if_neg hi
    all_goals rfl
  | owner call => cases ha
  | raiseExit => cases ha

theorem pause_settles_firstChunk :
    threeModules.system.count working settling pausedState ≤ 3 * (51 * 3 + 31) ∧
      settledState.ring.Perm threeModules.offsets := by
  have hrun : threeModules.Run Answers _ pausedState :=
    trace_of_isSome pausedChunk_answers pausedChunk_runs
  obtain ⟨-, hfew, hrest⟩ := pause_settles hrun (by decide) (by simp [settling])
    (Option.some_get settling_runs).symm
  exact ⟨hfew, (hrest (fun _ h => h) settling_answers settledState_settled).1⟩

end Chain

end DclProcessor.Pipeline
