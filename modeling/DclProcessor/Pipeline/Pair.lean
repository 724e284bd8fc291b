import Mathlib.Data.Nat.Find
import DclProcessor.Pipeline.Handshake

/-!
A module thread with its client, the rest of the program as environment: the
module before it sends commands, the one after it takes them, chunks come to the
ring, states change and the exit flag is raised, in any order. The client reports
the statuses `σ 0, σ 1, ...` for the jobs it gets.
-/

namespace DclProcessor.Pipeline

open Transition

structure Pair where
  view : View
  /-- Jobs the client has worked on. -/
  count : Nat

/-- `send`: the previous module passes a command, when the slot is free; `accept`:
the next module takes what is in its mailbox; `push`: a chunk comes to the ring. -/
inductive PairAction
  | thread
  | client
  | send (cmd : Cmd) (dataoffset : Nat)
  | accept
  | push (dataoffset : Nat)
  | setState (st : MdState)
  | raiseExit

namespace Pair

def works (s : Pair) : Bool := s.view.me.client.pc = .dispatch && s.view.me.proc.cmd = .job

def step (meth : Method) (σ : Nat → Int) (s : Pair) : PairAction → Option Pair
  | .thread => (threadStep meth s.view).map fun v => { s with view := v }
  | .client =>
      (clientStep (actionReply (σ s.count)) s.view.me.proc s.view.me.client).map fun pc =>
        ⟨{ s.view with me := { s.view.me with proc := pc.1, client := pc.2 } },
          if s.works then s.count + 1 else s.count⟩
  | .send cmd d =>
      let b := s.view.me.box
      if meth.readsBox = true ∧ 0 < b.result then
        some { s with view := s.view.setBox ⟨b.newCmd + 1, b.result - 1, cmd, d⟩ }
      else none
  | .accept =>
      let b := s.view.next
      if 0 < b.newCmd then
        some { s with view := { s.view with
          next := { b with newCmd := b.newCmd - 1, result := b.result + 1 } } }
      else none
  | .push d => some { s with view := { s.view with ring := s.view.ring ++ [d] } }
  | .setState st => some { s with view := { s.view with me := s.view.me.setState st } }
  | .raiseExit => some { s with view := { s.view with exitFlag := true } }

def started (meth : Method) (idx : Int) : Pair where
  view := ⟨startedModule meth idx, ⟨0, 1, .job, 0⟩, idx, [], false⟩
  count := 0

def system (meth : Method) (σ : Nat → Int) : System Pair PairAction Empty where
  step := step meth σ
  emit _ _ := []

/-- States of the pair when the client's action reports the statuses `σ`. -/
abbrev Reachable (meth : Method) (idx : Int) (σ : Nat → Int) (s : Pair) : Prop :=
  Reaches (system meth σ) (fun _ => True) (started meth idx) s

/-- A thread blocked on `sem_result` has its client inside the loop, with the job
to take, at work on it or about to post the result. -/
def Handled (s : Pair) : Prop :=
  s.view.me.thread.pc.awaits = true → s.view.me.proc.semResult = 0 →
    s.view.me.client.pc = .waitJob ∧ 0 < s.view.me.proc.semJob ∨
    s.view.me.client.pc = .dispatch ∨ s.view.me.client.pc = .postResult

/-! ## Clients that never report -1 -/

structure Inv (meth : Method) (s : Pair) : Prop where
  hasPc : meth.hasPc s.view.me.thread.pc = true
  shake : Shake s.view.me
  attended : s.view.me.Attended
  headBox : meth.readsBox = false → s.view.me.box.cmd = .job

theorem handled_of_inv {meth : Method} {s : Pair} (h : Inv meth s) : s.Handled := by
  intro hp hres
  obtain ⟨p, cl, hs⟩ := client_goes_on ⟨0, false⟩ h.attended h.shake.served hp hres
  unfold clientStep at hs
  cases hc : s.view.me.client.pc with
  | waitJob =>
    rw [hc] at hs
    by_cases hpos : 0 < s.view.me.proc.semJob
    · exact Or.inl ⟨rfl, hpos⟩
    · simp [hpos] at hs
  | dispatch => exact Or.inr (Or.inl rfl)
  | postResult => exact Or.inr (Or.inr rfl)
  | left => simp [hc] at hs

theorem box_thread {meth : Method} {v w : View} (hs : threadStep meth v = some w)
    (hpc : meth.hasPc v.me.thread.pc = true) (hm : meth.readsBox = false) :
    w.me.box = v.me.box := by
  obtain ⟨e, he, rfl⟩ := threadStep_some hs
  show e.me.box = v.me.box
  refine exec_box he ?_
  cases hp : v.me.thread.pc <;> rw [hp] at hpc <;> cases meth <;> first
    | rfl
    | (cases hm; done)
    | cases hpc

theorem inv_started {meth : Method} (hm : meth.hasClient = true) (idx : Int) :
    Inv meth (started meth idx) where
  hasPc := hasPc_loopEntry meth
  shake := startedModule_shake meth idx
  attended h := by
    rcases h with h | h <;> simp [started, startedModule, hm] at h
  headBox _ := rfl

theorem inv_step {meth : Method} {σ : Nat → Int} (hm : meth.hasClient = true)
    (hσ : ∀ k, σ k ≠ -1) {s s' : Pair} {a : PairAction} (h : Inv meth s)
    (hs : step meth σ s a = some s') : Inv meth s' := by
  have hleave : (actionReply (σ s.count)).leave = false := by simp [actionReply, hσ]
  cases a <;> simp only [step] at hs
  case thread =>
    obtain ⟨v, hv, rfl⟩ := Option.map_eq_some_iff.mp hs
    refine ⟨?_, ⟨served_thread h.shake.served hv h.hasPc,
      posted_thread h.shake.posted hv h.hasPc h.headBox⟩, attended_thread h.attended hv hm, ?_⟩
    · obtain ⟨e, -, rfl⟩ := threadStep_some hv
      exact hasPc_body _ _ _
    · intro hr
      show v.me.box.cmd = .job
      rw [box_thread hv h.hasPc hr]
      exact h.headBox hr
  case client =>
    obtain ⟨⟨p, cl⟩, hp, rfl⟩ := Option.map_eq_some_iff.mp hs
    exact ⟨h.hasPc, ⟨served_client h.shake.served hp, posted_client h.shake.posted hp⟩,
      attended_client h.attended h.shake hleave hp, h.headBox⟩
  case send cmd d =>
    split at hs <;> cases hs
    rename_i hcond
    refine ⟨h.hasPc, ⟨h.shake.served, ?_⟩, h.attended, ?_⟩
    · exact ⟨h.shake.posted.cmdJob, h.shake.posted.procCmd, h.shake.posted.procOffs,
        h.shake.posted.procStop⟩
    · intro hr
      rw [hr] at hcond
      cases hcond.1
  case accept =>
    split at hs <;> cases hs
    exact ⟨h.hasPc, h.shake, h.attended, h.headBox⟩
  case push d =>
    cases hs
    exact ⟨h.hasPc, h.shake, h.attended, h.headBox⟩
  case setState st =>
    cases hs
    obtain ⟨st', heq⟩ := s.view.me.setState_eq st
    rw [heq]
    exact ⟨h.hasPc, ⟨h.shake.served, ⟨h.shake.posted.cmdJob, h.shake.posted.procCmd,
      h.shake.posted.procOffs, h.shake.posted.procStop⟩⟩, h.attended, h.headBox⟩
  case raiseExit =>
    cases hs
    exact ⟨h.hasPc, h.shake, h.attended, h.headBox⟩

theorem inv_of_reachable {meth : Method} {idx : Int} {σ : Nat → Int} (hm : meth.hasClient = true)
    (hσ : ∀ k, σ k ≠ -1) {s : Pair} (h : Reachable meth idx σ s) : Inv meth s :=
  h.invariant (inv_started hm idx) fun _ _ _ hinv _ hs => inv_step hm hσ hinv hs

/-! ## A client that reports -1 -/

/-- The pair between two jobs, with the slots of both mailboxes free. -/
def idle (meth : Method) (idx : Int) (st : MdState) (box : Cmd × Nat) (proc : Cmd × Nat × Int)
    (thr next : Cmd × Nat) (ring : List Nat) (cl : Client) (count : Nat) : Pair where
  view := ⟨⟨idx, st, ⟨0, 1, box.1, box.2⟩, ⟨0, 0, proc.1, proc.2.1, proc.2.2⟩,
    ⟨meth.loopEntry, thr.1, thr.2⟩, cl⟩, ⟨0, 1, next.1, next.2⟩, idx, ring, false⟩
  count := count

/-- The job on chunk 0 has been posted to the client, and the thread waits. -/
def waiting (idx : Int) (st : MdState) (box : Cmd × Nat) (semJob semResult : Nat) (res : Int)
    (next : Cmd × Nat) (ring : List Nat) (cl : Client) (count : Nat) : Pair where
  view := ⟨⟨idx, st, ⟨0, 1, box.1, box.2⟩, ⟨semJob, semResult, .job, 0, res⟩,
    ⟨.waitJobResult, .job, 0⟩, cl⟩, ⟨0, 1, next.1, next.2⟩, idx, ring, false⟩
  count := count

/-- The client once it has handled a job with reply `r`. -/
def afterReply (r : Reply) : Client := ⟨if r.leave then .left else .waitJob, r.leave⟩

variable {σ : Nat → Int} {meth : Method} {idx : Int} {st : MdState} {box thr next : Cmd × Nat}
  {proc : Cmd × Nat × Int} {ring : List Nat} {res : Int} {cl : Client} {k : Nat}

theorem process_posts : Reaches (system .process σ) (fun _ => True)
    (idle .process idx st box proc thr next ring cl k)
    (waiting idx st (.job, 0) 1 0 proc.2.2 next ring cl k) :=
  reaches_of_run (.send .job 0 :: List.replicate 8 .thread) (fun _ _ => trivial) rfl

theorem source_posts : Reaches (system .source σ) (fun _ => True)
    (idle .source idx .live (.job, 0) proc thr next [] cl k)
    (waiting idx .live (.job, 0) 1 0 proc.2.2 next [] cl k) :=
  reaches_of_run (.push 0 :: List.replicate 7 .thread) (fun _ _ => trivial) rfl

theorem client_replies : Reaches (system meth σ) (fun _ => True)
    (waiting idx st box 1 0 res next ring ⟨.waitJob, false⟩ k)
    (waiting idx st box 0 1 (actionReply (σ k)).cmdResult next ring
      (afterReply (actionReply (σ k))) (k + 1)) :=
  reaches_of_run (List.replicate 3 .client) (fun _ _ => trivial) rfl

theorem process_forwards : Reaches (system .process σ) (fun _ => True)
    (waiting idx st box 0 1 0 next ring cl k)
    (idle .process idx st box (.job, 0, 0) (.job, 0) (.job, 0) ring cl k) :=
  reaches_of_run (List.replicate 6 .thread ++ [.accept]) (fun _ _ => trivial) rfl

theorem process_drops (hres : res ≠ 0) : Reaches (system .process σ) (fun _ => True)
    (waiting idx st box 0 1 res next ring cl k)
    (idle .process idx st box (.job, 0, res) (.job, 0) next (ring ++ [0]) cl k) := by
  have htest : (if decide (res ≠ 0) = true then Pc.dropChunk else .waitNext) = .dropChunk := by
    simp [hres]
  -- the jump of `testCmdResult` depends on the result
  have hjump : Reaches (system .process σ) (fun _ => True)
      (waiting idx st box 0 1 res next ring cl k)
      ⟨⟨⟨idx, st, ⟨0, 1, box.1, box.2⟩, ⟨0, 0, .job, 0, res⟩,
        ⟨if decide (res ≠ 0) = true then .dropChunk else .waitNext, .job, 0⟩, cl⟩,
        ⟨0, 1, next.1, next.2⟩, idx, ring, false⟩, k⟩ :=
    reaches_of_run (List.replicate 2 .thread) (fun _ _ => trivial) rfl
  rw [htest] at hjump
  exact hjump.trans (reaches_of_run [.thread] (fun _ _ => trivial) rfl)

theorem source_forwards : Reaches (system .source σ) (fun _ => True)
    (waiting idx .live box 0 1 res next [] cl k)
    (idle .source idx .live box (.job, 0, res) (.job, 0) (.job, 0) [] cl k) :=
  reaches_of_run (List.replicate 5 .thread ++ [.accept]) (fun _ _ => trivial) rfl

/-- The pair is between two jobs, and the client has handled `k` of them. -/
def Between (meth : Method) (idx : Int) (cl : Client) (k : Nat) (s : Pair) : Prop :=
  ∃ st box proc thr next ring, (meth = .source → st = .live ∧ box = (.job, 0) ∧ ring = []) ∧
    s = idle meth idx st box proc thr next ring cl k

/-- From between two jobs the pair comes to the next wait for a result. -/
theorem next_wait (hm : meth.hasClient = true) {s : Pair} (h : Between meth idx cl k s) :
    ∃ st res next ring, (meth = .source → st = .live ∧ ring = []) ∧
      Reaches (system meth σ) (fun _ => True) s (waiting idx st (.job, 0) 1 0 res next ring cl k) := by
  obtain ⟨st, box, proc, thr, next, ring, hsource, rfl⟩ := h
  cases meth with
  | initial => cases hm
  | source =>
    obtain ⟨rfl, rfl, rfl⟩ := hsource rfl
    exact ⟨.live, _, next, [], fun _ => ⟨rfl, rfl⟩, source_posts⟩
  | process => exact ⟨st, _, next, ring, (fun h => by cases h), process_posts⟩
  | finalization => cases hm

/-- One job later. -/
theorem next_job (hm : meth.hasClient = true) {s : Pair}
    (h : Between meth idx ⟨.waitJob, false⟩ k s) :
    ∃ t, Reaches (system meth σ) (fun _ => True) s t ∧
      Between meth idx (afterReply (actionReply (σ k))) (k + 1) t := by
  obtain ⟨st, res, next, ring, hsource, hwait⟩ := next_wait (σ := σ) hm h
  have hreply := hwait.trans client_replies
  cases meth with
  | initial => cases hm
  | source =>
    obtain ⟨rfl, rfl⟩ := hsource rfl
    exact ⟨_, hreply.trans source_forwards,
      .live, (.job, 0), _, _, _, [], fun _ => ⟨rfl, rfl, rfl⟩, rfl⟩
  | process =>
    by_cases hres : (actionReply (σ k)).cmdResult = 0
    · rw [hres] at hreply
      exact ⟨_, hreply.trans process_forwards, st, (.job, 0), _, _, _, ring,
        (fun h => by cases h), rfl⟩
    · exact ⟨_, hreply.trans (process_drops hres), st, (.job, 0), _, _, _, ring ++ [0],
        (fun h => by cases h), rfl⟩
  | finalization => cases hm

theorem between_started (hm : meth.hasClient = true) : ∃ s,
    Reachable meth idx σ s ∧ Between meth idx ⟨.waitJob, false⟩ 0 s := by
  cases meth with
  | initial => cases hm
  | source =>
    refine ⟨idle .source idx .live (.job, 0) (.stop, 0, 0) (.stop, 0) (.job, 0) []
      ⟨.waitJob, false⟩ 0, ?_, .live, _, _, _, _, [], fun _ => ⟨rfl, rfl, rfl⟩, rfl⟩
    exact reaches_of_run [.setState .live] (fun _ _ => trivial) rfl
  | process =>
    exact ⟨started .process idx, .refl _, .init, (.job, 0), (.stop, 0, 0), (.stop, 0), (.job, 0),
      [], (fun h => by cases h), rfl⟩
  | finalization => cases hm

/-- As long as no -1 is reported, jobs go on. -/
theorem between_jobs (hm : meth.hasClient = true) (idx : Int) (hσ : ∀ j < k, σ j ≠ -1) : ∃ s,
    Reachable meth idx σ s ∧ Between meth idx ⟨.waitJob, false⟩ k s := by
  induction k with
  | zero => exact between_started hm
  | succ k ih =>
    obtain ⟨s, hs, hb⟩ := ih fun j hj => hσ j (by omega)
    obtain ⟨t, ht, hb'⟩ := next_job (σ := σ) hm hb
    have hstay : afterReply (actionReply (σ k)) = ⟨.waitJob, false⟩ := by
      simp [afterReply, actionReply, hσ k (by omega)]
    rw [hstay] at hb'
    exact ⟨t, hs.trans ht, hb'⟩

/-- After a -1 the thread waits for a client that has left. -/
theorem unhandled_of_report (hm : meth.hasClient = true) (idx : Int)
    (hσ : ∀ j < k, σ j ≠ -1) (hk : σ k = -1) : ∃ s, Reachable meth idx σ s ∧ ¬ s.Handled := by
  obtain ⟨s, hs, hb⟩ := between_jobs hm idx hσ
  obtain ⟨t, ht, hb'⟩ := next_job (σ := σ) hm hb
  obtain ⟨st, res, next, ring, -, hwait⟩ := next_wait (σ := σ) hm hb'
  refine ⟨_, (hs.trans ht).trans hwait, ?_⟩
  have hleft : afterReply (actionReply (σ k)) = ⟨.left, true⟩ := by
    simp [afterReply, actionReply, hk]
  intro hhandled
  rw [hleft] at hhandled
  rcases hhandled rfl rfl with ⟨h, -⟩ | h | h <;> cases h

/-- **A module thread never waits for a client that has left** if and only if the
client's action never reports the status -1. -/
theorem handled_iff (hm : meth.hasClient = true) (idx : Int) (σ : Nat → Int) :
    (∀ s, Reachable meth idx σ s → s.Handled) ↔ ∀ k, σ k ≠ -1 := by
  constructor
  · intro hall
    by_contra hne
    push Not at hne
    have hfirst := Nat.find_spec hne
    have hbefore : ∀ j < Nat.find hne, σ j ≠ -1 := fun j hj => Nat.find_min hne hj
    obtain ⟨s, hs, hnot⟩ := unhandled_of_report hm idx hbefore hfirst
    exact hnot (hall s hs)
  · intro hσ s hs
    exact handled_of_inv (inv_of_reachable hm hσ hs)

theorem handled_iff_process :
    (∀ s, Reachable .process 2 (fun _ => 0) s → s.Handled) ↔ ∀ _ : Nat, (0 : Int) ≠ -1 :=
  handled_iff (by decide) 2 fun _ => 0

/-- The first action reports -1, and the next module takes the chunk; then the
thread passes the stop command on and waits for its client. -/
def stopAfterReport : List PairAction :=
  .send .job 0 :: List.replicate 8 .thread ++ List.replicate 3 .client ++
    List.replicate 6 .thread ++ [.accept, .send .stop 0] ++ List.replicate 10 .thread

theorem stopAfterReport_runs : ((system .process fun _ => -1).run stopAfterReport
    (started .process 2)).isSome = true := by decide

theorem waits_for_left_client : ¬ ∀ s, Reachable .process 2 (fun _ => -1) s → s.Handled := by
  intro hall
  have hhandled := hall _ ⟨_, trace_of_isSome (fun _ _ => trivial) stopAfterReport_runs⟩
  rcases hhandled (by decide) (by decide) with ⟨h, -⟩ | h | h
  · revert h; decide
  · revert h; decide
  · revert h; decide

end Pair

end DclProcessor.Pipeline
