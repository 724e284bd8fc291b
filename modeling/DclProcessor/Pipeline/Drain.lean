import DclProcessor.Pipeline.Judge

/-!
The stop command at the end of the jobs. A module reads it last and at most once,
with nothing in hand, so it passes the stop on after its last job; and when every
thread has ended, all chunks are back in the ring.
-/

namespace DclProcessor.Pipeline

open Transition

/-- The job a thread has in hand. -/
def Thread.hand (t : Thread) : List Nat := if t.holds then [t.dataoffset] else []

/-- Jobs module `i` is done with: forwarded, dropped or returned. -/
def finished (es : List Event) (i : Nat) : List Nat :=
  es.filterMap fun
    | .wrote j (.job d) => if j = i then some d else none
    | .returned j d => if j = i then some d else none
    | _ => none

@[simp] theorem finished_append (es fs : List Event) (i : Nat) :
    finished (es ++ fs) i = finished es i ++ finished fs i := List.filterMap_append

theorem finished_threadEvents (i j : Nat) (v : View) :
    finished (threadEvents i v) j = if i = j then jobs (sent v) ++ pushed v else [] := by
  unfold threadEvents sent pushed
  by_cases h : i = j
  · rw [if_pos h]
    cases v.me.thread.pc <;> try rfl
    all_goals cases v.next.cmd <;> simp [finished, h, msg]
  · rw [if_neg h]
    cases v.me.thread.pc <;> try rfl
    all_goals cases v.next.cmd <;> simp [finished, h, msg]

theorem hand_of_stopRead {t : Thread} (h : t.stopRead = true) : t.hand = [] := by
  unfold Thread.stopRead at h
  unfold Thread.hand Thread.holds
  cases hp : t.pc <;> cases hc : t.cmd <;>
    simp [hp, hc, Pc.stopPath, Pc.stopSent, Pc.holds] at h ⊢

/-- The thread reads at most one job at a time: what it takes in it has in hand
until it sends or returns it. -/
theorem hand_thread {meth : Method} {v w : View} (hs : threadStep meth v = some w)
    (hpc : meth.hasPc v.me.thread.pc = true) (hm : meth.readsBox = true)
    (hjob : v.me.thread.pc = .postNext → v.next.cmd = .job ∧
      v.next.dataoffset = v.me.thread.dataoffset)
    (hstop : v.me.thread.pc = .stopPostNext → v.next.cmd = .stop) :
    v.me.thread.hand ++ jobs (received v) = jobs (sent v) ++ pushed v ++ w.me.thread.hand := by
  obtain ⟨e, he, rfl⟩ := threadStep_some hs
  unfold exec at he
  cases hp : v.me.thread.pc <;> rw [hp] at hpc <;> cases meth <;> try (cases hm; done)
  all_goals try (cases hpc; done)
  all_goals simp only [hp, Option.map_eq_some_iff, Option.some.injEq] at he
  case ended => cases he
  case testCmd.process =>
    subst he
    cases hc : v.me.thread.cmd <;>
      simp [Thread.hand, Thread.holds, Pc.holds, received, sent, pushed, hp, hc, test, Method.body,
        processThread, View.goto, View.setThread]
  case testCmd.finalization =>
    subst he
    cases hc : v.me.thread.cmd <;>
      simp [Thread.hand, Thread.holds, Pc.holds, received, sent, pushed, hp, hc, test, Method.body,
        finalizationThread, View.goto, View.setThread]
  case testCmdResult =>
    subst he
    by_cases hr : v.me.proc.cmdResult = 0 <;>
      simp [Thread.hand, Thread.holds, Pc.holds, received, sent, pushed, hp, hr, test, Method.body,
        processThread, View.goto, View.setThread]
  case postNext =>
    subst he
    simp [Thread.hand, Thread.holds, Pc.holds, received, sent, pushed, hp, hjob hp, msg,
      Method.body, processThread, View.goto, View.setThread]
  case stopPostNext =>
    subst he
    simp [Thread.hand, Thread.holds, Pc.holds, received, sent, pushed, hp, hstop hp, msg,
      Method.body, processThread, View.goto, View.setThread]
  case setState.finalization =>
    subst he
    simp [Thread.hand, Thread.holds, Pc.holds, received, sent, pushed, hp, Method.body,
      finalizationThread, View.goto, View.setThread]
  all_goals first
    | subst he
    | obtain ⟨n, -, rfl⟩ := he
  all_goals
    cases hc : v.me.thread.cmd <;>
    simp [Thread.hand, Thread.holds, Pc.holds, received, sent, pushed, hp, hc, msg, Method.body,
      processThread, finalizationThread, View.goto, View.setThread, View.setBox, View.setProc]

/-- Reading the stop command is what makes `stopRead` true, and it stays true. -/
theorem stopRead_thread {meth : Method} {v w : View} (hs : threadStep meth v = some w)
    (hpc : meth.hasPc v.me.thread.pc = true) (hm : meth.readsBox = true) :
    w.me.thread.stopRead = (v.me.thread.stopRead || received v = [.stop]) := by
  obtain ⟨e, he, rfl⟩ := threadStep_some hs
  cases ht : v.me.thread.pc.touchesBox with
  | false =>
    have hnpr : v.me.thread.pc ≠ .postResult := by
      intro hp
      rw [hp] at ht
      cases ht
    obtain ⟨hpath, hnp, hnt⟩ := body_stopPath (test v) hpc hm ht
    simp only [received_of_quiet ht, Thread.stopRead, View.goto_pc, hpath, hnp, hnt, hnpr]
    by_cases hp : v.me.thread.pc = .testCmd
    · simp [hp, test]
    · simp [hp]
  | true =>
    unfold exec at he
    rcases body_touchesBox (test v) hpc ht with ⟨hp, hb⟩ | ⟨hp, hb⟩ | ⟨hp, hb⟩ | ⟨hp, hb⟩ <;>
      simp only [hp, Option.map_eq_some_iff, Option.some.injEq] at he <;> rw [hp] at hb
    · obtain ⟨n, -, rfl⟩ := he
      simp [Thread.stopRead, received, hp, hb, Pc.stopPath, Pc.stopSent]
    · subst he
      simp [Thread.stopRead, received, hp, hb, Pc.stopPath, Pc.stopSent]
    · subst he
      cases hc : v.me.thread.cmd <;>
        simp [Thread.stopRead, received, hp, hb, hc, msg, Pc.stopPath, Pc.stopSent, View.setThread]
    · subst he
      simp [Thread.stopRead, received, hp, hb, Pc.stopPath, Pc.stopSent, View.setBox]

theorem received_stopRead {v : View} (h : v.me.thread.stopRead = true) : received v = [] := by
  unfold received
  cases hp : v.me.thread.pc <;> simp [Thread.stopRead, hp, Pc.stopPath, Pc.stopSent] at h ⊢

theorem received_cases (v : View) :
    received v = [] ∨ received v = [.stop] ∨ ∃ d, received v = [.job d] := by
  unfold received
  cases v.me.thread.pc <;> simp
  cases v.me.thread.cmd <;> simp [msg]

/-- One module after the head: it is done with the jobs it has read but the one in
hand, and the stop command came last. -/
structure Draining (t : Thread) (rs : List Msg) (done : List Nat) : Prop where
  hand : jobs rs = done ++ t.hand
  last : rs = (jobs rs).map .job ++ (if t.stopRead then [.stop] else [])

theorem draining_thread {meth : Method} {v w : View} {u : Thread} {rs : List Msg}
    {done : List Nat} (h : Draining v.me.thread rs done) (hs : threadStep meth v = some w)
    (hpc : meth.hasPc v.me.thread.pc = true) (hm : meth.readsBox = true)
    (hlink : meth ≠ .finalization → Link v.me.thread v.next u) :
    Draining w.me.thread (rs ++ received v) (done ++ (jobs (sent v) ++ pushed v)) := by
  have hnf : ∀ pc : Pc, pc.touchesNext = true → v.me.thread.pc = pc → meth ≠ .finalization := by
    rintro pc hpc' rfl rfl
    cases hp : v.me.thread.pc <;> rw [hp] at hpc hpc' <;> first
      | (cases hpc'; done)
      | cases hpc
  have hhand := hand_thread hs hpc hm
    (fun hp => ⟨(hlink (hnf _ rfl hp)).jobCmd (Or.inr hp), (hlink (hnf _ rfl hp)).jobOffset hp⟩)
    (fun hp => (hlink (hnf _ rfl hp)).stopCmd hp)
  constructor
  · rw [jobs_append, h.hand, List.append_assoc, hhand]
    simp only [List.append_assoc]
  · have hread := stopRead_thread hs hpc hm
    cases hr : v.me.thread.stopRead with
    | true =>
      rw [received_stopRead hr, List.append_nil, hread, hr]
      simpa [hr] using h.last
    | false =>
      have hlast := h.last
      simp only [hr, Bool.false_eq_true, if_false, List.append_nil] at hlast
      rw [hread, hr]
      rcases received_cases v with hv | hv | ⟨d, hv⟩ <;> rw [hv, jobs_append, List.map_append]
      · simpa using hlast
      · simpa using hlast
      · simpa using hlast

namespace Chain

variable {c : Chain} {s s' : Sys}

theorem finished_quiet {a : Action} {j : Nat} (ht : a ≠ .thread j) :
    finished (Chain.emit s a) j = [] := by
  cases a with
  | thread i =>
    have hij : i ≠ j := fun h => ht (by rw [h])
    simp only [Chain.emit]
    rw [finished_threadEvents, if_neg hij]
  | client i r =>
    simp only [Chain.emit, clientEvents]
    split <;> rfl
  | owner call => rfl
  | raiseExit => rfl

def Drains (c : Chain) (es : List Event) (s : Sys) : Prop :=
  ∀ i, 0 < i → i < c.cnt → Draining (s.mods i).thread (readBy es i) (finished es i)

theorem drains_started : c.Drains [] c.started := by
  intro i hi _
  have hr := loopEntry_reader (c.method_readsBox hi)
  constructor <;>
    simp [started, startedModule, hr, readBy, finished, Thread.hand, Thread.holds, Pc.holds,
      Thread.stopRead, Pc.stopPath, Pc.stopSent]

theorem drains_step {es : List Event} {a : Action} (hw : c.Wired s) (hd : c.Drains es s)
    (h : c.step s a = some s') : c.Drains (es ++ Chain.emit s a) s' := by
  intro j hj hj'
  have hj0 := hd j hj hj'
  simp only [readBy_append, finished_append]
  rcases step_module h j with ⟨ht, hc, b, st, heq⟩ | ⟨rfl, w, hs, heq⟩ | ⟨r, p, cl, rfl, hs, heq⟩
  · obtain ⟨-, hrd, -, -⟩ := emit_quiet (s := s) ht hc
    rw [heq, hrd, finished_quiet ht, List.append_nil, List.append_nil]
    exact hj0
  · simp only [Chain.emit]
    rw [heq, readBy_threadEvents, finished_threadEvents, if_pos rfl, if_pos rfl]
    refine draining_thread (u := (s.mods (j + 1)).thread) hj0 hs (hw.hasPc j)
      (method_readsBox hj) ?_
    intro hm
    refine hw.link j ?_
    by_contra hlast
    refine hm ?_
    rw [show j = c.middle + 1 by unfold cnt at hj' hlast; omega]
    exact method_last
  · obtain ⟨-, hrd, -⟩ := clientEvents_quiet j j r (s.mods j)
    rw [heq, finished_quiet (by simp)]
    simp only [Chain.emit, hrd, List.append_nil]
    exact hj0

theorem drains_of_run {ok : Action → Prop} {es : List Event} (h : c.Run ok es s) :
    c.Drains es s := by
  have hinv : c.Wired s ∧ c.Drains es s := by
    refine invariant (P := fun es s => c.Wired s ∧ c.Drains es s)
      ⟨wired_started, drains_started⟩ ?_ h
    rintro es s a s' ⟨hw, hd⟩ - hs
    exact ⟨wired_step hw hs, drains_step hw hd hs⟩
  exact hinv.2

theorem emit_length (s : Sys) (a : Action) : (c.system.emit s a).length ≤ 1 := by
  cases a with
  | thread i =>
    show (threadEvents i (s.view i)).length ≤ 1
    unfold threadEvents
    split <;> simp
  | client i r =>
    show (clientEvents i r (s.mods i)).length ≤ 1
    unfold clientEvents
    split <;> simp
  | owner call => exact Nat.zero_le 1
  | raiseExit => exact Nat.zero_le 1

/-- Only a thread that has read the stop command passes it on. -/
theorem stopRead_of_wrote {a : Action} {i : Nat} (hw : c.Wired s) (hi : i + 1 < c.cnt)
    (h : Chain.emit s a = [.wrote i .stop]) :
    (s.mods i).thread.stopRead = true := by
  cases a with
  | thread j =>
    simp only [emit, threadEvents] at h
    cases hp : (s.view j).me.thread.pc <;> simp only [hp] at h <;> try cases h
    all_goals
      simp only [List.cons.injEq, Event.wrote.injEq, and_true] at h
    case postNext =>
      obtain ⟨rfl, hm⟩ := h
      have hcmd : (s.view j).next.cmd = .job := (hw.link j hi).jobCmd (Or.inr hp)
      rw [hcmd] at hm
      cases hm
    case stopPostNext =>
      obtain ⟨rfl, -⟩ := h
      have hp' : (s.mods j).thread.pc = .stopPostNext := hp
      simp [Thread.stopRead, hp', Pc.stopPath]
  | client j r =>
    simp only [emit, clientEvents] at h
    split at h <;> cases h
  | owner call => cases h
  | raiseExit => cases h

/-- Nothing is read after the stop command. -/
theorem read_after_stop {ds : List Nat} {pre post : List Msg} {stop : Bool}
    (hpre : .stop ∈ pre) (h : pre ++ post = ds.map .job ++ (if stop then [.stop] else [])) :
    post = [] := by
  have hno : ∀ ds : List Nat, Msg.stop ∉ ds.map .job := by simp
  cases stop with
  | false =>
    rw [if_neg (by simp), List.append_nil] at h
    exact absurd (h ▸ List.mem_append_left post hpre) (hno ds)
  | true =>
    rcases post.eq_nil_or_concat with hnil | ⟨post', m, hm⟩
    · exact hnil
    · rw [hm, List.concat_eq_append, ← List.append_assoc] at h
      obtain ⟨h', -⟩ := List.append_inj' h rfl
      exact absurd (h' ▸ List.mem_append_left post' hpre) (hno ds)

/-- All threads have ended: nothing is left in a mailbox or in a hand. -/
theorem chunks_of_ended {ok : Action → Prop} {es : List Event} (h : c.Run ok es s)
    (hend : ∀ i < c.cnt, (s.mods i).thread.pc = .ended) {i : Nat} (hi : i < c.cnt) :
    (s.mods i).box.unread (s.mods i).thread = false ∧ (s.mods i).chunks = 0 := by
  have hp := hend i hi
  have hempty : (s.mods i).box.newCmd = 0 := by
    rcases Nat.eq_zero_or_pos i with rfl | hpos
    · rw [(wired_of_run h).headBox]
    · obtain ⟨j, rfl⟩ := Nat.exists_eq_succ_of_ne_zero hpos.ne'
      refine ((wired_of_run h).link j hi).stopLast ?_
      simp [Thread.stopRead, hp, Pc.stopPath, Pc.stopSent]
  have hreads : (s.mods i).thread.pc.reads = false := by rw [hp]; rfl
  constructor
  · rw [unread_of_not_reads hreads, hempty]
    rfl
  · rw [Module.chunks, chunk_empty hempty hreads,
      chunk_of_idle (by rw [hp]; rfl) (by simp [hp]) (by simp [hp]), add_zero]

/-- **Stop drains the chain.** In every run each module after the head reads jobs and
then at most one stop command; when it has read the stop it is done with all the
jobs before it; it passes a stop on only after that; and once all threads have
ended the mailboxes are empty and the ring holds all chunks. -/
theorem stop_drains {ok : Action → Prop} {es : List Event} (h : c.Run ok es s) :
    (∀ i, 0 < i → i < c.cnt → ∃ ds : List Nat,
      readBy es i = ds.map .job ∨ readBy es i = ds.map .job ++ [.stop]) ∧
    (∀ i, 0 < i → i < c.cnt → .stop ∈ readBy es i → finished es i = jobs (readBy es i)) ∧
    (∀ i, 0 < i → i + 1 < c.cnt → ∀ pre post, es = pre ++ .wrote i .stop :: post →
      .stop ∈ readBy pre i ∧ finished pre i = jobs (readBy pre i) ∧ readBy post i = []) ∧
    ((∀ i < c.cnt, (s.mods i).thread.pc = .ended) →
      (∀ i < c.cnt, (s.mods i).box.unread (s.mods i).thread = false) ∧
      s.ring.Perm c.offsets) := by
  have hd := drains_of_run h
  refine ⟨?_, ?_, ?_, ?_⟩
  · intro i hi hi'
    refine ⟨jobs (readBy es i), ?_⟩
    have hlast := (hd i hi hi').last
    cases hr : (s.mods i).thread.stopRead
    · exact Or.inl (by simpa [hr] using hlast)
    · exact Or.inr (by simpa [hr] using hlast)
  · intro i hi hi' hmem
    have hstop : (s.mods i).thread.stopRead = true := by
      by_contra hr
      rw [(hd i hi hi').last, if_neg hr] at hmem
      simp at hmem
    have hhand := (hd i hi hi').hand
    rwa [hand_of_stopRead hstop, List.append_nil, eq_comm] at hhand
  · intro i hi hi' pre post hes
    subst hes
    obtain ⟨s₁, a, s₂, hpre, -, -, hemit, -⟩ := Trace.split emit_length h
    have hstop := stopRead_of_wrote (wired_of_run hpre) hi' hemit
    have hd₁ := drains_of_run hpre i hi (by omega)
    have hmem : Msg.stop ∈ readBy pre i := by
      rw [hd₁.last, hstop]
      simp
    refine ⟨hmem, ?_, ?_⟩
    · have hhand := hd₁.hand
      rwa [hand_of_stopRead hstop, List.append_nil, eq_comm] at hhand
    · have hall := (hd i hi (by omega)).last
      rw [readBy_append] at hall
      exact read_after_stop hmem hall
  · intro hend
    refine ⟨fun i hi => (chunks_of_ended h hend hi).1, ?_⟩
    have hall := chunks_of_run h
    rw [chunks, Finset.sum_eq_zero fun i hi =>
      (chunks_of_ended h hend (Finset.mem_range.mp hi)).2, add_zero] at hall
    exact Multiset.coe_eq_coe.mp hall

theorem stop_drains_drained : ∃ es s, threeModules.Run (fun _ => True) es s ∧
    (∀ i < threeModules.cnt, (s.mods i).thread.pc = .ended) ∧
    s.ring.Perm threeModules.offsets := by
  have hrun : threeModules.Run (fun _ => True) _ _ :=
    trace_of_isSome (fun _ _ => trivial) drained_runs
  have hend : ∀ i < threeModules.cnt,
      (((threeModules.system.run drained threeModules.started).get drained_runs).2.mods
        i).thread.pc = .ended := by decide
  exact ⟨_, _, hrun, hend, ((stop_drains hrun).2.2.2 hend).2⟩

end Chain

end DclProcessor.Pipeline
