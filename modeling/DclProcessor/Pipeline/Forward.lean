import DclProcessor.Pipeline.Judge

/-!
What becomes of a job after its client has answered it. `process_thread` forwards the
jobs with `cmd_result == 0` and returns the chunks of the others to the data ring;
`source_thread` does not look at `cmd_result` and forwards them all.
-/

namespace DclProcessor.Pipeline

open Transition Stage

/-- The job in hand with its `cmd_result`, once the client has answered it. -/
def Module.answer (m : Module) : List (Nat × Int) :=
  if m.answered then [(m.thread.dataoffset, m.proc.cmdResult)] else []

theorem answer_of_answered {m : Module} (h : m.answered = true) :
    m.answer = [(m.thread.dataoffset, m.proc.cmdResult)] := by
  simp [Module.answer, h]

theorem answer_of_unanswered {m : Module} (h : m.answered = false) : m.answer = [] := by
  simp [Module.answer, h]

/-- The chunks of the jobs that a client has answered with an error. -/
def rejected (as : List (Nat × Int)) : List Nat := (as.filter fun a => a.2 ≠ 0).map Prod.fst

/-- How a step of a module thread with a client deals with the job in hand: it leaves it,
forwards its chunk or returns it to the ring. -/
inductive Deals (meth : Method) (v w : View) : Prop
  | leaves (hanswer : w.me.answer = v.me.answer) (hsent : jobs (sent v) = [])
      (hpushed : pushed v = [])
  | forwards (hanswer : v.me.answer = [(v.me.thread.dataoffset, v.me.proc.cmdResult)])
      (hnext : w.me.answer = []) (hsent : jobs (sent v) = [v.me.thread.dataoffset])
      (hpushed : pushed v = []) (hpc : v.me.thread.pc = .postNext)
  | returns (hanswer : v.me.answer = [(v.me.thread.dataoffset, v.me.proc.cmdResult)])
      (hnext : w.me.answer = []) (hsent : jobs (sent v) = [])
      (hpushed : pushed v = [v.me.thread.dataoffset]) (hpc : v.me.thread.pc = .dropChunk)

theorem deals_thread {meth : Method} {v w : View} {u : Thread} (hm : meth.hasClient = true)
    (hserved : v.me.Served) (hlink : Link v.me.thread v.next u) (hs : threadStep meth v = some w)
    (hpc : meth.hasPc v.me.thread.pc = true) : Deals meth v w := by
  obtain ⟨e, he, rfl⟩ := threadStep_some hs
  unfold exec at he
  cases hp : v.me.thread.pc <;> rw [hp] at hpc <;> cases meth <;> try (cases hpc; done)
  all_goals try (cases hm; done)
  all_goals simp only [hp, Option.map_eq_some_iff, Option.some.injEq] at he
  case postNext.source | postNext.process =>
    subst he
    have hsent : jobs (sent v) = [v.me.thread.dataoffset] := by
      simp [sent, hp, hlink.jobCmd (Or.inr hp), hlink.jobOffset hp, msg]
    refine .forwards (answer_of_answered (by simp [Module.answered, hp]))
      (answer_of_unanswered ?_) hsent (by simp [pushed, hp]) hp
    simp [Module.answered, Method.body, sourceThread, processThread]
  case dropChunk.process =>
    subst he
    refine .returns (answer_of_answered (by simp [Module.answered, hp]))
      (answer_of_unanswered ?_) (by simp [sent, hp]) (by simp [pushed, hp]) hp
    simp [Module.answered, Method.body, processThread]
  case postJob.source | postJob.process =>
    subst he
    have hidle := idle_of_postJob hserved hp
    refine .leaves ?_ (by simp [sent, hp]) (by simp [pushed, hp])
    rw [answer_of_unanswered (m := v.me) (by simp [Module.answered, hp])]
    refine answer_of_unanswered ?_
    simp [Module.answered, hidle, Method.body, sourceThread, processThread, View.goto,
      View.setThread, View.setProc]
  case waitJobResult.source | waitJobResult.process =>
    obtain ⟨n, hn, rfl⟩ := he
    have hpos : v.me.proc.semResult = n + 1 := semWait_some hn
    refine .leaves ?_ (by simp [sent, hp]) (by simp [pushed, hp])
    rw [answer_of_answered (m := v.me) (by simp [Module.answered, hp, hpos])]
    refine answer_of_answered ?_
    simp [Module.answered, Method.body, sourceThread, processThread, View.goto,
      View.setThread, View.setProc]
  case popRing.source =>
    split at he <;> cases he
    exact .leaves (by simp [Module.answer, Module.answered, hp, Method.body, sourceThread,
      View.goto, View.setThread]) (by simp [sent, hp]) (by simp [pushed, hp])
  case stopPostNext.source | stopPostNext.process =>
    subst he
    refine .leaves ?_ (by simp [sent, hp, hlink.stopCmd hp, msg]) (by simp [pushed, hp])
    rw [answer_of_unanswered (m := v.me) (by simp [Module.answered, hp])]
    exact answer_of_unanswered rfl
  case ended.source | ended.process => cases he
  all_goals first
    | subst he
    | obtain ⟨n, -, rfl⟩ := he
  all_goals
    refine .leaves ?_ (by simp [sent, hp]) (by simp [pushed, hp])
    cases hcond : test v <;>
      simp [Module.answer, Module.answered, hp, Method.body, sourceThread, processThread,
        View.goto, View.setThread, View.setProc, View.setBox]

/-- A step of the client answers the job in hand, or leaves everything as it is. -/
theorem answer_client {i : Nat} {m : Module} {r : Reply} {p : ProcInfo} {cl : Client}
    (hposted : Posted m) (hserved : m.Served) (hs : clientStep r m.proc m.client = some (p, cl)) :
    let m' : Module := { m with proc := p, client := cl }
    m'.answer = m.answer ∧ answers (clientEvents i r m) i = [] ∨
      m.answer = [] ∧ answers (clientEvents i r m) i = m'.answer := by
  intro m'
  unfold clientStep at hs
  cases hp : m.client.pc <;> simp only [hp] at hs
  case waitJob =>
    split at hs <;> cases hs
    refine Or.inl ⟨?_, by simp [clientEvents, hp, answers]⟩
    have hsame : m'.answered = m.answered := by
      by_cases hw : m.thread.pc = .waitJobResult
      · have hres : m.proc.semResult = 0 := by
          simp only [Module.Served, hw, Pc.awaits, Bool.toNat_true] at hserved
          omega
        simp [m', Module.answered, hw, hp, hres]
      · exact answered_of_ne hw
    unfold Module.answer
    rw [hsame]
  case dispatch =>
    obtain ⟨hawait, -, hres⟩ := awaits_of_busy hserved (by simp [Client.busy, hp])
    cases hw : m.thread.pc <;> rw [hw] at hawait <;> try (cases hawait; done)
    case waitJobResult =>
      have hcmd := hposted.procCmd (by simp [hw])
      have hoffs := hposted.procOffs (by simp [hw])
      simp only [hcmd, Option.some.injEq, Prod.mk.injEq] at hs
      obtain ⟨rfl, rfl⟩ := hs
      refine Or.inr ⟨answer_of_unanswered (by simp [Module.answered, hw, hp, hres]), ?_⟩
      rw [answer_of_answered (by simp [m', Module.answered, hw])]
      simp [m', clientEvents, hp, hcmd, answers, hoffs]
    case stopWaitJobResult =>
      have hcmd := hposted.procStop (by simp [hw])
      simp only [hcmd, Option.some.injEq, Prod.mk.injEq] at hs
      obtain ⟨rfl, rfl⟩ := hs
      refine Or.inl ⟨?_, by simp [clientEvents, hp, hcmd, answers]⟩
      rw [answer_of_unanswered (m := m) (by simp [Module.answered, hw])]
      exact answer_of_unanswered (by simp [m', Module.answered, hw])
  case postResult =>
    simp only [Option.some.injEq, Prod.mk.injEq] at hs
    obtain ⟨rfl, rfl⟩ := hs
    refine Or.inl ⟨?_, by simp [clientEvents, hp, answers]⟩
    have hsame : m'.answered = m.answered := by
      by_cases hw : m.thread.pc = .waitJobResult
      · simp [m', Module.answered, hw, hp]
      · exact answered_of_ne hw
    unfold Module.answer
    rw [hsame]
  case left => cases hs

/-- The answers to the jobs that a module has done with. -/
def settled (m : Module) (as : List (Nat × Int)) : List (Nat × Int) :=
  as.take (as.length - m.answer.length)

theorem settled_append (m : Module) (as : List (Nat × Int)) : settled m (as ++ m.answer) = as := by
  simp [settled]

theorem settled_congr {m m' : Module} (h : m'.answer = m.answer) (as : List (Nat × Int)) :
    settled m' as = settled m as := by
  unfold settled
  rw [h]

/-- When the module is done with its job, the answer to it is settled. -/
theorem settled_next {m m' : Module} {as : List (Nat × Int)} (has : as = settled m as ++ m.answer)
    (hnext : m'.answer = []) : settled m' as = settled m as ++ m.answer := by
  rw [← has]
  simp [settled, hnext]

/-- Where the chunks of the answered jobs have gone: `ws` to the next module, `rs` to the
data ring. -/
structure Sorts (meth : Method) (m : Module) (as : List (Nat × Int)) (ws rs : List Nat) : Prop where
  answers : as = settled m as ++ m.answer
  process : meth = .process → ws = accepted (fun r => r = 0) (settled m as) ∧
    rs = rejected (settled m as)
  source : meth = .source → ws = (settled m as).map Prod.fst ∧ rs = []

theorem sorts_thread {meth : Method} {v w : View} {as : List (Nat × Int)} {ws rs : List Nat}
    (h : Sorts meth v.me as ws rs) (hverdict : meth = .process → Verdict v.me)
    (hpc : meth.hasPc v.me.thread.pc = true) (hd : Deals meth v w) :
    Sorts meth w.me as (ws ++ jobs (sent v)) (rs ++ pushed v) := by
  obtain ⟨has, hprocess, hsource⟩ := h
  cases hd with
  | leaves hanswer hsent hpushed =>
    rw [hsent, hpushed, List.append_nil, List.append_nil]
    refine ⟨?_, ?_, ?_⟩ <;> rw [settled_congr hanswer]
    · rw [hanswer]; exact has
    · exact hprocess
    · exact hsource
  | forwards hanswer hnext hsent hpushed hp =>
    have hall := hanswer ▸ settled_next has hnext
    rw [hsent, hpushed, List.append_nil]
    refine ⟨by rw [hall, hnext, List.append_nil, ← hanswer]; exact has, fun hm => ?_, fun hm => ?_⟩
    · have hkept := (hverdict hm).kept (by simp [hp])
      obtain ⟨hws, hrs⟩ := hprocess hm
      rw [hall]
      constructor
      · simp [hws, accepted, hkept]
      · simp [hrs, rejected, hkept]
    · obtain ⟨hws, hrs⟩ := hsource hm
      rw [hall]
      exact ⟨by simp [hws], hrs⟩
  | returns hanswer hnext hsent hpushed hp =>
    have hall := hanswer ▸ settled_next has hnext
    rw [hsent, hpushed, List.append_nil]
    refine ⟨by rw [hall, hnext, List.append_nil, ← hanswer]; exact has, fun hm => ?_, fun hm => ?_⟩
    · have hdropped := (hverdict hm).dropped hp
      obtain ⟨hws, hrs⟩ := hprocess hm
      rw [hall]
      constructor
      · simp [hws, accepted, hdropped]
      · simp [hrs, rejected, hdropped]
    · rw [hm, hp] at hpc
      cases hpc

theorem sorts_client {i : Nat} {meth : Method} {m : Module} {r : Reply} {p : ProcInfo}
    {cl : Client} {as : List (Nat × Int)} {ws rs : List Nat} (h : Sorts meth m as ws rs)
    (hshake : Shake m) (hs : clientStep r m.proc m.client = some (p, cl)) :
    Sorts meth { m with proc := p, client := cl } (as ++ answers (clientEvents i r m) i) ws rs := by
  obtain ⟨has, hprocess, hsource⟩ := h
  rcases answer_client (i := i) hshake.posted hshake.served hs with ⟨hanswer, hev⟩ | ⟨hnone, hev⟩
  · rw [hev, List.append_nil]
    refine ⟨?_, ?_, ?_⟩ <;> rw [settled_congr hanswer]
    · rw [hanswer]; exact has
    · exact hprocess
    · exact hsource
  · rw [hnone, List.append_nil] at has
    rw [hev]
    refine ⟨?_, ?_, ?_⟩ <;> rw [settled_append]
    · rw [← has] at hprocess
      exact hprocess
    · rw [← has] at hsource
      exact hsource

namespace Chain

variable {c : Chain} {s s' : Sys}

def Sorting (c : Chain) (es : List Event) (s : Sys) : Prop :=
  ∀ i < c.cnt, (c.method i).hasClient = true → (c.method i = .process → Verdict (s.mods i)) ∧
    Sorts (c.method i) (s.mods i) (answers es i) (jobs (written es i)) (returned es i)

theorem sorting_started : c.Sorting [] c.started := by
  intro i hi hclient
  refine ⟨fun hm => ?_, ?_⟩
  · simp only [started, hm]
    exact startedModule_verdict _
  · cases hm : c.method i <;> simp only [started, hm] <;> exact ⟨rfl, by simp [settled, answers,
      accepted, rejected, jobs, written, returned], by simp [settled, answers, jobs, written,
      returned]⟩

theorem method_next {i : Nat} (hi : i < c.cnt) (hclient : (c.method i).hasClient = true) :
    i + 1 < c.cnt := by
  unfold cnt at hi ⊢
  by_contra hlast
  obtain rfl : i = c.middle + 1 := by omega
  simp [method, Method.hasClient] at hclient

theorem sorting_step {es : List Event} {a : Action} (hw : c.Wired s)
    (hshake : ∀ i, Shake (s.mods i)) (hsorting : c.Sorting es s) (h : c.step s a = some s') :
    c.Sorting (es ++ Chain.emit s a) s' := by
  intro j hj hclient
  obtain ⟨hverdict, hsorts⟩ := hsorting j hj hclient
  simp only [answers_append, written_append, returned_append, jobs_append]
  rcases step_module h j with ⟨ht, hc, b, st, heq⟩ | ⟨rfl, w, hs, heq⟩ | ⟨r, p, cl, rfl, hs, heq⟩
  · obtain ⟨hwr, -, han, hret⟩ := emit_quiet (s := s) ht hc
    rw [heq, hwr, han, hret]
    simp only [jobs_nil, List.append_nil]
    exact ⟨fun hm => ⟨(hverdict hm).kept, (hverdict hm).dropped⟩,
      ⟨hsorts.answers, hsorts.process, hsorts.source⟩⟩
  · have hpc := hw.hasPc j
    have hlink := hw.link j (method_next hj hclient)
    have hdeals := deals_thread hclient (hshake j).served hlink hs hpc
    simp only [Chain.emit]
    rw [heq, written_threadEvents, answers_threadEvents, returned_threadEvents, if_pos rfl,
      if_pos rfl, List.append_nil]
    refine ⟨fun hm => ?_, sorts_thread hsorts hverdict hpc hdeals⟩
    rw [hm] at hs hpc
    exact verdict_thread (hverdict hm) hs hpc
  · obtain ⟨hwr, -, hret⟩ := clientEvents_quiet j j r (s.mods j)
    simp only [Chain.emit]
    rw [heq, hwr, hret]
    simp only [jobs_nil, List.append_nil]
    exact ⟨fun hm => verdict_client (hverdict hm) (hshake j).served hs,
      sorts_client hsorts (hshake j) hs⟩

theorem sorting_of_run {ok : Action → Prop} {es : List Event} (h : c.Run ok es s) :
    c.Sorting es s := by
  have hinv : (c.Wired s ∧ ∀ i, Shake (s.mods i)) ∧ c.Sorting es s := by
    refine invariant (P := fun es s => (c.Wired s ∧ ∀ i, Shake (s.mods i)) ∧ c.Sorting es s)
      ⟨⟨wired_started, fun _ => startedModule_shake _ _⟩, sorting_started⟩ ?_ h
    rintro es s a s' ⟨⟨hw, hshake⟩, hsorting⟩ - hs
    exact ⟨⟨wired_step hw hs, shake_step hw hs hshake⟩, sorting_step hw hshake hsorting hs⟩
  exact hinv.2

end Chain

/-! ## Failed jobs -/

/-- The job in hand, once the client has rejected it. -/
def Module.toReturn (m : Module) : List Nat :=
  if m.answered && m.proc.cmdResult ≠ 0 then [m.thread.dataoffset] else []

/-- The chunks `ws` passed to the next module, with the one in hand, are those of the jobs
answered with 0, in order; the chunks of the others have gone back to the ring (`rs`), but
for the one in hand. -/
structure FailuresKept (m : Module) (as : List (Nat × Int)) (ws rs : List Nat) : Prop where
  forwarded : ws ++ m.toForward = accepted (fun r => r = 0) as
  returned : rs ++ m.toReturn = rejected as

theorem accepted_append (as bs : List (Nat × Int)) :
    accepted (fun r => r = 0) (as ++ bs) =
      accepted (fun r => r = 0) as ++ accepted (fun r => r = 0) bs := by
  simp [accepted]

theorem rejected_append (as bs : List (Nat × Int)) :
    rejected (as ++ bs) = rejected as ++ rejected bs := by
  simp [rejected]

theorem accepted_answer (m : Module) : accepted (fun r => r = 0) m.answer = m.toForward := by
  unfold Module.answer Module.toForward
  cases m.answered <;> by_cases hr : m.proc.cmdResult = 0 <;> simp [accepted, hr]

theorem rejected_answer (m : Module) : rejected m.answer = m.toReturn := by
  unfold Module.answer Module.toReturn
  cases m.answered <;> by_cases hr : m.proc.cmdResult = 0 <;> simp [rejected, hr]

theorem failuresKept_iff {meth : Method} {m : Module} {as : List (Nat × Int)} {ws rs : List Nat}
    (h : Sorts meth m as ws rs) : FailuresKept m as ws rs ↔
      ws = accepted (fun r => r = 0) (settled m as) ∧ rs = rejected (settled m as) := by
  have hsplit : accepted (fun r => r = 0) as =
      accepted (fun r => r = 0) (settled m as) ++ m.toForward ∧
      rejected as = rejected (settled m as) ++ m.toReturn := by
    rw [← accepted_answer, ← rejected_answer, ← accepted_append, ← rejected_append, ← h.answers]
    exact ⟨rfl, rfl⟩
  constructor
  · rintro ⟨hforwarded, hreturned⟩
    rw [hsplit.1] at hforwarded
    rw [hsplit.2] at hreturned
    exact ⟨List.append_cancel_right hforwarded, List.append_cancel_right hreturned⟩
  · rintro ⟨rfl, rfl⟩
    exact ⟨hsplit.1.symm, hsplit.2.symm⟩

/-- All jobs are forwarded exactly if all answers are 0. -/
theorem accepted_eq_all (as : List (Nat × Int)) :
    as.map Prod.fst = accepted (fun r => r = 0) as ↔ ∀ a ∈ as, a.2 = 0 := by
  constructor
  · intro h
    have hlen : (as.filter fun a => decide (a.2 = 0)).length = as.length := by
      simpa [accepted] using (congrArg List.length h).symm
    simpa using List.length_filter_eq_length_iff.mp hlen
  · intro h
    have hall : as.filter (fun a => decide (a.2 = 0)) = as :=
      List.filter_eq_self.mpr fun a ha => by simpa using h a ha
    simp [accepted, hall]

namespace Chain

variable {c : Chain} {s : Sys}

/-- **Failed jobs are not forwarded** by a module with a client, in any run, if and only if
it runs `process_thread` or has had the answer 0 for every job it has done with. -/
theorem failures_kept_iff {ok : Action → Prop} {es : List Event} {i : Nat} (h : c.Run ok es s)
    (hi : i < c.cnt) (hclient : (c.method i).hasClient = true) :
    FailuresKept (s.mods i) (answers es i) (jobs (written es i)) (returned es i) ↔
      c.method i = .process ∨ ∀ a ∈ settled (s.mods i) (answers es i), a.2 = 0 := by
  have hsorts := (sorting_of_run h i hi hclient).2
  rw [failuresKept_iff hsorts]
  cases hm : c.method i with
  | initial => rw [hm] at hclient; cases hclient
  | finalization => rw [hm] at hclient; cases hclient
  | process =>
    simp only [true_or, iff_true]
    exact hsorts.process hm
  | source =>
    obtain ⟨hws, hrs⟩ := hsorts.source hm
    rw [hws, hrs, ← accepted_eq_all]
    simp only [reduceCtorEq, false_or, and_iff_left_iff_imp]
    intro hall
    have hzero := (accepted_eq_all _).mp hall
    symm
    simpa [rejected, List.filter_eq_nil_iff] using hzero

/-- In the drained run the process module has kept to it. -/
theorem failures_kept_drained : ∃ es s, threeModules.Run (fun _ => True) es s ∧
    answers es 1 = [(0, 0)] ∧
    FailuresKept (s.mods 1) (answers es 1) (jobs (written es 1)) (returned es 1) := by
  have hrun : threeModules.Run (fun _ => True) _ _ :=
    trace_of_isSome (fun _ _ => trivial) drained_runs
  exact ⟨_, _, hrun, by decide, (failures_kept_iff hrun (by decide) rfl).mpr (Or.inl rfl)⟩

/-- The client of the source answers the first job with 1. -/
def failedFirst : List Action :=
  [.owner .start, .owner .live] ++ List.replicate 7 (.thread 0) ++
    List.replicate 3 (.client 0 ⟨1, false⟩) ++ List.replicate 5 (.thread 0)

theorem failedFirst_runs :
    (threeModules.system.run failedFirst threeModules.started).isSome = true := by decide

/-- The chunk of a failed job goes to the next module. -/
theorem source_forwards_failed : ¬ ∀ (c : Chain) es s i, c.Run (fun _ => True) es s → i < c.cnt →
    (c.method i).hasClient = true →
    FailuresKept (s.mods i) (answers es i) (jobs (written es i)) (returned es i) := by
  intro hall
  have hrun : threeModules.Run (fun _ => True) _ _ :=
    trace_of_isSome (fun _ _ => trivial) failedFirst_runs
  have hkept := (hall _ _ _ 0 hrun (by decide) rfl).forwarded
  revert hkept
  decide

end Chain

end DclProcessor.Pipeline
