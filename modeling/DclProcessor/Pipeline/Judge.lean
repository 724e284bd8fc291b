import DclProcessor.Pipeline.Order
import DclProcessor.Pipeline.Ownership

/-!
One process module: the jobs it reads, the answers of its client and the jobs it
forwards. `Judged m rs as ws` says where the module stands between them.
-/

namespace DclProcessor.Pipeline

open Transition Stage

/-- Between the answer to the job in hand and the end of that job. -/
def Module.answered (m : Module) : Bool :=
  match m.thread.pc with
  | .waitJobResult => m.client.pc = .postResult || 0 < m.proc.semResult
  | .testCmdResult | .dropChunk | .waitNext | .setNextCmd | .setNextOffset | .postNext => true
  | _ => false

/-- The job in hand, as long as the client has not answered it. -/
def Module.unanswered (m : Module) : List Nat :=
  if m.thread.holds && !m.answered then [m.thread.dataoffset] else []

/-- The job in hand, once the client has accepted it. -/
def Module.toForward (m : Module) : List Nat :=
  if m.answered && m.proc.cmdResult = 0 then [m.thread.dataoffset] else []

theorem unanswered_of_idle {m : Module} (h : m.thread.holds = false) : m.unanswered = [] := by
  simp [Module.unanswered, h]

theorem unanswered_of_holds {m : Module} (h : m.thread.holds = true) (ha : m.answered = false) :
    m.unanswered = [m.thread.dataoffset] := by
  simp [Module.unanswered, h, ha]

theorem unanswered_of_answered {m : Module} (ha : m.answered = true) : m.unanswered = [] := by
  simp [Module.unanswered, ha]

theorem toForward_of_unanswered {m : Module} (ha : m.answered = false) : m.toForward = [] := by
  simp [Module.toForward, ha]

theorem toForward_of_rejected {m : Module} (hr : m.proc.cmdResult ≠ 0) : m.toForward = [] := by
  simp [Module.toForward, hr]

theorem toForward_of_kept {m : Module} (ha : m.answered = true) (hr : m.proc.cmdResult = 0) :
    m.toForward = [m.thread.dataoffset] := by
  simp [Module.toForward, ha, hr]

/-- What `process_thread` knows of the answer when it goes on with the job. -/
structure Verdict (m : Module) : Prop where
  kept : m.thread.pc = .waitNext ∨ m.thread.pc = .setNextCmd ∨ m.thread.pc = .setNextOffset ∨
    m.thread.pc = .postNext → m.proc.cmdResult = 0
  dropped : m.thread.pc = .dropChunk → m.proc.cmdResult ≠ 0

/-- `rs` are the jobs read, `as` the answers, `ws` the jobs forwarded. -/
structure Judged (m : Module) (rs : List Nat) (as : List (Nat × Int)) (ws : List Nat) : Prop where
  matched : as.map Prod.fst ++ m.unanswered = rs
  forwarded : ws ++ m.toForward = accepted (fun r => r = 0) as

theorem verdict_thread {v w : View} (h : Verdict v.me) (hs : threadStep .process v = some w)
    (hpc : Method.process.hasPc v.me.thread.pc = true) : Verdict w.me := by
  obtain ⟨e, he, rfl⟩ := threadStep_some hs
  obtain ⟨hkept, hdropped⟩ := h
  unfold exec at he
  cases hp : v.me.thread.pc <;> rw [hp] at hpc <;> try (cases hpc; done)
  all_goals
    simp only [hp, Option.map_eq_some_iff, Option.some.injEq] at he
    simp only [hp, reduceCtorEq, or_self, or_true, or_false, forall_const, false_implies]
      at hkept hdropped
  case ended => cases he
  case testCmd =>
    subst he
    constructor <;> cases hc : v.me.thread.cmd <;>
      simp [Method.body, processThread, test, hp, hc, View.goto, View.setThread]
  case testCmdResult =>
    subst he
    constructor <;> by_cases hr : v.me.proc.cmdResult = 0 <;>
      simp [Method.body, processThread, test, hp, hr, View.goto, View.setThread]
  all_goals first
    | subst he
    | obtain ⟨n, -, rfl⟩ := he
  all_goals
    constructor <;>
      simp [Method.body, processThread, View.goto, View.setThread, View.setBox, View.setProc, *]

/-- The statements of `process_thread` at which the job in hand changes. -/
def Pc.judges : Pc → Bool
  | .readOffset | .testCmd | .postJob | .waitJobResult | .testCmdResult | .dropChunk
  | .postNext => true
  | _ => false

theorem judged_quiet {v w : View} (hs : threadStep .process v = some w)
    (hpc : Method.process.hasPc v.me.thread.pc = true) (hq : v.me.thread.pc.judges = false)
    (hstop : v.me.thread.pc = .stopPostNext → v.next.cmd = .stop) :
    w.me.unanswered = v.me.unanswered ∧ w.me.toForward = v.me.toForward ∧
      jobs (received v) = [] ∧ jobs (sent v) = [] := by
  obtain ⟨e, he, rfl⟩ := threadStep_some hs
  unfold exec at he
  cases hp : v.me.thread.pc <;> rw [hp] at hpc hq <;> try (cases hpc; done)
  all_goals try (cases hq; done)
  all_goals
    simp only [hp, Option.map_eq_some_iff, Option.some.injEq] at he
  case ended => cases he
  case stopPostNext =>
    subst he
    simp [Module.unanswered, Module.toForward, Module.answered, Thread.holds, Pc.holds, received,
      sent, hp, hstop hp, msg, Method.body, processThread, View.goto, View.setThread]
  all_goals first
    | subst he
    | obtain ⟨n, -, rfl⟩ := he
  all_goals
    by_cases hr : v.me.proc.cmdResult = 0 <;> cases hc : v.me.thread.cmd <;>
    simp [Module.unanswered, Module.toForward, Module.answered, Thread.holds, Pc.holds, received,
      sent, hp, hr, hc, Method.body, processThread, View.goto, View.setThread, View.setBox,
      View.setProc]

/-- No result of an earlier job is left when the next one is posted. -/
theorem idle_of_postJob {m : Module} (h : m.Served) (hp : m.thread.pc = .postJob) :
    m.client.pc ≠ .postResult ∧ m.proc.semResult = 0 := by
  simp only [Module.Served, hp, Pc.awaits, Bool.toNat_false] at h
  refine ⟨fun hb => ?_, by omega⟩
  simp [Client.busy, hb] at h

/-- A job is unanswered from the moment when it is read. -/
theorem unanswered_judges {v w : View} (hserved : v.me.Served)
    (hs : threadStep .process v = some w) (hq : v.me.thread.pc.judges = true) :
    w.me.unanswered = v.me.unanswered ++ jobs (received v) := by
  obtain ⟨e, he, rfl⟩ := threadStep_some hs
  unfold exec at he
  cases hp : v.me.thread.pc <;> rw [hp] at hq <;> try (cases hq; done)
  all_goals
    simp only [hp, Option.map_eq_some_iff, Option.some.injEq] at he
  case readOffset =>
    subst he
    have hnone : v.me.unanswered = [] := unanswered_of_idle (by simp [Thread.holds, Pc.holds, hp])
    rw [hnone]
    cases hc : v.me.thread.cmd <;>
      simp [received, hp, hc, msg, Module.unanswered, Module.answered, Thread.holds, Pc.holds,
        Method.body, processThread, View.goto, View.setThread]
  case testCmd =>
    subst he
    cases hc : v.me.thread.cmd <;>
      simp [received, hp, hc, test, Module.unanswered, Module.answered, Thread.holds, Pc.holds,
        Method.body, processThread, View.goto, View.setThread]
  case postJob =>
    subst he
    obtain ⟨hclient, hsem⟩ := idle_of_postJob hserved hp
    simp [received, hp, hclient, hsem, Module.unanswered, Module.answered, Thread.holds, Pc.holds,
      Method.body, processThread, View.goto, View.setThread, View.setProc]
  case waitJobResult =>
    obtain ⟨n, hn, rfl⟩ := he
    have hpos : v.me.proc.semResult = n + 1 := semWait_some hn
    have hnone : v.me.unanswered = [] :=
      unanswered_of_answered (by simp [Module.answered, hp, hpos])
    rw [hnone]
    simp [received, hp, Module.unanswered, Module.answered, Method.body, processThread, View.goto,
      View.setThread, View.setProc]
  case testCmdResult =>
    subst he
    have hnone : v.me.unanswered = [] := unanswered_of_answered (by simp [Module.answered, hp])
    rw [hnone]
    by_cases hr : v.me.proc.cmdResult = 0 <;>
      simp [received, hp, hr, test, Module.unanswered, Module.answered, Method.body,
        processThread, View.goto, View.setThread]
  case dropChunk | postNext =>
    subst he
    have hnone : v.me.unanswered = [] := unanswered_of_answered (by simp [Module.answered, hp])
    rw [hnone]
    simp [received, hp, Module.unanswered, Module.answered, Thread.holds, Pc.holds, Method.body,
      processThread, View.goto, View.setThread]

/-- An accepted job is forwarded until it is sent. -/
theorem toForward_judges {v w : View} {u : Thread} (hverdict : Verdict v.me)
    (hserved : v.me.Served) (hlink : Link v.me.thread v.next u)
    (hs : threadStep .process v = some w) (hq : v.me.thread.pc.judges = true) :
    v.me.toForward = jobs (sent v) ++ w.me.toForward := by
  obtain ⟨e, he, rfl⟩ := threadStep_some hs
  unfold exec at he
  cases hp : v.me.thread.pc <;> rw [hp] at hq <;> try (cases hq; done)
  all_goals
    simp only [hp, Option.map_eq_some_iff, Option.some.injEq] at he
  case readOffset | testCmd =>
    subst he
    have hnone : v.me.toForward = [] := toForward_of_unanswered (by simp [Module.answered, hp])
    rw [hnone]
    cases hc : v.me.thread.cmd <;>
      simp [sent, hp, hc, test, Module.toForward, Module.answered, Method.body, processThread,
        View.goto, View.setThread]
  case postJob =>
    subst he
    obtain ⟨hclient, hsem⟩ := idle_of_postJob hserved hp
    have hnone : v.me.toForward = [] := toForward_of_unanswered (by simp [Module.answered, hp])
    rw [hnone]
    simp [sent, hp, hclient, hsem, Module.toForward, Module.answered, Method.body, processThread,
      View.goto, View.setThread, View.setProc]
  case waitJobResult =>
    obtain ⟨n, hn, rfl⟩ := he
    have hpos : v.me.proc.semResult = n + 1 := semWait_some hn
    by_cases hr : v.me.proc.cmdResult = 0 <;>
      simp [sent, hp, hr, hpos, Module.toForward, Module.answered, Method.body, processThread,
        View.goto, View.setThread, View.setProc]
  case testCmdResult =>
    subst he
    by_cases hr : v.me.proc.cmdResult = 0 <;>
      simp [sent, hp, hr, test, Module.toForward, Module.answered, Method.body, processThread,
        View.goto, View.setThread]
  case dropChunk =>
    subst he
    rw [toForward_of_rejected (hverdict.dropped hp)]
    simp [sent, hp, Module.toForward, Module.answered, Method.body, processThread, View.goto,
      View.setThread]
  case postNext =>
    subst he
    have hsent : jobs (sent v) = [v.me.thread.dataoffset] := by
      simp [sent, hp, hlink.jobCmd (Or.inr hp), hlink.jobOffset hp, msg]
    rw [toForward_of_kept (by simp [Module.answered, hp]) (hverdict.kept (by simp [hp])), hsent]
    simp [Module.toForward, Module.answered, Method.body, processThread, View.goto,
      View.setThread]

theorem judged_thread {v w : View} {u : Thread} {rs ws : List Nat} {as : List (Nat × Int)}
    (h : Judged v.me rs as ws) (hverdict : Verdict v.me) (hserved : v.me.Served)
    (hlink : Link v.me.thread v.next u) (hs : threadStep .process v = some w)
    (hpc : Method.process.hasPc v.me.thread.pc = true) :
    Judged w.me (rs ++ jobs (received v)) as (ws ++ jobs (sent v)) := by
  cases hq : v.me.thread.pc.judges with
  | false =>
    obtain ⟨hun, hto, hrec, hsent⟩ := judged_quiet hs hpc hq hlink.stopCmd
    exact ⟨by rw [hun, hrec, List.append_nil, h.matched],
      by rw [hto, hsent, List.append_nil, h.forwarded]⟩
  | true =>
    have hun := unanswered_judges hserved hs hq
    have hto := toForward_judges hverdict hserved hlink hs hq
    constructor
    · rw [hun, ← List.append_assoc, h.matched]
    · rw [List.append_assoc, ← hto, h.forwarded]

theorem verdict_client {m : Module} {r : Reply} {p : ProcInfo} {cl : Client} (h : Verdict m)
    (hserved : m.Served) (hs : clientStep r m.proc m.client = some (p, cl)) :
    Verdict { m with proc := p, client := cl } := by
  have hsame : m.thread.pc.awaits = false → p.cmdResult = m.proc.cmdResult := by
    intro ha
    apply (clientStep_frame hs).2.2
    intro hp
    rw [(awaits_of_busy hserved (by simp [Client.busy, hp])).1] at ha
    cases ha
  constructor
  · intro hk
    show p.cmdResult = 0
    rw [hsame (by rcases hk with hk | hk | hk | hk <;> rw [hk] <;> rfl)]
    exact h.kept hk
  · intro hd
    show p.cmdResult ≠ 0
    rw [hsame (by rw [hd]; rfl)]
    exact h.dropped hd

theorem judged_congr {m m' : Module} {rs ws : List Nat} {as : List (Nat × Int)}
    (h : Judged m rs as ws) (ht : m'.thread = m.thread) (ha : m'.answered = m.answered)
    (hr : m'.proc.cmdResult = m.proc.cmdResult) : Judged m' rs as ws where
  matched := by
    rw [← h.matched]
    simp only [Module.unanswered, ht, ha]
  forwarded := by
    rw [← h.forwarded]
    simp only [Module.toForward, ht, ha, hr]

theorem answered_of_ne {m : Module} {p : ProcInfo} {cl : Client}
    (h : m.thread.pc ≠ .waitJobResult) :
    ({ m with proc := p, client := cl } : Module).answered = m.answered := by
  unfold Module.answered
  cases hp : m.thread.pc <;> first
    | rfl
    | exact absurd hp h

/-- A step of the client answers the job in hand, or changes nothing here. -/
theorem judged_client {i : Nat} {m : Module} {r : Reply} {p : ProcInfo} {cl : Client}
    {rs ws : List Nat} {as : List (Nat × Int)} (h : Judged m rs as ws) (hposted : Posted m)
    (hserved : m.Served) (hs : clientStep r m.proc m.client = some (p, cl)) :
    Judged { m with proc := p, client := cl } rs (as ++ answers (clientEvents i r m) i) ws := by
  unfold clientStep at hs
  cases hp : m.client.pc <;> simp only [hp] at hs
  case waitJob =>
    split at hs <;> cases hs
    have hnone : answers (clientEvents i r m) i = [] := by simp [clientEvents, hp, answers]
    rw [hnone, List.append_nil]
    refine judged_congr h rfl ?_ rfl
    by_cases hw : m.thread.pc = .waitJobResult
    · have hres : m.proc.semResult = 0 := by
        simp only [Module.Served, hw, Pc.awaits, Bool.toNat_true] at hserved
        omega
      simp [Module.answered, hw, hp, hres]
    · exact answered_of_ne hw
  case dispatch =>
    obtain ⟨hawait, -, hres⟩ := awaits_of_busy hserved (by simp [Client.busy, hp])
    obtain ⟨hmatched, hforwarded⟩ := h
    cases hw : m.thread.pc <;> rw [hw] at hawait <;> try (cases hawait; done)
    case waitJobResult =>
      have hcmd := hposted.procCmd (by simp [hw])
      have hoffs := hposted.procOffs (by simp [hw])
      have hwait : m.answered = false := by simp [Module.answered, hw, hp, hres]
      simp only [hcmd, Option.some.injEq, Prod.mk.injEq] at hs
      obtain ⟨rfl, rfl⟩ := hs
      rw [unanswered_of_holds (by simp [Thread.holds, Pc.holds, hw]) hwait] at hmatched
      rw [toForward_of_unanswered hwait, List.append_nil] at hforwarded
      have hanswer : answers (clientEvents i r m) i = [(m.thread.dataoffset, r.cmdResult)] := by
        simp [clientEvents, hp, hcmd, answers, hoffs]
      rw [hanswer]
      constructor
      · rw [unanswered_of_answered (by simp [Module.answered, hw]), ← hmatched]
        simp
      · rw [hforwarded]
        by_cases hr : r.cmdResult = 0 <;>
          simp [accepted, Module.toForward, Module.answered, hw, hr]
    case stopWaitJobResult =>
      have hcmd := hposted.procStop (by simp [hw])
      simp only [hcmd, Option.some.injEq, Prod.mk.injEq] at hs
      obtain ⟨rfl, rfl⟩ := hs
      have hnone : answers (clientEvents i r m) i = [] := by
        simp [clientEvents, hp, hcmd, answers]
      rw [hnone, List.append_nil]
      constructor
      · rw [← hmatched, unanswered_of_idle (by simp [Thread.holds, Pc.holds, hw]),
          unanswered_of_idle (by simp [Thread.holds, Pc.holds, hw])]
      · rw [← hforwarded, toForward_of_unanswered (by simp [Module.answered, hw]),
          toForward_of_unanswered (by simp [Module.answered, hw])]
  case postResult =>
    simp only [Option.some.injEq, Prod.mk.injEq] at hs
    obtain ⟨rfl, rfl⟩ := hs
    have hnone : answers (clientEvents i r m) i = [] := by simp [clientEvents, hp, answers]
    rw [hnone, List.append_nil]
    refine judged_congr h rfl ?_ rfl
    by_cases hw : m.thread.pc = .waitJobResult
    · simp [Module.answered, hw, hp]
    · exact answered_of_ne hw
  case left => cases hs

theorem startedModule_judged (idx : Int) : Judged (startedModule .process idx) [] [] [] :=
  ⟨rfl, rfl⟩

theorem startedModule_verdict (idx : Int) : Verdict (startedModule .process idx) := by
  constructor <;> simp [startedModule, Method.loopEntry]

namespace Chain

variable {c : Chain} {s s' : Sys}

/-- Every process module forwards what its client accepts. -/
def Sorted (c : Chain) (es : List Event) (s : Sys) : Prop :=
  ∀ i, 0 < i → i ≤ c.middle → Verdict (s.mods i) ∧
    Judged (s.mods i) (jobs (readBy es i)) (answers es i) (jobs (written es i))

theorem sorted_started : c.Sorted [] c.started := by
  intro i hi hi'
  simp only [started, c.method_middle hi hi']
  exact ⟨startedModule_verdict _, startedModule_judged _⟩

theorem sorted_step {es : List Event} {a : Action} (hw : c.Wired s) (hshake : ∀ i, Shake (s.mods i))
    (hsorted : c.Sorted es s) (h : c.step s a = some s') :
    c.Sorted (es ++ Chain.emit s a) s' := by
  intro j hj hj'
  obtain ⟨hverdict, hjudged⟩ := hsorted j hj hj'
  obtain ⟨hserved, hposted⟩ := hshake j
  have hmeth := c.method_middle hj hj'
  simp only [readBy_append, answers_append, written_append, jobs_append]
  rcases step_module h j with ⟨ht, hc, b, st, heq⟩ | ⟨rfl, w, hs, heq⟩ | ⟨r, p, cl, rfl, hs, heq⟩
  · obtain ⟨hwr, hrd, han, -⟩ := emit_quiet (s := s) ht hc
    rw [heq, hwr, hrd, han]
    simp only [jobs_nil, List.append_nil]
    exact ⟨⟨hverdict.kept, hverdict.dropped⟩, judged_congr hjudged rfl rfl rfl⟩
  · have hpc := hw.hasPc j
    rw [hmeth] at hs hpc
    have hlink := hw.link j (by unfold cnt; omega)
    simp only [Chain.emit]
    rw [heq, written_threadEvents, readBy_threadEvents, answers_threadEvents, if_pos rfl,
      if_pos rfl, List.append_nil]
    exact ⟨verdict_thread hverdict hs hpc,
      judged_thread hjudged hverdict hserved hlink hs hpc⟩
  · obtain ⟨hwr, hrd, -⟩ := clientEvents_quiet j j r (s.mods j)
    simp only [Chain.emit]
    rw [heq, hwr, hrd]
    simp only [jobs_nil, List.append_nil]
    exact ⟨verdict_client hverdict hserved hs, judged_client hjudged hposted hserved hs⟩

theorem sorted_of_run {ok : Action → Prop} {es : List Event} (h : c.Run ok es s) :
    c.Sorted es s := by
  have hinv : (c.Wired s ∧ ∀ i, Shake (s.mods i)) ∧ c.Sorted es s := by
    refine invariant (P := fun es s => (c.Wired s ∧ ∀ i, Shake (s.mods i)) ∧ c.Sorted es s)
      ⟨⟨wired_started, fun _ => startedModule_shake _ _⟩, sorted_started⟩ ?_ h
    rintro es s a s' ⟨⟨hw, hshake⟩, hsorted⟩ - hs
    exact ⟨⟨wired_step hw hs, shake_step hw hs hshake⟩, sorted_step hw hshake hsorted hs⟩
  exact hinv.2

/-! ## End to end -/

/-- The jobs the head has forwarded less the ones rejected by the clients of the
first `n` process modules. -/
def surviving (es : List Event) (n : Nat) : List Nat :=
  through (fun r : Int => r = 0) (fun k => (answers es (k + 1)).map Prod.snd)
    (jobs (written es 0)) n

theorem jobs_mono {ms ns : List Msg} (h : ms <+: ns) : jobs ms <+: jobs ns := by
  obtain ⟨xs, rfl⟩ := h
  rw [jobs_append]
  exact List.prefix_append _ _

/-- What is read is a prefix of what was written. -/
theorem readBy_written {es : List Event} (hd : c.Delivered es s) {i : Nat} (hi : i + 1 < c.cnt) :
    jobs (readBy es (i + 1)) <+: jobs (written es i) := by
  apply jobs_mono
  rw [hd i hi]
  exact List.prefix_append _ _

/-- What a process module has forwarded is a prefix of the jobs it has read less
the rejected ones. -/
theorem written_survivors {m : Module} {rs ws : List Nat} {as : List (Nat × Int)}
    (h : Judged m rs as ws) :
    ws <+: survivors (fun r : Int => r = 0) rs (as.map Prod.snd) := by
  rw [← h.matched, survivors_judged, ← h.forwarded, List.append_assoc]
  exact List.prefix_append _ _

/-- **Order of delivery.** In every run: while a thread is between its wait for the
next mailbox and its post, that mailbox holds no unread command; the commands
written to a mailbox are those read from it, in order, and at most the one still
unread; the answers of a process module's client are about the jobs the module has
read, in order; and the finalization has received a prefix of the jobs the head
forwarded less the rejected ones, which is in the head's order. -/
theorem delivery_order {ok : Action → Prop} {es : List Event} (h : c.Run ok es s) :
    (∀ i, i + 1 < c.cnt → (s.mods i).thread.pc.sends = true →
      (s.mods (i + 1)).box.unread (s.mods (i + 1)).thread = false) ∧
    (∀ i, i + 1 < c.cnt → written es i =
      readBy es (i + 1) ++ (s.mods (i + 1)).box.pending (s.mods (i + 1)).thread) ∧
    (∀ i, 0 < i → i ≤ c.middle → (answers es i).map Prod.fst <+: jobs (readBy es i)) ∧
    jobs (readBy es (c.middle + 1)) <+: surviving es c.middle ∧
    (surviving es c.middle).Sublist (jobs (written es 0)) := by
  have hw := wired_of_run h
  have hd := delivered_of_run h
  have hsorted := sorted_of_run h
  refine ⟨?_, hd, ?_, ?_, through_sublist _ _ _ _⟩
  · intro i hi hsend
    obtain ⟨-, hn, hr, -⟩ := (hw.link i hi).sending hsend
    rw [unread_of_not_reads hr, hn]
    rfl
  · intro i hi hi'
    rw [← (hsorted i hi hi').2.matched]
    exact List.prefix_append _ _
  · apply prefix_through _ fun k => jobs (readBy es (k + 1))
    · exact readBy_written hd (by unfold cnt; omega)
    · intro k hk
      have hread : jobs (readBy es (k + 2)) <+: jobs (written es (k + 1)) :=
        readBy_written hd (by unfold cnt; omega)
      exact hread.trans (written_survivors (hsorted (k + 1) (by omega) (by omega)).2)

/-- In the drained run the first chunk has come through. -/
theorem delivery_order_drained : ∃ es s, threeModules.Run (fun _ => True) es s ∧
    jobs (readBy es 2) = [0] ∧ jobs (readBy es 2) <+: surviving es 1 := by
  have hrun : threeModules.Run (fun _ => True) _ _ :=
    trace_of_isSome (fun _ _ => trivial) drained_runs
  exact ⟨_, _, hrun, by decide, (delivery_order hrun).2.2.2.1⟩

end Chain

end DclProcessor.Pipeline
