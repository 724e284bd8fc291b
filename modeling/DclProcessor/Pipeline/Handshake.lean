import DclProcessor.Pipeline.Wiring

/-!
The handshake between a module thread and its client over `sem_job` and
`sem_result`: while the thread waits for a result, exactly one of the job, the
client's work on it and the result is there, and at other times none.
-/

namespace DclProcessor.Pipeline

open Transition

/-- At `sem_wait(&module->proc_info->sem_result)`. -/
def Pc.awaits : Pc → Bool
  | .waitJobResult | .stopWaitJobResult => true
  | _ => false

/-- The client has taken a job and not yet posted its result. -/
def Client.busy (c : Client) : Bool := c.pc = .dispatch || c.pc = .postResult

def Module.Served (m : Module) : Prop :=
  m.proc.semJob + m.client.busy.toNat + m.proc.semResult = m.thread.pc.awaits.toNat

theorem body_awaits {meth : Method} {pc : Pc} (cond : Bool) (h : meth.hasPc pc = true) :
    (meth.body cond pc).awaits = (pc = .postJob || pc = .stopPostJob) := by
  cases meth <;> cases pc <;> cases cond <;> first | rfl | cases h

/-- Statements on the semaphores shared with the client. -/
def Pc.touchesProc (pc : Pc) : Bool := pc.awaits || pc = .postJob || pc = .stopPostJob

theorem exec_sems {v e : View} (he : exec v = some e) (hp : v.me.thread.pc.touchesProc = false) :
    e.me.proc.semJob = v.me.proc.semJob ∧ e.me.proc.semResult = v.me.proc.semResult := by
  unfold exec at he
  cases hpc : v.me.thread.pc <;> simp only [hpc, Option.map_eq_some_iff, Option.some.injEq] at he hp
  case popRing =>
    split at he
    · cases he
    · cases he; exact ⟨rfl, rfl⟩
  case setState st => subst he; simp
  all_goals first
    | (subst he; exact ⟨rfl, rfl⟩)
    | (obtain ⟨n, -, rfl⟩ := he; exact ⟨rfl, rfl⟩)
    | exact absurd hp (by decide)
    | cases he

theorem exec_client {v e : View} (he : exec v = some e) : e.me.client = v.me.client := by
  unfold exec at he
  cases hpc : v.me.thread.pc <;> simp only [hpc, Option.map_eq_some_iff, Option.some.injEq] at he
  case popRing => split at he <;> cases he; rfl
  case setState st => subst he; simp
  all_goals first
    | (subst he; rfl)
    | (obtain ⟨n, -, rfl⟩ := he; rfl)
    | cases he

theorem served_thread {meth : Method} {v w : View} (h : v.me.Served)
    (hs : threadStep meth v = some w) (hpc : meth.hasPc v.me.thread.pc = true) : w.me.Served := by
  obtain ⟨e, he, rfl⟩ := threadStep_some hs
  have hawaits := body_awaits (test v) hpc
  unfold Module.Served at h ⊢
  rw [View.goto_pc, hawaits, View.goto_proc]
  show e.me.proc.semJob + e.me.client.busy.toNat + e.me.proc.semResult = _
  cases ht : v.me.thread.pc.touchesProc with
  | false =>
    obtain ⟨hjob, hresult⟩ := exec_sems he ht
    rw [hjob, hresult, exec_client he, h]
    cases hp : v.me.thread.pc <;> rw [hp] at ht <;> first
      | rfl
      | cases ht
  | true =>
    unfold exec at he
    cases hp : v.me.thread.pc <;> rw [hp] at ht <;> try (cases ht; done)
    all_goals
      simp only [hp, Option.map_eq_some_iff, Option.some.injEq] at he
      simp only [hp, Pc.awaits, Bool.toNat_false, Bool.toNat_true] at h
    case postJob => subst he; simp only [View.setProc]; simp; omega
    case stopPostJob => subst he; simp only [View.setProc]; simp; omega
    all_goals
      obtain ⟨n, hn, rfl⟩ := he
      have hn' := semWait_some hn
      simp only [View.setProc, reduceCtorEq, decide_false, Bool.or_self, Bool.toNat_false]
      omega

theorem served_client {m : Module} {r : Reply} {p : ProcInfo} {cl : Client} (h : m.Served)
    (hs : clientStep r m.proc m.client = some (p, cl)) :
    ({ m with proc := p, client := cl } : Module).Served := by
  unfold Module.Served at h ⊢
  unfold clientStep at hs
  cases hp : m.client.pc <;> simp only [hp] at hs
  case waitJob =>
    split at hs
    · cases hs
      simp only [Client.busy, hp] at h ⊢
      simp at h ⊢
      omega
    · cases hs
  case dispatch =>
    cases hc : m.proc.cmd <;> simp only [hc, Option.some.injEq, Prod.mk.injEq] at hs <;>
      obtain ⟨rfl, rfl⟩ := hs <;> simpa [Client.busy, hp] using h
  case postResult =>
    simp only [Option.some.injEq, Prod.mk.injEq] at hs
    obtain ⟨rfl, rfl⟩ := hs
    simp only [Client.busy, hp] at h ⊢
    cases m.client.exitFlag <;> simp at h ⊢ <;> omega
  case left => cases hs

theorem clientStep_frame {r : Reply} {p q : ProcInfo} {c d : Client}
    (hs : clientStep r p c = some (q, d)) :
    q.cmd = p.cmd ∧ q.cmdOffs = p.cmdOffs ∧ (c.pc ≠ .dispatch → q.cmdResult = p.cmdResult) := by
  unfold clientStep at hs
  cases hp : c.pc <;> simp only [hp] at hs
  case waitJob =>
    split at hs <;> cases hs
    exact ⟨rfl, rfl, fun _ => rfl⟩
  case dispatch =>
    cases hc : p.cmd <;> simp only [hc, Option.some.injEq, Prod.mk.injEq] at hs <;>
      obtain ⟨rfl, -⟩ := hs <;> simp
  case postResult =>
    cases hs
    exact ⟨rfl, rfl, fun _ => rfl⟩
  case left => cases hs

theorem awaits_of_busy {m : Module} (h : m.Served) (hb : m.client.busy = true) :
    m.thread.pc.awaits = true ∧ m.proc.semJob = 0 ∧ m.proc.semResult = 0 := by
  unfold Module.Served at h
  cases ha : m.thread.pc.awaits <;> simp [hb, ha] at h ⊢
  omega

/-- What a thread has written for its client. -/
structure Posted (m : Module) : Prop where
  cmdJob : m.thread.pc = .popRing ∨ m.thread.pc = .setProcCmd → m.thread.cmd = .job
  procCmd : m.thread.pc = .setProcOffs ∨ m.thread.pc = .postJob ∨ m.thread.pc = .waitJobResult →
    m.proc.cmd = .job
  procOffs : m.thread.pc = .postJob ∨ m.thread.pc = .waitJobResult →
    m.proc.cmdOffs = m.thread.dataoffset
  procStop : m.thread.pc = .stopPostJob ∨ m.thread.pc = .stopWaitJobResult → m.proc.cmd = .stop

theorem posted_thread {meth : Method} {v w : View} (h : Posted v.me)
    (hs : threadStep meth v = some w) (hpc : meth.hasPc v.me.thread.pc = true)
    (hbox : meth.readsBox = false → v.me.box.cmd = .job) : Posted w.me := by
  obtain ⟨e, he, rfl⟩ := threadStep_some hs
  obtain ⟨hcmdJob, hprocCmd, hprocOffs, hprocStop⟩ := h
  unfold exec at he
  cases hp : v.me.thread.pc <;> rw [hp] at hpc <;> cases meth <;> try (cases hpc; done)
  all_goals
    simp only [hp, Option.map_eq_some_iff, Option.some.injEq] at he
    simp only [hp, reduceCtorEq, or_self, or_true, or_false, forall_const, false_implies]
      at hcmdJob hprocCmd hprocOffs hprocStop
  case testCmd.process =>
    subst he
    constructor <;> cases hc : v.me.thread.cmd <;>
      simp [Method.body, processThread, test, hp, hc, View.goto, View.setThread]
  case loadCmd.initial =>
    subst he
    constructor <;> simp [Method.body, initialThread, View.goto, View.setThread, hbox rfl]
  case loadCmd.source =>
    subst he
    constructor <;> simp [Method.body, sourceThread, View.goto, View.setThread, hbox rfl]
  case popRing.initial =>
    split at he <;> cases he
    constructor <;> simp [Method.body, initialThread, View.goto, View.setThread, hcmdJob]
  case popRing.source =>
    split at he <;> cases he
    constructor <;> simp [Method.body, sourceThread, View.goto, View.setThread, hcmdJob]
  all_goals first
    | (cases he; done)
    | subst he
    | obtain ⟨n, -, rfl⟩ := he
  all_goals
    cases hcond : test v <;> constructor <;>
      simp [Method.body, initialThread, sourceThread, processThread, finalizationThread, View.goto,
        View.setThread, View.setBox, View.setProc, *]

theorem posted_client {m : Module} {r : Reply} {p : ProcInfo} {cl : Client} (h : Posted m)
    (hs : clientStep r m.proc m.client = some (p, cl)) :
    Posted { m with proc := p, client := cl } := by
  obtain ⟨hcmd, hoffs, -⟩ := clientStep_frame hs
  refine ⟨h.cmdJob, ?_, ?_, ?_⟩ <;> simp only [hcmd, hoffs]
  · exact h.procCmd
  · exact h.procOffs
  · exact h.procStop

/-- The handshake of a module thread with its client. -/
structure Shake (m : Module) : Prop where
  served : m.Served
  posted : Posted m

theorem startedModule_shake (meth : Method) (idx : Int) : Shake (startedModule meth idx) := by
  constructor
  · cases meth <;> rfl
  · cases meth <;> constructor <;> simp [startedModule, Method.loopEntry]

namespace Chain

variable {c : Chain} {s s' : Sys}

theorem readsBox_zero : (c.method 0).readsBox = false := by
  simp only [method, if_true]
  cases c.head <;> rfl

theorem shake_step {a : Action} (hw : c.Wired s) (h : c.step s a = some s')
    (hshake : ∀ i, Shake (s.mods i)) (j : Nat) : Shake (s'.mods j) := by
  obtain ⟨hserved, hposted⟩ := hshake j
  rcases step_module h j with ⟨-, -, b, st, hj⟩ | ⟨-, w, hs, hj⟩ | ⟨r, p, cl, -, hs, hj⟩ <;> rw [hj]
  · exact ⟨hserved, hposted.cmdJob, hposted.procCmd, hposted.procOffs, hposted.procStop⟩
  · refine ⟨served_thread hserved hs (hw.hasPc j), posted_thread hposted hs (hw.hasPc j) ?_⟩
    intro hm
    rcases Nat.eq_zero_or_pos j with rfl | hpos
    · show (s.mods 0).box.cmd = .job
      rw [hw.headBox]
    · rw [method_readsBox hpos] at hm
      cases hm
  · exact ⟨served_client hserved hs, posted_client hposted hs⟩

theorem shake_of_run {ok : Action → Prop} {es : List Event} (h : c.Run ok es s) (i : Nat) :
    Shake (s.mods i) := by
  have hinv : c.Wired s ∧ ∀ i, Shake (s.mods i) := by
    refine invariant (P := fun _ s => c.Wired s ∧ ∀ i, Shake (s.mods i))
      ⟨wired_started, fun _ => startedModule_shake _ _⟩ ?_ h
    rintro es s a s' ⟨hw, hshake⟩ - hs
    exact ⟨wired_step hw hs, shake_step hw hs hshake⟩
  exact hinv.2 i

end Chain

/-! ## Clients that stay -/

/-- A client leaves only after the stop command of its thread. -/
def Module.Attended (m : Module) : Prop :=
  m.client.exitFlag = true ∨ m.client.pc = .left → m.proc.semJob = 0 ∧
    (m.thread.pc = .stopWaitJobResult ∨ m.thread.pc = .setState .init ∨ m.thread.pc = .ended)

/-- The clients answer every job and stay. -/
def Answers : Action → Prop
  | .client _ r => r.leave = false
  | _ => True

theorem attended_thread {meth : Method} {v w : View} (h : v.me.Attended)
    (hs : threadStep meth v = some w) (hm : meth.hasClient = true) : w.me.Attended := by
  obtain ⟨e, he, rfl⟩ := threadStep_some hs
  have hclient : (e.goto (meth.body (test v) v.me.thread.pc)).me.client = v.me.client := by
    show e.me.client = v.me.client
    exact exec_client he
  intro hout
  rw [hclient] at hout
  obtain ⟨hjob, hpc⟩ := h hout
  unfold exec at he
  rcases hpc with hp | hp | hp <;> simp only [hp, Option.map_eq_some_iff] at he
  · obtain ⟨n, -, rfl⟩ := he
    refine ⟨hjob, ?_⟩
    rw [View.goto_pc, hp]
    cases meth <;> first
      | (cases hm; done)
      | simp [Method.body, sourceThread, processThread]
  · cases he
    refine ⟨by simpa using hjob, ?_⟩
    rw [View.goto_pc, hp]
    cases meth <;> first
      | (cases hm; done)
      | simp [Method.body, sourceThread, processThread]
  · cases he

theorem attended_client {m : Module} {r : Reply} {p : ProcInfo} {cl : Client} (h : m.Attended)
    (hshake : Shake m) (hr : r.leave = false)
    (hs : clientStep r m.proc m.client = some (p, cl)) :
    ({ m with proc := p, client := cl } : Module).Attended := by
  unfold clientStep at hs
  cases hp : m.client.pc <;> simp only [hp] at hs
  case waitJob =>
    split at hs <;> cases hs
    rename_i hpos
    rintro (hout | hout)
    · have := (h (Or.inl hout)).1
      omega
    · cases hout
  case dispatch =>
    obtain ⟨hawait, hjob, -⟩ := awaits_of_busy hshake.served (by simp [Client.busy, hp])
    cases hc : m.proc.cmd <;> simp only [hc, Option.some.injEq, Prod.mk.injEq] at hs <;>
      obtain ⟨rfl, rfl⟩ := hs
    · intro _
      refine ⟨hjob, Or.inl ?_⟩
      cases hw : m.thread.pc <;> rw [hw] at hawait <;> first
        | (cases hawait; done)
        | rfl
        | cases hc.symm.trans (hshake.posted.procCmd (by simp [hw]))
    · rintro (hout | hout)
      · simp only [hr, Bool.or_false] at hout
        exact h (Or.inl hout)
      · cases hout
  case postResult =>
    simp only [Option.some.injEq, Prod.mk.injEq] at hs
    obtain ⟨rfl, rfl⟩ := hs
    intro hout
    refine h (Or.inl ?_)
    cases hx : m.client.exitFlag
    · simp [hx] at hout
    · rfl
  case left => cases hs

/-- A client whose thread waits for it can go on. -/
theorem client_goes_on {m : Module} (r : Reply) (h : m.Attended) (hserved : m.Served)
    (hp : m.thread.pc.awaits = true) (hres : m.proc.semResult = 0) :
    ∃ p cl, clientStep r m.proc m.client = some (p, cl) := by
  unfold Module.Served at hserved
  rw [hp, hres] at hserved
  unfold clientStep
  cases hc : m.client.pc with
  | waitJob =>
    have hpos : 0 < m.proc.semJob := by
      simp [Client.busy, hc] at hserved
      omega
    simp [hpos]
  | dispatch => cases hcmd : m.proc.cmd <;> simp
  | postResult => simp
  | left =>
    have hjob := (h (Or.inr hc)).1
    simp [Client.busy, hc, hjob] at hserved

namespace Chain

variable {c : Chain} {s s' : Sys}

theorem attended_step {a : Action} (hshake : ∀ i, Shake (s.mods i))
    (h : c.step s a = some s') (hok : Answers a) {j : Nat}
    (hj : (c.method j).hasClient = true) (hatt : (s.mods j).Attended) :
    (s'.mods j).Attended := by
  rcases step_module h j with ⟨-, -, b, st, heq⟩ | ⟨-, w, hs, heq⟩ | ⟨r, p, cl, rfl, hs, heq⟩ <;>
    rw [heq]
  · exact hatt
  · exact attended_thread hatt hs hj
  · exact attended_client hatt (hshake j) hok hs

theorem attended_of_run {es : List Event} (h : c.Run Answers es s) {i : Nat}
    (hi : (c.method i).hasClient = true) : (s.mods i).Attended := by
  have hinv : (c.Wired s ∧ ∀ i, Shake (s.mods i)) ∧ (s.mods i).Attended := by
    refine invariant (P := fun _ s => (c.Wired s ∧ ∀ i, Shake (s.mods i)) ∧ (s.mods i).Attended)
      ⟨⟨wired_started, fun _ => startedModule_shake _ _⟩, ?_⟩ ?_ h
    · rintro (hout | hout) <;> simp [started, startedModule, hi] at hout
    · rintro es s a s' ⟨⟨hw, hshake⟩, hatt⟩ hok hs
      exact ⟨⟨wired_step hw hs, shake_step hw hs hshake⟩, attended_step hshake hs hok hi hatt⟩
  exact hinv.2

end Chain

end DclProcessor.Pipeline
