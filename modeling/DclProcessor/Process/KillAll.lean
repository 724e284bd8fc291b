import DclProcessor.Library.Transition
import DclProcessor.Pipeline.Client

/-!
`process_kill_all`: every client is told to stop, and then the answers are awaited. Both
loops go over the slots, and both take their semaphore from the first one.
-/

namespace DclProcessor.Process

open Transition Pipeline

/-- `setCmd i`, `wait i`: the test of the first and of the second loop and, with `i` below
`process_cnt`, what follows it; `post i`: `sem_post(&process_info->sem_job)`. -/
inductive KillPc
  | setCmd (i : Nat)
  | post (i : Nat)
  | wait (i : Nat)
  | returned
  deriving DecidableEq

structure KillState where
  pc : KillPc
  procs : Nat → ProcInfo
  clients : Nat → Client

inductive KillAction
  | kill
  | client (i : Nat) (r : Reply)

/-- `posted i`, `waited i`: `sem_job` and `sem_result` of slot `i`; `tookStop i`: the client
has read `PROCESS_CMD_STOP`. -/
inductive KillEvent
  | posted (i : Nat)
  | waited (i : Nat)
  | tookStop (i : Nat)
  deriving DecidableEq

namespace KillState

def setProc (s : KillState) (i : Nat) (p : ProcInfo) : KillState :=
  { s with procs := fun j => if j = i then p else s.procs j }

def setClient (s : KillState) (i : Nat) (c : Client) : KillState :=
  { s with clients := fun j => if j = i then c else s.clients j }

/-- `process_kill_all` with `k` as `process_cnt`. -/
def kill (k : Nat) (s : KillState) : Option KillState :=
  match s.pc with
  | .setCmd i =>
    if i < k then some { s.setProc i { s.procs i with cmd := .stop } with pc := .post i }
    else some { s with pc := .wait 0 }
  | .post i =>
    let p := s.procs 0
    some { s.setProc 0 { p with semJob := p.semJob + 1 } with pc := .setCmd (i + 1) }
  | .wait i =>
    let p := s.procs 0
    if i < k then
      if 0 < p.semResult then
        some { s.setProc 0 { p with semResult := p.semResult - 1 } with pc := .wait (i + 1) }
      else none
    else some { s with pc := .returned }
  | .returned => none

def client (k : Nat) (s : KillState) (i : Nat) (r : Reply) : Option KillState :=
  if i < k then
    (clientStep r (s.procs i) (s.clients i)).map fun next =>
      (s.setProc i next.1).setClient i next.2
  else none

def killEvents (k : Nat) (s : KillState) : List KillEvent :=
  match s.pc with
  | .post _ => [.posted 0]
  | .wait i => if i < k then [.waited 0] else []
  | _ => []

def clientEvents (s : KillState) (i : Nat) : List KillEvent :=
  if (s.clients i).pc = .dispatch ∧ (s.procs i).cmd = .stop then [.tookStop i] else []

/-- The call, with any process table and wherever the clients are. -/
def start (infos : Nat → ProcInfo) (clients : Nat → Client) : KillState :=
  ⟨.setCmd 0, infos, clients⟩

end KillState

/-- `k` processes are started. -/
def killAll (k : Nat) : System KillState KillAction KillEvent where
  step s
    | .kill => s.kill k
    | .client i r => s.client k i r
  emit s
    | .kill => s.killEvents k
    | .client i _ => s.clientEvents i

/-- Behind the first loop. -/
def KillPc.sent : KillPc → Prop
  | .setCmd _ => False
  | .post _ => False
  | .wait _ => True
  | .returned => True

/-- What `process_kill_all` has done for slot `i` by the end of its first loop, and by its
return: the client has read the stop after it was posted, and its answer is awaited. -/
structure Stopped (i : Nat) (es : List KillEvent) (s : KillState) : Prop where
  sent : s.pc.sent → (s.procs i).cmd = .stop ∧ es.count (.posted i) = 1
  collected : s.pc = .returned →
    es.count (.waited i) = 1 ∧ [.posted i, .tookStop i].Sublist es ∧ (s.clients i).pc = .left

/-- No job is posted, no answer is left, and the client waits for a job. -/
structure Idle (p : ProcInfo) (c : Client) : Prop where
  semJob : p.semJob = 0
  semResult : p.semResult = 0
  waits : c.pc = .waitJob

variable {k : Nat} {infos : Nat → ProcInfo} {clients : Nat → Client} {es : List KillEvent}
  {s : KillState}

/-! ## Several processes -/

/-- The first loop alone, which posts the first slot only. -/
theorem sends (infos : Nat → ProcInfo) (clients : Nat → Client) (i : Nat) (hi : i ≤ k) :
    ∃ es s, Trace (killAll k) (fun _ => True) (.start infos clients) es s ∧
      s.pc = .setCmd i ∧ .posted 1 ∉ es := by
  induction i with
  | zero => exact ⟨[], _, .start, rfl, List.not_mem_nil⟩
  | succ i ih =>
    obtain ⟨es, s, htrace, hpc, hnot⟩ := ih (by omega)
    have hset : (killAll k).step s .kill =
        some { s.setProc i { s.procs i with cmd := .stop } with pc := .post i } := by
      simp [killAll, KillState.kill, hpc, Nat.lt_of_succ_le hi]
    have hnext := (htrace.next trivial hset).next (a := .kill) trivial rfl
    refine ⟨_, _, hnext, rfl, ?_⟩
    simp [killAll, KillState.killEvents, hpc, hnot]

/-- How far the client is with its `PROCESS_CMD_STOP`, counted down to its answer. -/
inductive Told : Nat → ProcInfo → Client → Prop
  | told (offs : Nat) (res : Int) (e : Bool) : Told 3 ⟨1, 0, .stop, offs, res⟩ ⟨.waitJob, e⟩
  | took (offs : Nat) (res : Int) (e : Bool) : Told 2 ⟨0, 0, .stop, offs, res⟩ ⟨.dispatch, e⟩
  | answers (offs : Nat) (res : Int) : Told 1 ⟨0, 0, .stop, offs, res⟩ ⟨.postResult, true⟩
  | answered (offs : Nat) (res : Int) : Told 0 ⟨0, 1, .stop, offs, res⟩ ⟨.left, true⟩

/-- Nothing is posted yet. -/
structure Quiet (es : List KillEvent) (s : KillState) : Prop where
  idle : Idle (s.procs 0) (s.clients 0)
  events : es = []

/-- The stop is posted and not answered, or the answer is not awaited yet. -/
structure Pending (n : Nat) (es : List KillEvent) (s : KillState) : Prop where
  told : Told n (s.procs 0) (s.clients 0)
  posted : es.count (.posted 0) = 1
  waited : es.count (.waited 0) = 0
  took : n < 2 → [.posted 0, .tookStop 0].Sublist es

structure Collected (es : List KillEvent) (s : KillState) : Prop where
  cmd : (s.procs 0).cmd = .stop
  left : (s.clients 0).pc = .left
  posted : es.count (.posted 0) = 1
  waited : es.count (.waited 0) = 1
  took : [.posted 0, .tookStop 0].Sublist es

/-- Where `process_kill_all` and its only client are, by the number of steps to the return. -/
inductive OneStopped (es : List KillEvent) (s : KillState) : Nat → Prop
  | setsCmd (hpc : s.pc = .setCmd 0) (h : Quiet es s) : OneStopped es s 8
  | posts (hpc : s.pc = .post 0) (hcmd : (s.procs 0).cmd = .stop) (h : Quiet es s) :
      OneStopped es s 7
  | tests {n : Nat} (hpc : s.pc = .setCmd 1) (h : Pending n es s) : OneStopped es s (n + 3)
  | waits {n : Nat} (hpc : s.pc = .wait 0) (h : Pending n es s) : OneStopped es s (n + 2)
  | leaves (hpc : s.pc = .wait 1) (h : Collected es s) : OneStopped es s 1
  | returned (hpc : s.pc = .returned) (h : Collected es s) : OneStopped es s 0

variable {n i : Nat} {p p' : ProcInfo} {c c' : Client} {r : Reply} {s' : KillState}

/-- A step of the client brings it nearer to its answer. -/
theorem Told.step (h : Told n p c) (hs : clientStep r p c = some (p', c')) :
    ∃ m, n = m + 1 ∧ Told m p' c' := by
  cases h with
  | told offs res e =>
    obtain ⟨rfl, rfl⟩ := Prod.mk.inj (Option.some.inj hs)
    exact ⟨2, rfl, .took offs res e⟩
  | took offs res e =>
    obtain ⟨rfl, rfl⟩ := Prod.mk.inj (Option.some.inj hs)
    exact ⟨1, rfl, .answers offs 0⟩
  | answers offs res =>
    obtain ⟨rfl, rfl⟩ := Prod.mk.inj (Option.some.inj hs)
    exact ⟨0, rfl, .answered offs res⟩
  | answered offs res => cases hs

/-- A client that has not answered can go on. -/
theorem Told.goes (h : Told (n + 1) p c) (r : Reply) :
    ∃ next, clientStep r p c = some next := by
  cases h <;> exact ⟨_, rfl⟩

theorem Told.reads (h : Told 2 p c) : c.pc = .dispatch ∧ p.cmd = .stop := by
  cases h
  exact ⟨rfl, rfl⟩

theorem Told.cmd (h : Told n p c) : p.cmd = .stop := by
  cases h <;> rfl

/-- An answer is there exactly when the client has left. -/
theorem Told.semResult (h : Told n p c) :
    n = 0 ∧ p.semResult = 1 ∧ c.pc = .left ∨ 0 < n ∧ p.semResult = 0 := by
  cases h with
  | answered offs res => exact Or.inl ⟨rfl, rfl, rfl⟩
  | _ => exact Or.inr ⟨by decide, rfl⟩

/-- The one client that there is. -/
theorem client_cases (hs : s.client 1 i r = some s') :
    i = 0 ∧ ∃ p' c', clientStep r (s.procs 0) (s.clients 0) = some (p', c') ∧
      s' = (s.setProc 0 p').setClient 0 c' := by
  simp only [KillState.client] at hs
  split at hs
  case isFalse => cases hs
  case isTrue hi =>
    obtain rfl : i = 0 := by omega
    obtain ⟨⟨p', c'⟩, hstep, rfl⟩ := Option.map_eq_some_iff.mp hs
    exact ⟨rfl, p', c', hstep, rfl⟩

theorem Quiet.not_client (h : Quiet es s) : s.client 1 i r = none := by
  cases hs : s.client 1 i r with
  | none => rfl
  | some s' =>
    obtain ⟨-, p', c', hstep, -⟩ := client_cases hs
    rw [clientStep, h.idle.waits] at hstep
    simp [h.idle.semJob] at hstep

/-- The client after the post. -/
theorem Quiet.told (h : Quiet es s) (hcmd : (s.procs 0).cmd = .stop) :
    Told 3 { s.procs 0 with semJob := (s.procs 0).semJob + 1 } (s.clients 0) := by
  obtain ⟨⟨hjob, hresult, hwaits⟩, -⟩ := h
  generalize s.procs 0 = p at hcmd hjob hresult ⊢
  generalize s.clients 0 = c at hwaits ⊢
  obtain ⟨job, result, cmd, offs, res⟩ := p
  obtain ⟨pc, e⟩ := c
  obtain rfl : job = 0 := hjob
  obtain rfl : result = 0 := hresult
  obtain rfl : cmd = .stop := hcmd
  obtain rfl : pc = .waitJob := hwaits
  exact .told offs res e

theorem Collected.not_client (h : Collected es s) : s.client 1 i r = none := by
  cases hs : s.client 1 i r with
  | none => rfl
  | some s' =>
    obtain ⟨-, p', c', hstep, -⟩ := client_cases hs
    rw [clientStep, h.left] at hstep
    cases hstep

theorem Pending.client (h : Pending n es s) (hs : s.client 1 i r = some s') :
    ∃ m, n = m + 1 ∧ s'.pc = s.pc ∧ Pending m (es ++ s.clientEvents i) s' := by
  obtain ⟨rfl, p', c', hstep, rfl⟩ := client_cases hs
  obtain ⟨m, rfl, hm⟩ := h.told.step hstep
  refine ⟨m, rfl, rfl, hm, ?_, ?_, fun hlt => ?_⟩
  · rw [List.count_append, h.posted, KillState.clientEvents]
    split <;> rfl
  · rw [List.count_append, h.waited, KillState.clientEvents]
    split <;> rfl
  · by_cases hearlier : m + 1 < 2
    · exact (h.took hearlier).trans (List.sublist_append_left ..)
    · obtain rfl : m = 1 := by omega
      have hposted : .posted 0 ∈ es := List.count_pos_iff.mp (by rw [h.posted]; exact Nat.one_pos)
      rw [KillState.clientEvents, if_pos h.told.reads]
      exact (List.singleton_sublist.mpr hposted).append (List.Sublist.refl [KillEvent.tookStop 0])

theorem OneStopped.client (h : OneStopped es s n) (hs : s.client 1 i r = some s') :
    ∃ m, n = m + 1 ∧ OneStopped (es ++ s.clientEvents i) s' m := by
  cases h with
  | setsCmd hpc h => exact absurd (h.not_client.symm.trans hs) (by simp)
  | posts hpc hcmd h => exact absurd (h.not_client.symm.trans hs) (by simp)
  | tests hpc h =>
    obtain ⟨m, rfl, hpc', hm⟩ := h.client hs
    exact ⟨m + 3, by omega, .tests (hpc'.trans hpc) hm⟩
  | waits hpc h =>
    obtain ⟨m, rfl, hpc', hm⟩ := h.client hs
    exact ⟨m + 2, by omega, .waits (hpc'.trans hpc) hm⟩
  | leaves hpc h => exact absurd (h.not_client.symm.trans hs) (by simp)
  | returned hpc h => exact absurd (h.not_client.symm.trans hs) (by simp)

/-- The answer that is awaited is the one to the stop. -/
theorem Pending.wait (hpc : s.pc = .wait 0) (h : Pending n es s) (hs : s.kill 1 = some s') :
    n = 0 ∧ s'.pc = .wait 1 ∧ Collected (es ++ s.killEvents 1) s' := by
  have hevents : s.killEvents 1 = [.waited 0] := by simp [KillState.killEvents, hpc]
  simp only [KillState.kill, hpc, Nat.one_pos, if_true] at hs
  rcases h.told.semResult with ⟨rfl, hres, hleft⟩ | ⟨-, hres⟩
  · rw [hres, if_pos Nat.one_pos] at hs
    obtain rfl := Option.some.inj hs
    rw [hevents]
    refine ⟨rfl, rfl, h.told.cmd, hleft, ?_, ?_,
      (h.took (by decide)).trans (List.sublist_append_left ..)⟩
    · rw [List.count_append, h.posted]
      rfl
    · rw [List.count_append, h.waited]
      rfl
  · rw [hres, if_neg (Nat.lt_irrefl 0)] at hs
    cases hs

theorem OneStopped.kill (h : OneStopped es s n) (hs : s.kill 1 = some s') :
    ∃ m, n = m + 1 ∧ OneStopped (es ++ s.killEvents 1) s' m := by
  cases h with
  | setsCmd hpc h =>
    have hevents : s.killEvents 1 = [] := by simp [KillState.killEvents, hpc]
    simp only [KillState.kill, hpc, Nat.one_pos, if_true] at hs
    obtain rfl := Option.some.inj hs
    rw [hevents, List.append_nil]
    exact ⟨7, rfl, .posts rfl rfl ⟨⟨h.idle.semJob, h.idle.semResult, h.idle.waits⟩, h.events⟩⟩
  | posts hpc hcmd h =>
    simp only [KillState.kill, hpc] at hs
    obtain rfl := Option.some.inj hs
    refine ⟨6, rfl, .tests rfl ⟨h.told hcmd, ?_, ?_, fun hlt => absurd hlt (by decide)⟩⟩
    · simp [h.events, KillState.killEvents, hpc]
    · simp [h.events, KillState.killEvents, hpc]
  | @tests m hpc h =>
    have hevents : s.killEvents 1 = [] := by simp [KillState.killEvents, hpc]
    simp only [KillState.kill, hpc, Nat.lt_irrefl, if_false] at hs
    obtain rfl := Option.some.inj hs
    rw [hevents, List.append_nil]
    exact ⟨m + 2, rfl, .waits rfl ⟨h.told, h.posted, h.waited, h.took⟩⟩
  | waits hpc h =>
    obtain ⟨rfl, hpc', hc⟩ := h.wait hpc hs
    exact ⟨1, rfl, .leaves hpc' hc⟩
  | leaves hpc h =>
    have hevents : s.killEvents 1 = [] := by simp [KillState.killEvents, hpc]
    simp only [KillState.kill, hpc, Nat.lt_irrefl, if_false] at hs
    obtain rfl := Option.some.inj hs
    rw [hevents, List.append_nil]
    exact ⟨0, rfl, .returned rfl ⟨h.cmd, h.left, h.posted, h.waited, h.took⟩⟩
  | returned hpc h =>
    simp only [KillState.kill, hpc] at hs
    cases hs

/-- Every step brings the return one nearer. -/
theorem OneStopped.step {a : KillAction} (h : OneStopped es s n)
    (hs : (killAll 1).step s a = some s') :
    ∃ m, n = m + 1 ∧ OneStopped (es ++ (killAll 1).emit s a) s' m := by
  cases a with
  | kill => exact h.kill hs
  | client i r => exact h.client hs

/-- Before the return, `process_kill_all` or the client it waits for can go on. -/
theorem OneStopped.goes (h : OneStopped es s (n + 1)) :
    ∃ a s', (killAll 1).step s a = some s' := by
  have hkill (hs : (s.kill 1).isSome) : ∃ a s', (killAll 1).step s a = some s' :=
    ⟨.kill, Option.isSome_iff_exists.mp hs⟩
  cases h with
  | setsCmd hpc h => exact hkill (by simp [KillState.kill, hpc])
  | posts hpc hcmd h => exact hkill (by simp [KillState.kill, hpc])
  | tests hpc h => exact hkill (by simp [KillState.kill, hpc])
  | @waits m hpc h =>
    cases m with
    | zero =>
      rcases h.told.semResult with ⟨-, hres, -⟩ | ⟨hpos, -⟩
      · exact hkill (by simp [KillState.kill, hpc, hres])
      · cases hpos
    | succ m =>
      obtain ⟨next, hnext⟩ := h.told.goes ⟨0, false⟩
      exact ⟨.client 0 ⟨0, false⟩, _, by simp [killAll, KillState.client, hnext]; rfl⟩
  | leaves hpc h => exact hkill (by simp [KillState.kill, hpc])

theorem OneStopped.returns (h : OneStopped es s n) :
    ∃ t, Reaches (killAll 1) (fun _ => True) s t ∧ t.pc = .returned := by
  induction n generalizing es s with
  | zero =>
    cases h with
    | returned hpc _ => exact ⟨s, .refl s, hpc⟩
  | succ n ih =>
    obtain ⟨a, s', hs⟩ := h.goes
    obtain ⟨m, hm, h'⟩ := h.step hs
    obtain rfl : n = m := by omega
    obtain ⟨t, hreach, hpc⟩ := ih h'
    exact ⟨t, .head a trivial hs hreach, hpc⟩

theorem OneStopped.stopped (h : OneStopped es s n) : Stopped 0 es s := by
  cases h with
  | setsCmd hpc h =>
    have hbefore : ¬ s.pc.sent := by rw [hpc]; exact id
    exact ⟨fun hsent => absurd hsent hbefore, fun hret => nomatch hpc.symm.trans hret⟩
  | posts hpc hcmd h =>
    have hbefore : ¬ s.pc.sent := by rw [hpc]; exact id
    exact ⟨fun hsent => absurd hsent hbefore, fun hret => nomatch hpc.symm.trans hret⟩
  | tests hpc h =>
    have hbefore : ¬ s.pc.sent := by rw [hpc]; exact id
    exact ⟨fun hsent => absurd hsent hbefore, fun hret => nomatch hpc.symm.trans hret⟩
  | waits hpc h => exact ⟨fun _ => ⟨h.told.cmd, h.posted⟩, fun hret => nomatch hpc.symm.trans hret⟩
  | leaves hpc h => exact ⟨fun _ => ⟨h.cmd, h.posted⟩, fun hret => nomatch hpc.symm.trans hret⟩
  | returned hpc h => exact ⟨fun _ => ⟨h.cmd, h.posted⟩, fun _ => ⟨h.waited, h.took, h.left⟩⟩

/-- Nobody answers where the client has left. -/
structure Unanswered (s : KillState) : Prop where
  left : (s.clients 0).pc = .left
  semResult : (s.procs 0).semResult = 0
  notPast (i : Nat) : s.pc = .wait i → i = 0
  notReturned : s.pc ≠ .returned

theorem Unanswered.step {a : KillAction} (h : Unanswered s)
    (hs : (killAll 1).step s a = some s') : Unanswered s' := by
  obtain ⟨hleft, hresult, hpast, hret⟩ := h
  cases a with
  | client i r =>
    obtain ⟨-, p', c', hstep, -⟩ := client_cases hs
    rw [clientStep, hleft] at hstep
    cases hstep
  | kill =>
    simp only [killAll, KillState.kill] at hs
    cases hpc : s.pc with
    | setCmd i =>
      simp only [hpc] at hs
      split at hs
      · obtain rfl := Option.some.inj hs
        refine ⟨hleft, ?_, fun j hj => (nomatch hj), fun hr => nomatch hr⟩
        simp only [KillState.setProc]
        split
        · subst i
          exact hresult
        · exact hresult
      · obtain rfl := Option.some.inj hs
        exact ⟨hleft, hresult, fun j hj => (KillPc.wait.inj hj).symm, fun hr => nomatch hr⟩
    | post i =>
      simp only [hpc] at hs
      obtain rfl := Option.some.inj hs
      exact ⟨hleft, hresult, fun j hj => (nomatch hj), fun hr => nomatch hr⟩
    | wait i =>
      obtain rfl := hpast i hpc
      simp [hpc, hresult] at hs
    | returned => exact absurd hpc hret

end DclProcessor.Process
