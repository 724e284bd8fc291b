import DclProcessor.Pipeline.Progress

/-!
The end of a pipeline. `pipeline_thread` joins the module threads in the order of the
list and destroys their modules; `pipeline_destroy` joins `pipeline_thread` first, and
raises the exit flag after that.
-/

namespace DclProcessor.Pipeline.Shutdown

open Transition

/-- A chain as `pl->modules_list` holds it: its modules in any order, all started. -/
structure Listed where
  chain : Chain
  order : List Nat
  perm : order.Perm (List.range chain.cnt)
  started : ∀ i < chain.cnt, 0 ≤ chain.idx i

/-- `pipeline_thread` after the startup loop; `rest` is the rest of the list. -/
inductive SupPc
  | join (rest : List Nat)
  | destroy (i : Nat) (rest : List Nat)
  | returned
  deriving DecidableEq, Repr

/-- The owner: between its calls, then at the statements of `pipeline_destroy`. -/
inductive OwnerPc
  | calls | joinThread | setStates | setPl | raiseExit | returned
  deriving DecidableEq, Repr

structure State where
  sys : Sys
  sup : SupPc
  owner : OwnerPc

/-- `module a`: a step of a module thread or a client, or another call of the owner;
`destroy`: the owner calls `pipeline_destroy`. -/
inductive Action
  | module (a : Pipeline.Action)
  | sup
  | destroy
  | owner

namespace Listed

/-- The state after the startup loop. -/
def initial (p : Listed) : State := ⟨p.chain.started, .join p.order, .calls⟩

def supStep (s : State) : Option State :=
  match s.sup with
  | .join [] => some { s with sup := .returned }
  | .join (i :: rest) =>
      if (s.sys.mods i).idx = -1 ∨ (s.sys.mods i).thread.pc = .ended then
        some { s with sup := .destroy i rest }
      else none
  | .destroy i rest =>
      some { s with sys := s.sys.setMod i (s.sys.mods i).destroy, sup := .join rest }
  | .returned => none

/-- `pipeline_destroy` after it has been entered. -/
def ownerStep (s : State) : Option State :=
  match s.owner with
  | .joinThread => if s.sup = .returned then some { s with owner := .setStates } else none
  | .setStates => some { s with sys := s.sys.setStates .unknown, owner := .setPl }
  | .setPl => some { s with sys := { s.sys with plState := .unknown }, owner := .raiseExit }
  | .raiseExit => some { s with sys := { s.sys with exitFlag := true }, owner := .returned }
  | .calls | .returned => none

/-- With all modules started nobody but `pipeline_destroy` raises the exit flag. -/
def step (p : Listed) (s : State) : Action → Option State
  | .module .raiseExit => none
  | .module (.owner call) =>
      if s.owner = .calls then (s.sys.call call).map fun sys => { s with sys := sys } else none
  | .module a => (p.chain.step s.sys a).map fun sys => { s with sys := sys }
  | .sup => supStep s
  | .destroy => if s.owner = .calls then some { s with owner := .joinThread } else none
  | .owner => ownerStep s

def system (p : Listed) : System State Action Event where
  step := p.step
  emit _ _ := []

/-- The clients answer every job and stay. -/
def Answers : Action → Prop
  | .module a => Pipeline.Answers a
  | _ => True

/-- All module threads, `pipeline_thread` and `pipeline_destroy` have finished. -/
def Finished (p : Listed) (s : State) : Prop :=
  (∀ i < p.chain.cnt, (s.sys.mods i).thread.pc = .ended) ∧ s.sup = .returned ∧ s.owner = .returned

/-- From every state after a call of `pipeline_stop` and one of `pipeline_destroy`,
everything can still finish. -/
def ShutdownPossible (p : Listed) : Prop :=
  ∀ s s₁ s₂ s₃ t, Reaches p.system Answers p.initial s →
    p.step s (.module (.owner .stop)) = some s₁ → Reaches p.system Answers s₁ s₂ →
    p.step s₂ .destroy = some s₃ → Reaches p.system Answers s₃ t →
    ∃ u, Reaches p.system Answers t u ∧ p.Finished u

variable {p : Listed} {s s' : State}

theorem step_module {a : Pipeline.Action} (h : p.step s (.module a) = some s') :
    p.chain.step s.sys a = some s'.sys ∧ s'.sup = s.sup ∧ s'.owner = s.owner ∧
      a ≠ .raiseExit ∧ ∀ call, a = .owner call → s.owner = .calls := by
  cases a with
  | raiseExit => cases h
  | owner call =>
    simp only [step] at h
    split at h
    · next hcalls =>
      obtain ⟨sys, hsys, rfl⟩ := Option.map_eq_some_iff.mp h
      exact ⟨hsys, rfl, rfl, by simp, fun _ _ => hcalls⟩
    · cases h
  | thread i =>
    obtain ⟨sys, hsys, rfl⟩ := Option.map_eq_some_iff.mp h
    exact ⟨hsys, rfl, rfl, by simp, by simp⟩
  | client i r =>
    obtain ⟨sys, hsys, rfl⟩ := Option.map_eq_some_iff.mp h
    exact ⟨hsys, rfl, rfl, by simp, by simp⟩

theorem module_step {a : Pipeline.Action} {sys : Sys} (h : p.chain.step s.sys a = some sys)
    (ha : (∃ i, a = .thread i) ∨ ∃ i r, a = .client i r) :
    p.step s (.module a) = some { s with sys := sys } := by
  rcases ha with ⟨i, rfl⟩ | ⟨i, r, rfl⟩ <;> simp [step, h]

/-! ## A chain that can leave -/

/-- The modules that `pipeline_thread` has not joined yet. -/
def SupPc.rest : SupPc → List Nat
  | .join rest | .destroy _ rest => rest
  | .returned => []

/-- An initial thread whose next module has an index of at most one, over a ring with a
chunk. -/
structure CanLeave (p : Listed) : Prop where
  head : p.chain.head = .initial
  next : p.chain.idx 1 ≤ 1
  data : 1 ≤ p.chain.dataCnt

/-- The statements at which `initial_thread` stops a client that it does not have. -/
def handshake : Pc → Bool
  | .stopSetProcCmd | .stopPostJob | .stopWaitJobResult => true
  | _ => false

/-- What holds in all runs of a chain that can leave. -/
structure Sound (p : Listed) (s : State) : Prop where
  steady : p.chain.Steady s.sys
  next : (s.sys.mods 1).idx ≤ 1
  short : handshake (s.sys.mods 0).thread.pc = false
  noError : (s.sys.mods 0).state ≠ .error
  joined : ∀ i < p.chain.cnt, i ∈ SupPc.rest s.sup ∨ (s.sys.mods i).thread.pc = .ended
  alive : ∀ i ∈ SupPc.rest s.sup, i < p.chain.cnt ∧ (s.sys.mods i).idx ≠ -1
  distinct : (SupPc.rest s.sup).Nodup
  dying : ∀ i rest, s.sup = .destroy i rest → (s.sys.mods i).thread.pc = .ended ∧ i ∉ rest
  owner : s.owner = .calls ∨ s.owner = .joinThread ∨ s.sup = .returned

/-- The head has been told to stop, and nobody takes it back. -/
structure Told (s : State) : Prop where
  calls : s.owner = .calls → s.sys.plState = .stop
  head : (s.sys.mods 0).state = .stop ∨ (s.sys.mods 0).thread.pc = .ended

theorem sound_initial (hc : CanLeave p) : Sound p p.initial where
  steady := Chain.steady_of_run .start
  next := hc.next
  short := by
    simp only [initial, Chain.started, startedModule, Chain.method, if_true, hc.head]
    rfl
  noError := by simp [initial, Chain.started, startedModule]
  joined i hi := Or.inl (p.perm.mem_iff.mpr (List.mem_range.mpr hi))
  alive i hi := by
    have hlt := List.mem_range.mp (p.perm.mem_iff.mp hi)
    have hpos := p.started i hlt
    simp only [initial, Chain.started, startedModule]
    exact ⟨hlt, by omega⟩
  distinct := p.perm.nodup_iff.mpr List.nodup_range
  dying _ _ h := by cases h
  owner := Or.inl rfl

theorem Sound.frame (h : Sound p s) (hsys : s.sys.SameWork s'.sys) (hsup : s'.sup = s.sup)
    (hidx : ∀ j, (s'.sys.mods j).idx = (s.sys.mods j).idx)
    (herr : (s'.sys.mods 0).state ≠ .error)
    (howner : s'.owner = .calls ∨ s'.owner = .joinThread ∨ s'.sup = .returned) : Sound p s' where
  steady := Chain.steady_sameWork h.steady hsys
  next := by rw [hidx]; exact h.next
  short := by rw [hsys.thread]; exact h.short
  noError := herr
  joined i hi := by rw [hsup, hsys.thread]; exact h.joined i hi
  alive i hi := by rw [hidx]; rw [hsup] at hi; exact h.alive i hi
  distinct := by rw [hsup]; exact h.distinct
  dying i rest hp := by rw [hsys.thread]; rw [hsup] at hp; exact h.dying i rest hp
  owner := howner

/-- Once the thread is joined, it has returned. -/
theorem Sound.sup_returned (h : Sound p s) (hcalls : s.owner ≠ .calls)
    (hjoin : s.owner ≠ .joinThread) : s.sup = .returned :=
  (h.owner.resolve_left hcalls).resolve_left hjoin

theorem Sound.calls_or_joins (h : Sound p s) (hsup : s.sup ≠ .returned) :
    s.owner = .calls ∨ s.owner = .joinThread :=
  h.owner.imp_right fun ho => ho.resolve_right hsup

/-! ### Steps of the modules -/

/-- With the index of the next module at most one, `initial_thread` goes round the
handshake. -/
theorem short_step {a : Pipeline.Action} {sys : Sys} (hc : CanLeave p) (h : Sound p s)
    (hs : p.chain.step s.sys a = some sys) : handshake (sys.mods 0).thread.pc = false := by
  have hshort := h.short
  rcases Chain.step_module hs 0 with ⟨-, -, b, st, hj⟩ | ⟨-, w, hw, hj⟩ | ⟨r, q, cl, -, -, hj⟩ <;>
    rw [hj]
  · exact hshort
  · have hm : p.chain.method 0 = .initial := by simp [Chain.method, hc.head, Head.method]
    have hpc := h.steady.wired.hasPc 0
    obtain ⟨e, -, rfl⟩ := threadStep_some hw
    have hview : (s.sys.view 0).me = s.sys.mods 0 := rfl
    rw [hm] at hpc
    rw [View.goto_pc, hm, hview]
    have htest : (s.sys.mods 0).thread.pc = .stopTestIdx → test (s.sys.view 0) = false := by
      intro hp
      have hnext : (s.sys.view 0).nextIdx ≤ 1 := h.next
      simp [test, hview, hp, Int.not_lt.mpr hnext]
    cases hp : (s.sys.mods 0).thread.pc <;> rw [hp] at hpc hshort htest <;> first
      | (cases hpc; done)
      | (cases hshort; done)
      | (simp [Method.body, initialThread, handshake]; done)
      | (cases test (s.sys.view 0) <;> simp [Method.body, initialThread, handshake]; done)
      | simp [Method.body, initialThread, handshake, htest rfl]
  · exact hshort

/-- The head's state as a step of its own thread leaves it. -/
theorem head_state {w : View} {sys : Sys} (hw : p.chain.Wired sys)
    (hs : threadStep (p.chain.method 0) (sys.view 0) = some w) :
    w.me.state = (sys.mods 0).state ∨ w.me.state = .stop ∨ w.me.state = .init := by
  obtain ⟨e, he, rfl⟩ := threadStep_some hs
  exact exec_state he (hw.hasPc 0)

theorem noError_step {a : Pipeline.Action} {sys : Sys} (h : Sound p s)
    (hs : p.chain.step s.sys a = some sys) : (sys.mods 0).state ≠ .error := by
  have herr := h.noError
  cases a with
  | thread i =>
    obtain ⟨-, w, hw, rfl⟩ := Chain.step_thread hs
    rcases Nat.eq_zero_or_pos i with rfl | hi
    · rw [Sys.putView_me]
      rcases head_state h.steady.wired hw with hst | hst | hst <;> rw [hst]
      · exact herr
      · simp
      · simp
    · rw [s.sys.putView_of_ne i w (j := 0) (by omega) (by omega)]
      exact herr
  | client i r =>
    obtain ⟨-, q, cl, -, rfl⟩ := Chain.step_client hs
    rcases Nat.eq_zero_or_pos i with rfl | hi
    · simpa [Sys.setMod] using herr
    · simpa [Sys.setMod, Nat.ne_of_lt hi] using herr
  | owner call =>
    have hset : ∀ st : MdState, st ≠ .error → ((s.sys.mods 0).setState st).state ≠ .error := by
      intro st hst
      simp [Module.setState, herr, hst]
    cases call <;> simp only [Chain.step, Sys.call] at hs
    case start =>
      split at hs <;> cases hs
      exact hset _ (by simp)
    case stop => cases hs; exact hset _ (by simp)
    all_goals
      cases hs
      split
      · exact hset _ (by simp)
      · exact herr
  | raiseExit => cases hs; exact herr

theorem sound_module {a : Pipeline.Action} (hc : CanLeave p) (h : Sound p s)
    (hok : Pipeline.Answers a) (hs : p.step s (.module a) = some s') : Sound p s' := by
  obtain ⟨hstep, hsup, howner, -, -⟩ := step_module hs
  have hidx := Chain.idx_of_step hstep
  refine ⟨Chain.steady_step h.steady hok hstep, ?_, short_step hc h hstep, noError_step h hstep,
    ?_, ?_, ?_, ?_, ?_⟩
  · rw [hidx]; exact h.next
  · intro i hi
    rw [hsup]
    exact (h.joined i hi).imp_right (Chain.ended_of_step hstep)
  · intro i hi
    rw [hidx]
    rw [hsup] at hi
    exact h.alive i hi
  · rw [hsup]; exact h.distinct
  · intro i rest hp
    rw [hsup] at hp
    exact ⟨Chain.ended_of_step hstep (h.dying i rest hp).1, (h.dying i rest hp).2⟩
  · rw [howner, hsup]; exact h.owner

/-! ### Steps of `pipeline_thread` and `pipeline_destroy` -/

theorem destroy_sameWork (sys : Sys) (i : Nat) :
    sys.SameWork (sys.setMod i (sys.mods i).destroy) := by
  have hmod : ∀ j, (sys.setMod i (sys.mods i).destroy).mods j =
      if j = i then (sys.mods j).destroy else sys.mods j := by
    intro j
    rcases eq_or_ne j i with rfl | hj
    · simp [Sys.setMod]
    · simp [Sys.setMod, hj]
  constructor
  · rfl
  all_goals
    intro j
    rw [hmod j]
    split <;> rfl

theorem sound_returned (h : Sound p s) (hp : s.sup = .join []) :
    Sound p { s with sup := .returned } := by
  have hrest : SupPc.rest s.sup = [] := by rw [hp]; rfl
  refine ⟨h.steady, h.next, h.short, h.noError, ?_, ?_, List.nodup_nil, ?_, Or.inr (Or.inr rfl)⟩
  · intro i hi
    have hi' := h.joined i hi
    rw [hrest] at hi'
    exact hi'
  · intro i hi; cases hi
  · intro i rest hp'; cases hp'

/-- A thread is joined when it has ended. -/
theorem sound_join (h : Sound p s) {i : Nat} {rest : List Nat} (hp : s.sup = .join (i :: rest))
    (hjoin : (s.sys.mods i).idx = -1 ∨ (s.sys.mods i).thread.pc = .ended) :
    Sound p { s with sup := .destroy i rest } := by
  have hrest : SupPc.rest s.sup = i :: rest := by rw [hp]; rfl
  have halive := h.alive i (by rw [hrest]; exact List.mem_cons_self ..)
  have hended : (s.sys.mods i).thread.pc = .ended := hjoin.resolve_left halive.2
  have hdistinct := h.distinct
  rw [hrest] at hdistinct
  obtain ⟨hnotin, hdistinct⟩ := List.nodup_cons.mp hdistinct
  refine ⟨h.steady, h.next, h.short, h.noError, ?_, ?_, hdistinct, ?_,
    (h.calls_or_joins (by simp [hp])).imp_right Or.inl⟩
  · intro j hj
    rcases h.joined j hj with hmem | hj'
    · rw [hrest] at hmem
      rcases List.mem_cons.mp hmem with rfl | hmem
      · exact Or.inr hended
      · exact Or.inl hmem
    · exact Or.inr hj'
  · intro j hj
    exact h.alive j (by rw [hrest]; exact List.mem_cons_of_mem _ hj)
  · intro j rest' hp'
    cases hp'
    exact ⟨hended, hnotin⟩

theorem sound_destroy (h : Sound p s) {i : Nat} {rest : List Nat} (hp : s.sup = .destroy i rest) :
    Sound p { s with sys := s.sys.setMod i (s.sys.mods i).destroy, sup := .join rest } := by
  have hrest : SupPc.rest s.sup = rest := by rw [hp]; rfl
  obtain ⟨-, hnotin⟩ := h.dying i rest hp
  have hsame := destroy_sameWork s.sys i
  refine ⟨Chain.steady_sameWork h.steady hsame, ?_, ?_, ?_, ?_, ?_, ?_, ?_,
    (h.calls_or_joins (by simp [hp])).imp_right Or.inl⟩
  · rcases eq_or_ne i 1 with rfl | hi
    · simp [Sys.setMod, Module.destroy]
    · simpa [Sys.setMod, Ne.symm hi] using h.next
  · rw [hsame.thread]; exact h.short
  · rcases eq_or_ne i 0 with rfl | hi
    · simp [Sys.setMod, Module.destroy]
    · simpa [Sys.setMod, Ne.symm hi] using h.noError
  · intro j hj
    rw [hsame.thread, show SupPc.rest (.join rest) = SupPc.rest s.sup by rw [hrest]; rfl]
    exact h.joined j hj
  · intro j hj
    have hne : j ≠ i := fun heq => hnotin (heq ▸ hj)
    have halive := h.alive j (by rw [hrest]; exact hj)
    simpa [Sys.setMod, hne] using halive
  · show rest.Nodup
    rw [← hrest]
    exact h.distinct
  · intro j rest' hp'; cases hp'

theorem sound_sup (h : Sound p s) (hs : supStep s = some s') : Sound p s' := by
  unfold supStep at hs
  split at hs
  case h_1 hp =>
    cases hs
    exact sound_returned h hp
  case h_2 i rest hp =>
    split at hs <;> cases hs
    next hjoin => exact sound_join h hp hjoin
  case h_3 i rest hp =>
    cases hs
    exact sound_destroy h hp
  case h_4 => cases hs

theorem sound_owner (h : Sound p s) (hs : ownerStep s = some s') : Sound p s' := by
  unfold ownerStep at hs
  split at hs
  case h_1 hp =>
    split at hs <;> cases hs
    next hsup =>
    exact h.frame (.refl _) rfl (fun _ => rfl) h.noError (Or.inr (Or.inr hsup))
  case h_2 hp =>
    cases hs
    refine h.frame (s.sys.setStates_sameWork .unknown s.sys.plState) rfl
      (fun j => Module.setState_idx _ _) ?_
      (Or.inr (Or.inr (h.sup_returned (by simp [hp]) (by simp [hp]))))
    simp [Sys.setStates, Module.setState, h.noError]
  case h_3 hp =>
    cases hs
    exact h.frame ⟨rfl, fun _ => rfl, fun _ => rfl, fun _ => rfl, fun _ => rfl⟩ rfl (fun _ => rfl)
      h.noError (Or.inr (Or.inr (h.sup_returned (by simp [hp]) (by simp [hp]))))
  case h_4 hp =>
    cases hs
    exact h.frame ⟨rfl, fun _ => rfl, fun _ => rfl, fun _ => rfl, fun _ => rfl⟩ rfl (fun _ => rfl)
      h.noError (Or.inr (Or.inr (h.sup_returned (by simp [hp]) (by simp [hp]))))
  case h_5 => cases hs
  case h_6 => cases hs

theorem sound_step {a : Action} (hc : CanLeave p) (h : Sound p s) (hok : Answers a)
    (hs : p.step s a = some s') : Sound p s' := by
  cases a with
  | module a => exact sound_module hc h hok hs
  | sup => exact sound_sup h hs
  | destroy =>
    simp only [step] at hs
    split at hs <;> cases hs
    exact h.frame (.refl _) rfl (fun _ => rfl) h.noError (Or.inr (Or.inl rfl))
  | owner => exact sound_owner h hs

/-! ### The stop request of the owner -/

theorem told_of_stop (h : Sound p s) (hs : p.step s (.module (.owner .stop)) = some s') :
    Told s' := by
  obtain ⟨hstep, -, howner, -⟩ := step_module hs
  simp only [Chain.step, Sys.call, Option.some.injEq] at hstep
  refine ⟨fun _ => by rw [← hstep], Or.inl ?_⟩
  rw [← hstep]
  simp [Sys.setStates, Module.setState, h.noError]

theorem told_module {a : Pipeline.Action} (hc : CanLeave p) (h : Sound p s) (ht : Told s)
    (hs : p.step s (.module a) = some s') : Told s' := by
  obtain ⟨hstep, -, howner, hexit, hcalls⟩ := step_module hs
  have hended := Chain.ended_of_step hstep (j := 0)
  cases a with
  | thread i =>
    obtain ⟨-, w, hw, hsys⟩ := Chain.step_thread hstep
    refine ⟨fun ho => ?_, ?_⟩
    · rw [hsys, Sys.putView_plState]
      exact ht.calls (howner ▸ ho)
    · rcases ht.head with hst | hp
      · left
        rw [hsys]
        rcases Nat.eq_zero_or_pos i with rfl | hi
        · rw [Sys.putView_me]
          have hm : p.chain.method 0 = .initial := by simp [Chain.method, hc.head, Head.method]
          have hpc := h.steady.wired.hasPc 0
          cases hout : (s.sys.mods 0).thread.pc.stopPath with
          | false => exact (head_leaves hw Chain.readsBox_zero hpc hout).1.trans hst
          | true =>
            rcases head_ends hw Chain.readsBox_zero hpc hout h.noError with h' | ⟨-, h'⟩ | ⟨hsrc, -⟩
            · exact h'.trans hst
            · exact h'
            · rw [hm] at hsrc; cases hsrc
        · rw [s.sys.putView_of_ne i w (j := 0) (by omega) (by omega)]
          exact hst
      · exact Or.inr (hended hp)
  | client i r =>
    obtain ⟨-, q, cl, -, hsys⟩ := Chain.step_client hstep
    refine ⟨fun ho => ?_, ?_⟩
    · rw [hsys]
      exact ht.calls (howner ▸ ho)
    · refine ht.head.imp (fun hst => ?_) hended
      rw [hsys]
      rcases Nat.eq_zero_or_pos i with rfl | hi
      · simpa [Sys.setMod] using hst
      · simpa [Sys.setMod, Nat.ne_of_lt hi] using hst
  | owner call =>
    have hstop := ht.calls (hcalls call rfl)
    simp only [Chain.step] at hstep
    cases call <;> simp [Sys.call, hstop] at hstep
    · exact ⟨fun _ => hstep ▸ hstop, by rw [← hstep]; exact ht.head⟩
    · exact ⟨fun _ => hstep ▸ hstop, by rw [← hstep]; exact ht.head⟩
    · refine ⟨fun _ => by rw [← hstep], Or.inl ?_⟩
      rw [← hstep]
      simp [Sys.setStates, Module.setState, h.noError]
  | raiseExit => exact absurd rfl hexit

theorem told_step {a : Action} (hc : CanLeave p) (h : Sound p s) (ht : Told s)
    (hs : p.step s a = some s') : Told s' := by
  cases a with
  | module a => exact told_module hc h ht hs
  | sup =>
    simp only [step, supStep] at hs
    split at hs
    · cases hs; exact ⟨ht.calls, ht.head⟩
    · split at hs <;> cases hs
      exact ⟨ht.calls, ht.head⟩
    · next i rest hp =>
      cases hs
      have hsame := destroy_sameWork s.sys i
      refine ⟨ht.calls, ?_⟩
      rcases eq_or_ne i 0 with rfl | hi
      · refine Or.inr ?_
        rw [hsame.thread]
        exact (h.dying 0 rest hp).1
      · simpa [Sys.setMod, Ne.symm hi] using ht.head
    · cases hs
  | destroy =>
    simp only [step] at hs
    split at hs <;> cases hs
    exact ⟨fun ho => (by cases ho), ht.head⟩
  | owner =>
    simp only [step, ownerStep] at hs
    split at hs
    · split at hs <;> cases hs
      exact ⟨fun ho => (by cases ho), ht.head⟩
    · next hp =>
      cases hs
      have hsup := h.sup_returned (by simp [hp]) (by simp [hp])
      have hended := h.joined 0 (by unfold Chain.cnt; omega)
      rw [hsup] at hended
      refine ⟨fun ho => (by cases ho), Or.inr ?_⟩
      simpa [Sys.setStates] using hended.resolve_left (by simp [SupPc.rest])
    · cases hs; exact ⟨fun ho => (by cases ho), ht.head⟩
    · cases hs; exact ⟨fun ho => (by cases ho), ht.head⟩
    · cases hs
    · cases hs

end Listed

end DclProcessor.Pipeline.Shutdown
