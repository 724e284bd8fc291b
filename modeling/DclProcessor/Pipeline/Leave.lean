import DclProcessor.Pipeline.Burden
import DclProcessor.Pipeline.Shutdown

/-!
What a chain has left to do once its head has been told to stop. Every statement of a
thread that stays on the way out takes something from it, a command in a mailbox stands
for all that the modules behind it do with it, and a job for what its client does.
-/

namespace DclProcessor.Pipeline.Shutdown

open Transition Finset

/-- Bound on the statements to the next wait for a command or to the end, with the state
of the head on stop. -/
def rank : Pc → Nat
  | .readCmd => 26
  | .readOffset => 25
  | .postResult => 24
  | .testCmd => 23
  | .loadCmd => 22
  | .popRing => 21
  | .setProcCmd => 20
  | .setProcOffs => 19
  | .postJob => 18
  | .waitJobResult => 17
  | .testCmdResult => 16
  | .waitNext => 15
  | .setNextCmd => 14
  | .setNextOffset => 13
  | .postNext => 12
  | .testLive => 11
  | .testExit => 10
  | .testStop => 9
  | .stopWaitNext => 8
  | .stopSetNextCmd => 7
  | .stopPostNext => 6
  | .stopTestIdx => 5
  | .stopSetProcCmd => 4
  | .stopPostJob => 3
  | .stopWaitJobResult => 2
  | .dropChunk | .returnChunk | .setState _ => 1
  | .waitNewCmd | .ended => 0

/-- Commands for the next module that the thread posts on the way. -/
def messages (meth : Method) : Pc → Nat
  | .testExit | .testStop | .testLive | .stopWaitNext | .stopSetNextCmd | .stopPostNext => 1
  | .readCmd | .readOffset | .postResult | .testCmd => 1
  | .loadCmd | .popRing | .setProcCmd | .setProcOffs | .postJob | .waitJobResult
  | .testCmdResult | .waitNext | .setNextCmd | .setNextOffset | .postNext =>
      if meth = .initial then 2 else 1
  | _ => 0

/-- What a module has left, where a command in its mailbox weighs `wi` and one in the next
mailbox `wn`. -/
def weight (meth : Method) (wi wn : Nat) (m : Module) : Nat :=
  m.burden (fun pc => 4 * rank pc + wn * messages meth pc) wi

/-- A thread on its way out takes more from its own module than it puts in the next
mailbox. -/
theorem thread_decreases {meth : Method} {v w : View} {wi wn : Nat}
    (hs : threadStep meth v = some w) (hpc : meth.hasPc v.me.thread.pc = true)
    (hm : meth ≠ .source) (hstop : meth = .initial → v.me.state = .stop)
    (hshort : meth = .initial → Listed.handshake v.me.thread.pc = false)
    (hlast : meth = .finalization → wn = 0) (hw : wn + 110 ≤ wi) :
    weight meth wi wn w.me + wn * w.next.newCmd <
      weight meth wi wn v.me + wn * v.next.newCmd := by
  obtain ⟨e, he, rfl⟩ := threadStep_some hs
  unfold exec at he
  cases hp : v.me.thread.pc <;> rw [hp] at hpc hshort <;> cases meth <;>
    try first
      | (cases hpc; done)
      | exact absurd rfl hm
  case ended.initial => simp [hp] at he
  case ended.process => simp [hp] at he
  case ended.finalization => simp [hp] at he
  all_goals
    simp only [hp, Option.map_eq_some_iff, Option.some.injEq] at he
  case popRing.initial =>
    cases hr : v.ring <;> simp only [hr, reduceCtorEq, Option.some.injEq] at he
    subst he
    simp [weight, Module.burden, hp, View.goto, View.setThread, rank, messages, Method.body,
      initialThread]
  case setState.initial x =>
    subst he
    simp [weight, Module.burden, hp, View.goto, View.setThread, rank, messages, Method.body,
      initialThread]
  case setState.finalization x =>
    subst he
    simp [weight, Module.burden, hp, View.goto, View.setThread, rank, messages, Method.body,
      finalizationThread]
  case testStop.initial =>
    subst he
    have htest : test v = true := by simp [test, hp, hstop rfl]
    simp [weight, Module.burden, hp, View.goto, View.setThread, rank, messages, Method.body,
      initialThread, htest]
  case testLive.initial =>
    subst he
    have htest : test v = true := by simp [test, hp, hstop rfl]
    simp [weight, Module.burden, hp, View.goto, View.setThread, rank, messages, Method.body,
      initialThread, htest]
  all_goals first
    | subst he
    | (obtain ⟨n, hn, rfl⟩ := he; have hn' := semWait_some hn)
  all_goals
    cases hcond : test v <;>
      simp [weight, Module.burden, View.goto, View.setThread, View.setBox, View.setProc, rank,
        messages, Method.body, initialThread, processThread, finalizationThread, clientRank,
        Nat.mul_add, *] <;>
      omega

namespace Listed

variable {p : Listed} {s s' : State}

/-- Weight of a command in the mailbox of module `i`. -/
def commandWeight (p : Listed) (i : Nat) : Nat := 110 * (p.chain.cnt - i)

/-- What the modules have left. -/
def modulesLeft (p : Listed) (sys : Sys) : Nat :=
  ∑ i ∈ range p.chain.cnt,
    weight (p.chain.method i) (p.commandWeight i) (p.commandWeight (i + 1)) (sys.mods i)

theorem modulesLeft_thread {sys : Sys} {i : Nat} {w : View} (hi : i < p.chain.cnt)
    (hlt : weight (p.chain.method i) (p.commandWeight i) (p.commandWeight (i + 1)) w.me +
        p.commandWeight (i + 1) * w.next.newCmd <
      weight (p.chain.method i) (p.commandWeight i) (p.commandWeight (i + 1)) (sys.mods i) +
        p.commandWeight (i + 1) * (sys.mods (i + 1)).box.newCmd) :
    p.modulesLeft (sys.putView i w) < p.modulesLeft sys := by
  have hlast : p.commandWeight p.chain.cnt = 0 := by rw [commandWeight, Nat.sub_self]
  exact Chain.burden_thread (d := 1) hlast hi hlt

theorem modulesLeft_client {sys : Sys} {i : Nat} {r : Reply} {q : ProcInfo} {cl : Client}
    (hi : i < p.chain.cnt)
    (hs : clientStep r (sys.mods i).proc (sys.mods i).client = some (q, cl)) :
    p.modulesLeft (sys.setMod i { sys.mods i with proc := q, client := cl }) <
      p.modulesLeft sys := Chain.burden_client hi hs

theorem modulesLeft_sameWork {sys sys' : Sys} (h : sys.SameWork sys') :
    p.modulesLeft sys' = p.modulesLeft sys := Chain.burden_sameWork h

def supRank : SupPc → Nat
  | .join rest => 2 * rest.length + 1
  | .destroy _ rest => 2 * rest.length + 2
  | .returned => 0

def ownerRank : OwnerPc → Nat
  | .calls => 5
  | .joinThread => 4
  | .setStates => 3
  | .setPl => 2
  | .raiseExit => 1
  | .returned => 0

/-- What is left until everything has finished. -/
def left (p : Listed) (s : State) : Nat :=
  p.modulesLeft s.sys + supRank s.sup + ownerRank s.owner

/-- A thread of a chain that can leave, after the stop request. -/
theorem thread_leaves {i : Nat} {sys : Sys} (hc : CanLeave p) (h : Sound p s) (ht : Told s)
    (hs : p.chain.step s.sys (.thread i) = some sys) :
    p.modulesLeft sys < p.modulesLeft s.sys := by
  obtain ⟨hi, w, hw, rfl⟩ := Chain.step_thread hs
  have hhead : p.chain.method i = .initial → i = 0 := fun hm =>
    Chain.head_of_not_readsBox (by rw [hm]; rfl)
  have hless : weight (p.chain.method i) (p.commandWeight i) (p.commandWeight (i + 1)) w.me +
        p.commandWeight (i + 1) * w.next.newCmd <
      weight (p.chain.method i) (p.commandWeight i) (p.commandWeight (i + 1)) (s.sys.view i).me +
        p.commandWeight (i + 1) * (s.sys.view i).next.newCmd := by
    refine thread_decreases hw (h.steady.wired.hasPc i) ?_ ?_ ?_ ?_ ?_
    · intro hm
      have hzero : i = 0 := Chain.head_of_not_readsBox (by rw [hm]; rfl)
      rw [hzero] at hm
      have hsrc := Chain.method_source hm
      rw [hc.head] at hsrc
      cases hsrc
    · intro hm
      obtain rfl := hhead hm
      refine ht.head.resolve_right fun hp => ?_
      obtain ⟨e, he, -⟩ := threadStep_some hw
      have hp' : (s.sys.view 0).me.thread.pc = .ended := hp
      simp [exec, hp'] at he
    · intro hm
      obtain rfl := hhead hm
      exact h.short
    · intro hm
      have hlast : ¬ i + 1 < p.chain.cnt := fun hlt => Chain.method_ne_finalization hlt hm
      unfold commandWeight
      omega
    · unfold commandWeight
      omega
  exact modulesLeft_thread hi hless

/-- Nobody waits for a client that it does not have. -/
theorem awaits_client (h : Sound p s) {i : Nat}
    (hp : (s.sys.mods i).thread.pc.awaits = true) : (p.chain.method i).hasClient = true := by
  have hpc := h.steady.wired.hasPc i
  cases hm : p.chain.method i with
  | initial =>
    have hzero : i = 0 := Chain.head_of_not_readsBox (by rw [hm]; rfl)
    rw [hm] at hpc
    have hshort := h.short
    rw [hzero] at hp hpc
    cases hpc' : (s.sys.mods 0).thread.pc <;> rw [hpc'] at hp hpc hshort <;> first
      | (cases hp; done)
      | (cases hpc; done)
      | cases hshort
  | finalization =>
    rw [hm] at hpc
    cases hpc' : (s.sys.mods i).thread.pc <;> rw [hpc'] at hp hpc <;> first
      | (cases hp; done)
      | cases hpc
  | source => rfl
  | process => rfl

/-- While a thread has not ended, some module takes a step. -/
theorem module_progress (hc : CanLeave p) (h : Sound p s) (ht : Told s) {i : Nat}
    (hi : i < p.chain.cnt) (hp : (s.sys.mods i).thread.pc ≠ .ended) :
    ∃ a sys, Pipeline.Answers a ∧ p.step s (.module a) = some { s with sys := sys } ∧
      p.modulesLeft sys < p.modulesLeft s.sys := by
  rcases Chain.goes_on h.steady hc.data (fun j _ => awaits_client h) with
    ⟨j, hj, ⟨sys, hs⟩ | ⟨-, hclient⟩⟩ | hended
  · exact ⟨.thread j, sys, trivial, module_step hs (Or.inl ⟨j, rfl⟩), thread_leaves hc h ht hs⟩
  · obtain ⟨sys, hs⟩ := hclient ⟨0, false⟩
    refine ⟨.client j ⟨0, false⟩, sys, rfl, module_step hs (Or.inr ⟨j, _, rfl⟩), ?_⟩
    obtain ⟨-, q, cl, hcl, rfl⟩ := Chain.step_client hs
    exact modulesLeft_client hj hcl
  · exact absurd (hended i hi) hp

/-- **Progress of the shutdown.** Until everything has finished there is a step that
takes something from what is left. -/
theorem shutdown_progress (hc : CanLeave p) (h : Sound p s) (ht : Told s)
    (howner : s.owner ≠ .calls) (hunfinished : ¬ p.Finished s) :
    ∃ a s', Answers a ∧ p.step s a = some s' ∧ p.left s' < p.left s := by
  have hsup : (∃ s', supStep s = some s' ∧ p.left s' < p.left s) →
      ∃ a s', Answers a ∧ p.step s a = some s' ∧ p.left s' < p.left s :=
    fun ⟨s', hs, hlt⟩ => ⟨.sup, s', trivial, hs, hlt⟩
  cases ho : s.owner with
  | calls => exact absurd ho howner
  | joinThread =>
    cases hp : s.sup with
    | returned =>
      refine ⟨.owner, { s with owner := .setStates }, trivial, ?_, ?_⟩
      · simp [step, ownerStep, ho, hp]
      · simp [left, ho, ownerRank]
    | destroy i rest =>
      apply hsup
      simp only [supStep, hp, Option.some.injEq, exists_eq_left', left, supRank,
        modulesLeft_sameWork (destroy_sameWork s.sys i)]
      omega
    | join rest =>
      cases rest with
      | nil =>
        apply hsup
        simp [supStep, hp, left, supRank]
      | cons i rest =>
        obtain ⟨hi, -⟩ := h.alive i (by rw [hp]; exact List.mem_cons_self ..)
        by_cases hended : (s.sys.mods i).thread.pc = .ended
        · apply hsup
          simp only [supStep, hp, hended, or_true, if_true, Option.some.injEq, exists_eq_left',
            left, supRank, List.length_cons]
          omega
        · obtain ⟨a, sys, hok, hs, hlt⟩ := module_progress hc h ht hi hended
          refine ⟨.module a, _, hok, hs, ?_⟩
          simp only [left]
          omega
  | setStates =>
    have hsame := s.sys.setStates_sameWork .unknown s.sys.plState
    refine ⟨.owner, { s with sys := s.sys.setStates .unknown, owner := .setPl }, trivial, ?_, ?_⟩
    · simp [step, ownerStep, ho]
    · have heq : p.modulesLeft (s.sys.setStates .unknown) = p.modulesLeft s.sys :=
        modulesLeft_sameWork hsame
      simp [left, ho, ownerRank, heq]
  | setPl =>
    refine ⟨.owner, { s with sys := { s.sys with plState := .unknown }, owner := .raiseExit },
      trivial, ?_, ?_⟩
    · simp [step, ownerStep, ho]
    · simp [left, ho, ownerRank, modulesLeft]
  | raiseExit =>
    refine ⟨.owner, { s with sys := { s.sys with exitFlag := true }, owner := .returned },
      trivial, ?_, ?_⟩
    · simp [step, ownerStep, ho]
    · simp [left, ho, ownerRank, modulesLeft]
  | returned =>
    have hover := h.sup_returned (by simp [ho]) (by simp [ho])
    refine absurd ⟨fun i hi => ?_, hover, ho⟩ hunfinished
    have hi' := h.joined i hi
    rw [hover] at hi'
    exact hi'.resolve_left (by simp [SupPc.rest])

/-- From `pipeline_destroy` the owner makes no other call. -/
theorem destroy_step {a : Action} (h : s.owner ≠ .calls) (hs : p.step s a = some s') :
    s'.owner ≠ .calls := by
  cases a with
  | module a => rw [(step_module hs).2.2.1]; exact h
  | sup =>
    simp only [step, supStep] at hs
    split at hs
    · cases hs; exact h
    · split at hs <;> cases hs
      exact h
    · cases hs; exact h
    · cases hs
  | destroy =>
    simp only [step] at hs
    split at hs <;> cases hs
    simp
  | owner =>
    simp only [step, ownerStep] at hs
    split at hs
    · split at hs <;> cases hs
      simp
    · cases hs; simp
    · cases hs; simp
    · cases hs; simp
    · cases hs
    · cases hs

/-- In the shutdown of a chain that can leave. -/
structure Leaving (p : Listed) (s : State) : Prop where
  sound : Sound p s
  told : Told s
  owner : s.owner ≠ .calls

theorem leaving_step {a : Action} (hc : CanLeave p) (h : Leaving p s) (hok : Answers a)
    (hs : p.step s a = some s') : Leaving p s' :=
  ⟨sound_step hc h.sound hok hs, told_step hc h.sound h.told hs, destroy_step h.owner hs⟩

/-- A chain that can leave does so after the stop request. -/
theorem shutdownPossible (hc : CanLeave p) : ShutdownPossible p := by
  intro s s₁ s₂ s₃ t h0 hstop h1 hdestroy h2
  have hs : Sound p s := h0.invariant (P := Sound p) (sound_initial hc)
    fun _ _ _ h hok hs => sound_step hc h hok hs
  have hs2 : Sound p s₂ ∧ Told s₂ := by
    refine h1.invariant (P := fun s => Sound p s ∧ Told s)
      ⟨sound_step (a := .module (.owner .stop)) hc hs trivial hstop, told_of_stop hs hstop⟩ ?_
    exact fun _ _ _ h hok hs => ⟨sound_step hc h.1 hok hs, told_step hc h.1 h.2 hs⟩
  have hs3 : Leaving p s₃ := by
    refine ⟨sound_step (a := .destroy) hc hs2.1 trivial hdestroy,
      told_step hc hs2.1 hs2.2 hdestroy, ?_⟩
    simp only [step] at hdestroy
    split at hdestroy <;> cases hdestroy
    simp
  have ht : Leaving p t := h2.invariant (P := Leaving p) hs3
    fun _ _ _ h hok hs => leaving_step hc h hok hs
  have hstep : ∀ s, Leaving p s → ¬ p.Finished s → ∃ a s', Answers a ∧
      p.system.step s a = some s' ∧ Leaving p s' ∧ p.left s' < p.left s := by
    intro s hl hunfinished
    obtain ⟨a, s', hok, hs, hlt⟩ :=
      shutdown_progress hc hl.sound hl.told hl.owner hunfinished
    exact ⟨a, s', hok, hs, leaving_step hc hl hok hs, hlt⟩
  obtain ⟨u, hu, -, hfin⟩ := reaches_of_variant p.left hstep ht
  exact ⟨u, hu, hfin⟩

end Listed

end DclProcessor.Pipeline.Shutdown
