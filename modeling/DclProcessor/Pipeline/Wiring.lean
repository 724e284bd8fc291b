import DclProcessor.Pipeline.Link

/-! What one action of the chain changes, and the invariant that every thread is
in its own body and every mailbox is a one-slot channel, in every run. -/

namespace DclProcessor.Pipeline

open Transition

namespace Chain

variable {c : Chain}

theorem method_ne_finalization {i : Nat} (h : i + 1 < c.cnt) : c.method i ≠ .finalization := by
  unfold cnt at h
  unfold method
  split
  · cases c.head <;> simp [Head.method]
  · rw [if_pos (by omega)]; simp

theorem method_readsBox {i : Nat} (h : 0 < i) : (c.method i).readsBox = true := by
  unfold method
  rw [if_neg (by omega)]
  split <;> rfl

/-- Only the head does not read a mailbox. -/
theorem head_of_not_readsBox {i : Nat} (h : (c.method i).readsBox = false) : i = 0 := by
  by_contra hne
  rw [method_readsBox (Nat.pos_of_ne_zero hne)] at h
  cases h

theorem method_last : c.method (c.middle + 1) = .finalization := by
  simp [method]

theorem method_middle {i : Nat} (h : 0 < i) (hi : i ≤ c.middle) : c.method i = .process := by
  simp [method, hi, Nat.ne_of_gt h]

end Chain

/-! ## One action -/

theorem exec_idx {v e : View} (he : exec v = some e) : e.me.idx = v.me.idx := by
  unfold exec at he
  cases hpc : v.me.thread.pc <;> simp only [hpc, Option.map_eq_some_iff, Option.some.injEq] at he
  case popRing => split at he <;> cases he; rfl
  case setState x => subst he; simp
  all_goals first
    | (subst he; rfl)
    | (obtain ⟨n, -, rfl⟩ := he; rfl)
    | cases he

/-- A statement of a thread body writes no state but the one it ends with. -/
theorem exec_state {meth : Method} {v e : View} (he : exec v = some e)
    (hpc : meth.hasPc v.me.thread.pc = true) :
    e.me.state = v.me.state ∨ e.me.state = .stop ∨ e.me.state = .init := by
  unfold exec at he
  cases hp : v.me.thread.pc <;> simp only [hp, Option.map_eq_some_iff, Option.some.injEq] at he
  case popRing => split at he <;> cases he; exact Or.inl rfl
  case setState x =>
    subst he
    rw [hp] at hpc
    simp only [Module.setState]
    cases meth <;> cases x <;> try (cases hpc; done)
    all_goals split <;> simp
  all_goals first
    | (subst he; exact Or.inl rfl)
    | (obtain ⟨n, -, rfl⟩ := he; exact Or.inl rfl)
    | cases he

namespace Sys

variable (s : Sys) (i : Nat) (w : View)

@[simp] theorem putView_me : (s.putView i w).mods i = w.me := by
  simp [putView, setMod]

@[simp] theorem putView_next :
    (s.putView i w).mods (i + 1) = { s.mods (i + 1) with box := w.next } := by
  simp [putView, setMod]

theorem putView_of_ne {j : Nat} (h : j ≠ i) (h' : j ≠ i + 1) :
    (s.putView i w).mods j = s.mods j := by
  simp [putView, setMod, h, h']

/-- Thread `i` changes nothing of another module but the mailbox of the next. -/
theorem putView_frame {j : Nat} (h : j ≠ i) :
    ∃ b, (s.putView i w).mods j = { s.mods j with box := b } := by
  by_cases h' : j = i + 1
  · subst h'; exact ⟨_, s.putView_next i w⟩
  · exact ⟨(s.mods j).box, s.putView_of_ne i w h h'⟩

@[simp] theorem putView_ring : (s.putView i w).ring = w.ring := rfl
@[simp] theorem putView_exitFlag : (s.putView i w).exitFlag = s.exitFlag := rfl
@[simp] theorem putView_plState : (s.putView i w).plState = s.plState := rfl

end Sys

/-- `s'` differs from `s` at most in the states of modules and pipeline and in the
exit flag. -/
structure Sys.SameWork (s s' : Sys) : Prop where
  ring : s'.ring = s.ring
  box : ∀ j, (s'.mods j).box = (s.mods j).box
  proc : ∀ j, (s'.mods j).proc = (s.mods j).proc
  thread : ∀ j, (s'.mods j).thread = (s.mods j).thread
  client : ∀ j, (s'.mods j).client = (s.mods j).client

theorem Sys.SameWork.refl (s : Sys) : s.SameWork s := ⟨rfl, fun _ => rfl, fun _ => rfl,
  fun _ => rfl, fun _ => rfl⟩

theorem Sys.setStates_sameWork (s : Sys) (st : MdState) (pl : PlState) :
    s.SameWork { s.setStates st with plState := pl } := by
  constructor <;> simp [Sys.setStates]

namespace Chain

variable {c : Chain} {s s' : Sys}

theorem step_thread {i : Nat} (h : c.step s (.thread i) = some s') :
    i < c.cnt ∧ ∃ w, threadStep (c.method i) (s.view i) = some w ∧ s' = s.putView i w := by
  simp only [step] at h
  split at h
  · obtain ⟨w, hw, rfl⟩ := Option.map_eq_some_iff.mp h
    exact ⟨by assumption, w, hw, rfl⟩
  · cases h

theorem step_client {i : Nat} {r : Reply} (h : c.step s (.client i r) = some s') :
    i < c.cnt ∧ ∃ p cl, clientStep r (s.mods i).proc (s.mods i).client = some (p, cl) ∧
      s' = s.setMod i { s.mods i with proc := p, client := cl } := by
  simp only [step] at h
  split at h
  · obtain ⟨⟨p, cl⟩, hp, rfl⟩ := Option.map_eq_some_iff.mp h
    exact ⟨by assumption, p, cl, hp, rfl⟩
  · cases h

theorem step_owner {call : OwnerCall} (h : c.step s (.owner call) = some s') :
    s.SameWork s' := by
  simp only [step] at h
  cases call <;> simp only [Sys.call] at h
  case start =>
    split at h
    · cases h; exact s.setStates_sameWork _ _
    · cases h
  case stop => cases h; exact s.setStates_sameWork _ _
  all_goals
    cases h
    split
    · exact s.setStates_sameWork _ _
    · exact .refl s

theorem step_raiseExit (h : c.step s .raiseExit = some s') : s.SameWork s' := by
  simp only [step, Option.some.injEq] at h
  subst h
  exact ⟨rfl, fun _ => rfl, fun _ => rfl, fun _ => rfl, fun _ => rfl⟩

theorem call_module {call : OwnerCall} (h : s.call call = some s') (j : Nat) :
    ∃ st, s'.mods j = { s.mods j with state := st } := by
  have hset := (s.mods j).setState_eq
  cases call <;> simp only [Sys.call] at h
  case start =>
    split at h
    · cases h; exact hset _
    · cases h
  case stop => cases h; exact hset _
  all_goals
    cases h
    split
    · exact hset _
    · exact ⟨(s.mods j).state, rfl⟩

/-- One action as module `j` sees it: its mailbox or state changes from outside, its
thread makes a step, or its client does. -/
theorem step_module {a : Action} (h : c.step s a = some s') (j : Nat) :
    (a ≠ .thread j ∧ (∀ r, a ≠ .client j r) ∧
      ∃ b st, s'.mods j = { s.mods j with box := b, state := st }) ∨
    (a = .thread j ∧ ∃ w, threadStep (c.method j) (s.view j) = some w ∧ s'.mods j = w.me) ∨
    ∃ r p cl, a = .client j r ∧ clientStep r (s.mods j).proc (s.mods j).client = some (p, cl) ∧
      s'.mods j = { s.mods j with proc := p, client := cl } := by
  cases a with
  | thread i =>
    obtain ⟨-, w, hs, rfl⟩ := step_thread h
    by_cases hj : j = i
    · subst hj
      exact Or.inr (Or.inl ⟨rfl, w, hs, s.putView_me j w⟩)
    · obtain ⟨b, hb⟩ := s.putView_frame i w hj
      exact Or.inl ⟨by simp [Ne.symm hj], by simp, b, (s.mods j).state, hb⟩
  | client i r =>
    obtain ⟨-, p, cl, hs, rfl⟩ := step_client h
    by_cases hj : j = i
    · subst hj
      exact Or.inr (Or.inr ⟨r, p, cl, rfl, hs, by simp [Sys.setMod]⟩)
    · exact Or.inl ⟨by simp, by simp [Ne.symm hj], (s.mods j).box, (s.mods j).state,
        by simp [Sys.setMod, hj]⟩
  | owner call =>
    obtain ⟨st, hst⟩ := call_module h j
    exact Or.inl ⟨by simp, by simp, (s.mods j).box, st, hst⟩
  | raiseExit =>
    simp only [step, Option.some.injEq] at h
    subst h
    exact Or.inl ⟨by simp, by simp, (s.mods j).box, (s.mods j).state, rfl⟩

theorem idx_of_step {a : Action} (h : c.step s a = some s') (j : Nat) :
    (s'.mods j).idx = (s.mods j).idx := by
  rcases step_module h j with ⟨-, -, b, st, hj⟩ | ⟨-, w, hs, hj⟩ | ⟨r, p, cl, -, -, hj⟩ <;> rw [hj]
  obtain ⟨e, he, rfl⟩ := threadStep_some hs
  exact exec_idx he

theorem ended_of_step {a : Action} (h : c.step s a = some s') {j : Nat}
    (hp : (s.mods j).thread.pc = .ended) : (s'.mods j).thread.pc = .ended := by
  rcases step_module h j with ⟨-, -, b, st, hj⟩ | ⟨-, w, hs, hj⟩ | ⟨r, p, cl, -, -, hj⟩
  · rw [hj]; exact hp
  · obtain ⟨e, he, -⟩ := threadStep_some hs
    have hp' : (s.view j).me.thread.pc = .ended := hp
    simp [exec, hp'] at he
  · rw [hj]; exact hp

/-! ## Threads in their bodies, mailboxes as one-slot channels -/

theorem reader_of_touchesBox {i : Nat} {pc : Pc} (h : (c.method i).hasPc pc = true)
    (ht : pc.touchesBox = true) : 0 < i := by
  rcases Nat.eq_zero_or_pos i with rfl | hi
  · simp only [method, if_true] at h
    cases hc : c.head <;> rw [hc] at h <;> cases pc <;> first
      | (cases ht; done)
      | cases h
  · exact hi

theorem writer_of_touchesNext {i : Nat} {pc : Pc} (hi : i < c.cnt)
    (h : (c.method i).hasPc pc = true) (ht : pc.touchesNext = true) : i + 1 < c.cnt := by
  by_contra hlast
  have hi' : i = c.middle + 1 := by
    unfold cnt at hi hlast
    omega
  rw [hi', method_last] at h
  cases pc <;> first
    | (cases ht; done)
    | cases h

/-- Every thread is in its own body, every mailbox but the head's is a one-slot
channel, and nobody writes to the head's. -/
structure Wired (c : Chain) (s : Sys) : Prop where
  hasPc : ∀ i, (c.method i).hasPc (s.mods i).thread.pc = true
  link : ∀ i, i + 1 < c.cnt →
    Link (s.mods i).thread (s.mods (i + 1)).box (s.mods (i + 1)).thread
  headBox : (s.mods 0).box = ⟨0, 1, .job, 0⟩

theorem loopEntry_reader {meth : Method} (h : meth.readsBox = true) :
    meth.loopEntry = .waitNewCmd := by
  cases meth <;> first | rfl | cases h

theorem wired_started : c.Wired c.started where
  hasPc i := hasPc_loopEntry _
  link i h := by
    have hr : (c.method (i + 1)).loopEntry = .waitNewCmd :=
      loopEntry_reader (method_readsBox (by omega))
    have hs := loopEntry_sends (c.method i)
    have hstop := loopEntry_stopSent (c.method i)
    constructor
    · simp [started, startedModule, hr, hs, Pc.reads]
    · rintro (hp | hp) <;> simp only [started, startedModule] at hp <;> rw [hp] at hs <;> cases hs
    · intro hp
      simp only [started, startedModule] at hp
      rw [hp] at hs
      cases hs
    · intro hp
      simp only [started, startedModule] at hp
      rw [hp] at hs
      cases hs
    · intro hp
      simp [started, startedModule, hr] at hp
    · have hread : (startedModule (c.method (i + 1)) (c.idx (i + 1))).thread.stopRead = false := by
        simp [startedModule, hr, Thread.stopRead, Pc.stopPath, Pc.stopSent]
      show (c.method i).loopEntry.stopSent = true ↔ _
      rw [hstop]
      simp only [started, hread]
      simp [startedModule, hr, Mailbox.unread]
    · intro _
      rfl
  headBox := rfl

theorem wired_sameWork (hw : c.Wired s) (h : s.SameWork s') : c.Wired s' where
  hasPc i := by rw [h.thread]; exact hw.hasPc i
  link i hi := by rw [h.thread, h.thread, h.box]; exact hw.link i hi
  headBox := by rw [h.box]; exact hw.headBox

theorem wired_thread {i : Nat} {w : View} (hw : c.Wired s) (hi : i < c.cnt)
    (hs : threadStep (c.method i) (s.view i) = some w) : c.Wired (s.putView i w) where
  hasPc j := by
    by_cases hj : j = i
    · subst hj
      obtain ⟨e, -, rfl⟩ := threadStep_some hs
      simp [hasPc_body]
    · obtain ⟨b, hb⟩ := s.putView_frame i w hj
      rw [hb]; exact hw.hasPc j
  link j hj := by
    by_cases hji : j = i
    · subst hji
      simp only [Sys.putView_me, Sys.putView_next]
      exact (hw.link j hj).upstream hs (hw.hasPc j) (method_ne_finalization hj)
    · by_cases hji' : j + 1 = i
      · subst hji'
        rw [Sys.putView_me, s.putView_of_ne _ w hji (by omega)]
        exact (hw.link j hj).downstream hs (hw.hasPc (j + 1)) (method_readsBox (by omega))
      · obtain ⟨b, hb⟩ := s.putView_frame i w hji
        rw [hb, s.putView_of_ne i w hji' (by omega)]
        exact hw.link j hj
  headBox := by
    rcases Nat.eq_zero_or_pos i with rfl | hi'
    · obtain ⟨e, he, rfl⟩ := threadStep_some hs
      have hout : (s.view 0).me.thread.pc.touchesBox = false := by
        cases ht : (s.view 0).me.thread.pc.touchesBox with
        | false => rfl
        | true => exact absurd (reader_of_touchesBox (hw.hasPc 0) ht) (Nat.lt_irrefl 0)
      rw [Sys.putView_me, View.goto_box, exec_box he hout]
      exact hw.headBox
    · rw [s.putView_of_ne i w (by omega) (by omega)]
      exact hw.headBox

theorem wired_client {i : Nat} {p : ProcInfo} {cl : Client} (hw : c.Wired s) :
    c.Wired (s.setMod i { s.mods i with proc := p, client := cl }) := by
  have hsame : ∀ j, ((s.setMod i { s.mods i with proc := p, client := cl }).mods j).thread =
      (s.mods j).thread ∧ ((s.setMod i { s.mods i with proc := p, client := cl }).mods j).box =
      (s.mods j).box := by
    intro j
    by_cases hj : j = i
    · subst hj; simp [Sys.setMod]
    · simp [Sys.setMod, hj]
  constructor
  · intro j; rw [(hsame j).1]; exact hw.hasPc j
  · intro j hj
    rw [(hsame j).1, (hsame (j + 1)).1, (hsame (j + 1)).2]
    exact hw.link j hj
  · rw [(hsame 0).2]; exact hw.headBox

theorem wired_step {a : Action} (hw : c.Wired s) (h : c.step s a = some s') : c.Wired s' := by
  cases a with
  | thread i =>
    obtain ⟨hi, w, hs, rfl⟩ := step_thread h
    exact wired_thread hw hi hs
  | client i r =>
    obtain ⟨_, p, cl, _, rfl⟩ := step_client h
    exact wired_client hw
  | owner call => exact wired_sameWork hw (step_owner h)
  | raiseExit => exact wired_sameWork hw (step_raiseExit h)

theorem wired_of_run {ok : Action → Prop} {es : List Event} (h : c.Run ok es s) : c.Wired s :=
  invariant (P := fun _ s => c.Wired s) wired_started (fun _ _ _ _ hw _ hs => wired_step hw hs) h

end Chain

end DclProcessor.Pipeline
