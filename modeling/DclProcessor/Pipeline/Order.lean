import DclProcessor.Library.Stage
import DclProcessor.Pipeline.Handshake

/-!
What a run has sent, read and answered, and in which order. A mailbox hands on
every command once and in order; a process module forwards the jobs its client
accepts; so the finalization receives the head's jobs in the head's order, less
the rejected ones.
-/

namespace DclProcessor.Pipeline

open Transition Stage

/-! ## Histories -/

/-- Commands module `i` has written to the mailbox of module `i + 1`. -/
def written (es : List Event) (i : Nat) : List Msg :=
  es.filterMap fun
    | .wrote j m => if j = i then some m else none
    | _ => none

/-- Commands module `i` has read from its mailbox. -/
def readBy (es : List Event) (i : Nat) : List Msg :=
  es.filterMap fun
    | .read j m => if j = i then some m else none
    | _ => none

/-- Answers of the client of module `i`, with the chunks they are about. -/
def answers (es : List Event) (i : Nat) : List (Nat × Int) :=
  es.filterMap fun
    | .answered j d r => if j = i then some (d, r) else none
    | _ => none

/-- Chunks module `i` has pushed to the data ring. -/
def returned (es : List Event) (i : Nat) : List Nat :=
  es.filterMap fun
    | .returned j d => if j = i then some d else none
    | _ => none

def jobs (ms : List Msg) : List Nat :=
  ms.filterMap fun
    | .job d => some d
    | .stop => none

@[simp] theorem written_append (es fs : List Event) (i : Nat) :
    written (es ++ fs) i = written es i ++ written fs i := List.filterMap_append

@[simp] theorem readBy_append (es fs : List Event) (i : Nat) :
    readBy (es ++ fs) i = readBy es i ++ readBy fs i := List.filterMap_append

@[simp] theorem answers_append (es fs : List Event) (i : Nat) :
    answers (es ++ fs) i = answers es i ++ answers fs i := List.filterMap_append

@[simp] theorem returned_append (es fs : List Event) (i : Nat) :
    returned (es ++ fs) i = returned es i ++ returned fs i := List.filterMap_append

@[simp] theorem jobs_append (ms ns : List Msg) : jobs (ms ++ ns) = jobs ms ++ jobs ns :=
  List.filterMap_append

@[simp] theorem jobs_stop : jobs [.stop] = [] := rfl
@[simp] theorem jobs_job (d : Nat) : jobs [.job d] = [d] := rfl
@[simp] theorem jobs_nil : jobs [] = [] := rfl

/-- What module `i` adds to the histories in one step of its thread. -/
def sent (v : View) : List Msg :=
  match v.me.thread.pc with
  | .postNext | .stopPostNext => [msg v.next.cmd v.next.dataoffset]
  | _ => []

def received (v : View) : List Msg :=
  match v.me.thread.pc with
  | .readOffset => [msg v.me.thread.cmd v.me.box.dataoffset]
  | _ => []

def pushed (v : View) : List Nat :=
  match v.me.thread.pc with
  | .dropChunk | .returnChunk => [v.me.thread.dataoffset]
  | _ => []

theorem written_threadEvents (i j : Nat) (v : View) :
    written (threadEvents i v) j = if i = j then sent v else [] := by
  unfold threadEvents sent
  cases v.me.thread.pc <;> simp only [written] <;> by_cases h : i = j <;> simp [h]

theorem readBy_threadEvents (i j : Nat) (v : View) :
    readBy (threadEvents i v) j = if i = j then received v else [] := by
  unfold threadEvents received
  cases v.me.thread.pc <;> simp only [readBy] <;> by_cases h : i = j <;> simp [h]

theorem answers_threadEvents (i j : Nat) (v : View) : answers (threadEvents i v) j = [] := by
  unfold threadEvents
  cases v.me.thread.pc <;> simp [answers]

theorem returned_threadEvents (i j : Nat) (v : View) :
    returned (threadEvents i v) j = if i = j then pushed v else [] := by
  unfold threadEvents pushed
  cases v.me.thread.pc <;> simp only [returned] <;> by_cases h : i = j <;> simp [h]

theorem clientEvents_quiet (i j : Nat) (r : Reply) (m : Module) :
    written (clientEvents i r m) j = [] ∧ readBy (clientEvents i r m) j = [] ∧
      returned (clientEvents i r m) j = [] := by
  unfold clientEvents
  split <;> simp [written, readBy, returned]

/-- Only the thread and the client of module `j` add to the histories of `j`. -/
theorem emit_quiet {s : Sys} {a : Action} {j : Nat} (ht : a ≠ .thread j)
    (hc : ∀ r, a ≠ .client j r) :
    written (Chain.emit s a) j = [] ∧ readBy (Chain.emit s a) j = [] ∧
      answers (Chain.emit s a) j = [] ∧ returned (Chain.emit s a) j = [] := by
  cases a with
  | thread i =>
    have hij : i ≠ j := fun h => ht (by rw [h])
    simp only [Chain.emit]
    rw [written_threadEvents, readBy_threadEvents, answers_threadEvents, returned_threadEvents]
    simp [hij]
  | client i r =>
    have hij : i ≠ j := fun h => hc r (by rw [h])
    obtain ⟨hw, hr, hret⟩ := clientEvents_quiet i j r (s.mods i)
    refine ⟨hw, hr, ?_, hret⟩
    simp only [Chain.emit, clientEvents]
    split <;> simp [answers, hij]
  | owner call => exact ⟨rfl, rfl, rfl, rfl⟩
  | raiseExit => exact ⟨rfl, rfl, rfl, rfl⟩

/-! ## One mailbox -/

/-- The unread command of a mailbox. -/
def Mailbox.pending (b : Mailbox) (u : Thread) : List Msg :=
  if b.unread u then [msg b.cmd b.dataoffset] else []

theorem pending_empty {b : Mailbox} {u : Thread} (hn : b.newCmd = 0) (h : u.pc.reads = false) :
    b.pending u = [] := by
  simp [Mailbox.pending, unread_of_not_reads h, hn]

theorem sent_of_quiet {v : View} (h : v.me.thread.pc.touchesNext = false) : sent v = [] := by
  unfold sent
  cases hp : v.me.thread.pc <;> first
    | rfl
    | (rw [hp] at h; cases h)

theorem received_of_quiet {v : View} (h : v.me.thread.pc.touchesBox = false) :
    received v = [] := by
  unfold received
  cases hp : v.me.thread.pc <;> first
    | rfl
    | (rw [hp] at h; cases h)

/-- The upstream thread adds what it sends to the mailbox. -/
theorem pending_upstream {meth : Method} {v w : View} {u : Thread}
    (h : Link v.me.thread v.next u) (hs : threadStep meth v = some w)
    (hpc : meth.hasPc v.me.thread.pc = true) : w.next.pending u = v.next.pending u ++ sent v := by
  obtain ⟨e, he, rfl⟩ := threadStep_some hs
  rw [View.goto_next]
  cases ht : v.me.thread.pc.touchesNext with
  | false => rw [exec_next he ht, sent_of_quiet ht, List.append_nil]
  | true =>
    have hidle : v.me.thread.pc.sends = true → ∀ b : Mailbox, b.newCmd = v.next.newCmd →
        b.pending u = [] := fun hsend b hb =>
      pending_empty (hb.trans (h.sending hsend).2.1) (h.sending hsend).2.2.1
    unfold exec at he
    rcases body_touchesNext (test v) hpc ht with ⟨hp, -⟩ | ⟨hp, -⟩ | ⟨hp, -⟩ | ⟨hp, -⟩ |
        ⟨hp, -⟩ | ⟨hp, -⟩ | ⟨hp, -⟩ <;>
      simp only [hp, Option.map_eq_some_iff, Option.some.injEq] at he <;> rw [hp] at hidle <;>
      simp only [sent, hp, List.append_nil]
    · obtain ⟨n, -, rfl⟩ := he
      rfl
    · subst he
      rw [hidle rfl v.next rfl]
      exact hidle rfl _ rfl
    · subst he
      rw [hidle rfl v.next rfl]
      exact hidle rfl _ rfl
    · subst he
      rw [hidle rfl v.next rfl]
      simp [Mailbox.pending, Mailbox.unread]
    · obtain ⟨n, -, rfl⟩ := he
      rfl
    · subst he
      rw [hidle rfl v.next rfl]
      exact hidle rfl _ rfl
    · subst he
      rw [hidle rfl v.next rfl]
      simp [Mailbox.pending, Mailbox.unread]

/-- The downstream thread takes what it receives out of the mailbox. -/
theorem pending_downstream {meth : Method} {v w : View} {t : Thread}
    (h : Link t v.me.box v.me.thread) (hs : threadStep meth v = some w)
    (hpc : meth.hasPc v.me.thread.pc = true) :
    v.me.box.pending v.me.thread = received v ++ w.me.box.pending w.me.thread := by
  obtain ⟨e, he, rfl⟩ := threadStep_some hs
  cases ht : v.me.thread.pc.touchesBox with
  | false =>
    have hout := ht
    simp only [Pc.touchesBox, Bool.or_eq_false_iff] at hout
    have hreads : (e.goto (meth.body (test v) v.me.thread.pc)).me.thread.pc.reads = false := by
      rw [View.goto_pc, body_reads _ hpc, hout.2]
    rw [received_of_quiet ht, List.nil_append, View.goto_box, exec_box he ht]
    simp only [Mailbox.pending, unread_of_not_reads hout.1, unread_of_not_reads hreads]
  | true =>
    have hsem := h.sem
    unfold exec at he
    rcases body_touchesBox (test v) hpc ht with ⟨hp, hb⟩ | ⟨hp, hb⟩ | ⟨hp, hb⟩ | ⟨hp, hb⟩ <;>
      simp only [hp, Option.map_eq_some_iff, Option.some.injEq] at he <;> rw [hp] at hb <;>
      simp only [received, hp, hb, List.nil_append]
    · obtain ⟨n, hn, rfl⟩ := he
      have hn' := semWait_some hn
      simp [Mailbox.pending, Mailbox.unread, hp, hn', View.goto, View.setThread, View.setBox]
    · subst he
      simp [Mailbox.pending, Mailbox.unread, hp, View.goto, View.setThread]
    · subst he
      have hc := h.cmdRead hp
      have hn : v.me.box.newCmd = 0 := by
        simp only [hp, Pc.reads, Bool.toNat_true] at hsem
        omega
      simp [Mailbox.pending, Mailbox.unread, hp, hn, hc, View.goto, View.setThread]
    · subst he
      by_cases hn : 0 < v.me.box.newCmd <;>
        simp [Mailbox.pending, Mailbox.unread, hp, hn, View.goto, View.setThread, View.setBox]

namespace Chain

variable {c : Chain} {s s' : Sys}

def Delivered (c : Chain) (es : List Event) (s : Sys) : Prop :=
  ∀ i, i + 1 < c.cnt → written es i =
    readBy es (i + 1) ++ (s.mods (i + 1)).box.pending (s.mods (i + 1)).thread

theorem delivered_started : c.Delivered [] c.started := by
  intro i hi
  have hr : (c.method (i + 1)).loopEntry = .waitNewCmd :=
    loopEntry_reader (method_readsBox (by omega))
  have hidle := pending_empty (b := (c.started.mods (i + 1)).box)
    (u := (c.started.mods (i + 1)).thread) rfl (by simp [started, startedModule, hr, Pc.reads])
  rw [hidle]
  rfl

theorem delivered_thread {es : List Event} {i : Nat} {w : View} (hw : c.Wired s)
    (hd : c.Delivered es s) (hi : i < c.cnt) (hs : threadStep (c.method i) (s.view i) = some w) :
    c.Delivered (es ++ threadEvents i (s.view i)) (s.putView i w) := by
  intro j hj
  have hj' := hd j hj
  simp only [written_append, readBy_append, written_threadEvents, readBy_threadEvents]
  by_cases hji : i = j
  · subst hji
    have hup := pending_upstream (hw.link i hj) hs (hw.hasPc i)
    rw [if_pos rfl, if_neg (by omega), List.append_nil, Sys.putView_next, hj', List.append_assoc]
    congr 1
    exact hup.symm
  · rw [if_neg hji, List.append_nil]
    by_cases hji' : i = j + 1
    · subst hji'
      have hdown := pending_downstream (hw.link j hj) hs (hw.hasPc (j + 1))
      rw [if_pos rfl, Sys.putView_me, List.append_assoc, ← hdown]
      exact hj'
    · rw [if_neg hji', List.append_nil, s.putView_of_ne i w (fun h => hji' h.symm) (by omega)]
      exact hj'

theorem delivered_step {es : List Event} {a : Action} (hw : c.Wired s) (hd : c.Delivered es s)
    (h : c.step s a = some s') : c.Delivered (es ++ Chain.emit s a) s' := by
  have hquiet : ∀ {t : Sys}, (∀ j, (t.mods j).box = (s.mods j).box) →
      (∀ j, (t.mods j).thread = (s.mods j).thread) → c.Delivered es t := by
    intro t hbox hthread j hj
    rw [hbox, hthread]
    exact hd j hj
  cases a with
  | thread i =>
    obtain ⟨hi, w, hs, rfl⟩ := step_thread h
    exact delivered_thread hw hd hi hs
  | client i r =>
    obtain ⟨_, p, cl, _, rfl⟩ := step_client h
    intro j hj
    obtain ⟨hwr, -, -⟩ := clientEvents_quiet i j r (s.mods i)
    obtain ⟨-, hrd, -⟩ := clientEvents_quiet i (j + 1) r (s.mods i)
    simp only [Chain.emit, written_append, readBy_append, hwr, hrd, List.append_nil]
    refine hquiet ?_ ?_ j hj <;> intro k <;> by_cases hk : k = i <;> simp [Sys.setMod, hk]
  | owner call =>
    have hsame := step_owner h
    simpa [Chain.emit] using hquiet hsame.box hsame.thread
  | raiseExit =>
    have hsame := step_raiseExit h
    simpa [Chain.emit] using hquiet hsame.box hsame.thread

theorem delivered_of_run {ok : Action → Prop} {es : List Event} (h : c.Run ok es s) :
    c.Delivered es s := by
  have hinv : c.Wired s ∧ c.Delivered es s := by
    refine invariant (P := fun es s => c.Wired s ∧ c.Delivered es s)
      ⟨wired_started, delivered_started⟩ ?_ h
    rintro es s a s' ⟨hw, hd⟩ - hs
    exact ⟨wired_step hw hs, delivered_step hw hd hs⟩
  exact hinv.2

end Chain

end DclProcessor.Pipeline
