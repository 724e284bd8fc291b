import Mathlib.Algebra.BigOperators.Group.Finset.Piecewise
import Mathlib.Algebra.Order.BigOperators.Group.Finset
import Mathlib.Tactic.Abel
import DclProcessor.Library.Exchange
import DclProcessor.Library.SlotTable
import DclProcessor.Pipeline.Wiring

/-!
Where the chunks of the data ring are. A chunk is in the ring, held by a thread
which has taken it and not yet forwarded or returned it, or named by an unread
`PROCESS_CMD_JOB` in a mailbox. No step makes a chunk appear or vanish.
-/

namespace DclProcessor.Pipeline

open Transition Exchange

/-- The thread works on the chunk `dataoffset`. -/
def Pc.holds : Pc → Bool
  | .setProcCmd | .setProcOffs | .postJob | .waitJobResult | .testCmdResult | .dropChunk
  | .waitNext | .setNextCmd | .setNextOffset | .postNext | .returnChunk => true
  | _ => false

/-- `Pc.holds`, or the thread has read a job and has not looked at it yet. -/
def Thread.holds (t : Thread) : Bool :=
  t.pc.holds || ((t.pc = .postResult || t.pc = .testCmd) && t.cmd = .job)

def Mailbox.holds (b : Mailbox) (u : Thread) : Bool := b.unread u && b.cmd = .job

def Thread.chunk (t : Thread) : Multiset Nat := if t.holds then {t.dataoffset} else 0

def Mailbox.chunk (b : Mailbox) (u : Thread) : Multiset Nat :=
  if b.holds u then {b.dataoffset} else 0

def Module.chunks (m : Module) : Multiset Nat := m.thread.chunk + m.box.chunk m.thread

/-- The chunks a step of thread `v.me.thread` can move, with `u` the thread of the
next module. -/
def View.chunks (v : View) (u : Thread) : Multiset Nat :=
  (v.ring : Multiset Nat) + (v.me.chunks + v.next.chunk u)

/-- `Pc.holds` of the statement after one outside the mailboxes. -/
def Pc.holdsAfter (cond : Bool) : Pc → Bool
  | .popRing => true
  | .testCmd => !cond
  | .dropChunk | .returnChunk => false
  | pc => pc.holds

theorem body_holds {meth : Method} {pc : Pc} (cond : Bool) (h : meth.hasPc pc = true)
    (ht : pc.touchesBox = false) (ht' : pc.touchesNext = false) :
    (meth.body cond pc).holds = pc.holdsAfter cond := by
  cases meth <;> cases pc <;> cases cond <;> first
    | rfl
    | (cases h; done)
    | (cases ht; done)
    | cases ht'

theorem body_afterRead {meth : Method} {pc : Pc} (cond : Bool) (h : meth.hasPc pc = true)
    (ht : pc.touchesBox = false) :
    meth.body cond pc ≠ .postResult ∧ meth.body cond pc ≠ .testCmd := by
  cases meth <;> cases pc <;> cases cond <;> first
    | (cases h; done)
    | (cases ht; done)
    | simp [Method.body, initialThread, sourceThread, processThread, finalizationThread]

theorem chunk_of_holds {t : Thread} (h : t.pc.holds = true) : t.chunk = {t.dataoffset} := by
  simp [Thread.chunk, Thread.holds, h]

theorem chunk_of_idle {t : Thread} (h : t.pc.holds = false) (hp : t.pc ≠ .postResult)
    (hp' : t.pc ≠ .testCmd) : t.chunk = 0 := by
  simp [Thread.chunk, Thread.holds, h, hp, hp']

/-- A thread outside its mailbox leaves it as it is. -/
theorem chunk_box_eq {b : Mailbox} {u u' : Thread} (h : u.pc.reads = false)
    (h' : u'.pc.reads = false) : b.chunk u' = b.chunk u := by
  simp [Mailbox.chunk, Mailbox.holds, unread_of_not_reads h, unread_of_not_reads h']

theorem chunk_empty {b : Mailbox} {u : Thread} (hn : b.newCmd = 0) (h : u.pc.reads = false) :
    b.chunk u = 0 := by
  simp [Mailbox.chunk, Mailbox.holds, unread_of_not_reads h, hn]

theorem exec_moves {v e : View} {t : Thread} (he : exec v = some e)
    (ht : v.me.thread.pc.touchesBox = false) (ht' : v.me.thread.pc.touchesNext = false)
    (hd : t.dataoffset = e.me.thread.dataoffset)
    (hh : t.holds = v.me.thread.pc.holdsAfter (test v)) :
    (e.ring : Multiset Nat) + t.chunk = (v.ring : Multiset Nat) + v.me.thread.chunk := by
  simp only [Thread.chunk, hh, hd]
  clear hh hd
  unfold exec at he
  cases hp : v.me.thread.pc <;>
    simp only [hp, Option.map_eq_some_iff, Option.some.injEq] at he ht ht' <;>
    first
    | (cases ht; done)
    | (cases ht'; done)
    | skip
  case popRing =>
    split at he
    · cases he
    · rename_i d ring hring
      cases he
      simp [hring, hp, Pc.holds, Thread.holds, Pc.holdsAfter, View.setThread,
        ← Multiset.cons_coe, ← Multiset.singleton_add, add_comm]
  case testCmd =>
    cases he
    cases hc : v.me.thread.cmd <;> simp [Thread.holds, Pc.holds, Pc.holdsAfter, test, hp, hc]
  case dropChunk => cases he; simp [Thread.holds, hp, Pc.holds, Pc.holdsAfter, ← Multiset.coe_add]
  case returnChunk =>
    cases he
    simp [Thread.holds, hp, Pc.holds, Pc.holdsAfter, ← Multiset.coe_add]
  case waitJobResult =>
    obtain ⟨n, -, rfl⟩ := he
    simp [Thread.holds, hp, Pc.holds, Pc.holdsAfter, View.setProc]
  case stopWaitJobResult =>
    obtain ⟨n, -, rfl⟩ := he
    simp [Thread.holds, hp, Pc.holds, Pc.holdsAfter, View.setProc]
  case ended => cases he
  all_goals
    cases he
    simp [Thread.holds, hp, Pc.holds, Pc.holdsAfter, View.setProc, View.setThread]

/-- A step outside both mailboxes moves a chunk between ring and thread only. -/
theorem chunks_outside {meth : Method} {v w : View} (u : Thread)
    (hs : threadStep meth v = some w) (hpc : meth.hasPc v.me.thread.pc = true)
    (ht : v.me.thread.pc.touchesBox = false) (ht' : v.me.thread.pc.touchesNext = false) :
    w.chunks u = v.chunks u := by
  obtain ⟨e, he, rfl⟩ := threadStep_some hs
  obtain ⟨hnp, hnt⟩ := body_afterRead (test v) hpc ht
  have hout := ht
  simp only [Pc.touchesBox, Bool.or_eq_false_iff] at hout
  have hreads : (meth.body (test v) v.me.thread.pc).reads = false := by
    rw [body_reads _ hpc, hout.2]
  have hmail : v.me.box.chunk (e.goto (meth.body (test v) v.me.thread.pc)).me.thread =
      v.me.box.chunk v.me.thread := chunk_box_eq hout.1 hreads
  have hmove := exec_moves (t := (e.goto (meth.body (test v) v.me.thread.pc)).me.thread) he ht ht'
    rfl (by simp [Thread.holds, hnp, hnt, body_holds (test v) hpc ht ht'])
  simp only [View.chunks, Module.chunks, View.goto_box, exec_box he ht, hmail, View.goto_next,
    exec_next he ht', ← add_assoc]
  rw [← hmove]
  rfl

/-- A step on the own mailbox: the chunk of an unread job goes to the thread. -/
theorem chunks_box {meth : Method} {v w : View} {t : Thread} (u : Thread)
    (h : Link t v.me.box v.me.thread) (hs : threadStep meth v = some w)
    (hpc : meth.hasPc v.me.thread.pc = true) (ht : v.me.thread.pc.touchesBox = true) :
    w.chunks u = v.chunks u := by
  obtain ⟨e, he, rfl⟩ := threadStep_some hs
  have hsem := h.sem
  unfold exec at he
  rcases body_touchesBox (test v) hpc ht with ⟨hp, hb⟩ | ⟨hp, hb⟩ | ⟨hp, hb⟩ | ⟨hp, hb⟩ <;>
    simp only [hp, Option.map_eq_some_iff, Option.some.injEq] at he <;> rw [hp] at hb
  · obtain ⟨n, hn, rfl⟩ := he
    have hn' := semWait_some hn
    simp [View.chunks, Module.chunks, Thread.chunk, Thread.holds, Mailbox.chunk, Mailbox.holds,
      Mailbox.unread, Pc.holds, View.setBox, hp, hb, hn', View.goto, View.setThread]
  · subst he
    simp [View.chunks, Module.chunks, Thread.chunk, Thread.holds, Mailbox.chunk, Mailbox.holds,
      Mailbox.unread, Pc.holds, hp, hb, View.goto, View.setThread]
  · subst he
    have hc := h.cmdRead hp
    have hn : v.me.box.newCmd = 0 := by
      simp only [hp, Pc.reads, Bool.toNat_true] at hsem
      omega
    simp [View.chunks, Module.chunks, Thread.chunk, Thread.holds, Mailbox.chunk, Mailbox.holds,
      Mailbox.unread, Pc.holds, hp, hb, hn, hc, View.goto, View.setThread]
  · subst he
    simp [View.chunks, Module.chunks, Thread.chunk, Thread.holds, Mailbox.chunk, Mailbox.holds,
      Mailbox.unread, Pc.holds, hp, hb, View.goto, View.setThread, View.setBox]

/-- A step on the next mailbox: posting a job passes the chunk on. -/
theorem chunks_next {meth : Method} {v w : View} {u : Thread}
    (h : Link v.me.thread v.next u) (hs : threadStep meth v = some w)
    (hpc : meth.hasPc v.me.thread.pc = true) (ht : v.me.thread.pc.touchesNext = true) :
    w.chunks u = v.chunks u := by
  obtain ⟨e, he, rfl⟩ := threadStep_some hs
  have hout : v.me.thread.pc.touchesBox = false := by
    cases hp : v.me.thread.pc <;> rw [hp] at ht <;> first | rfl | cases ht
  have hbox := exec_box he hout
  simp only [Pc.touchesBox, Bool.or_eq_false_iff] at hout
  have hmail : v.me.box.chunk (e.goto (meth.body (test v) v.me.thread.pc)).me.thread =
      v.me.box.chunk v.me.thread :=
    chunk_box_eq hout.1 (by rw [View.goto_pc, body_reads _ hpc, hout.2])
  -- between the wait and the post the mailbox carries nothing, whatever is written to it
  have hidle : v.me.thread.pc.sends = true → ∀ b : Mailbox, b.newCmd = v.next.newCmd →
      b.chunk u = 0 := fun hsend b hb =>
    chunk_empty (hb.trans (h.sending hsend).2.1) (h.sending hsend).2.2.1
  simp only [View.chunks, Module.chunks, View.goto_box, hbox, hmail, View.goto_next]
  clear hmail hbox
  unfold exec at he
  rcases body_touchesNext (test v) hpc ht with ⟨hp, hb⟩ | ⟨hp, hb⟩ | ⟨hp, hb⟩ | ⟨hp, hb⟩ |
      ⟨hp, hb⟩ | ⟨hp, hb⟩ | ⟨hp, hb⟩ <;>
    simp only [hp, Option.map_eq_some_iff, Option.some.injEq] at he <;> rw [hp] at hb hidle
  · obtain ⟨n, -, rfl⟩ := he
    simp [Thread.chunk, Thread.holds, Mailbox.chunk, Mailbox.holds, Mailbox.unread, Pc.holds, hp,
      hb, View.goto, View.setThread]
  · subst he
    have hold := hidle rfl v.next rfl
    have hnew := hidle rfl { v.next with cmd := .job } rfl
    simp [hold, hnew, Thread.chunk, Thread.holds, Pc.holds, hp, hb, View.goto, View.setThread]
  · subst he
    have hold := hidle rfl v.next rfl
    have hnew := hidle rfl { v.next with dataoffset := v.me.thread.dataoffset } rfl
    simp [hold, hnew, Thread.chunk, Thread.holds, Pc.holds, hp, hb, View.goto, View.setThread]
  · have hentry : meth.loopEntry.holds = false ∧ meth.loopEntry ≠ .postResult ∧
        meth.loopEntry ≠ .testCmd := by cases meth <;> decide
    have hold := hidle rfl v.next rfl
    have hposted : { v.next with newCmd := v.next.newCmd + 1 }.chunk u = {v.me.thread.dataoffset} := by
      simp [Mailbox.chunk, Mailbox.holds, Mailbox.unread, h.jobCmd (Or.inr hp), h.jobOffset hp]
    subst he
    rw [hp, hb, chunk_of_idle hentry.1 hentry.2.1 hentry.2.2,
      chunk_of_holds (t := v.me.thread) (by rw [hp]; rfl), hold]
    simp only [View.goto, View.setThread, hposted, zero_add, add_zero]
    rw [add_comm (Mailbox.chunk _ _)]
  · obtain ⟨n, -, rfl⟩ := he
    simp [Thread.chunk, Thread.holds, Mailbox.chunk, Mailbox.holds, Mailbox.unread, Pc.holds, hp,
      hb, View.goto, View.setThread]
  · subst he
    have hold := hidle rfl v.next rfl
    have hnew := hidle rfl { v.next with cmd := .stop } rfl
    simp [hold, hnew, Thread.chunk, Thread.holds, Pc.holds, hp, hb, View.goto, View.setThread]
  · have hafter : (meth.body (test v) .stopPostNext).holds = false := by
      cases meth <;> rfl
    have hnot := body_afterRead (test v) hpc (by rw [hp]; rfl)
    have hold := hidle rfl v.next rfl
    have hposted : { v.next with newCmd := v.next.newCmd + 1 }.chunk u = 0 := by
      simp [Mailbox.chunk, Mailbox.holds, h.stopCmd hp]
    rw [hp] at hnot
    subst he
    rw [hp, chunk_of_idle hafter hnot.1 hnot.2,
      chunk_of_idle (t := v.me.thread) (by rw [hp]; rfl) (by simp [hp]) (by simp [hp]), hold]
    simp only [View.goto, View.setThread, hposted]

/-! ## The whole chain -/

namespace Chain

variable {c : Chain} {s s' : Sys}

/-- All chunks, wherever they are. -/
def chunks (c : Chain) (s : Sys) : Multiset Nat :=
  (s.ring : Multiset Nat) + ∑ i ∈ Finset.range c.cnt, (s.mods i).chunks

theorem startedModule_chunks (meth : Method) (idx : Int) :
    (startedModule meth idx).chunks = 0 := by
  cases meth <;> rfl

theorem chunks_started : c.chunks c.started = (c.offsets : Multiset Nat) := by
  simp [chunks, started, startedModule_chunks]

theorem chunks_local {i : Nat} {w : View} (hw : c.Wired s) (hi : i < c.cnt)
    (hs : threadStep (c.method i) (s.view i) = some w) :
    w.chunks (s.mods (i + 1)).thread = (s.view i).chunks (s.mods (i + 1)).thread := by
  have hpc : (c.method i).hasPc (s.view i).me.thread.pc = true := hw.hasPc i
  cases hb : (s.view i).me.thread.pc.touchesBox with
  | true =>
    obtain ⟨j, rfl⟩ := Nat.exists_eq_succ_of_ne_zero (reader_of_touchesBox hpc hb).ne'
    exact chunks_box _ (hw.link j hi) hs hpc hb
  | false =>
    cases hn : (s.view i).me.thread.pc.touchesNext with
    | true => exact chunks_next (hw.link i (writer_of_touchesNext hi hpc hn)) hs hpc hn
    | false => exact chunks_outside _ hs hpc hb hn

theorem chunks_thread {i : Nat} {w : View} (hw : c.Wired s) (hi : i < c.cnt)
    (hs : threadStep (c.method i) (s.view i) = some w) :
    c.chunks (s.putView i w) = c.chunks s := by
  have hlocal := chunks_local hw hi hs
  have hother : ∀ j, j ≠ i → j ≠ i + 1 → ((s.putView i w).mods j).chunks = (s.mods j).chunks :=
    fun j hj hj' => by rw [s.putView_of_ne i w hj hj']
  unfold chunks
  by_cases hlast : i + 1 < c.cnt
  · apply sum_range_two hlast hother
    rw [Sys.putView_me, Sys.putView_next]
    simp only [View.chunks, Module.chunks] at hlocal ⊢
    rw [add_comm (Thread.chunk (s.mods (i + 1)).thread), ← add_assoc (w.me.thread.chunk + _),
      ← add_assoc, Sys.putView_ring, hlocal]
    simp only [Sys.view]
    abel
  · have hout : (s.view i).me.thread.pc.touchesNext = false := by
      by_contra hn
      exact hlast (writer_of_touchesNext hi (hw.hasPc i) (eq_true_of_ne_false hn))
    obtain ⟨e, he, hw'⟩ := threadStep_some hs
    have hnext : w.next = (s.view i).next := by rw [hw', View.goto_next, exec_next he hout]
    apply sum_range_one hi
    · intro j hjn hj
      exact hother j hj (by omega)
    · rw [Sys.putView_me]
      simp only [View.chunks, hnext, ← add_assoc] at hlocal
      exact add_right_cancel hlocal

theorem chunks_sameWork (h : s.SameWork s') : c.chunks s' = c.chunks s := by
  simp [chunks, Module.chunks, h.ring, h.box, h.thread]

theorem chunks_client {i : Nat} {p : ProcInfo} {cl : Client} :
    c.chunks (s.setMod i { s.mods i with proc := p, client := cl }) = c.chunks s := by
  have hsame : ∀ j, ((s.setMod i { s.mods i with proc := p, client := cl }).mods j).chunks =
      (s.mods j).chunks := by
    intro j
    by_cases hj : j = i
    · subst hj; simp [Sys.setMod, Module.chunks]
    · simp [Sys.setMod, hj]
  unfold chunks
  congr 1
  exact Finset.sum_congr rfl fun j _ => hsame j

theorem chunks_step {a : Action} (hw : c.Wired s) (h : c.step s a = some s') :
    c.chunks s' = c.chunks s := by
  cases a with
  | thread i =>
    obtain ⟨hi, w, hs, rfl⟩ := step_thread h
    exact chunks_thread hw hi hs
  | client i r =>
    obtain ⟨_, p, cl, _, rfl⟩ := step_client h
    exact chunks_client
  | owner call => exact chunks_sameWork (step_owner h)
  | raiseExit => exact chunks_sameWork (step_raiseExit h)

theorem chunks_of_run {ok : Action → Prop} {es : List Event} (h : c.Run ok es s) :
    c.chunks s = (c.offsets : Multiset Nat) := by
  have hinv : c.Wired s ∧ c.chunks s = (c.offsets : Multiset Nat) := by
    refine invariant (P := fun _ s => c.Wired s ∧ c.chunks s = (c.offsets : Multiset Nat))
      ⟨wired_started, chunks_started⟩ ?_ h
    rintro es s a s' ⟨hw, hc⟩ - hs
    exact ⟨wired_step hw hs, (chunks_step hw hs).trans hc⟩
  exact hinv.2

end Chain

/-! ## Exactly one place -/

inductive Place
  | ring
  | thread (i : Nat)
  | mailbox (i : Nat)
  deriving DecidableEq, Repr

namespace Chain

variable {c : Chain} {s : Sys}

/-- The modules whose thread holds chunk `d`. -/
def holders (c : Chain) (s : Sys) (d : Nat) : Finset Nat :=
  (Finset.range c.cnt).filter fun i =>
    (s.mods i).thread.holds = true ∧ (s.mods i).thread.dataoffset = d

/-- The modules whose mailbox holds an unread job on chunk `d`. -/
def mailed (c : Chain) (s : Sys) (d : Nat) : Finset Nat :=
  (Finset.range c.cnt).filter fun i =>
    (s.mods i).box.holds (s.mods i).thread = true ∧ (s.mods i).box.dataoffset = d

/-- Chunk `d` is at a place. -/
def At (c : Chain) (s : Sys) (d : Nat) : Place → Prop
  | .ring => d ∈ s.ring
  | .thread i => i ∈ c.holders s d
  | .mailbox i => i ∈ c.mailed s d

theorem count_chunk_thread (t : Thread) (d : Nat) :
    t.chunk.count d = if t.holds = true ∧ t.dataoffset = d then 1 else 0 := by
  unfold Thread.chunk
  cases t.holds
  · simp
  · simp [Multiset.count_singleton, eq_comm]

theorem count_chunk_box (b : Mailbox) (u : Thread) (d : Nat) :
    (b.chunk u).count d = if b.holds u = true ∧ b.dataoffset = d then 1 else 0 := by
  unfold Mailbox.chunk
  cases b.holds u
  · simp
  · simp [Multiset.count_singleton, eq_comm]

theorem count_chunks (d : Nat) :
    (c.chunks s).count d = s.ring.count d + (c.holders s d).card + (c.mailed s d).card := by
  unfold chunks holders mailed
  rw [Multiset.count_add, Multiset.coe_count, Multiset.count_sum', Finset.card_filter,
    Finset.card_filter, add_assoc, ← Finset.sum_add_distrib]
  congr 1
  refine Finset.sum_congr rfl fun i _ => ?_
  rw [Module.chunks, Multiset.count_add, count_chunk_thread, count_chunk_box]

/-- A chunk that is counted once is in one place. -/
theorem one_place {d : Nat}
    (h : s.ring.count d + (c.holders s d).card + (c.mailed s d).card = 1) :
    ∃! p, c.At s d p := by
  have hring : d ∈ s.ring ↔ 0 < s.ring.count d := List.count_pos_iff.symm
  have hcases : s.ring.count d = 1 ∧ (c.holders s d).card = 0 ∧ (c.mailed s d).card = 0 ∨
      s.ring.count d = 0 ∧ (c.holders s d).card = 1 ∧ (c.mailed s d).card = 0 ∨
      s.ring.count d = 0 ∧ (c.holders s d).card = 0 ∧ (c.mailed s d).card = 1 := by omega
  rcases hcases with ⟨hr, hh, hm⟩ | ⟨hr, hh, hm⟩ | ⟨hr, hh, hm⟩
  · rw [Finset.card_eq_zero] at hh hm
    refine ⟨.ring, hring.mpr (by omega), ?_⟩
    rintro (_ | i | i) hp
    · rfl
    · simp [At, hh] at hp
    · simp [At, hm] at hp
  · rw [Finset.card_eq_zero] at hm
    obtain ⟨k, hk⟩ := Finset.card_eq_one.mp hh
    refine ⟨.thread k, by simp [At, hk], ?_⟩
    rintro (_ | i | i) hp
    · have := hring.mp hp
      omega
    · simpa [At, hk] using hp
    · simp [At, hm] at hp
  · rw [Finset.card_eq_zero] at hh
    obtain ⟨k, hk⟩ := Finset.card_eq_one.mp hm
    refine ⟨.mailbox k, by simp [At, hk], ?_⟩
    rintro (_ | i | i) hp
    · have := hring.mp hp
      omega
    · simp [At, hh] at hp
    · simpa [At, hk] using hp

/-- A thread about to push a chunk finds a free slot. -/
theorem ring_not_full (h : c.chunks s = (c.offsets : Multiset Nat)) {i : Nat} (hi : i < c.cnt)
    (hp : (s.mods i).thread.pc = .dropChunk ∨ (s.mods i).thread.pc = .returnChunk) :
    s.ring.length < c.dataCnt := by
  have hcard := congrArg Multiset.card h
  have hone : (s.mods i).chunks.card ≥ 1 := by
    have hholds : (s.mods i).thread.pc.holds = true := by rcases hp with hp | hp <;> rw [hp] <;> rfl
    rw [Module.chunks, chunk_of_holds hholds, Multiset.card_add, Multiset.card_singleton]
    omega
  have hle : (s.mods i).chunks.card ≤ ∑ j ∈ Finset.range c.cnt, (s.mods j).chunks.card :=
    Finset.single_le_sum (f := fun j => (s.mods j).chunks.card) (fun _ _ => Nat.zero_le _)
      (Finset.mem_range.mpr hi)
  simp only [chunks, Multiset.card_add, Multiset.coe_card, Multiset.card_sum, offsets,
    List.length_map, List.length_range] at hcard
  omega

/-- **Chunk ownership.** In every run and for every value `d`, ring, threads and
mailboxes together hold `d` as often as `pipeline_thread` has put it in the ring;
a chunk put there once is in exactly one place; no push finds the ring full. -/
theorem chunk_ownership {ok : Action → Prop} {es : List Event} (h : c.Run ok es s) :
    (∀ d, s.ring.count d + (c.holders s d).card + (c.mailed s d).card = c.offsets.count d) ∧
    (∀ d, c.offsets.count d = 1 → ∃! p, c.At s d p) ∧
    ∀ i < c.cnt, (s.mods i).thread.pc = .dropChunk ∨ (s.mods i).thread.pc = .returnChunk →
      s.ring.length < c.dataCnt := by
  have hrun := chunks_of_run h
  have hcount : ∀ d, s.ring.count d + (c.holders s d).card + (c.mailed s d).card =
      c.offsets.count d := by
    intro d
    rw [← count_chunks, hrun, Multiset.coe_count]
  refine ⟨hcount, ?_, ?_⟩
  · intro d hd
    exact one_place ((hcount d).trans hd)
  · intro i hi hp
    exact ring_not_full hrun hi hp

/-- The first chunk in the mailbox of the second module, the other one in the ring. -/
theorem chunk_ownership_firstChunk : ∃ es s, threeModules.Run (fun _ => True) es s ∧
    s.ring = [64] ∧ threeModules.mailed s 0 = {1} ∧ ∃! p, threeModules.At s 0 p := by
  have hrun : threeModules.Run (fun _ => True) _ _ :=
    trace_of_isSome (fun _ _ => trivial) firstChunk_runs
  exact ⟨_, _, hrun, by decide, by decide, (chunk_ownership hrun).2.1 0 (by decide)⟩

/-- The chunks are distinct when they have a size and fit in the address space. -/
theorem offsets_nodup (hsize : 0 < c.dataSize) (hfit : c.base + c.dataCnt * c.dataSize ≤ 2 ^ 64) :
    c.offsets.Nodup := by
  have hslots : c.offsets.map (BitVec.ofNat 64) =
      SlotTable.slots (BitVec.ofNat 64 c.base) c.dataSize c.dataCnt := by
    rw [offsets, SlotTable.slots, List.map_map]
    refine List.map_congr_left fun i _ => ?_
    rw [Function.comp_apply, SlotTable.slot, ← BitVec.ofNat_add]
    exact BitVec.toNat_inj.mp (by simp)
  have hnodup : (SlotTable.slots (BitVec.ofNat 64 c.base) c.dataSize c.dataCnt).Nodup :=
    SlotTable.slots_nodup hsize (by omega)
  rw [← hslots] at hnodup
  exact hnodup.of_map

end Chain

end DclProcessor.Pipeline
