import DclProcessor.Pipeline.Chain

/-!
The link between a module and the next one: the two semaphores of the mailbox
make it a one-slot channel. `Link t b u` is the invariant of a mailbox `b`
written by thread `t` and read by thread `u`; it is kept by every step of
either thread.
-/

namespace DclProcessor.Pipeline

/-- Between `sem_wait(&module->next->result)` and `sem_post(&module->next->new_cmd)`. -/
def Pc.sends : Pc → Bool
  | .setNextCmd | .setNextOffset | .postNext | .stopSetNextCmd | .stopPostNext => true
  | _ => false

/-- Between `sem_wait(&module->new_cmd)` and `sem_post(&module->result)`. -/
def Pc.reads : Pc → Bool
  | .readCmd | .readOffset | .postResult => true
  | _ => false

/-- After the `PROCESS_CMD_STOP` for the next module has been posted. -/
def Pc.stopSent : Pc → Bool
  | .stopTestIdx | .stopSetProcCmd | .stopPostJob | .stopWaitJobResult | .setState _
  | .ended => true
  | _ => false

/-- After the loop. -/
def Pc.stopPath : Pc → Bool
  | .stopWaitNext | .stopSetNextCmd | .stopPostNext => true
  | pc => pc.stopSent

/-- The thread has read `PROCESS_CMD_STOP` from its mailbox. -/
def Thread.stopRead (u : Thread) : Bool :=
  u.pc.stopPath || ((u.pc = .postResult || u.pc = .testCmd) && u.cmd = .stop)

/-- The mailbox holds a command that thread `u` has not read completely. -/
def Mailbox.unread (b : Mailbox) (u : Thread) : Bool :=
  0 < b.newCmd || u.pc = .readCmd || u.pc = .readOffset

structure Link (t : Thread) (b : Mailbox) (u : Thread) : Prop where
  sem : b.result + b.newCmd + t.pc.sends.toNat + u.pc.reads.toNat = 1
  jobCmd : t.pc = .setNextOffset ∨ t.pc = .postNext → b.cmd = .job
  jobOffset : t.pc = .postNext → b.dataoffset = t.dataoffset
  stopCmd : t.pc = .stopPostNext → b.cmd = .stop
  cmdRead : u.pc = .readOffset → u.cmd = b.cmd
  stop : t.pc.stopSent = true ↔ (b.unread u = true ∧ b.cmd = .stop) ∨ u.stopRead = true
  stopLast : u.stopRead = true → b.newCmd = 0

/-! ## Control flow of the two ends -/

def Pc.entersSend : Pc → Bool
  | .waitNext | .setNextCmd | .setNextOffset | .stopWaitNext | .stopSetNextCmd => true
  | _ => false

theorem body_sends {meth : Method} {pc : Pc} (cond : Bool) (h : meth.hasPc pc = true) :
    (meth.body cond pc).sends = pc.entersSend := by
  cases meth <;> cases pc <;> cases cond <;> first | rfl | cases h

theorem body_stopSent {meth : Method} {pc : Pc} (cond : Bool) (h : meth.hasPc pc = true)
    (hm : meth ≠ .finalization) :
    (meth.body cond pc).stopSent = (pc.stopSent || pc = .stopPostNext) := by
  cases meth <;> cases pc <;> cases cond <;> first | rfl | exact absurd rfl hm | cases h

def Pc.entersRead : Pc → Bool
  | .waitNewCmd | .readCmd | .readOffset => true
  | _ => false

theorem body_reads {meth : Method} {pc : Pc} (cond : Bool) (h : meth.hasPc pc = true) :
    (meth.body cond pc).reads = pc.entersRead := by
  cases meth <;> cases pc <;> cases cond <;> first | rfl | cases h

theorem threadStep_some {meth : Method} {v w : View} (h : threadStep meth v = some w) :
    ∃ e, exec v = some e ∧ w = e.goto (meth.body (test v) v.me.thread.pc) := by
  obtain ⟨e, he, hw⟩ := Option.map_eq_some_iff.mp h
  exact ⟨e, he, hw.symm⟩

@[simp] theorem View.goto_pc (v : View) (pc : Pc) : (v.goto pc).me.thread.pc = pc := rfl
@[simp] theorem View.goto_next (v : View) (pc : Pc) : (v.goto pc).next = v.next := rfl
@[simp] theorem View.goto_box (v : View) (pc : Pc) : (v.goto pc).me.box = v.me.box := rfl
@[simp] theorem View.goto_proc (v : View) (pc : Pc) : (v.goto pc).me.proc = v.me.proc := rfl
@[simp] theorem View.goto_cmd (v : View) (pc : Pc) :
    (v.goto pc).me.thread.cmd = v.me.thread.cmd := rfl
@[simp] theorem View.goto_dataoffset (v : View) (pc : Pc) :
    (v.goto pc).me.thread.dataoffset = v.me.thread.dataoffset := rfl

theorem semWait_some {n k : Nat} (h : semWait n = some k) : n = k + 1 := by
  unfold semWait at h
  split at h
  · simp only [Option.some.injEq] at h; omega
  · cases h

/-- Statements on the mailbox of the next module. -/
def Pc.touchesNext (pc : Pc) : Bool := pc.sends || pc.entersSend

theorem exec_next {v e : View} (he : exec v = some e) (hp : v.me.thread.pc.touchesNext = false) :
    e.next = v.next := by
  unfold exec at he
  cases hpc : v.me.thread.pc <;> simp only [hpc, Option.map_eq_some_iff, Option.some.injEq] at he hp
  case popRing =>
    split at he
    · cases he
    · cases he; rfl
  all_goals first
    | (subst he; rfl)
    | (obtain ⟨n, -, rfl⟩ := he; rfl)
    | exact absurd hp (by decide)
    | cases he

theorem stopSent_of_sends {pc : Pc} (h : pc.sends = true) : pc.stopSent = false := by
  cases pc <;> first | rfl | cases h

theorem unread_of_not_reads {b : Mailbox} {u : Thread} (hr : u.pc.reads = false) :
    b.unread u = decide (0 < b.newCmd) := by
  unfold Mailbox.unread
  cases hp : u.pc <;> simp_all [Pc.reads]

namespace Link

variable {t t' u u' : Thread} {b b' : Mailbox}

/-- While the upstream thread holds the mailbox, it is empty and nobody reads it. -/
theorem sending (h : Link t b u) (hs : t.pc.sends = true) :
    b.result = 0 ∧ b.newCmd = 0 ∧ u.pc.reads = false ∧ u.stopRead = false := by
  have hsem := h.sem
  rw [hs] at hsem
  have hstop : u.stopRead = false := by
    cases hu : u.stopRead
    · rfl
    · have := h.stop.mpr (Or.inr hu)
      rw [stopSent_of_sends hs] at this
      cases this
  cases hr : u.pc.reads <;> simp [hr] at hsem ⊢
  exact ⟨by omega, by omega, hstop⟩

/-- A step of the upstream thread outside the mailbox. -/
theorem quiet (h : Link t b u) (hs : t.pc.sends = false) (hs' : t'.pc.sends = false)
    (hstop : t'.pc.stopSent = t.pc.stopSent) : Link t' b u where
  sem := by rw [hs']; simpa [hs] using h.sem
  jobCmd := by rintro (hp | hp) <;> simp [hp, Pc.sends] at hs'
  jobOffset hp := by simp [hp, Pc.sends] at hs'
  stopCmd hp := by simp [hp, Pc.sends] at hs'
  cmdRead := h.cmdRead
  stop := by rw [hstop]; exact h.stop
  stopLast := h.stopLast

/-- `sem_wait(&module->next->result)`. -/
theorem take {n : Nat} (h : Link t b u) (hs : t.pc.sends = false) (hstop : t.pc.stopSent = false)
    (hn : b.result = n + 1) (hp : t'.pc = .setNextCmd ∨ t'.pc = .stopSetNextCmd) :
    Link t' { b with result := n } u where
  sem := by
    have hsem := h.sem
    rw [hs, hn] at hsem
    rcases hp with hp | hp <;> simp only [hp, Pc.sends, Bool.toNat_true, Bool.toNat_false] at hsem ⊢ <;> omega
  jobCmd := by rcases hp with hp | hp <;> simp [hp]
  jobOffset := by rcases hp with hp | hp <;> simp [hp]
  stopCmd := by rcases hp with hp | hp <;> simp [hp]
  cmdRead := h.cmdRead
  stop := by
    have : t'.pc.stopSent = t.pc.stopSent := by
      rw [hstop]; rcases hp with hp | hp <;> rw [hp] <;> rfl
    rw [this]; exact h.stop
  stopLast := h.stopLast

/-- A write to the mailbox between the wait and the post. -/
theorem write (h : Link t b u) (hs : t.pc.sends = true) (hs' : t'.pc.sends = true)
    (hr : b'.result = b.result) (hn : b'.newCmd = b.newCmd)
    (hjob : t'.pc = .setNextOffset ∨ t'.pc = .postNext → b'.cmd = .job)
    (hoff : t'.pc = .postNext → b'.dataoffset = t'.dataoffset)
    (hcmd : t'.pc = .stopPostNext → b'.cmd = .stop) : Link t' b' u := by
  obtain ⟨hr0, hn0, hread, hlast⟩ := h.sending hs
  refine ⟨?_, hjob, hoff, hcmd, ?_, ?_, ?_⟩
  · rw [hr, hn, hs', hread, hr0, hn0]; rfl
  · intro hp
    rw [hp] at hread
    cases hread
  · rw [stopSent_of_sends hs', unread_of_not_reads hread, hn, hn0, hlast]
    simp
  · intro _; rw [hn, hn0]

/-- `sem_post(&module->next->new_cmd)`. -/
theorem post (h : Link t b u) (hs : t.pc.sends = true) (hs' : t'.pc.sends = false)
    (hcmd : t'.pc.stopSent = true ↔ b.cmd = .stop) :
    Link t' { b with newCmd := b.newCmd + 1 } u := by
  obtain ⟨hr0, hn0, hread, hlast⟩ := h.sending hs
  refine ⟨?_, ?_, ?_, ?_, ?_, ?_, ?_⟩
  · simp [hs', hread, hr0, hn0]
  · rintro (hp | hp) <;> rw [hp] at hs' <;> cases hs'
  · intro hp; rw [hp] at hs'; cases hs'
  · intro hp; rw [hp] at hs'; cases hs'
  · intro hp; rw [hp] at hread; cases hread
  · rw [hcmd, unread_of_not_reads hread, hlast]
    simp
  · intro hu; rw [hlast] at hu; cases hu

end Link

/-- The statements on the next mailbox and what follows them. -/
theorem body_touchesNext {meth : Method} {pc : Pc} (cond : Bool) (h : meth.hasPc pc = true)
    (ht : pc.touchesNext = true) :
    (pc = .waitNext ∧ meth.body cond pc = .setNextCmd) ∨
    (pc = .setNextCmd ∧ meth.body cond pc = .setNextOffset) ∨
    (pc = .setNextOffset ∧ meth.body cond pc = .postNext) ∨
    (pc = .postNext ∧ meth.body cond pc = meth.loopEntry) ∨
    (pc = .stopWaitNext ∧ meth.body cond pc = .stopSetNextCmd) ∨
    (pc = .stopSetNextCmd ∧ meth.body cond pc = .stopPostNext) ∨
    (pc = .stopPostNext ∧ (meth.body cond pc).sends = false ∧
      (meth.body cond pc).stopSent = true) := by
  cases meth <;> cases pc <;> first
    | (cases h; done)
    | (cases ht; done)
    | simp [Method.body, initialThread, sourceThread, processThread, Method.loopEntry, Pc.sends,
        Pc.stopSent]

theorem loopEntry_sends (meth : Method) : meth.loopEntry.sends = false := by cases meth <;> rfl

theorem loopEntry_stopSent (meth : Method) : meth.loopEntry.stopSent = false := by
  cases meth <;> rfl

theorem Link.upstream {meth : Method} {v w : View} {u : Thread}
    (h : Link v.me.thread v.next u) (hs : threadStep meth v = some w)
    (hpc : meth.hasPc v.me.thread.pc = true) (hm : meth ≠ .finalization) :
    Link w.me.thread w.next u := by
  obtain ⟨e, he, rfl⟩ := threadStep_some hs
  cases ht : v.me.thread.pc.touchesNext
  case false =>
    have hout := ht
    simp only [Pc.touchesNext, Bool.or_eq_false_iff] at hout
    rw [View.goto_next, exec_next he ht]
    apply h.quiet hout.1
    · rw [View.goto_pc, body_sends _ hpc, hout.2]
    · rw [View.goto_pc, body_stopSent _ hpc hm]
      cases hp : v.me.thread.pc <;> simp_all [Pc.sends]
  case true =>
    unfold exec at he
    rcases body_touchesNext (test v) hpc ht with ⟨hp, hb⟩ | ⟨hp, hb⟩ | ⟨hp, hb⟩ | ⟨hp, hb⟩ |
        ⟨hp, hb⟩ | ⟨hp, hb⟩ | ⟨hp, hb⟩ <;>
      simp only [hp, Option.map_eq_some_iff, Option.some.injEq] at he <;> rw [hp] at hb
    · obtain ⟨n, hn, rfl⟩ := he
      exact h.take (by rw [hp]; rfl) (by rw [hp]; rfl) (semWait_some hn) (Or.inl (by simp [hp, hb]))
    · subst he
      exact h.write (by rw [hp]; rfl) (by simp [hp, hb, Pc.sends]) rfl rfl (fun _ => rfl)
        (by simp [hp, hb]) (by simp [hp, hb])
    · subst he
      exact h.write (by rw [hp]; rfl) (by simp [hp, hb, Pc.sends]) rfl rfl
        (fun _ => h.jobCmd (Or.inl hp)) (fun _ => rfl) (by simp [hp, hb])
    · subst he
      refine h.post (by rw [hp]; rfl) (by simp [hp, hb, loopEntry_sends]) ?_
      simp [hp, hb, loopEntry_stopSent, h.jobCmd (Or.inr hp)]
    · obtain ⟨n, hn, rfl⟩ := he
      exact h.take (by rw [hp]; rfl) (by rw [hp]; rfl) (semWait_some hn) (Or.inr (by simp [hp, hb]))
    · subst he
      exact h.write (by rw [hp]; rfl) (by simp [hp, hb, Pc.sends]) rfl rfl (by simp [hp, hb])
        (by simp [hp, hb]) (fun _ => rfl)
    · subst he
      refine h.post (by rw [hp]; rfl) (by simp [hp, hb]) ?_
      simp [hp, hb, h.stopCmd hp]

/-! ## The reading end -/

/-- Statements on the own mailbox. -/
def Pc.touchesBox (pc : Pc) : Bool := pc.reads || pc.entersRead

theorem exec_box {v e : View} (he : exec v = some e) (hp : v.me.thread.pc.touchesBox = false) :
    e.me.box = v.me.box := by
  unfold exec at he
  cases hpc : v.me.thread.pc <;> simp only [hpc, Option.map_eq_some_iff, Option.some.injEq] at he hp
  case popRing =>
    split at he
    · cases he
    · cases he; rfl
  case setState st => subst he; simp
  all_goals first
    | (subst he; rfl)
    | (obtain ⟨n, -, rfl⟩ := he; rfl)
    | exact absurd hp (by decide)
    | cases he

/-- A thread body that starts its loop at its mailbox. -/
def Method.readsBox : Method → Bool
  | .process | .finalization => true
  | _ => false

theorem body_touchesBox {meth : Method} {pc : Pc} (cond : Bool) (h : meth.hasPc pc = true)
    (ht : pc.touchesBox = true) :
    (pc = .waitNewCmd ∧ meth.body cond pc = .readCmd) ∨
    (pc = .readCmd ∧ meth.body cond pc = .readOffset) ∨
    (pc = .readOffset ∧ meth.body cond pc = .postResult) ∨
    (pc = .postResult ∧ meth.body cond pc = .testCmd) := by
  cases meth <;> cases pc <;> first
    | (cases h; done)
    | (cases ht; done)
    | simp [Method.body, processThread, finalizationThread]

/-- Outside the reads a thread leaves the loop only when it has seen the stop. -/
theorem body_stopPath {meth : Method} {pc : Pc} (cond : Bool) (h : meth.hasPc pc = true)
    (hm : meth.readsBox = true) (ht : pc.touchesBox = false) :
    (meth.body cond pc).stopPath = (pc.stopPath || (pc = .testCmd && cond)) ∧
      meth.body cond pc ≠ .postResult ∧ meth.body cond pc ≠ .testCmd := by
  cases meth <;> cases pc <;> cases cond <;> first
    | (cases h; done)
    | (cases ht; done)
    | (cases hm; done)
    | decide
    | simp [Method.body, finalizationThread, Pc.stopPath, Pc.stopSent]

namespace Link

variable {t u u' : Thread} {b : Mailbox}

/-- A step of the downstream thread outside the mailbox. -/
theorem quietDown (h : Link t b u) (hr : u.pc.reads = false) (hr' : u'.pc.reads = false)
    (hstop : u'.stopRead = u.stopRead) : Link t b u' where
  sem := by rw [hr']; simpa [hr] using h.sem
  jobCmd := h.jobCmd
  jobOffset := h.jobOffset
  stopCmd := h.stopCmd
  cmdRead hp := by rw [hp] at hr'; cases hr'
  stop := by rw [hstop, h.stop, unread_of_not_reads hr, unread_of_not_reads hr']
  stopLast hu := h.stopLast (hstop ▸ hu)

/-- `sem_wait(&module->new_cmd)`. -/
theorem waitNewCmd {n : Nat} (h : Link t b u) (hp : u.pc = .waitNewCmd) (hn : b.newCmd = n + 1)
    (hp' : u'.pc = .readCmd) : Link t { b with newCmd := n } u' where
  sem := by
    have hsem := h.sem
    simp only [hp, hp', hn, Pc.reads, Bool.toNat_true, Bool.toNat_false] at hsem ⊢
    omega
  jobCmd := h.jobCmd
  jobOffset := h.jobOffset
  stopCmd := h.stopCmd
  cmdRead := by simp [hp']
  stop := by
    rw [h.stop]
    simp [Mailbox.unread, Thread.stopRead, hp, hp', hn, Pc.stopPath, Pc.stopSent]
  stopLast hu := by simp [Thread.stopRead, hp', Pc.stopPath, Pc.stopSent] at hu

/-- `cmd = module->cmd`. -/
theorem readCmd (h : Link t b u) (hp : u.pc = .readCmd) (hp' : u'.pc = .readOffset)
    (hc : u'.cmd = b.cmd) : Link t b u' where
  sem := by
    have hsem := h.sem
    simp only [hp, hp', Pc.reads] at hsem ⊢
    exact hsem
  jobCmd := h.jobCmd
  jobOffset := h.jobOffset
  stopCmd := h.stopCmd
  cmdRead _ := hc
  stop := by
    rw [h.stop]
    simp [Mailbox.unread, Thread.stopRead, hp, hp', Pc.stopPath, Pc.stopSent]
  stopLast hu := by simp [Thread.stopRead, hp', Pc.stopPath, Pc.stopSent] at hu

/-- `dataoffset = module->dataoffset`: the command is read. -/
theorem readOffset (h : Link t b u) (hp : u.pc = .readOffset) (hp' : u'.pc = .postResult)
    (hc : u'.cmd = u.cmd) : Link t b u' := by
  have hsem := h.sem
  simp only [hp, Pc.reads, Bool.toNat_true] at hsem
  have hn : b.newCmd = 0 := by omega
  refine ⟨?_, h.jobCmd, h.jobOffset, h.stopCmd, by simp [hp'], ?_, fun _ => hn⟩
  · simp only [hp', Pc.reads, Bool.toNat_true]
    exact hsem
  · rw [h.stop, ← h.cmdRead hp, ← hc]
    simp [Mailbox.unread, Thread.stopRead, hp, hp', hn, Pc.stopPath, Pc.stopSent]

/-- `sem_post(&module->result)`. -/
theorem postResult (h : Link t b u) (hp : u.pc = .postResult) (hp' : u'.pc = .testCmd)
    (hc : u'.cmd = u.cmd) : Link t { b with result := b.result + 1 } u' where
  sem := by
    have hsem := h.sem
    simp only [hp, hp', Pc.reads, Bool.toNat_true, Bool.toNat_false] at hsem ⊢
    omega
  jobCmd := h.jobCmd
  jobOffset := h.jobOffset
  stopCmd := h.stopCmd
  cmdRead := by simp [hp']
  stop := by
    rw [h.stop]
    simp [Mailbox.unread, Thread.stopRead, hp, hp', hc, Pc.stopPath, Pc.stopSent]
  stopLast hu := by
    apply h.stopLast
    simpa [Thread.stopRead, hp, hp', hc, Pc.stopPath, Pc.stopSent] using hu

end Link

theorem Link.downstream {meth : Method} {v w : View} {t : Thread}
    (h : Link t v.me.box v.me.thread) (hs : threadStep meth v = some w)
    (hpc : meth.hasPc v.me.thread.pc = true) (hm : meth.readsBox = true) :
    Link t w.me.box w.me.thread := by
  obtain ⟨e, he, rfl⟩ := threadStep_some hs
  cases ht : v.me.thread.pc.touchesBox
  case false =>
    have hout := ht
    simp only [Pc.touchesBox, Bool.or_eq_false_iff] at hout
    rw [View.goto_box, exec_box he ht]
    obtain ⟨hpath, hnp, hnt⟩ := body_stopPath (test v) hpc hm ht
    apply h.quietDown hout.1
    · rw [View.goto_pc, body_reads _ hpc, hout.2]
    · have hnpr : v.me.thread.pc ≠ .postResult := by
        intro hp; rw [hp] at hout; cases hout.1
      simp only [Thread.stopRead, View.goto_pc, hpath, hnp, hnt, hnpr, decide_false, Bool.false_or,
        Bool.or_self, Bool.false_and, Bool.or_false]
      congr 1
      by_cases hp : v.me.thread.pc = .testCmd
      · simp [hp, test]
      · simp [hp]
  case true =>
    unfold exec at he
    rcases body_touchesBox (test v) hpc ht with ⟨hp, hb⟩ | ⟨hp, hb⟩ | ⟨hp, hb⟩ | ⟨hp, hb⟩ <;>
      simp only [hp, Option.map_eq_some_iff, Option.some.injEq] at he <;> rw [hp] at hb
    · obtain ⟨n, hn, rfl⟩ := he
      exact h.waitNewCmd hp (semWait_some hn) (by simp [hp, hb])
    · subst he
      exact h.readCmd hp (by simp [hp, hb]) rfl
    · subst he
      exact h.readOffset hp (by simp [hp, hb]) rfl
    · subst he
      exact h.postResult hp (by simp [hp, hb]) rfl

end DclProcessor.Pipeline
