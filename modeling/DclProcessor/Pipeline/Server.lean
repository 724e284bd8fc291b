import DclProcessor.Pipeline.Client

/-!
The module threads of the server process. `exec` is the effect of one statement
on what a thread sees; it is common to the four thread bodies, which differ in
the order of their statements (`initialThread`, `sourceThread`, `processThread`,
`finalizationThread`).
-/

namespace DclProcessor.Pipeline

/-- What a module thread reads and writes: its own module, the mailbox and index
of the next one, the data ring and the exit flag. -/
structure View where
  me : Module
  next : Mailbox
  nextIdx : Int
  ring : List Nat
  exitFlag : Bool

namespace View

def setThread (v : View) (t : Thread) : View := { v with me := { v.me with thread := t } }

def setProc (v : View) (p : ProcInfo) : View := { v with me := { v.me with proc := p } }

def setBox (v : View) (b : Mailbox) : View := { v with me := { v.me with box := b } }

def goto (v : View) (pc : Pc) : View := v.setThread { v.me.thread with pc := pc }

end View

/-- `sem_wait` on `n`: blocked (`none`) at zero. -/
def semWait (n : Nat) : Option Nat := if 0 < n then some (n - 1) else none

/-- Effect of the statement at the program counter, without the jump to the next
one; `none` when the statement blocks. -/
def exec (v : View) : Option View :=
  let t := v.me.thread
  let b := v.me.box
  let p := v.me.proc
  match t.pc with
  | .testExit | .testStop | .testLive | .testCmd | .testCmdResult | .stopTestIdx => some v
  | .loadCmd | .readCmd => some (v.setThread { t with cmd := b.cmd })
  | .popRing =>
      match v.ring with
      | [] => none
      | d :: ring => some { v.setThread { t with dataoffset := d } with ring := ring }
  | .waitNewCmd => (semWait b.newCmd).map fun n => v.setBox { b with newCmd := n }
  | .readOffset => some (v.setThread { t with dataoffset := b.dataoffset })
  | .postResult => some (v.setBox { b with result := b.result + 1 })
  | .setProcCmd => some (v.setProc { p with cmd := t.cmd })
  | .setProcOffs => some (v.setProc { p with cmdOffs := t.dataoffset })
  | .postJob | .stopPostJob => some (v.setProc { p with semJob := p.semJob + 1 })
  | .waitJobResult | .stopWaitJobResult =>
      (semWait p.semResult).map fun n => v.setProc { p with semResult := n }
  | .dropChunk | .returnChunk => some { v with ring := v.ring ++ [t.dataoffset] }
  | .waitNext | .stopWaitNext =>
      (semWait v.next.result).map fun n => { v with next := { v.next with result := n } }
  | .setNextCmd => some { v with next := { v.next with cmd := .job } }
  | .setNextOffset => some { v with next := { v.next with dataoffset := t.dataoffset } }
  | .postNext | .stopPostNext => some { v with next := { v.next with newCmd := v.next.newCmd + 1 } }
  | .stopSetNextCmd => some { v with next := { v.next with cmd := .stop } }
  | .stopSetProcCmd => some (v.setProc { p with cmd := .stop })
  | .setState st => some { v with me := v.me.setState st }
  | .ended => none

/-- Value of the condition tested at the program counter. -/
def test (v : View) : Bool :=
  match v.me.thread.pc with
  | .testExit => v.exitFlag
  | .testStop => v.me.state = .stop
  | .testLive => v.me.state ≠ .live
  | .testCmd => v.me.thread.cmd = .stop
  | .testCmdResult => v.me.proc.cmdResult ≠ 0
  | .stopTestIdx => v.nextIdx > 1
  | _ => false

/-- `initial_thread`: the statement after the current one. `cond` is the value of
the condition, where the current statement tests one. -/
def initialThread (cond : Bool) : Pc → Pc
  | .testExit => if cond then .stopWaitNext else .testStop
  | .testStop => if cond then .stopWaitNext else .testLive
  | .testLive => if cond then .testExit else .loadCmd
  | .loadCmd => .popRing
  | .popRing => .setProcCmd
  | .setProcCmd => .setProcOffs
  | .setProcOffs => .waitNext
  | .waitNext => .setNextCmd
  | .setNextCmd => .setNextOffset
  | .setNextOffset => .postNext
  | .postNext => .testExit
  | .stopWaitNext => .stopSetNextCmd
  | .stopSetNextCmd => .stopPostNext
  | .stopPostNext => .stopTestIdx
  | .stopTestIdx => if cond then .stopSetProcCmd else .setState .stop
  | .stopSetProcCmd => .stopPostJob
  | .stopPostJob => .stopWaitJobResult
  | .stopWaitJobResult => .setState .stop
  | _ => .ended

/-- `source_thread`. -/
def sourceThread (cond : Bool) : Pc → Pc
  | .testExit => if cond then .stopWaitNext else .testLive
  | .testLive => if cond then .testExit else .loadCmd
  | .loadCmd => .popRing
  | .popRing => .setProcCmd
  | .setProcCmd => .setProcOffs
  | .setProcOffs => .postJob
  | .postJob => .waitJobResult
  | .waitJobResult => .waitNext
  | .waitNext => .setNextCmd
  | .setNextCmd => .setNextOffset
  | .setNextOffset => .postNext
  | .postNext => .testExit
  | .stopWaitNext => .stopSetNextCmd
  | .stopSetNextCmd => .stopPostNext
  | .stopPostNext => .stopSetProcCmd
  | .stopSetProcCmd => .stopPostJob
  | .stopPostJob => .stopWaitJobResult
  | .stopWaitJobResult => .setState .init
  | _ => .ended

/-- `process_thread`. -/
def processThread (cond : Bool) : Pc → Pc
  | .waitNewCmd => .readCmd
  | .readCmd => .readOffset
  | .readOffset => .postResult
  | .postResult => .testCmd
  | .testCmd => if cond then .stopWaitNext else .setProcCmd
  | .setProcCmd => .setProcOffs
  | .setProcOffs => .postJob
  | .postJob => .waitJobResult
  | .waitJobResult => .testCmdResult
  | .testCmdResult => if cond then .dropChunk else .waitNext
  | .dropChunk => .waitNewCmd
  | .waitNext => .setNextCmd
  | .setNextCmd => .setNextOffset
  | .setNextOffset => .postNext
  | .postNext => .waitNewCmd
  | .stopWaitNext => .stopSetNextCmd
  | .stopSetNextCmd => .stopPostNext
  | .stopPostNext => .stopSetProcCmd
  | .stopSetProcCmd => .stopPostJob
  | .stopPostJob => .stopWaitJobResult
  | _ => .ended

/-- `finalization_thread`. -/
def finalizationThread (cond : Bool) : Pc → Pc
  | .waitNewCmd => .readCmd
  | .readCmd => .readOffset
  | .readOffset => .postResult
  | .postResult => .testCmd
  | .testCmd => if cond then .setState .init else .returnChunk
  | .returnChunk => .waitNewCmd
  | _ => .ended

def Method.body : Method → Bool → Pc → Pc
  | .initial => initialThread
  | .source => sourceThread
  | .process => processThread
  | .finalization => finalizationThread

/-- One step of a module thread: the statement and the jump after it. -/
def threadStep (meth : Method) (v : View) : Option View :=
  (exec v).map fun w => w.goto (meth.body (test v) v.me.thread.pc)

/-- First statement of the main loop. -/
def Method.loopEntry : Method → Pc
  | .initial | .source => .testExit
  | .process | .finalization => .waitNewCmd

/-- Statements that occur in a thread body. -/
def Method.hasPc : Method → Pc → Bool
  | .initial, pc => match pc with
      | .testExit | .testStop | .testLive | .loadCmd | .popRing | .setProcCmd | .setProcOffs
      | .waitNext | .setNextCmd | .setNextOffset | .postNext | .stopWaitNext | .stopSetNextCmd
      | .stopPostNext | .stopTestIdx | .stopSetProcCmd | .stopPostJob | .stopWaitJobResult
      | .setState .stop | .ended => true
      | _ => false
  | .source, pc => match pc with
      | .testExit | .testLive | .loadCmd | .popRing | .setProcCmd | .setProcOffs | .postJob
      | .waitJobResult | .waitNext | .setNextCmd | .setNextOffset | .postNext | .stopWaitNext
      | .stopSetNextCmd | .stopPostNext | .stopSetProcCmd | .stopPostJob | .stopWaitJobResult
      | .setState .init | .ended => true
      | _ => false
  | .process, pc => match pc with
      | .waitNewCmd | .readCmd | .readOffset | .postResult | .testCmd | .setProcCmd | .setProcOffs
      | .postJob | .waitJobResult | .testCmdResult | .dropChunk | .waitNext | .setNextCmd
      | .setNextOffset | .postNext | .stopWaitNext | .stopSetNextCmd | .stopPostNext
      | .stopSetProcCmd | .stopPostJob | .stopWaitJobResult | .ended => true
      | _ => false
  | .finalization, pc => match pc with
      | .waitNewCmd | .readCmd | .readOffset | .postResult | .testCmd | .returnChunk
      | .setState .init | .ended => true
      | _ => false

theorem hasPc_loopEntry (meth : Method) : meth.hasPc meth.loopEntry = true := by
  cases meth <;> rfl

theorem hasPc_body (meth : Method) (cond : Bool) (pc : Pc) :
    meth.hasPc (meth.body cond pc) = true := by
  cases meth <;> cases pc <;> cases cond <;> rfl

end DclProcessor.Pipeline
