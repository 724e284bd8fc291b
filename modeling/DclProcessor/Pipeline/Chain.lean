import Mathlib.Algebra.Ring.Nat
import Mathlib.Logic.Function.Basic
import DclProcessor.Library.Transition
import DclProcessor.Pipeline.Server

/-!
The running pipeline: a linear chain of modules after the startup loop of
`pipeline_thread`, module `i` linked to module `i + 1`. Every statement of every
module thread and client, every call of the owner and every write of the exit
flag is one action, and any order of actions is a run.
-/

namespace DclProcessor.Pipeline

open Transition

/-- The thread body of the first module. -/
inductive Head
  | initial | source
  deriving DecidableEq, Repr

def Head.method : Head → Method
  | .initial => .initial
  | .source => .source

/-- A chain: the head, `middle` modules running `process_thread` and one running
`finalization_thread`, over `dataCnt` chunks of `dataSize` bytes from `base`. -/
structure Chain where
  head : Head
  middle : Nat
  base : Nat
  dataCnt : Nat
  dataSize : Nat
  /-- Process table index of each module, which `initial_thread` looks at. -/
  idx : Nat → Int

namespace Chain

/-- Number of modules. -/
def cnt (c : Chain) : Nat := c.middle + 2

def method (c : Chain) (i : Nat) : Method :=
  if i = 0 then c.head.method else if i ≤ c.middle then .process else .finalization

/-- What `pipeline_thread` writes to the buffer of the data ring. -/
def offsets (c : Chain) : List Nat :=
  (List.range c.dataCnt).map fun i => (c.base + i * c.dataSize) % 2 ^ 64

end Chain

/-- The source and process threads have a client process. -/
def Method.hasClient : Method → Bool
  | .source | .process => true
  | .initial | .finalization => false

structure Sys where
  mods : Nat → Module
  ring : List Nat
  exitFlag : Bool
  plState : PlState

/-- A module whose thread is about to enter its main loop, as
`pipeline_module_init`, `process_info_init` and the startup loop leave it. -/
def startedModule (meth : Method) (idx : Int) : Module where
  idx := idx
  state := .init
  box := ⟨0, 1, .job, 0⟩
  proc := ⟨0, 0, .stop, 0, 0⟩
  thread := ⟨meth.loopEntry, .stop, 0⟩
  client := ⟨if meth.hasClient then .waitJob else .left, false⟩

/-- The state after the startup loop, all modules started. -/
def Chain.started (c : Chain) : Sys where
  mods i := startedModule (c.method i) (c.idx i)
  ring := c.offsets
  exitFlag := false
  plState := .init

namespace Sys

def view (s : Sys) (i : Nat) : View where
  me := s.mods i
  next := (s.mods (i + 1)).box
  nextIdx := (s.mods (i + 1)).idx
  ring := s.ring
  exitFlag := s.exitFlag

def setMod (s : Sys) (i : Nat) (m : Module) : Sys := { s with mods := Function.update s.mods i m }

/-- Write back what thread `i` has changed. -/
def putView (s : Sys) (i : Nat) (v : View) : Sys :=
  { (s.setMod (i + 1) { s.mods (i + 1) with box := v.next }).setMod i v.me with ring := v.ring }

/-- `pipeline_modules_set_state`. -/
def setStates (s : Sys) (st : MdState) : Sys := { s with mods := fun i => (s.mods i).setState st }

end Sys

inductive OwnerCall
  | start | live | pause | stop
  deriving DecidableEq, Repr

/-- `pipeline_start`, `pipeline_live`, `pipeline_pause` and `pipeline_stop`. They
look at `pl->state`, which after the startup loop only they write;
`pipeline_start` waits for `PL_STATE_INIT`. Of the module states they write one
after the other, only the head's is ever read, so a call is one step. -/
def Sys.call (s : Sys) : OwnerCall → Option Sys
  | .start => if s.plState = .init then some { s.setStates .pause with plState := .pause } else none
  | .live => some (if s.plState = .pause then { s.setStates .live with plState := .live } else s)
  | .pause => some (if s.plState = .live then { s.setStates .pause with plState := .pause } else s)
  | .stop => some { s.setStates .stop with plState := .stop }

/-- `thread i`: the thread of module `i` executes its next statement; `client i r`:
its client makes a step, answering a job with `r`; `owner`: a call of the owner;
`raiseExit`: somebody writes 1 to the exit flag. -/
inductive Action
  | thread (i : Nat)
  | client (i : Nat) (r : Reply)
  | owner (call : OwnerCall)
  | raiseExit

def Chain.step (c : Chain) (s : Sys) : Action → Option Sys
  | .thread i =>
      if i < c.cnt then (threadStep (c.method i) (s.view i)).map (s.putView i) else none
  | .client i r =>
      if i < c.cnt then
        (clientStep r (s.mods i).proc (s.mods i).client).map fun pc =>
          s.setMod i { s.mods i with proc := pc.1, client := pc.2 }
      else none
  | .owner call => s.call call
  | .raiseExit => some { s with exitFlag := true }

/-- A command as a mailbox carries it: `PROCESS_CMD_STOP` comes without data. -/
inductive Msg
  | stop
  | job (dataoffset : Nat)
  deriving DecidableEq, Repr

def msg : Cmd → Nat → Msg
  | .stop, _ => .stop
  | .job, d => .job d

/-- `wrote i m`: module `i` has posted `m` in the mailbox of module `i + 1`;
`read i m`: module `i` has read `m` from its own; `answered i d r`: the client of
module `i` has returned `cmd_result = r` for the job on chunk `d`; `returned i d`:
module `i` has pushed chunk `d` to the data ring. -/
inductive Event
  | wrote (i : Nat) (m : Msg)
  | read (i : Nat) (m : Msg)
  | answered (i : Nat) (dataoffset : Nat) (cmdResult : Int)
  | returned (i : Nat) (dataoffset : Nat)
  deriving DecidableEq, Repr

def threadEvents (i : Nat) (v : View) : List Event :=
  match v.me.thread.pc with
  | .postNext | .stopPostNext => [.wrote i (msg v.next.cmd v.next.dataoffset)]
  | .readOffset => [.read i (msg v.me.thread.cmd v.me.box.dataoffset)]
  | .dropChunk | .returnChunk => [.returned i v.me.thread.dataoffset]
  | _ => []

def clientEvents (i : Nat) (r : Reply) (m : Module) : List Event :=
  match m.client.pc, m.proc.cmd with
  | .dispatch, .job => [.answered i m.proc.cmdOffs r.cmdResult]
  | _, _ => []

def Chain.emit (s : Sys) : Action → List Event
  | .thread i => threadEvents i (s.view i)
  | .client i r => clientEvents i r (s.mods i)
  | _ => []

def Chain.system (c : Chain) : System Sys Action Event where
  step := c.step
  emit := Chain.emit

/-- Runs of the chain from the started state. -/
abbrev Chain.Run (c : Chain) (ok : Action → Prop) (es : List Event) (s : Sys) : Prop :=
  Trace c.system ok c.started es s

/-! ## A run of three modules -/

/-- A source, one process module and a finalization, over two chunks of 64 bytes. -/
def threeModules : Chain := ⟨.source, 1, 0, 2, 64, fun i => i + 2⟩

/-- The first chunk goes to the mailbox of the process module, then the exit flag
is raised. -/
def firstChunk : List Action :=
  [.owner .start, .owner .live] ++ List.replicate 7 (.thread 0) ++
    List.replicate 3 (.client 0 ⟨0, false⟩) ++ List.replicate 5 (.thread 0) ++ [.raiseExit]

theorem firstChunk_runs :
    (threeModules.system.run firstChunk threeModules.started).isSome = true := by decide

/-- The chunk goes on to the finalization and the stop command follows it. -/
def drained : List Action :=
  firstChunk ++ List.replicate 8 (.thread 1) ++ List.replicate 3 (.client 1 ⟨0, false⟩) ++
    List.replicate 6 (.thread 1) ++ List.replicate 6 (.thread 2) ++
    List.replicate 6 (.thread 0) ++ List.replicate 3 (.client 0 ⟨0, false⟩) ++
    List.replicate 2 (.thread 0) ++ List.replicate 10 (.thread 1) ++
    List.replicate 3 (.client 1 ⟨0, false⟩) ++ [.thread 1] ++ List.replicate 6 (.thread 2)

theorem drained_runs : (threeModules.system.run drained threeModules.started).isSome = true := by
  decide

end DclProcessor.Pipeline
