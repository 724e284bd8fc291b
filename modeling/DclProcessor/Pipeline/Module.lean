import Mathlib.Data.Int.Notation

/-! The data of one pipeline module: the fields of `struct pipeline_module` that
its thread and its neighbours use, its slot of the process table, the local
variables of its thread, and its client process. -/

namespace DclProcessor.Pipeline

/-- `PROCESS_CMD_STOP` and `PROCESS_CMD_JOB`. -/
inductive Cmd
  | stop | job
  deriving DecidableEq, Repr

/-- `enum MD_STATE`; no code of the pipeline sets a percentage of work. -/
inductive MdState
  | unknown | error | init | live | pause | stop
  deriving DecidableEq, Repr

/-- `enum PL_STATE`. -/
inductive PlState
  | unknown | error | init | live | pause | stop
  deriving DecidableEq, Repr

/-- The four thread bodies a `thread_method` can point to. -/
inductive Method
  | initial | source | process | finalization
  deriving DecidableEq, Repr

/-- Program counter of a module thread: the statement of its main loop, or of
the code after the loop (prefix `stop`), that it executes next.

* `testExit`, `testStop`, `testLive`: the tests of `*(module->exit_flag)` and of
  `module->state` in the loops of the heads; `loadCmd`: `cmd = module->cmd`;
  `popRing`: `dataoffset = ring_buffer_pop(module->data_ring)`;
* `waitNewCmd` to `testCmd`: `sem_wait(&module->new_cmd)`, the reads of `cmd` and
  `dataoffset`, `sem_post(&module->result)`, `if (cmd == PROCESS_CMD_STOP)`;
* `setProcCmd` to `waitJobResult`: the job is written to `proc_info`,
  `sem_post(sem_job)`, `sem_wait(sem_result)`; `testCmdResult`:
  `if (module->proc_info->cmd_result != 0)`, with the push `dropChunk`;
* `waitNext` to `postNext`: `sem_wait(&module->next->result)`, the writes of
  `next->cmd` and `next->dataoffset`, `sem_post(&module->next->new_cmd)`;
* `returnChunk`: the `ring_buffer_push` of `finalization_thread`;
* `stopTestIdx`: `if (module->next->idx > 1)` of `initial_thread`;
* `setState`: `pipeline_module_set_state`. -/
inductive Pc
  | testExit | testStop | testLive | loadCmd | popRing
  | waitNewCmd | readCmd | readOffset | postResult | testCmd
  | setProcCmd | setProcOffs | postJob | waitJobResult | testCmdResult | dropChunk
  | waitNext | setNextCmd | setNextOffset | postNext | returnChunk
  | stopWaitNext | stopSetNextCmd | stopPostNext | stopTestIdx
  | stopSetProcCmd | stopPostJob | stopWaitJobResult | setState (st : MdState) | ended
  deriving DecidableEq, Repr

/-- The one-slot mailbox of a module, guarded by two semaphores. -/
structure Mailbox where
  newCmd : Nat
  result : Nat
  cmd : Cmd
  dataoffset : Nat
  deriving DecidableEq, Repr

/-- `struct process_info`, the fields shared with the client process. -/
structure ProcInfo where
  semJob : Nat
  semResult : Nat
  cmd : Cmd
  cmdOffs : Nat
  cmdResult : Int
  deriving DecidableEq, Repr

/-- Local variables of a module thread. -/
structure Thread where
  pc : Pc
  cmd : Cmd
  dataoffset : Nat
  deriving DecidableEq, Repr

/-- Where a client is in the loop of `pipeline_process`. -/
inductive ClientPc
  | waitJob | dispatch | postResult | left
  deriving DecidableEq, Repr

structure Client where
  pc : ClientPc
  exitFlag : Bool
  deriving DecidableEq, Repr

structure Module where
  idx : Int
  state : MdState
  box : Mailbox
  proc : ProcInfo
  thread : Thread
  client : Client
  deriving DecidableEq, Repr

/-- `pipeline_module_set_state`: an error state is final. -/
def Module.setState (m : Module) (st : MdState) : Module :=
  if m.state = .error then m else { m with state := st }

/-- `pipeline_module_destroy`, the fields that are read after it. -/
def Module.destroy (m : Module) : Module := { m with idx := -250, state := .unknown }

theorem Module.setState_eq (m : Module) (st : MdState) :
    ∃ st', m.setState st = { m with state := st' } := by
  unfold Module.setState
  split
  · exact ⟨m.state, rfl⟩
  · exact ⟨st, rfl⟩

@[simp] theorem Module.setState_box (m : Module) (st : MdState) : (m.setState st).box = m.box := by
  unfold Module.setState; split <;> rfl

@[simp] theorem Module.setState_proc (m : Module) (st : MdState) :
    (m.setState st).proc = m.proc := by
  unfold Module.setState; split <;> rfl

@[simp] theorem Module.setState_thread (m : Module) (st : MdState) :
    (m.setState st).thread = m.thread := by
  unfold Module.setState; split <;> rfl

@[simp] theorem Module.setState_client (m : Module) (st : MdState) :
    (m.setState st).client = m.client := by
  unfold Module.setState; split <;> rfl

@[simp] theorem Module.setState_idx (m : Module) (st : MdState) : (m.setState st).idx = m.idx := by
  unfold Module.setState; split <;> rfl

end DclProcessor.Pipeline
