import DclProcessor.Pipeline.Module

/-! The client process of a module, `pipeline_process`: it waits for a job,
answers it and posts the result, until it is told to stop or its action asks to
leave. -/

namespace DclProcessor.Pipeline

/-- What a client does with a job: the `cmd_result` it stores, and whether it
leaves its loop after posting the result. -/
structure Reply where
  cmdResult : Int
  leave : Bool
  deriving DecidableEq, Repr

/-- The reply of `pipeline_process` when `pipeline_action` reports `status`. -/
def actionReply (status : Int) : Reply :=
  if status = -1 then ⟨0, true⟩ else ⟨status, false⟩

/-- One step of the loop of `pipeline_process`. `r` is the reply to the job, and
is not used for `PROCESS_CMD_STOP`. -/
def clientStep (r : Reply) (p : ProcInfo) (c : Client) : Option (ProcInfo × Client) :=
  match c.pc with
  | .waitJob =>
      if 0 < p.semJob then some ({ p with semJob := p.semJob - 1 }, { c with pc := .dispatch })
      else none
  | .dispatch =>
      match p.cmd with
      | .stop => some ({ p with cmdResult := 0 }, ⟨.postResult, true⟩)
      | .job => some ({ p with cmdResult := r.cmdResult }, ⟨.postResult, c.exitFlag || r.leave⟩)
  | .postResult =>
      some ({ p with semResult := p.semResult + 1 },
        { c with pc := if c.exitFlag then .left else .waitJob })
  | .left => none

end DclProcessor.Pipeline
