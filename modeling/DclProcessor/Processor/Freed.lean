import DclProcessor.Processor.Works

/-!
The objects that `last_action` frees are those that `first_action` has taken from the
collector, each once and in the order in which they were made.
-/

namespace DclProcessor.Processor

open Transition Pipeline Collector

/-- The names of the objects that `last_action` has freed. -/
def freed (L : Line) (es : List LineEvent) : List String :=
  (worked (dataEvents es) L.chain.middle).map fun w => w.2.2.1

namespace Line

variable {L : Line} {s s' : State} {es : List LineEvent} {a : Act}

/-! ## The names of the source -/

/-- `first_action` takes what is in `collector->data`; the source of the collector, which then
makes `reads` steps, and the collector come to the next boundary. -/
def takes (reads : Nat) : List Act :=
  List.replicate 2 (.client 0) ++ List.replicate 5 (.action 0) ++ [.client 0] ++
    List.replicate 5 .collector ++ List.replicate reads (.source 0 (.frame true)) ++
    List.replicate 6 .collector

/-- A job of module `i`, after which its thread makes `k` steps. -/
def works (i k : Nat) : List Act :=
  List.replicate 8 (.thread i) ++ List.replicate 2 (.client i) ++ [.action i, .client i] ++
    List.replicate k (.thread i)

/-- What module `i` does from its `PROCESS_CMD_STOP` on. -/
def leaves (i : Nat) : List Act :=
  List.replicate 10 (.thread i) ++ List.replicate 3 (.client i) ++ [.thread i]

end Line

end DclProcessor.Processor
