import DclProcessor.Processor.Line

/-!
What the actions of a line have done in a run: the names that `first_action` takes come in the
order in which they are generated, and the other modules leave in their chunks what their
actions make of the names that they find there.
-/

namespace DclProcessor.Processor

open Transition Pipeline Collector

namespace Line

variable {L : Line} {s s' : State} {es : List LineEvent} {a : Act}

end Line

end DclProcessor.Processor
