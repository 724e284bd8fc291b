import DclProcessor.Pipeline.Transport

/-!
What the source finds in the chunks that come back. `finalization_thread` clears a chunk before
it returns it, `process_thread` returns the chunk of a rejected job as its client has left it.
-/

namespace DclProcessor.Pipeline

open Transition Stage

/-- The chunk of a rejected job, its client done with it. -/
def Module.returning (m : Module) : List Nat := if m.acting then [] else rejected m.answer

namespace Chain

variable {c : Chain} {s s' : DataSys} {es : List DataEvent} {ok : DataAction → Prop}

/-- The chunks on the way back are empty. -/
structure Clean (c : Chain) (s : DataSys) : Prop where
  ring : ∀ d ∈ s.sys.ring, s.data d = ""
  head : ∀ d ∈ (s.sys.mods 0).unanswered, s.data d = ""
  returning : ∀ i, 0 < i → i ≤ c.middle → ∀ d ∈ (s.sys.mods i).returning, s.data d = ""

private def turns (i n : Nat) : List DataAction :=
  List.replicate n (.pipeline (.thread i))

end Chain

end DclProcessor.Pipeline
