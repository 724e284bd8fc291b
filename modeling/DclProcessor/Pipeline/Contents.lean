import DclProcessor.Pipeline.Drain
import DclProcessor.Pipeline.Forward

/-!
What is in the chunks. `initial_thread` writes a test string to the chunk it takes, a client
works on the string of its chunk, and `finalization_thread` clears it before the push. A chunk
that is under way keeps its string, so each module finds, job after job, what the module
before it has left.
-/

namespace DclProcessor.Pipeline

open Transition Stage

/-- The pipeline with the strings in the chunks; `found i` is what the client of module `i`
has found in the chunk of its last job. -/
structure DataSys where
  sys : Sys
  data : Nat → String
  found : Nat → String

/-- `write i text`: the action of client `i` writes `text` to the chunk of its job. -/
inductive DataAction
  | pipeline (a : Action)
  | write (i : Nat) (text : String)

/-- `captured d`: `initial_thread` has written its string to chunk `d`; `found i d text`: module
`i` begins its work on chunk `d`, which holds `text`; `left i d before after status`: the client
of module `i` posts the result of the job on chunk `d`. -/
inductive DataEvent
  | pipeline (e : Event)
  | captured (dataoffset : Nat)
  | found (i dataoffset : Nat) (text : String)
  | left (i dataoffset : Nat) (before after : String) (cmdResult : Int)
  deriving DecidableEq, Repr

/-- The client is about to call its action. -/
def Module.taking (m : Module) : Bool := m.client.pc = .dispatch && m.proc.cmd = .job

/-- The client is in its action, or has not yet posted its result. -/
def Module.acting (m : Module) : Bool := m.client.pc = .postResult && m.proc.cmd = .job

/-- `strcpy` to the chunk, if there is one. -/
def put (data : Nat → String) (text : String) : Option Nat → Nat → String
  | none => data
  | some d => Function.update data d text

namespace Chain

/-- The chunk that `initial_thread` takes in this step. -/
def capturing (c : Chain) (s : Sys) : Action → Option Nat
  | .thread i =>
      if c.method i = .initial ∧ (s.mods i).thread.pc = .popRing then s.ring.head? else none
  | _ => none

/-- The chunk that `finalization_thread` returns in this step. -/
def clearing (c : Chain) (s : Sys) : Action → Option Nat
  | .thread i =>
      if c.method i = .finalization ∧ (s.mods i).thread.pc = .returnChunk then
        some (s.mods i).thread.dataoffset
      else none
  | _ => none

/-- What the clients have found, after the step. -/
def foundAfter (s : DataSys) : Action → Nat → String
  | .client i _ =>
      if (s.sys.mods i).taking then
        Function.update s.found i (s.data (s.sys.mods i).proc.cmdOffs)
      else s.found
  | _ => s.found

def dataStep (c : Chain) (s : DataSys) : DataAction → Option DataSys
  | .pipeline a => (c.step s.sys a).map fun sys => {
      sys := sys
      data := put (put s.data "test" (c.capturing s.sys a)) "" (c.clearing s.sys a)
      found := foundAfter s a }
  | .write i text =>
      if i < c.cnt ∧ (s.sys.mods i).acting = true then
        some { s with data := Function.update s.data (s.sys.mods i).proc.cmdOffs text }
      else none

def dataEvents (c : Chain) (s : DataSys) : Action → List DataEvent
  | .thread i =>
      (c.capturing s.sys (.thread i)).toList.map .captured ++
        (c.clearing s.sys (.thread i)).toList.map fun d => .found i d (s.data d)
  | .client i _ =>
      let m := s.sys.mods i
      if m.taking then [.found i m.proc.cmdOffs (s.data m.proc.cmdOffs)]
      else if m.acting then
        [.left i m.proc.cmdOffs (s.found i) (s.data m.proc.cmdOffs) m.proc.cmdResult]
      else []
  | _ => []

def dataEmit (c : Chain) (s : DataSys) : DataAction → List DataEvent
  | .pipeline a => (Chain.emit s.sys a).map .pipeline ++ c.dataEvents s a
  | .write _ _ => []

def dataSystem (c : Chain) : System DataSys DataAction DataEvent where
  step := c.dataStep
  emit := c.dataEmit

/-- The shared memory is created with zeros. -/
def dataStarted (c : Chain) : DataSys := ⟨c.started, fun _ => "", fun _ => ""⟩

end Chain

/-! ## Histories -/

/-- The jobs that the client of module `i` has done: the chunk, what it has found there and
left there, and the result. -/
def worked (es : List DataEvent) (i : Nat) : List (Nat × String × String × Int) :=
  es.filterMap fun
    | .left j d before after r => if j = i then some (d, before, after, r) else none
    | _ => none

/-- The thread passes a job with this result on to the next module. -/
def Method.passes (meth : Method) (cmdResult : Int) : Bool := meth = .source || cmdResult = 0

/-- The chunks that module `i` passes on, with what it has left there. -/
def passed (c : Chain) (es : List DataEvent) (i : Nat) : List (Nat × String) :=
  es.filterMap fun
    | .left j d _ after r => if j = i ∧ (c.method i).passes r = true then some (d, after) else none
    | .captured d => if i = 0 then some (d, "test") else none
    | _ => none

namespace Chain

variable {c : Chain} {s s' : DataSys} {es : List DataEvent} {ok : DataAction → Prop}

theorem dataStep_pipeline {a : Action} (h : c.dataStep s (.pipeline a) = some s') :
    c.step s.sys a = some s'.sys ∧
      s'.data = put (put s.data "test" (c.capturing s.sys a)) "" (c.clearing s.sys a) ∧
      s'.found = foundAfter s a := by
  obtain ⟨sys, hsys, rfl⟩ := Option.map_eq_some_iff.mp h
  exact ⟨hsys, rfl, rfl⟩

end Chain

/-! ## Chunks under way -/

/-- The chunks of the answered jobs that a thread passes on. -/
def Method.kept (meth : Method) (as : List (Nat × Int)) : List Nat :=
  (as.filter fun a => meth.passes a.2).map Prod.fst

namespace Chain

variable {c : Chain} {s s' : DataSys} {es : List DataEvent} {ok : DataAction → Prop}

end Chain

/-! ## The head without a client -/

namespace Chain

variable {c : Chain} {s s' : DataSys} {es : List DataEvent} {ok : DataAction → Prop}

end Chain

end DclProcessor.Pipeline
