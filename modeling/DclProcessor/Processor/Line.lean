import DclProcessor.Library.Simulation
import DclProcessor.Collector.Objects
import DclProcessor.Pipeline.Recycle

/-!
The modules of a dclprocessor at work: the source module with the collector, whose action is
`first_action`, modules with `middle_action` and one with `last_action`, in the pipeline and
with the sources. Every step of a thread, of a client, of a source, of `collect_data_thread`
and of an action is one action of the line, in any order.
-/

namespace DclProcessor.Processor

open Transition Pipeline Collector

/-! ## The actions of dclprocessor.c -/

/-- `client_pipeline_action` on the name in the chunk; `none` is the null pointer. -/
def callback (work : Option (String → String)) (name : String) : String := work.getD id name

/-- `middle_action`: the name it leaves in the chunk and `*status`. -/
def middleAction (collector : Bool) (work : Option (String → String)) (data : String)
    (status : Int) : String × Int :=
  if collector then if data ≠ "" then (callback work data, 0) else (data, 1) else (data, status)

/-- `last_action`, which frees the object of the name it leaves. -/
def lastAction (collector : Bool) (work : Option (String → String)) (data : String)
    (status : Int) : String × Int :=
  if collector then (callback work data, 0) else (data, status)

/-- A dclprocessor: the chain of its modules, the last before `finalization_thread` being the
one with `last_action`; the callbacks; the names in `collector->data`, which are the empty one
of `collector_create` and then those that `generate_new_object_name` makes; the number of
sources. -/
structure Line where
  chain : Chain
  head : chain.head = .source
  distinct : chain.offsets.Nodup
  last : 0 < chain.middle
  work : Nat → Option (String → String)
  names : Nat → String
  unnamed : names 0 = ""
  unique : Function.Injective names
  sources : Nat

/-- Where the action of a client is: it has not been called, it runs, it has returned. -/
inductive Call
  | none | running | returned
  deriving DecidableEq, Repr

structure State where
  data : DataSys
  barrier : Barrier
  call : Nat → Call

/-- `action i`: the action of client `i` makes its next step; the others are those of the
pipeline and of the collector. -/
inductive Act
  | thread (i : Nat)
  | client (i : Nat)
  | owner (call : OwnerCall)
  | raiseExit
  | action (i : Nat)
  | source (i : Nat) (read : Read)
  | collector
  | raiseSource (i : Nat)
  | raiseCollector

inductive LineEvent
  | data (e : DataEvent)
  | barrier (e : BarrierEvent)
  deriving DecidableEq

namespace Line

variable (L : Line)

/-- What the action of module `i` makes of the name in its chunk, with `*status`; the modules
have their collectors. -/
def act (i : Nat) (name : String) : String × Int :=
  if i = L.chain.middle then lastAction true (L.work i) name (-1)
  else middleAction true (L.work i) name (-1)

/-- The reply of client `i` to its job; `first_action` always sets `*status = 0`. -/
def reply (s : State) (i : Nat) : Reply :=
  actionReply (if i = 0 then 0 else (L.act i (s.data.data (s.data.sys.mods i).proc.cmdOffs)).2)

/-- What the pipeline and the strings in its chunks see of a step. -/
def dataMoves (s : State) : Act → List DataAction
  | .thread i => [.pipeline (.thread i)]
  | .client i => [.pipeline (.client i (L.reply s i))]
  | .owner call => [.pipeline (.owner call)]
  | .raiseExit => [.pipeline .raiseExit]
  | .action i =>
      if i = 0 then if s.barrier.first = .take then [.write 0 s.barrier.data] else []
      else [.write i (L.act i (s.data.data (s.data.sys.mods i).proc.cmdOffs)).1]
  | _ => []

/-- What the collector and its sources see of a step. -/
def barrierMoves : Act → List Step
  | .action i => if i = 0 then [.firstAction] else []
  | .source i read => [.source i read]
  | .collector => [.collector]
  | .raiseSource i => [.raiseSource i]
  | .raiseCollector => [.raiseCollector]
  | _ => []

/-- A client posts its result when its action has returned, and runs one call at a time. -/
def enabled (s : State) : Act → Bool
  | .client i => !((s.data.sys.mods i).acting && s.call i ≠ .returned)
  | .action i => i ≤ L.chain.middle && (s.data.sys.mods i).acting && s.call i = .running
  | _ => true

/-- `barrier` is the state of the collector after the step. -/
def callAfter (s : State) (barrier : Barrier) : Act → Nat → Call
  | .client i =>
      Function.update s.call i (if (s.data.sys.mods i).taking then .running else .none)
  | .action i =>
      Function.update s.call i (if i = 0 ∧ barrier.first ≠ .idle then .running else .returned)
  | _ => s.call

/-- One step, with its events. -/
def next (s : State) (a : Act) : Option (List LineEvent × State) :=
  if L.enabled s a then
    (L.chain.dataSystem.run (L.dataMoves s a) s.data).bind fun d =>
      ((barrier L.names L.sources).run (barrierMoves a) s.barrier).map fun b =>
        (d.1.map .data ++ b.1.map .barrier, ⟨d.2, b.2, callAfter s b.2 a⟩)
  else none

def system : System State Act LineEvent where
  step s a := (L.next s a).map Prod.snd
  emit s a := ((L.next s a).map Prod.fst).getD []

def started : State := ⟨L.chain.dataStarted, .initial L.names, fun _ => .none⟩

abbrev Run (es : List LineEvent) (s : State) : Prop :=
  Trace L.system (fun _ => True) L.started es s

end Line

/-! ## Histories -/

/-- The run of the pipeline. -/
def dataEvents (es : List LineEvent) : List DataEvent :=
  es.filterMap fun
    | .data e => some e
    | .barrier _ => none

namespace Line

variable {L : Line} {s s' : State} {es : List LineEvent} {a : Act}

theorem step_some (h : L.system.step s a = some s') :
    L.enabled s a = true ∧ ∃ ds bs,
      L.chain.dataSystem.run (L.dataMoves s a) s.data = some (ds, s'.data) ∧
      (barrier L.names L.sources).run (barrierMoves a) s.barrier = some (bs, s'.barrier) ∧
      s'.call = callAfter s s'.barrier a ∧
      L.system.emit s a = ds.map .data ++ bs.map .barrier := by
  obtain ⟨⟨fs, t⟩, hnext, rfl⟩ := Option.map_eq_some_iff.mp h
  have hemit : L.system.emit s a = fs := by simp [system, hnext]
  unfold next at hnext
  split at hnext
  · rename_i hen
    obtain ⟨⟨ds, d⟩, hd, hrest⟩ := Option.bind_eq_some_iff.mp hnext
    obtain ⟨⟨bs, b⟩, hb, hfinal⟩ := Option.map_eq_some_iff.mp hrest
    cases hfinal
    exact ⟨hen, ds, bs, hd, hb, rfl, hemit⟩
  · cases hnext

end Line

end DclProcessor.Processor
