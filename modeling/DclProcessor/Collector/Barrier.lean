import DclProcessor.Library.Transition
import Mathlib.Logic.Function.Basic

/-!
The barrier between the sources, `collect_data_thread` and `first_action`. All sources add
their frames to one object; when each has come to an object boundary, the name of the
object goes to the pipeline and a new name goes to all sources. Every step is one access
to a semaphore, a flag or a name.
-/

namespace DclProcessor.Collector

open Transition

/-- `OBJECT_DETECTION_FRAME_LIMIT` -/
def objectDetectionFrameLimit : Nat := 50

/-- Where `source_data_thread_tcp` is. -/
inductive SourcePc
  | waitStart
  | loop
  | reading
  | postBoundary
  | testExit
  | waitEmpty
  | testAdd
  | addFrame
  | postEnd
  | ended
  deriving DecidableEq

/-- What a turn of the reading loop comes to: an error, no whole frame yet, or a frame that
the detection takes for the first of a new object or not. -/
inductive Read
  | error
  | incomplete
  | frame (detected : Bool)
  deriving DecidableEq

/-- `boundaries` counts the object boundaries. -/
structure Source where
  pc : SourcePc
  exitFlag : Bool
  dataReady : Nat
  emptyReady : Nat
  data : String
  framesInObject : Nat
  boundaries : Nat

/-- Where `collect_data_thread` is. -/
inductive CollectorPc
  | waitStart
  | copyName (j : Nat)
  | postEmpty (j : Nat)
  | loop
  | waitData (j : Nat)
  | postData
  | checkSource (j : Nat)
  | raiseExit (j : Nat)
  | testExit
  | waitEmpty
  | stopSource (j : Nat)
  | finalStop (j : Nat)
  | finalWait (j : Nat)
  | finalPost
  | ended
  deriving DecidableEq

/-- Where the caller of `first_action` is. -/
inductive FirstPc
  | idle
  | exitPost
  | waitData
  | take
  | rename
  | postEmpty
  deriving DecidableEq

/-- `generated` names were generated so far. -/
structure Barrier where
  srcs : Nat → Source
  pc : CollectorPc
  exitFlag : Bool
  dataReady : Nat
  emptyReady : Nat
  data : String
  first : FirstPc
  generated : Nat

inductive Step
  | source (i : Nat) (read : Read)
  | collector
  | firstAction
  | raiseSource (i : Nat)
  | raiseCollector

/-- `first_action` copies a name to the chunk of the pipeline; a source adds a frame, after
so many boundaries, to the object of a name. -/
inductive BarrierEvent
  | taken (name : String)
  | added (i boundaries : Nat) (name : String)
  deriving DecidableEq

/-- One turn of `new_frame_action`, `source_data_thread_tcp` and their semaphores. -/
def Source.step (src : Source) (read : Read) : Option Source :=
  match src.pc with
  | .waitStart =>
    if src.emptyReady = 0 then none
    else some { src with emptyReady := src.emptyReady - 1, pc := .loop }
  | .loop => some { src with pc := if src.exitFlag then .postEnd else .reading }
  | .reading =>
    match read with
    | .error => some { src with exitFlag := true, pc := .postEnd }
    | .incomplete => some { src with pc := .loop }
    | .frame detected =>
      if detected ∨ src.framesInObject % objectDetectionFrameLimit = 0 then
        some { src with framesInObject := 0, pc := .postBoundary }
      else some { src with pc := .testAdd }
  | .postBoundary => some { src with
      dataReady := src.dataReady + 1
      boundaries := src.boundaries + 1
      pc := .testExit }
  | .testExit => some { src with pc := if src.exitFlag then .testAdd else .waitEmpty }
  | .waitEmpty =>
    if src.emptyReady = 0 then none
    else some { src with emptyReady := src.emptyReady - 1, pc := .testAdd }
  | .testAdd =>
    if src.exitFlag then
      some { src with framesInObject := src.framesInObject + 1, pc := .loop }
    else some { src with pc := .addFrame }
  | .addFrame => some { src with framesInObject := src.framesInObject + 1, pc := .loop }
  | .postEnd => some { src with dataReady := src.dataReady + 1, pc := .ended }
  | .ended => none

namespace Barrier

/-- Exchange one source. -/
def setSource (s : Barrier) (j : Nat) (src : Source) : Barrier :=
  { s with srcs := Function.update s.srcs j src }

variable (names : Nat → String) (n : Nat) (s : Barrier)

/-- `collect_data_thread` with `n` sources; every `for` loop tests its counter first. -/
def collectorStep : Option Barrier :=
  match s.pc with
  | .waitStart =>
    if s.emptyReady = 0 then none
    else some { s with emptyReady := s.emptyReady - 1, pc := .copyName 0 }
  | .copyName j =>
    if j < n then
      some { s.setSource j { s.srcs j with data := s.data } with pc := .postEmpty j }
    else some { s with pc := .loop }
  | .postEmpty j => some { s.setSource j
      { s.srcs j with emptyReady := (s.srcs j).emptyReady + 1 } with pc := .copyName (j + 1) }
  | .loop => some { s with pc := if s.exitFlag then .finalStop 0 else .waitData 0 }
  | .waitData j =>
    if j < n then
      if (s.srcs j).dataReady = 0 then none
      else some { s.setSource j
        { s.srcs j with dataReady := (s.srcs j).dataReady - 1 } with pc := .waitData (j + 1) }
    else some { s with pc := .postData }
  | .postData => some { s with dataReady := s.dataReady + 1, pc := .checkSource 0 }
  | .checkSource j =>
    if j < n then
      -- `cnt` is declared in the loop, and 1 at most
      let cnt := if (s.srcs j).exitFlag then 1 else 0
      some { s with pc := if cnt = n then .raiseExit j else .checkSource (j + 1) }
    else some { s with pc := .testExit }
  | .raiseExit j => some { s with exitFlag := true, pc := .checkSource (j + 1) }
  | .testExit => some { s with pc := if s.exitFlag then .stopSource 0 else .waitEmpty }
  | .waitEmpty =>
    if s.emptyReady = 0 then none
    else some { s with emptyReady := s.emptyReady - 1, pc := .copyName 0 }
  | .stopSource j =>
    if j < n then
      some { s.setSource j { s.srcs j with exitFlag := true } with pc := .stopSource (j + 1) }
    else some { s with pc := .loop }
  | .finalStop j =>
    if j < n then
      some { s.setSource j { s.srcs j with exitFlag := true } with pc := .finalWait j }
    else some { s with pc := .finalPost }
  | .finalWait j =>
    if (s.srcs j).dataReady = 0 then none
    else some { s.setSource j
      { s.srcs j with dataReady := (s.srcs j).dataReady - 1 } with pc := .finalStop (j + 1) }
  | .finalPost => some { s with dataReady := s.dataReady + 1, pc := .ended }
  | .ended => none

/-- `first_action`, call after call; `names` are those that `generate_new_object_name` makes. -/
def firstStep : Option Barrier :=
  match s.first with
  | .idle => some { s with first := if s.exitFlag then .exitPost else .waitData }
  | .exitPost => some { s with emptyReady := s.emptyReady + 1, first := .idle }
  | .waitData =>
    if s.dataReady = 0 then none
    else some { s with dataReady := s.dataReady - 1, first := .take }
  | .take => some { s with first := .rename }
  | .rename => some { s with
      data := names (s.generated + 1)
      generated := s.generated + 1
      first := .postEmpty }
  | .postEmpty => some { s with emptyReady := s.emptyReady + 1, first := .idle }

def step : Step → Option Barrier
  | .source i read =>
    if i < n then ((s.srcs i).step read).map fun src => s.setSource i src else none
  | .collector => s.collectorStep n
  | .firstAction => s.firstStep names
  | .raiseSource i => some (s.setSource i { s.srcs i with exitFlag := true })
  | .raiseCollector => some { s with exitFlag := true }

def events : Step → List BarrierEvent
  | .source i _ =>
    if (s.srcs i).pc = .addFrame then
      [.added i (s.srcs i).boundaries (s.srcs i).data]
    else []
  | .firstAction => if s.first = .take then [.taken s.data] else []
  | _ => []

/-- `source_init` and `collector_init`. -/
def initial : Barrier where
  srcs _ := ⟨.waitStart, false, 0, 0, names 0, 0, 0⟩
  pc := .waitStart
  exitFlag := false
  dataReady := 1
  emptyReady := 0
  data := names 0
  first := .idle
  generated := 0

end Barrier

/-- `n` sources with their collector and the calls of `first_action`. `names 0` is what
`collector->data` holds at first, and `names` the others one after the other. -/
def barrier (names : Nat → String) (n : Nat) : System Barrier Step BarrierEvent where
  step := Barrier.step names n
  emit := Barrier.events

end DclProcessor.Collector
