import DclProcessor.Pipeline.Link

/-!
The startup of a pipeline. `pipeline_thread` initialises the modules of the list one
after the other, creates the thread of each and waits for it on `start_control`,
then writes its verdict to `pl->state`, and in the end joins the threads. The thread
bodies run from their first statement, and the owner's calls run next to them, one
write at a time.
-/

namespace DclProcessor.Pipeline.Startup

open Transition

/-! ## The list of modules -/

/-- `enum MT_TYPE`. -/
inductive ModuleType
  | undefined | first | middle | last
  deriving DecidableEq, Repr

/-- `struct pipeline_module_info`; `external` stands for `mode == MT_MODE_EXTERNAL`. -/
structure ModuleInfo where
  id : Int
  type : ModuleType
  external : Bool
  next : Int
  argv : Option (List String)
  deriving DecidableEq, Repr

/-- The `thread_method` that `pipeline_module_add` sets; an unsupported type gets none. -/
def ModuleInfo.threadMethod (minfo : ModuleInfo) : Option Method :=
  match minfo.type with
  | .first => some (if minfo.external then .source else .initial)
  | .last => some .finalization
  | .middle => some .process
  | .undefined => none

/-- `pipeline_module_get`: the place in the list of the module with this id. -/
def moduleGet (minfos : List ModuleInfo) (id : Int) : Option Nat :=
  minfos.findIdx? fun minfo => minfo.id = id

/-- The loop of `pipeline_modules_update`: at most one module has no next one. -/
def modulesUpdate (minfos : List ModuleInfo) (nullFound : Bool) : List ModuleInfo → Int
  | [] => 0
  | minfo :: rest =>
      match moduleGet minfos minfo.next with
      | some _ => modulesUpdate minfos nullFound rest
      | none => if nullFound then -1 else modulesUpdate minfos true rest

/-- What a startup depends on. -/
structure Setup where
  minfos : List ModuleInfo
  /-- `pipeline_init` has not rejected the list. -/
  accepted : modulesUpdate minfos false minfos = 0
  /-- `process_cnt` before the startup, and the size of the process table. -/
  processCnt : Nat
  processCntMax : Nat
  /-- Whether `access` and `fork` succeed for the module at a place of the list. -/
  spawns : Nat → Bool
  /-- What `pipeline_thread` writes to the buffer of the data ring. -/
  offsets : List Nat

namespace Setup

def modulesCnt (st : Setup) : Nat := st.minfos.length

def method (st : Setup) (i : Nat) : Option Method := st.minfos[i]?.bind ModuleInfo.threadMethod

def argv (st : Setup) (i : Nat) : Option (List String) := st.minfos[i]?.bind ModuleInfo.argv

/-- `module->next`. -/
def next (st : Setup) (i : Nat) : Option Nat :=
  st.minfos[i]?.bind fun minfo => moduleGet st.minfos minfo.next

/-- `process_start` for the module at place `i`: the new `process_cnt` and the result. -/
def processStart (st : Setup) (cnt i : Nat) (argv : Option (List String)) : Nat × Int :=
  if st.processCntMax ≤ cnt then (cnt, -1)
  else
    match argv with
    | none => (cnt + 1, cnt)
    | some _ => (cnt + 1, if st.spawns i then cnt else -1)

end Setup

/-! ## The state -/

/-- Where a module thread is before its main loop. `noMethod`: created with a null
`thread_method`; `testArgv`: `if (!minfo->argv)`; `testIdx`: `if (module->idx < 0)`;
`postFailed` and `post`: the two `sem_post(module->start_control)`. -/
inductive Entry
  | absent | noMethod | testArgv | startProcess | testIdx | raiseExit | postFailed | post
  | loop | returned
  deriving DecidableEq, Repr

/-- The statements of the startup loop of `pipeline_thread`. -/
inductive Stage
  | init | create | waitStart | testIdx | joinFailed | setError | plError | setInit
  deriving DecidableEq, Repr

/-- Program counter of `pipeline_thread`; `place` is that of `elem` in the list. -/
inductive SupPc
  | plUnknown
  | loop (place : Nat) (stage : Stage)
  | verdict
  | join (place : Nat)
  | destroy (place : Nat)
  | returned
  deriving DecidableEq, Repr

/-- `pipeline_thread` has written its verdict. -/
def SupPc.decided : SupPc → Bool
  | .join _ | .destroy _ | .returned => true
  | _ => false

/-- Program counter of the owner inside one of its calls. -/
inductive OwnerPc
  | idle
  | test (call : OwnerCall)
  | setModule (call : OwnerCall) (place : Nat)
  | setPl (call : OwnerCall)
  deriving DecidableEq, Repr

structure State where
  mods : Nat → Module
  entry : Nat → Entry
  startControl : Nat
  processCnt : Nat
  ring : List Nat
  exitFlag : Bool
  plState : PlState
  sup : SupPc
  realStarted : Nat
  owner : OwnerPc

/-- A module as `pipeline_module_add` leaves it. -/
def addedModule : Module where
  idx := -1
  state := .unknown
  box := ⟨0, 0, .stop, 0⟩
  proc := ⟨0, 0, .stop, 0, 0⟩
  thread := ⟨.ended, .stop, 0⟩
  client := ⟨.left, false⟩

/-- The state in which `pipeline_init` creates `pipeline_thread`. -/
def Setup.initial (st : Setup) : State where
  mods _ := addedModule
  entry _ := .absent
  startControl := 0
  processCnt := st.processCnt
  ring := st.offsets
  exitFlag := false
  plState := .unknown
  sup := .plUnknown
  realStarted := 0
  owner := .idle

/-- `pipeline_module_init`. -/
def moduleInit (m : Module) : Module :=
  { m with idx := -200, state := .unknown,
           box := { m.box with newCmd := 0, result := 1, cmd := .job } }

namespace State

def setMod (s : State) (i : Nat) (m : Module) : State :=
  { s with mods := Function.update s.mods i m }

def enter (s : State) (i : Nat) (e : Entry) : State :=
  { s with entry := Function.update s.entry i e }

/-- The thread of module `i` has returned. -/
def finished (s : State) (i : Nat) : Bool :=
  s.entry i = .returned || (s.entry i = .loop && (s.mods i).thread.pc = .ended)

end State

/-! ## The module threads -/

/-- Statements that dereference `module->next`. -/
def usesNext (pc : Pc) : Bool := pc.touchesNext || pc = .stopTestIdx

/-- The view of thread `i` when `j` is the place of the next module. -/
def State.view (s : State) (i j : Nat) : View where
  me := s.mods i
  next := (s.mods j).box
  nextIdx := (s.mods j).idx
  ring := s.ring
  exitFlag := s.exitFlag

def State.putView (s : State) (i j : Nat) (w : View) : State :=
  let t := { s.setMod i w.me with ring := w.ring }
  if (s.mods i).thread.pc.touchesNext then t.setMod j { t.mods j with box := w.next } else t

/-- One step in the main loop; without a next module its dereference is no step. -/
def Setup.loopStep (st : Setup) (s : State) (i : Nat) (meth : Method) : Option State :=
  match st.next i with
  | some j => (threadStep meth (s.view i j)).map (s.putView i j)
  | none =>
      if usesNext (s.mods i).thread.pc then none
      else (threadStep meth (s.view i i)).map (s.putView i i)

/-- First statement of a thread body; the internal bodies test no `argv`. -/
def firstStatement : Option Method → Entry
  | none => .noMethod
  | some meth => if meth.hasClient then .testArgv else .startProcess

/-- The argument of `process_start` in a thread body. -/
def Setup.processArgv (st : Setup) (i : Nat) (meth : Method) : Option (List String) :=
  if meth.hasClient then st.argv i else none

/-- `module->idx = process_start(..)`, and the start of the child process. -/
def Setup.startProcess (st : Setup) (s : State) (i : Nat) (meth : Method) : State :=
  let (cnt, idx) := st.processStart s.processCnt i (st.processArgv i meth)
  let client := if meth.hasClient && 0 ≤ idx then .waitJob else .left
  { s.setMod i { s.mods i with idx := idx, client := ⟨client, false⟩ } with processCnt := cnt }

/-- One step of a thread body before its main loop. -/
def Setup.entryStep (st : Setup) (s : State) (i : Nat) (meth : Method) : Option State :=
  match s.entry i with
  | .testArgv => some (s.enter i (if st.argv i = none then .returned else .startProcess))
  | .startProcess =>
      some ((st.startProcess s i meth).enter i (if meth.hasClient then .testIdx else .post))
  | .testIdx => some (s.enter i (if (s.mods i).idx < 0 then .raiseExit else .post))
  | .raiseExit => some { s.enter i .postFailed with exitFlag := true }
  | .postFailed => some { s.enter i .returned with startControl := s.startControl + 1 }
  | .post => some { s.enter i .loop with startControl := s.startControl + 1 }
  | .absent | .noMethod | .loop | .returned => none

def Setup.threadStep (st : Setup) (s : State) (i : Nat) : Option State :=
  (st.method i).bind fun meth =>
    if s.entry i = .loop then st.loopStep s i meth else st.entryStep s i meth

/-! ## `pipeline_thread` -/

/-- The thread created for module `i`, before its first statement. -/
def Setup.createThread (st : Setup) (s : State) (i : Nat) : State :=
  let pc := (st.method i).elim .ended Method.loopEntry
  (s.setMod i { s.mods i with thread := ⟨pc, .stop, 0⟩ }).enter i (firstStatement (st.method i))

def Setup.supStep (st : Setup) (s : State) : Option State :=
  match s.sup with
  | .plUnknown => some { s with plState := .unknown, sup := .loop 0 .init }
  | .loop k .init =>
      if k < st.modulesCnt then
        some { s.setMod k (moduleInit (s.mods k)) with sup := .loop k .create }
      else some { s with sup := .verdict }
  | .loop k .create => some { st.createThread s k with sup := .loop k .waitStart }
  | .loop k .waitStart =>
      (semWait s.startControl).map fun n => { s with startControl := n, sup := .loop k .testIdx }
  | .loop k .testIdx =>
      some { s with sup := .loop k (if (s.mods k).idx = -1 then .joinFailed else .setInit) }
  | .loop k .joinFailed => if s.finished k then some { s with sup := .loop k .setError } else none
  | .loop k .setError =>
      some { s.setMod k ((s.mods k).setState .error) with sup := .loop k .plError }
  | .loop _ .plError => some { s with plState := .error, sup := .verdict }
  | .loop k .setInit =>
      some { s.setMod k ((s.mods k).setState .init) with
        realStarted := s.realStarted + 1, sup := .loop (k + 1) .init }
  | .verdict => some { s with plState := if 2 ≤ s.realStarted then .init else .error, sup := .join 0 }
  | .join k =>
      if k < st.modulesCnt then
        if (s.mods k).idx = -1 || s.finished k then some { s with sup := .destroy k } else none
      else some { s with sup := .returned }
  | .destroy k => some { s.setMod k ((s.mods k).destroy) with sup := .join (k + 1) }
  | .returned => none

/-! ## The owner -/

/-- The module state that a call writes. -/
def mdState : OwnerCall → MdState
  | .start | .pause => .pause
  | .live => .live
  | .stop => .stop

/-- The pipeline state that a call writes. -/
def plState : OwnerCall → PlState
  | .start | .pause => .pause
  | .live => .live
  | .stop => .stop

/-- The pipeline state in which a call does something. -/
def expects : OwnerCall → Option PlState
  | .start => some .init
  | .live => some .pause
  | .pause => some .live
  | .stop => none

/-- `pipeline_start` polls until the state is `PL_STATE_INIT`; the other calls return
at once in a state that they do not expect. -/
def Setup.ownerStep (st : Setup) (s : State) : Option State :=
  match s.owner with
  | .idle => none
  | .test call =>
      if expects call = none ∨ expects call = some s.plState then
        some { s with owner := .setModule call 0 }
      else if call = .start then some s
      else some { s with owner := .idle }
  | .setModule call k =>
      if k < st.modulesCnt then
        some { s.setMod k ((s.mods k).setState (mdState call)) with owner := .setModule call (k + 1) }
      else some { s with owner := .setPl call }
  | .setPl call => some { s with plState := plState call, owner := .idle }

/-! ## The system -/

/-- `sup`: `pipeline_thread`; `thread i` and `client i r`: module `i` and its client;
`call`: the owner enters a call; `owner`: it executes the next statement of it. -/
inductive Action
  | sup
  | thread (i : Nat)
  | client (i : Nat) (r : Reply)
  | call (call : OwnerCall)
  | owner
  deriving DecidableEq

def Setup.step (st : Setup) (s : State) : Action → Option State
  | .sup => st.supStep s
  | .thread i => st.threadStep s i
  | .client i r =>
      (clientStep r (s.mods i).proc (s.mods i).client).map fun pc =>
        s.setMod i { s.mods i with proc := pc.1, client := pc.2 }
  | .call call => if s.owner = .idle then some { s with owner := .test call } else none
  | .owner => st.ownerStep s

/-- `posted i`: thread `i` has posted `start_control`; `returned call`: a call of the
owner has written `pl->state` and returned. -/
inductive Event
  | posted (i : Nat)
  | returned (call : OwnerCall)
  deriving DecidableEq, Repr

def emit (s : State) : Action → List Event
  | .thread i => if s.entry i = .post ∨ s.entry i = .postFailed then [.posted i] else []
  | .owner =>
      match s.owner with
      | .setPl call => [.returned call]
      | _ => []
  | _ => []

def Setup.system (st : Setup) : System State Action Event where
  step := st.step
  emit := emit

/-- Runs from the state in which `pipeline_init` returns. -/
abbrev Setup.Run (st : Setup) (es : List Event) (s : State) : Prop :=
  Trace st.system (fun _ => True) st.initial es s

end DclProcessor.Pipeline.Startup
