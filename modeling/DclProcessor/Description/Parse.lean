import Mathlib.Algebra.Ring.Nat
import Mathlib.Algebra.Ring.Int.Defs
import DclProcessor.Library.Json

/-!
The parsers of the pipeline and of the collector description. `none` where the code has no
defined result: a string that is too long for its array, or a null pointer that is copied.
-/

namespace DclProcessor.Description

/-- What is used of json-c besides the members of objects: `json_object_get_int`,
`json_object_get_string`, `json_object_to_json_string_ext` and `json_tokener_parse`. -/
structure JsonC where
  getInt : Json → Int
  getString : Json → String
  toJsonString : Json → String
  tokenerParse : String → Json

/-- json-c on values that are what is asked for. -/
def plainC : JsonC where
  getInt
    | .int n => n
    | _ => 0
  getString
    | .string s => s
    | _ => ""
  toJsonString _ := ""
  tokenerParse _ := .null

/-- What `json_object_from_file` finds under a name, `null` where that fails. -/
abbrev Files := String → Json

variable (C : JsonC)

/-- An `int` that is assigned to a `size_t`. -/
def toSize (n : Int) : Nat := (n % 2 ^ 64).toNat

/-- `if (current) x = json_object_get_int(current)` -/
def intMember (jobj : Json) (key : String) (default : Int) : Int :=
  let current := jobj.get key
  if current.isNull then default else C.getInt current

/-- `if (current) x = strdup(json_object_get_string(current))` -/
def stringMember (jobj : Json) (key : String) : Option String :=
  let current := jobj.get key
  if current.isNull then none else some (C.getString current)

/-- `strcpy` to an array of `size` bytes. -/
def strcpy (size : Nat) (s : String) : Option String :=
  if s.utf8ByteSize < size then some s else none

/-- `if (current) strcpy(x, json_object_get_string(current))` -/
def arrayMember (jobj : Json) (key : String) (size : Nat) : Option String :=
  strcpy size ((stringMember C jobj key).getD "")

section Pipeline

/-- `struct pipeline_module_info` -/
structure ModuleInfo where
  id : Int
  type : Int
  mode : Int
  next : Int
  argv : Option (List String)

structure PipelineDescription where
  shmpath : Option String
  idString : Option String
  modulesCnt : Nat
  minfos : List (Option ModuleInfo)
  dataCnt : Int
  dataSize : Nat

/-- `MT_FIRST`, `MT_MIDDLE`, `MT_LAST` -/
def getTypeVal (typeStr : String) : Int :=
  if typeStr = "FIRST" then 1 else if typeStr = "MIDDLE" then 2 else if typeStr = "LAST" then 0
  else -1

/-- The elements of a value that is an array. -/
def elements : Json → Option (List Json)
  | .array elems => some elems
  | _ => none

/-- `strdup` of the parameters. -/
def parseParameters (params : List Json) : Option (List String) :=
  params.mapM fun param => if param.isNull then none else some (C.getString param)

def parseModuleJson (moduleJson : Json) : Option (Option ModuleInfo) :=
  if moduleJson.isNull then some none
  else do
    let argv ← match stringMember C moduleJson "name" with
      | none => some none
      | some name => do
        let params ← parseParameters C ((elements (moduleJson.get "parameters")).getD [])
        some (some (name :: params))
    return some {
      id := intMember C moduleJson "id" 0
      type := ((stringMember C moduleJson "type").map getTypeVal).getD 0
      mode := if argv.isSome then 1 else 0
      next := intMember C moduleJson "next" (-1)
      argv := argv }

def parseModulesJson (modulesJson : Json) : Option (List (Option ModuleInfo)) :=
  ((elements modulesJson).getD []).mapM (parseModuleJson C)

def parsePipelineJson (jobj : Json) : Option PipelineDescription := do
  let minfos ← parseModulesJson C (jobj.get "modules")
  return {
    shmpath := stringMember C jobj "shmem_segment_name"
    idString := stringMember C jobj "id_string"
    modulesCnt := minfos.length
    minfos := minfos
    dataCnt := intMember C jobj "data_chunk_count" 0
    dataSize := toSize (intMember C jobj "data_chunk_size" 0) }

end Pipeline

section Collector

structure FrameInfo where
  width : Nat
  height : Nat
  format : Int

structure SourceInfo where
  type : Int
  sidString : String
  host : String
  port : String
  fi : FrameInfo
  outputPath : Option String

structure SourceDescription where
  type : Int
  sidString : String
  addr : String
  port : String
  headerLen : Nat
  dataLen : Nat
  width : Nat
  height : Nat
  channels : Nat
  outputPath : String

structure CollectorDescription where
  sourcesCnt : Nat
  sinfos : List (Option SourceInfo)
  sdescs : List SourceDescription
  useBoostShmem : Bool
  boostPath : String
  boostSize : Nat
  outputPath : Option String

/-- `STYPE_TCP`, `STYPE_UDP`, `STYPE_FILE` -/
def getSourceTypeVal (typeStr : String) : Int :=
  if typeStr = "tcp" then 2 else if typeStr = "udp" then 1 else if typeStr = "file" then 0 else -1

def parseFrameJson (frameJson : Json) : FrameInfo where
  width := toSize (intMember C frameJson "width" 0)
  height := toSize (intMember C frameJson "height" 0)
  format := intMember C frameJson "format" 0

def parseSourceJson (sourceJson : Json) : Option (Option SourceInfo) :=
  if sourceJson.isNull then some none
  else do
    let sidString ← arrayMember C sourceJson "id_string" 256
    let host ← arrayMember C sourceJson "host" 16
    let port ← arrayMember C sourceJson "port" 8
    return some {
      type := ((stringMember C sourceJson "type").map getSourceTypeVal).getD 0
      sidString := sidString
      host := host
      port := port
      fi := parseFrameJson C (sourceJson.get "frame")
      outputPath := stringMember C sourceJson "output_path" }

/-- `update_source_description` of a new description; a source without an output path makes
it copy from a null pointer. -/
def updateSourceDescription : Option SourceInfo → Option SourceDescription
  | none => some ⟨0, "", "", "", 0, 0, 0, 0, 0, ""⟩
  | some info => do
    let path ← info.outputPath
    let outputPath ← strcpy 1024 path
    let channels := toSize info.fi.format
    return {
      type := info.type
      sidString := info.sidString
      addr := info.host
      port := info.port
      headerLen := 12
      dataLen := info.fi.width * info.fi.height * channels % 2 ^ 64
      width := info.fi.width
      height := info.fi.height
      channels := channels
      outputPath := outputPath }

def parseSourcesJson (sourcesJson : Json) :
    Option (List (Option SourceInfo) × List SourceDescription) := do
  let sinfos ← ((elements sourcesJson).getD []).mapM (parseSourceJson C)
  let sdescs ← sinfos.mapM updateSourceDescription
  return (sinfos, sdescs)

def parseCollectorJson (jobj : Json) : Option CollectorDescription := do
  let boostPath ← arrayMember C jobj "boost_path" 256
  let (sinfos, sdescs) ← parseSourcesJson C (jobj.get "sources")
  return {
    sourcesCnt := sinfos.length
    sinfos := sinfos
    sdescs := sdescs
    useBoostShmem := 1 < boostPath.utf8ByteSize
    boostPath := boostPath
    boostSize :=
      if (jobj.get "boost_path").isNull then 0 else toSize (intMember C jobj "boost_size" 0)
    outputPath := stringMember C jobj "output_path" }

end Collector

section Elements

variable {α β : Type*} {f : α → Option β}

theorem mapM_cons_eq_some {elem : α} {elems : List α} {parsed : List β}
    (h : (elem :: elems).mapM f = some parsed) :
    ∃ first rest, f elem = some first ∧ elems.mapM f = some rest ∧ parsed = first :: rest := by
  rw [List.mapM_cons] at h
  obtain ⟨first, hfirst, h⟩ := Option.bind_eq_some_iff.mp h
  obtain ⟨rest, hrest, h⟩ := Option.bind_eq_some_iff.mp h
  exact ⟨first, rest, hfirst, hrest, (Option.some.inj h).symm⟩

/-- A parser of elements has a result for each. -/
theorem length_of_mapM {elems : List α} {parsed : List β} (h : elems.mapM f = some parsed) :
    parsed.length = elems.length := by
  induction elems generalizing parsed with
  | nil =>
    obtain rfl : [] = parsed := Option.some.inj h
    rfl
  | cons elem elems ih =>
    obtain ⟨first, rest, -, hrest, rfl⟩ := mapM_cons_eq_some h
    rw [List.length_cons, List.length_cons, ih hrest]

end Elements

end DclProcessor.Description
