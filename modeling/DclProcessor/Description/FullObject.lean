import DclProcessor.Description.Parse

/-!
How the server and the modules come to their descriptions: the server reads its system
JSON and the configuration files, and publishes the JSON with the sections that it found
there; a module runs the same parser on what was published.
-/

namespace DclProcessor.Description

variable (C : JsonC)

/-- A section of an object: from the file that the member `config` names, if there is one,
else from the object itself. -/
def getSection (config key : String) (files : Files) (jobj : Json) : Json :=
  let configJson := jobj.get config
  let current := if configJson.isNull then jobj else files (C.getString configJson)
  current.get key

def getMessengerJson : Files → Json → Json := getSection C "messenger_config" "messenger"

def getCollectorJson : Files → Json → Json := getSection C "collector_config" "collector"

def getPipelineJson : Files → Json → Json := getSection C "pipeline_config" "pipeline"

def getDclprocessorJson : Files → Json → Json := getSection C "dclprocessor_config" "dclprocessor"

/-- `if (find_in_json(dclprocessor_jobj, key) == NULL)`; `none` where the assertion in
`json_object_object_add` fails. -/
def addSection (key : String) (getJson : Json → Json) (dclprocessorJobj : Json) : Option Json :=
  if (dclprocessorJobj.get key).isNull then
    dclprocessorJobj.set key (getJson dclprocessorJobj)
  else some dclprocessorJobj

def constructFullObject (files : Files) (jobj : Json) : Option Json := do
  let dclprocessorJobj := getDclprocessorJson C files jobj
  let dclprocessorJobj ← addSection "pipeline" (getPipelineJson C files) dclprocessorJobj
  let dclprocessorJobj ← addSection "collector" (getCollectorJson C files) dclprocessorJobj
  let dclprocessorJobj ← addSection "messenger" (getMessengerJson C files) dclprocessorJobj
  (Json.object []).set "dclprocessor" dclprocessorJobj

/-- `struct dclprocessor_description` without the JSON. -/
structure DclprocessorDescription where
  useShmem : Int
  shmpath : Option String
  shmsize : Nat
  pipelineDesc : PipelineDescription
  collectorDesc : CollectorDescription

def parseDclprocessorJson (files : Files) (jobj : Json) : Option DclprocessorDescription := do
  let pipelineDesc ← parsePipelineJson C (getPipelineJson C files jobj)
  let collectorDesc ← parseCollectorJson C (getCollectorJson C files jobj)
  return {
    useShmem := intMember C jobj "use_shmem" 0
    shmpath := stringMember C jobj "shmem_segment_name"
    shmsize := toSize (intMember C jobj "shmem_segment_size" 0)
    pipelineDesc := pipelineDesc
    collectorDesc := collectorDesc }

/-- The server's description, and its `full_json`. -/
def loadDclprocessorDescription (files : Files) (jobj : Json) :
    Option (DclprocessorDescription × String) := do
  let desc ← parseDclprocessorJson C files (getDclprocessorJson C files jobj)
  let systemJobj ← constructFullObject C files jobj
  return (desc, C.toJsonString systemJobj)

/-- A module's description. -/
def loadDclprocessorDescriptionFromBuffer (files : Files) (buffer : String) :
    Option DclprocessorDescription :=
  let systemJobj := C.tokenerParse buffer
  parseDclprocessorJson C files (getDclprocessorJson C files systemJobj)

/-- Whatever the files contain when a module loads it, the module gets the pipeline and the
collector of the server. -/
def SelfContained (desc : DclprocessorDescription) (fullJson : String) : Prop :=
  ∀ files : Files, ∃ desc', loadDclprocessorDescriptionFromBuffer C files fullJson = some desc' ∧
    desc'.pipelineDesc = desc.pipelineDesc ∧ desc'.collectorDesc = desc.collectorDesc

variable {C} {files : Files} {jobj full : Json}

theorem getSection_inline {config key : String} (h : (jobj.get config).isNull = true) :
    getSection C config key files jobj = jobj.get key := by
  rw [getSection, if_pos h]

theorem getSection_file {config key : String} (h : (jobj.get config).isNull = false) :
    getSection C config key files jobj = (files (C.getString (jobj.get config))).get key := by
  rw [getSection, if_neg (by simp [h])]

/-- A section is added where there is none, and the other members stay. -/
theorem addSection_get {key : String} {getJson : Json → Json} {dcl dcl' : Json}
    (h : addSection key getJson dcl = some dcl') :
    dcl'.get key = (if (dcl.get key).isNull then getJson dcl else dcl.get key) ∧
      ∀ other, other ≠ key → dcl'.get other = dcl.get other := by
  rw [addSection] at h
  split at h
  case isTrue hnull =>
    rw [if_pos hnull]
    exact Json.get_set h
  case isFalse hsome =>
    obtain rfl : dcl = dcl' := Option.some.inj h
    exact ⟨(if_neg hsome).symm, fun _ _ => rfl⟩

/-- A section that is taken from the object itself is left as it is. -/
theorem addSection_inline {config key : String} {dcl dcl' : Json}
    (h : addSection key (getSection C config key files) dcl = some dcl')
    (hinline : (dcl.get config).isNull = true) : dcl'.get key = dcl.get key := by
  rw [(addSection_get h).1, getSection_inline hinline, ite_self]

/-- The published object has the server's `dclprocessor` inline. -/
theorem getDclprocessorJson_full {dcl : Json}
    (h : (Json.object []).set "dclprocessor" dcl = some full) (files : Files) :
    getDclprocessorJson C files full = dcl := by
  obtain ⟨hself, hother⟩ := Json.get_set h
  have hconfig : full.get "dclprocessor_config" = .null := hother _ (by decide)
  rw [getDclprocessorJson, getSection_inline (by rw [hconfig]; rfl), hself]

/-- What a module finds in the published object. -/
theorem constructFullObject_get {dcl : Json} (hdcl : getDclprocessorJson C files jobj = dcl)
    (h : constructFullObject C files jobj = some full) :
    ∃ dcl', (∀ files', getDclprocessorJson C files' full = dcl') ∧
      dcl'.get "pipeline_config" = dcl.get "pipeline_config" ∧
      dcl'.get "collector_config" = dcl.get "collector_config" ∧
      ((dcl.get "pipeline_config").isNull = true → dcl'.get "pipeline" = dcl.get "pipeline") ∧
      ((dcl.get "collector_config").isNull = true →
        dcl'.get "collector" = dcl.get "collector") := by
  simp only [constructFullObject, Option.bind_eq_bind, Option.bind_eq_some_iff, hdcl] at h
  obtain ⟨dcl₁, h₁, dcl₂, h₂, dcl₃, h₃, hset⟩ := h
  obtain ⟨-, hother₁⟩ := addSection_get h₁
  obtain ⟨-, hother₂⟩ := addSection_get h₂
  obtain ⟨-, hother₃⟩ := addSection_get h₃
  refine ⟨dcl₃, getDclprocessorJson_full hset, ?_, ?_, fun hinline => ?_, fun hinline => ?_⟩
  · rw [hother₃ _ (by decide), hother₂ _ (by decide), hother₁ _ (by decide)]
  · rw [hother₃ _ (by decide), hother₂ _ (by decide), hother₁ _ (by decide)]
  · rw [hother₃ _ (by decide), hother₂ _ (by decide), addSection_inline h₁ hinline]
  · have hconfig : (dcl₁.get "collector_config").isNull = true := by
      rwa [hother₁ _ (by decide)]
    rw [hother₃ _ (by decide), addSection_inline h₂ hconfig, hother₁ _ (by decide)]

section Counts

/-- A file whose section `key` has one member, an array of `n` empty elements. -/
def countingFile (key member : String) (n : Nat) : Json :=
  .object [(key, .object [(member, .array (List.replicate n .null))])]

theorem mapM_replicate {α β : Type*} {f : α → Option β} {a : α} {b : β} (h : f a = some b)
    (n : Nat) : (List.replicate n a).mapM f = some (List.replicate n b) := by
  induction n with
  | zero => rfl
  | succ n ih =>
    rw [List.replicate_succ, List.mapM_cons, h, ih]
    rfl

theorem countingFile_get (key member : String) (n : Nat) :
    ((countingFile key member n).get key).get member = .array (List.replicate n .null) ∧
      ∀ other, other ≠ member → ((countingFile key member n).get key).get other = .null := by
  have hsection : (countingFile key member n).get key =
      .object [(member, .array (List.replicate n .null))] := if_pos rfl
  rw [hsection]
  exact ⟨if_pos rfl, fun other hne => if_neg hne.symm⟩

/-- Every number of modules is that of some file. -/
theorem parsePipelineJson_counting (n : Nat) : ∃ desc,
    parsePipelineJson C ((countingFile "pipeline" "modules" n).get "pipeline") = some desc ∧
      desc.modulesCnt = n := by
  have hmodule : parseModuleJson C .null = some none := rfl
  have hmodules : parseModulesJson C (.array (List.replicate n .null)) =
      some (List.replicate n none) := mapM_replicate hmodule n
  simp only [parsePipelineJson, (countingFile_get "pipeline" "modules" n).1, hmodules]
  exact ⟨_, rfl, List.length_replicate⟩

theorem arrayMember_null {jobj : Json} {key : String} {size : Nat}
    (hnull : jobj.get key = .null) (hsize : 0 < size) : arrayMember C jobj key size = some "" := by
  have hmember : stringMember C jobj key = none := by
    rw [stringMember, hnull]
    rfl
  rw [arrayMember, hmember]
  exact if_pos hsize

theorem parseCollectorJson_counting (n : Nat) : ∃ desc,
    parseCollectorJson C ((countingFile "collector" "sources" n).get "collector") = some desc ∧
      desc.sourcesCnt = n := by
  obtain ⟨hsources, hother⟩ := countingFile_get "collector" "sources" n
  have hboost := arrayMember_null (C := C) (hother "boost_path" (by decide)) (by decide : 0 < 256)
  have hsource : parseSourceJson C .null = some none := rfl
  have hupdate : updateSourceDescription none = some ⟨0, "", "", "", 0, 0, 0, 0, 0, ""⟩ := rfl
  have hparse : parseSourcesJson C (.array (List.replicate n .null)) =
      some (List.replicate n none, List.replicate n ⟨0, "", "", "", 0, 0, 0, 0, 0, ""⟩) := by
    simp only [parseSourcesJson, elements, Option.getD_some, mapM_replicate hsource,
      Option.bind_eq_bind, Option.bind_some, mapM_replicate hupdate]
    rfl
  simp only [parseCollectorJson, hsources, hparse, hboost]
  exact ⟨_, rfl, List.length_replicate⟩

end Counts

theorem load_eq_some {desc : DclprocessorDescription} {fullJson : String}
    (h : loadDclprocessorDescription C files jobj = some (desc, fullJson)) :
    parseDclprocessorJson C files (getDclprocessorJson C files jobj) = some desc ∧
      ∃ full, constructFullObject C files jobj = some full ∧ fullJson = C.toJsonString full := by
  simp only [loadDclprocessorDescription, Option.bind_eq_bind, Option.bind_eq_some_iff,
    Option.pure_def, Option.some.injEq, Prod.mk.injEq] at h
  obtain ⟨desc', hdesc, full, hfull, rfl, rfl⟩ := h
  exact ⟨hdesc, full, hfull, rfl⟩

theorem parse_eq_some {desc : DclprocessorDescription} :
    parseDclprocessorJson C files jobj = some desc →
      parsePipelineJson C (getPipelineJson C files jobj) = some desc.pipelineDesc ∧
      parseCollectorJson C (getCollectorJson C files jobj) = some desc.collectorDesc := by
  intro h
  simp only [parseDclprocessorJson, Option.bind_eq_bind, Option.bind_eq_some_iff,
    Option.pure_def, Option.some.injEq] at h
  obtain ⟨pipelineDesc, hpipeline, collectorDesc, hcollector, rfl⟩ := h
  exact ⟨hpipeline, hcollector⟩

theorem parse_of_sections {pipelineDesc : PipelineDescription}
    {collectorDesc : CollectorDescription}
    (hpipeline : parsePipelineJson C (getPipelineJson C files jobj) = some pipelineDesc)
    (hcollector : parseCollectorJson C (getCollectorJson C files jobj) = some collectorDesc) :
    ∃ desc, parseDclprocessorJson C files jobj = some desc ∧ desc.pipelineDesc = pipelineDesc ∧
      desc.collectorDesc = collectorDesc := by
  simp only [parseDclprocessorJson, hpipeline, hcollector]
  exact ⟨_, rfl, rfl, rfl⟩

/-- **The full JSON is self-contained** if and only if the server's `dclprocessor` names no
configuration file for the pipeline and none for the collector. -/
theorem selfContained_iff {desc : DclprocessorDescription} {fullJson : String}
    (hload : loadDclprocessorDescription C files jobj = some (desc, fullJson))
    (hprint : ∀ full, constructFullObject C files jobj = some full →
      C.tokenerParse (C.toJsonString full) = full) :
    SelfContained C desc fullJson ↔
      ((getDclprocessorJson C files jobj).get "pipeline_config").isNull = true ∧
      ((getDclprocessorJson C files jobj).get "collector_config").isNull = true := by
  obtain ⟨hdesc, full, hfull, rfl⟩ := load_eq_some hload
  obtain ⟨hpipeline, hcollector⟩ := parse_eq_some hdesc
  obtain ⟨dcl', hdcl', hpipelineConfig, hcollectorConfig, hpipelineInline, hcollectorInline⟩ :=
    constructFullObject_get rfl hfull
  have hclient (files' : Files) :
      loadDclprocessorDescriptionFromBuffer C files' (C.toJsonString full) =
        parseDclprocessorJson C files' dcl' := by
    rw [loadDclprocessorDescriptionFromBuffer, hprint full hfull, hdcl']
  constructor
  · intro hself
    refine ⟨by_contra fun hconfig => ?_, by_contra fun hconfig => ?_⟩
    · rw [← hpipelineConfig, Bool.not_eq_true] at hconfig
      -- two contents of the file with different numbers of modules
      have hcount (n : Nat) : desc.pipelineDesc.modulesCnt = n := by
        obtain ⟨desc', hparsed, hsame, -⟩ := hself fun _ => countingFile "pipeline" "modules" n
        rw [hclient] at hparsed
        obtain ⟨pipelineDesc, hcounted, hn⟩ := parsePipelineJson_counting (C := C) n
        have hparsed := (parse_eq_some hparsed).1
        rw [getPipelineJson, getSection_file hconfig, hcounted] at hparsed
        rw [← hsame, ← Option.some.inj hparsed, hn]
      exact absurd ((hcount 0).symm.trans (hcount 1)) Nat.zero_ne_one
    · rw [← hcollectorConfig, Bool.not_eq_true] at hconfig
      have hcount (n : Nat) : desc.collectorDesc.sourcesCnt = n := by
        obtain ⟨desc', hparsed, -, hsame⟩ := hself fun _ => countingFile "collector" "sources" n
        rw [hclient] at hparsed
        obtain ⟨collectorDesc, hcounted, hn⟩ := parseCollectorJson_counting (C := C) n
        have hparsed := (parse_eq_some hparsed).2
        rw [getCollectorJson, getSection_file hconfig, hcounted] at hparsed
        rw [← hsame, ← Option.some.inj hparsed, hn]
      exact absurd ((hcount 0).symm.trans (hcount 1)) Nat.zero_ne_one
  · rintro ⟨hnoPipeline, hnoCollector⟩ files'
    rw [hclient]
    have hpipeline' : getPipelineJson C files' dcl' =
        getPipelineJson C files (getDclprocessorJson C files jobj) := by
      rw [getPipelineJson, getSection_inline (by rwa [hpipelineConfig]),
        getSection_inline hnoPipeline, hpipelineInline hnoPipeline]
    have hcollector' : getCollectorJson C files' dcl' =
        getCollectorJson C files (getDclprocessorJson C files jobj) := by
      rw [getCollectorJson, getSection_inline (by rwa [hcollectorConfig]),
        getSection_inline hnoCollector, hcollectorInline hnoCollector]
    exact parse_of_sections (hpipeline' ▸ hpipeline) (hcollector' ▸ hcollector)

/-- json-c as far as the two systems below need it: printing gives `text`, and parsing that
gives `jobj`. -/
def jsonC (text : String) (jobj : Json) : JsonC where
  getInt
    | .int n => n
    | _ => 0
  getString
    | .string s => s
    | _ => ""
  toJsonString _ := text
  tokenerParse _ := jobj

/-- A system without files. -/
def inlineSystem : Json :=
  .object [("dclprocessor", .object [("pipeline", .object [("data_chunk_count", .int 4)]),
    ("collector", .object [("boost_size", .int 4096)]),
    ("messenger", .object [("port", .string "8888")])])]

def inlineText : String :=
  "\x7b\n  \"dclprocessor\": \x7b\n    \"pipeline\": \x7b\n" ++
  "      \"data_chunk_count\": 4\n    \x7d,\n" ++
  "    \"collector\": \x7b\n      \"boost_size\": 4096\n    \x7d,\n" ++
  "    \"messenger\": \x7b\n      \"port\": \"8888\"\n    \x7d\n  \x7d\n\x7d"

def inlineC : JsonC := jsonC inlineText inlineSystem

theorem inline_loads :
    (loadDclprocessorDescription inlineC (fun _ => .null) inlineSystem).isSome = true := rfl

theorem selfContained_iff_inline : SelfContained inlineC
    ((loadDclprocessorDescription inlineC (fun _ => .null) inlineSystem).get inline_loads).1
    ((loadDclprocessorDescription inlineC (fun _ => .null) inlineSystem).get inline_loads).2 :=
  have hfull : constructFullObject inlineC (fun _ => .null) inlineSystem = some inlineSystem := rfl
  (selfContained_iff (Option.some_get inline_loads).symm
    fun _ h => Option.some.inj (hfull.symm.trans h)).mpr ⟨rfl, rfl⟩

/-- A system whose pipeline is in a file. -/
def configSystem : Json :=
  .object [("dclprocessor", .object [("pipeline_config", .string "pipeline.json")])]

/-- What is published while the file does not exist. -/
def configFull : Json :=
  .object [("dclprocessor", .object [("pipeline_config", .string "pipeline.json"),
    ("pipeline", .null), ("collector", .null), ("messenger", .null)])]

def configText : String :=
  "\x7b\n  \"dclprocessor\": \x7b\n    \"pipeline_config\": \"pipeline.json\",\n" ++
  "    \"pipeline\": null,\n    \"collector\": null,\n    \"messenger\": null\n  \x7d\n\x7d"

def configC : JsonC := jsonC configText configFull

/-- The server runs without modules, and a module that starts when the file is there has a
pipeline of one. -/
theorem file_read_again : ∃ desc,
    loadDclprocessorDescription configC (fun _ => .null) configSystem = some (desc, configText) ∧
      configC.tokenerParse configText = configFull ∧
      constructFullObject configC (fun _ => .null) configSystem = some configFull ∧
      ¬ SelfContained configC desc configText := by
  refine ⟨_, rfl, rfl, rfl, fun hself => ?_⟩
  obtain ⟨desc', hparsed, hsame, -⟩ := hself fun _ => countingFile "pipeline" "modules" 1
  have hone : desc'.pipelineDesc.modulesCnt = 1 := by
    obtain rfl := Option.some.inj hparsed
    rfl
  rw [hsame] at hone
  exact absurd hone Nat.zero_ne_one

end DclProcessor.Description
