import DclProcessor.Description.Fill
import DclProcessor.Description.FullObject

/-!
The pipeline description as a whole, as `rw_pl_descriptor` writes and reads it. The writer puts
it under a member `pipeline`, where `get_pipeline_json` finds it; the reader of a buffer looks
for it in the object itself.
-/

namespace DclProcessor.Description

/-- The `int` that a `size_t` is passed as. -/
def newInt (n : Nat) : Int := ((n : Int) + 2 ^ 31) % 2 ^ 32 - 2 ^ 31

/-- `if (x) json_object_object_add(jobj, key, json_object_new_string(x))` -/
def stringEntry (key : String) (s : Option String) : List (String × Json) :=
  (s.map fun s => (key, Json.string s)).toList

def pipelineObject (desc : PipelineDescription) (shmpath : String) (modules : Json) : Json :=
  .object (stringEntry "id_string" desc.idString ++
    [("shmem_segment_name", .string shmpath), ("data_chunk_size", .int (newInt desc.dataSize)),
     ("data_chunk_count", .int desc.dataCnt), ("modules", modules)])

/-- What `fill_pl_json` stores in `*p_pl_json`, if it does. -/
def fillPlJson (desc : PipelineDescription) : Option (Option Json) :=
  match desc.shmpath with
  | none => some none
  | some shmpath => do
    let modules ← fillModulesJson desc.minfos
    return some (.object [("pipeline", pipelineObject desc shmpath modules)])

variable (C : JsonC)

/-- `write_pipeline_description_to_buffer`, if there is something to write. -/
def writePipelineDescriptionToBuffer (desc : PipelineDescription) : Option (Option String) := do
  let plJson ← fillPlJson desc
  return plJson.map C.toJsonString

def loadPipelineConfigurationFromBuffer (buffer : String) : Option PipelineDescription :=
  parsePipelineJson C (C.tokenerParse buffer)

/-- `pipeline_description_create` -/
def PipelineDescription.zero : PipelineDescription := ⟨none, none, 0, [], 0, 0⟩

/-- What is left of a description when it has been written. -/
def PipelineDescription.external (desc : PipelineDescription) : PipelineDescription :=
  let minfos := (desc.minfos.reduceOption.filter fun minfo => minfo.argv.isSome).map some
  { desc with modulesCnt := minfos.length, minfos := minfos }

/-- What holds of every description that is parsed. -/
structure PipelineDescription.Parsed (desc : PipelineDescription) : Prop where
  shmpath : ∀ s ∈ desc.shmpath, IsCString s
  idString : ∀ s ∈ desc.idString, IsCString s
  modulesCnt : desc.modulesCnt = desc.minfos.length
  minfos : ∀ minfo, some minfo ∈ desc.minfos → minfo.Parsed
  dataCnt : IntRange desc.dataCnt
  dataSize : ∃ n, IntRange n ∧ desc.dataSize = toSize n

section Parsed

variable {C : JsonC} {jobj : Json} {desc : PipelineDescription}

theorem newInt_toSize {n : Int} (h : IntRange n) : newInt (toSize n) = n := by
  obtain ⟨hlow, hhigh⟩ := h
  have hsize : ((toSize n : Nat) : Int) = n % 2 ^ 64 := Int.toNat_of_nonneg (by omega)
  rw [newInt, hsize]
  omega

theorem mem_of_mapM {α β : Type*} {f : α → Option β} {elems : List α} {parsed : List β}
    (h : elems.mapM f = some parsed) {y : β} (hy : y ∈ parsed) : ∃ x ∈ elems, f x = some y := by
  induction elems generalizing parsed with
  | nil =>
    obtain rfl : [] = parsed := Option.some.inj h
    cases hy
  | cons x elems ih =>
    obtain ⟨first, rest, hfirst, hrest, rfl⟩ := mapM_cons_eq_some h
    rcases List.mem_cons.mp hy with rfl | hy
    · exact ⟨x, List.mem_cons_self .., hfirst⟩
    · obtain ⟨x', hx', hf⟩ := ih hrest hy
      exact ⟨x', List.mem_cons_of_mem _ hx', hf⟩

theorem stringMember_isCString (hC : C.Lawful) {key s : String}
    (h : s ∈ stringMember C jobj key) : IsCString s := by
  rw [stringMember] at h
  split at h
  · cases h
  · cases h
    exact hC.getString_isCString _

theorem parsed_of_parsePipeline (hC : C.Lawful) (h : parsePipelineJson C jobj = some desc) :
    desc.Parsed := by
  obtain ⟨minfos, hminfos, h⟩ := Option.bind_eq_some_iff.mp h
  obtain rfl := Option.some.inj h
  refine ⟨fun s hs => stringMember_isCString hC hs, fun s hs => stringMember_isCString hC hs, rfl,
    fun minfo hmem => ?_, hC.intMember_range _ _ (by decide),
    ⟨_, hC.intMember_range _ _ (by decide), rfl⟩⟩
  obtain ⟨moduleJson, -, hparse⟩ := mem_of_mapM hminfos hmem
  exact (parsed_of_parse hC hparse).1

end Parsed

section Written

variable {C : JsonC} {desc : PipelineDescription} {jobj modules : Json} {shmpath : String}

/-- The members behind the optional one. -/
theorem get_pipelineObject {key : String} (h : key ≠ "id_string") :
    (pipelineObject desc shmpath modules).get key = Json.find key
      [("shmem_segment_name", .string shmpath), ("data_chunk_size", .int (newInt desc.dataSize)),
       ("data_chunk_count", .int desc.dataCnt), ("modules", modules)] := by
  rw [pipelineObject]
  cases desc.idString with
  | none => rfl
  | some s => exact if_neg h.symm

theorem stringMember_idString (hC : C.Lawful) (h : desc.Parsed) :
    stringMember C (pipelineObject desc shmpath modules) "id_string" = desc.idString := by
  have hstring := h.idString
  rw [stringMember, pipelineObject]
  generalize desc.idString = idString at hstring ⊢
  cases idString with
  | none => rfl
  | some s => exact congrArg some (hC.getString_string s (hstring s rfl))

/-- What was written of a description is read as it was, but for some of its modules. -/
theorem parsePipelineJson_written (hC : C.Lawful) (h : desc.Parsed)
    (hshm : desc.shmpath = some shmpath) {minfos : List (Option ModuleInfo)}
    (hmodules : parseModulesJson C modules = some minfos) :
    parsePipelineJson C (pipelineObject desc shmpath modules) =
      some { desc with modulesCnt := minfos.length, minfos := minfos } := by
  obtain ⟨n, hn, hsize⟩ := h.dataSize
  have hget : (pipelineObject desc shmpath modules).get "modules" = modules :=
    get_pipelineObject (by decide)
  have hpath : stringMember C (pipelineObject desc shmpath modules) "shmem_segment_name" =
      desc.shmpath := by
    rw [stringMember, get_pipelineObject (by decide), hshm]
    exact congrArg some (hC.getString_string _ (h.shmpath _ hshm))
  have hcnt : intMember C (pipelineObject desc shmpath modules) "data_chunk_count" 0 =
      desc.dataCnt := by
    rw [intMember, get_pipelineObject (by decide)]
    exact hC.getInt_of_range h.dataCnt
  have hdata : intMember C (pipelineObject desc shmpath modules) "data_chunk_size" 0 = n := by
    rw [intMember, get_pipelineObject (by decide)]
    have hread : C.getInt (.int (newInt desc.dataSize)) = n := by
      rw [hsize, newInt_toSize hn, hC.getInt_of_range hn]
    exact hread
  rw [parsePipelineJson, hget, hmodules, hpath, hcnt, hdata, stringMember_idString hC h, ← hsize]
  rfl

/-- Nothing has been lost if and only if every module has a command string. -/
theorem external_eq_iff (h : desc.modulesCnt = desc.minfos.length) : desc.external = desc ↔
    ∀ minfo ∈ desc.minfos, ∃ m, minfo = some m ∧ m.argv ≠ none := by
  have hlists : desc.external = desc ↔
      (desc.minfos.reduceOption.filter fun minfo => minfo.argv.isSome).map some = desc.minfos := by
    obtain ⟨_, _, cnt, minfos, _, _⟩ := desc
    simp only at h
    simp only [PipelineDescription.external, PipelineDescription.mk.injEq, true_and, and_true]
    exact ⟨And.right, fun hsame => ⟨by rw [hsame, h], hsame⟩⟩
  rw [hlists]
  constructor
  · intro hsame minfo hmem
    rw [← hsame] at hmem
    obtain ⟨m, hm, rfl⟩ := List.mem_map.mp hmem
    exact ⟨m, rfl, by simpa [Option.isSome_iff_ne_none] using (List.mem_filter.mp hm).2⟩
  · intro hall
    generalize desc.minfos = minfos at hall
    induction minfos with
    | nil => rfl
    | cons minfo minfos ih =>
      obtain ⟨⟨m, rfl, hargv⟩, hrest⟩ := List.forall_mem_cons.mp hall
      rw [List.reduceOption_cons_of_some, List.filter_cons_of_pos
        (by simpa [Option.isSome_iff_ne_none] using hargv), List.map_cons, ih hrest]

/-- **A description that is written and read again.** Through `get_pipeline_json` everything
comes back but the modules without a command string; through
`load_pipeline_configuration_from_buffer` nothing does. -/
theorem pipelineDescription_rewritten (hC : C.Lawful) (hparse : parsePipelineJson C jobj = some desc)
    (hshm : desc.shmpath ≠ none) (htypes : ∀ minfo, some minfo ∈ desc.minfos → minfo.type ≠ -1)
    (hprint : ∀ plJson, fillPlJson desc = some (some plJson) →
      C.tokenerParse (C.toJsonString plJson) = plJson) :
    ∃ text, writePipelineDescriptionToBuffer C desc = some (some text) ∧
      (∀ files, parsePipelineJson C (getPipelineJson C files (C.tokenerParse text)) =
        some desc.external) ∧
      (desc.external = desc ↔ ∀ minfo ∈ desc.minfos, ∃ m, minfo = some m ∧ m.argv ≠ none) ∧
      loadPipelineConfigurationFromBuffer C text = some .zero := by
  have hparsed := parsed_of_parsePipeline hC hparse
  obtain ⟨shmpath, hsome⟩ := Option.ne_none_iff_exists'.mp hshm
  obtain ⟨modules, hfill, hmodules⟩ := parseModulesJson_fill hC fun minfo hmem =>
    ⟨hparsed.minfos minfo hmem, htypes minfo hmem⟩
  have hjson : fillPlJson desc =
      some (some (.object [("pipeline", pipelineObject desc shmpath modules)])) := by
    simp [fillPlJson, hsome, hfill]
  have hwrite : writePipelineDescriptionToBuffer C desc = some (some (C.toJsonString
      (.object [("pipeline", pipelineObject desc shmpath modules)]))) := by
    simp [writePipelineDescriptionToBuffer, hjson]
  refine ⟨_, hwrite, fun files => ?_, external_eq_iff hparsed.modulesCnt, ?_⟩
  · have hinline : getPipelineJson C files
        (.object [("pipeline", pipelineObject desc shmpath modules)]) =
          pipelineObject desc shmpath modules := getSection_inline rfl
    rw [hprint _ hjson, hinline, parsePipelineJson_written hC hparsed hsome hmodules]
    rfl
  · rw [loadPipelineConfigurationFromBuffer, hprint _ hjson]
    rfl

end Written

section Runs

/-- A pipeline of a program and a module of the process itself. -/
def demoConfig : Json :=
  .object [("id_string", .string "demo"), ("shmem_segment_name", .string "shmem"),
    ("data_chunk_size", .int 64), ("data_chunk_count", .int 2), ("modules", .array
      [.object [("id", .int 1), ("type", .string "MIDDLE"), ("next", .int 2),
        ("name", .string "filter"), ("parameters", .array [.string "-v"])],
       .object [("id", .int 2), ("type", .string "LAST")]])]

def demoDescription : PipelineDescription where
  shmpath := some "shmem"
  idString := some "demo"
  modulesCnt := 2
  minfos := [some ⟨1, 2, 1, 2, some ["filter", "-v"]⟩, some ⟨2, 0, 0, -1, none⟩]
  dataCnt := 2
  dataSize := toSize 64

def demoWritten : Json :=
  .object [("pipeline", .object [("id_string", .string "demo"),
    ("shmem_segment_name", .string "shmem"), ("data_chunk_size", .int 64),
    ("data_chunk_count", .int 2), ("modules", .array
      [.object [("id", .int 1), ("type", .string "MIDDLE"), ("next", .int 2),
        ("name", .string "filter"), ("parameters", .array [.string "-v"])]])])]

def demoText : String :=
  "\x7b\n  \"pipeline\": \x7b\n    \"id_string\": \"demo\",\n" ++
  "    \"shmem_segment_name\": \"shmem\",\n    \"data_chunk_size\": 64,\n" ++
  "    \"data_chunk_count\": 2,\n    \"modules\": [\n      \x7b\n        \"id\": 1,\n" ++
  "        \"type\": \"MIDDLE\",\n        \"next\": 2,\n        \"name\": \"filter\",\n" ++
  "        \"parameters\": [\n          \"-v\"\n        ]\n      \x7d\n    ]\n  \x7d\n\x7d"

/-- json-c on what is written here. -/
def demoC : JsonC :=
  { cuttingC with toJsonString := fun _ => demoText, tokenerParse := fun _ => demoWritten }

theorem demoC_lawful : demoC.Lawful where
  getInt_range := cuttingC_lawful.getInt_range
  getInt_int := cuttingC_lawful.getInt_int
  getString_isCString := cuttingC_lawful.getString_isCString
  getString_string := cuttingC_lawful.getString_string

theorem pipelineDescription_rewritten_demo :
    ∃ text, writePipelineDescriptionToBuffer demoC demoDescription = some (some text) ∧
      (∀ files, parsePipelineJson demoC (getPipelineJson demoC files (demoC.tokenerParse text)) =
        some demoDescription.external) ∧
      loadPipelineConfigurationFromBuffer demoC text = some .zero := by
  have hmodules : parseModulesJson demoC (demoConfig.get "modules") = some demoDescription.minfos :=
    rfl
  have hparse : parsePipelineJson demoC demoConfig = some demoDescription := by
    rw [parsePipelineJson, hmodules]
    rfl
  have hsize : newInt (toSize 64) = 64 := newInt_toSize (by decide)
  have hfill : fillPlJson demoDescription = some (some demoWritten) := by
    simp only [fillPlJson, pipelineObject, demoDescription, hsize]
    rfl
  obtain ⟨text, hwrite, hread, -, hbuffer⟩ := pipelineDescription_rewritten demoC_lawful hparse
    (by simp [demoDescription]) (by simp [demoDescription])
    (fun plJson h => Option.some.inj (Option.some.inj (hfill.symm.trans h)))
  exact ⟨text, hwrite, hread, hbuffer⟩

end Runs

end DclProcessor.Description
