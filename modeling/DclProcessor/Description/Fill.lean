import DclProcessor.Description.Accessors
import Mathlib.Data.List.ReduceOption

/-!
The writer of the pipeline description: `fill_module_json` makes a JSON object of a module,
which `parse_module_json` reads again. `none` where the code has no defined result: a null
pointer that is copied.
-/

namespace DclProcessor.Description

/-- `get_type_str` -/
def getTypeStr (type : Int) : Option String :=
  if type = 0 then some "LAST" else if type = 1 then some "FIRST"
  else if type = 2 then some "MIDDLE" else none

def moduleObject (minfo : ModuleInfo) (type name : String) (params : List String) : Json :=
  .object [("id", .int minfo.id), ("type", .string type), ("next", .int minfo.next),
    ("name", .string name), ("parameters", .array (params.map .string))]

/-- What `fill_module_json` stores in `*p_module_json`, if it does. -/
def fillModuleJson : Option ModuleInfo → Option (Option Json)
  | none => some none
  | some minfo => do
    let type ← getTypeStr minfo.type
    match minfo.argv with
    -- `return` comes before the object is stored
    | none => some none
    | some [] => none
    | some (name :: params) => some (some (moduleObject minfo type name params))

/-- `fill_modules_json` -/
def fillModulesJson (minfos : List (Option ModuleInfo)) : Option Json := do
  let jobjs ← minfos.mapM fillModuleJson
  return .array jobjs.reduceOption

/-- The module is read as it was written. -/
def RoundTrips (C : JsonC) (minfo : ModuleInfo) : Prop :=
  ∃ jobj, fillModuleJson (some minfo) = some (some jobj) ∧
    parseModuleJson C jobj = some (some minfo)

/-- What holds of every module that is parsed. -/
structure ModuleInfo.Parsed (minfo : ModuleInfo) : Prop where
  id : IntRange minfo.id
  type : minfo.type = -1 ∨ ∃ typeStr, getTypeStr minfo.type = some typeStr
  next : IntRange minfo.next
  mode : minfo.mode = if minfo.argv.isSome then 1 else 0
  argv : ∀ argv ∈ minfo.argv, argv ≠ [] ∧ ∀ arg ∈ argv, IsCString arg

section Members

variable (C : JsonC) {moduleJson : Json}

/-- The module that is read of an object, with its command string. -/
def moduleInfo (moduleJson : Json) (argv : Option (List String)) : ModuleInfo where
  id := intMember C moduleJson "id" 0
  type := ((stringMember C moduleJson "type").map getTypeVal).getD 0
  mode := if argv.isSome then 1 else 0
  next := intMember C moduleJson "next" (-1)
  argv := argv

theorem parseModuleJson_nameless (h : moduleJson.isNull = false)
    (hname : (moduleJson.get "name").isNull = true) :
    parseModuleJson C moduleJson = some (some (moduleInfo C moduleJson none)) := by
  simp only [parseModuleJson, h, stringMember, hname]
  rfl

theorem parseModuleJson_named (h : moduleJson.isNull = false)
    (hname : (moduleJson.get "name").isNull = false) :
    parseModuleJson C moduleJson =
      (parseParameters C ((elements (moduleJson.get "parameters")).getD [])).map fun params =>
        some (moduleInfo C moduleJson (some (C.getString (moduleJson.get "name") :: params))) := by
  simp only [parseModuleJson, h, stringMember, hname]
  cases parseParameters C ((elements (moduleJson.get "parameters")).getD []) <;> rfl

end Members

section Parse

variable {C : JsonC} (hC : C.Lawful)

theorem getTypeVal_range (typeStr : String) :
    getTypeVal typeStr = -1 ∨ ∃ s, getTypeStr (getTypeVal typeStr) = some s := by
  unfold getTypeVal
  repeat' split
  all_goals simp [getTypeStr]

/-- Reading the name of a type gives the type. -/
theorem getTypeVal_of_getTypeStr {type : Int} {typeStr : String}
    (h : getTypeStr type = some typeStr) : getTypeVal typeStr = type ∧ IsCString typeStr := by
  unfold getTypeStr at h
  split at h
  · cases h
    exact ⟨by simp [getTypeVal, *], by decide⟩
  · split at h
    · cases h
      exact ⟨by simp [getTypeVal, *], by decide⟩
    · split at h
      · cases h
        exact ⟨by simp [getTypeVal, *], by decide⟩
      · cases h

include hC

theorem parseParameters_isCString {params : List Json} {args : List String}
    (h : parseParameters C params = some args) : ∀ arg ∈ args, IsCString arg := by
  induction params generalizing args with
  | nil =>
    obtain rfl : [] = args := Option.some.inj h
    simp
  | cons param params ih =>
    obtain ⟨first, rest, hfirst, hrest, rfl⟩ := mapM_cons_eq_some h
    refine List.forall_mem_cons.mpr ⟨?_, ih hrest⟩
    split at hfirst
    · cases hfirst
    · obtain rfl := Option.some.inj hfirst
      exact hC.getString_isCString _

/-- Parameters that are strings are read as they are. -/
theorem parseParameters_strings {args : List String} (h : ∀ arg ∈ args, IsCString arg) :
    parseParameters C (args.map .string) = some args := by
  induction args with
  | nil => rfl
  | cons arg args ih =>
    obtain ⟨harg, hargs⟩ := List.forall_mem_cons.mp h
    have hrest := ih hargs
    rw [parseParameters] at hrest
    rw [parseParameters, List.map_cons, List.mapM_cons, hrest]
    simp [Json.isNull, hC.getString_string arg harg]

/-- What is parsed of a value that is there. -/
theorem parsed_moduleInfo (moduleJson : Json) {argv : Option (List String)}
    (h : ∀ args ∈ argv, args ≠ [] ∧ ∀ arg ∈ args, IsCString arg) :
    (moduleInfo C moduleJson argv).Parsed := by
  refine ⟨?_, ?_, ?_, rfl, h⟩
  · exact hC.intMember_range _ _ (by decide)
  · rw [moduleInfo]
    cases stringMember C moduleJson "type" with
    | none => exact Or.inr ⟨"LAST", rfl⟩
    | some typeStr => exact getTypeVal_range typeStr
  · exact hC.intMember_range _ _ (by decide)

/-- A module that is parsed has a command string if there is a name. -/
theorem parsed_of_parse {moduleJson : Json} {minfo : ModuleInfo}
    (h : parseModuleJson C moduleJson = some (some minfo)) :
    minfo.Parsed ∧ (minfo.argv = none ↔ (moduleJson.get "name").isNull = true) := by
  have hobject : moduleJson.isNull = false := by
    rw [← Bool.not_eq_true]
    intro hnull
    rw [parseModuleJson, if_pos hnull] at h
    cases h
  cases hname : (moduleJson.get "name").isNull with
  | true =>
    rw [parseModuleJson_nameless C hobject hname] at h
    obtain rfl := Option.some.inj (Option.some.inj h)
    exact ⟨parsed_moduleInfo hC _ (by simp), by simp [moduleInfo]⟩
  | false =>
    rw [parseModuleJson_named C hobject hname] at h
    obtain ⟨params, hparams, h⟩ := Option.map_eq_some_iff.mp h
    obtain rfl := Option.some.inj h
    refine ⟨parsed_moduleInfo hC _ fun args hargs => ?_, by simp [moduleInfo]⟩
    obtain rfl := Option.some.inj hargs
    exact ⟨List.cons_ne_nil _ _, List.forall_mem_cons.mpr
      ⟨hC.getString_isCString _, parseParameters_isCString hC hparams⟩⟩

/-- The members of a written object are read as they were. -/
theorem moduleInfo_moduleObject {minfo : ModuleInfo} (h : minfo.Parsed) {typeStr : String}
    (htype : getTypeStr minfo.type = some typeStr) {name : String} {params : List String}
    (hargv : minfo.argv = some (name :: params)) :
    moduleInfo C (moduleObject minfo typeStr name params) (some (name :: params)) = minfo := by
  obtain ⟨htypeVal, htypeCString⟩ := getTypeVal_of_getTypeStr htype
  have hid : intMember C (moduleObject minfo typeStr name params) "id" 0 = minfo.id :=
    hC.getInt_of_range h.id
  have hnext : intMember C (moduleObject minfo typeStr name params) "next" (-1) = minfo.next :=
    hC.getInt_of_range h.next
  have hread : stringMember C (moduleObject minfo typeStr name params) "type" = some typeStr :=
    congrArg some (hC.getString_string _ htypeCString)
  have hmode := h.mode
  rw [hargv] at hmode
  rw [moduleInfo, hid, hnext, hread, Option.map_some, htypeVal, Option.getD_some]
  obtain ⟨id, type, mode, next, argv⟩ := minfo
  simp only at hmode hargv
  rw [hmode, hargv]

/-- A module with a command string is read as it was written. -/
theorem roundTrips_external {minfo : ModuleInfo} (h : minfo.Parsed) (htype : minfo.type ≠ -1)
    (hargv : minfo.argv ≠ none) : RoundTrips C minfo := by
  obtain ⟨typeStr, htypeStr⟩ := h.type.resolve_left htype
  obtain ⟨argv, hsome⟩ := Option.ne_none_iff_exists'.mp hargv
  obtain ⟨hne, hall⟩ := h.argv argv hsome
  obtain ⟨name, params, rfl⟩ := List.exists_cons_of_ne_nil hne
  obtain ⟨hname, hparams⟩ := List.forall_mem_cons.mp hall
  refine ⟨moduleObject minfo typeStr name params, by simp [fillModuleJson, htypeStr, hsome], ?_⟩
  have hread : parseParameters C ((elements
      ((moduleObject minfo typeStr name params).get "parameters")).getD []) = some params :=
    parseParameters_strings hC hparams
  have hnameRead : C.getString ((moduleObject minfo typeStr name params).get "name") = name :=
    hC.getString_string _ hname
  rw [parseModuleJson_named C rfl rfl, hread, hnameRead, Option.map_some,
    moduleInfo_moduleObject hC h htypeStr hsome]

omit hC in
/-- Without one, nothing is stored. -/
theorem not_roundTrips_internal {minfo : ModuleInfo} (hargv : minfo.argv = none) :
    ¬ RoundTrips C minfo := by
  rintro ⟨jobj, hfill, -⟩
  obtain ⟨typeStr, -, h⟩ := Option.bind_eq_some_iff.mp hfill
  rw [hargv] at h
  cases h

/-- **A parsed module is read as it was written** if and only if it has a name. -/
theorem roundTrips_iff {moduleJson : Json} {minfo : ModuleInfo}
    (h : parseModuleJson C moduleJson = some (some minfo)) (htype : minfo.type ≠ -1) :
    RoundTrips C minfo ↔ (moduleJson.get "name").isNull = false := by
  obtain ⟨hparsed, hname⟩ := parsed_of_parse hC h
  rw [← Bool.not_eq_true, ← hname]
  constructor
  · intro hround hargv
    exact not_roundTrips_internal hargv hround
  · exact roundTrips_external hC hparsed htype

/-! ## The modules of a pipeline -/

/-- Of the modules of a pipeline those without a command string are lost. -/
theorem parseModulesJson_fill {minfos : List (Option ModuleInfo)}
    (h : ∀ minfo, some minfo ∈ minfos → minfo.Parsed ∧ minfo.type ≠ -1) :
    ∃ jobj, fillModulesJson minfos = some jobj ∧ parseModulesJson C jobj =
      some ((minfos.reduceOption.filter fun minfo => minfo.argv.isSome).map some) := by
  suffices hall : ∃ jobjs, minfos.mapM fillModuleJson = some jobjs ∧
      jobjs.reduceOption.mapM (parseModuleJson C) =
        some ((minfos.reduceOption.filter fun minfo => minfo.argv.isSome).map some) by
    obtain ⟨jobjs, hfill, hparse⟩ := hall
    exact ⟨.array jobjs.reduceOption, by simp [fillModulesJson, hfill], hparse⟩
  induction minfos with
  | nil => exact ⟨[], rfl, rfl⟩
  | cons minfo minfos ih =>
    obtain ⟨jobjs, hfill, hparse⟩ := ih fun minfo hmem => h minfo (List.mem_cons_of_mem _ hmem)
    cases minfo with
    | none =>
      refine ⟨none :: jobjs, ?_, by rwa [List.reduceOption_cons_of_none,
        List.reduceOption_cons_of_none]⟩
      rw [List.mapM_cons, hfill]
      rfl
    | some minfo =>
      obtain ⟨hparsed, htype⟩ := h minfo (List.mem_cons_self ..)
      rw [List.reduceOption_cons_of_some]
      cases hargv : minfo.argv with
      | none =>
        obtain ⟨typeStr, htypeStr⟩ := hparsed.type.resolve_left htype
        have hone : fillModuleJson (some minfo) = some none := by
          simp [fillModuleJson, htypeStr, hargv]
        refine ⟨none :: jobjs, ?_, ?_⟩
        · rw [List.mapM_cons, hone, hfill]
          rfl
        · rw [List.reduceOption_cons_of_none, hparse, List.filter_cons_of_neg (by simp [hargv])]
      | some argv =>
        obtain ⟨jobj, hone, hread⟩ := roundTrips_external hC hparsed htype (by simp [hargv])
        refine ⟨some jobj :: jobjs, ?_, ?_⟩
        · rw [List.mapM_cons, hone, hfill]
          rfl
        · rw [List.reduceOption_cons_of_some, List.mapM_cons, hread, hparse,
            List.filter_cons_of_pos (by simp [hargv])]
          rfl

end Parse

section Runs

/-- A module that is started from a program. -/
def externalModule : Json :=
  .object [("id", .int 1), ("type", .string "MIDDLE"), ("next", .int 2),
    ("name", .string "/opt/filter"), ("parameters", .array [.string "-v", .string ""])]

/-- A module of the process itself. -/
def internalModule : Json := .object [("id", .int 2), ("type", .string "LAST")]

theorem roundTrips_iff_external :
    RoundTrips cuttingC ⟨1, 2, 1, 2, some ["/opt/filter", "-v", ""]⟩ :=
  have hparse : parseModuleJson cuttingC externalModule =
      some (some ⟨1, 2, 1, 2, some ["/opt/filter", "-v", ""]⟩) := rfl
  (roundTrips_iff cuttingC_lawful hparse (by decide)).mpr rfl

/-- The module of the process itself is not written. -/
theorem internal_not_written :
    parseModuleJson cuttingC internalModule = some (some ⟨2, 0, 0, -1, none⟩) ∧
      fillModuleJson (some ⟨2, 0, 0, -1, none⟩) = some none ∧
      ¬ RoundTrips cuttingC ⟨2, 0, 0, -1, none⟩ := by
  refine ⟨rfl, rfl, ?_⟩
  rintro ⟨jobj, hfill, -⟩
  cases hfill

end Runs

end DclProcessor.Description
