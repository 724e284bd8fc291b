import DclProcessor.Construct.Init
import DclProcessor.Process.Table

/-!
Whether the process table has a slot for every module. Its size is taken from the description
in three ways, and the threads of the modules take one slot each.
-/

namespace DclProcessor.Construct

open Shmem Layout Process Pipeline.Startup
open Description (JsonC)

/-- Who makes the description: `pipeline_description_init` and a caller that fills in the
modules, or `parse_pipeline_json`. -/
inductive Origin
  | descriptionInit (shmpath : String) (dataCnt dataSize : BitVec 32) (minfos : List ModuleInfo)
  | parseJson (C : JsonC) (jobj : Json)

namespace Origin

def description : Origin → Option PipelineDescription
  | descriptionInit shmpath dataCnt dataSize minfos =>
    pipelineDescriptionInit shmpath dataCnt dataSize minfos
  | parseJson C jobj => jsonDescription C jobj

/-- The modules that are given. -/
def modulesCnt : Origin → Nat
  | descriptionInit _ _ _ minfos => minfos.length
  | parseJson _ jobj => ((Description.elements (jobj.get "modules")).getD []).length

end Origin

/-- Who makes the memory map. -/
inductive Owner
  | pipelineInit
  | dclprocessorInit

namespace Owner

def map (pdesc : PipelineDescription) : Owner → Option MemoryMapT
  | pipelineInit => (Pipeline.zero.describe pdesc).map Pipeline.memoryMap
  | dclprocessorInit => (commonMap pdesc).map Prod.fst

/-- No count overflows, the shared memory has a name, and where `parse_pipeline_json` leaves
the count to `pipeline_init` there are at most `PROCESS_MAX_CNT` modules. -/
def Reserves : Owner → Origin → Prop
  | pipelineInit, .descriptionInit _ _ _ minfos => minfos.length + 3 < 2 ^ 31
  | pipelineInit, .parseJson C jobj =>
    (jobj.get "shmem_segment_name").isNull = false ∧
      (Origin.parseJson C jobj).modulesCnt ≤ processMaxCnt.toNat
  | dclprocessorInit, origin => origin.modulesCnt + 4 < 2 ^ 31

end Owner

/-- `shmem + memory_get_process_offset(shmem)`, and the entry of `idx` in the table there. -/
def procInfo (map : MemoryMapT) (idx : Int) : Block :=
  ⟨map.getProcessOffset.toNat + idx.toNat * processInfoSize, processInfoSize⟩

def processSegment (map : MemoryMapT) : Block :=
  ⟨map.getProcessOffset.toNat, map.getProcessSize.toNat⟩

/-- The table of a fresh process that `pipeline_thread` has initialised. -/
def freshTable (map : MemoryMapT) (infos : Nat → ProcessInfo) (info : Nat) : ProcessMngr :=
  ((ProcessMngr.start infos).subsystemInit info map.processCnt.toInt none).2

/-- The table after the threads of some modules have called `process_start`. -/
def startAll : ProcessMngr → List Attempt → ProcessMngr
  | m, [] => m
  | m, attempt :: rest => startAll (m.processStart attempt).2 rest

/-- The table has a slot for every module: with one call of `process_start` for each, whose
binary is there gets an index of an entry inside the process segment. -/
structure HasSlots (map : MemoryMapT) (modulesCnt : Nat) : Prop where
  processCnt : (modulesCnt : Int) ≤ map.processCnt.toInt
  started : ∀ infos info earlier attempt, earlier.length < modulesCnt → attempt.CanSucceed →
    let idx := ((startAll (freshTable map infos info) earlier).processStart attempt).1
    0 ≤ idx ∧ (procInfo map idx).Within (processSegment map)

theorem startAll_counts {m : ProcessMngr} (attempts : List Attempt)
    (h : m.processCnt + attempts.length ≤ m.processCntMax) :
    (startAll m attempts).processCnt = m.processCnt + attempts.length ∧
      (startAll m attempts).processCntMax = m.processCntMax := by
  induction attempts generalizing m with
  | nil => exact ⟨(Int.add_zero _).symm, rfl⟩
  | cons attempt rest ih =>
    rw [List.length_cons] at h ⊢
    obtain ⟨hcnt, hmax⟩ := ProcessMngr.processStart_counts attempt
      (by omega : m.processCnt < m.processCntMax)
    obtain ⟨hcnt', hmax'⟩ := ih (m := (m.processStart attempt).2) (by omega)
    rw [startAll, hcnt', hmax', hcnt, hmax]
    omega

variable {map : MemoryMapT} {modulesCnt : Nat}

/-- An entry of the table lies in the segment, since the size of the segment does not wrap. -/
theorem procInfo_within (hsize : map.processSize = BitVec.ofNat 64 processInfoSize)
    {idx : Int} (h0 : 0 ≤ idx) (h : idx < map.processCnt.toInt) :
    (procInfo map idx).Within (processSegment map) := by
  have hcnt0 : 0 ≤ map.processCnt.toInt := by omega
  have hcnt := MemoryMapT.toNat_of_nonneg hcnt0
  have hlt := MemoryMapT.toNat_lt_of_nonneg hcnt0
  have hinfo : map.processSize.toNat = processInfoSize := by rw [hsize]; decide
  have hvalue : processInfoSize = 2208 := rfl
  have halign : memoryAlign (map.processCnt.toNat * map.processSize.toNat) < 2 ^ 64 := by
    rw [MemoryMap.memoryAlign_eq, hinfo, hvalue]
    omega
  have hsegment : map.getProcessSize.toNat =
      memoryAlign (map.processCnt.toNat * map.processSize.toNat) := by
    rw [MemoryMapT.getProcessSize, BitVec.mul_comm]
    exact MemoryMapT.toNat_align_mul hcnt0 halign
  have hentry : (procInfo map idx).Within
      ⟨map.getProcessOffset.toNat, map.processCnt.toNat * processInfoSize⟩ :=
    array_within (by omega : idx.toNat < map.processCnt.toNat)
  have hround := MemoryMapT.le_memoryAlign (map.processCnt.toNat * map.processSize.toNat)
  rw [hinfo] at hround hsegment
  refine ⟨hentry.1, ?_⟩
  rw [processSegment, hsegment]
  exact hentry.2.trans (Nat.add_le_add_left hround _)

/-- A count that reaches is all that is needed. -/
theorem hasSlots_iff (hsize : map.processSize = BitVec.ofNat 64 processInfoSize) :
    HasSlots map modulesCnt ↔ (modulesCnt : Int) ≤ map.processCnt.toInt := by
  refine ⟨fun h => h.processCnt, fun hcnt => ⟨hcnt, ?_⟩⟩
  intro infos info earlier attempt hearlier hcan
  have hinit : ¬ ∃ i ∈ (none : Option Nat), (i : Int) < map.processCnt.toInt := by simp
  obtain ⟨-, hstart, hmax⟩ :=
    ProcessMngr.subsystemInit_succeeds (m := .start infos) info hinit
  have hzero : (freshTable map infos info).processCnt = 0 := hstart
  have hfull : (freshTable map infos info).processCntMax = map.processCnt.toInt := hmax
  obtain ⟨hcnt', hmax'⟩ := startAll_counts (m := freshTable map infos info) earlier
    (by omega)
  obtain ⟨hid, -⟩ := ProcessMngr.processStart_id attempt
    (by omega : (startAll (freshTable map infos info) earlier).processCnt <
      (startAll (freshTable map infos info) earlier).processCntMax)
  have hidx := hid hcan
  simp only
  rw [hidx]
  exact ⟨by omega, procInfo_within hsize (by omega) (by omega)⟩

namespace Origin

variable {pdesc : PipelineDescription}

theorem description_descriptionInit {shmpath : String} {dataCnt dataSize : BitVec 32}
    {minfos : List ModuleInfo}
    (h : (descriptionInit shmpath dataCnt dataSize minfos).description = some pdesc) :
    pdesc.shmpath = some shmpath ∧ pdesc.minfos.length = minfos.length ∧
      minfos.length + 1 < 2 ^ 31 ∧ pdesc.procCnt.toInt = minfos.length + 1 := by
  simp only [description, pipelineDescriptionInit, Option.bind_eq_bind,
    Option.bind_eq_some_iff, Option.guard_eq_some'] at h
  obtain ⟨-, hlen, procCnt, hplus, hpdesc⟩ := h
  have hint := toInt_ofNat hlen
  have hfits : (BitVec.ofNat 32 minfos.length).toInt + 1 < 2 ^ 31 := by
    by_contra hover
    rw [plus_overflow (by omega)] at hplus
    cases hplus
  obtain ⟨j, hj, hvalue⟩ := plus_of_lt (by omega) (n := 1) hfits
  obtain rfl : j = procCnt := Option.some.inj (hj.symm.trans hplus)
  obtain rfl := Option.some.inj hpdesc
  exact ⟨rfl, List.length_map _, by omega, by simpa [hint] using hvalue⟩

end Origin

namespace Owner

variable {pdesc : PipelineDescription}

/-- The map of `pipeline_init` and its count. -/
theorem hasSlots_pipelineInit : (∃ map ∈ pipelineInit.map pdesc, HasSlots map modulesCnt) ↔
    ∃ procCnt, plProcCnt pdesc = some procCnt ∧ pdesc.shmpath ≠ none ∧
      (modulesCnt : Int) ≤ procCnt.toInt := by
  simp only [Owner.map, Pipeline.describe, Option.bind_eq_bind]
  cases plProcCnt pdesc with
  | none => simp
  | some procCnt =>
    cases pdesc.shmpath with
    | none => simp
    | some shmpath =>
      have hslots : HasSlots (memoryMapCreate procCnt pdesc.dataCnt (pdesc.dataSize.setWidth 32))
          modulesCnt ↔ (modulesCnt : Int) ≤ procCnt.toInt := hasSlots_iff rfl
      simpa [Pipeline.memoryMap] using hslots

theorem hasSlots_dclprocessorInit (pdesc : PipelineDescription)
    (hlen : pdesc.minfos.length < 2 ^ 31) :
    (∃ map ∈ dclprocessorInit.map pdesc, HasSlots map pdesc.minfos.length) ↔
      pdesc.minfos.length + 4 < 2 ^ 31 := by
  by_cases hfits : pdesc.minfos.length + 4 < 2 ^ 31
  · obtain ⟨procCnt, reserve, hprocCnt, -, hmap⟩ := commonMap_of_lt hfits
    refine iff_of_true ⟨_, by rw [Owner.map, hmap]; rfl, (hasSlots_iff rfl).mpr ?_⟩ hfits
    exact (by omega : (pdesc.minfos.length : Int) ≤ procCnt.toInt)
  · refine iff_of_false ?_ hfits
    rintro ⟨map, hmap, -⟩
    rw [Owner.map, commonMap_overflow hlen hfits] at hmap
    cases hmap

end Owner

/-- **The process table** has a slot for every module of exactly these descriptions. -/
theorem hasSlots_owner_iff (origin : Origin) (owner : Owner) {pdesc : PipelineDescription}
    (h : origin.description = some pdesc) :
    (∃ map ∈ owner.map pdesc, HasSlots map origin.modulesCnt) ↔ owner.Reserves origin := by
  cases origin with
  | descriptionInit shmpath dataCnt dataSize minfos =>
    obtain ⟨hpath, hlen, hbound, hprocCnt⟩ := Origin.description_descriptionInit h
    cases owner with
    | pipelineInit =>
      rw [Owner.hasSlots_pipelineInit, plProcCnt, if_pos (by omega), hpath]
      by_cases hfits : minfos.length + 3 < 2 ^ 31
      · obtain ⟨procCnt, hplus, hvalue⟩ := plus_of_lt
          (by omega : 0 ≤ pdesc.procCnt.toInt) (n := 2) (by omega)
        exact iff_of_true ⟨procCnt, hplus, by simp, by simp only [Origin.modulesCnt]; omega⟩ hfits
      · refine iff_of_false ?_ hfits
        rintro ⟨procCnt, hplus, -⟩
        rw [plus_overflow (by omega)] at hplus
        cases hplus
    | dclprocessorInit =>
      have hslots := Owner.hasSlots_dclprocessorInit pdesc (by omega)
      rw [hlen] at hslots
      exact hslots
  | parseJson C jobj =>
    have hjson : FromJson C jobj pdesc := fromJson_of_jsonDescription h
    cases owner with
    | pipelineInit =>
      have hzero : ¬ 0 < pdesc.procCnt.toInt := by rw [hjson.procCnt]; decide
      have hmax : processMaxCnt.toInt = processMaxCnt.toNat := by decide
      rw [Owner.hasSlots_pipelineInit, plProcCnt, if_neg hzero, hjson.shmpath,
        Owner.Reserves]
      simp only [Option.some_inj, exists_eq_left', hmax, Nat.cast_le]
      refine and_congr_left' ?_
      rw [Description.stringMember]
      cases (jobj.get "shmem_segment_name").isNull <;> simp
    | dclprocessorInit =>
      have hslots := Owner.hasSlots_dclprocessorInit pdesc hjson.modulesCnt_lt
      rw [hjson.modulesCnt] at hslots
      exact hslots

def moduleJson (id : Nat) (type : String) : Json :=
  .object [("id", .int id), ("type", .string type), ("name", .string "/usr/bin/module"),
    ("next", .int (id + 1))]

/-- A chain with a first and a last module and `n` between them. -/
def chainJson (n : Nat) : Json :=
  .object [("shmem_segment_name", .string "/procsegment"), ("data_chunk_size", .int 128),
    ("data_chunk_count", .int 16),
    ("modules", .array (moduleJson 0 "FIRST" :: ((List.range n).map fun i =>
      moduleJson (i + 1) "MIDDLE") ++ [moduleJson (n + 1) "LAST"]))]

def chain (n : Nat) : Origin := .parseJson Description.plainC (chainJson n)

theorem tenModules_hasSlots : ∃ pdesc, (chain 8).description = some pdesc ∧
    ∃ map ∈ Owner.pipelineInit.map pdesc, HasSlots map 10 :=
  ⟨_, rfl, (hasSlots_owner_iff (chain 8) .pipelineInit rfl).mpr ⟨by decide, by decide⟩⟩

theorem elevenModules_lackSlots : ∃ pdesc, (chain 9).description = some pdesc ∧
    ¬ ∃ map ∈ Owner.pipelineInit.map pdesc, HasSlots map 11 := by
  refine ⟨_, rfl, ?_⟩
  rintro ⟨map, hmap, hslots⟩
  have hcnt := hslots.processCnt
  obtain rfl := Option.some.inj hmap
  exact absurd hcnt (by decide)

end DclProcessor.Construct
