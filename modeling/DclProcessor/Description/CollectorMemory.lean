import Mathlib.Data.List.Forall2
import DclProcessor.Description.SourceMemory

/-!
A collector description in memory: `parse_collector_json` copies the path of the boost region
to its array like the texts of a source, and goes through the sources.
-/

namespace DclProcessor.Description

open Bytes

/-- `boost_path` in `struct collector_description` -/
def boostPath : TextArray := ⟨"boost_path", 28, 255⟩

/-- `struct collector_description` up to the pointer `output_path`. -/
def collectorSize : Nat := 296

section Collector

variable (C : JsonC)

/-- `parse_collector_json` up to the sources. -/
def boostMemory (jobj : Json) : Option Memory :=
  match copyMember C jobj boostPath with
  | none => some fun _ => 0
  | some slot => do
    let mem ← Bytes.strcpy collectorSize (fun _ => 0) slot.dst slot.src
    let path ← strAt mem slot.dst collectorSize
    let mem := if 1 < path.length then store mem 24 (leBytes 4 1) else mem
    return storeMember C 288 8 jobj "boost_size" mem

/-- The descriptions of `parse_sources_json`. -/
def sourcesMemory (sourcesJson : Json) : Option (List Memory) :=
  ((elements sourcesJson).getD []).mapM (sourceMemory C)

def collectorMemory (jobj : Json) : Option (Memory × List Memory) := do
  let boost ← boostMemory C jobj
  let sources ← sourcesMemory C (jobj.get "sources")
  return (boost, sources)

end Collector

section Boost

variable {C : JsonC} {jobj : Json}

/-- The size that the parser of records finds. -/
def boostSize (C : JsonC) (jobj : Json) : Nat :=
  if (jobj.get "boost_path").isNull then 0 else toSize (intMember C jobj "boost_size" 0)

theorem ascending_boostPath {slot : Slot} (h : copyMember C jobj boostPath = some slot) :
    Ascending collectorSize [slot] := by
  obtain ⟨hdst, hsize, -⟩ := copyMember_eq_some h
  refine ⟨List.pairwise_singleton _ _, fun a ha => ?_⟩
  rw [List.mem_singleton.mp ha, hdst, hsize]
  decide

theorem copyAll_singleton (limit : Nat) (slot : Slot) (mem : Memory) :
    copyAll limit [slot] mem = Bytes.strcpy limit mem slot.dst slot.src := by
  rw [copyAll]
  cases Bytes.strcpy limit mem slot.dst slot.src <;> rfl

/-- The memory after the path was copied. -/
def withSize (C : JsonC) (jobj : Json) (mem : Memory) (path : List UInt8) : Memory :=
  storeMember C 288 8 jobj "boost_size"
    (if 1 < path.length then store mem 24 (leBytes 4 1) else mem)

theorem boostMemory_copy {slot : Slot} (h : copyMember C jobj boostPath = some slot) :
    boostMemory C jobj = (Bytes.strcpy collectorSize (fun _ => 0) slot.dst slot.src).bind fun mem =>
      (strAt mem slot.dst collectorSize).map (withSize C jobj mem) := by
  simp only [boostMemory, h]
  cases Bytes.strcpy collectorSize (fun _ => 0) slot.dst slot.src with
  | none => rfl
  | some mem =>
    simp only [Option.bind_eq_bind, Option.bind_some]
    cases strAt mem slot.dst collectorSize <;> rfl

/-- What is stored before and behind the array leaves it. -/
theorem boostPath_read_withSize (mem : Memory) (path : List UInt8) :
    boostPath.read (withSize C jobj mem path) = boostPath.read mem := by
  rw [TextArray.read, withSize, storeMember_load_of_disjoint jobj "boost_size" (by decide)]
  split
  · rw [load_store_of_disjoint mem (Or.inr (by decide))]
    rfl
  · rfl

/-- What is read from the memory of a collector. -/
structure BoostReads (C : JsonC) (jobj : Json) (mem : Memory) : Prop where
  useBoostShmem : leValue (load mem 24 4) =
    if 1 < (text C jobj "boost_path").utf8ByteSize then 1 else 0
  boostPath : boostPath.read mem = some (stringBytes (text C jobj "boost_path"))
  boostSize : leValue (load mem 288 8) = boostSize C jobj

/-- Without a path nothing is stored. -/
theorem boostReads_zero (h : copyMember C jobj boostPath = none) :
    BoostReads C jobj fun _ => 0 := by
  have htext : text C jobj "boost_path" = "" := text_of_none h
  have hnull : (jobj.get "boost_path").isNull = true := by
    by_contra hnull
    rw [copyMember, boostPath, stringMember, if_neg hnull] at h
    cases h
  constructor
  · rw [htext]
    decide +kernel
  · rw [htext]
    decide +kernel
  · rw [boostSize, if_pos hnull]
    decide +kernel

/-- The memory of a collector whose path fits. -/
theorem boostMemory_reads (hC : C.Lawful) (hfits : Fits C jobj boostPath) :
    ∃ mem, boostMemory C jobj = some mem ∧ BoostReads C jobj mem := by
  cases hcopy : copyMember C jobj boostPath with
  | none => exact ⟨_, by rw [boostMemory, hcopy], boostReads_zero hcopy⟩
  | some slot =>
    obtain ⟨hdst, hsize, -⟩ := copyMember_eq_some hcopy
    have hends : ∀ a ∈ [slot], a.Ends := fun a ha =>
      List.mem_singleton.mp ha ▸ (ends_iff_fits hC hcopy).mpr hfits
    obtain ⟨mem, hmem, hstr, hsame⟩ :=
      copyAll_of_ends (ascending_boostPath hcopy) hends fun _ => 0
    rw [copyAll_singleton] at hmem
    have hpath := hstr slot (List.mem_singleton_self _)
    rw [cut_of_fits hC hcopy hfits] at hpath
    have hnull : ¬ (jobj.get "boost_path").isNull = true := fun hnull => by
      rw [copyMember, boostPath, stringMember, if_pos hnull] at hcopy
      cases hcopy
    have hzero : ∀ addr, addr < 28 ∨ 284 ≤ addr → mem addr = 0 := fun addr haddr => by
      refine hsame addr fun a ha hhas => ?_
      rw [List.mem_singleton.mp ha, Slot.Has, hdst, hsize, boostPath] at hhas
      simp only at hhas
      omega
    refine ⟨withSize C jobj mem (stringBytes (text C jobj "boost_path")), ?_, ?_, ?_, ?_⟩
    · rw [boostMemory_copy hcopy, hmem, Option.bind_some, hpath]
      rfl
    · rw [withSize, storeMember_load_of_disjoint jobj "boost_size" (by decide), stringBytes_length]
      split
      · rw [load_stored (leBytes_length ..)]
        rfl
      · rw [load_congr fun a hlow hhigh => hzero a (Or.inl (by omega))]
        decide +kernel
    · rw [boostPath_read_withSize]
      rw [hdst] at hpath
      exact strOf_array hpath (by decide) (Nat.lt_succ_of_le hfits)
    · have hrest := load_of_zero (fun a ha => hzero a (Or.inr (by omega)) : ∀ a, 288 ≤ a → _) 8
      rw [withSize, storeMember_load jobj "boost_size", boostSize, if_neg hnull,
        leValue_leBytes_eight (toSize_lt _)]
      split
      · rw [load_store_of_disjoint mem (Or.inr (by decide)), hrest]
      · exact hrest

/-- A path that does not fit has no end, if the code goes on. -/
theorem boostMemory_overflows (hC : C.Lawful) (hlong : ¬ Fits C jobj boostPath) {mem : Memory}
    (h : boostMemory C jobj = some mem) : boostPath.read mem = none := by
  cases hcopy : copyMember C jobj boostPath with
  | none =>
    rw [Fits, text_of_none hcopy] at hlong
    exact absurd (Nat.zero_le _) hlong
  | some slot =>
    obtain ⟨hdst, hsize, -⟩ := copyMember_eq_some hcopy
    rw [boostMemory_copy hcopy] at h
    obtain ⟨copied, hmem, h⟩ := Option.bind_eq_some_iff.mp h
    obtain ⟨path, -, rfl⟩ := Option.map_eq_some_iff.mp h
    rw [← copyAll_singleton] at hmem
    have hread := read_of_not_ends (ascending_boostPath hcopy) hmem (List.mem_singleton_self _)
      (mt (ends_iff_fits hC hcopy).mp hlong)
    rw [Slot.read, hdst, hsize] at hread
    rw [boostPath_read_withSize]
    exact hread

end Boost

section Run

variable {C : JsonC} {jobj : Json}

/-- Every description in memory is read as the record of its source. -/
theorem sourceMemory_mapM (hC : C.Lawful) {elems : List Json} {sinfos : List (Option SourceInfo)}
    {sdescs : List SourceDescription} (hinfos : elems.mapM (parseSourceJson C) = some sinfos)
    (hdescs : sinfos.mapM updateSourceDescription = some sdescs) :
    ∃ sources, elems.mapM (sourceMemory C) = some sources ∧ List.Forall₂ Reads sources sdescs := by
  induction elems generalizing sinfos sdescs with
  | nil =>
    obtain rfl : [] = sinfos := Option.some.inj hinfos
    obtain rfl : [] = sdescs := Option.some.inj hdescs
    exact ⟨[], rfl, List.Forall₂.nil⟩
  | cons elem elems ih =>
    obtain ⟨info, infos, hinfo, hinfos', rfl⟩ := mapM_cons_eq_some hinfos
    obtain ⟨desc, descs, hdesc, hdescs', rfl⟩ := mapM_cons_eq_some hdescs
    obtain ⟨sources, hsources, hreads⟩ := ih hinfos' hdescs'
    have hrecord : sourceRecord C elem = some desc :=
      Option.bind_eq_some_iff.mpr ⟨info, hinfo, hdesc⟩
    obtain ⟨mem, hmem, hread⟩ := sourceMemory_reads hC hrecord
    refine ⟨mem :: sources, ?_, List.Forall₂.cons hread hreads⟩
    rw [List.mapM_cons, hmem, hsources]
    rfl

/-- **The parser of collectors does in memory what that of records says**, where it says
something. -/
theorem collectorMemory_reads (hC : C.Lawful) {desc : CollectorDescription}
    (h : parseCollectorJson C jobj = some desc) : ∃ boost sources,
    collectorMemory C jobj = some (boost, sources) ∧ boostPath.read boost =
      some (stringBytes desc.boostPath) ∧ leValue (load boost 288 8) = desc.boostSize ∧
      leValue (load boost 24 4) = (if desc.useBoostShmem then 1 else 0) ∧
      List.Forall₂ Reads sources desc.sdescs := by
  obtain ⟨path, hpath, h⟩ := Option.bind_eq_some_iff.mp h
  obtain ⟨⟨infos, descs⟩, hparse, h⟩ := Option.bind_eq_some_iff.mp h
  obtain rfl := Option.some.inj h
  obtain ⟨sinfos, hinfos, hparse⟩ := Option.bind_eq_some_iff.mp hparse
  obtain ⟨sdescs, hdescs, hparse⟩ := Option.bind_eq_some_iff.mp hparse
  cases hparse
  obtain ⟨hlt, rfl⟩ := arrayMember_eq_some hpath
  obtain ⟨boost, hboost, huse, hread, hsize⟩ :=
    boostMemory_reads hC (Nat.le_of_lt_succ hlt : Fits C jobj boostPath)
  obtain ⟨sources, hsources, hreads⟩ := sourceMemory_mapM hC hinfos hdescs
  refine ⟨boost, sources, ?_, hread, hsize, ?_, hreads⟩
  · simp only [collectorMemory, sourcesMemory, hboost, hsources]
    rfl
  · simpa using huse

/-- A collector with one camera. -/
def oneCamera : Json :=
  .object [("boost_path", .string "region"), ("boost_size", .int 4096),
    ("sources", .array [.object [("type", .string "tcp"), ("id_string", .string "left"),
      ("host", .string "10.0.0.1"), ("port", .string "3956"),
      ("output_path", .string "/tmp/left"), ("frame", .object [])]])]

theorem oneCamera_parses : (parseCollectorJson cuttingC oneCamera).isSome = true := by
  decide +kernel

theorem collectorMemory_reads_oneCamera : ∃ boost sources,
    collectorMemory cuttingC oneCamera = some (boost, sources) ∧
      leValue (load boost 288 8) = 4096 ∧ sources.length = 1 := by
  have hdesc := Option.some_get oneCamera_parses
  obtain ⟨boost, sources, hmem, -, hsize, -, hreads⟩ :=
    collectorMemory_reads cuttingC_lawful hdesc.symm
  refine ⟨boost, sources, hmem, hsize.trans (by decide +kernel), ?_⟩
  exact hreads.length_eq.trans (by decide +kernel)

end Run

end DclProcessor.Description
