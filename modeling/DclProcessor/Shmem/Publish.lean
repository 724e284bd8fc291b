import Mathlib.Algebra.Order.Ring.Abs
import Mathlib.Algebra.Order.Ring.Int
import DclProcessor.Library.Memory
import DclProcessor.Shmem.Segments

/-!
`dclprocessor_init` publishes the description of the system in the description segment
of the shared memory, its length first, and `dclprocessor_get` reads it in a module.
-/

namespace DclProcessor.Shmem

open Bytes

/-- `DESCRIPTOR_DATA_MAX_LEN` -/
def descriptorDataMaxLen : Nat := 16384

/-- `PROCESS_INFO_SIZE` -/
def processInfoSize : Nat := 2208

/-- What `dclprocessor_init` reads of the description and of its pipeline. `fullJson`: the
bytes before the terminating zero of a JSON text, which begins with an ASCII character. -/
structure Description where
  useShmem : Bool
  shmpath : Option String
  modulesCnt : Nat
  dataCnt : Int
  dataSize : Int
  fullJson : List UInt8
  modulesCnt_lt : modulesCnt + 4 < 2 ^ 31
  dataCnt_lt : dataCnt < 2 ^ 31
  dataSize_ge : -2 ^ 31 ≤ dataSize
  dataSize_lt : dataSize < 2 ^ 31
  fullJson_ascii : ∀ b ∈ fullJson.head?, b < 128

namespace Description

/-- `if (desc->use_shmem && desc->shmpath)` -/
def commonShmem (desc : Description) : Bool := desc.useShmem && desc.shmpath.isSome

def procCnt (desc : Description) : Nat := desc.modulesCnt + 2

/-- `data_cnt` of `dclprocessor_init` -/
def mapDataCnt (desc : Description) : Int :=
  if desc.dataCnt > desc.procCnt + 2 then desc.dataCnt else desc.procCnt + 2

/-- The arguments of `memory_map_create`. -/
def memoryMap (desc : Description) : MemoryMapT where
  processCnt := BitVec.ofNat 32 desc.procCnt
  processSize := BitVec.ofNat 64 processInfoSize
  dataCnt := BitVec.ofInt 32 desc.mapDataCnt
  dataSize := toSizeT (BitVec.ofInt 32 desc.dataSize)
  descriptionZoneCnt := 1
  descriptionZoneSize := BitVec.ofNat 64 descriptorDataMaxLen

end Description

/-! ## The header in memory -/

namespace MemoryMapT

/-- What the compiler puts after an `int` member. -/
def padding : List UInt8 := [0, 0, 0, 0]

/-- The members as they lie in memory. -/
def bytes (map : MemoryMapT) : List UInt8 :=
  leBytes 4 map.processCnt.toNat ++ padding ++ leBytes 8 map.processSize.toNat ++
  leBytes 4 map.dataCnt.toNat ++ padding ++ leBytes 8 map.dataSize.toNat ++
  leBytes 4 map.descriptionZoneCnt.toNat ++ padding ++ leBytes 8 map.descriptionZoneSize.toNat

/-- The map that a process finds at the address `shmem`. -/
def read (mem : Memory) (shmem : Nat) : MemoryMapT where
  processCnt := BitVec.ofNat 32 (leValue (load mem shmem 4))
  processSize := BitVec.ofNat 64 (leValue (load mem (shmem + 8) 8))
  dataCnt := BitVec.ofNat 32 (leValue (load mem (shmem + 16) 4))
  dataSize := BitVec.ofNat 64 (leValue (load mem (shmem + 24) 8))
  descriptionZoneCnt := BitVec.ofNat 32 (leValue (load mem (shmem + 32) 4))
  descriptionZoneSize := BitVec.ofNat 64 (leValue (load mem (shmem + 40) 8))

end MemoryMapT

/-! ## Writer and reader -/

section Code

variable (mem : Memory) (shmem : Nat)

/-- `(char*)shmem + description_offset + offset` -/
def descriptionAddress (offset : Nat) : Nat :=
  (shmem + (MemoryMapT.read mem shmem).getDescriptionOffset.toNat + offset) % 2 ^ 64

/-- `shared_memory_write_descriptions_segment` -/
def writeDescriptionsSegment (offset : Nat) (buffer : List UInt8) : Memory :=
  store mem (descriptionAddress mem shmem offset) buffer

/-- `shared_memory_server_init` for a map, with new memory at `shmem`. A size that is not
positive is refused by `ftruncate` or `mmap`; `made`: whether they and `shm_open` succeed
otherwise. -/
def sharedMemoryServerInit (made : Bool) (map : MemoryMapT) : Option Memory :=
  if made ∧ 0 < map.getSize.toInt then some (store mem shmem map.bytes) else none

/-- The first write of `dclprocessor_init`, a `size_t`. -/
def writeSize (fullJson : List UInt8) : Memory :=
  writeDescriptionsSegment mem shmem 0 (leBytes 8 fullJson.length)

/-- Both writes. -/
def writeDescription (fullJson : List UInt8) : Memory :=
  writeDescriptionsSegment (writeSize mem shmem fullJson) shmem 8 fullJson

/-- How `dclprocessor_init` ends: the memory when it is mapped and after each of the two
writes. Without the common shared memory nothing is written. -/
inductive Outcome
  | failed
  | unpublished
  | published (mapped sized written : Memory)

/-- `pipelineInit`: what `pipeline_init` returns. -/
def dclprocessorInit (desc : Description) (made : Bool) (pipelineInit : Int) : Outcome :=
  if desc.commonShmem then
    match sharedMemoryServerInit mem shmem made desc.memoryMap with
    | none => .failed
    | some mapped =>
      if pipelineInit ≠ 0 then .failed
      else .published mapped (writeSize mapped shmem desc.fullJson)
        (writeDescription mapped shmem desc.fullJson)
  else if pipelineInit ≠ 0 then .failed else .unpublished

end Code

namespace Description

variable (desc : Description)

theorem procCnt_lt : desc.procCnt < 2 ^ 31 := by
  have hmodules := desc.modulesCnt_lt
  unfold procCnt
  omega

/-- Where the segment of data begins. -/
def dataOffset : Nat := memoryMapSize + memoryAlign (desc.procCnt * processInfoSize)

theorem dataOffset_bounds : 256 < desc.dataOffset ∧ desc.dataOffset < 2 ^ 50 := by
  have hlt := desc.procCnt_lt
  have hpos : 2 ≤ desc.procCnt := Nat.le_add_left 2 _
  rw [dataOffset, MemoryMap.memoryAlign_eq, MemoryMap.memoryMapSize_eq, processInfoSize]
  omega

end Description

/-! ## What is written and read -/

section Writes

variable {mem : Memory} {shmem : Nat} {map : MemoryMapT} {fullJson : List UInt8}

end Writes

variable {desc : Description} {mem : Memory} {shmem : Nat}

/-- The description segment is the last one, and it is behind the others. -/
structure Behind (desc : Description) : Prop where
  offset : desc.dataOffset ≤ desc.memoryMap.getDescriptionOffset.toNat
  size : desc.memoryMap.getSize.toNat =
    desc.memoryMap.getDescriptionOffset.toNat + descriptorDataMaxLen

theorem Behind.header (h : Behind desc) :
    sizeofMemoryMap ≤ desc.memoryMap.getDescriptionOffset.toNat := by
  have hbounds := desc.dataOffset_bounds
  have hmap : sizeofMemoryMap = 48 := rfl
  have hoffset := h.offset
  omega

end DclProcessor.Shmem
