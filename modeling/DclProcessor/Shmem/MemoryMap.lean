import Mathlib.Algebra.Ring.Nat

/-!
`memory_map_t`: the header at the start of the shared memory, from which every process
computes where the segments of processes, data and descriptions begin.
-/

namespace DclProcessor.Shmem

structure MemoryMap where
  processCnt : Nat
  processSize : Nat
  dataCnt : Nat
  dataSize : Nat
  descriptionZoneCnt : Nat
  descriptionZoneSize : Nat

/-- `MEMORY_ALIGN` -/
def memoryAlign (size : Nat) : Nat := ((size + 255) >>> 8) <<< 8

/-- `sizeof(memory_map_t)` -/
def sizeofMemoryMap : Nat := 48

/-- `MEMORY_MAP_SIZE` -/
def memoryMapSize : Nat := memoryAlign sizeofMemoryMap

namespace MemoryMap

/-- Counts and sizes that are `int`s and not negative. -/
structure Fits (map : MemoryMap) : Prop where
  processCnt : map.processCnt < 2 ^ 31
  processSize : map.processSize < 2 ^ 31
  dataCnt : map.dataCnt < 2 ^ 31
  dataSize : map.dataSize < 2 ^ 31
  descriptionZoneCnt : map.descriptionZoneCnt < 2 ^ 31
  descriptionZoneSize : map.descriptionZoneSize < 2 ^ 31

/-- `memory_get_description_size` -/
def getDescriptionSize (map : MemoryMap) : Nat :=
  memoryAlign (map.descriptionZoneCnt * map.descriptionZoneSize)

/-- `memory_get_description_offset` -/
def getDescriptionOffset (map : MemoryMap) : Nat :=
  memoryMapSize + memoryAlign (map.processCnt * map.processSize) +
    memoryAlign (map.dataCnt * map.dataSize)

/-- `memory_get_size` -/
def getSize (map : MemoryMap) : Nat :=
  memoryMapSize + memoryAlign (map.processSize * map.processCnt) +
    memoryAlign (map.dataSize * map.dataCnt) +
    memoryAlign (map.descriptionZoneCnt * map.descriptionZoneSize)

theorem memoryAlign_eq (size : Nat) : memoryAlign size = (size + 255) / 256 * 256 := by
  rw [memoryAlign, Nat.shiftRight_eq_div_pow, Nat.shiftLeft_eq]

theorem memoryMapSize_eq : memoryMapSize = 256 := rfl

/-- The description segment is the last one. -/
theorem getSize_eq (map : MemoryMap) :
    map.getSize = map.getDescriptionOffset + map.getDescriptionSize := by
  rw [getSize, getDescriptionOffset, getDescriptionSize, Nat.mul_comm map.processSize,
    Nat.mul_comm map.dataSize]

/-- No product and no sum wraps around in a `size_t`. -/
theorem Fits.getSize_lt {map : MemoryMap} (h : map.Fits) : map.getSize < 2 ^ 64 := by
  have hprocess : map.processSize * map.processCnt < 2 ^ 31 * 2 ^ 31 :=
    Nat.mul_lt_mul'' h.processSize h.processCnt
  have hdata : map.dataSize * map.dataCnt < 2 ^ 31 * 2 ^ 31 :=
    Nat.mul_lt_mul'' h.dataSize h.dataCnt
  have hzone : map.descriptionZoneCnt * map.descriptionZoneSize < 2 ^ 31 * 2 ^ 31 :=
    Nat.mul_lt_mul'' h.descriptionZoneCnt h.descriptionZoneSize
  simp only [getSize, memoryAlign_eq, memoryMapSize_eq]
  omega

end MemoryMap

end DclProcessor.Shmem
