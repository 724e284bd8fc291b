import DclProcessor.Library.Layout
import DclProcessor.Shmem.MemoryMap
import Mathlib.Algebra.Ring.Int.Defs

/-!
The segments of the shared memory, by the functions of `memory_map.h` in the machine's
arithmetic, and the data chunks that `pipeline_thread` puts in its ring.
-/

namespace DclProcessor.Shmem

open Layout

/-- `memory_map_t`: the counts are `int`s, the sizes `size_t`s. -/
structure MemoryMapT where
  processCnt : BitVec 32
  processSize : BitVec 64
  dataCnt : BitVec 32
  dataSize : BitVec 64
  descriptionZoneCnt : BitVec 32
  descriptionZoneSize : BitVec 64

/-- `MEMORY_ALIGN` of a `size_t` -/
def memoryAlignT (size : BitVec 64) : BitVec 64 := ((size + 255#64) >>> 8) <<< 8

/-- An `int` that is an operand beside a `size_t`. -/
def toSizeT (i : BitVec 32) : BitVec 64 := i.signExtend 64

namespace MemoryMapT

/-- `MEMORY_MAP_SIZE` -/
def mapSize : BitVec 64 := memoryAlignT (BitVec.ofNat 64 sizeofMemoryMap)

/-- `memory_get_size` -/
def getSize (map : MemoryMapT) : BitVec 64 :=
  mapSize + memoryAlignT (map.processSize * toSizeT map.processCnt) +
    memoryAlignT (map.dataSize * toSizeT map.dataCnt) +
    memoryAlignT (toSizeT map.descriptionZoneCnt * map.descriptionZoneSize)

/-- `memory_get_process_size` -/
def getProcessSize (map : MemoryMapT) : BitVec 64 :=
  memoryAlignT (map.processSize * toSizeT map.processCnt)

/-- `memory_get_data_size` -/
def getDataSize (map : MemoryMapT) : BitVec 64 :=
  memoryAlignT (map.dataSize * toSizeT map.dataCnt)

/-- `memory_get_description_size` -/
def getDescriptionSize (map : MemoryMapT) : BitVec 64 :=
  memoryAlignT (toSizeT map.descriptionZoneCnt * map.descriptionZoneSize)

/-- `memory_get_map_offset` -/
def getMapOffset (_map : MemoryMapT) : BitVec 64 := 0

/-- `memory_get_process_offset` -/
def getProcessOffset (_map : MemoryMapT) : BitVec 64 := mapSize

/-- `memory_get_data_offset` -/
def getDataOffset (map : MemoryMapT) : BitVec 64 :=
  mapSize + memoryAlignT (map.processSize * toSizeT map.processCnt)

/-- `memory_get_description_offset` -/
def getDescriptionOffset (map : MemoryMapT) : BitVec 64 :=
  mapSize + memoryAlignT (toSizeT map.processCnt * map.processSize) +
    memoryAlignT (toSizeT map.dataCnt * map.dataSize)

/-- What `pipeline_thread` assigns to `data_ring->buffer[i]`. -/
def ringOffset (map : MemoryMapT) (i : Nat) : BitVec 64 :=
  map.getDataOffset + toSizeT (BitVec.ofNat 32 i) * map.dataSize

/-- The same header without a bound on its members. -/
def value (map : MemoryMapT) : MemoryMap where
  processCnt := map.processCnt.toNat
  processSize := map.processSize.toNat
  dataCnt := map.dataCnt.toNat
  dataSize := map.dataSize.toNat
  descriptionZoneCnt := map.descriptionZoneCnt.toNat
  descriptionZoneSize := map.descriptionZoneSize.toNat

/-- No count is negative and the layout fits in 64 bits. -/
structure Fits (map : MemoryMapT) : Prop where
  processCnt : 0 ≤ map.processCnt.toInt
  dataCnt : 0 ≤ map.dataCnt.toInt
  descriptionZoneCnt : 0 ≤ map.descriptionZoneCnt.toInt
  size : map.value.getSize < 2 ^ 64

def headerBlock (map : MemoryMapT) : Block := ⟨map.getMapOffset.toNat, sizeofMemoryMap⟩

def processBlock (map : MemoryMapT) : Block :=
  ⟨map.getProcessOffset.toNat, map.processCnt.toNat * map.processSize.toNat⟩

def dataBlock (map : MemoryMapT) : Block :=
  ⟨map.getDataOffset.toNat, map.dataCnt.toNat * map.dataSize.toNat⟩

def descriptionBlock (map : MemoryMapT) : Block :=
  ⟨map.getDescriptionOffset.toNat, map.descriptionZoneCnt.toNat * map.descriptionZoneSize.toNat⟩

/-- The header and the segments, without the rounding behind them. -/
def segments (map : MemoryMapT) : List Block :=
  [map.headerBlock, map.processBlock, map.dataBlock, map.descriptionBlock]

/-- The chunk at the offset that the ring has at `i`. -/
def chunk (map : MemoryMapT) (i : Nat) : Block := ⟨(map.ringOffset i).toNat, map.dataSize.toNat⟩

structure LaidOut (map : MemoryMapT) : Prop where
  apart : map.segments.Pairwise Block.Apart
  aligned : ∀ b ∈ map.segments, 256 ∣ b.start
  inside : ∀ b ∈ map.segments, b.Within ⟨0, map.getSize.toNat⟩
  size : map.getSize.toNat = map.getDescriptionOffset.toNat + map.getDescriptionSize.toNat
  chunkInside : ∀ i : Nat, (i : Int) < map.dataCnt.toInt → (map.chunk i).Within map.dataBlock
  chunkApart : ∀ i j : Nat, (i : Int) < map.dataCnt.toInt → (j : Int) < map.dataCnt.toInt → i ≠ j →
    (map.chunk i).Apart (map.chunk j)

/-! ## The machine's arithmetic -/

theorem msb_of_nonneg {i : BitVec 32} (h : 0 ≤ i.toInt) : i.msb = false := by
  rw [BitVec.msb_eq_toInt]
  exact decide_eq_false (by omega)

theorem toNat_of_nonneg {i : BitVec 32} (h : 0 ≤ i.toInt) : (i.toNat : Int) = i.toInt :=
  (BitVec.toInt_eq_toNat_of_msb (msb_of_nonneg h)).symm

theorem toNat_lt_of_nonneg {i : BitVec 32} (h : 0 ≤ i.toInt) : i.toNat < 2 ^ 31 := by
  have hnat := toNat_of_nonneg h
  have hlt := BitVec.toInt_lt (x := i)
  omega

theorem toNat_toSizeT {i : BitVec 32} (h : 0 ≤ i.toInt) : (toSizeT i).toNat = i.toNat := by
  have hlt := i.isLt
  rw [toSizeT, BitVec.signExtend_eq_setWidth_of_msb_false (msb_of_nonneg h),
    BitVec.toNat_setWidth, Nat.mod_eq_of_lt (by omega)]

theorem le_memoryAlign (size : Nat) : size ≤ memoryAlign size := by
  rw [MemoryMap.memoryAlign_eq]
  omega

theorem dvd_memoryAlign (size : Nat) : 256 ∣ memoryAlign size := by
  rw [MemoryMap.memoryAlign_eq]
  exact Nat.dvd_mul_left _ _

/-- Where the rounded product fits, nothing wraps around on the way to it. -/
theorem toNat_align_mul {cnt : BitVec 32} {size : BitVec 64} (hcnt : 0 ≤ cnt.toInt)
    (h : memoryAlign (cnt.toNat * size.toNat) < 2 ^ 64) :
    (memoryAlignT (toSizeT cnt * size)).toNat = memoryAlign (cnt.toNat * size.toNat) := by
  have hle := le_memoryAlign (cnt.toNat * size.toNat)
  have hmul : (toSizeT cnt * size).toNat = cnt.toNat * size.toNat := by
    rw [BitVec.toNat_mul, toNat_toSizeT hcnt, Nat.mod_eq_of_lt (by omega)]
  have hround : (255#64).toNat = 255 := rfl
  rw [MemoryMap.memoryAlign_eq] at h ⊢
  have hsum : cnt.toNat * size.toNat + 255 < 2 ^ 64 := by omega
  rw [memoryAlignT, BitVec.toNat_shiftLeft, BitVec.toNat_ushiftRight, BitVec.toNat_add, hmul,
    hround, Nat.mod_eq_of_lt hsum, Nat.shiftLeft_eq, Nat.shiftRight_eq_div_pow]
  exact Nat.mod_eq_of_lt h

theorem toNat_mapSize : mapSize.toNat = memoryMapSize := by decide

variable {map : MemoryMapT}

/-- The members of a sum that fits. -/
theorem Fits.members (h : map.Fits) :
    memoryAlign (map.processCnt.toNat * map.processSize.toNat) < 2 ^ 64 ∧
      memoryAlign (map.dataCnt.toNat * map.dataSize.toNat) < 2 ^ 64 ∧
      memoryAlign (map.descriptionZoneCnt.toNat * map.descriptionZoneSize.toNat) < 2 ^ 64 := by
  have hsize := h.size
  rw [MemoryMap.getSize_eq, MemoryMap.getDescriptionOffset, MemoryMap.getDescriptionSize] at hsize
  simp only [value] at hsize
  omega

theorem toNat_getProcessOffset : map.getProcessOffset.toNat = memoryMapSize := toNat_mapSize

theorem Fits.toNat_getDataOffset (h : map.Fits) : map.getDataOffset.toNat =
    memoryMapSize + memoryAlign (map.processCnt.toNat * map.processSize.toNat) := by
  obtain ⟨hprocess, -, -⟩ := h.members
  have hsize := h.size
  rw [MemoryMap.getSize_eq, MemoryMap.getDescriptionOffset] at hsize
  simp only [value] at hsize
  rw [getDataOffset, BitVec.mul_comm, BitVec.toNat_add, toNat_mapSize,
    toNat_align_mul h.processCnt hprocess, Nat.mod_eq_of_lt (by omega)]

theorem Fits.toNat_getDataSize (h : map.Fits) :
    map.getDataSize.toNat = memoryAlign (map.dataCnt.toNat * map.dataSize.toNat) := by
  rw [getDataSize, BitVec.mul_comm, toNat_align_mul h.dataCnt h.members.2.1]

/-- The machine's description offset is the one of the header without bounds. -/
theorem Fits.toNat_getDescriptionOffset (h : map.Fits) :
    map.getDescriptionOffset.toNat = map.value.getDescriptionOffset := by
  obtain ⟨hprocess, hdata, -⟩ := h.members
  have hsize := h.size
  rw [MemoryMap.getSize_eq, MemoryMap.getDescriptionOffset] at hsize
  simp only [value] at hsize
  rw [getDescriptionOffset, BitVec.toNat_add, BitVec.toNat_add, toNat_mapSize,
    toNat_align_mul h.processCnt hprocess, toNat_align_mul h.dataCnt hdata,
    Nat.mod_eq_of_lt (by omega), Nat.mod_eq_of_lt (by omega)]
  rfl

theorem Fits.toNat_getDescriptionSize (h : map.Fits) :
    map.getDescriptionSize.toNat = map.value.getDescriptionSize :=
  toNat_align_mul h.descriptionZoneCnt h.members.2.2

theorem getSize_eq : map.getSize = map.getDescriptionOffset + map.getDescriptionSize := by
  rw [getSize, getDescriptionOffset, getDescriptionSize, BitVec.mul_comm map.processSize,
    BitVec.mul_comm map.dataSize]

theorem Fits.toNat_getSize (h : map.Fits) : map.getSize.toNat = map.value.getSize := by
  rw [getSize_eq, BitVec.toNat_add, h.toNat_getDescriptionOffset, h.toNat_getDescriptionSize,
    ← MemoryMap.getSize_eq, Nat.mod_eq_of_lt h.size]

/-- The data segment lies in the region. -/
theorem Fits.data_region (h : map.Fits) :
    map.getDataOffset.toNat + map.getDataSize.toNat ≤ map.getSize.toNat := by
  rw [h.toNat_getDataOffset, h.toNat_getDataSize, h.toNat_getSize, MemoryMap.getSize_eq]
  exact Nat.le_add_right _ _

/-! ## The segments as blocks behind each other -/

/-- The lengths that are in use: the header's, and of each segment count times size. -/
def lengths (map : MemoryMapT) : List Nat :=
  [sizeofMemoryMap, map.processCnt.toNat * map.processSize.toNat,
    map.dataCnt.toNat * map.dataSize.toNat,
    map.descriptionZoneCnt.toNat * map.descriptionZoneSize.toNat]

theorem Fits.segments_eq (h : map.Fits) : map.segments = place memoryAlign 0 map.lengths := by
  simp only [segments, headerBlock, processBlock, dataBlock, descriptionBlock, lengths, place,
    toNat_getProcessOffset, h.toNat_getDataOffset, h.toNat_getDescriptionOffset]
  simp only [MemoryMap.getDescriptionOffset, value, Nat.zero_add]
  rfl

theorem Fits.extent_eq (h : map.Fits) : extent memoryAlign map.lengths = map.getSize.toNat := by
  rw [h.toNat_getSize, MemoryMap.getSize_eq]
  simp only [extent, lengths, MemoryMap.getDescriptionOffset, MemoryMap.getDescriptionSize,
    value, memoryMapSize]
  omega

/-- The offset of a chunk that `pipeline_thread` reaches. -/
theorem Fits.toNat_ringOffset (h : map.Fits) {i : Nat} (hi : i < map.dataCnt.toNat) :
    (map.ringOffset i).toNat = map.getDataOffset.toNat + i * map.dataSize.toNat := by
  have hlt := toNat_lt_of_nonneg h.dataCnt
  have hi32 : (BitVec.ofNat 32 i).toNat = i := by
    rw [BitVec.toNat_ofNat, Nat.mod_eq_of_lt (by omega)]
  have hi0 : 0 ≤ (BitVec.ofNat 32 i).toInt := by
    rw [BitVec.toInt_eq_toNat_of_lt (by omega)]
    omega
  have hmul : i * map.dataSize.toNat ≤ map.dataCnt.toNat * map.dataSize.toNat :=
    Nat.mul_le_mul_right _ (by omega)
  have hle := le_memoryAlign (map.dataCnt.toNat * map.dataSize.toNat)
  have hsize := h.size
  rw [MemoryMap.getSize_eq, MemoryMap.getDescriptionOffset] at hsize
  simp only [value] at hsize
  rw [ringOffset, BitVec.toNat_add, BitVec.toNat_mul, toNat_toSizeT hi0, hi32,
    h.toNat_getDataOffset, Nat.mod_eq_of_lt (by omega : i * map.dataSize.toNat < 2 ^ 64),
    Nat.mod_eq_of_lt (by omega)]

theorem Fits.lt_toNat (h : map.Fits) {i : Nat} (hi : (i : Int) < map.dataCnt.toInt) :
    i < map.dataCnt.toNat := by
  have hcnt := toNat_of_nonneg h.dataCnt
  omega

theorem Fits.chunk_within (h : map.Fits) {i : Nat} (hi : i < map.dataCnt.toNat) :
    (map.chunk i).Within map.dataBlock := by
  rw [chunk, h.toNat_ringOffset hi]
  exact array_within hi

theorem Fits.chunk_before (h : map.Fits) {i j : Nat} (hij : i < j)
    (hj : j < map.dataCnt.toNat) : (map.chunk i).Before (map.chunk j) := by
  rw [chunk, chunk, h.toNat_ringOffset hj, h.toNat_ringOffset (by omega)]
  exact array_before hij

theorem Fits.chunk_apart (h : map.Fits) {i j : Nat} (hi : i < map.dataCnt.toNat)
    (hj : j < map.dataCnt.toNat) (hij : i ≠ j) : (map.chunk i).Apart (map.chunk j) := by
  rcases Nat.lt_or_gt_of_ne hij with hlt | hgt
  · exact (h.chunk_before hlt hj).apart
  · exact (h.chunk_before hgt hi).apart.symm

/-- **The segments and the chunks** of a layout that fits: none overlaps another one. -/
theorem laidOut_of_fits (h : map.Fits) : map.LaidOut where
  apart := by
    rw [h.segments_eq]
    exact (place_before le_memoryAlign 0 map.lengths).imp Block.Before.apart
  aligned b hb := by
    rw [h.segments_eq] at hb
    exact place_aligned dvd_memoryAlign (Nat.dvd_zero _) hb
  inside b hb := by
    rw [h.segments_eq] at hb
    rw [← h.extent_eq]
    exact place_within le_memoryAlign hb
  size := by
    rw [h.toNat_getSize, h.toNat_getDescriptionOffset, h.toNat_getDescriptionSize,
      MemoryMap.getSize_eq]
  chunkInside i hi := h.chunk_within (h.lt_toNat hi)
  chunkApart i j hi hj hij := h.chunk_apart (h.lt_toNat hi) (h.lt_toNat hj) hij

end MemoryMapT

/-- Two modules and six chunks of a megabyte. -/
def megabyteMap : MemoryMapT where
  processCnt := 4
  processSize := 2208
  dataCnt := 6
  dataSize := 1048576
  descriptionZoneCnt := 1
  descriptionZoneSize := 16384

theorem megabyteMap_laidOut : megabyteMap.LaidOut :=
  MemoryMapT.laidOut_of_fits ⟨by decide, by decide, by decide, by decide⟩

end DclProcessor.Shmem
