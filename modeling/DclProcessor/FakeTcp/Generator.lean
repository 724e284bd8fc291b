import DclProcessor.Library.SlotTable

/-!
The generator of the fake camera: `next_image` goes through the chunks of its data with an
`int` that is one below zero at the start, and is counted up without an end.
-/

namespace DclProcessor.FakeTcp

open SlotTable

def dataCnt : Nat := 10

/-- `sizeof(size_t) + sizeof(int)` -/
def imageHeaderSize : Nat := 8 + 4

def imageRawSize : Nat := 960 * 1920 * 3 * 8 / 8

def dataSize : Nat := imageHeaderSize + imageRawSize

/-- The fields of `struct data_generator` that `next_image` uses; `data` is an address. -/
structure DataGenerator where
  data : BitVec 64
  curr : BitVec 32
  deriving DecidableEq

namespace DataGenerator

/-- What is returned, and the generator after the call. -/
def nextImage (generator : DataGenerator) : BitVec 64 × DataGenerator :=
  let cnt := BitVec.ofNat 32 dataCnt
  let curr := generator.curr
  let generator := { generator with curr := generator.curr + 1 }
  let curr := if curr.srem cnt = 0 then 0 else curr
  (generator.data + (curr.srem cnt).signExtend 64 * BitVec.ofNat 64 dataSize, generator)

/-- The generator that `generator_init` makes of the allocated data. -/
def init (data : BitVec 64) : DataGenerator := ⟨data, -1⟩

/-- After `n` calls of `next_image`. -/
def after (generator : DataGenerator) : Nat → DataGenerator
  | 0 => generator
  | n + 1 => (generator.after n).nextImage.2

end DataGenerator

/-- The starts of the chunks. -/
def chunks (data : BitVec 64) : List (BitVec 64) := slots data dataSize dataCnt

/-- What call `n` returns, the first of which is call 0. -/
def image (data : BitVec 64) (n : Nat) : BitVec 64 :=
  ((DataGenerator.init data).after n).nextImage.1

/-- The counter before call `n`. -/
def counter (data : BitVec 64) (n : Nat) : Int := ((DataGenerator.init data).after n).curr.toInt

/-- All increments up to call `n` have stayed in the range of `int`. -/
def NotWrapped (data : BitVec 64) (n : Nat) : Prop := counter data n = n - 1

/-- The calls from `first` on, `k` of them, go through the data. -/
structure Cycles (data : BitVec 64) (first k : Nat) : Prop where
  chunk : ∀ n, first ≤ n → n < first + k → image data n ∈ chunks data
  inside : ∀ n, first ≤ n → n < first + k →
    (image data n - data).toNat + dataSize ≤ dataCnt * dataSize
  once : ∀ n, first ≤ n → n + dataCnt ≤ first + k →
    (∀ i, n ≤ i → i < n + dataCnt → NotWrapped data i) →
      ((List.range' n dataCnt).map (image data)).Perm (chunks data)

/-- The remainder is not below zero. -/
def InCycle (curr : Int) : Prop := 0 ≤ curr ∨ (dataCnt : Int) ∣ curr

instance (curr : Int) : Decidable (InCycle curr) := inferInstanceAs (Decidable (_ ∨ _))

section Constants

theorem dataCnt_pos : 0 < dataCnt := by decide

theorem dataSize_pos : 0 < dataSize := by decide

/-- Twice the data is less than all addresses. -/
theorem data_fits : 2 * (dataCnt * dataSize) ≤ 2 ^ 64 := by decide

theorem toInt_dataCnt : (BitVec.ofNat 32 dataCnt).toInt = dataCnt := by decide

end Constants

section Calls

variable (data : BitVec 64) (n : Nat)

/-- The address comes from the remainder of the counter. -/
theorem nextImage_address (generator : DataGenerator) : generator.nextImage.1 =
    address generator.data dataSize (generator.curr.toInt.tmod dataCnt) := by
  have hrem : (generator.curr.srem (BitVec.ofNat 32 dataCnt)).toInt =
      generator.curr.toInt.tmod dataCnt := by
    rw [BitVec.toInt_srem, toInt_dataCnt]
  simp only [DataGenerator.nextImage]
  split
  case isTrue hzero =>
    rw [← hrem, hzero]
    rfl
  case isFalse =>
    rw [← hrem]
    rfl

/-- The counter has been counted up from below zero. -/
theorem after_init : (DataGenerator.init data).after n = ⟨data, BitVec.ofInt 32 (n - 1)⟩ := by
  induction n with
  | zero => rfl
  | succ n ih =>
    have hnext : BitVec.ofInt 32 ((n : Int) - 1) + 1 = BitVec.ofInt 32 ((n + 1 : Nat) - 1) := by
      have hsum : ((n + 1 : Nat) : Int) - 1 = (n : Int) - 1 + 1 := by omega
      rw [hsum, BitVec.ofInt_add]
      rfl
    rw [DataGenerator.after, ih, DataGenerator.nextImage]
    simp only [hnext]

theorem counter_eq : counter data n = ((n : Int) - 1).bmod (2 ^ 32) := by
  rw [counter, after_init, BitVec.toInt_ofInt]

/-- What is returned depends on the counter only. -/
theorem image_eq : image data n = address data dataSize ((counter data n).tmod dataCnt) := by
  rw [image, nextImage_address, after_init, counter, after_init]

theorem notWrapped_iff : NotWrapped data n ↔ n ≤ 2 ^ 31 := by
  rw [NotWrapped, counter_eq, Int.bmod_def]
  split <;> omega

/-- A call returns a chunk exactly if the remainder is not below zero. -/
theorem image_mem_iff : image data n ∈ chunks data ↔ InCycle (counter data n) := by
  have hpos : (0 : Int) < dataCnt := Int.natCast_pos.mpr dataCnt_pos
  rw [image_eq, chunks, address_mem_iff dataSize_pos data_fits (Int.lt_tmod_of_pos _ hpos)
    (Int.tmod_lt_of_pos _ hpos), tmod_nonneg_iff]
  rfl

/-- No two chunks begin at the same address. -/
theorem chunks_nodup : (chunks data).Nodup := slots_nodup dataSize_pos (by decide)

/-- A chunk lies within the data. -/
theorem chunk_inside {p : BitVec 64} (h : p ∈ chunks data) :
    (p - data).toNat + dataSize ≤ dataCnt * dataSize := by
  obtain ⟨i, hi, rfl⟩ := List.mem_map.mp h
  have hi := List.mem_range.mp hi
  rw [slot_sub data (slot_lt hi (by have := data_fits; omega) dataSize_pos), ← Nat.succ_mul]
  exact Nat.mul_le_mul_right _ hi

/-- Before the counter wraps, the calls after the first go through the chunks. -/
theorem images_perm (hn : 1 ≤ n) (h : ∀ i, n ≤ i → i < n + dataCnt → NotWrapped data i) :
    ((List.range' n dataCnt).map (image data)).Perm (chunks data) := by
  obtain ⟨c, rfl⟩ := Nat.exists_eq_add_of_le hn
  refine (List.Perm.of_eq ?_).trans (addresses_perm data dataSize c dataCnt)
  rw [← List.map_add_range', List.map_map]
  refine List.map_congr_left fun i hi => ?_
  obtain ⟨hlow, hhigh⟩ := List.mem_range'_1.mp hi
  have hcount : counter data (1 + i) = i := by
    rw [h (1 + i) (by omega) (by omega)]
    omega
  rw [Function.comp_apply, image_eq, hcount]

/-- The first call is made below zero. -/
theorem first_not_inCycle : ¬ InCycle (counter data 0) := by
  rw [counter_eq]
  decide

theorem inCycle_of_notWrapped (hn : 1 ≤ n) (h : NotWrapped data n) : InCycle (counter data n) := by
  rw [h]
  exact Or.inl (by omega)

variable {data} {first k : Nat}

theorem cycles_of_inCycle (h : ∀ n, first ≤ n → n < first + k → InCycle (counter data n)) :
    Cycles data first k := by
  have hpos := dataCnt_pos
  have hchunk : ∀ n, first ≤ n → n < first + k → image data n ∈ chunks data :=
    fun n hfirst hlast => (image_mem_iff data n).mpr (h n hfirst hlast)
  refine ⟨hchunk, fun n hfirst hlast => chunk_inside data (hchunk n hfirst hlast),
    fun n hfirst hlast hcounts => images_perm data n ?_ hcounts⟩
  rcases Nat.eq_zero_or_pos n with rfl | hn
  · exact absurd (h 0 hfirst (by omega)) (first_not_inCycle data)
  · exact hn

/-- All calls between the first and the wrap do. -/
theorem cycles_before_wrap (data : BitVec 64) : Cycles data 1 (2 ^ 31) :=
  cycles_of_inCycle fun n hfirst hlast =>
    inCycle_of_notWrapped data n hfirst ((notWrapped_iff data n).mpr (by omega))

/-- The condition in terms of the number of the call. -/
theorem inCycle_counter_iff (data : BitVec 64) (n : Nat) : InCycle (counter data n) ↔
    (0 < n % 2 ^ 32 ∧ n % 2 ^ 32 ≤ 2 ^ 31) ∨ dataCnt ∣ 2 ^ 32 + 1 - n % 2 ^ 32 := by
  have hlt : n % 2 ^ 32 < 2 ^ 32 := Nat.mod_lt n (by decide)
  have hrest : ((n : Int) - 1) % (2 ^ 32 : Nat) =
      if n % 2 ^ 32 = 0 then 2 ^ 32 - 1 else ((n % 2 ^ 32 : Nat) : Int) - 1 := by
    split <;> omega
  rw [InCycle, counter_eq, Int.bmod_def, hrest, dataCnt]
  generalize n % 2 ^ 32 = r at hlt
  rcases Nat.eq_zero_or_pos r with rfl | hr
  · decide
  · rw [if_neg hr.ne']
    split <;> omega

/-- **The calls go through the data** if and only if no counter is below zero, unless it is a
multiple of the number of chunks. -/
theorem cycles_iff (data : BitVec 64) (first k : Nat) : Cycles data first k ↔
    ∀ n, first ≤ n → n < first + k → InCycle (counter data n) := by
  constructor
  · intro h n hfirst hlast
    exact (image_mem_iff data n).mp (h.chunk n hfirst hlast)
  · exact cycles_of_inCycle

end Calls

section Runs

/-- The first call returns an address before the data, and so do calls after the counter has
wrapped. -/
theorem first_image_outside :
    image 0x7f0000000000 0 = 0x7f0000000000 - BitVec.ofNat 64 dataSize ∧
      ¬ Cycles 0x7f0000000000 0 1 ∧ ¬ Cycles 0x7f0000000000 (2 ^ 31 + 1) 1 := by
  refine ⟨by decide, fun h => ?_, fun h => ?_⟩
  · exact absurd (h.inside 0 (by decide) (by decide)) (by decide)
  · have hchunk := (image_mem_iff _ _).mp (h.chunk (2 ^ 31 + 1) (by decide) (by decide))
    rw [counter_eq] at hchunk
    exact absurd hchunk (by decide)

end Runs

end DclProcessor.FakeTcp
