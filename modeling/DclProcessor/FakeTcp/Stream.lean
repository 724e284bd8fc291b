import DclProcessor.Library.Memory
import DclProcessor.Collector.Fragments
import DclProcessor.FakeTcp.Generator

/-!
What the fake camera sends: `test_data_create` fills the chunks, and `generate_data_thread`
writes one after the other to the socket, as many bytes as a chunk has for its size. As long
as `next_image` returns chunks these are the frames that the collector reads.
-/

namespace DclProcessor.FakeTcp

open Bytes SlotTable

/-- What `cv::imread` has read, the bytes that are copied of it. -/
abbrev Images := Nat → { raw : List UInt8 // raw.length = imageRawSize }

/-- One turn of the loop of `test_data_create`. -/
def createChunk (images : Images) (data : Nat) (mem : Memory) (i : Nat) : Memory :=
  let chunk := data + i * dataSize
  let mem := store mem chunk (leBytes 8 dataSize)
  let mem := store mem (chunk + 8) (leBytes 4 i)
  store mem (chunk + imageHeaderSize) (images i).1

def testDataCreate (images : Images) (data : Nat) (mem : Memory) : Memory :=
  (List.range dataCnt).foldl (createChunk images data) mem

/-- The buffer that is written for an address: its size is the number that it begins with. -/
def bufferAt (mem : Memory) (buf : BitVec 64) : List UInt8 :=
  load mem buf.toNat (leValue (load mem buf.toNat 8))

/-- The loop of `generate_data_thread`, where `write` returns these numbers. -/
def generateData (mem : Memory) : DataGenerator → List Int → List UInt8
  | _, [] => []
  | generator, ln :: lns =>
    let buf := generator.nextImage.1
    let bytes := bufferAt mem buf
    bytes.take ln.toNat ++
      if ln < 0 ∨ ln ≠ bytes.length then [] else generateData mem generator.nextImage.2 lns

/-- A chunk as a frame of the collector. -/
def chunkFrame (images : Images) (i : Nat) : Collector.Frame imageRawSize :=
  ⟨BitVec.ofNat 32 i, (images i).1, (images i).2⟩

/-- The chunk that call `n` returns, if it does. -/
def chunkOf (data : BitVec 64) (n : Nat) : Nat := ((counter data n).tmod dataCnt).toNat

section Create

variable {images : Images} {data : Nat} {mem : Memory} {i j : Nat}

/-- The parts of a chunk: its size, its number and the image. -/
theorem load_chunk (mem : Memory) (chunk : Nat) : load mem chunk dataSize =
    load mem chunk 8 ++ load mem (chunk + 8) 4 ++
      load mem (chunk + imageHeaderSize) imageRawSize := by
  have hparts : dataSize = 8 + 4 + imageRawSize := rfl
  rw [hparts, load_add, load_add]
  rfl

/-- A chunk holds its frame when it has been created. -/
theorem createChunk_load (hi : i < dataCnt) :
    load (createChunk images data mem i) (data + i * dataSize) dataSize =
      Collector.encode (chunkFrame images i) := by
  have hid : (BitVec.ofNat 32 i).toNat = i := by
    rw [BitVec.toNat_ofNat, Nat.mod_eq_of_lt (by rw [dataCnt] at hi; omega)]
  have hbehind : data + i * dataSize + 8 + 4 ≤ data + i * dataSize + imageHeaderSize := le_rfl
  have hsize : load (createChunk images data mem i) (data + i * dataSize) 8 =
      leBytes 8 dataSize := by
    rw [createChunk, load_store_of_disjoint _ (Or.inl (by omega)),
      load_store_of_disjoint _ (Or.inl le_rfl), load_stored (leBytes_length ..)]
  have hnumber : load (createChunk images data mem i) (data + i * dataSize + 8) 4 =
      leBytes 4 i := by
    rw [createChunk, load_store_of_disjoint _ (Or.inl hbehind), load_stored (leBytes_length ..)]
  have himage : load (createChunk images data mem i) (data + i * dataSize + imageHeaderSize)
      imageRawSize = (images i).1 := load_stored (images i).2 _
  rw [load_chunk, hsize, hnumber, himage, Collector.encode, chunkFrame, hid]
  rfl

theorem createChunk_load_of_ne (h : i ≠ j) :
    load (createChunk images data mem i) (data + j * dataSize) dataSize =
      load mem (data + j * dataSize) dataSize := by
  have hraw := (images i).2
  have happart : (i + 1) * dataSize ≤ j * dataSize ∨ (j + 1) * dataSize ≤ i * dataSize := by
    rcases Nat.lt_or_gt_of_ne h with hlt | hgt
    · exact Or.inl (Nat.mul_le_mul_right _ hlt)
    · exact Or.inr (Nat.mul_le_mul_right _ hgt)
  have hsize : dataSize = 12 + imageRawSize := rfl
  rw [Nat.succ_mul, Nat.succ_mul] at happart
  simp only [createChunk, imageHeaderSize]
  rw [load_store_of_disjoint, load_store_of_disjoint, load_store_of_disjoint]
  all_goals
    simp only [leBytes_length, hraw]
    omega

/-- What lies below the chunks is left. -/
theorem testDataCreate_load_below {a n : Nat} (h : a + n ≤ data) :
    load (testDataCreate images data mem) a n = load mem a n := by
  rw [testDataCreate]
  induction dataCnt with
  | zero => rfl
  | succ k ih =>
    rw [List.range_succ, List.foldl_append, List.foldl_cons, List.foldl_nil, createChunk]
    rw [load_store_of_disjoint, load_store_of_disjoint, load_store_of_disjoint, ih]
    all_goals exact Or.inl (by omega)

theorem testDataCreate_load (hi : i < dataCnt) :
    load (testDataCreate images data mem) (data + i * dataSize) dataSize =
      Collector.encode (chunkFrame images i) := by
  rw [testDataCreate]
  generalize hk : dataCnt = k at hi
  have hle : k ≤ dataCnt := hk.ge
  clear hk
  induction k with
  | zero => cases hi
  | succ k ih =>
    rw [List.range_succ, List.foldl_append, List.foldl_cons, List.foldl_nil]
    rcases Nat.lt_succ_iff_lt_or_eq.mp hi with hlt | rfl
    · rw [createChunk_load_of_ne hlt.ne']
      exact ih hlt (by omega)
    · exact createChunk_load (by omega)

end Create

section Thread

variable {images : Images} {data : BitVec 64} {mem : Memory} {n first : Nat}

/-- The data are in the memory, below the end of the address space. -/
structure Created (images : Images) (data : BitVec 64) (mem : Memory) : Prop where
  fits : data.toNat + dataCnt * dataSize ≤ 2 ^ 64
  chunk : ∀ i < dataCnt, load mem (data.toNat + i * dataSize) dataSize =
    Collector.encode (chunkFrame images i)

theorem created_testDataCreate (images : Images) (mem : Memory)
    (hfits : data.toNat + dataCnt * dataSize ≤ 2 ^ 64) :
    Created images data (testDataCreate images data.toNat mem) :=
  ⟨hfits, fun _ hi => testDataCreate_load hi⟩

/-- The buffer at a chunk is its frame. -/
theorem bufferAt_slot (h : Created images data mem) {i : Nat} (hi : i < dataCnt) :
    bufferAt mem (slot data dataSize i) = Collector.encode (chunkFrame images i) := by
  have hlt : i * dataSize < dataCnt * dataSize := Nat.mul_lt_mul_of_pos_right hi dataSize_pos
  have haddr : (slot data dataSize i).toNat = data.toNat + i * dataSize := by
    have hfits := h.fits
    rw [slot, BitVec.toNat_add, BitVec.toNat_ofNat, Nat.mod_eq_of_lt (by omega : i * dataSize < _),
      Nat.mod_eq_of_lt (by omega)]
  have hchunk := h.chunk i hi
  have hsize : leValue (load mem (data.toNat + i * dataSize) 8) = dataSize := by
    have hpart := load_part mem (data.toNat + i * dataSize) (by decide : 0 + 8 ≤ dataSize)
    rw [Nat.add_zero, List.drop_zero, hchunk] at hpart
    rw [hpart, Collector.encode_size _ (by decide)]
    rfl
  rw [bufferAt, haddr, hsize, hchunk]

/-- A call in the cycle returns the chunk of its remainder. -/
theorem image_chunkOf (h : InCycle (counter data n)) :
    image data n = slot data dataSize (chunkOf data n) ∧ chunkOf data n < dataCnt := by
  have hnonneg := tmod_nonneg_iff.mpr h
  have hlt := Int.tmod_lt_of_pos (counter data n) (Int.natCast_pos.mpr dataCnt_pos)
  constructor
  · rw [image_eq, ← address_natCast, chunkOf, Int.toNat_of_nonneg hnonneg]
  · rw [chunkOf]
    omega

/-- Before the counter wraps the chunks come in their order. -/
theorem chunkOf_eq (hn : 1 ≤ n) (h : NotWrapped data n) : chunkOf data n = (n - 1) % dataCnt := by
  have hcount : counter data n = (n - 1 : Nat) := by
    rw [h]
    omega
  rw [chunkOf, hcount, tmod_natCast, Int.toNat_natCast]

/-- The frames of the calls from `first` on. -/
def framesFrom (images : Images) (data : BitVec 64) (first k : Nat) :
    List (Collector.Frame imageRawSize) :=
  (List.range' first k).map fun n => chunkFrame images (chunkOf data n)

theorem framesFrom_succ (images : Images) (data : BitVec 64) (first k : Nat) :
    framesFrom images data first (k + 1) =
      chunkFrame images (chunkOf data first) :: framesFrom images data (first + 1) k := by
  rw [framesFrom, List.range'_succ, List.map_cons]
  rfl

/-- One turn of the loop in the cycle. -/
theorem generateData_cons (h : Created images data mem) (hcycle : InCycle (counter data first))
    (ln : Int) (lns : List Int) :
    generateData mem ((DataGenerator.init data).after first) (ln :: lns) =
      (Collector.encode (chunkFrame images (chunkOf data first))).take ln.toNat ++
        if ln = dataSize then generateData mem ((DataGenerator.init data).after (first + 1)) lns
        else [] := by
  obtain ⟨himage, hlt⟩ := image_chunkOf hcycle
  have hbuffer := bufferAt_slot h hlt
  have hlength : (Collector.encode (chunkFrame images (chunkOf data first))).length = dataSize :=
    Collector.encode_length _
  rw [← himage, image] at hbuffer
  rw [generateData, hbuffer, hlength]
  by_cases hln : ln = dataSize
  · have hpos : ¬ (ln < 0 ∨ ln ≠ dataSize) := by omega
    rw [if_pos hln, if_neg hpos]
    rfl
  · rw [if_neg hln, if_pos (Or.inr hln)]

/-- **What the collector gets** begins with the frames, as far as the writes have gone. -/
theorem generateData_prefix (h : Created images data mem) (lns : List Int)
    (hcycle : ∀ n, first ≤ n → n < first + lns.length → InCycle (counter data n)) :
    generateData mem ((DataGenerator.init data).after first) lns <+:
      (framesFrom images data first lns.length).flatMap Collector.encode := by
  induction lns generalizing first with
  | nil => exact List.nil_prefix
  | cons ln lns ih =>
    rw [List.length_cons] at hcycle ⊢
    rw [generateData_cons h (hcycle first (by omega) (by omega)), framesFrom_succ,
      List.flatMap_cons]
    split
    case isTrue hln =>
      have hall : (Collector.encode (chunkFrame images (chunkOf data first))).length ≤
          ln.toNat := by
        rw [Collector.encode_length, hln]
        exact le_rfl
      rw [List.take_of_length_le hall, List.prefix_append_right_inj]
      exact ih fun n hfirst hlast => hcycle n (by omega) (by omega)
    case isFalse =>
      rw [List.append_nil]
      exact (List.take_prefix ..).trans (List.prefix_append ..)

/-- All of the frames, if the writes are complete. -/
theorem generateData_complete (h : Created images data mem) (k : Nat)
    (hcycle : ∀ n, first ≤ n → n < first + k → InCycle (counter data n)) :
    generateData mem ((DataGenerator.init data).after first) (List.replicate k dataSize) =
      (framesFrom images data first k).flatMap Collector.encode := by
  induction k generalizing first with
  | zero => rfl
  | succ k ih =>
    have hwhole := List.take_of_length_le
      (Collector.encode_length (chunkFrame images (chunkOf data first))).le
    rw [List.replicate_succ, generateData_cons h (hcycle first (by omega) (by omega)),
      if_pos rfl, ih fun n hfirst hlast => hcycle n (by omega) (by omega), framesFrom_succ,
      List.flatMap_cons, Int.toNat_natCast]
    exact congrArg (· ++ _) hwhole

/-- What the first call makes the thread write: its buffer begins before the data. -/
def bufferBefore (mem : Memory) (data : BitVec 64) : List UInt8 := bufferAt mem (image data 0)

/-- The frames in the order in which they have been created, again and again. -/
def cycle (images : Images) (k : Nat) : List (Collector.Frame imageRawSize) :=
  (List.range k).map fun i => chunkFrame images (i % dataCnt)

theorem framesFrom_eq_cycle {k : Nat} (hk : k ≤ 2 ^ 31) :
    framesFrom images data 1 k = cycle images k := by
  rw [framesFrom, cycle, List.range_eq_range', ← List.map_add_range' 0 k 1, List.map_map]
  refine List.map_congr_left fun i hi => ?_
  have hlt := (List.mem_range'_1.mp hi).2
  rw [Function.comp_apply, chunkOf_eq (by omega) ((notWrapped_iff data _).mpr (by omega)),
    Nat.add_sub_cancel_left]

/-- Nothing is written for the first call, and the loop goes on. -/
theorem generateData_first (hbefore : bufferBefore mem data = []) (lns : List Int) :
    generateData mem (DataGenerator.init data) (0 :: lns) =
      generateData mem ((DataGenerator.init data).after 1) lns := by
  have hbuffer : bufferAt mem (DataGenerator.init data).nextImage.1 = [] := hbefore
  rw [generateData, hbuffer]
  rfl

/-- **The whole stream** until the counter wraps. -/
theorem generateData_init (h : Created images data mem) {k : Nat} (hk : k ≤ 2 ^ 31) :
    generateData mem (DataGenerator.init data)
        ((bufferBefore mem data).length :: List.replicate k dataSize) =
      bufferBefore mem data ++ (cycle images k).flatMap Collector.encode := by
  have hcycle : ∀ n, 1 ≤ n → n < 1 + k → InCycle (counter data n) := fun n hfirst hlast =>
    inCycle_of_notWrapped data n hfirst ((notWrapped_iff data n).mpr (by omega))
  have hframes := generateData_complete h k hcycle
  rw [framesFrom_eq_cycle hk] at hframes
  rw [← hframes]
  have hwritten : ¬ (((bufferBefore mem data).length : Int) < 0 ∨
      ((bufferBefore mem data).length : Int) ≠ (bufferBefore mem data).length) := by omega
  have hwhole := List.take_of_length_le (le_refl (bufferBefore mem data).length)
  rw [generateData, Int.toNat_natCast]
  exact congrArg₂ (· ++ ·) hwhole (if_neg hwritten)

/-- **From the fake camera to the collector**: if nothing is written for the first call, what is
written are the images in their order, or as much of them as the writes have taken, and the
collector gets them in this order, however often it reads, unless a read goes over the end of a
frame. -/
theorem generateData_delivered (hfits : data.toNat + dataCnt * dataSize ≤ 2 ^ 64)
    (hbefore : bufferBefore (testDataCreate images data.toNat mem) data = []) {k : Nat}
    (hk : k ≤ 2 ^ 31) :
    (∀ lns : List Int, lns.length = k →
      generateData (testDataCreate images data.toNat mem) (DataGenerator.init data) (0 :: lns) <+:
        (cycle images k).flatMap Collector.encode) ∧
    generateData (testDataCreate images data.toNat mem) (DataGenerator.init data)
        (0 :: List.replicate k dataSize) = (cycle images k).flatMap Collector.encode ∧
    ∀ header packet ns r, header.length = Collector.headerLen → packet.length = imageRawSize →
      Transition.Trace (Collector.tcp imageRawSize) (fun _ => True)
        (Collector.Reader.start header packet (generateData (testDataCreate images data.toNat mem)
          (DataGenerator.init data) (0 :: List.replicate k dataSize))) ns r →
      Collector.Aligned imageRawSize ns → Collector.Delivered (cycle images k) ns r := by
  have hcreated := created_testDataCreate images mem hfits
  have hstream := generateData_init hcreated hk
  rw [hbefore, List.nil_append] at hstream
  refine ⟨?_, hstream, ?_⟩
  · intro lns hlength
    have hcycle : ∀ n, 1 ≤ n → n < 1 + lns.length → InCycle (counter data n) :=
      fun n hfirst hlast =>
        inCycle_of_notWrapped data n hfirst ((notWrapped_iff data n).mpr (by omega))
    have hwritten := generateData_prefix hcreated lns hcycle
    rw [hlength, framesFrom_eq_cycle hk] at hwritten
    rwa [generateData_first hbefore]
  · intro header packet ns r hheader hpacket hrun haligned
    rw [show (0 : Int) = ([] : List UInt8).length from rfl, hstream] at hrun
    rcases Collector.outcome_of_trace hheader hpacket (by decide) hrun with
      ⟨-, j, off, hsum, hgood⟩ | ⟨hnot, -, -⟩
    · exact hgood.delivered_frames hsum
    · exact absurd haligned hnot

/-- Image `i` has only the byte `i`. -/
def greyImages : Images := fun i => ⟨List.replicate imageRawSize (UInt8.ofNat i),
  List.length_replicate⟩

def greyData : BitVec 64 := BitVec.ofNat 64 (2 ^ 40)

/-- The memory after `test_data_create`, with zeros before the data. -/
def greyMemory : Memory := testDataCreate greyImages greyData.toNat fun _ => 0

theorem greyMemory_before : bufferBefore greyMemory greyData = [] := by
  have haddr : (image greyData 0).toNat + 8 ≤ greyData.toNat := by decide
  have hsize : leValue (load greyMemory (image greyData 0).toNat 8) = 0 := by
    rw [greyMemory, testDataCreate_load_below haddr]
    rfl
  rw [bufferBefore, bufferAt, hsize]
  rfl

/-- The collector reads two images, the header and the data of each at once. -/
theorem generateData_delivered_twoImages : ∃ r,
    Transition.Trace (Collector.tcp imageRawSize) (fun _ => True)
      (Collector.Reader.start (List.replicate 12 0) (List.replicate imageRawSize 0)
        (generateData greyMemory (DataGenerator.init greyData)
          (0 :: List.replicate 2 dataSize))) (Collector.wholeReads imageRawSize 2) r ∧
    r.delivered = [(0, List.replicate imageRawSize 0), (1, List.replicate imageRawSize 1)] := by
  have hfits : greyData.toNat + dataCnt * dataSize ≤ 2 ^ 64 := by decide
  obtain ⟨-, hstream, hdelivered⟩ :=
    generateData_delivered hfits greyMemory_before (by decide : 2 ≤ 2 ^ 31)
  have hheader : (List.replicate 12 (0 : UInt8)).length = Collector.headerLen :=
    List.length_replicate
  have hpacket : (List.replicate imageRawSize (0 : UInt8)).length = imageRawSize :=
    List.length_replicate
  have htwo : 2 ≤ (cycle greyImages 2).length := by
    rw [cycle, List.length_map, List.length_range]
  obtain ⟨r, hrun, -, -⟩ := Collector.wholeReads_run (cycle greyImages 2) hheader hpacket
    (by decide) (by decide) htwo
  rw [← hstream] at hrun
  have hall := hdelivered _ _ _ _ hheader hpacket hrun (Collector.wholeReads_aligned 2)
  rw [Collector.Delivered, Collector.wholeReads_sum,
    Nat.mul_div_cancel _ Collector.frameLen_pos] at hall
  exact ⟨r, hrun, hall⟩

end Thread

end DclProcessor.FakeTcp
