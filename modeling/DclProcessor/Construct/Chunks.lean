import DclProcessor.Construct.Attach

/-!
Whether the chunks of a description that comes from a JSON can be used. Their size and their
count are `int`s in the JSON and nowhere compared with zero; `dclprocessor_init` has a least
count of its own.
-/

namespace DclProcessor.Construct

open Shmem Pipeline.Startup
open Description (JsonC intMember)

/-- A map whose ring has chunks: at least one, each from another address of the data segment
on, which lies in the region. Nothing wraps around. -/
structure Usable (map : MemoryMapT) : Prop where
  dataCnt : 1 ≤ map.dataCnt.toInt
  fits : map.Fits
  offset : ∀ i : Nat, (i : Int) < map.dataCnt.toInt →
    (map.ringOffset i).toNat = map.getDataOffset.toNat + i * map.dataSize.toNat
  apart : ∀ i j : Nat, i < j → (j : Int) < map.dataCnt.toInt →
    (map.ringOffset i).toNat + 1 ≤ (map.ringOffset j).toNat
  inside : ∀ i : Nat, (i : Int) < map.dataCnt.toInt →
    map.getDataOffset.toNat ≤ (map.ringOffset i).toNat ∧
      (map.ringOffset i).toNat < map.getDataOffset.toNat + map.getDataSize.toNat
  region : map.getDataOffset.toNat + map.getDataSize.toNat ≤ map.getSize.toNat

/-- A start of the pipeline: by `pipeline_init`, or by `dclprocessor_init` and from there. -/
inductive Start
  | pipelineInit (pl : Option Pipeline) (calls : Outcomes)
  | dclprocessorInit (useShmem : Bool) (shmpath : Option String) (server client : Outcomes)

def Start.run (pdesc : PipelineDescription) (w : World) : Start → Option Result
  | .pipelineInit pl calls => Construct.pipelineInit pl pdesc calls w
  | .dclprocessorInit useShmem shmpath server client =>
    Construct.dclprocessorInit useShmem shmpath pdesc server client w

/-- The start returns an error and has created no thread, or the map is usable. -/
def EndsWell (before : World) (result : Option Result) : Prop :=
  ∃ r ∈ result, (r.rc = -1 ∧ r.world.threads = before.threads) ∨
    ∃ pl ∈ r.pl, ∃ map ∈ pl.shmem, Usable map

/-- No module is null, and where they are accepted `P` holds. -/
def AcceptedOnly (pdesc : PipelineDescription) (P : Prop) : Prop :=
  ∃ minfos, pdesc.minfos.mapM id = some minfos ∧ (modulesUpdate minfos false minfos = 0 → P)

section Condition

variable (C : JsonC) (jobj : Json) (pdesc : PipelineDescription)

/-- `data_chunk_size` is positive. -/
def SizePositive : Prop := 1 ≤ (BitVec.ofInt 32 (intMember C jobj "data_chunk_size" 0)).toInt

/-- `data_chunk_count` is positive. -/
def CountPositive : Prop := 1 ≤ (BitVec.ofInt 32 (intMember C jobj "data_chunk_count" 0)).toInt

/-- Where `pipeline_init` comes to shared memory of its own, size and count are positive. -/
def OwnSound (calls : Outcomes) : Prop :=
  pdesc.shmpath ≠ none ∧ (CanCreate calls (ownMap pdesc processMaxCnt).getSize →
    AcceptedOnly pdesc (CountPositive C jobj ∧ SizePositive C jobj))

/-- With the shared memory of `dclprocessor_init` the size is positive. -/
def CommonSound (server client : Outcomes) : Prop :=
  ∃ map cnt, commonMap pdesc = some (map, cnt) ∧ (CanCreate server map.getSize →
    client.shmOpen = true → client.mmap = true → AcceptedOnly pdesc (SizePositive C jobj))

def Start.Sound : Start → Prop
  | .pipelineInit _ calls => OwnSound C jobj pdesc calls
  | .dclprocessorInit useShmem shmpath server client =>
    if useShmem = true ∧ shmpath ≠ none then CommonSound C jobj pdesc server client
    else OwnSound C jobj pdesc client

end Condition

/-! ## The map -/

section Map

variable {procCnt dataCnt dataSize : BitVec 32}

theorem toNat_toSizeT_neg {i : BitVec 32} (h : i.toInt < 0) : 2 ^ 63 ≤ (toSizeT i).toNat := by
  have hint : (toSizeT i).toInt = i.toInt := BitVec.toInt_signExtend_of_le (by decide)
  have hmsb : (toSizeT i).msb = true := by
    rw [BitVec.msb_eq_toInt, hint]
    exact decide_eq_true h
  exact BitVec.le_toNat_of_msb_true hmsb

/-- Counts and a size that are not negative `int`s fit. -/
theorem memoryMapCreate_fits (hproc : 0 ≤ procCnt.toInt) (hcnt : 0 ≤ dataCnt.toInt)
    (hsize : 0 ≤ dataSize.toInt) : (memoryMapCreate procCnt dataCnt dataSize).Fits where
  processCnt := hproc
  dataCnt := hcnt
  descriptionZoneCnt := (by decide : 0 ≤ (1#32).toInt)
  size := by
    have hsizeT : (toSizeT dataSize).toNat < 2 ^ 31 := by
      rw [MemoryMapT.toNat_toSizeT hsize]
      exact MemoryMapT.toNat_lt_of_nonneg hsize
    have hinfo : (BitVec.ofNat 64 processInfoSize).toNat < 2 ^ 31 := by decide
    have hdescription : (BitVec.ofNat 64 descriptorDataMaxLen).toNat < 2 ^ 31 := by decide
    have hone : (1#32).toNat < 2 ^ 31 := by decide
    exact MemoryMap.Fits.getSize_lt ⟨MemoryMapT.toNat_lt_of_nonneg hproc, hinfo,
      MemoryMapT.toNat_lt_of_nonneg hcnt, hsizeT, hone, hdescription⟩

/-- Chunks of at least one byte are usable where there are any. -/
theorem usable_of_pos (hproc : 0 ≤ procCnt.toInt) (hcnt : 1 ≤ dataCnt.toInt)
    (hsize : 1 ≤ dataSize.toInt) : Usable (memoryMapCreate procCnt dataCnt dataSize) := by
  have hfits := memoryMapCreate_fits hproc (by omega : 0 ≤ dataCnt.toInt)
    (by omega : 0 ≤ dataSize.toInt)
  have hsizeNat := MemoryMapT.toNat_of_nonneg (by omega : 0 ≤ dataSize.toInt)
  have hchunk : (memoryMapCreate procCnt dataCnt dataSize).dataSize.toNat = dataSize.toNat :=
    MemoryMapT.toNat_toSizeT (by omega)
  have hoffset (i : Nat) (hi : (i : Int) < dataCnt.toInt) :=
    hfits.toNat_ringOffset (hfits.lt_toNat hi)
  refine ⟨hcnt, hfits, hoffset, fun i j hij hj => ?_, fun i hi => ?_, hfits.data_region⟩
  · have hbefore := hfits.chunk_before hij (hfits.lt_toNat hj)
    simp only [MemoryMapT.chunk, Layout.Block.Before, hchunk] at hbefore
    omega
  · obtain ⟨hlow, hhigh⟩ := hfits.chunk_within (hfits.lt_toNat hi)
    have hround := MemoryMapT.le_memoryAlign
      ((memoryMapCreate procCnt dataCnt dataSize).dataCnt.toNat *
        (memoryMapCreate procCnt dataCnt dataSize).dataSize.toNat)
    rw [← hfits.toNat_getDataSize] at hround
    simp only [MemoryMapT.chunk, MemoryMapT.dataBlock] at hlow hhigh
    omega

/-- A size that is zero leaves the data segment empty, and a negative one does not fit below
`2 ^ 63`. -/
theorem pos_of_usable (hmsb : (memoryMapCreate procCnt dataCnt dataSize).getSize.msb = false)
    (h : Usable (memoryMapCreate procCnt dataCnt dataSize)) : 1 ≤ dataSize.toInt := by
  have hcnt : 1 ≤ dataCnt.toInt := h.dataCnt
  have hcntNat := MemoryMapT.toNat_of_nonneg (by omega : 0 ≤ dataCnt.toInt)
  have hdata := h.fits.toNat_getDataSize
  simp only [memoryMapCreate] at hdata
  by_contra hnot
  rcases Int.lt_or_eq_of_le (by omega : dataSize.toInt ≤ 0) with hneg | hzero
  · have hlarge := toNat_toSizeT_neg hneg
    have hregion := h.region
    have hsmall := BitVec.toNat_lt_of_msb_false hmsb
    have hround := MemoryMapT.le_memoryAlign (dataCnt.toNat * (toSizeT dataSize).toNat)
    have hmul : 1 * (toSizeT dataSize).toNat ≤ dataCnt.toNat * (toSizeT dataSize).toNat :=
      Nat.mul_le_mul_right _ (by omega)
    simp only [memoryMapCreate] at hregion hsmall
    omega
  · obtain rfl : dataSize = 0 := BitVec.toInt_inj.mp hzero
    obtain ⟨hlow, hhigh⟩ := h.inside 0 (by simp only [memoryMapCreate]; omega)
    have hempty : memoryAlign (dataCnt.toNat * (toSizeT 0).toNat) = 0 := by
      have hnone : (toSizeT 0).toNat = 0 := by decide
      rw [hnone, Nat.mul_zero]
      rfl
    simp only [memoryMapCreate] at hlow hhigh
    omega

theorem usable_iff (hproc : 0 ≤ procCnt.toInt)
    (hmsb : (memoryMapCreate procCnt dataCnt dataSize).getSize.msb = false) :
    Usable (memoryMapCreate procCnt dataCnt dataSize) ↔
      1 ≤ dataCnt.toInt ∧ 1 ≤ dataSize.toInt :=
  ⟨fun h => ⟨h.dataCnt, pos_of_usable hmsb h⟩, fun h => usable_of_pos hproc h.1 h.2⟩

end Map

/-! ## The starts -/

variable {calls : Outcomes} {w w' : World} {pdesc : PipelineDescription} {pl : Pipeline}
variable {p : Option Pipeline} {map : MemoryMapT}

theorem destroy_threads : (pl.destroy pdesc w).threads = w.threads := by
  rw [Pipeline.destroy]
  split <;> rfl

/-- Behind the shared memory the modules and the map decide. -/
theorem endsWell_attached (hdescribe : (p.getD .zero).describe pdesc = some pl)
    (hattach : pl.attach pdesc calls w = (w', some map)) {before : World}
    (hthreads : w'.threads = before.threads) :
    EndsWell before (pipelineInit p pdesc calls w) ↔ AcceptedOnly pdesc (Usable map) := by
  rw [AcceptedOnly]
  cases hminfos : pdesc.minfos.mapM id with
  | none =>
    rw [pipelineInit_nullModule hdescribe hattach hminfos]
    simp [EndsWell]
  | some minfos =>
    by_cases hupdate : modulesUpdate minfos false minfos = 0
    · obtain ⟨started, w'', hinit, hshmem⟩ := pipelineInit_started hdescribe hattach hminfos hupdate
      rw [hinit]
      simp [EndsWell, hshmem, hupdate]
    · rw [pipelineInit_rejected hdescribe hattach hminfos hupdate]
      refine iff_of_true ⟨_, rfl, Or.inl ⟨rfl, ?_⟩⟩ ⟨minfos, rfl, fun h => absurd h hupdate⟩
      exact destroy_threads.trans hthreads

theorem endsWell_unattached (hdescribe : (p.getD .zero).describe pdesc = some pl)
    (hattach : pl.attach pdesc calls w = (w', none)) {before : World}
    (hthreads : w'.threads = before.threads) :
    EndsWell before (pipelineInit p pdesc calls w) := by
  rw [pipelineInit_unattached hdescribe hattach]
  exact ⟨_, rfl, Or.inl ⟨rfl, hthreads⟩⟩

theorem AcceptedOnly.congr {P Q : Prop} (h : P ↔ Q) :
    AcceptedOnly pdesc P ↔ AcceptedOnly pdesc Q := by
  rw [AcceptedOnly, AcceptedOnly, h]

/-- `pipeline_init` with shared memory of its own. -/
theorem endsWell_own (hown : pdesc.useCommonShmem = false) {procCnt : BitVec 32}
    (hprocCnt : plProcCnt pdesc = some procCnt) :
    EndsWell w (pipelineInit p pdesc calls w) ↔ pdesc.shmpath ≠ none ∧
      (CanCreate calls (ownMap pdesc procCnt).getSize →
        AcceptedOnly pdesc (Usable (ownMap pdesc procCnt))) := by
  cases hpath : pdesc.shmpath with
  | none =>
    have hnone : (p.getD .zero).describe pdesc = none := by
      rw [Pipeline.describe, hprocCnt, hpath]
      rfl
    rw [pipelineInit_undescribed hnone]
    simp [EndsWell]
  | some path =>
    obtain ⟨pl, hdescribe, rfl, rfl⟩ := describe_eq (p.getD .zero) hprocCnt hpath
    obtain ⟨hpl, -⟩ := describes_of_describe hdescribe
    rw [and_iff_right (Option.some_ne_none _)]
    have hattaches : Attaches pdesc calls w pl.shmpath pl.procCnt ↔
        CanCreate calls (ownMap pdesc pl.procCnt).getSize := by
      rw [Attaches, if_neg (by rw [hown]; decide)]
    rcases Pipeline.attach_cases calls w hpl with
      ⟨hcan, w', map, hattach, hworld⟩ | ⟨hcannot, w', hkept, hattach⟩
    · rw [if_neg (by rw [hown]; decide)] at hworld
      obtain ⟨rfl, rfl⟩ := hworld
      have hends : EndsWell w (pipelineInit p pdesc calls w) ↔
          AcceptedOnly pdesc (Usable (ownMap pdesc pl.procCnt)) :=
        endsWell_attached hdescribe hattach (setenv_frame ..).2.1
      exact hends.trans (imp_iff_right (hattaches.mp hcan)).symm
    · exact iff_of_true (endsWell_unattached hdescribe hattach hkept.threads)
        fun hcan => absurd (hattaches.mpr hcan) hcannot

/-- `pipeline_init` with the shared memory that `dclprocessor_init` has made. -/
theorem endsWell_client {server client : Outcomes} {shmpath : String} {procCnt reserve : BitVec 32}
    (hplus : plProcCnt (commonDescription pdesc shmpath map.getSize procCnt) = some reserve)
    (hcreate : CanCreate server map.getSize) :
    EndsWell w (pipelineInit none (commonDescription pdesc shmpath map.getSize procCnt) client
        (sharedMemorySetenv server ((w.unlink shmpath).create shmpath map) shmpath map)) ↔
      (client.shmOpen = true → client.mmap = true → AcceptedOnly pdesc (Usable map)) := by
  set made := (w.unlink shmpath).create shmpath map with hmade
  obtain ⟨hlinked, hthreads, -⟩ := setenv_frame server made shmpath map
  have hfound : (sharedMemorySetenv server made shmpath map).linked shmpath =
      some ⟨(w.unlink shmpath).objects, map⟩ := by
    rw [hlinked]
    exact create_linked_self
  obtain ⟨pl, hdescribe, -, rfl⟩ := describe_eq .zero hplus rfl
  obtain ⟨hpl, -⟩ := describes_of_describe hdescribe
  have hsize := hcreate.ne_zero
  have hattaches : CanAttach client (sharedMemorySetenv server made pl.shmpath map) pl.shmpath
      map.getSize ↔ client.shmOpen = true ∧ client.mmap = true := by
    rw [CanAttach, hfound, and_iff_right ⟨_, rfl⟩]
    simp [Outcomes.mmaps, hsize]
  rcases Pipeline.attach_cases client
      (sharedMemorySetenv server made pl.shmpath map) hpl with
    ⟨hcan, w', map', hattach, hworld⟩ | ⟨hcannot, w', hkept, hattach⟩
  · have hcommon : (commonDescription pdesc pl.shmpath map.getSize procCnt).useCommonShmem = true :=
      rfl
    rw [if_pos hcommon] at hworld
    obtain ⟨rfl, object, hobject, rfl⟩ := hworld
    obtain rfl := Option.some.inj (hfound.symm.trans hobject)
    obtain ⟨hopen, hmmap⟩ := hattaches.mp hcan
    have hends := endsWell_attached (p := none) hdescribe hattach hthreads
    rw [imp_iff_right hopen, imp_iff_right hmmap]
    exact hends
  · refine iff_of_true (endsWell_unattached (p := none) hdescribe hattach
      (hkept.threads.trans hthreads)) fun hopen hmmap => ?_
    exact absurd (hattaches.mpr ⟨hopen, hmmap⟩) hcannot

section Json

variable {C : JsonC} {jobj : Json}

theorem endsWell_pipelineInit (hjson : FromJson C jobj pdesc) :
    EndsWell w (pipelineInit p pdesc calls w) ↔ OwnSound C jobj pdesc calls := by
  have hprocCnt : plProcCnt pdesc = some processMaxCnt := by
    rw [plProcCnt, hjson.procCnt]
    rfl
  rw [endsWell_own hjson.useCommonShmem hprocCnt, OwnSound]
  refine and_congr_right' (imp_congr_right fun hcan => AcceptedOnly.congr ?_)
  have hmsb : (ownMap pdesc processMaxCnt).getSize.msb = false := hcan.msb
  rw [ownMap] at hmsb ⊢
  rw [usable_iff (by decide) hmsb, hjson.dataCnt, hjson.dataSize]
  rfl

/-- The count of `dclprocessor_init` is at least four. -/
theorem usable_common_iff (hjson : FromJson C jobj pdesc) {procCnt : BitVec 32}
    (hmap : commonMap pdesc = some (map, procCnt)) (hmsb : map.getSize.msb = false) :
    Usable map ↔ SizePositive C jobj := by
  have hlen : pdesc.minfos.length + 4 < 2 ^ 31 := by
    by_contra hover
    rw [commonMap_overflow hjson.modulesCnt_lt hover] at hmap
    cases hmap
  obtain ⟨cnt, reserve, hcnt, hreserve, hmap'⟩ := commonMap_of_lt hlen
  obtain ⟨rfl, rfl⟩ := Prod.mk.inj (Option.some.inj (hmap.symm.trans hmap'))
  have hdata : 1 ≤ (if pdesc.dataCnt.toInt > reserve.toInt then pdesc.dataCnt
      else reserve).toInt := by
    split <;> omega
  rw [usable_iff (by omega) hmsb, and_iff_right hdata, hjson.dataSize, SizePositive]

theorem commonSound_iff {server client : Outcomes} {procCnt : BitVec 32}
    (hmap : commonMap pdesc = some (map, procCnt)) : CommonSound C jobj pdesc server client ↔
      (CanCreate server map.getSize → client.shmOpen = true → client.mmap = true →
        AcceptedOnly pdesc (SizePositive C jobj)) := by
  constructor
  · rintro ⟨map', cnt, hmap', hsound⟩
    obtain ⟨rfl, rfl⟩ := Prod.mk.inj (Option.some.inj (hmap.symm.trans hmap'))
    exact hsound
  · intro hsound
    exact ⟨map, procCnt, hmap, hsound⟩

theorem endsWell_dclprocessorInit (hjson : FromJson C jobj pdesc) (shmpath : String)
    (server client : Outcomes) :
    EndsWell w (dclprocessorInit true (some shmpath) pdesc server client w) ↔
      CommonSound C jobj pdesc server client := by
  rw [dclprocessorInit]
  simp only [Option.filter_some, if_true, Option.bind_eq_bind]
  by_cases hlen : pdesc.minfos.length + 4 < 2 ^ 31
  · obtain ⟨procCnt, reserve, hprocCnt, hreserve, hmap⟩ := commonMap_of_lt hlen
    rw [commonSound_iff hmap, hmap, Option.bind_some]
    generalize memoryMapCreate procCnt _ _ = map at hmap ⊢
    have hkept : Kept w (w.unlink shmpath) := (Kept.refl w).unlink
    rcases sharedMemoryServerInit_cases server map hkept unlink_linked_self with
      ⟨hcreate, hinit⟩ | ⟨hcannot, w', hkept', hinit⟩
    · obtain ⟨total, hplus, -⟩ := plus_of_lt (by omega : 0 ≤ procCnt.toInt) (n := 2) (by omega)
      have hcount : plProcCnt (commonDescription pdesc shmpath map.getSize procCnt) =
          some total := by
        rw [plProcCnt]
        exact (if_pos (by simp only [commonDescription]; omega)).trans hplus
      rw [imp_iff_right hcreate, hinit]
      simp only
      rw [endsWell_client hcount hcreate]
      exact imp_congr_right fun _ => imp_congr_right fun _ =>
        AcceptedOnly.congr (usable_common_iff hjson hmap hcreate.msb)
    · rw [hinit]
      refine iff_of_true ⟨_, rfl, Or.inl ⟨rfl, hkept'.threads⟩⟩ fun hcreate => ?_
      exact absurd hcreate hcannot
  · rw [CommonSound, commonMap_overflow hjson.modulesCnt_lt hlen]
    simp [EndsWell]

/-- **The chunks of a JSON** are usable or the start fails, in exactly these cases. -/
theorem endsWell_iff {pdesc : PipelineDescription} (h : jsonDescription C jobj = some pdesc)
    (start : Start) (w : World) :
    EndsWell w (start.run pdesc w) ↔ start.Sound C jobj pdesc := by
  have hjson := fromJson_of_jsonDescription h
  cases start with
  | pipelineInit p calls => exact endsWell_pipelineInit hjson
  | dclprocessorInit useShmem shmpath server client =>
    rw [Start.run, Start.Sound]
    cases useShmem with
    | false =>
      have hown : dclprocessorInit false shmpath pdesc server client w =
          pipelineInit none pdesc client w := by
        cases shmpath <;> rfl
      rw [hown, if_neg (fun hcommon => Bool.false_ne_true hcommon.1)]
      exact endsWell_pipelineInit hjson
    | true =>
      cases shmpath with
      | none => exact endsWell_pipelineInit hjson
      | some shmpath =>
        rw [if_pos ⟨rfl, Option.some_ne_none _⟩]
        exact endsWell_dclprocessorInit hjson shmpath server client

end Json

/-- A first and a last module that have chunks of 128 bytes. -/
def pairJson (chunkCount : Json) : Json :=
  .object [("shmem_segment_name", .string "/procsegment"), ("data_chunk_size", .int 128),
    ("data_chunk_count", chunkCount),
    ("modules", .array [
      .object [("id", .int 0), ("type", .string "FIRST"), ("next", .int 1)],
      .object [("id", .int 1), ("type", .string "LAST")]])]

theorem pair_described (chunkCount : Json) :
    (jsonDescription Description.plainC (pairJson chunkCount)).isSome = true := rfl

def pairDescription (chunkCount : Json) : PipelineDescription :=
  (jsonDescription Description.plainC (pairJson chunkCount)).get (pair_described chunkCount)

theorem sixteenChunks_endWell :
    EndsWell .new ((Start.pipelineInit none allSucceed).run (pairDescription (.int 16)) .new) := by
  have hdescribed := (Option.some_get (pair_described (.int 16))).symm
  refine (endsWell_iff hdescribed (.pipelineInit none allSucceed) .new).mpr
    ⟨Option.some_ne_none "/procsegment", fun _ => ⟨_, rfl, fun _ => ⟨?_, ?_⟩⟩⟩
  · exact (by decide : 1 ≤ (BitVec.ofInt 32 16).toInt)
  · exact (by decide : 1 ≤ (BitVec.ofInt 32 128).toInt)

/-- Without `data_chunk_count` there is no chunk. -/
theorem noCount_unusable :
    ¬ EndsWell .new ((Start.pipelineInit none allSucceed).run (pairDescription .null) .new) := by
  rintro ⟨r, hr, hends⟩
  obtain rfl := Option.some.inj hr
  rcases hends with ⟨hrc, -⟩ | ⟨pl, hpl, map, hmap, husable⟩
  · cases hrc
  · obtain rfl := Option.some.inj hpl
    obtain rfl := Option.some.inj hmap
    exact absurd husable.dataCnt (by decide)

end DclProcessor.Construct
