import DclProcessor.Description.Parse
import DclProcessor.Pipeline.Startup
import DclProcessor.Shmem.Publish
import DclProcessor.Shmem.Segments

/-!
`pipeline_init` and `dclprocessor_init` up to the creation of `pipeline_thread`, with what
they leave in the system. `none` where the code has no defined result: an `int` that
overflows, or a null pointer that is read.
-/

namespace DclProcessor.Construct

open Shmem Pipeline.Startup

/-! ## Descriptions -/

/-- What `pipeline_init` reads of `struct pipeline_description`; `minfos` has `modules_cnt`
elements. -/
structure PipelineDescription where
  useCommonShmem : Bool
  shmpath : Option String
  shmsize : BitVec 64
  minfos : List (Option ModuleInfo)
  procCnt : BitVec 32
  dataCnt : BitVec 32
  dataSize : BitVec 64

/-- The result of an `int` addition that does not overflow. -/
def plus (i : BitVec 32) (n : Nat) : Option (BitVec 32) :=
  if i.toInt + n < 2 ^ 31 then some (i + BitVec.ofNat 32 n) else none

theorem toInt_ofNat {n : Nat} (h : n < 2 ^ 31) : (BitVec.ofNat 32 n).toInt = n := by
  have hnat : (BitVec.ofNat 32 n).toNat = n := by
    rw [BitVec.toNat_ofNat, Nat.mod_eq_of_lt (by omega)]
  rw [BitVec.toInt_eq_toNat_of_lt (by omega), hnat]

theorem plus_of_lt {i : BitVec 32} {n : Nat} (h0 : 0 ≤ i.toInt) (h : i.toInt + n < 2 ^ 31) :
    ∃ j, plus i n = some j ∧ j.toInt = i.toInt + n := by
  have hi := MemoryMapT.toNat_of_nonneg h0
  have hsum : (i + BitVec.ofNat 32 n).toNat = i.toNat + n := by
    rw [BitVec.toNat_add, BitVec.toNat_ofNat, Nat.mod_eq_of_lt (by omega : n < 2 ^ 32),
      Nat.mod_eq_of_lt (by omega)]
  refine ⟨_, if_pos h, ?_⟩
  rw [BitVec.toInt_eq_toNat_of_lt (by omega), hsum]
  omega

theorem plus_overflow {i : BitVec 32} {n : Nat} (h : 2 ^ 31 ≤ i.toInt + n) : plus i n = none :=
  if_neg (by omega)

/-- `pipeline_description_init`; its caller fills in the modules. -/
def pipelineDescriptionInit (shmpath : String) (dataCnt dataSize : BitVec 32)
    (minfos : List ModuleInfo) : Option PipelineDescription := do
  guard (minfos.length < 2 ^ 31)
  let procCnt ← plus (BitVec.ofNat 32 minfos.length) 1
  return {
    useCommonShmem := false
    shmpath := some shmpath
    shmsize := 0
    minfos := minfos.map some
    procCnt
    dataCnt
    dataSize := toSizeT dataSize }

/-- `enum MT_TYPE` -/
def moduleType (type : Int) : ModuleType :=
  if type = 1 then .first else if type = 2 then .middle else if type = 0 then .last else .undefined

def moduleInfo (minfo : Description.ModuleInfo) : ModuleInfo where
  id := minfo.id
  type := moduleType minfo.type
  external := minfo.mode = 1
  next := minfo.next
  argv := minfo.argv

/-- What `parse_pipeline_json` leaves in a new description: it does not set `proc_cnt`. -/
def parsedDescription (parsed : Description.PipelineDescription) : Option PipelineDescription := do
  guard (parsed.minfos.length < 2 ^ 31)
  return {
    useCommonShmem := false
    shmpath := parsed.shmpath
    shmsize := 0
    minfos := parsed.minfos.map (Option.map moduleInfo)
    procCnt := 0
    dataCnt := BitVec.ofInt 32 parsed.dataCnt
    dataSize := BitVec.ofNat 64 parsed.dataSize }

/-- `load_pipeline_configuration_from_object` for an object that is there. -/
def jsonDescription (C : Description.JsonC) (jobj : Json) : Option PipelineDescription :=
  (Description.parsePipelineJson C jobj).bind parsedDescription

/-- What a description has from a JSON; the size goes from an `int` to a `size_t`. -/
structure FromJson (C : Description.JsonC) (jobj : Json) (pdesc : PipelineDescription) : Prop where
  useCommonShmem : pdesc.useCommonShmem = false
  shmpath : pdesc.shmpath = Description.stringMember C jobj "shmem_segment_name"
  modulesCnt : pdesc.minfos.length =
    ((Description.elements (jobj.get "modules")).getD []).length
  modulesCnt_lt : pdesc.minfos.length < 2 ^ 31
  procCnt : pdesc.procCnt = 0
  dataCnt : pdesc.dataCnt = BitVec.ofInt 32 (Description.intMember C jobj "data_chunk_count" 0)
  dataSize : pdesc.dataSize.setWidth 32 =
    BitVec.ofInt 32 (Description.intMember C jobj "data_chunk_size" 0)

/-- The `int` comes back from the `size_t`. -/
theorem setWidth_toSize (n : Int) :
    (BitVec.ofNat 64 (Description.toSize n)).setWidth 32 = BitVec.ofInt 32 n := by
  apply BitVec.eq_of_toNat_eq
  rw [BitVec.toNat_setWidth, BitVec.toNat_ofNat, BitVec.toNat_ofInt, Description.toSize]
  omega

theorem fromJson_of_jsonDescription {C : Description.JsonC} {jobj : Json}
    {pdesc : PipelineDescription} (h : jsonDescription C jobj = some pdesc) :
    FromJson C jobj pdesc := by
  simp only [jsonDescription, parsedDescription, Option.bind_eq_bind,
    Option.bind_eq_some_iff, Option.guard_eq_some'] at h
  obtain ⟨parsed, hparsed, -, hlen, hpdesc⟩ := h
  obtain rfl := Option.some.inj hpdesc
  simp only [Description.parsePipelineJson, Option.bind_eq_bind, Option.bind_eq_some_iff] at hparsed
  obtain ⟨minfos, hminfos, hparsed⟩ := hparsed
  obtain rfl := Option.some.inj hparsed
  exact {
    useCommonShmem := rfl
    shmpath := rfl
    modulesCnt := (List.length_map _).trans (Description.length_of_mapM hminfos)
    modulesCnt_lt := by rwa [List.length_map]
    procCnt := rfl
    dataCnt := rfl
    dataSize := setWidth_toSize _ }

/-! ## The system -/

/-- A shared memory object with the header at its start. The objects that there have been are
numbered. -/
structure Object where
  id : Nat
  header : MemoryMapT

/-- What a start touches: the shared memory objects that are linked, the environment of the
process, and its threads. The thread id of a `struct pipeline` that is all zeros is none. -/
structure World where
  objects : Nat
  linked : String → Option Object
  shmemDataName : Option String
  shmemDataSize : Option String
  threads : List Nat
  joined : List (Option Nat)
  known : ∀ name, ∀ o ∈ linked name, o.id < objects

/-- Which calls succeed. -/
structure Outcomes where
  shmOpen : Bool
  ftruncate : Bool
  mmap : Bool
  setenvName : Bool
  setenvSize : Bool
  pthreadCreate : Option Nat

namespace Outcomes

/-- `ftruncate` takes no length that is negative. -/
def ftruncates (calls : Outcomes) (size : BitVec 64) : Bool := calls.ftruncate && !size.msb

/-- `mmap` takes no length that is zero. -/
def mmaps (calls : Outcomes) (size : BitVec 64) : Bool := calls.mmap && size != 0

end Outcomes

namespace World

/-- `shm_unlink` -/
def unlink (w : World) (shmpath : String) : World :=
  { w with
    linked := fun name => if name = shmpath then none else w.linked name
    known := by
      intro name o ho
      by_cases hname : name = shmpath
      · rw [if_pos hname] at ho
        cases ho
      · rw [if_neg hname] at ho
        exact w.known name o ho }

/-- `shm_open` with `O_CREAT`, for an object that comes to have this header. -/
def create (w : World) (shmpath : String) (header : MemoryMapT) : World :=
  { w with
    objects := w.objects + 1
    linked := fun name => if name = shmpath then some ⟨w.objects, header⟩ else w.linked name
    known := by
      intro name o ho
      by_cases hname : name = shmpath
      · rw [if_pos hname] at ho
        obtain rfl := Option.some.inj ho
        exact Nat.lt_succ_self _
      · rw [if_neg hname] at ho
        exact Nat.lt_succ_of_lt (w.known name o ho) }

/-- `pthread_join`. For a thread that there is not it has no defined result; here it returns. -/
def join (w : World) (thread : Option Nat) : World := { w with joined := thread :: w.joined }

end World

/-- A process that has not started anything, in which every call succeeds. -/
def World.new : World := ⟨0, fun _ => none, none, none, [], [], by simp⟩

def allSucceed : Outcomes := ⟨true, true, true, true, true, some 0⟩

/-- `shared_memory_server_init`; `none` stands for a null pointer, `some` for the header that
is mapped. -/
def sharedMemoryServerInit (calls : Outcomes) (w : World) (shmpath : String) (map : MemoryMapT) :
    World × Option MemoryMapT :=
  if !calls.shmOpen || (w.linked shmpath).isSome then (w, none)
  else
    let w := w.create shmpath map
    if !calls.ftruncates map.getSize then (w.unlink shmpath, none)
    else if !calls.mmaps map.getSize then (w.unlink shmpath, none)
    else (w, some map)

/-- `shared_memory_client_init` -/
def sharedMemoryClientInit (calls : Outcomes) (w : World) (shmpath : String) (shmsize : BitVec 64) :
    World × Option MemoryMapT :=
  match w.linked shmpath with
  | none => (w, none)
  | some object =>
    if !calls.shmOpen then (w, none)
    else if !calls.mmaps shmsize then (w.unlink shmpath, none)
    else (w, some object.header)

/-- `shared_memory_setenv`; the size is printed with a sign. -/
def sharedMemorySetenv (calls : Outcomes) (w : World) (shmpath : String) (map : MemoryMapT) :
    World :=
  if !calls.setenvName then w
  else
    let w := { w with shmemDataName := some shmpath }
    if !calls.setenvSize then w
    else { w with shmemDataSize := some (toString map.getSize.toInt) }

/-! ## The pipeline -/

structure Pipeline where
  threadId : Option Nat
  procCnt : BitVec 32
  dataCnt : BitVec 32
  dataSize : BitVec 32
  shmpath : String
  shmem : Option MemoryMapT
  minfos : List ModuleInfo

/-- After `memset`. -/
def Pipeline.zero : Pipeline := ⟨none, 0, 0, 0, "", none, []⟩

/-- The value that a call returns, `*p_pl` after it, and the system. -/
structure Result where
  rc : Int
  pl : Option Pipeline
  world : World

/-- `PROCESS_MAX_CNT` -/
def processMaxCnt : BitVec 32 := 10

/-- `pl->proc_cnt` -/
def plProcCnt (pdesc : PipelineDescription) : Option (BitVec 32) :=
  if 0 < pdesc.procCnt.toInt then plus pdesc.procCnt 2 else some processMaxCnt

/-- `memory_map_create` as both owners call it, where the size of the data is an `int`. -/
def memoryMapCreate (procCnt dataCnt dataSize : BitVec 32) : MemoryMapT where
  processCnt := procCnt
  processSize := BitVec.ofNat 64 processInfoSize
  dataCnt := dataCnt
  dataSize := toSizeT dataSize
  descriptionZoneCnt := 1
  descriptionZoneSize := BitVec.ofNat 64 descriptorDataMaxLen

/-- The members that `pipeline_init` sets before it has the shared memory. -/
def Pipeline.describe (pl : Pipeline) (pdesc : PipelineDescription) : Option Pipeline := do
  let procCnt ← plProcCnt pdesc
  let shmpath ← pdesc.shmpath
  return { pl with
    procCnt
    dataCnt := pdesc.dataCnt
    dataSize := pdesc.dataSize.setWidth 32
    shmpath }

/-- The map of a pipeline that owns the shared memory. -/
def Pipeline.memoryMap (pl : Pipeline) : MemoryMapT :=
  memoryMapCreate pl.procCnt pl.dataCnt pl.dataSize

/-- The shared memory of a pipeline, made or attached. -/
def Pipeline.attach (pl : Pipeline) (pdesc : PipelineDescription) (calls : Outcomes) (w : World) :
    World × Option MemoryMapT :=
  if pdesc.useCommonShmem then sharedMemoryClientInit calls w pl.shmpath pdesc.shmsize
  else
    match sharedMemoryServerInit calls (w.unlink pl.shmpath) pl.shmpath pl.memoryMap with
    | (w, none) => (w, none)
    | (w, some map) => (sharedMemorySetenv calls w pl.shmpath map, some map)

/-- `pipeline_destroy`, as far as the system is concerned. -/
def Pipeline.destroy (pl : Pipeline) (pdesc : PipelineDescription) (w : World) : World :=
  let w := w.join pl.threadId
  if pdesc.useCommonShmem then w else w.unlink pl.shmpath

/-- `pthread_create` of `pipeline_thread`, whose result is only logged. -/
def Pipeline.createThread (pl : Pipeline) (calls : Outcomes) (w : World) : Pipeline × World :=
  match calls.pthreadCreate with
  | none => (pl, w)
  | some id => ({ pl with threadId := some id }, { w with threads := id :: w.threads })

/-- `pipeline_init`; `pl` is `*p_pl` before the call. -/
def pipelineInit (pl : Option Pipeline) (pdesc : PipelineDescription) (calls : Outcomes)
    (w : World) : Option Result := do
  let pl ← (pl.getD .zero).describe pdesc
  match pl.attach pdesc calls w with
  | (w, none) => return ⟨-1, none, w⟩
  | (w, some map) =>
    let minfos ← pdesc.minfos.mapM id
    let pl := { pl with shmem := some map, minfos }
    if modulesUpdate minfos false minfos ≠ 0 then return ⟨-1, none, pl.destroy pdesc w⟩
    else
      let (pl, w) := pl.createThread calls w
      return ⟨0, some pl, w⟩

/-- The map of `dclprocessor_init`, and the `proc_cnt` that it puts into the description. -/
def commonMap (pdesc : PipelineDescription) : Option (MemoryMapT × BitVec 32) := do
  let procCnt ← plus (BitVec.ofNat 32 pdesc.minfos.length) 2
  let reserve ← plus procCnt 2
  let dataCnt := if pdesc.dataCnt.toInt > reserve.toInt then pdesc.dataCnt else reserve
  return (memoryMapCreate procCnt dataCnt (pdesc.dataSize.setWidth 32), procCnt)

/-- What `dclprocessor_init` makes of the description before it calls `pipeline_init`. -/
def commonDescription (pdesc : PipelineDescription) (shmpath : String) (shmsize : BitVec 64)
    (procCnt : BitVec 32) : PipelineDescription :=
  { pdesc with useCommonShmem := true, shmpath := some shmpath, shmsize, procCnt }

/-- `dclprocessor_init` for a description with this pipeline, up to the return of
`pipeline_init`; `client` are the calls of that one. -/
def dclprocessorInit (useShmem : Bool) (shmpath : Option String) (pdesc : PipelineDescription)
    (server client : Outcomes) (w : World) : Option Result :=
  match shmpath.filter fun _ => useShmem with
  | none => pipelineInit none pdesc client w
  | some shmpath => do
    let (map, procCnt) ← commonMap pdesc
    match sharedMemoryServerInit server (w.unlink shmpath) shmpath map with
    | (w, none) => return ⟨-1, none, w⟩
    | (w, some map) =>
      pipelineInit none (commonDescription pdesc shmpath map.getSize procCnt) client
        (sharedMemorySetenv server w shmpath map)

/-- `dclprocessor_init` has a map if it can add up its counts. -/
theorem commonMap_of_lt {pdesc : PipelineDescription} (h : pdesc.minfos.length + 4 < 2 ^ 31) :
    ∃ procCnt reserve : BitVec 32, procCnt.toInt = pdesc.minfos.length + 2 ∧
      reserve.toInt = pdesc.minfos.length + 4 ∧ commonMap pdesc = some (memoryMapCreate procCnt
        (if pdesc.dataCnt.toInt > reserve.toInt then pdesc.dataCnt else reserve)
        (pdesc.dataSize.setWidth 32), procCnt) := by
  have hlen := toInt_ofNat (by omega : pdesc.minfos.length < 2 ^ 31)
  obtain ⟨procCnt, hplus, hprocCnt⟩ := plus_of_lt
    (by omega : 0 ≤ (BitVec.ofNat 32 pdesc.minfos.length).toInt) (n := 2) (by omega)
  obtain ⟨reserve, hplus', hreserve⟩ := plus_of_lt
    (by omega : 0 ≤ procCnt.toInt) (n := 2) (by omega)
  refine ⟨procCnt, reserve, by omega, by omega, ?_⟩
  rw [commonMap, hplus, Option.bind_eq_bind, Option.bind_some, hplus']
  rfl

theorem commonMap_overflow {pdesc : PipelineDescription} (hlen : pdesc.minfos.length < 2 ^ 31)
    (h : ¬ pdesc.minfos.length + 4 < 2 ^ 31) : commonMap pdesc = none := by
  have hint := toInt_ofNat hlen
  rw [commonMap]
  by_cases hfirst : pdesc.minfos.length + 2 < 2 ^ 31
  · obtain ⟨procCnt, hplus, hprocCnt⟩ := plus_of_lt
      (by omega : 0 ≤ (BitVec.ofNat 32 pdesc.minfos.length).toInt) (n := 2) (by omega)
    rw [hplus, Option.bind_eq_bind, Option.bind_some, plus_overflow (by omega)]
    rfl
  · rw [plus_overflow (by omega)]
    rfl

/-- The map into which `dclprocessor_init` publishes its description. -/
theorem commonMap_eq {pdesc : PipelineDescription} (desc : Shmem.Description)
    (hmodules : pdesc.minfos.length = desc.modulesCnt) (hcnt : pdesc.dataCnt.toInt = desc.dataCnt)
    (hsize : (pdesc.dataSize.setWidth 32).toInt = desc.dataSize) :
    ∃ procCnt, commonMap pdesc = some (desc.memoryMap, procCnt) := by
  have hlt := desc.modulesCnt_lt
  obtain ⟨procCnt, reserve, hprocCnt, hreserve, hmap⟩ :=
    commonMap_of_lt (by omega : pdesc.minfos.length + 4 < 2 ^ 31)
  have hdescProc : desc.procCnt = desc.modulesCnt + 2 := rfl
  have hprocess : procCnt = BitVec.ofNat 32 desc.procCnt := by
    rw [← BitVec.toInt_inj, hprocCnt, toInt_ofNat (by omega), hdescProc, hmodules]
    omega
  have hdata : (if pdesc.dataCnt.toInt > reserve.toInt then pdesc.dataCnt else reserve) =
      BitVec.ofInt 32 desc.mapDataCnt := by
    rw [Shmem.Description.mapDataCnt, hdescProc, ← hcnt]
    by_cases hmore : pdesc.dataCnt.toInt > reserve.toInt
    · rw [if_pos hmore, if_pos (by omega), BitVec.ofInt_toInt]
    · rw [if_neg hmore, if_neg (by omega), ← BitVec.ofInt_toInt (x := reserve), hreserve, hmodules]
      congr 1
  refine ⟨procCnt, ?_⟩
  rw [hmap, memoryMapCreate, hprocess, hdata,
    ← BitVec.ofInt_toInt (x := pdesc.dataSize.setWidth 32), hsize]
  rfl

end DclProcessor.Construct
