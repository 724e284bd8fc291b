import DclProcessor.Construct.Init

/-!
How `pipeline_init` comes to its shared memory: the conditions on the calls under which it
is made or attached, and what a call leaves that comes to none.
-/

namespace DclProcessor.Construct

open Shmem Pipeline.Startup

/-- The shared memory of this length can be made. -/
def CanCreate (calls : Outcomes) (size : BitVec 64) : Prop :=
  calls.shmOpen = true ∧ calls.ftruncates size = true ∧ calls.mmaps size = true

/-- The shared memory with this name can be attached with this length. -/
def CanAttach (calls : Outcomes) (w : World) (shmpath : String) (size : BitVec 64) : Prop :=
  (∃ object, w.linked shmpath = some object) ∧ calls.shmOpen = true ∧ calls.mmaps size = true

/-- The map that `pipeline_init` makes for itself with this `proc_cnt`. -/
def ownMap (pdesc : PipelineDescription) (procCnt : BitVec 32) : MemoryMapT :=
  memoryMapCreate procCnt pdesc.dataCnt (pdesc.dataSize.setWidth 32)

/-- The pipeline has its shared memory. -/
def Attaches (pdesc : PipelineDescription) (calls : Outcomes) (w : World) (shmpath : String)
    (procCnt : BitVec 32) : Prop :=
  if pdesc.useCommonShmem = true then CanAttach calls w shmpath pdesc.shmsize
  else CanCreate calls (ownMap pdesc procCnt).getSize

/-- What is the same in the system, apart from objects that are not linked any more. -/
structure Kept (before after : World) : Prop where
  linked : ∀ name, ∀ o ∈ after.linked name, o.id < before.objects
  shmemDataName : after.shmemDataName = before.shmemDataName
  shmemDataSize : after.shmemDataSize = before.shmemDataSize
  threads : after.threads = before.threads
  joined : after.joined = before.joined

variable {calls : Outcomes} {w : World} {shmpath : String} {map : MemoryMapT}

theorem CanCreate.msb {size : BitVec 64} (h : CanCreate calls size) : size.msb = false := by
  have htruncates := h.2.1
  cases hmsb : size.msb with
  | false => rfl
  | true => simp [Outcomes.ftruncates, hmsb] at htruncates

theorem CanCreate.ne_zero {size : BitVec 64} (h : CanCreate calls size) : size ≠ 0#64 := by
  have hmaps := h.2.2
  intro hzero
  simp [Outcomes.mmaps, hzero] at hmaps

theorem Kept.refl (w : World) : Kept w w := ⟨w.known, rfl, rfl, rfl, rfl⟩

theorem linked_unlink {name : String} {o : Object} (h : o ∈ (w.unlink shmpath).linked name) :
    name ≠ shmpath ∧ o ∈ w.linked name := by
  by_cases hname : name = shmpath
  · simp [World.unlink, hname] at h
  · exact ⟨hname, by simpa [World.unlink, hname] using h⟩

theorem linked_create {name : String} {o : Object} (hname : name ≠ shmpath)
    (h : o ∈ (w.create shmpath map).linked name) : o ∈ w.linked name := by
  simpa [World.create, hname] using h

theorem unlink_linked_self : (w.unlink shmpath).linked shmpath = none := if_pos rfl

theorem create_linked_self :
    (w.create shmpath map).linked shmpath = some ⟨w.objects, map⟩ := if_pos rfl

theorem Kept.unlink {before : World} (h : Kept before w) : Kept before (w.unlink shmpath) :=
  { h with linked := fun name o ho => h.linked name o (linked_unlink ho).2 }

/-- An object that is made and unlinked again leaves nothing. -/
theorem Kept.createUnlink {before : World} (h : Kept before w) :
    Kept before ((w.create shmpath map).unlink shmpath) where
  linked name o ho := by
    obtain ⟨hname, hlinked⟩ := linked_unlink ho
    exact h.linked name o (linked_create hname hlinked)
  shmemDataName := h.shmemDataName
  shmemDataSize := h.shmemDataSize
  threads := h.threads
  joined := h.joined

/-- `shared_memory_server_init` makes the object or leaves none. -/
theorem sharedMemoryServerInit_cases (calls : Outcomes) (map : MemoryMapT) {before : World}
    (h : Kept before w)
    (hunlinked : w.linked shmpath = none) :
    (CanCreate calls map.getSize ∧
        sharedMemoryServerInit calls w shmpath map = (w.create shmpath map, some map)) ∨
      (¬ CanCreate calls map.getSize ∧ ∃ w', Kept before w' ∧
        sharedMemoryServerInit calls w shmpath map = (w', none)) := by
  have hmade : Kept before ((w.create shmpath map).unlink shmpath) := h.createUnlink
  rw [CanCreate, sharedMemoryServerInit, hunlinked]
  cases hopen : calls.shmOpen with
  | false => exact Or.inr ⟨by simp, w, h, rfl⟩
  | true =>
    cases htruncate : calls.ftruncates map.getSize with
    | false => exact Or.inr ⟨by simp, _, hmade, rfl⟩
    | true =>
      cases hmmap : calls.mmaps map.getSize with
      | false => exact Or.inr ⟨by simp, _, hmade, rfl⟩
      | true => exact Or.inl ⟨⟨rfl, rfl, rfl⟩, rfl⟩

/-- `shared_memory_client_init` makes no object. -/
theorem sharedMemoryClientInit_cases (calls : Outcomes) (w : World) (shmpath : String)
    (shmsize : BitVec 64) :
    (CanAttach calls w shmpath shmsize ∧ ∃ object, w.linked shmpath = some object ∧
        sharedMemoryClientInit calls w shmpath shmsize = (w, some object.header)) ∨
      (¬ CanAttach calls w shmpath shmsize ∧ ∃ w', Kept w w' ∧
        sharedMemoryClientInit calls w shmpath shmsize = (w', none)) := by
  rw [CanAttach, sharedMemoryClientInit]
  cases hlinked : w.linked shmpath with
  | none => exact Or.inr ⟨by simp, w, .refl w, rfl⟩
  | some object =>
    cases hopen : calls.shmOpen with
    | false => exact Or.inr ⟨by simp, w, .refl w, rfl⟩
    | true =>
      cases hmmap : calls.mmaps shmsize with
      | false => exact Or.inr ⟨by simp, _, (Kept.refl w).unlink, rfl⟩
      | true => exact Or.inl ⟨⟨⟨object, rfl⟩, rfl, rfl⟩, object, rfl, rfl⟩

/-- `shared_memory_setenv` changes the environment only. -/
theorem setenv_frame (calls : Outcomes) (w : World) (shmpath : String) (map : MemoryMapT) :
    (sharedMemorySetenv calls w shmpath map).linked = w.linked ∧
      (sharedMemorySetenv calls w shmpath map).threads = w.threads ∧
      (sharedMemorySetenv calls w shmpath map).joined = w.joined := by
  rw [sharedMemorySetenv]
  split
  · exact ⟨rfl, rfl, rfl⟩
  · simp only
    split <;> exact ⟨rfl, rfl, rfl⟩

variable {pl pl' : Pipeline} {pdesc : PipelineDescription} {procCnt : BitVec 32}

/-- The members that `describe` sets. -/
structure Describes (pdesc : PipelineDescription) (pl : Pipeline) : Prop where
  procCnt : plProcCnt pdesc = some pl.procCnt
  shmpath : pdesc.shmpath = some pl.shmpath
  memoryMap : pl.memoryMap = ownMap pdesc pl.procCnt

theorem describes_of_describe (h : pl.describe pdesc = some pl') :
    Describes pdesc pl' ∧ pl'.threadId = pl.threadId := by
  simp only [Pipeline.describe, Option.bind_eq_bind, Option.bind_eq_some_iff] at h
  obtain ⟨procCnt, hprocCnt, shmpath, hshmpath, hpl⟩ := h
  obtain rfl := Option.some.inj hpl
  exact ⟨⟨hprocCnt, hshmpath, rfl⟩, rfl⟩

theorem describe_eq (pl : Pipeline) {path : String} (hprocCnt : plProcCnt pdesc = some procCnt)
    (hshmpath : pdesc.shmpath = some path) : ∃ pl', pl.describe pdesc = some pl' ∧
      pl'.procCnt = procCnt ∧ pl'.shmpath = path := by
  rw [Pipeline.describe, hprocCnt, hshmpath]
  exact ⟨_, rfl, rfl, rfl⟩

/-- A pipeline comes to its shared memory where that is possible, else it leaves nothing. -/
theorem Pipeline.attach_cases (calls : Outcomes) (w : World) (hpl : Describes pdesc pl) :
    (Attaches pdesc calls w pl.shmpath pl.procCnt ∧ ∃ w' map,
        pl.attach pdesc calls w = (w', some map) ∧
        if pdesc.useCommonShmem = true then
          w' = w ∧ ∃ object, w.linked pl.shmpath = some object ∧ map = object.header
        else
          map = ownMap pdesc pl.procCnt ∧ w' = sharedMemorySetenv calls
            ((w.unlink pl.shmpath).create pl.shmpath map) pl.shmpath map) ∨
      (¬ Attaches pdesc calls w pl.shmpath pl.procCnt ∧ ∃ w', Kept w w' ∧
        pl.attach pdesc calls w = (w', none)) := by
  rw [Attaches, Pipeline.attach]
  cases hcommon : pdesc.useCommonShmem with
  | true =>
    rcases sharedMemoryClientInit_cases calls w pl.shmpath pdesc.shmsize with
      ⟨hcan, object, hlinked, hinit⟩ | ⟨hcannot, w', hkept, hinit⟩
    · exact Or.inl ⟨hcan, w, object.header, hinit, rfl, object, hlinked, rfl⟩
    · exact Or.inr ⟨hcannot, w', hkept, hinit⟩
  | false =>
    have hkept : Kept w (w.unlink pl.shmpath) := (Kept.refl w).unlink
    rcases sharedMemoryServerInit_cases calls pl.memoryMap hkept
      unlink_linked_self with ⟨hcan, hinit⟩ | ⟨hcannot, w', hkept', hinit⟩
    · rw [hpl.memoryMap] at hcan
      refine Or.inl ⟨hcan, _, pl.memoryMap, ?_, hpl.memoryMap, rfl⟩
      simp [hinit]
    · rw [hpl.memoryMap] at hcannot
      refine Or.inr ⟨hcannot, w', hkept', ?_⟩
      simp [hinit]

/-! ## The exits of `pipeline_init` -/

variable {p : Option Pipeline} {w' : World} {minfos : List ModuleInfo}

theorem pipelineInit_undescribed (hpl : (p.getD .zero).describe pdesc = none) :
    pipelineInit p pdesc calls w = none := by
  rw [pipelineInit, hpl]
  rfl

theorem pipelineInit_unattached (hpl : (p.getD .zero).describe pdesc = some pl)
    (hattach : pl.attach pdesc calls w = (w', none)) :
    pipelineInit p pdesc calls w = some ⟨-1, none, w'⟩ := by
  rw [pipelineInit, hpl, Option.bind_eq_bind, Option.bind_some, hattach]
  rfl

theorem pipelineInit_nullModule (hpl : (p.getD .zero).describe pdesc = some pl)
    (hattach : pl.attach pdesc calls w = (w', some map)) (hminfos : pdesc.minfos.mapM id = none) :
    pipelineInit p pdesc calls w = none := by
  rw [pipelineInit, hpl, Option.bind_eq_bind, Option.bind_some, hattach]
  simp only [hminfos, Option.bind_eq_bind, Option.bind_none]

theorem pipelineInit_rejected (hpl : (p.getD .zero).describe pdesc = some pl)
    (hattach : pl.attach pdesc calls w = (w', some map))
    (hminfos : pdesc.minfos.mapM id = some minfos)
    (hupdate : modulesUpdate minfos false minfos ≠ 0) :
    pipelineInit p pdesc calls w =
      some ⟨-1, none, ({ pl with shmem := some map, minfos } : Pipeline).destroy pdesc w'⟩ := by
  rw [pipelineInit, hpl, Option.bind_eq_bind, Option.bind_some, hattach]
  simp only [hminfos, Option.bind_eq_bind, Option.bind_some, if_pos hupdate]
  rfl

theorem pipelineInit_started (hpl : (p.getD .zero).describe pdesc = some pl)
    (hattach : pl.attach pdesc calls w = (w', some map))
    (hminfos : pdesc.minfos.mapM id = some minfos)
    (hupdate : modulesUpdate minfos false minfos = 0) :
    ∃ started w'', pipelineInit p pdesc calls w = some ⟨0, some started, w''⟩ ∧
      started.shmem = some map := by
  rw [pipelineInit, hpl, Option.bind_eq_bind, Option.bind_some, hattach]
  simp only [hminfos, Option.bind_eq_bind, Option.bind_some, if_neg (not_not_intro hupdate)]
  refine ⟨_, _, rfl, ?_⟩
  rw [Pipeline.createThread]
  split <;> rfl

end DclProcessor.Construct
