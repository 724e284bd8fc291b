import DclProcessor.Construct.Attach

/-!
What a `pipeline_init` that returns -1 leaves behind. Where the shared memory is missing it
leaves nothing; where the modules are rejected it relies on `pipeline_destroy`, which joins
the thread of a pipeline that runs and does not know the environment.
-/

namespace DclProcessor.Construct

open Shmem Pipeline.Startup

/-- No shared memory object of the call is linked, the environment is as before, `*p_pl` is
null, and the threads that were joined are threads that were created. -/
structure Undone (before : World) (r : Result) : Prop where
  linked : ∀ name, ∀ o ∈ r.world.linked name, o.id < before.objects
  shmemDataName : r.world.shmemDataName = before.shmemDataName
  shmemDataSize : r.world.shmemDataSize = before.shmemDataSize
  pl : r.pl = none
  joined : ∃ joins, r.world.joined = joins ++ before.joined ∧
    ∀ thread ∈ joins, ∃ id ∈ before.threads, thread = some id

/-- `pipeline_init` undoes itself where it returns -1. -/
def UndoesItself (pl : Option Pipeline) (pdesc : PipelineDescription) (calls : Outcomes)
    (w : World) : Prop :=
  ∀ r ∈ pipelineInit pl pdesc calls w, r.rc = -1 → Undone w r

/-- The shared memory is there and the modules are rejected. -/
structure Rejected (pdesc : PipelineDescription) (calls : Outcomes) (w : World) (path : String)
    (cnt : BitVec 32) (modules : List ModuleInfo) : Prop where
  procCnt : plProcCnt pdesc = some cnt
  shmpath : pdesc.shmpath = some path
  attached : Attaches pdesc calls w path cnt
  minfos : pdesc.minfos.mapM id = some modules
  update : modulesUpdate modules false modules ≠ 0

/-- What `shared_memory_setenv` writes is there already. -/
def KeepsEnvironment (calls : Outcomes) (w : World) (shmpath : String) (map : MemoryMapT) : Prop :=
  calls.setenvName = true → w.shmemDataName = some shmpath ∧
    (calls.setenvSize = true → w.shmemDataSize = some (toString map.getSize.toInt))

/-- `*p_pl` is a pipeline with a thread. -/
def HasThread (pl : Option Pipeline) (w : World) : Prop :=
  ∃ id ∈ w.threads, (pl.getD .zero).threadId = some id

/-- Modules that are rejected are those of a pipeline that has run before, and its new shared
memory is the one that the environment names. -/
def Undoable (pl : Option Pipeline) (pdesc : PipelineDescription) (calls : Outcomes)
    (w : World) : Prop :=
  ∀ path cnt modules, Rejected pdesc calls w path cnt modules →
    HasThread pl w ∧
      (pdesc.useCommonShmem = true ∨ KeepsEnvironment calls w path (ownMap pdesc cnt))

variable {calls : Outcomes} {w w' : World} {pdesc : PipelineDescription} {pl : Pipeline}
variable {shmpath : String} {map : MemoryMapT}

theorem Kept.undone (h : Kept w w') : Undone w ⟨-1, none, w'⟩ where
  linked := h.linked
  shmemDataName := h.shmemDataName
  shmemDataSize := h.shmemDataSize
  pl := rfl
  joined := ⟨[], h.joined, fun _ hthread => absurd hthread List.not_mem_nil⟩

theorem setenv_keeps_iff (calls : Outcomes) (w : World) (shmpath : String) (map : MemoryMapT) :
    ((sharedMemorySetenv calls w shmpath map).shmemDataName = w.shmemDataName ∧
      (sharedMemorySetenv calls w shmpath map).shmemDataSize = w.shmemDataSize) ↔
      KeepsEnvironment calls w shmpath map := by
  rw [sharedMemorySetenv, KeepsEnvironment]
  cases calls.setenvName <;> cases calls.setenvSize <;> simp [eq_comm]

theorem joins_iff {thread : Option Nat} : (∃ joins, thread :: w.joined = joins ++ w.joined ∧
      ∀ t ∈ joins, ∃ id ∈ w.threads, t = some id) ↔ ∃ id ∈ w.threads, thread = some id := by
  constructor
  · rintro ⟨joins, hjoins, hcreated⟩
    have hone : [thread] ++ w.joined = joins ++ w.joined := hjoins
    obtain rfl := List.append_cancel_right hone
    exact hcreated thread (List.mem_singleton.mpr rfl)
  · intro hcreated
    refine ⟨[thread], rfl, fun t ht => ?_⟩
    rwa [List.mem_singleton.mp ht]

/-- After modules that are rejected, what the thread of the pipeline and the environment were
before the call decides. -/
theorem undone_destroy_common (hcommon : pdesc.useCommonShmem = true) :
    Undone w ⟨-1, none, pl.destroy pdesc w⟩ ↔ ∃ id ∈ w.threads, pl.threadId = some id := by
  have hdestroy : pl.destroy pdesc w = w.join pl.threadId := by rw [Pipeline.destroy, hcommon]; rfl
  rw [← joins_iff, hdestroy]
  exact ⟨fun h => h.joined, fun h => ⟨w.known, rfl, rfl, rfl, h⟩⟩

theorem undone_destroy_own (hown : pdesc.useCommonShmem = false) (hpath : pl.shmpath = shmpath) :
    Undone w ⟨-1, none, pl.destroy pdesc
        (sharedMemorySetenv calls ((w.unlink shmpath).create shmpath map) shmpath map)⟩ ↔
      (∃ id ∈ w.threads, pl.threadId = some id) ∧ KeepsEnvironment calls w shmpath map := by
  set made := (w.unlink shmpath).create shmpath map with hmade
  obtain ⟨hlinked, -, hjoined⟩ := setenv_frame calls made shmpath map
  have hdestroy : pl.destroy pdesc (sharedMemorySetenv calls made shmpath map) =
      ((sharedMemorySetenv calls made shmpath map).join pl.threadId).unlink shmpath := by
    rw [Pipeline.destroy, hown, hpath]
    rfl
  have henv := setenv_keeps_iff calls made shmpath map
  rw [hdestroy, ← joins_iff]
  constructor
  · intro h
    exact ⟨hjoined ▸ h.joined, henv.mp ⟨h.shmemDataName, h.shmemDataSize⟩⟩
  · rintro ⟨hjoins, hkeeps⟩
    obtain ⟨hname, hsize⟩ := henv.mpr hkeeps
    refine ⟨fun name o ho => ?_, hname, hsize, rfl, hjoined.symm ▸ hjoins⟩
    obtain ⟨hne, ho⟩ := linked_unlink ho
    have hcreated : o ∈ made.linked name := hlinked ▸ ho
    exact w.known name o (linked_unlink (linked_create hne hcreated)).2

/-- The pipeline that is made decides which call it is. -/
theorem rejected_iff (hpl : Describes pdesc pl) {path : String} {cnt : BitVec 32}
    {modules : List ModuleInfo} : Rejected pdesc calls w path cnt modules ↔
      path = pl.shmpath ∧ cnt = pl.procCnt ∧ Attaches pdesc calls w pl.shmpath pl.procCnt ∧
        pdesc.minfos.mapM id = some modules ∧ modulesUpdate modules false modules ≠ 0 := by
  constructor
  · intro h
    obtain rfl : path = pl.shmpath := Option.some.inj (h.shmpath.symm.trans hpl.shmpath)
    obtain rfl : cnt = pl.procCnt := Option.some.inj (h.procCnt.symm.trans hpl.procCnt)
    exact ⟨rfl, rfl, h.attached, h.minfos, h.update⟩
  · rintro ⟨rfl, rfl, hattached, hminfos, hupdate⟩
    exact ⟨hpl.procCnt, hpl.shmpath, hattached, hminfos, hupdate⟩

theorem undoable_iff (hpl : Describes pdesc pl) {p : Option Pipeline} {minfos : List ModuleInfo}
    (hattaches : Attaches pdesc calls w pl.shmpath pl.procCnt)
    (hminfos : pdesc.minfos.mapM id = some minfos)
    (hupdate : modulesUpdate minfos false minfos ≠ 0) : Undoable p pdesc calls w ↔
      HasThread p w ∧ (pdesc.useCommonShmem = true ∨
        KeepsEnvironment calls w pl.shmpath (ownMap pdesc pl.procCnt)) := by
  constructor
  · intro h
    exact h _ _ _ ((rejected_iff hpl).mpr ⟨rfl, rfl, hattaches, hminfos, hupdate⟩)
  · intro h path cnt modules hrejected
    obtain ⟨rfl, rfl, -⟩ := (rejected_iff hpl).mp hrejected
    exact h

/-- **A failing `pipeline_init`** undoes itself in exactly these cases. -/
theorem undoesItself_iff (p : Option Pipeline) (pdesc : PipelineDescription) (calls : Outcomes)
    (w : World) : UndoesItself p pdesc calls w ↔ Undoable p pdesc calls w := by
  cases hdescribe : (p.getD .zero).describe pdesc with
  | none =>
    refine iff_of_true (fun r hr => ?_) fun path cnt modules h => ?_
    · rw [pipelineInit_undescribed hdescribe] at hr
      cases hr
    · obtain ⟨pl', hpl', -⟩ := describe_eq (p.getD .zero) h.procCnt h.shmpath
      rw [hdescribe] at hpl'
      cases hpl'
  | some pl =>
    obtain ⟨hpl, hthread⟩ := describes_of_describe hdescribe
    rcases Pipeline.attach_cases calls w hpl with
      ⟨hattaches, w', map, hattach, hworld⟩ | ⟨hmissing, w', hkept, hattach⟩
    · cases hminfos : pdesc.minfos.mapM id with
      | none =>
        refine iff_of_true (fun r hr => ?_) fun path cnt modules h => ?_
        · rw [pipelineInit_nullModule hdescribe hattach hminfos] at hr
          cases hr
        · have hmodules := h.minfos
          rw [hminfos] at hmodules
          cases hmodules
      | some minfos =>
        by_cases hupdate : modulesUpdate minfos false minfos = 0
        · refine iff_of_true (fun r hr hrc => ?_) fun path cnt modules h => ?_
          · obtain ⟨started, w'', hinit, -⟩ :=
              pipelineInit_started hdescribe hattach hminfos hupdate
            rw [hinit] at hr
            obtain rfl := Option.some.inj hr
            cases hrc
          · obtain rfl := Option.some.inj (hminfos.symm.trans h.minfos)
            exact absurd hupdate h.update
        · -- The exit through `pipeline_destroy`.
          have hinit := pipelineInit_rejected hdescribe hattach hminfos hupdate
          have hundone : UndoesItself p pdesc calls w ↔ Undone w ⟨-1, none,
              ({ pl with shmem := some map, minfos } : Pipeline).destroy pdesc w'⟩ := by
            rw [UndoesItself, hinit]
            exact ⟨fun h => h _ rfl rfl, by rintro h _ ⟨⟩ -; exact h⟩
          rw [hundone, undoable_iff hpl hattaches hminfos hupdate, HasThread, ← hthread]
          cases hcommon : pdesc.useCommonShmem with
          | true =>
            rw [if_pos hcommon] at hworld
            obtain ⟨rfl, -⟩ := hworld
            rw [undone_destroy_common hcommon]
            exact (and_iff_left (Or.inl rfl)).symm
          | false =>
            rw [if_neg (by rw [hcommon]; decide)] at hworld
            obtain ⟨rfl, rfl⟩ := hworld
            rw [undone_destroy_own hcommon rfl, or_iff_right (by decide)]
    · refine iff_of_true (fun r hr _ => ?_) fun path cnt modules h => ?_
      · rw [pipelineInit_unattached hdescribe hattach] at hr
        obtain rfl := Option.some.inj hr
        exact hkept.undone
      · exact absurd ((rejected_iff hpl).mp h).2.2.1 hmissing

/-- Two modules without a next one. -/
def twoLast : PipelineDescription where
  useCommonShmem := false
  shmpath := some "/procsegment"
  shmsize := 0
  minfos := [some ⟨1, .first, false, -1, none⟩, some ⟨2, .last, false, -1, none⟩]
  procCnt := 0
  dataCnt := 4
  dataSize := 128

theorem twoLast_not_undone : ¬ UndoesItself none twoLast allSucceed .new := by
  intro h
  have hname := (h _ rfl rfl).shmemDataName
  cases hname

end DclProcessor.Construct
