import DclProcessor.Description.Parse

/-!
`collector_init` makes a source for every description that `parse_sources_json` has found.
The array of sources has a fixed length, and `source_init` leaves the pointer of its caller
alone where it fails.
-/

namespace DclProcessor.Collector

open Description

/-- `MAX_SOURCES_NUMBER` -/
def maxSourcesNumber : Nat := 5

/-- `STYPE_TCP` -/
def stypeTcp : Int := 2

/-- The body of the thread of a source. -/
inductive SourceThread
  | tcp
  | udp

/-- `struct data_source` and the lengths of its packet; `camera`: the ip of its device. -/
structure DataSource where
  sid : Int
  fd : Int
  sdesc : SourceDescription
  headerLen : Nat
  dataLen : Nat
  camera : Option String
  exitFlag : Bool
  thread : Option SourceThread
  emptyReady : Nat
  dataReady : Nat
  data : String
  needToFree : Bool
  framesInObject : Nat
  objectDetectionFrameLimit : Nat

/-- The first statement of the thread is defined: `source_data_thread_udp` writes through the
camera, and `source_init` does not look at what `gige_camera_init` has returned. -/
def DataSource.starts (source : DataSource) : Bool :=
  match source.thread with
  | some .udp => source.camera.isSome
  | _ => true

/-- What one call of `source_init` finds. `memory`: what `malloc` returns, with what happens
to be there; `getaddrinfo`: the addresses, with the socket of each that can be connected;
`gigeCameraInit`: whether `gige_camera_init` returns a camera for the device. -/
structure Surroundings where
  memory : DataSource
  getaddrinfo : Option (List (Option Int))
  deviceFind : Option String
  gigeCameraInit : Bool
  semDataReady : Bool
  semEmptyReady : Bool

namespace Surroundings

/-- `getaddrinfo`, and the loop over its addresses. -/
def connect (env : Surroundings) : Option Int :=
  env.getaddrinfo.bind fun addrs => addrs.findSome? id

/-- What a source of this description needs. -/
def Serves (env : Surroundings) (sdesc : SourceDescription) : Prop :=
  (if sdesc.type = stypeTcp then ∃ addrs ∈ env.getaddrinfo, ∃ fd, some fd ∈ addrs
    else env.deviceFind ≠ none ∧ env.gigeCameraInit = true) ∧
  env.semDataReady = true ∧ env.semEmptyReady = true

end Surroundings

/-- `source_init`: what the caller's pointer is afterwards, and the result. A source that the
caller has is changed also where it fails. -/
def sourceInit (psource : Option DataSource) (sdesc : SourceDescription) (env : Surroundings) :
    Option DataSource × Int :=
  let source := match psource with
    | none => { env.memory with needToFree := true }
    | some source => { source with needToFree := false }
  let source := { source with
    sdesc
    objectDetectionFrameLimit := 50
    framesInObject := 0
    exitFlag := false
    fd := -1
    camera := none
    headerLen := sdesc.headerLen
    dataLen := sdesc.dataLen }
  let opened :=
    if sdesc.type = stypeTcp then env.connect.map fun fd => { source with fd }
    else env.deviceFind.map fun ip =>
      { source with camera := if env.gigeCameraInit then some ip else none }
  match opened with
  | none => (psource.map fun _ => source, -1)
  | some source =>
    if !env.semDataReady then (psource.map fun _ => source, -1)
    else
      let source := { source with dataReady := 0 }
      if !env.semEmptyReady then (psource.map fun _ => source, -1)
      else
        let thread := if sdesc.type = stypeTcp then .tcp else .udp
        let source := { source with emptyReady := 0, thread := some thread }
        (some source, source.fd)

/-- `struct data_collector` -/
structure DataCollector where
  exitFlag : Bool
  thread : Bool
  sourcesCnt : Nat
  sources : List (Option DataSource)
  emptyReady : Nat
  dataReady : Nat
  data : String
  dataoffset : Nat
  chunkCnt : Nat
  chunkSize : Nat
  useBoostShmem : Bool
  boostPath : String
  boostSize : Nat

/-- `collector_create`; the memory is there. -/
def collectorCreate : DataCollector where
  exitFlag := false
  thread := false
  sourcesCnt := 0
  sources := List.replicate maxSourcesNumber none
  emptyReady := 0
  dataReady := 0
  data := ""
  dataoffset := 0
  chunkCnt := 512
  chunkSize := 256
  useBoostShmem := false
  boostPath := ""
  boostSize := 0

/-- Where `collector_init` has no defined result: an index behind an array, a pointer that
`source_init` has not set, or a thread without the camera that it writes to. -/
inductive Fault
  | outside (i : Nat)
  | noSource (i : Nat)
  | noCamera (i : Nat)

/-- The body of the loop of `collector_init`. -/
def initSource (desc : CollectorDescription) (env : Nat → Surroundings) (i : Nat)
    (collector : DataCollector) : Except Fault DataCollector :=
  match collector.sources[i]?, desc.sdescs[i]? with
  | some src, some sdesc =>
    match sourceInit src sdesc (env i) with
    | (none, _) => .error (.noSource i)
    | (some src, fd) =>
      let src := { src with fd, sid := i, data := collector.data }
      if !src.starts then .error (.noCamera i)
      else .ok { collector with sources := collector.sources.set i (some src), exitFlag := false }
  | _, _ => .error (.outside i)

/-- The collector after so many turns of the loop. -/
def initSources (desc : CollectorDescription) (env : Nat → Surroundings) :
    Nat → Except Fault DataCollector
  | 0 => .ok { collectorCreate with sourcesCnt := desc.sourcesCnt }
  | i + 1 => (initSources desc env i).bind (initSource desc env i)

/-- `collector_set_boost_shmem` -/
def collectorSetBoostShmem (collector : DataCollector) (desc : CollectorDescription) :
    DataCollector :=
  if desc.useBoostShmem then
    { collector with
      useBoostShmem := true, boostPath := desc.boostPath, boostSize := desc.boostSize }
  else collector

/-- `collector_init`; `none` is a null pointer. `semDataReady`, `semEmptyReady`: whether the
semaphores of the collector can be made. -/
def collectorInit (desc : CollectorDescription) (env : Nat → Surroundings)
    (semDataReady semEmptyReady : Bool) : Except Fault (Option DataCollector) :=
  (initSources desc env desc.sourcesCnt).map fun collector =>
    let collector := collectorSetBoostShmem collector desc
    if !semDataReady then none
    else if !semEmptyReady then none
    else some { collector with dataReady := 1, emptyReady := 0, thread := true }

/-- The source that `source_init` has made for the description `i`, with its index, and with
its camera if it needs one. -/
def IsSource (desc : CollectorDescription) (env : Nat → Surroundings) (i : Nat)
    (src : DataSource) : Prop :=
  src.sid = i ∧ src.starts = true ∧ ∃ sdesc made, desc.sdescs[i]? = some sdesc ∧
    sourceInit none sdesc (env i) = (some made, src.fd) ∧
    src = { made with sid := src.sid, data := src.data }

/-- A collector with no more sources than there is room for, all of them made. -/
structure Complete (desc : CollectorDescription) (env : Nat → Surroundings)
    (collector : DataCollector) : Prop where
  room : collector.sourcesCnt ≤ maxSourcesNumber
  sources : ∀ i < collector.sourcesCnt, ∃ src,
    collector.sources[i]? = some (some src) ∧ IsSource desc env i src

/-- `collector_init` stays in its arrays and returns a null pointer or a complete collector. -/
def SafeInit (desc : CollectorDescription) (env : Nat → Surroundings)
    (semDataReady semEmptyReady : Bool) : Prop :=
  match collectorInit desc env semDataReady semEmptyReady with
  | .error _ => False
  | .ok none => True
  | .ok (some collector) => Complete desc env collector

variable {sdesc : SourceDescription} {desc : CollectorDescription} {surr : Surroundings}
  {env : Nat → Surroundings} {collector collector' : DataCollector} {i : Nat}

theorem connect_isSome (surr : Surroundings) : surr.connect.isSome = true ↔
    ∃ addrs ∈ surr.getaddrinfo, ∃ fd, some fd ∈ addrs := by
  rw [Surroundings.connect]
  cases surr.getaddrinfo with
  | none => simp
  | some addrs =>
    rw [Option.bind_some, List.findSome?_isSome_iff]
    constructor
    · rintro ⟨addr, hmem, haddr⟩
      obtain ⟨fd, rfl⟩ := Option.isSome_iff_exists.mp haddr
      exact ⟨addrs, rfl, fd, hmem⟩
    · rintro ⟨addrs', haddrs, fd, hmem⟩
      obtain rfl := Option.some.inj haddrs
      exact ⟨some fd, hmem, rfl⟩

/-- Without a source to fill, `source_init` gives one to its caller only when it succeeds. -/
theorem sourceInit_of_serves (h : surr.Serves sdesc) :
    ∃ made, sourceInit none sdesc surr = (some made, made.fd) ∧ made.starts = true := by
  obtain ⟨hopened, hready, hempty⟩ := h
  by_cases htcp : sdesc.type = stypeTcp
  · rw [if_pos htcp, ← connect_isSome] at hopened
    obtain ⟨fd, hfd⟩ := Option.isSome_iff_exists.mp hopened
    exact ⟨_, by simp [sourceInit, htcp, hfd, hready, hempty]; exact ⟨rfl, rfl⟩, rfl⟩
  · rw [if_neg htcp] at hopened
    obtain ⟨ip, hip⟩ := Option.ne_none_iff_exists'.mp hopened.1
    exact ⟨_, by simp [sourceInit, htcp, hip, hopened.2, hready, hempty]; exact ⟨rfl, rfl⟩, rfl⟩

/-- Otherwise it gives none, or one whose thread has no camera. -/
theorem sourceInit_of_not_serves (h : ¬ surr.Serves sdesc) {made : DataSource}
    (hmade : (sourceInit none sdesc surr).1 = some made) : made.starts = false := by
  cases hready : surr.semDataReady with
  | false =>
    simp only [sourceInit, hready] at hmade
    split at hmade <;> cases hmade
  | true =>
    cases hempty : surr.semEmptyReady with
    | false =>
      simp only [sourceInit, hready, hempty] at hmade
      split at hmade <;> cases hmade
    | true =>
      have hclosed : ¬ (if sdesc.type = stypeTcp then
          ∃ addrs ∈ surr.getaddrinfo, ∃ fd, some fd ∈ addrs
          else surr.deviceFind ≠ none ∧ surr.gigeCameraInit = true) :=
        fun hopened => h ⟨hopened, hready, hempty⟩
      by_cases htcp : sdesc.type = stypeTcp
      · rw [if_pos htcp, ← connect_isSome, Option.not_isSome_iff_eq_none] at hclosed
        simp [sourceInit, htcp, hclosed] at hmade
      · rw [if_neg htcp] at hclosed
        cases hdevice : surr.deviceFind with
        | none => simp [sourceInit, htcp, hdevice] at hmade
        | some ip =>
          have hcamera : surr.gigeCameraInit = false :=
            Bool.eq_false_iff.mpr fun hcamera => hclosed ⟨by simp [hdevice], hcamera⟩
          simp only [sourceInit, if_neg htcp, hdevice, hcamera, hready, hempty] at hmade
          obtain rfl := Option.some.inj hmade
          rfl

/-- The collector after `i` turns of the loop. -/
structure Made (desc : CollectorDescription) (env : Nat → Surroundings) (i : Nat)
    (collector : DataCollector) : Prop where
  cnt : collector.sourcesCnt = desc.sourcesCnt
  length : collector.sources.length = maxSourcesNumber
  made : ∀ j < i, ∃ src, collector.sources[j]? = some (some src) ∧ IsSource desc env j src
  rest : ∀ j, i ≤ j → j < maxSourcesNumber → collector.sources[j]? = some none

theorem made_create (desc : CollectorDescription) (env : Nat → Surroundings) :
    Made desc env 0 { collectorCreate with sourcesCnt := desc.sourcesCnt } where
  cnt := rfl
  length := List.length_replicate
  made j hj := absurd hj (Nat.not_lt_zero j)
  rest j _ hj := by simp [collectorCreate, hj]

/-- A turn of the loop that has a slot, a description and a source. -/
theorem Made.goes (h : Made desc env i collector) (hi : i < maxSourcesNumber)
    (hdesc : desc.sdescs[i]? = some sdesc) (hserves : (env i).Serves sdesc) :
    ∃ collector', initSource desc env i collector = .ok collector' ∧
      Made desc env (i + 1) collector' := by
  obtain ⟨made, hmade, hstarts⟩ := sourceInit_of_serves hserves
  have hstarts' : { made with sid := i, data := collector.data }.starts = true := hstarts
  refine ⟨_, by
    simp only [initSource, h.rest i (Nat.le_refl i) hi, hdesc, hmade, hstarts']
    rfl, ?_⟩
  refine ⟨h.cnt, ?_, fun j hj => ?_, fun j hj hmax => ?_⟩
  · simp [h.length]
  · by_cases hlast : j = i
    · subst hlast
      exact ⟨{ made with sid := j, data := collector.data }, by simp [h.length, hi], rfl, hstarts,
        sdesc, made, hdesc, hmade, rfl⟩
    · obtain ⟨src, hsrc, hself⟩ := h.made j (by omega)
      exact ⟨src, by rw [List.getElem?_set_ne (by omega)]; exact hsrc, hself⟩
  · rw [List.getElem?_set_ne (by omega)]
    exact h.rest j (by omega) hmax

/-- A turn of the loop that comes to an end had all three. -/
theorem Made.needs (h : Made desc env i collector)
    (hs : initSource desc env i collector = .ok collector') :
    i < maxSourcesNumber ∧ ∃ sdesc, desc.sdescs[i]? = some sdesc ∧ (env i).Serves sdesc := by
  by_cases hi : i < maxSourcesNumber
  · refine ⟨hi, ?_⟩
    simp only [initSource, h.rest i (Nat.le_refl i) hi] at hs
    cases hdesc : desc.sdescs[i]? with
    | none => simp [hdesc] at hs
    | some sdesc =>
      refine ⟨sdesc, rfl, ?_⟩
      by_contra hnot
      rcases hmade : sourceInit none sdesc (env i) with ⟨_ | src, fd⟩
      · simp [hdesc, hmade] at hs
      · have hfails : src.starts = false :=
          sourceInit_of_not_serves hnot (congrArg Prod.fst hmade)
        have hstarts : { src with fd, sid := i, data := collector.data }.starts = false := hfails
        simp [hdesc, hmade, hstarts] at hs
  · have hout : collector.sources[i]? = none := by
      rw [List.getElem?_eq_none_iff, h.length]
      omega
    simp [initSource, hout] at hs

/-- The loop goes as far as there are slots, descriptions and sources. -/
theorem initSources_of_serves (desc : CollectorDescription) (env : Nat → Surroundings)
    (hroom : i ≤ maxSourcesNumber)
    (hserves : ∀ j < i, ∃ sdesc, desc.sdescs[j]? = some sdesc ∧ (env j).Serves sdesc) :
    ∃ collector, initSources desc env i = .ok collector ∧ Made desc env i collector := by
  induction i with
  | zero => exact ⟨_, rfl, made_create desc env⟩
  | succ i ih =>
    obtain ⟨collector, hloop, hmade⟩ := ih (by omega) fun j hj => hserves j (by omega)
    obtain ⟨sdesc, hdesc, hlast⟩ := hserves i (Nat.lt_succ_self i)
    obtain ⟨collector', hturn, hmade'⟩ := hmade.goes hroom hdesc hlast
    exact ⟨collector', by rw [initSources, hloop]; exact hturn, hmade'⟩

theorem made_of_initSources (h : initSources desc env i = .ok collector) :
    Made desc env i collector ∧ i ≤ maxSourcesNumber ∧
      ∀ j < i, ∃ sdesc, desc.sdescs[j]? = some sdesc ∧ (env j).Serves sdesc := by
  induction i generalizing collector with
  | zero =>
    obtain rfl := Except.ok.inj h
    exact ⟨made_create desc env, Nat.zero_le _, fun j hj => absurd hj (Nat.not_lt_zero j)⟩
  | succ i ih =>
    rw [initSources] at h
    cases hloop : initSources desc env i with
    | error fault =>
      rw [hloop] at h
      cases h
    | ok before =>
      rw [hloop] at h
      obtain ⟨hmade, -, hserves⟩ := ih hloop
      obtain ⟨hi, sdesc, hdesc, hlast⟩ := hmade.needs h
      obtain ⟨after, hturn, hmade'⟩ := hmade.goes hi hdesc hlast
      obtain rfl : after = collector := Except.ok.inj (hturn.symm.trans h)
      refine ⟨hmade', hi, fun j hj => ?_⟩
      by_cases hjlast : j = i
      · subst hjlast
        exact ⟨sdesc, hdesc, hlast⟩
      · exact hserves j (by omega)

theorem collectorSetBoostShmem_frame (collector : DataCollector) (desc : CollectorDescription) :
    (collectorSetBoostShmem collector desc).sourcesCnt = collector.sourcesCnt ∧
      (collectorSetBoostShmem collector desc).sources = collector.sources := by
  unfold collectorSetBoostShmem
  split <;> exact ⟨rfl, rfl⟩

/-- What comes after the loop keeps the sources. -/
theorem safeInit_iff_loop (desc : CollectorDescription) (env : Nat → Surroundings)
    (semDataReady semEmptyReady : Bool) : SafeInit desc env semDataReady semEmptyReady ↔
      ∃ collector, initSources desc env desc.sourcesCnt = .ok collector := by
  rw [SafeInit, collectorInit]
  cases hloop : initSources desc env desc.sourcesCnt with
  | error fault => simp [Except.map]
  | ok collector =>
    obtain ⟨hmade, hroom, -⟩ := made_of_initSources hloop
    obtain ⟨hcnt, hsources⟩ := collectorSetBoostShmem_frame collector desc
    refine iff_of_true ?_ ⟨collector, rfl⟩
    cases semDataReady with
    | false => trivial
    | true =>
      cases semEmptyReady with
      | false => trivial
      | true =>
        refine ⟨?_, fun i hi => ?_⟩
        · exact (hcnt.trans hmade.cnt).symm ▸ hroom
        · have hlt : i < desc.sourcesCnt := (hcnt.trans hmade.cnt) ▸ hi
          obtain ⟨src, hsrc, hself⟩ := hmade.made i hlt
          exact ⟨src, (congrArg (·[i]?) hsources).trans hsrc, hself⟩

/-- The parser makes a description for each source. -/
theorem sdescs_length {C : JsonC} {jobj : Json} (h : parseCollectorJson C jobj = some desc) :
    desc.sdescs.length = desc.sourcesCnt := by
  obtain ⟨boostPath, -, h⟩ := Option.bind_eq_some_iff.mp h
  obtain ⟨⟨sinfos, sdescs⟩, hparsed, h⟩ := Option.bind_eq_some_iff.mp h
  obtain ⟨sinfos', hsinfos, hparsed⟩ := Option.bind_eq_some_iff.mp hparsed
  obtain ⟨sdescs', hsdescs, hparsed⟩ := Option.bind_eq_some_iff.mp hparsed
  obtain ⟨rfl, rfl⟩ := Prod.mk.inj (Option.some.inj hparsed)
  obtain rfl := Option.some.inj h
  exact length_of_mapM hsdescs

/-- **`collector_init` is safe** if and only if there is room for all sources and each of them
can be made. -/
theorem safeInit_iff {C : JsonC} {jobj : Json} (hdesc : parseCollectorJson C jobj = some desc)
    (env : Nat → Surroundings) (semDataReady semEmptyReady : Bool) :
    SafeInit desc env semDataReady semEmptyReady ↔
      desc.sourcesCnt ≤ maxSourcesNumber ∧
        ∀ i sdesc, desc.sdescs[i]? = some sdesc → (env i).Serves sdesc := by
  have hlength := sdescs_length hdesc
  rw [safeInit_iff_loop]
  constructor
  · rintro ⟨collector, hloop⟩
    obtain ⟨-, hroom, hserves⟩ := made_of_initSources hloop
    refine ⟨hroom, fun i sdesc hsdesc => ?_⟩
    obtain ⟨hi, -⟩ := List.getElem?_eq_some_iff.mp hsdesc
    obtain ⟨sdesc', hsdesc', hserve⟩ := hserves i (by omega)
    obtain rfl := Option.some.inj (hsdesc'.symm.trans hsdesc)
    exact hserve
  · rintro ⟨hroom, hserves⟩
    obtain ⟨collector, hloop, -⟩ := initSources_of_serves desc env hroom
      fun j hj => ⟨_, List.getElem?_eq_getElem (by omega), hserves j _ (List.getElem?_eq_getElem _)⟩
    exact ⟨collector, hloop⟩

def tcpSource : Json :=
  .object [("type", .string "tcp"), ("host", .string "127.0.0.1"), ("port", .string "4001"),
    ("output_path", .string "/tmp/data")]

def tcpSources (n : Nat) : Json := .object [("sources", .array (List.replicate n tcpSource))]

/-- A peer that listens. -/
def listening : Surroundings where
  memory :=
    ⟨0, 0, ⟨0, "", "", "", 0, 0, 0, 0, 0, ""⟩, 0, 0, none, false, none, 0, 0, "", false, 0, 0⟩
  getaddrinfo := some [none, some 7]
  deviceFind := none
  gigeCameraInit := true
  semDataReady := true
  semEmptyReady := true

/-- A peer that does not. -/
def refusing : Surroundings := { listening with getaddrinfo := some [none] }

theorem oneSource_parsed : (parseCollectorJson plainC (tcpSources 1)).isSome = true := rfl

theorem sixSources_parsed : (parseCollectorJson plainC (tcpSources 6)).isSome = true := rfl

def oneSource : CollectorDescription :=
  (parseCollectorJson plainC (tcpSources 1)).get oneSource_parsed

def sixSources : CollectorDescription :=
  (parseCollectorJson plainC (tcpSources 6)).get sixSources_parsed

theorem oneSource_safe : SafeInit oneSource (fun _ => listening) true true := by
  refine (safeInit_iff (Option.some_get oneSource_parsed).symm _ true true).mpr
    ⟨by decide, fun i sdesc hsdesc => ?_⟩
  have htcp : sdesc.type = stypeTcp := by
    cases i with
    | zero =>
      obtain rfl := Option.some.inj hsdesc
      rfl
    | succ i => cases hsdesc
  exact ⟨by rw [if_pos htcp]; exact ⟨_, rfl, 7, by decide⟩, rfl, rfl⟩

/-- A source that is used without having been made, and an index behind the array. -/
theorem not_safeInit : ¬ SafeInit oneSource (fun _ => refusing) true true ∧
    ¬ SafeInit sixSources (fun _ => listening) true true := by
  constructor
  · exact id
  · rw [safeInit_iff_loop]
    rintro ⟨collector, hloop⟩
    exact absurd (made_of_initSources hloop).2.1 (by decide)

end DclProcessor.Collector
