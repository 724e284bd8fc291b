import DclProcessor.Description.CollectorMemory

/-!
When the descriptions of a collector hold what its JSON says: nothing is checked, so every
text must fit into its array and every number into an `int`.
-/

namespace DclProcessor.Description

open Bytes

section Values

variable (C : JsonC)

/-- The string that a value stands for; of a value of another type what json-c makes of it. -/
def stringOf : Json → String
  | .null => ""
  | .string s => s
  | j => C.getString j

def numberOf : Json → Int
  | .null => 0
  | .int n => n
  | j => C.getInt j

theorem stringBytes_inj {s t : String} : stringBytes s = stringBytes t ↔ s = t := by
  rw [stringBytes, stringBytes, Array.toList_inj, ← ByteArray.ext_iff, String.toByteArray_inj]

theorem toSize_eq_iff {n : Int} (h : IntRange n) : (toSize n : Int) = n ↔ 0 ≤ n ∧ n < 2 ^ 31 := by
  obtain ⟨hlow, hhigh⟩ := h
  rw [toSize]
  omega

variable {C} (hC : C.Lawful) (jobj : Json) (key : String)

include hC

/-- A string is parsed as it is unless a zero character cuts it. -/
theorem text_eq_iff : text C jobj key = stringOf C (jobj.get key) ↔
    IsCString (stringOf C (jobj.get key)) := by
  rw [text, stringMember]
  cases jobj.get key with
  | null => exact iff_of_true rfl (by decide : IsCString "")
  | string s => exact ⟨fun h => h ▸ hC.getString_isCString _, hC.getString_string s⟩
  | bool | int | double | array | object => exact iff_of_true rfl (hC.getString_isCString _)

/-- A number is parsed as it is in the range from zero to the largest `int`. -/
theorem toSize_intMember_iff : (toSize (intMember C jobj key 0) : Int) =
    numberOf C (jobj.get key) ↔
      0 ≤ numberOf C (jobj.get key) ∧ numberOf C (jobj.get key) < 2 ^ 31 := by
  rw [intMember]
  cases jobj.get key with
  | null => exact toSize_eq_iff (by decide : IntRange 0)
  | int n =>
    rw [if_neg (by simp [Json.isNull]), hC.getInt_int, numberOf, toSize, toInt]
    omega
  | bool | string | double | array | object => exact toSize_eq_iff (hC.getInt_range _)

end Values

section Source

variable (C : JsonC) (sourceJson : Json)

def frameNumber (key : String) : Int := numberOf C ((sourceJson.get "frame").get key)

/-- The product of the numbers of the frame. -/
def frameSize : Int :=
  frameNumber C sourceJson "width" * frameNumber C sourceJson "height" *
    frameNumber C sourceJson "format"

/-- A description holds what its source says. -/
structure FaithfulSource (mem : Memory) : Prop where
  texts : ∀ a ∈ textArrays, a.read mem = some (stringBytes (stringOf C (sourceJson.get a.key)))
  outputPath :
    strOf (load mem 328 1024) = some (stringBytes (stringOf C (sourceJson.get "output_path")))
  width : (leValue (load mem 304 8) : Int) = frameNumber C sourceJson "width"
  height : (leValue (load mem 312 8) : Int) = frameNumber C sourceJson "height"
  channels : (leValue (load mem 320 8) : Int) = frameNumber C sourceJson "format"
  dataLen : (leValue (load mem 296 8) : Int) = frameSize C sourceJson

/-- The same of a record. -/
structure SameSource (d : SourceDescription) : Prop where
  sidString : d.sidString = stringOf C (sourceJson.get "id_string")
  addr : d.addr = stringOf C (sourceJson.get "host")
  port : d.port = stringOf C (sourceJson.get "port")
  outputPath : d.outputPath = stringOf C (sourceJson.get "output_path")
  width : (d.width : Int) = frameNumber C sourceJson "width"
  height : (d.height : Int) = frameNumber C sourceJson "height"
  channels : (d.channels : Int) = frameNumber C sourceJson "format"
  dataLen : (d.dataLen : Int) = frameSize C sourceJson

/-- A string that an array of `size` bytes has room for, the zero behind it included. -/
def HasRoom (size : Nat) (s : String) : Prop := IsCString s ∧ s.utf8ByteSize < size

instance (size : Nat) (s : String) : Decidable (HasRoom size s) :=
  inferInstanceAs (Decidable (_ ∧ _))

def InSize (n : Int) : Prop := 0 ≤ n ∧ n < 2 ^ 31

instance (n : Int) : Decidable (InSize n) := inferInstanceAs (Decidable (_ ∧ _))

/-- A source that a description has room for, with a path that can be copied. -/
structure SourceFits : Prop where
  texts : ∀ a ∈ textArrays, HasRoom (a.size + 1) (stringOf C (sourceJson.get a.key))
  outputPath : HasRoom 1024 (stringOf C (sourceJson.get "output_path"))
  hasPath : (sourceJson.get "output_path").isNull = false
  width : InSize (frameNumber C sourceJson "width")
  height : InSize (frameNumber C sourceJson "height")
  channels : InSize (frameNumber C sourceJson "format")
  dataLen : frameSize C sourceJson < 2 ^ 64

variable {C sourceJson}

theorem faithful_iff_same {mem : Memory} {d : SourceDescription} (h : Reads mem d) :
    FaithfulSource C sourceJson mem ↔ SameSource C sourceJson d := by
  obtain ⟨-, hsid, haddr, hport, -, hdata, hwidth, hheight, hchannels, hout⟩ := h
  have hequal : ∀ s t : String, some (stringBytes s) = some (stringBytes t) ↔ s = t :=
    fun s t => Option.some_inj.trans stringBytes_inj
  constructor
  · rintro ⟨htexts, hpath, hw, hh, hc, hd⟩
    rw [forall_textArrays, hsid, haddr, hport, hequal, hequal, hequal] at htexts
    rw [hout, hequal] at hpath
    exact ⟨htexts.1, htexts.2.1, htexts.2.2, hpath, hwidth ▸ hw, hheight ▸ hh, hchannels ▸ hc,
      hdata ▸ hd⟩
  · rintro ⟨hsid', haddr', hport', hpath, hw, hh, hc, hd⟩
    refine ⟨?_, ?_, hwidth ▸ hw, hheight ▸ hh, hchannels ▸ hc, hdata ▸ hd⟩
    · rw [forall_textArrays, hsid, haddr, hport, hequal, hequal, hequal]
      exact ⟨hsid', haddr', hport'⟩
    · rw [hout, hequal]
      exact hpath

/-- A product that is stored in eight bytes. -/
theorem mod_eq_product_iff (n m k : Nat) :
    ((n * m * k % 2 ^ 64 : Nat) : Int) = (n : Int) * m * k ↔ (n : Int) * m * k < 2 ^ 64 := by
  norm_cast
  exact Nat.mod_eq_iff_lt (by decide)

/-- The record of a source whose texts fit says the same if the code has changed nothing. -/
theorem same_description_iff (hC : C.Lawful) :
    SameSource C sourceJson
        (description (sourceInfo C sourceJson) (text C sourceJson "output_path")) ↔
      (∀ a ∈ textArrays, IsCString (stringOf C (sourceJson.get a.key))) ∧
        IsCString (stringOf C (sourceJson.get "output_path")) ∧
        InSize (frameNumber C sourceJson "width") ∧ InSize (frameNumber C sourceJson "height") ∧
        InSize (frameNumber C sourceJson "format") ∧ frameSize C sourceJson < 2 ^ 64 := by
  have htext := text_eq_iff hC sourceJson
  have hnumber := toSize_intMember_iff hC (sourceJson.get "frame")
  rw [forall_textArrays]
  constructor
  · rintro ⟨hsid, haddr, hport, hpath, hw, hh, hc, hd⟩
    refine ⟨⟨(htext _).mp hsid, (htext _).mp haddr, (htext _).mp hport⟩, (htext _).mp hpath,
      (hnumber _).mp hw, (hnumber _).mp hh, (hnumber _).mp hc, ?_⟩
    rw [frameSize, ← hw, ← hh, ← hc] at hd ⊢
    exact (mod_eq_product_iff _ _ _).mp hd
  · rintro ⟨⟨hsid, haddr, hport⟩, hpath, hw, hh, hc, hd⟩
    have hw' := (hnumber _).mpr hw
    have hh' := (hnumber _).mpr hh
    have hc' := (hnumber _).mpr hc
    refine ⟨(htext _).mpr hsid, (htext _).mpr haddr, (htext _).mpr hport, (htext _).mpr hpath,
      hw', hh', hc', ?_⟩
    rw [frameSize, frameNumber, frameNumber, frameNumber, ← hw', ← hh', ← hc'] at hd ⊢
    exact (mod_eq_product_iff _ _ _).mpr hd

theorem stringMember_of_some (h : (sourceJson.get "output_path").isNull = false) :
    stringMember C sourceJson "output_path" = some (text C sourceJson "output_path") := by
  rw [text, stringMember, if_neg (Bool.not_eq_true _ ▸ h)]
  rfl

/-- What fits has a record, which says the same as the source. -/
theorem same_of_fits (hC : C.Lawful) (h : SourceFits C sourceJson) :
    ∃ d, sourceRecord C sourceJson = some d ∧ SameSource C sourceJson d := by
  obtain ⟨htexts, ⟨hpath, hshort⟩, hsome, hw, hh, hc, hd⟩ := h
  have hnull : sourceJson.isNull = false := by
    cases sourceJson with
    | null => cases hsome
    | bool | int | double | string | array | object => rfl
  have hfits : ∀ a ∈ textArrays, Fits C sourceJson a := fun a ha => by
    rw [Fits, (text_eq_iff hC sourceJson a.key).mpr (htexts a ha).1]
    exact Nat.le_of_lt_succ (htexts a ha).2
  have hsame := (text_eq_iff hC sourceJson "output_path").mpr hpath
  refine ⟨description (sourceInfo C sourceJson) (text C sourceJson "output_path"), ?_,
    (same_description_iff hC).mpr ⟨fun a ha => (htexts a ha).1, hpath, hw, hh, hc, hd⟩⟩
  rw [sourceRecord, parseSourceJson_of_fits hnull hfits, Option.bind_some]
  exact updateSourceDescription_of_fits (stringMember_of_some hsome) (hsame ▸ hshort)

/-- A record that says the same as its source is one of a source that fits. -/
theorem fits_of_same (hC : C.Lawful) (hnull : sourceJson.isNull = false) {d : SourceDescription}
    (hrecord : sourceRecord C sourceJson = some d) (h : SameSource C sourceJson d) :
    SourceFits C sourceJson := by
  obtain ⟨parsed, hparse, hupdate⟩ := Option.bind_eq_some_iff.mp hrecord
  have hfits := fits_of_parseSourceJson hnull hparse
  rw [parseSourceJson_of_fits hnull hfits] at hparse
  obtain rfl := Option.some.inj hparse
  obtain ⟨path, hpath, hshort, rfl⟩ := updateSourceDescription_eq_some hupdate
  have hmember : stringMember C sourceJson "output_path" = some path := hpath
  obtain rfl : text C sourceJson "output_path" = path := by rw [text, hmember, Option.getD_some]
  have hsome : (sourceJson.get "output_path").isNull = false := by
    rw [← Bool.not_eq_true]
    intro hnone
    rw [stringMember, if_pos hnone] at hmember
    cases hmember
  obtain ⟨htexts, hzero, hw, hh, hc, hd⟩ := (same_description_iff hC).mp h
  refine ⟨fun a ha => ⟨htexts a ha, ?_⟩, ⟨hzero, ?_⟩, hsome, hw, hh, hc, hd⟩
  · rw [← (text_eq_iff hC sourceJson a.key).mpr (htexts a ha)]
    exact Nat.lt_succ_of_le (hfits a ha)
  · rw [← (text_eq_iff hC sourceJson "output_path").mpr hzero]
    exact hshort

/-- The description of a source is what the source says if and only if it has room for it. -/
theorem faithfulSource_iff (hC : C.Lawful) :
    (∃ mem, sourceMemory C sourceJson = some mem ∧ FaithfulSource C sourceJson mem) ↔
      sourceJson.isNull = true ∨ SourceFits C sourceJson := by
  cases hnull : sourceJson.isNull with
  | true =>
    refine iff_of_true ⟨fun _ => 0, if_pos hnull, (faithful_iff_same reads_zero).mpr ?_⟩ (.inl rfl)
    cases sourceJson with
    | null => exact ⟨rfl, rfl, rfl, rfl, rfl, rfl, rfl, rfl⟩
    | bool | int | double | string | array | object => cases hnull
  | false =>
    rw [or_iff_right (by decide)]
    constructor
    · rintro ⟨mem, hmem, hfaithful⟩
      cases hrecord : sourceRecord C sourceJson with
      | none =>
        obtain ⟨a, ha, hnone⟩ := sourceMemory_overflows hC hrecord hmem
        rw [hfaithful.texts a ha] at hnone
        cases hnone
      | some d =>
        obtain ⟨mem', hmem', hreads⟩ := sourceMemory_reads hC hrecord
        obtain rfl := Option.some.inj (hmem.symm.trans hmem')
        exact fits_of_same hC hnull hrecord ((faithful_iff_same hreads).mp hfaithful)
    · intro hfits
      obtain ⟨d, hrecord, hsame⟩ := same_of_fits hC hfits
      obtain ⟨mem, hmem, hreads⟩ := sourceMemory_reads hC hrecord
      exact ⟨mem, hmem, (faithful_iff_same hreads).mpr hsame⟩

end Source

section Collector

variable (C : JsonC) (jobj : Json)

structure FaithfulBoost (mem : Memory) : Prop where
  boostPath : boostPath.read mem = some (stringBytes (stringOf C (jobj.get "boost_path")))
  boostSize : (leValue (load mem 288 8) : Int) = numberOf C (jobj.get "boost_size")

/-- The code comes to its end, and all descriptions hold what the JSON says. There is no way
for the code to reject a configuration. -/
def FaithfulCollector : Prop :=
  ∃ boost sources, collectorMemory C jobj = some (boost, sources) ∧ FaithfulBoost C jobj boost ∧
    List.Forall₂ (FaithfulSource C) ((elements (jobj.get "sources")).getD []) sources

/-- The path and the size of the boost region, which is only looked at with a path. -/
structure BoostFits : Prop where
  path : HasRoom 256 (stringOf C (jobj.get "boost_path"))
  size : InSize (numberOf C (jobj.get "boost_size"))
  skipped : (jobj.get "boost_path").isNull = true → numberOf C (jobj.get "boost_size") = 0

variable {C jobj}

/-- The size is stored as it is. -/
theorem boostSize_iff (hC : C.Lawful) :
    (boostSize C jobj : Int) = numberOf C (jobj.get "boost_size") ↔
      InSize (numberOf C (jobj.get "boost_size")) ∧
        ((jobj.get "boost_path").isNull = true → numberOf C (jobj.get "boost_size") = 0) := by
  rw [boostSize]
  split
  case isTrue hnull =>
    constructor
    · intro hzero
      rw [← hzero]
      exact ⟨by decide, fun _ => rfl⟩
    · exact fun h => (h.2 hnull).symm
  case isFalse hnull =>
    rw [toSize_intMember_iff hC]
    exact ⟨fun h => ⟨h, fun hnull' => absurd hnull' hnull⟩, fun h => h.1⟩

theorem faithfulBoost_iff (hC : C.Lawful) :
    (∃ mem, boostMemory C jobj = some mem ∧ FaithfulBoost C jobj mem) ↔ BoostFits C jobj := by
  constructor
  · rintro ⟨mem, hmem, hpath, hsize⟩
    have hfits : Fits C jobj boostPath := by
      by_contra hlong
      rw [boostMemory_overflows hC hlong hmem] at hpath
      cases hpath
    obtain ⟨mem', hmem', -, hread, hstored⟩ := boostMemory_reads hC hfits
    obtain rfl := Option.some.inj (hmem.symm.trans hmem')
    have htext := stringBytes_inj.mp (Option.some.inj (hread.symm.trans hpath))
    obtain ⟨hin, hskipped⟩ := (boostSize_iff hC).mp (hstored ▸ hsize)
    refine ⟨⟨(text_eq_iff hC jobj "boost_path").mp htext, ?_⟩, hin, hskipped⟩
    rw [← htext]
    exact Nat.lt_succ_of_le hfits
  · rintro ⟨⟨hzero, hshort⟩, hin, hskipped⟩
    have htext := (text_eq_iff hC jobj "boost_path").mpr hzero
    have hfits : Fits C jobj boostPath := by
      rw [← htext] at hshort
      exact Nat.le_of_lt_succ hshort
    obtain ⟨mem, hmem, -, hread, hstored⟩ := boostMemory_reads hC hfits
    refine ⟨mem, hmem, htext ▸ hread, ?_⟩
    rw [hstored]
    exact (boostSize_iff hC).mpr ⟨hin, hskipped⟩

/-- A run over a list is right if it is right for each element. -/
theorem exists_mapM_iff {α β : Type*} {f : α → Option β} {p : α → β → Prop} {elems : List α} :
    (∃ results, elems.mapM f = some results ∧ List.Forall₂ p elems results) ↔
      ∀ elem ∈ elems, ∃ result, f elem = some result ∧ p elem result := by
  induction elems with
  | nil => exact iff_of_true ⟨[], rfl, List.Forall₂.nil⟩ (by simp)
  | cons elem elems ih =>
    rw [List.forall_mem_cons, ← ih]
    constructor
    · rintro ⟨results, hmap, hall⟩
      obtain ⟨first, rest, hfirst, hrest, rfl⟩ := mapM_cons_eq_some hmap
      obtain ⟨hp, hps⟩ := List.forall₂_cons.mp hall
      exact ⟨⟨first, hfirst, hp⟩, rest, hrest, hps⟩
    · rintro ⟨⟨first, hfirst, hp⟩, rest, hrest, hps⟩
      refine ⟨first :: rest, ?_, List.Forall₂.cons hp hps⟩
      rw [List.mapM_cons, hfirst, hrest]
      rfl

theorem collectorMemory_eq_some {boost : Memory} {sources : List Memory} :
    collectorMemory C jobj = some (boost, sources) ↔
      boostMemory C jobj = some boost ∧ sourcesMemory C (jobj.get "sources") = some sources := by
  rw [collectorMemory]
  cases boostMemory C jobj <;> cases sourcesMemory C (jobj.get "sources") <;> simp

/-- **A configuration is parsed faithfully** if and only if every text has room in its array
and every number in an `int`, each source with a path, the size of the region with its path. -/
theorem faithfulCollector_iff (hC : C.Lawful) : FaithfulCollector C jobj ↔
    BoostFits C jobj ∧ ∀ sourceJson ∈ (elements (jobj.get "sources")).getD [],
      sourceJson.isNull = true ∨ SourceFits C sourceJson := by
  rw [← faithfulBoost_iff hC]
  simp only [← faithfulSource_iff hC, ← exists_mapM_iff]
  constructor
  · rintro ⟨boost, sources, hrun, hboost, hsources⟩
    obtain ⟨hmem, hmems⟩ := collectorMemory_eq_some.mp hrun
    exact ⟨⟨boost, hmem, hboost⟩, sources, hmems, hsources⟩
  · rintro ⟨⟨boost, hmem, hboost⟩, sources, hmems, hsources⟩
    exact ⟨boost, sources, collectorMemory_eq_some.mpr ⟨hmem, hmems⟩, hboost, hsources⟩

end Collector

section Runs

def cameraJson (host : String) : Json :=
  .object [("type", .string "tcp"), ("id_string", .string "left"), ("host", .string host),
    ("port", .string "3956"), ("output_path", .string "/tmp/left"),
    ("frame", .object [("width", .int 2448), ("height", .int 2048), ("format", .int 1)])]

def collectorJson (boostSize : Int) (host : String) : Json :=
  .object [("boost_path", .string "region"), ("boost_size", .int boostSize),
    ("sources", .array [cameraJson host, .null])]

theorem cameraJson_fits : SourceFits cuttingC (cameraJson "192.168.0.10") := by
  constructor
  all_goals decide +kernel

theorem faithfulCollector_iff_camera :
    FaithfulCollector cuttingC (collectorJson 100000000 "192.168.0.10") := by
  refine (faithfulCollector_iff cuttingC_lawful).mpr ⟨⟨by decide, by decide, by decide⟩, ?_⟩
  intro sourceJson hmem
  rcases List.mem_pair.mp hmem with rfl | rfl
  · exact Or.inr cameraJson_fits
  · exact Or.inl rfl

/-- A region of 5 GB is parsed as one of 2147483647 bytes, and a host name that is too long
has no end in its array. -/
theorem collector_not_faithful :
    boostSize cuttingC (collectorJson 5000000000 "192.168.0.10") = 2147483647 ∧
      ¬ FaithfulCollector cuttingC (collectorJson 5000000000 "192.168.0.10") ∧
      ¬ FaithfulCollector cuttingC (collectorJson 100000000 "camera-17.example.org") := by
  refine ⟨rfl, ?_, ?_⟩
  · rintro ⟨boost, sources, hrun, hboost, -⟩
    obtain ⟨hmem, -⟩ := collectorMemory_eq_some.mp hrun
    have hfits := (faithfulBoost_iff cuttingC_lawful).mp ⟨boost, hmem, hboost⟩
    exact absurd hfits.size (by decide)
  · rintro ⟨boost, sources, hrun, -, hsources⟩
    obtain ⟨-, hmems⟩ := collectorMemory_eq_some.mp hrun
    obtain ⟨mem, hmem, hfaithful⟩ := exists_mapM_iff.mp ⟨sources, hmems, hsources⟩
      (cameraJson "camera-17.example.org") (List.mem_cons_self ..)
    rcases (faithfulSource_iff cuttingC_lawful).mp ⟨mem, hmem, hfaithful⟩ with hnull | hfits
    · cases hnull
    · exact absurd (hfits.texts host (by decide)) (by decide)

end Runs

end DclProcessor.Description
