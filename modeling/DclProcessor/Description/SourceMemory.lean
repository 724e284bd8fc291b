import DclProcessor.Library.CString
import DclProcessor.Description.Accessors

/-!
A source description in memory: `parse_source_json` and `update_source_description` copy
texts to arrays that lie one behind the other, without a look at their sizes, and store the
numbers behind them. As long as every text fits into its array, what is read from the memory
is what the parser of records gives; a text that does not leaves its array without an end.
-/

namespace DclProcessor.Description

open Bytes

/-- A text and its array of `size` bytes and a zero. The arrays of `struct source_info` have
the same places in `struct source_description`. -/
structure TextArray where
  key : String
  off : Nat
  size : Nat
  deriving DecidableEq

def idString : TextArray := ⟨"id_string", 4, 255⟩

def host : TextArray := ⟨"host", 260, 15⟩

def port : TextArray := ⟨"port", 276, 7⟩

def textArrays : List TextArray := [idString, host, port]

/-- The text in an array. -/
def TextArray.read (mem : Memory) (a : TextArray) : Option (List UInt8) :=
  strOf (load mem a.off (a.size + 1))

/-- `struct source_info` up to the pointer `output_path`, which is kept apart. -/
def infoSize : Nat := 312

/-- `sizeof(struct source_description)` -/
def descriptionSize : Nat := 1352

section Source

variable (C : JsonC)

/-- `if (current) info->x = json_object_get_int(current)` -/
def storeMember (off len : Nat) (jobj : Json) (key : String) (mem : Memory) : Memory :=
  let current := jobj.get key
  if current.isNull then mem else store mem off (leBytes len (toSize (C.getInt current)))

/-- `if (current) strcpy(info->x, json_object_get_string(current))` -/
def copyMember (jobj : Json) (a : TextArray) : Option Slot :=
  (stringMember C jobj a.key).map fun s => ⟨a.off, a.size, stringBytes s ++ [0]⟩

def parseFrameMemory (frameJson : Json) (mem : Memory) : Memory :=
  let mem := storeMember C 288 8 frameJson "width" mem
  let mem := storeMember C 296 8 frameJson "height" mem
  storeMember C 304 4 frameJson "format" mem

/-- `parse_source_json` for a value that is there. -/
def sourceInfoMemory (sourceJson : Json) : Option Memory :=
  let type := ((stringMember C sourceJson "type").map getSourceTypeVal).getD 0
  let mem := store (fun _ => 0) 0 (leBytes 4 (toSize type))
  (copyAll infoSize (textArrays.filterMap (copyMember C sourceJson)) mem).map
    (parseFrameMemory C (sourceJson.get "frame"))

/-- An `int` that is assigned to a `size_t`, from its four bytes. -/
def signExtend (n : Nat) : Nat := if n < 2 ^ 31 then n else n + (2 ^ 64 - 2 ^ 32)

/-- The numbers of a description. -/
def storeNumbers (info mem : Memory) : Memory :=
  let mem := store mem 0 (load info 0 4)
  let mem := store mem 304 (load info 288 8)
  let mem := store mem 312 (load info 296 8)
  let mem := store mem 320 (leBytes 8 (signExtend (leValue (load info 304 4))))
  let mem := store mem 288 (leBytes 8 12)
  store mem 296 (leBytes 8
    (leValue (load mem 304 8) * leValue (load mem 312 8) * leValue (load mem 320 8)))

/-- `strcpy` from the arrays of the information to those of the description. -/
def copyArray (info : Memory) (a : TextArray) : Slot :=
  ⟨a.off, a.size, load info a.off (infoSize - a.off)⟩

/-- `update_source_description` of a new description. -/
def updateMemory (info : Memory) (outputPath : Option String) : Option Memory := do
  let mem ← copyAll descriptionSize (textArrays.map (copyArray info)) fun _ => 0
  let path ← outputPath
  Bytes.strcpy descriptionSize (storeNumbers info mem) 328 (stringBytes path ++ [0])

/-- The description that `parse_sources_json` makes of a source. -/
def sourceMemory (sourceJson : Json) : Option Memory :=
  if sourceJson.isNull then some fun _ => 0
  else
    (sourceInfoMemory C sourceJson).bind fun info =>
      updateMemory info (stringMember C sourceJson "output_path")

end Source

/-- What is read from the memory is in the record. -/
structure Reads (mem : Memory) (d : SourceDescription) : Prop where
  type : leValue (load mem 0 4) = toSize d.type % 2 ^ 32
  sidString : idString.read mem = some (stringBytes d.sidString)
  addr : host.read mem = some (stringBytes d.addr)
  port : port.read mem = some (stringBytes d.port)
  headerLen : leValue (load mem 288 8) = d.headerLen
  dataLen : leValue (load mem 296 8) = d.dataLen
  width : leValue (load mem 304 8) = d.width
  height : leValue (load mem 312 8) = d.height
  channels : leValue (load mem 320 8) = d.channels
  outputPath : strOf (load mem 328 1024) = some (stringBytes d.outputPath)

/-! ## Texts -/

section Texts

variable {C : JsonC}

/-- The string of a member, empty without one. -/
def text (C : JsonC) (jobj : Json) (key : String) : String := (stringMember C jobj key).getD ""

/-- The text fits into its array. -/
def Fits (C : JsonC) (jobj : Json) (a : TextArray) : Prop :=
  (text C jobj a.key).utf8ByteSize ≤ a.size

theorem forall_textArrays {p : TextArray → Prop} :
    (∀ a ∈ textArrays, p a) ↔ p idString ∧ p host ∧ p port := by
  simp [textArrays]

theorem textArrays_apart : ∀ a ∈ textArrays, ∀ b ∈ textArrays,
    b.off ≤ a.off → a.off ≤ b.off + b.size → b = a := by
  decide

theorem textArrays_bounds : ∀ a ∈ textArrays, 4 ≤ a.off ∧ a.off + a.size + 1 ≤ 284 := by
  decide

theorem textArrays_pairwise : textArrays.Pairwise fun a b => a.off + a.size < b.off := by
  decide

theorem ascending_copyArray (info : Memory) :
    Ascending descriptionSize (textArrays.map (copyArray info)) := by
  refine ⟨List.pairwise_map.mpr textArrays_pairwise, fun a ha => ?_⟩
  obtain ⟨b, hb, rfl⟩ := List.mem_map.mp ha
  have hbounds := textArrays_bounds b hb
  simp only [copyArray, descriptionSize]
  omega

theorem copyMember_eq_some {jobj : Json} {a : TextArray} {slot : Slot}
    (h : copyMember C jobj a = some slot) : slot.dst = a.off ∧ slot.size = a.size ∧
      slot.src = stringBytes (text C jobj a.key) ++ [0] := by
  obtain ⟨s, hs, rfl⟩ := Option.map_eq_some_iff.mp h
  exact ⟨rfl, rfl, by rw [text, hs, Option.getD_some]⟩

theorem ascending_copyMember (jobj : Json) :
    Ascending infoSize (textArrays.filterMap (copyMember C jobj)) := by
  constructor
  · rw [List.pairwise_filterMap]
    refine textArrays_pairwise.imp fun {a b} hab slot hslot slot' hslot' => ?_
    rw [(copyMember_eq_some hslot).1, (copyMember_eq_some hslot).2.1,
      (copyMember_eq_some hslot').1]
    exact hab
  · intro slot hslot
    obtain ⟨a, ha, hslot⟩ := List.mem_filterMap.mp hslot
    have hbounds := textArrays_bounds a ha
    rw [(copyMember_eq_some hslot).1, (copyMember_eq_some hslot).2.1, infoSize]
    omega

theorem zero_notMem_text (hC : C.Lawful) (jobj : Json) (key : String) :
    (0 : UInt8) ∉ stringBytes (text C jobj key) := by
  rw [zero_mem_stringBytes, text, stringMember]
  by_cases hnull : (jobj.get key).isNull = true
  · simp [hnull]
  · rw [if_neg hnull]
    exact hC.getString_isCString _

/-- A copied text ends in its array if it fits. -/
theorem ends_iff_fits (hC : C.Lawful) {jobj : Json} {a : TextArray} {slot : Slot}
    (h : copyMember C jobj a = some slot) : slot.Ends ↔ Fits C jobj a := by
  obtain ⟨-, hsize, hsrc⟩ := copyMember_eq_some h
  rw [Slot.ends_iff hsrc (zero_notMem_text hC jobj a.key), hsize]
  rfl

theorem cut_of_fits (hC : C.Lawful) {jobj : Json} {a : TextArray} {slot : Slot}
    (h : copyMember C jobj a = some slot) (hfits : Fits C jobj a) :
    slot.cut = stringBytes (text C jobj a.key) := by
  obtain ⟨-, hsize, hsrc⟩ := copyMember_eq_some h
  exact Slot.cut_eq hsrc (zero_notMem_text hC jobj a.key) (hsize ▸ hfits)

/-- A text that is not copied is empty. -/
theorem text_of_none {jobj : Json} {a : TextArray} (h : copyMember C jobj a = none) :
    text C jobj a.key = "" := by
  rw [text, Option.map_eq_none_iff.mp h]
  rfl

/-- The texts of the information, each in its array if all fit. -/
theorem copyMembers_read (hC : C.Lawful) {jobj : Json} (hfits : ∀ a ∈ textArrays, Fits C jobj a)
    (mem : Memory) (hmem : ∀ addr, 4 ≤ addr → mem addr = 0) :
    ∃ info, copyAll infoSize (textArrays.filterMap (copyMember C jobj)) mem = some info ∧
      (∀ a ∈ textArrays, a.read info = some (stringBytes (text C jobj a.key))) ∧
      ∀ addr, addr < 4 ∨ 284 ≤ addr → info addr = mem addr := by
  have hends : ∀ slot ∈ textArrays.filterMap (copyMember C jobj), slot.Ends := by
    intro slot hslot
    obtain ⟨a, ha, hcopy⟩ := List.mem_filterMap.mp hslot
    exact (ends_iff_fits hC hcopy).mpr (hfits a ha)
  obtain ⟨info, hinfo, hread, hsame⟩ := copyAll_read (ascending_copyMember jobj) hends mem
  refine ⟨info, hinfo, fun a ha => ?_, fun addr haddr => hsame addr fun slot hslot hhas => ?_⟩
  · cases hcopy : copyMember C jobj a with
    | some slot =>
      obtain ⟨hdst, hsize, -⟩ := copyMember_eq_some hcopy
      have hslot := hread slot (List.mem_filterMap.mpr ⟨a, ha, hcopy⟩)
      rw [Slot.read, hdst, hsize, cut_of_fits hC hcopy (hfits a ha)] at hslot
      exact hslot
    | none =>
      -- nothing is copied to the beginning of its array
      have hzero : info a.off = 0 := by
        rw [hsame a.off fun slot hslot hhas => ?_, hmem a.off (textArrays_bounds a ha).1]
        obtain ⟨b, hb, hcopy'⟩ := List.mem_filterMap.mp hslot
        obtain ⟨hdst, hsize, -⟩ := copyMember_eq_some hcopy'
        rw [Slot.Has, hdst, hsize] at hhas
        rw [textArrays_apart a ha b hb hhas.1 hhas.2, hcopy] at hcopy'
        cases hcopy'
      rw [text_of_none hcopy, TextArray.read, load, hzero]
      simp [strOf, cString_cons, stringBytes_eq]
  · obtain ⟨a, ha, hcopy⟩ := List.mem_filterMap.mp hslot
    obtain ⟨hdst, hsize, -⟩ := copyMember_eq_some hcopy
    have hbounds := textArrays_bounds a ha
    rw [Slot.Has, hdst, hsize] at hhas
    omega

/-- A text that does not fit leaves no end. -/
theorem copyMembers_overflow (hC : C.Lawful) {jobj : Json} {mem info : Memory}
    (h : copyAll infoSize (textArrays.filterMap (copyMember C jobj)) mem = some info)
    {a : TextArray} (ha : a ∈ textArrays) (hlong : ¬ Fits C jobj a) : a.read info = none := by
  cases hcopy : copyMember C jobj a with
  | some slot =>
    obtain ⟨hdst, hsize, -⟩ := copyMember_eq_some hcopy
    have hread := read_of_not_ends (ascending_copyMember jobj) h
      (List.mem_filterMap.mpr ⟨a, ha, hcopy⟩) (mt (ends_iff_fits hC hcopy).mp hlong)
    rwa [Slot.read, hdst, hsize] at hread
  | none =>
    rw [Fits, text_of_none hcopy] at hlong
    exact absurd (Nat.zero_le _) hlong

theorem copyArray_src (info : Memory) {a : TextArray} (ha : a ∈ textArrays) :
    (copyArray info a).src.take (a.size + 1) = load info a.off (a.size + 1) := by
  have hbounds := textArrays_bounds a ha
  have hpart := load_part info a.off
    (show 0 + (a.size + 1) ≤ infoSize - a.off by rw [infoSize]; omega)
  rw [Nat.add_zero, List.drop_zero] at hpart
  exact hpart.symm

/-- A text is copied in its array if it has an end there. -/
theorem copyArray_ends_iff (info : Memory) {a : TextArray} (ha : a ∈ textArrays) :
    (copyArray info a).Ends ↔ a.read info ≠ none := by
  have hends : (copyArray info a).Ends ↔ (0 : UInt8) ∈ load info a.off (a.size + 1) := by
    rw [← copyArray_src info ha]
    rfl
  rw [hends, TextArray.read, strOf]
  split <;> simp [*]

theorem copyArray_cut {info : Memory} {a : TextArray} (ha : a ∈ textArrays)
    (hread : a.read info ≠ none) : a.read info = some (copyArray info a).cut := by
  have hends := (copyArray_ends_iff info ha).mpr hread
  have hmem : (0 : UInt8) ∈ (load info a.off (a.size + 1)).take (a.size + 1) := by
    rw [List.take_of_length_le (load_length ..).le, ← copyArray_src info ha]
    exact hends
  rw [TextArray.read, (strOf_of_mem_take hmem).1, ← copyArray_src info ha, List.take_take,
    Nat.min_eq_left (Nat.le_succ _)]
  rfl

/-- The arrays of the description get what is in those of the information. -/
theorem copyArrays_read {info : Memory} (hread : ∀ a ∈ textArrays, a.read info ≠ none) :
    ∃ mem, copyAll descriptionSize (textArrays.map (copyArray info)) (fun _ => 0) = some mem ∧
      (∀ a ∈ textArrays, a.read mem = a.read info) ∧ ∀ addr, 284 ≤ addr → mem addr = 0 := by
  have hends : ∀ slot ∈ textArrays.map (copyArray info), slot.Ends := by
    intro slot hslot
    obtain ⟨a, ha, rfl⟩ := List.mem_map.mp hslot
    exact (copyArray_ends_iff info ha).mpr (hread a ha)
  obtain ⟨mem, hmem, hslots, hsame⟩ :=
    copyAll_read (ascending_copyArray info) hends fun _ => 0
  refine ⟨mem, hmem, fun a ha => ?_, fun addr haddr => hsame addr fun slot hslot hhas => ?_⟩
  · rw [copyArray_cut ha (hread a ha)]
    exact hslots _ (List.mem_map_of_mem ha)
  · obtain ⟨a, ha, rfl⟩ := List.mem_map.mp hslot
    have hbounds := textArrays_bounds a ha
    simp only [Slot.Has, copyArray] at hhas
    omega

theorem copyArrays_overflow {info mem : Memory}
    (h : copyAll descriptionSize (textArrays.map (copyArray info)) (fun _ => 0) = some mem)
    {a : TextArray} (ha : a ∈ textArrays) (hlong : a.read info = none) : a.read mem = none :=
  read_of_not_ends (ascending_copyArray info) h (List.mem_map_of_mem ha)
    (mt (copyArray_ends_iff info ha).mp (not_not.mpr hlong))

end Texts

/-! ## Numbers -/

section Numbers

variable {C : JsonC} {info mem : Memory}

/-- Memory that is zero holds the number 0. -/
theorem load_of_zero {addr : Nat} (h : ∀ a, addr ≤ a → mem a = 0) (n : Nat) :
    load mem addr n = leBytes n 0 := by
  induction n generalizing addr with
  | zero => rfl
  | succ n ih =>
    rw [load, leBytes, h addr (Nat.le_refl _), ih fun a ha => h a (by omega)]
    rfl

theorem storeMember_load_of_disjoint {off len addr n : Nat} (jobj : Json) (key : String)
    (h : addr + n ≤ off ∨ off + len ≤ addr) :
    load (storeMember C off len jobj key mem) addr n = load mem addr n := by
  rw [storeMember]
  split
  · rfl
  · exact load_store_of_disjoint mem (by rwa [leBytes_length])

/-- A member that is not there leaves the number 0. -/
theorem storeMember_load {off len : Nat} (jobj : Json) (key : String)
    (h : load mem off len = leBytes len 0) :
    load (storeMember C off len jobj key mem) off len =
      leBytes len (toSize (intMember C jobj key 0)) := by
  rw [storeMember, intMember]
  split
  · exact h
  · exact load_stored (leBytes_length ..) off

theorem parseFrameMemory_before (frameJson : Json) {addr n : Nat} (h : addr + n ≤ 288) :
    load (parseFrameMemory C frameJson mem) addr n = load mem addr n := by
  simp only [parseFrameMemory]
  rw [storeMember_load_of_disjoint _ _ (by omega), storeMember_load_of_disjoint _ _ (by omega),
    storeMember_load_of_disjoint _ _ (by omega)]

/-- The numbers of a frame, behind the texts. -/
theorem parseFrameMemory_load (frameJson : Json) (hzero : ∀ addr, 284 ≤ addr → mem addr = 0) :
    load (parseFrameMemory C frameJson mem) 288 8 = leBytes 8 (parseFrameJson C frameJson).width ∧
    load (parseFrameMemory C frameJson mem) 296 8 = leBytes 8 (parseFrameJson C frameJson).height ∧
    load (parseFrameMemory C frameJson mem) 304 4 =
      leBytes 4 (toSize (parseFrameJson C frameJson).format) := by
  have hload : ∀ addr n, 284 ≤ addr → load mem addr n = leBytes n 0 := fun addr n haddr =>
    load_of_zero (fun a ha => hzero a (by omega)) n
  simp only [parseFrameMemory]
  refine ⟨?_, ?_, ?_⟩
  · rw [storeMember_load_of_disjoint _ _ (by omega), storeMember_load_of_disjoint _ _ (by omega)]
    exact storeMember_load _ _ (hload 288 8 (by omega))
  · rw [storeMember_load_of_disjoint _ _ (by omega)]
    refine storeMember_load _ _ ?_
    rw [storeMember_load_of_disjoint _ _ (by omega), hload 296 8 (by omega)]
  · refine storeMember_load _ _ ?_
    rw [storeMember_load_of_disjoint _ _ (by omega), storeMember_load_of_disjoint _ _ (by omega),
      hload 304 4 (by omega)]

theorem storeNumbers_outside (info : Memory) {addr n : Nat} (hlow : 4 ≤ addr)
    (hout : addr + n ≤ 288 ∨ 328 ≤ addr) :
    load (storeNumbers info mem) addr n = load mem addr n := by
  simp (disch := (simp only [load_length, leBytes_length]; omega)) only [storeNumbers,
    load_store_of_disjoint]

/-- The numbers of a description are made of those of the information. -/
structure HasNumbers (info mem : Memory) : Prop where
  type : load mem 0 4 = load info 0 4
  headerLen : load mem 288 8 = leBytes 8 12
  dataLen : load mem 296 8 = leBytes 8 (leValue (load info 288 8) * leValue (load info 296 8) *
    leValue (leBytes 8 (signExtend (leValue (load info 304 4)))))
  width : load mem 304 8 = load info 288 8
  height : load mem 312 8 = load info 296 8
  channels : load mem 320 8 = leBytes 8 (signExtend (leValue (load info 304 4)))

theorem storeNumbers_has (info mem : Memory) : HasNumbers info (storeNumbers info mem) := by
  constructor
  all_goals
    simp (disch := simp) only [storeNumbers, load_store_of_disjoint, load_stored]

/-- What is stored behind the numbers leaves them. -/
theorem HasNumbers.store (h : HasNumbers info mem) {addr : Nat} (haddr : 328 ≤ addr)
    (bs : List UInt8) : HasNumbers info (store mem addr bs) := by
  obtain ⟨htype, hheader, hdata, hwidth, hheight, hchannels⟩ := h
  constructor
  all_goals
    rw [load_store_of_disjoint mem (Or.inl (by omega))]
    assumption

end Numbers

/-! ## Records -/

section Records

variable {C : JsonC} {sourceJson : Json}

/-- What the parser of records makes of a source. -/
def sourceRecord (C : JsonC) (sourceJson : Json) : Option SourceDescription :=
  (parseSourceJson C sourceJson).bind updateSourceDescription

def sourceInfo (C : JsonC) (sourceJson : Json) : SourceInfo where
  type := ((stringMember C sourceJson "type").map getSourceTypeVal).getD 0
  sidString := text C sourceJson "id_string"
  host := text C sourceJson "host"
  port := text C sourceJson "port"
  fi := parseFrameJson C (sourceJson.get "frame")
  outputPath := stringMember C sourceJson "output_path"

theorem parseSourceJson_of_fits (h : sourceJson.isNull = false)
    (hfits : ∀ a ∈ textArrays, Fits C sourceJson a) :
    parseSourceJson C sourceJson = some (some (sourceInfo C sourceJson)) := by
  obtain ⟨hsid, hhost, hport⟩ := forall_textArrays.mp hfits
  have harray : ∀ key size, (text C sourceJson key).utf8ByteSize < size →
      arrayMember C sourceJson key size = some (text C sourceJson key) :=
    fun key size hlt => if_pos hlt
  simp only [parseSourceJson, h, harray "id_string" 256 (Nat.lt_succ_of_le hsid),
    harray "host" 16 (Nat.lt_succ_of_le hhost), harray "port" 8 (Nat.lt_succ_of_le hport)]
  rfl

theorem arrayMember_eq_some {jobj : Json} {key s : String} {size : Nat}
    (h : arrayMember C jobj key size = some s) :
    (text C jobj key).utf8ByteSize < size ∧ s = text C jobj key := by
  rw [arrayMember, strcpy] at h
  split at h
  case isTrue hlt => exact ⟨hlt, (Option.some.inj h).symm⟩
  case isFalse => cases h

theorem fits_of_parseSourceJson (hnull : sourceJson.isNull = false)
    {parsed : Option SourceInfo} (h : parseSourceJson C sourceJson = some parsed) :
    ∀ a ∈ textArrays, Fits C sourceJson a := by
  rw [parseSourceJson, if_neg (Bool.not_eq_true _ ▸ hnull)] at h
  obtain ⟨sid, hsid, h⟩ := Option.bind_eq_some_iff.mp h
  obtain ⟨hostText, hhost, h⟩ := Option.bind_eq_some_iff.mp h
  obtain ⟨portText, hport, -⟩ := Option.bind_eq_some_iff.mp h
  exact forall_textArrays.mpr ⟨Nat.le_of_lt_succ (arrayMember_eq_some hsid).1,
    Nat.le_of_lt_succ (arrayMember_eq_some hhost).1,
    Nat.le_of_lt_succ (arrayMember_eq_some hport).1⟩

/-- The information in memory, when all texts fit. -/
theorem sourceInfoMemory_reads (hC : C.Lawful) (hfits : ∀ a ∈ textArrays, Fits C sourceJson a) :
    ∃ info, sourceInfoMemory C sourceJson = some info ∧
      (∀ a ∈ textArrays, a.read info = some (stringBytes (text C sourceJson a.key))) ∧
      load info 0 4 = leBytes 4 (toSize (sourceInfo C sourceJson).type) ∧
      load info 288 8 = leBytes 8 (sourceInfo C sourceJson).fi.width ∧
      load info 296 8 = leBytes 8 (sourceInfo C sourceJson).fi.height ∧
      load info 304 4 = leBytes 4 (toSize (sourceInfo C sourceJson).fi.format) := by
  have hstart : ∀ addr, 4 ≤ addr →
      store (fun _ => 0) 0 (leBytes 4 (toSize (sourceInfo C sourceJson).type)) addr = 0 :=
    fun addr haddr => store_outside _ (Or.inr (by rw [leBytes_length]; omega))
  obtain ⟨mem, hmem, hread, hsame⟩ := copyMembers_read hC hfits _ hstart
  have hzero : ∀ addr, 284 ≤ addr → mem addr = 0 := fun addr haddr => by
    rw [hsame addr (Or.inr haddr), hstart addr (by omega)]
  obtain ⟨hwidth, hheight, hformat⟩ :=
    parseFrameMemory_load (C := C) (sourceJson.get "frame") hzero
  refine ⟨parseFrameMemory C (sourceJson.get "frame") mem, ?_, fun a ha => ?_, ?_, hwidth, hheight,
    hformat⟩
  · exact Option.map_eq_some_iff.mpr ⟨mem, hmem, rfl⟩
  · have hbounds := textArrays_bounds a ha
    rw [TextArray.read, parseFrameMemory_before _ (by omega)]
    exact hread a ha
  · rw [parseFrameMemory_before _ (by omega),
      load_congr fun addr _ hlt => hsame addr (Or.inl (by omega))]
    exact load_stored (leBytes_length ..) 0

/-- The description of an information whose texts have ends. -/
theorem updateMemory_reads {info : Memory} (hread : ∀ a ∈ textArrays, a.read info ≠ none)
    {path : String} (hzero : (0 : UInt8) ∉ stringBytes path) (hfits : path.utf8ByteSize < 1024) :
    ∃ mem, updateMemory info (some path) = some mem ∧ HasNumbers info mem ∧
      (∀ a ∈ textArrays, a.read mem = a.read info) ∧
      strOf (load mem 328 1024) = some (stringBytes path) := by
  obtain ⟨mem, hmem, hsame, -⟩ := copyArrays_read hread
  have hstr := strOf_terminated hzero
  have hcopy : Bytes.strcpy descriptionSize (storeNumbers info mem) 328 (stringBytes path ++ [0]) =
      some (store (storeNumbers info mem) 328 (stringBytes path ++ [0])) := by
    rw [Bytes.strcpy, hstr, Option.bind_some, if_pos]
    rw [stringBytes_length, descriptionSize]
    omega
  refine ⟨store (storeNumbers info mem) 328 (stringBytes path ++ [0]), ?_,
    (storeNumbers_has info mem).store (Nat.le_refl _) _, fun a ha => ?_, ?_⟩
  · rw [updateMemory, hmem]
    exact hcopy
  · have hbounds := textArrays_bounds a ha
    rw [← hsame a ha, TextArray.read, TextArray.read,
      load_store_of_disjoint _ (Or.inl (by omega)), storeNumbers_outside info (by omega) (by omega)]
  · exact strOf_load hzero hfits (load_stored (List.length_append ..) 328)

theorem zero_notMem_path (hC : C.Lawful) {path : String}
    (h : stringMember C sourceJson "output_path" = some path) :
    (0 : UInt8) ∉ stringBytes path := by
  have hmember := zero_notMem_text hC sourceJson "output_path"
  rwa [text, h] at hmember

theorem leValue_leBytes_eight {n : Nat} (h : n < 2 ^ 64) : leValue (leBytes 8 n) = n := by
  have hmod : (256 : Nat) ^ 8 = 2 ^ 64 := rfl
  rw [leValue_leBytes, hmod, Nat.mod_eq_of_lt h]

theorem toSize_lt (n : Int) : toSize n < 2 ^ 64 := by
  rw [toSize]
  omega

theorem signExtend_toSize {n : Int} (h : IntRange n) :
    leValue (leBytes 8 (signExtend (leValue (leBytes 4 (toSize n))))) = toSize n := by
  obtain ⟨hlow, hhigh⟩ := h
  have hmod : (256 : Nat) ^ 4 = 2 ^ 32 := rfl
  have hextend : signExtend (toSize n % 2 ^ 32) = toSize n := by
    rw [signExtend, toSize]
    split <;> omega
  rw [leValue_leBytes 4, hmod, hextend, leValue_leBytes_eight (toSize_lt n)]

/-- Memory that is zero is the description of no source. -/
theorem reads_zero : Reads (fun _ => 0) ⟨0, "", "", "", 0, 0, 0, 0, 0, ""⟩ := by
  constructor
  all_goals decide +kernel

/-- The record of an information with a path. -/
def description (info : SourceInfo) (path : String) : SourceDescription where
  type := info.type
  sidString := info.sidString
  addr := info.host
  port := info.port
  headerLen := 12
  dataLen := info.fi.width * info.fi.height * toSize info.fi.format % 2 ^ 64
  width := info.fi.width
  height := info.fi.height
  channels := toSize info.fi.format
  outputPath := path

theorem updateSourceDescription_of_fits {info : SourceInfo} {path : String}
    (hpath : info.outputPath = some path) (hfits : path.utf8ByteSize < 1024) :
    updateSourceDescription (some info) = some (description info path) := by
  have hcopy : strcpy 1024 path = some path := if_pos hfits
  simp only [updateSourceDescription, hpath, Option.bind_eq_bind, Option.bind_some, hcopy]
  rfl

theorem updateSourceDescription_eq_some {info : SourceInfo} {d : SourceDescription}
    (h : updateSourceDescription (some info) = some d) :
    ∃ path, info.outputPath = some path ∧ path.utf8ByteSize < 1024 ∧
      d = description info path := by
  obtain ⟨path, hpath, h'⟩ := Option.bind_eq_some_iff.mp h
  obtain ⟨outputPath, hcopy, -⟩ := Option.bind_eq_some_iff.mp h'
  rw [strcpy] at hcopy
  split at hcopy
  case isTrue hfits =>
    rw [updateSourceDescription_of_fits hpath hfits] at h
    exact ⟨path, hpath, hfits, (Option.some.inj h).symm⟩
  case isFalse => cases hcopy

/-- The record is read from a description whose texts and numbers are those of its
information. -/
theorem reads_description (hC : C.Lawful) {info mem : Memory} {path : String}
    (hread : ∀ a ∈ textArrays, a.read mem = some (stringBytes (text C sourceJson a.key)))
    (htype : load info 0 4 = leBytes 4 (toSize (sourceInfo C sourceJson).type))
    (hwidth : load info 288 8 = leBytes 8 (sourceInfo C sourceJson).fi.width)
    (hheight : load info 296 8 = leBytes 8 (sourceInfo C sourceJson).fi.height)
    (hformat : load info 304 4 = leBytes 4 (toSize (sourceInfo C sourceJson).fi.format))
    (h : HasNumbers info mem) (hpath : strOf (load mem 328 1024) = some (stringBytes path)) :
    Reads mem (description (sourceInfo C sourceJson) path) := by
  have hchannels := signExtend_toSize
    (hC.intMember_range (sourceJson.get "frame") "format" (by decide : IntRange 0))
  have hformat' : (sourceInfo C sourceJson).fi.format =
      intMember C (sourceJson.get "frame") "format" 0 := rfl
  have hmod : (256 : Nat) ^ 8 = 2 ^ 64 := rfl
  rw [← hformat', ← hformat] at hchannels
  constructor
  · rw [h.type, htype, leValue_leBytes]
    rfl
  · exact hread idString (by decide)
  · exact hread host (by decide)
  · exact hread port (by decide)
  · rw [h.headerLen]
    rfl
  · have hw := leValue_leBytes_eight (n := (sourceInfo C sourceJson).fi.width) (toSize_lt _)
    have hh := leValue_leBytes_eight (n := (sourceInfo C sourceJson).fi.height) (toSize_lt _)
    rw [h.dataLen, hwidth, hheight, hchannels, hw, hh, leValue_leBytes, hmod]
    rfl
  · rw [h.width, hwidth]
    exact leValue_leBytes_eight (toSize_lt _)
  · rw [h.height, hheight]
    exact leValue_leBytes_eight (toSize_lt _)
  · rw [h.channels]
    exact hchannels
  · exact hpath

/-- **The parser of records is what the code does in memory**, as long as it has a result. -/
theorem sourceMemory_reads (hC : C.Lawful) {d : SourceDescription}
    (h : sourceRecord C sourceJson = some d) :
    ∃ mem, sourceMemory C sourceJson = some mem ∧ Reads mem d := by
  obtain ⟨parsed, hparse, hupdate⟩ := Option.bind_eq_some_iff.mp h
  cases hnull : sourceJson.isNull with
  | true =>
    rw [parseSourceJson, if_pos hnull] at hparse
    obtain rfl := Option.some.inj hparse
    obtain rfl := Option.some.inj hupdate
    exact ⟨_, if_pos hnull, reads_zero⟩
  | false =>
    have hfits := fits_of_parseSourceJson hnull hparse
    rw [parseSourceJson_of_fits hnull hfits] at hparse
    obtain rfl := Option.some.inj hparse
    obtain ⟨path, hpath, hshort, rfl⟩ := updateSourceDescription_eq_some hupdate
    obtain ⟨info, hinfo, hread, htype, hwidth, hheight, hformat⟩ :=
      sourceInfoMemory_reads hC hfits
    have hzero := zero_notMem_path hC hpath
    have hends : ∀ a ∈ textArrays, a.read info ≠ none := fun a ha hnone => by
      rw [hread a ha] at hnone
      cases hnone
    obtain ⟨mem, hmem, hnumbers, hsame, hout⟩ := updateMemory_reads hends hzero hshort
    refine ⟨mem, ?_, reads_description hC (fun a ha => (hsame a ha).trans (hread a ha)) htype
      hwidth hheight hformat hnumbers hout⟩
    have hmember : stringMember C sourceJson "output_path" = some path := hpath
    rw [sourceMemory, if_neg (Bool.not_eq_true _ ▸ hnull), hinfo, Option.bind_some, hmember]
    exact hmem

/-- An update that goes on had a path that fits, and arrays that were copied before it. -/
theorem updateMemory_eq_some {info mem : Memory} {outputPath : Option String}
    (hzero : ∀ path ∈ outputPath, (0 : UInt8) ∉ stringBytes path)
    (h : updateMemory info outputPath = some mem) :
    ∃ path mem₁, outputPath = some path ∧ path.utf8ByteSize < 1024 ∧
      copyAll descriptionSize (textArrays.map (copyArray info)) (fun _ => 0) = some mem₁ ∧
      ∀ a ∈ textArrays, a.read mem = a.read mem₁ := by
  obtain ⟨mem₁, hcopies, h⟩ := Option.bind_eq_some_iff.mp h
  obtain ⟨path, rfl, hcopy⟩ := Option.bind_eq_some_iff.mp h
  obtain ⟨s, hs, hfits, -⟩ := strcpy_eq_some hcopy
  obtain rfl := Option.some.inj (hs.symm.trans (strOf_terminated (hzero path rfl)))
  refine ⟨path, mem₁, rfl, ?_, hcopies, fun a ha => ?_⟩
  · rw [stringBytes_length, descriptionSize] at hfits
    omega
  · have hbounds := textArrays_bounds a ha
    rw [TextArray.read, strcpy_load hcopy (by omega),
      storeNumbers_outside info (by omega) (by omega)]
    rfl

/-- A text that does not fit has no end in the description either. -/
theorem read_of_not_fits (hC : C.Lawful) {info mem : Memory}
    (hinfo : sourceInfoMemory C sourceJson = some info)
    (hmem : copyAll descriptionSize (textArrays.map (copyArray info)) (fun _ => 0) = some mem)
    {a : TextArray} (ha : a ∈ textArrays) (hlong : ¬ Fits C sourceJson a) :
    a.read mem = none := by
  obtain ⟨texts, htexts, rfl⟩ := Option.map_eq_some_iff.mp hinfo
  have hbounds := textArrays_bounds a ha
  refine copyArrays_overflow hmem ha ?_
  rw [TextArray.read, parseFrameMemory_before _ (by omega)]
  exact copyMembers_overflow hC htexts ha hlong

/-- Where it has none, the code goes on with a text that has no end, if it goes on. -/
theorem sourceMemory_overflows (hC : C.Lawful) (h : sourceRecord C sourceJson = none)
    {mem : Memory} (hmem : sourceMemory C sourceJson = some mem) :
    ∃ a ∈ textArrays, a.read mem = none := by
  have hnull : sourceJson.isNull = false := by
    rw [← Bool.not_eq_true]
    intro hnull
    rw [sourceRecord, parseSourceJson, if_pos hnull] at h
    cases h
  rw [sourceMemory, if_neg (Bool.not_eq_true _ ▸ hnull)] at hmem
  obtain ⟨info, hinfo, hupdate⟩ := Option.bind_eq_some_iff.mp hmem
  obtain ⟨path, mem₁, hpath, hshort, hcopies, hsame⟩ :=
    updateMemory_eq_some (fun path hpath => zero_notMem_path hC hpath) hupdate
  by_cases hfits : ∀ a ∈ textArrays, Fits C sourceJson a
  · rw [sourceRecord, parseSourceJson_of_fits hnull hfits, Option.bind_some,
      updateSourceDescription_of_fits hpath hshort] at h
    cases h
  · simp only [not_forall, exists_prop] at hfits
    obtain ⟨a, ha, hlong⟩ := hfits
    exact ⟨a, ha, (hsame a ha).trans (read_of_not_fits hC hinfo hcopies ha hlong)⟩

end Records

end DclProcessor.Description
