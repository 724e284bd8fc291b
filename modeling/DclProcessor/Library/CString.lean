import DclProcessor.Library.Memory
import Mathlib.Data.List.TakeWhile

/-!
Strings that end at the first zero byte, read from memory and copied without a bound. A
copy takes as many bytes as come before the zero, wherever that is; several copies to
arrays that lie one behind the other, and what is read from the arrays after the last.
-/

namespace DclProcessor.Bytes

/-- The bytes up to the first zero. -/
def cString (bytes : List UInt8) : List UInt8 := bytes.takeWhile (· ≠ 0)

/-- The string that some memory begins with; `none` if the memory is over before it ends. -/
def strOf (bytes : List UInt8) : Option (List UInt8) :=
  if 0 ∈ bytes then some (cString bytes) else none

/-- The string at an address in a block that ends at `limit`. -/
def strAt (mem : Memory) (addr limit : Nat) : Option (List UInt8) :=
  strOf (load mem addr (limit - addr))

/-- `strcpy` from a memory that begins with `src` to a block that ends at `limit`; `none` if
it reads or writes past the end. -/
def strcpy (limit : Nat) (mem : Memory) (dst : Nat) (src : List UInt8) : Option Memory :=
  (strOf src).bind fun s =>
    if dst + s.length < limit then some (store mem dst (s ++ [0])) else none

section Strings

variable {bytes s : List UInt8}

theorem cString_cons (b : UInt8) (bytes : List UInt8) :
    cString (b :: bytes) = if b = 0 then [] else b :: cString bytes := by
  by_cases hb : b = 0 <;> simp [cString, hb]

theorem cString_length_le (bytes : List UInt8) : (cString bytes).length ≤ bytes.length :=
  (List.takeWhile_sublist _).length_le

theorem zero_not_mem_cString (bytes : List UInt8) : (0 : UInt8) ∉ cString bytes := fun hmem => by
  simpa using List.mem_takeWhile_imp hmem

/-- Bytes without a zero are all of the string. -/
theorem cString_eq_self (hzero : (0 : UInt8) ∉ bytes) : cString bytes = bytes :=
  List.takeWhile_eq_self_iff.mpr fun b hb => by
    simpa using fun hb' : b = 0 => hzero (hb' ▸ hb)

/-- Before a zero there is what has none. -/
theorem cString_append_zero (hzero : (0 : UInt8) ∉ s) (rest : List UInt8) :
    cString (s ++ 0 :: rest) = s := by
  induction s with
  | nil => rw [List.nil_append, cString_cons, if_pos rfl]
  | cons b s ih =>
    rw [List.mem_cons, not_or] at hzero
    rw [List.cons_append, cString_cons, if_neg (Ne.symm hzero.1), ih hzero.2]

theorem cString_zero_begins (h : (0 : UInt8) ∈ bytes) : cString bytes ++ [0] <+: bytes := by
  induction bytes with
  | nil => cases h
  | cons b bytes ih =>
    rw [cString_cons]
    split
    · rename_i hb
      rw [hb, List.nil_append, List.cons_prefix_cons]
      exact ⟨rfl, List.nil_prefix⟩
    · rename_i hb
      rw [List.cons_append, List.cons_prefix_cons]
      exact ⟨rfl, ih ((List.mem_cons.mp h).resolve_left (Ne.symm hb))⟩

/-- A string that ends is what comes before its zero. -/
theorem strOf_eq_some (h : strOf bytes = some s) : (0 : UInt8) ∈ bytes ∧ s = cString bytes := by
  unfold strOf at h
  split at h
  · rename_i hmem
    exact ⟨hmem, (Option.some.inj h).symm⟩
  · cases h

theorem strOf_eq_some_iff :
    strOf bytes = some s ↔ (0 : UInt8) ∉ s ∧ s ++ [0] <+: bytes := by
  constructor
  · intro h
    obtain ⟨hmem, rfl⟩ := strOf_eq_some h
    exact ⟨zero_not_mem_cString bytes, cString_zero_begins hmem⟩
  · rintro ⟨hzero, rest, rfl⟩
    have hmem : (0 : UInt8) ∈ s ++ [0] ++ rest := by simp
    rw [strOf, if_pos hmem, List.append_assoc, List.singleton_append, cString_append_zero hzero]

theorem strOf_terminated (hzero : (0 : UInt8) ∉ s) : strOf (s ++ [0]) = some s :=
  strOf_eq_some_iff.mpr ⟨hzero, List.prefix_rfl⟩

/-- The zero that ends the string is among the first bytes. -/
theorem strOf_of_mem_take {n : Nat} (h : (0 : UInt8) ∈ bytes.take (n + 1)) :
    strOf bytes = some (cString (bytes.take n)) ∧ (cString (bytes.take n)).length ≤ n := by
  constructor
  · induction bytes generalizing n with
    | nil => simp at h
    | cons b bytes ih =>
      by_cases hb : b = 0
      · subst hb
        cases n <;> simp [strOf, cString]
      · cases n with
        | zero => simp [Ne.symm hb] at h
        | succ n =>
          have hrest : (0 : UInt8) ∈ bytes.take (n + 1) := by simpa [Ne.symm hb] using h
          have hmem := List.mem_of_mem_take hrest
          have hih := ih hrest
          rw [strOf, if_pos hmem, Option.some.injEq] at hih
          rw [strOf, if_pos (List.mem_cons_of_mem _ hmem), List.take_succ_cons, cString_cons,
            cString_cons, if_neg hb, if_neg hb, hih]
  · exact (cString_length_le _).trans (List.length_take_le ..)

end Strings

section Copy

variable {mem mem' : Memory} {limit dst : Nat} {src : List UInt8}

/-- What a copy does: the string and its zero are stored. -/
theorem strcpy_eq_some (h : strcpy limit mem dst src = some mem') : ∃ s, strOf src = some s ∧
    dst + s.length < limit ∧ mem' = store mem dst (s ++ [0]) := by
  obtain ⟨s, hs, h⟩ := Option.bind_eq_some_iff.mp h
  split at h
  case isTrue hfits => exact ⟨s, hs, hfits, (Option.some.inj h).symm⟩
  case isFalse => cases h

/-- What lies before the destination stays. -/
theorem strcpy_load (h : strcpy limit mem dst src = some mem') {addr n : Nat}
    (hbefore : addr + n ≤ dst) : load mem' addr n = load mem addr n := by
  obtain ⟨s, -, -, rfl⟩ := strcpy_eq_some h
  exact load_store_of_disjoint mem (Or.inl hbefore)

/-- A string is read where its bytes and the zero lie. -/
theorem strOf_load {s : List UInt8} {addr n : Nat} (hzero : (0 : UInt8) ∉ s) (hs : s.length < n)
    (h : load mem addr (s.length + 1) = s ++ [0]) : strOf (load mem addr n) = some s := by
  have hpart := load_part mem addr (show 0 + (s.length + 1) ≤ n by omega)
  rw [Nat.add_zero, List.drop_zero, h] at hpart
  exact strOf_eq_some_iff.mpr ⟨hzero, hpart ▸ List.take_prefix _ _⟩

theorem strAt_eq_some {s : List UInt8} {addr : Nat} (hzero : (0 : UInt8) ∉ s)
    (hfits : addr + s.length < limit) (h : load mem addr (s.length + 1) = s ++ [0]) :
    strAt mem addr limit = some s :=
  strOf_load hzero (by omega) h

/-- Bytes without a zero are all part of the string. -/
theorem length_of_strAt {s : List UInt8} {addr n : Nat} (h : strAt mem addr limit = some s)
    (hn : addr + n ≤ limit) (hzero : (0 : UInt8) ∉ load mem addr n) : n ≤ s.length := by
  obtain ⟨-, hbegins⟩ := strOf_eq_some_iff.mp h
  by_contra hlt
  have hpart := load_part mem addr (show 0 + n ≤ limit - addr by omega)
  rw [Nat.add_zero, List.drop_zero] at hpart
  have hshort : s ++ [0] <+: load mem addr n := by
    rw [hpart]
    exact List.prefix_take_iff.mpr ⟨hbegins, by simp; omega⟩
  exact hzero (hshort.subset (by simp))

/-- A string that is short enough ends in an array of `n` bytes. -/
theorem strOf_array {s : List UInt8} {addr n : Nat} (h : strAt mem addr limit = some s)
    (hn : addr + n ≤ limit) (hs : s.length < n) : strOf (load mem addr n) = some s := by
  obtain ⟨hzero, hbegins⟩ := strOf_eq_some_iff.mp h
  have hpart := load_part mem addr (show 0 + n ≤ limit - addr by omega)
  rw [Nat.add_zero, List.drop_zero] at hpart
  rw [hpart]
  exact strOf_eq_some_iff.mpr ⟨hzero, List.prefix_take_iff.mpr ⟨hbegins, by simp; omega⟩⟩

end Copy

/-! ## Arrays one behind the other -/

/-- A copy to an array with room for `size` bytes and a zero. -/
structure Slot where
  dst : Nat
  size : Nat
  src : List UInt8

namespace Slot

/-- The source, cut at the room for it. -/
def cut (a : Slot) : List UInt8 := cString (a.src.take a.size)

/-- A zero comes in time to end the copy within the array. -/
def Ends (a : Slot) : Prop := (0 : UInt8) ∈ a.src.take (a.size + 1)

instance (a : Slot) : Decidable a.Ends := inferInstanceAs (Decidable (_ ∈ _))

def Has (a : Slot) (addr : Nat) : Prop := a.dst ≤ addr ∧ addr ≤ a.dst + a.size

/-- The string in the array. -/
def read (mem : Memory) (a : Slot) : Option (List UInt8) := strOf (load mem a.dst (a.size + 1))

end Slot

def copyAll (limit : Nat) : List Slot → Memory → Option Memory
  | [], mem => some mem
  | a :: slots, mem => (strcpy limit mem a.dst a.src).bind (copyAll limit slots)

/-- The arrays follow one another in a block that ends at `limit`. -/
structure Ascending (limit : Nat) (slots : List Slot) : Prop where
  before : slots.Pairwise fun a b => a.dst + a.size < b.dst
  fits : ∀ a ∈ slots, a.dst + a.size < limit

variable {limit : Nat} {slots : List Slot} {mem mem' : Memory}

theorem Ascending.tail {a : Slot} (h : Ascending limit (a :: slots)) : Ascending limit slots :=
  ⟨(List.pairwise_cons.mp h.before).2, fun b hb => h.fits b (List.mem_cons_of_mem _ hb)⟩

/-- Later copies leave what lies before all of them. -/
theorem copyAll_load (h : copyAll limit slots mem = some mem') {addr n : Nat}
    (hbefore : ∀ a ∈ slots, addr + n ≤ a.dst) : load mem' addr n = load mem addr n := by
  induction slots generalizing mem with
  | nil => rw [← Option.some.inj h]
  | cons a slots ih =>
    obtain ⟨mem₁, hcopy, hrest⟩ := Option.bind_eq_some_iff.mp h
    rw [ih hrest fun b hb => hbefore b (List.mem_cons_of_mem _ hb)]
    exact strcpy_load hcopy (hbefore a (List.mem_cons_self ..))

/-- A copy that ends within its array. -/
theorem strcpy_of_ends {a : Slot} (mem : Memory) (hends : a.Ends) (hfits : a.dst + a.size < limit) :
    strcpy limit mem a.dst a.src = some (store mem a.dst (a.cut ++ [0])) ∧
      a.cut.length ≤ a.size := by
  obtain ⟨hstr, hlen⟩ := strOf_of_mem_take hends
  refine ⟨?_, hlen⟩
  rw [strcpy, hstr, Option.bind_some, if_pos (by omega)]
  rfl

/-- If all copies end in time, every array holds its string, and nothing else has changed. -/
theorem copyAll_of_ends (horder : Ascending limit slots) (hends : ∀ a ∈ slots, a.Ends)
    (mem : Memory) : ∃ mem', copyAll limit slots mem = some mem' ∧
      (∀ a ∈ slots, strAt mem' a.dst limit = some a.cut) ∧
      ∀ addr, (∀ a ∈ slots, ¬ a.Has addr) → mem' addr = mem addr := by
  induction slots generalizing mem with
  | nil => exact ⟨mem, rfl, by simp, fun _ _ => rfl⟩
  | cons a slots ih =>
    have hfits := horder.fits a (List.mem_cons_self ..)
    obtain ⟨hcopy, hlen⟩ := strcpy_of_ends mem (hends a (List.mem_cons_self ..)) hfits
    obtain ⟨mem', hrest, hread, hsame⟩ := ih horder.tail
      (fun b hb => hends b (List.mem_cons_of_mem _ hb)) (store mem a.dst (a.cut ++ [0]))
    refine ⟨mem', ?_, ?_, ?_⟩
    · rw [copyAll, hcopy]
      exact hrest
    · intro b hb
      rcases List.mem_cons.mp hb with rfl | hb
      · have hlater : ∀ c ∈ slots, b.dst + (b.cut.length + 1) ≤ c.dst := fun c hc => by
          have hlt := (List.pairwise_cons.mp horder.before).1 c hc
          omega
        have hstored := load_store mem b.dst (b.cut ++ [0])
        rw [List.length_append, List.length_singleton] at hstored
        have hzero : (0 : UInt8) ∉ b.cut := zero_not_mem_cString _
        exact strAt_eq_some hzero (by omega) ((copyAll_load hrest hlater).trans hstored)
      · exact hread b hb
    · intro addr houtside
      rw [hsame addr fun b hb => houtside b (List.mem_cons_of_mem _ hb)]
      have hout := houtside a (List.mem_cons_self ..)
      refine store_outside mem ?_
      simp only [Slot.Has, not_and, not_le, List.length_append, List.length_singleton] at hout ⊢
      omega

/-- A copy that does not end in time fills its array, and no later one writes to it. -/
theorem copyAll_fills (horder : Ascending limit slots) (h : copyAll limit slots mem = some mem')
    {a : Slot} (ha : a ∈ slots) (hends : ¬ a.Ends) :
    load mem' a.dst (a.size + 1) = a.src.take (a.size + 1) := by
  induction slots generalizing mem with
  | nil => cases ha
  | cons b slots ih =>
    obtain ⟨mem₁, hcopy, hrest⟩ := Option.bind_eq_some_iff.mp h
    rcases List.mem_cons.mp ha with rfl | ha
    · obtain ⟨s, hs, hfits, rfl⟩ := strcpy_eq_some hcopy
      obtain ⟨-, hbegins⟩ := strOf_eq_some_iff.mp hs
      -- the array is filled with bytes of the source
      have hlong : a.size + 1 ≤ s.length := by
        by_contra hshort
        have hcut : s ++ [0] <+: a.src.take (a.size + 1) :=
          List.prefix_take_iff.mpr ⟨hbegins, by simp; omega⟩
        exact hends (hcut.subset (by simp))
      have hlater : ∀ c ∈ slots, a.dst + (a.size + 1) ≤ c.dst := fun c hc => by
        have hlt := (List.pairwise_cons.mp horder.before).1 c hc
        omega
      have hstored := load_store mem a.dst (s ++ [0])
      have hpart := load_part (store mem a.dst (s ++ [0])) a.dst
        (show 0 + (a.size + 1) ≤ (s ++ [0]).length by simp; omega)
      rw [hstored, Nat.add_zero, List.drop_zero] at hpart
      obtain ⟨rest, heq⟩ := hbegins
      rw [copyAll_load hrest hlater, hpart, ← heq]
      exact (List.take_append_of_le_length (by simp; omega)).symm
    · exact ih horder.tail hrest ha

theorem cut_length_le (a : Slot) : a.cut.length ≤ a.size :=
  (cString_length_le _).trans (List.length_take_le ..)

/-- Its array has no zero then. -/
theorem copyAll_of_not_ends (horder : Ascending limit slots)
    (h : copyAll limit slots mem = some mem') {a : Slot} (ha : a ∈ slots) (hends : ¬ a.Ends) :
    strAt mem' a.dst limit ≠ some a.cut := by
  intro hread
  have hfits := horder.fits a ha
  have hfilled := copyAll_fills horder h ha hends
  have hlength := length_of_strAt (n := a.size + 1) hread (by omega) (hfilled ▸ hends)
  have hcut := cut_length_le a
  omega

/-- What the arrays hold after all the copies. -/
theorem copyAll_read (horder : Ascending limit slots) (hends : ∀ a ∈ slots, a.Ends)
    (mem : Memory) : ∃ mem', copyAll limit slots mem = some mem' ∧
      (∀ a ∈ slots, a.read mem' = some a.cut) ∧
      ∀ addr, (∀ a ∈ slots, ¬ a.Has addr) → mem' addr = mem addr := by
  obtain ⟨mem', hcopy, hread, hsame⟩ := copyAll_of_ends horder hends mem
  refine ⟨mem', hcopy, fun a ha => ?_, hsame⟩
  have hfits := horder.fits a ha
  exact strOf_array (hread a ha) (by omega) (Nat.lt_succ_of_le (cut_length_le a))

theorem read_of_not_ends (horder : Ascending limit slots)
    (h : copyAll limit slots mem = some mem') {a : Slot} (ha : a ∈ slots) (hends : ¬ a.Ends) :
    a.read mem' = none := by
  rw [Slot.read, copyAll_fills horder h ha hends]
  exact if_neg hends

/-- A whole string as the source. -/
theorem Slot.ends_iff {a : Slot} {s : List UInt8} (hsrc : a.src = s ++ [0])
    (hzero : (0 : UInt8) ∉ s) : a.Ends ↔ s.length ≤ a.size := by
  rw [Slot.Ends, hsrc]
  constructor
  · intro hmem
    by_contra hlong
    rw [List.take_append_of_le_length (by omega)] at hmem
    exact hzero (List.mem_of_mem_take hmem)
  · intro hshort
    rw [List.take_of_length_le (by simp; omega)]
    simp

theorem Slot.cut_eq {a : Slot} {s : List UInt8} (hsrc : a.src = s ++ [0])
    (hzero : (0 : UInt8) ∉ s) (h : s.length ≤ a.size) : a.cut = s := by
  have hall : s.takeWhile (· ≠ 0) = s := cString_eq_self hzero
  have hrest : ([0] : List UInt8).take (a.size - s.length) = [] ∨
      ([0] : List UInt8).take (a.size - s.length) = [0] := by
    cases a.size - s.length <;> simp
  rw [Slot.cut, hsrc, List.take_append, List.take_of_length_le h, cString,
    List.takeWhile_append, hall, if_pos rfl]
  rcases hrest with hrest | hrest <;> simp [hrest]

/-! ## Characters -/

/-- The bytes of a string, without the zero that ends it in memory. -/
def stringBytes (s : String) : List UInt8 := s.toByteArray.data.toList

@[simp] theorem stringBytes_length (s : String) : (stringBytes s).length = s.utf8ByteSize := rfl

theorem stringBytes_eq (s : String) : stringBytes s = s.toList.flatMap String.utf8EncodeChar := by
  have hencode : s.toByteArray = s.toList.utf8Encode := by
    rw [← String.toByteArray_ofList, String.ofList_toList]
  simp [stringBytes, hencode, List.utf8Encode]

theorem zero_eq_ofNat (n : Nat) : (0 : UInt8) = UInt8.ofNat n ↔ n % 256 = 0 := by
  rw [← UInt8.toNat_inj, UInt8.toNat_ofNat']
  exact eq_comm

/-- Only the character 0 has a zero byte. -/
theorem zero_mem_utf8EncodeChar (c : Char) :
    (0 : UInt8) ∈ String.utf8EncodeChar c ↔ c = Char.ofNat 0 := by
  have hval : c = Char.ofNat 0 ↔ c.val.toNat = 0 := by
    constructor
    · rintro rfl
      rfl
    · exact fun h => Char.ext (UInt32.toNat_inj.mp h)
  rw [hval]
  unfold String.utf8EncodeChar
  simp only
  -- one case for each length of the encoding
  repeat' split
  all_goals
    simp only [List.mem_cons, List.not_mem_nil, or_false, zero_eq_ofNat]
    omega

theorem zero_mem_stringBytes (s : String) :
    (0 : UInt8) ∈ stringBytes s ↔ Char.ofNat 0 ∈ s.toList := by
  simp [stringBytes_eq, List.mem_flatMap, zero_mem_utf8EncodeChar]

end DclProcessor.Bytes
