import DclProcessor.Description.Parse
import Mathlib.Data.List.TakeWhile

/-!
What json-c promises of the values that the parsers ask it for.
-/

namespace DclProcessor.Description

/-- The range of `int`. -/
def IntRange (n : Int) : Prop := -2 ^ 31 ≤ n ∧ n < 2 ^ 31

instance (n : Int) : Decidable (IntRange n) := inferInstanceAs (Decidable (_ ∧ _))

/-- The `int` of a number: the ends of the range stand for what lies beyond them. -/
def toInt (n : Int) : Int := max (-2 ^ 31) (min n (2 ^ 31 - 1))

/-- A C string does not contain the character that ends it. -/
def IsCString (s : String) : Prop := Char.ofNat 0 ∉ s.toList

instance (s : String) : Decidable (IsCString s) := inferInstanceAs (Decidable (_ ∉ _))

/-- What json-c promises of its accessors. -/
structure JsonC.Lawful (C : JsonC) : Prop where
  getInt_range : ∀ j, IntRange (C.getInt j)
  getInt_int : ∀ n, C.getInt (.int n) = toInt n
  getString_isCString : ∀ j, IsCString (C.getString j)
  getString_string : ∀ s, IsCString s → C.getString (.string s) = s

theorem toInt_range (n : Int) : IntRange (toInt n) := by
  rw [IntRange, toInt]
  omega

theorem toInt_of_range {n : Int} (h : IntRange n) : toInt n = n := by
  obtain ⟨hlow, hhigh⟩ := h
  rw [toInt]
  omega

theorem JsonC.Lawful.getInt_of_range {C : JsonC} (hC : C.Lawful) {n : Int} (h : IntRange n) :
    C.getInt (.int n) = n := by
  rw [hC.getInt_int, toInt_of_range h]

theorem JsonC.Lawful.intMember_range {C : JsonC} (hC : C.Lawful) (jobj : Json) (key : String)
    {default : Int} (h : IntRange default) : IntRange (intMember C jobj key default) := by
  rw [intMember]
  split
  · exact h
  · exact hC.getInt_range _

/-- json-c on numbers and strings. -/
def cuttingC : JsonC where
  getInt
    | .int n => toInt n
    | _ => 0
  getString
    | .string s => String.ofList (s.toList.takeWhile (· ≠ Char.ofNat 0))
    | _ => ""
  toJsonString _ := ""
  tokenerParse _ := .null

theorem cuttingC_lawful : cuttingC.Lawful where
  getInt_range j := by
    cases j with
    | int n => exact toInt_range n
    | null | bool | double | string | array | object => exact (by decide : IntRange 0)
  getInt_int _ := rfl
  getString_isCString j := by
    cases j with
    | string s =>
      simp only [cuttingC, IsCString, String.toList_ofList]
      intro hmem
      simpa using List.mem_takeWhile_imp hmem
    | null | bool | int | double | array | object => exact (by decide : IsCString "")
  getString_string s h := by
    have hall : s.toList.takeWhile (· ≠ Char.ofNat 0) = s.toList :=
      List.takeWhile_eq_self_iff.mpr fun c hc => by
        simpa using fun hc' : c = Char.ofNat 0 => h (hc' ▸ hc)
    simp only [cuttingC, hall, String.ofList_toList]

end DclProcessor.Description
