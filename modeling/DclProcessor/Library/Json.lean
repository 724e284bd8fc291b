import Mathlib.Data.List.Basic

/-!
JSON values as a library that has no value for `null` hands them out: a member that is
absent and one that is `null` look alike.
-/

namespace DclProcessor

inductive Json where
  | null
  | bool (b : Bool)
  | int (n : Int)
  | double (text : String)
  | string (s : String)
  | array (elems : List Json)
  | object (members : List (String × Json))

namespace Json

def isNull : Json → Bool
  | null => true
  | _ => false

/-- Replace the member with a name, or put it behind the others. -/
def insert (key : String) (val : Json) : List (String × Json) → List (String × Json)
  | [] => [(key, val)]
  | (k, v) :: rest => if k = key then (k, val) :: rest else (k, v) :: insert key val rest

def find (key : String) : List (String × Json) → Json
  | [] => null
  | (k, v) :: rest => if k = key then v else find key rest

/-- The member of an object; nothing has no members. -/
def get (j : Json) (key : String) : Json :=
  match j with
  | object members => find key members
  | _ => null

/-- Set the member of an object; nothing else has members to set. -/
def set (j : Json) (key : String) (val : Json) : Option Json :=
  match j with
  | object members => some (object (insert key val members))
  | _ => none

theorem find_insert_self (key : String) (val : Json) (members : List (String × Json)) :
    find key (insert key val members) = val := by
  induction members with
  | nil => simp [insert, find]
  | cons member rest ih =>
    obtain ⟨k, v⟩ := member
    rw [insert]
    split
    case isTrue hk => rw [find, if_pos hk]
    case isFalse hk => rw [find, if_neg hk, ih]

theorem find_insert_of_ne {key other : String} (h : other ≠ key) (val : Json)
    (members : List (String × Json)) : find other (insert key val members) = find other members := by
  induction members with
  | nil => simp [insert, find, h.symm]
  | cons member rest ih =>
    obtain ⟨k, v⟩ := member
    rw [insert]
    split
    case isTrue hk => rw [find, find, if_neg (hk ▸ h.symm), if_neg (hk ▸ h.symm)]
    case isFalse hk => rw [find, find, ih]

/-- The members of an object after one of them was set. -/
theorem get_set {key : String} {val j j' : Json} (h : j.set key val = some j') :
    j'.get key = val ∧ ∀ other, other ≠ key → j'.get other = j.get other := by
  cases j with
  | object members =>
    obtain rfl : object (insert key val members) = j' := Option.some.inj h
    exact ⟨find_insert_self key val members, fun other hne => find_insert_of_ne hne val members⟩
  | null | bool | int | double | string | array => cases h

end Json

end DclProcessor
