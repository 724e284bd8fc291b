import Mathlib.Algebra.Ring.Int.Defs
import Mathlib.Order.Interval.Finset.Nat
import Mathlib.Tactic.Ring

/-!
A table that is gone through from slot to slot, again and again. A counter with a sign is
reduced to a remainder, and the remainder times the size of a slot is added to the address of
the table, in words of `w` bits.
-/

namespace DclProcessor.SlotTable

variable {w : Nat}

/-- The address of slot `i`. -/
def slot (base : BitVec w) (size i : Nat) : BitVec w := base + BitVec.ofNat w (i * size)

/-- The addresses of a table with `m` slots. -/
def slots (base : BitVec w) (size m : Nat) : List (BitVec w) := (List.range m).map (slot base size)

/-- The address for a remainder, which may be below zero. -/
def address (base : BitVec w) (size : Nat) (r : Int) : BitVec w :=
  base + BitVec.ofInt w r * BitVec.ofNat w size

/-! ## Remainders -/

section Remainder

variable {m : Nat} {c : Int}

/-- A remainder that takes the sign of the counter is one of a slot, or is below zero. -/
theorem tmod_nonneg_iff : 0 ≤ c.tmod m ↔ 0 ≤ c ∨ (m : Int) ∣ c := by
  constructor
  · intro hrem
    by_contra hnot
    obtain ⟨hneg, hndvd⟩ := not_or.mp hnot
    -- the remainder of the opposite is above zero
    have hopposite : 0 ≤ (-c).tmod m := Int.tmod_nonneg _ (by omega)
    rw [Int.neg_tmod] at hopposite
    exact hndvd (Int.dvd_of_tmod_eq_zero (by omega))
  · rintro (hc | hdvd)
    · exact Int.tmod_nonneg _ hc
    · rw [Int.tmod_eq_zero_of_dvd hdvd]

theorem tmod_natCast (n : Nat) : ((n : Int).tmod m) = (n % m : Nat) := by
  rw [Int.tmod_eq_emod_of_nonneg (Int.natCast_nonneg n)]
  exact (Int.natCast_mod n m).symm

/-- Consecutive counters go through all remainders. -/
theorem map_mod_perm (n m : Nat) : ((List.range' n m).map (· % m)).Perm (List.range m) := by
  have hall : ((List.range' n (n + m - n) : Multiset Nat)).map (· % m) = Multiset.range m :=
    Nat.multiset_Ico_map_mod n m
  rw [Nat.add_sub_cancel_left, Multiset.map_coe] at hall
  exact Multiset.coe_eq_coe.mp hall

end Remainder

/-! ## Addresses -/

section Address

variable {base : BitVec w} {size m : Nat}

/-- Where a slot begins in its table. -/
theorem slot_sub (base : BitVec w) {i : Nat} (h : i * size < 2 ^ w) :
    (slot base size i - base).toNat = i * size := by
  rw [slot, BitVec.add_comm, BitVec.add_sub_cancel, BitVec.toNat_ofNat, Nat.mod_eq_of_lt h]

theorem slot_lt {i : Nat} (hi : i < m) (hfits : m * size ≤ 2 ^ w) (hsize : 0 < size) :
    i * size < 2 ^ w :=
  (Nat.mul_lt_mul_of_pos_right hi hsize).trans_le hfits

theorem slots_nodup (hsize : 0 < size) (hfits : m * size ≤ 2 ^ w) : (slots base size m).Nodup := by
  refine List.Nodup.map_on ?_ List.nodup_range
  intro i hi j hj heq
  have hi := slot_lt (List.mem_range.mp hi) hfits hsize
  have hj := slot_lt (List.mem_range.mp hj) hfits hsize
  have hoff := congrArg (fun p => (p - base).toNat) heq
  simp only [slot_sub base hi, slot_sub base hj] at hoff
  exact Nat.eq_of_mul_eq_mul_right hsize hoff

theorem address_natCast (n : Nat) : address base size n = slot base size n := by
  rw [address, slot, BitVec.ofInt_natCast, BitVec.ofNat_mul]

/-- Words are equal only if the distance of their numbers is a multiple of all words. -/
theorem dvd_sub_of_ofInt_eq {a b : Int} (h : BitVec.ofInt w a = BitVec.ofInt w b) :
    ((2 ^ w : Nat) : Int) ∣ a - b := by
  have hpos : ((2 ^ w : Nat) : Int) ≠ 0 := Int.natCast_ne_zero.mpr (Nat.two_pow_pos w).ne'
  have hnat := congrArg BitVec.toNat h
  rw [BitVec.toNat_ofInt, BitVec.toNat_ofInt] at hnat
  have hmod : a % (2 ^ w : Nat) = b % (2 ^ w : Nat) := by
    have ha := Int.emod_nonneg a hpos
    have hb := Int.emod_nonneg b hpos
    omega
  exact Int.dvd_of_emod_eq_zero (Int.emod_eq_emod_iff_emod_sub_eq_zero.mp hmod)

/-- Numbers below zero lie before the table, as far as it is long. -/
theorem address_mem_iff (hsize : 0 < size) (hfits : 2 * (m * size) ≤ 2 ^ w) {r : Int}
    (hlow : -m < r) (hhigh : r < m) : address base size r ∈ slots base size m ↔ 0 ≤ r := by
  constructor
  · intro hmem
    obtain ⟨i, hi, heq⟩ := List.mem_map.mp hmem
    have hi := List.mem_range.mp hi
    by_contra hneg
    obtain ⟨k, rfl⟩ : ∃ k : Nat, r = -k := ⟨r.natAbs, by omega⟩
    have hwords : BitVec.ofInt w (i * size) = BitVec.ofInt w (-k * size) := by
      rw [BitVec.ofInt_mul, BitVec.ofInt_mul, BitVec.ofInt_natCast, BitVec.ofInt_natCast,
        ← BitVec.ofNat_mul]
      exact (BitVec.add_right_inj base).mp heq
    -- the distance between them is not zero, and less than all addresses
    have hdvd := dvd_sub_of_ofInt_eq hwords
    have hdistance : (i * size : Int) - -k * size = ((i + k) * size : Nat) := by
      push_cast
      ring
    rw [hdistance, Int.natCast_dvd_natCast] at hdvd
    have hlt : (i + k) * size < 2 * (m * size) := by
      rw [← Nat.mul_assoc]
      exact Nat.mul_lt_mul_of_pos_right (by omega) hsize
    have hle := Nat.le_of_dvd (Nat.mul_pos (by omega) hsize) hdvd
    omega
  · intro hpos
    obtain ⟨n, rfl⟩ := Int.eq_ofNat_of_zero_le hpos
    rw [address_natCast]
    exact List.mem_map_of_mem (List.mem_range.mpr (by omega))

/-- As many consecutive counters as there are slots go through the table. -/
theorem addresses_perm (base : BitVec w) (size n m : Nat) :
    ((List.range' n m).map fun c : Nat => address base size ((c : Int).tmod m)).Perm
      (slots base size m) := by
  have hslots := (map_mod_perm n m).map (slot base size)
  rw [List.map_map] at hslots
  refine (List.Perm.of_eq ?_).trans hslots
  refine List.map_congr_left fun c _ => ?_
  rw [tmod_natCast, address_natCast]
  rfl

end Address

end DclProcessor.SlotTable
