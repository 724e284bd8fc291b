import DclProcessor.Library.Bytes
import Mathlib.Logic.Function.Basic

/-!
Bytes at addresses: what a store changes, and what a load of the same or of another
range then gives.
-/

namespace DclProcessor.Bytes

/-- The byte at every address. -/
abbrev Memory := Nat → UInt8

def store (mem : Memory) (addr : Nat) : List UInt8 → Memory
  | [] => mem
  | b :: bs => Function.update (store mem (addr + 1) bs) addr b

def load (mem : Memory) (addr : Nat) : Nat → List UInt8
  | 0 => []
  | n + 1 => mem addr :: load mem (addr + 1) n

@[simp] theorem load_length (mem : Memory) (addr n : Nat) : (load mem addr n).length = n := by
  induction n generalizing addr with
  | zero => rfl
  | succ n ih => rw [load, List.length_cons, ih]

/-- Two ranges with the same bytes, in two memories. -/
theorem load_congr_at {mem mem' : Memory} {addr addr' n : Nat}
    (h : ∀ i < n, mem (addr + i) = mem' (addr' + i)) : load mem addr n = load mem' addr' n := by
  induction n generalizing addr addr' with
  | zero => rfl
  | succ n ih =>
    have hnext : ∀ i < n, mem (addr + 1 + i) = mem' (addr' + 1 + i) := fun i hi => by
      rw [Nat.add_assoc, Nat.add_assoc, Nat.add_comm 1]
      exact h (i + 1) (by omega)
    rw [load, load, ← Nat.add_zero addr, h 0 (Nat.succ_pos n), Nat.add_zero, Nat.add_zero,
      ih hnext]

theorem load_congr {mem mem' : Memory} {addr n : Nat}
    (h : ∀ a, addr ≤ a → a < addr + n → mem a = mem' a) : load mem addr n = load mem' addr n :=
  load_congr_at fun i hi => h (addr + i) (by omega) (by omega)

theorem load_add (mem : Memory) (addr n k : Nat) :
    load mem addr (n + k) = load mem addr n ++ load mem (addr + n) k := by
  induction n generalizing addr with
  | zero => simp [load]
  | succ n ih =>
    have hnext : addr + (n + 1) = addr + 1 + n := by omega
    rw [Nat.succ_add, load, ih, load, List.cons_append, hnext]

/-- A part of a loaded range. -/
theorem load_part (mem : Memory) (addr : Nat) {i k n : Nat} (h : i + k ≤ n) :
    load mem (addr + i) k = ((load mem addr n).drop i).take k := by
  induction n generalizing addr i k with
  | zero =>
    obtain ⟨rfl, rfl⟩ : i = 0 ∧ k = 0 := by omega
    rfl
  | succ n ih =>
    cases i with
    | succ i =>
      rw [load, List.drop_succ_cons, ← ih (addr + 1) (by omega)]
      congr 1
      omega
    | zero =>
      cases k with
      | zero => rfl
      | succ k =>
        have htail := ih (addr + 1) (by omega : 0 + k ≤ n)
        rw [Nat.add_zero, List.drop_zero] at htail
        rw [Nat.add_zero, List.drop_zero, load, load, List.take_succ_cons, htail]

/-- A store leaves what is outside its range. -/
theorem store_outside (mem : Memory) {addr a : Nat} {bs : List UInt8}
    (h : a < addr ∨ addr + bs.length ≤ a) : store mem addr bs a = mem a := by
  induction bs generalizing addr with
  | nil => rfl
  | cons b bs ih =>
    rw [List.length_cons] at h
    rw [store, Function.update_of_ne (by omega), ih (by omega)]

/-- A load of the stored range. -/
theorem load_store (mem : Memory) (addr : Nat) (bs : List UInt8) :
    load (store mem addr bs) addr bs.length = bs := by
  induction bs generalizing addr with
  | nil => rfl
  | cons b bs ih =>
    have hrest : load (store mem addr (b :: bs)) (addr + 1) bs.length =
        load (store mem (addr + 1) bs) (addr + 1) bs.length :=
      load_congr fun a hlow _ => Function.update_of_ne (by omega) ..
    rw [List.length_cons, load, hrest, ih, store, Function.update_self]

theorem load_stored {mem : Memory} {bs : List UInt8} {n : Nat} (h : bs.length = n) (addr : Nat) :
    load (store mem addr bs) addr n = bs := by
  rw [← h, load_store]

/-- A load of a range that the store does not meet. -/
theorem load_store_of_disjoint (mem : Memory) {addr n addr' : Nat} {bs : List UInt8}
    (h : addr + n ≤ addr' ∨ addr' + bs.length ≤ addr) :
    load (store mem addr' bs) addr n = load mem addr n :=
  load_congr fun _ hlow hhigh => store_outside mem (by omega)

end DclProcessor.Bytes
