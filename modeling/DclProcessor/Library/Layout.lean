import Mathlib.Data.List.Basic

/-!
Blocks of memory that lie one behind the other, each followed by what a rounding adds to
its length.
-/

namespace DclProcessor.Layout

/-- `len` addresses from `start` on. -/
structure Block where
  start : Nat
  len : Nat
  deriving DecidableEq

namespace Block

def Has (b : Block) (a : Nat) : Prop := b.start ≤ a ∧ a < b.start + b.len

/-- No address is in both blocks. -/
def Apart (b c : Block) : Prop := ∀ a, b.Has a → ¬ c.Has a

/-- The block ends before the other one begins. -/
def Before (b c : Block) : Prop := b.start + b.len ≤ c.start

def Within (b c : Block) : Prop := c.start ≤ b.start ∧ b.start + b.len ≤ c.start + c.len

variable {b c : Block}

theorem Before.apart (h : b.Before c) : b.Apart c := by
  rintro a ⟨-, hb⟩ ⟨hc, -⟩
  unfold Before at h
  omega

theorem Apart.symm (h : b.Apart c) : c.Apart b := fun a hc hb => h a hb hc

end Block

open Block

variable (round : Nat → Nat)

/-- Blocks of these lengths from `start` on. -/
def place (start : Nat) : List Nat → List Block
  | [] => []
  | len :: lens => ⟨start, len⟩ :: place (start + round len) lens

/-- The room that they take. -/
def extent : List Nat → Nat
  | [] => 0
  | len :: lens => round len + extent lens

variable {round}

theorem start_le_of_mem {start : Nat} {lens : List Nat} {b : Block}
    (h : b ∈ place round start lens) : start ≤ b.start := by
  induction lens generalizing start with
  | nil => cases h
  | cons len lens ih =>
    rcases List.mem_cons.mp h with rfl | hrest
    · exact Nat.le_refl _
    · have htail := ih hrest
      omega

/-- A rounding that does not cut leaves every block before those behind it. -/
theorem place_before (hround : ∀ n, n ≤ round n) (start : Nat) (lens : List Nat) :
    (place round start lens).Pairwise Before := by
  induction lens generalizing start with
  | nil => exact .nil
  | cons len lens ih =>
    refine .cons (fun b hb => ?_) (ih _)
    have hstart := start_le_of_mem hb
    have hlen := hround len
    unfold Before
    simp only
    omega

theorem place_within (hround : ∀ n, n ≤ round n) {start : Nat} {lens : List Nat} {b : Block}
    (h : b ∈ place round start lens) : b.Within ⟨start, extent round lens⟩ := by
  induction lens generalizing start with
  | nil => cases h
  | cons len lens ih =>
    have hlen := hround len
    rw [extent]
    rcases List.mem_cons.mp h with rfl | hrest
    · exact ⟨Nat.le_refl _, by simp only; omega⟩
    · obtain ⟨hlow, hhigh⟩ := ih hrest
      exact ⟨by simp only at hlow ⊢; omega, by simp only at hhigh ⊢; omega⟩

theorem place_aligned {d : Nat} (hround : ∀ n, d ∣ round n) {start : Nat} (hstart : d ∣ start)
    {lens : List Nat} {b : Block} (h : b ∈ place round start lens) : d ∣ b.start := by
  induction lens generalizing start with
  | nil => cases h
  | cons len lens ih =>
    rcases List.mem_cons.mp h with rfl | hrest
    · exact hstart
    · exact ih (Nat.dvd_add hstart (hround len)) hrest

/-! ## Blocks of one length -/

theorem array_before {start len i j : Nat} (hij : i < j) :
    (⟨start + i * len, len⟩ : Block).Before ⟨start + j * len, len⟩ := by
  have hmul : (i + 1) * len ≤ j * len := Nat.mul_le_mul_right _ hij
  rw [Nat.succ_mul] at hmul
  unfold Before
  simp only
  omega

theorem array_within {start n len i : Nat} (hi : i < n) :
    (⟨start + i * len, len⟩ : Block).Within ⟨start, n * len⟩ := by
  have hmul : (i + 1) * len ≤ n * len := Nat.mul_le_mul_right _ hi
  rw [Nat.succ_mul] at hmul
  constructor <;> simp only <;> omega

end DclProcessor.Layout
