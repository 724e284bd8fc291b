import Mathlib.Data.List.Chain
import Mathlib.Data.Nat.ModEq

/-!
Stretches of numbers, each of which is counted from a base one after the base of the stretch
before it. When no number is followed by the same one modulo `m`.
-/

namespace DclProcessor.Stretch

/-- The numbers of the stretches, whose members are given by their places behind the base. -/
def numbers (c : Nat) : List (List Nat) → List Nat
  | [] => []
  | ps :: pss => ps.map (c + ·) ++ numbers (c + 1) pss

/-- Neighbours are not the same modulo `m`. -/
def Distinct (m : Nat) (ns : List Nat) : Prop := ns.IsChain fun a b => a % m ≠ b % m

/-- The first member of some stretches, from the base before them on. -/
def next : List (List Nat) → Option Nat
  | [] => none
  | [] :: pss => (next pss).map (· + 1)
  | (q :: _) :: _ => some (q + 1)

/-- The last place of a stretch is not the first one behind it. -/
def Spaced (m : Nat) : List (List Nat) → Prop
  | [] => True
  | ps :: pss => (∀ p ∈ ps.getLast?, ∀ q ∈ next pss, p % m ≠ q % m) ∧ Spaced m pss

variable {m : Nat}

theorem mod_ne_of_lt {a b : Nat} (hlt : a < b) (hnear : b < a + m) : a % m ≠ b % m := by
  intro h
  have hzero := Nat.sub_mod_eq_zero_of_mod_eq h.symm
  rw [Nat.mod_eq_of_lt (by omega)] at hzero
  omega

theorem add_mod_ne_iff (c a b : Nat) : (c + a) % m ≠ (c + b) % m ↔ a % m ≠ b % m := by
  have hcancel : c + a ≡ c + b [MOD m] ↔ a ≡ b [MOD m] :=
    ⟨Nat.ModEq.add_left_cancel' c, Nat.ModEq.add_left c⟩
  exact not_congr hcancel

theorem distinct_map_iff (c : Nat) (ns : List Nat) :
    Distinct m (ns.map (c + ·)) ↔ Distinct m ns := by
  rw [Distinct, List.isChain_map]
  simp only [add_mod_ne_iff]
  rfl

theorem head_numbers (c : Nat) (pss : List (List Nat)) :
    (numbers (c + 1) pss).head? = (next pss).map (c + ·) := by
  induction pss generalizing c with
  | nil => rfl
  | cons ps pss ih =>
    cases ps with
    | nil =>
      rw [numbers, List.map_nil, List.nil_append, ih, next, Option.map_map]
      congr 1
      funext q
      simp only [Function.comp_apply]
      omega
    | cons q ps =>
      rw [numbers, next, List.map_cons, List.cons_append, List.head?_cons, Option.map_some]
      congr 1
      omega

/-- **Neighbours differ** exactly if the stretches are spaced. -/
theorem distinct_numbers_iff {pss : List (List Nat)} (hpss : ∀ ps ∈ pss, Distinct m ps) (c : Nat) :
    Distinct m (numbers c pss) ↔ Spaced m pss := by
  induction pss generalizing c with
  | nil => exact iff_of_true List.isChain_nil trivial
  | cons ps pss ih =>
    have hself : Distinct m (ps.map (c + ·)) :=
      (distinct_map_iff c ps).mpr (hpss ps (List.mem_cons_self ..))
    have hrest := ih (fun qs hqs => hpss qs (List.mem_cons_of_mem _ hqs)) (c + 1)
    rw [numbers, Spaced, ← hrest, Distinct, List.isChain_append, ← Distinct, ← Distinct,
      and_iff_right hself, and_comm, head_numbers, List.getLast?_map]
    refine and_congr_left fun _ => ?_
    simp only [Option.mem_map, forall_exists_index, and_imp, forall_apply_eq_imp_iff₂,
      add_mod_ne_iff]

end DclProcessor.Stretch
