import Mathlib.Data.List.Basic

/-!
Stages that judge the items of a stream one after the other and pass on the ones
they accept. An item without a verdict yet is neither passed on nor lost, so what
leaves a line of stages is a prefix of what survives all verdicts.
-/

namespace DclProcessor.Stage

variable {α ρ : Type*} (keep : ρ → Bool)

/-- The items without those whose verdict is a rejection; the `n`-th verdict is
about the `n`-th item. -/
def survivors : List α → List ρ → List α
  | [], _ => []
  | xs, [] => xs
  | x :: xs, r :: rs => if keep r then x :: survivors xs rs else survivors xs rs

/-- The items a stage has accepted, from the items with their verdicts. -/
def accepted (judged : List (α × ρ)) : List α := (judged.filter fun p => keep p.2).map Prod.fst

@[simp] theorem survivors_nil (xs : List α) : survivors keep xs [] = xs := by
  cases xs <;> rfl

theorem survivors_append (xs ys : List α) (rs : List ρ) :
    survivors keep (xs ++ ys) rs = survivors keep xs rs ++ survivors keep ys (rs.drop xs.length) := by
  induction xs generalizing rs with
  | nil => simp [survivors]
  | cons x xs ih =>
    cases rs with
    | nil => simp
    | cons r rs =>
      simp only [List.cons_append, survivors, ih, List.length_cons, List.drop_succ_cons]
      split <;> rfl

theorem survivors_mono {xs ys : List α} (rs : List ρ) (h : xs <+: ys) :
    survivors keep xs rs <+: survivors keep ys rs := by
  obtain ⟨zs, rfl⟩ := h
  rw [survivors_append]
  exact List.prefix_append _ _

theorem survivors_sublist (xs : List α) (rs : List ρ) : (survivors keep xs rs).Sublist xs := by
  induction xs generalizing rs with
  | nil => simp [survivors]
  | cons x xs ih =>
    cases rs with
    | nil => simp
    | cons r rs =>
      simp only [survivors]
      split
      · exact (ih rs).cons_cons x
      · exact (ih rs).cons x

theorem survivors_judged (judged : List (α × ρ)) (rest : List α) :
    survivors keep (judged.map Prod.fst ++ rest) (judged.map Prod.snd) =
      accepted keep judged ++ rest := by
  induction judged with
  | nil => simp [accepted]
  | cons p judged ih =>
    obtain ⟨x, r⟩ := p
    simp only [List.map_cons, List.cons_append, survivors, ih, accepted]
    cases hk : keep r <;> simp [hk]

/-- What is left of a stream after the verdicts of the first `n` stages. -/
def through (verdicts : Nat → List ρ) (xs : List α) : Nat → List α
  | 0 => xs
  | n + 1 => survivors keep (through verdicts xs n) (verdicts n)

theorem through_sublist (verdicts : Nat → List ρ) (xs : List α) (n : Nat) :
    (through keep verdicts xs n).Sublist xs := by
  induction n with
  | zero => exact List.Sublist.refl xs
  | succ n ih => exact (survivors_sublist keep _ _).trans ih

/-- A line of stages, each reading a prefix of what the one before it lets pass. -/
theorem prefix_through {verdicts : Nat → List ρ} {xs : List α} (input : Nat → List α) {n : Nat}
    (h0 : input 0 <+: xs)
    (hstage : ∀ k < n, input (k + 1) <+: survivors keep (input k) (verdicts k)) :
    input n <+: through keep verdicts xs n := by
  induction n with
  | zero => exact h0
  | succ n ih =>
    have hprev := ih fun k hk => hstage k (by omega)
    exact (hstage n (by omega)).trans (survivors_mono keep _ hprev)

/-! ## Stages that compute -/

end DclProcessor.Stage
