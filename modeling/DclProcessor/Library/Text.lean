import Mathlib.Data.List.DropRight
import Mathlib.Data.List.Infix

/-!
Words in a text with separators: a word without the separator stands on one side of it,
and what follows the last separator.
-/

namespace DclProcessor.Text

variable {α : Type*}

/-- A word without the separator does not reach across it. -/
theorem infix_separator_iff {sep : α} {word xs ys : List α} (hsep : sep ∉ word)
    (hne : word ≠ []) : word <:+: xs ++ sep :: ys ↔ word <:+: xs ∨ word <:+: ys := by
  constructor
  · rintro ⟨s, t, h⟩
    rw [List.append_assoc] at h
    rcases List.append_eq_append_iff.mp h with ⟨x, rfl, hx⟩ | ⟨x, rfl, hx⟩
    · left
      rcases List.append_eq_append_iff.mp hx with ⟨y, rfl, -⟩ | ⟨y, rfl, hy⟩
      · exact ⟨s, y, by simp⟩
      · cases y with
        | nil => exact ⟨s, [], by simp⟩
        | cons b y =>
          obtain rfl : sep = b := (List.cons.inj hy).1
          exact absurd (by simp) hsep
    · cases x with
      | nil =>
        obtain ⟨b, word', rfl⟩ := List.exists_cons_of_ne_nil hne
        obtain rfl : sep = b := (List.cons.inj hx).1
        exact absurd (by simp) hsep
      | cons b x =>
        right
        obtain ⟨-, rfl⟩ := List.cons.inj hx
        exact ⟨x, t, by simp⟩
  · rintro (h | h)
    · exact h.trans ⟨[], sep :: ys, by simp⟩
    · exact h.trans ⟨xs ++ [sep], [], by simp⟩

/-- What stands after the last separator, and before it. -/
theorem rtakeWhile_separator [DecidableEq α] {sep : α} (xs : List α) {ys : List α}
    (h : sep ∉ ys) : (xs ++ sep :: ys).rtakeWhile (· ≠ sep) = ys ∧
      (xs ++ sep :: ys).rdropWhile (· ≠ sep) = xs ++ [sep] := by
  induction ys using List.reverseRecOn with
  | nil => simp [List.rtakeWhile_concat_neg, List.rdropWhile_concat_neg]
  | append_singleton ys y ih =>
    have hy : y ≠ sep := fun hy => h (by simp [hy])
    obtain ⟨htake, hdrop⟩ := ih fun hmem => h (List.mem_append_left _ hmem)
    have hsplit : xs ++ sep :: (ys ++ [y]) = (xs ++ sep :: ys) ++ [y] := by simp
    rw [hsplit, List.rtakeWhile_concat_pos _ _ _ (by simpa using hy),
      List.rdropWhile_concat_pos _ _ _ (by simpa using hy), htake, hdrop]
    exact ⟨rfl, rfl⟩

end DclProcessor.Text
