import Mathlib.Data.Finset.Card
import Mathlib.Data.Fintype.Pigeonhole

/-!
Successor links over a finite set of places. `line_iff` says when the links form one
path over the whole set: nothing leads to the first place, no two places have the same
successor, there is no cycle, and only the last place is without a successor.
-/

namespace DclProcessor.Successor

variable {α : Type*} (next : α → Option α)

/-- `k` links on from a place. -/
def follow : Nat → α → Option α
  | 0, a => some a
  | k + 1, a => (next a).bind (follow k)

/-- The links lead from `first` once through every place of `V`, and only `last` has no
successor. -/
structure Line (V : Finset α) (first last : α) : Prop where
  visits : ∀ a ∈ V, ∃! k, follow next k first = some a
  ends : ∀ a ∈ V, next a = none ↔ a = last

/-- Two places with the same successor. -/
def Merges (V : Finset α) : Prop := ∃ a ∈ V, ∃ b ∈ V, a ≠ b ∧ next a = next b ∧ next a ≠ none

/-- The links lead from a place back to it. -/
def Cycles (V : Finset α) : Prop := ∃ a ∈ V, ∃ k, follow next (k + 1) a = some a

variable {next}

theorem follow_add (m n : Nat) (a : α) :
    follow next (m + n) a = (follow next m a).bind (follow next n) := by
  induction m generalizing a with
  | zero => simp [follow]
  | succ m ih =>
    rw [Nat.succ_add]
    cases hn : next a with
    | none => simp [follow, hn]
    | some b => simp [follow, hn, ih]

theorem follow_one (a : α) : follow next 1 a = next a := by
  cases hn : next a <;> simp [follow, hn]

theorem follow_succ (k : Nat) (a : α) : follow next (k + 1) a = (follow next k a).bind next := by
  rw [follow_add]
  congr 1
  funext b
  exact follow_one b

/-- What stands at an earlier number of links is there, and leads on. -/
theorem follow_of_le {m n : Nat} {a c : α} (hmn : m ≤ n) (h : follow next n a = some c) :
    ∃ b, follow next m a = some b ∧ follow next (n - m) b = some c := by
  obtain ⟨k, rfl⟩ := Nat.exists_eq_add_of_le hmn
  rw [follow_add] at h
  obtain ⟨b, hb, hc⟩ := Option.bind_eq_some_iff.mp h
  exact ⟨b, hb, by rwa [Nat.add_sub_cancel_left]⟩

variable {V : Finset α} {first last : α}

theorem follow_mem (hclosed : ∀ a ∈ V, ∀ b, next a = some b → b ∈ V) {k : Nat} {a c : α}
    (ha : a ∈ V) (h : follow next k a = some c) : c ∈ V := by
  induction k generalizing a with
  | zero => cases h; exact ha
  | succ k ih =>
    obtain ⟨b, hb, hc⟩ := Option.bind_eq_some_iff.mp h
    exact ih (hclosed a ha b hb) hc

/-- Without merges the links can be followed back. -/
theorem follow_injective (hclosed : ∀ a ∈ V, ∀ b, next a = some b → b ∈ V)
    (hmerge : ¬ Merges next V) {k : Nat} {a b c : α} (ha : a ∈ V) (hb : b ∈ V)
    (hac : follow next k a = some c) (hbc : follow next k b = some c) : a = b := by
  induction k generalizing a b with
  | zero => cases hac; cases hbc; rfl
  | succ k ih =>
    obtain ⟨a', ha', hac⟩ := Option.bind_eq_some_iff.mp hac
    obtain ⟨b', hb', hbc⟩ := Option.bind_eq_some_iff.mp hbc
    have hsame : a' = b' := ih (hclosed a ha a' ha') (hclosed b hb b' hb') hac hbc
    by_contra hne
    exact hmerge ⟨a, ha, b, hb, hne, by rw [ha', hb', hsame], by simp [ha']⟩

/-- Without cycles a place stands at one number of links only. -/
theorem follow_unique (hcycle : ¬ Cycles next V) {i j : Nat} {a b : α} (hb : b ∈ V)
    (hi : follow next i a = some b) (hj : follow next j a = some b) : i = j := by
  have hback : ∀ i j, i < j → follow next i a = some b → follow next j a = some b → False := by
    intro i j hlt hi hj
    obtain ⟨c, hc, hcb⟩ := follow_of_le (Nat.le_of_lt hlt) hj
    obtain rfl : c = b := Option.some.inj (hc.symm.trans hi)
    obtain ⟨k, hk⟩ : ∃ k, j - i = k + 1 := ⟨j - i - 1, by omega⟩
    exact hcycle ⟨c, hb, k, hk ▸ hcb⟩
  rcases Nat.lt_trichotomy i j with hlt | rfl | hlt
  · exact (hback i j hlt hi hj).elim
  · rfl
  · exact (hback j i hlt hj hi).elim

/-- Without cycles the links come to an end from every place. -/
theorem follow_ends (hclosed : ∀ a ∈ V, ∀ b, next a = some b → b ∈ V)
    (hcycle : ¬ Cycles next V) {a : α} (ha : a ∈ V) :
    ∃ k c, follow next k a = some c ∧ c ∈ V ∧ next c = none := by
  by_contra hnever
  push Not at hnever
  -- otherwise every number of links leads somewhere, and two of them to the same place
  have hall : ∀ k, ∃ c ∈ V, follow next k a = some c := by
    intro k
    induction k with
    | zero => exact ⟨a, ha, rfl⟩
    | succ k ih =>
      obtain ⟨c, hc, hk⟩ := ih
      obtain ⟨d, hd⟩ := Option.ne_none_iff_exists'.mp (hnever k c hk hc)
      exact ⟨d, hclosed c hc d hd, by rw [follow_succ, hk]; exact hd⟩
  choose place hplace hfollow using hall
  obtain ⟨i, -, j, -, hne, hij⟩ := Finset.exists_ne_map_eq_of_card_lt_of_maps_to
    (s := Finset.range (V.card + 1)) (t := V) (f := place) (by simp) fun k _ => hplace k
  exact hne (follow_unique hcycle (hplace i) (hfollow i) (hij ▸ hfollow j))

section Line

/-- The first place stands at no links, and not once more. -/
theorem Line.not_back (h : Line next V first last) (hfirst : first ∈ V) {a : α} (ha : a ∈ V) :
    next a ≠ some first := by
  intro hback
  obtain ⟨k, hk, -⟩ := h.visits a ha
  obtain ⟨n, -, honce⟩ := h.visits first hfirst
  have h0 := honce 0 rfl
  have hk' := honce (k + 1) (by simp only [follow_succ, hk]; exact hback)
  omega

theorem Line.not_merges (hclosed : ∀ a ∈ V, ∀ b, next a = some b → b ∈ V)
    (h : Line next V first last) : ¬ Merges next V := by
  rintro ⟨a, ha, b, hb, hne, hsame, hsome⟩
  obtain ⟨c, hc⟩ := Option.ne_none_iff_exists'.mp hsome
  obtain ⟨i, hi, -⟩ := h.visits a ha
  obtain ⟨j, hj, -⟩ := h.visits b hb
  obtain ⟨n, -, honce⟩ := h.visits c (hclosed a ha c hc)
  have hi' := honce (i + 1) (by simp only [follow_succ, hi]; exact hc)
  have hj' := honce (j + 1) (by simp only [follow_succ, hj]; exact hsame.symm.trans hc)
  obtain rfl : i = j := by omega
  exact hne (Option.some.inj (hi.symm.trans hj))

theorem Line.not_cycles (h : Line next V first last) : ¬ Cycles next V := by
  rintro ⟨a, ha, k, hk⟩
  obtain ⟨i, hi, honce⟩ := h.visits a ha
  have hagain : follow next (i + (k + 1)) first = some a := by
    rw [follow_add, hi]
    exact hk
  have hi' := honce (i + (k + 1)) hagain
  omega

/-- Where all links end at one place, those from the first place go through every other. -/
theorem follow_first (hclosed : ∀ a ∈ V, ∀ b, next a = some b → b ∈ V) (hfirst : first ∈ V)
    (hstart : ∀ a ∈ V, next a ≠ some first) (hmerge : ¬ Merges next V)
    (hcycle : ¬ Cycles next V) (hends : ∀ a ∈ V, next a = none ↔ a = last) {a : α} (ha : a ∈ V) :
    ∃ k, follow next k first = some a := by
  obtain ⟨m, c, hm, hc, hnone⟩ := follow_ends hclosed hcycle ha
  obtain ⟨n, d, hn, hd, hnone'⟩ := follow_ends hclosed hcycle hfirst
  obtain rfl : c = d := ((hends c hc).mp hnone).trans ((hends d hd).mp hnone').symm
  -- a longer way from `a` would go through the first place
  have hle : m ≤ n := by
    by_contra hlt
    obtain ⟨b, hb, hbc⟩ := follow_of_le (m := m - n) (by omega) hm
    rw [show m - (m - n) = n by omega] at hbc
    have hbV := follow_mem hclosed ha hb
    obtain rfl := follow_injective hclosed hmerge hbV hfirst hbc hn
    obtain ⟨k, hk⟩ : ∃ k, m - n = k + 1 := ⟨m - n - 1, by omega⟩
    rw [hk, follow_succ] at hb
    obtain ⟨e, he, hback⟩ := Option.bind_eq_some_iff.mp hb
    exact hstart e (follow_mem hclosed ha he) hback
  obtain ⟨b, hb, hbc⟩ := follow_of_le (m := n - m) (by omega) hn
  rw [show n - (n - m) = m by omega] at hbc
  obtain rfl := follow_injective hclosed hmerge (follow_mem hclosed hfirst hb) ha hbc hm
  exact ⟨n - m, hb⟩

/-- **When the links form one path.** -/
theorem line_iff (hclosed : ∀ a ∈ V, ∀ b, next a = some b → b ∈ V) (hfirst : first ∈ V) :
    Line next V first last ↔ (∀ a ∈ V, next a ≠ some first) ∧ ¬ Merges next V ∧
      ¬ Cycles next V ∧ ∀ a ∈ V, next a = none ↔ a = last := by
  constructor
  · intro h
    exact ⟨fun a ha => h.not_back hfirst ha, h.not_merges hclosed, h.not_cycles, h.ends⟩
  · rintro ⟨hstart, hmerge, hcycle, hends⟩
    refine ⟨fun a ha => ?_, hends⟩
    obtain ⟨k, hk⟩ := follow_first hclosed hfirst hstart hmerge hcycle hends ha
    exact ⟨k, hk, fun j hj => follow_unique hcycle ha hj hk⟩

end Line

end DclProcessor.Successor
