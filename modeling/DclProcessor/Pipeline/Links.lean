import Mathlib.Data.List.Count
import DclProcessor.Library.Successor
import DclProcessor.Pipeline.Startup

/-!
The links that `pipeline_modules_update` sets. It counts the modules without a
successor and rejects a list with two of them; whether the links form one path it does
not look at.
-/

namespace DclProcessor.Pipeline.Startup

open Successor

/-- `module->next` of the module at a place of the list. -/
def nextOf (minfos : List ModuleInfo) (i : Nat) : Option Nat :=
  minfos[i]?.bind fun minfo => moduleGet minfos minfo.next

def typeAt (minfos : List ModuleInfo) (i : Nat) : Option ModuleType :=
  minfos[i]?.map ModuleInfo.type

/-- The module has no successor: no module of the list has its `next` as id. -/
def noNext (minfos : List ModuleInfo) (minfo : ModuleInfo) : Bool :=
  (moduleGet minfos minfo.next).isNone

/-- The links form one path over the whole list, from the only `MT_FIRST` module to the only
`MT_LAST` module, which alone has no successor. -/
def Runnable (minfos : List ModuleInfo) : Prop :=
  ∃ first < minfos.length, ∃ last < minfos.length,
    Line (nextOf minfos) (Finset.range minfos.length) first last ∧
      (∀ i < minfos.length, typeAt minfos i = some .first ↔ i = first) ∧
      ∀ i < minfos.length, typeAt minfos i = some .last ↔ i = last

/-- What would have to be looked at, one link or one type at a time, besides the cycles. -/
structure WellLinked (minfos : List ModuleInfo) : Prop where
  oneFirst : ∃ first < minfos.length, ∀ i < minfos.length,
    typeAt minfos i = some .first ↔ i = first
  oneLast : ∃ last < minfos.length, ∀ i < minfos.length, typeAt minfos i = some .last ↔ i = last
  start : ∀ i < minfos.length, ∀ j, nextOf minfos i = some j → typeAt minfos j ≠ some .first
  merges : ¬ Merges (nextOf minfos) (Finset.range minfos.length)
  cycles : ¬ Cycles (nextOf minfos) (Finset.range minfos.length)
  ends : ∀ i < minfos.length, nextOf minfos i = none ↔ typeAt minfos i = some .last

variable {minfos : List ModuleInfo}

theorem modulesUpdate_eq_zero_iff (nullFound : Bool) (rest : List ModuleInfo) :
    modulesUpdate minfos nullFound rest = 0 ↔
      rest.countP (noNext minfos) + nullFound.toNat ≤ 1 := by
  induction rest generalizing nullFound with
  | nil => cases nullFound <;> simp [modulesUpdate]
  | cons minfo rest ih =>
    rw [List.countP_cons]
    cases hg : moduleGet minfos minfo.next with
    | some j => simp [modulesUpdate, hg, noNext, ih]
    | none =>
      cases nullFound
      · simp [modulesUpdate, hg, noNext, ih]
      · simp [modulesUpdate, hg, noNext]

theorem nextOf_lt {i j : Nat} (h : nextOf minfos i = some j) : j < minfos.length := by
  obtain ⟨minfo, -, hj⟩ := Option.bind_eq_some_iff.mp h
  exact (List.findIdx?_eq_some_iff_findIdx_eq.mp hj).1

theorem runnable_iff : Runnable minfos ↔ WellLinked minfos := by
  have hclosed : ∀ i ∈ Finset.range minfos.length, ∀ j, nextOf minfos i = some j →
      j ∈ Finset.range minfos.length := fun i _ j h => Finset.mem_range.mpr (nextOf_lt h)
  constructor
  · rintro ⟨first, hfirst, last, hlast, hline, hfirsts, hlasts⟩
    obtain ⟨hstart, hmerges, hcycles, hends⟩ :=
      (line_iff hclosed (Finset.mem_range.mpr hfirst)).mp hline
    refine ⟨⟨first, hfirst, hfirsts⟩, ⟨last, hlast, hlasts⟩, fun i hi j hj htype => ?_, hmerges,
      hcycles, fun i hi => ?_⟩
    · rw [(hfirsts j (nextOf_lt hj)).mp htype] at hj
      exact hstart i (Finset.mem_range.mpr hi) hj
    · rw [hends i (Finset.mem_range.mpr hi), hlasts i hi]
  · rintro ⟨⟨first, hfirst, hfirsts⟩, ⟨last, hlast, hlasts⟩, hstart, hmerges, hcycles, hends⟩
    refine ⟨first, hfirst, last, hlast, ?_, hfirsts, hlasts⟩
    refine (line_iff hclosed (Finset.mem_range.mpr hfirst)).mpr
      ⟨fun i hi hj => ?_, hmerges, hcycles, fun i hi => ?_⟩
    · exact hstart i (Finset.mem_range.mp hi) first hj ((hfirsts first hfirst).mpr rfl)
    · rw [hends i (Finset.mem_range.mp hi), hlasts i (Finset.mem_range.mp hi)]

/-- **Only runnable chains are accepted** if and only if two modules of the list have no
successor, so that it is rejected, or the list is well linked. -/
theorem accepts_runnable_iff (minfos : List ModuleInfo) :
    (modulesUpdate minfos false minfos = 0 → Runnable minfos) ↔
      2 ≤ minfos.countP (noNext minfos) ∨ WellLinked minfos := by
  have haccepts : modulesUpdate minfos false minfos = 0 ↔ minfos.countP (noNext minfos) ≤ 1 :=
    modulesUpdate_eq_zero_iff false minfos
  rw [haccepts, runnable_iff]
  constructor
  · intro h
    rcases Nat.lt_or_ge 1 (minfos.countP (noNext minfos)) with hlt | hle
    · exact Or.inl hlt
    · exact Or.inr (h hle)
  · rintro (hlt | hwell) hle
    · omega
    · exact hwell

/-- Two modules in a circle, each the next of the other. -/
def circle : List ModuleInfo :=
  [⟨0, .first, false, 1, none⟩, ⟨1, .middle, true, 0, some ["bin/phandler"]⟩]

theorem circle_accepted :
    ¬ ∀ minfos, modulesUpdate minfos false minfos = 0 → Runnable minfos := by
  intro hall
  obtain ⟨-, -, last, hlast, -, -, hlasts⟩ := hall circle (by decide)
  have htype := (hlasts last hlast).mpr rfl
  have hlast' : last = 0 ∨ last = 1 := by
    simp only [circle, List.length_cons, List.length_nil] at hlast
    omega
  rcases hlast' with rfl | rfl
  · revert htype; decide
  · revert htype; decide

end DclProcessor.Pipeline.Startup
