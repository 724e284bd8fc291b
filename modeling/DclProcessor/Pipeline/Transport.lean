import DclProcessor.Pipeline.Contents

/-!
The strings that the modules hand on. The chunks between two modules are neither in the ring
nor in a client's action, so they keep their strings, and a module finds, job after job, what
the one before it has left.
-/

namespace DclProcessor.Pipeline

open Transition Stage

namespace Chain

variable {c : Chain} {s s' : DataSys} {es : List DataEvent} {ok : DataAction → Prop}

/-! ## Between two modules -/

/-- What a step of a client does to the chunk of its job: it takes the job, posts the result of
it, or neither. -/
theorem client_cases {i : Nat} {r : Reply}
    (hs : c.dataStep s (.pipeline (.client i r)) = some s') :
    s'.data = s.data ∧
    ((s.sys.mods i).taking = true ∧ (s.sys.mods i).acting = false ∧
        (s'.sys.mods i).acting = true ∧
        (s'.sys.mods i).proc.cmdOffs = (s.sys.mods i).proc.cmdOffs ∧
        (s'.sys.mods i).proc.cmdResult = r.cmdResult ∧
        s'.found i = s.data (s.sys.mods i).proc.cmdOffs ∧
        c.dataEvents s (.client i r) =
          [.found i (s.sys.mods i).proc.cmdOffs (s.data (s.sys.mods i).proc.cmdOffs)] ∨
      (s.sys.mods i).taking = false ∧ (s.sys.mods i).acting = true ∧
        (s'.sys.mods i).acting = false ∧
        c.dataEvents s (.client i r) = [.left i (s.sys.mods i).proc.cmdOffs (s.found i)
          (s.data (s.sys.mods i).proc.cmdOffs) (s.sys.mods i).proc.cmdResult] ∨
      (s.sys.mods i).taking = false ∧ (s.sys.mods i).acting = false ∧
        (s'.sys.mods i).acting = false ∧ c.dataEvents s (.client i r) = []) := by
  obtain ⟨hsys, hdata, hfound⟩ := dataStep_pipeline hs
  obtain ⟨-, p, cl, hcl, hs'⟩ := step_client hsys
  have hmod : s'.sys.mods i = { s.sys.mods i with proc := p, client := cl } := by
    rw [hs']
    simp [Sys.setMod]
  refine ⟨by rw [hdata]; rfl, ?_⟩
  rw [hmod, hfound]
  unfold clientStep at hcl
  cases hp : (s.sys.mods i).client.pc <;> simp only [hp] at hcl
  case waitJob =>
    split at hcl <;> cases hcl
    simp [dataEvents, Module.taking, Module.acting, hp]
  case dispatch =>
    cases hc : (s.sys.mods i).proc.cmd <;>
      simp only [hc, Option.some.injEq, Prod.mk.injEq] at hcl <;>
      obtain ⟨rfl, rfl⟩ := hcl <;>
      simp [dataEvents, foundAfter, Module.taking, Module.acting, hp, hc]
  case postResult =>
    cases hcl
    cases hc : (s.sys.mods i).proc.cmd <;> cases (s.sys.mods i).client.exitFlag <;>
      simp [dataEvents, Module.taking, Module.acting, hp, hc]
  case left => cases hcl

/-- What a client with the action `act` makes of a string, if its module passes it on. -/
def stage (act : String → String × Int) (text : String) : Option String :=
  if (act text).2 = 0 then some (act text).1 else none

end Chain

end DclProcessor.Pipeline
