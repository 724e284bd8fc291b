import DclProcessor.Library.Transition

/-!
The process table of `process_mngr.c`: its static variables, the slots in the shared memory
and the ids that `process_start` hands out.
-/

namespace DclProcessor.Process

open Transition

/-- `struct process_info` without the data of a command. -/
structure ProcessInfo where
  semJob : Nat
  semResult : Nat
  pid : Int
  processState : Int
  processName : List UInt8
  cmd : Int
  cmdResult : Int

/-- After `memset` with zeros. -/
def ProcessInfo.zero : ProcessInfo where
  semJob := 0
  semResult := 0
  pid := 0
  processState := 0
  processName := []
  cmd := 0
  cmdResult := 0

/-- After `process_info_init`, and after `process_info_destroy`. -/
def ProcessInfo.fresh : ProcessInfo := { ProcessInfo.zero with pid := -1 }

/-- The static variables, and every `struct process_info` there is, by its address. -/
structure ProcessMngr where
  processCnt : Int
  processCntMax : Int
  processInfo : Option Nat
  infos : Nat → ProcessInfo

/-- The first `n` from `info` on. -/
def setInfos (infos : Nat → ProcessInfo) (info n : Nat) (value : ProcessInfo) :
    Nat → ProcessInfo :=
  fun a => if info ≤ a ∧ a < info + n then value else infos a

/-- What `process_start` is called with, and what it meets. The branch of a forked child is
another process. -/
inductive Attempt
  | internal
  | missing (path : List UInt8)
  | forkFailed (path : List UInt8)
  | started (path : List UInt8) (pid : Int)

def Attempt.CanSucceed : Attempt → Prop
  | .internal => True
  | .missing _ => False
  | .forkFailed _ => False
  | .started _ _ => True

namespace ProcessMngr

/-- At the start of a process. -/
def start (infos : Nat → ProcessInfo) : ProcessMngr := ⟨0, 0, none, infos⟩

/-- `process_subsystem_init`. `failing`: the slot whose semaphores cannot be made. -/
def subsystemInit (m : ProcessMngr) (info : Nat) (cnt : Int) (failing : Option Nat) :
    Int × ProcessMngr :=
  match failing.filter fun i : Nat => (i : Int) < cnt with
  | some i =>
    let cleared := setInfos m.infos (info + i) 1 .zero
    (-1, { m with infos := setInfos cleared info i .fresh })
  | none =>
    (0, { m with
      processInfo := some info
      processCntMax := cnt
      infos := setInfos m.infos info cnt.toNat .fresh })

/-- `process_subsystem_destroy` -/
def subsystemDestroy (m : ProcessMngr) : ProcessMngr :=
  let infos := match m.processInfo with
    | none => m.infos
    | some info => setInfos m.infos info m.processCntMax.toNat .fresh
  { m with processInfo := none, processCntMax := 0, infos }

/-- `process_info[id].pid = pid`, and the name as far as it fits. -/
def record (m : ProcessMngr) (id pid : Int) (path : List UInt8) : ProcessMngr :=
  match m.processInfo with
  | none => m
  | some info =>
    let slot := info + id.toNat
    let named := { m.infos slot with pid, processName := path.take 79 }
    { m with infos := setInfos m.infos slot 1 named }

/-- `process_start` -/
def processStart (m : ProcessMngr) (attempt : Attempt) : Int × ProcessMngr :=
  if m.processCnt ≥ m.processCntMax then (-1, m)
  else
    let id := m.processCnt
    let m := { m with processCnt := m.processCnt + 1 }
    match attempt with
    | .internal => (id, m)
    | .missing _ => (-1, m)
    | .forkFailed _ => (-1, m)
    | .started path pid => (id, m.record id pid path)

/-- Exactly `k` starts can succeed before one is refused. -/
def Admits : Nat → ProcessMngr → Prop
  | 0, m => ∀ attempt, (m.processStart attempt).1 = -1
  | k + 1, m => ∀ attempt, attempt.CanSucceed →
      (m.processStart attempt).1 ≠ -1 ∧ Admits k (m.processStart attempt).2

/-- Starts that can still succeed. -/
def free (m : ProcessMngr) : Nat := (m.processCntMax - m.processCnt).toNat

end ProcessMngr

inductive Call
  | subsystemInit (info : Nat) (cnt : Int) (failing : Option Nat)
  | processStart (attempt : Attempt)
  | subsystemDestroy

/-- The table with the ids that were returned since the last initialisation, and with the
`cnt` of that one. -/
structure History where
  mngr : ProcessMngr
  ids : List Int
  cnt : Int

namespace History

def start (infos : Nat → ProcessInfo) : History := ⟨.start infos, [], 0⟩

def after (h : History) : Call → History
  | .subsystemInit info cnt failing =>
    let r := h.mngr.subsystemInit info cnt failing
    if r.1 = 0 then ⟨r.2, [], cnt⟩ else { h with mngr := r.2 }
  | .processStart attempt =>
    let r := h.mngr.processStart attempt
    { h with mngr := r.2, ids := if r.1 = -1 then h.ids else h.ids ++ [r.1] }
  | .subsystemDestroy => { h with mngr := h.mngr.subsystemDestroy }

/-- What one call does to the slots, apart from the ids that are returned. -/
def Accounts (h : History) : Call → Prop
  | .subsystemInit info cnt failing =>
    (h.mngr.subsystemInit info cnt failing).1 = 0 → 0 ≤ cnt →
      (h.mngr.subsystemInit info cnt failing).2.Admits cnt.toNat
  | .processStart attempt =>
    (h.mngr.processStart attempt).1 = -1 →
      ∀ k, h.mngr.Admits k ↔ (h.mngr.processStart attempt).2.Admits k
  | .subsystemDestroy => True

/-- The ids since the last initialisation are distinct slots of its table, a failing start
takes none, and an initialisation makes as many as it says. -/
def Slotted (h : History) (c : Call) : Prop :=
  (h.after c).ids.Nodup ∧ (∀ id ∈ (h.after c).ids, 0 ≤ id ∧ id < (h.after c).cnt) ∧ h.Accounts c

/-- No slot is taken by a start that fails, and no table is made for processes when a slot
was taken before. -/
def Clean (h : History) : Call → Prop
  | .subsystemInit _ cnt failing =>
    (∃ i ∈ failing, (i : Int) < cnt) ∨ cnt ≤ 0 ∨ h.mngr.processCnt = 0
  | .processStart attempt => attempt.CanSucceed ∨ h.mngr.processCntMax ≤ h.mngr.processCnt
  | .subsystemDestroy => True

end History

/-- The calls of one process; each returns. -/
def processTable : System History Call Unit where
  step h c := some (h.after c)
  emit _ _ := []

namespace ProcessMngr

variable {m : ProcessMngr} {attempt : Attempt}

@[simp] theorem record_processCnt (id pid : Int) (path : List UInt8) :
    (m.record id pid path).processCnt = m.processCnt := by
  unfold record
  split <;> rfl

@[simp] theorem record_processCntMax (id pid : Int) (path : List UInt8) :
    (m.record id pid path).processCntMax = m.processCntMax := by
  unfold record
  split <;> rfl

theorem processStart_refused (h : m.processCntMax ≤ m.processCnt) :
    m.processStart attempt = (-1, m) := if_pos h

/-- With a slot that is free, the counter goes on whatever the start comes to. -/
theorem processStart_counts (attempt : Attempt) (h : m.processCnt < m.processCntMax) :
    (m.processStart attempt).2.processCnt = m.processCnt + 1 ∧
      (m.processStart attempt).2.processCntMax = m.processCntMax := by
  rw [processStart, if_neg (by omega)]
  cases attempt <;> simp

theorem processStart_id (attempt : Attempt) (h : m.processCnt < m.processCntMax) :
    (attempt.CanSucceed → (m.processStart attempt).1 = m.processCnt) ∧
      (¬ attempt.CanSucceed → (m.processStart attempt).1 = -1) := by
  rw [processStart, if_neg (by omega)]
  cases attempt <;> simp [Attempt.CanSucceed]

/-- What can still succeed is what the counter leaves of the table. -/
theorem admits_iff (hcnt : 0 ≤ m.processCnt) {k : Nat} : m.Admits k ↔ k = m.free := by
  induction k generalizing m with
  | zero =>
    by_cases hfull : m.processCntMax ≤ m.processCnt
    · have hadmits : m.Admits 0 := fun attempt => by rw [processStart_refused hfull]
      exact iff_of_true hadmits (by unfold free; omega)
    · have hid := (processStart_id .internal (Int.not_le.mp hfull)).1 trivial
      refine iff_of_false (fun hadmits => ?_) (by unfold free; omega)
      have hrefused := hadmits .internal
      omega
  | succ k ih =>
    by_cases hfull : m.processCntMax ≤ m.processCnt
    · refine iff_of_false (fun hadmits => (hadmits .internal trivial).1 ?_) (by unfold free; omega)
      rw [processStart_refused hfull]
    · rw [Int.not_le] at hfull
      have htail (attempt : Attempt) : (m.processStart attempt).2.Admits k ↔ k + 1 = m.free := by
        obtain ⟨hnext, hmax⟩ := processStart_counts attempt hfull
        rw [ih (by omega), free, free, hnext, hmax]
        omega
      constructor
      · intro hadmits
        exact (htail .internal).mp (hadmits .internal trivial).2
      · intro hk attempt hsucceeds
        have hid := (processStart_id attempt hfull).1 hsucceeds
        exact ⟨by omega, (htail attempt).mpr hk⟩

theorem subsystemInit_failed (info : Nat) {cnt : Int} {failing : Option Nat}
    (h : ∃ i ∈ failing, (i : Int) < cnt) : (m.subsystemInit info cnt failing).1 = -1 ∧
      (m.subsystemInit info cnt failing).2.processCnt = m.processCnt ∧
      (m.subsystemInit info cnt failing).2.processCntMax = m.processCntMax := by
  obtain ⟨i, hi, hlt⟩ := h
  obtain rfl : failing = some i := hi
  simp [subsystemInit, Option.filter, hlt]

theorem subsystemInit_succeeds (info : Nat) {cnt : Int} {failing : Option Nat}
    (h : ¬ ∃ i ∈ failing, (i : Int) < cnt) : (m.subsystemInit info cnt failing).1 = 0 ∧
      (m.subsystemInit info cnt failing).2.processCnt = m.processCnt ∧
      (m.subsystemInit info cnt failing).2.processCntMax = cnt := by
  have hfilter : (failing.filter fun i : Nat => (i : Int) < cnt) = none := by
    rw [Option.filter_eq_none_iff]
    intro i hi hlt
    exact h ⟨i, hi, of_decide_eq_true hlt⟩
  simp [subsystemInit, hfilter]

end ProcessMngr

namespace History

open ProcessMngr

/-- The ids are slots that the counter has passed. -/
structure Counted (h : History) : Prop where
  nonneg : 0 ≤ h.mngr.processCnt
  nodup : h.ids.Nodup
  passed : ∀ id ∈ h.ids, 0 ≤ id ∧ id < h.mngr.processCnt ∧ id < h.cnt
  max : 0 < h.mngr.processCntMax → h.mngr.processCntMax ≤ h.cnt

variable {h : History}

theorem counted_start (infos : Nat → ProcessInfo) : (History.start infos).Counted where
  nonneg := Int.le_refl 0
  nodup := List.nodup_nil
  passed _ hid := absurd hid List.not_mem_nil
  max hmax := absurd hmax (Int.lt_irrefl 0)

theorem Counted.afterInit (hc : h.Counted) (info : Nat) (cnt : Int) (failing : Option Nat) :
    (h.after (.subsystemInit info cnt failing)).Counted := by
  by_cases hfails : ∃ i ∈ failing, (i : Int) < cnt
  · obtain ⟨hret, hcnt, hmax⟩ := subsystemInit_failed (m := h.mngr) info hfails
    simp only [History.after, hret]
    exact ⟨hcnt ▸ hc.nonneg, hc.nodup, hcnt ▸ hc.passed, hmax ▸ hc.max⟩
  · obtain ⟨hret, hcnt, hmax⟩ := subsystemInit_succeeds (m := h.mngr) info hfails
    simp only [History.after, hret, if_true]
    exact ⟨hcnt ▸ hc.nonneg, List.nodup_nil, fun id hid => absurd hid List.not_mem_nil,
      fun _ => Int.le_of_eq hmax⟩

theorem Counted.afterStart (hc : h.Counted) (attempt : Attempt) :
    (h.after (.processStart attempt)).Counted := by
  have hnonneg := hc.nonneg
  by_cases hfull : h.mngr.processCntMax ≤ h.mngr.processCnt
  · simpa only [History.after, processStart_refused hfull, if_true] using hc
  · rw [Int.not_le] at hfull
    obtain ⟨hcnt, hmax⟩ := processStart_counts attempt hfull
    obtain ⟨hsuccess, hfailure⟩ := processStart_id attempt hfull
    have hbound := hc.max (by omega)
    by_cases hsucceeds : attempt.CanSucceed
    · have hid := hsuccess hsucceeds
      have hnew : h.mngr.processCnt ≠ -1 := by omega
      simp only [History.after, hid, if_neg hnew]
      refine ⟨?_, ?_, ?_, ?_⟩
      · rw [hcnt]
        omega
      · rw [List.nodup_append]
        refine ⟨hc.nodup, List.pairwise_singleton _ _, fun id hold id' hid' => ?_⟩
        have hpassed := hc.passed id hold
        obtain rfl := List.mem_singleton.mp hid'
        omega
      · intro id hmem
        rw [hcnt]
        rcases List.mem_append.mp hmem with hold | hid'
        · obtain ⟨hlow, hhigh, hin⟩ := hc.passed id hold
          exact ⟨hlow, by omega, hin⟩
        · obtain rfl := List.mem_singleton.mp hid'
          exact ⟨hnonneg, by omega, (by omega : h.mngr.processCnt < h.cnt)⟩
      · rw [hmax]
        exact hc.max
    · simp only [History.after, hfailure hsucceeds, if_true]
      refine ⟨?_, hc.nodup, fun id hid => ?_, ?_⟩
      · rw [hcnt]
        omega
      · obtain ⟨hlow, hhigh, hin⟩ := hc.passed id hid
        rw [hcnt]
        exact ⟨hlow, by omega, hin⟩
      · rw [hmax]
        exact hc.max

theorem Counted.after (hc : h.Counted) (c : Call) : (h.after c).Counted := by
  cases c with
  | subsystemInit info cnt failing => exact hc.afterInit info cnt failing
  | processStart attempt => exact hc.afterStart attempt
  | subsystemDestroy =>
    exact ⟨hc.nonneg, hc.nodup, hc.passed, fun hmax => absurd hmax (Int.lt_irrefl 0)⟩

theorem accounts_init_iff (hc : h.Counted) (info : Nat) (cnt : Int) (failing : Option Nat) :
    h.Accounts (.subsystemInit info cnt failing) ↔ h.Clean (.subsystemInit info cnt failing) := by
  have hnonneg := hc.nonneg
  simp only [Accounts, Clean]
  by_cases hfails : ∃ i ∈ failing, (i : Int) < cnt
  · obtain ⟨hret, -, -⟩ := subsystemInit_failed (m := h.mngr) info hfails
    exact iff_of_true (fun hzero => absurd (hret.symm.trans hzero) (by decide)) (Or.inl hfails)
  · obtain ⟨hret, hcnt, hmax⟩ := subsystemInit_succeeds (m := h.mngr) info hfails
    rw [admits_iff (by rw [hcnt]; exact hnonneg), free, hcnt, hmax, or_iff_right hfails]
    constructor
    · intro hadmits
      have hfree := hadmits hret
      omega
    · intro hclean _ hpos
      omega

theorem accounts_start_iff (hc : h.Counted) (attempt : Attempt) :
    h.Accounts (.processStart attempt) ↔ h.Clean (.processStart attempt) := by
  have hnonneg := hc.nonneg
  simp only [Accounts, Clean]
  by_cases hfull : h.mngr.processCntMax ≤ h.mngr.processCnt
  · rw [processStart_refused hfull]
    exact iff_of_true (fun _ _ => Iff.rfl) (Or.inr hfull)
  · rw [or_iff_left hfull]
    rw [Int.not_le] at hfull
    obtain ⟨hcnt, hmax⟩ := processStart_counts attempt hfull
    obtain ⟨hsuccess, hfailure⟩ := processStart_id attempt hfull
    by_cases hsucceeds : attempt.CanSucceed
    · refine iff_of_true (fun hret => ?_) hsucceeds
      have hid := hsuccess hsucceeds
      omega
    · -- The slot that was free before is not free any more.
      refine iff_of_false (fun hsame => ?_) hsucceeds
      have hadmits := (hsame (hfailure hsucceeds) h.mngr.free).mp ((admits_iff hnonneg).mpr rfl)
      have hfree := (admits_iff (by rw [hcnt]; omega)).mp hadmits
      rw [free, free, hcnt, hmax] at hfree
      omega

theorem accounts_iff (hc : h.Counted) (c : Call) : h.Accounts c ↔ h.Clean c := by
  cases c with
  | subsystemInit info cnt failing => exact accounts_init_iff hc info cnt failing
  | processStart attempt => exact accounts_start_iff hc attempt
  | subsystemDestroy => exact Iff.rfl

/-- **The slots of the process table** are accounted for in exactly the runs in which no slot
is taken by a start that fails or before the table is made. -/
theorem slotted_iff (infos : Nat → ProcessInfo) (calls : List Call) :
    processTable.Meets Slotted calls (.start infos) ↔
      processTable.Meets Clean calls (.start infos) := by
  refine meets_congr (I := Counted) (fun h c hc => ?_) (counted_start infos)
  have hnext := hc.after c
  refine ⟨?_, ?_⟩
  · rw [Slotted, accounts_iff hc]
    constructor
    · rintro ⟨-, -, hclean⟩
      exact hclean
    · intro hclean
      exact ⟨hnext.nodup, fun id hid => ⟨(hnext.passed id hid).1, (hnext.passed id hid).2.2⟩,
        hclean⟩
  · rintro _ hstep
    obtain rfl : h.after c = _ := Option.some.inj hstep
    exact hnext

/-- A table with one slot, and a module whose binary is not there. -/
def missingBinary : List Call :=
  [.subsystemInit 0 1 none, .processStart (.missing [47, 98])]

/-- The same table for two pipelines of one process. -/
def secondPipeline : List Call :=
  [.subsystemInit 0 1 none, .processStart .internal, .subsystemDestroy, .subsystemInit 0 1 none]

theorem slots_lost :
    ¬ processTable.Meets Slotted missingBinary (.start fun _ => .zero) ∧
      ¬ processTable.Meets Slotted secondPipeline (.start fun _ => .zero) := by
  constructor
  · rintro ⟨-, hrest⟩
    obtain ⟨⟨-, -, hsame⟩, -⟩ := hrest _ rfl
    have hadmits := (hsame rfl 1).mp ((admits_iff (by decide)).mpr (by decide))
    exact absurd ((admits_iff (by decide)).mp hadmits) (by decide)
  · rintro ⟨-, hrest⟩
    obtain ⟨-, hrest⟩ := hrest _ rfl
    obtain ⟨-, hrest⟩ := hrest _ rfl
    obtain ⟨⟨-, -, hmade⟩, -⟩ := hrest _ rfl
    have hadmits := hmade rfl (by decide)
    exact absurd ((admits_iff (by decide)).mp hadmits) (by decide)

end History

end DclProcessor.Process
