import Mathlib.Data.List.TakeWhile
import DclProcessor.Pipeline.Startup
import DclProcessor.Pipeline.Wiring

/-! What a step of the startup changes, and where the module threads are while the
startup loop works on one place of the list after the other. -/

namespace DclProcessor.Pipeline.Startup

open Transition

variable {st : Setup} {s s' : State}

/-! ## One step -/

theorem loopStep_some {i : Nat} {meth : Method} (h : st.loopStep s i meth = some s') :
    ∃ j w, Pipeline.threadStep meth (s.view i j) = some w ∧ s' = s.putView i j w := by
  unfold Setup.loopStep at h
  split at h
  · obtain ⟨w, hw, rfl⟩ := Option.map_eq_some_iff.mp h
    exact ⟨_, w, hw, rfl⟩
  · split at h
    · cases h
    · obtain ⟨w, hw, rfl⟩ := Option.map_eq_some_iff.mp h
      exact ⟨_, w, hw, rfl⟩

/-- A thread in its main loop touches of another module only the mailbox. -/
theorem putView_mods (s : State) (i j : Nat) (w : View) (k : Nat) :
    ∃ b, (s.putView i j w).mods k =
      { (if k = i then w.me else s.mods k) with box := b } := by
  simp only [State.putView, State.setMod]
  split <;> rcases eq_or_ne k i with rfl | hi <;> rcases eq_or_ne k j with rfl | hj <;>
    exact ⟨_, by simp_all [Function.update]; rfl⟩

/-- `s'` differs from `s` at most in what the main loops, the clients and the owner write. -/
structure SameStartup (s s' : State) : Prop where
  entry : s'.entry = s.entry
  startControl : s'.startControl = s.startControl
  processCnt : s'.processCnt = s.processCnt
  sup : s'.sup = s.sup
  realStarted : s'.realStarted = s.realStarted
  idx : ∀ j, (s'.mods j).idx = (s.mods j).idx

namespace SameStartup

theorem setMod {i : Nat} {m : Module} (h : m.idx = (s.mods i).idx) : SameStartup s (s.setMod i m) where
  entry := rfl
  startControl := rfl
  processCnt := rfl
  sup := rfl
  realStarted := rfl
  idx j := by
    rcases eq_or_ne j i with rfl | hj
    · simpa [State.setMod] using h
    · simp [State.setMod, hj]

theorem loopStep {i : Nat} {meth : Method} (h : st.loopStep s i meth = some s') :
    SameStartup s s' := by
  obtain ⟨j, w, hw, rfl⟩ := loopStep_some h
  obtain ⟨e, he, rfl⟩ := threadStep_some hw
  have hidx := exec_idx he
  refine ⟨?_, ?_, ?_, ?_, ?_, fun k => ?_⟩
  case refine_6 =>
    obtain ⟨b, hb⟩ := putView_mods s i j (e.goto (meth.body (test (s.view i j))
      (s.view i j).me.thread.pc)) k
    rw [hb]
    split
    · next hk => subst hk; exact hidx
    · rfl
  all_goals
    simp only [State.putView]
    split <;> rfl

theorem client {i : Nat} {r : Reply} (h : st.step s (.client i r) = some s') :
    SameStartup s s' := by
  obtain ⟨⟨p, cl⟩, -, rfl⟩ := Option.map_eq_some_iff.mp h
  exact setMod rfl

theorem call {c : OwnerCall} (h : st.step s (.call c) = some s') : SameStartup s s' := by
  simp only [Setup.step] at h
  split at h
  · cases h; exact ⟨rfl, rfl, rfl, rfl, rfl, fun _ => rfl⟩
  · cases h

theorem owner (h : st.step s .owner = some s') : SameStartup s s' := by
  simp only [Setup.step, Setup.ownerStep] at h
  split at h
  · cases h
  · split at h
    · cases h; exact ⟨rfl, rfl, rfl, rfl, rfl, fun _ => rfl⟩
    · split at h <;> cases h <;> exact ⟨rfl, rfl, rfl, rfl, rfl, fun _ => rfl⟩
  · next call k _ =>
    split at h <;> cases h
    · have hset := setMod (s := s) ((s.mods k).setState_idx (mdState call))
      exact ⟨rfl, rfl, rfl, rfl, rfl, hset.idx⟩
    · exact ⟨rfl, rfl, rfl, rfl, rfl, fun _ => rfl⟩
  · cases h; exact ⟨rfl, rfl, rfl, rfl, rfl, fun _ => rfl⟩

end SameStartup

theorem threadStep_cases {i : Nat} (h : st.step s (.thread i) = some s') :
    ∃ meth, st.method i = some meth ∧
      (s.entry i = .loop ∧ st.loopStep s i meth = some s' ∨
        s.entry i ≠ .loop ∧ st.entryStep s i meth = some s') := by
  obtain ⟨meth, hm, h⟩ := Option.bind_eq_some_iff.mp h
  refine ⟨meth, hm, ?_⟩
  split at h
  · exact Or.inl ⟨by assumption, h⟩
  · exact Or.inr ⟨by assumption, h⟩

/-! ## The place of the list that the startup has come to -/

namespace Setup

/-- `process_start` succeeds for the module at place `i` when all before it have
been started, and its thread gets as far as that call. -/
def starts (st : Setup) (i : Nat) : Bool :=
  match st.method i with
  | none => false
  | some meth => (!meth.hasClient || (st.argv i).isSome) &&
      0 ≤ (st.processStart (st.processCnt + i) i (st.processArgv i meth)).2

/-- Number of modules before the first that does not start. -/
def startable (st : Setup) : Nat := ((List.range st.modulesCnt).takeWhile st.starts).length

theorem startable_le (st : Setup) : st.startable ≤ st.modulesCnt := by
  have hle := (List.takeWhile_prefix st.starts (l := List.range st.modulesCnt)).length_le
  rwa [List.length_range] at hle

theorem le_startable {k : Nat} (hk : k ≤ st.modulesCnt) (hstart : ∀ j < k, st.starts j = true) :
    k ≤ st.startable := by
  have hsplit : List.range st.modulesCnt =
      List.range k ++ (List.range (st.modulesCnt - k)).map (k + ·) := by
    rw [← List.range_add]
    congr 1
    omega
  have hall : ∀ j ∈ List.range k, st.starts j = true :=
    fun j hj => hstart j (List.mem_range.mp hj)
  rw [startable, hsplit, List.takeWhile_append_of_pos hall, List.length_append, List.length_range]
  omega

theorem starts_of_lt_startable {j : Nat} (h : j < st.startable) : st.starts j = true := by
  have hmem := List.takeWhile_prefix st.starts (l := List.range st.modulesCnt)
  have hget := hmem.getElem h
  have hall := List.mem_takeWhile_imp (List.getElem_mem h)
  rw [hget, List.getElem_range] at hall
  exact hall

theorem starts_startable (h : st.startable < st.modulesCnt) : st.starts st.startable = false := by
  by_contra htrue
  have hle : st.startable + 1 ≤ st.startable := by
    refine le_startable h fun j hj => ?_
    rcases Nat.lt_succ_iff_lt_or_eq.mp hj with hj | rfl
    · exact starts_of_lt_startable hj
    · simpa using htrue
  omega

theorem startable_eq {k : Nat} (hk : k ≤ st.modulesCnt) (hstart : ∀ j < k, st.starts j = true)
    (hend : k = st.modulesCnt ∨ st.starts k = false) : st.startable = k := by
  refine Nat.le_antisymm ?_ (le_startable hk hstart)
  rcases hend with rfl | hend
  · exact st.startable_le
  · by_contra hlt
    rw [starts_of_lt_startable (show k < st.startable by omega)] at hend
    cases hend

theorem processStart_cases (st : Setup) (cnt i : Nat) (argv : Option (List String)) :
    (st.processStart cnt i argv).2 = -1 ∨
      (st.processStart cnt i argv).2 = cnt ∧ (st.processStart cnt i argv).1 = cnt + 1 := by
  unfold processStart
  split
  · exact Or.inl rfl
  · cases argv with
    | none => exact Or.inr ⟨rfl, rfl⟩
    | some a =>
      cases hsp : st.spawns i
      · exact Or.inl (by simp)
      · exact Or.inr ⟨by simp, rfl⟩

end Setup

/-- The modules before place `k` are started; those after it are not touched yet. -/
structure Opened (st : Setup) (s : State) (k : Nat) : Prop where
  le : k ≤ st.modulesCnt
  count : s.realStarted = k
  before : ∀ j < k, s.entry j = .loop ∧ 0 ≤ (s.mods j).idx ∧ st.starts j = true
  after : ∀ j, k < j → s.entry j = .absent ∧ (s.mods j).idx = -1

/-- What `process_start` has returned to the thread at place `k`. -/
structure Result (st : Setup) (s : State) (k : Nat) (meth : Method) : Prop where
  idx : (s.mods k).idx = (st.processStart (st.processCnt + k) k (st.processArgv k meth)).2
  cnt : s.processCnt = (st.processStart (st.processCnt + k) k (st.processArgv k meth)).1

/-- Where thread `k` is in its entry, and what it has found out. -/
def Entering (st : Setup) (s : State) (k : Nat) (meth : Method) : Entry → Prop
  | .absent | .noMethod => False
  | .testArgv => s.processCnt = st.processCnt + k ∧ meth.hasClient = true
  | .startProcess => s.processCnt = st.processCnt + k ∧
      (meth.hasClient = true → (st.argv k).isSome = true)
  | .testIdx => Result st s k meth ∧ meth.hasClient = true ∧ (st.argv k).isSome = true
  | .raiseExit | .postFailed => (s.mods k).idx = -1 ∧ st.starts k = false ∧
      meth.hasClient = true ∧ (st.argv k).isSome = true
  | .post | .loop => Result st s k meth ∧ (meth.hasClient = true → st.starts k = true)
  | .returned => meth.hasClient = true ∧
      ((st.argv k).isSome = true → (s.mods k).idx = -1 ∧ st.starts k = false)

/-- How often thread `i` has posted `start_control`. -/
def Setup.posts (st : Setup) (i : Nat) : Entry → Nat
  | .loop => 1
  | .returned => if (st.argv i).isSome then 1 else 0
  | _ => 0

/-- The startup loop is over: only the modules before the first that does not start,
and that one, have a thread. -/
structure Closed (st : Setup) (s : State) : Prop where
  count : s.realStarted = st.startable
  control : s.startControl = 0
  before : ∀ j < st.startable, s.entry j = .loop ∧ (s.mods j).idx ≠ -1
  failed : st.startable < st.modulesCnt → ∃ meth, st.method st.startable = some meth ∧
    st.posts st.startable (s.entry st.startable) = 1 ∧
    (meth.hasClient = true → s.entry st.startable = .returned)
  after : ∀ j, st.startable < j ∨ st.modulesCnt ≤ j → s.entry j = .absent

theorem Setup.posts_le_one (st : Setup) (i : Nat) (e : Entry) : st.posts i e ≤ 1 := by
  unfold Setup.posts
  split <;> try omega
  split <;> omega

/-- The stages of the startup loop at place `k`. -/
def AtStage (st : Setup) (s : State) (k : Nat) : Stage → Prop
  | .init => s.entry k = .absent ∧ (s.mods k).idx = -1 ∧ s.startControl = 0 ∧
      s.processCnt = st.processCnt + k
  | .create => k < st.modulesCnt ∧ s.entry k = .absent ∧ s.startControl = 0 ∧
      s.processCnt = st.processCnt + k
  | .waitStart => k < st.modulesCnt ∧ s.startControl = st.posts k (s.entry k) ∧
      (st.method k = none ∧ s.entry k = .noMethod ∨
        ∃ meth, st.method k = some meth ∧ Entering st s k meth (s.entry k))
  | .testIdx => k < st.modulesCnt ∧ s.startControl = 0 ∧ st.posts k (s.entry k) = 1 ∧
      ∃ meth, st.method k = some meth ∧ Entering st s k meth (s.entry k)
  | .setInit => k < st.modulesCnt ∧ s.startControl = 0 ∧
      s.processCnt = st.processCnt + k + 1 ∧ s.entry k = .loop ∧ 0 ≤ (s.mods k).idx ∧
      st.starts k = true
  | .joinFailed | .setError | .plError => k < st.modulesCnt ∧ s.startControl = 0 ∧
      st.posts k (s.entry k) = 1 ∧ (s.mods k).idx = -1 ∧ st.starts k = false ∧
      ∃ meth, st.method k = some meth ∧ (meth.hasClient = true → s.entry k = .returned)

/-- What the program counter of `pipeline_thread` says about the startup. -/
def SoundAt (st : Setup) (s : State) : SupPc → Prop
  | .plUnknown => Opened st s 0 ∧ AtStage st s 0 .init
  | .loop k stage => Opened st s k ∧ AtStage st s k stage
  | .verdict => Closed st s ∧ (∀ j < st.startable, 0 ≤ (s.mods j).idx) ∧
      (st.startable < st.modulesCnt → (s.mods st.startable).idx = -1)
  | .join _ | .destroy _ | .returned => Closed st s

def Sound (st : Setup) (s : State) : Prop := SoundAt st s s.sup

/-! ## Every step keeps it -/

theorem Opened.same {k : Nat} (h : Opened st s k) (hs : SameStartup s s') : Opened st s' k where
  le := h.le
  count := hs.realStarted ▸ h.count
  before j hj := by rw [hs.entry, hs.idx]; exact h.before j hj
  after j hj := by rw [hs.entry, hs.idx]; exact h.after j hj

theorem Entering.congr {k : Nat} {meth : Method} {e : Entry} (h : Entering st s k meth e)
    (hidx : (s'.mods k).idx = (s.mods k).idx) (hcnt : s'.processCnt = s.processCnt) :
    Entering st s' k meth e := by
  have hresult : Result st s k meth → Result st s' k meth := fun hr =>
    ⟨hidx.trans hr.idx, hcnt.trans hr.cnt⟩
  cases e <;> simp only [Entering, hidx, hcnt] at h ⊢ <;> first
    | exact h
    | exact ⟨hresult h.1, h.2⟩

theorem Closed.same (h : Closed st s) (hs : SameStartup s s') : Closed st s' where
  count := hs.realStarted ▸ h.count
  control := hs.startControl ▸ h.control
  before j hj := by rw [hs.entry, hs.idx]; exact h.before j hj
  failed hf := by rw [hs.entry]; exact h.failed hf
  after j hj := by rw [hs.entry]; exact h.after j hj

theorem AtStage.same {k : Nat} {stage : Stage} (h : AtStage st s k stage)
    (hs : SameStartup s s') : AtStage st s' k stage := by
  have hentering : ∀ meth, Entering st s k meth (s.entry k) → Entering st s' k meth (s.entry k) :=
    fun meth he => he.congr (hs.idx k) hs.processCnt
  cases stage <;> simp only [AtStage, hs.entry, hs.idx, hs.startControl, hs.processCnt] at h ⊢
  case waitStart =>
    obtain ⟨hk, hcontrol, he⟩ := h
    exact ⟨hk, hcontrol, he.imp_right fun ⟨meth, hm, he⟩ => ⟨meth, hm, hentering meth he⟩⟩
  case testIdx =>
    obtain ⟨hk, hcontrol, hposts, meth, hm, he⟩ := h
    exact ⟨hk, hcontrol, hposts, meth, hm, hentering meth he⟩
  all_goals exact h

theorem Sound.same (h : Sound st s) (hs : SameStartup s s') : Sound st s' := by
  unfold Sound at h ⊢
  rw [hs.sup]
  cases hp : s.sup <;> rw [hp] at h <;> simp only [SoundAt, hs.idx] at h ⊢
  case plUnknown => exact ⟨h.1.same hs, h.2.same hs⟩
  case loop => exact ⟨h.1.same hs, h.2.same hs⟩
  case verdict => exact ⟨h.1.same hs, h.2⟩
  all_goals exact h.same hs

theorem sound_initial (st : Setup) : Sound st st.initial :=
  ⟨⟨Nat.zero_le _, rfl, fun _ hj => absurd hj (Nat.not_lt_zero _), fun _ _ => ⟨rfl, rfl⟩⟩,
    rfl, rfl, rfl, rfl⟩

/-! ### The threads -/

/-- Only the thread at the place of the startup loop is in its entry. -/
theorem place_of_entryStep {i : Nat} {meth : Method} (h : Sound st s)
    (hs : st.entryStep s i meth = some s') :
    s.sup = .loop i .waitStart := by
  have hin : s.entry i ≠ .absent ∧ s.entry i ≠ .loop ∧ s.entry i ≠ .returned := by
    unfold Setup.entryStep at hs
    cases he : s.entry i <;> simp [he] at hs ⊢
  unfold Sound at h
  cases hp : s.sup with
  | plUnknown =>
    rw [hp] at h
    rcases Nat.eq_zero_or_pos i with rfl | hi
    · exact absurd h.2.1 hin.1
    · exact absurd (h.1.after i hi).1 hin.1
  | loop k stage =>
    rw [hp] at h
    rcases Nat.lt_trichotomy i k with hi | rfl | hi
    · exact absurd (h.1.before i hi).1 hin.2.1
    · cases stage with
      | waitStart => rfl
      | init => exact absurd h.2.1 hin.1
      | create => exact absurd h.2.2.1 hin.1
      | testIdx =>
        obtain ⟨-, -, hposts, -⟩ := h.2
        cases he : s.entry i <;> simp [he, Setup.posts] at hposts hin
      | setInit => exact absurd h.2.2.2.2.1 hin.2.1
      | joinFailed | setError | plError =>
        obtain ⟨-, -, hposts, -⟩ := h.2
        cases he : s.entry i <;> simp [he, Setup.posts] at hposts hin
    · exact absurd (h.1.after i hi).1 hin.1
  | verdict | join _ | destroy _ | returned =>
    have hc : Closed st s := by
      rw [hp] at h
      first | exact h | exact h.1
    exfalso
    rcases Nat.lt_trichotomy i st.startable with hi | rfl | hi
    · exact hin.2.1 (hc.before i hi).1
    · rcases Nat.lt_or_ge st.startable st.modulesCnt with hlt | hge
      · obtain ⟨-, -, hposts, -⟩ := hc.failed hlt
        cases he : s.entry st.startable <;> simp [he, Setup.posts] at hposts hin
      · exact hin.1 (hc.after _ (Or.inr hge))
    · exact hin.1 (hc.after _ (Or.inl hi))

theorem Opened.of_ne {k : Nat} (h : Opened st s k) (hcount : s'.realStarted = s.realStarted)
    (hne : ∀ j, j ≠ k → s'.entry j = s.entry j ∧ (s'.mods j).idx = (s.mods j).idx) :
    Opened st s' k where
  le := h.le
  count := hcount.trans h.count
  before j hj := by rw [(hne j (by omega)).1, (hne j (by omega)).2]; exact h.before j hj
  after j hj := by rw [(hne j (by omega)).1, (hne j (by omega)).2]; exact h.after j hj

theorem starts_iff {i : Nat} {meth : Method} (hm : st.method i = some meth) :
    st.starts i = true ↔ (meth.hasClient = true → (st.argv i).isSome = true) ∧
      0 ≤ (st.processStart (st.processCnt + i) i (st.processArgv i meth)).2 := by
  simp only [Setup.starts, hm, Bool.and_eq_true, Bool.or_eq_true, Bool.not_eq_true',
    decide_eq_true_eq]
  cases meth.hasClient <;> simp

theorem Result.eq_neg_one {i : Nat} {meth : Method} (h : Result st s i meth)
    (hneg : (s.mods i).idx < 0) : (s.mods i).idx = -1 := by
  rcases st.processStart_cases (st.processCnt + i) i (st.processArgv i meth) with hr | ⟨hr, -⟩
  · rw [h.idx, hr]
  · rw [h.idx, hr] at hneg
    omega

/-- The value that a thread enters after each statement before the main loop. -/
theorem entering_step {i : Nat} {meth : Method} (hm : st.method i = some meth)
    (he : Entering st s i meth (s.entry i)) (hs : st.entryStep s i meth = some s') :
    Entering st s' i meth (s'.entry i) := by
  unfold Setup.entryStep at hs
  cases hp : s.entry i <;> simp only [hp, Option.some.injEq, reduceCtorEq] at hs he <;> subst hs
  case testArgv =>
    obtain ⟨hcnt, hclient⟩ := he
    cases ha : st.argv i with
    | none => simp [State.enter, Entering, hclient, ha]
    | some a => simp [State.enter, Entering, hclient, hcnt, ha]
  case startProcess =>
    obtain ⟨hcnt, hargv⟩ := he
    have hresult : Result st (st.startProcess s i meth) i meth := by
      constructor <;> simp [Setup.startProcess, State.setMod, hcnt]
    cases hc : meth.hasClient with
    | false => simpa [State.enter, Entering, hc] using ⟨hresult.idx, hresult.cnt⟩
    | true => simpa [State.enter, Entering, hc, hargv hc] using ⟨hresult.idx, hresult.cnt⟩
  case testIdx =>
    obtain ⟨hresult, hclient, hargv⟩ := he
    rcases Int.lt_or_le (s.mods i).idx 0 with hneg | hpos
    · have hstarts : st.starts i = false := by
        rw [Bool.eq_false_iff, ne_eq, starts_iff hm, ← hresult.idx]
        rintro ⟨-, h⟩
        omega
      simpa [State.enter, Entering, hneg] using
        ⟨hresult.eq_neg_one hneg, hstarts, hclient, hargv⟩
    · have hstarts : st.starts i = true := by
        rw [starts_iff hm, ← hresult.idx]
        exact ⟨fun _ => hargv, hpos⟩
      simpa [State.enter, Entering, Int.not_lt.mpr hpos, hstarts] using ⟨hresult.idx, hresult.cnt⟩
  case raiseExit => simpa [State.enter, Entering] using he
  case postFailed =>
    obtain ⟨hidx, hstarts, hclient, hargv⟩ := he
    simpa [State.enter, Entering, hclient, hargv] using ⟨hidx, hstarts⟩
  case post =>
    obtain ⟨hresult, hstarts⟩ := he
    simpa [State.enter, Entering] using ⟨⟨hresult.idx, hresult.cnt⟩, hstarts⟩

/-- What a statement before the main loop leaves alone. -/
theorem entryStep_frame {i : Nat} {meth : Method} (hs : st.entryStep s i meth = some s') :
    s'.sup = s.sup ∧ s'.realStarted = s.realStarted ∧ s'.plState = s.plState ∧
      s'.owner = s.owner ∧ (∀ j, (s'.mods j).state = (s.mods j).state) ∧
      ∀ j, j ≠ i → s'.entry j = s.entry j ∧ s'.mods j = s.mods j := by
  unfold Setup.entryStep at hs
  split at hs <;> simp only [Option.some.injEq, reduceCtorEq] at hs <;> subst hs
  case h_2 =>
    refine ⟨rfl, rfl, rfl, rfl, fun j => ?_, fun j hj => ?_⟩
    · rcases eq_or_ne j i with rfl | hj <;> simp [Setup.startProcess, State.enter, State.setMod, *]
    · simp [Setup.startProcess, State.enter, State.setMod, hj]
  all_goals exact ⟨rfl, rfl, rfl, rfl, fun _ => rfl, fun j hj => by simp [State.enter, hj]⟩

/-- The statements that post `start_control`, and only they, count as posts. -/
theorem posts_step {i : Nat} {meth : Method} (he : Entering st s i meth (s.entry i))
    (hs : st.entryStep s i meth = some s') :
    st.posts i (s.entry i) = 0 ∧ s'.startControl = s.startControl + st.posts i (s'.entry i) ∧
      emit s (.thread i) = List.replicate (st.posts i (s'.entry i)) (.posted i) := by
  unfold Setup.entryStep at hs
  cases hp : s.entry i <;> simp only [hp, Option.some.injEq, reduceCtorEq] at hs he <;> subst hs
  case testArgv => cases ha : st.argv i <;> simp [State.enter, Setup.posts, emit, hp, ha]
  case startProcess =>
    cases hc : meth.hasClient <;> simp [State.enter, Setup.startProcess, State.setMod, Setup.posts,
      emit, hp]
  case testIdx =>
    rcases Int.lt_or_le (s.mods i).idx 0 with hneg | hpos
    · simp [State.enter, Setup.posts, emit, hp, hneg]
    · simp [State.enter, Setup.posts, emit, hp, Int.not_lt.mpr hpos]
  case raiseExit => simp [State.enter, Setup.posts, emit, hp]
  case postFailed =>
    obtain ⟨-, -, -, hargv⟩ := he
    simp [State.enter, Setup.posts, emit, hp, hargv]
  case post => simp [State.enter, Setup.posts, emit, hp]

theorem entering_of_entryStep {i : Nat} {meth : Method} (h : Sound st s)
    (hm : st.method i = some meth) (hs : st.entryStep s i meth = some s') :
    Opened st s i ∧ i < st.modulesCnt ∧ s.startControl = st.posts i (s.entry i) ∧
      Entering st s i meth (s.entry i) := by
  have hplace := place_of_entryStep h hs
  unfold Sound at h
  rw [hplace] at h
  obtain ⟨hopen, hi, hcontrol, ⟨hnone, -⟩ | ⟨meth', hm', he⟩⟩ := h
  · rw [hm] at hnone; cases hnone
  · rw [hm] at hm'
    cases hm'
    exact ⟨hopen, hi, hcontrol, he⟩

theorem sound_entryStep {i : Nat} {meth : Method} (h : Sound st s) (hm : st.method i = some meth)
    (hs : st.entryStep s i meth = some s') : Sound st s' := by
  have hplace := place_of_entryStep h hs
  obtain ⟨hopen, hi, hcontrol, he⟩ := entering_of_entryStep h hm hs
  obtain ⟨hsup, hcount, -, -, -, hne⟩ := entryStep_frame hs
  obtain ⟨hzero, hposts, -⟩ := posts_step he hs
  unfold Sound
  rw [hsup, hplace]
  refine ⟨hopen.of_ne hcount fun j hj => ⟨(hne j hj).1, by rw [(hne j hj).2]⟩, hi, ?_,
    Or.inr ⟨meth, hm, entering_step hm he hs⟩⟩
  rw [hposts, hcontrol, hzero, Nat.zero_add]

theorem sound_thread {i : Nat} (h : Sound st s) (hs : st.step s (.thread i) = some s') :
    Sound st s' := by
  obtain ⟨meth, hm, ⟨-, hs⟩ | ⟨-, hs⟩⟩ := threadStep_cases hs
  · exact h.same (.loopStep hs)
  · exact sound_entryStep h hm hs

/-! ### `pipeline_thread` -/

theorem Opened.next {k : Nat} (h : Opened st s k) (hk : k < st.modulesCnt)
    (hentry : s.entry k = .loop) (hidx : 0 ≤ (s.mods k).idx) (hstarts : st.starts k = true)
    (hs : s'.entry = s.entry ∧ s'.realStarted = s.realStarted + 1 ∧
      ∀ j, (s'.mods j).idx = (s.mods j).idx) : Opened st s' (k + 1) where
  le := hk
  count := by rw [hs.2.1, h.count]
  before j hj := by
    rw [hs.1, hs.2.2]
    rcases Nat.lt_succ_iff_lt_or_eq.mp hj with hj | rfl
    · exact h.before j hj
    · exact ⟨hentry, hidx, hstarts⟩
  after j hj := by rw [hs.1, hs.2.2]; exact h.after j (by omega)

/-- After the last place all modules have been started. -/
theorem Opened.closed_all (h : Opened st s st.modulesCnt) (hentry : s.entry st.modulesCnt = .absent)
    (hcontrol : s.startControl = 0) : SoundAt st s .verdict := by
  have hst : st.startable = st.modulesCnt :=
    Setup.startable_eq (Nat.le_refl _) (fun j hj => (h.before j hj).2.2) (Or.inl rfl)
  refine ⟨⟨by rw [h.count, hst], hcontrol, fun j hj => ?_, fun hlt => by omega, fun j hj => ?_⟩,
    fun j hj => ?_, fun hlt => by omega⟩
  · obtain ⟨he, hidx, -⟩ := h.before j (by omega)
    exact ⟨he, by omega⟩
  · rcases Nat.lt_or_ge st.modulesCnt j with hlt | hge
    · exact (h.after j hlt).1
    · obtain rfl : j = st.modulesCnt := by omega
      exact hentry
  · exact (h.before j (by omega)).2.1

/-- After a module that has not been started no other is touched. -/
theorem Opened.closed_failed {k : Nat} (h : Opened st s k) (hstage : AtStage st s k .plError) :
    SoundAt st s .verdict := by
  obtain ⟨hk, hcontrol, hposts, hidx, hstarts, hmeth⟩ := hstage
  obtain rfl : st.startable = k :=
    Setup.startable_eq h.le (fun j hj => (h.before j hj).2.2) (Or.inr hstarts)
  refine ⟨⟨h.count, hcontrol, fun j hj => ?_, fun _ => ?_, fun j hj => ?_⟩, fun j hj => ?_,
    fun _ => hidx⟩
  · obtain ⟨he, hpos, -⟩ := h.before j hj
    exact ⟨he, by omega⟩
  · obtain ⟨meth, hm, hret⟩ := hmeth
    exact ⟨meth, hm, hposts, hret⟩
  · exact (h.after j (by omega)).1
  · exact (h.before j hj).2.1

/-- A thread that has posted `start_control`: it runs its main loop, or it belongs to
a module whose client has not been started. -/
theorem entered_cases {k : Nat} {meth : Method}
    (he : Entering st s k meth (s.entry k)) (hposts : st.posts k (s.entry k) = 1) :
    s.entry k = .loop ∧ Result st s k meth ∧ (meth.hasClient = true → st.starts k = true) ∨
      s.entry k = .returned ∧ meth.hasClient = true ∧ (s.mods k).idx = -1 ∧
        st.starts k = false := by
  cases hp : s.entry k <;> simp only [hp, Setup.posts, Nat.zero_ne_one] at he hposts
  case loop => exact Or.inl ⟨rfl, he⟩
  case returned =>
    split at hposts
    · next ha => exact Or.inr ⟨rfl, he.1, he.2 ha⟩
    · cases hposts

theorem starts_of_idx {k : Nat} {meth : Method} (hm : st.method k = some meth)
    (hr : Result st s k meth) (hstarts : meth.hasClient = true → st.starts k = true) :
    st.starts k = true ↔ 0 ≤ (s.mods k).idx := by
  rw [starts_iff hm, ← hr.idx]
  refine ⟨And.right, fun hpos => ⟨fun hc => ?_, hpos⟩⟩
  exact ((starts_iff hm).mp (hstarts hc)).1 hc

theorem sound_testIdx {k : Nat} (hstage : AtStage st s k .testIdx) :
    ((s.mods k).idx = -1 → AtStage st s k .joinFailed) ∧
      ((s.mods k).idx ≠ -1 → AtStage st s k .setInit) := by
  obtain ⟨hk, hcontrol, hposts, meth, hm, he⟩ := hstage
  rcases entered_cases he hposts with ⟨hloop, hr, hstarts⟩ | ⟨hret, hc, hidx, hstarts⟩
  · have hiff := starts_of_idx hm hr hstarts
    refine ⟨fun hneg => ?_, fun hne => ?_⟩
    · have hfalse : st.starts k = false := by
        rw [Bool.eq_false_iff, ne_eq, hiff]
        omega
      refine ⟨hk, hcontrol, hposts, hneg, hfalse, meth, hm, fun hc => ?_⟩
      rw [hstarts hc] at hfalse
      cases hfalse
    · rcases st.processStart_cases (st.processCnt + k) k (st.processArgv k meth) with h | ⟨h, hcnt⟩
      · exact absurd (hr.idx.trans h) hne
      · have hpos : 0 ≤ (s.mods k).idx := by rw [hr.idx, h]; omega
        exact ⟨hk, hcontrol, hr.cnt.trans hcnt, hloop, hpos, hiff.mpr hpos⟩
  · exact ⟨fun _ => ⟨hk, hcontrol, hposts, hidx, hstarts, meth, hm, fun _ => hret⟩,
      fun hne => absurd hidx hne⟩

theorem entering_first {k : Nat} {meth : Method} (hm : st.method k = some meth)
    (hcnt : s.processCnt = st.processCnt + k) :
    Entering st s k meth (firstStatement (st.method k)) := by
  cases hc : meth.hasClient <;> simp [hm, firstStatement, hc, Entering, hcnt]

theorem posts_first (k : Nat) (meth : Option Method) : st.posts k (firstStatement meth) = 0 := by
  cases meth with
  | none => rfl
  | some meth => cases meth <;> rfl

theorem sound_loop {k : Nat} {stage : Stage} (hp : s.sup = .loop k stage)
    (hopen : Opened st s k) (hstage : AtStage st s k stage)
    (hs : st.supStep s = some s') : Sound st s' := by
  simp only [Setup.supStep, hp] at hs
  cases stage <;> simp only [Option.some.injEq] at hs
  case init =>
    obtain ⟨hentry, hidx, hcontrol, hcnt⟩ := hstage
    split at hs <;> cases hs
    · exact ⟨hopen.of_ne rfl fun j hj => ⟨rfl, by simp [State.setMod, hj]⟩, by assumption, hentry,
        hcontrol, hcnt⟩
    · obtain rfl : k = st.modulesCnt := by have := hopen.le; omega
      exact (hopen.of_ne rfl fun _ _ => ⟨rfl, rfl⟩ :
        Opened st { s with sup := .verdict } _).closed_all hentry hcontrol
  case create =>
    subst hs
    obtain ⟨hk, hentry, hcontrol, hcnt⟩ := hstage
    refine ⟨hopen.of_ne rfl fun j hj => ?_, hk, ?_, ?_⟩
    · simp [Setup.createThread, State.setMod, State.enter, hj]
    · simpa [Setup.createThread, State.enter, State.setMod, posts_first] using hcontrol
    · cases hm : st.method k with
      | none => simp [Setup.createThread, State.enter, hm, firstStatement]
      | some meth =>
        refine Or.inr ⟨meth, rfl, ?_⟩
        simp only [Setup.createThread, State.enter, Function.update_self]
        exact entering_first hm hcnt
  case waitStart =>
    obtain ⟨n, hn, rfl⟩ := Option.map_eq_some_iff.mp hs
    have hn' := semWait_some hn
    obtain ⟨hk, hcontrol, ⟨-, he⟩ | ⟨meth, hm, he⟩⟩ := hstage
    · rw [he, hn'] at hcontrol
      cases hcontrol
    · have hle := st.posts_le_one k (s.entry k)
      exact ⟨hopen.of_ne rfl fun _ _ => ⟨rfl, rfl⟩, hk, by simp only; omega,
        by simp only; omega, meth, hm, he.congr rfl rfl⟩
  case testIdx =>
    subst hs
    obtain ⟨hjoin, hinit⟩ := sound_testIdx hstage
    refine ⟨hopen.of_ne rfl fun _ _ => ⟨rfl, rfl⟩, ?_⟩
    split
    · next h => exact hjoin h
    · next h => exact hinit h
  case joinFailed =>
    split at hs <;> cases hs
    exact ⟨hopen.of_ne rfl fun _ _ => ⟨rfl, rfl⟩, hstage⟩
  case setError =>
    subst hs
    refine ⟨hopen.of_ne rfl fun j hj => ⟨rfl, by simp [State.setMod, hj]⟩, ?_⟩
    simpa [AtStage, State.setMod] using hstage
  case plError =>
    subst hs
    exact (hopen.of_ne rfl fun _ _ => ⟨rfl, rfl⟩ :
      Opened st { s with plState := .error, sup := .verdict } k).closed_failed hstage
  case setInit =>
    subst hs
    obtain ⟨hk, hcontrol, hcnt, hentry, hidx, hstarts⟩ := hstage
    have hsame := SameStartup.setMod (s := s) ((s.mods k).setState_idx .init)
    refine ⟨hopen.next hk hentry hidx hstarts ⟨rfl, rfl, hsame.idx⟩, ?_⟩
    obtain ⟨he, hneg⟩ := hopen.after (k + 1) (by omega)
    refine ⟨he, (hsame.idx _).trans hneg, hcontrol, by rw [← Nat.add_assoc]; exact hcnt⟩

theorem sound_sup (h : Sound st s) (hs : st.supStep s = some s') : Sound st s' := by
  unfold Sound at h
  cases hp : s.sup with
  | loop k stage =>
    rw [hp] at h
    exact sound_loop hp h.1 h.2 hs
  | plUnknown =>
    rw [hp] at h
    simp only [Setup.supStep, hp, Option.some.injEq] at hs
    subst hs
    exact ⟨h.1.of_ne rfl fun _ _ => ⟨rfl, rfl⟩, h.2⟩
  | verdict =>
    rw [hp] at h
    simp only [Setup.supStep, hp, Option.some.injEq] at hs
    subst hs
    exact ⟨h.1.count, h.1.control, h.1.before, h.1.failed, h.1.after⟩
  | join k =>
    rw [hp] at h
    simp only [Setup.supStep, hp] at hs
    split at hs
    · split at hs <;> cases hs
      exact ⟨h.count, h.control, h.before, h.failed, h.after⟩
    · cases hs
      exact ⟨h.count, h.control, h.before, h.failed, h.after⟩
  | destroy k =>
    rw [hp] at h
    simp only [Setup.supStep, hp, Option.some.injEq] at hs
    subst hs
    refine ⟨h.count, h.control, fun j hj => ⟨(h.before j hj).1, ?_⟩, h.failed, h.after⟩
    rcases eq_or_ne j k with rfl | hjk
    · simp [State.setMod, Module.destroy]
    · simpa [State.setMod, hjk] using (h.before j hj).2
  | returned => simp [Setup.supStep, hp] at hs

theorem sound_step {a : Action} (h : Sound st s) (hs : st.step s a = some s') : Sound st s' := by
  cases a with
  | sup => exact sound_sup h hs
  | thread i => exact sound_thread h hs
  | client i r => exact h.same (.client hs)
  | call c => exact h.same (.call hs)
  | owner => exact h.same (.owner hs)

theorem sound_of_run {es : List Event} (h : st.Run es s) : Sound st s :=
  invariant (P := fun _ s => Sound st s) (sound_initial st)
    (fun _ _ _ _ hi _ hs => sound_step hi hs) h

end DclProcessor.Pipeline.Startup
