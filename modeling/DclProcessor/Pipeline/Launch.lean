import DclProcessor.Pipeline.Opening

/-!
Whether the startup loop of `pipeline_thread` can always be finished. It waits for one
post of `start_control` from each thread, and joins a thread whose module has not been
started; both need a thread body that leaves by itself.
-/

namespace DclProcessor.Pipeline.Startup

open Transition

variable {st : Setup} {s s' : State}

/-! ## Posts of `start_control` -/

/-- `pipeline_thread` creates a thread where there is none, and starts no other. -/
theorem sup_entry (h : Sound st s) (hs : st.supStep s = some s') (i : Nat) :
    s'.entry i = s.entry i ∨ s.entry i = .absent ∧ st.posts i (s'.entry i) = 0 := by
  unfold Setup.supStep at hs
  split at hs
  case h_2 => split at hs <;> cases hs <;> exact Or.inl rfl
  case h_3 k hp =>
    cases hs
    unfold Sound at h
    rw [hp] at h
    rcases eq_or_ne i k with rfl | hi
    · refine Or.inr ⟨h.2.2.1, ?_⟩
      simp [Setup.createThread, State.enter, posts_first]
    · exact Or.inl (by simp [Setup.createThread, State.enter, State.setMod, hi])
  case h_4 => obtain ⟨n, -, rfl⟩ := Option.map_eq_some_iff.mp hs; exact Or.inl rfl
  case h_6 => split at hs <;> cases hs; exact Or.inl rfl
  case h_11 =>
    split at hs
    · split at hs <;> cases hs; exact Or.inl rfl
    · cases hs; exact Or.inl rfl
  case h_13 => cases hs
  all_goals cases hs; exact Or.inl rfl

theorem count_thread {i : Nat} (j : Nat) (h : Sound st s)
    (hs : st.step s (.thread i) = some s') :
    st.posts j (s.entry j) + (emit s (.thread i)).count (.posted j) = st.posts j (s'.entry j) := by
  obtain ⟨meth, hm, ⟨hloop, hs⟩ | ⟨-, hs⟩⟩ := threadStep_cases hs
  · rw [(SameStartup.loopStep hs).entry]
    simp [emit, hloop]
  · obtain ⟨-, -, -, he⟩ := entering_of_entryStep h hm hs
    obtain ⟨hzero, -, hemit⟩ := posts_step he hs
    rw [hemit, List.count_replicate]
    rcases eq_or_ne j i with rfl | hj
    · simp [hzero]
    · obtain ⟨-, -, -, -, -, hne⟩ := entryStep_frame hs
      simp [(hne j hj).1, Ne.symm hj]

/-- Each thread has posted as often as its program counter says. -/
theorem count_of_run {es : List Event} (h : st.Run es s) (i : Nat) :
    es.count (.posted i) = st.posts i (s.entry i) := by
  have hinv : Sound st s ∧ ∀ i, es.count (.posted i) = st.posts i (s.entry i) := by
    refine invariant (P := fun es s => Sound st s ∧
      ∀ i, es.count (.posted i) = st.posts i (s.entry i)) ⟨sound_initial st, fun _ => rfl⟩ ?_ h
    rintro es s a s' ⟨hi, hc⟩ - hs
    refine ⟨sound_step hi hs, fun i => ?_⟩
    change (es ++ emit s a).count (.posted i) = _
    change st.step s a = some s' at hs
    rw [List.count_append, hc i]
    cases a with
    | sup =>
      rcases sup_entry hi hs i with he | ⟨habsent, hzero⟩
      · simp [emit, he]
      · rw [hzero, habsent]
        rfl
    | thread j => exact count_thread i hi hs
    | client j r => rw [(SameStartup.client hs).entry]; rfl
    | call c => rw [(SameStartup.call hs).entry]; rfl
    | owner =>
      rw [(SameStartup.owner hs).entry]
      simp only [emit]
      split <;> simp
  exact hinv.2 i

/-! ## What the startup loop needs -/

/-- Every thread that `pipeline_thread` has created posts `start_control` exactly once. -/
def PostsOnce (st : Setup) : Prop :=
  ∀ es s, st.Run es s → ∀ i, s.entry i ≠ .absent → es.count (.posted i) ≤ 1 ∧
    ∃ fs t, Trace st.system (· = .thread i) s fs t ∧ (es ++ fs).count (.posted i) = 1

/-- A thread that has reported `idx = -1` ends by itself. -/
def EndsAlone (st : Setup) : Prop :=
  ∀ es s, st.Run es s → ∀ i, .posted i ∈ es → (s.mods i).idx = -1 →
    ∃ t, Reaches st.system (· = .thread i) s t ∧ t.finished i = true

/-- The startup loop can be finished wherever it is. -/
def LoopFinishes (st : Setup) : Prop :=
  ∀ es s, st.Run es s → s.sup.decided = false →
    ∃ t, Reaches st.system (fun _ => True) s t ∧ t.sup = .verdict

structure StartupCompletes (st : Setup) : Prop where
  posts : PostsOnce st
  ends : EndsAlone st
  finishes : LoopFinishes st

/-- The first module that cannot be started, if there is one, is a child process with a
command line. -/
def FailsByReturn (st : Setup) : Prop :=
  st.startable < st.modulesCnt → ∃ meth, st.method st.startable = some meth ∧
    meth.hasClient = true ∧ (st.argv st.startable).isSome = true

/-- The module at place `k` gets to its post, and ends if it fails. -/
structure Responds (st : Setup) (k : Nat) (meth : Method) : Prop where
  method : st.method k = some meth
  argv : meth.hasClient = true → (st.argv k).isSome = true
  client : st.starts k = false → meth.hasClient = true

theorem Responds.method_eq {k : Nat} {meth meth' : Method} (h : Responds st k meth')
    (hm : st.method k = some meth) : meth' = meth :=
  Option.some.inj (h.method.symm.trans hm)

theorem responds_of_starts {k : Nat} (h : st.starts k = true) : ∃ meth, Responds st k meth := by
  cases hm : st.method k with
  | none => simp [Setup.starts, hm] at h
  | some meth =>
    exact ⟨meth, hm, ((starts_iff hm).mp h).1, fun hf => by rw [h] at hf; cases hf⟩

theorem startable_of_opened {k : Nat} (h : Opened st s k) (hstarts : st.starts k = false) :
    st.startable = k :=
  Setup.startable_eq h.le (fun j hj => (h.before j hj).2.2) (Or.inr hstarts)

theorem responds_of_opened {k : Nat} (hf : FailsByReturn st) (h : Opened st s k)
    (hk : k < st.modulesCnt) : ∃ meth, Responds st k meth := by
  cases hstarts : st.starts k with
  | true => exact responds_of_starts hstarts
  | false =>
    obtain rfl := startable_of_opened h hstarts
    obtain ⟨meth, hm, hc, ha⟩ := hf hk
    exact ⟨meth, hm, fun _ => ha, fun _ => hc⟩

/-! ## Progress of the startup loop -/

def entryRank : Entry → Nat
  | .testArgv => 6
  | .startProcess => 5
  | .testIdx => 4
  | .raiseExit => 3
  | .postFailed | .post => 2
  | _ => 0

/-- A created thread has posted, or `pipeline_thread` is waiting for its post. -/
theorem created_cases {i : Nat} (h : Sound st s) (hi : s.entry i ≠ .absent) :
    st.posts i (s.entry i) = 1 ∨ s.sup = .loop i .waitStart := by
  unfold Sound at h
  have hposts : ∀ j, s.entry j = .loop → st.posts j (s.entry j) = 1 := by
    intro j hj
    rw [hj]
    rfl
  cases hp : s.sup with
  | plUnknown =>
    rw [hp] at h
    rcases Nat.eq_zero_or_pos i with rfl | hpos
    · exact absurd h.2.1 hi
    · exact absurd (h.1.after i hpos).1 hi
  | loop k stage =>
    rw [hp] at h
    rcases Nat.lt_trichotomy i k with hlt | rfl | hgt
    · exact Or.inl (hposts i (h.1.before i hlt).1)
    · cases stage with
      | init => exact absurd h.2.1 hi
      | create => exact absurd h.2.2.1 hi
      | waitStart => exact Or.inr rfl
      | testIdx => exact Or.inl h.2.2.2.1
      | setInit => exact Or.inl (hposts i h.2.2.2.2.1)
      | joinFailed | setError | plError => exact Or.inl h.2.2.2.1
    · exact absurd (h.1.after i hgt).1 hi
  | verdict | join _ | destroy _ | returned =>
    have hc : Closed st s := by
      rw [hp] at h
      first | exact h | exact h.1
    left
    rcases Nat.lt_trichotomy i st.startable with hlt | rfl | hgt
    · exact hposts i (hc.before i hlt).1
    · rcases Nat.lt_or_ge st.startable st.modulesCnt with hlt | hge
      · obtain ⟨-, -, h1, -⟩ := hc.failed hlt
        exact h1
      · exact absurd (hc.after _ (Or.inr hge)) hi
    · exact absurd (hc.after _ (Or.inl hgt)) hi

/-- Before its post a thread that responds can go on, and raises the exit flag only when
its module has not been started. -/
theorem entry_progress {k : Nat} {meth : Method} (hr : Responds st k meth) (h : Sound st s)
    (hp : s.sup = .loop k .waitStart) (hzero : st.posts k (s.entry k) = 0) :
    ∃ s', st.step s (.thread k) = some s' ∧ s'.sup = .loop k .waitStart ∧
      entryRank (s'.entry k) < entryRank (s.entry k) ∧
      (s'.exitFlag = s.exitFlag ∨ st.starts k = false) := by
  unfold Sound at h
  rw [hp] at h
  have he : Entering st s k meth (s.entry k) := by
    obtain ⟨-, -, -, ⟨hnone, -⟩ | ⟨meth', hm', he⟩⟩ := h
    · rw [hr.method] at hnone; cases hnone
    · rw [hr.method] at hm'
      cases hm'
      exact he
  suffices hstep : ∃ s', st.entryStep s k meth = some s' ∧
      entryRank (s'.entry k) < entryRank (s.entry k) ∧
      (s'.exitFlag = s.exitFlag ∨ st.starts k = false) by
    obtain ⟨s', hs, hrest⟩ := hstep
    refine ⟨s', ?_, (entryStep_frame hs).1.trans hp, hrest⟩
    have hne : s.entry k ≠ .loop := by
      intro hloop
      rw [hloop] at hzero
      cases hzero
    simp [Setup.step, Setup.threadStep, hr.method, hne, hs]
  cases hent : s.entry k <;>
    simp only [hent, Entering, Setup.entryStep, Option.some.injEq, exists_eq_left',
      State.enter, Function.update_self] at he ⊢
  case testArgv =>
    obtain ⟨a, ha⟩ := Option.isSome_iff_exists.mp (hr.argv he.2)
    simp [ha, entryRank]
  case startProcess => cases hc : meth.hasClient <;> simp [entryRank, Setup.startProcess, State.setMod]
  case testIdx => split <;> simp [entryRank]
  case raiseExit => exact ⟨by simp [entryRank], Or.inr he.2.1⟩
  case postFailed => simp [entryRank]
  case post => simp [entryRank]
  case loop => simp [hent, Setup.posts] at hzero
  case returned => simp [hent, Setup.posts, hr.argv he.1] at hzero

def stageRank : Stage → Nat
  | .init => 19
  | .create => 18
  | .waitStart => 10
  | .testIdx => 9
  | .joinFailed => 8
  | .setError => 7
  | .plError => 6
  | .setInit => 5

/-- What is left of the startup loop. -/
def loopVariant (st : Setup) (s : State) : Nat :=
  match s.sup with
  | .plUnknown => 20 * st.modulesCnt + 20
  | .loop k .waitStart => 20 * (st.modulesCnt - k) + stageRank .waitStart + entryRank (s.entry k)
  | .loop k stage => 20 * (st.modulesCnt - k) + stageRank stage
  | _ => 0

theorem entryRank_first (meth : Option Method) : entryRank (firstStatement meth) ≤ 6 := by
  cases meth with
  | none => simp [firstStatement, entryRank]
  | some meth => cases meth <;> simp [firstStatement, Method.hasClient, entryRank]

/-- The startup loop stays at its place, goes on to the next, or ends at a module that
does not start or after the last. -/
def Advances (st : Setup) (k : Nat) (p : SupPc) : Prop :=
  (∃ stage, p = .loop k stage) ∨ p = .loop (k + 1) .init ∨
    p = .verdict ∧ (st.modulesCnt ≤ k ∨ st.starts k = false)

/-- **Progress.** While the startup loop works on a module that responds,
`pipeline_thread` or the thread of that module can go on. -/
theorem loop_progress {k : Nat} {stage : Stage} (h : Sound st s) (hp : s.sup = .loop k stage)
    (hresp : k < st.modulesCnt → ∃ meth, Responds st k meth) :
    ∃ a s', (a = .sup ∨ a = .thread k) ∧ st.step s a = some s' ∧
      loopVariant st s' < loopVariant st s ∧ Advances st k s'.sup ∧
      (s'.exitFlag = s.exitFlag ∨ st.starts k = false) := by
  have hsound := h
  unfold Sound at h
  rw [hp] at h
  obtain ⟨hopen, hstage⟩ := h
  have hsup : (∃ s', st.supStep s = some s' ∧ s'.exitFlag = s.exitFlag ∧
      loopVariant st s' < loopVariant st s ∧ Advances st k s'.sup) →
      ∃ a s', (a = .sup ∨ a = .thread k) ∧ st.step s a = some s' ∧
        loopVariant st s' < loopVariant st s ∧ Advances st k s'.sup ∧
        (s'.exitFlag = s.exitFlag ∨ st.starts k = false) :=
    fun ⟨s', hs, hexit, hlt, hadv⟩ => ⟨.sup, s', Or.inl rfl, hs, hlt, hadv, Or.inl hexit⟩
  have hstay : ∀ stage', Advances st k (.loop k stage') := fun stage' => Or.inl ⟨stage', rfl⟩
  cases stage with
  | init =>
    apply hsup
    rcases Nat.lt_or_ge k st.modulesCnt with hk | hk
    · simp [Setup.supStep, hp, hk, loopVariant, stageRank, State.setMod, hstay]
    · simp [Setup.supStep, hp, Nat.not_lt.mpr hk, loopVariant, stageRank, Advances, hk]
  | create =>
    apply hsup
    have hrank := entryRank_first (st.method k)
    simp only [Setup.supStep, hp, Option.some.injEq, exists_eq_left', loopVariant, stageRank,
      Setup.createThread, State.enter, State.setMod, Function.update_self, true_and]
    exact ⟨by omega, hstay _⟩
  | waitStart =>
    obtain ⟨hk, hcontrol, -⟩ := hstage
    obtain ⟨meth, hr⟩ := hresp hk
    have hle := st.posts_le_one k (s.entry k)
    rcases Nat.eq_zero_or_pos (st.posts k (s.entry k)) with hzero | hpos
    · obtain ⟨s', hs, hp', hlt, hexit⟩ := entry_progress hr hsound hp hzero
      refine ⟨.thread k, s', Or.inr rfl, hs, ?_, hp' ▸ hstay _, hexit⟩
      simp only [loopVariant, hp, hp']
      omega
    · apply hsup
      have hone : s.startControl = 1 := by omega
      simp only [Setup.supStep, hp, semWait, hone, Nat.zero_lt_one, if_true, Option.map_some,
        Option.some.injEq, exists_eq_left', loopVariant, stageRank, true_and]
      exact ⟨by omega, hstay _⟩
  | testIdx =>
    apply hsup
    simp only [Setup.supStep, hp, Option.some.injEq, exists_eq_left', true_and]
    split <;> exact ⟨by simp [loopVariant, hp, stageRank], hstay _⟩
  | joinFailed =>
    obtain ⟨hk, -, -, -, hstarts, meth, hm, hret⟩ := hstage
    obtain ⟨meth', hr⟩ := hresp hk
    have hfin : s.finished k = true := by
      simp [State.finished, hret (hr.method_eq hm ▸ hr.client hstarts)]
    apply hsup
    simp [Setup.supStep, hp, hfin, loopVariant, stageRank, hstay]
  | setError =>
    apply hsup
    simp [Setup.supStep, hp, loopVariant, stageRank, State.setMod, hstay]
  | plError =>
    apply hsup
    simp [Setup.supStep, hp, loopVariant, stageRank, Advances, hstage.2.2.2.2.1]
  | setInit =>
    apply hsup
    have hk := hstage.1
    simp only [Setup.supStep, hp, Option.some.injEq, exists_eq_left', loopVariant, stageRank,
      State.setMod, true_and]
    exact ⟨by omega, Or.inr (Or.inl rfl)⟩

/-! ## Enough: the first failure returns -/

theorem run_append {ok : Action → Prop} {es fs : List Event} (h : st.Run es s)
    (h' : Trace st.system ok s fs s') : st.Run (es ++ fs) s' :=
  h.append (h'.mono fun _ _ => trivial)

theorem postsOnce (hf : FailsByReturn st) : PostsOnce st := by
  intro es s h i hi
  have hsound := sound_of_run h
  have hle := st.posts_le_one i (s.entry i)
  rw [count_of_run h i]
  refine ⟨hle, ?_⟩
  rcases created_cases hsound hi with hone | hp
  · exact ⟨[], s, .start, by rw [List.append_nil, count_of_run h i, hone]⟩
  · have hstep : ∀ s, (Sound st s ∧ s.sup = .loop i .waitStart) → ¬ st.posts i (s.entry i) = 1 →
        ∃ a s', a = .thread i ∧ st.system.step s a = some s' ∧
          (Sound st s' ∧ s'.sup = .loop i .waitStart) ∧
          entryRank (s'.entry i) < entryRank (s.entry i) := by
      rintro s ⟨hsound, hp⟩ hgoal
      have hle := st.posts_le_one i (s.entry i)
      have hopen : Opened st s i ∧ i < st.modulesCnt := by
        unfold Sound at hsound
        rw [hp] at hsound
        exact ⟨hsound.1, hsound.2.1⟩
      obtain ⟨meth, hr⟩ := responds_of_opened hf hopen.1 hopen.2
      obtain ⟨s', hs, hp', hlt, -⟩ := entry_progress hr hsound hp (by omega)
      exact ⟨.thread i, s', rfl, hs, ⟨sound_step hsound hs, hp'⟩, hlt⟩
    obtain ⟨t, ⟨fs, ht⟩, -, hone⟩ :=
      reaches_of_variant (fun s : State => entryRank (s.entry i)) hstep ⟨hsound, hp⟩
    exact ⟨fs, t, ht, by rw [count_of_run (run_append h ht) i, hone]⟩

/-- A module whose main loop runs while the startup loop is at it has been started. -/
theorem started_of_entering (hf : FailsByReturn st) {k : Nat} {meth : Method}
    (hopen : Opened st s k) (hk : k < st.modulesCnt) (hm : st.method k = some meth)
    (he : Entering st s k meth (s.entry k)) (hloop : s.entry k = .loop) : (s.mods k).idx ≠ -1 := by
  rw [hloop] at he
  obtain ⟨hr, hstarts⟩ := he
  intro hneg
  have hfalse : st.starts k = false := by
    rw [Bool.eq_false_iff, ne_eq, starts_of_idx hm hr hstarts]
    omega
  obtain ⟨meth', hresp⟩ := responds_of_opened hf hopen hk
  rw [hstarts (hresp.method_eq hm ▸ hresp.client hfalse)] at hfalse
  cases hfalse

/-- The first module that fails is not in its main loop. -/
theorem not_loop_of_failed (hf : FailsByReturn st) (hk : st.startable < st.modulesCnt)
    {meth : Method} (hm : st.method st.startable = some meth)
    (hret : meth.hasClient = true → s.entry st.startable = .returned) :
    s.entry st.startable ≠ .loop := by
  obtain ⟨meth', hm', hclient, -⟩ := hf hk
  obtain rfl := Option.some.inj (hm'.symm.trans hm)
  rw [hret hclient]
  exact Entry.noConfusion

/-- Where the main loop of a thread runs, its module has been started. -/
theorem started_of_loop (hf : FailsByReturn st) {i : Nat} (h : Sound st s)
    (hi : s.entry i = .loop) : (s.mods i).idx ≠ -1 := by
  unfold Sound at h
  cases hp : s.sup with
  | plUnknown =>
    rw [hp] at h
    rcases Nat.eq_zero_or_pos i with rfl | hpos
    · rw [h.2.1] at hi; cases hi
    · rw [(h.1.after i hpos).1] at hi; cases hi
  | loop k stage =>
    rw [hp] at h
    obtain ⟨hopen, hstage⟩ := h
    rcases Nat.lt_trichotomy i k with hlt | rfl | hgt
    · have := (hopen.before i hlt).2.1
      omega
    · cases stage with
      | init => rw [hstage.1] at hi; cases hi
      | create => rw [hstage.2.1] at hi; cases hi
      | waitStart =>
        obtain ⟨hk, -, ⟨-, he⟩ | ⟨meth, hm, he⟩⟩ := hstage
        · rw [he] at hi; cases hi
        · exact started_of_entering hf hopen hk hm he hi
      | testIdx =>
        obtain ⟨hk, -, -, meth, hm, he⟩ := hstage
        exact started_of_entering hf hopen hk hm he hi
      | setInit =>
        have := hstage.2.2.2.2.1
        omega
      | joinFailed | setError | plError =>
        obtain ⟨hk, -, -, -, hstarts, meth, hm, hret⟩ := hstage
        obtain rfl := startable_of_opened hopen hstarts
        exact absurd hi (not_loop_of_failed hf hk hm hret)
    · rw [(hopen.after i hgt).1] at hi; cases hi
  | verdict | join _ | destroy _ | returned =>
    have hclosed : Closed st s := by
      rw [hp] at h
      first | exact h | exact h.1
    rcases Nat.lt_trichotomy i st.startable with hlt | rfl | hgt
    · exact (hclosed.before i hlt).2
    · rcases Nat.lt_or_ge st.startable st.modulesCnt with hlt | hge
      · obtain ⟨meth, hm, -, hret⟩ := hclosed.failed hlt
        exact absurd hi (not_loop_of_failed hf hlt hm hret)
      · rw [hclosed.after _ (Or.inr hge)] at hi; cases hi
    · rw [hclosed.after _ (Or.inl hgt)] at hi; cases hi

theorem endsAlone (hf : FailsByReturn st) : EndsAlone st := by
  intro es s h i hposted hidx
  have hcount := count_of_run h i
  have hpos : 0 < es.count (.posted i) := List.count_pos_iff.mpr hposted
  refine ⟨s, .refl s, ?_⟩
  cases he : s.entry i <;> simp only [he, Setup.posts] at hcount <;> try omega
  case loop => exact absurd hidx (started_of_loop hf (sound_of_run h) he)
  case returned => simp [State.finished, he]

theorem loopFinishes (hf : FailsByReturn st) : LoopFinishes st := by
  intro es s h hp
  have hstep : ∀ s, (Sound st s ∧ s.sup.decided = false) → ¬ s.sup = .verdict →
      ∃ a s', True ∧ st.system.step s a = some s' ∧ (Sound st s' ∧ s'.sup.decided = false) ∧
        loopVariant st s' < loopVariant st s := by
    rintro s ⟨hsound, hp⟩ hgoal
    cases hp' : s.sup with
    | plUnknown =>
      have hs : st.step s .sup = some { s with plState := .unknown, sup := .loop 0 .init } := by
        simp [Setup.step, Setup.supStep, hp']
      refine ⟨.sup, _, trivial, hs, ⟨sound_step hsound hs, rfl⟩, ?_⟩
      simp [loopVariant, hp', stageRank]
    | loop k stage =>
      have hresp : k < st.modulesCnt → ∃ meth, Responds st k meth := by
        intro hk
        unfold Sound at hsound
        rw [hp'] at hsound
        exact responds_of_opened hf hsound.1 hk
      obtain ⟨a, s', -, hs, hlt, hadv, -⟩ := loop_progress hsound hp' hresp
      refine ⟨a, s', trivial, hs, ⟨sound_step hsound hs, ?_⟩, hlt⟩
      rcases hadv with ⟨stage', h⟩ | h | ⟨h, -⟩ <;> rw [h] <;> rfl
    | verdict => exact absurd hp' hgoal
    | join _ | destroy _ | returned => rw [hp'] at hp; cases hp
  obtain ⟨t, ht, -, hgoal⟩ := reaches_of_variant (loopVariant st) hstep ⟨sound_of_run h, hp⟩
  exact ⟨t, ht, hgoal⟩

/-! ## Necessary: a failure that does not return -/

/-- The startup loop comes to every place up to the first that fails. -/
theorem reaches_place {k : Nat} (hk : k ≤ st.startable) :
    ∃ es s, st.Run es s ∧ s.sup = .loop k .init ∧ s.exitFlag = false := by
  induction k with
  | zero =>
    have hs : st.system.step st.initial .sup =
        some { st.initial with plState := .unknown, sup := .loop 0 .init } := rfl
    exact ⟨_, _, .next .start trivial hs, rfl, rfl⟩
  | succ k ih =>
    obtain ⟨es, s, h, hp, hexit⟩ := ih (by omega)
    have hstarts := Setup.starts_of_lt_startable (show k < st.startable by omega)
    have hlt : k < st.modulesCnt := by
      have := st.startable_le
      omega
    have hstep : ∀ s, (Sound st s ∧ s.exitFlag = false ∧
          ((∃ stage, s.sup = .loop k stage) ∨ s.sup = .loop (k + 1) .init)) →
        ¬ s.sup = .loop (k + 1) .init →
        ∃ a s', True ∧ st.system.step s a = some s' ∧ (Sound st s' ∧ s'.exitFlag = false ∧
          ((∃ stage, s'.sup = .loop k stage) ∨ s'.sup = .loop (k + 1) .init)) ∧
          loopVariant st s' < loopVariant st s := by
      rintro s ⟨hsound, hexit, ⟨stage, hp⟩ | hp⟩ hgoal
      · obtain ⟨a, s', -, hs, hlt', hadv, hexit'⟩ :=
          loop_progress hsound hp fun _ => responds_of_starts hstarts
        rw [hstarts, Bool.true_eq_false, or_false] at hexit'
        refine ⟨a, s', trivial, hs, ⟨sound_step hsound hs, hexit'.trans hexit, ?_⟩, hlt'⟩
        rcases hadv with hadv | hadv | ⟨-, hadv⟩
        · exact Or.inl hadv
        · exact Or.inr hadv
        · rw [hstarts, Bool.true_eq_false, or_false] at hadv
          omega
      · exact absurd hp hgoal
    obtain ⟨t, ⟨fs, ht⟩, ⟨-, hexit', -⟩, hgoal⟩ :=
      reaches_of_variant (loopVariant st) hstep ⟨sound_of_run h, hexit, Or.inl ⟨_, hp⟩⟩
    exact ⟨es ++ fs, t, run_append h ht, hgoal, hexit'⟩

/-- A module thread just created, with nothing raised or posted yet. -/
structure Created (st : Setup) (s : State) (k : Nat) : Prop where
  entry : s.entry k = firstStatement (st.method k)
  exitFlag : s.exitFlag = false
  state : (s.mods k).state = .unknown
  newCmd : (s.mods k).box.newCmd = 0
  pc : ∀ meth, st.method k = some meth → (s.mods k).thread.pc = meth.loopEntry

theorem reaches_created (hk : st.startable < st.modulesCnt) :
    ∃ es s, st.Run es s ∧ s.sup = .loop st.startable .waitStart ∧ Created st s st.startable := by
  obtain ⟨es, s, h, hp, hexit⟩ := reaches_place (Nat.le_refl st.startable)
  generalize st.startable = k at hk hp ⊢
  have hinit : st.system.step s .sup =
      some { s.setMod k (moduleInit (s.mods k)) with sup := .loop k .create } := by
    simp [Setup.system, Setup.step, Setup.supStep, hp, hk]
  have h1 := h.next trivial hinit
  have h2 := h1.next (a := Action.sup) trivial rfl
  refine ⟨_, _, h2, rfl, ?_⟩
  constructor
  · simp [Setup.createThread, State.enter]
  · exact hexit
  · simp [Setup.createThread, State.enter, State.setMod, moduleInit]
  · simp [Setup.createThread, State.enter, State.setMod, moduleInit]
  · intro meth hm
    simp [Setup.createThread, State.enter, State.setMod, hm]

/-- Where every created thread posts, the first failing module has a thread body, and a
command line if it is a child process. -/
theorem method_of_postsOnce (hposts : PostsOnce st) (hk : st.startable < st.modulesCnt) :
    ∃ meth, st.method st.startable = some meth ∧
      (meth.hasClient = true → (st.argv st.startable).isSome = true) := by
  obtain ⟨es, s, h, -, hc⟩ := reaches_created hk
  generalize st.startable = k at hk hc ⊢
  have habsent : s.entry k ≠ .absent := by
    rw [hc.entry]
    cases st.method k with
    | none => simp [firstStatement]
    | some meth => cases meth <;> simp [firstStatement, Method.hasClient]
  obtain ⟨-, fs, t, ht, hone⟩ := hposts es s h k habsent
  rw [count_of_run (run_append h ht) k] at hone
  cases hm : st.method k with
  | none =>
    have hstay : t = s := by
      refine invariant (P := fun _ t => t = s) rfl ?_ ht
      rintro _ u a u' rfl rfl hs
      simp [Setup.system, Setup.step, Setup.threadStep, hm] at hs
    rw [hstay, hc.entry, posts_first] at hone
    cases hone
  | some meth =>
    refine ⟨meth, rfl, fun hclient => ?_⟩
    by_contra hargv
    have hargv' : st.argv k = none := by simpa using hargv
    have hstay : t.entry k = .testArgv ∨ t.entry k = .returned := by
      refine invariant (P := fun _ t => t.entry k = .testArgv ∨ t.entry k = .returned)
        (Or.inl (by simp [hc.entry, hm, firstStatement, hclient])) ?_ ht
      rintro _ u a u' (hu | hu) rfl hs <;>
        simp only [Setup.system, Setup.step, Setup.threadStep, hm, Option.bind_some, hu,
          reduceCtorEq, if_false, Setup.entryStep, hargv', if_true, Option.some.injEq] at hs
      subst hs
      exact Or.inr (by simp [State.enter])
    rcases hstay with he | he <;> simp [he, Setup.posts, hargv'] at hone

/-- Where an internal thread waits to be told to stop. -/
def Method.idles : Method → Pc → Bool
  | .initial, .testExit | .initial, .testStop | .initial, .testLive => true
  | .finalization, .waitNewCmd => true
  | _, _ => false

/-- An internal thread in its main loop that nobody has told to stop. -/
structure Idle (s : State) (k : Nat) (meth : Method) : Prop where
  entry : s.entry k = .loop
  exitFlag : s.exitFlag = false
  state : (s.mods k).state = .unknown
  newCmd : (s.mods k).box.newCmd = 0
  pc : Method.idles meth (s.mods k).thread.pc = true

theorem idle_step {k : Nat} {meth : Method} (hm : st.method k = some meth) (h : Idle s k meth)
    (hs : st.step s (.thread k) = some s') : Idle s' k meth := by
  obtain ⟨meth', hm', ⟨-, hs⟩ | ⟨hne, -⟩⟩ := threadStep_cases hs
  · rw [hm] at hm'
    cases hm'
    obtain ⟨j, w, hw, rfl⟩ := loopStep_some hs
    obtain ⟨e, he, rfl⟩ := threadStep_some hw
    obtain ⟨hentry, hexit, hstate, hnew, hpc⟩ := h
    have hview : (s.view k j).me = s.mods k := rfl
    cases hp : (s.mods k).thread.pc <;> cases meth <;> simp only [hp, Method.idles] at hpc <;>
      try (cases hpc; done)
    case waitNewCmd.finalization =>
      simp [exec, hview, hp, hnew, semWait] at he
    all_goals
      obtain rfl : s.view k j = e := by simpa [exec, hview, hp] using he
      constructor <;> simp [State.putView, hp, Pc.touchesNext, Pc.sends, Pc.entersSend,
        State.setMod, hentry, hexit, View.goto, View.setThread, hstate, hnew, test, Method.body,
        initialThread, Method.idles, State.view]
  · exact absurd h.entry hne

theorem idle_not_finished {k : Nat} {meth : Method} (h : Idle s k meth) : s.finished k = false := by
  have hpc := h.pc
  have hne : (s.mods k).thread.pc ≠ .ended := by
    intro hp
    rw [hp] at hpc
    cases meth <;> cases hpc
  simp [State.finished, h.entry, hne]

/-- An internal thread goes from its creation to its main loop, whatever its `idx` is. -/
theorem reaches_idle (hk : st.startable < st.modulesCnt) {meth : Method}
    (hm : st.method st.startable = some meth) (hc : meth.hasClient = false) :
    ∃ es s, st.Run es s ∧ s.sup = .loop st.startable .waitStart ∧ Idle s st.startable meth := by
  obtain ⟨es, s, h, hp, hcreated⟩ := reaches_created hk
  generalize st.startable = k at hk hm hp hcreated
  obtain ⟨hentry, hexit, hstate, hnew, hpc⟩ := hcreated
  have hstart : s.entry k = .startProcess := by simp [hentry, hm, firstStatement, hc]
  have h1 : st.system.step s (.thread k) = some ((st.startProcess s k meth).enter k .post) := by
    simp [Setup.system, Setup.step, Setup.threadStep, hm, hstart, Setup.entryStep, hc]
  have hrun1 := h.next trivial h1
  generalize hs1 : (st.startProcess s k meth).enter k .post = s1 at h1 hrun1
  have hpost : s1.entry k = .post := by simp [← hs1, State.enter]
  have h2 : st.system.step s1 (.thread k) =
      some { s1.enter k .loop with startControl := s1.startControl + 1 } := by
    simp [Setup.system, Setup.step, Setup.threadStep, hm, hpost, Setup.entryStep]
  refine ⟨_, _, hrun1.next trivial h2, by rw [← hs1]; exact hp, ?_⟩
  have hpc' := hpc meth hm
  constructor <;> simp only [← hs1, State.enter, Setup.startProcess, State.setMod,
    Function.update_self]
  · exact hexit
  · exact hstate
  · exact hnew
  · rw [hpc']
    cases meth <;> first
      | rfl
      | cases hc

theorem posted_of_idle {es : List Event} {k : Nat} {meth : Method} (h : st.Run es s)
    (hidle : Idle s k meth) : Event.posted k ∈ es := by
  have hcount := count_of_run h k
  rw [hidle.entry] at hcount
  exact List.count_pos_iff.mp (hcount ▸ Nat.one_pos)

/-- An idle thread that has failed has set its `idx` before. -/
theorem idx_of_idle {es : List Event} {k : Nat} {meth : Method} (h : st.Run es s)
    (hp : s.sup = .loop k .waitStart) (hm : st.method k = some meth) (hidle : Idle s k meth)
    (hfalse : st.starts k = false) : (s.mods k).idx = -1 := by
  have hsound := sound_of_run h
  unfold Sound at hsound
  rw [hp] at hsound
  obtain ⟨-, -, -, ⟨-, he⟩ | ⟨meth', hm', he⟩⟩ := hsound
  · rw [hidle.entry] at he
    cases he
  · rw [hm] at hm'
    cases hm'
    rw [hidle.entry] at he
    obtain ⟨hr, hstarts⟩ := he
    refine hr.eq_neg_one ?_
    by_contra hpos
    rw [(starts_of_idx hm hr hstarts).mpr (by omega)] at hfalse
    cases hfalse

/-- Where every thread with `idx = -1` ends by itself, the first failing module is not an
internal thread. -/
theorem hasClient_of_endsAlone (hends : EndsAlone st) (hk : st.startable < st.modulesCnt)
    {meth : Method} (hm : st.method st.startable = some meth) : meth.hasClient = true := by
  cases hc : meth.hasClient with
  | true => rfl
  | false =>
    exfalso
    obtain ⟨es, s, h, hp, hidle⟩ := reaches_idle hk hm hc
    have hidx := idx_of_idle h hp hm hidle (Setup.starts_startable hk)
    obtain ⟨t, ht, hfin⟩ := hends _ s h _ (posted_of_idle h hidle) hidx
    have hidle' : Idle t st.startable meth := by
      refine ht.invariant (P := fun s => Idle s st.startable meth) hidle ?_
      rintro u a u' hu rfl hs
      exact idle_step hm hu hs
    rw [idle_not_finished hidle'] at hfin
    cases hfin

/-- What the startup needs, from the threads that it creates. -/
theorem failsByReturn_of_completes (h : StartupCompletes st) : FailsByReturn st := by
  intro hk
  obtain ⟨meth, hm, hargv⟩ := method_of_postsOnce h.posts hk
  have hc := hasClient_of_endsAlone h.ends hk hm
  exact ⟨meth, hm, hc, hargv hc⟩

/-- **The startup can always be completed** exactly when the first module that cannot be
started, if there is one, is a child process with a command line. -/
theorem startupCompletes_iff (st : Setup) : StartupCompletes st ↔ FailsByReturn st :=
  ⟨failsByReturn_of_completes, fun hf => ⟨postsOnce hf, endsAlone hf, loopFinishes hf⟩⟩

/-- A process module without a name, as `parse_module_json` reads it: internal, and no
command line. -/
def namelessMiddle : Setup where
  minfos := [⟨0, .first, false, 1, none⟩, ⟨1, .middle, false, 2, none⟩,
    ⟨2, .last, false, -1, none⟩]
  accepted := rfl
  processCnt := 0
  processCntMax := 10
  spawns _ := true
  offsets := [0, 64]

theorem nameless_never_posts : ¬ ∀ st : Setup, StartupCompletes st := by
  intro hclaim
  obtain ⟨meth, -, -, hargv⟩ := failsByReturn_of_completes (hclaim namelessMiddle) (by decide)
  have hnone : namelessMiddle.argv namelessMiddle.startable = none := by decide
  rw [hnone] at hargv
  cases hargv

end DclProcessor.Pipeline.Startup
