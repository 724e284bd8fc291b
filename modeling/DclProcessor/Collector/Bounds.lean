import DclProcessor.Collector.Fragments

/-!
Where the reads of `source_data_thread_tcp` go. The sizes asked for come from the peer: each
header announces one, and what is left when the announced bytes are exhausted is asked for in
pieces of a header.
-/

namespace DclProcessor.Collector

open Transition Bytes

variable {dataLen : Nat}

/-- The read that the loop issues, if it goes on, stays in `packet->header` or `packet->data`. -/
def InBounds (dataLen : Nat) (r : Reader) : Prop :=
  r.exitFlag = false → r.recievedLen + r.asked ≤ if r.headerOk then dataLen else headerLen

/-- `remaining_len` after a header that announces so much, of which `n` bytes were read last. -/
def announced (dataLen n : Nat) (r : Reader) : Nat :=
  sizeSub (leValue ((r.fill dataLen n).header.take 8)) n

/-- A header announces no more than there is room for after its own last bytes are taken off;
and the announced bytes fill `packet->data`, or leave room for a header behind them. -/
def LeavesRoom (dataLen : Nat) (r : Reader) : ReadResult → Prop
  | .bytes n =>
    if r.headerOk then
      n = r.asked → r.recievedLen + n < dataLen → r.recievedLen + n + headerLen ≤ dataLen
    else
      r.recievedLen + n = headerLen → dataLen = 0 ∨
        if announced dataLen n r = 0 then headerLen ≤ dataLen else announced dataLen n r ≤ dataLen
  | _ => True

instance (r : Reader) : Decidable (InBounds dataLen r) :=
  inferInstanceAs (Decidable (r.exitFlag = false → _ ≤ _))

instance : ∀ (r : Reader) (res : ReadResult), Decidable (LeavesRoom dataLen r res)
  | r, .bytes n => inferInstanceAs (Decidable (if r.headerOk = true then
      n = r.asked → r.recievedLen + n < dataLen → r.recievedLen + n + headerLen ≤ dataLen
    else r.recievedLen + n = headerLen → dataLen = 0 ∨
      if announced dataLen n r = 0 then headerLen ≤ dataLen else announced dataLen n r ≤ dataLen))
  | _, .error | _, .none => inferInstanceAs (Decidable True)

/-- Where the loop is: in a header whose rest it asks for, or in the data of a frame. -/
structure Collecting (dataLen : Nat) (r : Reader) : Prop where
  header : r.headerOk = false → r.recievedLen < headerLen ∧
    r.remainingLen = headerLen - r.recievedLen
  data : r.headerOk = true → r.recievedLen < dataLen ∧ r.remainingLen < 2 ^ 64

/-! ## One read -/

variable {r r' : Reader} {n : Nat}

theorem asked_of_header (h : Collecting dataLen r) (hok : r.headerOk = false) :
    r.asked = headerLen - r.recievedLen := by
  obtain ⟨hlt, hrem⟩ := h.header hok
  rw [Reader.asked, hrem, if_neg (by omega)]

/-- A read that goes to its buffer only changes that, and the stream. -/
theorem fill_fields (hroom : r.recievedLen + n ≤ if r.headerOk then dataLen else headerLen) :
    (r.fill dataLen n).overrun = r.overrun ∧ (r.fill dataLen n).exitFlag = r.exitFlag ∧
      (r.fill dataLen n).headerOk = r.headerOk ∧
      (r.fill dataLen n).recievedLen = r.recievedLen ∧
      (r.fill dataLen n).remainingLen = r.asked := by
  unfold Reader.fill
  cases hok : r.headerOk <;> simp only [hok] at hroom <;> simp_all

/-- The header is not complete yet. -/
theorem account_header (dataLen : Nat) (hok : r.headerOk = false) (hlt : r.recievedLen + n < headerLen) :
    (r.account dataLen n).headerOk = false ∧
      (r.account dataLen n).recievedLen = r.recievedLen + n ∧
      (r.account dataLen n).remainingLen = sizeSub r.remainingLen n ∧
      (r.account dataLen n).exitFlag = r.exitFlag := by
  have hadd : sizeAdd r.recievedLen n = r.recievedLen + n :=
    sizeAdd_eq (by unfold headerLen at hlt; omega)
  simp [Reader.account, Reader.headerPart, Reader.headerEnd, Reader.dataPart, Reader.dataEnd, hok,
    hadd, hlt, hlt.ne]

/-- Behind a header that is complete the loop asks for what it announces. -/
theorem account_headerEnd (hok : r.headerOk = false) (hend : r.recievedLen + n = headerLen)
    (hdata : dataLen ≠ 0) :
    (r.account dataLen n).headerOk = true ∧ (r.account dataLen n).recievedLen = 0 ∧
      (r.account dataLen n).remainingLen = sizeSub (leValue (r.header.take 8)) n ∧
      (r.account dataLen n).exitFlag = r.exitFlag := by
  have hadd : sizeAdd r.recievedLen n = headerLen := by rw [sizeAdd_eq (by rw [hend]; decide), hend]
  have hpos : 0 < dataLen := by omega
  simp [Reader.account, Reader.headerPart, Reader.headerEnd, Reader.dataPart, Reader.dataEnd, hok,
    hadd, hpos, hpos.ne]

/-- Frames without data are delivered with their header. -/
theorem account_headerEnd_zero (hok : r.headerOk = false) (hend : r.recievedLen + n = headerLen) :
    (r.account 0 n).headerOk = false ∧ (r.account 0 n).recievedLen = 0 ∧
      (r.account 0 n).remainingLen = headerLen ∧ (r.account 0 n).exitFlag = r.exitFlag := by
  have hadd : sizeAdd r.recievedLen n = headerLen := by rw [sizeAdd_eq (by rw [hend]; decide), hend]
  simp [Reader.account, Reader.headerPart, Reader.headerEnd, Reader.dataPart, Reader.dataEnd, hok,
    hadd]

theorem account_data (hok : r.headerOk = true) (hsize : dataLen < 2 ^ 64)
    (hlt : r.recievedLen + n < dataLen) :
    (r.account dataLen n).headerOk = true ∧
      (r.account dataLen n).recievedLen = r.recievedLen + n ∧
      (r.account dataLen n).remainingLen = sizeSub r.remainingLen n ∧
      (r.account dataLen n).exitFlag = r.exitFlag := by
  have hadd : sizeAdd r.recievedLen n = r.recievedLen + n := sizeAdd_eq (by omega)
  simp [Reader.account, Reader.headerPart, Reader.headerEnd, Reader.dataPart, Reader.dataEnd, hok,
    hadd, hlt, hlt.ne]

theorem account_dataEnd (hok : r.headerOk = true) (hsize : dataLen < 2 ^ 64)
    (hend : r.recievedLen + n = dataLen) :
    (r.account dataLen n).headerOk = false ∧ (r.account dataLen n).recievedLen = 0 ∧
      (r.account dataLen n).remainingLen = headerLen ∧
      (r.account dataLen n).exitFlag = r.exitFlag := by
  have hadd : sizeAdd r.recievedLen n = dataLen := by rw [sizeAdd_eq (by omega), hend]
  simp [Reader.account, Reader.headerPart, Reader.headerEnd, Reader.dataPart, Reader.dataEnd, hok,
    hadd]

theorem sizeSub_lt (a b : Nat) : sizeSub a b < 2 ^ 64 := Nat.mod_lt _ (by decide)

/-- At the start of a header. -/
theorem collecting_restart (hok : r.headerOk = false) (hrecv : r.recievedLen = 0)
    (hrem : r.remainingLen = headerLen) : InBounds dataLen r ∧ Collecting dataLen r := by
  have hcollecting : Collecting dataLen r :=
    ⟨fun _ => ⟨by rw [hrecv]; decide, by rw [hrem, hrecv]; rfl⟩,
      fun hdata => by rw [hok] at hdata; cases hdata⟩
  refine ⟨fun _ => ?_, hcollecting⟩
  rw [asked_of_header hcollecting hok, hok, hrecv]
  exact Nat.le_refl headerLen

theorem inBounds_iff (hexit : r.exitFlag = false) : InBounds dataLen r ↔
    r.recievedLen + (if r.remainingLen = 0 then headerLen else r.remainingLen) ≤
      if r.headerOk then dataLen else headerLen :=
  forall_prop_of_true hexit

/-- What `LeavesRoom` promises for one read is what the next read needs. -/
def StepOk (dataLen n : Nat) (r : Reader) : Prop :=
  (InBounds dataLen ((r.fill dataLen n).account dataLen n) ↔ LeavesRoom dataLen r (.bytes n)) ∧
    (InBounds dataLen ((r.fill dataLen n).account dataLen n) →
      Collecting dataLen ((r.fill dataLen n).account dataLen n))

/-- A read that does not complete the header. -/
theorem stepOk_header (h : Collecting dataLen r) (hok : r.headerOk = false)
    (hexit : r.exitFlag = false) (hpart : r.recievedLen + n < headerLen) :
    StepOk dataLen n r := by
  have hasked := asked_of_header h hok
  have hroom : r.recievedLen + n ≤ if r.headerOk then dataLen else headerLen := by
    rw [hok]
    exact hpart.le
  obtain ⟨-, hexit', hok', hrecv', hrem'⟩ := fill_fields hroom
  have hsub : sizeSub (headerLen - r.recievedLen) n = headerLen - (r.recievedLen + n) := by
    rw [sizeSub_eq (by omega) (by unfold headerLen; omega)]
    omega
  obtain ⟨hok'', hrecv'', hrem'', hexit''⟩ :=
    account_header dataLen (hok'.trans hok) (by rw [hrecv']; exact hpart)
  rw [hrecv'] at hrecv''
  rw [hrem', hasked, hsub] at hrem''
  have hin : InBounds dataLen ((r.fill dataLen n).account dataLen n) := by
    rw [inBounds_iff (hexit''.trans (hexit'.trans hexit)), hok'', hrecv'', hrem'',
      if_neg (by omega), if_neg (by decide)]
    omega
  have hleaves : LeavesRoom dataLen r (.bytes n) := by
    simp only [LeavesRoom, hok]
    rw [if_neg (by decide)]
    exact fun hend => absurd hend hpart.ne
  refine ⟨iff_of_true hin hleaves, fun _ => ⟨fun _ => ⟨?_, ?_⟩, fun hdata => ?_⟩⟩
  · rw [hrecv'']
    exact hpart
  · rw [hrem'', hrecv'']
  · exact absurd (hdata.symm.trans hok'') (by decide)

/-- The read that completes a header: what it announces is asked for. -/
theorem stepOk_headerEnd (hok : r.headerOk = false) (hexit : r.exitFlag = false)
    (hend : r.recievedLen + n = headerLen) : StepOk dataLen n r := by
  have hroom : r.recievedLen + n ≤ if r.headerOk then dataLen else headerLen := by
    rw [hok]
    exact hend.le
  obtain ⟨-, hexit', hok', hrecv', -⟩ := fill_fields hroom
  have hleaves : LeavesRoom dataLen r (.bytes n) ↔ dataLen = 0 ∨
      if announced dataLen n r = 0 then headerLen ≤ dataLen
      else announced dataLen n r ≤ dataLen := by
    simp only [LeavesRoom, hok]
    rw [if_neg (by simp)]
    exact forall_prop_of_true hend
  rw [StepOk, hleaves]
  by_cases hdata : dataLen = 0
  · subst hdata
    obtain ⟨hok'', hrecv'', hrem'', -⟩ :=
      account_headerEnd_zero (hok'.trans hok) (by rw [hrecv']; exact hend)
    have hrestart : InBounds 0 ((r.fill 0 n).account 0 n) ∧
        Collecting 0 ((r.fill 0 n).account 0 n) := collecting_restart hok'' hrecv'' hrem''
    exact ⟨iff_of_true hrestart.1 (Or.inl rfl), fun _ => hrestart.2⟩
  · obtain ⟨hok'', hrecv'', hrem'', hexit''⟩ :=
      account_headerEnd (hok'.trans hok) (by rw [hrecv']; exact hend) hdata
    rw [inBounds_iff (hexit''.trans (hexit'.trans hexit)), hok'', hrecv'', hrem'', or_iff_right hdata]
    refine ⟨?_, fun _ => ⟨fun hheader => ?_, fun _ => ⟨?_, ?_⟩⟩⟩
    · rw [if_pos rfl, Nat.zero_add, announced]
      split <;> exact Iff.rfl
    · exact absurd (hheader.symm.trans hok'') (by decide)
    · rw [hrecv'']
      omega
    · rw [hrem'']
      exact sizeSub_lt _ n

/-- A read in the data: the room shrinks with what is asked for, until nothing is left of it. -/
theorem stepOk_data (hsize : dataLen < 2 ^ 64) (hin : InBounds dataLen r) (hok : r.headerOk = true)
    (hexit : r.exitFlag = false) (hn : n ≤ r.asked) : StepOk dataLen n r := by
  have hbound := hin hexit
  rw [hok, if_pos rfl] at hbound
  have hroom : r.recievedLen + n ≤ if r.headerOk then dataLen else headerLen := by
    rw [hok]
    exact (by omega : r.recievedLen + n ≤ dataLen)
  obtain ⟨-, hexit', hok', hrecv', hrem'⟩ := fill_fields hroom
  have hleaves : LeavesRoom dataLen r (.bytes n) ↔ (n = r.asked →
      r.recievedLen + n < dataLen → r.recievedLen + n + headerLen ≤ dataLen) := by
    simp only [LeavesRoom, hok, if_true]
  rw [StepOk, hleaves]
  rcases Nat.lt_or_eq_of_le (by omega : r.recievedLen + n ≤ dataLen) with hpart | hend
  · have hsub : sizeSub r.asked n = r.asked - n := sizeSub_eq hn (by omega)
    obtain ⟨hok'', hrecv'', hrem'', hexit''⟩ :=
      account_data (hok'.trans hok) hsize (by rw [hrecv']; exact hpart)
    rw [hrecv'] at hrecv''
    rw [hrem', hsub] at hrem''
    rw [inBounds_iff (hexit''.trans (hexit'.trans hexit)), hok'', hrecv'', hrem'', if_pos rfl]
    refine ⟨?_, fun _ => ⟨fun hheader => ?_, fun _ => ⟨?_, ?_⟩⟩⟩
    · by_cases hall : n = r.asked
      · rw [if_pos (by omega)]
        exact ⟨fun hle _ _ => hle, fun hle => hle hall hpart⟩
      · rw [if_neg (by omega)]
        exact iff_of_true (by omega) fun heq => absurd heq hall
    · exact absurd (hheader.symm.trans hok'') (by decide)
    · rw [hrecv'']
      exact hpart
    · rw [hrem'']
      omega
  · obtain ⟨hok'', hrecv'', hrem'', -⟩ :=
      account_dataEnd (hok'.trans hok) hsize (by rw [hrecv']; exact hend)
    have hrestart : InBounds dataLen ((r.fill dataLen n).account dataLen n) ∧
        Collecting dataLen ((r.fill dataLen n).account dataLen n) :=
      collecting_restart hok'' hrecv'' hrem''
    refine ⟨iff_of_true hrestart.1 fun _ hlt => absurd hlt ?_, fun _ => hrestart.2⟩
    omega

theorem stepOk (hsize : dataLen < 2 ^ 64) (h : Collecting dataLen r) (hin : InBounds dataLen r)
    (hexit : r.exitFlag = false) (hn : n ≤ r.asked) : StepOk dataLen n r := by
  cases hok : r.headerOk with
  | true => exact stepOk_data hsize hin hok hexit hn
  | false =>
    have hasked := asked_of_header h hok
    obtain ⟨hlt, -⟩ := h.header hok
    rcases Nat.lt_or_eq_of_le (by omega : r.recievedLen + n ≤ headerLen) with hpart | hend
    · exact stepOk_header h hok hexit hpart
    · exact stepOk_headerEnd hok hexit hend

/-! ## A run -/

/-- A turn in which nothing comes only puts a header in the place of nothing. -/
theorem inBounds_none (hsize : dataLen < 2 ^ 64) (h : Collecting dataLen r)
    (hin : InBounds dataLen r) (hexit : r.exitFlag = false) :
    InBounds dataLen { r with remainingLen := r.asked } ∧
      Collecting dataLen { r with remainingLen := r.asked } := by
  have hbound := hin hexit
  have hpos : r.asked ≠ 0 := by
    unfold Reader.asked
    split
    · decide
    · assumption
  have hsame : ({ r with remainingLen := r.asked } : Reader).asked = r.asked := if_neg hpos
  refine ⟨fun _ => ?_, fun hok => ⟨(h.header hok).1, asked_of_header h hok⟩, fun hok => ?_⟩
  · rw [hsame]
    exact hbound
  · have hdata : r.headerOk = true := hok
    rw [hdata, if_pos rfl] at hbound
    exact ⟨(h.data hok).1, (by omega : r.asked < 2 ^ 64)⟩

theorem inBounds_step (hsize : dataLen < 2 ^ 64) {res : ReadResult}
    (h : r.exitFlag = false → Collecting dataLen r) (hin : InBounds dataLen r)
    (hs : r.step dataLen res = some r') :
    (InBounds dataLen r' ↔ LeavesRoom dataLen r res) ∧
      (InBounds dataLen r' → r'.exitFlag = false → Collecting dataLen r') := by
  unfold Reader.step at hs
  split at hs
  case isTrue => cases hs
  case isFalse hgo =>
    obtain ⟨hexit, hoverrun⟩ : r.exitFlag = false ∧ r.overrun = false := by simpa using hgo
    have hcollecting := h hexit
    cases res with
    | error =>
      obtain rfl := Option.some.inj hs
      exact ⟨iff_of_true (fun hrun => by cases hrun) trivial, fun _ hrun => by cases hrun⟩
    | none =>
      obtain rfl := Option.some.inj hs
      obtain ⟨hin', hcollecting'⟩ := inBounds_none hsize hcollecting hin hexit
      exact ⟨iff_of_true hin' trivial, fun _ _ => hcollecting'⟩
    | bytes n =>
      dsimp only at hs
      split at hs
      case isFalse => cases hs
      case isTrue hread =>
        obtain ⟨-, hn, -, -⟩ := hread
        have hroom := (Nat.add_le_add_left hn _).trans (hin hexit)
        rw [(fill_fields hroom).1, hoverrun] at hs
        obtain rfl := Option.some.inj hs
        obtain ⟨hiff, hnext⟩ := stepOk hsize hcollecting hin hexit hn
        exact ⟨hiff, fun hin' _ => hnext hin'⟩

/-- **The reads stay in their buffers** in exactly the runs in which the announced sizes leave
room. -/
theorem inBounds_iff_leavesRoom (hsize : dataLen < 2 ^ 64) {header data stream : List UInt8}
    {as : List ReadResult} {es : List Nat}
    (h : (tcp dataLen).run as (.start header data stream) = some (es, r)) :
    (tcp dataLen).Always (InBounds dataLen) as (.start header data stream) ↔
      (tcp dataLen).Meets (LeavesRoom dataLen) as (.start header data stream) := by
  obtain ⟨hstart, hcollecting⟩ : InBounds dataLen (.start header data stream) ∧
    Collecting dataLen (.start header data stream) := collecting_restart rfl rfl rfl
  refine always_iff (I := fun r => r.exitFlag = false → Collecting dataLen r)
    (fun r res r' hI hP hs => ?_) (fun _ => hcollecting) hstart h
  exact inBounds_step hsize hI hP hs

theorem inBounds_wholeHeader :
    (tcp 2).Always (InBounds 2) [.bytes 12, .bytes 1, .bytes 1, .bytes 5] reader :=
  (inBounds_iff_leavesRoom (by decide) (Option.some_get wholeHeader_runs).symm).mpr (by decide)

/-- A header that announces a hundred bytes for a buffer of two. -/
def hugeHeader : Reader := .start (List.replicate 12 0) [0, 0] (leBytes 8 100 ++ leBytes 4 1)

theorem read_behind_data : ((tcp 2).run [.bytes 12] hugeHeader).isSome = true ∧
    ¬ (tcp 2).Always (InBounds 2) [.bytes 12] hugeHeader := by
  decide

end DclProcessor.Collector
