import DclProcessor.Collector.Tcp

/-!
When the loop delivers every frame: exactly when every frame end is the end of a
read. A header that comes in several reads makes the loop ask for more than the
rest of its frame, and a read that then crosses the frame end overruns the buffer.
-/

namespace DclProcessor.Collector

open Transition Bytes

variable {dataLen : Nat}

def frameLen (dataLen : Nat) : Nat := headerLen + dataLen

theorem sizeAdd_eq {a b : Nat} (h : a + b < 2 ^ 64) : sizeAdd a b = a + b := Nat.mod_eq_of_lt h

theorem sizeSub_eq {a b : Nat} (h : b ≤ a) (ha : a < 2 ^ 64) : sizeSub a b = a - b := by
  unfold sizeSub
  omega

theorem encode_length (f : Frame dataLen) : (encode f).length = frameLen dataLen := by
  simp [encode, f.length_data, frameLen, headerLen]
  omega

theorem encode_size (f : Frame dataLen) (hsize : frameLen dataLen < 2 ^ 64) :
    leValue ((encode f).take 8) = frameLen dataLen := by
  rw [encode, List.append_assoc, List.take_append_of_le_length (by simp),
    List.take_of_length_le (by simp), leValue_leBytes]
  exact Nat.mod_eq_of_lt hsize

theorem encode_id (f : Frame dataLen) :
    BitVec.ofNat 32 (leValue (((encode f).drop 8).take 4)) = f.id := by
  have hdrop : (encode f).drop 8 = leBytes 4 f.id.toNat ++ f.data := by
    rw [encode, List.append_assoc, List.drop_append_of_le_length (by simp)]
    simp
  rw [hdrop, List.take_append_of_le_length (by simp), List.take_of_length_le (by simp),
    leValue_leBytes]
  apply BitVec.eq_of_toNat_eq
  rw [BitVec.toNat_ofNat]
  have := f.id.isLt
  omega

theorem encode_data (f : Frame dataLen) : (encode f).drop headerLen = f.data := by
  rw [encode, List.drop_append_of_le_length (by simp [headerLen])]
  simp [headerLen]

/-- Where the loop is in frame `j`, `off` bytes of which have been read. -/
inductive Phase (frames : List (Frame dataLen)) (j off : Nat) (r : Reader) : Prop
  | header (hok : r.headerOk = false) (hoff : off < headerLen) (hrecv : r.recievedLen = off)
      (hrem : r.remainingLen = headerLen - off)
      (hbuf : ∀ f, frames[j]? = some f → r.header.take off = (encode f).take off)
  | data (hok : r.headerOk = true) (hoff : headerLen ≤ off) (hlt : off < frameLen dataLen)
      (hrecv : r.recievedLen = off - headerLen)
      (hrem : frameLen dataLen - off ≤ r.remainingLen) (hmax : r.remainingLen < 2 ^ 64)
      (hframe : ∀ f, frames[j]? = some f → r.frameId = f.id ∧
        r.data.take (off - headerLen) = f.data.take (off - headerLen))

/-- `j` frames and `off` bytes of the next one have been read, and the frames have
been delivered. -/
structure Good (frames : List (Frame dataLen)) (j off : Nat) (r : Reader) : Prop where
  phase : Phase frames j off r
  lengthHeader : r.header.length = headerLen
  lengthData : r.data.length = dataLen
  stream : r.stream = (frames.flatMap encode).drop (j * frameLen dataLen + off)
  delivered : r.delivered = (frames.take j).map fun f => (f.id, f.data)
  overrun : r.overrun = false

namespace Good

variable {frames : List (Frame dataLen)} {j off : Nat} {r : Reader}

theorem lt (h : Good frames j off r) : off < frameLen dataLen := by
  rcases h.phase with ⟨-, hoff, -⟩ | ⟨-, -, hlt, -⟩
  · unfold frameLen; omega
  · exact hlt

theorem asked (h : Good frames j off r) : r.asked = r.remainingLen := by
  unfold Reader.asked
  rcases h.phase with ⟨-, hoff, -, hrem, -⟩ | ⟨-, -, hlt, -, hrem, -, -⟩
  · rw [if_neg (by omega)]
  · rw [if_neg (by omega)]

/-- The frame a non-empty read belongs to. -/
theorem frame (h : Good frames j off r) {n : Nat} (hn : 0 < n) (hlen : n ≤ r.stream.length) :
    ∃ f, frames[j]? = some f := by
  rw [h.stream, List.length_drop, flatMap_length encode_length] at hlen
  have hj : j < frames.length := by
    by_contra hge
    have hmul : frames.length * frameLen dataLen ≤ j * frameLen dataLen :=
      Nat.mul_le_mul_right _ (by omega)
    omega
  exact ⟨frames[j], List.getElem?_eq_getElem hj⟩

/-- The bytes of a read that stays in the frame. -/
theorem chunk (h : Good frames j off r) {n : Nat} {f : Frame dataLen} (hf : frames[j]? = some f)
    (hn : off + n ≤ frameLen dataLen) : r.stream.take n = ((encode f).drop off).take n := by
  rw [h.stream]
  exact take_drop_record encode_length hf hn

theorem stream_drop (h : Good frames j off r) (n : Nat) :
    r.stream.drop n = (frames.flatMap encode).drop (j * frameLen dataLen + (off + n)) := by
  rw [h.stream, List.drop_drop, Nat.add_assoc]

/-- The header buffer after a read in the header. -/
theorem header_fill (h : Good frames j off r) (hok : r.headerOk = false)
    (hrecv : r.recievedLen = off) {n : Nat} (hn : off + n ≤ headerLen) (hlen : n ≤ r.stream.length)
    (hbuf : ∀ f, frames[j]? = some f → r.header.take off = (encode f).take off) :
    r.fill dataLen n = { r with
      remainingLen := r.remainingLen
      stream := r.stream.drop n
      header := overwrite r.header off (r.stream.take n) } ∧
    (overwrite r.header off (r.stream.take n)).length = headerLen ∧
    ∀ f, frames[j]? = some f →
      (overwrite r.header off (r.stream.take n)).take (off + n) = (encode f).take (off + n) := by
  refine ⟨?_, ?_, ?_⟩
  · simp [Reader.fill, hok, hrecv, hn, h.asked]
  · rw [overwrite_length (by rw [List.length_take, h.lengthHeader]; omega), h.lengthHeader]
  · intro f hf
    have hn' : off + n ≤ frameLen dataLen := by unfold frameLen; omega
    rw [h.chunk hf hn']
    exact overwrite_take (hbuf f hf) (by rw [encode_length]; exact hn')

/-- A read that does not finish the header. -/
theorem header_part (h : Good frames j off r) (hok : r.headerOk = false)
    (hrecv : r.recievedLen = off) (hrem : r.remainingLen = headerLen - off)
    (hbuf : ∀ f, frames[j]? = some f → r.header.take off = (encode f).take off) {n : Nat}
    (hn : off + n < headerLen) (hlen : n ≤ r.stream.length) :
    (r.fill dataLen n).overrun = false ∧
      Good frames j (off + n) ((r.fill dataLen n).account dataLen n) := by
  obtain ⟨hfill, hlength, hbuf'⟩ := h.header_fill hok hrecv hn.le hlen hbuf
  have hadd : sizeAdd off n = off + n := sizeAdd_eq (by unfold headerLen at hn; omega)
  have hsub : sizeSub (headerLen - off) n = headerLen - (off + n) := by
    rw [sizeSub_eq (by omega) (by unfold headerLen; omega)]
    omega
  have haccount : (r.fill dataLen n).account dataLen n = { r with
      stream := r.stream.drop n
      header := overwrite r.header off (r.stream.take n)
      recievedLen := off + n
      remainingLen := headerLen - (off + n) } := by
    rw [hfill]
    simp [Reader.account, Reader.headerPart, Reader.headerEnd, Reader.dataPart, Reader.dataEnd,
      hok, hrecv, hrem, hadd, hsub, hn, hn.ne]
  rw [haccount]
  refine ⟨by rw [hfill]; exact h.overrun, ?_, hlength, h.lengthData, h.stream_drop n, h.delivered,
    h.overrun⟩
  exact .header hok hn rfl rfl hbuf'

/-- The read that finishes the header of a frame with data. `remaining_len` is more
than the rest of the frame when it was not the only one. -/
theorem header_end (h : Good frames j off r) (hok : r.headerOk = false)
    (hrecv : r.recievedLen = off)
    (hbuf : ∀ f, frames[j]? = some f → r.header.take off = (encode f).take off) {n : Nat}
    (hpos : 0 < n) (hn : off + n = headerLen) (hlen : n ≤ r.stream.length)
    (hsize : frameLen dataLen < 2 ^ 64) (hdata : 0 < dataLen) :
    (r.fill dataLen n).overrun = false ∧
      Good frames j (off + n) ((r.fill dataLen n).account dataLen n) := by
  obtain ⟨hfill, hlength, hbuf'⟩ := h.header_fill hok hrecv hn.le hlen hbuf
  obtain ⟨f, hf⟩ := h.frame hpos hlen
  have hhead := hbuf' f hf
  rw [hn, List.take_of_length_le hlength.le] at hhead
  have hadd : sizeAdd off n = headerLen := by rw [sizeAdd_eq (by rw [hn]; decide), hn]
  have hvalue : leValue (((encode f).take headerLen).take 8) = frameLen dataLen := by
    rw [List.take_take, show min 8 headerLen = 8 from rfl, encode_size f hsize]
  have hid : BitVec.ofNat 32 (leValue ((((encode f).take headerLen).drop 8).take 4)) = f.id := by
    rw [← encode_id f, List.drop_take, List.take_take]
    rfl
  have hsub : sizeSub (frameLen dataLen) n = frameLen dataLen - n :=
    sizeSub_eq (by unfold frameLen; omega) hsize
  have haccount : (r.fill dataLen n).account dataLen n = { r with
      stream := r.stream.drop n
      header := overwrite r.header off (r.stream.take n)
      frameId := f.id
      recievedLen := 0
      remainingLen := frameLen dataLen - n
      headerOk := true } := by
    rw [hfill]
    simp [Reader.account, Reader.headerPart, Reader.headerEnd, Reader.dataPart, Reader.dataEnd,
      hok, hrecv, hadd, hhead, hvalue, hid, hsub, hdata, hdata.ne]
  rw [haccount, hn]
  refine ⟨by rw [hfill]; exact h.overrun, ?_, hlength, h.lengthData, ?_, h.delivered, h.overrun⟩
  · refine .data rfl le_rfl (by unfold frameLen; omega) (by simp) ?_ ?_ ?_
    · show frameLen dataLen - headerLen ≤ frameLen dataLen - n
      omega
    · show frameLen dataLen - n < 2 ^ 64
      omega
    · intro g hg
      rw [hf] at hg
      cases hg
      exact ⟨rfl, by simp⟩
  · rw [← hn]
    exact h.stream_drop n

/-- A frame has been delivered: the loop is at the start of the next one. -/
theorem next_frame {s : Reader} {f : Frame dataLen} (hf : frames[j]? = some f)
    (hok : s.headerOk = false) (hrecv : s.recievedLen = 0) (hrem : s.remainingLen = headerLen)
    (hheader : s.header.length = headerLen) (hdata : s.data.length = dataLen)
    (hstream : s.stream = (frames.flatMap encode).drop (j * frameLen dataLen + frameLen dataLen))
    (hdelivered : s.delivered =
      (frames.take j).map (fun f => (f.id, f.data)) ++ [(f.id, f.data)])
    (hover : s.overrun = false) : Good frames (j + 1) 0 s where
  phase := .header hok (by decide) hrecv hrem (fun _ _ => by simp)
  lengthHeader := hheader
  lengthData := hdata
  stream := by rw [hstream, Nat.add_mul, Nat.one_mul, Nat.add_zero]
  delivered := by rw [hdelivered, List.take_add_one, hf]; simp
  overrun := hover

/-- The read that finishes a frame without data. -/
theorem header_end_empty (h : Good frames j off r) (hok : r.headerOk = false)
    (hrecv : r.recievedLen = off)
    (hbuf : ∀ f, frames[j]? = some f → r.header.take off = (encode f).take off) {n : Nat}
    (hpos : 0 < n) (hn : off + n = headerLen) (hlen : n ≤ r.stream.length)
    (hsize : frameLen dataLen < 2 ^ 64) (hdata : dataLen = 0) :
    (r.fill dataLen n).overrun = false ∧
      Good frames (j + 1) 0 ((r.fill dataLen n).account dataLen n) := by
  subst hdata
  obtain ⟨hfill, hlength, hbuf'⟩ := h.header_fill hok hrecv hn.le hlen hbuf
  obtain ⟨f, hf⟩ := h.frame hpos hlen
  have hhead := hbuf' f hf
  rw [hn, List.take_of_length_le hlength.le] at hhead
  have hadd : sizeAdd off n = headerLen := by rw [sizeAdd_eq (by rw [hn]; decide), hn]
  have hid : BitVec.ofNat 32 (leValue ((((encode f).take headerLen).drop 8).take 4)) = f.id := by
    rw [← encode_id f, List.drop_take, List.take_take]
    rfl
  have hempty : r.data = f.data := by
    rw [List.length_eq_zero_iff.mp h.lengthData, List.length_eq_zero_iff.mp f.length_data]
  have haccount : (r.fill 0 n).account 0 n = { r with
      stream := r.stream.drop n
      header := overwrite r.header off (r.stream.take n)
      frameId := f.id
      recievedLen := 0
      remainingLen := headerLen
      headerOk := false
      delivered := r.delivered ++ [(f.id, f.data)] } := by
    rw [hfill]
    simp [Reader.account, Reader.headerPart, Reader.headerEnd, Reader.dataPart, Reader.dataEnd,
      hok, hrecv, hadd, hhead, hid, hempty]
  rw [haccount]
  refine ⟨by rw [hfill]; exact h.overrun, ?_⟩
  refine next_frame hf rfl rfl rfl hlength h.lengthData ?_ (by rw [h.delivered]) h.overrun
  show r.stream.drop n = _
  rw [h.stream_drop n, hn]
  rfl

/-- The data buffer after a read that stays in the frame. -/
theorem data_fill (h : Good frames j off r) (hok : r.headerOk = true) (hoff : headerLen ≤ off)
    (hrecv : r.recievedLen = off - headerLen) {f : Frame dataLen} (hf : frames[j]? = some f)
    (hbuf : r.data.take (off - headerLen) = f.data.take (off - headerLen)) {n : Nat}
    (hn : off + n ≤ frameLen dataLen) :
    r.fill dataLen n = { r with
      stream := r.stream.drop n
      data := overwrite r.data (off - headerLen) (r.stream.take n) } ∧
    (overwrite r.data (off - headerLen) (r.stream.take n)).length = dataLen ∧
    (overwrite r.data (off - headerLen) (r.stream.take n)).take (off - headerLen + n) =
      f.data.take (off - headerLen + n) := by
  have hroom : off - headerLen + n ≤ dataLen := by unfold frameLen at hn; omega
  refine ⟨?_, ?_, ?_⟩
  · simp [Reader.fill, hok, hrecv, hroom, h.asked]
  · rw [overwrite_length (by rw [List.length_take, h.lengthData]; omega), h.lengthData]
  · have hchunk : r.stream.take n = (f.data.drop (off - headerLen)).take n := by
      rw [h.chunk hf hn, ← encode_data f, List.drop_drop]
      congr 2
      omega
    rw [hchunk]
    exact overwrite_take hbuf (by rw [f.length_data]; exact hroom)

/-- A read of data that stays in the frame. -/
theorem data_read (h : Good frames j off r) (hok : r.headerOk = true) (hoff : headerLen ≤ off)
    (hrecv : r.recievedLen = off - headerLen) (hrem : frameLen dataLen - off ≤ r.remainingLen)
    (hmax : r.remainingLen < 2 ^ 64)
    (hframe : ∀ f, frames[j]? = some f → r.frameId = f.id ∧
      r.data.take (off - headerLen) = f.data.take (off - headerLen)) {n : Nat} (hpos : 0 < n)
    (hn : off + n ≤ frameLen dataLen) (hasked : n ≤ r.remainingLen) (hlen : n ≤ r.stream.length)
    (hsize : frameLen dataLen < 2 ^ 64) :
    (r.fill dataLen n).overrun = false ∧
      if off + n = frameLen dataLen then
        Good frames (j + 1) 0 ((r.fill dataLen n).account dataLen n)
      else Good frames j (off + n) ((r.fill dataLen n).account dataLen n) := by
  obtain ⟨f, hf⟩ := h.frame hpos hlen
  obtain ⟨hid, hbuf⟩ := hframe f hf
  obtain ⟨hfill, hlength, hbuf'⟩ := h.data_fill hok hoff hrecv hf hbuf hn
  have hroom : off - headerLen + n ≤ dataLen := by unfold frameLen at hn; omega
  have hadd : sizeAdd (off - headerLen) n = off - headerLen + n :=
    sizeAdd_eq (by unfold frameLen at hsize; omega)
  refine ⟨by rw [hfill]; exact h.overrun, ?_⟩
  by_cases hend : off + n = frameLen dataLen
  · rw [if_pos hend]
    have hfull : off - headerLen + n = dataLen := by unfold frameLen at hend; omega
    have hdata : overwrite r.data (off - headerLen) (r.stream.take n) = f.data := by
      rwa [hfull, List.take_of_length_le hlength.le, List.take_of_length_le f.length_data.le]
        at hbuf'
    have haccount : (r.fill dataLen n).account dataLen n = { r with
        stream := r.stream.drop n
        data := f.data
        recievedLen := 0
        remainingLen := headerLen
        headerOk := false
        delivered := r.delivered ++ [(f.id, f.data)] } := by
      rw [hfill]
      simp [Reader.account, Reader.headerPart, Reader.headerEnd, Reader.dataPart, Reader.dataEnd,
        hok, hrecv, hadd, hfull, hdata, hid]
    rw [haccount]
    refine next_frame hf rfl rfl rfl h.lengthHeader f.length_data ?_ (by rw [h.delivered])
      h.overrun
    show r.stream.drop n = _
    rw [h.stream_drop n, hend]
  · rw [if_neg hend]
    have hpart : off - headerLen + n < dataLen := by unfold frameLen at hend hn; omega
    have hsub : sizeSub r.remainingLen n = r.remainingLen - n := sizeSub_eq hasked hmax
    have haccount : (r.fill dataLen n).account dataLen n = { r with
        stream := r.stream.drop n
        data := overwrite r.data (off - headerLen) (r.stream.take n)
        recievedLen := off - headerLen + n
        remainingLen := r.remainingLen - n } := by
      rw [hfill]
      simp [Reader.account, Reader.headerPart, Reader.headerEnd, Reader.dataPart, Reader.dataEnd,
        hok, hrecv, hadd, hsub, hpart, hpart.ne]
    have hshift : off + n - headerLen = off - headerLen + n := by omega
    rw [haccount]
    refine ⟨?_, h.lengthHeader, hlength, h.stream_drop n, h.delivered, h.overrun⟩
    refine .data hok (by omega) (by omega) hshift.symm ?_ ?_ ?_
    · show frameLen dataLen - (off + n) ≤ r.remainingLen - n
      omega
    · show r.remainingLen - n < 2 ^ 64
      omega
    · intro g hg
      rw [hf] at hg
      cases hg
      refine ⟨hid, ?_⟩
      rw [hshift]
      exact hbuf'

/-- A read that crosses the end of its frame overruns `packet->data`. -/
theorem data_cross (hok : r.headerOk = true) (hoff : headerLen ≤ off)
    (hrecv : r.recievedLen = off - headerLen) {n : Nat} (hn : frameLen dataLen < off + n) :
    (r.fill dataLen n).overrun = true ∧ (r.fill dataLen n).delivered = r.delivered := by
  have hroom : ¬ off - headerLen + n ≤ dataLen := by unfold frameLen at hn; omega
  simp [Reader.fill, hok, hrecv, hroom]

/-- One read: it stays in the frame, ends it, or crosses its end. -/
theorem read_cases (h : Good frames j off r) {n : Nat} {r' : Reader}
    (hs : Reader.step dataLen r (.bytes n) = some r') (hsize : frameLen dataLen < 2 ^ 64) :
    (off + n < frameLen dataLen ∧ Good frames j (off + n) r') ∨
    (off + n = frameLen dataLen ∧ Good frames (j + 1) 0 r') ∨
    (frameLen dataLen < off + n ∧ r'.overrun = true ∧ r'.delivered = r.delivered ∧
      j < frames.length) := by
  simp only [Reader.step] at hs
  split at hs
  · cases hs
  split at hs
  swap
  · cases hs
  rename_i hguard
  obtain ⟨hpos, hasked, -, hlen⟩ := hguard
  rw [h.asked] at hasked
  rcases h.phase with ⟨hok, hoff, hrecv, hrem, hbuf⟩ | ⟨hok, hoff, hlt, hrecv, hrem, hmax, hframe⟩
  · rw [hrem] at hasked
    rcases Nat.lt_or_ge (off + n) headerLen with hn | hn
    · obtain ⟨hover, hgood⟩ := h.header_part hok hrecv hrem hbuf hn hlen
      rw [hover] at hs
      cases hs
      exact Or.inl ⟨by unfold frameLen; omega, hgood⟩
    · have hn' : off + n = headerLen := by omega
      rcases Nat.eq_zero_or_pos dataLen with hzero | hdata
      · obtain ⟨hover, hgood⟩ := h.header_end_empty hok hrecv hbuf hpos hn' hlen hsize hzero
        rw [hover] at hs
        cases hs
        exact Or.inr (Or.inl ⟨by unfold frameLen; omega, hgood⟩)
      · obtain ⟨hover, hgood⟩ := h.header_end hok hrecv hbuf hpos hn' hlen hsize hdata
        rw [hover] at hs
        cases hs
        exact Or.inl ⟨by unfold frameLen; omega, hgood⟩
  · rcases Nat.lt_or_ge (frameLen dataLen) (off + n) with hn | hn
    · obtain ⟨hover, hdel⟩ := data_cross hok hoff hrecv hn
      obtain ⟨f, hf⟩ := h.frame hpos hlen
      rw [hover] at hs
      cases hs
      exact Or.inr (Or.inr ⟨hn, hover, hdel, (List.getElem?_eq_some_iff.mp hf).1⟩)
    · obtain ⟨hover, hgood⟩ := h.data_read hok hoff hrecv hrem hmax hframe hpos hn hasked hlen hsize
      rw [hover] at hs
      cases hs
      rcases Nat.lt_or_ge (off + n) (frameLen dataLen) with hlt' | hge
      · rw [if_neg (by omega)] at hgood
        exact Or.inl ⟨hlt', hgood⟩
      · rw [if_pos (by omega)] at hgood
        exact Or.inr (Or.inl ⟨by omega, hgood⟩)

end Good

/-! ## Whole runs -/

/-- Every frame end that the reads `ns` have passed is the end of one of them. -/
def Aligned (dataLen : Nat) (ns : List Nat) : Prop :=
  ∀ k, k * frameLen dataLen ≤ ns.sum → ∃ ms, ms <+: ns ∧ ms.sum = k * frameLen dataLen

/-- `new_frame_action` has been called once for every complete frame, in order, with
its id and its data. -/
def Delivered (frames : List (Frame dataLen)) (ns : List Nat) (r : Reader) : Prop :=
  r.delivered = (frames.take (ns.sum / frameLen dataLen)).map fun f => (f.id, f.data)

instance (frames : List (Frame dataLen)) (ns : List Nat) (r : Reader) :
    Decidable (Delivered frames ns r) := inferInstanceAs (Decidable (_ = _))

theorem frameLen_pos : 0 < frameLen dataLen := by
  unfold frameLen headerLen
  omega

theorem Aligned.append {ns : List Nat} {n j : Nat} (h : Aligned dataLen ns)
    (hj : j * frameLen dataLen ≤ ns.sum) (hn : ns.sum + n ≤ (j + 1) * frameLen dataLen) :
    Aligned dataLen (ns ++ [n]) := by
  intro k hk
  rw [List.sum_append, List.sum_singleton] at hk
  rcases Nat.lt_or_ge ns.sum (k * frameLen dataLen) with hlt | hge
  · have hjk : j < k := by
      by_contra hle
      have hmul : k * frameLen dataLen ≤ j * frameLen dataLen := Nat.mul_le_mul_right _ (by omega)
      omega
    have hmul : (j + 1) * frameLen dataLen ≤ k * frameLen dataLen := Nat.mul_le_mul_right _ hjk
    refine ⟨ns ++ [n], List.prefix_rfl, ?_⟩
    rw [List.sum_append, List.sum_singleton]
    omega
  · obtain ⟨ms, hms, hsum⟩ := h k hge
    exact ⟨ms, hms.trans (List.prefix_append _ _), hsum⟩

theorem not_aligned_of_cross {ns : List Nat} {n k : Nat} (hk : ns.sum < k * frameLen dataLen)
    (hn : k * frameLen dataLen < ns.sum + n) : ¬ Aligned dataLen (ns ++ [n]) := by
  intro h
  obtain ⟨ms, hms, hsum⟩ := h k (by rw [List.sum_append, List.sum_singleton]; omega)
  rcases List.prefix_concat_iff.mp hms with rfl | hms
  · rw [List.sum_append, List.sum_singleton] at hsum
    omega
  · obtain ⟨xs, rfl⟩ := hms
    rw [List.sum_append] at hk
    omega

theorem Good.delivered_frames {frames : List (Frame dataLen)} {j off : Nat} {r : Reader}
    {ns : List Nat} (h : Good frames j off r) (hsum : ns.sum = j * frameLen dataLen + off) :
    Delivered frames ns r := by
  have hdiv : ns.sum / frameLen dataLen = j := by
    rw [hsum, Nat.mul_comm, Nat.mul_add_div frameLen_pos, Nat.div_eq_of_lt h.lt, Nat.add_zero]
  rw [Delivered, hdiv]
  exact h.delivered

theorem good_start (frames : List (Frame dataLen)) {header data : List UInt8}
    (hheader : header.length = headerLen) (hdata : data.length = dataLen) :
    Good frames 0 0 (Reader.start header data (frames.flatMap encode)) where
  phase := .header rfl (by decide) rfl rfl (by simp)
  lengthHeader := hheader
  lengthData := hdata
  stream := by simp [Reader.start]
  delivered := rfl
  overrun := rfl

/-- The state after the reads `ns`: aligned and good, or overrun with a frame lost. -/
def Outcome (frames : List (Frame dataLen)) (ns : List Nat) (r : Reader) : Prop :=
  (Aligned dataLen ns ∧ ∃ j off, ns.sum = j * frameLen dataLen + off ∧ Good frames j off r) ∨
  (¬ Aligned dataLen ns ∧ r.overrun = true ∧ ¬ Delivered frames ns r)

theorem outcome_step {frames : List (Frame dataLen)} {ns : List Nat} {r r' : Reader}
    {res : ReadResult} (hsize : frameLen dataLen < 2 ^ 64) (h : Outcome frames ns r)
    (hs : Reader.step dataLen r res = some r') :
    Outcome frames (ns ++ (tcp dataLen).emit r res) r' := by
  rcases h with ⟨haligned, j, off, hsum, hgood⟩ | ⟨-, hover, -⟩
  swap
  · simp [Reader.step, hover] at hs
  cases res with
  | error =>
    simp only [Reader.step] at hs
    split at hs <;> cases hs
    refine Or.inl ⟨by simpa [tcp] using haligned, j, off, by simpa [tcp] using hsum, ?_⟩
    refine ⟨?_, hgood.lengthHeader, hgood.lengthData, hgood.stream, hgood.delivered, hgood.overrun⟩
    rcases hgood.phase with ⟨h1, h2, h3, h4, h5⟩ | ⟨h1, h2, h3, h4, h5, h6, h7⟩
    · exact .header h1 h2 h3 h4 h5
    · exact .data h1 h2 h3 h4 h5 h6 h7
  | none =>
    simp only [Reader.step, hgood.asked] at hs
    split at hs <;> cases hs
    exact Or.inl ⟨by simpa [tcp] using haligned, j, off, by simpa [tcp] using hsum, hgood⟩
  | bytes n =>
    have hlt := hgood.lt
    have hsum' : (ns ++ [n]).sum = ns.sum + n := by rw [List.sum_append, List.sum_singleton]
    have hmul : (j + 1) * frameLen dataLen = j * frameLen dataLen + frameLen dataLen := by
      rw [Nat.add_mul, Nat.one_mul]
    rcases hgood.read_cases hs hsize with ⟨hn, hgood'⟩ | ⟨hn, hgood'⟩ | ⟨hn, hover, hdel, hj⟩
    · refine Or.inl ⟨haligned.append (j := j) (by omega) (by omega), j, off + n, ?_, hgood'⟩
      show (ns ++ [n]).sum = _
      omega
    · refine Or.inl ⟨haligned.append (j := j) (by omega) (by omega), j + 1, 0, ?_, hgood'⟩
      show (ns ++ [n]).sum = _
      omega
    · refine Or.inr ⟨not_aligned_of_cross (k := j + 1) (by omega) (by omega), hover, ?_⟩
      -- one more frame is complete than has been delivered
      intro hall
      have hge : j + 1 ≤ (ns ++ [n]).sum / frameLen dataLen := by
        rw [Nat.le_div_iff_mul_le frameLen_pos]
        omega
      have hlength := congrArg List.length hall
      rw [hdel, hgood.delivered, List.length_map, List.length_map, List.length_take,
        List.length_take] at hlength
      change min j frames.length = min ((ns ++ [n]).sum / frameLen dataLen) frames.length at hlength
      omega

theorem outcome_of_trace {frames : List (Frame dataLen)} {header data : List UInt8}
    (hheader : header.length = headerLen) (hdata : data.length = dataLen)
    (hsize : frameLen dataLen < 2 ^ 64) {ns : List Nat} {r : Reader}
    (h : Trace (tcp dataLen) (fun _ => True)
      (Reader.start header data (frames.flatMap encode)) ns r) : Outcome frames ns r := by
  refine invariant (P := Outcome frames) (Or.inl ⟨?_, 0, 0, by simp, ?_⟩) ?_ h
  · intro k hk
    exact ⟨[], List.prefix_rfl, by simpa [eq_comm] using hk⟩
  · exact good_start frames hheader hdata
  · intro ns r res r' hns _ hs
    exact outcome_step hsize hns hs

/-- **Frames and fragments.** After any reads `ns` the loop has delivered every
complete frame, once, in order and unchanged, if and only if every frame end
passed is the end of a read. -/
theorem delivered_iff_aligned (frames : List (Frame dataLen)) {header data : List UInt8}
    (hheader : header.length = headerLen) (hdata : data.length = dataLen)
    (hsize : frameLen dataLen < 2 ^ 64) {ns : List Nat} {r : Reader}
    (h : Trace (tcp dataLen) (fun _ => True)
      (Reader.start header data (frames.flatMap encode)) ns r) :
    Delivered frames ns r ↔ Aligned dataLen ns := by
  rcases outcome_of_trace hheader hdata hsize h with
    ⟨haligned, j, off, hsum, hgood⟩ | ⟨hnot, -, hlost⟩
  · exact ⟨fun _ => haligned, fun _ => hgood.delivered_frames hsum⟩
  · exact ⟨fun hall => absurd hall hlost, fun haligned => absurd haligned hnot⟩

/-! ## Reads of whole parts -/

theorem fill_exitFlag (n : Nat) (r : Reader) : (r.fill dataLen n).exitFlag = r.exitFlag := by
  unfold Reader.fill
  dsimp only
  split <;> split <;> rfl

theorem account_exitFlag (n : Nat) (r : Reader) : (r.account dataLen n).exitFlag = r.exitFlag := by
  simp only [Reader.account, Reader.dataEnd, Reader.dataPart, Reader.headerEnd, Reader.headerPart]
  split <;> split <;> split <;> split <;> rfl

/-- A read that stays in the header or in the data is possible. -/
theorem Good.reads {frames : List (Frame dataLen)} {j off : Nat} {r : Reader}
    (h : Good frames j off r) (hexit : r.exitFlag = false) (hj : j < frames.length) {n : Nat}
    (hn : 0 < n) (hmax : n ≤ readMax)
    (hpart : off + n ≤ headerLen ∨ headerLen ≤ off ∧ off + n ≤ frameLen dataLen) :
    ∃ r', Reader.step dataLen r (.bytes n) = some r' ∧ r'.exitFlag = false := by
  have hasked : n ≤ r.asked := by
    rw [h.asked]
    rcases h.phase with ⟨-, hoff, -, hrem, -⟩ | ⟨-, hoff, -, -, hrem, -⟩ <;> omega
  have hin : off + n ≤ frameLen dataLen := by
    unfold frameLen at hpart ⊢
    omega
  have hlen : n ≤ r.stream.length := by
    have hmul : (j + 1) * frameLen dataLen ≤ frames.length * frameLen dataLen :=
      Nat.mul_le_mul_right _ hj
    rw [Nat.add_mul, Nat.one_mul] at hmul
    rw [h.stream, List.length_drop, flatMap_length encode_length]
    omega
  have hgo : ¬ ((r.exitFlag || r.overrun) = true) := by simp [hexit, h.overrun]
  simp only [Reader.step]
  rw [if_neg hgo, if_pos ⟨hn, hasked, hmax, hlen⟩]
  split
  · exact ⟨_, rfl, (fill_exitFlag n r).trans hexit⟩
  · exact ⟨_, rfl, (account_exitFlag n _).trans ((fill_exitFlag n r).trans hexit)⟩

/-- The reads of `k` frames, header and data in one read each. -/
def wholeReads (dataLen : Nat) : Nat → List Nat
  | 0 => []
  | k + 1 => wholeReads dataLen k ++ [headerLen] ++ [dataLen]

theorem wholeReads_sum (k : Nat) : (wholeReads dataLen k).sum = k * frameLen dataLen := by
  induction k with
  | zero => simp [wholeReads]
  | succ k ih =>
    simp only [wholeReads, List.sum_append, List.sum_singleton, ih, Nat.succ_mul, frameLen]
    omega

theorem wholeReads_aligned (k : Nat) : Aligned dataLen (wholeReads dataLen k) := by
  induction k with
  | zero => exact fun k hk => ⟨[], List.prefix_rfl, by simpa [wholeReads, eq_comm] using hk⟩
  | succ k ih =>
    have hsum : (wholeReads dataLen k).sum = k * frameLen dataLen := wholeReads_sum k
    have hnext : (k + 1) * frameLen dataLen = k * frameLen dataLen + (headerLen + dataLen) := by
      rw [Nat.succ_mul, frameLen]
    refine (ih.append (j := k) (by omega) (by omega)).append (j := k) ?_ ?_ <;>
      rw [List.sum_append, List.sum_singleton] <;> omega

theorem wholeReads_run (frames : List (Frame dataLen)) {header data : List UInt8}
    (hheader : header.length = headerLen) (hdata : data.length = dataLen) (hpos : 0 < dataLen)
    (hmax : dataLen ≤ readMax) {k : Nat} (hk : k ≤ frames.length) :
    ∃ r, Trace (tcp dataLen) (fun _ => True)
      (Reader.start header data (frames.flatMap encode)) (wholeReads dataLen k) r ∧
      Good frames k 0 r ∧ r.exitFlag = false := by
  have hsize : frameLen dataLen < 2 ^ 64 := by
    unfold frameLen headerLen
    unfold readMax at hmax
    omega
  have hframe : headerLen + dataLen = frameLen dataLen := rfl
  induction k with
  | zero => exact ⟨_, .start, good_start frames hheader hdata, rfl⟩
  | succ k ih =>
    obtain ⟨r, hrun, hgood, hexit⟩ := ih (by omega)
    obtain ⟨r₁, hs₁, hexit₁⟩ := hgood.reads hexit (by omega) (by decide : 0 < headerLen)
      (by decide) (Or.inl (Nat.zero_add _).le)
    have hgood₁ : Good frames k headerLen r₁ := by
      rcases hgood.read_cases hs₁ hsize with ⟨-, h⟩ | ⟨h, -⟩ | ⟨h, -⟩
      · rwa [Nat.zero_add] at h
      · omega
      · omega
    obtain ⟨r₂, hs₂, hexit₂⟩ := hgood₁.reads hexit₁ (by omega) hpos hmax (Or.inr ⟨le_rfl, le_rfl⟩)
    have hgood₂ : Good frames (k + 1) 0 r₂ := by
      rcases hgood₁.read_cases hs₂ hsize with ⟨h, -⟩ | ⟨-, h⟩ | ⟨h, -⟩
      · omega
      · exact h
      · omega
    have hheaderRead : (tcp dataLen).step r (.bytes headerLen) = some r₁ := hs₁
    have hdataRead : (tcp dataLen).step r₁ (.bytes dataLen) = some r₂ := hs₂
    exact ⟨r₂, (hrun.next trivial hheaderRead).next trivial hdataRead, hgood₂, hexit₂⟩

/-! ## A header in two pieces -/

/-- Two frames of two bytes. -/
def twoFrames : List (Frame 2) := [⟨1, [10, 11], rfl⟩, ⟨2, [20, 21], rfl⟩]

def reader : Reader := .start (List.replicate 12 0) [0, 0] (twoFrames.flatMap encode)

/-- The header in one read, then the data byte by byte. -/
theorem wholeHeader_runs : ((tcp 2).run [.bytes 12, .bytes 1, .bytes 1, .bytes 5]
    reader).isSome = true := by decide

theorem delivered_iff_aligned_wholeHeader : ∃ r,
    (r.delivered = [(1, [10, 11])] ∧ r.overrun = false) ∧
    (Delivered twoFrames [12, 1, 1, 5] r ↔ Aligned 2 [12, 1, 1, 5]) := by
  have hrun : Trace (tcp 2) (fun _ => True) reader _ _ :=
    trace_of_isSome (fun _ _ => trivial) wholeHeader_runs
  exact ⟨_, by decide, delivered_iff_aligned twoFrames rfl rfl (by decide) hrun⟩

/-- The header in two reads: the loop asks for the data and six bytes more, and gets
the beginning of the next frame. -/
theorem splitHeader_runs : ((tcp 2).run [.bytes 6, .bytes 6, .bytes 8] reader).isSome = true := by
  decide

theorem frame_lost_after_split_header :
    ¬ ∀ (dataLen : Nat) (frames : List (Frame dataLen)) (header data : List UInt8)
      (ns : List Nat) (r : Reader), header.length = headerLen → data.length = dataLen →
      frameLen dataLen < 2 ^ 64 →
      Trace (tcp dataLen) (fun _ => True) (Reader.start header data (frames.flatMap encode)) ns r →
      Delivered frames ns r := by
  intro hclaim
  have hrun : Trace (tcp 2) (fun _ => True) reader _ _ :=
    trace_of_isSome (fun _ _ => trivial) splitHeader_runs
  have hall := hclaim 2 twoFrames _ _ _ _ rfl rfl (by decide) hrun
  revert hall
  decide

end DclProcessor.Collector
