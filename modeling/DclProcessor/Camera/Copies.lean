import DclProcessor.Camera.Arrivals
import DclProcessor.Camera.Session

/-!
The copies of `camera_gvsp_thread`: where in the buffer of the frame each is written, and
which bytes of the packet it reads, for the packet size that `gvcp_init` has got.
-/

namespace DclProcessor.Camera

open Bytes

/-- `cam->packet_size - IP_HEADER_SIZE - UDP_HEADER_SIZE` -/
def streamPacketSize (camPacketSize : Nat) : Nat := (camPacketSize + 2 ^ 32 - 20 - 8) % 2 ^ 32

/-- `memcpy` of `size` bytes from `src` in the packet, of which `received` are there, to
`dst` in the buffer. -/
structure Copy where
  dst : Nat
  src : Nat
  size : Nat
  received : Nat
  deriving DecidableEq

/-- The copy when a datagram has come, if it makes one. -/
def Thread.copy (packetSize : Nat) (t : Thread) (d : List UInt8) : Option Copy :=
  let t := t.atPacket packetSize d
  let packetId := packetGetPacketId t.packet
  if t.isStarted ∧ packetGetPacketType t.packet ≠ packetTypeError ∧
      ¬ (packetId < t.nPackets ∧ t.received packetId) ∧
      packetGetContentType t.packet = .dataBlock then
    some ⟨t.iframe.buffer.length, packetDataOffset t.packet,
      packetGetDataSize t.packet packetSize, (d.take packetSize).length⟩
  else none

/-- All the copies of a run, until one is written past the end. -/
def Thread.copies (packetSize : Nat) : Thread → List (List UInt8) → List Copy
  | _, [] => []
  | t, d :: ds =>
    if t.overrun then []
    else (t.copy packetSize d).toList ++ Thread.copies packetSize (t.receive packetSize d) ds

/-- The copy stays in the buffer and in what was received, and its size is no number below
zero. -/
structure Copy.Inside (packetSize : Nat) (c : Copy) : Prop where
  dst : c.dst + c.size ≤ maxFrameSize
  src : c.size = 0 ∨ c.src + c.size ≤ c.received
  noWrap : c.src ≤ packetSize

/-- With the packet size of the camera, for any sequence of datagrams. -/
structure NeverOutside (camPacketSize : Nat) (packet : List UInt8) (iframe : Iframe)
    (nPackets : Nat) (ds : List (List UInt8)) : Prop where
  noWrap : 20 + 8 ≤ camPacketSize
  copies : ∀ c ∈ (Thread.start packet iframe nPackets).copies (streamPacketSize camPacketSize) ds,
    c.Inside (streamPacketSize camPacketSize)

/-- The data that packets of one size have for the blocks of a frame. -/
def dataIn (packetSize : Nat) : List Arrival → Nat
  | [] => 0
  | a :: as => (if a.isBlock then packetSize - a.offset else 0) + dataIn packetSize as

/-- The blocks have come in full, unless they have no data, and they fit into the buffer. -/
structure Sound (packetSize : Nat) (frame : List Arrival) : Prop where
  blocks : ∀ a ∈ frame, a.isBlock = true →
    a.offset ≤ packetSize ∧ (a.offset < packetSize → a.received = packetSize)
  fits : dataIn packetSize frame ≤ maxFrameSize

section Frame

variable {packetSize : Nat}

theorem dataIn_concat (packetSize : Nat) (as : List Arrival) (a : Arrival) :
    dataIn packetSize (as ++ [a]) =
      dataIn packetSize as + if a.isBlock then packetSize - a.offset else 0 := by
  induction as with
  | nil => simp [dataIn]
  | cons b as ih => rw [List.cons_append, dataIn, ih, dataIn, Nat.add_assoc]

theorem sound_nil : Sound packetSize [] := ⟨by simp, Nat.zero_le _⟩

theorem sound_concat {as : List Arrival} {a : Arrival} : Sound packetSize (as ++ [a]) ↔
    Sound packetSize as ∧ (a.isBlock = true → a.offset ≤ packetSize ∧
      (a.offset < packetSize → a.received = packetSize) ∧
      dataIn packetSize as + (packetSize - a.offset) ≤ maxFrameSize) := by
  constructor
  · rintro ⟨hblocks, hfits⟩
    rw [dataIn_concat] at hfits
    refine ⟨⟨fun b hb => hblocks b (List.mem_append_left _ hb), by omega⟩, fun hkind => ?_⟩
    obtain ⟨hoffset, hfull⟩ := hblocks a (by simp) hkind
    rw [if_pos hkind] at hfits
    exact ⟨hoffset, hfull, hfits⟩
  · rintro ⟨⟨hblocks, hfits⟩, hlast⟩
    refine ⟨fun b hb hkind => ?_, ?_⟩
    · rcases List.mem_append.mp hb with hb | hb
      · exact hblocks b hb hkind
      · obtain rfl := List.mem_singleton.mp hb
        exact ⟨(hlast hkind).1, (hlast hkind).2.1⟩
    · rw [dataIn_concat]
      split
      · rename_i hkind
        exact (hlast hkind).2.2
      · exact hfits

/-- In a sound frame no size wraps around. -/
theorem roomIn_eq_dataIn (hsize : packetSize < 2 ^ 32) {frame : List Arrival}
    (h : ∀ a ∈ frame, a.isBlock = true → a.offset ≤ packetSize) :
    roomIn packetSize frame = dataIn packetSize frame := by
  induction frame with
  | nil => rfl
  | cons a as ih =>
    have hrest := ih fun b hb => h b (List.mem_cons_of_mem _ hb)
    rw [roomIn, dataIn, hrest, Arrival.room]
    by_cases hkind : a.isBlock = true
    · have hoffset : packetDataOffset a.buffer ≤ packetSize := h a (List.mem_cons_self ..) hkind
      rw [if_pos hkind, if_pos hkind, dataSize_eq hsize, if_pos hoffset, Arrival.offset]
    · rw [if_neg hkind, if_neg hkind]

/-- What a frame has of the packets before the last one. -/
theorem currentFrame_concat (as : List Arrival) (a : Arrival) :
    currentFrame (as ++ [a]) =
      (if a.frameId = lastId as then currentFrame as else []) ++ [a] := by
  split
  · rename_i hsame
    exact currentFrame_same hsame
  · rename_i hnew
    exact currentFrame_new hnew

/-- A packet of the same frame comes to a frame that has started. -/
theorem sound_before {as : List Arrival} {a : Arrival}
    (h : Started as → Sound packetSize (currentFrame as)) (hstarted : Started (as ++ [a])) :
    Sound packetSize (if a.frameId = lastId as then currentFrame as else []) := by
  split
  · rename_i hsame
    refine h ((started_concat.mp hstarted).elim id fun hid => ?_)
    by_contra hnot
    exact hid (hsame.trans (lastId_of_not_started hnot))
  · exact sound_nil

end Frame

section Step

variable {packetSize : Nat} {t : Thread} {s : List UInt8 × List Arrival} {d : List UInt8}

theorem isBlock_iff {a : Arrival} : a.isBlock = true ↔
    packetGetPacketType a.buffer ≠ packetTypeError ∧
      packetGetContentType a.buffer = .dataBlock := by
  rw [Arrival.isBlock, Bool.and_eq_true, decide_eq_true_eq, decide_eq_true_eq]
  rfl

/-- A block of a started frame is copied, behind what the buffer holds. -/
theorem copy_eq (h : Follows t s) (d : List UInt8) :
    t.copy packetSize d =
      if Started (arrive packetSize s d).2 ∧ (arrival packetSize s d).isBlock = true then
        some ⟨(t.atPacket packetSize d).iframe.buffer.length, (arrival packetSize s d).offset,
          packetGetDataSize (arrival packetSize s d).buffer packetSize,
          (arrival packetSize s d).received⟩
      else none := by
  have hat := follows_atPacket packetSize h d
  have hpacket : (t.atPacket packetSize d).packet = (arrival packetSize s d).buffer := hat.packet
  simp only [Thread.copy, ← hat.isStarted, hpacket]
  cases hstarted : (t.atPacket packetSize d).isStarted with
  | false => simp
  | true =>
    have hn := hat.nPackets hstarted
    simp only [hn, Nat.not_lt_zero, false_and, not_false_eq_true, true_and, isBlock_iff]
    rfl

theorem inside_iff (hsize : packetSize < 2 ^ 32) {dst received : Nat} {packet : List UInt8}
    (hreceived : received ≤ packetSize) :
    Copy.Inside packetSize ⟨dst, packetDataOffset packet, packetGetDataSize packet packetSize,
        received⟩ ↔
      packetDataOffset packet ≤ packetSize ∧
        (packetDataOffset packet < packetSize → received = packetSize) ∧
        dst + (packetSize - packetDataOffset packet) ≤ maxFrameSize := by
  rw [dataSize_eq hsize]
  constructor
  · rintro ⟨hdst, hsrc, hheader⟩
    simp only [if_pos hheader] at hdst hsrc
    exact ⟨hheader, by omega, hdst⟩
  · rintro ⟨hheader, hfull, hdst⟩
    rw [if_pos hheader]
    exact ⟨hdst, by simp only; omega, hheader⟩

/-- The copy of the next datagram, in a run whose frames were sound so far. -/
theorem copy_inside_iff (hsize : packetSize < 2 ^ 32) (h : Follows t s)
    (hlen : s.1.length = packetSize) (hframe : HoldsFrame packetSize t s.2)
    (hover : t.overrun = false) (hsound : Started s.2 → Sound packetSize (currentFrame s.2))
    (d : List UInt8) :
    ((∀ c ∈ (t.copy packetSize d).toList, c.Inside packetSize) ↔
      (Started (arrive packetSize s d).2 →
        Sound packetSize (currentFrame (arrive packetSize s d).2))) ∧
    ((Started (arrive packetSize s d).2 →
        Sound packetSize (currentFrame (arrive packetSize s d).2)) →
      (t.receive packetSize d).overrun = false) := by
  have hgoes := (holdsFrame_receive hsize h hlen hframe hover d).1
  refine ⟨?_, fun hnew => hgoes.mpr fun hstarted => ?_⟩
  · by_cases hstarted : Started (arrive packetSize s d).2
    · have hat := (follows_atPacket packetSize h d).isStarted.mpr hstarted
      obtain ⟨hroom, -⟩ := atPacket_frame h hframe d hat
      have hreceived : (arrival packetSize s d).received ≤ packetSize := by
        simp [arrival]
      rw [copy_eq h]
      rw [arrive_snd] at hstarted hroom ⊢
      rw [currentFrame_concat] at hroom ⊢
      generalize hbefore : (if (arrival packetSize s d).frameId = lastId s.2 then
        currentFrame s.2 else []) = before at hroom ⊢
      have hsound : Sound packetSize before := hbefore ▸ sound_before hsound hstarted
      have hdst : (t.atPacket packetSize d).iframe.buffer.length = dataIn packetSize before := by
        rw [roomIn_concat, roomIn_eq_dataIn hsize fun a ha hk => (hsound.blocks a ha hk).1] at hroom
        exact Nat.add_right_cancel hroom
      rw [sound_concat]
      by_cases hkind : (arrival packetSize s d).isBlock = true
      · simp only [hstarted, hkind, true_and, if_true, Option.toList_some, List.mem_singleton,
          forall_eq, hsound, true_implies, hdst]
        exact inside_iff hsize hreceived
      · simp [hkind, hsound]
    · simp [copy_eq h, hstarted]
  · have hframe := hnew hstarted
    rw [roomIn_eq_dataIn hsize fun a ha hk => (hframe.blocks a ha hk).1]
    exact hframe.fits

end Step

section Run

variable {packetSize : Nat} {packet : List UInt8}

theorem after_overrun {t : Thread} (h : t.overrun = true) (ds : List (List UInt8)) :
    t.after packetSize ds = t := by
  induction ds with
  | nil => rfl
  | cons d ds ih =>
    rw [Thread.after, List.foldl_cons, Thread.receive, if_pos h]
    exact ih

theorem copies_subset (t : Thread) (ds : List (List UInt8)) (d : List UInt8) :
    t.copies packetSize ds ⊆ t.copies packetSize (ds ++ [d]) := by
  induction ds generalizing t with
  | nil => exact List.nil_subset _
  | cons d' ds ih =>
    rw [List.cons_append, Thread.copies, Thread.copies]
    split
    · exact List.Subset.refl _
    · exact List.append_subset.mpr
        ⟨List.subset_append_left .., List.Subset.trans (ih _) (List.subset_append_right ..)⟩

theorem copies_concat (t : Thread) (ds : List (List UInt8)) (d : List UInt8)
    (hover : (t.after packetSize ds).overrun = false) :
    t.copies packetSize (ds ++ [d]) =
      t.copies packetSize ds ++ ((t.after packetSize ds).copy packetSize d).toList := by
  induction ds generalizing t with
  | nil =>
    have hover : ¬ t.overrun = true := by simpa [Thread.after] using hover
    simp [Thread.copies, Thread.after, hover]
  | cons d' ds ih =>
    have hnext : ((t.receive packetSize d').after packetSize ds).overrun = false := hover
    have hgoes : ¬ t.overrun = true := fun hlost => by
      rw [after_overrun hlost, hlost] at hover
      exact Bool.noConfusion hover
    rw [List.cons_append, Thread.copies, Thread.copies, if_neg hgoes, if_neg hgoes, ih _ hnext,
      List.append_assoc]
    rfl

/-- The frames of all the states that some datagrams lead through are sound. -/
def AllSound (packetSize : Nat) (packet : List UInt8) (ds : List (List UInt8)) : Prop :=
  ∀ pre, pre <+: ds → Started (arrived packetSize packet pre).2 →
    Sound packetSize (currentFrame (arrived packetSize packet pre).2)

theorem allSound_concat {ds : List (List UInt8)} {d : List UInt8} :
    AllSound packetSize packet (ds ++ [d]) ↔ AllSound packetSize packet ds ∧
      (Started (arrived packetSize packet (ds ++ [d])).2 →
        Sound packetSize (currentFrame (arrived packetSize packet (ds ++ [d])).2)) := by
  simp only [AllSound, List.prefix_concat_iff, or_imp, forall_and, forall_eq]
  exact and_comm

/-- The copies are inside exactly as long as the frames are sound, and then the run goes
on. -/
theorem copies_inside_iff (hsize : packetSize < 2 ^ 32) (hpacket : packet.length = packetSize)
    (iframe : Iframe) (nPackets : Nat) (ds : List (List UInt8)) :
    ((∀ c ∈ (Thread.start packet iframe nPackets).copies packetSize ds, c.Inside packetSize) ↔
      AllSound packetSize packet ds) ∧
    (AllSound packetSize packet ds →
      ((Thread.start packet iframe nPackets).after packetSize ds).overrun = false) := by
  induction ds using List.reverseRecOn with
  | nil =>
    refine ⟨iff_of_true (by simp [Thread.copies]) fun pre hpre hstarted => ?_, fun _ => rfl⟩
    obtain rfl := List.prefix_nil.mp hpre
    simp [arrived, Started] at hstarted
  | append_singleton ds d ih =>
    obtain ⟨hiff, hgoes⟩ := ih
    rw [allSound_concat]
    by_cases hsound : AllSound packetSize packet ds
    · have hover := hgoes hsound
      have hfollows := follows_after packet iframe nPackets ds hover
      have hholds := holdsFrame_after hsize hpacket iframe nPackets ds hover
      obtain ⟨hlast, hnext⟩ := copy_inside_iff hsize hfollows (arrived_length hpacket ds) hholds
        hover (hsound ds List.prefix_rfl) d
      rw [copies_concat _ _ _ hover, arrived_concat, after_concat]
      simp only [List.mem_append, or_imp, forall_and]
      exact ⟨and_congr hiff hlast, fun h => hnext h.2⟩
    · exact ⟨iff_of_false
        (fun hall => hsound (hiff.mp fun c hc => hall c (copies_subset _ ds d hc)))
        fun h => hsound h.1, fun h => absurd h.1 hsound⟩

end Run

section Camera

variable (outcomes : Outcomes) (packetId ip port requests : Nat) (written : List (List UInt8))

/-- What the camera answers for its packet size, the sixth request of `gvcp_init`. -/
def reportedPacketSize : Nat := gvcpRegisterAck 0 (outcomes (requests + 5)).answer

theorem command_value (e : Exec) (c : Command) : (e.command outcomes c).value =
    if c.sends e.value then c.valueAfter e.value (outcomes e.requests).answer else e.value := by
  unfold Exec.command
  split <;> rfl

theorem gvcpInit_value : (gvcpInit outcomes packetId ip port requests written).value =
    min (reportedPacketSize outcomes requests) defaultPacketSize := by
  unfold gvcpInit
  simp only
  obtain ⟨hfour, -, hcr⟩ := lines_requested outcomes
    ⟨packetId, gvcpRegisterAck 0xffffffff (outcomes requests).answer, requests + 1,
      if (outcomes requests).written then written ++ [gvcpReadRegisterPacket 0x904 packetId]
        else written, false⟩
    [.read 0x934, .write privilege 0x02, .write 0xd18 ip, .write channelPort port] rfl
  generalize Exec.lines outcomes _
    [.read 0x934, .write privilege 0x02, .write 0xd18 ip, .write channelPort port] = e
    at hfour hcr ⊢
  have hcount : e.requests = requests + 5 := hfour.count
  have hgoes : { e with value := 0 }.crashed = false := hcr
  have hnil : ∀ e : Exec, e.lines outcomes [] = e := fun _ => rfl
  rw [lines_cons hgoes, lines_cons rfl, hnil, command_value, command_value]
  simp only [Command.sends, Command.valueAfter, if_true, decide_eq_true_eq, hcount,
    reportedPacketSize]
  split <;> omega

/-- **Every copy stays inside** if and only if the register has at least 28, and in every
state the blocks of the frame have come in full and fit into its buffer. -/
theorem neverOutside_iff (packet : List UInt8) (hpacket : packet.length =
      streamPacketSize (gvcpInit outcomes packetId ip port requests written).value)
    (iframe : Iframe) (nPackets : Nat) (ds : List (List UInt8)) :
    NeverOutside (gvcpInit outcomes packetId ip port requests written).value packet iframe
        nPackets ds ↔
      28 ≤ reportedPacketSize outcomes requests ∧
        AllSound (min (reportedPacketSize outcomes requests) defaultPacketSize - 28) packet ds := by
  have hvalue := gvcpInit_value outcomes packetId ip port requests written
  rw [hvalue] at hpacket ⊢
  have hsize : streamPacketSize (min (reportedPacketSize outcomes requests) defaultPacketSize) <
      2 ^ 32 := Nat.mod_lt _ (by decide)
  obtain ⟨hiff, -⟩ := copies_inside_iff hsize hpacket iframe nPackets ds
  have hno : NeverOutside (min (reportedPacketSize outcomes requests) defaultPacketSize) packet
      iframe nPackets ds ↔
        28 ≤ min (reportedPacketSize outcomes requests) defaultPacketSize ∧
          AllSound (streamPacketSize (min (reportedPacketSize outcomes requests)
            defaultPacketSize)) packet ds := by
    rw [← hiff]
    exact ⟨fun h => ⟨h.noWrap, h.copies⟩, fun h => ⟨h.1, h.2⟩⟩
  have hmin : 28 ≤ min (reportedPacketSize outcomes requests) defaultPacketSize ↔
      28 ≤ reportedPacketSize outcomes requests := by
    rw [defaultPacketSize]
    omega
  rw [hno, hmin]
  refine and_congr_right fun hleast => ?_
  have hstream : streamPacketSize (min (reportedPacketSize outcomes requests) defaultPacketSize) =
      min (reportedPacketSize outcomes requests) defaultPacketSize - 28 := by
    rw [streamPacketSize, defaultPacketSize]
    omega
  rw [hstream]

end Camera

section Runs

/-- A camera that answers `register` for its packet size. -/
def reporting (register : Nat) : Outcomes := fun n =>
  ⟨true, if n = 5 then
    some (ackBytes (gvcpReadRegisterPacket channelPacketSize 0xf006) register) else none⟩

theorem neverOutside_iff_fullBlock : NeverOutside (gvcpInit (reporting 37) 0xf001 0 0 0 []).value
    (List.replicate 9 0) ⟨0, []⟩ 0 [blockBytes 1 [7]] :=
  (neverOutside_iff (reporting 37) 0xf001 0 0 0 [] (List.replicate 9 0) (by decide) ⟨0, []⟩ 0
    [blockBytes 1 [7]]).mpr ⟨by decide, fun pre hpre hstarted => by
      have hsplit : pre <+: [] ++ [blockBytes 1 [7]] := hpre
      rcases List.prefix_concat_iff.mp hsplit with rfl | hpre
      · exact ⟨by decide, by decide⟩
      · obtain rfl := List.prefix_nil.mp hpre
        exact absurd hstarted (by decide)⟩

/-- Of a block with one byte 28 are copied. -/
theorem short_block_reads_stale : ¬ NeverOutside (gvcpInit (reporting 64) 0xf001 0 0 0 []).value
    (List.replicate 36 0) ⟨0, []⟩ 0 [blockBytes 1 [7]] := by
  intro h
  have hcopy := h.copies ⟨0, 8, 28, 9⟩ (by decide)
  exact absurd hcopy.src (by decide)

end Runs

end DclProcessor.Camera
