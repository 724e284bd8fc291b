import DclProcessor.Camera.Gvcp
import Mathlib.Data.Nat.Bitwise

/-!
The two headers of a GVSP packet: what a camera puts into a standard and into an extended
one, and what the accessors of `gvsp.h` read from them.
-/

namespace DclProcessor.Camera

open Bytes

/-- `gvsp_packet_get_content_type`, as the number that is in the packet. -/
def packetContentNumber (packet : List UInt8) : Nat :=
  (beValue (member packet 4 4) &&& 0x7f000000) >>> 24

/-- `packet_info`: the content type behind the bit for an extended header, and 24 bits. -/
def packetInfo (extended : Bool) (contentType low : Nat) : Nat :=
  (if extended then 2 ^ 31 else 0) + contentType * 2 ^ 24 + low

/-- A packet with a `struct gvsp_header`. -/
def standardPacket (packetType frameId packetId contentType : Nat) (payload : List UInt8) :
    List UInt8 :=
  beBytes 2 packetType ++ beBytes 2 frameId ++ beBytes 4 (packetInfo false contentType packetId) ++
    payload

/-- A packet with a `struct gvsp_extended_header`; `low` are the bits of `packet_info` that
the packet id has left free. -/
def extendedPacket (packetType flags low frameId packetId contentType : Nat)
    (payload : List UInt8) : List UInt8 :=
  beBytes 2 packetType ++ beBytes 2 flags ++ beBytes 4 (packetInfo true contentType low) ++
    beBytes 8 frameId ++ beBytes 4 packetId ++ payload

/-- Both packets are decoded to the same numbers, and to the payload. -/
structure DecodeAlike (standard extended payload : List UInt8) : Prop where
  frameId : packetGetFrameId standard = packetGetFrameId extended
  packetId : packetGetPacketId standard = packetGetPacketId extended
  contentType : packetContentNumber standard = packetContentNumber extended
  standardData : packetGetData standard = payload
  extendedData : packetGetData extended = payload
  standardSize : packetGetDataSize standard standard.length = payload.length
  extendedSize : packetGetDataSize extended extended.length = payload.length

@[simp] theorem beBytes_length (k n : Nat) : (beBytes k n).length = k := by simp [beBytes]

theorem beValue_beBytes (k n : Nat) : beValue (beBytes k n) = n % 256 ^ k := by
  rw [beValue, beBytes, List.reverse_reverse, leValue_leBytes]

/-- The member that stands behind `pre`. -/
theorem member_at {pre field post : List UInt8} {off len : Nat} (hoff : pre.length = off)
    (hlen : field.length = len) : member (pre ++ field ++ post) off len = field := by
  subst hoff hlen
  rw [member, List.append_assoc, List.drop_left, List.take_left]

section Info

variable {extended : Bool} {contentType low : Nat}

theorem packetInfo_lt (extended : Bool) (hcontent : contentType < 2 ^ 7) (hlow : low < 2 ^ 24) :
    packetInfo extended contentType low < 256 ^ 4 := by
  cases extended <;> simp [packetInfo] <;> omega

/-- The content type is what the mask leaves of `packet_info`. -/
theorem packetInfo_content (hcontent : contentType < 2 ^ 7) (hlow : low < 2 ^ 24) :
    (packetInfo extended contentType low &&& 0x7f000000) >>> 24 = contentType := by
  have hmask : 0x7f000000 >>> 24 = 2 ^ 7 - 1 := rfl
  rw [Nat.shiftRight_and_distrib, hmask, Nat.and_two_pow_sub_one_eq_mod,
    Nat.shiftRight_eq_div_pow]
  cases extended <;> simp [packetInfo] <;> omega

/-- The packet id of a standard header. -/
theorem packetInfo_low (hlow : low < 2 ^ 24) :
    packetInfo extended contentType low &&& 0x00ffffff = low := by
  have hmask : 0x00ffffff = 2 ^ 24 - 1 := rfl
  rw [hmask, Nat.and_two_pow_sub_one_eq_mod]
  cases extended <;> simp [packetInfo] <;> omega

/-- The highest bit of `packet_info` tells the headers apart. -/
theorem hasExtendedIds_of_info {packet : List UInt8} (hcontent : contentType < 2 ^ 7)
    (hlow : low < 2 ^ 24)
    (hinfo : member packet 4 4 = beBytes 4 (packetInfo extended contentType low)) :
    packetHasExtendedIds packet = extended := by
  have hfirst : member packet 4 1 = (member packet 4 4).take 1 := by
    rw [member, member, List.take_take]
    rfl
  have hbyte : leValue (member packet 4 1) = packetInfo extended contentType low / 2 ^ 24 := by
    have hlt := packetInfo_lt extended hcontent hlow
    rw [hfirst, hinfo]
    simp only [beBytes, leBytes, List.reverse_cons, List.reverse_nil, List.nil_append,
      List.cons_append, List.take_succ_cons, List.take_zero, leValue, UInt8.toNat_ofNat']
    omega
  have hbit : packetInfo extended contentType low / 2 ^ 24 =
      (if extended then 2 ^ 7 else 0) + contentType := by
    cases extended <;> simp [packetInfo] <;> omega
  have hmask : (0x80 : Nat) = 2 ^ 7 := rfl
  rw [packetHasExtendedIds, hbyte, hbit, hmask, Nat.and_two_pow]
  cases extended with
  | false => simp [Nat.testBit_lt_two_pow hcontent]
  | true =>
    have hset : (2 ^ 7 + contentType).testBit 7 = true := by
      rw [Nat.testBit_two_pow_add_eq, Nat.testBit_lt_two_pow hcontent]
      rfl
    rw [if_pos rfl, hset]
    rfl

end Info

section Accessors

variable {packetType flags low frameId packetId contentType : Nat} {payload : List UInt8}

theorem standard_decodes (packetType : Nat) (payload : List UInt8) (hframe : frameId < 2 ^ 16)
    (hpacket : packetId < 2 ^ 24) (hcontent : contentType < 2 ^ 7) :
    packetGetFrameId (standardPacket packetType frameId packetId contentType payload) = frameId ∧
    packetGetPacketId (standardPacket packetType frameId packetId contentType payload) = packetId ∧
    packetContentNumber (standardPacket packetType frameId packetId contentType payload) =
      contentType ∧
    packetDataOffset (standardPacket packetType frameId packetId contentType payload) = 8 := by
  have hinfo : member (standardPacket packetType frameId packetId contentType payload) 4 4 =
      beBytes 4 (packetInfo false contentType packetId) := member_at (by simp) (by simp)
  have hid : member (standardPacket packetType frameId packetId contentType payload) 2 2 =
      beBytes 2 frameId := by
    rw [standardPacket, List.append_assoc (_ ++ _)]
    exact member_at (by simp) (by simp)
  have hext := hasExtendedIds_of_info hcontent hpacket hinfo
  have hvalue := beValue_beBytes 4 (packetInfo false contentType packetId)
  rw [Nat.mod_eq_of_lt (packetInfo_lt false hcontent hpacket)] at hvalue
  refine ⟨?_, ?_, ?_, ?_⟩
  · rw [packetGetFrameId, hext, if_neg Bool.false_ne_true, hid, beValue_beBytes,
      Nat.mod_eq_of_lt (by simpa using hframe)]
  · rw [packetGetPacketId, hext, if_neg Bool.false_ne_true, hinfo, hvalue, packetInfo_low hpacket]
  · rw [packetContentNumber, hinfo, hvalue, packetInfo_content hcontent hpacket]
  · rw [packetDataOffset, hext, if_neg Bool.false_ne_true]

/-- The frame id of an extended header is read with its bytes in reverse. -/
theorem extended_decodes (packetType flags frameId : Nat) (payload : List UInt8)
    (hlow : low < 2 ^ 24) (hpacket : packetId < 2 ^ 24) (hcontent : contentType < 2 ^ 7) :
    packetGetFrameId
        (extendedPacket packetType flags low frameId packetId contentType payload) =
      leValue (beBytes 8 frameId) ∧
    packetGetPacketId
        (extendedPacket packetType flags low frameId packetId contentType payload) = packetId ∧
    packetContentNumber
        (extendedPacket packetType flags low frameId packetId contentType payload) =
      contentType ∧
    packetDataOffset
        (extendedPacket packetType flags low frameId packetId contentType payload) = 20 := by
  have hinfo : member (extendedPacket packetType flags low frameId packetId contentType payload)
      4 4 = beBytes 4 (packetInfo true contentType low) := by
    rw [extendedPacket, List.append_assoc (_ ++ _), List.append_assoc (_ ++ _)]
    exact member_at (by simp) (by simp)
  have hid : member (extendedPacket packetType flags low frameId packetId contentType payload)
      8 8 = beBytes 8 frameId := by
    rw [extendedPacket, List.append_assoc (_ ++ _)]
    exact member_at (by simp) (by simp)
  have hpid : member (extendedPacket packetType flags low frameId packetId contentType payload)
      16 4 = beBytes 4 packetId := member_at (by simp) (by simp)
  have hext := hasExtendedIds_of_info hcontent hlow hinfo
  have hvalue := beValue_beBytes 4 (packetInfo true contentType low)
  rw [Nat.mod_eq_of_lt (packetInfo_lt true hcontent hlow)] at hvalue
  refine ⟨?_, ?_, ?_, ?_⟩
  · rw [packetGetFrameId, hext, if_pos rfl, hid]
  · rw [packetGetPacketId, hext, if_pos rfl, hpid, beValue_beBytes, Nat.mod_eq_of_lt (by omega)]
  · rw [packetContentNumber, hinfo, hvalue, packetInfo_content hcontent hlow]
  · rw [packetDataOffset, hext, if_pos rfl]

/-- With the offset of the payload right, data and size are those of the payload. -/
theorem data_of_offset {header : List UInt8}
    (hoffset : packetDataOffset (header ++ payload) = header.length)
    (hsize : payload.length < 2 ^ 64) :
    packetGetData (header ++ payload) = payload ∧
      packetGetDataSize (header ++ payload) (header ++ payload).length = payload.length := by
  constructor
  · rw [packetGetData, hoffset, List.drop_left]
  · rw [packetGetDataSize, hoffset, List.length_append]
    omega

/-- A small number has its bytes in reverse only if it is 0. -/
theorem reversed_eq_iff (hframe : frameId < 2 ^ 16) :
    frameId = leValue (beBytes 8 frameId) ↔ frameId = 0 := by
  have hvalue : leValue (beBytes 8 frameId) =
      frameId / 256 * 256 ^ 6 + frameId % 256 * 256 ^ 7 := by
    have hhigh : frameId / 256 / 256 = 0 := by omega
    simp only [beBytes, leBytes, List.reverse_cons, List.reverse_nil, List.nil_append,
      List.cons_append, leValue, UInt8.toNat_ofNat', hhigh, Nat.zero_div]
    omega
  rw [hvalue]
  omega

/-- **Both headers are decoded alike** if and only if the frame id is 0. -/
theorem decodeAlike_iff (packetType flags : Nat) (hlow : low < 2 ^ 24) (hframe : frameId < 2 ^ 16)
    (hpacket : packetId < 2 ^ 24) (hcontent : contentType < 2 ^ 7)
    (hsize : payload.length < 2 ^ 64) :
    DecodeAlike (standardPacket packetType frameId packetId contentType payload)
        (extendedPacket packetType flags low frameId packetId contentType payload) payload ↔
      frameId = 0 := by
  obtain ⟨hid, hpid, hnumber, hoffset⟩ :=
    standard_decodes packetType payload hframe hpacket hcontent
  obtain ⟨hid', hpid', hnumber', hoffset'⟩ :=
    extended_decodes packetType flags frameId payload hlow hpacket hcontent
  rw [← reversed_eq_iff hframe]
  constructor
  · intro h
    rw [← hid', ← h.frameId, hid]
  · intro h
    have hdata := data_of_offset hoffset hsize
    have hdata' := data_of_offset hoffset' hsize
    exact ⟨by rw [hid, hid', ← h], by rw [hpid, hpid'], by rw [hnumber, hnumber'], hdata.1,
      hdata'.1, hdata.2, hdata'.2⟩

end Accessors

theorem decodeAlike_iff_zero : DecodeAlike (standardPacket 0 0 1 3 [7])
    (extendedPacket 0 0 0 0 1 3 [7]) [7] :=
  (decodeAlike_iff 0 0 (by decide) (by decide) (by decide) (by decide) (by decide)).mpr rfl

/-- Frame 1 is frame 2^56 with an extended header. -/
theorem frameId_reversed : packetGetFrameId (standardPacket 0 1 1 3 [7]) = 1 ∧
    packetGetFrameId (extendedPacket 0 0 0 1 1 3 [7]) = 2 ^ 56 ∧
    ¬ DecodeAlike (standardPacket 0 1 1 3 [7]) (extendedPacket 0 0 0 1 1 3 [7]) [7] := by
  refine ⟨by decide, by decide, fun h => ?_⟩
  have hid := h.frameId
  revert hid
  decide

end DclProcessor.Camera
