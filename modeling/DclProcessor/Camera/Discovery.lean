import DclProcessor.Library.CString
import DclProcessor.Camera.Gvcp

/-!
`gvcp_discovery_ack`: the texts of a discovery acknowledgement are copied to the arrays of a
`struct device`. In the packet a text that fills its field has no zero at its end.
-/

namespace DclProcessor.Camera

open Bytes

/-- The fields of the packet that are copied as texts. -/
inductive TextField
  | vendor | model | serial | userId
  deriving DecidableEq

namespace TextField

/-- `GVCP_MANUFACTURER_NAME_OFFSET` and the others. -/
def offset : TextField → Nat
  | vendor => 0x48
  | model => 0x68
  | serial => 0xd8
  | userId => 0xe8

/-- `GVCP_MANUFACTURER_NAME_SIZE` and the others. -/
def size : TextField → Nat
  | vendor => 32
  | model => 32
  | serial => 16
  | userId => 16

/-- The field with the first byte behind it. -/
def bytes (f : TextField) (packet : List UInt8) : List UInt8 :=
  member packet (8 + f.offset) (f.size + 1)

/-- The field, cut at its first zero byte or at its width. -/
def text (f : TextField) (packet : List UInt8) : List UInt8 :=
  cString (member packet (8 + f.offset) f.size)

end TextField

/-- `struct device`: where `vendor` is in it, and its size. The arrays stand one behind the
other from there on, each with one byte more than the field, and `iface_name` comes last. -/
structure Device where
  vendor : Nat
  size : Nat
  room : vendor + 33 + 33 + 17 + 17 + 18 + 80 ≤ size

namespace Device

def addr (dev : Device) : TextField → Nat
  | .vendor => dev.vendor
  | .model => dev.vendor + 33
  | .serial => dev.vendor + 33 + 33
  | .userId => dev.vendor + 33 + 33 + 17

def mac (dev : Device) : Nat := dev.vendor + 33 + 33 + 17 + 17

end Device

/-- A digit of `%02hhx`. -/
def hexDigit (n : Nat) : UInt8 := UInt8.ofNat (if n < 10 then 48 + n else 87 + n)

def hexByte (b : UInt8) : List UInt8 := [hexDigit (b.toNat / 16), hexDigit (b.toNat % 16)]

/-- The six bytes from `GVCP_DEVICE_MAC_ADDRESS_HIGH_OFFSET + 2` on, with colons. -/
def macText (data : List UInt8) : List UInt8 :=
  [58].intercalate ((member data (0x08 + 2) 6).map hexByte)

/-- `if (dst) strcpy(dst, src)` -/
def copyIf (limit : Nat) (dst : Option Nat) (src : List UInt8) (mem : Memory) : Option Memory :=
  match dst with
  | some dst => strcpy limit mem dst src
  | none => some mem

/-- `packet` is all the memory from the packet on; `mem` holds the destinations, up to
`limit`. -/
def gvcpDiscoveryAck (limit : Nat) (vendor model serial userId mac : Option Nat)
    (packet : Option (List UInt8)) (mem : Memory) : Option (Int × Memory) :=
  match packet with
  | none => some (-1, mem)
  | some packet =>
    let data := packet.drop 8
    if beValue (member packet 2 2) = 0x0003 ∧ beValue (member packet 6 2) = 0xffff then do
      let mem ← copyIf limit vendor (data.drop 0x48) mem
      let mem ← copyIf limit model (data.drop 0x68) mem
      let mem ← copyIf limit serial (data.drop 0xd8) mem
      let mem ← copyIf limit userId (data.drop 0xe8) mem
      -- sprintf
      let mem ← copyIf limit mac (macText data ++ [0]) mem
      return (0, mem)
    else some (0, mem)

/-- A discovery acknowledgement, with all its data. -/
structure IsDiscoveryAck (packet : List UInt8) : Prop where
  command : beValue (member packet 2 2) = 0x0003
  id : beValue (member packet 6 2) = 0xffff
  length : 8 + 0xf8 ≤ packet.length

/-- The texts are those of the packet, and nothing else but `mac` has changed. -/
structure FieldsDecoded (dev : Device) (packet : List UInt8) (mem mem' : Memory) : Prop where
  text : ∀ f, strAt mem' (dev.addr f) dev.size = some (f.text packet)
  rest : ∀ a < dev.size, (∀ f, ¬ (dev.addr f ≤ a ∧ a ≤ dev.addr f + f.size)) →
    ¬ (dev.mac ≤ a ∧ a < dev.mac + 18) → mem' a = mem a

/-- What `gvcp_discovery_ack` does to a device. -/
def discoverDevice (dev : Device) (packet : List UInt8) (mem : Memory) : Option (Int × Memory) :=
  gvcpDiscoveryAck dev.size (some (dev.addr .vendor)) (some (dev.addr .model))
    (some (dev.addr .serial)) (some (dev.addr .userId)) (some dev.mac) (some packet) mem

section Slots

variable (dev : Device) (packet : List UInt8)

def textSlot (f : TextField) : Slot := ⟨dev.addr f, f.size, packet.drop (8 + f.offset)⟩

def macSlot : Slot := ⟨dev.mac, 17, macText (packet.drop 8) ++ [0]⟩

/-- The copies, in the order in which they are made. -/
def deviceSlots : List Slot :=
  [textSlot dev packet .vendor, textSlot dev packet .model, textSlot dev packet .serial,
    textSlot dev packet .userId, macSlot dev packet]

variable {dev packet}

theorem textSlot_mem (f : TextField) : textSlot dev packet f ∈ deviceSlots dev packet := by
  cases f <;> simp [deviceSlots]

theorem mem_deviceSlots {a : Slot} (h : a ∈ deviceSlots dev packet) :
    (∃ f, a = textSlot dev packet f) ∨ a = macSlot dev packet := by
  simp only [deviceSlots, List.mem_cons, List.not_mem_nil, or_false] at h
  rcases h with rfl | rfl | rfl | rfl | rfl
  · exact Or.inl ⟨_, rfl⟩
  · exact Or.inl ⟨_, rfl⟩
  · exact Or.inl ⟨_, rfl⟩
  · exact Or.inl ⟨_, rfl⟩
  · exact Or.inr rfl

theorem macText_length {data : List UInt8} (h : 16 ≤ data.length) : (macText data).length = 17 := by
  have hsix : (member data (0x08 + 2) 6).length = 6 := by
    rw [member, List.length_take, List.length_drop]
    omega
  unfold macText
  generalize member data (0x08 + 2) 6 = six at hsix
  match six, hsix with
  | [_, _, _, _, _, _], _ => rfl

theorem macSlot_ends (h : IsDiscoveryAck packet) : (macSlot dev packet).Ends := by
  have hdata : 16 ≤ (packet.drop 8).length := by
    have hlength := h.length
    rw [List.length_drop]
    omega
  have hmac := macText_length hdata
  unfold Slot.Ends macSlot
  simp only
  rw [List.take_of_length_le (by rw [List.length_append, hmac]; simp)]
  simp

theorem ascending_deviceSlots : Ascending dev.size (deviceSlots dev packet) := by
  have hroom := dev.room
  constructor
  · simp only [deviceSlots, textSlot, macSlot, Device.addr, Device.mac, TextField.size,
      List.pairwise_cons, List.mem_cons, List.not_mem_nil, or_false, forall_eq_or_imp, forall_eq,
      false_imp_iff, implies_true, List.Pairwise.nil, and_true]
    omega
  · intro a ha
    rcases mem_deviceSlots ha with ⟨f, rfl⟩ | rfl
    · cases f <;> simp only [textSlot, Device.addr, TextField.size] <;> omega
    · simp only [macSlot, Device.mac]
      omega

theorem discoverDevice_eq (h : IsDiscoveryAck packet) (mem : Memory) :
    discoverDevice dev packet mem =
      (copyAll dev.size (deviceSlots dev packet) mem).map fun mem' => (0, mem') := by
  have hack : beValue (member packet 2 2) = 0x0003 ∧ beValue (member packet 6 2) = 0xffff :=
    ⟨h.command, h.id⟩
  simp only [discoverDevice, gvcpDiscoveryAck, if_pos hack, copyIf, deviceSlots, copyAll, textSlot,
    macSlot, TextField.offset, List.drop_drop, Option.map_bind, Option.map_some,
    Option.pure_def, Option.bind_eq_bind, Function.comp_def]

end Slots

/-- **The texts are decoded** if and only if every field has a zero in it or right behind it. -/
theorem fieldsDecoded_iff (dev : Device) {packet : List UInt8} (h : IsDiscoveryAck packet)
    (mem : Memory) :
    (∃ mem', discoverDevice dev packet mem = some (0, mem') ∧ FieldsDecoded dev packet mem mem') ↔
      ∀ f : TextField, (0 : UInt8) ∈ f.bytes packet := by
  have horder : Ascending dev.size (deviceSlots dev packet) := ascending_deviceSlots
  constructor
  · rintro ⟨mem', heq, hdecoded⟩ f
    rw [discoverDevice_eq h, Option.map_eq_some_iff] at heq
    obtain ⟨mem'', hcopy, hsame⟩ := heq
    obtain rfl : mem'' = mem' := (Prod.mk.inj hsame).2
    by_contra hends
    exact copyAll_of_not_ends horder hcopy (textSlot_mem f) hends (hdecoded.text f)
  · intro hends
    have hall : ∀ a ∈ deviceSlots dev packet, a.Ends := by
      intro a ha
      rcases mem_deviceSlots ha with ⟨f, rfl⟩ | rfl
      · exact hends f
      · exact macSlot_ends h
    obtain ⟨mem', hcopy, hread, hrest⟩ := copyAll_of_ends horder hall mem
    refine ⟨mem', by rw [discoverDevice_eq h, hcopy]; rfl, fun f => hread _ (textSlot_mem f), ?_⟩
    intro a _ htext hmac
    refine hrest a fun b hb => ?_
    rcases mem_deviceSlots hb with ⟨f, rfl⟩ | rfl
    · exact htext f
    · intro hhas
      exact hmac ⟨hhas.1, Nat.lt_succ_of_le hhas.2⟩

/-- An acknowledgement with these texts, and zeros for the rest of its data. -/
def ackPacket (vendor model : List UInt8) : List UInt8 :=
  [0, 0] ++ beBytes 2 0x0003 ++ beBytes 2 0xf8 ++ beBytes 2 0xffff ++
    List.replicate 0x48 0 ++ vendor ++ model ++ List.replicate (0xf8 - 0x88) 0

def someDevice : Device := ⟨80, 288, by decide⟩

/-- A vendor with a name of 32 letters, and no name of the model. -/
def fullVendor : List UInt8 := ackPacket (List.replicate 32 65) (List.replicate 32 0)

theorem fullVendor_isAck : IsDiscoveryAck fullVendor := ⟨by decide, by decide, by decide +kernel⟩

theorem fieldsDecoded_iff_fullVendor :
    ∃ mem', discoverDevice someDevice fullVendor (fun _ => 0) = some (0, mem') ∧
      FieldsDecoded someDevice fullVendor (fun _ => 0) mem' :=
  (fieldsDecoded_iff someDevice fullVendor_isAck _).mpr fun f => by cases f <;> decide +kernel

/-- The same vendor with a model that is called `B`. -/
def runningVendor : List UInt8 :=
  ackPacket (List.replicate 32 65) (66 :: List.replicate 31 0)

theorem runningVendor_copied :
    (discoverDevice someDevice runningVendor (fun _ => 0)).isSome = true := by decide +kernel

/-- The name of the vendor runs into that of the model, there and in the device. -/
theorem vendor_runs_on : ∃ r, discoverDevice someDevice runningVendor (fun _ => 0) = some r ∧
    strAt r.2 (someDevice.addr .vendor) someDevice.size =
      some (List.replicate 32 65 ++ [66, 66]) ∧
    ¬ FieldsDecoded someDevice runningVendor (fun _ => 0) r.2 := by
  have hread : strAt ((discoverDevice someDevice runningVendor (fun _ => 0)).get
      runningVendor_copied).2 (someDevice.addr .vendor) someDevice.size =
      some (List.replicate 32 65 ++ [66, 66]) := by decide +kernel
  refine ⟨_, (Option.some_get runningVendor_copied).symm, hread, fun h => ?_⟩
  have htext := (h.text .vendor).symm.trans hread
  revert htext
  decide +kernel

end DclProcessor.Camera
