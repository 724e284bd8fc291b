import DclProcessor.Camera.Header

/-!
`gvsp_packet_get_timestamp`: the ticks of a data leader as nanoseconds. Seconds and the
remainder of the division are taken to nanoseconds on their own, each in 64 bits.
-/

namespace DclProcessor.Camera

open Bytes

/-- `gvcp_get_timestamp_tick_frequency`, of the two registers. -/
def timestampTickFrequency (high low : Nat) : Nat := (high <<< 32) ||| low

def packetGetTimestamp (packet : List UInt8) (tickFrequency : Nat) : Nat :=
  if tickFrequency < 1 then 0
  else
    let leader := packetGetData packet
    let timestamp := (beValue (member leader 4 4) <<< 32) ||| beValue (member leader 8 4)
    let timestampS := timestamp / tickFrequency
    let timestampNs := timestamp % tickFrequency * 1000000000 % 2 ^ 64 / tickFrequency
    (timestampNs + timestampS * 1000000000 % 2 ^ 64) % 2 ^ 64

/-- The leader in the packet has the ticks in its `timestamp_high` and `timestamp_low`. -/
def CarriesTicks (packet : List UInt8) (ticks : Nat) : Prop :=
  member (packetGetData packet) 4 4 = beBytes 4 (ticks / 2 ^ 32) ∧
    member (packetGetData packet) 8 4 = beBytes 4 (ticks % 2 ^ 32)

/-- The nanoseconds of so many ticks, rounded down. -/
def nanoseconds (ticks tickFrequency : Nat) : Nat := ticks * 1000000000 / tickFrequency

/-- The conversion is exact, and nothing in it wraps. -/
structure TimestampExact (packet : List UInt8) (ticks tickFrequency : Nat) : Prop where
  value : packetGetTimestamp packet tickFrequency = nanoseconds ticks tickFrequency
  product : ticks % tickFrequency * 1000000000 < 2 ^ 64
  sum : ticks % tickFrequency * 1000000000 / tickFrequency +
    ticks / tickFrequency * 1000000000 < 2 ^ 64

section Division

variable {ticks f : Nat}

/-- Seconds and remainder are converted on their own. -/
theorem nanoseconds_split (ticks : Nat) (hf : 0 < f) :
    nanoseconds ticks f = ticks % f * 1000000000 / f + ticks / f * 1000000000 := by
  have hsplit : ticks * 1000000000 =
      ticks % f * 1000000000 + ticks / f * 1000000000 * f := by
    calc ticks * 1000000000 = (ticks % f + f * (ticks / f)) * 1000000000 := by
          rw [Nat.mod_add_div]
      _ = ticks % f * 1000000000 + ticks / f * 1000000000 * f := by ring
  rw [nanoseconds, hsplit, Nat.add_mul_div_right _ _ hf]

/-- To lose `2 ^ 64` changes a quotient, as the divisor is smaller. -/
theorem wrapped_div_eq_iff {n : Nat} (hf : 0 < f) (hlt : f < 2 ^ 64) :
    n % 2 ^ 64 / f = n / f ↔ n < 2 ^ 64 := by
  constructor
  · intro heq
    by_contra hle
    have hlost : n % 2 ^ 64 + f ≤ n := by
      have hmod := Nat.mod_add_div n (2 ^ 64)
      have hquot : 1 ≤ n / 2 ^ 64 := (Nat.one_le_div_iff (by norm_num)).mpr (by omega)
      omega
    have hdiv : n % 2 ^ 64 / f + 1 ≤ n / f := by
      rw [← Nat.add_div_right _ hf]
      exact Nat.div_le_div_right hlost
    omega
  · intro hn
    rw [Nat.mod_eq_of_lt hn]

end Division

section Packet

variable {packet : List UInt8} {ticks f : Nat}

/-- Sums that fit agree in 64 bits only if their first parts agree. -/
theorem sum_eq_iff {a b c : Nat} (hle : a ≤ b) (hfits : b + c < 2 ^ 64) :
    (a + c % 2 ^ 64) % 2 ^ 64 = b + c ↔ a = b := by
  omega

theorem leader_ticks (h : CarriesTicks packet ticks) (hticks : ticks < 2 ^ 64) :
    (beValue (member (packetGetData packet) 4 4) <<< 32) |||
      beValue (member (packetGetData packet) 8 4) = ticks := by
  obtain ⟨hhigh, hlow⟩ := h
  rw [hhigh, hlow, beValue_beBytes, beValue_beBytes, ← Nat.shiftLeft_add_eq_or_of_lt (by omega),
    Nat.shiftLeft_eq]
  omega

theorem timestampTickFrequency_lt {high low : Nat} (hhigh : high < 2 ^ 32) (hlow : low < 2 ^ 32) :
    timestampTickFrequency high low < 2 ^ 64 := by
  rw [timestampTickFrequency, ← Nat.shiftLeft_add_eq_or_of_lt hlow, Nat.shiftLeft_eq]
  omega

/-- What is returned: the sum of both parts. -/
theorem packetGetTimestamp_eq (h : CarriesTicks packet ticks) (hticks : ticks < 2 ^ 64)
    (hf : 1 ≤ f) : packetGetTimestamp packet f =
      (ticks % f * 1000000000 % 2 ^ 64 / f + ticks / f * 1000000000 % 2 ^ 64) % 2 ^ 64 := by
  rw [packetGetTimestamp, if_neg (by omega)]
  simp only [leader_ticks h hticks]

/-- **The conversion is exact** if and only if the remainder of the ticks stays below
`2 ^ 64` when it is taken to nanoseconds. -/
theorem timestampExact_iff {high low : Nat} (hhigh : high < 2 ^ 32) (hlow : low < 2 ^ 32)
    (hf : 1 ≤ timestampTickFrequency high low) (hticks : ticks < 2 ^ 64)
    (hfits : nanoseconds ticks (timestampTickFrequency high low) < 2 ^ 64)
    (h : CarriesTicks packet ticks) :
    TimestampExact packet ticks (timestampTickFrequency high low) ↔
      ticks % timestampTickFrequency high low ≤ 18446744073 := by
  have hlt := timestampTickFrequency_lt hhigh hlow
  generalize timestampTickFrequency high low = f at hf hfits hlt ⊢
  have hsplit := nanoseconds_split ticks hf
  rw [hsplit] at hfits
  have heq := packetGetTimestamp_eq h hticks hf
  have hwrap := wrapped_div_eq_iff (n := ticks % f * 1000000000) hf hlt
  -- the wrapped quotient is not larger, so that only the product can be lost
  have hle : ticks % f * 1000000000 % 2 ^ 64 / f ≤ ticks % f * 1000000000 / f :=
    Nat.div_le_div_right (Nat.mod_le _ _)
  constructor
  · intro hexact
    have hvalue := hexact.value
    rw [heq, hsplit, sum_eq_iff hle hfits, hwrap] at hvalue
    omega
  · intro hsmall
    have hproduct : ticks % f * 1000000000 < 2 ^ 64 := by omega
    refine ⟨?_, hproduct, hfits⟩
    rw [heq, hsplit, sum_eq_iff hle hfits, hwrap]
    exact hproduct

end Packet

/-- A leader with a time of one tick more than a second, at 1 GHz. -/
def leaderPacket (high low : Nat) : List UInt8 :=
  standardPacket 0 1 0 1 ([0, 0, 0, 1] ++ beBytes 4 high ++ beBytes 4 low)

theorem timestampExact_iff_gigahertz :
    TimestampExact (leaderPacket 0 1000000001) 1000000001 (timestampTickFrequency 0 1000000000) :=
  (timestampExact_iff (by decide) (by decide) (by decide) (by decide) (by decide)
    ⟨by decide, by decide⟩).mpr (by decide)

/-- At a frequency of 32 GHz, less than a second of ticks is taken for less than it is. -/
theorem product_wraps :
    CarriesTicks (leaderPacket 4 2820130816) 20000000000 ∧
      1 ≤ timestampTickFrequency 7 1935228928 ∧
      nanoseconds 20000000000 (timestampTickFrequency 7 1935228928) = 625000000 ∧
      packetGetTimestamp (leaderPacket 4 2820130816) (timestampTickFrequency 7 1935228928) =
        48539247 ∧
      ¬ TimestampExact (leaderPacket 4 2820130816) 20000000000
        (timestampTickFrequency 7 1935228928) := by
  refine ⟨⟨by decide, by decide⟩, by decide, by decide, by decide, fun h => ?_⟩
  have hproduct := h.product
  revert hproduct
  decide

end DclProcessor.Camera
