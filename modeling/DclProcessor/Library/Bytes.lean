import Mathlib.Data.List.Basic
import Mathlib.Tactic.Ring

/-!
Little-endian numbers, buffers that are filled piece by piece, and records of one
length one after the other in a stream.
-/

namespace DclProcessor.Bytes

/-- The `k` low bytes of `n`, the lowest first. -/
def leBytes : Nat → Nat → List UInt8
  | 0, _ => []
  | k + 1, n => UInt8.ofNat n :: leBytes k (n / 256)

def leValue : List UInt8 → Nat
  | [] => 0
  | b :: bs => b.toNat + 256 * leValue bs

@[simp] theorem leBytes_length (k n : Nat) : (leBytes k n).length = k := by
  induction k generalizing n with
  | zero => rfl
  | succ k ih => simp [leBytes, ih]

theorem leValue_leBytes (k n : Nat) : leValue (leBytes k n) = n % 256 ^ k := by
  induction k generalizing n with
  | zero => simp [leBytes, leValue, Nat.mod_one]
  | succ k ih =>
    have hlow : (UInt8.ofNat n).toNat = n % 256 := UInt8.toNat_ofNat'
    rw [leBytes, leValue, ih, hlow, pow_succ, Nat.mul_comm (256 ^ k), Nat.mod_mul]

theorem leBytes_leValue (bs : List UInt8) : leBytes bs.length (leValue bs) = bs := by
  induction bs with
  | nil => rfl
  | cons b bs ih =>
    have hb := b.toNat_lt
    have hlow : UInt8.ofNat (b.toNat + 256 * leValue bs) = b := by
      rw [← UInt8.toNat_inj, UInt8.toNat_ofNat']
      omega
    have hrest : (b.toNat + 256 * leValue bs) / 256 = leValue bs := by omega
    rw [List.length_cons, leValue, leBytes, hlow, hrest, ih]

theorem leValue_inj {bs bs' : List UInt8} (hlen : bs.length = bs'.length)
    (h : leValue bs = leValue bs') : bs = bs' := by
  rw [← leBytes_leValue bs, ← leBytes_leValue bs', hlen, h]

variable {α : Type*}

/-- Write `xs` to `buf` at offset `off`. -/
def overwrite (buf : List α) (off : Nat) (xs : List α) : List α :=
  buf.take off ++ xs ++ buf.drop (off + xs.length)

theorem overwrite_length {buf xs : List α} {off : Nat} (h : off + xs.length ≤ buf.length) :
    (overwrite buf off xs).length = buf.length := by
  simp only [overwrite, List.length_append, List.length_take, List.length_drop]
  omega

/-- A buffer that agrees with `src` up to `off`, and is given the next piece of it. -/
theorem overwrite_take {buf src : List α} {off n : Nat} (hbuf : buf.take off = src.take off)
    (hn : off + n ≤ src.length) :
    (overwrite buf off ((src.drop off).take n)).take (off + n) = src.take (off + n) := by
  have hlen : (src.take off ++ (src.drop off).take n).length = off + n := by
    simp only [List.length_append, List.length_take, List.length_drop]
    omega
  rw [overwrite, hbuf, List.take_append_of_le_length (by omega), List.take_of_length_le (by omega),
    List.take_add]

section Records

variable {β : Type*} {enc : β → List α} {len : Nat}

theorem flatMap_length (henc : ∀ x, (enc x).length = len) (xs : List β) :
    (xs.flatMap enc).length = xs.length * len := by
  induction xs with
  | nil => simp
  | cons x xs ih => rw [List.flatMap_cons, List.length_append, henc, ih, List.length_cons]; ring

/-- From `off` into record `k` the stream goes on with the rest of that record. -/
theorem take_drop_record (henc : ∀ x, (enc x).length = len) {xs : List β} {k : Nat} {x : β}
    (hk : xs[k]? = some x) {off n : Nat} (hn : off + n ≤ len) :
    ((xs.flatMap enc).drop (k * len + off)).take n = ((enc x).drop off).take n := by
  induction xs generalizing k with
  | nil => simp at hk
  | cons y ys ih =>
    rw [List.flatMap_cons]
    cases k with
    | zero =>
      obtain rfl : y = x := by simpa using hk
      rw [Nat.zero_mul, Nat.zero_add, List.drop_append_of_le_length (by rw [henc]; omega),
        List.take_append_of_le_length (by rw [List.length_drop, henc]; omega)]
    | succ k =>
      have hskip : (k + 1) * len + off = (enc y).length + (k * len + off) := by rw [henc]; ring
      rw [hskip, List.drop_length_add_append]
      exact ih (by simpa using hk)

end Records

end DclProcessor.Bytes
