import Mathlib.Data.List.Basic
import Mathlib.Tactic.Ring

/-!
# Big-endian bytes

Unsigned integers as big-endian byte strings of a fixed width: `beBytes n v` writes the low `n`
bytes of `v`, most significant first, and `beNat` reads a byte string back.
-/

namespace Effects

/-- The low `n` bytes of `v`, most significant first. -/
def beBytes : ℕ → ℕ → List UInt8
  | 0, _ => []
  | n + 1, v => UInt8.ofNat (v / 256 ^ n) :: beBytes n v

/-- The number a big-endian byte string spells. -/
def beNat : List UInt8 → ℕ
  | [] => 0
  | b :: bytes => b.toNat * 256 ^ bytes.length + beNat bytes

@[simp]
theorem length_beBytes (n v : ℕ) : (beBytes n v).length = n := by
  induction n with
  | zero => rfl
  | succ n ih => rw [beBytes, List.length_cons, ih]

/-- A byte string of length `n` spells a number below `256 ^ n`. -/
theorem beNat_lt (bytes : List UInt8) : beNat bytes < 256 ^ bytes.length := by
  induction bytes with
  | nil => simp [beNat]
  | cons b bytes ih =>
    have hb : b.toNat + 1 ≤ 256 := b.toNat_lt
    have hmul := Nat.mul_le_mul_right (256 ^ bytes.length) hb
    rw [beNat, List.length_cons, Nat.pow_succ, Nat.mul_comm (256 ^ bytes.length)]
    rw [Nat.add_mul, Nat.one_mul] at hmul
    omega

/-- Reading back what was written gives the value reduced to the width. -/
theorem beNat_beBytes (n v : ℕ) : beNat (beBytes n v) = v % 256 ^ n := by
  induction n with
  | zero => simp [beBytes, beNat, Nat.mod_one]
  | succ n ih =>
    have hb : (UInt8.ofNat (v / 256 ^ n)).toNat = v / 256 ^ n % 256 := by simp
    rw [beBytes, beNat, ih, hb, length_beBytes, pow_succ, Nat.mod_mul]
    ring

/-- A value that fits is read back as it was written. -/
theorem beNat_beBytes_of_lt {n v : ℕ} (h : v < 256 ^ n) : beNat (beBytes n v) = v := by
  rw [beNat_beBytes, Nat.mod_eq_of_lt h]

/-- Two values that fit the width and have the same bytes are equal. -/
theorem beBytes_inj {n v w : ℕ} (hv : v < 256 ^ n) (hw : w < 256 ^ n)
    (h : beBytes n v = beBytes n w) : v = w := by
  rw [← beNat_beBytes_of_lt hv, h, beNat_beBytes_of_lt hw]

/-- A byte string is what its number is written as. -/
theorem beBytes_beNat (bytes : List UInt8) : beBytes bytes.length (beNat bytes) = bytes := by
  suffices h : ∀ m, beBytes bytes.length (m * 256 ^ bytes.length + beNat bytes) = bytes by
    simpa using h 0
  induction bytes with
  | nil => intro m; rfl
  | cons b bytes ih =>
    intro m
    have hlt := beNat_lt bytes
    have hsplit : m * 256 ^ (bytes.length + 1) + beNat (b :: bytes) =
        (m * 256 + b.toNat) * 256 ^ bytes.length + beNat bytes := by
      rw [beNat, pow_succ]
      ring
    rw [List.length_cons, hsplit, beBytes, ih]
    congr 1
    have hpos : 0 < 256 ^ bytes.length := Nat.pow_pos (by omega)
    rw [Nat.mul_comm, Nat.mul_add_div hpos, Nat.div_eq_of_lt hlt, Nat.add_zero]
    apply UInt8.toNat_inj.mp
    rw [UInt8.toNat_ofNat']
    have := b.toNat_lt
    omega

/-! ## Sixteen-bit numbers with machine operations -/

/-- Two bytes joined by a shift and an or spell a big-endian number. -/
theorem toNat_shiftLeft_or (b c : UInt8) :
    ((b.toUInt16 <<< 8) ||| c.toUInt16).toNat = beNat [b, c] := by
  have hb := b.toNat_lt
  have hc := c.toNat_lt
  have hor : ((b.toUInt16 <<< 8) ||| c.toUInt16).toNat = (b.toNat <<< 8) ||| c.toNat := by
    have hmod : b.toNat * 256 % 65536 = b.toNat * 256 := Nat.mod_eq_of_lt (by omega)
    simp [UInt16.toNat_or, UInt16.toNat_shiftLeft, Nat.shiftLeft_eq, hmod]
  rw [hor, ← Nat.shiftLeft_add_eq_or_of_lt (by omega), Nat.shiftLeft_eq]
  simp [beNat]

/-- The high and the low byte of a number, taken by a shift and a mask. -/
theorem shiftRight_and_eq_beBytes (v : ℕ) :
    [(UInt16.ofNat v >>> 8).toUInt8, (UInt16.ofNat v &&& 0xff).toUInt8] = beBytes 2 v := by
  have hhigh : (UInt16.ofNat v >>> 8).toUInt8 = UInt8.ofNat (v / 256) := by
    apply UInt8.toNat_inj.mp
    simp [UInt16.toNat_shiftRight, Nat.shiftRight_eq_div_pow]
    omega
  have hlow : (UInt16.ofNat v &&& 0xff).toUInt8 = UInt8.ofNat v := by
    apply UInt8.toNat_inj.mp
    have hmask : 255 = 2 ^ 8 - 1 := rfl
    simp
    rw [hmask, Nat.and_two_pow_sub_one_eq_mod]
    omega
  rw [hhigh, hlow]
  simp [beBytes]

/-! ## Slices -/

/-- The `len` elements of a list from position `off` on. -/
def slice {β : Type} (off len : ℕ) (l : List β) : List β := (l.drop off).take len

variable {β : Type}

theorem length_slice {off len : ℕ} {l : List β} (h : off + len ≤ l.length) :
    (slice off len l).length = len := by
  rw [slice, List.length_take, List.length_drop]
  omega

/-- The slice that starts where `x` ends and has the length of `y`. -/
theorem slice_append_append {n k : ℕ} {x y z : List β} (hx : x.length = n)
    (hy : y.length = k) : slice n k (x ++ y ++ z) = y := by
  rw [slice, List.append_assoc, List.drop_left' hx, List.take_left' hy]

theorem slice_append {n k : ℕ} {x y : List β} (hx : x.length = n) (hy : y.length = k) :
    slice n k (x ++ y) = y := by
  simpa using slice_append_append (z := []) hx hy

/-- Consecutive slices join. -/
theorem slice_slice_append {off len₁ len₂ : ℕ} {l : List β} :
    slice off len₁ l ++ slice (off + len₁) len₂ l = slice off (len₁ + len₂) l := by
  rw [slice, slice, slice, ← List.drop_drop, List.take_add]

/-- A slice that begins where the first `n` elements end extends them. -/
theorem slice_zero_append (n k : ℕ) (l : List β) :
    slice 0 n l ++ slice n k l = slice 0 (n + k) l := by
  have h := @slice_slice_append β 0 n k l
  rwa [Nat.zero_add] at h

theorem slice_zero_length (l : List β) : slice 0 l.length l = l := by simp [slice]

theorem slice_of_length {n : ℕ} {l : List β} (h : l.length = n) : slice 0 n l = l := by
  rw [← h, slice_zero_length]

end Effects
