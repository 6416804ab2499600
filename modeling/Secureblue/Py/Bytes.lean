import Mathlib
import Secureblue.Py.Text

/-! Python byte strings: slices that shorten silently past the end, the little-endian unsigned words
    of `struct`, and the offsets that `range` enumerates. -/

namespace Py

/-- `bytes` -/
abbrev Bytes := List UInt8

/-! ### Slices -/

/-- `b[i:j]` for non-negative bounds. -/
def slice (b : Bytes) (i j : ℕ) : Bytes := (b.drop i).take (j - i)

/-- A slice at the boundaries of a middle part is that part. -/
theorem slice_mid {b mid : Bytes} {i j : ℕ} (pre post : Bytes) (hb : b = pre ++ mid ++ post)
    (hi : i = pre.length) (hj : j = i + mid.length) : slice b i j = mid := by
  subst hb hi hj
  rw [slice, List.append_assoc, List.drop_left, Nat.add_sub_cancel_left, List.take_left]

/-! ### Little-endian words -/

/-- The four bytes of a 32-bit word, least significant first. -/
def leU32 (n : ℕ) : Bytes :=
  [UInt8.ofNat n, UInt8.ofNat (n / 2 ^ 8), UInt8.ofNat (n / 2 ^ 16), UInt8.ofNat (n / 2 ^ 24)]

/-- The number whose little-endian bytes are `b`. -/
def fromLE (b : Bytes) : ℕ := b.foldr (fun x acc => x.toNat + 2 ^ 8 * acc) 0

/-- `struct.pack("<I", n)` -/
def packU32 (n : ℕ) : Except Exn Bytes :=
  if n < 2 ^ 32 then .ok (leU32 n) else .error .structError

/-- `struct.pack("<III", x, y, z)` -/
def packU32x3 (x y z : ℕ) : Except Exn Bytes :=
  if x < 2 ^ 32 ∧ y < 2 ^ 32 ∧ z < 2 ^ 32 then .ok (leU32 x ++ leU32 y ++ leU32 z)
  else .error .structError

/-- `struct.unpack_from("<III", b, offset)` -/
def unpackU32x3 (b : Bytes) (offset : ℕ) : Except Exn (ℕ × ℕ × ℕ) :=
  if offset + 12 ≤ b.length then
    .ok (fromLE (slice b offset (offset + 4)), fromLE (slice b (offset + 4) (offset + 8)),
      fromLE (slice b (offset + 8) (offset + 12)))
  else .error .structError

@[simp] theorem length_leU32 (n : ℕ) : (leU32 n).length = 4 := rfl

theorem fromLE_leU32 {n : ℕ} (h : n < 2 ^ 32) : fromLE (leU32 n) = n := by
  simp only [fromLE, leU32, List.foldr_cons, List.foldr_nil, UInt8.toNat_ofNat']
  omega

/-- Three packed words are read back wherever they stand. -/
theorem unpackU32x3_pack {b : Bytes} {offset x y z : ℕ} (pre post : Bytes) (hx : x < 2 ^ 32)
    (hy : y < 2 ^ 32) (hz : z < 2 ^ 32)
    (hb : b = pre ++ (leU32 x ++ leU32 y ++ leU32 z) ++ post) (ho : offset = pre.length) :
    unpackU32x3 b offset = .ok (x, y, z) := by
  have h₁ : slice b offset (offset + 4) = leU32 x :=
    slice_mid pre (leU32 y ++ leU32 z ++ post) (by simp [hb]) ho rfl
  have h₂ : slice b (offset + 4) (offset + 8) = leU32 y :=
    slice_mid (pre ++ leU32 x) (leU32 z ++ post) (by simp [hb]) (by simp [ho]) rfl
  have h₃ : slice b (offset + 8) (offset + 12) = leU32 z :=
    slice_mid (pre ++ leU32 x ++ leU32 y) post (by simp [hb]) (by simp [ho]) rfl
  rw [unpackU32x3, if_pos (by simp [hb, ho]; omega), h₁, h₂, h₃, fromLE_leU32 hx, fromLE_leU32 hy,
    fromLE_leU32 hz]

/-! ### Ranges -/

/-- `range(start, stop, step)` for non-negative arguments. -/
def range (start stop step : ℕ) : Except Exn (List ℕ) :=
  if step = 0 then .error (.valueError "range() arg 3 must not be zero")
  else .ok (List.range' start ((stop - start + step - 1) / step) step)

theorem mem_range' {start stop step off : ℕ} (hs : 0 < step) :
    off ∈ List.range' start ((stop - start + step - 1) / step) step
      ↔ ∃ k, off = start + k * step ∧ off < stop := by
  rw [List.mem_range']
  constructor
  · rintro ⟨k, hk, rfl⟩
    refine ⟨k, by rw [Nat.mul_comm], ?_⟩
    have := (Nat.le_div_iff_mul_le hs).mp (Nat.succ_le_of_lt hk)
    rw [Nat.succ_mul, Nat.mul_comm k step] at this
    omega
  · rintro ⟨k, rfl, hk⟩
    refine ⟨k, Nat.lt_of_succ_le ((Nat.le_div_iff_mul_le hs).mpr ?_), by rw [Nat.mul_comm]⟩
    rw [Nat.succ_mul]
    omega

/-- A range over `n` whole steps has `n` members. -/
theorem range_mul {step : ℕ} (hs : 0 < step) (start n : ℕ) :
    range start (start + n * step) step = .ok (List.range' start n step) := by
  rw [range, if_neg (by omega), Nat.add_sub_cancel_left]
  congr 2
  rw [Nat.add_sub_assoc hs, Nat.add_comm, Nat.add_mul_div_right _ _ hs,
    Nat.div_eq_of_lt (by omega), Nat.zero_add]

end Py
