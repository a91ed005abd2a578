import Mathlib

/-! Fixed-width machine words as byte strings, in either byte order, and the
rounding of offsets up to an alignment. Nothing here depends on a protocol. -/

set_option autoImplicit false

namespace Words

inductive Endian where
  | little | big
  deriving DecidableEq, Repr

def Endian.flip : Endian → Endian
  | .little => .big
  | .big => .little

@[simp] theorem Endian.flip_flip (e : Endian) : e.flip.flip = e := by cases e <;> rfl

theorem Endian.eq_flip_of_ne {e f : Endian} (h : e ≠ f) : f = e.flip := by
  cases e <;> cases f <;> simp_all [Endian.flip]

/-- The `w` low bytes of a number, least significant first. -/
@[grind =] def splitLE : Nat → Nat → List UInt8
  | 0, _ => []
  | w+1, n => UInt8.ofNat (n % 256) :: splitLE w (n / 256)

@[grind =] def joinLE : List UInt8 → Nat
  | [] => 0
  | b :: bs => b.toNat + 256 * joinLE bs

@[simp] theorem splitLE_length (w n : Nat) : (splitLE w n).length = w := by
  induction w generalizing n with
  | zero => rfl
  | succ w ih => simp [splitLE, ih]

theorem joinLE_splitLE (w n : Nat) (h : n < 256 ^ w) : joinLE (splitLE w n) = n := by
  induction w generalizing n with
  | zero => simp [splitLE, joinLE]; simp at h; omega
  | succ w ih =>
    have hd : n / 256 < 256 ^ w := by
      rw [Nat.pow_succ] at h
      exact Nat.div_lt_of_lt_mul (by omega)
    have hb : (UInt8.ofNat (n % 256)).toNat = n % 256 := by simp
    simp only [splitLE, joinLE, hb, ih _ hd]
    omega

theorem joinLE_lt (bs : List UInt8) : joinLE bs < 256 ^ bs.length := by
  induction bs with
  | nil => simp [joinLE]
  | cons b bs ih =>
    have hb := b.toNat_lt
    simp only [joinLE, List.length_cons, Nat.pow_succ]
    omega

theorem splitLE_joinLE (bs : List UInt8) : splitLE bs.length (joinLE bs) = bs := by
  induction bs with
  | nil => rfl
  | cons b bs ih =>
    have hb := b.toNat_lt
    have hm : (b.toNat + 256 * joinLE bs) % 256 = b.toNat := by omega
    have hd : (b.toNat + 256 * joinLE bs) / 256 = joinLE bs := by omega
    simp [splitLE, joinLE, hm, hd, ih]

/-- The bytes a host of this order keeps in memory for a `w`-byte word. -/
def Endian.split : Endian → Nat → Nat → List UInt8
  | .little, w, n => splitLE w n
  | .big, w, n => (splitLE w n).reverse

/-- The word a host of this order reads from these bytes. -/
def Endian.join : Endian → List UInt8 → Nat
  | .little, bs => joinLE bs
  | .big, bs => joinLE bs.reverse

@[simp] theorem Endian.split_length (e : Endian) (w n : Nat) : (e.split w n).length = w := by
  cases e <;> simp [Endian.split]

theorem Endian.join_split (e : Endian) (w n : Nat) (h : n < 256 ^ w) :
    e.join (e.split w n) = n := by
  cases e <;> simp [Endian.join, Endian.split, joinLE_splitLE w n h]

theorem Endian.join_lt (e : Endian) (bs : List UInt8) : e.join bs < 256 ^ bs.length := by
  cases e with
  | little => exact joinLE_lt bs
  | big => simpa [Endian.join] using joinLE_lt bs.reverse

/-- The word with the same bytes in the opposite order. -/
def swapWord (w n : Nat) : Nat := joinLE (splitLE w n).reverse

theorem swapWord_lt (w n : Nat) : swapWord w n < 256 ^ w := by
  have h := joinLE_lt (splitLE w n).reverse
  simpa [swapWord] using h

/-- Reading in the host's order and swapping is reading in the other order. -/
theorem swapWord_join (e : Endian) (bs : List UInt8) :
    swapWord bs.length (e.join bs) = e.flip.join bs := by
  cases e with
  | little => simp [swapWord, Endian.join, Endian.flip, splitLE_joinLE]
  | big =>
    have h := splitLE_joinLE bs.reverse
    rw [List.length_reverse] at h
    simp [swapWord, Endian.join, Endian.flip, h]

/-- Round `n` up to a multiple of `b`. -/
def alignUp (n b : Nat) : Nat := (n + (b-1)) / b * b

theorem alignUp_eq_of_dvd {n b : Nat} (hb : 0 < b) (h : b ∣ n) : alignUp n b = n := by
  obtain ⟨k, rfl⟩ := h
  have hk : (b * k + (b-1)) / b = k := by
    rw [Nat.mul_add_div hb, Nat.div_eq_of_lt (by omega)]; omega
  rw [alignUp, hk, Nat.mul_comm]

theorem dvd_alignUp (n b : Nat) : b ∣ alignUp n b := Nat.dvd_mul_left b _

theorem le_alignUp (n : Nat) {b : Nat} (hb : 0 < b) : n ≤ alignUp n b := by
  have h := Nat.div_add_mod (n + (b-1)) b
  have hm := Nat.mod_lt (n + (b-1)) hb
  rw [alignUp, Nat.mul_comm]; omega

theorem alignUp_lt (n : Nat) {b : Nat} (hb : 0 < b) : alignUp n b < n + b := by
  have h := Nat.div_mul_le_self (n + (b-1)) b
  rw [alignUp]; omega

theorem alignUp_le_of_dvd {n m b : Nat} (hb : 0 < b) (h : b ∣ m) (hn : n ≤ m) :
    alignUp n b ≤ m := by
  have hl := alignUp_lt n hb
  obtain ⟨i, hi⟩ := dvd_alignUp n b
  obtain ⟨j, rfl⟩ := h
  rw [hi] at hl ⊢
  have hij : b * i < b * (j+1) := by rw [Nat.mul_add]; omega
  have hlt : i < j+1 := Nat.lt_of_mul_lt_mul_left hij
  exact Nat.mul_le_mul_left b (by omega)

/-- Aligning twice to the same boundary changes nothing. -/
@[simp] theorem alignUp_alignUp (n : Nat) {b : Nat} (hb : 0 < b) :
    alignUp (alignUp n b) b = alignUp n b := alignUp_eq_of_dvd hb (dvd_alignUp n b)

@[simp] theorem alignUp_one (n : Nat) : alignUp n 1 = n := by simp [alignUp]

/-- Shifting by a multiple of the boundary does not change the padding. -/
theorem alignUp_add_of_dvd {n k b : Nat} (hb : 0 < b) (h : b ∣ k) :
    alignUp (n+k) b = alignUp n b + k := by
  obtain ⟨j, rfl⟩ := h
  have hd : (n + b*j + (b-1)) / b = (n + (b-1)) / b + j := by
    rw [show n + b*j + (b-1) = n + (b-1) + b*j by omega, Nat.add_mul_div_left _ _ hb]
  rw [alignUp, alignUp, hd, Nat.add_mul, Nat.mul_comm j b]

end Words
