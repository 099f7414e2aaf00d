import Mathlib.Algebra.Group.Nat.Defs
import StakeGov.Word

/-!
# Numbers as bytes

The `n`-byte form of a number reads back as that number modulo `256 ^ n`
(`toNat_bigEndian`), and every string of `n` bytes is the form of the number it
reads as (`bigEndian_toNat`). So words and addresses and their bytes determine
each other.
-/

namespace StakeGov

-- ---------------------------------------------------------------------------
-- Byte strings
-- ---------------------------------------------------------------------------

namespace Bytes

theorem toNat_cons (b : UInt8) (bs : Bytes) :
    toNat (b :: bs) = b.toNat * 256 ^ bs.length + toNat bs := by
  rw [toNat, Nat.shiftLeft_eq, Nat.pow_mul]

theorem bigEndian_succ (n v : Nat) :
    bigEndian (n + 1) v = UInt8.ofNat (v / 256 ^ n) :: bigEndian n v := by
  rw [bigEndian, Nat.shiftRight_eq_div_pow, Nat.pow_mul]

theorem toNat_append (as bs : Bytes) :
    toNat (as ++ bs) = toNat as * 256 ^ bs.length + toNat bs := by
  induction as with
  | nil => simp [toNat]
  | cons a as ih =>
    rw [List.cons_append, toNat_cons, toNat_cons, ih, List.length_append, Nat.pow_add,
      Nat.add_mul, Nat.mul_assoc, Nat.add_assoc]

theorem toNat_lt (bs : Bytes) : toNat bs < 256 ^ bs.length := by
  induction bs with
  | nil => simp [toNat]
  | cons b bs ih =>
    have hb : b.toNat ≤ 255 := Nat.le_of_lt_succ b.toNat_lt
    have hm : b.toNat * 256 ^ bs.length ≤ 255 * 256 ^ bs.length := Nat.mul_le_mul_right _ hb
    rw [toNat_cons, List.length_cons, Nat.pow_succ]
    omega

theorem toNat_bigEndian (n v : Nat) : toNat (bigEndian n v) = v % 256 ^ n := by
  induction n with
  | zero => simp [toNat, bigEndian, Nat.mod_one]
  | succ n ih =>
    have hb : (UInt8.ofNat (v / 256 ^ n)).toNat = v / 256 ^ n % 256 := by simp
    rw [bigEndian_succ, toNat_cons, length_bigEndian, ih, hb, Nat.pow_succ, Nat.mod_mul,
      Nat.mul_comm (256 ^ n), Nat.add_comm]

theorem bigEndian_toNat_append (as bs : Bytes) :
    bigEndian bs.length (toNat (as ++ bs)) = bs := by
  induction bs generalizing as with
  | nil => rfl
  | cons b bs ih =>
    have hcons : as ++ b :: bs = (as ++ [b]) ++ bs := by simp
    have hpow : 0 < 256 ^ bs.length := Nat.pow_pos (by decide)
    have hdiv : toNat (as ++ b :: bs) / 256 ^ bs.length = toNat (as ++ [b]) := by
      rw [hcons, toNat_append, Nat.mul_comm, Nat.mul_add_div hpow, Nat.div_eq_of_lt (toNat_lt bs),
        Nat.add_zero]
    have hhead : UInt8.ofNat (toNat (as ++ [b])) = b := by
      apply UInt8.toNat_inj.mp
      have := b.toNat_lt
      rw [toNat_append]
      simp [toNat]
    rw [List.length_cons, bigEndian_succ, hdiv, hhead, hcons, ih]

theorem bigEndian_toNat (bs : Bytes) : bigEndian bs.length (toNat bs) = bs :=
  bigEndian_toNat_append [] bs

theorem bigEndian_add (k m v : Nat) :
    bigEndian (k + m) v = bigEndian k (v / 256 ^ m) ++ bigEndian m v := by
  induction k with
  | zero => simp [bigEndian]
  | succ k ih =>
    rw [Nat.succ_add, bigEndian_succ, bigEndian_succ, ih, Nat.div_div_eq_div_mul, ← Nat.pow_add,
      Nat.add_comm m k, List.cons_append]

theorem getElem?_bigEndian (k m v : Nat) :
    (bigEndian (k + 1 + m) v)[k]? = some (UInt8.ofNat (v / 256 ^ m)) := by
  rw [bigEndian_add, bigEndian_add k 1]
  simp [bigEndian]

theorem toNat_slice_bigEndian (k n m v : Nat) :
    toNat (((bigEndian (k + n + m) v).drop k).take n) = v / 256 ^ m % 256 ^ n := by
  rw [bigEndian_add, bigEndian_add k n]
  simp [toNat_bigEndian, List.append_assoc, List.drop_left', List.take_left']

theorem toNat_zeros_append (n : Nat) (bs : Bytes) : toNat (zeros n ++ bs) = toNat bs := by
  induction n with
  | zero => rfl
  | succ n ih =>
    rw [zeros, List.replicate_succ, List.cons_append, toNat_cons]
    rw [zeros] at ih
    simpa using ih

end Bytes

-- ---------------------------------------------------------------------------
-- Words and addresses
-- ---------------------------------------------------------------------------

namespace Address

theorem ofBytes_bytes (a : Address) : ofBytes (bytes a) = a := by
  have h : a.toNat < 256 ^ 20 := a.isLt
  rw [ofBytes, bytes, Bytes.toNat_bigEndian, Nat.mod_eq_of_lt h, BitVec.ofNat_toNat,
    BitVec.setWidth_eq]

theorem bytes_ofBytes {bs : Bytes} (h : bs.length = 20) : bytes (ofBytes bs) = bs := by
  have hlt : Bytes.toNat bs < 2 ^ 160 := Nat.lt_of_lt_of_eq (Bytes.toNat_lt bs) (by simp [h])
  rw [bytes, ofBytes, BitVec.toNat_ofNat, Nat.mod_eq_of_lt hlt, ← h, Bytes.bigEndian_toNat]

end Address

namespace Word

theorem ofBytes_bytes (w : Word) : ofBytes w.bytes = w := by
  have h : w.toNat < 256 ^ 32 := w.isLt
  rw [ofBytes, bytes, Bytes.toNat_bigEndian, Nat.mod_eq_of_lt h, BitVec.ofNat_toNat,
    BitVec.setWidth_eq]

theorem bytes_ofBytes {bs : Bytes} (h : bs.length = 32) : (ofBytes bs).bytes = bs := by
  have hlt : Bytes.toNat bs < 2 ^ 256 := Nat.lt_of_lt_of_eq (Bytes.toNat_lt bs) (by simp [h])
  rw [bytes, ofBytes, BitVec.toNat_ofNat, Nat.mod_eq_of_lt hlt, ← h, Bytes.bigEndian_toNat]

theorem toNat_ofBytes_bigEndian {n : Nat} (h : n < 2 ^ 256) :
    (ofBytes (Bytes.bigEndian 32 n)).toNat = n := by
  have hlt : n < 256 ^ 32 := h
  rw [ofBytes, Bytes.toNat_bigEndian, Nat.mod_eq_of_lt hlt, BitVec.toNat_ofNat,
    Nat.mod_eq_of_lt h]

theorem ofBytes_address (a : Address) :
    ofBytes (Bytes.zeros 12 ++ Address.bytes a) = Address.word a := by
  apply BitVec.eq_of_toNat_eq
  have ha : a.toNat < 256 ^ 20 := a.isLt
  rw [ofBytes, Bytes.toNat_zeros_append, Address.bytes, Bytes.toNat_bigEndian,
    Nat.mod_eq_of_lt ha, Address.word, BitVec.toNat_setWidth, BitVec.toNat_ofNat]

theorem bitLength_le_iff (w : Word) (n : Nat) : w.bitLength ≤ n ↔ w.toNat < 2 ^ n := by
  unfold bitLength
  split
  · rename_i h
    subst h
    exact iff_of_true (Nat.zero_le n) (Nat.two_pow_pos n)
  · rename_i h
    have hne : w.toNat ≠ 0 := fun h0 => h (BitVec.eq_of_toNat_eq h0)
    rw [Nat.succ_le_iff, Nat.log2_lt hne]

theorem bitLength_address (a : Address) : (Address.word a).bitLength ≤ 160 := by
  have ha := a.isLt
  rw [bitLength_le_iff, Address.word, BitVec.toNat_setWidth, Nat.mod_eq_of_lt (by omega)]
  exact ha

theorem toNat_addSaturating {a b : Word} (h : a.toNat + b.toNat < 2 ^ 256) :
    (a.addSaturating b).toNat = a.toNat + b.toNat := by
  have hfits : BitVec.uaddOverflow a b = false := by simpa [BitVec.uaddOverflow] using h
  rw [addSaturating, hfits, if_neg Bool.false_ne_true, BitVec.toNat_add, Nat.mod_eq_of_lt h]

end Word

-- ---------------------------------------------------------------------------
-- Counters that stop at the end of their range
-- ---------------------------------------------------------------------------

theorem toNat_ofNatClamp (n : Nat) :
    (UInt64.ofNatClamp n).toNat = min n (UInt64.size - 1) := by
  unfold UInt64.ofNatClamp
  split
  · rename_i hlt
    exact (Nat.min_eq_left (Nat.le_sub_one_of_lt hlt)).symm
  · rename_i hge
    exact (Nat.min_eq_right (Nat.le_trans (Nat.sub_le _ _) (Nat.not_lt.mp hge))).symm

theorem toNat_ofNatClamp32 (n : Nat) :
    (UInt32.ofNatClamp n).toNat = min n (UInt32.size - 1) := by
  unfold UInt32.ofNatClamp
  split
  · rename_i hlt
    exact (Nat.min_eq_left (Nat.le_sub_one_of_lt hlt)).symm
  · rename_i hge
    exact (Nat.min_eq_right (Nat.le_trans (Nat.sub_le _ _) (Nat.not_lt.mp hge))).symm

theorem toNat_saturatingSucc (n : UInt64) :
    (saturatingSucc n).toNat = min (n.toNat + 1) (UInt64.size - 1) :=
  toNat_ofNatClamp _

end StakeGov
