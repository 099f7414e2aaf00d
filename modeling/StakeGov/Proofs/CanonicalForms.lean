import Mathlib.Logic.Basic
import StakeGov.Proofs.Numerals
import StakeGov.Proposal

/-!
# Canonical forms are read back

A reader takes a form for a value if it takes just that form off any input that
starts with it. The readers of strings, numbers and lists take what the writers of
the same names write, up to the greatest length that a head can tell. A type whose forms
are all taken is read from its canonical forms and from nothing else
(`Canonical.Complete.ofCanonical_iff`); proposals are (`Proposal.complete`).
-/

namespace StakeGov

-- ---------------------------------------------------------------------------
-- The shortest form of a number
-- ---------------------------------------------------------------------------

namespace Bytes

@[simp] theorem length_shortest (v : Nat) : (shortest v).length = width v := by simp [shortest]

theorem width_le_iff (n v : Nat) : width v ≤ n ↔ v < 256 ^ n := by
  unfold width
  split
  · rename_i h
    subst h
    exact iff_of_true (Nat.zero_le n) (Nat.pow_pos (by decide))
  · rename_i h
    have hlog : v.log2 < 8 * n ↔ v < 256 ^ n := by
      rw [Nat.log2_lt h, Nat.pow_mul]
    rw [← hlog]
    omega

theorem lt_pow_width (v : Nat) : v < 256 ^ width v :=
  (width_le_iff _ v).mp (Nat.le_refl _)

theorem toNat_shortest (v : Nat) : toNat (shortest v) = v := by
  rw [shortest, toNat_bigEndian, Nat.mod_eq_of_lt (lt_pow_width v)]

theorem head_shortest (v : Nat) : (shortest v).head? ≠ some 0 := by
  unfold shortest
  cases hw : width v with
  | zero => simp [bigEndian]
  | succ n =>
    have hlow : ¬ v < 256 ^ n := by
      rw [← width_le_iff, hw]
      omega
    have hhigh : v < 256 ^ (n + 1) := by
      rw [← hw]
      exact lt_pow_width v
    have hdiv : v / 256 ^ n < 256 :=
      Nat.div_lt_of_lt_mul (by rwa [Nat.pow_succ] at hhigh)
    have hpos : 0 < v / 256 ^ n := Nat.div_pos (Nat.not_lt.mp hlow) (Nat.pow_pos (by decide))
    rw [bigEndian_succ]
    simp only [List.head?_cons, ne_eq, Option.some.injEq]
    intro h
    have := congrArg UInt8.toNat h
    rw [UInt8.toNat_ofNat', Nat.mod_eq_of_lt hdiv] at this
    simp at this
    omega

end Bytes

namespace Rlp

-- ---------------------------------------------------------------------------
-- Heads
-- ---------------------------------------------------------------------------

theorem within_append (isList : Bool) (payload rest : Bytes) :
    Head.within ⟨isList, payload.length⟩ (payload ++ rest) =
      .ok (⟨isList, payload.length⟩, payload ++ rest) := by
  simp [Head.within]

theorem unpadded_shortest {n v : Nat} (h : v < 256 ^ n) :
    unpadded n (Bytes.shortest v) = .ok v := by
  have hwidth : ¬ n < Bytes.width v := by
    rw [Nat.not_lt, Bytes.width_le_iff]
    exact h
  simp [unpadded, hwidth, Bytes.head_shortest, Bytes.toNat_shortest]

theorem longHead_shortest (isList : Bool) {payload : Bytes} (rest : Bytes)
    (hlong : 56 ≤ payload.length) (hshort : payload.length < 2 ^ 64) :
    longHead isList (Bytes.width payload.length)
        (Bytes.shortest payload.length ++ payload ++ rest) =
      .ok (⟨isList, payload.length⟩, payload ++ rest) := by
  have htake : (Bytes.shortest payload.length ++ (payload ++ rest)).take
      (Bytes.width payload.length) = Bytes.shortest payload.length :=
    List.take_left' (Bytes.length_shortest _)
  have hdrop : (Bytes.shortest payload.length ++ (payload ++ rest)).drop
      (Bytes.width payload.length) = payload ++ rest :=
    List.drop_left' (Bytes.length_shortest _)
  have hread := unpadded_shortest (n := 8) hshort
  rw [List.append_assoc]
  simp only [longHead, htake, hdrop, hread, List.length_append, Bytes.length_shortest]
  rw [if_neg (by omega)]
  simp only [bind, Except.bind]
  rw [if_neg (by omega)]
  exact within_append isList payload rest

-- the four ranges of a first byte that tells a length

theorem splitHead_shortString {b : UInt8} (rest : Bytes) (hlow : 0x80 ≤ b.toNat)
    (hhigh : b.toNat < 0xb8) (hone : b.toNat ≠ 0x81) :
    splitHead (b :: rest) = Head.within ⟨false, b.toNat - 0x80⟩ rest := by
  simp only [splitHead, UInt8.lt_iff_toNat_lt, UInt8.reduceToNat]
  rw [if_neg (by omega), if_pos hhigh, if_neg (by omega)]

theorem splitHead_longString {b : UInt8} (rest : Bytes) (hlow : 0xb8 ≤ b.toNat)
    (hhigh : b.toNat < 0xc0) : splitHead (b :: rest) = longHead false (b.toNat - 0xb7) rest := by
  simp only [splitHead, UInt8.lt_iff_toNat_lt, UInt8.reduceToNat]
  rw [if_neg (by omega), if_neg (by omega), if_pos hhigh]

theorem splitHead_shortList {b : UInt8} (rest : Bytes) (hlow : 0xc0 ≤ b.toNat)
    (hhigh : b.toNat < 0xf8) :
    splitHead (b :: rest) = Head.within ⟨true, b.toNat - 0xc0⟩ rest := by
  simp only [splitHead, UInt8.lt_iff_toNat_lt, UInt8.reduceToNat]
  rw [if_neg (by omega), if_neg (by omega), if_neg (by omega), if_pos hhigh]

theorem splitHead_longList {b : UInt8} (rest : Bytes) (hlow : 0xf8 ≤ b.toNat) :
    splitHead (b :: rest) = longHead true (b.toNat - 0xf7) rest := by
  simp only [splitHead, UInt8.lt_iff_toNat_lt, UInt8.reduceToNat]
  rw [if_neg (by omega), if_neg (by omega), if_neg (by omega), if_neg (by omega)]

theorem width_bounds {v : Nat} (hlong : 56 ≤ v) (hshort : v < 2 ^ 64) :
    1 ≤ Bytes.width v ∧ Bytes.width v ≤ 8 := by
  refine ⟨?_, (Bytes.width_le_iff 8 v).mpr hshort⟩
  have := (Bytes.width_le_iff 0 v).not.mpr (by omega)
  omega

theorem splitHead_list (payload rest : Bytes) (h : payload.length < 2 ^ 64) :
    splitHead (list payload ++ rest) = .ok (⟨true, payload.length⟩, payload ++ rest) := by
  unfold list head
  split
  · have hbyte := UInt8.toNat_ofNat_of_lt' (n := 0xc0 + payload.length) (by rw [UInt8.size]; omega)
    rw [List.append_assoc, List.cons_append, List.nil_append,
      splitHead_shortList _ (by omega) (by omega), hbyte, Nat.add_sub_cancel_left]
    exact within_append true payload rest
  · rename_i hlong
    have hwidth := width_bounds (Nat.not_lt.mp hlong) h
    have hbyte := UInt8.toNat_ofNat_of_lt' (n := 0xc0 + 55 + Bytes.width payload.length)
      (by rw [UInt8.size]; omega)
    rw [List.cons_append, List.cons_append, splitHead_longList _ (by omega), hbyte,
      Nat.add_sub_cancel_left]
    exact longHead_shortest true rest (Nat.not_lt.mp hlong) h

theorem string_of_length_ne_one {bs : Bytes} (h : bs.length ≠ 1) :
    string bs = head 0x80 bs.length ++ bs := by
  unfold string
  split
  · exact absurd rfl h
  · rfl

theorem splitHead_string (bs rest : Bytes) (h : bs.length < 2 ^ 64) :
    splitHead (string bs ++ rest) = .ok (⟨false, bs.length⟩, bs ++ rest) := by
  by_cases hone : bs.length = 1
  · obtain ⟨b, rfl⟩ := List.length_eq_one_iff.mp hone
    rw [string]
    split <;> rename_i hb <;> simp [splitHead, hb]
  · rw [string_of_length_ne_one hone]
    unfold head
    split
    · have hbyte := UInt8.toNat_ofNat_of_lt' (n := 0x80 + bs.length) (by rw [UInt8.size]; omega)
      rw [List.append_assoc, List.cons_append, List.nil_append,
        splitHead_shortString _ (by omega) (by omega) (by omega), hbyte, Nat.add_sub_cancel_left]
      exact within_append false bs rest
    · rename_i hlong
      have hwidth := width_bounds (Nat.not_lt.mp hlong) h
      have hbyte := UInt8.toNat_ofNat_of_lt' (n := 0x80 + 55 + Bytes.width bs.length)
        (by rw [UInt8.size]; omega)
      rw [List.cons_append, List.cons_append, splitHead_longString _ (by omega) (by omega), hbyte,
        Nat.add_sub_cancel_left]
      exact longHead_shortest false rest (Nat.not_lt.mp hlong) h

-- ---------------------------------------------------------------------------
-- Readers
-- ---------------------------------------------------------------------------

/-- The reader takes the form, and no more, for the value. -/
def Takes (read : Reader α) (form : Bytes) (value : α) : Prop :=
  ∀ rest, read.run (form ++ rest) = .ok (value, rest)

theorem Takes.pure (value : α) : Takes (Pure.pure value) [] value :=
  fun _ => rfl

theorem Takes.bind {x : Reader α} {f : α → Reader β} {first second : Bytes} {a : α} {b : β}
    (hx : Takes x first a) (hf : Takes (f a) second b) : Takes (x >>= f) (first ++ second) b := by
  intro rest
  rw [List.append_assoc, StateT.run_bind, hx]
  exact hf rest

theorem Takes.map {x : Reader α} {form : Bytes} {a : α} (f : α → β) (hx : Takes x form a) :
    Takes (do return f (← x)) form (f a) := by
  have := hx.bind (f := fun a => Pure.pure (f a)) (Takes.pure (f a))
  rwa [List.append_nil] at this

theorem takes_ok {x : Except Error α} {value : α} (h : x = .ok value) :
    Takes (liftM x) [] value := by
  rw [h]
  exact fun _ => rfl

theorem takes_string {bs : Bytes} (h : bs.length < 2 ^ 64) : Takes readString (string bs) bs := by
  intro rest
  change (splitHead (string bs ++ rest) >>= _) = _
  rw [splitHead_string bs rest h]
  change Except.ok ((bs ++ rest).take bs.length, (bs ++ rest).drop bs.length) = _
  rw [List.take_left' rfl, List.drop_left' rfl]

theorem takes_fixed {bs : Bytes} (h : bs.length < 2 ^ 64) :
    Takes (readFixed bs.length) (string bs) bs := by
  intro rest
  rw [readFixed, StateT.run_bind, takes_string h]
  simp [bind, Except.bind]
  rfl

theorem takes_hash (w : Hash) : Takes readHash (string w.bytes) w := by
  have hshort : w.bytes.length < 2 ^ 64 := by simp
  have h := (takes_fixed hshort).map Word.ofBytes
  rwa [Word.length_bytes, Word.ofBytes_bytes] at h

theorem takes_address (a : Address) : Takes readAddress (string (Address.bytes a)) a := by
  have hshort : (Address.bytes a).length < 2 ^ 64 := by simp
  have h := (takes_fixed hshort).map Address.ofBytes
  rwa [Address.length_bytes, Address.ofBytes_bytes] at h

theorem takes_shortest {n v : Nat} (hn : n < 2 ^ 64) (h : v < 256 ^ n) :
    Takes readString (nat v) (Bytes.shortest v) := by
  have hwidth := (Bytes.width_le_iff n v).mpr h
  exact takes_string (by rw [Bytes.length_shortest]; omega)

theorem takes_word (w : Word) : Takes readWord (nat w.toNat) w := by
  have hlt : w.toNat < 256 ^ 32 := w.isLt
  have hvalue : Takes (do
      if (Bytes.shortest w.toNat).head? = some 0 then throw .leadingZero
      let v ← unpadded 32 (Bytes.shortest w.toNat)
      return BitVec.ofNat 256 v) [] w := by
    have h := (takes_ok (unpadded_shortest hlt)).map (BitVec.ofNat 256)
    rw [BitVec.ofNat_toNat, BitVec.setWidth_eq] at h
    rwa [if_neg (Bytes.head_shortest _)]
  have hrest := (takes_shortest (by decide) hlt).bind (f := fun bs => do
    if bs.head? = some 0 then throw .leadingZero
    let v ← unpadded 32 bs
    return BitVec.ofNat 256 v) hvalue
  rwa [List.append_nil] at hrest

theorem takes_uint64 (n : UInt64) : Takes readUInt64 (nat n.toNat) n := by
  have hlt : n.toNat < 256 ^ 8 := n.toNat_lt
  have hvalue := (takes_ok (unpadded_shortest hlt)).map UInt64.ofNat
  rw [UInt64.ofNat_toNat] at hvalue
  have hrest := (takes_shortest (by decide) hlt).bind (f := fun bs => do
    let v ← unpadded 8 bs
    return UInt64.ofNat v) hvalue
  rwa [List.append_nil] at hrest

theorem takes_list {fields : Reader α} {payload : Bytes} {value : α} (h : payload.length < 2 ^ 64)
    (hfields : Takes fields payload value) : Takes (readList fields) (list payload) value := by
  intro rest
  change (splitHead (list payload ++ rest) >>= _) = _
  rw [splitHead_list payload rest h]
  change ((fields.run (payload ++ rest)) >>= _) = _
  rw [hfields rest]
  change StateT.run
    (if (payload ++ rest).length - rest.length ≠ payload.length then _ else _) rest = _
  rw [if_neg (by simp)]
  rfl

-- ---------------------------------------------------------------------------
-- Lengths
-- ---------------------------------------------------------------------------

theorem length_le_string (bs : Bytes) : bs.length ≤ (string bs).length := by
  unfold string
  split
  · split <;> simp
  · simp

theorem length_le_list (payload : Bytes) : payload.length ≤ (list payload).length := by
  simp [list]

end Rlp

-- ---------------------------------------------------------------------------
-- Canonical forms
-- ---------------------------------------------------------------------------

theorem ofCanonical_of_takes [Canonical α] {value : α}
    (h : Rlp.Takes Canonical.read (write value) value) :
    ofCanonical α (write value) = .ok value := by
  have hread := h []
  rw [List.append_nil] at hread
  simp [ofCanonical, hread]

/-- Nothing but a value's own form is read as the value. -/
theorem write_of_ofCanonical [Canonical α] {bs : Bytes} {value : α}
    (h : ofCanonical α bs = .ok value) : write value = bs := by
  unfold ofCanonical at h
  split at h
  · cases h
  · split at h
    · cases h
    · split at h
      · cases h
      · rename_i hwrite
        cases h
        exact Classical.not_not.mp hwrite

/-- The form of every value is taken for it, if a head can tell the form's length. -/
def Canonical.Complete (α : Type) [Canonical α] : Prop :=
  ∀ value : α, (write value).length < 2 ^ 64 → Rlp.Takes Canonical.read (write value) value

namespace Canonical.Complete

variable {α : Type} [Canonical α] (complete : Complete α)
include complete

/-- Nothing but the canonical form is read as the value. -/
theorem ofCanonical_iff {value : α} (h : (write value).length < 2 ^ 64) (bs : Bytes) :
    ofCanonical α bs = .ok value ↔ bs = write value := by
  refine ⟨fun hread => (write_of_ofCanonical hread).symm, ?_⟩
  rintro rfl
  exact ofCanonical_of_takes (complete value h)

theorem write_inj {a b : α} (h : (write a).length < 2 ^ 64) : write a = write b ↔ a = b := by
  refine ⟨fun hsame => ?_, congrArg write⟩
  have hread : ofCanonical α (write a) = .ok b :=
    (complete.ofCanonical_iff (hsame ▸ h) (write a)).mpr hsame
  rw [(complete.ofCanonical_iff h (write a)).mpr rfl] at hread
  exact Except.ok.inj hread

end Canonical.Complete

namespace Proposal

theorem takes_fields (p : Proposal) (h : p.data.length < 2 ^ 64) :
    Rlp.Takes readFields p.fields p := by
  rw [fields]
  simp only [List.append_assoc]
  refine (Rlp.takes_word p.id).bind ?_
  refine (Rlp.takes_word p.action).bind ?_
  refine (Rlp.takes_address p.sender).bind ?_
  refine (Rlp.takes_address p.target).bind ?_
  refine (Rlp.takes_word p.value).bind ?_
  exact (Rlp.takes_string h).map fun data => { p with data }

theorem complete : Canonical.Complete Proposal := by
  intro p h
  have hfields : p.fields.length < 2 ^ 64 := Nat.lt_of_le_of_lt (Rlp.length_le_list _) h
  have hdata : p.data.length < 2 ^ 64 := by
    have hstring := Rlp.length_le_string p.data
    simp only [fields, List.length_append] at hfields
    omega
  exact Rlp.takes_list hfields (takes_fields p hdata)

theorem ofCanonical_write {p : Proposal} (h : (write p).length < 2 ^ 64) :
    ofCanonical Proposal (write p) = .ok p :=
  ofCanonical_of_takes (complete p h)

theorem ofCanonical_iff {p : Proposal} (h : (write p).length < 2 ^ 64) (bs : Bytes) :
    ofCanonical Proposal bs = .ok p ↔ bs = write p :=
  complete.ofCanonical_iff h bs

end Proposal

end StakeGov
