import StakeGov.Proofs.Numerals
import StakeGov.Validators

/-!
# Extra-data is read back

The validators that extra-data was made for are the validators it names
(`validators_encode`), whatever the vanity. The candidates in ascending order are
the only ascending list of the same addresses, as often as before (`eq_sortAddresses`).
-/

namespace StakeGov

namespace ExtraData

@[simp] theorem length_fitVanity (vanity : Bytes) : (fitVanity vanity).length = vanityLength := by
  simp only [fitVanity, List.length_append, List.length_take, Bytes.length_zeros]
  omega

theorem length_addressBytes (list : List Address) :
    (list.flatMap Address.bytes).length = 20 * list.length := by
  induction list with
  | nil => rfl
  | cons a list ih =>
    rw [List.flatMap_cons, List.length_append, ih, Address.length_bytes, List.length_cons]
    omega

theorem addresses_flatMap (list : List Address) :
    addresses list.length (list.flatMap Address.bytes) = list := by
  induction list with
  | nil => rfl
  | cons a list ih =>
    rw [List.length_cons, List.flatMap_cons, addresses,
      List.take_left' (Address.length_bytes a), List.drop_left' (Address.length_bytes a),
      Address.ofBytes_bytes, ih]

section
variable {vanity back : Bytes} (hvanity : vanity.length = vanityLength)
variable (hback : back.length = sealLength)
include hvanity hback

theorem body_framed (middle : Bytes) : body (vanity ++ middle ++ back) = middle := by
  have hlength : (vanity ++ middle ++ back).length - sealLength = (vanity ++ middle).length := by
    rw [List.length_append, hback, Nat.add_sub_cancel]
  rw [body, hlength, List.take_left' rfl, List.drop_left' hvanity]

theorem validators_framed (list : List Address) :
    validators (vanity ++ list.flatMap Address.bytes ++ back) = list := by
  have hlength : (list.flatMap Address.bytes).length / 20 = list.length := by
    rw [length_addressBytes, Nat.mul_div_cancel_left _ (by decide)]
  rw [validators, body_framed hvanity hback, hlength, addresses_flatMap]

end

theorem validators_encode (vanity : Bytes) (list : List Address) :
    validators (encode vanity list) = list :=
  validators_framed (length_fitVanity vanity) (Bytes.length_zeros sealLength) list

theorem take_encode {n : Nat} {vanity : Bytes} (h : n ≤ min vanityLength vanity.length)
    (list : List Address) : (encode vanity list).take n = vanity.take n := by
  have hvanity : n ≤ vanityLength := Nat.le_trans h (Nat.min_le_left _ _)
  have hfit : n ≤ (fitVanity vanity).length := by rwa [length_fitVanity]
  have htaken : n ≤ (vanity.take vanityLength).length := by rwa [List.length_take]
  rw [encode, List.append_assoc, List.take_append_of_le_length hfit, fitVanity,
    List.take_append_of_le_length htaken, List.take_take, Nat.min_eq_left hvanity]

theorem validators_of_body {extra extra' : Bytes} (h : body extra = body extra') :
    validators extra = validators extra' := by
  rw [validators, validators, h]

/-- The same but for the last 65 bytes, where the seal stands. -/
structure SameButSeal (extra extra' : Bytes) : Prop where
  length : extra.length = extra'.length
  front : extra.take (extra.length - sealLength) = extra'.take (extra.length - sealLength)

theorem SameButSeal.validators {extra extra' : Bytes} (h : SameButSeal extra extra') :
    validators extra = validators extra' :=
  validators_of_body (by rw [body, body, h.front, h.length])

end ExtraData

theorem sortAddresses_perm (list : List Address) : (sortAddresses list).Perm list :=
  List.mergeSort_perm list _

theorem sortAddresses_ascending (list : List Address) :
    (sortAddresses list).Pairwise fun a b => a.toNat ≤ b.toNat := by
  have htrans : ∀ a b c : Address, decide (a.toNat ≤ b.toNat) → decide (b.toNat ≤ c.toNat) →
      decide (a.toNat ≤ c.toNat) := by
    intro a b c hab hbc
    simp only [decide_eq_true_eq] at *
    omega
  have htotal : ∀ a b : Address, decide (a.toNat ≤ b.toNat) || decide (b.toNat ≤ a.toNat) := by
    intro a b
    simp only [Bool.or_eq_true, decide_eq_true_eq]
    omega
  have h := List.pairwise_mergeSort htrans htotal list
  simpa only [sortAddresses, decide_eq_true_eq] using h

theorem eq_sortAddresses {list ranked : List Address} :
    list = sortAddresses ranked ↔
      list.Perm ranked ∧ list.Pairwise fun a b => a.toNat ≤ b.toNat := by
  constructor
  · rintro rfl
    exact ⟨sortAddresses_perm ranked, sortAddresses_ascending ranked⟩
  · rintro ⟨hperm, hascending⟩
    have hantisymm : ∀ a b : Address, a ∈ list → b ∈ sortAddresses ranked →
        a.toNat ≤ b.toNat → b.toNat ≤ a.toNat → a = b :=
      fun a b _ _ hab hba => BitVec.eq_of_toNat_eq (Nat.le_antisymm hab hba)
    exact List.Perm.eq_of_pairwise hantisymm hascending (sortAddresses_ascending ranked)
      (hperm.trans (sortAddresses_perm ranked).symm)

theorem sortAddresses_congr {ranked ranked' : List Address} (h : ranked.Perm ranked') :
    sortAddresses ranked = sortAddresses ranked' :=
  eq_sortAddresses.mpr ⟨(sortAddresses_perm ranked).trans h, sortAddresses_ascending ranked⟩

end StakeGov
