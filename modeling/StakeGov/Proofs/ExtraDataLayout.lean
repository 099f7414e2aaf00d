import StakeGov.Engine.Block
import StakeGov.Proofs.ExtraData

/-!
# Extra-data of any length

What extra-data says is looked at from both ends: the addresses that any byte string names
are as many as fit between the vanity and the seal (`length_validators`) and are written just
as they stood there (`take_encode_validators`). So extra-data that is written again is as
if it had been written once (`announce_announce`).
-/

namespace StakeGov

namespace ExtraData

-- ---------------------------------------------------------------------------
-- Writing
-- ---------------------------------------------------------------------------

theorem fitVanity_eq (vanity : Bytes) :
    fitVanity vanity = (vanity ++ Bytes.zeros vanityLength).take vanityLength := by
  rw [fitVanity, List.take_append, Bytes.zeros, Bytes.zeros, List.take_replicate,
    Nat.min_eq_left (Nat.sub_le _ _)]

theorem fitVanity_of_length {vanity : Bytes} (h : vanity.length = vanityLength) :
    fitVanity vanity = vanity := by
  rw [fitVanity_eq, List.take_left' h]

theorem take_vanity_encode (vanity : Bytes) (list : List Address) :
    (encode vanity list).take vanityLength = fitVanity vanity := by
  rw [encode, List.append_assoc]
  exact List.take_left' (length_fitVanity vanity)

theorem encode_fitVanity (vanity : Bytes) (list : List Address) :
    encode (fitVanity vanity) list = encode vanity list := by
  rw [encode, encode, fitVanity_of_length (length_fitVanity vanity)]

-- ---------------------------------------------------------------------------
-- Reading
-- ---------------------------------------------------------------------------

theorem body_eq_extract (extra : Bytes) :
    body extra = extra.extract vanityLength (extra.length - sealLength) := by
  rw [body, List.drop_take, List.extract_eq_take_drop]

theorem length_body (extra : Bytes) : (body extra).length = extra.length - 97 := by
  rw [body, List.length_drop, List.length_take, vanityLength, sealLength]
  omega

@[simp] theorem length_addresses (n : Nat) (bs : Bytes) : (addresses n bs).length = n := by
  induction n generalizing bs with
  | zero => rfl
  | succ n ih => rw [addresses, List.length_cons, ih]

theorem length_validators (extra : Bytes) :
    (validators extra).length = (extra.length - 97) / 20 := by
  rw [validators, length_addresses, length_body]

theorem flatMap_addresses {n : Nat} {bs : Bytes} (h : 20 * n ≤ bs.length) :
    (addresses n bs).flatMap Address.bytes = bs.take (20 * n) := by
  induction n generalizing bs with
  | zero => rfl
  | succ n ih =>
    have hfirst : (bs.take 20).length = 20 := List.length_take_of_le (by omega)
    have hrest : 20 * n ≤ (bs.drop 20).length := by
      rw [List.length_drop]
      omega
    rw [addresses, List.flatMap_cons, Address.bytes_ofBytes hfirst, ih hrest, Nat.mul_succ,
      Nat.add_comm, List.take_add]

theorem flatMap_validators (extra : Bytes) :
    (validators extra).flatMap Address.bytes =
      (body extra).take (20 * (validators extra).length) := by
  rw [validators, length_addresses]
  exact flatMap_addresses (Nat.mul_div_le _ _)

theorem take_encode_validators {extra : Bytes} (h : 97 ≤ extra.length) :
    (encode (extra.take 32) (validators extra)).take (32 + 20 * (validators extra).length) =
      extra.take (32 + 20 * (validators extra).length) := by
  have hvanity : (extra.take 32).length = vanityLength := List.length_take_of_le (by omega)
  have hroom : 20 * (validators extra).length ≤ extra.length - 97 := by
    rw [length_validators]
    exact Nat.mul_div_le _ _
  have hwritten : extra.take 32 ++ (validators extra).flatMap Address.bytes =
      extra.take (32 + 20 * (validators extra).length) := by
    rw [flatMap_validators, body, List.drop_take, List.take_take, vanityLength, sealLength,
      Nat.min_eq_left (by omega), List.take_add]
  rw [encode, fitVanity_of_length hvanity, hwritten]
  exact List.take_left' (List.length_take_of_le (by omega))

end ExtraData

-- ---------------------------------------------------------------------------
-- Writing again
-- ---------------------------------------------------------------------------

open ExtraData

theorem Engine.announce_announce (header : Header) (first second : List Address) :
    announce (announce header (some first)) (some second) = announce header (some second) := by
  simp only [announce, take_vanity_encode, encode_fitVanity]

/-- Validators are read from between any vanity and any seal; they are as many as find room
there, and what is not there has no say. Written back, they are what was read, and only the
last writing counts. -/
theorem extra_data_both_ways :
    (∀ vanity list sealing, vanity.length = 32 → sealing.length = 65 →
      validators (vanity ++ list.flatMap Address.bytes ++ sealing) = list) ∧
    (∀ vanity list, encode vanity list =
      (vanity ++ Bytes.zeros 32).take 32 ++ list.flatMap Address.bytes ++ Bytes.zeros 65) ∧
    (∀ extra, (validators extra).length = (extra.length - 97) / 20) ∧
    (∀ extra extra' : Bytes,
      extra.extract 32 (extra.length - 65) = extra'.extract 32 (extra'.length - 65) →
      validators extra = validators extra') ∧
    (∀ extra, 97 ≤ extra.length →
      (encode (extra.take 32) (validators extra)).take (32 + 20 * (validators extra).length) =
        extra.take (32 + 20 * (validators extra).length)) ∧
    ∀ header first second, Engine.announce (Engine.announce header (some first)) (some second) =
      Engine.announce header (some second) := by
  refine ⟨fun _ list _ hvanity hback => validators_framed hvanity hback list, fun vanity _ => ?_,
    length_validators, fun extra extra' h => ?_, fun _ h => take_encode_validators h,
    Engine.announce_announce⟩
  · rw [encode, fitVanity_eq, vanityLength, sealLength]
  · exact validators_of_body (by rwa [body_eq_extract, body_eq_extract])

/-- Two addresses; and one with a part of another behind it, under two vanities and seals. -/
theorem sample_extra_data :
    validators (Bytes.bigEndian 32 7 ++ [0x0a, 0x0b].flatMap Address.bytes ++
        Bytes.bigEndian 65 9) = [0x0a, 0x0b] ∧
    ∃ extra extra' : Bytes, extra.length = 119 ∧ extra.length = extra'.length ∧
      extra.take 32 ≠ extra'.take 32 ∧ validators extra = validators extra' ∧
      (encode (extra.take 32) (validators extra)).take (32 + 20 * (validators extra).length) =
        extra.take (32 + 20 * (validators extra).length) := by
  obtain ⟨hframed, -, -, hbody, hback, -⟩ := extra_data_both_ways
  refine ⟨hframed _ _ _ ?_ ?_,
    Bytes.bigEndian 32 7 ++ Address.bytes 1 ++ [9, 9] ++ Bytes.bigEndian 65 9,
    Bytes.zeros 32 ++ Address.bytes 1 ++ [9, 9] ++ Bytes.zeros 65, ?_, ?_, ?_, hbody _ _ ?_,
    hback _ ?_⟩
  all_goals decide +kernel

end StakeGov
