import StakeGov.Proofs.CanonicalForms
import StakeGov.Transaction

/-!
# What a form determines

A reader takes only forms with lengths that a head can tell, but no two forms are the same
for the longest payloads either: the length of a list grows with that of its payload
(`Rlp.list_inj`), and a string with little behind it has no other reading
(`Rlp.string_append_inj`). So the form of a proposal determines the proposal
(`Proposal.write_injective`), and the form that is hashed determines the transaction
(`Transaction.encodeWith_inj`): what a hash and a signature commit to is all of it
(`Transaction.hashed_forms_commit`).
-/

namespace StakeGov

namespace Bytes

theorem width_mono {v w : Nat} (h : v ≤ w) : width v ≤ width w :=
  (width_le_iff _ v).mpr (Nat.lt_of_le_of_lt h (lt_pow_width w))

theorem pow_le_of_lt_width {n v : Nat} (h : n < width v) : 256 ^ n ≤ v :=
  Nat.not_lt.mp fun hlt => Nat.not_le.mpr h ((width_le_iff n v).mpr hlt)

theorem shortest_inj {v w : Nat} (h : shortest v = shortest w) : v = w := by
  rw [← toNat_shortest v, h, toNat_shortest]

end Bytes

namespace Rlp

-- ---------------------------------------------------------------------------
-- Lists
-- ---------------------------------------------------------------------------

theorem length_head (base n : Nat) :
    (head base n).length = if n < 56 then 1 else Bytes.width n + 1 := by
  unfold head
  split <;> simp

theorem length_list_lt {payload payload' : Bytes} (h : payload.length < payload'.length) :
    (list payload).length < (list payload').length := by
  have hwidth := Bytes.width_mono (Nat.le_of_lt h)
  rw [list, list, List.length_append, List.length_append, length_head, length_head]
  split <;> split <;> omega

theorem list_inj {payload payload' : Bytes} (h : list payload = list payload') :
    payload = payload' := by
  have hlength : payload.length = payload'.length := by
    rcases Nat.lt_trichotomy payload.length payload'.length with hlt | heq | hgt
    · exact absurd (congrArg List.length h) (Nat.ne_of_lt (length_list_lt hlt))
    · exact heq
    · exact absurd (congrArg List.length h) (Nat.ne_of_gt (length_list_lt hgt))
  exact (List.append_inj h (by rw [hlength])).2

-- ---------------------------------------------------------------------------
-- Strings
-- ---------------------------------------------------------------------------

theorem Takes.inj {read : Reader α} {form form' rest rest' : Bytes} {a b : α}
    (ha : Takes read form a) (hb : Takes read form' b) (h : form ++ rest = form' ++ rest') :
    a = b ∧ rest = rest' := by
  have hread := ha rest
  rw [h, hb rest'] at hread
  cases hread
  exact ⟨rfl, rfl⟩

theorem string_long {bs : Bytes} (h : 56 ≤ bs.length) :
    string bs =
      UInt8.ofNat (0xb7 + Bytes.width bs.length) :: (Bytes.shortest bs.length ++ bs) := by
  rw [string_of_length_ne_one (by omega), head, if_neg (Nat.not_lt.mpr h)]
  rfl

theorem length_string_of_short {bs : Bytes} (h : bs.length < 56) : (string bs).length < 58 := by
  unfold string
  split
  · split <;> simp
  · rw [List.length_append, length_head, if_pos h]
    omega

theorem width_le_of_close {n n' k k' : Nat} (h : Bytes.width n + n + k = Bytes.width n' + n' + k')
    (hlong : 56 ≤ n) (hk : k < 256) : Bytes.width n' ≤ Bytes.width n + 1 := by
  apply Nat.not_lt.mp
  intro hgap
  have hpos : 0 < Bytes.width n := Nat.pos_of_ne_zero fun hzero => by
    have := (Bytes.width_le_iff 0 n).mp (Nat.le_of_eq hzero)
    omega
  have hupper := Bytes.lt_pow_width n
  have hlower : 256 * 256 ^ Bytes.width n ≤ n' := by
    rw [Nat.mul_comm, ← Nat.pow_succ]
    exact Bytes.pow_le_of_lt_width hgap
  have hbase : 256 ^ 1 ≤ 256 ^ Bytes.width n := Nat.pow_le_pow_right (by decide) hpos
  omega

/-- Where both heads spell out a length, first their bytes' number is the same, because the
first bytes are and the lengths are close, and then the lengths are. -/
theorem string_append_inj_of_long {bs bs' rest rest' : Bytes} (hlong : 56 ≤ bs.length)
    (hlong' : 56 ≤ bs'.length) (hrest : rest.length < 256) (hrest' : rest'.length < 256)
    (h : string bs ++ rest = string bs' ++ rest') : bs = bs' ∧ rest = rest' := by
  rw [string_long hlong, string_long hlong', List.cons_append, List.cons_append, List.append_assoc,
    List.append_assoc] at h
  obtain ⟨hfirst, htail⟩ := List.cons.inj h
  have hlengths := congrArg List.length htail
  simp only [List.length_append, Bytes.length_shortest] at hlengths
  have hwidth : Bytes.width bs.length = Bytes.width bs'.length := by
    have hsum : Bytes.width bs.length + bs.length + rest.length =
        Bytes.width bs'.length + bs'.length + rest'.length := by omega
    have hle := width_le_of_close hsum hlong hrest
    have hge := width_le_of_close hsum.symm hlong' hrest'
    have hbyte := congrArg UInt8.toNat hfirst
    rw [UInt8.toNat_ofNat', UInt8.toNat_ofNat'] at hbyte
    omega
  obtain ⟨hlength, htail⟩ := List.append_inj htail (by simpa using hwidth)
  exact List.append_inj htail (Bytes.shortest_inj hlength)

theorem string_append_inj {bs bs' rest rest' : Bytes} (hrest : rest.length < 256)
    (hrest' : rest'.length < 256) (h : string bs ++ rest = string bs' ++ rest') :
    bs = bs' ∧ rest = rest' := by
  have hlengths := congrArg List.length h
  rw [List.length_append, List.length_append] at hlengths
  have hle := length_le_string bs
  have hle' := length_le_string bs'
  by_cases hlong : 56 ≤ bs.length
  · by_cases hlong' : 56 ≤ bs'.length
    · exact string_append_inj_of_long hlong hlong' hrest hrest' h
    · have hshort' := length_string_of_short (Nat.not_le.mp hlong')
      exact (takes_string (by omega)).inj (takes_string (by omega)) h
  · have hshort := length_string_of_short (Nat.not_le.mp hlong)
    exact (takes_string (by omega)).inj (takes_string (by omega)) h

theorem string_inj {bs bs' : Bytes} (h : string bs = string bs') : bs = bs' :=
  have hnothing : ([] : Bytes).length < 256 := by decide
  (string_append_inj hnothing hnothing (congrArg (· ++ []) h)).1

end Rlp

-- ---------------------------------------------------------------------------
-- Proposals
-- ---------------------------------------------------------------------------

open Rlp

theorem Proposal.write_injective {p p' : Proposal} (h : write p = write p') : p = p' := by
  have hfields : p.fields = p'.fields := list_inj h
  simp only [fields, List.append_assoc] at hfields
  obtain ⟨hid, hfields⟩ := (takes_word _).inj (takes_word _) hfields
  obtain ⟨haction, hfields⟩ := (takes_word _).inj (takes_word _) hfields
  obtain ⟨hsender, hfields⟩ := (takes_address _).inj (takes_address _) hfields
  obtain ⟨htarget, hfields⟩ := (takes_address _).inj (takes_address _) hfields
  obtain ⟨hvalue, hfields⟩ := (takes_word _).inj (takes_word _) hfields
  have hdata := string_inj hfields
  cases p
  cases p'
  simp_all

-- ---------------------------------------------------------------------------
-- Transactions
-- ---------------------------------------------------------------------------

namespace Transaction

theorem length_recipientBytes (tx : Transaction) : tx.recipientBytes.length < 2 ^ 64 := by
  unfold recipientBytes
  split <;> simp

theorem recipient_of_recipientBytes {tx tx' : Transaction}
    (h : tx.recipientBytes = tx'.recipientBytes) : tx.recipient = tx'.recipient := by
  unfold recipientBytes at h
  have hlength := congrArg List.length h
  cases hrecipient : tx.recipient <;> cases hrecipient' : tx'.recipient <;>
    simp only [hrecipient, hrecipient', Address.length_bytes] at h hlength
  · rfl
  · cases hlength
  · cases hlength
  · rename_i a b
    rw [← Address.ofBytes_bytes a, h, Address.ofBytes_bytes]

theorem length_nat_lt {v n : Nat} (hn : n < 56) (hv : v < 256 ^ n) : (Rlp.nat v).length < 58 :=
  length_string_of_short (Nat.lt_of_le_of_lt
    (by rw [Bytes.length_shortest]; exact (Bytes.width_le_iff n v).mpr hv) hn)

/-- The form that is hashed determines the transaction and the numbers of the signature. -/
theorem encodeWith_inj {tx tx' : Transaction} {sig sig' : Signature}
    (h : tx.encodeWith sig = tx'.encodeWith sig') :
    { tx with signature := none } = { tx' with signature := none } ∧ sig = sig' := by
  have hfields := list_inj h
  simp only [List.append_assoc] at hfields
  obtain ⟨hnonce, hfields⟩ := (takes_uint64 _).inj (takes_uint64 _) hfields
  obtain ⟨hprice, hfields⟩ := (takes_word _).inj (takes_word _) hfields
  obtain ⟨hgas, hfields⟩ := (takes_uint64 _).inj (takes_uint64 _) hfields
  obtain ⟨hrecipient, hfields⟩ := (takes_string tx.length_recipientBytes).inj
    (takes_string tx'.length_recipientBytes) hfields
  obtain ⟨hvalue, hfields⟩ := (takes_word _).inj (takes_word _) hfields
  have hsignature : ∀ sig : Signature, (Rlp.nat sig.v.toNat ++
      (Rlp.nat sig.r.toNat ++ Rlp.nat sig.s.toNat)).length < 256 := by
    intro sig
    have hv := length_nat_lt (n := 8) (by decide) sig.v.toNat_lt
    have hr := length_nat_lt (n := 32) (by decide) sig.r.isLt
    have hs := length_nat_lt (n := 32) (by decide) sig.s.isLt
    simp only [List.length_append]
    omega
  obtain ⟨hdata, hfields⟩ := string_append_inj (hsignature sig) (hsignature sig') hfields
  obtain ⟨hv, hfields⟩ := (takes_uint64 _).inj (takes_uint64 _) hfields
  obtain ⟨hr, hfields⟩ := (takes_word _).inj (takes_word _) hfields
  have hs : sig.s = sig'.s :=
    ((takes_word sig.s).inj (takes_word sig'.s) (congrArg (· ++ []) hfields)).1
  refine ⟨?_, ?_⟩
  · rw [hnonce, hprice, hgas, recipient_of_recipientBytes hrecipient, hvalue, hdata]
  · cases sig
    cases sig'
    simp_all

theorem data_of_encode {tx tx' : Transaction} (h : tx.encode = tx'.encode) : tx.data = tx'.data :=
  (congrArg Transaction.data (encodeWith_inj h).1 :)

/-- The same but for the signature. -/
structure SameUnsigned (tx tx' : Transaction) : Prop where
  nonce : tx.nonce = tx'.nonce
  gasPrice : tx.gasPrice = tx'.gasPrice
  gas : tx.gas = tx'.gas
  recipient : tx.recipient = tx'.recipient
  value : tx.value = tx'.value
  data : tx.data = tx'.data

theorem encodeWith_eq_iff {tx tx' : Transaction} {sig sig' : Signature} :
    tx.encodeWith sig = tx'.encodeWith sig' ↔ tx.SameUnsigned tx' ∧ sig = sig' := by
  constructor
  · intro h
    obtain ⟨htx, hsig⟩ := encodeWith_inj h
    obtain ⟨hnonce, hprice, hgas, hrecipient, hvalue, hdata, -⟩ := Transaction.mk.inj htx
    exact ⟨⟨hnonce, hprice, hgas, hrecipient, hvalue, hdata⟩, hsig⟩
  · rintro ⟨⟨hnonce, hprice, hgas, hrecipient, hvalue, hdata⟩, rfl⟩
    rw [encodeWith, encodeWith, recipientBytes, recipientBytes, hnonce, hprice, hgas, hrecipient,
      hvalue, hdata]

/-- What is hashed for a transaction determines all of it, an unsigned one counting as signed
with zeros; what is signed for a chain determines all but the signature, and the chain. The
two have a form in common only where a signature has the chain's number and two zeros. -/
theorem hashed_forms_commit (x y : Transaction) (c d : UInt64) :
    (x.hash = keccak256 x.encode ∧ x.signingHash c = keccak256 (x.signingPayload c)) ∧
    (x.encode = y.encode ↔
      x.SameUnsigned y ∧ x.signature.getD ⟨0, 0, 0⟩ = y.signature.getD ⟨0, 0, 0⟩) ∧
    (x.signingPayload c = y.signingPayload d ↔ x.SameUnsigned y ∧ c = d) ∧
    (x.signingPayload c = y.encode ↔
      x.SameUnsigned y ∧ y.signature.getD ⟨0, 0, 0⟩ = ⟨c, 0, 0⟩) := by
  refine ⟨⟨rfl, rfl⟩, encodeWith_eq_iff, ?_, ?_⟩
  · rw [signingPayload, signingPayload, encodeWith_eq_iff, Signature.mk.injEq]
    simp
  · rw [signingPayload, encode, encodeWith_eq_iff]
    exact and_congr_right fun _ => eq_comm

example : ({} : Transaction).signingPayload 7 =
    ({ signature := some ⟨7, 0, 0⟩ } : Transaction).encode := rfl

end Transaction

end StakeGov
