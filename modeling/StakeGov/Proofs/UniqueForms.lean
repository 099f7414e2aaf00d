import StakeGov.Header
import StakeGov.Proofs.CanonicalForms

/-!
# A value and its form determine each other

Headers are read back like proposals. So a proposal or a header whose form has a length
that a head can tell is read from that form and from no other byte string, and no two
proposals or headers share a form (`form_determines_value`).
-/

namespace StakeGov

namespace Header

theorem takes_fields (h : Header) (hshort : h.extra.length < 2 ^ 64) :
    Rlp.Takes readFields h.fields h := by
  rw [fields]
  simp only [List.append_assoc]
  refine (Rlp.takes_hash h.parentHash).bind ?_
  refine (Rlp.takes_address h.coinbase).bind ?_
  refine (Rlp.takes_hash h.root).bind ?_
  refine (Rlp.takes_uint64 h.number).bind ?_
  refine (Rlp.takes_uint64 h.gasLimit).bind ?_
  refine (Rlp.takes_uint64 h.gasUsed).bind ?_
  refine (Rlp.takes_uint64 h.time).bind ?_
  exact (Rlp.takes_string hshort).map fun extra => { h with extra }

theorem complete : Canonical.Complete Header := by
  intro h hshort
  have hfields : h.fields.length < 2 ^ 64 := Nat.lt_of_le_of_lt (Rlp.length_le_list _) hshort
  have hextra : h.extra.length < 2 ^ 64 := by
    have hstring := Rlp.length_le_string h.extra
    simp only [fields, List.length_append] at hfields
    omega
  exact Rlp.takes_list hfields (takes_fields h hextra)

end Header

/-- Proposals and headers with forms below 2^64 bytes correspond to their forms, one to one. -/
theorem form_determines_value :
    (∀ (p : Proposal) (bs : Bytes), (write p).length < 2 ^ 64 →
      (ofCanonical Proposal bs = .ok p ↔ bs = write p)) ∧
    (∀ (h : Header) (bs : Bytes), (write h).length < 2 ^ 64 →
      (ofCanonical Header bs = .ok h ↔ bs = write h)) ∧
    (∀ p q : Proposal, (write p).length < 2 ^ 64 → (write p = write q ↔ p = q)) ∧
    (∀ h k : Header, (write h).length < 2 ^ 64 → (write h = write k ↔ h = k)) :=
  ⟨fun _ bs hp => Proposal.complete.ofCanonical_iff hp bs,
    fun _ bs hh => Header.complete.ofCanonical_iff hh bs,
    fun _ _ hp => Proposal.complete.write_inj hp, fun _ _ hh => Header.complete.write_inj hh⟩

/-- A proposal with numbers on both sides of the single-byte forms, in a list with a long
head; and two headers that differ in the last byte of their extra-data. -/
theorem sample_forms_determine_values :
    ofCanonical Proposal
        ([0xf8, 57, 0x81, 0x80, 0x80, 0x94] ++ Bytes.zeros 20 ++ [0x94] ++ Bytes.zeros 20 ++
          [0x7f, 0x8a] ++ List.replicate 10 0xff) =
      .ok { id := 0x80, value := 0x7f, data := List.replicate 10 0xff } ∧
    write { extra := [0, 1] : Header } ≠ write { extra := [0, 2] : Header } := by
  obtain ⟨hproposal, -, -, hheaders⟩ := form_determines_value
  refine ⟨(hproposal _ _ (by decide +kernel)).mpr (by decide +kernel), ?_⟩
  rw [ne_eq, hheaders _ _ (by decide +kernel)]
  decide

end StakeGov
