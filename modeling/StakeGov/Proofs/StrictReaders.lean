import StakeGov.Proofs.UniqueForms

/-!
# Readers take nothing but forms

The readers of strings, numbers and lists give no value for a form that their writers
do not write: whatever they take off an input is the form of the value they give
(`Strict`). A list reads its fields from all of the input and compares the length
afterwards, so its fields must be strict first. It follows that the check by which
`ofCanonical` writes a value back never fails (`proposals_and_headers_exact`).
-/

namespace StakeGov

-- ---------------------------------------------------------------------------
-- Numbers without leading zeros
-- ---------------------------------------------------------------------------

namespace Bytes

theorem width_toNat {bs : Bytes} (h : bs.head? ≠ some 0) : width (toNat bs) = bs.length := by
  apply Nat.le_antisymm
  · exact (width_le_iff _ _).mpr (toNat_lt bs)
  · cases bs with
    | nil => exact Nat.zero_le _
    | cons b bs =>
      have hb : b.toNat ≠ 0 := fun hzero => h (congrArg some (UInt8.toNat_inj.mp hzero))
      have hlow : 256 ^ bs.length ≤ toNat (b :: bs) := by
        rw [toNat_cons]
        exact Nat.le_trans (Nat.le_mul_of_pos_left _ (Nat.pos_of_ne_zero hb)) (Nat.le_add_right _ _)
      apply Nat.not_lt.mp
      intro hwidth
      exact Nat.not_lt.mpr hlow ((width_le_iff _ _).mp (Nat.le_of_lt_succ hwidth))

theorem shortest_toNat {bs : Bytes} (h : bs.head? ≠ some 0) : shortest (toNat bs) = bs := by
  rw [shortest, width_toNat h, bigEndian_toNat]

end Bytes

namespace Rlp

theorem unpadded_ok {n v : Nat} {bs : Bytes} :
    unpadded n bs = .ok v ↔ bs.length ≤ n ∧ bs.head? ≠ some 0 ∧ Bytes.toNat bs = v := by
  unfold unpadded
  split
  · rename_i hlong
    exact iff_of_false (fun h => nomatch h) fun h => Nat.not_lt.mpr h.1 hlong
  · rename_i hshort
    split
    · rename_i hzero
      exact iff_of_false (fun h => nomatch h) fun h => h.2.1 hzero
    · rename_i hzero
      simp [Nat.not_lt.mp hshort, hzero]

theorem shortest_of_unpadded {n v : Nat} {bs : Bytes} (h : unpadded n bs = .ok v) :
    Bytes.shortest v = bs := by
  obtain ⟨-, hzero, rfl⟩ := unpadded_ok.mp h
  exact Bytes.shortest_toNat hzero

theorem lt_of_unpadded {n v : Nat} {bs : Bytes} (h : unpadded n bs = .ok v) : v < 256 ^ n := by
  obtain ⟨hlength, -, rfl⟩ := unpadded_ok.mp h
  exact Nat.lt_of_lt_of_le (Bytes.toNat_lt bs) (Nat.pow_le_pow_right (by decide) hlength)

-- ---------------------------------------------------------------------------
-- Heads
-- ---------------------------------------------------------------------------

/-- The head announces an item that starts the payload. -/
structure Head.Opens (h : Head) (input payload : Bytes) : Prop where
  whole : h.length ≤ payload.length
  ofString : h.isList = false →
    input = Rlp.string (payload.take h.length) ++ payload.drop h.length
  ofList : h.isList = true → input = head 0xc0 h.length ++ payload

section
variable {input payload rest : Bytes} {h : Head}

/-- A string that is not a single byte has a head of its own. -/
theorem Head.opens_string {n : Nat} (hne : n ≠ 1) (hwhole : n ≤ payload.length)
    (hinput : input = head 0x80 n ++ payload) : Head.Opens ⟨false, n⟩ input payload := by
  refine ⟨hwhole, fun _ => ?_, fun hlist => nomatch hlist⟩
  have hlength : (payload.take n).length = n := List.length_take_of_le hwhole
  rw [string_of_length_ne_one (by rwa [hlength]), hlength, List.append_assoc,
    List.take_append_drop, hinput]

theorem Head.opens_list {n : Nat} (hwhole : n ≤ payload.length)
    (hinput : input = head 0xc0 n ++ payload) : Head.Opens ⟨true, n⟩ input payload :=
  ⟨hwhole, fun hstring => (nomatch hstring), fun _ => hinput⟩

theorem Head.opens_byte {c : UInt8} (hinput : input = string [c] ++ rest) :
    Head.Opens ⟨false, 1⟩ input (c :: rest) :=
  ⟨Nat.le_add_left _ _, fun _ => hinput, fun hlist => nomatch hlist⟩

theorem within_ok :
    Head.within h rest = .ok (h', payload) ↔ h.length ≤ rest.length ∧ h' = h ∧ payload = rest := by
  unfold Head.within
  split
  · rename_i hshort
    exact iff_of_false (fun hok => nomatch hok) fun hok => Nat.not_lt.mpr hok.1 hshort
  · rename_i hwhole
    simp [Nat.not_lt.mp hwhole, eq_comm]

theorem longHead_ok {isList : Bool} {n : Nat} (hok : longHead isList n rest = .ok (h, payload)) :
    ∃ length, h = ⟨isList, length⟩ ∧ 56 ≤ length ∧ length ≤ payload.length ∧
      Bytes.width length = n ∧ rest = Bytes.shortest length ++ payload := by
  unfold longHead at hok
  split at hok
  · cases hok
  rename_i hbytes
  cases hread : unpadded 8 (rest.take n) with
  | error cause =>
    rw [hread] at hok
    cases hok
  | ok length =>
    rw [hread] at hok
    change (if length < 56 then _ else _) = _ at hok
    split at hok
    · cases hok
    rename_i hlong
    obtain ⟨hwhole, rfl, rfl⟩ := within_ok.mp hok
    have hshortest : Bytes.shortest length = rest.take n := shortest_of_unpadded hread
    have hwidth : Bytes.width length = n := by
      rw [← Bytes.length_shortest, hshortest, List.length_take_of_le (Nat.not_lt.mp hbytes)]
    exact ⟨length, rfl, Nat.not_lt.mp hlong, hwhole, hwidth,
      by rw [hshortest, List.take_append_drop]⟩

theorem head_of_short {b : UInt8} {base : Nat} (hbase : base ≤ b.toNat)
    (hshort : b.toNat - base < 56) : head base (b.toNat - base) = [b] := by
  rw [head, if_pos hshort, Nat.add_sub_cancel' hbase, UInt8.ofNat_toNat]

theorem head_of_long {b : UInt8} {base n : Nat} (hlong : 56 ≤ n)
    (hbyte : b.toNat = base + 55 + Bytes.width n) : head base n = b :: Bytes.shortest n := by
  rw [head, if_neg (Nat.not_lt.mpr hlong), ← hbyte, UInt8.ofNat_toNat]

theorem splitHead_ownByte {b : UInt8} (rest : Bytes) (hb : b < 0x80) :
    splitHead (b :: rest) = .ok (⟨false, 1⟩, b :: rest) := by
  simp [splitHead, hb]

theorem splitHead_longByte (rest : Bytes) :
    splitHead (0x81 :: rest) =
      match rest with
      | [] => .error .inputTooShort
      | c :: _ => if c < 0x80 then .error .nonCanonicalByte else .ok (⟨false, 1⟩, rest) := by
  cases rest <;> simp [splitHead]

theorem splitHead_longByte_opens (hok : splitHead (0x81 :: rest) = .ok (h, payload)) :
    h.Opens (0x81 :: rest) payload := by
  rw [splitHead_longByte] at hok
  cases rest with
  | nil => cases hok
  | cons c after =>
    dsimp only at hok
    split at hok
    · cases hok
    · rename_i hc
      cases hok
      exact Head.opens_byte (by rw [string, if_neg hc]; rfl)

theorem splitHead_opens (hok : splitHead input = .ok (h, payload)) : h.Opens input payload := by
  cases input with
  | nil => cases hok
  | cons b rest =>
  rcases Nat.lt_or_ge b.toNat 0x80 with hbyte | hbyte
  · have hb : b < 0x80 := UInt8.lt_iff_toNat_lt.mpr hbyte
    rw [splitHead_ownByte rest hb] at hok
    cases hok
    exact Head.opens_byte (by rw [string, if_pos hb]; rfl)
  rcases Nat.lt_or_ge b.toNat 0xb8 with hshortString | hshortString
  · by_cases hone : b.toNat = 0x81
    · obtain rfl : b = 0x81 := UInt8.toNat_inj.mp hone
      exact splitHead_longByte_opens hok
    · rw [splitHead_shortString rest hbyte hshortString hone] at hok
      obtain ⟨hwhole, rfl, rfl⟩ := within_ok.mp hok
      exact Head.opens_string (by omega) hwhole (by rw [head_of_short hbyte (by omega)]; rfl)
  rcases Nat.lt_or_ge b.toNat 0xc0 with hlongString | hlongString
  · rw [splitHead_longString rest hshortString hlongString] at hok
    obtain ⟨length, rfl, hlong, hwhole, hwidth, rfl⟩ := longHead_ok hok
    exact Head.opens_string (by omega) hwhole
      (by rw [head_of_long hlong (b := b) (by omega), List.cons_append])
  rcases Nat.lt_or_ge b.toNat 0xf8 with hshortList | hshortList
  · rw [splitHead_shortList rest hlongString hshortList] at hok
    obtain ⟨hwhole, rfl, rfl⟩ := within_ok.mp hok
    exact Head.opens_list hwhole (by rw [head_of_short hlongString (by omega)]; rfl)
  · rw [splitHead_longList rest hshortList] at hok
    obtain ⟨length, rfl, hlong, hwhole, hwidth, rfl⟩ := longHead_ok hok
    exact Head.opens_list hwhole (by rw [head_of_long hlong (b := b) (by omega), List.cons_append])

end

-- ---------------------------------------------------------------------------
-- Readers
-- ---------------------------------------------------------------------------

/-- What the reader takes off an input is the form of the value that it gives. -/
def Strict (read : Reader α) (form : α → Bytes) : Prop :=
  ∀ {input value rest}, read.run input = .ok (value, rest) → input = form value ++ rest

theorem run_bind_ok {x : Reader α} {f : α → Reader β} {input rest : Bytes} {b : β} :
    (x >>= f).run input = .ok (b, rest) ↔
      ∃ a middle, x.run input = .ok (a, middle) ∧ (f a).run middle = .ok (b, rest) := by
  rw [StateT.run_bind]
  cases x.run input with
  | error cause => exact iff_of_false (fun h => nomatch h) fun ⟨_, _, h, _⟩ => nomatch h
  | ok out =>
    obtain ⟨a, middle⟩ := out
    constructor
    · exact fun h => ⟨a, middle, rfl, h⟩
    · rintro ⟨_, _, ⟨⟩, h⟩
      exact h

theorem run_liftM_ok {x : Except Error α} {input rest : Bytes} {a : α} :
    (liftM x : Reader α).run input = .ok (a, rest) ↔ x = .ok a ∧ rest = input := by
  cases x with
  | error cause => exact iff_of_false (fun h => nomatch h) fun h => nomatch h.1
  | ok b =>
    change Except.ok (b, input) = Except.ok (a, rest) ↔ _
    simp [eq_comm]

theorem strict_string : Strict readString string := by
  intro input bs rest h
  obtain ⟨head, payload, hhead, h⟩ := run_bind_ok.mp h
  have hopens := splitHead_opens hhead
  cases hlist : head.isList with
  | true =>
    rw [hlist] at h
    cases h
  | false =>
    rw [hlist] at h
    cases h
    exact hopens.ofString hlist

theorem strict_fixed (n : Nat) {input bs rest : Bytes}
    (h : (readFixed n).run input = .ok (bs, rest)) :
    bs.length = n ∧ input = string bs ++ rest := by
  obtain ⟨taken, middle, htaken, h⟩ := run_bind_ok.mp h
  by_cases hlength : taken.length ≠ n
  · rw [if_pos hlength] at h
    cases h
  · rw [if_neg hlength] at h
    cases h
    exact ⟨Classical.not_not.mp hlength, strict_string htaken⟩

theorem strict_hash : Strict readHash fun w => string w.bytes := by
  intro input w rest h
  obtain ⟨bs, _, hbs, h⟩ := run_bind_ok.mp h
  cases h
  obtain ⟨hlength, rfl⟩ := strict_fixed 32 hbs
  show _ = string (Word.ofBytes bs).bytes ++ rest
  rw [Word.bytes_ofBytes hlength]

theorem strict_address : Strict readAddress fun a => string (Address.bytes a) := by
  intro input a rest h
  obtain ⟨bs, _, hbs, h⟩ := run_bind_ok.mp h
  cases h
  obtain ⟨hlength, rfl⟩ := strict_fixed 20 hbs
  show _ = string (Address.bytes (Address.ofBytes bs)) ++ rest
  rw [Address.bytes_ofBytes hlength]

theorem strict_uint64 : Strict readUInt64 fun n => nat n.toNat := by
  intro input n rest h
  obtain ⟨bs, middle, hbs, h⟩ := run_bind_ok.mp h
  obtain ⟨v, middle, hv, h⟩ := run_bind_ok.mp h
  cases h
  obtain ⟨hnumber, rfl⟩ := run_liftM_ok.mp hv
  have hsmall : v < UInt64.size := lt_of_unpadded hnumber
  show _ = nat (UInt64.ofNat v).toNat ++ _
  rw [UInt64.toNat_ofNat_of_lt' hsmall, nat, shortest_of_unpadded hnumber]
  exact strict_string hbs

theorem strict_word : Strict readWord fun w => nat w.toNat := by
  intro input w rest h
  obtain ⟨bs, middle, hbs, h⟩ := run_bind_ok.mp h
  split at h
  · cases h
  obtain ⟨v, middle, hv, h⟩ := run_bind_ok.mp h
  cases h
  obtain ⟨hnumber, rfl⟩ := run_liftM_ok.mp hv
  have hsmall : v < 2 ^ 256 := lt_of_unpadded hnumber
  show _ = nat (BitVec.ofNat 256 v).toNat ++ _
  rw [BitVec.toNat_ofNat, Nat.mod_eq_of_lt hsmall, nat, shortest_of_unpadded hnumber]
  exact strict_string hbs

/-- The fields take a part of the payload, and the check afterwards makes it the part that
the head announced. -/
theorem strict_list {fields : Reader α} {form : α → Bytes} (hfields : Strict fields form) :
    Strict (readList fields) fun a => list (form a) := by
  intro input a rest h
  obtain ⟨head, payload, hhead, h⟩ := run_bind_ok.mp h
  have hopens := splitHead_opens hhead
  cases hlist : head.isList with
  | false =>
    rw [hlist] at h
    cases h
  | true =>
    rw [hlist] at h
    obtain ⟨_, _, ⟨⟩, h⟩ := run_bind_ok.mp h
    obtain ⟨value, after, hvalue, h⟩ := run_bind_ok.mp h
    obtain ⟨_, _, ⟨⟩, h⟩ := run_bind_ok.mp h
    have hpayload := hfields hvalue
    dsimp only at h
    split at h
    · cases h
    · rename_i hlength
      cases h
      have hform : (form a).length = head.length := by
        rw [← Classical.not_not.mp hlength, hpayload, List.length_append, Nat.add_sub_cancel]
      show input = list (form a) ++ rest
      rw [hopens.ofList hlist, hpayload, list, hform, List.append_assoc]

end Rlp

-- ---------------------------------------------------------------------------
-- Canonical forms
-- ---------------------------------------------------------------------------

open Rlp

theorem Proposal.strict_fields : Strict readFields fields := by
  intro input p rest h
  obtain ⟨id, _, hid, h⟩ := run_bind_ok.mp h
  obtain ⟨action, _, haction, h⟩ := run_bind_ok.mp h
  obtain ⟨sender, _, hsender, h⟩ := run_bind_ok.mp h
  obtain ⟨target, _, htarget, h⟩ := run_bind_ok.mp h
  obtain ⟨value, _, hvalue, h⟩ := run_bind_ok.mp h
  obtain ⟨data, _, hdata, h⟩ := run_bind_ok.mp h
  cases h
  rw [strict_word hid, strict_word haction, strict_address hsender, strict_address htarget,
    strict_word hvalue, strict_string hdata]
  simp only [fields, List.append_assoc]

theorem Header.strict_fields : Strict readFields fields := by
  intro input header rest h
  obtain ⟨parentHash, _, hparentHash, h⟩ := run_bind_ok.mp h
  obtain ⟨coinbase, _, hcoinbase, h⟩ := run_bind_ok.mp h
  obtain ⟨root, _, hroot, h⟩ := run_bind_ok.mp h
  obtain ⟨number, _, hnumber, h⟩ := run_bind_ok.mp h
  obtain ⟨gasLimit, _, hgasLimit, h⟩ := run_bind_ok.mp h
  obtain ⟨gasUsed, _, hgasUsed, h⟩ := run_bind_ok.mp h
  obtain ⟨time, _, htime, h⟩ := run_bind_ok.mp h
  obtain ⟨extra, _, hextra, h⟩ := run_bind_ok.mp h
  cases h
  rw [strict_hash hparentHash, strict_address hcoinbase, strict_hash hroot, strict_uint64 hnumber,
    strict_uint64 hgasLimit, strict_uint64 hgasUsed, strict_uint64 htime, strict_string hextra]
  simp only [fields, List.append_assoc]

namespace Canonical

/-- The reader gives a value for an input only if the input starts with the value's form, and
then takes just the form. So a byte string is refused because it cannot be read or because of
what follows the item, and never because it is not what the value is written as. -/
structure Exact (α : Type) [Canonical α] : Prop where
  strict : ∀ bs (value : α) rest, Canonical.read.run bs = .ok (value, rest) →
    bs = write value ++ rest
  refused : ∀ bs cause, ofCanonical α bs = .error cause →
    (∃ malformed, (Canonical.read (α := α)).run bs = .error malformed ∧
      cause = .malformed malformed) ∨
    ∃ (value : α) (rest : Bytes), Canonical.read.run bs = .ok (value, rest) ∧ rest ≠ [] ∧
      cause = .trailing rest.length
  taken : ∀ (value : α) rest, (write value).length < 2 ^ 64 →
    Canonical.read.run (write value ++ rest) = .ok (value, rest)

theorem exact_of_strict {α : Type} [Canonical α]
    (hstrict : Strict (Canonical.read (α := α)) write) (complete : Complete α) : Exact α where
  strict _ _ _ h := hstrict h
  taken value rest h := complete value h rest
  refused bs cause h := by
    cases hread : (Canonical.read (α := α)).run bs with
    | error malformed =>
      simp only [ofCanonical, hread] at h
      cases h
      exact .inl ⟨malformed, rfl, rfl⟩
    | ok out =>
      obtain ⟨value, rest⟩ := out
      simp only [ofCanonical, hread] at h
      split at h
      · rename_i hrest
        cases h
        exact .inr ⟨value, rest, rfl, hrest, rfl⟩
      · rename_i hrest
        obtain rfl := Classical.not_not.mp hrest
        have hwrite : write value = bs := by rw [hstrict hread, List.append_nil]
        rw [if_neg (not_not_intro hwrite)] at h
        cases h

end Canonical

theorem proposals_and_headers_exact : Canonical.Exact Proposal ∧ Canonical.Exact Header :=
  ⟨Canonical.exact_of_strict (strict_list Proposal.strict_fields) Proposal.complete,
    Canonical.exact_of_strict (strict_list Header.strict_fields) Header.complete⟩

set_option maxRecDepth 10000 in
/-- A proposal with something behind it, and a header of no extra-data with a byte behind it;
an empty list, which the fields are read past. -/
theorem sample_forms_exact :
    [0xf0, 7, 0x80, 0x94] ++ Bytes.zeros 20 ++ [0x94] ++ Bytes.zeros 20 ++ [0x7f, 0x82, 1, 2, 9] =
      write { id := 7, value := 0x7f, data := [1, 2] : Proposal } ++ [9] ∧
    (Canonical.read (α := Header)).run (write { time := 0x80 : Header } ++ [0]) =
      .ok ({ time := 0x80 }, [0]) ∧
    ((∃ malformed, (Canonical.read (α := Header)).run [0xc0] = .error malformed ∧
        CanonicalError.malformed .inputTooShort = .malformed malformed) ∨
      ∃ (value : Header) (rest : Bytes), Canonical.read.run [0xc0] = .ok (value, rest) ∧
        rest ≠ [] ∧ CanonicalError.malformed .inputTooShort = .trailing rest.length) := by
  obtain ⟨hproposal, hheader⟩ := proposals_and_headers_exact
  refine ⟨hproposal.strict _ _ _ ?_, hheader.taken _ _ ?_, hheader.refused _ _ ?_⟩
  · rfl
  · decide +kernel
  · rfl

end StakeGov
