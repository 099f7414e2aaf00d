import StakeGov.Proofs.DecodedRows

/-!
# Values of a type are the values that can be read as it

What it takes for a value to have a type is said once, without the checker and without the
decoder (`HasType`). The checker lets through just the rows that have the types of a list,
and these are just the rows that some input is read as (`readable_iff_typed`): the two cannot
drift apart, whatever the input looks like.
-/

namespace StakeGov.Abi

/-- A text is valid by itself; an integer must be below the bound of its width, which for the
width zero leaves only zero and from 256 on leaves every word. -/
inductive HasType : Token → Ty → Prop where
  | address (a : Address) : HasType (.address a) .address
  | uint {v : Word} {bits : Nat} (h : v.toNat < 2 ^ bits) : HasType (.uint v) (.uint bits)
  | bool (b : Bool) : HasType (.bool b) .bool
  | bytes32 (w : Word) : HasType (.bytes32 w) .bytes32
  | bytes (bs : Bytes) : HasType (.bytes bs) .bytes
  | string (s : String) : HasType (.string s) .string
  | array {items : List Token} {element : Ty} (h : ∀ item ∈ items, HasType item element) :
      HasType (.array items) (.array element)

theorem check_of_hasType {t : Token} {ty : Ty} (h : HasType t ty) : t.check ty = .ok () := by
  induction h with
  | uint h => exact check_uint_ok.mpr ⟨_, rfl, h⟩
  | array _ ih => exact check_array_ok.mpr ⟨_, rfl, checkEach_ok.mpr ih⟩
  | _ => rfl

theorem hasType_of_check {t : Token} {ty : Ty} (h : t.check ty = .ok ()) : HasType t ty := by
  induction ty generalizing t with
  | address =>
    obtain ⟨a, rfl⟩ := check_address_ok.mp h
    exact .address a
  | uint bits =>
    obtain ⟨v, rfl, hv⟩ := check_uint_ok.mp h
    exact .uint hv
  | bool =>
    obtain ⟨b, rfl⟩ := check_bool_ok.mp h
    exact .bool b
  | bytes32 =>
    obtain ⟨w, rfl⟩ := check_bytes32_ok.mp h
    exact .bytes32 w
  | bytes =>
    obtain ⟨bs, rfl⟩ := check_bytes_ok.mp h
    exact .bytes bs
  | string =>
    obtain ⟨s, rfl⟩ := check_string_ok.mp h
    exact .string s
  | array element ih =>
    obtain ⟨items, rfl, hitems⟩ := check_array_ok.mp h
    exact .array fun item hitem => ih (checkEach_ok.mp hitems item hitem)

theorem typed_iff {tys : List Ty} {tokens : List Token} :
    Typed tys tokens ↔ List.Forall₂ HasType tokens tys := by
  constructor
  · exact fun h => (h.imp fun _ _ => hasType_of_check).flip
  · exact fun h => h.flip.imp fun _ _ => check_of_hasType

theorem encodeChecked_ok {tys : List Ty} {tokens : List Token} {bytes : Bytes} :
    encodeChecked tys tokens = .ok bytes ↔ Typed tys tokens ∧ encode tokens = bytes := by
  by_cases hcount : tys.length = tokens.length
  · rw [Typed, ← checkAll_ok hcount, encodeChecked, if_neg (not_not_intro hcount)]
    cases hcheck : checkAll tys tokens <;> simp [bind, Except.bind, pure, Except.pure]
  · rw [encodeChecked, if_pos hcount]
    refine iff_of_false (fun h => ?_) fun h => hcount h.1.length_eq
    cases h

/-- For values whose form is below 2^64 bytes: to be accepted as a row of these types, to be
one, and to be what some input is read as are the same. What is read is a row of the types
in any case, and reading its own form gives the same values again. -/
theorem readable_iff_typed (tys : List Ty) (tokens : List Token) :
    ((∃ bytes, encodeChecked tys tokens = .ok bytes) ↔ List.Forall₂ HasType tokens tys) ∧
    (∀ data, decode tys data = .ok tokens → List.Forall₂ HasType tokens tys) ∧
    ((encode tokens).length < 2 ^ 64 →
      ((∃ bytes, encodeChecked tys tokens = .ok bytes) ↔ ∃ data, decode tys data = .ok tokens) ∧
      ∀ data, decode tys data = .ok tokens →
        ∃ bytes, encodeChecked tys tokens = .ok bytes ∧ decode tys bytes = .ok tokens) := by
  have hform : Typed tys tokens → encodeChecked tys tokens = .ok (encode tokens) :=
    fun h => encodeChecked_ok.mpr ⟨h, rfl⟩
  refine ⟨?_, fun data h => typed_iff.mp (typed_of_decode h), fun hshort => ⟨?_, ?_⟩⟩
  · rw [← typed_iff]
    exact ⟨fun ⟨_, h⟩ => (encodeChecked_ok.mp h).1, fun h => ⟨_, hform h⟩⟩
  · constructor
    · rintro ⟨bytes, h⟩
      obtain ⟨htyped, rfl⟩ := encodeChecked_ok.mp h
      exact ⟨_, decode_encodeChecked (hform htyped) hshort⟩
    · rintro ⟨data, h⟩
      exact ⟨_, hform (typed_of_decode h)⟩
  · intro data h
    have htyped := typed_of_decode h
    exact ⟨_, hform htyped, decode_encodeChecked (hform htyped) hshort⟩

set_option maxRecDepth 10000 in
/-- An integer of no width, and an array that stands behind a gap. Its own form has none. -/
theorem sample_gap_readable :
    ∃ data bytes, decode [.uint 0, .array (.uint 300)] data =
        .ok [.uint 0, .array [.uint 7]] ∧
      encodeChecked [.uint 0, .array (.uint 300)] [.uint 0, .array [.uint 7]] = .ok bytes ∧
      decode [.uint 0, .array (.uint 300)] bytes = .ok [.uint 0, .array [.uint 7]] ∧
      data.length = 160 ∧ bytes.length = 128 := by
  have hread : decode [.uint 0, .array (.uint 300)] (Bytes.bigEndian 32 0 ++
      (Bytes.bigEndian 32 96 ++ (Bytes.zeros 32 ++
        (Bytes.bigEndian 32 1 ++ Bytes.bigEndian 32 7)))) = .ok [.uint 0, .array [.uint 7]] := rfl
  obtain ⟨-, hagain⟩ :=
    (readable_iff_typed [.uint 0, .array (.uint 300)] [.uint 0, .array [.uint 7]]).2.2
      (by decide +kernel)
  obtain ⟨bytes, hform, hbytes⟩ := hagain _ hread
  obtain ⟨-, rfl⟩ := encodeChecked_ok.mp hform
  exact ⟨_, _, hread, hform, hbytes, rfl, rfl⟩

end StakeGov.Abi
