import StakeGov.Proofs.TypedRows

/-!
# What is decoded has its type

Whatever the input, a value that is read as one of a type is a value of this type
(`check_of_decodeAt`), and a row has as many values as types are asked for, each of its own
(`typed_of_decode`). Neither needs the input to be the form of anything.
-/

namespace StakeGov.Abi

/-- The values are as many as the types, each of its own type. -/
abbrev Typed (tys : List Ty) (tokens : List Token) : Prop :=
  List.Forall₂ (fun ty t => t.check ty = .ok ()) tys tokens

theorem check_of_decodeWord {ty : Ty} {w : Word} {t : Token} (h : decodeWord ty w = .ok t) :
    t.check ty = .ok () := by
  cases ty with
  | address =>
    rw [decodeWord] at h
    split at h
    · cases h
      rfl
    · cases h
  | uint bits =>
    rw [decodeWord] at h
    split at h
    · rename_i hfits
      cases h
      rw [Token.check, if_pos hfits]
    · cases h
  | bool =>
    rw [decodeWord] at h
    split at h
    · cases h
      rfl
    · split at h
      · cases h
        rfl
      · cases h
  | bytes32 =>
    cases h
    rfl
  | bytes | string | array => cases h

theorem mem_of_decodeRun {read : Nat → Except Error Token} {index count : Nat}
    {items : List Token} (h : decodeRun read index count = .ok items) :
    ∀ t ∈ items, ∃ pos, read pos = .ok t := by
  induction count generalizing index items with
  | zero =>
    cases h
    simp
  | succ count ih =>
    obtain ⟨head, hhead, h⟩ := bind_ok.mp h
    obtain ⟨rest, hrest, h⟩ := bind_ok.mp h
    cases h
    intro t ht
    rcases List.mem_cons.mp ht with rfl | ht
    · exact ⟨_, hhead⟩
    · exact ih hrest t ht

theorem check_of_decodeAt {ty : Ty} {data : Bytes} {pos : Nat} {t : Token}
    (h : decodeAt ty data pos = .ok t) : t.check ty = .ok () := by
  induction ty generalizing data pos t with
  | bytes =>
    rw [decodeAt_bytes_eq] at h
    obtain ⟨_, -, h⟩ := bind_ok.mp h
    obtain ⟨payload, -, h⟩ := bind_ok.mp h
    cases h
    rfl
  | string =>
    rw [decodeAt] at h
    obtain ⟨_, -, h⟩ := bind_ok.mp h
    obtain ⟨_, -, h⟩ := bind_ok.mp h
    obtain ⟨payload, -, h⟩ := bind_ok.mp h
    cases htext : Bytes.text? payload with
    | none =>
      rw [htext] at h
      cases h
    | some s =>
      rw [htext] at h
      cases h
      rfl
  | array element ih =>
    rw [decodeAt] at h
    obtain ⟨_, -, h⟩ := bind_ok.mp h
    obtain ⟨_, -, h⟩ := bind_ok.mp h
    obtain ⟨_, -, h⟩ := bind_ok.mp h
    obtain ⟨items, hitems, h⟩ := bind_ok.mp h
    cases h
    refine check_array_ok.mpr ⟨items, rfl, checkEach_ok.mpr fun item hitem => ?_⟩
    obtain ⟨_, hread⟩ := mem_of_decodeRun hitems item hitem
    exact ih hread
  | address | uint | bool | bytes32 =>
    rw [decodeAt] at h
    · obtain ⟨_, -, h⟩ := bind_ok.mp h
      exact check_of_decodeWord h
    all_goals simp

theorem typed_of_decodeFrom {data : Bytes} {index : Nat} {tys : List Ty} {tokens : List Token}
    (h : decodeFrom data index tys = .ok tokens) : Typed tys tokens := by
  induction tys generalizing index tokens with
  | nil =>
    cases h
    exact .nil
  | cons ty tys ih =>
    obtain ⟨t, ht, h⟩ := bind_ok.mp h
    obtain ⟨rest, hrest, h⟩ := bind_ok.mp h
    cases h
    exact .cons (check_of_decodeAt ht) (ih hrest)

/-- Also of an input that is no form of a row, or of more than one. -/
theorem typed_of_decode {tys : List Ty} {data : Bytes} {tokens : List Token}
    (h : decode tys data = .ok tokens) : Typed tys tokens :=
  typed_of_decodeFrom h

end StakeGov.Abi
