import StakeGov.Abi.Method
import StakeGov.Proofs.TypedRows

/-!
# What follows an input does not matter

A reader that answers on some bytes answers the same on all longer ones (`Stable`). The
property holds of reading a slice and of whatever is put together from readers that have
it. The elements of an array are read from all the bytes behind the count, so for them it is
not enough that the bytes read are the same: what they are read from grows too
(`arrayBody_append_right`). It follows that a form cut short is refused or read as what was
written (`read_values_stay`).
-/

namespace StakeGov.Abi

variable {α β : Type}

-- ---------------------------------------------------------------------------
-- Readers
-- ---------------------------------------------------------------------------

/-- More input does not change an answer. -/
def Stable (read : Bytes → Except Error α) : Prop :=
  ∀ data a, read data = .ok a → ∀ suffix, read (data ++ suffix) = .ok a

namespace Stable

theorem const (x : Except Error α) : Stable fun _ => x :=
  fun _ _ h _ => h

theorem bind {read : Bytes → Except Error α} {next : α → Bytes → Except Error β}
    (hread : Stable read) (hnext : ∀ a, Stable (next a)) :
    Stable fun data => read data >>= fun a => next a data := by
  intro data b h suffix
  obtain ⟨a, ha, hb⟩ := bind_ok.mp h
  exact bind_ok.mpr ⟨a, hread data a ha suffix, hnext a data b hb suffix⟩

end Stable

theorem slice_stable (offset needed : Nat) : Stable fun data => slice data offset needed := by
  intro data bs h suffix
  obtain ⟨⟨hbound, hlength⟩, rfl⟩ := slice_ok.mp h
  refine slice_ok.mpr ⟨⟨hbound, ?_⟩, ?_⟩
  · rw [List.length_append]
    omega
  · have hrest : needed ≤ (data.drop offset).length := by
      rw [List.length_drop]
      omega
    rw [List.drop_append_of_le_length (by omega), List.take_append_of_le_length hrest]

theorem readWord_stable (offset : Nat) : Stable fun data => readWord data offset :=
  (slice_stable offset 32).bind fun _ => .const _

theorem readPosition_stable (offset : Nat) : Stable fun data => readPosition data offset :=
  (readWord_stable offset).bind fun _ => .const _

theorem le_length_of_readPosition {data : Bytes} {offset n : Nat}
    (h : readPosition data offset = .ok n) :
    offset + 32 < positionBound ∧ offset + 32 ≤ data.length := by
  obtain ⟨_, hword, -⟩ := bind_ok.mp h
  obtain ⟨_, hslice, -⟩ := bind_ok.mp hword
  exact (slice_ok.mp hslice).1

theorem countedAt_stable (offset : Nat) : Stable fun data => countedAt data offset :=
  (readPosition_stable offset).bind fun length => slice_stable (bodyStart offset) length

-- ---------------------------------------------------------------------------
-- Values
-- ---------------------------------------------------------------------------

theorem arrayBody_append_right {data body : Bytes} {offset count : Nat}
    (hstart : bodyStart offset ≤ data.length) (h : arrayBody data offset count = .ok body)
    (suffix : Bytes) : arrayBody (data ++ suffix) offset count = .ok (body ++ suffix) := by
  obtain ⟨hbound, hheads, rfl⟩ := arrayBody_ok.mp h
  refine arrayBody_ok.mpr ⟨hbound, ?_, List.drop_append_of_le_length hstart⟩
  rw [List.length_append]
  exact Nat.le_trans hheads (Nat.le_add_right _ _)

theorem decodeRun_stable {read : Bytes → Nat → Except Error Token}
    (h : ∀ pos, Stable fun data => read data pos) (index count : Nat) :
    Stable fun data => decodeRun (read data) index count := by
  induction count generalizing index with
  | zero => exact .const _
  | succ count ih => exact (h _).bind fun _ => (ih (index + 1)).bind fun _ => .const _

theorem decodeAt_stable (ty : Ty) (pos : Nat) : Stable fun data => decodeAt ty data pos := by
  induction ty generalizing pos with
  | bytes =>
    simp only [decodeAt_bytes_eq]
    exact (readPosition_stable pos).bind fun offset =>
      (countedAt_stable offset).bind fun _ => .const _
  | string =>
    exact (readPosition_stable pos).bind fun offset =>
      (readPosition_stable offset).bind fun length =>
        (slice_stable (bodyStart offset) length).bind fun _ => .const _
  | array element ih =>
    intro data t h suffix
    obtain ⟨offset, hoffset, h⟩ := bind_ok.mp h
    obtain ⟨count, hcount, h⟩ := bind_ok.mp h
    obtain ⟨body, hbody, h⟩ := bind_ok.mp h
    obtain ⟨items, hitems, h⟩ := bind_ok.mp h
    have hstart : bodyStart offset ≤ data.length :=
      Nat.le_trans (Nat.min_le_left _ _) (le_length_of_readPosition hcount).2
    exact bind_ok.mpr ⟨offset, readPosition_stable pos data offset hoffset suffix,
      bind_ok.mpr ⟨count, readPosition_stable offset data count hcount suffix,
        bind_ok.mpr ⟨body ++ suffix, arrayBody_append_right hstart hbody suffix,
          bind_ok.mpr ⟨items, decodeRun_stable ih 0 count body items hitems suffix, h⟩⟩⟩⟩
  | address | uint | bool | bytes32 => exact (readWord_stable pos).bind fun _ => .const _

theorem decodeFrom_stable (index : Nat) (tys : List Ty) :
    Stable fun data => decodeFrom data index tys := by
  induction tys generalizing index with
  | nil => exact .const _
  | cons ty tys ih =>
    exact (decodeAt_stable ty _).bind fun _ => (ih (index + 1)).bind fun _ => .const _

theorem decode_stable (tys : List Ty) : Stable (decode tys) :=
  decodeFrom_stable 0 tys

/-- What a part of an input is read as is what all of it is read as. -/
theorem Stable.take {read : Bytes → Except Error α} (h : Stable read) {data : Bytes} {a : α}
    (hdata : read data = .ok a) (n : Nat) :
    (∃ cause, read (data.take n) = .error cause) ∨ read (data.take n) = .ok a := by
  cases hcut : read (data.take n) with
  | error cause => exact .inl ⟨cause, rfl⟩
  | ok b =>
    have hall := h (data.take n) b hcut (data.drop n)
    rw [List.take_append_drop, hdata] at hall
    exact .inr hall.symm

-- ---------------------------------------------------------------------------
-- Revert reasons
-- ---------------------------------------------------------------------------

theorem revertReason?_eq_some {data : Bytes} {reason : String} :
    revertReason? data = some reason ↔
      data.take 4 = revertSelector ∧ decode [.string] (data.drop 4) = .ok [.string reason] := by
  unfold revertReason?
  split
  · rename_i hselector
    split
    · rename_i hdecode
      simp [hselector, hdecode]
    · rename_i hother
      simp only [hselector, true_and, reduceCtorEq, false_iff]
      exact hother reason
  · rename_i hselector
    simp [hselector]

theorem revertReason?_append {data : Bytes} {reason : String}
    (h : revertReason? data = some reason) (suffix : Bytes) :
    revertReason? (data ++ suffix) = some reason := by
  obtain ⟨hselector, hdecode⟩ := revertReason?_eq_some.mp h
  have hlength : 4 ≤ data.length := by
    have := congrArg List.length hselector
    rw [List.length_take, revertSelector] at this
    simp only [List.length_cons, List.length_nil] at this
    omega
  refine revertReason?_eq_some.mpr ⟨?_, ?_⟩
  · rw [List.take_append_of_le_length hlength, hselector]
  · rw [List.drop_append_of_le_length hlength]
    exact decode_stable [.string] _ _ hdecode suffix

theorem revertReason?_encodeRevertReason {reason : String}
    (hshort : (encodeRevertReason reason).length < 2 ^ 64) :
    revertReason? (encodeRevertReason reason) = some reason := by
  rw [encodeRevertReason, List.length_append] at hshort
  refine revertReason?_eq_some.mpr ⟨List.take_left' rfl, ?_⟩
  rw [encodeRevertReason, List.drop_left' (show revertSelector.length = 4 from rfl)]
  exact decode_encode rfl rfl (Nat.lt_of_le_of_lt (Nat.le_add_left _ _) hshort)

/-- Bytes behind an input change nothing of what is read from it, so the start of a form is
refused or read as the values of the whole form. A form has a length of 64 bits; offsets and
lengths that do not fit are not read. -/
theorem read_values_stay :
    (∀ tys data tokens, decode tys data = .ok tokens →
      ∀ suffix, decode tys (data ++ suffix) = .ok tokens) ∧
    (∀ tys tokens bytes, encodeChecked tys tokens = .ok bytes → bytes.length < 2 ^ 64 →
      ∀ n, (∃ cause, decode tys (bytes.take n) = .error cause) ∨
        decode tys (bytes.take n) = .ok tokens) ∧
    (∀ data reason, revertReason? data = some reason →
      ∀ suffix, revertReason? (data ++ suffix) = some reason) ∧
    ∀ reason, (encodeRevertReason reason).length < 2 ^ 64 →
      (∀ suffix, revertReason? (encodeRevertReason reason ++ suffix) = some reason) ∧
      ∀ n, revertReason? ((encodeRevertReason reason).take n) = none ∨
        revertReason? ((encodeRevertReason reason).take n) = some reason := by
  refine ⟨decode_stable, ?_, fun _ _ => revertReason?_append, fun reason hshort => ?_⟩
  · intro tys tokens bytes hencode hshort
    exact (decode_stable tys).take (decode_encodeChecked hencode hshort)
  · have hwhole := revertReason?_encodeRevertReason hshort
    refine ⟨revertReason?_append hwhole, fun n => ?_⟩
    cases hcut : revertReason? ((encodeRevertReason reason).take n) with
    | none => exact .inl rfl
    | some other =>
      have hall := revertReason?_append hcut ((encodeRevertReason reason).drop n)
      rw [List.take_append_drop, hwhole] at hall
      exact .inr hall.symm

set_option maxRecDepth 10000 in
/-- Two heads that point at one tail, a reason, and a text cut where only its padding is lost. -/
theorem sample_values_stay :
    decode [.bytes, .bytes]
        (Bytes.bigEndian 32 64 ++ (Bytes.bigEndian 32 64 ++ counted [5]) ++ [1]) =
      .ok [.bytes [5], .bytes [5]] ∧
    revertReason? (encodeRevertReason "seal" ++ [1, 2]) = some "seal" ∧
    ∃ bytes, encodeChecked [.string] [.string "seal"] = .ok bytes ∧
      ((∃ cause, decode [.string] (bytes.take 68) = .error cause) ∨
        decode [.string] (bytes.take 68) = .ok [.string "seal"]) := by
  obtain ⟨hstays, hcut, -, hreason⟩ := read_values_stay
  refine ⟨hstays _ _ _ rfl [1], (hreason "seal" ?_).1 [1, 2], _, rfl, hcut _ _ _ rfl ?_ 68⟩
  · decide +kernel
  · decide +kernel

end StakeGov.Abi
