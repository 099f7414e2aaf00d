import Mathlib.Data.List.Forall2
import StakeGov.Proofs.CallData

/-!
# Rows of typed values are read back

A value of a type is read from its head as a value of this type, wherever the row that it
belongs to starts a longer input (`decodeAt_layout`). The induction is on the type: the
elements of an array are a row of their own, with whatever follows the array behind it. So
a row of values that has the types of a list is what is read as this list of types
(`decode_encodeChecked`).
-/

namespace StakeGov.Abi

-- ---------------------------------------------------------------------------
-- Values of a type
-- ---------------------------------------------------------------------------

theorem fits_iff {bits : Nat} {v : Word} : fits bits v = true ↔ v.toNat < 2 ^ bits := by
  rw [fits, Bool.or_eq_true, decide_eq_true_iff, decide_eq_true_iff, Word.bitLength_le_iff]
  exact or_iff_right_of_imp fun h => Nat.lt_of_lt_of_le v.isLt (Nat.pow_le_pow_right (by decide) h)

theorem check_uint_ok {t : Token} {bits : Nat} :
    t.check (.uint bits) = .ok () ↔ ∃ v, t = .uint v ∧ v.toNat < 2 ^ bits := by
  cases t <;> simp [Token.check, ← fits_iff]

theorem check_address_ok {t : Token} : t.check .address = .ok () ↔ ∃ a, t = .address a := by
  cases t <;> simp [Token.check]

theorem check_bool_ok {t : Token} : t.check .bool = .ok () ↔ ∃ b, t = .bool b := by
  cases t <;> simp [Token.check]

theorem check_bytes32_ok {t : Token} : t.check .bytes32 = .ok () ↔ ∃ w, t = .bytes32 w := by
  cases t <;> simp [Token.check]

theorem check_bytes_ok {t : Token} : t.check .bytes = .ok () ↔ ∃ bs, t = .bytes bs := by
  cases t <;> simp [Token.check]

theorem check_string_ok {t : Token} : t.check .string = .ok () ↔ ∃ s, t = .string s := by
  cases t <;> simp [Token.check]

theorem check_array_ok {t : Token} {element : Ty} :
    t.check (.array element) = .ok () ↔
      ∃ items, t = .array items ∧ checkEach items element = .ok () := by
  cases t <;> simp [Token.check]

theorem checkEach_ok {items : List Token} {ty : Ty} :
    checkEach items ty = .ok () ↔ ∀ item ∈ items, item.check ty = .ok () := by
  induction items with
  | nil => simp [checkEach]
  | cons item items ih =>
    rw [checkEach, List.forall_mem_cons, ← ih]
    cases item.check ty <;> simp [bind, Except.bind]

theorem checkAll_ok {tys : List Ty} {tokens : List Token} (hlength : tys.length = tokens.length) :
    checkAll tys tokens = .ok () ↔ List.Forall₂ (fun ty t => t.check ty = .ok ()) tys tokens := by
  induction tys generalizing tokens with
  | nil =>
    obtain rfl := List.length_eq_zero_iff.mp hlength.symm
    simp [checkAll]
  | cons ty tys ih =>
    cases tokens with
    | nil => cases hlength
    | cons t tokens =>
      rw [checkAll, List.forall₂_cons, ← ih (Nat.succ.inj hlength)]
      cases t.check ty <;> simp [bind, Except.bind]

theorem part_inline_of_check {t : Token} {ty : Ty} (hcheck : t.check ty = .ok ())
    (hbytes : ty ≠ .bytes) (hstring : ty ≠ .string) (harray : ∀ element, ty ≠ .array element) :
    ∃ word, t.part = .inline word := by
  cases t with
  | bytes => cases ty <;> simp_all [Token.check]
  | string => cases ty <;> simp_all [Token.check]
  | array => cases ty <;> simp_all [Token.check]
  | _ => exact ⟨_, rfl⟩

-- ---------------------------------------------------------------------------
-- Runs of heads
-- ---------------------------------------------------------------------------

theorem decodeRun_ok {read : Nat → Except Error Token} (done : List Token) {todo : List Token}
    (h : ∀ front t back, done ++ todo = front ++ t :: back → read (32 * front.length) = .ok t) :
    decodeRun read done.length todo.length = .ok todo := by
  induction todo generalizing done with
  | nil => rfl
  | cons t todo ih =>
    have hrest := ih (done ++ [t]) (by rwa [List.append_assoc])
    rw [List.length_append, List.length_singleton] at hrest
    rw [List.length_cons, decodeRun, h done t todo rfl]
    change (do let tokens ← decodeRun read (done.length + 1) todo.length; _) = _
    rw [hrest]
    rfl

theorem decodeFrom_ok {data : Bytes} {tys : List Ty} (done : List Token) {todo : List Token}
    (htyped : List.Forall₂ (fun ty t => t.check ty = .ok ()) tys todo)
    (h : ∀ ty front t back, t.check ty = .ok () → done ++ todo = front ++ t :: back →
      decodeAt ty data (32 * front.length) = .ok t) :
    decodeFrom data done.length tys = .ok todo := by
  induction htyped generalizing done with
  | nil => rfl
  | @cons ty t tys todo hcheck _ ih =>
    have hrest := ih (done ++ [t]) (by rwa [List.append_assoc])
    rw [List.length_append, List.length_singleton] at hrest
    rw [decodeFrom, h ty done t todo hcheck rfl]
    change (do let tokens ← decodeFrom data (done.length + 1) tys; _) = _
    rw [hrest]
    rfl

-- ---------------------------------------------------------------------------
-- Tails
-- ---------------------------------------------------------------------------

theorem arrayBody_ok {data body : Bytes} {offset count : Nat} :
    arrayBody data offset count = .ok body ↔
      32 * count < positionBound ∧ 32 * count ≤ body.length ∧
        data.drop (bodyStart offset) = body := by
  rw [arrayBody]
  by_cases hcount : positionBound ≤ 32 * count
  · rw [if_pos hcount]
    exact iff_of_false (fun h => nomatch h) fun h => Nat.not_lt.mpr hcount h.1
  · rw [if_neg hcount]
    change (do let _ ← slice (data.drop (bodyStart offset)) 0 (32 * count); _) = _ ↔ _
    rw [bind_ok]
    constructor
    · rintro ⟨_, hheads, ⟨⟩⟩
      obtain ⟨⟨hbound, hlength⟩, -⟩ := slice_ok.mp hheads
      rw [Nat.zero_add] at hbound hlength
      exact ⟨hbound, hlength, rfl⟩
    · rintro ⟨hbound, hlength, rfl⟩
      refine ⟨_, slice_ok.mpr ⟨?_, rfl⟩, rfl⟩
      rw [Nat.zero_add]
      exact ⟨hbound, hlength⟩

theorem arrayBody_append (pre : Bytes) {body : Bytes} {n : Nat}
    (hpre : pre.length + 32 < positionBound) (hn : 32 * n < positionBound)
    (hbody : 32 * n ≤ body.length) :
    arrayBody (pre ++ (Bytes.bigEndian 32 n ++ body)) pre.length n = .ok body := by
  have hstart : bodyStart pre.length = (pre ++ Bytes.bigEndian 32 n).length := by
    rw [bodyStart, List.length_append, Bytes.length_bigEndian]
    omega
  refine arrayBody_ok.mpr ⟨hn, hbody, ?_⟩
  rw [hstart, ← List.append_assoc, List.drop_left' rfl]

theorem length_counted (bs : Bytes) :
    (counted bs).length = 32 + bs.length + (32 - bs.length % 32) % 32 := by
  rw [counted, List.length_append, List.length_append, Bytes.length_bigEndian,
    Bytes.length_zeros]

section
variable {as bs : List Part} {ty : Ty}

theorem length_layout_at_tail {p : Part} (has : ∀ q ∈ as, q.Narrow) (hp : p.Narrow)
    (hbs : ∀ q ∈ bs, q.Narrow) (post : Bytes) :
    (layout (as ++ p :: bs) ++ post).length =
      tailStart (as ++ p :: bs).length as + p.tail.length +
        (bs.flatMap Part.tail ++ post).length := by
  obtain ⟨pre, hpre, hdata⟩ := layout_at_tail has hp hbs post
  rw [hdata, List.length_append, List.length_append, hpre, Nat.add_assoc]

theorem counted_at_head (payload : Bytes) (has : ∀ q ∈ as, q.Narrow) (hbs : ∀ q ∈ bs, q.Narrow)
    (post : Bytes)
    (h : tailStart (as ++ .behind (counted payload) :: bs).length as + 32 + payload.length <
      positionBound) :
    ∃ offset,
      readPosition (layout (as ++ .behind (counted payload) :: bs) ++ post) (32 * as.length) =
        .ok offset ∧
      countedAt (layout (as ++ .behind (counted payload) :: bs) ++ post) offset =
        .ok payload := by
  obtain ⟨pre, hpre, hdata, hhead⟩ := tail_at_head (counted payload) has hbs post (by omega)
  refine ⟨pre.length, hhead, ?_⟩
  rw [hdata]
  exact countedAt_append (by rwa [hpre])

section
variable {data payload : Bytes} {pos offset : Nat} (hhead : readPosition data pos = .ok offset)
variable (hread : countedAt data offset = .ok payload)
include hhead hread

theorem decodeAt_bytes : decodeAt .bytes data pos = .ok (.bytes payload) := by
  simp only [decodeAt_bytes_eq, hhead, hread, bind, Except.bind, pure, Except.pure]

theorem decodeAt_string {s : String} (htext : Bytes.text? payload = some s) :
    decodeAt .string data pos = .ok (.string s) := by
  obtain ⟨length, hlength, hslice⟩ := bind_ok.mp hread
  simp only [decodeAt, hhead, hlength, hslice, htext, bind, Except.bind, pure, Except.pure]

end

theorem decodeAt_array_layout {items : List Token} {element : Ty} (has : ∀ q ∈ as, q.Narrow)
    (hbs : ∀ q ∈ bs, q.Narrow) (post : Bytes)
    (hstart : tailStart (as ++ (Token.array items).part :: bs).length as + 32 < positionBound)
    (hcount : 32 * items.length < positionBound)
    (hitems : ∀ front t back, items = front ++ t :: back →
      decodeAt element (layout (parts items) ++ (bs.flatMap Part.tail ++ post))
        (32 * front.length) = .ok t) :
    decodeAt (.array element) (layout (as ++ (Token.array items).part :: bs) ++ post)
      (32 * as.length) = .ok (.array items) := by
  rw [Token.part] at hstart ⊢
  obtain ⟨pre, hpre, hdata, hhead⟩ := tail_at_head
    (Bytes.bigEndian 32 items.length ++ layout (parts items)) has hbs post (by omega)
  rw [List.append_assoc] at hdata
  have hlength := readPosition_append pre (n := items.length)
    (layout (parts items) ++ (bs.flatMap Part.tail ++ post)) (by rwa [hpre]) (by omega)
  have hheads : 32 * items.length ≤
      (layout (parts items) ++ (bs.flatMap Part.tail ++ post)).length := by
    rw [layout, List.length_append, List.length_append, length_heads _ (parts_narrow items),
      length_parts]
    omega
  have hbody := arrayBody_append pre (by rwa [hpre]) hcount hheads
  have hrun : decodeRun (decodeAt element (layout (parts items) ++ (bs.flatMap Part.tail ++ post)))
      0 items.length = .ok items := decodeRun_ok [] hitems
  rw [decodeAt, hhead]
  change (do let count ← readPosition _ pre.length; _) = _
  rw [hdata, hlength]
  change (do let body ← arrayBody _ pre.length items.length; _) = _
  rw [hbody]
  change (do return Token.array (← decodeRun _ 0 items.length)) = _
  rw [hrun]
  rfl

/-- Every value of a row is read back, if the row starts an input below 2^64 bytes. -/
theorem decodeAt_layout {t : Token} (hcheck : t.check ty = .ok ()) (has : ∀ q ∈ as, q.Narrow)
    (hbs : ∀ q ∈ bs, q.Narrow) (post : Bytes)
    (h : (layout (as ++ t.part :: bs) ++ post).length < positionBound) :
    decodeAt ty (layout (as ++ t.part :: bs) ++ post) (32 * as.length) = .ok t := by
  have hlength := length_layout_at_tail has t.part_narrow hbs post
  induction ty generalizing t as bs post with
  | bytes =>
    obtain ⟨payload, rfl⟩ := check_bytes_ok.mp hcheck
    obtain ⟨offset, hhead, hread⟩ := counted_at_head payload has hbs post (by
      simp only [Token.part, Part.tail, length_counted] at hlength h
      omega)
    exact decodeAt_bytes hhead hread
  | string =>
    obtain ⟨s, rfl⟩ := check_string_ok.mp hcheck
    obtain ⟨offset, hhead, hread⟩ := counted_at_head (Bytes.ofText s) has hbs post (by
      simp only [Token.part, Part.tail, length_counted] at hlength h
      omega)
    exact decodeAt_string hhead hread (Bytes.text?_ofText s)
  | array element ih =>
    obtain ⟨items, rfl, hitems⟩ := check_array_ok.mp hcheck
    have hbody : (layout (parts items)).length + 32 = (Token.array items).part.tail.length := by
      simp only [Token.part, Part.tail, List.length_append, Bytes.length_bigEndian, Nat.add_comm]
    refine decodeAt_array_layout has hbs post (by omega) ?_ ?_
    · rw [layout, List.length_append, length_heads _ (parts_narrow items), length_parts] at hbody
      omega
    · rintro front item back rfl
      rw [parts_split, ← length_parts front]
      refine ih (checkEach_ok.mp hitems item (by simp)) (parts_narrow front) (parts_narrow back) _
        ?_ (length_layout_at_tail (parts_narrow front) item.part_narrow (parts_narrow back) _)
      rw [← parts_split, List.length_append]
      omega
  | _ =>
    obtain ⟨word, hpart⟩ := part_inline_of_check hcheck (by simp) (by simp) (by simp)
    refine decodeAt_inline hcheck hpart has post ?_
    simp only [tailStart, List.length_append, List.length_cons] at hlength h
    omega

end

-- ---------------------------------------------------------------------------
-- Checked forms
-- ---------------------------------------------------------------------------

theorem decode_encode {tys : List Ty} {tokens : List Token} (hcount : tys.length = tokens.length)
    (hcheck : checkAll tys tokens = .ok ()) (hshort : (encode tokens).length < 2 ^ 64) :
    decode tys (encode tokens) = .ok tokens := by
  refine decodeFrom_ok [] ((checkAll_ok hcount).mp hcheck) ?_
  rintro ty front t back htyped rfl
  rw [encode_split] at hshort ⊢
  rw [← length_parts front]
  exact decodeAt_layout htyped (parts_narrow front) (parts_narrow back) [] hshort

/-- Values that have the types of a list, of any depth, are read back from their form. -/
theorem decode_encodeChecked {tys : List Ty} {tokens : List Token} {bytes : Bytes}
    (h : encodeChecked tys tokens = .ok bytes) (hshort : bytes.length < 2 ^ 64) :
    decode tys bytes = .ok tokens := by
  unfold encodeChecked at h
  by_cases hcount : tys.length = tokens.length
  swap
  · rw [if_pos hcount] at h
    cases h
  rw [if_neg (not_not_intro hcount)] at h
  cases hcheck : checkAll tys tokens with
  | error cause =>
    rw [hcheck] at h
    cases h
  | ok =>
    rw [hcheck] at h
    obtain rfl : encode tokens = bytes := Except.ok.inj h
    exact decode_encode hcount hcheck hshort

/-- Two levels of arrays, one of them empty, between static values and an empty text. -/
theorem sample_row_read_back :
    ∃ bytes,
      encodeChecked [.uint 8, .array (.array .string), .bool, .string]
        [.uint 255, .array [.array [], .array [.string "seal", .string ""]], .bool true,
          .string ""] = .ok bytes ∧
      decode [.uint 8, .array (.array .string), .bool, .string] bytes =
        .ok [.uint 255, .array [.array [], .array [.string "seal", .string ""]], .bool true,
          .string ""] := by
  refine ⟨_, rfl, decode_encodeChecked rfl ?_⟩
  decide +kernel

end StakeGov.Abi
