import StakeGov.Abi.Decode
import StakeGov.Proofs.Numerals

/-!
# Reading rows of call data

In the form of a row, the head of each value stands at its place in the row
(`slice_head`) and its tail where the heads and the tails before it end
(`layout_at_tail`). So a word that was written is read back from its head, and the bytes
of a dynamic value from its tail.
-/

namespace StakeGov

namespace Abi

theorem bind_ok {ε α β : Type} {x : Except ε α} {f : α → Except ε β} {b : β} :
    x >>= f = .ok b ↔ ∃ a, x = .ok a ∧ f a = .ok b := by
  cases x <;> simp [bind, Except.bind]

-- ---------------------------------------------------------------------------
-- Rows
-- ---------------------------------------------------------------------------

/-- The head of a part whose tail starts at the given place. -/
def Part.head (start : Nat) : Part → Bytes
  | .inline word => word
  | .behind _ => Bytes.bigEndian 32 start

def Part.Narrow : Part → Prop
  | .inline word => word.length = 32
  | .behind _ => True

theorem Part.Narrow.length_head {p : Part} (h : p.Narrow) (start : Nat) :
    (p.head start).length = 32 := by
  cases p with
  | inline word => exact h
  | behind tail => exact Bytes.length_bigEndian 32 start

theorem Token.part_narrow (t : Token) : t.part.Narrow := by
  cases t <;> simp [Token.part, Part.Narrow]

theorem heads_cons (start : Nat) (p : Part) (ps : List Part) :
    heads start (p :: ps) = p.head start ++ heads (start + p.tail.length) ps := by
  cases p <;> rfl

theorem heads_append (start : Nat) (as bs : List Part) :
    heads start (as ++ bs) =
      heads start as ++ heads (start + (as.flatMap Part.tail).length) bs := by
  induction as generalizing start with
  | nil => rfl
  | cons a as ih =>
    rw [List.cons_append, heads_cons, heads_cons, ih, List.append_assoc, List.flatMap_cons,
      List.length_append, Nat.add_assoc]

theorem length_heads (start : Nat) {ps : List Part} (h : ∀ p ∈ ps, p.Narrow) :
    (heads start ps).length = 32 * ps.length := by
  induction ps generalizing start with
  | nil => rfl
  | cons p ps ih =>
    rw [heads_cons, List.length_append, (h p List.mem_cons_self).length_head,
      ih _ fun q hq => h q (List.mem_cons_of_mem p hq), List.length_cons]
    omega

/-- Where the tail of the part after `as` starts in a row of `n` parts. -/
def tailStart (n : Nat) (as : List Part) : Nat :=
  32 * n + (as.flatMap Part.tail).length

section
variable {as bs : List Part} {p : Part}

theorem layout_split (as bs : List Part) (p : Part) :
    layout (as ++ p :: bs) =
      heads (32 * (as ++ p :: bs).length) as ++
        (p.head (tailStart (as ++ p :: bs).length as) ++
          (heads (tailStart (as ++ p :: bs).length as + p.tail.length) bs ++
            (as.flatMap Part.tail ++ (p.tail ++ bs.flatMap Part.tail)))) := by
  rw [layout, heads_append, heads_cons, List.flatMap_append, List.flatMap_cons, tailStart]
  simp only [List.append_assoc]

theorem slice_ok {data bytes : Bytes} {offset needed : Nat} :
    slice data offset needed = .ok bytes ↔
      (offset + needed < positionBound ∧ offset + needed ≤ data.length) ∧
        (data.drop offset).take needed = bytes := by
  rw [slice]
  by_cases h : offset + needed < positionBound ∧ offset + needed ≤ data.length <;> simp [h]

theorem slice_append (pre mid post : Bytes) (h : pre.length + mid.length < positionBound) :
    slice (pre ++ (mid ++ post)) pre.length mid.length = .ok mid :=
  slice_ok.mpr ⟨⟨h, by simp⟩, by rw [List.drop_left' rfl, List.take_left' rfl]⟩

theorem slice_head (has : ∀ q ∈ as, q.Narrow) (hp : p.Narrow) (post : Bytes)
    (h : 32 * as.length + 32 < positionBound) :
    slice (layout (as ++ p :: bs) ++ post) (32 * as.length) 32 =
      .ok (p.head (tailStart (as ++ p :: bs).length as)) := by
  have hpre := length_heads (32 * (as ++ p :: bs).length) has
  have hmid := hp.length_head (tailStart (as ++ p :: bs).length as)
  rw [layout_split, List.append_assoc, List.append_assoc]
  have hslice := slice_append (heads (32 * (as ++ p :: bs).length) as)
    (p.head (tailStart (as ++ p :: bs).length as))
    (heads (tailStart (as ++ p :: bs).length as + p.tail.length) bs ++
      (as.flatMap Part.tail ++ (p.tail ++ bs.flatMap Part.tail)) ++ post)
    (by rwa [hpre, hmid])
  rwa [hpre, hmid] at hslice

theorem layout_at_tail (has : ∀ q ∈ as, q.Narrow) (hp : p.Narrow) (hbs : ∀ q ∈ bs, q.Narrow)
    (post : Bytes) :
    ∃ pre, pre.length = tailStart (as ++ p :: bs).length as ∧
      layout (as ++ p :: bs) ++ post = pre ++ (p.tail ++ (bs.flatMap Part.tail ++ post)) := by
  have hall : ∀ q ∈ as ++ p :: bs, q.Narrow := by
    intro q hq
    rcases List.mem_append.mp hq with hq | hq
    · exact has q hq
    · rcases List.mem_cons.mp hq with rfl | hq
      · exact hp
      · exact hbs q hq
  refine ⟨heads (32 * (as ++ p :: bs).length) (as ++ p :: bs) ++ as.flatMap Part.tail, ?_, ?_⟩
  · rw [List.length_append, length_heads _ hall, tailStart]
  · rw [layout, List.flatMap_append, List.flatMap_cons]
    simp only [List.append_assoc]

-- ---------------------------------------------------------------------------
-- Values
-- ---------------------------------------------------------------------------

theorem decodeWord_of_check {t : Token} {ty : Ty} {word : Bytes} (hcheck : t.check ty = .ok ())
    (hpart : t.part = .inline word) : decodeWord ty (Word.ofBytes word) = .ok t := by
  cases t with
  | address a =>
    cases ty <;> simp only [Token.check, reduceCtorEq] at hcheck
    cases hpart
    rw [Word.ofBytes_address, decodeWord, if_pos (Word.bitLength_address a), Address.address_word]
  | uint v =>
    cases ty <;> simp only [Token.check, reduceCtorEq] at hcheck
    cases hpart
    rw [Word.ofBytes_bytes, decodeWord]
    split at hcheck
    · rename_i hfits
      rw [if_pos hfits]
    · cases hcheck
  | bool b =>
    cases ty <;> simp only [Token.check, reduceCtorEq] at hcheck
    cases hpart
    cases b <;> rfl
  | bytes32 w =>
    cases ty <;> simp only [Token.check, reduceCtorEq] at hcheck
    cases hpart
    rw [Word.ofBytes_bytes, decodeWord]
  | bytes | string | array => simp [Token.part] at hpart

theorem decodeAt_word {t : Token} {ty : Ty} {word : Bytes} (hcheck : t.check ty = .ok ())
    (hpart : t.part = .inline word) (data : Bytes) (pos : Nat) :
    decodeAt ty data pos = (do decodeWord ty (← readWord data pos)) := by
  cases ty with
  | bytes | string | array => cases t <;> simp [Token.check, Token.part] at hcheck hpart
  | _ => rfl

theorem decodeAt_inline {t : Token} {ty : Ty} {word : Bytes} (hcheck : t.check ty = .ok ())
    (hpart : t.part = .inline word) (has : ∀ q ∈ as, q.Narrow) (post : Bytes)
    (h : 32 * as.length + 32 < positionBound) :
    decodeAt ty (layout (as ++ t.part :: bs) ++ post) (32 * as.length) = .ok t := by
  rw [decodeAt_word hcheck hpart, readWord, slice_head has t.part_narrow post h, hpart]
  exact decodeWord_of_check hcheck hpart

theorem readPosition_of_slice {data : Bytes} {pos n : Nat}
    (h : slice data pos 32 = .ok (Bytes.bigEndian 32 n)) (hn : n < positionBound) :
    readPosition data pos = .ok n := by
  have hword : (Word.ofBytes (Bytes.bigEndian 32 n)).toNat = n :=
    Word.toNat_ofBytes_bigEndian (Nat.lt_trans hn (by decide))
  rw [readPosition, readWord, h]
  simp only [bind, Except.bind, pure, Except.pure, hword, hn, if_true]

theorem readPosition_append (pre : Bytes) {n : Nat} (rest : Bytes)
    (hpre : pre.length + 32 < positionBound) (hn : n < positionBound) :
    readPosition (pre ++ (Bytes.bigEndian 32 n ++ rest)) pre.length = .ok n := by
  have hslice := slice_append pre (Bytes.bigEndian 32 n) rest
    (by rwa [Bytes.length_bigEndian])
  rw [Bytes.length_bigEndian] at hslice
  exact readPosition_of_slice hslice hn

theorem tail_at_head (tail : Bytes) (has : ∀ q ∈ as, q.Narrow) (hbs : ∀ q ∈ bs, q.Narrow)
    (post : Bytes) (hstart : tailStart (as ++ .behind tail :: bs).length as < positionBound) :
    ∃ pre, pre.length = tailStart (as ++ .behind tail :: bs).length as ∧
      layout (as ++ .behind tail :: bs) ++ post =
        pre ++ (tail ++ (bs.flatMap Part.tail ++ post)) ∧
      readPosition (layout (as ++ .behind tail :: bs) ++ post) (32 * as.length) =
        .ok pre.length := by
  obtain ⟨pre, hpre, hdata⟩ := layout_at_tail (p := .behind tail) has trivial hbs post
  have hhead : slice (layout (as ++ .behind tail :: bs) ++ post) (32 * as.length) 32 =
      .ok (Bytes.bigEndian 32 pre.length) := by
    rw [hpre]
    refine slice_head (p := .behind tail) has trivial post ?_
    simp only [tailStart, List.length_append, List.length_cons] at hstart
    omega
  exact ⟨pre, hpre, hdata, readPosition_of_slice hhead (hpre ▸ hstart)⟩

def countedAt (data : Bytes) (offset : Nat) : Except Error Bytes := do
  let length ← readPosition data offset
  slice data (bodyStart offset) length

theorem decodeAt_bytes_eq (data : Bytes) (pos : Nat) :
    decodeAt .bytes data pos = (do
      return Token.bytes (← countedAt data (← readPosition data pos))) := by
  simp only [decodeAt, countedAt, bind_assoc]

theorem countedAt_append {pre bs rest : Bytes}
    (h : pre.length + 32 + bs.length < positionBound) :
    countedAt (pre ++ (counted bs ++ rest)) pre.length = .ok bs := by
  have hstart : bodyStart pre.length = (pre ++ Bytes.bigEndian 32 bs.length).length := by
    rw [bodyStart, List.length_append, Bytes.length_bigEndian]
    omega
  have hcount : readPosition (pre ++ (counted bs ++ rest)) pre.length = .ok bs.length := by
    rw [counted, List.append_assoc]
    exact readPosition_append pre _ (by omega) (by omega)
  have hbody := slice_append (pre ++ Bytes.bigEndian 32 bs.length) bs
    (Bytes.zeros ((32 - bs.length % 32) % 32) ++ rest)
    (by rw [List.length_append, Bytes.length_bigEndian]; omega)
  simp only [countedAt, hcount, hstart, bind, Except.bind]
  rwa [counted, List.append_assoc, List.append_assoc, ← List.append_assoc pre]

theorem countedAt_append_long {pre bs : Bytes} (rest : Bytes)
    (hpre : pre.length + 32 < positionBound)
    (hbs : bs.length < 2 ^ 256) (h : positionBound ≤ pre.length + 32 + bs.length) :
    ∃ cause, countedAt (pre ++ (counted bs ++ rest)) pre.length = .error cause := by
  have hlength := Word.toNat_ofBytes_bigEndian hbs
  have hword := slice_append pre (Bytes.bigEndian 32 bs.length)
    (bs ++ (Bytes.zeros ((32 - bs.length % 32) % 32) ++ rest))
    (by rw [Bytes.length_bigEndian]; exact hpre)
  rw [Bytes.length_bigEndian] at hword
  simp only [countedAt, readPosition, readWord, counted, List.append_assoc, hword, bind,
    Except.bind, pure, Except.pure, hlength]
  by_cases hposition : bs.length < positionBound
  · have hend : ¬ bodyStart pre.length + bs.length < positionBound := by
      rw [bodyStart]
      omega
    rw [if_pos hposition]
    simp only [slice, hend, false_and, if_false]
    exact ⟨_, rfl⟩
  · rw [if_neg hposition]
    exact ⟨_, rfl⟩

end

-- ---------------------------------------------------------------------------
-- Encoded rows
-- ---------------------------------------------------------------------------

theorem parts_eq_map (ts : List Token) : parts ts = ts.map Token.part := by
  induction ts with
  | nil => rfl
  | cons t ts ih => rw [parts, ih, List.map_cons]

theorem parts_narrow (ts : List Token) : ∀ q ∈ parts ts, q.Narrow := by
  intro q hq
  rw [parts_eq_map] at hq
  obtain ⟨t, -, rfl⟩ := List.mem_map.mp hq
  exact t.part_narrow

@[simp] theorem length_parts (ts : List Token) : (parts ts).length = ts.length := by
  rw [parts_eq_map, List.length_map]

theorem parts_split (done todo : List Token) (t : Token) :
    parts (done ++ t :: todo) = parts done ++ t.part :: parts todo := by
  rw [parts_eq_map, parts_eq_map, parts_eq_map, List.map_append, List.map_cons]

theorem encode_split (done todo : List Token) (t : Token) :
    encode (done ++ t :: todo) = layout (parts done ++ t.part :: parts todo) ++ [] := by
  rw [encode, parts_split, List.append_nil]

theorem encodeChecked_of_check {tys : List Ty} {tokens : List Token}
    (hcount : tys.length = tokens.length) (hcheck : checkAll tys tokens = .ok ()) :
    encodeChecked tys tokens = .ok (encode tokens) := by
  rw [encodeChecked, if_neg (not_not_intro hcount), hcheck]
  rfl

section
variable (done todo : List Token)

theorem decodeAt_encode_inline {t : Token} {ty : Ty} {word : Bytes} (hcheck : t.check ty = .ok ())
    (hpart : t.part = .inline word) (h : 32 * done.length + 32 < positionBound) :
    decodeAt ty (encode (done ++ t :: todo)) (32 * done.length) = .ok t := by
  rw [encode_split, ← length_parts done]
  exact decodeAt_inline hcheck hpart (parts_narrow done) [] (by rwa [length_parts])

def bytesStart (done todo : List Token) : Nat :=
  32 * (done.length + 1 + todo.length) + ((parts done).flatMap Part.tail).length

theorem decodeAt_encode_bytes (bs : Bytes) (hstart : bytesStart done todo + 32 < positionBound)
    (hbs : bs.length < 2 ^ 256) :
    (bytesStart done todo + 32 + bs.length < positionBound ∧
      decodeAt .bytes (encode (done ++ .bytes bs :: todo)) (32 * done.length) = .ok (.bytes bs)) ∨
    ∃ cause,
      decodeAt .bytes (encode (done ++ .bytes bs :: todo)) (32 * done.length) = .error cause := by
  have htail : tailStart (parts done ++ .behind (counted bs) :: parts todo).length (parts done) =
      bytesStart done todo := by
    simp only [tailStart, bytesStart, length_parts, List.length_append, List.length_cons,
      Nat.add_assoc, Nat.add_comm 1]
  obtain ⟨pre, hpre, hdata, hhead⟩ := tail_at_head (counted bs) (parts_narrow done)
    (parts_narrow todo) [] (by rw [htail]; omega)
  rw [htail] at hpre
  rw [length_parts] at hhead
  have hdecode : decodeAt .bytes (encode (done ++ .bytes bs :: todo)) (32 * done.length) = (do
      return .bytes (← countedAt (pre ++ (counted bs ++ ((parts todo).flatMap Part.tail ++ [])))
        pre.length)) := by
    rw [encode_split, decodeAt_bytes_eq, Token.part, hhead, hdata]
    rfl
  rw [hdecode]
  by_cases h : bytesStart done todo + 32 + bs.length < positionBound
  · rw [countedAt_append (by rwa [hpre])]
    exact .inl ⟨h, rfl⟩
  · obtain ⟨cause, hcause⟩ := countedAt_append_long ((parts todo).flatMap Part.tail ++ [])
      (hpre.symm ▸ hstart) hbs (hpre.symm ▸ Nat.not_lt.mp h)
    rw [hcause]
    exact .inr ⟨cause, rfl⟩

end

end Abi

end StakeGov
