import StakeGov.Proofs.DecodedRows

/-!
# Decoding bytes that anybody may have written

Every length and every offset that the decoder follows comes from its input. So it is run
here with a note of each number that it works out, each part of an input that it turns into
a value and each value that it gives, at every depth (`Noted.decode`). Its answers are the
decoder's own (`Noted.result_decode`). What is noted is `Op.Safe`, because of what was
checked before: a head is read only after the head in front of it, and a body only after the
word that counts it (`Noted.decodeAt_sound`).
-/

namespace StakeGov.Abi

/-- What the decoder does on its way. -/
inductive Op where
  /-- Where a head stands, `32 * index`. Nothing checks this product. -/
  | place (index : Nat)
  /-- Where a slice ends, `offset + needed`. The sum is checked. -/
  | finish (offset needed : Nat)
  /-- Where a body starts, `offset + 32`. The sum stops at the greatest position. -/
  | start (offset : Nat)
  /-- What an input holds from a position on. Past its end that would be nothing. -/
  | remainder (position available : Nat)
  /-- How long the heads of an array are, `32 * count`. The product is checked. -/
  | heads (count : Nat)
  /-- The types of the elements of an array, one for each. -/
  | types (count : Nat)
  /-- Bytes as a value of a fixed width. -/
  | convert (width : Nat) (bs : Bytes)
  | value (t : Token)

/-- A computation with what it did before it ended. -/
structure Noted (α : Type) where
  ops : List Op
  result : Except Error α

namespace Noted

variable {α β : Type}

instance : Monad Noted where
  pure a := ⟨[], .ok a⟩
  bind x f :=
    match x.result with
    | .ok a => ⟨x.ops ++ (f a).ops, (f a).result⟩
    | .error cause => ⟨x.ops, .error cause⟩

def note (op : Op) : Noted Unit :=
  ⟨[op], .ok ()⟩

def ofExcept (x : Except Error α) : Noted α :=
  ⟨[], x⟩

-- ---------------------------------------------------------------------------
-- The decoder with its notes
-- ---------------------------------------------------------------------------

def slice (data : Bytes) (offset needed : Nat) : Noted Bytes := do
  note (.finish offset needed)
  ofExcept (Abi.slice data offset needed)

def word (bs : Bytes) : Noted Word := do
  note (.convert 32 bs)
  return Word.ofBytes bs

def readPosition (data : Bytes) (offset : Nat) : Noted Nat := do
  let v ← word (← slice data offset 32)
  if v.toNat < positionBound then return v.toNat else ofExcept (.error .offsetOutOfRange)

/-- An address is taken from the bytes of its word, not from their number. -/
def decodeWord (ty : Ty) (bs : Bytes) : Noted Token := do
  let w ← word bs
  match ty with
  | .address =>
    if w.bitLength ≤ 160 then
      let low ← slice bs 12 20
      note (.convert 20 low)
      return .address (Address.ofBytes low)
    else ofExcept (.error (.outOfRange ty))
  | .bytes32 => return .bytes32 (← word bs)
  | _ => ofExcept (Abi.decodeWord ty w)

def bodyStart (offset : Nat) : Noted Nat := do
  note (.start offset)
  return Abi.bodyStart offset

def headsLength (start available count : Nat) : Noted Nat := do
  note (.heads count)
  if positionBound ≤ 32 * count then
    ofExcept (.error (.outOfBounds start (positionBound - 1) available))
  else return 32 * count

def arrayBody (data : Bytes) (offset count : Nat) : Noted Bytes := do
  let start ← bodyStart offset
  note (.remainder start data.length)
  let body := data.drop start
  let needed ← headsLength start data.length count
  let _ ← slice body 0 needed
  note (.types count)
  return body

def text (bs : Bytes) : Noted String :=
  match Bytes.text? bs with
  | some s => return s
  | none => ofExcept (.error .invalidText)

def give (t : Token) : Noted Token := do
  note (.value t)
  return t

def decodeRow : Nat → List (Nat → Noted Token) → Noted (List Token)
  | _, [] => return []
  | index, read :: reads => do
    note (.place index)
    let token ← read (32 * index)
    let tokens ← decodeRow (index + 1) reads
    return token :: tokens

def decodeAt : Ty → Bytes → Nat → Noted Token
  | .bytes, data, pos => do
    let offset ← readPosition data pos
    let length ← readPosition data offset
    give (.bytes (← slice data (← bodyStart offset) length))
  | .string, data, pos => do
    let offset ← readPosition data pos
    let length ← readPosition data offset
    give (.string (← text (← slice data (← bodyStart offset) length)))
  | .array element, data, pos => do
    let offset ← readPosition data pos
    let count ← readPosition data offset
    let body ← arrayBody data offset count
    give (.array (← decodeRow 0 (List.replicate count (decodeAt element body))))
  | ty, data, pos => do
    give (← decodeWord ty (← slice data pos 32))

def decode (tys : List Ty) (data : Bytes) : Noted (List Token) :=
  decodeRow 0 (tys.map fun ty => decodeAt ty data)

-- ---------------------------------------------------------------------------
-- Its answers
-- ---------------------------------------------------------------------------

@[simp] theorem result_pure (a : α) : (pure a : Noted α).result = pure a := rfl

@[simp] theorem result_note (op : Op) : (note op).result = pure () := rfl

@[simp] theorem result_ofExcept (x : Except Error α) : (ofExcept x).result = x := rfl

@[simp] theorem result_bind (x : Noted α) (f : α → Noted β) :
    (x >>= f).result = (do (f (← x.result)).result) := by
  change (match x.result with | .ok a => _ | .error cause => _ : Noted β).result = _
  cases x.result <;> rfl

@[simp] theorem result_slice (data : Bytes) (offset needed : Nat) :
    (slice data offset needed).result = Abi.slice data offset needed := by
  simp [slice]

@[simp] theorem result_word (bs : Bytes) : (word bs).result = pure (Word.ofBytes bs) := by
  simp [word]

@[simp] theorem result_ite {c : Prop} [Decidable c] (x y : Noted α) :
    (if c then x else y).result = if c then x.result else y.result :=
  apply_ite result c x y

@[simp] theorem result_readPosition (data : Bytes) (offset : Nat) :
    (readPosition data offset).result = Abi.readPosition data offset := by
  simp only [readPosition, Abi.readPosition, readWord, result_bind, result_slice, result_word,
    result_ite, result_pure, result_ofExcept]
  cases Abi.slice data offset 32 <;> rfl

@[simp] theorem result_bodyStart (offset : Nat) :
    (bodyStart offset).result = pure (Abi.bodyStart offset) := by
  simp [bodyStart]

@[simp] theorem result_arrayBody (data : Bytes) (offset count : Nat) :
    (arrayBody data offset count).result = Abi.arrayBody data offset count := by
  simp only [arrayBody, headsLength, Abi.arrayBody, result_bind, result_bodyStart, result_note,
    result_slice, result_ite, result_pure, result_ofExcept, pure_bind]
  split <;> rfl

@[simp] theorem result_give (t : Token) : (give t).result = pure t := by
  simp [give]

theorem ofBytes_drop {bs : Bytes} (h : bs.length = 32) :
    Address.ofBytes ((bs.drop 12).take 20) = (Word.ofBytes bs).address := by
  have hlow : (bs.drop 12).length = 20 := by rw [List.length_drop, h]
  have hsplit : Bytes.toNat bs =
      Bytes.toNat (bs.take 12) * 2 ^ 160 + Bytes.toNat (bs.drop 12) := by
    have happend := Bytes.toNat_append (bs.take 12) (bs.drop 12)
    rwa [List.take_append_drop, hlow] at happend
  apply BitVec.eq_of_toNat_eq
  rw [List.take_of_length_le (Nat.le_of_eq hlow), Address.ofBytes, Word.ofBytes, Word.address,
    BitVec.toNat_setWidth, BitVec.toNat_ofNat, BitVec.toNat_ofNat, hsplit]
  omega

theorem length_slice {data bs : Bytes} {offset needed : Nat}
    (h : Abi.slice data offset needed = .ok bs) : bs.length = needed := by
  obtain ⟨⟨-, hinside⟩, rfl⟩ := slice_ok.mp h
  rw [List.length_take, List.length_drop]
  omega

theorem result_decodeWord (ty : Ty) {bs : Bytes} (h : bs.length = 32) :
    (decodeWord ty bs).result = Abi.decodeWord ty (Word.ofBytes bs) := by
  have hlow : Abi.slice bs 12 20 = pure ((bs.drop 12).take 20) :=
    slice_ok.mpr ⟨⟨by decide, by omega⟩, rfl⟩
  cases ty with
  | address =>
    simp only [decodeWord, Abi.decodeWord, result_bind, result_word, result_ite, result_slice,
      result_note, result_pure, result_ofExcept, pure_bind, hlow, ofBytes_drop h]
    rfl
  | bytes32 =>
    simp only [decodeWord, Abi.decodeWord, result_bind, result_word, result_pure, pure_bind]
    rfl
  | _ => simp [decodeWord]

theorem result_sliceWord (ty : Ty) (data : Bytes) (pos : Nat) :
    (do decodeWord ty (← slice data pos 32) : Noted Token).result =
      (do Abi.decodeWord ty (← readWord data pos)) := by
  rw [readWord, result_bind, result_slice]
  cases hslice : Abi.slice data pos 32 with
  | error cause => rfl
  | ok bs => exact result_decodeWord ty (length_slice hslice)

theorem result_decodeRow_replicate (read : Nat → Noted Token) (index count : Nat) :
    (decodeRow index (List.replicate count read)).result =
      decodeRun (fun pos => (read pos).result) index count := by
  induction count generalizing index with
  | zero => rfl
  | succ count ih => simp [List.replicate_succ, decodeRow, decodeRun, ih]

theorem result_decodeAt (ty : Ty) (data : Bytes) (pos : Nat) :
    (decodeAt ty data pos).result = Abi.decodeAt ty data pos := by
  induction ty generalizing data pos with
  | bytes => simp [decodeAt, Abi.decodeAt]
  | string =>
    simp only [decodeAt, Abi.decodeAt, result_bind, result_readPosition, result_bodyStart,
      result_slice, result_give, pure_bind]
    refine bind_congr fun offset => bind_congr fun length => bind_congr fun payload => ?_
    rw [text]
    cases Bytes.text? payload <;> rfl
  | array element ih => simp [decodeAt, Abi.decodeAt, result_decodeRow_replicate, ih]
  | _ =>
    simp only [decodeAt, Abi.decodeAt, ← result_sliceWord, result_bind, result_give, bind_pure]

theorem result_decodeRow_map (tys : List Ty) (data : Bytes) (index : Nat) :
    (decodeRow index (tys.map fun ty => decodeAt ty data)).result =
      decodeFrom data index tys := by
  induction tys generalizing index with
  | nil => rfl
  | cons ty tys ih => simp [decodeRow, decodeFrom, result_decodeAt, ih]

theorem result_decode (tys : List Ty) (data : Bytes) :
    (decode tys data).result = Abi.decode tys data :=
  result_decodeRow_map tys data 0

end Noted

-- ---------------------------------------------------------------------------
-- What may be noted
-- ---------------------------------------------------------------------------

/-- No bytes or text of a value, at any depth, is longer than the limit, and no array has
more elements than words fit in there. -/
inductive Token.Bounded (limit : Nat) : Token → Prop where
  | address (a : Address) : Bounded limit (.address a)
  | uint (v : Word) : Bounded limit (.uint v)
  | bool (b : Bool) : Bounded limit (.bool b)
  | bytes32 (w : Word) : Bounded limit (.bytes32 w)
  | bytes {bs : Bytes} (h : bs.length ≤ limit) : Bounded limit (.bytes bs)
  | string {s : String} (h : (Bytes.ofText s).length ≤ limit) : Bounded limit (.string s)
  | array {items : List Token} (h : items.length ≤ limit / 32)
      (hitems : ∀ item ∈ items, Bounded limit item) : Bounded limit (.array items)

namespace Op

/-- What is not checked by the decoder needs no check. -/
def Safe (limit : Nat) : Op → Prop
  | .place index => 32 * index < positionBound
  | .start offset => offset + 32 < positionBound
  | .remainder position available => position ≤ available
  | .types count => count ≤ limit / 32
  | .convert width bs => (width = 20 ∨ width = 32) ∧ bs.length = width
  | .value t => t.Bounded limit
  | .finish .. | .heads .. => True

def Exceeds : Op → Prop
  | .finish offset needed => positionBound ≤ offset + needed
  | .heads count => positionBound ≤ 32 * count
  | _ => False

end Op

namespace Noted

/-- What is noted is safe, the computation ends in an error if a number did not fit, and its
answer is one of those described. -/
structure Sound (limit : Nat) (x : Noted α) (Q : α → Prop) : Prop where
  safe : ∀ op ∈ x.ops, op.Safe limit
  refuses : ∀ op ∈ x.ops, op.Exceeds → ∃ cause, x.result = .error cause
  answers : ∀ a, x.result = .ok a → Q a

namespace Sound

variable {limit : Nat} {Q : α → Prop} {R : β → Prop}

theorem pure {a : α} (h : Q a) : Sound limit (Pure.pure a) Q where
  safe _ hop := nomatch hop
  refuses _ hop := nomatch hop
  answers b hb := by
    cases hb
    exact h

theorem ofExcept {x : Except Error α} (h : ∀ a, x = .ok a → Q a) :
    Sound limit (Noted.ofExcept x) Q where
  safe _ hop := nomatch hop
  refuses _ hop := nomatch hop
  answers := h

theorem throw (cause : Error) : Sound limit (Noted.ofExcept (.error cause)) Q :=
  ofExcept fun _ h => nomatch h

theorem note (op : Op) (hsafe : op.Safe limit) (hfits : ¬ op.Exceeds) :
    Sound limit (Noted.note op) fun _ => True where
  safe op' hop := by
    obtain rfl := List.mem_singleton.mp hop
    exact hsafe
  refuses op' hop hexceeds := by
    obtain rfl := List.mem_singleton.mp hop
    exact absurd hexceeds hfits
  answers _ _ := trivial

theorem bind {x : Noted α} {f : α → Noted β} (hx : Sound limit x Q)
    (hf : ∀ a, Q a → Sound limit (f a) R) : Sound limit (x >>= f) R := by
  cases hresult : x.result with
  | error cause =>
    have hbind : x >>= f = ⟨x.ops, .error cause⟩ := by
      change (match x.result with | .ok a => _ | .error cause => _ : Noted β) = _
      rw [hresult]
    rw [hbind]
    exact ⟨hx.safe, fun _ _ _ => ⟨cause, rfl⟩, fun _ h => nomatch h⟩
  | ok a =>
    have hbind : x >>= f = ⟨x.ops ++ (f a).ops, (f a).result⟩ := by
      change (match x.result with | .ok a => _ | .error cause => _ : Noted β) = _
      rw [hresult]
    have hnext := hf a (hx.answers a hresult)
    rw [hbind]
    refine ⟨fun op hop => ?_, fun op hop hexceeds => ?_, hnext.answers⟩
    · exact (List.mem_append.mp hop).elim (hx.safe op) (hnext.safe op)
    · rcases List.mem_append.mp hop with hop | hop
      · obtain ⟨cause, herror⟩ := hx.refuses op hop hexceeds
        rw [hresult] at herror
        cases herror
      · exact hnext.refuses op hop hexceeds

theorem mono {x : Noted α} {Q' : α → Prop} (hx : Sound limit x Q) (h : ∀ a, Q a → Q' a) :
    Sound limit x Q' :=
  ⟨hx.safe, hx.refuses, fun a ha => h a (hx.answers a ha)⟩

end Sound

-- ---------------------------------------------------------------------------
-- What is noted
-- ---------------------------------------------------------------------------

section
variable {limit : Nat}

theorem slice_sound (data : Bytes) (offset needed : Nat) :
    Sound limit (slice data offset needed) fun bs =>
      offset + needed < positionBound ∧ offset + needed ≤ data.length ∧ bs.length = needed where
  safe op hop := by
    obtain rfl := List.mem_singleton.mp hop
    trivial
  refuses op hop hexceeds := by
    obtain rfl := List.mem_singleton.mp hop
    rw [result_slice, Abi.slice, if_neg fun h => Nat.not_lt.mpr hexceeds h.1]
    exact ⟨_, rfl⟩
  answers bs h := by
    rw [result_slice] at h
    obtain ⟨⟨hbound, hinside⟩, -⟩ := slice_ok.mp h
    exact ⟨hbound, hinside, length_slice h⟩

theorem word_sound {bs : Bytes} (h : bs.length = 32) : Sound limit (word bs) fun _ => True :=
  (Sound.note (.convert 32 bs) ⟨.inr rfl, h⟩ id).bind fun _ _ => .pure trivial

theorem readPosition_sound (data : Bytes) (offset : Nat) :
    Sound limit (readPosition data offset) fun _ =>
      offset + 32 < positionBound ∧ offset + 32 ≤ data.length := by
  refine (slice_sound data offset 32).bind fun bs ⟨hbound, hinside, hbs⟩ => ?_
  refine (word_sound hbs).bind fun v _ => ?_
  split
  · exact .pure ⟨hbound, hinside⟩
  · exact .throw _

theorem bounded_of_decodeWord {ty : Ty} {w : Word} {t : Token} (h : Abi.decodeWord ty w = .ok t) :
    t.Bounded limit := by
  have hcheck := check_of_decodeWord h
  cases ty with
  | address =>
    obtain ⟨a, rfl⟩ := check_address_ok.mp hcheck
    exact .address a
  | uint bits =>
    obtain ⟨v, rfl, -⟩ := check_uint_ok.mp hcheck
    exact .uint v
  | bool =>
    obtain ⟨b, rfl⟩ := check_bool_ok.mp hcheck
    exact .bool b
  | bytes32 =>
    obtain ⟨w, rfl⟩ := check_bytes32_ok.mp hcheck
    exact .bytes32 w
  | bytes | string | array => cases h

theorem decodeWord_sound (ty : Ty) {bs : Bytes} (h : bs.length = 32) :
    Sound limit (decodeWord ty bs) (Token.Bounded limit) := by
  refine (word_sound h).bind fun w _ => ?_
  cases ty with
  | address =>
    dsimp only
    split
    · refine (slice_sound bs 12 20).bind fun low ⟨_, _, hlow⟩ => ?_
      exact (Sound.note (.convert 20 low) ⟨.inl rfl, hlow⟩ id).bind fun _ _ => .pure (.address _)
    · exact .throw _
  | bytes32 => exact (word_sound h).bind fun _ _ => .pure (.bytes32 _)
  | _ => exact .ofExcept fun _ => bounded_of_decodeWord

theorem bodyStart_sound {offset : Nat} (h : offset + 32 < positionBound) :
    Sound limit (bodyStart offset) fun start => start = offset + 32 := by
  refine (Sound.note (.start offset) h id).bind fun _ _ => .pure ?_
  rw [Abi.bodyStart]
  omega

theorem headsLength_sound (start available count : Nat) :
    Sound limit (headsLength start available count) fun needed => needed = 32 * count := by
  by_cases hfits : positionBound ≤ 32 * count
  · rw [headsLength, if_pos hfits]
    refine ⟨fun op hop => ?_, fun _ _ _ => ⟨_, rfl⟩, fun _ h => nomatch h⟩
    obtain rfl := List.mem_singleton.mp hop
    trivial
  · rw [headsLength, if_neg hfits]
    exact (Sound.note (.heads count) trivial hfits).bind fun _ _ => .pure rfl

theorem arrayBody_sound {data : Bytes} {offset : Nat} (hdata : data.length ≤ limit)
    (hbound : offset + 32 < positionBound) (hinside : offset + 32 ≤ data.length) (count : Nat) :
    Sound limit (arrayBody data offset count) fun body =>
      body.length ≤ limit ∧ count ≤ limit / 32 := by
  refine (bodyStart_sound hbound).bind fun start hstart => ?_
  refine (Sound.note (.remainder start data.length) (hstart ▸ hinside) id).bind
    fun _ _ => ?_
  refine (headsLength_sound start data.length count).bind fun needed hneeded => ?_
  refine (slice_sound (data.drop start) 0 needed).bind fun _ ⟨_, hheads, _⟩ => ?_
  have hbody : (data.drop start).length ≤ limit := by
    rw [List.length_drop]
    omega
  have hcount : count ≤ limit / 32 := by omega
  exact (Sound.note (.types count) hcount id).bind fun _ _ => .pure ⟨hbody, hcount⟩

theorem text_sound (bs : Bytes) :
    Sound limit (text bs) fun s => Bytes.ofText s = bs := by
  unfold text
  split
  · rename_i htext
    exact .pure (Bytes.ofText_of_text? htext)
  · exact .throw _

theorem give_sound {t : Token} (h : t.Bounded limit) :
    Sound limit (give t) (Token.Bounded limit) :=
  (Sound.note (.value t) h id).bind fun _ _ => .pure h

/-- The place of each head is small because the head in front of it was inside the input. -/
theorem decodeRow_sound {reads : List (Nat → Noted Token)}
    (hreads : ∀ read ∈ reads, ∀ pos, Sound limit (read pos) fun t =>
      pos + 32 < positionBound ∧ t.Bounded limit)
    (index : Nat) (hindex : 32 * index < positionBound) :
    Sound limit (decodeRow index reads) fun ts =>
      ts.length = reads.length ∧ ∀ t ∈ ts, t.Bounded limit := by
  induction reads generalizing index with
  | nil => exact .pure ⟨rfl, fun t ht => nomatch ht⟩
  | cons read reads ih =>
    refine (Sound.note (.place index) hindex id).bind fun _ _ => ?_
    refine (hreads read List.mem_cons_self (32 * index)).bind fun t ⟨hnext, ht⟩ => ?_
    have hrest := ih (fun read hread => hreads read (List.mem_cons_of_mem _ hread))
      (index + 1) (by omega)
    refine hrest.bind fun ts ⟨hlength, hts⟩ => .pure ⟨?_, ?_⟩
    · rw [List.length_cons, List.length_cons, hlength]
    · exact List.forall_mem_cons.mpr ⟨ht, hts⟩

/-- The induction is on the type. What the elements of an array are read from is a part of
its own input. -/
theorem decodeAt_sound (ty : Ty) {data : Bytes} (hdata : data.length ≤ limit) (pos : Nat) :
    Sound limit (decodeAt ty data pos) fun t =>
      pos + 32 < positionBound ∧ t.Bounded limit := by
  induction ty generalizing data pos with
  | bytes =>
    refine (readPosition_sound data pos).bind fun offset ⟨hpos, _⟩ => ?_
    refine (readPosition_sound data offset).bind fun length ⟨hoffset, _⟩ => ?_
    refine (bodyStart_sound hoffset).bind fun start _ => ?_
    refine (slice_sound data start length).bind fun payload ⟨_, hinside, hpayload⟩ => ?_
    exact (give_sound (.bytes (by omega))).mono fun t ht => ⟨hpos, ht⟩
  | string =>
    refine (readPosition_sound data pos).bind fun offset ⟨hpos, _⟩ => ?_
    refine (readPosition_sound data offset).bind fun length ⟨hoffset, _⟩ => ?_
    refine (bodyStart_sound hoffset).bind fun start _ => ?_
    refine (slice_sound data start length).bind fun payload ⟨_, hinside, hpayload⟩ => ?_
    refine (text_sound payload).bind fun s hs => ?_
    exact (give_sound (.string (by rw [hs]; omega))).mono fun t ht => ⟨hpos, ht⟩
  | array element ih =>
    refine (readPosition_sound data pos).bind fun offset ⟨hpos, _⟩ => ?_
    refine (readPosition_sound data offset).bind fun count ⟨hoffset, hinside⟩ => ?_
    refine (arrayBody_sound hdata hoffset hinside count).bind fun body ⟨hbody, hcount⟩ => ?_
    have hreads : ∀ read ∈ List.replicate count (decodeAt element body), ∀ pos,
        Sound limit (read pos) fun t => pos + 32 < positionBound ∧ t.Bounded limit := by
      intro read hread pos
      rw [List.eq_of_mem_replicate hread]
      exact ih hbody pos
    refine (decodeRow_sound hreads 0 (by decide)).bind fun items ⟨hlength, hitems⟩ => ?_
    rw [List.length_replicate] at hlength
    exact (give_sound (.array (hlength ▸ hcount) hitems)).mono fun t ht => ⟨hpos, ht⟩
  | address | uint | bool | bytes32 =>
    refine (slice_sound data pos 32).bind fun bs ⟨hpos, _, hbs⟩ => ?_
    refine (decodeWord_sound _ hbs).bind fun t ht => ?_
    exact (give_sound ht).mono fun t ht => ⟨hpos, ht⟩

theorem decode_sound (tys : List Ty) (data : Bytes) :
    Sound data.length (decode tys data) fun ts => ∀ t ∈ ts, t.Bounded data.length := by
  have hreads : ∀ read ∈ tys.map fun ty => decodeAt ty data, ∀ pos,
      Sound data.length (read pos) fun t =>
        pos + 32 < positionBound ∧ t.Bounded data.length := by
    intro read hread pos
    obtain ⟨ty, -, rfl⟩ := List.mem_map.mp hread
    exact decodeAt_sound ty (Nat.le_refl _) pos
  exact (decodeRow_sound hreads 0 (by decide)).mono fun ts hts => hts.2

end

end Noted

/-- Whatever the input, the decoder that notes what it does gives the decoder's answers, and
at every depth: the place of a head fits 64 bits, unchecked as it is; a sum or a product that
does not fit ends in an error; the start of a body is never cut off, and a body starts inside
its input; bytes that become a value of 20 or 32 bytes are as many; no array has more elements
than there are words in the input, and no bytes or text of a value are longer than it. -/
theorem decoding_stays_in_range (tys : List Ty) (data : Bytes) :
    (Noted.decode tys data).result = decode tys data ∧
    (∀ index, .place index ∈ (Noted.decode tys data).ops → 32 * index < 2 ^ 64) ∧
    (∀ offset needed, .finish offset needed ∈ (Noted.decode tys data).ops →
      2 ^ 64 ≤ offset + needed → ∃ cause, decode tys data = .error cause) ∧
    (∀ count, .heads count ∈ (Noted.decode tys data).ops →
      2 ^ 64 ≤ 32 * count → ∃ cause, decode tys data = .error cause) ∧
    (∀ offset, .start offset ∈ (Noted.decode tys data).ops → offset + 32 < 2 ^ 64) ∧
    (∀ position available, .remainder position available ∈ (Noted.decode tys data).ops →
      position ≤ available) ∧
    (∀ width bs, .convert width bs ∈ (Noted.decode tys data).ops →
      (width = 20 ∨ width = 32) ∧ bs.length = width) ∧
    (∀ count, .types count ∈ (Noted.decode tys data).ops → count ≤ data.length / 32) ∧
    (∀ t, .value t ∈ (Noted.decode tys data).ops → t.Bounded data.length) ∧
    ∀ tokens, decode tys data = .ok tokens → ∀ t ∈ tokens, t.Bounded data.length := by
  obtain ⟨hsafe, hrefuses, hanswers⟩ := Noted.decode_sound tys data
  simp only [Noted.result_decode] at hrefuses hanswers
  exact ⟨Noted.result_decode tys data, fun _ h => hsafe _ h, fun _ _ h => hrefuses _ h,
    fun _ h => hrefuses _ h, fun _ h => hsafe _ h, fun _ _ h => hsafe _ h,
    fun _ _ h => hsafe _ h, fun _ h => hsafe _ h, fun _ h => hsafe _ h, hanswers⟩

set_option maxRecDepth 10000 in
/-- An array of 2^60 elements and a text of 2^64 - 1 bytes that are not there, and an address
in an array that is. -/
theorem sample_decoding_in_range :
    (∃ cause, decode [.array .address] (Bytes.bigEndian 32 32 ++ Bytes.bigEndian 32 (2 ^ 60)) =
      .error cause) ∧
    (∃ cause, decode [.string] (Bytes.bigEndian 32 32 ++ Bytes.bigEndian 32 (2 ^ 64 - 1)) =
      .error cause) ∧
    ∃ data, data.length = 96 ∧ decode [.array .address] data = .ok [.array [.address 7]] ∧
      32 * 0 < 2 ^ 64 ∧ 32 + 32 < 2 ^ 64 ∧ 64 ≤ 96 ∧ (Address.bytes 7).length = 20 ∧
      1 ≤ data.length / 32 ∧ (Token.address 7).Bounded data.length ∧
      (Token.array [.address 7]).Bounded data.length := by
  obtain ⟨-, -, -, hheads, -⟩ := decoding_stays_in_range [.array .address]
    (Bytes.bigEndian 32 32 ++ Bytes.bigEndian 32 (2 ^ 60))
  obtain ⟨-, -, hfinish, -⟩ := decoding_stays_in_range [.string]
    (Bytes.bigEndian 32 32 ++ Bytes.bigEndian 32 (2 ^ 64 - 1))
  obtain ⟨-, hplace, -, -, hstart, hremainder, hconvert, htypes, hvalue, htokens⟩ :=
    decoding_stays_in_range [.array .address] (encode [.array [.address 7]])
  refine ⟨hheads (2 ^ 60) ?_ (by decide), hfinish 64 (2 ^ 64 - 1) ?_ (by decide),
    encode [.array [.address 7]], rfl, rfl, hplace 0 ?_, hstart 32 ?_, hremainder 64 96 ?_,
    (hconvert 20 _ ?_).2, htypes 1 ?_, hvalue _ ?_, htokens _ rfl _ List.mem_cons_self⟩
  · exact List.mem_of_getElem? (i := 7) rfl
  · exact List.mem_of_getElem? (i := 6) rfl
  · exact List.mem_of_getElem? (i := 0) rfl
  · exact List.mem_of_getElem? (i := 5) rfl
  · exact List.mem_of_getElem? (i := 6) rfl
  · exact List.mem_of_getElem? (i := 14) rfl
  · exact List.mem_of_getElem? (i := 9) rfl
  · exact List.mem_of_getElem? (i := 15) rfl

end StakeGov.Abi
