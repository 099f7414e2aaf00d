import StakeGov.Proofs.TypedRows

/-!
# The layout of a row

The layout that contracts read, written down as a relation (`Row`, `Tail`): all heads, then
all tails, and as the head of a value that needs a tail the number of bytes in front of this
tail. No position is counted along; each is the length of what stands before it. The form of
a row is the one byte string that is laid out in this way, and so is the form of each row
inside it (`encode_layout`).
-/

namespace StakeGov.Abi

/-- Arrays are nested to any depth, so what holds of an array is shown from its items. -/
theorem Token.induct {P : Token → Prop} (address : ∀ a, P (.address a)) (uint : ∀ v, P (.uint v))
    (bool : ∀ b, P (.bool b)) (bytes32 : ∀ w, P (.bytes32 w)) (bytes : ∀ bs, P (.bytes bs))
    (string : ∀ s, P (.string s))
    (array : ∀ items, (∀ item ∈ items, P item) → P (.array items)) (t : Token) : P t :=
  Token.rec (motive_2 := fun items => ∀ item ∈ items, P item) address uint bool bytes32 bytes
    string array (fun _ h => nomatch h)
    (fun _ _ hitem hitems => List.forall_mem_cons.mpr ⟨hitem, hitems⟩) t

-- ---------------------------------------------------------------------------
-- The layout
-- ---------------------------------------------------------------------------

structure Numeral (word : Bytes) (n : Nat) : Prop where
  length : word.length = 32
  value : Bytes.toNat word = n

/-- The bytes are filled up with zeros to whole words, and no further. -/
def Padded (bytes padded : Bytes) : Prop :=
  32 ∣ padded.length ∧ ∃ n < 32, padded = bytes ++ Bytes.zeros n

def Token.isDynamic : Token → Bool
  | .bytes _ | .string _ | .array _ => true
  | .address _ | .uint _ | .bool _ | .bytes32 _ => false

/-- The head of a value whose tail, if it has one, starts at the given place. -/
inductive Head (start : Nat) : Token → Bytes → Prop where
  | address {a : Address} {word : Bytes} (h : Numeral word a.toNat) : Head start (.address a) word
  | uint {v : Word} {word : Bytes} (h : Numeral word v.toNat) : Head start (.uint v) word
  | bool {b : Bool} {word : Bytes} (h : Numeral word b.toNat) : Head start (.bool b) word
  | bytes32 (w : Word) : Head start (.bytes32 w) w.bytes
  | offset {t : Token} {word : Bytes} (hdynamic : t.isDynamic) (h : Numeral word start) :
      Head start t word

mutual

inductive Tail : Token → Bytes → Prop where
  | static {t : Token} (h : t.isDynamic = false) : Tail t []
  | bytes {bs length padded : Bytes} (hlength : Numeral length bs.length)
      (hpadded : Padded bs padded) : Tail (.bytes bs) (length ++ padded)
  | string {s : String} {length padded : Bytes}
      (hlength : Numeral length (Bytes.ofText s).length)
      (hpadded : Padded (Bytes.ofText s) padded) : Tail (.string s) (length ++ padded)
  | array {items : List Token} {count row : Bytes} (hcount : Numeral count items.length)
      (hrow : Row items row) : Tail (.array items) (count ++ row)

/-- Each tail starts behind all heads and the tails before it. -/
inductive Row : List Token → Bytes → Prop where
  | of {tokens : List Token} {heads tails : List Bytes} (hheads : heads.length = tokens.length)
      (htails : tails.length = tokens.length)
      (head : ∀ (i : Nat) (t : Token) (word : Bytes), tokens[i]? = some t →
        heads[i]? = some word → Head (32 * tokens.length + (tails.take i).flatten.length) t word)
      (tail : ∀ (i : Nat) (t : Token) (bytes : Bytes), tokens[i]? = some t →
        tails[i]? = some bytes → Tail t bytes) :
      Row tokens (heads.flatten ++ tails.flatten)

end

/-- The rows inside a row: the items of its arrays, and the rows inside these. -/
inductive Within (tokens : List Token) : List Token → Prop where
  | self : Within tokens tokens
  | items {row items : List Token} (h : Within tokens row) (hmem : Token.array items ∈ row) :
      Within tokens items

-- ---------------------------------------------------------------------------
-- Words
-- ---------------------------------------------------------------------------

theorem Numeral.of_lt {n : Nat} (h : n < 2 ^ 256) : Numeral (Bytes.bigEndian 32 n) n := by
  refine ⟨Bytes.length_bigEndian 32 n, ?_⟩
  rw [Bytes.toNat_bigEndian]
  exact Nat.mod_eq_of_lt h

theorem Numeral.eq_bigEndian {word : Bytes} {n : Nat} (h : Numeral word n) :
    word = Bytes.bigEndian 32 n := by
  rw [← h.value, ← h.length, Bytes.bigEndian_toNat]

theorem Numeral.unique {word word' : Bytes} {n : Nat} (h : Numeral word n)
    (h' : Numeral word' n) : word = word' :=
  h.eq_bigEndian.trans h'.eq_bigEndian.symm

theorem numeral_address (a : Address) : Numeral (Bytes.zeros 12 ++ Address.bytes a) a.toNat := by
  have ha : a.toNat < 256 ^ 20 := a.isLt
  refine ⟨?_, ?_⟩
  · rw [List.length_append, Bytes.length_zeros, Address.bytes, Bytes.length_bigEndian]
  · rw [Bytes.toNat_zeros_append, Address.bytes, Bytes.toNat_bigEndian, Nat.mod_eq_of_lt ha]

theorem padded_iff {bytes padded : Bytes} :
    Padded bytes padded ↔ padded = bytes ++ Bytes.zeros ((32 - bytes.length % 32) % 32) := by
  constructor
  · rintro ⟨hwhole, n, hn, rfl⟩
    rw [List.length_append, Bytes.length_zeros] at hwhole
    rw [show (32 - bytes.length % 32) % 32 = n by omega]
  · rintro rfl
    refine ⟨?_, _, Nat.mod_lt _ (by decide), rfl⟩
    rw [List.length_append, Bytes.length_zeros]
    omega

theorem counted_eq (bs : Bytes) :
    counted bs = Bytes.bigEndian 32 bs.length ++
      (bs ++ Bytes.zeros ((32 - bs.length % 32) % 32)) := by
  rw [counted, List.append_assoc]

theorem head_part (t : Token) {start : Nat} (h : start < 2 ^ 256) :
    Head start t (t.part.head start) := by
  cases t with
  | address a => exact .address (numeral_address a)
  | uint v => exact .uint (.of_lt v.isLt)
  | bool b => exact .bool (.of_lt (Nat.lt_trans (Bool.toNat_lt b) (by decide)))
  | bytes32 w => exact .bytes32 w
  | bytes | string | array => exact .offset rfl (.of_lt h)

theorem Head.eq {t : Token} {start : Nat} {word : Bytes} (h : Head start t word) :
    word = t.part.head start := by
  cases h with
  | address h => exact h.unique (numeral_address _)
  | uint h => exact h.eq_bigEndian
  | bool h => exact h.eq_bigEndian
  | bytes32 w => rfl
  | offset hdynamic h =>
    cases t with
    | bytes | string | array => exact h.eq_bigEndian
    | address | uint | bool | bytes32 => cases hdynamic

-- ---------------------------------------------------------------------------
-- Rows
-- ---------------------------------------------------------------------------

def rowTails (tokens : List Token) : List Bytes :=
  tokens.map fun t => t.part.tail

@[simp] theorem length_rowTails (tokens : List Token) :
    (rowTails tokens).length = tokens.length := by
  rw [rowTails, List.length_map]

theorem getElem?_rowTails (tokens : List Token) (i : Nat) :
    (rowTails tokens)[i]? = tokens[i]?.map fun t => t.part.tail :=
  List.getElem?_map

theorem flatMap_tail_parts (tokens : List Token) :
    (parts tokens).flatMap Part.tail = (rowTails tokens).flatten := by
  rw [parts_eq_map, List.flatMap_map, List.flatMap_def]
  rfl

theorem heads_parts (start : Nat) (tokens : List Token) :
    heads start (parts tokens) =
      (tokens.mapIdx fun i t =>
        t.part.head (start + ((rowTails tokens).take i).flatten.length)).flatten := by
  induction tokens generalizing start with
  | nil => rfl
  | cons t tokens ih =>
    rw [parts, heads_cons, List.mapIdx_cons, List.flatten_cons, ih]
    simp only [rowTails, List.map_cons, List.take_zero, List.flatten_nil, List.length_nil,
      Nat.add_zero, List.take_succ_cons, List.flatten_cons, List.length_append, Nat.add_assoc]

theorem encode_eq_flatten (tokens : List Token) :
    encode tokens =
      (tokens.mapIdx fun i t =>
        t.part.head (32 * tokens.length + ((rowTails tokens).take i).flatten.length)).flatten ++
        (rowTails tokens).flatten := by
  rw [encode, layout, heads_parts, flatMap_tail_parts, length_parts]

theorem length_encode (tokens : List Token) :
    (encode tokens).length = 32 * tokens.length + (rowTails tokens).flatten.length := by
  rw [encode, layout, List.length_append, length_heads _ (parts_narrow tokens), length_parts,
    flatMap_tail_parts]

theorem length_take_rowTails_le (tokens : List Token) (i : Nat) :
    ((rowTails tokens).take i).flatten.length ≤ (rowTails tokens).flatten.length := by
  nth_rewrite 2 [← List.take_append_drop i (rowTails tokens)]
  rw [List.flatten_append, List.length_append]
  exact Nat.le_add_right _ _

theorem length_tail_le {t : Token} {tokens : List Token} (h : t ∈ tokens) :
    t.part.tail.length ≤ (rowTails tokens).flatten.length := by
  have hmem : t.part.tail ∈ rowTails tokens := List.mem_map_of_mem h
  exact (List.sublist_flatten_of_mem hmem).length_le

section
variable {tokens : List Token}

theorem row_encode (htails : ∀ t ∈ tokens, Tail t t.part.tail)
    (hshort : (encode tokens).length < 2 ^ 64) : Row tokens (encode tokens) := by
  rw [length_encode] at hshort
  rw [encode_eq_flatten]
  refine .of List.length_mapIdx (length_rowTails tokens) ?_ ?_
  · intro i t word ht hword
    rw [List.getElem?_mapIdx, ht] at hword
    cases hword
    have hbefore := length_take_rowTails_le tokens i
    exact head_part t (by omega)
  · intro i t bytes ht hbytes
    rw [getElem?_rowTails, ht] at hbytes
    cases hbytes
    exact htails t (List.mem_of_getElem? ht)

/-- Nothing else is laid out as a row if nothing else is as the tails. -/
theorem Row.eq_of_tails {bytes : Bytes} (htails : ∀ t ∈ tokens, ∀ b, Tail t b → b = t.part.tail)
    (h : Row tokens bytes) : bytes = encode tokens := by
  cases h with
  | @of _ heads tails hheads htaillength head tail =>
    obtain rfl : tails = rowTails tokens := by
      refine List.ext_getElem (htaillength.trans (length_rowTails tokens).symm) fun i hi hi' => ?_
      have ht := List.getElem?_eq_getElem (htaillength ▸ hi)
      have htail := tail i _ _ ht (List.getElem?_eq_getElem hi)
      rw [htails _ (List.mem_of_getElem? ht) _ htail]
      simp only [rowTails, List.getElem_map]
    rw [encode_eq_flatten]
    congr 2
    refine List.ext_getElem (by rw [hheads, List.length_mapIdx]) fun i hi hi' => ?_
    have ht := List.getElem?_eq_getElem (hheads ▸ hi)
    rw [(head i _ _ ht (List.getElem?_eq_getElem hi)).eq, List.getElem_mapIdx]

end

-- ---------------------------------------------------------------------------
-- All depths
-- ---------------------------------------------------------------------------

theorem tail_part (t : Token) (h : t.part.tail.length < 2 ^ 64) : Tail t t.part.tail := by
  have hword : ∀ {n : Nat}, n < 2 ^ 64 → Numeral (Bytes.bigEndian 32 n) n :=
    fun hn => .of_lt (Nat.lt_trans hn (by decide))
  induction t using Token.induct with
  | address | uint | bool | bytes32 => exact .static rfl
  | bytes bs =>
    rw [Token.part, Part.tail, length_counted] at h
    rw [Token.part, Part.tail, counted_eq]
    exact .bytes (hword (by omega)) (padded_iff.mpr rfl)
  | string s =>
    rw [Token.part, Part.tail, length_counted] at h
    rw [Token.part, Part.tail, counted_eq]
    exact .string (hword (by omega)) (padded_iff.mpr rfl)
  | array items ih =>
    rw [Token.part, Part.tail, List.length_append, Bytes.length_bigEndian, ← encode] at h
    rw [Token.part, Part.tail, ← encode]
    have hrow : (encode items).length < 2 ^ 64 := by omega
    have hlength := length_encode items
    refine .array (hword (by omega)) (row_encode (fun item hitem => ih item hitem ?_) hrow)
    have := length_tail_le hitem
    omega

theorem Tail.eq {t : Token} {bytes : Bytes} (h : Tail t bytes) : bytes = t.part.tail := by
  induction t using Token.induct generalizing bytes with
  | address | uint | bool | bytes32 =>
    cases h
    rfl
  | bytes bs =>
    cases h with
    | static h => cases h
    | bytes hlength hpadded =>
      rw [hlength.eq_bigEndian, padded_iff.mp hpadded, ← counted_eq]
      rfl
  | string s =>
    cases h with
    | static h => cases h
    | string hlength hpadded =>
      rw [hlength.eq_bigEndian, padded_iff.mp hpadded, ← counted_eq]
      rfl
  | array items ih =>
    cases h with
    | static h => cases h
    | array hcount hrow =>
      rw [hcount.eq_bigEndian, hrow.eq_of_tails fun item hitem b => ih item hitem]
      rfl

theorem whole_words_flatten {rows : List Bytes} (h : ∀ bytes ∈ rows, 32 ∣ bytes.length) :
    32 ∣ rows.flatten.length := by
  induction rows with
  | nil => exact Nat.dvd_zero 32
  | cons bytes rows ih =>
    obtain ⟨hbytes, hrows⟩ := List.forall_mem_cons.mp h
    rw [List.flatten_cons, List.length_append]
    exact Nat.dvd_add hbytes (ih hrows)

theorem whole_words_encode_of_tails {tokens : List Token}
    (h : ∀ t ∈ tokens, 32 ∣ t.part.tail.length) : 32 ∣ (encode tokens).length := by
  rw [length_encode]
  exact Nat.dvd_add (Nat.dvd_mul_right 32 _) (whole_words_flatten (List.forall_mem_map.mpr h))

theorem whole_words_tail (t : Token) : 32 ∣ t.part.tail.length := by
  induction t using Token.induct with
  | address | uint | bool | bytes32 => exact Nat.dvd_zero 32
  | bytes | string =>
    rw [Token.part, Part.tail, length_counted]
    omega
  | array items ih =>
    rw [Token.part, Part.tail, List.length_append, Bytes.length_bigEndian]
    exact Nat.dvd_add (Nat.dvd_refl 32) (whole_words_encode_of_tails ih)

theorem whole_words_encode (tokens : List Token) : 32 ∣ (encode tokens).length :=
  whole_words_encode_of_tails fun t _ => whole_words_tail t

theorem Within.length_le {tokens row : List Token} (h : Within tokens row) :
    (encode row).length ≤ (encode tokens).length := by
  induction h with
  | self => exact Nat.le_refl _
  | @items row items _ hmem ih =>
    have htail := length_tail_le hmem
    rw [Token.part, Part.tail, List.length_append, ← encode] at htail
    have hrow := length_encode row
    omega

theorem part_of_dynamic {t : Token} (h : t.isDynamic) : t.part = .behind t.part.tail := by
  cases t with
  | bytes | string | array => rfl
  | address | uint | bool | bytes32 => cases h

theorem offset_at_tail {tokens : List Token} (hshort : (encode tokens).length < 2 ^ 64)
    {i : Nat} {t : Token} (ht : tokens[i]? = some t) (hdynamic : t.isDynamic) :
    ∃ offset, readPosition (encode tokens) (32 * i) = .ok offset ∧
      t.part.tail <+: (encode tokens).drop offset := by
  obtain ⟨hi, rfl⟩ := List.getElem?_eq_some_iff.mp ht
  have hsplit : tokens = tokens.take i ++ tokens[i] :: tokens.drop (i + 1) := by
    rw [← List.drop_eq_getElem_cons hi, List.take_append_drop]
  have hform : encode tokens = layout (parts (tokens.take i) ++
      .behind tokens[i].part.tail :: parts (tokens.drop (i + 1))) ++ [] := by
    rw [← part_of_dynamic hdynamic, ← encode_split, ← hsplit]
  have hstart : tailStart (parts (tokens.take i) ++
      .behind tokens[i].part.tail :: parts (tokens.drop (i + 1))).length
        (parts (tokens.take i)) < positionBound := by
    have hbefore := length_take_rowTails_le tokens i
    rw [length_encode] at hshort
    rw [← part_of_dynamic hdynamic, ← parts_split, ← hsplit, tailStart, length_parts,
      flatMap_tail_parts, rowTails, List.map_take]
    exact Nat.lt_of_le_of_lt (Nat.add_le_add_left hbefore _) hshort
  obtain ⟨pre, hpre, hdata, hhead⟩ := tail_at_head tokens[i].part.tail
    (parts_narrow (tokens.take i)) (parts_narrow (tokens.drop (i + 1))) [] hstart
  rw [← hform, length_parts, List.length_take_of_le (Nat.le_of_lt hi)] at hhead
  refine ⟨pre.length, hhead, ?_⟩
  rw [hform, hdata, List.drop_left' rfl]
  exact List.prefix_append _ _

/-- The form of a row is what is laid out as this row, and nothing else is. In it and in all
rows inside it, whatever the depth, there are whole words only, and each offset is that of
the tail. -/
theorem encode_layout {tokens : List Token} (hshort : (encode tokens).length < 2 ^ 64) :
    (∀ bytes, Row tokens bytes ↔ bytes = encode tokens) ∧
    ∀ row, Within tokens row → 32 ∣ (encode row).length ∧
      ∀ i t, row[i]? = some t → t.isDynamic → ∃ offset tail,
        readPosition (encode row) (32 * i) = .ok offset ∧ Tail t tail ∧
          tail <+: (encode row).drop offset := by
  have htails : ∀ row, (encode row).length < 2 ^ 64 → ∀ t ∈ row, Tail t t.part.tail := by
    intro row hrow t ht
    have htail := length_tail_le ht
    rw [length_encode] at hrow
    exact tail_part t (by omega)
  constructor
  · intro bytes
    constructor
    · exact fun h => h.eq_of_tails fun t _ b hb => hb.eq
    · rintro rfl
      exact row_encode (htails tokens hshort) hshort
  · intro row hrow
    have hrowshort := Nat.lt_of_le_of_lt hrow.length_le hshort
    refine ⟨whole_words_encode row, fun i t ht hdynamic => ?_⟩
    obtain ⟨offset, hread, hprefix⟩ := offset_at_tail hrowshort ht hdynamic
    exact ⟨offset, _, hread, htails row hrowshort t (List.mem_of_getElem? ht), hprefix⟩

set_option maxRecDepth 10000 in
/-- A text in an array: one offset from the start of the row, one from behind the count. -/
theorem sample_text_layout :
    Row [.uint 7, .array [.string "ab"]]
      (Bytes.bigEndian 32 7 ++ (Bytes.bigEndian 32 64 ++ (Bytes.bigEndian 32 1 ++
        (Bytes.bigEndian 32 32 ++ (Bytes.bigEndian 32 2 ++ ([0x61, 0x62] ++ Bytes.zeros 30)))))) ∧
    ∃ offset tail, readPosition (encode [.string "ab"]) 0 = .ok offset ∧
      Tail (.string "ab") tail ∧ tail <+: (encode [.string "ab"]).drop offset := by
  have hshort : (encode [.uint 7, .array [.string "ab"]]).length < 2 ^ 64 := by decide +kernel
  obtain ⟨hrow, hinside⟩ := encode_layout hshort
  have hwithin : Within [.uint 7, .array [.string "ab"]] [.string "ab"] :=
    .items .self (List.mem_cons_of_mem _ List.mem_cons_self)
  exact ⟨(hrow _).mpr rfl, (hinside _ hwithin).2 0 _ rfl rfl⟩

end StakeGov.Abi
