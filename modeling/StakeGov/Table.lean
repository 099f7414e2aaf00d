import StakeGov.Word

/-!
# Tables

A finite map whose entries stand in ascending order of their keys, each key once.
What a table holds is what `get?` says: two tables that agree on every key are
equal.
-/

namespace StakeGov

/-- Keys ordered by a number that tells them apart. -/
class Ranked (κ : Type) where
  rank : κ → Nat
  rank_inj : ∀ {a b : κ}, rank a = rank b → a = b

export Ranked (rank)

instance : Ranked Nat := ⟨id, id⟩
instance : Ranked (BitVec w) := ⟨BitVec.toNat, BitVec.eq_of_toNat_eq⟩
instance : Ranked UInt64 := ⟨UInt64.toNat, UInt64.toNat_inj.mp⟩

structure Table (κ α : Type) [Ranked κ] where
  entries : List (κ × α)
  ascending : entries.Pairwise fun x y => rank x.1 < rank y.1

namespace Table

variable {κ α : Type} [Ranked κ]

theorem ext_entries {s t : Table κ α} (h : s.entries = t.entries) : s = t := by
  cases s; cases t; cases h; rfl

def empty : Table κ α := ⟨[], .nil⟩

instance : Inhabited (Table κ α) := ⟨empty⟩
instance : EmptyCollection (Table κ α) := ⟨empty⟩

def size (t : Table κ α) : Nat := t.entries.length

def keys (t : Table κ α) : List κ := t.entries.map Prod.fst

def values (t : Table κ α) : List α := t.entries.map Prod.snd

def lookup (k : κ) : List (κ × α) → Option α
  | [] => none
  | (k', v) :: rest => if rank k' = rank k then some v else lookup k rest

def get? (t : Table κ α) (k : κ) : Option α := lookup k t.entries

/-- Puts an entry in its place, instead of one with the same key. -/
def place (k : κ) (v : α) : List (κ × α) → List (κ × α)
  | [] => [(k, v)]
  | (k', v') :: rest =>
    if rank k < rank k' then (k, v) :: (k', v') :: rest
    else if rank k = rank k' then (k, v) :: rest
    else (k', v') :: place k v rest

theorem mem_place {k : κ} {v : α} {l : List (κ × α)} {x : κ × α} (h : x ∈ place k v l) :
    x = (k, v) ∨ x ∈ l := by
  induction l with
  | nil => simpa [place] using h
  | cons e rest ih =>
    obtain ⟨k', v'⟩ := e
    unfold place at h
    split at h
    · simpa using h
    · split at h
      · rcases List.mem_cons.mp h with h | h
        · exact .inl h
        · exact .inr (List.mem_cons_of_mem _ h)
      · rcases List.mem_cons.mp h with h | h
        · exact .inr (h ▸ List.mem_cons_self)
        · exact (ih h).imp id (List.mem_cons_of_mem _)

theorem place_ascending {k : κ} {v : α} {l : List (κ × α)}
    (h : l.Pairwise fun x y => rank x.1 < rank y.1) :
    (place k v l).Pairwise fun x y => rank x.1 < rank y.1 := by
  induction l with
  | nil => simp [place]
  | cons e rest ih =>
    obtain ⟨k', v'⟩ := e
    obtain ⟨hhead, htail⟩ := List.pairwise_cons.mp h
    unfold place
    split
    · rename_i hlt
      refine List.pairwise_cons.mpr ⟨fun x hx => ?_, h⟩
      rcases List.mem_cons.mp hx with rfl | hx
      · exact hlt
      · exact Nat.lt_trans hlt (hhead x hx)
    · split
      · rename_i heq
        exact List.pairwise_cons.mpr ⟨fun x hx => heq ▸ hhead x hx, htail⟩
      · rename_i hlt hne
        refine List.pairwise_cons.mpr ⟨fun x hx => ?_, ih htail⟩
        rcases mem_place hx with rfl | hx
        · simp only
          omega
        · exact hhead x hx

def insert (t : Table κ α) (k : κ) (v : α) : Table κ α :=
  ⟨place k v t.entries, place_ascending t.ascending⟩

/-- A later entry with the same key wins. -/
def ofList (l : List (κ × α)) : Table κ α :=
  l.foldl (fun t e => t.insert e.1 e.2) ∅

theorem lookup_place (k j : κ) (v : α) (l : List (κ × α)) :
    lookup j (place k v l) = if rank k = rank j then some v else lookup j l := by
  induction l with
  | nil => simp [place, lookup]
  | cons e rest ih =>
    obtain ⟨k', v'⟩ := e
    unfold place
    split
    · simp [lookup]
    · split
      · rename_i heq
        by_cases hj : rank k = rank j
        · simp [lookup, hj]
        · have : rank k' ≠ rank j := heq ▸ hj
          simp [lookup, hj, this]
      · rename_i hne
        by_cases hj : rank k' = rank j
        · have : rank k ≠ rank j := fun h => hne (h.trans hj.symm)
          simp [lookup, hj, this]
        · simp [lookup, hj, ih]

@[simp] theorem get?_empty (k : κ) : (∅ : Table κ α).get? k = none := rfl

theorem get?_insert (t : Table κ α) (k j : κ) (v : α) :
    (t.insert k v).get? j = if rank k = rank j then some v else t.get? j :=
  lookup_place k j v t.entries

theorem lookup_eq_none {k : κ} {l : List (κ × α)} (h : ∀ x ∈ l, rank k < rank x.1) :
    lookup k l = none := by
  induction l with
  | nil => rfl
  | cons e rest ih =>
    obtain ⟨k', v'⟩ := e
    have hne : rank k' ≠ rank k := Nat.ne_of_gt (h (k', v') List.mem_cons_self)
    simp [lookup, hne, ih fun x hx => h x (List.mem_cons_of_mem _ hx)]

theorem eq_of_lookup {l m : List (κ × α)} (hl : l.Pairwise fun x y => rank x.1 < rank y.1)
    (hm : m.Pairwise fun x y => rank x.1 < rank y.1) (h : ∀ k, lookup k l = lookup k m) :
    l = m := by
  induction l generalizing m with
  | nil =>
    cases m with
    | nil => rfl
    | cons y ys => simpa [lookup] using h y.1
  | cons x xs ih =>
    cases m with
    | nil => simpa [lookup] using h x.1
    | cons y ys =>
      obtain ⟨hx, hxs⟩ := List.pairwise_cons.mp hl
      obtain ⟨hy, hys⟩ := List.pairwise_cons.mp hm
      have hxy : rank x.1 = rank y.1 := by
        rcases Nat.lt_trichotomy (rank x.1) (rank y.1) with hlt | heq | hgt
        · have := lookup_eq_none (k := x.1) (l := y :: ys) fun z hz => by
            rcases List.mem_cons.mp hz with rfl | hz
            · exact hlt
            · exact Nat.lt_trans hlt (hy z hz)
          rw [← h, lookup, if_pos rfl] at this
          cases this
        · exact heq
        · have := lookup_eq_none (k := y.1) (l := x :: xs) fun z hz => by
            rcases List.mem_cons.mp hz with rfl | hz
            · exact hgt
            · exact Nat.lt_trans hgt (hx z hz)
          rw [h, lookup, if_pos rfl] at this
          cases this
      have hhead : x = y := by
        have := h x.1
        simp only [lookup, hxy, if_true, Option.some.injEq] at this
        exact Prod.ext (Ranked.rank_inj hxy) this
      subst hhead
      refine congrArg _ (ih hxs hys fun k => ?_)
      by_cases hk : rank x.1 = rank k
      · rw [lookup_eq_none fun z hz => hk ▸ hx z hz, lookup_eq_none fun z hz => hk ▸ hy z hz]
      · simpa [lookup, hk] using h k

theorem ext_get? {s t : Table κ α} (h : ∀ k, s.get? k = t.get? k) : s = t :=
  ext_entries (eq_of_lookup s.ascending t.ascending h)

-- ---------------------------------------------------------------------------
-- Keys and entries
-- ---------------------------------------------------------------------------

theorem get?_insert_of [DecidableEq κ] (t : Table κ α) (k j : κ) (v : α) :
    (t.insert k v).get? j = if k = j then some v else t.get? j := by
  rw [get?_insert]
  by_cases h : k = j
  · simp [h]
  · rw [if_neg h, if_neg fun hrank => h (Ranked.rank_inj hrank)]

theorem mem_keys {t : Table κ α} {k : κ} : k ∈ t.keys ↔ (t.get? k).isSome := by
  unfold keys get?
  induction t.entries with
  | nil => simp [lookup]
  | cons e rest ih =>
    rw [List.map_cons, List.mem_cons, ih, lookup]
    split
    · rename_i h
      exact iff_of_true (.inl (Ranked.rank_inj h).symm) rfl
    · rename_i h
      exact or_iff_right fun heq => h (heq ▸ rfl)

theorem mem_entries {t : Table κ α} {k : κ} {v : α} : (k, v) ∈ t.entries ↔ t.get? k = some v := by
  obtain ⟨entries, hascending⟩ := t
  change (k, v) ∈ entries ↔ lookup k entries = some v
  induction entries with
  | nil => simp [lookup]
  | cons e rest ih =>
    obtain ⟨hhead, htail⟩ := List.pairwise_cons.mp hascending
    rw [List.mem_cons, lookup]
    split
    · rename_i h
      have hlater : (k, v) ∉ rest := fun hmem => Nat.ne_of_lt (hhead _ hmem) h
      rw [or_iff_left hlater, Option.some.injEq, Prod.mk.injEq]
      exact ⟨fun heq => heq.2.symm, fun heq => ⟨(Ranked.rank_inj h).symm, heq.symm⟩⟩
    · rename_i h
      rw [ih htail]
      exact or_iff_right fun heq => h (heq ▸ rfl)

theorem mem_keys_insert {t : Table κ α} {k j : κ} {v : α} :
    j ∈ (t.insert k v).keys ↔ j = k ∨ j ∈ t.keys := by
  rw [mem_keys, mem_keys, get?_insert]
  by_cases h : rank k = rank j
  · simp [Ranked.rank_inj h]
  · have hne : j ≠ k := fun hjk => h (hjk ▸ rfl)
    simp [h, hne]

theorem mem_keys_ofList {l : List (κ × α)} {k : κ} :
    k ∈ (ofList l).keys ↔ k ∈ l.map Prod.fst := by
  have hfold : ∀ t : Table κ α, k ∈ (l.foldl (fun t e => t.insert e.1 e.2) t).keys ↔
      k ∈ l.map Prod.fst ∨ k ∈ t.keys := by
    induction l with
    | nil => simp
    | cons e l ih =>
      intro t
      simp [ih, mem_keys_insert, or_left_comm, or_assoc]
  exact (hfold ∅).trans (or_iff_left List.not_mem_nil)

theorem keys_ascending (t : Table κ α) : t.keys.Pairwise fun a b => rank a < rank b :=
  List.pairwise_map.mpr t.ascending

end Table

end StakeGov
