import Mathlib.Data.List.Rotate
import StakeGov.Validators

/-!
# The turn goes round

As many heights in a row as there are validators have each validator's turn once, and one
height to the next the turn passes on in ascending order of address, from the last to the
first (`Snapshot.turn_goes_round`). Whose turn it is depends on who is in the set and on
nothing else of a snapshot, since a set is its members (`AddressSet.ext_mem`).
-/

namespace StakeGov

namespace AddressSet

variable {s t : AddressSet} {list : List Address} {a b : Address}

theorem ascending (s : AddressSet) : s.toList.Pairwise fun a b => a.toNat < b.toNat :=
  s.members.keys_ascending

@[simp] theorem mem_ofList : a ∈ (ofList list).toList ↔ a ∈ list := by
  simp [toList, ofList, Table.mem_keys_ofList]

theorem ext_mem (h : ∀ a, a ∈ s.toList ↔ a ∈ t.toList) : s = t := by
  obtain ⟨s⟩ := s
  obtain ⟨t⟩ := t
  refine congrArg mk (Table.ext_get? fun a => ?_)
  have ha : (s.get? a).isSome ↔ (t.get? a).isSome := by
    rw [← Table.mem_keys, ← Table.mem_keys]
    exact h a
  cases hs : s.get? a <;> cases ht : t.get? a <;> simp_all

/-- The next member in ascending order, which after the last is the first. -/
inductive Next (s : AddressSet) (a b : Address) : Prop where
  | step (hless : a.toNat < b.toNat)
      (hgap : ∀ c ∈ s.toList, c.toNat ≤ a.toNat ∨ b.toNat ≤ c.toNat)
  | wrap (hlast : ∀ c ∈ s.toList, c.toNat ≤ a.toNat)
      (hfirst : ∀ c ∈ s.toList, b.toNat ≤ c.toNat)

theorem toNat_le_of_places {i j : Nat} (ha : s.toList[i]? = some a) (hb : s.toList[j]? = some b)
    (h : i ≤ j) : a.toNat ≤ b.toNat := by
  obtain ⟨hi, rfl⟩ := List.getElem?_eq_some_iff.mp ha
  obtain ⟨hj, rfl⟩ := List.getElem?_eq_some_iff.mp hb
  rcases Nat.eq_or_lt_of_le h with rfl | hlt
  · exact Nat.le_refl _
  · exact Nat.le_of_lt (List.pairwise_iff_getElem.mp s.ascending i j hi hj hlt)

theorem next_of_places {i : Nat} (ha : s.toList[i]? = some a)
    (hb : s.toList[(i + 1) % s.toList.length]? = some b) : s.Next a b := by
  obtain ⟨hi, rfl⟩ := List.getElem?_eq_some_iff.mp ha
  rcases Nat.lt_or_eq_of_le (Nat.succ_le_of_lt hi) with hlater | hlast
  · rw [Nat.mod_eq_of_lt hlater] at hb
    obtain ⟨hj, rfl⟩ := List.getElem?_eq_some_iff.mp hb
    refine .step (List.pairwise_iff_getElem.mp s.ascending i _ hi hj i.lt_succ_self) ?_
    intro c hc
    obtain ⟨k, hk⟩ := List.mem_iff_getElem?.mp hc
    rcases Nat.lt_or_ge i k with h | h
    · exact .inr (toNat_le_of_places hb hk h)
    · exact .inl (toNat_le_of_places hk ha h)
  · rw [← hlast, Nat.mod_self] at hb
    refine .wrap ?last ?first
    all_goals
      intro c hc
      obtain ⟨k, hk⟩ := List.mem_iff_getElem?.mp hc
      obtain ⟨hlt, -⟩ := List.getElem?_eq_some_iff.mp hk
    case last => exact toNat_le_of_places hk ha (by omega)
    case first => exact toNat_le_of_places hb hk (Nat.zero_le k)

end AddressSet

namespace Snapshot

variable {s s' : Snapshot}

theorem turn_defined (hsome : 1 ≤ s.validators.size) (height : UInt64) :
    ∃ a, s.turn height = some a :=
  ⟨_, List.getElem?_eq_getElem (Nat.mod_lt _ hsome)⟩

theorem turns_eq_rotate {start : Nat} (hfits : start + s.validators.size ≤ UInt64.size) :
    (List.range s.validators.size).map (fun i => s.turn (UInt64.ofNat (start + i))) =
      (s.validators.toList.rotate start).map some := by
  apply List.ext_getElem?
  intro i
  rcases Nat.lt_or_ge i s.validators.size with hi | hi
  · have hheight : (UInt64.ofNat (start + i)).toNat = i + start := by
      rw [UInt64.toNat_ofNat_of_lt' (by omega), Nat.add_comm]
    have hrotate : (s.validators.toList.rotate start)[i]? = s.turn (UInt64.ofNat (start + i)) := by
      rw [List.getElem?_rotate hi, turn, hheight]
      rfl
    obtain ⟨a, ha⟩ := turn_defined (Nat.zero_lt_of_lt hi) (UInt64.ofNat (start + i))
    simp only [List.getElem?_map, List.getElem?_range hi, hrotate, ha, Option.map_some]
  · have hlength : s.validators.toList.length ≤ i := hi
    simp [hi, hlength]

theorem next_of_turns {height : UInt64} (hfits : height.toNat + 1 < UInt64.size) {a b : Address}
    (ha : s.turn height = some a) (hb : s.turn (height + 1) = some b) : s.validators.Next a b := by
  have hsucc : (height + 1).toNat = height.toNat + 1 := by
    rw [UInt64.toNat_add]
    exact Nat.mod_eq_of_lt hfits
  rw [turn, hsucc, ← Nat.mod_add_mod] at hb
  exact AddressSet.next_of_places ha hb

theorem turn_congr (h : ∀ a, a ∈ s.validators.toList ↔ a ∈ s'.validators.toList) :
    s.turn = s'.turn := by
  funext height
  rw [turn, turn, AddressSet.ext_mem h]

theorem turn_goes_round (s : Snapshot) (hsome : 1 ≤ s.validators.size) {start : Nat}
    (hfits : start + s.validators.size ≤ UInt64.size) :
    ((List.range s.validators.size).map fun i => s.turn (UInt64.ofNat (start + i))).Perm
        (s.validators.toList.map some) ∧
      (s.validators.toList.Pairwise fun a b => a.toNat < b.toNat) ∧
      (∀ height : UInt64, height.toNat + 1 < UInt64.size → ∃ a b,
        s.turn height = some a ∧ s.turn (height + 1) = some b ∧ s.validators.Next a b) ∧
      (∀ s' : Snapshot, (∀ a, a ∈ s.validators.toList ↔ a ∈ s'.validators.toList) →
        s.turn = s'.turn) ∧
      ∀ (list : List Address) (a : Address), a ∈ (AddressSet.ofList list).toList ↔ a ∈ list := by
  refine ⟨?_, s.validators.ascending, ?_, fun s' => turn_congr, fun _ _ => AddressSet.mem_ofList⟩
  · rw [turns_eq_rotate hfits]
    exact (List.rotate_perm _ _).map some
  · intro height hheight
    obtain ⟨a, ha⟩ := turn_defined hsome height
    obtain ⟨b, hb⟩ := turn_defined hsome (height + 1)
    exact ⟨a, b, ha, hb, next_of_turns hheight ha hb⟩

/-- Three validators at the last three heights there are, given in another order and one of
them twice. -/
theorem sample_turns_go_round :
    let s : Snapshot := { validators := .ofList [3, 1, 2] }
    [s.turn 18446744073709551613, s.turn 18446744073709551614, s.turn 18446744073709551615].Perm
        [some 1, some 2, some 3] ∧
      s.validators.Next 3 1 ∧
      s.turn = Snapshot.turn { number := 5, validators := .ofList [2, 3, 2, 1] } := by
  intro s
  have hset : s.validators.toList = [1, 2, 3] := by decide
  obtain ⟨hround, -, hnext, hcongr, hmem⟩ :=
    turn_goes_round s (by decide)
      (show 18446744073709551613 + s.validators.size ≤ UInt64.size by decide)
  refine ⟨?_, ?_, hcongr _ fun a => ?_⟩
  · rw [hset] at hround
    exact hround
  · obtain ⟨a, b, ha, hb, h⟩ := hnext 18446744073709551614 (by decide)
    have h3 : s.turn 18446744073709551614 = some 3 := by decide
    have h1 : s.turn 18446744073709551615 = some 1 := by decide
    cases h3.symm.trans ha
    cases h1.symm.trans hb
    exact h
  · rw [hmem, hmem]
    simp only [List.mem_cons, List.not_mem_nil, or_false]
    tauto

end Snapshot

end StakeGov
