import StakeGov.Proofs.Ancestry
import StakeGov.Proofs.LookupRuns

/-!
# Contract reads along a chain

An engine that follows a chain reads a part of the policy once for the first block, and then
once for each block above it whose parent's ledger was written to since before the parent
(`reads_along_chain`). What carries the count is that the entry for the block visited last is
there (`UpTo.found`) and no entry for a block above it is (`UpTo.above`): however small the
cache, the entry that the next block looks back to has just been used.
-/

namespace StakeGov

-- ---------------------------------------------------------------------------
-- Linked headers
-- ---------------------------------------------------------------------------

namespace Header

def OnTopOf (h parent : Header) : Prop :=
  h.parentHash = parent.hash ∧ h.number.toNat = parent.number.toNat + 1

def Linked (headers : List Header) : Prop :=
  headers.IsChain fun parent h => h.OnTopOf parent

variable {h next : Header} {above : List Header}

theorem linked_cons : Linked (h :: next :: above) ↔ next.OnTopOf h ∧ Linked (next :: above) :=
  List.isChain_cons_cons

theorem Linked.lt (hlinked : Linked (h :: above)) :
    ∀ g ∈ above, h.number.toNat < g.number.toNat := by
  induction above generalizing h with
  | nil => simp
  | cons next above ih =>
    obtain ⟨⟨-, hnumber⟩, hrest⟩ := linked_cons.mp hlinked
    intro g hg
    rcases List.mem_cons.mp hg with rfl | hg
    · omega
    · have hlt := ih hrest g hg
      omega

end Header

-- ---------------------------------------------------------------------------
-- Looking back
-- ---------------------------------------------------------------------------

/-- The part was written to at the parent of the block or later. -/
def Header.WrittenSince (updated : Header → UInt64) (h : Header) : Prop :=
  h.number.toNat - 1 ≤ (updated h).toNat

instance (updated : Header → UInt64) : DecidablePred (Header.WrittenSince updated) :=
  fun _ => inferInstanceAs (Decidable (_ ≤ _))

theorem Visit.lookback_of_found {v : Visit} {e : Engine} {kind : PolicyKind} {parent : Header}
    {updated : Header → UInt64} {cache : Cache kind.Value} {value : kind.Value}
    (htop : v.header.OnTopOf parent) (hholds : v.chain.Holds parent)
    (hrecorded : kind.part.updated v.ledger = updated v.header)
    (hfound : cache.peek? parent.parentHash = some value) :
    kind.part.lookback? (v.context e) v.ledger cache =
      if v.header.WrittenSince updated then none else some value := by
  obtain ⟨hhash, hnumber⟩ := htop
  have hone : (1 : UInt64) ≤ v.header.number := UInt64.le_iff_toNat_le.mpr (by
    rw [hnumber]
    exact Nat.le_add_left 1 _)
  have hpred : v.header.number - 1 = parent.number := by
    apply UInt64.toNat_inj.mp
    rw [UInt64.toNat_sub_of_le _ _ hone, hnumber]
    exact Nat.add_sub_cancel _ 1
  have hstored : v.chain.header v.header.parentHash (v.header.number - 1) = some parent := by
    rw [hhash, hpred]
    exact hholds
  have hguard : (2 ≤ v.header.number ∧ saturatingSucc (updated v.header) < v.header.number) ↔
      ¬ v.header.WrittenSince updated := by
    have hlt := v.header.number.toNat_lt
    have hsize : UInt64.size = 2 ^ 64 := rfl
    have htwo : (2 : UInt64).toNat = 2 := rfl
    rw [UInt64.le_iff_toNat_le, UInt64.lt_iff_toNat_lt, toNat_saturatingSucc,
      Header.WrittenSince]
    omega
  change (do
    guard (2 ≤ v.header.number ∧ saturatingSucc (kind.part.updated v.ledger) < v.header.number)
    let parent ← v.chain.header v.header.parentHash (v.header.number - 1)
    cache.peek? parent.parentHash) = _
  rw [hstored, hrecorded]
  by_cases hwritten : v.header.WrittenSince updated
  · rw [if_pos hwritten, guard, if_neg (mt hguard.mp (not_not_intro hwritten))]
    rfl
  · rw [if_neg hwritten, guard, if_pos (hguard.mpr hwritten)]
    exact hfound

theorem PolicyPart.lookback_of_nothing {α : Type} {part : PolicyPart α} {ctx : BlockContext}
    {ledger : Ledger} {cache : Cache α} (h : ∀ k, cache.peek? k = none) :
    part.lookback? ctx ledger cache = none := by
  simp only [lookback?, h, Option.bind_eq_bind, Option.bind_fun_none]

-- ---------------------------------------------------------------------------
-- Visiting a run of blocks
-- ---------------------------------------------------------------------------

/-- What a cache holds when a block was the last to be visited. -/
structure UpTo (c : Cache α) (h : Header) (above : List Header) : Prop where
  capacity : 0 < c.capacity
  found : ∃ value, c.peek? h.parentHash = some value
  above : ∀ g ∈ above, c.peek? g.parentHash = none

namespace UpTo

variable {c : Cache α} {h next : Header} {above : List Header}

theorem touch (hup : UpTo c h above) (k : Hash) : UpTo (c.touch k) h above where
  capacity := by simpa only [Cache.capacity_touch] using hup.capacity
  found := by simpa only [Cache.peek?_touch] using hup.found
  above := by simpa only [Cache.peek?_touch] using hup.above

theorem put (hcapacity : 0 < c.capacity) (habove : ∀ g ∈ above, c.peek? g.parentHash = none)
    (hfresh : h.parentHash ∉ above.map Header.parentHash) (value : α) :
    UpTo (c.put h.parentHash value) h above where
  capacity := hcapacity
  found := ⟨value, Cache.peek?_put_self hcapacity⟩
  above g hg :=
    Cache.peek?_put_none (fun heq => hfresh (heq ▸ List.mem_map_of_mem hg)) (habove g hg)

end UpTo

theorem Header.Linked.first_visited {h : Header} {above : List Header} {v : Visit}
    {visits : List Visit} (hlinked : Header.Linked (h :: above)) (hv : v.header ∈ h :: above)
    (hvisited : ∃ w ∈ v :: visits, w.header = h)
    (hascending : (v :: visits).Pairwise fun v w => v.header.number ≤ w.header.number) :
    v.header = h := by
  refine (List.mem_cons.mp hv).resolve_right fun habove => ?_
  obtain ⟨w, hw, rfl⟩ := hvisited
  have hle : v.header.number ≤ w.header.number := by
    rcases List.mem_cons.mp hw with rfl | hw
    · exact UInt64.le_refl _
    · exact (List.pairwise_cons.mp hascending).1 w hw
  exact absurd (hlinked.lt _ habove) (Nat.not_lt.mpr (UInt64.le_iff_toNat_le.mp hle))

/-- Visits to a block and to all of those above it, from the lowest to the highest, as often
as one likes. The headers below the one visited are stored, and the ledgers passed record
the heights of the last changes. -/
structure Tour (kind : PolicyKind) (updated : Header → UInt64) (h : Header)
    (above : List Header) (visits : List Visit) : Prop where
  linked : Header.Linked (h :: above)
  parents : ((h :: above).map Header.parentHash).Nodup
  within : ∀ v ∈ visits, v.header ∈ h :: above
  every : ∀ g ∈ above, ∃ v ∈ visits, v.header = g
  ascending : visits.Pairwise fun v w => v.header.number ≤ w.header.number
  stored : ∀ v ∈ visits, ∀ g ∈ h :: above, g.number < v.header.number → v.chain.Holds g
  recorded : ∀ v ∈ visits, kind.part.updated v.ledger = updated v.header

namespace Tour

variable {kind : PolicyKind} {updated : Header → UInt64} {h : Header} {above : List Header}
variable {v : Visit} {visits : List Visit} {e : Engine} {caches : PolicyCaches}

theorem visited_later {g : Header} (hbelow : v.header.number.toNat < g.number.toNat)
    (hvisited : ∃ w ∈ v :: visits, w.header = g) : ∃ w ∈ visits, w.header = g := by
  obtain ⟨w, hw, rfl⟩ := hvisited
  rcases List.mem_cons.mp hw with rfl | hw
  · exact absurd hbelow (Nat.lt_irrefl _)
  · exact ⟨w, hw, rfl⟩

theorem stay (ht : Tour kind updated h above (v :: visits)) (hv : v.header = h) :
    Tour kind updated h above visits where
  linked := ht.linked
  parents := ht.parents
  within w hw := ht.within w (List.mem_cons_of_mem v hw)
  every g hg := visited_later (hv ▸ ht.linked.lt g hg) (ht.every g hg)
  ascending := (List.pairwise_cons.mp ht.ascending).2
  stored w hw := ht.stored w (List.mem_cons_of_mem v hw)
  recorded w hw := ht.recorded w (List.mem_cons_of_mem v hw)

theorem climb (ht : Tour kind updated h above (v :: visits)) (hv : v.header ≠ h) :
    ∃ rest, above = v.header :: rest ∧ Tour kind updated v.header rest visits := by
  cases above with
  | nil => exact absurd (List.mem_singleton.mp (ht.within v List.mem_cons_self)) hv
  | cons next rest =>
    obtain ⟨htop, hlinked⟩ := Header.linked_cons.mp ht.linked
    obtain ⟨hfirst, hascending⟩ := List.pairwise_cons.mp ht.ascending
    have hnext : v.header = next := hlinked.first_visited
      ((List.mem_cons.mp (ht.within v List.mem_cons_self)).resolve_left hv)
      (ht.every next List.mem_cons_self) ht.ascending
    subst hnext
    have hwithin : ∀ w ∈ visits, w.header ∈ v.header :: rest := by
      intro w hw
      refine (List.mem_cons.mp (ht.within w (List.mem_cons_of_mem v hw))).resolve_left fun heq => ?_
      have hle := UInt64.le_iff_toNat_le.mp (hfirst w hw)
      rw [heq, htop.2] at hle
      omega
    exact ⟨rest, rfl, hlinked, (List.nodup_cons.mp ht.parents).2, hwithin,
      fun g hg => visited_later (hlinked.lt g hg) (ht.every g (List.mem_cons_of_mem _ hg)),
      hascending,
      fun w hw g hg => ht.stored w (List.mem_cons_of_mem v hw) g (List.mem_cons_of_mem _ hg),
      fun w hw => ht.recorded w (List.mem_cons_of_mem v hw)⟩

end Tour

-- ---------------------------------------------------------------------------
-- Counting the reads
-- ---------------------------------------------------------------------------

section
variable {kind : PolicyKind} {updated : Header → UInt64} {h : Header} {above : List Header}
variable {v : Visit} {visits : List Visit} {e : Engine} {caches : PolicyCaches}

theorem Visit.upTo_of_read (hcapacity : 0 < (kind.cache caches).capacity)
    (habove : ∀ g ∈ v.header :: above, (kind.cache caches).peek? g.parentHash = none)
    (hfresh : v.header.parentHash ∉ above.map Header.parentHash)
    (hback : kind.part.lookback? (v.context e) v.ledger (kind.cache caches) = none)
    (hreads : (v.lookup e kind caches).Reads → (v.lookup e kind caches).answer.isOk) :
    (v.lookup e kind caches).Reads ∧
      UpTo (kind.cache (v.lookup e kind caches).after.policies) v.header above := by
  obtain ⟨hentry, hothers⟩ := List.forall_mem_cons.mp habove
  have hread := lookup_read hentry hback
  refine ⟨hread.reads, ?_⟩
  cases hanswer : (v.lookup e kind caches).answer with
  | ok value => exact hread.remembers value hanswer ▸ UpTo.put hcapacity hothers hfresh value
  | error cause =>
    have hok := hreads hread.reads
    rw [hanswer] at hok
    cases hok

theorem UpTo.stay (hup : UpTo (kind.cache caches) v.header above) :
    ¬ (v.lookup e kind caches).Reads ∧
      UpTo (kind.cache (v.lookup e kind caches).after.policies) v.header above := by
  obtain ⟨value, hvalue⟩ := hup.found
  obtain ⟨hhits, hcache⟩ := Visit.lookup_entry (v := v) (e := e) hvalue
  exact ⟨hhits.not_reads, hcache ▸ hup.touch _⟩

theorem UpTo.climb (hup : UpTo (kind.cache caches) h (v.header :: above))
    (htop : v.header.OnTopOf h) (hholds : v.chain.Holds h)
    (hrecorded : kind.part.updated v.ledger = updated v.header)
    (hfresh : v.header.parentHash ∉ above.map Header.parentHash)
    (hreads : (v.lookup e kind caches).Reads → (v.lookup e kind caches).answer.isOk) :
    ((v.lookup e kind caches).Reads ↔ v.header.WrittenSince updated) ∧
      UpTo (kind.cache (v.lookup e kind caches).after.policies) v.header above := by
  obtain ⟨value, hvalue⟩ := hup.found
  obtain ⟨hentry, hothers⟩ := List.forall_mem_cons.mp hup.above
  have hback := Visit.lookback_of_found (e := e) htop hholds hrecorded hvalue
  by_cases hwritten : v.header.WrittenSince updated
  -- written to: nothing serves, so the contract is read; else the grandparent's entry does
  · rw [if_pos hwritten] at hback
    obtain ⟨hread, hafter⟩ := Visit.upTo_of_read hup.capacity hup.above hfresh hback hreads
    exact ⟨iff_of_true hread hwritten, hafter⟩
  · rw [if_neg hwritten] at hback
    obtain ⟨hhits, hcache⟩ := Visit.lookup_lookback (v := v) hentry hback
    exact ⟨iff_of_false hhits.not_reads hwritten,
      hcache ▸ UpTo.put hup.capacity hothers hfresh value⟩

/-- From a block that was visited on, only the blocks above it are read for. -/
theorem Tour.reads (ht : Tour kind updated h above visits) (hup : UpTo (kind.cache caches) h above)
    (hreads : ∀ l ∈ lookups e kind caches visits, l.Reads → l.answer.isOk) :
    (lookups e kind caches visits).countP (·.Reads) = above.countP (·.WrittenSince updated) := by
  induction visits generalizing h above caches with
  | nil =>
    cases above with
    | nil => rfl
    | cons next rest =>
      obtain ⟨_, hmem, _⟩ := ht.every next List.mem_cons_self
      cases hmem
  | cons v visits ih =>
    rw [lookups] at hreads ⊢
    obtain ⟨hfirst, hrest⟩ := List.forall_mem_cons.mp hreads
    -- either the block is visited again, or the next one is for the first time
    by_cases hv : v.header = h
    · subst hv
      obtain ⟨hread, hafter⟩ := hup.stay (e := e)
      rw [List.countP_cons_of_neg (by simpa using hread)]
      exact ih (ht.stay rfl) hafter hrest
    · obtain ⟨rest, rfl, hclimbed⟩ := ht.climb hv
      have htop := (Header.linked_cons.mp ht.linked).1
      have hbelow : h.number < v.header.number :=
        UInt64.lt_iff_toNat_lt.mpr (ht.linked.lt _ List.mem_cons_self)
      obtain ⟨hread, hafter⟩ := hup.climb htop
        (ht.stored v List.mem_cons_self h List.mem_cons_self hbelow)
        (ht.recorded v List.mem_cons_self) (List.nodup_cons.mp hclimbed.parents).1 hfirst
      rw [List.countP_cons, List.countP_cons, ih hclimbed hafter hrest]
      simp only [hread]

end

/-- A new engine that visits a run of blocks, each as often as one likes, from the lowest to
the highest, reads the contract for the first of them and for each other one whose part was
written to at its parent or later. All other lookups only find a value. -/
theorem reads_along_chain {e : Engine} {kind : PolicyKind} {caches : PolicyCaches}
    {first : Header} {rest : List Header} {visits : List Visit} (updated : Header → UInt64)
    (hnew : Engine.initialCaches e.config = .ok caches)
    (hlinked : Header.Linked (first :: rest))
    (hdistinct : ((first :: rest).map Header.parentHash).Nodup)
    (hwithin : ∀ v ∈ visits, v.header ∈ first :: rest)
    (hevery : ∀ h ∈ first :: rest, ∃ v ∈ visits, v.header = h)
    (hascending : visits.Pairwise fun v w => v.header.number ≤ w.header.number)
    (hstored : ∀ v ∈ visits, ∀ h ∈ first :: rest, h.number < v.header.number → v.chain.Holds h)
    (hrecorded : ∀ v ∈ visits, kind.part.updated v.ledger = updated v.header)
    (hreads : ∀ l ∈ lookups e kind caches visits, l.Reads → l.answer.isOk) :
    (lookups e kind caches visits).countP (·.Reads) = 1 + rest.countP (·.WrittenSince updated) ∧
      ∀ l ∈ lookups e kind caches visits,
        (l.Reads ∧ l.CallsContract) ∨ ∃ source value, l.Hits source value := by
  refine ⟨?_, forall_lookups fun v _ _ => v.lookup_read_or_hit⟩
  have ht : Tour kind updated first rest visits :=
    ⟨hlinked, hdistinct, hwithin, fun h hh => hevery h (List.mem_cons_of_mem first hh),
      hascending, hstored, hrecorded⟩
  cases visits with
  | nil =>
    obtain ⟨_, hmem, _⟩ := hevery first List.mem_cons_self
    cases hmem
  | cons v visits =>
    obtain rfl : v.header = first := hlinked.first_visited (hwithin v List.mem_cons_self)
      (hevery first List.mem_cons_self) hascending
    obtain ⟨hempty, hcapacity⟩ := Engine.initialCaches_ok hnew kind
    have hnothing : ∀ k, (kind.cache caches).peek? k = none := fun k => hempty ▸ rfl
    rw [lookups] at hreads ⊢
    obtain ⟨hfirst, hrest⟩ := List.forall_mem_cons.mp hreads
    obtain ⟨hread, hafter⟩ := Visit.upTo_of_read hcapacity (fun g _ => hnothing g.parentHash)
      (List.nodup_cons.mp hdistinct).1 (PolicyPart.lookback_of_nothing hnothing) hfirst
    rw [List.countP_cons_of_pos (by simpa using hread), (ht.stay rfl).reads hafter hrest,
      Nat.add_comm]

-- ---------------------------------------------------------------------------
-- The sample policy
-- ---------------------------------------------------------------------------

namespace SamplePolicy

def changing : Header := { number := 5, parentHash := 9 }

def next : Header := { number := 6, parentHash := changing.hash }

def last : Header := { number := 7, parentHash := next.hash }

def visit (header : Header) : Visit :=
  ⟨SampleFork.chain [changing, next] [], header, changedLedger⟩

def stops : List Header := [changing, changing, next, next, last, last]

def looked : List (Lookup .blacklist) :=
  lookups engine .blacklist ⟨⟨21, []⟩, ⟨21, []⟩⟩ (stops.map visit)

end SamplePolicy

open SamplePolicy in
/-- A change at the height of the lowest block makes the one above it read again; the block
above both looks back. -/
theorem sample_chain_read_twice :
    looked.countP (·.Reads) = 2 ∧
      looked.countP (.metric (.hit .blacklist .lookback) ∈ ·.after.events) = 1 := by
  have hlinked : Header.Linked [changing, next, last] :=
    .cons_cons ⟨rfl, rfl⟩ (.cons_cons ⟨rfl, rfl⟩ (.singleton _))
  -- decided as one, for the headers are hashed in both
  obtain ⟨hdistinct, hback⟩ : ([changing, next, last].map Header.parentHash).Nodup ∧
      looked.countP (.metric (.hit .blacklist .lookback) ∈ ·.after.events) = 1 := by decide +kernel
  have hwithin : ∀ v ∈ stops.map visit, v.header ∈ [changing, next, last] :=
    List.forall_mem_map.mpr fun _ hheader => by simpa [stops, visit] using hheader
  have hevery : ∀ h ∈ [changing, next, last], ∃ v ∈ stops.map visit, v.header = h :=
    fun h hh => ⟨visit h, List.mem_map_of_mem (by simpa [stops] using hh), rfl⟩
  have hascending : (stops.map visit).Pairwise fun v w => v.header.number ≤ w.header.number := by
    decide +kernel
  have hhighest : ∀ header ∈ stops, ¬ last.number < header.number := by decide
  have hstored : ∀ v ∈ stops.map visit, ∀ h ∈ [changing, next, last],
      h.number < v.header.number → v.chain.Holds h := by
    refine List.forall_mem_map.mpr fun header hheader h hh hlt => ?_
    simp only [List.mem_cons, List.not_mem_nil, or_false] at hh
    rcases hh with rfl | rfl | rfl
    · exact SampleFork.chain_holds [] _ _ nofun
    · exact SampleFork.chain_holds [changing] _ _ (by decide)
    · exact absurd hlt (hhighest header hheader)
  have hchange : PolicyStorage.blacklistUpdated changedLedger = 5 := by decide +kernel
  have hrecorded : ∀ v ∈ stops.map visit, (PolicyKind.part .blacklist).updated v.ledger = 5 :=
    List.forall_mem_map.mpr fun _ _ => hchange
  have hnew : Engine.initialCaches engine.config = .ok ⟨⟨21, []⟩, ⟨21, []⟩⟩ := rfl
  obtain ⟨hcount, -⟩ := reads_along_chain (fun _ => 5) hnew hlinked hdistinct hwithin hevery
    hascending hstored hrecorded (forall_lookups fun v _ caches _ => lookup_isOk v caches)
  exact ⟨hcount.trans (by decide), hback⟩

end StakeGov
