import Mathlib.Data.Finset.Card
import StakeGov.Proofs.LookupRuns

/-!
# How long a policy is remembered

What a lookup answered is found again for as long as fewer other keys have been looked up
since than there is room for (`answers_stay`). The entry may only be preceded by entries for
these keys (`Recent`), and keys are distinct, so it is not the one that makes room.
-/

namespace StakeGov

open Step (exec)

-- ---------------------------------------------------------------------------
-- Entries and their order
-- ---------------------------------------------------------------------------

namespace Cache

variable {α : Type} {c : Cache α} {capacity : Nat} {j k : Hash} {v x : α} {others : Finset Hash}

structure Bounded (capacity : Nat) (c : Cache α) : Prop where
  room : c.capacity = capacity
  length_le : c.entries.length ≤ capacity
  nodup : (c.entries.map Prod.fst).Nodup

namespace Bounded

theorem nodup_front (h : c.Bounded capacity) : (((k, v) :: c.without k).map Prod.fst).Nodup := by
  refine List.nodup_cons.mpr ⟨fun hmem => ?_, h.nodup.sublist (List.filter_sublist.map _)⟩
  obtain ⟨e, he, rfl⟩ := List.mem_map.mp hmem
  exact of_decide_eq_true (List.mem_filter.mp he).2 rfl

theorem touch (h : c.Bounded capacity) : (c.touch k).Bounded capacity := by
  unfold Cache.touch
  split
  · rename_i v hv
    obtain ⟨before, after, hentries, -⟩ := List.lookup_eq_some_iff.mp hv
    have hfound : ∃ e ∈ c.entries, ¬ (decide (e.1 ≠ k) = true) :=
      ⟨(k, v), by rw [hentries]; simp, by simp⟩
    have hlt : (c.without k).length < c.entries.length :=
      List.length_filter_lt_length_iff_exists.mpr hfound
    exact ⟨h.room, hlt.trans_le h.length_le, h.nodup_front⟩
  · exact h

theorem put (h : c.Bounded capacity) : (c.put k v).Bounded capacity where
  room := h.room
  length_le := (List.length_take_le _ _).trans_eq h.room
  nodup := h.nodup_front.sublist ((List.take_sublist _ _).map _)

end Bounded

/-- The entry of a key is there, and the ones used since are of other keys. -/
def Recent (k : Hash) (x : α) (others : Finset Hash) (c : Cache α) : Prop :=
  ∃ newer older, c.entries = newer ++ (k, x) :: older ∧ ∀ e ∈ newer, e.1 ∈ others

namespace Recent

theorem peek (h : c.Recent k x others) (hk : k ∉ others) : c.peek? k = some x := by
  obtain ⟨newer, older, hentries, hnewer⟩ := h
  refine List.lookup_eq_some_iff.mpr ⟨newer, older, hentries, fun e he => ?_⟩
  exact bne_iff_ne.mpr fun heq => hk (heq ▸ hnewer e he)

theorem touch_self (hpeek : c.peek? k = some x) : (c.touch k).Recent k x others := by
  unfold Cache.touch
  rw [hpeek]
  exact ⟨[], c.without k, rfl, fun _ h => nomatch h⟩

theorem put_self (hcapacity : 0 < c.capacity) : (c.put k x).Recent k x others := by
  obtain ⟨n, hn⟩ := Nat.exists_eq_add_one.mpr hcapacity
  refine ⟨[], (c.without k).take n, ?_, fun _ h => nomatch h⟩
  rw [put, hn]
  rfl

/-- After another key was used, at most one entry for each of the others is in front. -/
theorem front (h : c.Recent k x others) (hb : c.Bounded capacity) (hk : k ∉ others)
    (hj : j ∈ others) : ∃ newer older, (j, v) :: c.without j = newer ++ (k, x) :: older ∧
      (∀ e ∈ newer, e.1 ∈ others) ∧ newer.length ≤ others.card := by
  obtain ⟨newer, older, hentries, hnewer⟩ := h
  have hne : k ≠ j := fun heq => hk (heq ▸ hj)
  have hfront : (j, v) :: c.without j = ((j, v) :: newer.filter fun e => e.1 ≠ j) ++
      (k, x) :: older.filter fun e => e.1 ≠ j := by
    rw [without, hentries, List.filter_append, List.filter_cons_of_pos (by simpa using hne),
      List.cons_append]
  have hothers : ∀ e ∈ (j, v) :: newer.filter fun e => e.1 ≠ j, e.1 ∈ others :=
    List.forall_mem_cons.mpr ⟨hj, fun e he => hnewer e (List.mem_filter.mp he).1⟩
  refine ⟨_, _, hfront, hothers, ?_⟩
  -- their keys are distinct and among the others, which bounds how many there are
  have hnodup := hb.nodup_front (k := j) (v := v)
  rw [hfront, List.map_append] at hnodup
  rw [← List.length_map Prod.fst, ← List.toFinset_card_of_nodup hnodup.of_append_left]
  refine Finset.card_le_card fun i hi => ?_
  obtain ⟨e, he, rfl⟩ := List.mem_map.mp (List.mem_toFinset.mp hi)
  exact hothers e he

theorem touch (h : c.Recent k x others) (hb : c.Bounded capacity) (hk : k ∉ others)
    (hj : j ∈ others) : (c.touch j).Recent k x others := by
  unfold Cache.touch
  split
  · rename_i v hv
    obtain ⟨newer, older, hentries, hnewer, -⟩ := h.front (v := v) hb hk hj
    exact ⟨newer, older, hentries, hnewer⟩
  · exact h

theorem put (h : c.Recent k x others) (hb : c.Bounded capacity) (hk : k ∉ others)
    (hj : j ∈ others) (hroom : others.card < capacity) : (c.put j v).Recent k x others := by
  obtain ⟨newer, older, hentries, hnewer, hlength⟩ := h.front (v := v) hb hk hj
  obtain ⟨n, hn⟩ := Nat.exists_eq_add_of_lt (hlength.trans_lt hroom)
  refine ⟨newer, older.take n, ?_, hnewer⟩
  rw [Cache.put, hentries, hb.room, hn, Nat.add_assoc, List.take_length_add_append,
    List.take_succ_cons]

end Recent

end Cache

-- ---------------------------------------------------------------------------
-- What an engine comes to remember
-- ---------------------------------------------------------------------------

theorem PolicyPart.find_bounded {α : Type} {part : PolicyPart α} {ctx : BlockContext}
    {cache cache' : Cache α} {value : α} {capacity : Nat} {r : Run} (h : cache.Bounded capacity)
    (hfind : (exec (part.find ctx cache) r).1 = .ok (value, cache')) :
    cache'.Bounded capacity := by
  rcases find_ok hfind with ⟨-, rfl⟩ | rfl
  · exact h.touch
  · exact h.put

namespace Engine

/-- What an engine can come to remember, by lookups for whatever blocks on whatever ledgers. -/
inductive Attained (e : Engine) : PolicyCaches → Prop where
  | start {caches} (h : initialCaches e.config = .ok caches) : Attained e caches
  | lookup {chain header r} (query : Query) (h : Attained e r.policies) :
      Attained e (query.after { e with chain } header r).policies

def Bounded (e : Engine) (caches : PolicyCaches) : Prop :=
  ∀ kind : PolicyKind, (kind.cache caches).Bounded e.config.engine.policyCacheSize.toNat

variable {e : Engine} {header : Header} {kind : PolicyKind} {caches : PolicyCaches} {r : Run}

theorem Bounded.setCache {cache : Cache kind.Value} (h : e.Bounded caches)
    (hcache : cache.Bounded e.config.engine.policyCacheSize.toNat) :
    e.Bounded (kind.setCache cache caches) := by
  intro other
  cases kind <;> cases other
  exacts [hcache, h .rules, h .blacklist, hcache]

theorem Bounded.lookUp (h : e.Bounded r.policies) (kind : PolicyKind) :
    e.Bounded (exec (e.lookUp header kind) r).2.policies := by
  have hpolicies := PolicyPart.find_keeps kind.part (e.context header) (kind.cache r.policies)
    (P := fun q => q.policies = r.policies) (fun _ _ hq => hq)
    (fun q hq => (kind.exec_fetch_policies _ q).trans hq) rfl
  rw [exec_lookUp]
  rcases hfind : exec (kind.part.find (e.context header) (kind.cache r.policies)) r with
    ⟨cause | ⟨value, cache⟩, q⟩
  all_goals
    rw [hfind] at hpolicies
    replace hpolicies : q.policies = r.policies := hpolicies
  · change e.Bounded q.policies
    exact hpolicies ▸ h
  · change e.Bounded (kind.setCache cache q.policies)
    rw [hpolicies]
    exact h.setCache (PolicyPart.find_bounded (h kind) (congrArg Prod.fst hfind))

theorem Bounded.query (h : e.Bounded r.policies) (query : Query) :
    e.Bounded (query.after e header r).policies := by
  have hfirst : e.Bounded (exec (e.blacklist header) r).2.policies := h.lookUp .blacklist
  cases query with
  | blacklist => exact hfirst
  | eventRules => exact h.lookUp .rules
  | validate sender tx =>
    rw [Query.after, exec_validateTransaction]
    exact hfirst
  | policy =>
    rw [Query.after, exec_policy]
    rcases hrun : exec (e.blacklist header) r with ⟨cause | list, q⟩
    all_goals
      rw [hrun] at hfirst
    · exact hfirst
    · exact hfirst.lookUp .rules

theorem Attained.bounded (h : e.Attained caches) : e.Bounded caches := by
  induction h with
  | start h =>
    intro kind
    obtain ⟨hempty, -⟩ := initialCaches_ok h kind
    rw [hempty]
    exact ⟨rfl, Nat.zero_le _, List.nodup_nil⟩
  | @lookup chain header r query _ ih => exact Bounded.query (e := { e with chain }) ih query

end Engine

-- ---------------------------------------------------------------------------
-- Lookups for other keys
-- ---------------------------------------------------------------------------

def otherKeys (k : Hash) (visits : List Visit) : Finset Hash :=
  (visits.map Visit.key).toFinset.erase k

theorem notMem_otherKeys (k : Hash) (visits : List Visit) : k ∉ otherKeys k visits :=
  Finset.notMem_erase _ _

theorem mem_otherKeys (k : Hash) (visits : List Visit) :
    ∀ v ∈ visits, v.key = k ∨ v.key ∈ otherKeys k visits := by
  intro v hv
  by_cases hkey : v.key = k
  · exact .inl hkey
  · exact .inr (Finset.mem_erase.mpr ⟨hkey, List.mem_toFinset.mpr (List.mem_map_of_mem hv)⟩)

section
variable {e : Engine} {kind : PolicyKind} {caches : PolicyCaches} {v : Visit}
variable {visits : List Visit} {others : Finset Hash} {k : Hash} {value : kind.Value}

theorem Visit.lookup_bounded (h : e.Bounded caches) :
    e.Bounded (v.lookup e kind caches).after.policies :=
  Engine.Bounded.lookUp (e := { e with chain := v.chain }) (r := v.start caches) h kind

theorem Visit.lookup_recent (h : e.Bounded caches)
    (hroom : 0 < e.config.engine.policyCacheSize.toNat)
    (hanswer : (v.lookup e kind caches).answer = .ok value) :
    (kind.cache (v.lookup e kind caches).after.policies).Recent v.key value others := by
  rcases v.lookup_cache e kind caches with ⟨x, hx, hcache⟩ | ⟨cause, hcause, -⟩
  · obtain rfl : value = x := Except.ok.inj (hanswer.symm.trans hx)
    rcases hcache with ⟨hpeek, hcache⟩ | hcache
    · exact hcache ▸ Cache.Recent.touch_self hpeek
    · exact hcache ▸ Cache.Recent.put_self ((h kind).room ▸ hroom)
  · rw [hanswer] at hcause
    cases hcause

theorem Visit.lookup_stays (hk : k ∉ others) (hv : v.key = k ∨ v.key ∈ others)
    (hroom : others.card < e.config.engine.policyCacheSize.toNat) (hb : e.Bounded caches)
    (h : (kind.cache caches).Recent k value others) :
    (kind.cache (v.lookup e kind caches).after.policies).Recent k value others := by
  rcases hv with rfl | hother
  · obtain ⟨-, hcache⟩ := Visit.lookup_entry (v := v) (e := e) (h.peek hk)
    exact hcache ▸ Cache.Recent.touch_self (h.peek hk)
  · rcases v.lookup_cache e kind caches with ⟨x, -, ⟨-, hcache⟩ | hcache⟩ | ⟨cause, -, hcache⟩
    · exact hcache ▸ h.touch (hb kind) hk hother
    · exact hcache ▸ h.put (hb kind) hk hother hroom
    · exact hcache ▸ h

theorem recent_cachesAfter (hk : k ∉ others) (hvisits : ∀ v ∈ visits, v.key = k ∨ v.key ∈ others)
    (hroom : others.card < e.config.engine.policyCacheSize.toNat) (hb : e.Bounded caches)
    (h : (kind.cache caches).Recent k value others) :
    (kind.cache (cachesAfter e kind caches visits)).Recent k value others := by
  induction visits generalizing caches with
  | nil => exact h
  | cons v visits ih =>
    obtain ⟨hv, hvisits⟩ := List.forall_mem_cons.mp hvisits
    exact ih hvisits (Visit.lookup_bounded hb) (Visit.lookup_stays hk hv hroom hb h)

end

/-- In whatever an engine has come to remember there are no more entries than there is room
for, and their keys are distinct. What a lookup answers then is found at its key as long as
fewer other keys are looked up in between than there is room for. -/
theorem answers_stay {e : Engine} {caches : PolicyCaches} (hattained : e.Attained caches)
    (kind : PolicyKind) :
    ((kind.cache caches).entries.length ≤ e.config.engine.policyCacheSize.toNat ∧
      ((kind.cache caches).entries.map Prod.fst).Nodup) ∧
    ∀ (v w : Visit) (between : List Visit) (value : kind.Value),
      (v.lookup e kind caches).answer = .ok value →
      (otherKeys v.key between).card < e.config.engine.policyCacheSize.toNat →
      w.key = v.key →
      let later := cachesAfter e kind (v.lookup e kind caches).after.policies between
      (w.lookup e kind later).Hits .entry value := by
  have hb := hattained.bounded
  refine ⟨⟨(hb kind).length_le, (hb kind).nodup⟩, fun v w between value hanswer hroom hw => ?_⟩
  have hk := notMem_otherKeys v.key between
  have hrecent := recent_cachesAfter hk (mem_otherKeys v.key between) hroom
    (Visit.lookup_bounded hb) (Visit.lookup_recent hb (Nat.zero_lt_of_lt hroom) hanswer)
  exact (Visit.lookup_entry (hw ▸ hrecent.peek hk)).1

namespace SamplePolicy

def elsewhere : Visit := ⟨knowsTip, { number := 1, parentHash := 8 }, {}⟩

end SamplePolicy

open SamplePolicy in
/-- The block beside the tip is served what the tip was answered. -/
theorem sample_answer_stays :
    ∃ value, (Visit.lookup ⟨knowsTip, beside, {}⟩ engine .blacklist
      (cachesAfter engine .blacklist
        (Visit.lookup ⟨knowsTip, tip, changedLedger⟩ engine .blacklist
          ⟨⟨21, []⟩, ⟨21, []⟩⟩).after.policies [elsewhere, elsewhere])).Hits .entry value := by
  have hattained : engine.Attained ⟨⟨21, []⟩, ⟨21, []⟩⟩ := .start rfl
  have hisOk := lookup_isOk ⟨knowsTip, tip, changedLedger⟩ ⟨⟨21, []⟩, ⟨21, []⟩⟩
  cases hanswer : (Visit.lookup ⟨knowsTip, tip, changedLedger⟩ engine .blacklist
      ⟨⟨21, []⟩, ⟨21, []⟩⟩).answer with
  | error cause =>
    rw [hanswer] at hisOk
    cases hisOk
  | ok value =>
    have hroom : (otherKeys tip.parentHash [elsewhere, elsewhere]).card <
        engine.config.engine.policyCacheSize.toNat := by decide
    exact ⟨value, (answers_stay hattained .blacklist).2 _ ⟨knowsTip, beside, {}⟩ _ value hanswer
      hroom rfl⟩

end StakeGov
