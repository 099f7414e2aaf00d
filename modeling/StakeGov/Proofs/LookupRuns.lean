import StakeGov.Proofs.Accessors
import StakeGov.Proofs.PolicyLookups
import StakeGov.Proofs.Records

/-!
# Runs of lookups

Lookups of one kind, one after the other on one engine, each with a ledger of its own and
the headers known by then. A lookup is served from its own entry (`Visit.lookup_entry`),
from the grandparent's (`Visit.lookup_lookback`) or by the contract (`Visit.lookup_read`);
only in the last case does it send messages or touch the ledger.
-/

namespace StakeGov

open Step (exec exec_bind Appends)

-- ---------------------------------------------------------------------------
-- What is found after a use
-- ---------------------------------------------------------------------------

namespace Cache

variable {α : Type} {c : Cache α} {j k : Hash} {v : α}

@[simp] theorem capacity_touch : (c.touch k).capacity = c.capacity := by
  unfold touch
  split <;> rfl

theorem lookup_without (hne : j ≠ k) : (c.without k).lookup j = c.entries.lookup j := by
  unfold without
  induction c.entries with
  | nil => rfl
  | cons e entries ih =>
    by_cases he : e.1 = k
    · rw [List.filter_cons_of_neg (by simpa using he), ih, List.lookup_cons,
        beq_eq_false_iff_ne.mpr (he ▸ hne)]
    · rw [List.filter_cons_of_pos (by simpa using he), List.lookup_cons, List.lookup_cons, ih]

theorem peek?_touch (c : Cache α) (j k : Hash) : (c.touch k).peek? j = c.peek? j := by
  unfold touch
  split
  · rename_i v hv
    by_cases hne : j = k
    · subst hne
      rw [hv]
      exact List.lookup_cons_self
    · rw [peek?, List.lookup_cons, beq_eq_false_iff_ne.mpr hne]
      exact lookup_without hne
  · rfl

theorem peek?_put_self (h : 0 < c.capacity) : (c.put k v).peek? k = some v := by
  obtain ⟨n, hn⟩ := Nat.exists_eq_add_one.mpr h
  rw [peek?, put, hn, List.take_succ_cons]
  exact List.lookup_cons_self

theorem peek?_put_none (hne : j ≠ k) (h : c.peek? j = none) : (c.put k v).peek? j = none := by
  have hall : ∀ e ∈ (k, v) :: c.without k, (j != e.1) = true := by
    intro e he
    rcases List.mem_cons.mp he with rfl | he
    · exact bne_iff_ne.mpr hne
    · exact List.lookup_eq_none_iff.mp ((lookup_without hne).trans h) e he
  exact List.lookup_eq_none_iff.mpr fun e he => hall e (List.mem_of_mem_take he)

end Cache

-- ---------------------------------------------------------------------------
-- The two kinds of lookup
-- ---------------------------------------------------------------------------

namespace PolicyKind

def Value : PolicyKind → Type
  | .blacklist => Blacklist
  | .rules => EventRules

def part : (kind : PolicyKind) → PolicyPart kind.Value
  | .blacklist => blacklistPart
  | .rules => rulesPart

def cache : (kind : PolicyKind) → PolicyCaches → Cache kind.Value
  | .blacklist, caches => caches.blacklists
  | .rules, caches => caches.rules

def setCache : (kind : PolicyKind) → Cache kind.Value → PolicyCaches → PolicyCaches
  | .blacklist, cache, caches => { caches with blacklists := cache }
  | .rules, cache, caches => { caches with rules := cache }

@[simp] theorem cache_setCache (kind : PolicyKind) (cache : Cache kind.Value)
    (caches : PolicyCaches) : kind.cache (kind.setCache cache caches) = cache := by
  cases kind <;> rfl

variable (kind : PolicyKind) (ctx : BlockContext) (r : Run)

theorem part_kind : kind.part.kind = kind := by
  cases kind <;> rfl

theorem exec_fetch_policies : (exec (kind.part.fetch ctx) r).2.policies = r.policies := by
  cases kind with
  | blacklist => exact exec_fetchBlacklist_policies ctx r
  | rules => exact exec_fetchRules_policies ctx r

end PolicyKind

/-- The end of a lookup: it is recorded, and what was found is remembered. -/
def PolicyKind.finish (kind : PolicyKind) :
    Except ContractError (kind.Value × Cache kind.Value) × Run →
      Except ContractError kind.Value × Run
  | (.ok (value, cache), q) =>
    (.ok value, { q.record (.metric (.observed kind)) with
      policies := kind.setCache cache q.policies })
  | (.error cause, q) => (.error cause, q.record (.metric (.observed kind)))

def Engine.lookUp (e : Engine) (header : Header) :
    (kind : PolicyKind) → Step ContractError kind.Value
  | .blacklist => e.blacklist header
  | .rules => e.eventRules header

theorem Engine.initialCaches_ok {config : ChainConfig} {caches : PolicyCaches}
    (h : initialCaches config = .ok caches) (kind : PolicyKind) :
    kind.cache caches = ⟨config.engine.policyCacheSize.toNat, []⟩ ∧
      0 < (kind.cache caches).capacity := by
  obtain ⟨_, hvalid, h⟩ := Abi.bind_ok.mp h
  cases h
  have hsize : config.engine.policyCacheSize ≠ 0 := by
    intro hzero
    rw [EngineConfig.validate, if_pos hzero] at hvalid
    split at hvalid <;> cases hvalid
  have hpositive : 0 < config.engine.policyCacheSize.toNat :=
    Nat.pos_of_ne_zero fun hzero => hsize (UInt64.toNat_inj.mp hzero)
  cases kind <;> exact ⟨rfl, hpositive⟩

theorem Engine.exec_lookUp (e : Engine) (header : Header) (kind : PolicyKind) (r : Run) :
    exec (e.lookUp header kind) r =
      kind.finish (exec (kind.part.find (e.context header) (kind.cache r.policies)) r) := by
  cases kind with
  | blacklist =>
    refine exec_blacklist.trans ?_
    change _ = PolicyKind.finish .blacklist
      (exec (blacklistPart.find (e.context header) r.policies.blacklists) r :)
    rcases exec (blacklistPart.find (e.context header) r.policies.blacklists) r with
      ⟨_ | ⟨_, _⟩, _⟩ <;> rfl
  | rules =>
    refine exec_eventRules.trans ?_
    change _ = PolicyKind.finish .rules
      (exec (rulesPart.find (e.context header) r.policies.rules) r :)
    rcases exec (rulesPart.find (e.context header) r.policies.rules) r with
      ⟨_ | ⟨_, _⟩, _⟩ <;> rfl

-- ---------------------------------------------------------------------------
-- Reading the contract sends a message
-- ---------------------------------------------------------------------------

namespace Registry

theorem Accessor.appends (a : Accessor) (ctx : BlockContext) : Appends (a.step ctx) := by
  intro r
  obtain ⟨-, message, -, -, hrun, -⟩ := a.calls ctx r
  rw [hrun, ctx.events_afterCall]
  exact List.prefix_append _ _

theorem readFrom_appends {read : UInt32 → Step ContractError α} (h : ∀ index, Appends (read index))
    (index count : Nat) : Appends (readFrom read index count) := by
  induction count generalizing index with
  | zero => exact .pure _
  | succ count ih => exact (h _).bind fun _ => (ih _).bind fun _ => .pure _

theorem Accessor.called (a : Accessor) (ctx : BlockContext) (r : Run)
    {f : a.Answer → Step ContractError α} (hf : ∀ answer, Appends (f answer)) :
    ∃ m : Message, m.callee = some a.contract.address ∧
      r.events ++ [.called ctx.site ctx.header m] <+: (exec (a.step ctx >>= f) r).2.events := by
  obtain ⟨-, m, -, hcallee, hrun, -⟩ := a.calls ctx r
  have hfirst := Appends.of_first (x := a.step ctx) hf r
  rw [hrun, ctx.events_afterCall, List.append_cons] at hfirst
  exact ⟨m, hcallee, (List.prefix_append _ _).trans hfirst⟩

end Registry

theorem PolicyKind.fetch_called (kind : PolicyKind) (ctx : BlockContext) (r : Run) :
    ∃ m : Message, m.callee = some SystemContract.addressList.address ∧
      r.events ++ [.called ctx.site ctx.header m] <+: (exec (kind.part.fetch ctx) r).2.events := by
  cases kind with
  | blacklist =>
    exact Registry.Accessor.called .bannedSenders ctx r fun _ =>
      (Registry.Accessor.appends .bannedRecipients ctx).bind fun _ => .pure _
  | rules =>
    have hrest : ∀ count : UInt32, Appends (do
        return EventRules.ofEntries (← Registry.readFrom (Registry.rule ctx) 0 count.toNat)) :=
      fun count => (Registry.readFrom_appends
        (fun index => Registry.Accessor.appends (.rule index) ctx) 0 _).bind fun _ => .pure _
    have hfetch : fetchRules ctx = (do
        let count ← Registry.ruleCount ctx
        return EventRules.ofEntries (← Registry.readFrom (Registry.rule ctx) 0 count.toNat)) := by
      rw [fetchRules, Registry.ruleList, bind_assoc]
    obtain ⟨m, hcallee, hcalled⟩ := Registry.Accessor.called .ruleCount ctx r hrest
    refine ⟨m, hcallee, ?_⟩
    change _ <+: (exec (fetchRules ctx) r).2.events
    rw [hfetch]
    exact hcalled

-- ---------------------------------------------------------------------------
-- One lookup
-- ---------------------------------------------------------------------------

/-- What a lookup is made for: a block, the ledger after its parent, and the headers known
by then. -/
structure Visit where
  chain : ChainReader
  header : Header
  ledger : Ledger

def Visit.key (v : Visit) : Hash :=
  v.header.parentHash

structure Lookup (kind : PolicyKind) where
  visit : Visit
  answer : Except ContractError kind.Value
  after : Run

namespace Lookup

variable {kind : PolicyKind}

def Reads (l : Lookup kind) : Prop :=
  .metric (.read kind) ∈ l.after.events

instance (l : Lookup kind) : Decidable l.Reads :=
  inferInstanceAs (Decidable (_ ∈ _))

def CallsContract (l : Lookup kind) : Prop :=
  ∃ m : Message, m.callee = some SystemContract.addressList.address ∧
    .called .block l.visit.header m ∈ l.after.events

/-- The lookup found a value: that is all that was done. -/
structure Hits (l : Lookup kind) (source : HitSource) (value : kind.Value) : Prop where
  answer : l.answer = .ok value
  ledger : l.after.ledger = l.visit.ledger
  events : l.after.events = [.metric (.hit kind source), .metric (.observed kind)]

theorem Hits.not_reads {l : Lookup kind} {source : HitSource} {value : kind.Value}
    (h : l.Hits source value) : ¬ l.Reads := by
  rw [Reads, h.events]
  simp

/-- The lookup read the contract, from a run that remembered the given policies. -/
structure Fetched (l : Lookup kind) (fetch : Step ContractError kind.Value) (r : Run)
    (caches : PolicyCaches) : Prop where
  reads : l.Reads
  calls : l.CallsContract
  answer : l.answer = (exec fetch (r.record (.metric (.read kind)))).1
  remembers : ∀ value, l.answer = .ok value →
    kind.cache l.after.policies = (kind.cache caches).put l.visit.key value
  forgets : ∀ cause, l.answer = .error cause → kind.cache l.after.policies = kind.cache caches

end Lookup

namespace Visit

variable (v : Visit) (e : Engine) (kind : PolicyKind) (caches : PolicyCaches)

def context : BlockContext := { e with chain := v.chain }.context v.header

def start : Run := { ledger := v.ledger, policies := caches }

def lookup : Lookup kind :=
  let outcome := exec ({ e with chain := v.chain }.lookUp v.header kind) (v.start caches)
  ⟨v, outcome.1, outcome.2⟩

variable {v e kind caches} {value : kind.Value}

theorem lookup_of_find {o : Except ContractError (kind.Value × Cache kind.Value) × Run}
    (h : exec (kind.part.find (v.context e) (kind.cache caches)) (v.start caches) = o) :
    v.lookup e kind caches = ⟨v, (kind.finish o).1, (kind.finish o).2⟩ := by
  subst h
  rw [lookup, Engine.exec_lookUp]
  rfl

theorem lookup_entry (h : (kind.cache caches).peek? v.key = some value) :
    (v.lookup e kind caches).Hits .entry value ∧
      kind.cache (v.lookup e kind caches).after.policies = (kind.cache caches).touch v.key := by
  rw [lookup_of_find (PolicyPart.exec_find_entry h), kind.part_kind]
  exact ⟨⟨rfl, rfl, rfl⟩, kind.cache_setCache _ _⟩

theorem lookup_lookback (hentry : (kind.cache caches).peek? v.key = none)
    (hback : kind.part.lookback? (v.context e) v.ledger (kind.cache caches) = some value) :
    (v.lookup e kind caches).Hits .lookback value ∧
      kind.cache (v.lookup e kind caches).after.policies =
        (kind.cache caches).put v.key value := by
  rw [lookup_of_find (PolicyPart.exec_find_lookback hentry hback), kind.part_kind]
  exact ⟨⟨rfl, rfl, rfl⟩, kind.cache_setCache _ _⟩

theorem lookup_read (hentry : (kind.cache caches).peek? v.key = none)
    (hback : kind.part.lookback? (v.context e) v.ledger (kind.cache caches) = none) :
    (v.lookup e kind caches).Fetched (kind.part.fetch (v.context e)) (v.start caches) caches := by
  have hpolicies := kind.exec_fetch_policies (v.context e)
    ((v.start caches).record (.metric (.read kind)))
  obtain ⟨m, hcallee, hcalled⟩ := kind.fetch_called (v.context e)
    ((v.start caches).record (.metric (.read kind)))
  have hread := hcalled.subset (List.mem_append_left _ (List.mem_singleton_self _))
  have hcall := hcalled.subset (List.mem_append_right _ (List.mem_singleton_self _))
  rw [lookup_of_find (PolicyPart.exec_find_read hentry hback), kind.part_kind]
  rcases hfetch : exec (kind.part.fetch (v.context e))
    ((v.start caches).record (.metric (.read kind))) with ⟨cause | value, q⟩
  all_goals
    rw [hfetch] at hpolicies hread hcall
    refine ⟨List.mem_append_left _ hread, ⟨m, hcallee, List.mem_append_left _ hcall⟩,
      (congrArg Prod.fst hfetch).symm, ?_, ?_⟩
  · exact fun _ h => nomatch h
  · exact fun _ _ => congrArg kind.cache hpolicies
  · rintro _ ⟨⟩
    exact kind.cache_setCache _ _
  · exact fun _ h => nomatch h

/-- A lookup is served by its own entry, by the grandparent's or by the contract. -/
theorem lookup_cases (v : Visit) (e : Engine) (kind : PolicyKind) (caches : PolicyCaches) :
    (∃ value, (kind.cache caches).peek? v.key = some value ∧
      (v.lookup e kind caches).Hits .entry value ∧
      kind.cache (v.lookup e kind caches).after.policies = (kind.cache caches).touch v.key) ∨
    (∃ value, (v.lookup e kind caches).Hits .lookback value ∧
      kind.cache (v.lookup e kind caches).after.policies = (kind.cache caches).put v.key value) ∨
    (v.lookup e kind caches).Fetched (kind.part.fetch (v.context e)) (v.start caches) caches := by
  cases hentry : (kind.cache caches).peek? v.key with
  | some value =>
    obtain ⟨hhits, hcache⟩ := lookup_entry (e := e) hentry
    exact .inl ⟨value, rfl, hhits, hcache⟩
  | none =>
    cases hback : kind.part.lookback? (v.context e) v.ledger (kind.cache caches) with
    | some value =>
      obtain ⟨hhits, hcache⟩ := lookup_lookback hentry hback
      exact .inr (.inl ⟨value, hhits, hcache⟩)
    | none => exact .inr (.inr (lookup_read hentry hback))

theorem lookup_read_or_hit :
    ((v.lookup e kind caches).Reads ∧ (v.lookup e kind caches).CallsContract) ∨
      ∃ source value, (v.lookup e kind caches).Hits source value := by
  rcases v.lookup_cases e kind caches with ⟨value, -, hhits, -⟩ | ⟨value, hhits, -⟩ | hread
  · exact .inr ⟨.entry, value, hhits⟩
  · exact .inr ⟨.lookback, value, hhits⟩
  · exact .inl ⟨hread.reads, hread.calls⟩

theorem lookup_isOk (hfetch : ∀ q, (exec (kind.part.fetch (v.context e)) q).1.isOk) :
    (v.lookup e kind caches).answer.isOk := by
  rcases v.lookup_cases e kind caches with ⟨value, -, hhits, -⟩ | ⟨value, hhits, -⟩ | hread
  · exact hhits.answer ▸ rfl
  · exact hhits.answer ▸ rfl
  · exact hread.answer ▸ hfetch _

/-- A lookup that answers remembers the value for its key; one that fails remembers nothing. -/
theorem lookup_cache (v : Visit) (e : Engine) (kind : PolicyKind) (caches : PolicyCaches) :
    (∃ value, (v.lookup e kind caches).answer = .ok value ∧
      ((kind.cache caches).peek? v.key = some value ∧
          kind.cache (v.lookup e kind caches).after.policies = (kind.cache caches).touch v.key ∨
        kind.cache (v.lookup e kind caches).after.policies =
          (kind.cache caches).put v.key value)) ∨
    ∃ cause, (v.lookup e kind caches).answer = .error cause ∧
      kind.cache (v.lookup e kind caches).after.policies = kind.cache caches := by
  rcases v.lookup_cases e kind caches with
    ⟨value, hpeek, hhits, hcache⟩ | ⟨value, hhits, hcache⟩ | hread
  · exact .inl ⟨value, hhits.answer, .inl ⟨hpeek, hcache⟩⟩
  · exact .inl ⟨value, hhits.answer, .inr hcache⟩
  · cases hanswer : (v.lookup e kind caches).answer with
    | ok value => exact .inl ⟨value, rfl, .inr (hread.remembers value hanswer)⟩
    | error cause => exact .inr ⟨cause, rfl, hread.forgets cause hanswer⟩

end Visit

-- ---------------------------------------------------------------------------
-- Lookups one after the other
-- ---------------------------------------------------------------------------

section
variable (e : Engine) (kind : PolicyKind)

def lookups : PolicyCaches → List Visit → List (Lookup kind)
  | _, [] => []
  | caches, v :: visits =>
    v.lookup e kind caches :: lookups (v.lookup e kind caches).after.policies visits

def cachesAfter (caches : PolicyCaches) (visits : List Visit) : PolicyCaches :=
  visits.foldl (fun caches v => (v.lookup e kind caches).after.policies) caches

end

variable {e : Engine} {kind : PolicyKind} {caches : PolicyCaches} {visits : List Visit}

theorem forall_lookups {P : Lookup kind → Prop}
    (h : ∀ v ∈ visits, ∀ caches, P (v.lookup e kind caches)) :
    ∀ l ∈ lookups e kind caches visits, P l := by
  induction visits generalizing caches with
  | nil => exact fun _ hl => nomatch hl
  | cons v visits ih =>
    obtain ⟨hfirst, hrest⟩ := List.forall_mem_cons.mp h
    exact List.forall_mem_cons.mpr ⟨hfirst caches, ih hrest⟩

theorem SamplePolicy.lookup_isOk (v : Visit) (caches : PolicyCaches) :
    (v.lookup engine .blacklist caches).answer.isOk :=
  Visit.lookup_isOk fun q => congrArg Except.isOk (exec_fetchBlacklist v.chain v.header q).1

end StakeGov
