import Mathlib.Data.Option.Basic
import StakeGov.InMemory.SamplePolicies
import StakeGov.Proofs.Lockstep

/-!
# Remembered policies are the contract's

Over a tree of blocks that keeps the heights of the last changes right, every entry of
a cache that lookups can build is what the contract answers on the ledger it is kept for
(`PolicyTree.reachable_sound`). So a lookup answers what reading the contract would, be
it from its own entry, from that of the grandparent or from the contract itself
(`remembered_policy_is_current`).
-/

namespace StakeGov

open Step (exec exec_bind)

-- ---------------------------------------------------------------------------
-- Caches
-- ---------------------------------------------------------------------------

namespace Cache

variable {α : Type} {P : Hash → α → Prop} {c : Cache α} {k : Hash} {v : α}

def All (P : Hash → α → Prop) (c : Cache α) : Prop :=
  ∀ e ∈ c.entries, P e.1 e.2

theorem All.nil (capacity : Nat) : (⟨capacity, []⟩ : Cache α).All P :=
  fun _ h => nomatch h

theorem All.of_peek (h : c.All P) (hpeek : c.peek? k = some v) : P k v := by
  obtain ⟨before, after, hentries, -⟩ := List.lookup_eq_some_iff.mp hpeek
  exact h (k, v) (by rw [hentries]; simp)

theorem All.without (h : c.All P) : ∀ e ∈ c.without k, P e.1 e.2 :=
  fun e he => h e (List.mem_filter.mp he).1

theorem All.touch (h : c.All P) : (c.touch k).All P := by
  unfold Cache.touch
  split
  · rename_i v hpeek
    intro e he
    rcases List.mem_cons.mp he with rfl | he
    · exact h.of_peek hpeek
    · exact h.without e he
  · exact h

theorem All.put (h : c.All P) (hv : P k v) : (c.put k v).All P := by
  intro e he
  rcases List.mem_cons.mp (List.mem_of_mem_take he) with rfl | he
  · exact hv
  · exact h.without e he

end Cache

-- ---------------------------------------------------------------------------
-- One lookup
-- ---------------------------------------------------------------------------

/-- A header that is found is a block of the tree and has the hash and the height it was
asked for by. -/
def ChainReader.Within (chain : ChainReader) (blocks : Header → Prop) : Prop :=
  ∀ hash number b, chain.header hash number = some b → blocks b ∧ b.hash = hash ∧ b.number = number

theorem lt_sub_one_of_succ_lt {n m : UInt64} (h : saturatingSucc n < m) : n < m - 1 := by
  rw [UInt64.lt_iff_toNat_lt] at h ⊢
  unfold saturatingSucc UInt64.ofNatClamp at h
  split at h
  · rw [UInt64.toNat_ofNatLT] at h
    have hone : (1 : UInt64) ≤ m := by
      rw [UInt64.le_iff_toNat_le]
      exact Nat.le_of_lt (Nat.lt_of_le_of_lt (Nat.le_add_left 1 _) h)
    rw [UInt64.toNat_sub_of_le _ _ hone]
    exact Nat.lt_sub_of_add_lt h
  -- at the greatest height the sum saturates, and no block is above it
  · rw [UInt64.toNat_ofNatLT] at h
    exact absurd h (Nat.not_lt.mpr (Nat.le_sub_one_of_lt m.toNat_lt))

namespace PolicyPart

variable {α : Type} (part : PolicyPart α)

/-- Reading the part answers what the ledger holds, for whatever block it is read. -/
def ReadsAs (e : Engine) (read : Ledger → Except ContractError α) : Prop :=
  ∀ chain header r, (exec (part.fetch ({ e with chain }.context header)) r).1 = read r.ledger

/-- A block after whose ledger the last change is below its height did not change the
part. -/
def Tracked (blocks : Header → Prop) (state : Hash → Ledger)
    (read : Ledger → Except ContractError α) : Prop :=
  ∀ b, blocks b → part.updated (state b.hash) < b.number →
    read (state b.hash) = read (state b.parentHash)

def Holds (state : Hash → Ledger) (read : Ledger → Except ContractError α) (k : Hash) (v : α) :
    Prop :=
  read (state k) = .ok v

variable {part} {blocks : Header → Prop} {state : Hash → Ledger}
variable {read : Ledger → Except ContractError α} {ctx : BlockContext} {cache : Cache α}
variable {r : Run}

theorem lookback_holds (htracked : part.Tracked blocks state read)
    (hchain : ctx.chain.Within blocks)
    (hcache : cache.All (Holds state read)) {l : Ledger}
    (hupdated : part.updated l = part.updated (state ctx.header.parentHash)) {v : α}
    (h : part.lookback? ctx l cache = some v) : Holds state read ctx.header.parentHash v := by
  unfold lookback? at h
  simp only [Option.bind_eq_bind, Option.bind_eq_some_iff, Option.guard_eq_some'] at h
  obtain ⟨_, ⟨-, hstale⟩, parent, hparent, hpeek⟩ := h
  obtain ⟨hblock, hhash, hnumber⟩ := hchain _ _ _ hparent
  have hunchanged := htracked parent hblock (by
    rw [hhash, hnumber, ← hupdated]
    exact lt_sub_one_of_succ_lt hstale)
  rw [Holds, ← hhash, hunchanged]
  exact hcache.of_peek hpeek

theorem exec_find_entry {v : α} (hentry : cache.peek? ctx.header.parentHash = some v) :
    exec (part.find ctx cache) r =
      (.ok (v, cache.touch ctx.header.parentHash), r.record (.metric (.hit part.kind .entry))) := by
  unfold find
  simp only [hentry]
  rfl

theorem exec_find_lookback {v : α} (hentry : cache.peek? ctx.header.parentHash = none)
    (hback : part.lookback? ctx r.ledger cache = some v) :
    exec (part.find ctx cache) r =
      (.ok (v, cache.put ctx.header.parentHash v),
        r.record (.metric (.hit part.kind .lookback))) := by
  unfold find
  simp only [hentry]
  rw [Step.exec_bind_of_ok (Step.exec_ledger r), hback]
  rfl

theorem exec_find_read (hentry : cache.peek? ctx.header.parentHash = none)
    (hback : part.lookback? ctx r.ledger cache = none) :
    exec (part.find ctx cache) r =
      ((exec (part.fetch ctx) (r.record (.metric (.read part.kind)))).1.map
          fun v => (v, cache.put ctx.header.parentHash v),
        (exec (part.fetch ctx) (r.record (.metric (.read part.kind)))).2) := by
  unfold find
  simp only [hentry]
  rw [Step.exec_bind_of_ok (Step.exec_ledger r), hback, Step.exec_bind_of_ok (Step.exec_count _ r),
    exec_bind]
  cases exec (part.fetch ctx) (r.record (.metric (.read part.kind))) with
  | mk x q => cases x <;> rfl

theorem find_ok {v : α} {cache' : Cache α}
    (h : (exec (part.find ctx cache) r).1 = .ok (v, cache')) :
    cache.peek? ctx.header.parentHash = some v ∧ cache' = cache.touch ctx.header.parentHash ∨
      cache' = cache.put ctx.header.parentHash v := by
  cases hentry : cache.peek? ctx.header.parentHash with
  | some w =>
    rw [exec_find_entry hentry] at h
    cases h
    exact .inl ⟨rfl, rfl⟩
  | none =>
    cases hback : part.lookback? ctx r.ledger cache with
    | some w =>
      rw [exec_find_lookback hentry hback] at h
      cases h
      exact .inr rfl
    | none =>
      rw [exec_find_read hentry hback] at h
      cases hfetch : (exec (part.fetch ctx) (r.record (.metric (.read part.kind)))).1 with
      | error cause =>
        rw [hfetch] at h
        cases h
      | ok w =>
        rw [hfetch] at h
        cases h
        exact .inr rfl

theorem find_error {cause : ContractError} {q : Run}
    (h : exec (part.find ctx cache) r = (.error cause, q)) :
    exec (part.fetch ctx) (r.record (.metric (.read part.kind))) = (.error cause, q) := by
  cases hentry : cache.peek? ctx.header.parentHash with
  | some w =>
    rw [exec_find_entry hentry] at h
    cases h
  | none =>
    cases hback : part.lookback? ctx r.ledger cache with
    | some w =>
      rw [exec_find_lookback hentry hback] at h
      cases h
    | none =>
      rw [exec_find_read hentry hback] at h
      rcases hfetch : exec (part.fetch ctx) (r.record (.metric (.read part.kind))) with
        ⟨cause' | w, q'⟩
      all_goals
        rw [hfetch] at h
        cases h
      rfl

variable (part ctx cache) in
/-- A lookup answers what reading would, and remembers nothing else. -/
theorem find_answer (hreads : ∀ q, (exec (part.fetch ctx) q).1 = read q.ledger)
    (htracked : part.Tracked blocks state read) (hchain : ctx.chain.Within blocks)
    (hcache : cache.All (Holds state read))
    (hread : read r.ledger = read (state ctx.header.parentHash))
    (hupdated : part.updated r.ledger = part.updated (state ctx.header.parentHash)) :
    (∃ v cache', (exec (part.find ctx cache) r).1 = .ok (v, cache') ∧ read r.ledger = .ok v ∧
      cache'.All (Holds state read)) ∨
    ∃ cause, (exec (part.find ctx cache) r).1 = .error cause ∧ read r.ledger = .error cause := by
  cases hentry : cache.peek? ctx.header.parentHash with
  | some v =>
    rw [exec_find_entry hentry]
    exact .inl ⟨v, _, rfl, hread.trans (hcache.of_peek hentry), hcache.touch⟩
  | none =>
    cases hback : part.lookback? ctx r.ledger cache with
    | some v =>
      have hv := lookback_holds htracked hchain hcache hupdated hback
      rw [exec_find_lookback hentry hback]
      exact .inl ⟨v, _, rfl, hread.trans hv, hcache.put hv⟩
    | none =>
      have hfetch := hreads (r.record (.metric (.read part.kind)))
      rw [Run.record_ledger] at hfetch
      rw [exec_find_read hentry hback, hfetch]
      cases hanswer : read r.ledger with
      | error cause => exact .inr ⟨cause, rfl, rfl⟩
      | ok v => exact .inl ⟨v, _, rfl, rfl, hcache.put (hread.symm.trans hanswer)⟩

variable (part ctx cache) in
theorem find_keeps {P : Run → Prop} (hrecord : ∀ q k, P q → P (q.record (.metric k)))
    (hfetch : ∀ q, P q → P (exec (part.fetch ctx) q).2) (h : P r) :
    P (exec (part.find ctx cache) r).2 := by
  cases hentry : cache.peek? ctx.header.parentHash with
  | some v =>
    rw [exec_find_entry hentry]
    exact hrecord _ _ h
  | none =>
    cases hback : part.lookback? ctx r.ledger cache with
    | some v =>
      rw [exec_find_lookback hentry hback]
      exact hrecord _ _ h
    | none =>
      rw [exec_find_read hentry hback]
      exact hfetch _ (hrecord _ _ h)

theorem exec_lookup : exec (part.lookup ctx cache) r =
    ((exec (part.find ctx cache) r).1,
      (exec (part.find ctx cache) r).2.record (.metric (.observed part.kind))) := rfl

end PolicyPart

-- ---------------------------------------------------------------------------
-- What reading leaves alone
-- ---------------------------------------------------------------------------

namespace Lockstep

open Step (Agree)

variable {R : Run → Run → Prop} {ctx ctx' : BlockContext} (L : Lockstep R ctx ctx')

theorem fixedPolicies (ctx : BlockContext) (policies : PolicyCaches) :
    Lockstep (fun r r' => r = r' ∧ r.policies = policies) ctx ctx where
  header := rfl
  site := rfl
  ledger h := h.1 ▸ rfl
  edit _ h := ⟨h.1 ▸ rfl, h.2⟩
  called _ _ h := ⟨h.1 ▸ rfl, h.2⟩
  finalised _ h := ⟨h.1 ▸ rfl, h.2⟩
  counted _ h := ⟨h.1 ▸ rfl, h.2⟩
  call _ _ := rfl

include L

theorem fetchBlacklist : Agree R (StakeGov.fetchBlacklist ctx) (StakeGov.fetchBlacklist ctx') := by
  have hlist : ∀ name, Agree R
      (do Registry.addressList "blacklist" (← ctx.callAsCoinbase .addressList name []))
      (do Registry.addressList "blacklist" (← ctx'.callAsCoinbase .addressList name [])) :=
    fun name => (L.callAsCoinbase _ name _).bind fun _ => expect _ _
  exact (hlist _).bind fun _ => (hlist _).bind fun _ => .refl_pure _

theorem fetchRules : Agree R (StakeGov.fetchRules ctx) (StakeGov.fetchRules ctx') := by
  have hcount : Agree R (Registry.ruleCount ctx) (Registry.ruleCount ctx') :=
    (L.callAsCoinbase _ _ _).bind fun _ => smallNumber _ _
  have hrule : ∀ index, Agree R (Registry.rule ctx index) (Registry.rule ctx' index) :=
    fun _ => (L.callAsCoinbase _ _ _).bind fun _ => expect _ _
  exact (hcount.bind fun count => readFrom hrule 0 count.toNat).bind fun _ => .refl_pure _

end Lockstep

theorem exec_fetchBlacklist_policies (ctx : BlockContext) (r : Run) :
    (exec (fetchBlacklist ctx) r).2.policies = r.policies :=
  ((Lockstep.fixedPolicies ctx r.policies).fetchBlacklist r r ⟨rfl, rfl⟩).2.2

theorem exec_fetchRules_policies (ctx : BlockContext) (r : Run) :
    (exec (fetchRules ctx) r).2.policies = r.policies :=
  ((Lockstep.fixedPolicies ctx r.policies).fetchRules r r ⟨rfl, rfl⟩).2.2

-- ---------------------------------------------------------------------------
-- The lookups of the engine
-- ---------------------------------------------------------------------------

def Blacklist.verdict (list : Blacklist) (sender : Address) (tx : Transaction) :
    Except EngineError Unit :=
  if list.bans sender .sender then .error (.validation (.addressDenied sender))
  else match tx.recipient with
    | some recipient =>
      if list.bans recipient .recipient then .error (.validation (.addressDenied recipient))
      else .ok ()
    | none => .ok ()

namespace Engine

variable {e : Engine} {header : Header} {r : Run}

theorem exec_blacklist : exec (e.blacklist header) r =
    match exec (blacklistPart.find (e.context header) r.policies.blacklists) r with
    | (.ok (list, cache), q) =>
      (.ok list, { q.record (.metric (.observed .blacklist)) with
        policies := { q.policies with blacklists := cache } })
    | (.error cause, q) => (.error cause, q.record (.metric (.observed .blacklist))) := by
  unfold blacklist
  rw [Step.exec_bind_of_ok (Step.exec_get r), exec_bind, PolicyPart.exec_lookup]
  rcases exec (blacklistPart.find (e.context header) r.policies.blacklists) r with
    ⟨cause | ⟨list, cache⟩, q⟩ <;> rfl

theorem exec_eventRules : exec (e.eventRules header) r =
    match exec (rulesPart.find (e.context header) r.policies.rules) r with
    | (.ok (rules, cache), q) =>
      (.ok rules, { q.record (.metric (.observed .rules)) with
        policies := { q.policies with rules := cache } })
    | (.error cause, q) => (.error cause, q.record (.metric (.observed .rules))) := by
  unfold eventRules
  rw [Step.exec_bind_of_ok (Step.exec_get r), exec_bind, PolicyPart.exec_lookup]
  rcases exec (rulesPart.find (e.context header) r.policies.rules) r with
    ⟨cause | ⟨rules, cache⟩, q⟩ <;> rfl

theorem exec_validateTransaction (sender : Address) (tx : Transaction) :
    exec (e.validateTransaction header sender tx) r =
      (((exec (e.blacklist header) r).1.mapError .contract).bind (·.verdict sender tx),
        (exec (e.blacklist header) r).2) := by
  unfold validateTransaction
  rw [exec_bind, Step.exec_mapError]
  rcases exec (e.blacklist header) r with ⟨cause | list, q⟩
  · rfl
  · simp only [Except.mapError, Except.bind, Blacklist.verdict]
    split
    · rfl
    · cases tx.recipient with
      | none => rfl
      | some recipient =>
        dsimp only
        split <;> rfl

theorem exec_policy : exec (e.policy header) r =
    match exec (e.blacklist header) r with
    | (.error _, q) => (.ok none, q)
    | (.ok list, q) =>
      (.ok ((exec (e.eventRules header) q).1.toOption.map fun rules => ⟨list, rules⟩),
        (exec (e.eventRules header) q).2) := by
  unfold policy
  rw [exec_bind, Step.exec_outcome]
  rcases exec (e.blacklist header) r with ⟨cause | list, q⟩
  · rfl
  · dsimp only
    rw [exec_bind, Step.exec_outcome]
    rcases exec (e.eventRules header) q with ⟨cause | rules, q'⟩ <;> rfl

-- ---------------------------------------------------------------------------
-- Lookups over a tree of blocks
-- ---------------------------------------------------------------------------

/-- A tree of blocks with the ledger after each, and what reading the policy answers on a
ledger: nothing else matters to a reading, reading the blacklist leaves the rules alone,
and the ledgers keep the heights of the last changes right. -/
structure PolicyTree (e : Engine) (blocks : Header → Prop) (state : Hash → Ledger)
    (readBlacklist : Ledger → Except ContractError Blacklist)
    (readRules : Ledger → Except ContractError EventRules) : Prop where
  blacklist_reads : blacklistPart.ReadsAs e readBlacklist
  rules_reads : rulesPart.ReadsAs e readRules
  apart : ∀ chain header r,
    let after := (exec (fetchBlacklist ({ e with chain }.context header)) r).2.ledger
    readRules after = readRules r.ledger ∧
      PolicyStorage.rulesUpdated after = PolicyStorage.rulesUpdated r.ledger
  blacklist_tracked : blacklistPart.Tracked blocks state readBlacklist
  rules_tracked : rulesPart.Tracked blocks state readRules

inductive Query where
  | blacklist
  | eventRules
  | validate (sender : Address) (tx : Transaction)
  | policy

def Query.after (e : Engine) (header : Header) (r : Run) : Query → Run
  | .blacklist => (exec (e.blacklist header) r).2
  | .eventRules => (exec (e.eventRules header) r).2
  | .validate sender tx => (exec (e.validateTransaction header sender tx) r).2
  | .policy => (exec (e.policy header) r).2

/-- The caches that lookups can build from empty ones, each on the ledger after the parent
of its header and with the headers known by then. -/
inductive Reachable (e : Engine) (blocks : Header → Prop) (state : Hash → Ledger) :
    PolicyCaches → Prop where
  | start (blacklists rules : Nat) : Reachable e blocks state ⟨⟨blacklists, []⟩, ⟨rules, []⟩⟩
  | lookup {chain header r} (query : Query) (hreach : Reachable e blocks state r.policies)
      (hchain : chain.Within blocks) (hledger : r.ledger = state header.parentHash) :
      Reachable e blocks state (query.after { e with chain } header r).policies

section
variable {blocks : Header → Prop} {state : Hash → Ledger}
variable {readBlacklist : Ledger → Except ContractError Blacklist}
variable {readRules : Ledger → Except ContractError EventRules}

structure Sound (state : Hash → Ledger)
    (readBlacklist : Ledger → Except ContractError Blacklist)
    (readRules : Ledger → Except ContractError EventRules) (caches : PolicyCaches) : Prop where
  blacklists : caches.blacklists.All (PolicyPart.Holds state readBlacklist)
  rules : caches.rules.All (PolicyPart.Holds state readRules)

/-- What a lookup comes to: the answer of the contract, and caches that are still sound or,
if it failed, those from before. -/
structure Transparent (state : Hash → Ledger)
    (readBlacklist : Ledger → Except ContractError Blacklist)
    (readRules : Ledger → Except ContractError EventRules) (read : Except ContractError α) (r : Run)
    (outcome : Except ContractError α × Run) : Prop where
  answer : outcome.1 = read
  sound : Sound state readBlacklist readRules outcome.2.policies
  unchanged : ∀ cause, read = .error cause → outcome.2.policies = r.policies

theorem PolicyTree.transparent_blacklist
    (T : PolicyTree e blocks state readBlacklist readRules) (hchain : e.chain.Within blocks)
    (hsound : Sound state readBlacklist readRules r.policies)
    (hledger : r.ledger = state header.parentHash) :
    Transparent state readBlacklist readRules (readBlacklist r.ledger) r
        (exec (e.blacklist header) r) ∧
      (exec (e.blacklist header) r).2.policies.rules = r.policies.rules ∧
      readRules (exec (e.blacklist header) r).2.ledger = readRules r.ledger ∧
      PolicyStorage.rulesUpdated (exec (e.blacklist header) r).2.ledger =
        PolicyStorage.rulesUpdated r.ledger := by
  have hanswer := PolicyPart.find_answer blacklistPart (e.context header) r.policies.blacklists
    (T.blacklist_reads e.chain header) T.blacklist_tracked hchain hsound.blacklists
    (congrArg readBlacklist hledger) (congrArg blacklistPart.updated hledger)
  have hpolicies := PolicyPart.find_keeps blacklistPart (e.context header) r.policies.blacklists
    (P := fun q => q.policies = r.policies) (fun _ _ h => h)
    (fun q h => (exec_fetchBlacklist_policies _ q).trans h) rfl
  have hkept := PolicyPart.find_keeps blacklistPart (e.context header) r.policies.blacklists
    (P := fun q => readRules q.ledger = readRules r.ledger ∧
      PolicyStorage.rulesUpdated q.ledger = PolicyStorage.rulesUpdated r.ledger)
    (fun _ _ h => h) (fun q h => ⟨(T.apart e.chain header q).1.trans h.1,
      (T.apart e.chain header q).2.trans h.2⟩) ⟨rfl, rfl⟩
  rw [exec_blacklist]
  rcases hfind : exec (blacklistPart.find (e.context header) r.policies.blacklists) r with ⟨x, q⟩
  rw [hfind] at hanswer hpolicies hkept
  replace hpolicies : q.policies = r.policies := hpolicies
  rcases hanswer with ⟨list, cache, rfl, hread, hcache⟩ | ⟨cause, rfl, hread⟩
  · rw [hread]
    dsimp only
    rw [hpolicies]
    exact ⟨⟨rfl, ⟨hcache, hsound.rules⟩, fun _ h => nomatch h⟩, rfl, hkept⟩
  · rw [hread]
    dsimp only [Run.record_policies]
    rw [hpolicies]
    exact ⟨⟨rfl, hpolicies ▸ hsound, fun _ _ => hpolicies⟩, rfl, hkept⟩

theorem PolicyTree.transparent_eventRules
    (T : PolicyTree e blocks state readBlacklist readRules) (hchain : e.chain.Within blocks)
    (hsound : Sound state readBlacklist readRules r.policies)
    (hread : readRules r.ledger = readRules (state header.parentHash))
    (hupdated : PolicyStorage.rulesUpdated r.ledger =
      PolicyStorage.rulesUpdated (state header.parentHash)) :
    Transparent state readBlacklist readRules (readRules r.ledger) r
      (exec (e.eventRules header) r) := by
  have hanswer := PolicyPart.find_answer rulesPart (e.context header) r.policies.rules
    (T.rules_reads e.chain header) T.rules_tracked hchain hsound.rules hread hupdated
  have hpolicies := PolicyPart.find_keeps rulesPart (e.context header) r.policies.rules
    (P := fun q => q.policies = r.policies) (fun _ _ h => h)
    (fun q h => (exec_fetchRules_policies _ q).trans h) rfl
  rw [exec_eventRules]
  rcases hfind : exec (rulesPart.find (e.context header) r.policies.rules) r with ⟨x, q⟩
  rw [hfind] at hanswer hpolicies
  replace hpolicies : q.policies = r.policies := hpolicies
  rcases hanswer with ⟨rules, cache, rfl, hread, hcache⟩ | ⟨cause, rfl, hread⟩
  · rw [hread]
    dsimp only
    rw [hpolicies]
    exact ⟨rfl, ⟨hsound.blacklists, hcache⟩, fun _ h => nomatch h⟩
  · rw [hread]
    exact ⟨rfl, hpolicies ▸ hsound, fun _ _ => hpolicies⟩

theorem PolicyTree.transparent_policy
    (T : PolicyTree e blocks state readBlacklist readRules) (hchain : e.chain.Within blocks)
    (hsound : Sound state readBlacklist readRules r.policies)
    (hledger : r.ledger = state header.parentHash) :
    (exec (e.policy header) r).1 =
        .ok (do return ⟨← (readBlacklist r.ledger).toOption, ← (readRules r.ledger).toOption⟩) ∧
      Sound state readBlacklist readRules (exec (e.policy header) r).2.policies ∧
      (∀ cause, readBlacklist r.ledger = .error cause →
        (exec (e.policy header) r).2.policies = r.policies) ∧
      (∀ cause, readRules r.ledger = .error cause →
        (exec (e.policy header) r).2.policies.rules = r.policies.rules) := by
  obtain ⟨hfirst, hrules, hread, hupdated⟩ := T.transparent_blacklist hchain hsound hledger
  rw [exec_policy]
  rcases hrun : exec (e.blacklist header) r with ⟨x, q⟩
  rw [hrun] at hfirst hrules hread hupdated
  obtain rfl : x = readBlacklist r.ledger := hfirst.answer
  cases hanswer : readBlacklist r.ledger with
  | error cause =>
    have hsame := hfirst.unchanged cause hanswer
    exact ⟨rfl, hfirst.sound, fun _ _ => hsame, fun _ _ => congrArg PolicyCaches.rules hsame⟩
  | ok list =>
    -- the rules are looked up on the ledger that reading the blacklist left
    have hsecond := T.transparent_eventRules hchain hfirst.sound
      (hread.trans (congrArg readRules hledger))
      (hupdated.trans (congrArg PolicyStorage.rulesUpdated hledger))
    replace hread : readRules q.ledger = readRules r.ledger := hread
    dsimp only at hsecond ⊢
    rw [hread] at hsecond
    refine ⟨?_, hsecond.sound, fun _ h => (nomatch h), fun cause h => ?_⟩
    · rw [hsecond.answer]
      cases readRules r.ledger <;> rfl
    · rw [hsecond.unchanged cause h]
      exact hrules

theorem PolicyTree.after_sound
    (T : PolicyTree e blocks state readBlacklist readRules) (hchain : e.chain.Within blocks)
    (hsound : Sound state readBlacklist readRules r.policies)
    (hledger : r.ledger = state header.parentHash) (query : Query) :
    Sound state readBlacklist readRules (query.after e header r).policies := by
  have hblacklist := (T.transparent_blacklist hchain hsound hledger).1.sound
  cases query with
  | blacklist => exact hblacklist
  | eventRules =>
    exact (T.transparent_eventRules hchain hsound (congrArg readRules hledger)
      (congrArg PolicyStorage.rulesUpdated hledger)).sound
  | validate sender tx =>
    rw [Query.after, exec_validateTransaction]
    exact hblacklist
  | policy => exact (T.transparent_policy hchain hsound hledger).2.1

theorem PolicyTree.at_chain (T : PolicyTree e blocks state readBlacklist readRules)
    (chain : ChainReader) : PolicyTree { e with chain } blocks state readBlacklist readRules :=
  ⟨T.blacklist_reads, T.rules_reads, T.apart, T.blacklist_tracked, T.rules_tracked⟩

/-- All caches that lookups can build are sound. -/
theorem PolicyTree.reachable_sound (T : PolicyTree e blocks state readBlacklist readRules)
    {caches : PolicyCaches} (hreach : Reachable e blocks state caches) :
    Sound state readBlacklist readRules caches := by
  induction hreach with
  | start blacklists rules => exact ⟨Cache.All.nil blacklists, Cache.All.nil rules⟩
  | lookup query _ hchain hledger ih => exact (T.at_chain _).after_sound hchain ih hledger query

/-- After whatever lookups, each lookup answers what reading the contract on the ledger
after the parent would, and one that fails leaves the caches as they were. -/
theorem remembered_policy_is_current (T : PolicyTree e blocks state readBlacklist readRules)
    (header : Header) (hreach : Reachable e blocks state r.policies) {chain : ChainReader}
    (hchain : chain.Within blocks) (hledger : r.ledger = state header.parentHash) :
    ((exec ({ e with chain }.blacklist header) r).1 = readBlacklist r.ledger ∧
      (exec ({ e with chain }.eventRules header) r).1 = readRules r.ledger ∧
      (∀ sender tx, (exec ({ e with chain }.validateTransaction header sender tx) r).1 =
        ((readBlacklist r.ledger).mapError .contract).bind (·.verdict sender tx)) ∧
      (exec ({ e with chain }.policy header) r).1 =
        .ok (do return ⟨← (readBlacklist r.ledger).toOption, ← (readRules r.ledger).toOption⟩)) ∧
    (∀ cause, readBlacklist r.ledger = .error cause →
      (exec ({ e with chain }.blacklist header) r).2.policies = r.policies ∧
      (∀ sender tx,
        (exec ({ e with chain }.validateTransaction header sender tx) r).2.policies = r.policies) ∧
      (exec ({ e with chain }.policy header) r).2.policies = r.policies) ∧
    (∀ cause, readRules r.ledger = .error cause →
      (exec ({ e with chain }.eventRules header) r).2.policies = r.policies ∧
      (exec ({ e with chain }.policy header) r).2.policies.rules = r.policies.rules) := by
  have hsound := T.reachable_sound hreach
  have hblacklist := ((T.at_chain chain).transparent_blacklist hchain hsound hledger).1
  have hrules := (T.at_chain chain).transparent_eventRules hchain hsound
    (congrArg readRules hledger) (congrArg PolicyStorage.rulesUpdated hledger)
  obtain ⟨hpolicy, -, hfirst, hsecond⟩ :=
    (T.at_chain chain).transparent_policy hchain hsound hledger
  refine ⟨⟨hblacklist.answer, hrules.answer, fun sender tx => ?_, hpolicy⟩, fun cause h => ?_,
    fun cause h => ?_⟩
  · rw [exec_validateTransaction, hblacklist.answer]
  · refine ⟨hblacklist.unchanged cause h, fun sender tx => ?_, hfirst cause h⟩
    rw [exec_validateTransaction]
    exact hblacklist.unchanged cause h
  · exact ⟨hrules.unchanged cause h, hsecond cause h⟩

end

end Engine

-- ---------------------------------------------------------------------------
-- The sample policy
-- ---------------------------------------------------------------------------

namespace SamplePolicy

def context (chain : ChainReader) (header : Header) : BlockContext :=
  { engine with chain }.context header

section
variable (chain : ChainReader) (header : Header) (r : Run)

theorem exec_call {data : Bytes} (name : String) (args : List Abi.Token)
    (hpack : SystemContract.addressList.pack name args = .ok data) :
    ∃ q, exec ((context chain header).callAsCoinbase .addressList name args) r =
        (SystemContract.addressList.values name (answer (changed r.ledger)), q) ∧
      changed q.ledger = changed r.ledger ∧
      PolicyStorage.rulesUpdated q.ledger = PolicyStorage.rulesUpdated r.ledger := by
  refine ⟨(context chain header).afterCall (BlockContext.callMessage header.coinbase
    SystemContract.addressList.address data 0) r, ?_, rfl, rfl⟩
  exact (context chain header).exec_callMethod hpack

def bannedList (changed : Bool) : List Address :=
  if changed then [banned] else []

theorem exec_bannedList (name : String)
    (hpack : ∃ data, SystemContract.addressList.pack name [] = .ok data)
    (hvalues : ∀ b, SystemContract.addressList.values name (answer b) =
      .ok [.ofAddresses (bannedList b)]) :
    ∃ q, exec (do
          let tokens ← (context chain header).callAsCoinbase .addressList name []
          Registry.addressList "blacklist" tokens) r =
        (.ok (bannedList (changed r.ledger)), q) ∧
      changed q.ledger = changed r.ledger ∧
      PolicyStorage.rulesUpdated q.ledger = PolicyStorage.rulesUpdated r.ledger := by
  obtain ⟨data, hpack⟩ := hpack
  obtain ⟨q, hcall, hq⟩ := exec_call chain header r name [] hpack
  refine ⟨q, ?_, hq⟩
  rw [hvalues] at hcall
  rw [Step.exec_bind_of_ok hcall]
  cases changed r.ledger <;> rfl

set_option maxRecDepth 10000 in
theorem exec_fetchBlacklist :
    (exec (fetchBlacklist (context chain header)) r).1 = readBlacklist r.ledger ∧
      changed (exec (fetchBlacklist (context chain header)) r).2.ledger = changed r.ledger ∧
      PolicyStorage.rulesUpdated (exec (fetchBlacklist (context chain header)) r).2.ledger =
        PolicyStorage.rulesUpdated r.ledger := by
  obtain ⟨q, hsenders, hq, hq'⟩ := exec_bannedList chain header r "getBlacksFrom" ⟨_, rfl⟩
    fun b => by cases b <;> rfl
  obtain ⟨q₂, hrecipients, hq₂, hq₂'⟩ := exec_bannedList chain header q "getBlacksTo" ⟨_, rfl⟩
    fun b => by cases b <;> rfl
  have hrun : exec (fetchBlacklist (context chain header)) r = (readBlacklist r.ledger, q₂) := by
    rw [fetchBlacklist, Registry.bannedSenders, Step.exec_bind_of_ok hsenders,
      Registry.bannedRecipients, Step.exec_bind_of_ok hrecipients, hq, readBlacklist]
    cases changed r.ledger <;> rfl
  rw [hrun]
  exact ⟨rfl, hq₂.trans hq, hq₂'.trans hq'⟩

set_option maxRecDepth 10000 in
theorem exec_fetchRules :
    (exec (fetchRules (context chain header)) r).1 = readRules r.ledger := by
  obtain ⟨q, hcount, hq, -⟩ := exec_call chain header r "rulesLen" [] rfl
  obtain ⟨q₂, hrule, -⟩ := exec_call chain header q "getRuleByIndex" [.uint 0] rfl
  rw [hq] at hrule
  have hlength : exec (Registry.ruleCount (context chain header)) r =
      (.ok (if changed r.ledger then 32 else 0), q) := by
    rw [Registry.ruleCount, exec_bind, hcount]
    cases changed r.ledger <;> rfl
  rw [fetchRules, Registry.ruleList, readRules]
  cases hchanged : changed r.ledger with
  | false =>
    rw [hchanged] at hlength
    rw [exec_bind, Step.exec_bind_of_ok hlength]
    rfl
  | true =>
    rw [hchanged] at hlength hrule
    have hfirst : exec (Registry.rule (context chain header) (UInt32.ofNat 0)) q =
        (.error (.unpack "getRuleByIndex" (Abi.Error.outOfRange (.uint 8)).message), q₂) :=
      Step.exec_bind_of_error hrule
    have hall : exec (Registry.readFrom (Registry.rule (context chain header)) 0 32) q =
        (.error (.unpack "getRuleByIndex" (Abi.Error.outOfRange (.uint 8)).message), q₂) :=
      Step.exec_bind_of_error hfirst
    exact congrArg Prod.fst (Step.exec_bind_of_error ((Step.exec_bind_of_ok hlength).trans hall))

end

theorem state_parent {b : Header} (hb : blocks b) (h : (5 : UInt64) < b.number) :
    state b.hash = state b.parentHash :=
  (if_neg hb.1).trans (if_neg (hb.2 h)).symm

theorem policyTree : Engine.PolicyTree engine blocks state readBlacklist readRules where
  blacklist_reads chain header r := (exec_fetchBlacklist chain header r).1
  rules_reads chain header r := exec_fetchRules chain header r
  apart chain header r := by
    obtain ⟨-, hchanged, hupdated⟩ := exec_fetchBlacklist chain header r
    change readRules (exec (fetchBlacklist (context chain header)) r).2.ledger = _ ∧ _
    exact ⟨by rw [readRules, readRules, hchanged], hupdated⟩
  blacklist_tracked b hb hupdated := by
    have hchange : blacklistPart.updated (state b.hash) = 5 := by
      rw [state, if_neg hb.1]
      decide +kernel
    rw [hchange] at hupdated
    rw [state_parent hb hupdated]
  rules_tracked b hb hupdated := by
    have hchange : rulesPart.updated (state b.hash) = 5 := by
      rw [state, if_neg hb.1]
      decide +kernel
    rw [hchange] at hupdated
    rw [state_parent hb hupdated]

def tip : Header := { number := 7, parentHash := 9 }

def beside : Header := { number := 1, parentHash := 9 }

def above : Header := { number := 8, parentHash := tip.hash }

def knowsTip : ChainReader where
  header hash number := if hash = tip.hash ∧ number = tip.number ∧ hash ≠ 0 then some tip else none
  headerByNumber _ := none

def start : Run := { ledger := state beside.parentHash, policies := ⟨⟨2, []⟩, ⟨2, []⟩⟩ }

theorem knowsTip_within : knowsTip.Within blocks := by
  intro hash number b h
  change (if _ then some tip else none) = some b at h
  split at h
  · rename_i hfound
    cases h
    obtain ⟨rfl, rfl, hne⟩ := hfound
    exact ⟨⟨hne, fun _ => by decide⟩, rfl, rfl⟩
  · cases h

end SamplePolicy

open SamplePolicy in
/-- What was remembered for a block beside the tip serves the block above the tip. -/
theorem sample_policy_is_current :
    ∃ r : Run, r.policies.blacklists.entries.length = 1 ∧ r.ledger = state above.parentHash ∧
      (exec ({ engine with chain := knowsTip }.blacklist above) r).1 = readBlacklist r.ledger := by
  obtain ⟨caches, hreach, hone⟩ : ∃ caches, Engine.Reachable engine blocks state caches ∧
      caches.blacklists.entries.length = 1 := by
    have hledger : start.ledger = state beside.parentHash := rfl
    exact ⟨_, @Engine.Reachable.lookup engine blocks state knowsTip beside start .blacklist
      (.start 2 2) knowsTip_within hledger, by decide +kernel⟩
  obtain ⟨r, hledger, rfl⟩ : ∃ r : Run, r.ledger = state above.parentHash ∧ r.policies = caches :=
    ⟨{ ledger := state above.parentHash, policies := caches }, by dsimp only, rfl⟩
  have hcurrent := Engine.remembered_policy_is_current policyTree above hreach knowsTip_within
    hledger
  exact ⟨r, hone, hledger, hcurrent.1.1⟩

end StakeGov
