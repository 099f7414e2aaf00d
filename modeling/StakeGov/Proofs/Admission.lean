import StakeGov.InMemory.SamplePolicies
import StakeGov.Proofs.BlockScript
import StakeGov.Proofs.LookupRuns

/-!
# Admission under the policy of a block

A transaction is admitted by the bans that its execution is checked against, though the two
tests are written apart (`Policy.bansAddress_eq`). The policy of a
block leaves its blacklist at the key of the block (`Engine.lookUp_remembers`), and looking
up the event rules does not touch it, so a transaction that is checked afterwards is checked
against this blacklist and nothing is asked of the contract again. Without a blacklist there
is no policy, and nothing is admitted (`Engine.admission_agrees_with_policy`).
-/

namespace StakeGov

open Registry (Accessor)
open Step (exec exec_bind)

-- ---------------------------------------------------------------------------
-- Verdicts
-- ---------------------------------------------------------------------------

/-- What a policy makes of a transaction. The sender comes first: only if it may send is the
recipient looked at, even if both are one account. -/
inductive Policy.Admission (p : Policy) (sender : Address) (tx : Transaction) :
    Except EngineError Unit → Prop where
  | sender (h : p.bansAddress sender .sender) :
      Admission p sender tx (.error (.validation (.addressDenied sender)))
  | recipient {recipient : Address} (hsender : ¬ p.bansAddress sender .sender)
      (htx : tx.recipient = some recipient) (h : p.bansAddress recipient .recipient) :
      Admission p sender tx (.error (.validation (.addressDenied recipient)))
  | admitted (hsender : ¬ p.bansAddress sender .sender)
      (h : ∀ recipient, tx.recipient = some recipient → ¬ p.bansAddress recipient .recipient) :
      Admission p sender tx (.ok ())

namespace Policy

variable {p : Policy} {sender : Address} {tx : Transaction} {out : Except EngineError Unit}

theorem admission_verdict (p : Policy) (sender : Address) (tx : Transaction) :
    p.Admission sender tx (p.blacklist.verdict sender tx) := by
  simp only [Blacklist.verdict, ← bansAddress_eq]
  by_cases hsender : p.bansAddress sender .sender
  · rw [if_pos hsender]
    exact .sender hsender
  · rw [if_neg hsender]
    cases htx : tx.recipient with
    | none =>
      refine .admitted hsender fun _ h => ?_
      rw [htx] at h
      cases h
    | some recipient =>
      by_cases hrecipient : p.bansAddress recipient .recipient
      · simp only [hrecipient, if_true]
        exact .recipient hsender htx hrecipient
      · simp only [hrecipient]
        exact .admitted hsender fun _ h => Option.some.inj (htx.symm.trans h) ▸ hrecipient

theorem Admission.verdict_eq (h : p.Admission sender tx out) :
    p.blacklist.verdict sender tx = out := by
  simp only [Blacklist.verdict, ← bansAddress_eq]
  cases h with
  | sender h => exact if_pos h
  | recipient hsender htx h =>
    refine (if_neg hsender).trans ?_
    rw [htx]
    exact if_pos h
  | admitted hsender h =>
    refine (if_neg hsender).trans ?_
    cases htx : tx.recipient with
    | none => rfl
    | some recipient => exact if_neg (h recipient htx)

theorem verdict_iff : p.blacklist.verdict sender tx = out ↔ p.Admission sender tx out :=
  ⟨fun h => h ▸ p.admission_verdict sender tx, Admission.verdict_eq⟩

end Policy

-- ---------------------------------------------------------------------------
-- What a lookup leaves
-- ---------------------------------------------------------------------------

theorem PolicyPart.find_remembers {α : Type} {part : PolicyPart α} {ctx : BlockContext}
    {cache cache' : Cache α} {v : α} {r : Run} (hroom : 0 < cache.capacity)
    (h : (exec (part.find ctx cache) r).1 = .ok (v, cache')) :
    cache'.peek? ctx.header.parentHash = some v := by
  rcases find_ok h with ⟨hpeek, rfl⟩ | rfl
  · exact (Cache.peek?_touch ..).trans hpeek
  · exact Cache.peek?_put_self hroom

namespace Engine

section
variable {e : Engine} {header : Header} (kind : PolicyKind) {value : kind.Value} {r q : Run}

theorem lookUp_remembers (hroom : 0 < (kind.cache r.policies).capacity)
    (h : exec (e.lookUp header kind) r = (.ok value, q)) :
    (kind.cache q.policies).peek? header.parentHash = some value := by
  rw [exec_lookUp] at h
  rcases hfind : exec (kind.part.find (e.context header) (kind.cache r.policies)) r with
    ⟨cause | ⟨v, cache⟩, q'⟩ <;> rw [hfind] at h <;> cases h
  rw [kind.cache_setCache]
  exact PolicyPart.find_remembers hroom (congrArg Prod.fst hfind)

theorem exec_lookUp_entry (h : (kind.cache r.policies).peek? header.parentHash = some value) :
    exec (e.lookUp header kind) r =
      (.ok value,
        { (r.record (.metric (.hit kind .entry))).record (.metric (.observed kind)) with
          policies := kind.setCache ((kind.cache r.policies).touch header.parentHash)
            r.policies }) := by
  rw [exec_lookUp, PolicyPart.exec_find_entry h, kind.part_kind]
  rfl

theorem lookUp_error {cause : ContractError}
    (h : exec (e.lookUp header kind) r = (.error cause, q)) :
    ∃ q', exec (kind.part.fetch (e.context header)) (r.record (.metric (.read kind))) =
        (.error cause, q') ∧ q = q'.record (.metric (.observed kind)) := by
  rw [exec_lookUp] at h
  rcases hfind : exec (kind.part.find (e.context header) (kind.cache r.policies)) r with
    ⟨cause' | ⟨v, cache⟩, q'⟩ <;> rw [hfind] at h <;> cases h
  have hfetch := PolicyPart.find_error hfind
  rw [kind.part_kind] at hfetch
  exact ⟨q', hfetch, rfl⟩

end

theorem eventRules_blacklists (e : Engine) (header : Header) (r : Run) :
    (exec (e.eventRules header) r).2.policies.blacklists = r.policies.blacklists := by
  have hkept := PolicyPart.find_keeps rulesPart (e.context header) r.policies.rules
    (P := fun q => q.policies.blacklists = r.policies.blacklists) (fun _ _ h => h)
    (fun q h => (congrArg PolicyCaches.blacklists (exec_fetchRules_policies _ q)).trans h) rfl
  rw [exec_eventRules]
  rcases hfind : exec (rulesPart.find (e.context header) r.policies.rules) r with
    ⟨cause | ⟨rules, cache⟩, q⟩ <;> rw [hfind] at hkept <;> exact hkept

theorem policy_some {e : Engine} {header : Header} {r q : Run} {p : Policy}
    (h : exec (e.policy header) r = (.ok (some p), q)) :
    ∃ q', exec (e.blacklist header) r = (.ok p.blacklist, q') ∧
      exec (e.eventRules header) q' = (.ok p.rules, q) := by
  rw [exec_policy] at h
  rcases hlist : exec (e.blacklist header) r with ⟨cause | list, q'⟩ <;> rw [hlist] at h
  · cases h
  · obtain ⟨hanswer, rfl⟩ := Prod.mk.inj h
    obtain ⟨rules, hrules, rfl⟩ := Option.map_eq_some_iff.mp (Except.ok.inj hanswer)
    exact ⟨q', rfl, Step.exec_of_toOption hrules⟩

end Engine

-- ---------------------------------------------------------------------------
-- A blacklist that cannot be read
-- ---------------------------------------------------------------------------

def Run.metrics (r : Run) : List Metric :=
  r.events.filterMap fun
    | .metric m => some m
    | .called .. | .finalised .. => none

theorem BlockContext.metrics_afterCall (ctx : BlockContext) (m : Message) (r : Run) :
    (ctx.afterCall m r).metrics = r.metrics := by
  rw [Run.metrics, events_afterCall, List.filterMap_append]
  exact List.append_nil _

theorem Run.calls_record_metric (r : Run) (m : Metric) :
    (r.record (.metric m)).calls = r.calls := by
  rw [calls, record, List.filterMap_append]
  exact List.append_nil _

theorem Run.metrics_record (r : Run) (m : Metric) :
    (r.record (.metric m)).metrics = r.metrics ++ [m] := by
  rw [metrics, record, List.filterMap_append]
  rfl

theorem fetchBlacklist_error {ctx : BlockContext} {r q : Run} {cause : ContractError}
    (h : exec (fetchBlacklist ctx) r = (.error cause, q)) :
    q.metrics = r.metrics ∧ ∃ asked, asked <+: [Accessor.bannedSenders, .bannedRecipients] ∧
      q.calls = r.calls ++ asked.map fun a => (ctx.site, a.message ctx.header) := by
  have hsenders := Accessor.exec_step_run .bannedSenders ctx r
  rcases Step.exec_bind_error.mp h with hfirst | ⟨senders, q', hfirst, hrest⟩
  · obtain rfl : q = _ := (congrArg Prod.snd hfirst).symm.trans hsenders
    exact ⟨ctx.metrics_afterCall _ r, [.bannedSenders], List.prefix_append _ _,
      ctx.calls_afterCall _ r⟩
  · obtain rfl : q' = _ := (congrArg Prod.snd hfirst).symm.trans hsenders
    rcases Step.exec_bind_error.mp hrest with hsecond | ⟨recipients, q'', -, hdone⟩
    · obtain rfl : q = _ :=
        (congrArg Prod.snd hsecond).symm.trans (Accessor.exec_step_run .bannedRecipients ctx _)
      refine ⟨(ctx.metrics_afterCall _ _).trans (ctx.metrics_afterCall _ r), _,
        List.prefix_refl _, ?_⟩
      rw [ctx.calls_afterCall, ctx.calls_afterCall, List.append_assoc]
      rfl
    · cases hdone

-- ---------------------------------------------------------------------------
-- Admission
-- ---------------------------------------------------------------------------

/-- After the policy of a block was given out, a transaction that is checked for this block is
denied or admitted as the policy has it, on whatever ledger and with whatever headers known by
then, and the contract is not asked. If the blacklist cannot be read there is no policy, the
rules are not looked up, and a check fails with the same cause. The caches may hold anything,
but an engine has room in them (`initialCaches_ok`). -/
theorem Engine.admission_agrees_with_policy (e : Engine) (header : Header) {r : Run}
    (hroom : 0 < r.policies.blacklists.capacity) :
    (∀ p q, exec (e.policy header) r = (.ok (some p), q) → ∀ chain ledger sender tx,
      let admission := exec ({ e with chain }.validateTransaction header sender tx)
        { q with ledger }
      (∀ out, admission.1 = out ↔ p.Admission sender tx out) ∧
        admission.2.events = q.events ++
          [.metric (.hit .blacklist .entry), .metric (.observed .blacklist)] ∧
        admission.2.ledger = ledger ∧ admission.2.body = q.body) ∧
    ∀ cause q, exec (e.blacklist header) r = (.error cause, q) →
      exec (e.policy header) r = (.ok none, q) ∧
      (∀ sender tx,
        exec (e.validateTransaction header sender tx) r = (.error (.contract cause), q)) ∧
      q.policies = r.policies ∧ q.metrics = r.metrics ++ [.read .blacklist, .observed .blacklist] ∧
      ∃ asked, asked <+: [Accessor.bannedSenders, .bannedRecipients] ∧
        q.calls = r.calls ++ asked.map (Accessor.call header) := by
  constructor
  · intro p q h chain ledger sender tx
    obtain ⟨q', hblacklist, hrules⟩ := policy_some h
    have hentry : q.policies.blacklists.peek? header.parentHash = some p.blacklist := by
      have hkept := eventRules_blacklists e header q'
      rw [hrules] at hkept
      exact hkept ▸ lookUp_remembers .blacklist hroom hblacklist
    have hlookup : exec ({ e with chain }.blacklist header) { q with ledger } = _ :=
      exec_lookUp_entry .blacklist hentry
    rw [exec_validateTransaction, hlookup]
    exact ⟨fun out => Policy.verdict_iff, List.append_assoc .., rfl, rfl⟩
  · intro cause q h
    obtain ⟨q', hfetch, rfl⟩ := lookUp_error .blacklist h
    obtain ⟨hmetrics, asked, hasked, hcalls⟩ := fetchBlacklist_error hfetch
    have hpolicies := PolicyKind.exec_fetch_policies .blacklist (e.context header)
      (r.record (.metric (.read .blacklist)))
    rw [hfetch] at hpolicies
    refine ⟨?_, fun sender tx => ?_, hpolicies, ?_, asked, hasked, ?_⟩
    · rw [exec_policy, h]
    · rw [exec_validateTransaction, h]
      rfl
    · rw [Run.metrics_record, hmetrics, Run.metrics_record, List.append_assoc]
      rfl
    · rw [Run.calls_record_metric, hcalls, Run.calls_record_metric]
      congr 1
      refine List.map_congr_left fun a ha => ?_
      rcases List.mem_pair.mp (hasked.subset ha) with rfl | rfl <;> rfl

open SampleAnswers in
set_option maxRecDepth 10000 in
/-- Once both lists were read, nobody may send to the account 8. Where only the first can be
read there is no policy, and what the account 7 sends fails with the revert, not as denied. -/
theorem sample_transfer_denied :
    (∃ p q, exec ((engine rows).policy header) start = (.ok (some p), q) ∧
      (exec ((engine rows).validateTransaction header 5 { recipient := some 8 }) q).1 =
        .error (.validation (.addressDenied 8))) ∧
    ∃ q, exec ((engine [[.ofAddresses [7]]]).policy header) start = (.ok none, q) ∧
      exec ((engine [[.ofAddresses [7]]]).validateTransaction header 7 {}) start =
        (.error (.contract (.reverted "internal error")), q) ∧
      q.metrics = [.read .blacklist, .observed .blacklist] := by
  constructor
  · have hpolicy : exec ((engine rows).policy header) start =
        (.ok (some ⟨.ofLists [7] [8], .ofEntries []⟩), _) := Prod.ext rfl rfl
    obtain ⟨hverdict, -⟩ := (Engine.admission_agrees_with_policy (engine rows) header
      (by decide)).1 _ _ hpolicy (engine rows).chain _ 5 { recipient := some 8 }
    exact ⟨_, _, hpolicy, (hverdict _).mpr (.recipient (by decide) rfl (by decide))⟩
  · have hblacklist : exec ((engine [[.ofAddresses [7]]]).blacklist header) start =
        (.error (.reverted "internal error"), _) := Prod.ext rfl rfl
    obtain ⟨hnone, hfails, -, hmetrics, -⟩ := (Engine.admission_agrees_with_policy
      (engine [[.ofAddresses [7]]]) header (by decide)).2 _ _ hblacklist
    exact ⟨_, hnone, hfails 7 {}, hmetrics⟩

end StakeGov
