import StakeGov.InMemory.Node
import StakeGov.Proofs.Admission
import StakeGov.Proofs.CallDiscipline

/-!
# What the metrics account for

Two things that the engine does are counted: looking up a part of the policy, and punishing a
validator (`Deed`). Each deed leaves a group of its own on record, and around these groups
there are only calls that are not counted (`Course`, `Operation.course`). So the metrics of a
whole run of operations are those of its deeds, in their order, and of each part of the policy
there are as many lookups as hits and reads (`metrics_account_for_deeds`).
-/

namespace StakeGov

open Registry (Accessor)
open Step (exec Leads Keeps)

-- ---------------------------------------------------------------------------
-- Deeds
-- ---------------------------------------------------------------------------

namespace Engine

/-- Where a lookup finds the part of the policy; nowhere if it has to read it. -/
def source? (e : Engine) (header : Header) (kind : PolicyKind) (r : Run) : Option HitSource :=
  if ((kind.cache r.policies).peek? header.parentHash).isSome then some .entry
  else if (kind.part.lookback? (e.context header) r.ledger (kind.cache r.policies)).isSome then
    some .lookback
  else none

def punishable? (e : Engine) (header : Header) : Option Address := do
  let snapshot ← (e.parentSnapshot header).toOption
  let validator ← snapshot.turn header.number
  if snapshot.signedRecently validator then none else some validator

end Engine

def PolicyKind.counted (kind : PolicyKind) : Option HitSource → Metric
  | some source => .hit kind source
  | none => .read kind

/-- Something that is counted, and the run it starts from. -/
inductive Deed where
  | lookup (e : Engine) (header : Header) (kind : PolicyKind) (r : Run)
  | punishment (e : Engine) (ctx : BlockContext) (r : Run)

def Event.committed (site : Site) (header : Header) (m : Message) : List Event :=
  [.called site header m, .finalised site true]

namespace Deed

def before : Deed → Run
  | lookup _ _ _ r | punishment _ _ r => r

def after : Deed → Run
  | lookup e header kind r => (exec (e.lookUp header kind) r).2
  | punishment e ctx r => (exec (e.tryPunish ctx) r).2

def metrics : Deed → List Metric
  | lookup e header kind r => [kind.counted (e.source? header kind r), .observed kind]
  | punishment e ctx r => [.punished (exec (e.tryPunish ctx) r).1.isOk]

def looksUp (kind : PolicyKind) : Deed → Bool
  | lookup _ _ k _ => k = kind
  | punishment .. => false

/-- The group of events that a deed leaves. A lookup sends messages just if it is counted as a
read, and only such as read its part of the policy. A punishment is counted by the reply to its
one message, which also decides how it ends. -/
inductive Leaves : Deed → List Event → Prop
  | lookup {e header kind r messages}
      (hmessages : messages ≠ [] ↔ e.source? header kind r = none)
      (hpart : ∀ m ∈ messages, ∃ a : Accessor, a.part? = some kind ∧ a.Sends header m) :
      Leaves (lookup e header kind r)
        (.metric (kind.counted (e.source? header kind r)) ::
          messages.flatMap (Event.committed .block header) ++ [.metric (.observed kind)])
  | punishment {e ctx r validator m} (hvalidator : e.punishable? ctx.header = some validator)
      (hm : (Accessor.punish validator).Sends ctx.header m)
      (hanswer : (exec (e.tryPunish ctx) r).1.isOk = (ctx.reply m r.ledger).error.isNone) :
      Leaves (punishment e ctx r)
        (Event.committed ctx.site ctx.header m ++
          [.metric (.punished (ctx.reply m r.ledger).error.isNone)])

end Deed

/-- A message that no metric goes with: it neither reads the policy nor punishes, or it is what
a due proposal asks for. -/
def Uncounted (header : Header) (due : Proposal → Prop) (m : Message) : Prop :=
  (∃ a : Accessor, a.quiet ∧ a.Sends header m) ∨ ∃ p, due p ∧ p.kind = .call ∧ m = p.message

/-- From the start the run came about by the deeds, in their order. In between nothing is
counted, and what is remembered of the policy stays. -/
inductive Course (header : Header) (due : Proposal → Prop) (start : Run) : List Deed → Run → Prop
  | refl : Course header due start [] start
  | edit {deeds r q} (h : Course header due start deeds r) (hevents : q.events = r.events)
      (hpolicies : q.policies = r.policies) : Course header due start deeds q
  | call {deeds r q site m} (h : Course header due start deeds r) (hm : Uncounted header due m)
      (hevents : q.events = r.events ++ Event.committed site header m)
      (hpolicies : q.policies = r.policies) : Course header due start deeds q
  | deed {deeds d added} (h : Course header due start deeds d.before) (hleaves : d.Leaves added)
      (hevents : d.after.events = d.before.events ++ added) :
      Course header due start (deeds ++ [d]) d.after

-- ---------------------------------------------------------------------------
-- Lookups
-- ---------------------------------------------------------------------------

namespace PolicyKind

variable {P : Run → Prop} (kind : PolicyKind) (ctx : BlockContext) (r : Run)

theorem fetch_keeps {ctx : BlockContext}
    (h : ∀ a : Accessor, a.part? = some kind → Keeps P (a.step ctx)) :
    Keeps P (kind.part.fetch ctx) := by
  cases kind with
  | blacklist => exact fetchBlacklist_keeps h
  | rules => exact fetchRules_keeps h

theorem fetch_messages : ∃ messages : List Message, messages ≠ [] ∧
    (∀ m ∈ messages, ∃ a : Accessor, a.part? = some kind ∧ a.Sends ctx.header m) ∧
    (exec (kind.part.fetch ctx) r).2.events =
      r.events ++ messages.flatMap (Event.committed ctx.site ctx.header) := by
  have hkeeps : Keeps (fun q => ∃ messages : List Message,
      (∀ m ∈ messages, ∃ a : Accessor, a.part? = some kind ∧ a.Sends ctx.header m) ∧
      q.events = r.events ++ messages.flatMap (Event.committed ctx.site ctx.header))
      (kind.part.fetch ctx) := by
    refine kind.fetch_keeps fun a ha q => ?_
    rintro ⟨messages, hpart, hevents⟩
    obtain ⟨m, hm, hrun⟩ := a.sends ctx q
    refine ⟨messages ++ [m], ?_, ?_⟩
    · intro m' hm'
      rcases List.mem_append.mp hm' with hm' | hm'
      · exact hpart m' hm'
      · exact List.mem_singleton.mp hm' ▸ ⟨a, ha, hm⟩
    · simp [hrun, ctx.events_afterCall, hevents, Event.committed]
  obtain ⟨messages, hpart, hevents⟩ := hkeeps r ⟨[], by simp, by simp⟩
  refine ⟨messages, ?_, hpart, hevents⟩
  -- a read that fails has still made its first call
  rintro rfl
  obtain ⟨m, -, hcalled⟩ := kind.fetch_called ctx r
  rw [hevents, List.flatMap_nil, List.append_nil] at hcalled
  exact absurd hcalled.length_le (by simp)

theorem finish_events (x : Except ContractError (kind.Value × Cache kind.Value)) :
    (kind.finish (x, r)).2.events = r.events ++ [.metric (.observed kind)] := by
  cases x <;> rfl

end PolicyKind

theorem Engine.lookUp_leaves (e : Engine) (header : Header) (kind : PolicyKind) (r : Run) :
    ∃ added, (Deed.lookup e header kind r).Leaves added ∧
      (exec (e.lookUp header kind) r).2.events = r.events ++ added := by
  rw [exec_lookUp]
  cases hentry : (kind.cache r.policies).peek? header.parentHash with
  | some value =>
    have hsource : e.source? header kind r = some .entry := by simp [source?, hentry]
    refine ⟨_, @Deed.Leaves.lookup e header kind r [] (by simp [hsource]) (by simp), ?_⟩
    rw [PolicyPart.exec_find_entry hentry, kind.finish_events, kind.part_kind, hsource]
    simp [Run.record, PolicyKind.counted]
  | none =>
    cases hback : kind.part.lookback? (e.context header) r.ledger (kind.cache r.policies) with
    | some value =>
      have hsource : e.source? header kind r = some .lookback := by simp [source?, hentry, hback]
      refine ⟨_, @Deed.Leaves.lookup e header kind r [] (by simp [hsource]) (by simp), ?_⟩
      rw [PolicyPart.exec_find_lookback hentry hback, kind.finish_events, kind.part_kind, hsource]
      simp [Run.record, PolicyKind.counted]
    | none =>
      have hsource : e.source? header kind r = none := by simp [source?, hentry, hback]
      obtain ⟨messages, hsome, hpart, hevents⟩ :=
        kind.fetch_messages (e.context header) (r.record (.metric (.read kind)))
      refine ⟨_, .lookup (by simp [hsource, hsome]) hpart, ?_⟩
      rw [PolicyPart.exec_find_read hentry hback, kind.finish_events, kind.part_kind, hevents,
        hsource]
      simp [Run.record, PolicyKind.counted, Engine.context]

-- ---------------------------------------------------------------------------
-- Punishments
-- ---------------------------------------------------------------------------

namespace Engine

variable {e : Engine} {ctx : BlockContext} {r : Run}

theorem exec_tryPunish_none (h : e.punishable? ctx.header = none) :
    (exec (e.tryPunish ctx) r).2 = r := by
  unfold punishable? at h
  unfold tryPunish
  cases hsnapshot : e.parentSnapshot ctx.header with
  | error cause => rfl
  | ok snapshot =>
    rw [Step.ofExcept_ok, pure_bind]
    cases hturn : snapshot.turn ctx.header.number with
    | none => rfl
    | some validator =>
      have hrecent : snapshot.signedRecently validator := by
        simpa [hsnapshot, hturn, Except.toOption] using h
      simp [hrecent]

theorem exec_tryPunish_some {validator : Address}
    (h : e.punishable? ctx.header = some validator) :
    exec (e.tryPunish ctx) r =
      ((exec (Registry.punish ctx validator) r).1.mapError .contract,
        (exec (Registry.punish ctx validator) r).2.record
          (.metric (.punished (exec (Registry.punish ctx validator) r).1.isOk))) := by
  obtain ⟨snapshot, hsnapshot, h⟩ := Option.bind_eq_some_iff.mp h
  obtain ⟨v, hturn, h⟩ := Option.bind_eq_some_iff.mp h
  by_cases hrecent : snapshot.signedRecently v
  · simp [hrecent] at h
  · obtain rfl : v = validator := by simpa [hrecent] using h
    unfold tryPunish
    rw [Step.toOption_eq_some.mp hsnapshot, Step.ofExcept_ok, pure_bind, hturn]
    simp only [hrecent, Bool.false_eq_true, if_false]
    rw [Step.exec_bind, Step.exec_outcome]
    rcases exec (Registry.punish ctx v) r with ⟨cause | answer, q⟩ <;> rfl

theorem tryPunish_leaves {validator : Address}
    (h : e.punishable? ctx.header = some validator) :
    ∃ added, (Deed.punishment e ctx r).Leaves added ∧
      (exec (e.tryPunish ctx) r).2.events = r.events ++ added := by
  obtain ⟨method, m, hmethod, hm, hrun, hanswers⟩ := (Accessor.punish validator).answers ctx r
  cases hmethod
  replace hrun : (exec (Registry.punish ctx validator) r).2 = ctx.afterCall m r := hrun
  have hok : (exec (Registry.punish ctx validator) r).1.isOk =
      (ctx.reply m r.ledger).error.isNone := hanswers.isOk_of_no_outputs rfl
  have hanswer : (exec (e.tryPunish ctx) r).1.isOk = (ctx.reply m r.ledger).error.isNone := by
    rw [exec_tryPunish_some h, ← hok]
    cases (exec (Registry.punish ctx validator) r).1 <;> rfl
  refine ⟨_, .punishment h hm hanswer, ?_⟩
  rw [exec_tryPunish_some h, hok, hrun]
  simp [Run.record, ctx.events_afterCall, Event.committed]

end Engine

-- ---------------------------------------------------------------------------
-- The deeds of an operation
-- ---------------------------------------------------------------------------

namespace Engine

def punishments (e : Engine) (ctx : BlockContext) (r : Run) : List Deed :=
  match e.punishable? ctx.header with
  | some _ => [.punishment e ctx r]
  | none => []

def prepareContracts (e : Engine) (ctx : BlockContext) : Step EngineError Unit :=
  if ctx.header.number = 1 then e.initializeContracts ctx else return ()

def rulesPunishments (e : Engine) (ctx : BlockContext) (r : Run) : List Deed :=
  match exec (e.prepareContracts ctx) r, e.inTurn ctx.header with
  | (.ok _, q), .ok false => e.punishments ctx q
  | _, _ => []

def Query.deeds (e : Engine) (header : Header) (r : Run) : Query → List Deed
  | .blacklist | .validate .. => [.lookup e header .blacklist r]
  | .eventRules => [.lookup e header .rules r]
  | .policy => .lookup e header .blacklist r ::
    match exec (e.blacklist header) r with
    | (.ok _, q) => [.lookup e header .rules q]
    | (.error _, _) => []

end Engine

def Operation.deeds (e : Engine) (ctx : BlockContext) (r : Run) : Operation → List Deed
  | .query q => q.deeds e ctx.header r
  | .tryPunish => e.punishments ctx r
  | .finalize _ | .assemble => e.rulesPunishments (e.context ctx.header) r
  | .passedProposals | .execute .. | .replay .. | .finish _ | .topValidators | .syncEpoch
  | .sendReward | .initializeContracts => []

-- ---------------------------------------------------------------------------
-- The course of an operation
-- ---------------------------------------------------------------------------

namespace Course

variable {ctx : BlockContext} {header : Header} {due : Proposal → Prop} {start r : Run}
variable {deeds : List Deed} {e : Engine}

theorem keptByProposals (ctx : BlockContext) (due : Proposal → Prop) (start : Run)
    (deeds : List Deed) : KeptByProposals (Course ctx.header due start deeds) ctx due where
  call a ha r h := by
    obtain ⟨m, hm, hrun⟩ := a.sends ctx r
    rw [hrun]
    exact h.call (.inl ⟨a, ha, hm⟩) (ctx.events_afterCall m r) rfl
  credit _ _ _ h := h.edit rfl rfl
  proposal r p hp hkind h := h.call (.inr ⟨p, hp, hkind, rfl⟩) (ctx.events_afterCall _ r) rfl
  edit _ _ _ h := h.edit rfl rfl
  add _ _ h := h.edit rfl rfl

theorem readAside (l : Ledger) : Keeps (Course ctx.header due start deeds)
    (Step.on l (Registry.topValidators { ctx with site := .earlier })) := by
  intro r h
  obtain ⟨m, hm, hrun⟩ :=
    Accessor.topValidators.sends { ctx with site := .earlier } { r with ledger := l }
  have hcall : (exec (Registry.topValidators { ctx with site := .earlier })
      { r with ledger := l }).2 = _ := hrun
  rw [Step.exec_on, hcall]
  exact h.call (.inl ⟨.topValidators, rfl, hm⟩) (BlockContext.events_afterCall _ m _) rfl

theorem lookup (h : Course header due start deeds r) (e : Engine) (header' : Header)
    (kind : PolicyKind) : Course header due start (deeds ++ [.lookup e header' kind r])
      (exec (e.lookUp header' kind) r).2 := by
  obtain ⟨added, hleaves, hevents⟩ := e.lookUp_leaves header' kind r
  exact .deed (d := .lookup e header' kind r) h hleaves hevents

theorem tryPunish (h : Course ctx.header due start deeds r) (e : Engine) :
    Course ctx.header due start (deeds ++ e.punishments ctx r) (exec (e.tryPunish ctx) r).2 := by
  unfold Engine.punishments
  cases hvalidator : e.punishable? ctx.header with
  | none =>
    rw [Engine.exec_tryPunish_none hvalidator]
    simpa using h
  | some validator =>
    obtain ⟨added, hleaves, hevents⟩ := Engine.tryPunish_leaves (r := r) hvalidator
    exact .deed (d := .punishment e ctx r) h hleaves hevents

theorem blockRules (e : Engine) (ctx : BlockContext) (due : Proposal → Prop) (r : Run) :
    Course ctx.header due r (e.rulesPunishments ctx r) (exec (e.blockRules ctx) r).2 := by
  have hrest : ∀ deeds, Keeps (Course ctx.header due r deeds)
      (Engine.sendReward ctx >>= fun _ => e.rotate ctx) := fun deeds =>
    (keptByProposals ctx due r deeds).rewardAndRotate (fun _ h => h) readAside
  have hprepared : Course ctx.header due r [] (exec (e.prepareContracts ctx) r).2 :=
    Leads.ite (keptByProposals ctx due r []).initializeContracts (.pure _) r .refl
  -- set-up and punishment come first, and what fails there ends the block rules
  rw [Engine.blockRules_eq]
  unfold Engine.rulesPunishments
  change Course _ _ _ _ (exec ((e.prepareContracts ctx >>= fun _ => _) >>= fun _ => _) r).2
  rcases hrun : exec (e.prepareContracts ctx) r with ⟨cause | _, q⟩ <;> rw [hrun] at hprepared
  · rw [Step.exec_bind_of_error (Step.exec_bind_of_error hrun)]
    exact hprepared
  · rw [bind_assoc, Step.exec_bind_of_ok hrun]
    cases e.inTurn ctx.header with
    | error cause => exact hprepared
    | ok turn =>
      cases turn with
      | true => exact hrest [] q hprepared
      | false =>
        exact Leads.bind (P := (· = q)) (Q := Course ctx.header due r (e.punishments ctx q))
          (fun _ h => h ▸ hprepared.tryPunish e) (fun _ => hrest _) (fun _ h => h) q rfl

theorem query (e : Engine) (header : Header) (due : Proposal → Prop) (r : Run)
    (q : Engine.Query) : Course header due r (q.deeds e header r) (q.after e header r) := by
  have hblacklist : Course header due r [.lookup e header .blacklist r]
      (exec (e.blacklist header) r).2 := lookup .refl e header .blacklist
  cases q with
  | blacklist => exact hblacklist
  | eventRules => exact lookup .refl e header .rules
  | validate sender tx =>
    rw [Engine.Query.after, Engine.exec_validateTransaction]
    exact hblacklist
  | policy =>
    rw [Engine.Query.after, Engine.exec_policy, Engine.Query.deeds]
    rcases hrun : exec (e.blacklist header) r with ⟨cause | list, q⟩ <;> rw [hrun] at hblacklist
    · exact hblacklist
    · exact hblacklist.lookup e header .rules

end Course

theorem Operation.course (e : Engine) (ctx : BlockContext) (r : Run) (op : Operation) :
    Course ctx.header (op.due e ctx.header r) r (op.deeds e ctx r) (op.after e ctx r) := by
  have K := Course.keptByProposals ctx (op.due e ctx.header r) r []
  have hrules := Course.blockRules e (e.context ctx.header) (e.Queued ctx.header r) r
  have hqueue := Course.keptByProposals (e.context ctx.header) (e.Queued ctx.header r) r
    (e.rulesPunishments (e.context ctx.header) r)
  cases op with
  | query q => exact .query e ctx.header _ r q
  | passedProposals => exact K.passedProposals r .refl
  | execute p index => exact K.executeProposal rfl r .refl
  | replay p index tx => exact K.replayProposal rfl r .refl
  | finish id => exact K.finishProposal id r .refl
  | topValidators => exact KeptByCalls.topValidators (fun _ h => h) Course.readAside r .refl
  | syncEpoch => exact K.syncEpoch (fun _ h => h) Course.readAside r .refl
  | tryPunish => exact Course.refl.tryPunish e
  | sendReward => exact K.sendReward r .refl
  | initializeContracts => exact K.initializeContracts r .refl
  | finalize txs => exact hqueue.finalize (fun _ _ _ => Engine.FindsQueue.queued) hrules txs
  | assemble => exact hqueue.assemble (fun _ _ _ => Engine.FindsQueue.queued) hrules

-- ---------------------------------------------------------------------------
-- Metrics
-- ---------------------------------------------------------------------------

def Event.metric? : Event → Option Metric
  | .metric m => some m
  | .called .. | .finalised .. => none

theorem Run.metrics_of_events {r q : Run} {added : List Event}
    (h : q.events = r.events ++ added) :
    q.metrics = r.metrics ++ added.filterMap Event.metric? := by
  rw [metrics, h, List.filterMap_append]
  rfl

theorem Event.metrics_committed (site : Site) (header : Header) (messages : List Message) :
    (messages.flatMap (committed site header)).filterMap metric? = [] := by
  induction messages with
  | nil => rfl
  | cons m messages ih => simpa [committed, metric?] using ih

theorem Deed.Leaves.metrics {d : Deed} {added : List Event} (h : d.Leaves added) :
    added.filterMap Event.metric? = d.metrics := by
  cases h with
  | lookup hmessages hpart =>
    simp [Event.metrics_committed, Event.metric?, Deed.metrics]
  | punishment hvalidator hm hanswer =>
    rw [Deed.metrics, hanswer]
    rfl

theorem Course.metrics {header : Header} {due : Proposal → Prop} {start r : Run}
    {deeds : List Deed} (h : Course header due start deeds r) :
    r.metrics = start.metrics ++ deeds.flatMap Deed.metrics := by
  induction h with
  | refl => simp
  | edit _ hevents _ ih => rw [← ih, Run.metrics, hevents, Run.metrics]
  | @call _ _ _ site m _ _ hevents _ ih =>
    have hnone := Event.metrics_committed site header [m]
    rw [List.flatMap_singleton] at hnone
    rw [Run.metrics_of_events hevents, ih, hnone, List.append_nil]
  | deed _ hleaves hevents ih =>
    rw [Run.metrics_of_events hevents, ih, hleaves.metrics]
    simp

-- ---------------------------------------------------------------------------
-- Counters
-- ---------------------------------------------------------------------------

namespace PolicyKind

/-- The lookups of a part that were counted, be it as hits or as reads. -/
def served (kind : PolicyKind) (metrics : List Metric) : Nat :=
  metrics.count (.hit kind .entry) + metrics.count (.hit kind .lookback) +
    metrics.count (.read kind)

variable (kind : PolicyKind)

theorem served_append (first rest : List Metric) :
    kind.served (first ++ rest) = kind.served first + kind.served rest := by
  simp only [served, List.count_append]
  omega

theorem counts_group (k : PolicyKind) (source : Option HitSource) :
    kind.served [k.counted source, .observed k] = (if k = kind then 1 else 0) ∧
      [k.counted source, .observed k].count (.observed kind) = if k = kind then 1 else 0 := by
  cases kind <;> cases k <;> rcases source with _ | _ | _ <;> exact ⟨rfl, rfl⟩

theorem counts_deed (d : Deed) :
    kind.served d.metrics = [d].countP (Deed.looksUp kind) ∧
      d.metrics.count (.observed kind) = [d].countP (Deed.looksUp kind) := by
  cases d with
  | lookup e header k r =>
    have hone : [Deed.lookup e header k r].countP (Deed.looksUp kind) =
        if k = kind then 1 else 0 := by
      simp [Deed.looksUp, List.countP_cons]
    rw [hone]
    exact kind.counts_group k (e.source? header k r)
  | punishment e ctx r => exact ⟨rfl, rfl⟩

theorem counts_deeds (deeds : List Deed) :
    kind.served (deeds.flatMap Deed.metrics) = deeds.countP (Deed.looksUp kind) ∧
      (deeds.flatMap Deed.metrics).count (.observed kind) =
        deeds.countP (Deed.looksUp kind) := by
  induction deeds with
  | nil => exact ⟨rfl, rfl⟩
  | cons d deeds ih =>
    obtain ⟨hserved, hobserved⟩ := kind.counts_deed d
    rw [List.flatMap_cons, served_append, List.count_append, hserved, hobserved, ih.1, ih.2,
      ← List.countP_append]
    exact ⟨rfl, rfl⟩

theorem counts_first (k : PolicyKind) (source : Option HitSource) :
    kind.served [k.counted source] ≤ 1 ∧ [k.counted source].count (.observed kind) = 0 := by
  cases kind <;> cases k <;> rcases source with _ | _ | _ <;> decide

theorem counts_part (d : Deed) {n : Nat} (hn : n < d.metrics.length) :
    kind.served (d.metrics.take n) ≤ 1 ∧ (d.metrics.take n).count (.observed kind) = 0 := by
  cases d with
  | lookup e header k r =>
    match n, hn with
    | 0, _ => exact ⟨Nat.zero_le 1, rfl⟩
    | 1, _ => exact kind.counts_first k (e.source? header k r)
  | punishment e ctx r =>
    obtain rfl : n = 0 := Nat.lt_one_iff.mp hn
    exact ⟨Nat.zero_le 1, rfl⟩

theorem counts_take (deeds : List Deed) (n : Nat) :
    (((deeds.flatMap Deed.metrics).take n).count (.observed kind) ≤
        kind.served ((deeds.flatMap Deed.metrics).take n)) ∧
      kind.served ((deeds.flatMap Deed.metrics).take n) ≤
        ((deeds.flatMap Deed.metrics).take n).count (.observed kind) + 1 := by
  induction deeds generalizing n with
  | nil => simp [served]
  | cons d deeds ih =>
    rw [List.flatMap_cons, List.take_append, served_append, List.count_append]
    -- the cut falls into the first deed, or behind it
    rcases Nat.lt_or_ge n d.metrics.length with hn | hn
    · obtain ⟨hserved, hobserved⟩ := kind.counts_part d hn
      rw [Nat.sub_eq_zero_of_le (Nat.le_of_lt hn), List.take_zero]
      simp only [served, List.count_nil] at hserved ⊢
      omega
    · obtain ⟨hserved, hobserved⟩ := kind.counts_deed d
      obtain ⟨hle, hlt⟩ := ih (n - d.metrics.length)
      rw [List.take_of_length_le hn]
      omega

end PolicyKind

-- ---------------------------------------------------------------------------
-- Runs of operations
-- ---------------------------------------------------------------------------

/-- What the engine is asked for: an operation, on a ledger and for the transactions of a block
so far. The environment may reply otherwise each time. -/
structure Request where
  engine : Engine
  ctx : BlockContext
  ledger : Ledger
  body : BlockBody
  op : Operation

namespace Request

def start (q : Request) (r : Run) : Run :=
  { r with ledger := q.ledger, body := q.body }

def after (q : Request) (r : Run) : Run :=
  q.op.after q.engine q.ctx (q.start r)

def deeds (q : Request) (r : Run) : List Deed :=
  q.op.deeds q.engine q.ctx (q.start r)

end Request

namespace Run

def serve (r : Run) (requests : List Request) : Run :=
  requests.foldl (fun r q => q.after r) r

def deeds (r : Run) : List Request → List Deed
  | [] => []
  | q :: requests => q.deeds r ++ (q.after r).deeds requests

theorem metrics_serve (r : Run) (requests : List Request) :
    (r.serve requests).metrics = r.metrics ++ (r.deeds requests).flatMap Deed.metrics := by
  induction requests generalizing r with
  | nil => simp [serve, deeds]
  | cons q requests ih =>
    have hfirst : (q.after r).metrics = (q.start r).metrics ++ (q.deeds r).flatMap Deed.metrics :=
      (Operation.course q.engine q.ctx (q.start r) q.op).metrics
    have hserve : r.serve (q :: requests) = (q.after r).serve requests := rfl
    rw [hserve, ih, hfirst, deeds, List.flatMap_append, List.append_assoc]
    rfl

end Run

/-- Whatever is asked of the engine, with whatever outcome, what it records is the groups of its
deeds, in their order, and calls that are not counted: it looks up the policy and punishes in
no other way. So over any run of operations the metrics are those of its deeds, and of each
part of the policy there were as many lookups as hits of either source and reads, and as many
were observed. At any time at most one of them was counted but not observed yet. -/
theorem metrics_account_for_deeds :
    (∀ (e : Engine) (ctx : BlockContext) (r : Run) (op : Operation),
      Course ctx.header (op.due e ctx.header r) r (op.deeds e ctx r) (op.after e ctx r)) ∧
    ∀ (r : Run) (requests : List Request), ∃ counted,
      counted = (r.deeds requests).flatMap Deed.metrics ∧
      (r.serve requests).metrics = r.metrics ++ counted ∧
      ∀ kind : PolicyKind,
        (r.deeds requests).countP (Deed.looksUp kind) =
          counted.count (.hit kind .entry) + counted.count (.hit kind .lookback) +
            counted.count (.read kind) ∧
        (r.deeds requests).countP (Deed.looksUp kind) = counted.count (.observed kind) ∧
        ∀ n, (counted.take n).count (.observed kind) ≤ kind.served (counted.take n) ∧
          kind.served (counted.take n) ≤ (counted.take n).count (.observed kind) + 1 := by
  refine ⟨Operation.course, fun r requests => ⟨_, rfl, r.metrics_serve requests, fun kind => ?_⟩⟩
  obtain ⟨hserved, hobserved⟩ := kind.counts_deeds (r.deeds requests)
  exact ⟨hserved.symm, hobserved.symm, kind.counts_take (r.deeds requests)⟩

/-- The contracts of this node return nothing. So the blacklist cannot be read, which is counted
and observed all the same, and no rules are looked up. -/
example :
    let node : Node :=
      { config := { chainId := 1, engine := { epoch := 1, genesisValidators := [] } }
        policies := ⟨⟨1, []⟩, ⟨1, []⟩⟩
        authority := none }
    ((node.begin {}).serve [
      ⟨node.engine, node.engine.context { number := 1 }, {}, {}, .query .policy⟩]).metrics =
      [.read .blacklist, .observed .blacklist] := by
  decide +kernel

end StakeGov
