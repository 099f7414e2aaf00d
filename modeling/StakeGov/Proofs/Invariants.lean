import StakeGov.Proofs.Accessors
import StakeGov.Proofs.PolicyLookups

/-!
# What operations keep

A step leads from one property of runs to another if every run with the first is left with
the second, whether the step answers or fails (`Step.Leads`). What every call of a system
contract, every record and every credit keeps (`Kept`) is kept by the operations that are
put together from these: reading the policy and the queue, the rotation and the block rules
(`Kept.blockRules`). Where nothing is counted, what the calls and the credits keep is enough
(`KeptByCalls`).
-/

namespace StakeGov

open Registry (Accessor)

namespace Step

variable {ε ε' α β : Type} {P Q S : Run → Prop}

def Leads (P Q : Run → Prop) (s : Step ε α) : Prop :=
  ∀ r, P r → Q (s.exec r).2

abbrev Keeps (P : Run → Prop) (s : Step ε α) : Prop :=
  Leads P P s

namespace Leads

theorem weaken {s : Step ε α} (hs : Leads P Q s) (h : ∀ r, Q r → S r) : Leads P S s :=
  fun r hr => h _ (hs r hr)

theorem pure (a : α) : Keeps P (Pure.pure a : Step ε α) :=
  fun _ h => h

theorem throw (e : ε) : Keeps P (MonadExcept.throw e : Step ε α) :=
  fun _ h => h

theorem ofExcept (x : Except ε α) : Keeps P (Step.ofExcept x) :=
  fun _ h => h

theorem ledger : Keeps P (Step.ledger : Step ε Ledger) :=
  fun _ h => h

theorem bind {x : Step ε α} {f : α → Step ε β} (hx : Leads P Q x) (hf : ∀ a, Leads Q S (f a))
    (h : ∀ r, Q r → S r) : Leads P S (x >>= f) := by
  intro r hr
  have hq := hx r hr
  rw [exec_bind]
  revert hq
  rcases x.exec r with ⟨_ | a, q⟩
  · exact h q
  · exact hf a q

theorem andThen {x : Step ε α} {f : α → Step ε β} (hx : Keeps P x) (hf : ∀ a, Keeps P (f a)) :
    Keeps P (x >>= f) :=
  hx.bind hf fun _ h => h

theorem mapError {s : Step ε α} (f : ε → ε') (hs : Leads P Q s) :
    Leads P Q (Step.mapError f s) := by
  intro r hr
  rw [exec_mapError]
  exact hs r hr

theorem outcome {s : Step ε α} (hs : Leads P Q s) :
    Leads P Q (Step.outcome s : Step ε' (Except ε α)) :=
  hs

theorem ite {c : Prop} [Decidable c] {s t : Step ε α} (hs : Leads P Q s) (ht : Leads P Q t) :
    Leads P Q (if c then s else t) := by
  split
  · exact hs
  · exact ht

theorem forM {f : α → Step ε PUnit} {l : List α} (h : ∀ a ∈ l, Keeps P (f a)) :
    Keeps P (l.forM f) := by
  induction l with
  | nil => exact pure _
  | cons a l ih =>
    obtain ⟨hhead, htail⟩ := List.forall_mem_cons.mp h
    exact hhead.andThen fun _ => ih htail

end Leads

end Step

open Step (Leads Keeps)

-- ---------------------------------------------------------------------------
-- Calls that are counted, and the others
-- ---------------------------------------------------------------------------

namespace Registry.Accessor

def part? : Accessor → Option PolicyKind
  | bannedSenders | bannedRecipients => some .blacklist
  | ruleCount | rule _ => some .rules
  | _ => none

/-- Whether no metric goes with the call: it neither reads the policy nor punishes. -/
def quiet : Accessor → Bool
  | punish _ => false
  | a => a.part?.isNone

end Registry.Accessor

section
variable {P : Run → Prop} {ctx : BlockContext}

theorem readFrom_keeps {α : Type} {read : UInt32 → Step ContractError α}
    (h : ∀ index, Keeps P (read index)) (index count : Nat) :
    Keeps P (Registry.readFrom read index count) := by
  induction count generalizing index with
  | zero => exact .pure _
  | succ count ih => exact (h _).andThen fun _ => (ih _).andThen fun _ => .pure _

theorem fetchBlacklist_keeps
    (h : ∀ a : Accessor, a.part? = some .blacklist → Keeps P (a.step ctx)) :
    Keeps P (fetchBlacklist ctx) :=
  (h .bannedSenders rfl).andThen fun _ =>
    Leads.andThen (h .bannedRecipients rfl) fun _ => .pure _

theorem fetchRules_keeps (h : ∀ a : Accessor, a.part? = some .rules → Keeps P (a.step ctx)) :
    Keeps P (fetchRules ctx) := by
  have hlist : Keeps P (Registry.ruleList ctx) :=
    Leads.andThen (h .ruleCount rfl) fun count : UInt32 =>
      readFrom_keeps (fun index => h (.rule index) rfl) 0 count.toNat
  exact hlist.andThen fun _ => .pure _

end

/-- The calls that are not counted and the credits of a block keep the property. -/
structure KeptByCalls (P : Run → Prop) (ctx : BlockContext) : Prop where
  call : ∀ a : Accessor, a.quiet → Keeps P (a.step ctx)
  credit : ∀ r a b, P r → P { r with ledger := r.ledger.setBalance a b }

/-- The calls of the system contracts, the records, the credits and the remembered policies of
a block keep the property. -/
structure Kept (P : Run → Prop) (ctx : BlockContext) : Prop where
  call : ∀ a : Accessor, Keeps P (a.step ctx)
  count : ∀ r k, P r → P (r.record (.metric k))
  credit : ∀ r a b, P r → P { r with ledger := r.ledger.setBalance a b }
  remember : ∀ r policies, P r → P { r with policies }

-- ---------------------------------------------------------------------------
-- Around the proposals of a block
-- ---------------------------------------------------------------------------

namespace KeptByCalls

variable {P Q : Run → Prop} {ctx : BlockContext} {e : Engine} (K : KeptByCalls P ctx)
include K

theorem setBalance {ε : Type} (a : Address) (b : Ledger → Word) :
    Keeps P (Step.modifyLedger fun l => l.setBalance a (b l) : Step ε Unit) :=
  fun r h => K.credit r a (b r.ledger) h

theorem passedProposals : Keeps P (Registry.passedProposals ctx) :=
  (K.call .passedProposalCount rfl).andThen fun count =>
    readFrom_keeps (fun index => K.call (.passedProposal index) rfl) 0 count.toNat

theorem initializeContracts : Keeps P (e.initializeContracts ctx) := by
  unfold Engine.initializeContracts
  cases e.snapshot 0 ctx.header.parentHash with
  | error cause => exact .throw _
  | ok snapshot =>
    have hcalls : Keeps P (do
        Registry.initializeValidators ctx (e.config.engine.genesisValidators.map (·.validator))
          (e.config.engine.genesisValidators.map (·.manager)) e.config.engine.stakingAdmin
        Registry.initializePunish ctx
        Registry.initializeAddressList ctx e.config.engine.governanceAdmin
        Registry.initializeGovernance ctx e.config.engine.governanceAdmin) :=
      (K.call (.initializeValidators _ _ _) rfl).andThen fun _ =>
        Leads.andThen (K.call .initializePunish rfl) fun _ =>
        Leads.andThen (K.call (.initializeAddressList _) rfl) fun _ =>
        K.call (.initializeGovernance _) rfl
    refine .ite (.andThen (.throw _) fun _ => ?_) ?_
    all_goals
      exact .ite (.andThen (.throw _) fun _ => hcalls.mapError _) (hcalls.mapError _)

theorem sendReward : Keeps P (Engine.sendReward ctx) := by
  unfold Engine.sendReward
  refine Leads.ledger.andThen fun l => .ite (.pure _) ?_
  refine (K.setBalance _ _).andThen fun _ => (K.setBalance _ _).andThen fun _ => ?_
  exact Leads.mapError _ (K.call (.distributeReward _) rfl)

section
variable (hweaken : ∀ r, P r → Q r)
variable (haside : ∀ l, Leads P Q
  (Step.on l (Registry.topValidators { ctx with site := .earlier })))
include hweaken haside

omit K in
theorem topValidators : Leads P Q (e.topValidators ctx) := by
  unfold Engine.topValidators
  dsimp only
  cases ctx.chain.header ctx.header.parentHash (saturatingPred ctx.header.number) with
  | none => exact Leads.weaken (.throw _) hweaken
  | some parent =>
    dsimp only
    cases e.ledgerAt parent.root with
    | error cause => exact Leads.weaken (.throw _) hweaken
    | ok ledger => exact ((haside ledger).mapError _).bind (fun _ => .pure _) fun _ h => h

theorem syncEpoch : Leads P Q (e.syncEpoch ctx) := by
  unfold Engine.syncEpoch
  dsimp only
  cases e.checkpoint? ctx with
  | none => exact Leads.weaken (.throw _) hweaken
  | some checkpoint =>
    have hrest : Leads P Q (do
        Step.mapError .contract (Registry.updateActiveValidators ctx
          (ExtraData.validators checkpoint.extra) e.config.engine.epoch)
        Step.mapError .contract (Registry.decreaseMissedBlocks ctx e.config.engine.epoch)
        e.topValidators ctx) :=
      .bind (Leads.mapError _ (K.call (.updateActiveValidators _ _) rfl)) (fun _ =>
        .bind (Leads.mapError _ (K.call (.decreaseMissedBlocks _) rfl))
          (fun _ => topValidators hweaken haside) hweaken) hweaken
    exact .ite (.bind (.throw _) (fun _ => hrest) hweaken) hrest

theorem rewardAndRotate : Leads P Q (do
    Engine.sendReward ctx
    if e.config.engine.epoch ≠ 0 ∧ ctx.header.number % e.config.engine.epoch = 0 then
      return some (← e.syncEpoch ctx)
    else return none) :=
  K.sendReward.bind (fun _ => .ite
    ((K.syncEpoch hweaken haside).bind (fun _ => .pure _) fun _ h => h)
    (Leads.weaken (.pure _) hweaken)) hweaken

end

end KeptByCalls

namespace Kept

variable {P Q : Run → Prop} {ctx : BlockContext} {e : Engine} (K : Kept P ctx)
include K

theorem calls : KeptByCalls P ctx :=
  ⟨fun a _ => K.call a, K.credit⟩

theorem metric {ε : Type} (k : Metric) : Keeps P (Step.count k : Step ε Unit) :=
  fun r h => K.count r k h

theorem passedProposals : Keeps P (Registry.passedProposals ctx) :=
  K.calls.passedProposals

theorem fetchBlacklist : Keeps P (StakeGov.fetchBlacklist ctx) :=
  fetchBlacklist_keeps fun a _ => K.call a

theorem fetchRules : Keeps P (StakeGov.fetchRules ctx) :=
  fetchRules_keeps fun a _ => K.call a

theorem initializeContracts : Keeps P (e.initializeContracts ctx) :=
  K.calls.initializeContracts

theorem tryPunish : Keeps P (e.tryPunish ctx) := by
  unfold Engine.tryPunish
  refine .andThen (.ofExcept _) fun snapshot => ?_
  cases snapshot.turn ctx.header.number with
  | none => exact .throw _
  | some validator =>
    refine .ite (.pure _) (.andThen (Leads.outcome (K.call (.punish validator))) fun result => ?_)
    cases result with
    | ok _ => exact K.metric _
    | error cause => exact (K.metric _).andThen fun _ => .throw _

theorem sendReward : Keeps P (Engine.sendReward ctx) :=
  K.calls.sendReward

section
variable (hweaken : ∀ r, P r → Q r)
variable (haside : ∀ l, Leads P Q
  (Step.on l (Registry.topValidators { ctx with site := .earlier })))
include hweaken haside

omit K in
theorem topValidators : Leads P Q (e.topValidators ctx) :=
  KeptByCalls.topValidators hweaken haside

theorem syncEpoch : Leads P Q (e.syncEpoch ctx) :=
  K.calls.syncEpoch hweaken haside

theorem blockRules : Leads P Q (e.blockRules ctx) := by
  unfold Engine.blockRules
  refine .ite (K.initializeContracts.bind (fun _ => ?_) hweaken) ?_
  all_goals
    refine .bind (.ofExcept _) (fun turn => ?_) hweaken
    exact .ite (K.tryPunish.bind (fun _ => K.calls.rewardAndRotate hweaken haside) hweaken)
      (K.calls.rewardAndRotate hweaken haside)

end

end Kept

-- ---------------------------------------------------------------------------
-- Looking up the policy
-- ---------------------------------------------------------------------------

namespace Kept

variable {P : Run → Prop} {e : Engine} {header : Header} (K : Kept P (e.context header))
include K

theorem blacklist : Keeps P (e.blacklist header) := by
  intro r h
  have hfind := PolicyPart.find_keeps blacklistPart (e.context header) r.policies.blacklists
    (fun q k => K.count q k) K.fetchBlacklist h
  rw [Engine.exec_blacklist]
  revert hfind
  rcases (blacklistPart.find (e.context header) r.policies.blacklists).exec r with
    ⟨cause | ⟨list, cache⟩, q⟩
  · exact K.count q _
  · exact fun hfind => K.remember _ _ (K.count q _ hfind)

theorem eventRules : Keeps P (e.eventRules header) := by
  intro r h
  have hfind := PolicyPart.find_keeps rulesPart (e.context header) r.policies.rules
    (fun q k => K.count q k) K.fetchRules h
  rw [Engine.exec_eventRules]
  revert hfind
  rcases (rulesPart.find (e.context header) r.policies.rules).exec r with
    ⟨cause | ⟨rules, cache⟩, q⟩
  · exact K.count q _
  · exact fun hfind => K.remember _ _ (K.count q _ hfind)

theorem validateTransaction (sender : Address) (tx : Transaction) :
    Keeps P (e.validateTransaction header sender tx) := by
  intro r h
  rw [Engine.exec_validateTransaction]
  exact K.blacklist r h

theorem policy : Keeps P (e.policy header) := by
  intro r h
  have hlist := K.blacklist r h
  rw [Engine.exec_policy]
  revert hlist
  rcases (e.blacklist header).exec r with ⟨cause | list, q⟩
  · exact id
  · exact K.eventRules q

end Kept

end StakeGov
