import StakeGov.Engine.Block
import StakeGov.Proofs.Calls

/-!
# Two runs in lockstep

Two steps agree if from related runs they give the same answer and leave related
runs. When the contexts of two blocks give every message the same effect, the calls
that end a block agree (`RulesLockstep.blockRules`, `Lockstep.passedProposals`): the relation
may be any that sees the ledgers alike and does not look at the records of calls too
closely.
-/

namespace StakeGov

def Header.unsealed (h : Header) : Header :=
  { h with root := 0, extra := [] }

/-- From related runs, the same answer and related runs. -/
def Step.Agree (R : Run → Run → Prop) (s t : Step ε α) : Prop :=
  ∀ r r', R r r' → (s.exec r).1 = (t.exec r').1 ∧ R (s.exec r).2 (t.exec r').2

/-- What a relation of runs needs so that the calls made for two blocks keep it. -/
structure Lockstep (R : Run → Run → Prop) (ctx ctx' : BlockContext) : Prop where
  header : ctx.header.unsealed = ctx'.header.unsealed
  site : ctx.site = ctx'.site
  ledger : ∀ {r r'}, R r r' → r.ledger = r'.ledger
  edit : ∀ {r r'} l, R r r' → R { r with ledger := l } { r' with ledger := l }
  called : ∀ {r r'} site m, R r r' →
    R (r.record (.called site ctx.header m)) (r'.record (.called site ctx'.header m))
  finalised : ∀ {r r'} site, R r r' →
    R (r.record (.finalised site true)) (r'.record (.finalised site true))
  counted : ∀ {r r'} k, R r r' → R (r.record (.metric k)) (r'.record (.metric k))
  call : ∀ m l, ctx.vm.call ctx.chain ctx.config ctx.header m l =
    ctx'.vm.call ctx'.chain ctx'.config ctx'.header m l

namespace Step.Agree

variable {R : Run → Run → Prop}

theorem ok {s t : Step ε α} (hs : Agree R s t) {r r' q : Run} {a : α} (h : R r r')
    (hrun : s.exec r = (.ok a, q)) : ∃ q', t.exec r' = (.ok a, q') ∧ R q q' := by
  obtain ⟨hans, hafter⟩ := hs r r' h
  rw [hrun] at hans hafter
  exact ⟨(t.exec r').2, Prod.ext hans.symm rfl, hafter⟩

theorem refl_pure (a : α) : Agree R (pure a : Step ε α) (pure a) :=
  fun _ _ h => ⟨rfl, h⟩

theorem throw (e : ε) : Agree R (MonadExcept.throw e : Step ε α) (MonadExcept.throw e) :=
  fun _ _ h => ⟨rfl, h⟩

theorem ofExcept (x : Except ε α) : Agree R (Step.ofExcept x) (Step.ofExcept x) :=
  fun _ _ h => ⟨rfl, h⟩

theorem bind {s t : Step ε α} {f g : α → Step ε β} (hs : Agree R s t)
    (hf : ∀ a, Agree R (f a) (g a)) : Agree R (s >>= f) (t >>= g) := by
  intro r r' h
  obtain ⟨hans, hrun⟩ := hs r r' h
  simp only [exec_bind]
  rcases hx : s.exec r with ⟨x, q⟩
  rcases hy : t.exec r' with ⟨y, q'⟩
  rw [hx, hy] at hans hrun
  obtain rfl : x = y := hans
  cases x with
  | error e => exact ⟨rfl, hrun⟩
  | ok a => exact hf a q q' hrun

theorem mapError {s t : Step ε α} (f : ε → ε') (hs : Agree R s t) :
    Agree R (Step.mapError f s) (Step.mapError f t) := by
  intro r r' h
  obtain ⟨hans, hrun⟩ := hs r r' h
  simp only [exec_mapError]
  exact ⟨congrArg _ hans, hrun⟩

theorem outcome {s t : Step ε α} (hs : Agree R s t) :
    Agree R (Step.outcome s : Step ε' (Except ε α)) (Step.outcome t) := by
  intro r r' h
  obtain ⟨hans, hrun⟩ := hs r r' h
  simp only [exec_outcome]
  exact ⟨congrArg _ hans, hrun⟩

theorem ite {p : Prop} [Decidable p] {s s' t t' : Step ε α} (hs : Agree R s s')
    (ht : Agree R t t') : Agree R (if p then s else t) (if p then s' else t') := by
  split
  · exact hs
  · exact ht

end Step.Agree

namespace Lockstep

open Step (Agree)

variable {R : Run → Run → Prop} {ctx ctx' : BlockContext} (L : Lockstep R ctx ctx')
include L

theorem coinbase : ctx.header.coinbase = ctx'.header.coinbase :=
  (congrArg Header.coinbase L.header :)

theorem number : ctx.header.number = ctx'.header.number :=
  (congrArg Header.number L.header :)

theorem gasUsed : ctx.header.gasUsed = ctx'.header.gasUsed :=
  (congrArg Header.gasUsed L.header :)

theorem earlier : Lockstep R { ctx with site := .earlier } { ctx' with site := .earlier } :=
  ⟨L.header, rfl, L.ledger, L.edit, L.called, L.finalised, L.counted, L.call⟩

theorem modifyLedger (f : Ledger → Ledger) :
    Agree R (Step.modifyLedger f : Step ε Unit) (Step.modifyLedger f) := by
  intro r r' h
  rw [Step.exec_modifyLedger, Step.exec_modifyLedger, L.ledger h]
  exact ⟨rfl, L.edit _ h⟩

theorem on {s t : Step ε α} (l : Ledger) (hs : Agree R s t) :
    Agree R (Step.on l s) (Step.on l t) := by
  intro r r' h
  obtain ⟨hans, hrun⟩ := hs _ _ (L.edit l h)
  simp only [Step.exec_on, ← L.ledger h]
  exact ⟨hans, L.edit _ hrun⟩

-- ---------------------------------------------------------------------------
-- Contract calls
-- ---------------------------------------------------------------------------

theorem reply (m : Message) {r r' : Run} (h : R r r') :
    ctx.reply m r.ledger = ctx'.reply m r'.ledger := by
  rw [BlockContext.reply, BlockContext.reply, L.call, L.ledger h]

theorem afterCall (m : Message) {r r' : Run} (h : R r r') :
    R (ctx.afterCall m r) (ctx'.afterCall m r') := by
  have hledger : ctx.ledgerAfter m r.ledger = ctx'.ledgerAfter m r'.ledger := by
    rw [BlockContext.ledgerAfter, BlockContext.ledgerAfter, L.call, L.ledger h]
  rw [BlockContext.afterCall, BlockContext.afterCall, hledger, L.site]
  exact L.finalised _ (L.called _ m (L.edit _ h))

theorem callMethod (sender : Address) (contract : SystemContract)
    (name : String) (args : List Abi.Token) (value : Word) :
    Agree R (ctx.callMethod sender contract name args value)
      (ctx'.callMethod sender contract name args value) := by
  intro r r' h
  cases hpack : contract.pack name args with
  | error e =>
    rw [ctx.exec_callMethod_of_error hpack, ctx'.exec_callMethod_of_error hpack]
    exact ⟨rfl, h⟩
  | ok data =>
    rw [ctx.exec_callMethod hpack, ctx'.exec_callMethod hpack, L.reply _ h]
    exact ⟨rfl, L.afterCall _ h⟩

theorem callAsCoinbase (contract : SystemContract) (name : String) (args : List Abi.Token) :
    Agree R (ctx.callAsCoinbase contract name args) (ctx'.callAsCoinbase contract name args) := by
  rw [BlockContext.callAsCoinbase, BlockContext.callAsCoinbase, L.coinbase]
  exact L.callMethod _ contract name args 0

theorem callAsEngine (contract : SystemContract) (name : String) (args : List Abi.Token) :
    Agree R (ctx.callAsEngine contract name args) (ctx'.callAsEngine contract name args) :=
  L.callMethod Address.engineCaller contract name args 0

omit L in
theorem expect (what : String) (x : Option α) :
    Agree R (Registry.expect what x) (Registry.expect what x) := by
  cases x with
  | none => exact .throw _
  | some a => exact .refl_pure a

omit L in
theorem smallNumber (what : String) (tokens : List Abi.Token) :
    Agree R (Registry.smallNumber what tokens) (Registry.smallNumber what tokens) :=
  (expect what _).bind fun _ => .ite (.refl_pure _) (.throw _)

omit L in
theorem readFrom {read read' : UInt32 → Step ContractError α}
    (h : ∀ index, Agree R (read index) (read' index)) (index count : Nat) :
    Agree R (Registry.readFrom read index count) (Registry.readFrom read' index count) := by
  induction count generalizing index with
  | zero => exact .refl_pure _
  | succ count ih => exact (h _).bind fun _ => (ih (index + 1)).bind fun _ => .refl_pure _

theorem passedProposals :
    Agree R (Registry.passedProposals ctx) (Registry.passedProposals ctx') := by
  have hcount : Agree R (Registry.passedProposalCount ctx) (Registry.passedProposalCount ctx') :=
    (L.callAsCoinbase _ _ _).bind fun _ => smallNumber _ _
  have hread : ∀ index, Agree R (Registry.passedProposal ctx index)
      (Registry.passedProposal ctx' index) :=
    fun _ => (L.callAsCoinbase _ _ _).bind fun _ => expect _ _
  exact hcount.bind fun count => readFrom hread 0 count.toNat

theorem finishProposal (id : Word) :
    Agree R (Engine.finishProposal ctx id) (Engine.finishProposal ctx' id) :=
  (L.modifyLedger _).bind fun _ => (L.callAsCoinbase _ _ _).bind fun _ => .refl_pure _

theorem readValidators : Agree R (Registry.topValidators ctx) (Registry.topValidators ctx') :=
  (L.callAsEngine _ _ _).bind fun _ => expect _ _

end Lockstep

-- ---------------------------------------------------------------------------
-- The calls before the proposals
-- ---------------------------------------------------------------------------

/-- The methods that are called on the ledger of a block before the proposals. -/
inductive RulesCall : SystemContract → String → Prop where
  | setUp (contract : SystemContract) : RulesCall contract "initialize"
  | punish : RulesCall .punish "punish"
  | reward : RulesCall .validators "distributeBlockReward"
  | rotate : RulesCall .validators "updateActiveValidatorSet"
  | forgive : RulesCall .punish "decreaseMissedBlocksCounter"

/-- What the calls before the proposals need of a relation of runs. They are made by the
engine; two balances are all that is set directly, and the candidates are read aside. -/
structure RulesLockstep (R : Run → Run → Prop) (ctx ctx' : BlockContext) : Prop where
  header : ctx.header.unsealed = ctx'.header.unsealed
  ledger : ∀ {r r'}, R r r' → r.ledger = r'.ledger
  credit : ∀ {r r'} a b, R r r' →
    R { r with ledger := r.ledger.setBalance a b } { r' with ledger := r'.ledger.setBalance a b }
  counted : ∀ {r r'} k, R r r' → R (r.record (.metric k)) (r'.record (.metric k))
  call : ∀ {contract name} args value, RulesCall contract name → Step.Agree R
    (ctx.callMethod Address.engineCaller contract name args value)
    (ctx'.callMethod Address.engineCaller contract name args value)
  aside : ∀ l, Step.Agree R (Step.on l (Registry.topValidators { ctx with site := .earlier }))
    (Step.on l (Registry.topValidators { ctx' with site := .earlier }))

theorem Lockstep.rules {R : Run → Run → Prop} {ctx ctx' : BlockContext}
    (L : Lockstep R ctx ctx') : RulesLockstep R ctx ctx' where
  header := L.header
  ledger := L.ledger
  credit a b h := by
    rw [L.ledger h]
    exact L.edit _ h
  counted := L.counted
  call args value _ := L.callMethod _ _ _ args value
  aside l := L.on l L.earlier.readValidators

namespace RulesLockstep

open Step (Agree)

variable {R : Run → Run → Prop} {ctx ctx' : BlockContext} (L : RulesLockstep R ctx ctx')
variable {e e' : Engine}
include L

theorem coinbase : ctx.header.coinbase = ctx'.header.coinbase :=
  (congrArg Header.coinbase L.header :)

theorem number : ctx.header.number = ctx'.header.number :=
  (congrArg Header.number L.header :)

theorem parentHash : ctx.header.parentHash = ctx'.header.parentHash :=
  (congrArg Header.parentHash L.header :)

theorem readLedger : Agree R (Step.ledger : Step ε Ledger) Step.ledger :=
  fun _ _ h => ⟨congrArg Except.ok (L.ledger h), h⟩

theorem count (k : Metric) : Agree R (Step.count k : Step ε Unit) (Step.count k) :=
  fun _ _ h => ⟨rfl, L.counted k h⟩

theorem setBalance (a : Address) (b : Ledger → Word) :
    Agree R (Step.modifyLedger fun l => l.setBalance a (b l) : Step ε Unit)
      (Step.modifyLedger fun l => l.setBalance a (b l)) := by
  intro r r' h
  refine ⟨rfl, ?_⟩
  have hcredit := L.credit a (b r.ledger) h
  rw [Step.exec_modifyLedger, Step.exec_modifyLedger]
  rwa [← L.ledger h] at hcredit ⊢

theorem initializeContracts (hconfig : e.config = e'.config)
    (hsnapshot : e.snapshot = e'.snapshot) :
    Agree R (e.initializeContracts ctx) (e'.initializeContracts ctx') := by
  have hcall : ∀ contract args, Agree R
      (do let _ ← ctx.callAsEngine contract "initialize" args)
      (do let _ ← ctx'.callAsEngine contract "initialize" args) :=
    fun contract args => (L.call args 0 (.setUp contract)).bind fun _ => .refl_pure ()
  unfold Engine.initializeContracts
  rw [hconfig, hsnapshot, L.parentHash]
  cases e'.snapshot 0 ctx'.header.parentHash with
  | error cause => exact .throw _
  | ok snapshot =>
    refine .ite ((Agree.throw _).bind fun _ => ?_) ?_
    all_goals
      refine .ite ((Agree.throw _).bind fun _ => .mapError _ ?_) (.mapError _ ?_)
      all_goals
        exact (hcall _ _).bind fun _ => (hcall _ _).bind fun _ => (hcall _ _).bind fun _ =>
          hcall _ _

theorem tryPunish (hsnapshot : e.snapshot = e'.snapshot) :
    Agree R (e.tryPunish ctx) (e'.tryPunish ctx') := by
  have hpunish : ∀ validator,
      Agree R (Registry.punish ctx validator) (Registry.punish ctx' validator) :=
    fun _ => (L.call _ 0 .punish).bind fun _ => .refl_pure ()
  unfold Engine.tryPunish Engine.parentSnapshot
  rw [hsnapshot, L.number, L.parentHash]
  refine (Agree.ofExcept _).bind fun snapshot => ?_
  cases snapshot.turn ctx'.header.number with
  | none => exact .throw _
  | some validator =>
    refine .ite (.refl_pure _) ((hpunish validator).outcome.bind fun result => ?_)
    cases result with
    | ok _ => exact L.count _
    | error cause => exact (L.count _).bind fun _ => .throw _

theorem sendReward : Agree R (Engine.sendReward ctx) (Engine.sendReward ctx') := by
  unfold Engine.sendReward
  refine L.readLedger.bind fun l => .ite (.refl_pure _) ?_
  refine (L.setBalance _ _).bind fun _ => (L.setBalance _ _).bind fun _ => .mapError _ ?_
  exact (L.call _ _ .reward).bind fun _ => .refl_pure _

theorem topValidators (hledger : e.ledgerAt = e'.ledgerAt)
    (hparent : ctx.chain.header ctx'.header.parentHash (saturatingPred ctx'.header.number) =
      ctx'.chain.header ctx'.header.parentHash (saturatingPred ctx'.header.number)) :
    Agree R (e.topValidators ctx) (e'.topValidators ctx') := by
  unfold Engine.topValidators
  simp only [L.number, L.parentHash, hparent, hledger]
  cases ctx'.chain.header ctx'.header.parentHash (saturatingPred ctx'.header.number) with
  | none => exact .throw _
  | some parent =>
    simp only
    cases e'.ledgerAt parent.root with
    | error cause => exact .throw _
    | ok ledger =>
      exact Agree.bind (.mapError _ (L.aside ledger)) fun _ => .refl_pure _

theorem syncEpoch (hconfig : e.config = e'.config) (hledger : e.ledgerAt = e'.ledgerAt)
    (hparent : ctx.chain.header ctx'.header.parentHash (saturatingPred ctx'.header.number) =
      ctx'.chain.header ctx'.header.parentHash (saturatingPred ctx'.header.number))
    (hcheckpoint : e.checkpoint? ctx = e'.checkpoint? ctx') :
    Agree R (e.syncEpoch ctx) (e'.syncEpoch ctx') := by
  have hrotate : ∀ validators epoch, Agree R
      (Registry.updateActiveValidators ctx validators epoch)
      (Registry.updateActiveValidators ctx' validators epoch) :=
    fun _ _ => (L.call _ 0 .rotate).bind fun _ => .refl_pure ()
  have hforgive : ∀ epoch, Agree R (Registry.decreaseMissedBlocks ctx epoch)
      (Registry.decreaseMissedBlocks ctx' epoch) :=
    fun _ => (L.call _ 0 .forgive).bind fun _ => .refl_pure ()
  unfold Engine.syncEpoch
  rw [hconfig, hcheckpoint]
  cases e'.checkpoint? ctx' with
  | none => exact .throw _
  | some checkpoint =>
    refine .ite ((Agree.throw _).bind fun _ => ?_) ?_
    all_goals exact (Agree.mapError _ (hrotate _ _)).bind fun _ =>
      (Agree.mapError _ (hforgive _)).bind fun _ => L.topValidators hledger hparent

theorem inTurn (hsnapshot : e.snapshot = e'.snapshot) :
    e.inTurn ctx.header = e'.inTurn ctx'.header := by
  rw [Engine.inTurn, Engine.inTurn, Engine.parentSnapshot, Engine.parentSnapshot, hsnapshot,
    L.number, L.parentHash, L.coinbase]

theorem blockRules (hconfig : e.config = e'.config) (hsnapshot : e.snapshot = e'.snapshot)
    (hledger : e.ledgerAt = e'.ledgerAt)
    (hparent : ctx.chain.header ctx'.header.parentHash (saturatingPred ctx'.header.number) =
      ctx'.chain.header ctx'.header.parentHash (saturatingPred ctx'.header.number))
    (hcheckpoint : e.checkpoint? ctx = e'.checkpoint? ctx') :
    Agree R (e.blockRules ctx) (e'.blockRules ctx') := by
  have hrotate : Agree R
      (if e'.config.engine.epoch ≠ 0 ∧ ctx'.header.number % e'.config.engine.epoch = 0 then
        do return some (← e.syncEpoch ctx) else pure none)
      (if e'.config.engine.epoch ≠ 0 ∧ ctx'.header.number % e'.config.engine.epoch = 0 then
        do return some (← e'.syncEpoch ctx') else pure none) :=
    .ite ((L.syncEpoch hconfig hledger hparent hcheckpoint).bind fun _ => .refl_pure _)
      (.refl_pure _)
  unfold Engine.blockRules
  rw [L.number, hconfig, L.inTurn hsnapshot]
  refine .ite ((L.initializeContracts hconfig hsnapshot).bind fun _ => ?_) ?_
  all_goals
    refine (Agree.ofExcept _).bind fun turn => ?_
    exact .ite ((L.tryPunish hsnapshot).bind fun _ => L.sendReward.bind fun _ => hrotate)
      (L.sendReward.bind fun _ => hrotate)

end RulesLockstep

end StakeGov
