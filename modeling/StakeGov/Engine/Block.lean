import StakeGov.Engine.Governance
import StakeGov.Engine.Rotation

/-!
# Ending a block

After its transactions every block runs the same calls in the same order: set-up
(in the first block), punishment, rewards, rotation (at the end of an epoch), and
the passed proposals. A producer executes the proposals and adds their
transactions; a validating node replays the transactions it was given.
-/

namespace StakeGov.Engine

/-- Runs the calls that come before the proposals. At the end of an epoch it gives
the validators of the next one. -/
def blockRules (e : Engine) (ctx : BlockContext) : Step EngineError (Option (List Address)) := do
  let number := ctx.header.number
  let epoch := e.config.engine.epoch
  if number = 1 then e.initializeContracts ctx
  if !(← Step.ofExcept (e.inTurn ctx.header)) then e.tryPunish ctx
  sendReward ctx
  if epoch ≠ 0 ∧ number % epoch = 0 then
    return some (← e.syncEpoch ctx)
  else
    return none

/-- Replays one transaction, adds it to the block and takes its proposal off the
queue. -/
def replayNext (e : Engine) (ctx : BlockContext) (p : Proposal) (tx : Transaction) :
    Step EngineError Unit := do
  let receipt ← e.replayProposal ctx p (← get).body.nextIndex tx
  Step.append tx receipt
  Step.mapError .contract (finishProposal ctx p.id)

/-- Executes one proposal, adds its transaction to the block and takes it off the
queue. -/
def executeNext (e : Engine) (ctx : BlockContext) (p : Proposal) : Step EngineError Unit := do
  let (tx, receipt) ← e.executeProposal ctx p (← get).body.nextIndex
  Step.append tx receipt
  Step.mapError .contract (finishProposal ctx p.id)

/-- Checks the end of a block that another node produced, given the governance
transactions it carries. -/
def finalize (e : Engine) (header : Header) (systemTxs : List Transaction) :
    Step EngineError Unit := do
  let ctx := e.context header
  match ← e.blockRules ctx with
  | some next =>
    if ExtraData.validators header.extra ≠ next then
      throw (.validation .mismatchingEpochValidators)
  | none => pure ()
  let proposals ← Step.mapError .contract (Registry.passedProposals ctx)
  if proposals.length ≠ systemTxs.length then
    throw (.validation (.mismatchingSystemTxs proposals.length systemTxs.length))
  (proposals.zip systemTxs).forM fun (p, tx) => e.replayNext ctx p tx

def announce (header : Header) : Option (List Address) → Header
  | some next =>
    { header with extra := ExtraData.encode (header.extra.take ExtraData.vanityLength) next }
  | none => header

/-- Produces the end of a block and gives its header. -/
def assemble (e : Engine) (header : Header) : Step EngineError Header := do
  let ctx := e.context header
  let next ← e.blockRules ctx
  let proposals ← Step.mapError .contract (Registry.passedProposals ctx)
  proposals.forM fun p => e.executeNext ctx p
  return announce header next

end StakeGov.Engine
