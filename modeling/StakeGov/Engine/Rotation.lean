import StakeGov.Contract.Registry
import StakeGov.Engine.Basic

/-!
# Rotation, punishment and rewards

What a block does about validators: the first block sets up the contracts, a
validator that missed its turn is punished, the fees collected are handed out,
and at the end of an epoch the next set of validators is determined.
-/

namespace StakeGov.Engine

/-- The candidates, in ascending order. They are read from the ledger after the
parent, so that nothing in the block itself has a say. -/
def topValidators (e : Engine) (ctx : BlockContext) : Step EngineError (List Address) := do
  let header := ctx.header
  match ctx.chain.header header.parentHash (saturatingPred header.number) with
  | none => throw (.validation .unknownAncestor)
  | some parent =>
    match e.ledgerAt parent.root with
    | .error cause => throw (.state cause)
    | .ok ledger =>
      let list ← Step.mapError .contract <|
        Step.on ledger (Registry.topValidators { ctx with site := .earlier })
      return sortAddresses list

def checkpoint? (e : Engine) (ctx : BlockContext) : Option Header := do
  let epoch := e.config.engine.epoch
  guard (epoch ≤ ctx.header.number)
  ctx.chain.headerByNumber (ctx.header.number - epoch)

/-- Puts the validators named one epoch ago into force, forgives an epoch of
missed turns, and gives the validators of the next epoch. -/
def syncEpoch (e : Engine) (ctx : BlockContext) : Step EngineError (List Address) := do
  let epoch := e.config.engine.epoch
  match e.checkpoint? ctx with
  | none => throw (.validation .unknownAncestor)
  | some checkpoint =>
    let validators := ExtraData.validators checkpoint.extra
    if validators = [] then throw (.validation .invalidExtraValidators)
    Step.mapError .contract (Registry.updateActiveValidators ctx validators epoch)
    Step.mapError .contract (Registry.decreaseMissedBlocks ctx epoch)
    e.topValidators ctx

def parentSnapshot (e : Engine) (header : Header) : Except EngineError Snapshot :=
  (e.snapshot (saturatingPred header.number) header.parentHash).mapError .validation

def inTurn (e : Engine) (header : Header) : Except EngineError Bool := do
  let snapshot ← e.parentSnapshot header
  return snapshot.turn header.number = some header.coinbase

/-- Punishes the validator whose turn it was, unless it signed recently. -/
def tryPunish (e : Engine) (ctx : BlockContext) : Step EngineError Unit := do
  let snapshot ← Step.ofExcept (e.parentSnapshot ctx.header)
  match snapshot.turn ctx.header.number with
  | none => throw (.validation (.invalidValidatorsLength 0))
  | some validator =>
    if snapshot.signedRecently validator then return ()
    match ← Step.outcome (Registry.punish ctx validator) with
    | .ok _ => Step.count (.punished true)
    | .error cause =>
      Step.count (.punished false)
      throw (.contract cause)

def sendReward (ctx : BlockContext) : Step EngineError Unit := do
  let fee := (← Step.ledger).balance Address.feeRecorder
  if fee = 0 then return ()
  Step.modifyLedger (·.addBalance Address.engineCaller fee)
  Step.modifyLedger (·.setBalance Address.feeRecorder 0)
  Step.mapError .contract (Registry.distributeReward ctx fee)

def initializeContracts (e : Engine) (ctx : BlockContext) : Step EngineError Unit := do
  match e.snapshot 0 ctx.header.parentHash with
  | .error cause => throw (.validation cause)
  | .ok snapshot =>
    let size := snapshot.validators.size
    if size = 0 ∨ maxValidators < size then
      throw (.validation (.invalidValidatorsLength size))
    let config := e.config.engine
    if config.genesisValidators = [] then throw (.validation .missingGenesisValidators)
    Step.mapError .contract <| do
      Registry.initializeValidators ctx (config.genesisValidators.map (·.validator))
        (config.genesisValidators.map (·.manager)) config.stakingAdmin
      Registry.initializePunish ctx
      Registry.initializeAddressList ctx config.governanceAdmin
      Registry.initializeGovernance ctx config.governanceAdmin

end StakeGov.Engine
