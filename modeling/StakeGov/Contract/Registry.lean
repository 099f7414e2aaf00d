import StakeGov.Contract.Call
import StakeGov.Proposal

/-!
# The methods the engine calls

One step for each method, with the values it takes and gives. The policy and
governance registries are read as the producer of the block; everything else is
called as the engine.
-/

namespace StakeGov.Registry

open Abi (Token)

/-- The value, or an error that names what it should have been. -/
def expect (what : String) : Option α → Step ContractError α
  | some x => return x
  | none => throw (.outputFormat what)

def addressList (what : String) (tokens : List Token) : Step ContractError (List Address) :=
  expect what (tokens.head?.bind Token.addresses?)

def smallNumber (what : String) (tokens : List Token) : Step ContractError UInt32 := do
  let v ← expect what (tokens.head?.bind Token.uint?)
  if v.toNat < UInt32.size then return UInt32.ofNat v.toNat else throw (.outputFormat what)

/-- Reads `count` entries of a list that a contract keeps, from `index` on, up to
the first that cannot be read. -/
def readFrom (read : UInt32 → Step ContractError α) :
    Nat → Nat → Step ContractError (List α)
  | _, 0 => return []
  | index, count + 1 => do
    let entry ← read (UInt32.ofNat index)
    let rest ← readFrom read (index + 1) count
    return entry :: rest

-- ---------------------------------------------------------------------------
-- Validators
-- ---------------------------------------------------------------------------

/-- The candidates in the contract's own order. -/
def topValidators (ctx : BlockContext) : Step ContractError (List Address) := do
  addressList "validators" (← ctx.callAsEngine .validators "getTopValidators" [])

/-- Puts the set into force that is active for `epoch` blocks. -/
def updateActiveValidators (ctx : BlockContext) (validators : List Address) (epoch : UInt64) :
    Step ContractError Unit := do
  let _ ← ctx.callAsEngine .validators "updateActiveValidatorSet"
    [.ofAddresses validators, .uint (BitVec.ofNat 256 epoch.toNat)]

/-- Hands over a reward that was credited to the engine before. -/
def distributeReward (ctx : BlockContext) (reward : Word) : Step ContractError Unit := do
  let _ ← ctx.callMethod Address.engineCaller .validators "distributeBlockReward" [] reward

def initializeValidators (ctx : BlockContext) (validators managers : List Address)
    (admin : Address) : Step ContractError Unit := do
  let _ ← ctx.callAsEngine .validators "initialize"
    [.ofAddresses validators, .ofAddresses managers, .address admin]

-- ---------------------------------------------------------------------------
-- Punishment
-- ---------------------------------------------------------------------------

def punish (ctx : BlockContext) (validator : Address) : Step ContractError Unit := do
  let _ ← ctx.callAsEngine .punish "punish" [.address validator]

/-- Forgives every validator what it missed in one epoch. -/
def decreaseMissedBlocks (ctx : BlockContext) (epoch : UInt64) : Step ContractError Unit := do
  let _ ← ctx.callAsEngine .punish "decreaseMissedBlocksCounter"
    [.uint (BitVec.ofNat 256 epoch.toNat)]

def initializePunish (ctx : BlockContext) : Step ContractError Unit := do
  let _ ← ctx.callAsEngine .punish "initialize" []

-- ---------------------------------------------------------------------------
-- Governance
-- ---------------------------------------------------------------------------

def passedProposalCount (ctx : BlockContext) : Step ContractError UInt32 := do
  smallNumber "proposal count" (← ctx.callAsCoinbase .governance "getPassedProposalCount" [])

def proposalOf : List Token → Option Proposal
  | [.uint id, .uint action, .address sender, .address target, .uint value, .bytes data] =>
    some { id, action, sender, target, value, data }
  | _ => none

def passedProposal (ctx : BlockContext) (index : UInt32) : Step ContractError Proposal := do
  let tokens ← ctx.callAsCoinbase .governance "getPassedProposalByIndex"
    [.uint (BitVec.ofNat 256 index.toNat)]
  expect "proposal" (proposalOf tokens)

def passedProposals (ctx : BlockContext) : Step ContractError (List Proposal) := do
  let count ← passedProposalCount ctx
  readFrom (passedProposal ctx) 0 count.toNat

def finishProposal (ctx : BlockContext) (id : Word) : Step ContractError Unit := do
  let _ ← ctx.callAsCoinbase .governance "finishProposalById" [.uint id]

def initializeGovernance (ctx : BlockContext) (admin : Address) : Step ContractError Unit := do
  let _ ← ctx.callAsEngine .governance "initialize" [.address admin]

-- ---------------------------------------------------------------------------
-- Address policy
-- ---------------------------------------------------------------------------

def bannedSenders (ctx : BlockContext) : Step ContractError (List Address) := do
  addressList "blacklist" (← ctx.callAsCoinbase .addressList "getBlacksFrom" [])

def bannedRecipients (ctx : BlockContext) : Step ContractError (List Address) := do
  addressList "blacklist" (← ctx.callAsCoinbase .addressList "getBlacksTo" [])

def ruleCount (ctx : BlockContext) : Step ContractError UInt32 := do
  smallNumber "rules length" (← ctx.callAsCoinbase .addressList "rulesLen" [])

def ruleOf : List Token → Option RuleEntry
  | [.bytes32 signature, .uint topic, .uint check] =>
    if check.toNat < 256 then
      some ⟨signature, topic.toUInt64Saturating, .ofCode (UInt8.ofNat check.toNat)⟩
    else none
  | _ => none

def rule (ctx : BlockContext) (index : UInt32) : Step ContractError RuleEntry := do
  let tokens ← ctx.callAsCoinbase .addressList "getRuleByIndex"
    [.uint (BitVec.ofNat 256 index.toNat)]
  expect "rule" (ruleOf tokens)

def ruleList (ctx : BlockContext) : Step ContractError (List RuleEntry) := do
  let count ← ruleCount ctx
  readFrom (rule ctx) 0 count.toNat

def initializeAddressList (ctx : BlockContext) (admin : Address) :
    Step ContractError Unit := do
  let _ ← ctx.callAsEngine .addressList "initialize" [.address admin]

end StakeGov.Registry
