import StakeGov.Contract.Registry
import StakeGov.Contract.Storage
import StakeGov.Engine.Basic

/-!
# Looking up the address policy

The policy of a block is read from the ledger after its parent and remembered by
the parent's hash. If it has not changed since before the parent, what was
remembered for the parent's own parent serves as well. Every lookup counts as one
hit or one read, and its duration is recorded at its end.
-/

namespace StakeGov

/-- A part of the policy that is read as a whole and remembered as a whole. -/
structure PolicyPart (α : Type) where
  kind : PolicyKind
  updated : Ledger → UInt64
  fetch : BlockContext → Step ContractError α

namespace PolicyPart

variable {α : Type}

/-- What is remembered for the grandparent, if it still holds for the block. -/
def lookback? (part : PolicyPart α) (ctx : BlockContext) (ledger : Ledger) (cache : Cache α) :
    Option α := do
  let number := ctx.header.number
  guard (2 ≤ number ∧ saturatingSucc (part.updated ledger) < number)
  let parent ← ctx.chain.header ctx.header.parentHash (number - 1)
  cache.peek? parent.parentHash

def find (part : PolicyPart α) (ctx : BlockContext) (cache : Cache α) :
    Step ContractError (α × Cache α) := do
  let key := ctx.header.parentHash
  match cache.peek? key with
  | some value =>
    Step.count (.hit part.kind .entry)
    return (value, cache.touch key)
  | none =>
    match part.lookback? ctx (← Step.ledger) cache with
    | some value =>
      Step.count (.hit part.kind .lookback)
      return (value, cache.put key value)
    | none =>
      Step.count (.read part.kind)
      let value ← part.fetch ctx
      return (value, cache.put key value)

/-- A lookup with its end recorded, whether or not it fails. -/
def lookup (part : PolicyPart α) (ctx : BlockContext) (cache : Cache α) :
    Step ContractError (α × Cache α) := do
  let result ← Step.outcome (part.find ctx cache)
  Step.count (.observed part.kind)
  Step.ofExcept result

end PolicyPart

-- ---------------------------------------------------------------------------
-- The two parts
-- ---------------------------------------------------------------------------

def fetchBlacklist (ctx : BlockContext) : Step ContractError Blacklist := do
  let senders ← Registry.bannedSenders ctx
  let recipients ← Registry.bannedRecipients ctx
  return .ofLists senders recipients

def fetchRules (ctx : BlockContext) : Step ContractError EventRules := do
  return .ofEntries (← Registry.ruleList ctx)

def blacklistPart : PolicyPart Blacklist :=
  ⟨.blacklist, PolicyStorage.blacklistUpdated, fetchBlacklist⟩

def rulesPart : PolicyPart EventRules :=
  ⟨.rules, PolicyStorage.rulesUpdated, fetchRules⟩

namespace Engine

/-- The blacklist that applies to a block; the ledger is that of its parent. -/
def blacklist (e : Engine) (header : Header) : Step ContractError Blacklist := do
  let (list, cache) ← blacklistPart.lookup (e.context header) (← get).policies.blacklists
  modify fun r => { r with policies := { r.policies with blacklists := cache } }
  return list

def eventRules (e : Engine) (header : Header) : Step ContractError EventRules := do
  let (rules, cache) ← rulesPart.lookup (e.context header) (← get).policies.rules
  modify fun r => { r with policies := { r.policies with rules := cache } }
  return rules

/-- Refuses a transaction from an address that may not send or to one that may
not receive. -/
def validateTransaction (e : Engine) (header : Header) (sender : Address) (tx : Transaction) :
    Step EngineError Unit := do
  let list ← Step.mapError .contract (e.blacklist header)
  if list.bans sender .sender then throw (.validation (.addressDenied sender))
  match tx.recipient with
  | some recipient =>
    if list.bans recipient .recipient then throw (.validation (.addressDenied recipient))
  | none => return ()

/-- The policy to run a block's transactions under; none if it cannot be read. -/
def policy (e : Engine) (header : Header) : Step Empty (Option Policy) := do
  match ← Step.outcome (e.blacklist header) with
  | .error _ => return none
  | .ok blacklist =>
    match ← Step.outcome (e.eventRules header) with
    | .error _ => return none
    | .ok rules => return some ⟨blacklist, rules⟩

/-- Whether an account may create contracts. Only the configuration and the
contract together restrict it. -/
def mayCreate (e : Engine) (ledger : Ledger) (a : Address) : Bool :=
  if e.config.engine.verifyDevelopers && PolicyStorage.restrictsDevelopers ledger then
    PolicyStorage.isDeveloper ledger a
  else true

end Engine

end StakeGov
