import StakeGov.Contract.Call
import StakeGov.Validators
import StakeGov.Transaction

/-!
# The engine

What the engine is built from: the configuration, the execution environment, and
what it asks other parts of the node for. One engine serves every block; the
policies it remembers are passed from run to run.
-/

namespace StakeGov

structure Signer where
  sign : Address → Transaction → UInt64 → Except SignerError Transaction

/-- An account of this node and the means to sign for it. -/
structure Authority where
  validator : Address
  signer : Signer

structure Engine where
  config : ChainConfig
  vm : Vm
  chain : ChainReader
  /-- The ledger after a block, by its root. -/
  ledgerAt : Hash → Except StateError Ledger
  /-- The snapshot at a height, after the block of the given hash. -/
  snapshot : UInt64 → Hash → Except ValidationError Snapshot
  sender : Transaction → UInt64 → Except SignerError Address
  authority : Option Authority := none

namespace Engine

def initialCaches (config : ChainConfig) : Except ConfigError PolicyCaches := do
  config.engine.validate
  let capacity := config.engine.policyCacheSize.toNat
  return ⟨⟨capacity, []⟩, ⟨capacity, []⟩⟩

def context (e : Engine) (header : Header) : BlockContext where
  vm := e.vm
  chain := e.chain
  config := e.config
  header := header

end Engine

end StakeGov
