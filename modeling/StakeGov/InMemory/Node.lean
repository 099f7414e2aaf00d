import StakeGov.InMemory.Chain
import StakeGov.InMemory.ScriptedVm
import StakeGov.InMemory.Signing

/-!
# A node in memory

An engine with all that it asks for kept in memory, and the policies it remembers
from run to run.
-/

namespace StakeGov

structure Node where
  config : ChainConfig
  policies : PolicyCaches
  authority : Option Authority := none
  vm : ScriptedVm := {}
  chain : HeaderStore := {}
  snapshots : SnapshotStore := ∅
  roots : LedgerStore := ∅

namespace Node

def start (config : ChainConfig) : Except ConfigError Node := do
  return { config, policies := ← Engine.initialCaches config }

/-- The same node with a new engine, which remembers nothing and may not sign. -/
def restart (n : Node) (config : ChainConfig) : Except ConfigError Node := do
  return { n with config, policies := ← Engine.initialCaches config, authority := none }

def engine (n : Node) : Engine where
  config := n.config
  vm := n.vm.vm
  chain := n.chain.reader
  ledgerAt := n.roots.find
  snapshot := n.snapshots.find
  sender := PlainSigning.sender
  authority := n.authority

def begin (n : Node) (ledger : Ledger) (body : BlockBody := {}) : Run :=
  { ledger, policies := n.policies, body }

end Node

end StakeGov
