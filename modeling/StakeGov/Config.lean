import StakeGov.Validators

/-!
# The chain's configuration

The parameters of the engine, with their defaults, and what it cannot run with.
-/

namespace StakeGov

structure GenesisValidator where
  validator : Address
  manager : Address
deriving DecidableEq, Repr

structure EngineConfig where
  /-- Seconds between blocks. -/
  period : UInt64 := 3
  /-- Blocks between rotations of the validators. -/
  epoch : UInt64 := 200
  verifyDevelopers : Bool := false
  genesisValidators : List GenesisValidator := []
  stakingAdmin : Address := 0
  governanceAdmin : Address := 0
  policyCacheSize : UInt64 := 21
deriving DecidableEq, Repr

structure ChainConfig where
  chainId : UInt64
  engine : EngineConfig := {}
deriving DecidableEq, Repr

inductive ConfigError where
  | malformed
  | zeroEpoch
  | zeroCacheSize
  | tooManyGenesisValidators (count : Nat)
deriving DecidableEq, Repr

namespace ConfigError

def code : ConfigError → String
  | .malformed => "CONFIG_PARSE"
  | _ => "CONFIG_INVALID"

def message : ConfigError → String
  | .malformed => "failed to parse config"
  | .zeroEpoch => "invalid config: epoch must be non-zero"
  | .zeroCacheSize => "invalid config: policy_cache_size must be non-zero"
  | .tooManyGenesisValidators count =>
    s!"invalid config: at most {maxValidators} genesis validators are supported, got {count}"

end ConfigError

def EngineConfig.validate (c : EngineConfig) : Except ConfigError Unit :=
  if c.epoch = 0 then .error .zeroEpoch
  else if c.policyCacheSize = 0 then .error .zeroCacheSize
  else if maxValidators < c.genesisValidators.length then
    .error (.tooManyGenesisValidators c.genesisValidators.length)
  else .ok ()

end StakeGov
