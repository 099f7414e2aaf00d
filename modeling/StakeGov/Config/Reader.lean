import StakeGov.Config
import StakeGov.Toml.Reader

/-!
# Reading the configuration

A configuration is a table with the chain's number and a table of the engine's
parameters. Keys that mean nothing are ignored; what is left out has its default.
-/

namespace StakeGov

open Toml (Value)

namespace Toml.Value

/-- The fields of a record, by place and by name: a table has them by name, an array
in order, and a moment in time has none. -/
def fields? : Value → Option (Nat → String → Option Value)
  | .table entries => some fun _ name => entries.lookup name
  | .array items => some fun place _ => items[place]?
  | .moment => some fun _ _ => none
  | _ => none

def natural? : Value → Option Nat
  | .integer v => if 0 ≤ v then some v.toNat else none
  | _ => none

def uint64? (v : Value) : Option UInt64 :=
  v.natural?.map UInt64.ofNat

def boolean? : Value → Option Bool
  | .boolean b => some b
  | _ => none

def byte? (v : Value) : Option UInt8 := do
  let n ← v.natural?
  guard (n < 256)
  return UInt8.ofNat n

def digitsOfAddress : List Char → List Char
  | '0' :: 'x' :: digits | '0' :: 'X' :: digits => digits
  | digits => digits

/-- Twenty bytes: as text of forty digits, or as an array of numbers that has no
further byte after them. -/
def addressBytes? : Value → Option Bytes
  | .string s => Bytes.ofHexDigits? (digitsOfAddress s.toList)
  | .array items => do
    guard (((items[20]?).bind byte?).isNone)
    (items.take 20).mapM byte?
  | _ => none

def address? (v : Value) : Option Address := do
  let bs ← v.addressBytes?
  guard (bs.length = 20)
  return Address.ofBytes bs

def genesisValidator? (v : Value) : Option GenesisValidator := do
  let field ← v.fields?
  return ⟨← (← field 0 "validator").address?, ← (← field 1 "manager").address?⟩

def list? (read : Value → Option α) : Value → Option (List α)
  | .array items => items.mapM read
  | _ => none

def orDefault (field : Option Value) (read : Value → Option α) (default : α) : Option α :=
  match field with
  | some v => read v
  | none => some default

def engineConfig? (v : Value) : Option EngineConfig := do
  let field ← v.fields?
  let defaults : EngineConfig := {}
  return {
    period := ← orDefault (field 0 "period") uint64? defaults.period
    epoch := ← orDefault (field 1 "epoch") uint64? defaults.epoch
    verifyDevelopers := ←
      orDefault (field 2 "enable_dev_verification") boolean? defaults.verifyDevelopers
    genesisValidators := ←
      orDefault (field 3 "genesis_validators") (list? genesisValidator?)
        defaults.genesisValidators
    stakingAdmin := ← orDefault (field 4 "staking_admin") address? defaults.stakingAdmin
    governanceAdmin := ← orDefault (field 5 "gov_admin") address? defaults.governanceAdmin
    policyCacheSize := ←
      orDefault (field 6 "policy_cache_size") uint64? defaults.policyCacheSize }

def chainConfig? (v : Value) : Option ChainConfig := do
  let field ← v.fields?
  return {
    chainId := ← (← field 0 "chain_id").uint64?
    engine := ← orDefault (field 1 "npos") engineConfig? {} }

end Toml.Value

def ChainConfig.ofText (text : String) : Except ConfigError ChainConfig := do
  match (Toml.parse text).bind Toml.Value.chainConfig? with
  | none => throw .malformed
  | some config =>
    config.engine.validate
    return config

end StakeGov
