import StakeGov.Abi.Method
import StakeGov.Error

/-!
# The system contracts

Four contracts at fixed addresses, and the methods each of them has.
-/

namespace StakeGov

inductive SystemContract where
  | validators
  | punish
  | governance
  /-- The address policy: blacklist, event rules and developers. -/
  | addressList
deriving DecidableEq, Repr

namespace SystemContract

open Abi (Method Token)

def name : SystemContract → String
  | .validators => "validators"
  | .punish => "punish"
  | .governance => "governance"
  | .addressList => "address_list"

def address : SystemContract → Address
  | .validators => 0xd001
  | .punish => 0xd002
  | .governance => 0xd003
  | .addressList => 0xd004

def methods : SystemContract → List Method
  | .validators =>
    [⟨"initialize", [.array .address, .array .address, .address], []⟩,
     ⟨"getTopValidators", [], [.array .address]⟩,
     ⟨"updateActiveValidatorSet", [.array .address, .uint 256], []⟩,
     ⟨"distributeBlockReward", [], []⟩]
  | .punish =>
    [⟨"initialize", [], []⟩,
     ⟨"punish", [.address], []⟩,
     ⟨"decreaseMissedBlocksCounter", [.uint 256], []⟩]
  | .governance =>
    [⟨"initialize", [.address], []⟩,
     ⟨"getPassedProposalCount", [], [.uint 32]⟩,
     ⟨"getPassedProposalByIndex", [.uint 32],
       [.uint 256, .uint 256, .address, .address, .uint 256, .bytes]⟩,
     ⟨"finishProposalById", [.uint 256], []⟩]
  | .addressList =>
    [⟨"initialize", [.address], []⟩,
     ⟨"getBlacksFrom", [], [.array .address]⟩,
     ⟨"getBlacksTo", [], [.array .address]⟩,
     ⟨"getRuleByIndex", [.uint 32], [.bytes32, .uint 128, .uint 8]⟩,
     ⟨"rulesLen", [], [.uint 32]⟩]

def method (c : SystemContract) (name : String) : Except ContractError Method :=
  match c.methods.find? fun m => m.name = name with
  | some m => .ok m
  | none => .error (.unknownMethod c.name name)

def pack (c : SystemContract) (name : String) (args : List Token) :
    Except ContractError Bytes := do
  let m ← c.method name
  match m.encodeInput args with
  | .ok data => return data
  | .error cause => throw (.pack name cause.message)

def unpack (c : SystemContract) (name : String) (data : Bytes) :
    Except ContractError (List Token) := do
  let m ← c.method name
  match m.decodeOutput data with
  | .ok tokens => return tokens
  | .error cause => throw (.unpack name cause.message)

end SystemContract

end StakeGov
