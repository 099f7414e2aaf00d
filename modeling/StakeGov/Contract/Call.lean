import StakeGov.Contract.Interface
import StakeGov.Engine.Run

/-!
# Calling contracts

A call runs with unlimited gas at no price, and pending changes are committed
after it, whether or not it succeeded.
-/

namespace StakeGov

/-- What the calls made for a block have in common. -/
structure BlockContext where
  vm : Vm
  chain : ChainReader
  config : ChainConfig
  header : Header
  site : Site := .block

namespace BlockContext

open Abi (Token)

/-- Runs a message and commits what it changed. -/
def transact (ctx : BlockContext) (message : Message) : Step ε Outcome := do
  let ledger ← Step.ledger
  let (outcome, after) := ctx.vm.call ctx.chain ctx.config ctx.header message ledger
  Step.modifyLedger fun _ => after
  Step.emit (.called ctx.site ctx.header message)
  Step.modifyLedger (·.finalise true)
  Step.emit (.finalised ctx.site true)
  return outcome

def unlimitedGas : UInt64 := 0xffffffffffffffff

def callWithValue (ctx : BlockContext) (sender callee : Address) (data : Bytes) (value : Word) :
    Step ContractError Bytes := do
  let outcome ← ctx.transact
    { sender, callee := some callee, value, data, gas := unlimitedGas, gasPrice := 0 }
  match outcome.error with
  | none => return outcome.returnData
  | some cause => throw (.ofVm cause outcome.returnData)

def call (ctx : BlockContext) (callee : Address) (data : Bytes) : Step ContractError Bytes :=
  ctx.callWithValue Address.engineCaller callee data 0

def callMethod (ctx : BlockContext) (sender : Address) (contract : SystemContract)
    (name : String) (args : List Token) (value : Word) : Step ContractError (List Token) := do
  let data ← Step.ofExcept (contract.pack name args)
  let returned ← ctx.callWithValue sender contract.address data value
  let tokens ← Step.ofExcept (contract.unpack name returned)
  let m ← Step.ofExcept (contract.method name)
  if tokens.length ≠ m.outputs.length then
    throw (.outputLength name m.outputs.length tokens.length)
  return tokens

def callAsCoinbase (ctx : BlockContext) (contract : SystemContract) (name : String)
    (args : List Token) : Step ContractError (List Token) :=
  ctx.callMethod ctx.header.coinbase contract name args 0

def callAsEngine (ctx : BlockContext) (contract : SystemContract) (name : String)
    (args : List Token) : Step ContractError (List Token) :=
  ctx.callMethod Address.engineCaller contract name args 0

end BlockContext

end StakeGov
