import StakeGov.Contract.Interface
import StakeGov.Vm

/-!
# A scripted execution environment

Each method of each account has a script: first some effects on the ledger, then
an answer, which may depend on the first argument of the call or on the nonce of
an account. A method without a script succeeds and returns nothing.
-/

namespace StakeGov

inductive Effect where
  /-- Emits a log; without an address the account called is the emitter. -/
  | log (address : Option Address) (topics : List Hash) (data : Bytes)
  | setNonce (a : Address) (nonce : UInt64)
  | bumpNonce (a : Address)
  | addBalance (a : Address) (amount : Word)
  | setBalance (a : Address) (amount : Word)
  | erase (a : Address)
deriving DecidableEq, Repr

def Effect.apply (callee : Address) (l : Ledger) : Effect → Ledger
  | .log address topics data => l.addLog { address := address.getD callee, topics, data }
  | .setNonce a nonce => l.setNonce a nonce
  | .bumpNonce a => l.setNonce a (saturatingSucc (l.nonce a))
  | .addBalance a amount => l.addBalance a amount
  | .setBalance a amount => l.setBalance a amount
  | .erase a => l.erase a

inductive Choice where
  | argument
  | nonce (a : Address)
deriving DecidableEq, Repr

/-- A script. A choice that picks none of the scripts goes on with the last one. -/
inductive Script where
  | answer (effects : List Effect) (outcome : Outcome)
  | choose (effects : List Effect) (choice : Choice) (scripts : List Script)
      (otherwise : Script)

def Choice.index? (choice : Choice) (data : Bytes) (l : Ledger) : Option Nat :=
  match choice with
  | .argument => if 36 ≤ data.length then some (Bytes.toNat ((data.drop 4).take 32)) else none
  | .nonce a => some (l.nonce a).toNat

mutual

def Script.run (callee : Address) (data : Bytes) : Script → Ledger → Outcome × Ledger
  | .answer effects outcome, l => (outcome, effects.foldl (Effect.apply callee) l)
  | .choose effects choice scripts otherwise, l =>
    let l := effects.foldl (Effect.apply callee) l
    match choice.index? data l with
    | none => otherwise.run callee data l
    | some i =>
      match runNth callee data scripts i l with
      | some result => result
      | none => otherwise.run callee data l

def runNth (callee : Address) (data : Bytes) :
    List Script → Nat → Ledger → Option (Outcome × Ledger)
  | [], _, _ => none
  | script :: _, 0, l => some (script.run callee data l)
  | _ :: scripts, i + 1, l => runNth callee data scripts i l

end

structure ScriptEntry where
  callee : Address
  selector : Bytes
  script : Script

/-- Scripts by account and selector, the latest first. -/
structure ScriptedVm where
  entries : List ScriptEntry := []

namespace ScriptedVm

def on (vm : ScriptedVm) (callee : Address) (signature : String) (script : Script) : ScriptedVm :=
  ⟨⟨callee, Abi.selectorOf signature, script⟩ :: vm.entries⟩

def script? (vm : ScriptedVm) (callee : Address) (data : Bytes) : Option Script :=
  if data.length < 4 then none
  else (vm.entries.find? fun e => e.callee = callee ∧ e.selector = data.take 4).map (·.script)

def call (vm : ScriptedVm) (message : Message) (l : Ledger) : Outcome × Ledger :=
  match message.callee with
  | none => ({}, l)
  | some callee =>
    match vm.script? callee message.data with
    | some script => script.run callee message.data l
    | none => ({}, l)

def vm (vm : ScriptedVm) : Vm :=
  ⟨fun _ _ _ message l => vm.call message l⟩

end ScriptedVm

def callCount (messages : List Message) (callee : Address) (signature : String) : Nat :=
  messages.countP fun m => m.callee = some callee ∧ 4 ≤ m.data.length ∧
    m.data.take 4 = Abi.selectorOf signature

end StakeGov
