import StakeGov.Contract.Registry
import StakeGov.Proofs.Runs

/-!
# Laws of contract calls

A message leaves one run, whatever its outcome: the environment's ledger,
committed, with the message and the commit on record (`afterCall`). Every way to
call a contract ends there with the outcome of the message, or does nothing at all
because its arguments cannot be packed (`exec_callMethod`).
-/

namespace StakeGov

def Outcome.answer (o : Outcome) : Except ContractError Bytes :=
  match o.error with
  | none => .ok o.returnData
  | some cause => .error (.ofVm cause o.returnData)

@[simp] theorem Outcome.answer_success (data : Bytes) : (success data).answer = .ok data := rfl

theorem Outcome.answer_ok {o : Outcome} {data : Bytes} :
    o.answer = .ok data ↔ o.error = none ∧ o.returnData = data := by
  unfold answer
  cases o.error <;> simp

def SystemContract.values (c : SystemContract) (name : String) (data : Bytes) :
    Except ContractError (List Abi.Token) := do
  let tokens ← c.unpack name data
  let m ← c.method name
  if tokens.length ≠ m.outputs.length then
    throw (.outputLength name m.outputs.length tokens.length)
  return tokens

theorem ok_bind {ε α β : Type} (a : α) (f : α → Except ε β) : (Except.ok a >>= f) = f a := rfl

namespace BlockContext

def callMessage (sender callee : Address) (data : Bytes) (value : Word) : Message :=
  { sender, callee := some callee, value, data, gas := unlimitedGas, gasPrice := 0 }

def reply (ctx : BlockContext) (m : Message) (l : Ledger) : Outcome :=
  (ctx.vm.call ctx.chain ctx.config ctx.header m l).1

def ledgerAfter (ctx : BlockContext) (m : Message) (l : Ledger) : Ledger :=
  (ctx.vm.call ctx.chain ctx.config ctx.header m l).2.finalise true

def afterCall (ctx : BlockContext) (m : Message) (r : Run) : Run :=
  ({ r with ledger := ctx.ledgerAfter m r.ledger }.record (.called ctx.site ctx.header m)).record
    (.finalised ctx.site true)

variable (ctx : BlockContext) (m : Message) (r : Run)

@[simp] theorem afterCall_ledger : (ctx.afterCall m r).ledger = ctx.ledgerAfter m r.ledger := rfl
@[simp] theorem afterCall_body : (ctx.afterCall m r).body = r.body := rfl
@[simp] theorem afterCall_policies : (ctx.afterCall m r).policies = r.policies := rfl

open Step (exec exec_bind)

theorem exec_transact :
    exec (ctx.transact m : Step ε Outcome) r = (.ok (ctx.reply m r.ledger), ctx.afterCall m r) :=
  rfl

theorem exec_callWithValue (sender callee : Address) (data : Bytes) (value : Word) :
    exec (ctx.callWithValue sender callee data value) r =
      ((ctx.reply (callMessage sender callee data value) r.ledger).answer,
        ctx.afterCall (callMessage sender callee data value) r) := by
  have htransact : exec (ctx.transact (callMessage sender callee data value) :
      Step ContractError Outcome) r = _ := ctx.exec_transact _ r
  refine (Step.exec_bind_of_ok htransact).trans ?_
  unfold Outcome.answer
  cases (ctx.reply (callMessage sender callee data value) r.ledger).error with
  | none => rfl
  | some cause => rfl

variable {r} {sender : Address} {contract : SystemContract} {name : String}
variable {args : List Abi.Token} {value : Word}

theorem exec_callMethod {data : Bytes} (h : contract.pack name args = .ok data) :
    exec (ctx.callMethod sender contract name args value) r =
      ((ctx.reply (callMessage sender contract.address data value) r.ledger).answer >>=
          contract.values name,
        ctx.afterCall (callMessage sender contract.address data value) r) := by
  unfold callMethod SystemContract.values
  rw [h, Step.exec_bind_of_ok (Step.exec_ofExcept _ r), exec_bind, exec_callWithValue]
  cases (ctx.reply (callMessage sender contract.address data value) r.ledger).answer with
  | error e => rfl
  | ok returned =>
    simp only [ok_bind]
    cases contract.unpack name returned with
    | error e => rfl
    | ok tokens =>
      cases contract.method name with
      | error e => rfl
      | ok m =>
        simp only [Step.ofExcept_ok, pure_bind, ok_bind]
        split <;> rfl

theorem exec_callMethod_of_error {e : ContractError} (h : contract.pack name args = .error e) :
    exec (ctx.callMethod sender contract name args value) r = (.error e, r) := by
  unfold callMethod
  rw [h, exec_bind, Step.exec_ofExcept]

end BlockContext

end StakeGov
