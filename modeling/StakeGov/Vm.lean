import StakeGov.Abi.Method
import StakeGov.Config
import StakeGov.Error
import StakeGov.Header
import StakeGov.Ledger

/-!
# The execution environment

Messages, what comes of running one, and the environment that runs them. An
environment is a function: the same message in the same block on the same ledger
has the same outcome.
-/

namespace StakeGov

/-- What a transaction asks for, without its signature. -/
structure Message where
  sender : Address
  callee : Option Address
  value : Word
  data : Bytes
  gas : UInt64
  gasPrice : Word
deriving DecidableEq, Repr

structure Outcome where
  /-- What the call returned, or what came with a revert. -/
  returnData : Bytes := []
  gasUsed : UInt64 := 0
  error : Option VmError := none
deriving DecidableEq, Repr

namespace Outcome

def success (data : Bytes) : Outcome := { returnData := data }

def revert (data : Bytes) : Outcome := { returnData := data, error := some .reverted }

end Outcome

structure ChainReader where
  header : Hash → UInt64 → Option Header
  /-- The header at a height of the branch that is in force. -/
  headerByNumber : UInt64 → Option Header

structure Vm where
  call : ChainReader → ChainConfig → Header → Message → Ledger → Outcome × Ledger

/-- A failed call as a contract error; a revert tells its reason if it has one. -/
def ContractError.ofVm (cause : VmError) (returnData : Bytes) : ContractError :=
  match cause with
  | .reverted => .reverted ((Abi.revertReason? returnData).getD "internal error")
  | other => .vm other

end StakeGov
