import StakeGov.Word
import StakeGov.Address

/-!
# Errors

Each error is a cause. A cause has a code that never changes and a message for
people. `EngineError` gathers what an engine operation can fail with; its code is
that of the cause.
-/

namespace StakeGov

inductive VmError where
  | reverted
  | outOfGas
  /-- The caller cannot pay the value of the call. -/
  | insufficientBalance
  | other (text : String)
deriving DecidableEq, Repr

namespace VmError

def code : VmError → String
  | .reverted => "VM_EXECUTION_REVERTED"
  | .outOfGas => "VM_OUT_OF_GAS"
  | .insufficientBalance => "VM_INSUFFICIENT_BALANCE"
  | .other _ => "VM_OTHER"

def message : VmError → String
  | .reverted => "execution reverted"
  | .outOfGas => "out of gas"
  | .insufficientBalance => "insufficient balance for transfer"
  | .other text => text

end VmError

inductive ContractError where
  | pack (method reason : String)
  | unpack (method reason : String)
  | unknownMethod (contract method : String)
  | outputLength (method : String) (expected got : Nat)
  | outputFormat (what : String)
  | reverted (reason : String)
  | vm (cause : VmError)
deriving DecidableEq, Repr

namespace ContractError

def code : ContractError → String
  | .pack .. => "CONTRACT_PACK_FAILED"
  | .unpack .. => "CONTRACT_UNPACK_FAILED"
  | .unknownMethod .. => "CONTRACT_UNKNOWN_METHOD"
  | .outputLength .. => "CONTRACT_UNEXPECTED_OUTPUT_LENGTH"
  | .outputFormat _ => "CONTRACT_INVALID_OUTPUT_FORMAT"
  | .reverted _ => "CONTRACT_REVERTED"
  | .vm _ => "CONTRACT_VM_ERROR"

def message : ContractError → String
  | .pack method reason => s!"Can't pack data for {method}: {reason}"
  | .unpack method reason => s!"Can't unpack result of {method}: {reason}"
  | .unknownMethod contract method => s!"Method {method} not found in the {contract} interface"
  | .outputLength method expected got =>
    s!"invalid result length for {method}. Expected {expected}, got {got}"
  | .outputFormat what => s!"invalid {what} format"
  | .reverted reason => s!"execution reverted: {reason}"
  | .vm cause => cause.message

end ContractError

/-- What makes the block that is being processed invalid. -/
inductive ValidationError where
  | unknownAncestor
  | invalidExtraValidators
  | missingGenesisValidators
  | invalidValidatorsLength (length : Nat)
  | invalidSystemSender (expected got : Address)
  /-- The encodings are given as hexadecimal text. -/
  | proposalDataMismatch (id : Word) (encoded : String) (txHash : Hash) (txData : String)
  | mismatchingSystemTxs (expected got : Nat)
  | mismatchingEpochValidators
  | addressDenied (address : Address)
  | snapshot (reason : String)
  | invalidSignature (reason : String)
deriving DecidableEq, Repr

namespace ValidationError

def code : ValidationError → String
  | .unknownAncestor => "VALIDATION_UNKNOWN_ANCESTOR"
  | .invalidExtraValidators => "VALIDATION_INVALID_EXTRA_VALIDATORS"
  | .missingGenesisValidators => "VALIDATION_MISSING_GENESIS_VALIDATORS"
  | .invalidValidatorsLength _ => "VALIDATION_INVALID_VALIDATORS_LENGTH"
  | .invalidSystemSender .. => "VALIDATION_INVALID_SYS_TX_SENDER"
  | .proposalDataMismatch .. => "VALIDATION_PROPOSAL_DATA_MISMATCH"
  | .mismatchingSystemTxs .. => "VALIDATION_MISMATCHING_SYSTEM_TXS"
  | .mismatchingEpochValidators => "VALIDATION_MISMATCHING_EPOCH_VALIDATORS"
  | .addressDenied _ => "VALIDATION_ADDRESS_DENIED"
  | .snapshot _ => "VALIDATION_SNAPSHOT_UNAVAILABLE"
  | .invalidSignature _ => "VALIDATION_INVALID_SIGNATURE"

def message : ValidationError → String
  | .unknownAncestor => "unknown ancestor"
  | .invalidExtraValidators => "invalid validator list in extra-data"
  | .missingGenesisValidators => "missing genesis validators"
  | .invalidValidatorsLength length => s!"invalid validators length: {length}"
  | .invalidSystemSender expected got =>
    "invalid sender for system governance transaction. Expected " ++ Address.text expected ++
      ", got " ++ Address.text got
  | .proposalDataMismatch id encoded txHash txData =>
    "data mismatch, proposalID: " ++ Word.decimal id ++ ", rlp: " ++ encoded ++
      ", txHash: " ++ Word.hex txHash ++ ", txData: " ++ txData
  | .mismatchingSystemTxs expected got =>
    s!"mismatching system transactions. Expected {expected}, got {got}"
  | .mismatchingEpochValidators => "mismatching validator list on epoch block"
  | .addressDenied address => "address " ++ Address.text address ++ " is denied"
  | .snapshot reason => s!"snapshot unavailable: {reason}"
  | .invalidSignature reason => s!"invalid signature: {reason}"

end ValidationError

/-- A governance transaction could not be produced. -/
inductive GovernanceError where
  | signerNotSet
  | signing (reason : String)
deriving DecidableEq, Repr

namespace GovernanceError

def code : GovernanceError → String
  | .signerNotSet => "GOVERNANCE_SIGNER_NOT_SET"
  | .signing _ => "GOVERNANCE_SIGNING_FAILED"

def message : GovernanceError → String
  | .signerNotSet => "signTxFn not set"
  | .signing reason => s!"failed to sign governance transaction: {reason}"

end GovernanceError

inductive SignerError where
  | signing (reason : String)
  | recovery (reason : String)
deriving DecidableEq, Repr

namespace SignerError

def code : SignerError → String
  | .signing _ => "SIGNER_SIGNING_FAILED"
  | .recovery _ => "SIGNER_RECOVERY_FAILED"

def message : SignerError → String
  | .signing reason => s!"signing failed: {reason}"
  | .recovery reason => s!"sender recovery failed: {reason}"

end SignerError

inductive StateError where
  | unknownRoot (root : Hash)
  | backend (reason : String)
deriving DecidableEq, Repr

namespace StateError

def code : StateError → String
  | .unknownRoot _ => "STATE_UNKNOWN_ROOT"
  | .backend _ => "STATE_BACKEND_ERROR"

def message : StateError → String
  | .unknownRoot root => "missing trie node for state root " ++ Word.hex root
  | .backend reason => s!"State backend error: {reason}"

end StateError

inductive EngineError where
  | contract (cause : ContractError)
  | validation (cause : ValidationError)
  | governance (cause : GovernanceError)
  | state (cause : StateError)
  | signer (cause : SignerError)
deriving DecidableEq, Repr

namespace EngineError

def code : EngineError → String
  | .contract cause => cause.code
  | .validation cause => cause.code
  | .governance cause => cause.code
  | .state cause => cause.code
  | .signer cause => cause.code

def area : EngineError → String
  | .contract _ => "Contract"
  | .validation _ => "Validation"
  | .governance _ => "Governance"
  | .state _ => "State"
  | .signer _ => "Signer"

def causeMessage : EngineError → String
  | .contract cause => cause.message
  | .validation cause => cause.message
  | .governance cause => cause.message
  | .state cause => cause.message
  | .signer cause => cause.message

def message (e : EngineError) : String :=
  e.area ++ " error: " ++ e.causeMessage

end EngineError

end StakeGov
