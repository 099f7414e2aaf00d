import StakeGov.Contract.Registry
import StakeGov.Engine.Basic

/-!
# Governance transactions

The producer of a block turns every passed proposal into a transaction that it
signs and that carries the proposal's canonical form. A validating node executes
the same proposal from its own queue, after checking that the transaction carries
just that proposal and was signed by the producer.
-/

namespace StakeGov.Engine

def isSystemTransaction (sender : Address) (tx : Transaction) (header : Header) : Bool :=
  match tx.recipient with
  | none => false
  | some recipient =>
    (recipient = Address.governanceSink || recipient = SystemContract.governance.address) &&
      sender = header.coinbase && tx.gasPrice = 0

/-- Takes a proposal off the queue, outside of any transaction. -/
def finishProposal (ctx : BlockContext) (id : Word) : Step ContractError Unit := do
  Step.modifyLedger (·.prepare 0 0)
  Registry.finishProposal ctx id

/-- Does what a proposal asks for. The receipt is stamped with the block and the
transaction by `perform`. -/
def carryOut (ctx : BlockContext) (p : Proposal) (txHash blockHash : Hash) :
    Step EngineError Receipt := do
  let cumulativeGasUsed := ctx.header.gasUsed
  match p.kind with
  | .call =>
    let result ← Step.outcome (ctx.callWithValue p.sender p.target p.data p.value)
    let logs := (← Step.ledger).logsOf txHash ctx.header.number blockHash
    let successful := match result with
      | .ok _ => true
      | .error _ => false
    return { successful, cumulativeGasUsed, logs, bloom := .ofLogs logs }
  | .erase =>
    let existed := (← Step.ledger).contains p.target
    Step.modifyLedger (·.erase p.target)
    return { successful := existed, cumulativeGasUsed }
  | .unsupported _ =>
    return { successful := false, cumulativeGasUsed }

/-- Executes a proposal as the transaction of the given hash and place. -/
def perform (ctx : BlockContext) (p : Proposal) (index : UInt32) (txHash blockHash : Hash) :
    Step EngineError Receipt := do
  Step.modifyLedger (·.prepare txHash index)
  let receipt ← carryOut ctx p txHash blockHash
  let transactionIndex := (← Step.ledger).txIndex
  return { receipt with txHash, blockHash, blockNumber := ctx.header.number, transactionIndex }

def proposalTransaction (header : Header) (nonce : UInt64) (p : Proposal) : Transaction where
  nonce := nonce
  gas := header.gasLimit
  recipient := some Address.governanceSink
  data := write p

def executeProposal (e : Engine) (ctx : BlockContext) (p : Proposal) (index : UInt32) :
    Step EngineError (Transaction × Receipt) := do
  match e.authority with
  | none => throw (.governance .signerNotSet)
  | some authority =>
    let nonce := (← Step.ledger).nonce authority.validator
    let tx := proposalTransaction ctx.header nonce p
    match authority.signer.sign authority.validator tx e.config.chainId with
    | .error cause => throw (.governance (.signing cause.message))
    | .ok signed =>
      Step.modifyLedger (·.setNonce authority.validator (saturatingSucc nonce))
      let receipt ← perform ctx p index signed.hash 0
      return (signed, receipt)

/-- Executes a proposal whose transaction another node produced. -/
def replayProposal (e : Engine) (ctx : BlockContext) (p : Proposal) (index : UInt32)
    (tx : Transaction) : Step EngineError Receipt := do
  match e.sender tx e.config.chainId with
  | .error cause => throw (.validation (.invalidSignature cause.message))
  | .ok sender =>
    let coinbase := ctx.header.coinbase
    if sender ≠ coinbase then throw (.validation (.invalidSystemSender coinbase sender))
    if (ofCanonical Proposal tx.data).toOption ≠ some p then
      throw (.validation
        (.proposalDataMismatch p.id (Bytes.hex (write p)) tx.hash (Bytes.hex tx.data)))
    let nonce := (← Step.ledger).nonce sender
    Step.modifyLedger (·.setNonce sender (saturatingSucc nonce))
    perform ctx p index tx.hash ctx.header.hash

end StakeGov.Engine
