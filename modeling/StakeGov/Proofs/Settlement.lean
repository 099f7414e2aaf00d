import StakeGov.Engine.Block
import StakeGov.Proofs.Calls

/-!
# Settling proposals

A producer and a validating node do the same with a proposal once the transaction
that stands for it is fixed: `settle` executes the proposal as that transaction, adds
both to the block and takes the proposal off the queue. A producer settles what it
signed (`exec_executeNext`), a validating node what it accepts (`exec_replayNext`).
-/

namespace StakeGov

open Step (exec exec_bind exec_bind_ok)

def Proposal.message (p : Proposal) : Message :=
  BlockContext.callMessage p.sender p.target p.data p.value

namespace Engine

-- ---------------------------------------------------------------------------
-- What executing a proposal does
-- ---------------------------------------------------------------------------

section
variable (ctx : BlockContext) (p : Proposal) (index : UInt32) (txHash blockHash : Hash) (r : Run)

def carried : Run :=
  let prepared := { r with ledger := r.ledger.prepare txHash index }
  match p.kind with
  | .call => ctx.afterCall p.message prepared
  | .erase => { prepared with ledger := prepared.ledger.erase p.target }
  | .unsupported _ => prepared

def succeeds (l : Ledger) : Bool :=
  match p.kind with
  | .call => (ctx.reply p.message l).error.isNone
  | .erase => l.contains p.target
  | .unsupported _ => false

def logsFor (l : Ledger) : List Log :=
  match p.kind with
  | .call => l.logsOf txHash ctx.header.number blockHash
  | .erase | .unsupported _ => []

def receiptFor : Receipt where
  successful := succeeds ctx p (r.ledger.prepare txHash index)
  cumulativeGasUsed := ctx.header.gasUsed
  logs := logsFor ctx p txHash blockHash (carried ctx p index txHash r).ledger
  bloom := .ofLogs (logsFor ctx p txHash blockHash (carried ctx p index txHash r).ledger)
  txHash := txHash
  blockHash := blockHash
  blockNumber := ctx.header.number
  transactionIndex := (carried ctx p index txHash r).ledger.txIndex

/-- Executing a proposal never fails; its receipt says whether it succeeded. -/
theorem exec_perform :
    exec (perform ctx p index txHash blockHash) r =
      (.ok (receiptFor ctx p index txHash blockHash r), carried ctx p index txHash r) := by
  unfold perform carryOut receiptFor carried succeeds logsFor
  rw [Step.exec_bind_of_ok (Step.exec_modifyLedger _ r)]
  cases p.kind with
  | call =>
    simp only [exec_bind, Step.exec_outcome, BlockContext.exec_callWithValue, Outcome.answer,
      Step.exec_ledger, Step.exec_pure, Proposal.message]
    rcases h : (ctx.reply (BlockContext.callMessage p.sender p.target p.data p.value)
      (r.ledger.prepare txHash index)).error with _ | cause <;> rfl
  | erase => rfl
  | unsupported code => rfl

@[simp] theorem carried_body : (carried ctx p index txHash r).body = r.body := by
  unfold carried
  split <;> rfl

end

-- ---------------------------------------------------------------------------
-- Settling
-- ---------------------------------------------------------------------------

section
variable (ctx : BlockContext) (account : Address) (blockHash : Hash)

/-- The run after a proposal was executed as the next transaction of an account, and
the transaction and its receipt were added to the block. -/
def executed (p : Proposal) (tx : Transaction) (r : Run) : Run :=
  let counted := { r with
    ledger := r.ledger.setNonce account (saturatingSucc (r.ledger.nonce account)) }
  { carried ctx p r.body.nextIndex tx.hash counted with
    body := r.body.add tx (receiptFor ctx p r.body.nextIndex tx.hash blockHash counted) }

def counted (r : Run) : Run :=
  { r with ledger := r.ledger.setNonce account (saturatingSucc (r.ledger.nonce account)) }

def settle (p : Proposal) (tx : Transaction) : Step EngineError Unit := do
  modify (executed ctx account blockHash p tx)
  Step.mapError .contract (finishProposal ctx p.id)

def settleAll (work : List (Proposal × Transaction)) : Step EngineError Unit :=
  work.forM fun (p, tx) => settle ctx account blockHash p tx

theorem exec_settle (p : Proposal) (tx : Transaction) (r : Run) :
    exec (settle ctx account blockHash p tx) r =
      exec (Step.mapError .contract (finishProposal ctx p.id))
        (executed ctx account blockHash p tx r) :=
  Step.exec_bind_of_ok (Step.exec_modify _ r)

end

-- ---------------------------------------------------------------------------
-- The two drivers
-- ---------------------------------------------------------------------------

variable {e : Engine} {ctx : BlockContext} {p : Proposal} {tx : Transaction} {r : Run}

/-- The transaction was signed by the producer of the block and carries the proposal. -/
structure Accepts (e : Engine) (coinbase : Address) (p : Proposal) (tx : Transaction) : Prop where
  sender : e.sender tx e.config.chainId = .ok coinbase
  payload : ofCanonical Proposal tx.data = .ok p

theorem exec_replayProposal (h : e.Accepts ctx.header.coinbase p tx) (index : UInt32) :
    exec (e.replayProposal ctx p index tx) r =
      exec (perform ctx p index tx.hash ctx.header.hash) (counted ctx.header.coinbase r) := by
  unfold replayProposal
  simp only [h.sender, h.payload, Except.toOption, ne_eq, not_true_eq_false, if_false]
  rfl

theorem exec_replayNext (h : e.Accepts ctx.header.coinbase p tx) :
    exec (e.replayNext ctx p tx) r =
      exec (settle ctx ctx.header.coinbase ctx.header.hash p tx) r := by
  rw [exec_settle, replayNext, Step.exec_bind_of_ok (Step.exec_get r),
    Step.exec_bind_of_ok ((exec_replayProposal h _).trans (exec_perform _ _ _ _ _ _)),
    Step.exec_bind_of_ok (Step.exec_append _ _ _), carried_body]
  rfl

/-- Why a transaction does not stand for a proposal, by the first thing that is wrong. -/
inductive Objection (e : Engine) (coinbase : Address) (p : Proposal) (tx : Transaction) :
    ValidationError → Prop where
  | signature {cause} (h : e.sender tx e.config.chainId = .error cause) :
    Objection e coinbase p tx (.invalidSignature cause.message)
  | sender {sender} (h : e.sender tx e.config.chainId = .ok sender) (hne : sender ≠ coinbase) :
    Objection e coinbase p tx (.invalidSystemSender coinbase sender)
  | payload (h : e.sender tx e.config.chainId = .ok coinbase)
      (hne : ofCanonical Proposal tx.data ≠ .ok p) :
    Objection e coinbase p tx
      (.proposalDataMismatch p.id (Bytes.hex (write p)) tx.hash (Bytes.hex tx.data))

theorem exec_replayProposal_of_objection {fault : ValidationError}
    (h : e.Objection ctx.header.coinbase p tx fault) (index : UInt32) :
    exec (e.replayProposal ctx p index tx) r = (.error (.validation fault), r) := by
  unfold replayProposal
  cases h with
  | signature h => simp only [h, Step.exec_throw]
  | sender h hne => simp only [h, ne_eq, hne, not_false_eq_true, if_true, ExceptT.bind_throw,
      Step.exec_throw]
  | payload h hne => simp only [h, ne_eq, Step.toOption_eq_some, hne, not_true_eq_false,
      not_false_eq_true, if_true, if_false, ExceptT.bind_throw, Step.exec_throw]

theorem exec_replayNext_of_objection {fault : ValidationError}
    (h : e.Objection ctx.header.coinbase p tx fault) :
    exec (e.replayNext ctx p tx) r = (.error (.validation fault), r) := by
  rw [replayNext, Step.exec_bind_of_ok (Step.exec_get r),
    Step.exec_bind_of_error (exec_replayProposal_of_objection h r.body.nextIndex)]

theorem accepts_or_objection (e : Engine) (coinbase : Address) (p : Proposal) (tx : Transaction) :
    e.Accepts coinbase p tx ∨ ∃ fault, e.Objection coinbase p tx fault := by
  rcases hsender : e.sender tx e.config.chainId with cause | sender
  · exact .inr ⟨_, .signature hsender⟩
  · by_cases hcoinbase : sender = coinbase
    · subst hcoinbase
      by_cases hpayload : ofCanonical Proposal tx.data = .ok p
      · exact .inl ⟨hsender, hpayload⟩
      · exact .inr ⟨_, .payload hsender hpayload⟩
    · exact .inr ⟨_, .sender hsender hcoinbase⟩

theorem exec_replayNext_ok {r' : Run} :
    exec (e.replayNext ctx p tx) r = (.ok (), r') ↔
      e.Accepts ctx.header.coinbase p tx ∧
        exec (settle ctx ctx.header.coinbase ctx.header.hash p tx) r = (.ok (), r') := by
  rcases e.accepts_or_objection ctx.header.coinbase p tx with h | ⟨fault, h⟩
  · rw [exec_replayNext h]
    exact ⟨fun hrun => ⟨h, hrun⟩, And.right⟩
  · rw [exec_replayNext_of_objection h]
    refine ⟨fun hrun => (nomatch hrun), ?_⟩
    rintro ⟨hok, -⟩
    cases h with
    | signature h => simp [hok.sender] at h
    | sender h hne => simp [hok.sender, hne.symm] at h
    | payload h hne => exact absurd hok.payload hne

theorem exec_executeProposal {validator : Address} {signer : Signer}
    (hauthority : e.authority = some ⟨validator, signer⟩)
    (hsign : signer.sign validator (proposalTransaction ctx.header (r.ledger.nonce validator) p)
      e.config.chainId = .ok tx) (index : UInt32) :
    exec (e.executeProposal ctx p index) r =
      exec (do return (tx, ← perform ctx p index tx.hash 0)) (counted validator r) := by
  unfold executeProposal
  simp only [hauthority]
  rw [Step.exec_bind_of_ok (Step.exec_ledger r)]
  simp only [hsign]
  rfl

theorem exec_executeNext {validator : Address} {signer : Signer}
    (hauthority : e.authority = some ⟨validator, signer⟩)
    (hsign : signer.sign validator (proposalTransaction ctx.header (r.ledger.nonce validator) p)
      e.config.chainId = .ok tx) :
    exec (e.executeNext ctx p) r = exec (settle ctx validator 0 p tx) r := by
  have hexecute := exec_executeProposal hauthority hsign r.body.nextIndex
  rw [exec_bind, exec_perform] at hexecute
  rw [exec_settle, executeNext, Step.exec_bind_of_ok (Step.exec_get r),
    Step.exec_bind_of_ok hexecute, Step.exec_bind_of_ok (Step.exec_append _ _ _), carried_body]
  rfl

/-- Why there is no signed transaction for a proposal. -/
inductive Unsigned (e : Engine) (header : Header) (p : Proposal) (r : Run) :
    GovernanceError → Prop where
  | unset (h : e.authority = none) : Unsigned e header p r .signerNotSet
  | refused {authority cause} (h : e.authority = some authority)
      (hsign : authority.signer.sign authority.validator
        (proposalTransaction header (r.ledger.nonce authority.validator) p) e.config.chainId =
          .error cause) : Unsigned e header p r (.signing cause.message)

theorem signed_or_unsigned (e : Engine) (header : Header) (p : Proposal) (r : Run) :
    (∃ authority tx, e.authority = some authority ∧
      authority.signer.sign authority.validator
        (proposalTransaction header (r.ledger.nonce authority.validator) p)
        e.config.chainId = .ok tx) ∨
    ∃ fault, e.Unsigned header p r fault := by
  rcases hauthority : e.authority with _ | authority
  · exact .inr ⟨_, .unset hauthority⟩
  · rcases hsign : authority.signer.sign authority.validator
      (proposalTransaction header (r.ledger.nonce authority.validator) p)
      e.config.chainId with cause | tx
    · exact .inr ⟨_, .refused hauthority hsign⟩
    · exact .inl ⟨authority, tx, rfl, hsign⟩

theorem exec_executeProposal_of_unsigned {fault : GovernanceError}
    (h : e.Unsigned ctx.header p r fault) (index : UInt32) :
    exec (e.executeProposal ctx p index) r = (.error (.governance fault), r) := by
  unfold executeProposal
  cases h with
  | unset h => simp only [h, Step.exec_throw]
  | refused h hsign =>
    simp only [h]
    rw [Step.exec_bind_of_ok (Step.exec_ledger r)]
    simp only [hsign, Step.exec_throw]

theorem exec_executeNext_of_unsigned {fault : GovernanceError}
    (h : e.Unsigned ctx.header p r fault) :
    exec (e.executeNext ctx p) r = (.error (.governance fault), r) := by
  rw [executeNext, Step.exec_bind_of_ok (Step.exec_get r),
    Step.exec_bind_of_error (exec_executeProposal_of_unsigned h r.body.nextIndex)]

theorem exec_executeNext_cases (e : Engine) (ctx : BlockContext) (p : Proposal) (r : Run) :
    (∃ authority tx, e.authority = some authority ∧
      authority.signer.sign authority.validator
        (proposalTransaction ctx.header (r.ledger.nonce authority.validator) p)
        e.config.chainId = .ok tx ∧
      exec (e.executeNext ctx p) r = exec (settle ctx authority.validator 0 p tx) r) ∨
    ∃ fault, e.Unsigned ctx.header p r fault ∧
      exec (e.executeNext ctx p) r = (.error (.governance fault), r) := by
  rcases e.signed_or_unsigned ctx.header p r with ⟨authority, tx, hauthority, hsign⟩ |
    ⟨fault, hunsigned⟩
  · exact .inl ⟨authority, tx, hauthority, hsign, exec_executeNext hauthority hsign⟩
  · exact .inr ⟨fault, hunsigned, exec_executeNext_of_unsigned hunsigned⟩

theorem exec_executeNext_ok {r' : Run} (h : exec (e.executeNext ctx p) r = (.ok (), r')) :
    ∃ authority tx, e.authority = some authority ∧
      authority.signer.sign authority.validator
        (proposalTransaction ctx.header (r.ledger.nonce authority.validator) p)
        e.config.chainId = .ok tx ∧
      exec (settle ctx authority.validator 0 p tx) r = (.ok (), r') := by
  rcases e.exec_executeNext_cases ctx p r with ⟨authority, tx, hauthority, hsign, hrun⟩ |
    ⟨fault, -, hrun⟩
  · exact ⟨authority, tx, hauthority, hsign, hrun ▸ h⟩
  · cases hrun.symm.trans h

-- ---------------------------------------------------------------------------
-- A queue of proposals
-- ---------------------------------------------------------------------------

section
variable {account : Address} {blockHash : Hash} {r' r'' : Run}

theorem exec_settleAll_cons {work : List (Proposal × Transaction)} :
    exec (settleAll ctx account blockHash ((p, tx) :: work)) r = (.ok (), r'') ↔
      ∃ r', exec (settle ctx account blockHash p tx) r = (.ok (), r') ∧
        exec (settleAll ctx account blockHash work) r' = (.ok (), r'') :=
  Step.exec_forM_cons_ok

theorem exec_replayAll {work : List (Proposal × Transaction)}
    (h : ∀ w ∈ work, e.Accepts ctx.header.coinbase w.1 w.2) :
    exec (work.forM fun (p, tx) => e.replayNext ctx p tx) r =
      exec (settleAll ctx ctx.header.coinbase ctx.header.hash work) r := by
  induction work generalizing r with
  | nil => rfl
  | cons w work ih =>
    have hhead := exec_replayNext (r := r) (h w List.mem_cons_self)
    change exec (e.replayNext ctx w.1 w.2 >>= fun _ => _) r =
      exec (settle _ _ _ w.1 w.2 >>= fun _ => _) r
    rw [exec_bind, exec_bind, hhead]
    split
    · exact ih fun w' hw => h w' (List.mem_cons_of_mem w hw)
    · rfl

theorem exec_replayAll_ok {work : List (Proposal × Transaction)} :
    exec (work.forM fun (p, tx) => e.replayNext ctx p tx) r = (.ok (), r') ↔
      (∀ w ∈ work, e.Accepts ctx.header.coinbase w.1 w.2) ∧
        exec (settleAll ctx ctx.header.coinbase ctx.header.hash work) r = (.ok (), r') := by
  refine ⟨fun h => ?_, fun ⟨haccepts, h⟩ => exec_replayAll haccepts ▸ h⟩
  have haccepts : ∀ w ∈ work, e.Accepts ctx.header.coinbase w.1 w.2 := by
    induction work generalizing r with
    | nil => exact fun _ hw => nomatch hw
    | cons w work ih =>
      obtain ⟨q, hhead, htail⟩ := Step.exec_forM_cons_ok.mp h
      intro w' hw
      rcases List.mem_cons.mp hw with rfl | hw
      · exact (exec_replayNext_ok.mp hhead).1
      · exact ih htail w' hw
  exact ⟨haccepts, exec_replayAll haccepts ▸ h⟩

/-- A producer settles the transactions it signs, one for each proposal. -/
theorem exec_executeAll_ok {proposals : List Proposal}
    (h : exec (proposals.forM fun p => e.executeNext ctx p) r = (.ok (), r')) :
    ∃ account txs, txs.length = proposals.length ∧
      (∀ authority, e.authority = some authority → account = authority.validator) ∧
      (∀ w ∈ proposals.zip txs, ∃ authority nonce, e.authority = some authority ∧
        authority.signer.sign authority.validator (proposalTransaction ctx.header nonce w.1)
          e.config.chainId = .ok w.2) ∧
      exec (settleAll ctx account 0 (proposals.zip txs)) r = (.ok (), r') := by
  induction proposals generalizing r with
  | nil =>
    cases h
    -- with nothing to sign any account will do
    rcases hauthority : e.authority with _ | authority
    · exact ⟨0, [], rfl, by simp, by simp, rfl⟩
    · exact ⟨authority.validator, [], rfl, by simp, by simp, rfl⟩
  | cons p proposals ih =>
    obtain ⟨q, hhead, htail⟩ := Step.exec_forM_cons_ok.mp h
    obtain ⟨authority, tx, hauthority, hsign, hsettle⟩ := exec_executeNext_ok hhead
    obtain ⟨account, txs, hlength, haccount, hsigned, hsettleAll⟩ := ih htail
    obtain rfl : account = authority.validator := haccount authority hauthority
    refine ⟨authority.validator, tx :: txs, congrArg Nat.succ hlength, haccount, ?_,
      exec_settleAll_cons.mpr ⟨q, hsettle, hsettleAll⟩⟩
    intro w hw
    rcases List.mem_cons.mp hw with rfl | hw
    · exact ⟨authority, _, hauthority, hsign⟩
    · exact hsigned w hw

end

end Engine

end StakeGov
