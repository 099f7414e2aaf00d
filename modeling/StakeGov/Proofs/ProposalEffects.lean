import StakeGov.InMemory.SampleBlocks
import StakeGov.Proofs.BlockFailures
import StakeGov.Proofs.Numerals

/-!
# What one governance transaction changes

A governance transaction is refused before anything is touched, or it goes through
(`proposal_takes_effect`). What it changes then is said field by field: the account that
signed it has sent one transaction more, the transaction is prepared, and on this ledger the
proposal is carried out. A proposal to erase an account removes it whole, be it the one that
signed.
-/

namespace StakeGov

open Step (exec)

-- ---------------------------------------------------------------------------
-- One ledger against another
-- ---------------------------------------------------------------------------

/-- The second ledger is the first with one transaction more of an account, which is
prepared, and without the account that was removed, if any. -/
structure Ledger.Sends (l : Ledger) (account : Address) (hash : Hash) (index : UInt32)
    (removed : Option Address) (l' : Ledger) : Prop where
  gone : ∀ a, removed = some a → l'.accounts a = none
  nonce : removed ≠ some account →
    (l'.nonce account).toNat = min ((l.nonce account).toNat + 1) (2 ^ 64 - 1)
  /-- Balance, code and storage of the account are those from before. -/
  rest : removed ≠ some account →
    l'.account account = { l.account account with nonce := l'.nonce account }
  others : ∀ a, a ≠ account → removed ≠ some a → l'.accounts a = l.accounts a
  logs : l'.logs = l.logs
  finalised : l'.finalised = l.finalised
  txHash : l'.txHash = hash
  txIndex : l'.txIndex = index

namespace Ledger

variable (l : Ledger) (account : Address) (hash : Hash) (index : UInt32)

def sent : Ledger :=
  (l.setNonce account (saturatingSucc (l.nonce account))).prepare hash index

theorem account_sent :
    (l.sent account hash index).account account =
      { l.account account with nonce := saturatingSucc (l.nonce account) } :=
  (account_setAccount _ _ _ _).trans (if_pos rfl)

theorem nonce_sent :
    (l.sent account hash index).nonce account = saturatingSucc (l.nonce account) := by
  rw [Ledger.nonce, account_sent]

theorem sends_sent : l.Sends account hash index none (l.sent account hash index) where
  gone _ h := nomatch h
  nonce _ := by
    rw [nonce_sent]
    exact toNat_saturatingSucc _
  rest _ := by rw [account_sent, nonce_sent]
  others _ hne _ := if_neg hne
  logs := rfl
  finalised := rfl
  txHash := rfl
  txIndex := rfl

variable {l account hash index}

theorem accounts_erase_of_ne (l : Ledger) {a b : Address} (h : some a ≠ some b) :
    (l.erase a).accounts b = l.accounts b :=
  if_neg fun heq => h (congrArg some heq.symm)

theorem Sends.erase {l' : Ledger} (h : l.Sends account hash index none l') (a : Address) :
    l.Sends account hash index (some a) (l'.erase a) := by
  have hkept : some a ≠ some account → (l'.erase a).account account = l'.account account :=
    fun hne => by rw [Ledger.account, accounts_erase_of_ne l' hne, Ledger.account]
  have hnonce : some a ≠ some account → (l'.erase a).nonce account = l'.nonce account :=
    fun hne => by rw [Ledger.nonce, hkept hne, Ledger.nonce]
  constructor
  case gone =>
    rintro _ ⟨⟩
    exact if_pos rfl
  case nonce =>
    intro hne
    rw [hnonce hne]
    exact h.nonce (by simp)
  case rest =>
    intro hne
    rw [hkept hne, hnonce hne]
    exact h.rest (by simp)
  case others =>
    intro b hb hne
    rw [accounts_erase_of_ne l' hne]
    exact h.others b hb (by simp)
  case logs => exact h.logs
  case finalised => exact h.finalised
  case txHash => exact h.txHash
  case txIndex => exact h.txIndex

end Ledger

-- ---------------------------------------------------------------------------
-- Refused or carried out
-- ---------------------------------------------------------------------------

namespace Engine

/-- What a governance transaction of an account does to a run. The proposal is carried out
after the transaction was counted and prepared; only a call sends a message, and nothing but
a call changes more than this. -/
structure TakesEffect (ctx : BlockContext) (p : Proposal) (account : Address) (txHash : Hash)
    (index : UInt32) (r q : Run) : Prop where
  carriedOut : ∃ l, r.ledger.Sends account txHash index none l ∧
    q.ledger = if p.action = 0 then ctx.ledgerAfter p.message l
      else if p.action = 1 then l.erase p.target else l
  ledger : p.action ≠ 0 →
    r.ledger.Sends account txHash index (if p.action = 1 then some p.target else none) q.ledger
  events : q.events = r.events ++
    if p.action = 0 then [.called ctx.site ctx.header p.message, .finalised ctx.site true] else []
  body : q.body = r.body
  policies : q.policies = r.policies

theorem carried_takesEffect (ctx : BlockContext) (p : Proposal) (account : Address)
    (txHash : Hash) (index : UInt32) (r : Run) :
    TakesEffect ctx p account txHash index r (carried ctx p index txHash (counted account r)) := by
  have hsent := r.ledger.sends_sent account txHash index
  unfold carried
  rcases p.kind_cases with ⟨haction, hkind⟩ | ⟨haction, hkind⟩ | ⟨hcall, herase, hkind⟩
  · rw [hkind]
    refine ⟨⟨_, hsent, (if_pos haction).symm⟩, fun h => absurd haction h, ?_, rfl, rfl⟩
    rw [if_pos haction]
    exact List.append_assoc r.events [_] [_]
  · have hcall : p.action ≠ 0 := haction ▸ by decide
    rw [hkind]
    refine ⟨⟨_, hsent, ?_⟩, fun _ => ?_, ?_, rfl, rfl⟩
    · rw [if_neg hcall, if_pos haction]
      rfl
    · rw [if_pos haction]
      exact hsent.erase p.target
    · rw [if_neg hcall]
      exact (List.append_nil _).symm
  · rw [hkind]
    refine ⟨⟨_, hsent, ?_⟩, fun _ => ?_, ?_, rfl, rfl⟩
    · rw [if_neg hcall, if_neg herase]
      rfl
    · rw [if_neg herase]
      exact hsent
    · rw [if_neg hcall]
      exact (List.append_nil _).symm

/-- A proposal that is not signed, or a transaction that is not accepted, leaves everything
as it was; any other takes effect. -/
theorem proposal_takes_effect (e : Engine) (ctx : BlockContext) (p : Proposal) (index : UInt32)
    (r : Run) :
    ((∃ fault, e.Unsigned ctx.header p r fault ∧
        exec (e.executeProposal ctx p index) r = (.error (.governance fault), r)) ∨
      ∃ authority signed receipt q, e.authority = some authority ∧
        authority.signer.sign authority.validator
          (proposalTransaction ctx.header (r.ledger.nonce authority.validator) p)
          e.config.chainId = .ok signed ∧
        exec (e.executeProposal ctx p index) r = (.ok (signed, receipt), q) ∧
        TakesEffect ctx p authority.validator signed.hash index r q) ∧
    ∀ tx,
      (∃ fault, e.Objection ctx.header.coinbase p tx fault ∧
        exec (e.replayProposal ctx p index tx) r = (.error (.validation fault), r)) ∨
      ∃ receipt q, e.Accepts ctx.header.coinbase p tx ∧
        exec (e.replayProposal ctx p index tx) r = (.ok receipt, q) ∧
        TakesEffect ctx p ctx.header.coinbase tx.hash index r q := by
  constructor
  · rcases e.signed_or_unsigned ctx.header p r with ⟨authority, signed, hauthority, hsign⟩ |
      ⟨fault, hunsigned⟩
    · have hrun := exec_executeProposal hauthority hsign index
      rw [Step.exec_bind_of_ok (exec_perform _ _ _ _ _ _)] at hrun
      exact .inr ⟨authority, signed, _, _, hauthority, hsign, hrun,
        carried_takesEffect ctx p authority.validator signed.hash index r⟩
    · exact .inl ⟨fault, hunsigned, exec_executeProposal_of_unsigned hunsigned index⟩
  · intro tx
    rcases e.accepts_or_objection ctx.header.coinbase p tx with haccepts | ⟨fault, hobjection⟩
    · exact .inr ⟨_, _, haccepts,
        (exec_replayProposal haccepts index).trans (exec_perform _ _ _ _ _ _),
        carried_takesEffect ctx p ctx.header.coinbase tx.hash index r⟩
    · exact .inl ⟨fault, hobjection, exec_replayProposal_of_objection hobjection index⟩

-- ---------------------------------------------------------------------------
-- A producer that erases itself
-- ---------------------------------------------------------------------------

open SampleBlock in
/-- The account that signs may be the one that its proposal erases. -/
theorem sample_producer_erased :
    ∃ signed receipt q, exec (engine.executeProposal (engine.context header)
        { proposal with action := 1, target := producer } 3) start = (.ok (signed, receipt), q) ∧
      q.ledger.accounts producer = none ∧ q.ledger.txHash = signed.hash ∧
      q.ledger.txIndex = 3 ∧ q.events = [] := by
  rcases (proposal_takes_effect engine (engine.context header)
    { proposal with action := 1, target := producer } 3 start).1 with ⟨fault, hunsigned, -⟩ |
    ⟨authority, signed, receipt, q, -, -, hrun, heffect⟩
  · cases hunsigned with
    | unset h => cases h
    | refused h hsign =>
      cases h
      cases hsign
  · have hledger := heffect.ledger (by decide)
    exact ⟨signed, receipt, q, hrun, hledger.gone producer rfl, hledger.txHash, hledger.txIndex,
      heffect.events⟩

end Engine

end StakeGov
