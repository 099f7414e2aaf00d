import Mathlib.Data.List.Basic
import StakeGov.InMemory.SampleBlocks
import StakeGov.Proofs.BlockEnds
import StakeGov.Proofs.CanonicalForms

/-!
# What replaying compares

A producer builds the transaction for a proposal from its account's nonce, the header's gas
limit and the proposal's form. A validating node compares the form and the signing account
(`accepted_payloads_are_built`). Governance transactions have no price and are addressed to
the sink or to the governance contract; under any nonce, gas and value of such a transaction
the proposal is executed alike, but for the hash it is executed under, and the producer's
nonce is counted up from what the account holds.
-/

namespace StakeGov.Engine

open Step (exec)

/-- The unsigned transaction that the producer of a block builds for a proposal at a point of
a run. -/
def builtAt (header : Header) (q : Run) (p : Proposal) : Transaction :=
  proposalTransaction header (q.ledger.nonce header.coinbase) p

/-- At a point of a run, the transaction has the signing account and the payload of the one
that the producer of the block would build for the proposal, and as a governance transaction
its price and one of the two recipients. -/
structure PayloadBuilt (e : Engine) (header : Header) (p : Proposal) (q : Run) (tx : Transaction) :
    Prop where
  sender : e.sender tx e.config.chainId = .ok header.coinbase
  data : tx.data = (builtAt header q p).data
  envelope : isSystemTransaction header.coinbase tx header →
    tx.gasPrice = (builtAt header q p).gasPrice ∧
      (tx.recipient = (builtAt header q p).recipient ∨
        tx.recipient = some SystemContract.governance.address)
  /-- What the producer does there with the transaction it builds. -/
  produced : ∀ signer signed index,
    signer.sign header.coinbase (builtAt header q p) e.config.chainId = .ok signed →
    exec ({ e with authority := some ⟨header.coinbase, signer⟩ }.executeProposal
      (e.context header) p index) q =
        exec (do return (signed, ← perform (e.context header) p index signed.hash 0))
          (counted header.coinbase q)
  /-- What is done with any governance transaction of that account with that payload. -/
  replayed : ∀ (other : Transaction) index, isSystemTransaction header.coinbase other header →
    other.data = tx.data → e.sender other e.config.chainId = .ok header.coinbase →
    exec (e.replayProposal (e.context header) p index other) q =
      exec (perform (e.context header) p index other.hash header.hash) (counted header.coinbase q)

variable {e : Engine} {header : Header} {txs : List Transaction} {r r' : Run}

theorem isSystemTransaction_iff {sender : Address} {tx : Transaction} :
    isSystemTransaction sender tx header ↔
      (tx.recipient = some Address.governanceSink ∨
        tx.recipient = some SystemContract.governance.address) ∧
      sender = header.coinbase ∧ tx.gasPrice = 0 := by
  unfold isSystemTransaction
  cases tx.recipient with
  | none => simp
  | some recipient => simp [and_assoc]

theorem Accepts.payloadBuilt {p : Proposal} {tx : Transaction}
    (h : e.Accepts header.coinbase p tx) (q : Run) : e.PayloadBuilt header p q tx where
  sender := h.sender
  data := (write_of_ofCanonical h.payload).symm
  envelope hsystem := by
    obtain ⟨hrecipient, -, hprice⟩ := isSystemTransaction_iff.mp hsystem
    exact ⟨hprice, hrecipient⟩
  produced _ _ index hsign := exec_executeProposal rfl hsign index
  replayed other index _ hdata hsender := by
    have hother : e.Accepts (e.context header).header.coinbase p other :=
      ⟨hsender, hdata ▸ h.payload⟩
    exact exec_replayProposal hother index

/-- Of every transaction of an accepted block, the signing account and the payload are those
of the transaction that its producer would have built for the same proposal, at the point of
the run where it is replayed; of a governance transaction, so are the price and, but for the
governance contract itself, the recipient. -/
theorem accepted_payloads_are_built (h : exec (e.finalize header txs) r = (.ok (), r')) :
    ∃ next queue q₀, e.FindsQueue header r next queue q₀ ∧ queue.length = txs.length ∧
      ∀ done p tx rest, queue.zip txs = done ++ (p, tx) :: rest →
        ∃ q, exec (done.forM fun (p, tx) => e.replayNext (e.context header) p tx) q₀ = (.ok (), q) ∧
          e.PayloadBuilt header p q tx := by
  obtain ⟨next, queue, q₀, hfinds, hannounced, hlength, -⟩ := exec_finalize_ok.mp h
  rw [exec_finalize hfinds hannounced hlength] at h
  refine ⟨next, queue, q₀, hfinds, hlength, fun done p tx rest hsplit => ?_⟩
  rw [hsplit] at h
  obtain ⟨q, hdone, hrest⟩ := Step.exec_forM_append_ok.mp h
  obtain ⟨q', htx, -⟩ := Step.exec_forM_cons_ok.mp hrest
  exact ⟨q, hdone, (exec_replayNext_ok.mp htx).1.payloadBuilt q⟩

end StakeGov.Engine

-- ---------------------------------------------------------------------------
-- Other envelopes
-- ---------------------------------------------------------------------------

namespace StakeGov.SampleBlock

open Step (exec)

/-- The transaction in an envelope that the producer would not give it, though it counts as a
governance transaction. -/
def disguised : Transaction :=
  { transaction with
    nonce := 9, gas := 7, recipient := some SystemContract.governance.address, value := 6 }

theorem exec_finalize_disguised :
    exec (engine.finalize sealed [disguised, disguised]) start =
      (.ok (), (exec (engine.finalize sealed [disguised, disguised]) start).2) :=
  Step.exec_of_toOption (by decide +kernel)

end StakeGov.SampleBlock

namespace StakeGov.Engine

open Step (exec)

open SampleBlock in
theorem sample_payloads_are_built :
    ∃ p q p' q', engine.PayloadBuilt sealed p q disguised ∧
      engine.PayloadBuilt sealed p' q' disguised ∧
      disguised.gasPrice = (builtAt sealed q p).gasPrice := by
  obtain ⟨next, queue, q₀, -, hlength, hbuilt⟩ :=
    accepted_payloads_are_built exec_finalize_disguised
  obtain ⟨p, p', rfl⟩ := List.length_eq_two.mp hlength
  obtain ⟨q, -, hfirst⟩ := hbuilt [] p disguised [(p', disguised)] rfl
  obtain ⟨q', -, hsecond⟩ := hbuilt [(p, disguised)] p' disguised [] rfl
  exact ⟨p, q, p', q', hfirst, hsecond, (hfirst.envelope (by decide +kernel)).1⟩

open SampleBlock in
/-- The sample block is accepted with a governance transaction, even twice, that its producer
would not have built. -/
theorem other_envelopes_accepted :
    ∃ next q₀ r', engine.FindsQueue sealed start next [proposal, proposal] q₀ ∧
      exec (engine.finalize sealed [disguised, disguised]) start = (.ok (), r') ∧
      isSystemTransaction sealed.coinbase disguised sealed ∧
      disguised.nonce ≠ (builtAt sealed q₀ proposal).nonce ∧
      disguised.gas ≠ (builtAt sealed q₀ proposal).gas ∧
      disguised.recipient ≠ (builtAt sealed q₀ proposal).recipient ∧
      disguised.value ≠ (builtAt sealed q₀ proposal).value := by
  have hrules : exec (engine.blockRules (engine.context sealed)) start =
      (.ok (some [candidate]), _) := Step.exec_of_toOption (by decide +kernel)
  have hqueue : exec (Registry.passedProposals (engine.context sealed))
      (exec (engine.blockRules (engine.context sealed)) start).2 = (.ok [proposal, proposal], _) :=
    Step.exec_of_toOption (by decide +kernel)
  exact ⟨_, _, _, ⟨_, hrules, hqueue⟩, exec_finalize_disguised, by decide +kernel⟩

end StakeGov.Engine
