import Mathlib.Data.Option.Basic
import StakeGov.InMemory.SampleBlocks
import StakeGov.Proofs.BlockEnds
import StakeGov.Proofs.CanonicalForms
import StakeGov.Proofs.ExtraData

/-!
# A produced block is accepted

What a producer makes of the end of a block, a validating node makes of the sealed
block and the transactions that were added to it: the same ledger, the same
transactions and the same receipts, but for the hash of the block, which the producer
cannot know yet (`produced_block_is_accepted`).
-/

namespace StakeGov

open Step (exec Agree)

def Receipt.inBlock (receipt : Receipt) (blockHash : Hash) : Receipt :=
  { receipt with blockHash, logs := receipt.logs.map fun log => { log with blockHash } }

/-- The environment does not look at what a state root and a seal put into a header. -/
def Vm.IgnoresSeal (vm : Vm) : Prop :=
  ∀ chain config (h h' : Header) m l, h.unsealed = h'.unsealed →
    vm.call chain config h m l = vm.call chain config h' m l

/-- Signing as the account only sets the signature, from which the account is
recovered. -/
structure Signer.SignsFor (signer : Signer) (account : Address)
    (recover : Transaction → UInt64 → Except SignerError Address) : Prop where
  sets : ∀ {tx signed chainId}, signer.sign account tx chainId = .ok signed →
    ∃ sig, signed = { tx with signature := some sig }
  recovered : ∀ {tx signed chainId}, signer.sign account tx chainId = .ok signed →
    recover signed chainId = .ok account

theorem PlainSigning.signsFor (account : Address) :
    PlainSigning.signer.SignsFor account PlainSigning.sender where
  sets h := ⟨_, (Except.ok.inj h).symm⟩
  recovered h := by
    cases h
    exact congrArg Except.ok (Address.address_word account)

theorem Bloom.ofLogs_inBlock (logs : List Log) (blockHash : Hash) :
    ofLogs (logs.map fun log => { log with blockHash }) = ofLogs logs := by
  rw [ofLogs, ofLogs, List.foldl_map]
  rfl

theorem Ledger.logsOf_inBlock (l : Ledger) (txHash : Hash) (number : UInt64)
    (blockHash blockHash' : Hash) :
    (l.logsOf txHash number blockHash).map (fun log => { log with blockHash := blockHash' }) =
      l.logsOf txHash number blockHash' := by
  rw [logsOf, List.map_map]
  rfl

namespace Engine

/-- The engines differ at most in whom they may sign for and how they recover a sender. -/
structure SameNode (e e' : Engine) : Prop where
  config : e.config = e'.config
  vm : e.vm = e'.vm
  chain : e.chain = e'.chain
  ledgerAt : e.ledgerAt = e'.ledgerAt
  snapshot : e.snapshot = e'.snapshot

variable {e e' : Engine} {header header' : Header}

theorem announce_unsealed (header : Header) (next : Option (List Address)) :
    (announce header next).unsealed = header.unsealed := by
  cases next <;> rfl

theorem SameNode.lockstep (hnode : e.SameNode e') (hvm : e.vm.IgnoresSeal)
    (hheader : header.unsealed = header'.unsealed) (B : BlockBody → BlockBody → Prop) :
    Lockstep (Alike B) (e.context header) (e'.context header') := by
  refine Alike.lockstep B hheader rfl fun m l => ?_
  change e.vm.call e.chain e.config header m l = e'.vm.call e'.chain e'.config header' m l
  rw [← hnode.vm, ← hnode.chain, ← hnode.config]
  exact hvm _ _ _ _ m l hheader

theorem SameNode.findsQueue (hnode : e.SameNode e') (hvm : e.vm.IgnoresSeal)
    (hheader : header.unsealed = header'.unsealed) {r s q : Run} {next : Option (List Address)}
    {queue : List Proposal} (hledger : s.ledger = r.ledger) (hbody : s.body = r.body)
    (h : e.FindsQueue header r next queue q) :
    ∃ q', e'.FindsQueue header' s next queue q' ∧ Alike (BothAre r.body) q q' := by
  obtain ⟨r₁, hrules, hqueue⟩ := h
  have L := hnode.lockstep hvm hheader (BothAre r.body)
  have hparent : (e.context header).chain = (e'.context header').chain := hnode.chain
  have hcheckpoint : e.checkpoint? (e.context header) = e'.checkpoint? (e'.context header') := by
    simp only [checkpoint?, hnode.config, hparent, L.number]
  have hagree := L.rules.blockRules hnode.config hnode.snapshot hnode.ledgerAt (by rw [hparent])
    hcheckpoint
  obtain ⟨s₁, hrules', halike⟩ := hagree.ok ⟨hledger.symm, rfl, hbody⟩ hrules
  obtain ⟨q', hqueue', halike⟩ := L.passedProposals.ok halike hqueue
  exact ⟨q', ⟨s₁, hrules', hqueue'⟩, halike⟩

-- ---------------------------------------------------------------------------
-- Settling as a producer and as a validating node
-- ---------------------------------------------------------------------------

section
variable {B : BlockBody → BlockBody → Prop} {ctx ctx' : BlockContext}
variable (L : Lockstep (Alike B) ctx ctx') (p : Proposal) (index : UInt32) (txHash blockHash : Hash)
include L

theorem carried_alike {r r' : Run} (h : Alike B r r') :
    Alike B (carried ctx p index txHash r) (carried ctx' p index txHash r') := by
  have hprepared : Alike B { r with ledger := r.ledger.prepare txHash index }
      { r' with ledger := r'.ledger.prepare txHash index } :=
    ⟨congrArg (Ledger.prepare · txHash index) h.1, h.2⟩
  unfold carried
  split
  · exact L.afterCall _ hprepared
  · exact ⟨congrArg (Ledger.erase · p.target) hprepared.1, h.2⟩
  · exact hprepared

theorem receiptFor_inBlock {r r' : Run} (h : Alike B r r') :
    receiptFor ctx' p index txHash blockHash r' =
      (receiptFor ctx p index txHash 0 r).inBlock blockHash := by
  have hcarried := (carried_alike L p index txHash h).1
  have hsucceeds : succeeds ctx' p (r'.ledger.prepare txHash index) =
      succeeds ctx p (r.ledger.prepare txHash index) := by
    have hreply : ctx.reply p.message (r.ledger.prepare txHash index) =
        ctx'.reply p.message (r'.ledger.prepare txHash index) := by
      rw [BlockContext.reply, BlockContext.reply, L.call, h.1]
    unfold succeeds
    rw [hreply, h.1]
  have hlogs : logsFor ctx' p txHash blockHash (carried ctx' p index txHash r').ledger =
      (logsFor ctx p txHash 0 (carried ctx p index txHash r).ledger).map
        fun log => { log with blockHash } := by
    unfold logsFor
    split
    · rw [Ledger.logsOf_inBlock, hcarried, L.number]
    · rfl
    · rfl
  rw [receiptFor, receiptFor, Receipt.inBlock, hlogs, Bloom.ofLogs_inBlock, hsucceeds, hcarried,
    L.gasUsed, L.number]

end

/-- The bodies are the given one with the same transactions and receipts added; the
receipts of the first do not know their block, those of the second do. -/
def Stamped (b : BlockBody) (blockHash : Hash) (c c' : BlockBody) : Prop :=
  ∃ txs receipts, c = ⟨b.txs ++ txs, b.receipts ++ receipts⟩ ∧
    c' = ⟨b.txs ++ txs, b.receipts ++ receipts.map (·.inBlock blockHash)⟩ ∧
    receipts.map (·.inBlock 0) = receipts

theorem Stamped.nextIndex {b c c' : BlockBody} {blockHash : Hash} (h : Stamped b blockHash c c') :
    c.nextIndex = c'.nextIndex := by
  obtain ⟨txs, receipts, rfl, rfl, -⟩ := h
  rfl

theorem Stamped.add {b c c' : BlockBody} {blockHash : Hash} (h : Stamped b blockHash c c')
    (tx : Transaction) {receipt : Receipt} (hreceipt : receipt.inBlock 0 = receipt) :
    Stamped b blockHash (c.add tx receipt) (c'.add tx (receipt.inBlock blockHash)) := by
  obtain ⟨txs, receipts, rfl, rfl, hreceipts⟩ := h
  refine ⟨txs ++ [tx], receipts ++ [receipt], ?_, ?_, ?_⟩
  · simp only [BlockBody.add, List.append_assoc]
  · simp only [BlockBody.add, List.append_assoc, List.map_append, List.map_cons, List.map_nil]
  · rw [List.map_append, hreceipts, List.map_cons, List.map_nil, hreceipt]

section
variable {b : BlockBody} {blockHash : Hash} {ctx ctx' : BlockContext}
variable (L : Lockstep (Alike (Stamped b blockHash)) ctx ctx') (account : Address)
include L

theorem settle_agree (p : Proposal) (tx : Transaction) :
    Agree (Alike (Stamped b blockHash)) (settle ctx account 0 p tx)
      (settle ctx' account blockHash p tx) := by
  refine Agree.bind (s := modify _) (t := modify _) ?_ fun _ => .mapError _ (L.finishProposal _)
  intro r r' h
  refine ⟨rfl, ?_⟩
  change Alike _ (executed ctx account 0 p tx r) (executed ctx' account blockHash p tx r')
  have hcounted : Alike (Stamped b blockHash)
      { r with ledger := r.ledger.setNonce account (saturatingSucc (r.ledger.nonce account)) }
      { r' with ledger := r'.ledger.setNonce account (saturatingSucc (r'.ledger.nonce account)) } :=
    ⟨by rw [h.1], h.2⟩
  have hindex : r'.body.nextIndex = r.body.nextIndex := h.2.nextIndex.symm
  unfold executed
  simp only [hindex]
  refine ⟨(carried_alike L p r.body.nextIndex tx.hash hcounted).1, ?_⟩
  simp only [receiptFor_inBlock L p r.body.nextIndex tx.hash blockHash hcounted]
  refine h.2.add tx ?_
  exact (receiptFor_inBlock (Alike.self ctx _) p _ tx.hash 0 (r := _) (B := fun _ _ => True)
    ⟨rfl, trivial⟩).symm

theorem settleAll_agree (work : List (Proposal × Transaction)) :
    Agree (Alike (Stamped b blockHash)) (settleAll ctx account 0 work)
      (settleAll ctx' account blockHash work) := by
  induction work with
  | nil => exact .refl_pure _
  | cons w work ih => exact (settle_agree L account w.1 w.2).bind fun _ => ih

end

-- ---------------------------------------------------------------------------
-- Agreement
-- ---------------------------------------------------------------------------

theorem accepts_of_signed {signer : Signer} {coinbase : Address}
    (hsigner : signer.SignsFor coinbase e'.sender) {header : Header} {nonce : UInt64}
    {p : Proposal} {tx : Transaction} (hshort : (write p).length < 2 ^ 64)
    (hsign : signer.sign coinbase (proposalTransaction header nonce p) e'.config.chainId =
      .ok tx) : e'.Accepts coinbase p tx := by
  obtain ⟨sig, rfl⟩ := hsigner.sets hsign
  exact ⟨hsigner.recovered hsign, Proposal.ofCanonical_write hshort⟩

theorem announced_of_produced {sealed : Header} {r q : Run} {next : Option (List Address)}
    {queue : List Proposal} (hfinds : e.FindsQueue header r next queue q)
    (hextra : e.AtEpochEnd header.number →
      ExtraData.validators sealed.extra = ExtraData.validators (announce header next).extra) :
    Announced sealed next := by
  rintro list rfl
  rcases hfinds.candidates with ⟨hepoch, -⟩ | ⟨-, hnone⟩
  · rw [hextra hepoch]
    exact ExtraData.validators_encode _ list
  · cases hnone

/-- A validating node accepts what a producer makes of the end of a block, whatever
vanity, seal and state root the header is given afterwards. -/
theorem produced_block_is_accepted {produced sealed : Header} {signer : Signer} {r r' s : Run}
    (hnode : e.SameNode e') (hvm : e.vm.IgnoresSeal)
    (hauthority : e.authority = some ⟨header.coinbase, signer⟩)
    (hsigner : signer.SignsFor header.coinbase e'.sender)
    (hshort : ∀ next queue q, e.FindsQueue header r next queue q →
      ∀ p ∈ queue, (write p).length < 2 ^ 64)
    (hproduced : exec (e.assemble header) r = (.ok produced, r'))
    (hsealed : sealed.unsealed = produced.unsealed)
    (hextra : e.AtEpochEnd header.number →
      ExtraData.validators sealed.extra = ExtraData.validators produced.extra)
    (hledger : s.ledger = r.ledger) (hbody : s.body = r.body) :
    ∃ txs receipts s',
      r'.body = ⟨r.body.txs ++ txs, r.body.receipts ++ receipts⟩ ∧
      receipts.map (·.inBlock 0) = receipts ∧
      exec (e'.finalize sealed txs) s = (.ok (), s') ∧
      s'.ledger = r'.ledger ∧
      s'.body = ⟨r.body.txs ++ txs, r.body.receipts ++ receipts.map (·.inBlock sealed.hash)⟩ := by
  obtain ⟨next, queue, q, hfinds, hexecute, rfl⟩ := exec_assemble_ok.mp hproduced
  have hheader : header.unsealed = sealed.unsealed := by rw [hsealed, announce_unsealed]
  have hcoinbase : sealed.coinbase = header.coinbase := (congrArg Header.coinbase hheader.symm :)
  -- both find the same queue and the producer signs a transaction for each proposal
  obtain ⟨q', hfinds', hq⟩ := hnode.findsQueue hvm hheader hledger hbody hfinds
  obtain ⟨account, txs, hlength, haccount, hsigned, hsettle⟩ := exec_executeAll_ok hexecute
  obtain rfl : account = header.coinbase := haccount _ hauthority
  have haccepts : ∀ w ∈ queue.zip txs, e'.Accepts header.coinbase w.1 w.2 := by
    intro w hw
    obtain ⟨authority, nonce, hsome, hsign⟩ := hsigned w hw
    obtain rfl : authority = ⟨header.coinbase, signer⟩ :=
      Option.some.inj (hsome.symm.trans hauthority)
    rw [hnode.config] at hsign
    exact accepts_of_signed hsigner
      (hshort next queue q hfinds w.1 (List.of_mem_zip hw).1) hsign
  -- from there they settle the same work
  have L := hnode.lockstep hvm hheader (Stamped r.body sealed.hash)
  have hstart : Alike (Stamped r.body sealed.hash) q q' := by
    refine ⟨hq.1, [], [], ?_, ?_, rfl⟩
    · rw [hq.2.1, List.append_nil, List.append_nil]
    · rw [hq.2.2, List.map_nil, List.append_nil, List.append_nil]
  obtain ⟨s', hsettle', hend⟩ :=
    (settleAll_agree L header.coinbase (queue.zip txs)).ok hstart hsettle
  obtain ⟨txs', receipts, hproducer, hvalidator, hunstamped⟩ := hend.2
  obtain rfl : txs' = txs := by
    have htxs := settleAll_txs hsettle
    rw [hfinds.body, List.map_snd_zip (Nat.le_of_eq hlength), hproducer] at htxs
    exact List.append_cancel_left htxs
  refine ⟨txs', receipts, s', hproducer, hunstamped, ?_, hend.1.symm, hvalidator⟩
  rw [exec_finalize_ok, hcoinbase]
  refine ⟨next, queue, q', hfinds', announced_of_produced hfinds hextra, hlength.symm, haccepts,
    hsettle'⟩

open SampleBlock in
set_option maxRecDepth 100000 in
/-- The produced sample block is accepted with another state root, vanity and seal. -/
theorem sample_block_is_accepted :
    ∃ produced r' txs receipts s',
      exec (engine.assemble SampleBlock.header) start = (.ok produced, r') ∧
      r'.body = ⟨txs, receipts⟩ ∧
      exec (engine.finalize sealed txs) start = (.ok (), s') ∧
      s'.ledger = r'.ledger ∧
      s'.body = ⟨txs, receipts.map (·.inBlock sealed.hash)⟩ := by
  have hnode : engine.SameNode engine := ⟨rfl, rfl, rfl, rfl, rfl⟩
  have hvm : engine.vm.IgnoresSeal := fun _ _ _ _ _ _ _ => rfl
  have hqueue : ∀ q, (exec (Registry.passedProposals (engine.context SampleBlock.header)) q).1 =
      .ok [proposal, proposal] := fun _ => rfl
  have hshort : ∀ next queue q, engine.FindsQueue SampleBlock.header start next queue q →
      ∀ p ∈ queue, (write p).length < 2 ^ 64 := by
    rintro next queue q ⟨q₁, -, hread⟩ p hp
    obtain rfl : queue = [proposal, proposal] :=
      Except.ok.inj ((congrArg Prod.fst hread).symm.trans (hqueue q₁))
    obtain rfl : p = proposal := by simpa using hp
    decide +kernel
  have hproduced : exec (engine.assemble SampleBlock.header) start =
      (.ok (announce SampleBlock.header (some [candidate])),
        (exec (engine.assemble SampleBlock.header) start).2) :=
    Step.exec_of_toOption (by decide +kernel)
  have hextra : ExtraData.validators sealed.extra =
      ExtraData.validators (announce SampleBlock.header (some [candidate])).extra := by
    decide +kernel
  obtain ⟨txs, receipts, s', hbody, -, hrun, hledger, hstamped⟩ :=
    produced_block_is_accepted hnode hvm rfl (PlainSigning.signsFor _) hshort hproduced
      (show sealed.unsealed = _ from rfl) (fun _ => hextra) (show start.ledger = _ from rfl) rfl
  exact ⟨_, _, txs, receipts, s', hproduced, hbody, hrun, hledger, hstamped⟩

end Engine

end StakeGov
