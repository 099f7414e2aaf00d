import StakeGov.InMemory.SampleBlocks
import StakeGov.Proofs.CanonicalForms
import StakeGov.Proofs.ProposalQueue

/-!
# No proposal halts a block

Carrying out a proposal always ends with a receipt, whatever it asks for and whatever comes
of it (`perform_carriesOut`). So what stops the end of a block lies outside the proposals:
the block rules, the reading of the queue, the taking of a proposal off it, and for a
producer the signer (`assemble_error`), for a validating node the validators that the header
announces (`finalize_error`).
-/

namespace StakeGov

open Step (exec exec_bind_error)

theorem Proposal.kind_cases (p : Proposal) :
    (p.action = 0 ∧ p.kind = .call) ∨ (p.action = 1 ∧ p.kind = .erase) ∨
      (p.action ≠ 0 ∧ p.action ≠ 1 ∧ p.kind = .unsupported p.action) := by
  unfold kind
  by_cases hcall : p.action = 0
  · exact .inl ⟨hcall, if_pos hcall⟩
  · by_cases herase : p.action = 1
    · exact .inr (.inl ⟨herase, by rw [if_neg hcall, if_pos herase]⟩)
    · exact .inr (.inr ⟨hcall, herase, by rw [if_neg hcall, if_neg herase]⟩)

namespace Engine

-- ---------------------------------------------------------------------------
-- One proposal
-- ---------------------------------------------------------------------------

/-- A proposal was carried out on a ledger: the receipt tells whether that succeeded, and
only a call sent a message, the one that the proposal asks for. -/
def CarriesOut (ctx : BlockContext) (p : Proposal) (l : Ledger) (receipt : Receipt) (q q' : Run) :
    Prop :=
  ∃ m : Message, m.sender = p.sender ∧ m.callee = some p.target ∧ m.value = p.value ∧
    m.data = p.data ∧
    (receipt.successful ↔
      (p.action = 0 ∧ (ctx.reply m l).error = none) ∨ (p.action = 1 ∧ l.contains p.target)) ∧
    q'.events = q.events ++
      if p.action = 0 then [.called ctx.site ctx.header m, .finalised ctx.site true] else []

section
variable (ctx : BlockContext) (p : Proposal) (index : UInt32) (txHash blockHash : Hash) (r : Run)

theorem carriesOut : CarriesOut ctx p (r.ledger.prepare txHash index)
    (receiptFor ctx p index txHash blockHash r) r (carried ctx p index txHash r) := by
  refine ⟨p.message, rfl, rfl, rfl, rfl, ?_⟩
  change (succeeds ctx p (r.ledger.prepare txHash index) ↔ _) ∧ _
  unfold succeeds carried
  rcases p.kind_cases with ⟨haction, hkind⟩ | ⟨haction, hkind⟩ | ⟨hcall, herase, hkind⟩
  · rw [hkind, haction]
    simp [BlockContext.afterCall, Run.record]
  · rw [hkind, haction]
    simp
  · rw [hkind, if_neg hcall, List.append_nil]
    exact ⟨iff_of_false Bool.false_ne_true (by rintro (⟨h, -⟩ | ⟨h, -⟩) <;> contradiction), rfl⟩

theorem perform_carriesOut : ∃ receipt q', exec (perform ctx p index txHash blockHash) r =
    (.ok receipt, q') ∧ CarriesOut ctx p (r.ledger.prepare txHash index) receipt r q' :=
  ⟨_, _, exec_perform ctx p index txHash blockHash r,
    carriesOut ctx p index txHash blockHash r⟩

end

variable {e : Engine} {header : Header} {ctx : BlockContext} {p : Proposal} {tx : Transaction}
variable {account : Address} {blockHash : Hash} {txs : List Transaction} {r r' : Run}
variable {cause : EngineError}

theorem executeProposal_carriesOut {authority : Authority}
    (hauthority : e.authority = some authority)
    (hsign : authority.signer.sign authority.validator
      (proposalTransaction ctx.header (r.ledger.nonce authority.validator) p) e.config.chainId =
        .ok tx) (index : UInt32) :
    ∃ receipt q', exec (e.executeProposal ctx p index) r = (.ok (tx, receipt), q') ∧
      CarriesOut ctx p ((counted authority.validator r).ledger.prepare tx.hash index) receipt
        r q' := by
  obtain ⟨receipt, q', hrun, hcarries⟩ :=
    perform_carriesOut ctx p index tx.hash 0 (counted authority.validator r)
  refine ⟨receipt, q', ?_, hcarries⟩
  rw [exec_executeProposal hauthority hsign, Step.exec_bind_of_ok hrun]
  rfl

theorem replayProposal_carriesOut (h : e.Accepts ctx.header.coinbase p tx) (index : UInt32) :
    ∃ receipt q', exec (e.replayProposal ctx p index tx) r = (.ok receipt, q') ∧
      CarriesOut ctx p ((counted ctx.header.coinbase r).ledger.prepare tx.hash index) receipt
        r q' := by
  rw [exec_replayProposal h]
  exact perform_carriesOut ctx p index tx.hash ctx.header.hash (counted ctx.header.coinbase r)

-- ---------------------------------------------------------------------------
-- What stops the end of a block
-- ---------------------------------------------------------------------------

/-- What stops producer and validating node alike: the block rules fail, or the reading of
the queue, or the taking of a proposal off it after it was executed. -/
inductive Stopped (e : Engine) (header : Header) (r : Run) : EngineError → Run → Prop where
  | rules {cause q} (h : exec (e.blockRules (e.context header)) r = (.error cause, q)) :
    Stopped e header r cause q
  | queue {next q cause q'} (hrules : exec (e.blockRules (e.context header)) r = (.ok next, q))
      (h : exec (Registry.passedProposals (e.context header)) q = (.error cause, q')) :
    Stopped e header r (.contract cause) q'
  | finish {next queue q account blockHash done p tx rest q' cause q''}
      (hfinds : e.FindsQueue header r next queue q)
      (hqueue : queue = done.map Prod.fst ++ p :: rest)
      (hdone : exec (settleAll (e.context header) account blockHash done) q = (.ok (), q'))
      (h : exec (finishProposal (e.context header) p.id)
        (executed (e.context header) account blockHash p tx q') = (.error cause, q'')) :
    Stopped e header r (.contract cause) q''

inductive ProducerStopped (e : Engine) (header : Header) (r : Run) : EngineError → Run → Prop where
  | block {cause q} (h : e.Stopped header r cause q) : ProducerStopped e header r cause q
  | signer {next queue q done p rest q' fault} (hfinds : e.FindsQueue header r next queue q)
      (hqueue : queue = done ++ p :: rest)
      (hdone : exec (done.forM fun p => e.executeNext (e.context header) p) q = (.ok (), q'))
      (h : e.Unsigned header p q' fault) : ProducerStopped e header r (.governance fault) q'

inductive CheckStopped (e : Engine) (header : Header) (r : Run) : EngineError → Run → Prop where
  | block {cause q} (h : e.Stopped header r cause q) : CheckStopped e header r cause q
  | epoch {next q} (hrules : exec (e.blockRules (e.context header)) r = (.ok next, q))
      (h : ¬ Announced header next) :
    CheckStopped e header r (.validation .mismatchingEpochValidators) q

theorem settle_error (h : exec (settle ctx account blockHash p tx) r = (.error cause, r')) :
    ∃ fault, exec (finishProposal ctx p.id) (executed ctx account blockHash p tx r) =
      (.error fault, r') ∧ EngineError.contract fault = cause := by
  rw [exec_settle] at h
  exact Step.exec_mapError_error.mp h

theorem assemble_error (h : exec (e.assemble header) r = (.error cause, r')) :
    e.ProducerStopped header r cause r' := by
  unfold assemble at h
  dsimp only at h
  rcases exec_bind_error.mp h with hrules | ⟨next, q₁, hrules, h⟩
  · exact .block (.rules hrules)
  rcases exec_bind_error.mp h with hread | ⟨queue, q, hread, h⟩
  · obtain ⟨fault, hfault, rfl⟩ := Step.exec_mapError_error.mp hread
    exact .block (.queue hrules hfault)
  have hfinds : e.FindsQueue header r next queue q := ⟨q₁, hrules, Step.exec_mapError_ok.mp hread⟩
  have hrun : exec (queue.forM fun p => e.executeNext (e.context header) p) q =
      (.error cause, r') := by
    rcases exec_bind_error.mp h with hrun | ⟨_, _, -, hlast⟩
    · exact hrun
    · cases hlast
  obtain ⟨done, p, rest, q', rfl, hdone, hp⟩ := Step.exec_forM_error hrun
  rcases e.exec_executeNext_cases (e.context header) p q' with
    ⟨authority, tx, hauthority, -, hnext⟩ | ⟨fault, hunsigned, hnext⟩
  · obtain ⟨account, txs, hlength, haccount, -, hsettle⟩ := exec_executeAll_ok hdone
    obtain rfl := haccount authority hauthority
    obtain ⟨fault, hfinish, rfl⟩ := settle_error (hnext.symm.trans hp)
    refine .block (.finish hfinds (congrArg (· ++ p :: rest) ?_) hsettle hfinish)
    exact (List.map_fst_zip (Nat.le_of_eq hlength.symm)).symm
  · cases hnext.symm.trans hp
    exact .signer hfinds rfl hdone hunsigned

def StandFor (e : Engine) (header : Header) (r : Run) (txs : List Transaction) : Prop :=
  ∀ next queue q, e.FindsQueue header r next queue q →
    queue.length = txs.length ∧ ∀ w ∈ queue.zip txs, e.Accepts header.coinbase w.1 w.2

theorem finalize_error (htxs : e.StandFor header r txs)
    (h : exec (e.finalize header txs) r = (.error cause, r')) :
    e.CheckStopped header r cause r' := by
  rcases exec_bind_error.mp h with hrules | ⟨next, q₁, hrules, -⟩
  · exact .block (.rules hrules)
  by_cases hannounced : Announced header next
  · rw [exec_finalize_of_announced hrules hannounced] at h
    rcases exec_bind_error.mp h with hread | ⟨queue, q, hread, h⟩
    · obtain ⟨fault, hfault, rfl⟩ := Step.exec_mapError_error.mp hread
      exact .block (.queue hrules hfault)
    have hfinds : e.FindsQueue header r next queue q :=
      ⟨q₁, hrules, Step.exec_mapError_ok.mp hread⟩
    obtain ⟨hlength, haccepts⟩ := htxs next queue q hfinds
    rw [if_neg (not_not_intro hlength), exec_replayAll haccepts] at h
    obtain ⟨done, w, rest, q', hsplit, hdone, hw⟩ := Step.exec_forM_error h
    obtain ⟨fault, hfinish, rfl⟩ := settle_error hw
    have hqueue : (queue.zip txs).map Prod.fst = queue := List.map_fst_zip (Nat.le_of_eq hlength)
    rw [hsplit, List.map_append, List.map_cons] at hqueue
    exact .block (.finish hfinds hqueue.symm hdone hfinish)
  · rw [exec_finalize_of_unannounced hrules hannounced] at h
    cases h
    exact .epoch hrules hannounced

-- ---------------------------------------------------------------------------
-- The receipts of a block
-- ---------------------------------------------------------------------------

/-- One receipt was added for each proposal of the queue, in its order, and each proposal was
carried out at its point of the run. -/
def ReceiptsFor (e : Engine) (header : Header) (r r' : Run) : Prop :=
  ∃ next queue q account blockHash txs receipts,
    e.FindsQueue header r next queue q ∧ txs.length = queue.length ∧
    receipts.length = queue.length ∧
    r'.body = ⟨r.body.txs ++ txs, r.body.receipts ++ receipts⟩ ∧
    ∀ done p tx rest, queue.zip txs = done ++ (p, tx) :: rest →
      ∃ q₁ receipt,
        exec (settleAll (e.context header) account blockHash done) q = (.ok (), q₁) ∧
        receipts[done.length]? = some receipt ∧
        CarriesOut (e.context header) p
          ((counted account q₁).ledger.prepare tx.hash q₁.body.nextIndex) receipt q₁
          (executed (e.context header) account blockHash p tx q₁)

theorem Ends.receiptsFor (h : e.Ends header r r') : e.ReceiptsFor header r r' := by
  obtain ⟨next, queue, q, account, blockHash, txs, hfinds, hlength, hsettle⟩ := h.settleAll
  obtain ⟨receipts, hreceipts, hcount⟩ := settleAll_receipts hsettle
  have htxs := settleAll_txs hsettle
  rw [hfinds.body] at hreceipts htxs
  rw [List.map_snd_zip (Nat.le_of_eq hlength)] at htxs
  rw [List.length_zip, hlength, Nat.min_self] at hcount
  refine ⟨next, queue, q, account, blockHash, txs, receipts, hfinds, hlength, hcount, ?_, ?_⟩
  · rw [← htxs, ← hreceipts]
  · intro done p tx rest hsplit
    rw [hsplit] at hsettle
    rw [← hfinds.body] at hreceipts
    obtain ⟨q₁, -, hdone, -, -, hreceipt⟩ := settleAll_at hsettle hreceipts
    exact ⟨q₁, _, hdone, hreceipt, carriesOut (e.context header) p q₁.body.nextIndex tx.hash
      blockHash (counted account q₁)⟩

/-- No proposal stops the end of a block, be it produced or checked: carried out in whatever
state of a run it gives one receipt, and a block that ends has one for each proposal. -/
theorem proposals_never_halt (e : Engine) (header : Header) (r : Run) :
    (∀ cause r', exec (e.assemble header) r = (.error cause, r') →
      e.ProducerStopped header r cause r') ∧
    (∀ txs cause r', e.StandFor header r txs →
      exec (e.finalize header txs) r = (.error cause, r') → e.CheckStopped header r cause r') ∧
    (∀ (ctx : BlockContext) (p : Proposal) (index : UInt32) (q : Run),
      (∀ authority tx, e.authority = some authority →
        authority.signer.sign authority.validator
          (proposalTransaction ctx.header (q.ledger.nonce authority.validator) p)
          e.config.chainId = .ok tx →
        ∃ receipt q', exec (e.executeProposal ctx p index) q = (.ok (tx, receipt), q') ∧
          CarriesOut ctx p ((counted authority.validator q).ledger.prepare tx.hash index)
            receipt q q') ∧
      ∀ tx, e.Accepts ctx.header.coinbase p tx →
        ∃ receipt q', exec (e.replayProposal ctx p index tx) q = (.ok receipt, q') ∧
          CarriesOut ctx p ((counted ctx.header.coinbase q).ledger.prepare tx.hash index)
            receipt q q') ∧
    ∀ r', e.Ends header r r' → e.ReceiptsFor header r r' :=
  ⟨fun _ _ => assemble_error, fun _ _ _ => finalize_error,
    fun _ _ index _ =>
      ⟨fun _ _ hauthority hsign => executeProposal_carriesOut hauthority hsign index,
        fun _ haccepts => replayProposal_carriesOut haccepts index⟩,
    fun _ => Ends.receiptsFor⟩

end Engine

-- ---------------------------------------------------------------------------
-- The sample block
-- ---------------------------------------------------------------------------

namespace SampleBlock

def revertingEngine : Engine :=
  { engine with vm := ⟨fun _ _ _ _ l => (.revert [], l)⟩ }

def unsignedEngine : Engine :=
  { engine with authority := none }

theorem accepts_transaction : engine.Accepts producer proposal transaction where
  sender := congrArg Except.ok (Address.address_word producer)
  payload := Proposal.ofCanonical_write (by decide +kernel)

theorem reverting_accepts_transaction :
    revertingEngine.Accepts producer proposal transaction :=
  ⟨accepts_transaction.sender, accepts_transaction.payload⟩

set_option maxRecDepth 100000 in
theorem standFor_transactions :
    engine.StandFor header start [transaction, transaction] := by
  rintro next queue q ⟨q₁, -, hread⟩
  have hqueue : exec (Registry.passedProposals (engine.context header)) q₁ =
      (.ok [proposal, proposal], (exec (Registry.passedProposals (engine.context header)) q₁).2) :=
    Prod.ext rfl rfl
  obtain rfl : [proposal, proposal] = queue :=
    Except.ok.inj (congrArg Prod.fst (hqueue.symm.trans hread))
  refine ⟨rfl, fun w hw => ?_⟩
  have hw : w ∈ List.replicate 2 (proposal, transaction) := hw
  obtain rfl := List.eq_of_mem_replicate hw
  exact accepts_transaction

end SampleBlock

namespace Engine

open SampleBlock in
set_option maxRecDepth 100000 in
/-- A sample block that is not signed, and one that announces no validators; and a call that
reverts, of which there is a receipt and the record of one message. -/
theorem sample_proposals_never_halt :
    (∃ cause r', exec (unsignedEngine.assemble header) start =
        (.error cause, r') ∧
      unsignedEngine.ProducerStopped header start cause r') ∧
    (∃ cause r', exec (engine.finalize header [transaction, transaction]) start =
        (.error cause, r') ∧ engine.CheckStopped header start cause r') ∧
    (∃ receipt q', exec (revertingEngine.replayProposal (revertingEngine.context header) proposal 0
        transaction) start = (.ok receipt, q') ∧
      receipt.successful = false ∧ q'.events.length = 2) ∧
    ∃ r', engine.ReceiptsFor header start r' := by
  obtain ⟨hproduced, -⟩ := proposals_never_halt unsignedEngine header start
  obtain ⟨-, hchecked, -, hends⟩ := proposals_never_halt engine header start
  obtain ⟨-, -, hcarried, -⟩ := proposals_never_halt revertingEngine header start
  have hunsigned : exec (unsignedEngine.assemble header) start =
      (.error (.governance .signerNotSet),
        (exec (unsignedEngine.assemble header) start).2) := Prod.ext rfl rfl
  have hrules : exec (engine.blockRules (engine.context header)) start =
      (.ok (some [candidate]), _) := Step.exec_of_toOption (by decide +kernel)
  have hunannounced : exec (engine.finalize header [transaction, transaction]) start =
      (.error (.validation .mismatchingEpochValidators),
        (exec (engine.blockRules (engine.context header)) start).2) :=
    exec_finalize_of_unannounced hrules fun h =>
      absurd (h [candidate] rfl) (by decide +kernel)
  have hassembled : exec (engine.assemble header) start =
      (.ok (announce header (some [candidate])), _) := Step.exec_of_toOption (by decide +kernel)
  obtain ⟨-, hreplay⟩ := hcarried (revertingEngine.context header) proposal 0 start
  obtain ⟨receipt, q', hrun, m, -, -, -, -, hsuccessful, hevents⟩ :=
    hreplay transaction reverting_accepts_transaction
  refine ⟨⟨_, _, hunsigned, hproduced _ _ hunsigned⟩,
    ⟨_, _, hunannounced, hchecked _ _ _ standFor_transactions hunannounced⟩,
    ⟨receipt, q', hrun, ?_, ?_⟩, _, hends _ (.produced hassembled)⟩
  · rw [Bool.eq_false_iff, ne_eq, hsuccessful]
    rintro (⟨-, h⟩ | ⟨h, -⟩) <;> cases h
  · rw [hevents]
    rfl

end Engine

end StakeGov
