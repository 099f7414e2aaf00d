import StakeGov.Proofs.BlockEnds
import StakeGov.Proofs.Invariants

/-!
# What the end of a block keeps

After the block rules the queue is read and its proposals are carried out. What quiet calls,
the messages of due proposals and edits of the ledger keep (`KeptByProposals`) is kept by the
execution and the replay of a proposal. So it holds after a block was produced or checked if
it holds after the block rules (`KeptByProposals.assemble`, `KeptByProposals.finalize`).
-/

namespace StakeGov

open Step (exec Leads Keeps)

/-- The quiet calls, the messages of the proposals that are due, what is edited in the ledger
aside from commits, and what is added to the block keep the property. -/
structure KeptByProposals (P : Run → Prop) (ctx : BlockContext) (due : Proposal → Prop) : Prop
    extends KeptByCalls P ctx where
  proposal : ∀ r p, due p → p.kind = .call → P r → P (ctx.afterCall p.message r)
  edit : ∀ r l, l.finalised = r.ledger.finalised → P r → P { r with ledger := l }
  add : ∀ r body, P r → P { r with body }

namespace KeptByProposals

variable {P : Run → Prop} {ctx : BlockContext} {due : Proposal → Prop} {e : Engine}
variable {p : Proposal} {tx : Transaction} {index : UInt32}

-- ---------------------------------------------------------------------------
-- One proposal
-- ---------------------------------------------------------------------------

section
variable (K : KeptByProposals P ctx due)
include K

theorem perform (hp : due p) (txHash blockHash : Hash) :
    Keeps P (Engine.perform ctx p index txHash blockHash) := by
  intro r h
  rw [Engine.exec_perform]
  change P (Engine.carried ctx p index txHash r)
  unfold Engine.carried
  have hprepared : P { r with ledger := r.ledger.prepare txHash index } := K.edit r _ rfl h
  cases hkind : p.kind with
  | call => exact K.proposal _ p hp hkind hprepared
  | erase => exact K.edit _ _ rfl hprepared
  | unsupported code => exact hprepared

theorem executeProposal (hp : due p) : Keeps P (e.executeProposal ctx p index) := by
  unfold Engine.executeProposal
  cases e.authority with
  | none => exact .throw _
  | some authority =>
    refine Leads.ledger.andThen fun l => ?_
    dsimp only
    cases authority.signer.sign authority.validator _ e.config.chainId with
    | error cause => exact .throw _
    | ok signed =>
      refine Leads.andThen (fun r h => K.edit r _ rfl h) fun _ => ?_
      exact (K.perform hp _ _).andThen fun _ => .pure _

theorem replayProposal (hp : due p) : Keeps P (e.replayProposal ctx p index tx) := by
  have hreplay : ∀ sender : Address, Keeps P (do
      let nonce := (← Step.ledger).nonce sender
      Step.modifyLedger (·.setNonce sender (saturatingSucc nonce))
      Engine.perform ctx p index tx.hash ctx.header.hash) := fun sender =>
    Leads.ledger.andThen fun l => Leads.andThen (fun r h => K.edit r _ rfl h) fun _ =>
      K.perform hp _ _
  unfold Engine.replayProposal
  cases e.sender tx e.config.chainId with
  | error cause => exact .throw _
  | ok sender =>
    refine .ite (.andThen (.throw _) fun _ => ?_) ?_
    all_goals exact .ite (.andThen (.throw _) fun _ => hreplay sender) (hreplay sender)

theorem finishProposal (id : Word) : Keeps P (Engine.finishProposal ctx id) :=
  Leads.andThen (fun r h => K.edit r _ rfl h) fun _ => K.call (.finishProposal id) rfl

theorem addReceipt (tx : Transaction) (receipt : Receipt) : Keeps P (do
    Step.append tx receipt
    Step.mapError .contract (Engine.finishProposal ctx p.id) : Step EngineError Unit) :=
  Leads.andThen (fun r h => K.add r _ h) fun _ => (K.finishProposal p.id).mapError _

theorem executeNext (hp : due p) : Keeps P (e.executeNext ctx p) :=
  Leads.andThen (fun _ h => h) fun _ =>
    (K.executeProposal hp).andThen fun _ => K.addReceipt _ _

theorem replayNext (hp : due p) : Keeps P (e.replayNext ctx p tx) :=
  Leads.andThen (fun _ h => h) fun _ =>
    (K.replayProposal hp).andThen fun _ => K.addReceipt _ _

end

-- ---------------------------------------------------------------------------
-- The whole queue
-- ---------------------------------------------------------------------------

section
variable {header : Header} {r : Run} (K : KeptByProposals P (e.context header) due)
variable (hdue : ∀ next queue q, e.FindsQueue header r next queue q → ∀ p ∈ queue, due p)
variable (hrules : P (exec (e.blockRules (e.context header)) r).2)
include K hdue

theorem readQueue {next : Option (List Address)} {q : Run} (hq : P q)
    (hnext : exec (e.blockRules (e.context header)) r = (.ok next, q))
    {rest : List Proposal → Step EngineError α}
    (hrest : ∀ queue, (∀ p ∈ queue, due p) → Keeps P (rest queue)) :
    P (exec (do
      let proposals ← Step.mapError .contract (Registry.passedProposals (e.context header))
      rest proposals) q).2 := by
  have hread := K.passedProposals q hq
  rw [Step.exec_bind, Step.exec_mapError]
  revert hread
  rcases hqueue : exec (Registry.passedProposals (e.context header)) q with ⟨cause | queue, q'⟩
  · exact id
  · exact hrest queue (hdue next queue q' ⟨q, hnext, hqueue⟩) q'

include hrules

theorem assemble : P (exec (e.assemble header) r).2 := by
  rcases hnext : exec (e.blockRules (e.context header)) r with ⟨cause | next, q⟩
  all_goals rw [hnext] at hrules
  · have hrun : exec (e.assemble header) r = (.error cause, q) := Step.exec_bind_of_error hnext
    rwa [hrun]
  · have hrun : exec (e.assemble header) r = _ := Step.exec_bind_of_ok hnext
    rw [hrun]
    refine K.readQueue hdue hrules hnext fun queue hqueue => ?_
    have hall : Keeps P (queue.forM fun p => e.executeNext (e.context header) p) :=
      Leads.forM fun p hp => K.executeNext (hqueue p hp)
    exact hall.andThen fun _ => .pure _

theorem finalize (txs : List Transaction) : P (exec (e.finalize header txs) r).2 := by
  rcases hnext : exec (e.blockRules (e.context header)) r with ⟨cause | next, q⟩
  all_goals rw [hnext] at hrules
  · have hrun : exec (e.finalize header txs) r = (.error cause, q) :=
      Step.exec_bind_of_error hnext
    rwa [hrun]
  · by_cases hannounced : Engine.Announced header next
    · rw [Engine.exec_finalize_of_announced hnext hannounced]
      refine K.readQueue hdue hrules hnext fun queue hqueue => ?_
      have hall : ∀ w ∈ queue.zip txs, Keeps P (e.replayNext (e.context header) w.1 w.2) :=
        fun w hw => K.replayNext (hqueue w.1 (List.of_mem_zip hw).1)
      exact .ite (.andThen (.throw _) fun _ => .forM hall) (.forM hall)
    · rw [Engine.exec_finalize_of_unannounced hnext hannounced]
      exact hrules

end

end KeptByProposals

end StakeGov
