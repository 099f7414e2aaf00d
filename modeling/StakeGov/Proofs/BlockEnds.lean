import StakeGov.Proofs.Lockstep
import StakeGov.Proofs.RotationCalls
import StakeGov.Proofs.Settlement

/-!
# The end of a block in three phases

First the block rules run and the queue of passed proposals is read (`FindsQueue`);
then a validating node looks at what the header announces and at the number of
transactions; then the proposals of the queue are settled one after the other. Only
the last phase adds to the block (`FindsQueue.body`, `settleAll_txs`).
-/

namespace StakeGov.Engine

open Registry (candidatesMessage readCandidates)
open Step (exec exec_bind exec_bind_ok)

variable {e : Engine} {header : Header} {ctx : BlockContext} {r r' : Run}
variable {next : Option (List Address)} {queue : List Proposal} {txs : List Transaction}

/-- The block rules end well with the next validators, and then the queue is read. -/
def FindsQueue (e : Engine) (header : Header) (r : Run) (next : Option (List Address))
    (queue : List Proposal) (r' : Run) : Prop :=
  ∃ q, exec (e.blockRules (e.context header)) r = (.ok next, q) ∧
    exec (Registry.passedProposals (e.context header)) q = (.ok queue, r')

def AtEpochEnd (e : Engine) (number : UInt64) : Prop :=
  e.config.engine.epoch ≠ 0 ∧ number % e.config.engine.epoch = 0

instance : Decidable (e.AtEpochEnd number) :=
  inferInstanceAs (Decidable (_ ∧ _))

/-- The header names the next validators, if there are any to name. -/
def Announced (header : Header) (next : Option (List Address)) : Prop :=
  ∀ list, next = some list → ExtraData.validators header.extra = list

-- ---------------------------------------------------------------------------
-- Producing and checking
-- ---------------------------------------------------------------------------

theorem exec_assemble_ok {header' : Header} :
    exec (e.assemble header) r = (.ok header', r') ↔
      ∃ next queue q, e.FindsQueue header r next queue q ∧
        exec (queue.forM fun p => e.executeNext (e.context header) p) q = (.ok (), r') ∧
        header' = announce header next := by
  unfold assemble
  simp only [exec_bind_ok, Step.exec_mapError_ok, Step.exec_pure, Prod.mk.injEq, Except.ok.injEq]
  constructor
  · rintro ⟨next, q₁, hrules, queue, q₂, hqueue, _, q₃, hrun, rfl, rfl⟩
    exact ⟨next, queue, q₂, ⟨q₁, hrules, hqueue⟩, hrun, rfl⟩
  · rintro ⟨next, queue, q₂, ⟨q₁, hrules, hqueue⟩, hrun, rfl⟩
    exact ⟨next, q₁, hrules, queue, q₂, hqueue, (), r', hrun, rfl, rfl⟩

def replayQueue (e : Engine) (ctx : BlockContext) (txs : List Transaction) :
    Step EngineError Unit := do
  let proposals ← Step.mapError .contract (Registry.passedProposals ctx)
  if proposals.length ≠ txs.length then
    throw (.validation (.mismatchingSystemTxs proposals.length txs.length))
  (proposals.zip txs).forM fun (p, tx) => e.replayNext ctx p tx

section
variable {q : Run} (hrules : exec (e.blockRules (e.context header)) r = (.ok next, q))
include hrules

theorem exec_finalize_of_announced (h : Announced header next) :
    exec (e.finalize header txs) r = exec (e.replayQueue (e.context header) txs) q := by
  refine (Step.exec_bind_of_ok hrules).trans ?_
  cases next with
  | none => rfl
  | some list =>
    dsimp only
    rw [if_neg (not_not_intro (h list rfl))]
    rfl

theorem exec_finalize_of_unannounced (h : ¬ Announced header next) :
    exec (e.finalize header txs) r = (.error (.validation .mismatchingEpochValidators), q) := by
  refine (Step.exec_bind_of_ok hrules).trans ?_
  cases next with
  | none => exact absurd (fun _ hnext => nomatch hnext) h
  | some list =>
    have hlist : ExtraData.validators header.extra ≠ list := by
      intro hlist
      exact h fun _ hnext => Option.some.inj hnext ▸ hlist
    dsimp only
    rw [if_pos hlist]
    rfl

end

theorem exec_finalize {q : Run} (h : e.FindsQueue header r next queue q)
    (hannounced : Announced header next) (hlength : queue.length = txs.length) :
    exec (e.finalize header txs) r =
      exec ((queue.zip txs).forM fun (p, tx) => e.replayNext (e.context header) p tx) q := by
  obtain ⟨q₁, hrules, hqueue⟩ := h
  rw [exec_finalize_of_announced hrules hannounced, replayQueue,
    Step.exec_bind_of_ok (Step.exec_mapError_ok.mpr hqueue), if_neg (not_not_intro hlength)]

theorem exec_replayQueue_ok (h : exec (e.replayQueue ctx txs) r = (.ok (), r')) :
    ∃ queue q, exec (Registry.passedProposals ctx) r = (.ok queue, q) ∧
      queue.length = txs.length ∧
      exec ((queue.zip txs).forM fun (p, tx) => e.replayNext ctx p tx) q = (.ok (), r') := by
  obtain ⟨queue, q, hread, h⟩ := exec_bind_ok.mp h
  dsimp only at h
  by_cases hlength : queue.length = txs.length
  · rw [if_neg (not_not_intro hlength)] at h
    exact ⟨queue, q, Step.exec_mapError_ok.mp hread, hlength, h⟩
  · rw [if_pos hlength] at h
    cases h

/-- A block is accepted just when its header and the number of transactions are as they
should be, every transaction stands for its proposal and all can be settled. -/
theorem exec_finalize_ok :
    exec (e.finalize header txs) r = (.ok (), r') ↔
      ∃ next queue q, e.FindsQueue header r next queue q ∧ Announced header next ∧
        queue.length = txs.length ∧ (∀ w ∈ queue.zip txs, e.Accepts header.coinbase w.1 w.2) ∧
        exec (settleAll (e.context header) header.coinbase header.hash (queue.zip txs)) q =
          (.ok (), r') := by
  constructor
  · intro h
    obtain ⟨next, q₁, hrules, -⟩ := exec_bind_ok.mp h
    by_cases hannounced : Announced header next
    · rw [exec_finalize_of_announced hrules hannounced] at h
      obtain ⟨queue, q, hqueue, hlength, hreplay⟩ := exec_replayQueue_ok h
      obtain ⟨haccepts, hsettle⟩ := exec_replayAll_ok.mp hreplay
      exact ⟨next, queue, q, ⟨q₁, hrules, hqueue⟩, hannounced, hlength, haccepts, hsettle⟩
    · rw [exec_finalize_of_unannounced hrules hannounced] at h
      cases h
  · rintro ⟨next, queue, q, hfinds, hannounced, hlength, haccepts, hsettle⟩
    rw [exec_finalize hfinds hannounced hlength]
    exact exec_replayAll_ok.mpr ⟨haccepts, hsettle⟩

-- ---------------------------------------------------------------------------
-- The next validators
-- ---------------------------------------------------------------------------

theorem exec_blockRules_ok (h : exec (e.blockRules ctx) r = (.ok next, r')) :
    (e.AtEpochEnd ctx.header.number ∧ ∃ list q, next = some list ∧
      exec (e.syncEpoch ctx) q = (.ok list, r')) ∨
    (¬ e.AtEpochEnd ctx.header.number ∧ next = none) := by
  have hrotate : ∀ q, exec (do
        sendReward ctx
        if e.AtEpochEnd ctx.header.number then return some (← e.syncEpoch ctx)
        else return none) q = (.ok next, r') →
      (e.AtEpochEnd ctx.header.number ∧ ∃ list q, next = some list ∧
        exec (e.syncEpoch ctx) q = (.ok list, r')) ∨
      (¬ e.AtEpochEnd ctx.header.number ∧ next = none) := by
    intro q h
    obtain ⟨_, q', -, h⟩ := exec_bind_ok.mp h
    split at h
    · rename_i hepoch
      obtain ⟨list, q'', hsync, h⟩ := exec_bind_ok.mp h
      cases h
      exact .inl ⟨hepoch, list, q', rfl, hsync⟩
    · rename_i hepoch
      cases h
      exact .inr ⟨hepoch, rfl⟩
  unfold blockRules at h
  dsimp only at h
  split at h
  · obtain ⟨_, q₁, -, h⟩ := exec_bind_ok.mp h
    obtain ⟨turn, q₂, -, h⟩ := exec_bind_ok.mp h
    split at h
    · obtain ⟨_, q₃, -, h⟩ := exec_bind_ok.mp h
      exact hrotate q₃ h
    · exact hrotate q₂ h
  · obtain ⟨turn, q₂, -, h⟩ := exec_bind_ok.mp h
    split at h
    · obtain ⟨_, q₃, -, h⟩ := exec_bind_ok.mp h
      exact hrotate q₃ h
    · exact hrotate q₂ h

def ranking (e : Engine) (ctx : BlockContext) : Except EngineError (List Address) :=
  match ctx.chain.header ctx.header.parentHash (saturatingPred ctx.header.number) with
  | none => .error (.validation .unknownAncestor)
  | some parent =>
    match e.ledgerAt parent.root with
    | .error cause => .error (.state cause)
    | .ok ledger =>
      match readCandidates (ctx.reply candidatesMessage ledger) with
      | .error cause => .error (.contract cause)
      | .ok ranked => .ok (sortAddresses ranked)

theorem ranking_ok {list : List Address} :
    e.ranking ctx = .ok list ↔ ∃ parent ledger ranked,
      ctx.chain.header ctx.header.parentHash (saturatingPred ctx.header.number) = some parent ∧
      e.ledgerAt parent.root = .ok ledger ∧
      readCandidates (ctx.reply candidatesMessage ledger) = .ok ranked ∧
      list = sortAddresses ranked := by
  unfold ranking
  cases ctx.chain.header ctx.header.parentHash (saturatingPred ctx.header.number) with
  | none => simp
  | some parent =>
    cases hledger : e.ledgerAt parent.root with
    | error cause => simp [hledger]
    | ok ledger =>
      cases hread : readCandidates (ctx.reply candidatesMessage ledger) with
      | error cause => simp [hledger, hread]
      | ok ranked => simp [hledger, hread, eq_comm]

/-- The answer is the same in every run, of which nothing changes but the record. -/
theorem exec_topValidators (e : Engine) (ctx : BlockContext) :
    ∃ read, ∀ r, exec (e.topValidators ctx) r =
      (e.ranking ctx, { r with events := r.events ++ read }) := by
  unfold topValidators ranking
  dsimp only
  cases ctx.chain.header ctx.header.parentHash (saturatingPred ctx.header.number) with
  | none => exact ⟨[], fun r => by simp⟩
  | some parent =>
    dsimp only
    cases e.ledgerAt parent.root with
    | error cause => exact ⟨[], fun r => by simp⟩
    | ok ledger =>
      refine ⟨[.called .earlier ctx.header candidatesMessage, .finalised .earlier true],
        fun r => ?_⟩
      have hread := Registry.exec_topValidators { ctx with site := .earlier } { r with ledger }
      dsimp only
      rw [exec_bind, Step.exec_mapError, Step.exec_on, hread]
      have hreply : ({ ctx with site := .earlier } : BlockContext).reply candidatesMessage ledger =
        ctx.reply candidatesMessage ledger := rfl
      dsimp only
      rw [hreply]
      cases readCandidates (ctx.reply candidatesMessage ledger) <;>
        simp [Except.mapError, BlockContext.afterCall, Run.record]

theorem ranking_of_syncEpoch {list : List Address}
    (h : exec (e.syncEpoch ctx) r = (.ok list, r')) : e.ranking ctx = .ok list := by
  unfold syncEpoch at h
  dsimp only at h
  cases hcheckpoint : e.checkpoint? ctx with
  | none =>
    rw [hcheckpoint] at h
    cases h
  | some checkpoint =>
    rw [hcheckpoint] at h
    dsimp only at h
    split at h
    · cases h
    · obtain ⟨_, q₁, -, h⟩ := exec_bind_ok.mp h
      obtain ⟨_, q₂, -, htop⟩ := exec_bind_ok.mp h
      obtain ⟨read, hread⟩ := exec_topValidators e ctx
      exact congrArg Prod.fst ((hread q₂).symm.trans htop)

-- ---------------------------------------------------------------------------
-- The body
-- ---------------------------------------------------------------------------

def Alike (B : BlockBody → BlockBody → Prop) (r r' : Run) : Prop :=
  r.ledger = r'.ledger ∧ B r.body r'.body

theorem Alike.lockstep {ctx' : BlockContext} (B : BlockBody → BlockBody → Prop)
    (hheader : ctx.header.unsealed = ctx'.header.unsealed) (hsite : ctx.site = ctx'.site)
    (hcall : ∀ m l, ctx.vm.call ctx.chain ctx.config ctx.header m l =
      ctx'.vm.call ctx'.chain ctx'.config ctx'.header m l) : Lockstep (Alike B) ctx ctx' where
  header := hheader
  site := hsite
  ledger h := h.1
  edit _ h := ⟨rfl, h.2⟩
  called _ _ h := h
  finalised _ h := h
  counted _ h := h
  call := hcall

theorem Alike.self (ctx : BlockContext) (B : BlockBody → BlockBody → Prop) :
    Lockstep (Alike B) ctx ctx :=
  Alike.lockstep B rfl rfl fun _ _ => rfl

def BothAre (b c c' : BlockBody) : Prop :=
  c = b ∧ c' = b

theorem exec_blockRules_body (e : Engine) (header : Header) (r : Run) :
    (exec (e.blockRules (e.context header)) r).2.body = r.body :=
  ((Alike.self (e.context header) (BothAre r.body)).rules.blockRules rfl rfl rfl rfl rfl r r
    ⟨rfl, rfl, rfl⟩).2.2.1

theorem exec_passedProposals_body (ctx : BlockContext) (r : Run) :
    (exec (Registry.passedProposals ctx) r).2.body = r.body :=
  ((Alike.self ctx (BothAre r.body)).passedProposals r r ⟨rfl, rfl, rfl⟩).2.2.1

theorem FindsQueue.body {q : Run} (h : e.FindsQueue header r next queue q) : q.body = r.body := by
  obtain ⟨q₁, hrules, hqueue⟩ := h
  have hbody₁ := e.exec_blockRules_body header r
  have hbody := exec_passedProposals_body (e.context header) q₁
  rw [hrules] at hbody₁
  rw [hqueue] at hbody
  exact hbody.trans hbody₁

theorem exec_finishProposal_body (ctx : BlockContext) (id : Word) (r : Run) :
    (exec (finishProposal ctx id) r).2.body = r.body :=
  ((Alike.self ctx (BothAre r.body)).finishProposal id r r ⟨rfl, rfl, rfl⟩).2.2.1

section
variable {account : Address} {blockHash : Hash} {p : Proposal} {tx : Transaction}
variable {work : List (Proposal × Transaction)}

variable (ctx r account blockHash p tx) in
/-- A proposal is added to the block even if it cannot be taken off the queue. -/
theorem exec_settle_body : (exec (settle ctx account blockHash p tx) r).2.body =
    r.body.add tx (receiptFor ctx p r.body.nextIndex tx.hash blockHash (counted account r)) := by
  rw [exec_settle, Step.exec_mapError]
  exact exec_finishProposal_body ctx p.id (executed ctx account blockHash p tx r)

theorem settled_body (h : exec (settle ctx account blockHash p tx) r = (.ok (), r')) :
    r'.body =
      r.body.add tx (receiptFor ctx p r.body.nextIndex tx.hash blockHash (counted account r)) := by
  rw [← exec_settle_body, h]

theorem settleAll_txs (h : exec (settleAll ctx account blockHash work) r = (.ok (), r')) :
    r'.body.txs = r.body.txs ++ work.map Prod.snd := by
  induction work generalizing r with
  | nil =>
    cases h
    simp
  | cons w work ih =>
    obtain ⟨q, hhead, htail⟩ := exec_settleAll_cons.mp h
    rw [ih htail, settled_body hhead, List.map_cons]
    exact List.append_assoc _ [w.2] _

theorem settleAll_receipts (h : exec (settleAll ctx account blockHash work) r = (.ok (), r')) :
    ∃ receipts, r'.body.receipts = r.body.receipts ++ receipts ∧
      receipts.length = work.length := by
  induction work generalizing r with
  | nil =>
    cases h
    exact ⟨[], (List.append_nil _).symm, rfl⟩
  | cons w work ih =>
    obtain ⟨q, hhead, htail⟩ := exec_settleAll_cons.mp h
    obtain ⟨receipts, hreceipts, hlength⟩ := ih htail
    rw [settled_body hhead] at hreceipts
    exact ⟨_ :: receipts, hreceipts.trans (List.append_assoc _ [_] _), congrArg Nat.succ hlength⟩

theorem settleAll_at {done rest : List (Proposal × Transaction)} {receipts : List Receipt}
    (h : exec (settleAll ctx account blockHash (done ++ (p, tx) :: rest)) r = (.ok (), r'))
    (hreceipts : r'.body.receipts = r.body.receipts ++ receipts) :
    ∃ q q', exec (settleAll ctx account blockHash done) r = (.ok (), q) ∧
      exec (settle ctx account blockHash p tx) q = (.ok (), q') ∧
      exec (settleAll ctx account blockHash rest) q' = (.ok (), r') ∧
      receipts[done.length]? =
        some (receiptFor ctx p q.body.nextIndex tx.hash blockHash (counted account q)) := by
  obtain ⟨q, hdone, hfrom⟩ := Step.exec_forM_append_ok.mp h
  obtain ⟨q', htx, hrest⟩ := exec_settleAll_cons.mp hfrom
  refine ⟨q, q', hdone, htx, hrest, ?_⟩
  obtain ⟨before, hbefore, hlength⟩ := settleAll_receipts hdone
  obtain ⟨after, hafter, -⟩ := settleAll_receipts hrest
  rw [settled_body htx] at hafter
  generalize receiptFor ctx p q.body.nextIndex tx.hash blockHash (counted account q) = receipt
    at hafter ⊢
  have hadd : (q.body.add tx receipt).receipts = q.body.receipts ++ [receipt] := rfl
  have hall : receipts = before ++ receipt :: after := by
    rw [hadd, hbefore, hreceipts, List.append_assoc, List.append_assoc] at hafter
    exact List.append_cancel_left hafter
  rw [hall, ← hlength, List.getElem?_append_right (Nat.le_refl _), Nat.sub_self,
    List.getElem?_cons_zero]

end

-- ---------------------------------------------------------------------------
-- The candidates
-- ---------------------------------------------------------------------------

/-- The candidates on the ledger after the parent of a block, as the validators' contract
lists them. -/
def Candidates (e : Engine) (header : Header) (ranked : List Address) : Prop :=
  ∃ parent ledger,
    e.chain.header header.parentHash (saturatingPred header.number) = some parent ∧
    e.ledgerAt parent.root = .ok ledger ∧
    ∀ r : Run, r.ledger = ledger →
      (exec (Registry.topValidators { e.context header with site := .earlier }) r).1 = .ok ranked

theorem FindsQueue.candidates {q : Run} (h : e.FindsQueue header r next queue q) :
    (e.AtEpochEnd header.number ∧ ∃ ranked, e.Candidates header ranked ∧
      next = some (sortAddresses ranked)) ∨
    (¬ e.AtEpochEnd header.number ∧ next = none) := by
  obtain ⟨q₁, hrules, -⟩ := h
  refine (exec_blockRules_ok hrules).imp ?_ id
  rintro ⟨hepoch, list, q₂, rfl, hsync⟩
  obtain ⟨parent, ledger, ranked, hparent, hledger, hread, rfl⟩ :=
    ranking_ok.mp (ranking_of_syncEpoch hsync)
  refine ⟨hepoch, ranked, ⟨parent, ledger, hparent, hledger, fun r' hr => ?_⟩, rfl⟩
  rw [Registry.exec_topValidators, hr]
  exact hread

end StakeGov.Engine
