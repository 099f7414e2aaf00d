import Mathlib.Data.List.Forall2
import StakeGov.InMemory.SampleBlocks
import StakeGov.Proofs.BlockEnds
import StakeGov.Proofs.ExtraData

/-!
# Transactions and receipts stay in step

However the end of a block is left, as many receipts were added as transactions, each for the
transaction at its place (`outputs_stay_in_step`). Everything but a proposal leaves the block
as it is; a proposal adds one transaction with its receipt or, if it is refused, nothing
(`AddsOne`), and a loop over proposals carries this to whatever entry it stops at
(`forM_inStep`).
-/

namespace StakeGov

open Step (exec exec_bind)

/-- The environment leaves it to its caller to say at which place a transaction stands. -/
def Vm.KeepsPlace (vm : Vm) : Prop :=
  ∀ chain config header m l, (vm.call chain config header m l).2.txIndex = l.txIndex

-- ---------------------------------------------------------------------------
-- Transactions with their receipts
-- ---------------------------------------------------------------------------

structure Receipt.Stamped (receipt : Receipt) (number : UInt64) (place : Nat) (tx : Transaction) :
    Prop where
  txHash : receipt.txHash = tx.hash
  blockNumber : receipt.blockNumber = number
  transactionIndex : receipt.transactionIndex.toNat = min place (2 ^ 32 - 1)

/-- Some transactions and as many receipts were added to the block, each receipt for the
transaction at its place. -/
structure BlockBody.InStep (number : UInt64) (b b' : BlockBody) (txs : List Transaction)
    (receipts : List Receipt) : Prop where
  addsTxs : b'.txs = b.txs ++ txs
  addsReceipts : b'.receipts = b.receipts ++ receipts
  length : receipts.length = txs.length
  stamped : ∀ (j : Nat) (tx : Transaction) (receipt : Receipt), txs[j]? = some tx →
    receipts[j]? = some receipt → receipt.Stamped number (b.txs.length + j) tx

namespace BlockBody

variable {number : UInt64} {b b' : BlockBody}

theorem InStep.none (h : b' = b) : InStep number b b' [] [] := by
  subst h
  exact ⟨(List.append_nil _).symm, (List.append_nil _).symm, rfl, fun _ _ _ h => nomatch h⟩

theorem InStep.cons {tx : Transaction} {receipt : Receipt} {txs : List Transaction}
    {receipts : List Receipt} (hfirst : receipt.Stamped number b.txs.length tx)
    (hrest : InStep number (b.add tx receipt) b' txs receipts) :
    InStep number b b' (tx :: txs) (receipt :: receipts) where
  addsTxs := by rw [hrest.addsTxs, add, List.append_assoc, List.singleton_append]
  addsReceipts := by rw [hrest.addsReceipts, add, List.append_assoc, List.singleton_append]
  length := congrArg Nat.succ hrest.length
  stamped := by
    intro j t receipt' htx hreceipt
    cases j with
    | zero =>
      cases htx
      cases hreceipt
      exact hfirst
    | succ j =>
      have hplace := hrest.stamped j t receipt' htx hreceipt
      rw [add, List.length_append, List.length_singleton, Nat.add_assoc, Nat.add_comm 1] at hplace
      exact hplace

end BlockBody

namespace Engine

open BlockBody (InStep)

/-- A step either fails and leaves the block as it is, or adds one transaction with its
receipt, whether it fails after that or not. -/
inductive AddsOne (number : UInt64) (fits : Transaction → Prop) (r : Run) :
    Except EngineError Unit × Run → Prop
  | refused {fault : EngineError} {q : Run} (h : q.body = r.body) :
      AddsOne number fits r (.error fault, q)
  | added {x : Except EngineError Unit} {q : Run} {tx : Transaction} {receipt : Receipt}
      (htx : fits tx) (h : q.body = r.body.add tx receipt)
      (hstamped : receipt.Stamped number r.body.txs.length tx) : AddsOne number fits r (x, q)

theorem AddsOne.weaken {number : UInt64} {fits fits' : Transaction → Prop} {r : Run}
    {result : Except EngineError Unit × Run} (h : AddsOne number fits r result)
    (hfits : ∀ tx, fits tx → fits' tx) : AddsOne number fits' r result := by
  cases h with
  | refused hbody => exact .refused hbody
  | added htx hbody hstamped => exact .added (hfits _ htx) hbody hstamped

/-- A loop of such steps keeps in step up to the entry at which it stops, be it the end. -/
theorem forM_inStep {α : Type} {number : UInt64} {f : α → Step EngineError Unit}
    {fits : α → Transaction → Prop} (h : ∀ a r, AddsOne number (fits a) r (exec (f a) r))
    (work : List α) (r : Run) :
    ∃ txs receipts, InStep number r.body (exec (work.forM f) r).2.body txs receipts ∧
      List.Forall₂ fits (work.take txs.length) txs ∧
      ((exec (work.forM f) r).1 = .ok () → txs.length = work.length) := by
  induction work generalizing r with
  | nil => exact ⟨[], [], .none rfl, .nil, fun _ => rfl⟩
  | cons a work ih =>
    have hfirst := h a r
    have hloop : exec ((a :: work).forM f) r = exec (f a >>= fun _ => work.forM f) r := rfl
    rw [hloop, exec_bind]
    generalize exec (f a) r = result at hfirst ⊢
    cases hfirst with
    | refused hbody => exact ⟨[], [], .none hbody, .nil, fun hok => nomatch hok⟩
    | @added x q tx receipt htx hbody hstamped =>
      -- the step may still fail, after its transaction was added
      cases x with
      | error fault =>
        exact ⟨[tx], [receipt], .cons hstamped (.none hbody), .cons htx .nil,
          fun hok => nomatch hok⟩
      | ok =>
        obtain ⟨txs, receipts, hstep, hfits, hall⟩ := ih q
        rw [hbody] at hstep
        exact ⟨tx :: txs, receipt :: receipts, .cons hstamped hstep, .cons htx hfits,
          fun hok => congrArg Nat.succ (hall hok)⟩

-- ---------------------------------------------------------------------------
-- One proposal
-- ---------------------------------------------------------------------------

section
variable {ctx : BlockContext} {e : Engine} {r : Run} {p : Proposal} {tx : Transaction}
variable (hvm : ctx.vm.KeepsPlace)
include hvm

theorem carried_txIndex (index : UInt32) (txHash : Hash) :
    (carried ctx p index txHash r).ledger.txIndex = index := by
  unfold carried
  cases p.kind with
  | call => exact hvm ctx.chain ctx.config ctx.header p.message (r.ledger.prepare txHash index)
  | erase | unsupported _ => rfl

theorem settle_addsOne (account : Address) (blockHash : Hash) :
    AddsOne ctx.header.number (tx = ·) r (exec (settle ctx account blockHash p tx) r) := by
  refine .added rfl (exec_settle_body ctx r account blockHash p tx) ⟨rfl, rfl, ?_⟩
  change (carried ctx p r.body.nextIndex tx.hash (counted account r)).ledger.txIndex.toNat = _
  rw [carried_txIndex hvm]
  exact toNat_ofNatClamp32 _

theorem replayNext_addsOne :
    AddsOne ctx.header.number (tx = ·) r (exec (e.replayNext ctx p tx) r) := by
  rcases e.accepts_or_objection ctx.header.coinbase p tx with haccepts | ⟨fault, hobjection⟩
  · rw [exec_replayNext haccepts]
    exact settle_addsOne hvm _ _
  · rw [exec_replayNext_of_objection hobjection]
    exact .refused rfl

theorem executeNext_addsOne :
    AddsOne ctx.header.number (fun _ => True) r (exec (e.executeNext ctx p) r) := by
  rcases e.exec_executeNext_cases ctx p r with ⟨authority, tx, -, -, hrun⟩ | ⟨fault, -, hrun⟩
  · rw [hrun]
    exact (settle_addsOne hvm authority.validator 0).weaken fun _ _ => trivial
  · rw [hrun]
    exact .refused rfl

end

-- ---------------------------------------------------------------------------
-- The ends of a block
-- ---------------------------------------------------------------------------

def StopsEarly {α : Type} (s : Step EngineError α) (r : Run) : Prop :=
  ∃ fault q, exec s r = (.error fault, q) ∧ q.body = r.body

section
variable {α β : Type} {s : Step EngineError α} {r : Run}

theorem StopsEarly.bind (h : StopsEarly s r) (f : α → Step EngineError β) :
    StopsEarly (s >>= f) r := by
  obtain ⟨fault, q, hrun, hbody⟩ := h
  exact ⟨fault, q, Step.exec_bind_of_error hrun, hbody⟩

theorem stopsEarly_or_ok (h : (exec s r).2.body = r.body) :
    StopsEarly s r ∨ ∃ a q, exec s r = (.ok a, q) ∧ q.body = r.body := by
  rcases hrun : exec s r with ⟨fault | a, q⟩
  · rw [hrun] at h
    exact .inl ⟨fault, q, hrun, h⟩
  · rw [hrun] at h
    exact .inr ⟨a, q, rfl, h⟩

end

section
variable (e : Engine) (header : Header) (systemTxs : List Transaction) (r : Run)

theorem readQueue_stopsEarly_or_ok (ctx : BlockContext) :
    StopsEarly (Step.mapError .contract (Registry.passedProposals ctx)) r ∨
      ∃ queue q, exec (Registry.passedProposals ctx) r = (.ok queue, q) := by
  have hbody := exec_passedProposals_body ctx r
  rcases hread : exec (Registry.passedProposals ctx) r with ⟨fault | queue, q⟩
  · rw [hread] at hbody
    exact .inl ⟨.contract fault, q, Step.exec_mapError_error.mpr ⟨fault, hread, rfl⟩, hbody⟩
  · exact .inr ⟨queue, q, rfl⟩

theorem finalize_stopsEarly_or_replays : StopsEarly (e.finalize header systemTxs) r ∨
    ∃ next queue q, e.FindsQueue header r next queue q ∧ queue.length = systemTxs.length ∧
      exec (e.finalize header systemTxs) r = exec ((queue.zip systemTxs).forM
        fun (p, tx) => e.replayNext (e.context header) p tx) q := by
  rcases stopsEarly_or_ok (e.exec_blockRules_body header r) with hstops | ⟨next, q, hrules, hbody⟩
  · exact .inl (hstops.bind _)
  by_cases hannounced : Announced header next
  · have hreplay : exec (e.finalize header systemTxs) r =
        exec (e.replayQueue (e.context header) systemTxs) q :=
      exec_finalize_of_announced hrules hannounced
    rcases readQueue_stopsEarly_or_ok q (e.context header) with hstops | ⟨queue, q', hread⟩
    · obtain ⟨fault, q', hstop, hbody'⟩ := hstops.bind _
      exact .inl ⟨fault, q', hreplay.trans hstop, hbody'.trans hbody⟩
    have hfinds : e.FindsQueue header r next queue q' := ⟨q, hrules, hread⟩
    by_cases hlength : queue.length = systemTxs.length
    · exact .inr ⟨next, queue, q', hfinds, hlength, exec_finalize hfinds hannounced hlength⟩
    · refine .inl ⟨.validation (.mismatchingSystemTxs queue.length systemTxs.length), q',
        hreplay.trans ?_, hfinds.body⟩
      rw [replayQueue, Step.exec_bind_of_ok (Step.exec_mapError_ok.mpr hread), if_pos hlength]
      rfl
  · exact .inl ⟨_, q, exec_finalize_of_unannounced hrules hannounced, hbody⟩

theorem assemble_stopsEarly_or_executes : StopsEarly (e.assemble header) r ∨
    ∃ next queue q, e.FindsQueue header r next queue q ∧
      exec (e.assemble header) r = exec (do
        queue.forM fun p => e.executeNext (e.context header) p
        return announce header next) q := by
  rcases stopsEarly_or_ok (e.exec_blockRules_body header r) with hstops | ⟨next, q, hrules, hbody⟩
  · exact .inl (hstops.bind _)
  rcases readQueue_stopsEarly_or_ok q (e.context header) with hstops | ⟨queue, q', hread⟩
  · obtain ⟨fault, q', hstop, hbody'⟩ := hstops.bind _
    exact .inl ⟨fault, q', (Step.exec_bind_of_ok hrules).trans hstop, hbody'.trans hbody⟩
  · exact .inr ⟨next, queue, q', ⟨q, hrules, hread⟩,
      (Step.exec_bind_of_ok hrules).trans (Step.exec_bind_of_ok (Step.exec_mapError_ok.mpr hread))⟩

theorem finalize_inStep (hvm : e.vm.KeepsPlace) :
    ∃ txs receipts,
      InStep header.number r.body (exec (e.finalize header systemTxs) r).2.body txs receipts ∧
      txs = systemTxs.take txs.length ∧
      ((exec (e.finalize header systemTxs) r).1 = .ok () →
        ∃ next queue q, e.FindsQueue header r next queue q ∧ txs.length = queue.length) := by
  rcases e.finalize_stopsEarly_or_replays header systemTxs r with
    ⟨fault, q, hrun, hbody⟩ | ⟨next, queue, q, hfinds, hlength, hrun⟩
  · rw [hrun]
    exact ⟨[], [], .none hbody, rfl, fun hok => nomatch hok⟩
  have hcontext : (e.context header).vm.KeepsPlace := hvm
  have hone : ∀ (w : Proposal × Transaction) (r : Run), AddsOne header.number (w.2 = ·) r
      (exec (e.replayNext (e.context header) w.1 w.2) r) := fun _ _ => replayNext_addsOne hcontext
  obtain ⟨txs, receipts, hstep, hfits, hall⟩ := forM_inStep hone (queue.zip systemTxs) q
  rw [hfinds.body] at hstep
  rw [hrun]
  refine ⟨txs, receipts, hstep, ?_, fun hok => ⟨next, queue, q, hfinds, ?_⟩⟩
  · have htaken := List.forall₂_eq_eq_eq ▸ List.forall₂_map_left_iff.mpr hfits
    rw [List.map_take, List.map_snd_zip (Nat.le_of_eq hlength.symm)] at htaken
    exact htaken.symm
  · rw [hall hok, List.length_zip, ← hlength, Nat.min_self]

theorem assemble_inStep (hvm : e.vm.KeepsPlace) :
    ∃ txs receipts,
      InStep header.number r.body (exec (e.assemble header) r).2.body txs receipts ∧
      ∀ header', (exec (e.assemble header) r).1 = .ok header' →
        ∃ next queue q, e.FindsQueue header r next queue q ∧ txs.length = queue.length := by
  rcases e.assemble_stopsEarly_or_executes header r with
    ⟨fault, q, hrun, hbody⟩ | ⟨next, queue, q, hfinds, hrun⟩
  · rw [hrun]
    exact ⟨[], [], .none hbody, fun _ hok => nomatch hok⟩
  have hcontext : (e.context header).vm.KeepsPlace := hvm
  have hone : ∀ (p : Proposal) (r : Run), AddsOne header.number (fun _ => True) r
      (exec (e.executeNext (e.context header) p) r) := fun _ _ => executeNext_addsOne hcontext
  obtain ⟨txs, receipts, hstep, -, hall⟩ := forM_inStep hone queue q
  rw [hfinds.body] at hstep
  rw [hrun, exec_bind]
  generalize exec (queue.forM fun p => e.executeNext (e.context header) p) q = result
    at hstep hall ⊢
  rcases result with ⟨fault | _, q'⟩
  · exact ⟨txs, receipts, hstep, fun _ hok => nomatch hok⟩
  · exact ⟨txs, receipts, hstep, fun _ _ => ⟨next, queue, q, hfinds, hall rfl⟩⟩

end

-- ---------------------------------------------------------------------------
-- The header
-- ---------------------------------------------------------------------------

/-- The header a producer goes on with: the one it had, unless it could end the block. -/
def headerLeft (e : Engine) (header : Header) (r : Run) : Header :=
  ((exec (e.assemble header) r).1.toOption).getD header

theorem announce_vanity (header : Header) (next : Option (List Address)) :
    (announce header next).extra.take (min ExtraData.vanityLength header.extra.length) =
      header.extra.take (min ExtraData.vanityLength header.extra.length) := by
  cases next with
  | none => rfl
  | some list =>
    have hlength : min ExtraData.vanityLength (header.extra.take ExtraData.vanityLength).length =
        min ExtraData.vanityLength header.extra.length := by
      rw [List.length_take, ← Nat.min_assoc, Nat.min_self]
    rw [announce, ExtraData.take_encode (Nat.le_of_eq hlength.symm), List.take_take,
      Nat.min_eq_left (Nat.min_le_left _ _)]

theorem headerLeft_of_error {e : Engine} {header : Header} {r : Run} {fault : EngineError}
    (h : (exec (e.assemble header) r).1 = .error fault) : e.headerLeft header r = header := by
  rw [headerLeft, h]
  rfl

theorem headerLeft_announces (e : Engine) (header : Header) (r : Run) :
    ∃ next, e.headerLeft header r = announce header next ∧
      (¬ e.AtEpochEnd header.number → next = none) := by
  rcases hrun : exec (e.assemble header) r with ⟨fault | header', r'⟩
  · exact ⟨none, headerLeft_of_error (congrArg Prod.fst hrun), fun _ => rfl⟩
  · obtain ⟨next, queue, q, hfinds, -, rfl⟩ := exec_assemble_ok.mp hrun
    refine ⟨next, by rw [headerLeft, hrun]; rfl, fun hepoch => ?_⟩
    rcases hfinds.candidates with ⟨hend, -⟩ | ⟨-, hnone⟩
    · exact absurd hend hepoch
    · exact hnone

/-- However the end of a block is left, as many receipts were added to it as transactions,
each for the transaction at its place. A validating node added the first of the transactions
it was given, a node that came to the end one for each proposal of the queue. The producer's
header changes at the end of an epoch only, and then not in its vanity. -/
theorem outputs_stay_in_step (e : Engine) (hvm : e.vm.KeepsPlace) (header : Header) (r : Run) :
    (∀ systemTxs, ∃ txs receipts,
      InStep header.number r.body (exec (e.finalize header systemTxs) r).2.body txs receipts ∧
      txs = systemTxs.take txs.length ∧
      ((exec (e.finalize header systemTxs) r).1 = .ok () →
        ∃ next queue q, e.FindsQueue header r next queue q ∧ txs.length = queue.length)) ∧
    (∃ txs receipts,
      InStep header.number r.body (exec (e.assemble header) r).2.body txs receipts ∧
      ∀ header', (exec (e.assemble header) r).1 = .ok header' →
        ∃ next queue q, e.FindsQueue header r next queue q ∧ txs.length = queue.length) ∧
    (∀ fault, (exec (e.assemble header) r).1 = .error fault → e.headerLeft header r = header) ∧
    (¬ e.AtEpochEnd header.number → e.headerLeft header r = header) ∧
    e.headerLeft header r = { header with extra := (e.headerLeft header r).extra } ∧
    (e.headerLeft header r).extra.take (min ExtraData.vanityLength header.extra.length) =
      header.extra.take (min ExtraData.vanityLength header.extra.length) := by
  obtain ⟨next, hleft, hepoch⟩ := e.headerLeft_announces header r
  refine ⟨fun systemTxs => e.finalize_inStep header systemTxs r hvm,
    e.assemble_inStep header r hvm, fun _ => headerLeft_of_error, fun hnot => ?_, ?_, ?_⟩
  · rw [hleft, hepoch hnot]
    rfl
  · rw [hleft]
    cases next <;> rfl
  · rw [hleft]
    exact announce_vanity header next

open SampleBlock in
set_option maxRecDepth 100000 in
/-- A node stops at the second transaction, which carries no proposal, with the first one and its
receipt added. The producer adds two and keeps the vanity; it keeps the header if it cannot sign,
or in the middle of an epoch. -/
theorem sample_outputs_stay_in_step :
    (∃ receipt, InStep 2 start.body
      (exec (engine.finalize sealed [transaction, { transaction with data := [1] }]) start).2.body
      [transaction] [receipt]) ∧
    (∃ txs receipts, txs.length = 2 ∧
      InStep 2 start.body (exec (engine.assemble sealed) start).2.body txs receipts) ∧
    (engine.headerLeft sealed start).extra.take 32 = sealed.extra.take 32 ∧
    { engine with authority := none }.headerLeft sealed start = sealed ∧
    { engine with config := { chainId := 1, engine := { epoch := 3 } } }.headerLeft sealed start =
      sealed := by
  have hkeeps : SampleBlock.vm.KeepsPlace := fun _ _ _ _ _ => rfl
  obtain ⟨hchecked, ⟨txs, receipts, hproduced, -⟩, -, -, -, hvanity⟩ :=
    outputs_stay_in_step engine hkeeps sealed start
  obtain ⟨-, -, hunsigned, -⟩ :=
    outputs_stay_in_step { engine with authority := none } hkeeps sealed start
  obtain ⟨-, -, -, hmiddle, -⟩ := outputs_stay_in_step
    { engine with config := { chainId := 1, engine := { epoch := 3 } } } hkeeps sealed start
  have hlength : min ExtraData.vanityLength sealed.extra.length = 32 := by decide +kernel
  rw [hlength] at hvanity
  refine ⟨?_, ⟨txs, receipts, ?_, hproduced⟩, hvanity, hunsigned (.governance .signerNotSet) ?_,
    hmiddle (by decide)⟩
  · obtain ⟨txs, receipts, hstep, -⟩ := hchecked [transaction, { transaction with data := [1] }]
    obtain rfl : txs = [transaction] := hstep.addsTxs.symm.trans (by decide +kernel)
    obtain ⟨receipt, rfl⟩ := List.length_eq_one_iff.mp hstep.length
    exact ⟨receipt, hstep⟩
  · have htxs : txs = (exec (engine.assemble sealed) start).2.body.txs := hproduced.addsTxs.symm
    rw [htxs]
    decide +kernel
  · rfl

end Engine

end StakeGov
