import StakeGov.InMemory.SampleBlocks
import StakeGov.Proofs.HashedForms
import StakeGov.Proofs.Invariants
import StakeGov.Proofs.ProposalQueue

/-!
# Receipts hold their own logs

A ledger attributes new logs to the transaction it was prepared for. A proposal is executed
under its own transaction, and everything else is called under another: the block rules and
the reading of the queue under the one that was prepared before, the taking of a proposal
off the queue under none. As distinct proposals have transactions with distinct payloads,
the logs that are found for a transaction are those of its own call
(`receipts_hold_own_logs`).
-/

namespace StakeGov

open Registry (Accessor)
open Step (exec Leads Keeps)

-- ---------------------------------------------------------------------------
-- Attribution
-- ---------------------------------------------------------------------------

namespace Ledger

def attributed (l : Ledger) (txHash : Hash) : List Log :=
  l.logs.filter fun log => log.txHash = txHash

@[simp] theorem attributed_prepare (l : Ledger) (txHash other : Hash) (index : UInt32) :
    (l.prepare other index).attributed txHash = l.attributed txHash := rfl

@[simp] theorem txHash_prepare (l : Ledger) (txHash : Hash) (index : UInt32) :
    (l.prepare txHash index).txHash = txHash := rfl

def stamp (l : Ledger) (log : Log) : Log :=
  { log with txHash := l.txHash, txIndex := l.txIndex }

theorem foldl_addLog (l : Ledger) (emitted : List Log) :
    (emitted.foldl addLog l).logs = l.logs ++ emitted.map l.stamp := by
  induction emitted generalizing l with
  | nil => exact (List.append_nil _).symm
  | cons log emitted ih =>
    rw [List.foldl_cons, ih]
    exact List.append_assoc l.logs [l.stamp log] _

theorem attributed_foldl_addLog (l : Ledger) (emitted : List Log) (txHash : Hash) :
    (emitted.foldl addLog l).attributed txHash =
      l.attributed txHash ++ if l.txHash = txHash then emitted.map l.stamp else [] := by
  rw [attributed, foldl_addLog, List.filter_append]
  congr 1
  split
  · rename_i h
    exact List.filter_eq_self.mpr fun log hlog => by
      obtain ⟨raw, -, rfl⟩ := List.mem_map.mp hlog
      exact decide_eq_true h
  · rename_i h
    exact List.filter_eq_nil_iff.mpr fun log hlog => by
      obtain ⟨raw, -, rfl⟩ := List.mem_map.mp hlog
      exact fun heq => h (of_decide_eq_true heq)

end Ledger

/-- The environment records the logs of the running transaction, and does not start another
one. -/
def Vm.EmitsLogs (vm : Vm) : Prop :=
  ∀ chain config header m l, ∃ emitted : List Log,
    (vm.call chain config header m l).2.logs = (emitted.foldl Ledger.addLog l).logs ∧
    (vm.call chain config header m l).2.txHash = l.txHash ∧
    (vm.call chain config header m l).2.txIndex = l.txIndex

section
variable {ctx : BlockContext} (hvm : ctx.vm.EmitsLogs)
include hvm

theorem attributed_ledgerAfter {l : Ledger} {txHash : Hash} (m : Message) (h : l.txHash ≠ txHash) :
    (ctx.ledgerAfter m l).attributed txHash = l.attributed txHash := by
  obtain ⟨emitted, hlogs, -⟩ := hvm ctx.chain ctx.config ctx.header m l
  have hall := l.attributed_foldl_addLog emitted txHash
  rw [if_neg h, List.append_nil] at hall
  rw [← hall, Ledger.attributed, Ledger.attributed, ← hlogs]
  rfl

theorem txHash_ledgerAfter (m : Message) (l : Ledger) : (ctx.ledgerAfter m l).txHash = l.txHash :=
  (hvm ctx.chain ctx.config ctx.header m l).choose_spec.2.1

theorem kept_attributed {txHash other : Hash} (h : other ≠ txHash) (logs : List Log) :
    Kept (fun r => r.ledger.txHash = other ∧ r.ledger.attributed txHash = logs) ctx where
  call a r hr := by
    obtain ⟨m, -, hrun⟩ := a.sends ctx r
    rw [hrun]
    exact ⟨(txHash_ledgerAfter hvm m r.ledger).trans hr.1,
      (attributed_ledgerAfter hvm m (hr.1 ▸ h)).trans hr.2⟩
  count _ _ hr := hr
  credit _ _ _ hr := hr
  remember _ _ hr := hr

end

namespace Engine

-- ---------------------------------------------------------------------------
-- Before and after a proposal
-- ---------------------------------------------------------------------------

section
variable {e : Engine} {header : Header} {r q : Run} {next : Option (List Address)}
variable {queue : List Proposal} {txHash : Hash}

theorem FindsQueue.attributed (h : e.FindsQueue header r next queue q) (hvm : e.vm.EmitsLogs)
    (hprepared : r.ledger.txHash ≠ txHash) :
    q.ledger.attributed txHash = r.ledger.attributed txHash := by
  obtain ⟨q₁, hrules, hread⟩ := h
  have hctx : (e.context header).vm.EmitsLogs := hvm
  have K := kept_attributed hctx hprepared (r.ledger.attributed txHash)
  have hafter := K.blockRules (e := e) (fun _ h => h) (fun _ _ h => h) r ⟨rfl, rfl⟩
  rw [hrules] at hafter
  have hqueue := K.passedProposals q₁ hafter
  rw [hread] at hqueue
  exact hqueue.2

end

section
variable {ctx : BlockContext} (hvm : ctx.vm.EmitsLogs) {account : Address} {blockHash : Hash}
variable {p : Proposal} {tx : Transaction} {r r' : Run}
include hvm

theorem finishProposal_attributed {txHash : Hash} (h : txHash ≠ 0) (id : Word) (r : Run) :
    (exec (finishProposal ctx id) r).2.ledger.attributed txHash = r.ledger.attributed txHash :=
  ((kept_attributed hvm h.symm (r.ledger.attributed txHash)).call (.finishProposal id)
    { r with ledger := r.ledger.prepare 0 0 } ⟨rfl, rfl⟩).2

theorem settle_attributed {txHash : Hash} (h : txHash ≠ 0) (htx : tx.hash ≠ txHash)
    (hrun : exec (settle ctx account blockHash p tx) r = (.ok (), r')) :
    r'.ledger.attributed txHash = r.ledger.attributed txHash := by
  rw [exec_settle, Step.exec_mapError_ok] at hrun
  have hfinish := finishProposal_attributed hvm h p.id (executed ctx account blockHash p tx r)
  rw [hrun] at hfinish
  rw [hfinish, executed, carried]
  cases p.kind with
  | call => exact attributed_ledgerAfter hvm p.message htx
  | erase | unsupported code => rfl

theorem settleAll_attributed {txHash : Hash} (h : txHash ≠ 0)
    {work : List (Proposal × Transaction)} (hwork : ∀ w ∈ work, w.2.hash ≠ txHash)
    (hrun : exec (settleAll ctx account blockHash work) r = (.ok (), r')) :
    r'.ledger.attributed txHash = r.ledger.attributed txHash := by
  induction work generalizing r with
  | nil =>
    cases hrun
    rfl
  | cons w work ih =>
    obtain ⟨hhead, hrest⟩ := List.forall_mem_cons.mp hwork
    obtain ⟨q, hfirst, htail⟩ := exec_settleAll_cons.mp hrun
    exact (ih hrest htail).trans (settle_attributed hvm h hhead hfirst)

end

-- ---------------------------------------------------------------------------
-- One receipt
-- ---------------------------------------------------------------------------

/-- The receipt of a proposal that was executed on a ledger holds the logs that its own call
emitted there, in their order and stamped with the transaction and the block; without a
call it holds none. -/
structure OwnLogs (ctx : BlockContext) (p : Proposal) (txHash : Hash) (index : UInt32)
    (l : Ledger) (receipt : Receipt) : Prop where
  call : p.kind = .call → ∃ emitted : List Log,
    (ctx.vm.call ctx.chain ctx.config ctx.header p.message l).2.logs =
      (emitted.foldl Ledger.addLog l).logs ∧
    receipt.logs = emitted.map fun log =>
      { log with
        txHash, txIndex := index, blockNumber := ctx.header.number
        blockHash := receipt.blockHash }
  others : p.kind ≠ .call → receipt.logs = []
  bloom : receipt.bloom = .ofLogs receipt.logs

section
variable {ctx : BlockContext} (hvm : ctx.vm.EmitsLogs) {p : Proposal} {txHash blockHash : Hash}
variable {r : Run} (index : UInt32) (hnone : r.ledger.attributed txHash = [])
include hvm hnone

theorem ownLogs_receiptFor :
    OwnLogs ctx p txHash index (r.ledger.prepare txHash index)
      (receiptFor ctx p index txHash blockHash r) where
  call hkind := by
    obtain ⟨emitted, hlogs, -⟩ := hvm ctx.chain ctx.config ctx.header p.message
      (r.ledger.prepare txHash index)
    refine ⟨emitted, hlogs, ?_⟩
    have hown := (r.ledger.prepare txHash index).attributed_foldl_addLog emitted txHash
    rw [if_pos (Ledger.txHash_prepare _ _ _), Ledger.attributed_prepare, hnone, List.nil_append,
      Ledger.attributed, ← hlogs] at hown
    unfold receiptFor logsFor carried
    simp only [hkind]
    refine (congrArg (List.map _) hown).trans ?_
    rw [List.map_map]
    rfl
  others hkind := by
    unfold receiptFor logsFor
    cases h : p.kind with
    | call => exact absurd h hkind
    | erase | unsupported code => rfl
  bloom := rfl

omit hvm in
theorem receiptFor_logs : (receiptFor ctx p index txHash blockHash r).logs =
    (carried ctx p index txHash r).ledger.logsOf txHash ctx.header.number blockHash := by
  unfold receiptFor logsFor carried
  cases p.kind with
  | call => rfl
  | erase | unsupported code => exact (congrArg (List.map _) hnone).symm

end

-- ---------------------------------------------------------------------------
-- Transactions with hashes of their own
-- ---------------------------------------------------------------------------

def KeepsPayloads (e : Engine) : Prop :=
  ∀ authority tx signed, e.authority = some authority →
    authority.signer.sign authority.validator tx e.config.chainId = .ok signed →
    signed.data = tx.data

/-- The hashes of the transactions tell them from each other and from no transaction at all,
and nothing on the ledger has one of them. -/
structure Fresh (l : Ledger) (txs : List Transaction) : Prop where
  collisionFree : ∀ tx ∈ txs, ∀ tx' ∈ txs, tx.hash = tx'.hash → tx.encode = tx'.encode
  nonzero : ∀ tx ∈ txs, tx.hash ≠ 0
  prepared : ∀ tx ∈ txs, l.txHash ≠ tx.hash
  recorded : ∀ tx ∈ txs, ∀ log ∈ l.logs, log.txHash ≠ tx.hash

theorem Fresh.attributed {l : Ledger} {txs : List Transaction} (h : Fresh l txs) {tx : Transaction}
    (htx : tx ∈ txs) : l.attributed tx.hash = [] :=
  List.filter_eq_nil_iff.mpr fun log hlog heq =>
    h.recorded tx htx log hlog (of_decide_eq_true heq)

section
variable {e : Engine} {header : Header} {r r' : Run}

theorem Ends.payloads
    (hsigner : ∀ block, exec (e.assemble header) r = (.ok block, r') → e.KeepsPayloads)
    (h : e.Ends header r r') :
    ∃ next queue q account blockHash txs,
      e.FindsQueue header r next queue q ∧ txs.length = queue.length ∧
      (∀ w ∈ queue.zip txs, w.2.data = write w.1) ∧
      exec (Engine.settleAll (e.context header) account blockHash (queue.zip txs)) q =
        (.ok (), r') := by
  cases h with
  | produced h =>
    obtain ⟨next, queue, q, hfinds, hexecute, -⟩ := exec_assemble_ok.mp h
    obtain ⟨account, txs, hlength, -, hsigned, hsettle⟩ := exec_executeAll_ok hexecute
    refine ⟨next, queue, q, account, 0, txs, hfinds, hlength, fun w hw => ?_, hsettle⟩
    obtain ⟨authority, nonce, hauthority, hsign⟩ := hsigned w hw
    exact hsigner _ h authority _ _ hauthority hsign
  | accepted h =>
    obtain ⟨next, queue, q, hfinds, -, hlength, haccepts, hsettle⟩ := exec_finalize_ok.mp h
    exact ⟨next, queue, q, header.coinbase, header.hash, _, hfinds, hlength.symm,
      fun w hw => (write_of_ofCanonical (haccepts w hw).payload).symm, hsettle⟩

/-- Distinct proposals have distinct payloads, and so their transactions distinct hashes. -/
theorem hashes_distinct {work : List (Proposal × Transaction)}
    (hpayloads : ∀ w ∈ work, w.2.data = write w.1) (hdistinct : (work.map Prod.fst).Nodup)
    (hfree : ∀ w ∈ work, ∀ w' ∈ work, w.2.hash = w'.2.hash → w.2.encode = w'.2.encode) :
    work.Pairwise fun w w' => w.2.hash ≠ w'.2.hash := by
  refine List.Pairwise.imp_of_mem ?_ (List.pairwise_map.mp hdistinct)
  intro w w' hw hw' hne hhash
  have hdata := Transaction.data_of_encode (hfree w hw w' hw' hhash)
  rw [hpayloads w hw, hpayloads w' hw'] at hdata
  exact hne (Proposal.write_injective hdata)

end

-- ---------------------------------------------------------------------------
-- The receipts of a block
-- ---------------------------------------------------------------------------

theorem finishProposal_logs {ctx : BlockContext} (hvm : ctx.vm.EmitsLogs) (id : Word) (r : Run) :
    ∃ others, (exec (finishProposal ctx id) r).2.ledger.logs = r.ledger.logs ++ others ∧
      ∀ log ∈ others, log.txHash = 0 := by
  obtain ⟨m, -, hrun⟩ :=
    (Accessor.finishProposal id).sends ctx { r with ledger := r.ledger.prepare 0 0 }
  obtain ⟨emitted, hlogs, -⟩ := hvm ctx.chain ctx.config ctx.header m (r.ledger.prepare 0 0)
  refine ⟨emitted.map (r.ledger.prepare 0 0).stamp, ?_, fun log hlog => ?_⟩
  · have hall : (exec (finishProposal ctx id) r).2.ledger.logs =
        (emitted.foldl Ledger.addLog (r.ledger.prepare 0 0)).logs :=
      (congrArg (fun q : Run => q.ledger.logs) hrun).trans hlogs
    rw [hall, Ledger.foldl_addLog]
    rfl
  · obtain ⟨raw, -, rfl⟩ := List.mem_map.mp hlog
    rfl

/-- One proposal of a queue that is settled, after those before it: its receipt holds the logs
of its own call, what is recorded when it is taken off the queue belongs to no transaction,
and in the end the logs that are found for its transaction are its receipt's. -/
def EntryOwnsLogs (ctx : BlockContext) (account : Address) (blockHash : Hash) (q r' : Run)
    (receipts : List Receipt) (done : List (Proposal × Transaction)) (p : Proposal)
    (tx : Transaction) : Prop :=
  ∃ q₁ q₂ receipt index,
    exec (settleAll ctx account blockHash done) q = (.ok (), q₁) ∧
    exec (finishProposal ctx p.id) (executed ctx account blockHash p tx q₁) = (.ok (), q₂) ∧
    receipts[done.length]? = some receipt ∧
    index = UInt32.ofNatClamp (q.body.txs.length + done.length) ∧
    OwnLogs ctx p tx.hash index ((counted account q₁).ledger.prepare tx.hash index) receipt ∧
    (∃ others, q₂.ledger.logs = (executed ctx account blockHash p tx q₁).ledger.logs ++ others ∧
      ∀ log ∈ others, log.txHash = 0) ∧
    r'.ledger.logsOf tx.hash ctx.header.number receipt.blockHash = receipt.logs

theorem entryOwnsLogs_of_settleAll {ctx : BlockContext} (hvm : ctx.vm.EmitsLogs) {account : Address}
    {blockHash : Hash} {q r' : Run} {receipts : List Receipt}
    {done rest : List (Proposal × Transaction)} {p : Proposal} {tx : Transaction}
    (hsettle : exec (settleAll ctx account blockHash (done ++ (p, tx) :: rest)) q = (.ok (), r'))
    (hreceipts : r'.body.receipts = q.body.receipts ++ receipts) (hnonzero : tx.hash ≠ 0)
    (hnone : q.ledger.attributed tx.hash = []) (hbefore : ∀ w ∈ done, w.2.hash ≠ tx.hash)
    (hafter : ∀ w ∈ rest, w.2.hash ≠ tx.hash) :
    EntryOwnsLogs ctx account blockHash q r' receipts done p tx := by
  obtain ⟨q₁, q₂, hdone, hnext, hrest, hreceipt⟩ := settleAll_at hsettle hreceipts
  -- nothing was recorded for the transaction before its turn, and nothing is after it
  have hfirst : (counted account q₁).ledger.attributed tx.hash = [] :=
    (settleAll_attributed hvm hnonzero hbefore hdone).trans hnone
  have hlast : r'.ledger.attributed tx.hash = q₂.ledger.attributed tx.hash :=
    settleAll_attributed hvm hnonzero hafter hrest
  rw [exec_settle, Step.exec_mapError_ok] at hnext
  have hfinish := finishProposal_attributed hvm hnonzero p.id
    (executed ctx account blockHash p tx q₁)
  have hothers := finishProposal_logs hvm p.id (executed ctx account blockHash p tx q₁)
  rw [hnext] at hfinish hothers
  have hindex : q₁.body.nextIndex = UInt32.ofNatClamp (q.body.txs.length + done.length) := by
    rw [BlockBody.nextIndex, settleAll_txs hdone, List.length_append, List.length_map]
  refine ⟨q₁, q₂, _, q₁.body.nextIndex, hdone, hnext, hreceipt, hindex,
    ownLogs_receiptFor hvm _ hfirst, hothers, ?_⟩
  rw [receiptFor_logs _ hfirst]
  exact congrArg (List.map _) (hlast.trans hfinish)

/-- Each new receipt holds the logs of its proposal's own call. What was recorded up to the
reading of the queue belongs to other transactions. -/
def HoldOwnLogs (e : Engine) (header : Header) (r r' : Run) (txs : List Transaction) : Prop :=
  ∃ next queue q account blockHash receipts,
    e.FindsQueue header r next queue q ∧ txs.length = queue.length ∧
    receipts.length = queue.length ∧ q.body = r.body ∧
    r'.body.receipts = r.body.receipts ++ receipts ∧
    (∀ tx ∈ txs, ∀ log ∈ q.ledger.logs, log.txHash ≠ tx.hash) ∧
    ∀ done p tx rest, queue.zip txs = done ++ (p, tx) :: rest →
      EntryOwnsLogs (e.context header) account blockHash q r' receipts done p tx

section
variable {e : Engine} {header : Header} {r r' : Run} {txs : List Transaction}

/-- If logs are attributed to the running transaction, and the transactions of a block have
hashes of their own, then in a block of distinct proposals, be it produced or checked, every
receipt holds just the logs of its proposal's own call. Only of a block that was produced does
the signer matter. -/
theorem receipts_hold_own_logs (hvm : e.vm.EmitsLogs)
    (hsigner : ∀ block, exec (e.assemble header) r = (.ok block, r') → e.KeepsPayloads)
    (hends : e.Ends header r r') (htxs : r'.body.txs = r.body.txs ++ txs)
    (hdistinct : ∀ next queue q, e.FindsQueue header r next queue q → queue.Nodup)
    (hfresh : Fresh r.ledger txs) : e.HoldOwnLogs header r r' txs := by
  obtain ⟨next, queue, q, account, blockHash, txs', hfinds, hlength, hpayloads, hsettle⟩ :=
    hends.payloads hsigner
  obtain rfl : txs = txs' := by
    have hadded := settleAll_txs hsettle
    rw [hfinds.body, List.map_snd_zip (Nat.le_of_eq hlength), htxs] at hadded
    exact List.append_cancel_left hadded
  obtain ⟨receipts, hreceipts, hcount⟩ := settleAll_receipts hsettle
  have hctx : (e.context header).vm.EmitsLogs := hvm
  have hmem : ∀ w ∈ queue.zip txs, w.2 ∈ txs := fun w hw => (List.of_mem_zip hw).2
  have hpairwise : (queue.zip txs).Pairwise fun w w' => w.2.hash ≠ w'.2.hash := by
    refine hashes_distinct hpayloads ?_ fun w hw w' hw' =>
      hfresh.collisionFree _ (hmem w hw) _ (hmem w' hw')
    rw [List.map_fst_zip (Nat.le_of_eq hlength.symm)]
    exact hdistinct next queue q hfinds
  have hnone : ∀ tx ∈ txs, q.ledger.attributed tx.hash = [] := fun tx htx =>
    (hfinds.attributed hvm (hfresh.prepared tx htx)).trans (hfresh.attributed htx)
  refine ⟨next, queue, q, account, blockHash, receipts, hfinds, hlength, ?_, hfinds.body,
    hfinds.body ▸ hreceipts, ?_, ?_⟩
  · rw [hcount, List.length_zip, hlength, Nat.min_self]
  · intro tx htx log hlog heq
    exact List.filter_eq_nil_iff.mp (hnone tx htx) log hlog (decide_eq_true heq)
  · intro done p tx rest hsplit
    have htx : tx ∈ txs := hmem (p, tx) (by rw [hsplit]; simp)
    rw [hsplit] at hsettle hpairwise
    obtain ⟨-, hlater, hearlier⟩ := List.pairwise_append.mp hpairwise
    exact entryOwnsLogs_of_settleAll hctx hsettle hreceipts (hfresh.nonzero tx htx) (hnone tx htx)
      (fun w hw => hearlier w hw (p, tx) List.mem_cons_self)
      (fun w hw => ((List.pairwise_cons.mp hlater).1 w hw).symm)

end

end Engine

-- ---------------------------------------------------------------------------
-- The environment that logs every call
-- ---------------------------------------------------------------------------

namespace SampleLogs

open SampleQueue (header)

theorem emitsLogs : engine.vm.EmitsLogs :=
  fun _ _ _ m _ => ⟨[log m], rfl, rfl, rfl⟩

theorem keepsPayloads : engine.KeepsPayloads := by
  intro authority tx signed hauthority hsign
  cases hauthority
  cases hsign
  rfl

set_option maxRecDepth 100000 in
theorem found_queue {next : Option (List Address)} {queue : List Proposal} {q : Run}
    (h : engine.FindsQueue header start next queue q) : queue = [proposal 0, proposal 1] := by
  obtain ⟨q₁, -, hread⟩ := h
  have hqueue : exec (Registry.passedProposals (engine.context header)) q₁ =
      (.ok [proposal 0, proposal 1],
        (exec (Registry.passedProposals (engine.context header)) q₁).2) :=
    Prod.ext rfl rfl
  exact Except.ok.inj (congrArg Prod.fst (hread.symm.trans hqueue))

theorem hash_call : (transaction 0).hash =
    114926596351391867909686659987092339040185375833132816721927650468922886125986 := by
  decide +kernel

theorem hash_erasure : (transaction 1).hash =
    40409910813118941642687718818811808598707615553901270424568390274136915625184 := by
  decide +kernel

theorem fresh : Engine.Fresh start.ledger [transaction 0, transaction 1] := by
  have hne : (transaction 0).hash ≠ (transaction 1).hash := by
    rw [hash_call, hash_erasure]
    decide
  have hnonzero : ∀ tx ∈ [transaction 0, transaction 1], tx.hash ≠ 0 := by
    simp only [List.forall_mem_cons, List.not_mem_nil, false_implies, implies_true, and_true]
    rw [hash_call, hash_erasure]
    decide
  refine ⟨?_, hnonzero, fun tx htx => (hnonzero tx htx).symm, fun _ _ _ hlog => nomatch hlog⟩
  simp only [List.forall_mem_cons, List.not_mem_nil, false_implies, implies_true, and_true,
    true_and]
  exact ⟨fun h => absurd h hne, fun h => absurd h.symm hne⟩

end SampleLogs

namespace Engine

open SampleLogs in
open SampleQueue (header) in
/-- The call of the sample queue has the one log that it left, and the erasure none, though
reading the queue and taking the proposals off it left logs, too. -/
theorem sample_receipts_hold_own_logs :
    ∃ r' call erasure, engine.Ends header start r' ∧ r'.body.receipts = [call, erasure] ∧
      call.logs.length = 1 ∧ erasure.logs = [] ∧ 1 < r'.ledger.logs.length := by
  have hassembled : exec (engine.assemble header) start = (.ok (announce header none), _) :=
    Step.exec_of_toOption (by decide +kernel)
  generalize hafter : (exec (engine.assemble header) start).2 = r' at hassembled
  have htxs : r'.body.txs = start.body.txs ++ [transaction 0, transaction 1] := by
    rw [← hafter]
    decide +kernel
  obtain ⟨next, queue, q, account, blockHash, receipts, hfinds, -, hcount, -, hreceipts, -, hown⟩ :=
    receipts_hold_own_logs emitsLogs (fun _ _ => keepsPayloads) (.produced hassembled) htxs
      (fun _ _ _ hfinds => found_queue hfinds ▸ by decide) fresh
  obtain rfl := found_queue hfinds
  obtain ⟨call, erasure, rfl⟩ := List.length_eq_two.mp hcount
  obtain ⟨_, _, _, _, -, -, hcall, -, hcallLogs, -, -⟩ := hown [] _ _ _ rfl
  obtain ⟨_, _, _, _, -, -, herasure, -, herasureLogs, -, -⟩ :=
    hown [(SampleLogs.proposal 0, transaction 0)] _ _ _ rfl
  cases hcall
  cases herasure
  obtain ⟨emitted, hemitted, hlogs⟩ := hcallLogs.call rfl
  refine ⟨r', call, erasure, .produced hassembled, hreceipts, ?_, herasureLogs.others nofun, ?_⟩
  · have hlength := congrArg List.length hemitted
    rw [Ledger.foldl_addLog, List.length_append, List.length_map] at hlength
    rw [hlogs, List.length_map]
    exact Nat.add_left_cancel (hlength.symm.trans List.length_append)
  · rw [← hafter]
    decide +kernel

end Engine

end StakeGov
