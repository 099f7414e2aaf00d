import Mathlib.Data.BitVec
import StakeGov.InMemory.SampleBlocks
import StakeGov.Proofs.BlockEnds
import StakeGov.Proofs.GovernanceCalls

/-!
# Every passed proposal is executed once

A governance contract may reorder what is left of its queue whenever a proposal is taken
off. What it promises is asked only on the ledgers that a block comes to (`QueueContract`).
As the whole queue is read before the first proposal is executed, a block that ends
well still settles every proposal that was in it, in the order in which it was read, and
leaves the queue empty (`BlockRun.settles`). So over a run of blocks every proposal is
settled in the first block after it arrived, and in no other
(`proposals_settled_exactly_once`).
-/

namespace StakeGov

open Registry (countMessage entryMessage finishMessage entryTokens)
open Step (exec exec_bind exec_bind_ok)

def Run.messages (r : Run) : List Message :=
  r.events.filterMap fun
    | .called .block _ m => some m
    | _ => none

def Proposal.messages (p : Proposal) : List Message :=
  match p.kind with
  | .call => [p.message]
  | .erase | .unsupported _ => []

theorem BlockContext.afterCall_messages {ctx : BlockContext} (hsite : ctx.site = .block)
    (m : Message) (r : Run) : (ctx.afterCall m r).messages = r.messages ++ [m] := by
  simp [Run.messages, BlockContext.afterCall, Run.record, hsite]

-- ---------------------------------------------------------------------------
-- The ledgers of a block
-- ---------------------------------------------------------------------------

namespace Engine

/-- The end of a block, as its producer or as a validating node that accepts it. -/
inductive Ends (e : Engine) (header : Header) (r r' : Run) : Prop where
  | produced {header' : Header} (h : exec (e.assemble header) r = (.ok header', r'))
  | accepted {txs : List Transaction} (h : exec (e.finalize header txs) r = (.ok (), r'))

def afterRules (e : Engine) (header : Header) (r : Run) : Run :=
  (exec (e.blockRules (e.context header)) r).2

/-- The run once the length of the queue and a number of its entries were read. -/
def afterReads (e : Engine) (header : Header) (r : Run) : Nat → Run
  | 0 => (e.context header).afterCall (countMessage header.coinbase) (e.afterRules header r)
  | count + 1 =>
    (e.context header).afterCall (entryMessage header.coinbase (UInt32.ofNat count))
      (e.afterReads header r count)

theorem afterReads_succ (e : Engine) (header : Header) (r : Run) (count : Nat) :
    (e.afterReads header r (count + 1)).ledger =
      (e.context header).ledgerAfter (entryMessage header.coinbase (UInt32.ofNat count))
        (e.afterReads header r count).ledger := rfl

/-- In a block that ends with the run `r'`, the proposal is executed as a transaction of the
account on the run `q`, once those before it were settled. -/
inductive ComesTo (e : Engine) (header : Header) (r r' : Run) (account : Address) (p : Proposal)
    (tx : Transaction) (q : Run) : Prop where
  | intro {next found q₀ blockHash txs done rest} (hfinds : e.FindsQueue header r next found q₀)
      (hlength : txs.length = found.length) (hsplit : found.zip txs = done ++ (p, tx) :: rest)
      (hdone : exec (settleAll (e.context header) account blockHash done) q₀ = (.ok (), q))
      (hrest : exec (settleAll (e.context header) account blockHash ((p, tx) :: rest)) q =
        (.ok (), r'))

end Engine

/-- The ledger between the execution of a proposal and the message that takes it off. -/
def BlockContext.performed (ctx : BlockContext) (account : Address) (p : Proposal)
    (tx : Transaction) (q : Run) : Ledger :=
  (Engine.carried ctx p q.body.nextIndex tx.hash (Engine.counted account q)).ledger.prepare 0 0

/-- What a governance contract keeps on the ledgers of one block is a queue of proposals: it
answers with its length and its entries, takes off just the one it is told to, and nothing
else in the block changes it. Of other ledgers nothing is said. -/
structure QueueContract (e : Engine) (header : Header) (queue : Ledger → List Proposal)
    (r r' : Run) : Prop where
  rules_keep : queue (e.afterRules header r).ledger = queue r.ledger
  count : (e.context header).reply (countMessage header.coinbase) (e.afterRules header r).ledger =
    .success (Abi.encode
      [.uint (BitVec.ofNat 256 (queue (e.afterRules header r).ledger).length)])
  count_keeps : queue (e.afterReads header r 0).ledger = queue (e.afterRules header r).ledger
  /-- Bytes that a word cannot count have no encoding. -/
  entry : ∀ {index p}, (queue (e.afterReads header r index).ledger)[index]? = some p →
    p.data.length < 2 ^ 256 ∧
    (e.context header).reply (entryMessage header.coinbase (UInt32.ofNat index))
      (e.afterReads header r index).ledger = .success (Abi.encode (entryTokens p))
  entry_keeps : ∀ {index p}, (queue (e.afterReads header r index).ledger)[index]? = some p →
    queue (e.afterReads header r (index + 1)).ledger = queue (e.afterReads header r index).ledger
  perform_keeps : ∀ {account p tx q}, e.ComesTo header r r' account p tx q → p ∈ queue q.ledger →
    queue ((e.context header).performed account p tx q) = queue q.ledger
  finish : ∀ {account p tx q}, e.ComesTo header r r' account p tx q →
    let l := (e.context header).performed account p tx q
    ((queue l).map (·.id)).Nodup → p ∈ queue l →
    ((e.context header).reply (finishMessage header.coinbase p.id) l).error = none →
    (queue l).Perm
      (p :: queue ((e.context header).ledgerAfter (finishMessage header.coinbase p.id) l))

-- ---------------------------------------------------------------------------
-- Up to the first proposal
-- ---------------------------------------------------------------------------

/-- The block rules keep a queue that each of their calls and credits keeps. -/
theorem Engine.afterRules_queue {queue : Ledger → List Proposal} {e : Engine} {header : Header}
    (hcall : ∀ l {c : SystemContract} {name args data} value, RulesCall c name →
      c.pack name args = .ok data → queue ((e.context header).ledgerAfter
        (BlockContext.callMessage Address.engineCaller c.address data value) l) = queue l)
    (hcredit : ∀ l a balance, queue (l.setBalance a balance) = queue l) (r : Run) :
    queue (e.afterRules header r).ledger = queue r.ledger := by
  have L : RulesLockstep (fun q q' => q = q' ∧ queue q.ledger = queue r.ledger) (e.context header)
      (e.context header) := {
    header := rfl
    ledger h := h.1 ▸ rfl
    credit a b h := by
      obtain ⟨rfl, h⟩ := h
      exact ⟨rfl, (hcredit _ a b).trans h⟩
    counted _ h := ⟨h.1 ▸ rfl, h.2⟩
    call {contract name} args value hrules := by
      rintro q _ ⟨rfl, h⟩
      refine ⟨rfl, rfl, ?_⟩
      cases hpack : contract.pack name args with
      | error cause =>
        rw [(e.context header).exec_callMethod_of_error hpack]
        exact h
      | ok data =>
        rw [(e.context header).exec_callMethod hpack]
        exact (hcall _ value hrules hpack).trans h
    aside l := by
      rintro q _ ⟨rfl, h⟩
      exact ⟨rfl, rfl, h⟩ }
  have hrules : Step.Agree _ (e.blockRules (e.context header)) (e.blockRules (e.context header)) :=
    L.blockRules rfl rfl rfl rfl rfl
  exact (hrules r r ⟨rfl, rfl⟩).2.2

namespace QueueContract

variable {e : Engine} {header : Header} {queue : Ledger → List Proposal} {r r' q : Run}
variable (G : QueueContract e header queue r r')
include G

theorem exec_readFrom_ok {index count : Nat} {read : List Proposal}
    (hkept : queue (e.afterReads header r index).ledger = queue r.ledger)
    (hend : index + count = (queue r.ledger).length)
    (h : exec (Registry.readFrom (Registry.passedProposal (e.context header)) index count)
      (e.afterReads header r index) = (.ok read, q)) :
    read = (queue r.ledger).drop index ∧ queue q.ledger = queue r.ledger := by
  induction count generalizing index read with
  | zero =>
    cases h
    exact ⟨(List.drop_of_length_le (Nat.le_of_eq hend.symm)).symm, hkept⟩
  | succ count ih =>
    have hindex : index < (queue r.ledger).length := by omega
    have hentry : (queue (e.afterReads header r index).ledger)[index]? =
        some (queue r.ledger)[index] := by
      rw [hkept, List.getElem?_eq_getElem hindex]
    obtain ⟨p, q₁, hfirst, h⟩ := exec_bind_ok.mp h
    obtain ⟨rest, q₂, hrest, h⟩ := exec_bind_ok.mp h
    cases h
    obtain ⟨hdata, hreply⟩ := G.entry hentry
    obtain ⟨rfl, rfl⟩ := Registry.exec_passedProposal_ok hdata hreply hfirst
    obtain ⟨rfl, hsame⟩ := ih ((G.entry_keeps hentry).trans hkept) (by omega) hrest
    exact ⟨(List.drop_eq_getElem_cons hindex).symm, hsame⟩

theorem exec_passedProposals_ok {read : List Proposal} (hsmall : (queue r.ledger).length < 2 ^ 32)
    (h : exec (Registry.passedProposals (e.context header)) (e.afterRules header r) =
      (.ok read, q)) :
    read = queue r.ledger ∧ queue q.ledger = queue r.ledger := by
  have hlength : (BitVec.ofNat 256 (queue r.ledger).length).toNat = (queue r.ledger).length := by
    rw [BitVec.toNat_ofNat, Nat.mod_eq_of_lt (Nat.lt_trans hsmall (by decide))]
  have hcount : exec (Registry.passedProposalCount (e.context header)) (e.afterRules header r) =
      (.ok _, e.afterReads header r 0) :=
    Registry.exec_passedProposalCount (hlength.symm ▸ hsmall) (G.rules_keep ▸ G.count)
  have hread := (Step.exec_bind_of_ok hcount).symm.trans h
  rw [hlength, UInt32.toNat_ofNat_of_lt' hsmall] at hread
  exact G.exec_readFrom_ok (G.count_keeps.trans G.rules_keep) (Nat.zero_add _) hread

theorem findsQueue {next : Option (List Address)} {found : List Proposal}
    (hsmall : (queue r.ledger).length < 2 ^ 32) (h : e.FindsQueue header r next found q) :
    found = queue r.ledger ∧ queue q.ledger = queue r.ledger := by
  obtain ⟨q₁, hrules, hread⟩ := h
  obtain rfl : e.afterRules header r = q₁ := congrArg Prod.snd hrules
  exact G.exec_passedProposals_ok hsmall hread

-- ---------------------------------------------------------------------------
-- Proposal by proposal
-- ---------------------------------------------------------------------------

section
variable {account : Address} {blockHash : Hash} {p : Proposal} {tx : Transaction} {q' : Run}

omit G in
variable (account blockHash tx) in
theorem executed_messages (ctx : BlockContext) (hsite : ctx.site = .block) :
    (Engine.executed ctx account blockHash p tx q).messages = q.messages ++ p.messages := by
  unfold Engine.executed Engine.carried Proposal.messages
  cases p.kind with
  | call => exact BlockContext.afterCall_messages hsite _ _
  | erase | unsupported _ => exact (List.append_nil _).symm

theorem settle_ok (hcomes : e.ComesTo header r r' account p tx q)
    (hids : ((queue q.ledger).map (·.id)).Nodup) (hp : p ∈ queue q.ledger)
    (h : exec (Engine.settle (e.context header) account blockHash p tx) q = (.ok (), q')) :
    (queue q.ledger).Perm (p :: queue q'.ledger) ∧
      q'.messages = q.messages ++ (p.messages ++ [finishMessage header.coinbase p.id]) := by
  rw [Engine.exec_settle, Step.exec_mapError_ok] at h
  obtain ⟨hreply, rfl⟩ := Registry.exec_finishProposal_ok h
  have hkept := G.perform_keeps hcomes hp
  have hperm := G.finish hcomes (hkept.symm ▸ hids) (hkept.symm ▸ hp) hreply
  refine ⟨hkept ▸ hperm, ?_⟩
  rw [BlockContext.afterCall_messages rfl, ← List.append_assoc,
    ← executed_messages account blockHash tx (e.context header) rfl]
  rfl

theorem settleAll_ok {work : List (Proposal × Transaction)}
    (hcomes : ∀ done p tx rest q₁, work = done ++ (p, tx) :: rest →
      exec (Engine.settleAll (e.context header) account blockHash done) q = (.ok (), q₁) →
      exec (Engine.settleAll (e.context header) account blockHash ((p, tx) :: rest)) q₁ =
        (.ok (), r') → e.ComesTo header r r' account p tx q₁)
    (hids : ((queue q.ledger).map (·.id)).Nodup)
    (hwork : (queue q.ledger).Perm (work.map Prod.fst))
    (h : exec (Engine.settleAll (e.context header) account blockHash work) q = (.ok (), r')) :
    queue r'.ledger = [] ∧
      r'.messages = q.messages ++ (work.map Prod.fst).flatMap fun p =>
        p.messages ++ [finishMessage header.coinbase p.id] := by
  induction work generalizing q with
  | nil =>
    cases h
    exact ⟨hwork.eq_nil, (List.append_nil _).symm⟩
  | cons w work ih =>
    obtain ⟨q₁, hhead, htail⟩ := Engine.exec_settleAll_cons.mp h
    have hw : w.1 ∈ queue q.ledger := hwork.mem_iff.mpr List.mem_cons_self
    obtain ⟨hperm, hmessages⟩ := G.settle_ok (hcomes [] w.1 w.2 work q rfl rfl h) hids hw hhead
    -- what is left of the queue stays a permutation of what is left of the work
    have hrest : (queue q₁.ledger).Perm (work.map Prod.fst) :=
      (hperm.symm.trans hwork).cons_inv
    have hids' : ((queue q₁.ledger).map (·.id)).Nodup :=
      (List.nodup_cons.mp ((hperm.map (·.id)).nodup_iff.mp hids)).2
    have hlater : ∀ done p tx rest q₂, work = done ++ (p, tx) :: rest →
        exec (Engine.settleAll (e.context header) account blockHash done) q₁ = (.ok (), q₂) →
        exec (Engine.settleAll (e.context header) account blockHash ((p, tx) :: rest)) q₂ =
          (.ok (), r') → e.ComesTo header r r' account p tx q₂ :=
      fun done p tx rest q₂ hsplit hdone =>
        hcomes (w :: done) p tx rest q₂ (congrArg (w :: ·) hsplit)
          (Engine.exec_settleAll_cons.mpr ⟨q₁, hhead, hdone⟩)
    obtain ⟨hempty, hall⟩ := ih hlater hids' hrest htail
    refine ⟨hempty, ?_⟩
    rw [hall, hmessages, List.map_cons, List.flatMap_cons, List.append_assoc]

end

end QueueContract

-- ---------------------------------------------------------------------------
-- Blocks
-- ---------------------------------------------------------------------------

namespace Engine

/-- The proposals are all that is executed after the block rules: one after the other, each
once, each as a transaction of its own, and each taken off the queue before the next. -/
def Settles (e : Engine) (header : Header) (proposals : List Proposal) (r r' : Run) : Prop :=
  ∃ next q account blockHash txs,
    e.FindsQueue header r next proposals q ∧ txs.length = proposals.length ∧
    exec (settleAll (e.context header) account blockHash (proposals.zip txs)) q = (.ok (), r') ∧
    r'.body.txs = r.body.txs ++ txs ∧
    r'.messages = q.messages ++ proposals.flatMap fun p =>
      p.messages ++ [finishMessage header.coinbase p.id]

variable {e : Engine} {header : Header} {r r' : Run}

theorem Ends.settleAll (h : e.Ends header r r') :
    ∃ next found q account blockHash txs,
      e.FindsQueue header r next found q ∧ txs.length = found.length ∧
      exec (settleAll (e.context header) account blockHash (found.zip txs)) q = (.ok (), r') := by
  cases h with
  | produced h =>
    obtain ⟨next, found, q, hfinds, hexecute, -⟩ := exec_assemble_ok.mp h
    obtain ⟨account, txs, hlength, -, -, hsettle⟩ := exec_executeAll_ok hexecute
    exact ⟨next, found, q, account, 0, txs, hfinds, hlength, hsettle⟩
  | accepted h =>
    obtain ⟨next, found, q, hfinds, -, hlength, -, hsettle⟩ := exec_finalize_ok.mp h
    exact ⟨next, found, q, header.coinbase, header.hash, _, hfinds, hlength.symm, hsettle⟩

end Engine

section
variable {queue : Ledger → List Proposal}

variable (queue) in
/-- A block that ends well, on a governance contract with a queue of distinct proposals. -/
structure BlockRun where
  engine : Engine
  header : Header
  start : Run
  stop : Run
  contract : QueueContract engine header queue start stop
  small : (queue start.ledger).length < 2 ^ 32
  distinct : ((queue start.ledger).map (·.id)).Nodup
  ends : engine.Ends header start stop

def BlockRun.Settles (b : BlockRun queue) (proposals : List Proposal) : Prop :=
  b.engine.Settles b.header proposals b.start b.stop

theorem BlockRun.settles (b : BlockRun queue) :
    b.Settles (queue b.start.ledger) ∧ queue b.stop.ledger = [] := by
  obtain ⟨next, found, q, account, blockHash, txs, hfinds, hlength, hsettle⟩ := b.ends.settleAll
  obtain ⟨rfl, hkept⟩ := b.contract.findsQueue b.small hfinds
  have hfirst : ((queue b.start.ledger).zip txs).map Prod.fst = queue b.start.ledger :=
    List.map_fst_zip (Nat.le_of_eq hlength.symm)
  obtain ⟨hempty, hmessages⟩ := b.contract.settleAll_ok
    (fun _ _ _ _ _ hsplit hdone hrest => .intro hfinds hlength hsplit hdone hrest)
    (hkept.symm ▸ b.distinct) (by rw [hkept, hfirst]) hsettle
  refine ⟨⟨next, q, account, blockHash, txs, hfinds, hlength, hsettle, ?_, ?_⟩, hempty⟩
  · rw [Engine.settleAll_txs hsettle, hfinds.body, List.map_snd_zip (Nat.le_of_eq hlength)]
  · rw [hmessages, hfirst]

variable (queue) in
/-- Blocks one after the other, each with the proposals that arrived before it: they stand
in its queue behind what the block before left. -/
inductive Chained : List Proposal → List (List Proposal × BlockRun queue) → Prop where
  | nil {left : List Proposal} : Chained left []
  | cons {left arrived : List Proposal} {b : BlockRun queue}
      {rest : List (List Proposal × BlockRun queue)}
      (hstart : queue b.start.ledger = left ++ arrived)
      (hrest : Chained (queue b.stop.ledger) rest) : Chained left ((arrived, b) :: rest)

theorem Chained.settles {history : List (List Proposal × BlockRun queue)}
    (h : Chained queue [] history) : ∀ b ∈ history, b.2.Settles b.1 := by
  induction history with
  | nil => exact fun _ hb => nomatch hb
  | cons first rest ih =>
    obtain ⟨hstart, hrest⟩ : queue first.2.start.ledger = first.1 ∧
        Chained queue (queue first.2.stop.ledger) rest := by
      cases h with
      | cons hstart hrest => exact ⟨hstart, hrest⟩
    rw [first.2.settles.2] at hrest
    intro b hb
    rcases List.mem_cons.mp hb with rfl | hb
    · exact hstart ▸ b.2.settles.1
    · exact ih hrest b hb

/-- Every block settles its queue, each proposal once and in order, and leaves it empty; so
over any run of blocks every proposal is settled once, in the first block after it
arrived. -/
theorem proposals_settled_exactly_once (queue : Ledger → List Proposal) :
    (∀ b : BlockRun queue, b.Settles (queue b.start.ledger) ∧ queue b.stop.ledger = []) ∧
    ∀ history : List (List Proposal × BlockRun queue), Chained queue [] history →
      ∀ b ∈ history, b.2.Settles b.1 :=
  ⟨BlockRun.settles, fun _ h => h.settles⟩

end

-- ---------------------------------------------------------------------------
-- The sample queue
-- ---------------------------------------------------------------------------

namespace SampleQueue

open Abi (Method Token)

theorem numbers_store {l : Ledger} {waiting : Bytes} (hlength : waiting.length ≤ 32)
    (hzero : 0 ∉ waiting) : numbers (store l waiting) = waiting := by
  have hword : Word.ofBytes waiting =
      Word.ofBytes (Bytes.zeros (32 - waiting.length) ++ waiting) := by
    rw [Word.ofBytes, Word.ofBytes, Bytes.toNat_zeros_append]
  have hfull : (Bytes.zeros (32 - waiting.length) ++ waiting).length = 32 := by
    rw [List.length_append, Bytes.length_zeros]
    omega
  rw [numbers, store, Ledger.storageAt_setStorage, hword, Word.bytes_ofBytes hfull,
    List.filter_append, Bytes.zeros, List.filter_replicate_of_neg (by decide), List.nil_append]
  exact List.filter_eq_self.mpr fun b hb => decide_eq_true fun h => hzero (h ▸ hb)

theorem length_numbers (l : Ledger) : (numbers l).length ≤ 32 := by
  rw [← Word.length_bytes (l.storageAt SystemContract.governance.address 0)]
  exact List.length_filter_le ..

theorem zero_not_number (l : Ledger) : 0 ∉ numbers l :=
  fun h => of_decide_eq_true (List.mem_filter.mp h).2 rfl

theorem toNat_id (number : UInt8) : (proposal number).id.toNat = UInt32.size + number.toNat := by
  have hnumber : number.toNat < 256 := number.toNat_lt
  have hsize : UInt32.size = 2 ^ 32 := rfl
  rw [proposal, BitVec.toNat_ofNat, Nat.mod_eq_of_lt (by omega)]

theorem number_of_id (number : UInt8) : UInt8.ofNat (proposal number).id.toNat = number := by
  have hnumber : number.toNat < 256 := number.toNat_lt
  have hsize : UInt32.size = 2 ^ 32 := rfl
  apply UInt8.toNat_inj.mp
  rw [toNat_id, UInt8.toNat_ofNat']
  omega

theorem queue_takeOff {l : Ledger} {number : UInt8} (h : number ∈ numbers l) :
    (queue l).Perm (proposal number :: queue (takeOff l (proposal number).id)) := by
  have hleft : numbers (takeOff l (proposal number).id) = ((numbers l).erase number).reverse := by
    rw [takeOff, number_of_id]
    apply numbers_store
    · rw [List.length_reverse]
      exact (List.erase_sublist.length_le).trans (length_numbers l)
    · exact fun hzero => zero_not_number l (List.mem_of_mem_erase (List.mem_reverse.mp hzero))
  rw [queue, queue, hleft, ← List.map_cons]
  exact ((List.perm_cons_erase h).trans ((List.reverse_perm _).symm.cons _)).map _

theorem queue_congr {l l' : Ledger} (h : l'.storageAt SystemContract.governance.address 0 =
    l.storageAt SystemContract.governance.address 0) : queue l' = queue l := by
  rw [queue, queue, numbers, numbers, h]

-- ---------------------------------------------------------------------------
-- Calls of the sample queue
-- ---------------------------------------------------------------------------

def callData (m : Method) (args : List Token) : Bytes :=
  m.selector ++ Abi.encode args

theorem argument_callData (m : Method) (v : Word) : argument (callData m [.uint v]) = v := by
  rw [argument, callData, List.drop_left' (Abi.Method.length_selector m), Abi.encode_uint,
    Word.ofBytes_bytes]

theorem length_callData (m : Method) (v : Word) : (callData m [.uint v]).length = 36 := by
  rw [callData, List.length_append, Abi.Method.length_selector, Abi.encode_uint, Word.length_bytes]

theorem governance_count (l : Ledger) : governance (callData Registry.countMethod []) l =
    (.success (Abi.encode [.uint (BitVec.ofNat 256 (queue l).length)]), l) :=
  if_pos rfl

theorem small_index {l : Ledger} {index : Nat} {p : Proposal} (h : (queue l)[index]? = some p) :
    (BitVec.ofNat 256 (UInt32.ofNat index).toNat).toNat = index ∧ index < UInt32.size := by
  obtain ⟨hindex, -⟩ := List.getElem?_eq_some_iff.mp h
  rw [queue, List.length_map] at hindex
  have hlength := length_numbers l
  have hsize : UInt32.size = 2 ^ 32 := rfl
  rw [UInt32.toNat_ofNat_of_lt' (show index < UInt32.size by omega), BitVec.toNat_ofNat]
  omega

theorem governance_entry {l : Ledger} {index : Nat} {p : Proposal}
    (h : (queue l)[index]? = some p) :
    governance (callData Registry.entryMethod [Registry.indexToken (UInt32.ofNat index)]) l =
      (.success (Abi.encode (entryTokens p)), l) := by
  obtain ⟨hplace, hsmall⟩ := small_index h
  rw [Registry.indexToken, governance, if_neg (by rw [length_callData]; decide), argument_callData,
    hplace, if_pos hsmall, h]
  rfl

theorem governance_finish (m : Method) {v : Word} (hv : ¬ v.toNat < UInt32.size) (l : Ledger) :
    governance (callData m [.uint v]) l = (.success [], takeOff l v) := by
  rw [governance, if_neg (by rw [length_callData]; decide), argument_callData, if_neg hv]

section
variable (m : Method) (args : List Token) (l : Ledger)

theorem call_governance (chain : ChainReader) (config : ChainConfig) (h : Header) :
    vm.call chain config h (Registry.governanceMessage producer m args) l =
      governance (callData m args) l := by
  have hproducer : (Registry.governanceMessage producer m args).callee =
      some SystemContract.governance.address ∧
      (Registry.governanceMessage producer m args).sender = producer := ⟨rfl, rfl⟩
  simp only [vm, hproducer, and_self, if_true]
  rfl

theorem reply_governance : (engine.context header).reply
    (Registry.governanceMessage producer m args) l = (governance (callData m args) l).1 :=
  congrArg Prod.fst (call_governance m args l _ _ _)

theorem queue_governance : queue ((engine.context header).ledgerAfter
    (Registry.governanceMessage producer m args) l) = queue (governance (callData m args) l).2 := by
  change queue ((vm.call _ _ _ _ l).2.finalise true) = _
  rw [call_governance]
  rfl

theorem queue_other {m : Message}
    (h : ¬ (m.callee = some SystemContract.governance.address ∧ m.sender = producer)) :
    queue ((engine.context header).ledgerAfter m l) = queue l := by
  change queue ((vm.call _ _ _ m l).2.finalise true) = _
  simp only [vm, h, if_false]
  rfl

end

theorem queue_prepare (l : Ledger) (txHash : Hash) (index : UInt32) :
    queue (l.prepare txHash index) = queue l :=
  queue_congr rfl

theorem queue_performed {account : Address} {p : Proposal} {tx : Transaction} {q : Run}
    (hp : p ∈ queue q.ledger) :
    queue ((engine.context header).performed account p tx q) = queue q.ledger := by
  have hcounted : queue (Engine.counted account q).ledger = queue q.ledger :=
    queue_congr (Ledger.storageAt_setNonce _ _ _ _ _)
  have htarget : p.target = 0 := by
    obtain ⟨number, -, rfl⟩ := List.mem_map.mp hp
    rfl
  unfold BlockContext.performed Engine.carried
  rw [queue_prepare, ← hcounted]
  cases p.kind with
  | call =>
    refine (queue_other _ fun h => ?_).trans (queue_prepare _ _ _)
    have hcallee : some p.target = some SystemContract.governance.address := h.1
    rw [htarget] at hcallee
    exact absurd hcallee (by decide)
  | erase =>
    rw [htarget]
    exact queue_congr rfl
  | unsupported code => exact queue_prepare _ _ _

theorem afterRules_queue (r : Run) :
    queue (engine.afterRules header r).ledger = queue r.ledger := by
  refine Engine.afterRules_queue (fun l _ _ _ _ _ _ _ => queue_other l fun h => ?_)
    (fun l a balance => queue_congr (Ledger.storageAt_setBalance _ _ _ _ _)) r
  exact absurd (show Address.engineCaller = producer from h.2) (by decide)

theorem queueContract (r r' : Run) : QueueContract engine header queue r r' where
  rules_keep := afterRules_queue r
  count := by
    have hreply := reply_governance Registry.countMethod [] (engine.afterRules header r).ledger
    rwa [governance_count] at hreply
  count_keeps := by
    have hafter := queue_governance Registry.countMethod [] (engine.afterRules header r).ledger
    rwa [governance_count] at hafter
  entry {index p} hp := by
    have hreply := reply_governance Registry.entryMethod [Registry.indexToken (UInt32.ofNat index)]
      (engine.afterReads header r index).ledger
    rw [governance_entry hp] at hreply
    obtain ⟨number, -, rfl⟩ := List.mem_map.mp (List.mem_of_getElem? hp)
    exact ⟨Nat.two_pow_pos 256, hreply⟩
  entry_keeps {index p} hp := by
    have hafter := queue_governance Registry.entryMethod [Registry.indexToken (UInt32.ofNat index)]
      (engine.afterReads header r index).ledger
    rw [governance_entry hp] at hafter
    rw [Engine.afterReads_succ]
    exact hafter
  perform_keeps _ hp := queue_performed hp
  finish {account p tx q} _ _ hp _ := by
    let l := (engine.context header).performed account p tx q
    obtain ⟨number, hnumber, rfl⟩ := List.mem_map.mp hp
    have hafter := queue_governance Registry.finishMethod [.uint (proposal number).id] l
    rw [governance_finish _ (by rw [toNat_id]; omega)] at hafter
    have hperm := queue_takeOff hnumber
    rw [show queue (takeOff l (proposal number).id) = _ from hafter.symm] at hperm
    exact hperm

theorem exec_assemble_start : exec (engine.assemble header) (start [1, 2, 3]) =
    (.ok header, (exec (engine.assemble header) (start [1, 2, 3])).2) :=
  Step.exec_of_toOption (by decide +kernel)

theorem exec_finalize_start :
    exec (engine.finalize header ([4, 5].map transaction)) (start [4, 5]) =
      (.ok (), (exec (engine.finalize header ([4, 5].map transaction)) (start [4, 5])).2) :=
  Step.exec_of_toOption (by decide +kernel)

def produced : BlockRun queue where
  engine := engine
  header := header
  start := start [1, 2, 3]
  stop := (exec (engine.assemble header) (start [1, 2, 3])).2
  contract := queueContract _ _
  small := by decide +kernel
  distinct := by decide +kernel
  ends := .produced exec_assemble_start

def accepted : BlockRun queue where
  engine := engine
  header := header
  start := start [4, 5]
  stop := (exec (engine.finalize header ([4, 5].map transaction)) (start [4, 5])).2
  contract := queueContract _ _
  small := by decide +kernel
  distinct := by decide +kernel
  ends := .accepted exec_finalize_start

end SampleQueue

open SampleQueue in
/-- Two sample blocks, of which one is produced and the other accepted, settle their proposals in
the order in which they stood at first, though taking the first one off turns the rest round. -/
theorem sample_proposals_settled :
    produced.Settles ([1, 2, 3].map proposal) ∧ accepted.Settles ([4, 5].map proposal) ∧
      queue (takeOff produced.start.ledger (proposal 1).id) = [3, 2].map proposal := by
  have hfirst : queue produced.start.ledger = [] ++ [1, 2, 3].map proposal := by decide +kernel
  have hsecond : queue accepted.start.ledger =
      queue produced.stop.ledger ++ [4, 5].map proposal := by
    rw [produced.settles.2]
    decide +kernel
  have hhistory : Chained queue [] [([1, 2, 3].map proposal, produced),
      ([4, 5].map proposal, accepted)] := .cons hfirst (.cons hsecond .nil)
  obtain ⟨-, hall⟩ := proposals_settled_exactly_once queue
  exact ⟨hall _ hhistory _ List.mem_cons_self,
    hall _ hhistory _ (List.mem_cons_of_mem _ List.mem_cons_self), by decide +kernel⟩

end StakeGov
