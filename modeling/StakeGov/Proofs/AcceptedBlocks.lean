import StakeGov.InMemory.SampleBlocks
import StakeGov.Proofs.BlockEnds
import StakeGov.Proofs.CanonicalForms
import StakeGov.Proofs.ExtraData

/-!
# What a validating node accepts

A block is accepted only with one transaction for each proposal of the node's own queue,
in the order of the queue, signed by the producer and carrying the very bytes of the
proposal's form. Otherwise it is refused at the first transaction that does not stand
for its proposal, after those before it were settled and before anything is done for it
(`finalize_accepts_exactly`).
-/

namespace StakeGov.Engine

open Step (exec)

variable {e : Engine} {header : Header} {r r' : Run} {queue : List Proposal}
variable {txs : List Transaction}

theorem data_of_accepts {coinbase : Address} (hlength : queue.length = txs.length)
    (h : ∀ w ∈ queue.zip txs, e.Accepts coinbase w.1 w.2) :
    txs.map (·.data) = queue.map write := by
  have htxs : (queue.zip txs).map Prod.snd = txs := List.map_snd_zip (Nat.le_of_eq hlength.symm)
  have hqueue : (queue.zip txs).map Prod.fst = queue := List.map_fst_zip (Nat.le_of_eq hlength)
  calc txs.map (·.data) = (queue.zip txs).map fun w => w.2.data := by
        rw [← htxs, List.map_map, htxs]
        rfl
    _ = (queue.zip txs).map fun w => write w.1 :=
        List.map_congr_left fun w hw => (write_of_ofCanonical (h w hw).payload).symm
    _ = queue.map write := by
        rw [← hqueue, List.map_map, hqueue]
        rfl

theorem sender_of_accepts {coinbase : Address} (hlength : queue.length = txs.length)
    (h : ∀ w ∈ queue.zip txs, e.Accepts coinbase w.1 w.2) :
    ∀ tx ∈ txs, e.sender tx e.config.chainId = .ok coinbase := by
  intro tx htx
  have htxs : (queue.zip txs).map Prod.snd = txs := List.map_snd_zip (Nat.le_of_eq hlength.symm)
  rw [← htxs] at htx
  obtain ⟨w, hw, rfl⟩ := List.mem_map.mp htx
  exact (h w hw).sender

theorem ranked_of_announced {next : Option (List Address)} {q : Run}
    (hfinds : e.FindsQueue header r next queue q) (hannounced : Announced header next)
    (hepoch : e.AtEpochEnd header.number) :
    ∃ ranked, e.Candidates header ranked ∧
      ExtraData.validators header.extra = sortAddresses ranked := by
  rcases hfinds.candidates with ⟨-, ranked, hranked, rfl⟩ | ⟨hnot, -⟩
  · exact ⟨ranked, hranked, hannounced _ rfl⟩
  · exact absurd hepoch hnot

theorem exec_replayAll_of_objection {ctx : BlockContext} {done rest : List (Proposal × Transaction)}
    {p : Proposal} {tx : Transaction} {fault : ValidationError}
    (hdone : ∀ w ∈ done, e.Accepts ctx.header.coinbase w.1 w.2)
    (hsettle : exec (settleAll ctx ctx.header.coinbase ctx.header.hash done) r = (.ok (), r'))
    (hfault : e.Objection ctx.header.coinbase p tx fault) :
    exec ((done ++ (p, tx) :: rest).forM fun (p, tx) => e.replayNext ctx p tx) r =
      (.error (.validation fault), r') := by
  rw [Step.exec_forM_append (exec_replayAll_ok.mpr ⟨hdone, hsettle⟩)]
  exact Step.exec_forM_cons_error (exec_replayNext_of_objection hfault)

/-- What is accepted, what is refused and with what error. A payload is wrong if it is not
read as the proposal: below 2^64 bytes, if it is not the proposal's form. -/
theorem finalize_accepts_exactly (e : Engine) (header : Header) (txs : List Transaction)
    (r : Run) :
    (∀ r', exec (e.finalize header txs) r = (.ok (), r') →
      ∃ next queue q, e.FindsQueue header r next queue q ∧ txs.length = queue.length ∧
        txs.map (·.data) = queue.map write ∧
        (∀ tx ∈ txs, e.sender tx e.config.chainId = .ok header.coinbase) ∧
        (e.AtEpochEnd header.number → ∃ ranked, e.Candidates header ranked ∧
          (ExtraData.validators header.extra).Perm ranked ∧
          (ExtraData.validators header.extra).Pairwise fun a b => a.toNat ≤ b.toNat)) ∧
    (∀ next done p rest q done' tx rest' fault q',
      e.FindsQueue header r next (done ++ p :: rest) q → Announced header next →
      txs = done' ++ tx :: rest' → done.length = done'.length → rest.length = rest'.length →
      (∀ w ∈ done.zip done', e.Accepts header.coinbase w.1 w.2) →
      exec (settleAll (e.context header) header.coinbase header.hash (done.zip done')) q =
        (.ok (), q') →
      e.Objection header.coinbase p tx fault →
      exec (e.finalize header txs) r = (.error (.validation fault), q') ∧
        q'.body.txs = r.body.txs ++ done') ∧
    (∀ (p : Proposal) (tx : Transaction), (write p).length < 2 ^ 64 →
      (ofCanonical Proposal tx.data = .ok p ↔ tx.data = write p)) := by
  refine ⟨?accepted, ?refused, fun p tx h => Proposal.ofCanonical_iff h tx.data⟩
  case accepted =>
    intro r' h
    obtain ⟨next, queue, q, hfinds, hannounced, hlength, haccepts, -⟩ := exec_finalize_ok.mp h
    refine ⟨next, queue, q, hfinds, hlength.symm, data_of_accepts hlength haccepts,
      sender_of_accepts hlength haccepts, fun hepoch => ?_⟩
    obtain ⟨ranked, hranked, heq⟩ := ranked_of_announced hfinds hannounced hepoch
    rw [heq]
    exact ⟨ranked, hranked, sortAddresses_perm ranked, sortAddresses_ascending ranked⟩
  case refused =>
    rintro next done p rest q done' tx rest' fault q' hfinds hannounced rfl hdone hrest haccepts
      hsettle hfault
    have hlength : (done ++ p :: rest).length = (done' ++ tx :: rest').length := by
      simp only [List.length_append, List.length_cons, hdone, hrest]
    refine ⟨?_, ?_⟩
    · rw [exec_finalize hfinds hannounced hlength, List.zip_append hdone, List.zip_cons_cons]
      exact exec_replayAll_of_objection haccepts hsettle hfault
    · rw [settleAll_txs hsettle, hfinds.body, List.map_snd_zip (Nat.le_of_eq hdone.symm)]

open SampleBlock in
set_option maxRecDepth 100000 in
/-- With both of its transactions the sample block is accepted, and refused for a payload
that is cut off in the second. -/
theorem sample_transactions_accepted_exactly :
    (∃ r' queue, exec (engine.finalize sealed [transaction, transaction]) start = (.ok (), r') ∧
      [transaction.data, transaction.data] = List.map write (queue : List Proposal)) ∧
    ∃ fault q',
      exec (engine.finalize sealed [transaction, { transaction with data := [1] }]) start =
        (.error (.validation fault), q') ∧ q'.body.txs = [transaction] := by
  have haccepted : exec (engine.finalize sealed [transaction, transaction]) start = (.ok (), _) :=
    Step.exec_of_toOption (by decide +kernel)
  have hrules : exec (engine.blockRules (engine.context sealed)) start =
      (.ok (some [candidate]), _) := Step.exec_of_toOption (by decide +kernel)
  have hread : ∀ q, exec (Registry.passedProposals (engine.context sealed)) q =
      (.ok [proposal, proposal], (exec (Registry.passedProposals (engine.context sealed)) q).2) :=
    fun _ => Prod.ext rfl rfl
  have hannounced : Announced sealed (some [candidate]) := by
    rintro list ⟨⟩
    decide +kernel
  have hproducer : ∀ tx, tx.signature = transaction.signature →
      engine.sender tx engine.config.chainId = .ok sealed.coinbase := by
    intro tx htx
    change PlainSigning.sender tx 1 = _
    rw [PlainSigning.sender, htx]
    rfl
  have hpayload : ofCanonical Proposal transaction.data = .ok proposal :=
    Proposal.ofCanonical_write (by decide +kernel)
  have hfault : engine.Objection sealed.coinbase proposal { transaction with data := [1] } _ :=
    .payload (hproducer _ rfl) fun h => by
      have hform := write_of_ofCanonical h
      revert hform
      decide +kernel
  have hsettle : ∀ q, exec (settleAll (engine.context sealed) sealed.coinbase sealed.hash
      [(proposal, transaction)]) q = (.ok (), (exec (settleAll (engine.context sealed)
        sealed.coinbase sealed.hash [(proposal, transaction)]) q).2) := fun _ => Prod.ext rfl rfl
  obtain ⟨hsound, -⟩ := finalize_accepts_exactly engine sealed [transaction, transaction] start
  obtain ⟨next, queue, q, -, -, hdata, -⟩ := hsound _ haccepted
  obtain ⟨-, hprecise, -⟩ := finalize_accepts_exactly engine sealed
    [transaction, { transaction with data := [1] }] start
  obtain ⟨hrefused, htxs⟩ := hprecise _ [proposal] proposal [] _ [transaction] _ [] _ _
    ⟨_, hrules, hread _⟩ hannounced rfl rfl rfl
    (fun w hw => by
      obtain rfl := List.mem_singleton.mp hw
      exact ⟨hproducer _ rfl, hpayload⟩) (hsettle _) hfault
  exact ⟨⟨_, queue, haccepted, hdata⟩, _, _, hrefused, htxs⟩

end StakeGov.Engine
