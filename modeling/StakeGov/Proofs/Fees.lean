import StakeGov.InMemory.SamplePolicies
import StakeGov.Proofs.BlockScript

/-!
# Fees

Fees gather on an account of their own, and `sendReward` hands all that is there to the
validators' contract: they move to the engine (`Ledger.paidOut`), which passes them on in one
message. A message that fails is not taken back. So over a whole run what was passed on and
what is left make up what was there and what came in, as long as that fits into a word
(`FeeRun.conserves`).
-/

namespace StakeGov

open Address (engineCaller feeRecorder)
open Abi (Method)
open Step (exec)

-- ---------------------------------------------------------------------------
-- Moving the fees
-- ---------------------------------------------------------------------------

namespace Ledger

/-- The second ledger is the first after a fee moved from the recorder to the engine. -/
structure Collects (l : Ledger) (fee : Word) (l' : Ledger) : Prop where
  emptied : l'.balance feeRecorder = 0
  raised : (l.balance engineCaller).toNat + fee.toNat < 2 ^ 256 →
    (l'.balance engineCaller).toNat = (l.balance engineCaller).toNat + fee.toNat
  /-- Nonce, code and storage of every account are those from before. -/
  rest : ∀ a, l'.account a = { l.account a with balance := l'.balance a }
  others : ∀ a, a ≠ engineCaller → a ≠ feeRecorder → l'.accounts a = l.accounts a
  logs : l'.logs = l.logs
  finalised : l'.finalised = l.finalised
  txHash : l'.txHash = l.txHash
  txIndex : l'.txIndex = l.txIndex

def paidOut (l : Ledger) : Ledger :=
  (l.addBalance engineCaller (l.balance feeRecorder)).setBalance feeRecorder 0

theorem collects_paidOut (l : Ledger) : l.Collects (l.balance feeRecorder) l.paidOut where
  emptied := (balance_setBalance _ _ _ _).trans (if_pos rfl)
  raised h := by
    have hne : engineCaller ≠ feeRecorder := by decide
    rw [paidOut, balance_setBalance, if_neg hne, addBalance, balance_setBalance, if_pos rfl,
      Word.toNat_addSaturating h]
  rest a := by
    rw [paidOut, account_setBalance, addBalance, account_setBalance]
  others a hcaller hrecorder :=
    (accounts_setBalance _ _ hrecorder).trans (accounts_setBalance _ _ hcaller)
  logs := rfl
  finalised := rfl
  txHash := rfl
  txIndex := rfl

end Ledger

-- ---------------------------------------------------------------------------
-- One call
-- ---------------------------------------------------------------------------

namespace Registry

def rewardMethod : Method := ⟨"distributeBlockReward", [], []⟩

def rewardMessage (fee : Word) : Message :=
  BlockContext.callMessage engineCaller SystemContract.validators.address
    (rewardMethod.selector ++ Abi.encode []) fee

theorem pack_reward :
    SystemContract.validators.pack rewardMethod.name [] =
      .ok (rewardMethod.selector ++ Abi.encode []) :=
  SystemContract.pack_ok rfl rfl rfl

theorem distributeReward_run (ctx : BlockContext) (fee : Word) (r : Run) :
    (exec (distributeReward ctx fee) r).2 = ctx.afterCall (rewardMessage fee) r :=
  (Step.exec_drop_run _ r).trans (congrArg Prod.snd (ctx.exec_callMethod pack_reward))

def IsReward (m : Message) : Prop :=
  m.callee = some SystemContract.validators.address ∧ m.data.take 4 = rewardMethod.selector

instance : DecidablePred IsReward :=
  fun _ => inferInstanceAs (Decidable (_ ∧ _))

theorem rewardMessage_eq (fee : Word) :
    rewardMessage fee = BlockContext.callMessage engineCaller SystemContract.validators.address
      (Abi.selectorOf "distributeBlockReward()") fee := by
  have hselector : rewardMethod.selector = Abi.selectorOf "distributeBlockReward()" := rfl
  rw [rewardMessage, hselector, show Abi.encode [] = [] from rfl, List.append_nil]

theorem isReward_rewardMessage (fee : Word) : IsReward (rewardMessage fee) :=
  ⟨rfl, List.take_left' rewardMethod.length_selector⟩

end Registry

open Registry (IsReward rewardMessage)

namespace Engine

theorem sendReward_empty (ctx : BlockContext) {r : Run}
    (h : r.ledger.balance feeRecorder = 0) : exec (sendReward ctx) r = (.ok (), r) := by
  unfold sendReward
  rw [Step.exec_bind_of_ok (Step.exec_ledger r)]
  dsimp only
  rw [if_pos h]
  rfl

theorem sendReward_run (ctx : BlockContext) {r : Run} (h : r.ledger.balance feeRecorder ≠ 0) :
    (exec (sendReward ctx) r).2 = ctx.afterCall (rewardMessage (r.ledger.balance feeRecorder))
      { r with ledger := r.ledger.paidOut } := by
  unfold sendReward
  rw [Step.exec_bind_of_ok (Step.exec_ledger r)]
  dsimp only
  rw [if_neg h, Step.exec_bind_of_ok (Step.exec_modifyLedger _ _),
    Step.exec_bind_of_ok (Step.exec_modifyLedger _ _), Step.exec_mapError]
  exact Registry.distributeReward_run ctx _ _

end Engine

-- ---------------------------------------------------------------------------
-- A run of calls and credits
-- ---------------------------------------------------------------------------

def Word.total : List Word → Nat
  | [] => 0
  | amount :: later => amount.toNat + total later

open Word (total)

theorem Word.total_append (amounts later : List Word) :
    total (amounts ++ later) = total amounts + total later := by
  induction amounts with
  | nil => simp [total]
  | cons amount amounts ih => simp [total, ih, Nat.add_assoc]

def Run.fees (r : Run) : Nat :=
  (r.ledger.balance feeRecorder).toNat

/-- The rewards passed on so far, be it in vain. -/
def Run.rewards (r : Run) : List Word :=
  ((r.calls.map Prod.snd).filter IsReward).map (·.value)

theorem BlockContext.rewards_afterCall (ctx : BlockContext) {m : Message} (h : IsReward m)
    (r : Run) : (ctx.afterCall m r).rewards = r.rewards ++ [m.value] := by
  simp [Run.rewards, calls_afterCall, h]

def BlockContext.Spares (ctx : BlockContext) (m : Message) (l : Ledger) : Prop :=
  (ctx.ledgerAfter m l).balance feeRecorder = l.balance feeRecorder

/-- One step of a run in which fees come in and are handed out, with what comes in. Each call
is for a block of its own, and its message may end in any way. -/
inductive FeeStep : List Word → Run → Run → Prop
  | credit (amount : Word) (r : Run) :
    FeeStep [amount] r { r with ledger := r.ledger.addBalance feeRecorder amount }
  | reward {ctx : BlockContext} {r : Run}
      (hspares : r.ledger.balance feeRecorder ≠ 0 →
        ctx.Spares (rewardMessage (r.ledger.balance feeRecorder)) r.ledger.paidOut) :
    FeeStep [] r (exec (Engine.sendReward ctx) r).2
  | other {r q : Run} (hbalance : q.ledger.balance feeRecorder = r.ledger.balance feeRecorder)
      (hrewards : q.rewards = r.rewards) : FeeStep [] r q

inductive FeeRun : List Word → Run → Run → Prop
  | nil (r : Run) : FeeRun [] r r
  | cons {credits later : List Word} {r q q' : Run} (h : FeeStep credits r q)
      (hrest : FeeRun later q q') : FeeRun (credits ++ later) r q'

theorem FeeStep.conserves {credits : List Word} {r q : Run} (h : FeeStep credits r q)
    (hfits : r.fees + total credits < 2 ^ 256) :
    ∃ paid, q.rewards = r.rewards ++ paid ∧ total paid + q.fees = r.fees + total credits := by
  cases h with
  | credit amount =>
    refine ⟨[], (List.append_nil _).symm, ?_⟩
    have hamount : total [amount] = amount.toNat := by simp [total]
    rw [hamount] at hfits ⊢
    simp only [total, Run.fees, Ledger.addBalance, Ledger.balance_setBalance, if_pos,
      Word.toNat_addSaturating hfits]
    simp
  | @reward ctx _ hspares =>
    by_cases hempty : r.ledger.balance feeRecorder = 0
    · rw [Engine.sendReward_empty ctx hempty]
      exact ⟨[], (List.append_nil _).symm, by simp [total]⟩
    · have hleft : (exec (Engine.sendReward ctx) r).2.fees = 0 := by
        have hspared := hspares hempty
        rw [Engine.sendReward_run ctx hempty, Run.fees, BlockContext.afterCall_ledger, hspared,
          r.ledger.collects_paidOut.emptied]
        rfl
      refine ⟨[r.ledger.balance feeRecorder], ?_, ?_⟩
      · rw [Engine.sendReward_run ctx hempty,
          ctx.rewards_afterCall (Registry.isReward_rewardMessage _)]
        rfl
      · rw [hleft]
        simp [total, Run.fees]
  | other hbalance hrewards =>
    exact ⟨[], by simp [hrewards], by simp [total, Run.fees, hbalance]⟩

theorem FeeRun.conserves {credits : List Word} {r q : Run} (h : FeeRun credits r q)
    (hfits : r.fees + total credits < 2 ^ 256) :
    ∃ paid, q.rewards = r.rewards ++ paid ∧ total paid + q.fees = r.fees + total credits := by
  induction h with
  | nil r => exact ⟨[], (List.append_nil _).symm, by simp [total]⟩
  | cons h hrest ih =>
    rw [Word.total_append] at hfits ⊢
    obtain ⟨paid, hpaid, hstep⟩ := h.conserves (by omega)
    obtain ⟨paid', hpaid', hrun⟩ := ih (by omega)
    refine ⟨paid ++ paid', by rw [hpaid', hpaid, List.append_assoc], ?_⟩
    rw [Word.total_append]
    omega

/-- A call on no fees does nothing. Any other passes all of them on in one message, after they
moved to the engine and nothing else changed. Over a run of such calls, between which fees
come in, and in which nothing else touches them, what was passed on and what is left is what
was there and what came in. -/
theorem fees_conserved :
    (∀ (ctx : BlockContext) (r : Run),
      (r.ledger.balance feeRecorder = 0 → exec (Engine.sendReward ctx) r = (.ok (), r)) ∧
      (r.ledger.balance feeRecorder ≠ 0 → ∃ l,
        r.ledger.Collects (r.ledger.balance feeRecorder) l ∧
        (exec (Engine.sendReward ctx) r).2 = ctx.afterCall
          (BlockContext.callMessage engineCaller SystemContract.validators.address
            (Abi.selectorOf "distributeBlockReward()") (r.ledger.balance feeRecorder))
          { r with ledger := l })) ∧
    (∀ (credits : List Word) (r q : Run), FeeRun credits r q →
      r.fees + total credits < 2 ^ 256 →
      ∃ paid, q.rewards = r.rewards ++ paid ∧ total paid + q.fees = r.fees + total credits) := by
  refine ⟨fun ctx r => ⟨Engine.sendReward_empty ctx, fun h => ?_⟩, fun _ _ _ h => h.conserves⟩
  refine ⟨r.ledger.paidOut, r.ledger.collects_paidOut, ?_⟩
  rw [Engine.sendReward_run ctx h, Registry.rewardMessage_eq]

-- ---------------------------------------------------------------------------
-- A contract that takes one reward
-- ---------------------------------------------------------------------------

namespace SampleFees

def context : BlockContext :=
  (SampleAnswers.engine [[]]).context SampleAnswers.header

def start : Run := SampleFirst.start 3

def once : Run := (exec (Engine.sendReward context) start).2

def refilled : Run := { once with ledger := once.ledger.addBalance feeRecorder 5 }

def twice : Run := (exec (Engine.sendReward context) refilled).2

theorem spares (m : Message) (l : Ledger) : context.Spares m l := by
  change (context.vm.call _ _ _ m l).2.balance feeRecorder = l.balance feeRecorder
  unfold context SampleAnswers.engine SampleAnswers.vm
  dsimp only [Engine.context]
  split <;> rfl

theorem run : FeeRun [5] start twice :=
  .cons (.reward fun _ => spares _ _) (.cons (.credit 5 once)
    (.cons (.reward fun _ => spares _ _) (.nil twice)))

end SampleFees

open SampleFees in
/-- The second reward is not taken, but it was passed on like the first and is not sent again. -/
theorem sample_fees_conserved :
    (exec (Engine.sendReward context) refilled).1 =
      .error (.contract (.reverted "internal error")) ∧
    (∃ l, refilled.ledger.Collects 5 l ∧ twice = context.afterCall
      (BlockContext.callMessage engineCaller SystemContract.validators.address
        (Abi.selectorOf "distributeBlockReward()") 5) { refilled with ledger := l }) ∧
    exec (Engine.sendReward context) twice = (.ok (), twice) ∧
    ∃ paid, twice.rewards = paid ∧ total paid + twice.fees = 8 := by
  obtain ⟨hcalls, hruns⟩ := fees_conserved
  refine ⟨rfl, ?_, (hcalls context twice).1 (by decide +kernel), ?_⟩
  · have hfees : refilled.ledger.balance feeRecorder = 5 := by decide +kernel
    have hsent := (hcalls context refilled).2
    rw [hfees] at hsent
    exact hsent (by decide)
  · exact hruns [5] start twice run (by decide)

end StakeGov
