import StakeGov.InMemory.SampleBlocks
import StakeGov.Proofs.Accessors
import StakeGov.Proofs.Records

/-!
# The block rules as a script

The calls of the block rules are a list that can be written down before the first of them is
made (`Engine.script`), but for the reward, which depends on what the calls before it leave.
The block rules play this list from its start (`Engine.Follows`): they end well just if all
of it was answered, and else with the first call that fails or the first whose check is not
passed (`Engine.block_rules_follow_script`).
-/

namespace StakeGov

open Registry (Accessor)
open Step (exec exec_bind)

/-- The messages sent, each with the kind of ledger it ran on. -/
def Run.calls (r : Run) : List (Site × Message) :=
  r.events.filterMap fun
    | .called site _ m => some (site, m)
    | .finalised .. | .metric _ => none

theorem BlockContext.calls_afterCall (ctx : BlockContext) (m : Message) (r : Run) :
    (ctx.afterCall m r).calls = r.calls ++ [(ctx.site, m)] := by
  rw [Run.calls, events_afterCall, List.filterMap_append]
  rfl

theorem mapError_eq_ok {ε ε' α : Type} {x : Except ε α} {f : ε → ε'} {a : α}
    (h : x.mapError f = .ok a) : x = .ok a := by
  cases x with
  | error cause => cases h
  | ok b =>
    cases h
    rfl

theorem Step.exec_mapError_bind {ε ε' α β : Type} (f : ε → ε') (x : Step ε α) (g : α → Step ε β)
    (r : Run) :
    exec (mapError f (x >>= g)) r = exec (mapError f x >>= fun a => mapError f (g a)) r := by
  rw [exec_mapError, exec_bind, exec_bind, exec_mapError]
  rcases exec x r with ⟨_ | a, q⟩
  · rfl
  · exact (exec_mapError f (g a) q).symm

-- ---------------------------------------------------------------------------
-- Calls as they are made
-- ---------------------------------------------------------------------------

namespace Registry.Accessor

def message (a : Accessor) (header : Header) : Message :=
  BlockContext.callMessage (a.caller header) a.contract.address
    ((a.contract.pack a.name a.args).toOption.getD []) a.value

theorem exec_step_run (a : Accessor) (ctx : BlockContext) (r : Run) :
    (exec (a.step ctx) r).2 = ctx.afterCall (a.message ctx.header) r := by
  obtain ⟨_, ⟨data, hpack, rfl⟩, hrun⟩ := a.sends ctx r
  rw [hrun, message, hpack]
  rfl

def site : Accessor → Site
  | topValidators => .earlier
  | _ => .block

def call (header : Header) (a : Accessor) : Site × Message :=
  (a.site, a.message header)

def plain : Accessor → Bool
  | topValidators | distributeReward _ => false
  | _ => true

theorem site_of_plain {a : Accessor} (h : a.plain) : a.site = .block := by
  cases a <;> first | rfl | cases h

end Registry.Accessor

namespace Engine

/-- The ledger that a call of the block rules runs on, by the one of the block. A reward is
credited before it is handed over. -/
inductive RunsOn (e : Engine) (ctx : BlockContext) (own : Ledger) : Accessor → Ledger → Prop
  | plain {a : Accessor} (h : a.plain) : RunsOn e ctx own a own
  | reward (fee : Word) : RunsOn e ctx own (.distributeReward fee)
      ((own.addBalance Address.engineCaller fee).setBalance Address.feeRecorder 0)
  | candidates {parent : Header} {l : Ledger}
      (hparent : ctx.chain.header ctx.header.parentHash (saturatingPred ctx.header.number) =
        some parent)
      (hledger : e.ledgerAt parent.root = .ok l) : RunsOn e ctx own .topValidators l

/-- A call was made in the course of the block rules, and answered or not. -/
structure Called (e : Engine) (ctx : BlockContext) (a : Accessor) (r q : Run)
    (answer : Except ContractError a.Answer) : Prop where
  calls : q.calls = r.calls ++ [a.call ctx.header]
  ran : ∃ l, RunsOn e ctx r.ledger a l ∧
    (exec (a.step { ctx with site := a.site }) { r with ledger := l }).1 = answer ∧
    q.ledger = match a.site with
      | .block => ctx.ledgerAfter (a.message ctx.header) l
      | .earlier => r.ledger

inductive Played (e : Engine) (ctx : BlockContext) : List Accessor → Run → Run → Prop
  | nil (r : Run) : Played e ctx [] r r
  | cons {a : Accessor} {rest : List Accessor} {r q q' : Run} {answer : a.Answer}
      (h : Called e ctx a r q (.ok answer)) (hrest : Played e ctx rest q q') :
      Played e ctx (a :: rest) r q'

/-- What stands against a call before it is made. -/
inductive Objects (e : Engine) (ctx : BlockContext) : Accessor → EngineError → Prop
  | tooMany {validators managers admin} {snapshot : Snapshot}
      (hsnapshot : e.parentSnapshot ctx.header = .ok snapshot)
      (h : maxValidators < snapshot.validators.size) :
      Objects e ctx (.initializeValidators validators managers admin)
        (.validation (.invalidValidatorsLength snapshot.validators.size))
  | noGenesis {validators managers admin} {snapshot : Snapshot}
      (hsnapshot : e.parentSnapshot ctx.header = .ok snapshot)
      (hsize : snapshot.validators.size ≤ maxValidators)
      (h : e.config.engine.genesisValidators = []) :
      Objects e ctx (.initializeValidators validators managers admin)
        (.validation .missingGenesisValidators)
  | noCheckpoint {validators epoch} (h : e.checkpoint? ctx = none) :
      Objects e ctx (.updateActiveValidators validators epoch) (.validation .unknownAncestor)
  | emptyCheckpoint {validators epoch checkpoint}
      (hcheckpoint : e.checkpoint? ctx = some checkpoint)
      (h : ExtraData.validators checkpoint.extra = []) :
      Objects e ctx (.updateActiveValidators validators epoch)
        (.validation .invalidExtraValidators)
  | noParent
      (h : ctx.chain.header ctx.header.parentHash (saturatingPred ctx.header.number) = none) :
      Objects e ctx .topValidators (.validation .unknownAncestor)
  | noLedger {parent cause}
      (hparent : ctx.chain.header ctx.header.parentHash (saturatingPred ctx.header.number) =
        some parent)
      (h : e.ledgerAt parent.root = .error cause) : Objects e ctx .topValidators (.state cause)

/-- A step plays a list of calls: to its end, up to a call that fails, or up to one that
something stands against. Nothing is done after that. -/
inductive Follows (e : Engine) (ctx : BlockContext) (script : List Accessor) (r : Run) :
    Except EngineError α × Run → Prop
  | done {answer q} (h : Played e ctx script r q) : Follows e ctx script r (.ok answer, q)
  | failed {before a after q q' cause} (hscript : script = before ++ a :: after)
      (hbefore : Played e ctx before r q) (h : Called e ctx a q q' (.error cause)) :
      Follows e ctx script r (.error (.contract cause), q')
  | stopped {before a after q fault} (hscript : script = before ++ a :: after)
      (hbefore : Played e ctx before r q) (h : Objects e ctx a fault) :
      Follows e ctx script r (.error fault, q)

-- ---------------------------------------------------------------------------
-- The script
-- ---------------------------------------------------------------------------

def setup (config : EngineConfig) : List Accessor :=
  [.initializeValidators (config.genesisValidators.map (·.validator))
      (config.genesisValidators.map (·.manager)) config.stakingAdmin,
    .initializePunish, .initializeAddressList config.governanceAdmin,
    .initializeGovernance config.governanceAdmin]

def opening (e : Engine) (header : Header) (snapshot : Snapshot) (validator : Address) :
    List Accessor :=
  (if header.number = 1 then setup e.config.engine else []) ++
    if validator = header.coinbase ∨ validator ∈ snapshot.recents.values then []
    else [.punish validator]

def rewards (fee : Word) : List Accessor :=
  if fee = 0 then [] else [.distributeReward fee]

def rotation (e : Engine) (ctx : BlockContext) : List Accessor :=
  [.updateActiveValidators
      (((e.checkpoint? ctx).map fun h => ExtraData.validators h.extra).getD [])
      e.config.engine.epoch,
    .decreaseMissedBlocks e.config.engine.epoch, .topValidators]

/-- What the fee recorder holds once some calls were made. -/
def feeAfter (ctx : BlockContext) (calls : List Accessor) (l : Ledger) : Word :=
  (calls.foldl (fun l a => ctx.ledgerAfter (a.message ctx.header) l) l).balance
    Address.feeRecorder

/-- The calls of the block rules, in order. -/
def script (e : Engine) (ctx : BlockContext) (snapshot : Snapshot) (validator : Address)
    (l : Ledger) : List Accessor :=
  let opening := e.opening ctx.header snapshot validator
  opening ++ (rewards (feeAfter ctx opening l) ++
    if e.config.engine.epoch.toNat ∣ ctx.header.number.toNat then e.rotation ctx else [])

-- ---------------------------------------------------------------------------
-- Laws of scripts
-- ---------------------------------------------------------------------------

variable {e : Engine} {ctx : BlockContext} {r q q' : Run} {first rest calls : List Accessor}

namespace Played

theorem append (hfirst : Played e ctx first r q) (hrest : Played e ctx rest q q') :
    Played e ctx (first ++ rest) r q' := by
  induction hfirst with
  | nil => exact hrest
  | cons h _ ih => exact .cons h (ih hrest)

theorem calls_eq (h : Played e ctx calls r q) :
    q.calls = r.calls ++ calls.map (Accessor.call ctx.header) := by
  induction h with
  | nil => exact (List.append_nil _).symm
  | cons h _ ih => rw [ih, h.calls, List.append_assoc, List.map_cons, List.singleton_append]

theorem ledger_eq (h : Played e ctx calls r q) (hplain : ∀ a ∈ calls, a.plain) :
    q.ledger = calls.foldl (fun l a => ctx.ledgerAfter (a.message ctx.header) l) r.ledger := by
  induction h with
  | nil => rfl
  | @cons a rest r q q' answer h _ ih =>
    obtain ⟨hhead, htail⟩ := List.forall_mem_cons.mp hplain
    obtain ⟨l, hon, -, hledger⟩ := h.ran
    rw [Accessor.site_of_plain hhead] at hledger
    cases hon with
    | plain => rw [ih htail, hledger, List.foldl_cons]
    | reward fee => cases hhead
    | candidates hparent hl => cases hhead

end Played

namespace Follows

variable {α β : Type} {result : Except EngineError α × Run}

theorem append (hfirst : Played e ctx first r q) (hrest : Follows e ctx rest q result) :
    Follows e ctx (first ++ rest) r result := by
  cases hrest with
  | done h => exact .done (hfirst.append h)
  | failed hscript hbefore h =>
    exact .failed (by rw [hscript, List.append_assoc]) (hfirst.append hbefore) h
  | stopped hscript hbefore h =>
    exact .stopped (by rw [hscript, List.append_assoc]) (hfirst.append hbefore) h

theorem bind (first : List Accessor) {x : Step EngineError α} {f : α → Step EngineError β}
    (hx : Follows e ctx first r (exec x r))
    (hf : ∀ a q, Played e ctx first r q → Follows e ctx rest q (exec (f a) q)) :
    Follows e ctx (first ++ rest) r (exec (x >>= f) r) := by
  rw [exec_bind]
  generalize exec x r = result at hx ⊢
  cases hx with
  | done h => exact append h (hf _ _ h)
  | failed hscript hbefore h =>
    exact .failed (by rw [hscript, List.append_assoc, List.cons_append]) hbefore h
  | stopped hscript hbefore h =>
    exact .stopped (by rw [hscript, List.append_assoc, List.cons_append]) hbefore h

theorem map {x : Step EngineError α} (f : α → β) (hx : Follows e ctx calls r (exec x r)) :
    Follows e ctx calls r (exec (x >>= fun a => pure (f a)) r) := by
  rw [← List.append_nil calls]
  exact bind calls hx fun _ q _ => .done (.nil q)

theorem objected {a : Accessor} {fault : EngineError} (h : Objects e ctx a fault) :
    Follows e ctx (a :: rest) r ((.error fault, r) : Except EngineError α × Run) :=
  .stopped (List.nil_append _).symm (.nil r) h

end Follows

-- ---------------------------------------------------------------------------
-- Single calls
-- ---------------------------------------------------------------------------

theorem Called.record {a : Accessor} {answer : Except ContractError a.Answer}
    (h : Called e ctx a r q answer) (k : Metric) :
    Called e ctx a r (q.record (.metric k)) answer where
  calls := by
    rw [← h.calls, Run.calls, Run.record, List.filterMap_append]
    exact List.append_nil _
  ran := h.ran

theorem Follows.of_called {a : Accessor} {x : Except ContractError a.Answer}
    (h : Called e ctx a r q x) : Follows e ctx [a] r (x.mapError .contract, q) := by
  cases x with
  | ok answer => exact .done (.cons h (.nil q))
  | error cause => exact .failed (show [a] = [] ++ a :: [] from rfl) (.nil r) h

theorem Called.of_step {a : Accessor} {l : Ledger} (hon : RunsOn e ctx r.ledger a l)
    (hblock : a.site = .block) (hsite : ctx.site = .block) :
    Called e ctx a r (exec (a.step ctx) { r with ledger := l }).2
      (exec (a.step ctx) { r with ledger := l }).1 where
  calls := by
    rw [a.exec_step_run, BlockContext.calls_afterCall, Accessor.call, hblock, hsite]
    rfl
  ran := by
    have hctx : { ctx with site := a.site } = ctx := by rw [hblock, ← hsite]
    refine ⟨l, hon, by rw [hctx], ?_⟩
    rw [a.exec_step_run, hblock]
    rfl

/-- The candidates are read aside, and the ledger of the block stays as it is. -/
theorem Called.candidates {parent : Header} {l : Ledger}
    (hparent : ctx.chain.header ctx.header.parentHash (saturatingPred ctx.header.number) =
      some parent)
    (hledger : e.ledgerAt parent.root = .ok l) :
    Called e ctx .topValidators r
      (exec (Step.on l (Registry.topValidators { ctx with site := .earlier })) r).2
      (exec (Step.on l (Registry.topValidators { ctx with site := .earlier })) r).1 where
  calls := by
    have hrun := Accessor.topValidators.exec_step_run { ctx with site := .earlier }
      { r with ledger := l }
    exact (congrArg Run.calls hrun).trans (BlockContext.calls_afterCall _ _ _)
  ran := ⟨l, .candidates hparent hledger, rfl, rfl⟩

section
variable (hsite : ctx.site = .block)
include hsite

theorem follows_plain {a : Accessor} (h : a.plain) :
    Follows e ctx [a] r (exec (Step.mapError .contract (a.step ctx)) r) := by
  rw [Step.exec_mapError]
  exact .of_called (.of_step (.plain h) (Accessor.site_of_plain h) hsite)

-- ---------------------------------------------------------------------------
-- The parts of the block rules
-- ---------------------------------------------------------------------------

theorem initializeContracts_follows {snapshot : Snapshot} (hnumber : ctx.header.number = 1)
    (hsnapshot : e.parentSnapshot ctx.header = .ok snapshot)
    (hsome : snapshot.validators.toList ≠ []) :
    Follows e ctx (setup e.config.engine) r (exec (e.initializeContracts ctx) r) := by
  have hfirst : e.snapshot 0 ctx.header.parentHash = .ok snapshot := by
    rw [parentSnapshot, hnumber] at hsnapshot
    exact mapError_eq_ok hsnapshot
  have hsize : snapshot.validators.size ≠ 0 := fun h => hsome (List.length_eq_zero_iff.mp h)
  unfold initializeContracts
  rw [hfirst]
  dsimp only
  by_cases hmany : maxValidators < snapshot.validators.size
  · rw [if_pos (.inr hmany)]
    exact .objected (.tooMany hsnapshot hmany)
  rw [if_neg (not_or.mpr ⟨hsize, hmany⟩)]
  by_cases hgenesis : e.config.engine.genesisValidators = []
  · rw [if_pos hgenesis]
    exact .objected (.noGenesis hsnapshot (Nat.not_lt.mp hmany) hgenesis)
  rw [if_neg hgenesis, Step.exec_mapError_bind]
  refine .bind [.initializeValidators _ _ _] (follows_plain hsite rfl) fun _ q _ => ?_
  rw [Step.exec_mapError_bind]
  refine .bind [.initializePunish] (follows_plain hsite rfl) fun _ q _ => ?_
  rw [Step.exec_mapError_bind]
  refine .bind [.initializeAddressList _] (follows_plain hsite rfl) fun _ q _ => ?_
  exact follows_plain (a := .initializeGovernance _) hsite rfl

theorem tryPunish_follows {snapshot : Snapshot} {validator : Address}
    (hsnapshot : e.parentSnapshot ctx.header = .ok snapshot)
    (hturn : snapshot.turn ctx.header.number = some validator) :
    Follows e ctx (if validator ∈ snapshot.recents.values then [] else [.punish validator]) r
      (exec (e.tryPunish ctx) r) := by
  have hrecent : snapshot.signedRecently validator ↔ validator ∈ snapshot.recents.values := by
    simp [Snapshot.signedRecently]
  unfold tryPunish
  rw [hsnapshot, Step.ofExcept_ok, pure_bind, hturn]
  dsimp only
  by_cases h : validator ∈ snapshot.recents.values
  · rw [if_pos h, if_pos (hrecent.mpr h)]
    exact .done (.nil r)
  · rw [if_neg h, if_neg (mt hrecent.mp h), exec_bind, Step.exec_outcome]
    have hcalled : Called e ctx (.punish validator) r (exec (Registry.punish ctx validator) r).2
        (exec (Registry.punish ctx validator) r).1 := .of_step (.plain rfl) rfl hsite
    revert hcalled
    rcases exec (Registry.punish ctx validator) r with ⟨cause | answer, q⟩
    · exact fun hcalled => .of_called (hcalled.record (.punished false))
    · exact fun hcalled => .of_called (hcalled.record (.punished true))

theorem sendReward_follows :
    Follows e ctx (rewards (r.ledger.balance Address.feeRecorder)) r (exec (sendReward ctx) r) := by
  unfold sendReward rewards
  rw [Step.exec_bind_of_ok (Step.exec_ledger r)]
  dsimp only
  by_cases hfee : r.ledger.balance Address.feeRecorder = 0
  · rw [if_pos hfee, if_pos hfee]
    exact .done (.nil r)
  · rw [if_neg hfee, if_neg hfee, Step.exec_bind_of_ok (Step.exec_modifyLedger _ _),
      Step.exec_bind_of_ok (Step.exec_modifyLedger _ _), Step.exec_mapError]
    exact .of_called (.of_step (a := .distributeReward _) (.reward _) rfl hsite)

omit hsite in
theorem topValidators_follows :
    Follows e ctx [.topValidators] r (exec (e.topValidators ctx) r) := by
  unfold topValidators
  dsimp only
  cases hparent : ctx.chain.header ctx.header.parentHash (saturatingPred ctx.header.number) with
  | none => exact .objected (.noParent hparent)
  | some parent =>
    dsimp only
    cases hledger : e.ledgerAt parent.root with
    | error cause => exact .objected (.noLedger hparent hledger)
    | ok l =>
      have hcalled := Called.candidates (r := r) hparent hledger
      rw [exec_bind, Step.exec_mapError]
      revert hcalled
      rcases exec (Step.on l (Registry.topValidators { ctx with site := .earlier })) r with
        ⟨cause | list, q⟩
      · exact fun hcalled => .of_called hcalled
      · exact fun hcalled => .done (.cons hcalled (.nil q))

theorem syncEpoch_follows : Follows e ctx (rotation e ctx) r (exec (e.syncEpoch ctx) r) := by
  unfold syncEpoch rotation
  dsimp only
  cases hcheckpoint : e.checkpoint? ctx with
  | none => exact .objected (.noCheckpoint hcheckpoint)
  | some checkpoint =>
    dsimp only [Option.map_some, Option.getD_some]
    by_cases hempty : ExtraData.validators checkpoint.extra = []
    · rw [if_pos hempty]
      exact .objected (.emptyCheckpoint hcheckpoint hempty)
    · rw [if_neg hempty]
      refine .bind [.updateActiveValidators _ _] (follows_plain hsite rfl)
        fun _ q _ => ?_
      refine .bind [.decreaseMissedBlocks _] (follows_plain hsite rfl) fun _ q _ => ?_
      exact topValidators_follows

end

-- ---------------------------------------------------------------------------
-- The block rules
-- ---------------------------------------------------------------------------

theorem plain_opening {header : Header} {snapshot : Snapshot} {validator : Address} :
    ∀ a ∈ e.opening header snapshot validator, a.plain := by
  intro a ha
  unfold opening setup at ha
  rcases List.mem_append.mp ha with ha | ha
  · split at ha
    · simp only [List.mem_cons, List.not_mem_nil, or_false] at ha
      rcases ha with rfl | rfl | rfl | rfl <;> rfl
    · cases ha
  · split at ha
    · cases ha
    · obtain rfl := List.mem_singleton.mp ha
      rfl

def rotate (e : Engine) (ctx : BlockContext) : Step EngineError (Option (List Address)) :=
  if e.config.engine.epoch ≠ 0 ∧ ctx.header.number % e.config.engine.epoch = 0 then
    e.syncEpoch ctx >>= fun next => return some next
  else return none

theorem blockRules_eq (e : Engine) (ctx : BlockContext) :
    e.blockRules ctx =
      (((if ctx.header.number = 1 then e.initializeContracts ctx else pure ()) >>= fun _ =>
        Step.ofExcept (e.inTurn ctx.header) >>= fun turn =>
          if !turn then e.tryPunish ctx else pure ()) >>= fun _ =>
      sendReward ctx >>= fun _ => e.rotate ctx) := by
  have hrest : ∀ turn : Bool, (if !turn then e.tryPunish ctx >>= fun _ =>
        sendReward ctx >>= fun _ => e.rotate ctx else sendReward ctx >>= fun _ => e.rotate ctx) =
      ((if !turn then e.tryPunish ctx else pure ()) >>= fun _ =>
        sendReward ctx >>= fun _ => e.rotate ctx) := by
    intro turn
    split <;> rfl
  unfold blockRules
  by_cases hnumber : ctx.header.number = 1
  · rw [if_pos hnumber, if_pos hnumber, bind_assoc]
    refine bind_congr fun _ => ?_
    rw [bind_assoc]
    exact bind_congr hrest
  · rw [if_neg hnumber, if_neg hnumber, pure_bind, bind_assoc]
    exact bind_congr hrest

theorem blockRules_follows {snapshot : Snapshot} {validator : Address}
    (hsite : ctx.site = .block) (hepoch : e.config.engine.epoch ≠ 0)
    (hsnapshot : e.parentSnapshot ctx.header = .ok snapshot)
    (hturn : snapshot.turn ctx.header.number = some validator) :
    Follows e ctx (e.script ctx snapshot validator r.ledger) r (exec (e.blockRules ctx) r) := by
  have hsome : snapshot.validators.toList ≠ [] := by
    intro hnone
    rw [Snapshot.turn, hnone] at hturn
    cases hturn
  have hinTurn : e.inTurn ctx.header = .ok (validator = ctx.header.coinbase) := by
    rw [inTurn, hsnapshot, ok_bind, hturn]
    exact congrArg Except.ok (decide_eq_decide.mpr Option.some_inj)
  have hdivides : e.config.engine.epoch ≠ 0 ∧ ctx.header.number % e.config.engine.epoch = 0 ↔
      e.config.engine.epoch.toNat ∣ ctx.header.number.toNat := by
    rw [and_iff_right hepoch, ← UInt64.toNat_inj, UInt64.toNat_mod, Nat.dvd_iff_mod_eq_zero]
    rfl
  -- set-up and punishment come first, since they decide what the fee recorder holds
  rw [blockRules_eq]
  refine .bind (e.opening ctx.header snapshot validator) ?opening fun _ q hplayed => ?_
  case opening =>
    refine .bind _ ?setup fun _ q _ => ?punishment
    case setup =>
      split
      · rename_i hnumber
        exact initializeContracts_follows hsite hnumber hsnapshot hsome
      · exact .done (.nil r)
    case punishment =>
      rw [hinTurn, Step.ofExcept_ok, pure_bind]
      by_cases hcoinbase : validator = ctx.header.coinbase
      · have hserved : ¬ (!decide (validator = ctx.header.coinbase)) = true := by simp [hcoinbase]
        rw [if_pos (.inl hcoinbase), if_neg hserved]
        exact .done (.nil q)
      · have hmissed : (!decide (validator = ctx.header.coinbase)) = true := by simp [hcoinbase]
        simp only [or_iff_right hcoinbase]
        rw [if_pos hmissed]
        exact tryPunish_follows hsite hsnapshot hturn
  -- the calls so far all ran on the ledger of the block, which fixes the reward
  rw [feeAfter, ← hplayed.ledger_eq plain_opening]
  refine .bind _ (sendReward_follows hsite) fun _ q' _ => ?_
  unfold rotate
  by_cases hend : e.config.engine.epoch.toNat ∣ ctx.header.number.toNat
  · rw [if_pos hend, if_pos (hdivides.mpr hend)]
    exact (syncEpoch_follows hsite).map some
  · rw [if_neg hend, if_neg (mt hdivides.mp hend)]
    exact .done (.nil q')

theorem Follows.calls_made {α : Type} {script : List Accessor} {x : Except EngineError α}
    (h : Follows e ctx script r (x, q)) :
    ∃ made rest, script = made ++ rest ∧
      q.calls = r.calls ++ made.map (Accessor.call ctx.header) ∧
      ((∃ answer, x = .ok answer) → rest = []) := by
  cases h with
  | done h => exact ⟨script, [], (List.append_nil _).symm, h.calls_eq, fun _ => rfl⟩
  | @failed before a after _ _ _ hscript hbefore h =>
    refine ⟨before ++ [a], after, ?_, ?_, fun ⟨_, hok⟩ => nomatch hok⟩
    · rw [hscript, List.append_assoc, List.singleton_append]
    · rw [h.calls, hbefore.calls_eq, List.append_assoc, List.map_append, List.map_singleton]
  | @stopped before a after _ _ hscript hbefore h =>
    exact ⟨before, a :: after, hscript, hbefore.calls_eq, fun ⟨_, hok⟩ => nomatch hok⟩

def punished (calls : List Accessor) : List Address :=
  calls.filterMap fun
    | .punish validator => some validator
    | _ => none

theorem punished_script (e : Engine) (ctx : BlockContext) (snapshot : Snapshot)
    (validator : Address) (l : Ledger) :
    punished (e.script ctx snapshot validator l) =
      if validator = ctx.header.coinbase ∨ validator ∈ snapshot.recents.values then []
      else [validator] := by
  have hsetup : punished (if ctx.header.number = 1 then setup e.config.engine else []) = [] := by
    split <;> rfl
  have hreward : ∀ fee, punished (rewards fee) = [] := by
    intro fee
    unfold rewards
    split <;> rfl
  have hrotation : punished (if e.config.engine.epoch.toNat ∣ ctx.header.number.toNat then
      e.rotation ctx else []) = [] := by
    split <;> rfl
  unfold punished at hsetup hreward hrotation ⊢
  simp only [script, opening, List.filterMap_append, hsetup, hreward, hrotation, List.nil_append,
    List.append_nil]
  split <;> rfl

/-- The block rules play their script from the start, and all of it if they end well. So they
punish one validator at most, and never the one that produced the block. -/
theorem block_rules_follow_script (e : Engine) (ctx : BlockContext) (r : Run)
    {snapshot : Snapshot} (hsite : ctx.site = .block) (hepoch : e.config.engine.epoch ≠ 0)
    (hsnapshot : e.parentSnapshot ctx.header = .ok snapshot)
    (hsome : snapshot.validators.toList ≠ []) :
    (snapshot.validators.toList.Pairwise fun a b => a.toNat < b.toNat) ∧
    ∃ validator, snapshot.validators.toList[
        ctx.header.number.toNat % snapshot.validators.toList.length]? = some validator ∧
      Follows e ctx (e.script ctx snapshot validator r.ledger) r (exec (e.blockRules ctx) r) ∧
      ∃ made rest, e.script ctx snapshot validator r.ledger = made ++ rest ∧
        (exec (e.blockRules ctx) r).2.calls = r.calls ++ made.map (Accessor.call ctx.header) ∧
        ((∃ next, (exec (e.blockRules ctx) r).1 = .ok next) → rest = []) ∧
        (punished made).length ≤ 1 ∧
        ∀ a ∈ punished made, a = validator ∧ a ≠ ctx.header.coinbase := by
  have hplace : ctx.header.number.toNat % snapshot.validators.toList.length <
      snapshot.validators.toList.length := Nat.mod_lt _ (List.length_pos_iff.mpr hsome)
  obtain ⟨validator, hvalidator⟩ : ∃ validator, snapshot.validators.toList[
      ctx.header.number.toNat % snapshot.validators.toList.length]? = some validator :=
    ⟨_, List.getElem?_eq_getElem hplace⟩
  refine ⟨List.pairwise_map.mpr snapshot.validators.members.ascending, validator, hvalidator, ?_⟩
  have hturn : snapshot.turn ctx.header.number = some validator := hvalidator
  have hfollows := blockRules_follows (r := r) hsite hepoch hsnapshot hturn
  obtain ⟨made, rest, hscript, hcalls, hall⟩ := hfollows.calls_made
  have hpunished : punished made ++ punished rest =
      if validator = ctx.header.coinbase ∨ validator ∈ snapshot.recents.values then []
      else [validator] := by
    rw [← punished_script e ctx snapshot validator r.ledger, hscript]
    exact List.filterMap_append.symm
  refine ⟨hfollows, made, rest, hscript, hcalls, hall, ?_, fun a ha => ?_⟩
  · have hlength := congrArg List.length hpunished
    rw [List.length_append] at hlength
    split at hlength <;> simp only [List.length_nil, List.length_singleton] at hlength <;> omega
  · have hmem : a ∈ punished made ++ punished rest := List.mem_append_left _ ha
    rw [hpunished] at hmem
    split at hmem
    · cases hmem
    · rename_i hmissed
      obtain rfl := List.mem_singleton.mp hmem
      exact ⟨rfl, fun h => hmissed (.inl h)⟩

open SampleFirst SampleBlock in
set_option maxRecDepth 100000 in
/-- In the sample block every call of the script is made. -/
theorem sample_first_block_follows_script :
    ∃ next q, exec (SampleFirst.engine.blockRules
        (SampleFirst.engine.context SampleFirst.header)) (SampleFirst.start 5) =
          (.ok (some next), q) ∧
      q.calls = [.initializeValidators [producer] [4] 0, .initializePunish,
        .initializeAddressList 0, .initializeGovernance 0, .punish producer, .distributeReward 5,
        .updateActiveValidators [producer] 1, .decreaseMissedBlocks 1,
        .topValidators].map (Accessor.call SampleFirst.header) := by
  have hrun : exec (SampleFirst.engine.blockRules
      (SampleFirst.engine.context SampleFirst.header)) (SampleFirst.start 5) =
        (.ok (some [candidate]), _) := Step.exec_of_toOption (by decide +kernel)
  obtain ⟨-, validator, hvalidator, -, made, rest, hscript, hcalls, hall, -⟩ :=
    block_rules_follow_script SampleFirst.engine
      (SampleFirst.engine.context SampleFirst.header) (SampleFirst.start 5) rfl (by decide)
      (show SampleFirst.engine.parentSnapshot SampleFirst.header =
        .ok { validators := .ofList [producer] } from rfl) (by decide)
  have hproducer : (AddressSet.ofList [producer]).toList[0]? = some producer := by decide
  obtain rfl : producer = validator := Option.some.inj (hproducer.symm.trans hvalidator)
  obtain rfl := hall ⟨_, congrArg Prod.fst hrun⟩
  refine ⟨_, _, hrun, hcalls.trans ?_⟩
  rw [List.append_nil] at hscript
  rw [← hscript]
  rfl

end Engine

end StakeGov
