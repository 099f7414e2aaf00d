import StakeGov.InMemory.SampleBlocks
import StakeGov.Proofs.ProposalInvariants
import StakeGov.Proofs.Records

/-!
# The discipline of calls

Whatever the engine is asked for and whatever the environment replies, the messages it sends
are calls of system contracts and those that due proposals ask for, each for the block of
the header (`Permitted`), and each is committed at once, on the ledger it ran on
(`Orderly`). So a ledger is committed as often as messages are sent on it
(`calls_are_disciplined`).
-/

namespace StakeGov

open Registry (Accessor)
open Step (exec Leads Keeps)

/-- The environment leaves it to its caller to commit. -/
def Vm.NeverFinalises (vm : Vm) : Prop :=
  ∀ chain config header m l, (vm.call chain config header m l).2.finalised = l.finalised

-- ---------------------------------------------------------------------------
-- Messages and records
-- ---------------------------------------------------------------------------

/-- A message that may be sent for the block of a header. -/
structure Permitted (header : Header) (due : Proposal → Prop) (m : Message) : Prop where
  gas : m.gas = BlockContext.unlimitedGas
  gasPrice : m.gasPrice = 0
  origin : (∃ a : Accessor, a.Sends header m ∧ m.sender = a.caller header ∧
      m.callee = some a.contract.address ∧ m.value = a.value) ∨
    ∃ p, due p ∧ p.kind = .call ∧ m = p.message

theorem Registry.Accessor.Sends.permitted {a : Accessor} {header : Header} {m : Message}
    (h : a.Sends header m) (due : Proposal → Prop) : Permitted header due m := by
  obtain ⟨data, hpack, rfl⟩ := h
  exact ⟨rfl, rfl, .inl ⟨a, ⟨data, hpack, rfl⟩, rfl, rfl, rfl⟩⟩

/-- A record in which each message is followed by the commit of the ledger it ran on, and
nothing else is committed. Aside from the block's own ledger only the candidates are read. -/
inductive Orderly (header : Header) (due : Proposal → Prop) : List Event → Prop where
  | nil : Orderly header due []
  | metric {k rest} (h : Orderly header due rest) : Orderly header due (.metric k :: rest)
  | call {site m rest} (hm : Permitted header due m)
      (hsite : site = .earlier → Accessor.topValidators.Sends header m)
      (h : Orderly header due rest) :
      Orderly header due (.called site header m :: .finalised site true :: rest)

theorem Orderly.append {header : Header} {due : Proposal → Prop} {first rest : List Event}
    (hfirst : Orderly header due first) (hrest : Orderly header due rest) :
    Orderly header due (first ++ rest) := by
  induction hfirst with
  | nil => exact hrest
  | metric _ ih => exact .metric ih
  | call hm hsite _ ih => exact .call hm hsite ih

def Event.isCall (site : Site) : Event → Bool
  | .called s _ _ => s = site
  | .finalised .. | .metric _ => false

def callsAt (site : Site) (events : List Event) : Nat :=
  events.countP (Event.isCall site)

/-- What was done since the start is in order. The ledger was committed as often as messages
were sent on it, and no more than so many were sent aside. -/
def Disciplined (header : Header) (due : Proposal → Prop) (start : Run) (limit : Nat) (r : Run) :
    Prop :=
  ∃ added, r.events = start.events ++ added ∧ Orderly header due added ∧
    r.ledger.finalised = start.ledger.finalised + callsAt .block added ∧
    callsAt .earlier added ≤ limit

namespace Disciplined

variable {header : Header} {due : Proposal → Prop} {start r r' : Run} {limit : Nat}

variable (header due start) in
theorem refl : Disciplined header due start 0 start :=
  ⟨[], (List.append_nil _).symm, .nil, rfl, Nat.le_refl 0⟩

theorem extend (D : Disciplined header due start limit r) {more : List Event} (extra : Nat)
    (hevents : r'.events = r.events ++ more) (hmore : Orderly header due more)
    (hledger : r'.ledger.finalised = r.ledger.finalised + callsAt .block more)
    (hextra : callsAt .earlier more ≤ extra) :
    Disciplined header due start (limit + extra) r' := by
  obtain ⟨added, hadded, horderly, hfinalised, hlimit⟩ := D
  refine ⟨added ++ more, ?_, horderly.append hmore, ?_, ?_⟩
  · rw [hevents, hadded, List.append_assoc]
  · rw [hledger, hfinalised, callsAt, callsAt, callsAt, List.countP_append, Nat.add_assoc]
  · rw [callsAt, List.countP_append]
    exact Nat.add_le_add hlimit hextra

theorem same (D : Disciplined header due start limit r) (hevents : r'.events = r.events)
    (hledger : r'.ledger.finalised = r.ledger.finalised) :
    Disciplined header due start limit r' :=
  D.extend 0 (hevents.trans (List.append_nil _).symm) .nil hledger (Nat.le_refl 0)

theorem more (D : Disciplined header due start 0 r) : Disciplined header due start 1 r :=
  D.extend 1 (List.append_nil _).symm .nil rfl (Nat.zero_le 1)

theorem record (D : Disciplined header due start limit r) (k : Metric) :
    Disciplined header due start limit (r.record (.metric k)) :=
  D.extend 0 rfl (.metric .nil) rfl (Nat.le_refl 0)

end Disciplined

-- ---------------------------------------------------------------------------
-- Calls
-- ---------------------------------------------------------------------------

section
variable {ctx : BlockContext} {due : Proposal → Prop} {start r : Run} {limit : Nat} {m : Message}

theorem finalised_afterCall (hvm : ctx.vm.NeverFinalises) (m : Message) (r : Run) :
    (ctx.afterCall m r).ledger.finalised = r.ledger.finalised + 1 :=
  congrArg (· + 1) (hvm _ _ _ _ _)

theorem Disciplined.call (D : Disciplined ctx.header due start limit r)
    (hsite : ctx.site = .block) (hvm : ctx.vm.NeverFinalises) (hm : Permitted ctx.header due m) :
    Disciplined ctx.header due start limit (ctx.afterCall m r) := by
  refine D.extend 0 (ctx.events_afterCall m r) ?_ ?_ ?_
  all_goals rw [hsite]
  · exact .call hm (fun h => nomatch h) .nil
  · exact finalised_afterCall hvm m r
  · exact Nat.le_refl 0

theorem Disciplined.readAside (D : Disciplined ctx.header due start 0 r) (l : Ledger) :
    Disciplined ctx.header due start 1
      (exec (Step.on l (Registry.topValidators { ctx with site := .earlier })) r).2 := by
  obtain ⟨m, hm, hrun⟩ :=
    Accessor.topValidators.sends { ctx with site := .earlier } { r with ledger := l }
  have hcall : (exec (Registry.topValidators { ctx with site := .earlier })
      { r with ledger := l }).2 = _ := hrun
  rw [Step.exec_on, hcall]
  exact D.extend 1 (BlockContext.events_afterCall _ m _)
    (.call (hm.permitted due) (fun _ => hm) .nil) rfl (Nat.le_refl 1)

variable (ctx) in
theorem Disciplined.kept (due : Proposal → Prop) (start : Run) (limit : Nat)
    (hsite : ctx.site = .block) (hvm : ctx.vm.NeverFinalises) :
    Kept (Disciplined ctx.header due start limit) ctx where
  call a r D := by
    obtain ⟨m, hm, hrun⟩ := a.sends ctx r
    exact hrun ▸ D.call hsite hvm (hm.permitted due)
  count _ k D := D.record k
  credit _ _ _ D := D.same rfl rfl
  remember _ _ D := D.same rfl rfl

end

-- ---------------------------------------------------------------------------
-- Proposals
-- ---------------------------------------------------------------------------

namespace Disciplined

variable {ctx : BlockContext} {due : Proposal → Prop} {start : Run} {limit : Nat}
variable {e : Engine} {p : Proposal} {tx : Transaction} {index : UInt32}
variable (hsite : ctx.site = .block) (hvm : ctx.vm.NeverFinalises)
include hsite hvm

variable (ctx due start limit) in
theorem keptByProposals : KeptByProposals (Disciplined ctx.header due start limit) ctx due where
  toKeptByCalls := (kept ctx due start limit hsite hvm).calls
  proposal _ p hp hkind D := D.call hsite hvm ⟨rfl, rfl, .inr ⟨p, hp, hkind, rfl⟩⟩
  edit _ _ hl D := D.same rfl hl
  add _ _ D := D.same rfl rfl

theorem executeProposal (hp : due p) :
    Keeps (Disciplined ctx.header due start limit) (e.executeProposal ctx p index) :=
  (keptByProposals ctx due start limit hsite hvm).executeProposal hp

theorem replayProposal (hp : due p) :
    Keeps (Disciplined ctx.header due start limit) (e.replayProposal ctx p index tx) :=
  (keptByProposals ctx due start limit hsite hvm).replayProposal hp

theorem finishProposal (id : Word) :
    Keeps (Disciplined ctx.header due start limit) (Engine.finishProposal ctx id) :=
  (keptByProposals ctx due start limit hsite hvm).finishProposal id

end Disciplined

-- ---------------------------------------------------------------------------
-- The end of a block
-- ---------------------------------------------------------------------------

namespace Engine

variable {e : Engine} {header : Header} {r : Run}

def Queued (e : Engine) (header : Header) (r : Run) (p : Proposal) : Prop :=
  ∃ next queue q, e.FindsQueue header r next queue q ∧ p ∈ queue

theorem FindsQueue.queued {next : Option (List Address)} {queue : List Proposal} {q : Run}
    (h : e.FindsQueue header r next queue q) : ∀ p ∈ queue, e.Queued header r p :=
  fun _ hp => ⟨next, queue, q, h, hp⟩

variable (hvm : e.vm.NeverFinalises)
include hvm

theorem blockRules_disciplined (header : Header) (r : Run) (due : Proposal → Prop) :
    Disciplined header due r 1 (exec (e.blockRules (e.context header)) r).2 := by
  have K := Disciplined.kept (e.context header) due r 0 rfl hvm
  exact K.blockRules (fun _ D => D.more) (fun l _ D => D.readAside l) r (.refl header due r)

theorem assemble_disciplined :
    Disciplined header (e.Queued header r) r 1 (exec (e.assemble header) r).2 :=
  (Disciplined.keptByProposals (e.context header) _ r 1 rfl hvm).assemble
    (fun _ _ _ => FindsQueue.queued) (blockRules_disciplined hvm header r _)

theorem finalize_disciplined (txs : List Transaction) :
    Disciplined header (e.Queued header r) r 1 (exec (e.finalize header txs) r).2 :=
  (Disciplined.keptByProposals (e.context header) _ r 1 rfl hvm).finalize
    (fun _ _ _ => FindsQueue.queued) (blockRules_disciplined hvm header r _) txs

end Engine

-- ---------------------------------------------------------------------------
-- All operations
-- ---------------------------------------------------------------------------

/-- What an engine is asked for in the course of a block. -/
inductive Operation where
  | query (q : Engine.Query)
  | passedProposals
  | execute (p : Proposal) (index : UInt32)
  | replay (p : Proposal) (index : UInt32) (tx : Transaction)
  | finish (id : Word)
  | topValidators
  | syncEpoch
  | tryPunish
  | sendReward
  | initializeContracts
  | finalize (txs : List Transaction)
  | assemble

namespace Operation

def after (e : Engine) (ctx : BlockContext) (r : Run) : Operation → Run
  | .query q => q.after e ctx.header r
  | .passedProposals => (exec (Registry.passedProposals ctx) r).2
  | .execute p index => (exec (e.executeProposal ctx p index) r).2
  | .replay p index tx => (exec (e.replayProposal ctx p index tx) r).2
  | .finish id => (exec (Engine.finishProposal ctx id) r).2
  | .topValidators => (exec (e.topValidators ctx) r).2
  | .syncEpoch => (exec (e.syncEpoch ctx) r).2
  | .tryPunish => (exec (e.tryPunish ctx) r).2
  | .sendReward => (exec (Engine.sendReward ctx) r).2
  | .initializeContracts => (exec (e.initializeContracts ctx) r).2
  | .finalize txs => (exec (e.finalize ctx.header txs) r).2
  | .assemble => (exec (e.assemble ctx.header) r).2

/-- The proposals that it may execute. -/
def due (e : Engine) (header : Header) (r : Run) : Operation → Proposal → Prop
  | .execute p _ | .replay p _ _ => fun p' => p' = p
  | .finalize _ | .assemble => e.Queued header r
  | .query _ | .passedProposals | .finish _ | .topValidators | .syncEpoch | .tryPunish
  | .sendReward | .initializeContracts => fun _ => False

end Operation

/-- Whatever is asked of the engine, with whatever outcome, its calls are in order: each
message is permitted and committed at once, and so the ledger is committed once for each
message but the one that reads the candidates. That one, as every call of a contract, is
committed on the ledger it runs on. -/
theorem calls_are_disciplined (e : Engine) (ctx : BlockContext) (hsite : ctx.site = .block)
    (hengine : e.vm.NeverFinalises) (hctx : ctx.vm.NeverFinalises) (r : Run) :
    (∀ op : Operation,
      Disciplined ctx.header (op.due e ctx.header r) r 1 (op.after e ctx r)) ∧
    ∀ (a : Accessor) (site : Site),
      ∃ m, a.Sends ctx.header m ∧
        (exec (a.step { ctx with site }) r).2.events =
          r.events ++ [.called site ctx.header m, .finalised site true] ∧
        (exec (a.step { ctx with site }) r).2.ledger.finalised = r.ledger.finalised + 1 := by
  refine ⟨fun op => ?operation, fun a site => ?accessor⟩
  case operation =>
    generalize hdue : op.due e ctx.header r = due
    have D := Disciplined.refl ctx.header due r
    have K := Disciplined.kept ctx due r 0 hsite hctx
    have Q := Disciplined.kept (e.context ctx.header) due r 0 rfl hengine
    have haside : ∀ l, Leads (Disciplined ctx.header due r 0) (Disciplined ctx.header due r 1)
        (Step.on l (Registry.topValidators { ctx with site := .earlier })) :=
      fun l _ D => D.readAside l
    cases op with
    | query q =>
      cases q with
      | blacklist => exact (Q.blacklist r D).more
      | eventRules => exact (Q.eventRules r D).more
      | validate sender tx => exact (Q.validateTransaction sender tx r D).more
      | policy => exact (Q.policy r D).more
    | passedProposals => exact (K.passedProposals r D).more
    | execute p index =>
      exact (Disciplined.executeProposal hsite hctx (hdue ▸ rfl) r D).more
    | replay p index tx =>
      exact (Disciplined.replayProposal hsite hctx (hdue ▸ rfl) r D).more
    | finish id => exact (Disciplined.finishProposal hsite hctx id r D).more
    | topValidators => exact Kept.topValidators (fun _ D => D.more) haside r D
    | syncEpoch => exact K.syncEpoch (fun _ D => D.more) haside r D
    | tryPunish => exact (K.tryPunish r D).more
    | sendReward => exact (K.sendReward r D).more
    | initializeContracts => exact (K.initializeContracts r D).more
    | finalize txs => exact hdue ▸ Engine.finalize_disciplined hengine txs
    | assemble => exact hdue ▸ Engine.assemble_disciplined hengine
  case accessor =>
    obtain ⟨m, hm, hrun⟩ := a.sends { ctx with site } r
    exact ⟨m, hm, hrun ▸ BlockContext.events_afterCall _ m r, hrun ▸ finalised_afterCall hctx m r⟩

open SampleBlock in
/-- The sample block is produced with nine messages on its own ledger: two that rotate the
validators, three that read the queue, and two for each proposal. -/
theorem sample_calls_disciplined :
    (∃ added, (Operation.assemble.after engine (engine.context header) start).events = added ∧
      Orderly header (engine.Queued header start) added ∧ callsAt .block added = 9) ∧
    ∃ m, Accessor.topValidators.Sends header m ∧
      (exec (Registry.topValidators { engine.context header with site := .earlier })
        start).2.events = [.called .earlier header m, .finalised .earlier true] := by
  have hvm : engine.vm.NeverFinalises := fun _ _ _ _ _ => rfl
  obtain ⟨hoperation, haccessor⟩ :=
    calls_are_disciplined engine (engine.context header) rfl hvm hvm start
  obtain ⟨added, hevents, horderly, hfinalised, -⟩ := hoperation .assemble
  obtain ⟨m, hm, hcall, -⟩ := haccessor .topValidators .earlier
  have hcount : (Operation.assemble.after engine (engine.context header) start).ledger.finalised =
      9 := by
    decide +kernel
  refine ⟨⟨added, hevents, horderly, ?_⟩, m, hm, hcall⟩
  rw [← hcount, hfinalised]
  exact (Nat.zero_add _).symm

end StakeGov
