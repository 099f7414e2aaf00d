import StakeGov.InMemory.SampleBlocks
import StakeGov.Proofs.DecodedRows
import StakeGov.Proofs.RotationCalls

/-!
# How accessors fail

A method of a registry is one message. What comes of it is the failure of the call, a
complaint about what cannot be decoded, or an answer; what was decoded always converts,
because it has the types that the method declares (`callMethod_answers`). So packing, looking
up the method, counting the values and converting them never fail, for whatever arguments
and whatever the contract returns (`accessor_fails_as_foreseen`).
-/

namespace StakeGov

open Abi (Token Method Typed)
open Step (exec)

/-- The failures that the outside of the engine can bring about. -/
def ContractError.Foreseen : ContractError → Prop
  | .reverted _ | .vm _ | .unpack .. => True
  | .pack .. | .unknownMethod .. | .outputLength .. | .outputFormat _ => False

theorem ContractError.foreseen_ofVm (cause : VmError) (data : Bytes) :
    (ContractError.ofVm cause data).Foreseen := by
  cases cause <;> trivial

-- ---------------------------------------------------------------------------
-- Values of a type convert
-- ---------------------------------------------------------------------------

namespace Abi

theorem mapM_address? {items : List Token} (h : ∀ item ∈ items, item.check .address = .ok ()) :
    ∃ list, items.mapM Token.address? = some list := by
  induction items with
  | nil => exact ⟨[], rfl⟩
  | cons item items ih =>
    obtain ⟨hitem, hitems⟩ := List.forall_mem_cons.mp h
    obtain ⟨a, rfl⟩ := check_address_ok.mp hitem
    obtain ⟨list, hlist⟩ := ih hitems
    exact ⟨a :: list, by rw [List.mapM_cons, hlist]; rfl⟩

end Abi

namespace Registry

/-- Every row of the types converts, and converting it leaves the run alone. -/
def Converts (tys : List Abi.Ty) (read : List Token → Step ContractError α) : Prop :=
  ∀ tokens, Typed tys tokens → ∃ answer, ∀ r, exec (read tokens) r = (.ok answer, r)

theorem addressList_converts (what : String) :
    Converts [.array .address] (addressList what) := by
  intro tokens htyped
  obtain ⟨t, tokens, hcheck, -, rfl⟩ := List.forall₂_cons_left_iff.mp htyped
  obtain ⟨items, rfl, hitems⟩ := Abi.check_array_ok.mp hcheck
  obtain ⟨list, hlist⟩ := Abi.mapM_address? (Abi.checkEach_ok.mp hitems)
  refine ⟨list, fun r => ?_⟩
  have haddresses : (Token.array items).addresses? = some list := hlist
  rw [addressList, List.head?_cons, Option.bind_some, haddresses]
  rfl

theorem smallNumber_converts (what : String) : Converts [.uint 32] (smallNumber what) := by
  intro tokens htyped
  obtain ⟨t, tokens, hcheck, -, rfl⟩ := List.forall₂_cons_left_iff.mp htyped
  obtain ⟨v, rfl, hv⟩ := Abi.check_uint_ok.mp hcheck
  refine ⟨UInt32.ofNat v.toNat, fun r => ?_⟩
  change exec (if v.toNat < UInt32.size then _ else _) r = _
  rw [if_pos (show v.toNat < UInt32.size from hv)]
  rfl

theorem proposalOf_converts :
    Converts [.uint 256, .uint 256, .address, .address, .uint 256, .bytes]
      fun tokens => expect "proposal" (proposalOf tokens) := by
  intro tokens htyped
  simp only [Typed, List.forall₂_cons_left_iff, List.forall₂_nil_left_iff, Abi.check_uint_ok,
    Abi.check_address_ok, Abi.check_bytes_ok] at htyped
  obtain ⟨_, _, ⟨id, rfl, -⟩, ⟨_, _, ⟨action, rfl, -⟩, ⟨_, _, ⟨sender, rfl⟩, ⟨_, _, ⟨target, rfl⟩,
    ⟨_, _, ⟨value, rfl, -⟩, ⟨_, _, ⟨data, rfl⟩, rfl, rfl⟩, rfl⟩, rfl⟩, rfl⟩, rfl⟩, rfl⟩ := htyped
  exact ⟨⟨id, action, sender, target, value, data⟩, fun r => rfl⟩

theorem ruleOf_converts :
    Converts [.bytes32, .uint 128, .uint 8] fun tokens => expect "rule" (ruleOf tokens) := by
  intro tokens htyped
  simp only [Typed, List.forall₂_cons_left_iff, List.forall₂_nil_left_iff, Abi.check_uint_ok,
    Abi.check_bytes32_ok] at htyped
  obtain ⟨_, _, ⟨signature, rfl⟩, ⟨_, _, ⟨topic, rfl, -⟩, ⟨_, _, ⟨check, rfl, hcheck⟩, rfl, rfl⟩,
    rfl⟩, rfl⟩ := htyped
  refine ⟨⟨signature, topic.toUInt64Saturating, .ofCode (UInt8.ofNat check.toNat)⟩, fun r => ?_⟩
  change exec (expect "rule" (if check.toNat < 256 then _ else _)) r = _
  rw [if_pos (show check.toNat < 256 from hcheck)]
  rfl

theorem unit_converts (tys : List Abi.Ty) : Converts tys fun _ => pure () :=
  fun _ _ => ⟨(), fun _ => rfl⟩

-- ---------------------------------------------------------------------------
-- One call
-- ---------------------------------------------------------------------------

/-- What comes of a call of a method, by what the environment replied. -/
structure Answers (name : String) (m : Method) (reply : Outcome) (x : Except ContractError α) :
    Prop where
  failed : ∀ cause, reply.error = some cause → x = .error (.ofVm cause reply.returnData)
  unreadable : reply.error = none → ∀ cause,
    Abi.decode m.outputs reply.returnData = .error cause → x = .error (.unpack name cause.message)
  readable : reply.error = none → ∀ tokens,
    Abi.decode m.outputs reply.returnData = .ok tokens → ∃ answer, x = .ok answer

/-- The step sends one message to the contract and answers by the reply to it. -/
def Calls (ctx : BlockContext) (r : Run) (contract : SystemContract) (name : String)
    (s : Step ContractError α) : Prop :=
  ∃ m message, contract.method name = .ok m ∧ message.callee = some contract.address ∧
    (exec s r).2 = ctx.afterCall message r ∧
    Answers name m (ctx.reply message r.ledger) (exec s r).1

namespace Answers

variable {name : String} {m : Method} {reply : Outcome} {x : Except ContractError α}

theorem foreseen (h : Answers name m reply x) {cause : ContractError} (hx : x = .error cause) :
    cause.Foreseen := by
  cases herror : reply.error with
  | some fault =>
    cases hx.symm.trans (h.failed fault herror)
    exact ContractError.foreseen_ofVm fault reply.returnData
  | none =>
    cases hdecode : Abi.decode m.outputs reply.returnData with
    | error fault =>
      cases hx.symm.trans (h.unreadable herror fault hdecode)
      trivial
    | ok tokens =>
      obtain ⟨answer, hok⟩ := h.readable herror tokens hdecode
      cases hx.symm.trans hok

theorem ok_iff (h : Answers name m reply x) (herror : reply.error = none) :
    (∃ answer, x = .ok answer) ↔ ∃ tokens, Abi.decode m.outputs reply.returnData = .ok tokens := by
  cases hdecode : Abi.decode m.outputs reply.returnData with
  | error fault => simp [h.unreadable herror fault hdecode]
  | ok tokens => exact iff_of_true (h.readable herror tokens hdecode) ⟨tokens, rfl⟩

theorem isOk_of_no_outputs (h : Answers name m reply x) (houtputs : m.outputs = []) :
    x.isOk = reply.error.isNone := by
  cases herror : reply.error with
  | some fault =>
    rw [h.failed fault herror]
    rfl
  | none =>
    obtain ⟨answer, rfl⟩ := h.readable herror [] (houtputs ▸ rfl)
    rfl

end Answers

section
variable {contract : SystemContract} {name : String} {m : Method}
variable {args : List Token} {read : List Token → Step ContractError α}

theorem callMethod_answers (ctx : BlockContext) (r : Run) (sender : Address) (value : Word)
    (hm : contract.method name = .ok m) (hargs : Typed m.inputs args)
    (hread : Converts m.outputs read) :
    ∃ message, message = BlockContext.callMessage sender contract.address
        (m.selector ++ Abi.encode args) value ∧
      (exec (ctx.callMethod sender contract name args value >>= read) r).2 =
        ctx.afterCall message r ∧
      Answers name m (ctx.reply message r.ledger)
        (exec (ctx.callMethod sender contract name args value >>= read) r).1 := by
  have hpack : contract.pack name args = .ok (m.selector ++ Abi.encode args) :=
    SystemContract.pack_ok hm hargs.length_eq ((Abi.checkAll_ok hargs.length_eq).mpr hargs)
  have hcall : exec (ctx.callMethod sender contract name args value) r = _ :=
    ctx.exec_callMethod hpack
  generalize BlockContext.callMessage sender contract.address _ value = message at hcall ⊢
  have hrun : ∃ x, exec (ctx.callMethod sender contract name args value >>= read) r =
      (x, ctx.afterCall message r) ∧ Answers name m (ctx.reply message r.ledger) x := by
    unfold Outcome.answer at hcall
    cases herror : (ctx.reply message r.ledger).error with
    | some cause =>
      rw [herror] at hcall
      refine ⟨_, Step.exec_bind_of_error hcall, ?_, ?_, ?_⟩
      · rintro _ h
        cases herror.symm.trans h
        rfl
      all_goals exact fun h => nomatch herror.symm.trans h
    | none =>
      simp only [herror, ok_bind] at hcall
      cases hdecode : Abi.decode m.outputs (ctx.reply message r.ledger).returnData with
      | error cause =>
        rw [SystemContract.values_error hm hdecode] at hcall
        refine ⟨_, Step.exec_bind_of_error hcall, ?_, ?_, ?_⟩
        · exact fun _ h => nomatch herror.symm.trans h
        · rintro - _ h
          cases hdecode.symm.trans h
          rfl
        · exact fun _ _ h => nomatch hdecode.symm.trans h
      | ok tokens =>
        have htyped := Abi.typed_of_decode hdecode
        obtain ⟨answer, hanswer⟩ := hread tokens htyped
        rw [SystemContract.values_ok hm hdecode htyped.length_eq.symm] at hcall
        refine ⟨.ok answer, (Step.exec_bind_of_ok hcall).trans (hanswer _), ?_, ?_, ?_⟩
        · exact fun _ h => nomatch herror.symm.trans h
        · exact fun _ _ h => nomatch hdecode.symm.trans h
        · exact fun _ _ _ => ⟨answer, rfl⟩
  obtain ⟨x, hx, hanswers⟩ := hrun
  rw [hx]
  exact ⟨message, rfl, rfl, hanswers⟩

end

-- ---------------------------------------------------------------------------
-- All accessors
-- ---------------------------------------------------------------------------

/-- A method of a registry that the engine calls, with what it passes. -/
inductive Accessor where
  | topValidators
  | updateActiveValidators (validators : List Address) (epoch : UInt64)
  | distributeReward (reward : Word)
  | initializeValidators (validators managers : List Address) (admin : Address)
  | punish (validator : Address)
  | decreaseMissedBlocks (epoch : UInt64)
  | initializePunish
  | passedProposalCount
  | passedProposal (index : UInt32)
  | finishProposal (id : Word)
  | initializeGovernance (admin : Address)
  | bannedSenders
  | bannedRecipients
  | ruleCount
  | rule (index : UInt32)
  | initializeAddressList (admin : Address)

namespace Accessor

def contract : Accessor → SystemContract
  | topValidators | updateActiveValidators .. | distributeReward _ | initializeValidators .. =>
    .validators
  | punish _ | decreaseMissedBlocks _ | initializePunish => .punish
  | passedProposalCount | passedProposal _ | finishProposal _ | initializeGovernance _ =>
    .governance
  | bannedSenders | bannedRecipients | ruleCount | rule _ | initializeAddressList _ =>
    .addressList

def name : Accessor → String
  | topValidators => "getTopValidators"
  | updateActiveValidators .. => "updateActiveValidatorSet"
  | distributeReward _ => "distributeBlockReward"
  | punish _ => "punish"
  | decreaseMissedBlocks _ => "decreaseMissedBlocksCounter"
  | passedProposalCount => "getPassedProposalCount"
  | passedProposal _ => "getPassedProposalByIndex"
  | finishProposal _ => "finishProposalById"
  | bannedSenders => "getBlacksFrom"
  | bannedRecipients => "getBlacksTo"
  | ruleCount => "rulesLen"
  | rule _ => "getRuleByIndex"
  | initializeValidators .. | initializePunish | initializeGovernance _
  | initializeAddressList _ => "initialize"

def Answer : Accessor → Type
  | topValidators | bannedSenders | bannedRecipients => List Address
  | passedProposalCount | ruleCount => UInt32
  | passedProposal _ => Proposal
  | rule _ => RuleEntry
  | updateActiveValidators .. | distributeReward _ | initializeValidators .. | punish _
  | decreaseMissedBlocks _ | initializePunish | finishProposal _ | initializeGovernance _
  | initializeAddressList _ => Unit

def step (ctx : BlockContext) : (a : Accessor) → Step ContractError a.Answer
  | topValidators => Registry.topValidators ctx
  | updateActiveValidators validators epoch =>
    Registry.updateActiveValidators ctx validators epoch
  | distributeReward reward => Registry.distributeReward ctx reward
  | initializeValidators validators managers admin =>
    Registry.initializeValidators ctx validators managers admin
  | punish validator => Registry.punish ctx validator
  | decreaseMissedBlocks epoch => Registry.decreaseMissedBlocks ctx epoch
  | initializePunish => Registry.initializePunish ctx
  | passedProposalCount => Registry.passedProposalCount ctx
  | passedProposal index => Registry.passedProposal ctx index
  | finishProposal id => Registry.finishProposal ctx id
  | initializeGovernance admin => Registry.initializeGovernance ctx admin
  | bannedSenders => Registry.bannedSenders ctx
  | bannedRecipients => Registry.bannedRecipients ctx
  | ruleCount => Registry.ruleCount ctx
  | rule index => Registry.rule ctx index
  | initializeAddressList admin => Registry.initializeAddressList ctx admin

/-- Who calls: the policy and the queue are read as the producer of the block, which also takes
proposals off the queue. -/
def caller (header : Header) : Accessor → Address
  | passedProposalCount | passedProposal _ | finishProposal _ | bannedSenders | bannedRecipients
  | ruleCount | rule _ => header.coinbase
  | topValidators | updateActiveValidators .. | distributeReward _ | initializeValidators ..
  | punish _ | decreaseMissedBlocks _ | initializePunish | initializeGovernance _
  | initializeAddressList _ => Address.engineCaller

def value : Accessor → Word
  | distributeReward reward => reward
  | _ => 0

def args : Accessor → List Token
  | topValidators | distributeReward _ | initializePunish | passedProposalCount | bannedSenders
  | bannedRecipients | ruleCount => []
  | updateActiveValidators validators epoch => rotationTokens validators epoch
  | initializeValidators validators managers admin =>
    [.ofAddresses validators, .ofAddresses managers, .address admin]
  | decreaseMissedBlocks epoch => [.uint (BitVec.ofNat 256 epoch.toNat)]
  | passedProposal index | rule index => [indexToken index]
  | finishProposal id => [.uint id]
  | punish account | initializeGovernance account | initializeAddressList account =>
    [.address account]

theorem step_eq (a : Accessor) (ctx : BlockContext) :
    ∃ m read, a.contract.method a.name = .ok m ∧ Typed m.inputs a.args ∧
      Converts m.outputs read ∧
      a.step ctx =
        (ctx.callMethod (a.caller ctx.header) a.contract a.name a.args a.value >>= read) := by
  have hword : ∀ v : Word, (Token.uint v).check (.uint 256) = .ok () := fun v => check_uint v.isLt
  cases a with
  | topValidators => exact ⟨_, _, rfl, .nil, addressList_converts _, rfl⟩
  | updateActiveValidators validators epoch =>
    exact ⟨_, _, rfl, .cons (check_addresses _) (.cons (hword _) .nil), unit_converts _, rfl⟩
  | distributeReward reward => exact ⟨_, _, rfl, .nil, unit_converts _, rfl⟩
  | initializeValidators validators managers admin =>
    exact ⟨_, _, rfl, .cons (check_addresses _) (.cons (check_addresses _) (.cons rfl .nil)),
      unit_converts _, rfl⟩
  | decreaseMissedBlocks epoch =>
    exact ⟨_, _, rfl, .cons (hword _) .nil, unit_converts _, rfl⟩
  | initializePunish => exact ⟨_, _, rfl, .nil, unit_converts _, rfl⟩
  | passedProposalCount => exact ⟨_, _, rfl, .nil, smallNumber_converts _, rfl⟩
  | passedProposal index =>
    exact ⟨_, _, rfl, .cons (check_index index) .nil, proposalOf_converts, rfl⟩
  | finishProposal id => exact ⟨_, _, rfl, .cons (hword id) .nil, unit_converts _, rfl⟩
  | bannedSenders => exact ⟨_, _, rfl, .nil, addressList_converts _, rfl⟩
  | bannedRecipients => exact ⟨_, _, rfl, .nil, addressList_converts _, rfl⟩
  | ruleCount => exact ⟨_, _, rfl, .nil, smallNumber_converts _, rfl⟩
  | rule index => exact ⟨_, _, rfl, .cons (check_index index) .nil, ruleOf_converts, rfl⟩
  | punish account | initializeGovernance account | initializeAddressList account =>
    exact ⟨_, _, rfl, .cons rfl .nil, unit_converts _, rfl⟩

def Sends (a : Accessor) (header : Header) (message : Message) : Prop :=
  ∃ data, a.contract.pack a.name a.args = .ok data ∧
    message = BlockContext.callMessage (a.caller header) a.contract.address data a.value

theorem answers (a : Accessor) (ctx : BlockContext) (r : Run) :
    ∃ m message, a.contract.method a.name = .ok m ∧ a.Sends ctx.header message ∧
      (exec (a.step ctx) r).2 = ctx.afterCall message r ∧
      Answers a.name m (ctx.reply message r.ledger) (exec (a.step ctx) r).1 := by
  obtain ⟨m, read, hm, hargs, hread, hstep⟩ := a.step_eq ctx
  obtain ⟨message, hmessage, hrun, hanswers⟩ :=
    callMethod_answers ctx r (a.caller ctx.header) a.value hm hargs hread
  have hpack := SystemContract.pack_ok hm hargs.length_eq
    ((Abi.checkAll_ok hargs.length_eq).mpr hargs)
  rw [hstep]
  exact ⟨m, message, hm, ⟨_, hpack, hmessage⟩, hrun, hanswers⟩

theorem sends (a : Accessor) (ctx : BlockContext) (r : Run) :
    ∃ message, a.Sends ctx.header message ∧ (exec (a.step ctx) r).2 = ctx.afterCall message r := by
  obtain ⟨-, message, -, hsends, hrun, -⟩ := a.answers ctx r
  exact ⟨message, hsends, hrun⟩

theorem calls (a : Accessor) (ctx : BlockContext) (r : Run) :
    Calls ctx r a.contract a.name (a.step ctx) := by
  obtain ⟨m, message, hm, ⟨data, -, rfl⟩, hrun, hanswers⟩ := a.answers ctx r
  exact ⟨m, _, hm, rfl, hrun, hanswers⟩

end Accessor

/-- Whatever it is passed, and whatever the contract replies, an accessor sends one message
and fails only if the call fails or the reply cannot be decoded. So one of a method without
outputs answers whenever the call does not fail. -/
theorem accessor_fails_as_foreseen (a : Accessor) (ctx : BlockContext) (r : Run) :
    (∀ cause, (exec (a.step ctx) r).1 = .error cause → cause.Foreseen) ∧
    ∃ m message, a.contract.method a.name = .ok m ∧ message.callee = some a.contract.address ∧
      (exec (a.step ctx) r).2 = ctx.afterCall message r ∧
      ((ctx.reply message r.ledger).error = none →
        ((∃ answer, (exec (a.step ctx) r).1 = .ok answer) ↔
          ∃ tokens, Abi.decode m.outputs (ctx.reply message r.ledger).returnData = .ok tokens) ∧
        (m.outputs = [] → ∃ answer, (exec (a.step ctx) r).1 = .ok answer)) := by
  obtain ⟨m, message, hm, hcallee, hrun, hanswers⟩ := a.calls ctx r
  refine ⟨fun cause h => hanswers.foreseen h, m, message, hm, hcallee, hrun, fun herror => ?_⟩
  refine ⟨hanswers.ok_iff herror, fun hnone => ?_⟩
  refine hanswers.readable herror [] ?_
  rw [hnone]
  rfl

open SampleBlock in
set_option maxRecDepth 10000 in
/-- The governance contract of the sample block replies to all alike. That reply is decoded
where an entry is asked for, and ignored where nothing is. -/
theorem sample_accessors_answer :
    (∃ p, (exec (Registry.passedProposal (engine.context header) 0) start).1 = .ok p) ∧
      ∃ u, (exec (Registry.finishProposal (engine.context header) 2) start).1 = .ok u := by
  constructor
  · obtain ⟨-, m, message, hm, hcallee, -, hreply⟩ :=
      accessor_fails_as_foreseen (.passedProposal 0) (engine.context header) start
    refine (hreply rfl).1.mpr ⟨entry, ?_⟩
    have hdata : ((engine.context header).reply message start.ledger).returnData =
        answer [candidate] message.callee := rfl
    cases hm
    rw [hdata, hcallee]
    rfl
  · obtain ⟨-, m, message, hm, -, -, hreply⟩ :=
      accessor_fails_as_foreseen (.finishProposal 2) (engine.context header) start
    cases hm
    exact (hreply rfl).2 rfl

end Registry

end StakeGov
