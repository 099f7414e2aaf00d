import StakeGov.Engine.Governance
import StakeGov.Proofs.CallData
import StakeGov.Proofs.Calls

/-!
# The calls of the governance queue

The three methods by which the queue of passed proposals is read and shortened, as
messages of the block's producer. Where the contract answers with the forms of a number
and of an entry, these are what is read (`exec_passedProposalCount`,
`exec_passedProposal_ok`); taking a proposal off is one message
(`exec_finishProposal_ok`).
-/

namespace StakeGov

open Abi (Token Method)
open Step (exec exec_bind exec_bind_ok)

theorem Abi.Method.length_selector (m : Method) : m.selector.length = 4 := rfl

theorem Abi.encode_uint (v : Word) : Abi.encode [.uint v] = v.bytes := by
  simp [Abi.encode, Abi.parts, Abi.layout, Abi.heads, Token.part, Abi.Part.tail]

namespace SystemContract

variable {c : SystemContract} {name : String} {m : Method}

theorem pack_ok {args : List Token} (hm : c.method name = .ok m)
    (hcount : m.inputs.length = args.length) (hcheck : Abi.checkAll m.inputs args = .ok ()) :
    c.pack name args = .ok (m.selector ++ Abi.encode args) := by
  rw [pack, hm, ok_bind, Method.encodeInput, Abi.encodeChecked_of_check hcount hcheck]
  rfl

theorem values_ok {data : Bytes} {tokens : List Token} (hm : c.method name = .ok m)
    (hdecode : Abi.decode m.outputs data = .ok tokens) (hcount : tokens.length = m.outputs.length) :
    c.values name data = .ok tokens := by
  rw [values, unpack, hm, ok_bind, Method.decodeOutput, hdecode]
  change (if tokens.length ≠ m.outputs.length then _ else _) = _
  rw [if_neg (not_not_intro hcount)]
  rfl

theorem values_error {data : Bytes} {cause : Abi.Error} (hm : c.method name = .ok m)
    (hdecode : Abi.decode m.outputs data = .error cause) :
    c.values name data = .error (.unpack name cause.message) := by
  rw [values, unpack, hm, ok_bind, Method.decodeOutput, hdecode]
  rfl

theorem decode_of_values {data : Bytes} {tokens : List Token} (hm : c.method name = .ok m)
    (h : c.values name data = .ok tokens) : Abi.decode m.outputs data = .ok tokens := by
  cases hdecode : Abi.decode m.outputs data with
  | error cause =>
    rw [values_error hm hdecode] at h
    cases h
  | ok read =>
    rw [values, unpack, hm, ok_bind, Method.decodeOutput, hdecode] at h
    change (if read.length ≠ m.outputs.length then _ else _) = _ at h
    split at h
    · cases h
    · cases h
      rfl

end SystemContract

theorem BlockContext.exec_callMethod_ok (ctx : BlockContext) {r : Run} {sender : Address}
    {c : SystemContract} {m : Method} {args row : List Token} {data : Bytes} {value : Word}
    (hm : c.method m.name = .ok m) (hpack : c.pack m.name args = .ok data)
    (hsuccess : (ctx.reply (callMessage sender c.address data value) r.ledger).error = none)
    (hdecode : Abi.decode m.outputs
      (ctx.reply (callMessage sender c.address data value) r.ledger).returnData = .ok row)
    (hcount : row.length = m.outputs.length) :
    exec (ctx.callMethod sender c m.name args value) r =
      (.ok row, ctx.afterCall (callMessage sender c.address data value) r) := by
  rw [ctx.exec_callMethod hpack, Outcome.answer, hsuccess]
  exact Prod.ext (SystemContract.values_ok hm hdecode hcount) rfl

namespace Registry

-- ---------------------------------------------------------------------------
-- Call data
-- ---------------------------------------------------------------------------

def countMethod : Method := ⟨"getPassedProposalCount", [], [.uint 32]⟩

def entryMethod : Method :=
  ⟨"getPassedProposalByIndex", [.uint 32],
    [.uint 256, .uint 256, .address, .address, .uint 256, .bytes]⟩

def finishMethod : Method := ⟨"finishProposalById", [.uint 256], []⟩

def indexToken (index : UInt32) : Token :=
  .uint (BitVec.ofNat 256 index.toNat)

def entryTokens (p : Proposal) : List Token :=
  [.uint p.id, .uint p.action, .address p.sender, .address p.target, .uint p.value, .bytes p.data]

theorem check_uint {bits : Nat} {v : Word} (h : v.toNat < 2 ^ bits) :
    (Token.uint v).check (.uint bits) = .ok () := by
  have hfits : Abi.fits bits v = true := by
    simp [Abi.fits, (Word.bitLength_le_iff v bits).mpr h]
  rw [Token.check, if_pos hfits]

theorem check_index (index : UInt32) : (indexToken index).check (.uint 32) = .ok () := by
  have hlt : index.toNat < 2 ^ 32 := index.toNat_lt
  apply check_uint
  rw [BitVec.toNat_ofNat, Nat.mod_eq_of_lt (by omega)]
  exact hlt

theorem pack_count :
    SystemContract.governance.pack countMethod.name [] =
      .ok (countMethod.selector ++ Abi.encode []) :=
  SystemContract.pack_ok rfl rfl rfl

theorem pack_entry (index : UInt32) :
    SystemContract.governance.pack entryMethod.name [indexToken index] =
      .ok (entryMethod.selector ++ Abi.encode [indexToken index]) := by
  refine SystemContract.pack_ok rfl rfl ?_
  change (do (indexToken index).check (.uint 32); _) = _
  rw [check_index]
  rfl

theorem pack_finish (id : Word) :
    SystemContract.governance.pack finishMethod.name [.uint id] =
      .ok (finishMethod.selector ++ Abi.encode [.uint id]) := by
  refine SystemContract.pack_ok rfl rfl ?_
  change (do (Token.uint id).check (.uint 256); _) = _
  rw [check_uint id.isLt]
  rfl

-- ---------------------------------------------------------------------------
-- Answers
-- ---------------------------------------------------------------------------

theorem decode_count {v : Word} (h : v.toNat < 2 ^ 32) :
    Abi.decode countMethod.outputs (Abi.encode [.uint v]) = .ok [.uint v] := by
  have hread : Abi.decodeAt (.uint 32) (Abi.encode [.uint v]) (32 * 0) = .ok (.uint v) :=
    Abi.decodeAt_encode_inline [] [] (check_uint h) rfl (by decide)
  change (do let token ← Abi.decodeAt (.uint 32) (Abi.encode [.uint v]) (32 * 0); _) = _
  rw [hread]
  rfl

/-- An entry is read back, or refused because its bytes end beyond all positions. -/
theorem decode_entry (p : Proposal) (h : p.data.length < 2 ^ 256) :
    (224 + p.data.length < Abi.positionBound ∧
      Abi.decode entryMethod.outputs (Abi.encode (entryTokens p)) = .ok (entryTokens p)) ∨
    ∃ cause, Abi.decode entryMethod.outputs (Abi.encode (entryTokens p)) = .error cause := by
  have hid : Abi.decodeAt (.uint 256) (Abi.encode (entryTokens p)) (32 * 0) = .ok (.uint p.id) :=
    Abi.decodeAt_encode_inline [] _ (check_uint p.id.isLt) rfl (by decide)
  have haction : Abi.decodeAt (.uint 256) (Abi.encode (entryTokens p)) (32 * 1) =
      .ok (.uint p.action) :=
    Abi.decodeAt_encode_inline ((entryTokens p).take 1) _ (check_uint p.action.isLt) rfl
      (show 32 * 1 + 32 < Abi.positionBound by decide)
  have hsender : Abi.decodeAt .address (Abi.encode (entryTokens p)) (32 * 2) =
      .ok (.address p.sender) :=
    Abi.decodeAt_encode_inline ((entryTokens p).take 2) _ rfl rfl
      (show 32 * 2 + 32 < Abi.positionBound by decide)
  have htarget : Abi.decodeAt .address (Abi.encode (entryTokens p)) (32 * 3) =
      .ok (.address p.target) :=
    Abi.decodeAt_encode_inline ((entryTokens p).take 3) _ rfl rfl
      (show 32 * 3 + 32 < Abi.positionBound by decide)
  have hvalue : Abi.decodeAt (.uint 256) (Abi.encode (entryTokens p)) (32 * 4) =
      .ok (.uint p.value) :=
    Abi.decodeAt_encode_inline ((entryTokens p).take 4) _ (check_uint p.value.isLt) rfl
      (show 32 * 4 + 32 < Abi.positionBound by decide)
  have hdecode : Abi.decode entryMethod.outputs (Abi.encode (entryTokens p)) = (do
      let data ← Abi.decodeAt .bytes (Abi.encode (entryTokens p)) (32 * 5)
      return [.uint p.id, .uint p.action, .address p.sender, .address p.target, .uint p.value,
        data]) := by
    simp only [Abi.decode, entryMethod, Abi.decodeFrom, hid, haction, hsender, htarget, hvalue,
      bind, Except.bind, pure, Except.pure]
    cases Abi.decodeAt .bytes (Abi.encode (entryTokens p)) (32 * 5) <;> rfl
  rw [hdecode]
  have hstart : Abi.bytesStart ((entryTokens p).take 5) [] + 32 < Abi.positionBound :=
    show 32 * 6 + 0 + 32 < Abi.positionBound by decide
  rcases Abi.decodeAt_encode_bytes ((entryTokens p).take 5) [] p.data hstart h with
    ⟨hlength, hdata⟩ | ⟨cause, hdata⟩
  · refine .inl ⟨hlength, ?_⟩
    rw [show Abi.decodeAt .bytes (Abi.encode (entryTokens p)) (32 * 5) = _ from hdata]
    rfl
  · refine .inr ⟨cause, ?_⟩
    rw [show Abi.decodeAt .bytes (Abi.encode (entryTokens p)) (32 * 5) = _ from hdata]
    rfl

-- ---------------------------------------------------------------------------
-- Messages
-- ---------------------------------------------------------------------------

def governanceMessage (coinbase : Address) (m : Method) (args : List Token) : Message :=
  BlockContext.callMessage coinbase SystemContract.governance.address
    (m.selector ++ Abi.encode args) 0

def countMessage (coinbase : Address) : Message :=
  governanceMessage coinbase countMethod []

def entryMessage (coinbase : Address) (index : UInt32) : Message :=
  governanceMessage coinbase entryMethod [indexToken index]

def finishMessage (coinbase : Address) (id : Word) : Message :=
  governanceMessage coinbase finishMethod [.uint id]

section
variable {ctx : BlockContext} {r r' : Run}

variable (ctx r) in
theorem exec_governance {m : Method} {args : List Token}
    (hpack : SystemContract.governance.pack m.name args = .ok (m.selector ++ Abi.encode args)) :
    exec (ctx.callAsCoinbase .governance m.name args) r =
      ((ctx.reply (governanceMessage ctx.header.coinbase m args) r.ledger).answer >>=
          SystemContract.governance.values m.name,
        ctx.afterCall (governanceMessage ctx.header.coinbase m args) r) :=
  ctx.exec_callMethod hpack

theorem exec_passedProposalCount {v : Word} (hv : v.toNat < 2 ^ 32)
    (hreply : ctx.reply (countMessage ctx.header.coinbase) r.ledger =
      .success (Abi.encode [.uint v])) :
    exec (passedProposalCount ctx) r =
      (.ok (UInt32.ofNat v.toNat), ctx.afterCall (countMessage ctx.header.coinbase) r) := by
  have hvalues : SystemContract.governance.values countMethod.name (Abi.encode [.uint v]) =
      .ok [.uint v] := SystemContract.values_ok rfl (decode_count hv) rfl
  have hcall := exec_governance ctx r pack_count
  rw [← countMessage, hreply, Outcome.answer_success, ok_bind, hvalues] at hcall
  refine (Step.exec_bind_of_ok hcall).trans ?_
  change exec (if v.toNat < UInt32.size then _ else _) _ = _
  rw [if_pos (show v.toNat < UInt32.size from hv)]
  rfl

theorem exec_passedProposal_ok {index : UInt32} {p read : Proposal} (hp : p.data.length < 2 ^ 256)
    (hreply : ctx.reply (entryMessage ctx.header.coinbase index) r.ledger =
      .success (Abi.encode (entryTokens p)))
    (h : exec (passedProposal ctx index) r = (.ok read, r')) :
    read = p ∧ r' = ctx.afterCall (entryMessage ctx.header.coinbase index) r := by
  have hcall := exec_governance ctx r (pack_entry index)
  rw [← entryMessage, hreply, Outcome.answer_success, ok_bind] at hcall
  rcases decode_entry p hp with ⟨-, hdecode⟩ | ⟨cause, hdecode⟩
  · rw [SystemContract.values_ok rfl hdecode rfl] at hcall
    have hread := (Step.exec_bind_of_ok hcall).symm.trans h
    cases hread
    exact ⟨rfl, rfl⟩
  · rw [SystemContract.values_error rfl hdecode] at hcall
    cases (Step.exec_bind_of_error hcall).symm.trans h

theorem exec_finishProposal_ok {id : Word}
    (h : exec (Engine.finishProposal ctx id) r = (.ok (), r')) :
    (ctx.reply (finishMessage ctx.header.coinbase id) (r.ledger.prepare 0 0)).error = none ∧
      r' = ctx.afterCall (finishMessage ctx.header.coinbase id)
        { r with ledger := r.ledger.prepare 0 0 } := by
  have hcall := exec_governance ctx { r with ledger := r.ledger.prepare 0 0 } (pack_finish id)
  rw [← finishMessage] at hcall
  have hfinish := (Step.exec_bind_of_ok (Step.exec_modifyLedger _ r)).symm.trans h
  obtain ⟨tokens, q, hrun, hlast⟩ := exec_bind_ok.mp hfinish
  cases hlast
  have hsame := hcall.symm.trans hrun
  have hanswer := congrArg Prod.fst hsame
  have hafter := congrArg Prod.snd hsame
  refine ⟨?_, hafter.symm⟩
  cases hreply : (ctx.reply (finishMessage ctx.header.coinbase id)
    (r.ledger.prepare 0 0)).error with
  | none => rfl
  | some cause =>
    rw [Outcome.answer] at hanswer
    simp only [hreply] at hanswer
    cases hanswer

end

end Registry

end StakeGov
