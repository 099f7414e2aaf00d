import StakeGov.Proofs.GovernanceCalls
import StakeGov.Proofs.TypedRows

/-!
# The calls of the rotation

The two methods of the validators' contract that rotate the validators. The set that is
put into force is one message, from which it is read back (`decode_rotation`). The candidates
are what the contract answers to another (`exec_topValidators`); as many as it can answer with
fit into the first (`length_of_topValidators`).
-/

namespace StakeGov

open Abi (Token Method Ty)
open Step (exec exec_bind)

namespace Abi

theorem length_of_decodeRun {read : Nat → Except Error Token} {index count : Nat}
    {items : List Token} (h : decodeRun read index count = .ok items) : items.length = count := by
  induction count generalizing index items with
  | zero =>
    cases h
    rfl
  | succ count ih =>
    obtain ⟨t, -, h⟩ := bind_ok.mp h
    obtain ⟨rest, hrest, h⟩ := bind_ok.mp h
    cases h
    rw [List.length_cons, ih hrest]

/-- The heads of an array that is read all have a position. -/
theorem length_of_decodeAt_array {element : Ty} {data : Bytes} {pos : Nat} {t : Token}
    (h : decodeAt (.array element) data pos = .ok t) :
    ∃ items, t = .array items ∧ 32 * items.length < positionBound := by
  rw [decodeAt] at h
  obtain ⟨offset, -, h⟩ := bind_ok.mp h
  obtain ⟨count, -, h⟩ := bind_ok.mp h
  obtain ⟨body, hbody, h⟩ := bind_ok.mp h
  obtain ⟨items, hitems, h⟩ := bind_ok.mp h
  cases h
  exact ⟨items, rfl, (length_of_decodeRun hitems).symm ▸ (arrayBody_ok.mp hbody).1⟩

theorem addresses?_ofAddresses (list : List Address) :
    (Token.ofAddresses list).addresses? = some list := by
  change (list.map Token.address).mapM Token.address? = some list
  induction list with
  | nil => rfl
  | cons a list ih =>
    rw [List.map_cons, List.mapM_cons, ih]
    rfl

theorem addresses?_eq_some {t : Token} {list : List Address} :
    t.addresses? = some list ↔ t = .ofAddresses list := by
  refine ⟨fun h => ?_, fun h => h ▸ addresses?_ofAddresses list⟩
  cases t with
  | array items =>
    have hmap : items.mapM Token.address? = some list := h
    clear h
    induction items generalizing list with
    | nil =>
      cases hmap
      rfl
    | cons item items ih =>
      rw [List.mapM_cons] at hmap
      obtain ⟨a, ha, hmap⟩ := Option.bind_eq_some_iff.mp hmap
      obtain ⟨rest, hrest, hmap⟩ := Option.bind_eq_some_iff.mp hmap
      cases hmap
      have htail : items = rest.map Token.address := Token.array.inj (ih hrest)
      cases item <;> cases ha
      simp [Token.ofAddresses, htail]
  | _ => cases h

end Abi

namespace Registry

-- ---------------------------------------------------------------------------
-- Call data
-- ---------------------------------------------------------------------------

def rotationMethod : Method := ⟨"updateActiveValidatorSet", [.array .address, .uint 256], []⟩

def candidatesMethod : Method := ⟨"getTopValidators", [], [.array .address]⟩

def rotationTokens (validators : List Address) (epoch : UInt64) : List Token :=
  [.ofAddresses validators, .uint (BitVec.ofNat 256 epoch.toNat)]

theorem check_addresses (list : List Address) :
    (Token.ofAddresses list).check (.array .address) = .ok () := by
  refine Abi.check_array_ok.mpr ⟨_, rfl, Abi.checkEach_ok.mpr fun item hitem => ?_⟩
  obtain ⟨a, -, rfl⟩ := List.mem_map.mp hitem
  rfl

theorem pack_rotation (validators : List Address) (epoch : UInt64) :
    SystemContract.validators.pack rotationMethod.name (rotationTokens validators epoch) =
      .ok (rotationMethod.selector ++ Abi.encode (rotationTokens validators epoch)) := by
  refine SystemContract.pack_ok rfl rfl ?_
  refine (Abi.checkAll_ok rfl).mpr (.cons (check_addresses validators) (.cons ?_ .nil))
  exact check_uint (BitVec.isLt _)

theorem pack_candidates :
    SystemContract.validators.pack candidatesMethod.name [] =
      .ok (candidatesMethod.selector ++ Abi.encode []) :=
  SystemContract.pack_ok rfl rfl rfl

theorem decode_rotation {validators : List Address} (epoch : UInt64)
    (h : 32 * validators.length < Abi.positionBound) :
    Abi.decode rotationMethod.inputs (Abi.encode (rotationTokens validators epoch)) =
      .ok (rotationTokens validators epoch) := by
  have hset : Abi.decodeAt (.array .address) (Abi.encode (rotationTokens validators epoch))
      (32 * 0) = .ok (.ofAddresses validators) := by
    rw [rotationTokens, ← List.nil_append (_ :: _), Abi.encode_split]
    refine Abi.decodeAt_array_layout (Abi.parts_narrow []) (Abi.parts_narrow _) []
      (show 32 * 2 + 0 + 32 < Abi.positionBound by decide) (by rwa [List.length_map]) ?_
    intro front item back hsplit
    obtain ⟨a, -, rfl⟩ : ∃ a ∈ validators, Token.address a = item :=
      List.mem_map.mp (by simp [hsplit])
    have hlength := congrArg List.length hsplit
    rw [List.length_map, List.length_append, List.length_cons] at hlength
    rw [hsplit, Abi.parts_split, ← Abi.length_parts front]
    exact Abi.decodeAt_inline (t := .address a) rfl rfl (Abi.parts_narrow front) _
      (by rw [Abi.length_parts]; omega)
  have hepoch : Abi.decodeAt (.uint 256) (Abi.encode (rotationTokens validators epoch))
      (32 * 1) = .ok (.uint (BitVec.ofNat 256 epoch.toNat)) :=
    Abi.decodeAt_encode_inline [.ofAddresses validators] [] (check_uint (BitVec.isLt _)) rfl
      (show 32 * 1 + 32 < Abi.positionBound by decide)
  simp only [Abi.decode, rotationMethod, Abi.decodeFrom, hset, hepoch, bind, Except.bind]
  rfl

-- ---------------------------------------------------------------------------
-- Messages
-- ---------------------------------------------------------------------------

def rotationMessage (validators : List Address) (epoch : UInt64) : Message :=
  BlockContext.callMessage Address.engineCaller SystemContract.validators.address
    (rotationMethod.selector ++ Abi.encode (rotationTokens validators epoch)) 0

def candidatesMessage : Message :=
  BlockContext.callMessage Address.engineCaller SystemContract.validators.address
    (candidatesMethod.selector ++ Abi.encode []) 0

theorem rotationMessage_inj {validators validators' : List Address} {epoch : UInt64}
    (h : 32 * validators.length < Abi.positionBound)
    (h' : 32 * validators'.length < Abi.positionBound)
    (heq : rotationMessage validators epoch = rotationMessage validators' epoch) :
    validators = validators' := by
  have hdata : Abi.encode (rotationTokens validators epoch) =
      Abi.encode (rotationTokens validators' epoch) :=
    List.append_cancel_left (congrArg Message.data heq)
  have htokens : rotationTokens validators epoch = rotationTokens validators' epoch := by
    apply Except.ok.inj (ε := Abi.Error)
    rw [← decode_rotation epoch h, ← decode_rotation epoch h', hdata]
  have hitems := Token.array.inj (List.cons.inj htokens).1
  exact List.map_injective_iff.mpr (fun _ _ => Token.address.inj) hitems

variable {ctx : BlockContext} {r : Run}

theorem updateActiveValidators_run (validators : List Address) (epoch : UInt64) :
    (exec (updateActiveValidators ctx validators epoch) r).2 =
      ctx.afterCall (rotationMessage validators epoch) r := by
  refine (Step.exec_drop_run _ r).trans ?_
  exact congrArg Prod.snd (ctx.exec_callMethod (pack_rotation validators epoch))

def readCandidates (o : Outcome) : Except ContractError (List Address) :=
  (o.answer >>= SystemContract.validators.values candidatesMethod.name) >>= fun tokens =>
    match tokens.head?.bind Token.addresses? with
    | some list => .ok list
    | none => .error (.outputFormat "validators")

theorem exec_topValidators (ctx : BlockContext) (r : Run) :
    exec (topValidators ctx) r = (readCandidates (ctx.reply candidatesMessage r.ledger),
      ctx.afterCall candidatesMessage r) := by
  have hcall : exec (ctx.callAsEngine .validators "getTopValidators" []) r =
      ((ctx.reply candidatesMessage r.ledger).answer >>=
        SystemContract.validators.values candidatesMethod.name,
        ctx.afterCall candidatesMessage r) := ctx.exec_callMethod pack_candidates
  refine (exec_bind _ _ r).trans ?_
  rw [hcall, readCandidates]
  cases (ctx.reply candidatesMessage r.ledger).answer >>=
      SystemContract.validators.values candidatesMethod.name with
  | error cause => rfl
  | ok tokens =>
    simp only [addressList, ok_bind]
    cases tokens.head?.bind Token.addresses? <;> rfl

theorem readCandidates_ok {o : Outcome} {list : List Address} :
    readCandidates o = .ok list ↔
      o.error = none ∧ Abi.decode [.array .address] o.returnData = .ok [.ofAddresses list] := by
  have hmethod : SystemContract.validators.method candidatesMethod.name =
      .ok candidatesMethod := rfl
  constructor
  · intro h
    obtain ⟨tokens, hvalues, hlist⟩ := Abi.bind_ok.mp h
    obtain ⟨data, hanswer, hvalues⟩ := Abi.bind_ok.mp hvalues
    obtain ⟨hsuccess, rfl⟩ := Outcome.answer_ok.mp hanswer
    have hdecode := SystemContract.decode_of_values hmethod hvalues
    obtain ⟨t, -, htokens⟩ := Abi.bind_ok.mp hdecode
    cases htokens
    refine ⟨hsuccess, ?_⟩
    rw [List.head?_cons, Option.bind_some] at hlist
    cases haddresses : t.addresses? with
    | none => simp [haddresses] at hlist
    | some addresses =>
      obtain rfl : addresses = list := by simpa [haddresses] using hlist
      rwa [Abi.addresses?_eq_some.mp haddresses] at hdecode
  · rintro ⟨hsuccess, hdecoded⟩
    have hvalues := SystemContract.values_ok hmethod hdecoded rfl
    simp only [readCandidates, Outcome.answer_ok.mpr ⟨hsuccess, rfl⟩, ok_bind, hvalues,
      List.head?_cons, Option.bind_some, Abi.addresses?_ofAddresses]

theorem length_of_topValidators {list : List Address}
    (h : (exec (topValidators ctx) r).1 = .ok list) : 32 * list.length < Abi.positionBound := by
  rw [exec_topValidators] at h
  obtain ⟨-, hdecode⟩ := readCandidates_ok.mp h
  obtain ⟨t, ht, htokens⟩ := Abi.bind_ok.mp hdecode
  cases htokens
  obtain ⟨items, hitems, hlength⟩ := Abi.length_of_decodeAt_array ht
  rwa [← Token.array.inj hitems, List.length_map] at hlength

end Registry

end StakeGov
