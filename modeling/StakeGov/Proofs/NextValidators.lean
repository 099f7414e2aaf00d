import StakeGov.InMemory.SampleBlocks
import StakeGov.Proofs.BlockEnds
import StakeGov.Proofs.ExtraData

/-!
# The next validators

What `topValidators` answers depends on the header, the chain and the ledger after the
parent (`ranking`), and of the run it changes nothing but the record
(`exec_topValidators`). So no call of the block has a say in who is next: runs of the block
rules from any two ledgers that end well name the same validators.
-/

namespace StakeGov

open Step (exec)

open Registry (candidatesMessage)

-- ---------------------------------------------------------------------------
-- What the contract reports
-- ---------------------------------------------------------------------------

structure BlockContext.Reports (ctx : BlockContext) (l : Ledger) (ranked : List Address) :
    Prop where
  success : (ctx.reply candidatesMessage l).error = none
  decoded : Abi.decode [.array .address] (ctx.reply candidatesMessage l).returnData =
    .ok [.ofAddresses ranked]

theorem BlockContext.reports_iff {ctx : BlockContext} {l : Ledger} {ranked : List Address} :
    ctx.Reports l ranked ↔
      Registry.readCandidates (ctx.reply candidatesMessage l) = .ok ranked := by
  rw [Registry.readCandidates_ok]
  exact ⟨fun h => ⟨h.success, h.decoded⟩, fun h => ⟨h.1, h.2⟩⟩

namespace Engine

def Reported (e : Engine) (ctx : BlockContext) (ranked : List Address) : Prop :=
  ∃ parent ledger,
    ctx.chain.header ctx.header.parentHash (saturatingPred ctx.header.number) = some parent ∧
    e.ledgerAt parent.root = .ok ledger ∧ ctx.Reports ledger ranked

variable {e : Engine} {ctx : BlockContext} {r r' : Run} {list ranked : List Address}

theorem ranking_eq_ok :
    e.ranking ctx = .ok list ↔ ∃ ranked, e.Reported ctx ranked ∧ list = sortAddresses ranked := by
  rw [ranking_ok]
  constructor
  · rintro ⟨parent, ledger, ranked, hparent, hledger, hread, hlist⟩
    exact ⟨ranked, ⟨parent, ledger, hparent, hledger, BlockContext.reports_iff.mpr hread⟩, hlist⟩
  · rintro ⟨ranked, ⟨parent, ledger, hparent, hledger, hreports⟩, hlist⟩
    exact ⟨parent, ledger, ranked, hparent, hledger, BlockContext.reports_iff.mp hreports, hlist⟩

theorem Reported.ranking (h : e.Reported ctx ranked) :
    e.ranking ctx = .ok (sortAddresses ranked) :=
  ranking_eq_ok.mpr ⟨ranked, h, rfl⟩

-- ---------------------------------------------------------------------------
-- Who is next
-- ---------------------------------------------------------------------------

theorem ranking_of_blockRules {next : Option (List Address)}
    (h : exec (e.blockRules ctx) r = (.ok next, r')) :
    next = if e.AtEpochEnd ctx.header.number then (e.ranking ctx).toOption else none := by
  rcases exec_blockRules_ok h with ⟨hepoch, list, q, rfl, hsync⟩ | ⟨hepoch, rfl⟩
  · rw [if_pos hepoch, ranking_of_syncEpoch hsync]
    rfl
  · rw [if_neg hepoch]

/-- The next validators are the candidates on the ledger after the parent, in ascending
order. They depend neither on the run, of which nothing changes but the record, nor on the
order in which the contract lists them; so whatever was paid and called before them in two
runs, if both end well then with the same validators. -/
theorem next_validators_insulated (e : Engine) (ctx : BlockContext) :
    ∃ answer,
      (∃ read, ∀ r, exec (e.topValidators ctx) r =
        (answer, { r with events := r.events ++ read })) ∧
      (∀ list, answer = .ok list ↔ ∃ ranked, e.Reported ctx ranked ∧ list.Perm ranked ∧
        list.Pairwise fun a b => a.toNat ≤ b.toNat) ∧
      (∀ (e' : Engine) (ctx' : BlockContext) (ranked ranked' : List Address),
        e.Reported ctx ranked → e'.Reported ctx' ranked' → ranked.Perm ranked' →
        ∀ r, (exec (e'.topValidators ctx') r).1 = answer) ∧
      (∀ (r₁ r₂ q₁ q₂ : Run) (next₁ next₂ : List Address),
        exec (e.syncEpoch ctx) r₁ = (.ok next₁, q₁) →
        exec (e.syncEpoch ctx) r₂ = (.ok next₂, q₂) → next₁ = next₂ ∧ answer = .ok next₁) ∧
      (∀ (r₁ r₂ q₁ q₂ : Run) (next₁ next₂ : Option (List Address)),
        exec (e.blockRules ctx) r₁ = (.ok next₁, q₁) →
        exec (e.blockRules ctx) r₂ = (.ok next₂, q₂) →
        next₁ = next₂ ∧ ∀ list, next₁ = some list → answer = .ok list) := by
  refine ⟨e.ranking ctx, exec_topValidators e ctx, ?_, ?_, ?_, ?_⟩
  · intro list
    simp only [ranking_eq_ok, eq_sortAddresses]
  · intro e' ctx' ranked ranked' h h' hperm r
    obtain ⟨read, hread⟩ := exec_topValidators e' ctx'
    rw [hread, h.ranking, h'.ranking, sortAddresses_congr hperm]
  · intro r₁ r₂ q₁ q₂ next₁ next₂ h₁ h₂
    have hanswer := ranking_of_syncEpoch h₁
    exact ⟨Except.ok.inj (hanswer.symm.trans (ranking_of_syncEpoch h₂)), hanswer⟩
  · intro r₁ r₂ q₁ q₂ next₁ next₂ h₁ h₂
    have hnext := ranking_of_blockRules h₁
    refine ⟨hnext.trans (ranking_of_blockRules h₂).symm, fun list hlist => ?_⟩
    rw [hlist] at hnext
    split at hnext
    · exact Step.toOption_eq_some.mp hnext.symm
    · cases hnext

open SampleFirst (header start)
open SampleCandidates (engine)

theorem sample_reported (listed : List Address)
    (h : (Abi.encode [.ofAddresses (listed ++ [0])]).length < 2 ^ 64) :
    (engine listed).Reported ((engine listed).context header) (listed ++ [0]) := by
  have hcheck : Abi.checkAll [.array .address] [.ofAddresses (listed ++ [0])] = .ok () :=
    (Abi.checkAll_ok rfl).mpr (.cons (Registry.check_addresses _) .nil)
  exact ⟨SampleBlock.parent, {}, rfl, rfl, rfl, Abi.decode_encode rfl hcheck h⟩

set_option maxRecDepth 100000 in
/-- Once the fees are paid out the engine's own balance would make another account a
candidate, but the list is read where it has none. -/
theorem sample_validators_insulated :
    (∀ r ∈ [start 5, start 8], ∃ q q',
      exec ((engine [9, 7, 7]).blockRules ((engine [9, 7, 7]).context header)) r =
        (.ok (some [0, 7, 7, 9]), q) ∧
      exec ((engine [9, 7, 7]).syncEpoch ((engine [9, 7, 7]).context header)) r =
        (.ok [0, 7, 7, 9], q')) ∧
    (exec ((engine [7, 9, 7]).topValidators ((engine [7, 9, 7]).context header)) (start 5)).1 =
      .ok [0, 7, 7, 9] := by
  obtain ⟨answer, -, hsorted, hperm, hsync, hrules⟩ :=
    next_validators_insulated (engine [9, 7, 7]) ((engine [9, 7, 7]).context header)
  have hreported := sample_reported [9, 7, 7] (by decide)
  have hother := sample_reported [7, 9, 7] (by decide)
  have hanswer : answer = .ok [0, 7, 7, 9] :=
    (hsorted _).mpr ⟨_, hreported, by decide, by decide⟩
  refine ⟨fun r hr => ?_, (hperm _ _ _ _ hreported hother (by decide) (start 5)).trans hanswer⟩
  have hrulesEnd : (exec ((engine [9, 7, 7]).blockRules
      ((engine [9, 7, 7]).context header)) r).1.toOption.join.isSome := by
    rcases List.mem_pair.mp hr with rfl | rfl <;> decide +kernel
  have hsyncEnd : (exec ((engine [9, 7, 7]).syncEpoch
      ((engine [9, 7, 7]).context header)) r).1.toOption.isSome := by
    rcases List.mem_pair.mp hr with rfl | rfl <;> decide +kernel
  obtain ⟨list, hlist⟩ := Option.isSome_iff_exists.mp hrulesEnd
  obtain ⟨list', hlist'⟩ := Option.isSome_iff_exists.mp hsyncEnd
  have hrun := Step.exec_of_toOption (Option.join_eq_some_iff.mp hlist)
  have hrun' := Step.exec_of_toOption hlist'
  obtain rfl : list = [0, 7, 7, 9] :=
    Except.ok.inj (((hrules _ _ _ _ _ _ hrun hrun).2 list rfl).symm.trans hanswer)
  obtain rfl : list' = [0, 7, 7, 9] :=
    Except.ok.inj ((hsync _ _ _ _ _ _ hrun' hrun').2.symm.trans hanswer)
  exact ⟨_, _, hrun, hrun'⟩

end Engine

end StakeGov
