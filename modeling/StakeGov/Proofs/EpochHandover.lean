import StakeGov.Proofs.AcceptedBlocks
import StakeGov.Proofs.Records
import StakeGov.Proofs.RotationCalls

/-!
# From one epoch to the next

What a block at the end of an epoch announces is put into force one epoch later: the
first call of the rotation hands over the candidates that the contract listed for the
announcing block, in ascending order, whatever seal its header was given
(`announced_validators_installed`). The message holds as many addresses as the contract
can list.
-/

namespace StakeGov

open Registry (rotationMethod decode_rotation)
open Step (exec Appends)

namespace Engine

variable {e e' : Engine} {header block checkpoint : Header} {ctx : BlockContext}

-- ---------------------------------------------------------------------------
-- The end of the first epoch
-- ---------------------------------------------------------------------------

theorem Candidates.unique {ranked ranked' : List Address} (h : e.Candidates header ranked)
    (h' : e.Candidates header ranked') : ranked = ranked' := by
  obtain ⟨parent, ledger, hparent, hledger, hread⟩ := h
  obtain ⟨parent', ledger', hparent', hledger', hread'⟩ := h'
  obtain rfl := Option.some.inj (hparent.symm.trans hparent')
  obtain rfl := Except.ok.inj (hledger.symm.trans hledger')
  let r : Run := { ledger, policies := ⟨⟨0, []⟩, ⟨0, []⟩⟩ }
  exact Except.ok.inj ((hread r rfl).symm.trans (hread' r rfl))

theorem Candidates.length {ranked : List Address} (h : e.Candidates header ranked) :
    32 * ranked.length < Abi.positionBound := by
  obtain ⟨parent, ledger, -, -, hread⟩ := h
  exact Registry.length_of_topValidators
    (hread { ledger, policies := ⟨⟨0, []⟩, ⟨0, []⟩⟩ } rfl)

/-- A block that was ended with a header: checked under it as it is, or produced from it. -/
inductive Ended (e : Engine) (header : Header) : Header → Prop
  | accepted {txs : List Transaction} {r r' : Run}
      (run : exec (e.finalize header txs) r = (.ok (), r')) : Ended e header header
  | produced {block : Header} {r r' : Run}
      (run : exec (e.assemble header) r = (.ok block, r')) : Ended e header block

theorem Ended.announces (h : e.Ended header block) (hepoch : e.AtEpochEnd header.number) :
    block.number = header.number ∧ ∃ ranked, e.Candidates header ranked ∧
      ExtraData.validators block.extra = sortAddresses ranked := by
  cases h with
  | accepted run =>
    obtain ⟨next, queue, q, hfinds, hannounced, -⟩ := exec_finalize_ok.mp run
    exact ⟨rfl, ranked_of_announced hfinds hannounced hepoch⟩
  | produced run =>
    obtain ⟨next, queue, q, hfinds, -, rfl⟩ := exec_assemble_ok.mp run
    rcases hfinds.candidates with ⟨-, ranked, hranked, rfl⟩ | ⟨hnot, -⟩
    · exact ⟨rfl, ranked, hranked, ExtraData.validators_encode _ _⟩
    · exact absurd hepoch hnot

-- ---------------------------------------------------------------------------
-- The end of the next epoch
-- ---------------------------------------------------------------------------

theorem checkpoint?_of_later
    (hlater : ctx.header.number.toNat = header.number.toNat + e.config.engine.epoch.toNat) :
    e.checkpoint? ctx = ctx.chain.headerByNumber header.number := by
  have hle : e.config.engine.epoch ≤ ctx.header.number := by
    rw [UInt64.le_iff_toNat_le]
    omega
  have hsub : ctx.header.number - e.config.engine.epoch = header.number := by
    apply UInt64.toNat_inj.mp
    rw [UInt64.toNat_sub_of_le _ _ hle]
    omega
  simp only [checkpoint?, hle, hsub, guard, if_true]
  rfl

theorem topValidators_appends (e : Engine) (ctx : BlockContext) :
    Appends (e.topValidators ctx) := by
  obtain ⟨read, hread⟩ := exec_topValidators e ctx
  intro r
  rw [hread]
  exact List.prefix_append _ _

theorem exec_syncEpoch_empty (hcheckpoint : e.checkpoint? ctx = some checkpoint)
    (hempty : ExtraData.validators checkpoint.extra = []) (r : Run) :
    exec (e.syncEpoch ctx) r = (.error (.validation .invalidExtraValidators), r) := by
  unfold syncEpoch
  dsimp only
  rw [hcheckpoint]
  dsimp only
  rw [if_pos hempty]
  rfl

theorem syncEpoch_installs (hcheckpoint : e.checkpoint? ctx = some checkpoint)
    (hne : ExtraData.validators checkpoint.extra ≠ []) (r : Run) :
    (ctx.afterCall (Registry.rotationMessage (ExtraData.validators checkpoint.extra)
      e.config.engine.epoch) r).events <+: (exec (e.syncEpoch ctx) r).2.events := by
  unfold syncEpoch
  dsimp only
  rw [hcheckpoint]
  dsimp only
  rw [if_neg hne]
  have hinstall : (exec (Step.mapError EngineError.contract (Registry.updateActiveValidators ctx
      (ExtraData.validators checkpoint.extra) e.config.engine.epoch)) r).2 =
      ctx.afterCall (Registry.rotationMessage (ExtraData.validators checkpoint.extra)
        e.config.engine.epoch) r := by
    rw [Step.exec_mapError]
    exact Registry.updateActiveValidators_run _ _
  have hforgive : Appends (Registry.decreaseMissedBlocks ctx e.config.engine.epoch) :=
    (ctx.callMethod_appends _ _ _ _ _).bind fun _ => .pure _
  rw [← hinstall]
  exact Appends.of_first
    (fun _ => (hforgive.mapError _).bind fun _ => topValidators_appends e ctx) r

-- ---------------------------------------------------------------------------
-- Both ends
-- ---------------------------------------------------------------------------

/-- The candidates at the end of an epoch, if there are any, are the first thing that is
handed over one epoch later, on any chain that has the header of that block in force with
whatever seal. If there are none, nothing is done one epoch later. -/
theorem announced_validators_installed (hended : e.Ended header block)
    (hepoch : e.AtEpochEnd header.number)
    (hsame : e'.config.engine.epoch = e.config.engine.epoch)
    (hlater : ctx.header.number.toNat = block.number.toNat + e.config.engine.epoch.toNat)
    (hchain : ctx.chain.headerByNumber block.number = some checkpoint)
    (hextra : ExtraData.SameButSeal block.extra checkpoint.extra) :
    ∃ ranked, (∀ list, e.Candidates header list ↔ list = ranked) ∧ ∀ r : Run,
      (ranked ≠ [] → ∃ data sorted later,
        (exec (e'.syncEpoch ctx) r).2.events = r.events ++
          .called ctx.site ctx.header (BlockContext.callMessage Address.engineCaller
            SystemContract.validators.address data 0) :: later ∧
        data.take 4 = Abi.selectorOf "updateActiveValidatorSet(address[],uint256)" ∧
        Abi.decode [.array .address, .uint 256] (data.drop 4) =
          .ok [.ofAddresses sorted, .uint (BitVec.ofNat 256 e.config.engine.epoch.toNat)] ∧
        sorted.Perm ranked ∧ sorted.Pairwise fun a b => a.toNat ≤ b.toNat) ∧
      (ranked = [] →
        exec (e'.syncEpoch ctx) r = (.error (.validation .invalidExtraValidators), r)) := by
  obtain ⟨hnumber, ranked, hranked, hannounced⟩ := hended.announces hepoch
  have hcheckpoint : e'.checkpoint? ctx = some checkpoint :=
    (checkpoint?_of_later (by rw [hsame, hlater])).trans hchain
  have hset : ExtraData.validators checkpoint.extra = sortAddresses ranked := by
    rw [← hextra.validators, hannounced]
  have hperm := sortAddresses_perm ranked
  refine ⟨ranked, fun list => ⟨fun h => h.unique hranked, fun h => h ▸ hranked⟩, fun r => ⟨?_, ?_⟩⟩
  · intro hne
    have hnotEmpty : ExtraData.validators checkpoint.extra ≠ [] := by
      rw [hset]
      exact fun hnil => hne (List.perm_nil.mp (hnil ▸ hperm).symm)
    have hlength : 32 * (sortAddresses ranked).length < Abi.positionBound := by
      rw [hperm.length_eq]
      exact hranked.length
    obtain ⟨later, hevents⟩ := syncEpoch_installs hcheckpoint hnotEmpty r
    rw [BlockContext.events_afterCall, hset, hsame, List.append_assoc, List.cons_append] at hevents
    refine ⟨_, sortAddresses ranked, _, hevents.symm, ?_, ?_, hperm,
      sortAddresses_ascending ranked⟩
    · rw [List.take_left' rotationMethod.length_selector]
      rfl
    · rw [List.drop_left' rotationMethod.length_selector]
      exact decode_rotation e.config.engine.epoch hlength
  · rintro rfl
    exact exec_syncEpoch_empty hcheckpoint (hset.trans (List.perm_nil.mp hperm)) r

open SampleBlock in
set_option maxRecDepth 100000 in
/-- Two candidates that are listed out of order are put into force in ascending order by the
next block, although the seal of the block that announced them was overwritten. -/
theorem sample_candidates_installed :
    ∃ block r' data later,
      exec ({ engine with vm := listing [7, 5] }.assemble SampleBlock.header) start =
        (.ok block, r') ∧
      (exec (engine.syncEpoch
          { engine.context { number := 3 } with chain := chainWith (reseal block) }) start).2.events =
        .called .block { number := 3 } (BlockContext.callMessage Address.engineCaller
          SystemContract.validators.address data 0) :: later ∧
      Abi.decode [.array .address, .uint 256] (data.drop 4) =
        .ok [.ofAddresses [5, 7], .uint 1] := by
  let e : Engine := { engine with vm := listing [7, 5] }
  have hcandidates : e.Candidates SampleBlock.header [7, 5] :=
    ⟨parent, {}, rfl, rfl, fun _ _ => rfl⟩
  have hsorted : [5, 7] = sortAddresses [7, 5] := eq_sortAddresses.mpr (by decide)
  have hends : (exec (e.assemble SampleBlock.header) start).1.toOption.isSome := by decide +kernel
  obtain ⟨block, hblock⟩ := Option.isSome_iff_exists.mp hends
  have hproduced := Step.exec_of_toOption hblock
  have hannounced : block = announce SampleBlock.header (some [5, 7]) := by
    obtain ⟨next, queue, q, hfinds, -, rfl⟩ := exec_assemble_ok.mp hproduced
    rcases hfinds.candidates with ⟨-, ranked, hranked, rfl⟩ | ⟨hnot, -⟩
    · rw [hranked.unique hcandidates, hsorted]
    · exact absurd (by decide) hnot
  have hextra : ExtraData.SameButSeal block.extra (reseal block).extra := by
    rw [hannounced]
    exact ⟨by decide +kernel, by decide +kernel⟩
  let ctx : BlockContext :=
    { engine.context { number := 3 } with chain := chainWith (reseal block) }
  have hlater : ctx.header.number.toNat = block.number.toNat + e.config.engine.epoch.toNat := by
    rw [hannounced]
    rfl
  have hepoch : engine.config.engine.epoch = e.config.engine.epoch := rfl
  obtain ⟨ranked, hranked, hsync⟩ := announced_validators_installed (.produced hproduced)
    (by decide) hepoch hlater rfl hextra
  obtain rfl := (hranked [7, 5]).mp hcandidates
  obtain ⟨data, sorted, later, hevents, -, hdecode, hperm, hascending⟩ :=
    (hsync start).1 (by decide)
  obtain rfl : sorted = [5, 7] := (eq_sortAddresses.mpr ⟨hperm, hascending⟩).trans hsorted.symm
  exact ⟨block, _, data, later, hproduced, hevents, hdecode⟩

end Engine

end StakeGov
