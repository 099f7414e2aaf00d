import StakeGov.InMemory.SampleBlocks
import StakeGov.Proofs.EpochHandover

/-!
# Rotation on forked chains

The checkpoint of a rotation is the header in force one epoch back, whatever branch it is
on. Nodes that have the checkpoint of a block's own branch in force rotate alike, and they
hand over the validators of that checkpoint (`rotation_follows_branch`). A node that has a
rival of it in force makes other calls for the same block, whenever the rival names other
validators (`rotation_differs_on_rival`).
-/

namespace StakeGov

open Step (exec)

def Header.Ancestors : Header → List Header → Prop
  | _, [] => True
  | header, parent :: older =>
    header.parentHash = parent.hash ∧ header.number.toNat = parent.number.toNat + 1 ∧
      parent.Ancestors older

def ChainReader.Holds (chain : ChainReader) (header : Header) : Prop :=
  chain.header header.hash header.number = some header

namespace Header.Ancestors

variable {header checkpoint : Header} {ancestors : List Header}

theorem number_last (h : header.Ancestors ancestors)
    (hlast : ancestors.getLast? = some checkpoint) :
    header.number.toNat = checkpoint.number.toNat + ancestors.length := by
  induction ancestors generalizing header with
  | nil => cases hlast
  | cons parent older ih =>
    obtain ⟨-, hnumber, holder⟩ := h
    cases older with
    | nil =>
      cases hlast
      exact hnumber
    | cons grandparent older =>
      rw [List.getLast?_cons_cons] at hlast
      have hrest := ih holder hlast
      rw [List.length_cons]
      omega

end Header.Ancestors

namespace Engine

/-- The header names validators, and no more than a message has room for. -/
def Installable (h : Header) : Prop :=
  ExtraData.validators h.extra ≠ [] ∧
    32 * (ExtraData.validators h.extra).length < Abi.positionBound

instance : Decidable (Installable h) :=
  inferInstanceAs (Decidable (_ ∧ _))

/-- The engines differ at most in the headers they know and in what a rotation does not
use. -/
structure SameButChain (e e' : Engine) : Prop where
  config : e.config = e'.config
  vm : e.vm = e'.vm
  ledgerAt : e.ledgerAt = e'.ledgerAt

variable {e e' : Engine} {header checkpoint rival h : Header} {ancestors : List Header}

/-- Both engines hold all ancestors of a header one epoch back, and the environment does not
tell their chains apart. -/
structure ShareBranch (e e' : Engine) (header : Header) (ancestors : List Header) : Prop where
  same : e.SameButChain e'
  epochEnd : e.AtEpochEnd header.number
  linked : header.Ancestors ancestors
  length : ancestors.length = e.config.engine.epoch.toNat
  held : ∀ a ∈ ancestors, e.chain.Holds a ∧ e'.chain.Holds a
  call : ∀ m l, e.vm.call e.chain e.config header m l = e.vm.call e'.chain e.config header m l

namespace ShareBranch

variable (B : ShareBranch e e' header ancestors)
include B

theorem lockstep : Lockstep (· = ·) (e.context header) (e'.context header) where
  header := rfl
  site := rfl
  ledger h := h ▸ rfl
  edit _ h := h ▸ rfl
  called _ _ h := h ▸ rfl
  finalised _ h := h ▸ rfl
  counted _ h := h ▸ rfl
  call m l := by
    have h := B.call m l
    rw [context, context, ← B.same.vm, ← B.same.config]
    exact h

theorem parent :
    e.chain.header header.parentHash (saturatingPred header.number) =
      e'.chain.header header.parentHash (saturatingPred header.number) := by
  cases ancestors with
  | nil => exact absurd (UInt64.toNat_inj.mp B.length.symm) B.epochEnd.1
  | cons parent older =>
    obtain ⟨hhash, hnumber, -⟩ := B.linked
    obtain ⟨hheld, hheld'⟩ := B.held parent List.mem_cons_self
    have hpred : saturatingPred header.number = parent.number := by
      rw [saturatingPred, hnumber, Nat.add_sub_cancel, UInt64.ofNat_toNat]
    rw [hhash, hpred]
    exact hheld.trans hheld'.symm

theorem later (hlast : ancestors.getLast? = some checkpoint) :
    header.number.toNat = checkpoint.number.toNat + e.config.engine.epoch.toNat := by
  rw [B.linked.number_last hlast, B.length]

theorem finds (hlast : ancestors.getLast? = some checkpoint)
    (hforce : e.chain.headerByNumber checkpoint.number = some h) :
    e.checkpoint? (e.context header) = some h :=
  (checkpoint?_of_later (B.later hlast)).trans hforce

theorem finds' (hlast : ancestors.getLast? = some checkpoint)
    (hforce : e'.chain.headerByNumber checkpoint.number = some h) :
    e'.checkpoint? (e'.context header) = some h :=
  (checkpoint?_of_later (B.same.config ▸ B.later hlast)).trans hforce

end ShareBranch

/-- With the checkpoint of the branch in force, the rotation is the same on both, and its
first call hands over the validators of that checkpoint. -/
theorem rotation_follows_branch (B : ShareBranch e e' header ancestors)
    (hlast : ancestors.getLast? = some checkpoint)
    (hforce : e.chain.headerByNumber checkpoint.number = some checkpoint)
    (hforce' : e'.chain.headerByNumber checkpoint.number = some checkpoint) (r : Run) :
    exec (e.syncEpoch (e.context header)) r = exec (e'.syncEpoch (e'.context header)) r ∧
      (ExtraData.validators checkpoint.extra ≠ [] →
        ((e.context header).afterCall (Registry.rotationMessage
          (ExtraData.validators checkpoint.extra) e.config.engine.epoch) r).events <+:
            (exec (e.syncEpoch (e.context header)) r).2.events) := by
  have hcheckpoint := B.finds hlast hforce
  refine ⟨?_, fun hne => syncEpoch_installs hcheckpoint hne r⟩
  have hagree := B.lockstep.rules.syncEpoch B.same.config B.same.ledgerAt B.parent
    (hcheckpoint.trans (B.finds' hlast hforce').symm)
  obtain ⟨hans, hrun⟩ := hagree r r rfl
  exact Prod.ext hans hrun

/-- Different sets on a branch and on its rival make for different calls. -/
theorem rotation_differs_on_rival (B : ShareBranch e e' header ancestors)
    (hlast : ancestors.getLast? = some checkpoint)
    (hforce : e.chain.headerByNumber checkpoint.number = some checkpoint)
    (hforce' : e'.chain.headerByNumber checkpoint.number = some rival)
    (hset : Installable checkpoint) (hset' : Installable rival)
    (hdiff : ExtraData.validators checkpoint.extra ≠ ExtraData.validators rival.extra) (r : Run) :
    (exec (e.syncEpoch (e.context header)) r).2.events ≠
      (exec (e'.syncEpoch (e'.context header)) r).2.events := by
  intro heq
  have hcalls := syncEpoch_installs (B.finds hlast hforce) hset.1 r
  have hcalls' := syncEpoch_installs (B.finds' hlast hforce') hset'.1 r
  rw [← heq, ← B.same.config] at hcalls'
  simp only [BlockContext.events_afterCall] at hcalls hcalls'
  have hsame := (List.prefix_of_prefix_length_le hcalls hcalls' (by simp)).eq_of_length (by simp)
  have hmessage := Event.called.inj (List.cons.inj (List.append_cancel_left hsame)).1
  exact hdiff (Registry.rotationMessage_inj hset.2 hset'.2 hmessage.2.2)

end Engine

-- ---------------------------------------------------------------------------
-- A checkpoint with a rival
-- ---------------------------------------------------------------------------

namespace SampleFork

open Engine

-- Where heights tell headers apart, no hash has to be computed.
theorem chain_holds (before after inForce : List Header) {h : Header}
    (hbefore : ∀ g ∈ before, g.number ≠ h.number) :
    (chain (before ++ h :: after) inForce).Holds h := by
  have hnone : before.find? (fun g => g.number = h.number ∧ g.hash = h.hash) = none :=
    List.find?_eq_none.mpr fun g hg => by simp [hbefore g hg]
  change List.find? _ _ = _
  rw [List.find?_append, hnone, Option.none_or, List.find?_cons_of_pos (by simp)]

theorem shareBranch (more more' inForce inForce' : List Header) :
    ShareBranch (engine (parent :: checkpoint :: more) inForce)
      (engine (parent :: checkpoint :: more') inForce') header [parent, checkpoint] := by
  have hknown : ∀ more inForce, ∀ a ∈ [parent, checkpoint],
      (engine (parent :: checkpoint :: more) inForce).chain.Holds a := by
    intro more inForce a ha
    rcases List.mem_pair.mp ha with rfl | rfl
    · exact chain_holds [] _ _ nofun
    · exact chain_holds [parent] _ _ (by decide)
  exact {
    same := ⟨rfl, rfl, rfl⟩
    epochEnd := show (2 : UInt64) ≠ 0 ∧ (4 : UInt64) % 2 = 0 by decide
    linked := ⟨rfl, rfl, rfl, rfl, trivial⟩
    length := rfl
    held := fun a ha => ⟨hknown _ _ a ha, hknown _ _ a ha⟩
    call := fun _ _ => rfl }

/-- A node that knows the rival too, and one that does not. -/
theorem rotation_with_rival_known :
    let e := engine [parent, checkpoint] [parent, checkpoint]
    let e' := engine [parent, checkpoint, rival] [parent, checkpoint]
    exec (e.syncEpoch (e.context header)) SampleBlock.start =
        exec (e'.syncEpoch (e'.context header)) SampleBlock.start ∧
      ((e.context header).afterCall (Registry.rotationMessage [1] 2) SampleBlock.start).events <+:
        (exec (e.syncEpoch (e.context header)) SampleBlock.start).2.events := by
  have hlast : [parent, checkpoint].getLast? = some checkpoint := rfl
  obtain ⟨hsame, hinstalls⟩ := rotation_follows_branch (shareBranch [] [rival]
    [parent, checkpoint] [parent, checkpoint]) hlast rfl rfl SampleBlock.start
  have hset : ExtraData.validators checkpoint.extra = [1] := by decide +kernel
  rw [hset] at hinstalls
  exact ⟨hsame, hinstalls (List.cons_ne_nil _ _)⟩

/-- A node with the branch in force and one with the rival in force. -/
theorem rotation_depends_on_fork :
    let e := engine [parent, checkpoint, rival] [parent, checkpoint]
    let e' := engine [parent, checkpoint, rival] [rival]
    ShareBranch e e' header [parent, checkpoint] ∧
      (exec (e.syncEpoch (e.context header)) SampleBlock.start).2.events ≠
        (exec (e'.syncEpoch (e'.context header)) SampleBlock.start).2.events :=
  ⟨shareBranch _ _ _ _,
    rotation_differs_on_rival (shareBranch _ _ _ _) rfl rfl rfl (by decide +kernel)
      (by decide +kernel) (by decide +kernel) _⟩

end SampleFork

end StakeGov
