import StakeGov.Proofs.Calls

/-!
# What is on record stays there

No step takes an event back: what was done before it is the start of what was done after
it, whether it ends well or not (`Step.Appends`). The property holds of contract calls and
of whatever is put together from steps that have it.
-/

namespace StakeGov

namespace Step

variable {ε ε' α β : Type}

def Appends (s : Step ε α) : Prop :=
  ∀ r, r.events <+: (s.exec r).2.events

namespace Appends

theorem pure (a : α) : Appends (Pure.pure a : Step ε α) :=
  fun _ => List.prefix_rfl

theorem of_first {x : Step ε α} {f : α → Step ε β} (hf : ∀ a, Appends (f a)) (r : Run) :
    (x.exec r).2.events <+: ((x >>= f).exec r).2.events := by
  rw [exec_bind]
  rcases x.exec r with ⟨_ | a, q⟩
  · exact List.prefix_rfl
  · exact hf a q

theorem bind {x : Step ε α} {f : α → Step ε β} (hx : Appends x) (hf : ∀ a, Appends (f a)) :
    Appends (x >>= f) :=
  fun r => (hx r).trans (of_first hf r)

theorem mapError {s : Step ε α} (f : ε → ε') (hs : Appends s) : Appends (Step.mapError f s) := by
  intro r
  rw [exec_mapError]
  exact hs r

end Appends

end Step

open Step (Appends)

namespace BlockContext

variable (ctx : BlockContext)

theorem events_afterCall (m : Message) (r : Run) :
    (ctx.afterCall m r).events =
      r.events ++ [.called ctx.site ctx.header m, .finalised ctx.site true] := by
  simp [afterCall, Run.record]

theorem callMethod_appends (sender : Address) (contract : SystemContract) (name : String)
    (args : List Abi.Token) (value : Word) :
    Appends (ctx.callMethod sender contract name args value) := by
  intro r
  cases hpack : contract.pack name args with
  | error e =>
    simp [ctx.exec_callMethod_of_error hpack]
  | ok data =>
    rw [ctx.exec_callMethod hpack, events_afterCall]
    exact List.prefix_append _ _

end BlockContext

end StakeGov
