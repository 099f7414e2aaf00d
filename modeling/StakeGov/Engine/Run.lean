import StakeGov.Policy.Basic
import StakeGov.Policy.Cache
import StakeGov.Transaction
import StakeGov.Vm

/-!
# Runs

An operation of the engine works on a run: the ledger, the policies remembered
from earlier blocks, the transactions of the block so far, and a record of what
was done. It may fail, and then what it did up to there stays done.
-/

namespace StakeGov

/-- The ledger a call runs on: the one of the block that is being processed, or a
copy of an earlier one. -/
inductive Site where
  | block
  | earlier
deriving DecidableEq, Repr

inductive PolicyKind where
  | blacklist
  | rules
deriving DecidableEq, Repr

/-- Where a policy came from that was not read from the contract. -/
inductive HitSource where
  | entry
  /-- It was known for the parent's parent and has not changed since. -/
  | lookback
deriving DecidableEq, Repr

inductive Metric where
  | hit (kind : PolicyKind) (source : HitSource)
  | read (kind : PolicyKind)
  | observed (kind : PolicyKind)
  | punished (ok : Bool)
deriving DecidableEq, Repr

inductive Event where
  | called (site : Site) (header : Header) (message : Message)
  | finalised (site : Site) (dropBlank : Bool)
  | metric (m : Metric)
deriving DecidableEq, Repr

/-- The policies remembered, by the hash of the block they apply on top of. -/
structure PolicyCaches where
  blacklists : Cache Blacklist
  rules : Cache EventRules

structure BlockBody where
  txs : List Transaction := []
  receipts : List Receipt := []
deriving DecidableEq, Repr

namespace BlockBody

def nextIndex (b : BlockBody) : UInt32 :=
  UInt32.ofNatClamp b.txs.length

def add (b : BlockBody) (tx : Transaction) (receipt : Receipt) : BlockBody :=
  ⟨b.txs ++ [tx], b.receipts ++ [receipt]⟩

end BlockBody

structure Run where
  ledger : Ledger
  policies : PolicyCaches
  body : BlockBody := {}
  events : List Event := []

/-- A step reads and changes the run, and answers or fails. -/
abbrev Step (ε α : Type) := ExceptT ε (StateM Run) α

namespace Step

variable {ε ε' α : Type}

def emit (e : Event) : Step ε Unit :=
  modify fun r => { r with events := r.events ++ [e] }

def count (m : Metric) : Step ε Unit :=
  emit (.metric m)

def ledger : Step ε Ledger := return (← get).ledger

def modifyLedger (f : Ledger → Ledger) : Step ε Unit :=
  modify fun r => { r with ledger := f r.ledger }

def append (tx : Transaction) (receipt : Receipt) : Step ε Unit :=
  modify fun r => { r with body := r.body.add tx receipt }

def ofExcept (x : Except ε α) : Step ε α :=
  ExceptT.mk (pure x)

/-- The answer of a step, be it a failure. -/
def outcome (s : Step ε α) : Step ε' (Except ε α) :=
  ExceptT.mk (Except.ok <$> ExceptT.run s)

def mapError (f : ε → ε') (s : Step ε α) : Step ε' α :=
  ExceptT.adapt f s

/-- Runs a step on another ledger, which is dropped afterwards. -/
def on (other : Ledger) (s : Step ε α) : Step ε α :=
  ExceptT.mk fun r =>
    let (x, r') := (ExceptT.run s).run { r with ledger := other }
    (x, { r' with ledger := r.ledger })

end Step

end StakeGov
