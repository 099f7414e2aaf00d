import StakeGov.Receipt
import StakeGov.Table

/-!
# The address policy

A blacklist bans addresses from sending, from receiving, or from both. Event
rules say which topics of which events hold addresses that must not be banned,
and in what role. A check without a meaning, and a rule for a topic that an event
does not have, ban nothing.
-/

namespace StakeGov

inductive Direction where
  | sending
  | receiving
  | both
deriving DecidableEq, Repr

inductive Check where
  | none
  | sender
  | recipient
  /-- Hits every listed address. -/
  | either
  /-- A code without a meaning. -/
  | unknown (code : UInt8)
deriving DecidableEq, Repr

def Direction.text : Direction → String
  | .sending => "From"
  | .receiving => "To"
  | .both => "Both"

namespace Check

def text : Check → String
  | .none => "None"
  | .sender => "From"
  | .recipient => "To"
  | .either => "BothInAny"
  | .unknown code => s!"Unknown({code.toNat})"

def ofCode (code : UInt8) : Check :=
  if code = 0 then .none
  else if code = 1 then .sender
  else if code = 2 then .recipient
  else if code = 3 then .either
  else .unknown code

/-- Whether a listed address is hit; a check without a meaning has no answer. -/
def hits? (check : Check) (direction : Direction) : Option Bool :=
  match check with
  | .sender => some (direction != .receiving)
  | .recipient => some (direction != .sending)
  | .either => some true
  | .none | .unknown _ => Option.none

end Check

abbrev Blacklist := Table Address Direction

namespace Blacklist

/-- Lists an address as a recipient, in both roles if it is listed already. -/
def addRecipient (list : Blacklist) (a : Address) : Blacklist :=
  list.insert a (if (list.get? a).isSome then .both else .receiving)

def ofLists (senders recipients : List Address) : Blacklist :=
  let sending : Blacklist := senders.foldl (fun list a => list.insert a .sending) ∅
  recipients.foldl addRecipient sending

/-- The test that keeps a transaction out of a block. -/
def bans (list : Blacklist) (a : Address) (check : Check) : Bool :=
  ((list.get? a).bind check.hits?).getD false

end Blacklist

structure EventRule where
  signature : Hash
  checks : Table UInt64 Check

abbrev EventRules := Table Hash EventRule

structure RuleEntry where
  signature : Hash
  /-- An index too large for 64 bits is the greatest; no event has that topic. -/
  topic : UInt64
  check : Check
deriving DecidableEq, Repr

namespace EventRules

/-- Adds an entry; a later one for the same event and topic wins. -/
def add (rules : EventRules) (entry : RuleEntry) : EventRules :=
  let checks := match rules.get? entry.signature with
    | some rule => rule.checks
    | none => ∅
  rules.insert entry.signature ⟨entry.signature, checks.insert entry.topic entry.check⟩

def ofEntries (entries : List RuleEntry) : EventRules :=
  entries.foldl add ∅

end EventRules

structure Policy where
  blacklist : Blacklist
  rules : EventRules

namespace Policy

/-- The test that stops an execution. -/
def bansAddress (p : Policy) (a : Address) (check : Check) : Bool :=
  match p.blacklist.get? a with
  | some direction =>
    match check.hits? direction with
    | some hit => hit
    | none => false
  | none => false

theorem bansAddress_eq (p : Policy) (a : Address) (check : Check) :
    p.bansAddress a check = p.blacklist.bans a check := by
  rw [bansAddress, Blacklist.bans]
  cases p.blacklist.get? a with
  | none => rfl
  | some direction =>
    simp only [Option.bind_some]
    cases check.hits? direction <;> rfl

def bansTopic (p : Policy) (topics : List Hash) (index : UInt64) (check : Check) : Bool :=
  match topics[index.toNat]? with
  | some topic => p.bansAddress topic.address check
  | none => false

/-- Whether an event names a banned address. An event without topics beside its
signature names none. -/
def bansLog (p : Policy) (log : Log) : Bool :=
  match log.topics with
  | signature :: _ :: _ =>
    match p.rules.get? signature with
    | some rule => rule.checks.entries.any fun e => p.bansTopic log.topics e.1 e.2
    | none => false
  | _ => false

end Policy

end StakeGov
