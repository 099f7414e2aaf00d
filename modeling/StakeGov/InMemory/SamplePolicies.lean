import StakeGov.Engine.Policy

/-!
# Made-up policies

Address-policy contracts whose answers depend on little: on whether the policy has changed, or
on how many calls came before.
-/

-- ---------------------------------------------------------------------------
-- A policy that changes once
-- ---------------------------------------------------------------------------

-- Before height 5 nobody is banned and there are no rules; since then one account is banned and
-- the rules cannot be read.

namespace StakeGov.SamplePolicy

def changed (l : Ledger) : Bool :=
  PolicyStorage.blacklistUpdated l ≠ 0

def banned : Address := 0x1000

/-- What the contract answers. As the number of rules the second answer is 32, but no rule
can be read from it. -/
def answer (changed : Bool) : Bytes :=
  if changed then Abi.encode [.ofAddresses [banned]] else Bytes.zeros 32

def vm : Vm := ⟨fun _ _ _ _ l => (.success (answer (changed l)), l)⟩

def engine : Engine where
  config := { chainId := 1 }
  vm := vm
  chain := ⟨fun _ _ => none, fun _ => none⟩
  ledgerAt root := .error (.unknownRoot root)
  snapshot _ _ := .ok {}
  sender _ _ := .ok 0

def readBlacklist (l : Ledger) : Except ContractError Blacklist :=
  .ok (if changed l then .ofLists [banned] [banned] else ∅)

def readRules (l : Ledger) : Except ContractError EventRules :=
  if changed l then
    .error (.unpack "getRuleByIndex" (Abi.Error.outOfRange (.uint 8)).message)
  else .ok ∅

def changedLedger : Ledger :=
  (({} : Ledger).setStorage SystemContract.addressList.address 7 5).setStorage
    SystemContract.addressList.address 8 5

/-- The ledgers after blocks: the policy is that of the start only at the root of the tree. -/
def state (hash : Hash) : Ledger :=
  if hash = 0 then {} else changedLedger

/-- The blocks of the tree; only low ones stand on its root. -/
def blocks (b : Header) : Prop :=
  b.hash ≠ 0 ∧ (5 < b.number → b.parentHash ≠ 0)

end StakeGov.SamplePolicy

-- ---------------------------------------------------------------------------
-- One answer after the other
-- ---------------------------------------------------------------------------

-- Once there are no rows left, the contract reverts.

namespace StakeGov.SampleAnswers

open Abi (Token)

def vm (rows : List (List Token)) : Vm :=
  ⟨fun _ _ _ _ l =>
    match rows[l.finalised]? with
    | some row => (.success (Abi.encode row), l)
    | none => (.revert [], l)⟩

def engine (rows : List (List Token)) : Engine :=
  { SamplePolicy.engine with vm := vm rows }

def header : Header := { number := 1, parentHash := 9, coinbase := 1 }

def start : Run := { ledger := {}, policies := ⟨⟨1, []⟩, ⟨1, []⟩⟩ }

/-- The account 7 may not send, the account 8 may not receive, and there are no rules. -/
def rows : List (List Token) := [[.ofAddresses [7]], [.ofAddresses [8]], [.uint 0]]

end StakeGov.SampleAnswers

-- ---------------------------------------------------------------------------
-- Two lists of addresses
-- ---------------------------------------------------------------------------

-- The first call is answered with one list, and every later one with the other.

namespace StakeGov.SampleLists

def answer (senders recipients : List Address) (l : Ledger) : Bytes :=
  Abi.encode [.ofAddresses (if l.finalised = 0 then senders else recipients)]

def context (senders recipients : List Address) : BlockContext where
  vm := ⟨fun _ _ _ _ l => (.success (answer senders recipients l), l)⟩
  chain := ⟨fun _ _ => none, fun _ => none⟩
  config := { chainId := 1 }
  header := { number := 1, coinbase := 1 }

def start : Run := { ledger := {}, policies := ⟨⟨0, []⟩, ⟨0, []⟩⟩ }

end StakeGov.SampleLists

-- ---------------------------------------------------------------------------
-- Event rules
-- ---------------------------------------------------------------------------

-- The first call is answered with the length of a list of rows, and every later one with the
-- next row.

namespace StakeGov.SampleRules

open Abi (Token)

def row (rows : List (List Token)) (l : Ledger) : List Token :=
  match l.finalised with
  | 0 => [.uint (BitVec.ofNat 256 rows.length)]
  | n + 1 => rows[n]?.getD []

def context (rows : List (List Token)) : BlockContext where
  vm := ⟨fun _ _ _ _ l => (.success (Abi.encode (row rows l)), l)⟩
  chain := ⟨fun _ _ => none, fun _ => none⟩
  config := { chainId := 1 }
  header := { number := 1, coinbase := 1 }

def start : Run := { ledger := {}, policies := ⟨⟨0, []⟩, ⟨0, []⟩⟩ }

end StakeGov.SampleRules
