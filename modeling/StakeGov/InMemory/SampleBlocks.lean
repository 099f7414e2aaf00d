import StakeGov.Engine.Block
import StakeGov.InMemory.Signing

/-!
# Made-up blocks

Blocks that take no ledger to speak of and no scripts, so that what an engine does with them
can be computed in full: the end of an epoch, the first block, a fork, blocks with a queue of
proposals that changes, and blocks whose every call leaves a log.
-/

-- ---------------------------------------------------------------------------
-- A block at the end of an epoch
-- ---------------------------------------------------------------------------

-- Two proposals have passed, and the contracts answer every call in the same way.

namespace StakeGov.SampleBlock

open Abi (Token)

def producer : Address := 1

def proposal : Proposal := { id := 2, sender := 2, target := 3, data := [1, 2, 3] }

/-- What the governance contract answers: read as a number it is the length of the queue,
and else each entry of it. -/
def entry : List Token :=
  [.uint 2, .uint 0, .address 2, .address 3, .uint 0, .bytes [1, 2, 3]]

def candidate : Address := 7

def answer (listed : List Address) (callee : Option Address) : Bytes :=
  if callee = some SystemContract.governance.address then Abi.encode entry
  else if callee = some SystemContract.validators.address then Abi.encode [.ofAddresses listed]
  else []

def listing (listed : List Address) : Vm :=
  ⟨fun _ _ _ m l => (.success (answer listed m.callee), l)⟩

def vm : Vm := listing [candidate]

/-- The block before, which is also the one an epoch before. -/
def parent : Header := { number := 1, extra := ExtraData.encode [] [producer] }

def engine : Engine where
  config := { chainId := 1, engine := { epoch := 1 } }
  vm := vm
  chain := ⟨fun _ _ => some parent, fun _ => some parent⟩
  ledgerAt _ := .ok {}
  snapshot _ _ := .ok { validators := .ofList [producer] }
  sender := PlainSigning.sender
  authority := some ⟨producer, PlainSigning.signer⟩

def header : Header := { number := 2, coinbase := producer }

def sealed : Header :=
  { header with root := 5, extra := ExtraData.encode [6] [candidate] }

def reseal (h : Header) : Header :=
  { h with
    extra := h.extra.take (h.extra.length - ExtraData.sealLength) ++
      List.replicate ExtraData.sealLength 9 }

def chainWith (h : Header) : ChainReader := ⟨fun _ _ => none, fun _ => some h⟩

def transaction : Transaction :=
  { Engine.proposalTransaction header 0 proposal with
    signature := some (PlainSigning.signature producer 1) }

def start : Run := { ledger := {}, policies := ⟨⟨0, []⟩, ⟨0, []⟩⟩ }

end StakeGov.SampleBlock

-- ---------------------------------------------------------------------------
-- The first block
-- ---------------------------------------------------------------------------

-- It is produced out of turn, at the end of an epoch of one block and with fees collected, so
-- that none of the calls before the proposals is left out.

namespace StakeGov.SampleFirst

open SampleBlock (producer)

def engine : Engine :=
  { SampleBlock.engine with
    config := { chainId := 1, engine := { epoch := 1, genesisValidators := [⟨producer, 4⟩] } } }

def header : Header := { number := 1, coinbase := 9 }

/-- A run on a ledger on which fees were collected. -/
def start (fees : Word) : Run :=
  { SampleBlock.start with ledger := ({} : Ledger).setBalance Address.feeRecorder fees }

end StakeGov.SampleFirst

-- ---------------------------------------------------------------------------
-- The first block, with candidates that depend on the ledger
-- ---------------------------------------------------------------------------

-- Beside some accounts that are always listed, the account whose address is the balance of the
-- engine is a candidate.

namespace StakeGov.SampleCandidates

def candidates (listed : List Address) (l : Ledger) : List Address :=
  listed ++ [BitVec.ofNat 160 (l.balance Address.engineCaller).toNat]

def vm (listed : List Address) : Vm := ⟨fun _ _ _ _ l =>
  (.success (Abi.encode [.ofAddresses (candidates listed l)]), l)⟩

def engine (listed : List Address) : Engine :=
  { SampleFirst.engine with vm := vm listed }

end StakeGov.SampleCandidates

-- ---------------------------------------------------------------------------
-- A fork
-- ---------------------------------------------------------------------------

-- Two blocks stand at the height of a checkpoint, one of them on the branch of a block at the
-- end of an epoch.

namespace StakeGov.SampleFork

def checkpoint : Header := { number := 2, extra := ExtraData.encode [] [1] }

/-- Another block at its height, with another validator. -/
def rival : Header := { number := 2, extra := ExtraData.encode [] [2] }

def parent : Header := { number := 3, parentHash := checkpoint.hash }

def header : Header := { number := 4, parentHash := parent.hash }

/-- A chain that knows some headers, and has some of them in force. -/
def chain (known inForce : List Header) : ChainReader where
  header hash number := known.find? fun h => h.number = number ∧ h.hash = hash
  headerByNumber number := inForce.find? (·.number = number)

def engine (known inForce : List Header) : Engine :=
  { SampleBlock.engine with
    config := { chainId := 1, engine := { epoch := 2 } }
    chain := chain known inForce }

end StakeGov.SampleFork

-- ---------------------------------------------------------------------------
-- A queue of proposals
-- ---------------------------------------------------------------------------

-- The numbers of proposals are at least 2^32, and so never places of the queue.

namespace StakeGov.SampleQueue

def producer : Address := 1

/-- The numbers of the proposals, which are the bytes of one word of storage. -/
def numbers (l : Ledger) : Bytes :=
  (l.storageAt SystemContract.governance.address 0).bytes.filter (· ≠ 0)

def store (l : Ledger) (numbers : Bytes) : Ledger :=
  l.setStorage SystemContract.governance.address 0 (Word.ofBytes numbers)

def proposal (number : UInt8) : Proposal where
  id := BitVec.ofNat 256 (UInt32.size + number.toNat)
  action := BitVec.ofNat 256 (number.toNat % 3)

def queue (l : Ledger) : List Proposal :=
  (numbers l).map proposal

/-- Whenever a proposal is taken off, what is left is turned round. -/
def takeOff (l : Ledger) (id : Word) : Ledger :=
  store l ((numbers l).erase (UInt8.ofNat id.toNat)).reverse

def argument (data : Bytes) : Word :=
  Word.ofBytes (data.drop 4)

/-- A call without arguments asks for the length of the queue; one with a place of the queue
asks for the entry there, and one with a greater number takes a proposal off. -/
def governance (data : Bytes) (l : Ledger) : Outcome × Ledger :=
  if data.length = 4 then
    (.success (Abi.encode [.uint (BitVec.ofNat 256 (queue l).length)]), l)
  else if (argument data).toNat < UInt32.size then
    match (queue l)[(argument data).toNat]? with
    | some p => (.success (Abi.encode [.uint p.id, .uint p.action, .address p.sender,
        .address p.target, .uint p.value, .bytes p.data]), l)
    | none => (.revert [], l)
  else (.success [], takeOff l (argument data))

/-- Only calls of the governance contract by the producer do anything. -/
def vm : Vm where
  call _ _ _ m l :=
    if m.callee = some SystemContract.governance.address ∧ m.sender = producer then
      governance m.data l
    else (.success [], l)

def engine : Engine where
  config := { chainId := 1, engine := { epoch := 0 } }
  vm := vm
  chain := ⟨fun _ _ => none, fun _ => none⟩
  ledgerAt root := .error (.unknownRoot root)
  snapshot _ _ := .ok { validators := .ofList [producer] }
  sender := PlainSigning.sender
  authority := some ⟨producer, PlainSigning.signer⟩

def header : Header := { number := 2, coinbase := producer }

def start (waiting : Bytes) : Run := { ledger := store {} waiting, policies := ⟨⟨0, []⟩, ⟨0, []⟩⟩ }

def transaction (number : UInt8) : Transaction :=
  { Engine.proposalTransaction header 0 (proposal number) with
    signature := some (PlainSigning.signature producer 1) }

end StakeGov.SampleQueue

-- ---------------------------------------------------------------------------
-- An environment that logs
-- ---------------------------------------------------------------------------

-- Every call leaves one log. The queue holds two proposals, a call and an erasure, each with its
-- place as its number and its action.

namespace StakeGov.SampleLogs

open SampleQueue (argument producer header)

def proposal (place : Word) : Proposal :=
  { id := place, action := place, sender := 2, target := 3 }

/-- A call without arguments asks for the length of the queue, and one with an argument for
the entry at that place. -/
def answer (data : Bytes) : Bytes :=
  if data.length = 4 then Abi.encode [.uint 2]
  else Abi.encode
    [.uint (argument data), .uint (argument data), .address 2, .address 3, .uint 0, .bytes []]

def log (m : Message) : Log :=
  { address := m.callee.getD 0, data := m.data }

def vm : Vm := ⟨fun _ _ _ m l => (.success (answer m.data), l.addLog (log m))⟩

def engine : Engine := { SampleQueue.engine with vm }

def start : Run := { ledger := {}, policies := ⟨⟨0, []⟩, ⟨0, []⟩⟩ }

def transaction (place : Word) : Transaction :=
  { Engine.proposalTransaction header (UInt64.ofNatClamp place.toNat) (proposal place) with
    signature := some (PlainSigning.signature producer 1) }

end StakeGov.SampleLogs
