import StakeGov.Keccak

/-!
# Logs, receipts and log filters

A log filter is a set of 2048 bits. Every emitter and every topic of a log sets
three of them, taken from the first three pairs of bytes of its hash.
-/

namespace StakeGov

structure Log where
  address : Address := 0
  /-- The first topic is the event's signature. -/
  topics : List Hash := []
  data : Bytes := []
  blockNumber : UInt64 := 0
  txHash : Hash := 0
  txIndex : UInt32 := 0
  blockHash : Hash := 0
  index : UInt32 := 0
deriving DecidableEq, Repr

abbrev Bloom := BitVec 2048

namespace Bloom

/-- The three bits an input sets: the low eleven bits of the first three 16-bit
numbers of its hash. -/
def positions (input : Bytes) : List Nat :=
  let h := keccak256 input
  [0, 1, 2].map fun i => (h.toNat >>> (240 - 16 * i)) % 2048

def add (bloom : Bloom) (input : Bytes) : Bloom :=
  (positions input).foldl (fun b n => b ||| BitVec.twoPow 2048 n) bloom

def inputs (log : Log) : List Bytes :=
  Address.bytes log.address :: log.topics.map Word.bytes

def addLog (bloom : Bloom) (log : Log) : Bloom :=
  (inputs log).foldl add bloom

def ofLogs (logs : List Log) : Bloom :=
  logs.foldl addLog 0

def bytes (bloom : Bloom) : Bytes :=
  Bytes.bigEndian 256 bloom.toNat

end Bloom

structure Receipt where
  successful : Bool
  /-- Gas used by the block up to and including the transaction. -/
  cumulativeGasUsed : UInt64 := 0
  logs : List Log := []
  bloom : Bloom := 0
  txHash : Hash := 0
  /-- Zero while the block is still being put together. -/
  blockHash : Hash := 0
  blockNumber : UInt64 := 0
  transactionIndex : UInt32 := 0
deriving DecidableEq, Repr

end StakeGov
