import StakeGov.Word

/-!
# Keccak-256

The sponge over 25 lanes of 64 bits with a rate of 136 bytes. The message is
filled up by a one bit right after it and a one bit at the end of the last block.
Lane `x + 5 * y` is the lane in column `x` of row `y`.
-/

namespace StakeGov.Keccak

abbrev Lanes := Array UInt64

def rate : Nat := 136

def rotateLeft (x : UInt64) (n : UInt64) : UInt64 :=
  (x <<< n) ||| (x >>> (64 - n))

def offsets : Array UInt64 :=
  #[0, 1, 62, 28, 27, 36, 44, 6, 55, 20, 3, 10, 43, 25, 39, 41, 45, 15, 21, 8, 18, 2, 61, 56, 14]

def roundConstants : List UInt64 :=
  [0x0000000000000001, 0x0000000000008082, 0x800000000000808A, 0x8000000080008000,
   0x000000000000808B, 0x0000000080000001, 0x8000000080008081, 0x8000000000008009,
   0x000000000000008A, 0x0000000000000088, 0x0000000080008009, 0x000000008000000A,
   0x000000008000808B, 0x800000000000008B, 0x8000000000008089, 0x8000000000008003,
   0x8000000000008002, 0x8000000000000080, 0x000000000000800A, 0x800000008000000A,
   0x8000000080008081, 0x8000000000008080, 0x0000000080000001, 0x8000000080008008]

def lane (a : Lanes) (i : Nat) : UInt64 :=
  a.getD i 0

def lanes (f : Nat → UInt64) : Lanes :=
  Array.ofFn fun i : Fin 25 => f i

/-- Adds to every lane the parity of two neighbouring columns. -/
def mixColumns (a : Lanes) : Lanes :=
  let parity : Array UInt64 := Array.ofFn fun x : Fin 5 =>
    lane a x ^^^ lane a (x + 5) ^^^ lane a (x + 10) ^^^ lane a (x + 15) ^^^ lane a (x + 20)
  lanes fun i =>
    lane a i ^^^ lane parity ((i + 4) % 5) ^^^ rotateLeft (lane parity ((i + 1) % 5)) 1

/-- Rotates each lane and moves it to its new place. -/
def rotateLanes (a : Lanes) : Lanes :=
  lanes fun i =>
    let x := i % 5
    let y := i / 5
    let source := (x + 3 * y) % 5 + 5 * x
    rotateLeft (lane a source) (lane offsets source)

/-- Combines each lane with the next two of its row. -/
def mixRows (a : Lanes) : Lanes :=
  lanes fun i =>
    let row := i / 5 * 5
    lane a i ^^^ (~~~(lane a ((i + 1) % 5 + row)) &&& lane a ((i + 2) % 5 + row))

def round (a : Lanes) (constant : UInt64) : Lanes :=
  let b := mixRows (rotateLanes (mixColumns a))
  b.setIfInBounds 0 (lane b 0 ^^^ constant)

def permute (a : Lanes) : Lanes :=
  roundConstants.foldl round a

-- ---------------------------------------------------------------------------
-- Sponge
-- ---------------------------------------------------------------------------

def laneOfBytes (bs : Bytes) : UInt64 :=
  UInt64.ofNat (Bytes.toNat bs.reverse)

def bytesOfLane (x : UInt64) : Bytes :=
  (Bytes.bigEndian 8 x.toNat).reverse

def pad (message : Bytes) : Bytes :=
  let free := rate - message.length % rate
  if free = 1 then message ++ [0x81]
  else message ++ 0x01 :: Bytes.zeros (free - 2) ++ [0x80]

def addBlock (a : Lanes) (block : Bytes) : Lanes :=
  lanes fun i => lane a i ^^^ laneOfBytes ((block.drop (8 * i)).take 8)

def absorb : Nat → Lanes → Bytes → Lanes
  | 0, a, _ => a
  | n + 1, a, bs => absorb n (permute (addBlock a (bs.take rate))) (bs.drop rate)

def digest (message : Bytes) : Bytes :=
  let padded := pad message
  let a := absorb (padded.length / rate) (lanes fun _ => 0) padded
  bytesOfLane (lane a 0) ++ bytesOfLane (lane a 1) ++ bytesOfLane (lane a 2) ++
    bytesOfLane (lane a 3)

end Keccak

def keccak256 (message : Bytes) : Hash :=
  Word.ofBytes (Keccak.digest message)

end StakeGov
