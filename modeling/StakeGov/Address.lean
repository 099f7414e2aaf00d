import StakeGov.Keccak

/-!
# Address text and well-known accounts

An address is written with `0x` and 40 digits. A letter is upper case where the
hash of the lower-case digits has, at the same place, a digit of eight or more,
so that a mistyped address is unlikely to look right.
-/

namespace StakeGov.Address

def checksumDigits (a : Address) : List Char :=
  let digits := Bytes.hexDigits (bytes a)
  let hash := Bytes.hexDigits (Keccak.digest (Bytes.ofText (String.ofList digits)))
  List.zipWith (fun d h => if '8' ≤ h then d.toUpper else d) digits hash

/-- The text with a checksum in the case of its letters. -/
def text (a : Address) : String :=
  "0x" ++ String.ofList (checksumDigits a)

-- ---------------------------------------------------------------------------
-- Well-known accounts
-- ---------------------------------------------------------------------------

/-- Where governance transactions are sent; there is no contract. -/
def governanceSink : Address := 0xffff

/-- The caller of the engine's own calls; nobody has a key for it. -/
def engineCaller : Address := 0x4E506F5320456E67696e65

def feeRecorder : Address := 0xffffffffffffffffffffffffffffffffffffffff

end StakeGov.Address
