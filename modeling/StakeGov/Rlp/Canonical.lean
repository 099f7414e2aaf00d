import StakeGov.Rlp.Basic

/-!
# Canonical forms

A type with a canonical form writes each value in one way and reads nothing but
what it writes. `ofCanonical` accepts a byte string only if it is one whole item
and writing the value back gives the same bytes.
-/

namespace StakeGov

class Canonical (α : Type) where
  write : α → Bytes
  read : Rlp.Reader α

export Canonical (write)

inductive CanonicalError where
  | malformed (cause : Rlp.Error)
  | trailing (count : Nat)
  | notCanonical
deriving DecidableEq, Repr

def CanonicalError.message (e : CanonicalError) : String :=
  "canonical decode failed: " ++
    match e with
    | .malformed cause => cause.message
    | .trailing count => s!"{count} trailing bytes"
    | .notCanonical => "non-canonical encoding"

def ofCanonical (α : Type) [Canonical α] (bs : Bytes) : Except CanonicalError α :=
  match (Canonical.read (α := α)).run bs with
  | .error cause => .error (.malformed cause)
  | .ok (value, rest) =>
    if rest ≠ [] then .error (.trailing rest.length)
    else if write value ≠ bs then .error .notCanonical
    else .ok value

end StakeGov
