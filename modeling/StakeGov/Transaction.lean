import StakeGov.Keccak
import StakeGov.Rlp.Basic

/-!
# Transactions

A transaction is hashed as a list of nine items: its own six fields and the
three numbers of its signature. What a signer signs has the chain's number and
two zeros in their place.
-/

namespace StakeGov

structure Signature where
  v : UInt64 := 0
  r : Word := 0
  s : Word := 0
deriving DecidableEq, Repr

structure Transaction where
  nonce : UInt64 := 0
  gasPrice : Word := 0
  gas : UInt64 := 0
  /-- A transaction without one creates a contract. -/
  recipient : Option Address := none
  value : Word := 0
  data : Bytes := []
  signature : Option Signature := none
deriving DecidableEq, Repr

namespace Transaction

def recipientBytes (tx : Transaction) : Bytes :=
  match tx.recipient with
  | some a => Address.bytes a
  | none => []

/-- The form that is hashed, with the given signature numbers. -/
def encodeWith (tx : Transaction) (sig : Signature) : Bytes :=
  Rlp.list <|
    Rlp.nat tx.nonce.toNat ++ Rlp.nat tx.gasPrice.toNat ++ Rlp.nat tx.gas.toNat ++
      Rlp.string tx.recipientBytes ++ Rlp.nat tx.value.toNat ++ Rlp.string tx.data ++
      Rlp.nat sig.v.toNat ++ Rlp.nat sig.r.toNat ++ Rlp.nat sig.s.toNat

/-- An unsigned transaction counts as signed with zeros. -/
def encode (tx : Transaction) : Bytes :=
  tx.encodeWith (tx.signature.getD {})

def signingPayload (tx : Transaction) (chainId : UInt64) : Bytes :=
  tx.encodeWith { v := chainId }

def hash (tx : Transaction) : Hash :=
  keccak256 tx.encode

def signingHash (tx : Transaction) (chainId : UInt64) : Hash :=
  keccak256 (tx.signingPayload chainId)

end Transaction

end StakeGov
