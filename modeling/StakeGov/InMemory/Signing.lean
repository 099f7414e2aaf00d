import StakeGov.Engine.Basic

/-!
# Signing without keys

A signature that holds the signing account itself, so that recovering it needs no
arithmetic on curves.
-/

namespace StakeGov.PlainSigning

/-- The signature of an account: `v` tells the chain, `r` the account. -/
def signature (account : Address) (chainId : UInt64) : Signature where
  v := UInt64.ofNatClamp (2 * chainId.toNat + 35)
  r := Address.word account
  s := 1

def signer : Signer where
  sign account tx chainId := .ok { tx with signature := some (signature account chainId) }

def lockedSigner : Signer where
  sign _ _ _ := .error (.signing "keystore locked")

def sender (tx : Transaction) (_chainId : UInt64) : Except SignerError Address :=
  match tx.signature with
  | some sig => .ok sig.r.address
  | none => .error (.recovery "transaction is unsigned")

end StakeGov.PlainSigning
