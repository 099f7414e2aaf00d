import StakeGov.Receipt

/-!
# The ledger

The accounts of a block that is being processed, the logs emitted so far and the
transaction they are attributed to. An account exists from the first time
something of it is set, be it to zero, until it is erased.
-/

namespace StakeGov

structure Account where
  nonce : UInt64 := 0
  balance : Word := 0
  hasCode : Bool := false
  storage : Word → Word := fun _ => 0

structure Ledger where
  accounts : Address → Option Account := fun _ => none
  logs : List Log := []
  /-- The transaction that new logs are attributed to, and its place. -/
  txHash : Hash := 0
  txIndex : UInt32 := 0
  /-- How often pending changes were committed. -/
  finalised : Nat := 0

namespace Ledger

/-- The account at an address; one that does not exist is blank. -/
def account (l : Ledger) (a : Address) : Account :=
  (l.accounts a).getD {}

def setAccount (l : Ledger) (a : Address) (account : Account) : Ledger :=
  { l with accounts := fun b => if b = a then some account else l.accounts b }

def nonce (l : Ledger) (a : Address) : UInt64 := (l.account a).nonce

def balance (l : Ledger) (a : Address) : Word := (l.account a).balance

def hasCode (l : Ledger) (a : Address) : Bool := (l.account a).hasCode

def storageAt (l : Ledger) (a : Address) (slot : Word) : Word :=
  (l.account a).storage slot

def setNonce (l : Ledger) (a : Address) (nonce : UInt64) : Ledger :=
  l.setAccount a { l.account a with nonce }

def setBalance (l : Ledger) (a : Address) (balance : Word) : Ledger :=
  l.setAccount a { l.account a with balance }

/-- Raises a balance, at most to the greatest there is. -/
def addBalance (l : Ledger) (a : Address) (amount : Word) : Ledger :=
  l.setBalance a ((l.balance a).addSaturating amount)

def setCode (l : Ledger) (a : Address) : Ledger :=
  l.setAccount a { l.account a with hasCode := true }

def setStorage (l : Ledger) (a : Address) (slot value : Word) : Ledger :=
  let account := l.account a
  l.setAccount a
    { account with storage := fun s => if s = slot then value else account.storage s }

def contains (l : Ledger) (a : Address) : Bool := (l.accounts a).isSome

def erase (l : Ledger) (a : Address) : Ledger :=
  { l with accounts := fun b => if b = a then none else l.accounts b }

def prepare (l : Ledger) (txHash : Hash) (txIndex : UInt32) : Ledger :=
  { l with txHash, txIndex }

def addLog (l : Ledger) (log : Log) : Ledger :=
  { l with logs := l.logs ++ [{ log with txHash := l.txHash, txIndex := l.txIndex }] }

/-- The logs of a transaction, stamped with its block. -/
def logsOf (l : Ledger) (txHash : Hash) (blockNumber : UInt64) (blockHash : Hash) : List Log :=
  (l.logs.filter fun log => log.txHash = txHash).map fun log =>
    { log with blockNumber, blockHash }

/-- Commits pending changes. Blank accounts are kept even if they may be dropped. -/
def finalise (l : Ledger) (_dropBlank : Bool) : Ledger :=
  { l with finalised := l.finalised + 1 }

-- ---------------------------------------------------------------------------
-- What is read after an account was set
-- ---------------------------------------------------------------------------

theorem account_setAccount (l : Ledger) (a b : Address) (account : Account) :
    (l.setAccount a account).account b = if b = a then account else l.account b := by
  unfold setAccount Ledger.account
  dsimp only
  split <;> rfl

theorem balance_setBalance (l : Ledger) (a b : Address) (balance : Word) :
    (l.setBalance a balance).balance b = if b = a then balance else l.balance b := by
  rw [setBalance, Ledger.balance, account_setAccount]
  split <;> rfl

theorem account_setBalance (l : Ledger) (a b : Address) (balance : Word) :
    (l.setBalance a balance).account b =
      { l.account b with balance := (l.setBalance a balance).balance b } := by
  rw [balance_setBalance, setBalance, account_setAccount]
  split
  · rename_i h
    rw [h]
  · rfl

theorem accounts_setBalance {a b : Address} (l : Ledger) (balance : Word) (h : b ≠ a) :
    (l.setBalance a balance).accounts b = l.accounts b :=
  if_neg h

theorem storageAt_setNonce (l : Ledger) (a b : Address) (nonce : UInt64) (slot : Word) :
    (l.setNonce a nonce).storageAt b slot = l.storageAt b slot := by
  rw [setNonce, storageAt, account_setAccount]
  split
  · rename_i h
    subst h
    rfl
  · rfl

theorem storageAt_setBalance (l : Ledger) (a b : Address) (balance slot : Word) :
    (l.setBalance a balance).storageAt b slot = l.storageAt b slot := by
  rw [storageAt, account_setBalance, storageAt]

theorem storageAt_setStorage (l : Ledger) (a : Address) (slot value : Word) :
    (l.setStorage a slot value).storageAt a slot = value := by
  rw [setStorage, storageAt, account_setAccount, if_pos rfl]
  exact if_pos rfl

end Ledger

end StakeGov
