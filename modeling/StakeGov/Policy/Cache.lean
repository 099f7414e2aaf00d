import StakeGov.Word

/-!
# A bounded cache

At most `capacity` values by hash, the most recently used first. When it is full,
a new value takes the place of the one that was not used for the longest time.
-/

namespace StakeGov

structure Cache (α : Type) where
  capacity : Nat
  /-- The most recently used entry first. -/
  entries : List (Hash × α) := []

namespace Cache

variable {α : Type}

/-- The value of a key. Looking at it is not a use. -/
def peek? (c : Cache α) (k : Hash) : Option α :=
  c.entries.lookup k

def without (c : Cache α) (k : Hash) : List (Hash × α) :=
  c.entries.filter fun e => e.1 ≠ k

def touch (c : Cache α) (k : Hash) : Cache α :=
  match c.peek? k with
  | some v => { c with entries := (k, v) :: c.without k }
  | none => c

def put (c : Cache α) (k : Hash) (v : α) : Cache α :=
  { c with entries := ((k, v) :: c.without k).take c.capacity }

end Cache

end StakeGov
