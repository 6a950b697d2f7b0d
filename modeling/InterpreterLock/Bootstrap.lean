import InterpreterLock.Backend
import InterpreterLock.Registry
import InterpreterLock.ThreadError

/-!
# Starting threads

A bootstrap starts threads up to a limit and keeps count of those that live. Every thread it starts
holds one slot of that count until its wrapper ends.

The count is a number here and a word in a machine, which it cannot run over: every slot in it is
that of a thread with a stack in memory, of one that is there or of one that is about to start
another, and so there are fewer of them than there are addresses.
-/

set_option autoImplicit false

namespace InterpreterLock

structure Bootstrap where
  backend : Backend
  collector : Option Collector := none
  limit : Option Nat := none
  /-- For threads started from now on; zero leaves it to the operating system. -/
  stackSize : Nat := 0
  live : Nat := 0
deriving DecidableEq

namespace Bootstrap

def stackSizeAllowed (backend : Backend) (size : Nat) : Bool :=
  size == 0 || (Backend.minStack ≤ size && size ≤ backend.maxStack)

def setStackSize (size : Nat) (b : Bootstrap) : Except ThreadError (Nat × Bootstrap) :=
  if stackSizeAllowed b.backend size then .ok (b.stackSize, { b with stackSize := size })
  else .error (.badStackSize size Backend.minStack b.backend.maxStack)

def hear (caller : Ident) (c : HookCall) (b : Bootstrap) : Bootstrap :=
  { b with collector := b.collector.map (·.hear caller c) }

def giveBack (b : Bootstrap) : Bootstrap := { b with live := b.live - 1 }

def forgetThreads (b : Bootstrap) : Bootstrap := { b with live := 0 }

end Bootstrap

end InterpreterLock
