import InterpreterLock.Event
import InterpreterLock.LockStatus
import InterpreterLock.Panic
import InterpreterLock.ThreadError

/-!
# Statements of a session

A session is a script: each statement is taken by one named thread and works on an interpreter, on a
lock, an event or a reference by name, or on another thread. Two statements are blocks whose body
the same thread runs: one without the interpreter lock, one under a guard of a general lock. A panic
in the body unwinds the block.

When the lock cannot be taken back at the end of a block that unwinds, there is a second panic, and
a process with two panics at once in one thread is aborted. A session is to go on to its last
statement, so such a body withholds its panic: it answers that it has, and the block is left as
after a return.
-/

set_option autoImplicit false

namespace InterpreterLock.Session

inductive Block
  | allow (n : Nat) (hooked : Bool)
  | guard (lock : String)
deriving DecidableEq, Repr

inductive Statement
  | acquire (n : Nat)
  | release (n : Nat)
  | yield (n : Nat)
  | beforeFork (n : Nat)
  | afterFork (n : Nat)
  | bareAcquire (n : Nat)
  | bareRelease (n : Nat)
  | bareYield (n : Nat)
  | bareReinit (n : Nat)
  | held (n : Nat)
  | storeWord (n : Nat) (word : Int)
  | block (kind : Block) (body : List Statement) (panic : Option String)
  | spawn (n : Nat) (who : String) (name : Option String)
  | join (who : String)
  | detach (who : String)
  | isFinished (who : String)
  | setStackSize (n : Nat) (size : Nat)
  | ident
  | threadName
  | registerSelf (n : Nat)
  | deregisterSelf (n : Nat)
  | newLock (lock : String) (n : Nat) (backend : Option Backend)
  | tryLock (lock : String)
  | lock (lock : String) (blocking : Bool)
  | lockTimed (lock : String) (timeout : Timeout)
  | unlock (lock : String)
  | interruptLock (lock : String)
  | newEvent (event : String) (backend : Backend)
  | prepare (event : String) (ticket : String)
  | wait (event : String) (ticket : String) (timeout : Timeout)
  | signalOne (event : String)
  | signalAll (event : String)
  | interrupt (event : String)
  | newCell (cell : String)
  | getCell (cell : String)
  | setCell (cell : String) (value : Option String)
deriving Inhabited

inductive Reply
  | ok
  | nothing
  | flag (b : Bool)
  | number (n : Nat)
  | text (s : String)
  | status (s : LockStatus)
  | outcome (o : WaitOutcome)
  | ticket (t : Ticket)
  | spawned (handle seen : Ident)
  | all (replies : List Reply)
  | panicked (p : Panic)
  | error (e : ThreadError)
  | withheld
  | blocked
  | busy
deriving Inhabited

namespace Reply

def ofFlag? : Option Bool → Reply
  | none => nothing
  | some b => flag b

def ofText? : Option String → Reply
  | none => nothing
  | some s => text s

end Reply

end InterpreterLock.Session
