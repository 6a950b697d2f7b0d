import InterpreterLock.Event
import InterpreterLock.Progress

/-!
# The interpreter lock

One lock word that is taken by compare-and-swap, the ident of the thread that holds it, the number
of threads on the contended path, and a count of acquisitions that a yielding holder watches. A
thread that contends parks on the wakeup event; a holder that yields parks on the handoff event
until another thread has taken the lock or its patience is over.
-/

set_option autoImplicit false

namespace InterpreterLock

structure Gil where
  mode : Mode
  word : Int := Mode.freeWord
  holder : Option Ident := none
  waiters : UInt64 := 0
  acquisitions : UInt64 := 0
  wakeup : Event
  handoff : Event
  patience : Duration
deriving DecidableEq

namespace Gil

def defaultPatience : Duration := .ofMillis 5

def new (mode : Mode) (backend : Backend) (patience : Duration) : Gil :=
  { mode, wakeup := .new backend, handoff := .new backend, patience }

def isLocked (g : Gil) : Bool := g.mode.isLocked g.word

def isHeldBy (g : Gil) (me : Ident) : Bool := g.holder == some me

/-- One compare-and-swap from free to locked: the lock taken, nothing when another thread has it,
or a violation when the word is corrupt. -/
def tryLock (g : Gil) : Except Violation (Option Gil) :=
  if g.word = Mode.freeWord then .ok (some { g with word := g.mode.lockedWord })
  else if g.mode.isValid g.word then .ok none
  else .error (.corruptWord g.word g.mode)

def wouldBlock (g : Gil) (me : Ident) : Bool :=
  g.word != Mode.freeWord && g.mode.isValid g.word && !g.isHeldBy me

theorem tryLock_of_free (g : Gil) (h : g.word = Mode.freeWord) :
    g.tryLock = .ok (some { g with word := g.mode.lockedWord }) := by
  simp [tryLock, h]

theorem tryLock_eq_none_iff (g : Gil) :
    g.tryLock = .ok none ↔ g.word ≠ Mode.freeWord ∧ g.mode.isValid g.word = true := by
  unfold tryLock; split <;> simp_all

theorem tryLock_generic (g : Gil) (h : g.mode = .generic) : ∀ v, g.tryLock ≠ .error v := by
  intro v; unfold tryLock; split <;> simp_all [Mode.isValid]

end Gil

end InterpreterLock
