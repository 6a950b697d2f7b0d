import InterpreterLock.Gil.Yield

/-!
# Calls of the interpreter lock

Besides acquire, release and yield, a child process makes the lock its own after a fork, and the raw
word can be overwritten. The answer of a call says whether the caller took the lock in it.
-/

set_option autoImplicit false

namespace InterpreterLock.Gil

inductive Reinit
  | clearWaiters
  | lockWord
  | setHolder
deriving DecidableEq

def Reinit.step (t : Turn) (g : Gil) : Reinit → Move Gil Reinit Unit
  | .clearWaiters => ⟨{ g with waiters := 0 }, .going .lockWord, none⟩
  | .lockWord => ⟨{ g with word := g.mode.lockedWord }, .going .setHolder, none⟩
  | .setHolder => ⟨{ g with holder := some t.me }, .done (), none⟩

inductive Call
  | acquire (place : Acquire)
  | release (place : Release)
  | yield (place : Yield)
  | reinit (place : Reinit)
  | store (word : Int)
deriving DecidableEq

namespace Call

def toAcquire : Call := .acquire .checkHolder

def toRelease : Call := .release .checkHolder

def toYield : Call := .yield .checkHolder

def toReinit : Call := .reinit .clearWaiters

def step (t : Turn) (g : Gil) : Call → Move Gil Call Bool
  | .acquire a =>
    let m := a.step t g
    ⟨m.state, m.progress.within .acquire fun _ => .done true, m.note⟩
  | .release r =>
    let m := r.step t g
    ⟨m.state, m.progress.within .release fun _ => .done false, m.note⟩
  | .yield y =>
    let m := y.step t g
    ⟨m.state, m.progress.within .yield .done, m.note⟩
  | .reinit r =>
    let m := r.step t g
    ⟨m.state, m.progress.within .reinit fun _ => .done true, m.note⟩
  | .store word => ⟨{ g with word }, .done false, none⟩

def isResting (t : Turn) (g : Gil) : Call → Bool
  | .acquire a => a.isResting t g
  | .yield y => y.isResting t g
  | _ => false

def deadline? : Call → Option Instant
  | .acquire a => a.deadline?
  | .yield y => y.deadline?
  | _ => none

end Call

structure Counted where
  gil : Gil
  metrics : Metrics := {}

def Counted.run (t : Turn) : Nat → Counted → Call → Counted × Option (Except Panic Bool)
  | 0, s, _ => (s, none)
  | bound + 1, s, c =>
    let m := c.step t s.gil
    let s' : Counted := ⟨m.state, s.metrics.recordOpt m.note⟩
    match m.progress with
    | .going c' => run t bound s' c'
    | .done b => (s', some (.ok b))
    | .unwound p => (s', some (.error p))

end InterpreterLock.Gil
