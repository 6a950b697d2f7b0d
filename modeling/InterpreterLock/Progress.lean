import InterpreterLock.Metrics
import InterpreterLock.Panic

/-!
# Calls in steps

A call that threads share state through is a sequence of steps, each a single access to that state.
Between two steps of one thread any other thread may take some of its own. A step is taken in a
turn, which says whose step it is, what the clock shows, and which sleeper a wake-one would wake.
-/

set_option autoImplicit false

namespace InterpreterLock

structure Turn where
  me : Ident
  now : Instant
  pick : Nat := 0

inductive Progress (σ α : Type)
  | going (next : σ)
  | done (answer : α)
  | unwound (p : Panic)

structure Move (γ σ α : Type) where
  state : γ
  progress : Progress σ α
  note : Option Metrics.Record := none

namespace Progress

def within {σ τ α β : Type} (inside : σ → τ) (after : α → Progress τ β) :
    Progress σ α → Progress τ β
  | .going s => .going (inside s)
  | .done a => after a
  | .unwound p => .unwound p

end Progress

end InterpreterLock
