import InterpreterLock.Proofs.ThreadLock.System

/-!
# Threads at the locks of one runtime

General locks are allocated from one runtime at any time, and all of them count into its metrics.
Any thread acquires any of them, for a guard or without, and any thread releases any of them or
drops a guard of it. A lock may be interrupted at any moment, and a sleeper may be woken for no
reason.

A state also remembers the lock of each compare-and-swap that took one and of each swap that freed
one, how the calls have ended, and how many have begun.
-/

set_option autoImplicit false

namespace InterpreterLock.ThreadLock

inductive Use
  | acquire (terms : Terms)
  | release
  | guard
  | drop

def Use.call : Use → Call
  | .acquire terms => .acquire terms .tryLock
  | .guard => .acquire .blocking .tryLock
  | .release | .drop => .release .unlock

def Acquire.takes (l : ThreadLock) : Acquire → Bool
  | .tryLock | .retry .. => !l.locked
  | _ => false

def Release.frees (l : ThreadLock) : Release → Bool
  | .unlock => l.locked
  | _ => false

namespace Call

def takes (l : ThreadLock) : Call → Bool
  | .acquire _ a => a.takes l
  | .release _ => false

def frees (l : ThreadLock) : Call → Bool
  | .acquire .. => false
  | .release r => r.frees l

end Call

structure Job where
  lock : ℕ
  call : Call

structure Ended where
  lock : ℕ
  answer : LockStatus ⊕ Bool

structure Rack where
  backend : Backend
  locks : List ThreadLock := []
  metrics : Metrics := {}
  jobs : Ident → Option Job := fun _ => none
  taken : List ℕ := []
  freed : List ℕ := []
  ended : List Ended := []
  begun : ℕ := 0

namespace Rack

inductive Action
  | allocate
  | begin (i : Ident) (k : ℕ) (use : Use)
  | step (t : Turn)
  | interrupt (k : ℕ)
  | rouse (i : Ident) (k : ℕ)

def start (backend : Backend) : Rack := { backend }

def beginJob (r : Rack) (i : Ident) (j : Job) : Rack :=
  { r with jobs := Function.update r.jobs i (some j), begun := r.begun + 1 }

def stepJob (r : Rack) (t : Turn) (j : Job) (l : ThreadLock) : Rack :=
  let m := j.call.step t l
  { r with
    locks := r.locks.set j.lock m.state
    metrics := r.metrics.recordOpt m.note
    jobs := Function.update r.jobs t.me (m.progress.next?.map fun c => ⟨j.lock, c⟩)
    taken := if j.call.takes l then j.lock :: r.taken else r.taken
    freed := if j.call.frees l then j.lock :: r.freed else r.freed
    ended :=
      match m.progress with
      | .done answer => ⟨j.lock, answer⟩ :: r.ended
      | _ => r.ended }

def act (r : Rack) : Action → Rack
  | .allocate => { r with locks := r.locks ++ [.new r.backend] }
  | .begin i k use =>
    match r.jobs i, r.locks[k]? with
    | none, some _ => r.beginJob i ⟨k, use.call⟩
    | _, _ => r
  | .step t =>
    match r.jobs t.me with
    | none => r
    | some j =>
      match r.locks[j.lock]? with
      | none => r
      | some l => r.stepJob t j l
  | .interrupt k => { r with locks := r.locks.modify k interrupt }
  | .rouse i k => { r with locks := r.locks.modify k fun l => { l with event := l.event.rouse i } }

def run (r : Rack) (acts : List Action) : Rack := acts.foldl act r

end Rack

end InterpreterLock.ThreadLock
