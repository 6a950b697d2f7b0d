import InterpreterLock.Interpreter.Call
import InterpreterLock.Proofs.Gil.Settings

/-!
# What a step of a call leaves

A step of a call works on the interpreter lock and its counters, or it tells the collector of one
event, or it forgets the threads. Limit and stack size of the bootstrap stay, and so do the counters
of threads and what the lock was made with.
-/

set_option autoImplicit false

namespace InterpreterLock

namespace Gil

variable {t : Turn} {g : Gil}

theorem Acquire.step_threads (a : Acquire) (m : Metrics) :
    (m.recordOpt (a.step t g).note).threads = m.threads := by
  cases a with
  | checkHolder =>
    simp only [step]
    split <;> rfl
  | tryWord =>
    simp only [step]
    split <;> rfl
  | retry start ticket =>
    simp only [step]
    split <;> rfl
  | count route => cases route <;> rfl
  | record route => cases route <;> rfl
  | _ => rfl

theorem Release.step_threads (r : Release) (m : Metrics) :
    (m.recordOpt (r.step t g).note).threads = m.threads := by
  cases r with
  | clearHolder => rfl
  | signal => rfl
  | _ =>
    simp only [step]
    split <;> rfl

theorem Yield.step_threads (y : Yield) (m : Metrics) :
    (m.recordOpt (y.step t g).note).threads = m.threads := by
  cases y with
  | release before ticket r => exact r.step_threads m
  | acquire a => exact a.step_threads m
  | record => rfl
  | readCount => rfl
  | prepare before => rfl
  | wait watch w => rfl
  | renew watch => rfl
  | recordHandoff completed => cases completed <;> rfl
  | _ =>
    simp only [step]
    split <;> rfl

end Gil

namespace Bootstrap

def tell (b : Bootstrap) (caller : Ident) (c : Option HookCall) : Bootstrap :=
  match c with
  | none => b
  | some c => b.hear caller c

@[simp] theorem hear_attached (b : Bootstrap) (caller : Ident) (c : HookCall) :
    (b.hear caller c).collector.isSome = b.collector.isSome := by
  cases h : b.collector <;> simp [hear, h]

variable (b : Bootstrap) (caller : Ident) (c : Option HookCall)

@[simp] theorem tell_live : (b.tell caller c).live = b.live := by cases c <;> rfl

@[simp] theorem tell_limit : (b.tell caller c).limit = b.limit := by cases c <;> rfl

@[simp] theorem tell_attached :
    (b.tell caller c).collector.isSome = b.collector.isSome := by
  cases c with
  | none => rfl
  | some c => exact b.hear_attached caller c

end Bootstrap

namespace Interpreter

/-- A stack size that is out of bounds builds nothing; the rest of a configuration is taken over. -/
theorem build_eq {c : Config} {r : Interpreter} (h : build c = .ok r) :
    r =
      { gil := .new c.mode c.backend c.patience
        bootstrap :=
          { backend := c.backend
            collector := if c.collector then some {} else none
            limit := c.maxThreads
            stackSize := c.stackSize } } := by
  simp only [build, Bootstrap.setStackSize] at h
  split at h
  · cases h
    rfl
  · cases h

inductive Op
  | acquire
  | release
  | yield
  | enter
  | leave
  | beforeFork
  | afterFork
deriving DecidableEq

def Op.call : Op → Call
  | .acquire => .toAcquire
  | .release => .toRelease
  | .yield => .toYield
  | .enter => .toEnter
  | .leave => .toLeave
  | .beforeFork => .beforeFork
  | .afterFork => .toAfterFork

/-- The calls the collector has heard when it has been told of an event, if there is one. -/
theorem heard_of_tell {s s' : Interpreter} {caller : Ident} {c : Option HookCall}
    (h : s'.bootstrap.collector = (s.bootstrap.tell caller c).collector) :
    s'.heard = (if s.bootstrap.collector.isSome then c.toList else []) ++ s.heard := by
  cases c with
  | none =>
    have hs : s'.bootstrap.collector = s.bootstrap.collector := h
    simp [heard, hs]
  | some c =>
    have hs : s'.bootstrap.collector = s.bootstrap.collector.map (·.hear caller c) := h
    cases hc : s.bootstrap.collector <;> simp [heard, hs, Collector.hear, hc]

namespace Call

def hook? (me : Ident) : Call → Option HookCall
  | .announceFork => some (.afterFork me)
  | .report _ => some (.run me)
  | .beforeFork => some .beforeFork
  | _ => none

def forgets : Call → Bool
  | .forgetThreads => true
  | _ => false

variable {t : Turn} {s : Interpreter}

theorem onGil_meets {σ α : Type} (m : Move Gil σ α) (inner : σ → Call)
    (after : α → Progress Call Bool) (cutOff : Panic → Progress Call Bool) (P : Call → Prop)
    (Q : Bool → Prop) (R : Panic → Prop) :
    (onGil s m inner after cutOff).2.Meets P Q R ↔
      m.progress.Meets (fun x => P (inner x)) (fun a => (after a).Meets P Q R)
        (fun p => (cutOff p).Meets P Q R) := by
  obtain ⟨state, progress, note⟩ := m
  cases progress <;> rfl

theorem step_bootstrap (c : Call) :
    (c.step t s).1.bootstrap =
      if c.forgets then s.bootstrap.forgetThreads else s.bootstrap.tell t.me (c.hook? t.me) := by
  cases c <;> rfl

theorem step_heard (c : Call) :
    (c.step t s).1.heard =
      (if s.bootstrap.collector.isSome then (c.hook? t.me).toList else []) ++ s.heard := by
  cases hf : c.forgets with
  | false =>
    apply heard_of_tell
    rw [step_bootstrap, hf]
    rfl
  | true =>
    cases c with
    | forgetThreads => simp [step, heard, hook?, Bootstrap.forgetThreads]
    | _ => cases hf

theorem step_attached (c : Call) :
    (c.step t s).1.bootstrap.collector.isSome = s.bootstrap.collector.isSome := by
  rw [step_bootstrap]
  split
  · rfl
  · simp

theorem step_threads (c : Call) : (c.step t s).1.metrics.threads = s.metrics.threads := by
  cases c with
  | acquire a => exact a.step_threads _
  | release r => exact r.step_threads _
  | yield y => exact y.step_threads _
  | enter r => exact r.step_threads _
  | leave a => exact a.step_threads _
  | reinit r => cases r <;> rfl
  | _ => rfl

theorem step_made {mode : Mode} {backend : Backend} {patience : Duration} (c : Call)
    (h : Gil.Made mode backend patience s.gil) :
    Gil.Made mode backend patience (c.step t s).1.gil := by
  cases c with
  | acquire a => exact a.step_made h
  | release r => exact r.step_made h
  | yield y => exact y.step_made h
  | enter r => exact r.step_made h
  | leave a => exact a.step_made h
  | reinit r => exact r.step_made h
  | _ => exact h

end Call

end Interpreter

end InterpreterLock
