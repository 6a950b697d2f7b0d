import InterpreterLock.Proofs.Gil.Entries
import InterpreterLock.Proofs.Gil.Yielding
import InterpreterLock.Proofs.Interpreter.Custody

/-!
# What calls add to the counters

A yield that gives the lock up counts one handoff or one timeout before it takes the lock back and
counts an acquisition, so that the acquisitions less the handoffs and timeouts are those of the
calls to acquire. Until the acquisition is counted the thread is one short of it.
-/

set_option autoImplicit false

namespace InterpreterLock

namespace Metrics

def acquires (m : Metrics) : UInt64 :=
  m.gil.fastAcquires + m.gil.slowAcquires - m.gil.handoffs - m.gil.handoffTimeouts

inductive Pays : Option Record → Bool → Bool → Bool → Bool → Prop
  | nothing (short due : Bool) : Pays none short due short due
  | fast (due : Bool) : Pays (some .fastAcquire) true due false due
  | slow (d : Duration) (due : Bool) : Pays (some (.slowAcquire d)) true due false due
  | yielded (short : Bool) : Pays (some .yielded) short true short false
  | handoff (completed due : Bool) : Pays (some (.handoff completed)) false due true due

variable {m : Metrics} {n : Option Record} {short due short' due' : Bool}

theorem Pays.acquires (h : Pays n short due short' due') :
    (m.recordOpt n).acquires + short'.toUInt64 = m.acquires + short.toUInt64 := by
  cases h with
  | nothing => rfl
  | fast => simp only [recordOpt, record, Metrics.acquires, Bool.toUInt64]; grind
  | slow d => simp only [recordOpt, record, Metrics.acquires, Bool.toUInt64]; grind
  | yielded => rfl
  | handoff completed =>
    cases completed <;> simp only [recordOpt, record, Metrics.acquires, Bool.toUInt64] <;> grind

theorem Pays.yields (h : Pays n short due short' due') :
    (m.recordOpt n).gil.yields + due'.toUInt64 = m.gil.yields + due.toUInt64 := by
  cases h with
  | yielded => simp only [recordOpt, record, Bool.toUInt64]; grind
  | handoff completed => cases completed <;> rfl
  | _ => rfl

end Metrics

namespace Gil

open Metrics (Pays)

def Counts {σ α : Type} (short due : Bool) (short' due' : σ → Bool) (m : Move Gil σ α) : Prop :=
  m.progress.Meets (fun c => Pays m.note short due (short' c) (due' c))
    (fun _ => Pays m.note short due false false) fun _ => True

theorem Counts.within {σ τ α β : Type} {short due : Bool} {short' due' : σ → Bool}
    {short₁ due₁ : τ → Bool} {m : Move Gil σ α} (hm : Counts short due short' due' m)
    (inner : σ → τ) (next : α → Progress τ β)
    (hi : ∀ c, short₁ (inner c) = short' c ∧ due₁ (inner c) = due' c)
    (hn : ∀ a, (next a).Meets (fun c => short₁ c = false ∧ due₁ c = false) (fun _ => True)
      fun _ => True) :
    Counts short due short₁ due₁ ⟨m.state, m.progress.within inner next, m.note⟩ := by
  rw [Counts, Progress.meets_within]
  refine Progress.Meets.imp hm (fun c hc => ?_) (fun a ha => ?_) fun _ hp => hp
  · rw [(hi c).1, (hi c).2]
    exact hc
  · refine Progress.Meets.imp (hn a) (fun c hc => ?_) (fun _ _ => ha) fun _ hp => hp
    rw [hc.1, hc.2]
    exact ha

namespace Yield

def isShort : Yield → Bool
  | .acquire _ => true
  | _ => false

def isDue : Yield → Bool
  | .checkHolder | .record => true
  | _ => false

end Yield

variable {t : Turn} {g : Gil}

theorem Acquire.counts (a : Acquire) :
    Counts true false (fun _ => true) (fun _ => false) (a.step t g) := by
  cases a with
  | wait start w =>
    simp only [Counts, step, Progress.meets_within]
    apply Parking.wait_meets
    · intro w'
      exact .nothing true false
    · intro o
      exact .nothing true false
  | checkHolder =>
    simp only [Counts, step]
    split
    · trivial
    · exact .nothing true false
  | tryWord =>
    simp only [Counts, step]
    split
    · exact .nothing true false
    · exact .nothing true false
    · trivial
  | retry start ticket =>
    simp only [Counts, step]
    split
    · exact .nothing true false
    · exact .nothing true false
    · trivial
  | count route => cases route <;> exact .nothing true false
  | record route =>
    cases route with
    | fast => exact .fast false
    | contended start => exact .slow _ false
  | _ => exact .nothing true false

theorem Release.counts (r : Release) :
    Counts false false (fun _ => false) (fun _ => false) (r.step t g) := by
  simp only [Counts, step_note]
  cases (r.step t g).progress with
  | unwound p => trivial
  | _ => exact .nothing false false

theorem Yield.counts (y : Yield) : Counts y.isShort y.isDue isShort isDue (y.step t g) := by
  cases y with
  | release before ticket r =>
    exact (Release.counts (t := t) (g := g) r).within (Yield.release before ticket)
      (fun _ => .going (.setDeadline before ticket)) (fun _ => ⟨rfl, rfl⟩) fun _ => ⟨rfl, rfl⟩
  | acquire a =>
    exact (Acquire.counts (t := t) (g := g) a).within Yield.acquire (fun _ => .done true)
      (fun _ => ⟨rfl, rfl⟩) fun _ => trivial
  | wait watch w =>
    simp only [Counts, step, Progress.meets_within]
    apply Parking.wait_meets
    · intro w'
      exact .nothing false false
    · intro o
      exact .nothing false false
  | checkHolder =>
    simp only [Counts, step]
    split
    · exact .nothing false true
    · trivial
  | setDeadline before ticket =>
    simp only [Counts, step]
    split
    · exact .nothing false false
    · trivial
  | record => exact .yielded false
  | readCount => exact .nothing false false
  | prepare before => exact .nothing false false
  | renew watch => exact .nothing false false
  | recordHandoff completed => exact .handoff completed false
  | _ =>
    simp only [Counts, step]
    split <;> exact .nothing false false

theorem Yield.panic?_eq_none (y : Yield) (h : ¬Overruns t.now g.patience) :
    y.panic? t g true = none := by
  cases y with
  | setDeadline before ticket =>
    rw [← isNone_add?_iff, Bool.not_eq_true] at h
    simp [panic?, h]
  | _ => rfl

theorem Posts.counts {n n' : UInt64} {k : Entry} {b b' : Bool} (h : Posts n k b n' b')
    (hs : k ≠ .strand) (hc : k ≠ .clear) : n' + b.toUInt64 = n + b'.toUInt64 := by
  cases h with
  | keep => rfl
  | enlist => simp [Bool.toUInt64]
  | strike => simp [Bool.toUInt64]
  | strand => exact absurd rfl hs
  | clear => exact absurd rfl hc

end Gil

namespace Interpreter

namespace Call

open Gil (Hold Shift Shows Overruns)

def isShort : Call → Bool
  | .acquire _ => true
  | .yield y => y.isShort
  | _ => false

def isDue : Call → Bool
  | .yield y => y.isDue
  | _ => false

def isEnlisted (c : Call) : Bool := (c.atLock?.map fun l => l.stance.isEnlisted).getD false

def hold : Call → Hold
  | .acquire a => a.hold false
  | .release r => r.hold true
  | .yield y => y.hold true
  | _ => .recorded

def isAcquire : Call → Bool
  | .acquire _ | .report (.ok _) => true
  | _ => false

def isYield : Call → Bool
  | .yield _ | .report (.ok _) => true
  | _ => false

def isRelease : Call → Bool
  | .release _ => true
  | _ => false

structure Counted (s s' : Interpreter) (c : Call) (short due enlisted : Bool) : Prop where
  acquires : s'.metrics.acquires + short.toUInt64 = s.metrics.acquires + c.isShort.toUInt64
  yields : s'.metrics.gil.yields + due.toUInt64 = s.metrics.gil.yields + c.isDue.toUInt64
  waiters : s'.gil.waiters + c.isEnlisted.toUInt64 = s.gil.waiters + enlisted.toUInt64

def Serves (t : Turn) (s : Interpreter) (c : Call) (kind : Call → Bool) (after : Hold) : Prop :=
  ∃ takes frees, (c.step t s).2.Meets
    (fun c' => kind c' = true ∧
      Shift t.me s.gil (c.step t s).1.gil takes frees c.hold c'.hold ∧
      Counted s (c.step t s).1 c c'.isShort c'.isDue c'.isEnlisted)
    (fun _ => Shift t.me s.gil (c.step t s).1.gil takes frees c.hold after ∧
      Counted s (c.step t s).1 c false false false)
    fun _ => False

variable {t : Turn} {s : Interpreter}

theorem serves_report {b : Bool} {kind : Call → Bool} :
    Serves t s (.report (.ok b)) kind .recorded :=
  ⟨false, false, .keep _ rfl rfl, rfl, rfl, rfl⟩

theorem serves_acquire {a : Gil.Acquire} (hs : Shows s.gil t.me (a.hold false)) :
    Serves t s (.acquire a) isAcquire .recorded := by
  have hstrand : a.entry s.gil ≠ .strand := (Gil.Call.acquire a).entry_ne_strand hs.valid
  have hclear : a.entry s.gil ≠ .clear := a.entry_ne_clear s.gil
  have ha := ((a.accords hs false).and a.counts).and a.enters
  refine ⟨a.takes s.gil, false, ?_⟩
  simp only [step, onGil_meets]
  refine ha.imp (fun a' h => ?_) (fun _ h => ?_) fun p h => ?_
  · obtain ⟨⟨⟨-, hshift⟩, hpays⟩, hposts⟩ := h
    exact ⟨rfl, hshift, hpays.acquires, hpays.yields, hposts.counts hstrand hclear⟩
  · obtain ⟨⟨⟨-, hshift⟩, hpays⟩, hposts⟩ := h
    exact ⟨rfl, hshift, hpays.acquires, hpays.yields, hposts.counts hstrand hclear⟩
  · obtain ⟨⟨⟨hp, -⟩, -⟩, -⟩ := h
    rw [a.panic?_outside] at hp
    cases hp

theorem serves_release {r : Gil.Release} (hs : Shows s.gil t.me (r.hold true)) :
    Serves t s (.release r) isRelease .out := by
  have hr := ((r.accords hs true).and r.counts).and r.enters
  refine ⟨false, r.frees, ?_⟩
  simp only [step, onGil_meets]
  refine hr.imp (fun r' h => ?_) (fun _ h => ?_) fun p h => ?_
  · obtain ⟨⟨⟨-, hshift⟩, hpays⟩, hposts⟩ := h
    exact ⟨rfl, hshift, hpays.acquires, hpays.yields, hposts.counts (by decide) (by decide)⟩
  · obtain ⟨⟨⟨-, hshift⟩, hpays⟩, hposts⟩ := h
    exact ⟨hshift, hpays.acquires, hpays.yields, hposts.counts (by decide) (by decide)⟩
  · obtain ⟨⟨⟨hp, -⟩, -⟩, -⟩ := h
    rw [r.panic?_inside] at hp
    cases hp

theorem serves_yield {y : Gil.Yield} (hs : Shows s.gil t.me (y.hold true))
    (ht : ¬Overruns t.now s.gil.patience) : Serves t s (.yield y) isYield .recorded := by
  have hstrand : y.entry s.gil ≠ .strand := (Gil.Call.yield y).entry_ne_strand hs.valid
  have hclear : y.entry s.gil ≠ .clear := by
    intro he
    have hr : (Gil.Call.yield y).isReset = true := Gil.Call.isReset_of_entry he
    cases hr
  have hy := ((y.accords hs true).and y.counts).and y.enters
  refine ⟨y.takes s.gil, y.frees, ?_⟩
  simp only [step, onGil_meets]
  refine hy.imp (fun y' h => ?_) (fun ran h => ?_) fun p h => ?_
  · obtain ⟨⟨⟨-, hshift⟩, hpays⟩, hposts⟩ := h
    exact ⟨rfl, hshift, hpays.acquires, hpays.yields, hposts.counts hstrand hclear⟩
  · obtain ⟨⟨⟨-, hshift⟩, hpays⟩, hposts⟩ := h
    cases ran with
    | false => exact ⟨hshift, hpays.acquires, hpays.yields, hposts.counts hstrand hclear⟩
    | true => exact ⟨rfl, hshift, hpays.acquires, hpays.yields, hposts.counts hstrand hclear⟩
  · obtain ⟨⟨⟨hp, -⟩, -⟩, -⟩ := h
    rw [y.panic?_eq_none ht] at hp
    cases hp

variable {c : Call}

theorem serves_of_isAcquire (hc : c.isAcquire = true) (hs : Shows s.gil t.me c.hold) :
    Serves t s c isAcquire .recorded := by
  cases c with
  | acquire a => exact serves_acquire hs
  | report ending =>
    cases ending with
    | ok b => exact serves_report
    | error e => cases hc
  | _ => cases hc

theorem serves_of_isYield (hc : c.isYield = true) (hs : Shows s.gil t.me c.hold)
    (ht : ¬Overruns t.now s.gil.patience) : Serves t s c isYield .recorded := by
  cases c with
  | yield y => exact serves_yield hs ht
  | report ending =>
    cases ending with
    | ok b => exact serves_report
    | error e => cases hc
  | _ => cases hc

theorem serves_of_isRelease (hc : c.isRelease = true) (hs : Shows s.gil t.me c.hold) :
    Serves t s c isRelease .out := by
  cases c with
  | release r => exact serves_release hs
  | _ => cases hc

end Call

end Interpreter

end InterpreterLock
