import InterpreterLock.Proofs.Gil.Custody
import Mathlib.Algebra.Group.Pi.Basic
import Mathlib.Algebra.Ring.Int.Defs

/-!
# The accounts of a call

An acquisition is counted by the lock and by the metrics, a yield when it begins and again when its
wait is over, and the word goes up with every acquisition and down with every release. Each place of
a call says what the call has added to these columns so far, and each step adds to the columns what
it adds to its call.
-/

set_option autoImplicit false

namespace InterpreterLock.Gil

inductive Column
  | acquisitions
  | acquires
  | handoffs
  | yields
  | word
deriving DecidableEq

abbrev Sheet := Column → ℤ

def Sheet.one (k : Column) : Sheet := Pi.single k 1

open Sheet (one)

def noted : Option Metrics.Record → Sheet
  | none => 0
  | some .fastAcquire | some (.slowAcquire _) => one .acquires
  | some .yielded => one .yields
  | some (.handoff _) => one .handoffs
  | some (.lockStatus _) | some (.lockContention _) | some .threadSpawned | some .threadExited
  | some .spawnFailure => 0

inductive Moves (g g' : Gil) : Sheet → Prop
  | keep (hw : g'.word = g.word) (hn : g'.acquisitions = g.acquisitions) : Moves g g' 0
  | take (hf : g.word = 0) (hw : g'.word = 1) (hn : g'.acquisitions = g.acquisitions) :
      Moves g g' (one .word)
  | free (hl : g.word = 1) (hw : g'.word = 0) (hn : g'.acquisitions = g.acquisitions) :
      Moves g g' (-one .word)
  | count (hw : g'.word = g.word) (hn : g'.acquisitions = g.acquisitions + 1) :
      Moves g g' (one .acquisitions)

structure Agrees (g : Gil) (m : Metrics) (s : Sheet) : Prop where
  acquisitions : g.acquisitions = .ofInt (s .acquisitions)
  acquires : m.gil.fastAcquires + m.gil.slowAcquires = .ofInt (s .acquires)
  handoffs : m.gil.handoffs + m.gil.handoffTimeouts = .ofInt (s .handoffs)
  yields : m.gil.yields = .ofInt (s .yields)
  word : g.word = s .word

section

variable {g g' : Gil} {m : Metrics} {s d : Sheet}

theorem Agrees.moves (h : Agrees g m s) (hm : Moves g g' d) : Agrees g' m (s + d) := by
  obtain ⟨h1, h2, h3, h4, h5⟩ := h
  cases hm with
  | keep hw hn =>
    rw [add_zero]
    exact ⟨hn.trans h1, h2, h3, h4, hw.trans h5⟩
  | take hf hw hn =>
    constructor <;> simp [one, *]
    omega
  | free hl hw hn =>
    constructor <;> simp [one, *]
    omega
  | count hw hn => constructor <;> simp [one, *]

theorem Agrees.note (h : Agrees g m s) (n : Option Metrics.Record) :
    Agrees g (m.recordOpt n) (s + noted n) := by
  obtain ⟨h1, h2, h3, h4, h5⟩ := h
  have one_add (a b : UInt64) : a + 1 + b = a + b + 1 := by grind
  have add_one (a b : UInt64) : a + (b + 1) = a + b + 1 := by grind
  cases n with
  | none =>
    rw [noted, add_zero]
    exact ⟨h1, h2, h3, h4, h5⟩
  | some r =>
    cases r with
    | handoff completed =>
      cases completed <;>
        constructor <;> simp [noted, one, Metrics.recordOpt, Metrics.record, *]
    | lockStatus status =>
      rw [noted, add_zero]
      cases status <;> exact ⟨h1, h2, h3, h4, h5⟩
    | _ => constructor <;> simp [noted, one, Metrics.recordOpt, Metrics.record, *]

end

namespace Acquire

def part : Acquire → Sheet
  | .checkHolder | .tryWord | .readClock | .enlist _ | .prepare _ | .retry .. | .wait .. => 0
  | .unlist _ | .setHolder _ | .count _ => one .word
  | .announce _ | .record _ => one .word + one .acquisitions

def final : Except Panic Unit → Sheet
  | .ok _ => one .word + one .acquisitions + one .acquires
  | .error _ => 0

end Acquire

namespace Release

def part : Release → Sheet
  | .checkHolder | .clearHolder | .clearWord => 0
  | .lookForWaiters | .signal => -one .word

def final : Except Panic Unit → Sheet
  | .ok _ => -one .word
  | .error _ => 0

end Release

namespace Yield

def waited : Sheet := one .yields + -one .word + one .handoffs

def part : Yield → Sheet
  | .checkHolder | .record => 0
  | .lookForWaiters | .readCount | .prepare _ => one .yields
  | .release _ _ r => one .yields + r.part
  | .setDeadline .. | .compareCount .. | .recountWaiters .. | .readClock .. | .wait .. | .renew _
  | .recordHandoff _ => one .yields + -one .word
  | .acquire a => waited + a.part

def final : Except Panic Bool → Sheet
  | .ok false => one .yields
  | .ok true => waited + Acquire.final (.ok ())
  | .error .clockOverflow => one .yields + -one .word
  | .error _ => 0

end Yield

namespace Call

def part : Call → Sheet
  | .acquire a => a.part
  | .release r => r.part
  | .yield y => y.part
  | .reinit _ | .store _ => 0

def final : Call → Except Panic Bool → Sheet
  | .acquire _, r => Acquire.final (r.map fun _ => ())
  | .release _, r => Release.final (r.map fun _ => ())
  | .yield _, r => Yield.final r
  | .reinit _, _ | .store _, _ => 0

end Call

def Turns (g : Gil) (note : Option Metrics.Record) (g' : Gil) (before after : Sheet) : Prop :=
  ∃ d, Moves g g' d ∧ after = before + (d + noted note)

def Books {σ α : Type} (g : Gil) (before : Sheet) (part : σ → Sheet)
    (final : Except Panic α → Sheet) (m : Move Gil σ α) : Prop :=
  m.progress.Meets (fun c => Turns g m.note m.state before (part c))
    (fun a => Turns g m.note m.state before (final (.ok a)))
    (fun p => Turns g m.note m.state before (final (.error p)))

section

variable {g g' : Gil} {n : Option Metrics.Record} {b e : Sheet}

theorem Turns.keep (hw : g'.word = g.word) (hn : g'.acquisitions = g.acquisitions) :
    Turns g none g' b b :=
  ⟨0, .keep hw hn, by simp [noted]⟩

theorem Turns.take (hf : g.word = 0) (hw : g'.word = 1) (hn : g'.acquisitions = g.acquisitions) :
    Turns g none g' 0 (one .word) :=
  ⟨_, .take hf hw hn, by simp [noted]⟩

theorem Turns.free (hl : g.word = 1) (hw : g'.word = 0) (hn : g'.acquisitions = g.acquisitions) :
    Turns g none g' 0 (-one .word) :=
  ⟨_, .free hl hw hn, by simp [noted]⟩

theorem Turns.count (hw : g'.word = g.word) (hn : g'.acquisitions = g.acquisitions + 1) :
    Turns g none g' b (b + one .acquisitions) :=
  ⟨_, .count hw hn, by simp [noted]⟩

theorem Turns.note (n : Option Metrics.Record) : Turns g n g b (b + noted n) :=
  ⟨0, .keep rfl rfl, by simp⟩

/-- A call that runs inside another one adds to what the outer one has added by itself. -/
theorem Turns.within (h : Turns g n g' b e) (outer : Sheet) :
    Turns g n g' (outer + b) (outer + e) := by
  obtain ⟨d, hd, rfl⟩ := h
  exact ⟨d, hd, (add_assoc ..).symm⟩

end

variable {t : Turn} {g : Gil} {inside : Bool}

theorem Acquire.books (a : Acquire) (hs : Shows g t.me (a.hold inside)) :
    Books g a.part part final (a.step t g) := by
  cases a with
  | checkHolder =>
    simp only [Books, step]
    split
    · exact .keep rfl rfl
    · exact .keep rfl rfl
  | tryWord =>
    rcases tryLock_cases hs.valid with ⟨hf, ht⟩ | ⟨hf, ht⟩
    · simp only [Books, step, ht]
      exact .take hf rfl rfl
    · simp only [Books, step, ht]
      exact .keep rfl rfl
  | retry start ticket =>
    rcases tryLock_cases hs.valid with ⟨hf, ht⟩ | ⟨hf, ht⟩
    · simp only [Books, step, ht]
      exact .take hf rfl rfl
    · simp only [Books, step, ht]
      exact .keep rfl rfl
  | wait start w =>
    simp only [Books, step, Progress.meets_within]
    apply Parking.wait_meets
    · intro _
      exact .keep rfl rfl
    · intro _
      exact .keep rfl rfl
  | count route => cases route <;> exact .count rfl rfl
  | record route =>
    cases route with
    | fast => exact .note (some .fastAcquire)
    | contended start => exact .note (some (.slowAcquire (t.now.since start)))
  | _ => exact .keep rfl rfl

theorem Release.books (r : Release) (hw : r.frees = true → g.word = 1) :
    Books g r.part part final (r.step t g) := by
  cases r with
  | checkHolder =>
    simp only [Books, step]
    split
    · exact .keep rfl rfl
    · exact .keep rfl rfl
  | clearWord =>
    have hl : g.isLocked = true := by
      rw [isLocked, hw rfl]
      exact g.mode.isLocked_lockedWord
    simp only [Books, step, hl, if_true]
    exact .free (hw rfl) rfl rfl
  | lookForWaiters =>
    simp only [Books, step]
    split
    · exact .keep rfl rfl
    · exact .keep rfl rfl
  | clearHolder => exact .keep rfl rfl
  | signal => exact .keep rfl rfl

theorem Yield.books (y : Yield) (hs : Shows g t.me (y.hold inside))
    (hw : y.frees = true → g.word = 1) : Books g y.part part final (y.step t g) := by
  cases y with
  | record =>
    have h : Turns g (some .yielded) g 0 (0 + one .yields) := .note _
    rw [zero_add] at h
    exact h
  | release before ticket r =>
    -- A release in a yield does not unwind, since the yielder has the lock.
    have ha := r.accords hs true
    rw [Release.panic?_inside] at ha
    have hb := Progress.Meets.and (r.books (t := t) hw) ha
    simp only [Books, step, Progress.meets_within]
    exact hb.imp (fun _ h => h.1.within _) (fun _ h => h.1.within _) fun _ h => by cases h.2.1
  | setDeadline before ticket =>
    simp only [Books, step]
    split
    · exact .keep rfl rfl
    · exact .keep rfl rfl
  | recordHandoff completed =>
    have h : Turns g (some (.handoff completed)) g (one .yields + -one .word) waited := .note _
    simp only [Books, step, Progress.Meets, part, Acquire.part, add_zero]
    exact h
  | acquire a =>
    have ha := a.accords hs false
    rw [Acquire.panic?_outside] at ha
    have hb := Progress.Meets.and (a.books hs) ha
    simp only [Books, step, Progress.meets_within]
    exact hb.imp (fun _ h => h.1.within _) (fun _ h => h.1.within _) fun _ h => by cases h.2.1
  | wait watch w =>
    simp only [Books, step, Progress.meets_within]
    apply Parking.wait_meets
    · intro _
      exact .keep rfl rfl
    · intro _
      exact .keep rfl rfl
  | readCount => exact .keep rfl rfl
  | prepare before =>
    simp only [Books, step, Progress.Meets, part, Release.part, add_zero]
    exact .keep rfl rfl
  | renew watch => exact .keep rfl rfl
  | _ =>
    simp only [Books, step]
    split
    · exact .keep rfl rfl
    · exact .keep rfl rfl

theorem Call.books (c : Call) (ho : c.isOrdinary = true) (hs : Shows g t.me (c.hold inside))
    (hw : c.frees = true → g.word = 1) : Books g c.part part c.final (c.step t g) := by
  cases c with
  | acquire a =>
    simp only [Books, step, Progress.meets_within]
    exact a.books hs
  | release r =>
    simp only [Books, step, Progress.meets_within]
    exact r.books hw
  | yield y =>
    simp only [Books, step, Progress.meets_within]
    exact y.books hs hw
  | reinit r => cases ho
  | store word => cases ho

end InterpreterLock.Gil
