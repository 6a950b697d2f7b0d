import InterpreterLock.Proofs.Gil.Custody

/-!
# Mutual exclusion

In any run without a fork or a raw write, one thread at most has taken the word and not freed it.
The word and the holder on record tell which one, and only a thread that breaks the contract is
refused.
-/

set_option autoImplicit false

namespace InterpreterLock.Gil

namespace Acquire

def isEntering : Acquire → Bool
  | .unlist _ | .setHolder _ => true
  | _ => false

theorem hold_eq_bare (a : Acquire) (inside : Bool) :
    a.hold inside = .bare ↔ a.isEntering = true := by
  cases a with
  | checkHolder => simp [hold, isEntering, Hold.ofInside_ne_bare]
  | _ => simp [hold, isEntering]

end Acquire

namespace Release

def isGivingUp : Release → Bool
  | .clearWord => true
  | _ => false

theorem hold_eq_bare (r : Release) (inside : Bool) :
    r.hold inside = .bare ↔ r.isGivingUp = true := by
  cases r with
  | checkHolder => simp [hold, isGivingUp, Hold.ofInside_ne_bare]
  | _ => simp [hold, isGivingUp]

end Release

namespace Yield

def isEntering : Yield → Bool
  | .acquire a => a.isEntering
  | _ => false

def isGivingUp : Yield → Bool
  | .release _ _ r => r.isGivingUp
  | _ => false

theorem hold_eq_bare (y : Yield) (inside : Bool) :
    y.hold inside = .bare ↔ y.isEntering = true ∨ y.isGivingUp = true := by
  cases y with
  | checkHolder => simp [hold, isEntering, isGivingUp, Hold.ofInside_ne_bare]
  | acquire a => simp [hold, isEntering, isGivingUp, a.hold_eq_bare]
  | release before ticket r => simp [hold, isEntering, isGivingUp, r.hold_eq_bare]
  | _ => simp [hold, isEntering, isGivingUp]

end Yield

namespace Call

def isEntering : Call → Bool
  | .acquire a => a.isEntering
  | .yield y => y.isEntering
  | _ => false

def isGivingUp : Call → Bool
  | .release r => r.isGivingUp
  | .yield y => y.isGivingUp
  | _ => false

theorem hold_eq_bare (c : Call) (inside : Bool) :
    c.hold inside = .bare ↔ c.isEntering = true ∨ c.isGivingUp = true := by
  cases c with
  | acquire a => simp [hold, isEntering, isGivingUp, a.hold_eq_bare]
  | release r => simp [hold, isEntering, isGivingUp, r.hold_eq_bare]
  | yield y => exact y.hold_eq_bare inside
  | reinit r => simp [hold, isEntering, isGivingUp, Hold.ofInside_ne_bare]
  | store word => simp [hold, isEntering, isGivingUp, Hold.ofInside_ne_bare]

end Call

namespace System

def isEntering (s : System) (i : Ident) : Bool := (s.calls i).any Call.isEntering

def isGivingUp (s : System) (i : Ident) : Bool := (s.calls i).any Call.isGivingUp

structure Exclusive (s : System) : Prop where
  one : ∀ i j, s.inside i = true → s.inside j = true → i = j
  free : s.gil.word = 0 ↔ ∀ i, s.inside i = false
  locked : s.gil.word = 1 ↔ ∃ i, s.inside i = true
  holder : ∀ i, s.gil.holder = some i → s.inside i = true
  check : ∀ i, s.gil.isHeldBy i = true ↔
    s.inside i = true ∧ s.isEntering i = false ∧ s.isGivingUp i = false
  unwinds : ∀ t c p, s.calls t.me = some c →
    ((c.step t s.gil).progress = .unwound p ↔ c.panic? t s.gil (s.inside t.me) = some p)
  unchanged : ∀ t c p, s.calls t.me = some c →
    (c.step t s.gil).progress = .unwound p → (c.step t s.gil).state = s.gil

variable {s : System}

theorem hold_eq_bare (s : System) (i : Ident) :
    s.hold i = .bare ↔ s.isEntering i = true ∨ s.isGivingUp i = true := by
  cases hc : s.calls i with
  | none => simp [hold, isEntering, isGivingUp, hc, Hold.ofInside_ne_bare]
  | some c => simp [hold, isEntering, isGivingUp, hc, c.hold_eq_bare]

theorem Orderly.outside (hs : s.Orderly) (i : Ident) : s.inside i = false ↔ s.hold i = .out := by
  rw [← Bool.not_eq_true, hs.inside, not_not]

theorem Orderly.exclusive (hs : s.Orderly) : s.Exclusive where
  one i j hi hj := hs.custody.one ((hs.inside i).mp hi) ((hs.inside j).mp hj)
  free := by
    simp only [hs.outside]
    rcases hs.custody.word with ⟨hw, hout⟩ | ⟨hw, i, hi⟩
    · exact ⟨fun _ => hout, fun _ => hw⟩
    · rw [hw]
      exact ⟨nofun, fun hout => absurd (hout i) hi⟩
  locked := by
    simp only [hs.inside]
    rcases hs.custody.word with ⟨hw, hout⟩ | ⟨hw, i, hi⟩
    · rw [hw]
      exact ⟨nofun, fun ⟨i, hi⟩ => absurd (hout i) hi⟩
    · exact ⟨fun _ => ⟨i, hi⟩, fun _ => hw⟩
  holder i hi := by
    rw [hs.inside, (hs.custody.holder i).mp hi]
    nofun
  check i := by
    rw [(hs.custody.shows i).holder, hs.inside, ← Bool.not_eq_true, ← Bool.not_eq_true,
      ← not_or, ← s.hold_eq_bare]
    cases s.hold i <;> decide
  unwinds t c p hc := (hs.accords hc true).unwinds_iff p
  unchanged t c p hc hp := (hs.accords hc true).unchanged hp

/-- Any number of threads, in any interleaving of their steps. -/
theorem exclusive_run (mode : Mode) (backend : Backend) (patience : Duration) (acts : List Action)
    (ha : ∀ a ∈ acts, a.isOrdinary = true) :
    ((start mode backend patience).run acts).Exclusive :=
  (orderly_run mode backend patience acts ha).exclusive

/-- One thread has taken the word and has still to enter, and another one contends. -/
theorem exclusive_run_entering :
    let a : Ident := ⟨1, by decide⟩
    let b : Ident := ⟨2, by decide⟩
    let turn i : Action := .step { me := i, now := ⟨0⟩ }
    let acts := [.begin a .acquire, turn a, turn a, .begin b .acquire, turn b, turn b]
    let s := (start .generic .posix defaultPatience).run acts
    (∀ act ∈ acts, act.isOrdinary = true) ∧ s.Exclusive ∧ s.isEntering a = true ∧
      s.calls b = some (.acquire .readClock) :=
  ⟨by decide, exclusive_run _ _ _ _ (by decide), by decide, by decide⟩

end System

end InterpreterLock.Gil
