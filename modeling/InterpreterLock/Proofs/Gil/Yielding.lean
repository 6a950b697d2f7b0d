import InterpreterLock.Proofs.Gil.Custody
import InterpreterLock.Proofs.Gil.Settings

/-!
# Yielding and getting the lock back

A yield of the holder that returns leaves the lock with its caller again. It gives the lock up
before it fixes its deadline, though, and that is the one step that can fail: when no clock shows
the end of the patience, the call unwinds, and its caller is no longer the holder.
-/

set_option autoImplicit false

namespace InterpreterLock.Gil

def Overruns (now : Instant) (patience : Duration) : Prop :=
  Instant.lastSecond < (now.nanoseconds + patience.nanoseconds) / 1000000000

theorem isNone_add?_iff (now : Instant) (patience : Duration) :
    (now.add? patience).isNone = true ↔ Overruns now patience := by
  rw [Overruns, ← not_le, Instant.add?]
  by_cases h : (now.nanoseconds + patience.nanoseconds) / 1000000000 ≤ Instant.lastSecond
  · simp only [h, if_true, Option.isNone_some, Bool.false_eq_true, not_true_eq_false]
  · simp only [h, if_false, Option.isNone_none, not_false_eq_true]

namespace System

def Yields (s : System) (i : Ident) (y : Yield) : Prop :=
  s.calls i = some (.yield y) ∧ (y = .checkHolder → s.gil.isHeldBy i = true)

structure Regains (s : System) (patience : Duration) : Prop where
  unwinds : ∀ t y p, s.Yields t.me y →
    ((y.step t s.gil).progress = .unwound p ↔
      p = .clockOverflow ∧ (∃ before ticket, y = .setDeadline before ticket) ∧
        Overruns t.now patience)
  without : ∀ i before ticket, s.Yields i (.setDeadline before ticket) →
    s.inside i = false ∧ s.gil.holder ≠ some i
  returns : ∀ t y b, s.Yields t.me y → (y.step t s.gil).progress = .done b →
    (y.step t s.gil).state.holder = some t.me ∧ (y.step t s.gil).state.word = 1

variable {s : System} {t : Turn} {y : Yield}

theorem Orderly.yield_accords (hs : s.Orderly) (hy : s.Yields t.me y) :
    Accords t.me s.gil (y.takes s.gil) y.frees (s.hold t.me) (y.panic? t s.gil (s.inside t.me))
      (Yield.hold (s.inside t.me)) .recorded (y.step t s.gil) := by
  have hsh := hs.custody.shows t.me
  have hh : s.hold t.me = y.hold (s.inside t.me) := hold_of_call hy.1
  rw [hh] at hsh ⊢
  exact y.accords hsh (s.inside t.me)

theorem Orderly.yield_panic? (hs : s.Orderly) (hy : s.Yields t.me y) (p : Panic) :
    y.panic? t s.gil (s.inside t.me) = some p ↔
      p = .clockOverflow ∧ (∃ before ticket, y = .setDeadline before ticket) ∧
        Overruns t.now s.gil.patience := by
  rw [← isNone_add?_iff]
  cases y with
  | checkHolder =>
    have hi : s.inside t.me = true := by
      rw [hs.inside, ((hs.custody.shows t.me).holder).mp (hy.2 rfl)]
      nofun
    simp [Yield.panic?, hi]
  | setDeadline before ticket =>
    by_cases hd : (t.now.add? s.gil.patience).isNone = true
    · simp [Yield.panic?, hd, eq_comm]
    · simp [Yield.panic?, hd]
  | _ => simp [Yield.panic?]

theorem Orderly.yield_unwinds_iff (hs : s.Orderly) (hy : s.Yields t.me y) (p : Panic) :
    (y.step t s.gil).progress = .unwound p ↔
      p = .clockOverflow ∧ (∃ before ticket, y = .setDeadline before ticket) ∧
        Overruns t.now s.gil.patience := by
  rw [← hs.yield_panic? hy p]
  exact (hs.yield_accords hy).unwinds_iff p

theorem Orderly.yield_returns (hs : s.Orderly) (hy : s.Yields t.me y) {b : Bool}
    (hd : (y.step t s.gil).progress = .done b) :
    (y.step t s.gil).state.holder = some t.me ∧ (y.step t s.gil).state.word = 1 := by
  have ha := hs.yield_accords hy
  simp only [Accords, hd, Progress.Meets] at ha
  have hc := hs.custody.shift ha.2 rfl
  constructor
  · rw [hc.holder t.me, Function.update_self]
  · rcases hc.word with ⟨-, hout⟩ | ⟨hw, -⟩
    · have h := hout t.me
      rw [Function.update_self] at h
      cases h
    · exact hw

theorem Orderly.regains (hs : s.Orderly) : s.Regains s.gil.patience where
  unwinds t y p hy := hs.yield_unwinds_iff hy p
  without i before ticket hy := by
    have hout : s.hold i = .out := hold_of_call hy.1
    constructor
    · rw [← Bool.not_eq_true, hs.inside, hout]
      exact fun h => h rfl
    · rw [ne_eq, hs.custody.holder i, hout]
      nofun
  returns t y b hy hd := hs.yield_returns hy hd

/-- A yield of the holder gives the lock back in every run, if the patience overruns no clock. -/
theorem regains_run (mode : Mode) (backend : Backend) (patience : Duration) (acts : List Action)
    (ha : ∀ a ∈ acts, a.isOrdinary = true) :
    ((start mode backend patience).run acts).Regains patience := by
  have h := (orderly_run mode backend patience acts ha).regains
  rw [run_patience] at h
  exact h

/-- A thread contends, and the holder yields with the default patience. -/
theorem regains_run_contended :
    let a : Ident := ⟨1, by decide⟩
    let b : Ident := ⟨2, by decide⟩
    let turn i : Action := .step { me := i, now := ⟨0⟩ }
    let acts := .begin a .acquire :: List.replicate 5 (turn a) ++
      .begin b .acquire :: List.replicate 4 (turn b) ++
      .begin a .yield :: List.replicate 5 (turn a)
    let s := (start .constrained .windows defaultPatience).run acts
    (∀ act ∈ acts, act.isOrdinary = true) ∧ s.Yields a (.release 1 ⟨0, 0⟩ .checkHolder) ∧
      s.Regains defaultPatience :=
  ⟨by decide, ⟨by decide, nofun⟩, regains_run _ _ _ _ (by decide)⟩

/-- With the longest patience the holder yields to a waiter, gives the lock up, and unwinds. -/
theorem yield_unwinds_without_lock :
    let a : Ident := ⟨1, by decide⟩
    let b : Ident := ⟨2, by decide⟩
    let turn i : Action := .step { me := i, now := ⟨0⟩ }
    let held := (start .generic .posix (.ofParts 18446744073709551615 0)).run
      (.begin a .acquire :: List.replicate 5 (turn a) ++
        .begin b .acquire :: List.replicate 4 (turn b))
    let s := held.run (.begin a .yield :: List.replicate 10 (turn a))
    held.calls a = none ∧ held.gil.isHeldBy a = true ∧
      s.Yields a (.setDeadline 1 ⟨0, 0⟩) ∧
      ((Yield.setDeadline 1 ⟨0, 0⟩).step { me := a, now := ⟨0⟩ } s.gil).progress =
        .unwound .clockOverflow ∧
      s.gil.isHeldBy a = false ∧ s.gil.isLocked = false :=
  ⟨by decide, by decide, ⟨by decide, nofun⟩, rfl, by decide, by decide⟩

end System

end InterpreterLock.Gil
