import InterpreterLock.Event.Wait
import Mathlib.Logic.Basic
import Mathlib.Tactic.ByContra

/-!
# What an event shows, and to whom

An event that counts shows a signal to whoever has an older ticket, and to the others an
interruption if their tickets are older than one. An auto-reset event shows its pending signal to
whoever looks first, and a broadcast to whoever has an older ticket.
-/

set_option autoImplicit false

namespace InterpreterLock

namespace Signals

def IsOf : Backend → Signals → Prop
  | .posix, .counting _ interrupts => interrupts = 0
  | .windows, .autoReset .. => True
  | .posix, .autoReset .. | .windows, .counting .. => False

def isPending : Signals → Bool
  | .counting .. => false
  | .autoReset pending _ => pending

def interruptions : Signals → UInt64
  | .counting _ interrupts => interrupts
  | .autoReset .. => 0

section

variable {n i : UInt64} {p : Bool} {t : Ticket}

theorem look_counting_eq_signaled_iff :
    ((counting n i).look t).1 = some .signaled ↔ n ≠ t.signals := by
  by_cases hn : n = t.signals <;> by_cases hi : i = t.interrupts <;> simp [look, hn, hi]

theorem look_counting_eq_interrupted_iff :
    ((counting n i).look t).1 = some .interrupted ↔ n = t.signals ∧ i ≠ t.interrupts := by
  by_cases hn : n = t.signals <;> by_cases hi : i = t.interrupts <;> simp [look, hn, hi]

theorem look_autoReset_eq_signaled_iff :
    ((autoReset p n).look t).1 = some .signaled ↔ p = true ∨ n ≠ t.signals := by
  cases p <;> by_cases hn : n = t.signals <;> simp [look, hn]

theorem look_autoReset_ne_interrupted : ((autoReset p n).look t).1 ≠ some .interrupted := by
  cases p <;> by_cases hn : n = t.signals <;> simp [look, hn]

end

theorem look_ne_timedOut (s : Signals) (t : Ticket) : (s.look t).1 ≠ some .timedOut := by
  cases s with
  | counting n i =>
    by_cases hn : n = t.signals <;> by_cases hi : i = t.interrupts <;> simp [look, hn, hi]
  | autoReset p n => cases p <;> by_cases hn : n = t.signals <;> simp [look, hn]

/-- Who finds nothing has a ticket that is up to date. -/
theorem signals_of_look {s : Signals} {t : Ticket} (h : (s.look t).1 = none) :
    s.ticket.signals = t.signals := by
  cases s with
  | counting n i =>
    by_contra hne
    have hn : n ≠ t.signals := hne
    simp [look, hn] at h
  | autoReset p n =>
    by_contra hne
    have hn : n ≠ t.signals := hne
    cases p <;> simp [look, hn] at h

theorem isPending_of_look {s : Signals} {t : Ticket} (h : (s.look t).1 = none) :
    s.isPending = false := by
  cases s with
  | counting n i => rfl
  | autoReset p n =>
    cases p with
    | true => cases h
    | false => rfl

theorem ticket_look (s : Signals) (t : Ticket) : (s.look t).2.ticket = s.ticket := by
  cases s with
  | counting n i => rfl
  | autoReset p n => cases p <;> rfl

theorem ticket_afterSignalAll (s : Signals) :
    s.afterSignalAll.ticket.signals = s.ticket.signals + 1 := by
  cases s <;> rfl

theorem ticket_interrupts (s : Signals) : s.ticket.interrupts = s.interruptions := by
  cases s <;> rfl

theorem interruptions_afterSignalOne (s : Signals) :
    s.afterSignalOne.interruptions = s.interruptions := by
  cases s <;> rfl

theorem interruptions_look (s : Signals) (t : Ticket) :
    (s.look t).2.interruptions = s.interruptions := by
  cases s with
  | counting n i => rfl
  | autoReset p n => cases p <;> rfl

variable {backend : Backend} {s : Signals}

theorem IsOf.look (h : s.IsOf backend) (t : Ticket) : (s.look t).2.IsOf backend := by
  cases s with
  | counting n i => exact h
  | autoReset p n => cases p <;> cases backend <;> exact h

theorem IsOf.afterSignalOne (h : s.IsOf backend) : s.afterSignalOne.IsOf backend := by
  cases backend <;> cases s <;> exact h

theorem IsOf.afterSignalAll (h : s.IsOf backend) : s.afterSignalAll.IsOf backend := by
  cases backend <;> cases s <;> exact h

theorem isPending_look (h : s.isPending = false) (t : Ticket) : (s.look t).2.isPending = false := by
  cases s with
  | counting n i => rfl
  | autoReset p n => cases p <;> rfl

theorem isPending_afterSignalAll : s.afterSignalAll.isPending = s.isPending := by
  cases s <;> rfl

theorem isPending_afterInterrupt : s.afterInterrupt.isPending = s.isPending := by
  cases s <;> rfl

theorem deadline_of_isInfinite {timeout : Timeout} (h : timeout.isInfinite = true) (now : Instant)
    (s : Signals) : s.deadline timeout now = none := by
  cases s with
  | counting n i => simp [deadline, Timeout.deadlineFrom, Timeout.duration?, h]
  | autoReset p n => simp [deadline, Timeout.waitMillis, h]

end Signals

namespace Event

theorem signals_interrupt (e : Event) : e.interrupt.signals = e.signals.afterInterrupt := by
  cases h : e.signals <;> simp [Event.interrupt, h, Signals.afterInterrupt]

theorem sleepers_interrupt (e : Event) : e.interrupt.sleepers.Sublist e.sleepers := by
  cases h : e.signals with
  | counting n i =>
    simp only [Event.interrupt, h]
    exact List.nil_sublist _
  | autoReset p n =>
    simp only [Event.interrupt, h]
    exact List.Sublist.refl _

end Event

namespace Wait

def ticket : Wait → Ticket
  | .start ticket _ | .check ticket _ _ | .asleep ticket _ _ => ticket

def timeout : Wait → Timeout
  | .start _ timeout | .check _ timeout _ | .asleep _ timeout _ => timeout

def isAsleep : Wait → Bool
  | .asleep .. => true
  | .start .. | .check .. => false

/-- Only a finite wait is ever over. -/
theorem isInfinite_of_over {timeout : Timeout} {deadline : Option Instant} {now : Instant}
    (hd : timeout.isInfinite = true → deadline = none)
    (h : (timeout.isNonBlocking || reached now deadline) = true) : timeout.isInfinite = false := by
  by_contra hfinite
  have hinfinite : timeout.isInfinite = true := by simpa using hfinite
  have hneg : timeout.micros < 0 := of_decide_eq_true hinfinite
  have hwaits : timeout.isNonBlocking = false := beq_eq_false_iff_ne.mpr (Int.ne_of_lt hneg)
  rw [hd hinfinite, hwaits] at h
  cases h

variable {t : Turn} {e : Event} {w w' : Wait}

theorem step_signals (t : Turn) (e : Event) (w : Wait) :
    (w.step t e).1.signals = e.signals ∨
      ∃ ticket, (w.step t e).1.signals = (e.signals.look ticket).2 := by
  cases w with
  | start ticket timeout => exact .inl rfl
  | check ticket timeout deadline =>
    cases hl : e.signals.look ticket with
    | mk found left =>
      cases found with
      | some o => exact .inr ⟨ticket, by simp [step, hl]⟩
      | none =>
        simp only [step, hl]
        split
        · exact .inl rfl
        · exact .inl rfl
  | asleep ticket timeout deadline =>
    simp only [step]
    split
    · exact .inl rfl
    · exact .inl rfl

theorem prepare_step (t : Turn) (e : Event) (w : Wait) : (w.step t e).1.prepare = e.prepare := by
  rw [Event.prepare, Event.prepare]
  rcases w.step_signals t e with h | ⟨ticket, h⟩
  · rw [h]
  · rw [h, Signals.ticket_look]

/-- Nobody but the waiter itself is put to sleep. -/
theorem sleeper_of_step {i : Ident} (hi : i ≠ t.me) (h : i ∈ (w.step t e).1.sleepers) :
    i ∈ e.sleepers := by
  cases w with
  | start ticket timeout => exact h
  | check ticket timeout deadline =>
    simp only [step] at h
    split at h
    · exact h
    · split at h
      · exact h
      · simpa [Event.sleep, hi] using h
  | asleep ticket timeout deadline =>
    simp only [step] at h
    split at h
    · exact h
    · exact List.mem_of_mem_erase h

/-- A wait keeps its ticket. It goes to sleep when the ticket is up to date. -/
theorem step_going (h : (w.step t e).2 = .going w') :
    w'.ticket = w.ticket ∧ ∀ ticket timeout deadline, w' = .asleep ticket timeout deadline →
      (w = w' ∧ (w.step t e).1 = e) ∨ e.prepare.signals = w.ticket.signals := by
  cases w with
  | start ticket timeout =>
    cases h
    exact ⟨rfl, fun _ _ _ h => by cases h⟩
  | check ticket timeout deadline =>
    cases hl : e.signals.look ticket with
    | mk found left =>
      cases found with
      | some o => simp [step, hl] at h
      | none =>
        have hnone : (e.signals.look ticket).1 = none := by rw [hl]
        simp only [step, hl] at h
        split at h <;> cases h
        exact ⟨rfl, fun _ _ _ _ => .inr (Signals.signals_of_look hnone)⟩
  | asleep ticket timeout deadline =>
    by_cases hrest : (e.sleepers.contains t.me && !reached t.now deadline) = true
    · simp only [step, hrest, if_true] at h ⊢
      cases h
      exact ⟨rfl, fun _ _ _ _ => .inl (by simp)⟩
    · simp only [step, hrest] at h
      cases h
      exact ⟨rfl, fun _ _ _ h => by cases h⟩

end Wait

end InterpreterLock
