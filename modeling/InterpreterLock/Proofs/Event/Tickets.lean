import InterpreterLock.Proofs.Counters
import InterpreterLock.Proofs.Event.System

/-!
# Tickets

What an event was sent determines what it shows, but for a pending signal, and so a ticket taken at
one moment and the event at a later one tell what was sent in between. The count of signals that a
ticket has is a machine word: it tells older tickets from newer ones as long as it has not come
round since.
-/

set_option autoImplicit false

namespace InterpreterLock

namespace Event

namespace Sent

instance : LE Sent :=
  ⟨fun n m => n.ones ≤ m.ones ∧ n.alls ≤ m.alls ∧ n.interrupts ≤ m.interrupts⟩

def count (n : Sent) : Backend → ℕ
  | .posix => n.ones + n.alls
  | .windows => n.alls

def signals (n : Sent) (pending : Bool) : Backend → Signals
  | .posix => .counting (.ofNat (n.ones + n.alls)) (.ofNat n.interrupts)
  | .windows => .autoReset pending (.ofNat n.alls)

def ticket (n : Sent) (backend : Backend) : Ticket := (n.signals false backend).ticket

/-- The count has not come round between the two moments, as it cannot if fewer than `2 ^ 64` of
what it counts were sent. -/
def Timely (backend : Backend) (n m : Sent) : Prop := m.count backend < n.count backend + 2 ^ 64

variable {backend : Backend} {n m k : Sent} {pending : Bool}

theorem le_refl (n : Sent) : n ≤ n := ⟨Nat.le_refl _, Nat.le_refl _, Nat.le_refl _⟩

theorem le_trans (h : n ≤ m) (h' : m ≤ k) : n ≤ k :=
  ⟨h.1.trans h'.1, h.2.1.trans h'.2.1, h.2.2.trans h'.2.2⟩

theorem count_le (h : n ≤ m) (backend : Backend) : n.count backend ≤ m.count backend := by
  obtain ⟨hones, halls, -⟩ := h
  cases backend with
  | posix => exact Nat.add_le_add hones halls
  | windows => exact halls

theorem Timely.earlier (h : Timely backend n k) (hm : m ≤ k) : Timely backend n m :=
  Nat.lt_of_le_of_lt (count_le hm backend) h

theorem ticket_signals (n : Sent) (pending : Bool) (backend : Backend) :
    (n.signals pending backend).ticket = n.ticket backend := by
  cases backend <;> rfl

theorem signals_isPending (n : Sent) (pending : Bool) (backend : Backend) :
    n.signals (n.signals pending backend).isPending backend = n.signals pending backend := by
  cases backend <;> rfl

theorem afterSignalOne_signals (n : Sent) (pending : Bool) (backend : Backend) :
    (n.signals pending backend).afterSignalOne =
      { n with ones := n.ones + 1 }.signals true backend := by
  cases backend with
  | posix => simp only [signals, Signals.afterSignalOne, ofNat_succ, Nat.add_right_comm]
  | windows => rfl

theorem afterSignalAll_signals (n : Sent) (pending : Bool) (backend : Backend) :
    (n.signals pending backend).afterSignalAll =
      { n with alls := n.alls + 1 }.signals pending backend := by
  cases backend <;> simp only [signals, Signals.afterSignalAll, ofNat_succ, Nat.add_assoc]

theorem afterInterrupt_signals (n : Sent) (pending : Bool) (backend : Backend) :
    (n.signals pending backend).afterInterrupt =
      { n with interrupts := n.interrupts + 1 }.signals pending backend := by
  cases backend <;> simp only [signals, Signals.afterInterrupt, ofNat_succ]

theorem look_left (m : Sent) (pending : Bool) (backend : Backend) (t : Ticket) :
    ((m.signals pending backend).look t).2 = m.signals false backend := by
  cases backend with
  | posix => rfl
  | windows => cases pending <;> rfl

theorem look_posix_iff (hle : n ≤ m) (ht : Timely .posix n m) :
    ((m.signals pending .posix).look (n.ticket .posix)).1 = some .signaled ↔
      n.count .posix < m.count .posix := by
  have hcount : n.count .posix ≤ m.count .posix := count_le hle .posix
  have hne : UInt64.ofNat (m.count .posix) ≠ UInt64.ofNat (n.count .posix) ↔
      n.count .posix < m.count .posix := by
    constructor
    · intro h
      exact Nat.lt_of_le_of_ne hcount fun heq => h (by rw [heq])
    · intro hlt h
      exact Nat.ne_of_lt hlt (eq_of_ofNat_eq hcount ht h.symm)
  exact Signals.look_counting_eq_signaled_iff.trans hne

theorem look_of_broadcast (hle : n ≤ m) (ht : Timely backend n m) (halls : n.alls < m.alls) :
    ((m.signals pending backend).look (n.ticket backend)).1 = some .signaled := by
  cases backend with
  | posix =>
    exact (look_posix_iff hle ht).mpr (Nat.add_lt_add_of_le_of_lt hle.1 halls)
  | windows =>
    exact Signals.look_autoReset_eq_signaled_iff.mpr
      (.inr fun h => Nat.ne_of_lt halls (eq_of_ofNat_eq hle.2.1 ht h.symm))

theorem look_interrupted (hle : n ≤ m)
    (h : ((m.signals pending backend).look (n.ticket backend)).1 = some .interrupted) :
    backend = .posix ∧ n.interrupts < m.interrupts ∧
      (Timely backend n m → m.count backend = n.count backend) := by
  cases backend with
  | posix =>
    obtain ⟨hsignals, hinterrupts⟩ := Signals.look_counting_eq_interrupted_iff.mp h
    refine ⟨rfl, Nat.lt_of_le_of_ne hle.2.2 fun heq => hinterrupts ?_, fun ht => ?_⟩
    · exact congrArg UInt64.ofNat heq.symm
    · exact (eq_of_ofNat_eq (count_le hle .posix) ht hsignals.symm).symm
  | windows => exact absurd h Signals.look_autoReset_ne_interrupted

/-- Without a broadcast it is the pending signal that a waiter finds. -/
theorem pending_of_look (halls : n.alls = m.alls)
    (h : ((m.signals pending .windows).look (n.ticket .windows)).1 = some .signaled) :
    pending = true := by
  have hne : ¬UInt64.ofNat m.alls ≠ (n.ticket .windows).signals :=
    not_not_intro (congrArg UInt64.ofNat halls.symm)
  exact (Signals.look_autoReset_eq_signaled_iff.mp h).resolve_right hne

end Sent

end Event

end InterpreterLock
