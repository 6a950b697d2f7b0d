import InterpreterLock.Event.Wait
import InterpreterLock.Proofs.Progress
import Mathlib.Data.Nat.Notation
import Mathlib.Logic.Function.Basic

/-!
# Parking

The waiters of a lock, whatever lock it is. A thread that cannot have the lock enlists, takes a
ticket, tries once more, and waits on the lock's event with that ticket; then it begins again with
a new ticket. A thread that frees the lock looks whether anybody is enlisted, and if so it signals.

Only what concerns the waiters is kept: whether the lock is free, the count of waiters and the
event, and of every thread where it stands.
-/

set_option autoImplicit false

namespace InterpreterLock.Parking

inductive Stance
  | apart
  | trying (ticket : Option Ticket)
  /-- Enlisted; its attempt has failed and it has still to see whether it waits at all. -/
  | deciding (ticket : Ticket)
  /-- Enlisted; its attempt has failed and it waits. Once it is `parked` it does nothing until it is
  off the list of sleepers. -/
  | waiting (ticket : Ticket) (parked : Bool)
  | leaving
  | releasing
deriving DecidableEq

namespace Stance

def isEnlisted : Stance → Bool
  | .trying _ | .deciding _ | .waiting .. | .leaving => true
  | .apart | .releasing => false

def ticket? : Stance → Option Ticket
  | .trying t => t
  | .deciding t | .waiting t _ => some t
  | .apart | .leaving | .releasing => none

def ofWait : Wait → Stance
  | .start t _ | .check t _ _ => .waiting t false
  | .asleep t _ _ => .waiting t true

end Stance

inductive Notice
  | none
  | ticketTaken
  | signalSent
deriving DecidableEq

/-- For every thread, how many signals the event was sent since the thread took its ticket. -/
def Notice.missed (n : Notice) (me : Ident) (stance : Ident → Stance) (missed : Ident → ℕ) :
    Ident → ℕ :=
  match n with
  | .none => missed
  | .ticketTaken => Function.update missed me 0
  | .signalSent => fun i => if (stance i).ticket?.isSome then missed i + 1 else missed i

theorem Notice.missed_le (k : Notice) (me : Ident) (st : Ident → Stance) (m : Ident → ℕ)
    (i : Ident) : k.missed me st m i ≤ m i + 1 := by
  cases k with
  | none => exact Nat.le_succ _
  | ticketTaken =>
    by_cases hi : i = me
    · simp [missed, hi]
    · simp [missed, hi]
  | signalSent =>
    simp only [missed]
    split <;> omega

structure Lot where
  free : Bool
  waiters : UInt64
  event : Event

def News (e : Event) (t : Ticket) : Prop := (e.signals.look t).1 = some .signaled

inductive Step (me : Ident) : Notice → Lot → Stance → Lot → Stance → Prop
  | stay (l : Lot) (a : Stance) : Step me .none l a l a
  | barge (n : UInt64) (e : Event) : Step me .none ⟨true, n, e⟩ .apart ⟨false, n, e⟩ .apart
  | free (f : Bool) (n : UInt64) (e : Event) :
      Step me .none ⟨f, n, e⟩ .apart ⟨true, n, e⟩ .releasing
  | ignore (f : Bool) (e : Event) : Step me .none ⟨f, 0, e⟩ .releasing ⟨f, 0, e⟩ .apart
  | signal (f : Bool) (n : UInt64) (e : Event) (pick : ℕ) (a : Stance)
      (ha : a = .apart ∨ a = .releasing) :
      Step me .signalSent ⟨f, n, e⟩ a ⟨f, n, e.signalOne pick⟩ .apart
  | enlist (f : Bool) (n : UInt64) (e : Event) :
      Step me .none ⟨f, n, e⟩ .apart ⟨f, n + 1, e⟩ (.trying none)
  | prepare (l : Lot) :
      Step me .ticketTaken l (.trying none) l (.trying (some l.event.prepare))
  | win (n : UInt64) (e : Event) (t : Ticket) :
      Step me .none ⟨true, n, e⟩ (.trying (some t)) ⟨false, n, e⟩ .leaving
  | lose (n : UInt64) (e : Event) (t : Ticket) (b : Stance)
      (hb : b = .deciding t ∨ b = .waiting t false) :
      Step me .none ⟨false, n, e⟩ (.trying (some t)) ⟨false, n, e⟩ b
  | commit (l : Lot) (t : Ticket) : Step me .none l (.deciding t) l (.waiting t false)
  | quit (l : Lot) (t : Ticket) : Step me .none l (.deciding t) l .leaving
  | hear (f : Bool) (n : UInt64) (e : Event) (t : Ticket) (o : WaitOutcome) (left : Signals)
      (h : e.signals.look t = (some o, left)) :
      Step me .none ⟨f, n, e⟩ (.waiting t false) ⟨f, n, { e with signals := left }⟩ (.trying none)
  | heed (f : Bool) (n : UInt64) (e : Event) (t : Ticket) (left : Signals)
      (h : e.signals.look t = (some .interrupted, left)) :
      Step me .none ⟨f, n, e⟩ (.waiting t false) ⟨f, n, { e with signals := left }⟩ .leaving
  | expire (l : Lot) (t : Ticket) : Step me .none l (.waiting t false) l (.trying none)
  | sleep (f : Bool) (n : UInt64) (e : Event) (t : Ticket) (h : ¬News e t) :
      Step me .none ⟨f, n, e⟩ (.waiting t false) ⟨f, n, e.sleep me⟩ (.waiting t true)
  | wake (f : Bool) (n : UInt64) (e : Event) (t : Ticket) :
      Step me .none ⟨f, n, e⟩ (.waiting t true) ⟨f, n, e.rouse me⟩ (.waiting t false)
  | unlist (f : Bool) (n : UInt64) (e : Event) :
      Step me .none ⟨f, n, e⟩ .leaving ⟨f, n - 1, e⟩ .apart

/-- A step of a wait leaves the thread waiting, or about to try for the lock again; an interruption
may also let it give up. -/
theorem Step.ofWait (t : Turn) (f : Bool) (n : UInt64) (e : Event) (w : Wait) :
    (w.step t e).2.Meets
      (fun w' => Step t.me .none ⟨f, n, e⟩ (.ofWait w) ⟨f, n, (w.step t e).1⟩ (.ofWait w'))
      (fun o => Step t.me .none ⟨f, n, e⟩ (.ofWait w) ⟨f, n, (w.step t e).1⟩ (.trying none) ∧
        (o = .interrupted →
          Step t.me .none ⟨f, n, e⟩ (.ofWait w) ⟨f, n, (w.step t e).1⟩ .leaving))
      (fun _ => False) := by
  cases w with
  | start ticket timeout => exact .stay _ _
  | check ticket timeout deadline =>
    cases hl : e.signals.look ticket with
    | mk found left =>
      cases found with
      | some o =>
        simp only [Wait.step, hl]
        exact ⟨.hear f n e ticket o left hl, fun ho => .heed f n e ticket left (ho ▸ hl)⟩
      | none =>
        simp only [Wait.step, hl]
        split
        · exact ⟨.expire _ _, fun ho => by cases ho⟩
        · exact .sleep f n e ticket (by simp [News, hl])
  | asleep ticket timeout deadline =>
    simp only [Wait.step]
    split
    · exact .stay _ _
    · exact .wake f n e ticket

/-- A wait never unwinds. -/
theorem wait_meets {P : Wait → Prop} {Q : WaitOutcome → Prop} {R : Panic → Prop} (t : Turn)
    (e : Event) (w : Wait) (hP : ∀ w', P w') (hQ : ∀ o, Q o) : (w.step t e).2.Meets P Q R :=
  (Step.ofWait t false 0 e w).imp (fun w' _ => hP w') (fun o _ => hQ o) fun _ h => h.elim

def standing {κ : Type} (stance : κ → Stance) (calls : Ident → Option κ) (i : Ident) : Stance :=
  ((calls i).map stance).getD .apart

theorem standing_update {κ : Type} (stance : κ → Stance) (calls : Ident → Option κ) (i : Ident)
    (next : Option κ) :
    standing stance (Function.update calls i next) =
      Function.update (standing stance calls) i ((next.map stance).getD .apart) := by
  ext j
  by_cases hj : j = i
  · subst hj
    simp [standing]
  · simp [standing, hj]

theorem standing_begin {κ : Type} (stance : κ → Stance) (calls : Ident → Option κ) (i : Ident)
    (c : κ) (hi : calls i = none) (hc : stance c = .apart) :
    standing stance (Function.update calls i (some c)) = standing stance calls := by
  have hs : standing stance calls i = .apart := by simp [standing, hi]
  rw [standing_update, Option.map_some, Option.getD_some, hc, ← hs, Function.update_eq_self]

def Parks {γ σ α : Type} (lot : γ → Lot) (me : Ident) (g : γ) (k : Notice) (a : Stance)
    (stance : σ → Stance) (m : Move γ σ α) : Prop :=
  m.progress.Meets (fun s => Step me k (lot g) a (lot m.state) (stance s))
    (fun _ => Step me k (lot g) a (lot m.state) .apart)
    (fun _ => Step me k (lot g) a (lot m.state) .apart)

theorem Parks.within {γ σ τ α β : Type} {lot : γ → Lot} {me : Ident} {g : γ} {k : Notice}
    {a : Stance} {stance : σ → Stance} {stance' : τ → Stance} {m : Move γ σ α}
    (hm : Parks lot me g k a stance m) (inner : σ → τ) (next : α → Progress τ β)
    (hi : ∀ s, stance' (inner s) = stance s)
    (hn : ∀ b, (next b).Meets (fun s => stance' s = .apart) (fun _ => True) (fun _ => False)) :
    Parks lot me g k a stance' ⟨m.state, m.progress.within inner next, m.note⟩ := by
  rw [Parks, Progress.meets_within]
  refine Progress.Meets.imp hm (fun s hs => ?_) (fun b hb => ?_) fun _ hp => hp
  · rw [hi]
    exact hs
  · refine Progress.Meets.imp (hn b) (fun s hs => ?_) (fun _ _ => hb) fun _ hp => hp.elim
    rw [hs]
    exact hb

theorem Parks.ite {γ σ α : Type} {lot : γ → Lot} {me : Ident} {g : γ} {k : Notice} {a : Stance}
    {stance : σ → Stance} {m m' : Move γ σ α} {c : Prop} [Decidable c]
    (hc : c → Parks lot me g k a stance m) (hn : ¬c → Parks lot me g k a stance m') :
    Parks lot me g k a stance (if c then m else m') := by
  by_cases h : c
  · rw [if_pos h]
    exact hc h
  · rw [if_neg h]
    exact hn h

theorem Parks.step {γ σ α : Type} {lot : γ → Lot} {me : Ident} {g : γ} {k : Notice} {a : Stance}
    {stance : σ → Stance} {m : Move γ σ α} (hm : Parks lot me g k a stance m) :
    Step me k (lot g) a (lot m.state) ((m.progress.next?.map stance).getD .apart) := by
  rw [Parks] at hm
  cases hp : m.progress with
  | going s =>
    rw [hp] at hm
    exact hm
  | done b =>
    rw [hp] at hm
    exact hm
  | unwound p =>
    rw [hp] at hm
    exact hm

end InterpreterLock.Parking
