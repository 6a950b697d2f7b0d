import InterpreterLock.Proofs.Gil.Aging
import InterpreterLock.Proofs.Gil.Settings

/-!
# A signal left over

An auto-reset wakeup event may still hold a signal that nobody is left to hear. The first thread
that waits takes it, and goes through its loop once more than it would have. Nothing else can come
of it: a run at the lock with the signal is a run at the lock without it in which, at most, one
thread has made one round more.
-/

set_option autoImplicit false

namespace InterpreterLock.Gil

def Acquire.loops : Acquire → Bool
  | .prepare _ | .retry .. | .wait .. => true
  | _ => false

def Yield.place? : Yield → Option Acquire
  | .acquire a => some a
  | _ => none

def Call.place? : Call → Option Acquire
  | .acquire a => some a
  | .yield y => y.place?
  | _ => none

def Call.loops (c : Call) : Bool := c.place?.any Acquire.loops

structure Shown where
  word : Int
  holder : Option Ident
  waiters : UInt64
  busy : Ident → Bool

namespace System

def shown (s : System) : Shown where
  word := s.gil.word
  holder := s.gil.holder
  waiters := s.gil.waiters
  busy i := (s.calls i).isSome

def loops (s : System) (i : Ident) : Bool := (s.calls i).any Call.loops

def answer? (s : System) : Action → Option (Except Panic Bool)
  | .step t => (s.calls t.me).bind fun c => (c.step t s.gil).progress.result?
  | .begin .. | .rouse _ => none

/-- Two runs show the same and answer the same all along, but for steps of the first one in which a
thread stays in its loop. -/
inductive Follows : System → List Action → System → List Action → Prop
  | done {s f : System} (hs : s.shown = f.shown) : Follows s [] f []
  | both {s f : System} {as bs : List Action} (a : Action) (hs : s.shown = f.shown)
      (ha : s.answer? a = f.answer? a) (rest : Follows (s.act a) as (f.act a) bs) :
      Follows s (a :: as) f (a :: bs)
  | retry {s f : System} {as bs : List Action} (t : Turn) (hs : s.shown = f.shown)
      (hb : s.loops t.me = true) (hl : (s.act (.step t)).loops t.me = true)
      (rest : Follows (s.act (.step t)) as f bs) : Follows s (.step t :: as) f bs

variable {k : Age} {s s' f : System}

theorem loops_age (c : Call) : (c.age k).loops = c.loops := by
  cases c with
  | acquire a => cases a <;> rfl
  | yield y =>
    cases y with
    | acquire a => cases a <;> rfl
    | _ => rfl
  | _ => rfl

theorem Ages.shown (h : Ages k s s') : s'.shown = s.shown := by
  have hb : (fun i => (s'.calls i).isSome) = fun i => (s.calls i).isSome := by
    ext i
    simp [h.calls i]
  simp only [System.shown, hb, h.gil]
  rfl

theorem Ages.loops (h : Ages k s s') (i : Ident) : s'.loops i = s.loops i := by
  rw [System.loops, System.loops, h.calls i]
  cases s.calls i with
  | none => rfl
  | some c => exact loops_age c

theorem Ages.answer? (h : Ages k s s') (a : Action) : s'.answer? a = s.answer? a := by
  cases a with
  | step t =>
    simp only [System.answer?, h.calls t.me, h.gil]
    cases s.calls t.me with
    | none => rfl
    | some c =>
      simp only [Option.map_some, Option.bind_some, c.step_age k t s.gil, Move.image,
        Progress.result?_image]
  | _ => rfl

theorem Follows.ages {as bs : List Action} (hf : Follows s as f bs) (h : Ages k s s') :
    Follows s' as f bs := by
  induction hf generalizing s' with
  | done hs => exact .done (h.shown.trans hs)
  | both a hs ha rest ih =>
    exact .both a (h.shown.trans hs) ((h.answer? a).trans ha) (ih (h.act a))
  | retry t hs hb hl rest ih =>
    refine .retry t (h.shown.trans hs) ?_ ?_ (ih (h.act _))
    · rw [h.loops]
      exact hb
    · rw [(h.act _).loops]
      exact hl

end System

end InterpreterLock.Gil

namespace InterpreterLock

def Signals.setPending (b : Bool) : Signals → Signals
  | .counting n i => .counting n i
  | .autoReset _ n => .autoReset b n

theorem Signals.ticket_setPending (b : Bool) (s : Signals) :
    (s.setPending b).ticket = s.ticket := by cases s <;> rfl

theorem Signals.deadline_setPending (b : Bool) (s : Signals) (timeout : Timeout) (now : Instant) :
    (s.setPending b).deadline timeout now = s.deadline timeout now := by cases s <;> rfl

theorem Signals.afterSignalOne_setPending (b : Bool) (s : Signals) :
    (s.setPending b).afterSignalOne = s.afterSignalOne := by cases s <;> rfl

def Event.setPending (b : Bool) (e : Event) : Event :=
  { e with signals := e.signals.setPending b }

def Wait.looks : Wait → Bool
  | .check .. => true
  | _ => false

theorem Wait.step_setPending (b : Bool) (t : Turn) (e : Event) (w : Wait)
    (hw : w.looks = false) :
    w.step t (e.setPending b) = ((w.step t e).1.setPending b, (w.step t e).2) := by
  cases w with
  | start ticket timeout =>
    simp only [step, Event.setPending, Signals.deadline_setPending]
  | check ticket timeout deadline => cases hw
  | asleep ticket timeout deadline =>
    by_cases hd : (e.sleepers.contains t.me && !reached t.now deadline) = true
    · simp only [step, Event.setPending, hd, if_true]
    · simp only [step, Event.setPending, hd]
      rfl

def Move.onState {γ σ α : Type} (f : γ → γ) (m : Move γ σ α) : Move γ σ α :=
  { m with state := f m.state }

namespace Gil

def setPending (b : Bool) (g : Gil) : Gil := { g with wakeup := g.wakeup.setPending b }

def Acquire.looks : Acquire → Bool
  | .wait _ w => w.looks
  | _ => false

def Yield.looks (y : Yield) : Bool := y.place?.any Acquire.looks

def Call.looks (c : Call) : Bool := c.place?.any Acquire.looks

def Release.signals : Release → Bool
  | .signal => true
  | _ => false

def Yield.signals : Yield → Bool
  | .release _ _ r => r.signals
  | _ => false

def Call.signals : Call → Bool
  | .release r => r.signals
  | .yield y => y.signals
  | _ => false

variable (b : Bool) (t : Turn) (g : Gil)

theorem tryLock_setPending :
    (g.setPending b).tryLock =
      match g.tryLock with
      | .ok (some g') => .ok (some (g'.setPending b))
      | .ok none => .ok none
      | .error v => .error v := by
  by_cases hf : g.word = Mode.freeWord
  · simp [tryLock, setPending, hf]
  · by_cases hv : g.mode.isValid g.word = true
    · simp [tryLock, setPending, hf, hv]
    · simp [tryLock, setPending, hf, hv]

theorem Acquire.step_setPending (a : Acquire) (ha : a.looks = false) :
    a.step t (g.setPending b) = (a.step t g).onState (Gil.setPending b) := by
  cases a with
  | checkHolder =>
    have hh : (g.setPending b).isHeldBy t.me = g.isHeldBy t.me := rfl
    simp only [step, hh]
    split <;> rfl
  | tryWord =>
    simp only [step, tryLock_setPending]
    cases g.tryLock with
    | error v => rfl
    | ok o => cases o <;> rfl
  | retry start ticket =>
    simp only [step, tryLock_setPending]
    cases g.tryLock with
    | error v => rfl
    | ok o => cases o <;> rfl
  | prepare start =>
    simp only [step, Move.onState, Event.prepare, Gil.setPending, Event.setPending,
      Signals.ticket_setPending]
  | wait start w =>
    simp only [step, Gil.setPending, w.step_setPending b t g.wakeup ha]
    rfl
  | count route => cases route <;> rfl
  | record route => cases route <;> rfl
  | _ => rfl

theorem Release.step_setPending (r : Release) (hr : r.signals = false) :
    r.step t (g.setPending b) = (r.step t g).onState (Gil.setPending b) := by
  cases r with
  | checkHolder =>
    have hh : (g.setPending b).isHeldBy t.me = g.isHeldBy t.me := rfl
    simp only [step, hh]
    split <;> rfl
  | clearHolder => rfl
  | clearWord =>
    have hl : (g.setPending b).isLocked = g.isLocked := rfl
    simp only [step, hl]
    split <;> rfl
  | lookForWaiters =>
    have hw : (g.setPending b).waiters = g.waiters := rfl
    simp only [step, hw]
    split <;> rfl
  | signal => cases hr

/-- The signal is sent, whether or not there was one before. -/
theorem Release.step_signals (r : Release) (hr : r.signals = true) :
    r.step t (g.setPending b) = r.step t g := by
  cases r with
  | signal =>
    simp only [step, Gil.setPending, Event.signalOne, Event.setPending,
      Signals.afterSignalOne_setPending]
  | _ => cases hr

theorem Yield.step_setPending (y : Yield) (hl : y.looks = false) (hs : y.signals = false) :
    y.step t (g.setPending b) = (y.step t g).onState (Gil.setPending b) := by
  cases y with
  | checkHolder =>
    have hh : (g.setPending b).isHeldBy t.me = g.isHeldBy t.me := rfl
    simp only [step, hh]
    split <;> rfl
  | lookForWaiters =>
    have hw : (g.setPending b).waiters = g.waiters := rfl
    simp only [step, hw]
    split <;> rfl
  | release before ticket r =>
    simp only [step, r.step_setPending b t g hs]
    rfl
  | setDeadline before ticket =>
    have hp : (g.setPending b).patience = g.patience := rfl
    simp only [step, hp]
    cases t.now.add? g.patience <;> rfl
  | compareCount watch ticket =>
    have ha : (g.setPending b).acquisitions = g.acquisitions := rfl
    simp only [step, ha]
    split <;> rfl
  | recountWaiters watch ticket =>
    have hw : (g.setPending b).waiters = g.waiters := rfl
    simp only [step, hw]
    split <;> rfl
  | readClock watch ticket =>
    simp only [step]
    split <;> rfl
  | acquire a =>
    simp only [step, a.step_setPending b t g hl]
    rfl
  | _ => rfl

theorem Call.step_setPending (c : Call) (hl : c.looks = false) (hs : c.signals = false) :
    c.step t (g.setPending b) = (c.step t g).onState (Gil.setPending b) := by
  cases c with
  | acquire a =>
    simp only [step, a.step_setPending b t g hl]
    rfl
  | release r =>
    simp only [step, r.step_setPending b t g hs]
    rfl
  | yield y =>
    simp only [step, y.step_setPending b t g hl hs]
    rfl
  | reinit r => cases r <;> rfl
  | store word => rfl

theorem Call.step_signals (c : Call) (hs : c.signals = true) :
    c.step t (g.setPending b) = c.step t g := by
  cases c with
  | release r => simp only [step, r.step_signals b t g hs]
  | yield y =>
    cases y with
    | release before ticket r => simp only [step, Yield.step, r.step_signals b t g hs]
    | _ => cases hs
  | _ => cases hs

variable {t : Turn} {g : Gil}

theorem Acquire.step_wakeup (a : Acquire) (ha : a.looks = false) :
    (a.step t g).state.wakeup.signals = g.wakeup.signals := by
  cases a with
  | checkHolder =>
    simp only [step]
    split <;> rfl
  | tryWord =>
    simp only [step]
    split
    · rename_i h
      rw [eq_of_tryLock h]
    · rfl
    · rfl
  | retry start ticket =>
    simp only [step]
    split
    · rename_i h
      rw [eq_of_tryLock h]
    · rfl
    · rfl
  | wait start w =>
    cases w with
    | start ticket timeout => rfl
    | check ticket timeout deadline => cases ha
    | asleep ticket timeout deadline =>
      simp only [step, Wait.step]
      split <;> rfl
  | count route => cases route <;> rfl
  | record route => cases route <;> rfl
  | _ => rfl

theorem Release.step_wakeup (r : Release) (hr : r.signals = false) :
    (r.step t g).state.wakeup.signals = g.wakeup.signals := by
  cases r with
  | clearHolder => rfl
  | signal => cases hr
  | _ =>
    simp only [step]
    split <;> rfl

theorem Yield.step_wakeup (y : Yield) (hl : y.looks = false) (hs : y.signals = false) :
    (y.step t g).state.wakeup.signals = g.wakeup.signals := by
  cases y with
  | release before ticket r => exact r.step_wakeup hs
  | acquire a => exact a.step_wakeup hl
  | record => rfl
  | readCount => rfl
  | prepare before => rfl
  | wait watch w => rfl
  | renew watch => rfl
  | recordHandoff completed => rfl
  | _ =>
    simp only [step]
    split <;> rfl

theorem Call.step_wakeup (c : Call) (hl : c.looks = false) (hs : c.signals = false) :
    (c.step t g).state.wakeup.signals = g.wakeup.signals := by
  cases c with
  | acquire a => exact a.step_wakeup hl
  | release r => exact r.step_wakeup hs
  | yield y => exact y.step_wakeup hl hs
  | reinit r => cases r <;> rfl
  | store word => rfl

def Call.put (a : Acquire) : Call → Call
  | .yield _ => .yield (.acquire a)
  | _ => .acquire a

@[simp] theorem Call.place?_put (a : Acquire) (c : Call) : (c.put a).place? = some a := by
  cases c <;> rfl

@[simp] theorem Call.put_put (a a' : Acquire) (c : Call) : (c.put a).put a' = c.put a' := by
  cases c <;> rfl

theorem Call.put_of_place {c : Call} {a : Acquire} (h : c.place? = some a) : c.put a = c := by
  cases c with
  | acquire a' =>
    cases h
    rfl
  | yield y =>
    cases y with
    | acquire a' =>
      cases h
      rfl
    | _ => cases h
  | _ => cases h

theorem Call.step_place {c : Call} {a : Acquire} (h : c.place? = some a) :
    (c.step t g).state = (a.step t g).state ∧
      (c.step t g).progress.next? = (a.step t g).progress.next?.map c.put := by
  cases c with
  | acquire a' =>
    cases h
    refine ⟨rfl, ?_⟩
    simp only [step]
    cases (a.step t g).progress <;> rfl
  | yield y =>
    cases y with
    | acquire a' =>
      cases h
      refine ⟨rfl, ?_⟩
      simp only [step, Yield.step]
      cases (a.step t g).progress <;> rfl
    | _ => cases h
  | _ => cases h

/-- A call that is in an acquire after a step was so before it, or it begins there. -/
theorem Yield.place?_step {y y' : Yield} {a' : Acquire}
    (h : (y.step t g).progress.next? = some y') (ha : y'.place? = some a') :
    a' = .checkHolder ∨ ∃ a, y = .acquire a ∧ (a.step t g).progress.next? = some a' ∧
      y' = .acquire a' := by
  cases y with
  | acquire a =>
    simp only [step] at h
    cases hp : (a.step t g).progress <;> rw [hp] at h <;> cases h
    cases ha
    exact .inr ⟨a, rfl, by rw [hp]; rfl, rfl⟩
  | recordHandoff completed =>
    cases h
    cases ha
    exact .inl rfl
  | release before ticket r =>
    simp only [step] at h
    cases hp : (r.step t g).progress <;> rw [hp] at h <;> cases h <;> cases ha
  | wait watch w =>
    simp only [step] at h
    cases hp : (w.step t g.handoff).2 <;> rw [hp] at h <;> cases h <;> cases ha
  | record =>
    cases h
    cases ha
  | readCount =>
    cases h
    cases ha
  | prepare before =>
    cases h
    cases ha
  | renew watch =>
    cases h
    cases ha
  | _ =>
    simp only [step] at h
    split at h <;> cases h <;> cases ha

theorem Call.place?_step {c c' : Call} {a' : Acquire}
    (h : (c.step t g).progress.next? = some c') (ha : c'.place? = some a') :
    a' = .checkHolder ∨ ∃ a, c.place? = some a ∧ (a.step t g).progress.next? = some a' ∧
      c' = c.put a' := by
  cases c with
  | acquire a =>
    simp only [step] at h
    cases hp : (a.step t g).progress <;> rw [hp] at h <;> cases h
    cases ha
    exact .inr ⟨a, rfl, by rw [hp]; rfl, rfl⟩
  | yield y =>
    simp only [step] at h
    cases hp : (y.step t g).progress <;> rw [hp] at h <;> cases h
    rename_i y'
    have hn : (y.step t g).progress.next? = some y' := by
      rw [hp]
      rfl
    rcases Yield.place?_step hn ha with h0 | ⟨a, rfl, hs, rfl⟩
    · exact .inl h0
    · exact .inr ⟨a, rfl, hs, rfl⟩
  | release r =>
    simp only [step] at h
    cases hp : (r.step t g).progress <;> rw [hp] at h <;> cases h
    cases ha
  | reinit r =>
    simp only [step] at h
    cases hp : (r.step t g).progress <;> rw [hp] at h <;> cases h
    cases ha
  | store word => cases h

end Gil

end InterpreterLock
