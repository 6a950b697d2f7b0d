import InterpreterLock.Proofs.Gil.System
import InterpreterLock.Proofs.Progress

/-!
# Custody of the lock

A thread that takes the word has the lock before it is on record as the holder, and it strikes its
record before it frees the word. So there are two windows in which a thread has the lock bare. Where
a thread stands in its call says what it has of the lock, and every step keeps that in accord with
the word and with the holder on record. The check that begins a call refuses a thread that breaks
the contract; nothing else unwinds a call but a deadline that no clock can show.
-/

set_option autoImplicit false

namespace InterpreterLock.Gil

inductive Hold
  | out
  | bare
  | recorded
deriving DecidableEq

def Hold.ofInside : Bool → Hold
  | true => .recorded
  | false => .out

theorem Hold.ofInside_ne_bare (b : Bool) : ofInside b ≠ .bare := by cases b <;> nofun

theorem Hold.eq_ofInside {h : Hold} {b : Bool} (hb : h ≠ .bare) (hi : b = true ↔ h ≠ .out) :
    h = ofInside b := by
  cases b <;> cases h <;> simp_all [ofInside]

namespace Acquire

def hold (inside : Bool) : Acquire → Hold
  | .checkHolder => .ofInside inside
  | .tryWord | .readClock | .enlist _ | .prepare _ | .retry .. | .wait .. => .out
  | .unlist _ | .setHolder _ => .bare
  | .count _ | .announce _ | .record _ => .recorded

def panic? (t : Turn) (inside : Bool) : Acquire → Option Panic
  | .checkHolder => if inside then some (.violation (.reentered t.me)) else none
  | _ => none

theorem panic?_outside (t : Turn) (a : Acquire) : a.panic? t false = none := by cases a <;> rfl

end Acquire

namespace Release

def hold (inside : Bool) : Release → Hold
  | .checkHolder => .ofInside inside
  | .clearHolder => .recorded
  | .clearWord => .bare
  | .lookForWaiters | .signal => .out

def panic? (t : Turn) (g : Gil) (inside : Bool) : Release → Option Panic
  | .checkHolder =>
    if inside then none else some (.violation (.releasedUnheld t.me g.holder))
  | _ => none

theorem panic?_inside (t : Turn) (g : Gil) (r : Release) : r.panic? t g true = none := by
  cases r <;> rfl

end Release

namespace Yield

def hold (inside : Bool) : Yield → Hold
  | .checkHolder => .ofInside inside
  | .record | .lookForWaiters | .readCount | .prepare _ => .recorded
  | .release _ _ r => r.hold true
  | .setDeadline .. | .compareCount .. | .recountWaiters .. | .readClock .. | .wait .. | .renew _
  | .recordHandoff _ => .out
  | .acquire a => a.hold false

def panic? (t : Turn) (g : Gil) (inside : Bool) : Yield → Option Panic
  | .checkHolder => if inside then none else some (.violation .yieldedUnheld)
  | .setDeadline .. => if (t.now.add? g.patience).isNone then some .clockOverflow else none
  | _ => none

end Yield

namespace Call

def hold (inside : Bool) : Call → Hold
  | .acquire a => a.hold inside
  | .release r => r.hold inside
  | .yield y => y.hold inside
  | .reinit _ | .store _ => .ofInside inside

def panic? (t : Turn) (g : Gil) (inside : Bool) : Call → Option Panic
  | .acquire a => a.panic? t inside
  | .release r => r.panic? t g inside
  | .yield y => y.panic? t g inside
  | .reinit _ | .store _ => none

def after : Call → Hold
  | .acquire _ | .yield _ | .reinit _ => .recorded
  | .release _ | .store _ => .out

theorem after_ne_bare (c : Call) : c.after ≠ .bare := by cases c <;> simp [after]

def isOrdinary : Call → Bool
  | .reinit _ | .store _ => false
  | _ => true

theorem isOrdinary_of_next? {t : Turn} {g : Gil} {c' : Call} (c : Call)
    (h : (c.step t g).progress.next? = some c') : c'.isOrdinary = c.isOrdinary := by
  cases c with
  | acquire a =>
    simp only [step] at h
    cases hp : (a.step t g).progress <;> rw [hp] at h <;> cases h
    rfl
  | release r =>
    simp only [step] at h
    cases hp : (r.step t g).progress <;> rw [hp] at h <;> cases h
    rfl
  | yield y =>
    simp only [step] at h
    cases hp : (y.step t g).progress <;> rw [hp] at h <;> cases h
    rfl
  | reinit r =>
    simp only [step] at h
    cases hp : (r.step t g).progress <;> rw [hp] at h <;> cases h
    rfl
  | store word => cases h

end Call

inductive Shift (me : Ident) (g g' : Gil) : Bool → Bool → Hold → Hold → Prop
  | keep (h : Hold) (hw : g'.word = g.word) (hh : g'.holder = g.holder) :
      Shift me g g' false false h h
  | take (hf : g.word = Mode.freeWord) (hw : g'.word = g.mode.lockedWord)
      (hh : g'.holder = g.holder) : Shift me g g' true false .out .bare
  | record (hw : g'.word = g.word) (hh : g'.holder = some me) :
      Shift me g g' false false .bare .recorded
  | clear (hw : g'.word = g.word) (hh : g'.holder = none) :
      Shift me g g' false false .recorded .bare
  | free (hw : g'.word = Mode.freeWord) (hh : g'.holder = g.holder) :
      Shift me g g' false true .bare .out

theorem Shift.inside {me : Ident} {g g' : Gil} {takes frees b : Bool} {h h' : Hold}
    (hs : Shift me g g' takes frees h h') (hb : b = true ↔ h ≠ .out) :
    (takes || b && !frees) = true ↔ h' ≠ .out := by
  cases hs <;> simp_all

structure Shows (g : Gil) (me : Ident) (h : Hold) : Prop where
  valid : g.mode.isValid g.word = true
  locked : h ≠ .out → g.isLocked = true
  holder : g.isHeldBy me = true ↔ h = .recorded

def Accords {σ α : Type} (me : Ident) (g : Gil) (takes frees : Bool) (h : Hold)
    (panic? : Option Panic) (hold : σ → Hold) (after : Hold) (m : Move Gil σ α) : Prop :=
  m.progress.Meets
    (fun s => panic? = none ∧ Shift me g m.state takes frees h (hold s))
    (fun _ => panic? = none ∧ Shift me g m.state takes frees h after)
    (fun p => panic? = some p ∧ m.state = g ∧ h ≠ .bare ∧ Shift me g m.state takes frees h h)

/-- A call that runs inside another one shifts for it. -/
theorem Accords.within {σ τ α β : Type} {me : Ident} {g : Gil} {takes frees : Bool} {h : Hold}
    {panic? : Option Panic} {hold : σ → Hold} {hold' : τ → Hold} {after after' : Hold}
    {m : Move Gil σ α} (hm : Accords me g takes frees h panic? hold after m) (inner : σ → τ)
    (next : α → Progress τ β) (hi : ∀ s, hold' (inner s) = hold s)
    (hn : ∀ a, (next a).Meets (fun s => hold' s = after) (fun _ => after' = after)
      (fun _ => False)) :
    Accords me g takes frees h panic? hold' after'
      ⟨m.state, m.progress.within inner next, m.note⟩ := by
  rw [Accords, Progress.meets_within]
  refine Progress.Meets.imp hm (fun s hs => ?_) (fun a ha => ?_) fun _ hp => hp
  · rw [hi]
    exact hs
  · refine Progress.Meets.imp (hn a) (fun s hs => ?_) (fun _ hb => ?_) fun _ hp => hp.elim
    · rw [hs]
      exact ha
    · rw [hb]
      exact ha

section

variable {σ α : Type} {me : Ident} {g : Gil} {takes frees : Bool} {h after : Hold}
  {panic? : Option Panic} {hold : σ → Hold} {m m' : Move Gil σ α}

theorem Accords.ite {c : Prop} [Decidable c]
    (hc : c → Accords me g takes frees h panic? hold after m)
    (hn : ¬c → Accords me g takes frees h panic? hold after m') :
    Accords me g takes frees h panic? hold after (if c then m else m') := by
  by_cases h : c
  · rw [if_pos h]
    exact hc h
  · rw [if_neg h]
    exact hn h

theorem Accords.unwinds_iff (hm : Accords me g takes frees h panic? hold after m) (p : Panic) :
    m.progress = .unwound p ↔ panic? = some p := by
  unfold Accords at hm
  cases hp : m.progress with
  | going s =>
    rw [hp] at hm
    simp [hm.1]
  | done a =>
    rw [hp] at hm
    simp [hm.1]
  | unwound q =>
    rw [hp] at hm
    simp [hm.1]

theorem Accords.unchanged (hm : Accords me g takes frees h panic? hold after m) {p : Panic}
    (hp : m.progress = .unwound p) : m.state = g := by
  rw [Accords, hp] at hm
  exact hm.2.1

end

variable {t : Turn} {g : Gil} {inside : Bool}

theorem Shows.isHeldBy {me : Ident} (hs : Shows g me (.ofInside inside)) :
    g.isHeldBy me = inside := by
  rw [Bool.eq_iff_iff, hs.holder]
  cases inside <;> decide

/-- An attempt takes the word when it is free, and otherwise leaves it. -/
theorem tryLock_cases (hv : g.mode.isValid g.word = true) :
    (g.word = Mode.freeWord ∧ g.tryLock = .ok (some { g with word := g.mode.lockedWord })) ∨
      (g.word ≠ Mode.freeWord ∧ g.tryLock = .ok none) := by
  by_cases hf : g.word = Mode.freeWord
  · exact .inl ⟨hf, tryLock_of_free g hf⟩
  · exact .inr ⟨hf, (tryLock_eq_none_iff g).mpr ⟨hf, hv⟩⟩

theorem Acquire.accords (a : Acquire) (hs : Shows g t.me (a.hold inside)) (inside' : Bool) :
    Accords t.me g (a.takes g) false (a.hold inside) (a.panic? t inside)
      (hold inside') .recorded (a.step t g) := by
  cases a with
  | checkHolder =>
    have hm : g.isHeldBy t.me = inside := hs.isHeldBy
    cases inside with
    | true =>
      simp only [Accords, step, hm, if_true, Progress.Meets]
      exact ⟨rfl, trivial, nofun, .keep _ rfl rfl⟩
    | false =>
      simp only [Accords, step, hm, Progress.Meets]
      exact ⟨rfl, .keep _ rfl rfl⟩
  | tryWord =>
    rcases tryLock_cases hs.valid with ⟨hf, ht⟩ | ⟨hf, ht⟩
    · simp only [Accords, step, ht, Progress.Meets, takes, beq_iff_eq.mpr hf]
      exact ⟨rfl, .take hf rfl rfl⟩
    · simp only [Accords, step, ht, Progress.Meets, takes, beq_eq_false_iff_ne.mpr hf]
      exact ⟨rfl, .keep _ rfl rfl⟩
  | retry start ticket =>
    rcases tryLock_cases hs.valid with ⟨hf, ht⟩ | ⟨hf, ht⟩
    · simp only [Accords, step, ht, Progress.Meets, takes, beq_iff_eq.mpr hf]
      exact ⟨rfl, .take hf rfl rfl⟩
    · simp only [Accords, step, ht, Progress.Meets, takes, beq_eq_false_iff_ne.mpr hf]
      exact ⟨rfl, .keep _ rfl rfl⟩
  | wait start w =>
    simp only [Accords, step, Progress.meets_within]
    apply Parking.wait_meets
    · intro _
      exact ⟨rfl, .keep _ rfl rfl⟩
    · intro _
      exact ⟨rfl, .keep _ rfl rfl⟩
  | setHolder route => exact ⟨rfl, .record rfl rfl⟩
  | count route => cases route <;> exact ⟨rfl, .keep _ rfl rfl⟩
  | record route => cases route <;> exact ⟨rfl, .keep _ rfl rfl⟩
  | readClock => exact ⟨rfl, .keep _ rfl rfl⟩
  | enlist start => exact ⟨rfl, .keep _ rfl rfl⟩
  | prepare start => exact ⟨rfl, .keep _ rfl rfl⟩
  | unlist start => exact ⟨rfl, .keep _ rfl rfl⟩
  | announce start => exact ⟨rfl, .keep _ rfl rfl⟩

theorem Release.accords (r : Release) (hs : Shows g t.me (r.hold inside)) (inside' : Bool) :
    Accords t.me g false r.frees (r.hold inside) (r.panic? t g inside)
      (hold inside') .out (r.step t g) := by
  cases r with
  | checkHolder =>
    have hm : g.isHeldBy t.me = inside := hs.isHeldBy
    cases inside with
    | true =>
      simp only [Accords, step, hm, if_true, Progress.Meets]
      exact ⟨rfl, .keep _ rfl rfl⟩
    | false =>
      simp only [Accords, step, hm, Progress.Meets]
      exact ⟨rfl, rfl, nofun, .keep _ rfl rfl⟩
  | clearHolder => exact ⟨rfl, .clear rfl rfl⟩
  | clearWord =>
    have hl : g.isLocked = true := hs.locked (by simp [hold])
    simp only [Accords, step, hl, if_true, Progress.Meets]
    exact ⟨rfl, .free rfl rfl⟩
  | lookForWaiters =>
    apply Accords.ite
    · intro _
      exact ⟨rfl, .keep _ rfl rfl⟩
    · intro _
      exact ⟨rfl, .keep _ rfl rfl⟩
  | signal => exact ⟨rfl, .keep _ rfl rfl⟩

theorem Yield.accords (y : Yield) (hs : Shows g t.me (y.hold inside)) (inside' : Bool) :
    Accords t.me g (y.takes g) y.frees (y.hold inside) (y.panic? t g inside)
      (hold inside') .recorded (y.step t g) := by
  cases y with
  | checkHolder =>
    have hm : g.isHeldBy t.me = inside := hs.isHeldBy
    cases inside with
    | true =>
      simp only [Accords, step, hm, if_true, Progress.Meets]
      exact ⟨rfl, .keep _ rfl rfl⟩
    | false =>
      simp only [Accords, step, hm, Progress.Meets]
      exact ⟨rfl, rfl, nofun, .keep _ rfl rfl⟩
  | record => exact ⟨rfl, .keep _ rfl rfl⟩
  | lookForWaiters =>
    apply Accords.ite
    · intro _
      exact ⟨rfl, .keep _ rfl rfl⟩
    · intro _
      exact ⟨rfl, .keep _ rfl rfl⟩
  | readCount => exact ⟨rfl, .keep _ rfl rfl⟩
  | prepare before => exact ⟨rfl, .keep _ rfl rfl⟩
  | release before ticket r =>
    have hr := Release.accords r hs true
    rw [Release.panic?_inside] at hr
    exact hr.within (Yield.release before ticket) (fun _ => .going (.setDeadline before ticket))
      (fun _ => rfl) fun _ => rfl
  | setDeadline before ticket =>
    cases hd : t.now.add? g.patience with
    | none =>
      simp only [Accords, step, hd, Progress.Meets, panic?]
      exact ⟨rfl, trivial, nofun, .keep _ rfl rfl⟩
    | some deadline =>
      simp only [Accords, step, hd, Progress.Meets, panic?]
      exact ⟨rfl, .keep _ rfl rfl⟩
  | compareCount watch ticket =>
    apply Accords.ite
    · intro _
      exact ⟨rfl, .keep _ rfl rfl⟩
    · intro _
      exact ⟨rfl, .keep _ rfl rfl⟩
  | recountWaiters watch ticket =>
    apply Accords.ite
    · intro _
      exact ⟨rfl, .keep _ rfl rfl⟩
    · intro _
      exact ⟨rfl, .keep _ rfl rfl⟩
  | readClock watch ticket =>
    apply Accords.ite
    · intro _
      exact ⟨rfl, .keep _ rfl rfl⟩
    · intro _
      exact ⟨rfl, .keep _ rfl rfl⟩
  | wait watch w =>
    simp only [Accords, step, Progress.meets_within]
    apply Parking.wait_meets
    · intro _
      exact ⟨rfl, .keep _ rfl rfl⟩
    · intro _
      exact ⟨rfl, .keep _ rfl rfl⟩
  | renew watch => exact ⟨rfl, .keep _ rfl rfl⟩
  | recordHandoff completed => exact ⟨rfl, .keep _ rfl rfl⟩
  | acquire a =>
    have ha := Acquire.accords a hs false
    rw [Acquire.panic?_outside] at ha
    exact ha.within Yield.acquire (fun _ => .done true) (fun _ => rfl) fun _ => rfl

theorem Call.accords (c : Call) (ho : c.isOrdinary = true) (hs : Shows g t.me (c.hold inside))
    (inside' : Bool) :
    Accords t.me g (c.takes g) c.frees (c.hold inside) (c.panic? t g inside)
      (hold inside') c.after (c.step t g) := by
  cases c with
  | acquire a =>
    exact (a.accords hs inside').within Call.acquire (fun _ => .done true) (fun _ => rfl)
      fun _ => rfl
  | release r =>
    exact (r.accords hs inside').within Call.release (fun _ => .done false) (fun _ => rfl)
      fun _ => rfl
  | yield y =>
    exact (y.accords hs inside').within Call.yield .done (fun _ => rfl) fun _ => rfl
  | reinit r => simp [isOrdinary] at ho
  | store word => simp [isOrdinary] at ho

def alone (i : Ident) (h : Hold) : Ident → Hold := Function.update (fun _ => .out) i h

@[simp] theorem alone_self (i : Ident) (h : Hold) : alone i h i = h := by simp [alone]

theorem alone_of_ne {i j : Ident} (h : Hold) (hj : j ≠ i) : alone i h j = .out := by
  simp [alone, hj]

theorem eq_of_alone {i j : Ident} {h h' : Hold} (hj : alone i h j = h') (hne : h' ≠ .out) :
    j = i ∧ h = h' := by
  by_cases hji : j = i
  · subst hji
    exact ⟨rfl, by simpa using hj⟩
  · rw [alone_of_ne h hji] at hj
    exact absurd hj.symm hne

theorem update_alone (i : Ident) (h h' : Hold) :
    Function.update (alone i h) i h' = alone i h' := Function.update_idem ..

theorem alone_out (i : Ident) : alone i .out = fun _ => .out := Function.update_eq_self_iff.mpr rfl

inductive Custody (g : Gil) : (Ident → Hold) → Prop
  | free (hw : g.word = 0) (hh : g.holder = none) : Custody g fun _ => .out
  | bare (i : Ident) (hw : g.word = 1) (hh : g.holder = none) : Custody g (alone i .bare)
  | recorded (i : Ident) (hw : g.word = 1) (hh : g.holder = some i) : Custody g (alone i .recorded)

namespace Custody

variable {hold : Ident → Hold}

theorem one (hc : Custody g hold) {i j : Ident} (hi : hold i ≠ .out) (hj : hold j ≠ .out) :
    i = j := by
  cases hc with
  | free hw hh => exact absurd rfl hi
  | bare k hw hh => rw [(eq_of_alone rfl hi).1, (eq_of_alone rfl hj).1]
  | recorded k hw hh => rw [(eq_of_alone rfl hi).1, (eq_of_alone rfl hj).1]

theorem word (hc : Custody g hold) :
    (g.word = 0 ∧ ∀ i, hold i = .out) ∨ (g.word = 1 ∧ ∃ i, hold i ≠ .out) := by
  cases hc with
  | free hw hh => exact .inl ⟨hw, fun _ => rfl⟩
  | bare i hw hh => exact .inr ⟨hw, i, by simp⟩
  | recorded i hw hh => exact .inr ⟨hw, i, by simp⟩

theorem holder (hc : Custody g hold) (i : Ident) : g.holder = some i ↔ hold i = .recorded := by
  cases hc with
  | free hw hh => simp [hh]
  | bare k hw hh =>
    rw [hh]
    refine ⟨nofun, fun hi => ?_⟩
    exact absurd (eq_of_alone hi nofun).2 nofun
  | recorded k hw hh =>
    rw [hh, Option.some_inj]
    refine ⟨fun hk => by rw [hk, alone_self], fun hi => ?_⟩
    exact (eq_of_alone hi nofun).1.symm

theorem shows (hc : Custody g hold) (i : Ident) : Shows g i (hold i) where
  valid := by
    rcases hc.word with ⟨hw, -⟩ | ⟨hw, -⟩
    · rw [hw]
      exact g.mode.isValid_freeWord
    · rw [hw]
      exact g.mode.isValid_lockedWord
  locked hi := by
    rcases hc.word with ⟨-, hout⟩ | ⟨hw, -⟩
    · exact absurd (hout i) hi
    · rw [isLocked, hw]
      exact g.mode.isLocked_lockedWord
  holder := by
    rw [Gil.isHeldBy, beq_iff_eq]
    exact hc.holder i

theorem frame {g' : Gil} (hc : Custody g hold) (hw : g'.word = g.word)
    (hh : g'.holder = g.holder) : Custody g' hold := by
  cases hc with
  | free hw' hh' => exact .free (hw.trans hw') (hh.trans hh')
  | bare i hw' hh' => exact .bare i (hw.trans hw') (hh.trans hh')
  | recorded i hw' hh' => exact .recorded i (hw.trans hw') (hh.trans hh')

theorem shift {me : Ident} {g' : Gil} {takes frees : Bool} {a b : Hold}
    (h : Shift me g g' takes frees a b) (ha : hold me = a) (hc : Custody g hold) :
    Custody g' (Function.update hold me b) := by
  cases h with
  | keep a hw hh =>
    rw [← ha, Function.update_eq_self]
    exact hc.frame hw hh
  | take hf hw hh =>
    cases hc with
    | free hw' hh' => exact .bare me hw (hh.trans hh')
    | bare i hw' hh' => exact absurd (hf.symm.trans hw') (by decide)
    | recorded i hw' hh' => exact absurd (hf.symm.trans hw') (by decide)
  | record hw hh =>
    cases hc with
    | free hw' hh' => cases ha
    | bare i hw' hh' =>
      obtain ⟨rfl, -⟩ := eq_of_alone ha nofun
      rw [update_alone]
      exact .recorded me (hw.trans hw') hh
    | recorded i hw' hh' => cases (eq_of_alone ha nofun).2
  | clear hw hh =>
    cases hc with
    | free hw' hh' => cases ha
    | bare i hw' hh' => cases (eq_of_alone ha nofun).2
    | recorded i hw' hh' =>
      obtain ⟨rfl, -⟩ := eq_of_alone ha nofun
      rw [update_alone]
      exact .bare me (hw.trans hw') hh
  | free hw hh =>
    cases hc with
    | free hw' hh' => cases ha
    | bare i hw' hh' =>
      obtain ⟨rfl, -⟩ := eq_of_alone ha nofun
      rw [update_alone, alone_out]
      exact .free hw (hh.trans hh')
    | recorded i hw' hh' => cases (eq_of_alone ha nofun).2

end Custody

namespace System

def hold (s : System) (i : Ident) : Hold :=
  match s.calls i with
  | none => .ofInside (s.inside i)
  | some c => c.hold (s.inside i)

structure Orderly (s : System) : Prop where
  ordinary : ∀ i c, s.calls i = some c → c.isOrdinary = true
  inside : ∀ i, s.inside i = true ↔ s.hold i ≠ .out
  custody : Custody s.gil s.hold

theorem orderly_start (mode : Mode) (backend : Backend) (patience : Duration) :
    (start mode backend patience).Orderly where
  ordinary i c h := by simp [start] at h
  inside i := by simp [start, hold, Hold.ofInside]
  custody := .free rfl rfl

variable {s : System} {c : Call}

theorem hold_of_call {i : Ident} (hc : s.calls i = some c) : s.hold i = c.hold (s.inside i) := by
  simp [hold, hc]

theorem hold_stepCall (s : System) (t : Turn) (c : Call) :
    (s.stepCall t c).hold =
      Function.update s.hold t.me ((s.stepCall t c).hold t.me) := by
  ext i
  by_cases hi : i = t.me
  · subst hi
    simp
  · simp [hold, stepCall, hi]

theorem Orderly.accords (hs : s.Orderly) (hc : s.calls t.me = some c) (inside' : Bool) :
    Accords t.me s.gil (c.takes s.gil) c.frees (s.hold t.me) (c.panic? t s.gil (s.inside t.me))
      (Call.hold inside') c.after (c.step t s.gil) := by
  have hsh := hs.custody.shows t.me
  rw [hold_of_call hc] at hsh ⊢
  exact c.accords (hs.ordinary t.me c hc) hsh inside'

/-- A step shifts what the thread has, to what its new place says. -/
theorem Orderly.shift (hs : s.Orderly) (hc : s.calls t.me = some c) :
    Shift t.me s.gil (s.stepCall t c).gil (c.takes s.gil) c.frees (s.hold t.me)
      ((s.stepCall t c).hold t.me) := by
  have ha := hs.accords hc (c.takes s.gil || s.inside t.me && !c.frees)
  -- A call that has ended leaves the thread at rest, where it cannot have the lock bare.
  have rest : ∀ {h}, Shift t.me s.gil (c.step t s.gil).state (c.takes s.gil) c.frees
      (s.hold t.me) h → h ≠ .bare →
      h = .ofInside (c.takes s.gil || s.inside t.me && !c.frees) :=
    fun hsf hne => Hold.eq_ofInside hne (hsf.inside (hs.inside t.me))
  cases hp : (c.step t s.gil).progress with
  | going c' =>
    simp only [Accords, hp, Progress.Meets] at ha
    have hh : (s.stepCall t c).hold t.me =
        c'.hold (c.takes s.gil || s.inside t.me && !c.frees) := by
      simp [hold, hp, Progress.next?]
    rw [hh]
    exact ha.2
  | done b =>
    simp only [Accords, hp, Progress.Meets] at ha
    have hh : (s.stepCall t c).hold t.me = c.after := by
      simp [hold, hp, Progress.next?, rest ha.2 c.after_ne_bare]
    rw [hh]
    exact ha.2
  | unwound p =>
    simp only [Accords, hp, Progress.Meets] at ha
    have hh : (s.stepCall t c).hold t.me = s.hold t.me := by
      rw [rest ha.2.2.2 ha.2.2.1]
      simp [hold, hp, Progress.next?]
    rw [hh]
    exact ha.2.2.2

theorem Orderly.stepCall (hs : s.Orderly) (hc : s.calls t.me = some c) :
    (s.stepCall t c).Orderly where
  ordinary i c' hc' := by
    by_cases hi : i = t.me
    · subst hi
      rw [stepCall_calls, Function.update_self] at hc'
      rw [Call.isOrdinary_of_next? c hc']
      exact hs.ordinary t.me c hc
    · rw [stepCall_calls, Function.update_of_ne hi] at hc'
      exact hs.ordinary i c' hc'
  inside i := by
    by_cases hi : i = t.me
    · subst hi
      rw [← (hs.shift hc).inside (hs.inside t.me)]
      simp
    · rw [hold_stepCall, Function.update_of_ne hi, stepCall_inside, Function.update_of_ne hi]
      exact hs.inside i
  custody := by
    rw [hold_stepCall]
    exact hs.custody.shift (hs.shift hc) rfl

/-- A call begins at a check, where the thread has what it had at rest. -/
theorem hold_begin {i : Ident} {op : Op} (ho : op.isOrdinary = true) (hc : s.calls i = none) :
    (s.beginCall i op.call).hold = s.hold := by
  ext j
  by_cases hj : j = i
  · subst hj
    have ho' : op.call.hold (s.inside j) = .ofInside (s.inside j) := by
      rcases Op.call_cases ho with h | h | h <;> rw [h] <;> rfl
    simp [hold, beginCall, hc, ho']
  · simp [hold, beginCall, hj]

theorem Orderly.begin (hs : s.Orderly) {i : Ident} {op : Op} (ho : op.isOrdinary = true)
    (hc : s.calls i = none) : (s.beginCall i op.call).Orderly := by
  constructor
  · intro j c hj
    by_cases hji : j = i
    · subst hji
      rw [beginCall_calls, Function.update_self, Option.some_inj] at hj
      rw [← hj]
      rcases Op.call_cases ho with h | h | h <;> rw [h] <;> rfl
    · rw [beginCall_calls, Function.update_of_ne hji] at hj
      exact hs.ordinary j c hj
  · rw [hold_begin ho hc]
    exact hs.inside
  · rw [hold_begin ho hc]
    exact hs.custody

theorem Orderly.act (hs : s.Orderly) (a : Action) (ha : a.isOrdinary = true) :
    (s.act a).Orderly := by
  cases a with
  | begin i op =>
    cases hc : s.calls i with
    | none =>
      simp only [System.act, hc]
      exact hs.begin ha hc
    | some c =>
      simp only [System.act, hc]
      exact hs
  | step t =>
    cases hc : s.calls t.me with
    | none =>
      simp only [System.act, hc]
      exact hs
    | some c =>
      simp only [System.act, hc]
      exact hs.stepCall hc
  | rouse i => exact ⟨hs.ordinary, hs.inside, hs.custody.frame rfl rfl⟩

theorem orderly_run (mode : Mode) (backend : Backend) (patience : Duration) (acts : List Action)
    (ha : ∀ a ∈ acts, a.isOrdinary = true) : ((start mode backend patience).run acts).Orderly :=
  Run.always (P := Orderly) (fun _ a hs ha => hs.act a ha) acts _
    (orderly_start mode backend patience) ha

end System

end InterpreterLock.Gil
