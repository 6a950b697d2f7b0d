import InterpreterLock.Proofs.Gil.Settings
import InterpreterLock.Proofs.Parking.Sound
import Mathlib.Data.Finset.Filter
import Mathlib.Data.Fintype.Basic

/-!
# What a refused call leaves behind

A call that breaks the contract unwinds. Most checks come before the call has changed anything. Three
come too late: a release checks the word when it has cleared the record of its holder and swapped
the word, so the waiters of a lock that it has freed get no signal; a contended acquire checks the
word when it has enlisted, and stays on the count of waiters; and a yield competes for the lock when
it has given it up.

This is about every run, raw writes of the word and resets after a fork included. Of each call its
own steps are followed, whatever the other threads change in between.
-/

set_option autoImplicit false

namespace InterpreterLock.Gil

inductive Part
  | word
  | holder
  | waiters
  | acquisitions
  | wakeup
  | handoff
deriving DecidableEq

instance : Fintype Part :=
  ⟨{.word, .holder, .waiters, .acquisitions, .wakeup, .handoff}, fun p => by cases p <;> decide⟩

def Part.differs (g g' : Gil) : Part → Bool
  | .word => g.word != g'.word
  | .holder => g.holder != g'.holder
  | .waiters => g.waiters != g'.waiters
  | .acquisitions => g.acquisitions != g'.acquisitions
  | .wakeup => g.wakeup != g'.wakeup
  | .handoff => g.handoff != g'.handoff

def changed (g g' : Gil) : Finset Part := Finset.univ.filter fun p => p.differs g g' = true

theorem mem_changed {g g' : Gil} {p : Part} : p ∈ changed g g' ↔ p.differs g g' = true := by
  simp [changed]

theorem changed_self (g : Gil) : changed g g = ∅ := by
  ext p
  rw [mem_changed]
  cases p <;> simp [Part.differs]

theorem waiters_mem_changed (g : Gil) :
    .waiters ∈ changed g { g with waiters := g.waiters + 1 } := by
  rw [mem_changed]
  simp [Part.differs]

/-- What is known of a call at a place: what it may have touched, whether it has raised the count of
waiters, and whether its thread has struck its record as the holder. -/
structure Spot where
  parts : Finset Part
  counted : Bool
  cleared : Bool
deriving DecidableEq

namespace Spot

def fresh : Spot := ⟨∅, false, false⟩

def any : Spot := ⟨.univ, false, false⟩

def away : Spot := ⟨{.holder, .word, .wakeup, .handoff}, false, true⟩

end Spot

def Acquire.spot (base : Spot) : Acquire → Spot
  | .checkHolder | .tryWord | .readClock | .enlist _ => base
  | .prepare _ | .retry .. | .wait .. =>
    { base with parts := base.parts ∪ {.waiters, .wakeup}, counted := true }
  | .unlist _ | .setHolder _ | .count _ | .announce _ | .record _ => .any

def Release.spot : Release → Spot
  | .checkHolder | .clearHolder => .fresh
  | .clearWord => ⟨{.holder}, false, true⟩
  | .lookForWaiters | .signal => ⟨{.holder, .word}, false, true⟩

def Yield.spot : Yield → Spot
  | .checkHolder | .record | .lookForWaiters | .readCount | .prepare _ => .fresh
  | .release _ _ r => r.spot
  | .setDeadline .. | .compareCount .. | .recountWaiters .. | .readClock .. | .wait .. | .renew _
  | .recordHandoff _ => .away
  | .acquire a => a.spot .away

def Call.spot : Call → Spot
  | .acquire a => a.spot .fresh
  | .release r => r.spot
  | .yield y => y.spot
  | .reinit _ | .store _ => .any

structure Fits (me : Ident) (g : Gil) (touched : Finset Part) (s : Spot) : Prop where
  parts : touched ⊆ s.parts
  counted : s.counted = true → .waiters ∈ touched
  cleared : s.cleared = true → g.holder ≠ some me

section

variable {me : Ident} {g g' : Gil} {touched : Finset Part} {s s' : Spot}

theorem fits_fresh : Fits me g ∅ .fresh := ⟨Finset.Subset.refl _, nofun, nofun⟩

theorem fits_any : Fits me g touched .any := ⟨Finset.subset_univ _, nofun, nofun⟩

theorem Fits.read (h : Fits me g touched s) : Fits me g (touched ∪ changed g g) s := by
  rw [changed_self, Finset.union_empty]
  exact h

/-- A step that writes to one part, and not to the holder, touches no other. -/
theorem Fits.write (h : Fits me g touched s) (p : Part) (hp : p ∈ s'.parts)
    (hs : s.parts ⊆ s'.parts) (hq : ∀ q, q ≠ p → q.differs g g' = false)
    (hc : s'.counted = true → s.counted = true ∨ .waiters ∈ changed g g')
    (hl : s'.cleared = true → g'.holder ≠ some me) :
    Fits me g' (touched ∪ changed g g') s' where
  parts := by
    refine Finset.union_subset (h.parts.trans hs) fun q hmem => ?_
    rw [mem_changed] at hmem
    by_cases hqp : q = p
    · exact hqp ▸ hp
    · rw [hq q hqp] at hmem
      cases hmem
  counted hc' := by
    rw [Finset.mem_union]
    exact (hc hc').imp h.counted id
  cleared := hl

end

variable {t : Turn} {g : Gil} {touched : Finset Part}

theorem Acquire.fits_step (a : Acquire) (base : Spot)
    (h : Fits t.me g touched (a.spot base)) :
    (a.step t g).progress.Meets
      (fun a' => Fits t.me (a.step t g).state (touched ∪ changed g (a.step t g).state)
        (a'.spot base))
      (fun _ => True) (fun _ => True) := by
  cases a with
  | checkHolder =>
    simp only [step]
    split
    · trivial
    · exact h.read
  | tryWord =>
    simp only [step]
    split
    · exact fits_any
    · exact h.read
    · trivial
  | readClock => exact h.read
  | enlist start =>
    refine h.write .waiters (by simp [spot]) Finset.subset_union_left (fun q hq => ?_)
      (fun _ => .inr (waiters_mem_changed g)) h.cleared
    cases q <;> simp_all [step, Part.differs]
  | prepare start => exact h.read
  | retry start ticket =>
    simp only [step]
    split
    · exact fits_any
    · exact h.read
    · trivial
  | wait start w =>
    have hw : Fits t.me { g with wakeup := (w.step t g.wakeup).1 }
        (touched ∪ changed g { g with wakeup := (w.step t g.wakeup).1 })
        (spot base (.wait start w)) := by
      refine h.write .wakeup (by simp [spot]) (Finset.Subset.refl _) (fun q hq => ?_)
        (fun _ => .inl rfl) h.cleared
      cases q <;> simp_all [Part.differs]
    simp only [step, Progress.meets_within]
    exact Parking.wait_meets t g.wakeup w (fun _ => hw) fun _ => hw
  | unlist start => exact fits_any
  | setHolder route => exact fits_any
  | count route => cases route <;> exact fits_any
  | announce start => exact fits_any
  | record route => cases route <;> trivial

theorem Release.fits_step (r : Release) (h : Fits t.me g touched r.spot) :
    (r.step t g).progress.Meets
      (fun r' => Fits t.me (r.step t g).state (touched ∪ changed g (r.step t g).state) r'.spot)
      (fun _ => Fits t.me (r.step t g).state (touched ∪ changed g (r.step t g).state) .away)
      (fun _ => True) := by
  cases r with
  | checkHolder =>
    simp only [step]
    split
    · exact h.read
    · trivial
  | clearHolder =>
    refine h.write .holder (by decide) (by decide) (fun q hq => ?_) (fun h => by cases h)
      fun _ h => by cases h
    cases q <;> simp_all [step, Part.differs]
  | clearWord =>
    simp only [step]
    split
    · refine h.write .word (by decide) (by decide) (fun q hq => ?_) (fun h => by cases h) h.cleared
      cases q <;> simp_all [Part.differs]
    · trivial
  | lookForWaiters =>
    have hr := h.read
    simp only [step]
    split
    · exact ⟨hr.parts.trans (by decide), (fun h => by cases h), h.cleared⟩
    · exact hr
  | signal =>
    refine h.write .wakeup (by decide) (by decide) (fun q hq => ?_) (fun h => by cases h) h.cleared
    cases q <;> simp_all [step, Part.differs]

theorem Yield.fits_step (y : Yield) (h : Fits t.me g touched y.spot) :
    (y.step t g).progress.Meets
      (fun y' => Fits t.me (y.step t g).state (touched ∪ changed g (y.step t g).state) y'.spot)
      (fun _ => True) (fun _ => True) := by
  cases y with
  | checkHolder =>
    simp only [step]
    split
    · exact h.read
    · trivial
  | record => exact h.read
  | lookForWaiters =>
    simp only [step]
    split
    · trivial
    · exact h.read
  | readCount => exact h.read
  | prepare before => exact h.read
  | release before ticket r =>
    simp only [step, Progress.meets_within]
    exact (r.fits_step h).imp (fun _ h => h) (fun _ h => h) fun _ _ => trivial
  | setDeadline before ticket =>
    simp only [step]
    split
    · exact h.read
    · trivial
  | compareCount watch ticket =>
    simp only [step]
    split <;> exact h.read
  | recountWaiters watch ticket =>
    simp only [step]
    split <;> exact h.read
  | readClock watch ticket =>
    simp only [step]
    split <;> exact h.read
  | wait watch w =>
    have hw : Fits t.me { g with handoff := (w.step t g.handoff).1 }
        (touched ∪ changed g { g with handoff := (w.step t g.handoff).1 }) .away := by
      refine h.write .handoff (by decide) (Finset.Subset.refl _) (fun q hq => ?_)
        (fun h => by cases h) h.cleared
      cases q <;> simp_all [Part.differs]
    simp only [step, Progress.meets_within]
    exact Parking.wait_meets t g.handoff w (fun _ => hw) fun _ => hw
  | renew watch => exact h.read
  | recordHandoff completed => exact h.read
  | acquire a =>
    simp only [step, Progress.meets_within]
    exact (a.fits_step .away h).imp (fun _ h => h) (fun _ _ => trivial) fun _ _ => trivial

theorem Call.fits_step (c : Call) (h : Fits t.me g touched c.spot) :
    (c.step t g).progress.Meets
      (fun c' => Fits t.me (c.step t g).state (touched ∪ changed g (c.step t g).state) c'.spot)
      (fun _ => True) (fun _ => True) := by
  cases c with
  | acquire a =>
    simp only [step, Progress.meets_within]
    exact (a.fits_step .fresh h).imp (fun _ h => h) (fun _ _ => trivial) fun _ _ => trivial
  | release r =>
    simp only [step, Progress.meets_within]
    exact (r.fits_step h).imp (fun _ h => h) (fun _ _ => trivial) fun _ _ => trivial
  | yield y =>
    simp only [step, Progress.meets_within]
    exact (y.fits_step h).imp (fun _ h => h) (fun _ _ => trivial) fun _ _ => trivial
  | reinit r => cases r <;> first | exact fits_any | trivial
  | store word => trivial

theorem tryLock_holder {g' : Gil} (h : g.tryLock = .ok (some g')) : g'.holder = g.holder := by
  rw [eq_of_tryLock h]

/-- A thread gets on record by its own steps only. -/
theorem Acquire.holder_step (a : Acquire) {i : Ident} (hi : i ≠ t.me)
    (h : (a.step t g).state.holder = some i) : g.holder = some i := by
  cases a with
  | checkHolder =>
    simp only [step] at h
    split at h <;> exact h
  | tryWord =>
    simp only [step] at h
    split at h
    · rename_i hg
      rwa [tryLock_holder hg] at h
    · exact h
    · exact h
  | retry start ticket =>
    simp only [step] at h
    split at h
    · rename_i hg
      rwa [tryLock_holder hg] at h
    · exact h
    · exact h
  | setHolder route => exact absurd (Option.some.inj h).symm hi
  | count route => cases route <;> exact h
  | record route => cases route <;> exact h
  | _ => exact h

theorem Release.holder_step (r : Release) {i : Ident}
    (h : (r.step t g).state.holder = some i) : g.holder = some i := by
  cases r with
  | clearHolder => cases h
  | signal => exact h
  | _ =>
    simp only [step] at h
    split at h <;> exact h

theorem Yield.holder_step (y : Yield) {i : Ident} (hi : i ≠ t.me)
    (h : (y.step t g).state.holder = some i) : g.holder = some i := by
  cases y with
  | release before ticket r => exact r.holder_step h
  | acquire a => exact a.holder_step hi h
  | record => exact h
  | readCount => exact h
  | prepare before => exact h
  | wait watch w => exact h
  | renew watch => exact h
  | recordHandoff completed => exact h
  | _ =>
    simp only [step] at h
    split at h <;> exact h

theorem Call.holder_step (c : Call) {i : Ident} (hi : i ≠ t.me)
    (h : (c.step t g).state.holder = some i) : g.holder = some i := by
  cases c with
  | acquire a => exact a.holder_step hi h
  | release r => exact r.holder_step h
  | yield y => exact y.holder_step hi h
  | reinit r =>
    cases r with
    | setHolder => exact absurd (Option.some.inj h).symm hi
    | _ => exact h
  | store word => exact h

theorem Fits.frame {i : Ident} {g' : Gil} {s : Spot} (hf : Fits i g touched s)
    (h : g'.holder = some i → g.holder = some i) : Fits i g' touched s :=
  ⟨hf.parts, hf.counted, fun hc hi => hf.cleared hc (h hi)⟩

inductive Leaves (me : Ident) (g g' : Gil) (touched : Finset Part) : Call → Violation → Prop
  | nothing {c : Call} (v : Violation) (ht : touched = ∅) (hg : g' = g) : Leaves me g g' touched c v
  | freed {c : Call} (hc : c.frees = true) (hl : g.isLocked = false) (hw : g'.word = Mode.freeWord)
      (ht : touched ⊆ {.holder, .word}) : Leaves me g g' touched c (.releasedFree g.word g.mode)
  | counted (start : Instant) (ticket : Ticket) (hv : g.mode.isValid g.word = false)
      (hw : .waiters ∈ touched) (ht : touched ⊆ {.waiters, .wakeup}) (hg : g' = g) :
      Leaves me g g' touched (.acquire (.retry start ticket)) (.corruptWord g.word g.mode)
  | givenUp (a : Acquire) (hv : g.mode.isValid g.word = false) (hh : g.holder ≠ some me)
      (hw : a.stance ≠ .apart → .waiters ∈ touched) (ha : .acquisitions ∉ touched) (hg : g' = g) :
      Leaves me g g' touched (.yield (.acquire a)) (.corruptWord g.word g.mode)

theorem tryLock_error {g : Gil} {v : Violation} (h : g.tryLock = .error v) :
    g.mode.isValid g.word = false ∧ v = .corruptWord g.word g.mode := by
  unfold tryLock at h
  split at h
  · cases h
  · split at h
    · cases h
    · rename_i hv
      cases h
      exact ⟨by simpa using hv, rfl⟩

theorem Fits.nothing {me : Ident} {touched : Finset Part} (h : Fits me g touched .fresh) :
    touched = ∅ := Finset.subset_empty.mp h.parts

theorem wait_not_unwound (t : Turn) (e : Event) (w : Wait) {p : Panic} :
    (w.step t e).2 ≠ .unwound p := by
  intro hp
  have hm : (w.step t e).2.Meets (fun _ => True) (fun _ => True) fun _ => False :=
    Parking.wait_meets t e w (fun _ => trivial) fun _ => trivial
  rw [hp] at hm
  exact hm

/-- The places where an acquire unwinds. -/
theorem Acquire.unwinds {a : Acquire} {v : Violation}
    (hp : (a.step t g).progress = .unwound (.violation v)) :
    (a.step t g).state = g ∧
      ((a = .checkHolder ∧ g.holder = some t.me) ∨
        (a = .tryWord ∨ ∃ start ticket, a = .retry start ticket) ∧
          g.mode.isValid g.word = false ∧ v = .corruptWord g.word g.mode) := by
  cases a with
  | checkHolder =>
    by_cases hh : g.isHeldBy t.me = true
    · have hs : g.holder = some t.me := by simpa [isHeldBy] using hh
      simp only [step, hh, if_true, true_and]
      exact .inl hs
    · simp [step, hh] at hp
  | tryWord =>
    cases ht : g.tryLock with
    | ok o => cases o <;> simp [step, ht] at hp
    | error v' =>
      simp only [step, ht, Progress.unwound.injEq, Panic.violation.injEq] at hp ⊢
      obtain ⟨hv, he⟩ := tryLock_error ht
      exact ⟨trivial, .inr ⟨.inl trivial, hv, hp ▸ he⟩⟩
  | retry start ticket =>
    cases ht : g.tryLock with
    | ok o => cases o <;> simp [step, ht] at hp
    | error v' =>
      simp only [step, ht, Progress.unwound.injEq, Panic.violation.injEq] at hp ⊢
      obtain ⟨hv, he⟩ := tryLock_error ht
      exact ⟨trivial, .inr ⟨.inr ⟨start, ticket, rfl⟩, hv, hp ▸ he⟩⟩
  | wait start w => exact absurd (Progress.unwound_of_within hp (by simp)) (wait_not_unwound t _ w)
  | count route => cases route <;> cases hp
  | record route => cases route <;> cases hp
  | _ => cases hp

/-- The places where a release unwinds. -/
theorem Release.unwinds {r : Release} {v : Violation}
    (hp : (r.step t g).progress = .unwound (.violation v)) :
    (r = .checkHolder ∧ (r.step t g).state = g) ∨
      (r = .clearWord ∧ (r.step t g).state = { g with word := Mode.freeWord } ∧
        g.isLocked = false ∧ v = .releasedFree g.word g.mode) := by
  cases r with
  | checkHolder =>
    cases hh : g.isHeldBy t.me with
    | true => simp [step, hh] at hp
    | false => exact .inl ⟨rfl, by simp [step, hh]⟩
  | clearWord =>
    cases hl : g.isLocked with
    | true => simp [step, hl] at hp
    | false =>
      simp only [step, hl, Bool.false_eq_true, if_false, Progress.unwound.injEq,
        Panic.violation.injEq] at hp
      exact .inr ⟨rfl, by simp [step, hl], rfl, hp.symm⟩
  | lookForWaiters =>
    simp only [step] at hp
    split at hp <;> cases hp
  | _ => cases hp

/-- A release that has got past its check leaves the word free. -/
theorem Fits.freed {c : Call} {r : Release} {v : Violation} (hf : Fits t.me g touched r.spot)
    (hc : r = .clearWord → c.frees = true)
    (hp : (r.step t g).progress = .unwound (.violation v)) :
    Leaves t.me g (r.step t g).state (touched ∪ changed g (r.step t g).state) c v := by
  obtain ⟨rfl, hs⟩ | ⟨rfl, hs, hl, rfl⟩ := Release.unwinds hp
  · rw [hs]
    exact .nothing v hf.read.nothing rfl
  · rw [hs]
    have hw : Fits t.me { g with word := Mode.freeWord }
        (touched ∪ changed g { g with word := Mode.freeWord })
        ⟨{.holder, .word}, false, false⟩ := by
      refine hf.write .word (by decide) (by decide) (fun q hq => ?_) (fun h => by cases h)
        fun h => by cases h
      cases q <;> simp_all [Part.differs]
    exact .freed (hc rfl) hl rfl hw.parts

/-- What a violation leaves behind. -/
theorem Call.leaves (c : Call) {v : Violation} (hf : Fits t.me g touched c.spot)
    (hp : (c.step t g).progress = .unwound (.violation v)) :
    Leaves t.me g (c.step t g).state (touched ∪ changed g (c.step t g).state) c v := by
  cases c with
  | acquire a =>
    have ha := Progress.unwound_of_within hp (by simp)
    obtain ⟨hs, ⟨rfl, -⟩ | ⟨rfl | ⟨start, ticket, rfl⟩, hv, rfl⟩⟩ := Acquire.unwinds ha
    · simp only [step, hs]
      exact .nothing v hf.read.nothing rfl
    · simp only [step, hs]
      exact .nothing _ hf.read.nothing rfl
    · simp only [step, hs]
      have hparts : (touched ∪ changed g g) ⊆ ∅ ∪ {.waiters, .wakeup} := hf.read.parts
      rw [Finset.empty_union] at hparts
      exact .counted start ticket hv (hf.read.counted rfl) hparts rfl
  | release r =>
    have hr := Progress.unwound_of_within hp (by simp)
    exact hf.freed (by rintro rfl; rfl) hr
  | yield y =>
    have hy := Progress.unwound_of_within hp (by simp)
    cases y with
    | checkHolder =>
      simp only [step, Yield.step] at hy ⊢
      split at hy
      · cases hy
      · rename_i hh
        simp only [hh]
        exact .nothing v hf.read.nothing rfl
    | release before ticket r =>
      have hr := Progress.unwound_of_within hy (by simp)
      exact hf.freed (by rintro rfl; rfl) hr
    | acquire a =>
      have ha := Progress.unwound_of_within hy (by simp)
      obtain ⟨hs, ⟨rfl, hh⟩ | ⟨hplace, hv, rfl⟩⟩ := Acquire.unwinds ha
      · exact absurd hh (hf.cleared rfl)
      · have hparts : (touched ∪ changed g g) ⊆ Spot.away.parts ∪ {.waiters, .wakeup} := by
          rcases hplace with rfl | ⟨start, ticket, rfl⟩
          · exact hf.read.parts.trans Finset.subset_union_left
          · exact hf.read.parts
        have hholder : g.holder ≠ some t.me := by
          rcases hplace with rfl | ⟨start, ticket, rfl⟩ <;> exact hf.cleared rfl
        simp only [step, Yield.step, hs]
        refine .givenUp a hv hholder (fun hst => ?_) (fun hm => absurd (hparts hm) (by decide)) rfl
        rcases hplace with rfl | ⟨start, ticket, rfl⟩
        · exact absurd rfl hst
        · exact hf.read.counted rfl
    | wait watch w => exact absurd (Progress.unwound_of_within hy (by simp)) (wait_not_unwound t _ w)
    | record => cases hy
    | readCount => cases hy
    | prepare before => cases hy
    | renew watch => cases hy
    | recordHandoff completed => cases hy
    | _ =>
      simp only [Yield.step] at hy
      split at hy <;> cases hy
  | reinit r => cases r <;> cases hp
  | store word => cases hp

theorem Op.fits_call (op : Op) {me : Ident} : Fits me g ∅ op.call.spot := by
  cases op with
  | reinit => exact fits_any
  | store word => exact fits_any
  | _ => exact fits_fresh

structure Footprints where
  system : System
  touched : Ident → Finset Part := fun _ => ∅

namespace Footprints

def start (mode : Mode) (backend : Backend) (patience : Duration) : Footprints :=
  { system := .start mode backend patience }

def act (v : Footprints) (a : Action) : Footprints where
  system := v.system.act a
  touched :=
    match a with
    | .begin i _ => if v.system.calls i = none then Function.update v.touched i ∅ else v.touched
    | .step t =>
      Function.update v.touched t.me
        (v.touched t.me ∪ changed v.system.gil (v.system.act (.step t)).gil)
    | .rouse _ => v.touched

def run (v : Footprints) (acts : List Action) : Footprints := acts.foldl act v

def Traced (v : Footprints) : Prop :=
  ∀ t c violation, v.system.calls t.me = some c →
    (c.step t v.system.gil).progress = .unwound (.violation violation) →
    Leaves t.me v.system.gil (v.act (.step t)).system.gil ((v.act (.step t)).touched t.me)
      c violation

def Kept (v : Footprints) : Prop :=
  ∀ i c, v.system.calls i = some c → Gil.Fits i v.system.gil (v.touched i) c.spot

theorem Kept.step {v : Footprints} (hv : v.Kept) {t : Turn} {c : Call}
    (hc : v.system.calls t.me = some c) : (v.act (.step t)).Kept := by
  intro i c' hc'
  simp only [Footprints.act, System.act, hc, System.stepCall_gil, System.stepCall_calls] at hc' ⊢
  by_cases hi : i = t.me
  · subst hi
    rw [Function.update_self] at hc' ⊢
    exact (c.fits_step (hv t.me c hc)).of_next? hc'
  · rw [Function.update_of_ne hi] at hc' ⊢
    exact (hv i c' hc').frame (c.holder_step hi)

theorem Kept.act {v : Footprints} (hv : v.Kept) (a : Action) : (v.act a).Kept := by
  cases a with
  | begin i op =>
    cases hc : v.system.calls i with
    | some c => simpa [Footprints.act, System.act, hc, Kept] using hv
    | none =>
      intro j c hj
      simp only [Footprints.act, System.act, hc, System.beginCall_calls, if_true] at hj ⊢
      by_cases hji : j = i
      · subst hji
        rw [Function.update_self] at hj ⊢
        cases hj
        exact op.fits_call
      · rw [Function.update_of_ne hji] at hj ⊢
        exact hv j c hj
  | rouse i => exact fun j c hj => (hv j c hj).frame id
  | step t =>
    cases hc : v.system.calls t.me with
    | some c => exact hv.step hc
    | none =>
      have hs : v.system.act (.step t) = v.system := by simp only [System.act, hc]
      have hact : v.act (.step t) = v := by
        simp only [Footprints.act, hs, changed_self, Finset.union_empty, Function.update_eq_self]
      rw [hact]
      exact hv

theorem refusals_traced_run (mode : Mode) (backend : Backend) (patience : Duration)
    (acts : List Action) : ((start mode backend patience).run acts).Traced := by
  have hv : ((start mode backend patience).run acts).Kept :=
    Run.lasts (P := Kept) (fun _ a hv => hv.act a) acts _ fun i c h => by cases h
  intro t c violation hc hp
  have h := c.leaves (hv t.me c hc) hp
  simpa only [Footprints.act, System.act, hc, System.stepCall_gil, Function.update_self] using h

theorem clearWord_refused (hl : g.isLocked = false) :
    ((Call.release .clearWord).step t g).progress.result? =
      some (.error (.violation (.releasedFree g.word g.mode))) := by
  simp [Call.step, Release.step, hl, Progress.within, Progress.result?]

/-- The word of a held lock is overwritten while a waiter sleeps. The holder's release is refused:
the lock is free, and the waiter sleeps on. -/
theorem refusal_frees :
    let a : Ident := ⟨1, by decide⟩
    let b : Ident := ⟨2, by decide⟩
    let t : Turn := { me := a, now := ⟨0⟩ }
    let turns (k : ℕ) (i : Ident) : List Action := List.replicate k (.step { me := i, now := ⟨0⟩ })
    let before := ((start .constrained .posix Gil.defaultPatience).run
      (.begin a .acquire :: turns 5 a ++ .begin b .acquire :: turns 9 b ++
        .begin a (.store 42) :: turns 1 a)).system
    let late := before.run (.begin a .release :: turns 2 a)
    let after := late.act (.step t)
    (before.gil.word = 42 ∧ before.gil.holder = some a ∧
        Parking.Asleep before.gil.wakeup before.stance b) ∧
      (late.calls a = some (.release .clearWord) ∧
        ((Call.release .clearWord).step t late.gil).progress.result? =
          some (.error (.violation (.releasedFree late.gil.word late.gil.mode)))) ∧
      after.gil.word = Mode.freeWord ∧ after.gil.holder = none ∧ after.gil.waiters = 1 ∧
      Parking.Asleep after.gil.wakeup after.stance b := by
  intro a b t turns before late after
  have hbefore : Parking.Asleep before.gil.wakeup before.stance b :=
    ⟨⟨⟨0, 0⟩, by decide⟩, by decide⟩
  have hafter : Parking.Asleep after.gil.wakeup after.stance b :=
    ⟨⟨⟨0, 0⟩, by decide⟩, by decide⟩
  have hlate : late.calls a = some (.release .clearWord) := by decide
  have hl : late.gil.isLocked = false := by decide
  exact ⟨⟨by decide, by decide, hbefore⟩, ⟨hlate, clearWord_refused hl⟩, by decide, by decide,
    by decide, hafter⟩

end Footprints

end InterpreterLock.Gil
