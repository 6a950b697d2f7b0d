import InterpreterLock.Proofs.Gil.Settings
import InterpreterLock.Proofs.Parking.Sound

/-!
# Entries on the contended path

A thread that contends enters the count of waiters and strikes itself off when it has taken the
word. A violation can unwind it in between, and a reset sets the count back whoever is enlisted.
Every step of a call makes at most one such entry, and its place says whether the thread is
enlisted.
-/

set_option autoImplicit false

namespace InterpreterLock.Gil

inductive Entry
  | none
  | enlist
  | strike
  | strand
  | clear
deriving DecidableEq

namespace Acquire

def entry (g : Gil) : Acquire → Entry
  | .enlist _ => .enlist
  | .unlist _ => .strike
  | .retry .. => if g.mode.isValid g.word then .none else .strand
  | _ => .none

end Acquire

namespace Yield

def entry (g : Gil) : Yield → Entry
  | .acquire a => a.entry g
  | _ => .none

end Yield

namespace Call

def entry (g : Gil) : Call → Entry
  | .acquire a => a.entry g
  | .yield y => y.entry g
  | .reinit .clearWaiters => .clear
  | .release _ | .reinit _ | .store _ => .none

end Call

inductive Posts (n : UInt64) : Entry → Bool → UInt64 → Bool → Prop
  | keep (b : Bool) : Posts n .none b n b
  | enlist : Posts n .enlist false (n + 1) true
  | strike : Posts n .strike true (n - 1) false
  | strand : Posts n .strand true n false
  | clear (b : Bool) : Posts n .clear b 0 b

def Enters {σ α : Type} (g : Gil) (k : Entry) (b : Bool) (enlisted : σ → Bool)
    (m : Move Gil σ α) : Prop :=
  m.progress.Meets (fun s => Posts g.waiters k b m.state.waiters (enlisted s))
    (fun _ => Posts g.waiters k b m.state.waiters false)
    (fun _ => Posts g.waiters k b m.state.waiters false)

theorem Enters.within {σ τ α β : Type} {g : Gil} {k : Entry} {b : Bool} {enlisted : σ → Bool}
    {enlisted' : τ → Bool} {m : Move Gil σ α} (hm : Enters g k b enlisted m) (inner : σ → τ)
    (next : α → Progress τ β) (hi : ∀ s, enlisted' (inner s) = enlisted s)
    (hn : ∀ a, (next a).Meets (fun s => enlisted' s = false) (fun _ => True) (fun _ => False)) :
    Enters g k b enlisted' ⟨m.state, m.progress.within inner next, m.note⟩ := by
  rw [Enters, Progress.meets_within]
  refine Progress.Meets.imp hm (fun s hs => ?_) (fun a ha => ?_) fun _ hp => hp
  · rw [hi]
    exact hs
  · refine Progress.Meets.imp (hn a) (fun s hs => ?_) (fun _ _ => ha) fun _ hp => hp.elim
    rw [hs]
    exact ha

theorem Enters.posts {σ α : Type} {g : Gil} {k : Entry} {b : Bool} {enlisted : σ → Bool}
    {m : Move Gil σ α} (hm : Enters g k b enlisted m) :
    Posts g.waiters k b m.state.waiters ((m.progress.next?.map enlisted).getD false) := by
  rw [Enters] at hm
  cases hp : m.progress with
  | going s =>
    rw [hp] at hm
    exact hm
  | done a =>
    rw [hp] at hm
    exact hm
  | unwound p =>
    rw [hp] at hm
    exact hm

variable {t : Turn} {g : Gil}

theorem tryLock_waiters {g' : Gil} (h : g.tryLock = .ok (some g')) : g'.waiters = g.waiters := by
  rw [eq_of_tryLock h]

theorem isValid_of_tryLock_ok {o : Option Gil} (h : g.tryLock = .ok o) :
    g.mode.isValid g.word = true := by
  by_cases hf : g.word = Mode.freeWord
  · rw [hf]
    exact g.mode.isValid_freeWord
  · by_contra hv
    simp [tryLock, hf, hv] at h

theorem isValid_of_tryLock_error {v : Violation} (h : g.tryLock = .error v) :
    g.mode.isValid g.word = false := by
  unfold tryLock at h
  split at h
  · cases h
  · split at h
    · cases h
    · simpa using ‹¬g.mode.isValid g.word = true›

theorem Acquire.enters (a : Acquire) :
    Enters g (a.entry g) a.stance.isEnlisted (fun a' => a'.stance.isEnlisted) (a.step t g) := by
  cases a with
  | checkHolder =>
    simp only [Enters, step]
    split
    · exact .keep _
    · exact .keep _
  | tryWord =>
    simp only [Enters, step]
    split
    · rename_i h
      simp only [Progress.Meets, tryLock_waiters h]
      exact .keep _
    · exact .keep _
    · exact .keep _
  | retry start ticket =>
    simp only [Enters, step]
    split
    · rename_i h
      simp only [Progress.Meets, tryLock_waiters h, entry, isValid_of_tryLock_ok h, if_true]
      exact .keep _
    · rename_i h
      simp only [Progress.Meets, entry, isValid_of_tryLock_ok h, if_true]
      exact .keep _
    · rename_i h
      simp only [Progress.Meets, entry, isValid_of_tryLock_error h]
      exact .strand
  | wait start w =>
    have hw : ∀ w : Wait, (Parking.Stance.ofWait w).isEnlisted = true := by
      intro w
      cases w <;> rfl
    simp only [Enters, step, Progress.meets_within, stance, hw]
    apply Parking.wait_meets
    · intro w'
      exact .keep _
    · intro o
      exact .keep _
  | enlist start => exact .enlist
  | unlist start => exact .strike
  | count route => cases route <;> exact .keep _
  | record route => cases route <;> exact .keep _
  | readClock => exact .keep _
  | prepare start => exact .keep _
  | setHolder route => exact .keep _
  | announce start => exact .keep _

theorem Release.step_waiters (r : Release) : (r.step t g).state.waiters = g.waiters := by
  cases r with
  | clearHolder => rfl
  | signal => rfl
  | _ =>
    simp only [step]
    split <;> rfl

theorem Release.step_note (r : Release) : (r.step t g).note = none := by
  cases r with
  | clearHolder => rfl
  | signal => rfl
  | _ =>
    simp only [step]
    split <;> rfl

theorem Release.enters (r : Release) :
    Enters g .none r.stance.isEnlisted (fun r' => r'.stance.isEnlisted) (r.step t g) := by
  have hs : ∀ r : Release, r.stance.isEnlisted = false := by
    intro r
    cases r <;> rfl
  simp only [Enters, hs, step_waiters]
  cases (r.step t g).progress <;> exact .keep _

theorem Yield.enters (y : Yield) :
    Enters g (y.entry g) y.stance.isEnlisted (fun y' => y'.stance.isEnlisted) (y.step t g) := by
  cases y with
  | release before ticket r =>
    exact (Release.enters (t := t) r).within (Yield.release before ticket)
      (fun _ => .going (.setDeadline before ticket)) (fun _ => rfl) fun _ => rfl
  | acquire a =>
    exact (Acquire.enters (t := t) a).within Yield.acquire (fun _ => .done true) (fun _ => rfl)
      fun _ => trivial
  | wait watch w =>
    simp only [Enters, step, Progress.meets_within]
    apply Parking.wait_meets
    · intro w'
      exact .keep _
    · intro o
      exact .keep _
  | record => exact .keep _
  | readCount => exact .keep _
  | prepare before => exact .keep _
  | renew watch => exact .keep _
  | recordHandoff completed => exact .keep _
  | _ =>
    simp only [Enters, step]
    split <;> exact .keep _

theorem Call.enters (c : Call) :
    Enters g (c.entry g) c.stance.isEnlisted (fun c' => c'.stance.isEnlisted) (c.step t g) := by
  cases c with
  | acquire a =>
    exact (Acquire.enters (t := t) a).within Call.acquire (fun _ => .done true) (fun _ => rfl)
      fun _ => trivial
  | release r =>
    exact (Release.enters (t := t) r).within Call.release (fun _ => .done false) (fun _ => rfl)
      fun _ => trivial
  | yield y =>
    exact (Yield.enters (t := t) y).within Call.yield .done (fun _ => rfl) fun _ => trivial
  | reinit r =>
    cases r with
    | clearWaiters => exact .clear _
    | lockWord => exact .keep _
    | setHolder => exact .keep _
  | store word => exact .keep _

namespace Call

def isReset : Call → Bool
  | .reinit _ => true
  | _ => false

def isStore : Call → Bool
  | .store _ => true
  | _ => false

variable {t : Turn} {g : Gil} {c' : Call}

theorem kind_of_next? (c : Call) (h : (c.step t g).progress.next? = some c') :
    c'.isReset = c.isReset ∧ c'.isStore = false := by
  cases c with
  | acquire a =>
    simp only [step] at h
    cases hp : (a.step t g).progress <;> rw [hp] at h <;> cases h
    exact ⟨rfl, rfl⟩
  | release r =>
    simp only [step] at h
    cases hp : (r.step t g).progress <;> rw [hp] at h <;> cases h
    exact ⟨rfl, rfl⟩
  | yield y =>
    simp only [step] at h
    cases hp : (y.step t g).progress <;> rw [hp] at h <;> cases h
    exact ⟨rfl, rfl⟩
  | reinit r =>
    simp only [step] at h
    cases hp : (r.step t g).progress <;> rw [hp] at h <;> cases h
    exact ⟨rfl, rfl⟩
  | store word => cases h

end Call

theorem Acquire.entry_ne_clear (g : Gil) (a : Acquire) : a.entry g ≠ .clear := by
  cases a with
  | retry start ticket =>
    simp only [entry]
    split <;> nofun
  | _ => nofun

theorem Call.isReset_of_entry {g : Gil} {c : Call} (he : c.entry g = .clear) :
    c.isReset = true := by
  cases c with
  | acquire a => exact absurd he (a.entry_ne_clear g)
  | release r => cases he
  | yield y =>
    cases y with
    | acquire a => exact absurd he (a.entry_ne_clear g)
    | _ => cases he
  | reinit r => rfl
  | store word => cases he

theorem Call.entry_ne_strand {g : Gil} (c : Call) (hv : g.mode.isValid g.word = true) :
    c.entry g ≠ .strand := by
  have ha : ∀ a : Acquire, a.entry g ≠ .strand := by
    intro a
    cases a with
    | retry start ticket =>
      simp only [Acquire.entry, hv, if_true]
      nofun
    | _ => nofun
  cases c with
  | acquire a => exact ha a
  | yield y =>
    cases y with
    | acquire a => exact ha a
    | _ => nofun
  | reinit r => cases r <;> nofun
  | release r => nofun
  | store word => nofun

def Valid (g : Gil) : Prop := g.mode.isValid g.word = true

section

variable {t : Turn} {g : Gil}

theorem valid_of_tryLock {g' : Gil} (h : g.tryLock = .ok (some g')) : g'.Valid := by
  rw [eq_of_tryLock h]
  exact g.mode.isValid_lockedWord

theorem Acquire.step_valid (a : Acquire) (h : g.Valid) : (a.step t g).state.Valid := by
  cases a with
  | checkHolder =>
    simp only [step]
    split <;> exact h
  | tryWord =>
    simp only [step]
    split
    · exact valid_of_tryLock ‹_›
    · exact h
    · exact h
  | retry start ticket =>
    simp only [step]
    split
    · exact valid_of_tryLock ‹_›
    · exact h
    · exact h
  | count route => cases route <;> exact h
  | record route => cases route <;> exact h
  | _ => exact h

theorem Release.step_valid (r : Release) (h : g.Valid) : (r.step t g).state.Valid := by
  cases r with
  | clearHolder => exact h
  | signal => exact h
  | clearWord =>
    simp only [step]
    split <;> exact g.mode.isValid_freeWord
  | _ =>
    simp only [step]
    split <;> exact h

theorem Yield.step_valid (y : Yield) (h : g.Valid) : (y.step t g).state.Valid := by
  cases y with
  | release before ticket r => exact r.step_valid h
  | acquire a => exact a.step_valid h
  | wait watch w => exact h
  | record => exact h
  | readCount => exact h
  | prepare before => exact h
  | renew watch => exact h
  | recordHandoff completed => exact h
  | _ =>
    simp only [step]
    split <;> exact h

/-- Only a raw write can make the word another one. -/
theorem Call.step_valid (c : Call) (hc : c.isStore = false) (h : g.Valid) :
    (c.step t g).state.Valid := by
  cases c with
  | acquire a => exact a.step_valid h
  | release r => exact r.step_valid h
  | yield y => exact y.step_valid h
  | reinit r =>
    cases r with
    | lockWord => exact g.mode.isValid_lockedWord
    | _ => exact h
  | store word => cases hc

end

end InterpreterLock.Gil
