import InterpreterLock.Proofs.Gil.Entries
import InterpreterLock.Proofs.Gil.Wakeup

/-!
# A yield gives somebody else a turn

A holder that has seen a waiter frees the word and waits. Until another thread takes the word,
nobody else has anything of the lock: so nobody counts an acquisition, and nobody who is enlisted
strikes himself off. A wait that ends because the count of acquisitions has changed, or because no
waiter is left, therefore ends after another thread has taken the word.
-/

set_option autoImplicit false

namespace InterpreterLock.Gil

inductive Stage
  | early
  | owing (before : Option UInt64)
  | away (before : UInt64)
  | back

namespace Yield

def stage : Yield → Stage
  | .checkHolder | .record | .lookForWaiters => .early
  | .readCount => .owing none
  | .prepare before => .owing (some before)
  | .release before _ .checkHolder | .release before _ .clearHolder
  | .release before _ .clearWord => .owing (some before)
  | .release before _ .lookForWaiters | .release before _ .signal
  | .setDeadline before _ => .away before
  | .compareCount watch _ | .recountWaiters watch _ | .readClock watch _ | .wait watch _
  | .renew watch => .away watch.before
  | .recordHandoff _ | .acquire _ => .back

def expires (t : Turn) : Yield → Bool
  | .readClock watch _ => watch.deadline ≤ t.now
  | _ => false

end Yield

def Call.expires (t : Turn) : Call → Bool
  | .yield y => y.expires t
  | _ => false

variable {t : Turn} {g : Gil} {inside : Bool}

theorem tryLock_acquisitions {g' : Gil} (h : g.tryLock = .ok (some g')) :
    g'.acquisitions = g.acquisitions := by
  rw [eq_of_tryLock h]

/-- Only the holder counts an acquisition. -/
theorem Acquire.step_acquisitions (inside : Bool) (a : Acquire) (h : a.hold inside ≠ .recorded) :
    (a.step t g).state.acquisitions = g.acquisitions := by
  cases a with
  | count route => exact absurd rfl h
  | record route => exact absurd rfl h
  | checkHolder =>
    simp only [step]
    split <;> rfl
  | tryWord =>
    simp only [step]
    split
    · exact tryLock_acquisitions ‹_›
    · rfl
    · rfl
  | retry start ticket =>
    simp only [step]
    split
    · exact tryLock_acquisitions ‹_›
    · rfl
    · rfl
  | _ => rfl

theorem Release.step_acquisitions (r : Release) :
    (r.step t g).state.acquisitions = g.acquisitions := by
  cases r with
  | clearHolder => rfl
  | signal => rfl
  | _ =>
    simp only [step]
    split <;> rfl

theorem Yield.step_acquisitions (inside : Bool) (y : Yield)
    (h : ∀ a, y = .acquire a → a.hold inside ≠ .recorded) :
    (y.step t g).state.acquisitions = g.acquisitions := by
  cases y with
  | release before ticket r => exact r.step_acquisitions
  | acquire a => exact a.step_acquisitions inside (h a rfl)
  | wait watch w => rfl
  | record => rfl
  | readCount => rfl
  | prepare before => rfl
  | renew watch => rfl
  | recordHandoff completed => rfl
  | _ =>
    simp only [step]
    split <;> rfl

theorem Call.step_acquisitions (c : Call) (h : c.hold inside = .out) :
    (c.step t g).state.acquisitions = g.acquisitions := by
  cases c with
  | acquire a =>
    apply a.step_acquisitions inside
    intro ha
    have hc : a.hold inside = .out := h
    rw [ha] at hc
    cases hc
  | release r => exact r.step_acquisitions
  | yield y =>
    apply y.step_acquisitions false
    rintro a rfl ha
    have hc : a.hold false = .out := h
    rw [ha] at hc
    cases hc
  | reinit r => cases r <;> rfl
  | store word => rfl

/-- A thread that has nothing of the lock makes no entry but its own. -/
theorem Acquire.entry_of_out (inside : Bool) (a : Acquire) (h : a.hold inside = .out)
    (hv : g.mode.isValid g.word = true) : a.entry g = .none ∨ a.entry g = .enlist := by
  cases a with
  | unlist start => cases h
  | enlist start => exact .inr rfl
  | retry start ticket => exact .inl (by simp [entry, hv])
  | _ => exact .inl rfl

theorem Call.entry_of_out (c : Call) (ho : c.isOrdinary = true) (h : c.hold inside = .out)
    (hv : g.mode.isValid g.word = true) : c.entry g = .none ∨ c.entry g = .enlist := by
  cases c with
  | acquire a => exact a.entry_of_out inside h hv
  | release r => exact .inl rfl
  | yield y =>
    cases y with
    | acquire a => exact a.entry_of_out false h hv
    | _ => exact .inl rfl
  | reinit r => cases ho
  | store word => cases ho

theorem Posts.stays {n n' : UInt64} {k : Entry} {b : Bool} (hp : Posts n k true n' b)
    (hk : k = .none ∨ k = .enlist) : b = true := by
  rcases hk with rfl | rfl
  · cases hp
    rfl
  · cases hp

theorem Shift.not_frees {me : Ident} {g' : Gil} {frees : Bool} {h h' : Hold}
    (hs : Shift me g g' true frees h h') : frees = false := by
  cases hs
  rfl

/-- A call that goes on as a yield is one. -/
theorem Call.of_next?_yield {c : Call} {y : Yield}
    (h : (c.step t g).progress.next? = some (.yield y)) :
    ∃ y0, c = .yield y0 ∧ (y0.step t g).progress = .going y := by
  cases c with
  | acquire a =>
    simp only [step] at h
    cases hp : (a.step t g).progress <;> rw [hp] at h <;> cases h
  | release r =>
    simp only [step] at h
    cases hp : (r.step t g).progress <;> rw [hp] at h <;> cases h
  | yield y0 =>
    simp only [step] at h
    cases hp : (y0.step t g).progress <;> rw [hp] at h <;> cases h
    exact ⟨y0, rfl, hp⟩
  | reinit r =>
    simp only [step] at h
    cases hp : (r.step t g).progress <;> rw [hp] at h <;> cases h
  | store word => cases h

theorem Shift.stays_out {me : Ident} {g' : Gil} {frees : Bool} {h : Hold}
    (hs : Shift me g g' false frees .out h) : h = .out := by
  cases hs
  rfl

theorem Call.word_of_takes {c : Call} (h : c.takes g = true) : g.word = Mode.freeWord := by
  have ha : ∀ a : Acquire, a.takes g = true → g.word = Mode.freeWord := by
    intro a hta
    cases a with
    | tryWord => exact beq_iff_eq.mp hta
    | retry start ticket => exact beq_iff_eq.mp hta
    | _ => cases hta
  cases c with
  | acquire a => exact ha a h
  | yield y =>
    cases y with
    | acquire a => exact ha a h
    | _ => cases h
  | _ => cases h

namespace System

structure Untaken (s : System) (i : Ident) (before : Option UInt64) : Prop where
  out : ∀ j, j ≠ i → s.hold j = .out
  waiter : ∃ j, j ≠ i ∧ (s.stance j).isEnlisted = true
  count : ∀ n, before = some n → s.gil.acquisitions = n

variable {s : System} {c : Call} {i j : Ident} {before : Option UInt64}

theorem hold_stepCall_of_ne (hj : j ≠ t.me) : (s.stepCall t c).hold j = s.hold j := by
  rw [hold_stepCall, Function.update_of_ne hj]

theorem stance_stepCall_of_ne (hj : j ≠ t.me) : (s.stepCall t c).stance j = s.stance j := by
  simp [stance, Parking.standing, hj]

theorem stance_of_call (hc : s.calls i = some c) : s.stance i = c.stance := by
  simp [stance, Parking.standing, hc]

theorem Orderly.not_takes (hs : s.Orderly) (hi : s.hold i ≠ .out) : c.takes s.gil = false := by
  rw [← Bool.not_eq_true]
  intro ht
  rcases hs.custody.word with ⟨-, hout⟩ | ⟨hw, -⟩
  · exact hi (hout i)
  · have hf := Call.word_of_takes ht
    rw [hw] at hf
    exact absurd hf (by decide)

/-- Who has nothing of the lock and does not take it has nothing afterwards. -/
theorem Orderly.stays_out (hs : s.Orderly) (hc : s.calls t.me = some c) (ho : s.hold t.me = .out)
    (ht : c.takes s.gil = false) : (s.stepCall t c).hold t.me = .out := by
  have hsh := hs.shift hc
  rw [ho, ht] at hsh
  exact hsh.stays_out

/-- Who is enlisted and has nothing of the lock stays enlisted. -/
theorem Orderly.stays_enlisted (hs : s.Orderly) (hc : s.calls t.me = some c)
    (ho : s.hold t.me = .out) (he : (s.stance t.me).isEnlisted = true) :
    ((s.stepCall t c).stance t.me).isEnlisted = true := by
  have hsh := hs.custody.shows t.me
  rw [hold_of_call hc] at ho
  rw [stance_of_call hc] at he
  have hp := (c.enters (t := t) (g := s.gil)).posts
  have ha : ((s.stepCall t c).stance t.me).isEnlisted =
      ((c.step t s.gil).progress.next?.map fun c' => c'.stance.isEnlisted).getD false := by
    simp only [stance, Parking.standing, stepCall_calls, Function.update_self]
    cases (c.step t s.gil).progress <;> rfl
  rw [ha]
  rw [he] at hp
  exact hp.stays (c.entry_of_out (hs.ordinary t.me c hc) ho hsh.valid)

theorem Untaken.other (hu : s.Untaken i before) (hs : s.Orderly) (hc : s.calls t.me = some c)
    (hi : t.me ≠ i) (ht : c.takes s.gil = false) : (s.stepCall t c).Untaken i before where
  out j hj := by
    by_cases hjm : j = t.me
    · rw [hjm]
      exact hs.stays_out hc (hu.out t.me hi) ht
    · rw [hold_stepCall_of_ne hjm]
      exact hu.out j hj
  waiter := by
    obtain ⟨j, hj, he⟩ := hu.waiter
    refine ⟨j, hj, ?_⟩
    by_cases hjm : j = t.me
    · subst hjm
      exact hs.stays_enlisted hc (hu.out t.me hi) he
    · rw [stance_stepCall_of_ne hjm]
      exact he
  count n hn := by
    have ho : c.hold (s.inside t.me) = .out := by
      rw [← hold_of_call hc]
      exact hu.out t.me hi
    rw [stepCall_gil, c.step_acquisitions ho]
    exact hu.count n hn

theorem Untaken.own (hu : s.Untaken t.me before)
    (ha : (c.step t s.gil).state.acquisitions = s.gil.acquisitions) :
    (s.stepCall t c).Untaken t.me before where
  out j hj := by
    rw [hold_stepCall_of_ne hj]
    exact hu.out j hj
  waiter := by
    obtain ⟨j, hj, he⟩ := hu.waiter
    refine ⟨j, hj, ?_⟩
    rw [stance_stepCall_of_ne hj]
    exact he
  count n hn := by
    rw [stepCall_gil, ha]
    exact hu.count n hn

/-- The holder that sees a waiter sees another thread. -/
theorem untaken_of_waiters (hs : s.Orderly) (hn : Parking.Counted s.gil.lot s.stance)
    (hi : s.hold i ≠ .out) (ha : s.stance i = .apart) (hw : s.gil.waiters ≠ 0) :
    s.Untaken i none where
  out j hj := by
    by_contra ho
    exact hj (hs.custody.one ho hi)
  waiter := by
    have hne : (Parking.enlisted s.stance).ncard ≠ 0 := by
      intro h0
      apply hw
      have hc : s.gil.waiters = UInt64.ofNat (Parking.enlisted s.stance).ncard := hn
      rw [hc, h0]
      rfl
    obtain ⟨j, hj⟩ := Set.nonempty_of_ncard_ne_zero hne
    have he : (s.stance j).isEnlisted = true := hj
    refine ⟨j, ?_, he⟩
    rintro rfl
    rw [ha] at he
    cases he
  count n hn := by cases hn

end System

/-- Threads at a lock, with those who have taken the word since a thread last freed it, the latest
first, and whether that thread has since read the clock at or past the deadline of its yield. -/
structure Chronicle where
  system : System
  takers : Ident → List Ident := fun _ => []
  expired : Ident → Bool := fun _ => false

namespace Chronicle

def start (mode : Mode) (backend : Backend) (patience : Duration) : Chronicle :=
  { system := .start mode backend patience }

def stepCall (h : Chronicle) (t : Turn) (c : Call) : Chronicle where
  system := h.system.stepCall t c
  takers :=
    if c.frees then Function.update h.takers t.me []
    else if c.takes h.system.gil then fun i => t.me :: h.takers i
    else h.takers
  expired :=
    if c.frees then Function.update h.expired t.me false
    else Function.update h.expired t.me (h.expired t.me || c.expires t)

def act (h : Chronicle) (a : Action) : Chronicle :=
  match a with
  | .step t =>
    match h.system.calls t.me with
    | none => h
    | some c => h.stepCall t c
  | .begin .. | .rouse _ => { h with system := h.system.act a }

def run (h : Chronicle) (acts : List Action) : Chronicle := acts.foldl act h

theorem act_system (h : Chronicle) (a : Action) : (h.act a).system = h.system.act a := by
  cases a with
  | step t => cases hc : h.system.calls t.me <;> simp [act, System.act, hc, stepCall]
  | _ => rfl

theorem run_system (h : Chronicle) (acts : List Action) :
    (h.run acts).system = h.system.run acts :=
  (List.foldl_hom Chronicle.system fun h a => (act_system h a).symm).symm

def Passed (h : Chronicle) (i : Ident) : Prop := ∃ j ∈ h.takers i, j ≠ i

def Expects (h : Chronicle) (i : Ident) : Stage → Prop
  | .early => True
  | .owing before => h.system.Untaken i before
  | .away before => h.expired i = false ∧ (h.Passed i ∨ h.system.Untaken i (some before))
  | .back => h.expired i = true ∨ h.Passed i

structure Fair (h : Chronicle) : Prop where
  orderly : h.system.Orderly
  counted : Parking.Counted h.system.gil.lot h.system.stance
  expects : ∀ i y, h.system.calls i = some (.yield y) → h.Expects i y.stage

variable {h : Chronicle} {c : Call} {i : Ident}

theorem Passed.step (hp : h.Passed i) (hf : c.frees = true → i ≠ t.me) :
    (h.stepCall t c).Passed i := by
  obtain ⟨j, hj, hne⟩ := hp
  refine ⟨j, ?_, hne⟩
  simp only [stepCall]
  split
  · rw [Function.update_of_ne (hf ‹_›)]
    exact hj
  · split
    · exact List.mem_cons_of_mem _ hj
    · exact hj

theorem passed_of_takes (hi : t.me ≠ i) (hf : c.frees = false) (ht : c.takes h.system.gil = true) :
    (h.stepCall t c).Passed i := by
  refine ⟨t.me, ?_, hi⟩
  simp [stepCall, hf, ht]

theorem Expects.owing {before : Option UInt64} (he : h.Expects t.me (.owing before))
    (ha : (c.step t h.system.gil).state.acquisitions = h.system.gil.acquisitions) :
    (h.stepCall t c).Expects t.me (.owing before) :=
  System.Untaken.own he ha

theorem Expects.away {before : UInt64} (he : h.Expects t.me (.away before))
    (hf : c.frees = false) (hx : c.expires t = false)
    (ha : (c.step t h.system.gil).state.acquisitions = h.system.gil.acquisitions) :
    (h.stepCall t c).Expects t.me (.away before) := by
  obtain ⟨hn, hp | hu⟩ := he
  · exact ⟨by simp [stepCall, hf, hn, hx], .inl (hp.step (by simp [hf]))⟩
  · exact ⟨by simp [stepCall, hf, hn, hx], .inr (hu.own ha)⟩

theorem Expects.back (he : h.Expects t.me .back) (hf : c.frees = false) :
    (h.stepCall t c).Expects t.me .back := by
  rcases he with hx | hp
  · exact .inl (by simp [stepCall, hf, hx])
  · exact .inr (hp.step (by simp [hf]))

/-- A wait that ends before its deadline ends after another thread has taken the word. -/
theorem Fair.passed (hf : h.Fair) {y : Yield} (hc : h.system.calls t.me = some (.yield y))
    {completed : Bool}
    (hp : (y.step t h.system.gil).progress = .going (.recordHandoff completed))
    (hx : y.expires t = false) : h.Passed t.me := by
  have he := hf.expects t.me y hc
  cases y with
  | compareCount watch ticket =>
    by_cases ha : h.system.gil.acquisitions = watch.before
    · simp [Yield.step, ha] at hp
    · rcases he.2 with hpass | hu
      · exact hpass
      · exact absurd (hu.count _ rfl) ha
  | recountWaiters watch ticket =>
    by_cases hw : h.system.gil.waiters = 0
    · rcases he.2 with hpass | hu
      · exact hpass
      · obtain ⟨j, -, hj⟩ := hu.waiter
        rw [hf.counted.none_enlisted hw j] at hj
        cases hj
    · simp [Yield.step, hw] at hp
  | readClock watch ticket =>
    have hd : ¬watch.deadline ≤ t.now := by simpa [Yield.expires] using hx
    simp [Yield.step, hd] at hp
  | release before ticket r =>
    simp only [Yield.step] at hp
    cases hr : (r.step t h.system.gil).progress <;> simp [hr, Progress.within] at hp
  | acquire a =>
    simp only [Yield.step] at hp
    cases hr : (a.step t h.system.gil).progress <;> simp [hr, Progress.within] at hp
  | wait watch w =>
    simp only [Yield.step] at hp
    cases hr : (w.step t h.system.gil.handoff).2 <;> simp [hr, Progress.within] at hp
  | setDeadline before ticket =>
    simp only [Yield.step] at hp
    split at hp <;> cases hp
  | checkHolder =>
    simp only [Yield.step] at hp
    split at hp <;> cases hp
  | lookForWaiters =>
    simp only [Yield.step] at hp
    split at hp <;> cases hp
  | record => cases hp
  | readCount => cases hp
  | prepare before => cases hp
  | renew watch => cases hp
  | recordHandoff completed => cases hp

theorem yield_acquisitions {y : Yield} (hy : ∀ a, y ≠ .acquire a) :
    ((Call.yield y).step t g).state.acquisitions = g.acquisitions :=
  y.step_acquisitions false fun a ha => absurd ha (hy a)

/-- The thread relies on nobody having taken the word until it frees it, and from then on on
nobody having taken it unless another thread did. -/
theorem Expects.release {before : UInt64} {ticket : Ticket} {r : Release} {y' : Yield}
    (he : h.Expects t.me (Yield.release before ticket r).stage)
    (hp : ((Yield.release before ticket r).step t h.system.gil).progress = .going y') :
    (h.stepCall t (.yield (.release before ticket r))).Expects t.me y'.stage := by
  have hs := yield_acquisitions (t := t) (g := h.system.gil)
    (y := .release before ticket r) (by simp)
  cases r with
  | checkHolder =>
    simp only [Yield.step, Release.step] at hp
    split at hp <;> cases hp
    exact Expects.owing he hs
  | clearHolder =>
    cases hp
    exact Expects.owing he hs
  | clearWord =>
    simp only [Yield.step, Release.step] at hp
    split at hp <;> cases hp
    have hu : h.system.Untaken t.me (some before) := he
    exact ⟨by simp [stepCall, Call.frees, Yield.frees, Release.frees], .inr (hu.own hs)⟩
  | lookForWaiters =>
    simp only [Yield.step, Release.step] at hp
    split at hp <;> cases hp
    · exact Expects.away he rfl rfl hs
    · exact Expects.away he rfl rfl hs
  | signal =>
    cases hp
    exact Expects.away he rfl rfl hs

/-- A thread that has freed the word goes on waiting, or its wait ends. -/
theorem Fair.waiting (hf : h.Fair) {y y' : Yield} {watch : Watch}
    (hy : (∃ ticket, y = .compareCount watch ticket ∨ y = .recountWaiters watch ticket ∨
      y = .readClock watch ticket) ∨ (∃ w, y = .wait watch w) ∨ y = .renew watch)
    (hc : h.system.calls t.me = some (.yield y))
    (hp : (y.step t h.system.gil).progress = .going y') :
    (h.stepCall t (.yield y)).Expects t.me y'.stage := by
  have he := hf.expects t.me y hc
  rcases hy with ⟨ticket, rfl | rfl | rfl⟩ | ⟨w, rfl⟩ | rfl
  · have hs := yield_acquisitions (t := t) (g := h.system.gil)
      (y := .compareCount watch ticket) (by simp)
    by_cases ha : h.system.gil.acquisitions = watch.before
    · simp only [Yield.step, ha, ne_eq, not_true_eq_false, if_false] at hp
      cases hp
      exact Expects.away he rfl rfl hs
    · have hn : (Yield.step t h.system.gil (.compareCount watch ticket)).progress =
          .going (.recordHandoff true) := by simp [Yield.step, ha]
      rw [hn] at hp
      cases hp
      exact .inr ((hf.passed hc hn rfl).step (by simp [Call.frees, Yield.frees]))
  · have hs := yield_acquisitions (t := t) (g := h.system.gil)
      (y := .recountWaiters watch ticket) (by simp)
    by_cases hw : h.system.gil.waiters = 0
    · have hn : (Yield.step t h.system.gil (.recountWaiters watch ticket)).progress =
          .going (.recordHandoff false) := by simp [Yield.step, hw]
      rw [hn] at hp
      cases hp
      exact .inr ((hf.passed hc hn rfl).step (by simp [Call.frees, Yield.frees]))
    · simp only [Yield.step, hw, if_false] at hp
      cases hp
      exact Expects.away he rfl rfl hs
  · have hs := yield_acquisitions (t := t) (g := h.system.gil)
      (y := .readClock watch ticket) (by simp)
    by_cases hd : watch.deadline ≤ t.now
    · simp only [Yield.step, hd, if_true] at hp
      cases hp
      exact .inl (by simp [stepCall, Call.frees, Yield.frees, Call.expires, Yield.expires, hd])
    · simp only [Yield.step, hd, if_false] at hp
      cases hp
      exact Expects.away he rfl (by simp [Call.expires, Yield.expires, hd]) hs
  · have hs := yield_acquisitions (t := t) (g := h.system.gil) (y := .wait watch w) (by simp)
    simp only [Yield.step] at hp
    cases hr : (w.step t h.system.gil.handoff).2 <;> rw [hr] at hp <;> cases hp
    · exact Expects.away he rfl rfl hs
    · exact Expects.away he rfl rfl hs
  · cases hp
    exact Expects.away he rfl rfl (yield_acquisitions (by simp))

/-- What the yielder relies on is there after each of its own steps. -/
theorem Fair.own (hf : h.Fair) {y y' : Yield} (hc : h.system.calls t.me = some (.yield y))
    (hp : (y.step t h.system.gil).progress = .going y') :
    (h.stepCall t (.yield y)).Expects t.me y'.stage := by
  have he := hf.expects t.me y hc
  cases y with
  | checkHolder =>
    simp only [Yield.step] at hp
    split at hp <;> cases hp
    trivial
  | record =>
    cases hp
    trivial
  | lookForWaiters =>
    by_cases hw : h.system.gil.waiters = 0
    · simp [Yield.step, hw] at hp
    · simp only [Yield.step, hw, if_false] at hp
      cases hp
      have hh : h.system.hold t.me = .recorded := System.hold_of_call hc
      have hu : h.system.Untaken t.me none :=
        System.untaken_of_waiters hf.orderly hf.counted (by simp [hh])
          (System.stance_of_call hc) hw
      exact hu.own (yield_acquisitions (by simp))
  | readCount =>
    cases hp
    have hu : h.system.Untaken t.me none := he
    have hown := hu.own (yield_acquisitions (t := t) (y := .readCount) (by simp))
    exact ⟨hown.out, hown.waiter, fun n hn => Option.some.inj hn⟩
  | prepare before =>
    cases hp
    exact Expects.owing he (yield_acquisitions (by simp))
  | release before ticket r => exact Expects.release he hp
  | setDeadline before ticket =>
    have hs := yield_acquisitions (t := t) (g := h.system.gil)
      (y := .setDeadline before ticket) (by simp)
    simp only [Yield.step] at hp
    split at hp <;> cases hp
    exact Expects.away he rfl rfl hs
  | compareCount watch ticket => exact hf.waiting (.inl ⟨ticket, .inl rfl⟩) hc hp
  | recountWaiters watch ticket => exact hf.waiting (.inl ⟨ticket, .inr (.inl rfl)⟩) hc hp
  | readClock watch ticket => exact hf.waiting (.inl ⟨ticket, .inr (.inr rfl)⟩) hc hp
  | wait watch w => exact hf.waiting (.inr (.inl ⟨w, rfl⟩)) hc hp
  | renew watch => exact hf.waiting (.inr (.inr rfl)) hc hp
  | recordHandoff completed =>
    cases hp
    exact Expects.back he rfl
  | acquire a =>
    simp only [Yield.step] at hp
    cases hr : (a.step t h.system.gil).progress <;> rw [hr] at hp <;> cases hp
    exact Expects.back he rfl

theorem hold_of_owing {y : Yield} {before : Option UInt64} (hy : y.stage = .owing before) :
    y.hold inside ≠ .out := by
  cases y with
  | release b ticket r => cases r <;> simp_all [Yield.stage, Yield.hold, Release.hold, Hold.ofInside]
  | _ => simp_all [Yield.stage, Yield.hold]

/-- The step of another thread leaves what a yielder relies on, or it takes the word. -/
theorem Fair.other (hf : h.Fair) (hc : h.system.calls t.me = some c) {y : Yield}
    (hy : h.system.calls i = some (.yield y)) (hi : t.me ≠ i) :
    (h.stepCall t c).Expects i y.stage := by
  have he := hf.expects i y hy
  have hx : (h.stepCall t c).expired i = h.expired i := by
    simp only [stepCall]
    split <;> rw [Function.update_of_ne hi.symm]
  have hpass : h.Passed i → (h.stepCall t c).Passed i := fun hp => hp.step fun _ => hi.symm
  cases hst : y.stage with
  | early => trivial
  | owing before =>
    rw [hst] at he
    have hh : h.system.hold i ≠ .out := by
      rw [System.hold_of_call hy]
      exact hold_of_owing hst
    exact System.Untaken.other he hf.orderly hc hi (hf.orderly.not_takes hh)
  | away before =>
    rw [hst] at he
    refine ⟨hx.trans he.1, ?_⟩
    rcases he.2 with hp | hu
    · exact .inl (hpass hp)
    · cases ht : c.takes h.system.gil with
      | false => exact .inr (hu.other hf.orderly hc hi ht)
      | true =>
        refine .inl (passed_of_takes hi ?_ ht)
        have hsh := hf.orderly.shift hc
        rw [ht] at hsh
        exact hsh.not_frees
  | back =>
    rw [hst] at he
    rcases he with hex | hp
    · exact .inl (hx.trans hex)
    · exact .inr (hpass hp)

theorem Fair.stepCall (hf : h.Fair) (hc : h.system.calls t.me = some c) :
    (h.stepCall t c).Fair where
  orderly := hf.orderly.stepCall hc
  counted := by
    have hs : (h.system.stepCall t c).stance = Function.update h.system.stance t.me _ :=
      Parking.standing_update Call.stance h.system.calls t.me _
    have hn := hf.counted.step (hf.orderly.parking hc) rfl
    rw [← hs] at hn
    exact hn
  expects i y hy := by
    by_cases hi : t.me = i
    · subst hi
      have hn : (c.step t h.system.gil).progress.next? = some (.yield y) := by
        simpa [Chronicle.stepCall] using hy
      obtain ⟨y0, rfl, hp⟩ := Call.of_next?_yield hn
      exact hf.own hc hp
    · have hy' : h.system.calls i = some (.yield y) := by
        simpa [Chronicle.stepCall, Function.update_of_ne (Ne.symm hi)] using hy
      exact hf.other hc hy' hi

theorem fair_start (mode : Mode) (backend : Backend) (patience : Duration) :
    (start mode backend patience).Fair where
  orderly := System.orderly_start mode backend patience
  counted := (Parking.sound_new backend true fun _ => 0).counted
  expects i y hy := by cases hy

/-- What a yielder relies on concerns the holds, the enlisted threads and the count only. -/
theorem Expects.frame {s : System} {stage : Stage} (he : h.Expects i stage)
    (hs : s.hold = h.system.hold) (ht : s.stance = h.system.stance)
    (ha : s.gil.acquisitions = h.system.gil.acquisitions) :
    Expects { h with system := s } i stage := by
  have hu : ∀ before, h.system.Untaken i before → s.Untaken i before :=
    fun before hu => ⟨hs ▸ hu.out, ht ▸ hu.waiter, ha ▸ hu.count⟩
  cases stage with
  | early => trivial
  | owing before => exact hu before he
  | away before => exact ⟨he.1, he.2.imp (fun hp => hp) (hu _)⟩
  | back => exact he

theorem Fair.begin (hf : h.Fair) {op : Op} (ho : op.isOrdinary = true)
    (hc : h.system.calls i = none) :
    Fair { h with system := h.system.beginCall i op.call } := by
  have hs := System.hold_begin (s := h.system) ho hc
  have ht : (h.system.beginCall i op.call).stance = h.system.stance :=
    Parking.standing_begin Call.stance h.system.calls i op.call hc (Op.stance_call ho)
  refine ⟨hf.orderly.begin ho hc, ?_, ?_⟩
  · simp only [ht]
    exact hf.counted
  · intro j y hy
    by_cases hj : j = i
    · have hop : op.call = .yield y := by simpa [hj] using hy
      have hst : y.stage = .early := by
        rcases Op.call_cases ho with h | h | h <;> rw [h] at hop <;> cases hop
        rfl
      rw [hst]
      trivial
    · have hy' : h.system.calls j = some (.yield y) := by simpa [hj] using hy
      exact (hf.expects j y hy').frame hs ht rfl

theorem Fair.act (hf : h.Fair) (a : Action) (ha : a.isOrdinary = true) : (h.act a).Fair := by
  cases a with
  | begin i op =>
    cases hc : h.system.calls i with
    | none =>
      simp only [Chronicle.act, System.act, hc]
      exact hf.begin ha hc
    | some c =>
      simp only [Chronicle.act, System.act, hc]
      exact hf
  | step t =>
    cases hc : h.system.calls t.me with
    | none =>
      simp only [Chronicle.act, hc]
      exact hf
    | some c =>
      simp only [Chronicle.act, hc]
      exact hf.stepCall hc
  | rouse i =>
    refine ⟨hf.orderly.act (.rouse i) rfl, hf.counted, ?_⟩
    intro j y hy
    exact (hf.expects j y hy).frame rfl rfl rfl

theorem fair_run (mode : Mode) (backend : Backend) (patience : Duration) (acts : List Action)
    (ha : ∀ a ∈ acts, a.isOrdinary = true) : ((start mode backend patience).run acts).Fair :=
  Run.always (P := Fair) (fun _ a hf ha => hf.act a ha) acts _
    (fair_start mode backend patience) ha

structure GivesTurns (h : Chronicle) : Prop where
  ends : ∀ t y completed, h.system.calls t.me = some (.yield y) →
    (y.step t h.system.gil).progress = .going (.recordHandoff completed) →
    y.expires t = false → ∃ j ∈ h.takers t.me, j ≠ t.me
  returns : ∀ i y, h.system.calls i = some (.yield y) →
    (∃ completed, y = .recordHandoff completed) ∨ (∃ a, y = .acquire a) →
    h.expired i = true ∨ ∃ j ∈ h.takers i, j ≠ i

/-- Any number of threads, in any interleaving of their steps. -/
theorem gives_turns_run (mode : Mode) (backend : Backend) (patience : Duration)
    (acts : List Action) (ha : ∀ a ∈ acts, a.isOrdinary = true) :
    ((start mode backend patience).run acts).GivesTurns := by
  have hf := fair_run mode backend patience acts ha
  constructor
  · intro t y completed hc hp hx
    exact hf.passed hc hp hx
  · rintro i y hc (⟨completed, rfl⟩ | ⟨a, rfl⟩)
    · exact hf.expects i _ hc
    · exact hf.expects i _ hc

/-- A thread parks, the holder yields, and the waiter takes the word before the holder looks. -/
theorem gives_turns_run_contended :
    let a : Ident := ⟨1, by decide⟩
    let b : Ident := ⟨2, by decide⟩
    let steps i n : List Action := List.replicate n (.step { me := i, now := ⟨0⟩ })
    let acts := .begin a .acquire :: steps a 5 ++ .begin b .acquire :: steps b 8 ++
      .begin a .yield :: steps a 10 ++ steps b 7 ++ steps a 1
    let h := (start .generic .posix defaultPatience).run acts
    let y := Yield.compareCount ⟨1, ⟨5000000⟩⟩ ⟨0, 0⟩
    (∀ act ∈ acts, act.isOrdinary = true) ∧ h.system.calls a = some (.yield y) ∧
      (y.step { me := a, now := ⟨0⟩ } h.system.gil).progress = .going (.recordHandoff true) ∧
      h.GivesTurns ∧ h.takers a = [b] :=
  ⟨by decide, by decide, rfl, gives_turns_run _ _ _ _ (by decide), by decide⟩

end Chronicle

end InterpreterLock.Gil
