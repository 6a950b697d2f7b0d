import InterpreterLock.Proofs.Counters
import InterpreterLock.Proofs.Gil.Handoff

/-!
# Who tells a yielder

A yielder sleeps on the handoff event until it is told that somebody else got in. A thread that got
the lock on the contended path tells it, and no such broadcast is lost: the yielder takes its ticket
before it frees the word, or before it looks at the count again. A thread that found the word free
tells nobody, and a yielder that is asleep by then sleeps on.
-/

set_option autoImplicit false

namespace InterpreterLock

namespace Gil

inductive Telling
  | silent
  | due
  | told
deriving DecidableEq

def Telling.ofRoute : Route → Telling
  | .fast => .silent
  | .contended _ => .due

structure Arrival where
  who : Ident
  telling : Telling
deriving DecidableEq

inductive Tidings
  | none
  | frees
  | asks
  | arrives (route : Route)
  | announces
deriving DecidableEq

def Acquire.tidings : Acquire → Tidings
  | .count route => .arrives route
  | .announce _ => .announces
  | _ => .none

def Release.tidings : Release → Tidings
  | .clearWord => .frees
  | _ => .none

namespace Yield

def tidings : Yield → Tidings
  | .release _ _ r => r.tidings
  | .prepare _ | .renew _ => .asks
  | .acquire a => a.tidings
  | _ => .none

def ticket? : Yield → Option Ticket
  | .release _ ticket _ | .setDeadline _ ticket | .compareCount _ ticket
  | .recountWaiters _ ticket | .readClock _ ticket => some ticket
  | .wait _ w => some w.ticket
  | _ => none

def hasCompared : Yield → Bool
  | .recountWaiters .. | .readClock .. | .wait .. => true
  | _ => false

def isAsleep : Yield → Bool
  | .wait _ (.asleep ..) => true
  | _ => false

end Yield

def Call.isAsleep : Call → Bool
  | .yield y => y.isAsleep
  | _ => false

def Call.tidings : Call → Tidings
  | .acquire a => a.tidings
  | .release r => r.tidings
  | .yield y => y.tidings
  | .reinit _ | .store _ => .none

def Tidings.arrivals : Tidings → UInt64
  | .arrives _ => 1
  | _ => 0

def Tidings.broadcasts : Tidings → ℕ
  | .announces => 1
  | _ => 0

variable {t : Turn} {g : Gil}

theorem Acquire.step_counts (a : Acquire) :
    (a.step t g).state.acquisitions = g.acquisitions + a.tidings.arrivals := by
  cases a with
  | count route => cases route <;> rfl
  | record route => cases route <;> exact (UInt64.add_zero _).symm
  | announce start => exact (UInt64.add_zero _).symm
  | checkHolder =>
    simp only [step]
    split <;> exact (UInt64.add_zero _).symm
  | _ => exact (Acquire.step_acquisitions false _ (by simp [hold])).trans (UInt64.add_zero _).symm

theorem Release.tidings_arrivals (r : Release) : r.tidings.arrivals = 0 := by
  cases r <;> rfl

theorem Call.step_counts (c : Call) :
    (c.step t g).state.acquisitions = g.acquisitions + c.tidings.arrivals := by
  cases c with
  | acquire a => exact a.step_counts
  | release r =>
    rw [tidings, r.tidings_arrivals, UInt64.add_zero]
    exact r.step_acquisitions
  | yield y =>
    cases y with
    | acquire a => exact a.step_counts
    | release before ticket r =>
      rw [tidings, Yield.tidings, r.tidings_arrivals, UInt64.add_zero]
      exact r.step_acquisitions
    | _ => exact (Chronicle.yield_acquisitions (by simp)).trans (UInt64.add_zero _).symm
  | reinit r => cases r <;> exact (UInt64.add_zero _).symm
  | store word => exact (UInt64.add_zero _).symm

theorem tryLock_handoff {g' : Gil} (h : g.tryLock = .ok (some g')) : g'.handoff = g.handoff := by
  rw [eq_of_tryLock h]

theorem Acquire.step_handoff (a : Acquire) :
    (a.step t g).state.handoff =
      if a.tidings = .announces then g.handoff.signalAll else g.handoff := by
  cases a with
  | count route => cases route <;> rfl
  | record route => cases route <;> rfl
  | checkHolder =>
    simp only [step]
    split <;> rfl
  | tryWord =>
    simp only [step]
    split
    · exact tryLock_handoff ‹_›
    · rfl
    · rfl
  | retry start ticket =>
    simp only [step]
    split
    · exact tryLock_handoff ‹_›
    · rfl
    · rfl
  | _ => rfl

theorem Release.step_handoff (r : Release) :
    (r.step t g).state.handoff =
      if r.tidings = .announces then g.handoff.signalAll else g.handoff := by
  cases r with
  | clearHolder => rfl
  | signal => rfl
  | _ =>
    simp only [step]
    split <;> rfl

/-- Only a yielder that waits and a thread that tells yielders touch the handoff event. -/
theorem Call.step_handoff (c : Call) :
    (c.step t g).state.handoff =
      match c with
      | .yield (.wait _ w) => (w.step t g.handoff).1
      | _ => if c.tidings = .announces then g.handoff.signalAll else g.handoff := by
  cases c with
  | acquire a => exact a.step_handoff
  | release r => exact r.step_handoff
  | yield y =>
    cases y with
    | acquire a => exact a.step_handoff
    | release before ticket r => exact r.step_handoff
    | record => rfl
    | readCount => rfl
    | prepare before => rfl
    | wait watch w => rfl
    | renew watch => rfl
    | recordHandoff completed => rfl
    | _ =>
      simp only [step, Yield.step]
      split <;> rfl
  | reinit r => cases r <;> rfl
  | store word => rfl

theorem Call.step_prepare (c : Call) :
    (c.step t g).state.handoff.prepare.signals =
      g.handoff.prepare.signals + UInt64.ofNat c.tidings.broadcasts := by
  rw [c.step_handoff]
  split
  · rw [Wait.prepare_step]
    exact (UInt64.add_zero _).symm
  · by_cases ha : c.tidings = .announces
    · rw [if_pos ha, ha]
      exact g.handoff.signals.ticket_afterSignalAll
    · have hzero : c.tidings.broadcasts = 0 := by
        cases hc : c.tidings <;> simp_all [Tidings.broadcasts]
      rw [if_neg ha, hzero]
      exact (UInt64.add_zero _).symm

theorem Call.sleeper_of_step {i : Ident} (c : Call) (hi : i ≠ t.me)
    (h : i ∈ (c.step t g).state.handoff.sleepers) :
    c.tidings ≠ .announces ∧ i ∈ g.handoff.sleepers := by
  rw [c.step_handoff] at h
  split at h
  · exact ⟨nofun, Wait.sleeper_of_step hi h⟩
  · by_cases ha : c.tidings = .announces
    · rw [if_pos ha] at h
      cases h
    · rw [if_neg ha] at h
      exact ⟨ha, h⟩

theorem Release.tidings_ne_arrives (r : Release) (route : Route) : r.tidings ≠ .arrives route := by
  cases r <;> nofun

/-- Who has contended and counts its acquisition tells it in the next step. -/
theorem Call.announces_of_arrives {c : Call} {start : Instant}
    (h : c.tidings = .arrives (.contended start)) :
    ∃ c', (c.step t g).progress.next? = some c' ∧ c'.tidings = .announces := by
  cases c with
  | acquire a =>
    cases a with
    | count route =>
      cases h
      exact ⟨_, rfl, rfl⟩
    | _ => cases h
  | yield y =>
    cases y with
    | acquire a =>
      cases a with
      | count route =>
        cases h
        exact ⟨_, rfl, rfl⟩
      | _ => cases h
    | release before ticket r => exact absurd h (r.tidings_ne_arrives _)
    | _ => cases h
  | release r => exact absurd h (r.tidings_ne_arrives _)
  | _ => cases h

/-- A chronicle with a `log` of the acquisitions counted since a thread last freed the word, the latest
first, and how often the handoff event was broadcast, `unheard` by it, since it took its ticket. -/
structure Arrivals where
  chronicle : Chronicle
  log : Ident → List Arrival := fun _ => []
  unheard : Ident → ℕ := fun _ => 0

def Arrival.toldBy (me : Ident) (a : Arrival) : Arrival :=
  if a.who = me ∧ a.telling = .due then { a with telling := .told } else a

namespace Arrivals

def start (mode : Mode) (backend : Backend) (patience : Duration) : Arrivals :=
  { chronicle := .start mode backend patience }

def system (h : Arrivals) : System := h.chronicle.system

def stepCall (h : Arrivals) (t : Turn) (c : Call) : Arrivals where
  chronicle := h.chronicle.stepCall t c
  log :=
    match c.tidings with
    | .frees => Function.update h.log t.me []
    | .arrives route => fun i => ⟨t.me, .ofRoute route⟩ :: h.log i
    | .announces => fun i => (h.log i).map (·.toldBy t.me)
    | .none | .asks => h.log
  unheard :=
    match c.tidings with
    | .asks => Function.update h.unheard t.me 0
    | .announces => fun i => h.unheard i + 1
    | .none | .frees | .arrives _ => h.unheard

def act (h : Arrivals) (a : Action) : Arrivals :=
  match a with
  | .step t =>
    match h.system.calls t.me with
    | none => h
    | some c => h.stepCall t c
  | .begin .. | .rouse _ => { h with chronicle := h.chronicle.act a }

def run (h : Arrivals) (acts : List Action) : Arrivals := acts.foldl act h

def Announces (h : Arrivals) (i : Ident) : Prop :=
  ∃ c, h.system.calls i = some c ∧ c.tidings = .announces

structure Informs (h : Arrivals) (i : Ident) (y : Yield) : Prop where
  count : ∀ before, y.stage = .away before →
    h.system.gil.acquisitions = before + UInt64.ofNat (h.log i).length ∧
      ∀ a ∈ h.log i, a.who ≠ i
  ticket : ∀ ticket, y.ticket? = some ticket →
    h.system.gil.handoff.prepare.signals = ticket.signals + UInt64.ofNat (h.unheard i)
  told : y.hasCompared = true → ∀ a ∈ h.log i, a.telling = .told → 0 < h.unheard i
  asleep : y.isAsleep = true → i ∈ h.system.gil.handoff.sleepers → h.unheard i = 0

structure Kept (h : Arrivals) : Prop where
  fair : h.chronicle.Fair
  informs : ∀ i y, h.system.calls i = some (.yield y) → h.Informs i y
  due : ∀ i, ∀ a ∈ h.log i, a.telling = .due → h.Announces a.who

/-- Nobody has missed so many arrivals or broadcasts that a machine word comes round. -/
def Timely (h : Arrivals) : Prop := ∀ i, (h.log i).length < 2 ^ 64 ∧ h.unheard i < 2 ^ 64

variable {h : Arrivals} {c : Call} {i : Ident}

theorem system_stepCall : (h.stepCall t c).system = h.system.stepCall t c := rfl

/-- The step of another thread lengthens the log of a thread by what it counts. -/
theorem length_log_of_ne (hi : i ≠ t.me) :
    UInt64.ofNat ((h.stepCall t c).log i).length =
      UInt64.ofNat (h.log i).length + c.tidings.arrivals := by
  cases hc : c.tidings with
  | arrives route => simp [stepCall, hc, Tidings.arrivals, UInt64.ofNat_add]
  | _ => simp [stepCall, hc, hi, Tidings.arrivals]

theorem unheard_of_ne (hi : i ≠ t.me) :
    (h.stepCall t c).unheard i = h.unheard i + c.tidings.broadcasts := by
  cases hc : c.tidings with
  | asks => simp [stepCall, hc, hi, Tidings.broadcasts]
  | _ => simp [stepCall, hc, Tidings.broadcasts]

/-- An entry of a log is one from before, unless it has just been made; what is told of it may
have changed. -/
theorem mem_log_stepCall {a : Arrival} (ha : a ∈ (h.stepCall t c).log i) :
    (∃ route, c.tidings = .arrives route ∧ a = ⟨t.me, .ofRoute route⟩) ∨
      (c.tidings = .announces ∧ ∃ b ∈ h.log i, a = b.toldBy t.me) ∨
      (c.tidings ≠ .announces ∧ a ∈ h.log i) := by
  cases hc : c.tidings with
  | arrives route =>
    simp only [stepCall, hc, List.mem_cons] at ha
    rcases ha with rfl | ha
    · exact .inl ⟨route, rfl, rfl⟩
    · exact .inr (.inr ⟨nofun, ha⟩)
  | announces =>
    simp only [stepCall, hc, List.mem_map] at ha
    obtain ⟨b, hb, rfl⟩ := ha
    exact .inr (.inl ⟨rfl, b, hb, rfl⟩)
  | frees =>
    simp only [stepCall, hc] at ha
    by_cases hi : i = t.me
    · simp [hi] at ha
    · rw [Function.update_of_ne hi] at ha
      exact .inr (.inr ⟨nofun, ha⟩)
  | none => exact .inr (.inr ⟨nofun, by simpa [stepCall, hc] using ha⟩)
  | asks => exact .inr (.inr ⟨nofun, by simpa [stepCall, hc] using ha⟩)

theorem who_toldBy (me : Ident) (a : Arrival) : (a.toldBy me).who = a.who := by
  unfold Arrival.toldBy
  split <;> rfl

theorem due_of_toldBy {me : Ident} {a : Arrival} (h : (a.toldBy me).telling = .due) :
    a.telling = .due ∧ a.who ≠ me := by
  unfold Arrival.toldBy at h
  split at h
  · cases h
  · rename_i hn
    exact ⟨h, fun hw => hn ⟨hw, h⟩⟩

theorem Informs.other {y : Yield} (hy : h.Informs i y) (hi : i ≠ t.me) :
    (h.stepCall t c).Informs i y where
  count before hs := by
    obtain ⟨hcount, hwho⟩ := hy.count before hs
    constructor
    · rw [system_stepCall, System.stepCall_gil, c.step_counts, hcount, length_log_of_ne hi,
        UInt64.add_assoc]
    · intro a ha
      rcases mem_log_stepCall ha with ⟨route, -, rfl⟩ | ⟨-, b, hb, rfl⟩ | ⟨-, ha⟩
      · exact hi.symm
      · rw [who_toldBy]
        exact hwho b hb
      · exact hwho a ha
  ticket ticket ht := by
    rw [system_stepCall, System.stepCall_gil, c.step_prepare, hy.ticket ticket ht,
      unheard_of_ne hi, UInt64.ofNat_add, UInt64.add_assoc]
  told hcmp a ha htold := by
    rw [unheard_of_ne hi]
    rcases mem_log_stepCall ha with ⟨route, -, rfl⟩ | ⟨hc, -⟩ | ⟨-, ha⟩
    · cases route <;> cases htold
    · rw [hc, Tidings.broadcasts]
      exact Nat.succ_pos _
    · exact Nat.add_pos_left (hy.told hcmp a ha htold) _
  asleep hsl hmem := by
    obtain ⟨hc, hmem⟩ := c.sleeper_of_step hi hmem
    rw [unheard_of_ne hi, hy.asleep hsl hmem]
    cases ht : c.tidings with
    | announces => exact absurd ht hc
    | _ => rfl

/-- The yielder goes on with the ticket that it has, and no further than it had come. -/
theorem Informs.carry {y y' : Yield} (hy : h.Informs t.me y) (hq : y.tidings = .none)
    (hs : ∀ before, y'.stage = .away before → y.stage = .away before)
    (ht : ∀ ticket, y'.ticket? = some ticket → y.ticket? = some ticket)
    (hc : y'.hasCompared = true →
      y.hasCompared = true ∨ ∀ a ∈ h.log t.me, a.telling ≠ .told)
    (ha : y'.isAsleep = true → h.unheard t.me = 0 ∨
      y.isAsleep = true ∧ (h.stepCall t (.yield y)).system.gil.handoff = h.system.gil.handoff) :
    (h.stepCall t (.yield y)).Informs t.me y' := by
  have hqc : (Call.yield y).tidings = .none := hq
  have hlog : (h.stepCall t (.yield y)).log t.me = h.log t.me := by simp [stepCall, hqc]
  have hunheard : (h.stepCall t (.yield y)).unheard t.me = h.unheard t.me := by simp [stepCall, hqc]
  constructor
  · intro before hs'
    rw [hlog, system_stepCall, System.stepCall_gil, Call.step_counts, hqc]
    simpa [Tidings.arrivals] using hy.count before (hs before hs')
  · intro ticket ht'
    rw [hunheard, system_stepCall, System.stepCall_gil, Call.step_prepare, hqc]
    exact (UInt64.add_zero _).trans (hy.ticket ticket (ht ticket ht'))
  · intro hc' a hmem htold
    rw [hlog] at hmem
    rw [hunheard]
    rcases hc hc' with hcmp | hnone
    · exact hy.told hcmp a hmem htold
    · exact absurd htold (hnone a hmem)
  · intro ha' hmem
    rw [hunheard]
    rcases ha ha' with hz | ⟨hsl, hsame⟩
    · exact hz
    · rw [hsame] at hmem
      exact hy.asleep hsl hmem

/-- The yielder has neither compared nor gone to sleep when it goes on. -/
theorem Informs.advance {y y' : Yield} (hy : h.Informs t.me y) (hq : y.tidings = .none)
    (hs : ∀ before, y'.stage = .away before → y.stage = .away before)
    (ht : ∀ ticket, y'.ticket? = some ticket → y.ticket? = some ticket)
    (hc : y'.hasCompared = false) (ha : y'.isAsleep = false) :
    (h.stepCall t (.yield y)).Informs t.me y' := by
  apply hy.carry hq hs ht
  · intro hc'
    simp [hc] at hc'
  · intro ha'
    simp [ha] at ha'

/-- Nothing is asked of a place where the yielder neither waits nor has a ticket. -/
theorem informs_of_apart {y : Yield} (hs : ∀ before, y.stage ≠ .away before)
    (ht : y.ticket? = none) (hc : y.hasCompared = false) (ha : y.isAsleep = false) :
    h.Informs i y where
  count before hs' := absurd hs' (hs before)
  ticket ticket ht' := by simp [ht] at ht'
  told hc' := by simp [hc] at hc'
  asleep ha' := by simp [ha] at ha'

/-- The ticket is new. -/
theorem Informs.asked {y y' : Yield} (hy : h.Informs t.me y) (hq : y.tidings = .asks)
    (hs : ∀ before, y'.stage = .away before → y.stage = .away before)
    (ht : y'.ticket? = some h.system.gil.handoff.prepare) (hc : y'.hasCompared = false)
    (ha : y'.isAsleep = false) : (h.stepCall t (.yield y)).Informs t.me y' where
  count before hs' := by
    have hqc : (Call.yield y).tidings = .asks := hq
    have hlog : (h.stepCall t (.yield y)).log t.me = h.log t.me := by simp [stepCall, hqc]
    rw [hlog, system_stepCall, System.stepCall_gil, Call.step_counts, hqc]
    simpa [Tidings.arrivals] using hy.count before (hs before hs')
  ticket ticket ht' := by
    have hqc : (Call.yield y).tidings = .asks := hq
    rw [ht, Option.some_inj] at ht'
    rw [← ht', system_stepCall, System.stepCall_gil, Call.step_prepare, hqc]
    simp [stepCall, hqc, Tidings.broadcasts]
  told hc' := by simp [hc] at hc'
  asleep ha' := by simp [ha] at ha'

/-- From when the word is freed on, arrivals are counted anew. -/
theorem Informs.freed {y y' : Yield} {before : UInt64} (hy : h.Informs t.me y)
    (hq : y.tidings = .frees) (hu : h.system.gil.acquisitions = before)
    (hs : y'.stage = .away before) (ht : y'.ticket? = y.ticket?) (hc : y'.hasCompared = false)
    (ha : y'.isAsleep = false) : (h.stepCall t (.yield y)).Informs t.me y' where
  count before' hs' := by
    have hqc : (Call.yield y).tidings = .frees := hq
    have hlog : (h.stepCall t (.yield y)).log t.me = [] := by simp [stepCall, hqc]
    obtain rfl : before = before' := by
      rw [hs] at hs'
      exact Stage.away.inj hs'
    rw [hlog, system_stepCall, System.stepCall_gil, Call.step_counts, hqc, hu]
    simp [Tidings.arrivals]
  ticket ticket ht' := by
    have hqc : (Call.yield y).tidings = .frees := hq
    rw [system_stepCall, System.stepCall_gil, Call.step_prepare, hqc, hy.ticket ticket (ht ▸ ht')]
    simp [stepCall, hqc, Tidings.broadcasts]
  told hc' := by simp [hc] at hc'
  asleep ha' := by simp [ha] at ha'

theorem Informs.release {before : UInt64} {ticket : Ticket} {r : Release} {y' : Yield}
    (hy : h.Informs t.me (.release before ticket r))
    (hu : r.frees = true → h.system.gil.acquisitions = before)
    (hp : ((Yield.release before ticket r).step t h.system.gil).progress = .going y') :
    (h.stepCall t (.yield (.release before ticket r))).Informs t.me y' := by
  cases r with
  | checkHolder =>
    simp only [Yield.step, Release.step] at hp
    split at hp <;> cases hp
    exact hy.advance rfl (fun _ => Stage.noConfusion) (fun _ => id) rfl rfl
  | clearHolder =>
    cases hp
    exact hy.advance rfl (fun _ => Stage.noConfusion) (fun _ => id) rfl rfl
  | clearWord =>
    simp only [Yield.step, Release.step] at hp
    split at hp <;> cases hp
    exact hy.freed rfl (hu rfl) rfl rfl rfl rfl
  | lookForWaiters =>
    simp only [Yield.step, Release.step] at hp
    split at hp <;> cases hp
    · exact hy.advance rfl (fun _ => id) (fun _ => id) rfl rfl
    · exact hy.advance rfl (fun _ => id) (fun _ => id) rfl rfl
  | signal =>
    cases hp
    exact hy.advance rfl (fun _ => id) (fun _ => id) rfl rfl

/-- A yielder that compares finds the count unchanged only if nobody arrived, and one that goes to
sleep has heard every broadcast. -/
theorem Kept.own (hk : h.Kept) (hm : h.Timely) {y y' : Yield}
    (hc : h.system.calls t.me = some (.yield y))
    (hp : (y.step t h.system.gil).progress = .going y') :
    (h.stepCall t (.yield y)).Informs t.me y' := by
  have hy := hk.informs t.me y hc
  cases y with
  | checkHolder =>
    simp only [Yield.step] at hp
    split at hp <;> cases hp
    exact informs_of_apart (fun _ => Stage.noConfusion) rfl rfl rfl
  | record =>
    cases hp
    exact informs_of_apart (fun _ => Stage.noConfusion) rfl rfl rfl
  | lookForWaiters =>
    simp only [Yield.step] at hp
    split at hp <;> cases hp
    exact informs_of_apart (fun _ => Stage.noConfusion) rfl rfl rfl
  | readCount =>
    cases hp
    exact informs_of_apart (fun _ => Stage.noConfusion) rfl rfl rfl
  | prepare before =>
    cases hp
    exact hy.asked rfl (fun _ => Stage.noConfusion) rfl rfl rfl
  | release before ticket r =>
    refine hy.release (fun hf => ?_) hp
    cases r with
    | clearWord =>
      have hu : h.chronicle.system.Untaken t.me (some before) := hk.fair.expects t.me _ hc
      exact hu.count before rfl
    | _ => cases hf
  | setDeadline before ticket =>
    simp only [Yield.step] at hp
    split at hp <;> cases hp
    exact hy.advance rfl (fun _ => id) (fun _ => id) rfl rfl
  | compareCount watch ticket =>
    by_cases ha : h.system.gil.acquisitions = watch.before
    · simp only [Yield.step, ha, ne_eq, not_true_eq_false, if_false] at hp
      cases hp
      have hz : UInt64.ofNat (h.log t.me).length = 0 := by
        have hcount := (hy.count watch.before rfl).1
        rw [ha] at hcount
        exact UInt64.left_eq_add.mp hcount
      have hnone : h.log t.me = [] := List.length_eq_zero_iff.mp (eq_zero_of_ofNat (hm t.me).1 hz)
      exact hy.carry rfl (fun _ => id) (fun _ => id) (fun _ => .inr (by simp [hnone]))
        Bool.noConfusion
    · simp only [Yield.step, ne_eq, ha, not_false_eq_true, if_true] at hp
      cases hp
      exact informs_of_apart (fun _ => Stage.noConfusion) rfl rfl rfl
  | recountWaiters watch ticket =>
    simp only [Yield.step] at hp
    split at hp <;> cases hp
    · exact informs_of_apart (fun _ => Stage.noConfusion) rfl rfl rfl
    · exact hy.carry rfl (fun _ => id) (fun _ => id) (fun _ => .inl rfl) Bool.noConfusion
  | readClock watch ticket =>
    simp only [Yield.step] at hp
    split at hp <;> cases hp
    · exact informs_of_apart (fun _ => Stage.noConfusion) rfl rfl rfl
    · exact hy.carry rfl (fun _ => id) (fun _ => id) (fun _ => .inl rfl) Bool.noConfusion
  | wait watch w =>
    simp only [Yield.step] at hp
    cases hw : (w.step t h.system.gil.handoff).2 with
    | going w' =>
      rw [hw] at hp
      cases hp
      obtain ⟨hticket, hsleep⟩ := Wait.step_going hw
      refine hy.carry rfl (fun _ => id) (fun _ => ?_) (fun _ => .inl rfl) (fun ha => ?_)
      · simp [Yield.ticket?, hticket]
      · cases w' with
        | asleep ticket timeout deadline =>
          rcases hsleep ticket timeout deadline rfl with ⟨rfl, hsame⟩ | hup
          · exact .inr ⟨rfl, hsame⟩
          · refine .inl (eq_zero_of_ofNat (hm t.me).2 ?_)
            have hticket' := hy.ticket w.ticket rfl
            rw [hup] at hticket'
            exact UInt64.left_eq_add.mp hticket'
        | _ => cases ha
    | done o =>
      rw [hw] at hp
      cases hp
      refine hy.advance rfl (fun _ => id) (fun ticket hticket => ?_) rfl rfl
      cases hticket
    | unwound p =>
      rw [hw] at hp
      cases hp
  | renew watch =>
    cases hp
    exact hy.asked rfl (fun _ => id) rfl rfl rfl
  | recordHandoff completed =>
    cases hp
    exact informs_of_apart (fun _ => Stage.noConfusion) rfl rfl rfl
  | acquire a =>
    simp only [Yield.step] at hp
    cases ha : (a.step t h.system.gil).progress <;> rw [ha] at hp <;> cases hp
    exact informs_of_apart (fun _ => Stage.noConfusion) rfl rfl rfl

theorem Announces.of_ne (hi : i ≠ t.me) (ha : h.Announces i) : (h.stepCall t c).Announces i := by
  obtain ⟨c', hc', hann⟩ := ha
  refine ⟨c', ?_, hann⟩
  rw [system_stepCall, System.stepCall_calls, Function.update_of_ne hi]
  exact hc'

/-- Who has to tell of its acquisition has that before it until it does. -/
theorem Kept.due_stepCall (hk : h.Kept) (hc : h.system.calls t.me = some c) {a : Arrival}
    (ha : a ∈ (h.stepCall t c).log i) (hd : a.telling = .due) :
    (h.stepCall t c).Announces a.who := by
  rcases mem_log_stepCall ha with ⟨route, hroute, rfl⟩ | ⟨-, b, hb, rfl⟩ | ⟨hn, ha⟩
  · cases route with
    | fast => cases hd
    | contended start =>
      obtain ⟨c', hnext, hann⟩ := c.announces_of_arrives hroute (t := t) (g := h.system.gil)
      refine ⟨c', ?_, hann⟩
      rw [system_stepCall, System.stepCall_calls, Function.update_self]
      exact hnext
  · obtain ⟨hdue, hwho⟩ := due_of_toldBy hd
    rw [who_toldBy]
    exact (hk.due i b hb hdue).of_ne hwho
  · have hann := hk.due i a ha hd
    by_cases hwho : a.who = t.me
    · obtain ⟨c', hc', ht⟩ := hann
      rw [hwho, hc] at hc'
      cases hc'
      exact absurd ht hn
    · exact hann.of_ne hwho

theorem Kept.stepCall (hk : h.Kept) (hm : h.Timely) (hc : h.system.calls t.me = some c) :
    (h.stepCall t c).Kept where
  fair := hk.fair.stepCall hc
  informs i y hy := by
    by_cases hi : i = t.me
    · subst hi
      have hn : (c.step t h.system.gil).progress.next? = some (.yield y) := by
        simpa [system_stepCall] using hy
      obtain ⟨y0, rfl, hp⟩ := Call.of_next?_yield hn
      exact hk.own hm hc hp
    · have hy' : h.system.calls i = some (.yield y) := by
        simpa [system_stepCall, Function.update_of_ne hi] using hy
      exact (hk.informs i y hy').other hi
  due i a ha hd := hk.due_stepCall hc ha hd

theorem kept_start (mode : Mode) (backend : Backend) (patience : Duration) :
    (start mode backend patience).Kept where
  fair := Chronicle.fair_start mode backend patience
  informs i y hy := by simp [start, system, Chronicle.start, System.start] at hy
  due i a ha := by simp [start] at ha

def withSystem (h : Arrivals) (s : System) : Arrivals :=
  { h with chronicle := { h.chronicle with system := s } }

theorem Kept.begin (hk : h.Kept) {k : Ident} {op : Op} (ho : op.isOrdinary = true)
    (hc : h.system.calls k = none) : (h.withSystem (h.system.beginCall k op.call)).Kept where
  fair := hk.fair.begin ho hc
  informs i y hy := by
    by_cases hi : i = k
    · have hop : op.call = .yield y := by simpa [withSystem, system, hi] using hy
      have hy0 : y = .checkHolder := by
        rcases Op.call_cases ho with h | h | h <;> rw [h] at hop <;> cases hop
        rfl
      subst hy0
      exact informs_of_apart nofun rfl rfl rfl
    · have hy' : h.system.calls i = some (.yield y) := by simpa [withSystem, system, hi] using hy
      have hinf := hk.informs i y hy'
      exact ⟨hinf.count, hinf.ticket, hinf.told, hinf.asleep⟩
  due i a ha hd := by
    obtain ⟨c, hcalls, hann⟩ := hk.due i a ha hd
    refine ⟨c, ?_, hann⟩
    have hne : a.who ≠ k := by
      rintro rfl
      rw [hc] at hcalls
      cases hcalls
    simpa [withSystem, system, hne] using hcalls

theorem Kept.rouse (hk : h.Kept) (k : Ident) : (h.act (.rouse k)).Kept where
  fair := hk.fair.act (.rouse k) rfl
  informs i y hy := by
    have hinf := hk.informs i y hy
    refine ⟨hinf.count, hinf.ticket, hinf.told, fun ha hmem => ?_⟩
    exact hinf.asleep ha (List.mem_of_mem_erase hmem)
  due i a ha hd := hk.due i a ha hd

theorem Kept.act (hk : h.Kept) (hm : h.Timely) (a : Action) (ha : a.isOrdinary = true) :
    (h.act a).Kept := by
  cases a with
  | begin k op =>
    cases hc : h.system.calls k with
    | some c =>
      have hsame : h.act (.begin k op) = h := by
        have hc' : h.chronicle.system.calls k = some c := hc
        simp [Arrivals.act, Chronicle.act, System.act, hc']
      rw [hsame]
      exact hk
    | none =>
      have hnew : h.act (.begin k op) = h.withSystem (h.system.beginCall k op.call) := by
        have hc' : h.chronicle.system.calls k = none := hc
        simp [Arrivals.act, Chronicle.act, System.act, hc', withSystem, system]
      rw [hnew]
      exact hk.begin ha hc
  | step t =>
    cases hc : h.system.calls t.me with
    | none =>
      simp only [Arrivals.act, hc]
      exact hk
    | some c =>
      simp only [Arrivals.act, hc]
      exact hk.stepCall hm hc
  | rouse k => exact hk.rouse k

theorem kept_run (mode : Mode) (backend : Backend) (patience : Duration) (acts : List Action)
    (ha : ∀ a ∈ acts, a.isOrdinary = true)
    (hm : ∀ early, early <+: acts → ((start mode backend patience).run early).Timely) :
    ((start mode backend patience).run acts).Kept := by
  have hstart : (start mode backend patience).Timely := hm [] (List.nil_prefix)
  have hall : ((start mode backend patience).run acts).Kept ∧
      ((start mode backend patience).run acts).Timely :=
    Run.keeps (P := fun h => h.Kept ∧ h.Timely) (Q := Timely)
      (fun h a hk ha hm => ⟨hk.1.act hk.2 a ha, hm⟩) acts _
      ⟨kept_start mode backend patience, hstart⟩ ha hm
  exact hall.1

def Sleeps (h : Arrivals) (i : Ident) : Prop :=
  (h.system.calls i).any Call.isAsleep = true ∧ i ∈ h.system.gil.handoff.sleepers

theorem Kept.reaches (hk : h.Kept) (hi : h.Sleeps i) {a : Arrival} (ha : a ∈ h.log i) :
    a.who ≠ i ∧ (a.telling = .silent ∨ a.telling = .due ∧ h.Announces a.who) := by
  obtain ⟨hcall, hmem⟩ := hi
  obtain ⟨watch, w, hc, hsl⟩ : ∃ watch w,
      h.system.calls i = some (.yield (.wait watch w)) ∧ (Yield.wait watch w).isAsleep = true := by
    cases hcalls : h.system.calls i with
    | none => simp [hcalls] at hcall
    | some c =>
      rw [hcalls] at hcall
      cases c with
      | yield y =>
        cases y with
        | wait watch w => exact ⟨watch, w, rfl, hcall⟩
        | _ => cases hcall
      | _ => cases hcall
  have hinf := hk.informs i _ hc
  refine ⟨(hinf.count watch.before rfl).2 a ha, ?_⟩
  cases ht : a.telling with
  | silent => exact .inl rfl
  | due => exact .inr ⟨rfl, hk.due i a ha ht⟩
  | told =>
    have hpos := hinf.told rfl a ha ht
    have hz := hinf.asleep hsl hmem
    omega

/-- While a yielder is asleep, whoever got in since it freed the word found the word free, or has
still to tell of it in its next step. -/
theorem broadcast_reaches_run (mode : Mode) (backend : Backend) (patience : Duration)
    (acts : List Action) (ha : ∀ a ∈ acts, a.isOrdinary = true)
    (hm : ∀ early, early <+: acts → ((start mode backend patience).run early).Timely)
    (i : Ident) (hi : ((start mode backend patience).run acts).Sleeps i) :
    ∀ a ∈ ((start mode backend patience).run acts).log i,
      a.who ≠ i ∧ (a.telling = .silent ∨
        a.telling = .due ∧ ((start mode backend patience).run acts).Announces a.who) :=
  fun _ hmem => (kept_run mode backend patience acts ha hm).reaches hi hmem

theorem length_log_act_le (h : Arrivals) (a : Action) (i : Ident) :
    ((h.act a).log i).length ≤ (h.log i).length + 1 := by
  cases a with
  | step t =>
    cases hc : h.system.calls t.me with
    | none => simp [Arrivals.act, hc]
    | some c =>
      simp only [Arrivals.act, hc, Arrivals.stepCall]
      cases ht : c.tidings with
      | frees => by_cases hi : i = t.me <;> simp [hi]
      | _ => simp
  | _ => exact Nat.le_succ _

theorem unheard_act_le (h : Arrivals) (a : Action) (i : Ident) :
    (h.act a).unheard i ≤ h.unheard i + 1 := by
  cases a with
  | step t =>
    cases hc : h.system.calls t.me with
    | none => simp [Arrivals.act, hc]
    | some c =>
      simp only [Arrivals.act, hc, Arrivals.stepCall]
      cases ht : c.tidings with
      | asks => by_cases hi : i = t.me <;> simp [hi]
      | _ => simp
  | _ => exact Nat.le_succ _

/-- No shorter run than a machine word counts comes to a state that is not timely. -/
theorem timely_of_length (mode : Mode) (backend : Backend) (patience : Duration)
    (acts : List Action) (hlen : acts.length < 2 ^ 64) :
    ((start mode backend patience).run acts).Timely := by
  intro i
  have hlog : (((start mode backend patience).run acts).log i).length ≤ _ :=
    Run.grows (f := fun h : Arrivals => (h.log i).length)
      (fun h a => length_log_act_le h a i) acts _
  have hunheard : ((start mode backend patience).run acts).unheard i ≤ _ :=
    Run.grows (f := fun h : Arrivals => h.unheard i) (fun h a => unheard_act_le h a i) acts _
  have hlog0 : ((start mode backend patience).log i).length = 0 := rfl
  have hunheard0 : (start mode backend patience).unheard i = 0 := rfl
  omega

/-- The waiter has got in and is about to tell the yielder, which is asleep. -/
theorem broadcast_reaches_run_due :
    let a : Ident := ⟨1, by decide⟩
    let b : Ident := ⟨2, by decide⟩
    let steps i n : List Action := List.replicate n (.step { me := i, now := ⟨0⟩ })
    let acts := .begin a .acquire :: steps a 5 ++ .begin b .acquire :: steps b 4 ++
      .begin a .yield :: steps a 16 ++ steps b 5
    let h := (start .generic .posix defaultPatience).run acts
    (∀ act ∈ acts, act.isOrdinary = true) ∧ h.Sleeps a ∧ h.log a = [⟨b, .due⟩] ∧
      ∀ x ∈ h.log a, x.who ≠ a ∧
        (x.telling = .silent ∨ x.telling = .due ∧ h.Announces x.who) := by
  intro a b steps acts
  have hm : ∀ early, early <+: acts →
      ((start .generic .posix defaultPatience).run early).Timely := by
    intro early he
    apply timely_of_length
    have hl := he.length_le
    have hacts : acts.length = 33 := rfl
    omega
  have ha : ∀ act ∈ acts, act.isOrdinary = true := by decide
  have hsleeps : ((start .generic .posix defaultPatience).run acts).Sleeps a :=
    ⟨by decide, by decide⟩
  exact ⟨ha, hsleeps, by decide,
    broadcast_reaches_run .generic .posix defaultPatience acts ha hm a hsleeps⟩

/-- A thread that finds the word free gets in before the waiter that was woken does. It has come
back from its acquire and holds the lock, the waiter is parked again, and the yielder sleeps. -/
theorem slept_through :
    let a : Ident := ⟨1, by decide⟩
    let b : Ident := ⟨2, by decide⟩
    let c : Ident := ⟨3, by decide⟩
    let steps i n : List Action := List.replicate n (.step { me := i, now := ⟨0⟩ })
    let acts := .begin a .acquire :: steps a 5 ++ .begin b .acquire :: steps b 4 ++
      .begin a .yield :: steps a 16 ++ .begin c .acquire :: steps c 5 ++ steps b 4
    let h := (start .generic .posix defaultPatience).run acts
    (∀ act ∈ acts, act.isOrdinary = true) ∧ h.Sleeps a ∧ h.log a = [⟨c, .silent⟩] ∧
      h.system.calls c = none ∧ h.system.gil.holder = some c ∧ ¬ h.Announces c ∧
      h.system.gil.wakeup.sleepers = [b] := by
  intro a b c steps acts h
  have hidle : h.system.calls c = none := by decide
  have hsleeps : h.Sleeps a := ⟨by decide, by decide⟩
  refine ⟨by decide, hsleeps, by decide, hidle, by decide, ?_, by decide⟩
  rintro ⟨call, hcall, -⟩
  rw [hidle] at hcall
  cases hcall

end Arrivals

end Gil

end InterpreterLock
