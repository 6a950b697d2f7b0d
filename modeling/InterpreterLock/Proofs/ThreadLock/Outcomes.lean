import InterpreterLock.Proofs.ThreadLock.Interruption
import InterpreterLock.Proofs.ThreadLock.Milestones

/-!
# What an acquire reports

An acquire reports that it has the lock exactly if its own compare-and-swap has taken it. It reports
a failure only on a clock reading at or past its deadline, whatever the event has rounded or cut off
when it waited, and an interruption only if the lock was interrupted while the call was under way.
This holds for every clock, be it monotone or not, since the readings are the call's own.
-/

set_option autoImplicit false

namespace InterpreterLock.ThreadLock

open Parking (Stance counter?)

/-- What happened to an acquire since it began: whether its own compare-and-swap took the lock, what
the clock showed at the `start` of its contention and when it was `latest` compared with the deadline,
and how often the lock was interrupted. -/
structure Evidence where
  took : Bool := false
  start : Option Instant := none
  latest : Option Instant := none
  interrupts : ℕ := 0
deriving DecidableEq

namespace Evidence

def afterStep (ev : Evidence) (t : Turn) (l : ThreadLock) (a : Acquire) : Evidence where
  took := ev.took || a.takes l
  start :=
    match a with
    | .readClock => some t.now
    | _ => ev.start
  latest :=
    match a with
    | .checkDeadline ⟨_, some _⟩ _ => some t.now
    | _ => ev.latest
  interrupts := ev.interrupts

/-- Only steps that take the lock or read the clock add to the evidence. -/
theorem afterStep_eq {ev : Evidence} {t : Turn} {l : ThreadLock} {a : Acquire}
    (ht : a.takes l = false) (hr : a ≠ .readClock)
    (hd : ∀ span ticket, a ≠ .checkDeadline span ticket) : ev.afterStep t l a = ev := by
  cases a with
  | readClock => exact absurd rfl hr
  | checkDeadline span ticket => exact absurd rfl (hd span ticket)
  | _ => simp [afterStep, ht]

def afterInterrupt (ev : Evidence) : Evidence := { ev with interrupts := ev.interrupts + 1 }

def Expired (ev : Evidence) (timeout : Timeout) : Prop :=
  0 < timeout.micros ∧ ∃ start latest, ev.start = some start ∧ ev.latest = some latest ∧
    start.nanoseconds + timeout.micros.toNat * 1000 ≤ latest.nanoseconds

end Evidence

def Grounds (backend : Backend) (terms : Terms) (ev : Evidence) : LockStatus → Prop
  | .acquired => ev.took = true
  | .failure => ev.took = false ∧ (terms.timeout.micros = 0 ∨ ev.Expired terms.timeout)
  | .interrupted => ev.took = false ∧ terms.interruptible = true ∧ terms.timeout.micros ≠ 0 ∧
      backend = .posix ∧ 0 < ev.interrupts

structure Contending (terms : Terms) (ev : Evidence) (span : Span) : Prop where
  took : ev.took = false
  waits : terms.timeout.micros ≠ 0
  start : ev.start = some span.start
  deadline : span.deadline = terms.timeout.deadlineFrom span.start

def Warranted (backend : Backend) (terms : Terms) (ev : Evidence) : Acquire → Prop
  | .tryLock => ev.took = false
  | .readClock => ev.took = false ∧ terms.timeout.micros ≠ 0
  | .enlist span | .prepare span | .retry span _ | .checkDeadline span _ | .wait span _ =>
    Contending terms ev span
  | .unlist _ status | .checkLocked status | .lookForWaiters status | .passOn status
  | .recordStatus status => Grounds backend terms ev status
  | .recordContention _ => ev.took = true

variable {backend : Backend} {terms : Terms} {ev : Evidence} {t : Turn} {l : ThreadLock}

theorem expired_of_deadline {timeout : Timeout} {start d : Instant} (hz : timeout.micros ≠ 0)
    (hs : ev.start = some start) (hl : ev.latest = some t.now)
    (hd : timeout.deadlineFrom start = some d) (hn : d ≤ t.now) : ev.Expired timeout := by
  have hf : ¬timeout.micros < 0 := by
    intro hneg
    simp [Timeout.deadlineFrom, Timeout.duration?, Timeout.isInfinite, hneg] at hd
  simp only [Timeout.deadlineFrom, Timeout.duration?, Timeout.isInfinite, hf, decide_false,
    Bool.false_eq_true, if_false, Option.bind_some, Instant.add?] at hd
  split at hd
  · cases hd
    exact ⟨by omega, start, t.now, hs, hl, hn⟩
  · cases hd

theorem Contending.afterStep {span : Span} {a : Acquire} (h : Contending terms ev span)
    (ht : a.takes l = false) (hr : a ≠ .readClock) : Contending terms (ev.afterStep t l a) span where
  took := by simp [Evidence.afterStep, h.took, ht]
  waits := h.waits
  start := by
    cases a with
    | readClock => exact absurd rfl hr
    | _ => exact h.start
  deadline := h.deadline

/-- A wait ends as interrupted only when the event shows an interruption. -/
theorem wait_interrupted (e : Event) (w : Wait) :
    (w.step t e).2.Meets (fun _ => True)
      (fun o => o = .interrupted → ∃ ticket, (Stance.ofWait w).ticket? = some ticket ∧
        (e.signals.look ticket).1 = some .interrupted) fun _ => False := by
  cases w with
  | start ticket timeout => trivial
  | check ticket timeout deadline =>
    cases hl : e.signals.look ticket with
    | mk found left =>
      cases found with
      | some o =>
        simp only [Wait.step, hl]
        rintro rfl
        exact ⟨ticket, rfl, by rw [hl]⟩
      | none =>
        simp only [Wait.step, hl]
        split
        · exact fun ho => by cases ho
        · trivial
  | asleep ticket timeout deadline =>
    simp only [Wait.step]
    split <;> trivial

theorem Acquire.warranted (a : Acquire) (h : Warranted backend terms ev a)
    (hi : ∀ ticket, a.stance.ticket? = some ticket →
      (l.event.signals.look ticket).1 = some .interrupted → backend = .posix ∧ 0 < ev.interrupts) :
    (a.step terms t l).progress.Meets (Warranted backend terms (ev.afterStep t l a))
      (Grounds backend terms (ev.afterStep t l a)) fun _ => False := by
  cases a with
  | tryLock =>
    have htook : ev.took = false := h
    cases hl : l.locked with
    | false => simp [step, hl, Progress.Meets, Warranted, Grounds, Evidence.afterStep, takes]
    | true =>
      by_cases hz : terms.timeout.micros = 0
      · simp [step, hl, hz, Timeout.isNonBlocking, Progress.Meets, Warranted, Grounds,
          Evidence.afterStep, takes, htook]
      · simp [step, hl, hz, Timeout.isNonBlocking, Progress.Meets, Warranted,
          Evidence.afterStep, takes, htook]
  | readClock => exact ⟨by simp [Evidence.afterStep, takes, h.1], h.2, rfl, rfl⟩
  | enlist span => exact Contending.afterStep h rfl (by simp)
  | prepare span => exact Contending.afterStep h rfl (by simp)
  | retry span ticket =>
    cases hl : l.locked with
    | false => simp [step, hl, Progress.Meets, Warranted, Grounds, Evidence.afterStep, takes]
    | true =>
      simp only [step, hl, Bool.not_true, Bool.false_eq_true, if_false]
      exact Contending.afterStep h (by simp [takes, hl]) (by simp)
  | checkDeadline span ticket =>
    have hc : Contending terms (ev.afterStep t l (.checkDeadline span ticket)) span :=
      Contending.afterStep h rfl (by simp)
    simp only [step]
    split
    · exact hc
    · rename_i d hd
      have hlatest : (ev.afterStep t l (.checkDeadline span ticket)).latest = some t.now := by
        obtain ⟨start, deadline⟩ := span
        cases hd
        rfl
      split
      · rename_i hn
        exact ⟨hc.took, .inr
          (expired_of_deadline hc.waits hc.start hlatest (hc.deadline ▸ hd) hn)⟩
      · exact hc
  | wait span w =>
    have hc : Contending terms (ev.afterStep t l (.wait span w)) span :=
      Contending.afterStep h rfl (by simp)
    simp only [step, Progress.meets_within]
    refine (wait_interrupted l.event w).imp (fun _ _ => hc) (fun o ho => ?_) fun _ h => h
    unfold afterWait
    split
    · rename_i hint
      obtain ⟨ticket, ht, hl⟩ := ho hint.1
      exact ⟨hc.took, hint.2, hc.waits, hi ticket ht hl⟩
    · exact hc
  | unlist span status =>
    rw [Evidence.afterStep_eq rfl (by simp) (by simp)]
    cases status <;> exact h
  | recordContention _ | passOn _ | recordStatus _ =>
    rw [Evidence.afterStep_eq rfl (by simp) (by simp)]
    exact h
  | checkLocked _ | lookForWaiters _ =>
    rw [Evidence.afterStep_eq rfl (by simp) (by simp)]
    simp only [step]
    split <;> exact h

theorem Grounds.afterInterrupt {status : LockStatus} (h : Grounds backend terms ev status) :
    Grounds backend terms ev.afterInterrupt status := by
  cases status with
  | interrupted => exact ⟨h.1, h.2.1, h.2.2.1, h.2.2.2.1, Nat.succ_pos _⟩
  | _ => exact h

theorem Warranted.afterInterrupt {a : Acquire} (h : Warranted backend terms ev a) :
    Warranted backend terms ev.afterInterrupt a := by
  have hc : ∀ span, Contending terms ev span → Contending terms ev.afterInterrupt span :=
    fun _ h => ⟨h.took, h.waits, h.start, h.deadline⟩
  cases a with
  | tryLock | readClock | recordContention _ => exact h
  | enlist span | prepare span | retry span _ | checkDeadline span _ | wait span _ =>
    exact hc span h
  | _ => exact Grounds.afterInterrupt h

structure Report where
  terms : Terms
  status : LockStatus
  evidence : Evidence
deriving DecidableEq

structure Docket where
  system : System
  evidence : Ident → Evidence := fun _ => {}
  reports : List Report := []

namespace Docket

def start (backend : Backend) : Docket := { system := .start backend }

def reportsOf (terms : Terms) (ev : Evidence) :
    Progress Acquire LockStatus → List Report
  | .done status => [⟨terms, status, ev⟩]
  | .going _ | .unwound _ => []

def act (d : Docket) (a : Action) : Docket :=
  match a with
  | .begin i _ =>
    { d with
      system := d.system.act a
      evidence := if d.system.calls i = none then Function.update d.evidence i {} else d.evidence }
  | .step t =>
    match d.system.calls t.me with
    | some (.acquire terms place) =>
      let ev := (d.evidence t.me).afterStep t d.system.lock place
      { system := d.system.act a
        evidence := Function.update d.evidence t.me ev
        reports := reportsOf terms ev (place.step terms t d.system.lock).progress ++ d.reports }
    | _ => { d with system := d.system.act a }
  | .interrupt =>
    { d with
      system := d.system.act a
      evidence := fun i => (d.evidence i).afterInterrupt }
  | .rouse _ => { d with system := d.system.act a }

def run (d : Docket) (acts : List Action) : Docket := acts.foldl act d

def Current (e : Event) (st : Ident → Stance) (interrupts : Ident → ℕ) : Prop :=
  ∀ i ticket, (st i).ticket? = some ticket → interrupts i = 0 →
    e.signals.interruptions = ticket.interrupts

theorem Current.step {me : Ident} {k : Parking.Notice} {l l' : Parking.Lot} {a b : Stance}
    {st : Ident → Stance} {n : Ident → ℕ} (h : Parking.Step me k l a l' b) (ha : st me = a)
    (hc : Current l.event st n) : Current l'.event (Function.update st me b) n := by
  intro i ticket ht hn
  rw [h.interruptions]
  by_cases hi : i = me
  · subst hi
    rw [Function.update_self] at ht
    obtain ⟨-, rfl, -⟩ | ⟨-, hta⟩ := h.ticket? ht
    · exact (Signals.ticket_interrupts _).symm
    · exact hc i ticket (by rw [ha]; exact hta) hn
  · rw [Function.update_of_ne hi] at ht
    exact hc i ticket ht hn

structure Kept (backend : Backend) (d : Docket) : Prop where
  counts : (counter? d.system.lock.event).isSome = true → backend = .posix
  current : Current d.system.lock.event d.system.stance fun i => (d.evidence i).interrupts
  warranted : ∀ i terms a, d.system.calls i = some (.acquire terms a) →
    Warranted backend terms (d.evidence i) a
  reported : ∀ r ∈ d.reports, Grounds backend r.terms r.evidence r.status

variable {d : Docket}

theorem kept_start (backend : Backend) : Kept backend (start backend) where
  counts h := by
    cases backend with
    | posix => rfl
    | windows => cases h
  current i ticket h := by cases h
  warranted i terms a h := by cases h
  reported r h := by cases h

theorem Kept.shown (hd : Kept backend d) {i : Ident} {c : Call} (hc : d.system.calls i = some c)
    (ticket : Ticket) (ht : c.stance.ticket? = some ticket)
    (hl : (d.system.lock.event.signals.look ticket).1 = some .interrupted) :
    backend = .posix ∧ 0 < (d.evidence i).interrupts := by
  obtain ⟨hcounts, hne⟩ := Parking.counts_of_interrupted hl
  refine ⟨hd.counts hcounts, Nat.pos_of_ne_zero fun hz => hne ?_⟩
  exact hd.current i ticket (by rw [System.stance_of_call hc]; exact ht) hz

/-- A step of a call keeps it all, if its own evidence warrants where it goes on and what it
reports. -/
theorem Kept.stepCall (hd : Kept backend d) {c : Call} (hc : d.system.calls t.me = some c)
    {reports : List Report} (hi : ev.interrupts = (d.evidence t.me).interrupts)
    (hw : ∀ terms a, (c.step t d.system.lock).progress.next? = some (.acquire terms a) →
      Warranted backend terms ev a)
    (hr : ∀ r ∈ reports, Grounds backend r.terms r.evidence r.status) :
    Kept backend ⟨d.system.stepCall t c, Function.update d.evidence t.me ev, reports⟩ := by
  have hs := System.parks hc
  constructor
  case counts => exact fun h => hd.counts (by rw [← h]; exact hs.counts.symm)
  case current =>
    have hn : (fun i => (Function.update d.evidence t.me ev i).interrupts) =
        fun i => (d.evidence i).interrupts := by
      ext i
      by_cases hme : i = t.me
      · rw [hme, Function.update_self, hi]
      · rw [Function.update_of_ne hme]
    rw [hn, System.stance_stepCall]
    exact hd.current.step hs rfl
  case warranted =>
    intro i terms a ha
    by_cases hme : i = t.me
    · subst hme
      simp only [Function.update_self]
      exact hw terms a (by simpa [System.stepCall] using ha)
    · simp only [Function.update_of_ne hme]
      exact hd.warranted i terms a (by simpa [System.stepCall, hme] using ha)
  case reported => exact hr

theorem Kept.stepAcquire (hd : Kept backend d) {terms : Terms} {place : Acquire}
    (hc : d.system.calls t.me = some (.acquire terms place)) :
    Kept backend (d.act (.step t)) := by
  have hm := Acquire.warranted (t := t) place (hd.warranted t.me terms place hc) (hd.shown hc)
  simp only [Docket.act, hc, System.act]
  refine hd.stepCall hc rfl (fun terms' a ha => ?_) fun r hr => ?_
  · obtain ⟨a', he, hn⟩ := Call.next?_eq_acquire ha
    cases he
    exact hm.of_next? hn
  · rcases List.mem_append.mp hr with hnew | hold
    · cases hp : (place.step terms t d.system.lock).progress with
      | done status =>
        rw [hp] at hm hnew
        rw [List.mem_singleton.mp hnew]
        exact hm
      | going a => simp [hp, reportsOf] at hnew
      | unwound p => simp [hp, reportsOf] at hnew
    · exact hd.reported r hold

theorem Kept.stepRelease (hd : Kept backend d) {r : Release}
    (hc : d.system.calls t.me = some (.release r)) : Kept backend (d.act (.step t)) := by
  have h : Kept backend ⟨d.system.stepCall t (.release r),
      Function.update d.evidence t.me (d.evidence t.me), d.reports⟩ := by
    refine hd.stepCall hc rfl (fun terms a ha => ?_) hd.reported
    obtain ⟨a', he, -⟩ := Call.next?_eq_acquire ha
    cases he
  rw [Function.update_eq_self] at h
  simpa only [Docket.act, hc, System.act] using h

theorem Kept.begin (hd : Kept backend d) {i : Ident} (hc : d.system.calls i = none) (op : Op) :
    Kept backend { d with
      system := d.system.beginCall i op.call
      evidence := Function.update d.evidence i {} } := by
  constructor
  case counts => exact hd.counts
  case current =>
    intro j ticket ht hn
    rw [System.stance_beginCall hc op] at ht
    by_cases hj : j = i
    · subst hj
      simp [System.stance, Parking.standing, hc, Stance.ticket?] at ht
    · simp only [Function.update_of_ne hj] at hn
      exact hd.current j ticket ht hn
  case warranted =>
    intro j terms a ha
    by_cases hj : j = i
    · subst hj
      simp only [Function.update_self]
      cases op with
      | acquire terms' =>
        simp only [System.beginCall, Function.update_self, Op.call, Option.some.injEq,
          Call.acquire.injEq] at ha
        obtain ⟨-, rfl⟩ := ha
        rfl
      | release => simp [System.beginCall, Op.call] at ha
    · simp only [Function.update_of_ne hj]
      exact hd.warranted j terms a (by simpa [System.beginCall, hj] using ha)
  case reported => exact hd.reported

theorem Kept.act (hd : Kept backend d) (a : Action) : Kept backend (d.act a) := by
  cases a with
  | begin i op =>
    cases hc : d.system.calls i with
    | none => simpa only [Docket.act, System.act, hc, if_true] using hd.begin hc op
    | some c =>
      simp only [Docket.act, System.act, hc, reduceCtorEq, if_false]
      exact ⟨hd.counts, hd.current, hd.warranted, hd.reported⟩
  | rouse i => exact ⟨hd.counts, hd.current, hd.warranted, hd.reported⟩
  | interrupt =>
    constructor
    case counts =>
      intro h
      apply hd.counts
      rw [← Parking.counter?_interrupt]
      exact h
    case current => exact fun i ticket _ hn => absurd hn (Nat.succ_ne_zero _)
    case warranted => exact fun i terms a ha => Warranted.afterInterrupt (hd.warranted i terms a ha)
    case reported => exact hd.reported
  | step t =>
    cases hc : d.system.calls t.me with
    | none =>
      simp only [Docket.act, System.act, hc]
      exact ⟨hd.counts, hd.current, hd.warranted, hd.reported⟩
    | some c =>
      cases c with
      | acquire terms place => exact hd.stepAcquire hc
      | release r => exact hd.stepRelease hc

end Docket

structure Report.Accurate (backend : Backend) (r : Report) : Prop where
  acquired : r.status = .acquired ↔ r.evidence.took = true
  failed : r.status = .failure →
    r.terms.timeout.micros = 0 ∨ r.evidence.Expired r.terms.timeout
  interrupted : r.status = .interrupted → r.terms.interruptible = true ∧
    r.terms.timeout.micros ≠ 0 ∧ backend = .posix ∧ 0 < r.evidence.interrupts
  blocking : r.terms = .blocking → r.status = .acquired
  endless : r.terms.timeout.micros < 0 → r.status ≠ .failure

theorem Report.accurate {r : Report} (h : Grounds backend r.terms r.evidence r.status) :
    r.Accurate backend := by
  have endless : r.terms.timeout.micros < 0 → r.status ≠ .failure := by
    intro hneg hs
    rw [hs] at h
    rcases h.2 with hz | ⟨hpos, -⟩ <;> omega
  constructor
  case acquired =>
    cases hs : r.status with
    | acquired =>
      rw [hs] at h
      exact ⟨fun _ => h, fun _ => rfl⟩
    | failure =>
      rw [hs] at h
      simp [h.1]
    | interrupted =>
      rw [hs] at h
      simp [h.1]
  case failed =>
    intro hs
    rw [hs] at h
    exact h.2
  case interrupted =>
    intro hs
    rw [hs] at h
    exact h.2
  case blocking =>
    intro hb
    cases hs : r.status with
    | acquired => rfl
    | failure => exact absurd hs (endless (by rw [hb]; decide))
    | interrupted =>
      rw [hs, hb] at h
      exact absurd h.2.1 (by decide)
  case endless => exact endless

theorem reports_accurate_run (backend : Backend) (acts : List Action) :
    ∀ r ∈ ((Docket.start backend).run acts).reports, r.Accurate backend := by
  have hd : Docket.Kept backend ((Docket.start backend).run acts) :=
    Run.lasts (P := Docket.Kept backend) (fun _ a hd => hd.act a) acts _ (Docket.kept_start backend)
  exact fun r hr => Report.accurate (hd.reported r hr)

/-- The lock is taken; one waiter is interrupted, and another one's microsecond is over. -/
theorem reports_accurate_contended :
    let a : Ident := ⟨1, by decide⟩
    let b : Ident := ⟨2, by decide⟩
    let c : Ident := ⟨3, by decide⟩
    let micro : Timeout := .ofNat 1
    let turns (n nanoseconds : ℕ) (i : Ident) : List Action :=
      List.replicate n (.step { me := i, now := ⟨nanoseconds⟩ })
    let d := (Docket.start .posix).run (.begin a (.acquire .polling) :: turns 2 5 a ++
      .begin b (.acquire (.timed .infinite)) :: turns 8 5 b ++ .interrupt :: turns 5 5 b ++
      .begin c (.acquire (.timed micro)) :: turns 5 7 c ++ turns 4 1007 c)
    let interrupted : Report :=
      ⟨.timed .infinite, .interrupted, { start := some ⟨5⟩, interrupts := 1 }⟩
    let failed : Report := ⟨.timed micro, .failure, { start := some ⟨7⟩, latest := some ⟨1007⟩ }⟩
    (interrupted ∈ d.reports ∧ interrupted.Accurate .posix) ∧
      failed ∈ d.reports ∧ failed.Accurate .posix := by
  intro a b c micro turns d interrupted failed
  have hi : interrupted ∈ d.reports := by decide
  have hf : failed ∈ d.reports := by decide
  exact ⟨⟨hi, reports_accurate_run .posix _ interrupted hi⟩, hf,
    reports_accurate_run .posix _ failed hf⟩

end InterpreterLock.ThreadLock
