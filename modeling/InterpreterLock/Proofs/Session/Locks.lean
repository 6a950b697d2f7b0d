import InterpreterLock.Proofs.Session.Gil
import InterpreterLock.Proofs.ThreadLock.System

/-!
# General locks in a session

What happens to a general lock in a session happens to it in a system of threads that do nothing but
call that lock. A thread that takes the lock without waiting for it is one that polls there. The
counters are left out, as all locks of an interpreter count into the same.
-/

set_option autoImplicit false

namespace InterpreterLock.Session

namespace World

variable {w w' : World} {me : Ident} {th : Thread} {purpose : Purpose} {c : Call}

def lockOf? (w : World) (k : ℕ) : Option ThreadLock := (w.locks.get? k).map SharedLock.lock

def lockCall? (k : ℕ) : Call → Option ThreadLock.Call
  | .lock j terms c => if j = k then some (.acquire terms c) else none
  | .unlock j c => if j = k then some (.release c) else none
  | _ => none

variable {k : ℕ}

theorem Begun.lockCall? {d : Call} (h : Begun d) :
    World.lockCall? k d = none ∨ ∃ op : ThreadLock.Op, World.lockCall? k d = some op.call := by
  cases h with
  | lock j terms =>
    by_cases hjk : j = k
    · exact .inr ⟨.acquire terms, if_pos hjk⟩
    · exact .inl (if_neg hjk)
  | unlock j =>
    by_cases hjk : j = k
    · exact .inr ⟨.release, if_pos hjk⟩
    · exact .inl (if_neg hjk)
  | _ => exact .inl rfl

theorem get?_set_shelf {α : Type} (s : Shelf α) (j k : ℕ) (a : α) :
    (s.set j a).get? k = if j = k then (s.get? k).map fun _ => a else s.get? k := by
  simp only [Shelf.get?, Shelf.set, List.getElem?_set]
  by_cases hjk : j = k
  · subst hjk
    by_cases hlt : j < s.things.length
    · simp [hlt]
    · simp [hlt]
  · simp [hjk]

theorem countOn_locks (owner : Option ℕ) (note : Option Metrics.Record) :
    (w.countOn owner note).locks = w.locks := by
  cases owner <;> rfl

theorem lockOf?_set {j : ℕ} {l : SharedLock} (hl : w.locks.get? j = some l) (lock : ThreadLock) :
    World.lockOf? { w with locks := w.locks.set j { l with lock } } k =
      if j = k then some lock else w.lockOf? k := by
  rw [lockOf?, get?_set_shelf]
  split
  · rename_i hjk
    rw [← hjk, hl]
    rfl
  · rfl

def SparesLock (w : World) (k : ℕ) (x : Stepped) : Prop :=
  x.1.lockOf? k = w.lockOf? k ∧ x.2.next?.bind (lockCall? k) = none

/-- A single statement may take the lock without waiting for it, or interrupt its waiters. -/
def Touches (k : ℕ) (l : ThreadLock) (x : Stepped) : Prop :=
  (∃ l', x.1.lockOf? k = some l' ∧ (l' = l ∨ l' = l.tryAcquire.1 ∨ l' = l.interrupt)) ∧
    x.2.next?.bind (lockCall? k) = none

theorem named?_eq_some {name : String} {j : ℕ} {shared : SharedLock}
    (h : w.locks.named? name = some (j, shared)) : w.locks.get? j = some shared := by
  obtain ⟨i, -, hi⟩ := Option.bind_eq_some_iff.mp h
  obtain ⟨a, ha, hpair⟩ := Option.map_eq_some_iff.mp hi
  cases hpair
  exact ha

theorem lockOf?_put {l : ThreadLock} (hl : w.lockOf? k = some l) (name : String)
    (new : SharedLock) : World.lockOf? { w with locks := w.locks.put name new } k = some l := by
  obtain ⟨shared, hget, rfl⟩ := Option.map_eq_some_iff.mp hl
  obtain ⟨hlt, -⟩ := List.getElem?_eq_some_iff.mp hget
  rw [lockOf?, w.locks.get?_put_of_lt name new hlt, hget]
  rfl

theorem lockOf?_set_named {name : String} {j : ℕ} {shared : SharedLock} {l : ThreadLock}
    (hname : w.locks.named? name = some (j, shared)) (hl : w.lockOf? k = some l)
    (f : ThreadLock → ThreadLock) :
    World.lockOf? { w with locks := w.locks.set j { shared with lock := f shared.lock } } k =
      some (if j = k then f l else l) := by
  have hget := named?_eq_some hname
  rw [lockOf?_set hget, hl]
  split
  · rename_i hjk
    rw [lockOf?, ← hjk, hget] at hl
    cases hl
    rfl
  · rfl

theorem stepSingle_touches {l : ThreadLock} (th : Thread) (s : Statement) (hl : w.lockOf? k = some l) :
    Touches k l (w.stepSingle th s) := by
  cases s with
  | newLock name m backend =>
    simp only [stepSingle]
    repeat' split
    · exact ⟨⟨l, lockOf?_put hl _ _, .inl rfl⟩, rfl⟩
    · exact ⟨⟨l, lockOf?_put hl _ _, .inl rfl⟩, rfl⟩
    · exact ⟨⟨l, hl, .inl rfl⟩, rfl⟩
  | tryLock name =>
    simp only [stepSingle]
    split
    · exact ⟨⟨l, hl, .inl rfl⟩, rfl⟩
    · rename_i j shared hname
      refine ⟨⟨_, lockOf?_set_named hname hl fun l => l.tryAcquire.1, ?_⟩, rfl⟩
      split
      · exact .inr (.inl rfl)
      · exact .inl rfl
  | interruptLock name =>
    simp only [stepSingle]
    split
    · exact ⟨⟨l, hl, .inl rfl⟩, rfl⟩
    · rename_i j shared hname
      refine ⟨⟨_, lockOf?_set_named hname hl ThreadLock.interrupt, ?_⟩, rfl⟩
      split
      · exact .inr (.inr rfl)
      · exact .inl rfl
  | _ =>
    simp only [stepSingle, hearSelf, onEvent]
    repeat' split
    all_goals exact ⟨⟨l, hl, .inl rfl⟩, rfl⟩

theorem stepSpawn_sparesLock (m : ℕ) (who : String) (label : Option String) (c : Spawn) :
    w.SparesLock k (w.stepSpawn m who label c) := by
  simp only [stepSpawn]
  split
  · exact ⟨rfl, rfl⟩
  · have hspares (idents : IdentSource) (r' : Interpreter) (o : Option Ident) :
        (World.launch ({ w with idents }.setInterpreter m r') m who label o).lockOf? k =
          w.lockOf? k := by
      rw [lockOf?, (launch_shared ..).2.1]
      rfl
    split <;> exact ⟨hspares _ _ _, rfl⟩

/-- A call that is at another lock, or at none, spares this one. -/
theorem stepCall_sparesLock (th : Thread) (purpose : Purpose) (hs : ∀ s, c ≠ .single s)
    (hc : lockCall? k c = none) : w.SparesLock k (w.stepCall th purpose c) := by
  cases c with
  | single s => exact absurd rfl (hs s)
  | spawn m who label c => exact stepSpawn_sparesLock m who label c
  | wrapper m c => exact ⟨rfl, rfl⟩
  | gil m c =>
    simp only [stepCall, stepGil]
    split
    · exact ⟨rfl, rfl⟩
    · exact ⟨rfl, next?_bind_within (fun _ => rfl) fun _ => rfl⟩
  | interpreter m c =>
    simp only [stepCall, stepInterpreter]
    split
    · exact ⟨rfl, rfl⟩
    · exact ⟨rfl, next?_bind_within (fun _ => rfl) fun _ => rfl⟩
  | lock j terms c =>
    have hjk : j ≠ k := by
      rintro rfl
      simp [lockCall?] at hc
    simp only [stepCall, stepLock]
    split
    · exact ⟨rfl, rfl⟩
    · rename_i l hl
      refine ⟨?_, next?_bind_within (fun x => if_neg hjk) fun _ => rfl⟩
      rw [lockOf?, countOn_locks]
      exact (lockOf?_set hl _).trans (if_neg hjk)
  | unlock j c =>
    have hjk : j ≠ k := by
      rintro rfl
      simp [lockCall?] at hc
    simp only [stepCall, stepUnlock]
    split
    · exact ⟨rfl, rfl⟩
    · rename_i l hl
      refine ⟨?_, next?_bind_within (fun x => if_neg hjk) fun was => by cases was <;> rfl⟩
      rw [lockOf?, countOn_locks]
      exact (lockOf?_set hl _).trans (if_neg hjk)
  | wait j c =>
    simp only [stepCall, stepWait]
    split
    · exact ⟨rfl, rfl⟩
    · exact ⟨rfl, next?_bind_within (fun _ => rfl) fun _ => rfl⟩
  | awaitEntry i =>
    simp only [stepCall]
    split <;> exact ⟨rfl, rfl⟩
  | awaitEnd i =>
    simp only [stepCall, stepAwaitEnd]
    split <;> exact ⟨rfl, rfl⟩

/-- A step at a general lock is a step of a call of that lock. -/
theorem stepCall_atLock (th : Thread) (purpose : Purpose) {d : ThreadLock.Call}
    (hc : lockCall? k c = some d) {l : ThreadLock} (hl : w.lockOf? k = some l) :
    (w.stepCall th purpose c).1.lockOf? k = some (d.step (w.turnOf th.ident) l).state ∧
      (w.stepCall th purpose c).2.next?.bind (lockCall? k) =
        (d.step (w.turnOf th.ident) l).progress.next? := by
  obtain ⟨shared, hget, rfl⟩ := Option.map_eq_some_iff.mp hl
  cases c with
  | lock j terms a =>
    obtain ⟨rfl, rfl⟩ : j = k ∧ ThreadLock.Call.acquire terms a = d := by
      simpa [lockCall?] using hc
    simp only [stepCall, stepLock, hget]
    rw [lockOf?, countOn_locks, Progress.next?_within fun _ => rfl]
    refine ⟨(lockOf?_set hget _).trans (if_pos rfl), ?_⟩
    simp only [ThreadLock.Call.step]
    cases (a.step terms (w.turnOf th.ident) shared.lock).progress with
    | going x => exact if_pos rfl
    | _ => rfl
  | unlock j a =>
    obtain ⟨rfl, rfl⟩ : j = k ∧ ThreadLock.Call.release a = d := by
      simpa [lockCall?] using hc
    simp only [stepCall, stepUnlock, hget]
    rw [lockOf?, countOn_locks, Progress.next?_within fun was => by cases was <;> rfl]
    refine ⟨(lockOf?_set hget _).trans (if_pos rfl), ?_⟩
    simp only [ThreadLock.Call.step]
    cases (a.step (w.turnOf th.ident) shared.lock).progress with
    | going x => exact if_pos rfl
    | _ => rfl
  | _ => cases hc

end World

open World

section

variable {s : ThreadLock.System} {w : World} {th : Thread} {c : Call} {k : ℕ}

/-- What takes the lock without waiting for it is an acquire that polls. -/
theorem poll_eq {t : Turn} (hidle : s.calls t.me = none) :
    (s.run [.begin t.me (.acquire .polling), .step t, .step t]).lock = s.lock.tryAcquire.1 ∧
      (s.run [.begin t.me (.acquire .polling), .step t, .step t]).calls = s.calls := by
  let first : ThreadLock.Call := .acquire .polling .tryLock
  let status : LockStatus := if s.lock.locked then .failure else .acquired
  let second : ThreadLock.Call := .acquire .polling (.recordStatus status)
  have hstep : first.step t s.lock = ⟨s.lock.tryAcquire.1, .going second, none⟩ := by
    cases hl : s.lock.locked with
    | false =>
      simp [first, second, status, ThreadLock.Call.step, ThreadLock.Acquire.step,
        ThreadLock.tryAcquire, hl, Progress.within]
    | true =>
      have hpoll : ThreadLock.Terms.polling.timeout.isNonBlocking = true := rfl
      have hsame : { s.lock with locked := true } = s.lock := by rw [← hl]
      simp [first, second, status, ThreadLock.Call.step, ThreadLock.Acquire.step,
        ThreadLock.tryAcquire, hl, hpoll, hsame, Progress.within]
  have hbegin : s.act (.begin t.me (.acquire .polling)) = s.beginCall t.me first := by
    simp only [ThreadLock.System.act, hidle]
    rfl
  have hfirst : (s.beginCall t.me first).act (.step t) =
      (s.beginCall t.me first).stepCall t first := by
    simp [ThreadLock.System.act, ThreadLock.System.beginCall]
  have hsecond : ((s.beginCall t.me first).stepCall t first).act (.step t) =
      ((s.beginCall t.me first).stepCall t first).stepCall t second := by
    have hcalls : ((s.beginCall t.me first).stepCall t first).calls t.me = some second := by
      rw [ThreadLock.System.stepCall, show (s.beginCall t.me first).lock = s.lock from rfl, hstep]
      exact Function.update_self _ _ _
    simp only [ThreadLock.System.act, hcalls]
  rw [ThreadLock.System.run, List.foldl_cons, hbegin, List.foldl_cons, hfirst, List.foldl_cons,
    hsecond, List.foldl_nil]
  constructor
  · exact congrArg Move.state hstep
  · change Function.update (Function.update (Function.update s.calls t.me _) t.me _) t.me none = _
    rw [Function.update_idem, Function.update_idem, ← hidle, Function.update_eq_self]

theorem lock_step (purpose : Purpose) (hs : w.lockOf? k = some s.lock)
    (hc : s.calls th.ident = lockCall? k c) :
    ∃ acts : List ThreadLock.Action,
      (w.stepCall th purpose c).1.lockOf? k = some (acts.foldl ThreadLock.System.act s).lock ∧
        (acts.foldl ThreadLock.System.act s).calls = Function.update s.calls th.ident
          ((w.stepCall th purpose c).2.next?.bind (lockCall? k)) := by
  cases hv : lockCall? k c with
  | some d =>
    obtain ⟨hlock, hnext⟩ := stepCall_atLock th purpose hv hs
    have hact : s.act (.step (w.turnOf th.ident)) = s.stepCall (w.turnOf th.ident) d := by
      have hcalls : s.calls (w.turnOf th.ident).me = some d := hc.trans hv
      simp only [ThreadLock.System.act, hcalls]
    refine ⟨[.step (w.turnOf th.ident)], ?_, ?_⟩
    · rw [List.foldl_cons, List.foldl_nil, hact]
      exact hlock
    · rw [List.foldl_cons, List.foldl_nil, hact, hnext]
      rfl
  | none =>
    have hidle : s.calls th.ident = none := hc.trans hv
    have hsame {x : Option ThreadLock.Call} (hx : x = none) :
        s.calls = Function.update s.calls th.ident x := by
      rw [hx, ← hidle, Function.update_eq_self]
    by_cases hsingle : ∃ st, c = .single st
    · obtain ⟨st, rfl⟩ := hsingle
      obtain ⟨⟨l, hl, hcases⟩, hnext⟩ := stepSingle_touches th st hs
      rcases hcases with rfl | rfl | rfl
      · exact ⟨[], hl, hsame hnext⟩
      · obtain ⟨hlock, hcalls⟩ := poll_eq (t := w.turnOf th.ident) hidle
        exact ⟨_, hl.trans (congrArg some hlock.symm), hcalls.trans (hsame hnext)⟩
      · exact ⟨[.interrupt], hl, hsame hnext⟩
    · obtain ⟨hlock, hnext⟩ :=
        stepCall_sparesLock (w := w) th purpose (fun st h => hsingle ⟨st, h⟩) hv
      exact ⟨[], hlock.trans hs, hsame hnext⟩

end

/-- A system of threads at a general lock stands for the lock with this number. -/
def lockReplica (k : ℕ) : Replica ThreadLock.System ThreadLock.Action ThreadLock.Call where
  act := ThreadLock.System.act
  calls := ThreadLock.System.calls
  view := lockCall? k
  standsFor s w := w.lockOf? k = some s.lock
  congr hs _ hl := by
    rw [lockOf?, hl]
    exact hs
  enter {s i d} hd hidle := by
    refine (hd.lockCall? (k := k)).imp_right ?_
    rintro ⟨op, hop⟩
    have hact : s.act (.begin i op) = s.beginCall i op.call := by
      simp only [ThreadLock.System.act, hidle]
    refine ⟨.begin i op, fun w hw => ?_, ?_⟩
    · rw [hact]
      exact hw
    · rw [hact, hop]
      rfl
  step {s w th} purpose {c} hs hc := lock_step purpose hs hc
  wrapper _ _ := rfl
  stepWrapper {s w th n c} hs := by
    have hlocks : (w.stepWrapper th n c).1.locks = w.locks := by
      unfold stepWrapper
      split <;> rfl
    rw [lockOf?, hlocks]
    exact hs

/-- A lock that was just put on the shelf, and that nobody has called before, is at the start of a
system of threads at one lock. -/
theorem newLock_reaches {w : World} {me : Ident} {name : String} {m taken : ℕ}
    {backend : Option Backend} (hs : w.Staffed taken)
    (hc : w.callOf? me = some (.single (.newLock name m backend)))
    (hidle : ∀ i, w.sight (lockCall? w.locks.things.length) i = none)
    (hnew : (w.step me).lockOf? w.locks.things.length ≠ none) :
    ∃ b, (lockReplica w.locks.things.length).Reaches (.start b) (w.step me) := by
  have hput (new : SharedLock) :
      World.lockOf? { w with locks := w.locks.put name new } w.locks.things.length =
        some new.lock := by
    simp [lockOf?, Shelf.get?, Shelf.put]
  cases w.takes hs.keyed me with
  | rests hrest hstep =>
    rw [hrest] at hc
    cases hc
  | wrapper th n c hwrapper hw =>
    rw [hwrapper] at hc
    cases hc
  | call th purpose c hcall hme hst =>
    rw [hcall] at hc
    cases hc
    have hlock : ∃ b, (w.step me).lockOf? w.locks.things.length = some (.new b) := by
      rw [lockOf?, hst.locks] at hnew ⊢
      simp only [stepCall, stepSingle] at hnew ⊢
      cases backend with
      | some b => exact ⟨b, hput _⟩
      | none =>
        cases hr : w.interpreters[m]? with
        | some r => exact ⟨r.bootstrap.backend, hput _⟩
        | none =>
          rw [hr] at hnew
          exact absurd (by simp [Shelf.get?]) hnew
    obtain ⟨b, hb⟩ := hlock
    have hbefore : w.sight (lockReplica w.locks.things.length).view =
        (lockReplica w.locks.things.length).calls (.start b) := funext hidle
    refine ⟨b, Replica.reaches_of_update me hb ?_ ?_⟩
    · rw [← hbefore]
      exact hst.others.sight (fun i hi => by cases hi) fun _ _ => rfl
    · have hends : (w.stepCall th purpose (.single (.newLock name m backend))).2.next? = none := by
        simp only [stepCall, stepSingle]
        split <;> rfl
      rcases hst.sight with hgoes | ⟨-, d, hd, hbegun⟩
      · left
        rw [hgoes, hends]
        rfl
      · exact .inr ⟨rfl, d, hd, hbegun⟩

/-- From then on, a general lock of a session and its callers are where a run of a system of threads
at one lock leads. -/
theorem lock_of_session {interpreters : List Interpreter} {early : List Line}
    {s : ThreadLock.System} {k : ℕ} (h : (lockReplica k).Follows s (run interpreters early))
    (late : List Line) (hl : (early ++ late).length * (stepBound + 3) + 2 < 2 ^ 64) :
    ∃ acts, (lockReplica k).Follows (s.run acts) (run interpreters (early ++ late)) :=
  Replica.reaches_later h late hl

end InterpreterLock.Session
