import InterpreterLock.Proofs.Parking.Sound
import InterpreterLock.Proofs.ThreadLock.System

/-!
# No sleeper of a general lock is forgotten

A waiter of a general lock may give up, and it may do so after it was sent the signal that another
waiter needs. It tries for the lock first, though, and until then it is awake for the others; when
its attempt has failed the lock was locked, and whoever unlocks it looks for waiters anew.
-/

set_option autoImplicit false

namespace InterpreterLock.ThreadLock

open Parking (Parks Timely Watched Asleep Retries)

variable {t : Turn} {l : ThreadLock}

theorem lot_of_unlocked (h : l.locked = false) : l.lot = ⟨true, l.waiters, l.event⟩ := by
  simp [lot, h]

theorem lot_of_locked (h : l.locked = true) : l.lot = ⟨false, l.waiters, l.event⟩ := by
  simp [lot, h]

theorem Acquire.parks (terms : Terms) (a : Acquire) :
    Parks lot t.me l a.notice a.stance stance (a.step terms t l) := by
  cases a with
  | tryLock =>
    cases hl : l.locked with
    | false =>
      simp only [Parks, step, hl, Bool.not_false, if_true, Progress.Meets, lot_of_unlocked hl]
      exact .barge _ _
    | true =>
      by_cases hn : terms.timeout.isNonBlocking = true
      · simp only [Parks, step, hl, hn, Bool.not_true, if_true, Progress.Meets]
        exact .stay _ _
      · simp only [Parks, step, hl, hn, Bool.not_true, Bool.false_eq_true, if_false, Progress.Meets]
        exact .stay _ _
  | readClock => exact .stay _ _
  | enlist span => exact .enlist _ _ _
  | prepare span => exact .prepare _
  | retry span ticket =>
    cases hl : l.locked with
    | false =>
      simp only [Parks, step, hl, Bool.not_false, if_true, Progress.Meets, lot_of_unlocked hl]
      exact .win _ _ _
    | true =>
      simp only [Parks, step, hl, Bool.not_true, Bool.false_eq_true, if_false, Progress.Meets,
        lot_of_locked hl]
      exact .lose _ _ _ _ (.inl rfl)
  | checkDeadline span ticket =>
    cases hd : span.deadline with
    | none =>
      simp only [Parks, step, hd, Progress.Meets]
      exact .commit _ _
    | some d =>
      simp only [step, hd]
      apply Parks.ite
      · intro _
        exact .quit _ _
      · intro _
        exact .commit _ _
  | wait span w =>
    have hw := Parking.Step.ofWait t (!l.locked) l.waiters l.event w
    simp only [Parks, step, Progress.meets_within]
    refine hw.imp (fun _ h => h) (fun o ho => ?_) fun _ h => h.elim
    by_cases hi : o = .interrupted ∧ terms.interruptible = true
    · simp only [afterWait, hi, and_self, if_true, Progress.Meets]
      exact ho.2 hi.1
    · simp only [afterWait, hi, if_false, Progress.Meets]
      exact ho.1
  | unlist span status => cases status <;> exact .unlist _ _ _
  | recordContention span => exact .stay _ _
  | checkLocked status =>
    apply Parks.ite
    · intro _
      exact .stay _ _
    · intro _
      exact .stay _ _
  | lookForWaiters status =>
    apply Parks.ite
    · intro _
      exact .stay _ _
    · intro _
      exact .stay _ _
  | passOn status => exact .signal _ _ _ _ _ (.inl rfl)
  | recordStatus status => exact .stay _ _

theorem Release.parks (r : Release) :
    Parks lot t.me l r.notice r.stance stance (r.step t l) := by
  cases r with
  | unlock =>
    apply Parks.ite
    · intro _
      exact .free _ _ _
    · intro _
      exact .stay _ _
  | lookForWaiters =>
    by_cases hw : l.waiters = 0
    · simp only [Parks, step, hw, if_true, Progress.Meets, lot]
      exact .ignore _ _
    · simp only [Parks, step, hw, if_false, Progress.Meets]
      exact .stay _ _
  | signal => exact .signal _ _ _ _ _ (.inr rfl)

theorem Call.parks (c : Call) : Parks lot t.me l c.notice c.stance stance (c.step t l) := by
  cases c with
  | acquire terms a =>
    have ha := a.parks (t := t) (l := l) terms
    exact ha.within (Call.acquire terms) (fun status => .done (Sum.inl status)) (fun _ => rfl)
      fun _ => trivial
  | release r =>
    exact r.parks.within Call.release (fun wasLocked => .done (Sum.inr wasLocked)) (fun _ => rfl)
      fun _ => trivial

theorem Op.stance_call (op : Op) : op.call.stance = .apart := by cases op <;> rfl

namespace System

variable {s : System} {c : Call}

theorem parking (hc : s.calls t.me = some c) :
    Parking.Step t.me c.notice s.lock.lot (s.stance t.me) (s.stepCall t c).lock.lot
      (((c.step t s.lock).progress.next?.map Call.stance).getD .apart) := by
  have ha : s.stance t.me = c.stance := by simp [stance, Parking.standing, hc]
  rw [ha]
  exact (c.parks (t := t) (l := s.lock)).step

theorem watched_act {backend : Backend} (hs : Watched backend s.lock.lot s.stance s.missed)
    (a : Action) (hm : backend = .posix → Timely (s.act a).missed) :
    Watched backend (s.act a).lock.lot (s.act a).stance (s.act a).missed := by
  cases a with
  | begin i op =>
    cases hc : s.calls i with
    | none =>
      have hb : (s.beginCall i op.call).stance = s.stance :=
        Parking.standing_begin Call.stance s.calls i op.call hc (Op.stance_call op)
      simp only [System.act, hc]
      rw [hb]
      exact hs
    | some c =>
      simp only [System.act, hc]
      exact hs
  | step t =>
    cases hc : s.calls t.me with
    | none =>
      simp only [System.act, hc]
      exact hs
    | some c =>
      have hb : (s.stepCall t c).stance = Function.update s.stance t.me _ :=
        Parking.standing_update Call.stance s.calls t.me _
      simp only [System.act, hc] at hm ⊢
      rw [hb]
      exact hs.step (parking hc) rfl hm
  | interrupt => exact hs.interrupt
  | rouse i => exact hs.rouse i

/-- While the lock is not locked, a sleeper has another thread that has still to look for waiters
and to signal, or that is awake and has still to try for the lock. A thread that gives up is never
the one that is needed. -/
def Attentive (s : System) : Prop :=
  s.lock.locked = false → ∀ i, Asleep s.lock.event s.stance i →
    ∃ j, j ≠ i ∧ (s.stance j = .releasing ∨ Retries s.lock.event s.stance j)

theorem lock_attentive_of_timely (backend : Backend) (acts : List Action)
    (hm : backend = .posix →
      ∀ early, early <+: acts → Timely ((start backend).run early).missed) :
    ((start backend).run acts).Attentive := by
  have hs : Watched backend ((start backend).run acts).lock.lot ((start backend).run acts).stance
      ((start backend).run acts).missed :=
    Run.keeps (P := fun s : System => Watched backend s.lock.lot s.stance s.missed)
      (Q := fun s => backend = .posix → Timely s.missed)
      (fun s a hs _ hm => watched_act hs a hm) acts _
      (Parking.watched_new backend true fun _ => 0) (fun _ _ => trivial : ∀ a ∈ acts, True)
      fun early he hb => hm hb early he
  intro hl i hi
  exact hs.sound.attends (by simp [lot, hl]) hi

theorem missed_act_le (s : System) (a : Action) (i : Ident) :
    (s.act a).missed i ≤ s.missed i + 1 := by
  cases a with
  | begin j op => cases hc : s.calls j <;> simp [act, hc, beginCall]
  | interrupt => exact Nat.le_succ _
  | rouse j => exact Nat.le_succ _
  | step t =>
    cases hc : s.calls t.me with
    | none => simp [act, hc]
    | some c =>
      simp only [act, hc, stepCall_missed]
      exact c.notice.missed_le t.me s.stance s.missed i

/-- No shorter run than a machine word counts comes to a state that is not timely. -/
theorem timely_of_length (backend : Backend) (acts : List Action) (h : acts.length < 2 ^ 64) :
    Timely ((start backend).run acts).missed := by
  intro i
  have hle : ((start backend).run acts).missed i ≤ _ :=
    Run.grows (f := fun s : System => s.missed i) (fun s a => missed_act_le s a i) acts _
  have h0 : (start backend).missed i = 0 := rfl
  simp only [h0] at hle
  omega

/-- The lock is released and the signal has woken a waiter that may give up; another one sleeps. -/
theorem lock_attentive_signaled :
    let a : Ident := ⟨1, by decide⟩
    let b : Ident := ⟨2, by decide⟩
    let c : Ident := ⟨3, by decide⟩
    let turn i : Action := .step { me := i, now := ⟨0⟩ }
    let acts := .begin a (.acquire .polling) :: List.replicate 2 (turn a) ++
      .begin b (.acquire (.timed (.ofMillis 1))) :: List.replicate 8 (turn b) ++
      .begin c (.acquire .blocking) :: List.replicate 8 (turn c) ++
      .begin a .release :: List.replicate 3 (turn a)
    let s := (start .posix).run acts
    s.lock.locked = false ∧ Asleep s.lock.event s.stance c ∧ s.stance a = .apart ∧
      s.Attentive := by
  intro a b c turn acts s
  refine ⟨by decide, ⟨⟨⟨0, 0⟩, by decide⟩, by decide⟩, by decide, ?_⟩
  apply lock_attentive_of_timely .posix acts
  intro _ early he
  apply timely_of_length
  have hl := he.length_le
  have hacts : acts.length = 25 := rfl
  omega

end System

end InterpreterLock.ThreadLock
