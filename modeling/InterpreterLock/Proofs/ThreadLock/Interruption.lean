import InterpreterLock.Proofs.Parking.Interruption
import InterpreterLock.Proofs.ThreadLock.Wakeup

/-!
# Interruptions of timed waiters

An interruption wakes every sleeper of a lock, and a timed waiter with an older ticket comes back
with it, unless it takes the lock or its time is over. But an interruption is lost on a waiter that
has no ticket when it comes, and on one that finds a signal when it looks: the next ticket is
younger than the interruption, and the waiter goes back to sleep.
-/

set_option autoImplicit false

namespace InterpreterLock.ThreadLock

open Parking (Stance Asleep News Post Delivered)

namespace Acquire

def ahead : Acquire → ℕ
  | .retry .. => 4
  | .checkDeadline .. => 3
  | .wait _ (.start ..) => 2
  | .wait _ (.asleep ..) => 1
  | _ => 0

inductive Onward (terms : Terms) (l : ThreadLock) (ticket : Ticket) : Acquire → Acquire → Prop
  | acquires (span : Span) : Onward terms l ticket (.retry span ticket) (.unlist span .acquired)
  | fails (span : Span) : Onward terms l ticket (.checkDeadline span ticket) (.unlist span .failure)
  | heeds (span : Span) (timeout : Timeout) (deadline : Option Instant)
      (hl : (l.event.signals.look ticket).1 = some .interrupted) (hi : terms.interruptible = true) :
      Onward terms l ticket (.wait span (.check ticket timeout deadline))
        (.unlist span .interrupted)
  | retries (span : Span) (timeout : Timeout) (deadline : Option Instant)
      (hl : News l.event ticket) :
      Onward terms l ticket (.wait span (.check ticket timeout deadline)) (.prepare span)
  | nears {a a' : Acquire} (ht : a'.stance.ticket? = some ticket)
      (hp : a'.stance ≠ .waiting ticket true) (hn : a'.ahead < a.ahead) : Onward terms l ticket a a'

inductive Round (terms : Terms) (t : Turn) (l : ThreadLock) (ticket : Ticket) :
    Acquire → Acquire → Prop
  | onward {a a' : Acquire} (h : Onward terms l ticket a a') : Round terms t l ticket a a'
  | rests (span : Span) (timeout : Timeout) (deadline : Option Instant)
      (hm : t.me ∈ l.event.sleepers) :
      Round terms t l ticket (.wait span (.asleep ticket timeout deadline))
        (.wait span (.asleep ticket timeout deadline))
  | sleeps (span : Span) (timeout : Timeout) (deadline : Option Instant)
      (hl : (l.event.signals.look ticket).1 = none) :
      Round terms t l ticket (.wait span (.check ticket timeout deadline))
        (.wait span (.asleep ticket timeout deadline))
  | expires (span : Span) (timeout : Timeout) (deadline : Option Instant)
      (hl : (l.event.signals.look ticket).1 = none) :
      Round terms t l ticket (.wait span (.check ticket timeout deadline)) (.prepare span)
  | ignores (span : Span) (timeout : Timeout) (deadline : Option Instant)
      (hi : terms.interruptible = false) :
      Round terms t l ticket (.wait span (.check ticket timeout deadline)) (.prepare span)

variable {terms : Terms} {t : Turn} {l : ThreadLock} {ticket : Ticket}

/-- What a waiter goes on with when it has found something. -/
theorem round_afterWait (span : Span) (timeout : Timeout) (deadline : Option Instant)
    (o : WaitOutcome) (hl : (l.event.signals.look ticket).1 = some o) :
    Round terms t l ticket (.wait span (.check ticket timeout deadline))
      (afterWait terms span o) := by
  cases o with
  | signaled => exact .onward (.retries span timeout deadline hl)
  | timedOut => exact absurd hl (Signals.look_ne_timedOut _ _)
  | interrupted =>
    cases hi : terms.interruptible with
    | true =>
      simp only [afterWait, hi, and_self, if_true]
      exact .onward (.heeds span timeout deadline hl hi)
    | false =>
      simp only [afterWait, hi, Bool.false_eq_true, and_false, if_false]
      exact .ignores span timeout deadline hi

theorem round (a : Acquire) (ha : a.stance.ticket? = some ticket) :
    (a.step terms t l).progress.Meets (Round terms t l ticket a) (fun _ => False)
      fun _ => False := by
  cases a with
  | retry span ticket =>
    cases ha
    simp only [step]
    split
    · exact .onward (.acquires span)
    · exact .onward (.nears rfl (by simp [stance]) (by simp [ahead]))
  | checkDeadline span ticket =>
    cases ha
    simp only [step]
    split
    · exact .onward (.nears rfl (by simp [stance, Stance.ofWait]) (by simp [ahead]))
    · split
      · exact .onward (.fails span)
      · exact .onward (.nears rfl (by simp [stance, Stance.ofWait]) (by simp [ahead]))
  | wait span w =>
    cases w with
    | start ticket timeout =>
      cases ha
      exact .onward (.nears rfl (by simp [stance, Stance.ofWait]) (by simp [ahead]))
    | check ticket timeout deadline =>
      cases ha
      cases hl : l.event.signals.look ticket with
      | mk found left =>
        cases found with
        | some o =>
          simp only [step, Wait.step, hl, Progress.within]
          exact round_afterWait span timeout deadline o (by rw [hl])
        | none =>
          simp only [step, Wait.step, hl]
          split
          · exact .expires span timeout deadline (by rw [hl])
          · exact .sleeps span timeout deadline (by rw [hl])
    | asleep ticket timeout deadline =>
      cases ha
      by_cases hr : (l.event.sleepers.contains t.me && !Wait.reached t.now deadline) = true
      · have hm : t.me ∈ l.event.sleepers := by
          simp only [Bool.and_eq_true, List.contains_iff_mem] at hr
          exact hr.1
        simp only [step, Wait.step, hr, if_true]
        exact .rests span timeout deadline hm
      · simp only [step, Wait.step, hr]
        exact .onward (.nears rfl (by simp [stance, Stance.ofWait]) (by simp [ahead]))
  | unlist span status => cases status <;> cases ha
  | _ => cases ha

theorem Round.look_of_sleep {a a' : Acquire} {ticket' : Ticket} (h : Round terms t l ticket a a')
    (ha : a.stance = .waiting ticket false) (ha' : a'.stance = .waiting ticket' true) :
    (l.event.signals.look ticket).1 = none := by
  cases h with
  | onward h =>
    cases h with
    | nears ht hp hn =>
      have heq : ticket' = ticket := by
        rw [ha'] at ht
        exact Option.some.inj ht
      exact absurd (heq ▸ ha') hp
    | _ => simp [stance] at ha'
  | rests => simp [stance, Stance.ofWait] at ha
  | sleeps span timeout deadline hl => exact hl
  | expires span timeout deadline hl => exact hl
  | ignores => simp [stance] at ha'

/-- An acquire that heeds interruptions does not drop one that it finds. -/
theorem Round.look_of_drop {a a' : Acquire} (h : Round terms t l ticket a a')
    (hi : terms.interruptible = true) (ha' : a'.stance = .trying none) :
    News l.event ticket ∨ (l.event.signals.look ticket).1 = none := by
  cases h with
  | onward h =>
    cases h with
    | retries span timeout deadline hl => exact .inl hl
    | nears ht hp hn => simp [ha', Stance.ticket?] at ht
    | _ => simp [stance] at ha'
  | rests => simp [stance, Stance.ofWait] at ha'
  | sleeps => simp [stance, Stance.ofWait] at ha'
  | expires span timeout deadline hl => exact .inr hl
  | ignores span timeout deadline hf => simp [hi] at hf

/-- A call with a ticket goes on. -/
theorem exists_round (terms : Terms) (t : Turn) (l : ThreadLock) (a : Acquire)
    (ha : a.stance.ticket? = some ticket) :
    ∃ a', (a.step terms t l).progress = .going a' ∧ Round terms t l ticket a a' := by
  have h : (a.step terms t l).progress.Meets (Round terms t l ticket a) (fun _ => False)
      fun _ => False := a.round ha
  cases hp : (a.step terms t l).progress with
  | going a' =>
    rw [hp] at h
    exact ⟨a', rfl, h⟩
  | done status =>
    rw [hp] at h
    exact h.elim
  | unwound p =>
    rw [hp] at h
    exact h.elim

end Acquire

namespace Call

variable {terms : Terms} {t : Turn} {l : ThreadLock} {ticket : Ticket}

def stanceAfter (t : Turn) (l : ThreadLock) (c : Call) : Stance :=
  ((c.step t l).progress.next?.map stance).getD .apart

theorem next?_acquire (terms : Terms) (a : Acquire) :
    ((acquire terms a).step t l).progress.next? =
      (a.step terms t l).progress.next?.map (acquire terms) := by
  simp only [step]
  cases (a.step terms t l).progress <;> rfl

theorem stanceAfter_acquire {a a' : Acquire} (hn : (a.step terms t l).progress.next? = some a') :
    (acquire terms a).stanceAfter t l = a'.stance := by
  rw [stanceAfter, next?_acquire, hn]
  rfl

theorem look_of_sleep {c : Call} {ticket' : Ticket} (hc : c.stance = .waiting ticket false)
    (hb : c.stanceAfter t l = .waiting ticket' true) :
    (l.event.signals.look ticket).1 = none := by
  cases c with
  | release r => cases r <;> cases hc
  | acquire terms a =>
    have hs : a.stance = .waiting ticket false := hc
    obtain ⟨a', hp, hr⟩ := a.exists_round terms t l (by rw [hs]; rfl)
    rw [stanceAfter_acquire (by rw [hp]; rfl)] at hb
    exact hr.look_of_sleep hs hb

theorem next?_eq_acquire {c : Call} {a' : Acquire}
    (hn : (c.step t l).progress.next? = some (.acquire terms a')) :
    ∃ a, c = .acquire terms a ∧ (a.step terms t l).progress.next? = some a' := by
  cases c with
  | release r =>
    cases hp : (r.step t l).progress <;> simp [step, hp, Progress.within, Progress.next?] at hn
  | acquire terms' a =>
    rw [next?_acquire, Option.map_eq_some_iff] at hn
    obtain ⟨a'', hp, he⟩ := hn
    cases he
    exact ⟨a, rfl, hp⟩

end Call

namespace System

theorem stance_stepCall (s : System) (t : Turn) (c : Call) :
    (s.stepCall t c).stance = Function.update s.stance t.me (c.stanceAfter t s.lock) :=
  Parking.standing_update Call.stance s.calls t.me _

variable {s : System}

theorem stance_of_call {i : Ident} {c : Call} (hc : s.calls i = some c) :
    s.stance i = c.stance := by
  simp [stance, Parking.standing, hc]

theorem parks {t : Turn} {c : Call} (hc : s.calls t.me = some c) :
    Parking.Step t.me c.notice s.lock.lot (s.stance t.me) (s.stepCall t c).lock.lot
      (c.stanceAfter t s.lock) :=
  parking hc

theorem stance_beginCall {i : Ident} (hc : s.calls i = none) (op : Op) :
    (s.beginCall i op.call).stance = s.stance :=
  Parking.standing_begin Call.stance s.calls i op.call hc op.stance_call

end System

structure Vigil where
  system : System
  post : Ident → Post := fun _ => {}

namespace Vigil

def start : Vigil := { system := .start .posix }

def act (v : Vigil) (a : Action) : Vigil where
  system := v.system.act a
  post :=
    match a with
    | .step t =>
      Function.update v.post t.me ((v.post t.me).afterStep v.system.lock.event
        (v.system.stance t.me) ((v.system.act a).stance t.me))
    | .interrupt => fun i => (v.post i).afterInterrupt (v.system.stance i)
    | .begin .. | .rouse _ => v.post

def run (v : Vigil) (acts : List Action) : Vigil := acts.foldl act v

def listens (v : Vigil) (i : Ident) : Bool :=
  match v.system.calls i with
  | some (.acquire terms _) => terms.interruptible
  | _ => false

theorem listens_iff (v : Vigil) (i : Ident) : v.listens i = true ↔
    ∃ terms a, v.system.calls i = some (.acquire terms a) ∧ terms.interruptible = true := by
  unfold listens
  split
  · rename_i terms a h
    simp [h]
  · rename_i h
    simp only [Bool.false_eq_true, false_iff, not_exists, not_and]
    exact fun terms a hc => absurd hc (h terms a)

structure Kept (v : Vigil) : Prop where
  delivered : Delivered v.system.lock.event v.system.stance v.post
  heeded : ∀ i, v.listens i = true → (v.system.stance i).isEnlisted = true →
    2 ^ 64 ∣ (v.post i).ignored

theorem kept_start : Kept start where
  delivered := Parking.delivered_new _ (fun _ => rfl) _
  heeded i hl := by simp [listens, start, System.start] at hl

variable {v : Vigil} {t : Turn}

/-- An acquire that heeds interruptions drops none that it finds. -/
theorem Kept.heeded_step (hv : v.Kept) {terms : Terms} {a a' : Acquire}
    (hc : v.system.calls t.me = some (.acquire terms a)) (hi : terms.interruptible = true)
    (hn : (a.step terms t v.system.lock).progress.next? = some a')
    (he : a'.stance.isEnlisted = true) :
    2 ^ 64 ∣ ((v.post t.me).afterStep v.system.lock.event (v.system.stance t.me)
      a'.stance).ignored := by
  have hs := System.parks hc
  rw [Call.stanceAfter_acquire hn] at hs
  have hsorts := Post.sorts_step hs (v.post t.me)
  have hl : v.listens t.me = true := (v.listens_iff _).mpr ⟨terms, a, hc, hi⟩
  -- A ticket goes without a signal only when the look has found nothing at all.
  refine hsorts.ignored he (hv.heeded t.me hl) fun ticket ha hd hnews => ?_
  have hst : a.stance = .waiting ticket false := by rw [← ha, System.stance_of_call hc]; rfl
  obtain ⟨a'', hp, hr⟩ := a.exists_round terms t v.system.lock (by rw [hst]; rfl)
  rw [hp] at hn
  cases hn
  exact hv.delivered.read_of_look (by rw [ha]; rfl) ((hr.look_of_drop hi hd).resolve_left hnews)

theorem Kept.step (hv : v.Kept) {c : Call} (hc : v.system.calls t.me = some c) :
    (v.act (.step t)).Kept := by
  have hsys : v.system.act (.step t) = v.system.stepCall t c := by simp only [System.act, hc]
  have hst : (v.act (.step t)).system.stance =
      Function.update v.system.stance t.me (c.stanceAfter t v.system.lock) := by
    rw [← System.stance_stepCall, ← hsys]
    rfl
  have hpost : (v.act (.step t)).post =
      Function.update v.post t.me ((v.post t.me).afterStep v.system.lock.event
        (v.system.stance t.me) (c.stanceAfter t v.system.lock)) := by
    simp only [Vigil.act, hsys, System.stance_stepCall, Function.update_self]
  constructor
  · have hd := hv.delivered.step (System.parks hc) rfl fun ticket ticket' ha hb =>
      Call.look_of_sleep (by rw [← System.stance_of_call hc]; exact ha) hb
    rw [hst, hpost]
    simp only [Vigil.act, hsys]
    exact hd
  · intro i hl he
    obtain ⟨terms, a', hca, hi⟩ := (listens_iff _ i).mp hl
    rw [hst] at he
    rw [hpost]
    simp only [Vigil.act, System.act, hc, System.stepCall] at hca
    by_cases hme : i = t.me
    · subst hme
      rw [Function.update_self] at hca he ⊢
      obtain ⟨a, rfl, hn⟩ := Call.next?_eq_acquire hca
      rw [Call.stanceAfter_acquire hn] at he ⊢
      exact hv.heeded_step hc hi hn he
    · rw [Function.update_of_ne hme] at hca he ⊢
      exact hv.heeded i ((v.listens_iff i).mpr ⟨terms, a', hca, hi⟩) he

theorem Kept.begin (hv : v.Kept) {i : Ident} (hc : v.system.calls i = none) (op : Op) :
    Kept ⟨v.system.beginCall i op.call, v.post⟩ := by
  have hst := System.stance_beginCall hc op
  refine ⟨?_, fun j hl he => ?_⟩
  · rw [hst]
    exact hv.delivered
  · obtain ⟨terms, a, hca, hi⟩ := (listens_iff _ j).mp hl
    rw [hst] at he
    by_cases hj : j = i
    · subst hj
      simp [System.stance, Parking.standing, hc, Stance.isEnlisted] at he
    · simp only [System.beginCall, Function.update_of_ne hj] at hca
      exact hv.heeded j ((v.listens_iff j).mpr ⟨terms, a, hca, hi⟩) he

theorem Kept.act (hv : v.Kept) (a : Action) : (v.act a).Kept := by
  cases a with
  | begin i op =>
    cases hc : v.system.calls i with
    | some c => simpa only [Vigil.act, System.act, hc] using hv
    | none => simpa only [Vigil.act, System.act, hc] using hv.begin hc op
  | rouse i => exact ⟨hv.delivered.rouse i, hv.heeded⟩
  | interrupt =>
    refine ⟨hv.delivered.interrupt, fun i hl he => ?_⟩
    simp only [Vigil.act, Post.ignored_afterInterrupt]
    exact hv.heeded i hl he
  | step t =>
    cases hc : v.system.calls t.me with
    | some c => exact hv.step hc
    | none =>
      have hs : v.system.act (.step t) = v.system := by simp only [System.act, hc]
      have hact : v.act (.step t) = v := by
        simp only [Vigil.act, hs, Post.afterStep_self, Function.update_eq_self]
      rw [hact]
      exact hv

theorem kept_run (acts : List Action) : (start.run acts).Kept :=
  Run.lasts (P := Kept) (fun _ a hv => hv.act a) acts start kept_start

structure Heeds (v : Vigil) (i : Ident) : Prop where
  balanced : (v.system.stance i).isEnlisted = true →
    (v.post i).Balanced ∧ 2 ^ 64 ∣ (v.post i).ignored
  asleep : Asleep v.system.lock.event v.system.stance i → 2 ^ 64 ∣ (v.post i).unread
  lost : Asleep v.system.lock.event v.system.stance i → (v.post i).sent < 2 ^ 64 →
    (v.post i).sent = (v.post i).early + (v.post i).outdone
  onward : ∀ t terms a ticket, t.me = i → v.system.calls i = some (.acquire terms a) →
    a.stance.ticket? = some ticket → ¬2 ^ 64 ∣ (v.post i).unread →
    ∃ a', (a.step terms t v.system.lock).progress = .going a' ∧
      Acquire.Onward terms v.system.lock ticket a a'

theorem Asleep.isEnlisted {e : Event} {st : Ident → Stance} {i : Ident} (h : Asleep e st i) :
    (st i).isEnlisted = true := by
  obtain ⟨⟨t, ht⟩, -⟩ := h
  rw [ht]
  rfl

theorem Kept.lost (hv : v.Kept) {i : Ident} (hl : v.listens i = true)
    (hs : Asleep v.system.lock.event v.system.stance i) (hn : (v.post i).sent < 2 ^ 64) :
    (v.post i).sent = (v.post i).early + (v.post i).outdone := by
  have he : (v.system.stance i).isEnlisted = true := Asleep.isEnlisted hs
  have hb : (v.post i).Balanced := hv.delivered.balanced i he
  simp only [Post.Balanced] at hb
  have hu : (v.post i).unread = 0 :=
    Nat.eq_zero_of_dvd_of_lt (hv.delivered.read i hs.2) (by omega)
  have hi : (v.post i).ignored = 0 := Nat.eq_zero_of_dvd_of_lt (hv.heeded i hl he) (by omega)
  omega

theorem Kept.onward (hv : v.Kept) {terms : Terms} {a : Acquire} {ticket : Ticket}
    (hc : v.system.calls t.me = some (.acquire terms a)) (hi : terms.interruptible = true)
    (ht : a.stance.ticket? = some ticket) (hu : ¬2 ^ 64 ∣ (v.post t.me).unread) :
    ∃ a', (a.step terms t v.system.lock).progress = .going a' ∧
      Acquire.Onward terms v.system.lock ticket a a' := by
  have hst : (v.system.stance t.me).ticket? = some ticket := by
    rw [System.stance_of_call hc]
    exact ht
  obtain ⟨a', hp, hr⟩ := a.exists_round terms t v.system.lock ht
  refine ⟨a', hp, ?_⟩
  cases hr with
  | onward h => exact h
  | rests span timeout deadline hm => exact absurd (hv.delivered.read t.me hm) hu
  | sleeps span timeout deadline hl => exact absurd (hv.delivered.read_of_look hst hl) hu
  | expires span timeout deadline hl => exact absurd (hv.delivered.read_of_look hst hl) hu
  | ignores span timeout deadline hf => simp [hi] at hf

theorem interruptions_traced (acts : List Action) (i : Ident) :
    (start.run acts).listens i = true → (start.run acts).Heeds i := by
  intro hl
  have hv := kept_run acts
  obtain ⟨terms, a, hc, hi⟩ := (listens_iff _ i).mp hl
  constructor
  case balanced => exact fun he => ⟨hv.delivered.balanced i he, hv.heeded i hl he⟩
  case asleep => exact fun hs => hv.delivered.read i hs.2
  case lost => exact hv.lost hl
  case onward =>
    rintro t terms' a' ticket rfl hc' ht hu
    rw [hc] at hc'
    cases hc'
    exact hv.onward hc hi ht hu

/-- A sleeper is interrupted: it has that to read, and is awake. -/
theorem interruptions_traced_sleeper :
    let a : Ident := ⟨1, by decide⟩
    let b : Ident := ⟨2, by decide⟩
    let turns (n : ℕ) (i : Ident) : List Action := List.replicate n (.step { me := i, now := ⟨0⟩ })
    let v := start.run (.begin a (.acquire .polling) :: turns 2 a ++
      .begin b (.acquire (.timed .infinite)) :: turns 8 b ++ [.interrupt])
    v.listens b = true ∧ (v.post b).unread = 1 ∧ v.Heeds b := by
  intro a b turns v
  exact ⟨by decide, by decide, interruptions_traced _ b (by decide)⟩

/-- An interruption comes when a waiter has enlisted and has no ticket; another one comes when a
barging thread has taken the lock before the waiter that the release woke. Both waiters go back to
sleep. -/
theorem interruption_lost :
    let a : Ident := ⟨1, by decide⟩
    let b : Ident := ⟨2, by decide⟩
    let c : Ident := ⟨3, by decide⟩
    let turns (n : ℕ) (i : Ident) : List Action := List.replicate n (.step { me := i, now := ⟨0⟩ })
    let early := start.run (.begin a (.acquire .polling) :: turns 2 a ++
      .begin b (.acquire (.timed .infinite)) :: turns 3 b ++ .interrupt :: turns 5 b)
    let outdone := start.run (.begin a (.acquire .polling) :: turns 2 a ++
      .begin b (.acquire (.timed .infinite)) :: turns 8 b ++
      .begin a .release :: turns 3 a ++ .begin c (.acquire .polling) :: turns 2 c ++
      .interrupt :: turns 7 b)
    (early.listens b = true ∧ Asleep early.system.lock.event early.system.stance b ∧
      (early.post b).sent = 1 ∧ (early.post b).early = 1) ∧
    (outdone.listens b = true ∧ Asleep outdone.system.lock.event outdone.system.stance b ∧
      (outdone.post b).sent = 1 ∧ (outdone.post b).outdone = 1) := by
  intro a b c turns early outdone
  have hearly : Asleep early.system.lock.event early.system.stance b :=
    ⟨⟨⟨0, 1⟩, by decide⟩, by decide⟩
  have houtdone : Asleep outdone.system.lock.event outdone.system.stance b :=
    ⟨⟨⟨1, 1⟩, by decide⟩, by decide⟩
  exact ⟨⟨by decide, hearly, by decide, by decide⟩, by decide, houtdone, by decide, by decide⟩

end Vigil

end InterpreterLock.ThreadLock
