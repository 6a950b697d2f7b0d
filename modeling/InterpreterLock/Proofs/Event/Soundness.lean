import InterpreterLock.Proofs.Event.Tickets
import InterpreterLock.Proofs.Parking.Sound

/-!
# What holds of threads at an event

A wait that returns for a signal or an interruption has found one that was sent since its ticket was
taken; one that returns for the time had a time limit. Who sleeps is listed once, and has been sent
no broadcast. The single signal of an auto-reset event is found once, and while it is pending nobody
sleeps unless another thread has been woken. Every action keeps all of this.
-/

set_option autoImplicit false

namespace InterpreterLock

namespace Event

variable {backend : Backend} {n m : Sent} {pending : Bool}

structure Issued.Sound (backend : Backend) (n : Sent) (p : Issued) : Prop where
  ticket : p.ticket = p.sent.ticket backend
  le : p.sent ≤ n

theorem Issued.Sound.later {p : Issued} (h : p.Sound backend n) (hle : n ≤ m) :
    p.Sound backend m := ⟨h.ticket, Sent.le_trans h.le hle⟩

structure Stay.Sound (backend : Backend) (n : Sent) (y : Stay) : Prop where
  issued : y.issued.Sound backend n
  ticket : y.place.ticket = y.issued.ticket
  timeout : y.place.timeout = y.timeout
  deadline : y.timeout.isInfinite = true → y.place.deadline? = none
  hasSlept : y.place.isAsleep = true → y.hasSlept = true

theorem Stay.Sound.later {y : Stay} (h : y.Sound backend n) (hle : n ≤ m) : y.Sound backend m :=
  { h with issued := h.issued.later hle }

theorem Stay.Sound.moves {y : Stay} {w : Wait} {b : Bool} (h : y.Sound backend n)
    (hticket : w.ticket = y.place.ticket) (htimeout : w.timeout = y.place.timeout)
    (hdeadline : y.timeout.isInfinite = true → w.deadline? = none)
    (hslept : w.isAsleep = true → b = true) :
    Stay.Sound backend n { y with place := w, hasSlept := b } where
  issued := h.issued
  ticket := hticket.trans h.ticket
  timeout := htimeout.trans h.timeout
  deadline := hdeadline
  hasSlept := hslept

theorem Stay.Sound.of_check {y : Stay} {ticket : Ticket} {timeout : Timeout}
    {deadline : Option Instant} (h : y.Sound backend n)
    (hy : y.place = .check ticket timeout deadline) :
    y.issued.ticket = ticket ∧ y.timeout = timeout ∧
      (timeout.isInfinite = true → deadline = none) := by
  have hticket : y.issued.ticket = ticket := by
    rw [← h.ticket, hy]
    rfl
  have htimeout : y.timeout = timeout := by
    rw [← h.timeout, hy]
    rfl
  have hdeadline := h.deadline
  rw [hy, htimeout] at hdeadline
  exact ⟨hticket, htimeout, hdeadline⟩

structure Return.Sound (backend : Backend) (r : Return) : Prop where
  broadcast : r.issued.sent.alls < r.sent.alls → Sent.Timely backend r.issued.sent r.sent →
    r.outcome = .signaled
  signaled_iff : backend = .posix → Sent.Timely backend r.issued.sent r.sent →
    (r.outcome = .signaled ↔ r.issued.sent.count backend < r.sent.count backend)
  interrupted : r.outcome = .interrupted → backend = .posix ∧
    r.issued.sent.interrupts < r.sent.interrupts ∧
      (Sent.Timely backend r.issued.sent r.sent →
        r.sent.count backend = r.issued.sent.count backend)
  infinite : r.timeout.isInfinite = true → r.outcome ≠ .timedOut

/-- It has returned for a signal, but no broadcast was sent since its ticket was taken. -/
def Return.isUnexplained (r : Return) : Bool :=
  r.outcome = .signaled && r.issued.sent.alls = r.sent.alls

theorem Issued.Sound.look_posix_iff {p : Issued} (hp : p.Sound .posix n)
    (ht : Sent.Timely .posix p.sent n) :
    ((n.signals pending .posix).look p.ticket).1 = some .signaled ↔
      p.sent.count .posix < n.count .posix := by
  rw [hp.ticket]
  exact Sent.look_posix_iff hp.le ht

theorem Issued.Sound.look_of_broadcast {p : Issued} (hp : p.Sound backend n)
    (ht : Sent.Timely backend p.sent n) (halls : p.sent.alls < n.alls) :
    ((n.signals pending backend).look p.ticket).1 = some .signaled := by
  rw [hp.ticket]
  exact Sent.look_of_broadcast hp.le ht halls

/-- What a wait returns that finds something. -/
theorem Return.sound_of_look {r : Return} (pending : Bool) (hi : r.issued.Sound backend r.sent)
    (hl : ((r.sent.signals pending backend).look r.issued.ticket).1 = some r.outcome) :
    r.Sound backend where
  broadcast halls ht := by
    rw [hi.look_of_broadcast ht halls] at hl
    exact (Option.some_inj.mp hl).symm
  signaled_iff := by
    rintro rfl ht
    rw [← Option.some_inj, ← hl]
    exact hi.look_posix_iff ht
  interrupted ho := by
    rw [hi.ticket, ho] at hl
    exact Sent.look_interrupted hi.le hl
  infinite _ ho := by
    rw [ho] at hl
    exact Signals.look_ne_timedOut _ _ hl

/-- What a wait returns that finds nothing and whose time is up. -/
theorem Return.sound_of_expired {r : Return} (pending : Bool) (hi : r.issued.Sound backend r.sent)
    (hl : ((r.sent.signals pending backend).look r.issued.ticket).1 = none)
    (ho : r.outcome = .timedOut) (hinfinite : r.timeout.isInfinite = false) :
    r.Sound backend where
  broadcast halls ht := by
    rw [hi.look_of_broadcast ht halls] at hl
    cases hl
  signaled_iff := by
    rintro rfl ht
    rw [ho, ← hi.look_posix_iff ht, hl]
    simp
  interrupted h := by
    rw [ho] at h
    cases h
  infinite h := by
    rw [hinfinite] at h
    cases h

namespace System

variable {s s' : System} {a : Action} {i : Ident} {y : Stay} {e : Event}

theorem forall_update {P : Stay → Prop} {stays : Ident → Option Stay} {o : Option Stay}
    (hold : ∀ j y, stays j = some y → P y) (hnew : ∀ y, o = some y → P y) (j : Ident) (y : Stay)
    (h : Function.update stays i o j = some y) : P y := by
  by_cases hj : j = i
  · subst hj
    rw [Function.update_self] at h
    exact hnew y h
  · rw [Function.update_of_ne hj] at h
    exact hold j y h

theorem forall_update_some {P : Stay → Prop} {stays : Ident → Option Stay}
    (hold : ∀ j y, stays j = some y → P y) (hnew : P y) :
    ∀ j y', Function.update stays i (some y) j = some y' → P y' :=
  forall_update hold fun _ h => Option.some_inj.mp h ▸ hnew

/-- A wait stays where it is but for the steps of its own thread. -/
theorem Acts.stays_of_other (h : s.Acts a s') (hi : s.stays i = some y)
    (ha : a.isStepOf i = false) : s'.stays i = some y := by
  cases h with
  | enter j n timeout p hj hp =>
    have hne : i ≠ j := by
      rintro rfl
      rw [hj] at hi
      cases hi
    exact (stays_enter_of_ne _ _ hne).trans hi
  | begin t | sleep t | rest t | wake t =>
    have hne : i ≠ t.me := fun h => of_decide_eq_false ha h.symm
    exact (stays_move_of_ne _ _ hne).trans hi
  | hear t | expire t =>
    have hne : i ≠ t.me := fun h => of_decide_eq_false ha h.symm
    exact (stays_leave_of_ne _ _ _ hne).trans hi
  | _ => exact hi

theorem Acts.sent_le (h : s.Acts a s') : s.sent ≤ s'.sent := by
  cases h with
  | signalOne pick => exact ⟨Nat.le_succ _, Nat.le_refl _, Nat.le_refl _⟩
  | signalAll => exact ⟨Nat.le_refl _, Nat.le_succ _, Nat.le_refl _⟩
  | interrupt => exact ⟨Nat.le_refl _, Nat.le_refl _, Nat.le_succ _⟩
  | _ => exact Sent.le_refl _

def Woken (s : System) (i : Ident) : Prop :=
  ∃ y, s.stays i = some y ∧ y.hasSlept = true ∧ i ∉ s.event.sleepers

structure Kept (backend : Backend) (s : System) : Prop where
  shown : s.event.signals = s.sent.signals s.event.signals.isPending backend
  issued : ∀ p ∈ s.issued, p.Sound backend s.sent
  stays : ∀ i y, s.stays i = some y → y.Sound backend s.sent
  returns : ∀ r ∈ s.returns, r.Sound backend
  listed : Parking.Listed s.event s.stance
  current : ∀ i ∈ s.event.sleepers, ∀ y, s.stays i = some y →
    Sent.Timely backend y.issued.sent s.sent → y.issued.sent.alls = s.sent.alls
  consumed : backend = .windows →
    s.returns.countP Return.isUnexplained + s.event.signals.isPending.toNat ≤ s.sent.ones
  attended : s.event.signals.isPending = true → s.event.sleepers ≠ [] → ∃ j, s.Woken j

theorem Kept.not_mem_of_none (hs : s.Kept backend) (hi : s.stays i = none) :
    i ∉ s.event.sleepers :=
  hs.listed.not_mem (by simp [stance_of_none hi])

theorem Kept.not_mem_of_awake (hs : s.Kept backend) (hi : s.stays i = some y)
    (hy : y.place.isAsleep = false) : i ∉ s.event.sleepers := by
  refine hs.listed.not_mem fun t ht => ?_
  rw [stance_of_stays hi] at ht
  cases hp : y.place with
  | asleep ticket timeout deadline => simp [hp, Wait.isAsleep] at hy
  | _ => simp [hp, Parking.Stance.ofWait] at ht

theorem shown_of_eq {g : Signals} (h : g = n.signals pending backend) :
    g = n.signals g.isPending backend := by
  rw [h, Sent.signals_isPending]

/-- Who looks takes the pending signal. -/
theorem Kept.left_of_look (hs : s.Kept backend) {ticket : Ticket} {found : Option WaitOutcome}
    {left : Signals} (hl : s.event.signals.look ticket = (found, left)) :
    left = s.sent.signals false backend := by
  rw [← s.sent.look_left s.event.signals.isPending backend ticket, ← hs.shown, hl]

theorem Kept.shown_act (hs : s.Kept backend) (h : s.Acts a s') :
    s'.event.signals = s'.sent.signals s'.event.signals.isPending backend := by
  cases h with
  | hear t y ticket timeout deadline o left ht hy hl =>
    exact shown_of_eq (hs.left_of_look hl)
  | signalOne pick =>
    apply shown_of_eq
    rw [← Sent.afterSignalOne_signals, ← hs.shown]
    rfl
  | signalAll =>
    apply shown_of_eq
    rw [← Sent.afterSignalAll_signals, ← hs.shown]
    rfl
  | interrupt =>
    apply shown_of_eq
    rw [← Sent.afterInterrupt_signals, ← hs.shown]
    exact signals_interrupt s.event
  | _ => exact hs.shown

theorem Kept.issued_act (hs : s.Kept backend) (h : s.Acts a s') :
    ∀ p ∈ s'.issued, p.Sound backend s'.sent := by
  cases h with
  | prepare =>
    intro p hp
    rcases List.mem_append.mp hp with hold | hnew
    · exact hs.issued p hold
    · obtain rfl := List.mem_singleton.mp hnew
      refine ⟨?_, Sent.le_refl _⟩
      change s.event.signals.ticket = _
      rw [hs.shown, Sent.ticket_signals]
  | signalOne pick => exact fun p hp => (hs.issued p hp).later (Acts.signalOne pick).sent_le
  | signalAll => exact fun p hp => (hs.issued p hp).later Acts.signalAll.sent_le
  | interrupt => exact fun p hp => (hs.issued p hp).later Acts.interrupt.sent_le
  | _ => exact hs.issued

theorem Kept.stays_act (hs : s.Kept backend) (h : s.Acts a s') :
    ∀ i y, s'.stays i = some y → y.Sound backend s'.sent := by
  have later : ∀ i y, s.stays i = some y → y.Sound backend s'.sent :=
    fun i y hi => (hs.stays i y hi).later h.sent_le
  cases h with
  | enter i n timeout p hi hp =>
    exact forall_update_some later
      ⟨hs.issued p hp, rfl, rfl, fun _ => rfl, fun hasleep => by cases hasleep⟩
  | begin t y ticket timeout ht hy =>
    have hsound := later _ y ht
    have htimeout : timeout = y.timeout := by
      rw [← hsound.timeout, hy]
      rfl
    refine forall_update_some later (hsound.moves (by rw [hy]; rfl) (by rw [hy]; rfl)
      (fun hinfinite => ?_) fun hasleep => by cases hasleep)
    exact Signals.deadline_of_isInfinite (htimeout ▸ hinfinite) t.now _
  | hear t | expire t => exact forall_update later fun y h => by cases h
  | sleep t y ticket timeout deadline ht hy hl =>
    have hdeadline := (later _ y ht).deadline
    rw [hy] at hdeadline
    exact forall_update_some later ((later _ y ht).moves (by rw [hy]; rfl) (by rw [hy]; rfl)
      hdeadline fun _ => rfl)
  | rest t y ht hy hm =>
    exact forall_update_some later ((later _ y ht).moves rfl rfl (later _ y ht).deadline
      fun _ => rfl)
  | wake t y ticket timeout deadline ht hy =>
    have hdeadline := (later _ y ht).deadline
    rw [hy] at hdeadline
    exact forall_update_some later ((later _ y ht).moves (by rw [hy]; rfl) (by rw [hy]; rfl)
      hdeadline fun hasleep => by cases hasleep)
  | _ => exact later

/-- What a waiter finds is what was sent since its ticket was taken. -/
theorem Kept.look_of_check (hs : s.Kept backend) {ticket : Ticket} {timeout : Timeout}
    {deadline : Option Instant} (hi : s.stays i = some y)
    (hy : y.place = .check ticket timeout deadline) :
    s.event.signals.look ticket =
      (s.sent.signals s.event.signals.isPending backend).look y.issued.ticket := by
  rw [← hs.shown, ((hs.stays i y hi).of_check hy).1]

theorem Kept.returns_act (hs : s.Kept backend) (h : s.Acts a s') :
    ∀ r ∈ s'.returns, r.Sound backend := by
  cases h with
  | hear t y ticket timeout deadline o left ht hy hl =>
    rw [hs.look_of_check ht hy] at hl
    have hfound : ((s.sent.signals s.event.signals.isPending backend).look y.issued.ticket).1 =
        some o := by rw [hl]
    exact List.forall_mem_cons.mpr
      ⟨Return.sound_of_look _ (hs.stays _ y ht).issued hfound, hs.returns⟩
  | expire t y ticket timeout deadline ht hy hl hd =>
    obtain ⟨-, htimeout, hdeadline⟩ := (hs.stays _ y ht).of_check hy
    have hfinite : y.timeout.isInfinite = false :=
      htimeout ▸ Wait.isInfinite_of_over hdeadline hd
    rw [hs.look_of_check ht hy] at hl
    exact List.forall_mem_cons.mpr
      ⟨Return.sound_of_expired _ (hs.stays _ y ht).issued hl rfl hfinite, hs.returns⟩
  | _ => exact hs.returns

theorem Kept.listed_act (hs : s.Kept backend) (h : s.Acts a s') :
    Parking.Listed s'.event s'.stance := by
  cases h with
  | enter i n timeout p hi hp =>
    rw [stance_enter]
    exact hs.listed.shrink (List.Sublist.refl _) (hs.not_mem_of_none hi)
  | begin t y ticket timeout ht hy =>
    rw [stance_move]
    exact hs.listed.shrink (List.Sublist.refl _) (hs.not_mem_of_awake ht (by rw [hy]; rfl))
  | hear t y ticket timeout deadline o left ht hy hl =>
    rw [stance_leave]
    exact hs.listed.shrink (List.Sublist.refl _) (hs.not_mem_of_awake ht (by rw [hy]; rfl))
  | expire t y ticket timeout deadline ht hy hl hd =>
    rw [stance_leave]
    exact hs.listed.shrink (List.Sublist.refl _) (hs.not_mem_of_awake ht (by rw [hy]; rfl))
  | sleep t y ticket timeout deadline ht hy hl =>
    rw [stance_move]
    exact hs.listed.sleep (hs.not_mem_of_awake ht (by rw [hy]; rfl))
  | rest t y ht hy hm =>
    rw [stance_move, ← stance_of_stays ht, Function.update_eq_self]
    exact hs.listed
  | wake t y ticket timeout deadline ht hy =>
    rw [stance_move]
    exact hs.listed.shrink List.erase_sublist fun h => hs.listed.nodup.not_mem_erase h
  | signalOne pick => exact hs.listed.sublist (Parking.signalOne_sublist ..)
  | signalAll => exact hs.listed.sublist (List.nil_sublist _)
  | interrupt => exact hs.listed.sublist (sleepers_interrupt _)
  | rouse i => exact hs.listed.sublist List.erase_sublist
  | _ => exact hs.listed

/-- Who sleeps has slept before, and heard no broadcast, or has just found nothing. -/
theorem Kept.asleep_act (hs : s.Kept backend) (h : s.Acts a s') (hi : i ∈ s'.event.sleepers)
    (hy : s'.stays i = some y) :
    (∃ y₀, i ∈ s.event.sleepers ∧ s.stays i = some y₀ ∧ y.issued = y₀.issued ∧
      s'.sent.alls = s.sent.alls) ∨
    (s'.sent = s.sent ∧ y.issued.Sound backend s.sent ∧
      ((s.sent.signals s.event.signals.isPending backend).look y.issued.ticket).1 = none) := by
  cases h with
  | enter j n timeout p hj hp =>
    have hne : i ≠ j := fun h => hs.not_mem_of_none hj (h ▸ hi)
    exact .inl ⟨y, hi, (stays_enter_of_ne _ _ hne).symm.trans hy, rfl, rfl⟩
  | begin t y₀ ticket timeout ht hp =>
    have hne : i ≠ t.me := fun h => hs.not_mem_of_awake ht (by rw [hp]; rfl) (h ▸ hi)
    exact .inl ⟨y, hi, (stays_move_of_ne _ _ hne).symm.trans hy, rfl, rfl⟩
  | hear t y₀ ticket timeout deadline o left ht hp hl =>
    have hne : i ≠ t.me := fun h => hs.not_mem_of_awake ht (by rw [hp]; rfl) (h ▸ hi)
    exact .inl ⟨y, hi, (stays_leave_of_ne _ _ _ hne).symm.trans hy, rfl, rfl⟩
  | expire t y₀ ticket timeout deadline ht hp hl hd =>
    have hne : i ≠ t.me := fun h => hs.not_mem_of_awake ht (by rw [hp]; rfl) (h ▸ hi)
    exact .inl ⟨y, hi, (stays_leave_of_ne _ _ _ hne).symm.trans hy, rfl, rfl⟩
  | sleep t y₀ ticket timeout deadline ht hp hl =>
    by_cases hne : i = t.me
    · subst hne
      obtain rfl := Option.some_inj.mp ((stays_move_self _ _).symm.trans hy)
      rw [hs.look_of_check ht hp] at hl
      exact .inr ⟨rfl, (hs.stays _ y₀ ht).issued, hl⟩
    · have hold : i ∈ s.event.sleepers := by
        simpa [move, Event.sleep, hne] using hi
      exact .inl ⟨y, hold, (stays_move_of_ne _ _ hne).symm.trans hy, rfl, rfl⟩
  | rest t y₀ ht hp hm =>
    by_cases hne : i = t.me
    · subst hne
      obtain rfl := Option.some_inj.mp ((stays_move_self _ _).symm.trans hy)
      exact .inl ⟨y₀, hi, ht, rfl, rfl⟩
    · exact .inl ⟨y, hi, (stays_move_of_ne _ _ hne).symm.trans hy, rfl, rfl⟩
  | wake t y₀ ticket timeout deadline ht hp =>
    have hne : i ≠ t.me := fun h => hs.listed.nodup.not_mem_erase (h ▸ hi)
    exact .inl ⟨y, List.mem_of_mem_erase hi, (stays_move_of_ne _ _ hne).symm.trans hy, rfl, rfl⟩
  | signalOne pick =>
    exact .inl ⟨y, (Parking.signalOne_sublist ..).subset hi, hy, rfl, rfl⟩
  | signalAll => cases hi
  | interrupt => exact .inl ⟨y, (sleepers_interrupt _).subset hi, hy, rfl, rfl⟩
  | rouse j => exact .inl ⟨y, List.mem_of_mem_erase hi, hy, rfl, rfl⟩
  | _ => exact .inl ⟨y, hi, hy, rfl, rfl⟩

theorem Kept.current_act (hs : s.Kept backend) (h : s.Acts a s') :
    ∀ i ∈ s'.event.sleepers, ∀ y, s'.stays i = some y →
      Sent.Timely backend y.issued.sent s'.sent → y.issued.sent.alls = s'.sent.alls := by
  intro i hi y hy ht
  rcases hs.asleep_act h hi hy with ⟨y₀, hi₀, hy₀, hissued, halls⟩ | ⟨hsent, hp, hl⟩
  · rw [hissued] at ht ⊢
    rw [halls]
    exact hs.current i hi₀ y₀ hy₀ (ht.earlier h.sent_le)
  · rw [hsent] at ht ⊢
    by_contra hne
    rw [hp.look_of_broadcast ht (Nat.lt_of_le_of_ne hp.le.2.1 hne)] at hl
    cases hl

theorem Kept.isPending_of_hear (hs : s.Kept backend) {ticket : Ticket} {o : WaitOutcome}
    {left : Signals} (hl : s.event.signals.look ticket = (some o, left)) :
    left.isPending = false := by
  rw [hs.left_of_look hl]
  cases backend <;> rfl

theorem Kept.consumed_act (hs : s.Kept backend) (h : s.Acts a s') (hb : backend = .windows) :
    s'.returns.countP Return.isUnexplained + s'.event.signals.isPending.toNat ≤ s'.sent.ones := by
  have hcount := hs.consumed hb
  cases h with
  | hear t y ticket timeout deadline o left ht hy hl =>
    simp only [leave, hs.isPending_of_hear hl, List.countP_cons, Bool.toNat_false, Nat.add_zero]
    split_ifs with hu
    · -- No broadcast was sent, so it was the pending signal, and it is spent.
      obtain ⟨ho, halls⟩ : o = .signaled ∧ y.issued.sent.alls = s.sent.alls := by
        simpa [Return.isUnexplained] using hu
      subst hb ho
      rw [hs.look_of_check ht hy, (hs.stays _ y ht).issued.ticket] at hl
      have hpending : s.event.signals.isPending = true :=
        Sent.pending_of_look halls (congrArg Prod.fst hl)
      rw [hpending] at hcount
      exact hcount
    · exact (Nat.le_add_right _ _).trans hcount
  | expire t y ticket timeout deadline ht hy hl hd =>
    simpa [leave, List.countP_cons, Return.isUnexplained] using hcount
  | signalOne pick =>
    have hle := Bool.toNat_le (s.event.signalOne pick).signals.isPending
    dsimp only
    omega
  | signalAll =>
    change _ + s.event.signals.afterSignalAll.isPending.toNat ≤ _
    rw [Signals.isPending_afterSignalAll]
    exact hcount
  | interrupt =>
    dsimp only
    rw [signals_interrupt, Signals.isPending_afterInterrupt]
    exact hcount
  | _ => exact hcount

theorem Woken.mono (h : s.Woken i)
    (hstays : ∀ y, s.stays i = some y →
      ∃ y', s'.stays i = some y' ∧ (y.hasSlept = true → y'.hasSlept = true))
    (hsleepers : i ∈ s'.event.sleepers → i ∈ s.event.sleepers) : s'.Woken i := by
  obtain ⟨y, hy, hslept, hi⟩ := h
  obtain ⟨y', hy', hslept'⟩ := hstays y hy
  exact ⟨y', hy', hslept' hslept, fun hm => hi (hsleepers hm)⟩

theorem Woken.move {j : Ident} {y' : Stay} (h : s.Woken j) (hi : s.stays i = some y)
    (hslept : y.hasSlept = true → y'.hasSlept = true) : (s.move i s.event y').Woken j := by
  refine h.mono (fun z hz => ?_) id
  by_cases hj : j = i
  · subst hj
    obtain rfl := Option.some_inj.mp (hi.symm.trans hz)
    exact ⟨y', stays_move_self _ _, hslept⟩
  · exact ⟨z, (stays_move_of_ne _ _ hj).trans hz, id⟩

theorem Woken.of_sublist (h : s.Woken i) (hs : e.sleepers.Sublist s.event.sleepers) (n : Sent) :
    ({ s with event := e, sent := n } : System).Woken i :=
  h.mono (fun y hy => ⟨y, hy, id⟩) fun hi => hs.subset hi

theorem Kept.hasSlept_of_mem (hs : s.Kept backend) (hi : i ∈ s.event.sleepers) :
    ∃ y, s.stays i = some y ∧ y.hasSlept = true := by
  cases hy : s.stays i with
  | none => exact absurd hi (hs.not_mem_of_none hy)
  | some y =>
    by_contra hslept
    have hawake : y.place.isAsleep = false := by
      by_contra hasleep
      exact hslept ⟨y, rfl, (hs.stays i y hy).hasSlept (by simpa using hasleep)⟩
    exact hs.not_mem_of_awake hy hawake hi

theorem Kept.attended_act (hs : s.Kept backend) (h : s.Acts a s')
    (hpending : s'.event.signals.isPending = true) (hsleepers : s'.event.sleepers ≠ []) :
    ∃ j, s'.Woken j := by
  have slept : ∀ {e : Event}, e.sleepers.Sublist s.event.sleepers → e.sleepers ≠ [] →
      s.event.sleepers ≠ [] := fun hs he h => he (List.sublist_nil.mp (h ▸ hs))
  cases h with
  | enter i n timeout p hi hp =>
    obtain ⟨j, hj⟩ := hs.attended hpending hsleepers
    refine ⟨j, hj.mono (fun y hy => ⟨y, ?_, id⟩) id⟩
    have hne : j ≠ i := by
      rintro rfl
      rw [hi] at hy
      cases hy
    exact (stays_enter_of_ne _ _ hne).trans hy
  | begin t y ticket timeout ht hy =>
    obtain ⟨j, hj⟩ := hs.attended hpending hsleepers
    exact ⟨j, hj.move ht id⟩
  -- Whoever looks takes the pending signal, or there was none.
  | hear t y ticket timeout deadline o left ht hy hl =>
    exact absurd hpending (by simp [leave, hs.isPending_of_hear hl])
  | expire t y ticket timeout deadline ht hy hl hd =>
    exact absurd hpending (by simp [leave, Signals.isPending_of_look hl])
  | sleep t y ticket timeout deadline ht hy hl =>
    exact absurd hpending (by simp [move, Event.sleep, Signals.isPending_of_look hl])
  | rest t y ht hy hm =>
    obtain ⟨j, hj⟩ := hs.attended hpending hsleepers
    exact ⟨j, hj.move ht fun _ => rfl⟩
  -- The thread that wakes is itself the one that has yet to look.
  | wake t y ticket timeout deadline ht hy =>
    have hslept : y.hasSlept = true := (hs.stays _ y ht).hasSlept (by rw [hy]; rfl)
    exact ⟨t.me, _, stays_move_self _ _, hslept, fun h => hs.listed.nodup.not_mem_erase h⟩
  | signalOne pick =>
    have hsub : (s.event.signalOne pick).sleepers.Sublist s.event.sleepers :=
      Parking.signalOne_sublist ..
    have hlen : 0 < s.event.sleepers.length := List.length_pos_iff.mpr (slept hsub hsleepers)
    obtain ⟨j, hj, hwoken⟩ := hs.listed.exists_woken pick hlen
    obtain ⟨y, hy, hslept⟩ := hs.hasSlept_of_mem hj
    exact ⟨j, y, hy, hslept, hwoken⟩
  | signalAll => exact absurd rfl hsleepers
  | interrupt =>
    dsimp only at hpending
    rw [signals_interrupt, Signals.isPending_afterInterrupt] at hpending
    obtain ⟨j, hj⟩ := hs.attended hpending (slept (sleepers_interrupt _) hsleepers)
    exact ⟨j, hj.of_sublist (sleepers_interrupt _) _⟩
  | rouse i =>
    obtain ⟨j, hj⟩ := hs.attended hpending (slept List.erase_sublist hsleepers)
    exact ⟨j, hj.of_sublist List.erase_sublist _⟩
  | _ => exact hs.attended hpending hsleepers

theorem Kept.act (hs : s.Kept backend) (a : Action) : (s.act a).Kept backend where
  shown := hs.shown_act (act_cases s a)
  issued := hs.issued_act (act_cases s a)
  stays := hs.stays_act (act_cases s a)
  returns := hs.returns_act (act_cases s a)
  listed := hs.listed_act (act_cases s a)
  current := hs.current_act (act_cases s a)
  consumed := hs.consumed_act (act_cases s a)
  attended := hs.attended_act (act_cases s a)

theorem kept_start (backend : Backend) : (start backend).Kept backend where
  shown := by cases backend <;> rfl
  issued p hp := by cases hp
  stays i y hi := by cases hi
  returns r hr := by cases hr
  listed := by
    cases backend with
    | posix => exact ⟨List.nodup_nil, fun i hi => by cases hi⟩
    | windows => exact ⟨List.nodup_nil, fun i hi => by cases hi⟩
  current i hi := by cases backend <;> cases hi
  consumed hb := by
    subst hb
    exact Nat.le_refl 0
  attended hpending := by cases backend <;> cases hpending

theorem Kept.run (hs : s.Kept backend) (acts : List Action) : (s.run acts).Kept backend :=
  Run.lasts (fun _ a h => h.act a) acts s hs

theorem sent_le_run (s : System) (acts : List Action) : s.sent ≤ (s.run acts).sent :=
  Run.lasts (P := fun s' => s.sent ≤ s'.sent)
    (fun s' a h => Sent.le_trans h (act_cases s' a).sent_le) acts s (Sent.le_refl _)

end System

end Event

end InterpreterLock
