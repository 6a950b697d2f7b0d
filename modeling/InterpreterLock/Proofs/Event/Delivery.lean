import InterpreterLock.Proofs.Event.Soundness

/-!
# Waits deliver what was sent

A wait is ended by a signal that was sent since its ticket was taken, or by an interruption if there
was no signal, and by nothing else before its time. A broadcast ends every wait on an older ticket,
and nobody sleeps through it. An auto-reset event keeps a single signal for one waiter: no more
waits are ended by single signals than were sent, and while one is pending nobody sleeps unless
another thread is about to look.
-/

set_option autoImplicit false

namespace InterpreterLock

namespace Event

def Stay.stepsLeft (y : Stay) : ℕ :=
  match y.place with
  | .start .. | .asleep .. => 2
  | .check .. => 1

namespace System

variable {backend : Backend} {s s' : System} {a : Action} {i : Ident} {y : Stay}

theorem Acts.returns (h : s.Acts a s') :
    ∃ newer, s'.returns = newer ++ s.returns ∧ ∀ r ∈ newer, a.isStepOf r.thread = true := by
  cases h with
  | hear t | expire t => exact ⟨[_], rfl, by simp [Action.isStepOf]⟩
  | _ => exact ⟨[], rfl, by simp⟩

theorem returns_run (s : System) (acts : List Action) :
    ∃ newer, (s.run acts).returns = newer ++ s.returns := by
  refine Run.lasts (P := fun s' => ∃ newer, s'.returns = newer ++ s.returns) ?_ acts s ⟨[], rfl⟩
  rintro s' a ⟨newer, hnewer⟩
  obtain ⟨newest, hnewest, -⟩ := (act_cases s' a).returns
  exact ⟨newest ++ newer, by rw [hnewest, hnewer, List.append_assoc]⟩

structure Nears (s s' : System) (i : Ident) (y : Stay) (turns : ℕ) (y' : Stay) : Prop where
  stays : s'.stays i = some y'
  issued : y'.issued = y.issued
  left : turns + y'.stepsLeft ≤ y.stepsLeft
  returns : ∃ newer, s'.returns = newer ++ s.returns ∧ ∀ r ∈ newer, r.thread ≠ i

def Hears (s s' : System) (i : Ident) (y : Stay) : Prop :=
  ∃ newer r between, s'.returns = newer ++ r :: between ++ s.returns ∧
    (∀ q ∈ between, q.thread ≠ i) ∧ r.thread = i ∧ r.issued = y.issued ∧ r.outcome = .signaled

def Answers (s s' : System) (i : Ident) (y : Stay) (turns : ℕ) : Prop :=
  (i ∉ s'.event.sleepers ∧ ∃ y', s.Nears s' i y turns y') ∨ s.Hears s' i y

theorem Hears.run (h : s.Hears s' i y) (acts : List Action) : s.Hears (s'.run acts) i y := by
  obtain ⟨newer, r, between, hreturns, hr⟩ := h
  obtain ⟨newest, hnewest⟩ := s'.returns_run acts
  exact ⟨newest ++ newer, r, between, by simp [hnewest, hreturns], hr⟩

theorem Nears.answers {s'' : System} {y' : Stay} {turns turns' : ℕ} (h : s.Nears s' i y turns y')
    (h' : s'.Answers s'' i y' turns') : s.Answers s'' i y (turns' + turns) := by
  obtain ⟨newer, hnewer, hother⟩ := h.returns
  rcases h' with ⟨hawake, y'', h''⟩ | ⟨newest, r, between, hreturns, hbetween, hr, hissued, ho⟩
  · obtain ⟨newest, hnewest, hothers⟩ := h''.returns
    refine .inl ⟨hawake, y'', h''.stays, h''.issued.trans h.issued, ?_, newest ++ newer, ?_, ?_⟩
    · have hleft := h.left
      have hleft' := h''.left
      omega
    · rw [hnewest, hnewer, List.append_assoc]
    · intro r hr
      exact (List.mem_append.mp hr).elim (hothers r) (hother r)
  · refine .inr ⟨newest, r, between ++ newer, ?_, ?_, hr, hissued.trans h.issued, ho⟩
    · simp [hreturns, hnewer]
    · intro q hq
      exact (List.mem_append.mp hq).elim (hbetween q) (hother q)

theorem Kept.awake_of_broadcast (hs : s.Kept backend) (hi : s.stays i = some y)
    (halls : y.issued.sent.alls < s.sent.alls) (ht : Sent.Timely backend y.issued.sent s.sent) :
    i ∉ s.event.sleepers :=
  fun hm => Nat.ne_of_lt halls (hs.current i hm y hi ht)

theorem Kept.nears_step (hs : s.Kept backend) {t : Turn} (hi : s.stays t.me = some y)
    (halls : y.issued.sent.alls < s.sent.alls) (ht : Sent.Timely backend y.issued.sent s.sent)
    (h : s.Acts (.step t) s') : (∃ y', s.Nears s' t.me y 1 y') ∨ s.Hears s' t.me y := by
  have found : ∀ {ticket : Ticket} {timeout : Timeout} {deadline : Option Instant},
      y.place = .check ticket timeout deadline →
        (s.event.signals.look ticket).1 = some .signaled := fun hy => by
    rw [hs.look_of_check hi hy]
    exact (hs.stays _ y hi).issued.look_of_broadcast ht halls
  cases h with
  | idle t hnone =>
    rw [hnone] at hi
    cases hi
  | begin t y₀ ticket timeout hi₀ hy =>
    obtain rfl := Option.some_inj.mp (hi₀.symm.trans hi)
    refine .inl ⟨_, stays_move_self _ _, rfl, ?_, [], rfl, by simp⟩
    simp [Stay.stepsLeft, hy]
  | hear t y₀ ticket timeout deadline o left hi₀ hy hl =>
    obtain rfl := Option.some_inj.mp (hi₀.symm.trans hi)
    have ho : some o = some .signaled := (congrArg Prod.fst hl).symm.trans (found hy)
    exact .inr ⟨[], _, [], rfl, by simp, rfl, rfl, Option.some_inj.mp ho⟩
  | expire t y₀ ticket timeout deadline hi₀ hy hl hd =>
    obtain rfl := Option.some_inj.mp (hi₀.symm.trans hi)
    exact absurd (hl.symm.trans (found hy)) (by simp)
  | sleep t y₀ ticket timeout deadline hi₀ hy hl =>
    obtain rfl := Option.some_inj.mp (hi₀.symm.trans hi)
    exact absurd (hl.symm.trans (found hy)) (by simp)
  | rest t y₀ hi₀ hy hm => exact absurd hm (hs.awake_of_broadcast hi halls ht)
  | wake t y₀ ticket timeout deadline hi₀ hy =>
    obtain rfl := Option.some_inj.mp (hi₀.symm.trans hi)
    refine .inl ⟨_, stays_move_self _ _, rfl, ?_, [], rfl, by simp⟩
    simp [Stay.stepsLeft, hy]

theorem Acts.nears_of_other (h : s.Acts a s') (hi : s.stays i = some y)
    (ha : a.isStepOf i = false) : s.Nears s' i y 0 y := by
  obtain ⟨newer, hnewer, hother⟩ := h.returns
  refine ⟨h.stays_of_other hi ha, rfl, Nat.le_of_eq (Nat.zero_add _), newer, hnewer, ?_⟩
  rintro r hr rfl
  exact absurd (hother r hr) (by simp [ha])

theorem Kept.nears_act (hs : s.Kept backend) (hi : s.stays i = some y)
    (halls : y.issued.sent.alls < s.sent.alls) (ht : Sent.Timely backend y.issued.sent s.sent)
    (h : s.Acts a s') :
    (∃ y', s.Nears s' i y (if a.isStepOf i then 1 else 0) y') ∨ s.Hears s' i y := by
  cases ha : a.isStepOf i with
  | false => exact .inl ⟨y, h.nears_of_other hi ha⟩
  | true =>
    cases a with
    | step t =>
      obtain rfl : t.me = i := of_decide_eq_true ha
      exact hs.nears_step hi halls ht h
    | _ => cases ha

theorem Kept.answers_run (hs : s.Kept backend) (hi : s.stays i = some y)
    (halls : y.issued.sent.alls < s.sent.alls) (more : List Action)
    (ht : Sent.Timely backend y.issued.sent (s.run more).sent) :
    s.Answers (s.run more) i y (more.countP (·.isStepOf i)) := by
  -- What carries the induction is that the broadcast stays later than the ticket.
  induction more generalizing s y with
  | nil =>
    exact .inl ⟨hs.awake_of_broadcast hi halls ht, y, hi, rfl, by simp, [], rfl, by simp⟩
  | cons a rest ih =>
    have hnow : Sent.Timely backend y.issued.sent s.sent :=
      ht.earlier (s.sent_le_run (a :: rest))
    rw [List.countP_cons]
    rcases hs.nears_act hi halls hnow (act_cases s a) with ⟨y', h⟩ | h
    · have halls' : y'.issued.sent.alls < (s.act a).sent.alls := by
        rw [h.issued]
        exact Nat.lt_of_lt_of_le halls (act_cases s a).sent_le.2.1
      exact h.answers (ih (hs.act a) h.stays halls' (h.issued ▸ ht))
    · exact .inr (h.run rest)

structure Delivers (backend : Backend) (s : System) : Prop where
  broadcast : ∀ i y, s.stays i = some y → y.issued.sent.alls < s.sent.alls → ∀ more,
    Sent.Timely backend y.issued.sent (s.run more).sent →
      s.Answers (s.run more) i y (more.countP (·.isStepOf i))
  returns : ∀ r ∈ s.returns, r.Sound backend
  consumed : backend = .windows → s.returns.countP Return.isUnexplained ≤ s.sent.ones
  uninterrupted : backend = .windows →
    s.event.interrupt = s.event ∧ ∀ r ∈ s.returns, r.outcome ≠ .interrupted
  attended : s.event.signals.isPending = true →
    ∀ i ∈ s.event.sleepers, ∃ j, j ≠ i ∧ s.Woken j

theorem Kept.uninterrupted (hs : s.Kept .windows) :
    s.event.interrupt = s.event ∧ ∀ r ∈ s.returns, r.outcome ≠ .interrupted := by
  constructor
  · rw [Event.interrupt, hs.shown]
    rfl
  · intro r hr ho
    have hposix := ((hs.returns r hr).interrupted ho).1
    cases hposix

theorem Kept.delivers (hs : s.Kept backend) : s.Delivers backend where
  broadcast _ _ hi halls more ht := hs.answers_run hi halls more ht
  returns := hs.returns
  consumed hb := (Nat.le_add_right _ _).trans (hs.consumed hb)
  uninterrupted hb := by
    subst hb
    exact hs.uninterrupted
  attended hpending i hi := by
    obtain ⟨j, hj⟩ := hs.attended hpending (List.ne_nil_of_mem hi)
    refine ⟨j, ?_, hj⟩
    rintro rfl
    obtain ⟨-, -, -, hawake⟩ := hj
    exact hawake hi

/-- Any number of threads wait on an event that is signaled and interrupted at any moment: the waits
deliver what was sent. -/
theorem delivered_run (backend : Backend) (acts : List Action) :
    ((start backend).run acts).Delivers backend :=
  ((kept_start backend).run acts).delivers

example (backend : Backend) :
    let turn : Action := .step { me := .first, now := ⟨0⟩ }
    let s := (start backend).run [.prepare, .wait .first 0 .infinite, turn, turn, .signalAll]
    (s.run [turn, turn]).returns.map (·.outcome) = [.signaled] := by
  cases backend <;> decide

end System

end Event

end InterpreterLock
