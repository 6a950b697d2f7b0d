import InterpreterLock.Proofs.Ident
import InterpreterLock.Proofs.Parking

/-!
# No wakeup is lost

While a lock is free and some thread sleeps for it, another thread is awake that will try for the
lock or send a signal. Four facts about the lot carry this from step to step: the waiters are
counted right, the sleepers are parked threads, the tickets are as old as the signals missed since,
and whoever relies on being woken is attended to.
-/

set_option autoImplicit false

namespace InterpreterLock.Parking

variable {me : Ident} {k : Notice} {l l' : Lot} {a b : Stance} {st : Ident → Stance}
  {m : Ident → ℕ} {e e' : Event} {t : Ticket}

def enlisted (st : Ident → Stance) : Set Ident := {i | (st i).isEnlisted = true}

def Counted (l : Lot) (st : Ident → Stance) : Prop :=
  l.waiters = UInt64.ofNat (enlisted st).ncard

theorem enlisted_update_of_enlisted (h : b.isEnlisted = true) :
    enlisted (Function.update st me b) = insert me (enlisted st) := by
  ext i
  by_cases hi : i = me
  · subst hi
    simp [enlisted, h]
  · simp [enlisted, hi]

theorem enlisted_update_of_not (h : b.isEnlisted = false) :
    enlisted (Function.update st me b) = enlisted st \ {me} := by
  ext i
  by_cases hi : i = me
  · subst hi
    simp [enlisted, h]
  · simp [enlisted, hi]

theorem enlisted_update_same (ha : st me = a) (h : b.isEnlisted = a.isEnlisted) :
    enlisted (Function.update st me b) = enlisted st := by
  ext i
  by_cases hi : i = me
  · subst hi
    simp [enlisted, h, ha]
  · simp [enlisted, hi]

theorem Step.waiters (h : Step me k l a l' b) :
    (b.isEnlisted = a.isEnlisted ∧ l'.waiters = l.waiters) ∨
      (a.isEnlisted = false ∧ b.isEnlisted = true ∧ l'.waiters = l.waiters + 1) ∨
      (a.isEnlisted = true ∧ b.isEnlisted = false ∧ l'.waiters = l.waiters - 1) := by
  cases h with
  | signal f n e pick a ha => rcases ha with rfl | rfl <;> simp [Stance.isEnlisted]
  | lose n e t b hb => rcases hb with rfl | rfl <;> simp [Stance.isEnlisted]
  | _ => simp [Stance.isEnlisted]

theorem Counted.step (h : Step me k l a l' b) (ha : st me = a) (hc : Counted l st) :
    Counted l' (Function.update st me b) := by
  unfold Counted at *
  rcases h.waiters with ⟨hb, hw⟩ | ⟨hn, hb, hw⟩ | ⟨hn, hb, hw⟩
  · rw [enlisted_update_same ha hb, hw, hc]
  · have hme : me ∉ enlisted st := by simp [enlisted, ha, hn]
    rw [enlisted_update_of_enlisted hb, Ident.ofNat_ncard_insert _ _ hme, hw, hc]
  · have hme : me ∈ enlisted st := by simp [enlisted, ha, hn]
    rw [enlisted_update_of_not hb, Ident.ofNat_ncard_remove _ _ hme, hw, hc]

theorem Counted.none_enlisted (hc : Counted l st) (hw : l.waiters = 0) (i : Ident) :
    (st i).isEnlisted = false := by
  have he : enlisted st = ∅ := (Ident.ofNat_ncard_eq_zero _).mp (hc.symm.trans hw)
  have hi : i ∉ enlisted st := by simp [he]
  simpa [enlisted] using hi

structure Listed (e : Event) (st : Ident → Stance) : Prop where
  nodup : e.sleepers.Nodup
  parked : ∀ i ∈ e.sleepers, ∃ t, st i = .waiting t true

theorem Listed.not_mem (hl : Listed e st) (ha : ∀ t, st me ≠ .waiting t true) :
    me ∉ e.sleepers := by
  intro hm
  obtain ⟨t, ht⟩ := hl.parked me hm
  exact ha t ht

theorem Listed.sublist (hl : Listed e st) (hs : e'.sleepers.Sublist e.sleepers) : Listed e' st where
  nodup := hl.nodup.sublist hs
  parked i hi := hl.parked i (hs.subset hi)

theorem Listed.shrink (hl : Listed e st) (hs : e'.sleepers.Sublist e.sleepers)
    (hm : me ∉ e'.sleepers) : Listed e' (Function.update st me b) where
  nodup := hl.nodup.sublist hs
  parked i hi := by
    have hne : i ≠ me := fun h => hm (h ▸ hi)
    simpa [hne] using hl.parked i (hs.subset hi)

theorem Listed.sleep (hl : Listed e st) (hm : me ∉ e.sleepers) :
    Listed (e.sleep me) (Function.update st me (.waiting t true)) where
  nodup := by
    rw [Event.sleep, List.nodup_append]
    refine ⟨hl.nodup, List.nodup_singleton me, ?_⟩
    intro i hi j hj h
    rw [List.mem_singleton] at hj
    subst hj h
    exact hm hi
  parked i hi := by
    by_cases hne : i = me
    · exact ⟨t, by simp [hne]⟩
    · simp only [Event.sleep, List.mem_append, List.mem_singleton, hne, or_false] at hi
      simpa [hne] using hl.parked i hi

theorem signalOne_sublist (e : Event) (pick : ℕ) :
    (e.signalOne pick).sleepers.Sublist e.sleepers := List.eraseIdx_sublist ..

theorem Listed.step (h : Step me k l a l' b) (ha : st me = a) (hl : Listed l.event st) :
    Listed l'.event (Function.update st me b) := by
  cases h with
  | stay => rwa [← ha, Function.update_eq_self]
  | signal f n e pick a hp =>
    have hm : me ∉ e.sleepers := hl.not_mem (by rcases hp with rfl | rfl <;> simp [ha])
    exact hl.shrink (signalOne_sublist e pick) fun h => hm ((signalOne_sublist e pick).subset h)
  | sleep => exact hl.sleep (hl.not_mem (by simp [ha]))
  | wake f n e t =>
    exact hl.shrink List.erase_sublist fun h => hl.nodup.not_mem_erase h
  | hear f n e t o left h => exact hl.shrink (List.Sublist.refl _) (hl.not_mem (by simp [ha]))
  | heed f n e t left h => exact hl.shrink (List.Sublist.refl _) (hl.not_mem (by simp [ha]))
  | _ => exact hl.shrink (List.Sublist.refl _) (hl.not_mem (by simp [ha]))

def counter? (e : Event) : Option UInt64 :=
  match e.signals with
  | .counting n _ => some n
  | .autoReset .. => none

def Dated (e : Event) (st : Ident → Stance) (m : Ident → ℕ) : Prop :=
  ∀ n, counter? e = some n → ∀ i t, (st i).ticket? = some t → n = t.signals + UInt64.ofNat (m i)

theorem counter?_signalOne (e : Event) (pick : ℕ) :
    counter? (e.signalOne pick) = (counter? e).map (· + 1) := by
  cases e with
  | mk signals sleepers => cases signals <;> rfl

theorem counter?_left {o : Option WaitOutcome} {left : Signals}
    (h : e.signals.look t = (o, left)) : counter? { e with signals := left } = counter? e := by
  cases e with
  | mk signals sleepers =>
    cases signals with
    | counting n i =>
      obtain ⟨-, rfl⟩ := Prod.mk.inj h
      rfl
    | autoReset p n =>
      cases p <;> obtain ⟨-, rfl⟩ := Prod.mk.inj h <;> rfl

theorem Step.counter? (h : Step me k l a l' b) :
    Parking.counter? l'.event =
      if k = .signalSent then (Parking.counter? l.event).map (· + 1)
      else Parking.counter? l.event := by
  cases h with
  | signal f n e pick a ha => exact counter?_signalOne e pick
  | hear f n e t o left h => exact counter?_left h
  | heed f n e t left h => exact counter?_left h
  | _ => rfl

theorem Step.counts (h : Step me k l a l' b) :
    (Parking.counter? l'.event).isSome = (Parking.counter? l.event).isSome := by
  rw [h.counter?]
  split
  · rw [Option.isSome_map]
  · rfl

/-- Unless it has just been taken, a ticket is one that the thread had before. -/
theorem Step.ticket? (h : Step me k l a l' b) (hb : b.ticket? = some t) :
    (k = .ticketTaken ∧ t = l.event.prepare ∧ l' = l) ∨ (k = .none ∧ a.ticket? = some t) := by
  cases h with
  | lose n e t b hb' => rcases hb' with rfl | rfl <;> exact .inr ⟨rfl, hb⟩
  | prepare => exact .inl ⟨rfl, (Option.some.inj hb).symm, rfl⟩
  | stay => exact .inr ⟨rfl, hb⟩
  | commit => exact .inr ⟨rfl, hb⟩
  | sleep => exact .inr ⟨rfl, hb⟩
  | wake => exact .inr ⟨rfl, hb⟩
  | _ => simp [Stance.ticket?] at hb

theorem Dated.step (h : Step me k l a l' b) (ha : st me = a) (hd : Dated l.event st m) :
    Dated l'.event (Function.update st me b) (k.missed me st m) := by
  intro n hn i t ht
  rw [h.counter?] at hn
  by_cases hi : i = me
  · subst hi
    rw [Function.update_self] at ht
    rcases h.ticket? ht with ⟨rfl, rfl, -⟩ | ⟨rfl, hta⟩
    · simp only [reduceCtorEq, if_false] at hn
      have hs : l.event.prepare.signals = n := by
        cases he : l.event.signals <;> simp_all [Parking.counter?, Event.prepare, Signals.ticket]
      simp [Notice.missed, hs]
    · exact hd n hn i t (by rw [ha]; exact hta)
  · rw [Function.update_of_ne hi] at ht
    cases k with
    | none => exact hd n hn i t ht
    | ticketTaken => simpa [Notice.missed, hi] using hd n hn i t ht
    | signalSent =>
      simp only [if_true, Option.map_eq_some_iff] at hn
      obtain ⟨n', hn', rfl⟩ := hn
      rw [hd n' hn' i t ht]
      simp [Notice.missed, ht, UInt64.ofNat_add, UInt64.add_assoc]

/-- A signal is news for every ticket, unless so many were missed that the counter comes round. -/
theorem news_signalOne (e : Event) (pick : ℕ) (t : Ticket) (missed : ℕ)
    (hd : ∀ n, counter? e = some n → n = t.signals + UInt64.ofNat missed)
    (hm : ∀ n, counter? e = some n → missed + 1 < 2 ^ 64) : News (e.signalOne pick) t := by
  cases e with
  | mk signals sleepers =>
    cases signals with
    | autoReset p n => rfl
    | counting n i =>
      have hn : n + 1 ≠ t.signals := by
        rw [hd n rfl, UInt64.add_assoc]
        intro h
        have hz : UInt64.ofNat (missed + 1) = 0 := by
          rw [UInt64.ofNat_add]
          exact UInt64.add_eq_left.mp h
        rw [UInt64.ofNat_eq_iff_mod_eq_toNat, Nat.mod_eq_of_lt (hm n rfl)] at hz
        simp at hz
      simp [News, Event.signalOne, Signals.afterSignalOne, Signals.look, hn]

def Acts (e : Event) (i : Ident) : Stance → Prop
  | .trying _ | .releasing => True
  | .waiting t _ => News e t ∧ i ∉ e.sleepers
  | .apart | .deciding _ | .leaving => False

def Relies (e : Event) (i : Ident) : Stance → Prop
  | .deciding t => ¬News e t
  | .waiting t _ => ¬(News e t ∧ i ∉ e.sleepers)
  | .apart | .trying _ | .leaving | .releasing => False

/-- While the lock is free, whoever relies on a signal has a thread that acts. -/
def Attended (l : Lot) (st : Ident → Stance) : Prop :=
  l.free = true → (∃ i, Relies l.event i (st i)) → ∃ j, Acts l.event j (st j)

theorem Relies.isEnlisted {i : Ident} (h : Relies e i a) : a.isEnlisted = true := by
  cases a <;> simp_all [Relies, Stance.isEnlisted]

theorem Relies.not_acts {i : Ident} (h : Relies e i a) : ¬Acts e i a := by
  cases a <;> simp_all [Relies, Acts]

/-- A thread that acts still does when other threads have gone to sleep or been woken. -/
theorem Acts.of_sleepers {i : Ident} (h : Acts e i a) (hn : ∀ t, News e t → News e' t)
    (hi : i ∈ e'.sleepers → i ∈ e.sleepers) : Acts e' i a := by
  cases a with
  | waiting t p => exact ⟨hn t h.1, fun hm => h.2 (hi hm)⟩
  | _ => exact h

theorem Relies.of_sleepers {i : Ident} (h : Relies e' i a) (hn : ∀ t, News e t → News e' t)
    (hi : i ∈ e'.sleepers → i ∈ e.sleepers) : Relies e i a := by
  cases a with
  | deciding t => exact fun hnews => h (hn t hnews)
  | waiting t p => exact fun hact => h ⟨hn t hact.1, fun hm => hact.2 (hi hm)⟩
  | _ => exact h

/-- The thread that steps relied on a signal: another one acts, and still does. -/
theorem Attended.by_other (hA : Attended l st) (hf : l.free = true) (ha : st me = a)
    (hr : Relies l.event me a) (hn : ∀ t, News l.event t → News e' t)
    (hi : ∀ i ≠ me, i ∈ e'.sleepers → i ∈ l.event.sleepers) :
    ∃ j, Acts e' j (Function.update st me b j) := by
  obtain ⟨j, hj⟩ := hA hf ⟨me, by rwa [ha]⟩
  have hne : j ≠ me := fun h => hr.not_acts (by rw [← ha, ← h]; exact hj)
  exact ⟨j, by rw [Function.update_of_ne hne]; exact hj.of_sleepers hn (hi j hne)⟩

/-- The thread that steps neither acts nor relies on a signal, before and after. -/
theorem Attended.aside (hA : Attended l st) (ha : st me = a) (hna : ¬Acts l.event me a)
    (hnb : ¬Relies l.event me b) (hf : l'.free = l.free) (he : l'.event = l.event) :
    Attended l' (Function.update st me b) := by
  intro hf' ⟨i, hi⟩
  rw [he] at hi ⊢
  have hne : i ≠ me := by
    rintro rfl
    exact hnb (by simpa using hi)
  obtain ⟨j, hj⟩ := hA (hf ▸ hf') ⟨i, by simpa [hne] using hi⟩
  have hjne : j ≠ me := fun h => hna (by rw [← ha, ← h]; exact hj)
  exact ⟨j, by simpa [hjne] using hj⟩

/-- A signal wakes a sleeper, if there is one. -/
theorem Listed.exists_woken (hl : Listed e st) (pick : ℕ) (h : 0 < e.sleepers.length) :
    ∃ i ∈ e.sleepers, i ∉ (e.signalOne pick).sleepers := by
  have hlt : pick % e.sleepers.length < e.sleepers.length := Nat.mod_lt _ h
  refine ⟨e.sleepers[pick % e.sleepers.length], List.getElem_mem hlt, ?_⟩
  have he := hl.nodup.erase_getElem (i := pick % e.sleepers.length) hlt
  rw [Event.signalOne, ← he]
  exact hl.nodup.not_mem_erase

theorem attended_signal {f : Bool} {n : UInt64} (pick : ℕ) (hl : Listed e st)
    (hme : me ∉ e.sleepers) (hn : ∀ i t, (st i).ticket? = some t → News (e.signalOne pick) t) :
    Attended ⟨f, n, e.signalOne pick⟩ (Function.update st me .apart) := by
  rintro - ⟨i, hi⟩
  have hne : i ≠ me := by
    rintro rfl
    simp [Relies] at hi
  rw [Function.update_of_ne hne] at hi
  -- The signal is news for every ticket, so only a listed sleeper can still rely on one.
  have hs : i ∈ (e.signalOne pick).sleepers := by
    cases hst : st i with
    | deciding t =>
      rw [hst] at hi
      exact absurd (hn i t (by rw [hst]; rfl)) hi
    | waiting t p =>
      rw [hst] at hi
      by_contra hnot
      exact hi ⟨hn i t (by rw [hst]; rfl), hnot⟩
    | _ => simp [hst, Relies] at hi
  have hlen : 0 < e.sleepers.length :=
    List.length_pos_of_mem ((signalOne_sublist e pick).subset hs)
  obtain ⟨j, hj, hwoken⟩ := hl.exists_woken pick hlen
  obtain ⟨t, ht⟩ := hl.parked j hj
  have hjne : j ≠ me := fun h => hme (h ▸ hj)
  exact ⟨j, by rw [Function.update_of_ne hjne, ht]; exact ⟨hn j t (by rw [ht]; rfl), hwoken⟩⟩

theorem Attended.step (h : Step me k l a l' b) (ha : st me = a) (hc : Counted l st)
    (hl : Listed l.event st) (hA : Attended l st)
    (hn : k = .signalSent → ∀ pick i t, (st i).ticket? = some t → News (l.event.signalOne pick) t) :
    Attended l' (Function.update st me b) := by
  have acts : ∀ {e : Event} {b : Stance}, Acts e me b →
      ∃ j, Acts e j (Function.update st me b j) := fun hb => ⟨me, by simpa using hb⟩
  cases h with
  | stay => rwa [← ha, Function.update_eq_self]
  | barge n e => exact fun hf => absurd hf (by simp)
  | win n e t => exact fun hf => absurd hf (by simp)
  | lose n e t b hb => exact fun hf => absurd hf (by simp)
  | free f n e => exact fun _ _ => acts trivial
  | enlist f n e => exact fun _ _ => acts trivial
  | prepare => exact fun _ _ => acts trivial
  | hear f n e t o left h => exact fun _ _ => acts trivial
  | expire => exact fun _ _ => acts trivial
  | quit => exact hA.aside ha id id rfl rfl
  | unlist f n e => exact hA.aside ha id id rfl rfl
  | ignore f e =>
    rintro - ⟨i, hi⟩
    by_cases hne : i = me
    · subst hne
      simp [Relies] at hi
    · rw [Function.update_of_ne hne] at hi
      exact absurd hi.isEnlisted (by simp [hc.none_enlisted rfl i])
  | signal f n e pick a hp =>
    have hme : me ∉ e.sleepers := hl.not_mem (by rcases hp with rfl | rfl <;> simp [ha])
    exact attended_signal pick hl hme (hn rfl pick)
  | commit l t =>
    intro hf _
    by_cases hnews : News l.event t
    · exact acts ⟨hnews, hl.not_mem (by simp [ha])⟩
    · exact hA.by_other hf ha hnews (fun _ h => h) fun _ _ hi => hi
  | heed f n e t left h =>
    intro hf _
    have hs : left = e.signals := by
      cases hsig : e.signals with
      | counting n i => simp_all [Signals.look]
      | autoReset p n => cases p <;> simp [hsig, Signals.look] at h
    subst hs
    exact hA.by_other hf ha (fun hr => by simp [News, h] at hr) (fun _ h => h) fun _ _ hi => hi
  | sleep f n e t h =>
    intro hf _
    refine hA.by_other hf ha (fun hr => h hr.1) (fun _ h => h) fun i hi hm => ?_
    simpa [Event.sleep, hi] using hm
  | wake f n e t =>
    intro hf _
    by_cases hnews : News e t
    · exact acts ⟨hnews, hl.nodup.not_mem_erase⟩
    · exact hA.by_other hf ha (fun hr => hnews hr.1) (fun _ h => h) fun _ _ hi =>
        List.mem_of_mem_erase hi

structure Sound (l : Lot) (st : Ident → Stance) (m : Ident → ℕ) : Prop where
  counted : Counted l st
  listed : Listed l.event st
  dated : Dated l.event st m
  attended : Attended l st

/-- What every step keeps, as long as no thread misses so many signals that their counter comes
round to its ticket. -/
theorem Sound.step (h : Step me k l a l' b) (ha : st me = a) (hs : Sound l st m)
    (hm : ∀ n, counter? l.event = some n → ∀ i, k.missed me st m i < 2 ^ 64) :
    Sound l' (Function.update st me b) (k.missed me st m) where
  counted := hs.counted.step h ha
  listed := hs.listed.step h ha
  dated := hs.dated.step h ha
  attended := by
    refine hs.attended.step h ha hs.counted hs.listed ?_
    rintro rfl pick i t ht
    refine news_signalOne l.event pick t (m i) (fun n hn => hs.dated n hn i t ht) fun n hn => ?_
    simpa [Notice.missed, ht] using hm n hn i

/-- A lock that is new has no waiters, and no thread stands at it. -/
theorem sound_new (backend : Backend) (f : Bool) (m : Ident → ℕ) :
    Sound ⟨f, 0, .new backend⟩ (fun _ => .apart) m where
  counted := by
    have he : enlisted (fun _ => .apart) = ∅ := by
      ext i
      simp [enlisted, Stance.isEnlisted]
    rw [Counted, he, Set.ncard_empty]
    rfl
  listed := by cases backend <;> exact ⟨List.nodup_nil, by simp [Event.new]⟩
  dated := by simp [Dated, Stance.ticket?]
  attended := by simp [Attended, Relies]

/-- Sleepers may be woken without a signal. -/
theorem Sound.disturb (hs : Sound l st m) (hsl : e'.sleepers.Sublist l.event.sleepers)
    (hc : counter? e' = counter? l.event) (hn : ∀ t, News l.event t ↔ News e' t) :
    Sound { l with event := e' } st m where
  counted := hs.counted
  listed := ⟨hs.listed.nodup.sublist hsl, fun j hj => hs.listed.parked j (hsl.subset hj)⟩
  dated := fun n h => hs.dated n (hc ▸ h)
  attended := by
    rintro hf ⟨i, hi⟩
    have hr := hi.of_sleepers (fun t => (hn t).mp) fun hm => hsl.subset hm
    obtain ⟨j, hj⟩ := hs.attended hf ⟨i, hr⟩
    exact ⟨j, hj.of_sleepers (fun t => (hn t).mp) fun hm => hsl.subset hm⟩

theorem Sound.rouse (hs : Sound l st m) (i : Ident) :
    Sound { l with event := l.event.rouse i } st m :=
  hs.disturb List.erase_sublist rfl fun _ => Iff.rfl

theorem news_interrupt (e : Event) (t : Ticket) : News e t ↔ News e.interrupt t := by
  cases e with
  | mk signals sleepers =>
    cases signals with
    | autoReset p n => rfl
    | counting n i =>
      simp only [News, Event.interrupt, Signals.afterInterrupt, Signals.look]
      by_cases hn : n = t.signals
      · simp only [hn, ne_eq, not_true_eq_false, if_false]
        constructor <;> intro h <;> split at h <;> simp at h
      · simp [hn]

theorem counter?_interrupt (e : Event) : counter? e.interrupt = counter? e := by
  cases he : e.signals <;> simp [Event.interrupt, he, Signals.afterInterrupt, counter?]

theorem Sound.interrupt (hs : Sound l st m) : Sound { l with event := l.event.interrupt } st m := by
  refine hs.disturb ?_ (counter?_interrupt l.event) fun t => news_interrupt l.event t
  cases he : l.event.signals <;> simp [Event.interrupt, he]

/-- No thread has been sent so many signals since it took its ticket that a machine word does not
tell them from none. -/
def Timely (m : Ident → ℕ) : Prop := ∀ i, m i < 2 ^ 64

structure Watched (backend : Backend) (l : Lot) (st : Ident → Stance) (m : Ident → ℕ) : Prop where
  sound : Sound l st m
  counts : (counter? l.event).isSome = true → backend = .posix

theorem watched_new (backend : Backend) (f : Bool) (m : Ident → ℕ) :
    Watched backend ⟨f, 0, .new backend⟩ (fun _ => .apart) m where
  sound := sound_new backend f m
  counts h := by
    cases backend with
    | posix => rfl
    | windows => cases h

theorem Watched.step {backend : Backend} (hw : Watched backend l st m) (h : Step me k l a l' b)
    (ha : st me = a) (hm : backend = .posix → Timely (k.missed me st m)) :
    Watched backend l' (Function.update st me b) (k.missed me st m) := by
  constructor
  · refine hw.sound.step h ha fun n hn => ?_
    apply hm
    apply hw.counts
    rw [hn]
    rfl
  · intro hc
    apply hw.counts
    rw [← h.counts]
    exact hc

theorem Watched.rouse {backend : Backend} (hw : Watched backend l st m) (i : Ident) :
    Watched backend { l with event := l.event.rouse i } st m :=
  ⟨hw.sound.rouse i, hw.counts⟩

theorem Watched.interrupt {backend : Backend} (hw : Watched backend l st m) :
    Watched backend { l with event := l.event.interrupt } st m := by
  refine ⟨hw.sound.interrupt, fun h => hw.counts ?_⟩
  rw [← counter?_interrupt]
  exact h

def Asleep (e : Event) (st : Ident → Stance) (i : Ident) : Prop :=
  (∃ t, st i = .waiting t true) ∧ i ∈ e.sleepers

def Retries (e : Event) (st : Ident → Stance) (i : Ident) : Prop :=
  (∃ t, st i = .trying t) ∨ ∃ t p, st i = .waiting t p ∧ i ∉ e.sleepers ∧ News e t

theorem Acts.releasing_or_retries {i : Ident} (h : Acts e i (st i)) :
    st i = .releasing ∨ Retries e st i := by
  cases hst : st i with
  | releasing => exact .inl rfl
  | trying t => exact .inr (.inl ⟨t, hst⟩)
  | waiting t p =>
    rw [hst] at h
    exact .inr (.inr ⟨t, p, hst, h.2, h.1⟩)
  | apart => simp [hst, Acts] at h
  | deciding t => simp [hst, Acts] at h
  | leaving => simp [hst, Acts] at h

theorem Asleep.relies {i : Ident} (h : Asleep e st i) : Relies e i (st i) := by
  obtain ⟨⟨t, ht⟩, hm⟩ := h
  rw [ht]
  exact fun ha => ha.2 hm

theorem Sound.attends (hs : Sound l st m) (hf : l.free = true) {i : Ident}
    (hi : Asleep l.event st i) :
    ∃ j, j ≠ i ∧ (st j = .releasing ∨ Retries l.event st j) := by
  obtain ⟨j, hj⟩ := hs.attended hf ⟨i, hi.relies⟩
  refine ⟨j, ?_, hj.releasing_or_retries⟩
  rintro rfl
  exact hi.relies.not_acts hj

end InterpreterLock.Parking
