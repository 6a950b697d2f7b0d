import InterpreterLock.Proofs.Counters
import InterpreterLock.Proofs.Event.Signals
import InterpreterLock.Proofs.Parking.Sound

/-!
# Interruptions of waiters

An event that counts its interruptions shows one to whoever looks with an older ticket. A waiter
takes a ticket anew for every attempt, though, and looks for a signal first. So each interruption
of its stay among the waiters comes before it has a ticket, is unread as long as it keeps the
ticket that it has, or goes with that ticket.
-/

set_option autoImplicit false

namespace InterpreterLock

namespace Parking

variable {me : Ident} {k : Notice} {l l' : Lot} {a b : Stance} {st : Ident → Stance} {e : Event}
  {t : Ticket}

instance (e : Event) (t : Ticket) : Decidable (News e t) := inferInstanceAs (Decidable (_ = _))

/-- A counting event shows an interruption to whoever it shows no signal. -/
theorem look_of_not_news (hc : (counter? e).isSome = true) (hn : ¬News e t) :
    (e.signals.look t).1 =
      if e.signals.interruptions = t.interrupts then none else some .interrupted := by
  cases he : e.signals with
  | counting n i =>
    by_cases hs : n = t.signals
    · by_cases hi : i = t.interrupts <;> simp [Signals.look, Signals.interruptions, hs, hi]
    · simp [News, he, Signals.look, hs] at hn
  | autoReset p n => simp [counter?, he] at hc

/-- Only a counting event shows interruptions, and only to a ticket that is not up to date. -/
theorem counts_of_interrupted (h : (e.signals.look t).1 = some .interrupted) :
    (counter? e).isSome = true ∧ e.signals.interruptions ≠ t.interrupts := by
  cases he : e.signals with
  | counting n i =>
    have hn : ¬News e t := by simp [News, h]
    have hc : (counter? e).isSome = true := by simp [counter?, he]
    refine ⟨hc, fun heq => ?_⟩
    rw [look_of_not_news hc hn, he, if_pos heq] at h
    cases h
  | autoReset p n => cases p <;> by_cases hn : n = t.signals <;> simp [Signals.look, he, hn] at h

theorem Step.interruptions (h : Step me k l a l' b) :
    l'.event.signals.interruptions = l.event.signals.interruptions := by
  cases h with
  | signal f n e pick a ha => exact e.signals.interruptions_afterSignalOne
  | hear f n e t o left h =>
    have hl := e.signals.interruptions_look t
    rw [h] at hl
    exact hl
  | heed f n e t left h =>
    have hl := e.signals.interruptions_look t
    rw [h] at hl
    exact hl
  | _ => rfl

theorem Step.mem_sleepers (h : Step me k l a l' b) {i : Ident} (hi : i ∈ l'.event.sleepers) :
    i = me ∨ i ∈ l.event.sleepers := by
  cases h with
  | signal f n e pick a ha => exact .inr ((signalOne_sublist e pick).subset hi)
  | sleep f n e t h =>
    simp only [Event.sleep, List.mem_append, List.mem_singleton] at hi
    exact hi.symm
  | wake f n e t => exact .inr (List.mem_of_mem_erase hi)
  | _ => exact .inr hi

/-- The interruptions since a thread enlisted: `early` ones came when it had no ticket, `unread` ones
since it took the ticket that it has; the others went with a ticket, `outdone` when the thread found
a signal and `ignored` otherwise. -/
structure Post where
  sent : ℕ := 0
  early : ℕ := 0
  unread : ℕ := 0
  outdone : ℕ := 0
  ignored : ℕ := 0

namespace Post

def Balanced (p : Post) : Prop := p.sent = p.early + p.unread + p.outdone + p.ignored

def afterStep (p : Post) (e : Event) : Stance → Stance → Post
  | .apart, .trying none => {}
  | .waiting t false, .trying none =>
    if News e t then
      { p with unread := 0, outdone := p.outdone + p.unread }
    else { p with unread := 0, ignored := p.ignored + p.unread }
  | _, _ => p

def afterInterrupt (p : Post) : Stance → Post
  | .trying none => { p with sent := p.sent + 1, early := p.early + 1 }
  | .trying (some _) | .deciding _ | .waiting .. =>
    { p with sent := p.sent + 1, unread := p.unread + 1 }
  | .apart | .leaving | .releasing => p

theorem Balanced.afterInterrupt {p : Post} (h : p.Balanced) (a : Stance) :
    (p.afterInterrupt a).Balanced := by
  unfold Balanced at *
  cases a with
  | trying t => cases t <;> simp only [Post.afterInterrupt] <;> omega
  | deciding t => simp only [Post.afterInterrupt]; omega
  | waiting t p => simp only [Post.afterInterrupt]; omega
  | _ => exact h

theorem unread_afterInterrupt {p : Post} (ht : a.ticket? = some t) :
    (p.afterInterrupt a).unread = p.unread + 1 := by
  cases a with
  | trying o =>
    cases o with
    | none => simp [Stance.ticket?] at ht
    | some t' => rfl
  | deciding t' => rfl
  | waiting t' parked => rfl
  | _ => simp [Stance.ticket?] at ht

theorem ignored_afterInterrupt (p : Post) (a : Stance) :
    (p.afterInterrupt a).ignored = p.ignored := by
  cases a with
  | trying o => cases o <;> rfl
  | _ => rfl

inductive Sorts (p : Post) (e : Event) : Stance → Stance → Post → Prop
  | enlists : Sorts p e .apart (.trying none) {}
  | prepares : Sorts p e (.trying none) (.trying (some e.prepare)) p
  | keeps {a b : Stance} (hb : b ≠ .trying none) (ht : ∀ t, b.ticket? = some t → a.ticket? = some t)
      (ha : b.isEnlisted = true → a.isEnlisted = true) : Sorts p e a b p
  | rests {a : Stance} : Sorts p e a a p
  | outdoes {t : Ticket} (hn : News e t) : Sorts p e (.waiting t false) (.trying none)
      { p with unread := 0, outdone := p.outdone + p.unread }
  | ignores {t : Ticket} (hn : ¬News e t) : Sorts p e (.waiting t false) (.trying none)
      { p with unread := 0, ignored := p.ignored + p.unread }

theorem afterStep_self (p : Post) (e : Event) (a : Stance) : p.afterStep e a a = p := by
  cases a with
  | trying t => cases t <;> rfl
  | waiting t parked => cases parked <;> rfl
  | _ => rfl

theorem sorts_step (h : Step me k l a l' b) (p : Post) :
    Sorts p l.event a b (p.afterStep l.event a b) := by
  have drops : ∀ t, Sorts p l.event (.waiting t false) (.trying none)
      (p.afterStep l.event (.waiting t false) (.trying none)) := by
    intro t
    by_cases hn : News l.event t
    · rw [afterStep, if_pos hn]
      exact .outdoes hn
    · rw [afterStep, if_neg hn]
      exact .ignores hn
  cases h with
  | stay =>
    rw [afterStep_self]
    exact .rests
  | enlist => exact .enlists
  | prepare => exact .prepares
  | hear f n e t o left h => exact drops t
  | expire l t => exact drops t
  | signal f n e pick a ha =>
    rcases ha with rfl | rfl <;>
      exact .keeps (by simp) (by simp [Stance.ticket?]) (by simp [Stance.isEnlisted])
  | lose n e t b hb =>
    rcases hb with rfl | rfl <;>
      exact .keeps (by simp) (by simp [Stance.ticket?]) (by simp [Stance.isEnlisted])
  | _ => exact .keeps (by simp) (by simp [Stance.ticket?]) (by simp [Stance.isEnlisted])

variable {p p' : Post}

theorem Sorts.ticket (h : Sorts p e a b p') (hb : b.ticket? = some t) :
    p' = p ∧ (a.ticket? = some t ∨ a = .trying none ∧ t = e.prepare) := by
  cases h with
  | keeps hb' ht ha => exact ⟨rfl, .inl (ht t hb)⟩
  | rests => exact ⟨rfl, .inl hb⟩
  | prepares => exact ⟨rfl, .inr ⟨rfl, (Option.some.inj hb).symm⟩⟩
  | _ => simp [Stance.ticket?] at hb

theorem Sorts.fresh (h : Sorts p e a (.trying none) p') (ha : a = .trying none → p.unread = 0) :
    p'.unread = 0 := by
  cases h with
  | keeps hb ht ha => exact absurd rfl hb
  | rests => exact ha rfl
  | _ => rfl

theorem Sorts.balanced (h : Sorts p e a b p') (hb : b.isEnlisted = true)
    (hp : a.isEnlisted = true → p.Balanced) : p'.Balanced := by
  cases h with
  | enlists => rfl
  | prepares => exact hp rfl
  | keeps hb' ht ha => exact hp (ha hb)
  | rests => exact hp hb
  | outdoes hn =>
    have h := hp rfl
    simp only [Balanced] at h ⊢
    omega
  | ignores hn =>
    have h := hp rfl
    simp only [Balanced] at h ⊢
    omega

theorem Sorts.ignored (h : Sorts p e a b p') (hb : b.isEnlisted = true)
    (hp : a.isEnlisted = true → 2 ^ 64 ∣ p.ignored)
    (hr : ∀ t, a = .waiting t false → b = .trying none → ¬News e t → 2 ^ 64 ∣ p.unread) :
    2 ^ 64 ∣ p'.ignored := by
  cases h with
  | enlists => exact Nat.dvd_zero _
  | prepares => exact hp rfl
  | keeps hb' ht ha => exact hp (ha hb)
  | rests => exact hp hb
  | outdoes hn => exact hp rfl
  | ignores hn => exact Nat.dvd_add (hp rfl) (hr _ rfl rfl hn)

end Post

structure Delivered (e : Event) (st : Ident → Stance) (post : Ident → Post) : Prop where
  counts : (counter? e).isSome = true
  listed : Listed e st
  dated : ∀ i t, (st i).ticket? = some t →
    e.signals.interruptions = t.interrupts + UInt64.ofNat (post i).unread
  fresh : ∀ i, st i = .trying none → (post i).unread = 0
  read : ∀ i ∈ e.sleepers, 2 ^ 64 ∣ (post i).unread
  balanced : ∀ i, (st i).isEnlisted = true → (post i).Balanced

variable {post : Ident → Post}

theorem delivered_new (st : Ident → Stance) (hs : ∀ i, st i = .apart) (post : Ident → Post) :
    Delivered (.new .posix) st post where
  counts := rfl
  listed := ⟨List.nodup_nil, by simp [Event.new]⟩
  dated i t h := by simp [hs, Stance.ticket?] at h
  fresh i h := by simp [hs] at h
  read := by simp [Event.new]
  balanced i h := by simp [hs, Stance.isEnlisted] at h

/-- The ticket shows an interruption exactly if one is unread, unless so many are that the count
came round. -/
theorem Delivered.unread (h : Delivered e st post) {i : Ident} (ht : (st i).ticket? = some t) :
    e.signals.interruptions = t.interrupts ↔ 2 ^ 64 ∣ (post i).unread := by
  rw [h.dated i t ht, ← ofNat_eq_zero_iff]
  exact UInt64.add_eq_left

/-- What a thread that finds nothing has not read came round to none. -/
theorem Delivered.read_of_look (h : Delivered e st post) {i : Ident} (ht : (st i).ticket? = some t)
    (hl : (e.signals.look t).1 = none) : 2 ^ 64 ∣ (post i).unread := by
  rw [← h.unread ht]
  by_contra hne
  rw [look_of_not_news h.counts (by simp [News, hl]), if_neg hne] at hl
  cases hl

/-- A thread that falls asleep has found nothing, so it has read everything. -/
theorem Delivered.read_of_step (h : Step me k l a l' (.waiting t true)) (ha : st me = a)
    (hd : Delivered l.event st post) (hm : me ∈ l'.event.sleepers)
    (hs : ∀ t, a = .waiting t false → (l.event.signals.look t).1 = none) :
    2 ^ 64 ∣ (post me).unread := by
  cases h with
  | stay => exact hd.read me hm
  | sleep f n e t hn => exact hd.read_of_look (by rw [ha]; rfl) (hs t rfl)
  | lose n e t b hb => simp at hb

/-- A thread that falls asleep has to have found nothing. -/
theorem Delivered.step (h : Step me k l a l' b) (ha : st me = a)
    (hd : Delivered l.event st post)
    (hs : ∀ t t', a = .waiting t false → b = .waiting t' true →
      (l.event.signals.look t).1 = none) :
    Delivered l'.event (Function.update st me b)
      (Function.update post me ((post me).afterStep l.event a b)) := by
  have hsorts := Post.sorts_step h (post me)
  have hlisted := hd.listed.step h ha
  constructor
  case counts =>
    rw [h.counts]
    exact hd.counts
  case listed => exact hlisted
  case dated =>
    intro i t ht
    rw [h.interruptions]
    by_cases hi : i = me
    · subst hi
      rw [Function.update_self] at ht ⊢
      obtain ⟨hp, hta | ⟨htn, rfl⟩⟩ := hsorts.ticket ht
      · rw [hp]
        exact hd.dated i t (by rw [ha]; exact hta)
      · rw [hp, hd.fresh i (by rw [ha]; exact htn), Event.prepare, Signals.ticket_interrupts]
        exact (UInt64.add_zero _).symm
    · rw [Function.update_of_ne hi] at ht ⊢
      exact hd.dated i t ht
  case fresh =>
    intro i hf
    by_cases hi : i = me
    · subst hi
      rw [Function.update_self] at hf ⊢
      subst hf
      exact hsorts.fresh fun hn => hd.fresh i (ha.trans hn)
    · rw [Function.update_of_ne hi] at hf ⊢
      exact hd.fresh i hf
  case read =>
    intro i hm
    by_cases hi : i = me
    · subst hi
      obtain ⟨t, ht⟩ := hlisted.parked i hm
      rw [Function.update_self] at ht ⊢
      subst ht
      obtain ⟨hp, -⟩ := hsorts.ticket rfl
      rw [hp]
      exact hd.read_of_step h ha hm fun t' ht' => hs t' t ht' rfl
    · rw [Function.update_of_ne hi]
      exact hd.read i ((h.mem_sleepers hm).resolve_left hi)
  case balanced =>
    intro i hb
    by_cases hi : i = me
    · subst hi
      rw [Function.update_self] at hb ⊢
      exact hsorts.balanced hb fun he => hd.balanced i (by rw [ha]; exact he)
    · rw [Function.update_of_ne hi] at hb ⊢
      exact hd.balanced i hb

theorem Delivered.rouse (hd : Delivered e st post) (i : Ident) : Delivered (e.rouse i) st post where
  counts := hd.counts
  listed := ⟨hd.listed.nodup.erase i, fun j hj => hd.listed.parked j (List.mem_of_mem_erase hj)⟩
  dated := hd.dated
  fresh := hd.fresh
  read j hj := hd.read j (List.mem_of_mem_erase hj)
  balanced := hd.balanced

theorem Delivered.interrupt (hd : Delivered e st post) :
    Delivered e.interrupt st fun i => (post i).afterInterrupt (st i) := by
  cases he : e.signals with
  | autoReset p n =>
    have hc := hd.counts
    simp [counter?, he] at hc
  | counting n c =>
    have hi : e.interrupt = ⟨.counting n (c + 1), []⟩ := by
      simp [Event.interrupt, he, Signals.afterInterrupt]
    rw [hi]
    constructor
    case counts => rfl
    case listed => exact ⟨List.nodup_nil, by simp⟩
    case read => simp
    case balanced => exact fun i hb => (hd.balanced i hb).afterInterrupt (st i)
    case fresh =>
      intro i hf
      simp only [hf, Post.afterInterrupt]
      exact hd.fresh i hf
    case dated =>
      intro i t ht
      have h := hd.dated i t ht
      simp only [he, Signals.interruptions] at h ⊢
      rw [Post.unread_afterInterrupt ht, h, UInt64.ofNat_add, UInt64.add_assoc]
      rfl

end Parking

end InterpreterLock
