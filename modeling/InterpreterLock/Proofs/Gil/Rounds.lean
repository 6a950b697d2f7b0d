import InterpreterLock.Proofs.Gil.Leftover

/-!
# One round more

At a lock whose wakeup event holds a signal too many, the thread that takes it goes through its loop
once more. In the other run it stays where that round began. Conversely a thread that finds the word
locked can make its extra round at once, before it waits.
-/

set_option autoImplicit false

namespace InterpreterLock.Gil

def Action.actor? : Action → Option Ident
  | .begin i _ => some i
  | .step t => some t.me
  | .rouse _ => none

namespace System

structure Same (s f : System) : Prop where
  gil : f.gil = s.gil
  calls : f.calls = s.calls

variable {s f : System} {t : Turn} {c : Call} {b : Bool}

theorem Same.act (h : Same s f) (a : Action) : Same (s.act a) (f.act a) := by
  obtain ⟨hg, hc⟩ := h
  cases a with
  | begin i op =>
    simp only [System.act, hc]
    cases s.calls i with
    | none => exact ⟨hg, by simp [hc]⟩
    | some c => exact ⟨hg, hc⟩
  | step t =>
    simp only [System.act, hc]
    cases s.calls t.me with
    | none => exact ⟨hg, hc⟩
    | some c => exact ⟨by simp [hg], by simp [hg, hc]⟩
  | rouse i => exact ⟨by simp [System.act, hg], hc⟩

theorem Same.shown (h : Same s f) : s.shown = f.shown := by
  simp only [System.shown, h.gil, h.calls]

theorem Same.answer? (h : Same s f) (a : Action) : s.answer? a = f.answer? a := by
  cases a <;> simp only [System.answer?, h.gil, h.calls]

theorem Same.follows (h : Same s f) (as : List Action) : Follows s as f as := by
  induction as generalizing s f with
  | nil => exact .done h.shown
  | cons a rest ih => exact .both a h.shown (h.answer? a) (ih (h.act a))

def isQuiet (s : System) : Action → Bool
  | .step t => (s.calls t.me).all fun c => !c.looks && !c.signals
  | .begin .. | .rouse _ => true

theorem isQuiet_step (hc : s.calls t.me = some c) (hq : s.isQuiet (.step t) = true) :
    c.looks = false ∧ c.signals = false := by
  simpa [isQuiet, hc] using hq

theorem calls_act_of_ne (a : Action) {j : Ident} (hj : a.actor? ≠ some j) :
    (s.act a).calls j = s.calls j := by
  cases a with
  | begin i op =>
    have hne : j ≠ i := fun h => hj (congrArg some h.symm)
    cases hc : s.calls i <;> simp [act, hc, hne]
  | step t =>
    have hne : j ≠ t.me := fun h => hj (congrArg some h.symm)
    cases hc : s.calls t.me <;> simp [act, hc, hne]
  | rouse i => rfl

/-- A thread that stands at the same place in both systems does the same in both. -/
theorem act_quiet (hg : f.gil = s.gil.setPending b) (a : Action) (hq : s.isQuiet a = true)
    (hi : ∀ i, a.actor? = some i → f.calls i = s.calls i) :
    (f.act a).gil = (s.act a).gil.setPending b ∧
      (∀ i, a.actor? = some i → (f.act a).calls i = (s.act a).calls i) ∧
      f.answer? a = s.answer? a := by
  cases a with
  | begin i op =>
    have hi := hi i rfl
    cases hc : s.calls i with
    | none =>
      rw [hc] at hi
      refine ⟨by simp [act, hc, hi, beginCall, hg], ?_, rfl⟩
      rintro j hj
      cases hj
      simp [act, hc, hi]
    | some c =>
      rw [hc] at hi
      refine ⟨by simp [act, hc, hi, hg], ?_, rfl⟩
      rintro j hj
      cases hj
      simp [act, hc, hi]
  | step t =>
    have hi := hi t.me rfl
    cases hc : s.calls t.me with
    | none =>
      rw [hc] at hi
      refine ⟨by simp [act, hc, hi, hg], ?_, by simp [answer?, hc, hi]⟩
      rintro j hj
      cases hj
      simp [act, hc, hi]
    | some c =>
      rw [hc] at hi
      obtain ⟨hl, hs⟩ := isQuiet_step hc hq
      have hm := c.step_setPending b t s.gil hl hs
      rw [← hg] at hm
      refine ⟨by simp [act, hc, hi, hm, Move.onState], ?_,
        by simp [answer?, hc, hi, hm, Move.onState]⟩
      rintro j hj
      cases hj
      simp [act, hc, hi, hm, Move.onState]
  | rouse i =>
    refine ⟨by simp only [act, hg]; rfl, ?_, rfl⟩
    rintro j hj
    cases hj

/-- A signal makes the two systems the same. -/
theorem act_signal (hg : f.gil = s.gil.setPending b) (hc : f.calls = s.calls)
    (hcall : s.calls t.me = some c) (hs : c.signals = true) :
    Same (s.act (.step t)) (f.act (.step t)) ∧ s.answer? (.step t) = f.answer? (.step t) := by
  have hf : f.calls t.me = some c := hc ▸ hcall
  have hm := c.step_signals b t s.gil hs
  rw [← hg] at hm
  refine ⟨⟨by simp [act, hcall, hf, hm], by simp [act, hcall, hf, hm, hc]⟩, ?_⟩
  simp [answer?, hcall, hf, hm]

theorem wakeup_act_quiet (a : Action) (hq : s.isQuiet a = true) :
    (s.act a).gil.wakeup.signals = s.gil.wakeup.signals := by
  cases a with
  | begin i op => cases hc : s.calls i <;> simp [act, hc, beginCall]
  | step t =>
    cases hc : s.calls t.me with
    | none => simp [act, hc]
    | some c =>
      obtain ⟨hl, hs⟩ := isQuiet_step hc hq
      simp only [act, hc, stepCall_gil]
      exact c.step_wakeup hl hs
  | rouse i => rfl

/-- A thread that is in an acquire was there before, or it has just begun it, or taken a step of it. -/
theorem place?_act (a : Action) {i : Ident} {c' : Call} {a' : Acquire}
    (hc : (s.act a).calls i = some c') (hp : c'.place? = some a') :
    (s.calls i = some c' ∧ ∀ t, a = .step t → i ≠ t.me) ∨ a' = .checkHolder ∨
      ∃ t c a₀, a = .step t ∧ i = t.me ∧ s.calls i = some c ∧ c.place? = some a₀ ∧
        (a₀.step t s.gil).progress.next? = some a' ∧ c' = c.put a' := by
  by_cases ha : a.actor? = some i
  · cases a with
    | begin j op =>
      cases ha
      cases hcall : s.calls i with
      | some c =>
        simp only [act, hcall] at hc
        exact .inl ⟨hc, fun t ht => by cases ht⟩
      | none =>
        have hop : op.call = c' := by simpa [act, hcall] using hc
        subst hop
        cases op <;> cases hp <;> exact .inr (.inl rfl)
    | step t =>
      cases ha
      cases hcall : s.calls t.me with
      | none => simp [act, hcall] at hc
      | some c =>
        have hn : (c.step t s.gil).progress.next? = some c' := by simpa [act, hcall] using hc
        rcases Call.place?_step hn hp with h0 | ⟨a₀, h1, h2, h3⟩
        · exact .inr (.inl h0)
        · exact .inr (.inr ⟨t, c, a₀, rfl, rfl, rfl, h1, h2, h3⟩)
    | rouse j => cases ha
  · rw [calls_act_of_ne a ha] at hc
    refine .inl ⟨hc, ?_⟩
    rintro t rfl rfl
    exact ha rfl

end System

namespace Acquire

def isAsleep : Acquire → Bool
  | .wait _ (.asleep ..) => true
  | _ => false

def back? : Acquire → Option Acquire
  | .retry start _ | .wait start (.start ..) | .wait start (.check ..) => some (.prepare start)
  | _ => none

variable {t : Turn} {g : Gil} {a a' a₀ : Acquire}

theorem loops_of_back (h : a.back? = some a') : a.loops = true ∧ a'.loops = true := by
  cases a with
  | retry start ticket =>
    cases h
    exact ⟨rfl, rfl⟩
  | wait start w => cases w <;> cases h <;> exact ⟨rfl, rfl⟩
  | _ => cases h

/-- A step within a round changes nothing at the lock. -/
theorem step_back (hn : (a.step t g).progress.next? = some a') (hb : a'.back? = some a₀)
    (hl : a.looks = false) (hs : a.isAsleep = false) :
    (a.step t g).state = g ∧ (a = a₀ ∨ a.back? = some a₀) ∧ a.loops = true := by
  cases a with
  | prepare start =>
    cases hn
    cases hb
    exact ⟨rfl, .inl rfl, rfl⟩
  | retry start ticket =>
    simp only [step] at hn ⊢
    cases ht : g.tryLock with
    | error v =>
      rw [ht] at hn
      cases hn
    | ok o =>
      rw [ht] at hn
      cases o with
      | some g' =>
        cases hn
        cases hb
      | none =>
        cases hn
        cases hb
        exact ⟨rfl, .inr rfl, rfl⟩
  | wait start w =>
    cases w with
    | start ticket timeout =>
      cases hn
      cases hb
      exact ⟨rfl, .inr rfl, rfl⟩
    | check ticket timeout deadline => cases hl
    | asleep ticket timeout deadline => cases hs
  | checkHolder =>
    simp only [step] at hn
    split at hn <;> cases hn
    cases hb
  | tryWord =>
    simp only [step] at hn
    split at hn <;> cases hn <;> cases hb
  | count route => cases route <;> cases hn <;> cases hb
  | record route => cases route <;> cases hn
  | readClock =>
    cases hn
    cases hb
  | enlist start =>
    cases hn
    cases hb
  | unlist start =>
    cases hn
    cases hb
  | setHolder route =>
    cases hn
    cases hb
  | announce start =>
    cases hn
    cases hb

/-- A thread that looks takes the signal and begins a new round. -/
theorem step_hears (hl : a.looks = true) (hw : g.wakeup.signals.IsOf .windows)
    (hp : g.wakeup.signals.isPending = true) :
    ∃ a₀, a.back? = some a₀ ∧ (a.step t g).progress = .going a₀ ∧
      (a.step t g).state = g.setPending false := by
  cases a with
  | wait start w =>
    cases w with
    | check ticket timeout deadline =>
      refine ⟨.prepare start, rfl, ?_⟩
      cases hs : g.wakeup.signals with
      | counting n i =>
        rw [hs] at hw
        cases hw
      | autoReset p n =>
        rw [hs] at hp
        cases hp
        simp only [step, Wait.step, hs, Signals.look, Progress.within, setPending,
          Event.setPending, Signals.setPending]
        exact ⟨trivial, trivial⟩
    | _ => cases hl
  | _ => cases hl

/-- Nobody falls asleep without having looked. -/
theorem isAsleep_step (hn : (a.step t g).progress.next? = some a') (hl : a.looks = false)
    (hs : a.isAsleep = false) : a'.isAsleep = false := by
  cases a with
  | wait start w =>
    cases w with
    | start ticket timeout =>
      cases hn
      rfl
    | check ticket timeout deadline => cases hl
    | asleep ticket timeout deadline => cases hs
  | checkHolder =>
    simp only [step] at hn
    split at hn <;> cases hn
    rfl
  | tryWord =>
    simp only [step] at hn
    split at hn <;> cases hn <;> rfl
  | retry start ticket =>
    simp only [step] at hn
    split at hn <;> cases hn <;> rfl
  | count route => cases route <;> cases hn <;> rfl
  | record route => cases route <;> cases hn
  | _ =>
    cases hn
    rfl

end Acquire

namespace System

variable {s f : System} {t : Turn} {c : Call} {b : Bool}

structure Full (s : System) : Prop where
  windows : s.gil.wakeup.signals.IsOf .windows
  pending : s.gil.wakeup.signals.isPending = true
  awake : ∀ i c a, s.calls i = some c → c.place? = some a → a.isAsleep = false

theorem Full.act (h : s.Full) {a : Action} (hq : s.isQuiet a = true) : (s.act a).Full := by
  have hw := wakeup_act_quiet a hq
  refine ⟨by rw [hw]; exact h.windows, by rw [hw]; exact h.pending, ?_⟩
  intro i c' a' hc hp
  rcases place?_act a hc hp with ⟨hsame, -⟩ | rfl | ⟨t, c, a₀, rfl, rfl, hcall, hpl, hn, -⟩
  · exact h.awake i c' a' hsame hp
  · rfl
  · obtain ⟨hl, -⟩ := isQuiet_step hcall hq
    have hl' : a₀.looks = false := by simpa [Call.looks, hpl] using hl
    exact Acquire.isAsleep_step hn hl' (h.awake t.me c a₀ hcall hpl)

/-- The calls of the other run: the same, or one thread has still to begin the round it is in. -/
inductive Behind (s : System) : (Ident → Option Call) → Prop
  | level : Behind s s.calls
  | lag {i : Ident} {c : Call} {a a₀ : Acquire} (hc : s.calls i = some c)
      (hp : c.place? = some a) (hb : a.back? = some a₀) :
      Behind s (Function.update s.calls i (some (c.put a₀)))

theorem shown_of_busy (hg : f.gil = s.gil.setPending b)
    (hc : ∀ i, (f.calls i).isSome = (s.calls i).isSome) : s.shown = f.shown := by
  simp only [System.shown, hc, hg]
  rfl

theorem Behind.shown {calls : Ident → Option Call} (h : Behind s calls)
    (hg : f.gil = s.gil.setPending b) (hc : f.calls = calls) : s.shown = f.shown := by
  refine shown_of_busy hg fun i => ?_
  rw [hc]
  cases h with
  | level => rfl
  | @lag j c a a₀ hcall hp hb =>
    by_cases hi : i = j
    · simp [hi, hcall]
    · simp [hi]

def Leads (s : System) (as : List Action) (calls : Ident → Option Call) (bs : List Action) : Prop :=
  ∀ f : System, f.gil = s.gil.setPending false → f.calls = calls → Follows s as f bs

variable {a : Action} {rest bs : List Action}

theorem leads_level (hq : s.isQuiet a = true)
    (hr : (s.act a).Leads rest (s.act a).calls bs) : s.Leads (a :: rest) s.calls (a :: bs) := by
  intro f hg hc
  obtain ⟨hgil, hactor, hans⟩ := act_quiet hg a hq fun i _ => congrFun hc i
  refine .both a (Behind.level.shown hg hc) hans.symm (hr _ hgil ?_)
  ext1 j
  by_cases hj : a.actor? = some j
  · exact hactor j hj
  · rw [calls_act_of_ne a hj, calls_act_of_ne a hj, hc]

/-- The thread that lags behind does nothing. -/
theorem leads_lag {i : Ident} {a₁ a₀ : Acquire} (hq : s.isQuiet a = true)
    (hcall : s.calls i = some c) (hp : c.place? = some a₁) (hb : a₁.back? = some a₀)
    (hi : ∀ t, a = .step t → i ≠ t.me)
    (hr : (s.act a).Leads rest (Function.update (s.act a).calls i (some (c.put a₀))) bs) :
    s.Leads (a :: rest) (Function.update s.calls i (some (c.put a₀))) (a :: bs) := by
  intro f hg hc
  have hs := (Behind.lag hcall hp hb).shown hg hc
  by_cases ha : a.actor? = some i
  · cases a with
    | begin j op =>
      -- A thread in a call begins no other one, here or there.
      cases ha
      have hf : f.calls i = some (c.put a₀) := by simp [hc]
      have hsame : s.act (.begin i op) = s := by simp [act, hcall]
      have hfsame : f.act (.begin i op) = f := by simp [act, hf]
      rw [hsame] at hr
      refine .both _ hs rfl ?_
      rw [hsame, hfsame]
      exact hr f hg hc
    | step t =>
      cases ha
      exact absurd rfl (hi t rfl)
    | rouse j => cases ha
  · have hactor : ∀ j, a.actor? = some j → f.calls j = s.calls j := by
      intro j hj
      have hne : j ≠ i := fun h => ha (h ▸ hj)
      rw [hc, Function.update_of_ne hne]
    obtain ⟨hgil, hcalls, hans⟩ := act_quiet hg a hq hactor
    refine .both a hs hans.symm (hr _ hgil ?_)
    ext1 j
    by_cases hj : a.actor? = some j
    · have hne : j ≠ i := fun h => ha (h ▸ hj)
      rw [hcalls j hj, Function.update_of_ne hne]
    · rw [calls_act_of_ne a hj, hc]
      by_cases hji : j = i
      · rw [hji, Function.update_self, Function.update_self]
      · rw [Function.update_of_ne hji, Function.update_of_ne hji, calls_act_of_ne a hj]

theorem loops_of_call {i : Ident} {a₁ : Acquire} (hc : s.calls i = some c)
    (hp : c.place? = some a₁) (hl : a₁.loops = true) : s.loops i = true := by
  simp [loops, hc, Call.loops, hp, hl]

theorem step_call {a₁ a₂ : Acquire} (hc : s.calls t.me = some c) (hp : c.place? = some a₁)
    (hn : (a₁.step t s.gil).progress.next? = some a₂) :
    (s.act (.step t)).gil = (a₁.step t s.gil).state ∧
      (s.act (.step t)).calls = Function.update s.calls t.me (some (c.put a₂)) := by
  obtain ⟨hstate, hnext⟩ := Call.step_place (t := t) (g := s.gil) hp
  simp only [act, hc, stepCall_gil, stepCall_calls, hstate, hnext, hn, Option.map_some]
  exact ⟨trivial, trivial⟩

/-- The thread that lags behind is in its round, and the other run does not move. -/
theorem leads_back {a₁ a₂ a₀ : Acquire} (hfull : s.Full) (hq : s.isQuiet (.step t) = true)
    (hcall : s.calls t.me = some c) (hp : c.place? = some a₁)
    (hn : (a₁.step t s.gil).progress.next? = some a₂) (hb : a₂.back? = some a₀)
    (hr : (s.act (.step t)).Leads rest
      (Function.update (s.act (.step t)).calls t.me (some (c.put a₀))) bs) :
    ∃ calls, Behind s calls ∧ s.Leads (.step t :: rest) calls bs := by
  obtain ⟨hl, -⟩ := isQuiet_step hcall hq
  have hl' : a₁.looks = false := by simpa [Call.looks, hp] using hl
  obtain ⟨hstate, hwhere, hloop⟩ :=
    Acquire.step_back hn hb hl' (hfull.awake t.me c a₁ hcall hp)
  obtain ⟨hgil, hcalls⟩ := step_call hcall hp hn
  rw [hstate] at hgil
  rw [hcalls, Function.update_idem] at hr
  have hafter : (s.act (.step t)).loops t.me = true := by
    refine loops_of_call (c := c.put a₂) ?_ (Call.place?_put a₂ c) (Acquire.loops_of_back hb).1
    rw [hcalls, Function.update_self]
  have follow : ∀ calls, Behind s calls →
      calls = Function.update s.calls t.me (some (c.put a₀)) →
      s.Leads (.step t :: rest) calls bs := by
    intro calls hbeh heq f hg hc
    refine .retry t (hbeh.shown hg hc) (loops_of_call hcall hp hloop) hafter (hr f ?_ ?_)
    · rw [hgil]
      exact hg
    · rw [hc, heq]
  rcases hwhere with rfl | hback
  · refine ⟨s.calls, .level, follow _ .level ?_⟩
    rw [Call.put_of_place hp]
    exact (Function.update_eq_self_iff.mpr hcall.symm).symm
  · exact ⟨_, .lag hcall hp hback, follow _ (.lag hcall hp hback) rfl⟩

/-- The thread takes the signal, and from then on the two runs are the same. -/
theorem leads_hears (hfull : s.Full) (rest : List Action) (hcall : s.calls t.me = some c)
    (hl : c.looks = true) :
    ∃ calls, Behind s calls ∧ s.Leads (.step t :: rest) calls rest := by
  cases hp : c.place? with
  | none => simp [Call.looks, hp] at hl
  | some a₁ =>
    have hl' : a₁.looks = true := by simpa [Call.looks, hp] using hl
    obtain ⟨a₀, hb, hgo, hstate⟩ := Acquire.step_hears (t := t) hl' hfull.windows hfull.pending
    have hn : (a₁.step t s.gil).progress.next? = some a₀ := by
      rw [hgo]
      rfl
    obtain ⟨hgil, hcalls⟩ := step_call hcall hp hn
    refine ⟨_, .lag hcall hp hb, fun f hg hc => ?_⟩
    have hloop := Acquire.loops_of_back hb
    refine .retry t ((Behind.lag hcall hp hb).shown hg hc) (loops_of_call hcall hp hloop.1) ?_ ?_
    · refine loops_of_call (c := c.put a₀) ?_ (Call.place?_put a₀ c) hloop.2
      rw [hcalls, Function.update_self]
    · have hsame : Same (s.act (.step t)) f :=
        ⟨by rw [hgil, hstate, hg], by rw [hcalls, hc]⟩
      exact hsame.follows rest

/-- Whatever is done at the lock with the signal can be done at the one without it, but for one round
of one thread. -/
theorem Full.followed (h : s.Full) (as : List Action) :
    ∃ calls bs, Behind s calls ∧ s.Leads as calls bs := by
  induction as generalizing s with
  | nil => exact ⟨s.calls, [], .level, fun f hg hc => .done (Behind.level.shown hg hc)⟩
  | cons a rest ih =>
    by_cases hq : s.isQuiet a = true
    · obtain ⟨calls, bs, hbeh, hlead⟩ := ih (h.act hq)
      cases hbeh with
      | level => exact ⟨_, a :: bs, .level, leads_level hq hlead⟩
      | lag hcall hp hb =>
        rcases place?_act a hcall hp with
          ⟨hbefore, hne⟩ | rfl | ⟨t, c, a₁, rfl, rfl, hc, hp', hn, rfl⟩
        · exact ⟨_, a :: bs, .lag hbefore hp hb, leads_lag hq hbefore hp hb hne hlead⟩
        · cases hb
        · rw [Call.put_put] at hlead
          obtain ⟨calls', hbeh', hlead'⟩ := leads_back h hq hc hp' hn hb hlead
          exact ⟨calls', bs, hbeh', hlead'⟩
    · cases a with
      | step t =>
        cases hc : s.calls t.me with
        | none => simp [isQuiet, hc] at hq
        | some c =>
          by_cases hl : c.looks = true
          · obtain ⟨calls, hbeh, hlead⟩ := leads_hears h rest hc hl
            exact ⟨calls, rest, hbeh, hlead⟩
          · have hs : c.signals = true := by simpa [isQuiet, hc, hl] using hq
            refine ⟨s.calls, .step t :: rest, .level, fun f hg hcalls => ?_⟩
            obtain ⟨hsame, hans⟩ := act_signal hg hcalls hc hs
            exact .both _ (Behind.level.shown hg hcalls) hans (hsame.follows rest)
      | _ => exact absurd rfl hq

end System

end InterpreterLock.Gil

namespace InterpreterLock.Signals

variable {s : Signals}

theorem isOf_setPending (h : s.IsOf .windows) (b : Bool) : (s.setPending b).IsOf .windows := by
  cases s <;> exact h

theorem isPending_setPending (h : s.IsOf .windows) (b : Bool) :
    (s.setPending b).isPending = b := by
  cases s with
  | counting n i => cases h
  | autoReset p n => rfl

theorem setPending_of_isPending {b : Bool} (h : s.IsOf .windows) (hp : s.isPending = b) :
    s.setPending b = s := by
  cases s with
  | counting n i => cases h
  | autoReset p n =>
    cases hp
    rfl

theorem setPending_setPending (b b' : Bool) : (s.setPending b).setPending b' = s.setPending b' := by
  cases s <;> rfl

end InterpreterLock.Signals

namespace InterpreterLock.Gil

theorem setPending_of_isPending {g : Gil} {b : Bool} (h : g.wakeup.signals.IsOf .windows)
    (hp : g.wakeup.signals.isPending = b) : g.setPending b = g := by
  simp only [setPending, Event.setPending, Signals.setPending_of_isPending h hp]

theorem setPending_setPending (g : Gil) (b b' : Bool) :
    (g.setPending b).setPending b' = g.setPending b' := by
  simp only [setPending, Event.setPending, Signals.setPending_setPending]

namespace Acquire

def Eager (g : Gil) : Acquire → Prop
  | .retry _ ticket => ticket = g.wakeup.prepare
  | .wait .. => False
  | _ => True

def Fails (g : Gil) (a : Acquire) : Prop :=
  (∃ start ticket, a = .retry start ticket) ∧ g.tryLock = .ok none

variable {t : Turn} {g : Gil} {a a' : Acquire}

theorem eager_step (hn : (a.step t g).progress.next? = some a') (he : a.Eager g)
    (hf : ¬a.Fails g) : a'.Eager (a.step t g).state := by
  cases a with
  | prepare start =>
    cases hn
    rfl
  | retry start ticket =>
    simp only [step] at hn ⊢
    cases ht : g.tryLock with
    | error v =>
      rw [ht] at hn
      cases hn
    | ok o =>
      rw [ht] at hn
      cases o with
      | some g' =>
        cases hn
        trivial
      | none => exact absurd ⟨⟨start, ticket, rfl⟩, ht⟩ hf
  | wait start w => exact he.elim
  | checkHolder =>
    simp only [step] at hn
    split at hn <;> cases hn
    trivial
  | tryWord =>
    simp only [step] at hn
    split at hn <;> cases hn <;> trivial
  | count route => cases route <;> cases hn <;> trivial
  | record route => cases route <;> cases hn
  | _ =>
    cases hn
    trivial

theorem Eager.of_wakeup {g' : Gil} (he : a.Eager g) (hw : g'.wakeup.signals = g.wakeup.signals) :
    a.Eager g' := by
  cases a with
  | retry start ticket =>
    have ht : ticket = g.wakeup.signals.ticket := he
    rw [← hw] at ht
    exact ht
  | _ => exact he

theorem Eager.looks (he : a.Eager g) : a.looks = false := by
  cases a with
  | wait start w => exact he.elim
  | _ => rfl

end Acquire

namespace System

variable {s f : System} {t : Turn} {c : Call} {b : Bool} {as bs : List Action}

structure Drained (f : System) : Prop where
  windows : f.gil.wakeup.signals.IsOf .windows
  empty : f.gil.wakeup.signals.isPending = false
  eager : ∀ i c a, f.calls i = some c → c.place? = some a → a.Eager f.gil

theorem Drained.looks (h : f.Drained) {i : Ident} (hc : f.calls i = some c) :
    c.looks = false := by
  cases hp : c.place? with
  | none => simp [Call.looks, hp]
  | some a => simpa [Call.looks, hp] using (h.eager i c a hc hp).looks

theorem Drained.act (h : f.Drained) {a : Action} (hq : f.isQuiet a = true)
    (hf : ∀ t c a₁, a = .step t → f.calls t.me = some c → c.place? = some a₁ → ¬a₁.Fails f.gil) :
    (f.act a).Drained := by
  have hw := wakeup_act_quiet a hq
  refine ⟨by rw [hw]; exact h.windows, by rw [hw]; exact h.empty, ?_⟩
  intro i c' a' hc hp
  rcases place?_act a hc hp with ⟨hsame, -⟩ | rfl | ⟨t, c, a₁, rfl, rfl, hcall, hpl, hn, -⟩
  · exact (h.eager i c' a' hsame hp).of_wakeup hw
  · trivial
  · have he := Acquire.eager_step hn (h.eager t.me c a₁ hcall hpl) (hf t c a₁ rfl hcall hpl)
    obtain ⟨hgil, -⟩ := step_call hcall hpl hn
    rw [hgil]
    exact he

structure Off (f s : System) (i : Ident) (c : Call) (b : Bool) (a : Acquire) : Prop where
  gil : s.gil = f.gil.setPending b
  calls : s.calls = Function.update f.calls i (some (c.put a))

/-- A step within the loop is a retry more. -/
theorem Off.step {a₁ : Acquire} (h : Off f s t.me c b a₁) (b' : Bool) (a₂ : Acquire)
    (hf : f.calls t.me = some c)
    (hn : (a₁.step t (f.gil.setPending b)).progress.next? = some a₂)
    (hstate : (a₁.step t (f.gil.setPending b)).state = f.gil.setPending b')
    (h₁ : a₁.loops = true) (h₂ : a₂.loops = true) :
    Off f (s.act (.step t)) t.me c b' a₂ ∧
      ∀ as bs, Follows (s.act (.step t)) as f bs → Follows s (.step t :: as) f bs := by
  have hcall : s.calls t.me = some (c.put a₁) := by rw [h.calls, Function.update_self]
  rw [← h.gil] at hn hstate
  obtain ⟨hgil, hcalls⟩ := step_call hcall (Call.place?_put a₁ c) hn
  rw [hstate] at hgil
  rw [h.calls, Function.update_idem, Call.put_put] at hcalls
  have hs : f.shown = s.shown := by
    refine shown_of_busy h.gil fun i => ?_
    rw [h.calls]
    by_cases hi : i = t.me
    · simp [hi, hf]
    · simp [hi]
  refine ⟨⟨hgil, hcalls⟩, fun as bs hr => ?_⟩
  refine .retry t hs.symm (loops_of_call hcall (Call.place?_put a₁ c) h₁) ?_ hr
  refine loops_of_call (c := c.put a₂) ?_ (Call.place?_put a₂ c) h₂
  rw [hcalls, Function.update_self]

/-- A thread that is about to find the word locked can go through its loop and take the signal. -/
theorem follows_round (hf : f.Drained) {start : Instant} {ticket : Ticket}
    (hcall : f.calls t.me = some c) (hp : c.place? = some (.retry start ticket))
    (hfail : f.gil.tryLock = .ok none) (hg : s.gil = f.gil.setPending true)
    (hc : s.calls = f.calls) :
    Follows s (.step t :: .step t :: .step t :: .step t :: bs) f bs := by
  have hticket : ticket = f.gil.wakeup.signals.ticket := hf.eager t.me c _ hcall hp
  have hlock : (f.gil.setPending true).tryLock = .ok none := by rw [tryLock_setPending, hfail]
  have o₀ : Off f s t.me c true (.retry start ticket) := by
    refine ⟨hg, ?_⟩
    rw [Call.put_of_place hp, hc]
    exact (Function.update_eq_self_iff.mpr hcall.symm).symm
  -- It fails, begins to wait, takes the signal, and takes the same ticket again.
  obtain ⟨o₁, r₁⟩ := o₀.step true (.wait start (.start ticket .infinite)) hcall
    (by simp only [Acquire.step, hlock]; rfl) (by simp only [Acquire.step, hlock]) rfl rfl
  obtain ⟨o₂, r₂⟩ := o₁.step true _ hcall rfl rfl rfl rfl
  obtain ⟨a₀, hb, hgo, hleft⟩ := Acquire.step_hears (t := t) (g := f.gil.setPending true)
    (a := .wait start (.check ticket .infinite
      ((f.gil.setPending true).wakeup.signals.deadline .infinite t.now))) rfl
    (Signals.isOf_setPending hf.windows true) (Signals.isPending_setPending hf.windows true)
  cases hb
  rw [setPending_setPending] at hleft
  obtain ⟨o₃, r₃⟩ := o₂.step false _ hcall (by rw [hgo]; rfl) hleft rfl rfl
  obtain ⟨o₄, r₄⟩ := o₃.step false _ hcall rfl rfl rfl rfl
  have hnew : (f.gil.setPending false).wakeup.prepare = ticket := by
    rw [setPending_of_isPending hf.windows hf.empty, hticket]
    rfl
  have hback : Function.update f.calls t.me
      (some (c.put (.retry start (f.gil.setPending false).wakeup.prepare))) = f.calls := by
    rw [hnew, Call.put_of_place hp]
    exact Function.update_eq_self_iff.mpr hcall.symm
  have hsame : Same (((((s.act (.step t)).act (.step t)).act (.step t)).act (.step t))) f := by
    refine ⟨?_, ?_⟩
    · rw [o₄.gil, setPending_of_isPending hf.windows hf.empty]
    · rw [o₄.calls, hback]
  exact r₁ _ _ (r₂ _ _ (r₃ _ _ (r₄ _ _ (hsame.follows bs))))

theorem Same.symm (h : Same s f) : Same f s := ⟨h.gil.symm, h.calls.symm⟩

/-- Whatever is done at the lock without the signal can be done at the one with it, with one round
more at most. -/
theorem Drained.followed (h : f.Drained) (bs : List Action) :
    ∃ as, ∀ s : System, s.gil = f.gil.setPending true → s.calls = f.calls →
      Follows s as f bs := by
  induction bs generalizing f with
  | nil =>
    refine ⟨[], fun s hg hc => .done ?_⟩
    exact (shown_of_busy hg fun i => by rw [hc]).symm
  | cons a rest ih =>
    have shown : ∀ s : System, s.gil = f.gil.setPending true → s.calls = f.calls →
        s.shown = f.shown := fun s hg hc => (shown_of_busy hg fun i => by rw [hc]).symm
    by_cases hq : f.isQuiet a = true
    · by_cases hfail : ∃ t c a₁, a = .step t ∧ f.calls t.me = some c ∧ c.place? = some a₁ ∧
        a₁.Fails f.gil
      · obtain ⟨t, c, a₁, rfl, hcall, hp, ⟨start, ticket, rfl⟩, hlock⟩ := hfail
        exact ⟨_, fun s hg hc => follows_round h hcall hp hlock hg hc⟩
      · obtain ⟨as, hlead⟩ := ih (h.act hq fun t c a₁ ha hcall hp hlock =>
          hfail ⟨t, c, a₁, ha, hcall, hp, hlock⟩)
        refine ⟨a :: as, fun s hg hc => ?_⟩
        obtain ⟨hgil, hactor, hans⟩ := act_quiet hg a hq fun i _ => congrFun hc i
        refine .both a (shown s hg hc) hans (hlead _ hgil ?_)
        ext1 j
        by_cases hj : a.actor? = some j
        · exact hactor j hj
        · rw [calls_act_of_ne a hj, calls_act_of_ne a hj, hc]
    · cases a with
      | step t =>
        cases hcall : f.calls t.me with
        | none => simp [isQuiet, hcall] at hq
        | some c =>
          have hs : c.signals = true := by simpa [isQuiet, hcall, h.looks hcall] using hq
          refine ⟨.step t :: rest, fun s hg hc => ?_⟩
          obtain ⟨hsame, hans⟩ := act_signal hg hc hcall hs
          exact .both _ (shown s hg hc) hans.symm (hsame.symm.follows rest)
      | _ => exact absurd rfl hq

/-- A lock that nobody is at, older than a new one and perhaps with a signal too many, differs from it
by retries only. -/
theorem Ages.follows {k : Age} {backend : Backend}
    (h : Ages k { f with gil := f.gil.setPending b } s)
    (hnew : f.gil.wakeup.signals = (Event.new backend).signals) (hidle : ∀ i, f.calls i = none) :
    (∀ as, ∃ bs, Follows s as f bs) ∧ ∀ bs, ∃ as, Follows s as f bs := by
  generalize hs' : ({ f with gil := f.gil.setPending b } : System) = s' at h
  have hgil : s'.gil = f.gil.setPending b := by rw [← hs']
  have hcalls : s'.calls = f.calls := by rw [← hs']
  by_cases hsame : f.gil.setPending b = f.gil
  · have hs : Same s' f := ⟨by rw [hgil, hsame], hcalls.symm⟩
    exact ⟨fun as => ⟨as, (hs.follows as).ages h⟩, fun bs => ⟨bs, (hs.follows bs).ages h⟩⟩
  · -- Only an auto-reset event keeps a signal, and here it holds one.
    have hw : f.gil.wakeup.signals = .autoReset false 0 := by
      cases backend with
      | posix =>
        have hkept : f.gil.wakeup.signals.setPending b = f.gil.wakeup.signals := by
          rw [hnew]
          rfl
        refine absurd ?_ hsame
        simp only [setPending, Event.setPending, hkept]
      | windows => exact hnew
    have hwindows : f.gil.wakeup.signals.IsOf .windows := by rw [hw]; trivial
    have hempty : f.gil.wakeup.signals.isPending = false := by rw [hw]; rfl
    cases b with
    | false => exact absurd (setPending_of_isPending hwindows hempty) hsame
    | true =>
      have hfull : s'.Full := by
        refine ⟨?_, ?_, ?_⟩
        · rw [hgil]
          exact Signals.isOf_setPending hwindows true
        · rw [hgil]
          exact Signals.isPending_setPending hwindows true
        · intro i c a hc
          rw [hcalls, hidle] at hc
          cases hc
      have hdrained : f.Drained := by
        refine ⟨hwindows, hempty, ?_⟩
        intro i c a hc
        rw [hidle] at hc
        cases hc
      constructor
      · intro as
        obtain ⟨calls, bs, hbeh, hlead⟩ := hfull.followed as
        refine ⟨bs, (hlead f ?_ ?_).ages h⟩
        · rw [hgil, setPending_setPending, setPending_of_isPending hwindows hempty]
        · cases hbeh with
          | level => exact hcalls.symm
          | lag hc hp hb =>
            rw [hcalls, hidle] at hc
            cases hc
      · intro bs
        obtain ⟨as, hlead⟩ := hdrained.followed bs
        exact ⟨as, (hlead s' hgil hcalls).ages h⟩

end System

end InterpreterLock.Gil
