import InterpreterLock.Proofs.Gil.Handoff
import InterpreterLock.Proofs.Gil.Yielding

/-!
# Handoffs and timeouts

A yielder that has freed the word waits until the count of acquisitions has changed, until no waiter
is left, or until its deadline. It records a completed handoff in the first case and a timeout in
the other two. But a waiter that takes the word strikes itself off before it counts its acquisition,
and a yielder that looks in between records a timeout long before its deadline, of a word that
another thread has taken.
-/

set_option autoImplicit false

namespace InterpreterLock.Gil

def Yield.findsNone (g : Gil) : Yield → Bool
  | .recountWaiters .. => g.waiters == 0
  | _ => false

def Call.findsNone (g : Gil) : Call → Bool
  | .yield y => y.findsNone g
  | _ => false

inductive Yield.Course (t : Turn) (g : Gil) : Yield → Yield → Prop
  | early {y y' : Yield} (hs : y'.stage = .early) : Course t g y y'
  | owes {y y' : Yield} (before : Option UInt64) (hs : y'.stage = .owing before) : Course t g y y'
  | frees {y y' : Yield} (before : UInt64) (hf : y.frees = true) (hs : y'.stage = .away before) :
      Course t g y y'
  | waits {y y' : Yield} (before : UInt64) (hs : y.stage = .away before) (hf : y.frees = false)
      (hn : y.findsNone g = false) (hs' : y'.stage = .away before) : Course t g y y'
  | counts (watch : Watch) (ticket : Ticket) :
      Course t g (.compareCount watch ticket) (.recordHandoff true)
  | findsNone (watch : Watch) (ticket : Ticket) (hw : g.waiters = 0) :
      Course t g (.recountWaiters watch ticket) (.recordHandoff false)
  | expires (watch : Watch) (ticket : Ticket) (hd : watch.deadline ≤ t.now) :
      Course t g (.readClock watch ticket) (.recordHandoff false)
  | records (completed : Bool) : Course t g (.recordHandoff completed) (.acquire .checkHolder)
  | contends (a a' : Acquire) : Course t g (.acquire a) (.acquire a')

theorem Yield.course {t : Turn} {g : Gil} {y y' : Yield}
    (hp : (y.step t g).progress = .going y') : y.Course t g y' := by
  cases y with
  | checkHolder =>
    simp only [step] at hp
    split at hp <;> cases hp
    exact .early rfl
  | record =>
    cases hp
    exact .early rfl
  | lookForWaiters =>
    simp only [step] at hp
    split at hp <;> cases hp
    exact .owes none rfl
  | readCount =>
    cases hp
    exact .owes _ rfl
  | prepare before =>
    cases hp
    exact .owes before rfl
  | release before ticket r =>
    cases r with
    | checkHolder =>
      simp only [step, Release.step] at hp
      split at hp <;> cases hp
      exact .owes before rfl
    | clearHolder =>
      cases hp
      exact .owes before rfl
    | clearWord =>
      simp only [step, Release.step] at hp
      split at hp <;> cases hp
      exact .frees before rfl rfl
    | lookForWaiters =>
      simp only [step, Release.step] at hp
      split at hp <;> cases hp
      · exact .waits before rfl rfl rfl rfl
      · exact .waits before rfl rfl rfl rfl
    | signal =>
      cases hp
      exact .waits before rfl rfl rfl rfl
  | setDeadline before ticket =>
    simp only [step] at hp
    split at hp <;> cases hp
    exact .waits before rfl rfl rfl rfl
  | compareCount watch ticket =>
    simp only [step] at hp
    split at hp <;> cases hp
    · exact .counts watch ticket
    · exact .waits watch.before rfl rfl rfl rfl
  | recountWaiters watch ticket =>
    by_cases hw : g.waiters = 0
    · simp only [step, hw, if_true] at hp
      cases hp
      exact .findsNone watch ticket hw
    · simp only [step, hw, if_false] at hp
      cases hp
      exact .waits watch.before rfl rfl (by simp [findsNone, hw]) rfl
  | readClock watch ticket =>
    by_cases hd : watch.deadline ≤ t.now
    · simp only [step, hd, if_true] at hp
      cases hp
      exact .expires watch ticket hd
    · simp only [step, hd, if_false] at hp
      cases hp
      exact .waits watch.before rfl rfl rfl rfl
  | wait watch w =>
    simp only [step] at hp
    cases hw : (w.step t g.handoff).2 <;> rw [hw] at hp <;> cases hp
    · exact .waits watch.before rfl rfl rfl rfl
    · exact .waits watch.before rfl rfl rfl rfl
  | renew watch =>
    cases hp
    exact .waits watch.before rfl rfl rfl rfl
  | recordHandoff completed =>
    cases hp
    exact .records completed
  | acquire a =>
    simp only [step] at hp
    cases ha : (a.step t g).progress <;> rw [ha] at hp <;> cases hp
    exact .contends a _

def Call.verdict? : Call → Option Bool
  | .yield (.recordHandoff completed) => some completed
  | _ => none

theorem Call.eq_of_verdict? {c : Call} {completed : Bool} (h : c.verdict? = some completed) :
    c = .yield (.recordHandoff completed) := by
  cases c with
  | yield y =>
    cases y with
    | recordHandoff b =>
      cases h
      rfl
    | _ => cases h
  | _ => cases h

/-- A chronicle that also remembers, since a thread last freed the word, whether it has found no waiter
left and what it has recorded: a completed handoff or a timeout. -/
structure Verdicts where
  chronicle : Chronicle
  foundNone : Ident → Bool := fun _ => false
  verdict : Ident → Option Bool := fun _ => none

namespace Verdicts

def start (mode : Mode) (backend : Backend) (patience : Duration) : Verdicts :=
  { chronicle := .start mode backend patience }

def system (v : Verdicts) : System := v.chronicle.system

def stepCall (v : Verdicts) (t : Turn) (c : Call) : Verdicts where
  chronicle := v.chronicle.stepCall t c
  foundNone :=
    if c.frees then Function.update v.foundNone t.me false
    else Function.update v.foundNone t.me (v.foundNone t.me || c.findsNone v.system.gil)
  verdict :=
    if c.frees then Function.update v.verdict t.me none
    else Function.update v.verdict t.me (c.verdict?.or (v.verdict t.me))

def act (v : Verdicts) (a : Action) : Verdicts :=
  match a with
  | .step t =>
    match v.system.calls t.me with
    | none => v
    | some c => v.stepCall t c
  | .begin .. | .rouse _ => { v with chronicle := v.chronicle.act a }

def run (v : Verdicts) (acts : List Action) : Verdicts := acts.foldl act v

theorem act_chronicle (v : Verdicts) (a : Action) : (v.act a).chronicle = v.chronicle.act a := by
  cases a with
  | step t =>
    cases hc : v.chronicle.system.calls t.me <;> simp [act, Chronicle.act, system, hc, stepCall]
  | _ => rfl

theorem run_chronicle (v : Verdicts) (acts : List Action) :
    (v.run acts).chronicle = v.chronicle.run acts :=
  (List.foldl_hom Verdicts.chronicle fun v a => (act_chronicle v a).symm).symm

/-- The grounds for a verdict. Before a completed handoff the thread has neither come to its
deadline nor found that no waiter is left; before a timeout it has done one of the two. But for the
deadline, another thread has taken the word. -/
structure Grounds (v : Verdicts) (i : Ident) (completed : Bool) : Prop where
  deadline : v.chronicle.expired i = (!completed && !v.foundNone i)
  found : completed = true → v.foundNone i = false
  passed : v.chronicle.expired i = false → v.chronicle.Passed i

def Placed (v : Verdicts) (i : Ident) : Yield → Prop
  | .recordHandoff completed => v.verdict i = none ∧ v.Grounds i completed
  | .acquire _ => (v.verdict i).isSome = true
  | y => ∀ before, y.stage = .away before → v.verdict i = none ∧ v.foundNone i = false

structure Kept (v : Verdicts) : Prop where
  fair : v.chronicle.Fair
  grounds : ∀ i completed, v.verdict i = some completed → v.Grounds i completed
  placed : ∀ i y, v.system.calls i = some (.yield y) → v.Placed i y

variable {v : Verdicts} {t : Turn} {c : Call} {i : Ident}

section

variable (v t c)

theorem stepCall_of_ne (hi : i ≠ t.me) :
    (v.stepCall t c).chronicle.expired i = v.chronicle.expired i ∧
      (v.stepCall t c).foundNone i = v.foundNone i ∧
      (v.stepCall t c).verdict i = v.verdict i := by
  simp only [stepCall, Chronicle.stepCall]
  split <;> simp [hi]

end

/-- A step of the thread that neither frees the word nor ends its wait. -/
theorem stepCall_of_quiet (hf : c.frees = false) (hx : c.expires t = false)
    (hn : c.findsNone v.system.gil = false) :
    (v.stepCall t c).chronicle.expired t.me = v.chronicle.expired t.me ∧
      (v.stepCall t c).foundNone t.me = v.foundNone t.me := by
  simp [stepCall, Chronicle.stepCall, hf, hx, hn]

theorem Grounds.step {completed : Bool} (hg : v.Grounds i completed)
    (hx : (v.stepCall t c).chronicle.expired i = v.chronicle.expired i)
    (hn : (v.stepCall t c).foundNone i = v.foundNone i)
    (hf : c.frees = true → i ≠ t.me) : (v.stepCall t c).Grounds i completed where
  deadline := by rw [hx, hn, hg.deadline]
  found h := by rw [hn, hg.found h]
  passed h := Chronicle.Passed.step (hg.passed (hx ▸ h)) hf

theorem Placed.other {y : Yield} (hp : v.Placed i y) (hi : i ≠ t.me) :
    (v.stepCall t c).Placed i y := by
  obtain ⟨hx, hn, hv⟩ := stepCall_of_ne v t c hi
  cases y with
  | recordHandoff completed => exact ⟨hv.trans hp.1, hp.2.step hx hn fun _ => hi⟩
  | acquire a => exact (congrArg Option.isSome hv).trans hp
  | _ =>
    intro before hs
    have h := hp before hs
    exact ⟨hv.trans h.1, hn.trans h.2⟩

def Open (v : Verdicts) (i : Ident) : Prop := v.verdict i = none ∧ v.foundNone i = false

theorem Open.quiet (h : v.Open t.me) (hf : c.frees = false) (hn : c.findsNone v.system.gil = false)
    (hr : c.verdict? = none) : (v.stepCall t c).Open t.me := by
  simp [Open, stepCall, hf, hn, hr, h.1, h.2]

theorem open_of_frees (hf : c.frees = true) : (v.stepCall t c).Open t.me := by
  simp [Open, stepCall, hf]

theorem Kept.open_of_away (hv : v.Kept) {y : Yield} (hc : v.system.calls i = some (.yield y))
    {before : UInt64} (hs : y.stage = .away before) : v.Open i := by
  have hp := hv.placed i y hc
  cases y with
  | recordHandoff completed => cases hs
  | acquire a => cases hs
  | _ => exact hp before hs

theorem Kept.expired_of_away (hv : v.Kept) {y : Yield} (hc : v.system.calls i = some (.yield y))
    {before : UInt64} (hs : y.stage = .away before) : v.chronicle.expired i = false := by
  have he := hv.fair.expects i y hc
  rw [hs] at he
  exact he.1

/-- What matters at a place where no wait is over. -/
theorem placed_of_ne_back {y : Yield} (hb : y.stage ≠ .back)
    (ho : ∀ before, y.stage = .away before → v.Open i) : v.Placed i y := by
  cases y with
  | recordHandoff completed => exact absurd rfl hb
  | acquire a => exact absurd rfl hb
  | _ => exact ho

/-- What a yield has recorded and found after a step of its own. -/
theorem Kept.own (hv : v.Kept) {y y' : Yield} (hc : v.system.calls t.me = some (.yield y))
    (hp : (y.step t v.system.gil).progress = .going y') :
    (v.stepCall t (.yield y)).Placed t.me y' := by
  -- A wait that ends before the deadline ends after another thread has taken the word.
  have hpass : ∀ completed, y' = .recordHandoff completed → y.expires t = false →
      y.frees = false → (v.stepCall t (.yield y)).chronicle.Passed t.me := by
    rintro completed rfl hx hf
    have h : v.chronicle.Passed t.me := hv.fair.passed hc hp hx
    exact h.step (by simp [Call.frees, hf])
  have hcourse := Yield.course hp
  cases hcourse with
  | early hs => exact placed_of_ne_back (by simp [hs]) (by simp [hs])
  | owes before hs => exact placed_of_ne_back (by simp [hs]) (by simp [hs])
  | frees before hf hs => exact placed_of_ne_back (by simp [hs]) fun _ _ => open_of_frees hf
  | waits before hs hf hn hs' =>
    refine placed_of_ne_back (by simp [hs']) fun _ _ => Open.quiet (hv.open_of_away hc hs) hf hn ?_
    cases y with
    | recordHandoff completed => cases hs
    | _ => rfl
  | counts watch ticket =>
    have ho := hv.open_of_away hc rfl
    have hx := hv.expired_of_away hc rfl
    refine ⟨by simp [stepCall, Call.frees, Yield.frees, Call.verdict?, ho.1], ?_, ?_, ?_⟩
    · simp [stepCall, Chronicle.stepCall, Call.frees, Yield.frees, Call.expires, Yield.expires, hx]
    · simp [stepCall, Call.frees, Yield.frees, Call.findsNone, Yield.findsNone, ho.2]
    · exact fun _ => hpass true rfl rfl rfl
  | findsNone watch ticket hw =>
    have ho := hv.open_of_away hc rfl
    have hx := hv.expired_of_away hc rfl
    refine ⟨by simp [stepCall, Call.frees, Yield.frees, Call.verdict?, ho.1], ?_, by simp, ?_⟩
    · simp [stepCall, Chronicle.stepCall, Call.frees, Yield.frees, Call.expires, Yield.expires,
        Call.findsNone, Yield.findsNone, hx, hw]
    · exact fun _ => hpass false rfl rfl rfl
  | expires watch ticket hd =>
    have ho := hv.open_of_away hc rfl
    have hx : (v.stepCall t (.yield (.readClock watch ticket))).chronicle.expired t.me = true := by
      simp [stepCall, Chronicle.stepCall, Call.frees, Yield.frees, Call.expires, Yield.expires, hd]
    refine ⟨by simp [stepCall, Call.frees, Yield.frees, Call.verdict?, ho.1], ?_, by simp, ?_⟩
    · rw [hx]
      simp [stepCall, Call.frees, Yield.frees, Call.findsNone, Yield.findsNone, ho.2]
    · intro h
      rw [hx] at h
      cases h
  | records completed => simp [Placed, stepCall, Call.frees, Yield.frees, Call.verdict?]
  | contends a a' =>
    have h := hv.placed t.me _ hc
    simp only [Placed] at h ⊢
    simpa [stepCall, Call.frees, Yield.frees, Call.verdict?] using h

/-- Only a thread that waits comes to its deadline or finds that no waiter is left. -/
theorem quiet_or_away (c : Call) (t : Turn) (g : Gil) :
    (c.expires t = false ∧ c.findsNone g = false) ∨
      ∃ y before, c = .yield y ∧ y.stage = .away before := by
  cases c with
  | yield y =>
    cases y with
    | readClock watch ticket => exact .inr ⟨_, watch.before, rfl, rfl⟩
    | recountWaiters watch ticket => exact .inr ⟨_, watch.before, rfl, rfl⟩
    | _ => exact .inl ⟨rfl, rfl⟩
  | _ => exact .inl ⟨rfl, rfl⟩

theorem Kept.grounds_own (hv : v.Kept) (hc : v.system.calls t.me = some c) (hf : c.frees = false)
    {completed : Bool} (hi : (v.stepCall t c).verdict t.me = some completed) :
    (v.stepCall t c).Grounds t.me completed := by
  have hme : (v.stepCall t c).verdict t.me = c.verdict?.or (v.verdict t.me) := by
    simp [stepCall, hf]
  rw [hme] at hi
  have hno : c.frees = true → t.me ≠ t.me := by simp [hf]
  rcases quiet_or_away c t v.system.gil with ⟨hx, hn⟩ | ⟨y, before, rfl, hs⟩
  · obtain ⟨hexp, hfound⟩ := stepCall_of_quiet (v := v) hf hx hn
    cases hr : c.verdict? with
    | none =>
      rw [hr] at hi
      exact (hv.grounds t.me completed hi).step hexp hfound hno
    | some b =>
      rw [hr] at hi
      cases hi
      obtain rfl : c = .yield (.recordHandoff completed) := Call.eq_of_verdict? hr
      exact (hv.placed t.me _ hc).2.step hexp hfound hno
  · -- A thread that waits has no verdict.
    have hr : (Call.yield y).verdict? = none := by
      cases y with
      | recordHandoff b => cases hs
      | _ => rfl
    rw [hr, (hv.open_of_away hc hs).1] at hi
    cases hi

/-- The grounds stay what they are once there is a verdict. -/
theorem Kept.grounds_stepCall (hv : v.Kept) (hc : v.system.calls t.me = some c) (i : Ident)
    (completed : Bool) (hi : (v.stepCall t c).verdict i = some completed) :
    (v.stepCall t c).Grounds i completed := by
  by_cases him : i = t.me
  · subst him
    by_cases hf : c.frees = true
    · simp [stepCall, hf] at hi
    · exact hv.grounds_own hc (by simpa using hf) hi
  · obtain ⟨hx, hn, hver⟩ := stepCall_of_ne v t c him
    rw [hver] at hi
    exact (hv.grounds i completed hi).step hx hn fun _ => him

theorem Kept.stepCall (hv : v.Kept) (hc : v.system.calls t.me = some c) :
    (v.stepCall t c).Kept where
  fair := hv.fair.stepCall hc
  grounds := hv.grounds_stepCall hc
  placed i y hy := by
    by_cases hi : i = t.me
    · subst hi
      have hn : (c.step t v.system.gil).progress.next? = some (.yield y) := by
        simpa [Verdicts.stepCall, system, Chronicle.stepCall] using hy
      obtain ⟨y0, rfl, hp⟩ := Call.of_next?_yield hn
      exact hv.own hc hp
    · have hy' : v.system.calls i = some (.yield y) := by
        simpa [Verdicts.stepCall, system, Chronicle.stepCall, Function.update_of_ne hi] using hy
      exact (hv.placed i y hy').other hi

theorem kept_start (mode : Mode) (backend : Backend) (patience : Duration) :
    (start mode backend patience).Kept where
  fair := Chronicle.fair_start mode backend patience
  grounds i completed h := by simp [start] at h
  placed i y h := by simp [start, system, Chronicle.start, System.start] at h

def withSystem (v : Verdicts) (s : System) : Verdicts :=
  { v with chronicle := { v.chronicle with system := s } }

theorem Grounds.frame {completed : Bool} (hg : v.Grounds i completed) (s : System) :
    (v.withSystem s).Grounds i completed :=
  ⟨hg.deadline, hg.found, hg.passed⟩

theorem Placed.frame {y : Yield} (hp : v.Placed i y) (s : System) :
    (v.withSystem s).Placed i y := by
  cases y with
  | recordHandoff completed => exact ⟨hp.1, hp.2.frame s⟩
  | _ => exact hp

theorem Kept.begin (hv : v.Kept) {k : Ident} {op : Op} (ho : op.isOrdinary = true)
    (hc : v.system.calls k = none) : (v.withSystem (v.system.beginCall k op.call)).Kept := by
  refine ⟨hv.fair.begin ho hc, fun i b hi => (hv.grounds i b hi).frame _, fun i y hy => ?_⟩
  by_cases hi : i = k
  · have hop : op.call = .yield y := by simpa [withSystem, system, hi] using hy
    have hy0 : y = .checkHolder := by
      rcases Op.call_cases ho with h | h | h <;> rw [h] at hop <;> cases hop
      rfl
    subst hy0
    exact placed_of_ne_back (by simp [Yield.stage]) (by simp [Yield.stage])
  · have hy' : v.system.calls i = some (.yield y) := by simpa [withSystem, system, hi] using hy
    exact (hv.placed i y hy').frame _

theorem Kept.act (hv : v.Kept) (a : Action) (ha : a.isOrdinary = true) : (v.act a).Kept := by
  cases a with
  | begin k op =>
    cases hc : v.system.calls k with
    | some c =>
      have hsame : v.act (.begin k op) = v := by
        have hc' : v.chronicle.system.calls k = some c := hc
        simp [Verdicts.act, Chronicle.act, System.act, hc']
      rw [hsame]
      exact hv
    | none =>
      have hnew : v.act (.begin k op) = v.withSystem (v.system.beginCall k op.call) := by
        have hc' : v.chronicle.system.calls k = none := hc
        simp [Verdicts.act, Chronicle.act, System.act, hc', withSystem, system]
      rw [hnew]
      exact hv.begin ha hc
  | step t =>
    cases hc : v.system.calls t.me with
    | none =>
      simp only [Verdicts.act, hc]
      exact hv
    | some c =>
      simp only [Verdicts.act, hc]
      exact hv.stepCall hc
  | rouse k =>
    have hfair := hv.fair.act (.rouse k) rfl
    exact ⟨hfair, fun i b hi => (hv.grounds i b hi).frame _,
      fun i y hy => (hv.placed i y hy).frame _⟩

theorem kept_run (mode : Mode) (backend : Backend) (patience : Duration) (acts : List Action)
    (ha : ∀ a ∈ acts, a.isOrdinary = true) : ((start mode backend patience).run acts).Kept :=
  Run.always (P := Kept) (fun _ a hv ha => hv.act a ha) acts _
    (kept_start mode backend patience) ha

theorem acquire_notes_no_handoff (a : Acquire) (g : Gil) (completed : Bool) :
    (a.step t g).note ≠ some (.handoff completed) := by
  cases a with
  | checkHolder =>
    simp only [Acquire.step]
    split <;> simp
  | tryWord =>
    simp only [Acquire.step]
    split <;> simp
  | retry start ticket =>
    simp only [Acquire.step]
    split <;> simp
  | count route => cases route <;> simp [Acquire.step]
  | record route => cases route <;> simp [Acquire.step]
  | _ => simp [Acquire.step]

/-- The metrics count a handoff or a timeout in the step that passes the verdict. -/
theorem note_handoff_iff (c : Call) (g : Gil) (completed : Bool) :
    (c.step t g).note = some (.handoff completed) ↔ c.verdict? = some completed := by
  cases c with
  | acquire a => exact iff_of_false (acquire_notes_no_handoff a g completed) (by simp [Call.verdict?])
  | release r =>
    have hr : ((Call.release r).step t g).note = none := r.step_note
    simp [hr, Call.verdict?]
  | yield y =>
    cases y with
    | acquire a => exact iff_of_false (acquire_notes_no_handoff a g completed) (by simp [Call.verdict?])
    | release before ticket r =>
      have hr : ((Call.yield (.release before ticket r)).step t g).note = none :=
        r.step_note
      simp [hr, Call.verdict?]
    | recordHandoff b => simp [Call.step, Yield.step, Call.verdict?]
    | record => simp [Call.step, Yield.step, Call.verdict?]
    | readCount => simp [Call.step, Yield.step, Call.verdict?]
    | prepare before => simp [Call.step, Yield.step, Call.verdict?]
    | wait watch w => simp [Call.step, Yield.step, Call.verdict?]
    | renew watch => simp [Call.step, Yield.step, Call.verdict?]
    | _ =>
      simp only [Call.step, Yield.step, Call.verdict?]
      split <;> simp
  | reinit r => cases r <;> simp [Call.step, Reinit.step, Call.verdict?]
  | store word => simp [Call.step, Call.verdict?]

structure Truthful (v : Verdicts) (patience : Duration) : Prop where
  grounds : ∀ i completed, v.verdict i = some completed →
    (completed = false ↔ v.chronicle.expired i = true ∨ v.foundNone i = true)
  passed : ∀ i completed, v.verdict i = some completed → v.chronicle.expired i = false →
    ∃ j ∈ v.chronicle.takers i, j ≠ i
  records : ∀ t c completed, v.system.calls t.me = some c →
    (c.step t v.system.gil).note = some (.handoff completed) →
    v.verdict t.me = none ∧ (v.act (.step t)).verdict t.me = some completed
  returns : ∀ t y b, v.system.calls t.me = some (.yield y) →
    (y.step t v.system.gil).progress = .done b →
    (b = false ∧ y = .lookForWaiters ∧ v.system.gil.waiters = 0) ∨
      (b = true ∧ (v.verdict t.me).isSome = true)
  unwinds : ∀ t y p, v.system.Yields t.me y → (y.step t v.system.gil).progress = .unwound p →
    Overruns t.now patience ∧ v.verdict t.me = none

theorem Kept.records (hv : v.Kept) {completed : Bool} (hc : v.system.calls t.me = some c)
    (hn : (c.step t v.system.gil).note = some (.handoff completed)) :
    v.verdict t.me = none ∧ (v.act (.step t)).verdict t.me = some completed := by
  have hr := (note_handoff_iff c v.system.gil completed).mp hn
  obtain rfl := Call.eq_of_verdict? hr
  refine ⟨(hv.placed t.me _ hc).1, ?_⟩
  simp [Verdicts.act, hc, Verdicts.stepCall, Call.frees, Yield.frees, Call.verdict?,
    (hv.placed t.me _ hc).1]

theorem Kept.returns (hv : v.Kept) {y : Yield} {b : Bool}
    (hc : v.system.calls t.me = some (.yield y))
    (hd : (y.step t v.system.gil).progress = .done b) :
    (b = false ∧ y = .lookForWaiters ∧ v.system.gil.waiters = 0) ∨
      (b = true ∧ (v.verdict t.me).isSome = true) := by
  cases y with
  | lookForWaiters =>
    by_cases hw : v.system.gil.waiters = 0
    · simp only [Yield.step, hw, if_true] at hd
      cases hd
      exact .inl ⟨rfl, rfl, hw⟩
    · simp [Yield.step, hw] at hd
  | acquire a =>
    simp only [Yield.step] at hd
    cases ha : (a.step t v.system.gil).progress <;> rw [ha] at hd <;> cases hd
    exact .inr ⟨rfl, hv.placed t.me _ hc⟩
  | release before ticket r =>
    simp only [Yield.step] at hd
    cases hr : (r.step t v.system.gil).progress <;> rw [hr] at hd <;> cases hd
  | wait watch w =>
    simp only [Yield.step] at hd
    cases hw : (w.step t v.system.gil.handoff).2 <;> rw [hw] at hd <;> cases hd
  | record => cases hd
  | readCount => cases hd
  | prepare before => cases hd
  | renew watch => cases hd
  | recordHandoff completed => cases hd
  | _ =>
    simp only [Yield.step] at hd
    split at hd <;> cases hd

theorem Kept.unwinds (hv : v.Kept) {y : Yield} {p : Panic} (hy : v.system.Yields t.me y)
    (hp : (y.step t v.system.gil).progress = .unwound p) :
    Overruns t.now v.system.gil.patience ∧ v.verdict t.me = none := by
  obtain ⟨-, ⟨before, ticket, rfl⟩, ho⟩ := (hv.fair.orderly.yield_unwinds_iff hy p).mp hp
  exact ⟨ho, (hv.open_of_away hy.1 rfl).1⟩

theorem Kept.truthful (hv : v.Kept) : v.Truthful v.system.gil.patience where
  grounds i completed hi := by
    obtain ⟨hd, hf, -⟩ := hv.grounds i completed hi
    rw [hd]
    cases completed with
    | true => simp [hf rfl]
    | false => cases v.foundNone i <;> simp
  passed i completed hi := (hv.grounds i completed hi).passed
  records t c completed hc hn := hv.records hc hn
  returns t y b hc hd := hv.returns hc hd
  unwinds t y p hy hp := hv.unwinds hy hp

/-- Any number of threads, in any interleaving of their steps. -/
theorem truthful_run (mode : Mode) (backend : Backend) (patience : Duration) (acts : List Action)
    (ha : ∀ a ∈ acts, a.isOrdinary = true) :
    ((start mode backend patience).run acts).Truthful patience := by
  have h := (kept_run mode backend patience acts ha).truthful
  have hp : ((start mode backend patience).run acts).system.gil.patience = patience := by
    rw [system, run_chronicle, Chronicle.run_system]
    exact System.run_patience mode backend patience acts
  rw [hp] at h
  exact h

/-- A waiter takes the word and counts its acquisition before the holder looks. -/
theorem truthful_run_counted :
    let a : Ident := ⟨1, by decide⟩
    let b : Ident := ⟨2, by decide⟩
    let steps i n : List Action := List.replicate n (.step { me := i, now := ⟨0⟩ })
    let acts := .begin a .acquire :: steps a 5 ++ .begin b .acquire :: steps b 5 ++
      .begin a .yield :: steps a 11 ++ steps b 4 ++ steps a 2
    let v := (start .generic .posix defaultPatience).run acts
    (∀ act ∈ acts, act.isOrdinary = true) ∧ v.Truthful defaultPatience ∧
      v.verdict a = some true ∧ v.chronicle.takers a = [b] :=
  ⟨by decide, truthful_run _ _ _ _ (by decide), by decide, by decide⟩

/-- With the longest patience the holder gives the lock up to a waiter and unwinds with nothing
recorded. With the default patience, and no time gone by, it looks when the waiter has taken the
word and struck itself off, and has not counted its acquisition: it records a timeout. -/
theorem unrecorded_or_timed_out_early :
    let a : Ident := ⟨1, by decide⟩
    let b : Ident := ⟨2, by decide⟩
    let steps i n : List Action := List.replicate n (.step { me := i, now := ⟨0⟩ })
    let waited n := .begin a .acquire :: steps a 5 ++ .begin b .acquire :: steps b n ++
      .begin a .yield :: steps a 11
    let v := (start .generic .posix (.ofParts 18446744073709551615 0)).run (waited 4)
    let v' := (start .generic .posix defaultPatience).run (waited 5 ++ steps b 2 ++ steps a 3)
    (v.system.calls a = none ∧ v.system.gil.isHeldBy a = false ∧
      v.system.metrics.gil.yields = 1 ∧ v.system.gil.waiters = 1 ∧
      v.system.metrics.gil.handoffs = 0 ∧ v.system.metrics.gil.handoffTimeouts = 0) ∧
    (v'.verdict a = some false ∧ v'.chronicle.expired a = false ∧ v'.chronicle.takers a = [b] ∧
      v'.system.metrics.gil.handoffTimeouts = 1) :=
  ⟨by decide, by decide⟩

end Verdicts

end InterpreterLock.Gil
