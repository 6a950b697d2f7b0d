import InterpreterLock.Proofs.Gil.Custody
import InterpreterLock.Proofs.Gil.Leftover

/-!
# The two encodings of the lock word

The modes agree on which of the words zero and one is free, and neither is corrupt in any mode. As
long as nobody stores another word the lock itself writes no other. So a run may change its mode at
any point, and all that comes of it is the name that violations give.
-/

set_option autoImplicit false

namespace InterpreterLock

def IsBit (w : Int) : Prop := w = 0 ∨ w = 1

instance (w : Int) : Decidable (IsBit w) := inferInstanceAs (Decidable (w = 0 ∨ w = 1))

namespace Mode

variable {w : Int}

theorem isValid_of_isBit (h : IsBit w) (m : Mode) : m.isValid w = true := by
  rcases h with rfl | rfl
  · exact m.isValid_freeWord
  · exact m.isValid_lockedWord

theorem isLocked_of_isBit (h : IsBit w) (m m' : Mode) : m.isLocked w = m'.isLocked w := by
  rcases h with rfl | rfl
  · rw [show (0 : Int) = freeWord from rfl, isLocked_freeWord, isLocked_freeWord]
  · exact (m.isLocked_lockedWord).trans (m'.isLocked_lockedWord).symm

end Mode

def Violation.inMode (m : Mode) : Violation → Violation
  | .corruptWord word _ => .corruptWord word m
  | .releasedFree word _ => .releasedFree word m
  | v => v

def Panic.inMode (m : Mode) : Panic → Panic
  | .violation v => .violation (v.inMode m)
  | p => p

namespace Progress

variable {σ τ α β : Type}

def inMode (m : Mode) : Progress σ α → Progress σ α
  | .unwound p => .unwound (p.inMode m)
  | p => p

theorem within_inMode (m : Mode) (p : Progress σ α) (inside : σ → τ) (after : α → Progress τ β)
    (ha : ∀ a, (after a).inMode m = after a) :
    (p.inMode m).within inside after = (p.within inside after).inMode m := by
  cases p with
  | done a => exact (ha a).symm
  | _ => rfl

theorem next?_inMode (m : Mode) (p : Progress σ α) : (p.inMode m).next? = p.next? := by
  cases p <;> rfl

theorem result?_inMode (m : Mode) (p : Progress σ α) :
    (p.inMode m).result? = p.result?.map (Except.mapError (Panic.inMode m)) := by
  cases p <;> rfl

end Progress

namespace Gil

def inMode (m : Mode) (g : Gil) : Gil := { g with mode := m }

def moveInMode {σ α : Type} (m : Mode) (v : Move Gil σ α) : Move Gil σ α :=
  ⟨v.state.inMode m, v.progress.inMode m, v.note⟩

variable {t : Turn} {g : Gil} (m : Mode)

theorem tryLock_inMode (hw : IsBit g.word) :
    (g.inMode m).tryLock = g.tryLock.map (Option.map (inMode m)) := by
  have hv := g.mode.isValid_of_isBit hw
  have hv' := m.isValid_of_isBit hw
  by_cases hf : g.word = Mode.freeWord
  · rw [tryLock_of_free g hf, tryLock_of_free (g.inMode m) hf]
    rfl
  · rw [(tryLock_eq_none_iff g).mpr ⟨hf, hv⟩, (tryLock_eq_none_iff (g.inMode m)).mpr ⟨hf, hv'⟩]
    rfl

section

variable {σ τ α β : Type}

theorem moveInMode_ite {c : Prop} [Decidable c] (a b : Move Gil σ α) :
    moveInMode m (if c then a else b) = if c then moveInMode m a else moveInMode m b :=
  apply_ite (moveInMode m) c a b

/-- A call that runs inside another one, in another mode. -/
theorem moveInMode_within {v v' : Move Gil σ α} (h : v' = moveInMode m v) (inside : σ → τ)
    (after : α → Progress τ β) (ha : ∀ a, (after a).inMode m = after a) :
    (⟨v'.state, v'.progress.within inside after, v'.note⟩ : Move Gil τ β) =
      moveInMode m ⟨v.state, v.progress.within inside after, v.note⟩ := by
  rw [h]
  simp only [moveInMode, Progress.within_inMode m _ inside after ha]

/-- A wait never unwinds, so there is nothing in it to change. -/
theorem wait_inMode (t : Turn) (e : Event) (w : Wait) (inside : Wait → τ)
    (after : WaitOutcome → Progress τ β) (ha : ∀ o, (after o).inMode m = after o) :
    ((w.step t e).2.within inside after).inMode m = (w.step t e).2.within inside after := by
  have h : (w.step t e).2.Meets (fun _ => True) (fun _ => True) fun _ => False :=
    Parking.wait_meets t e w (fun _ => trivial) fun _ => trivial
  cases hp : (w.step t e).2 with
  | going w' => rfl
  | done o => exact ha o
  | unwound p =>
    rw [hp] at h
    exact h.elim

end

theorem Acquire.step_inMode (hw : IsBit g.word) (a : Acquire) :
    a.step t (g.inMode m) = moveInMode m (a.step t g) := by
  cases a with
  | checkHolder =>
    simp only [step, moveInMode_ite]
    rfl
  | tryWord =>
    simp only [step, tryLock_inMode m hw]
    rcases tryLock_cases (g.mode.isValid_of_isBit hw) with ⟨-, h⟩ | ⟨-, h⟩
    · rw [h]
      rfl
    · rw [h]
      rfl
  | retry start ticket =>
    simp only [step, tryLock_inMode m hw]
    rcases tryLock_cases (g.mode.isValid_of_isBit hw) with ⟨-, h⟩ | ⟨-, h⟩
    · rw [h]
      rfl
    · rw [h]
      rfl
  | wait start w =>
    simp only [step, moveInMode]
    rw [wait_inMode m t g.wakeup w _ _ fun _ => rfl]
    rfl
  | count route => cases route <;> rfl
  | record route => cases route <;> rfl
  | _ => rfl

theorem Release.step_inMode (hw : IsBit g.word) (r : Release) :
    r.step t (g.inMode m) = moveInMode m (r.step t g) := by
  cases r with
  | checkHolder =>
    simp only [step, moveInMode_ite]
    rfl
  | clearWord =>
    have hl : (g.inMode m).isLocked = g.isLocked := Mode.isLocked_of_isBit hw m g.mode
    simp only [step, hl, moveInMode_ite]
    rfl
  | lookForWaiters =>
    simp only [step, moveInMode_ite]
    rfl
  | clearHolder => rfl
  | signal => rfl

theorem Yield.step_inMode (hw : IsBit g.word) (y : Yield) :
    y.step t (g.inMode m) = moveInMode m (y.step t g) := by
  cases y with
  | release before ticket r =>
    exact moveInMode_within m (r.step_inMode m hw) _ _ fun _ => rfl
  | acquire a => exact moveInMode_within m (a.step_inMode m hw) _ _ fun _ => rfl
  | setDeadline before ticket =>
    have hp : (g.inMode m).patience = g.patience := rfl
    simp only [step, hp]
    cases t.now.add? g.patience <;> rfl
  | wait watch w =>
    simp only [step, moveInMode]
    rw [wait_inMode m t g.handoff w _ _ fun _ => rfl]
    rfl
  | record => rfl
  | readCount => rfl
  | prepare before => rfl
  | renew watch => rfl
  | recordHandoff completed => rfl
  | _ =>
    simp only [step, moveInMode_ite]
    rfl

/-- A step of a lock in another mode is the same step, as long as the word is zero or one. -/
theorem Call.step_inMode (hw : IsBit g.word) (c : Call) :
    c.step t (g.inMode m) = moveInMode m (c.step t g) := by
  cases c with
  | acquire a => exact moveInMode_within m (a.step_inMode m hw) _ _ fun _ => rfl
  | release r => exact moveInMode_within m (r.step_inMode m hw) _ _ fun _ => rfl
  | yield y => exact moveInMode_within m (y.step_inMode m hw) _ _ fun _ => rfl
  | reinit r =>
    have hr : r.step t (g.inMode m) = moveInMode m (r.step t g) := by cases r <;> rfl
    exact moveInMode_within m hr _ _ fun _ => rfl
  | store word => rfl

theorem isBit_of_tryLock {g' : Gil} (h : g.tryLock = .ok (some g')) : IsBit g'.word := by
  rw [eq_of_tryLock h]
  exact .inr rfl

theorem Acquire.step_isBit (hw : IsBit g.word) (a : Acquire) : IsBit (a.step t g).state.word := by
  cases a with
  | checkHolder =>
    simp only [step]
    split <;> exact hw
  | tryWord =>
    simp only [step]
    split
    · exact isBit_of_tryLock ‹_›
    · exact hw
    · exact hw
  | retry start ticket =>
    simp only [step]
    split
    · exact isBit_of_tryLock ‹_›
    · exact hw
    · exact hw
  | count route => cases route <;> exact hw
  | record route => cases route <;> exact hw
  | _ => exact hw

theorem Release.step_isBit (hw : IsBit g.word) (r : Release) : IsBit (r.step t g).state.word := by
  cases r with
  | checkHolder =>
    simp only [step]
    split <;> exact hw
  | clearWord =>
    simp only [step]
    split <;> exact .inl rfl
  | lookForWaiters =>
    simp only [step]
    split <;> exact hw
  | clearHolder => exact hw
  | signal => exact hw

theorem Yield.step_isBit (hw : IsBit g.word) (y : Yield) : IsBit (y.step t g).state.word := by
  cases y with
  | release before ticket r => exact r.step_isBit hw
  | acquire a => exact a.step_isBit hw
  | record => exact hw
  | readCount => exact hw
  | prepare before => exact hw
  | wait watch w => exact hw
  | renew watch => exact hw
  | recordHandoff completed => exact hw
  | _ =>
    simp only [step]
    split <;> exact hw

theorem Call.step_isBit (hw : IsBit g.word) (c : Call) (hs : ∀ w, c = .store w → IsBit w) :
    IsBit (c.step t g).state.word := by
  cases c with
  | acquire a => exact a.step_isBit hw
  | release r => exact r.step_isBit hw
  | yield y => exact y.step_isBit hw
  | reinit r =>
    cases r with
    | clearWaiters => exact hw
    | lockWord => exact .inr rfl
    | setHolder => exact hw
  | store word => exact hs word rfl

def Action.storesBit : Action → Bool
  | .begin _ (.store word) => IsBit word
  | _ => true

namespace System

def inMode (m : Mode) (s : System) : System := { s with gil := s.gil.inMode m }

structure OnBits (s : System) : Prop where
  word : IsBit s.gil.word
  stores : ∀ i w, s.calls i = some (.store w) → IsBit w

variable {s : System} {c : Call}

theorem takes_inMode (c : Call) : c.takes (g.inMode m) = c.takes g := by
  cases c with
  | acquire a => cases a <;> rfl
  | yield y =>
    cases y with
    | acquire a => cases a <;> rfl
    | _ => rfl
  | _ => rfl

theorem stepCall_inMode (hs : s.OnBits) (t : Turn) (c : Call) :
    (s.inMode m).stepCall t c = (s.stepCall t c).inMode m := by
  have hm : c.step t (s.gil.inMode m) = moveInMode m (c.step t s.gil) := c.step_inMode m hs.word
  simp only [stepCall, inMode, hm, moveInMode, Progress.next?_inMode, takes_inMode]
  rfl

theorem OnBits.stepCall (hs : s.OnBits) (hc : s.calls t.me = some c) : (s.stepCall t c).OnBits where
  word := c.step_isBit hs.word fun w hw => hs.stores t.me w (hw ▸ hc)
  stores i w hi := by
    by_cases him : i = t.me
    · subst him
      rw [stepCall_calls, Function.update_self] at hi
      have hord := Call.isOrdinary_of_next? c hi
      cases c with
      | store word => cases hi
      | reinit r =>
        simp only [Call.step] at hi
        cases hp : (r.step t s.gil).progress <;> rw [hp] at hi <;> cases hi
      | _ => cases hord
    · rw [stepCall_calls, Function.update_of_ne him] at hi
      exact hs.stores i w hi

theorem OnBits.act (hs : s.OnBits) (a : Action) (ha : a.storesBit = true) : (s.act a).OnBits := by
  cases a with
  | begin i op =>
    cases hc : s.calls i with
    | some c =>
      simp only [System.act, hc]
      exact hs
    | none =>
      simp only [System.act, hc]
      refine ⟨hs.word, fun k w hk => ?_⟩
      by_cases hki : k = i
      · subst hki
        rw [beginCall_calls, Function.update_self, Option.some_inj] at hk
        cases op with
        | store word =>
          cases hk
          simpa [Action.storesBit] using ha
        | _ => cases hk
      · rw [beginCall_calls, Function.update_of_ne hki] at hk
        exact hs.stores k w hk
  | step t =>
    cases hc : s.calls t.me with
    | none =>
      simp only [System.act, hc]
      exact hs
    | some c =>
      simp only [System.act, hc]
      exact hs.stepCall hc
  | rouse i => exact ⟨hs.word, hs.stores⟩

theorem act_inMode (hs : s.OnBits) (a : Action) : (s.inMode m).act a = (s.act a).inMode m := by
  cases a with
  | begin i op =>
    cases hc : s.calls i <;> simp [System.act, inMode, hc, beginCall]
  | step t =>
    cases hc : s.calls t.me with
    | none => simp [System.act, inMode, hc]
    | some c =>
      have hc' : (s.inMode m).calls t.me = some c := hc
      simp only [System.act, hc, hc']
      exact stepCall_inMode m hs t c
  | rouse i => rfl

theorem answer?_inMode (hs : s.OnBits) (a : Action) :
    (s.inMode m).answer? a = (s.answer? a).map (Except.mapError (Panic.inMode m)) := by
  cases a with
  | step t =>
    have hcalls : (s.inMode m).calls t.me = s.calls t.me := rfl
    simp only [answer?, hcalls]
    cases hc : s.calls t.me with
    | none => rfl
    | some c =>
      have hm : c.step t (s.inMode m).gil = moveInMode m (c.step t s.gil) :=
        c.step_inMode m hs.word
      simp only [Option.bind_some, hm, moveInMode, Progress.result?_inMode]
  | _ => rfl

def answers (s : System) : List Action → List (Option (Except Panic Bool))
  | [] => []
  | a :: rest => s.answer? a :: (s.act a).answers rest

theorem run_inMode (hs : s.OnBits) (acts : List Action) (ha : ∀ a ∈ acts, a.storesBit = true) :
    (s.inMode m).run acts = (s.run acts).inMode m ∧
      (s.inMode m).answers acts =
        (s.answers acts).map (Option.map (Except.mapError (Panic.inMode m))) := by
  induction acts generalizing s with
  | nil => exact ⟨rfl, rfl⟩
  | cons a rest ih =>
    have hnext := ih (hs.act a (ha a (by simp))) fun b hb => ha b (by simp [hb])
    rw [← act_inMode m hs a] at hnext
    refine ⟨hnext.1, ?_⟩
    rw [answers, answers, hnext.2, answer?_inMode m hs a]
    rfl

/-- A run that goes through the states of another one, at a lock of this mode, and in which the
calls have the same results, up to the mode that violations name. -/
structure Mirrors (mode : Mode) (acts : List Action) (s s' : System) : Prop where
  states : ∀ early, early <+: acts → s'.run early = (s.run early).inMode mode
  answers :
    s'.answers acts = (s.answers acts).map (Option.map (Except.mapError (Panic.inMode mode)))
  words : ∀ early, early <+: acts → (s'.run early).gil.word = 0 ∨ (s'.run early).gil.word = 1

theorem OnBits.mirrors (hs : s.OnBits) (acts : List Action)
    (ha : ∀ a ∈ acts, a.storesBit = true) : Mirrors m acts s (s.inMode m) where
  states early he := (run_inMode m hs early fun a hm => ha a (he.subset hm)).1
  answers := (run_inMode m hs acts ha).2
  words early he := by
    have hea : ∀ a ∈ early, a.storesBit = true := fun a hm => ha a (he.subset hm)
    have hb : (s.run early).OnBits :=
      Run.always (P := OnBits) (fun _ a h h' => h.act a h') early s hs hea
    rw [(run_inMode m hs early hea).1]
    exact hb.word

/-- Whatever the threads do but store another word than zero or one, a constrained lock does what a
generic one does. -/
theorem modes_mirror (backend : Backend) (patience : Duration) (acts : List Action)
    (ha : ∀ a ∈ acts, a.storesBit = true) :
    Mirrors .constrained acts (start .generic backend patience)
      (start .constrained backend patience) :=
  OnBits.mirrors .constrained ⟨.inl rfl, fun _ _ h => by cases h⟩ acts ha

/-- The word of a holder is overwritten with zero, and its release finds that. -/
theorem modes_mirror_overwritten :
    let a : Ident := ⟨1, by decide⟩
    let b : Ident := ⟨2, by decide⟩
    let turn i : Action := .step { me := i, now := ⟨0⟩ }
    let early := .begin a .acquire :: List.replicate 5 (turn a) ++
      .begin b (.store 0) :: turn b :: .begin a .release :: List.replicate 2 (turn a)
    let acts := early ++ turn a :: .begin b .reinit :: List.replicate 3 (turn b)
    let s := start .generic .posix defaultPatience
    let s' := start .constrained .posix defaultPatience
    (∀ act ∈ acts, act.storesBit = true) ∧ Mirrors .constrained acts s s' ∧
      (s.run early).answer? (turn a) = some (.error (.violation (.releasedFree 0 .generic))) ∧
      (s'.run early).answer? (turn a) =
        some (.error (.violation (.releasedFree 0 .constrained))) ∧
      (s'.run acts).gil.word = 1 :=
  ⟨by decide, modes_mirror _ _ _ (by decide), rfl, rfl, by decide⟩

end System

end Gil

end InterpreterLock
