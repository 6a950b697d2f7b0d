import InterpreterLock.Proofs.Interpreter.System

/-!
# Custody of the lock of an interpreter

Between forks the threads of an interpreter are threads at its lock, so whoever has taken the word
has the lock, and the word and the holder on record show it. A fork breaks that: the lock may belong
to a thread that is gone. Until the forked thread is on record as the holder it is the only thread
there is, and then the lock is in order again.
-/

set_option autoImplicit false

namespace InterpreterLock

theorem Gil.System.Orderly.congr {s s' : Gil.System} (hs : s.Orderly) (hg : s'.gil = s.gil)
    (hc : s'.calls = s.calls) (hi : s'.inside = s.inside) : s'.Orderly := by
  have hh : s'.hold = s.hold := by
    ext i
    simp [Gil.System.hold, hc, hi]
  constructor
  · rw [hc]
    exact hs.ordinary
  · rw [hi, hh]
    exact hs.inside
  · rw [hg, hh]
    exact hs.custody

namespace Interpreter

namespace Call

variable {t : Turn} {s : Interpreter} {c : Call}

theorem step_atLock {l : Gil.Call} (hc : c.atLock? = some l) :
    (c.step t s).1.gil = (l.step t s.gil).state ∧
      (c.step t s).2.next?.bind atLock? = (l.step t s.gil).progress.next? := by
  cases c with
  | acquire a =>
    cases hc
    refine ⟨rfl, ?_⟩
    simp only [step, onGil, Gil.Call.step]
    cases (a.step t s.gil).progress <;> rfl
  | release r =>
    cases hc
    refine ⟨rfl, ?_⟩
    simp only [step, onGil, Gil.Call.step]
    cases (r.step t s.gil).progress <;> rfl
  | yield y =>
    cases hc
    refine ⟨rfl, ?_⟩
    simp only [step, onGil, Gil.Call.step]
    cases (y.step t s.gil).progress with
    | done ran => cases ran <;> rfl
    | _ => rfl
  | enter r =>
    cases hc
    refine ⟨rfl, ?_⟩
    simp only [step, onGil, Gil.Call.step]
    cases (r.step t s.gil).progress <;> rfl
  | leave a =>
    cases hc
    refine ⟨rfl, ?_⟩
    simp only [step, onGil, Gil.Call.step]
    cases (a.step t s.gil).progress <;> rfl
  | _ => cases hc

theorem obtains_atLock {l : Gil.Call} (hc : c.atLock? = some l) :
    c.obtains s.gil = l.takes s.gil ∧ c.frees = l.frees := by
  cases c <;> cases hc <;> exact ⟨rfl, rfl⟩

def isReinit : Call → Bool
  | .reinit _ => true
  | _ => false

theorem step_apart (hc : c.atLock? = none) (hr : c.isReinit = false) :
    (c.step t s).1.gil = s.gil ∧ (c.step t s).2.next?.bind atLock? = none ∧
      c.obtains s.gil = false ∧ c.frees = false := by
  cases c with
  | announceFork => exact ⟨rfl, rfl, rfl, rfl⟩
  | forgetThreads => exact ⟨rfl, rfl, rfl, rfl⟩
  | report ending => cases ending <;> exact ⟨rfl, rfl, rfl, rfl⟩
  | beforeFork => exact ⟨rfl, rfl, rfl, rfl⟩
  | reinit r => cases hr
  | _ => cases hc

theorem step_notReinit (hr : c.isReinit = false) :
    (c.step t s).2.Meets (fun c' => c'.isReinit = false) (fun _ => True) (fun _ => True) := by
  cases c with
  | acquire a =>
    simp only [step, onGil]
    cases (a.step t s.gil).progress <;> trivial
  | release r =>
    simp only [step, onGil]
    cases (r.step t s.gil).progress <;> trivial
  | yield y =>
    simp only [step, onGil]
    cases (y.step t s.gil).progress with
    | done ran => cases ran <;> trivial
    | _ => trivial
  | enter r =>
    simp only [step, onGil]
    cases (r.step t s.gil).progress <;> trivial
  | leave a =>
    simp only [step, onGil]
    cases (a.step t s.gil).progress <;> trivial
  | reinit r => cases hr
  | announceFork => rfl
  | forgetThreads => rfl
  | report ending => cases ending <;> trivial
  | beforeFork => trivial

end Call

namespace System

def atLock (s : System) : Gil.System where
  gil := s.interpreter.gil
  calls i := if s.gone i then none else (s.calls i).bind Call.atLock?
  inside := s.inside

structure Settled (s : System) : Prop where
  lock : s.atLock.Orderly
  calm : ∀ i c, s.gone i = false → s.calls i = some c → c.isReinit = false

structure Forked (s : System) (i : Ident) (r : Gil.Reinit) : Prop where
  call : s.calls i = some (.reinit r)
  here : s.gone i = false
  alone : ∀ j, j ≠ i → s.gone j = true
  outside : ∀ j, j ≠ i → s.inside j = false
  word : r = .setHolder → s.interpreter.gil.word = 1

def Sound (s : System) : Prop := s.Settled ∨ ∃ i r, s.Forked i r

variable {s : System} {t : Turn} {c : Call} {i : Ident}

theorem isIdle_iff : s.isIdle i = true ↔ s.gone i = false ∧ s.calls i = none := by
  simp [isIdle]

theorem atLock_calls_update (hg : s.gone i = false) (next : Option Call) :
    (fun j => if s.gone j then none else (Function.update s.calls i next j).bind Call.atLock?) =
      Function.update s.atLock.calls i (next.bind Call.atLock?) := by
  ext1 j
  by_cases hj : j = i
  · subst hj
    simp [hg]
  · simp [atLock, hj]

theorem settled_start (r : Interpreter)
    (hr : ∃ mode backend patience, r.gil = .new mode backend patience) : (start r).Settled := by
  obtain ⟨mode, backend, patience, hg⟩ := hr
  refine ⟨(Gil.System.orderly_start mode backend patience).congr hg ?_ rfl, ?_⟩
  · ext1 i
    rfl
  · intro i c _ hc
    simp [start] at hc

theorem Settled.shows (hs : s.Settled) (hc : s.calls i = some c) (hg : s.gone i = false)
    {l : Gil.Call} (hl : c.atLock? = some l) :
    Gil.Shows s.interpreter.gil i (l.hold (s.inside i)) ∧
      (s.inside i = true ↔ l.hold (s.inside i) ≠ .out) := by
  have hcall : s.atLock.calls i = some l := by simp [atLock, hg, hc, hl]
  have hh : s.atLock.hold i = l.hold (s.inside i) := Gil.System.hold_of_call hcall
  rw [← hh]
  exact ⟨hs.lock.custody.shows i, hs.lock.inside i⟩

theorem Settled.begin (hs : s.Settled) (hi : s.isIdle i = true) {op : Op} (ho : op ≠ .afterFork) :
    (s.beginCall i op.call).Settled := by
  obtain ⟨hg, hc⟩ := isIdle_iff.mp hi
  have hcall : s.atLock.calls i = none := by simp [atLock, hc]
  constructor
  · have at' : (s.beginCall i op.call).atLock.calls =
        Function.update s.atLock.calls i op.call.atLock? :=
      atLock_calls_update hg (some op.call)
    have order (o : Gil.Op) (ho : o.isOrdinary = true) :
        (s.atLock.beginCall i o.call).Orderly := hs.lock.begin ho hcall
    cases op with
    | acquire => exact (order .acquire rfl).congr rfl at' rfl
    | release => exact (order .release rfl).congr rfl at' rfl
    | yield => exact (order .yield rfl).congr rfl at' rfl
    | enter => exact (order .enter rfl).congr rfl at' rfl
    | leave => exact (order .leave rfl).congr rfl at' rfl
    | beforeFork =>
      refine hs.lock.congr rfl (at'.trans ?_) rfl
      exact Function.update_eq_self_iff.mpr hcall.symm
    | afterFork => exact absurd rfl ho
  · intro j c' hj hc'
    by_cases hji : j = i
    · subst hji
      simp only [beginCall, Function.update_self, Option.some_inj] at hc'
      subst hc'
      cases op <;> first | rfl | exact absurd rfl ho
    · simp only [beginCall, Function.update_of_ne hji] at hc'
      exact hs.calm j c' hj hc'

theorem Settled.stepCall (hs : s.Settled) (hc : s.calls t.me = some c)
    (hg : s.gone t.me = false) : (s.stepCall t c).Settled := by
  have hr : c.isReinit = false := hs.calm t.me c hg hc
  have at' : (s.stepCall t c).atLock.calls =
      Function.update s.atLock.calls t.me ((c.step t s.interpreter).2.next?.bind Call.atLock?) :=
    atLock_calls_update hg _
  constructor
  · cases hl : c.atLock? with
    | some l =>
      have hcall : s.atLock.calls t.me = some l := by simp [atLock, hg, hc, hl]
      obtain ⟨hgil, hnext⟩ := Call.step_atLock (t := t) (s := s.interpreter) hl
      obtain ⟨hobt, hfree⟩ := Call.obtains_atLock (s := s.interpreter) hl
      refine (hs.lock.stepCall hcall).congr hgil ?_ ?_
      · rw [at', hnext]
        rfl
      · simp only [atLock, System.stepCall, Gil.System.stepCall_inside, hobt, hfree]
    | none =>
      obtain ⟨hgil, hnext, hobt, hfree⟩ := Call.step_apart (t := t) (s := s.interpreter) hl hr
      have hcall : s.atLock.calls t.me = none := by simp [atLock, hc, hl]
      refine hs.lock.congr hgil ?_ ?_
      · rw [at', hnext]
        exact Function.update_eq_self_iff.mpr hcall.symm
      · simp [atLock, System.stepCall, hobt, hfree]
  · intro j c' hj hc'
    by_cases hji : j = t.me
    · subst hji
      simp only [System.stepCall, Function.update_self] at hc'
      exact (Call.step_notReinit hr).of_next? hc'
    · simp only [System.stepCall, Function.update_of_ne hji] at hc'
      exact hs.calm j c' hj hc'

theorem Settled.arrive (hs : s.Settled) (hc : s.calls i = none) :
    { s with gone := Function.update s.gone i false }.Settled := by
  constructor
  · refine hs.lock.congr rfl ?_ rfl
    ext1 j
    by_cases hj : j = i
    · subst hj
      simp [atLock, hc]
    · simp [atLock, hj]
  · intro j c' hj hc'
    by_cases hji : j = i
    · subst hji
      rw [hc] at hc'
      cases hc'
    · simp only [Function.update_of_ne hji] at hj
      exact hs.calm j c' hj hc'

theorem forked_forkTo : (s.forkTo i).Forked i .clearWaiters where
  call := by simp [forkTo, Call.toAfterFork]
  here := by simp [forkTo]
  alone j hj := by simp [forkTo, hj]
  outside j hj := by simp [forkTo, hj]
  word := nofun

/-- Nobody but the forked thread can do anything. -/
theorem Forked.busy {r : Gil.Reinit} (hf : s.Forked i r) (j : Ident) : s.isIdle j = false := by
  by_cases hj : j = i
  · subst hj
    simp [isIdle, hf.call]
  · simp [isIdle, hf.alone j hj]

theorem Forked.stepCall {r : Gil.Reinit} (hf : s.Forked t.me r) :
    (s.stepCall t (.reinit r)).Sound := by
  have stay : ∀ r', (s.stepCall t (.reinit r)).calls t.me = some (.reinit r') →
      (r' = .setHolder → (s.stepCall t (.reinit r)).interpreter.gil.word = 1) →
      (s.stepCall t (.reinit r)).Sound := by
    intro r' hc hw
    refine .inr ⟨t.me, r', hc, hf.here, hf.alone, fun j hj => ?_, hw⟩
    simp only [System.stepCall, Function.update_of_ne hj]
    exact hf.outside j hj
  cases r with
  | clearWaiters => exact stay .lockWord (by simp [System.stepCall]; rfl) nofun
  | lockWord =>
    exact stay .setHolder (by simp [System.stepCall]; rfl) fun _ => rfl
  | setHolder =>
    left
    have hcalls : (s.stepCall t (.reinit .setHolder)).atLock.calls = fun _ => none := by
      ext1 j
      by_cases hj : j = t.me
      · subst hj
        simp only [atLock, System.stepCall, hf.here, Function.update_self]
        rfl
      · simp [atLock, System.stepCall, hf.alone j hj]
    have hinside : (s.stepCall t (.reinit .setHolder)).atLock.inside =
        Function.update (fun _ => false) t.me true := by
      ext1 j
      by_cases hj : j = t.me
      · subst hj
        simp [atLock, System.stepCall, Call.obtains]
      · simp [atLock, System.stepCall, hj, hf.outside j hj]
    have hhold : (s.stepCall t (.reinit .setHolder)).atLock.hold =
        Gil.alone t.me .recorded := by
      ext1 j
      by_cases hj : j = t.me
      · subst hj
        simp [Gil.System.hold, hcalls, hinside, Gil.Hold.ofInside]
      · simp [Gil.System.hold, hcalls, hinside, hj, Gil.alone_of_ne, Gil.Hold.ofInside]
    refine ⟨⟨fun j c' hj => ?_, fun j => ?_, ?_⟩, fun j c' hj hc' => ?_⟩
    · rw [hcalls] at hj
      cases hj
    · rw [hhold, hinside]
      by_cases hj : j = t.me
      · subst hj
        simp
      · simp [hj, Gil.alone_of_ne]
    · rw [hhold]
      exact .recorded t.me (hf.word rfl) rfl
    · by_cases hji : j = t.me
      · subst hji
        simp only [System.stepCall, Function.update_self] at hc'
        cases hc'
        rfl
      · have hgone : s.gone j = false := hj
        rw [hf.alone j hji] at hgone
        cases hgone

theorem Settled.rouse (hs : s.Settled) : (s.rouse i).Settled := by
  refine ⟨⟨hs.lock.ordinary, hs.lock.inside, ?_⟩, hs.calm⟩
  exact hs.lock.custody.frame rfl rfl

theorem Sound.act (hs : s.Sound) (a : Action) (ha : a.isLawful = true) : (s.act a).Sound := by
  rcases hs with hs | ⟨k, r, hf⟩
  · cases a with
    | begin i op =>
      cases hi : s.isIdle i with
      | false =>
        simp only [System.act, hi]
        exact .inl hs
      | true =>
        simp only [System.act, hi, if_true]
        exact .inl (hs.begin hi (by rintro rfl; cases ha))
    | step t =>
      cases hc : s.calls t.me with
      | none =>
        simp only [System.act, hc]
        exact .inl hs
      | some c =>
        cases hg : s.gone t.me with
        | true =>
          simp only [System.act, hc, hg, if_true]
          exact .inl hs
        | false =>
          simp only [System.act, hc, hg]
          exact .inl (hs.stepCall hc hg)
    | rouse i => exact .inl hs.rouse
    | fork i =>
      cases hi : s.isIdle i with
      | false =>
        simp only [System.act, hi]
        exact .inl hs
      | true =>
        simp only [System.act, hi, if_true]
        exact .inr ⟨i, .clearWaiters, forked_forkTo⟩
    | arrive parent child =>
      simp only [System.act]
      split
      · rename_i h
        simp only [Bool.and_eq_true, Option.isNone_iff_eq_none] at h
        exact .inl (hs.arrive h.2)
      · exact .inl hs
  · cases a with
    | begin i op =>
      simp only [System.act, hf.busy i]
      exact .inr ⟨k, r, hf⟩
    | step t =>
      by_cases ht : t.me = k
      · subst ht
        simp only [System.act, hf.call, hf.here]
        exact hf.stepCall
      · simp only [System.act, hf.alone t.me ht, if_true]
        cases s.calls t.me <;> exact .inr ⟨k, r, hf⟩
    | rouse i => exact .inr ⟨k, r, hf.call, hf.here, hf.alone, hf.outside, hf.word⟩
    | fork i =>
      simp only [System.act, hf.busy i]
      exact .inr ⟨k, r, hf⟩
    | arrive parent child =>
      simp only [System.act, hf.busy parent, Bool.false_and]
      exact .inr ⟨k, r, hf⟩

end System

end Interpreter

end InterpreterLock
