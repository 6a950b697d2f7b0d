import InterpreterLock.Proofs.Gil.Entries

/-!
# The count of waiters

A thread on the contended path raises the count of waiters when it enlists and lowers it when it has
taken the word. Two things come in between. A violation unwinds a thread out of its attempt and
leaves its entry behind. And the count may be set back while a thread is enlisted, which then
strikes off an entry that is not its own. So the count is that of the threads enlisted since it was
last set back, with the entries left behind and without the entries struck off too many.
-/

set_option autoImplicit false

namespace InterpreterLock.Gil

def System.entry (s : System) (i : Ident) : Entry :=
  match s.calls i with
  | none => .none
  | some c => c.entry s.gil

/-- Threads at a lock, with those that have enlisted since the count was last set back, the entries
`stranded` since then by a thread that was unwound, and the `strays` who had enlisted before and have
struck themselves off since. -/
structure Roll where
  system : System
  fresh : Ident → Bool := fun _ => false
  stranded : ℕ := 0
  strays : ℕ := 0

namespace Roll

def start (mode : Mode) (backend : Backend) (patience : Duration) : Roll :=
  { system := .start mode backend patience }

def post (r : Roll) (me : Ident) : Entry → Roll
  | .none => r
  | .enlist => { r with fresh := Function.update r.fresh me true }
  | .strike => if r.fresh me then r else { r with strays := r.strays + 1 }
  | .strand => if r.fresh me then { r with stranded := r.stranded + 1 } else r
  | .clear => { r with fresh := fun _ => false, stranded := 0, strays := 0 }

def act (r : Roll) (a : Action) : Roll :=
  match a with
  | .step t => { r.post t.me (r.system.entry t.me) with system := r.system.act a }
  | .begin .. | .rouse _ => { r with system := r.system.act a }

def run (r : Roll) (acts : List Action) : Roll := acts.foldl act r

def enrolled (r : Roll) : Set Ident :=
  {i | r.fresh i = true ∧ (r.system.stance i).isEnlisted = true}

def Balanced (r : Roll) : Prop :=
  r.system.gil.waiters + UInt64.ofNat r.strays = UInt64.ofNat (r.enrolled.ncard + r.stranded)

variable {r : Roll} {t : Turn} {c : Call}

theorem act_system (r : Roll) (a : Action) : (r.act a).system = r.system.act a := by
  cases a <;> rfl

theorem run_system (r : Roll) (acts : List Action) : (r.run acts).system = r.system.run acts :=
  (List.foldl_hom Roll.system fun r a => (act_system r a).symm).symm

theorem mem_enrolled {i : Ident} :
    i ∈ r.enrolled ↔ r.fresh i = true ∧ (r.system.stance i).isEnlisted = true := Iff.rfl

theorem entry_of_call {i : Ident} (hc : r.system.calls i = some c) :
    r.system.entry i = c.entry r.system.gil := by
  simp [System.entry, hc]

theorem posts_step (hc : r.system.calls t.me = some c) :
    Posts r.system.gil.waiters (r.system.entry t.me) (r.system.stance t.me).isEnlisted
      (r.act (.step t)).system.gil.waiters
      ((r.act (.step t)).system.stance t.me).isEnlisted := by
  have hs : (r.act (.step t)).system = r.system.stepCall t c := by
    rw [act_system]
    simp [System.act, hc]
  have hb : r.system.stance t.me = c.stance := by simp [System.stance, Parking.standing, hc]
  have ha : ((r.system.stepCall t c).stance t.me).isEnlisted =
      ((c.step t r.system.gil).progress.next?.map fun c' => c'.stance.isEnlisted).getD false := by
    simp only [System.stance, Parking.standing, System.stepCall_calls, Function.update_self]
    cases (c.step t r.system.gil).progress <;> rfl
  rw [entry_of_call hc, hs, hb, ha]
  exact (c.enters (t := t) (g := r.system.gil)).posts

theorem stance_step_of_ne {i : Ident} (hi : i ≠ t.me) :
    (r.act (.step t)).system.stance i = r.system.stance i := by
  rw [act_system]
  cases hc : r.system.calls t.me with
  | none => simp [System.act, hc]
  | some c => simp [System.act, hc, System.stance, Parking.standing, hi]

theorem post_fresh_of_ne {i me : Ident} {k : Entry} (hi : i ≠ me) (hk : k ≠ .clear) :
    (r.post me k).fresh i = r.fresh i := by
  cases k with
  | none => rfl
  | enlist => simp [post, hi]
  | strike =>
    simp only [post]
    split <;> rfl
  | strand =>
    simp only [post]
    split <;> rfl
  | clear => exact absurd rfl hk

/-- A step that does not set the count back concerns its own thread only. -/
theorem mem_enrolled_step_of_ne {i : Ident} (hi : i ≠ t.me) (hk : r.system.entry t.me ≠ .clear) :
    i ∈ (r.act (.step t)).enrolled ↔ i ∈ r.enrolled := by
  have hf : (r.act (.step t)).fresh i = r.fresh i := post_fresh_of_ne hi hk
  rw [mem_enrolled, mem_enrolled, hf, stance_step_of_ne hi]

theorem enrolled_step_same (hk : r.system.entry t.me ≠ .clear)
    (hme : t.me ∈ (r.act (.step t)).enrolled ↔ t.me ∈ r.enrolled) :
    (r.act (.step t)).enrolled = r.enrolled := by
  ext i
  by_cases hi : i = t.me
  · rw [hi]
    exact hme
  · exact mem_enrolled_step_of_ne hi hk

theorem enrolled_step_insert (hk : r.system.entry t.me ≠ .clear)
    (hme : t.me ∈ (r.act (.step t)).enrolled) :
    (r.act (.step t)).enrolled = insert t.me r.enrolled := by
  ext i
  by_cases hi : i = t.me
  · simp [hi, hme]
  · simp [hi, mem_enrolled_step_of_ne hi hk]

theorem enrolled_step_remove (hk : r.system.entry t.me ≠ .clear)
    (hme : t.me ∉ (r.act (.step t)).enrolled) :
    (r.act (.step t)).enrolled = r.enrolled \ {t.me} := by
  ext i
  by_cases hi : i = t.me
  · simp [hi, hme]
  · simp [hi, mem_enrolled_step_of_ne hi hk]

/-- With the count set back, nobody is enlisted since. -/
theorem enrolled_step_clear (hk : r.system.entry t.me = .clear) :
    (r.act (.step t)).enrolled = ∅ := by
  have hf : (r.act (.step t)).fresh = fun _ => false := by simp [act, hk, post]
  ext i
  simp [mem_enrolled, hf]

theorem Balanced.step (hr : r.Balanced) (hc : r.system.calls t.me = some c) :
    (r.act (.step t)).Balanced := by
  have hp := posts_step hc
  have hme : t.me ∈ r.enrolled ↔ r.fresh t.me = true ∧
      (r.system.stance t.me).isEnlisted = true := mem_enrolled
  have hme' : t.me ∈ (r.act (.step t)).enrolled ↔
      (r.post t.me (r.system.entry t.me)).fresh t.me = true ∧
        ((r.act (.step t)).system.stance t.me).isEnlisted = true := mem_enrolled
  have hstrays : (r.act (.step t)).strays = (r.post t.me (r.system.entry t.me)).strays := rfl
  have hstranded : (r.act (.step t)).stranded = (r.post t.me (r.system.entry t.me)).stranded := rfl
  unfold Balanced at hr ⊢
  rw [hstrays, hstranded]
  generalize hn : (r.act (.step t)).system.gil.waiters = n' at hp ⊢
  generalize hb : (r.system.stance t.me).isEnlisted = b at hp hme
  generalize hb' : ((r.act (.step t)).system.stance t.me).isEnlisted = b' at hp hme'
  cases hk : r.system.entry t.me with
  | none =>
    rw [hk] at hp hme'
    cases hp
    rw [enrolled_step_same (by simp [hk]) (hme'.trans hme.symm)]
    exact hr
  | enlist =>
    rw [hk] at hp hme'
    cases hp
    have hin : t.me ∈ (r.act (.step t)).enrolled := hme'.mpr (by simp [post])
    have hout : t.me ∉ r.enrolled := by simp [hme]
    have hsum : r.system.gil.waiters + 1 + UInt64.ofNat r.strays =
        r.system.gil.waiters + UInt64.ofNat r.strays + 1 := by grind
    rw [enrolled_step_insert (by simp [hk]) hin, Set.ncard_insert_of_notMem hout, Nat.add_right_comm,
      UInt64.ofNat_add]
    exact hsum.trans (congrArg (· + 1) hr)
  | strike =>
    rw [hk] at hp hme'
    cases hp
    have hout : t.me ∉ (r.act (.step t)).enrolled := by simp [hme']
    rw [enrolled_step_remove (by simp [hk]) hout]
    by_cases hf : r.fresh t.me = true
    · have hin : t.me ∈ r.enrolled := by simp [hme, hf]
      have hpost : r.post t.me .strike = r := by simp [post, hf]
      rw [← Set.ncard_sdiff_singleton_add_one hin, Nat.add_right_comm, UInt64.ofNat_add] at hr
      rw [hpost]
      grind
    · have hin : t.me ∉ r.enrolled := by simp [hme, hf]
      have hpost : r.post t.me .strike = { r with strays := r.strays + 1 } := by simp [post, hf]
      rw [hpost, Set.sdiff_singleton_eq_self hin, UInt64.ofNat_add, ← hr]
      grind
  | strand =>
    rw [hk] at hp hme'
    cases hp
    have hout : t.me ∉ (r.act (.step t)).enrolled := by simp [hme']
    rw [enrolled_step_remove (by simp [hk]) hout]
    by_cases hf : r.fresh t.me = true
    · have hin : t.me ∈ r.enrolled := by simp [hme, hf]
      have hpost : r.post t.me .strand = { r with stranded := r.stranded + 1 } := by
        simp [post, hf]
      rw [← Set.ncard_sdiff_singleton_add_one hin, Nat.add_right_comm] at hr
      rw [hpost]
      exact hr
    · have hin : t.me ∉ r.enrolled := by simp [hme, hf]
      have hpost : r.post t.me .strand = r := by simp [post, hf]
      rw [hpost, Set.sdiff_singleton_eq_self hin]
      exact hr
  | clear =>
    rw [hk] at hp
    cases hp
    rw [enrolled_step_clear hk, Set.ncard_empty]
    rfl

/-- No call begins on the contended path. -/
theorem stance_begin (r : Roll) (i : Ident) (op : Op) :
    (r.act (.begin i op)).system.stance = r.system.stance := by
  have ho : op.call.stance = .apart := by cases op <;> rfl
  rw [act_system]
  cases hc : r.system.calls i with
  | none =>
    simp only [System.act, hc]
    exact Parking.standing_begin Call.stance r.system.calls i op.call hc ho
  | some c => simp [System.act, hc]

theorem gil_begin (r : Roll) (i : Ident) (op : Op) :
    (r.act (.begin i op)).system.gil = r.system.gil := by
  rw [act_system]
  cases hc : r.system.calls i <;> simp [System.act, hc, System.beginCall]

theorem enrolled_begin (r : Roll) (i : Ident) (op : Op) :
    (r.act (.begin i op)).enrolled = r.enrolled := by
  ext j
  rw [mem_enrolled, mem_enrolled, stance_begin]
  rfl

theorem act_step_of_idle (hc : r.system.calls t.me = none) : r.act (.step t) = r := by
  simp [act, System.entry, System.act, hc, post]

theorem Balanced.act (hr : r.Balanced) (a : Action) : (r.act a).Balanced := by
  cases a with
  | begin i op =>
    rw [Balanced, enrolled_begin, gil_begin]
    exact hr
  | step t =>
    cases hc : r.system.calls t.me with
    | none =>
      rw [act_step_of_idle hc]
      exact hr
    | some c => exact hr.step hc
  | rouse i => exact hr

theorem balanced_start (mode : Mode) (backend : Backend) (patience : Duration) :
    (start mode backend patience).Balanced := by
  have he : (start mode backend patience).enrolled = ∅ := by
    ext i
    simp [mem_enrolled, start]
  rw [Balanced, he, Set.ncard_empty]
  rfl

structure Unreset (r : Roll) : Prop where
  calls : ∀ i c, r.system.calls i = some c → c.isReset = false
  fresh : ∀ i, (r.system.stance i).isEnlisted = true → r.fresh i = true
  strays : r.strays = 0

structure Unspoilt (r : Roll) : Prop where
  calls : ∀ i c, r.system.calls i = some c → c.isStore = false
  valid : r.system.gil.Valid
  stranded : r.stranded = 0

variable {r : Roll} {t : Turn}

theorem Unreset.step (hr : r.Unreset) : (r.act (.step t)).Unreset := by
  cases hc : r.system.calls t.me with
  | none =>
    rw [act_step_of_idle hc]
    exact hr
  | some c =>
    have hcl : c.isReset = false := hr.calls t.me c hc
    have hk : r.system.entry t.me ≠ .clear := by
      intro h
      rw [entry_of_call hc] at h
      simp [Call.isReset_of_entry h] at hcl
    have hp := posts_step hc
    have hf : (r.act (.step t)).fresh = (r.post t.me (r.system.entry t.me)).fresh := rfl
    have hs : (r.act (.step t)).strays = (r.post t.me (r.system.entry t.me)).strays := rfl
    generalize (r.act (.step t)).system.gil.waiters = n' at hp
    generalize hb : (r.system.stance t.me).isEnlisted = b at hp
    generalize hb' : ((r.act (.step t)).system.stance t.me).isEnlisted = b' at hp
    constructor
    · intro i c' hc'
      rw [act_system] at hc'
      simp only [System.act, hc, System.stepCall_calls] at hc'
      by_cases hi : i = t.me
      · rw [hi, Function.update_self] at hc'
        rw [(Call.kind_of_next? c hc').1]
        exact hcl
      · rw [Function.update_of_ne hi] at hc'
        exact hr.calls i c' hc'
    · intro i hin
      by_cases hi : i = t.me
      · rw [hi, hb'] at hin
        rw [hf, hi]
        cases hkk : r.system.entry t.me with
        | none =>
          rw [hkk, hin] at hp
          cases hp
          exact hr.fresh t.me hb
        | enlist => simp [post]
        | strike =>
          rw [hkk, hin] at hp
          cases hp
        | strand =>
          rw [hkk, hin] at hp
          cases hp
        | clear => exact absurd hkk hk
      · rw [stance_step_of_ne hi] at hin
        rw [hf, post_fresh_of_ne hi hk]
        exact hr.fresh i hin
    · rw [hs]
      cases hkk : r.system.entry t.me with
      | none => exact hr.strays
      | enlist => exact hr.strays
      | strike =>
        rw [hkk] at hp
        cases hp
        simp only [post, hr.fresh t.me hb, if_true]
        exact hr.strays
      | strand =>
        simp only [post]
        split <;> exact hr.strays
      | clear => exact absurd hkk hk

/-- Nobody is unwound from the contended path while the word is one of the two. -/
theorem stranded_step (hv : r.system.gil.Valid) (hs : r.stranded = 0) :
    (r.act (.step t)).stranded = 0 := by
  have hk : r.system.entry t.me ≠ .strand := by
    cases hc : r.system.calls t.me with
    | none => simp [System.entry, hc]
    | some c =>
      rw [entry_of_call hc]
      exact c.entry_ne_strand hv
  have hpost : (r.act (.step t)).stranded = (r.post t.me (r.system.entry t.me)).stranded := rfl
  rw [hpost]
  cases he : r.system.entry t.me with
  | none => exact hs
  | enlist => exact hs
  | strike =>
    simp only [post]
    split <;> exact hs
  | strand => exact absurd he hk
  | clear => rfl

theorem Unspoilt.step (hr : r.Unspoilt) : (r.act (.step t)).Unspoilt := by
  cases hc : r.system.calls t.me with
  | none =>
    rw [act_step_of_idle hc]
    exact hr
  | some c =>
    refine ⟨?_, ?_, stranded_step hr.valid hr.stranded⟩
    · intro i c' hc'
      rw [act_system] at hc'
      simp only [System.act, hc, System.stepCall_calls] at hc'
      by_cases hi : i = t.me
      · rw [hi, Function.update_self] at hc'
        exact (Call.kind_of_next? c hc').2
      · rw [Function.update_of_ne hi] at hc'
        exact hr.calls i c' hc'
    · rw [act_system]
      simp only [System.act, hc, System.stepCall_gil]
      exact c.step_valid (hr.calls t.me c hc) hr.valid

theorem calls_begin {i j : Ident} {op : Op} {c : Call}
    (h : (r.act (.begin i op)).system.calls j = some c) :
    r.system.calls j = some c ∨ c = op.call := by
  rw [act_system] at h
  cases hc : r.system.calls i with
  | some c' => exact .inl (by simpa [System.act, hc] using h)
  | none =>
    simp only [System.act, hc, System.beginCall_calls] at h
    by_cases hj : j = i
    · rw [hj, Function.update_self, Option.some_inj] at h
      exact .inr h.symm
    · rw [Function.update_of_ne hj] at h
      exact .inl h

end Roll

namespace Action

def resets : Action → Bool
  | .begin _ .reinit => true
  | _ => false

def overwrites : Action → Bool
  | .begin _ (.store _) => true
  | _ => false

end Action

namespace Roll

variable {r : Roll}

theorem Unreset.act (hr : r.Unreset) (a : Action) (ha : a.resets = false) : (r.act a).Unreset := by
  cases a with
  | begin i op =>
    refine ⟨?_, ?_, hr.strays⟩
    · intro j c hj
      rcases calls_begin hj with hc | rfl
      · exact hr.calls j c hc
      · cases op with
        | reinit => cases ha
        | _ => rfl
    · intro j hj
      rw [stance_begin] at hj
      exact hr.fresh j hj
  | step t => exact hr.step
  | rouse i => exact ⟨hr.calls, hr.fresh, hr.strays⟩

theorem Unspoilt.act (hr : r.Unspoilt) (a : Action) (ha : a.overwrites = false) :
    (r.act a).Unspoilt := by
  cases a with
  | begin i op =>
    refine ⟨?_, ?_, hr.stranded⟩
    · intro j c hj
      rcases calls_begin hj with hc | rfl
      · exact hr.calls j c hc
      · cases op with
        | store word => cases ha
        | _ => rfl
    · rw [gil_begin]
      exact hr.valid
  | step t => exact hr.step
  | rouse i => exact ⟨hr.calls, hr.valid, hr.stranded⟩

theorem strays_run (mode : Mode) (backend : Backend) (patience : Duration) (acts : List Action)
    (ha : ∀ a ∈ acts, a.resets = false) : ((start mode backend patience).run acts).strays = 0 := by
  have h0 : (start mode backend patience).Unreset := by
    refine ⟨?_, ?_, rfl⟩
    · intro i c hc
      cases hc
    · intro i hi
      cases hi
  exact (Run.always (P := Unreset) (fun _ a hr ha => hr.act a ha) acts _ h0 ha).strays

theorem stranded_run (mode : Mode) (backend : Backend) (patience : Duration) (acts : List Action)
    (ha : ∀ a ∈ acts, a.overwrites = false) :
    ((start mode backend patience).run acts).stranded = 0 := by
  have h0 : (start mode backend patience).Unspoilt := by
    refine ⟨?_, mode.isValid_freeWord, rfl⟩
    intro i c hc
    cases hc
  exact (Run.always (P := Unspoilt) (fun _ a hr ha => hr.act a ha) acts _ h0 ha).stranded

theorem stranded_run_generic (backend : Backend) (patience : Duration) (acts : List Action) :
    ((start .generic backend patience).run acts).stranded = 0 := by
  have keep : ∀ (r : Roll) (a : Action),
      Made .generic backend patience r.system.gil ∧ r.stranded = 0 →
        Made .generic backend patience (r.act a).system.gil ∧ (r.act a).stranded = 0 := by
    rintro r a ⟨hm, hs⟩
    constructor
    · rw [act_system]
      exact System.act_made a hm
    · cases a with
      | step t => exact stranded_step (by rw [Valid, hm.mode]; rfl) hs
      | _ => exact hs
  exact (Run.lasts keep acts (start .generic backend patience)
    ⟨made_new .generic backend patience, rfl⟩).2

structure Tallied (mode : Mode) (acts : List Action) (r : Roll) : Prop where
  balanced : r.Balanced
  correct : r.system.gil.waiters = UInt64.ofNat r.enrolled.ncard ↔
    UInt64.ofNat r.stranded = UInt64.ofNat r.strays
  stranded : mode = .generic ∨ (∀ a ∈ acts, a.overwrites = false) → r.stranded = 0
  strays : (∀ a ∈ acts, a.resets = false) → r.strays = 0

theorem Balanced.correct (hr : r.Balanced) :
    r.system.gil.waiters = UInt64.ofNat r.enrolled.ncard ↔
      UInt64.ofNat r.stranded = UInt64.ofNat r.strays := by
  rw [Balanced, UInt64.ofNat_add] at hr
  constructor
  · intro h
    rw [h] at hr
    exact (UInt64.add_right_inj _).mp hr.symm
  · intro h
    rw [h] at hr
    exact (UInt64.add_left_inj _).mp hr

theorem balance_run (mode : Mode) (backend : Backend) (patience : Duration) (acts : List Action) :
    ((start mode backend patience).run acts).Balanced :=
  Run.lasts (P := Balanced) (fun _ a hr => hr.act a) acts _ (balanced_start mode backend patience)

/-- Any number of threads, in any interleaving of their steps, with raw writes of the word and with
resets at any time. -/
theorem waiting_tallied_run (mode : Mode) (backend : Backend) (patience : Duration) (acts : List Action) :
    Tallied mode acts ((start mode backend patience).run acts) := by
  have hb := balance_run mode backend patience acts
  refine ⟨hb, hb.correct, ?_, strays_run mode backend patience acts⟩
  rintro (rfl | ha)
  · exact stranded_run_generic backend patience acts
  · exact stranded_run mode backend patience acts ha

/-- Thread `b` is enlisted when the count is set back. In the first run it then takes the entry of
`d` with it, which goes on waiting uncounted; in the second one it takes an entry that nobody has
made. In the third run it finds the word corrupt and is unwound, and its entry stays. -/
theorem waiters_miscount :
    let a : Ident := ⟨1, by decide⟩
    let b : Ident := ⟨2, by decide⟩
    let c : Ident := ⟨3, by decide⟩
    let d : Ident := ⟨4, by decide⟩
    let steps i n : List Action := List.replicate n (.step { me := i, now := ⟨0⟩ })
    let reset n := .begin a .acquire :: steps a 5 ++ .begin b .acquire :: steps b n ++
      .begin a .reinit :: steps a 3 ++ .begin a .release :: steps a 4
    let forgotten := (start .generic .posix defaultPatience).run
      (reset 8 ++ .begin c .acquire :: steps c 5 ++ .begin d .acquire :: steps d 8 ++
        .begin c .release :: steps c 5 ++ steps b 5)
    let wrapped := (start .generic .posix defaultPatience).run (reset 5 ++ steps b 2)
    let left := (start .constrained .posix defaultPatience).run
      (.begin a .acquire :: steps a 5 ++ .begin b .acquire :: steps b 5 ++
        .begin c (.store 42) :: steps c 1 ++ steps b 1)
    (forgotten.system.gil.waiters = 0 ∧ d ∈ forgotten.enrolled) ∧
      (wrapped.system.gil.waiters = 18446744073709551615 ∧
        wrapped.system.gil.waiters ≠ UInt64.ofNat wrapped.enrolled.ncard) ∧
      left.system.gil.waiters = 1 ∧ left.system.calls b = none ∧
        left.system.gil.waiters ≠ UInt64.ofNat left.enrolled.ncard := by
  intro a b c d steps reset forgotten wrapped left
  refine ⟨⟨by decide, by decide, by decide⟩, ⟨by decide, ?_⟩, by decide, by decide, ?_⟩
  · rw [ne_eq, (balance_run .generic .posix defaultPatience _).correct]
    decide
  · rw [ne_eq, (balance_run .constrained .posix defaultPatience _).correct]
    decide

end Roll

end InterpreterLock.Gil
