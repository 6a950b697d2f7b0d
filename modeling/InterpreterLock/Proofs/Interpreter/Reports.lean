import InterpreterLock.Proofs.Interpreter.Custody

/-!
# The collector hears of every turn at the lock

A thread that obtains the lock reports a run to the collector before its call ends, as the holder on
record. A block that is refused reports a run as well, though nothing was obtained: so the runs that
the collector has heard of are one for each time the lock was obtained, and one for each refusal.
-/

set_option autoImplicit false

namespace InterpreterLock

namespace Gil

def Acquire.hasTaken : Acquire → Bool
  | .unlist _ | .setHolder _ | .count _ | .announce _ | .record _ => true
  | _ => false

def Yield.hasTaken : Yield → Bool
  | .acquire a => a.hasTaken
  | _ => false

variable {t : Turn} {g : Gil}

theorem word_of_tryLock_ok {g' : Option Gil} (h : g.tryLock = .ok g') :
    (g.word == Mode.freeWord) = g'.isSome := by
  unfold tryLock at h
  split at h
  · cases h
    simpa
  · split at h <;> cases h
    simpa

theorem word_of_tryLock_error {v : Violation} (h : g.tryLock = .error v) :
    (g.word == Mode.freeWord) = false := by
  unfold tryLock at h
  split at h
  · cases h
  · simpa

theorem Acquire.step_hasTaken (a : Acquire) :
    (a.step t g).progress.Meets
      (fun a' => a'.hasTaken.toNat = a.hasTaken.toNat + (a.takes g).toNat)
      (fun _ => 1 = a.hasTaken.toNat + (a.takes g).toNat)
      (fun _ => 0 = a.hasTaken.toNat + (a.takes g).toNat) := by
  cases a with
  | checkHolder =>
    simp only [step]
    split <;> rfl
  | tryWord =>
    simp only [step]
    split
    · simp [Progress.Meets, takes, hasTaken, word_of_tryLock_ok ‹_›]
    · simp [Progress.Meets, takes, hasTaken, word_of_tryLock_ok ‹_›]
    · simp [Progress.Meets, takes, hasTaken, word_of_tryLock_error ‹_›]
  | retry start ticket =>
    simp only [step]
    split
    · simp [Progress.Meets, takes, hasTaken, word_of_tryLock_ok ‹_›]
    · simp [Progress.Meets, takes, hasTaken, word_of_tryLock_ok ‹_›]
    · simp [Progress.Meets, takes, hasTaken, word_of_tryLock_error ‹_›]
  | wait start w =>
    simp only [step, Progress.meets_within]
    apply Parking.wait_meets
    · intro _
      rfl
    · intro _
      rfl
  | count route => cases route <;> rfl
  | record route => cases route <;> rfl
  | _ => rfl

theorem Acquire.panic?_eq_some {a : Acquire} {inside : Bool} {p : Panic}
    (h : a.panic? t inside = some p) :
    a = .checkHolder ∧ inside = true ∧ p = .violation (.reentered t.me) := by
  cases a <;> cases inside <;> simp_all [panic?]

theorem Release.panic?_eq_some {r : Release} {inside : Bool} {p : Panic}
    (h : r.panic? t g inside = some p) :
    r = .checkHolder ∧ inside = false ∧ p = .violation (.releasedUnheld t.me g.holder) := by
  cases r <;> cases inside <;> simp_all [panic?]

theorem Yield.step_hasTaken (y : Yield) :
    (y.step t g).progress.Meets
      (fun y' => y'.hasTaken.toNat = y.hasTaken.toNat + (y.takes g).toNat)
      (fun b => b.toNat = y.hasTaken.toNat + (y.takes g).toNat)
      (fun _ => 0 = y.hasTaken.toNat + (y.takes g).toNat) := by
  cases y with
  | acquire a =>
    simp only [step, Progress.meets_within]
    exact Acquire.step_hasTaken a
  | release before ticket r =>
    simp only [step, Progress.meets_within]
    cases (r.step t g).progress <;> rfl
  | wait watch w =>
    simp only [step, Progress.meets_within]
    apply Parking.wait_meets
    · intro _
      rfl
    · intro _
      rfl
  | record => rfl
  | readCount => rfl
  | prepare before => rfl
  | renew watch => rfl
  | recordHandoff completed => rfl
  | _ =>
    simp only [step]
    split <;> rfl

end Gil

namespace Interpreter

def entryRefused : Except Panic Bool → Bool
  | .error (.violation (.releasedUnheld ..)) => true
  | _ => false

namespace Call

def owes : Call → Bool
  | .acquire a | .leave a => a.hasTaken
  | .yield y => y.hasTaken
  | .announceFork | .forgetThreads | .report _ => true
  | .release _ | .enter _ | .reinit _ | .beforeFork => false

def reports : Call → Bool
  | .report _ => true
  | _ => false

def inside? : Call → Option Bool
  | .announceFork | .forgetThreads => some true
  | .report ending => some (!entryRefused ending)
  | _ => none

variable {t : Turn} {s : Interpreter} {inside : Bool}

def Settles (t : Turn) (s : Interpreter) (c : Call) (inside : Bool) : Prop :=
  let due := c.owes.toNat + (c.obtains s.gil).toNat + (c.refuses t.me s.gil).toNat
  (c.step t s).2.Meets
    (fun c' => c'.owes.toNat + c.reports.toNat = due ∧
      ∀ b, c'.inside? = some b → (c.obtains s.gil || inside && !c.frees) = b)
    (fun _ => c.reports.toNat = due)
    (fun _ => c.reports.toNat = due)

theorem refuses_enter {r : Gil.Release} (hs : Gil.Shows s.gil t.me (r.hold inside)) :
    (enter r).refuses t.me s.gil = (r.panic? t s.gil inside).isSome := by
  cases r with
  | checkHolder =>
    have hm : s.gil.isHeldBy t.me = inside := hs.isHeldBy
    cases inside <;> simp [refuses, Gil.Release.panic?, hm]
  | _ => rfl

theorem refuses_leave {a : Gil.Acquire} (hs : Gil.Shows s.gil t.me (a.hold inside)) :
    (leave a).refuses t.me s.gil = (a.panic? t inside).isSome := by
  cases a with
  | checkHolder =>
    have hm : s.gil.isHeldBy t.me = inside := hs.isHeldBy
    cases inside <;> simp [refuses, Gil.Acquire.panic?, hm]
  | _ => rfl

theorem settles_acquire (a : Gil.Acquire) (hs : Gil.Shows s.gil t.me (a.hold inside))
    (hi : inside = true ↔ a.hold inside ≠ .out) : Settles t s (.acquire a) inside := by
  have ha := a.step_hasTaken.and (a.accords hs true)
  simp only [Settles, step, onGil_meets]
  refine ha.imp (fun a' h => ?_) (fun _ h => ?_) fun p h => ?_
  · exact ⟨h.1, by simp [inside?]⟩
  · refine ⟨h.1, fun b hb => ?_⟩
    cases hb
    exact (h.2.2.inside hi).mpr (by decide)
  · exact h.1

theorem settles_leave (a : Gil.Acquire) (hs : Gil.Shows s.gil t.me (a.hold inside))
    (hi : inside = true ↔ a.hold inside ≠ .out) : Settles t s (.leave a) inside := by
  have ha := a.step_hasTaken.and (a.accords hs true)
  simp only [Settles, step, onGil_meets, refuses_leave hs]
  refine ha.imp (fun a' h => ?_) (fun _ h => ?_) fun p h => ?_
  · rw [h.2.1]
    exact ⟨h.1, by simp [inside?]⟩
  · rw [h.2.1]
    refine ⟨h.1, fun b hb => ?_⟩
    cases hb
    exact (h.2.2.inside hi).mpr (by decide)
  · obtain ⟨rfl, rfl, rfl⟩ := Gil.Acquire.panic?_eq_some h.2.1
    exact ⟨rfl, fun b hb => Option.some_inj.mp hb⟩

theorem settles_enter (r : Gil.Release) (hs : Gil.Shows s.gil t.me (r.hold inside)) :
    Settles t s (.enter r) inside := by
  simp only [Settles, step, onGil_meets, refuses_enter hs]
  refine Progress.Meets.imp (r.accords hs true) (fun r' h => ?_) (fun _ h => ?_) fun p h => ?_
  · rw [h.1]
    exact ⟨rfl, by simp [inside?]⟩
  · rw [h.1]
    rfl
  · obtain ⟨rfl, rfl, rfl⟩ := Gil.Release.panic?_eq_some h.1
    exact ⟨rfl, fun b hb => Option.some_inj.mp hb⟩

theorem settles_release (r : Gil.Release) : Settles t s (.release r) inside := by
  simp only [Settles, step, onGil_meets]
  cases (r.step t s.gil).progress with
  | going r' => exact ⟨rfl, by simp [inside?]⟩
  | done a => rfl
  | unwound p => rfl

theorem settles_yield (y : Gil.Yield) (hs : Gil.Shows s.gil t.me (y.hold inside))
    (hi : inside = true ↔ y.hold inside ≠ .out) : Settles t s (.yield y) inside := by
  have hy := y.step_hasTaken.and (y.accords hs true)
  simp only [Settles, step, onGil_meets]
  refine hy.imp (fun y' h => ?_) (fun ran h => ?_) fun p h => ?_
  · exact ⟨h.1, by simp [inside?]⟩
  · cases ran with
    | false => exact h.1
    | true =>
      refine ⟨h.1, fun b hb => ?_⟩
      cases hb
      exact (h.2.2.inside hi).mpr (by decide)
  · exact h.1

/-- A call that is not at the lock keeps what its place says of the lock. -/
theorem settles_apart (c : Call) (hc : c.atLock? = none)
    (hi : ∀ b, c.inside? = some b → inside = b) : Settles t s c inside := by
  cases c with
  | acquire a => cases hc
  | release r => cases hc
  | yield y => cases hc
  | enter r => cases hc
  | leave a => cases hc
  | reinit r =>
    cases r with
    | clearWaiters => exact ⟨rfl, nofun⟩
    | lockWord => exact ⟨rfl, nofun⟩
    | setHolder => exact ⟨rfl, fun b hb => Option.some_inj.mp hb⟩
  | announceFork =>
    refine ⟨rfl, fun b hb => ?_⟩
    simpa [obtains, frees] using hi b hb
  | forgetThreads =>
    refine ⟨rfl, fun b hb => ?_⟩
    simpa [obtains, frees] using hi b hb
  | report ending => cases ending <;> rfl
  | beforeFork => rfl

theorem settles (c : Call)
    (hs : ∀ l, c.atLock? = some l →
      Gil.Shows s.gil t.me (l.hold inside) ∧ (inside = true ↔ l.hold inside ≠ .out))
    (hi : ∀ b, c.inside? = some b → inside = b) : Settles t s c inside := by
  cases c with
  | acquire a => exact settles_acquire a (hs _ rfl).1 (hs _ rfl).2
  | release r => exact settles_release r
  | yield y => exact settles_yield y (hs _ rfl).1 (hs _ rfl).2
  | enter r => exact settles_enter r (hs _ rfl).1
  | leave a => exact settles_leave a (hs _ rfl).1 (hs _ rfl).2
  | _ => exact settles_apart _ rfl hi

def isRefusal : Call → Bool
  | .report (.error _) => true
  | _ => false

/-- A call goes on to report a refusal if it is refused a block, and not otherwise. -/
theorem meets_refused (c : Call)
    (hs : ∀ l, c.atLock? = some l → Gil.Shows s.gil t.me (l.hold inside)) :
    (c.step t s).2.Meets (fun c' => c'.isRefusal = c.refuses t.me s.gil)
      (fun _ => c.refuses t.me s.gil = false) (fun _ => c.refuses t.me s.gil = false) := by
  cases c with
  | enter r =>
    simp only [step, onGil_meets, refuses_enter (hs _ rfl)]
    refine Progress.Meets.imp (r.accords (hs _ rfl) true) (fun r' h => ?_) (fun _ h => ?_)
      fun p h => ?_
    · rw [h.1]
      rfl
    · rw [h.1]
      rfl
    · rw [h.1]
      rfl
  | leave a =>
    simp only [step, onGil_meets, refuses_leave (hs _ rfl)]
    refine Progress.Meets.imp (a.accords (hs _ rfl) true) (fun a' h => ?_) (fun _ h => ?_)
      fun p h => ?_
    · rw [h.1]
      rfl
    · rw [h.1]
      rfl
    · rw [h.1]
      rfl
  | acquire a =>
    simp only [step, onGil_meets]
    cases (a.step t s.gil).progress <;> rfl
  | release r =>
    simp only [step, onGil_meets]
    cases (r.step t s.gil).progress <;> rfl
  | yield y =>
    simp only [step, onGil_meets]
    cases (y.step t s.gil).progress with
    | done ran => cases ran <;> rfl
    | _ => rfl
  | reinit r => cases r <;> rfl
  | report ending => cases ending <;> rfl
  | announceFork => rfl
  | forgetThreads => rfl
  | beforeFork => rfl

theorem Settles.next {c : Call} (h : Settles t s c inside) :
    ((c.step t s).2.next?.any owes).toNat + c.reports.toNat =
      c.owes.toNat + (c.obtains s.gil).toNat + (c.refuses t.me s.gil).toNat := by
  unfold Settles at h
  cases hp : (c.step t s).2 with
  | going c' =>
    rw [hp] at h
    exact h.1
  | done b =>
    rw [hp] at h
    exact (Nat.zero_add _).trans h
  | unwound p =>
    rw [hp] at h
    exact (Nat.zero_add _).trans h

theorem Settles.stands {c c' : Call} (h : Settles t s c inside)
    (hn : (c.step t s).2.next? = some c') {b : Bool} (hb : c'.inside? = some b) :
    (c.obtains s.gil || inside && !c.frees) = b :=
  (Progress.Meets.of_next? h hn).2 b hb

/-- With a collector attached, a report is heard of its own thread and nothing else is. -/
theorem count_heard (ha : s.bootstrap.collector.isSome = true) (c : Call) (i : Ident) :
    (c.step t s).1.heard.count (.run i) =
      s.heard.count (.run i) + if i = t.me then c.reports.toNat else 0 := by
  rw [step_heard, ha, if_pos rfl, List.count_append, Nat.add_comm]
  congr 1
  by_cases hi : i = t.me
  · subst hi
    cases c <;> simp [hook?, reports]
  · cases c <;> simp [hook?, Ne.symm hi, hi]

end Call

namespace System

structure Accounted (s : System) : Prop where
  sound : s.Sound
  attached : s.interpreter.bootstrap.collector.isSome = true
  inside : ∀ i c b, s.gone i = false → s.calls i = some c → c.inside? = some b → s.inside i = b
  count : ∀ i, s.interpreter.heard.count (.run i) + ((s.calls i).any Call.owes).toNat =
    s.obtained i + s.refused i

variable {s : System} {t : Turn} {c : Call} {i : Ident}

theorem Sound.shows (hs : s.Sound) (hc : s.calls i = some c) (hg : s.gone i = false)
    {l : Gil.Call} (hl : c.atLock? = some l) :
    Gil.Shows s.interpreter.gil i (l.hold (s.inside i)) ∧
      (s.inside i = true ↔ l.hold (s.inside i) ≠ .out) := by
  rcases hs with hs | ⟨k, r, hf⟩
  · exact hs.shows hc hg hl
  · by_cases hk : i = k
    · subst hk
      rw [hf.call, Option.some_inj] at hc
      subst hc
      cases hl
    · rw [hf.alone i hk] at hg
      cases hg

theorem Accounted.settles (hs : s.Accounted) (hc : s.calls t.me = some c)
    (hg : s.gone t.me = false) : c.Settles t s.interpreter (s.inside t.me) :=
  c.settles (fun _ hl => hs.sound.shows hc hg hl) fun b hb => hs.inside t.me c b hg hc hb

theorem Accounted.stepCall (hs : s.Accounted) (hsound : (s.stepCall t c).Sound)
    (hc : s.calls t.me = some c) (hg : s.gone t.me = false) : (s.stepCall t c).Accounted where
  sound := hsound
  attached := by
    simp only [System.stepCall, Call.step_attached]
    exact hs.attached
  inside i c' b hgi hci hb := by
    by_cases hi : i = t.me
    · subst hi
      simp only [System.stepCall, Function.update_self] at hci ⊢
      exact (hs.settles hc hg).stands hci hb
    · simp only [System.stepCall, Function.update_of_ne hi] at hci ⊢
      exact hs.inside i c' b hgi hci hb
  count i := by
    have hcount := hs.count i
    simp only [System.stepCall, Call.count_heard hs.attached]
    by_cases hi : i = t.me
    · subst hi
      have hn := (hs.settles hc hg).next
      simp only [hc, Option.any_some] at hcount
      simp only [Function.update_self, if_true]
      omega
    · simp only [Function.update_of_ne hi, if_neg hi]
      exact hcount

/-- A call begins with nothing owed, at a place that says nothing of the lock. -/
theorem Accounted.begin (hs : s.Accounted) (hsound : (s.beginCall i c).Sound)
    (hi : s.calls i = none) (ho : c.owes = false) (hp : c.inside? = none) :
    (s.beginCall i c).Accounted where
  sound := hsound
  attached := hs.attached
  inside j c' b hg hc hb := by
    by_cases hj : j = i
    · subst hj
      simp only [beginCall, Function.update_self, Option.some_inj] at hc
      subst hc
      rw [hp] at hb
      cases hb
    · simp only [beginCall, Function.update_of_ne hj] at hc
      exact hs.inside j c' b hg hc hb
  count j := by
    have hcount := hs.count j
    by_cases hj : j = i
    · subst hj
      simp only [beginCall, Function.update_self, Option.any_some, ho]
      simpa [hi] using hcount
    · simp only [beginCall, Function.update_of_ne hj]
      exact hcount

theorem Accounted.fork (hs : s.Accounted) (hsound : (s.forkTo i).Sound) (hi : s.calls i = none) :
    (s.forkTo i).Accounted where
  sound := hsound
  attached := hs.attached
  inside j c' b hg hc hb := by
    by_cases hj : j = i
    · subst hj
      simp only [forkTo, Function.update_self, Option.some_inj] at hc
      subst hc
      cases hb
    · simp only [forkTo, Function.update_of_ne hj] at hg
      cases hg
  count j := by
    have hcount := hs.count j
    by_cases hj : j = i
    · subst hj
      simpa [forkTo, hi, Call.owes, Call.toAfterFork] using hcount
    · simp only [forkTo, Function.update_of_ne hj]
      exact hcount

theorem Accounted.act (hs : s.Accounted) (a : Action) (ha : a.isLawful = true) :
    (s.act a).Accounted := by
  have hsound := hs.sound.act a ha
  cases a with
  | begin i op =>
    cases hi : s.isIdle i with
    | false =>
      simp only [System.act, hi]
      exact hs
    | true =>
      simp only [System.act, hi, if_true] at hsound ⊢
      exact hs.begin hsound (isIdle_iff.mp hi).2 (by cases op <;> rfl) (by cases op <;> rfl)
  | step t =>
    cases hc : s.calls t.me with
    | none =>
      simp only [System.act, hc]
      exact hs
    | some c =>
      cases hg : s.gone t.me with
      | true =>
        simp only [System.act, hc, hg, if_true]
        exact hs
      | false =>
        simp only [System.act, hc, hg] at hsound ⊢
        exact hs.stepCall hsound hc hg
  | rouse i => exact ⟨hsound, hs.attached, hs.inside, hs.count⟩
  | fork i =>
    cases hi : s.isIdle i with
    | false =>
      simp only [System.act, hi]
      exact hs
    | true =>
      simp only [System.act, hi, if_true] at hsound ⊢
      exact hs.fork hsound (isIdle_iff.mp hi).2
  | arrive parent child =>
    by_cases h : (s.isIdle parent && (s.calls child).isNone) = true
    · simp only [System.act, h, if_true] at hsound ⊢
      have hnone : s.calls child = none := by
        simp only [Bool.and_eq_true, Option.isNone_iff_eq_none] at h
        exact h.2
      refine ⟨hsound, hs.attached, fun i c b hg hc hb => ?_, hs.count⟩
      by_cases hi : i = child
      · subst hi
        rw [hnone] at hc
        cases hc
      · simp only [Function.update_of_ne hi] at hg
        exact hs.inside i c b hg hc hb
    · simp only [System.act, h]
      exact hs

theorem accounted_run {config : Config} {r : Interpreter} (hr : build config = .ok r)
    (hc : config.collector = true) (acts : List Action) (ha : ∀ a ∈ acts, a.isLawful = true) :
    ((start r).run acts).Accounted := by
  refine Run.always (P := Accounted) (fun _ a hs ha => hs.act a ha) acts _ ?_ ha
  have hb := build_eq hr
  refine ⟨.inl (settled_start r ?_), ?_, fun i c b _ hi => ?_, fun i => ?_⟩
  · rw [hb]
    exact ⟨_, _, _, rfl⟩
  · simp [start, hb, hc]
  · simp [start] at hi
  · simp [start, hb, heard, hc]

structure Reports (s : System) : Prop where
  own : ∀ t c i, s.calls t.me = some c → s.gone t.me = false →
    (c.step t s.interpreter).1.heard.count (.run i) ≠ s.interpreter.heard.count (.run i) →
      i = t.me ∧ ∃ ending, c = .report ending
  holder : ∀ i ending, s.calls i = some (.report ending) → s.gone i = false →
    (s.interpreter.gil.holder = some i ↔ entryRefused ending = false)
  refused : ∀ t c, s.calls t.me = some c → s.gone t.me = false →
    ((∃ p, (c.step t s.interpreter).2 = .going (.report (.error p))) ↔
      c.refuses t.me s.interpreter.gil = true)
  counted : ∀ i, s.calls i = none →
    s.interpreter.heard.count (.run i) = s.obtained i + s.refused i

theorem Accounted.reports (hs : s.Accounted) : s.Reports where
  own t c i hc hg hne := by
    rw [Call.count_heard hs.attached] at hne
    by_cases hi : i = t.me
    · refine ⟨hi, ?_⟩
      rw [if_pos hi] at hne
      cases c with
      | report ending => exact ⟨ending, rfl⟩
      | _ => exact absurd rfl hne
    · rw [if_neg hi] at hne
      exact absurd rfl hne
  holder i ending hc hg := by
    have hi := hs.inside i _ _ hg hc rfl
    rcases hs.sound with hset | ⟨k, r, hf⟩
    · have hcall : s.atLock.calls i = none := by simp [atLock, hc, Call.atLock?]
      have hh : s.atLock.hold i = .ofInside (s.inside i) := by
        simp only [Gil.System.hold, hcall]
        rfl
      have hcust := hset.lock.custody.holder i
      rw [hh, hi] at hcust
      exact hcust.trans (by cases entryRefused ending <;> decide)
    · by_cases hk : i = k
      · subst hk
        rw [hf.call] at hc
        cases hc
      · rw [hf.alone i hk] at hg
        cases hg
  refused t c hc hg := by
    have hm := c.meets_refused (t := t) (s := s.interpreter) fun l hl =>
      (hs.sound.shows hc hg hl).1
    cases hp : (c.step t s.interpreter).2 with
    | going c' =>
      rw [hp] at hm
      have hr : c'.isRefusal = c.refuses t.me s.interpreter.gil := hm
      rw [← hr]
      cases c' with
      | report ending => cases ending <;> simp [Call.isRefusal]
      | _ => simp [Call.isRefusal]
    | done b =>
      rw [hp] at hm
      have hr : c.refuses t.me s.interpreter.gil = false := hm
      simp [hr]
    | unwound p =>
      rw [hp] at hm
      have hr : c.refuses t.me s.interpreter.gil = false := hm
      simp [hr]
  counted i hi := by
    have hcount := hs.count i
    simpa [hi] using hcount

/-- Any number of threads, in any interleaving of their steps, across any number of forks. -/
theorem reports_run {config : Config} {r : Interpreter} (hr : build config = .ok r)
    (hc : config.collector = true) (acts : List Action) (ha : ∀ a ∈ acts, a.isLawful = true) :
    ((start r).run acts).Reports :=
  (accounted_run hr hc acts ha).reports

/-- A thread takes the lock, and after a fork it makes the lock its own. -/
theorem reports_run_forked :
    let a : Ident := ⟨1, by decide⟩
    let turn : Action := .step { me := a, now := ⟨0⟩ }
    let acts := .begin a .acquire :: List.replicate 6 turn ++ .fork a :: List.replicate 6 turn
    let r : Interpreter :=
      { gil := .new .generic .posix Gil.defaultPatience
        bootstrap := { backend := .posix, collector := some {} } }
    let s := (start r).run acts
    build {} = .ok r ∧ (∀ act ∈ acts, act.isLawful = true) ∧ s.Reports ∧
      s.calls a = none ∧ s.obtained a = 2 ∧ s.interpreter.heard.count (.run a) = 2 :=
  ⟨rfl, by decide, @reports_run {} _ rfl rfl _ (by decide), by decide, by decide,
    by decide⟩

/-- A thread without the lock is refused a block, and the collector hears of a run. -/
theorem refused_block_reports :
    let a : Ident := ⟨1, by decide⟩
    let turn : Action := .step { me := a, now := ⟨0⟩ }
    let r : Interpreter :=
      { gil := .new .generic .posix Gil.defaultPatience
        bootstrap := { backend := .posix, collector := some {} } }
    let early := (start r).run [.begin a .enter, turn]
    let s := early.run [turn]
    build {} = .ok r ∧ early.interpreter.gil.holder = none ∧ early.interpreter.heard = [] ∧
      s.interpreter.heard = [.run a] ∧ s.calls a = none ∧ s.obtained a = 0 ∧ s.refused a = 1 :=
  ⟨rfl, by decide, by decide, by decide, by decide, by decide, by decide⟩

end System

end Interpreter

end InterpreterLock
