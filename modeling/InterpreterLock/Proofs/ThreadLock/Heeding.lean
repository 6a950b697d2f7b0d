import InterpreterLock.Proofs.ThreadLock.Outcomes
import InterpreterLock.Proofs.Time.Conversions

/-!
# How much of a duration a timed acquire waits

A timeout heeds the whole microseconds of a duration, up to the longest timeout there is. An acquire
that fails has waited all that the timeout heeds, and it may have waited no longer: so a duration is
waited in full just if it is heeded in full. Of less than a microsecond nothing is heeded, and the
acquire is a poll, which does not even look at the clock.
-/

set_option autoImplicit false

namespace InterpreterLock

/-- The part of a duration, in nanoseconds, that its timeout heeds. -/
def Duration.heeded (d : Duration) : ℕ := min d.micros Timeout.maxMicros * 1000

theorem Duration.heeded_le (d : Duration) : d.heeded ≤ d.nanoseconds :=
  calc d.heeded ≤ d.micros * 1000 := Nat.mul_le_mul_right 1000 (Nat.min_le_left _ _)
    _ ≤ d.nanoseconds := Nat.div_mul_le_self d.nanoseconds 1000

theorem Duration.heeded_eq_iff (d : Duration) :
    d.heeded = d.nanoseconds ↔ 1000 ∣ d.nanoseconds ∧ d.micros ≤ Timeout.maxMicros := by
  have hle : d.micros * 1000 ≤ d.nanoseconds := Nat.div_mul_le_self d.nanoseconds 1000
  constructor
  · intro h
    have hmin : min d.micros Timeout.maxMicros ≤ d.micros := Nat.min_le_left _ _
    have hwhole : d.nanoseconds ≤ d.micros * 1000 := h ▸ Nat.mul_le_mul_right 1000 hmin
    have hmicros : d.micros ≤ min d.micros Timeout.maxMicros :=
      Nat.le_of_mul_le_mul_right (hle.trans_eq h.symm) (by decide : 0 < 1000)
    exact ⟨⟨d.micros, by rw [Nat.mul_comm]; exact Nat.le_antisymm hwhole hle⟩,
      hmicros.trans (Nat.min_le_right _ _)⟩
  · rintro ⟨hdvd, hfits⟩
    rw [heeded, Nat.min_eq_left hfits]
    exact Nat.div_mul_cancel hdvd

namespace Timeout

variable (d : Duration)

theorem micros_ofDuration_eq_zero_iff : (ofDuration d).micros = 0 ↔ d.nanoseconds < 1000 := by
  rw [micros_ofDuration]
  simp only [Duration.micros, maxMicros]
  omega

theorem toNat_micros_ofDuration : (ofDuration d).micros.toNat * 1000 = d.heeded := by
  rw [micros_ofDuration, Duration.heeded]
  omega

theorem isNonBlocking_ofDuration_iff :
    (ofDuration d).isNonBlocking = true ↔ d.nanoseconds < 1000 := by
  rw [isNonBlocking, beq_iff_eq]
  exact micros_ofDuration_eq_zero_iff d

theorem waitMillis_ofDuration_eq_zero_iff :
    (ofDuration d).waitMillis = some 0 ↔ d.nanoseconds < 1000 :=
  (converts (ofDuration d)).zero.trans (micros_ofDuration_eq_zero_iff d)

end Timeout

namespace ThreadLock

variable {t : Turn} {l : ThreadLock} {terms : Terms} {ev : Evidence}

def Polling (ev : Evidence) : Acquire → Prop
  | .tryLock | .recordStatus _ => ev.start = none
  | _ => False

theorem Polling.step {a : Acquire} (h : Polling ev a) (hz : terms.timeout.micros = 0) :
    (a.step terms t l).progress.Meets (Polling (ev.afterStep t l a))
      (fun _ => (ev.afterStep t l a).start = none) fun _ => False := by
  cases a with
  | tryLock =>
    have hstart : ev.start = none := h
    cases hl : l.locked with
    | false => simpa [Acquire.step, hl, Progress.Meets, Polling, Evidence.afterStep] using hstart
    | true =>
      simpa [Acquire.step, hl, Timeout.isNonBlocking, hz, Progress.Meets, Polling,
        Evidence.afterStep] using hstart
  | recordStatus status => exact h
  | _ => exact h.elim

theorem Polling.afterInterrupt {a : Acquire} (h : Polling ev a) : Polling ev.afterInterrupt a := by
  cases a with
  | tryLock | recordStatus _ => exact h
  | _ => exact h.elim

namespace Docket

structure Unclocked (d : Docket) : Prop where
  calls : ∀ i terms a, d.system.calls i = some (.acquire terms a) → terms.timeout.micros = 0 →
    Polling (d.evidence i) a
  reports : ∀ r ∈ d.reports, r.terms.timeout.micros = 0 → r.evidence.start = none

variable {d : Docket}

theorem unclocked_start (backend : Backend) : (start backend).Unclocked where
  calls i terms a h := by cases h
  reports r h := by cases h

theorem Unclocked.begin (hd : d.Unclocked) (i : Ident) (op : Op) : Unclocked { d with
    system := d.system.beginCall i op.call
    evidence := Function.update d.evidence i {} } where
  calls j terms a ha hz := by
    by_cases hj : j = i
    · subst hj
      simp only [System.beginCall, Function.update_self, Option.some.injEq] at ha ⊢
      cases op with
      | acquire terms' =>
        cases ha
        rfl
      | release => cases ha
    · simp only [System.beginCall, Function.update_of_ne hj] at ha ⊢
      exact hd.calls j terms a ha hz
  reports := hd.reports

/-- A step of a call is judged by what it leaves of the evidence of its own thread. -/
theorem Unclocked.stepCall (hd : d.Unclocked) {c : Call} {reports : List Report}
    (hcalls : ∀ terms a, (c.step t d.system.lock).progress.next? = some (.acquire terms a) →
      terms.timeout.micros = 0 → Polling ev a)
    (hreports : ∀ r ∈ reports, r.terms.timeout.micros = 0 → r.evidence.start = none) :
    Unclocked ⟨d.system.stepCall t c, Function.update d.evidence t.me ev, reports⟩ where
  calls i terms a ha hz := by
    by_cases hi : i = t.me
    · subst hi
      simp only [System.stepCall, Function.update_self] at ha ⊢
      exact hcalls terms a ha hz
    · simp only [System.stepCall, Function.update_of_ne hi] at ha ⊢
      exact hd.calls i terms a ha hz
  reports := hreports

theorem Unclocked.stepAcquire (hd : d.Unclocked) {place : Acquire}
    (hc : d.system.calls t.me = some (.acquire terms place)) : (d.act (.step t)).Unclocked := by
  simp only [Docket.act, hc, System.act]
  refine hd.stepCall (fun terms' a ha hz => ?_) fun r hr hz => ?_
  · obtain ⟨a', he, hn⟩ := Call.next?_eq_acquire ha
    cases he
    exact ((hd.calls _ _ _ hc hz).step hz).of_next? hn
  · rcases List.mem_append.mp hr with hnew | hold
    · cases hp : (place.step terms t d.system.lock).progress with
      | done status =>
        rw [hp] at hnew
        rw [List.mem_singleton.mp hnew] at hz ⊢
        have hm := (hd.calls _ _ _ hc hz).step (t := t) (l := d.system.lock) hz
        rw [hp] at hm
        exact hm
      | going a => simp [hp, reportsOf] at hnew
      | unwound p => simp [hp, reportsOf] at hnew
    · exact hd.reports r hold hz

theorem Unclocked.act (hd : d.Unclocked) (a : Action) : (d.act a).Unclocked := by
  cases a with
  | begin i op =>
    cases hc : d.system.calls i with
    | none => simpa only [Docket.act, System.act, hc, if_true] using hd.begin i op
    | some c =>
      simp only [Docket.act, System.act, hc, reduceCtorEq, if_false]
      exact ⟨hd.calls, hd.reports⟩
  | rouse i => exact ⟨hd.calls, hd.reports⟩
  | interrupt => exact ⟨fun i terms a ha hz => (hd.calls i terms a ha hz).afterInterrupt, hd.reports⟩
  | step t =>
    cases hc : d.system.calls t.me with
    | none =>
      simp only [Docket.act, System.act, hc]
      exact ⟨hd.calls, hd.reports⟩
    | some c =>
      cases c with
      | acquire terms place => exact hd.stepAcquire hc
      | release r =>
        have h : Unclocked ⟨d.system.stepCall t (.release r),
            Function.update d.evidence t.me (d.evidence t.me), d.reports⟩ := by
          refine hd.stepCall (fun terms a ha => ?_) hd.reports
          obtain ⟨a', he, -⟩ := Call.next?_eq_acquire ha
          cases he
        rw [Function.update_eq_self] at h
        simpa only [Docket.act, hc, System.act] using h

theorem unclocked_run (backend : Backend) (acts : List Action) :
    ((start backend).run acts).Unclocked :=
  Run.lasts (P := Unclocked) (fun _ a hd => hd.act a) acts _ (unclocked_start backend)

theorem kept_run (backend : Backend) (acts : List Action) : Kept backend ((start backend).run acts) :=
  Run.lasts (P := Kept backend) (fun _ a hd => hd.act a) acts _ (kept_start backend)

end Docket

def Report.Waited (r : Report) (n : ℕ) : Prop :=
  ∃ start latest, r.evidence.start = some start ∧ r.evidence.latest = some latest ∧
    start.nanoseconds + n ≤ latest.nanoseconds

variable (d : Duration)

/-- A failure has waited what the timeout heeds, and one that heeds nothing has not waited. -/
theorem waited_of_failure (backend : Backend) (acts : List Action) :
    ∀ r ∈ ((Docket.start backend).run acts).reports, r.terms = .timed (.ofDuration d) →
      r.status = .failure →
        (d.nanoseconds < 1000 ∧ r.evidence.start = none) ∨
          (1000 ≤ d.nanoseconds ∧ r.Waited d.heeded) := by
  intro r hr hterms hstatus
  have hgrounds := (Docket.kept_run backend acts).reported r hr
  have hpoll := (Docket.unclocked_run backend acts).reports r hr
  rw [hterms] at hpoll hgrounds
  rw [hstatus] at hgrounds
  change (Timeout.ofDuration d).micros = 0 → r.evidence.start = none at hpoll
  by_cases hz : d.nanoseconds < 1000
  · exact .inl ⟨hz, hpoll ((Timeout.micros_ofDuration_eq_zero_iff d).mpr hz)⟩
  · right
    rcases hgrounds.2 with hzero | ⟨-, start, latest, hstart, hlatest, hle⟩
    · exact absurd ((Timeout.micros_ofDuration_eq_zero_iff d).mp hzero) hz
    · change start.nanoseconds + (Timeout.ofDuration d).micros.toNat * 1000 ≤ _ at hle
      rw [Timeout.toNat_micros_ofDuration] at hle
      exact ⟨by omega, start, latest, hstart, hlatest, hle⟩

structure Stands (k : Docket) (i : Ident) (terms : Terms) (a : Acquire) (l : ThreadLock)
    (ev : Evidence) : Prop where
  call : k.system.calls i = some (.acquire terms a)
  lock : k.system.lock = l
  evidence : k.evidence i = ev

variable {k : Docket} {a a' : Acquire} {l' : ThreadLock} {note : Option Metrics.Record}

theorem Stands.step (h : Stands k t.me terms a l ev)
    (hs : a.step terms t l = ⟨l', .going a', note⟩) :
    Stands (k.act (.step t)) t.me terms a' l' (ev.afterStep t l a) := by
  have hstep : a.step terms t k.system.lock = ⟨l', .going a', note⟩ := by rw [h.lock, hs]
  simp only [Docket.act, h.call, System.act]
  constructor
  · simp [System.stepCall, Call.step, hstep, Progress.within, Progress.next?]
  · simp [System.stepCall, Call.step, hstep]
  · simp [h.lock, h.evidence]

theorem Stands.last {status : LockStatus} (h : Stands k t.me terms a l ev)
    (hs : a.step terms t l = ⟨l', .done status, note⟩) :
    ⟨terms, status, ev.afterStep t l a⟩ ∈ (k.act (.step t)).reports := by
  simp [Docket.act, h.call, hs, Docket.reportsOf, h.lock, h.evidence]

/-- One thread has the lock from the beginning of time, and another one acquires it on its terms: it
takes `n` steps then and some more at a later time. -/
def contest (a b : Ident) (terms : Terms) (n : ℕ) (later : Instant) (more : ℕ) : List Action :=
  [.begin a (.acquire .polling), .step { me := a, now := ⟨0⟩ }, .step { me := a, now := ⟨0⟩ },
      .begin b (.acquire terms)] ++
    List.replicate n (.step { me := b, now := ⟨0⟩ }) ++
      List.replicate more (.step { me := b, now := later })

theorem stands_contest (terms : Terms) (later : Instant) :
    let b : Ident := ⟨2, by decide⟩
    Stands ((Docket.start .posix).run (contest .first b terms 0 later 0)) b terms .tryLock
      { locked := true, event := .new .posix } {} :=
  ⟨rfl, rfl, rfl⟩

theorem exists_poll (timeout : Timeout) (hz : timeout.micros = 0) :
    ∃ acts, ⟨.timed timeout, .failure, {}⟩ ∈ ((Docket.start .posix).run acts).reports := by
  have h := stands_contest (.timed timeout) ⟨0⟩
  have hfailed : Stands _ _ _ (.recordStatus .failure) { locked := true, event := .new .posix } _ :=
    h.step (t := { me := ⟨2, by decide⟩, now := ⟨0⟩ })
      (by simp [Acquire.step, Terms.timed, Timeout.isNonBlocking, hz]; rfl)
  exact ⟨contest .first ⟨2, by decide⟩ (.timed timeout) 2 ⟨0⟩ 0, hfailed.last rfl⟩

theorem deadlineFrom_zero (timeout : Timeout) (h : 0 < timeout.micros) :
    timeout.deadlineFrom ⟨0⟩ = some ⟨timeout.micros.toNat * 1000⟩ := by
  have hf : ¬ timeout.micros < 0 := by omega
  have hu := timeout.upper
  have hfits : timeout.micros.toNat * 1000 / 1000000000 ≤ Instant.lastSecond := by
    simp only [Instant.lastSecond]
    omega
  simp [Timeout.deadlineFrom, Timeout.duration?, Timeout.isInfinite, hf, Duration.ofMicros,
    Instant.add?, hfits]

/-- A waiter may find its time over as soon as its deadline is reached. -/
theorem exists_prompt_failure (timeout : Timeout) (h : 0 < timeout.micros) :
    ∃ acts, ⟨.timed timeout, .failure,
      { start := some ⟨0⟩, latest := some ⟨timeout.micros.toNat * 1000⟩ }⟩ ∈
        ((Docket.start .posix).run acts).reports := by
  have hz : timeout.micros ≠ 0 := by omega
  let deadline : Instant := ⟨timeout.micros.toNat * 1000⟩
  let span : Span := ⟨⟨0⟩, some deadline⟩
  let early : Turn := { me := ⟨2, by decide⟩, now := ⟨0⟩ }
  let late : Turn := { me := ⟨2, by decide⟩, now := deadline }
  have htry := stands_contest (.timed timeout) deadline
  have hclock : Stands _ _ _ .readClock { locked := true, event := .new .posix } _ :=
    htry.step (t := early) (by simp [Acquire.step, Terms.timed, Timeout.isNonBlocking, hz]; rfl)
  have henlist : Stands _ _ _ (.enlist span) _ _ := hclock.step (t := early)
    (by rw [Acquire.step, Terms.timed, deadlineFrom_zero timeout h])
  have hprepare := henlist.step (t := early) rfl
  have hretry := hprepare.step (t := early) rfl
  have hcheck := hretry.step (t := early) rfl
  have hover : deadline ≤ late.now := Nat.le_refl _
  have hunlist := hcheck.step (t := late) (if_pos hover)
  have hlocked := hunlist.step (t := late) rfl
  have hrecord := hlocked.step (t := late) rfl
  exact ⟨contest .first ⟨2, by decide⟩ (.timed timeout) 5 deadline 4, hrecord.last rfl⟩

def WaitedInFull (d : Duration) : Prop :=
  ∀ (backend : Backend) (acts : List Action), ∀ r ∈ ((Docket.start backend).run acts).reports,
    r.terms = .timed (.ofDuration d) → r.status = .failure → r.Waited d.nanoseconds

theorem waitedInFull_iff {d : Duration} (hd : 0 < d.nanoseconds) :
    WaitedInFull d ↔ d.heeded = d.nanoseconds := by
  constructor
  · intro h
    by_cases hz : (Timeout.ofDuration d).micros = 0
    · obtain ⟨acts, hr⟩ := exists_poll (.ofDuration d) hz
      obtain ⟨start, latest, hstart, -⟩ := h .posix acts _ hr rfl rfl
      cases hstart
    · have hpositive : 0 < (Timeout.ofDuration d).micros := by
        have hnonneg := Timeout.micros_ofDuration_nonneg d
        omega
      obtain ⟨acts, hr⟩ := exists_prompt_failure (.ofDuration d) hpositive
      obtain ⟨start, latest, hstart, hlatest, hle⟩ := h .posix acts _ hr rfl rfl
      cases hstart
      cases hlatest
      change 0 + d.nanoseconds ≤ (Timeout.ofDuration d).micros.toNat * 1000 at hle
      rw [Timeout.toNat_micros_ofDuration, Nat.zero_add] at hle
      exact Nat.le_antisymm d.heeded_le hle
  · intro h backend acts r hr hterms hstatus
    rcases waited_of_failure d backend acts r hr hterms hstatus with ⟨hshort, -⟩ | ⟨-, hwaited⟩
    · have hnone : d.heeded = 0 := by
        rw [← Timeout.toNat_micros_ofDuration, (Timeout.micros_ofDuration_eq_zero_iff d).mpr hshort]
        rfl
      omega
    · rw [← h]
      exact hwaited

/-- A wait of at least a microsecond is a wait on both backends, and one that fails has lasted for
all that the timeout heeds; of a shorter one nothing is waited. A positive duration is waited in
full just if it is a whole number of microseconds and not past the longest timeout. -/
theorem waits_heed_durations (d : Duration) (hd : 0 < d.nanoseconds) :
    ((Timeout.ofDuration d).isNonBlocking = true ↔ d.nanoseconds < 1000) ∧
    ((Timeout.ofDuration d).waitMillis = some 0 ↔ d.nanoseconds < 1000) ∧
    (∀ backend acts, ∀ r ∈ ((Docket.start backend).run acts).reports,
      r.terms = .timed (.ofDuration d) → r.status = .failure →
        (d.nanoseconds < 1000 ∧ r.evidence.start = none) ∨
          (1000 ≤ d.nanoseconds ∧ r.Waited d.heeded)) ∧
    (WaitedInFull d ↔ 1000 ∣ d.nanoseconds ∧ d.micros ≤ Timeout.maxMicros) :=
  ⟨Timeout.isNonBlocking_ofDuration_iff d, Timeout.waitMillis_ofDuration_eq_zero_iff d,
    waited_of_failure d, (waitedInFull_iff hd).trans d.heeded_eq_iff⟩

/-- Of a microsecond and a half, a microsecond is waited. -/
theorem waits_heed_durations_cut :
    let d : Duration := ⟨1500⟩
    0 < d.nanoseconds ∧ (Timeout.ofDuration d).isNonBlocking = false ∧ d.heeded = 1000 ∧
      ¬ WaitedInFull d := by
  intro d
  have hd : 0 < d.nanoseconds := by decide
  obtain ⟨hblocks, -, -, hfull⟩ := waits_heed_durations d hd
  refine ⟨hd, ?_, by decide, ?_⟩
  · rw [← Bool.not_eq_true, hblocks]
    decide
  · rw [hfull]
    decide

/-- Half a microsecond is not waited at all: the lock stays locked, no time passes, and the acquire
has failed. -/
theorem short_wait_polls :
    let d : Duration := ⟨500⟩
    let contested (backend : Backend) : Docket :=
      (Docket.start backend).run (contest .first ⟨2, by decide⟩ (.timed (.ofDuration d)) 2 ⟨0⟩ 0)
    0 < d.nanoseconds ∧ (Timeout.ofDuration d).isNonBlocking = true ∧
      (Timeout.ofDuration d).waitMillis = some 0 ∧
      ∀ backend ∈ [Backend.posix, .windows], (contested backend).system.lock.locked = true ∧
        ⟨.timed (.ofDuration d), .failure, {}⟩ ∈ (contested backend).reports := by
  decide

end ThreadLock

end InterpreterLock
