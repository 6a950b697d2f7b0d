import InterpreterLock.Proofs.Sums
import InterpreterLock.Proofs.ThreadLock.Milestones

/-!
# General locks are counted exactly

A lock is taken when it is unlocked and freed when it is locked, so it has been taken as often as
freed, and once more while it is locked. When no call is under way the acquisitions and the releases
are the calls that have ended so, and the metrics count the acquires by how they ended.
-/

set_option autoImplicit false

namespace InterpreterLock.ThreadLock

open Milestone (won ending)

variable {t : Turn} {l : ThreadLock}

namespace Rack

variable {r : Rack} {j : Job}

def part (μ : Milestone) (at? : ℕ → Bool) (o : Option Job) : ℕ :=
  (o.any fun j => μ.place j.call && at? j.lock).toNat

noncomputable def account (r : Rack) (μ : Milestone) (at? : ℕ → Bool) : ℕ :=
  r.ended.countP (fun e => μ.answer e.answer && at? e.lock) +
    Ident.total fun i => part μ at? (r.jobs i)

theorem total_update_jobs (f : Option Job → ℕ) (jobs : Ident → Option Job) (i : Ident)
    (o : Option Job) :
    (Ident.total fun k => f (Function.update jobs i o k)) + f (jobs i) =
      (Ident.total fun k => f (jobs k)) + f o := by
  have hf : (fun k => f (Function.update jobs i o k)) =
      Function.update (fun k => f (jobs k)) i (f o) := by
    ext k
    by_cases hk : k = i
    · simp [hk]
    · simp [hk]
  rw [hf]
  exact Ident.total_update _ i (f o)

/-- A step moves an account by what it moves for its call. -/
theorem account_stepJob (hj : r.jobs t.me = some j) (μ : Milestone) (at? : ℕ → Bool) :
    (r.stepJob t j l).account μ at? + (μ.place j.call && at? j.lock).toNat =
      r.account μ at? + (μ.met (j.call.step t l).progress && at? j.lock).toNat := by
  have hold : part μ at? (r.jobs t.me) = (μ.place j.call && at? j.lock).toNat := by
    simp [part, hj]
  simp only [account, stepJob]
  cases hp : (j.call.step t l).progress with
  | going c =>
    have ht := total_update_jobs (part μ at?) r.jobs t.me (some ⟨j.lock, c⟩)
    have hnew : part μ at? (some ⟨j.lock, c⟩) = (μ.place c && at? j.lock).toNat := rfl
    simp only [Progress.next?, Option.map_some, Milestone.met]
    omega
  | done answer =>
    have ht := total_update_jobs (part μ at?) r.jobs t.me none
    have hnew : part μ at? none = 0 := rfl
    simp only [Progress.next?, Option.map_none, Milestone.met, List.countP_cons]
    cases μ.answer answer && at? j.lock <;> simp <;> omega
  | unwound p =>
    have ht := total_update_jobs (part μ at?) r.jobs t.me none
    have hnew : part μ at? none = 0 := rfl
    simp only [Progress.next?, Option.map_none, Milestone.met, Bool.false_and, Bool.toNat_false]
    omega

theorem account_beginJob {i : Ident} (hi : r.jobs i = none) (μ : Milestone) (at? : ℕ → Bool) :
    (r.beginJob i j).account μ at? = r.account μ at? + (μ.place j.call && at? j.lock).toNat := by
  have ht := total_update_jobs (part μ at?) r.jobs i (some j)
  have hold : part μ at? (r.jobs i) = 0 := by simp [part, hi]
  have hnew : part μ at? (some j) = (μ.place j.call && at? j.lock).toNat := rfl
  simp only [account, beginJob]
  omega

def flags (r : Rack) : List Bool := r.locks.map (·.locked)

def statusCount (m : Metrics) : LockStatus → UInt64
  | .acquired => m.locks.acquired
  | .failure => m.locks.failures
  | .interrupted => m.locks.interrupts

def endedWith (r : Rack) (st : LockStatus) : ℕ := r.ended.countP fun e => e.answer = .inl st

structure Kept (r : Rack) : Prop where
  balance : ∀ k, r.taken.count k = r.freed.count k + (r.flags[k]?.getD false).toNat
  total : r.taken.length = r.freed.length + (r.flags.map Bool.toNat).sum
  taken : ∀ at?, r.taken.countP at? = r.account won at?
  freed : ∀ at?, r.freed.countP at? = r.account Milestone.freed at?
  begun : r.begun = r.account Milestone.begun fun _ => true
  status : ∀ st, statusCount r.metrics st = .ofNat (r.endedWith st)
  contentions : ∃ n, r.metrics.locks.contentions = .ofNat n ∧ n ≤ r.account ending fun _ => true

theorem account_start (backend : Backend) (μ : Milestone) (at? : ℕ → Bool) :
    (start backend).account μ at? = 0 := by
  have ht : (Ident.total fun i => part μ at? ((start backend).jobs i)) = 0 :=
    Ident.total_eq_zero fun _ => rfl
  rw [account, ht]
  rfl

theorem kept_start (backend : Backend) : (start backend).Kept where
  balance k := rfl
  total := rfl
  taken at? := (account_start backend won at?).symm
  freed at? := (account_start backend Milestone.freed at?).symm
  begun := (account_start backend Milestone.begun _).symm
  status st := by cases st <;> rfl
  contentions := ⟨0, rfl, Nat.zero_le _⟩

theorem flags_stepJob :
    (r.stepJob t j l).flags = r.flags.set j.lock (j.call.step t l).state.locked :=
  List.map_set ..

theorem flags_of_lock (hl : r.locks[j.lock]? = some l) : r.flags[j.lock]? = some l.locked := by
  simp [flags, hl]

theorem taken_stepJob (at? : ℕ → Bool) : (r.stepJob t j l).taken.countP at? =
    r.taken.countP at? + (j.call.takes l && at? j.lock).toNat := by
  simp only [stepJob]
  cases j.call.takes l <;> cases ha : at? j.lock <;> simp [ha]

theorem freed_stepJob (at? : ℕ → Bool) : (r.stepJob t j l).freed.countP at? =
    r.freed.countP at? + (j.call.frees l && at? j.lock).toNat := by
  simp only [stepJob]
  cases j.call.frees l <;> cases ha : at? j.lock <;> simp [ha]

theorem Kept.balance_stepJob (hr : r.Kept) (hl : r.locks[j.lock]? = some l) (k : ℕ) :
    (r.stepJob t j l).taken.count k =
      (r.stepJob t j l).freed.count k + ((r.stepJob t j l).flags[k]?.getD false).toNat := by
  have hb := hr.balance k
  have hs := j.call.step_locked (t := t) (l := l)
  have htk := taken_stepJob (r := r) (t := t) (l := l) (j := j) (· == k)
  have hfk := freed_stepJob (r := r) (t := t) (l := l) (j := j) (· == k)
  have hf := flags_of_lock hl
  simp only [List.count, flags_stepJob] at hb htk hfk ⊢
  by_cases hk : j.lock = k
  · subst hk
    have hset : (r.flags.set j.lock (j.call.step t l).state.locked)[j.lock]? =
        some (j.call.step t l).state.locked := by
      rw [List.getElem?_set_self']
      simp [hf]
    rw [hset]
    rw [hf] at hb
    simp only [beq_self_eq_true, Bool.and_true, Option.getD_some] at hb htk hfk ⊢
    omega
  · rw [List.getElem?_set_ne hk]
    have hne : (j.lock == k) = false := by simpa using hk
    simp only [hne, Bool.and_false, Bool.toNat_false, Nat.add_zero] at htk hfk
    omega

theorem Kept.total_stepJob (hr : r.Kept) (hl : r.locks[j.lock]? = some l) :
    (r.stepJob t j l).taken.length =
      (r.stepJob t j l).freed.length + ((r.stepJob t j l).flags.map Bool.toNat).sum := by
  have hb := hr.total
  have hs := j.call.step_locked (t := t) (l := l)
  have hset := sum_map_set Bool.toNat r.flags (j.call.step t l).state.locked (flags_of_lock hl)
  have htk := taken_stepJob (r := r) (t := t) (l := l) (j := j) fun _ => true
  have hfk := freed_stepJob (r := r) (t := t) (l := l) (j := j) fun _ => true
  simp only [List.countP_true, Bool.and_true] at htk hfk
  rw [flags_stepJob]
  omega

theorem Kept.taken_stepJob (hr : r.Kept) (hj : r.jobs t.me = some j) (at? : ℕ → Bool) :
    (r.stepJob t j l).taken.countP at? = (r.stepJob t j l).account won at? := by
  have ha := account_stepJob (l := l) hj won at?
  have hm := won_met_toNat (t := t) (l := l) j.call
  have htk := Rack.taken_stepJob (r := r) (t := t) (l := l) (j := j) at?
  have hr' := hr.taken at?
  cases hk : at? j.lock
  · simp only [hk, Bool.and_false, Bool.toNat_false] at ha htk
    omega
  · simp only [hk, Bool.and_true] at ha htk
    omega

theorem Kept.freed_stepJob (hr : r.Kept) (hj : r.jobs t.me = some j) (at? : ℕ → Bool) :
    (r.stepJob t j l).freed.countP at? = (r.stepJob t j l).account Milestone.freed at? := by
  have ha := account_stepJob (l := l) hj Milestone.freed at?
  have hm := freed_met_toNat (t := t) (l := l) j.call
  have hfk := Rack.freed_stepJob (r := r) (t := t) (l := l) (j := j) at?
  have hr' := hr.freed at?
  cases hk : at? j.lock
  · simp only [hk, Bool.and_false, Bool.toNat_false] at ha hfk
    omega
  · simp only [hk, Bool.and_true] at ha hfk
    omega

theorem Kept.begun_stepJob (hr : r.Kept) (hj : r.jobs t.me = some j) :
    r.begun = (r.stepJob t j l).account Milestone.begun fun _ => true := by
  have ha := account_stepJob (l := l) hj Milestone.begun fun _ => true
  rw [begun_met] at ha
  have hp : Milestone.begun.place j.call = true := rfl
  rw [hp] at ha
  have hb := hr.begun
  omega

theorem endedWith_stepJob (st : LockStatus) : (r.stepJob t j l).endedWith st =
    r.endedWith st + ((Milestone.status st).met (j.call.step t l).progress).toNat := by
  simp only [endedWith, stepJob, Milestone.met, Milestone.status]
  cases (j.call.step t l).progress with
  | done answer =>
    simp only [List.countP_cons]
    cases decide (answer = .inl st) <;> rfl
  | _ => rfl

theorem statusCount_of_contends {n : Option Metrics.Record} {b b' : Bool} (h : Contends n b b')
    (m : Metrics) (st : LockStatus) : statusCount (m.recordOpt n) st = statusCount m st := by
  cases h <;> cases st <;> rfl

theorem statusCount_noteOf (m : Metrics) (answer : LockStatus ⊕ Bool) (st : LockStatus) :
    statusCount (m.recordOpt (noteOf answer)) st =
      statusCount m st + .ofNat (decide (answer = .inl st)).toNat := by
  cases answer with
  | inl s => cases s <;> cases st <;> simp [noteOf, statusCount, Metrics.recordOpt, Metrics.record]
  | inr b => cases st <;> simp [noteOf, statusCount, Metrics.recordOpt]

/-- The metrics count a call by the status it ends with, in the step that ends it. -/
theorem Kept.status_stepJob (hr : r.Kept) (st : LockStatus) :
    statusCount (r.stepJob t j l).metrics st = .ofNat ((r.stepJob t j l).endedWith st) := by
  have hn := j.call.step_note (t := t) (l := l)
  have hm : (r.stepJob t j l).metrics = r.metrics.recordOpt (j.call.step t l).note := rfl
  rw [hm, endedWith_stepJob, UInt64.ofNat_add, ← hr.status st]
  cases hp : (j.call.step t l).progress with
  | going c =>
    rw [hp] at hn
    rw [statusCount_of_contends hn]
    exact (UInt64.add_zero _).symm
  | done answer =>
    rw [hp] at hn
    rw [hn.1, statusCount_noteOf]
    rfl
  | unwound p =>
    rw [hp] at hn
    exact hn.elim

theorem contentions_of_contends {n : Option Metrics.Record} {b b' : Bool} (h : Contends n b b')
    (m : Metrics) : ∃ d : ℕ, (m.recordOpt n).locks.contentions = m.locks.contentions + .ofNat d ∧
      b.toNat + d ≤ b'.toNat := by
  cases h with
  | nothing h =>
    refine ⟨0, (UInt64.add_zero _).symm, ?_⟩
    cases b with
    | false => exact Nat.zero_le _
    | true =>
      rw [h rfl]
      exact Nat.le_refl _
  | contention d => exact ⟨1, rfl, Nat.le_refl _⟩

/-- A contended acquisition is counted before its call ends as acquired. -/
theorem Kept.contentions_stepJob (hr : r.Kept) (hj : r.jobs t.me = some j) :
    ∃ n, (r.stepJob t j l).metrics.locks.contentions = .ofNat n ∧
      n ≤ (r.stepJob t j l).account ending fun _ => true := by
  obtain ⟨n, hc, hle⟩ := hr.contentions
  have ha := account_stepJob (l := l) hj ending fun _ => true
  simp only [Bool.and_true] at ha
  have hn := j.call.step_note (t := t) (l := l)
  have hm : (r.stepJob t j l).metrics = r.metrics.recordOpt (j.call.step t l).note := rfl
  rw [hm]
  cases hp : (j.call.step t l).progress with
  | going c =>
    rw [hp] at hn ha
    have hmet : ending.met (.going c) = ending.place c := rfl
    obtain ⟨d, hd, hb⟩ := contentions_of_contends hn r.metrics
    rw [hmet] at ha
    refine ⟨n + d, ?_, by omega⟩
    rw [hd, hc, UInt64.ofNat_add]
  | done answer =>
    rw [hp] at hn ha
    refine ⟨n, ?_, ?_⟩
    · rw [hn.1, ← hc]
      cases answer with
      | inl s => cases s <;> rfl
      | inr b => rfl
    · cases ho : ending.place j.call with
      | false =>
        rw [ho, Bool.toNat_false] at ha
        omega
      | true =>
        have hmet : ending.met (.done answer) = true := by
          rw [hn.2 ho]
          rfl
        rw [ho, hmet] at ha
        omega
  | unwound p =>
    rw [hp] at hn
    exact hn.elim

theorem Kept.stepJob (hr : r.Kept) (hj : r.jobs t.me = some j) (hl : r.locks[j.lock]? = some l) :
    (r.stepJob t j l).Kept where
  balance := hr.balance_stepJob hl
  total := hr.total_stepJob hl
  taken := hr.taken_stepJob hj
  freed := hr.freed_stepJob hj
  begun := hr.begun_stepJob hj
  status := hr.status_stepJob
  contentions := hr.contentions_stepJob hj

theorem Kept.beginJob (hr : r.Kept) {i : Ident} (hi : r.jobs i = none) (k : ℕ) (use : Use) :
    (r.beginJob i ⟨k, use.call⟩).Kept := by
  have hnew : ∀ μ at?, μ.place use.call = false →
      (r.beginJob i ⟨k, use.call⟩).account μ at? = r.account μ at? := by
    intro μ at? hμ
    rw [account_beginJob hi, hμ]
    rfl
  have hwon : won.place use.call = false := by cases use <;> rfl
  have hfreed : Milestone.freed.place use.call = false := by cases use <;> rfl
  have hending : ending.place use.call = false := by cases use <;> rfl
  constructor
  · exact hr.balance
  · exact hr.total
  · intro at?
    rw [hnew won at? hwon]
    exact hr.taken at?
  · intro at?
    rw [hnew Milestone.freed at? hfreed]
    exact hr.freed at?
  · rw [account_beginJob hi, ← hr.begun]
    rfl
  · exact hr.status
  · rw [hnew ending _ hending]
    exact hr.contentions

/-- Of the locks themselves, only which of them are locked matters. -/
theorem Kept.frame (hr : r.Kept) {locks : List ThreadLock}
    (hg : ∀ k : ℕ, (flags { r with locks })[k]?.getD false = r.flags[k]?.getD false)
    (hs : ((flags { r with locks }).map Bool.toNat).sum = (r.flags.map Bool.toNat).sum) :
    Kept { r with locks } where
  balance k := by
    rw [hg k]
    exact hr.balance k
  total := by
    rw [hs]
    exact hr.total
  taken := hr.taken
  freed := hr.freed
  begun := hr.begun
  status := hr.status
  contentions := hr.contentions

theorem flags_modify (r : Rack) (k : ℕ) {f : ThreadLock → ThreadLock}
    (hf : ∀ l, (f l).locked = l.locked) :
    flags { r with locks := r.locks.modify k f } = r.flags := by
  ext1 n
  rw [flags, flags, List.getElem?_map, List.getElem?_map, List.getElem?_modify]
  cases r.locks[n]? with
  | none => rfl
  | some l => by_cases hk : k = n <;> simp [hk, hf]

theorem Kept.act (hr : r.Kept) (a : Action) : (r.act a).Kept := by
  cases a with
  | allocate =>
    have hf : flags { r with locks := r.locks ++ [.new r.backend] } = r.flags ++ [false] := by
      simp [flags, ThreadLock.new]
    apply hr.frame
    · intro k
      rw [hf, List.getElem?_append]
      split
      · rfl
      · rename_i hk
        rw [List.getElem?_eq_none (Nat.le_of_not_lt hk)]
        cases k - r.flags.length <;> rfl
    · rw [hf]
      simp
  | begin i k use =>
    simp only [Rack.act]
    split
    · exact hr.beginJob ‹_› k use
    · exact hr
  | step t =>
    cases hj : r.jobs t.me with
    | none =>
      simp only [Rack.act, hj]
      exact hr
    | some j =>
      cases hl : r.locks[j.lock]? with
      | none =>
        simp only [Rack.act, hj, hl]
        exact hr
      | some l =>
        simp only [Rack.act, hj, hl]
        exact hr.stepJob hj hl
  | interrupt k =>
    have hf := flags_modify r k (f := interrupt) fun _ => rfl
    exact hr.frame (fun _ => by rw [hf]) (by rw [hf])
  | rouse i k =>
    have hf := flags_modify r k (f := fun l => { l with event := l.event.rouse i }) fun _ => rfl
    exact hr.frame (fun _ => by rw [hf]) (by rw [hf])

theorem kept_run (backend : Backend) (acts : List Action) : ((start backend).run acts).Kept :=
  Run.lasts (P := Kept) (fun _ a hr => hr.act a) acts _ (kept_start backend)

def released (r : Rack) : ℕ := r.ended.countP fun e => e.answer = .inr true

structure Settled (r : Rack) : Prop where
  acquired : r.metrics.locks.acquired.toNat = r.endedWith .acquired
  failures : r.metrics.locks.failures.toNat = r.endedWith .failure
  interrupts : r.metrics.locks.interrupts.toNat = r.endedWith .interrupted
  contentions : r.metrics.locks.contentions ≤ r.metrics.locks.acquired
  locked : (r.metrics.locks.acquired.toNat : ℤ) - r.released = r.locks.countP (·.locked)

structure Exact (r : Rack) : Prop where
  balance : ∀ k l, r.locks[k]? = some l →
    (r.taken.count k : ℤ) - r.freed.count k = if l.locked then 1 else 0
  answered : ∀ k, (∀ i j, r.jobs i = some j → j.lock ≠ k) →
    r.taken.count k = r.ended.countP (fun e => e.answer = .inl .acquired && e.lock == k) ∧
      r.freed.count k = r.ended.countP (fun e => e.answer = .inr true && e.lock == k)
  refuses : ∀ t k place l, r.jobs t.me = some ⟨k, .release place⟩ → r.locks[k]? = some l →
    (((Call.release place).step t l).progress = .done (.inr false) ↔
      place = .unlock ∧ r.taken.count k = r.freed.count k)
  refused : ∀ t k, r.jobs t.me = some ⟨k, .release .unlock⟩ → k < r.locks.length →
    r.taken.count k = r.freed.count k →
    r.act (.step t) =
      { r with
        jobs := Function.update r.jobs t.me none
        ended := ⟨k, .inr false⟩ :: r.ended }
  settled : (∀ i, r.jobs i = none) → r.begun < 2 ^ 64 → r.Settled

theorem won_answer (answer : LockStatus ⊕ Bool) :
    won.answer answer = decide (answer = .inl .acquired) := by
  cases answer with
  | inl status => cases status <;> rfl
  | inr b => rfl

theorem freed_answer (answer : LockStatus ⊕ Bool) :
    Milestone.freed.answer answer = decide (answer = .inr true) := by
  cases answer with
  | inl status => rfl
  | inr b => cases b <;> rfl

/-- Where no call is under way an account is of the calls that have ended. -/
theorem account_of_apart {μ : Milestone} {at? : ℕ → Bool}
    (h : ∀ i j, r.jobs i = some j → at? j.lock = false) :
    r.account μ at? = r.ended.countP fun e => μ.answer e.answer && at? e.lock := by
  have ht : (Ident.total fun i => part μ at? (r.jobs i)) = 0 := by
    apply Ident.total_eq_zero
    intro i
    cases hi : r.jobs i with
    | none => rfl
    | some j => simp [part, h i j hi]
  rw [account, ht, Nat.add_zero]

theorem Kept.locked_iff (hr : r.Kept) {k : ℕ} (hl : r.locks[k]? = some l) :
    l.locked = false ↔ r.taken.count k = r.freed.count k := by
  have hb := hr.balance k
  rw [flags_of_lock (j := ⟨k, .release .unlock⟩) hl, Option.getD_some] at hb
  cases hlk : l.locked <;> simp [hlk] at hb ⊢ <;> omega

theorem Kept.settled (hr : r.Kept) (hq : ∀ i, r.jobs i = none) (hb : r.begun < 2 ^ 64) :
    r.Settled := by
  have hapart : ∀ μ (at? : ℕ → Bool),
      r.account μ at? = r.ended.countP fun e => μ.answer e.answer && at? e.lock :=
    fun μ at? => account_of_apart fun i j hi => by simp [hq i] at hi
  have hlen : r.begun = r.ended.length := by
    rw [hr.begun, hapart]
    exact congrFun List.countP_true r.ended
  have hst : ∀ st, (statusCount r.metrics st).toNat = r.endedWith st := by
    intro st
    have hle : r.endedWith st ≤ r.ended.length := List.countP_le_length
    rw [hr.status st]
    rw [UInt64.toNat_ofNat', Nat.mod_eq_of_lt (by omega)]
  have hwon : r.account won (fun _ => true) = r.endedWith .acquired := by
    rw [hapart, endedWith]
    simp only [won_answer, Bool.and_true]
  have hending : r.account ending (fun _ => true) = r.endedWith .acquired := by
    rw [← hwon, hapart, hapart]
    rfl
  have hfreed : r.account Milestone.freed (fun _ => true) = r.released := by
    rw [hapart, released]
    simp only [freed_answer, Bool.and_true]
  have hacq : r.metrics.locks.acquired.toNat = r.endedWith .acquired := hst .acquired
  refine ⟨hacq, hst .failure, hst .interrupted, ?_, ?_⟩
  · obtain ⟨n, hn, hle⟩ := hr.contentions
    rw [UInt64.le_iff_toNat_le, hn, hacq]
    have hmod : (UInt64.ofNat n).toNat ≤ n := by
      rw [UInt64.toNat_ofNat']
      exact Nat.mod_le _ _
    omega
  · have htaken := hr.taken fun _ => true
    have hfr := hr.freed fun _ => true
    rw [List.countP_true] at htaken hfr
    have htotal := hr.total
    have hsum : (r.flags.map Bool.toNat).sum = r.locks.countP (·.locked) := by
      rw [flags, List.map_map]
      exact sum_map_toNat _ _
    omega

/-- A release of an unlocked lock ends there, and changes nothing. -/
theorem Kept.refused (hr : r.Kept) {k : ℕ} (hj : r.jobs t.me = some ⟨k, .release .unlock⟩)
    (hl : r.locks[k]? = some l) (he : r.taken.count k = r.freed.count k) :
    r.act (.step t) =
      { r with
        jobs := Function.update r.jobs t.me none
        ended := ⟨k, .inr false⟩ :: r.ended } := by
  have hu : l.locked = false := (hr.locked_iff hl).mpr he
  have hm : (Call.release .unlock).step t l = ⟨l, .done (.inr false), none⟩ := by
    simp [Call.step, Release.step, hu, Progress.within]
  have hset : r.locks.set k l = r.locks := by
    obtain ⟨hk, hlk⟩ := List.getElem?_eq_some_iff.mp hl
    rw [← hlk]
    exact List.set_getElem_self hk
  have hact : r.act (.step t) = r.stepJob t ⟨k, .release .unlock⟩ l := by simp [Rack.act, hj, hl]
  rw [hact]
  simp [Rack.stepJob, hm, hset, Call.takes, Call.frees, Release.frees, hu, Metrics.recordOpt,
    Progress.next?]

theorem Kept.refuses_iff (hr : r.Kept) {k : ℕ} {place : Release} (hl : r.locks[k]? = some l) :
    ((Call.release place).step t l).progress = .done (.inr false) ↔
      place = .unlock ∧ r.taken.count k = r.freed.count k := by
  rw [← hr.locked_iff hl]
  cases place with
  | unlock => cases hu : l.locked <;> simp [Call.step, Release.step, hu, Progress.within]
  | lookForWaiters =>
    by_cases hw : l.waiters = 0 <;> simp [Call.step, Release.step, hw, Progress.within]
  | signal => simp [Call.step, Release.step, Progress.within]

theorem Kept.exact (hr : r.Kept) : r.Exact where
  balance k l hl := by
    have hb := hr.balance k
    rw [flags_of_lock (j := ⟨k, .release .unlock⟩) hl, Option.getD_some] at hb
    cases hlk : l.locked <;> simp [hlk] at hb ⊢ <;> omega
  answered k hq := by
    have hapart : ∀ i j, r.jobs i = some j → (j.lock == k) = false :=
      fun i j hi => by simpa using hq i j hi
    have ht := hr.taken (· == k)
    have hf := hr.freed (· == k)
    rw [account_of_apart hapart] at ht hf
    simp only [won_answer] at ht
    simp only [freed_answer] at hf
    exact ⟨ht, hf⟩
  refuses t k place l _ hl := hr.refuses_iff hl
  refused t k hj hk he := hr.refused hj (List.getElem?_eq_getElem hk) he
  settled := hr.settled

/-- Any number of locks and of threads, in any interleaving of their steps. -/
theorem locks_exact_run (backend : Backend) (acts : List Action) :
    ((start backend).run acts).Exact :=
  (kept_run backend acts).exact

def Action.beginner? : Action → Option Ident
  | .begin i _ _ => some i
  | _ => none

theorem jobs_act_eq_none {i : Ident} (a : Action) (ha : a.beginner? ≠ some i)
    (hi : r.jobs i = none) : (r.act a).jobs i = none := by
  cases a with
  | begin n k use =>
    have hn : i ≠ n := fun h => ha (congrArg some h.symm)
    simp only [Rack.act]
    split
    · simp [beginJob, hn, hi]
    · exact hi
  | step t =>
    cases hj : r.jobs t.me with
    | none => simp [Rack.act, hj, hi]
    | some j =>
      have ht : i ≠ t.me := by
        rintro rfl
        rw [hi] at hj
        cases hj
      cases hl : r.locks[j.lock]? <;> simp [Rack.act, hj, hl, stepJob, ht, hi]
  | _ => exact hi

/-- A thread that begins no call is in none. -/
theorem jobs_run_eq_none {i : Ident} (acts : List Action)
    (ha : i ∉ acts.filterMap Action.beginner?) (hi : r.jobs i = none) :
    (r.run acts).jobs i = none :=
  Run.spares (P := fun r => r.jobs i = none) (fun _ a hr hb => jobs_act_eq_none a hb hr) acts r hi ha

/-- Acquires that are interrupted, refused and contended, a guard that is dropped over the lock of
another thread, which is refused then, and a second lock that stays locked. -/
theorem locks_exact_run_mixed :
    let a : Ident := ⟨1, by decide⟩
    let b : Ident := ⟨2, by decide⟩
    let steps i n : List Action := List.replicate n (.step { me := i, now := ⟨0⟩ })
    let acts := .allocate :: .allocate :: .begin a 0 .guard :: steps a 2 ++
      .begin b 0 (.acquire (.timed .infinite)) :: steps b 8 ++ .interrupt 0 :: steps b 5 ++
      .begin b 0 (.acquire .polling) :: steps b 2 ++
      .begin b 0 (.acquire .blocking) :: steps b 8 ++ .begin a 0 .release :: steps a 3 ++
      steps b 7 ++ .begin a 0 .drop :: steps a 2 ++ .begin b 0 .release :: steps b 1 ++
      .begin b 1 .guard :: steps b 2
    let r := (start .posix).run acts
    (∀ i, r.jobs i = none) ∧ r.begun < 2 ^ 64 ∧ r.Exact ∧ r.Settled ∧
      r.endedWith .acquired = 3 ∧ r.endedWith .failure = 1 ∧ r.endedWith .interrupted = 1 ∧
      r.metrics.locks.contentions = 1 ∧ r.released = 2 := by
  intro a b steps acts
  have hq : ∀ i, ((start .posix).run acts).jobs i = none := by
    intro i
    by_cases hia : i = a
    · rw [hia]
      decide +kernel
    by_cases hib : i = b
    · rw [hib]
      decide +kernel
    have hb : acts.filterMap Action.beginner? = [a, b, b, b, a, a, b, b] := by decide
    have hi : i ∉ acts.filterMap Action.beginner? := by simp [hb, hia, hib]
    exact jobs_run_eq_none acts hi rfl
  have hn : ((start .posix).run acts).begun < 2 ^ 64 := by decide +kernel
  have he := locks_exact_run .posix acts
  exact ⟨hq, hn, he, he.settled hq hn, by decide +kernel, by decide +kernel, by decide +kernel,
    by decide +kernel, by decide +kernel⟩

end Rack

end InterpreterLock.ThreadLock
