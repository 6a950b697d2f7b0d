import InterpreterLock.Proofs.Bootstrap.Spawning

/-!
# Conservation of slots

As long as there was no reset, every slot that was ever reserved is held by a spawn or by a thread,
or was given back once. The count is never taken below zero, the limit holds for it and for the
threads that are registered, and the counters of threads agree with what has happened.
-/

set_option autoImplicit false

namespace InterpreterLock

namespace Bootstrap

namespace Ledger

structure Whole (slots : ℕ → ℕ) (l : Ledger) : Prop where
  resets : l.resets = 0
  stolen : l.stolen = 0
  passed : l.passed = slots 0 + l.returned + l.dropped

variable {limit : Option ℕ} {live live' : ℕ} {slots slots' : ℕ → ℕ} {l : Ledger}

/-- A slot that comes back is one of those there are. -/
theorem Whole.takeBack (h : l.Whole slots) (hf : l.Fits limit live slots) {era : ℕ}
    (hs : ∀ e, slots e = slots' e + if era = e then 1 else 0) :
    (l.takeBack live era).stolen = 0 ∧ slots 0 = slots' 0 + 1 := by
  have hera : era = 0 := by
    by_contra hne
    have hnone := hf.past era (by rw [h.resets]; exact Nat.pos_of_ne_zero hne)
    have hone := hs era
    simp only [if_true] at hone
    omega
  have hnow := hs 0
  rw [if_pos hera] at hnow
  refine ⟨?_, hnow⟩
  rw [Ledger.takeBack, if_pos (hera.trans h.resets.symm)]
  exact h.stolen

theorem takeBack_totals (l : Ledger) (live era : ℕ) :
    (l.takeBack live era).passed = l.passed ∧ (l.takeBack live era).returned = l.returned ∧
      (l.takeBack live era).dropped = l.dropped := by
  unfold takeBack
  split <;> exact ⟨rfl, rfl, rfl⟩

theorem Whole.enter (h : l.Whole slots) (hf : l.Fits limit live slots) {m : Mark}
    (hm : (l.enter live m).resets = 0) (hb : m.Books limit l.resets live live' slots slots') :
    (l.enter live m).Whole slots' := by
  have hpassed := h.passed
  cases m with
  | still =>
    obtain ⟨-, hs⟩ := hb
    rwa [show slots' = slots from funext hs]
  | reserved =>
    obtain ⟨-, -, hs⟩ := hb
    refine ⟨hm, h.stolen, ?_⟩
    have hnow := hs 0
    rw [if_pos h.resets] at hnow
    simp only [Ledger.enter]
    omega
  | returned era =>
    obtain ⟨-, hs⟩ := hb
    obtain ⟨hstolen, hone⟩ := h.takeBack hf hs
    obtain ⟨h1, h2, h3⟩ := l.takeBack_totals live era
    refine ⟨hm, hstolen, ?_⟩
    simp only [Ledger.enter, h1, h3]
    omega
  | dropped era =>
    obtain ⟨-, hs⟩ := hb
    obtain ⟨hstolen, hone⟩ := h.takeBack hf hs
    obtain ⟨h1, h2, h3⟩ := l.takeBack_totals live era
    refine ⟨hm, hstolen, ?_⟩
    simp only [Ledger.enter, h1, h2]
    omega
  | reset => cases hm

theorem resets_le_enter (l : Ledger) (live : ℕ) (m : Mark) :
    l.resets ≤ (l.enter live m).resets := by
  cases m with
  | returned era | dropped era => exact (l.takeBack_resets live era).ge
  | reset => exact Nat.le_succ _
  | _ => exact Nat.le_refl _

end Ledger

def Stage.begun : Stage → ℕ
  | .plain => 0
  | _ => 1

def Stage.ended : Stage → ℕ
  | .gone => 1
  | _ => 0

def Stage.registered : Stage → ℕ
  | .wrapper _ .entry | .wrapper _ (.deregister _) => 1
  | _ => 0

def Activity.recording : Activity → ℕ
  | .spawn _ (.recordSpawned _) _ => 1
  | _ => 0

def Answer.succeeds (a : Answer) : Bool :=
  match a.result with
  | .ok (.ok _) => true
  | _ => false

def Answer.fails (a : Answer) : Bool :=
  match a.result with
  | .ok (.error _) => true
  | _ => false

/-- Whatever is not a success has given back what it reserved. -/
theorem Answer.Accords.returned_eq {limit : Option ℕ} {a : Answer} (ha : a.Accords limit)
    (hs : a.succeeds = false) : a.course.returned = a.course.reserved := by
  obtain ⟨r, result⟩ := a
  match result, ha with
  | .ok (.ok i), _ => cases hs
  | .error p, ha => exact ha.2.2.trans ha.2.1.symm
  | .ok (.error (.limitReached l)), ha => exact ha.2.2.2.trans ha.2.2.1.symm
  | .ok (.error (.refused reason)), ha => exact ha.2.2.trans ha.2.1.symm
  | .ok (.error (.badStackSize ..)), ha => exact False.elim ha
  | .ok (.error .notLocked), ha => exact False.elim ha

def Deed.registers : Deed → Bool
  | .wrapper (.register _) => true
  | _ => false

def Deed.deregisters : Deed → Bool
  | .wrapper (.deregister _) => true
  | _ => false

structure Change.Counted (s : System) (w : Worker) (ch : Change) : Prop where
  spawned : ch.interpreter.metrics.threads.spawned =
    s.interpreter.metrics.threads.spawned + .ofNat (ch.answer.toList.countP Answer.succeeds)
  failures : ch.interpreter.metrics.threads.spawnFailures =
    s.interpreter.metrics.threads.spawnFailures + .ofNat (ch.answer.toList.countP Answer.fails)
  exited : ch.interpreter.metrics.threads.exited + .ofNat w.stage.ended =
    s.interpreter.metrics.threads.exited + .ofNat (ch.tally fun v => v.stage.ended)
  begun : (ch.tally fun v => v.stage.begun) + w.doing.recording =
    w.stage.begun + ch.answer.toList.countP Answer.succeeds + ch.tally fun v => v.doing.recording
  registered : s.attached = true →
    ch.deed.toList.countP Deed.registers + w.stage.registered =
      (ch.tally fun v => v.stage.registered) + ch.deed.toList.countP Deed.deregisters

section

variable {s : System} {w : Worker} {ch : Change}

/-- A change of the thread's own that is no answer and starts no thread. -/
theorem counted_own (ht : ch.interpreter.metrics.threads = s.interpreter.metrics.threads)
    (ha : ch.answer = none) (hst : ch.started = none) (hw : ch.worker.stage = w.stage)
    (hd : ch.worker.doing.recording = w.doing.recording)
    (hdeed : ∃ c, ch.deed = some (.own c)) : ch.Counted s w := by
  obtain ⟨c, hc⟩ := hdeed
  constructor <;>
    simp [ht, ha, hst, hw, hd, hc, Change.tally, Deed.registers, Deed.deregisters]

theorem counted_spawn {host : Host} {name : Option String} {c : Spawn} {r : Course}
    (hd : w.doing = .spawn name c r) (h : Spawns s w host name c r ch) : ch.Counted s w := by
  cases h with
  | launch i _ hn he =>
    constructor <;>
      simp [hd, Activity.recording, System.onward, System.still, Change.tally, Stage.begun,
        Stage.ended, Stage.registered, System.ownDeed, Deed.registers, Deed.deregisters]
  | unwind p | recordFailure e | recordSpawned i =>
    -- each of these is an answer
    constructor <;>
      simp [hd, Activity.recording, System.answered, System.still, Change.tally, Metrics.recordOpt,
        Metrics.record, Answer.succeeds, Answer.fails, System.ownDeed, Deed.registers,
        Deed.deregisters]
  | _ => exact counted_own rfl rfl rfl rfl (by rw [hd]; rfl) ⟨_, rfl⟩

theorem counted_wrapper {era : ℕ} {c : Wrapper} (hs : w.stage = .wrapper era c)
    (hc : c ≠ .entry) : (s.stepWrapper w era c).Counted s w := by
  cases c with
  | entry => exact absurd rfl hc
  | _ =>
    constructor <;>
      simp +contextual [hs, System.stepWrapper, System.still, Change.tally, Wrapper.step,
        Wrapper.deed?, Wrapper.hook?, Progress.next?, Stage.ofWrapper, Stage.begun, Stage.ended,
        Stage.registered, Metrics.recordOpt, Metrics.record, Deed.registers, Deed.deregisters]

theorem Changes.counted (h : Changes s w ch) : ch.Counted s w := by
  cases h with
  | begin a ho hd ha =>
    refine counted_own rfl rfl rfl rfl ?_ ⟨_, rfl⟩
    cases ha <;> simp [System.doing, System.still, hd, Activity.recording]
  | hook c => exact counted_own rfl rfl rfl rfl rfl ⟨_, rfl⟩
  | resize size => exact counted_own rfl rfl rfl rfl rfl ⟨_, rfl⟩
  | reset => exact counted_own rfl rfl rfl rfl rfl ⟨_, rfl⟩
  | call t c ho ht hd =>
    refine counted_own c.step_threads rfl rfl rfl ?_ ⟨_, rfl⟩
    rw [hd]
    simp only [System.stepCall, System.still]
    cases (c.step t s.interpreter).2.next? <;> rfl
  | spawn host name c r ch ho hd h => exact counted_spawn hd h
  | endEntry era ending hs hd =>
    constructor <;>
      simp [System.endEntry, System.still, Change.tally, hs, Stage.begun, Stage.ended,
        Stage.registered]
  | wrapper era c hs hc => exact counted_wrapper hs hc

end

namespace System

def registered (s : System) : ℕ := s.tally fun w => w.stage.registered

structure Tallied (s : System) : Prop where
  spawned : s.interpreter.metrics.threads.spawned = .ofNat (s.answers.countP Answer.succeeds)
  failures : s.interpreter.metrics.threads.spawnFailures = .ofNat (s.answers.countP Answer.fails)
  exited : s.interpreter.metrics.threads.exited = .ofNat (s.tally fun w => w.stage.ended)
  begun : (s.tally fun w => w.stage.begun) =
    s.answers.countP Answer.succeeds + s.tally fun w => w.doing.recording
  registered : s.attached = true →
    (s.deeds.countP fun d => d.2.registers) =
      s.registered + s.deeds.countP fun d => d.2.deregisters

variable {limit : Option ℕ} {s s' : System} {w : Worker} {ch : Change} {n : ℕ}

theorem countP_deeds_commit (f : Deed → Bool) :
    ((s.commit n ch).deeds.countP fun d => f d.2) =
      ch.deed.toList.countP f + s.deeds.countP fun d => f d.2 := by
  rw [commit, List.countP_append]
  cases ch.deed with
  | none => rfl
  | some d => rfl

theorem Tallied.act (hs : s.Tallied) (h : Acts s s') : s'.Tallied := by
  cases h with
  | still => exact hs
  | rouse i => exact ⟨hs.spawned, hs.failures, hs.exited, hs.begun, hs.registered⟩
  | arrive i =>
    refine ⟨hs.spawned, hs.failures, ?_, ?_, fun ha => ?_⟩
    · rw [tally_arrive]
      exact hs.exited
    · rw [tally_arrive, tally_arrive]
      exact hs.begun
    · have hsame : System.registered { s with workers := s.workers ++ [{ ident := i }] } =
          s.registered := tally_arrive ..
      rw [hsame]
      exact hs.registered ha
  | change n w ch hn h =>
    have hc := h.counted
    have hanswers : (s.commit n ch).answers = ch.answer.toList ++ s.answers := rfl
    constructor
    · rw [hanswers, List.countP_append, UInt64.ofNat_add, ← hs.spawned, UInt64.add_comm]
      exact hc.spawned
    · rw [hanswers, List.countP_append, UInt64.ofNat_add, ← hs.failures, UInt64.add_comm]
      exact hc.failures
    · have hended : ((s.commit n ch).tally fun v => v.stage.ended) + w.stage.ended =
          (s.tally fun v => v.stage.ended) + ch.tally fun v => v.stage.ended := tally_commit _ hn
      apply (UInt64.add_left_inj (UInt64.ofNat w.stage.ended)).mp
      rw [← UInt64.ofNat_add, hended, UInt64.ofNat_add, ← hs.exited]
      exact hc.exited
    · have hbegun : ((s.commit n ch).tally fun v => v.stage.begun) + w.stage.begun =
          (s.tally fun v => v.stage.begun) + ch.tally fun v => v.stage.begun := tally_commit _ hn
      have hrecording : ((s.commit n ch).tally fun v => v.doing.recording) + w.doing.recording =
          (s.tally fun v => v.doing.recording) + ch.tally fun v => v.doing.recording := tally_commit _ hn
      have hone := hc.begun
      have hall := hs.begun
      rw [hanswers, List.countP_append]
      omega
    · intro ha
      have hattached : s.attached = true := h.attached.symm.trans ha
      have hregistered : (s.commit n ch).registered + w.stage.registered =
          s.registered + ch.tally fun v => v.stage.registered := tally_commit _ hn
      have hone := hc.registered hattached
      have hall := hs.registered hattached
      rw [countP_deeds_commit, countP_deeds_commit]
      omega

theorem tallied_run (r : Interpreter) (hr : r.metrics = {}) (acts : List Action) :
    ((start r).run acts).Tallied := by
  refine run_keeps (fun _ _ hs h => Tallied.act hs h) ?_ acts
  constructor
  · rw [start, hr]
    rfl
  · rw [start, hr]
    rfl
  · rw [start, hr]
    rfl
  · rfl
  · exact fun _ => rfl

structure Conserving (limit : Option ℕ) (s : System) : Prop where
  whole : s.ledger.Whole fun e => s.tally (Worker.slots e)
  courses : s.Each (fun c r => r.Accords limit c) fun a => a.Accords limit

theorem Conserving.live_eq (hs : s.Conserving limit) (hk : s.Kept limit) :
    s.interpreter.bootstrap.live = s.tally (Worker.slots 0) := by
  have hcount := hk.fits.count
  have hspared := hk.fits.spared
  have hstolen := hs.whole.stolen
  rw [hs.whole.resets] at hcount
  omega

/-- Whoever has a slot is counted. -/
theorem Conserving.live_pos (hs : s.Conserving limit) (hk : s.Kept limit)
    (hn : s.workers[n]? = some w) {e : ℕ} (hw : 0 < w.slots e) :
    0 < s.interpreter.bootstrap.live := by
  have hle : w.slots e ≤ s.tally (Worker.slots e) := le_tally _ hn
  have he : e = 0 := by
    by_contra hne
    have hnone : s.tally (Worker.slots e) = 0 :=
      hk.fits.past e (by rw [hs.whole.resets]; exact Nat.pos_of_ne_zero hne)
    omega
  subst he
  rw [hs.live_eq hk]
  exact hw.trans_le hle

theorem slots_of_spawn {name : Option String} {c : Spawn} {r : Course}
    (hd : w.doing = .spawn name c r) (hc : c.holds = true) : 0 < w.slots r.era := by
  simp [Worker.slots, hd, Activity.slots, hc]

theorem slots_of_wrapper {era : ℕ} {c : Wrapper} (hs : w.stage = .wrapper era c)
    (hc : c.holds = true) : 0 < w.slots era := by
  simp [Worker.slots, hs, Stage.slots, hc]

theorem resets_of_act (h : Acts s s') (h0 : s'.ledger.resets = 0) : s.ledger.resets = 0 := by
  cases h with
  | change n w ch hn h =>
    exact Nat.le_zero.mp ((s.ledger.resets_le_enter _ ch.mark).trans h0.le)
  | _ => exact h0

theorem Conserving.act (hs : s.Conserving limit) (hk : s.Kept limit) (h : Acts s s')
    (h0 : s'.ledger.resets = 0) : s'.Conserving limit := by
  constructor
  · cases h with
    | still => exact hs.whole
    | rouse i => exact hs.whole
    | arrive i =>
      simp only [tally_arrive]
      exact hs.whole
    | change n w ch hn h => exact hs.whole.enter hk.fits h0 (hk.books hn h)
  · refine hs.courses.act h ⟨rfl, rfl⟩ fun n w host name c r ch hn hd hsp _ => ?_
    refine hsp.accords hk.setting hk.fits.bound (fun hc => ?_) (hs.courses.going n w name c r hn hd)
    exact hs.live_pos hk hn (slots_of_spawn hd hc)

theorem conserving_run {config : Config} {r : Interpreter} (hr : Interpreter.build config = .ok r)
    (acts : List Action) (h0 : ((start r).run acts).ledger.resets = 0) :
    ((start r).run acts).Conserving config.maxThreads := by
  have hrun := run_keeps
    (P := fun s => s.Kept config.maxThreads ∧
      (s.ledger.resets = 0 → s.Conserving config.maxThreads))
    (fun s s' hs h => ⟨hs.1.act h, fun h0 => (hs.2 (resets_of_act h h0)).act hs.1 h h0⟩)
    ⟨kept_start hr, fun _ => ⟨⟨rfl, rfl, rfl⟩, fun _ _ _ _ _ hn => by simp [start] at hn, nofun⟩⟩
    acts
  exact hrun.2 h0

def Quiet (s : System) : Prop :=
  ∀ w ∈ s.workers, (∀ name c r, w.doing ≠ .spawn name c r) ∧
    ∀ era ending, w.stage ≠ .wrapper era (.recordExit ending)

structure Conserved (limit : Option ℕ) (s : System) : Prop where
  count : s.interpreter.bootstrap.live + s.ledger.returned + s.ledger.dropped = s.ledger.passed
  returning : ∀ w ∈ s.workers, ∀ era ending, w.stage = .wrapper era (.giveBack ending) →
    0 < s.interpreter.bootstrap.live
  dropping : ∀ w ∈ s.workers, ∀ name cause r, w.doing = .spawn name (.abandon cause) r →
    0 < s.interpreter.bootstrap.live
  bound : ∀ l, limit = some l → s.interpreter.bootstrap.live ≤ l ∧ s.registered ≤ l
  registered : s.attached = true →
    (s.deeds.countP fun d => d.2.registers) =
      s.registered + s.deeds.countP fun d => d.2.deregisters
  exhausted : ∀ a ∈ s.answers, ∀ l,
    a.result = .ok (.error (.limitReached l)) ↔ limit = some l ∧ a.course.found = l
  failed : ∀ a ∈ s.answers, a.succeeds = false → a.course.returned = a.course.reserved
  errors : ∀ a ∈ s.answers, ∀ e, a.result = .ok (.error e) →
    (∃ l, e = .limitReached l) ∨ ∃ reason, e = .refused reason
  failures : s.interpreter.metrics.threads.spawnFailures =
    .ofNat (s.answers.countP Answer.fails)
  untouched : ∀ (n : ℕ) (w : Worker) name c r host now pick,
    s.workers[n]? = some w → w.doing = .spawn name c r →
    let s' := s.act (.thread n (.step host now pick))
    s'.interpreter.bootstrap.stackSize = s.interpreter.bootstrap.stackSize ∧
      s'.interpreter.bootstrap.collector = s.interpreter.bootstrap.collector
  ends : ∀ (n : ℕ) (w : Worker) name c r host now pick,
    s.workers[n]? = some w → w.doing = .spawn name c r →
    let s' := s.act (.thread n (.step host now pick))
    (∃ a, s'.answers = a :: s.answers) ∨
      ∃ w' c' r', s'.workers[n]? = some w' ∧ w'.doing = .spawn name c' r' ∧ c'.left < c.left
  quiet : s.Quiet →
    s.interpreter.metrics.threads.spawned =
      s.interpreter.metrics.threads.exited + .ofNat s.interpreter.bootstrap.live

/-- A wrapper that has a slot has one that is counted now. -/
theorem stage_slots_of_holds (hk : s.Kept limit) (h0 : s.ledger.resets = 0) (hw : w ∈ s.workers)
    {era : ℕ} {c : Wrapper} (hs : w.stage = .wrapper era c) (hc : c.holds = true) :
    w.stage.slots 0 = 1 := by
  obtain ⟨n, hn⟩ := List.getElem?_of_mem hw
  have hera : era = 0 := by
    by_contra hne
    have hle : w.slots era ≤ s.tally (Worker.slots era) := le_tally _ hn
    rw [hk.fits.past era (by rw [h0]; exact Nat.pos_of_ne_zero hne)] at hle
    exact absurd (slots_of_wrapper hs hc) (Nat.not_lt.mpr hle)
  simp [hs, Stage.slots, hc, hera]

theorem registered_le (hk : s.Kept limit) (h0 : s.ledger.resets = 0) :
    s.registered ≤ s.tally (Worker.slots 0) := by
  refine tally_le_tally fun w hw => Nat.le_add_right_of_le ?_
  cases hs : w.stage with
  | wrapper era c =>
    cases c with
    | entry => exact (hs ▸ stage_slots_of_holds hk h0 hw hs rfl).ge
    | deregister ending => exact (hs ▸ stage_slots_of_holds hk h0 hw hs rfl).ge
    | _ => exact Nat.zero_le _
  | _ => exact Nat.zero_le _

/-- Where nothing is under way, every thread that was started here is counted or has ended. -/
theorem begun_of_quiet (hk : s.Kept limit) (h0 : s.ledger.resets = 0) (hq : s.Quiet) :
    (s.tally fun w => w.stage.begun) =
      (s.tally fun w => w.stage.ended) + s.tally (Worker.slots 0) := by
  rw [← tally_add]
  refine tally_congr fun w hw => ?_
  obtain ⟨hdoing, hstage⟩ := hq w hw
  obtain ⟨n, hn⟩ := List.getElem?_of_mem hw
  have hnone : w.doing.slots 0 = 0 := by
    cases hd : w.doing with
    | spawn name c r => exact absurd hd (hdoing name c r)
    | _ => rfl
  rw [Worker.slots, hnone, Nat.add_zero]
  cases hs : w.stage with
  | wrapper era c =>
    have hholds : c.holds = true := by
      cases c with
      | recordExit ending => exact absurd hs (hstage era ending)
      | _ => rfl
    have hone := stage_slots_of_holds hk h0 hw hs hholds
    rw [hs] at hone
    rw [hone]
    rfl
  | _ => rfl

theorem recording_of_quiet (hq : s.Quiet) : (s.tally fun w => w.doing.recording) = 0 := by
  have hzero : (s.tally fun w => w.doing.recording) = s.tally fun _ => 0 := by
    refine tally_congr fun w hw => ?_
    cases hd : w.doing with
    | spawn name c r => exact absurd hd ((hq w hw).1 name c r)
    | _ => rfl
  rw [hzero]
  simp [tally]

theorem Conserving.conserved (hs : s.Conserving limit) (hk : s.Kept limit) (ht : s.Tallied)
    (he : s.Entered) : s.Conserved limit := by
  have hlive := hs.live_eq hk
  constructor
  · have hpassed := hs.whole.passed
    omega
  · intro w hw era ending hstage
    obtain ⟨n, hn⟩ := List.getElem?_of_mem hw
    exact hs.live_pos hk hn (slots_of_wrapper hstage rfl)
  · intro w hw name cause r hd
    obtain ⟨n, hn⟩ := List.getElem?_of_mem hw
    exact hs.live_pos hk hn (slots_of_spawn hd rfl)
  · intro l hl
    have hbound := hk.fits.bound l hl
    exact ⟨hbound, (registered_le hk hs.whole.resets).trans (hlive ▸ hbound)⟩
  · exact ht.registered
  · exact fun a ha l => (hs.courses.ended a ha).exhausted_iff l
  · exact fun a ha hfails => (hs.courses.ended a ha).returned_eq hfails
  · exact fun a ha e hres => (hs.courses.ended a ha).error_cases hres
  · exact ht.failures
  · intro n w name c r host now pick hn hd
    have hopen := he n w hn (by simp [hd])
    rw [act_spawn hn hopen hd]
    exact (spawns_stepSpawn s w host name c r).settings
  · intro n w name c r host now pick hn hd
    rw [act_spawn hn (he n w hn (by simp [hd])) hd]
    rcases (spawns_stepSpawn s w host name c r).ends with ⟨a, ha⟩ | ⟨c', r', hd', hlt⟩
    · exact .inl ⟨a, by rw [commit, ha]; rfl⟩
    · exact .inr ⟨_, c', r', commit_workers_self hn, hd', hlt⟩
  · intro hq
    have hbegun := ht.begun
    rw [begun_of_quiet hk hs.whole.resets hq, recording_of_quiet hq, ← hlive, Nat.add_zero] at hbegun
    rw [ht.spawned, ht.exited, ← hbegun, UInt64.ofNat_add]

/-- Any number of threads, in any interleaving of their steps, as long as none of them has reset the
count. -/
theorem conserved_run {config : Config} {r : Interpreter} (hr : Interpreter.build config = .ok r)
    (acts : List Action) (h0 : ((start r).run acts).ledger.resets = 0) :
    ((start r).run acts).Conserved config.maxThreads := by
  have hmetrics : r.metrics = {} := by rw [Interpreter.build_eq hr]
  exact (conserving_run hr acts h0).conserved (kept_run hr acts) (tallied_run r hmetrics acts)
    (entered_run r acts)

/-- With a limit of one a second spawn fails, and a third one that the operating system refuses once
the first thread has ended. -/
theorem conserved_run_refused :
    let turn (n : ℕ) : Action := .thread n (.step ⟨Host.usualMemory, fun _ => none⟩ ⟨0⟩ 0)
    let refuse (n : ℕ) : Action := .thread n (.step ⟨Host.usualMemory, fun _ => some .tryAgain⟩ ⟨0⟩ 0)
    let spawn (n : ℕ) : Action := .thread n (.spawn none)
    let acts : List Action :=
      .arrive ⟨7, by decide⟩ :: spawn 0 :: List.replicate 4 (turn 0) ++
        spawn 0 :: List.replicate 2 (turn 0) ++ List.replicate 2 (turn 1) ++
        .thread 1 (.finish none) :: List.replicate 3 (turn 1) ++
        spawn 0 :: List.replicate 5 (refuse 0)
    let r : Interpreter :=
      { gil := .new .generic .posix Gil.defaultPatience
        bootstrap := { backend := .posix, collector := some {}, limit := some 1 } }
    let s := (start r).run acts
    Interpreter.build { maxThreads := some 1 } = .ok r ∧ s.ledger.resets = 0 ∧
      s.Conserved (some 1) ∧ s.ledger.passed = 2 ∧ s.ledger.returned = 1 ∧ s.ledger.dropped = 1 ∧
      s.interpreter.metrics.threads = ⟨1, 1, 2⟩ :=
  ⟨rfl, by decide, @conserved_run { maxThreads := some 1 } _ rfl _ (by decide), by decide,
    by decide, by decide, by decide⟩

end System

end Bootstrap

end InterpreterLock
