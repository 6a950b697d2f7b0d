import InterpreterLock.Proofs.Bootstrap.Change

/-!
# The count of live threads

The count is what it should be as long as no slot of the time before a reset is given back after it.
Such a late return is taken off the new count, if that is not zero: the count is then short of one
slot, and it comes right again only by a return that finds it at zero.
-/

set_option autoImplicit false

namespace InterpreterLock.Bootstrap

def Stage.slots (e : ℕ) : Stage → ℕ
  | .wrapper era c => if c.holds = true ∧ era = e then 1 else 0
  | _ => 0

def Activity.slots (e : ℕ) : Activity → ℕ
  | .spawn _ c r => if c.holds = true ∧ r.era = e then 1 else 0
  | _ => 0

def Worker.slots (e : ℕ) (w : Worker) : ℕ := w.stage.slots e + w.doing.slots e

def System.unfinished (s : System) : ℕ := s.tally fun w => w.stage.slots s.ledger.resets

def System.spawning (s : System) : ℕ := s.tally fun w => w.doing.slots s.ledger.resets

theorem System.tally_slots (s : System) :
    s.tally (Worker.slots s.ledger.resets) = s.unfinished + s.spawning :=
  System.tally_add _ _ s

def Mark.Books (limit : Option ℕ) (resets live live' : ℕ) (before after : ℕ → ℕ) : Mark → Prop
  | .still => live' = live ∧ ∀ e, after e = before e
  | .reserved =>
    live' = live + 1 ∧ (∀ l, limit = some l → live < l) ∧
      ∀ e, after e = before e + if resets = e then 1 else 0
  | .returned era | .dropped era =>
    live' = live - 1 ∧ ∀ e, before e = after e + if era = e then 1 else 0
  | .reset => live' = 0 ∧ ∀ e, after e = before e

/-- What holds of some of the slots holds of all of them, if the others stay. -/
theorem Mark.Books.extend {limit : Option ℕ} {resets live live' : ℕ}
    {before after before' after' : ℕ → ℕ} {m : Mark}
    (h : m.Books limit resets live live' before after)
    (hrest : ∀ e, after' e + before e = before' e + after e) :
    m.Books limit resets live live' before' after' := by
  cases m with
  | still =>
    refine ⟨h.1, fun e => ?_⟩
    have h1 := h.2 e
    have h2 := hrest e
    omega
  | reserved =>
    refine ⟨h.1, h.2.1, fun e => ?_⟩
    have h1 := h.2.2 e
    have h2 := hrest e
    omega
  | returned era | dropped era =>
    refine ⟨h.1, fun e => ?_⟩
    have h1 := h.2 e
    have h2 := hrest e
    omega
  | reset =>
    refine ⟨h.1, fun e => ?_⟩
    have h1 := h.2 e
    have h2 := hrest e
    omega

section

variable {s : System} {w : Worker} {ch : Change}

def Change.Booked (s : System) (w : Worker) (ch : Change) : Prop :=
  ch.mark.Books s.interpreter.bootstrap.limit s.ledger.resets s.interpreter.bootstrap.live
    ch.interpreter.bootstrap.live (fun e => w.slots e) fun e => ch.tally (Worker.slots e)

/-- A change that moves no slot of the acting thread, and starts none, is still. -/
theorem booked_still (hm : ch.mark = .still)
    (hl : ch.interpreter.bootstrap.live = s.interpreter.bootstrap.live)
    (hw : ∀ e, ch.worker.slots e = w.slots e) (hs : ch.started = none) : ch.Booked s w := by
  rw [Change.Booked, hm]
  refine ⟨hl, fun e => ?_⟩
  simp [Change.tally, hs, hw]

theorem booked_spawn {host : Host} {name : Option String} {c : Spawn} {r : Course}
    (hd : w.doing = .spawn name c r) (h : Spawns s w host name c r ch) : ch.Booked s w := by
  cases h with
  | reserve _ room =>
    refine ⟨rfl, room, fun e => ?_⟩
    simp [Worker.slots, hd, Activity.slots, Spawn.holds, Change.tally, System.onward, System.still]
  | launch i _ hn he =>
    refine ⟨rfl, fun e => ?_⟩
    simp [Worker.slots, hd, Activity.slots, Spawn.holds, Change.tally, System.onward, System.still,
      Stage.slots, Wrapper.holds]
  | unwind p =>
    refine ⟨rfl, fun e => ?_⟩
    simp [Worker.slots, hd, Activity.slots, Spawn.holds, Change.tally, System.answered,
      System.still]
  | abandon e =>
    refine ⟨rfl, fun e => ?_⟩
    simp [Worker.slots, hd, Activity.slots, Spawn.holds, Change.tally, System.onward, System.still]
  | recordFailure e =>
    apply booked_still rfl rfl (fun e => ?_) rfl
    simp [Worker.slots, hd, Activity.slots, Spawn.holds, System.answered, System.still]
  | recordSpawned i =>
    apply booked_still rfl rfl (fun e => ?_) rfl
    simp [Worker.slots, hd, Activity.slots, Spawn.holds, System.answered, System.still]
  | _ =>
    apply booked_still rfl rfl (fun e => ?_) rfl
    simp [Worker.slots, hd, Activity.slots, Spawn.holds, System.onward, System.still]

theorem booked_wrapper {era : ℕ} {c : Wrapper} (hs : w.stage = .wrapper era c)
    (hc : c ≠ .entry) : (s.stepWrapper w era c).Booked s w := by
  cases c with
  | entry => exact absurd rfl hc
  | giveBack ending =>
    refine ⟨rfl, fun e => ?_⟩
    simp [Worker.slots, hs, Stage.slots, Wrapper.holds, Change.tally, System.stepWrapper,
      System.still, Wrapper.step, Progress.next?, Stage.ofWrapper, Nat.add_comm]
  | _ =>
    apply booked_still rfl rfl (fun e => ?_) rfl
    simp [Worker.slots, hs, Stage.slots, Wrapper.holds, System.stepWrapper, System.still,
      Wrapper.step, Progress.next?, Stage.ofWrapper]

theorem Activity.ofCall_slots (c : Option Interpreter.Call) (e : ℕ) :
    (Activity.ofCall c).slots e = 0 := by
  cases c <;> rfl

theorem Changes.booked (h : Changes s w ch) : ch.Booked s w := by
  cases h with
  | begin a ho hd ha =>
    apply booked_still rfl rfl (fun e => ?_) rfl
    cases ha <;> simp [Worker.slots, hd, Activity.slots, System.doing, System.still, Spawn.holds]
  | hook c => exact booked_still rfl rfl (fun _ => rfl) rfl
  | resize size => exact booked_still rfl (resized_live ..) (fun _ => rfl) rfl
  | reset => exact ⟨rfl, fun e => rfl⟩
  | call t c ho ht hd =>
    have hw (e : ℕ) : (s.stepCall w t c).worker.slots e = w.slots e := by
      have hnext : (s.stepCall w t c).worker.doing.slots e = 0 := Activity.ofCall_slots _ e
      have hnow : w.doing.slots e = 0 := by
        rw [hd]
        rfl
      rw [Worker.slots, Worker.slots, hnext, hnow]
      rfl
    cases hf : c.forgets with
    | false =>
      refine booked_still (by simp [System.stepCall, hf]) ?_ hw rfl
      simp [System.stepCall, Interpreter.Call.step_bootstrap, hf]
    | true =>
      have hm : (s.stepCall w t c).mark = .reset := by simp [System.stepCall, hf]
      rw [Change.Booked, hm]
      refine ⟨?_, fun e => ?_⟩
      · simp [System.stepCall, Interpreter.Call.step_bootstrap, hf, forgetThreads]
      · exact hw e
  | spawn host name c r ch ho hd h => exact booked_spawn hd h
  | endEntry era ending hs hd =>
    apply booked_still rfl rfl (fun e => ?_) rfl
    simp [Worker.slots, System.endEntry, System.still, hs, Stage.slots, Wrapper.holds]
  | wrapper era c hs hc => exact booked_wrapper hs hc

end

namespace Ledger

structure Fits (limit : Option ℕ) (live : ℕ) (slots : ℕ → ℕ) (l : Ledger) : Prop where
  past : ∀ e, l.resets < e → slots e = 0
  count : live + l.stolen = slots l.resets + l.spared
  spared : l.spared ≤ l.stolen
  bound : ∀ n, limit = some n → live ≤ n

variable {limit : Option ℕ} {live live' : ℕ} {slots slots' : ℕ → ℕ} {l : Ledger}

theorem takeBack_resets (l : Ledger) (live era : ℕ) : (l.takeBack live era).resets = l.resets := by
  unfold takeBack
  split <;> rfl

/-- A new slot comes off the count and off the slots, and an old one off the count alone; a count of
zero stays. -/
theorem Fits.takeBack (h : l.Fits limit live slots) {era : ℕ}
    (hs : ∀ e, slots e = slots' e + if era = e then 1 else 0) :
    (l.takeBack live era).Fits limit (live - 1) slots' := by
  have hcount := h.count
  have hspared := h.spared
  have hnow := hs l.resets
  have hboth : live - 1 + (l.takeBack live era).stolen =
      slots' l.resets + (l.takeBack live era).spared ∧
        (l.takeBack live era).spared ≤ (l.takeBack live era).stolen := by
    by_cases he : era = l.resets
    · rw [if_pos he] at hnow
      rw [Ledger.takeBack, if_pos he]
      by_cases hl : live = 0
      · simp only [hl, if_true]
        omega
      · simp only [hl, if_false]
        omega
    · rw [if_neg he] at hnow
      rw [Ledger.takeBack, if_neg he]
      by_cases hl : live = 0
      · simp only [hl, if_true]
        omega
      · simp only [hl, if_false]
        omega
  refine ⟨fun e he => ?_, ?_, hboth.2, fun n hn => (Nat.sub_le live 1).trans (h.bound n hn)⟩
  · rw [takeBack_resets] at he
    have hzero := h.past e he
    have hpart := hs e
    omega
  · rw [takeBack_resets]
    exact hboth.1

theorem Fits.enter (h : l.Fits limit live slots) {m : Mark}
    (hb : m.Books limit l.resets live live' slots slots') :
    (l.enter live m).Fits limit live' slots' := by
  cases m with
  | still =>
    obtain ⟨rfl, hs⟩ := hb
    rwa [show slots' = slots from funext hs]
  | reserved =>
    obtain ⟨rfl, room, hs⟩ := hb
    refine ⟨fun e he => ?_, ?_, h.spared, fun n hn => room n hn⟩
    · have hlt : l.resets < e := he
      rw [hs, h.past e hlt, if_neg (Nat.ne_of_lt hlt)]
    · have hcount := h.count
      have hnow := hs l.resets
      simp only [Ledger.enter, if_true] at hnow ⊢
      omega
  | returned era =>
    obtain ⟨rfl, hs⟩ := hb
    have ht := h.takeBack hs
    exact ⟨ht.past, ht.count, ht.spared, ht.bound⟩
  | dropped era =>
    obtain ⟨rfl, hs⟩ := hb
    have ht := h.takeBack hs
    exact ⟨ht.past, ht.count, ht.spared, ht.bound⟩
  | reset =>
    obtain ⟨rfl, hs⟩ := hb
    refine ⟨fun e he => ?_, ?_, Nat.le_refl 0, fun _ _ => Nat.zero_le _⟩
    · rw [hs]
      exact h.past e ((Nat.lt_succ_self _).trans he)
    · have hnew := h.past (l.resets + 1) (Nat.lt_succ_self _)
      simp only [Ledger.enter, hs, hnew]

/-- No single entry both takes from the new count and finds it at zero. -/
theorem stolen_or_spared (hstolen : l.stolen = 0) (hspared : l.spared = 0) (live : ℕ) (m : Mark) :
    (l.enter live m).stolen = 0 ∨ (l.enter live m).spared = 0 := by
  cases m with
  | returned era | dropped era =>
    by_cases he : era = l.resets
    · exact .inl (by simp [Ledger.enter, Ledger.takeBack, he, hstolen])
    · exact .inr (by simp [Ledger.enter, Ledger.takeBack, he, hspared])
  | reset => exact .inl rfl
  | _ => exact .inl hstolen

end Ledger

namespace System

variable {limit : Option ℕ} {s s' : System} {w : Worker} {ch : Change} {n : ℕ}

structure Kept (limit : Option ℕ) (s : System) : Prop where
  setting : s.interpreter.bootstrap.limit = limit
  fits : s.ledger.Fits limit s.interpreter.bootstrap.live fun e => s.tally (Worker.slots e)

theorem Kept.books (hs : s.Kept limit) (hn : s.workers[n]? = some w) (h : Changes s w ch) :
    ch.mark.Books limit s.ledger.resets s.interpreter.bootstrap.live
      ch.interpreter.bootstrap.live (fun e => s.tally (Worker.slots e))
      fun e => (s.commit n ch).tally (Worker.slots e) := by
  have hb := h.booked.extend fun e => tally_commit (Worker.slots e) hn
  rwa [hs.setting] at hb

theorem Kept.act (hs : s.Kept limit) (h : Acts s s') : s'.Kept limit := by
  cases h with
  | still => exact hs
  | arrive i =>
    refine ⟨hs.setting, ?_⟩
    simp only [tally_arrive]
    exact hs.fits
  | rouse i => exact ⟨hs.setting, hs.fits⟩
  | change n w ch hn h => exact ⟨h.limit.trans hs.setting, hs.fits.enter (hs.books hn h)⟩

structure Balanced (limit : Option ℕ) (s : System) : Prop where
  /-- The count misses what late returns have taken from it, up to what later ones left it. -/
  count : s.interpreter.bootstrap.live + s.ledger.stolen =
    s.unfinished + s.spawning + s.ledger.spared
  spared : s.ledger.spared ≤ s.ledger.stolen
  bound : ∀ l, limit = some l → s.interpreter.bootstrap.live ≤ l
  capped : ∀ l, limit = some l → s.unfinished + s.spawning ≤ l + s.ledger.stolen

theorem Kept.balanced (hs : s.Kept limit) : s.Balanced limit := by
  have hcount := hs.fits.count
  rw [tally_slots] at hcount
  refine ⟨hcount, hs.fits.spared, hs.fits.bound, fun l hl => ?_⟩
  have hbound := hs.fits.bound l hl
  omega

theorem kept_start {config : Config} {r : Interpreter} (hr : Interpreter.build config = .ok r) :
    (start r).Kept config.maxThreads := by
  rw [Interpreter.build_eq hr]
  exact ⟨rfl, fun _ _ => rfl, rfl, Nat.le_refl 0, fun _ _ => Nat.zero_le _⟩

theorem kept_run {config : Config} {r : Interpreter} (hr : Interpreter.build config = .ok r)
    (acts : List Action) : ((start r).run acts).Kept config.maxThreads :=
  run_keeps (fun _ _ hs h => hs.act h) (kept_start hr) acts

/-- The first return that takes from the new count puts it out of step. -/
theorem Kept.stolen_act (hs : s.Kept limit) (hstolen : s.ledger.stolen = 0) (h : Acts s s')
    (heq : s'.interpreter.bootstrap.live = s'.unfinished + s'.spawning) :
    s'.ledger.stolen = 0 := by
  have hspared : s.ledger.spared = 0 := Nat.le_zero.mp (hstolen ▸ hs.fits.spared)
  have hor : s'.ledger.stolen = 0 ∨ s'.ledger.spared = 0 := by
    cases h with
    | change n w ch hn h => exact Ledger.stolen_or_spared hstolen hspared _ _
    | _ => exact .inl hstolen
  have hcount := (hs.act h).balanced.count
  omega

/-- Any number of threads, in any interleaving of their steps, with any number of resets by any of
them. The count is that of the threads since the last reset exactly in the runs in which no slot of
the time before a reset comes back after it to a count other than zero. -/
theorem balanced_run {config : Config} {r : Interpreter} (hr : Interpreter.build config = .ok r)
    (acts : List Action) :
    ((start r).run acts).Balanced config.maxThreads ∧
      ((∀ early, early <+: acts →
          ((start r).run early).interpreter.bootstrap.live =
            ((start r).run early).unfinished + ((start r).run early).spawning) ↔
        ∀ early, early <+: acts → ((start r).run early).ledger.stolen = 0) := by
  refine ⟨(kept_run hr acts).balanced, fun heq early => ?_, fun hzero early he => ?_⟩
  · -- by induction on the beginning of the run, at its last action
    induction early using List.reverseRecOn with
    | nil => exact fun _ => rfl
    | append_singleton init a ih =>
      intro he
      have hinit := ih ((List.prefix_append init [a]).trans he)
      have hlast : (start r).run (init ++ [a]) = ((start r).run init).act a := by
        simp [run]
      have hnow := heq _ he
      rw [hlast] at hnow ⊢
      exact (kept_run hr init).stolen_act hinit (act_cases _ a) hnow
  · have hb := (kept_run hr early).balanced
    have hcount := hb.count
    have hstolen := hzero early he
    have hspared := hb.spared
    omega

/-- A thread that was started before a fork ends after it, and no other one was started since. -/
theorem balanced_run_forked :
    let turn (n : ℕ) : Action := .thread n (.step ⟨Host.usualMemory, fun _ => none⟩ ⟨0⟩ 0)
    let spawn (n : ℕ) : List Action := .thread n (.spawn none) :: List.replicate 4 (turn n)
    let acts : List Action :=
      .arrive ⟨7, by decide⟩ :: spawn 0 ++ List.replicate 2 (turn 1) ++
        .thread 1 (.call .afterFork) :: List.replicate 6 (turn 1) ++
        .thread 1 (.finish none) :: List.replicate 3 (turn 1) ++ spawn 0
    let r : Interpreter :=
      { gil := .new .generic .posix Gil.defaultPatience
        bootstrap := { backend := .posix, collector := some {}, limit := some 1 } }
    let s := (start r).run acts
    Interpreter.build { maxThreads := some 1 } = .ok r ∧ s.Balanced (some 1) ∧
      s.ledger.resets = 1 ∧ s.interpreter.bootstrap.live = 1 ∧ s.unfinished = 1 ∧
      s.ledger.stolen = 0 :=
  ⟨rfl, (@balanced_run { maxThreads := some 1 } _ rfl _).1, by decide, by decide, by decide,
    by decide⟩

/-- The same thread starts another one after the fork, and then ends. -/
theorem late_return_uncounts :
    let turn (n : ℕ) : Action := .thread n (.step ⟨Host.usualMemory, fun _ => none⟩ ⟨0⟩ 0)
    let spawn (n : ℕ) : List Action := .thread n (.spawn none) :: List.replicate 4 (turn n)
    let acts : List Action :=
      .arrive ⟨7, by decide⟩ :: spawn 0 ++ List.replicate 2 (turn 1) ++
        .thread 1 (.call .afterFork) :: List.replicate 6 (turn 1) ++ spawn 1 ++
        .thread 1 (.finish none) :: List.replicate 3 (turn 1)
    let r : Interpreter :=
      { gil := .new .generic .posix Gil.defaultPatience
        bootstrap := { backend := .posix, collector := some {}, limit := some 1 } }
    let s := (start r).run acts
    let late := s.run (spawn 0)
    Interpreter.build { maxThreads := some 1 } = .ok r ∧ s.ledger.resets = 1 ∧
      s.interpreter.bootstrap.live = 0 ∧ s.unfinished = 1 ∧ s.spawning = 0 ∧
      late.ledger.resets = 1 ∧ late.unfinished = 2 :=
  ⟨rfl, by decide, by decide, by decide, by decide, by decide, by decide⟩

end System

end InterpreterLock.Bootstrap
