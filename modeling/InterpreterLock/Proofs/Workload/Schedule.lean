import InterpreterLock.Proofs.Workload.Totals

/-!
# Workers one after the other

In the run of a workload the manager starts all workers, and then each goes its way to the end
before the next one begins. Such a worker finds the lock free and nobody waiting, so each of its
steps brings it nearer to its end, and the run stays within its bounds.
-/

set_option autoImplicit false

namespace InterpreterLock

open Gil (Shows Overruns)

inductive Interpreter.Call.Undisturbed : Interpreter.Call → ℕ → Prop
  | checkFree : Undisturbed (.acquire .checkHolder) 6
  | tryWord : Undisturbed (.acquire .tryWord) 5
  | setHolder : Undisturbed (.acquire (.setHolder .fast)) 4
  | count : Undisturbed (.acquire (.count .fast)) 3
  | record : Undisturbed (.acquire (.record .fast)) 2
  | report {b : Bool} : Undisturbed (.report (.ok b)) 1
  | checkYielder : Undisturbed (.yield .checkHolder) 3
  | recordYield : Undisturbed (.yield .record) 2
  | lookBeforeYield : Undisturbed (.yield .lookForWaiters) 1
  | checkReleaser : Undisturbed (.release .checkHolder) 4
  | clearHolder : Undisturbed (.release .clearHolder) 3
  | clearWord : Undisturbed (.release .clearWord) 2
  | lookAfterRelease : Undisturbed (.release .lookForWaiters) 1

namespace Interpreter.Call.Undisturbed

variable {c : Interpreter.Call} {k : ℕ} {t : Turn} {s : Interpreter}

theorem pos (h : c.Undisturbed k) : 0 < k := by cases h <;> decide

theorem isEnlisted (h : c.Undisturbed k) : c.isEnlisted = false := by cases h <;> rfl

theorem step (h : c.Undisturbed k) (hs : Shows s.gil t.me c.hold)
    (hfree : c.hold = .out → s.gil.word = Mode.freeWord) (hw : s.gil.waiters = 0) :
    (c.step t s).2.Meets (fun c' => ∃ m < k, c'.Undisturbed m) (fun _ => True)
      fun _ => False := by
  cases h with
  | checkFree =>
    have hme : s.gil.isHeldBy t.me = false := Shows.isHeldBy hs
    simp only [Call.step, onGil_meets, Gil.Acquire.step, hme]
    exact ⟨5, by decide, .tryWord⟩
  | tryWord =>
    simp only [Call.step, onGil_meets, Gil.Acquire.step, Gil.tryLock_of_free _ (hfree rfl)]
    exact ⟨4, by decide, .setHolder⟩
  | setHolder => exact ⟨3, by decide, .count⟩
  | count => exact ⟨2, by decide, .record⟩
  | record => exact ⟨1, by decide, .report⟩
  | report => trivial
  | checkYielder =>
    have hme : s.gil.isHeldBy t.me = true := Shows.isHeldBy hs
    simp only [Call.step, onGil_meets, Gil.Yield.step, hme, if_true]
    exact ⟨2, by decide, .recordYield⟩
  | recordYield => exact ⟨1, by decide, .lookBeforeYield⟩
  | lookBeforeYield =>
    simp only [Call.step, onGil_meets, Gil.Yield.step, hw, if_true]
    trivial
  | checkReleaser =>
    have hme : s.gil.isHeldBy t.me = true := Shows.isHeldBy hs
    simp only [Call.step, onGil_meets, Gil.Release.step, hme, if_true]
    exact ⟨3, by decide, .clearHolder⟩
  | clearHolder => exact ⟨2, by decide, .clearWord⟩
  | clearWord =>
    have hlocked : s.gil.isLocked = true := hs.locked (by decide)
    simp only [Call.step, onGil_meets, Gil.Release.step, hlocked, if_true]
    exact ⟨1, by decide, .lookAfterRelease⟩
  | lookAfterRelease =>
    simp only [Call.step, onGil_meets, Gil.Release.step, hw, if_true]
    trivial

end Interpreter.Call.Undisturbed

namespace Workload

inductive Ahead (p : Plan) : ℕ → Place → ℕ → Prop
  | install : Ahead p 0 (.wrapper .install) (16 * p.iterations + 5)
  | register : Ahead p 0 (.wrapper .register) (16 * p.iterations + 4)
  | acquire {n k : ℕ} {c : Interpreter.Call} (hc : c.Undisturbed k) :
    Ahead p n (.acquire c) (16 * (p.iterations - n) + 13 + k)
  | enter {n : ℕ} : Ahead p n .enter (16 * (p.iterations - n) + 13)
  | pass {n : ℕ} : Ahead p n .pass (16 * (p.iterations - n) + 12)
  | leave {n : ℕ} : Ahead p n .leave (16 * (p.iterations - n) + 11)
  | yield {n k : ℕ} {c : Interpreter.Call} (hc : c.Undisturbed k) :
    Ahead p n (.yield c) (16 * (p.iterations - n) + 7 + k)
  | release {n k : ℕ} {c : Interpreter.Call} (hc : c.Undisturbed k) :
    Ahead p n (.release c) (16 * (p.iterations - n) + 3 + k)
  | deregister {n : ℕ} {ending : Option Panic} : Ahead p n (.wrapper (.deregister ending)) 3
  | giveBack {n : ℕ} {ending : Option Panic} : Ahead p n (.wrapper (.giveBack ending)) 2
  | recordExit {n : ℕ} {ending : Option Panic} : Ahead p n (.wrapper (.recordExit ending)) 1
  | gone {n : ℕ} {ending : Option Panic} : Ahead p n (.gone ending) 0

variable {p : Plan} {mode : Mode} {backend : Backend} {patience : Duration} {s : State}
  {w : Worker} {k m : ℕ}

def Worker.Nearer (p : Plan) (w : Worker) (m : ℕ) : Prop := ∃ n < m, Ahead p w.round w.place n

theorem nearer_nextRound {n : ℕ} (h : 16 * (p.iterations - w.round) + 3 < n) :
    (State.nextRound p w).Nearer p n := by
  unfold State.nextRound
  split
  · exact ⟨_, by simp only; omega, .acquire .checkFree⟩
  · exact ⟨3, by omega, .deregister⟩

/-- A call in a place that is so many steps before the end of the worker. -/
theorem nearer_inInterpreter {t : Turn} {c : Interpreter.Call} {inside : Interpreter.Call → Place}
    {after : Worker} {base : ℕ} (hc : c.Undisturbed m)
    (hs : Shows s.interpreter.gil t.me c.hold)
    (hfree : c.hold = .out → s.interpreter.gil.word = Mode.freeWord)
    (hw : s.interpreter.gil.waiters = 0)
    (hinside : ∀ c' n, c'.Undisturbed n → Ahead p w.round (inside c') (base + n))
    (hafter : after.Nearer p (base + m)) :
    (s.inInterpreter t w c inside after).2.Nearer p (base + m) := by
  have hstep := hc.step hs hfree hw
  unfold State.inInterpreter
  cases hp : (c.step t s.interpreter).2 with
  | going c' =>
    rw [hp] at hstep
    obtain ⟨n, hlt, hn⟩ := hstep
    simp only [hp]
    exact ⟨base + n, by omega, hinside c' n hn⟩
  | done b =>
    simp only [hp]
    exact hafter
  | unwound e =>
    rw [hp] at hstep
    exact hstep.elim

theorem Ahead.step (h : Ahead p w.round w.place m) (hgone : w.isGone = false) (now : Instant)
    (pick : ℕ) (hs : Shows s.interpreter.gil w.ident w.place.hold)
    (hfree : w.place.hold = .out → s.interpreter.gil.word = Mode.freeWord)
    (hw : s.interpreter.gil.waiters = 0) : (s.stepWorker p now pick w).2.Nearer p m := by
  obtain ⟨me, n, place⟩ := w
  cases h with
  | install => exact ⟨_, Nat.lt_succ_self _, .register⟩
  | register => exact nearer_nextRound (Nat.lt_succ_self _)
  | acquire hc =>
    refine nearer_inInterpreter hc hs hfree hw (fun _ _ hn => .acquire hn) ⟨_, ?_, .enter⟩
    exact Nat.lt_add_of_pos_right hc.pos
  | enter => exact ⟨_, Nat.lt_succ_self _, .pass⟩
  | pass => exact ⟨_, Nat.lt_succ_self _, .leave⟩
  | leave =>
    simp only [State.stepWorker]
    by_cases hy : p.yieldsAfter n = true
    · rw [if_pos hy]
      exact ⟨_, by simp only; omega, .yield .checkYielder⟩
    · rw [if_neg hy]
      exact ⟨_, by simp only; omega, .release .checkReleaser⟩
  | yield hc =>
    have hpos := hc.pos
    refine nearer_inInterpreter hc hs hfree hw (fun _ _ hn => .yield hn)
      ⟨_, ?_, .release .checkReleaser⟩
    simp only
    omega
  | release hc =>
    have hpos := hc.pos
    refine nearer_inInterpreter hc hs hfree hw (fun _ _ hn => .release hn)
      (nearer_nextRound ?_)
    simp only
    omega
  | deregister => exact ⟨2, by decide, .giveBack⟩
  | giveBack => exact ⟨1, by decide, .recordExit⟩
  | recordExit => exact ⟨0, by decide, .gone⟩
  | gone => cases hgone

theorem Ahead.isGone (h : Ahead p w.round w.place 0) : w.isGone = true := by
  obtain ⟨me, n, place⟩ := w
  generalize hm : 0 = m at h
  cases h with
  | gone => rfl
  | _ => omega

def Place.isApart : Place → Bool
  | .wrapper _ | .gone _ => true
  | _ => false

theorem share_waiters : w.share p .waiters = w.place.pending .waiters := UInt64.zero_add _

theorem Ahead.pending_waiters (h : Ahead p w.round w.place m) : w.place.pending .waiters = 0 := by
  obtain ⟨me, n, place⟩ := w
  cases h with
  | acquire hc => simp [Place.pending, contribution, hc.isEnlisted, Bool.toUInt64]
  | yield hc => simp [Place.pending, contribution, hc.isEnlisted, Bool.toUInt64]
  | release hc => simp [Place.pending, contribution, hc.isEnlisted, Bool.toUInt64]
  | _ => rfl

def State.Clear (s : State) (k : ℕ) : Prop :=
  ∀ (j : ℕ) (v : Worker), j ≠ k → s.workers[j]? = some v → v.place.isApart = true

namespace Sound

variable (hs : Sound p mode backend patience s) (hk : s.workers[k]? = some w)
  (hclear : s.Clear k)

include hs hk hclear

theorem waiters_eq_zero (h : Ahead p w.round w.place m) : s.interpreter.gil.waiters = 0 := by
  have htotal : s.interpreter.gil.waiters = s.tally fun w => w.share p .waiters :=
    hs.total .waiters
  rw [htotal]
  apply List.sum_eq_zero
  intro x hx
  obtain ⟨v, hv, rfl⟩ := List.mem_map.mp hx
  obtain ⟨j, hj⟩ := List.getElem?_of_mem hv
  rw [share_waiters]
  by_cases hjk : j = k
  · rw [hjk, hk, Option.some_inj] at hj
    rw [← hj]
    exact h.pending_waiters
  · have hapart := hclear j v hjk hj
    cases hv : v.place <;> rw [hv] at hapart <;> first | rfl | cases hapart

theorem word_free (hout : w.place.hold = .out) :
    s.interpreter.gil.word = Mode.freeWord := by
  obtain ⟨hold, hh⟩ := hs.holds
  refine (hh.free fun j v hj => ?_).1
  by_cases hjk : j = k
  · rw [hjk, hk, Option.some_inj] at hj
    rw [← hj]
    exact hout
  · have hapart := hclear j v hjk hj
    cases hv : v.place <;> rw [hv] at hapart <;> first | rfl | cases hapart

end Sound

/-- A worker that the others leave alone comes to its end, and is then all that has changed. -/
theorem runWorker_ends (hs : Sound p mode backend patience s) (hp : p.threads < 2 ^ 62)
    (host : Host) {now : Instant} (ht : ¬Overruns now patience) (hk : s.workers[k]? = some w)
    (h : Ahead p w.round w.place m) (hclear : s.Clear k) {bound : ℕ} (hm : m ≤ bound) :
    Sound p mode backend patience (s.runWorker host p now k bound) ∧
      ∃ v : Worker, v.isGone = true ∧
        (s.runWorker host p now k bound).workers = s.workers.set k v := by
  obtain ⟨hlen, hget⟩ := List.getElem?_eq_some_iff.mp hk
  have hsame : s.workers = s.workers.set k w := by rw [← hget, List.set_getElem_self]
  -- The steps left stay within the bound, and the others keep away because only `k` moves.
  induction bound generalizing s w m with
  | zero =>
    obtain rfl : m = 0 := by omega
    exact ⟨hs, w, h.isGone, hsame⟩
  | succ bound ih =>
    cases hgone : w.isGone with
    | true =>
      simp only [State.runWorker, hk, Option.all_some, hgone, if_true]
      exact ⟨hs, w, hgone, hsame⟩
    | false =>
      obtain ⟨hold, hh⟩ := hs.holds
      have hsh := hh.custody.shows w.ident
      rw [hh.own k w hk] at hsh
      obtain ⟨n, hlt, hn⟩ := h.step hgone now 0 hsh (hs.word_free hk hclear)
        (hs.waiters_eq_zero hk hclear h)
      have hworkers : (s.step host p (.worker k now 0)).workers =
          s.workers.set k (s.stepWorker p now 0 w).2 := by
        simp only [State.step, hk, (stepWorker_staff p now 0 s w).2.2]
      have hk' : (s.step host p (.worker k now 0)).workers[k]? =
          some (s.stepWorker p now 0 w).2 := by
        rw [hworkers, List.getElem?_set_self hlen]
      have hclear' : (s.step host p (.worker k now 0)).Clear k := by
        intro j v hj hv
        rw [hworkers, List.getElem?_set_ne hj.symm] at hv
        exact hclear j v hj hv
      obtain ⟨hlen', hget'⟩ := List.getElem?_eq_some_iff.mp hk'
      obtain ⟨hs', v, hv, hset⟩ := ih (hs.worker hp host k now 0 ht) hk' hn hclear' (by omega)
        hlen' hget' (by rw [← hget', List.set_getElem_self])
      simp only [State.runWorker, hk, Option.all_some, hgone]
      refine ⟨hs', v, hv, ?_⟩
      rw [hworkers, List.set_set] at hset
      exact hset

theorem runWorker_manager (host : Host) (p : Plan) (now : Instant) (k bound : ℕ) (s : State) :
    (s.runWorker host p now k bound).manager = s.manager := by
  induction bound generalizing s with
  | zero => rfl
  | succ bound ih =>
    simp only [State.runWorker]
    split
    · rfl
    · rw [ih]
      cases hk : s.workers[k]? with
      | none => simp only [State.step, hk]
      | some w => simp only [State.step, hk, (stepWorker_staff p now 0 s w).1]

structure State.InTurn (s : State) (n : ℕ) : Prop where
  gone : ∀ (k : ℕ) (w : Worker), k < n → s.workers[k]? = some w → w.isGone = true
  fresh : ∀ (k : ℕ) (w : Worker), n ≤ k → s.workers[k]? = some w → w = { ident := w.ident }

theorem State.InTurn.clear (h : s.InTurn k) : s.Clear k := by
  intro j v hj hv
  rcases Nat.lt_or_gt_of_ne hj with hlt | hgt
  · have hgone := h.gone j v hlt hv
    unfold Worker.isGone at hgone
    cases hplace : v.place <;> rw [hplace] at hgone <;> first | rfl | cases hgone
  · rw [h.fresh j v hgt.le hv]
    rfl

theorem State.InTurn.set {s' : State} {v : Worker} (h : s.InTurn k) (hv : v.isGone = true)
    (hw : s'.workers = s.workers.set k v) : s'.InTurn (k + 1) := by
  constructor
  · intro j u hj hu
    rw [hw] at hu
    rcases getElem?_set_cases hu with ⟨-, rfl⟩ | ⟨hne, hu⟩
    · exact hv
    · exact h.gone j u (by omega) hu
  · intro j u hj hu
    rw [hw, List.getElem?_set_ne (by omega)] at hu
    exact h.fresh j u (by omega) hu

theorem runWorkers_inTurn (hs : Sound p mode backend patience s) (hp : p.threads < 2 ^ 62)
    (host : Host) {now : Instant} (ht : ¬Overruns now patience) (hl : s.InTurn 0) (n : ℕ)
    (hn : n ≤ s.workers.length) :
    let r := (List.range n).foldl
      (fun s k => s.runWorker host p now k (32 * (p.iterations + 1))) s
    Sound p mode backend patience r ∧ r.workers.length = s.workers.length ∧ r.InTurn n := by
  induction n with
  | zero => exact ⟨hs, rfl, hl⟩
  | succ n ih =>
    obtain ⟨hsound, hlen, hturn⟩ := ih (by omega)
    simp only [List.range_succ, List.foldl_append, List.foldl_cons, List.foldl_nil]
    generalize (List.range n).foldl
      (fun s k => s.runWorker host p now k (32 * (p.iterations + 1))) s = r at *
    have hlt : n < r.workers.length := by omega
    have hk : r.workers[n]? = some r.workers[n] := List.getElem?_eq_getElem hlt
    have hahead : Ahead p r.workers[n].round r.workers[n].place (16 * p.iterations + 5) := by
      rw [hturn.fresh n _ le_rfl hk]
      exact .install
    obtain ⟨hs', v, hv, hw⟩ := runWorker_ends hsound hp host ht hk hahead hturn.clear
      (show _ ≤ 32 * (p.iterations + 1) by omega)
    refine ⟨hs', ?_, hturn.set hv hw⟩
    rw [hw, List.length_set, hlen]

theorem runWorkers_manager (host : Host) (p : Plan) (now : Instant) (bound : ℕ) (s : State) :
    (s.runWorkers host p now bound).manager = s.manager := by
  unfold State.runWorkers
  induction List.range s.workers.length generalizing s with
  | nil => rfl
  | cons k rest ih => rw [List.foldl_cons, ih, runWorker_manager]

def Manager.stepsLeft (p : Plan) : Manager → ℕ
  | .spawning n place =>
    5 * (p.threads - n - 1) +
      match place with
      | .reserve => 5
      | .takeIdent => 4
      | .launch _ => 3
      | .abandon _ => 2
      | .recordFailure _ | .recordSpawned _ => 1
  | _ => 0

theorem stepsLeft_lt (host : Host) {n : ℕ} {place : Spawn} (h : s.manager = .spawning n place) :
    (s.step host p .manager).manager.stepsLeft p < s.manager.stepsLeft p := by
  simp only [State.step, State.stepManager, h]
  cases place with
  | reserve =>
    simp only [Spawn.step]
    cases s.interpreter.bootstrap.limit with
    | none => simp [Manager.stepsLeft]
    | some limit =>
      by_cases hlt : s.interpreter.bootstrap.live < limit <;> simp [Manager.stepsLeft, hlt]
  | takeIdent => simp [Spawn.step, Manager.stepsLeft]
  | launch i =>
    simp only [Spawn.step]
    cases Spawn.nameFault? (some (workerName n)) with
    | some e => simp [Manager.stepsLeft]
    | none =>
      cases host.refusal? s.interpreter.bootstrap.stackSize <;> simp [Manager.stepsLeft]
  | abandon cause => cases cause <;> simp [Spawn.step, Manager.stepsLeft]
  | recordFailure e => simp [Spawn.step, Manager.stepsLeft]
  | recordSpawned i =>
    simp only [Spawn.step]
    by_cases hlast : n + 1 < p.threads
    · simp only [hlast, if_true, Manager.stepsLeft]
      omega
    · simp [hlast, Manager.stepsLeft]

theorem State.InTurn.manage (h : s.InTurn 0) (host : Host) : (s.step host p .manager).InTurn 0 := by
  refine ⟨fun k w hk => absurd hk (Nat.not_lt_zero k), fun k w hn hk => ?_⟩
  cases hm : s.manager with
  | spawning n place =>
    have hworkers : (s.step host p .manager).workers = s.workers ++
        ((place.launches? host (some (workerName n)) ⟨s.interpreter.bootstrap, s.idents⟩).map
          fun i => ({ ident := i } : Worker)).toList := by
      simp only [State.step, State.stepManager, hm]
      split <;> rfl
    rw [hworkers] at hk
    cases hl : place.launches? host (some (workerName n)) ⟨s.interpreter.bootstrap, s.idents⟩ with
    | none =>
      rw [hl, Option.map_none, Option.toList_none, List.append_nil] at hk
      exact h.fresh k w hn hk
    | some i =>
      rw [hl, Option.map_some, Option.toList_some] at hk
      rcases getElem?_concat_cases hk with hk | ⟨-, rfl⟩
      · exact h.fresh k w hn hk
      · rfl
  | _ =>
    simp only [State.step, State.stepManager, hm] at hk
    exact h.fresh k w hn hk

theorem runManager_ends (hp : p.threads < 2 ^ 62) (host : Host) {bound : ℕ}
    (hm : s.manager.stepsLeft p ≤ bound) (hl : s.InTurn 0)
    (hs : s.manager.hasGivenUp = true ∨ Sound p mode backend patience s) :
    let r := s.runManager host p bound
    (∀ n place, r.manager ≠ .spawning n place) ∧ r.InTurn 0 ∧
      (r.manager.hasGivenUp = true ∨ Sound p mode backend patience r) := by
  induction bound generalizing s with
  | zero =>
    refine ⟨fun n place hsp => ?_, hl, hs⟩
    have hpos := stepsLeft_lt (p := p) host hsp
    simp only [State.runManager] at hpos
    omega
  | succ bound ih =>
    cases hsp : s.manager with
    | spawning n place =>
      have hlt := stepsLeft_lt (p := p) host hsp
      simp only [State.runManager, hsp]
      refine ih (by omega) (hl.manage host) ?_
      rcases hs with hgiven | hs
      · exact .inl (step_hasGivenUp host p .manager hgiven)
      · exact hs.manage hp host
    | _ =>
      rw [hsp] at hs
      simp only [State.runManager, hsp]
      exact ⟨nofun, hl, hs⟩

theorem stepsLeft_start (p : Plan) (r : Interpreter) :
    (State.start p r).manager.stepsLeft p ≤ 8 * (p.threads + 1) := by
  unfold State.start
  split
  · exact Nat.zero_le _
  · simp only [Manager.stepsLeft]
    omega

theorem le_largestList {host : Host} {threads : ℕ} (h : makeRoom host threads = .ok ()) :
    threads * handleSize ≤ largestList := by
  unfold makeRoom at h
  by_contra hlarge
  rw [if_pos (Nat.lt_of_not_le hlarge)] at h
  cases h

theorem finalState_eq_ok {host : Host} {c : Config} {now : Instant}
    (h : finalState host c p now = .ok s) :
    ∃ r, Interpreter.build c = .ok r ∧ p.threads * handleSize ≤ largestList ∧
      s = (State.start p r).run host p now ∧ (∀ e, s.manager ≠ .failed e) ∧
      ∀ e, s.manager ≠ .panicked e := by
  unfold finalState at h
  cases hb : Interpreter.build c with
  | error e =>
    rw [hb] at h
    cases h
  | ok r =>
    cases hroom : makeRoom host p.threads with
    | error e =>
      rw [hb, hroom] at h
      cases h
    | ok u =>
      simp only [hb, hroom, Except.mapError, bind, Except.bind] at h
      split at h
      · cases h
      · cases h
      · cases h
        exact ⟨r, rfl, le_largestList hroom, rfl, by assumption, by assumption⟩

/-- The run in which the workers take their turns one after the other is not cut short: unless the
manager gives up, every worker comes to its end, and the workload adds up. -/
theorem addsUp_finalState {host : Host} {c : Config} {now : Instant}
    (h : finalState host c p now = .ok s) (ht : ¬Overruns now c.patience) (elapsedMillis : ℕ) :
    s.isOver = true ∧ AddsUp p s (s.report p elapsedMillis) := by
  obtain ⟨r, hb, hroom, rfl, hfailed, hpanicked⟩ := finalState_eq_ok h
  have hp := threads_lt hroom
  have hnone : (State.start p r).InTurn 0 := ⟨by simp, by simp [State.start]⟩
  have hstart := sound_start (p := p) hb
  obtain ⟨hwaits, hturn, hsound⟩ :=
    runManager_ends hp host (stepsLeft_start p r) hnone (.inr hstart)
  unfold State.run at hfailed hpanicked ⊢
  generalize (State.start p r).runManager host p (8 * (p.threads + 1)) = s at *
  rw [runWorkers_manager] at hfailed hpanicked
  have hjoining : s.manager = .joining := by
    cases hm : s.manager with
    | spawning n place => exact absurd hm (hwaits n place)
    | joining => rfl
    | failed e => exact absurd hm (hfailed e)
    | panicked e => exact absurd hm (hpanicked e)
  have hs : Sound p c.mode c.backend c.patience s := by
    rcases hsound with hgiven | hs
    · rw [hjoining] at hgiven
      cases hgiven
    · exact hs
  obtain ⟨hend, hlen, hgone⟩ := runWorkers_inTurn hs hp host ht hturn _ le_rfl
  have hover : (s.runWorkers host p now (32 * (p.iterations + 1))).isOver = true := by
    rw [isOver_iff, runWorkers_manager]
    refine ⟨hjoining, fun w hw => ?_⟩
    obtain ⟨k, hk⟩ := List.getElem?_of_mem hw
    have hlt := (List.getElem?_eq_some_iff.mp hk).1
    rw [State.runWorkers, hlen] at hlt
    exact hgone.gone k w hlt hk
  exact ⟨hover, hend.addsUp hover elapsedMillis⟩

end Workload

end InterpreterLock
