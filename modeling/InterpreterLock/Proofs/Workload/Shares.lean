import InterpreterLock.Proofs.Bootstrap.System
import InterpreterLock.Proofs.Workload.Calls
import InterpreterLock.Workload
import Mathlib.Data.Nat.ModEq

/-!
# The share of a worker

Each worker contributes to what a workload counts: sections, yields, acquisitions, and for a while
one inside and one waiter. Its place and its round say how much it has contributed so far. A step of
the worker moves the counters by as much as it moves the share of the worker.
-/

set_option autoImplicit false

namespace InterpreterLock.Workload

open Gil (Hold Shift Shows Overruns Made)

inductive Item
  | sections
  | inside
  | yields
  | acquires
  | waiters
  | exits

def State.amount (s : State) : Item → UInt64
  | .sections => s.sections
  | .inside => s.inside
  | .yields => s.interpreter.metrics.gil.yields
  | .acquires => s.interpreter.metrics.acquires
  | .waiters => s.interpreter.gil.waiters
  | .exits => s.interpreter.metrics.threads.exited

def contribution (short due enlisted : Bool) : Item → UInt64
  | .acquires => -short.toUInt64
  | .yields => -due.toUInt64
  | .waiters => enlisted.toUInt64
  | _ => 0

namespace Place

def hold : Place → Hold
  | .wrapper _ | .gone _ => .out
  | .enter | .pass | .leave => .recorded
  | .acquire c | .yield c | .release c => c.hold

def pending : Place → Item → UInt64
  | .acquire c | .yield c | .release c => contribution c.isShort c.isDue c.isEnlisted
  | _ => fun _ => 0

def isUnpassed : Place → Bool
  | .acquire _ | .enter | .pass => true
  | _ => false

def isInside : Place → Bool
  | .pass | .leave => true
  | _ => false

def isUnyielded : Place → Bool
  | .acquire _ | .enter | .pass | .leave => true
  | _ => false

def isGone : Place → Bool
  | .gone _ => true
  | _ => false

def holdsSlot : Place → Bool
  | .wrapper c => c.holds
  | .gone _ => false
  | _ => true

end Place

def Worker.rounds (p : Plan) (w : Worker) : Item → UInt64
  | .sections => .ofNat w.round - w.place.isUnpassed.toUInt64
  | .inside => w.place.isInside.toUInt64
  | .yields =>
    .ofNat (w.round / p.yieldEvery) - (w.place.isUnyielded && p.yieldsAfter w.round).toUInt64
  | .acquires => .ofNat w.round
  | .waiters => 0
  | .exits => w.place.isGone.toUInt64

def Worker.share (p : Plan) (w : Worker) (i : Item) : UInt64 := w.rounds p i + w.place.pending i

inductive Stands (p : Plan) : ℕ → Place → Prop
  | install : Stands p 0 (.wrapper .install)
  | register : Stands p 0 (.wrapper .register)
  | acquire {n : ℕ} {c : Interpreter.Call} (hn : n ≤ p.iterations) (hc : c.isAcquire = true) :
    Stands p n (.acquire c)
  | enter {n : ℕ} (hn : n ≤ p.iterations) : Stands p n .enter
  | pass {n : ℕ} (hn : n ≤ p.iterations) : Stands p n .pass
  | leave {n : ℕ} (hn : n ≤ p.iterations) : Stands p n .leave
  | yield {n : ℕ} {c : Interpreter.Call} (hn : n ≤ p.iterations) (hc : c.isYield = true) :
    Stands p n (.yield c)
  | release {n : ℕ} {c : Interpreter.Call} (hn : n ≤ p.iterations) (hc : c.isRelease = true) :
    Stands p n (.release c)
  | deregister : Stands p p.iterations (.wrapper (.deregister none))
  | giveBack : Stands p p.iterations (.wrapper (.giveBack none))
  | recordExit : Stands p p.iterations (.wrapper (.recordExit none))
  | gone : Stands p p.iterations (.gone none)

structure Moves (p : Plan) (s s' : State) (w w' : Worker) : Prop where
  ident : w'.ident = w.ident
  stands : Stands p w'.round w'.place
  shift : ∃ takes frees, Shift w.ident s.interpreter.gil s'.interpreter.gil takes frees
    w.place.hold w'.place.hold
  share : ∀ i, s'.amount i + w.share p i = s.amount i + w'.share p i
  live : s'.interpreter.bootstrap.live + w.place.holdsSlot.toNat =
    s.interpreter.bootstrap.live + w'.place.holdsSlot.toNat
  violations : s'.violations = s.violations
  spawned : s'.interpreter.metrics.threads.spawned = s.interpreter.metrics.threads.spawned
  failures : s'.interpreter.metrics.threads.spawnFailures =
    s.interpreter.metrics.threads.spawnFailures
  made : ∀ {mode backend patience}, Made mode backend patience s.interpreter.gil →
    Made mode backend patience s'.interpreter.gil

variable {p : Plan} {s s' : State} {w : Worker} {t : Turn}

theorem yields_succ (p : Plan) (n : ℕ) :
    (n + 1) / p.yieldEvery = n / p.yieldEvery + (p.yieldsAfter (n + 1)).toNat := by
  rw [Nat.succ_div, Plan.yieldsAfter]
  by_cases hd : p.yieldEvery ∣ n + 1
  · have hk : (p.yieldEvery != 0) = true := by
      rw [bne_iff_ne]
      intro h
      rw [h, Nat.zero_dvd] at hd
      omega
    simp [hd, hk, Nat.mod_eq_zero_of_dvd hd]
  · have hm : (n + 1) % p.yieldEvery ≠ 0 := fun h => hd (Nat.dvd_of_mod_eq_zero h)
    simp [hd, hm]

theorem ofNat_toNat_bool (b : Bool) : UInt64.ofNat b.toNat = b.toUInt64 := by cases b <;> rfl

/-- A worker that begins a round has contributed what it had before. -/
theorem share_nextRound (p : Plan) (w : Worker) (i : Item) :
    (State.nextRound p w).share p i =
      ({ w with place := .wrapper (.deregister none) } : Worker).share p i := by
  unfold State.nextRound
  split
  · cases i with
    | sections =>
      simp only [Worker.share, Worker.rounds, UInt64.ofNat_add, Place.isUnpassed, Bool.toUInt64]
      simp [Place.pending, contribution]
    | yields =>
      simp only [Worker.share, Worker.rounds, yields_succ, UInt64.ofNat_add, ofNat_toNat_bool,
        Place.isUnyielded]
      simp [Place.pending, contribution, Interpreter.Call.isDue, Interpreter.Call.toAcquire,
        Bool.toUInt64]
    | acquires =>
      have hone : UInt64.ofNat (w.round + 1) + -1 = UInt64.ofNat w.round + 0 := by
        rw [UInt64.ofNat_add]
        grind
      exact hone
    | _ => rfl
  · rfl

theorem stands_nextRound (hn : w.round ≤ p.iterations) :
    Stands p (State.nextRound p w).round (State.nextRound p w).place := by
  unfold State.nextRound
  split
  · rename_i h
    exact .acquire h rfl
  · rename_i h
    have he : w.round = p.iterations := by omega
    rw [he]
    exact .deregister

theorem nextRound_hold (p : Plan) (w : Worker) : (State.nextRound p w).place.hold = .out := by
  unfold State.nextRound
  split <;> rfl

theorem nextRound_holdsSlot (p : Plan) (w : Worker) :
    (State.nextRound p w).place.holdsSlot = true := by
  unfold State.nextRound
  split <;> rfl

theorem nextRound_ident (p : Plan) (w : Worker) : (State.nextRound p w).ident = w.ident := by
  unfold State.nextRound
  split <;> rfl

theorem contribution_none (i : Item) : contribution false false false i = 0 := by cases i <;> rfl

theorem share_eq_rounds {i : Item} (h : w.place.pending i = 0) : w.share p i = w.rounds p i := by
  rw [Worker.share, h, UInt64.add_zero]

theorem amount_of_counted {x : Interpreter} {c : Interpreter.Call} {short due enlisted : Bool}
    (h : c.Counted s.interpreter x short due enlisted)
    (hx : x.metrics.threads = s.interpreter.metrics.threads) (i : Item) :
    ({ s with interpreter := x } : State).amount i + contribution c.isShort c.isDue c.isEnlisted i =
      s.amount i + contribution short due enlisted i := by
  cases i with
  | acquires =>
    have hc := h.acquires
    simp only [State.amount, contribution]
    grind
  | yields =>
    have hc := h.yields
    simp only [State.amount, contribution]
    grind
  | waiters => exact h.waiters
  | exits => simp only [State.amount, hx, contribution]
  | _ => rfl

structure Hosts (p : Plan) (w : Worker) (kind : Interpreter.Call → Bool)
    (place : Interpreter.Call → Place) (after : Worker) : Prop where
  stands : ∀ c, kind c = true → Stands p w.round (place c)
  hold : ∀ c, (place c).hold = c.hold
  rounds : ∀ c i, ({ w with place := place c } : Worker).rounds p i = w.rounds p i
  pending : ∀ c, (place c).pending = contribution c.isShort c.isDue c.isEnlisted
  slot : ∀ c, (place c).holdsSlot = true
  keeps : ∀ c, kind c = true → c.forgets = false
  ident : after.ident = w.ident
  standsAfter : Stands p after.round after.place
  shareAfter : ∀ i, after.share p i = w.rounds p i
  slotAfter : after.place.holdsSlot = true

theorem Hosts.moves {kind : Interpreter.Call → Bool} {place : Interpreter.Call → Place}
    {after : Worker} {c : Interpreter.Call} (h : Hosts p w kind place after)
    (ht : t.me = w.ident) (hw : w.place = place c) (hk : kind c = true)
    (hs : c.Serves t s.interpreter kind after.place.hold) :
    Moves p s (s.inInterpreter t w c place after).1 w (s.inInterpreter t w c place after).2 := by
  obtain ⟨takes, frees, hserves⟩ := hs
  have hthreads := c.step_threads (t := t) (s := s.interpreter)
  have hlive : (c.step t s.interpreter).1.bootstrap.live = s.interpreter.bootstrap.live := by
    simp [c.step_bootstrap, h.keeps c hk]
  have hshare : ∀ i, w.share p i =
      w.rounds p i + contribution c.isShort c.isDue c.isEnlisted i := by
    intro i
    rw [Worker.share, hw, h.pending]
  rw [ht, ← h.hold c, ← hw] at hserves
  cases hp : (c.step t s.interpreter).2 with
  | going c' =>
    simp only [hp, Progress.Meets] at hserves
    obtain ⟨hkind, hshift, hcounted⟩ := hserves
    simp only [State.inInterpreter, hp]
    refine ⟨rfl, h.stands c' hkind, ⟨takes, frees, ?_⟩, fun i => ?_, ?_, rfl, ?_, ?_,
      fun hm => c.step_made hm⟩
    · rw [h.hold]
      exact hshift
    · have hc := amount_of_counted hcounted hthreads i
      rw [hshare, Worker.share, h.rounds, h.pending]
      grind
    · rw [hlive, hw, h.slot, h.slot]
    · rw [hthreads]
    · rw [hthreads]
  | done b =>
    simp only [hp, Progress.Meets] at hserves
    obtain ⟨hshift, hcounted⟩ := hserves
    simp only [State.inInterpreter, hp]
    refine ⟨h.ident, h.standsAfter, ⟨takes, frees, hshift⟩, fun i => ?_, ?_, rfl, ?_, ?_,
      fun hm => c.step_made hm⟩
    · have hc := amount_of_counted hcounted hthreads i
      rw [contribution_none] at hc
      rw [hshare, h.shareAfter]
      grind
    · rw [hlive, hw, h.slot, h.slotAfter]
    · rw [hthreads]
    · rw [hthreads]
  | unwound e =>
    rw [hp] at hserves
    exact hserves.elim

section

variable {c : Interpreter.Call}

theorem hosts_acquire (hn : w.round ≤ p.iterations) (hw : w.place = .acquire c) :
    Hosts p w Interpreter.Call.isAcquire .acquire { w with place := .enter } where
  stands _ hc := .acquire hn hc
  hold _ := rfl
  rounds c i := by cases i <;> simp only [Worker.rounds, hw] <;> rfl
  pending _ := rfl
  slot _ := rfl
  keeps c hc := by cases c <;> first | rfl | cases hc
  ident := rfl
  standsAfter := .enter hn
  shareAfter i := by
    rw [share_eq_rounds rfl]
    cases i <;> simp only [Worker.rounds, hw] <;> rfl
  slotAfter := rfl

theorem hosts_yield (hn : w.round ≤ p.iterations) (hw : w.place = .yield c) :
    Hosts p w Interpreter.Call.isYield .yield { w with place := .release .toRelease } where
  stands _ hc := .yield hn hc
  hold _ := rfl
  rounds c i := by cases i <;> simp only [Worker.rounds, hw] <;> rfl
  pending _ := rfl
  slot _ := rfl
  keeps c hc := by cases c <;> first | rfl | cases hc
  ident := rfl
  standsAfter := .release hn rfl
  shareAfter i := by
    have hpending : (Place.release .toRelease).pending i = 0 := contribution_none i
    rw [share_eq_rounds hpending]
    cases i <;> simp only [Worker.rounds, hw] <;> rfl
  slotAfter := rfl

theorem hosts_release (hn : w.round ≤ p.iterations) (hw : w.place = .release c) :
    Hosts p w Interpreter.Call.isRelease .release (State.nextRound p w) where
  stands _ hc := .release hn hc
  hold _ := rfl
  rounds c i := by cases i <;> simp only [Worker.rounds, hw] <;> rfl
  pending _ := rfl
  slot _ := rfl
  keeps c hc := by cases c <;> first | rfl | cases hc
  ident := nextRound_ident p w
  standsAfter := stands_nextRound hn
  shareAfter i := by
    rw [share_nextRound, share_eq_rounds rfl]
    cases i <;> simp only [Worker.rounds, hw] <;> rfl
  slotAfter := nextRound_holdsSlot p w

end

/-- A worker leaves it to the manager who works. -/
theorem stepWorker_staff (p : Plan) (now : Instant) (pick : ℕ) (s : State) (w : Worker) :
    (s.stepWorker p now pick w).1.manager = s.manager ∧
      (s.stepWorker p now pick w).1.idents = s.idents ∧
      (s.stepWorker p now pick w).1.workers = s.workers := by
  have hcall : ∀ t c inside after, (s.inInterpreter t w c inside after).1.manager = s.manager ∧
      (s.inInterpreter t w c inside after).1.idents = s.idents ∧
      (s.inInterpreter t w c inside after).1.workers = s.workers := by
    intro t c inside after
    unfold State.inInterpreter
    split
    split <;> exact ⟨rfl, rfl, rfl⟩
  obtain ⟨me, n, place⟩ := w
  cases place with
  | wrapper c => cases c <;> exact ⟨rfl, rfl, rfl⟩
  | acquire c => exact hcall ..
  | yield c => exact hcall ..
  | release c => exact hcall ..
  | _ => exact ⟨rfl, rfl, rfl⟩

theorem Moves.of_still {w' : Worker} (hi : w'.ident = w.ident) (hst : Stands p w'.round w'.place)
    (hh : w'.place.hold = w.place.hold)
    (hshare : ∀ i, s'.amount i + w.share p i = s.amount i + w'.share p i)
    (hlive : s'.interpreter.bootstrap.live + w.place.holdsSlot.toNat =
      s.interpreter.bootstrap.live + w'.place.holdsSlot.toNat)
    (hv : s'.violations = s.violations)
    (hspawned : s'.interpreter.metrics.threads.spawned = s.interpreter.metrics.threads.spawned)
    (hfailures : s'.interpreter.metrics.threads.spawnFailures =
      s.interpreter.metrics.threads.spawnFailures)
    (hgil : s'.interpreter.gil = s.interpreter.gil) : Moves p s s' w w' := by
  refine ⟨hi, hst, ⟨false, false, ?_⟩, hshare, hlive, hv, hspawned, hfailures, fun hm => ?_⟩
  · rw [hgil, hh]
    exact .keep _ rfl rfl
  · rw [hgil]
    exact hm

section

variable {me : Ident} {n : ℕ} (now : Instant) (pick : ℕ)

theorem moves_wrapper {c : Wrapper} (hst : Stands p n (.wrapper c))
    (hlive : c.holds.toNat ≤ s.interpreter.bootstrap.live) :
    Moves p s (s.stepWorker p now pick ⟨me, n, .wrapper c⟩).1 ⟨me, n, .wrapper c⟩
      (s.stepWorker p now pick ⟨me, n, .wrapper c⟩).2 := by
  cases hst with
  | install =>
    exact .of_still rfl .register rfl (fun i => by cases i <;> rfl) rfl rfl rfl rfl rfl
  | register =>
    refine .of_still (nextRound_ident p _) (stands_nextRound (Nat.zero_le _))
      (nextRound_hold p _) (fun i => ?_) ?_ rfl rfl rfl rfl
    · simp only [State.stepWorker, Wrapper.step, share_nextRound]
      cases i <;> rfl
    · simp only [State.stepWorker, Wrapper.step, nextRound_holdsSlot]
      rfl
  | deregister =>
    exact .of_still rfl .giveBack rfl (fun i => by cases i <;> rfl) rfl rfl rfl rfl rfl
  | giveBack =>
    refine .of_still rfl .recordExit rfl (fun i => by cases i <;> rfl) ?_ rfl rfl rfl rfl
    exact Nat.sub_add_cancel hlive
  | recordExit =>
    refine .of_still rfl .gone rfl (fun i => ?_) rfl rfl rfl rfl rfl
    cases i with
    | exits =>
      simp [State.stepWorker, Wrapper.step, Metrics.recordOpt, Metrics.record, State.amount,
        Worker.share, Worker.rounds, Place.isGone, Place.pending, Bool.toUInt64]
    | _ => rfl

theorem moves_enter (hn : n ≤ p.iterations) (hin : s.inside = 0) :
    Moves p s (s.stepWorker p now pick ⟨me, n, .enter⟩).1 ⟨me, n, .enter⟩
      (s.stepWorker p now pick ⟨me, n, .enter⟩).2 := by
  refine .of_still rfl (.pass hn) rfl (fun i => ?_) rfl ?_ rfl rfl rfl
  · cases i with
    | inside =>
      simp [State.stepWorker, State.amount, Worker.share, Worker.rounds, Place.isInside,
        Place.pending, Bool.toUInt64]
    | _ => rfl
  · simp [State.stepWorker, hin]

theorem moves_pass (hn : n ≤ p.iterations) :
    Moves p s (s.stepWorker p now pick ⟨me, n, .pass⟩).1 ⟨me, n, .pass⟩
      (s.stepWorker p now pick ⟨me, n, .pass⟩).2 := by
  refine .of_still rfl (.leave hn) rfl (fun i => ?_) rfl rfl rfl rfl rfl
  cases i with
  | sections =>
    simp only [State.stepWorker, State.amount, Worker.share, Worker.rounds, Place.isUnpassed,
      Place.pending, Bool.toUInt64]
    grind
  | _ => rfl

/-- The yield is due when it begins, if the round has one. -/
theorem moves_leave (hn : n ≤ p.iterations) :
    Moves p s (s.stepWorker p now pick ⟨me, n, .leave⟩).1 ⟨me, n, .leave⟩
      (s.stepWorker p now pick ⟨me, n, .leave⟩).2 := by
  cases hy : p.yieldsAfter n with
  | true =>
    simp only [State.stepWorker, hy, if_true]
    refine .of_still rfl (.yield hn rfl) rfl (fun i => ?_) rfl rfl rfl rfl rfl
    cases i with
    | inside =>
      simp only [State.amount, Worker.share, Worker.rounds, Place.isInside, Bool.toUInt64]
      simp [Place.pending, contribution]
    | yields =>
      simp [State.amount, Worker.share, Worker.rounds, Place.isUnyielded, hy, Place.pending,
        contribution, Interpreter.Call.isDue, Interpreter.Call.toYield, Gil.Yield.isDue,
        Bool.toUInt64]
      grind
    | _ => rfl
  | false =>
    simp only [State.stepWorker, hy]
    refine .of_still rfl (.release hn rfl) rfl (fun i => ?_) rfl rfl rfl rfl rfl
    cases i with
    | inside =>
      simp only [State.amount, Worker.share, Worker.rounds, Place.isInside, Bool.toUInt64]
      simp [Place.pending, contribution]
    | yields =>
      simp [State.amount, Worker.share, Worker.rounds, Place.isUnyielded, hy, Place.pending,
        contribution, Interpreter.Call.isDue, Interpreter.Call.toRelease, Bool.toUInt64]
    | _ => rfl

end

/-- A step of a worker, if it is alone in the section, if its slot is counted, and if the clock shows
the end of the patience. -/
theorem moves_stepWorker (now : Instant) (pick : ℕ) (hst : Stands p w.round w.place)
    (hsh : Shows s.interpreter.gil w.ident w.place.hold) (hin : w.place = .enter → s.inside = 0)
    (hlive : w.place.holdsSlot.toNat ≤ s.interpreter.bootstrap.live)
    (ht : ¬Overruns now s.interpreter.gil.patience) :
    Moves p s (s.stepWorker p now pick w).1 w (s.stepWorker p now pick w).2 := by
  obtain ⟨me, n, place⟩ := w
  cases place with
  | wrapper c => exact moves_wrapper now pick hst hlive
  | acquire c =>
    cases hst with
    | acquire hn hc =>
      exact (hosts_acquire hn rfl).moves (t := ⟨me, now, pick⟩) rfl rfl hc
        (Interpreter.Call.serves_of_isAcquire hc hsh)
  | enter =>
    cases hst with
    | enter hn => exact moves_enter now pick hn (hin rfl)
  | pass =>
    cases hst with
    | pass hn => exact moves_pass now pick hn
  | leave =>
    cases hst with
    | leave hn => exact moves_leave now pick hn
  | yield c =>
    cases hst with
    | yield hn hc =>
      exact (hosts_yield hn rfl).moves (t := ⟨me, now, pick⟩) rfl rfl hc
        (Interpreter.Call.serves_of_isYield hc hsh ht)
  | release c =>
    cases hst with
    | release hn hc =>
      have hserves := Interpreter.Call.serves_of_isRelease (t := ⟨me, now, pick⟩) hc hsh
      rw [← nextRound_hold p ⟨me, n, .release c⟩] at hserves
      exact (hosts_release hn rfl).moves (t := ⟨me, now, pick⟩) rfl rfl hc hserves
  | gone ending => exact .of_still rfl hst rfl (fun i => rfl) rfl rfl rfl rfl rfl

end InterpreterLock.Workload
