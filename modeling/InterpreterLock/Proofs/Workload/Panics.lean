import InterpreterLock.Proofs.Bootstrap.Workshop
import InterpreterLock.Proofs.Workload.Schedule

/-!
# Workers that panic

A worker whose clock cannot show the end of its patience panics in a yield, where it has given the
lock up and not taken it back. Nothing else unwinds a call of a worker. So whatever the clock shows,
no worker leaves its loop with anything of the lock, and the manager finds the panics and no other
violation.
-/

set_option autoImplicit false

namespace InterpreterLock

open Gil (Hold Shift Shows Custody)

/-- Where a yield with the lock unwinds, it has given the lock up. -/
theorem Gil.Yield.hold_of_panic? {t : Turn} {g : Gil} {y : Gil.Yield} {e : Panic}
    (h : y.panic? t g true = some e) : y.hold true = .out := by
  cases y <;> first | rfl | cases h

namespace Interpreter.Call

def Passes (t : Turn) (s : Interpreter) (c : Call) (kind : Call → Bool) (after : Hold) : Prop :=
  ∃ takes frees, (c.step t s).2.Meets
    (fun c' => kind c' = true ∧ Shift t.me s.gil (c.step t s).1.gil takes frees c.hold c'.hold)
    (fun _ => Shift t.me s.gil (c.step t s).1.gil takes frees c.hold after)
    (fun _ => Shift t.me s.gil (c.step t s).1.gil takes frees c.hold .out)

variable {t : Turn} {s : Interpreter} {c : Call}

theorem Serves.passes {kind : Call → Bool} {after : Hold} (h : Serves t s c kind after) :
    Passes t s c kind after := by
  obtain ⟨takes, frees, hserves⟩ := h
  exact ⟨takes, frees, hserves.imp (fun _ h => ⟨h.1, h.2.1⟩) (fun _ h => h.1) fun _ h => h.elim⟩

theorem passes_of_isYield (hc : c.isYield = true) (hs : Shows s.gil t.me c.hold) :
    Passes t s c isYield .recorded := by
  cases c with
  | yield y =>
    have hy := y.accords hs true
    refine ⟨y.takes s.gil, y.frees, ?_⟩
    simp only [step, onGil_meets]
    refine hy.imp (fun y' h => ⟨rfl, h.2⟩) (fun ran h => ?_) fun e h => ?_
    · cases ran with
      | false => exact h.2
      | true => exact ⟨rfl, h.2⟩
    · have hout : (Call.yield y).hold = .out := Gil.Yield.hold_of_panic? h.1
      rw [hout]
      rw [Gil.Yield.hold_of_panic? h.1] at h
      exact h.2.2.2
  | report ending =>
    cases ending with
    | ok b => exact Serves.passes serves_report
    | error e => cases hc
  | _ => cases hc

end Interpreter.Call

namespace Workload

def Place.isOfLoop : Place → Bool
  | .acquire c => c.isAcquire
  | .yield c => c.isYield
  | .release c => c.isRelease
  | _ => true

structure Treads (s s' : State) (w w' : Worker) : Prop where
  ident : w'.ident = w.ident
  place : w'.place.isOfLoop = true
  shift : ∃ takes frees, Shift w.ident s.interpreter.gil s'.interpreter.gil takes frees
    w.place.hold w'.place.hold
  inside : s'.inside + w.place.isInside.toUInt64 = s.inside + w'.place.isInside.toUInt64
  violations : s'.violations = s.violations

variable {p : Plan} {s s' : State} {w w' : Worker} {t : Turn}

theorem nextRound_isOfLoop (p : Plan) (w : Worker) :
    (State.nextRound p w).place.isOfLoop = true := by
  unfold State.nextRound
  split <;> rfl

theorem nextRound_isInside (p : Plan) (w : Worker) :
    (State.nextRound p w).place.isInside = false := by
  unfold State.nextRound
  split <;> rfl

theorem treads_inInterpreter {c : Interpreter.Call} {kind : Interpreter.Call → Bool}
    {inside : Interpreter.Call → Place} {after : Worker} (ht : t.me = w.ident)
    (hw : w.place = inside c) (hp : c.Passes t s.interpreter kind after.place.hold)
    (hhold : ∀ c, (inside c).hold = c.hold)
    (hloop : ∀ c, kind c = true → (inside c).isOfLoop = true)
    (hinside : ∀ c, (inside c).isInside = false) (hident : after.ident = w.ident)
    (hafter : after.place.isOfLoop = true) (hout : after.place.isInside = false) :
    Treads s (s.inInterpreter t w c inside after).1 w (s.inInterpreter t w c inside after).2 := by
  obtain ⟨takes, frees, hmeets⟩ := hp
  have hwin : w.place.isInside = false := by rw [hw, hinside]
  rw [ht, ← hhold c, ← hw] at hmeets
  unfold State.inInterpreter
  cases hp : (c.step t s.interpreter).2 with
  | going c' =>
    rw [hp] at hmeets
    obtain ⟨hkind, hshift⟩ := hmeets
    rw [← hhold c'] at hshift
    simp only [hp]
    exact ⟨rfl, hloop c' hkind, ⟨takes, frees, hshift⟩, by rw [hwin, hinside], rfl⟩
  | done b =>
    rw [hp] at hmeets
    simp only [hp]
    exact ⟨hident, hafter, ⟨takes, frees, hmeets⟩, by rw [hwin, hout], rfl⟩
  | unwound e =>
    rw [hp] at hmeets
    simp only [hp]
    exact ⟨rfl, rfl, ⟨takes, frees, hmeets⟩, by rw [hwin]; rfl, rfl⟩

/-- A step of a worker, if it is alone in the section, whatever the clock shows. -/
theorem treads_stepWorker (p : Plan) (now : Instant) (pick : ℕ)
    (hloop : w.place.isOfLoop = true) (hsh : Shows s.interpreter.gil w.ident w.place.hold)
    (hin : w.place = .enter → s.inside = 0) :
    Treads s (s.stepWorker p now pick w).1 w (s.stepWorker p now pick w).2 := by
  obtain ⟨me, n, place⟩ := w
  have keep (h : Hold) (g : Gil) : ∃ takes frees, Shift me g g takes frees h h :=
    ⟨false, false, .keep h rfl rfl⟩
  cases place with
  | wrapper c =>
    cases c with
    | register | entry =>
      refine ⟨nextRound_ident p _, nextRound_isOfLoop p _, ?_, ?_, rfl⟩
      · simp only [State.stepWorker, Wrapper.step, nextRound_hold]
        exact keep _ _
      · simp only [State.stepWorker, Wrapper.step, nextRound_isInside]
        rfl
    | _ => exact ⟨rfl, rfl, keep _ _, rfl, rfl⟩
  | acquire c =>
    exact treads_inInterpreter (t := ⟨me, now, pick⟩) rfl rfl
      (Interpreter.Call.serves_of_isAcquire hloop hsh).passes (fun _ => rfl) (fun _ h => h)
      (fun _ => rfl) rfl rfl rfl
  | enter =>
    refine ⟨rfl, rfl, keep _ _, ?_, ?_⟩
    · simp [State.stepWorker, Place.isInside, Bool.toUInt64]
    · simp [State.stepWorker, hin rfl]
  | pass => exact ⟨rfl, rfl, keep _ _, rfl, rfl⟩
  | leave =>
    simp only [State.stepWorker]
    cases p.yieldsAfter n with
    | true =>
      refine ⟨rfl, rfl, keep _ _, ?_, rfl⟩
      simp [Place.isInside, Bool.toUInt64]
    | false =>
      refine ⟨rfl, rfl, keep _ _, ?_, rfl⟩
      simp [Place.isInside, Bool.toUInt64]
  | yield c =>
    exact treads_inInterpreter (t := ⟨me, now, pick⟩) rfl rfl
      (Interpreter.Call.passes_of_isYield hloop hsh) (fun _ => rfl) (fun _ h => h)
      (fun _ => rfl) rfl rfl rfl
  | release c =>
    have hserves := Interpreter.Call.serves_of_isRelease (t := ⟨me, now, pick⟩) hloop hsh
    rw [← nextRound_hold p ⟨me, n, .release c⟩] at hserves
    exact treads_inInterpreter (t := ⟨me, now, pick⟩) rfl rfl hserves.passes (fun _ => rfl)
      (fun _ h => h) (fun _ => rfl) (nextRound_ident p _) (nextRound_isOfLoop p _)
      (nextRound_isInside p _)
  | gone ending => exact ⟨rfl, rfl, keep _ _, rfl, rfl⟩

section

variable (host : Host)

theorem stepManager_still (p : Plan) (s : State) :
    (s.stepManager host p).interpreter.gil = s.interpreter.gil ∧
      (s.stepManager host p).inside = s.inside ∧
      (s.stepManager host p).violations = s.violations := by
  unfold State.stepManager
  split
  · simp only
    split
    · exact ⟨rfl, rfl, rfl⟩
    · exact ⟨rfl, rfl, rfl⟩
    · exact ⟨rfl, rfl, rfl⟩
    · exact ⟨rfl, rfl, rfl⟩
  · exact ⟨rfl, rfl, rfl⟩

/-- Only a launch adds a worker. -/
theorem stepManager_workers (p : Plan) (s : State) :
    (s.stepManager host p).workers = s.workers ∨
      ∃ n i, s.manager = .spawning n (.launch i) ∧
        (s.stepManager host p).workers = s.workers ++ [{ ident := i }] := by
  cases hm : s.manager with
  | spawning n place =>
    have hworkers : (s.stepManager host p).workers = s.workers ++
        ((place.launches? host (some (workerName n)) ⟨s.interpreter.bootstrap, s.idents⟩).map
          fun i => ({ ident := i } : Worker)).toList := by
      simp only [State.stepManager, hm]
      split <;> rfl
    rw [hworkers]
    cases place with
    | launch i =>
      simp only [Spawn.launches?]
      split
      · exact .inr ⟨n, i, rfl, rfl⟩
      · exact .inl (List.append_nil _)
    | _ => exact .inl (List.append_nil _)
  | _ =>
    left
    simp only [State.stepManager, hm]

def State.Staffed (p : Plan) (s : State) : Prop :=
  s.manager.hasGivenUp = true ∨
    ∃ spawned, Employs p s.manager s.workers.length s.idents.next spawned

variable {n : ℕ} {i : Ident} {spawned : UInt64}

theorem staffed_reserve (hm : s.manager = .spawning n .reserve)
    (he : Employs p (.spawning n .takeIdent) s.workers.length s.idents.next spawned) :
    (s.stepManager host p).Staffed p := by
  have room : State.Staffed p { s with manager := .spawning n .takeIdent } := .inr ⟨_, he⟩
  cases hlimit : s.interpreter.bootstrap.limit with
  | none =>
    simpa [State.stepManager, hm, Spawn.step, hlimit, Spawn.launches?, State.Staffed] using room
  | some limit =>
    by_cases hlt : s.interpreter.bootstrap.live < limit
    · simpa [State.stepManager, hm, Spawn.step, hlimit, hlt, Spawn.launches?,
        State.Staffed] using room
    · left
      simp [State.stepManager, hm, Spawn.step, hlimit, hlt, Manager.hasGivenUp]

theorem staffed_launch (hm : s.manager = .spawning n (.launch i))
    (he : Employs p (.spawning n (.recordSpawned i)) (s.workers.length + 1) s.idents.next
      spawned) : (s.stepManager host p).Staffed p := by
  cases hname : Spawn.nameFault? (some (workerName n)) with
  | some e =>
    left
    simp [State.stepManager, hm, Spawn.step, hname, Manager.hasGivenUp]
  | none =>
    cases hrefuse : host.refusal? s.interpreter.bootstrap.stackSize with
    | some e =>
      left
      simp [State.stepManager, hm, Spawn.step, hname, hrefuse, Manager.hasGivenUp]
    | none =>
      right
      refine ⟨spawned, ?_⟩
      simpa [State.stepManager, hm, Spawn.step, hname, hrefuse, Spawn.launches?] using he

theorem staffed_recordSpawned (hm : s.manager = .spawning n (.recordSpawned i))
    (hmore : n + 1 < p.threads →
      Employs p (.spawning (n + 1) .reserve) s.workers.length s.idents.next spawned)
    (hlast : ¬n + 1 < p.threads → Employs p .joining s.workers.length s.idents.next spawned) :
    (s.stepManager host p).Staffed p := by
  right
  refine ⟨spawned, ?_⟩
  by_cases hn : n + 1 < p.threads
  · simpa [State.stepManager, hm, Spawn.step, Spawn.launches?, hn] using hmore hn
  · simpa [State.stepManager, hm, Spawn.step, Spawn.launches?, hn] using hlast hn

theorem Employs.step (hp : p.threads < 2 ^ 62)
    (h : Employs p s.manager s.workers.length s.idents.next spawned) :
    (s.stepManager host p).Staffed p := by
  generalize hm : s.manager = m, hl : s.workers.length = n, hi : s.idents.next = next at h
  cases h with
  | reserve hn =>
    apply staffed_reserve host hm
    rw [hl, hi]
    exact .takeIdent hn
  | takeIdent hn =>
    obtain ⟨i, hnum, htake⟩ := take_of_next (by omega) hi
    right
    refine ⟨.ofNat n, ?_⟩
    simpa [State.stepManager, hm, Spawn.step, htake, Spawn.launches?, hl] using
      Employs.launch hn hnum
  | launch hn =>
    apply staffed_launch host hm
    rw [hl, hi]
    exact .recordSpawned hn
  | @recordSpawned n i hn =>
    have hmore : n + 1 < p.threads → Employs p (.spawning (n + 1) .reserve) s.workers.length
        s.idents.next (.ofNat (n + 1)) := by
      rw [hl, hi]
      exact .reserve
    apply staffed_recordSpawned host hm hmore
    intro hlast
    have hall : n + 1 = p.threads := by omega
    rw [hl, hi, show n + 3 = n + 1 + 2 from rfl, hall]
    exact .joining
  | joining =>
    right
    refine ⟨.ofNat p.threads, ?_⟩
    simpa [State.stepManager, hm, hl, hi] using Employs.joining

end

structure Steady (p : Plan) (s : State) : Prop where
  length : s.workers.length ≤ p.threads
  staffed : s.Staffed p
  idents : ∀ (k : ℕ) (w : Worker), s.workers[k]? = some w → w.ident.number = .ofNat (k + 2)
  loop : ∀ (k : ℕ) (w : Worker), s.workers[k]? = some w → w.place.isOfLoop = true
  holds : ∃ hold, Holds s hold
  inside : s.inside = s.tally fun w => w.place.isInside.toUInt64
  violations : s.violations = 0

namespace Steady

theorem distinct (hs : Steady p s) (hp : p.threads < 2 ^ 62) : s.Distinct :=
  distinct_of_idents (hs.length.trans_lt hp) hs.idents

theorem inside_eq_zero (hs : Steady p s) (hp : p.threads < 2 ^ 62) {k : ℕ}
    (hk : s.workers[k]? = some w) (hw : w.place = .enter) : s.inside = 0 := by
  obtain ⟨hold, hh⟩ := hs.holds
  rw [hs.inside]
  apply List.sum_eq_zero
  intro x hx
  obtain ⟨v, hv, rfl⟩ := List.mem_map.mp hx
  rw [hh.isInside_eq_false (hs.distinct hp) hk hw hv]
  rfl

theorem treads (hs : Steady p s) (hp : p.threads < 2 ^ 62) {k : ℕ}
    (hk : s.workers[k]? = some w) (hm : Treads s s' w w')
    (hstaff : s'.manager = s.manager ∧ s'.idents = s.idents ∧ s'.workers = s.workers) :
    Steady p { s' with workers := s'.workers.set k w' } := by
  obtain ⟨hmanager, hidents, hworkers⟩ := hstaff
  obtain ⟨hold, hh⟩ := hs.holds
  obtain ⟨takes, frees, hshift⟩ := hm.shift
  refine ⟨?_, ?_, ?_, ?_, ⟨_, hh.set (hs.distinct hp) hk hm.ident hshift hworkers⟩, ?_,
    hm.violations.trans hs.violations⟩
  · simp only [List.length_set, hworkers]
    exact hs.length
  · simp only [State.Staffed, List.length_set, hworkers, hmanager, hidents]
    exact hs.staffed
  · intro j v hj
    simp only [hworkers] at hj
    rcases getElem?_set_cases hj with ⟨rfl, rfl⟩ | ⟨-, hj⟩
    · rw [hm.ident]
      exact hs.idents _ _ hk
    · exact hs.idents j v hj
  · intro j v hj
    simp only [hworkers] at hj
    rcases getElem?_set_cases hj with ⟨rfl, rfl⟩ | ⟨-, hj⟩
    · exact hm.place
    · exact hs.loop j v hj
  · have hset := tally_set (fun w => w.place.isInside.toUInt64) w' hk hworkers
    have hinside := hm.inside
    have hbefore := hs.inside
    simp only
    grind

theorem worker (hs : Steady p s) (hp : p.threads < 2 ^ 62) (host : Host) (k : ℕ) (now : Instant)
    (pick : ℕ) : Steady p (s.step host p (.worker k now pick)) := by
  cases hk : s.workers[k]? with
  | none =>
    simp only [State.step, hk]
    exact hs
  | some w =>
    simp only [State.step, hk]
    obtain ⟨hold, hh⟩ := hs.holds
    have hsh := hh.custody.shows w.ident
    rw [hh.own k w hk] at hsh
    have hm := treads_stepWorker p now pick (hs.loop k w hk) hsh (hs.inside_eq_zero hp hk)
    exact hs.treads hp hk hm (stepWorker_staff p now pick s w)

theorem rouse (hs : Steady p s) (host : Host) (k : ℕ) : Steady p (s.step host p (.rouse k)) := by
  cases hk : s.workers[k]? with
  | none =>
    simp only [State.step, hk]
    exact hs
  | some w =>
    simp only [State.step, hk]
    obtain ⟨hold, hh⟩ := hs.holds
    exact ⟨hs.length, hs.staffed, hs.idents, hs.loop,
      ⟨hold, hh.custody.frame rfl rfl, hh.own, hh.others⟩, hs.inside, hs.violations⟩

theorem manage (hs : Steady p s) (hp : p.threads < 2 ^ 62) (host : Host) :
    Steady p (s.step host p .manager) := by
  obtain ⟨hgil, hinside, hviolations⟩ := stepManager_still host p s
  have hstaffed : (s.stepManager host p).Staffed p := by
    rcases hs.staffed with hgiven | ⟨spawned, he⟩
    · exact .inl (step_hasGivenUp host p .manager hgiven)
    · exact he.step host hp
  obtain ⟨hold, hh⟩ := hs.holds
  rcases stepManager_workers host p s with hw | ⟨n, i, hm, hw⟩
  · refine ⟨hw ▸ hs.length, hstaffed, hw ▸ hs.idents, hw ▸ hs.loop,
      ⟨hold, hgil ▸ hh.custody, hw ▸ hh.own, hw ▸ hh.others⟩, ?_, hviolations.trans hs.violations⟩
    show (s.stepManager host p).inside = _
    rw [hinside, hs.inside, State.tally, ← hw]
    rfl
  · obtain ⟨hlen, hn, hnum⟩ : s.workers.length = n ∧ n < p.threads ∧ i.number = .ofNat (n + 2) := by
      rcases hs.staffed with hgiven | ⟨spawned, he⟩
      · rw [hm] at hgiven
        cases hgiven
      · rw [hm] at he
        generalize hl : s.workers.length = len, s.idents.next = next at he
        cases he with
        | launch hn hi => exact ⟨rfl, hn, hi⟩
    have hnew : ∀ (k : ℕ) (w : Worker), s.workers[k]? = some w → w.ident ≠ i := by
      intro k w hk he
      have hkl : k < s.workers.length := (List.getElem?_eq_some_iff.mp hk).1
      have hkn : k + 2 = n + 2 := by
        apply ofNat_inj_of_lt (by omega) (by omega)
        rw [← hs.idents k w hk, ← hnum, he]
      omega
    refine ⟨?_, hstaffed, fun k w hk => ?_, fun k w hk => ?_, ⟨hold, hh.hire hnew hgil hw⟩, ?_,
      hviolations.trans hs.violations⟩
    · show (s.stepManager host p).workers.length ≤ p.threads
      rw [hw, List.length_append, hlen]
      exact hn
    · have hk : (s.stepManager host p).workers[k]? = some w := hk
      rw [hw] at hk
      rcases getElem?_concat_cases hk with hk | ⟨rfl, rfl⟩
      · exact hs.idents k w hk
      · rw [hlen]
        exact hnum
    · have hk : (s.stepManager host p).workers[k]? = some w := hk
      rw [hw] at hk
      rcases getElem?_concat_cases hk with hk | ⟨rfl, rfl⟩
      · exact hs.loop k w hk
      · rfl
    · show (s.stepManager host p).inside = State.tally _ (s.stepManager host p)
      rw [hinside, hs.inside, State.tally, State.tally, hw]
      simp [Place.isInside, Bool.toUInt64]

theorem step (hs : Steady p s) (hp : p.threads < 2 ^ 62) (host : Host) (c : Choice) :
    Steady p (s.step host p c) := by
  cases c with
  | manager => exact hs.manage hp host
  | worker k now pick => exact hs.worker hp host k now pick
  | rouse k => exact hs.rouse host k

end Steady

theorem steady_start {c : Config} {r : Interpreter} (hb : Interpreter.build c = .ok r) :
    Steady p (State.start p r) := by
  have hs := sound_start (p := p) hb
  refine ⟨Nat.zero_le _, .inr ⟨_, hs.employs⟩, hs.idents, fun k w hk => ?_, hs.holds, rfl, rfl⟩
  simp [State.start] at hk

theorem steady_follow (hp : p.threads < 2 ^ 62) (host : Host) (choices : List Choice)
    (hs : Steady p s) : Steady p (s.follow host p choices) := by
  induction choices generalizing s with
  | nil => exact hs
  | cons c rest ih => exact ih (hs.step hp host c)

structure Unstranded (p : Plan) (s : State) : Prop where
  word : s.interpreter.gil.word = if ∃ w ∈ s.workers, w.place.hold ≠ .out then 1 else 0
  holder : ∀ i, s.interpreter.gil.holder = some i →
    ∃ w ∈ s.workers, w.ident = i ∧ w.place.isApart = false
  violations : ∀ elapsedMillis, (s.report p elapsedMillis).violations = .ofNat s.panics

theorem Steady.unstranded (hs : Steady p s) : Unstranded p s := by
  obtain ⟨hold, hh⟩ := hs.holds
  have owner : ∀ i, hold i ≠ .out → ∃ w ∈ s.workers, w.ident = i ∧ w.place.hold ≠ .out := by
    intro i hi
    by_contra hnone
    apply hi
    apply hh.others
    intro k w hk he
    refine hnone ⟨w, List.mem_of_getElem? hk, he, ?_⟩
    rw [← hh.own k w hk, he]
    exact hi
  constructor
  · rcases hh.custody.word with ⟨hw, hout⟩ | ⟨hw, i, hi⟩
    · rw [hw, if_neg]
      rintro ⟨w, hmem, hne⟩
      obtain ⟨k, hk⟩ := List.getElem?_of_mem hmem
      exact hne ((hh.own k w hk).symm.trans (hout w.ident))
    · obtain ⟨w, hmem, -, hne⟩ := owner i hi
      rw [hw, if_pos ⟨w, hmem, hne⟩]
  · intro i hi
    have hrecorded := (hh.custody.holder i).mp hi
    obtain ⟨w, hmem, hwi, hne⟩ := owner i (by rw [hrecorded]; nofun)
    refine ⟨w, hmem, hwi, ?_⟩
    cases hplace : w.place <;> rw [hplace] at hne <;> first | rfl | exact absurd rfl hne
  · intro elapsedMillis
    rw [State.report, hs.violations]
    exact UInt64.zero_add _

open Bootstrap (Workshop)

/-- Of any threads that are started, whatever their entries do and however they end, and of the
workers of any workload, whatever the clock shows. -/
theorem departures_settled {config : Config} {r : Interpreter}
    (hr : Interpreter.build config = .ok r) :
    (∀ acts : List Workshop.Action, (∀ a ∈ acts, a.isOrdinary = true) →
      ((Workshop.start r).run acts).system.Distinct → Workshop.Departed r acts) ∧
    ∀ (p : Plan) (host : Host) (choices : List Choice), p.threads * handleSize ≤ largestList →
      Unstranded p ((State.start p r).follow host p choices) := by
  constructor
  · intro acts ha hd
    exact Workshop.departed_run hr acts ha hd
  · intro p host choices hroom
    have hp := threads_lt hroom
    exact (steady_follow hp host choices (steady_start hr)).unstranded

/-- A thread frees the lock and then panics with a general lock in its hands; of two workers one
panics in its yield, and the other comes to its end. -/
theorem departures_settled_outside :
    let host : Host := ⟨Host.usualMemory, fun _ => none⟩
    let turn (n : ℕ) : Workshop.Action := .runtime (.thread n (.step host ⟨0⟩ 0))
    let acts : List Workshop.Action :=
      .allocate :: .runtime (.arrive ⟨7, by decide⟩) :: .runtime (.thread 0 (.spawn none)) ::
        List.replicate 4 (turn 0) ++ List.replicate 2 (turn 1) ++
        .use 1 0 .guard :: List.replicate 3 (.turn 1 ⟨0⟩ 0) ++
        .runtime (.thread 1 (.call .acquire)) :: List.replicate 6 (turn 1) ++
        .runtime (.thread 1 (.call .release)) :: List.replicate 4 (turn 1) ++
        .runtime (.thread 1 (.finish (some (.raised "")))) :: List.replicate 3 (turn 1)
    let late : Instant := ⟨Instant.lastSecond * 1000000000 + 999999999⟩
    let steps (k n : ℕ) (now : Instant) : List Choice := List.replicate n (.worker k now 0)
    let choices := List.replicate 8 .manager ++ steps 0 11 ⟨0⟩ ++ steps 1 10 ⟨0⟩ ++
      steps 0 14 late ++ steps 1 23 late
    let p : Plan := ⟨2, 1, 1⟩
    let r : Interpreter :=
      { gil := .new .generic .posix Gil.defaultPatience
        bootstrap := { backend := .posix, collector := some {} } }
    let h := (Workshop.start r).run acts
    let s := (State.start p r).follow .standard p choices
    Interpreter.build {} = .ok r ∧ (∀ a ∈ acts, a.isOrdinary = true) ∧ h.system.Distinct ∧
      Workshop.Departed r acts ∧ h.rack.locks.map (·.locked) = [true] ∧
      h.system.interpreter.gil.word = 0 ∧ p.threads * handleSize ≤ largestList ∧
      Unstranded p s ∧ s.isOver = true ∧ s.panics = 1 := by
  intro host turn acts late steps choices p r h s
  have hb : Interpreter.build {} = .ok r := rfl
  have ha : ∀ a ∈ acts, a.isOrdinary = true := by decide
  have hd : ((Workshop.start r).run acts).system.Distinct := by decide +kernel
  have hdeparted : Workshop.Departed r acts := (departures_settled hb).1 acts ha hd
  have hlocks : h.rack.locks.map (·.locked) = [true] := by decide +kernel
  have hword : h.system.interpreter.gil.word = 0 := by decide +kernel
  have hroom : p.threads * handleSize ≤ largestList := by decide
  have hunstranded : Unstranded p s := (departures_settled hb).2 p .standard choices hroom
  have hover : s.isOver = true := by decide +kernel
  have hpanics : s.panics = 1 := by decide +kernel
  exact ⟨hb, ha, hd, hdeparted, hlocks, hword, hroom, hunstranded, hover, hpanics⟩

/-- A thread that panics while it has the lock leaves it locked: its slot is back, the collector has
forgotten it and its exit is counted, but it is still on record as the holder. -/
theorem stranded_by_panic :
    let host : Host := ⟨Host.usualMemory, fun _ => none⟩
    let turn (n : ℕ) : Workshop.Action := .runtime (.thread n (.step host ⟨0⟩ 0))
    let acts : List Workshop.Action :=
      .runtime (.arrive ⟨7, by decide⟩) :: .runtime (.thread 0 (.spawn none)) ::
        List.replicate 4 (turn 0) ++ List.replicate 2 (turn 1) ++
        .runtime (.thread 1 (.call .acquire)) :: List.replicate 6 (turn 1) ++
        .runtime (.thread 1 (.finish (some (.raised "")))) :: List.replicate 3 (turn 1)
    let r : Interpreter :=
      { gil := .new .generic .posix Gil.defaultPatience
        bootstrap := { backend := .posix, collector := some {} } }
    let s := ((Workshop.start r).run acts).system
    Interpreter.build {} = .ok r ∧ (∀ a ∈ acts, a.isOrdinary = true) ∧ s.Distinct ∧
      s.workers.map (fun w => (w.ident, w.stage.ended)) = [(⟨7, by decide⟩, 0), (.first, 1)] ∧
      s.interpreter.bootstrap.live = 0 ∧
      s.interpreter.bootstrap.isRegistered .first = false ∧
      s.interpreter.metrics.threads.exited = 1 ∧
      s.interpreter.gil.holder = some .first ∧ s.interpreter.gil.word = 1 :=
  ⟨rfl, by decide, by decide, by decide, by decide, by decide, by decide, by decide, by decide⟩

end Workload

end InterpreterLock
