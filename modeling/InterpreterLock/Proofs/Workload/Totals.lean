import InterpreterLock.Proofs.Bootstrap.Change
import InterpreterLock.Proofs.Counters
import InterpreterLock.Proofs.Workload.Shares
import InterpreterLock.Workload.Report
import Mathlib.Data.UInt

/-!
# The report adds up

As long as the manager starts workers or waits for them, every counter is the sum of the shares of
the workers, and the lock is in the custody of the workers, each with an ident of its own. When all
of them are gone, each has contributed what its plan says.
-/

set_option autoImplicit false

namespace InterpreterLock.Workload

open Gil (Hold Custody Shift Overruns Made)

def Manager.hasGivenUp : Manager → Bool
  | .spawning _ (.abandon _) | .spawning _ (.recordFailure _) | .failed _ | .panicked _ => true
  | _ => false

def Manager.holdsSlot : Manager → Bool
  | .spawning _ c => c.holds
  | _ => false

inductive Employs (p : Plan) : Manager → ℕ → UInt64 → UInt64 → Prop
  | reserve {n : ℕ} (hn : n < p.threads) :
    Employs p (.spawning n .reserve) n (.ofNat (n + 2)) (.ofNat n)
  | takeIdent {n : ℕ} (hn : n < p.threads) :
    Employs p (.spawning n .takeIdent) n (.ofNat (n + 2)) (.ofNat n)
  | launch {n : ℕ} {i : Ident} (hn : n < p.threads) (hi : i.number = .ofNat (n + 2)) :
    Employs p (.spawning n (.launch i)) n (.ofNat (n + 3)) (.ofNat n)
  | recordSpawned {n : ℕ} {i : Ident} (hn : n < p.threads) :
    Employs p (.spawning n (.recordSpawned i)) (n + 1) (.ofNat (n + 3)) (.ofNat n)
  | joining : Employs p .joining p.threads (.ofNat (p.threads + 2)) (.ofNat p.threads)

structure Holds (s : State) (hold : Ident → Hold) : Prop where
  custody : Custody s.interpreter.gil hold
  own : ∀ (k : ℕ) (w : Worker), s.workers[k]? = some w → hold w.ident = w.place.hold
  others : ∀ i, (∀ (k : ℕ) (w : Worker), s.workers[k]? = some w → w.ident ≠ i) → hold i = .out

/-- The lock is free when no worker has any of it. -/
theorem Holds.free {s : State} {hold : Ident → Hold} (h : Holds s hold)
    (hout : ∀ (k : ℕ) (w : Worker), s.workers[k]? = some w → w.place.hold = .out) :
    s.interpreter.gil.word = Mode.freeWord ∧ s.interpreter.gil.holder = none := by
  have hnobody : ∀ i, hold i = .out := by
    intro i
    by_cases hi : ∃ (k : ℕ) (w : Worker), s.workers[k]? = some w ∧ w.ident = i
    · obtain ⟨k, w, hk, rfl⟩ := hi
      rw [h.own k w hk]
      exact hout k w hk
    · exact h.others i fun k w hk he => hi ⟨k, w, hk, he⟩
  constructor
  · rcases h.custody.word with ⟨hw, -⟩ | ⟨-, i, hi⟩
    · exact hw
    · exact absurd (hnobody i) hi
  · cases hholder : s.interpreter.gil.holder with
    | none => rfl
    | some i =>
      have hrec := (h.custody.holder i).mp hholder
      rw [hnobody i] at hrec
      cases hrec

def State.tally {M : Type} [AddCommMonoid M] (f : Worker → M) (s : State) : M :=
  (s.workers.map f).sum

structure Sound (p : Plan) (mode : Mode) (backend : Backend) (patience : Duration) (s : State) :
    Prop where
  employs : Employs p s.manager s.workers.length s.idents.next
    s.interpreter.metrics.threads.spawned
  idents : ∀ (k : ℕ) (w : Worker), s.workers[k]? = some w → w.ident.number = .ofNat (k + 2)
  stands : ∀ (k : ℕ) (w : Worker), s.workers[k]? = some w → Stands p w.round w.place
  holds : ∃ hold, Holds s hold
  total : ∀ i, s.amount i = s.tally fun w => w.share p i
  live : s.interpreter.bootstrap.live =
    (s.tally fun w => w.place.holdsSlot.toNat) + s.manager.holdsSlot.toNat
  violations : s.violations = 0
  failures : s.interpreter.metrics.threads.spawnFailures = 0
  made : Made mode backend patience s.interpreter.gil

variable {p : Plan} {mode : Mode} {backend : Backend} {patience : Duration} {s s' : State}
  {w w' : Worker} {k : ℕ}

theorem getElem?_set_cases {α : Type} {l : List α} {j k : ℕ} {b v : α}
    (h : (l.set k b)[j]? = some v) : (j = k ∧ v = b) ∨ (j ≠ k ∧ l[j]? = some v) := by
  rw [List.getElem?_set] at h
  by_cases hj : k = j
  · by_cases hk : k < l.length
    · simp only [hj, if_true] at h
      rw [if_pos (hj ▸ hk)] at h
      exact .inl ⟨hj.symm, (Option.some_inj.mp h).symm⟩
    · simp only [hj, if_true] at h
      rw [if_neg (hj ▸ hk)] at h
      cases h
  · rw [if_neg hj] at h
    exact .inr ⟨fun he => hj he.symm, h⟩

theorem getElem?_concat_cases {α : Type} {l : List α} {j : ℕ} {b v : α}
    (h : (l ++ [b])[j]? = some v) : l[j]? = some v ∨ (j = l.length ∧ v = b) := by
  rw [List.getElem?_append] at h
  by_cases hj : j < l.length
  · rw [if_pos hj] at h
    exact .inl h
  · rw [if_neg hj, List.getElem?_singleton] at h
    split at h
    · exact .inr ⟨by omega, (Option.some_inj.mp h).symm⟩
    · cases h

theorem Employs.length_le {m : Manager} {n : ℕ} {next spawned : UInt64}
    (h : Employs p m n next spawned) : n ≤ p.threads := by
  cases h <;> omega

/-- A list that can be at all holds the handles of a few workers only. -/
theorem threads_lt (h : p.threads * handleSize ≤ largestList) : p.threads < 2 ^ 62 := by
  simp only [handleSize, largestList, UInt64.size] at h
  omega

def State.Distinct (s : State) : Prop :=
  ∀ (j k : ℕ) (v w : Worker), s.workers[j]? = some v → s.workers[k]? = some w →
    v.ident = w.ident → j = k

theorem distinct_of_idents (hlen : s.workers.length < 2 ^ 62)
    (hi : ∀ (k : ℕ) (w : Worker), s.workers[k]? = some w → w.ident.number = .ofNat (k + 2)) :
    s.Distinct := by
  intro j k v w hj hk h
  have hjl : j < s.workers.length := (List.getElem?_eq_some_iff.mp hj).1
  have hkl : k < s.workers.length := (List.getElem?_eq_some_iff.mp hk).1
  have hn : j + 2 = k + 2 := by
    apply ofNat_inj_of_lt (by omega) (by omega)
    rw [← hi j v hj, ← hi k w hk, h]
  omega

/-- Where a worker is about to enter the section, nobody is inside. -/
theorem Holds.isInside_eq_false {hold : Ident → Hold} (hh : Holds s hold) (hd : s.Distinct)
    (hk : s.workers[k]? = some w) (hw : w.place = .enter) {v : Worker} (hv : v ∈ s.workers) :
    v.place.isInside = false := by
  obtain ⟨j, hj⟩ := List.getElem?_of_mem hv
  have hown : hold w.ident ≠ .out := by
    rw [hh.own k w hk, hw]
    nofun
  by_contra hin
  have hvold : hold v.ident ≠ .out := by
    rw [hh.own j v hj]
    cases hpl : v.place <;> simp_all [Place.isInside, Place.hold]
  have hjk : j = k := hd j k v w hj hk (hh.custody.one hvold hown)
  subst hjk
  rw [hj, Option.some_inj] at hk
  rw [hk, hw] at hin
  exact hin rfl

/-- Only the worker that moves has more or less of the lock. -/
theorem Holds.set {hold : Ident → Hold} (hh : Holds s hold) (hd : s.Distinct)
    (hk : s.workers[k]? = some w) (hi : w'.ident = w.ident) {takes frees : Bool}
    (hshift : Shift w.ident s.interpreter.gil s'.interpreter.gil takes frees w.place.hold
      w'.place.hold) (hw : s'.workers = s.workers) :
    Holds { s' with workers := s'.workers.set k w' }
      (Function.update hold w.ident w'.place.hold) := by
  refine ⟨hh.custody.shift hshift (hh.own k w hk), fun j v hj => ?_, fun i hother => ?_⟩
  · simp only [hw] at hj
    rcases getElem?_set_cases hj with ⟨rfl, rfl⟩ | ⟨hne, hj⟩
    · rw [hi, Function.update_self]
    · have hother : v.ident ≠ w.ident := fun h => hne (hd j k v w hj hk h)
      rw [Function.update_of_ne hother]
      exact hh.own j v hj
  · have hlen : k < s'.workers.length := by
      rw [hw]
      exact (List.getElem?_eq_some_iff.mp hk).1
    have hme : w'.ident ≠ i := hother k w' (List.getElem?_set_self hlen)
    rw [hi] at hme
    rw [Function.update_of_ne hme.symm]
    refine hh.others i fun j v hj => ?_
    by_cases hjk : j = k
    · subst hjk
      rw [hj, Option.some_inj] at hk
      rw [hk]
      exact hme
    · refine hother j v ?_
      rw [List.getElem?_set_ne (fun h => hjk h.symm), hw]
      exact hj

/-- A new worker has nothing of the lock. -/
theorem Holds.hire {hold : Ident → Hold} (hh : Holds s hold) {i : Ident}
    (hnew : ∀ (k : ℕ) (w : Worker), s.workers[k]? = some w → w.ident ≠ i)
    (hgil : s'.interpreter.gil = s.interpreter.gil)
    (hw : s'.workers = s.workers ++ [{ ident := i }]) : Holds s' hold := by
  constructor
  · rw [hgil]
    exact hh.custody
  · intro k w hk
    rw [hw] at hk
    rcases getElem?_concat_cases hk with hk | ⟨rfl, rfl⟩
    · exact hh.own k w hk
    · exact hh.others i hnew
  · refine fun j hj => hh.others j fun k w hk => hj k w ?_
    have hkl : k < s.workers.length := (List.getElem?_eq_some_iff.mp hk).1
    rw [hw, List.getElem?_append_left hkl]
    exact hk

namespace Sound

theorem distinct (hs : Sound p mode backend patience s) (hp : p.threads < 2 ^ 62) : s.Distinct :=
  distinct_of_idents (hs.employs.length_le.trans_lt hp) hs.idents

theorem inside_eq_zero (hs : Sound p mode backend patience s) (hp : p.threads < 2 ^ 62)
    (hk : s.workers[k]? = some w) (hw : w.place = .enter) : s.inside = 0 := by
  obtain ⟨hold, hh⟩ := hs.holds
  have hsum : s.inside = s.tally fun w => w.share p .inside := hs.total .inside
  rw [hsum]
  apply List.sum_eq_zero
  intro x hx
  obtain ⟨v, hv, rfl⟩ := List.mem_map.mp hx
  have hout := hh.isInside_eq_false (hs.distinct hp) hk hw hv
  have hpending : v.place.pending .inside = 0 := by cases v.place <;> rfl
  rw [share_eq_rounds hpending]
  simp [Worker.rounds, hout, Bool.toUInt64]

theorem slot_le_live (hs : Sound p mode backend patience s) (hk : s.workers[k]? = some w) :
    w.place.holdsSlot.toNat ≤ s.interpreter.bootstrap.live := by
  have hle : w.place.holdsSlot.toNat ≤ s.tally fun w => w.place.holdsSlot.toNat :=
    List.single_le_sum (fun _ _ => Nat.zero_le _) _
      (List.mem_map_of_mem (List.mem_of_getElem? hk))
  have hlive := hs.live
  omega

end Sound

theorem tally_set {M : Type} [AddCommMonoid M] (f : Worker → M) (w' : Worker)
    (hk : s.workers[k]? = some w) (hw : s'.workers = s.workers) :
    ({ s' with workers := s'.workers.set k w' } : State).tally f + f w = s.tally f + f w' := by
  simp only [State.tally, hw]
  exact sum_map_set f s.workers w' hk

theorem Sound.moves (hs : Sound p mode backend patience s) (hp : p.threads < 2 ^ 62)
    (hk : s.workers[k]? = some w) (hm : Moves p s s' w w')
    (hstaff : s'.manager = s.manager ∧ s'.idents = s.idents ∧ s'.workers = s.workers) :
    Sound p mode backend patience { s' with workers := s'.workers.set k w' } := by
  obtain ⟨hmanager, hidents, hworkers⟩ := hstaff
  constructor
  · simp only [List.length_set, hworkers, hmanager, hidents, hm.spawned]
    exact hs.employs
  · intro j v hj
    simp only [hworkers] at hj
    rcases getElem?_set_cases hj with ⟨rfl, rfl⟩ | ⟨-, hj⟩
    · rw [hm.ident]
      exact hs.idents _ _ hk
    · exact hs.idents j v hj
  · intro j v hj
    simp only [hworkers] at hj
    rcases getElem?_set_cases hj with ⟨rfl, rfl⟩ | ⟨-, hj⟩
    · exact hm.stands
    · exact hs.stands j v hj
  · obtain ⟨hold, hh⟩ := hs.holds
    obtain ⟨takes, frees, hshift⟩ := hm.shift
    exact ⟨_, hh.set (hs.distinct hp) hk hm.ident hshift hworkers⟩
  · intro i
    have hset := tally_set (fun w => w.share p i) w' hk hworkers
    have hshare := hm.share i
    have htotal := hs.total i
    change s'.amount i = _
    grind
  · have hset := tally_set (fun w => w.place.holdsSlot.toNat) w' hk hworkers
    have hlive := hm.live
    have hbefore := hs.live
    simp only [hmanager] at *
    omega
  · exact hm.violations.trans hs.violations
  · exact hm.failures.trans hs.failures
  · exact hm.made hs.made

/-- A step of a worker keeps everything, if the clock shows the end of the patience. -/
theorem Sound.worker (hs : Sound p mode backend patience s) (hp : p.threads < 2 ^ 62) (host : Host)
    (k : ℕ) (now : Instant) (pick : ℕ) (ht : ¬Overruns now patience) :
    Sound p mode backend patience (s.step host p (.worker k now pick)) := by
  cases hk : s.workers[k]? with
  | none =>
    simp only [State.step, hk]
    exact hs
  | some w =>
    simp only [State.step, hk]
    obtain ⟨hold, hh⟩ := hs.holds
    have hsh := hh.custody.shows w.ident
    rw [hh.own k w hk] at hsh
    rw [← hs.made.patience] at ht
    have hm := moves_stepWorker now pick (hs.stands k w hk) hsh (hs.inside_eq_zero hp hk)
      (hs.slot_le_live hk) ht
    exact hs.moves hp hk hm (stepWorker_staff p now pick s w)

theorem Sound.rouse (hs : Sound p mode backend patience s) (host : Host) (k : ℕ) :
    Sound p mode backend patience (s.step host p (.rouse k)) := by
  cases hk : s.workers[k]? with
  | none =>
    simp only [State.step, hk]
    exact hs
  | some w =>
    simp only [State.step, hk]
    obtain ⟨hold, hh⟩ := hs.holds
    refine ⟨hs.employs, hs.idents, hs.stands,
      ⟨hold, hh.custody.frame rfl rfl, hh.own, hh.others⟩, fun i => ?_, hs.live, hs.violations,
      hs.failures, hs.made.rouse w.ident⟩
    have htotal := hs.total i
    cases i <;> exact htotal

/-- The manager goes on without starting a worker. -/
theorem Sound.goOn (hs : Sound p mode backend patience s) {m : Manager} {b : Bootstrap}
    {d : IdentSource} {metrics : Metrics}
    (hm : Employs p m s.workers.length d.next metrics.threads.spawned)
    (hb : b.live + s.manager.holdsSlot.toNat =
      s.interpreter.bootstrap.live + m.holdsSlot.toNat)
    (hgil : metrics.gil = s.interpreter.metrics.gil)
    (hexited : metrics.threads.exited = s.interpreter.metrics.threads.exited)
    (hfailures : metrics.threads.spawnFailures = s.interpreter.metrics.threads.spawnFailures) :
    Sound p mode backend patience
      { s with
        interpreter := { s.interpreter with bootstrap := b, metrics := metrics }
        idents := d
        manager := m } := by
  obtain ⟨hold, hh⟩ := hs.holds
  refine ⟨hm, hs.idents, hs.stands, ⟨hold, hh.custody, hh.own, hh.others⟩, fun i => ?_, ?_,
    hs.violations, hfailures.trans hs.failures, hs.made⟩
  · have htotal := hs.total i
    cases i with
    | yields =>
      simp only [State.amount, hgil]
      exact htotal
    | acquires =>
      simp only [State.amount, Metrics.acquires, hgil]
      exact htotal
    | exits =>
      simp only [State.amount, hexited]
      exact htotal
    | _ => exact htotal
  · have hlive := hs.live
    have htally : State.tally (fun w => w.place.holdsSlot.toNat)
        { s with
          interpreter := { s.interpreter with bootstrap := b, metrics := metrics }
          idents := d
          manager := m } = s.tally fun w => w.place.holdsSlot.toNat := rfl
    rw [htally]
    simp only
    omega

theorem share_new (p : Plan) (i : Ident) (x : Item) : ({ ident := i } : Worker).share p x = 0 := by
  rw [share_eq_rounds rfl]
  cases x <;> simp [Worker.rounds, Place.isUnpassed, Place.isInside, Place.isUnyielded,
    Place.isGone, Bool.toUInt64]

/-- The manager has started a worker. -/
theorem Sound.hire (hs : Sound p mode backend patience s) (hp : p.threads < 2 ^ 62) {n : ℕ}
    {i : Ident} (hm : s.manager = .spawning n (.launch i)) (hn : n < p.threads)
    (hlen : s.workers.length = n) (hi : i.number = .ofNat (n + 2))
    (hnext : s.idents.next = .ofNat (n + 3))
    (hspawned : s.interpreter.metrics.threads.spawned = .ofNat n) :
    Sound p mode backend patience
      { s with
        workers := s.workers ++ [{ ident := i }]
        manager := .spawning n (.recordSpawned i) } := by
  obtain ⟨hold, hh⟩ := hs.holds
  have hnew : ∀ (k : ℕ) (w : Worker), s.workers[k]? = some w → w.ident ≠ i := by
    intro k w hk he
    have hkl : k < s.workers.length := (List.getElem?_eq_some_iff.mp hk).1
    have hkn : k + 2 = n + 2 := by
      apply ofNat_inj_of_lt (by omega) (by omega)
      rw [← hs.idents k w hk, ← hi, he]
    omega
  constructor
  · simp only [List.length_append, List.length_singleton, hlen, hnext, hspawned]
    exact .recordSpawned hn
  · intro k w hk
    rcases getElem?_concat_cases hk with hk | ⟨rfl, rfl⟩
    · exact hs.idents k w hk
    · rw [hlen]
      exact hi
  · intro k w hk
    rcases getElem?_concat_cases hk with hk | ⟨rfl, rfl⟩
    · exact hs.stands k w hk
    · exact .install
  · exact ⟨hold, hh.hire hnew rfl rfl⟩
  · intro x
    have htotal := hs.total x
    have hshare := share_new p i x
    simp only [State.tally, List.map_append, List.sum_append, List.map_cons, List.map_nil,
      List.sum_cons, List.sum_nil, hshare, add_zero]
    cases x <;> exact htotal
  · have hlive := hs.live
    simp only [State.tally, List.map_append, List.sum_append, List.map_cons, List.map_nil,
      List.sum_cons, List.sum_nil, hm] at hlive ⊢
    exact hlive
  · exact hs.violations
  · exact hs.failures
  · exact hs.made

section

variable {n : ℕ} {i : Ident} (host : Host)

theorem Sound.reserve (hs : Sound p mode backend patience s)
    (hm : s.manager = .spawning n .reserve)
    (he : Employs p (.spawning n .takeIdent) s.workers.length s.idents.next
      s.interpreter.metrics.threads.spawned) :
    (s.step host p .manager).manager.hasGivenUp = true ∨
      Sound p mode backend patience (s.step host p .manager) := by
  have room : Sound p mode backend patience
      { s with
        interpreter :=
          { s.interpreter with
            bootstrap :=
              { s.interpreter.bootstrap with live := s.interpreter.bootstrap.live + 1 } }
        manager := .spawning n .takeIdent } := by
    refine hs.goOn he ?_ rfl rfl rfl
    simp [hm, Manager.holdsSlot, Spawn.holds]
  cases hlimit : s.interpreter.bootstrap.limit with
  | none =>
    right
    simpa [State.step, State.stepManager, hm, Spawn.step, hlimit, Spawn.launches?,
      Metrics.recordOpt] using room
  | some limit =>
    by_cases hlt : s.interpreter.bootstrap.live < limit
    · right
      simpa [State.step, State.stepManager, hm, Spawn.step, hlimit, hlt, Spawn.launches?,
        Metrics.recordOpt] using room
    · left
      simp [State.step, State.stepManager, hm, Spawn.step, hlimit, hlt, Manager.hasGivenUp]

theorem Sound.takeIdent (hs : Sound p mode backend patience s)
    (hm : s.manager = .spawning n .takeIdent) (htake : s.idents.take = (i, ⟨.ofNat (n + 3)⟩))
    (he : Employs p (.spawning n (.launch i)) s.workers.length (.ofNat (n + 3))
      s.interpreter.metrics.threads.spawned) :
    Sound p mode backend patience (s.step host p .manager) := by
  have taken : Sound p mode backend patience
      { s with
        idents := ⟨.ofNat (n + 3)⟩
        manager := .spawning n (.launch i) } := by
    refine hs.goOn (b := s.interpreter.bootstrap) he ?_ rfl rfl rfl
    simp [hm, Manager.holdsSlot, Spawn.holds]
  simpa [State.step, State.stepManager, hm, Spawn.step, Spawn.launches?, htake,
    Metrics.recordOpt] using taken

theorem Sound.launch (hm : s.manager = .spawning n (.launch i))
    (hired : Sound p mode backend patience
      { s with
        workers := s.workers ++ [{ ident := i }]
        manager := .spawning n (.recordSpawned i) }) :
    (s.step host p .manager).manager.hasGivenUp = true ∨
      Sound p mode backend patience (s.step host p .manager) := by
  cases hname : Spawn.nameFault? (some (workerName n)) with
  | some e =>
    left
    simp [State.step, State.stepManager, hm, Spawn.step, hname, Manager.hasGivenUp]
  | none =>
    cases hrefuse : host.refusal? s.interpreter.bootstrap.stackSize with
    | some e =>
      left
      simp [State.step, State.stepManager, hm, Spawn.step, hname, hrefuse, Manager.hasGivenUp]
    | none =>
      right
      simpa [State.step, State.stepManager, hm, Spawn.step, hname, hrefuse, Spawn.launches?,
        Metrics.recordOpt] using hired

theorem Sound.recordSpawned (hs : Sound p mode backend patience s)
    (hm : s.manager = .spawning n (.recordSpawned i))
    (he : ∀ m, (m = .spawning (n + 1) .reserve ∧ n + 1 < p.threads ∨
        m = .joining ∧ ¬n + 1 < p.threads) →
      Employs p m s.workers.length s.idents.next
        (s.interpreter.metrics.threads.spawned + 1)) :
    Sound p mode backend patience (s.step host p .manager) := by
  have counted : ∀ m, m.holdsSlot = false →
      Employs p m s.workers.length s.idents.next
        (s.interpreter.metrics.threads.spawned + 1) →
      Sound p mode backend patience
        { s with
          interpreter :=
            { s.interpreter with metrics := s.interpreter.metrics.record .threadSpawned }
          manager := m } := by
    intro m hslot hemp
    have hbefore : s.manager.holdsSlot = false := by
      rw [hm]
      rfl
    refine hs.goOn (b := s.interpreter.bootstrap) (d := s.idents) hemp ?_ rfl rfl rfl
    rw [hbefore, hslot]
  by_cases hlast : n + 1 < p.threads
  · have next := counted (.spawning (n + 1) .reserve) rfl (he _ (.inl ⟨rfl, hlast⟩))
    simpa [State.step, State.stepManager, hm, Spawn.step, Spawn.launches?, hlast,
      Metrics.recordOpt] using next
  · have next := counted .joining rfl (he _ (.inr ⟨rfl, hlast⟩))
    simpa [State.step, State.stepManager, hm, Spawn.step, Spawn.launches?, hlast,
      Metrics.recordOpt] using next

end

theorem take_of_next {d : IdentSource} {n : ℕ} (hn : n + 2 < 2 ^ 64)
    (hd : d.next = .ofNat (n + 2)) :
    ∃ i : Ident, i.number = .ofNat (n + 2) ∧ d.take = (i, ⟨.ofNat (n + 3)⟩) := by
  have hnz : UInt64.ofNat (n + 2) ≠ 0 := by
    intro h
    have hzero : n + 2 = 0 := ofNat_inj_of_lt hn (by omega) h
    omega
  refine ⟨⟨.ofNat (n + 2), hnz⟩, rfl, ?_⟩
  simp only [IdentSource.take, hd, Ident.ofNumber?, dif_pos hnz, Option.getD_some, ofNat_succ]

/-- A step of the manager keeps everything, or the manager gives up. -/
theorem Sound.manage (hs : Sound p mode backend patience s) (hp : p.threads < 2 ^ 62)
    (host : Host) :
    (s.step host p .manager).manager.hasGivenUp = true ∨
      Sound p mode backend patience (s.step host p .manager) := by
  have he := hs.employs
  generalize hm : s.manager = m, hl : s.workers.length = n, hi : s.idents.next = next,
    hc : s.interpreter.metrics.threads.spawned = spawned at he
  cases he with
  | reserve hn =>
    refine hs.reserve host hm ?_
    rw [hl, hi, hc]
    exact .takeIdent hn
  | takeIdent hn =>
    obtain ⟨i, hnum, htake⟩ := take_of_next (by omega) hi
    refine .inr (hs.takeIdent host hm htake ?_)
    rw [hl, hc]
    exact .launch hn hnum
  | launch hn hnum => exact Sound.launch host hm (hs.hire hp hm hn hl hnum hi hc)
  | @recordSpawned n i hn =>
    refine .inr (hs.recordSpawned host hm ?_)
    rw [hl, hi, hc, ofNat_succ]
    rintro m (⟨rfl, hlast⟩ | ⟨rfl, hlast⟩)
    · exact .reserve hlast
    · have hall : n + 1 = p.threads := by omega
      rw [show n + 3 = n + 1 + 2 from rfl, hall]
      exact .joining
  | joining =>
    right
    simpa [State.step, State.stepManager, hm] using hs

theorem step_hasGivenUp (host : Host) (p : Plan) (c : Choice) (h : s.manager.hasGivenUp = true) :
    (s.step host p c).manager.hasGivenUp = true := by
  cases c with
  | manager =>
    cases hm : s.manager with
    | spawning n place =>
      cases place with
      | abandon cause => cases cause <;> simp [State.step, State.stepManager, hm, Spawn.step,
          Manager.hasGivenUp]
      | recordFailure e => simp [State.step, State.stepManager, hm, Spawn.step, Manager.hasGivenUp]
      | _ => simp [hm, Manager.hasGivenUp] at h
    | _ =>
      simp only [State.step, State.stepManager, hm]
      rw [← hm]
      exact h
  | worker k now pick =>
    cases hk : s.workers[k]? with
    | none => simpa only [State.step, hk] using h
    | some w =>
      simp only [State.step, hk, (stepWorker_staff p now pick s w).1]
      exact h
  | rouse k =>
    cases hk : s.workers[k]? with
    | none => simpa only [State.step, hk] using h
    | some w =>
      simp only [State.step, hk]
      exact h

theorem sound_start {c : Config} {r : Interpreter} (hb : Interpreter.build c = .ok r) :
    Sound p c.mode c.backend c.patience (State.start p r) := by
  have hr := Interpreter.build_eq hb
  have hnone : ∀ (k : ℕ) (w : Worker), (State.start p r).workers[k]? ≠ some w := by
    intro k w hk
    simp [State.start] at hk
  have hgil : (State.start p r).interpreter.gil = .new c.mode c.backend c.patience := by
    rw [State.start, hr]
  have hmetrics : (State.start p r).interpreter.metrics = {} := by rw [State.start, hr]
  have hlive : (State.start p r).interpreter.bootstrap.live = 0 := by rw [State.start, hr]
  constructor
  · rw [hmetrics]
    by_cases h0 : p.threads = 0
    · simp only [State.start, h0, if_true]
      have hj := Employs.joining (p := p)
      rw [h0] at hj
      exact hj
    · simp only [State.start, h0, if_false]
      exact .reserve (Nat.pos_of_ne_zero h0)
  · exact fun k w hk => absurd hk (hnone k w)
  · exact fun k w hk => absurd hk (hnone k w)
  · refine ⟨fun _ => .out, ?_, fun k w hk => absurd hk (hnone k w), fun _ _ => rfl⟩
    rw [hgil]
    exact .free rfl rfl
  · intro i
    cases i <;> simp only [State.amount, hmetrics, hgil] <;> rfl
  · rw [hlive]
    by_cases h0 : p.threads = 0 <;>
      simp [State.start, h0, State.tally, Manager.holdsSlot, Spawn.holds]
  · rfl
  · rw [hmetrics]
  · rw [hgil]
    exact Gil.made_new c.mode c.backend c.patience

def Choice.isEarly : Choice → Bool
  | .worker _ now _ => now.nanoseconds / 1000000000 ≤ Instant.lastSecond / 2
  | _ => true

theorem ofEnvironment_patience_lt (env : Environment) :
    (Config.ofEnvironment env).patience.nanoseconds < Text.wordLimit * 1000 := by
  simp only [Config.ofEnvironment]
  cases hn : (env Config.Variable.patience).bind Config.readNumber with
  | none => decide
  | some n =>
    obtain ⟨text, -, hread⟩ := Option.bind_eq_some_iff.mp hn
    have hlt : n < Text.wordLimit := by
      simp only [Config.readNumber] at hread
      cases hw : Text.readWord (Text.trim text) with
      | error e => simp [hw, Except.toOption] at hread
      | ok m =>
        simp only [hw, Except.toOption, Option.some_inj] at hread
        rw [← hread]
        exact Text.readWord_lt hw
    simp only [Option.map_some, Option.getD_some, Duration.ofMicros]
    omega

/-- The longest patience that the environment can set ends before the clock does. -/
theorem not_overruns {env : Environment} {now : Instant}
    (h : now.nanoseconds / 1000000000 ≤ Instant.lastSecond / 2) :
    ¬Overruns now (Config.ofEnvironment env).patience := by
  have hlt := ofEnvironment_patience_lt env
  simp only [Overruns, Instant.lastSecond, Text.wordLimit, UInt64.size] at *
  omega

theorem sound_follow {env : Environment} (hp : p.threads < 2 ^ 62) (host : Host)
    (choices : List Choice) (hearly : ∀ c ∈ choices, c.isEarly = true)
    (hs : s.manager.hasGivenUp = true ∨
      Sound p mode backend (Config.ofEnvironment env).patience s) :
    (s.follow host p choices).manager.hasGivenUp = true ∨
      Sound p mode backend (Config.ofEnvironment env).patience (s.follow host p choices) := by
  induction choices generalizing s with
  | nil => exact hs
  | cons c rest ih =>
    refine ih (fun d hd => hearly d (List.mem_cons_of_mem c hd)) ?_
    rcases hs with hgiven | hs
    · exact .inl (step_hasGivenUp host p c hgiven)
    · cases c with
      | manager => exact hs.manage hp host
      | worker k now pick =>
        have hc := hearly (.worker k now pick) List.mem_cons_self
        exact .inr (hs.worker hp host k now pick (not_overruns (of_decide_eq_true hc)))
      | rouse k => exact .inr (hs.rouse host k)

def Plan.part (p : Plan) : Item → ℕ
  | .sections | .acquires => p.iterations
  | .yields => p.iterations / p.yieldEvery
  | .inside | .waiters => 0
  | .exits => 1

theorem share_gone (hplace : w.place = .gone none) (hround : w.round = p.iterations) (i : Item) :
    w.share p i = .ofNat (p.part i) := by
  have hpending : w.place.pending i = 0 := by
    rw [hplace]
    rfl
  rw [share_eq_rounds hpending]
  cases i <;> simp [Worker.rounds, hplace, hround, Plan.part, Place.isUnpassed, Place.isInside,
    Place.isUnyielded, Place.isGone, Bool.toUInt64]

theorem tally_const {f : Worker → UInt64} {c : ℕ} (h : ∀ w ∈ s.workers, f w = .ofNat c) :
    s.tally f = .ofNat (s.workers.length * c) := by
  rw [State.tally, List.map_congr_left h]
  induction s.workers with
  | nil => simp
  | cons w rest ih =>
    rw [List.map_cons, List.sum_cons, ih, List.length_cons, Nat.succ_mul, UInt64.ofNat_add]
    exact UInt64.add_comm _ _

structure AddsUp (p : Plan) (s : State) (r : Report) : Prop where
  sections : r.sections = .ofNat (p.threads * p.iterations)
  violations : r.violations = 0
  acquires : r.acquires = .ofNat (p.threads * p.iterations)
  yields : r.metrics.gil.yields = .ofNat (p.threads * (p.iterations / p.yieldEvery))
  spawned : r.metrics.threads.spawned = .ofNat p.threads
  exited : r.metrics.threads.exited = .ofNat p.threads
  spawnFailures : r.metrics.threads.spawnFailures = 0
  word : s.interpreter.gil.word = Mode.freeWord
  holder : s.interpreter.gil.holder = none
  waiters : s.interpreter.gil.waiters = 0
  live : s.interpreter.bootstrap.live = 0

theorem isOver_iff : s.isOver = true ↔ s.manager = .joining ∧ ∀ w ∈ s.workers, w.isGone = true := by
  unfold State.isOver
  split
  · simp_all
  · simp_all

namespace Sound

variable (hs : Sound p mode backend patience s) (hover : s.isOver = true)

include hs hover

theorem gone (hk : s.workers[k]? = some w) : w.place = .gone none ∧ w.round = p.iterations := by
  have hgone := (isOver_iff.mp hover).2 w (List.mem_of_getElem? hk)
  have hst := hs.stands k w hk
  obtain ⟨me, n, place⟩ := w
  cases hst <;> first | exact ⟨rfl, rfl⟩ | cases hgone

theorem employed : s.workers.length = p.threads ∧
    s.interpreter.metrics.threads.spawned = .ofNat p.threads := by
  have he := hs.employs
  rw [(isOver_iff.mp hover).1] at he
  generalize s.workers.length = n, s.idents.next = next,
    s.interpreter.metrics.threads.spawned = spawned at he
  cases he
  exact ⟨rfl, rfl⟩

theorem amount_eq (i : Item) : s.amount i = .ofNat (p.threads * p.part i) := by
  rw [hs.total, ← (hs.employed hover).1]
  apply tally_const
  intro w hw
  obtain ⟨k, hk⟩ := List.getElem?_of_mem hw
  obtain ⟨hplace, hround⟩ := hs.gone hover hk
  exact share_gone hplace hround i

theorem panics_eq_zero : s.panics = 0 := by
  rw [State.panics, List.length_eq_zero_iff, List.filter_eq_nil_iff]
  intro w hw
  obtain ⟨k, hk⟩ := List.getElem?_of_mem hw
  rw [(hs.gone hover hk).1]
  nofun

theorem lock_free : s.interpreter.gil.word = Mode.freeWord ∧ s.interpreter.gil.holder = none := by
  obtain ⟨hold, hh⟩ := hs.holds
  apply hh.free
  intro k w hk
  rw [(hs.gone hover hk).1]
  rfl

theorem live_eq_zero : s.interpreter.bootstrap.live = 0 := by
  have hslots : (s.tally fun w => w.place.holdsSlot.toNat) = 0 := by
    apply List.sum_eq_zero
    intro x hx
    obtain ⟨w, hw, rfl⟩ := List.mem_map.mp hx
    obtain ⟨k, hk⟩ := List.getElem?_of_mem hw
    rw [(hs.gone hover hk).1]
    rfl
  rw [hs.live, hslots, (isOver_iff.mp hover).1]
  rfl

theorem addsUp (elapsedMillis : ℕ) : AddsUp p s (s.report p elapsedMillis) where
  sections := hs.amount_eq hover .sections
  violations := by
    simp only [State.report, hs.violations, hs.panics_eq_zero hover]
    rfl
  acquires := hs.amount_eq hover .acquires
  yields := hs.amount_eq hover .yields
  spawned := (hs.employed hover).2
  exited := by
    have h := hs.amount_eq hover .exits
    rw [Plan.part, Nat.mul_one] at h
    exact h
  spawnFailures := hs.failures
  word := (hs.lock_free hover).1
  holder := (hs.lock_free hover).2
  waiters := by
    have h := hs.amount_eq hover .waiters
    rw [Plan.part, Nat.mul_zero] at h
    exact h
  live := hs.live_eq_zero hover

end Sound

/-- Whatever the workers do at the lock, in whatever order, a workload that comes to its end adds
up. -/
theorem adds_up_run {env : Environment} {mode : Option Mode} {backend : Option Backend} {p : Plan}
    {r : Interpreter} (hb : Interpreter.build (configure env mode backend) = .ok r)
    (hroom : p.threads * handleSize ≤ largestList) (host : Host) (choices : List Choice)
    (hearly : ∀ c ∈ choices, c.isEarly = true)
    (hover : ((State.start p r).follow host p choices).isOver = true) (elapsedMillis : ℕ) :
    AddsUp p ((State.start p r).follow host p choices)
      (((State.start p r).follow host p choices).report p elapsedMillis) := by
  have hstart := sound_start (p := p) hb
  rcases sound_follow (threads_lt hroom) host choices hearly (.inr hstart) with hgiven | hs
  · rw [(isOver_iff.mp hover).1] at hgiven
    cases hgiven
  · exact hs.addsUp hover elapsedMillis

/-- One of two workers contends, and the other hands it the lock in a yield. -/
theorem adds_up_run_handed_over :
    let steps (k n : ℕ) : List Choice := List.replicate n (.worker k ⟨0⟩ 0)
    let choices := List.replicate 8 .manager ++ steps 0 11 ++ steps 1 10 ++ steps 0 16 ++
      steps 1 23 ++ steps 0 20
    let p : Plan := ⟨2, 1, 1⟩
    let r : Interpreter :=
      { gil := .new .generic .posix Gil.defaultPatience
        bootstrap := { backend := .posix, collector := some {} } }
    let s := (State.start p r).follow .standard p choices
    Interpreter.build (configure (fun _ => none) none none) = .ok r ∧
      p.threads * handleSize ≤ largestList ∧ (∀ c ∈ choices, c.isEarly = true) ∧ s.isOver = true ∧
      s.interpreter.metrics.gil.handoffs = 1 ∧ AddsUp p s (s.report p 0) := by
  intro steps choices p r s
  have hb : Interpreter.build (configure (fun _ => none) none none) = .ok r := rfl
  have hearly : ∀ c ∈ choices, c.isEarly = true := by decide
  have hover : s.isOver = true := by decide +kernel
  have hhandoff : s.interpreter.metrics.gil.handoffs = 1 := by decide +kernel
  have hroom : p.threads * handleSize ≤ largestList := by decide
  exact
    ⟨hb, hroom, hearly, hover, hhandoff, adds_up_run hb hroom .standard choices hearly hover 0⟩

end InterpreterLock.Workload
