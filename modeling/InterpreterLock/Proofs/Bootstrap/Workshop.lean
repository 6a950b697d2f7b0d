import InterpreterLock.Proofs.Bootstrap.Departure
import InterpreterLock.Proofs.ThreadLock.Rack

/-!
# Entries that use general locks

The threads of an interpreter also use general locks, with guards and without, and may end while
they have some. A thread in a call of such a lock does nothing else until that call has ended. What
the interpreter sees of a run with general locks is a run without them.
-/

set_option autoImplicit false

namespace InterpreterLock.Bootstrap

structure Workshop where
  system : System
  rack : ThreadLock.Rack

namespace Workshop

inductive Action
  | runtime (a : Bootstrap.Action)
  | use (n k : ℕ) (use : ThreadLock.Use)
  | turn (n : ℕ) (now : Instant) (pick : ℕ)
  | allocate
  | interrupt (k : ℕ)
  | rouse (i : Ident) (k : ℕ)

def Action.isOrdinary : Action → Bool
  | .runtime a => a.isOrdinary
  | _ => true

def start (r : Interpreter) : Workshop := ⟨.start r, .start r.bootstrap.backend⟩

def isAway (h : Workshop) (w : Worker) : Bool := (h.rack.jobs w.ident).isSome

def isFree (h : Workshop) (w : Worker) : Bool :=
  w.stage.isOpen && !h.isAway w &&
    match w.doing with
    | .idle => true
    | _ => false

def act (h : Workshop) : Action → Workshop
  | .runtime (.thread n next) =>
    if (h.system.workers[n]?).any h.isAway then h
    else { h with system := h.system.act (.thread n next) }
  | .runtime a => { h with system := h.system.act a }
  | .use n k use =>
    match (h.system.workers[n]?).filter h.isFree with
    | none => h
    | some w => { h with rack := h.rack.act (.begin w.ident k use) }
  | .turn n now pick =>
    match h.system.workers[n]? with
    | none => h
    | some w => { h with rack := h.rack.act (.step ⟨w.ident, now, pick⟩) }
  | .allocate => { h with rack := h.rack.act .allocate }
  | .interrupt k => { h with rack := h.rack.act (.interrupt k) }
  | .rouse i k => { h with rack := h.rack.act (.rouse i k) }

def run (h : Workshop) (acts : List Action) : Workshop := acts.foldl act h

theorem run_concat (h : Workshop) (acts : List Action) (a : Action) :
    h.run (acts ++ [a]) = (h.run acts).act a := by
  simp [run]

variable {h : Workshop} {r : Interpreter} {acts : List Action} {n : ℕ} {w : Worker}

/-- The interpreter sees an action of its own, or nothing. -/
theorem act_system (h : Workshop) (a : Action) :
    (h.act a).system = h.system ∨
      ∃ b, a = .runtime b ∧ (h.act a).system = h.system.act b := by
  cases a with
  | runtime b =>
    cases b with
    | thread n next =>
      simp only [act]
      split
      · exact .inl rfl
      · exact .inr ⟨_, rfl, rfl⟩
    | arrive i => exact .inr ⟨_, rfl, rfl⟩
    | rouse i => exact .inr ⟨_, rfl, rfl⟩
  | use n k use =>
    simp only [act]
    split <;> exact .inl rfl
  | turn n now pick =>
    simp only [act]
    split <;> exact .inl rfl
  | _ => exact .inl rfl

/-- What the interpreter sees of a run is a run. -/
theorem exists_run (r : Interpreter) (acts : List Action)
    (ha : ∀ a ∈ acts, a.isOrdinary = true) :
    ∃ seen : List Bootstrap.Action, (∀ b ∈ seen, b.isOrdinary = true) ∧
      ((start r).run acts).system = (System.start r).run seen := by
  induction acts using List.reverseRecOn with
  | nil => exact ⟨[], nofun, rfl⟩
  | append_singleton acts a ih =>
    obtain ⟨seen, hseen, hsys⟩ := ih fun b hb => ha b (List.mem_append_left _ hb)
    rw [run_concat]
    rcases act_system ((start r).run acts) a with hsame | ⟨b, hab, hact⟩
    · exact ⟨seen, hseen, hsame.trans hsys⟩
    · have hb : b.isOrdinary = true := by
        have hlast := ha a (by simp)
        rw [hab] at hlast
        exact hlast
      refine ⟨seen ++ [b], fun c hc => ?_, ?_⟩
      · rcases List.mem_append.mp hc with hc | hc
        · exact hseen c hc
        · rw [List.mem_singleton.mp hc]
          exact hb
      · rw [hact, hsys]
        simp [System.run]

theorem distinct_of_act {a : Action} (hd : (h.act a).system.Distinct) : h.system.Distinct := by
  rcases act_system h a with hsame | ⟨b, -, hact⟩
  · rw [← hsame]
    exact hd
  · rw [hact] at hd
    exact hd.of_act (h.system.act_cases b)

def Ends (n : ℕ) (i : Ident) (ending : Option Panic) (s s' : System) : Prop :=
  ∃ w era, s.workers[n]? = some w ∧ w.ident = i ∧ w.stage = .wrapper era .entry ∧
    s' = s.commit n (s.endEntry w era ending)

def Parted (r : Interpreter) (acts : List Action) (n : ℕ) (i : Ident) : Prop :=
  ∃ early ending late, acts = early ++ .runtime (.thread n (.finish ending)) :: late ∧
    Ends n i ending ((start r).run early).system
      (((start r).run early).act (.runtime (.thread n (.finish ending)))).system ∧
    (((start r).run acts).system.interpreter.gil.holder = some i ↔
      ((start r).run early).system.interpreter.gil.holder = some i)

theorem Parted.later {i : Ident} (h : Parted r acts n i) {a : Action}
    (hholder : (((start r).run acts).act a).system.interpreter.gil.holder = some i ↔
      ((start r).run acts).system.interpreter.gil.holder = some i) :
    Parted r (acts ++ [a]) n i := by
  obtain ⟨early, ending, late, hsplit, hends, hsame⟩ := h
  refine ⟨early, ending, late ++ [a], by rw [hsplit]; simp, hends, ?_⟩
  rw [run_concat]
  exact hholder.trans hsame

theorem lawful_run {config : Config} (hr : Interpreter.build config = .ok r)
    (ha : ∀ a ∈ acts, a.isOrdinary = true) (hd : ((start r).run acts).system.Distinct) :
    ((start r).run acts).system.Entered ∧
      ∃ inside, ((start r).run acts).system.Lawful inside := by
  obtain ⟨seen, hseen, hsys⟩ := exists_run r acts ha
  rw [hsys] at hd ⊢
  exact ⟨System.entered_run r seen, System.lawful_run hr seen hseen hd⟩

theorem parted_run {config : Config} (hr : Interpreter.build config = .ok r)
    (ha : ∀ a ∈ acts, a.isOrdinary = true) (hd : ((start r).run acts).system.Distinct)
    (hn : ((start r).run acts).system.workers[n]? = some w) (hp : w.stage.isPast = true) :
    Parted r acts n w.ident := by
  -- At the last action of the run the entry has ended before it or ends by it.
  induction acts using List.reverseRecOn generalizing w with
  | nil => simp [run, start, System.start] at hn
  | append_singleton acts a ih =>
    have hearly : ∀ b ∈ acts, b.isOrdinary = true :=
      fun b hb => ha b (List.mem_append_left _ hb)
    rw [run_concat] at hd hn
    have hbefore := distinct_of_act hd
    rcases act_system ((start r).run acts) a with hsame | ⟨b, rfl, hact⟩
    · rw [hsame] at hn
      exact (ih hearly hbefore hn hp).later (by rw [hsame])
    · rw [hact] at hd hn
      obtain ⟨v, hv, hi, hcase⟩ := System.past_act hn hp
      rcases hcase with hvp | ⟨era, ending, rfl, hstage, hcommit⟩
      · obtain ⟨he, inside, hl⟩ := lawful_run hr hearly hbefore
        have hparted := ih hearly hbefore hv hvp
        have hb : b.isOrdinary = true := ha (.runtime b) (by simp)
        rw [hi]
        apply hparted.later
        rw [hact]
        exact System.holder_act hl he hb hd hv hn hi
          (System.idle_of_isPast he hv hvp)
          (System.idle_of_isPast (he.act (System.act_cases _ b)) hn hp)
      · refine ⟨acts, ending, [], rfl, ⟨v, era, hv, hi.symm, hstage, hact.trans hcommit⟩, ?_⟩
        rw [run_concat, hact, hcommit]
        rfl

structure Departs (r : Interpreter) (acts : List Action) (n : ℕ) (w : Worker) : Prop where
  slot : (((start r).run acts).system.trail n).count .slotReturned = 1
  deregistered :
    ((start r).run acts).system.interpreter.bootstrap.isRegistered w.ident = false
  record : w.hasLock ((start r).run acts).system.interpreter.gil = true ↔
    ((start r).run acts).system.interpreter.gil.holder = some w.ident
  parted : Parted r acts n w.ident

structure Departed (r : Interpreter) (acts : List Action) : Prop where
  each : ∀ n w, ((start r).run acts).system.workers[n]? = some w → w.stage = .gone →
    Departs r acts n w
  live : ((start r).run acts).system.interpreter.bootstrap.live =
    ((start r).run acts).system.tally (Worker.slots 0)
  exited : ((start r).run acts).system.interpreter.metrics.threads.exited =
    .ofNat (((start r).run acts).system.tally fun w => w.stage.ended)
  word : ((start r).run acts).system.interpreter.gil.word =
    if ∃ w ∈ ((start r).run acts).system.workers,
      w.hasLock ((start r).run acts).system.interpreter.gil = true then 1 else 0

/-- Any number of threads, with entries that do what they like and return or panic wherever they
are. -/
theorem departed_run {config : Config} (hr : Interpreter.build config = .ok r)
    (acts : List Action) (ha : ∀ a ∈ acts, a.isOrdinary = true)
    (hd : ((start r).run acts).system.Distinct) : Departed r acts := by
  obtain ⟨seen, hseen, hsys⟩ := exists_run r acts ha
  have hparted := fun n w => parted_run (n := n) (w := w) hr ha hd
  have hheard : r.heard = [] := by
    rw [Interpreter.build_eq hr]
    cases config.collector <;> rfl
  have hmetrics : r.metrics = {} := by rw [Interpreter.build_eq hr]
  rw [hsys] at hd hparted
  obtain ⟨inside, hl⟩ := System.lawful_run hr seen hseen hd
  constructor
  · intro n w hn hgone
    rw [hsys] at hn
    have hp : w.stage.isPast = true := by
      rw [hgone]
      rfl
    have hmem := List.mem_of_getElem? hn
    have hidle := System.idle_of_isPast (System.entered_run r seen) hn hp
    have hnone : w.doing.call? = none := by
      rw [hidle]
      rfl
    refine ⟨?_, ?_, ?_, hparted n w hn hp⟩
    · rw [hsys, System.returning_run hheard seen n w hn, hgone]
      rfl
    · rw [hsys, ← Bool.not_eq_true, System.rolled_run hr seen hseen hd w.ident]
      rintro ⟨-, hone⟩
      have hzero : ((System.start r).run seen).registeredOf w.ident = w.stage.registered :=
        hd.ofIdent_eq hmem
      rw [hzero, hgone] at hone
      cases hone
    · rw [hsys, hl.hasLock_iff hd hmem, hl.holder_iff hd hmem hnone]
  · rw [hsys]
    exact (System.conserving_run hr seen hl.resets).live_eq (System.kept_run hr seen)
  · rw [hsys]
    exact (System.tallied_run r hmetrics seen).exited
  · rw [hsys]
    exact hl.word hd

end Workshop

end InterpreterLock.Bootstrap
