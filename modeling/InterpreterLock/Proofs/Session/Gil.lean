import InterpreterLock.Proofs.Session.Replica

/-!
# Interpreter locks in a session

What happens to an interpreter lock in a session happens to it in a system of threads that do
nothing but call that lock. A step of a thread at the lock is a step of that thread in the system;
when the thread begins a call of the lock, it begins it there; and what it does elsewhere is not
seen there. So whatever is true of all runs of the system is true of the lock in all sessions.
-/

set_option autoImplicit false

namespace InterpreterLock

theorem Metrics.recordOpt_gil_congr {m m' : Metrics} (h : m.gil = m'.gil) (note : Option Record) :
    (m.recordOpt note).gil = (m'.recordOpt note).gil := by
  cases note with
  | none => exact h
  | some r =>
    cases r with
    | handoff completed => cases completed <;> simp [recordOpt, record, h]
    | lockStatus status => cases status <;> exact h
    | _ => simp [recordOpt, record, h]

section

variable {t : Turn} (m : Metrics)

theorem ThreadLock.Acquire.step_gil {terms : Terms} {l : ThreadLock} (a : Acquire) :
    (m.recordOpt (a.step terms t l).note).gil = m.gil := by
  cases a with
  | checkDeadline span ticket =>
    simp only [step]
    repeat' split
    all_goals rfl
  | unlist span status => cases status <;> rfl
  | recordStatus status => cases status <;> rfl
  | tryLock =>
    simp only [step]
    repeat' split
    all_goals rfl
  | retry span ticket =>
    simp only [step]
    split <;> rfl
  | checkLocked status =>
    simp only [step]
    split <;> rfl
  | lookForWaiters status =>
    simp only [step]
    split <;> rfl
  | _ => rfl

theorem ThreadLock.Release.step_gil {l : ThreadLock} (r : Release) :
    (m.recordOpt (r.step t l).note).gil = m.gil := by
  cases r with
  | signal => rfl
  | _ =>
    simp only [step]
    split <;> rfl

theorem Spawn.step_gil {host : Host} {name : Option String} {n : Nursery} (c : Spawn) :
    (m.recordOpt (c.step host name n).note).gil = m.gil := by
  cases c with
  | abandon cause => cases cause <;> rfl
  | takeIdent => rfl
  | recordFailure e => rfl
  | recordSpawned i => rfl
  | _ =>
    simp only [step]
    repeat' split
    all_goals rfl

theorem Wrapper.step_gil {me : Ident} {b : Bootstrap} (c : Wrapper) :
    (m.recordOpt (c.step me b).note).gil = m.gil := by
  cases c <;> rfl

end

namespace Interpreter.Call

def inLock? : Call → Option Gil.Call
  | .acquire a | .leave a => some (.acquire a)
  | .release r | .enter r => some (.release r)
  | .yield y => some (.yield y)
  | .reinit r => some (.reinit r)
  | .announceFork | .forgetThreads | .report _ | .beforeFork => none

variable {t : Turn} {s : Interpreter} {c : Call}

theorem inLock?_begun (op : Op) :
    op.call.inLock? = none ∨ ∃ l : Gil.Op, op.call.inLock? = some l.call := by
  cases op with
  | acquire => exact .inr ⟨.acquire, rfl⟩
  | release => exact .inr ⟨.release, rfl⟩
  | yield => exact .inr ⟨.yield, rfl⟩
  | enter => exact .inr ⟨.enter, rfl⟩
  | leave => exact .inr ⟨.leave, rfl⟩
  | beforeFork => exact .inl rfl
  | afterFork => exact .inr ⟨.reinit, rfl⟩

theorem onGil_inLock {σ α β : Type} {m : Move Gil σ α} {inner : σ → Call}
    {after : α → Progress Call Bool} {cutOff : Panic → Progress Call Bool} {place : σ → Gil.Call}
    {ending : α → Progress Gil.Call β} (hin : ∀ x, (inner x).inLock? = some (place x))
    (hafter : ∀ a, (after a).next?.bind inLock? = none)
    (hcut : ∀ p, (cutOff p).next?.bind inLock? = none) (hend : ∀ a, (ending a).next? = none) :
    (onGil s m inner after cutOff).2.next?.bind inLock? =
      (m.progress.within place ending).next? := by
  simp only [onGil]
  cases m.progress with
  | going x => exact hin x
  | done a => exact (hafter a).trans (hend a).symm
  | unwound p => exact hcut p

/-- At the lock a step of a call of an interpreter is a step of a call of the lock. -/
theorem step_inLock {l : Gil.Call} (hc : c.inLock? = some l) :
    (c.step t s).1.gil = (l.step t s.gil).state ∧
      (c.step t s).1.metrics = s.metrics.recordOpt (l.step t s.gil).note ∧
      (c.step t s).2.next?.bind inLock? = (l.step t s.gil).progress.next? := by
  have hrun (b : Bool) : (if b then Progress.going (report (.ok true)) else .done false :
      Progress Call Bool).next?.bind inLock? = none := by
    cases b <;> rfl
  cases c with
  | yield y =>
    cases hc
    exact ⟨rfl, rfl, onGil_inLock (fun _ => rfl) hrun (fun _ => rfl) fun _ => rfl⟩
  | acquire a =>
    cases hc
    exact ⟨rfl, rfl, onGil_inLock (fun _ => rfl) (fun _ => rfl) (fun _ => rfl) fun _ => rfl⟩
  | release r =>
    cases hc
    exact ⟨rfl, rfl, onGil_inLock (fun _ => rfl) (fun _ => rfl) (fun _ => rfl) fun _ => rfl⟩
  | enter r =>
    cases hc
    exact ⟨rfl, rfl, onGil_inLock (fun _ => rfl) (fun _ => rfl) (fun _ => rfl) fun _ => rfl⟩
  | leave a =>
    cases hc
    exact ⟨rfl, rfl, onGil_inLock (fun _ => rfl) (fun _ => rfl) (fun _ => rfl) fun _ => rfl⟩
  | reinit r =>
    cases hc
    exact ⟨rfl, rfl, onGil_inLock (fun _ => rfl) (fun _ => rfl) (fun _ => rfl) fun _ => rfl⟩
  | _ => cases hc

theorem step_outside (hc : c.inLock? = none) :
    (c.step t s).1.gil = s.gil ∧ (c.step t s).1.metrics = s.metrics ∧
      (c.step t s).2.next?.bind inLock? = none := by
  cases c with
  | announceFork => exact ⟨rfl, rfl, rfl⟩
  | forgetThreads => exact ⟨rfl, rfl, rfl⟩
  | report ending => cases ending <;> exact ⟨rfl, rfl, rfl⟩
  | beforeFork => exact ⟨rfl, rfl, rfl⟩
  | _ => cases hc

end Interpreter.Call

namespace Session

namespace World

variable {w w' : World} {me : Ident} {th : Thread} {purpose : Purpose} {c : Call} {n : ℕ}

def gilOf? (w : World) (n : ℕ) : Option (Gil × LockWordCounts) :=
  w.interpreters[n]?.map fun r => (r.gil, r.metrics.gil)

def gilCall? (n : ℕ) : Call → Option Gil.Call
  | .gil m c => if m = n then some c else none
  | .interpreter m c => if m = n then c.inLock? else none
  | _ => none

theorem gilOf?_setInterpreter {m : ℕ} {r r' : Interpreter} (hr : w.interpreters[m]? = some r) :
    (w.setInterpreter m r').gilOf? n =
      if m = n then some (r'.gil, r'.metrics.gil) else w.gilOf? n := by
  obtain ⟨hm, -⟩ := List.getElem?_eq_some_iff.mp hr
  simp only [gilOf?, setInterpreter, List.getElem?_set]
  split
  · simp
  · rfl

theorem gilOf?_spared {m : ℕ} {r r' : Interpreter} (hr : w.interpreters[m]? = some r)
    (hg : r'.gil = r.gil) (hc : r'.metrics.gil = r.metrics.gil) :
    (w.setInterpreter m r').gilOf? n = w.gilOf? n := by
  rw [gilOf?_setInterpreter hr, hg, hc]
  split
  · rename_i hmn
    rw [gilOf?, ← hmn, hr]
    rfl
  · rfl

theorem gilOf?_countOn {owner : Option ℕ} {note : Option Metrics.Record}
    (h : ∀ m : Metrics, (m.recordOpt note).gil = m.gil) :
    (w.countOn owner note).gilOf? n = w.gilOf? n := by
  cases owner with
  | none => rfl
  | some m =>
    simp only [gilOf?, countOn, modifyInterpreter, List.getElem?_modify]
    by_cases hmn : m = n
    · simp [hmn, Function.comp_def, h]
    · simp [hmn]

/-- The step leaves the interpreter lock alone, and the thread does not come to it. -/
def SparesGil (w : World) (n : ℕ) (x : Stepped) : Prop :=
  x.1.gilOf? n = w.gilOf? n ∧ x.2.next?.bind (gilCall? n) = none

theorem hearSelf_sparesGil (m : ℕ) (c : HookCall) : w.SparesGil n (w.hearSelf m me c) := by
  simp only [hearSelf]
  split
  · exact ⟨rfl, rfl⟩
  · rename_i r hr
    split
    · exact ⟨rfl, rfl⟩
    · exact ⟨gilOf?_spared hr rfl rfl, rfl⟩

theorem stepSingle_sparesGil (s : Statement) : w.SparesGil n (w.stepSingle th s) := by
  cases s with
  | setStackSize m size =>
    simp only [stepSingle]
    split
    · exact ⟨rfl, rfl⟩
    · rename_i r hr
      split
      · exact ⟨rfl, rfl⟩
      · exact ⟨gilOf?_spared hr rfl rfl, rfl⟩
  | registerSelf m => exact hearSelf_sparesGil m _
  | deregisterSelf m => exact hearSelf_sparesGil m _
  | _ =>
    simp only [stepSingle, onEvent]
    repeat' split
    all_goals exact ⟨rfl, rfl⟩

theorem stepSpawn_sparesGil (m : ℕ) (who : String) (label : Option String) (c : Spawn) :
    w.SparesGil n (w.stepSpawn m who label c) := by
  simp only [stepSpawn]
  split
  · exact ⟨rfl, rfl⟩
  · rename_i r hr
    have hgil (idents : IdentSource) (bootstrap : Bootstrap) (o : Option Ident) :
        (World.launch ({ w with idents }.setInterpreter m
          { r with
            bootstrap
            metrics := r.metrics.recordOpt (c.step .standard label ⟨r.bootstrap, w.idents⟩).note })
          m who label o).gilOf? n = w.gilOf? n := by
      rw [gilOf?, (launch_shared ..).1]
      exact gilOf?_spared (w := { w with idents }) hr rfl (c.step_gil r.metrics)
    split <;> exact ⟨hgil _ _ _, rfl⟩

theorem inLock?_within {p : Progress Interpreter.Call Bool} {after : Bool → Progress Call Reply}
    (hafter : ∀ b, (after b).next? = none) :
    (p.within (.interpreter n) after).next?.bind (gilCall? n) =
      p.next?.bind Interpreter.Call.inLock? := by
  rw [Progress.next?_within hafter]
  cases p with
  | going x => exact if_pos rfl
  | _ => rfl

theorem stepCall_sparesGil (th : Thread) (purpose : Purpose) (hc : gilCall? n c = none) :
    w.SparesGil n (w.stepCall th purpose c) := by
  cases c with
  | single s => exact stepSingle_sparesGil s
  | spawn m who label c => exact stepSpawn_sparesGil m who label c
  | wrapper m c => exact ⟨rfl, rfl⟩
  | gil m c =>
    have hmn : m ≠ n := by
      rintro rfl
      simp [gilCall?] at hc
    simp only [stepCall, stepGil]
    split
    · exact ⟨rfl, rfl⟩
    · rename_i r hr
      refine ⟨?_, next?_bind_within (fun x => by simp [gilCall?, hmn]) fun _ => rfl⟩
      rw [gilOf?_setInterpreter hr, if_neg hmn]
  | interpreter m c =>
    simp only [stepCall, stepInterpreter]
    split
    · exact ⟨rfl, rfl⟩
    · rename_i r hr
      by_cases hmn : m = n
      · have hout : c.inLock? = none := by simpa [gilCall?, hmn] using hc
        obtain ⟨hg, hm, hnext⟩ :=
          Interpreter.Call.step_outside (t := w.turnOf th.ident) (s := r) hout
        refine ⟨gilOf?_spared hr hg (by rw [hm]), ?_⟩
        rw [hmn, inLock?_within fun _ => rfl]
        exact hnext
      · refine ⟨?_, next?_bind_within (fun x => by simp [gilCall?, hmn]) fun _ => rfl⟩
        rw [gilOf?_setInterpreter hr, if_neg hmn]
  | lock k terms c =>
    simp only [stepCall, stepLock]
    split
    · exact ⟨rfl, rfl⟩
    · exact ⟨gilOf?_countOn fun m => c.step_gil m, next?_bind_within (fun _ => rfl) fun _ => rfl⟩
  | unlock k c =>
    simp only [stepCall, stepUnlock]
    split
    · exact ⟨rfl, rfl⟩
    · refine ⟨gilOf?_countOn fun m => c.step_gil m, next?_bind_within (fun _ => rfl) fun was => ?_⟩
      cases was <;> rfl
  | wait k c =>
    simp only [stepCall, stepWait]
    split
    · exact ⟨rfl, rfl⟩
    · exact ⟨rfl, next?_bind_within (fun _ => rfl) fun _ => rfl⟩
  | awaitEntry i =>
    simp only [stepCall]
    split <;> exact ⟨rfl, rfl⟩
  | awaitEnd i =>
    simp only [stepCall, stepAwaitEnd]
    split <;> exact ⟨rfl, rfl⟩

/-- A step at the interpreter lock is a step of a call of that lock. -/
theorem stepCall_atGil (th : Thread) (purpose : Purpose) {l : Gil.Call} (hc : gilCall? n c = some l)
    {s : Gil.System} (hg : w.gilOf? n = some (s.gil, s.metrics.gil)) :
    (w.stepCall th purpose c).1.gilOf? n =
        some ((l.step (w.turnOf th.ident) s.gil).state,
          (s.metrics.recordOpt (l.step (w.turnOf th.ident) s.gil).note).gil) ∧
      (w.stepCall th purpose c).2.next?.bind (gilCall? n) =
        (l.step (w.turnOf th.ident) s.gil).progress.next? := by
  obtain ⟨r, hr, hpair⟩ := Option.map_eq_some_iff.mp hg
  obtain ⟨hgil, hcounts⟩ := Prod.mk.inj hpair
  cases c with
  | gil m c =>
    obtain ⟨rfl, rfl⟩ : m = n ∧ c = l := by simpa [gilCall?] using hc
    simp only [stepCall, stepGil, hr]
    rw [gilOf?_setInterpreter hr, if_pos rfl, hgil]
    refine ⟨by rw [Metrics.recordOpt_gil_congr hcounts], ?_⟩
    rw [Progress.next?_within fun _ => rfl]
    cases (c.step (w.turnOf th.ident) s.gil).progress with
    | going x => exact if_pos rfl
    | _ => rfl
  | interpreter m c =>
    obtain ⟨rfl, hin⟩ : m = n ∧ c.inLock? = some l := by simpa [gilCall?] using hc
    obtain ⟨hstate, hmetrics, hnext⟩ :=
      Interpreter.Call.step_inLock (t := w.turnOf th.ident) (s := r) hin
    simp only [stepCall, stepInterpreter, hr]
    rw [gilOf?_setInterpreter hr, if_pos rfl, hstate, hmetrics, hgil,
      Metrics.recordOpt_gil_congr hcounts, inLock?_within fun _ => rfl, hnext, hgil]
    exact ⟨rfl, rfl⟩
  | _ => cases hc

theorem Begun.gilCall? {d : Call} (h : Begun d) :
    World.gilCall? n d = none ∨ ∃ op : Gil.Op, World.gilCall? n d = some op.call := by
  cases h with
  | gil m op =>
    by_cases hmn : m = n
    · exact .inr ⟨op, if_pos hmn⟩
    · exact .inl (if_neg hmn)
  | interpreter m op =>
    by_cases hmn : m = n
    · rw [show World.gilCall? n (.interpreter m op.call) = op.call.inLock? from if_pos hmn]
      exact Interpreter.Call.inLock?_begun op
    · exact .inl (if_neg hmn)
  | _ => exact .inl rfl

theorem stepWrapper_gil {m : ℕ} {c : Wrapper} :
    (w.stepWrapper th m c).1.gilOf? n = w.gilOf? n := by
  unfold stepWrapper
  split
  · rfl
  · rename_i r hr
    exact gilOf?_spared hr rfl (c.step_gil r.metrics)

end World

open World

/-- The system of threads at the interpreter lock stands for the lock of the interpreter with this
number, and for the counters of that lock. -/
def gilReplica (n : ℕ) : Replica Gil.System Gil.Action Gil.Call where
  act := Gil.System.act
  calls := Gil.System.calls
  view := gilCall? n
  standsFor s w := w.gilOf? n = some (s.gil, s.metrics.gil)
  congr hs hi _ := by
    rw [gilOf?, hi]
    exact hs
  enter {s i d} hd hidle := by
    refine (hd.gilCall? (n := n)).imp_right ?_
    rintro ⟨op, hop⟩
    have hact : s.act (.begin i op) = s.beginCall i op.call := by simp only [Gil.System.act, hidle]
    refine ⟨.begin i op, fun w hw => ?_, ?_⟩
    · rw [hact]
      exact hw
    · rw [hact, hop]
      rfl
  step {s w th} purpose {c} hs hc := by
    cases hv : gilCall? n c with
    | none =>
      obtain ⟨hgil, hnext⟩ := stepCall_sparesGil (w := w) th purpose hv
      refine ⟨[], hgil.trans hs, ?_⟩
      rw [hnext, ← hv, ← hc, Function.update_eq_self]
      rfl
    | some l =>
      obtain ⟨hgil, hnext⟩ := stepCall_atGil th purpose hv hs
      have hact : s.act (.step (w.turnOf th.ident)) = s.stepCall (w.turnOf th.ident) l := by
        have hcalls : s.calls (w.turnOf th.ident).me = some l := hc.trans hv
        simp only [Gil.System.act, hcalls]
      refine ⟨[.step (w.turnOf th.ident)], ?_, ?_⟩
      · rw [List.foldl_cons, List.foldl_nil, hact]
        exact hgil
      · rw [List.foldl_cons, List.foldl_nil, hact, hnext]
        rfl
  wrapper _ _ := rfl
  stepWrapper hs := stepWrapper_gil.trans hs

/-- In every session the lock of an interpreter, its counters and its callers are where a run of the
system of threads at that lock leads. -/
theorem gil_of_session {interpreters : List Interpreter} {n : ℕ} {config : Config}
    {r : Interpreter} (hr : interpreters[n]? = some r) (hbuild : Interpreter.build config = .ok r)
    (lines : List Line) (hl : lines.length * (stepBound + 3) + 2 < 2 ^ 64) :
    ∃ acts, (gilReplica n).Follows
      ((Gil.System.start config.mode config.backend config.patience).run acts)
      (run interpreters lines) := by
  refine Replica.reaches_run ?_ (fun i => rfl) lines hl
  have hgil : (start interpreters).gilOf? n = some (r.gil, r.metrics.gil) := by
    rw [gilOf?, show (start interpreters).interpreters = interpreters from rfl, hr]
    rfl
  rw [Interpreter.build_eq hbuild] at hgil
  exact hgil

end Session

end InterpreterLock
