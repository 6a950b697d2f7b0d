import InterpreterLock.Proofs.Session.Deeds

/-!
# Replicas of a part of the world

A replica has a state of its own that takes actions, and knows of each thread the call that it is in
at the part of the world that it stands for. It follows a session: for each deed there are actions
after which it again stands for its part and knows of the same calls.
-/

set_option autoImplicit false

namespace InterpreterLock.Session

open World

structure Replica (σ α γ : Type) where
  act : σ → α → σ
  calls : σ → Ident → Option γ
  view : Call → Option γ
  standsFor : σ → World → Prop
  congr : ∀ {s : σ} {w w' : World}, standsFor s w → w'.interpreters = w.interpreters →
    w'.locks = w.locks → standsFor s w'
  enter : ∀ {s : σ} {i : Ident} {d : Call}, Begun d → calls s i = none →
    view d = none ∨ ∃ a : α, (∀ w, standsFor s w → standsFor (act s a) w) ∧
      calls (act s a) = Function.update (calls s) i (view d)
  step : ∀ {s : σ} {w : World} {th : Thread} (purpose : Purpose) {c : Call}, standsFor s w →
    calls s th.ident = view c → ∃ acts : List α,
      standsFor (acts.foldl act s) (w.stepCall th purpose c).1 ∧
        calls (acts.foldl act s) =
          Function.update (calls s) th.ident ((w.stepCall th purpose c).2.next?.bind view)
  wrapper : ∀ n c, view (.wrapper n c) = none
  stepWrapper : ∀ {s : σ} {w : World} {th : Thread} {n : ℕ} {c : Wrapper}, standsFor s w →
    standsFor s (w.stepWrapper th n c).1

namespace Replica

variable {σ α γ : Type} (r : Replica σ α γ) {w w' : World} {s : σ} {me : Ident} {k n : ℕ}

structure Follows (s : σ) (w : World) : Prop where
  standsFor : r.standsFor s w
  calls : w.sight r.view = r.calls s

def Reaches (s : σ) (w : World) : Prop := ∃ acts : List α, r.Follows (acts.foldl r.act s) w

variable {r}

theorem Reaches.after {acts : List α} (h : r.Reaches (acts.foldl r.act s) w) : r.Reaches s w := by
  obtain ⟨more, hmore⟩ := h
  refine ⟨acts ++ more, ?_⟩
  rw [List.foldl_append]
  exact hmore

/-- The call of one thread is still the one that is known, or the thread has begun it. -/
theorem reaches_of_update (me : Ident) (hs : r.standsFor s w)
    (hcalls : w.sight r.view = Function.update (r.calls s) me (w.sight r.view me))
    (hme : w.sight r.view me = r.calls s me ∨
      r.calls s me = none ∧ ∃ d, Begun d ∧ w.sight r.view me = r.view d) : r.Reaches s w := by
  have hstill (hsame : w.sight r.view me = r.calls s me) : r.Reaches s w := by
    refine ⟨[], hs, ?_⟩
    rw [hcalls, hsame, Function.update_eq_self]
    rfl
  rcases hme with hsame | ⟨hnone, d, hd, hnew⟩
  · exact hstill hsame
  · rcases r.enter hd hnone with hunseen | ⟨a, hstands, hbegun⟩
    · exact hstill (by rw [hnew, hunseen, hnone])
    · refine ⟨[a], hstands w hs, ?_⟩
      rw [hcalls, hnew]
      exact hbegun.symm

theorem Follows.step (h : r.Follows s w) (hs : w.Staffed k) (me : Ident) :
    r.Reaches s (w.step me) := by
  have hknown : r.calls s me = w.sight r.view me := by rw [h.calls]
  cases w.takes hs.keyed me with
  | rests hc hstep =>
    rw [hstep]
    exact ⟨[], h⟩
  | wrapper th n c hc hw =>
    have hbefore : r.calls s me = none := by
      rw [hknown, sight, hc]
      exact r.wrapper n c
    have hafter : (w.step me).sight r.view me = none := by
      cases hd : (w.step me).callOf? me with
      | none =>
        rw [sight, hd]
        rfl
      | some d =>
        obtain ⟨m, c', rfl⟩ := hw.resumes d hd
        rw [sight, hd]
        exact r.wrapper m c'
    refine reaches_of_update me (r.congr (r.stepWrapper h.standsFor) hw.interpreters hw.locks) ?_
      (.inl (hafter.trans hbefore.symm))
    rw [← h.calls]
    exact hw.others.sight (fun i hi => by cases hi) r.wrapper
  | call th purpose c hc hme hst =>
    subst hme
    have hnew (i : Ident) (hi : w.started? c = some i) : w.threadOf? i = none := by
      refine (hs.pending i th.ident ?_).2
      rw [sight, hc]
      exact pending?_of_started hi
    have hplace : r.calls s th.ident = r.view c := by
      rw [hknown, sight, hc]
      rfl
    obtain ⟨acts, hstands, hcalls⟩ := r.step purpose h.standsFor hplace
    have hstands' := r.congr hstands hst.interpreters hst.locks
    refine (reaches_of_update th.ident hstands' ?_ ?_).after
    · rw [hcalls, Function.update_idem, ← h.calls]
      exact hst.others.sight hnew r.wrapper
    · rw [hcalls, Function.update_self]
      rcases hst.sight with hgoes | ⟨hends, d, hd, hbegun⟩
      · exact .inl hgoes
      · rw [hends]
        exact .inr ⟨rfl, d, hd, hbegun⟩

theorem Follows.deed (h : r.Follows s w) (hs : w.Staffed k) (hd : w.Deed w') :
    r.Reaches s w' := by
  cases hd with
  | step me now =>
    obtain ⟨acts, hstands, hcalls⟩ := h.step hs me
    exact ⟨acts, r.congr hstands rfl rfl, hcalls⟩
  | still now replies => exact ⟨[], r.congr h.standsFor rfl rfl, h.calls⟩
  | change me w' hme others shared self =>
    refine reaches_of_update me (r.congr h.standsFor shared.1 shared.2.1) ?_ ?_
    · rw [← h.calls]
      exact others.sight (fun i hi => by cases hi) r.wrapper
    · rw [← h.calls]
      exact sight_of_change r.wrapper self
  | join name =>
    have hidle : r.calls s w.idents.take.1 = none := by
      have hnobody : w.threadOf? w.idents.take.1 = none := by
        by_contra hne
        have hle := hs.known _ hne
        rw [hs.taken_number] at hle
        omega
      rw [← h.calls, sight, callOf?, hnobody]
      rfl
    have hnew : (w.newThread name).1.sight r.view w.idents.take.1 = none := by
      rw [sight, callOf?, newThread_self]
      rfl
    refine reaches_of_update w.idents.take.1 (r.congr h.standsFor rfl rfl) ?_
      (.inl (hnew.trans hidle.symm))
    rw [← h.calls]
    exact (newThread_others name).sight (fun i hi => by cases hi) r.wrapper

theorem Follows.deeds (h : r.Follows s w) (hs : w.Staffed k) (hd : Deeds n w w')
    (hk : k + n + 1 < 2 ^ 64) : r.Reaches s w' := by
  induction hd generalizing s k with
  | none w => exact ⟨[], h⟩
  | cons first rest ih =>
    obtain ⟨k', hle, hs'⟩ := hs.deed (by omega) first
    obtain ⟨acts, hfollows⟩ := h.deed hs first
    exact (ih hfollows hs' (by omega)).after

theorem start_idle (interpreters : List Interpreter) (i : Ident) :
    (start interpreters).callOf? i = none := by
  let w : World := { now := epoch, interpreters }
  have hothers : w.Others w.idents.take.1 none (start interpreters) := newThread_others "main"
  have hself : (start interpreters).threadOf? w.idents.take.1 = some (w.newThread "main").2 :=
    newThread_self "main"
  by_cases hi : i = w.idents.take.1
  · rw [hi, callOf?, hself]
    rfl
  · rw [callOf?, hothers.kept i hi (by simp)]
    rfl

/-- A replica that stands for its part after some lines of a session follows all later ones. -/
theorem reaches_later {interpreters : List Interpreter} {early : List Line}
    (h : r.Follows s (run interpreters early)) (late : List Line)
    (hl : (early ++ late).length * (stepBound + 3) + 2 < 2 ^ 64) :
    r.Reaches s (run interpreters (early ++ late)) := by
  have hstaff := start_staffed interpreters
  rw [List.length_append, Nat.add_mul] at hl
  obtain ⟨a, ha, hearly⟩ := play_deeds early (start interpreters) hstaff.keyed
  obtain ⟨k, hk, hs⟩ := hearly.staffed hstaff (by omega)
  obtain ⟨b, hb, hlate⟩ := play_deeds late (run interpreters early) hs.keyed
  rw [run, List.foldl_append]
  exact h.deeds hs hlate (by omega)

theorem reaches_run {interpreters : List Interpreter} (hs : r.standsFor s (start interpreters))
    (hidle : ∀ i, r.calls s i = none) (lines : List Line)
    (hl : lines.length * (stepBound + 3) + 2 < 2 ^ 64) : r.Reaches s (run interpreters lines) := by
  have hfollows : r.Follows s (run interpreters []) := by
    refine ⟨hs, funext fun i => ?_⟩
    rw [hidle i, sight, run, List.foldl_nil, start_idle]
    rfl
  exact reaches_later hfollows lines hl

end Replica

end InterpreterLock.Session
