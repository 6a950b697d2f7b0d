import InterpreterLock.Proofs.Ident
import InterpreterLock.Proofs.Session.Threads
import Mathlib.Algebra.Group.Nat.Defs
import Mathlib.Logic.Function.Basic

/-!
# Deeds of a session

All that a session does to its world is a row of deeds: a step of a thread, time that passes, a
thread that begins a statement or a wrapper or is gone, a thread that joins. A deed takes one ident
at most.

While the idents do not run out, a thread is under an ident that was taken for it, and the ident
that a spawn has taken is unused until its thread starts: nobody is under it and no other spawn has
it.
-/

set_option autoImplicit false

namespace InterpreterLock

/-- A spawn takes the ident of its thread when it has its slot, and then asks for the thread. -/
theorem Spawn.step_idents (host : Host) (name : Option String) (n : Nursery) (c : Spawn) :
    ((c.step host name n).state.idents = n.idents ∧
        ∀ i, (c.step host name n).progress.next? ≠ some (.launch i)) ∨
      ((c.step host name n).state.idents = n.idents.take.2 ∧
        (c.step host name n).progress.next? = some (.launch n.idents.take.1)) := by
  cases c with
  | takeIdent => exact .inr ⟨rfl, rfl⟩
  | abandon cause => cases cause <;> exact .inl ⟨rfl, by simp [step, Progress.next?]⟩
  | _ =>
    simp only [step]
    repeat' split
    all_goals exact .inl (by simp [Progress.next?])

namespace Session

namespace World

variable {w w' : World} {me : Ident} {α : Type} {V : Call → Option α}

/-- Of the call of each thread, what a view shows of it. -/
def sight (w : World) (V : Call → Option α) (i : Ident) : Option α := (w.callOf? i).bind V

theorem Others.sight {o : Option Ident} (h : w.Others me o w')
    (hnew : ∀ i, o = some i → w.threadOf? i = none) (hV : ∀ n c, V (.wrapper n c) = none) :
    w'.sight V = Function.update (w.sight V) me (w'.sight V me) := by
  funext i
  by_cases hi : i = me
  · rw [hi, Function.update_self]
  · rw [Function.update_of_ne hi]
    by_cases ho : o = some i
    · obtain ⟨n, th, hth, -, hd⟩ := h.started i hi ho
      simp [World.sight, callOf?, hth, hd, hV, hnew i ho]
    · simp [World.sight, callOf?, h.kept i hi ho]

/-- After its step a thread is where the step of its call has left it, or it has begun a call. -/
theorem Steps.sight {th : Thread} {purpose : Purpose} {c : Call} (h : w.Steps me th purpose c) :
    (w.step me).sight V me = (w.stepCall th purpose c).2.next?.bind V ∨
      ((w.stepCall th purpose c).2.next? = none ∧
        ∃ d, Begun d ∧ (w.step me).sight V me = V d) := by
  have hres := h.resumes
  simp only [World.sight]
  cases hp : (w.stepCall th purpose c).2 with
  | going d =>
    rw [hp] at hres
    rw [show (w.step me).callOf? me = some d from hres]
    exact .inl rfl
  | _ =>
    rw [hp] at hres
    cases hd : (w.step me).callOf? me with
    | none => exact .inl rfl
    | some d => exact .inr ⟨rfl, d, hres d hd, rfl⟩

def pending? : Call → Option Ident
  | .spawn _ _ _ (.launch i) => some i
  | _ => none

theorem pending?_of_started {c : Call} {i : Ident} (h : w.started? c = some i) :
    pending? c = some i := by
  cases c with
  | spawn n who label c =>
    obtain ⟨r, -, hl⟩ := Option.bind_eq_some_iff.mp h
    cases c with
    | launch j =>
      simp only [Spawn.launches?] at hl
      split at hl
      · exact hl
      · cases hl
    | _ => cases hl
  | _ => cases h

theorem Begun.pending? {d : Call} (h : Begun d) : World.pending? d = none := by
  cases h <;> rfl

/-- What a step makes of the source of idents. -/
def Draws (w : World) (x : Stepped) : Prop :=
  (x.1.idents = w.idents ∧ x.2.next?.bind pending? = none) ∨
    (x.1.idents = w.idents.take.2 ∧ ∀ i, x.2.next?.bind pending? = some i → i = w.idents.take.1)

theorem next?_bind_within {σ β : Type} {p : Progress σ β} {inside : σ → Call}
    {after : β → Progress Call Reply} (hin : ∀ x, V (inside x) = none)
    (hafter : ∀ b, (after b).next? = none) : (p.within inside after).next?.bind V = none := by
  rw [Progress.next?_within hafter]
  cases p with
  | going x => exact hin x
  | _ => rfl

theorem draws_within {σ β : Type} {p : Progress σ β} {inside : σ → Call}
    {after : β → Progress Call Reply} (hw : w'.idents = w.idents)
    (hin : ∀ x, pending? (inside x) = none) (hafter : ∀ b, (after b).next? = none) :
    w.Draws (w', p.within inside after) :=
  .inl ⟨hw, next?_bind_within hin hafter⟩

theorem launch_shared (n : Nat) (who : String) (label : Option String) (o : Option Ident) :
    (w.launch n who label o).interpreters = w.interpreters ∧
      (w.launch n who label o).locks = w.locks ∧ (w.launch n who label o).idents = w.idents := by
  cases o <;> exact ⟨rfl, rfl, rfl⟩

theorem stepSpawn_draws (n : Nat) (who : String) (label : Option String) (c : Spawn) :
    w.Draws (w.stepSpawn n who label c) := by
  cases hr : w.interpreters[n]? with
  | none =>
    simp only [stepSpawn, hr]
    exact .inl ⟨rfl, rfl⟩
  | some r =>
    have hdraws := c.step_idents .standard label ⟨r.bootstrap, w.idents⟩
    simp only [stepSpawn, hr]
    generalize c.step .standard label ⟨r.bootstrap, w.idents⟩ = m at hdraws ⊢
    obtain ⟨state, progress, note⟩ := m
    rcases hdraws with ⟨hsame, hplace⟩ | ⟨htaken, hplace⟩
    · refine .inl ?_
      cases progress with
      | going c' =>
        refine ⟨(launch_shared ..).2.2.trans hsame, ?_⟩
        cases c' with
        | launch i => exact absurd rfl (hplace i)
        | _ => rfl
      | done answer => cases answer <;> exact ⟨(launch_shared ..).2.2.trans hsame, rfl⟩
      | unwound e => exact ⟨(launch_shared ..).2.2.trans hsame, rfl⟩
    · cases progress with
      | going c' =>
        cases hplace
        refine .inr ⟨(launch_shared ..).2.2.trans htaken, fun i hi => ?_⟩
        cases hi
        rfl
      | done answer => cases hplace
      | unwound e => cases hplace

theorem stepSingle_draws (th : Thread) (s : Statement) : w.Draws (w.stepSingle th s) := by
  cases s with
  | ident =>
    simp only [stepSingle]
    cases hown : th.own with
    | some i => exact .inl ⟨rfl, rfl⟩
    | none => exact .inr ⟨rfl, fun i hi => by cases hi⟩
  | _ =>
    simp only [stepSingle, hearSelf, onEvent]
    repeat' split
    all_goals exact .inl ⟨rfl, rfl⟩

/-- A step takes an ident for the thread that a spawn is to start, or for its own, or none. -/
theorem stepCall_draws (th : Thread) (purpose : Purpose) (c : Call) :
    w.Draws (w.stepCall th purpose c) := by
  cases c with
  | single s => exact stepSingle_draws th s
  | spawn n who label c => exact stepSpawn_draws n who label c
  | interpreter n c =>
    simp only [stepCall, stepInterpreter]
    split
    · exact .inl ⟨rfl, rfl⟩
    · exact draws_within rfl (fun _ => rfl) fun _ => rfl
  | gil n c =>
    simp only [stepCall, stepGil]
    split
    · exact .inl ⟨rfl, rfl⟩
    · exact draws_within rfl (fun _ => rfl) fun _ => rfl
  | lock k terms c =>
    simp only [stepCall, stepLock, countOn]
    split
    · exact .inl ⟨rfl, rfl⟩
    · refine draws_within ?_ (fun _ => rfl) fun _ => rfl
      split <;> rfl
  | unlock k c =>
    simp only [stepCall, stepUnlock, countOn]
    split
    · exact .inl ⟨rfl, rfl⟩
    · refine draws_within ?_ (fun _ => rfl) fun _ => rfl
      split <;> rfl
  | wait k c =>
    simp only [stepCall, stepWait]
    split
    · exact .inl ⟨rfl, rfl⟩
    · exact draws_within rfl (fun _ => rfl) fun _ => rfl
  | awaitEntry i =>
    simp only [stepCall]
    split <;> exact .inl ⟨rfl, rfl⟩
  | awaitEnd i =>
    simp only [stepCall, stepAwaitEnd]
    split <;> exact .inl ⟨rfl, rfl⟩
  | wrapper n c => exact .inl ⟨rfl, rfl⟩

/-- Every thread, and every spawn that is about to start one, has an ident of its own. -/
structure Staffed (w : World) (taken : ℕ) : Prop where
  keyed : w.Keyed
  next : w.idents.next.toNat = taken + 1
  known : ∀ i, w.threadOf? i ≠ none → i.number.toNat ≤ taken
  pending : ∀ i j, w.sight pending? j = some i → i.number.toNat ≤ taken ∧ w.threadOf? i = none
  apart : ∀ i j j', w.sight pending? j = some i → w.sight pending? j' = some i → j = j'

namespace Staffed

variable {k k' : ℕ} {o : Option Ident}

/-- At one thread something has changed, and it may have started another. -/
theorem change (h : w.Staffed k) (ho : w.Others me o w')
    (hstart : ∀ i, o = some i → w.sight pending? me = some i) (hk : k ≤ k')
    (hnext : w'.idents.next.toNat = k' + 1)
    (hme : w.threadOf? me ≠ none ∨ k < me.number.toNat ∧ me.number.toNat ≤ k')
    (hpend : ∀ i, w'.sight pending? me = some i →
      w.sight pending? me = some i ∧ o = none ∨
        k < i.number.toNat ∧ i.number.toNat ≤ k' ∧ i ≠ me) : w'.Staffed k' := by
  have hnew (i : Ident) (hi : o = some i) : w.threadOf? i = none :=
    (h.pending i me (hstart i hi)).2
  have hsight := ho.sight hnew fun _ _ => (rfl : pending? (.wrapper _ _) = none)
  have hunused (i : Ident) (hi : i ≠ me) (hio : o ≠ some i) (hnone : w.threadOf? i = none) :
      w'.threadOf? i = none := by
    rw [ho.kept i hi hio]
    exact hnone
  have hcases (i j : Ident) (hs : w'.sight pending? j = some i) :
      w.sight pending? j = some i ∧ (j = me → o = none) ∨
        j = me ∧ k < i.number.toNat ∧ i.number.toNat ≤ k' ∧ i ≠ me := by
    by_cases hj : j = me
    · subst hj
      exact (hpend i hs).imp (fun hold => ⟨hold.1, fun _ => hold.2⟩) fun hfresh => ⟨rfl, hfresh⟩
    · rw [hsight, Function.update_of_ne hj] at hs
      exact .inl ⟨hs, fun hjm => absurd hjm hj⟩
  refine ⟨ho.keyed h.keyed, hnext, fun i hi => ?_, fun i j hs => ?_, fun i j j' hs hs' => ?_⟩
  · by_cases him : i = me
    · subst him
      rcases hme with hne | ⟨-, hle⟩
      · exact (h.known i hne).trans hk
      · exact hle
    · by_cases hio : o = some i
      · exact (h.pending i me (hstart i hio)).1.trans hk
      · rw [ho.kept i him hio] at hi
        exact (h.known i hi).trans hk
  · rcases hcases i j hs with ⟨hold, hown⟩ | ⟨rfl, hlt, hle, him⟩
    · obtain ⟨hle, hnone⟩ := h.pending i j hold
      refine ⟨hle.trans hk, hunused i (fun him => ?_) (fun hio => ?_) hnone⟩
      · subst him
        rcases hme with hne | ⟨hlt, -⟩
        · exact hne hnone
        · omega
      · rw [hown (h.apart i j me hold (hstart i hio))] at hio
        cases hio
    · refine ⟨hle, hunused i him (fun hio => ?_) ?_⟩
      · have := (h.pending i j (hstart i hio)).1
        omega
      · by_contra hne
        have := h.known i hne
        omega
  · rcases hcases i j hs with ⟨hold, -⟩ | ⟨hj, hlt, -⟩ <;>
      rcases hcases i j' hs' with ⟨hold', -⟩ | ⟨hj', hlt', -⟩
    · exact h.apart i j j' hold hold'
    · have := (h.pending i j hold).1
      omega
    · have := (h.pending i j' hold').1
      omega
    · rw [hj, hj']

theorem taken_number (h : w.Staffed k) : w.idents.take.1.number.toNat = k + 1 := by
  have hne : w.idents.next ≠ 0 := by
    intro hz
    have hn := h.next
    rw [hz] at hn
    cases hn
  rw [IdentSource.take_number hne]
  exact h.next

theorem taken_next (h : w.Staffed k) (hk : k + 2 < 2 ^ 64) :
    w.idents.take.2.next.toNat = k + 2 := by
  have hs : w.idents.take.2.next.toNat = (k + 1 + 1) % 2 ^ 64 := by
    rw [← h.next]
    exact UInt64.toNat_add _ _
  rw [hs, Nat.mod_eq_of_lt hk]

/-- A step of a thread takes one ident at most. -/
theorem step (h : w.Staffed k) (hk : k + 2 < 2 ^ 64) (me : Ident) :
    ∃ k', k' ≤ k + 1 ∧ (w.step me).Staffed k' := by
  have hthere {c : Call} (hc : w.callOf? me = some c) : w.threadOf? me ≠ none :=
    Option.isSome_iff_ne_none.mp (isSome_of_callOf? hc)
  cases w.takes h.keyed me with
  | rests hc hstep =>
    rw [hstep]
    exact ⟨k, by omega, h⟩
  | wrapper th n c hc hw =>
    have hidents : (w.stepWrapper th n c).1.idents = w.idents := by
      unfold stepWrapper
      split <;> rfl
    refine ⟨k, by omega, h.change hw.others (fun i hi => by cases hi) le_rfl ?_
      (.inl (hthere hc)) fun i hi => ?_⟩
    · rw [hw.idents, hidents]
      exact h.next
    · obtain ⟨d, hd, hp⟩ := Option.bind_eq_some_iff.mp hi
      obtain ⟨m, c', rfl⟩ := hw.resumes d hd
      cases hp
  | call th purpose c hc hme hs =>
    have hstart (i : Ident) (hi : w.started? c = some i) : w.sight pending? me = some i := by
      rw [sight, hc]
      exact pending?_of_started hi
    have hpend : (w.step me).sight pending? me =
        (w.stepCall th purpose c).2.next?.bind pending? := by
      rcases hs.sight with hgoes | ⟨hends, d, hd, hnew⟩
      · exact hgoes
      · rw [hnew, hends, hd.pending?]
        rfl
    rcases stepCall_draws th purpose c with ⟨hsame, hnone⟩ | ⟨htaken, hone⟩
    · refine ⟨k, by omega, h.change hs.others hstart le_rfl ?_ (.inl (hthere hc)) fun i hi => ?_⟩
      · rw [hs.idents, hsame]
        exact h.next
      · rw [hpend, hnone] at hi
        cases hi
    · refine ⟨k + 1, le_rfl, h.change hs.others hstart (by omega) ?_ (.inl (hthere hc))
        fun i hi => ?_⟩
      · rw [hs.idents, htaken, h.taken_next hk]
      · rw [hpend] at hi
        have hnumber := h.taken_number
        rw [← hone i hi] at hnumber
        refine .inr ⟨by omega, by omega, ?_⟩
        rintro rfl
        have := h.known i (hthere hc)
        omega

end Staffed

inductive Deed (w : World) : World → Prop
  | step (me : Ident) (now : Instant) : Deed w { w.step me with now }
  | still (now : Instant) (replies : List (Ident × Reply)) : Deed w { w with now, replies }
  | change (me : Ident) (w' : World) (hme : w.threadOf? me ≠ none) (others : w.Others me none w')
    (shared : w'.interpreters = w.interpreters ∧ w'.locks = w.locks ∧ w'.idents = w.idents)
    (self : w'.callOf? me = w.callOf? me ∨ w.callOf? me = none ∧
      ∀ d, w'.callOf? me = some d → Begun d ∨ ∃ n c, d = .wrapper n c) : Deed w w'
  | join (name : String) : Deed w (w.newThread name).1

theorem newThread_self (name : String) :
    (w.newThread name).1.threadOf? w.idents.take.1 = some (w.newThread name).2 :=
  Table.get?_insert_self _ _ _

theorem newThread_others (name : String) :
    w.Others w.idents.take.1 none (w.newThread name).1 := by
  refine ⟨fun th hth => ?_, fun i hi _ => Table.get?_insert_of_ne _ _ hi, fun i _ ho => by cases ho⟩
  rw [newThread_self] at hth
  cases hth
  rfl

theorem Deed.keyed (h : w.Deed w') (hk : w.Keyed) : w'.Keyed := by
  cases h with
  | step me now =>
    cases w.takes hk me with
    | rests hc hstep =>
      rw [hstep]
      exact hk
    | wrapper th n c hc hw => exact hw.others.keyed hk
    | call th purpose c hc hme hs => exact hs.others.keyed hk
  | still now replies => exact hk
  | change me w' hme others shared self => exact others.keyed hk
  | join name => exact (newThread_others name).keyed hk

/-- At the thread where a deed has changed something, the view shows what it has shown, or it has
shown nothing and shows nothing but a call that has begun. -/
theorem sight_of_change (hV : ∀ n c, V (.wrapper n c) = none)
    (self : w'.callOf? me = w.callOf? me ∨ w.callOf? me = none ∧
      ∀ d, w'.callOf? me = some d → Begun d ∨ ∃ n c, d = .wrapper n c) :
    w'.sight V me = w.sight V me ∨ w.sight V me = none ∧
      ∃ d, Begun d ∧ w'.sight V me = V d := by
  rcases self with hsame | ⟨hidle, hnew⟩
  · left
    rw [sight, sight, hsame]
  · have hnone : w.sight V me = none := by rw [sight, hidle]; rfl
    cases hd : w'.callOf? me with
    | none =>
      left
      rw [hnone, sight, hd]
      rfl
    | some d =>
      have hs : w'.sight V me = V d := by rw [sight, hd]; rfl
      rcases hnew d hd with hb | ⟨n, c, rfl⟩
      · exact .inr ⟨hnone, d, hb, hs⟩
      · left
        rw [hnone, hs, hV]

theorem Staffed.join {k : ℕ} (h : w.Staffed k) (hk : k + 2 < 2 ^ 64) (name : String) :
    (w.newThread name).1.Staffed (k + 1) := by
  have hnumber := h.taken_number
  refine h.change (newThread_others name) (fun i hi => by cases hi) (by omega) (h.taken_next hk)
    (.inr ⟨by omega, by omega⟩) fun i hi => ?_
  have hidle : (w.newThread name).1.callOf? w.idents.take.1 = none := by
    rw [callOf?, newThread_self]
    rfl
  rw [sight, hidle] at hi
  cases hi

theorem Staffed.deed {k : ℕ} (h : w.Staffed k) (hk : k + 2 < 2 ^ 64) (hd : w.Deed w') :
    ∃ k', k' ≤ k + 1 ∧ w'.Staffed k' := by
  cases hd with
  | step me now =>
    obtain ⟨k', hle, hs⟩ := h.step hk me
    exact ⟨k', hle, hs.keyed, hs.next, hs.known, hs.pending, hs.apart⟩
  | still now replies => exact ⟨k, by omega, h.keyed, h.next, h.known, h.pending, h.apart⟩
  | change me w' hme others shared self =>
    refine ⟨k, by omega, h.change others (fun i hi => by cases hi) le_rfl ?_ (.inl hme)
      fun i hi => ?_⟩
    · rw [shared.2.2]
      exact h.next
    · left
      rcases sight_of_change (V := pending?) (fun _ _ => rfl) self with hsame | ⟨-, d, hd, hnew⟩
      · exact ⟨hsame ▸ hi, rfl⟩
      · rw [hnew, hd.pending?] at hi
        cases hi
  | join name => exact ⟨k + 1, le_rfl, h.join hk name⟩

inductive Deeds : ℕ → World → World → Prop
  | none (w : World) : Deeds 0 w w
  | cons {n : ℕ} {w w' w'' : World} (first : w.Deed w') (rest : Deeds n w' w'') :
    Deeds (n + 1) w w''

namespace Deeds

variable {m n : ℕ} {w'' : World}

theorem one (h : w.Deed w') : Deeds 1 w w' := .cons h (.none _)

theorem trans (h : Deeds m w w') (h' : Deeds n w' w'') : Deeds (m + n) w w'' := by
  induction h with
  | none w =>
    rw [Nat.zero_add]
    exact h'
  | cons first rest ih =>
    rw [Nat.add_right_comm]
    exact .cons first (ih h')

theorem keyed (h : Deeds n w w') (hk : w.Keyed) : w'.Keyed := by
  induction h with
  | none w => exact hk
  | cons first rest ih => exact ih (first.keyed hk)

theorem staffed {k : ℕ} (h : Deeds n w w') (hs : w.Staffed k) (hk : k + n + 1 < 2 ^ 64) :
    ∃ k', k' ≤ k + n ∧ w'.Staffed k' := by
  induction h generalizing k with
  | none w => exact ⟨k, le_rfl, hs⟩
  | cons first rest ih =>
    obtain ⟨k₁, hle₁, hs₁⟩ := hs.deed (by omega) first
    obtain ⟨k₂, hle₂, hs₂⟩ := ih hs₁ (by omega)
    exact ⟨k₂, by omega, hs₂⟩

end Deeds

theorem noteStop_deed (hk : w.Keyed) {i : Ident} {th : Thread} (hth : w.threadOf? i = some th) :
    w.Deed (w.noteStop i) := by
  have hself : (w.noteStop i).threadOf? i = some { th with stopped := w.stops } := by
    have hget : w.threads.get? i = some th := hth
    simp [threadOf?, noteStop, Table.get?_modify, hget]
  refine .change i _ (by simp [hth]) ⟨fun x hx => ?_, fun j hj _ => ?_, fun j _ ho => by cases ho⟩
    ⟨rfl, rfl, rfl⟩ (.inl ?_)
  · rw [hself] at hx
    cases hx
    exact hk i th hth
  · simp [threadOf?, noteStop, Table.get?_modify, hj]
  · rw [callOf?, hself, callOf?, hth]
    rfl

theorem settle_deeds (bound : Nat) (w : World) (o : Option Ident) (hk : w.Keyed) :
    ∃ n, n ≤ bound ∧ Deeds n w (settle bound w o) := by
  induction bound generalizing w o with
  | zero => exact ⟨0, le_rfl, .none w⟩
  | succ bound ih =>
    have hafter {w' : World} {o' : Option Ident} (h : w.Deed w') :
        ∃ n, n ≤ bound + 1 ∧ Deeds n w (settle bound w' o') := by
      obtain ⟨n, hn, hd⟩ := ih w' o' (h.keyed hk)
      exact ⟨n + 1, by omega, .cons h hd⟩
    have hsame (o' : Option Ident) : ∃ n, n ≤ bound + 1 ∧ Deeds n w (settle bound w o') := by
      obtain ⟨n, hn, hd⟩ := ih w o' hk
      exact ⟨n, by omega, hd⟩
    cases o with
    | some i =>
      simp only [settle]
      split
      · exact hsame _
      · rename_i th hth
        split
        · exact hafter (noteStop_deed hk hth)
        · exact hafter (.step i _)
    | none =>
      simp only [settle]
      split
      · exact hsame _
      · split
        · exact hafter (.still _ _)
        · exact ⟨0, by omega, .none w⟩

/-- An idle thread begins a call. -/
theorem setThread_deed {th : Thread} (hth : w.threadOf? th.ident = some th)
    (hidle : th.doing = none) {c : Call} {purpose : Purpose}
    (hc : Begun c ∨ ∃ n d, c = .wrapper n d) :
    w.Deed (w.setThread { th with doing := some (c, purpose) }) := by
  have hself : (w.setThread { th with doing := some (c, purpose) }).threadOf? th.ident =
      some { th with doing := some (c, purpose) } := Table.get?_insert_self _ _ _
  refine .change th.ident _ (by simp [hth])
    ⟨fun x hx => ?_, fun j hj _ => Table.get?_insert_of_ne _ _ hj, fun j _ ho => by cases ho⟩
    ⟨rfl, rfl, rfl⟩ (.inr ⟨by simp [callOf?, hth, hidle], fun d hd => ?_⟩)
  · rw [hself] at hx
    cases hx
    rfl
  · rw [callOf?, hself] at hd
    cases hd
    exact hc

theorem begin_deeds (hk : w.Keyed) {th : Thread} (hth : w.threadOf? th.ident = some th)
    (s : Statement) : ∃ n, n ≤ stepBound + 1 ∧ Deeds n w (w.begin th s) := by
  unfold World.begin
  split
  · exact ⟨1, by omega, .one (.still _ _)⟩
  · rename_i hidle
    have hdeed : w.Deed (w.setThread { th with doing := some (w.opening s) }) :=
      setThread_deed hth hidle (.inl (opening_begun s))
    obtain ⟨n, hn, hd⟩ := settle_deeds stepBound _ (some th.ident) (hdeed.keyed hk)
    exact ⟨n + 1, by omega, .cons hdeed hd⟩

theorem threadNamed?_ident (hk : w.Keyed) {name : String} {th : Thread}
    (h : w.threadNamed? name = some th) : w.threadOf? th.ident = some th := by
  obtain ⟨i, -, hth⟩ := Option.bind_eq_some_iff.mp h
  rw [hk i th hth]
  exact hth

theorem summon_deeds (hk : w.Keyed) (name : String) :
    (∃ n, n ≤ 1 ∧ Deeds n w (w.summon name).1) ∧
      (w.summon name).1.threadOf? (w.summon name).2.ident = some (w.summon name).2 := by
  unfold summon
  split
  · rename_i th hth
    exact ⟨⟨0, by omega, .none w⟩, threadNamed?_ident hk hth⟩
  · exact ⟨⟨1, le_rfl, .one (.join name)⟩, newThread_self name⟩

theorem perform_deeds (hk : w.Keyed) (name : String) (s : Statement) :
    ∃ n, n ≤ stepBound + 3 ∧ Deeds n w (w.perform name s).1 := by
  have hclear : w.Deed { w with replies := [] } := .still w.now []
  obtain ⟨⟨a, ha, hsummon⟩, hth⟩ := summon_deeds (hclear.keyed hk) name
  obtain ⟨b, hb, hbegin⟩ := begin_deeds (hsummon.keyed (hclear.keyed hk)) hth s
  exact ⟨a + b + 1, by omega, .cons hclear (hsummon.trans hbegin)⟩

theorem erase_deed {th : Thread} (hth : w.threadOf? th.ident = some th) (hidle : th.doing = none) :
    w.Deed { w with threads := w.threads.erase th.ident } := by
  have hself : (w.threads.erase th.ident).get? th.ident = none := Table.get?_erase_self _ _
  refine .change th.ident _ (by simp [hth])
    ⟨fun x hx => ?_, fun j hj _ => Table.get?_erase_of_ne _ hj, fun j _ ho => by cases ho⟩
    ⟨rfl, rfl, rfl⟩ (.inl ?_)
  · rw [threadOf?, hself] at hx
    cases hx
  · rw [callOf?, callOf?, hth, threadOf?, hself]
    simp [hidle]

theorem finish_deeds (hk : w.Keyed) (who : String) (panic : Option String) :
    ∃ n, n ≤ stepBound + 3 ∧ Deeds n w (w.finish who panic).1 := by
  have hclear : w.Deed { w with replies := [] } := .still w.now []
  have hk' := hclear.keyed hk
  simp only [finish]
  split
  · exact ⟨1, by omega, .one hclear⟩
  · rename_i th hname
    have hth := threadNamed?_ident hk' hname
    split
    · exact ⟨1, by omega, .one hclear⟩
    · rename_i hidle _
      exact ⟨2, by omega, .cons hclear (.one (erase_deed hth hidle))⟩
    · rename_i n hidle _
      let doing : Call × Purpose := (.wrapper n (.deregister (panic.map .raised)), .plain)
      have hdeed : World.Deed { w with replies := [] }
          (World.setThread { w with replies := [] } { th with doing := some doing }) :=
        setThread_deed hth hidle (.inr ⟨n, _, rfl⟩)
      obtain ⟨b, hb, hsettle⟩ := settle_deeds stepBound _ (some th.ident) (hdeed.keyed hk')
      exact ⟨b + 1 + 1, by omega, .cons hclear (.cons hdeed hsettle)⟩

end World

inductive Line
  | statement (name : String) (s : Statement)
  | ending (who : String) (panic : Option String)

def World.play (w : World) : Line → World
  | .statement name s => (w.perform name s).1
  | .ending who panic => (w.finish who panic).1

def run (interpreters : List Interpreter) (lines : List Line) : World :=
  lines.foldl World.play (start interpreters)

open World

theorem play_deeds (lines : List Line) (w : World) (hk : w.Keyed) :
    ∃ n, n ≤ lines.length * (stepBound + 3) ∧ Deeds n w (lines.foldl World.play w) := by
  induction lines generalizing w with
  | nil => exact ⟨0, by omega, .none w⟩
  | cons line rest ih =>
    have hline : ∃ n, n ≤ stepBound + 3 ∧ Deeds n w (w.play line) := by
      cases line with
      | statement name s => exact perform_deeds hk name s
      | ending who panic => exact finish_deeds hk who panic
    obtain ⟨a, ha, hfirst⟩ := hline
    obtain ⟨b, hb, hrest⟩ := ih _ (hfirst.keyed hk)
    refine ⟨a + b, ?_, hfirst.trans hrest⟩
    rw [List.length_cons, Nat.succ_mul]
    omega

theorem start_staffed (interpreters : List Interpreter) : (start interpreters).Staffed 1 := by
  let w : World := { now := epoch, interpreters }
  have hw : w.Staffed 0 := by
    refine ⟨?_, rfl, ?_, ?_, ?_⟩
    · intro i th h
      cases h
    · intro i h
      exact absurd rfl h
    · intro i j h
      cases h
    · intro i j j' h
      cases h
  exact hw.join (by decide) "main"

end Session

end InterpreterLock
