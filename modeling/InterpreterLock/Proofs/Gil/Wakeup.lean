import InterpreterLock.Proofs.Gil.Custody
import InterpreterLock.Proofs.Parking.Sound

/-!
# No sleeper of the interpreter lock is forgotten

Every step of a call is a step of parking, so what parking keeps holds in every run: while the word
is free and a thread sleeps for it, another one has freed the word and has still to look for
waiters or to signal, or is awake and about to try for the word.

A counting event tells a signal from none by a machine word, so one condition stays: no thread may
be sent as many signals as a machine word counts between two tickets of its own.
-/

set_option autoImplicit false

namespace InterpreterLock.Gil

open Parking (Parks Timely Watched Asleep Retries)

variable {t : Turn} {g : Gil}

theorem lot_of_free (hf : g.word = Mode.freeWord) : g.lot = ⟨true, g.waiters, g.wakeup⟩ := by
  simp [lot, hf]

theorem lot_of_not_free (hf : g.word ≠ Mode.freeWord) :
    g.lot = ⟨false, g.waiters, g.wakeup⟩ := by
  simp [lot, hf]

theorem Acquire.parks (a : Acquire) (hv : g.mode.isValid g.word = true) :
    Parks lot t.me g a.notice a.stance stance (a.step t g) := by
  cases a with
  | checkHolder =>
    apply Parks.ite
    · intro _
      exact .stay _ _
    · intro _
      exact .stay _ _
  | tryWord =>
    rcases tryLock_cases hv with ⟨hf, ht⟩ | ⟨hf, ht⟩
    · simp only [Parks, step, ht, Progress.Meets, lot_of_free hf]
      exact .barge _ _
    · simp only [Parks, step, ht, Progress.Meets]
      exact .stay _ _
  | readClock => exact .stay _ _
  | enlist start => exact .enlist _ _ _
  | prepare start => exact .prepare _
  | retry start ticket =>
    rcases tryLock_cases hv with ⟨hf, ht⟩ | ⟨hf, ht⟩
    · simp only [Parks, step, ht, Progress.Meets, lot_of_free hf]
      exact .win _ _ _
    · simp only [Parks, step, ht, Progress.Meets, lot_of_not_free hf]
      exact .lose _ _ _ _ (.inr rfl)
  | wait start w =>
    have hw := Parking.Step.ofWait t (g.word == Mode.freeWord) g.waiters g.wakeup w
    simp only [Parks, step, Progress.meets_within]
    exact hw.imp (fun _ h => h) (fun _ h => h.1) fun _ h => h.elim
  | unlist start => exact .unlist _ _ _
  | setHolder route => exact .stay _ _
  | count route => cases route <;> exact .stay _ _
  | announce start => exact .stay _ _
  | record route => cases route <;> exact .stay _ _

theorem Release.parks (r : Release) (hl : r = .clearWord → g.isLocked = true) :
    Parks lot t.me g r.notice r.stance stance (r.step t g) := by
  cases r with
  | checkHolder =>
    apply Parks.ite
    · intro _
      exact .stay _ _
    · intro _
      exact .stay _ _
  | clearHolder => exact .stay _ _
  | clearWord =>
    simp only [Parks, step, hl rfl, if_true, Progress.Meets]
    exact .free _ _ _
  | lookForWaiters =>
    by_cases hw : g.waiters = 0
    · simp only [Parks, step, hw, if_true, Progress.Meets, lot]
      exact .ignore _ _
    · simp only [Parks, step, hw, if_false, Progress.Meets]
      exact .stay _ _
  | signal => exact .signal _ _ _ _ _ (.inr rfl)

theorem Yield.parks (y : Yield) (hv : g.mode.isValid g.word = true)
    (hl : y.frees = true → g.isLocked = true) :
    Parks lot t.me g y.notice y.stance stance (y.step t g) := by
  cases y with
  | checkHolder =>
    apply Parks.ite
    · intro _
      exact .stay _ _
    · intro _
      exact .stay _ _
  | record => exact .stay _ _
  | lookForWaiters =>
    apply Parks.ite
    · intro _
      exact .stay _ _
    · intro _
      exact .stay _ _
  | readCount => exact .stay _ _
  | prepare before => exact .stay _ _
  | release before ticket r =>
    have hr := Release.parks (t := t) r fun h => hl (by rw [h]; rfl)
    exact hr.within (Yield.release before ticket) (fun _ => .going (.setDeadline before ticket))
      (fun _ => rfl) fun _ => rfl
  | setDeadline before ticket =>
    cases hd : t.now.add? g.patience with
    | none =>
      simp only [Parks, step, hd, Progress.Meets]
      exact .stay _ _
    | some deadline =>
      simp only [Parks, step, hd, Progress.Meets]
      exact .stay _ _
  | compareCount watch ticket =>
    apply Parks.ite
    · intro _
      exact .stay _ _
    · intro _
      exact .stay _ _
  | recountWaiters watch ticket =>
    apply Parks.ite
    · intro _
      exact .stay _ _
    · intro _
      exact .stay _ _
  | readClock watch ticket =>
    apply Parks.ite
    · intro _
      exact .stay _ _
    · intro _
      exact .stay _ _
  | wait watch w =>
    simp only [Parks, step, Progress.meets_within]
    apply Parking.wait_meets
    · intro _
      exact .stay _ _
    · intro _
      exact .stay _ _
  | renew watch => exact .stay _ _
  | recordHandoff completed => exact .stay _ _
  | acquire a =>
    exact (Acquire.parks (t := t) a hv).within Yield.acquire (fun _ => .done true) (fun _ => rfl)
      fun _ => trivial

theorem Call.parks (c : Call) (ho : c.isOrdinary = true) (hv : g.mode.isValid g.word = true)
    (hl : c.frees = true → g.isLocked = true) :
    Parks lot t.me g c.notice c.stance stance (c.step t g) := by
  cases c with
  | acquire a =>
    exact (Acquire.parks (t := t) a hv).within Call.acquire (fun _ => .done true) (fun _ => rfl)
      fun _ => trivial
  | release r =>
    have hr := Release.parks (t := t) r fun h => hl (by rw [h]; rfl)
    exact hr.within Call.release (fun _ => .done false) (fun _ => rfl) fun _ => trivial
  | yield y =>
    exact (Yield.parks (t := t) y hv hl).within Call.yield .done (fun _ => rfl) fun _ => trivial
  | reinit r => cases ho
  | store word => cases ho

theorem Shift.held_of_frees {me : Ident} {g' : Gil} {takes : Bool} {h h' : Hold}
    (hs : Shift me g g' takes true h h') : h ≠ .out := by
  cases hs
  nofun

theorem Op.stance_call {op : Op} (ho : op.isOrdinary = true) : op.call.stance = .apart := by
  rcases Op.call_cases ho with h | h | h <;> rw [h] <;> rfl

namespace System

variable {s : System} {c : Call}

theorem Orderly.parking (hs : s.Orderly) (hc : s.calls t.me = some c) :
    Parking.Step t.me c.notice s.gil.lot (s.stance t.me) (s.stepCall t c).gil.lot
      (((c.step t s.gil).progress.next?.map Call.stance).getD .apart) := by
  have hsh := hs.custody.shows t.me
  have hl : c.frees = true → s.gil.isLocked = true := by
    intro hf
    have hshift := hs.shift hc
    rw [hf] at hshift
    exact hsh.locked hshift.held_of_frees
  have ha : s.stance t.me = c.stance := by simp [stance, Parking.standing, hc]
  rw [ha]
  exact (c.parks (t := t) (hs.ordinary t.me c hc) hsh.valid hl).step

structure Guarded (backend : Backend) (s : System) : Prop where
  orderly : s.Orderly
  watched : Watched backend s.gil.lot s.stance s.missed

theorem guarded_start (mode : Mode) (backend : Backend) (patience : Duration) :
    Guarded backend (start mode backend patience) where
  orderly := orderly_start mode backend patience
  watched := Parking.watched_new backend true fun _ => 0

theorem Guarded.act {backend : Backend} (hs : s.Guarded backend) (a : Action)
    (ha : a.isOrdinary = true) (hm : backend = .posix → Timely (s.act a).missed) :
    (s.act a).Guarded backend := by
  refine ⟨hs.orderly.act a ha, ?_⟩
  cases a with
  | begin i op =>
    cases hc : s.calls i with
    | none =>
      have hb : (s.beginCall i op.call).stance = s.stance :=
        Parking.standing_begin Call.stance s.calls i op.call hc (Op.stance_call ha)
      simp only [System.act, hc]
      rw [hb]
      exact hs.watched
    | some c =>
      simp only [System.act, hc]
      exact hs.watched
  | step t =>
    cases hc : s.calls t.me with
    | none =>
      simp only [System.act, hc]
      exact hs.watched
    | some c =>
      have hb : (s.stepCall t c).stance = Function.update s.stance t.me _ :=
        Parking.standing_update Call.stance s.calls t.me _
      simp only [System.act, hc] at hm ⊢
      rw [hb]
      exact hs.watched.step (hs.orderly.parking hc) rfl hm
  | rouse i => exact hs.watched.rouse i

/-- While the word is free, a sleeper has another thread that has still to look for waiters and to
signal, or that is awake and has still to try for the word. -/
def Attentive (s : System) : Prop :=
  s.gil.word = 0 → ∀ i, Asleep s.gil.wakeup s.stance i →
    ∃ j, j ≠ i ∧ (s.stance j = .releasing ∨ Retries s.gil.wakeup s.stance j)

theorem gil_attentive_of_timely (mode : Mode) (backend : Backend) (patience : Duration)
    (acts : List Action) (ha : ∀ a ∈ acts, a.isOrdinary = true)
    (hm : backend = .posix →
      ∀ early, early <+: acts → Timely ((start mode backend patience).run early).missed) :
    ((start mode backend patience).run acts).Attentive := by
  have hs : Guarded backend ((start mode backend patience).run acts) :=
    Run.keeps (Q := fun s => backend = .posix → Timely s.missed)
      (fun s a hs ha hm => hs.act a ha hm) acts _ (guarded_start mode backend patience) ha
      fun early he hb => hm hb early he
  intro hw i hi
  exact hs.watched.sound.attends (beq_iff_eq.mpr hw) hi

theorem missed_act_le (s : System) (a : Action) (i : Ident) :
    (s.act a).missed i ≤ s.missed i + 1 := by
  cases a with
  | begin j op => cases hc : s.calls j <;> simp [act, hc, beginCall]
  | rouse j => exact Nat.le_succ _
  | step t =>
    cases hc : s.calls t.me with
    | none => simp [act, hc]
    | some c =>
      simp only [act, hc, stepCall_missed]
      exact c.notice.missed_le t.me s.stance s.missed i

/-- No shorter run than a machine word counts comes to a state that is not timely. -/
theorem timely_of_length (mode : Mode) (backend : Backend) (patience : Duration)
    (acts : List Action) (h : acts.length < 2 ^ 64) :
    Timely ((start mode backend patience).run acts).missed := by
  intro i
  have hle : ((start mode backend patience).run acts).missed i ≤ _ :=
    Run.grows (f := fun s : System => s.missed i) (fun s a => missed_act_le s a i) acts _
  have h0 : (start mode backend patience).missed i = 0 := rfl
  simp only [h0] at hle
  omega

/-- The holder has freed the word for which another thread sleeps. -/
theorem gil_attentive_released :
    let a : Ident := ⟨1, by decide⟩
    let b : Ident := ⟨2, by decide⟩
    let turn i : Action := .step { me := i, now := ⟨0⟩ }
    let acts := .begin a .acquire :: List.replicate 5 (turn a) ++
      .begin b .acquire :: List.replicate 8 (turn b) ++
      .begin a .release :: List.replicate 3 (turn a)
    let s := (start .generic .posix defaultPatience).run acts
    (∀ act ∈ acts, act.isOrdinary = true) ∧ s.gil.word = 0 ∧ Asleep s.gil.wakeup s.stance b ∧
      s.Attentive := by
  intro a b turn acts s
  refine ⟨by decide, by decide, ⟨⟨⟨0, 0⟩, by decide⟩, by decide⟩, ?_⟩
  apply gil_attentive_of_timely .generic .posix defaultPatience acts (by decide)
  intro _ early he
  apply timely_of_length
  have hl := he.length_le
  have hacts : acts.length = 19 := rfl
  omega

end System

end InterpreterLock.Gil
