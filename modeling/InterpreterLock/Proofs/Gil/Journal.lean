import InterpreterLock.Proofs.Gil.Accounts
import InterpreterLock.Proofs.Gil.Handoff
import InterpreterLock.Proofs.Sums

/-!
# The accounts of a lock

What stands in the columns of a lock is the sum of what its calls have added, those that have ended
and those under way. So when no call is under way the counters count the calls by how they ended,
and the word is what the acquisitions are ahead of the releases.
-/

set_option autoImplicit false

namespace InterpreterLock.Gil

variable {t : Turn} {g : Gil} {inside : Bool}

def Op.leadsTo : Op → Call → Bool
  | .acquire, .acquire _ | .leave, .acquire _ => true
  | .release, .release _ | .enter, .release _ => true
  | .yield, .yield _ => true
  | _, _ => false

theorem Op.leadsTo_call {op : Op} (ho : op.isOrdinary = true) : op.leadsTo op.call = true := by
  cases op with
  | reinit => cases ho
  | store word => cases ho
  | _ => rfl

theorem Op.isOrdinary_of_leadsTo {op : Op} {c : Call} (h : op.leadsTo c = true) :
    op.isOrdinary = true := by
  cases op with
  | reinit => cases h
  | store word => cases h
  | _ => rfl

theorem Op.final_of_leadsTo {op : Op} {c : Call} (h : op.leadsTo c = true) :
    op.call.final = c.final := by
  cases op <;> cases c <;> first | rfl | cases h

theorem Op.leadsTo_of_next? (op : Op) {c c' : Call}
    (h : (c.step t g).progress.next? = some c') : op.leadsTo c' = op.leadsTo c := by
  cases c with
  | acquire a =>
    simp only [Call.step] at h
    cases hp : (a.step t g).progress <;> rw [hp] at h <;> cases h
    cases op <;> rfl
  | release r =>
    simp only [Call.step] at h
    cases hp : (r.step t g).progress <;> rw [hp] at h <;> cases h
    cases op <;> rfl
  | yield y =>
    simp only [Call.step] at h
    cases hp : (y.step t g).progress <;> rw [hp] at h <;> cases h
    cases op <;> rfl
  | reinit r =>
    simp only [Call.step] at h
    cases hp : (r.step t g).progress <;> rw [hp] at h <;> cases h
    cases op <;> rfl
  | store word => cases h

def Yield.byHolder (inside : Bool) : Yield → Bool
  | .checkHolder => inside
  | _ => true

/-- Only a yield of the holder gets past its check, and then a deadline alone unwinds it. -/
theorem Yield.step_byHolder (y : Yield) (hs : Shows g t.me (y.hold inside)) :
    (y.step t g).progress.Meets (fun y' => ∀ b, y'.byHolder b = y.byHolder inside)
      (fun _ => y.byHolder inside = true)
      (fun p => y.byHolder inside = decide (p = .clockOverflow)) := by
  cases y with
  | checkHolder =>
    have hm : g.isHeldBy t.me = inside := hs.isHeldBy
    cases inside with
    | true =>
      simp only [step, hm, if_true]
      exact fun _ => rfl
    | false =>
      simp only [step, hm]
      rfl
  | release before ticket r =>
    have ha := r.accords hs true
    rw [Release.panic?_inside] at ha
    simp only [step, Progress.meets_within]
    exact Progress.Meets.imp ha (fun _ _ _ => rfl) (fun _ _ _ => rfl) fun _ h => by cases h.1
  | acquire a =>
    have ha := a.accords hs false
    rw [Acquire.panic?_outside] at ha
    simp only [step, Progress.meets_within]
    exact Progress.Meets.imp ha (fun _ _ _ => rfl) (fun _ _ => rfl) fun _ h => by cases h.1
  | wait watch w =>
    simp only [step, Progress.meets_within]
    apply Parking.wait_meets
    · intro _ _
      rfl
    · intro _ _
      rfl
  | lookForWaiters =>
    simp only [step]
    split
    · rfl
    · exact fun _ => rfl
  | setDeadline before ticket =>
    simp only [step]
    split
    · exact fun _ => rfl
    · rfl
  | compareCount watch ticket =>
    simp only [step]
    split <;> exact fun _ => rfl
  | recountWaiters watch ticket =>
    simp only [step]
    split <;> exact fun _ => rfl
  | readClock watch ticket =>
    simp only [step]
    split <;> exact fun _ => rfl
  | _ => exact fun _ => rfl

def Action.beginner? : Action → Option Ident
  | .begin i _ => some i
  | _ => none

structure Begun where
  op : Op := .acquire
  holder : Bool := false

structure Ended where
  begun : Begun
  result : Except Panic Bool

namespace Ended

def sheet (e : Ended) : Sheet := e.begun.op.call.final e.result

def returns (op : Op) (e : Ended) : Bool := e.begun.op = op && e.result.isOk

def regains (e : Ended) : Bool :=
  match e.begun.op, e.result with
  | .yield, .ok true => true
  | _, _ => false

def surrenders (e : Ended) : Bool :=
  match e.begun.op, e.result with
  | .yield, .ok true | .yield, .error .clockOverflow => true
  | _, _ => false

def yields (e : Ended) : Bool := e.begun.op = .yield && e.begun.holder

end Ended

structure Journal where
  system : System
  begun : Ident → Begun := fun _ => {}
  ended : List Ended := []

namespace Journal

def start (mode : Mode) (backend : Backend) (patience : Duration) : Journal :=
  { system := .start mode backend patience }

def stepCall (j : Journal) (t : Turn) (c : Call) : Journal :=
  { j with
    system := j.system.stepCall t c
    ended :=
      match (c.step t j.system.gil).progress.result? with
      | none => j.ended
      | some r => ⟨j.begun t.me, r⟩ :: j.ended }

def act (j : Journal) (a : Action) : Journal :=
  match a with
  | .begin i op =>
    match j.system.calls i with
    | none =>
      { j with
        system := j.system.act (.begin i op)
        begun := Function.update j.begun i ⟨op, j.system.gil.isHeldBy i⟩ }
    | some _ => j
  | .step t =>
    match j.system.calls t.me with
    | none => j
    | some c => j.stepCall t c
  | .rouse i => { j with system := j.system.act (.rouse i) }

def run (j : Journal) (acts : List Action) : Journal := acts.foldl act j

theorem act_system (j : Journal) (a : Action) : (j.act a).system = j.system.act a := by
  cases a with
  | begin i op => cases hc : j.system.calls i <;> simp [act, System.act, hc]
  | step t => cases hc : j.system.calls t.me <;> simp [act, System.act, hc, stepCall]
  | rouse i => rfl

theorem run_system (j : Journal) (acts : List Action) :
    (j.run acts).system = j.system.run acts :=
  (List.foldl_hom Journal.system fun j a => (act_system j a).symm).symm

theorem calls_act_eq_none {j : Journal} {i : Ident} (a : Action) (ha : a.beginner? ≠ some i)
    (hi : j.system.calls i = none) : (j.act a).system.calls i = none := by
  rw [act_system]
  cases a with
  | begin k op =>
    have hki : i ≠ k := fun h => ha (congrArg some h.symm)
    cases hk : j.system.calls k with
    | none => simp [System.act, hk, hi, hki]
    | some c => simp [System.act, hk, hi]
  | step t =>
    cases hc : j.system.calls t.me with
    | none => simp [System.act, hc, hi]
    | some c =>
      have hti : i ≠ t.me := by
        rintro rfl
        rw [hi] at hc
        cases hc
      simp [System.act, hc, hi, hti]
  | rouse k => exact hi

/-- A thread that begins no call is in none. -/
theorem calls_run_eq_none {j : Journal} {i : Ident} (acts : List Action)
    (ha : i ∉ acts.filterMap Action.beginner?) (hi : j.system.calls i = none) :
    (j.run acts).system.calls i = none :=
  Run.spares (P := fun j => j.system.calls i = none) (fun _ a hj hb => calls_act_eq_none a hb hj)
    acts j hi ha

def part (j : Journal) (i : Ident) : Sheet := ((j.system.calls i).map Call.part).getD 0

noncomputable def sheet (j : Journal) : Sheet :=
  (j.ended.map Ended.sheet).sum + Ident.total j.part

end Journal

structure Begun.Fits (b : Begun) (inside : Bool) (c : Call) : Prop where
  leads : b.op.leadsTo c = true
  holder : ∀ y, c = .yield y → b.holder = y.byHolder inside

structure Ended.Sound (e : Ended) : Prop where
  ordinary : e.begun.op.isOrdinary = true
  holder : e.begun.op = .yield → ∀ p, e.result = .error p →
    e.begun.holder = decide (p = .clockOverflow)
  returned : e.begun.op = .yield → ∀ b, e.result = .ok b → e.begun.holder = true

namespace Journal

structure Kept (j : Journal) : Prop where
  orderly : j.system.Orderly
  begun : ∀ i c, j.system.calls i = some c → (j.begun i).Fits (j.system.inside i) c
  ended : ∀ e ∈ j.ended, e.Sound
  agrees : Agrees j.system.gil j.system.metrics j.sheet

theorem kept_start (mode : Mode) (backend : Backend) (patience : Duration) :
    (start mode backend patience).Kept where
  orderly := System.orderly_start mode backend patience
  begun i c h := by simp [start, System.start] at h
  ended e he := by simp [start] at he
  agrees := by
    have hp : Ident.total (start mode backend patience).part = 0 :=
      Ident.total_eq_zero fun _ => rfl
    have h : (start mode backend patience).sheet = 0 := by
      rw [sheet, hp]
      rfl
    rw [h]
    exact ⟨rfl, rfl, rfl, rfl, rfl⟩

variable {j : Journal} {c : Call}

theorem part_of_call {i : Ident} (hc : j.system.calls i = some c) : j.part i = c.part := by
  simp [part, hc]

theorem part_stepCall :
    (j.stepCall t c).part = Function.update j.part t.me
      (((c.step t j.system.gil).progress.next?.map Call.part).getD 0) := by
  ext1 i
  by_cases hi : i = t.me
  · subst hi
    simp [part, stepCall]
  · simp [part, stepCall, hi]

/-- All that has been added, when the call of a thread goes on. -/
theorem sheet_of_going (hc : j.system.calls t.me = some c) {c' : Call}
    (hp : (c.step t j.system.gil).progress = .going c') :
    (j.stepCall t c).sheet + c.part = j.sheet + c'.part := by
  have ht := Ident.total_update j.part t.me c'.part
  rw [part_of_call hc] at ht
  rw [sheet, sheet, part_stepCall, hp]
  simp only [stepCall, hp, Progress.result?, Progress.next?, Option.map_some, Option.getD_some]
  rw [add_assoc, ht, add_assoc]

/-- All that has been added, when the call of a thread ends. -/
theorem sheet_of_ended (hc : j.system.calls t.me = some c)
    (hb : (j.begun t.me).op.leadsTo c = true) {r : Except Panic Bool}
    (hr : (c.step t j.system.gil).progress.result? = some r)
    (hn : (c.step t j.system.gil).progress.next? = none) :
    (j.stepCall t c).sheet + c.part = j.sheet + c.final r := by
  have ht := Ident.total_update j.part t.me 0
  rw [part_of_call hc, add_zero] at ht
  have he : Ended.sheet ⟨j.begun t.me, r⟩ = c.final r := by
    rw [Ended.sheet, Op.final_of_leadsTo hb]
  rw [sheet, sheet, part_stepCall, hn]
  simp only [stepCall, hr, List.map_cons, List.sum_cons, he, Option.map_none, Option.getD_none]
  rw [add_assoc, ht]
  ac_rfl

theorem Kept.books (hj : j.Kept) (hc : j.system.calls t.me = some c) :
    Books j.system.gil c.part Call.part c.final (c.step t j.system.gil) := by
  have hs := hj.orderly.custody.shows t.me
  have hh := System.hold_of_call hc
  rw [hh] at hs
  refine c.books (hj.orderly.ordinary t.me c hc) hs fun hf => ?_
  have hsh := hj.orderly.shift hc
  rw [hf] at hsh
  rcases hj.orderly.custody.word with ⟨-, hout⟩ | ⟨hw, -⟩
  · exact absurd (hout t.me) hsh.held_of_frees
  · exact hw

theorem Turns.agrees {g g' : Gil} {n : Option Metrics.Record} {b e s s' : Sheet} {m : Metrics}
    (h : Turns g n g' b e) (hg : Agrees g m s) (hs : s' + b = s + e) :
    Agrees g' (m.recordOpt n) s' := by
  obtain ⟨d, hd, rfl⟩ := h
  have he : s' = s + d + noted n := by
    apply add_right_cancel (b := b)
    rw [hs]
    ac_rfl
  rw [he]
  exact (hg.moves hd).note n

theorem Kept.agrees_stepCall (hj : j.Kept) (hc : j.system.calls t.me = some c) :
    Agrees (j.stepCall t c).system.gil (j.stepCall t c).system.metrics (j.stepCall t c).sheet := by
  have hb := hj.books hc
  have hl := (hj.begun t.me c hc).leads
  cases hp : (c.step t j.system.gil).progress with
  | going c' =>
    rw [Books, hp] at hb
    exact Turns.agrees hb hj.agrees (sheet_of_going hc hp)
  | done a =>
    rw [Books, hp] at hb
    exact Turns.agrees hb hj.agrees (sheet_of_ended hc hl (by rw [hp]; rfl) (by rw [hp]; rfl))
  | unwound p =>
    rw [Books, hp] at hb
    exact Turns.agrees hb hj.agrees (sheet_of_ended hc hl (by rw [hp]; rfl) (by rw [hp]; rfl))

/-- A yield of the holder goes on as one, and unless it returns it overruns its deadline. -/
theorem Kept.byHolder (hj : j.Kept) {y : Yield} (hc : j.system.calls t.me = some (.yield y)) :
    (y.step t j.system.gil).progress.Meets
      (fun y' => ∀ b, y'.byHolder b = (j.begun t.me).holder)
      (fun _ => (j.begun t.me).holder = true)
      (fun p => (j.begun t.me).holder = decide (p = .clockOverflow)) := by
  have hs := hj.orderly.custody.shows t.me
  have hh : j.system.hold t.me = y.hold (j.system.inside t.me) := System.hold_of_call hc
  rw [hh] at hs
  rw [(hj.begun t.me _ hc).holder y rfl]
  exact y.step_byHolder hs

theorem Kept.begun_stepCall (hj : j.Kept) (hc : j.system.calls t.me = some c) (i : Ident)
    (c' : Call) (hi : (j.stepCall t c).system.calls i = some c') :
    ((j.stepCall t c).begun i).Fits ((j.stepCall t c).system.inside i) c' := by
  by_cases him : i = t.me
  · subst him
    have hn : (c.step t j.system.gil).progress.next? = some c' := by
      simpa [stepCall] using hi
    constructor
    · rw [Op.leadsTo_of_next? _ hn]
      exact (hj.begun t.me c hc).leads
    · rintro y rfl
      obtain ⟨y0, rfl, hp⟩ := Call.of_next?_yield hn
      have hy := hj.byHolder hc
      rw [hp] at hy
      exact (hy _).symm
  · have hi' : j.system.calls i = some c' := by
      simpa [stepCall, Function.update_of_ne him] using hi
    have hin : (j.stepCall t c).system.inside i = j.system.inside i := by
      simp [stepCall, Function.update_of_ne him]
    rw [hin]
    exact hj.begun i c' hi'

theorem Kept.sound_of_result? (hj : j.Kept) (hc : j.system.calls t.me = some c)
    {r : Except Panic Bool} (hr : (c.step t j.system.gil).progress.result? = some r) :
    Ended.Sound ⟨j.begun t.me, r⟩ := by
  have hl := (hj.begun t.me c hc).leads
  have hy : (j.begun t.me).op = .yield → ∃ y, c = .yield y ∧
      (y.step t j.system.gil).progress.result? = some r := by
    intro ho
    rw [ho] at hl
    cases c with
    | yield y =>
      simp only [Call.step] at hr
      refine ⟨y, rfl, ?_⟩
      cases hp : (y.step t j.system.gil).progress <;> rw [hp] at hr <;> exact hr
    | _ => cases hl
  constructor
  · exact Op.isOrdinary_of_leadsTo hl
  · rintro ho p rfl
    obtain ⟨y, rfl, hr'⟩ := hy ho
    have hb := hj.byHolder hc
    cases hp : (y.step t j.system.gil).progress <;> rw [hp] at hr' <;> cases hr'
    rw [hp] at hb
    exact hb
  · rintro ho b rfl
    obtain ⟨y, rfl, hr'⟩ := hy ho
    have hb := hj.byHolder hc
    cases hp : (y.step t j.system.gil).progress <;> rw [hp] at hr' <;> cases hr'
    rw [hp] at hb
    exact hb

theorem Kept.stepCall (hj : j.Kept) (hc : j.system.calls t.me = some c) :
    (j.stepCall t c).Kept where
  orderly := hj.orderly.stepCall hc
  begun := hj.begun_stepCall hc
  ended e he := by
    simp only [Journal.stepCall] at he
    cases hr : (c.step t j.system.gil).progress.result? with
    | none =>
      rw [hr] at he
      exact hj.ended e he
    | some r =>
      rw [hr] at he
      rcases List.mem_cons.mp he with rfl | he
      · exact hj.sound_of_result? hc hr
      · exact hj.ended e he
  agrees := hj.agrees_stepCall hc

theorem Kept.begin (hj : j.Kept) {i : Ident} {op : Op} (ho : op.isOrdinary = true)
    (hc : j.system.calls i = none) : (j.act (.begin i op)).Kept := by
  have ha : j.act (.begin i op) =
      { j with
        system := j.system.beginCall i op.call
        begun := Function.update j.begun i ⟨op, j.system.gil.isHeldBy i⟩ } := by
    simp [act, System.act, hc]
  rw [ha]
  refine ⟨hj.orderly.begin ho hc, ?_, hj.ended, ?_⟩
  · intro k c hk
    by_cases hki : k = i
    · subst hki
      have hcall : op.call = c := by simpa using hk
      subst hcall
      have hh : j.system.gil.isHeldBy k = j.system.inside k := by
        have hs := hj.orderly.custody.shows k
        rw [System.hold, hc] at hs
        exact hs.isHeldBy
      simp only [Function.update_self]
      refine ⟨Op.leadsTo_call ho, fun y hy => ?_⟩
      rcases Op.call_cases ho with h | h | h <;> rw [h] at hy <;> cases hy
      exact hh
    · have hk' : j.system.calls k = some c := by simpa [hki] using hk
      simp only [Function.update_of_ne hki]
      exact hj.begun k c hk'
  · -- A call that begins has added nothing.
    have hp : part { j with
        system := j.system.beginCall i op.call
        begun := Function.update j.begun i ⟨op, j.system.gil.isHeldBy i⟩ } = j.part := by
      ext1 k
      by_cases hki : k = i
      · subst hki
        have hop : op.call.part = 0 := by
          rcases Op.call_cases ho with h | h | h <;> rw [h] <;> rfl
        simp [part, hc, hop]
      · simp [part, hki]
    rw [sheet, hp]
    exact hj.agrees

theorem Kept.act (hj : j.Kept) (a : Action) (ha : a.isOrdinary = true) : (j.act a).Kept := by
  cases a with
  | begin i op =>
    cases hc : j.system.calls i with
    | none => exact hj.begin ha hc
    | some c =>
      simp only [Journal.act, hc]
      exact hj
  | step t =>
    cases hc : j.system.calls t.me with
    | none =>
      simp only [Journal.act, hc]
      exact hj
    | some c =>
      simp only [Journal.act, hc]
      exact hj.stepCall hc
  | rouse i =>
    obtain ⟨h1, h2, h3, h4, h5⟩ := hj.agrees
    exact ⟨hj.orderly.act (.rouse i) rfl, hj.begun, hj.ended, h1, h2, h3, h4, h5⟩

theorem kept_run (mode : Mode) (backend : Backend) (patience : Duration) (acts : List Action)
    (ha : ∀ a ∈ acts, a.isOrdinary = true) : ((start mode backend patience).run acts).Kept :=
  Run.always (P := Kept) (fun _ a hj ha => hj.act a ha) acts _
    (kept_start mode backend patience) ha

end Journal

def tally (l : List Ended) : Sheet
  | .acquisitions | .acquires =>
    l.countP (·.returns .acquire) + l.countP (·.regains) + l.countP (·.returns .leave)
  | .handoffs => l.countP (·.regains)
  | .yields => l.countP (·.yields)
  | .word =>
    l.countP (·.returns .acquire) + l.countP (·.regains) + l.countP (·.returns .leave) -
      (l.countP (·.returns .release) + l.countP (·.returns .enter) + l.countP (·.surrenders))

theorem Ended.Sound.sheet {e : Ended} (h : e.Sound) : e.sheet = tally [e] := by
  obtain ⟨⟨op, holder⟩, r⟩ := e
  ext k
  cases op with
  | reinit => cases h.ordinary
  | store word => cases h.ordinary
  | yield =>
    cases r with
    | ok b =>
      have hh : holder = true := h.returned rfl b rfl
      subst hh
      cases b <;> cases k <;> rfl
    | error p =>
      have hh : holder = decide (p = .clockOverflow) := h.holder rfl p rfl
      subst hh
      cases p <;> cases k <;> rfl
  | _ => cases r <;> cases k <;> rfl

theorem sum_sheet {l : List Ended} (h : ∀ e ∈ l, e.Sound) : (l.map Ended.sheet).sum = tally l := by
  induction l with
  | nil =>
    ext k
    cases k <;> rfl
  | cons e l ih =>
    have he := (h e (by simp)).sheet
    rw [List.map_cons, List.sum_cons, he, ih fun e' he' => h e' (by simp [he'])]
    ext k
    cases k <;> simp [tally, List.countP_cons] <;> omega

theorem ofInt_natCast (n : ℕ) : UInt64.ofInt n = UInt64.ofNat n := by
  induction n with
  | zero => rfl
  | succ n ih =>
    rw [Nat.cast_succ, UInt64.ofInt_add, ih, UInt64.ofNat_add]
    rfl

namespace Journal

def returned (j : Journal) (op : Op) : ℕ := j.ended.countP (·.returns op)

def regained (j : Journal) : ℕ := j.ended.countP (·.regains)

def surrendered (j : Journal) : ℕ := j.ended.countP (·.surrenders)

def acquired (j : Journal) : ℕ := j.returned .acquire + j.regained + j.returned .leave

def released (j : Journal) : ℕ := j.returned .release + j.returned .enter + j.surrendered

structure Accounted (j : Journal) : Prop where
  counted : j.system.gil.acquisitions =
    j.system.metrics.gil.fastAcquires + j.system.metrics.gil.slowAcquires
  acquired : j.system.gil.acquisitions = .ofNat j.acquired
  word : (j.acquired : ℤ) - j.released = j.system.gil.word
  bit : j.system.gil.word = 0 ∨ j.system.gil.word = 1
  handoffs : j.system.metrics.gil.handoffs + j.system.metrics.gil.handoffTimeouts =
    .ofNat j.regained
  yields : j.system.metrics.gil.yields = .ofNat (j.ended.countP (·.yields))

theorem Kept.accounted {j : Journal} (hj : j.Kept) (hq : ∀ i, j.system.calls i = none) :
    j.Accounted := by
  have hpart : Ident.total j.part = 0 := Ident.total_eq_zero fun i => by simp [part, hq i]
  have hs : j.sheet = tally j.ended := by rw [sheet, hpart, add_zero, sum_sheet hj.ended]
  have ha := hj.agrees
  rw [hs] at ha
  have hacq : (j.acquired : ℤ) = tally j.ended .acquisitions := by
    simp [acquired, returned, regained, tally]
  have hrel : (j.acquired : ℤ) - j.released = tally j.ended .word := by
    simp [acquired, released, returned, regained, surrendered, tally]
  constructor
  · exact ha.acquisitions.trans ha.acquires.symm
  · rw [ha.acquisitions, ← hacq, ofInt_natCast]
  · rw [ha.word, hrel]
  · exact hj.orderly.custody.word.imp And.left And.left
  · exact ha.handoffs.trans (ofInt_natCast _)
  · exact ha.yields.trans (ofInt_natCast _)

/-- Whenever no thread is in a call of the lock, the counters agree with the calls that have ended,
and the acquisitions exceed the releases by the word. -/
theorem accounts_run (mode : Mode) (backend : Backend) (patience : Duration) (acts : List Action)
    (ha : ∀ a ∈ acts, a.isOrdinary = true)
    (hq : ∀ i, ((start mode backend patience).run acts).system.calls i = none) :
    ((start mode backend patience).run acts).Accounted :=
  (kept_run mode backend patience acts ha).accounted hq

/-- A thread contends, the holder yields and gets the lock back, and then it leaves the lock for a
block. -/
theorem accounts_run_contended :
    let a : Ident := ⟨1, by decide⟩
    let b : Ident := ⟨2, by decide⟩
    let steps i n : List Action := List.replicate n (.step { me := i, now := ⟨0⟩ })
    let acts := .begin a .acquire :: steps a 5 ++ .begin b .acquire :: steps b 8 ++
      .begin a .yield :: steps a 10 ++ steps b 9 ++ .begin b .release :: steps b 5 ++ steps a 8 ++
      .begin a .enter :: steps a 5 ++ .begin a .leave :: steps a 5
    let j := (start .generic .posix defaultPatience).run acts
    (∀ act ∈ acts, act.isOrdinary = true) ∧ (∀ i, j.system.calls i = none) ∧ j.Accounted ∧
      j.regained = 1 ∧ j.acquired = 4 ∧ j.released = 3 := by
  intro a b steps acts
  have ho : ∀ act ∈ acts, act.isOrdinary = true := by decide
  have hq : ∀ i, ((start .generic .posix defaultPatience).run acts).system.calls i = none := by
    intro i
    by_cases hia : i = a
    · rw [hia]
      decide +kernel
    by_cases hib : i = b
    · rw [hib]
      decide +kernel
    have hb : acts.filterMap Action.beginner? = [a, b, a, b, a, a] := by decide
    have hi : i ∉ acts.filterMap Action.beginner? := by simp [hb, hia, hib]
    exact calls_run_eq_none acts hi rfl
  exact ⟨ho, hq, accounts_run _ _ _ _ ho hq, by decide +kernel, by decide +kernel,
    by decide +kernel⟩

end Journal

end InterpreterLock.Gil
