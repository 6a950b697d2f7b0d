import InterpreterLock.Proofs.Bootstrap.Conservation
import InterpreterLock.Proofs.Gil.Exclusion
import InterpreterLock.Proofs.Interpreter.Custody

/-!
# The lock among threads that come and go

A bootstrap knows its threads by number and the lock knows them by ident. Where no two threads have
one ident, the calls of all of them are those of threads at the lock, and the lock is in order as
long as nobody forks. Only a thread in a call takes the lock or gives it back, so what a thread has
of it when it is in no call is still there when it is next looked at.
-/

set_option autoImplicit false

namespace InterpreterLock

namespace Interpreter

namespace Call

def isForking : Call → Bool
  | .reinit _ | .announceFork | .forgetThreads => true
  | _ => false

variable {t : Turn} {s : Interpreter} {c : Call}

theorem onGil_notForking {σ α : Type} (m : Move Gil σ α) {inside : σ → Call}
    {after : α → Progress Call Bool} {cutOff : Panic → Progress Call Bool} {next : Call}
    (hinside : ∀ x, (inside x).isForking = false)
    (hafter : ∀ a c, (after a).next? = some c → c.isForking = false)
    (hcut : ∀ p c, (cutOff p).next? = some c → c.isForking = false)
    (h : (onGil s m inside after cutOff).2.next? = some next) : next.isForking = false := by
  obtain ⟨state, progress, note⟩ := m
  cases progress with
  | going x =>
    cases h
    exact hinside x
  | done a => exact hafter a next h
  | unwound p => exact hcut p next h

theorem step_notForking {next : Call} (hc : c.isForking = false)
    (h : (c.step t s).2.next? = some next) : next.isForking = false := by
  have report : ∀ (e : Except Panic Bool) c,
      (Progress.going (Call.report e) : Progress Call Bool).next? = some c →
      c.isForking = false := by
    rintro e c ⟨⟩
    rfl
  have ended : ∀ b c, (Progress.done b : Progress Call Bool).next? = some c →
      c.isForking = false := fun _ _ => nofun
  have cut : ∀ p c, (Progress.unwound p : Progress Call Bool).next? = some c →
      c.isForking = false := fun _ _ => nofun
  cases c with
  | acquire a => exact onGil_notForking _ (fun _ => rfl) (fun _ => report _) cut h
  | release r => exact onGil_notForking _ (fun _ => rfl) (fun _ => ended _) cut h
  | yield y =>
    refine onGil_notForking _ (fun _ => rfl) (fun ran c hn => ?_) cut h
    cases ran with
    | true => exact report _ c hn
    | false => exact ended _ c hn
  | enter r => exact onGil_notForking _ (fun _ => rfl) (fun _ => ended _) (fun _ => report _) h
  | leave a => exact onGil_notForking _ (fun _ => rfl) (fun _ => report _) (fun _ => report _) h
  | report e => cases e <;> cases h
  | beforeFork => cases h
  | reinit r => cases hc
  | announceFork => cases hc
  | forgetThreads => cases hc

theorem forgets_of_notForking (hc : c.isForking = false) : c.forgets = false := by
  cases c <;> first | rfl | cases hc

end Call

/-- The lock is in order whatever else there is beside it. -/
theorem System.Settled.congr {l l' : System} (hl : l.Settled)
    (hgil : l'.interpreter.gil = l.interpreter.gil) (hcalls : l'.calls = l.calls)
    (hgone : l'.gone = l.gone) (hinside : l'.inside = l.inside) : l'.Settled := by
  constructor
  · refine hl.lock.congr hgil ?_ hinside
    simp only [atLock, hcalls, hgone]
  · rw [hcalls, hgone]
    exact hl.calm

end Interpreter

namespace Bootstrap

def Next.isOrdinary : Next → Bool
  | .call .afterFork | .hook _ | .reset => false
  | _ => true

def Action.isOrdinary : Action → Bool
  | .thread _ next => next.isOrdinary
  | _ => true

def Activity.call? : Activity → Option Interpreter.Call
  | .call c => some c
  | _ => none

/-- Of a change that starts no thread whatever is to hold of the thread that it starts holds. -/
theorem Change.starts_none {ch : Change} {P : Worker → Prop} (h : ch.started = none) :
    ∀ v, ch.started = some v → P v := by
  intro v hv
  rw [h] at hv
  cases hv

structure Change.Apart (s : System) (w : Worker) (ch : Change) : Prop where
  gil : ch.interpreter.gil = s.interpreter.gil
  collector : ch.interpreter.bootstrap.collector = s.interpreter.bootstrap.collector
  ident : ch.worker.ident = w.ident
  registered : ch.worker.stage.registered = w.stage.registered
  before : w.doing.call? = none
  after : ch.worker.doing.call? = none
  started : ∀ v, ch.started = some v → v.doing = .idle ∧ v.stage.registered = 0
  mark : ch.mark ≠ .reset

inductive Ordinary (s : System) (w : Worker) : Change → Prop
  | begin (op : Interpreter.Op) (hop : op ≠ .afterFork) (hd : w.doing = .idle) :
    Ordinary s w (s.doing w (.call op.call))
  | call (t : Turn) (c : Interpreter.Call) (ht : t.me = w.ident) (hd : w.doing = .call c) :
    Ordinary s w (s.stepCall w t c)
  | wrapper (era : ℕ) (c : Wrapper) (hs : w.stage = .wrapper era c) (hc : c ≠ .entry) :
    Ordinary s w (s.stepWrapper w era c)
  | apart (ch : Change) (h : ch.Apart s w) : Ordinary s w ch

section

variable {s : System} {w : Worker} {ch : Change}

theorem Spawns.apart {host : Host} {name : Option String} {c : Spawn} {r : Course}
    (hd : w.doing = .spawn name c r) (h : Spawns s w host name c r ch) : ch.Apart s w := by
  have hbefore : w.doing.call? = none := by
    rw [hd]
    rfl
  cases h with
  | launch i _ hn he =>
    refine ⟨rfl, rfl, rfl, rfl, hbefore, rfl, fun v hv => ?_, fun hm => nomatch hm⟩
    cases hv
    exact ⟨rfl, rfl⟩
  | _ => exact ⟨rfl, rfl, rfl, rfl, hbefore, rfl, Change.starts_none rfl, fun hm => nomatch hm⟩

theorem ordinary_of_own? {next : Next} (hnext : next.isOrdinary = true)
    (h : s.own? w next = some ch) : Ordinary s w ch := by
  have idle (hd : w.doing = .idle) : w.doing.call? = none := by
    rw [hd]
    rfl
  unfold System.own? at h
  split at h
  case h_1 op hd =>
    cases h
    exact .begin op (by rintro rfl; cases hnext) hd
  case h_2 name hd =>
    cases h
    exact .apart _ ⟨rfl, rfl, rfl, rfl, idle hd, rfl, Change.starts_none rfl,
      fun hm => nomatch hm⟩
  case h_3 => cases hnext
  case h_4 size hd =>
    cases h
    exact .apart _ ⟨rfl, resized_collector _ size, rfl, rfl, idle hd, idle hd,
      Change.starts_none rfl, fun hm => nomatch hm⟩
  case h_5 => cases hnext
  case h_6 c _ now pick hd =>
    cases h
    exact .call _ c rfl hd
  case h_7 name c r host _ _ hd =>
    cases h
    exact .apart _ (Spawns.apart hd (spawns_stepSpawn s w host name c r))
  case h_8 => cases h

theorem ordinary_of_change? {next : Next} (hnext : next.isOrdinary = true)
    (h : s.change? w next = some ch) : Ordinary s w ch := by
  unfold System.change? at h
  split at h
  case h_1 => cases h
  case h_2 => exact ordinary_of_own? hnext h
  case h_3 era ending hs =>
    split at h
    · rename_i hd
      cases h
      have hnone : w.doing.call? = none := by
        rw [hd]
        rfl
      refine .apart _ ⟨rfl, rfl, rfl, ?_, hnone, hnone, Change.starts_none rfl,
        fun hm => nomatch hm⟩
      rw [hs]
      rfl
    · cases h
  case h_4 => exact ordinary_of_own? hnext h
  case h_5 era c _ _ _ hc hs =>
    cases h
    exact .wrapper era c hs hc
  case h_6 => cases h

end

namespace System

def Distinct (s : System) : Prop := (s.workers.map Worker.ident).Nodup

instance (s : System) : Decidable s.Distinct :=
  inferInstanceAs (Decidable (s.workers.map Worker.ident).Nodup)

def ofIdent {α : Type} (f : Worker → α) (absent : α) (s : System) (i : Ident) : α :=
  ((s.workers.find? fun w => w.ident = i).map f).getD absent

variable {s s' : System} {w v : Worker} {ch : Change} {n : ℕ} {i : Ident}

section

variable {α : Type} {f : Worker → α} {absent : α}

theorem ofIdent_absent (h : ∀ w ∈ s.workers, w.ident ≠ i) : s.ofIdent f absent i = absent := by
  have hnone : (s.workers.find? fun w => w.ident = i) = none := by
    rw [List.find?_eq_none]
    intro w hw
    simpa using h w hw
  rw [ofIdent, hnone]
  rfl

theorem Distinct.ofIdent_eq (hd : s.Distinct) (hw : w ∈ s.workers) :
    s.ofIdent f absent w.ident = f w := by
  cases hfound : s.workers.find? fun v => v.ident = w.ident with
  | none =>
    have hne := List.find?_eq_none.mp hfound w hw
    simp at hne
  | some v =>
    have hv : v.ident = w.ident := by simpa using List.find?_some hfound
    have hvw : v = w :=
      List.inj_on_of_nodup_map hd (List.mem_of_find?_eq_some hfound) hw hv
    rw [ofIdent, hfound, hvw]
    rfl

theorem idents_commit (hn : s.workers[n]? = some w) (hi : ch.worker.ident = w.ident) :
    (s.commit n ch).workers.map Worker.ident =
      s.workers.map Worker.ident ++ ch.started.toList.map Worker.ident := by
  obtain ⟨hlt, hget⟩ := List.getElem?_eq_some_iff.mp hn
  have hsame : (s.workers.set n ch.worker).map Worker.ident = s.workers.map Worker.ident := by
    rw [List.map_set, hi, ← hget]
    have hlen : n < (s.workers.map Worker.ident).length := by simpa using hlt
    simpa using List.set_getElem_self hlen
  rw [commit, List.map_append, hsame]

theorem Distinct.of_commit (hd : (s.commit n ch).Distinct) (hn : s.workers[n]? = some w)
    (hi : ch.worker.ident = w.ident) : s.Distinct := by
  rw [Distinct, idents_commit hn hi] at hd
  exact (List.nodup_append.mp hd).1

theorem Distinct.of_act (hd : s'.Distinct) (h : Acts s s') : s.Distinct := by
  cases h with
  | still => exact hd
  | rouse i => exact hd
  | arrive i =>
    rw [Distinct, List.map_append] at hd
    exact (List.nodup_append.mp hd).1
  | change n w ch hn h => exact hd.of_commit hn h.ident

/-- Only the thread that acts has anything else than before. -/
theorem Distinct.ofIdent_commit (hd : (s.commit n ch).Distinct) (hn : s.workers[n]? = some w)
    (hi : ch.worker.ident = w.ident) (hnew : ∀ v, ch.started = some v → f v = absent) :
    (s.commit n ch).ofIdent f absent =
      Function.update (s.ofIdent f absent) w.ident (f ch.worker) := by
  have hbefore := hd.of_commit hn hi
  have hself : ch.worker ∈ (s.commit n ch).workers :=
    List.mem_of_getElem? (commit_workers_self hn)
  ext1 j
  by_cases hj : j = w.ident
  · rw [hj, Function.update_self, ← hi]
    exact hd.ofIdent_eq hself
  · rw [Function.update_of_ne hj]
    by_cases hold : ∃ v ∈ s.workers, v.ident = j
    · obtain ⟨v, hv, rfl⟩ := hold
      obtain ⟨m, hm⟩ := List.getElem?_of_mem hv
      have hmn : m ≠ n := by
        rintro rfl
        rw [hn, Option.some_inj] at hm
        exact hj (congrArg Worker.ident hm.symm)
      rw [hbefore.ofIdent_eq hv]
      exact hd.ofIdent_eq (List.mem_of_getElem? (commit_workers_of_ne hmn hm))
    · rw [ofIdent_absent (s := s) fun v hv he => hold ⟨v, hv, he⟩]
      by_cases hthere : ∃ v ∈ (s.commit n ch).workers, v.ident = j
      · obtain ⟨v, hv, rfl⟩ := hthere
        rw [hd.ofIdent_eq hv]
        obtain ⟨m, hm⟩ := List.getElem?_of_mem hv
        rcases commit_workers_cases hn hm with ⟨-, rfl⟩ | ⟨-, hm⟩ | ⟨-, hst⟩
        · exact absurd hi hj
        · exact absurd ⟨v, List.mem_of_getElem? hm, rfl⟩ hold
        · exact hnew v hst
      · exact ofIdent_absent fun v hv he => hthere ⟨v, hv, he⟩

/-- What the thread that acts has kept, all threads have kept. -/
theorem Distinct.ofIdent_kept (hd : (s.commit n ch).Distinct) (hn : s.workers[n]? = some w)
    (hi : ch.worker.ident = w.ident) (hf : f ch.worker = f w)
    (hnew : ∀ v, ch.started = some v → f v = absent) :
    (s.commit n ch).ofIdent f absent = s.ofIdent f absent := by
  have hsame : s.ofIdent f absent w.ident = f w :=
    (hd.of_commit hn hi).ofIdent_eq (List.mem_of_getElem? hn)
  rw [hd.ofIdent_commit hn hi hnew, hf, ← hsame, Function.update_eq_self]

theorem ofIdent_arrive (h : f { ident := i } = absent) :
    ofIdent f absent { s with workers := s.workers ++ [{ ident := i }] } =
      s.ofIdent f absent := by
  ext1 j
  simp only [ofIdent, List.find?_append]
  cases s.workers.find? fun w => w.ident = j with
  | some v => rfl
  | none =>
    by_cases hj : i = j
    · simp [hj, ← h]
    · simp [hj]

end

def callOf (s : System) : Ident → Option Interpreter.Call :=
  s.ofIdent (fun w => w.doing.call?) none

def atLock (s : System) (inside : Ident → Bool) : Interpreter.System where
  interpreter := s.interpreter
  calls := s.callOf
  inside := inside

structure Lawful (s : System) (inside : Ident → Bool) : Prop where
  settled : (s.atLock inside).Settled
  calm : ∀ w ∈ s.workers, ∀ c, w.doing = .call c → c.isForking = false
  known : ∀ i, inside i = true → ∃ w ∈ s.workers, w.ident = i
  resets : s.ledger.resets = 0

variable {inside : Ident → Bool}

theorem resets_enter {l : Ledger} {live : ℕ} {mark : Mark} (hm : mark ≠ .reset) :
    (l.enter live mark).resets = l.resets := by
  cases mark with
  | reset => exact absurd rfl hm
  | returned era => exact l.takeBack_resets live era
  | dropped era => exact l.takeBack_resets live era
  | _ => rfl

theorem Distinct.callOf_eq (hd : s.Distinct) (hw : w ∈ s.workers) :
    s.callOf w.ident = w.doing.call? :=
  hd.ofIdent_eq hw

theorem mem_commit (hn : s.workers[n]? = some w) (hv : v ∈ (s.commit n ch).workers) :
    v = ch.worker ∨ v ∈ s.workers ∨ ch.started = some v := by
  obtain ⟨m, hm⟩ := List.getElem?_of_mem hv
  rcases commit_workers_cases hn hm with ⟨-, h⟩ | ⟨-, h⟩ | ⟨-, h⟩
  · exact .inl h
  · exact .inr (.inl (List.mem_of_getElem? h))
  · exact .inr (.inr h)

/-- The parts of being lawful that do not concern the lock. -/
theorem Lawful.commit {inside' : Ident → Bool} (hs : s.Lawful inside)
    (hn : s.workers[n]? = some w) (hi : ch.worker.ident = w.ident)
    (hset : ((s.commit n ch).atLock inside').Settled)
    (hinside : ∀ j, inside' j = true → inside j = true ∨ j = w.ident)
    (hcalm : ∀ c, ch.worker.doing = .call c → c.isForking = false)
    (hnew : ∀ v, ch.started = some v → v.doing = .idle) (hmark : ch.mark ≠ .reset) :
    (s.commit n ch).Lawful inside' := by
  refine ⟨hset, fun v hv c hc => ?_, fun j hj => ?_, ?_⟩
  · rcases mem_commit hn hv with rfl | hv | hv
    · exact hcalm c hc
    · exact hs.calm v hv c hc
    · rw [hnew v hv] at hc
      cases hc
  · have hself : ch.worker ∈ (s.commit n ch).workers :=
      List.mem_of_getElem? (commit_workers_self hn)
    rcases hinside j hj with hj | rfl
    · obtain ⟨v, hv, rfl⟩ := hs.known j hj
      obtain ⟨m, hm⟩ := List.getElem?_of_mem hv
      by_cases hmn : m = n
      · subst hmn
        rw [hn, Option.some_inj] at hm
        exact ⟨_, hself, hi.trans (congrArg Worker.ident hm)⟩
      · exact ⟨v, List.mem_of_getElem? (commit_workers_of_ne hmn hm), rfl⟩
    · exact ⟨_, hself, hi⟩
  · exact (resets_enter hmark).trans hs.resets

theorem Lawful.apart (hs : s.Lawful inside) (hd : (s.commit n ch).Distinct)
    (hn : s.workers[n]? = some w) (hgil : ch.interpreter.gil = s.interpreter.gil)
    (hi : ch.worker.ident = w.ident) (hbefore : w.doing.call? = none)
    (hafter : ch.worker.doing.call? = none) (hnew : ∀ v, ch.started = some v → v.doing = .idle)
    (hmark : ch.mark ≠ .reset) : (s.commit n ch).Lawful inside := by
  have hcalls : (s.commit n ch).callOf = s.callOf := by
    apply hd.ofIdent_kept hn hi (hafter.trans hbefore.symm)
    intro v hv
    rw [hnew v hv]
    rfl
  refine hs.commit hn hi (hs.settled.congr hgil hcalls rfl rfl) (fun j hj => .inl hj) ?_ hnew hmark
  intro c hc
  rw [hc] at hafter
  cases hafter

theorem Lawful.begin (hs : s.Lawful inside) {op : Interpreter.Op} (hop : op ≠ .afterFork)
    (hd : (s.commit n (s.doing w (.call op.call))).Distinct) (hn : s.workers[n]? = some w)
    (hidle : w.doing = .idle) : (s.commit n (s.doing w (.call op.call))).Lawful inside := by
  have hcalls : (s.commit n (s.doing w (.call op.call))).callOf =
      Function.update s.callOf w.ident (some op.call) :=
    hd.ofIdent_commit hn rfl (Change.starts_none rfl)
  have hnone : s.callOf w.ident = none := by
    rw [(hd.of_commit hn rfl).callOf_eq (List.mem_of_getElem? hn), hidle]
    rfl
  have hset : ((s.atLock inside).beginCall w.ident op.call).Settled := by
    apply hs.settled.begin _ hop
    exact Interpreter.System.isIdle_iff.mpr ⟨rfl, hnone⟩
  refine hs.commit hn rfl (hset.congr rfl hcalls rfl rfl) (fun j hj => .inl hj) ?_
    (Change.starts_none rfl) fun hm => nomatch hm
  rintro c ⟨⟩
  cases op <;> first | rfl | exact absurd rfl hop

/-- What the thread in the call has of the lock, and nobody else, may be different after a step. -/
theorem Lawful.step (hs : s.Lawful inside) {t : Turn} {c : Interpreter.Call}
    (hd : (s.commit n (s.stepCall w t c)).Distinct) (hn : s.workers[n]? = some w)
    (ht : t.me = w.ident) (hc : w.doing = .call c) :
    ∃ b, (s.commit n (s.stepCall w t c)).Lawful (Function.update inside w.ident b) := by
  have hmem := List.mem_of_getElem? hn
  have hcalm := hs.calm w hmem c hc
  have hcall : s.callOf t.me = some c := by
    rw [ht, (hd.of_commit hn rfl).callOf_eq hmem, hc]
    rfl
  have hset := hs.settled.stepCall (t := t) hcall rfl
  have hafter : (s.stepCall w t c).worker.doing.call? = (c.step t s.interpreter).2.next? := by
    simp only [System.stepCall, still]
    cases (c.step t s.interpreter).2.next? <;> rfl
  have hcalls : (s.commit n (s.stepCall w t c)).callOf =
      Function.update s.callOf t.me (c.step t s.interpreter).2.next? := by
    rw [ht, ← hafter]
    exact hd.ofIdent_commit hn rfl (Change.starts_none rfl)
  have hmark : (s.stepCall w t c).mark ≠ .reset := by
    simp [System.stepCall, Interpreter.Call.forgets_of_notForking hcalm]
  refine ⟨c.obtains s.interpreter.gil || inside w.ident && !c.frees,
    hs.commit hn rfl (hset.congr rfl hcalls rfl ?_) (fun j hj => ?_) (fun c' hc' => ?_)
      (Change.starts_none rfl) hmark⟩
  · rw [← ht]
    rfl
  · by_cases hjw : j = w.ident
    · exact .inr hjw
    · rw [Function.update_of_ne hjw] at hj
      exact .inl hj
  · refine Interpreter.Call.step_notForking hcalm (t := t) (s := s.interpreter) ?_
    rw [← hafter, hc']
    rfl

/-- Whoever is in no call has as much of the lock after an ordinary action as before it. -/
theorem Lawful.act (hs : s.Lawful inside) (he : s.Entered) {a : Action}
    (ha : a.isOrdinary = true) (hd : (s.act a).Distinct) :
    ∃ inside', (s.act a).Lawful inside' ∧
      ∀ v ∈ s.workers, v.doing.call? = none → inside' v.ident = inside v.ident := by
  cases a with
  | arrive i =>
    refine ⟨inside, ⟨?_, fun v hv c hc => ?_, fun j hj => ?_, hs.resets⟩, fun _ _ _ => rfl⟩
    · exact hs.settled.congr rfl (ofIdent_arrive rfl) rfl rfl
    · rcases List.mem_append.mp hv with hv | hv
      · exact hs.calm v hv c hc
      · rw [List.mem_singleton.mp hv] at hc
        cases hc
    · obtain ⟨v, hv, hvj⟩ := hs.known j hj
      exact ⟨v, List.mem_append_left _ hv, hvj⟩
  | rouse i =>
    refine ⟨inside, ⟨?_, hs.calm, hs.known, hs.resets⟩, fun _ _ _ => rfl⟩
    exact (hs.settled.rouse (i := i)).congr rfl rfl rfl rfl
  | thread n next =>
    rcases s.act_thread n next with h | ⟨w, ch, hn, hch, h⟩ <;> rw [h] at hd ⊢
    · exact ⟨inside, hs, fun _ _ _ => rfl⟩
    · cases ordinary_of_change? ha hch with
      | begin op hop hidle => exact ⟨inside, hs.begin hop hd hn hidle, fun _ _ _ => rfl⟩
      | call t c ht hc =>
        obtain ⟨b, hlawful⟩ := hs.step hd hn ht hc
        refine ⟨_, hlawful, fun v hv hnone => Function.update_of_ne (fun he => ?_) _ _⟩
        have hvw : v = w :=
          List.inj_on_of_nodup_map (hd.of_commit hn rfl) hv (List.mem_of_getElem? hn) he
        rw [hvw, hc] at hnone
        cases hnone
      | wrapper era c hstage hne =>
        -- outside of its entry the thread is in no call
        have hidle : w.doing = .idle := by
          by_contra hbusy
          have hopen := he n w hn hbusy
          rw [hstage] at hopen
          cases c with
          | entry => exact hne rfl
          | _ => cases hopen
        have hnone : w.doing.call? = none := by
          rw [hidle]
          rfl
        have hmark : (s.stepWrapper w era c).mark ≠ .reset := by
          cases c <;> exact fun hm => nomatch hm
        exact ⟨inside, hs.apart hd hn rfl rfl hnone hnone (Change.starts_none rfl) hmark,
          fun _ _ _ => rfl⟩
      | apart ch h =>
        refine ⟨inside, hs.apart hd hn h.gil h.ident h.before h.after ?_ h.mark,
          fun _ _ _ => rfl⟩
        exact fun v hv => (h.started v hv).1

theorem lawful_start {config : Config} {r : Interpreter} (hr : Interpreter.build config = .ok r) :
    (start r).Lawful fun _ => false where
  settled := by
    have hgil : ∃ mode backend patience, r.gil = .new mode backend patience :=
      ⟨config.mode, config.backend, config.patience, by rw [Interpreter.build_eq hr]⟩
    exact (Interpreter.System.settled_start r hgil).congr rfl rfl rfl rfl
  calm w hw := by simp [start] at hw
  known i hi := by cases hi
  resets := rfl

theorem lawful_run {config : Config} {r : Interpreter} (hr : Interpreter.build config = .ok r)
    (acts : List Action) (ha : ∀ a ∈ acts, a.isOrdinary = true)
    (hd : ((start r).run acts).Distinct) : ∃ inside, ((start r).run acts).Lawful inside := by
  have keep : ∀ (s : System) (a : Action),
      s.Entered ∧ (s.Distinct → ∃ inside, s.Lawful inside) → a.isOrdinary = true →
        (s.act a).Entered ∧ ((s.act a).Distinct → ∃ inside, (s.act a).Lawful inside) := by
    intro s a hs ha
    refine ⟨hs.1.act (s.act_cases a), fun hd => ?_⟩
    obtain ⟨inside, hl⟩ := hs.2 (hd.of_act (s.act_cases a))
    obtain ⟨inside', hl', -⟩ := hl.act hs.1 ha hd
    exact ⟨inside', hl'⟩
  have hstart : (start r).Entered ∧ ((start r).Distinct → ∃ inside, (start r).Lawful inside) :=
    ⟨entered_run r [], fun _ => ⟨_, lawful_start hr⟩⟩
  exact (Run.always keep acts (start r) hstart ha).2 hd

end System

def Worker.hasLock (g : Gil) (w : Worker) : Bool :=
  g.isHeldBy w.ident ||
    (w.doing.call?.bind Interpreter.Call.atLock?).any fun l => l.isEntering || l.isGivingUp

namespace System

variable {s : System} {w : Worker} {inside : Ident → Bool}

theorem Lawful.hasLock_iff (hs : s.Lawful inside) (hd : s.Distinct) (hw : w ∈ s.workers) :
    w.hasLock s.interpreter.gil = true ↔ inside w.ident = true := by
  have hlock := hs.settled.lock
  have hcall : (s.atLock inside).atLock.calls w.ident =
      w.doing.call?.bind Interpreter.Call.atLock? := by
    rw [← hd.callOf_eq hw]
    rfl
  have hin : inside w.ident = true ↔ (s.atLock inside).atLock.hold w.ident ≠ .out :=
    hlock.inside w.ident
  have hheld := (hlock.custody.shows w.ident).holder
  have hbare := (s.atLock inside).atLock.hold_eq_bare w.ident
  simp only [Gil.System.isEntering, Gil.System.isGivingUp, hcall] at hbare
  rw [hin, Worker.hasLock, Bool.or_eq_true]
  have hany : (w.doing.call?.bind Interpreter.Call.atLock?).any
      (fun l => l.isEntering || l.isGivingUp) = true ↔
        (s.atLock inside).atLock.hold w.ident = .bare := by
    rw [hbare]
    cases w.doing.call?.bind Interpreter.Call.atLock? <;> simp
  rw [hany]
  have hheld' : s.interpreter.gil.isHeldBy w.ident = true ↔
      (s.atLock inside).atLock.hold w.ident = .recorded := hheld
  rw [hheld']
  cases (s.atLock inside).atLock.hold w.ident <;> decide

/-- Of a thread in no call the record alone says whether it has the lock. -/
theorem Lawful.holder_iff (hs : s.Lawful inside) (hd : s.Distinct) (hw : w ∈ s.workers)
    (hc : w.doing.call? = none) :
    s.interpreter.gil.holder = some w.ident ↔ inside w.ident = true := by
  rw [← hs.hasLock_iff hd hw, Worker.hasLock, hc]
  simp [Gil.isHeldBy]

/-- The word is locked where a thread has the lock, and free where none has. -/
theorem Lawful.word (hs : s.Lawful inside) (hd : s.Distinct) :
    s.interpreter.gil.word =
      if ∃ w ∈ s.workers, w.hasLock s.interpreter.gil = true then 1 else 0 := by
  have hlock := hs.settled.lock
  have hin (i : Ident) : inside i = true ↔ (s.atLock inside).atLock.hold i ≠ .out :=
    hlock.inside i
  have hword : s.interpreter.gil.word = 0 ∧ (∀ i, (s.atLock inside).atLock.hold i = .out) ∨
      s.interpreter.gil.word = 1 ∧ ∃ i, (s.atLock inside).atLock.hold i ≠ .out :=
    hlock.custody.word
  rcases hword with ⟨hw, hout⟩ | ⟨hw, i, hi⟩
  · rw [hw, if_neg]
    rintro ⟨w, hmem, hhas⟩
    exact (hin w.ident).mp ((hs.hasLock_iff hd hmem).mp hhas) (hout w.ident)
  · obtain ⟨w, hmem, rfl⟩ := hs.known i ((hin i).mpr hi)
    rw [hw, if_pos]
    exact ⟨w, hmem, (hs.hasLock_iff hd hmem).mpr ((hin _).mpr hi)⟩

end System

end Bootstrap

end InterpreterLock
