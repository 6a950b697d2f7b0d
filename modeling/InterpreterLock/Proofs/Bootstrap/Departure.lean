import InterpreterLock.Proofs.Bootstrap.Bracket
import InterpreterLock.Proofs.Bootstrap.Custody
import InterpreterLock.Proofs.ThreadLock.Rack

/-!
# What a thread leaves behind

The entry of a thread that was started here ends by a return or by a panic, wherever the thread is
between two of its calls. Slot, registration and exit belong to the wrapper around it, which settles
them on every way out. The lock belongs to nobody but the entry: a thread that is gone is on record
as the holder just if it was when its entry ended, and then the word stays locked.
-/

set_option autoImplicit false

namespace InterpreterLock

namespace Registry

variable (r : Registry) (me i : Ident)

theorem isRegistered_register :
    (r.hear me (.register me)).isRegistered i = (decide (i = me) || r.isRegistered i) := by
  by_cases hi : i = me
  · simp [hear, isRegistered, Table.contains, hi, Table.get?_insert_self]
  · simp [hear, isRegistered, Table.contains, hi, Table.get?_insert_of_ne]

theorem isRegistered_deregister :
    (r.hear me (.deregister me)).isRegistered i = (decide (i ≠ me) && r.isRegistered i) := by
  by_cases hi : i = me
  · simp [hear, isRegistered, Table.contains, hi, Table.get?_erase_self]
  · simp [hear, isRegistered, Table.contains, hi, Table.get?_erase_of_ne]

theorem isRegistered_run (j : Ident) :
    (r.hear me (.run j)).isRegistered i = r.isRegistered i := by
  simp [hear, isRegistered, Table.contains, Table.get?_modify]

end Registry

theorem Interpreter.Call.hook?_cases {c : Interpreter.Call} (hc : c.isForking = false)
    (me : Ident) : c.hook? me = none ∨ c.hook? me = some (.run me) ∨
      c.hook? me = some .beforeFork := by
  cases c with
  | report e => exact .inr (.inl rfl)
  | beforeFork => exact .inr (.inr rfl)
  | announceFork => cases hc
  | _ => exact .inl rfl

namespace Bootstrap

def isRegistered (b : Bootstrap) (i : Ident) : Bool :=
  b.collector.any fun c => c.registry.isRegistered i

variable (b : Bootstrap) (me i : Ident)

theorem isRegistered_register :
    (b.hear me (.register me)).isRegistered i =
      (b.collector.isSome && (decide (i = me) || b.isRegistered i)) := by
  cases hc : b.collector <;>
    simp [isRegistered, hear, hc, Collector.hear, Registry.isRegistered_register]

theorem isRegistered_deregister :
    (b.hear me (.deregister me)).isRegistered i = (decide (i ≠ me) && b.isRegistered i) := by
  cases hc : b.collector <;>
    simp [isRegistered, hear, hc, Collector.hear, Registry.isRegistered_deregister]

/-- A call tells the collector of nothing that makes it know or forget a thread. -/
theorem isRegistered_tell {c : Interpreter.Call} (hc : c.isForking = false) :
    (b.tell me (c.hook? me)).isRegistered i = b.isRegistered i := by
  rcases Interpreter.Call.hook?_cases hc me with h | h | h <;> rw [h]
  · rfl
  · cases hb : b.collector <;>
      simp [tell, isRegistered, hear, hb, Collector.hear, Registry.isRegistered_run]
  · cases hb : b.collector <;> simp [tell, isRegistered, hear, hb, Collector.hear, Registry.hear]

namespace System

variable {s s' : System} {w v : Worker} {ch : Change} {n : ℕ}

def registeredOf (s : System) : Ident → ℕ := s.ofIdent (fun w => w.stage.registered) 0

def Rolled (s : System) : Prop :=
  ∀ i, s.interpreter.bootstrap.isRegistered i = true ↔ s.attached = true ∧ s.registeredOf i = 1

theorem Rolled.kept (hs : s.Rolled) (hd : (s.commit n ch).Distinct) (hn : s.workers[n]? = some w)
    (hi : ch.worker.ident = w.ident) (hw : ch.worker.stage.registered = w.stage.registered)
    (hnew : ∀ v, ch.started = some v → v.stage.registered = 0)
    (hattached : (s.commit n ch).attached = s.attached)
    (hknown : ∀ i, ch.interpreter.bootstrap.isRegistered i =
      s.interpreter.bootstrap.isRegistered i) : (s.commit n ch).Rolled := by
  intro i
  have hsame : (s.commit n ch).registeredOf = s.registeredOf := hd.ofIdent_kept hn hi hw hnew
  rw [hsame, hattached, ← hs i]
  exact Bool.eq_iff_iff.mp (hknown i)

theorem Rolled.wrapper (hs : s.Rolled) {era : ℕ} {c : Wrapper}
    (hd : (s.commit n (s.stepWrapper w era c)).Distinct) (hn : s.workers[n]? = some w)
    (hstage : w.stage = .wrapper era c) (hc : c ≠ .entry) :
    (s.commit n (s.stepWrapper w era c)).Rolled := by
  have hattached : (s.commit n (s.stepWrapper w era c)).attached = s.attached :=
    (Changes.wrapper era c hstage hc).attached
  have hupdate : (s.commit n (s.stepWrapper w era c)).registeredOf =
      Function.update s.registeredOf w.ident (s.stepWrapper w era c).worker.stage.registered :=
    hd.ofIdent_commit hn rfl (Change.starts_none rfl)
  cases c with
  | entry => exact absurd rfl hc
  | register =>
    intro i
    have hnow : (s.commit n (s.stepWrapper w era .register)).interpreter.bootstrap.isRegistered i =
        (s.attached && (decide (i = w.ident) || s.interpreter.bootstrap.isRegistered i)) :=
      s.interpreter.bootstrap.isRegistered_register w.ident i
    rw [hnow, hupdate, hattached, Bool.and_eq_true, Bool.or_eq_true, hs i, decide_eq_true_eq]
    by_cases hi : i = w.ident
    · rw [hi, Function.update_self]
      exact ⟨fun h => ⟨h.1, rfl⟩, fun h => ⟨h.1, .inl rfl⟩⟩
    · rw [Function.update_of_ne hi]
      exact ⟨fun h => h.2.resolve_left hi, fun h => ⟨h.1, .inr h⟩⟩
  | deregister ending =>
    intro i
    have hnow : (s.commit n
        (s.stepWrapper w era (.deregister ending))).interpreter.bootstrap.isRegistered i =
          (decide (i ≠ w.ident) && s.interpreter.bootstrap.isRegistered i) :=
      s.interpreter.bootstrap.isRegistered_deregister w.ident i
    rw [hnow, hupdate, hattached, Bool.and_eq_true, hs i, decide_eq_true_eq]
    by_cases hi : i = w.ident
    · rw [hi, Function.update_self]
      exact ⟨fun h => absurd rfl h.1, fun h => nomatch h.2⟩
    · rw [Function.update_of_ne hi]
      exact ⟨fun h => h.2, fun h => ⟨hi, h⟩⟩
  | _ =>
    refine hs.kept hd hn rfl ?_ (Change.starts_none rfl) hattached fun _ => rfl
    rw [hstage]
    rfl

theorem Rolled.act {inside : Ident → Bool} (hs : s.Rolled) (hl : s.Lawful inside) {a : Action}
    (ha : a.isOrdinary = true) (hd : (s.act a).Distinct) : (s.act a).Rolled := by
  cases a with
  | arrive i =>
    intro j
    have hsame : registeredOf { s with workers := s.workers ++ [{ ident := i }] } =
        s.registeredOf := ofIdent_arrive rfl
    rw [System.act, hsame]
    exact hs j
  | rouse i => exact hs
  | thread n next =>
    rcases s.act_thread n next with h | ⟨w, ch, hn, hch, h⟩ <;> rw [h] at hd ⊢
    · exact hs
    · have hattached : (s.commit n ch).attached = s.attached :=
        (changes_of_change? hch).attached
      cases ordinary_of_change? ha hch with
      | begin op =>
        exact hs.kept hd hn rfl rfl (Change.starts_none rfl) hattached fun _ => rfl
      | call t c ht hc =>
        have hcalm := hl.calm w (List.mem_of_getElem? hn) c hc
        refine hs.kept hd hn rfl rfl (Change.starts_none rfl) hattached fun i => ?_
        simp only [stepCall, c.step_bootstrap, Interpreter.Call.forgets_of_notForking hcalm]
        exact isRegistered_tell _ t.me i hcalm
      | wrapper era c hstage hc => exact hs.wrapper hd hn hstage hc
      | apart ch h =>
        refine hs.kept hd hn h.ident h.registered (fun v hv => (h.started v hv).2) hattached
          fun i => ?_
        rw [isRegistered, isRegistered, h.collector]

theorem rolled_start {config : Config} {r : Interpreter} (hr : Interpreter.build config = .ok r) :
    (start r).Rolled := by
  intro i
  have habsent : (start r).registeredOf i = 0 :=
    ofIdent_absent fun w hw => by simp [start] at hw
  have hnobody : r.bootstrap.isRegistered i = false := by
    rw [Interpreter.build_eq hr]
    cases config.collector <;> rfl
  rw [habsent]
  simp [start, hnobody]

theorem rolled_run {config : Config} {r : Interpreter} (hr : Interpreter.build config = .ok r)
    (acts : List Action) (ha : ∀ a ∈ acts, a.isOrdinary = true)
    (hd : ((start r).run acts).Distinct) : ((start r).run acts).Rolled := by
  induction acts using List.reverseRecOn with
  | nil => exact rolled_start hr
  | append_singleton acts a ih =>
    have hrun : (start r).run (acts ++ [a]) = ((start r).run acts).act a := by
      simp [run]
    have hearly : ∀ b ∈ acts, b.isOrdinary = true :=
      fun b hb => ha b (List.mem_append_left _ hb)
    rw [hrun] at hd ⊢
    have hbefore := hd.of_act (act_cases _ a)
    obtain ⟨inside, hl⟩ := lawful_run hr acts hearly hbefore
    exact (ih hearly hbefore).act hl (ha a (by simp)) hd

end System

def Stage.returned : Stage → ℕ
  | .wrapper _ (.recordExit _) | .gone => 1
  | _ => 0

def Stage.isPast : Stage → Bool
  | .wrapper _ (.deregister _) | .wrapper _ (.giveBack _) | .wrapper _ (.recordExit _) => true
  | .gone => true
  | _ => false

theorem Changes.returned {s : System} {w : Worker} {ch : Change} (h : Changes s w ch) :
    ch.deed.toList.count .slotReturned + w.stage.returned = ch.worker.stage.returned := by
  rcases h.cases_stage with ⟨ho, hstage, c, hc⟩ | ⟨era, ending, hs, rfl⟩ | ⟨era, c, hs, hc, rfl⟩
  · rw [hstage, hc]
    simp
  · rw [hs]
    rfl
  · rw [hs]
    cases c with
    | entry => exact absurd rfl hc
    | register | deregister ending =>
      cases ha : s.attached <;>
        simp [System.stepWrapper, System.still, Wrapper.deed?, Wrapper.hook?, Wrapper.step, ha,
          Progress.next?, Stage.ofWrapper, Stage.returned]
    | _ =>
      cases ha : s.attached <;>
        simp [System.stepWrapper, System.still, Wrapper.deed?, Wrapper.hook?, Wrapper.step,
          Progress.next?, Stage.ofWrapper, Stage.returned]

namespace System

variable {s s' : System} {w v : Worker} {ch : Change} {n : ℕ}

def Returning (s : System) : Prop :=
  ∀ (n : ℕ) (w : Worker), s.workers[n]? = some w →
    (s.trail n).count .slotReturned = w.stage.returned

theorem Returning.act (hs : s.Returning) (hf : s.Followed) (h : Acts s s') : s'.Returning := by
  intro m v hv
  cases h with
  | still => exact hs m v hv
  | rouse i => exact hs m v hv
  | arrive i =>
    rcases arrive_workers_cases hv with hold | ⟨rfl, rfl⟩
    · exact hs m v hold
    · have hnone : s.trail s.workers.length = [] :=
        trail_eq_nil fun d hd => Nat.ne_of_lt (hf.known d hd)
      show (s.trail s.workers.length).count _ = _
      rw [hnone]
      rfl
  | change n w ch hn h =>
    rcases commit_workers_cases hn hv with ⟨rfl, rfl⟩ | ⟨hm, hold⟩ | ⟨rfl, hnew⟩
    · rw [trail_commit_self, List.count_append, hs m w hn, Nat.add_comm]
      exact h.returned
    · rw [trail_commit_of_ne hm]
      exact hs m v hold
    · have hlt : n < s.workers.length := (List.getElem?_eq_some_iff.mp hn).1
      rw [trail_commit_of_ne (Nat.ne_of_gt hlt),
        trail_eq_nil fun d hd => Nat.ne_of_lt (hf.known d hd)]
      rcases spawns_or_of_changes h with ⟨_, _, _, _, -, hsp⟩ | ⟨-, hnone, -⟩
      · cases hsp <;> cases hnew
        rfl
      · simp [hnone] at hnew

theorem returning_run {r : Interpreter} (hr : r.heard = []) (acts : List Action) :
    ((start r).run acts).Returning := by
  have hstart : (start r).Followed ∧ (start r).Returning :=
    ⟨followed_run hr [], fun n w hn => by simp [start] at hn⟩
  exact (run_keeps (P := fun s => s.Followed ∧ s.Returning)
    (fun s s' hs h => ⟨hs.1.act h, hs.2.act hs.1 h⟩) hstart acts).2

/-- An entry ends by an action that ends it, of a thread that is in the middle of nothing. -/
theorem finish_of_isPast {next : Next} (h : s.change? w next = some ch)
    (hbefore : w.stage.isPast = false) (hafter : ch.worker.stage.isPast = true) :
    ∃ era ending, next = .finish ending ∧ w.stage = .wrapper era .entry ∧
      ch = s.endEntry w era ending := by
  rcases (changes_of_change? h).cases_stage with
    ⟨-, hstage, -⟩ | ⟨era, ending, hs, hch⟩ | ⟨era, c, hs, hc, rfl⟩
  · rw [hstage, hbefore] at hafter
    cases hafter
  · cases next with
    | finish e =>
      simp only [change?, hs] at h
      split at h
      · cases h
        exact ⟨era, e, rfl, hs, rfl⟩
      · cases h
    | _ =>
      -- whatever else it does in its entry is a deed of its own
      rw [change?_of_isOpen (by rw [hs]; rfl) fun _ => Next.noConfusion] at h
      obtain ⟨d, hd⟩ := own_deed h
      rw [hch] at hd
      cases hd
  · rw [hs] at hbefore
    cases c with
    | entry => exact absurd rfl hc
    | install | register => cases hafter
    | _ => cases hbefore

theorem idle_of_isPast (he : s.Entered) (hn : s.workers[n]? = some w)
    (hp : w.stage.isPast = true) : w.doing = .idle := by
  by_contra hbusy
  have hopen := he n w hn hbusy
  cases hs : w.stage with
  | plain =>
    rw [hs] at hp
    cases hp
  | gone =>
    rw [hs] at hopen
    cases hopen
  | wrapper era c =>
    rw [hs] at hp hopen
    cases c with
    | entry => cases hp
    | _ => cases hopen

/-- A thread that is in no call, before and after, is on record as the holder if it was before. -/
theorem holder_act {inside : Ident → Bool} (hl : s.Lawful inside) (he : s.Entered) {a : Action}
    (ha : a.isOrdinary = true) (hd : (s.act a).Distinct) (hn : s.workers[n]? = some w)
    (hn' : (s.act a).workers[n]? = some v) (hi : v.ident = w.ident) (hw : w.doing = .idle)
    (hv : v.doing = .idle) :
    (s.act a).interpreter.gil.holder = some w.ident ↔
      s.interpreter.gil.holder = some w.ident := by
  have hwnone : w.doing.call? = none := by
    rw [hw]
    rfl
  have hvnone : v.doing.call? = none := by
    rw [hv]
    rfl
  have hmem := List.mem_of_getElem? hn
  obtain ⟨inside', hl', hsame⟩ := hl.act he ha hd
  rw [hl.holder_iff (hd.of_act (act_cases s a)) hmem hwnone, ← hsame w hmem hwnone, ← hi]
  exact hl'.holder_iff hd (List.mem_of_getElem? hn') hvnone

/-- Of a thread whose entry has ended, the entry ended before the last action or in it. -/
theorem past_act {a : Action} (hn : (s.act a).workers[n]? = some v)
    (hp : v.stage.isPast = true) :
    ∃ w, s.workers[n]? = some w ∧ v.ident = w.ident ∧ (w.stage.isPast = true ∨
      ∃ era ending, a = .thread n (.finish ending) ∧ w.stage = .wrapper era .entry ∧
        s.act a = s.commit n (s.endEntry w era ending)) := by
  cases a with
  | arrive i =>
    rcases arrive_workers_cases hn with hold | ⟨-, rfl⟩
    · exact ⟨v, hold, rfl, .inl hp⟩
    · cases hp
  | rouse i => exact ⟨v, hn, rfl, .inl hp⟩
  | thread m next =>
    rcases s.act_thread m next with h | ⟨w, ch, hm, hch, h⟩ <;> rw [h] at hn ⊢
    · exact ⟨v, hn, rfl, .inl hp⟩
    · rcases commit_workers_cases hm hn with ⟨rfl, rfl⟩ | ⟨-, hold⟩ | ⟨-, hnew⟩
      · refine ⟨w, hm, (changes_of_change? hch).ident, ?_⟩
        cases hb : w.stage.isPast with
        | true => exact .inl rfl
        | false =>
          obtain ⟨era, ending, hnext, hstage, rfl⟩ := finish_of_isPast hch hb hp
          exact .inr ⟨era, ending, by rw [hnext], hstage, rfl⟩
      · exact ⟨v, hold, rfl, .inl hp⟩
      · rcases spawns_or_of_changes (changes_of_change? hch) with
          ⟨_, _, _, _, -, hsp⟩ | ⟨-, hnone, -⟩
        · cases hsp <;> cases hnew
          cases hp
        · simp [hnone] at hnew

end System

end Bootstrap

end InterpreterLock
