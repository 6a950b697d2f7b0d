import InterpreterLock.Proofs.Bootstrap.Spawning

/-!
# Registration brackets the entry

What a thread that was started here is seen to do begins with its registration, goes on with what
its entry does, and ends with its deregistration and the return of its slot, wherever the others are
in between. Spawns call no hook, and without a collector nobody does.
-/

set_option autoImplicit false

namespace InterpreterLock

theorem Interpreter.heard_congr {s s' : Interpreter}
    (h : s'.bootstrap.collector = s.bootstrap.collector) : s'.heard = s.heard := by
  simp only [heard, h]

namespace Bootstrap

def Deed.hook? : Deed → Option HookCall
  | .wrapper c => some c
  | .own c => c
  | .slotReturned => none

def Deed.isOwn : Deed → Bool
  | .own _ => true
  | _ => false

def bracket (i : Ident) (acts : List Deed) : List Deed :=
  .wrapper (.register i) :: (acts ++ [.wrapper (.deregister i), .slotReturned])

def Stage.Follows (i : Ident) : Stage → List Deed → Prop
  | .plain, _ => True
  | .wrapper _ .install, l | .wrapper _ .register, l => l = []
  | .wrapper _ .entry, l | .wrapper _ (.deregister _), l =>
    ∃ acts, (∀ d ∈ acts, d.isOwn = true) ∧ l = .wrapper (.register i) :: acts
  | .wrapper _ (.giveBack _), l =>
    ∃ acts, (∀ d ∈ acts, d.isOwn = true) ∧
      l = .wrapper (.register i) :: (acts ++ [.wrapper (.deregister i)])
  | .wrapper _ (.recordExit _), l | .gone, l =>
    ∃ acts, (∀ d ∈ acts, d.isOwn = true) ∧ l = bracket i acts

theorem Stage.Follows.prefix_bracket {i : Ident} {stage : Stage} {l : List Deed}
    (h : stage.Follows i l) (hp : stage.isPlain = false) :
    ∃ acts, (∀ d ∈ acts, d.isOwn = true) ∧ l <+: bracket i acts ∧
      (stage = .gone → l = bracket i acts) := by
  cases stage with
  | plain => cases hp
  | gone =>
    obtain ⟨acts, hown, rfl⟩ := h
    exact ⟨acts, hown, List.prefix_rfl, fun _ => rfl⟩
  | wrapper era c =>
    cases c with
    | install | register =>
      obtain rfl : l = [] := h
      exact ⟨[], nofun, List.nil_prefix, nofun⟩
    | entry | deregister ending =>
      obtain ⟨acts, hown, rfl⟩ := h
      exact ⟨acts, hown, ⟨_, rfl⟩, nofun⟩
    | giveBack ending =>
      obtain ⟨acts, hown, rfl⟩ := h
      exact ⟨acts, hown, ⟨[.slotReturned], by simp [bracket]⟩, nofun⟩
    | recordExit ending =>
      obtain ⟨acts, hown, rfl⟩ := h
      exact ⟨acts, hown, List.prefix_rfl, nofun⟩

section

variable {s : System} {w : Worker} {ch : Change}

/-- A deed of the thread's own tells of what the collector has heard, if there is one. -/
theorem heard_ownDeed {i : Interpreter} {c : Option HookCall}
    (h : i.heard = (if s.attached then c.toList else []) ++ s.interpreter.heard) :
    i.heard = ((s.ownDeed c).hook?).toList ++ s.interpreter.heard := by
  rw [h, System.ownDeed, Deed.hook?]
  cases s.attached <;> rfl

theorem Changes.heard (h : Changes s w ch) :
    ch.interpreter.heard = (ch.deed.bind Deed.hook?).toList ++ s.interpreter.heard := by
  have silent {i : Interpreter}
      (hi : i.bootstrap.collector = s.interpreter.bootstrap.collector) :
      i.heard = ((s.ownDeed none).hook?).toList ++ s.interpreter.heard := by
    apply heard_ownDeed
    rw [Interpreter.heard_congr hi]
    cases s.attached <;> rfl
  cases h with
  | begin a ho hd ha => exact silent rfl
  | hook c => exact heard_ownDeed (Interpreter.heard_of_tell (c := some c) rfl)
  | resize size => exact silent (resized_collector _ size)
  | reset => exact silent rfl
  | call t c ho ht hd => exact heard_ownDeed c.step_heard
  | spawn host name c r ch ho hd h =>
    have hdeed : ch.deed = some (s.ownDeed none) := by cases h <;> rfl
    rw [hdeed]
    exact silent h.settings.2
  | endEntry era ending hs hd => rfl
  | wrapper era c hs hc =>
    have hheard : (s.stepWrapper w era c).interpreter.heard =
        (if s.attached then (c.hook? w.ident).toList else []) ++ s.interpreter.heard :=
      Interpreter.heard_of_tell (c.step_settings w.ident s.interpreter.bootstrap).2
    rw [hheard]
    cases ha : s.attached <;> cases c <;>
      simp [System.stepWrapper, Wrapper.deed?, Wrapper.hook?, Deed.hook?, ha]

/-- A thread in its entry adds a deed of its own and stays there, until it ends the entry; outside of
it the thread takes a step of its wrapper. -/
theorem Changes.cases_stage (h : Changes s w ch) :
    (w.stage.isOpen = true ∧ ch.worker.stage = w.stage ∧ ∃ c, ch.deed = some (.own c)) ∨
      (∃ era ending, w.stage = .wrapper era .entry ∧ ch = s.endEntry w era ending) ∨
        ∃ era c, w.stage = .wrapper era c ∧ c ≠ .entry ∧ ch = s.stepWrapper w era c := by
  cases h with
  | begin a ho hd ha => exact .inl ⟨ho, rfl, _, rfl⟩
  | hook c ho hd => exact .inl ⟨ho, rfl, _, rfl⟩
  | resize size ho hd => exact .inl ⟨ho, rfl, _, rfl⟩
  | reset ho hd => exact .inl ⟨ho, rfl, _, rfl⟩
  | call t c ho ht hd => exact .inl ⟨ho, rfl, _, rfl⟩
  | spawn host name c r ch ho hd h =>
    refine .inl ⟨ho, ?_⟩
    cases h <;> exact ⟨rfl, _, rfl⟩
  | endEntry era ending hs hd => exact .inr (.inl ⟨era, ending, hs, rfl⟩)
  | wrapper era c hs hc => exact .inr (.inr ⟨era, c, hs, hc, rfl⟩)

/-- What a thread does next follows on what it has done. -/
theorem Changes.follows (h : Changes s w ch) (ha : s.attached = true) {l : List Deed}
    (hl : w.stage.Follows w.ident l) :
    ch.worker.stage.Follows ch.worker.ident (l ++ ch.deed.toList) := by
  rw [h.ident]
  rcases h.cases_stage with ⟨ho, hstage, c, hc⟩ | ⟨era, ending, hs, rfl⟩ | ⟨era, c, hs, hc, rfl⟩
  · rw [hstage, hc]
    cases hs : w.stage with
    | plain => trivial
    | gone =>
      rw [hs] at ho
      cases ho
    | wrapper era v =>
      rw [hs] at ho hl
      cases v with
      | entry =>
        obtain ⟨acts, hown, rfl⟩ := hl
        refine ⟨acts ++ [.own c], fun d hd => ?_, rfl⟩
        rcases List.mem_append.mp hd with hold | hnew
        · exact hown d hold
        · rw [List.mem_singleton.mp hnew]
          rfl
      | _ => cases ho
  · rw [hs] at hl
    rw [show (s.endEntry w era ending).deed = none from rfl, Option.toList_none, List.append_nil]
    exact hl
  · rw [hs] at hl
    cases c with
    | install =>
      obtain rfl : l = [] := hl
      simp [System.stepWrapper, System.still, Wrapper.step, Progress.next?, Stage.ofWrapper,
        Wrapper.deed?, Wrapper.hook?, Stage.Follows]
    | register =>
      obtain rfl : l = [] := hl
      simp [System.stepWrapper, System.still, Wrapper.step, Progress.next?, Stage.ofWrapper,
        Wrapper.deed?, Wrapper.hook?, ha, Stage.Follows]
    | entry => exact absurd rfl hc
    | deregister ending =>
      obtain ⟨acts, hown, rfl⟩ := hl
      refine ⟨acts, hown, ?_⟩
      simp [System.stepWrapper, Wrapper.deed?, Wrapper.hook?, ha]
    | giveBack ending =>
      obtain ⟨acts, hown, rfl⟩ := hl
      refine ⟨acts, hown, ?_⟩
      simp [System.stepWrapper, Wrapper.deed?, bracket]
    | recordExit ending =>
      obtain ⟨acts, hown, rfl⟩ := hl
      refine ⟨acts, hown, ?_⟩
      simp [System.stepWrapper, Wrapper.deed?, Wrapper.hook?]

end

namespace System

variable {s s' : System} {w : Worker} {ch : Change} {n : ℕ}

def trail (s : System) (n : ℕ) : List Deed :=
  (s.deeds.filterMap fun d => if d.1 = n then some d.2 else none).reverse

theorem trail_commit_self : (s.commit n ch).trail n = s.trail n ++ ch.deed.toList := by
  cases hd : ch.deed <;> simp [trail, commit, hd]

theorem trail_commit_of_ne {m : ℕ} (hm : m ≠ n) : (s.commit n ch).trail m = s.trail m := by
  cases hd : ch.deed with
  | none => simp [trail, commit, hd]
  | some d => simp [trail, commit, hd, hm.symm]

theorem trail_eq_nil {m : ℕ} (h : ∀ d ∈ s.deeds, d.1 ≠ m) : s.trail m = [] := by
  rw [trail, List.reverse_eq_nil_iff, List.filterMap_eq_nil_iff]
  intro d hd
  rw [if_neg (h d hd)]

structure Followed (s : System) : Prop where
  heard : s.interpreter.heard = s.deeds.filterMap fun d => d.2.hook?
  known : ∀ d ∈ s.deeds, d.1 < s.workers.length
  follows : s.attached = true → ∀ (n : ℕ) (w : Worker), s.workers[n]? = some w →
    w.stage.Follows w.ident (s.trail n)

theorem Followed.commit (hs : s.Followed) (hn : s.workers[n]? = some w) (h : Changes s w ch) :
    (s.commit n ch).Followed := by
  have hlt : n < s.workers.length := (List.getElem?_eq_some_iff.mp hn).1
  have hle : s.workers.length ≤ (s.commit n ch).workers.length := by
    simp [System.commit]
  constructor
  · have hdeeds : ((ch.deed.map fun d => (n, d)).toList.filterMap fun d => d.2.hook?) =
        (ch.deed.bind Deed.hook?).toList := by
      cases ch.deed with
      | none => rfl
      | some d => cases hd : d.hook? <;> simp [hd]
    calc (s.commit n ch).interpreter.heard
        = (ch.deed.bind Deed.hook?).toList ++ s.interpreter.heard := h.heard
      _ = _ := by rw [System.commit, List.filterMap_append, hdeeds, ← hs.heard]
  · intro d hd
    rcases List.mem_append.mp hd with hnow | hearlier
    · obtain ⟨_, -, rfl⟩ := Option.map_eq_some_iff.mp (Option.mem_toList.mp hnow)
      exact hlt.trans_le hle
    · exact (hs.known d hearlier).trans_le hle
  · intro ha m v hv
    have hattached : s.attached = true := h.attached.symm.trans ha
    rcases commit_workers_cases hn hv with ⟨rfl, rfl⟩ | ⟨hm, hold⟩ | ⟨rfl, hnew⟩
    · rw [trail_commit_self]
      exact h.follows hattached (hs.follows hattached m w hn)
    · rw [trail_commit_of_ne hm]
      exact hs.follows hattached m v hold
    · -- the number of a new thread is on no deed
      rw [trail_commit_of_ne (Nat.ne_of_gt hlt),
        trail_eq_nil fun d hd => Nat.ne_of_lt (hs.known d hd)]
      rcases spawns_or_of_changes h with ⟨_, _, _, _, -, hsp⟩ | ⟨-, hnone, -⟩
      · cases hsp <;> cases hnew
        rfl
      · simp [hnone] at hnew

theorem Followed.act (hs : s.Followed) (h : Acts s s') : s'.Followed := by
  cases h with
  | still => exact hs
  | rouse i => exact ⟨hs.heard, hs.known, hs.follows⟩
  | arrive i =>
    refine ⟨hs.heard, fun d hd => ?_, fun ha m v hv => ?_⟩
    · have hlt := hs.known d hd
      simp only [List.length_append]
      omega
    · rcases arrive_workers_cases hv with hold | ⟨-, rfl⟩
      · exact hs.follows ha m v hold
      · trivial
  | change n w ch hn h => exact hs.commit hn h

theorem followed_run {r : Interpreter} (hr : r.heard = []) (acts : List Action) :
    ((start r).run acts).Followed := by
  refine run_keeps (fun _ _ hs h => Followed.act hs h) ⟨hr, ?_, fun _ n w hn => ?_⟩ acts
  · simp [start]
  · simp [start] at hn

theorem attached_run (r : Interpreter) (acts : List Action) :
    ((start r).run acts).attached = r.bootstrap.collector.isSome := by
  refine run_keeps (P := fun s => s.attached = r.bootstrap.collector.isSome)
    (fun s s' hs h => ?_) rfl acts
  cases h with
  | change n w ch hn h => exact h.attached.trans hs
  | _ => exact hs

theorem starts_run (r : Interpreter) (acts : List Action) : ((start r).run acts).Starts := by
  refine run_keeps (fun _ _ hs h => Starts.act hs h) ⟨fun n w _ _ _ hn => ?_, ?_⟩ acts
  · simp [start] at hn
  · simp [start]

theorem own_deed {next : Next} (h : s.own? w next = some ch) : ∃ c, ch.deed = some (.own c) := by
  unfold own? at h
  split at h <;> cases h <;> exact ⟨_, rfl⟩

/-- Whatever a thread does in its entry, but for the end of it, is a deed of its own. -/
theorem own_of_act {next : Next} (hn : s.workers[n]? = some w) (ho : w.stage.isOpen = true)
    (hnext : ∀ ending, next ≠ .finish ending) :
    s.act (.thread n next) = s ∨
      ∃ c, (s.act (.thread n next)).trail n = s.trail n ++ [.own c] := by
  cases hown : s.own? w next with
  | none =>
    left
    simp only [act, hn, Option.bind_some, change?_of_isOpen ho hnext, hown]
  | some ch =>
    right
    obtain ⟨c, hc⟩ := own_deed hown
    refine ⟨c, ?_⟩
    simp only [act, hn, Option.bind_some, change?_of_isOpen ho hnext, hown, trail_commit_self, hc,
      Option.toList_some]

structure Bracketed (collector : Bool) (s : System) : Prop where
  heard : s.interpreter.heard = s.deeds.filterMap fun d => d.2.hook?
  bracket : collector = true → ∀ (n : ℕ) (w : Worker), s.workers[n]? = some w →
    w.stage.isPlain = false →
      ∃ acts, (∀ d ∈ acts, d.isOwn = true) ∧ s.trail n <+: Bootstrap.bracket w.ident acts ∧
        (w.stage = .gone → s.trail n = Bootstrap.bracket w.ident acts)
  own : ∀ (n : ℕ) (w : Worker) next, s.workers[n]? = some w → w.stage.isOpen = true →
    (∀ ending, next ≠ .finish ending) →
      s.act (.thread n next) = s ∨
        ∃ c, (s.act (.thread n next)).trail n = s.trail n ++ [.own c]
  slot : ∀ (n : ℕ) (w : Worker) era c host now pick, s.workers[n]? = some w →
    w.stage = .wrapper era c → c ≠ .entry →
      let s' := s.act (.thread n (.step host now pick))
      s'.interpreter.bootstrap.live = s.interpreter.bootstrap.live ∨
        s'.trail n = s.trail n ++ [.slotReturned]
  succeeded : ∀ a ∈ s.answers, ∀ i, a.result = .ok (.ok i) →
    ∃ n, a.course.launched = some n ∧ s.Started n i
  failed : ∀ a ∈ s.answers, (∀ i, a.result ≠ .ok (.ok i)) → a.course.launched = none
  silent : ∀ (n : ℕ) (w : Worker) name c r host now pick, s.workers[n]? = some w →
    w.doing = .spawn name c r →
      (s.act (.thread n (.step host now pick))).interpreter.heard = s.interpreter.heard
  detached : collector = false →
    s.interpreter.heard = [] ∧ ∀ d ∈ s.deeds, d.2.hook? = none

theorem slot_of_act {host : Host} {now : Instant} {pick era : ℕ} {c : Wrapper}
    (hn : s.workers[n]? = some w) (hs : w.stage = .wrapper era c) (hc : c ≠ .entry) :
    (s.act (.thread n (.step host now pick))).interpreter.bootstrap.live =
        s.interpreter.bootstrap.live ∨
      (s.act (.thread n (.step host now pick))).trail n = s.trail n ++ [.slotReturned] := by
  rw [act_wrapper hn hs hc, trail_commit_self]
  cases c with
  | entry => exact absurd rfl hc
  | giveBack ending => exact .inr rfl
  | _ => exact .inl rfl

theorem Followed.bracketed (hs : s.Followed) (hstarts : s.Starts) (he : s.Entered) :
    s.Bracketed s.attached where
  heard := hs.heard
  bracket ha n w hn hp := (hs.follows ha n w hn).prefix_bracket hp
  own _ _ _ hn ho hnext := own_of_act hn ho hnext
  slot _ _ _ _ _ _ _ hn hstage hc := slot_of_act hn hstage hc
  succeeded a ha i hi := by
    have hstarted := hstarts.ended a ha
    rwa [Answer.Started, hi] at hstarted
  failed a ha hfails := by
    have hstarted := hstarts.ended a ha
    obtain ⟨r, result⟩ := a
    match result, hstarted with
    | .ok (.ok i), _ => exact absurd rfl (hfails i)
    | .ok (.error e), hnone => exact hnone
    | .error p, hnone => exact hnone
  silent n w name c r host now pick hn hd := by
    have hopen := he n w hn (by simp [hd])
    rw [act_spawn hn hopen hd]
    exact Interpreter.heard_congr (spawns_stepSpawn s w host name c r).settings.2
  detached ha := by
    have hnone : s.interpreter.bootstrap.collector = none := by
      simpa [attached] using ha
    have hheard : s.interpreter.heard = [] := by simp [Interpreter.heard, hnone]
    refine ⟨hheard, fun d hd => ?_⟩
    exact List.filterMap_eq_nil_iff.mp (hs.heard.symm.trans hheard) d hd

/-- Any number of threads, in any interleaving of their steps, with any resets, and with entries that
return or panic wherever they are. -/
theorem bracketed_run {config : Config} {r : Interpreter} (hr : Interpreter.build config = .ok r)
    (acts : List Action) : ((start r).run acts).Bracketed config.collector := by
  have hb := Interpreter.build_eq hr
  have hattached : ((start r).run acts).attached = config.collector := by
    rw [attached_run, hb]
    cases config.collector <;> rfl
  have hheard : r.heard = [] := by
    rw [hb]
    cases config.collector <;> rfl
  rw [← hattached]
  exact (followed_run hheard acts).bracketed (starts_run r acts) (entered_run r acts)

/-- A thread takes the lock and then panics. -/
theorem bracketed_run_panicked :
    let turn (n : ℕ) : Action := .thread n (.step ⟨Host.usualMemory, fun _ => none⟩ ⟨0⟩ 0)
    let acts : List Action :=
      .arrive ⟨7, by decide⟩ :: .thread 0 (.spawn none) :: List.replicate 4 (turn 0) ++
        List.replicate 2 (turn 1) ++ .thread 1 (.call .acquire) :: List.replicate 6 (turn 1) ++
        .thread 1 (.finish (some .clockOverflow)) :: List.replicate 3 (turn 1)
    let r : Interpreter :=
      { gil := .new .generic .posix Gil.defaultPatience
        bootstrap := { backend := .posix, collector := some {} } }
    let s := (start r).run acts
    Interpreter.build {} = .ok r ∧ s.Bracketed true ∧
      s.trail 1 = bracket .first (List.replicate 6 (.own none) ++ [.own (some (.run .first))]) ∧
      s.interpreter.heard = [.deregister .first, .run .first, .register .first] :=
  ⟨rfl, @bracketed_run {} _ rfl _, by decide, by decide⟩

end System

end Bootstrap

end InterpreterLock
