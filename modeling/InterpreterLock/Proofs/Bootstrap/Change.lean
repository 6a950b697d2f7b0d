import InterpreterLock.Proofs.Bootstrap.System
import InterpreterLock.Proofs.Sums
import Mathlib.Algebra.GroupWithZero.Nat
import Mathlib.Algebra.Order.BigOperators.Group.List
import Mathlib.Algebra.Order.Group.Nat

/-!
# What an action comes to

A thread that does something makes one of eight changes, each from a place of its own. An action
commits a change, lets a thread arrive, ends a sleep, or does nothing. What is added up over all
threads moves by what it moves for the thread that acts and for the one it starts.
-/

set_option autoImplicit false

namespace InterpreterLock

theorem Wrapper.step_settings (me : Ident) (b : Bootstrap) (c : Wrapper) :
    (c.step me b).state.limit = b.limit ∧
      (c.step me b).state.collector = (b.tell me (c.hook? me)).collector := by
  cases c <;> exact ⟨rfl, rfl⟩

namespace Bootstrap

theorem resized_eq (b : Bootstrap) (size : ℕ) :
    b.resized size =
      { b with
        stackSize := if stackSizeAllowed b.backend size then size else b.stackSize } := by
  by_cases h : stackSizeAllowed b.backend size
  · simp [resized, setStackSize, h]
  · simp [resized, setStackSize, h]

@[simp] theorem resized_live (b : Bootstrap) (size : ℕ) : (b.resized size).live = b.live := by
  rw [resized_eq]

@[simp] theorem resized_limit (b : Bootstrap) (size : ℕ) : (b.resized size).limit = b.limit := by
  rw [resized_eq]

@[simp] theorem resized_collector (b : Bootstrap) (size : ℕ) :
    (b.resized size).collector = b.collector := by
  rw [resized_eq]

inductive Activity.Fresh : Activity → Prop
  | call (c : Interpreter.Call) : Fresh (.call c)
  | spawn (name : Option String) : Fresh (.spawn name .reserve {})

def System.onward (s : System) (w : Worker) (name : Option String) (live : ℕ) (c : Spawn)
    (r : Course) : Change :=
  { s.still { w with doing := .spawn name c r } with
    interpreter :=
      { s.interpreter with bootstrap := { s.interpreter.bootstrap with live := live } }
    deed := s.ownDeed none }

def System.answered (s : System) (w : Worker) (live : ℕ) (note : Option Metrics.Record)
    (a : Answer) : Change :=
  { s.still { w with doing := .idle } with
    interpreter :=
      { s.interpreter with
        bootstrap := { s.interpreter.bootstrap with live := live }
        metrics := s.interpreter.metrics.recordOpt note }
    answer := some a
    deed := s.ownDeed none }

inductive Spawns (s : System) (w : Worker) (host : Host) (name : Option String) :
    Spawn → Course → Change → Prop
  | reserve (r : Course)
      (room : ∀ l, s.interpreter.bootstrap.limit = some l → s.interpreter.bootstrap.live < l) :
    Spawns s w host name .reserve r
      { s.onward w name (s.interpreter.bootstrap.live + 1) .takeIdent
          { r with
            found := s.interpreter.bootstrap.live, era := s.ledger.resets, reserved := 1 } with
        mark := .reserved }
  | full (r : Course) (l : ℕ) (hl : s.interpreter.bootstrap.limit = some l)
      (hfull : l ≤ s.interpreter.bootstrap.live) :
    Spawns s w host name .reserve r
      (s.onward w name s.interpreter.bootstrap.live (.recordFailure (.limitReached l))
        { r with found := s.interpreter.bootstrap.live, era := s.ledger.resets, reserved := 0 })
  | takeIdent (r : Course) :
    Spawns s w host name .takeIdent r
      { s.onward w name s.interpreter.bootstrap.live (.launch s.idents.take.1) r with
        idents := s.idents.take.2 }
  | badName (i : Ident) (r : Course) (p : Panic) (hp : Spawn.nameFault? name = some p) :
    Spawns s w host name (.launch i) r
      (s.onward w name s.interpreter.bootstrap.live (.abandon (.error p))
        { r with launched := none })
  | refuse (i : Ident) (r : Course) (e : SystemError) (hn : Spawn.nameFault? name = none)
      (he : host.refusal? s.interpreter.bootstrap.stackSize = some e) :
    Spawns s w host name (.launch i) r
      (s.onward w name s.interpreter.bootstrap.live (.abandon (.ok (.refused e.message)))
        { r with launched := none })
  | launch (i : Ident) (r : Course) (hn : Spawn.nameFault? name = none)
      (he : host.refusal? s.interpreter.bootstrap.stackSize = none) :
    Spawns s w host name (.launch i) r
      { s.onward w name s.interpreter.bootstrap.live (.recordSpawned i)
          { r with launched := some s.workers.length } with
        started := some { ident := i, stage := .wrapper r.era .install } }
  | unwind (p : Panic) (r : Course) :
    Spawns s w host name (.abandon (.error p)) r
      { s.answered w (s.interpreter.bootstrap.live - 1) none
          ⟨{ r with
             returned := s.interpreter.bootstrap.live - (s.interpreter.bootstrap.live - 1) },
            .error p⟩ with
        mark := .dropped r.era }
  | abandon (e : ThreadError) (r : Course) :
    Spawns s w host name (.abandon (.ok e)) r
      { s.onward w name (s.interpreter.bootstrap.live - 1) (.recordFailure e)
          { r with
            returned :=
              s.interpreter.bootstrap.live - (s.interpreter.bootstrap.live - 1) } with
        mark := .dropped r.era }
  | recordFailure (e : ThreadError) (r : Course) :
    Spawns s w host name (.recordFailure e) r
      (s.answered w s.interpreter.bootstrap.live (some .spawnFailure) ⟨r, .ok (.error e)⟩)
  | recordSpawned (i : Ident) (r : Course) :
    Spawns s w host name (.recordSpawned i) r
      (s.answered w s.interpreter.bootstrap.live (some .threadSpawned) ⟨r, .ok (.ok i)⟩)

theorem spawns_stepSpawn (s : System) (w : Worker) (host : Host) (name : Option String) (c : Spawn)
    (r : Course) : Spawns s w host name c r (s.stepSpawn w host name c r) := by
  cases c with
  | reserve =>
    cases hl : s.interpreter.bootstrap.limit with
    | none =>
      have hstep : Spawn.step host name s.nursery .reserve =
          ⟨{ s.nursery with bootstrap.live := s.nursery.bootstrap.live + 1 },
            .going .takeIdent, none⟩ := by
        simp only [Spawn.step, System.nursery, hl]
      simp only [System.stepSpawn, Spawn.course, hstep, Nat.add_sub_cancel_left]
      exact .reserve r (by simp [hl])
    | some l =>
      by_cases hlt : s.interpreter.bootstrap.live < l
      · have hstep : Spawn.step host name s.nursery .reserve =
            ⟨{ s.nursery with bootstrap.live := s.nursery.bootstrap.live + 1 },
              .going .takeIdent, none⟩ := by
          simp only [Spawn.step, System.nursery, hl, if_pos hlt]
        simp only [System.stepSpawn, Spawn.course, hstep, Nat.add_sub_cancel_left]
        exact .reserve r (by simp [hl, hlt])
      · have hstep : Spawn.step host name s.nursery .reserve =
            ⟨s.nursery, .going (.recordFailure (.limitReached l)), none⟩ := by
          simp only [Spawn.step, System.nursery, hl, if_neg hlt]
        simp only [System.stepSpawn, Spawn.course, hstep, Nat.sub_self]
        exact .full r l hl (Nat.not_lt.mp hlt)
  | takeIdent => exact .takeIdent r
  | launch i =>
    cases hn : Spawn.nameFault? name with
    | some p =>
      simp only [System.stepSpawn, Spawn.course, Spawn.step, Spawn.launches?, hn]
      exact .badName i r p hn
    | none =>
      cases he : host.refusal? s.interpreter.bootstrap.stackSize with
      | some e =>
        simp only [System.stepSpawn, Spawn.course, Spawn.step, Spawn.launches?, System.nursery,
          hn, he]
        exact .refuse i r e hn he
      | none =>
        simp only [System.stepSpawn, Spawn.course, Spawn.step, Spawn.launches?, System.nursery,
          hn, he]
        exact .launch i r hn he
  | abandon cause =>
    cases cause with
    | error p => exact .unwind p r
    | ok e => exact .abandon e r
  | recordFailure e => exact .recordFailure e r
  | recordSpawned i => exact .recordSpawned i r

inductive Changes (s : System) (w : Worker) : Change → Prop
  | begin (a : Activity) (ho : w.stage.isOpen = true) (hd : w.doing = .idle) (ha : a.Fresh) :
    Changes s w (s.doing w a)
  | hook (c : HookCall) (ho : w.stage.isOpen = true) (hd : w.doing = .idle) :
    Changes s w (s.callHook w c)
  | resize (size : ℕ) (ho : w.stage.isOpen = true) (hd : w.doing = .idle) :
    Changes s w (s.resize w size)
  | reset (ho : w.stage.isOpen = true) (hd : w.doing = .idle) : Changes s w (s.resetCount w)
  | call (t : Turn) (c : Interpreter.Call) (ho : w.stage.isOpen = true) (ht : t.me = w.ident)
      (hd : w.doing = .call c) :
    Changes s w (s.stepCall w t c)
  | spawn (host : Host) (name : Option String) (c : Spawn) (r : Course) (ch : Change)
      (ho : w.stage.isOpen = true) (hd : w.doing = .spawn name c r)
      (h : Spawns s w host name c r ch) :
    Changes s w ch
  | endEntry (era : ℕ) (ending : Option Panic) (hs : w.stage = .wrapper era .entry)
      (hd : w.doing = .idle) :
    Changes s w (s.endEntry w era ending)
  | wrapper (era : ℕ) (c : Wrapper) (hs : w.stage = .wrapper era c) (hc : c ≠ .entry) :
    Changes s w (s.stepWrapper w era c)

section

variable {s : System} {w : Worker} {ch : Change}

theorem Changes.limit (h : Changes s w ch) :
    ch.interpreter.bootstrap.limit = s.interpreter.bootstrap.limit := by
  cases h with
  | resize size => exact resized_limit _ size
  | call t c =>
    simp only [System.stepCall, Interpreter.Call.step_bootstrap]
    split
    · rfl
    · exact tell_limit ..
  | spawn host name c r ch ho hd hs => cases hs <;> rfl
  | wrapper era c => exact (c.step_settings w.ident s.interpreter.bootstrap).1
  | _ => rfl

theorem Changes.attached (h : Changes s w ch) :
    ch.interpreter.bootstrap.collector.isSome = s.attached := by
  cases h with
  | hook c => exact hear_attached _ w.ident c
  | resize size => exact congrArg Option.isSome (resized_collector _ size)
  | call t c => exact c.step_attached
  | spawn host name c r ch ho hd hs => cases hs <;> rfl
  | wrapper era c =>
    have hc := (c.step_settings w.ident s.interpreter.bootstrap).2
    exact (congrArg Option.isSome hc).trans (tell_attached ..)
  | _ => rfl

theorem Changes.ident (h : Changes s w ch) : ch.worker.ident = w.ident := by
  cases h with
  | spawn host name c r ch ho hd hs => cases hs <;> rfl
  | _ => rfl

theorem Changes.isPlain (h : Changes s w ch) : ch.worker.stage.isPlain = w.stage.isPlain := by
  cases h with
  | spawn host name c r ch ho hd hs => cases hs <;> rfl
  | endEntry era ending hs hd =>
    rw [hs]
    rfl
  | wrapper era c hs hc =>
    rw [hs]
    simp only [System.stepWrapper, System.still]
    cases (c.step w.ident s.interpreter.bootstrap).progress.next? <;> rfl
  | _ => rfl

end

inductive Acts (s : System) : System → Prop
  | still : Acts s s
  | arrive (i : Ident) : Acts s { s with workers := s.workers ++ [{ ident := i }] }
  | rouse (i : Ident) : Acts s (s.rouse i)
  | change (n : ℕ) (w : Worker) (ch : Change) (hn : s.workers[n]? = some w) (h : Changes s w ch) :
    Acts s (s.commit n ch)

namespace System

variable {s s' : System} {w : Worker} {ch : Change} {n : ℕ}

theorem changes_of_own? {next : Next} (ho : w.stage.isOpen = true)
    (h : s.own? w next = some ch) : Changes s w ch := by
  unfold own? at h
  split at h
  case h_1 op hd =>
    cases h
    exact .begin _ ho hd (.call _)
  case h_2 name hd =>
    cases h
    exact .begin _ ho hd (.spawn name)
  case h_3 c hd =>
    cases h
    exact .hook c ho hd
  case h_4 size hd =>
    cases h
    exact .resize size ho hd
  case h_5 hd =>
    cases h
    exact .reset ho hd
  case h_6 c _ now pick hd =>
    cases h
    exact .call _ c ho rfl hd
  case h_7 name c r host _ _ hd =>
    cases h
    exact .spawn host name c r _ ho hd (spawns_stepSpawn s w host name c r)
  case h_8 => cases h

theorem changes_of_change? {next : Next} (h : s.change? w next = some ch) : Changes s w ch := by
  unfold change? at h
  split at h
  case h_1 => cases h
  case h_2 hs => exact changes_of_own? (by rw [hs]; rfl) h
  case h_3 era ending hs =>
    split at h
    · rename_i hd
      cases h
      exact .endEntry era ending hs hd
    · cases h
  case h_4 hs _ => exact changes_of_own? (by rw [hs]; rfl) h
  case h_5 era c _ _ _ hc hs =>
    cases h
    exact .wrapper era c hs hc
  case h_6 => cases h

/-- A thread that can do what it is to do does it, and otherwise nothing is done. -/
theorem act_thread (s : System) (n : ℕ) (next : Next) :
    s.act (.thread n next) = s ∨ ∃ w ch, s.workers[n]? = some w ∧ s.change? w next = some ch ∧
      s.act (.thread n next) = s.commit n ch := by
  cases hn : s.workers[n]? with
  | none =>
    left
    simp only [act, hn, Option.bind_none]
  | some w =>
    cases hch : s.change? w next with
    | none =>
      left
      simp only [act, hn, Option.bind_some, hch]
    | some ch =>
      refine .inr ⟨w, ch, rfl, hch, ?_⟩
      simp only [act, hn, Option.bind_some, hch]

theorem act_cases (s : System) (a : Action) : Acts s (s.act a) := by
  cases a with
  | arrive i => exact .arrive i
  | rouse i => exact .rouse i
  | thread n next =>
    rcases s.act_thread n next with h | ⟨w, ch, hn, hch, h⟩ <;> rw [h]
    · exact .still
    · exact .change n w ch hn (changes_of_change? hch)

theorem run_keeps {P : System → Prop} (keep : ∀ s s', P s → Acts s s' → P s') (hs : P s)
    (acts : List Action) : P (s.run acts) :=
  Run.lasts (fun s a h => keep s (s.act a) h (s.act_cases a)) acts s hs

theorem commit_workers_self (hn : s.workers[n]? = some w) :
    (s.commit n ch).workers[n]? = some ch.worker :=
  getElem?_set_append_self ch.started hn

theorem commit_workers_of_ne {m : ℕ} {v : Worker} (hm : m ≠ n) (hv : s.workers[m]? = some v) :
    (s.commit n ch).workers[m]? = some v :=
  getElem?_set_append_of_ne ch.started hm hv

theorem commit_workers_fresh {v : Worker} (hv : ch.started = some v) :
    (s.commit n ch).workers[s.workers.length]? = some v :=
  getElem?_set_append_length hv

theorem commit_workers_cases {m : ℕ} {v : Worker} (hn : s.workers[n]? = some w)
    (hv : (s.commit n ch).workers[m]? = some v) :
    m = n ∧ v = ch.worker ∨ m ≠ n ∧ s.workers[m]? = some v ∨
      m = s.workers.length ∧ ch.started = some v :=
  getElem?_set_append_cases hn hv

theorem arrive_workers_cases {i : Ident} {m : ℕ} {v : Worker}
    (hv : (s.workers ++ [{ ident := i }])[m]? = some v) :
    s.workers[m]? = some v ∨ m = s.workers.length ∧ v = { ident := i } := by
  rcases getElem?_append_toList_cases (b := some ({ ident := i } : Worker)) hv with hold | ⟨hlast, hnew⟩
  · exact .inl hold
  · exact .inr ⟨hlast, (Option.some_inj.mp hnew).symm⟩

/-- What holds of every thread holds of it still if it holds of the one that has acted, of the one
that was started, and of those that arrive. -/
theorem forall_workers_act {P : Worker → Prop}
    (hs : ∀ (n : ℕ) (w : Worker), s.workers[n]? = some w → P w) (harrive : ∀ i, P { ident := i })
    (hchange : ∀ (n : ℕ) (w : Worker) (ch : Change), s.workers[n]? = some w → Changes s w ch →
      s' = s.commit n ch → P ch.worker ∧ ∀ v, ch.started = some v → P v)
    (h : Acts s s') : ∀ (n : ℕ) (w : Worker), s'.workers[n]? = some w → P w := by
  intro m v hv
  cases h with
  | still => exact hs m v hv
  | rouse i => exact hs m v hv
  | arrive i =>
    rcases arrive_workers_cases hv with hold | ⟨-, rfl⟩
    · exact hs m v hold
    · exact harrive i
  | change n w ch hn h =>
    obtain ⟨hw, hst⟩ := hchange n w ch hn h rfl
    rcases commit_workers_cases hn hv with ⟨-, rfl⟩ | ⟨-, hold⟩ | ⟨-, hnew⟩
    · exact hw
    · exact hs m v hold
    · exact hst v hnew

def Entered (s : System) : Prop :=
  ∀ (n : ℕ) (w : Worker), s.workers[n]? = some w → w.doing ≠ .idle → w.stage.isOpen = true

theorem Entered.act (hs : s.Entered) (h : Acts s s') : s'.Entered := by
  refine forall_workers_act (P := fun w => w.doing ≠ .idle → w.stage.isOpen = true) hs
    (fun _ _ => rfl) (fun n w ch hn h _ => ?_) h
  cases h with
  | begin a ho hd ha => exact ⟨fun _ => ho, fun _ hv => nomatch hv⟩
  | hook c ho hd => exact ⟨fun _ => ho, fun _ hv => nomatch hv⟩
  | resize size ho hd => exact ⟨fun _ => ho, fun _ hv => nomatch hv⟩
  | reset ho hd => exact ⟨fun _ => ho, fun _ hv => nomatch hv⟩
  | call t c ho ht hd => exact ⟨fun _ => ho, fun _ hv => nomatch hv⟩
  | spawn host name c r ch ho hd h =>
    cases h with
    | launch i _ hn he =>
      refine ⟨fun _ => ho, fun v hv hne => ?_⟩
      cases hv
      exact absurd rfl hne
    | _ => exact ⟨fun _ => ho, fun _ hv => nomatch hv⟩
  | endEntry era ending hstage hd => exact ⟨fun hne => absurd hd hne, fun _ hv => nomatch hv⟩
  | wrapper era c hstage hc =>
    refine ⟨fun hne => ?_, fun _ hv => nomatch hv⟩
    have hopen := hs n w hn hne
    rw [hstage] at hopen
    cases c with
    | entry => exact absurd rfl hc
    | _ => cases hopen

theorem entered_run (r : Interpreter) (acts : List Action) : ((start r).run acts).Entered := by
  refine run_keeps (fun _ _ hs h => Entered.act hs h) ?_ acts
  intro n w hn
  simp [start] at hn

/-- A thread in its entry does things of its own, until it ends the entry. -/
theorem change?_of_isOpen {next : Next} (ho : w.stage.isOpen = true)
    (hnext : ∀ ending, next ≠ .finish ending) : s.change? w next = s.own? w next := by
  cases hs : w.stage with
  | plain => simp only [change?, hs]
  | gone =>
    rw [hs] at ho
    cases ho
  | wrapper era c =>
    rw [hs] at ho
    cases c with
    | entry =>
      cases next with
      | finish ending => exact absurd rfl (hnext ending)
      | _ => simp only [change?, hs]
    | _ => cases ho

/-- The step of a thread that is in a spawn is a step of that spawn. -/
theorem act_spawn {host : Host} {now : Instant} {pick : ℕ} {name : Option String} {c : Spawn}
    {r : Course} (hn : s.workers[n]? = some w) (ho : w.stage.isOpen = true)
    (hd : w.doing = .spawn name c r) :
    s.act (.thread n (.step host now pick)) = s.commit n (s.stepSpawn w host name c r) := by
  have hchange : s.change? w (.step host now pick) = some (s.stepSpawn w host name c r) := by
    rw [change?_of_isOpen ho fun _ => Next.noConfusion]
    simp only [own?, hd]
  simp only [act, hn, Option.bind_some, hchange]

/-- The step of a thread outside of its entry is one of its wrapper. -/
theorem act_wrapper {host : Host} {now : Instant} {pick era : ℕ} {c : Wrapper}
    (hn : s.workers[n]? = some w) (hs : w.stage = .wrapper era c) (hc : c ≠ .entry) :
    s.act (.thread n (.step host now pick)) = s.commit n (s.stepWrapper w era c) := by
  have hchange : s.change? w (.step host now pick) = some (s.stepWrapper w era c) := by
    cases c with
    | entry => exact absurd rfl hc
    | _ => simp only [change?, hs]
  simp only [act, hn, Option.bind_some, hchange]

end System

/-- Of the bootstrap a spawn changes the count alone. -/
theorem Spawns.settings {s : System} {w : Worker} {ch : Change} {host : Host}
    {name : Option String} {c : Spawn} {r : Course} (h : Spawns s w host name c r ch) :
    ch.interpreter.bootstrap.stackSize = s.interpreter.bootstrap.stackSize ∧
      ch.interpreter.bootstrap.collector = s.interpreter.bootstrap.collector := by
  cases h <;> exact ⟨rfl, rfl⟩

def System.tally (f : Worker → ℕ) (s : System) : ℕ := (s.workers.map f).sum

def Change.tally (f : Worker → ℕ) (ch : Change) : ℕ := f ch.worker + (ch.started.toList.map f).sum

namespace System

variable {s : System} {w : Worker} {ch : Change} {n : ℕ} {f : Worker → ℕ}

theorem tally_commit (f : Worker → ℕ) (hn : s.workers[n]? = some w) :
    (s.commit n ch).tally f + f w = s.tally f + ch.tally f := by
  have hset := sum_map_set f s.workers ch.worker hn
  simp only [tally, commit, Change.tally, List.map_append, List.sum_append]
  omega

theorem tally_arrive (f : Worker → ℕ) (s : System) (i : Ident) :
    tally f { s with workers := s.workers ++ [{ ident := i }] } =
      s.tally f + f { ident := i } := by
  simp [tally]

theorem le_tally (f : Worker → ℕ) (hn : s.workers[n]? = some w) : f w ≤ s.tally f :=
  List.single_le_sum (fun _ _ => Nat.zero_le _) _
    (List.mem_map_of_mem (List.mem_of_getElem? hn))

theorem tally_le_tally {f g : Worker → ℕ} (h : ∀ w ∈ s.workers, f w ≤ g w) :
    s.tally f ≤ s.tally g := by
  apply List.sum_le_sum
  exact h

theorem tally_add (f g : Worker → ℕ) (s : System) :
    s.tally (fun w => f w + g w) = s.tally f + s.tally g :=
  List.sum_map_add

theorem tally_congr {f g : Worker → ℕ} (h : ∀ w ∈ s.workers, f w = g w) :
    s.tally f = s.tally g := by
  simp only [tally, List.map_congr_left h]

end System

end Bootstrap

end InterpreterLock
