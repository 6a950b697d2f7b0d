import InterpreterLock.Proofs.Bootstrap.Slots

/-!
# The course of a spawn

What holds of every spawn, from its first step to its answer: a thread that it has started is there,
with the ident it was promised, and one that fails starts none. As long as there was no reset, a
spawn has reserved one slot if it found room and none otherwise, and a failed one has given back
what it reserved.
-/

set_option autoImplicit false

namespace InterpreterLock

namespace Bootstrap

def Change.Leaves (P : Spawn → Course → Prop) (Q : Answer → Prop) (ch : Change) : Prop :=
  (∀ name c r, ch.worker.doing = .spawn name c r → P c r) ∧ ∀ a, ch.answer = some a → Q a

theorem Change.leaves_going {P : Spawn → Course → Prop} {Q : Answer → Prop} {ch : Change}
    {name : Option String} {c : Spawn} {r : Course} (hd : ch.worker.doing = .spawn name c r)
    (ha : ch.answer = none) (hp : P c r) : ch.Leaves P Q := by
  constructor
  · intro name' c' r' hd'
    cases hd.symm.trans hd'
    exact hp
  · intro a ha'
    cases ha.symm.trans ha'

theorem Change.leaves_answer {P : Spawn → Course → Prop} {Q : Answer → Prop} {ch : Change}
    {a : Answer} (hd : ch.worker.doing = .idle) (ha : ch.answer = some a) (hq : Q a) :
    ch.Leaves P Q := by
  constructor
  · intro name c r hd'
    cases hd.symm.trans hd'
  · intro a' ha'
    cases ha.symm.trans ha'
    exact hq

namespace System

variable {s s' : System} {w : Worker} {ch : Change} {n : ℕ}

structure Each (P : Spawn → Course → Prop) (Q : Answer → Prop) (s : System) : Prop where
  going : ∀ (n : ℕ) (w : Worker) (name : Option String) (c : Spawn) (r : Course),
    s.workers[n]? = some w → w.doing = .spawn name c r → P c r
  ended : ∀ a ∈ s.answers, Q a

/-- A change is a step of a spawn, or none has gone on by it. -/
theorem spawns_or_of_changes (h : Changes s w ch) :
    (∃ host name c r, w.doing = .spawn name c r ∧ Spawns s w host name c r ch) ∨
      ch.answer = none ∧ ch.started = none ∧
        ∀ name c r, ch.worker.doing = .spawn name c r →
          w.doing = .spawn name c r ∨ c = .reserve ∧ r = {} := by
  cases h with
  | spawn host name c r ch ho hd h => exact .inl ⟨host, name, c, r, hd, h⟩
  | begin a ho hd ha =>
    refine .inr ⟨rfl, rfl, fun name c r hc => .inr ?_⟩
    cases ha with
    | call c => cases hc
    | spawn name =>
      cases hc
      exact ⟨rfl, rfl⟩
  | call t c ho ht hd =>
    refine .inr ⟨rfl, rfl, fun name c' r hc => ?_⟩
    simp only [stepCall, still] at hc
    cases hnext : (c.step t s.interpreter).2.next? <;> rw [hnext] at hc <;> cases hc
  | _ => exact .inr ⟨rfl, rfl, fun _ _ _ hc => .inl hc⟩

variable {P P' : Spawn → Course → Prop} {Q Q' : Answer → Prop}

theorem Each.imp (hs : s.Each P Q) (hP : ∀ c r, P c r → P' c r) (hQ : ∀ a, Q a → Q' a) :
    s.Each P' Q' :=
  ⟨fun n w name c r hn hd => hP c r (hs.going n w name c r hn hd), fun a ha => hQ a (hs.ended a ha)⟩

theorem Each.act (hs : s.Each P Q) (h : Acts s s') (hfresh : P .reserve {})
    (hstep : ∀ n w host name c r ch, s.workers[n]? = some w → w.doing = .spawn name c r →
      Spawns s w host name c r ch → s' = s.commit n ch → ch.Leaves P Q) :
    s'.Each P Q := by
  have hnew (n : ℕ) (w : Worker) (ch : Change) (hn : s.workers[n]? = some w)
      (h : Changes s w ch) (hs' : s' = s.commit n ch) : ch.Leaves P Q := by
    rcases spawns_or_of_changes h with ⟨host, name, c, r, hd, hsp⟩ | ⟨ha, -, hold⟩
    · exact hstep n w host name c r ch hn hd hsp hs'
    · refine ⟨fun name c r hc => ?_, fun a hq => by simp [ha] at hq⟩
      rcases hold name c r hc with hd | ⟨rfl, rfl⟩
      · exact hs.going n w name c r hn hd
      · exact hfresh
  constructor
  · have hall := forall_workers_act
      (P := fun w => ∀ name c r, w.doing = .spawn name c r → P c r)
      (fun n w hn name c r => hs.going n w name c r hn) (fun _ _ _ _ hd => by cases hd)
      (fun n w ch hn h hs' => ⟨(hnew n w ch hn h hs').1, fun v hv name c r hd => ?_⟩) h
    · exact fun n w name c r hn => hall n w hn name c r
    · -- a thread that was just started is in no spawn
      rcases spawns_or_of_changes h with ⟨_, _, _, _, -, hsp⟩ | ⟨-, hnone, -⟩
      · cases hsp <;> cases hv
        cases hd
      · simp [hnone] at hv
  · cases h with
    | still => exact hs.ended
    | rouse i => exact hs.ended
    | arrive i => exact hs.ended
    | change n w ch hn h =>
      intro a ha
      rcases List.mem_append.mp ha with hnow | hearlier
      · exact (hnew n w ch hn h rfl).2 a (Option.mem_toList.mp hnow)
      · exact hs.ended a hearlier

end System

end Bootstrap

def Spawn.left : Spawn → ℕ
  | .reserve => 5
  | .takeIdent => 4
  | .launch _ => 3
  | .abandon _ => 2
  | .recordFailure _ | .recordSpawned _ => 1

namespace Bootstrap

/-- Each step of a spawn is the last one or leaves it with fewer of them. -/
theorem Spawns.ends {s : System} {w : Worker} {ch : Change} {host : Host} {name : Option String}
    {c : Spawn} {r : Course} (h : Spawns s w host name c r ch) :
    (∃ a, ch.answer = some a) ∨
      ∃ c' r', ch.worker.doing = .spawn name c' r' ∧ c'.left < c.left := by
  cases h with
  | unwind p => exact .inl ⟨_, rfl⟩
  | recordFailure e => exact .inl ⟨_, rfl⟩
  | recordSpawned i => exact .inl ⟨_, rfl⟩
  | _ => exact .inr ⟨_, _, rfl, by simp [Spawn.left]⟩

def Course.HasRoom (limit : Option ℕ) (r : Course) : Prop := ∀ l, limit = some l → r.found < l

def Course.Fails (limit : Option ℕ) (r : Course) : ThreadError → Prop
  | .limitReached l => limit = some l ∧ r.found = l ∧ r.reserved = 0 ∧ r.returned = 0
  | .refused _ => r.HasRoom limit ∧ r.reserved = 1 ∧ r.returned = 1
  | _ => False

def Answer.Accords (limit : Option ℕ) (a : Answer) : Prop :=
  match a.result with
  | .ok (.ok _) => a.course.HasRoom limit ∧ a.course.reserved = 1 ∧ a.course.returned = 0
  | .ok (.error e) => a.course.Fails limit e
  | .error _ => a.course.HasRoom limit ∧ a.course.reserved = 1 ∧ a.course.returned = 1

section

variable {limit : Option ℕ} {a : Answer}

theorem Answer.Accords.exhausted_iff (ha : a.Accords limit) (l : ℕ) :
    a.result = .ok (.error (.limitReached l)) ↔ limit = some l ∧ a.course.found = l := by
  obtain ⟨r, result⟩ := a
  constructor
  · rintro rfl
    exact ⟨ha.1, ha.2.1⟩
  · rintro ⟨hl, hfound⟩
    -- any other answer means that there was room
    have hroom (h : r.HasRoom limit) : False := Nat.lt_irrefl l (hfound ▸ h l hl)
    match result, ha with
    | .ok (.ok i), ha => exact (hroom ha.1).elim
    | .error p, ha => exact (hroom ha.1).elim
    | .ok (.error (.refused _)), ha => exact (hroom ha.1).elim
    | .ok (.error (.limitReached l')), ha =>
      have hl' : l' = l := ha.2.1.symm.trans hfound
      rw [hl']
    | .ok (.error (.badStackSize ..)), ha => exact False.elim ha
    | .ok (.error .notLocked), ha => exact False.elim ha

theorem Answer.Accords.error_cases (ha : a.Accords limit) {e : ThreadError}
    (he : a.result = .ok (.error e)) : (∃ l, e = .limitReached l) ∨ ∃ reason, e = .refused reason := by
  rw [Answer.Accords, he] at ha
  cases e with
  | limitReached l => exact .inl ⟨l, rfl⟩
  | refused reason => exact .inr ⟨reason, rfl⟩
  | _ => exact False.elim ha

end

def Course.Accords (limit : Option ℕ) : Spawn → Course → Prop
  | .reserve, r => r.reserved = 0 ∧ r.returned = 0
  | .takeIdent, r | .launch _, r | .recordSpawned _, r =>
    r.HasRoom limit ∧ r.reserved = 1 ∧ r.returned = 0
  | .abandon cause, r =>
    (r.HasRoom limit ∧ r.reserved = 1 ∧ r.returned = 0) ∧
      ∀ e, cause = .ok e → ∃ reason, e = .refused reason
  | .recordFailure e, r => r.Fails limit e

section

variable {s : System} {w : Worker} {ch : Change} {host : Host} {name : Option String} {c : Spawn}
  {r : Course} {limit : Option ℕ}

theorem Spawns.accords (h : Spawns s w host name c r ch)
    (hsetting : s.interpreter.bootstrap.limit = limit)
    (hbound : ∀ l, limit = some l → s.interpreter.bootstrap.live ≤ l)
    (hlive : c.holds = true → 0 < s.interpreter.bootstrap.live) (hr : r.Accords limit c) :
    ch.Leaves (fun c r => r.Accords limit c) fun a => a.Accords limit := by
  cases h with
  | reserve _ room =>
    have hroom : ∀ l, limit = some l → s.interpreter.bootstrap.live < l :=
      fun l hl => room l (hsetting.trans hl)
    exact Change.leaves_going rfl rfl ⟨hroom, rfl, hr.2⟩
  | full _ l hl hfull =>
    have hlimit : limit = some l := hsetting.symm.trans hl
    have hfound : s.interpreter.bootstrap.live = l := Nat.le_antisymm (hbound l hlimit) hfull
    exact Change.leaves_going rfl rfl ⟨hlimit, hfound, rfl, hr.2⟩
  | takeIdent => exact Change.leaves_going rfl rfl hr
  | badName i _ p hp => exact Change.leaves_going rfl rfl ⟨hr, fun e he => by cases he⟩
  | refuse i _ e hn he =>
    refine Change.leaves_going rfl rfl ⟨hr, fun e' he' => ?_⟩
    cases he'
    exact ⟨_, rfl⟩
  | launch i _ hn he => exact Change.leaves_going rfl rfl hr
  | unwind p =>
    obtain ⟨⟨hroom, hres, -⟩, -⟩ := hr
    exact Change.leaves_answer rfl rfl ⟨hroom, hres, Nat.sub_sub_self (hlive rfl)⟩
  | abandon e =>
    obtain ⟨⟨hroom, hres, -⟩, hcause⟩ := hr
    obtain ⟨reason, rfl⟩ := hcause e rfl
    exact Change.leaves_going rfl rfl ⟨hroom, hres, Nat.sub_sub_self (hlive rfl)⟩
  | recordFailure e => exact Change.leaves_answer rfl rfl hr
  | recordSpawned i => exact Change.leaves_answer rfl rfl hr

end

namespace System

def Started (s : System) (k : ℕ) (i : Ident) : Prop :=
  ∃ v, s.workers[k]? = some v ∧ v.ident = i ∧ v.stage.isPlain = false

theorem Started.act {s s' : System} {k : ℕ} {i : Ident} (hk : s.Started k i) (h : Acts s s') :
    s'.Started k i := by
  obtain ⟨v, hv, hi, hp⟩ := hk
  cases h with
  | still => exact ⟨v, hv, hi, hp⟩
  | rouse j => exact ⟨v, hv, hi, hp⟩
  | arrive j =>
    have hlt : k < s.workers.length := (List.getElem?_eq_some_iff.mp hv).1
    exact ⟨v, (List.getElem?_append_left hlt).trans hv, hi, hp⟩
  | change n w ch hn h =>
    by_cases hkn : k = n
    · subst hkn
      obtain rfl : w = v := Option.some_inj.mp (hn.symm.trans hv)
      exact ⟨ch.worker, commit_workers_self hn, h.ident.trans hi, h.isPlain.trans hp⟩
    · exact ⟨v, commit_workers_of_ne hkn hv, hi, hp⟩

end System

def Course.Started (s : System) : Spawn → Course → Prop
  | .recordSpawned i, r => ∃ k, r.launched = some k ∧ s.Started k i
  | _, r => r.launched = none

def Answer.Started (s : System) (a : Answer) : Prop :=
  match a.result with
  | .ok (.ok i) => ∃ k, a.course.launched = some k ∧ s.Started k i
  | _ => a.course.launched = none

theorem Course.Started.act {s s' : System} {c : Spawn} {r : Course} (hr : r.Started s c)
    (h : Acts s s') : r.Started s' c := by
  cases c with
  | recordSpawned i =>
    obtain ⟨k, hk, hs⟩ := hr
    exact ⟨k, hk, hs.act h⟩
  | _ => exact hr

theorem Answer.Started.act {s s' : System} {a : Answer} (ha : a.Started s) (h : Acts s s') :
    a.Started s' := by
  obtain ⟨r, result⟩ := a
  match result with
  | .ok (.ok i) =>
    obtain ⟨k, hk, hs⟩ := ha
    exact ⟨k, hk, hs.act h⟩
  | .ok (.error e) => exact ha
  | .error p => exact ha

theorem Spawns.started {s : System} {w : Worker} {ch : Change} {host : Host}
    {name : Option String} {c : Spawn} {r : Course} {n : ℕ} (h : Spawns s w host name c r ch)
    (hr : r.Started (s.commit n ch) c) :
    ch.Leaves (fun c r => r.Started (s.commit n ch) c) fun a => a.Started (s.commit n ch) := by
  cases h with
  | launch i _ hn he =>
    exact Change.leaves_going rfl rfl ⟨_, rfl, _, System.commit_workers_fresh rfl, rfl, rfl⟩
  | badName i _ p hp => exact Change.leaves_going rfl rfl rfl
  | refuse i _ e hn he => exact Change.leaves_going rfl rfl rfl
  | unwind p => exact Change.leaves_answer rfl rfl hr
  | recordFailure e => exact Change.leaves_answer rfl rfl hr
  | recordSpawned i => exact Change.leaves_answer rfl rfl hr
  | _ => exact Change.leaves_going rfl rfl hr

def System.Starts (s : System) : Prop := s.Each (fun c r => r.Started s c) fun a => a.Started s

theorem System.Starts.act {s s' : System} (hs : s.Starts) (h : Acts s s') : s'.Starts := by
  have hlater : s.Each (fun c r => r.Started s' c) fun a => a.Started s' :=
    Each.imp hs (fun c r hr => Course.Started.act hr h) fun a ha => Answer.Started.act ha h
  refine hlater.act h rfl fun n w host name c r ch hn hd hsp hs' => ?_
  subst hs'
  exact hsp.started (hlater.going n w name c r hn hd)

end Bootstrap

end InterpreterLock
