import InterpreterLock.Proofs.Census.System
import InterpreterLock.Proofs.Sums

/-!
# What an action does to the threads

A thread makes one of five changes, and an action commits a change, lets a thread arrive, or does
nothing. No change takes from a thread what it remembers of its ident, or moves it to another
origin. What a spawn has used always fits the place it has come to.
-/

set_option autoImplicit false

namespace InterpreterLock

def IdentSource.HandsOut (before : IdentSource) (i : Option Ident) (after : IdentSource) : Prop :=
  match i with
  | none => after = before
  | some i => i = before.take.1 ∧ after = before.take.2

namespace Census.Used

def Fits (u : Used) : Except Panic (Except ThreadError Ident) → Prop
  | .ok (.ok i) => ∃ k, u = ⟨some i, some k⟩
  | .ok (.error (.limitReached _)) => u = {}
  | _ => ∃ i, u = ⟨some i, none⟩

end Census.Used

namespace Spawn

open Census

def Accords (u : Used) : Spawn → Prop
  | .reserve | .takeIdent => u = {}
  | .launch i => u = ⟨some i, none⟩
  | .abandon cause => u.Fits (cause.map .error)
  | .recordFailure e => u.Fits (.ok (.error e))
  | .recordSpawned i => u.Fits (.ok (.ok i))

variable (host : Host) (name : Option String) (n : Nursery)

theorem step_handsOut (c : Spawn) :
    n.idents.HandsOut (c.takes? n) (c.step host name n).state.idents := by
  cases c with
  | reserve =>
    simp only [step, takes?, IdentSource.HandsOut]
    split
    · rfl
    · split <;> rfl
  | takeIdent => exact ⟨rfl, rfl⟩
  | launch i =>
    simp only [step, takes?, IdentSource.HandsOut]
    split
    · rfl
    · split <;> rfl
  | abandon cause => cases cause <;> rfl
  | _ => rfl

theorem step_collector (c : Spawn) :
    (c.step host name n).state.bootstrap.collector = n.bootstrap.collector := by
  cases c with
  | reserve =>
    simp only [step]
    split
    · rfl
    · split <;> rfl
  | launch i =>
    simp only [step]
    split
    · rfl
    · split <;> rfl
  | abandon cause => cases cause <;> rfl
  | _ => rfl

theorem step_accords (fresh : ℕ) {u : Used} {c : Spawn} (h : c.Accords u) :
    (c.step host name n).progress.Meets (Accords (c.use host name n fresh u))
      (fun r => (c.use host name n fresh u).Fits (.ok r))
      (fun p => (c.use host name n fresh u).Fits (.error p)) := by
  cases c with
  | reserve =>
    simp only [step]
    split
    · exact h
    · split <;> exact h
  | takeIdent =>
    obtain rfl : u = {} := h
    rfl
  | launch i =>
    obtain rfl : u = ⟨some i, none⟩ := h
    simp only [step, use, launches?]
    cases nameFault? name with
    | some p => exact ⟨i, rfl⟩
    | none =>
      cases host.refusal? n.bootstrap.stackSize with
      | some e => exact ⟨i, rfl⟩
      | none => exact ⟨fresh, rfl⟩
  | abandon cause => cases cause <;> exact h
  | recordFailure e => exact h
  | recordSpawned i => exact h

end Spawn

theorem Wrapper.step_heard (me : Ident) (b : Bootstrap) (c : Wrapper) :
    (c.step me b).state.collector.map Collector.heard =
      b.collector.map fun k => (c.hook? me).toList ++ k.heard := by
  cases c <;> simp [step, hook?, Bootstrap.hear, Bootstrap.giveBack, Collector.hear,
    Function.comp_def]

namespace Census

inductive Changes (s : System) (n : ℕ) (w : Member) : Change → Prop
  | ask (ha : w.stage.asks = true) : Changes s n w (s.ask w)
  | beginSpawn (home : ℕ) (name : Option String) (ho : w.stage.isOpen = true)
      (he : w.errand = none) :
    Changes s n w (s.beginSpawn w home name)
  | stepSpawn (host : Host) (e : Errand) (he : w.errand = some e) :
    Changes s n w (s.stepSpawn w host e)
  | endEntry (home : ℕ) (given : Ident) (ending : Option Panic)
      (hs : w.stage = .spawned home given (some .entry)) (he : w.errand = none) :
    Changes s n w (s.endEntry w home given ending)
  | stepWrapper (home : ℕ) (given : Ident) (c : Wrapper)
      (hs : w.stage = .spawned home given (some c)) (he : w.errand = none) :
    Changes s n w (s.stepWrapper n w home given c)

inductive Acts (s : System) : System → Prop
  | still : Acts s s
  | arrive : Acts s { s with members := s.members ++ [{}] }
  | change (n : ℕ) (w : Member) (ch : Change) (hn : s.members[n]? = some w)
      (h : Changes s n w ch) :
    Acts s (s.commit n ch)

section

variable {s : System} {n : ℕ} {w : Member} {ch : Change}

theorem changes_of_change? {next : Next} (h : s.change? n w next = some ch) :
    Changes s n w ch := by
  cases next with
  | ask =>
    obtain ⟨ha, hch⟩ := Option.ite_none_right_eq_some.mp h
    cases hch
    exact .ask ha
  | spawn home name =>
    obtain ⟨hopen, hch⟩ := Option.ite_none_right_eq_some.mp h
    cases hch
    obtain ⟨ho, he⟩ := (Bool.and_eq_true _ _).mp hopen
    exact .beginSpawn home name ho (Option.isNone_iff_eq_none.mp he)
  | finish ending =>
    simp only [System.change?] at h
    split at h
    · rename_i home given hs he
      cases h
      exact .endEntry home given ending hs he
    · cases h
  | step host =>
    simp only [System.change?] at h
    split at h
    · rename_i e he
      cases h
      exact .stepSpawn host e he
    · rename_i home given c he hs
      cases h
      exact .stepWrapper home given c hs he
    · cases h

theorem act_cases (s : System) (a : Action) : Acts s (s.act a) := by
  cases a with
  | arrive => exact .arrive
  | thread n next =>
    rw [System.act]
    split
    · exact .still
    · rename_i ch hch
      obtain ⟨w, hn, hw⟩ := Option.bind_eq_some_iff.mp hch
      exact .change n w ch hn (changes_of_change? hw)

theorem Changes.handsOut (h : Changes s n w ch) : s.idents.HandsOut ch.handed ch.idents := by
  cases h with
  | ask ha =>
    simp only [System.ask]
    cases w.own with
    | none => exact ⟨rfl, rfl⟩
    | some i => rfl
  | stepSpawn host e he => exact e.place.step_handsOut host e.name _
  | _ => rfl

/-- An ident that is set is kept. -/
theorem Changes.own {i : Ident} (h : Changes s n w ch) (hi : w.own = some i) :
    ch.member.own = some i := by
  cases h with
  | ask ha =>
    simp only [System.ask, hi]
    rfl
  | stepWrapper home given c hs he =>
    simp only [System.stepWrapper, hi]
    cases c <;> rfl
  | _ => exact hi

def Stage.origin? : Stage → Option (ℕ × Ident)
  | .plain => none
  | .spawned home given _ => some (home, given)

theorem Changes.origin (h : Changes s n w ch) : ch.member.stage.origin? = w.stage.origin? := by
  cases h with
  | endEntry home given ending hs he =>
    rw [hs]
    rfl
  | stepWrapper home given c hs he =>
    rw [hs]
    rfl
  | _ => rfl

/-- What a collector has heard is what it had heard and what it is told now. -/
theorem Changes.heard (h : Changes s n w ch) (k : ℕ) :
    (ch.homes k).collector.map Collector.heard =
      (s.homes k).collector.map fun c =>
        (ch.told.toList.filter (·.home = k)).map Told.call ++ c.heard := by
  have hsame : (s.homes k).collector.map Collector.heard =
      (s.homes k).collector.map fun c => ([] : List Told).map Told.call ++ c.heard := by
    simp
  cases h with
  | stepSpawn host e he =>
    by_cases hk : k = e.home
    · subst hk
      simp only [System.stepSpawn, Function.update_self, Spawn.step_collector]
      exact hsame
    · simp only [System.stepSpawn, Function.update_of_ne hk]
      exact hsame
  | stepWrapper home given c hs he =>
    by_cases hk : k = home
    · subst hk
      simp only [System.stepWrapper, Function.update_self, Wrapper.step_heard]
      cases hc : (s.homes k).collector with
      | none => rfl
      | some collector => cases c.hook? given <;> simp
    · have hkh : home ≠ k := Ne.symm hk
      simp only [System.stepWrapper, Function.update_of_ne hk]
      cases (s.homes home).collector with
      | none => exact hsame
      | some collector => cases c.hook? given <;> simp [hkh]
  | _ => exact hsame

end

section

variable {s s' : System} {n m : ℕ} {w v : Member} {ch : Change}

theorem commit_members_self (hn : s.members[n]? = some w) :
    (s.commit n ch).members[n]? = some ch.member :=
  getElem?_set_append_self ch.started hn

theorem commit_members_of_ne (hm : m ≠ n) (hv : s.members[m]? = some v) :
    (s.commit n ch).members[m]? = some v :=
  getElem?_set_append_of_ne ch.started hm hv

theorem commit_members_fresh (hv : ch.started = some v) :
    (s.commit n ch).members[s.members.length]? = some v :=
  getElem?_set_append_length hv

/-- What a change keeps of a thread is kept of every thread that is there. -/
theorem Acts.member {P : Member → Prop} (h : Acts s s')
    (keep : ∀ n w ch, Changes s n w ch → P w → P ch.member)
    (hm : ∃ v, s.members[m]? = some v ∧ P v) : ∃ v, s'.members[m]? = some v ∧ P v := by
  obtain ⟨v, hv, hP⟩ := hm
  cases h with
  | still => exact ⟨v, hv, hP⟩
  | arrive =>
    have hlt : m < s.members.length := (List.getElem?_eq_some_iff.mp hv).1
    exact ⟨v, (List.getElem?_append_left hlt).trans hv, hP⟩
  | change n w ch hn h =>
    by_cases hm : m = n
    · subst hm
      obtain rfl : w = v := Option.some_inj.mp (hn.symm.trans hv)
      exact ⟨ch.member, commit_members_self hn, keep m w ch h hP⟩
    · exact ⟨v, commit_members_of_ne hm hv, hP⟩

theorem forall_members_arrive {P : ℕ → Member → Prop}
    (old : ∀ m v, s.members[m]? = some v → P m v) (new : P s.members.length {}) :
    ∀ m v, (s.members ++ [({} : Member)])[m]? = some v → P m v := by
  intro m v hv
  rcases getElem?_append_toList_cases (b := some ({} : Member)) hv with hold | ⟨rfl, hnew⟩
  · exact old m v hold
  · cases hnew
    exact new

/-- What is so of every thread that is there, and of those that a change leaves and starts, is so of
every thread afterwards. -/
theorem forall_members_commit {P : ℕ → Member → Prop} (hn : s.members[n]? = some w)
    (old : ∀ m v, s.members[m]? = some v → P m v) (own : P n ch.member)
    (started : ∀ v, ch.started = some v → P s.members.length v) :
    ∀ m v, (s.commit n ch).members[m]? = some v → P m v := by
  intro m v hv
  rcases getElem?_set_append_cases hn hv with ⟨rfl, rfl⟩ | ⟨-, hold⟩ | ⟨rfl, hst⟩
  · exact own
  · exact old m v hold
  · exact started v hst

def System.Started (s : System) (k home : ℕ) (i : Ident) : Prop :=
  ∃ w, s.members[k]? = some w ∧ w.stage.origin? = some (home, i)

def System.Owns (s : System) (n : ℕ) (i : Ident) : Prop :=
  ∃ w, s.members[n]? = some w ∧ w.own = some i

theorem System.Started.act {k home : ℕ} {i : Ident} (hk : s.Started k home i) (h : Acts s s') :
    s'.Started k home i :=
  h.member (fun _ _ _ h hw => h.origin.trans hw) hk

theorem System.Owns.act {i : Ident} (hn : s.Owns n i) (h : Acts s s') : s'.Owns n i :=
  h.member (fun _ _ _ h hw => h.own hw) hn

end

end Census

end InterpreterLock
