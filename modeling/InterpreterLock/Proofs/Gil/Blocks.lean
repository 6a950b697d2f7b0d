import InterpreterLock.Proofs.Gil.Custody

/-!
# Blocks without the lock

A holder may run a closure with the lock released. The block begins with a release and ends with an
acquire, which runs whether the closure has returned or unwound. In between the closure acquires,
releases and yields as it likes, and it opens further blocks.

A closure that has ended without the lock gets its caller the lock back. One that has ended with the
lock makes the acquire of the block a violation: if the closure had returned, its value is lost; if
it had unwound, a second panic meets the first and the process ends.
-/

set_option autoImplicit false

namespace InterpreterLock.Gil

structure Closure (V : Type) where
  ending : Except Panic V
  withLock : Bool

inductive Purpose (V : Type)
  | own
  | entering
  | leaving (closure : Closure V)

structure Sight where
  thread : Ident
  gil : Gil

structure Block (V : Type) where
  thread : Ident
  closure : Closure V
  result : Except Panic V
  gil : Gil

/-- A panic while the closure of a block unwound already. -/
structure Abort (V : Type) where
  thread : Ident
  closure : Closure V
  second : Panic

inductive Plain
  | acquire
  | release
  | yield

def Plain.op : Plain → Op
  | .acquire => .acquire
  | .release => .release
  | .yield => .yield

structure Nest (V : Type) where
  system : System
  purpose : Ident → Purpose V := fun _ => .own
  depth : Ident → ℕ := fun _ => 0
  opened : List Sight := []
  refused : List Sight := []
  ended : List (Block V) := []
  aborted : Option (Abort V) := none

namespace Nest

variable {V : Type}

inductive Action (V : Type)
  | call (i : Ident) (plain : Plain)
  | allow (i : Ident)
  | finish (i : Ident) (ending : Except Panic V)
  | step (t : Turn)
  | rouse (i : Ident)

def start (mode : Mode) (backend : Backend) (patience : Duration) : Nest V :=
  { system := .start mode backend patience }

def beginAs (n : Nest V) (i : Ident) (op : Op) (purpose : Purpose V) : Nest V :=
  { n with
    system := n.system.beginCall i op.call
    purpose := Function.update n.purpose i purpose }

def stepCall (n : Nest V) (t : Turn) (c : Call) : Nest V :=
  let system := n.system.stepCall t c
  match n.purpose t.me, (c.step t n.system.gil).progress with
  | .entering, .done _ =>
    { n with
      system
      depth := Function.update n.depth t.me (n.depth t.me + 1)
      opened := ⟨t.me, system.gil⟩ :: n.opened }
  | .entering, .unwound _ => { n with system, refused := ⟨t.me, system.gil⟩ :: n.refused }
  | .leaving closure, .done _ =>
    { n with system, ended := ⟨t.me, closure, closure.ending, system.gil⟩ :: n.ended }
  | .leaving closure, .unwound p =>
    match closure.ending with
    | .ok _ => { n with system, ended := ⟨t.me, closure, .error p, system.gil⟩ :: n.ended }
    | .error _ => { n with system, aborted := some ⟨t.me, closure, p⟩ }
  | _, _ => { n with system }

def act (n : Nest V) (a : Action V) : Nest V :=
  match n.aborted, a with
  | some _, _ => n
  | none, .call i plain =>
    match n.system.calls i with
    | none => n.beginAs i plain.op .own
    | some _ => n
  | none, .allow i =>
    match n.system.calls i with
    | none => n.beginAs i .enter .entering
    | some _ => n
  | none, .finish i ending =>
    match n.system.calls i, n.depth i with
    | none, depth + 1 =>
      { n.beginAs i .leave (.leaving ⟨ending, n.system.gil.isHeldBy i⟩) with
        depth := Function.update n.depth i depth }
    | _, _ => n
  | none, .step t =>
    match n.system.calls t.me with
    | none => n
    | some c => n.stepCall t c
  | none, .rouse i => { n with system := n.system.act (.rouse i) }

def run (n : Nest V) (acts : List (Action V)) : Nest V := acts.foldl act n

end Nest

/-- The block has ended as its closure has, if that left the lock alone; a value that the closure
returned with the lock is lost. The lock is its caller's in both cases. -/
structure Block.Settled {V : Type} (b : Block V) : Prop where
  holder : b.gil.holder = some b.thread
  locked : b.gil.isLocked = true
  alone : b.closure.withLock = false → b.result = b.closure.ending
  withLock : b.closure.withLock = true →
    (∃ v, b.closure.ending = .ok v) ∧ b.result = .error (.violation (.reentered b.thread))

structure Abort.Settled {V : Type} (a : Abort V) : Prop where
  withLock : a.closure.withLock = true
  unwound : ∃ p, a.closure.ending = .error p
  second : a.second = .violation (.reentered a.thread)

structure Nest.Settled {V : Type} (n : Nest V) : Prop where
  opened : ∀ s ∈ n.opened, s.gil.holder ≠ some s.thread
  refused : ∀ s ∈ n.refused, s.gil.holder ≠ some s.thread
  ended : ∀ b ∈ n.ended, b.Settled
  aborted : ∀ a, n.aborted = some a → a.Settled

namespace System

variable {s : System} {t : Turn} {c : Call}

theorem Orderly.onRecord (hs : s.Orderly) {i : Ident} (hi : s.hold i = .recorded) :
    s.gil.holder = some i ∧ s.gil.isLocked = true :=
  ⟨(hs.custody.holder i).mpr hi, (hs.custody.shows i).locked (by rw [hi]; decide)⟩

theorem Orderly.not_onRecord (hs : s.Orderly) {i : Ident} (hi : s.hold i ≠ .recorded) :
    s.gil.holder ≠ some i :=
  fun h => hi ((hs.custody.holder i).mp h)

/-- A thread whose call has returned has what the call is for. -/
theorem Orderly.hold_of_done (hs : s.Orderly) (hc : s.calls t.me = some c) {b : Bool}
    (hp : (c.step t s.gil).progress = .done b) : (s.stepCall t c).hold t.me = c.after := by
  have ha := hs.accords hc true
  rw [Accords, hp] at ha
  have hi := Hold.eq_ofInside c.after_ne_bare (ha.2.inside (hs.inside t.me))
  simp [hold, hp, Progress.next?, hi]

theorem Orderly.unwinds (hs : s.Orderly) (hc : s.calls t.me = some c) {p : Panic}
    (hp : (c.step t s.gil).progress = .unwound p) :
    c.panic? t s.gil (s.inside t.me) = some p ∧ (s.stepCall t c).gil = s.gil :=
  have ha := hs.accords hc true
  ⟨(ha.unwinds_iff p).mp hp, ha.unchanged hp⟩

theorem Orderly.going (hs : s.Orderly) (hc : s.calls t.me = some c) {c' : Call}
    (hp : (c.step t s.gil).progress = .going c') : c.panic? t s.gil (s.inside t.me) = none := by
  have ha := hs.accords hc true
  rw [Accords, hp] at ha
  exact ha.1

end System

/-- An acquire looks only once whether its thread is the holder. -/
theorem Acquire.ne_checkHolder {t : Turn} {g : Gil} {a a' : Acquire}
    (hp : (a.step t g).progress = .going a') : a' ≠ .checkHolder := by
  rintro rfl
  cases a with
  | checkHolder =>
    simp only [step] at hp
    split at hp <;> cases hp
  | tryWord =>
    simp only [step] at hp
    split at hp <;> cases hp
  | retry start ticket =>
    simp only [step] at hp
    split at hp <;> cases hp
  | wait start w =>
    simp only [step] at hp
    cases hw : (w.step t g.wakeup).2 <;> rw [hw] at hp <;> cases hp
  | count route => cases route <;> cases hp
  | record route => cases route <;> cases hp
  | _ => cases hp

namespace Nest

variable {V : Type} {n : Nest V} {t : Turn} {c : Call}

def Fits : Purpose V → Bool → Call → Prop
  | .own, _, _ => True
  | .entering, _, .release _ => True
  | .leaving closure, inside, .acquire .checkHolder => closure.withLock = inside
  | .leaving closure, _, .acquire _ => closure.withLock = false
  | .entering, _, _ | .leaving _, _, _ => False

structure Kept (n : Nest V) : Prop where
  orderly : n.system.Orderly
  fits : ∀ i c, n.system.calls i = some c → Fits (n.purpose i) (n.system.inside i) c
  settled : n.Settled

theorem kept_start (mode : Mode) (backend : Backend) (patience : Duration) :
    (start mode backend patience : Nest V).Kept where
  orderly := System.orderly_start mode backend patience
  fits i c h := by cases h
  settled := ⟨by simp [start], by simp [start], by simp [start], by simp [start]⟩

theorem Fits.release_of_entering {b : Bool} (h : Fits (.entering : Purpose V) b c) :
    ∃ r, c = .release r := by
  cases c with
  | release r => exact ⟨r, rfl⟩
  | _ => exact h.elim

theorem Fits.acquire_of_leaving {closure : Closure V} {b : Bool}
    (h : Fits (.leaving closure) b c) : ∃ a, c = .acquire a := by
  cases c with
  | acquire a => exact ⟨a, rfl⟩
  | _ => exact h.elim

theorem Fits.withLock {closure : Closure V} {b : Bool} {a : Acquire}
    (h : Fits (.leaving closure) b (.acquire a)) (ha : a ≠ .checkHolder) :
    closure.withLock = false := by
  cases a with
  | checkHolder => exact absurd rfl ha
  | _ => exact h

/-- A call under way still fits its purpose. -/
theorem Kept.going (hn : n.Kept) (hc : n.system.calls t.me = some c) {c' : Call}
    (hp : (c.step t n.system.gil).progress = .going c') (b : Bool) :
    Fits (n.purpose t.me) b c' := by
  have hf := hn.fits t.me c hc
  cases hpur : n.purpose t.me with
  | own => trivial
  | entering =>
    rw [hpur] at hf
    obtain ⟨r, rfl⟩ := hf.release_of_entering
    simp only [Call.step] at hp
    cases hr : (r.step t n.system.gil).progress <;> rw [hr] at hp <;> cases hp
    trivial
  | leaving closure =>
    rw [hpur] at hf
    obtain ⟨a, rfl⟩ := hf.acquire_of_leaving
    have hnone := hn.orderly.going hc hp
    have hw : closure.withLock = false := by
      by_cases ha : a = .checkHolder
      · subst ha
        simp only [Call.panic?, Acquire.panic?] at hnone
        cases hi : n.system.inside t.me with
        | false => rwa [hi] at hf
        | true => simp [hi] at hnone
      · exact hf.withLock ha
    simp only [Call.step] at hp
    cases ha : (a.step t n.system.gil).progress <;> rw [ha] at hp <;> cases hp
    rename_i a'
    have hne := Acquire.ne_checkHolder ha
    cases a' with
    | checkHolder => exact absurd rfl hne
    | _ => exact hw

/-- A block that is entered takes the lock from its thread. -/
theorem Kept.entered (hn : n.Kept) (hc : n.system.calls t.me = some c)
    (hpur : n.purpose t.me = .entering) {b : Bool}
    (hp : (c.step t n.system.gil).progress = .done b) :
    (n.system.stepCall t c).gil.holder ≠ some t.me := by
  have hf := hn.fits t.me c hc
  rw [hpur] at hf
  obtain ⟨r, rfl⟩ := hf.release_of_entering
  refine (hn.orderly.stepCall hc).not_onRecord ?_
  rw [hn.orderly.hold_of_done hc hp]
  simp [Call.after]

theorem Kept.refused (hn : n.Kept) (hc : n.system.calls t.me = some c)
    (hpur : n.purpose t.me = .entering) {p : Panic}
    (hp : (c.step t n.system.gil).progress = .unwound p) :
    (n.system.stepCall t c).gil.holder ≠ some t.me := by
  have hf := hn.fits t.me c hc
  rw [hpur] at hf
  obtain ⟨r, rfl⟩ := hf.release_of_entering
  obtain ⟨hpanic, hg⟩ := hn.orderly.unwinds hc hp
  rw [hg]
  refine hn.orderly.not_onRecord ?_
  rw [System.hold_of_call hc]
  cases r with
  | checkHolder =>
    cases hi : n.system.inside t.me with
    | false => simp [Call.hold, Release.hold, Hold.ofInside]
    | true => simp [Call.panic?, Release.panic?, hi] at hpanic
  | _ => cases hpanic

/-- A block is left with the lock. -/
theorem Kept.left (hn : n.Kept) (hc : n.system.calls t.me = some c) {closure : Closure V}
    (hpur : n.purpose t.me = .leaving closure) {b : Bool}
    (hp : (c.step t n.system.gil).progress = .done b) :
    Block.Settled ⟨t.me, closure, closure.ending, (n.system.stepCall t c).gil⟩ := by
  have hf := hn.fits t.me c hc
  rw [hpur] at hf
  obtain ⟨a, rfl⟩ := hf.acquire_of_leaving
  have hw : closure.withLock = false := by
    refine hf.withLock ?_
    rintro rfl
    simp only [Call.step, Acquire.step] at hp
    split at hp <;> cases hp
  obtain ⟨hholder, hlocked⟩ :=
    (hn.orderly.stepCall hc).onRecord (hn.orderly.hold_of_done hc hp)
  exact ⟨hholder, hlocked, fun _ => rfl, fun h => by simp [hw] at h⟩

/-- The acquire of a block unwinds only when the closure has ended with the lock. -/
theorem Kept.unwound (hn : n.Kept) (hc : n.system.calls t.me = some c) {closure : Closure V}
    (hpur : n.purpose t.me = .leaving closure) {p : Panic}
    (hp : (c.step t n.system.gil).progress = .unwound p) :
    closure.withLock = true ∧ p = .violation (.reentered t.me) ∧
      (n.system.stepCall t c).gil.holder = some t.me ∧
      (n.system.stepCall t c).gil.isLocked = true := by
  have hf := hn.fits t.me c hc
  rw [hpur] at hf
  obtain ⟨a, rfl⟩ := hf.acquire_of_leaving
  obtain ⟨hpanic, hg⟩ := hn.orderly.unwinds hc hp
  cases a with
  | checkHolder =>
    cases hi : n.system.inside t.me with
    | false => simp [Call.panic?, Acquire.panic?, hi] at hpanic
    | true =>
      simp only [Call.panic?, Acquire.panic?, hi, if_true, Option.some_inj] at hpanic
      have hr : n.system.hold t.me = .recorded := by
        rw [System.hold_of_call hc]
        simp [Call.hold, Acquire.hold, hi, Hold.ofInside]
      rw [hg]
      exact ⟨hf.trans hi, hpanic.symm, hn.orderly.onRecord hr⟩
  | _ => cases hpanic

theorem stepCall_system (n : Nest V) (t : Turn) (c : Call) :
    (n.stepCall t c).system = n.system.stepCall t c := by
  unfold stepCall
  split <;> (try split) <;> rfl

theorem stepCall_purpose (n : Nest V) (t : Turn) (c : Call) :
    (n.stepCall t c).purpose = n.purpose := by
  unfold stepCall
  split <;> (try split) <;> rfl

theorem Kept.settled_stepCall (hn : n.Kept) (hc : n.system.calls t.me = some c) :
    (n.stepCall t c).Settled := by
  have hs := hn.settled
  unfold Nest.stepCall
  split
  · rename_i hpur hp
    exact ⟨List.forall_mem_cons.mpr ⟨hn.entered hc hpur hp, hs.opened⟩, hs.refused, hs.ended,
      hs.aborted⟩
  · rename_i hpur hp
    exact ⟨hs.opened, List.forall_mem_cons.mpr ⟨hn.refused hc hpur hp, hs.refused⟩, hs.ended,
      hs.aborted⟩
  · rename_i hpur hp
    exact ⟨hs.opened, hs.refused, List.forall_mem_cons.mpr ⟨hn.left hc hpur hp, hs.ended⟩,
      hs.aborted⟩
  · rename_i closure p hpur hp
    obtain ⟨hw, rfl, hholder, hlocked⟩ := hn.unwound hc hpur hp
    split
    · rename_i v hv
      have hb : Block.Settled ⟨t.me, closure, .error (.violation (.reentered t.me)),
          (n.system.stepCall t c).gil⟩ :=
        ⟨hholder, hlocked, fun h => by simp [hw] at h, fun _ => ⟨⟨v, hv⟩, rfl⟩⟩
      exact ⟨hs.opened, hs.refused, List.forall_mem_cons.mpr ⟨hb, hs.ended⟩, hs.aborted⟩
    · rename_i q hq
      refine ⟨hs.opened, hs.refused, hs.ended, fun a ha => ?_⟩
      cases ha
      exact ⟨hw, ⟨q, hq⟩, rfl⟩
  · exact ⟨hs.opened, hs.refused, hs.ended, hs.aborted⟩

theorem Kept.stepCall (hn : n.Kept) (hc : n.system.calls t.me = some c) :
    (n.stepCall t c).Kept where
  orderly := by
    rw [stepCall_system]
    exact hn.orderly.stepCall hc
  fits i c' hc' := by
    rw [stepCall_system, System.stepCall_calls] at hc'
    rw [stepCall_system, stepCall_purpose, System.stepCall_inside]
    by_cases hi : i = t.me
    · subst hi
      rw [Function.update_self] at hc'
      cases hp : (c.step t n.system.gil).progress with
      | going c'' =>
        rw [hp] at hc'
        cases hc'
        exact hn.going hc hp _
      | done b => simp [hp, Progress.next?] at hc'
      | unwound p => simp [hp, Progress.next?] at hc'
    · rw [Function.update_of_ne hi] at hc' ⊢
      exact hn.fits i c' hc'
  settled := hn.settled_stepCall hc

theorem Kept.beginAs (hn : n.Kept) {i : Ident} {op : Op} {purpose : Purpose V}
    (ho : op.isOrdinary = true) (hc : n.system.calls i = none)
    (hf : Fits purpose (n.system.inside i) op.call) : (n.beginAs i op purpose).Kept where
  orderly := hn.orderly.begin ho hc
  fits j c hj := by
    simp only [Nest.beginAs, System.beginCall_calls] at hj ⊢
    by_cases hji : j = i
    · subst hji
      rw [Function.update_self] at hj ⊢
      cases hj
      exact hf
    · rw [Function.update_of_ne hji] at hj ⊢
      exact hn.fits j c hj
  settled := ⟨hn.settled.opened, hn.settled.refused, hn.settled.ended, hn.settled.aborted⟩

theorem Kept.isHeldBy (hn : n.Kept) {i : Ident} (hc : n.system.calls i = none) :
    n.system.gil.isHeldBy i = n.system.inside i := by
  have hs := hn.orderly.custody.shows i
  have hh : n.system.hold i = .ofInside (n.system.inside i) := by simp [System.hold, hc]
  rw [hh] at hs
  exact hs.isHeldBy

theorem Kept.act (hn : n.Kept) (a : Action V) : (n.act a).Kept := by
  cases hab : n.aborted with
  | some abort => simpa only [Nest.act, hab] using hn
  | none =>
    cases a with
    | call i plain =>
      cases hc : n.system.calls i with
      | some c => simpa only [Nest.act, hab, hc] using hn
      | none =>
        simp only [Nest.act, hab, hc]
        exact hn.beginAs (by cases plain <;> rfl) hc trivial
    | allow i =>
      cases hc : n.system.calls i with
      | some c => simpa only [Nest.act, hab, hc] using hn
      | none =>
        simp only [Nest.act, hab, hc]
        exact hn.beginAs rfl hc trivial
    | finish i ending =>
      cases hc : n.system.calls i with
      | some c => simpa only [Nest.act, hab, hc] using hn
      | none =>
        cases hd : n.depth i with
        | zero => simpa only [Nest.act, hab, hc, hd] using hn
        | succ depth =>
          simp only [Nest.act, hab, hc, hd]
          have h : (n.beginAs i .leave (.leaving ⟨ending, n.system.gil.isHeldBy i⟩)).Kept :=
            hn.beginAs rfl hc (hn.isHeldBy hc)
          exact ⟨h.orderly, h.fits, h.settled.opened, h.settled.refused, h.settled.ended,
            h.settled.aborted⟩
    | step t =>
      cases hc : n.system.calls t.me with
      | none => simpa only [Nest.act, hab, hc] using hn
      | some c =>
        simp only [Nest.act, hab, hc]
        exact hn.stepCall hc
    | rouse i =>
      simp only [Nest.act, hab]
      exact ⟨hn.orderly.act (.rouse i) rfl, hn.fits, hn.settled.opened, hn.settled.refused,
        hn.settled.ended, fun abort ha => by cases ha⟩

/-- Whatever the closures do, and however their threads take turns. -/
theorem blocks_settled_run (V : Type) (mode : Mode) (backend : Backend) (patience : Duration)
    (acts : List (Action V)) : ((start mode backend patience).run acts).Settled :=
  have hn : ((start mode backend patience).run acts).Kept :=
    Run.lasts (P := Kept) (fun _ a hn => hn.act a) acts _ (kept_start mode backend patience)
  hn.settled

/-- A closure acquires the lock and panics before it has released it. -/
theorem block_aborts :
    let a : Ident := ⟨1, by decide⟩
    let turns (k : ℕ) : List (Action Unit) := List.replicate k (.step { me := a, now := ⟨0⟩ })
    let n := (start .generic .posix Gil.defaultPatience).run (.call a .acquire :: turns 5 ++
      .allow a :: turns 4 ++ .call a .acquire :: turns 5 ++
      .finish a (.error (.raised "x")) :: turns 1)
    n.opened.map (·.thread) = [a] ∧ n.ended.length = 0 ∧
      n.aborted.map (·.second) = some (.violation (.reentered a)) := by
  decide

end Nest

end InterpreterLock.Gil
