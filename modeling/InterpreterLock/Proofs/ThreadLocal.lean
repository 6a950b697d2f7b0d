import InterpreterLock.Proofs.Counters
import InterpreterLock.Proofs.Run
import InterpreterLock.Proofs.Sums
import InterpreterLock.ThreadLocal
import Mathlib.Logic.Function.Basic

/-!
# References are told apart

Threads start and end, make references to values of any kind, drop them, and set and read the ones
that are there. What a thread reads from a reference is what the thread itself last set there since it
started: every value that a thread has in its table stands under the key of one reference, and is
of the kind of that reference.

A thread has a number, under which another may start when it has ended, and a reference has its
place in the list of all that were ever made. The log has what was done, the latest first; what
cannot be done, such as to read a reference that was dropped, leaves everything as it is.
-/

set_option autoImplicit false

namespace InterpreterLock.Locals

variable {α : Type}

section

variable {l : Locals α} {r : LocalRef} {v : Option α}

theorem get?_table_set (l : Locals α) (r : LocalRef) (v : Option α) :
    (l.set r v).table.get? r.key = v.map (Stored.mk r.kind) := by
  cases v with
  | none => exact Table.get?_erase_self ..
  | some a => exact Table.get?_insert_self ..

theorem get?_table_set_of_ne (l : Locals α) (v : Option α) {k : UInt64} (h : k ≠ r.key) :
    (l.set r v).table.get? k = l.table.get? k := by
  cases v with
  | none => exact Table.get?_erase_of_ne _ h
  | some a => exact Table.get?_insert_of_ne _ _ h

/-- A value of the kind of the reference is given out. -/
theorem get?_of_table (h : l.table.get? r.key = v.map (Stored.mk r.kind)) : l.get? r = v := by
  rw [get?, h]
  cases v <;> simp

end

inductive Deed (α : Type)
  | start
  | finish
  | create (kind : ℕ)
  | drop (n : ℕ)
  | set (n : ℕ) (value : Option α)
  | get (n : ℕ)

structure Action (α : Type) where
  thread : ℕ
  deed : Deed α

structure Entry (α : Type) extends Action α where
  answer : Option α := none

structure System (α : Type) where
  keys : LocalKeys := {}
  refs : List LocalRef := []
  dropped : List ℕ := []
  locals : ℕ → Option (Locals α) := fun _ => none
  log : List (Entry α) := []

namespace System

variable (s : System α) (t n : ℕ)

def ref? : Option LocalRef := if n ∈ s.dropped then none else s.refs[n]?

def start : System α :=
  { s with
    locals := Function.update s.locals t (some {})
    log := { thread := t, deed := .start } :: s.log }

def finish : System α :=
  { s with
    locals := Function.update s.locals t none
    log := { thread := t, deed := .finish } :: s.log }

def create (kind : ℕ) : System α :=
  { s with
    keys := (s.keys.create kind).2
    refs := s.refs ++ [(s.keys.create kind).1]
    log := { thread := t, deed := .create kind } :: s.log }

def drop : System α :=
  { s with
    dropped := n :: s.dropped
    log := { thread := t, deed := .drop n } :: s.log }

def set (l : Locals α) (r : LocalRef) (v : Option α) : System α :=
  { s with
    locals := Function.update s.locals t (some (l.set r v))
    log := { thread := t, deed := .set n v } :: s.log }

def get (l : Locals α) (r : LocalRef) : System α :=
  { s with log := { thread := t, deed := .get n, answer := l.get? r } :: s.log }

def act (a : Action α) : System α :=
  match s.locals a.thread, a.deed with
  | none, .start => s.start a.thread
  | some _, .finish => s.finish a.thread
  | some _, .create kind => s.create a.thread kind
  | some _, .drop n => if (s.ref? n).isSome then s.drop a.thread n else s
  | some l, .set n v =>
    match s.ref? n with
    | none => s
    | some r => s.set a.thread n l r v
  | some l, .get n =>
    match s.ref? n with
    | none => s
    | some r => s.get a.thread n l r
  | _, _ => s

def run (acts : List (Action α)) : System α := acts.foldl act s

def reading? : Option (Option α) :=
  match s.locals t, s.ref? n with
  | some l, some r => some (l.get? r)
  | _, _ => none

end System

def Action.decides (t n : ℕ) (a : Action α) : Bool :=
  a.thread = t &&
    match a.deed with
    | .start => true
    | .set m _ => m = n
    | _ => false

def Action.touches (t n : ℕ) (a : Action α) : Bool :=
  match a.deed with
  | .start | .finish => a.thread = t
  | .drop m => m = n
  | .set m _ => a.thread = t && m = n
  | .create _ | .get _ => false

def Deed.value? : Deed α → Option α
  | .set _ v => v
  | _ => none

def LastSet (log : List (Entry α)) (t n : ℕ) (v : α) : Prop :=
  ∃ later e earlier, log = later ++ e :: earlier ∧ e.thread = t ∧ e.deed = .set n (some v) ∧
    ∀ x ∈ later, x.decides t n = false

def standing (log : List (Entry α)) (t n : ℕ) : Option α :=
  (log.find? (·.decides t n)).bind fun e => e.deed.value?

section

variable {log : List (Entry α)} {e : Entry α} {t n : ℕ} {v : α}

theorem standing_cons (e : Entry α) (log : List (Entry α)) (t n : ℕ) :
    standing (e :: log) t n = if e.decides t n then e.deed.value? else standing log t n := by
  simp only [standing, List.find?_cons]
  split <;> simp [*]

theorem standing_cons_of_not_decides (h : e.decides t n = false) :
    standing (e :: log) t n = standing log t n := by
  rw [standing_cons, h, if_neg Bool.false_ne_true]

theorem standing_eq_some_iff : standing log t n = some v ↔ LastSet log t n v := by
  constructor
  · intro h
    obtain ⟨e, he, hv⟩ := Option.bind_eq_some_iff.mp h
    obtain ⟨hdecides, later, earlier, hlog, hlater⟩ := List.find?_eq_some_iff_append.mp he
    obtain ⟨⟨thread, deed⟩, answer⟩ := e
    cases deed with
    | set m w =>
      obtain ⟨hthread, hm⟩ : thread = t ∧ m = n := by simpa [Action.decides] using hdecides
      subst hm
      exact ⟨later, _, earlier, hlog, hthread, congrArg (Deed.set m) hv, by simpa using hlater⟩
    | _ => cases hv
  · rintro ⟨later, e, earlier, rfl, hthread, hdeed, hlater⟩
    have hdecides : e.decides t n = true := by simp [Action.decides, hthread, hdeed]
    have hfind : (later ++ e :: earlier).find? (·.decides t n) = some e :=
      List.find?_eq_some_iff_append.mpr ⟨hdecides, later, earlier, rfl, by simpa using hlater⟩
    rw [standing, hfind, Option.bind_some, hdeed]
    rfl

end

namespace System

inductive Acts (s : System α) : Action α → System α → Prop
  | still (a : Action α) : Acts s a s
  | start (t : ℕ) (h : s.locals t = none) : Acts s ⟨t, .start⟩ (s.start t)
  | finish (t : ℕ) : Acts s ⟨t, .finish⟩ (s.finish t)
  | create (t kind : ℕ) : Acts s ⟨t, .create kind⟩ (s.create t kind)
  | drop (t n : ℕ) : Acts s ⟨t, .drop n⟩ (s.drop t n)
  | set (t n : ℕ) (l : Locals α) (r : LocalRef) (v : Option α) (hl : s.locals t = some l)
      (hr : s.ref? n = some r) : Acts s ⟨t, .set n v⟩ (s.set t n l r v)
  | get (t n : ℕ) (l : Locals α) (r : LocalRef) (hl : s.locals t = some l)
      (hr : s.ref? n = some r) : Acts s ⟨t, .get n⟩ (s.get t n l r)

theorem act_cases (s : System α) (a : Action α) : s.Acts a (s.act a) := by
  obtain ⟨t, deed⟩ := a
  cases hl : s.locals t with
  | none =>
    cases deed with
    | start => simpa [act, hl] using Acts.start t hl
    | _ => simpa [act, hl] using Acts.still _
  | some l =>
    cases deed with
    | start => simpa [act, hl] using Acts.still _
    | finish => simpa [act, hl] using Acts.finish t
    | create kind => simpa [act, hl] using Acts.create t kind
    | drop n =>
      by_cases hn : (s.ref? n).isSome
      · simpa [act, hl, hn] using Acts.drop t n
      · simpa [act, hl, hn] using Acts.still _
    | set n v =>
      cases hr : s.ref? n with
      | none => simpa [act, hl, hr] using Acts.still _
      | some r => simpa [act, hl, hr] using Acts.set t n l r v hl hr
    | get n =>
      cases hr : s.ref? n with
      | none => simpa [act, hl, hr] using Acts.still _
      | some r => simpa [act, hl, hr] using Acts.get t n l r hl hr

variable {s s' : System α} {a : Action α} {t n : ℕ} {l : Locals α} {r : LocalRef} {v : Option α}

theorem refs_of_ref? (h : s.ref? n = some r) : s.refs[n]? = some r := by
  unfold ref? at h
  split at h
  · cases h
  · exact h

theorem Acts.length_refs_le (h : s.Acts a s') : s.refs.length ≤ s'.refs.length := by
  cases h with
  | create t kind => simp [System.create]
  | _ => exact Nat.le_refl _

structure Numbered (s : System α) : Prop where
  next : s.keys.next = UInt64.ofNat s.refs.length
  key : ∀ (n : ℕ) (r : LocalRef), s.refs[n]? = some r → r.key = UInt64.ofNat n

theorem Numbered.act (hs : s.Numbered) (h : s.Acts a s') : s'.Numbered := by
  cases h with
  | create t kind =>
    constructor
    · simp only [System.create, LocalKeys.create, List.length_append, List.length_singleton]
      rw [hs.next, ofNat_succ]
    · intro n r hr
      rcases getElem?_append_toList_cases (b := some (s.keys.create kind).1) hr with
        hold | ⟨rfl, hnew⟩
      · exact hs.key n r hold
      · obtain rfl := Option.some_inj.mp hnew
        exact hs.next
  | _ => exact ⟨hs.next, hs.key⟩

def Answered (log : List (Entry α)) : Prop :=
  ∀ later e earlier, log = later ++ e :: earlier → ∀ n, e.deed = .get n →
    e.answer = standing earlier e.thread n

theorem Answered.cons {log : List (Entry α)} {e : Entry α} (h : Answered log)
    (he : ∀ n, e.deed = .get n → e.answer = standing log e.thread n) : Answered (e :: log) := by
  intro later e' earlier hlog
  cases later with
  | nil =>
    obtain ⟨rfl, rfl⟩ := List.cons.inj hlog
    exact he
  | cons x later => exact h later e' earlier (List.cons.inj hlog).2

end System

structure Holds (refs : List LocalRef) (log : List (Entry α)) (t : ℕ) (l : Locals α) : Prop where
  stored : ∀ (n : ℕ) (r : LocalRef), refs[n]? = some r →
    l.table.get? (UInt64.ofNat n) = (standing log t n).map (Stored.mk r.kind)
  unused : ∀ n, refs.length ≤ n → n < 2 ^ 64 →
    standing log t n = none ∧ l.table.get? (UInt64.ofNat n) = none

section

variable {refs : List LocalRef} {log : List (Entry α)} {e : Entry α} {t : ℕ} {l : Locals α}

theorem holds_start (refs : List LocalRef) (log : List (Entry α)) (t : ℕ) :
    Holds refs ({ thread := t, deed := .start } :: log) t {} := by
  have hnone (n : ℕ) : standing ({ thread := t, deed := .start } :: log) t n = none := by
    rw [standing_cons, if_pos (by simp [Action.decides])]
    rfl
  exact ⟨fun n r _ => by rw [hnone]; rfl, fun n _ _ => ⟨hnone n, rfl⟩⟩

theorem Holds.other (h : Holds refs log t l) (he : ∀ n, e.decides t n = false) :
    Holds refs (e :: log) t l := by
  constructor
  · intro n r hr
    rw [standing_cons_of_not_decides (he n)]
    exact h.stored n r hr
  · intro n hn hlt
    rw [standing_cons_of_not_decides (he n)]
    exact h.unused n hn hlt

theorem Holds.create (h : Holds refs log t l) (hlt : refs.length < 2 ^ 64) (r : LocalRef) :
    Holds (refs ++ [r]) log t l := by
  constructor
  · intro n r' hr
    rcases getElem?_append_toList_cases (b := some r) hr with hold | ⟨rfl, hnew⟩
    · exact h.stored n r' hold
    · obtain ⟨hstanding, hstored⟩ := h.unused refs.length (Nat.le_refl _) hlt
      rw [hstanding, hstored]
      rfl
  · intro n hn
    simp only [List.length_append, List.length_singleton] at hn
    exact h.unused n (by omega)

/-- No other reference has the same key. -/
theorem Holds.set {n : ℕ} {r : LocalRef} (h : Holds refs log t l) (hlt : refs.length < 2 ^ 64)
    (hr : refs[n]? = some r) (hkey : r.key = UInt64.ofNat n) (v : Option α) :
    Holds refs ({ thread := t, deed := .set n v } :: log) t (l.set r v) := by
  have hn : n < refs.length := (List.getElem?_eq_some_iff.mp hr).1
  have hother {m : ℕ} (hm : m < 2 ^ 64) (hmn : m ≠ n) :
      (l.set r v).table.get? (UInt64.ofNat m) = l.table.get? (UInt64.ofNat m) ∧
        standing ({ thread := t, deed := .set n v } :: log) t m = standing log t m := by
    constructor
    · apply get?_table_set_of_ne
      rw [hkey]
      exact fun heq => hmn (ofNat_inj_of_lt hm (by omega) heq)
    · exact standing_cons_of_not_decides (by simp [Action.decides, Ne.symm hmn])
  constructor
  · intro m r' hr'
    have hm : m < refs.length := (List.getElem?_eq_some_iff.mp hr').1
    by_cases hmn : m = n
    · subst hmn
      obtain rfl := Option.some_inj.mp (hr.symm.trans hr')
      rw [← hkey, get?_table_set, standing_cons, if_pos (by simp [Action.decides])]
      rfl
    · obtain ⟨hstored, hstanding⟩ := hother (by omega) hmn
      rw [hstored, hstanding]
      exact h.stored m r' hr'
  · intro m hm hlt
    obtain ⟨hstored, hstanding⟩ := hother hlt (by omega)
    rw [hstored, hstanding]
    exact h.unused m hm hlt

end

namespace System

variable {s s' : System α} {a : Action α} {t n : ℕ} {l : Locals α} {r : LocalRef} {v : Option α}

structure Kept (s : System α) : Prop where
  numbered : s.Numbered
  answered : Answered s.log
  holds : ∀ t l, s.locals t = some l → Holds s.refs s.log t l

theorem Kept.get? (hs : s.Kept) (hl : s.locals t = some l) (hr : s.refs[n]? = some r) :
    l.get? r = standing s.log t n := by
  apply get?_of_table
  rw [hs.numbered.key n r hr]
  exact (hs.holds t l hl).stored n r hr

theorem Kept.answered_act (hs : s.Kept) (h : s.Acts a s') : Answered s'.log := by
  cases h with
  | still => exact hs.answered
  | get t n l r hl hr =>
    refine hs.answered.cons fun m hm => ?_
    cases hm
    exact hs.get? hl (refs_of_ref? hr)
  | _ => exact hs.answered.cons fun m hm => by cases hm

theorem Kept.holds_act (hs : s.Kept) (hlt : s.refs.length < 2 ^ 64) (h : s.Acts a s') (u : ℕ)
    (l' : Locals α) (hl' : s'.locals u = some l') : Holds s'.refs s'.log u l' := by
  cases h with
  | still => exact hs.holds u l' hl'
  | start t h =>
    by_cases hu : u = t
    · subst hu
      obtain rfl : {} = l' := by simpa [System.start] using hl'
      exact holds_start ..
    · have hold : s.locals u = some l' := by simpa [System.start, hu] using hl'
      exact (hs.holds u l' hold).other fun n => by simp [Action.decides, Ne.symm hu]
  | finish t =>
    by_cases hu : u = t
    · simp [System.finish, hu] at hl'
    · have hold : s.locals u = some l' := by simpa [System.finish, hu] using hl'
      exact (hs.holds u l' hold).other fun n => by simp [Action.decides]
  | create t kind =>
    exact ((hs.holds u l' hl').create hlt _).other fun n => by simp [Action.decides]
  | drop t n => exact (hs.holds u l' hl').other fun n => by simp [Action.decides]
  | set t n l r v hl hr =>
    by_cases hu : u = t
    · subst hu
      obtain rfl : l.set r v = l' := by simpa [System.set] using hl'
      have hr' := refs_of_ref? hr
      exact (hs.holds u l hl).set hlt hr' (hs.numbered.key n r hr') v
    · have hold : s.locals u = some l' := by simpa [System.set, hu] using hl'
      exact (hs.holds u l' hold).other fun n => by simp [Action.decides, Ne.symm hu]
  | get t n l r hl hr => exact (hs.holds u l' hl').other fun n => by simp [Action.decides]

theorem Kept.act (hs : s.Kept) (hlt : s.refs.length < 2 ^ 64) (h : s.Acts a s') : s'.Kept :=
  ⟨hs.numbered.act h, hs.answered_act h, hs.holds_act hlt h⟩

theorem kept_start : ({} : System α).Kept where
  numbered := ⟨rfl, fun n r hr => by simp at hr⟩
  answered := fun later e earlier h => by simp at h
  holds := fun t l hl => by cases hl

theorem kept_run (acts : List (Action α)) (hlt : (({} : System α).run acts).refs.length < 2 ^ 64) :
    (({} : System α).run acts).Kept := by
  have keep : ∀ (s : System α) a, (s.refs.length < 2 ^ 64 → s.Kept) →
      (s.act a).refs.length < 2 ^ 64 → (s.act a).Kept := by
    intro s a hs hlt
    have hle := (act_cases s a).length_refs_le
    exact (hs (by omega)).act (by omega) (act_cases s a)
  exact Run.lasts keep acts {} (fun _ => kept_start) hlt

theorem Kept.get?_set_of_ne (hs : s.Kept) (hlt : s.refs.length < 2 ^ 64) {m : ℕ} {r' : LocalRef}
    (hr : s.refs[n]? = some r) (hr' : s.refs[m]? = some r') (hmn : m ≠ n) :
    (l.set r v).get? r' = l.get? r' := by
  have hn : n < s.refs.length := (List.getElem?_eq_some_iff.mp hr).1
  have hm : m < s.refs.length := (List.getElem?_eq_some_iff.mp hr').1
  have hkey : r'.key ≠ r.key := by
    rw [hs.numbered.key n r hr, hs.numbered.key m r' hr']
    exact fun h => hmn (ofNat_inj_of_lt (by omega) (by omega) h)
  rw [Locals.get?, get?_table_set_of_ne l v hkey, Locals.get?]

theorem ref?_create (hn : n < s.refs.length) (kind : ℕ) : (s.create t kind).ref? n = s.ref? n := by
  simp only [ref?, System.create, List.getElem?_append_left hn]

theorem ref?_drop {m : ℕ} (hmn : m ≠ n) : (s.drop t m).ref? n = s.ref? n := by
  simp [ref?, System.drop, Ne.symm hmn]

theorem Kept.reading?_act (hs : s.Kept) (hlt : s.refs.length < 2 ^ 64) (h : s.Acts a s')
    (hn : n < s.refs.length) (ha : a.touches t n = false) :
    s'.reading? t n = s.reading? t n := by
  have frame (hlocals : s'.locals t = s.locals t) (href : s'.ref? n = s.ref? n) :
      s'.reading? t n = s.reading? t n := by
    rw [reading?, reading?, hlocals, href]
  cases h with
  | still => rfl
  | start u h =>
    have hu : t ≠ u := by simpa [Action.touches, eq_comm] using ha
    exact frame (by simp [System.start, hu]) rfl
  | finish u =>
    have hu : t ≠ u := by simpa [Action.touches, eq_comm] using ha
    exact frame (by simp [System.finish, hu]) rfl
  | create u kind => exact frame rfl (ref?_create hn kind)
  | drop u m =>
    have hmn : m ≠ n := by simpa [Action.touches] using ha
    exact frame rfl (ref?_drop hmn)
  | set u m l r v hl hr =>
    by_cases hu : t = u
    · subst hu
      have hmn : m ≠ n := by simpa [Action.touches] using ha
      have hlocals : (s.set t m l r v).locals t = some (l.set r v) := Function.update_self ..
      rw [reading?, reading?, hlocals, hl, show (s.set t m l r v).ref? n = s.ref? n from rfl]
      cases href : s.ref? n with
      | none => rfl
      | some r' =>
        have hget := hs.get?_set_of_ne (l := l) (v := v) hlt (refs_of_ref? hr)
          (refs_of_ref? href) hmn.symm
        exact congrArg some hget
    · exact frame (by simp [System.set, hu]) rfl
  | get u m l r hl hr => exact frame rfl rfl

theorem length_refs_run_le (s : System α) (more : List (Action α)) :
    s.refs.length ≤ (s.run more).refs.length :=
  Run.lasts (P := fun s' => s.refs.length ≤ s'.refs.length)
    (fun s' a h => h.trans (act_cases s' a).length_refs_le) more s (Nat.le_refl _)

theorem Kept.reading?_run (hs : s.Kept) (more : List (Action α))
    (hlt : (s.run more).refs.length < 2 ^ 64) (hn : n < s.refs.length)
    (ha : ∀ a ∈ more, a.touches t n = false) : (s.run more).reading? t n = s.reading? t n := by
  induction more generalizing s with
  | nil => rfl
  | cons a rest ih =>
    have hacts := act_cases s a
    have hle := hacts.length_refs_le
    have hnext : (s.act a).refs.length < 2 ^ 64 :=
      Nat.lt_of_le_of_lt (length_refs_run_le (s.act a) rest) hlt
    calc ((s.act a).run rest).reading? t n
        = (s.act a).reading? t n :=
          ih (hs.act (by omega) hacts) hlt (by omega) fun b hb => ha b (by simp [hb])
      _ = s.reading? t n := hs.reading?_act (by omega) hacts hn (ha a (by simp))

structure Isolated (s : System α) : Prop where
  apart : ∀ (n m : ℕ) (r r' : LocalRef), s.refs[n]? = some r → s.refs[m]? = some r' →
    r.key = r'.key → n = m
  reads : ∀ t n l r, s.locals t = some l → s.ref? n = some r →
    ∀ v, l.get? r = some v ↔ LastSet s.log t n v
  answers : ∀ later e earlier, s.log = later ++ e :: earlier → ∀ n, e.deed = .get n →
    ∀ v, e.answer = some v ↔ LastSet earlier e.thread n v
  kinds : ∀ t l (n : ℕ) (r : LocalRef) x, s.locals t = some l → s.refs[n]? = some r →
    l.table.get? r.key = some x → x.kind = r.kind ∧ l.get? r = some x.value
  frame : ∀ t n more, n < s.refs.length → (∀ a ∈ more, a.touches t n = false) →
    (s.run more).refs.length < 2 ^ 64 → (s.run more).reading? t n = s.reading? t n

theorem Kept.isolated (hs : s.Kept) (hlt : s.refs.length < 2 ^ 64) : s.Isolated where
  apart := by
    intro n m r r' hr hr' hkey
    have hn : n < s.refs.length := (List.getElem?_eq_some_iff.mp hr).1
    have hm : m < s.refs.length := (List.getElem?_eq_some_iff.mp hr').1
    rw [hs.numbered.key n r hr, hs.numbered.key m r' hr'] at hkey
    exact ofNat_inj_of_lt (by omega) (by omega) hkey
  reads := by
    intro t n l r hl hr v
    rw [hs.get? hl (refs_of_ref? hr)]
    exact standing_eq_some_iff
  answers := by
    intro later e earlier hlog n he v
    rw [hs.answered later e earlier hlog n he]
    exact standing_eq_some_iff
  kinds := by
    intro t l n r x hl hr hx
    have hstored := (hs.holds t l hl).stored n r hr
    rw [← hs.numbered.key n r hr, hx] at hstored
    obtain ⟨v, hv, rfl⟩ := Option.map_eq_some_iff.mp hstored.symm
    exact ⟨rfl, (hs.get? hl hr).trans hv⟩
  frame := fun _ _ more hn ha hmore => hs.reading?_run more hmore hn ha

/-- Any number of threads and references, in any interleaving of what the threads do, while the keys
do not run out. -/
theorem isolated_run (acts : List (Action α))
    (hlt : (({} : System α).run acts).refs.length < 2 ^ 64) :
    (({} : System α).run acts).Isolated :=
  (kept_run acts hlt).isolated hlt

/-- Two threads share a reference, and each makes one of another kind. One reference is dropped with
a value in it, a thread starts again under the number of one that has ended, and a value is
cleared. -/
theorem isolated_run_shared :
    let acts : List (Action ℕ) :=
      [⟨0, .start⟩, ⟨0, .create 0⟩, ⟨0, .set 0 (some 10)⟩, ⟨1, .start⟩, ⟨1, .get 0⟩, ⟨1, .create 1⟩,
       ⟨1, .set 0 (some 20)⟩, ⟨0, .set 1 (some 30)⟩, ⟨0, .get 0⟩, ⟨1, .get 0⟩, ⟨1, .get 1⟩,
       ⟨1, .drop 0⟩, ⟨0, .get 0⟩, ⟨0, .create 1⟩, ⟨0, .get 2⟩, ⟨1, .set 1 (some 40)⟩, ⟨1, .finish⟩,
       ⟨1, .start⟩, ⟨1, .get 1⟩, ⟨0, .get 1⟩, ⟨0, .set 1 none⟩, ⟨0, .get 1⟩, ⟨1, .set 1 (some 50)⟩]
    let more : List (Action ℕ) := [⟨0, .set 1 (some 60)⟩, ⟨0, .create 2⟩, ⟨1, .set 3 (some 70)⟩]
    let s := ({} : System ℕ).run acts
    s.refs.length < 2 ^ 64 ∧ s.Isolated ∧
      s.log.filterMap (fun e =>
        match e.deed with
        | .get n => some (e.thread, n, e.answer)
        | _ => none) =
        [(0, 1, none), (0, 1, some 30), (1, 1, none), (0, 2, none), (1, 1, none), (1, 0, some 20),
         (0, 0, some 10), (1, 0, none)] ∧
      s.reading? 1 1 = some (some 50) ∧
      (s.run more).reading? 1 1 = some (some 50) ∧
      (s.run more).reading? 1 3 = some (some 70) := by
  intro acts more s
  have hisolated : s.Isolated := isolated_run acts (by decide)
  have hreads : s.reading? 1 1 = some (some 50) := by decide
  refine ⟨by decide, hisolated, by decide, hreads, ?_, by decide⟩
  rw [hisolated.frame 1 1 more (by decide) (by decide) (by decide)]
  exact hreads

end System

end InterpreterLock.Locals
