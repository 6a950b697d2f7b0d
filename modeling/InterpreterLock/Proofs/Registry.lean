import InterpreterLock.Proofs.Table
import InterpreterLock.Registry
import Mathlib.Data.List.Basic
import Mathlib.Data.List.Induction
import Mathlib.Order.RelClasses

/-!
# What a registry knows

Threads tell a registry of registrations, runs, ends and forks, by hook calls and by guards. Of each
thread the registry knows what was said of it since it last registered, and it knows the thread as
long as nothing has ended that registration: no end of its own, be it told or that of a guard, and
no fork that another thread survived.
-/

set_option autoImplicit false

namespace InterpreterLock

instance : IsStrictTotalOrder Ident (· < ·) where
  irrefl i := UInt64.lt_irrefl i.number
  trans _ _ _ hij hjk := UInt64.lt_trans hij hjk
  trichotomous i j hij hji := by
    have h : i.number = j.number := UInt64.le_antisymm (UInt64.not_lt.mp hji) (UInt64.not_lt.mp hij)
    cases i
    cases j
    simpa using h

namespace HookCall

def ends (i : Ident) : HookCall → Bool
  | .deregister j => j = i
  | .afterFork survivor => survivor ≠ i
  | _ => false

def concerns (i : Ident) : HookCall → Bool
  | .register j | .deregister j | .run j => j = i
  | .beforeFork => false
  | .afterFork _ => true

end HookCall

namespace Registry

abbrev Story := List (Ident × HookCall)

def tell (r : Registry) (story : Story) : Registry :=
  story.foldl (fun r said => r.hear said.1 said.2) r

def said (held : Table String Ident) : List (Ident × Op) → Story
  | [] => []
  | (caller, .hook c) :: rest => (caller, c) :: said held rest
  | (caller, .guard name i) :: rest =>
    (caller, .register i) ::
      ((held.get? name).toList.map fun old => (caller, .deregister old)) ++
        said (held.insert name i) rest
  | (caller, .drop name) :: rest =>
    match held.get? name with
    | none => said held rest
    | some i => (caller, .deregister i) :: said (held.erase name) rest

/-- The thread was last registered by `registrar`, with what was said `later` on, and nothing of
that has ended the registration. -/
structure Standing (story : Story) (i registrar : Ident) (later : Story) : Prop where
  registered : ∃ earlier, story = earlier ++ (registrar, .register i) :: later
  last : ∀ x ∈ later, x.2 ≠ .register i
  lasting : ∀ x ∈ later, x.2.ends i = false

def runsIn (i : Ident) (story : Story) : ℕ := story.countP fun x => x.2 = .run i

variable {r : Registry} {caller i : Ident} {c : HookCall}

theorem get?_hear_register : (r.hear caller (.register i)).get? i = some { registrar := caller } :=
  Table.get?_insert_self ..

theorem get?_hear_of_ends (h : c.ends i = true) : (r.hear caller c).get? i = none := by
  cases c with
  | deregister j =>
    obtain rfl : j = i := by simpa [HookCall.ends] using h
    exact Table.get?_erase_self ..
  | afterFork survivor =>
    have hne : survivor ≠ i := by simpa [HookCall.ends] using h
    exact Table.get?_retain_of_ne _ hne.symm
  | register _ | run _ | beforeFork => cases h

/-- A call that neither registers a thread nor ends its registration can only count a run of it. -/
theorem get?_hear_of_lasts (hc : c ≠ .register i) (h : c.ends i = false) :
    (r.hear caller c).get? i =
      (r.get? i).map fun e => { e with runs := e.runs + if c = .run i then 1 else 0 } := by
  cases c with
  | register j =>
    have hne : i ≠ j := fun hij => hc (by rw [hij])
    simpa [hear, get?] using Table.get?_insert_of_ne r.table _ hne
  | deregister j =>
    have hne : j ≠ i := by simpa [HookCall.ends] using h
    simpa [hear, get?] using Table.get?_erase_of_ne r.table hne.symm
  | run j =>
    simp only [hear, get?, Table.get?_modify]
    by_cases hij : i = j
    · simp [hij]
    · have hji : j ≠ i := fun h => hij h.symm
      simp [hij, hji]
  | beforeFork => simp [hear]
  | afterFork survivor =>
    obtain rfl : survivor = i := by simpa [HookCall.ends] using h
    simpa [hear, get?] using Table.get?_retain_self r.table survivor

theorem get?_hear_of_not_concerns (h : c.concerns i = false) :
    (r.hear caller c).get? i = r.get? i := by
  have hregister : c ≠ .register i := by
    rintro rfl
    simp [HookCall.concerns] at h
  have hrun : c ≠ .run i := by
    rintro rfl
    simp [HookCall.concerns] at h
  have hends : c.ends i = false := by
    cases c with
    | register _ | run _ | beforeFork => rfl
    | deregister _ => exact h
    | afterFork _ => cases h
  rw [get?_hear_of_lasts hregister hends]
  simp [hrun]

theorem ascending_hear (h : r.table.Ascending) : (r.hear caller c).table.Ascending := by
  cases c with
  | register j => exact h.insert j _
  | deregister j => exact h.erase j
  | run j => exact h.modify j _
  | beforeFork => exact h
  | afterFork survivor => exact h.retain survivor

variable {story later : Story} {x : Ident × HookCall} {registrar : Ident}

theorem tell_concat : r.tell (story ++ [x]) = (r.tell story).hear x.1 x.2 := by
  simp [tell]

theorem tell_append (story rest : Story) : r.tell (story ++ rest) = (r.tell story).tell rest := by
  simp [tell]

/-- A call is the last registration of a thread, or it comes after that and lets it stand. -/
theorem standing_concat : Standing (story ++ [x]) i registrar later ↔
    x = (registrar, .register i) ∧ later = [] ∨
      ∃ before, later = before ++ [x] ∧ Standing story i registrar before ∧
        x.2 ≠ .register i ∧ x.2.ends i = false := by
  constructor
  · rintro ⟨⟨earlier, h⟩, hlast, hlasting⟩
    rcases List.eq_nil_or_concat' later with rfl | ⟨before, y, rfl⟩
    · exact .inl ⟨List.singleton_inj.mp (List.append_inj' h rfl).2, rfl⟩
    · rw [← List.cons_append, ← List.append_assoc] at h
      obtain ⟨hstory, hx⟩ := List.append_inj' h rfl
      obtain rfl := List.singleton_inj.mp hx
      exact .inr ⟨before, rfl, ⟨⟨earlier, hstory⟩, fun z hz => hlast z (by simp [hz]),
        fun z hz => hlasting z (by simp [hz])⟩, hlast x (by simp), hlasting x (by simp)⟩
  · rintro (⟨rfl, rfl⟩ | ⟨before, rfl, ⟨⟨earlier, rfl⟩, hlast, hlasting⟩, hregister, hends⟩)
    · exact ⟨⟨story, rfl⟩, by simp, by simp⟩
    · refine ⟨⟨earlier, by simp⟩, fun z hz => ?_, fun z hz => ?_⟩
      · rcases List.mem_append.mp hz with hz | hz
        · exact hlast z hz
        · rwa [List.mem_singleton.mp hz]
      · rcases List.mem_append.mp hz with hz | hz
        · exact hlasting z hz
        · rwa [List.mem_singleton.mp hz]

theorem ofNat_runsIn_concat : UInt64.ofNat (runsIn i (story ++ [x])) =
    UInt64.ofNat (runsIn i story) + if x.2 = .run i then 1 else 0 := by
  by_cases h : x.2 = .run i <;> simp [runsIn, h, UInt64.ofNat_add]

/-- The entry that a thread has is what was said of it since it last registered. -/
theorem get?_tell_iff (story : Story) (i : Ident) (e : Root) :
    (({} : Registry).tell story).get? i = some e ↔
      ∃ later, Standing story i e.registrar later ∧ e.runs = UInt64.ofNat (runsIn i later) := by
  induction story using List.reverseRecOn generalizing e with
  | nil =>
    refine ⟨fun h => (by cases h), ?_⟩
    rintro ⟨later, ⟨⟨earlier, h⟩, -, -⟩, -⟩
    simp at h
  | append_singleton story x ih =>
    rw [tell_concat]
    by_cases hregister : x.2 = .register i
    · rw [hregister, get?_hear_register]
      constructor
      · rintro ⟨rfl⟩
        exact ⟨[], standing_concat.mpr (.inl ⟨Prod.ext rfl hregister, rfl⟩), rfl⟩
      · rintro ⟨later, hstanding, hruns⟩
        rcases standing_concat.mp hstanding with ⟨rfl, rfl⟩ | ⟨_, _, _, hne, _⟩
        · exact congrArg some (by rw [Root.mk.injEq]; exact ⟨rfl, hruns.symm⟩)
        · exact absurd hregister hne
    by_cases hends : x.2.ends i = true
    · rw [get?_hear_of_ends hends]
      refine ⟨fun h => (by cases h), ?_⟩
      rintro ⟨later, hstanding, -⟩
      rcases standing_concat.mp hstanding with ⟨rfl, -⟩ | ⟨_, _, _, _, hlasts⟩
      · exact absurd rfl hregister
      · rw [hends] at hlasts
        cases hlasts
    have hlasts : x.2.ends i = false := by simpa using hends
    rw [get?_hear_of_lasts hregister hlasts, Option.map_eq_some_iff]
    constructor
    · rintro ⟨e, he, rfl⟩
      obtain ⟨before, hstanding, hruns⟩ := (ih e).mp he
      refine ⟨before ++ [x],
        standing_concat.mpr (.inr ⟨before, rfl, hstanding, hregister, hlasts⟩), ?_⟩
      rw [ofNat_runsIn_concat, ← hruns]
    · rintro ⟨later, hstanding, hruns⟩
      rcases standing_concat.mp hstanding with ⟨rfl, -⟩ | ⟨before, rfl, hbefore, -, -⟩
      · exact absurd rfl hregister
      · rw [ofNat_runsIn_concat] at hruns
        refine ⟨⟨e.registrar, UInt64.ofNat (runsIn i before)⟩,
          (ih _).mpr ⟨before, hbefore, rfl⟩, ?_⟩
        rw [← hruns]

theorem get?_tell_of_not_concerns (story : Story) (h : ∀ x ∈ story, x.2.concerns i = false) :
    (r.tell story).get? i = r.get? i := by
  induction story using List.reverseRecOn with
  | nil => rfl
  | append_singleton story x ih =>
    rw [tell_concat, get?_hear_of_not_concerns (h x (by simp))]
    exact ih fun y hy => h y (by simp [hy])

theorem ascending_tell (story : Story) : (({} : Registry).tell story).table.Ascending := by
  induction story using List.reverseRecOn with
  | nil => exact Table.ascending_empty
  | append_singleton story x ih =>
    rw [tell_concat]
    exact ascending_hear ih

structure Mirrors (r : Registry) (story : Story) : Prop where
  root_iff : ∀ i, i ∈ r.roots ↔ ∃ registrar later, Standing story i registrar later
  entry_iff : ∀ i e, r.get? i = some e ↔
    ∃ later, Standing story i e.registrar later ∧ e.runs = UInt64.ofNat (runsIn i later)
  ascending : r.roots.Pairwise (· < ·)
  counted : r.roots.length = r.count
  registered_iff : ∀ i, r.isRegistered i = true ↔ i ∈ r.roots
  known_iff : ∀ i, (r.get? i).isSome = true ↔ i ∈ r.roots

theorem mirrors_tell (story : Story) : (({} : Registry).tell story).Mirrors story := by
  have hroots : ∀ i, (({} : Registry).tell story).isRegistered i = true ↔
      i ∈ (({} : Registry).tell story).roots := fun i => (Table.mem_keys_iff _ i).symm
  constructor
  case root_iff =>
    intro i
    rw [← hroots, isRegistered, Table.contains, Option.isSome_iff_exists]
    constructor
    · rintro ⟨e, he⟩
      obtain ⟨later, hstanding, -⟩ := (get?_tell_iff story i e).mp he
      exact ⟨e.registrar, later, hstanding⟩
    · rintro ⟨registrar, later, hstanding⟩
      exact ⟨⟨registrar, UInt64.ofNat (runsIn i later)⟩,
        (get?_tell_iff story i _).mpr ⟨later, hstanding, rfl⟩⟩
  case entry_iff => exact get?_tell_iff story
  case ascending => exact ascending_tell story
  case counted => exact Table.length_keys _
  case registered_iff => exact hroots
  case known_iff => exact hroots

namespace Guarded

theorem registry_step (s : Guarded) (op : Op) :
    (s.step caller op).registry = s.registry.tell (said s.guards [(caller, op)]) := by
  cases op with
  | hook c => rfl
  | guard name i =>
    cases h : s.guards.get? name <;> simp [step, said, tell, h, Guarded.hear]
  | drop name =>
    cases h : s.guards.get? name <;> simp [step, said, tell, h, Guarded.hear]

theorem said_cons (s : Guarded) (op : Op) (rest : List (Ident × Op)) :
    said s.guards ((caller, op) :: rest) =
      said s.guards [(caller, op)] ++ said (s.step caller op).guards rest := by
  cases op with
  | hook c => rfl
  | guard name i =>
    cases h : s.guards.get? name <;> simp [step, said, h, Guarded.hear]
  | drop name =>
    cases h : s.guards.get? name <;> simp [step, said, h, Guarded.hear]

theorem registry_run (s : Guarded) (ops : List (Ident × Op)) :
    (s.run ops).registry = s.registry.tell (said s.guards ops) := by
  induction ops generalizing s with
  | nil => rfl
  | cons first rest ih =>
    obtain ⟨caller, op⟩ := first
    rw [run, ih, said_cons s op rest, tell_append, registry_step]

/-- After any operations of any threads the registry knows what it was told, no more and no less.
An operation that says nothing about a thread leaves its entry as it is. -/
theorem registry_mirrors (ops : List (Ident × Op)) :
    (run {} ops).registry.Mirrors (said {} ops) ∧
      ∀ caller op i, (∀ x ∈ said (run {} ops).guards [(caller, op)], x.2.concerns i = false) →
        ((run {} ops).step caller op).registry.get? i = (run {} ops).registry.get? i := by
  constructor
  · rw [registry_run]
    exact mirrors_tell _
  · intro caller op i h
    rw [registry_step]
    exact get?_tell_of_not_concerns _ h

/-- A guard that goes takes the newer registration of its thread along, and a fork all but one. -/
theorem registry_mirrors_forked :
    let a : Ident := ⟨1, by decide⟩
    let b : Ident := ⟨2, by decide⟩
    let ops : List (Ident × Op) := [(a, .guard "outer" a), (a, .hook (.run a)),
      (b, .hook (.register b)), (a, .guard "inner" a), (b, .hook (.run b)), (a, .drop "outer"),
      (a, .hook (.register a)), (a, .hook .beforeFork), (b, .hook (.afterFork b)),
      (a, .drop "inner"), (b, .hook (.run b))]
    let s : Guarded := run {} ops
    s.registry.runs = [(b, 2)] ∧ s.registry.Mirrors (said {} ops) ∧
      (∀ x ∈ said s.guards [(a, .guard "last" a)], x.2.concerns b = false) ∧
      (s.step a (.guard "last" a)).registry.get? b = s.registry.get? b := by
  intro a b ops s
  have hframe : ∀ x ∈ said s.guards [(a, .guard "last" a)], x.2.concerns b = false := by decide
  obtain ⟨hmirrors, hkeeps⟩ := registry_mirrors ops
  exact ⟨by decide, hmirrors, hframe, hkeeps a _ b hframe⟩

end Guarded

end Registry

end InterpreterLock
