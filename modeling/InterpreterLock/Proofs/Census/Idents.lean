import InterpreterLock.Proofs.Census.Claims

/-!
# Idents tell threads apart

A thread that asks for its ident always gets the same, and no two threads get the same. The ident in
the answer of a spawn is that of the thread it has started, which registers with it and gets it from
its first statement on.
-/

set_option autoImplicit false

namespace InterpreterLock

theorem Spawn.use_launched {host : Host} {name : Option String} {n : Nursery} {fresh k : ℕ}
    {u : Census.Used} {c : Spawn} {i : Ident} (h : c.Accords u)
    (hu : c.use host name n fresh u = ⟨some i, some k⟩) :
    u = ⟨some i, some k⟩ ∨ k = fresh ∧ c.launches? host name n = some i := by
  cases c with
  | takeIdent =>
    obtain rfl : u = {} := h
    cases hu
  | launch j =>
    obtain rfl : u = ⟨some j, none⟩ := h
    simp only [use, launches?] at hu ⊢
    split at hu
    · cases hu
      exact .inr ⟨rfl, by rw [if_pos (by assumption)]⟩
    · cases hu
  | _ => exact .inl hu

def Wrapper.hasRegistered : Wrapper → Bool
  | .install | .register => false
  | _ => true

namespace Census

def Change.uses (ch : Change) : List Used :=
  ch.member.errand.toList.map Errand.used ++ ch.answer.toList.map Answer.used

def Stage.hasRegistered : Stage → Bool
  | .plain => false
  | .spawned _ _ none => true
  | .spawned _ _ (some c) => c.hasRegistered

def Used.IsTrue (s : System) (u : Used) : Prop :=
  ∀ i k, u = ⟨some i, some k⟩ → ∃ home, s.Started k home i

def System.toldTo (s : System) (k : ℕ) : List HookCall :=
  (s.told.filter (·.home = k)).map Told.call

section

variable {s s' : System} {n : ℕ} {w : Member} {ch : Change} {u : Used}

theorem Used.IsTrue.act (hu : u.IsTrue s) (h : Acts s s') : u.IsTrue s' := by
  intro i k huik
  obtain ⟨home, hk⟩ := hu i k huik
  exact ⟨home, hk.act h⟩

theorem Changes.isTrue_used (h : Changes s n w ch) (hn : s.members[n]? = some w) (hw : w.Sound)
    (hold : ∀ e, w.errand = some e → e.used.IsTrue s) (hu : u ∈ ch.uses) :
    u.IsTrue (s.commit n ch) := by
  have hacts : Acts s (s.commit n ch) := .change n w ch hn h
  have hsame (he : ch.member.errand = w.errand) (ha : ch.answer = none) :
      u.IsTrue (s.commit n ch) := by
    rw [Change.uses, he, ha] at hu
    obtain ⟨e, hmem, rfl⟩ : ∃ e, w.errand = some e ∧ e.used = u := by simpa using hu
    exact (hold e hmem).act hacts
  cases h with
  | beginSpawn home name ho he =>
    obtain rfl : u = {} := by simpa [Change.uses, System.beginSpawn, System.still] using hu
    exact fun i k h => by cases h
  | stepSpawn host e he =>
    have huse : u = e.place.use host e.name ⟨s.homes e.home, s.idents⟩ s.members.length e.used := by
      rcases List.mem_append.mp hu with hgoing | hended
      · obtain ⟨e', he', rfl⟩ := List.mem_map.mp hgoing
        obtain ⟨c, -, rfl⟩ := Option.map_eq_some_iff.mp (Option.mem_toList.mp he')
        rfl
      · obtain ⟨a, ha, rfl⟩ := List.mem_map.mp hended
        obtain ⟨r, -, rfl⟩ := Option.map_eq_some_iff.mp (Option.mem_toList.mp ha)
        rfl
    intro i k hik
    -- the thread was there, or it is the one that this step starts
    rcases Spawn.use_launched (hw.errand e he) (huse.symm.trans hik) with hbefore | ⟨rfl, hl⟩
    · obtain ⟨home, hk⟩ := hold e he i k hbefore
      exact ⟨home, hk.act hacts⟩
    · exact ⟨e.home, _, commit_members_fresh (Option.map_eq_some_iff.mpr ⟨i, hl, rfl⟩), rfl⟩
  | _ => exact hsame rfl rfl

/-- A thread that was just started is in no spawn and has not registered. -/
theorem Changes.started_fresh (h : Changes s n w ch) {v : Member} (hv : ch.started = some v) :
    v.errand = none ∧ v.stage.hasRegistered = false := by
  cases h with
  | stepSpawn host e he =>
    obtain ⟨i, -, rfl⟩ := Option.map_eq_some_iff.mp hv
    exact ⟨rfl, rfl⟩
  | _ => cases hv

/-- A thread that is past its registration has told the collector of it. -/
theorem Changes.registers (h : Changes s n w ch) {home : ℕ} {i : Ident}
    (ho : ch.member.stage.origin? = some (home, i)) (hr : ch.member.stage.hasRegistered = true) :
    w.stage.hasRegistered = true ∨ ((s.homes home).collector.isSome = true →
      ch.told = some ⟨n, home, .register i⟩) := by
  cases h with
  | endEntry home' given ending hs he =>
    left
    rw [hs]
    rfl
  | stepWrapper home' given c hs he =>
    cases ho
    cases c with
    | install => cases hr
    | register =>
      right
      intro ha
      simp only [System.stepWrapper, ha, if_true]
      rfl
    | _ =>
      left
      rw [hs]
      rfl
  | _ => exact .inl hr

/-- A wrapper tells the collector of its own thread only. -/
theorem Changes.tells (h : Changes s n w ch) {t : Told} (ht : ch.told = some t) :
    t.thread = n ∧ ∃ i, w.stage.origin? = some (t.home, i) ∧
      (t.call = .register i ∨ t.call = .deregister i) := by
  cases h with
  | stepWrapper home given c hs he =>
    simp only [System.stepWrapper] at ht
    split at ht
    · obtain ⟨call, hcall, rfl⟩ := Option.map_eq_some_iff.mp ht
      refine ⟨rfl, given, by rw [hs]; rfl, ?_⟩
      cases c with
      | register =>
        cases hcall
        exact .inl rfl
      | deregister ending =>
        cases hcall
        exact .inr rfl
      | _ => cases hcall
    · cases ht
  | _ => cases ht

theorem Changes.attached (h : Changes s n w ch) (k : ℕ) :
    (ch.homes k).collector.isSome = (s.homes k).collector.isSome := by
  have hheard := congrArg Option.isSome (h.heard k)
  rwa [Option.isSome_map, Option.isSome_map] at hheard

/-- The ident a thread gets when it asks is the one it remembers from then on. -/
theorem Changes.says (h : Changes s n w ch) {i : Ident} (hi : ch.said = some i) :
    ch.member.own = some i := by
  cases h with
  | ask ha =>
    cases hi
    simp only [System.ask, System.still]
    cases w.own <;> rfl
  | _ => cases hi

structure System.Truthful (homes : ℕ → Bootstrap) (s : System) : Prop where
  errands : ∀ (n : ℕ) (w : Member), s.members[n]? = some w → ∀ e, w.errand = some e →
    e.used.IsTrue s
  answers : ∀ a ∈ s.answers, a.used.IsTrue s
  said : ∀ p ∈ s.said, s.Owns p.1 p.2
  told : ∀ t ∈ s.told, ∃ i, s.Started t.thread t.home i ∧
    (t.call = .register i ∨ t.call = .deregister i)
  registered : ∀ (n : ℕ) (w : Member), s.members[n]? = some w → ∀ home i,
    w.stage.origin? = some (home, i) → w.stage.hasRegistered = true →
      (s.homes home).collector.isSome = true → ⟨n, home, .register i⟩ ∈ s.told
  heard : ∀ k, (s.homes k).collector.map Collector.heard =
    (homes k).collector.map fun c => s.toldTo k ++ c.heard

variable {homes : ℕ → Bootstrap}

theorem System.Truthful.commit (hs : s.Truthful homes) (hsound : s.Sound)
    (hn : s.members[n]? = some w) (h : Changes s n w ch) : (s.commit n ch).Truthful homes := by
  have hacts : Acts s (s.commit n ch) := .change n w ch hn h
  have hused {u : Used} (hu : u ∈ ch.uses) : u.IsTrue (s.commit n ch) :=
    h.isTrue_used hn (hsound.members n w hn) (hs.errands n w hn) hu
  constructor
  · refine forall_members_commit hn (fun m v hv e he => (hs.errands m v hv e he).act hacts) ?_ ?_
    · intro e he
      refine hused (List.mem_append_left _ (List.mem_map_of_mem ?_))
      exact Option.mem_toList.mpr he
    · intro v hv e he
      rw [(h.started_fresh hv).1] at he
      cases he
  · intro a ha
    rcases List.mem_append.mp ha with hnow | hearlier
    · exact hused (List.mem_append_right _ (List.mem_map_of_mem hnow))
    · exact (hs.answers a hearlier).act hacts
  · intro p hp
    rcases List.mem_append.mp hp with hnow | hearlier
    · obtain ⟨i, hi, rfl⟩ := Option.map_eq_some_iff.mp (Option.mem_toList.mp hnow)
      exact ⟨ch.member, commit_members_self hn, h.says hi⟩
    · exact (hs.said p hearlier).act hacts
  · intro t ht
    rcases List.mem_append.mp ht with hnow | hearlier
    · obtain ⟨hthread, i, ho, hcall⟩ := h.tells (Option.mem_toList.mp hnow)
      have hstarted : s.Started t.thread t.home i := ⟨w, by rw [hthread]; exact hn, ho⟩
      exact ⟨i, hstarted.act hacts, hcall⟩
    · obtain ⟨i, hstarted, hcall⟩ := hs.told t hearlier
      exact ⟨i, hstarted.act hacts, hcall⟩
  · refine forall_members_commit hn ?_ ?_ ?_
    · intro m v hv home i ho hr ha
      exact List.mem_append_right _ (hs.registered m v hv home i ho hr (h.attached home ▸ ha))
    · intro home i ho hr ha
      have hattached : (s.homes home).collector.isSome = true := h.attached home ▸ ha
      rcases h.registers ho hr with hbefore | hnow
      · have horigin : w.stage.origin? = some (home, i) := h.origin.symm.trans ho
        exact List.mem_append_right _ (hs.registered n w hn home i horigin hbefore hattached)
      · exact List.mem_append_left _ (Option.mem_toList.mpr (hnow hattached))
    · intro v hv home i ho hr
      rw [(h.started_fresh hv).2] at hr
      cases hr
  · intro k
    have htold : (s.commit n ch).toldTo k =
        (ch.told.toList.filter (·.home = k)).map Told.call ++ s.toldTo k := by
      simp only [toldTo, System.commit, List.filter_append, List.map_append]
    calc (ch.homes k).collector.map Collector.heard
        = ((s.homes k).collector.map Collector.heard).map
            ((ch.told.toList.filter (·.home = k)).map Told.call ++ ·) := by
          rw [h.heard k, Option.map_map]
          rfl
      _ = (homes k).collector.map fun c => (s.commit n ch).toldTo k ++ c.heard := by
          rw [hs.heard k, Option.map_map, htold]
          simp only [Function.comp_def, List.append_assoc]

theorem System.Truthful.act (hs : s.Truthful homes) (hsound : s.Sound) (h : Acts s s') :
    s'.Truthful homes := by
  cases h with
  | still => exact hs
  | arrive =>
    have hacts : Acts s { s with members := s.members ++ [{}] } := .arrive
    constructor
    · exact forall_members_arrive (fun m v hv e he => (hs.errands m v hv e he).act hacts)
        fun e he => by cases he
    · exact fun a ha => (hs.answers a ha).act hacts
    · exact fun p hp => (hs.said p hp).act hacts
    · intro t ht
      obtain ⟨i, hstarted, hcall⟩ := hs.told t ht
      exact ⟨i, hstarted.act hacts, hcall⟩
    · exact forall_members_arrive hs.registered fun home i ho => by cases ho
    · exact hs.heard
  | change n w ch hn h => exact hs.commit hsound hn h

structure System.Identified (homes : ℕ → Bootstrap) (s : System) : Prop where
  numbers : s.handed.map (fun i => i.number.toNat) =
    (List.range s.handed.length).reverse.map (· + 1)
  counter : s.idents.next.toNat = s.handed.length + 1
  distinct : s.handed.Nodup
  nonzero : ∀ i ∈ s.handed, i.number ≠ 0
  tallied : s.claims.Perm s.handed
  apart : ∀ n m i, s.Owns n i → s.Owns m i → n = m
  asked : ∀ (n : ℕ) (w : Member), s.members[n]? = some w → w.stage.asks = true →
    ∃ i, (s.act (.thread n .ask)).said = (n, i) :: s.said
  said : ∀ n i, (n, i) ∈ s.said → s.Owns n i
  same : ∀ n i j, (n, i) ∈ s.said → (n, j) ∈ s.said → i = j
  handle : ∀ a ∈ s.answers, ∀ i, a.result = .ok (.ok i) →
    ∃ k home, a.used = ⟨some i, some k⟩ ∧ s.Started k home i
  limited : ∀ a ∈ s.answers, ∀ l, a.result = .ok (.error (.limitReached l)) → a.used = {}
  spawned : ∀ n home i, s.Started n home i →
    (∀ j, (n, j) ∈ s.said → j = i) ∧
    ∀ t ∈ s.told, t.thread = n → t.home = home ∧ (t.call = .register i ∨ t.call = .deregister i)
  entry : ∀ (n : ℕ) (w : Member), s.members[n]? = some w → ∀ home i,
    w.stage.origin? = some (home, i) → w.stage.hasRegistered = true → w.own = some i ∧
      ((s.homes home).collector.isSome = true → ⟨n, home, .register i⟩ ∈ s.told)
  heard : ∀ k, (s.homes k).collector.map Collector.heard =
    (homes k).collector.map fun c => s.toldTo k ++ c.heard
  installs : ∀ (n : ℕ) (w : Member), s.members[n]? = some w → ∀ home i,
    w.stage = .spawned home i (some .install) → Ident.install w.own i = (true, some i)
  kept : (∀ n i a, s.Owns n i → (s.act a).Owns n i) ∧
    ∀ i j, Ident.install (some i) j = (false, some i)

structure System.Formed (homes : ℕ → Bootstrap) (s : System) : Prop where
  counted : s.Counted
  sound : s.Sound
  tallied : s.Tallied
  truthful : s.Truthful homes

theorem System.Formed.act (hs : s.Formed homes) (a : Action) : (s.act a).Formed homes where
  counted := hs.counted.act (act_cases s a)
  sound := hs.sound.act (act_cases s a)
  tallied := hs.tallied.act hs.sound (act_cases s a)
  truthful := hs.truthful.act hs.sound (act_cases s a)

theorem System.formed_start (homes : ℕ → Bootstrap) : (start homes).Formed homes where
  counted := ⟨rfl, rfl⟩
  sound := ⟨fun n w hn => (by cases hn), fun a ha => by cases ha⟩
  tallied := List.Perm.refl _
  truthful := by
    constructor
    · exact fun n w hn => by cases hn
    · exact fun a ha => by cases ha
    · exact fun p hp => by cases hp
    · exact fun t ht => by cases ht
    · exact fun n w hn => by cases hn
    · exact fun k => rfl

theorem System.formed_run (homes : ℕ → Bootstrap) (acts : List Action) :
    ((start homes).run acts).Formed homes :=
  Run.lasts (fun _ a h => h.act a) acts _ (formed_start homes)

/-- The ident a thread remembers is the one it has a claim to. -/
theorem Member.Sound.ident?_of_own (hw : w.Sound) {i : Ident} (hi : w.own = some i) :
    w.ident? = some i := by
  cases hstage : w.stage with
  | plain => rwa [Member.ident?, hstage]
  | spawned home given place =>
    have hown := hw.own home given place hstage
    rw [hi] at hown
    split at hown
    · cases hown
    · rw [Member.ident?, hstage, hown]

theorem Member.Sound.own_of_hasRegistered (hw : w.Sound) {home : ℕ} {i : Ident}
    (ho : w.stage.origin? = some (home, i)) (hr : w.stage.hasRegistered = true) :
    w.own = some i := by
  cases hstage : w.stage with
  | plain =>
    rw [hstage] at hr
    cases hr
  | spawned home' given place =>
    rw [hstage] at ho hr
    cases ho
    rw [hw.own home i place hstage, if_neg]
    rintro rfl
    cases hr

theorem System.Owns.unique {i j : Ident} (hi : s.Owns n i) (hj : s.Owns n j) : i = j := by
  obtain ⟨w, hw, hwi⟩ := hi
  obtain ⟨v, hv, hvj⟩ := hj
  obtain rfl : w = v := Option.some_inj.mp (hw.symm.trans hv)
  exact Option.some_inj.mp (hwi.symm.trans hvj)

theorem System.Started.unique {home home' : ℕ} {i j : Ident} (hi : s.Started n home i)
    (hj : s.Started n home' j) : home = home' ∧ i = j := by
  obtain ⟨w, hw, hwi⟩ := hi
  obtain ⟨v, hv, hvj⟩ := hj
  obtain rfl : w = v := Option.some_inj.mp (hw.symm.trans hv)
  exact Prod.mk.inj (Option.some_inj.mp (hwi.symm.trans hvj))

/-- A thread that was started remembers no other ident than the one that was chosen for it. -/
theorem System.Sound.eq_of_started (hs : s.Sound) {home : ℕ} {i j : Ident}
    (hi : s.Started n home i) (hj : s.Owns n j) : j = i := by
  obtain ⟨w, hw, ho⟩ := hi
  obtain ⟨v, hv, hvj⟩ := hj
  obtain rfl : w = v := Option.some_inj.mp (hw.symm.trans hv)
  have hident := (hs.members n w hw).ident?_of_own hvj
  cases hstage : w.stage with
  | plain =>
    rw [hstage] at ho
    cases ho
  | spawned home' given place =>
    rw [hstage] at ho
    rw [Member.ident?, hstage] at hident
    cases ho
    exact (Option.some_inj.mp hident).symm

theorem System.said_ask (hn : s.members[n]? = some w) (ha : w.stage.asks = true) :
    (s.act (.thread n .ask)).said = (n, (s.idents.ask w.own).1) :: s.said := by
  simp only [act, hn, Option.bind_some, change?, ha, if_true]
  rfl

theorem System.Formed.identified (hs : s.Formed homes) (hlt : s.handed.length < 2 ^ 64 - 1) :
    s.Identified homes where
  numbers := hs.counted.numbers hlt
  counter := by
    rw [hs.counted.next]
    exact UInt64.toNat_ofNat_of_lt' (by
      rw [UInt64.size]
      omega)
  distinct := hs.counted.nodup hlt
  nonzero := fun i _ => i.nonzero
  tallied := hs.tallied
  apart := by
    rintro n m i ⟨w, hw, hwi⟩ ⟨v, hv, hvi⟩
    exact hs.tallied.apart (hs.counted.nodup hlt) hw hv
      ((hs.sound.members n w hw).ident?_of_own hwi) ((hs.sound.members m v hv).ident?_of_own hvi)
  asked := fun n w hn ha => ⟨_, said_ask hn ha⟩
  said := fun n i h => hs.truthful.said (n, i) h
  same := fun n i j hi hj => (hs.truthful.said (n, i) hi).unique (hs.truthful.said (n, j) hj)
  handle := by
    intro a ha i hi
    have hfits := hs.sound.answers a ha
    rw [hi] at hfits
    obtain ⟨k, hk⟩ := hfits
    obtain ⟨home, hstarted⟩ := hs.truthful.answers a ha i k hk
    exact ⟨k, home, hk, hstarted⟩
  limited := by
    intro a ha l hl
    have hfits := hs.sound.answers a ha
    rwa [hl] at hfits
  spawned := by
    intro n home i hi
    refine ⟨fun j hj => hs.sound.eq_of_started hi (hs.truthful.said (n, j) hj), ?_⟩
    rintro t ht rfl
    obtain ⟨j, hj, hcall⟩ := hs.truthful.told t ht
    obtain ⟨rfl, rfl⟩ := hj.unique hi
    exact ⟨rfl, hcall⟩
  entry := fun n w hn home i ho hr =>
    ⟨(hs.sound.members n w hn).own_of_hasRegistered ho hr,
      hs.truthful.registered n w hn home i ho hr⟩
  heard := hs.truthful.heard
  installs := by
    intro n w hn home i hstage
    have hown : w.own = none := (hs.sound.members n w hn).own home i _ hstage
    rw [hown]
    rfl
  kept := ⟨fun n i a h => h.act (act_cases s a), fun i j => rfl⟩

/-- Any number of threads and bootstraps, in any interleaving of their steps, while the idents do
not run out. -/
theorem identified_run (homes : ℕ → Bootstrap) (acts : List Action)
    (hlt : ((System.start homes).run acts).handed.length < 2 ^ 64 - 1) :
    ((System.start homes).run acts).Identified homes :=
  (System.formed_run homes acts).identified hlt

end

/-- The first bootstrap has a collector and room for one thread. A thread that has asked for its
ident starts another, which asks too; the limit stops a spawn of the second, and the operating
system refuses it the next one. A third thread asks meanwhile, and then the second panics. -/
theorem identified_run_crowd :
    let homes (k : ℕ) : Bootstrap :=
      if k = 0 then { backend := .posix, collector := some {}, limit := some 1 }
      else { backend := .posix }
    let go (n : ℕ) : Action := .thread n (.step ⟨Host.usualMemory, fun _ => none⟩)
    let refused (n : ℕ) : Action := .thread n (.step ⟨Host.usualMemory, fun _ => some .tryAgain⟩)
    let acts : List Action :=
      [.arrive, .thread 0 .ask, .thread 0 (.spawn 0 none), go 0, go 0, go 0, go 1, go 0,
       go 1, .thread 1 .ask, .thread 1 (.spawn 0 none), go 1, go 1, .thread 1 (.spawn 1 none),
       go 1, .arrive, go 1, refused 1, .thread 2 .ask, go 1, go 1,
       .thread 1 (.finish (some (.raised "stop"))), go 1, go 1, go 1, .thread 0 .ask]
    let s := (System.start homes).run acts
    s.handed.length < 2 ^ 64 - 1 ∧ s.Identified homes ∧
      s.said.map (fun p => (p.1, p.2.number)) = [(0, 1), (2, 4), (1, 2), (0, 1)] ∧
      s.answers.map (fun a => (a.used.ident.map Ident.number, a.used.launched)) =
        [(some 3, none), (none, none), (some 2, some 1)] ∧
      s.told.map (fun t => (t.thread, t.home, t.call)) =
        [(1, 0, .deregister ⟨2, by decide⟩), (1, 0, .register ⟨2, by decide⟩)] :=
  ⟨by decide, identified_run _ _ (by decide), by decide, by decide, by decide⟩

end Census

end InterpreterLock
