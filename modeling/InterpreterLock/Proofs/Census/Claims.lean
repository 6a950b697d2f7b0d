import InterpreterLock.Proofs.Census.Change

/-!
# Who has which ident

Every ident that was handed out has one claim to it: by the thread that has it or is to have it, by a
spawn that has yet to start its thread, or by a spawn that failed. The idents come in order, so
while fewer are handed out than there are, all of them differ, and so do those of any two threads.
-/

set_option autoImplicit false

namespace InterpreterLock

def IdentSource.nth (k : ℕ) : Ident := (IdentSource.mk (.ofNat (k + 1))).take.1

theorem IdentSource.nth_number {k : ℕ} (hk : k < 2 ^ 64 - 1) : (nth k).number.toNat = k + 1 := by
  have hto : (UInt64.ofNat (k + 1)).toNat = k + 1 := UInt64.toNat_ofNat_of_lt' (by
    rw [UInt64.size]
    omega)
  have hne : UInt64.ofNat (k + 1) ≠ 0 := by
    intro h
    rw [h] at hto
    exact absurd hto (by simp)
  rw [nth, take_number (s := ⟨.ofNat (k + 1)⟩) hne]
  exact hto

namespace Census

structure System.Counted (s : System) : Prop where
  next : s.idents = ⟨.ofNat (s.handed.length + 1)⟩
  handed : s.handed = (List.range s.handed.length).reverse.map IdentSource.nth

section

variable {s s' : System} {n : ℕ} {w : Member} {ch : Change}

theorem System.Counted.act (hs : s.Counted) (h : Acts s s') : s'.Counted := by
  cases h with
  | still => exact hs
  | arrive => exact ⟨hs.next, hs.handed⟩
  | change n w ch hn h =>
    have hout := h.handsOut
    cases hi : ch.handed with
    | none =>
      have hsame : (s.commit n ch).handed = s.handed := by simp [commit, hi]
      simp only [IdentSource.HandsOut, hi] at hout
      exact ⟨by rw [hsame, commit, hout, hs.next], by rw [hsame, ← hs.handed]⟩
    | some i =>
      have hmore : (s.commit n ch).handed = i :: s.handed := by simp [commit, hi]
      simp only [IdentSource.HandsOut, hi] at hout
      obtain ⟨rfl, hnext⟩ := hout
      constructor
      · rw [hmore, commit, hnext, hs.next, List.length_cons, UInt64.ofNat_add (_ + 1)]
        rfl
      · rw [hmore, List.length_cons, List.range_succ, List.reverse_append, List.map_append,
          ← hs.handed, hs.next]
        rfl

theorem System.Counted.numbers (hs : s.Counted) (hlt : s.handed.length < 2 ^ 64 - 1) :
    s.handed.map (fun i => i.number.toNat) =
      (List.range s.handed.length).reverse.map (· + 1) := by
  conv_lhs => rw [hs.handed, List.map_map]
  refine List.map_congr_left fun k hk => ?_
  have hk' : k < s.handed.length := List.mem_range.mp (List.mem_reverse.mp hk)
  exact IdentSource.nth_number (hk'.trans hlt)

theorem System.Counted.nodup (hs : s.Counted) (hlt : s.handed.length < 2 ^ 64 - 1) :
    s.handed.Nodup := by
  apply List.Nodup.of_map fun i : Ident => i.number.toNat
  rw [hs.numbers hlt]
  refine List.Nodup.map (fun a b => Nat.succ.inj) ?_
  exact List.nodup_reverse.mpr List.nodup_range

end

end Census

/-- A step of a wrapper leaves it so that the ident is remembered if it has been installed. -/
theorem Wrapper.remembered_step (me : Ident) (b : Bootstrap) {own : Option Ident} {c : Wrapper}
    (h : own = if c = .install then none else some me) :
    c.remembered me own = if (c.step me b).progress.next? = some .install then none else some me := by
  cases c with
  | install =>
    obtain rfl : own = none := h
    rfl
  | _ =>
    obtain rfl : own = some me := h
    rfl

namespace Census

section

variable {s s' : System} {n : ℕ} {w : Member} {ch : Change}

structure Member.Sound (w : Member) : Prop where
  own : ∀ home given place, w.stage = .spawned home given place →
    w.own = if place = some .install then none else some given
  errand : ∀ e, w.errand = some e → e.place.Accords e.used

theorem Member.sound_new : ({} : Member).Sound where
  own _ _ _ hs := by cases hs
  errand _ he := by cases he

theorem Member.Sound.own_of_asks (hw : w.Sound) (ha : w.stage.asks = true) {home : ℕ}
    {given : Ident} {place : Option Wrapper} (hs : w.stage = .spawned home given place) :
    w.own = some given := by
  rw [hw.own home given place hs, if_neg]
  rintro rfl
  rw [hs] at ha
  cases ha

theorem Changes.sound (h : Changes s n w ch) (hw : w.Sound) : ch.member.Sound := by
  cases h with
  | ask ha =>
    refine ⟨fun home given place hs => ?_, hw.errand⟩
    have hown : w.own = some given := hw.own_of_asks ha hs
    have hkept : (s.ask w).member.own = some given := (Changes.ask (n := n) ha).own hown
    rw [hkept, ← hw.own home given place hs, hown]
  | beginSpawn home name ho he =>
    refine ⟨hw.own, fun e hnew => ?_⟩
    cases hnew
    rfl
  | stepSpawn host e he =>
    refine ⟨hw.own, fun e' he' => ?_⟩
    obtain ⟨c, hc, rfl⟩ := Option.map_eq_some_iff.mp he'
    exact (e.place.step_accords host e.name _ s.members.length (hw.errand e he)).of_next? hc
  | endEntry home given ending hs he =>
    refine ⟨fun home' given' place hs' => ?_, hw.errand⟩
    cases hs'
    rw [if_neg (by simp)]
    exact hw.own home given _ hs
  | stepWrapper home given c hs he =>
    refine ⟨fun home' given' place hs' => ?_, hw.errand⟩
    cases hs'
    exact c.remembered_step given (s.homes home) (by simpa using hw.own home given _ hs)

theorem Changes.sound_started (h : Changes s n w ch) {v : Member} (hv : ch.started = some v) :
    v.Sound := by
  cases h with
  | stepSpawn host e he =>
    obtain ⟨i, -, rfl⟩ := Option.map_eq_some_iff.mp hv
    refine ⟨fun home given place hs => ?_, fun e' he' => by cases he'⟩
    cases hs
    rfl
  | _ => cases hv

theorem Changes.fits (h : Changes s n w ch) (hw : w.Sound) {a : Answer} (ha : ch.answer = some a) :
    a.used.Fits a.result := by
  cases h with
  | stepSpawn host e he =>
    obtain ⟨result, hr, rfl⟩ := Option.map_eq_some_iff.mp ha
    have hm := e.place.step_accords host e.name ⟨s.homes e.home, s.idents⟩ s.members.length
      (hw.errand e he)
    cases hp : (e.place.step host e.name ⟨s.homes e.home, s.idents⟩).progress with
    | going c =>
      rw [hp] at hr
      cases hr
    | done r =>
      rw [hp] at hr hm
      cases hr
      exact hm
    | unwound p =>
      rw [hp] at hr hm
      cases hr
      exact hm
  | _ => cases ha

structure System.Sound (s : System) : Prop where
  members : ∀ (n : ℕ) (w : Member), s.members[n]? = some w → w.Sound
  answers : ∀ a ∈ s.answers, a.used.Fits a.result

theorem System.Sound.act (hs : s.Sound) (h : Acts s s') : s'.Sound := by
  cases h with
  | still => exact hs
  | arrive => exact ⟨forall_members_arrive hs.members Member.sound_new, hs.answers⟩
  | change n w ch hn h =>
    constructor
    · exact forall_members_commit (P := fun _ w => w.Sound) hn hs.members
        (h.sound (hs.members n w hn)) fun v hv => h.sound_started hv
    · intro a ha
      rcases List.mem_append.mp ha with hnow | hearlier
      · exact h.fits (hs.members n w hn) (Option.mem_toList.mp hnow)
      · exact hs.answers a hearlier

def Used.unclaimed (u : Used) : List Ident :=
  match u.launched with
  | none => u.ident.toList
  | some _ => []

def Member.ident? (w : Member) : Option Ident :=
  match w.stage with
  | .plain => w.own
  | .spawned _ given _ => some given

def Member.claims (w : Member) : List Ident :=
  w.ident?.toList ++ w.errand.toList.flatMap fun e => e.used.unclaimed

def System.claims (s : System) : List Ident :=
  s.members.flatMap Member.claims ++ s.answers.flatMap fun a => a.used.unclaimed

def Change.claims (ch : Change) : List Ident :=
  ch.member.claims ++ ch.started.toList.flatMap Member.claims ++
    ch.answer.toList.flatMap fun a => a.used.unclaimed

end

end Census

theorem Spawn.use_balances (host : Host) (name : Option String) (n : Nursery) (fresh : ℕ)
    {u : Census.Used} {c : Spawn} (h : c.Accords u) :
    ((c.use host name n fresh u).unclaimed ++ (c.launches? host name n).toList).Perm
      ((c.takes? n).toList ++ u.unclaimed) := by
  cases c with
  | takeIdent =>
    obtain rfl : u = {} := h
    exact .refl _
  | launch i =>
    obtain rfl : u = ⟨some i, none⟩ := h
    simp only [use, launches?]
    split <;> exact .refl _
  | _ => simp [use, launches?, takes?]

namespace Census

section

variable {s s' : System} {n : ℕ} {w : Member} {ch : Change}

/-- A change hands out just what it adds to the claims. -/
theorem Changes.balances (h : Changes s n w ch) (hw : w.Sound) :
    ch.claims.Perm (ch.handed.toList ++ w.claims) := by
  cases h with
  | ask ha =>
    cases hs : w.stage with
    | plain =>
      cases hown : w.own <;>
        simp [Change.claims, System.ask, System.still, IdentSource.ask, Member.claims,
          Member.ident?, hs, hown]
    | spawned home given place =>
      simp [Change.claims, System.ask, System.still, Member.claims, Member.ident?, hs,
        hw.own_of_asks ha hs]
  | beginSpawn home name ho he =>
    simp [Change.claims, System.beginSpawn, System.still, Member.claims, Member.ident?, he,
      Used.unclaimed]
  | stepSpawn host e he =>
    have hused := e.place.use_balances host e.name ⟨s.homes e.home, s.idents⟩ s.members.length
      (hw.errand e he)
    have hstarted : (s.stepSpawn w host e).started.toList.flatMap Member.claims =
        (e.place.launches? host e.name ⟨s.homes e.home, s.idents⟩).toList := by
      simp only [System.stepSpawn]
      cases e.place.launches? host e.name ⟨s.homes e.home, s.idents⟩ <;> rfl
    -- what the spawn has used goes on with it or into its answer
    have hleft : ((s.stepSpawn w host e).member.errand.toList.flatMap fun e => e.used.unclaimed) ++
        ((s.stepSpawn w host e).answer.toList.flatMap fun a => a.used.unclaimed) =
        (e.place.use host e.name ⟨s.homes e.home, s.idents⟩ s.members.length
          e.used).unclaimed := by
      simp only [System.stepSpawn]
      cases (e.place.step host e.name ⟨s.homes e.home, s.idents⟩).progress <;>
        simp [Progress.next?, Progress.result?]
    have hident : (s.stepSpawn w host e).member.ident? = w.ident? := rfl
    refine List.perm_iff_count.mpr fun j => ?_
    have hj := hused.count_eq j
    rw [← hleft, ← hstarted] at hj
    simp only [List.count_append] at hj
    simp only [Change.claims, Member.claims, he, hident, List.count_append, Option.toList_some,
      List.flatMap_singleton]
    have hhanded : (s.stepSpawn w host e).handed =
        e.place.takes? ⟨s.homes e.home, s.idents⟩ := rfl
    rw [hhanded]
    omega
  | endEntry home given ending hs he =>
    simp [Change.claims, System.endEntry, System.still, Member.claims, Member.ident?, hs]
  | stepWrapper home given c hs he =>
    simp [Change.claims, System.stepWrapper, System.still, Member.claims, Member.ident?, hs]

theorem count_claims_commit (hn : s.members[n]? = some w) (ch : Change) (j : Ident) :
    (s.commit n ch).claims.count j + w.claims.count j = s.claims.count j + ch.claims.count j := by
  have hset := sum_map_set (fun w : Member => w.claims.count j) s.members ch.member hn
  simp only [System.claims, System.commit, Change.claims, List.count_append, List.flatMap_append,
    List.count_flatMap, Function.comp_def] at hset ⊢
  omega

def System.Tallied (s : System) : Prop := s.claims.Perm s.handed

theorem System.Tallied.act (hs : s.Tallied) (hsound : s.Sound) (h : Acts s s') : s'.Tallied := by
  cases h with
  | still => exact hs
  | arrive =>
    have hnew : ({} : Member).claims = [] := rfl
    simpa only [Tallied, claims, List.flatMap_append, List.flatMap_singleton, hnew,
      List.append_nil] using hs
  | change n w ch hn h =>
    refine List.perm_iff_count.mpr fun j => ?_
    have hclaims := count_claims_commit hn ch j
    have hchange := (h.balances (hsound.members n w hn)).count_eq j
    have hold := List.Perm.count_eq hs j
    have hhanded : (s.commit n ch).handed.count j = ch.handed.toList.count j + s.handed.count j :=
      List.count_append
    rw [List.count_append] at hchange
    omega

/-- Two threads that have idents have two idents. -/
theorem System.Tallied.apart (hs : s.Tallied) (hd : s.handed.Nodup) {m : ℕ} {v : Member}
    {i : Ident} (hw : s.members[n]? = some w) (hv : s.members[m]? = some v)
    (hwi : w.ident? = some i) (hvi : v.ident? = some i) : n = m := by
  have hclaims : (s.members.flatMap Member.claims).Nodup :=
    (List.nodup_append.mp (hs.nodup_iff.mpr hd)).1
  have hpair := (List.nodup_flatMap.mp hclaims).2
  have hmem {u : Member} (hu : u.ident? = some i) : i ∈ u.claims := by
    rw [Member.claims, hu]
    exact List.mem_append_left _ (Option.mem_toList.mpr rfl)
  by_contra hne
  obtain ⟨hnlt, rfl⟩ := List.getElem?_eq_some_iff.mp hw
  obtain ⟨hmlt, rfl⟩ := List.getElem?_eq_some_iff.mp hv
  rcases Nat.lt_or_gt_of_ne hne with hlt | hlt
  · exact List.pairwise_iff_getElem.mp hpair n m hnlt hmlt hlt (hmem hwi) (hmem hvi)
  · exact List.pairwise_iff_getElem.mp hpair m n hmlt hnlt hlt (hmem hvi) (hmem hwi)

end

end Census

end InterpreterLock
