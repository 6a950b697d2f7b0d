import InterpreterLock.Text.Blank
import InterpreterLock.Text.LowerCase
import Mathlib.Data.List.DropRight

/-!
# Names in any letter case

Of the first 128 characters only the capital letters are changed when text is lower-cased, each to
its small letter, and of all others the kelvin alone becomes one of them. So a name without a `k` is
read from the spellings in which capitals stand for small letters, and from no other text. White
space around a text does not matter where it is trimmed, and a name without any is not changed.
-/

set_option autoImplicit false

namespace InterpreterLock.Text

def AnyCase (name s : String) : Prop := s.toList.map Char.toLower = name.toList

instance (name s : String) : Decidable (AnyCase name s) := inferInstanceAs (Decidable (_ = _))

def isPlainMark (c : Char) : Bool := c.toNat < 128 && !isBlank c

theorem trim_eq_self {s : String} (h : ∀ c ∈ s.toList, isBlank c = false) : trim s = s := by
  have hfront : s.toList.dropWhile isBlank = s.toList :=
    List.dropWhile_eq_self_iff.mpr fun hl => by simp [h _ (List.getElem_mem hl)]
  have hback : s.toList.rdropWhile isBlank = s.toList :=
    List.rdropWhile_eq_self_iff.mpr fun hl => by simp [h _ (List.getLast_mem hl)]
  calc trim s = String.ofList ((s.toList.dropWhile isBlank).rdropWhile isBlank) := rfl
    _ = s := by rw [hfront, hback, String.ofList_toList]

def Padded (s t : String) : Prop :=
  ∃ front back : List Char, (∀ c ∈ front ++ back, isBlank c = true) ∧
    t.toList = front ++ s.toList ++ back

theorem trimChars_append {front cs back : List Char} (h : ∀ c ∈ front ++ back, isBlank c = true) :
    trimChars (front ++ cs ++ back) = trimChars cs := by
  have hfront : ∀ c ∈ front, isBlank c = true := fun c hc => h c (List.mem_append_left _ hc)
  have hback : ∀ c ∈ back, isBlank c = true := fun c hc => h c (List.mem_append_right _ hc)
  rw [trimChars, List.append_assoc, List.dropWhile_append_of_pos hfront, List.dropWhile_append]
  by_cases hcs : (cs.dropWhile isBlank).isEmpty = true
  · -- with nothing in between, the white space after it is dropped from the front
    rw [if_pos hcs, trimChars, List.isEmpty_iff.mp hcs, List.dropWhile_eq_nil_iff.mpr hback]
  · rw [if_neg hcs, trimChars, List.reverse_append,
      List.dropWhile_append_of_pos fun c hc => hback c (List.mem_reverse.mp hc)]

theorem Padded.trim_eq {s t : String} (h : Padded s t) : trim t = trim s := by
  obtain ⟨front, back, hblank, ht⟩ := h
  rw [trim, trim, ht, trimChars_append hblank]

/-- A text that is padded with something has white space in it. -/
theorem Padded.exists_isBlank {s t : String} (h : Padded s t) (hne : t ≠ s) :
    ∃ c ∈ t.toList, isBlank c = true := by
  obtain ⟨front, back, hblank, ht⟩ := h
  have hpad : front ++ back ≠ [] := by
    intro hnil
    obtain ⟨rfl, rfl⟩ := List.append_eq_nil_iff.mp hnil
    exact hne (String.toList_inj.mp (by simpa using ht))
  obtain ⟨c, hc⟩ := List.exists_mem_of_ne_nil _ hpad
  refine ⟨c, ?_, hblank c hc⟩
  rw [ht]
  rcases List.mem_append.mp hc with hf | hb
  · exact List.mem_append_left _ (List.mem_append_left _ hf)
  · exact List.mem_append_right _ hb

/-- What holds of the first 128 characters can be looked up. -/
theorem forall_of_lt {P : Char → Prop} (h : ∀ n < 128, P (Char.ofNat n)) {c : Char}
    (hc : c.toNat < 128) : P c := by
  rw [← Char.ofNat_toNat c]
  exact h c.toNat hc

def capitals : CaseShift := ⟨0x41, 0x5A, 1, 32⟩

theorem first_of_mem_tail : ∀ r ∈ caseShifts.tail, 128 ≤ r.first := by decide +kernel

theorem find?_caseShifts {n : ℕ} (h : n < 128) :
    caseShifts.find? (·.covers n) = if capitals.covers n then some capitals else none := by
  have htail : caseShifts.tail.find? (·.covers n) = none := by
    rw [List.find?_eq_none]
    intro r hr
    have hfirst := first_of_mem_tail r hr
    simp only [CaseShift.covers, Bool.and_eq_true, decide_eq_true_eq, not_and]
    omega
  have hrows : caseShifts = [capitals] ++ caseShifts.tail := rfl
  rw [hrows, List.find?_append, htail, Option.or_none, List.find?_singleton]

theorem covers_capitals_iff {n : ℕ} : capitals.covers n = true ↔ 0x41 ≤ n ∧ n ≤ 0x5A := by
  simp only [CaseShift.covers, Bool.and_eq_true, decide_eq_true_eq]
  simp [capitals, Nat.mod_one]

theorem lt_of_covers_capitals {n : ℕ} (h : capitals.covers n = true) : n < 128 :=
  (covers_capitals_iff.mp h).2.trans_lt (by decide)

theorem toLower_of_not_covers {c : Char} (h : ¬ capitals.covers c.toNat = true) :
    c.toLower = c := by
  rw [covers_capitals_iff] at h
  exact dif_neg h

theorem toLower_of_covers {c : Char} (h : capitals.covers c.toNat = true) :
    c.toLower = shiftedBy c 32 :=
  forall_of_lt (P := fun c => capitals.covers c.toNat = true → c.toLower = shiftedBy c 32)
    (by decide) (lt_of_covers_capitals h) h

theorem lowerChar_of_lt {c : Char} (h : c.toNat < 128) : lowerChar c = [c.toLower] := by
  have hdotted : c ≠ 'İ' := by
    rintro rfl
    exact absurd h (by decide)
  rw [lowerChar, if_neg hdotted, find?_caseShifts h]
  by_cases hc : capitals.covers c.toNat = true
  · rw [if_pos hc, toLower_of_covers hc]
    rfl
  · rw [if_neg hc, toLower_of_not_covers hc]

theorem isPlainMark_of_toLower {c : Char} (h : isPlainMark c.toLower = true) :
    isPlainMark c = true := by
  by_cases hc : capitals.covers c.toNat = true
  · exact forall_of_lt (P := fun c => capitals.covers c.toNat = true → isPlainMark c = true)
      (by decide) (lt_of_covers_capitals hc) hc
  · rwa [toLower_of_not_covers hc] at h

theorem lowerAfter_of_lt {before cs : List Char} (h : ∀ c ∈ cs, c.toNat < 128) :
    lowerAfter before cs = cs.map Char.toLower := by
  induction cs generalizing before with
  | nil => rfl
  | cons c rest ih =>
    have hc : c.toNat < 128 := h c List.mem_cons_self
    have hsigma : c ≠ 'Σ' := by
      rintro rfl
      exact absurd hc (by decide)
    rw [lowerAfter, ih fun c' hc' => h c' (List.mem_cons_of_mem c hc'), lowerChar_of_lt hc]
    simp [hsigma]

/-- The sign of the kelvin, the one further character that becomes a plain letter. -/
def kelvin : Char := '\u212A'

def CaseShift.LeadsPast (r : CaseShift) : Prop :=
  r.first = kelvin.toNat ∧ r.last = kelvin.toNat ∨
    128 ≤ r.first + r.shift ∧
      (r.last + r.shift < 0xD800 ∨ 0xDFFF < r.first + r.shift ∧ r.last + r.shift < 0x110000)

instance (r : CaseShift) : Decidable r.LeadsPast := inferInstanceAs (Decidable (_ ∨ _))

theorem leadsPast_of_mem_tail : ∀ r ∈ caseShifts.tail, r.LeadsPast := by decide +kernel

theorem mem_tail_of_covers {r : CaseShift} {n : ℕ} (hr : r ∈ caseShifts) (hc : r.covers n = true)
    (hn : 128 ≤ n) : r ∈ caseShifts.tail := by
  have hrows : caseShifts = capitals :: caseShifts.tail := rfl
  rw [hrows] at hr
  rcases List.mem_cons.mp hr with rfl | htail
  · exact absurd (lt_of_covers_capitals hc) (Nat.not_lt.mpr hn)
  · exact htail

theorem le_shiftedBy {r : CaseShift} {c : Char} (hr : r.LeadsPast) (hc : r.covers c.toNat = true)
    (hk : c ≠ kelvin) : 128 ≤ (shiftedBy c r.shift).toNat := by
  simp only [CaseShift.covers, Bool.and_eq_true, decide_eq_true_eq] at hc
  obtain ⟨⟨hfirst, hlast⟩, -⟩ := hc
  rcases hr with ⟨hf, hl⟩ | ⟨hlow, hvalid⟩
  · exact absurd (Char.toNat_inj.mp (by omega)) hk
  · have hchar : ((c.toNat : ℤ) + r.shift).toNat.isValidChar := by
      simp only [Nat.isValidChar]
      omega
    rw [shiftedBy, Char.ofNat, dif_pos hchar]
    show 128 ≤ ((c.toNat : ℤ) + r.shift).toNat
    omega

/-- A character past the first 128 leaves one of its kind behind, unless it is the kelvin. -/
theorem exists_mem_lowerChar {c : Char} (hc : 128 ≤ c.toNat) (hk : c ≠ kelvin) :
    ∃ d ∈ lowerChar c, 128 ≤ d.toNat := by
  unfold lowerChar
  split
  · exact ⟨'\u0307', by decide, by decide⟩
  · split
    · rename_i r hr
      have hcovers : r.covers c.toNat = true := by simpa using List.find?_some hr
      have htail := mem_tail_of_covers (List.mem_of_find?_eq_some hr) hcovers hc
      exact ⟨_, List.mem_singleton_self _, le_shiftedBy (leadsPast_of_mem_tail r htail) hcovers hk⟩
    · exact ⟨c, List.mem_singleton_self c, hc⟩

theorem lowerChar_kelvin : lowerChar kelvin = ['k'] := by decide +kernel

theorem lt_of_lowerAfter {before cs : List Char} (h : ∀ d ∈ lowerAfter before cs, d.toNat < 128)
    (hk : 'k' ∉ lowerAfter before cs) : ∀ c ∈ cs, c.toNat < 128 := by
  induction cs generalizing before with
  | nil => simp
  | cons c rest ih =>
    rw [lowerAfter] at h hk
    simp only [List.mem_append, not_or] at h hk
    rw [List.forall_mem_cons]
    refine ⟨?_, ih (fun d hd => h d (.inr hd)) hk.2⟩
    by_contra hc
    -- what stands for the character has one past the first 128 in it, or is the letter
    by_cases hsigma : (c = 'Σ' && endsWord before rest) = true
    · exact absurd (h 'ς' (.inl (by simp [hsigma]))) (by decide)
    · simp only [hsigma] at h hk
      by_cases hkelvin : c = kelvin
      · rw [hkelvin, lowerChar_kelvin] at hk
        exact hk.1 (List.mem_singleton_self _)
      · obtain ⟨d, hd, hpast⟩ := exists_mem_lowerChar (Nat.not_lt.mp hc) hkelvin
        exact absurd (h d (.inl hd)) (Nat.not_lt.mpr hpast)

variable {name s : String}

theorem AnyCase.plain (h : AnyCase name s) (hn : name.toList.all isPlainMark = true) :
    ∀ c ∈ s.toList, isPlainMark c = true := by
  intro c hc
  have hlower : c.toLower ∈ name.toList := h ▸ List.mem_map_of_mem hc
  exact isPlainMark_of_toLower (List.all_eq_true.mp hn _ hlower)

theorem AnyCase.lower_eq (h : AnyCase name s) (hn : name.toList.all isPlainMark = true) :
    lower s = name := by
  have hplain := h.plain hn
  simp only [isPlainMark, Bool.and_eq_true, decide_eq_true_eq] at hplain
  rw [lower, lowerAfter_of_lt fun c hc => (hplain c hc).1, h, String.ofList_toList]

theorem AnyCase.trim_eq (h : AnyCase name s) (hn : name.toList.all isPlainMark = true) :
    trim s = s := by
  have hplain := h.plain hn
  simp only [isPlainMark, Bool.and_eq_true, Bool.not_eq_true'] at hplain
  exact trim_eq_self fun c hc => (hplain c hc).2

theorem AnyCase.lower_trim (h : AnyCase name s) (hn : name.toList.all isPlainMark = true) :
    lower (trim s) = name := by
  rw [h.trim_eq hn, h.lower_eq hn]

/-- A name that the kelvin cannot give is read from its spellings alone. -/
theorem lower_eq_iff (hn : name.toList.all isPlainMark = true) (hk : 'k' ∉ name.toList) :
    lower s = name ↔ AnyCase name s := by
  refine ⟨fun h => ?_, fun h => h.lower_eq hn⟩
  have hlist : lowerAfter [] s.toList = name.toList := by
    rw [← h, lower, String.toList_ofList]
  have hmarks : ∀ d ∈ lowerAfter [] s.toList, d.toNat < 128 := by
    intro d hd
    rw [hlist] at hd
    have hmark := List.all_eq_true.mp hn d hd
    simp only [isPlainMark, Bool.and_eq_true, decide_eq_true_eq] at hmark
    exact hmark.1
  have hlt : ∀ c ∈ s.toList, c.toNat < 128 := lt_of_lowerAfter hmarks (hlist ▸ hk)
  have hmap : lowerAfter [] s.toList = s.toList.map Char.toLower := lowerAfter_of_lt hlt
  rw [AnyCase, ← hmap, hlist]

end InterpreterLock.Text
