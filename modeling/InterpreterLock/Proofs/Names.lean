import InterpreterLock.Proofs.Interpreter.Environment

/-!
# Names of modes and backends

A mode or a backend is read from the words that stand for it, with any of their letters written as
capitals, and from nothing else: no character past the first 128 and no further character is passed
over. A text that stands for nothing is quoted in small letters when it is refused.
-/

set_option autoImplicit false

namespace InterpreterLock

namespace Text

variable {α ε : Type}

structure ReadsWords (read : String → Except ε α) (words : α → List String) (message : ε → String)
    (intro : String) : Prop where
  accepted : ∀ s a, read s = .ok a ↔ ∃ word ∈ words a, AnyCase word s
  plain : ∀ s a, read s = .ok a →
    (∀ c ∈ s.toList, c.toNat < 128) ∧ ∃ word ∈ words a, s.length = word.length
  refused : ∀ s, (∀ a, ∀ word ∈ words a, ¬ AnyCase word s) ↔
    ∃ e, read s = .error e ∧ message e = intro ++ lower s

/-- The words are of the first 128 characters, without white space, and cannot come of a kelvin. -/
def Unmistakable (words : List String) : Prop :=
  ∀ word ∈ words, word.toList.all isPlainMark = true ∧ 'k' ∉ word.toList

instance (words : List String) : Decidable (Unmistakable words) :=
  inferInstanceAs (Decidable (∀ word ∈ words, _))

variable {words : α → List String} {s : String} {a : α}

theorem Unmistakable.lower_mem_iff {ws : List String} (h : Unmistakable ws) :
    lower s ∈ ws ↔ ∃ word ∈ ws, AnyCase word s := by
  constructor
  · intro hs
    have hword := h _ hs
    exact ⟨lower s, hs, (lower_eq_iff hword.1 hword.2).mp rfl⟩
  · rintro ⟨word, hmem, hs⟩
    rwa [hs.lower_eq (h word hmem).1]

theorem AnyCase.length_eq {name : String} (h : AnyCase name s) : s.length = name.length := by
  have hlength := congrArg List.length h
  rwa [List.length_map, String.length_toList, String.length_toList] at hlength

theorem AnyCase.toNat_lt {name : String} (h : AnyCase name s)
    (hn : name.toList.all isPlainMark = true) : ∀ c ∈ s.toList, c.toNat < 128 := by
  intro c hc
  have hmark := h.plain hn c hc
  simp only [isPlainMark, Bool.and_eq_true, decide_eq_true_eq] at hmark
  exact hmark.1

/-- What is read off the text in small letters is read in any letter case. -/
theorem readsWords_readLowered {ofLowered? : String → Option α} {refuse : String → ε}
    {message : ε → String} {intro : String} (hwords : ∀ s a, ofLowered? s = some a ↔ s ∈ words a)
    (hplain : ∀ a, Unmistakable (words a)) (hmessage : ∀ t, message (refuse t) = intro ++ t) :
    ReadsWords (readLowered ofLowered? refuse) words message intro := by
  have haccepted :
      ∀ s a, readLowered ofLowered? refuse s = .ok a ↔ ∃ word ∈ words a, AnyCase word s := by
    intro s a
    rw [← (hplain a).lower_mem_iff, ← hwords, readLowered]
    cases ofLowered? (lower s) <;> simp
  refine ⟨haccepted, fun s a h => ?_, fun s => ⟨fun hno => ?_, ?_⟩⟩
  · obtain ⟨word, hmem, hs⟩ := (haccepted s a).mp h
    exact ⟨hs.toNat_lt (hplain a word hmem).1, word, hmem, hs.length_eq⟩
  · have hnone : ofLowered? (lower s) = none := by
      refine Option.eq_none_iff_forall_ne_some.mpr fun a ha => ?_
      obtain ⟨word, hmem, hs⟩ := (hplain a).lower_mem_iff.mp ((hwords _ a).mp ha)
      exact hno a word hmem hs
    exact ⟨refuse (lower s), by rw [readLowered, hnone], hmessage _⟩
  · rintro ⟨e, he, -⟩ a word hmem hs
    have hok := (haccepted s a).mpr ⟨word, hmem, hs⟩
    rw [hok] at he
    cases he

end Text

/-- Of all texts exactly the names are read, in any letter case. -/
theorem names_read :
    Text.ReadsWords Mode.ofName Mode.words Mode.Unknown.message "unknown fast GIL mode: " ∧
      Text.ReadsWords Backend.ofName Backend.words Backend.Unknown.message
        "unknown thread backend: " := by
  constructor
  · exact Text.readsWords_readLowered (fun _ _ => Mode.ofLowered?_eq_some_iff)
      (by rintro (- | -) <;> decide) fun _ => rfl
  · exact Text.readsWords_readLowered (fun _ _ => Backend.ofLowered?_eq_some_iff)
      (by rintro (- | -) <;> decide) fun _ => rfl

/-- A dotted capital leaves its dot behind. -/
example : Mode.ofName "GENERİC" = .error ⟨"generi\u0307c"⟩ := by decide +kernel

end InterpreterLock
