import InterpreterLock.Proofs.Names

/-!
# White space around the settings

A setting that is trimmed before it is read does not mind white space around its text. The switch of
the collector is read as it stands, and none of its words has white space in it: with anything around
it the text is passed over. So an environment whose texts are padded gives the same configuration
unless what is padded is a word that switches the collector off.
-/

set_option autoImplicit false

namespace InterpreterLock

def Environment.Padded (env env' : Environment) : Prop :=
  ∀ f : Config.Setting, Option.Rel Text.Padded (env f.key) (env' f.key)

theorem Environment.Padded.cases {env env' : Environment} (h : env.Padded env')
    (f : Config.Setting) :
    env f.key = none ∧ env' f.key = none ∨
      ∃ s t, env f.key = some s ∧ env' f.key = some t ∧ Text.Padded s t := by
  have hrel := h f
  generalize env f.key = u at hrel ⊢
  generalize env' f.key = v at hrel ⊢
  cases hrel with
  | none => exact .inl ⟨rfl, rfl⟩
  | some hpadded => exact .inr ⟨_, _, rfl, rfl, hpadded⟩

namespace Config

variable {env env' : Environment} {s t : String}

theorem Setting.read_padded {f : Setting} (hf : f ≠ .collector) (h : Text.Padded s t) :
    f.read t = f.read s := by
  have hnumber : readNumber t = readNumber s := by rw [readNumber, readNumber, h.trim_eq]
  cases f with
  | collector => exact absurd rfl hf
  | mode =>
    show readMode t = readMode s
    rw [readMode, readMode, h.trim_eq]
  | backend =>
    show readBackend t = readBackend s
    rw [readBackend, readBackend, h.trim_eq]
  | stackSize => exact hnumber
  | maxThreads =>
    show (readNumber t).map some = (readNumber s).map some
    rw [hnumber]
  | patience =>
    show (readNumber t).map Duration.ofMicros = (readNumber s).map Duration.ofMicros
    rw [hnumber]

theorem Setting.get_padded {f : Setting} (hf : f ≠ .collector) (h : env.Padded env') :
    f.get (ofEnvironment env') = f.get (ofEnvironment env) := by
  rw [get_ofEnvironment, get_ofEnvironment]
  rcases h.cases f with ⟨hs, ht⟩ | ⟨s, t, hs, ht, hpadded⟩
  · rw [hs, ht]
  · rw [hs, ht, Option.bind_some, Option.bind_some, read_padded hf hpadded]

/-- No word for the switch has white space in it. -/
theorem not_parses_of_isBlank (h : ∃ c ∈ s.toList, Text.isBlank c = true) :
    ¬ Setting.collector.Parses s := by
  have hwords : ∀ on, Text.Unmistakable (switchWords on) := by decide
  rintro ⟨on, hs⟩
  obtain ⟨word, hmem, hcase⟩ := (hwords on).lower_mem_iff.mp hs
  obtain ⟨c, hc, hblank⟩ := h
  have hmark := hcase.plain (hwords on word hmem).1 c hc
  simp [Text.isPlainMark, hblank] at hmark

/-- A switch with white space around it is left as it is by default. -/
theorem collector_padded (h : env.Padded env')
    (hne : env' Variable.collector ≠ env Variable.collector) :
    (ofEnvironment env').collector = true := by
  rcases h.cases .collector with ⟨hs, ht⟩ | ⟨s, t, hs, ht, hpadded⟩
  · exact absurd (ht.trans hs.symm) hne
  · have hdiffer : t ≠ s := fun heq => hne (ht.trans ((congrArg some heq).trans hs.symm))
    exact Setting.get_of_not_parses ht (not_parses_of_isBlank (hpadded.exists_isBlank hdiffer))

/-- A switch that is not set to a word for off is on. -/
theorem collector_eq_true (h : ∀ s, env Variable.collector = some s → ¬ Setting.collector.Says false s) :
    (ofEnvironment env).collector = true := by
  cases hs : env Variable.collector with
  | none => exact Setting.get_of_none (f := .collector) hs
  | some s =>
    by_cases hon : Setting.collector.Says true s
    · exact Setting.get_of_says (f := .collector) hs hon
    · refine Setting.get_of_not_parses (f := .collector) hs ?_
      rintro ⟨on, hsays⟩
      cases on with
      | false => exact h s hs hsays
      | true => exact hon hsays

/-- White space around texts does not matter to any setting but the switch of the collector, which it
puts back to its default; so the configuration stays the same exactly if no text that switches the
collector off is padded. -/
theorem padding_heeded (env env' : Environment) (h : env.Padded env') :
    (∀ f : Setting, f ≠ .collector → f.get (ofEnvironment env') = f.get (ofEnvironment env)) ∧
    (env' Variable.collector ≠ env Variable.collector → (ofEnvironment env').collector = true) ∧
    (ofEnvironment env' = ofEnvironment env ↔
      ∀ s, env Variable.collector = some s → Setting.collector.Says false s →
        env' Variable.collector = some s) := by
  refine ⟨fun f hf => Setting.get_padded hf h, collector_padded h, fun heq s hs hoff => ?_,
    fun hoff => Setting.eq_of_get fun f => ?_⟩
  · by_contra hne
    have hon := collector_padded h (by rwa [hs])
    have hsaid : (ofEnvironment env).collector = false :=
      Setting.get_of_says (f := .collector) hs hoff
    rw [heq, hsaid] at hon
    cases hon
  · by_cases hf : f = .collector
    · subst hf
      by_cases heq : env' Variable.collector = env Variable.collector
      · exact Setting.get_of_key (f := .collector) heq
      · have hon : (ofEnvironment env).collector = true :=
          collector_eq_true fun s hs hsays => heq ((hoff s hs hsays).trans hs.symm)
        exact (collector_padded h heq).trans hon.symm
    · exact Setting.get_padded hf h

/-- Every variable is set and has white space around it, except that the switch has none. -/
theorem padding_heeded_around :
    let env : Environment := fun name =>
      [(Variable.mode, " Constrained"), (Variable.backend, "nt"), (Variable.collector, "off"),
        (Variable.stackSize, "0"), (Variable.maxThreads, "+7"), (Variable.patience, "1")].lookup name
    let padded : Environment := fun name =>
      [(Variable.mode, "\t Constrained\u3000"), (Variable.backend, " nt\n"),
        (Variable.collector, "off"), (Variable.stackSize, "0\u00a0"), (Variable.maxThreads, " +7"),
        (Variable.patience, "\u20051\r\n")].lookup name
    env.Padded padded ∧ ofEnvironment env = ⟨.constrained, .windows, false, 0, some 7, .ofMicros 1⟩ ∧
      ofEnvironment padded = ofEnvironment env := by
  intro env padded
  have hpadded : env.Padded padded := by
    intro f
    cases f with
    | mode => exact .some ⟨['\t'], ['\u3000'], List.all_eq_true.mp rfl, rfl⟩
    | backend => exact .some ⟨[' '], ['\n'], List.all_eq_true.mp rfl, rfl⟩
    | collector => exact .some ⟨[], [], List.all_eq_true.mp rfl, rfl⟩
    | stackSize => exact .some ⟨[], ['\u00a0'], List.all_eq_true.mp rfl, rfl⟩
    | maxThreads => exact .some ⟨[' '], [], List.all_eq_true.mp rfl, rfl⟩
    | patience => exact .some ⟨['\u2005'], ['\r', '\n'], List.all_eq_true.mp rfl, rfl⟩
  refine ⟨hpadded, by decide, (padding_heeded env padded hpadded).2.2.mpr fun s hs _ => ?_⟩
  exact hs

/-- A blank before the word leaves the collector on. -/
theorem padded_switch_stays_on :
    let off : Environment := fun name => if name = Variable.collector then some "0" else none
    let blank : Environment := fun name => if name = Variable.collector then some " 0" else none
    off.Padded blank ∧ (ofEnvironment off).collector = false ∧
      (ofEnvironment blank).collector = true := by
  intro off blank
  refine ⟨fun f => ?_, by decide, by decide⟩
  cases f with
  | collector => exact .some ⟨[' '], [], List.all_eq_true.mp rfl, rfl⟩
  | _ => exact .none

end Config

end InterpreterLock
