import InterpreterLock.Interpreter.Config
import InterpreterLock.Proofs.Text.Decimal
import InterpreterLock.Proofs.Text.LowerCase
import Mathlib.Logic.Function.Basic

/-!
# Settings in the environment

Each setting has one variable. A text that can be read gives the setting its value, any other text
is passed over as if the variable were not set, and the other settings are not touched. So a
configuration is had back from an environment in which its settings are spelled out.
-/

set_option autoImplicit false

namespace InterpreterLock

theorem choice_eq_some_iff {α : Type} {P Q : Prop} [Decidable P] [Decidable Q] {a b x : α}
    (hapart : P → ¬ Q) :
    (if P then some a else if Q then some b else none) = some x ↔ P ∧ a = x ∨ Q ∧ b = x := by
  by_cases hP : P
  · simp [hP, hapart hP]
  · by_cases hQ : Q <;> simp [hP, hQ]

theorem Text.toOption_readLowered {α ε : Type} (ofLowered? : String → Option α)
    (refuse : String → ε) (s : String) :
    (readLowered ofLowered? refuse s).toOption = ofLowered? (lower s) := by
  unfold readLowered
  cases ofLowered? (lower s) <;> rfl

namespace Mode

def words : Mode → List String
  | .generic => ["generic"]
  | .constrained => ["constrained", "asmgcc"]

theorem ofLowered?_eq_some_iff {s : String} {m : Mode} : ofLowered? s = some m ↔ s ∈ m.words := by
  rw [ofLowered?, choice_eq_some_iff (by rintro rfl; decide)]
  cases m <;> simp [words]

theorem lower_trim_mem_words {m : Mode} {s : String} (h : Text.AnyCase m.name s) :
    Text.lower (Text.trim s) ∈ m.words := by
  rw [h.lower_trim (by cases m <;> decide)]
  cases m <;> simp [name, words]

end Mode

namespace Backend

def words : Backend → List String
  | .posix => ["posix", "pthread"]
  | .windows => ["windows", "nt", "native-windows"]

theorem ofLowered?_eq_some_iff {s : String} {b : Backend} :
    ofLowered? s = some b ↔ s ∈ b.words := by
  rw [ofLowered?, choice_eq_some_iff (by rintro (rfl | rfl) <;> decide)]
  cases b <;> simp [words]

theorem lower_trim_mem_words {b : Backend} {s : String} (h : Text.AnyCase b.name s) :
    Text.lower (Text.trim s) ∈ b.words := by
  rw [h.lower_trim (by cases b <;> decide)]
  cases b <;> simp [name, words]

end Backend

namespace Config

def switchWords : Bool → List String
  | true => ["1", "true", "on"]
  | false => ["0", "false", "off"]

def Gives (n : ℕ) (s : String) : Prop := Text.IsNumeral n (Text.trim s).toList ∧ n < Text.wordLimit

theorem readMode_eq_some_iff {s : String} {m : Mode} :
    readMode s = some m ↔ Text.lower (Text.trim s) ∈ m.words := by
  rw [readMode, Mode.ofName, Text.toOption_readLowered]
  exact Mode.ofLowered?_eq_some_iff

theorem readBackend_eq_some_iff {s : String} {b : Backend} :
    readBackend s = some b ↔ Text.lower (Text.trim s) ∈ b.words := by
  rw [readBackend, Backend.ofName, Text.toOption_readLowered]
  exact Backend.ofLowered?_eq_some_iff

theorem readSwitch_eq_some_iff {s : String} {on : Bool} :
    readSwitch s = some on ↔ Text.lower s ∈ switchWords on := by
  unfold readSwitch
  generalize Text.lower s = word
  rw [choice_eq_some_iff (by rintro (rfl | rfl | rfl) <;> decide)]
  cases on <;> simp [switchWords]

theorem readNumber_eq_some_iff {s : String} {n : ℕ} : readNumber s = some n ↔ Gives n s := by
  rw [Gives, ← Text.readWord_eq_ok_iff, readNumber]
  cases Text.readWord (Text.trim s) <;> simp [Except.toOption]

theorem map_readNumber_eq_some_iff {α : Type} {g : ℕ → α} {s : String} {x : α} :
    (readNumber s).map g = some x ↔ ∃ n, Gives n s ∧ g n = x := by
  simp only [Option.map_eq_some_iff, readNumber_eq_some_iff]

theorem lower_mem_switchWords :
    ∀ on : Bool, Text.lower (if on then "1" else "0") ∈ switchWords on := by decide

inductive Setting
  | mode
  | backend
  | collector
  | stackSize
  | maxThreads
  | patience
deriving DecidableEq, Repr

namespace Setting

def key : Setting → String
  | .mode => Variable.mode
  | .backend => Variable.backend
  | .collector => Variable.collector
  | .stackSize => Variable.stackSize
  | .maxThreads => Variable.maxThreads
  | .patience => Variable.patience

def Value : Setting → Type
  | .mode => Mode
  | .backend => Backend
  | .collector => Bool
  | .stackSize => ℕ
  | .maxThreads => Option ℕ
  | .patience => Duration

def get : (f : Setting) → Config → f.Value
  | .mode, c => c.mode
  | .backend, c => c.backend
  | .collector, c => c.collector
  | .stackSize, c => c.stackSize
  | .maxThreads, c => c.maxThreads
  | .patience, c => c.patience

def read : (f : Setting) → String → Option f.Value
  | .mode, s => readMode s
  | .backend, s => readBackend s
  | .collector, s => readSwitch s
  | .stackSize, s => readNumber s
  | .maxThreads, s => (readNumber s).map some
  | .patience, s => (readNumber s).map Duration.ofMicros

/-- The text stands for the value. Names and switches may be in any letter case; white space is
passed over around names and numbers, but not around a switch. -/
def Says : (f : Setting) → f.Value → String → Prop
  | .mode, m, s => Text.lower (Text.trim s) ∈ Mode.words m
  | .backend, b, s => Text.lower (Text.trim s) ∈ Backend.words b
  | .collector, on, s => Text.lower s ∈ switchWords on
  | .stackSize, n, s => Gives n s
  | .maxThreads, limit, s => ∃ n, Gives n s ∧ some n = limit
  | .patience, d, s => ∃ n, Gives n s ∧ Duration.ofMicros n = d

def Parses (f : Setting) (s : String) : Prop := ∃ x, f.Says x s

variable {f : Setting} {env env' : Environment} {s : String} {x : f.Value}

theorem key_ne {f g : Setting} (h : g ≠ f) : g.key ≠ f.key := by
  cases f <;> cases g <;> simp_all [key, Variable.mode, Variable.backend, Variable.collector,
    Variable.stackSize, Variable.maxThreads, Variable.patience]

theorem eq_of_get {c c' : Config} (h : ∀ f : Setting, f.get c = f.get c') : c = c' := by
  cases c
  cases c'
  simp only [Config.mk.injEq]
  exact ⟨h .mode, h .backend, h .collector, h .stackSize, h .maxThreads, h .patience⟩

theorem read_eq_some_iff : f.read s = some x ↔ f.Says x s := by
  cases f with
  | mode => exact @readMode_eq_some_iff s x
  | backend => exact @readBackend_eq_some_iff s x
  | collector => exact @readSwitch_eq_some_iff s x
  | stackSize => exact @readNumber_eq_some_iff s x
  | maxThreads => exact @map_readNumber_eq_some_iff _ some s x
  | patience => exact @map_readNumber_eq_some_iff _ Duration.ofMicros s x

theorem read_eq_none (h : ¬ f.Parses s) : f.read s = none :=
  Option.eq_none_iff_forall_ne_some.mpr fun x hx => h ⟨x, read_eq_some_iff.mp hx⟩

/-- A setting is what its own variable says, or else the default. -/
theorem get_ofEnvironment (f : Setting) (env : Environment) :
    f.get (ofEnvironment env) = ((env f.key).bind f.read).getD (f.get default) := by
  cases f with
  | maxThreads =>
    have hlimit : ∀ v : Option String, (v.bind readNumber).or none =
        (v.bind fun s => (readNumber s).map some).getD none := by
      rintro (- | s)
      · rfl
      · cases h : readNumber s <;> simp [h]
    exact hlimit (env Variable.maxThreads)
  | patience =>
    exact congrArg (fun d => d.getD default.patience) Option.map_bind
  | _ => rfl

theorem get_of_says (hkey : env f.key = some s) (h : f.Says x s) : f.get (ofEnvironment env) = x := by
  rw [get_ofEnvironment, hkey, Option.bind_some, read_eq_some_iff.mpr h, Option.getD_some]

theorem get_of_none (hkey : env f.key = none) : f.get (ofEnvironment env) = f.get default := by
  rw [get_ofEnvironment, hkey, Option.bind_none, Option.getD_none]

theorem get_of_not_parses (hkey : env f.key = some s) (h : ¬ f.Parses s) :
    f.get (ofEnvironment env) = f.get default := by
  rw [get_ofEnvironment, hkey, Option.bind_some, read_eq_none h, Option.getD_none]

theorem get_of_key (h : env f.key = env' f.key) :
    f.get (ofEnvironment env) = f.get (ofEnvironment env') := by
  rw [get_ofEnvironment, get_ofEnvironment, h]

end Setting

/-- The configuration can be written in variables: its numbers are machine words, and it waits for a
whole number of microseconds. -/
structure Writable (c : Config) : Prop where
  stackSize : c.stackSize < Text.wordLimit
  maxThreads : ∀ n ∈ c.maxThreads, n < Text.wordLimit
  patience : ∃ n < Text.wordLimit, c.patience = .ofMicros n

/-- The environment spells out the configuration: names in any letter case, the switch as a digit,
numbers in decimal with any zeros before them and perhaps a plus sign. -/
structure Spelled (c : Config) (env : Environment) : Prop where
  mode : ∃ s, env Variable.mode = some s ∧ Text.AnyCase c.mode.name s
  backend : ∃ s, env Variable.backend = some s ∧ Text.AnyCase c.backend.name s
  collector : env Variable.collector = some (if c.collector then "1" else "0")
  stackSize : ∃ s, env Variable.stackSize = some s ∧ Text.WritesOut c.stackSize s.toList
  limited : ∀ n ∈ c.maxThreads, ∃ s, env Variable.maxThreads = some s ∧ Text.WritesOut n s.toList
  unlimited : c.maxThreads = none → env Variable.maxThreads = none
  patience : ∃ s, env Variable.patience = some s ∧ Text.WritesOut c.patience.micros s.toList

variable {c : Config} {env : Environment}

theorem Gives.of_writesOut {n : ℕ} {s : String} (hn : n < Text.wordLimit)
    (h : Text.WritesOut n s.toList) : Gives n s := by
  have hnumeral := h.isNumeral
  rw [Gives, Text.trim_eq_self hnumeral.isBlank]
  exact ⟨hnumeral, hn⟩

theorem Spelled.get (h : Spelled c env) (hc : c.Writable) (f : Setting) :
    f.get (ofEnvironment env) = f.get c := by
  cases f with
  | mode =>
    obtain ⟨s, hkey, hs⟩ := h.mode
    exact Setting.get_of_says (f := .mode) hkey (Mode.lower_trim_mem_words hs)
  | backend =>
    obtain ⟨s, hkey, hs⟩ := h.backend
    exact Setting.get_of_says (f := .backend) hkey (Backend.lower_trim_mem_words hs)
  | collector =>
    exact Setting.get_of_says (f := .collector) h.collector (lower_mem_switchWords c.collector)
  | stackSize =>
    obtain ⟨s, hkey, hs⟩ := h.stackSize
    exact Setting.get_of_says (f := .stackSize) hkey (.of_writesOut hc.stackSize hs)
  | maxThreads =>
    cases hlimit : c.maxThreads with
    | none =>
      rw [Setting.get_of_none (f := .maxThreads) (h.unlimited hlimit)]
      exact hlimit.symm
    | some n =>
      obtain ⟨s, hkey, hs⟩ := h.limited n hlimit
      exact Setting.get_of_says (f := .maxThreads) hkey
        ⟨n, .of_writesOut (hc.maxThreads n hlimit) hs, hlimit.symm⟩
  | patience =>
    obtain ⟨s, hkey, hs⟩ := h.patience
    obtain ⟨n, hn, hpatience⟩ := hc.patience
    have hmicros : c.patience.micros = n := by
      rw [hpatience]
      exact Nat.mul_div_cancel n (by decide)
    rw [hmicros] at hs
    exact Setting.get_of_says (f := .patience) hkey ⟨n, .of_writesOut hn hs, hpatience.symm⟩

/-- A configuration is read back from every environment that spells it out. A text that a setting can
be read from makes the setting what it says, any other text does what no text does, and no text
touches another setting. -/
theorem settings_read :
    (∀ (c : Config) (env : Environment), c.Writable → Spelled c env → ofEnvironment env = c) ∧
    ∀ (env : Environment) (f : Setting) (s : String),
      (∀ x, f.Says x s → f.get (ofEnvironment (Function.update env f.key (some s))) = x) ∧
      (¬ f.Parses s → ofEnvironment (Function.update env f.key (some s)) =
        ofEnvironment (Function.update env f.key none)) ∧
      ∀ g ≠ f, g.get (ofEnvironment (Function.update env f.key (some s))) =
        g.get (ofEnvironment env) := by
  constructor
  · intro c env hc h
    exact Setting.eq_of_get (h.get hc)
  · intro env f s
    have hset : Function.update env f.key (some s) f.key = some s := Function.update_self ..
    have hunset : Function.update env f.key none f.key = none := Function.update_self ..
    have hothers : ∀ g ≠ f, ∀ v, Function.update env f.key v g.key = env g.key :=
      fun g hg v => Function.update_of_ne (Setting.key_ne hg) v env
    refine ⟨fun x hx => Setting.get_of_says hset hx, fun hno => Setting.eq_of_get fun g => ?_,
      fun g hg => Setting.get_of_key (hothers g hg _)⟩
    by_cases hg : g = f
    · subst hg
      rw [Setting.get_of_not_parses hset hno, Setting.get_of_none hunset]
    · exact Setting.get_of_key ((hothers g hg _).trans (hothers g hg _).symm)

/-- Capitals, zeros and plus signs are read past; a blank in front of the switch is not. -/
theorem settings_read_mixed :
    let c : Config := ⟨.constrained, .windows, false, 64, some 7, .ofMicros 0⟩
    let env : Environment := fun name => [(Variable.mode, "CoNsTrAiNeD"),
      (Variable.backend, "WINDOWS"), (Variable.collector, "0"), (Variable.stackSize, "+0064"),
      (Variable.maxThreads, "007"), (Variable.patience, "+0")].lookup name
    c.Writable ∧ Spelled c env ∧ ofEnvironment env = c ∧
      ¬ Setting.collector.Parses " 0" ∧
      ofEnvironment (Function.update env Variable.collector (some " 0")) =
        ofEnvironment (Function.update env Variable.collector none) ∧
      Setting.mode.Says .generic " Generic " ∧
      Setting.mode.get
        (ofEnvironment (Function.update env Variable.mode (some " Generic "))) = .generic ∧
      Setting.stackSize ≠ .mode ∧
      Setting.stackSize.get
        (ofEnvironment (Function.update env Variable.mode (some " Generic "))) =
          Setting.stackSize.get (ofEnvironment env) := by
  intro c env
  have hwritable : c.Writable :=
    ⟨by decide, by rintro n ⟨rfl⟩; decide, ⟨0, by decide, rfl⟩⟩
  have hsixtyfour : Text.digits 64 = ['6', '4'] := by
    rw [Text.digits_of_ge (by decide), Text.digits_of_lt (by decide)]
    rfl
  have hseven : Text.digits 7 = ['7'] := Text.digits_of_lt (by decide)
  have hzero : Text.digits (Duration.ofMicros 0).micros = ['0'] := Text.digits_of_lt (by decide)
  have hspelled : Spelled c env :=
  { mode := ⟨_, rfl, by decide⟩
    backend := ⟨_, rfl, by decide⟩
    collector := rfl
    stackSize := ⟨_, rfl, 2, .inr (by rw [hsixtyfour]; rfl)⟩
    limited := by
      rintro n ⟨rfl⟩
      exact ⟨_, rfl, 2, .inl (by rw [hseven]; rfl)⟩
    unlimited := fun h => by cases h
    patience := ⟨_, rfl, 0, .inr (congrArg (List.cons '+') hzero.symm)⟩ }
  have hno : ¬ Setting.collector.Parses " 0" := by
    have hnone : ∀ on : Bool, Text.lower " 0" ∉ switchWords on := by decide
    rintro ⟨on, hon⟩
    exact hnone on hon
  have hsays : Setting.mode.Says .generic " Generic " := by
    show Text.lower (Text.trim " Generic ") ∈ Mode.words .generic
    decide
  have hne : Setting.stackSize ≠ .mode := by decide
  obtain ⟨hread, hupdate⟩ := settings_read
  exact ⟨hwritable, hspelled, hread c env hwritable hspelled, hno, (hupdate env .collector _).2.1 hno,
    hsays, (hupdate env .mode _).1 _ hsays, hne, (hupdate env .mode _).2.2 _ hne⟩

end Config

end InterpreterLock
