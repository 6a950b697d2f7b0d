import InterpreterLock.Metrics.Report
import InterpreterLock.Proofs.Text.Decimal

/-!
# Reading reports of the counters

Both reports fill in a form: a fixed text before each number, and blanks up to the width of its
column. The form reads its numbers back, however many digits they have, because no text between two
numbers begins with a digit. So a report tells every counter that is in its form.
-/

set_option autoImplicit false

namespace InterpreterLock.Metrics

structure Place where
  before : String
  width : ℕ
  counter : Counter

structure Form where
  places : List Place
  closing : String

def afterLabel? (label cs : List Char) : Option (List Char) :=
  if label <+: cs then some (cs.drop label.length) else none

def number? (cs : List Char) : Option (UInt64 × List Char) :=
  let shown := cs.dropWhile (· = ' ')
  (Text.readWordChars (shown.takeWhile Char.isDigit)).toOption.map fun n =>
    (.ofNat n, shown.dropWhile Char.isDigit)

def numbers? : List Place → List Char → Option (List (Counter × UInt64) × List Char)
  | [], cs => some ([], cs)
  | p :: ps, cs =>
    (afterLabel? p.before.toList cs).bind fun cs =>
      (number? cs).bind fun (n, cs) =>
        (numbers? ps cs).map fun (found, cs) => ((p.counter, n) :: found, cs)

namespace Form

def get? (f : Form) (c : Counter) (s : String) : Option UInt64 :=
  match numbers? f.places s.toList with
  | some (found, rest) => if rest = f.closing.toList then found.lookup c else none
  | none => none

def fillFrom (m : Metrics) (closing : String) : List Place → String
  | [] => closing
  | p :: ps => p.before ++ column p.width (m.get p.counter) ++ fillFrom m closing ps

def fill (f : Form) (m : Metrics) : String := fillFrom m f.closing f.places

def counters (f : Form) : List Counter := f.places.map Place.counter

end Form

theorem afterLabel?_append (label cs : List Char) : afterLabel? label (label ++ cs) = some cs := by
  rw [afterLabel?, if_pos (List.prefix_append label cs), List.drop_left]

def Divides (cs : List Char) : Prop := ∃ c ∈ cs.head?, c.isDigit = false

instance (cs : List Char) : Decidable (Divides cs) :=
  decidable_of_iff (cs.head?.any (fun c => !c.isDigit) = true) (by
    rw [Option.any_eq_true, Divides]
    simp only [Bool.not_eq_true', Option.mem_def])

variable {cs : List Char}

theorem Divides.append (h : Divides cs) (cs' : List Char) : Divides (cs ++ cs') := by
  obtain ⟨c, hc, hd⟩ := h
  obtain ⟨tail, rfl⟩ := List.head?_eq_some_iff.mp hc
  exact ⟨c, rfl, hd⟩

theorem Divides.takeWhile (h : Divides cs) : cs.takeWhile Char.isDigit = [] := by
  obtain ⟨c, hc, hd⟩ := h
  obtain ⟨tail, rfl⟩ := List.head?_eq_some_iff.mp hc
  rw [List.takeWhile_cons_of_neg (by simp [hd])]

theorem Divides.dropWhile (h : Divides cs) : cs.dropWhile Char.isDigit = cs := by
  obtain ⟨c, hc, hd⟩ := h
  obtain ⟨tail, rfl⟩ := List.head?_eq_some_iff.mp hc
  rw [List.dropWhile_cons_of_neg (by simp [hd])]

theorem dropWhile_blanks (k n : ℕ) (cs : List Char) :
    (List.replicate k ' ' ++ (Text.digits n ++ cs)).dropWhile (· = ' ') = Text.digits n ++ cs := by
  rw [List.dropWhile_append_of_pos (by simp)]
  have hdigits := Text.isDigit_of_mem_digits n
  cases hn : Text.digits n with
  | nil => exact absurd hn (Text.digits_ne_nil n)
  | cons c tail =>
    have hc : c.isDigit = true := hdigits c (by simp [hn])
    have hblank : c ≠ ' ' := by
      rintro rfl
      exact absurd hc (by decide)
    rw [List.cons_append, List.dropWhile_cons_of_neg (by simpa using hblank)]

theorem readWordChars_digits (n : UInt64) :
    Text.readWordChars (Text.digits n.toNat) = .ok n.toNat :=
  Text.readWordChars_eq_ok_iff.mpr ⟨.inl (Text.spells_zeros 0 n.toNat), n.toNat_lt⟩

/-- A number is read back from its column, whether it fits in there or not. -/
theorem number?_column (width : ℕ) (n : UInt64) (h : Divides cs) :
    number? ((column width n).toList ++ cs) = some (n, cs) := by
  have hdigits := Text.isDigit_of_mem_digits n.toNat
  rw [column, Text.padLeft, String.toList_ofList, Text.decimal, String.toList_ofList,
    List.append_assoc, number?, dropWhile_blanks, List.takeWhile_append_of_pos hdigits,
    List.dropWhile_append_of_pos hdigits, h.takeWhile, h.dropWhile, List.append_nil,
    readWordChars_digits]
  simp [Except.toOption]

namespace Form

structure Legible (f : Form) : Prop where
  before : ∀ p ∈ f.places, Divides p.before.toList
  closing : Divides f.closing.toList

theorem divides_fillFrom (m : Metrics) {closing : String} {ps : List Place}
    (hbefore : ∀ p ∈ ps, Divides p.before.toList) (hclosing : Divides closing.toList) :
    Divides (fillFrom m closing ps).toList := by
  cases ps with
  | nil => exact hclosing
  | cons p ps =>
    rw [fillFrom, String.append_assoc, String.toList_append]
    exact (hbefore p List.mem_cons_self).append _

theorem numbers?_fillFrom (m : Metrics) {closing : String} {ps : List Place}
    (hbefore : ∀ p ∈ ps, Divides p.before.toList) (hclosing : Divides closing.toList) :
    numbers? ps (fillFrom m closing ps).toList =
      some (ps.map fun p => (p.counter, m.get p.counter), closing.toList) := by
  induction ps with
  | nil => rfl
  | cons p ps ih =>
    obtain ⟨-, hrest⟩ := List.forall_mem_cons.mp hbefore
    simp only [fillFrom, String.toList_append, List.append_assoc, numbers?, afterLabel?_append,
      Option.bind_some, number?_column _ _ (divides_fillFrom m hrest hclosing), ih hrest,
      Option.map_some, List.map_cons]

theorem lookup_map_counter (m : Metrics) (ps : List Place) (c : Counter) :
    (ps.map fun p => (p.counter, m.get p.counter)).lookup c =
      if c ∈ ps.map Place.counter then some (m.get c) else none := by
  induction ps with
  | nil => rfl
  | cons p ps ih =>
    rw [List.map_cons, List.lookup_cons, ih]
    by_cases hc : c = p.counter
    · simp [hc]
    · simp [hc, beq_false_of_ne hc]

variable {f : Form}

theorem get?_fill (hf : f.Legible) (m : Metrics) (c : Counter) :
    f.get? c (f.fill m) = if c ∈ f.counters then some (m.get c) else none := by
  rw [get?, fill, numbers?_fillFrom m hf.before hf.closing]
  simp only [if_true]
  exact lookup_map_counter m f.places c

theorem fillFrom_congr {m m' : Metrics} (closing : String) {ps : List Place}
    (h : ∀ p ∈ ps, m.get p.counter = m'.get p.counter) :
    fillFrom m closing ps = fillFrom m' closing ps := by
  induction ps with
  | nil => rfl
  | cons p ps ih =>
    obtain ⟨hp, hps⟩ := List.forall_mem_cons.mp h
    rw [fillFrom, fillFrom, hp, ih hps]

/-- Two filled-in forms are the same just if they show the same numbers. -/
theorem fill_eq_fill_iff (hf : f.Legible) {m m' : Metrics} :
    f.fill m = f.fill m' ↔ ∀ c ∈ f.counters, m.get c = m'.get c := by
  constructor
  · intro h c hc
    have hread := get?_fill hf m c
    rw [h, get?_fill hf m' c, if_pos hc, if_pos hc] at hread
    exact (Option.some_inj.mp hread).symm
  · exact fun h => fillFrom_congr f.closing fun p hp => h p.counter (List.mem_map_of_mem hp)

end Form

def displayForm : Form where
  places :=
    [⟨"Runtime Metrics:\n" ++ "  GIL:     fast: ", 10, .gilFastAcquires⟩,
     ⟨", slow: ", 8, .gilSlowAcquires⟩,
     ⟨", waited: ", 10, .gilContentionMicros⟩,
     ⟨" us\n" ++ "  Yields:  total: ", 9, .gilYields⟩,
     ⟨", handoffs: ", 8, .gilHandoffs⟩,
     ⟨", timeouts: ", 6, .gilHandoffTimeouts⟩,
     ⟨"\n" ++ "  Locks:   acquired: ", 6, .lockAcquired⟩,
     ⟨", failed: ", 6, .lockFailures⟩,
     ⟨", interrupted: ", 6, .lockInterrupts⟩,
     ⟨", contended: ", 6, .lockContentions⟩,
     ⟨"\n" ++ "  Threads: spawned: ", 7, .threadsSpawned⟩,
     ⟨", exited: ", 7, .threadsExited⟩,
     ⟨", spawn failures: ", 4, .spawnFailures⟩]
  closing := "\n"

def labelled (opening : String) (c : Counter) : Place :=
  ⟨opening ++ (Json.quoted c.label ++ ":"), 0, c⟩

def heading (opening : String) (c : Counter) : Place :=
  labelled (opening ++ (Json.quoted c.group ++ ":" ++ "\x7b")) c

def compactForm : Form where
  places :=
    [heading "\x7b" .gilFastAcquires, labelled "," .gilSlowAcquires,
     labelled "," .gilContentionMicros, labelled "," .gilYields, labelled "," .gilHandoffs,
     labelled "," .gilHandoffTimeouts,
     heading ("\x7d" ++ ",") .lockAcquired, labelled "," .lockFailures,
     labelled "," .lockInterrupts, labelled "," .lockContentions,
     labelled "," .lockContentionMicros,
     heading ("\x7d" ++ ",") .threadsSpawned, labelled "," .threadsExited,
     labelled "," .spawnFailures]
  closing := "\x7d" ++ "\x7d"

theorem legible_displayForm : displayForm.Legible := ⟨by decide, by decide⟩

theorem legible_compactForm : compactForm.Legible := ⟨by decide, by decide⟩

theorem display_eq_fill (m : Metrics) : m.display = displayForm.fill m := by
  unfold display
  simp only [displayForm, Form.fill, Form.fillFrom, get, String.append_assoc]

theorem column_zero (n : UInt64) : column 0 n = Text.decimal n.toNat := by
  rw [column, Text.padLeft, Nat.zero_sub, List.replicate_zero, List.nil_append, String.ofList_toList]

theorem groups_all : inGroup "gil" = [.gilFastAcquires, .gilSlowAcquires, .gilContentionMicros,
      .gilYields, .gilHandoffs, .gilHandoffTimeouts] ∧
    inGroup "locks" = [.lockAcquired, .lockFailures, .lockInterrupts, .lockContentions,
      .lockContentionMicros] ∧
    inGroup "threads" = [.threadsSpawned, .threadsExited, .spawnFailures] := by decide

theorem compact_word (n : UInt64) : (Json.word n).compact = column 0 n := by
  rw [column_zero]
  rfl

theorem compact_eq_fill (m : Metrics) : m.toJson.compact = compactForm.fill m := by
  simp only [toJson, groupJson, groups_all, List.map_cons, List.map_nil, Json.compact,
    Json.compactFields, compact_word, compactForm, Form.fill, Form.fillFrom, heading, labelled,
    Counter.group, String.append_assoc]

theorem eq_of_get {m m' : Metrics} (h : ∀ c, m.get c = m'.get c) : m = m' := by
  obtain ⟨gil, locks, threads⟩ := m
  obtain ⟨gil', locks', threads'⟩ := m'
  have hgil : gil = gil' := by
    cases gil
    cases gil'
    congr 1
    · exact h .gilFastAcquires
    · exact h .gilSlowAcquires
    · exact h .gilContentionMicros
    · exact h .gilYields
    · exact h .gilHandoffs
    · exact h .gilHandoffTimeouts
  have hlocks : locks = locks' := by
    cases locks
    cases locks'
    congr 1
    · exact h .lockAcquired
    · exact h .lockFailures
    · exact h .lockInterrupts
    · exact h .lockContentions
    · exact h .lockContentionMicros
  have hthreads : threads = threads' := by
    cases threads
    cases threads'
    congr 1
    · exact h .threadsSpawned
    · exact h .threadsExited
    · exact h .spawnFailures
  rw [hgil, hlocks, hthreads]

theorem mem_counters_compactForm (c : Counter) : c ∈ compactForm.counters := by
  cases c <;> decide

theorem mem_counters_displayForm {c : Counter} :
    c ∈ displayForm.counters ↔ c ≠ .lockContentionMicros := by
  cases c <;> decide

/-- Every counter is told by the report for programs, and every one but the time spent in contended
general locks by the report for people. Two states with one report agree on what it tells. -/
theorem reports_lossless :
    (∀ (m : Metrics) c, compactForm.get? c m.toJson.compact = some (m.get c)) ∧
    (∀ (m : Metrics) c, displayForm.get? c m.display =
      if c = .lockContentionMicros then none else some (m.get c)) ∧
    (∀ m m' : Metrics, m.toJson.compact = m'.toJson.compact ↔ m = m') ∧
    ∀ m m' : Metrics, m.display = m'.display ↔
      ∀ c, c ≠ .lockContentionMicros → m.get c = m'.get c := by
  refine ⟨fun m c => ?_, fun m c => ?_, fun m m' => ?_, fun m m' => ?_⟩
  · rw [compact_eq_fill, Form.get?_fill legible_compactForm, if_pos (mem_counters_compactForm c)]
  · rw [display_eq_fill, Form.get?_fill legible_displayForm]
    simp only [mem_counters_displayForm, ne_eq, ite_not]
  · rw [compact_eq_fill, compact_eq_fill, Form.fill_eq_fill_iff legible_compactForm]
    constructor
    · exact fun h => eq_of_get fun c => h c (mem_counters_compactForm c)
    · rintro rfl c -
      rfl
  · rw [display_eq_fill, display_eq_fill, Form.fill_eq_fill_iff legible_displayForm]
    simp only [mem_counters_displayForm]

end InterpreterLock.Metrics
