import InterpreterLock.Proofs.Interpreter.Call
import InterpreterLock.Session.Schedule

/-!
# What a step of a session leaves

A step of a thread is a step of the call that it is in. What the threads share is as that step
leaves it. The thread goes on in its call, or its call has ended and it begins another one of its
script; a call that has begun has taken no step. All other threads are where they were, but for a
thread that the step starts.
-/

set_option autoImplicit false

namespace InterpreterLock.Session

namespace World

variable {w : World} {me : Ident} {th : Thread} {c : Call} {purpose : Purpose}

def callOf? (w : World) (i : Ident) : Option Call :=
  (w.threadOf? i).bind fun th => th.doing.map Prod.fst

/-- A call of the script before its first step. -/
inductive Begun : Call → Prop
  | single (s : Statement) : Begun (.single s)
  | interpreter (n : ℕ) (op : Interpreter.Op) : Begun (.interpreter n op.call)
  | gil (n : ℕ) (op : Gil.Op) : Begun (.gil n op.call)
  | lock (k : ℕ) (terms : ThreadLock.Terms) : Begun (.lock k terms .tryLock)
  | unlock (k : ℕ) : Begun (.unlock k .unlock)
  | spawn (n : ℕ) (who : String) (name : Option String) : Begun (.spawn n who name .reserve)

theorem onLock_begun {s : Statement} {name : String} {f : ℕ → Call × Purpose}
    (hf : ∀ k, Begun (f k).1) : Begun (w.onLock s name f).1 := by
  unfold onLock
  split
  · exact hf _
  · exact .single s

theorem opening_begun (s : Statement) : Begun (w.opening s).1 := by
  cases s with
  | acquire n => exact .interpreter n .acquire
  | release n => exact .interpreter n .release
  | yield n => exact .interpreter n .yield
  | beforeFork n => exact .interpreter n .beforeFork
  | afterFork n => exact .interpreter n .afterFork
  | bareAcquire n => exact .gil n .acquire
  | bareRelease n => exact .gil n .release
  | bareYield n => exact .gil n .yield
  | bareReinit n => exact .gil n .reinit
  | storeWord n word => exact .gil n (.store word)
  | spawn n who name => exact .spawn n who name
  | block kind body panic =>
    cases kind with
    | allow n hooked =>
      cases hooked with
      | true => exact .interpreter n .enter
      | false => exact .gil n .release
    | guard name => exact onLock_begun fun k => .lock k .blocking
  | lock name blocking => exact onLock_begun fun k => .lock k _
  | lockTimed name timeout => exact onLock_begun fun k => .lock k (.timed timeout)
  | unlock name => exact onLock_begun fun k => .unlock k
  | _ => exact .single _

theorem leaving_begun (scope : Scope) : Begun (leaving scope) := by
  cases scope with
  | allow n hooked =>
    cases hooked with
    | true => exact .interpreter n .leave
    | false => exact .gil n .acquire
  | guard k => exact .unlock k

/-- The ident of the thread that the operating system starts in the next step of the call. -/
def started? (w : World) : Call → Option Ident
  | .spawn n _ label c =>
    w.interpreters[n]?.bind fun r => c.launches? .standard label ⟨r.bootstrap, w.idents⟩
  | _ => none

/-- A table of threads in which this thread has been put into place. -/
def Puts (w : World) (th : Thread) (w' : World) : Prop :=
  ∃ replies, w' = { w with threads := w.threads.insert th.ident th, replies }

/-- Whatever the thread does next has taken no step. -/
def Restarts (i : Ident) (th : Thread) : Prop := th.ident = i ∧ ∀ d ∈ th.doing, Begun d.1

theorem next_restarts (th : Thread) : Restarts th.ident (w.next th) := by
  unfold next
  split
  · exact ⟨rfl, by simp⟩
  · split
    · rename_i s rest _
      refine ⟨rfl, fun d hd => ?_⟩
      cases Option.mem_some_iff.mp hd
      exact opening_begun s
    · refine ⟨rfl, fun d hd => ?_⟩
      cases Option.mem_some_iff.mp hd
      exact leaving_begun _

theorem reply_puts (th : Thread) (r : Reply) :
    ∃ th', Restarts th.ident th' ∧ w.Puts th' (w.reply th r) := by
  unfold reply
  split
  · exact ⟨{ th with doing := none }, ⟨rfl, by simp⟩, _, rfl⟩
  · rename_i b outer _
    let th' : Thread := { th with blocks := { b with replies := r :: b.replies } :: outer }
    exact ⟨w.next th', next_restarts th', _, rfl⟩

theorem unwind_puts (th : Thread) (p : Panic) :
    ∃ th', Restarts th.ident th' ∧ w.Puts th' (w.unwind th p) := by
  unfold unwind
  split
  · exact reply_puts th _
  · rename_i b outer _
    let closing : Purpose := .closes (w.unwinding th.ident b.scope p)
    refine ⟨{ th with blocks := outer, doing := some (leaving b.scope, closing) },
      ⟨rfl, fun d hd => ?_⟩, _, rfl⟩
    cases Option.mem_some_iff.mp hd
    exact leaving_begun _

theorem ended_puts (th : Thread) (purpose : Purpose) (result : Except Panic Reply) :
    ∃ th', Restarts th.ident th' ∧ w.Puts th' (w.ended th purpose result) := by
  unfold ended
  split
  · rename_i scope body panic _
    let th' : Thread := { th with blocks := { scope, rest := body, panic } :: th.blocks }
    exact ⟨w.next th', next_restarts th', _, rfl⟩
  · exact reply_puts th _
  · exact unwind_puts th _
  · exact reply_puts th _
  · exact unwind_puts th _

theorem threadOf?_of_puts {w' : World} {i : Ident} (h : w.Puts th w') :
    w'.threadOf? i = if i = th.ident then some th else w.threadOf? i := by
  obtain ⟨replies, rfl⟩ := h
  split
  · rename_i hi
    rw [hi]
    exact Table.get?_insert_self _ _ _
  · rename_i hi
    exact Table.get?_insert_of_ne _ _ hi

def Keyed (w : World) : Prop := ∀ i th, w.threadOf? i = some th → th.ident = i

/-- Where the step of a call leaves the thread that takes it. -/
def Resumes (c' : Option Call) : Progress Call Reply → Prop
  | .going d => c' = some d
  | .done _ | .unwound _ => ∀ d ∈ c', Begun d

theorem step_eq (hth : w.threadOf? me = some th) (hd : th.doing = some (c, purpose))
    (hc : ∀ n p, c ≠ .wrapper n p) :
    ∃ th', th'.ident = (((w.stepCall th purpose c).1.threadOf? me).getD th).ident ∧
      (w.stepCall th purpose c).1.Puts th' (w.step me) ∧
      Resumes (th'.doing.map Prod.fst) (w.stepCall th purpose c).2 := by
  have hstep : w.step me =
      (w.stepCall th purpose c).1.afterCall (((w.stepCall th purpose c).1.threadOf? me).getD th)
        purpose (w.stepCall th purpose c).2 := by
    unfold step
    rw [hth]
    simp only [hd]
  rw [hstep]
  obtain ⟨w', p⟩ := w.stepCall th purpose c
  dsimp only
  generalize (w'.threadOf? me).getD th = th₀
  have hended (result : Except Panic Reply) :
      ∃ th', th'.ident = th₀.ident ∧ w'.Puts th' (w'.ended th₀ purpose result) ∧
        ∀ d ∈ th'.doing.map Prod.fst, Begun d := by
    obtain ⟨th', ⟨hident, hbegins⟩, hputs⟩ := ended_puts th₀ purpose result
    refine ⟨th', hident, hputs, fun d hd => ?_⟩
    obtain ⟨e, he, rfl⟩ := Option.map_eq_some_iff.mp hd
    exact hbegins e he
  cases p with
  | going c' => exact ⟨{ th₀ with doing := some (c', purpose) }, rfl, ⟨_, rfl⟩, rfl⟩
  | done r => exact hended (.ok r)
  | unwound p => exact hended (.error p)

/-- What a step does to the table of threads before its own thread is put back into it. -/
inductive Moves (w : World) (me : Ident) (started? : Option Ident) : Table Ident Thread → Prop
  | stay (h : started? = none) : Moves w me started? w.threads
  | own (h : started? = none) (th : Thread) (hi : th.ident = me) :
    Moves w me started? (w.threads.insert me th)
  | start (i : Ident) (h : started? = some i) (n : Nat) (th : Thread) (hi : th.ident = i)
    (hd : th.doing = some (.wrapper n .install, .plain)) :
    Moves w me started? (w.threads.insert i th)

theorem stepSingle_moves (th : Thread) (s : Statement) :
    w.Moves th.ident none (w.stepSingle th s).1.threads := by
  cases s with
  | ident => exact .own rfl _ rfl
  | setCell cell value =>
    simp only [stepSingle]
    split
    · exact .stay rfl
    · exact .own rfl _ rfl
  | _ =>
    simp only [stepSingle, hearSelf, onEvent]
    repeat' split
    all_goals exact .stay rfl

theorem launch_moves {w' : World} (hw : w'.threads = w.threads) (n : Nat) (who : String)
    (label : Option String) (o : Option Ident) :
    w.Moves me o (w'.launch n who label o).threads := by
  cases o with
  | none =>
    have hl : (w'.launch n who label none).threads = w.threads := hw
    rw [hl]
    exact .stay rfl
  | some i =>
    have hl : (w'.launch n who label (some i)).threads =
        w.threads.insert i
          { ident := i, label, home := some n, stopped := w'.stops
            doing := some (.wrapper n .install, .plain) } := by
      rw [← hw]
      rfl
    rw [hl]
    exact .start i rfl n _ rfl rfl

theorem stepSpawn_moves (n : Nat) (who : String) (label : Option String) (c : Spawn) :
    w.Moves me (w.started? (.spawn n who label c)) (w.stepSpawn n who label c).1.threads := by
  cases hr : w.interpreters[n]? with
  | none =>
    simp only [stepSpawn, started?, hr]
    exact .stay rfl
  | some r =>
    simp only [stepSpawn, started?, hr, Option.bind_some]
    generalize hl : World.launch _ n who label _ = w'
    have hm : w.Moves me (c.launches? .standard label ⟨r.bootstrap, w.idents⟩) w'.threads := by
      rw [← hl]
      refine launch_moves ?_ n who label _
      rfl
    split <;> exact hm

theorem stepCall_moves (th : Thread) (purpose : Purpose) (c : Call) :
    w.Moves th.ident (w.started? c) (w.stepCall th purpose c).1.threads := by
  cases c with
  | single s => exact stepSingle_moves th s
  | spawn n who label c => exact stepSpawn_moves n who label c
  | wrapper n c => exact .stay rfl
  | interpreter n c =>
    simp only [stepCall, stepInterpreter]
    split <;> exact .stay rfl
  | gil n c =>
    simp only [stepCall, stepGil]
    split <;> exact .stay rfl
  | wait k c =>
    simp only [stepCall, stepWait]
    split <;> exact .stay rfl
  | lock k terms c =>
    simp only [stepCall, stepLock]
    split
    · exact .stay rfl
    · simp only [countOn]
      split <;> exact .stay rfl
  | unlock k c =>
    simp only [stepCall, stepUnlock]
    split
    · exact .stay rfl
    · simp only [countOn]
      split <;> exact .stay rfl
  | awaitEntry i =>
    simp only [stepCall]
    split <;> exact .stay rfl
  | awaitEnd i =>
    simp only [stepCall, stepAwaitEnd]
    split <;> exact .stay rfl

namespace Moves

variable {o : Option Ident} {ths : Table Ident Thread} {i : Ident}

theorem get?_of_ne (hm : w.Moves me o ths) (hi : i ≠ me) (ho : o ≠ some i) :
    ths.get? i = w.threadOf? i := by
  cases hm with
  | stay _ => rfl
  | own _ th _ => exact Table.get?_insert_of_ne _ _ hi
  | start j hj n th _ _ =>
    have hij : i ≠ j := by
      rintro rfl
      exact ho hj
    exact Table.get?_insert_of_ne _ _ hij

theorem get?_of_start (hm : w.Moves me o ths) (ho : o = some i) :
    ∃ n th, ths.get? i = some th ∧ th.ident = i ∧
      th.doing = some (.wrapper n .install, .plain) := by
  cases hm with
  | stay h =>
    rw [h] at ho
    cases ho
  | own h _ _ =>
    rw [h] at ho
    cases ho
  | start j hj n th hi hd =>
    rw [hj] at ho
    cases ho
    exact ⟨n, th, Table.get?_insert_self _ _ _, hi, hd⟩

theorem ident_eq (hm : w.Moves me o ths) (hth : w.threadOf? me = some th) (hi : th.ident = me) :
    ((ths.get? me).getD th).ident = me := by
  by_cases ho : o = some me
  · obtain ⟨n, x, hx, hident, -⟩ := hm.get?_of_start ho
    rw [hx]
    exact hident
  · cases hm with
    | stay _ =>
      rw [show w.threads.get? me = some th from hth]
      exact hi
    | own _ x hx =>
      rw [Table.get?_insert_self]
      exact hx
    | start j hj n x _ _ =>
      have hne : me ≠ j := by
        rintro rfl
        exact ho hj
      rw [Table.get?_insert_of_ne _ _ hne, show w.threads.get? me = some th from hth]
      exact hi

end Moves

/-- Where the threads are when `me` has taken a step: it is there under its own ident, if it is, and
another thread is where it was, unless the step has started it. -/
structure Others (w : World) (me : Ident) (started? : Option Ident) (w' : World) : Prop where
  self : ∀ th, w'.threadOf? me = some th → th.ident = me
  kept : ∀ i, i ≠ me → started? ≠ some i → w'.threadOf? i = w.threadOf? i
  started : ∀ i, i ≠ me → started? = some i → ∃ n th, w'.threadOf? i = some th ∧ th.ident = i ∧
    th.doing = some (.wrapper n .install, .plain)

theorem Others.keyed {o : Option Ident} {w' : World} (h : w.Others me o w') (hk : w.Keyed) :
    w'.Keyed := by
  intro i th hth
  by_cases hi : i = me
  · rw [hi] at hth ⊢
    exact h.self th hth
  · by_cases ho : o = some i
    · obtain ⟨n, th', hth', hident, -⟩ := h.started i hi ho
      rw [hth] at hth'
      cases hth'
      exact hident
    · rw [h.kept i hi ho] at hth
      exact hk i th hth

theorem Moves.others {o : Option Ident} {ths : Table Ident Thread} {w' : World}
    (hm : w.Moves me o ths) (hth : w.threadOf? me = some th) (hme : th.ident = me)
    (hne : ∀ i, i ≠ me → w'.threadOf? i = ths.get? i)
    (hself : ∀ x, w'.threadOf? me = some x → x.ident = ((ths.get? me).getD th).ident) :
    w.Others me o w' := by
  refine ⟨fun x hx => (hself x hx).trans (hm.ident_eq hth hme), fun i hi ho => ?_,
    fun i hi ho => ?_⟩
  · rw [hne i hi]
    exact hm.get?_of_ne hi ho
  · rw [hne i hi]
    exact hm.get?_of_start ho

/-- A step in a call: the threads share what the step of the call leaves, and the thread goes on in
it or begins another. -/
structure Steps (w : World) (me : Ident) (th : Thread) (purpose : Purpose) (c : Call) : Prop where
  interpreters : (w.step me).interpreters = (w.stepCall th purpose c).1.interpreters
  locks : (w.step me).locks = (w.stepCall th purpose c).1.locks
  idents : (w.step me).idents = (w.stepCall th purpose c).1.idents
  others : w.Others me (w.started? c) (w.step me)
  resumes : Resumes ((w.step me).callOf? me) (w.stepCall th purpose c).2

theorem steps (hk : w.Keyed) (hth : w.threadOf? me = some th) (hd : th.doing = some (c, purpose))
    (hc : ∀ n p, c ≠ .wrapper n p) : w.Steps me th purpose c := by
  have hme : th.ident = me := hk me th hth
  have hm := stepCall_moves (w := w) th purpose c
  rw [hme] at hm
  obtain ⟨th', hident, hputs, hres⟩ := step_eq hth hd hc
  have hth' : th'.ident = me := hident.trans (hm.ident_eq hth hme)
  have hget (i : Ident) : (w.step me).threadOf? i =
      if i = me then some th' else (w.stepCall th purpose c).1.threadOf? i := by
    rw [threadOf?_of_puts hputs, hth']
  have hself : (w.step me).threadOf? me = some th' := by rw [hget, if_pos rfl]
  have hothers : w.Others me (w.started? c) (w.step me) := by
    refine hm.others hth hme (fun i hi => ?_) fun x hx => ?_
    · rw [hget, if_neg hi]
      rfl
    · rw [hself] at hx
      cases hx
      exact hident
  obtain ⟨replies, hstep⟩ := hputs
  refine ⟨by rw [hstep], by rw [hstep], by rw [hstep], hothers, ?_⟩
  rw [callOf?, hself]
  exact hres

theorem stepWrapper_moves (th : Thread) (n : Nat) (c : Wrapper) :
    w.Moves th.ident none (w.stepWrapper th n c).1.threads := by
  unfold stepWrapper
  split
  · exact .stay rfl
  · exact .own rfl _ rfl

/-- A step of a wrapper: the thread stays in its wrapper, comes to its entry, or is gone. -/
structure StepsWrapper (w : World) (me : Ident) (th : Thread) (n : Nat) (c : Wrapper) : Prop where
  interpreters : (w.step me).interpreters = (w.stepWrapper th n c).1.interpreters
  locks : (w.step me).locks = (w.stepWrapper th n c).1.locks
  idents : (w.step me).idents = (w.stepWrapper th n c).1.idents
  others : w.Others me none (w.step me)
  resumes : ∀ d, (w.step me).callOf? me = some d → ∃ n c, d = .wrapper n c

theorem stepWrapper_ne_unwound (th : Thread) (n : Nat) (c : Wrapper) (p : Panic) :
    (w.stepWrapper th n c).2 ≠ .unwound p := by
  unfold stepWrapper
  split
  · simp
  · cases c <;> simp [Wrapper.step]

section

variable {n : Nat} {p : Progress Wrapper (Option Panic)}

theorem threadOf?_afterWrapper_of_ne {i : Ident} (hi : i ≠ me) :
    (w.afterWrapper me n p).threadOf? i = w.threadOf? i := by
  have hmodify (f : Thread → Thread) : (w.threads.modify me f).get? i = w.threads.get? i := by
    simp [Table.get?_modify, hi]
  cases p with
  | going c => cases c <;> exact hmodify _
  | done ending => exact Table.get?_erase_of_ne _ hi
  | unwound p => rfl

theorem threadOf?_afterWrapper_self (hp : ∀ e, p ≠ .unwound e) {x : Thread}
    (hx : (w.afterWrapper me n p).threadOf? me = some x) :
    (∃ y, w.threadOf? me = some y ∧ x.ident = y.ident) ∧
      ∀ d ∈ x.doing, ∃ n c, d.1 = .wrapper n c := by
  cases p with
  | going c =>
    have hmodify (doing : Option (Call × Purpose))
        (hm : (w.threads.modify me fun th => { th with doing }).get? me = some x) :
        (∃ y, w.threadOf? me = some y ∧ x.ident = y.ident) ∧ x.doing = doing := by
      rw [Table.get?_modify, Option.map_eq_some_iff] at hm
      obtain ⟨y, hy, rfl⟩ := hm
      exact ⟨⟨y, hy, by simp⟩, by simp⟩
    cases c with
    | entry =>
      obtain ⟨hy, hd⟩ := hmodify none hx
      exact ⟨hy, by simp [hd]⟩
    | _ =>
      obtain ⟨hy, hd⟩ := hmodify (some (.wrapper n _, .plain)) hx
      exact ⟨hy, by simp [hd]⟩
  | done ending =>
    have herase : (w.threads.erase me).get? me = some x := hx
    rw [Table.get?_erase_self] at herase
    cases herase
  | unwound e => exact absurd rfl (hp e)

theorem afterWrapper_shared (w : World) (me : Ident) (n : Nat)
    (p : Progress Wrapper (Option Panic)) :
    (w.afterWrapper me n p).interpreters = w.interpreters ∧
      (w.afterWrapper me n p).locks = w.locks ∧ (w.afterWrapper me n p).idents = w.idents := by
  cases p with
  | going c => cases c <;> exact ⟨rfl, rfl, rfl⟩
  | done ending => exact ⟨rfl, rfl, rfl⟩
  | unwound e => exact ⟨rfl, rfl, rfl⟩

end

theorem stepsWrapper {n : Nat} {c : Wrapper} (hk : w.Keyed) (hth : w.threadOf? me = some th)
    (hd : th.doing = some (.wrapper n c, purpose)) : w.StepsWrapper me th n c := by
  have hme : th.ident = me := hk me th hth
  have hm := stepWrapper_moves (w := w) th n c
  rw [hme] at hm
  have hstep : w.step me =
      (w.stepWrapper th n c).1.afterWrapper me n (w.stepWrapper th n c).2 := by
    unfold step
    rw [hth]
    simp only [hd]
  have hp := stepWrapper_ne_unwound (w := w) th n c
  obtain ⟨hinterpreters, hlocks, hidents⟩ :=
    afterWrapper_shared (w.stepWrapper th n c).1 me n (w.stepWrapper th n c).2
  rw [← hstep] at hinterpreters hlocks hidents
  refine ⟨hinterpreters, hlocks, hidents, ?_, fun d hcall => ?_⟩
  · refine hm.others hth hme (fun i hi => ?_) fun x hx => ?_
    · rw [hstep]
      exact threadOf?_afterWrapper_of_ne hi
    · rw [hstep] at hx
      obtain ⟨⟨y, hy, hident⟩, -⟩ := threadOf?_afterWrapper_self hp hx
      rw [show (w.stepWrapper th n c).1.threads.get? me = some y from hy]
      exact hident
  · obtain ⟨x, hx, hdoing⟩ := Option.bind_eq_some_iff.mp hcall
    obtain ⟨e, he, rfl⟩ := Option.map_eq_some_iff.mp hdoing
    rw [hstep] at hx
    exact (threadOf?_afterWrapper_self hp hx).2 e he

/-- What becomes of the world in a step of this thread. -/
inductive Takes (w : World) (me : Ident) : Prop
  | rests (hc : w.callOf? me = none) (h : w.step me = w)
  | wrapper (th : Thread) (n : Nat) (c : Wrapper) (hc : w.callOf? me = some (.wrapper n c))
    (h : w.StepsWrapper me th n c)
  | call (th : Thread) (purpose : Purpose) (c : Call) (hc : w.callOf? me = some c)
    (hme : th.ident = me) (h : w.Steps me th purpose c)

theorem takes (hk : w.Keyed) (me : Ident) : w.Takes me := by
  cases hth : w.threadOf? me with
  | none => exact .rests (by simp [callOf?, hth]) (by simp [step, hth])
  | some th =>
    cases hd : th.doing with
    | none => exact .rests (by simp [callOf?, hth, hd]) (by simp [step, hth, hd])
    | some d =>
      obtain ⟨c, purpose⟩ := d
      have hc : w.callOf? me = some c := by simp [callOf?, hth, hd]
      cases c with
      | wrapper n c => exact .wrapper th n c hc (stepsWrapper hk hth hd)
      | _ => exact .call th purpose _ hc (hk me th hth) (steps hk hth hd (by simp))

theorem isSome_of_callOf? {i : Ident} (h : w.callOf? i = some c) :
    (w.threadOf? i).isSome = true := by
  obtain ⟨th, hth, -⟩ := Option.bind_eq_some_iff.mp h
  rw [hth]
  rfl

end World

end InterpreterLock.Session
