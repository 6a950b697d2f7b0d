import InterpreterLock.Session.Step

/-!
# The schedule of a session

Statements are taken one at a time. The thread that takes one goes on until it stops; then, of the
threads that can move, the one that stopped first goes on, until none can. A step takes a moment.
When no thread can move, time passes to the first deadline that is near; deadlines further off are
never reached.
-/

set_option autoImplicit false

namespace InterpreterLock.Session

namespace World

def isStopped (w : World) (th : Thread) : Bool :=
  let t := w.turnOf th.ident
  match th.doing with
  | none => true
  | some (.interpreter n c, _) => (w.interpreters[n]?.map (c.isResting t ·)).getD false
  | some (.gil n c, _) => (w.interpreters[n]?.map fun r => c.isResting t r.gil).getD false
  | some (.lock k _ c, _) => ((w.locks.get? k).map fun l => c.isResting t l.lock).getD false
  | some (.wait k c, _) => ((w.events.get? k).map (c.isResting t ·)).getD false
  | some (.awaitEntry i, _) => !w.inEntry i
  | some (.awaitEnd i, _) => !w.endings.contains i
  | some _ => false

def deadlineOf (th : Thread) : Option Instant :=
  match th.doing with
  | some (.interpreter _ c, _) => c.deadline?
  | some (.gil _ c, _) => c.deadline?
  | some (.lock _ _ c, _) => c.deadline?
  | some (.wait _ c, _) => c.deadline?
  | _ => none

def nextToMove (w : World) : Option Ident :=
  let able := w.threads.entries.filter fun e => !w.isStopped e.2
  let first := able.foldl
    (fun best e =>
      match best with
      | none => some (e.1, e.2.stopped)
      | some (i, n) => if e.2.stopped < n then some (e.1, e.2.stopped) else some (i, n))
    none
  first.map Prod.fst

def horizon : Duration := .ofMillis 1000

def nextDeadline (w : World) : Option Instant :=
  let near := (w.threads.entries.filterMap fun e => deadlineOf e.2).filter fun d =>
    d.nanoseconds ≤ w.now.nanoseconds + horizon.nanoseconds
  near.foldl
    (fun best d =>
      match best with
      | none => some d
      | some b => if d.nanoseconds < b.nanoseconds then some d else some b)
    none

def noteStop (w : World) (i : Ident) : World :=
  { w with
    threads := w.threads.modify i fun th => { th with stopped := w.stops }
    stops := w.stops + 1 }

/-- A step takes a nanosecond, so that a thread which only reads the clock comes to its deadline. -/
def passMoment (w : World) : World := { w with now := ⟨w.now.nanoseconds + 1⟩ }

def settle : Nat → World → Option Ident → World
  | 0, w, _ => w
  | bound + 1, w, some i =>
    match w.threadOf? i with
    | none => settle bound w none
    | some th =>
      if w.isStopped th then settle bound (w.noteStop i) none
      else settle bound (w.step i).passMoment (some i)
  | bound + 1, w, none =>
    match w.nextToMove with
    | some i => settle bound w (some i)
    | none =>
      match w.nextDeadline with
      | some d => settle bound { w with now := d } none
      | none => w

/-- More steps than the threads of a session take before all have stopped. -/
def stepBound : Nat := 1000000

def begin (w : World) (th : Thread) (s : Statement) : World :=
  match th.doing with
  | some _ => { w with replies := (th.ident, .busy) :: w.replies }
  | none =>
    settle stepBound (w.setThread { th with doing := some (w.opening s) }) (some th.ident)

structure Outcome where
  reply : Reply
  woken : List (String × Reply)

def outcome (w : World) (me : Ident) (unanswered : Reply) : Outcome where
  reply := ((w.replies.find? fun e => e.1 = me).map Prod.snd).getD unanswered
  woken := (w.replies.reverse.filter fun e => e.1 ≠ me).filterMap fun e =>
    (w.nameOf? e.1).map (·, e.2)

def summon (w : World) (name : String) : World × Thread :=
  match w.threadNamed? name with
  | some th => (w, th)
  | none => w.newThread name

def perform (w : World) (name : String) (s : Statement) : World × Outcome :=
  let (w, th) := { w with replies := [] }.summon name
  let w' := w.begin th s
  (w', w'.outcome th.ident .blocked)

def finish (w : World) (who : String) (panic : Option String) : World × Outcome :=
  let w := { w with replies := [] }
  match w.threadNamed? who with
  | none => (w, ⟨.nothing, []⟩)
  | some th =>
    match th.doing, th.home with
    | some _, _ => (w, ⟨.busy, []⟩)
    | none, none => ({ w with threads := w.threads.erase th.ident }, ⟨.ok, []⟩)
    | none, some n =>
      let doing := some (Call.wrapper n (.deregister (panic.map .raised)), Purpose.plain)
      let w' := settle stepBound (w.setThread { th with doing }) (some th.ident)
      (w', w'.outcome th.ident .ok)

def blocked (w : World) : List String :=
  w.names.keys.filter fun name => (w.threadNamed? name).any fun th => th.doing.isSome

end World

def epoch : Instant := ⟨3600 * 1000000000⟩

def start (interpreters : List Interpreter) : World :=
  ({ now := epoch, interpreters : World }.newThread "main").1

end InterpreterLock.Session
