import InterpreterLock.Session.World

/-!
# Steps of a session

One step of one thread: a step of the call it is in, and, when that has ended, the reply and the
beginning of the next statement of the block it is in.
-/

set_option autoImplicit false

namespace InterpreterLock.Session

namespace World

def onLock (w : World) (s : Statement) (name : String) (f : Nat → Call × Purpose) :
    Call × Purpose :=
  match w.locks.find? name with
  | some k => f k
  | none => (.single s, .plain)

def opening (w : World) : Statement → Call × Purpose
  | .acquire n => (.interpreter n .toAcquire, .plain)
  | .release n => (.interpreter n .toRelease, .plain)
  | .yield n => (.interpreter n .toYield, .plain)
  | .beforeFork n => (.interpreter n .beforeFork, .plain)
  | .afterFork n => (.interpreter n .toAfterFork, .plain)
  | .bareAcquire n => (.gil n .toAcquire, .plain)
  | .bareRelease n => (.gil n .toRelease, .plain)
  | .bareYield n => (.gil n .toYield, .asFlag)
  | .bareReinit n => (.gil n .toReinit, .plain)
  | .storeWord n word => (.gil n (.store word), .plain)
  | .block (.allow n hooked) body panic =>
    (if hooked then .interpreter n .toEnter else .gil n .toRelease,
      .opens (.allow n hooked) body panic)
  | .block (.guard name) body panic =>
    w.onLock (.block (.guard name) body panic) name fun k =>
      (.lock k .blocking .tryLock, .opens (.guard k) body panic)
  | .spawn n who name => (.spawn n who name .reserve, .plain)
  | .lock name blocking =>
    w.onLock (.lock name blocking) name fun k =>
      (.lock k (if blocking then .blocking else .polling) .tryLock, .asFlag)
  | .lockTimed name timeout =>
    w.onLock (.lockTimed name timeout) name fun k => (.lock k (.timed timeout) .tryLock, .plain)
  | .unlock name => w.onLock (.unlock name) name fun k => (.unlock k .unlock, .plain)
  | s => (.single s, .plain)

abbrev Stepped := World × Progress Call Reply

def answerOf (purpose : Purpose) (b : Bool) : Reply :=
  match purpose with
  | .asFlag => .flag b
  | _ => .ok

def stepInterpreter (w : World) (me : Ident) (purpose : Purpose) (n : Nat) (c : Interpreter.Call) :
    Stepped :=
  match w.interpreters[n]? with
  | none => (w, .done .nothing)
  | some r =>
    let (r', p) := c.step (w.turnOf me) r
    (w.setInterpreter n r', p.within (.interpreter n) fun b => .done (answerOf purpose b))

def stepGil (w : World) (me : Ident) (purpose : Purpose) (n : Nat) (c : Gil.Call) : Stepped :=
  match w.interpreters[n]? with
  | none => (w, .done .nothing)
  | some r =>
    let m := c.step (w.turnOf me) r.gil
    (w.setInterpreter n { r with gil := m.state, metrics := r.metrics.recordOpt m.note },
      m.progress.within (.gil n) fun b => .done (answerOf purpose b))

def statusReply (purpose : Purpose) (s : LockStatus) : Reply :=
  match purpose with
  | .asFlag => .flag s.isAcquired
  | _ => .status s

def stepLock (w : World) (me : Ident) (purpose : Purpose) (k : Nat)
    (terms : ThreadLock.Terms) (c : ThreadLock.Acquire) : Stepped :=
  match w.locks.get? k with
  | none => (w, .done .nothing)
  | some l =>
    let m := c.step terms (w.turnOf me) l.lock
    ({ w with locks := w.locks.set k { l with lock := m.state } }.countOn l.owner m.note,
      m.progress.within (.lock k terms) fun s => .done (statusReply purpose s))

def stepUnlock (w : World) (me : Ident) (k : Nat) (c : ThreadLock.Release) : Stepped :=
  match w.locks.get? k with
  | none => (w, .done .nothing)
  | some l =>
    let m := c.step (w.turnOf me) l.lock
    ({ w with locks := w.locks.set k { l with lock := m.state } }.countOn l.owner m.note,
      m.progress.within (.unlock k) fun was => .done (if was then .ok else .error .notLocked))

def stepWait (w : World) (me : Ident) (k : Nat) (c : Wait) : Stepped :=
  match w.events.get? k with
  | none => (w, .done .nothing)
  | some e =>
    let (e', p) := c.step (w.turnOf me) e
    ({ w with events := w.events.set k e' }, p.within (.wait k) fun o => .done (.outcome o))

def launch (w : World) (n : Nat) (who : String) (label : Option String) :
    Option Ident → World
  | none => w
  | some i =>
    w.enroll who
      { ident := i, label, home := some n, stopped := w.stops
        doing := some (.wrapper n .install, .plain) }

def stepSpawn (w : World) (n : Nat) (who : String) (name : Option String) (c : Spawn) :
    Stepped :=
  match w.interpreters[n]? with
  | none => (w, .done .nothing)
  | some r =>
    let before : Nursery := ⟨r.bootstrap, w.idents⟩
    let m := c.step .standard name before
    let r' : Interpreter :=
      { r with bootstrap := m.state.bootstrap, metrics := r.metrics.recordOpt m.note }
    let w' := ({ w with idents := m.state.idents }.setInterpreter n r').launch n who name
      (c.launches? .standard name before)
    match m.progress with
    | .going c' => (w', .going (.spawn n who name c'))
    | .done (.ok i) => ({ w' with handles := w'.handles.insert who i }, .going (.awaitEntry i))
    | .done (.error e) => (w', .done (.error e))
    | .unwound p => (w', .unwound p)

def seenBy (w : World) (i : Ident) : Ident :=
  ((w.threadOf? i).bind Thread.own).getD i

def joinReply : Option Panic → Reply
  | none => .ok
  | some p => .panicked p

def stepAwaitEnd (w : World) (i : Ident) : Stepped :=
  match w.endings.get? i with
  | none => (w, .going (.awaitEnd i))
  | some ending => (w, .done (joinReply ending))

def hearSelf (w : World) (n : Nat) (me : Ident) (c : HookCall) : Stepped :=
  match w.interpreters[n]? with
  | none => (w, .done .nothing)
  | some r =>
    if r.bootstrap.collector.isNone then (w, .done .nothing)
    else (w.setInterpreter n (r.hear me c), .done .ok)

def onEvent (w : World) (name : String) (f : Event → Event) : Stepped :=
  match w.events.named? name with
  | none => (w, .done .nothing)
  | some (k, e) => ({ w with events := w.events.set k (f e) }, .done .ok)

def stepSingle (w : World) (th : Thread) : Statement → Stepped
  | .held n =>
    (w, .done (.ofFlag? (w.interpreters[n]?.map fun r => r.gil.isHeldBy th.ident)))
  | .join who =>
    match w.handles.get? who with
    | none => (w, .done .nothing)
    | some i =>
      ({ w with handles := w.handles.erase who },
        if i = th.ident then .unwound .joinedSelf else .going (.awaitEnd i))
  | .detach who =>
    if w.handles.contains who then ({ w with handles := w.handles.erase who }, .done .ok)
    else (w, .done .nothing)
  | .isFinished who =>
    (w, .done (.ofFlag? ((w.handles.get? who).map fun i => w.endings.contains i)))
  | .setStackSize n size =>
    match w.interpreters[n]? with
    | none => (w, .done .nothing)
    | some r =>
      match r.bootstrap.setStackSize size with
      | .error e => (w, .done (.error e))
      | .ok (old, bootstrap) => (w.setInterpreter n { r with bootstrap }, .done (.number old))
  | .ident =>
    let (i, own, idents) := w.idents.ask th.own
    ({ w with idents }.setThread { th with own }, .done (.number i.number.toNat))
  | .threadName => (w, .done (.ofText? th.label))
  | .registerSelf n => w.hearSelf n th.ident (.register th.ident)
  | .deregisterSelf n => w.hearSelf n th.ident (.deregister th.ident)
  | .newLock lock n backend =>
    match backend, w.interpreters[n]? with
    | some b, _ => ({ w with locks := w.locks.put lock ⟨.new b, none⟩ }, .done .ok)
    | none, some r =>
      ({ w with locks := w.locks.put lock ⟨.new r.bootstrap.backend, some n⟩ }, .done .ok)
    | none, none => (w, .done .nothing)
  | .tryLock lock =>
    match w.locks.named? lock with
    | none => (w, .done .nothing)
    | some (k, l) =>
      let (taken, b) := l.lock.tryAcquire
      ({ w with locks := w.locks.set k { l with lock := taken } }, .done (.flag b))
  | .interruptLock lock =>
    match w.locks.named? lock with
    | none => (w, .done .nothing)
    | some (k, l) =>
      ({ w with locks := w.locks.set k { l with lock := l.lock.interrupt } }, .done .ok)
  | .newEvent event backend =>
    ({ w with events := w.events.put event (.new backend) }, .done .ok)
  | .prepare event ticket =>
    match w.events.named? event with
    | none => (w, .done .nothing)
    | some (_, e) =>
      ({ w with tickets := w.tickets.insert ticket e.prepare }, .done (.ticket e.prepare))
  | .wait event ticket timeout =>
    match w.events.find? event with
    | none => (w, .done .nothing)
    | some k => (w, .going (.wait k (.start ((w.tickets.get? ticket).getD {}) timeout)))
  | .signalOne event => w.onEvent event (·.signalOne 0)
  | .signalAll event => w.onEvent event (·.signalAll)
  | .interrupt event => w.onEvent event (·.interrupt)
  | .newCell cell =>
    let (r, keys) := w.keys.create 0
    ({ w with cells := w.cells.insert cell r, keys }, .done .ok)
  | .getCell cell =>
    (w, .done (.ofText? ((w.cells.get? cell).bind fun r => th.locals.get? r)))
  | .setCell cell value =>
    match w.cells.get? cell with
    | none => (w, .done .nothing)
    | some r => (w.setThread { th with locals := th.locals.set r value }, .done .ok)
  | _ => (w, .done .nothing)

def stepWrapper (w : World) (th : Thread) (n : Nat) (c : Wrapper) :
    World × Progress Wrapper (Option Panic) :=
  match w.interpreters[n]? with
  | none => (w, .done none)
  | some r =>
    let m := c.step th.ident r.bootstrap
    let w' := w.setInterpreter n
      { r with bootstrap := m.state, metrics := r.metrics.recordOpt m.note }
    (w'.setThread { th with own := c.remembered th.ident th.own }, m.progress)

def leaving (scope : Scope) : Call :=
  match scope with
  | .allow n true => .interpreter n .toLeave
  | .allow n false => .gil n .toAcquire
  | .guard lock => .unlock lock .unlock

/-- With a panic, unless that would abort the process and is withheld. -/
def unwinding (w : World) (me : Ident) (scope : Scope) (p : Panic) : Except Panic Reply :=
  match scope with
  | .guard _ => .error p
  | .allow n _ =>
    match w.interpreters[n]? with
    | none => .error p
    | some r =>
      if r.gil.isHeldBy me || !r.gil.mode.isValid r.gil.word then .ok .withheld
      else .error p

def bodyResult (w : World) (me : Ident) (b : OpenBlock) : Except Panic Reply :=
  match b.panic with
  | none => .ok (.all b.replies.reverse)
  | some text => w.unwinding me b.scope (.raised text)

def next (w : World) (th : Thread) : Thread :=
  match th.blocks with
  | [] => { th with doing := none }
  | b :: outer =>
    match b.rest with
    | s :: rest =>
      { th with blocks := { b with rest } :: outer, doing := some (w.opening s) }
    | [] =>
      { th with
        blocks := outer
        doing := some (leaving b.scope, .closes (w.bodyResult th.ident b)) }

def reply (w : World) (th : Thread) (r : Reply) : World :=
  match th.blocks with
  | [] => { w with replies := (th.ident, r) :: w.replies }.setThread { th with doing := none }
  | b :: outer =>
    w.setThread (w.next { th with blocks := { b with replies := r :: b.replies } :: outer })

def unwind (w : World) (th : Thread) (p : Panic) : World :=
  match th.blocks with
  | [] => w.reply th (.panicked p)
  | b :: outer =>
    w.setThread
      { th with
        blocks := outer
        doing := some (leaving b.scope, .closes (w.unwinding th.ident b.scope p)) }

def ended (w : World) (th : Thread) (purpose : Purpose) (result : Except Panic Reply) : World :=
  match purpose, result with
  | .opens scope body panic, .ok _ =>
    w.setThread (w.next { th with blocks := { scope, rest := body, panic } :: th.blocks })
  | .closes (.ok r), .ok _ => w.reply th r
  | .closes (.error p), .ok _ => w.unwind th p
  | _, .ok r => w.reply th r
  | _, .error p => w.unwind th p

def stepCall (w : World) (th : Thread) (purpose : Purpose) : Call → Stepped
  | .single s => w.stepSingle th s
  | .interpreter n c => w.stepInterpreter th.ident purpose n c
  | .gil n c => w.stepGil th.ident purpose n c
  | .lock k terms c => w.stepLock th.ident purpose k terms c
  | .unlock k c => w.stepUnlock th.ident k c
  | .wait k c => w.stepWait th.ident k c
  | .spawn n who label c => w.stepSpawn n who label c
  | .awaitEntry i =>
    if w.inEntry i then (w, .done (.spawned i (w.seenBy i))) else (w, .going (.awaitEntry i))
  | .awaitEnd i => w.stepAwaitEnd i
  | .wrapper n c => (w, .going (.wrapper n c))

def afterCall (w : World) (th : Thread) (purpose : Purpose) : Progress Call Reply → World
  | .going c => w.setThread { th with doing := some (c, purpose) }
  | .done r => w.ended th purpose (.ok r)
  | .unwound p => w.ended th purpose (.error p)

/-- A spawned thread that has run to its end is gone, and how it ended is known. -/
def afterWrapper (w : World) (me : Ident) (n : Nat) : Progress Wrapper (Option Panic) → World
  | .going .entry =>
    { w with threads := w.threads.modify me fun th => { th with doing := none } }
  | .going c =>
    { w with
      threads := w.threads.modify me fun th => { th with doing := some (.wrapper n c, .plain) } }
  | .done ending =>
    { w with
      threads := w.threads.erase me
      endings := w.endings.insert me ending }
  | .unwound _ => w

def step (w : World) (me : Ident) : World :=
  match w.threadOf? me with
  | none => w
  | some th =>
    match th.doing with
    | none => w
    | some (.wrapper n c, _) =>
      let (w', p) := w.stepWrapper th n c
      w'.afterWrapper me n p
    | some (c, purpose) =>
      let (w', p) := w.stepCall th purpose c
      w'.afterCall ((w'.threadOf? me).getD th) purpose p

end World

end InterpreterLock.Session
