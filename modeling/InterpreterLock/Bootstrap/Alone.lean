import InterpreterLock.Bootstrap.Spawn

/-!
# A thread run to its end

The spawner starts a thread and then only waits for it, so that the steps of the two follow one
another: those of the spawn, and those of the wrapper around an entry that returns or panics.
-/

set_option autoImplicit false

namespace InterpreterLock

structure Station where
  bootstrap : Bootstrap
  idents : IdentSource := {}
  metrics : Metrics := {}
deriving DecidableEq

namespace Station

def runSpawn (host : Host) (name : Option String) :
    Nat → Station → Spawn → Station × Option (Except Panic (Except ThreadError Ident))
  | 0, s, _ => (s, none)
  | bound + 1, s, c =>
    let m := c.step host name ⟨s.bootstrap, s.idents⟩
    let s : Station := ⟨m.state.bootstrap, m.state.idents, s.metrics.recordOpt m.note⟩
    match m.progress with
    | .going c => runSpawn host name bound s c
    | .done r => (s, some (.ok r))
    | .unwound p => (s, some (.error p))

def runWrapper (me : Ident) (ending : Option Panic) : Nat → Station → Wrapper → Station
  | 0, s, _ => s
  | bound + 1, s, c =>
    let m := c.step me s.bootstrap
    let s : Station := { s with bootstrap := m.state, metrics := s.metrics.recordOpt m.note }
    match m.progress with
    | .going .entry => runWrapper me ending bound s (.deregister ending)
    | .going c => runWrapper me ending bound s c
    | _ => s

def spawnAndJoin (host : Host) (name : Option String) (ending : Option Panic) (s : Station) :
    Station × Except Panic (Except ThreadError Ident) :=
  match runSpawn host name 8 s .reserve with
  | (s, some (.ok (.ok i))) => (runWrapper i ending 8 s .install, .ok (.ok i))
  | (s, some r) => (s, r)
  | (s, none) => (s, .ok (.error (.refused SystemError.tryAgain.message)))

end Station

end InterpreterLock
