import InterpreterLock.Bootstrap
import InterpreterLock.Host
import InterpreterLock.Progress

/-!
# Spawning a thread

The spawner reserves a slot, takes an ident for the new thread, and asks the operating system for
it. A spawn that does not come about gives its slot back; the ident is used up.

The thread itself runs a wrapper around its entry: it takes over its ident, registers with the
collector, and once the entry has returned or unwound it deregisters and gives its slot back.
-/

set_option autoImplicit false

namespace InterpreterLock

structure Nursery where
  bootstrap : Bootstrap
  idents : IdentSource
deriving DecidableEq

inductive Spawn
  | reserve
  | takeIdent
  | launch (i : Ident)
  | abandon (cause : Except Panic ThreadError)
  | recordFailure (e : ThreadError)
  | recordSpawned (i : Ident)

namespace Spawn

def nameFault? (name : Option String) : Option Panic :=
  name.bind fun s =>
    let bytes := s.toUTF8.toList
    (bytes.findIdx? (· == 0)).map fun position => .nullInName position bytes

def launches? (host : Host) (name : Option String) (n : Nursery) : Spawn → Option Ident
  | .launch i =>
    if (nameFault? name).isNone && (host.refusal? n.bootstrap.stackSize).isNone then some i
    else none
  | _ => none

def step (host : Host) (name : Option String) (n : Nursery) :
    Spawn → Move Nursery Spawn (Except ThreadError Ident)
  | .reserve =>
    let reserved := { n with bootstrap.live := n.bootstrap.live + 1 }
    match n.bootstrap.limit with
    | none => ⟨reserved, .going .takeIdent, none⟩
    | some limit =>
      if n.bootstrap.live < limit then ⟨reserved, .going .takeIdent, none⟩
      else ⟨n, .going (.recordFailure (.limitReached limit)), none⟩
  | .takeIdent => ⟨{ n with idents := n.idents.take.2 }, .going (.launch n.idents.take.1), none⟩
  | .launch i =>
    match nameFault? name with
    | some p => ⟨n, .going (.abandon (.error p)), none⟩
    | none =>
      match host.refusal? n.bootstrap.stackSize with
      | some e => ⟨n, .going (.abandon (.ok (.refused e.message))), none⟩
      | none => ⟨n, .going (.recordSpawned i), none⟩
  | .abandon cause =>
    let left := { n with bootstrap := n.bootstrap.giveBack }
    match cause with
    | .error p => ⟨left, .unwound p, none⟩
    | .ok e => ⟨left, .going (.recordFailure e), none⟩
  | .recordFailure e => ⟨n, .done (.error e), some .spawnFailure⟩
  | .recordSpawned i => ⟨n, .done (.ok i), some .threadSpawned⟩

end Spawn

inductive Wrapper
  | install
  | register
  | entry
  | deregister (ending : Option Panic)
  | giveBack (ending : Option Panic)
  | recordExit (ending : Option Panic)
deriving DecidableEq

namespace Wrapper

def step (me : Ident) (b : Bootstrap) : Wrapper → Move Bootstrap Wrapper (Option Panic)
  | .install => ⟨b, .going .register, none⟩
  | .register => ⟨b.hear me (.register me), .going .entry, none⟩
  | .entry => ⟨b, .going .entry, none⟩
  | .deregister ending => ⟨b.hear me (.deregister me), .going (.giveBack ending), none⟩
  | .giveBack ending => ⟨b.giveBack, .going (.recordExit ending), none⟩
  | .recordExit ending => ⟨b, .done ending, some .threadExited⟩

def remembered (me : Ident) (own : Option Ident) : Wrapper → Option Ident
  | .install => (Ident.install own me).2
  | _ => own

end Wrapper

end InterpreterLock
