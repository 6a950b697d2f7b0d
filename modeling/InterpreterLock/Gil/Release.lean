import InterpreterLock.Gil

/-!
# Releasing the interpreter lock

The holder clears the record of itself, then the word, and wakes one waiter if there is any. A
thread that is not the holder is refused before it changes anything.
-/

set_option autoImplicit false

namespace InterpreterLock.Gil

inductive Release
  | checkHolder
  | clearHolder
  | clearWord
  | lookForWaiters
  | signal
deriving DecidableEq

namespace Release

def step (t : Turn) (g : Gil) : Release → Move Gil Release Unit
  | .checkHolder =>
    if g.isHeldBy t.me then ⟨g, .going .clearHolder, none⟩
    else ⟨g, .unwound (.violation (.releasedUnheld t.me g.holder)), none⟩
  | .clearHolder => ⟨{ g with holder := none }, .going .clearWord, none⟩
  | .clearWord =>
    let freed := { g with word := Mode.freeWord }
    if g.isLocked then ⟨freed, .going .lookForWaiters, none⟩
    else ⟨freed, .unwound (.violation (.releasedFree g.word g.mode)), none⟩
  | .lookForWaiters =>
    if g.waiters = 0 then ⟨g, .done (), none⟩ else ⟨g, .going .signal, none⟩
  | .signal => ⟨{ g with wakeup := g.wakeup.signalOne t.pick }, .done (), none⟩

end Release

end InterpreterLock.Gil
