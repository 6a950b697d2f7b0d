/-!
# Environments
-/

set_option autoImplicit false

namespace InterpreterLock

abbrev Environment := String → Option String

def Environment.isOn (env : Environment) (name : String) : Bool :=
  (env name).any fun s => !s.isEmpty

end InterpreterLock
