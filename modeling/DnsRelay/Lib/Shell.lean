import DnsRelay.Lib.Effect
import DnsRelay.Lib.Text

/-!
# Code that runs commands

A `Session` is the state of a program together with the commands it has run and
how each of them ended.  The newest command comes first.

What a command gives is decided by a function of the log, so the world outside
may change between any two commands in any way.  `exec` asks that function and
writes the answer down.
-/

namespace DnsRelay.Lib

inductive Exit where
  | failed (error : Str)
  | exited (success : Bool) (stdout : Str)
deriving DecidableEq, Repr

/-- `status.success()`. -/
def Exit.success : Exit → Bool
  | .failed _ => false
  | .exited success _ => success

/-- The state of a program and what it has run. -/
structure Session (σ κ ω : Type) where
  state : σ
  /-- The commands with their answers, newest first. -/
  log : List (κ × ω)

namespace Session

variable {σ κ ω ε : Type}

def exec (answer : List (κ × ω) → κ → ω) (command : κ) : Effect (Session σ κ ω) ε ω := fun s =>
  let given := answer s.log command
  (.ok given, { s with log := (command, given) :: s.log })

def update (f : σ → σ) : Effect (Session σ κ ω) ε Unit :=
  Effect.modify fun s => { s with state := f s.state }

end Session

end DnsRelay.Lib
