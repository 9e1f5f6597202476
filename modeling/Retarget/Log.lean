/-
# Log -- diagnostics of the analyses

Analyses return what they have to say as a list of entries. Errors are always shown; the other
levels only when the reader asked for a verbose run.
-/
import Retarget.Text.Basic

namespace Retarget

inductive LogLevel where
  | debug | info | warn | error
deriving DecidableEq, Repr, Inhabited

def LogLevel.name : LogLevel → String
  | debug => "DEBUG"
  | info => "INFO"
  | warn => "WARN"
  | error => "ERROR"

structure LogEntry where
  level : LogLevel
  text : String
deriving Repr, DecidableEq, Inhabited

namespace LogEntry

def debug (text : String) : LogEntry := ⟨.debug, text⟩
def info (text : String) : LogEntry := ⟨.info, text⟩
def warn (text : String) : LogEntry := ⟨.warn, text⟩

def isShown (verbose : Bool) (e : LogEntry) : Bool := verbose || e.level == .error

/-- The line an entry is written as. A line end that the text brings is not written twice. -/
def line (e : LogEntry) : String :=
  "aodsolve: [" ++ e.level.name ++ "] " ++ Text.dropEnd e.text "\n"

end LogEntry

/-- A value together with the entries written while it was computed. -/
structure Logged (α : Type) where
  value : α
  log : List LogEntry := []
deriving Inhabited

namespace Logged

def map {α β : Type} (f : α → β) (x : Logged α) : Logged β := ⟨f x.value, x.log⟩

def bind {α β : Type} (x : Logged α) (f : α → Logged β) : Logged β :=
  let y := f x.value
  ⟨y.value, x.log ++ y.log⟩

instance : Monad Logged where
  pure a := ⟨a, []⟩
  bind := bind

def tell (e : LogEntry) : Logged PUnit := ⟨⟨⟩, [e]⟩

end Logged

end Retarget
