import CrateAudit.Record.Error

namespace CrateAudit.Log

inductive Level where
  | debug
  | info
  | warning
  | error
deriving DecidableEq

def Level.rank : Level → Nat
  | debug => 10
  | info => 20
  | warning => 30
  | error => 40

def Level.text : Level → String
  | debug => "DEBUG"
  | info => "INFO"
  | warning => "WARNING"
  | error => "ERROR"

/-- What a message ends with when something outside the audit has failed. -/
inductive Cause where
  | system
  | record (e : RecordError)

inductive Speaker where
  | program
  | loading
  | sources
  | origins
  | scopes
  | visits
  | records
  | host
deriving DecidableEq

def Speaker.text : Speaker → String
  | program => "unsafe_ast"
  | loading => "unsafe_ast.loader"
  | sources => "unsafe_ast.codemap"
  | origins => "unsafe_ast.provenance"
  | scopes => "unsafe_ast.scope"
  | visits => "unsafe_ast.visitor"
  | records => "unsafe_ast.serializer"
  | host => "unsafe_ast.driver"

structure Entry where
  level : Level
  speaker : Speaker
  message : String
  cause : Option Cause := none

def atLeast (rank : Nat) (log : List Entry) : List Entry :=
  log.filter fun e => rank ≤ e.level.rank

end CrateAudit.Log
