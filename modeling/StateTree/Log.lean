/-!
Lines of a log: a level, a fixed message and named fields in the order in which they were given.
-/

namespace StateTree

inductive Level
  | error
  | warn
  | info
  | debug
  | trace
  deriving DecidableEq

def Level.text : Level → String
  | error => "ERROR"
  | warn => "WARN"
  | info => "INFO"
  | debug => "DEBUG"
  | trace => "TRACE"

structure Line where
  level : Level
  message : String
  fields : List (String × String)
  deriving DecidableEq

end StateTree
