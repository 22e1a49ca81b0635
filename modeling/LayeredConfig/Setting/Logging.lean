import LayeredConfig.Collaborator

/-!
# Layout of the log

How log lines leave the process: one line of JSON each, through one handler, with a level for the
process, and a level of its own for the configuration.
-/

namespace LayeredConfig

/-- A part of a layout: a plain value, a component named by the path of its class or made from it,
or named parts. -/
inductive Layout where
  | plain (v : Value)
  | component (path : String)
  | made (path : String)
  | parts (entries : List (String × Layout))
deriving Inhabited

/-- The name of the logger of the configuration. -/
def configurationLogger : String := "apps.configuration"

/-- The handlers of a logger. -/
private def consoleOnly : String × Layout := ("handlers", .plain (.list [.text "console"]))

/-- The layout of a logger that passes nothing on. -/
private def loggerLayout (level : Value) : Layout :=
  .parts [consoleOnly, ("propagate", .plain (.bool false)), ("level", .plain level)]

/-- The layout for a level and, if it counts as set, a level for the configuration. -/
def loggingLayout (f : Forest) (level configurationLevel : Value) : Except Failure Layout := do
  let general ← level.upper
  let particular ← (if f.truthy configurationLevel then configurationLevel else level).upper
  return .parts [
    ("version", .plain (.int 1)),
    ("disable_existing_loggers", .plain (.bool false)),
    ("formatters", .parts [("json", .parts [
      ("()", .component "structlog.stdlib.ProcessorFormatter"),
      ("processor", .made "structlog.processors.JSONRenderer")])]),
    ("handlers", .parts [("console", .parts [
      ("class", .plain (.text "logging.StreamHandler")), ("formatter", .plain (.text "json"))])]),
    ("root", .parts [consoleOnly, ("level", .plain general)]),
    ("loggers", .parts [
      ("django", loggerLayout general), (configurationLogger, loggerLayout particular)])]

end LayeredConfig
