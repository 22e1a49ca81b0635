import LayeredConfig.Server.Connection
import LayeredConfig.Server.Deployment
import LayeredConfig.Setting.Logging
import LayeredConfig.Setting.Shipped
import LayeredConfig.Setting.Variable

/-!
# Profiles

The settings of a server by profile: what all servers share, and a server for development, for
production or for tests. Settings come from the process environment. In development and production
the connection to the database comes from the configuration, from the section of the profile's
environment.

The order in which settings are read is part of the rule, because the first one that cannot be
read is the one that is reported.
-/

namespace LayeredConfig

/-- What a server is set up for. -/
inductive Profile where
  /-- What all servers share. -/
  | shared
  | development
  | production
  | test
deriving DecidableEq, Repr, Inhabited

/-- The settings of a server. A setting that a profile leaves open is absent. -/
structure Settings where
  debug : Option Bool
  secretKey : String
  allowedHosts : List String
  environment : String
  configPaths : List String
  passphraseKey : String
  loadOnStartup : Bool
  /-- The connections to databases by name. -/
  databases : Option Value
  logLevel : String
  /-- The level of the log of the configuration. -/
  configurationLogLevel : String
  logging : Layout
  /-- The components that write responses. -/
  renderers : List String
  /-- Whether plain requests are redirected to secure ones. -/
  secureRedirect : Option Bool
  /-- For how many seconds browsers remember to use secure requests only. -/
  transportSecuritySeconds : Option Nat
deriving Inhabited

namespace Settings

/-- The component that writes responses for programs. -/
def jsonRenderer : String := "rest_framework.renderers.JSONRenderer"

/-- The component that writes responses for people. -/
def browsableRenderer : String := "rest_framework.renderers.BrowsableAPIRenderer"

/-- The files that are read unless others are named: the one below the directory of the server,
then the one that an installation puts in place. -/
def standardPaths (directory : String) : String :=
  directory ++ "/" ++ Shipped.path ++ ",/etc/katello/katello.yml"

/-- The layout of the log for two levels. -/
private def layoutFor (level configurationLevel : String) : Action Layout := do
  ofOutcome (loggingLayout (← get).memory.forest (.text level) (.text configurationLevel))

/-- The settings that all servers share, for a server in the given directory. -/
def readShared (directory : String) : Action Settings := do
  let secretKey ← readVariable "SECRET_KEY" none
  let allowedHosts ← readList "ALLOWED_HOSTS" (some "localhost,127.0.0.1")
  let configPaths ← readList "KATELLO_CONFIG_PATHS" (some (standardPaths directory))
  let passphraseKey ← readVariable "KATELLO_PASSPHRASE_KEY" (some "")
  let loadOnStartup ← readTruth "KATELLO_LOAD_ON_STARTUP" true
  let logLevel ← readVariable "LOG_LEVEL" (some "INFO")
  let configurationLogLevel ← readVariable "KATELLO_LOG_LEVEL" (some logLevel)
  let logging ← layoutFor logLevel configurationLogLevel
  return {
    debug := none, secretKey, allowedHosts, environment := "production", configPaths,
    passphraseKey, loadOnStartup, databases := none, logLevel, configurationLogLevel, logging,
    renderers := [jsonRenderer], secureRedirect := none, transportSecuritySeconds := none }

/-- The deployment that the settings describe. -/
def deployment (s : Settings) : Deployment :=
  { environment := .text s.environment
    configPaths := s.configPaths
    passphraseKey := .text s.passphraseKey
    loadOnStartup := s.loadOnStartup
    ready := true }

/-- The table of connections with one connection, the one that is used unless another is named. -/
def connectionTable (connection : Value) : Value := .mapping [(.text "default", connection)]

/-- The connections of an environment, from the configuration that the settings name. -/
def readDatabases (s : Settings) (environment : String) : Action Value := do
  let l ← s.deployment.buildLoader s.configPaths (.text s.passphraseKey)
  match (← l.databases).find? environment with
  | none => throw (.missingItem (.scalar (.text environment)))
  | some settings => connectionTable <$> onMemory (connection (settingsValue settings))

/-- The settings for development. -/
def readDevelopment (directory : String) : Action Settings := do
  let s ← readShared directory
  let debug ← readTruth "DEBUG" true
  let databases ← s.readDatabases "development"
  let logging ← layoutFor s.logLevel (← readVariable "KATELLO_LOG_LEVEL" (some "DEBUG"))
  return { s with
    debug := some debug
    environment := "development"
    databases := some databases
    allowedHosts := if debug then ["*"] else s.allowedHosts
    secureRedirect := some false
    logging
    renderers := [jsonRenderer, browsableRenderer] }

/-- The settings for production, where the hosts have to be named. -/
def readProduction (directory : String) : Action Settings := do
  let s ← readShared directory
  let allowedHosts ← readList "ALLOWED_HOSTS" none
  let databases ← s.readDatabases "production"
  let secureRedirect ← readTruth "SECURE_SSL_REDIRECT" true
  return { s with
    debug := some false
    allowedHosts
    environment := "production"
    databases := some databases
    secureRedirect := some secureRedirect
    transportSecuritySeconds := some 31536000 }

/-- Gives a variable a value unless it has one. -/
def presetVariable (name value : String) : Action Unit :=
  modify fun w ↦
    if (w.environment.find? name).isSome then w
    else { w with environment := w.environment.put name value }

/-- The settings for tests, which use a database in memory. -/
def readTest (directory : String) : Action Settings := do
  presetVariable "SECRET_KEY" "test-secret-key-not-for-production"
  let s ← readShared directory
  return { s with
    debug := some false
    environment := "test"
    loadOnStartup := false
    databases := some (connectionTable (.mapping [
      (.text "ENGINE", .text "django.db.backends.sqlite3"), (.text "NAME", .text ":memory:")])) }

end Settings

/-- The settings of a server with this profile in the given directory. -/
def Profile.settings (directory : String) : Profile → Action Settings
  | .shared => Settings.readShared directory
  | .development => Settings.readDevelopment directory
  | .production => Settings.readProduction directory
  | .test => Settings.readTest directory

end LayeredConfig
