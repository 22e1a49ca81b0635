import LayeredConfig.Loader.Views
import LayeredConfig.Rule.Katello
import LayeredConfig.Secret.Password

/-!
# Deployments

A server is deployed with settings of its own: the environment that it runs in, the configuration
files that it may read, the key of encrypted passwords, and whether the configuration is loaded
while the server starts. The server owns one loader, and everything in it that needs the
configuration asks that loader.
-/

namespace LayeredConfig

/-- The settings that a server is deployed with. -/
structure Deployment where
  /-- The name of the environment. -/
  environment : Value
  /-- The files that may be read; the first that exists is. -/
  configPaths : List String
  /-- The key of encrypted passwords, in base64. -/
  passphraseKey : Value
  /-- Whether the configuration is loaded while the server starts. -/
  loadOnStartup : Bool
  /-- Whether the server is far enough to know its environment. -/
  ready : Bool
deriving Inhabited

namespace Deployment

/-- The environment that the server runs in. -/
def currentEnvironment (d : Deployment) : Action Value :=
  if d.ready then pure d.environment
  else throw (.configuration (.general
    [.scalar (.text "Django is not initialized yet, try to use early_config() instead")]))

/-- A loader for the given files and key, with the rules of a Katello configuration and the
collaborators of the server. -/
def buildLoader (d : Deployment) (paths : List String) (key : Value) : Action Loader := do
  let cipher ← ofOutcome (PasswordCipher.ofValue (← get).memory.forest key)
  Loader.create paths Katello.rules (some d.currentEnvironment)
    (fun v ↦ ofOutcome (cipher.decrypt v)) VersionResolver.default.resolve
    standardDatabaseEnvironments []

/-- Starts the server, which from then on owns a new loader, even if the configuration is to be
loaded right away and fails to. -/
def startUp (d : Deployment) : Action (Loader × Option Failure) := do
  let l ← d.buildLoader d.configPaths d.passphraseKey
  if !d.loadOnStartup then return (l, none)
  tryCatch (do
      discard l.config
      return (l, none))
    fun failure ↦ return (l, some failure)

end Deployment

end LayeredConfig
