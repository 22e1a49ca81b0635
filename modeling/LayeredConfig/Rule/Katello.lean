import LayeredConfig.Rule.Basic

/-!
# The rules of a Katello configuration

What every loaded configuration of a Katello server has to satisfy. The derived values, such as
`is_katello`, are filled in before these rules are checked.
-/

namespace LayeredConfig

namespace Katello

/-- The environment that packages are built in; it never connects to a database. -/
def buildEnvironment : String := "build"

/-- The modes that the server runs in. -/
def appModes : List String := ["katello", "headpin"]

/-- The paths that the server answers under. -/
def urlPrefixes : List String := ["/headpin", "/sam", "/cfse", "/katello"]

/-- The levels of the log. -/
def logLevels : List String := ["debug", "info", "warn", "error", "fatal"]

/-- The keys that have to be defined. -/
def requiredKeys : List String := [
  "app_name", "candlepin", "notification", "debug_pulp_proxy", "debug_rest",
  "available_locales", "use_cp", "simple_search_tokens", "database",
  "debug_cp_proxy", "is_headpin", "host", "ldap_roles", "cloud_forms",
  "use_pulp", "cdn_proxy", "use_ssl", "warden", "is_katello", "url_prefix",
  "foreman", "search", "use_foreman", "password_reset_expiration",
  "redhat_repository_url", "port", "elastic_url", "rest_client_timeout",
  "elastic_index", "allow_roles_logging", "katello_version", "pulp",
  "tire_log", "log_level", "log_level_sql", "email_reply_address",
  "embed_yard_documentation"]

/-- The keys that hold truth values. -/
def booleanKeys : List String := [
  "use_cp", "use_foreman", "use_pulp", "use_elasticsearch", "use_ssl",
  "ldap_roles", "debug_rest", "debug_cp_proxy", "debug_pulp_proxy",
  "logical_insight"]

/-- The keys that a database block has to define. -/
def databaseKeys : List String :=
  ["adapter", "host", "encoding", "username", "password", "database"]

private def texts (names : List String) : List Value := names.map .text

/-- The rules, in the order in which they are checked. -/
def rules : List Rule := [
  .hasKeys (texts requiredKeys),
  .hasValues (.text "app_mode") (texts appModes) (.bool false),
  .hasValues (.text "url_prefix") (texts urlPrefixes) (.bool false),
  .hasValues (.text "log_level") (texts logLevels) (.bool false),
  .hasValues (.text "log_level_sql") (texts logLevels) (.bool false),
  .when (.flag (.text "is_katello") (.bool false)) [.isNotEmpty (.text "thumbslug_url")],
  .areBooleans (texts booleanKeys),
  .when (.concreteEnvironment (.text buildEnvironment))
    [.nested (.text "database") [.hasKeys (texts databaseKeys)]]]

end Katello

end LayeredConfig
