/-!
# The configuration that comes with the server

The configuration file that is read unless others are named. It is complete for every environment,
and a site that needs other values brings a file of its own.
-/

namespace LayeredConfig

namespace Shipped

/-- The lines of the file. -/
def lines : List String := [
  "common:",
  "  app_mode: katello",
  "  use_cp:",
  "  use_pulp:",
  "  use_foreman:",
  "  use_elasticsearch:",
  "  app_name:",
  "  warden: database",
  "  ldap_roles: false",
  "  rest_client_timeout: 30",
  "  url_prefix: \"/katello\"",
  "  host: 127.0.0.1",
  "  port: 3000",
  "  use_ssl: false",
  "  elastic_index: katello",
  "  elastic_url: http://localhost:9200",
  "  post_sync_url: \"http://localhost:3000/katello/api/repositories/sync_complete\"",
  "  thumbslug_url: https://localhost:8088",
  "  password_reset_expiration: 120",
  "  email_reply_address:",
  "  available_locales: [",
  "    \"bn\", \"de\", \"en\", \"es\", \"fr\", \"gu\", \"hi\",",
  "    \"it\", \"ja\", \"kn\", \"ko\", \"mr\", \"or\", \"pa\",",
  "    \"pt-BR\", \"ru\", \"ta\", \"te\", \"zh-CN\", \"zh-TW\"]",
  "  simple_search_tokens: [\":\", \" and\\\\b\", \" or\\\\b\", \" not\\\\b\"]",
  "  tire_log: false",
  "  redhat_repository_url: https://cdn.redhat.com",
  "  logical_insight: false",
  "  log_level: debug",
  "  log_level_sql: debug",
  "  allow_roles_logging: false",
  "  debug_rest: false",
  "  debug_pulp_proxy: false",
  "  debug_cp_proxy: false",
  "  embed_yard_documentation: false",
  "  notification:",
  "    polling_seconds: 120",
  "  search:",
  "    max_history: 5",
  "    max_favorites: 5",
  "  candlepin:",
  "    url: https://localhost:8443/candlepin",
  "    oauth_key: katello",
  "    oauth_secret: shhhh",
  "    ca_cert_file:",
  "  pulp:",
  "    url: https://localhost/pulp/api/v2/",
  "    oauth_key: katello",
  "    oauth_secret: shhhh",
  "    sync_threads: 4",
  "    ca_cert_file:",
  "    sync_KBlimit:",
  "  foreman:",
  "    url: http://localhost:3001",
  "    oauth_key: katello",
  "    oauth_secret: shhhh",
  "    random_password: true",
  "  cloud_forms:",
  "    oauth_key: cloud_forms",
  "    oauth_secret: shhhh",
  "  cdn_proxy:",
  "  database:",
  "    adapter: postgresql",
  "    host: localhost",
  "    encoding: UTF8",
  "    username: katello",
  "    password: katello",
  "production:",
  "  log_level: warn",
  "  log_level_sql: fatal",
  "  database:",
  "    database: katello",
  "development:",
  "  embed_yard_documentation: true",
  "  foreman:",
  "    random_password: false",
  "  database:",
  "    database: katello",
  "    min_messages: WARNING",
  "test:",
  "  database:",
  "    database: katello-test\x7b\x7b env.TEST_ENV_NUMBER \x7d\x7d",
  "    min_messages: WARNING",
  "build:"]

/-- The text of the file. -/
def text : String := String.join (lines.map (· ++ "\n"))

/-- Where the file stands below the directory of the server. -/
def path : String := "config/katello.yml"

end Shipped

end LayeredConfig
