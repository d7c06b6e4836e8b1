/-
# Connections to instances

The manager connects to database servers, shuts them down and writes their address
into the configuration of applications. An endpoint that listens on all interfaces
has an address that no client can connect to, so each of these uses puts the
loopback address in its place, on its own.
-/

import WampManager.Verify

namespace WampManager

open Loose (looseEq truthy)
open Util (anyInterface)

/-- The address that a client takes for a server that listens on all interfaces. -/
def loopback : Text := "127.0.0.1".toList

/-- The address under which a server can be connected to. -/
def connectable (interface : Text) : Text :=
  if interface = anyInterface then loopback else interface

namespace QDB

/-! ## Queries -/

/-- The options of a query; null stands for an option that is not given. -/
structure Options where
  driver : SqlValue
  host : SqlValue
  port : SqlValue
  dbname : SqlValue
  username : SqlValue
  password : SqlValue

/-- What a connection is opened with. -/
structure Connection where
  dsn : Text
  username : Text
  password : SqlValue
  deriving DecidableEq

/-- `??`. -/
def orElse (value : SqlValue) (default : Text) : Text :=
  match value with
  | .null => default
  | value => value.toText

/-- The connection that `__callStatic` opens for a query. -/
def connect (o : Options) : Connection :=
  let driver := orElse o.driver "mysql".toList
  let host := orElse o.host loopback
  let port := orElse o.port
    (if driver = "mysql".toList then "3306".toList else "5432".toList)
  let dbname := orElse o.dbname (if driver = "pgsql".toList then "postgres".toList else [])
  let username := orElse o.username
    (if driver = "mysql".toList then "root".toList else "postgres".toList)
  { dsn := driver ++ ":host=".toList ++ host ++ ";port=".toList ++ port ++ [';'] ++
      (if truthy dbname then "dbname=".toList ++ dbname ++ [';'] else [])
    username := username
    password := o.password }

/-- The types of database servers. -/
def isDatabaseType (type : Option Text) : Bool :=
  type == some "mysql".toList || type == some "mariadb".toList || type == some "pgsql".toList

/-- `info`: the endpoint of the database server that an instance is. -/
def info (db : Database) (instanceId : ℤ) : Option EndpointRow :=
  if (db.instances.find? instanceId).isSome then
    (db.endpoints.rows.find? fun row =>
      isDatabaseType row.2.type && row.2.instanceId == instanceId).map Prod.snd
  else none

/-- A column of what `info` returns; without an endpoint it is null. -/
def column (database : Option EndpointRow) (f : EndpointRow → SqlValue) : SqlValue :=
  (database.map f).getD .null

/-- The type of a database server. -/
def typeOf (database : Option EndpointRow) : SqlValue :=
  column database fun row => (row.type.map SqlValue.text).getD .null

/-- `($database['interface'] == '0.0.0.0') ? '127.0.0.1' : $database['interface']`. -/
def hostOf (database : Option EndpointRow) : SqlValue :=
  let interface := column database EndpointRow.interface
  if looseEq interface.toScalar (.text anyInterface) then .text loopback else interface

/-- The options with which the manager connects to a database server. -/
def optionsOf (database : Option EndpointRow) : Options where
  driver := typeOf database
  host := hostOf database
  port := column database EndpointRow.port
  dbname := .null
  username := .text "wamp".toList
  password := .null

/-- The query of `databaseExists`. -/
def showDatabases (database : Option EndpointRow) : Text :=
  if typeOf database = .text "pgsql".toList then
    "SELECT datname AS \"Database\" FROM pg_database".toList
  else "SHOW DATABASES".toList

/-- What `databaseExists` makes of the column of names that comes back over a connection,
if anything does. -/
def existsOver (answer : Connection → Text → Option (List Text)) (connection : Connection)
    (query dbName : Text) : Option Bool :=
  match answer connection query with
  | none | some [] => none
  | some names => some (names.any fun name => looseEq (.text dbName) (.text name))

/-- `databaseExists`. -/
def databaseExists (answer : Connection → Text → Option (List Text)) (db : Database)
    (instanceId : ℤ) (dbName : Text) : Option Bool :=
  let database := info db instanceId
  existsOver answer (connect (optionsOf database)) (showDatabases database) dbName

/-- `createDatabase`: the connection and the query. -/
def createDatabase (db : Database) (instanceId : ℤ) (dbName : Text) : Connection × Text :=
  (connect (optionsOf (info db instanceId)), "CREATE DATABASE ".toList ++ dbName ++ [';'])

end QDB

namespace Instance

/-- `getEndpoint`, with the interface that a client takes. -/
def getEndpoint (db : Database) (instanceId : ℤ) : Option (SqlValue × SqlValue) :=
  (Site.endpoint db (some instanceId)).map fun row =>
    (if Util.sqlEq row.interface (.text anyInterface) then .text loopback else row.interface,
      row.port)

/-- The command that shuts down a server of the MySQL kind. -/
def mysqladmin (path : Text) (interface port : SqlValue) : Text :=
  path ++ "\\bin\\mysqladmin.exe --host=".toList ++ interface.toText ++ " --port=".toList ++
    port.toText ++ " -u wamp shutdown".toList

/-- The command in the `stop` of MariaDB, MySQL and MySQL 8. -/
def shutdownCommand (db : Database) (instanceId : ℤ) (vars : InstanceVars) : Text :=
  let endpoint := (getEndpoint db instanceId).getD (.null, .null)
  mysqladmin vars.path endpoint.1 endpoint.2

/-- The address with which the `install` of PostgreSQL goes on: it is assigned in the
condition of an empty statement. -/
def postgresqlHost (interface : SqlValue) : SqlValue :=
  if looseEq interface.toScalar (.text anyInterface) then .text loopback else interface

/-- The connections over which the `install` of PostgreSQL sets up its roles. -/
def postgresqlConnection (interface tcpPort : SqlValue) : QDB.Connection :=
  QDB.connect
    { driver := .text "pgsql".toList
      host := postgresqlHost interface
      port := tcpPort
      dbname := .null
      username := .null
      password := .null }

/-! ## The configuration of applications -/

/-- The fields of the form of an application that its configuration is made from. -/
structure AppForm where
  dbType : Text
  databaseId : ℤ
  dbName : Text
  appName : Text
  appEnv : Text
  appDebug : Bool

/-- The replacements in the sample of WordPress. -/
def wordpressWith (host port dbName sample : Text) : Text :=
  Text.strReplace "localhost".toList (host ++ ':' :: port)
    (Text.strReplace "password_here".toList []
      (Text.strReplace "username_here".toList "wamp".toList
        (Text.strReplace "database_name_here".toList dbName sample)))

/-- The settings of Drupal. -/
def drupalWith (host port driver dbName : Text) : Text :=
  "<?php\n\n$databases['default']['default'] = [\n'database' => '".toList ++ dbName ++
    "',\n'username' => 'wamp',\n'password' => '',\n'host' => '".toList ++ host ++
    "',\n'port' => '".toList ++ port ++ "',\n'driver' => '".toList ++ driver ++
    "',\n'prefix' => '',\n'collation' => 'utf8mb4_general_ci'\n];\n\n".toList ++
    "$settings['trusted_host_patterns'] = ['.*'];".toList

/-- The replacements in the database form of Joomla. -/
def joomlaWith (host port dbName sample : Text) : Text :=
  Text.strReplace "name=\"db_name\"".toList
    ("name=\"db_name\"\n\t\t\t\treadonly=\"true\"\n\t\t\t\tdefault=\"".toList ++ dbName ++ ['"'])
    (Text.strReplace "name=\"db_pass\"".toList
      "name=\"db_pass\"\n\t\t\t\treadonly=\"true\"\n\t\t\t\tdefault=\"\"".toList
      (Text.strReplace "name=\"db_user\"".toList
        "name=\"db_user\"\n\t\t\t\treadonly=\"true\"\n\t\t\t\tdefault=\"wamp\"".toList
        (Text.strReplace "default=\"localhost\"".toList
          ("readonly=\"true\"\n\t\t\t\tdefault=\"".toList ++ host ++ ':' :: port ++ ['"'])
          sample)))

/-- The replacements of the database in the `.env` of Laravel. -/
def laravelWith (host port driver dbName sample : Text) : Text :=
  Text.strReplace "DB_USERNAME=".toList "DB_USERNAME=wamp".toList
    (Text.strReplace "DB_DATABASE=".toList ("DB_DATABASE=".toList ++ dbName)
      (Text.strReplace "DB_PORT=".toList ("DB_PORT=".toList ++ port)
        (Text.strReplace "DB_HOST=".toList ("DB_HOST=".toList ++ host)
          (Text.strReplace "DB_CONNECTION=".toList ("DB_CONNECTION=".toList ++ driver) sample))))

section Configs

variable (db : Database) (form : AppForm)

/-- The port of the database server of a form. -/
def databasePort : Text :=
  (QDB.column (QDB.info db form.databaseId) EndpointRow.port).toText

/-- The type of the database server of a form. -/
def databaseType : Text := (QDB.typeOf (QDB.info db form.databaseId)).toText

/-- WordPress: `wp-config.php` from the sample, with random phrases put in. -/
def wordpressConfig (phrases : Text → Text) (sample : Text) : Text :=
  phrases (if form.dbType = "none".toList then sample
    else wordpressWith (QDB.hostOf (QDB.info db form.databaseId)).toText (databasePort db form)
      form.dbName sample)

/-- Drupal: `settings.php`, written if there is a database. -/
def drupalSettings : Option Text :=
  if form.dbType = "none".toList then none
  else some (drupalWith (QDB.hostOf (QDB.info db form.databaseId)).toText (databasePort db form)
    (databaseType db form) form.dbName)

/-- Joomla: the database form of its own installation. -/
def joomlaForm (sample : Text) : Text :=
  if form.dbType = "none".toList then sample
  else joomlaWith (QDB.hostOf (QDB.info db form.databaseId)).toText (databasePort db form)
    form.dbName sample

/-- Laravel: `.env` with the lines that describe the database. -/
def laravelDatabase (sample : Text) : Text :=
  if form.dbType = "none".toList then sample
  else laravelWith (QDB.hostOf (QDB.info db form.databaseId)).toText (databasePort db form)
    (databaseType db form) form.dbName sample

end Configs

/-- The replacements of the application in the `.env` of Laravel. -/
def laravelApp (form : AppForm) (appKey appUrl config : Text) : Text :=
  let debug := if form.appDebug then "true".toList else "false".toList
  Text.strReplace "APP_URL=".toList ("APP_URL=".toList ++ appUrl)
    (Text.strReplace "APP_KEY=".toList ("APP_KEY=".toList ++ appKey)
      (Text.strReplace "APP_DEBUG=".toList ("APP_DEBUG=".toList ++ debug)
        (Text.strReplace "APP_ENV=".toList ("APP_ENV=".toList ++ form.appEnv)
          (Text.strReplace "APP_NAME=".toList ("APP_NAME=".toList ++ form.appName) config))))

/-- Laravel: `.env`. -/
def laravelEnv (db : Database) (form : AppForm) (appKey appUrl sample : Text) : Text :=
  laravelApp form appKey appUrl (laravelDatabase db form sample)

end Instance

end WampManager
