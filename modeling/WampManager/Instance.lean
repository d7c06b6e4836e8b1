/-
# Instances

An instance is a package that was installed. Its name is computed from its key
and from the title, version and architecture of its package; directory and
service name follow from the name. The name is stored in the row once, by the
install, and computed again by every command.
-/

import WampManager.Database

namespace WampManager

/-- What `setInstanceVars` sets. -/
structure InstanceVars where
  name : Text
  path : Text
  processName : Text
  serviceName : Text
  deriving DecidableEq

namespace Instance

/-- A column of the package; an instance without a package reads nothing. -/
def column (package : Option PackageInfo) (f : PackageInfo → SqlValue) : Text :=
  (package.map fun p => (f p).toText).getD []

/-- `sprintf("%d-%s_%s_%s", ..)`: the name of an instance of a package. -/
def nameOf (instanceId : ℤ) (package : Option PackageInfo) : Text :=
  decimal instanceId ++ '-' :: column package (·.title) ++
    '_' :: column package (·.row.version) ++ '_' :: column package (·.row.arch)

/-- `Instance::setInstanceVars`. -/
def setInstanceVars (binPath : Text) (instanceId : ℤ) (package : Option PackageInfo) :
    InstanceVars :=
  let name := nameOf instanceId package
  let path := binPath ++ '\\' :: name
  { name := name
    path := path
    processName := path ++ '\\' :: column package (·.row.process)
    serviceName := "wamp.net.".toList ++ name ++ ".service".toList }

/-- The class files that define `start` and `stop`, so that `restart` runs. -/
def startable : List Text :=
  ["acrylic.php", "apache.php", "mariadb.php", "memcached.php", "mongodb.php", "mysql.php",
    "mysql8.php", "nginx.php", "php.php", "php7.2.php", "php7.3.php", "php7.4.php",
    "php8.0.php", "php8.1.2.php", "php8.1.php", "postgresql.php", "redis.php",
    "wildthing.php"].map String.toList

/-- Does `Package::control($id, 'restart')` return? It needs the package of the
instance, with a class file that can be required and restarted. -/
def canRestart (db : Database) (instanceId : ℤ) : Bool :=
  match Package.getByInstanceId db instanceId with
  | some package => Text.lower package.row.classFile.toText ∈ startable
  | none => false

/-- The rows an instance leaves with: its endpoints and its own. -/
def removeRows (instanceId : ℤ) (db : Database) : Database :=
  { db with
    endpoints := db.endpoints.delete fun _ row => row.instanceId == instanceId
    instances := db.instances.delete fun id _ => id == instanceId }

end Instance

end WampManager
