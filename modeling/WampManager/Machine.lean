/-
# The machine the manager runs on

Requests for packages and instances write more than the site tables: the session
of the browser, the junctions in the `bin` directory, the directories of the
instances, and they stop processes and services. The code for a package is one
of the class files; a package names its class file by a file name, which the
system reads without regard to capitals.
-/

import WampManager.Lib.Course
import WampManager.Site
import WampManager.UnzipMe

namespace WampManager

/-- A posted form: its fields in order. -/
abbrev PostedForm := List (Text × Text)

/-- The value of a posted field; a field that is not there is null. -/
def PostedForm.value (form : PostedForm) (field : Text) : SqlValue :=
  match form.find? (·.1 == field) with
  | some posted => .text posted.2
  | none => .null

/-- The slots of the session. -/
structure Session where
  pdata : Option PostedForm
  wizard : Option Text
  installerAbort : Bool
  deriving DecidableEq

/-- What is done to processes and services. -/
inductive Command
  | kill (processName : Text)
  | serviceStop (serviceName : Text)
  | shutdown (path : Text)
  | serviceRemove (serviceName : Text)
  deriving DecidableEq

/-- A text that a command line without quotes passes on as one argument. -/
def isArgument (t : Text) : Bool := t != [] && t.all fun c => c ∉ " \t,;=&|<>^%\"".toList

/-- All that the modelled requests read and write. -/
structure Machine extends World where
  session : Session
  junctions : Text → Option Text
  /-- What packages were unpacked to, without what class files write there later. -/
  files : FileTree Text
  /-- The archive that was last unpacked into a directory. -/
  unpacked : Text → Option (UnzipMe.Archive Text)
  /-- What was done to processes and services, in order. -/
  commands : List Command

namespace Machine

variable (m : Machine)

/-- Run a command. -/
def run (command : Command) : Machine := { m with commands := m.commands ++ [command] }

/-- `Util::removeJunction`. -/
def removeJunction (junction : Text) : Machine :=
  if isArgument junction then
    { m with junctions := fun path => if path = junction then none else m.junctions path }
  else m

/-- `Util::createJunction`: a path that is taken already is left alone. -/
def createJunction (junction realPath : Text) : Machine :=
  if isArgument junction ∧ isArgument realPath ∧ m.junctions junction = none then
    { m with junctions := fun path =>
        if path = junction then some realPath else m.junctions path }
  else m

end Machine

/-- The class files under `classes/instances`. -/
inductive ClassFile
  | acrylic | adminer | apache | drupal | joomla | laravel | mariadb | memcached | mongodb
  | mysql | mysql8 | nginx | php | php72 | php73 | php74 | php80 | php81 | php812
  | phpmyadmin | postgresql | redis | wildthing | wordpress
  deriving DecidableEq

namespace ClassFile

/-- The name of a class file. -/
def fileName : ClassFile → Text
  | .acrylic => "acrylic.php".toList
  | .adminer => "adminer.php".toList
  | .apache => "apache.php".toList
  | .drupal => "drupal.php".toList
  | .joomla => "joomla.php".toList
  | .laravel => "laravel.php".toList
  | .mariadb => "mariadb.php".toList
  | .memcached => "memcached.php".toList
  | .mongodb => "mongodb.php".toList
  | .mysql => "mysql.php".toList
  | .mysql8 => "mysql8.php".toList
  | .nginx => "nginx.php".toList
  | .php => "php.php".toList
  | .php72 => "php7.2.php".toList
  | .php73 => "php7.3.php".toList
  | .php74 => "php7.4.php".toList
  | .php80 => "php8.0.php".toList
  | .php81 => "php8.1.php".toList
  | .php812 => "php8.1.2.php".toList
  | .phpmyadmin => "phpmyadmin.php".toList
  | .postgresql => "postgresql.php".toList
  | .redis => "redis.php".toList
  | .wildthing => "wildthing.php".toList
  | .wordpress => "wordpress.php".toList

/-- All class files. -/
def all : List ClassFile :=
  [.acrylic, .adminer, .apache, .drupal, .joomla, .laravel, .mariadb, .memcached, .mongodb,
    .mysql, .mysql8, .nginx, .php, .php72, .php73, .php74, .php80, .php81, .php812,
    .phpmyadmin, .postgresql, .redis, .wildthing, .wordpress]

/-- `require`: the class file with a name, if there is one. -/
def require (name : Text) : Option ClassFile :=
  all.find? fun classFile => classFile.fileName == Text.lower name

/-- The class files of web servers. -/
def isHttpd : ClassFile → Bool
  | .apache | .nginx => true
  | _ => false

/-- The class files of PHP versions. -/
def isPhp : ClassFile → Bool
  | .php | .php72 | .php73 | .php74 | .php80 | .php81 | .php812 => true
  | _ => false

/-- The class files of applications, which go into a site and are no instances. -/
def isApp : ClassFile → Bool
  | .adminer | .drupal | .joomla | .laravel | .phpmyadmin | .wordpress => true
  | _ => false

end ClassFile

/-- The class file of a package. -/
def PackageInfo.classFile (package : PackageInfo) : Option ClassFile :=
  ClassFile.require package.row.classFile.toText

end WampManager
