/-
# Verifying a posted form

The wizard of a package posts its form to `verify` first. The class file checks
the fields one by one and collects what is wrong with them; a port is wrong if
the endpoint table has it or a process listens there. A form without errors goes
into the session, and the session keeps the address that installs it. Both slots
are there once for all wizards.
-/

import WampManager.Install

namespace WampManager

open Loose (Scalar looseEq truthy isNumeric)

/-! ## Checks of one field -/

/-- What is wrong with a field. -/
structure FieldError where
  name : Text
  error : Text
  deriving DecidableEq

/-- A posted field as a value. -/
def PostedForm.scalar (form : PostedForm) (field : Text) : Scalar := (form.value field).toScalar

namespace Validator

variable (form : PostedForm) (field : Text)

/-- The checks record an error or none. -/
def record (wrong : Bool) (error : Text) : List FieldError :=
  if wrong then [⟨field, error⟩] else []

/-- `number`: a field that is posted is empty or a number. -/
def number : List FieldError :=
  record field
    (!looseEq (form.scalar field) (.text []) && !isNumeric (form.value field).toText)
    "Please enter a valid number".toList

/-- `required`. -/
def required : List FieldError :=
  record field (!truthy (form.value field).toText) "This is a required field".toList

/-- One number of an address, as the pattern has it. -/
def isOctet : Text → Bool
  | [a] => a.isDigit
  | [a, b] => '1' ≤ a && a ≤ '9' && b.isDigit
  | [a, b, c] =>
      a == '1' && b.isDigit && c.isDigit ||
      a == '2' && '0' ≤ b && b ≤ '4' && c.isDigit ||
      a == '2' && b == '5' && '0' ≤ c && c ≤ '5'
  | _ => false

/-- The pattern for addresses: the last four parts of the text are octets. It has
no anchor in front, and the end may have a line feed behind it. -/
def matchesAddress (t : Text) : Bool :=
  let t := if t.getLast? = some '\n' then t.dropLast else t
  let parts := t.splitOn '.'
  4 ≤ parts.length && (parts.drop (parts.length - 4)).all isOctet

/-- `ipAddress`. -/
def ipAddress : List FieldError :=
  record field (!matchesAddress (form.value field).toText)
    "Please enter a valid ip address".toList

end Validator

/-! ## Endpoints in use -/

namespace Util

/-- The address that stands for all interfaces. -/
def anyInterface : Text := "0.0.0.0".toList

/-- `=` of the database: NULL equals nothing. -/
def sqlEq (a b : SqlValue) : Bool := a != .null && a == b

/-- The rows behind the first blank line of what `--netstat` prints, up to the
next one. -/
def netstatLines (output : Option Text) : List Text :=
  match (((Text.trim (output.getD [])).splitOn '\n').dropWhile (· ≠ [])).tail with
  | [] => [[]]
  | first :: rest => first :: rest.takeWhile (· ≠ [])

/-- A column of such a row; a column that is not there is null. -/
def column (parts : List Text) (i : ℕ) : Scalar :=
  match parts[i]? with
  | some part => .text part
  | none => .null

section InUse

variable (sqlite : Sqlite) (db : Database) (output : Option Text) (proto : Text)
  (interface port : SqlValue)

/-- The condition of the query on a row. -/
def rowHas (row : EndpointRow) : Bool :=
  row.proto == proto &&
  (looseEq interface.toScalar (.text anyInterface) ||
    row.interface == .text anyInterface || sqlEq row.interface interface.asText) &&
  sqlEq row.port (sqlite.asInteger port)

/-- The endpoint table has the port. -/
def inTable : Bool :=
  db.endpoints.rows.any fun row => rowHas sqlite proto interface port row.2

/-- A process has the port. -/
def inProcess : Bool :=
  (netstatLines output).any fun line =>
    let parts := line.splitOn '\t'
    looseEq (column parts 0) (.text proto) &&
    (looseEq interface.toScalar (.text anyInterface) ||
      looseEq (column parts 1) (.text anyInterface) ||
      looseEq (column parts 1) interface.toScalar) &&
    looseEq (column parts 2) port.toScalar

/-- `Util::endpointInUse`. -/
def endpointInUse : Bool :=
  inTable sqlite db proto interface port || inProcess output proto interface port

end InUse

end Util

/-! ## The class files -/

/-- What a verification finds outside: what `--netstat` prints, which directories
are empty, and what is wrong with the site and the database that an application
is to use. -/
structure VerifyFound where
  netstat : Option Text
  emptyDirectory : Text → Bool
  application : List FieldError

namespace Instance

open Validator (number required ipAddress record)

section Fields

variable (sqlite : Sqlite) (found : VerifyFound) (db : Database) (form : PostedForm)

/-- The check of a port. -/
def portInUse (proto field : Text) : List FieldError :=
  record field
    (Util.endpointInUse sqlite db found.netstat proto (form.value "interface".toList)
      (form.value field))
    "Port already assigned or in use.".toList

/-- The check of a directory of one's own. -/
def datadirNotEmpty : List FieldError :=
  let datadir := (form.value "datadir".toList).toText
  record "datadir".toList (truthy datadir && !found.emptyDirectory datadir)
    "The directory supplied is not empty".toList

/-- A number that has to be there. -/
def requiredNumber (field : String) : List FieldError :=
  required form field.toList ++ number form field.toList

/-- The checks of a web server. -/
def verifyHttpd : List FieldError :=
  portInUse sqlite found db form "tcp".toList "http_port".toList ++
  portInUse sqlite found db form "tcp".toList "https_port".toList

/-- The checks of a PHP version. -/
def verifyPhp : List FieldError :=
  requiredNumber form "tcp_port" ++
  portInUse sqlite found db form "tcp".toList "tcp_port".toList ++
  requiredNumber form "memory_limit" ++
  requiredNumber form "max_input_vars" ++
  requiredNumber form "max_execution_time" ++
  requiredNumber form "max_input_time"

/-- The checks of a name server. -/
def verifyDns : List FieldError :=
  number form "udp_port".toList ++
  portInUse sqlite found db form "udp".toList "udp_port".toList ++
  ipAddress form "primary".toList

/-- The checks of a server with one port. -/
def verifyTcp : List FieldError :=
  number form "tcp_port".toList ++
  portInUse sqlite found db form "tcp".toList "tcp_port".toList

/-- The checks of the buffers of a MySQL server, and of its directory. -/
def verifyBuffers : List FieldError :=
  number form "key_buffer_size".toList ++
  number form "max_allowed_packet".toList ++
  datadirNotEmpty found form

/-- The checks of MySQL 8, which has a second port. -/
def verifyMysql8 : List FieldError :=
  number form "tcp_port".toList ++
  number form "tcp_port_x".toList ++
  portInUse sqlite found db form "tcp".toList "tcp_port".toList ++
  portInUse sqlite found db form "tcp".toList "tcp_port_x".toList ++
  record "tcp_port_x".toList
    (looseEq (form.scalar "tcp_port".toList) (form.scalar "tcp_port_x".toList))
    "Port can't be the same as main TCP PORT.".toList ++
  verifyBuffers found form

end Fields

end Instance

namespace ClassFile

open Instance

/-- `verify` in each class file: what it records before `validate`. -/
def verify (sqlite : Sqlite) (found : VerifyFound) (db : Database) (form : PostedForm) :
    ClassFile → List FieldError
  | .acrylic =>
      verifyDns sqlite found db form ++ Validator.ipAddress form "secondary".toList
  | .adminer => found.application
  | .apache => verifyHttpd sqlite found db form
  | .drupal => found.application
  | .joomla => found.application
  | .laravel => found.application
  | .mariadb => verifyTcp sqlite found db form ++ verifyBuffers found form
  | .memcached =>
      portInUse sqlite found db form "tcp".toList "tcp_port".toList ++
      portInUse sqlite found db form "udp".toList "udp_port".toList ++
      Validator.number form "max_memory".toList
  | .mongodb => verifyTcp sqlite found db form ++ datadirNotEmpty found form
  | .mysql => verifyTcp sqlite found db form ++ verifyBuffers found form
  | .mysql8 => verifyMysql8 sqlite found db form
  | .nginx => verifyHttpd sqlite found db form
  | .php => verifyPhp sqlite found db form
  | .php72 => verifyPhp sqlite found db form
  | .php73 => verifyPhp sqlite found db form
  | .php74 => verifyPhp sqlite found db form
  | .php80 => verifyPhp sqlite found db form
  | .php81 => verifyPhp sqlite found db form
  | .php812 => verifyPhp sqlite found db form
  | .phpmyadmin => found.application
  | .postgresql => verifyTcp sqlite found db form ++ datadirNotEmpty found form
  | .redis => verifyTcp sqlite found db form
  | .wildthing => verifyDns sqlite found db form
  | .wordpress => found.application

end ClassFile

namespace Instance

/-- The address that installs a package. -/
def installUrl (package : Text) : Text := "/package/".toList ++ package ++ "/install".toList

/-- `Instance::postVerify`, which ends the request. -/
def postVerify (form : PostedForm) (m : Machine) : Course Machine :=
  .stop { m with
    session := { m.session with
      pdata := some form
      wizard := some (installUrl (form.value "package_id".toList).toText) } }

/-- The form has no errors. -/
def Accepts (sqlite : Sqlite) (found : VerifyFound) (packageId : ℤ) (form : PostedForm)
    (db : Database) : Prop :=
  (classFileOf db packageId).map (ClassFile.verify sqlite found db form) = some []

instance (sqlite : Sqlite) (found : VerifyFound) (packageId : ℤ) (form : PostedForm)
    (db : Database) : Decidable (Accepts sqlite found packageId form db) :=
  inferInstanceAs (Decidable (_ = _))

/-- `PackageController::verify`. -/
def packageVerify (sqlite : Sqlite) (found : VerifyFound) (packageId : ℤ) (form : PostedForm)
    (m : Machine) : Course Machine :=
  match classFileOf m.db packageId with
  | none => .stop m
  | some classFile =>
      if classFile.verify sqlite found m.db form = [] then postVerify form m else .stop m

/-- A form is accepted and goes into the session, or nothing changes. -/
theorem packageVerify_eq (sqlite : Sqlite) (found : VerifyFound) (packageId : ℤ)
    (form : PostedForm) (m : Machine) :
    packageVerify sqlite found packageId form m =
      if Accepts sqlite found packageId form m.db then postVerify form m else .stop m := by
  unfold packageVerify
  cases hclass : classFileOf m.db packageId with
  | none =>
      have hrejects : ¬ Accepts sqlite found packageId form m.db := by simp [Accepts, hclass]
      rw [if_neg hrejects]
  | some classFile =>
      have haccepts : Accepts sqlite found packageId form m.db ↔
          classFile.verify sqlite found m.db form = [] := by simp [Accepts, hclass]
      by_cases herrors : classFile.verify sqlite found m.db form = []
      · rw [if_pos (haccepts.mpr herrors)]
        exact if_pos herrors
      · rw [if_neg (mt haccepts.mp herrors)]
        exact if_neg herrors

/-- A verification that finds nothing in the way: nothing listens, and every
directory is empty. -/
def sampleFound : VerifyFound := ⟨none, fun _ => true, []⟩

end Instance

end WampManager
