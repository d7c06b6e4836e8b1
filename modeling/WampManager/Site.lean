/-
# Sites

`Site::create`, `Site::update` and `Site::delete` keep three things in step by
hand: the site and alias tables, the hosts file and the configuration files of
the web servers. The operations below do what the methods do, statement by
statement and in their order. A failed restart ends the request there, with
what was written so far left in place. Keys and certificates come from the
certificate authority and are part of the request here. Where openssl rejects the
configuration that is written for a site, no key is made; the key column is NOT
NULL, so the row is then refused, and the methods go on without looking.
-/

import WampManager.Hosts
import WampManager.Instance
import WampManager.Lib.Drive

namespace WampManager

/-- What the sites code reads and writes. -/
structure World where
  db : Database
  hosts : Text
  disk : Drive

/-- What does not change: the root directory, and the expression engine for
hostnames that are more than literal text. -/
structure Env where
  wampPath : Text
  preg : Text → Text → Bool

namespace Env

/-- `BIN_PATH`. -/
def binPath (env : Env) : Text := env.wampPath ++ "\\bin".toList

/-- `SITE_PATH`. -/
def sitePath (env : Env) : Text := env.wampPath ++ "\\sites".toList

end Env

/-- How a request ends. -/
inductive Outcome
  | done (w : World)
  | aborted (w : World)

namespace Outcome

/-- Go on after a statement that returned. -/
def bind : Outcome → (World → Outcome) → Outcome
  | .done w, next => next w
  | .aborted w, _ => .aborted w

/-- The world a request leaves, however it ends. -/
def world : Outcome → World
  | .done w => w
  | .aborted w => w

theorem bind_eq_done {outcome : Outcome} {next : World → Outcome} {w : World} :
    outcome.bind next = .done w ↔ ∃ v, outcome = .done v ∧ next v = .done w := by
  cases outcome with
  | done v => simp [bind]
  | aborted v => simp [bind]

end Outcome

/-- The key and the certificate that `CA::generate` hands back; it makes none where
the key is NULL. A NULL certificate reads as the empty text. -/
structure Certificate where
  key : Text
  crt : Text

namespace World

variable (w : World)

/-- Read the hosts file, change the lines, save it. -/
def editHosts (f : List Text → List Text) : World :=
  { w with hosts := Hosts.save (f (Hosts.load w.hosts)) }

/-- `file_put_contents`. -/
def put (path content : Text) : World := { w with disk := w.disk.put path content }

/-- `mkdir`, after `is_dir`. -/
def mkdir (path : Text) : World := { w with disk := w.disk.mkdir path }

/-- `Util::del`. -/
def del (pattern : Text) : World := { w with disk := w.disk.del pattern }

/-- `Package::control($id, 'restart')`. -/
def restart (instanceId : ℤ) : Outcome :=
  if Instance.canRestart w.db instanceId then .done w else .aborted w

end World

namespace Site

/-- The columns of a row that is not there. -/
def missing : SiteRow := ⟨[], [], [], [], none, none⟩

/-- `Site::getById`. -/
def getById (db : Database) (siteId : ℤ) : SiteRow := (db.sites.find? siteId).getD missing

/-- The aliases of a site, oldest first. -/
def aliasesOf (db : Database) (siteId : ℤ) : List Text :=
  (db.aliases.rows.filter fun row => row.2.siteId == siteId).map fun row => row.2.aliasText

/-- `alias.name`. -/
def hostnameOf (name aliasText : Text) : Text := aliasText ++ '.' :: name

/-- The hostnames of a site: its name and `alias.name` for each alias. -/
def hostnames (db : Database) (siteId : ℤ) : List Text :=
  let name := (getById db siteId).name
  name :: (aliasesOf db siteId).map (hostnameOf name)

/-- `Site::_stringToCleanAliasArray`. -/
def stringToCleanAliasArray (str : Text) : List Text :=
  (((str.splitOn ',').map Text.trim).filter (· ≠ [])).eraseDups

/-- `Site::exists`. -/
def siteExists (db : Database) (name : Text) : Bool :=
  (db.sites.rows.filter fun row => row.2.name == name).length == 1

/-- The characters of a domain. -/
def isDomainChar (c : Char) : Bool := c.isDigit || c.isLower || c == '.' || c == '-'

/-- `^[0-9a-z.-]+$`; the anchor at the end lets one line feed follow. -/
def matchesDomain (name : Text) : Bool :=
  let body := if name.getLast? = some '\n' then name.dropLast else name
  !body.isEmpty && body.all isDomainChar

/-- The validation of `SiteController::doAdd`, for the folded name: required, a
domain, not in use. -/
def doAddAccepts (db : Database) (name : Text) : Bool :=
  !(name.isEmpty || name == ['0']) && matchesDomain name && !siteExists db name

/-- The stored name of an instance; no row and NULL read as the empty text. -/
def instanceName (db : Database) (instanceId : Option ℤ) : Text :=
  ((instanceId.bind db.instances.find?).bind InstanceRow.name).getD []

/-- The `conf\vhosts` directory of an instance. -/
def confPath (env : Env) (db : Database) (instanceId : Option ℤ) : Text :=
  env.binPath ++ '\\' :: instanceName db instanceId ++ "\\conf\\vhosts".toList

/-- The first endpoint of an instance. -/
def endpoint (db : Database) (instanceId : Option ℤ) : Option EndpointRow :=
  (db.endpoints.rows.find? fun row => some row.2.instanceId == instanceId).map Prod.snd

/-- The port of the endpoint of an instance with a given type. -/
def portOf (db : Database) (instanceId : Option ℤ) (type : Text) : Text :=
  ((db.endpoints.rows.find? fun row =>
    some row.2.instanceId == instanceId && row.2.type == some type).map
      fun row => row.2.port.toText).getD []

/-- The interface of an instance, as the first endpoint has it. -/
def interfaceOf (db : Database) (instanceId : Option ℤ) : Text :=
  ((endpoint db instanceId).map fun row => row.interface.toText).getD []

/-- The address for the hosts file. -/
def hostInterface (db : Database) (instanceId : Option ℤ) : Text :=
  let interface := interfaceOf db instanceId
  if interface = "0.0.0.0".toList then "127.0.0.1".toList else interface

/-- The title of the vendor of an instance's package. -/
def httpdType (db : Database) (instanceId : Option ℤ) : Text :=
  (((instanceId.bind db.instances.find?).bind fun row => Package.getById db row.packageId).map
    fun package => package.title.toText).getD []

/-! ## The virtual host texts -/

/-- One line, indented by tabs. -/
def line (tabs : ℕ) (t : Text) : Text := List.replicate tabs '\t' ++ t ++ ['\n']

/-- What a virtual host is made from. -/
structure Vhost where
  name : Text
  aliases : List Text
  documentRoot : Text
  interface : Text
  httpPort : Text
  httpsPort : Text
  sslKeyFile : Text
  sslCrtFile : Text

namespace Vhost

variable (v : Vhost)

/-- The part of an Apache host that both ports share. -/
def apacheBody (port phpWrapper phpHandler : Text) : Text :=
  "<VirtualHost ".toList ++ v.interface ++ ':' :: port ++ ">\n".toList ++
    line 1 ("DocumentRoot \"".toList ++ v.documentRoot ++ ['"']) ++
    line 1 ("ServerName ".toList ++ v.name) ++
    (v.aliases.flatMap fun a => line 1 ("ServerAlias ".toList ++ hostnameOf v.name a)) ++
    phpWrapper ++
    line 1 ("<Directory \"".toList ++ v.documentRoot ++ "\">".toList) ++
    phpHandler ++
    line 2 "Options all".toList ++
    line 2 "AllowOverride all".toList ++
    line 2 "Require all granted".toList ++
    line 1 "</Directory>".toList

/-- The Apache host. -/
def apache (phpWrapper phpHandler : Text) : Text :=
  v.apacheBody v.httpPort phpWrapper phpHandler ++ "</VirtualHost>".toList ++ "\n\n".toList ++
    v.apacheBody v.httpsPort phpWrapper phpHandler ++
    line 1 "SSLEngine On".toList ++
    line 1 ("SSLCertificateFile \"".toList ++ v.sslCrtFile ++ ['"']) ++
    line 1 ("SSLCertificateKeyFile \"".toList ++ v.sslKeyFile ++ ['"']) ++
    "</VirtualHost>".toList

/-- The names an Nginx host answers to. -/
def serverNames : Text :=
  v.name ++ v.aliases.flatMap fun a => ' ' :: hostnameOf v.name a

/-- The part of an Nginx host that both ports share. -/
def nginxBody (port : Text) : Text :=
  line 0 "server".toList ++ line 0 ['\x7b'] ++
    line 1 ("listen ".toList ++ v.interface ++ ':' :: port ++ [';']) ++
    line 1 ("server_name ".toList ++ v.serverNames ++ [';']) ++
    line 1 ("root \"".toList ++ FilePath.slash (v.documentRoot ++ ['/']) '/' ++ "\";".toList)

/-- The Nginx host. -/
def nginx (phpWrapper : Text) : Text :=
  v.nginxBody v.httpPort ++ phpWrapper ++ ['\x7d'] ++ "\n\n".toList ++
    v.nginxBody (v.httpsPort ++ " ssl".toList) ++
    line 1 ("ssl_certificate \"".toList ++ v.sslCrtFile ++ "\";".toList) ++
    line 1 ("ssl_certificate_key \"".toList ++ v.sslKeyFile ++ "\";".toList) ++
    line 1 "ssl_session_cache shared:SSL:1m;".toList ++
    line 1 "ssl_session_timeout 5m;".toList ++
    line 1 "ssl_ciphers HIGH:!aNULL:!MD5;".toList ++
    line 1 "ssl_prefer_server_ciphers on;".toList ++
    phpWrapper ++ ['\x7d']

end Vhost

/-- The FastCGI lines of an Apache host. -/
def apacheWrapper (env : Env) (db : Database) (phpInstanceId : ℤ) : Text :=
  line 1 "FcgidMaxRequestLen 50000000".toList ++
    line 1 "FcgidIOTimeout 7200".toList ++
    line 1 "FcgidConnectTimeout 7200".toList ++
    line 1 "FcgidBusyTimeout 7200".toList ++
    line 1 "FcgidIdleTimeout 7200".toList ++
    line 1 "FcgidProcessLifeTime 7200".toList ++
    line 1 ("FcgidWrapper \"".toList ++
      FilePath.slash (env.binPath ++ '\\' :: instanceName db (some phpInstanceId) ++
        "\\php-cgi.exe".toList) '/' ++ "\" .php".toList)

/-- The FastCGI lines of an Nginx host. -/
def nginxWrapper (db : Database) (phpInstanceId : ℤ) : Text :=
  let port := ((endpoint db (some phpInstanceId)).map fun row => row.port.toText).getD []
  line 1 "location /".toList ++ line 1 ['\x7b'] ++
    line 2 "try_files $uri $uri/ /index.php?$args;".toList ++ line 1 ['\x7d'] ++
    line 1 "location ~ \\.php$".toList ++ line 1 ['\x7b'] ++
    line 2 ("fastcgi_pass ".toList ++ interfaceOf db (some phpInstanceId) ++ ':' :: port ++
      [';']) ++
    line 2 "fastcgi_index index.php;".toList ++
    line 2 "fastcgi_param SCRIPT_FILENAME  $document_root$fastcgi_script_name;".toList ++
    line 2 "include fastcgi_params;".toList ++ line 1 ['\x7d']

/-- The text of the virtual host file of a site. -/
def vhostText (env : Env) (db : Database) (site : SiteRow) (v : Vhost) : Text :=
  if httpdType db site.httpdInstanceId = "apache".toList then
    match site.phpInstanceId with
    | some php =>
        v.apache (apacheWrapper env db php) (line 2 "AddHandler fcgid-script .php".toList)
    | none => v.apache [] []
  else
    match site.phpInstanceId with
    | some php => v.nginx (nginxWrapper db php)
    | none => v.nginx []

/-! ## The operations -/

/-- `Site::_make`: the hosts lines of a site and its three files. -/
def make (env : Env) (siteId : ℤ) (w : World) : World :=
  let site := getById w.db siteId
  let instanceId := site.httpdInstanceId
  let confPath := confPath env w.db instanceId
  let sslKeyFile := FilePath.slash (confPath ++ ['/']) '/' ++ site.name ++ ".key".toList
  let sslCrtFile := FilePath.slash (confPath ++ ['/']) '/' ++ site.name ++ ".crt".toList
  let vhost : Vhost :=
    { name := site.name
      aliases := aliasesOf w.db siteId
      documentRoot := site.documentRoot
      interface := interfaceOf w.db instanceId
      httpPort := portOf w.db instanceId "http".toList
      httpsPort := portOf w.db instanceId "https".toList
      sslKeyFile := sslKeyFile
      sslCrtFile := sslCrtFile }
  let w := w.editHosts (Hosts.addAll env.preg (hostInterface w.db instanceId)
    (hostnames w.db siteId))
  let w := w.put sslKeyFile site.sslKey
  let w := w.put sslCrtFile site.sslCrt
  w.put (confPath ++ '\\' :: site.name ++ ".vhost".toList) (vhostText env w.db site vhost)

/-- The document root a form asks for; a blank one lies below `SITE_PATH`. -/
def rootOf (env : Env) (name documentRoot : Text) : Text :=
  let root := Text.rtrimChar '\\' documentRoot
  if root = [] then env.sitePath ++ '\\' :: name else root

/-- A blank document root is created. -/
def makeRoot (env : Env) (name documentRoot : Text) (w : World) : World :=
  if Text.rtrimChar '\\' documentRoot = [] then w.mkdir (env.sitePath ++ '\\' :: name) else w

/-- Add each alias to the alias table. -/
def insertAliases (siteId : ℤ) (aliases : List Text) (db : Database) : Database :=
  { db with aliases := aliases.foldl (fun table a => table.insert ⟨siteId, a⟩) db.aliases }

/-- Make the files of an assigned site and restart its server. -/
def publish (env : Env) (siteId : ℤ) (httpdInstanceId : Option ℤ) (w : World) : Outcome :=
  match httpdInstanceId with
  | some instanceId => (make env siteId w).restart instanceId
  | none => .done w

/-- The rows of a new site. -/
def createRows (row : SiteRow) (aliases : List Text) (db : Database) : Database :=
  insertAliases db.sites.nextId aliases { db with sites := db.sites.insert row }

/-- `Site::create`. A refused row leaves the connection without an inserted key, and
`lastInsertId` is 0. -/
def create (env : Env) (name aliases documentRoot : Text)
    (httpdInstanceId phpInstanceId : Option ℤ) (ca : Option Certificate) (w : World) : Outcome :=
  if name = [] ∨ name = ['0'] then .aborted w
  else
    let aliases := stringToCleanAliasArray aliases
    let w := makeRoot env name documentRoot w
    match ca with
    | some ca =>
        let row : SiteRow := ⟨name, ca.key, ca.crt, rootOf env name documentRoot,
          httpdInstanceId, phpInstanceId⟩
        let siteId := w.db.sites.nextId
        publish env siteId httpdInstanceId { w with db := createRows row aliases w.db }
    | none => publish env 0 httpdInstanceId { w with db := insertAliases 0 aliases w.db }

/-- Replace the alias rows of a site. -/
def replaceAliases (siteId : ℤ) (aliases : List Text) (db : Database) : Database :=
  insertAliases siteId aliases
    { db with aliases := db.aliases.delete fun _ a => a.siteId == siteId }

/-- The rows of a site after an update. -/
def updateRows (siteId : ℤ) (row : SiteRow) (aliases : List Text) (db : Database) :
    Database :=
  replaceAliases siteId aliases
    { db with sites := db.sites.update (fun id _ => id == siteId) fun _ => row }

/-- The pattern for the configuration files of a site. -/
def configs (env : Env) (db : Database) (site : SiteRow) : Text :=
  confPath env db site.httpdInstanceId ++ '\\' :: site.name ++ ".*".toList

/-- Delete the configuration files on a server that a site leaves. -/
def withdraw (env : Env) (existing : SiteRow) (httpdInstanceId : Option ℤ) (w : World) :
    Outcome :=
  match existing.httpdInstanceId with
  | some instanceId =>
      if httpdInstanceId = some instanceId then .done w
      else (w.del (configs env w.db existing)).restart instanceId
  | none => .done w

/-- `Site::update`. A refused row stays as it was. -/
def update (env : Env) (siteId : ℤ) (name aliases documentRoot : Text)
    (httpdInstanceId phpInstanceId : Option ℤ) (ca : Option Certificate) (w : World) : Outcome :=
  let existing := getById w.db siteId
  let w := makeRoot env name documentRoot w
  let w := w.editHosts (Hosts.removeAll env.preg (hostnames w.db siteId))
  let aliases := stringToCleanAliasArray aliases
  let documentRoot := Text.rtrimChar '\\' (rootOf env name documentRoot)
  let db := match ca with
    | some ca => updateRows siteId
        ⟨name, ca.key, ca.crt, documentRoot, httpdInstanceId, phpInstanceId⟩ aliases w.db
    | none => replaceAliases siteId aliases w.db
  let w := { w with db := db }
  (withdraw env existing httpdInstanceId w).bind (publish env siteId httpdInstanceId)

/-- Delete the rows of a site. -/
def deleteRows (siteId : ℤ) (db : Database) : Database :=
  { db with
    sites := db.sites.delete fun id _ => id == siteId
    aliases := db.aliases.delete fun _ a => a.siteId == siteId }

/-- `Site::delete`. -/
def delete (env : Env) (siteId : ℤ) (w : World) : Outcome :=
  let site := getById w.db siteId
  let w := w.editHosts (Hosts.removeAll env.preg (hostnames w.db siteId))
  let w := w.del (configs env w.db site)
  let finish (w : World) : Outcome := .done { w with db := deleteRows siteId w.db }
  match site.httpdInstanceId with
  | some instanceId => (w.restart instanceId).bind finish
  | none => finish w

/-- The `uninstall` of a web server. Whether its directory can be removed is
part of the request; the endpoints and the row go in any case. -/
def uninstallServer (env : Env) (instanceId : ℤ) (removable : Bool) (w : World) : World :=
  let vars := Instance.setInstanceVars env.binPath instanceId
    (Package.getByInstanceId w.db instanceId)
  let db := { w.db with
    sites := w.db.sites.update (fun _ site => site.httpdInstanceId == some instanceId)
      fun site => { site with httpdInstanceId := none } }
  { w with
    db := Instance.removeRows instanceId db
    disk := if removable then w.disk.deltree vars.path else w.disk }

/-! ## Requests -/

/-- The requests that change sites, with the key and the certificate that were made
for them. -/
inductive Request
  | create (name aliases documentRoot : Text) (httpdInstanceId phpInstanceId : Option ℤ)
      (ca : Certificate)
  | update (siteId : ℤ) (name aliases documentRoot : Text)
      (httpdInstanceId phpInstanceId : Option ℤ) (ca : Certificate)
  | delete (siteId : ℤ)
  | uninstall (instanceId : ℤ) (removable : Bool)

/-- What a request does. -/
def handle (env : Env) : Request → World → Outcome
  | .create name aliases root httpd php ca, w =>
      create env name aliases root httpd php (some ca) w
  | .update siteId name aliases root httpd php ca, w =>
      update env siteId name aliases root httpd php (some ca) w
  | .delete siteId, w => delete env siteId w
  | .uninstall instanceId removable, w =>
      .done (uninstallServer env instanceId removable w)

/-- The site a request is about is there. -/
def Addressed (db : Database) : Request → Prop
  | .update siteId _ _ _ _ _ _ => siteId ∈ db.sites.rows.map Prod.fst
  | .delete siteId => siteId ∈ db.sites.rows.map Prod.fst
  | _ => True

instance (db : Database) (request : Request) : Decidable (Addressed db request) :=
  match request with
  | .create .. => isTrue trivial
  | .update siteId .. => inferInstanceAs (Decidable (siteId ∈ _))
  | .delete siteId => inferInstanceAs (Decidable (siteId ∈ _))
  | .uninstall .. => isTrue trivial

/-- A successful request: its site is there, its key was made and no restart failed. -/
def Step (env : Env) (w : World) (request : Request) (w' : World) : Prop :=
  Addressed w.db request ∧ handle env request w = .done w'

/-- No sites yet. -/
def NoSites (db : Database) : Prop := db.sites.rows = [] ∧ db.aliases.rows = []

/-! ## A small deployment -/

/-- A deployment for runs on fixed inputs. -/
def sampleEnv : Env := ⟨"C:\\wamp".toList, fun _ _ => false⟩

/-- Its tables: one Apache and one Nginx, installed and without sites. -/
def sampleDatabase : Database :=
  let text (s : String) : SqlValue := .text s.toList
  let vendor (title : String) : VendorRow := ⟨text title, .null, text "httpd", .null⟩
  let package (classFile : String) (vendorId : ℤ) : PackageRow :=
    ⟨text "2.4", text classFile, .null, .null, .null, text "x64", .null, .null,
      .int vendorId, .int 0⟩
  let endpoint (instanceId port : ℤ) (type : String) : EndpointRow :=
    ⟨instanceId, "tcp".toList, text "127.0.0.1", .int port, some type.toList⟩
  { Database.empty with
    vendors := (Table.empty.insert (vendor "apache")).insert (vendor "nginx")
    packages := (Table.empty.insert (package "apache.php" 1)).insert (package "nginx.php" 2)
    instances := (Table.empty.insert ⟨1, .null, some "1-apache_2.4_x64".toList⟩).insert
      ⟨2, .null, some "2-nginx_2.4_x64".toList⟩
    endpoints := (((Table.empty.insert (endpoint 1 80 "http")).insert
      (endpoint 1 443 "https")).insert (endpoint 2 81 "http")).insert
      (endpoint 2 444 "https") }

/-- The deployment with its directories and a hosts file of one line. -/
def sampleWorld : World where
  db := sampleDatabase
  hosts := "127.0.0.1\tlocalhost".toList
  disk := ((Drive.empty.mkdirs "C:\\wamp\\sites".toList).mkdirs
    (confPath sampleEnv sampleDatabase (some 1))).mkdirs
      (confPath sampleEnv sampleDatabase (some 2))

/-- A request for a new site with a document root of its own. -/
def sampleCreate (name aliases : String) (httpd : Option ℤ) : Request :=
  .create name.toList aliases.toList "C:\\www".toList httpd none ⟨"key".toList, "crt".toList⟩

/-- A request to change such a site. -/
def sampleUpdate (siteId : ℤ) (name aliases : String) (httpd : Option ℤ) : Request :=
  .update siteId name.toList aliases.toList "C:\\www".toList httpd none
    ⟨"key".toList, "crt".toList⟩

end Site

end WampManager
