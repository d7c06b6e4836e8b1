/-
# What virtual hosts say

The virtual host of a site is put together from its row, its aliases and the endpoints
of its server without any escaping. The module says for which rows the server reads
from it what the row says: two blocks, on the two ports, with the document root, the
hostnames and nothing else that comes from these texts. For Apache the document root
is the one path whose slashes are not turned.
-/

import WampManager.NginxReads
import WampManager.SiteController

namespace WampManager

namespace Site

open ApacheConf (Plain Quotable Unpaired)
open NginxConf (isPlain isQuotable isSteady)

/-! ## Reading a site back -/

/-- The path of the program of a PHP version. -/
def phpCgi (env : Env) (db : Database) (phpInstanceId : ℤ) : Text :=
  FilePath.slash (env.binPath ++ '\\' :: instanceName db (some phpInstanceId) ++
    "\\php-cgi.exe".toList) '/'

/-- The address of a PHP version, as its first endpoint has it. -/
def phpAddress (db : Database) (phpInstanceId : ℤ) : Text :=
  interfaceOf db (some phpInstanceId) ++
    ':' :: ((endpoint db (some phpInstanceId)).map fun row => row.port.toText).getD []

/-- Its server reads from the virtual host of a site two blocks, one for each port, with
its document root up to the direction of slashes, its hostnames, and the directives
every site has. -/
def ReadsBack (env : Env) (db : Database) (siteId : ℤ) : Prop :=
  let site := getById db siteId
  let v := vhostOf env db siteId
  ∃ root, SameRoot root site.documentRoot ∧
    if httpdType db site.httpdInstanceId = "apache".toList then
      ApacheConf.read (madeText env db siteId) =
        v.apacheStatements root (site.phpInstanceId.map (phpCgi env db))
    else
      NginxConf.read (madeText env db siteId) =
        v.nginxTokens root (site.phpInstanceId.map (phpAddress db))

/-! ## The texts of a row -/

/-- The endpoints of a server as they stand in a virtual host. -/
def addresses (db : Database) (server : Option ℤ) : List Text :=
  [interfaceOf db server ++ ':' :: portOf db server "http".toList,
   interfaceOf db server ++ ':' :: portOf db server "https".toList]

/-- The texts that stand in marks for Apache besides the document root and the name: the
folder of the manager and those of the instances. -/
def folders (env : Env) (db : Database) (site : SiteRow) : List Text :=
  env.wampPath :: instanceName db site.httpdInstanceId ::
    site.phpInstanceId.toList.map fun php => instanceName db (some php)

/-- The texts of a site stand plainly in an Apache host: addresses and hostnames are
single words, no path has a quotation mark or a line feed, and the document root has no
pair of backslashes and none at its end. -/
structure ApacheRow (env : Env) (db : Database) (siteId : ℤ) : Prop where
  addresses : ∀ address ∈ addresses db (getById db siteId).httpdInstanceId, Plain address
  hostnames : ∀ hostname ∈ hostnames db siteId, Plain hostname ∧ hostname.getLast? ≠ some '\\'
  root : Quotable (getById db siteId).documentRoot ∧ OneLine (getById db siteId).documentRoot
  name : '"' ∉ (getById db siteId).name
  folders : ∀ folder ∈ folders env db (getById db siteId), '"' ∉ folder ∧ OneLine folder

/-- The texts of a site stand plainly in an Nginx host: addresses and hostnames are
single words and no path has a quotation mark. -/
structure NginxRow (env : Env) (db : Database) (siteId : ℤ) : Prop where
  addresses : ∀ address ∈ addresses db (getById db siteId).httpdInstanceId,
    isPlain address = true
  hostnames : ∀ hostname ∈ hostnames db siteId, isPlain hostname = true
  root : '"' ∉ (getById db siteId).documentRoot
  name : '"' ∉ (getById db siteId).name
  folders : '"' ∉ env.wampPath ∧ '"' ∉ instanceName db (getById db siteId).httpdInstanceId
  php : ∀ php ∈ (getById db siteId).phpInstanceId, isPlain (phpAddress db php) = true

/-- The texts of a site stand plainly in the virtual host for its server. -/
def PlainRow (env : Env) (db : Database) (siteId : ℤ) : Prop :=
  if httpdType db (getById db siteId).httpdInstanceId = "apache".toList then
    ApacheRow env db siteId
  else NginxRow env db siteId

/-! ## The texts of a virtual host -/

/-- The virtual host for Apache, with or without PHP. -/
theorem vhostText_of_apache (env : Env) {db : Database} {site : SiteRow} (v : Vhost)
    (h : httpdType db site.httpdInstanceId = "apache".toList) :
    vhostText env db site v =
      v.apache ((site.phpInstanceId.map (phpCgi env db)).elim [] Vhost.fcgidText)
        ((site.phpInstanceId.map (phpCgi env db)).elim [] fun _ => Vhost.handlerText) := by
  rw [vhostText, if_pos h]
  cases hphp : site.phpInstanceId with
  | none => rfl
  | some php =>
      rw [Option.map_some, Option.elim_some, Option.elim_some, phpCgi, ← Vhost.fcgidText_eq]
      rfl

/-- The virtual host for Nginx, with or without PHP. -/
theorem vhostText_of_nginx (env : Env) {db : Database} {site : SiteRow} (v : Vhost)
    (h : httpdType db site.httpdInstanceId ≠ "apache".toList) :
    vhostText env db site v =
      v.nginx ((site.phpInstanceId.map (phpAddress db)).elim [] Vhost.passText) := by
  rw [vhostText, if_neg h]
  cases hphp : site.phpInstanceId with
  | none => rfl
  | some php =>
      have hwrapper : nginxWrapper db php = Vhost.passText (phpAddress db php) := by
        delta nginxWrapper Vhost.passText phpAddress
        simp only [List.append_assoc, List.cons_append]
      rw [Option.map_some, Option.elim_some, ← hwrapper]

/-! ## Paths -/

/-- The folder of a server holds what its name and the manager's folder hold. -/
theorem not_mem_confPath_iff {c : Char} (hc : c = '"' ∨ c = '\n') (env : Env) (db : Database)
    (server : Option ℤ) : c ∉ confPath env db server ++ ['/'] ↔
      c ∉ env.wampPath ∧ c ∉ instanceName db server := by
  have hbin : c ∉ "\\bin".toList := by rcases hc with rfl | rfl <;> decide
  have hconf : c ∉ "\\conf\\vhosts".toList := by rcases hc with rfl | rfl <;> decide
  have hslash : c ∉ ['/'] := by rcases hc with rfl | rfl <;> decide
  have hback : c ≠ '\\' := by rcases hc with rfl | rfl <;> decide
  simp only [confPath, Env.binPath, List.mem_append, List.mem_cons, hbin, hconf, hslash, hback,
    or_false, false_or, not_or]

/-- So does the path of the program of a PHP version. -/
theorem not_mem_phpCgi_iff {c : Char} (hc : c = '"' ∨ c = '\n') (env : Env) (db : Database)
    (phpInstanceId : ℤ) : c ∉ phpCgi env db phpInstanceId ↔
      c ∉ env.wampPath ∧ c ∉ instanceName db (some phpInstanceId) := by
  have hbin : c ∉ "\\bin".toList := by rcases hc with rfl | rfl <;> decide
  have hcgi : c ∉ "\\php-cgi.exe".toList := by rcases hc with rfl | rfl <;> decide
  have hback : c ≠ '\\' := by rcases hc with rfl | rfl <;> decide
  have hsep : FilePath.isSep c = false := by rcases hc with rfl | rfl <;> decide
  rw [phpCgi, FilePath.mem_slash_iff hsep (by decide)]
  simp only [Env.binPath, List.mem_append, List.mem_cons, hbin, hcgi, hback, or_false, false_or,
    not_or]

/-- The path of a file for a certificate holds what the folder and the name hold. -/
theorem oneLine_sslFile_iff {ext : Text} (hext : OneLine ext) (env : Env) (db : Database)
    (server : Option ℤ) (name : Text) :
    OneLine (FilePath.slash (confPath env db server ++ ['/']) '/' ++ name ++ ext) ↔
      (OneLine env.wampPath ∧ OneLine (instanceName db server)) ∧ OneLine name := by
  have hconf := not_mem_confPath_iff (.inr rfl) env db server
  have hslash : '\n' ∈ FilePath.slash (confPath env db server ++ ['/']) '/' ↔
      '\n' ∈ confPath env db server ++ ['/'] := FilePath.mem_slash_iff (by decide) (by decide)
  simp only [OneLine] at hext ⊢
  rw [List.mem_append, List.mem_append, hslash, not_or, not_or, hconf]
  exact and_iff_left hext

/-- Such a path can be quoted for Apache if no mark and no pair stands in it. -/
theorem quotable_sslFile_iff {c : Char} (hc : c ≠ '\\') {ext : Text} (hext : Quotable (c :: ext))
    (env : Env) (db : Database) (server : Option ℤ) (name : Text) :
    Quotable (FilePath.slash (confPath env db server ++ ['/']) '/' ++ name ++ c :: ext) ↔
      ('"' ∉ env.wampPath ∧ '"' ∉ instanceName db server) ∧ '"' ∉ name ∧ Unpaired name := by
  rw [List.append_assoc, ApacheConf.quotable_append_iff
    (FilePath.not_mem_slash (by decide) (by decide) _), FilePath.mem_slash_iff (by decide)
    (by decide), not_mem_confPath_iff (.inl rfl),
    ApacheConf.quotable_append_cons_iff hc hext]

/-- And for Nginx if no mark does, where the name is a word. -/
theorem isQuotable_sslFile_iff {ext : Text} (hext : isQuotable ext = true) (env : Env)
    (db : Database) (server : Option ℤ) {name : Text} (hname : isPlain name = true) :
    isQuotable (FilePath.slash (confPath env db server ++ ['/']) '/' ++ name ++ ext) = true ↔
      ('"' ∉ env.wampPath ∧ '"' ∉ instanceName db server) ∧ '"' ∉ name := by
  have hslash : isSteady (FilePath.slash (confPath env db server ++ ['/']) '/') = true :=
    NginxConf.isSteady_of_not_mem (FilePath.not_mem_slash (by decide) (by decide) _)
  rw [List.append_assoc, NginxConf.isQuotable_append_iff hslash, FilePath.mem_slash_iff (by decide)
    (by decide), not_mem_confPath_iff (.inl rfl),
    NginxConf.isQuotable_append_iff (NginxConf.isSteady_of_isPlain hname)]
  exact and_congr_right' (and_iff_left hext)

/-! ## Rows -/

/-- The texts of an Apache host are plain exactly if those of its row are. -/
theorem apachePlain_iff (env : Env) (db : Database) (siteId : ℤ) :
    (vhostOf env db siteId).ApachePlain ((getById db siteId).phpInstanceId.map (phpCgi env db)) ↔
      ApacheRow env db siteId := by
  set site := getById db siteId with hsite
  set v := vhostOf env db siteId with hv
  have haddresses : (∀ address ∈ addresses db site.httpdInstanceId, Plain address) ↔
      Plain (v.interface ++ ':' :: v.httpPort) ∧ Plain (v.interface ++ ':' :: v.httpsPort) := by
    rw [addresses, List.forall_mem_cons, List.forall_mem_singleton]
    rfl
  have hext : Quotable ".crt".toList ∧ Quotable ".key".toList :=
    ⟨(ApacheConf.quotable_iff_of_not_mem (by decide)).mpr (by decide),
      (ApacheConf.quotable_iff_of_not_mem (by decide)).mpr (by decide)⟩
  have hextLine : OneLine ".crt".toList ∧ OneLine ".key".toList := by decide
  have hcrt := quotable_sslFile_iff (by decide) hext.1 env db site.httpdInstanceId site.name
  have hkey := quotable_sslFile_iff (by decide) hext.2 env db site.httpdInstanceId site.name
  have hcrtLine := oneLine_sslFile_iff hextLine.1 env db site.httpdInstanceId site.name
  have hkeyLine := oneLine_sslFile_iff hextLine.2 env db site.httpdInstanceId site.name
  have hphp (php : ℤ) : Quotable (phpCgi env db php) ∧ OneLine (phpCgi env db php) ↔
      ('"' ∉ env.wampPath ∧ '"' ∉ instanceName db (some php)) ∧
        OneLine env.wampPath ∧ OneLine (instanceName db (some php)) := by
    have hturned : '\\' ∉ phpCgi env db php :=
      FilePath.not_mem_slash (by decide) (by decide) _
    exact and_congr ((ApacheConf.quotable_iff_of_not_mem hturned).trans
      (not_mem_phpCgi_iff (.inl rfl) env db php)) (not_mem_phpCgi_iff (.inr rfl) env db php)
  have hpaths : (∀ path ∈ v.paths (site.phpInstanceId.map (phpCgi env db)),
      Quotable path ∧ OneLine path) ↔
        (Quotable site.documentRoot ∧ OneLine site.documentRoot) ∧
        (Quotable v.sslCrtFile ∧ OneLine v.sslCrtFile) ∧
        (Quotable v.sslKeyFile ∧ OneLine v.sslKeyFile) ∧
        ∀ php ∈ site.phpInstanceId.toList, Quotable (phpCgi env db php) ∧
          OneLine (phpCgi env db php) := by
    simp only [Vhost.paths, List.forall_mem_cons, Option.toList_map, List.forall_mem_map]
    exact Iff.rfl
  have hfolders : (∀ folder ∈ folders env db site, '"' ∉ folder ∧ OneLine folder) ↔
      ('"' ∉ env.wampPath ∧ OneLine env.wampPath) ∧
        ('"' ∉ instanceName db site.httpdInstanceId ∧
          OneLine (instanceName db site.httpdInstanceId)) ∧
        ∀ php ∈ site.phpInstanceId.toList, '"' ∉ instanceName db (some php) ∧
          OneLine (instanceName db (some php)) := by
    simp only [folders, List.forall_mem_cons, List.forall_mem_map]
  constructor
  · rintro ⟨haddress, hnames, hall⟩
    obtain ⟨hroot, ⟨hc, hcl⟩, -, hp⟩ := hpaths.mp hall
    obtain ⟨⟨hwamp, hserver⟩, hname, -⟩ := hcrt.mp hc
    obtain ⟨⟨hwampLine, hserverLine⟩, -⟩ := hcrtLine.mp hcl
    refine ⟨haddresses.mpr haddress, hnames, hroot, hname, hfolders.mpr
      ⟨⟨hwamp, hwampLine⟩, ⟨hserver, hserverLine⟩, fun php hmem => ?_⟩⟩
    obtain ⟨⟨-, hmark⟩, -, hline⟩ := (hphp php).mp (hp php hmem)
    exact ⟨hmark, hline⟩
  · rintro ⟨haddress, hnames, hroot, hname, hall⟩
    obtain ⟨⟨hwamp, hwampLine⟩, ⟨hserver, hserverLine⟩, hp⟩ := hfolders.mp hall
    have hplain : Plain site.name := (hnames _ List.mem_cons_self).1
    have hquotable : ('"' ∉ env.wampPath ∧ '"' ∉ instanceName db site.httpdInstanceId) ∧
        '"' ∉ site.name ∧ Unpaired site.name := ⟨⟨hwamp, hserver⟩, hname, hplain.unpaired⟩
    have hline : (OneLine env.wampPath ∧ OneLine (instanceName db site.httpdInstanceId)) ∧
        OneLine site.name := ⟨⟨hwampLine, hserverLine⟩, Vhost.oneLine_of_plain hplain⟩
    refine ⟨haddresses.mp haddress, hnames, hpaths.mpr ⟨hroot,
      ⟨hcrt.mpr hquotable, hcrtLine.mpr hline⟩, ⟨hkey.mpr hquotable, hkeyLine.mpr hline⟩,
      fun php hmem => ?_⟩⟩
    obtain ⟨hmark, hone⟩ := hp php hmem
    exact (hphp php).mpr ⟨⟨hwamp, hmark⟩, hwampLine, hone⟩

/-- The texts of an Nginx host are plain exactly if those of its row are. -/
theorem nginxPlain_iff (env : Env) (db : Database) (siteId : ℤ) :
    (vhostOf env db siteId).NginxPlain ((getById db siteId).phpInstanceId.map (phpAddress db)) ↔
      NginxRow env db siteId := by
  set site := getById db siteId with hsite
  set v := vhostOf env db siteId with hv
  have hext : isQuotable ".crt".toList = true ∧ isQuotable ".key".toList = true := by decide
  have haddresses : (∀ address ∈ addresses db site.httpdInstanceId, isPlain address = true) ↔
      isPlain (v.interface ++ ':' :: v.httpPort) = true ∧
        isPlain (v.interface ++ ':' :: v.httpsPort) = true := by
    rw [addresses, List.forall_mem_cons, List.forall_mem_singleton]
    rfl
  have hroot : isQuotable (FilePath.slash (site.documentRoot ++ ['/']) '/') = true ↔
      '"' ∉ site.documentRoot := by
    rw [NginxConf.isQuotable_iff, and_iff_left (NginxConf.isSteady_of_not_mem
      (FilePath.not_mem_slash (by decide) (by decide) _)), FilePath.mem_slash_iff (by decide)
      (by decide)]
    simp
  have hssl (h : isPlain site.name = true) : isQuotable v.sslCrtFile = true ∧
      isQuotable v.sslKeyFile = true ↔
        ('"' ∉ env.wampPath ∧ '"' ∉ instanceName db site.httpdInstanceId) ∧ '"' ∉ site.name := by
    have hcrt := isQuotable_sslFile_iff hext.1 env db site.httpdInstanceId h
    have hkey := isQuotable_sslFile_iff hext.2 env db site.httpdInstanceId h
    exact (and_congr hcrt hkey).trans (and_self_iff)
  have hphp : (∀ address ∈ site.phpInstanceId.map (phpAddress db), isPlain address = true) ↔
      ∀ php ∈ site.phpInstanceId, isPlain (phpAddress db php) = true := by
    cases site.phpInstanceId <;> simp
  constructor
  · rintro ⟨haddress, hnames, hr, hcerts, hp⟩
    obtain ⟨hfolders, hname⟩ := (hssl (hnames _ List.mem_cons_self)).mp hcerts
    exact ⟨haddresses.mpr haddress, hnames, hroot.mp hr, hname, hfolders, hphp.mp hp⟩
  · rintro ⟨haddress, hnames, hr, hname, hfolders, hp⟩
    exact ⟨haddresses.mp haddress, hnames, hroot.mpr hr,
      (hssl (hnames _ List.mem_cons_self)).mpr ⟨hfolders, hname⟩, hphp.mpr hp⟩

/-- The virtual host of a site says what its row says exactly if the texts of the row
stand plainly in it. -/
theorem readsBack_iff (env : Env) (db : Database) (siteId : ℤ) :
    ReadsBack env db siteId ↔ PlainRow env db siteId := by
  unfold ReadsBack PlainRow
  by_cases happache : httpdType db (getById db siteId).httpdInstanceId = "apache".toList
  · have hphp : ∀ path ∈ (getById db siteId).phpInstanceId.map (phpCgi env db),
        path.getLast? ≠ some '\\' := by
      intro path hpath hlast
      obtain ⟨php, -, rfl⟩ := Option.map_eq_some_iff.mp hpath
      exact FilePath.not_mem_slash (by decide) (by decide) _ (List.mem_of_getLast? hlast)
    rw [if_pos happache, ← apachePlain_iff, ← Vhost.read_apache_iff _ hphp]
    simp only [if_pos happache, madeText, vhostText_of_apache env _ happache]
    rfl
  · rw [if_neg happache, ← nginxPlain_iff, ← Vhost.read_nginx_iff]
    simp only [if_neg happache, madeText, vhostText_of_nginx env _ happache]
    rfl

/-- A site with an alias is read back from the host for either server. -/
example :
    let db (server : ℤ) := (SiteController.doAdd sampleEnv
      (SiteController.sampleForm "shop.local" "www" server (-1))
        SiteController.sampleCertificate sampleWorld).world.db
    ReadsBack sampleEnv (db 1) 1 ∧ ReadsBack sampleEnv (db 2) 1 :=
  ⟨⟨"C:\\www".toList, rfl, by decide +kernel⟩, ⟨"C:/www".toList, rfl, by decide +kernel⟩⟩

end Site

namespace SiteController

open Site (ReadsBack)

/-- A form for a site on Apache with a document root on another machine. -/
def remoteForm : Form :=
  ⟨"shop.local".toList, [], "\\\\srv\\www".toList, 1, -1⟩

/-- Apache takes the two backslashes that a document root begins with for one. -/
theorem remote_root_not_readsBack :
    ¬ ∀ (env : Env) (form : Form) (ca : Certificate) (w w' : World),
      doAdd env form ca w = .done w' →
        ∀ row ∈ w'.db.sites.rows, row ∉ w.db.sites.rows → ReadsBack env w'.db row.1 := by
  intro hall
  let w' := (doAdd Site.sampleEnv remoteForm sampleCertificate Site.sampleWorld).world
  have hdone : doAdd Site.sampleEnv remoteForm sampleCertificate Site.sampleWorld = .done w' := rfl
  have hrow : ∃ row ∈ w'.db.sites.rows, row ∉ Site.sampleWorld.db.sites.rows ∧ row.1 = 1 := by
    decide +kernel
  have happache : Site.httpdType w'.db (Site.getById w'.db 1).httpdInstanceId =
      "apache".toList := by decide +kernel
  have hread : ((ApacheConf.read (Site.madeText Site.sampleEnv w'.db 1)).drop 1).head? =
      some ⟨"DocumentRoot".toList, ["\\srv\\www".toList]⟩ := by decide +kernel
  have hstored : (Site.getById w'.db 1).documentRoot = "\\\\srv\\www".toList := by
    decide +kernel
  obtain ⟨⟨id, row⟩, hmem, hnew, rfl⟩ := hrow
  obtain ⟨root, hroot, hmeant⟩ := hall _ _ _ _ _ hdone _ hmem hnew
  rw [if_pos happache] at hmeant
  rw [hmeant] at hread
  have hsaid : [root] = ["\\srv\\www".toList] :=
    (ApacheConf.Statement.mk.inj (Option.some.inj hread)).2
  rw [List.singleton_inj.mp hsaid, hstored] at hroot
  have hturned : FilePath.slash "\\srv\\www".toList '/' ≠
      FilePath.slash "\\\\srv\\www".toList '/' := by decide
  exact hturned hroot

end SiteController

end WampManager
