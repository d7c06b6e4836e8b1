/-
# Following the link of a site

The page of sites shows a link for each site with a web server. What a browser shows that
follows it is decided in three places that nothing but the site operations keeps in step:
the hosts file says which address the host of the link has, the port comes from the
endpoint table, and the server takes the folder from the virtual host that it chooses among
all files of its directory. After every run whose steps keep these in step the link leads
to the document root of its own site.
-/

import WampManager.HostsMirror
import WampManager.Lib.VirtualHost
import WampManager.Lib.WholeDoubles
import WampManager.SiteEffects
import WampManager.SiteFrame
import WampManager.Verify
import WampManager.VhostMirror
import WampManager.VhostReads

namespace WampManager

namespace Hosts

/-- The address that a hosts file gives for a host: that of its first line that names it. -/
def lookup (file hostname : Text) : Option Text :=
  ((Text.entries file).find? (mentions hostname)).bind fun item =>
    (((item.takeWhile (· ≠ '#')).splitOnP isBlank).filter (· ≠ [])).head?

/-- A host that is named only in lines for one address is found there. -/
theorem lookup_of_lines {file hostname address : Text} (haddress : IsAddress address)
    (hhost : HostToken hostname) (hnames : Names hostname file)
    (hlines : ∀ l ∈ Text.entries file, hostname ∈ hostnamesOf l →
      l = address ++ '\t' :: hostname) : lookup file hostname = some address := by
  obtain ⟨l, hl, hmem⟩ := hnames
  have hmention : mentions hostname l = true := decide_eq_true hmem
  cases hfind : (Text.entries file).find? (mentions hostname) with
  | none => exact absurd hmention (List.find?_eq_none.mp hfind l hl)
  | some found =>
      have hmentioned : mentions hostname found = true := List.find?_some hfind
      have hfound := hlines found (List.mem_of_find?_eq_some hfind)
        (of_decide_eq_true hmentioned)
      have hfirst := field_of_isAddress haddress
      have hsecond := hhost.field
      rw [lookup, hfind, Option.bind_some, hfound, hfirst.takeWhile_line hsecond,
        List.splitOnP_append_cons _ _ (by rfl), hfirst.splitOnP_isBlank,
        hsecond.splitOnP_isBlank]
      simp [hfirst.1, hsecond.1]

end Hosts

namespace Site

open Hosts (Names Written HostToken IsAddress hostnamesOf)
open Loose (looseEq)
open Util (anyInterface)

/-! ## Links -/

/-- The scheme of a link, which is the type of the endpoint too. -/
def schemeOf (https : Bool) : Text := if https then "https".toList else "http".toList

/-- The port that a link leaves out. -/
def defaultPort (https : Bool) : Text := if https then "443".toList else "80".toList

/-- The endpoint of a server with a given type. -/
def typedEndpoint (db : Database) (instanceId : Option ℤ) (type : Text) : Option EndpointRow :=
  (db.endpoints.rows.find? fun row =>
    some row.2.instanceId == instanceId && row.2.type == some type).map Prod.snd

/-- The port as it stands in a link. -/
def linkPort (https : Bool) (port : SqlValue) : Text :=
  if looseEq port.toScalar (.text (defaultPort https)) then [] else ':' :: port.toText

/-- `Site::getUrl`: without a row of the joined tables nothing stands for the name and the
port. -/
def getUrl (db : Database) (siteId : ℤ) (https : Bool) : Text :=
  let type := schemeOf https
  let site := (db.sites.find? siteId).bind fun site =>
    (typedEndpoint db site.httpdInstanceId type).map fun endpoint => (site.name, endpoint.port)
  type ++ "://".toList ++ (site.map Prod.fst).getD [] ++
    linkPort https ((site.map Prod.snd).getD .null)

/-- The links on the page of sites, for a site with a web server. -/
def browse (db : Database) (site : SiteRow) (https : Bool) : Text :=
  let port := ((typedEndpoint db site.httpdInstanceId (schemeOf https)).map
    EndpointRow.port).getD .null
  schemeOf https ++ "://".toList ++ site.name ++ linkPort https port

/-- The host and the port of an address without a path. -/
def authority (port url : Text) : Text × Text :=
  match url.span (· ≠ ':') with
  | (host, _ :: rest) => (host, rest)
  | (host, []) => (host, port)

/-- The host and the port that a browser takes from a link. -/
def readUrl (url : Text) : Option (Text × Text) :=
  if "https://".toList.isPrefixOf url then some (authority (defaultPort true) (url.drop 8))
  else if "http://".toList.isPrefixOf url then some (authority (defaultPort false) (url.drop 7))
  else none

/-! ## What is shown -/

/-- An address with a port reaches those who listen there and those who listen everywhere. -/
def hears (listen : Text) (asked : Text × Text) : Bool :=
  listen == asked.1 ++ ':' :: asked.2 || listen == anyInterface ++ ':' :: asked.2

/-- How a server compares names: each name is covered by itself, and another one at most by a
pattern whose stars stand for a part of it. -/
structure Covering (covers : Text → Text → Bool) : Prop where
  self : ∀ name, covers name name = true
  stars : ∀ pattern name, covers pattern name = true →
    pattern = name ∨ Glob.matchSegment pattern name = true

/-- The virtual hosts that a server reads in one of its files. -/
def hostsIn (db : Database) (server : ℤ) (file : Text) : List (VirtualHost Text Text Text) :=
  if httpdType db (some server) = "apache".toList then ApacheConf.hosts file
  else NginxConf.hosts file

/-- The files that a server includes, in some order: those in its directory with the
extension of virtual hosts. -/
def Included (env : Env) (w : World) (server : ℤ) (files : List Text) : Prop :=
  ∀ content, content ∈ files ↔ ∃ key file, w.disk.tree.fileAt key = some file ∧ key ≠ [] ∧
    key.dropLast = dirKey env w.db (some server) ∧ vhostExt <:+ file.spelled ∧
      file.content = content

/-- The folder that is shown for a host and a port: the hosts file gives the address, and a
server that reads these files chooses among their hosts. -/
def visit (covers : Text → Text → Bool) (w : World) (server : ℤ) (files : List Text)
    (host port : Text) : Option Text :=
  (Hosts.lookup w.hosts host).bind fun address =>
    (VirtualHost.choose hears covers (files.flatMap (hostsIn w.db server)) (address, port)
      host).map VirtualHost.root

/-- What is shown is the document root of a site. -/
def Shows (site : SiteRow) (shown : Option Text) : Prop :=
  ∃ root, shown = some root ∧ FilePath.resolve root = FilePath.resolve site.documentRoot

/-- The folder that is shown for a link. -/
def follow (covers : Text → Text → Bool) (w : World) (server : ℤ) (files : List Text)
    (url : Text) : Option Text :=
  (readUrl url).bind fun asked => visit covers w server files asked.1 asked.2

/-! ## Reading links -/

theorem authority_of_host {host : Text} (hhost : ':' ∉ host) (port rest : Text) :
    authority port (host ++ ':' :: rest) = (host, rest) ∧ authority port host = (host, port) := by
  have hchars : ∀ c ∈ host, decide (c ≠ ':') = true := by
    intro c hc
    rw [decide_eq_true_eq]
    rintro rfl
    exact hhost hc
  unfold authority
  rw [List.span_eq_takeWhile_dropWhile, List.span_eq_takeWhile_dropWhile,
    List.takeWhile_append_of_pos hchars, List.dropWhile_append_of_pos hchars,
    List.takeWhile_eq_self_iff.mpr hchars, List.dropWhile_eq_nil_iff.mpr hchars]
  simp

/-- A link that names a host and a decimal port is read so, with the port left out or not. -/
theorem readUrl_link {host : Text} (hhost : ':' ∉ host) (https : Bool) {port : SqlValue} {n : ℕ}
    (hport : port.toText = Nat.toDigits 10 n) :
    readUrl (schemeOf https ++ "://".toList ++ host ++ linkPort https port) =
      some (host, port.toText) := by
  have hscalar : port.toScalar = .text (Nat.toDigits 10 n) := by
    cases port with
    | null => exact absurd hport.symm Nat.toDigits_ne_nil
    | int => exact congrArg Loose.Scalar.text hport
    | real => exact congrArg Loose.Scalar.text hport
    | text => exact congrArg Loose.Scalar.text hport
  have hloose : ∀ m : ℕ, looseEq port.toScalar (.text (Nat.toDigits 10 m)) = decide (n = m) := by
    intro m
    rw [hscalar]
    exact Loose.textEq_toDigits n m
  have hread : authority (defaultPort https) (host ++ linkPort https port) =
      (host, port.toText) := by
    obtain ⟨hwith, hwithout⟩ := authority_of_host hhost (defaultPort https) port.toText
    have hdefault : defaultPort https = Nat.toDigits 10 (if https then 443 else 80) := by
      cases https <;> decide
    rw [linkPort, hdefault, hloose, ← hdefault]
    by_cases hn : n = if https then 443 else 80
    · rw [if_pos (decide_eq_true hn), List.append_nil, hwithout, hport, hn, ← hdefault]
    · rw [if_neg (by simpa using hn), hwith]
  cases https with
  | true => exact congrArg some hread
  | false => exact congrArg some hread

theorem toText_typedEndpoint (db : Database) (server : Option ℤ) (type : Text) :
    ((typedEndpoint db server type).map fun row => row.port.toText).getD [] =
      portOf db server type := by
  rw [typedEndpoint, Option.map_map]
  rfl

/-- Both links of a site are read as its name and the port of its server. -/
theorem readUrl_links {db : Database} {id : ℤ} {site : SiteRow} (hrow : (id, site) ∈ db.sites.rows)
    (hname : ':' ∉ site.name) {https : Bool} {n : ℕ}
    (hport : portOf db site.httpdInstanceId (schemeOf https) = Nat.toDigits 10 n) :
    readUrl (getUrl db id https) = some (site.name, Nat.toDigits 10 n) ∧
      readUrl (browse db site https) = some (site.name, Nat.toDigits 10 n) := by
  rw [← toText_typedEndpoint] at hport
  cases hfound : typedEndpoint db site.httpdInstanceId (schemeOf https) with
  | none =>
      rw [hfound] at hport
      exact absurd hport.symm Nat.toDigits_ne_nil
  | some endpoint =>
      rw [hfound] at hport
      have hread := readUrl_link hname https hport
      have htext : endpoint.port.toText = Nat.toDigits 10 n := hport
      rw [htext] at hread
      have hjoined : getUrl db id https =
          schemeOf https ++ "://".toList ++ site.name ++ linkPort https endpoint.port := by
        simp only [getUrl, Table.find?_eq_some.mpr hrow, Option.bind_some, hfound,
          Option.map_some, Option.getD_some]
      have hlisted : browse db site https =
          schemeOf https ++ "://".toList ++ site.name ++ linkPort https endpoint.port := by
        simp only [browse, hfound, Option.map_some, Option.getD_some]
      rw [hjoined, hlisted]
      exact ⟨hread, hread⟩

/-! ## The hosts of one file -/

namespace Vhost

open ApacheConf (Statement hostWords noteStatement noteStatement_root noteStatement_name
  foldl_noteStatement_other)

variable (v : Vhost)

/-- The aliases are taken in as names. -/
theorem foldl_aliases (aliases : List Text) (host : VirtualHost Text Text Text) :
    (aliases.map fun a => (⟨"ServerAlias".toList, [hostnameOf v.name a]⟩ : Statement)).foldl
        (fun host s => noteStatement s host) host =
      { host with names := host.names ++ aliases.map (hostnameOf v.name) } := by
  induction aliases generalizing host with
  | nil => simp
  | cons a aliases ih =>
      rw [List.map_cons, List.foldl_cons, noteStatement_name (.inr rfl), ih]
      simp

/-- What follows the names of a block, up to its end. -/
def apacheRest (root : Text) (phpCgi : Option Text) (ssl : List Statement) : List Statement :=
  phpCgi.elim [] fcgidStatements ++ [⟨"<Directory".toList, [root]⟩] ++
    phpCgi.elim [] (fun _ => [⟨"AddHandler".toList, ["fcgid-script".toList, ".php".toList]⟩]) ++
    [⟨"Options".toList, ["all".toList]⟩, ⟨"AllowOverride".toList, ["all".toList]⟩,
     ⟨"Require".toList, ["all".toList, "granted".toList]⟩, ⟨"</Directory".toList, []⟩] ++ ssl

theorem other_of_names {statements : List Statement} {names : List Text}
    (h : statements.map Statement.name = names) (hnames : ∀ name ∈ names, name ∉ hostWords) :
    ∀ s ∈ statements, s.name ∉ hostWords :=
  fun s hs => hnames s.name (h ▸ List.mem_map_of_mem hs)

theorem other_apacheRest (root : Text) (phpCgi : Option Text) {ssl : List Statement}
    (hssl : ∀ s ∈ ssl, s.name ∉ hostWords) :
    ∀ s ∈ apacheRest root phpCgi ssl, s.name ∉ hostWords := by
  have hphp : ∀ s ∈ phpCgi.elim [] fcgidStatements, s.name ∉ hostWords := by
    cases phpCgi with
    | none => exact List.forall_mem_nil _
    | some path =>
        exact @other_of_names (fcgidStatements path) ["FcgidMaxRequestLen".toList,
          "FcgidIOTimeout".toList, "FcgidConnectTimeout".toList, "FcgidBusyTimeout".toList,
          "FcgidIdleTimeout".toList, "FcgidProcessLifeTime".toList, "FcgidWrapper".toList]
            rfl (by decide)
  have hhandler : ∀ s ∈ phpCgi.elim [] (fun _ =>
      [(⟨"AddHandler".toList, ["fcgid-script".toList, ".php".toList]⟩ : Statement)]),
        s.name ∉ hostWords := by
    cases phpCgi with
    | none => exact List.forall_mem_nil _
    | some path => exact List.forall_mem_singleton.mpr (by decide)
  have hdirectory : "<Directory".toList ∉ hostWords := by decide
  simp only [apacheRest, List.forall_mem_append]
  exact ⟨⟨⟨⟨hphp, List.forall_mem_singleton.mpr hdirectory⟩, hhandler⟩, by decide⟩, hssl⟩

/-- A block of a site is one host with the names of the site. -/
theorem hostsFrom_apacheBlock (root port : Text) (phpCgi : Option Text) {ssl : List Statement}
    (hssl : ∀ s ∈ ssl, s.name ∉ hostWords) (rest : List Statement) :
    ApacheConf.hostsFrom none (v.apacheBlock root port phpCgi ssl ++ rest) =
      ⟨[v.interface ++ ':' :: port], v.names, root⟩ :: ApacheConf.hostsFrom none rest := by
  have hrest := other_apacheRest root phpCgi hssl
  set aliases := v.aliases.map fun a =>
    (⟨"ServerAlias".toList, [hostnameOf v.name a]⟩ : Statement) with haliases
  set statements := (⟨"DocumentRoot".toList, [root]⟩ : Statement) ::
    ⟨"ServerName".toList, [v.name]⟩ :: (aliases ++ apacheRest root phpCgi ssl) with hstatements
  have hshape : v.apacheBlock root port phpCgi ssl ++ rest =
      ⟨"<VirtualHost".toList, [v.interface ++ ':' :: port]⟩ ::
        (statements ++ ⟨"</VirtualHost".toList, []⟩ :: rest) := by
    simp [apacheBlock, apacheRest, hstatements, haliases]
  have hwords : ∀ name ∈ ["DocumentRoot".toList, "ServerName".toList, "ServerAlias".toList],
      name ≠ "<VirtualHost".toList ∧ name ≠ "</VirtualHost".toList := by decide
  have hinside : ∀ s ∈ statements,
      s.name ≠ "<VirtualHost".toList ∧ s.name ≠ "</VirtualHost".toList := by
    rw [hstatements, List.forall_mem_cons, List.forall_mem_cons, List.forall_mem_append]
    refine ⟨hwords _ (by simp), hwords _ (by simp), ?_, ?_⟩
    · intro s hs
      obtain ⟨a, -, rfl⟩ := List.mem_map.mp hs
      exact hwords _ (by simp)
    · intro s hs
      have hother := hrest s hs
      simp only [hostWords, List.mem_cons, List.not_mem_nil, or_false, not_or] at hother
      exact ⟨hother.1, hother.2.1⟩
  rw [hshape, ApacheConf.hostsFrom_block rfl rfl hinside, hstatements, List.foldl_cons,
    noteStatement_root rfl, List.foldl_cons, noteStatement_name (.inl rfl), List.foldl_append,
    haliases, v.foldl_aliases, foldl_noteStatement_other hrest]
  simp [names]

/-- An Apache file has two hosts, which differ in the port only. -/
theorem hostsFrom_apacheStatements (root : Text) (phpCgi : Option Text) :
    ApacheConf.hostsFrom none (v.apacheStatements root phpCgi) =
      [⟨[v.interface ++ ':' :: v.httpPort], v.names, root⟩,
       ⟨[v.interface ++ ':' :: v.httpsPort], v.names, root⟩] := by
  have hssl : ∀ s ∈ [(⟨"SSLEngine".toList, ["On".toList]⟩ : Statement),
      ⟨"SSLCertificateFile".toList, [v.sslCrtFile]⟩,
      ⟨"SSLCertificateKeyFile".toList, [v.sslKeyFile]⟩], s.name ∉ hostWords :=
    @other_of_names _ ["SSLEngine".toList, "SSLCertificateFile".toList,
      "SSLCertificateKeyFile".toList] rfl (by decide)
  rw [apacheStatements, v.hostsFrom_apacheBlock _ _ _ (List.forall_mem_nil _),
    ← List.append_nil (v.apacheBlock root v.httpsPort phpCgi _),
    v.hostsFrom_apacheBlock _ _ _ hssl]
  rfl

open NginxConf (hostsFrom hostsFrom_directive)

/-- The locations that are passed on to PHP say nothing about the host. -/
theorem hostsFrom_passTokens (address : Text) (host : VirtualHost Text Text Text)
    (rest : List NginxConf.Token) :
    hostsFrom 1 [] host (passTokens address ++ rest) = hostsFrom 1 [] host rest := rfl

/-- Nor do the directives for the certificate. -/
theorem hostsFrom_sslTokens (host : VirtualHost Text Text Text) (rest : List NginxConf.Token) :
    hostsFrom 1 [] host (v.sslTokens ++ rest) = hostsFrom 1 [] host rest := rfl

/-- A block of a site is one host with the names of the site. -/
theorem hostsFrom_nginxBlock (root address : Text) (more : List Text) (php : Option Text)
    {ssl : List NginxConf.Token}
    (hssl : ∀ host rest, hostsFrom 1 [] host (ssl ++ rest) = hostsFrom 1 [] host rest)
    (host : VirtualHost Text Text Text) (rest : List NginxConf.Token) :
    ∃ host', hostsFrom 0 [] host (v.nginxBlock root (address :: more) php ssl ++ rest) =
      ⟨[address], v.names, root ++ ['/']⟩ :: hostsFrom 0 [] host' rest := by
  have hphp : ∀ host rest, hostsFrom 1 [] host (php.elim [] passTokens ++ rest) =
      hostsFrom 1 [] host rest := by
    intro host rest
    cases php with
    | none => rfl
    | some address => exact hostsFrom_passTokens address host rest
  apply Exists.intro
  simp only [nginxBlock, directive, List.append_assoc, List.cons_append, List.nil_append]
  rw [hostsFrom, hostsFrom, if_pos rfl, hostsFrom_directive, hostsFrom_directive,
    hostsFrom_directive, hssl, hphp, hostsFrom]
  simp [NginxConf.noteWords]
  rfl

/-- An Nginx file has two hosts, which differ in the port only. -/
theorem hostsFrom_nginxTokens (root : Text) (php : Option Text)
    (host : VirtualHost Text Text Text) :
    hostsFrom 0 [] host (v.nginxTokens root php) =
      [⟨[v.interface ++ ':' :: v.httpPort], v.names, root ++ ['/']⟩,
       ⟨[v.interface ++ ':' :: v.httpsPort], v.names, root ++ ['/']⟩] := by
  have hplain : ∀ host rest, hostsFrom 1 [] host ([] ++ rest) = hostsFrom 1 [] host rest :=
    fun _ _ => rfl
  obtain ⟨first, hfirst⟩ := v.hostsFrom_nginxBlock root (v.interface ++ ':' :: v.httpPort) [] php
    hplain host (v.nginxBlock root [v.interface ++ ':' :: v.httpsPort, "ssl".toList]
      php v.sslTokens)
  obtain ⟨second, hsecond⟩ := v.hostsFrom_nginxBlock root (v.interface ++ ':' :: v.httpsPort)
    ["ssl".toList] php v.hostsFrom_sslTokens first []
  rw [List.append_nil] at hsecond
  rw [nginxTokens, hfirst, hsecond]
  rfl

end Vhost

theorem resolve_of_sameRoot {root documentRoot : Text} (h : SameRoot root documentRoot) :
    FilePath.resolve root = FilePath.resolve documentRoot := by
  have hsep : FilePath.isSep '/' = true := rfl
  rw [← FilePath.resolve_slash root hsep, h, FilePath.resolve_slash _ hsep]

/-- The hosts that a server reads in the file of a site of its own: one for each port, with
the hostnames of the site and its document root. -/
theorem hostsIn_madeText {env : Env} {db : Database} {id server : ℤ}
    (hserver : (getById db id).httpdInstanceId = some server) (hplain : PlainRow env db id) :
    ∃ root, FilePath.resolve root = FilePath.resolve (getById db id).documentRoot ∧
      hostsIn db server (madeText env db id) =
        [⟨[interfaceOf db (some server) ++ ':' :: portOf db (some server) "http".toList],
          hostnames db id, root⟩,
         ⟨[interfaceOf db (some server) ++ ':' :: portOf db (some server) "https".toList],
          hostnames db id, root⟩] := by
  unfold PlainRow at hplain
  rw [hserver] at hplain
  unfold hostsIn
  by_cases happache : httpdType db (some server) = "apache".toList
  · rw [if_pos happache] at hplain ⊢
    have hphp : ∀ path ∈ (getById db id).phpInstanceId.map (phpCgi env db),
        path.getLast? ≠ some '\\' := by
      intro path hpath hlast
      obtain ⟨php, -, rfl⟩ := Option.map_eq_some_iff.mp hpath
      exact FilePath.not_mem_slash (by decide) (by decide) _ (List.mem_of_getLast? hlast)
    obtain ⟨root, hroot, hread⟩ :=
      (Vhost.read_apache_iff _ hphp).mpr ((apachePlain_iff env db id).mpr hplain)
    have htype : httpdType db (getById db id).httpdInstanceId = "apache".toList := by
      rw [hserver]
      exact happache
    refine ⟨root, resolve_of_sameRoot hroot, ?_⟩
    rw [madeText, vhostText_of_apache env (vhostOf env db id) htype, ApacheConf.hosts, hread,
      Vhost.hostsFrom_apacheStatements, ← hserver]
    rfl
  · rw [if_neg happache] at hplain ⊢
    obtain ⟨root, hroot, hread⟩ :=
      (Vhost.read_nginx_iff _ _).mpr ((nginxPlain_iff env db id).mpr hplain)
    have htrailing : FilePath.resolve (root ++ ['/']) = FilePath.resolve root := by
      rw [FilePath.resolve_append_sep root [] (by rfl)]
      rfl
    have htype : httpdType db (getById db id).httpdInstanceId ≠ "apache".toList := by
      rw [hserver]
      exact happache
    refine ⟨root ++ ['/'], htrailing.trans (resolve_of_sameRoot hroot), ?_⟩
    rw [madeText, vhostText_of_nginx env (vhostOf env db id) htype, NginxConf.hosts, hread,
      Vhost.hostsFrom_nginxTokens, ← hserver]
    rfl

/-! ## The lines for a host -/

/-- A host that no other site with a web server has stands in the hosts file with the
address of the server of its site only. -/
def Points (hostname : Text) (w : World) : Prop :=
  ∀ id, (getById w.db id).httpdInstanceId ≠ none → hostname ∈ hostnames w.db id →
    ¬ OwnedElsewhere w.db id hostname → ∀ l ∈ Text.entries w.hosts, hostname ∈ hostnamesOf l →
      l = hostInterface w.db (getById w.db id).httpdInstanceId ++ '\t' :: hostname

variable {env : Env} {hostname : Text} {w w' : World}

/-- The lines for a host after the request that leaves these rows: those that were there, and
those that the site adds for itself. -/
def Edits (hostname : Text) (siteId : ℤ) (w w' : World) : Prop :=
  ∀ l ∈ Text.entries w'.hosts, hostname ∈ hostnamesOf l →
    ((getById w'.db siteId).httpdInstanceId ≠ none ∧ hostname ∈ hostnames w'.db siteId ∧
      l = hostInterface w'.db (getById w'.db siteId).httpdInstanceId ++ '\t' :: hostname) ∨
    (l ∈ Text.entries w.hosts ∧
      ¬ ((getById w'.db siteId).httpdInstanceId ≠ none ∧ hostname ∈ hostnames w'.db siteId))

/-- A request that changes the rows and lines of one site keeps this for the hosts of all
sites, if it keeps the hosts that the site shares. -/
theorem points_edit (siteId : ℤ) (h : Points hostname w)
    (hothers : ∀ id ≠ siteId, getById w'.db id = getById w.db id)
    (haliases : ∀ id ≠ siteId, aliasesOf w'.db id = aliasesOf w.db id)
    (hinterface : ∀ server, hostInterface w'.db server = hostInterface w.db server)
    (hedits : Edits hostname siteId w w')
    (hshared : (getById w.db siteId).httpdInstanceId ≠ none →
      hostname ∈ hostnames w.db siteId → OwnedElsewhere w.db siteId hostname →
        (getById w'.db siteId).httpdInstanceId ≠ none ∧ hostname ∈ hostnames w'.db siteId) :
    Points hostname w' := by
  intro id hserver hmem halone l hl hname
  by_cases hid : id = siteId
  · subst hid
    rcases hedits l hl hname with ⟨-, -, hline⟩ | ⟨-, hnot⟩
    · exact hline
    · exact absurd ⟨hserver, hmem⟩ hnot
  · have hnotOwned : ¬ ((getById w'.db siteId).httpdInstanceId ≠ none ∧
        hostname ∈ hostnames w'.db siteId) :=
      fun hown => halone (ownedElsewhere_iff.mpr ⟨siteId, Ne.symm hid, hown.1, hown.2⟩)
    have hsame : hostnames w'.db id = hostnames w.db id := by
      rw [hostnames, hostnames, hothers id hid, haliases id hid]
    rw [hothers id hid] at hserver
    rw [hsame] at hmem
    have hbefore : ¬ OwnedElsewhere w.db id hostname := by
      intro hother
      obtain ⟨other, hne, hassigned, hhas⟩ := ownedElsewhere_iff.mp hother
      by_cases hsite : other = siteId
      · -- the site shared the host, so it must have kept it
        subst hsite
        exact hnotOwned (hshared hassigned hhas (ownedElsewhere_iff.mpr ⟨id, hid, hserver, hmem⟩))
      · apply halone
        apply ownedElsewhere_iff.mpr
        refine ⟨other, hne, ?_, ?_⟩
        · rwa [hothers other hsite]
        · rwa [hostnames, hothers other hsite, haliases other hsite]
    rcases hedits l hl hname with ⟨hassigned, hhas, -⟩ | ⟨hold, -⟩
    · exact absurd ⟨hassigned, hhas⟩ hnotOwned
    · rw [hinterface, hothers id hid]
      exact h id hserver hmem hbefore l hold hname

/-- The lines after a site with a web server added its hostnames. -/
theorem edits_settle {u : World} {siteId : ℤ} {httpd : Option ℤ}
    (hserver : (getById u.db siteId).httpdInstanceId = httpd)
    (haddress : httpd ≠ none → IsAddress (hostInterface u.db httpd))
    (haddable : httpd ≠ none →
      ∀ h ∈ hostnames u.db siteId, HostToken h ∧ h ≠ "localhost".toList)
    (hwritten : Written hostname u.hosts) (hold : Text.entries u.hosts ⊆ Text.entries w.hosts) :
    Edits hostname siteId w (settle env siteId httpd u) := by
  intro l hl hname
  rw [db_settle, hserver]
  rw [hosts_settle] at hl
  by_cases hnone : httpd = none
  · rw [if_pos hnone] at hl
    exact .inr ⟨hold hl, fun hown => hown.1 hnone⟩
  · rw [if_neg hnone, addedHosts, hserver] at hl
    rcases (Hosts.mem_entries_addAll (haddress hnone) (haddable hnone)).mp hl with
      ⟨hline, hmiss⟩ | ⟨o, ho, rfl⟩
    · refine .inr ⟨hold hline, fun hown => ?_⟩
      obtain ⟨address, hwrittenAddress, rfl⟩ := hwritten l hline hname
      have htoken := (haddable hnone hostname hown.2).1
      have hmatch : Hosts.matchesLine env.preg hostname (address ++ '\t' :: hostname) = true :=
        (Hosts.matchesLine_written hwrittenAddress htoken htoken.plain).mpr rfl
      rw [hmiss hostname hown.2] at hmatch
      cases hmatch
    · rw [Hosts.hostnamesOf_written (haddress hnone) (haddable hnone o ho).1,
        List.mem_singleton] at hname
      rw [hname]
      exact .inl ⟨hnone, ho, rfl⟩

/-- One step keeps what stands for a host. -/
theorem points_step {request : Request} (h : Points hostname w) (hmirrors : Mirrors hostname w)
    (hspelled : SpelledRequest request) (hkeeps : KeepsHosts w.db request)
    (hvhosts : KeepsVhosts w.db request) (hstep : Step env w request w') :
    Points hostname w' := by
  have hrows : RowsSpelled w'.db := (mirrors_step hmirrors hspelled hkeeps hstep).spelled
  obtain ⟨haddressed, hdone⟩ := hstep
  cases request with
  | create name aliases root httpd php ca =>
      obtain ⟨hne, rfl⟩ := create_done hdone
      rw [db_settle] at hrows
      set db := createRows ⟨name, ca.key, ca.crt, rootOf env name root, httpd, php⟩
        (stringToCleanAliasArray aliases) w.db with hdb
      have hsite : getById db w.db.sites.nextId =
          ⟨name, ca.key, ca.crt, rootOf env name root, httpd, php⟩ := by
        rw [hdb, getById_createRows, if_pos rfl]
      have hnew : (getById w.db w.db.sites.nextId).httpdInstanceId = none := by
        rw [getById, Table.find?_nextId]
        rfl
      apply points_edit w.db.sites.nextId h
      · intro id hid
        rw [db_settle, hdb, getById_createRows, if_neg hid]
      · intro id hid
        rw [db_settle, hdb, aliasesOf_createRows, if_neg hid]
      · intro server
        rw [db_settle]
        rfl
      · apply edits_settle (by rw [hsite])
        · exact hkeeps
        · intro _
          exact hostnames_addable (by rw [hsite]; exact hne)
            (by rw [hsite]; exact hspelled.2.1) (hostnames_spelled hrows _)
        · simpa only [hosts_makeRoot] using hmirrors.written
        · simp only [hosts_makeRoot]
          exact fun _ hl => hl
      · intro hserver
        exact absurd hnew hserver
  | update siteId name aliases root httpd php ca =>
      obtain rfl := update_done hdone
      rw [db_settle, db_leave] at hrows
      obtain ⟨-, hwritten⟩ := names_removedHosts env hmirrors siteId
      set db := updateRows siteId ⟨name, ca.key, ca.crt,
        Text.rtrimChar '\\' (rootOf env name root), httpd, php⟩
          (stringToCleanAliasArray aliases) w.db with hdb
      have hsite : getById db siteId =
          ⟨name, ca.key, ca.crt, Text.rtrimChar '\\' (rootOf env name root), httpd, php⟩ := by
        rw [hdb, getById_updateRows _ _ _ _ _ haddressed, if_pos rfl]
      have hhosts : (leave env (getById w.db siteId) httpd
          { (makeRoot env name root w).editHosts
            (Hosts.removeAll env.preg (hostnames w.db siteId)) with db := db }).hosts =
          removedHosts env w.db siteId w.hosts := by
        rw [hosts_leave]
        simp only [World.editHosts, hosts_makeRoot]
        rfl
      apply points_edit siteId h
      · intro id hid
        rw [db_settle, db_leave, hdb, getById_updateRows _ _ _ _ _ haddressed, if_neg hid]
      · intro id hid
        rw [db_settle, db_leave, hdb, aliasesOf_updateRows, if_neg hid]
      · intro server
        rw [db_settle, db_leave]
        rfl
      · apply edits_settle (by rw [db_leave, hsite])
        · intro hserver
          rw [db_leave]
          exact (hkeeps.1 hserver).2
        · intro hserver
          rw [db_leave]
          exact hostnames_addable (by rw [hsite]; exact (hkeeps.1 hserver).1)
            (by rw [hsite]; exact hspelled.2.1) (hostnames_spelled hrows _)
        · rwa [hhosts]
        · rw [hhosts]
          exact fun l hl => (Hosts.mem_entries_removeAll.mp hl).1
      · intro _ hmem hother
        rw [db_settle, db_leave, hsite, hostnames, hsite, hdb, aliasesOf_updateRows, if_pos rfl]
        exact hkeeps.2 hostname hmem hother
  | delete siteId =>
      obtain rfl := delete_done hdone
      have hgone : (getById (deleteRows siteId w.db) siteId).httpdInstanceId = none := by
        rw [getById_deleteRows, if_pos rfl]
        rfl
      apply points_edit siteId h
      · exact fun id hid => by rw [getById_deleteRows, if_neg hid]
      · exact fun id hid => by rw [aliasesOf_deleteRows, if_neg hid]
      · exact fun server => rfl
      · intro l hl _
        exact .inr ⟨(Hosts.mem_entries_removeAll.mp hl).1, fun hown => hown.1 hgone⟩
      · intro _ hmem hother
        exact absurd hother (hkeeps hostname hmem)
  | uninstall instanceId removable => exact hvhosts.elim

/-! ## The files of a server -/

/-- The file of each site on a server is made from the rows as they are. -/
def Current (env : Env) (server : ℤ) (w : World) : Prop :=
  ∀ id, (getById w.db id).httpdInstanceId = some server →
    w.disk.get (vhostPath env w.db id) = some (madeText env w.db id)

/-- A virtual host is made from its own row and aliases. -/
theorem madeText_congr {db db' : Database} {sites : Table SiteRow} {aliases : Table AliasRow}
    (hdb : db' = { db with sites := sites, aliases := aliases }) {id : ℤ}
    (hsite : getById db' id = getById db id) (haliases : aliasesOf db' id = aliasesOf db id) :
    madeText env db' id = madeText env db id ∧ vhostPath env db' id = vhostPath env db id := by
  have hvhost : vhostOf env db' id = vhostOf env db id := by
    unfold vhostOf
    rw [hsite, haliases, hdb]
    rfl
  rw [madeText, madeText, hvhost, vhostPath, vhostPath, hsite, hdb]
  exact ⟨rfl, rfl⟩

theorem vhostPath_eq (env : Env) (db : Database) (id : ℤ) :
    vhostPath env db id = sitePathOf env db (getById db id) vhostExt := by
  rw [vhostPath, sitePathOf, List.append_assoc, List.cons_append]
  rfl

/-- A file can be written in a directory where no directory has its name. -/
theorem writable_of_isDir {d : Drive} {dir : FilePath} (hdir : d.tree.isDir dir = true) {s : Text}
    (hfree : d.tree.isDir (dir ++ [s]) = false) : d.tree.Writable (dir ++ [s]) := by
  refine ⟨by simp, ?_, ?_⟩
  · rw [List.dropLast_concat]
    exact d.tree.isDir_iff.mp hdir
  · intro hnode
    rw [d.tree.isDir_iff.mpr hnode] at hfree
    cases hfree

/-- Making the files of a site completes the files of a server. -/
theorem current_settle {server siteId : ℤ} {httpd : Option ℤ} {u : World}
    (hsite : (getById u.db siteId).httpdInstanceId = httpd)
    (hname : matchesDomain (getById u.db siteId).name = true)
    (hdir : u.disk.tree.isDir (dirKey env u.db (some server)) = true)
    (hfree : ∀ s, u.disk.tree.isDir (dirKey env u.db (some server) ++ [s]) = false)
    (hothers : ∀ id ≠ siteId, (getById u.db id).httpdInstanceId = some server →
      matchesDomain (getById u.db id).name = true ∧
        (getById u.db siteId).name ≠ (getById u.db id).name ∧
          u.disk.get (vhostPath env u.db id) = some (madeText env u.db id)) :
    Current env server (settle env siteId httpd u) := by
  intro id hserver
  rw [db_settle] at hserver ⊢
  by_cases hid : id = siteId
  · subst hid
    have hassigned : httpd ≠ none := by
      rw [← hsite, hserver]
      exact Option.some_ne_none server
    have hkey : Drive.key (vhostPath env u.db id) =
        dirKey env u.db (some server) ++ [(getById u.db id).name ++ vhostExt] := by
      rw [vhostPath_eq, key_sitePathOf env u.db hname (by decide), hserver]
    rw [settle, if_neg hassigned, make_eq]
    simp only [World.put, World.editHosts]
    rw [Drive.get, Drive.fileAt_put_self, Option.map_some, Drive.content_stored]
    rw [Drive.writable_put, Drive.writable_put, hkey]
    exact writable_of_isDir hdir (hfree _)
  · obtain ⟨hdomain, hne, hget⟩ := hothers id hid hserver
    rw [← hget]
    apply Drive.get_congr
    rw [vhostPath_eq]
    unfold settle
    split
    · rfl
    · exact fileAt_make u.db rfl hname hdomain (by decide) hne

/-- A site whose pattern finds no other file on its server spares the files there. -/
theorem sparesFiles_of_withdraws {db : Database} {siteId id server : ℤ}
    (hdomain : matchesDomain (getById db siteId).name = true) (hne : id ≠ siteId)
    (hserver : (getById db id).httpdInstanceId = some server)
    (h : (getById db siteId).httpdInstanceId = some server →
      Withdraws db siteId server (getById db siteId).name) :
    SparesFiles (getById db siteId) (getById db id) := by
  intro hsame hcontinues
  have hmiss := (h (hsame.trans hserver)).1 _ ⟨id, hne, hserver, rfl⟩
  rw [finds, (Glob.matchSegment_dot_star (literal_domain hdomain) _).mpr
    (hcontinues.trans (List.prefix_append _ _))] at hmiss
  cases hmiss

/-- Deleting the files of a site keeps the file of another site. -/
theorem get_del_configs {siteId id server : ℤ} (hapart : NamesApart w.db)
    (hmirrored : Mirrored env server w) (d : Drive)
    (hsiteId : siteId ∈ w.db.sites.rows.map Prod.fst) (hne : id ≠ siteId)
    (hserver : (getById w.db id).httpdInstanceId = some server)
    (hspares : SparesFiles (getById w.db siteId) (getById w.db id)) :
    (d.del (configs env w.db (getById w.db siteId))).get (vhostPath env w.db id) =
      d.get (vhostPath env w.db id) := by
  obtain ⟨site, hrow, -⟩ := (exists_row_iff (· = some server) nofun).mpr hserver
  have hotherName := nameAt_of_mem (List.mem_map.mpr ⟨_, hrow, rfl⟩ : id ∈ _)
  have hsiteName := nameAt_of_mem hsiteId
  have hnames : (getById w.db siteId).name ≠ (getById w.db id).name := fun heq =>
    hne (hapart.distinct id siteId _ hotherName (heq ▸ hsiteName))
  apply Drive.get_congr
  rw [vhostPath_eq]
  exact fileAt_del_configs d hmirrored.named (hapart.domain _ _ hsiteName)
    (hapart.domain _ _ hotherName) (by decide) hnames hserver hmirrored.installed hspares

/-- One step keeps the files of a server made from the rows as they are. -/
theorem current_step {server : ℤ} {request : Request} (h : Current env server w)
    (hapart : NamesApart w.db) (hmirrored : Mirrored env server w)
    (haccepted : AcceptedRequest w.db request) (hkeeps : KeepsVhosts w.db request)
    (hstep : Step env w request w') : Current env server w' := by
  have hroot : ∀ name root path,
      (makeRoot env name root w).disk.get path = w.disk.get path :=
    fun name root path => Drive.get_congr (fileAt_makeRoot w name root _)
  have hnameOf : ∀ {id : ℤ}, (getById w.db id).httpdInstanceId = some server →
      nameAt w.db id = some (getById w.db id).name := by
    intro id hserver
    obtain ⟨site, hrow, -⟩ := (exists_row_iff (· = some server) nofun).mpr hserver
    exact nameAt_of_mem (List.mem_map.mpr ⟨_, hrow, rfl⟩)
  obtain ⟨haddressed, hdone⟩ := hstep
  cases request with
  | create name aliases root httpd php ca =>
      obtain ⟨-, rfl⟩ := create_done hdone
      obtain ⟨hdomain, hfree⟩ := nameAt_ne_of_accepted hapart haccepted
      set db := createRows ⟨name, ca.key, ca.crt, rootOf env name root, httpd, php⟩
        (stringToCleanAliasArray aliases) w.db with hdb
      have hsite : getById db w.db.sites.nextId =
          ⟨name, ca.key, ca.crt, rootOf env name root, httpd, php⟩ := by
        rw [hdb, getById_createRows, if_pos rfl]
      apply current_settle (by rw [hsite]) (by rw [hsite]; exact hdomain)
      · exact (isDir_makeRoot hkeeps.1 (hmirrored.deep (List.prefix_refl _))).trans hmirrored.dir
      · intro s
        exact (isDir_makeRoot hkeeps.1 (hmirrored.deep (List.prefix_append _ [s]))).trans
          (hmirrored.free s)
      · intro id hid hserver
        have hother : getById db id = getById w.db id := by
          rw [hdb, getById_createRows, if_neg hid]
        have htables : db = { w.db with sites := db.sites, aliases := db.aliases } := rfl
        obtain ⟨htext, hpath⟩ := @madeText_congr env _ _ _ _ htables id hother
          (by rw [hdb, aliasesOf_createRows, if_neg hid])
        rw [hother] at hserver ⊢
        rw [hsite, htext, hpath, hroot]
        refine ⟨hapart.domain _ _ (hnameOf hserver), ?_, h id hserver⟩
        intro heq
        exact hfree id ((hnameOf hserver).trans (congrArg some heq.symm))
  | update siteId name aliases root httpd php ca =>
      obtain rfl := update_done hdone
      set db := updateRows siteId ⟨name, ca.key, ca.crt,
        Text.rtrimChar '\\' (rootOf env name root), httpd, php⟩
          (stringToCleanAliasArray aliases) w.db with hdb
      set v : World := { (makeRoot env name root w).editHosts
        (Hosts.removeAll env.preg (hostnames w.db siteId)) with db := db } with hv
      have hsite : getById db siteId =
          ⟨name, ca.key, ca.crt, Text.rtrimChar '\\' (rootOf env name root), httpd, php⟩ := by
        rw [hdb, getById_updateRows _ _ _ _ _ haddressed, if_pos rfl]
      have hsiteName := nameAt_of_mem haddressed
      have hdomain : matchesDomain name = true := by
        rcases haccepted with hown | hfree
        · exact hapart.domain _ _ hown
        · exact (nameAt_ne_of_accepted hapart hfree).1
      have hleft : (leave env (getById w.db siteId) httpd v).db = db := db_leave _ _ _ _
      have hdirs : ∀ k, dirKey env w.db (some server) <+: k →
          (leave env (getById w.db siteId) httpd v).disk.tree.isDir k =
            w.disk.tree.isDir k := by
        intro k hk
        rw [isDir_leave]
        exact isDir_makeRoot hkeeps.1 (hmirrored.deep hk)
      apply current_settle
      · rw [hleft, hsite]
      · rw [hleft, hsite]
        exact hdomain
      · rw [hleft]
        exact (hdirs _ (List.prefix_refl _)).trans hmirrored.dir
      · intro s
        rw [hleft]
        exact (hdirs _ (List.prefix_append _ [s])).trans (hmirrored.free s)
      · intro id hid hserver
        have hother : getById db id = getById w.db id := by
          rw [hdb, getById_updateRows _ _ _ _ _ haddressed, if_neg hid]
        have htables : db = { w.db with sites := db.sites, aliases := db.aliases } := rfl
        obtain ⟨htext, hpath⟩ := @madeText_congr env _ _ _ _ htables id hother
          (by rw [hdb, aliasesOf_updateRows, if_neg hid])
        rw [hleft, hother] at hserver
        rw [hleft, hother, hsite, htext, hpath]
        have hname := hnameOf hserver
        refine ⟨hapart.domain _ _ hname, ?_, ?_⟩
        · intro heq
          have hsame : nameAt w.db id = some name := hname.trans (congrArg some heq.symm)
          rcases haccepted with hown | hfree
          · exact hid (hapart.distinct id siteId name hsame hown)
          · exact (nameAt_ne_of_accepted hapart hfree).2 id hsame
        · rw [← h id hserver, ← hroot name root]
          unfold leave
          split
          · next hleaves =>
              apply get_del_configs hapart hmirrored _ haddressed hid hserver
              apply sparesFiles_of_withdraws (hapart.domain _ _ hsiteName) hid hserver
              intro hon
              have hmove := hkeeps.2.2 server hon
              rwa [if_neg fun heq => hleaves.2 (heq.trans hon.symm)] at hmove
          · rfl
  | delete siteId =>
      obtain rfl := delete_done hdone
      intro id hserver
      have hid : id ≠ siteId := by
        rintro rfl
        rw [getById_deleteRows, if_pos rfl] at hserver
        cases hserver
      have hother : getById (deleteRows siteId w.db) id = getById w.db id := by
        rw [getById_deleteRows, if_neg hid]
      have htables : deleteRows siteId w.db = { w.db with
          sites := (deleteRows siteId w.db).sites
          aliases := (deleteRows siteId w.db).aliases } := rfl
      obtain ⟨htext, hpath⟩ := @madeText_congr env _ _ _ _ htables id hother
        (by rw [aliasesOf_deleteRows, if_neg hid])
      rw [hother] at hserver
      show Drive.get _ (vhostPath env (deleteRows siteId w.db) id) =
        some (madeText env (deleteRows siteId w.db) id)
      rw [htext, hpath, ← h id hserver]
      apply get_del_configs hapart hmirrored _ haddressed hid hserver
      exact sparesFiles_of_withdraws (hapart.domain _ _ (nameAt_of_mem haddressed)) hid hserver
        (hkeeps server)
  | uninstall instanceId removable => exact hkeeps.elim

/-! ## The invariant -/

/-- The steps that keep links right. -/
def KeepsLinks (db : Database) (request : Request) : Prop :=
  AcceptedRequest db request ∧ SpelledRequest request ∧ KeepsHosts db request ∧
    KeepsVhosts db request

/-- What holds after each of them, for one server and one host. -/
structure Linked (env : Env) (server : ℤ) (hostname : Text) (w : World) : Prop where
  apart : NamesApart w.db
  mirrors : Mirrors hostname w
  points : Points hostname w
  mirrored : Mirrored env server w
  current : Current env server w

theorem linked_step {server : ℤ} {request : Request} (hliteral : Glob.Literal env.wampPath)
    (h : Linked env server hostname w) (hkeeps : KeepsLinks w.db request)
    (hstep : Step env w request w') : Linked env server hostname w' := by
  obtain ⟨haccepted, hspelled, hhosts, hvhosts⟩ := hkeeps
  constructor
  · exact namesApart_step h.apart haccepted hstep
  · exact mirrors_step h.mirrors hspelled hhosts hstep
  · exact points_step h.points h.mirrors hspelled hhosts hvhosts hstep
  · exact mirrored_step hliteral h.mirrored hvhosts hstep
  · exact current_step h.current h.apart h.mirrored haccepted hvhosts hstep

theorem linked_start {server : ℤ} (hstart : NoSites w.db) (hnamed : InstancesNamed w.db)
    (hserver : FreshServer env w server) (hfresh : ¬ Names hostname w.hosts) :
    Linked env server hostname w := by
  have hnone : ∀ id, getById w.db id = missing := by
    intro id
    have hfind : w.db.sites.find? id = none := by
      rw [Table.find?_eq_none, hstart.1]
      exact List.not_mem_nil
    rw [getById, hfind]
    rfl
  have hunnamed : ∀ id, nameAt w.db id = none := by
    intro id
    rw [nameAt, Option.map_eq_none_iff, Table.find?_eq_none, hstart.1]
    exact List.not_mem_nil
  constructor
  · exact ⟨fun id name hid => by simp [hunnamed] at hid,
      fun id _ name hid => by simp [hunnamed] at hid⟩
  · refine ⟨?_, fun l hl hname => absurd ⟨l, hl, hname⟩ hfresh, fun h => absurd h hfresh, ?_⟩
    · intro id
      rw [hnone, aliasesOf, hstart.2]
      simp [missing]
    · apply iff_of_false hfresh
      rintro ⟨id, site, hrow, -⟩
      rw [hstart.1] at hrow
      exact List.not_mem_nil hrow
  · intro id hassigned
    rw [hnone] at hassigned
    exact absurd rfl hassigned
  · exact hserver.mirrored hstart hnamed
  · intro id hassigned
    rw [hnone] at hassigned
    cases hassigned

/-- The invariant after a run. -/
theorem linked_run {server : ℤ} (hliteral : Glob.Literal env.wampPath) {w₀ : World}
    {requests : List Request} (hstart : NoSites w₀.db) (hnamed : InstancesNamed w₀.db)
    (hserver : FreshServer env w₀ server) (hfresh : ¬ Names hostname w₀.hosts)
    (run : Transition.Run (Transition.Guarded (fun w request => KeepsLinks w.db request)
      (Step env)) w₀ requests w) : Linked env server hostname w :=
  run.invariant (Linked env server hostname) (linked_start hstart hnamed hserver hfresh)
    fun _ _ _ h hstep => linked_step hliteral h hstep.1 hstep.2

/-! ## Following a link -/

variable {server : ℤ}

/-- The virtual hosts in the directory of a server are those of its sites, as their rows
say. -/
theorem included_iff (h : Linked env server hostname w) (content : Text) :
    (∃ key file, w.disk.tree.fileAt key = some file ∧ key ≠ [] ∧
      key.dropLast = dirKey env w.db (some server) ∧ vhostExt <:+ file.spelled ∧
        file.content = content) ↔
      ∃ id, (getById w.db id).httpdInstanceId = some server ∧
        madeText env w.db id = content := by
  have hfile : ∀ id, (getById w.db id).httpdInstanceId = some server →
      Drive.key (vhostPath env w.db id) =
        vhostKey (dirKey env w.db (some server)) (getById w.db id).name := by
    intro id hserver
    obtain ⟨site, hrow, -⟩ := (exists_row_iff (· = some server) nofun).mpr hserver
    have hdomain := h.apart.domain id _ (nameAt_of_mem (List.mem_map.mpr ⟨_, hrow, rfl⟩))
    rw [vhostPath_eq, key_sitePathOf env w.db hdomain (by decide), hserver, vhostKey,
      lower_domain hdomain]
  have hcontent : ∀ id, (getById w.db id).httpdInstanceId = some server →
      ∃ file, w.disk.tree.fileAt
        (vhostKey (dirKey env w.db (some server)) (getById w.db id).name) = some file ∧
          file.content = madeText env w.db id := by
    intro id hserver
    obtain ⟨file, hat, hmade⟩ := Option.map_eq_some_iff.mp (h.current id hserver)
    exact ⟨file, by rw [← hat, hfile id hserver], hmade⟩
  constructor
  · rintro ⟨key, file, hat, hne, hdir, ⟨name, hspelled⟩, rfl⟩
    have hlisted : Listed w.disk (dirKey env w.db (some server)) name :=
      ⟨key, file, hat, hne, hdir, hspelled.symm⟩
    obtain ⟨id, hserver, hname⟩ := (h.mirrored.mirror name).mp hlisted
    obtain ⟨found, hfound, hmade⟩ := hcontent id hserver
    refine ⟨id, hserver, ?_⟩
    -- the file has the name that it is spelled with, so it is the one of this site
    have hlast := w.disk.spelled_key key file hat
    have hkey : key = vhostKey (dirKey env w.db (some server)) name := by
      rw [← List.dropLast_append_getLast? _ hlast, hdir, vhostKey, ← hspelled, Text.lower_append]
      rfl
    rw [hname, ← hkey, hat] at hfound
    rw [← hmade, Option.some.inj hfound]
  · rintro ⟨id, hserver, rfl⟩
    obtain ⟨file, hat, hmade⟩ := hcontent id hserver
    obtain ⟨content, hlisted⟩ := listed_iff.mp ((h.mirrored.mirror _).mpr ⟨id, hserver, rfl⟩)
    refine ⟨_, file, hat, by simp [vhostKey], by simp [vhostKey], ?_, hmade⟩
    rw [hat] at hlisted
    rw [Option.some.inj hlisted]
    exact List.suffix_append _ _

/-- No other site with a web server has the host, and none on the same server has a name
that covers it with its stars. -/
structure OnlyHost (db : Database) (server id : ℤ) (hostname : Text) : Prop where
  unshared : ¬ OwnedElsewhere db id hostname
  uncovered : ∀ other, other ≠ id → (getById db other).httpdInstanceId = some server →
    ∀ pattern ∈ hostnames db other, Glob.matchSegment pattern hostname = false

/-- A host of a site is found at an address where its server listens. -/
theorem lookup_hostname (h : Linked env server hostname w) {id : ℤ}
    (hserver : (getById w.db id).httpdInstanceId = some server)
    (hmem : hostname ∈ hostnames w.db id) (honly : OnlyHost w.db server id hostname) :
    Hosts.lookup w.hosts hostname = some (hostInterface w.db (some server)) := by
  have hassigned : (getById w.db id).httpdInstanceId ≠ none := by
    rw [hserver]
    exact Option.some_ne_none server
  have hnames : Names hostname w.hosts :=
    h.mirrors.mirror.mpr (owned_iff.mpr ⟨id, hassigned, hmem⟩)
  have hpoints := h.points id hassigned hmem honly.unshared
  rw [hserver] at hpoints
  obtain ⟨l, hl, hname⟩ := hnames
  obtain ⟨address, haddress, hline⟩ := h.mirrors.written l hl hname
  have hsame : address = hostInterface w.db (some server) :=
    List.append_cancel_right (hline.symm.trans (hpoints l hl hname))
  exact Hosts.lookup_of_lines (hsame ▸ haddress) (h.mirrors.token ⟨l, hl, hname⟩)
    ⟨l, hl, hname⟩ hpoints

theorem hears_interface (db : Database) (server : Option ℤ) (port : Text) :
    hears (interfaceOf db server ++ ':' :: port) (hostInterface db server, port) = true := by
  rw [hears, Bool.or_eq_true, beq_iff_eq, beq_iff_eq, hostInterface]
  by_cases hany : interfaceOf db server = "0.0.0.0".toList
  · exact .inr (by rw [hany]; rfl)
  · exact .inl (by rw [if_neg hany])

/-- The server that is asked for a host of one of its sites shows the document root of this
site, in whatever order it reads its files. -/
theorem visit_hostname (h : Linked env server hostname w) {covers : Text → Text → Bool}
    (hcovers : Covering covers) {files : List Text} (hfiles : Included env w server files) {id : ℤ}
    (hserver : (getById w.db id).httpdInstanceId = some server)
    (hmem : hostname ∈ hostnames w.db id) (honly : OnlyHost w.db server id hostname)
    (hplain : ∀ other, (getById w.db other).httpdInstanceId = some server →
      PlainRow env w.db other) (https : Bool) :
    Shows (getById w.db id) (visit covers w server files hostname
      (portOf w.db (some server) (schemeOf https))) := by
  have hincluded : ∀ content, content ∈ files ↔
      ∃ other, (getById w.db other).httpdInstanceId = some server ∧
        madeText env w.db other = content :=
    fun content => (hfiles content).trans (included_iff h content)
  obtain ⟨root, hroot, hhosts⟩ := hostsIn_madeText hserver (hplain id hserver)
  refine ⟨root, ?_, hroot⟩
  set port := portOf w.db (some server) (schemeOf https) with hport
  have hown : (⟨[interfaceOf w.db (some server) ++ ':' :: port], hostnames w.db id, root⟩ :
      VirtualHost Text Text Text) ∈ files.flatMap (hostsIn w.db server) := by
    apply List.mem_flatMap.mpr
    refine ⟨madeText env w.db id, (hincluded _).mpr ⟨id, hserver, rfl⟩, ?_⟩
    rw [hhosts, hport]
    cases https with
    | true => exact List.mem_cons_of_mem _ (List.mem_singleton_self _)
    | false => exact List.mem_cons_self
  have hchosen : (VirtualHost.choose hears covers (files.flatMap (hostsIn w.db server))
      (hostInterface w.db (some server), port) hostname).map VirtualHost.root = some root := by
    apply VirtualHost.root_choose hown
    · exact VirtualHost.answers_iff.mpr ⟨⟨_, List.mem_singleton_self _, hears_interface _ _ _⟩,
        hostname, hmem, hcovers.self hostname⟩
    · intro host hhost hanswers
      obtain ⟨content, hcontent, hread⟩ := List.mem_flatMap.mp hhost
      obtain ⟨other, hother, rfl⟩ := (hincluded content).mp hcontent
      obtain ⟨root', -, hhosts'⟩ := hostsIn_madeText hother (hplain other hother)
      rw [hhosts'] at hread
      have hboth : host.names = hostnames w.db other ∧ host.root = root' := by
        rcases List.mem_pair.mp hread with rfl | rfl <;> exact ⟨rfl, rfl⟩
      obtain ⟨-, pattern, hpattern, hcovered⟩ := VirtualHost.answers_iff.mp hanswers
      -- another site's names do not cover the host
      have hsame : other = id := by
        by_contra hne
        rw [hboth.1] at hpattern
        rcases hcovers.stars pattern hostname hcovered with rfl | hstars
        · apply honly.unshared
          apply ownedElsewhere_iff.mpr
          exact ⟨other, hne, by rw [hother]; exact Option.some_ne_none server, hpattern⟩
        · rw [honly.uncovered other hne hother pattern hpattern] at hstars
          cases hstars
      subst hsame
      rw [hhosts] at hhosts'
      have hroots := congrArg VirtualHost.root (List.cons.inj hhosts').1
      exact hboth.2.trans hroots.symm
  rw [visit, lookup_hostname h hserver hmem honly, Option.bind_some, hchosen]

/-- After every run of creations, updates and deletions that keep links right: for each host
that only one site has, the server of the site shows the document root of this site; and so
do the links of the site, the one on the page of sites and the one that is shown after an
install. -/
theorem links_lead_home (hliteral : Glob.Literal env.wampPath) {w₀ : World}
    {requests : List Request} (hstart : NoSites w₀.db) (hnamed : InstancesNamed w₀.db)
    (hfresh : FreshServer env w₀ server)
    (run : Transition.Run (Transition.Guarded (fun w request => KeepsLinks w.db request)
      (Step env)) w₀ requests w) {id : ℤ} {site : SiteRow} (hrow : (id, site) ∈ w.db.sites.rows)
    (hserver : site.httpdInstanceId = some server)
    (hplain : ∀ other, (getById w.db other).httpdInstanceId = some server →
      PlainRow env w.db other)
    {covers : Text → Text → Bool} (hcovers : Covering covers) {files : List Text}
    (hfiles : Included env w server files) {https : Bool} {n : ℕ}
    (hport : portOf w.db (some server) (schemeOf https) = Nat.toDigits 10 n) {host : Text}
    (hhost : host ∈ hostnames w.db id) (hnew : ¬ Names host w₀.hosts)
    (honly : OnlyHost w.db server id host) :
    Shows site (visit covers w server files host (Nat.toDigits 10 n)) ∧
      (host = site.name → Shows site (follow covers w server files (getUrl w.db id https)) ∧
        Shows site (follow covers w server files (browse w.db site https))) := by
  have hfound : getById w.db id = site := by
    rw [getById, Table.find?_eq_some.mpr hrow]
    rfl
  have hassigned : (getById w.db id).httpdInstanceId = some server := by
    rw [hfound]
    exact hserver
  have hlinked := linked_run hliteral hstart hnamed hfresh hnew run
  have hvisit := visit_hostname hlinked hcovers hfiles hassigned hhost honly hplain https
  rw [hport, hfound] at hvisit
  apply And.intro hvisit
  rintro rfl
  have hdomain : matchesDomain site.name = true := by
    have hname := nameAt_of_mem (List.mem_map.mpr ⟨_, hrow, rfl⟩ : id ∈ _)
    rw [hfound] at hname
    exact hlinked.apart.domain id site.name hname
  have hcolon : ':' ∉ site.name := by
    intro hmem
    rcases domain_chars hdomain ':' hmem with hchar | hfeed
    · exact absurd hchar (by decide)
    · exact absurd hfeed (by decide)
  obtain ⟨hgetUrl, hbrowse⟩ := readUrl_links hrow hcolon (hserver ▸ hport)
  apply And.intro
  · rw [follow, hgetUrl]
    exact hvisit
  · rw [follow, hbrowse]
    exact hvisit

section Sample

/-- A site is created on one server. -/
def createdWorld : World := (handle sampleEnv (sampleCreate "a" "www" (some 2)) sampleWorld).world

/-- It is moved to another server under a new name. -/
def movedWorld : World := (handle sampleEnv (sampleUpdate 1 "c" "www" (some 1)) createdWorld).world

theorem on_createdWorld {id server : ℤ}
    (hon : (getById createdWorld.db id).httpdInstanceId = some server) : id = 1 := by
  obtain ⟨site, hrow, -⟩ := (exists_row_iff (· = some server) nofun).mpr hon
  have honly : ∀ row ∈ createdWorld.db.sites.rows, row.1 = 1 := by decide
  exact honly _ hrow

theorem on_movedWorld {id server : ℤ}
    (hon : (getById movedWorld.db id).httpdInstanceId = some server) : id = 1 := by
  obtain ⟨site, hrow, -⟩ := (exists_row_iff (· = some server) nofun).mpr hon
  have honly : ∀ row ∈ movedWorld.db.sites.rows, row.1 = 1 := by decide
  exact honly _ hrow

theorem keepsLinks_created :
    KeepsLinks sampleWorld.db (sampleCreate "a" "www" (some 2)) := by
  refine ⟨(by decide : doAddAccepts _ _ = true), (by decide : Spelled _ _), fun _ => by decide,
    by decide, ?_⟩
  intro server _ other hother
  obtain ⟨id, -, hon, -⟩ := hother
  obtain ⟨site, hrow, -⟩ := (exists_row_iff (· = some server) nofun).mpr hon
  exact absurd hrow List.not_mem_nil

theorem keepsLinks_moved :
    KeepsLinks createdWorld.db (sampleUpdate 1 "c" "www" (some 1)) := by
  have halone : ∀ server other, ¬ Shares createdWorld.db 1 server other := by
    intro server other hother
    obtain ⟨id, hid, hon, -⟩ := hother
    exact hid (on_createdWorld hon)
  refine ⟨.inr (by decide), (by decide : Spelled _ _), ⟨fun _ => by decide, ?_⟩, by decide,
    fun server _ other hother => absurd hother (halone _ _), ?_⟩
  · intro host _ hother
    obtain ⟨id, site, hrow, hne, -⟩ := hother
    have honly : ∀ row ∈ createdWorld.db.sites.rows, row.1 = 1 := by decide
    exact absurd (honly _ hrow) hne
  · intro server hserver
    obtain rfl : (2 : ℤ) = server := Option.some.inj hserver
    rw [if_neg (by decide)]
    exact ⟨fun other hother => absurd hother (halone _ _), .inl (by decide)⟩

theorem run_movedWorld :
    Transition.Run (Transition.Guarded (fun w request => KeepsLinks w.db request)
      (Step sampleEnv)) sampleWorld
      [sampleCreate "a" "www" (some 2), sampleUpdate 1 "c" "www" (some 1)] movedWorld :=
  .snoc (.snoc (.nil _) ⟨keepsLinks_created, trivial, rfl⟩) ⟨keepsLinks_moved, by decide, rfl⟩

theorem included_movedWorld :
    Included sampleEnv movedWorld 1 [madeText sampleEnv movedWorld.db 1] := by
  have hlinked : Linked sampleEnv 1 "c".toList movedWorld := linked_run (by decide) ⟨rfl, rfl⟩
    instancesNamed_sample freshServer_sample (by decide) run_movedWorld
  have hon : (getById movedWorld.db 1).httpdInstanceId = some 1 := by decide
  intro content
  rw [included_iff hlinked, List.mem_singleton]
  apply Iff.intro
  · intro heq
    exact ⟨1, hon, heq.symm⟩
  · intro hmade
    obtain ⟨id, hid, hmade⟩ := hmade
    rw [← hmade, on_movedWorld hid]

theorem plainRow_movedWorld : PlainRow sampleEnv movedWorld.db 1 := by
  have happache : httpdType movedWorld.db (getById movedWorld.db 1).httpdInstanceId =
      "apache".toList := by decide
  rw [PlainRow, if_pos happache]
  constructor
  · decide
  · decide
  · exact ⟨⟨by decide, by decide, by decide⟩, by decide⟩
  · decide
  · decide

theorem onlyHost_movedWorld : OnlyHost movedWorld.db 1 1 "c".toList := by
  constructor
  · intro hother
    obtain ⟨id, site, hrow, hne, -⟩ := hother
    have hrows : ∀ row ∈ movedWorld.db.sites.rows, row.1 = 1 := by decide
    exact hne (hrows _ hrow)
  · exact fun other hne hon => absurd (on_movedWorld hon) hne

/-- After the move both links lead to the folder of the site. -/
theorem links_lead_home_moved :
    Shows (getById movedWorld.db 1) (follow (fun pattern name => pattern == name) movedWorld 1
      [madeText sampleEnv movedWorld.db 1] (getUrl movedWorld.db 1 true)) := by
  have hplain : ∀ other, (getById movedWorld.db other).httpdInstanceId = some 1 →
      PlainRow sampleEnv movedWorld.db other := by
    intro other hon
    rw [on_movedWorld hon]
    exact plainRow_movedWorld
  have hcovers : Covering fun pattern name => pattern == name := by
    constructor
    · exact fun name => beq_self_eq_true name
    · exact fun pattern name heq => .inl (eq_of_beq heq)
  have hrow : (1, getById movedWorld.db 1) ∈ movedWorld.db.sites.rows := List.mem_cons_self
  have hport : portOf movedWorld.db (some 1) (schemeOf true) = Nat.toDigits 10 443 := by decide
  have hhost : "c".toList ∈ hostnames movedWorld.db 1 := by decide
  have hlinks := links_lead_home (by decide) ⟨rfl, rfl⟩ instancesNamed_sample freshServer_sample
    run_movedWorld hrow (by decide) hplain hcovers included_movedWorld hport hhost (by decide)
    onlyHost_movedWorld
  exact (hlinks.2 (by decide)).1

end Sample

end Site

end WampManager
