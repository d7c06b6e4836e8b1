/-
# The virtual host of an Apache site, read back

The virtual host of a site is put together from the texts of its row without any
escaping. Here it is compared with the statements that it is meant to make: it is
read as these exactly if each text stands as it is where it was put, the names and the
addresses as single words and the paths in quotation marks, which the document root
of Apache is put in with its backslashes.
-/

import WampManager.Lib.ApacheConf
import WampManager.VhostNames

namespace WampManager

namespace Site

open ApacheConf (Statement Says Plain Quotable indent)

/-! ## What a virtual host should say -/

/-- A path up to the direction of its slashes. -/
def SameRoot (root documentRoot : Text) : Prop :=
  FilePath.slash root '/' = FilePath.slash documentRoot '/'

namespace Vhost

variable (v : Vhost)

/-- The name of the site and its aliases. -/
def names : List Text := v.name :: v.aliases.map (hostnameOf v.name)

/-- The directives for a PHP version. -/
def fcgidStatements (phpCgi : Text) : List Statement :=
  [⟨"FcgidMaxRequestLen".toList, ["50000000".toList]⟩,
   ⟨"FcgidIOTimeout".toList, ["7200".toList]⟩,
   ⟨"FcgidConnectTimeout".toList, ["7200".toList]⟩,
   ⟨"FcgidBusyTimeout".toList, ["7200".toList]⟩,
   ⟨"FcgidIdleTimeout".toList, ["7200".toList]⟩,
   ⟨"FcgidProcessLifeTime".toList, ["7200".toList]⟩,
   ⟨"FcgidWrapper".toList, [phpCgi, ".php".toList]⟩]

/-- The block for a port. -/
def apacheBlock (root port : Text) (phpCgi : Option Text) (ssl : List Statement) :
    List Statement :=
  [⟨"<VirtualHost".toList, [v.interface ++ ':' :: port]⟩,
   ⟨"DocumentRoot".toList, [root]⟩,
   ⟨"ServerName".toList, [v.name]⟩] ++
  v.aliases.map (fun a => ⟨"ServerAlias".toList, [hostnameOf v.name a]⟩) ++
  phpCgi.elim [] fcgidStatements ++
  [⟨"<Directory".toList, [root]⟩] ++
  phpCgi.elim [] (fun _ => [⟨"AddHandler".toList, ["fcgid-script".toList, ".php".toList]⟩]) ++
  [⟨"Options".toList, ["all".toList]⟩,
   ⟨"AllowOverride".toList, ["all".toList]⟩,
   ⟨"Require".toList, ["all".toList, "granted".toList]⟩,
   ⟨"</Directory".toList, []⟩] ++
  ssl ++ [⟨"</VirtualHost".toList, []⟩]

/-- The two blocks of a site. -/
def apacheStatements (root : Text) (phpCgi : Option Text) : List Statement :=
  v.apacheBlock root v.httpPort phpCgi [] ++
    v.apacheBlock root v.httpsPort phpCgi
      [⟨"SSLEngine".toList, ["On".toList]⟩,
       ⟨"SSLCertificateFile".toList, [v.sslCrtFile]⟩,
       ⟨"SSLCertificateKeyFile".toList, [v.sslKeyFile]⟩]

/-! ## Its lines -/

/-- The lines for a PHP version, each with what it should say. -/
def fcgidLines (phpCgi : Text) : List (Text × Statement) :=
  (["FcgidMaxRequestLen 50000000".toList, "FcgidIOTimeout 7200".toList,
    "FcgidConnectTimeout 7200".toList, "FcgidBusyTimeout 7200".toList,
    "FcgidIdleTimeout 7200".toList, "FcgidProcessLifeTime 7200".toList,
    "FcgidWrapper".toList ++ ' ' :: ('"' :: phpCgi ++ '"' :: " .php".toList)].map
      (indent 1)).zip (fcgidStatements phpCgi)

/-- The lines of a block up to its end. -/
def apacheLines (root port : Text) (phpCgi : Option Text) : List (Text × Statement) :=
  [(indent 0 ("<VirtualHost".toList ++ ' ' :: (v.interface ++ ':' :: port) ++ ['>']),
    ⟨"<VirtualHost".toList, [v.interface ++ ':' :: port]⟩),
   (indent 1 ("DocumentRoot".toList ++ ' ' :: ('"' :: v.documentRoot ++ ['"'])),
    ⟨"DocumentRoot".toList, [root]⟩),
   (indent 1 ("ServerName".toList ++ ' ' :: v.name), ⟨"ServerName".toList, [v.name]⟩)] ++
  v.aliases.map (fun a => (indent 1 ("ServerAlias".toList ++ ' ' :: hostnameOf v.name a),
    ⟨"ServerAlias".toList, [hostnameOf v.name a]⟩)) ++
  phpCgi.elim [] fcgidLines ++
  [(indent 1 ("<Directory".toList ++ ' ' :: ('"' :: v.documentRoot ++ ['"']) ++ ['>']),
    ⟨"<Directory".toList, [root]⟩)] ++
  phpCgi.elim [] (fun _ => [(indent 2 "AddHandler fcgid-script .php".toList,
    ⟨"AddHandler".toList, ["fcgid-script".toList, ".php".toList]⟩)]) ++
  [(indent 2 "Options all".toList, ⟨"Options".toList, ["all".toList]⟩),
   (indent 2 "AllowOverride all".toList, ⟨"AllowOverride".toList, ["all".toList]⟩),
   (indent 2 "Require all granted".toList,
    ⟨"Require".toList, ["all".toList, "granted".toList]⟩),
   (indent 1 "</Directory>".toList, ⟨"</Directory".toList, []⟩)]

/-- The lines for the certificate. -/
def sslLines : List (Text × Statement) :=
  [(indent 1 "SSLEngine On".toList, ⟨"SSLEngine".toList, ["On".toList]⟩),
   (indent 1 ("SSLCertificateFile".toList ++ ' ' :: ('"' :: v.sslCrtFile ++ ['"'])),
    ⟨"SSLCertificateFile".toList, [v.sslCrtFile]⟩),
   (indent 1 ("SSLCertificateKeyFile".toList ++ ' ' :: ('"' :: v.sslKeyFile ++ ['"'])),
    ⟨"SSLCertificateKeyFile".toList, [v.sslKeyFile]⟩)]

/-- The end of a block. -/
def closing : Text := "</VirtualHost>".toList

/-- The FastCGI lines of a host. -/
def fcgidText (phpCgi : Text) : Text := Text.unlines ((fcgidLines phpCgi).map Prod.fst)

/-- The handler line of a host. -/
def handlerText : Text := line 2 "AddHandler fcgid-script .php".toList

theorem unlines_nil : Text.unlines [] = [] := rfl

theorem unlines_cons_indent (tabs : ℕ) (t : Text) (ls : List Text) :
    Text.unlines (indent tabs t :: ls) = line tabs t ++ Text.unlines ls := by
  simp [Text.unlines, indent, line]

/-- A text in quotation marks behind a name. -/
theorem line_quoted (tabs : ℕ) {name opening : Text} (h : opening = name ++ [' ', '"']) (t : Text) :
    line tabs (opening ++ t ++ ['"']) = line tabs (name ++ ' ' :: ('"' :: t ++ ['"'])) := by
  rw [h]
  simp

/-- A block consists of its lines. -/
theorem apacheBody_eq (root port : Text) (phpCgi : Option Text) :
    v.apacheBody port (phpCgi.elim [] fcgidText) (phpCgi.elim [] fun _ => handlerText) =
      Text.unlines ((v.apacheLines root port phpCgi).map Prod.fst) := by
  have haliases : (v.aliases.flatMap fun a => line 1 ("ServerAlias ".toList ++ hostnameOf v.name a)) =
      Text.unlines ((v.aliases.map fun a =>
        (indent 1 ("ServerAlias".toList ++ ' ' :: hostnameOf v.name a),
          (⟨"ServerAlias".toList, [hostnameOf v.name a]⟩ : Statement))).map Prod.fst) := by
    induction v.aliases with
    | nil => rfl
    | cons a as ih =>
        rw [List.flatMap_cons, ih, List.map_cons, List.map_cons, unlines_cons_indent]
        rfl
  have hfcgid : phpCgi.elim [] fcgidText =
      Text.unlines ((phpCgi.elim [] fcgidLines).map Prod.fst) := by
    cases phpCgi <;> rfl
  have hhandler : (phpCgi.elim [] fun _ => handlerText) =
      Text.unlines ((phpCgi.elim [] fun _ => [(indent 2 "AddHandler fcgid-script .php".toList,
        (⟨"AddHandler".toList, ["fcgid-script".toList, ".php".toList]⟩ : Statement))]).map
          Prod.fst) := by
    cases phpCgi <;> rfl
  have hopening : "<VirtualHost ".toList ++ v.interface ++ ':' :: port ++ ">\n".toList =
      line 0 ("<VirtualHost".toList ++ ' ' :: (v.interface ++ ':' :: port) ++ ['>']) := by
    rw [line]
    simp only [List.append_assoc, List.cons_append]
    rfl
  have hdirectory : line 1 ("<Directory \"".toList ++ v.documentRoot ++ "\">".toList) =
      line 1 ("<Directory".toList ++ ' ' :: ('"' :: v.documentRoot ++ ['"']) ++ ['>']) := by
    simp only [List.append_assoc, List.cons_append]
    rfl
  delta apacheBody apacheLines
  rw [haliases, hfcgid, hhandler, hopening, hdirectory]
  simp only [List.map_append, Text.unlines_append, List.map_cons, List.map_nil,
    unlines_cons_indent, unlines_nil, List.append_nil]
  simp only [List.append_assoc]
  rfl

/-- The lines of a virtual host but its last one. -/
def apacheLinesOf (root : Text) (phpCgi : Option Text) : List Text :=
  (v.apacheLines root v.httpPort phpCgi).map Prod.fst ++ closing :: [] ::
    (v.apacheLines root v.httpsPort phpCgi ++ v.sslLines).map Prod.fst

/-- The virtual host consists of its lines. -/
theorem apache_eq (root : Text) (phpCgi : Option Text) :
    v.apache (phpCgi.elim [] fcgidText) (phpCgi.elim [] fun _ => handlerText) =
      Text.unlines (v.apacheLinesOf root phpCgi) ++ closing := by
  have hssl : line 1 "SSLEngine On".toList ++
      (line 1 ("SSLCertificateFile \"".toList ++ v.sslCrtFile ++ ['"']) ++
        line 1 ("SSLCertificateKeyFile \"".toList ++ v.sslKeyFile ++ ['"'])) =
      Text.unlines (v.sslLines.map Prod.fst) := by
    have hcrt : "SSLCertificateFile \"".toList = "SSLCertificateFile".toList ++ [' ', '"'] := by
      decide
    have hkey : "SSLCertificateKeyFile \"".toList =
        "SSLCertificateKeyFile".toList ++ [' ', '"'] := by decide
    delta sslLines
    rw [line_quoted 1 hcrt, line_quoted 1 hkey]
    simp only [List.map_cons, List.map_nil, unlines_cons_indent, unlines_nil, List.append_nil]
  have hclosing (ls : List Text) : Text.unlines (closing :: [] :: ls) =
      closing ++ ("\n\n".toList ++ Text.unlines ls) := by
    simp [Text.unlines]
  delta apache apacheLinesOf
  rw [apacheBody_eq v root, apacheBody_eq v root]
  simp only [Text.unlines_append, hclosing, List.map_append, ← hssl, List.append_assoc]
  delta closing
  rfl

/-- The FastCGI lines of a site. -/
theorem fcgidText_eq (env : Env) (db : Database) (phpInstanceId : ℤ) :
    apacheWrapper env db phpInstanceId =
      fcgidText (FilePath.slash (env.binPath ++ '\\' :: instanceName db (some phpInstanceId) ++
        "\\php-cgi.exe".toList) '/') := by
  delta apacheWrapper fcgidText fcgidLines fcgidStatements
  simp only [List.map_cons, List.map_nil, List.zip_cons_cons, List.zip_nil_right,
    unlines_cons_indent, unlines_nil, List.append_nil, List.append_assoc]
  rfl

/-! ## Line by line -/

/-- The direction of a slash. -/
def turn (c : Char) : Char := if FilePath.isSep c then '/' else c

theorem map_turn_of_sameRoot {root documentRoot : Text} (h : SameRoot root documentRoot) :
    root.map turn = documentRoot.map turn := h

/-- A path in quotation marks. -/
theorem says_root_iff {tabs : ℕ} {name root documentRoot : Text} (hname : Plain name)
    (hhead : name.head? ≠ some '#') (hsection : name.head? ≠ some '<')
    (hroot : root.map turn = documentRoot.map turn) :
    Says (indent tabs (name ++ ' ' :: ('"' :: documentRoot ++ ['"']))) ⟨name, [root]⟩ ↔
      root = documentRoot ∧ Quotable documentRoot := by
  have hclosed : ApacheConf.Closed ('"' :: documentRoot ++ ['"']) :=
    ApacheConf.Closed.append ⟨'"', rfl, by decide⟩ _
  rw [ApacheConf.says_directive_iff hname hhead hsection hclosed]
  exact ApacheConf.words_quoted_iff (by decide) hroot

/-- The lines for a PHP version, whose path ends in no backslash. -/
theorem says_fcgidLines_iff {phpCgi : Text} (hlast : phpCgi.getLast? ≠ some '\\') :
    (∀ l ∈ fcgidLines phpCgi, Says l.1 l.2) ↔ Quotable phpCgi := by
  have hwrapper : Says (indent 1 ("FcgidWrapper".toList ++ ' ' ::
        ('"' :: phpCgi ++ '"' :: " .php".toList)))
      ⟨"FcgidWrapper".toList, [phpCgi, ".php".toList]⟩ ↔ Quotable phpCgi := by
    have hclosed : ApacheConf.Closed ('"' :: phpCgi ++ '"' :: " .php".toList) := by
      have hcons : '"' :: phpCgi ++ '"' :: " .php".toList =
          ('"' :: phpCgi ++ "\" .ph".toList) ++ ['p'] := by simp
      rw [hcons]
      exact ApacheConf.Closed.append ⟨'p', rfl, by decide⟩ _
    rw [ApacheConf.says_directive_iff (by decide) (by decide) (by decide) hclosed,
      ← ApacheConf.words_quoted_append_iff hlast " .php".toList]
    exact Iff.rfl
  rw [← hwrapper]
  delta fcgidLines fcgidStatements
  simp only [List.map_cons, List.map_nil, List.zip_cons_cons, List.zip_nil_right,
    List.forall_mem_cons, List.not_mem_nil, false_imp_iff, implies_true, and_true]
  constructor
  · exact fun h => h.2.2.2.2.2.2
  · exact fun h => ⟨by decide, by decide, by decide, by decide, by decide, by decide, h⟩

/-- What a site may put into its virtual host: an address and names that are plain words,
and paths that are quotable. -/
structure ApacheBlockPlain (root port : Text) (phpCgi : Option Text) : Prop where
  address : Plain (v.interface ++ ':' :: port)
  root : root = v.documentRoot ∧ Quotable v.documentRoot
  names : ∀ hostname ∈ v.names, Plain hostname ∧ hostname.getLast? ≠ some '\\'
  phpCgi : ∀ path ∈ phpCgi, Quotable path

/-- The lines of a block. -/
theorem says_apacheLines_iff {root port : Text} {phpCgi : Option Text}
    (hroot : SameRoot root v.documentRoot) (hphp : ∀ path ∈ phpCgi, path.getLast? ≠ some '\\') :
    (∀ l ∈ v.apacheLines root port phpCgi, Says l.1 l.2) ↔
      v.ApacheBlockPlain root port phpCgi := by
  have haddress : Says (indent 0 ("<VirtualHost".toList ++
        ' ' :: (v.interface ++ ':' :: port) ++ ['>']))
      ⟨"<VirtualHost".toList, [v.interface ++ ':' :: port]⟩ ↔
        Plain (v.interface ++ ':' :: port) := by
    rw [ApacheConf.says_section_iff (by decide) (by decide), ApacheConf.words_eq_self_iff]
  have hdocumentRoot : Says (indent 1 ("DocumentRoot".toList ++
        ' ' :: ('"' :: v.documentRoot ++ ['"']))) ⟨"DocumentRoot".toList, [root]⟩ ↔
      root = v.documentRoot ∧ Quotable v.documentRoot :=
    says_root_iff (by decide) (by decide) (by decide) (map_turn_of_sameRoot hroot)
  have hdirectory : Says (indent 1 ("<Directory".toList ++
        ' ' :: ('"' :: v.documentRoot ++ ['"']) ++ ['>'])) ⟨"<Directory".toList, [root]⟩ ↔
      root = v.documentRoot ∧ Quotable v.documentRoot := by
    rw [ApacheConf.says_section_iff (by decide) (by decide)]
    exact ApacheConf.words_quoted_iff (by decide) (map_turn_of_sameRoot hroot)
  have hword (name : Text) (hname : Plain name ∧ name.head? ≠ some '#' ∧ name.head? ≠ some '<')
      (hostname : Text) : Says (indent 1 (name ++ ' ' :: hostname)) ⟨name, [hostname]⟩ ↔
        Plain hostname ∧ hostname.getLast? ≠ some '\\' :=
    ApacheConf.says_word_iff hname.1 hname.2.1 hname.2.2
  have hfcgid : (∀ l ∈ phpCgi.elim [] fcgidLines, Says l.1 l.2) ↔
      ∀ path ∈ phpCgi, Quotable path := by
    cases phpCgi with
    | none => simp
    | some path =>
        simp only [Option.mem_def, Option.some.injEq, forall_eq'] at hphp ⊢
        exact says_fcgidLines_iff hphp
  have hhandler : ∀ l ∈ phpCgi.elim [] (fun _ => [(indent 2 "AddHandler fcgid-script .php".toList,
      (⟨"AddHandler".toList, ["fcgid-script".toList, ".php".toList]⟩ : Statement))]),
        Says l.1 l.2 := by
    cases phpCgi with
    | none => simp
    | some path =>
        intro l hl
        rw [List.mem_singleton.mp hl]
        decide
  delta apacheLines
  simp only [List.forall_mem_append, List.forall_mem_cons, List.forall_mem_map, List.not_mem_nil,
    false_imp_iff, implies_true, and_true, haddress, hdocumentRoot, hdirectory, hfcgid,
    hword "ServerName".toList (by decide), hword "ServerAlias".toList (by decide)]
  constructor
  · rintro ⟨⟨⟨⟨⟨⟨haddress, hroot, hname⟩, haliases⟩, hphp⟩, -⟩, -⟩, -⟩
    refine ⟨haddress, hroot, List.forall_mem_cons.mpr ⟨hname, ?_⟩, hphp⟩
    exact List.forall_mem_map.mpr haliases
  · rintro ⟨haddress, hroot, hnames, hphp⟩
    obtain ⟨hname, haliases⟩ := List.forall_mem_cons.mp hnames
    exact ⟨⟨⟨⟨⟨⟨haddress, hroot, hname⟩, List.forall_mem_map.mp haliases⟩, hphp⟩, hroot⟩,
      hhandler⟩, by decide, by decide, by decide, by decide⟩

/-! ## The whole file -/

/-- The texts that a virtual host is made from. -/
def texts (phpCgi : Option Text) : List Text :=
  [v.interface ++ ':' :: v.httpPort, v.interface ++ ':' :: v.httpsPort, v.documentRoot] ++
    v.names ++ [v.sslCrtFile, v.sslKeyFile] ++ phpCgi.toList

/-- A line that is not empty. -/
abbrev Whole (l : Text) : Prop := l ≠ [] ∧ OneLine l

theorem whole_indent (tabs : ℕ) {name rest : Text} (hname : Whole name) (hrest : OneLine rest) :
    Whole (indent tabs (name ++ rest)) := by
  refine ⟨fun hnil => ?_, OneLine.append ?_ (hname.2.append hrest)⟩
  · exact hname.1 (List.append_eq_nil_iff.mp (List.append_eq_nil_iff.mp hnil).2).1
  · exact fun hmem => absurd (List.mem_replicate.mp hmem).2 (by decide)

theorem oneLine_quoted {t : Text} (h : OneLine t) : OneLine (' ' :: ('"' :: t ++ ['"'])) :=
  ((h.cons (by decide)).append (by decide)).cons (by decide)

theorem whole_fcgidLines {phpCgi : Text} (h : OneLine phpCgi) :
    ∀ l ∈ fcgidLines phpCgi, Whole l.1 := by
  have hpath : OneLine (' ' :: ('"' :: phpCgi ++ '"' :: " .php".toList)) :=
    ((h.cons (by decide)).append (by decide)).cons (by decide)
  delta fcgidLines fcgidStatements
  simp only [List.map_cons, List.map_nil, List.zip_cons_cons, List.zip_nil_right,
    List.forall_mem_cons, List.not_mem_nil, false_imp_iff, implies_true, and_true]
  exact ⟨by decide, by decide, by decide, by decide, by decide, by decide,
    whole_indent 1 (by decide) hpath⟩

theorem whole_apacheLines {root port : Text} {phpCgi : Option Text}
    (haddress : OneLine (v.interface ++ ':' :: port)) (hroot : OneLine v.documentRoot)
    (hnames : ∀ hostname ∈ v.names, OneLine hostname) (hphp : ∀ path ∈ phpCgi, OneLine path) :
    ∀ l ∈ v.apacheLines root port phpCgi, Whole l.1 := by
  obtain ⟨hname, haliases⟩ := List.forall_mem_cons.mp hnames
  have hfcgid : ∀ l ∈ phpCgi.elim [] fcgidLines, Whole l.1 := by
    cases phpCgi with
    | none => simp
    | some path => exact whole_fcgidLines (hphp path rfl)
  have hhandler : ∀ l ∈ phpCgi.elim [] (fun _ => [(indent 2 "AddHandler fcgid-script .php".toList,
      (⟨"AddHandler".toList, ["fcgid-script".toList, ".php".toList]⟩ : Statement))]),
        Whole l.1 := by
    cases phpCgi with
    | none => simp
    | some path =>
        intro l hl
        rw [List.mem_singleton.mp hl]
        decide
  delta apacheLines
  simp only [List.forall_mem_append, List.forall_mem_cons, List.forall_mem_map, List.not_mem_nil,
    false_imp_iff, implies_true, and_true]
  refine ⟨⟨⟨⟨⟨⟨?_, ?_, ?_⟩, ?_⟩, hfcgid⟩, ?_⟩, hhandler⟩, by decide, by decide, by decide,
    by decide⟩
  · rw [List.append_assoc]
    exact whole_indent 0 (by decide) ((haddress.cons (by decide)).append (by decide))
  · exact whole_indent 1 (by decide) (oneLine_quoted hroot)
  · exact whole_indent 1 (by decide) (hname.cons (by decide))
  · intro a ha
    have halias := haliases _ (List.mem_map_of_mem ha)
    exact whole_indent 1 (by decide) (halias.cons (by decide))
  · rw [List.append_assoc]
    exact whole_indent 1 (by decide) ((oneLine_quoted hroot).append (by decide))

/-- The blocks of texts of one line each consist of whole lines. -/
theorem whole_of_texts {phpCgi : Option Text} (h : ∀ t ∈ v.texts phpCgi, OneLine t)
    (root : Text) :
    (∀ l ∈ v.apacheLines root v.httpPort phpCgi, Whole l.1) ∧
      ∀ l ∈ v.apacheLines root v.httpsPort phpCgi ++ v.sslLines, Whole l.1 := by
  simp only [texts, List.forall_mem_append, List.forall_mem_cons, List.not_mem_nil,
    false_imp_iff, implies_true, and_true] at h
  obtain ⟨⟨⟨⟨hhttp, hhttps, hroot⟩, hnames⟩, hcrt, hkey⟩, hphp⟩ := h
  have hpath : ∀ path ∈ phpCgi, OneLine path := fun path hpath =>
    hphp path (Option.mem_toList.mpr hpath)
  refine ⟨v.whole_apacheLines hhttp hroot hnames hpath, List.forall_mem_append.mpr
    ⟨v.whole_apacheLines hhttps hroot hnames hpath, ?_⟩⟩
  delta sslLines
  simp only [List.forall_mem_cons, List.not_mem_nil, false_imp_iff, implies_true, and_true]
  exact ⟨by decide, whole_indent 1 (by decide) (oneLine_quoted hcrt),
    whole_indent 1 (by decide) (oneLine_quoted hkey)⟩

/-- What a block should say, line by line. -/
theorem apacheBlock_eq (root port : Text) (phpCgi : Option Text) (ssl : List Statement) :
    v.apacheBlock root port phpCgi ssl =
      (v.apacheLines root port phpCgi).map Prod.snd ++ (ssl ++ [⟨"</VirtualHost".toList, []⟩]) := by
  have haliases : (v.aliases.map fun a => (indent 1 ("ServerAlias".toList ++ ' ' ::
      hostnameOf v.name a), (⟨"ServerAlias".toList, [hostnameOf v.name a]⟩ : Statement))).map
        Prod.snd = v.aliases.map fun a => ⟨"ServerAlias".toList, [hostnameOf v.name a]⟩ := by
    rw [List.map_map]
    rfl
  delta apacheBlock apacheLines
  cases phpCgi with
  | none =>
      simp only [List.map_append, haliases, List.append_assoc]
      rfl
  | some path =>
      simp only [List.map_append, haliases, List.append_assoc]
      rfl

/-- A virtual host of whole lines says what it should exactly if each line does. -/
theorem read_apache_iff_says {phpCgi : Option Text} (h : ∀ t ∈ v.texts phpCgi, OneLine t)
    (root : Text) :
    ApacheConf.read (v.apache (phpCgi.elim [] fcgidText) (phpCgi.elim [] fun _ => handlerText)) =
        v.apacheStatements root phpCgi ↔
      (∀ l ∈ v.apacheLines root v.httpPort phpCgi, Says l.1 l.2) ∧
        ∀ l ∈ v.apacheLines root v.httpsPort phpCgi ++ v.sslLines, Says l.1 l.2 := by
  obtain ⟨hhttp, hhttps⟩ := v.whole_of_texts h root
  set http := v.apacheLines root v.httpPort phpCgi with hhttpLines
  set https := v.apacheLines root v.httpsPort phpCgi ++ v.sslLines with hhttpsLines
  have hmeant : Says closing ⟨"</VirtualHost".toList, []⟩ := by decide
  have hlines : ApacheConf.read (v.apache (phpCgi.elim [] fcgidText)
      (phpCgi.elim [] fun _ => handlerText)) =
        ApacheConf.readLines (http.map Prod.fst ++ closing :: [] ::
          (https.map Prod.fst ++ [closing])) := by
    have hone : ∀ l ∈ v.apacheLinesOf root phpCgi, OneLine l := by
      rw [apacheLinesOf, List.forall_mem_append, List.forall_mem_cons, List.forall_mem_cons,
        List.forall_mem_map, List.forall_mem_map]
      exact ⟨fun l hl => (hhttp l hl).2, by decide, by decide, fun l hl => (hhttps l hl).2⟩
    rw [v.apache_eq root, ApacheConf.read, Text.splitOn_unlines_append hone]
    simp only [apacheLinesOf, List.append_assoc, List.cons_append]
    rfl
  have hmeaning : v.apacheStatements root phpCgi =
      http.map Prod.snd ++ ⟨"</VirtualHost".toList, []⟩ ::
        (https.map Prod.snd ++ [⟨"</VirtualHost".toList, []⟩]) := by
    rw [apacheStatements, apacheBlock_eq, apacheBlock_eq, hhttpLines, hhttpsLines,
      List.map_append]
    simp only [List.append_assoc]
    rfl
  have hlast : ApacheConf.readLines [closing] = [⟨"</VirtualHost".toList, []⟩] := by decide
  have hsecond : ApacheConf.readLines (https.map Prod.fst ++ [closing]) =
      https.map Prod.snd ++ [⟨"</VirtualHost".toList, []⟩] ↔ ∀ l ∈ https, Says l.1 l.2 := by
    rw [ApacheConf.readLines_append_iff (fun l hl => (hhttps l hl).1) (by decide) (by decide)]
    exact and_iff_left hlast
  have hfirst : ApacheConf.readLines (closing :: [] :: (https.map Prod.fst ++ [closing])) =
      ⟨"</VirtualHost".toList, []⟩ :: ApacheConf.readLines (https.map Prod.fst ++ [closing]) := by
    obtain ⟨next, ls, heq⟩ := List.exists_cons_of_ne_nil
      (List.append_ne_nil_of_right_ne_nil (https.map Prod.fst) (List.cons_ne_nil closing []))
    rw [heq, ApacheConf.readLines_cons hmeant, ApacheConf.readLines_blank]
  have hcount : (⟨"</VirtualHost".toList, []⟩ ::
      (https.map Prod.snd ++ [⟨"</VirtualHost".toList, []⟩]) : List Statement).length =
        ApacheConf.full (closing :: [] :: (https.map Prod.fst ++ [closing])) := by
    rw [ApacheConf.full_cons (by decide), ApacheConf.full_blank, ApacheConf.full_append,
      ApacheConf.full_map_fst fun l hl => (hhttps l hl).1, List.length_cons, List.length_append,
      List.length_map]
    rfl
  rw [hlines, hmeaning,
    ApacheConf.readLines_append_iff (fun l hl => (hhttp l hl).1) (by decide) hcount, hfirst,
    List.cons_inj_right, hsecond]

/-! ## When it does -/

/-- The paths in a virtual host. -/
def paths (phpCgi : Option Text) : List Text :=
  v.documentRoot :: v.sslCrtFile :: v.sslKeyFile :: phpCgi.toList

/-- The addresses and names are plain words, the paths quotable lines. -/
structure ApachePlain (phpCgi : Option Text) : Prop where
  addresses : Plain (v.interface ++ ':' :: v.httpPort) ∧ Plain (v.interface ++ ':' :: v.httpsPort)
  names : ∀ hostname ∈ v.names, Plain hostname ∧ hostname.getLast? ≠ some '\\'
  paths : ∀ path ∈ v.paths phpCgi, Quotable path ∧ OneLine path

theorem oneLine_of_plain {t : Text} (h : Plain t) : OneLine t :=
  fun hmem => Bool.noConfusion (h.unspaced _ hmem)

theorem oneLine_of_sameRoot {root documentRoot : Text} (hroot : SameRoot root documentRoot)
    (h : OneLine root) : OneLine documentRoot := by
  intro hmem
  have hslash : '\n' ∈ FilePath.slash documentRoot '/' := List.mem_map.mpr ⟨'\n', hmem, rfl⟩
  rw [← hroot] at hslash
  exact h.slash hslash

/-- The texts a block is made from are arguments of its statements. -/
theorem oneLine_of_apacheBlock {root port : Text} {phpCgi : Option Text} {ssl : List Statement}
    (h : ∀ s ∈ v.apacheBlock root port phpCgi ssl, ∀ a ∈ s.arguments, OneLine a) :
    OneLine (v.interface ++ ':' :: port) ∧ OneLine root ∧
      (∀ hostname ∈ v.names, OneLine hostname) ∧ (∀ path ∈ phpCgi, OneLine path) ∧
      ∀ s ∈ ssl, ∀ a ∈ s.arguments, OneLine a := by
  delta apacheBlock at h
  simp only [List.forall_mem_append, List.forall_mem_cons, List.forall_mem_map] at h
  obtain ⟨⟨⟨⟨⟨⟨⟨⟨⟨haddress, -⟩, ⟨hroot, -⟩, ⟨hname, -⟩, -⟩, haliases⟩, hphp⟩, -⟩, -⟩, -⟩, hssl⟩,
    -⟩ := h
  refine ⟨haddress, hroot, ?_, ?_, hssl⟩
  · refine List.forall_mem_cons.mpr ⟨hname, List.forall_mem_map.mpr fun a ha => ?_⟩
    exact (haliases a ha).1
  · rintro path hpath
    obtain rfl := Option.mem_def.mp hpath
    have hwrapper : (⟨"FcgidWrapper".toList, [path, ".php".toList]⟩ : Statement) ∈
        fcgidStatements path := List.mem_of_getLast? rfl
    exact hphp _ hwrapper path List.mem_cons_self

/-- What is read of a virtual host holds no line feed, and neither do its texts if it is
read as it should. -/
theorem oneLine_of_read {t root : Text} {phpCgi : Option Text}
    (hroot : SameRoot root v.documentRoot)
    (h : ApacheConf.read t = v.apacheStatements root phpCgi) :
    ∀ text ∈ v.texts phpCgi, OneLine text := by
  have hread : ∀ s ∈ v.apacheStatements root phpCgi, ∀ a ∈ s.arguments, OneLine a :=
    fun s hs a ha => ApacheConf.not_mem_newline_of_mem_read (h ▸ hs) ha
  rw [apacheStatements, List.forall_mem_append] at hread
  obtain ⟨hhttp, hrootLine, hnames, hphp, -⟩ := v.oneLine_of_apacheBlock hread.1
  obtain ⟨hhttps, -, -, -, hssl⟩ := v.oneLine_of_apacheBlock hread.2
  simp only [List.forall_mem_cons] at hssl
  obtain ⟨-, ⟨hcrt, -⟩, ⟨hkey, -⟩, -⟩ := hssl
  simp only [texts, List.forall_mem_append, List.forall_mem_cons, List.not_mem_nil,
    false_imp_iff, implies_true, and_true]
  exact ⟨⟨⟨⟨hhttp, hhttps, oneLine_of_sameRoot hroot hrootLine⟩, hnames⟩, hcrt, hkey⟩,
    fun path hpath => hphp path (Option.mem_toList.mp hpath)⟩

/-- The lines for the certificate. -/
theorem says_sslLines_iff :
    (∀ l ∈ v.sslLines, Says l.1 l.2) ↔ Quotable v.sslCrtFile ∧ Quotable v.sslKeyFile := by
  have hpath (name path : Text) (hname : Plain name ∧ name.head? ≠ some '#' ∧
      name.head? ≠ some '<') : Says (indent 1 (name ++ ' ' :: ('"' :: path ++ ['"'])))
        ⟨name, [path]⟩ ↔ Quotable path := by
    rw [says_root_iff hname.1 hname.2.1 hname.2.2 rfl]
    exact and_iff_right rfl
  delta sslLines
  simp only [List.forall_mem_cons, List.not_mem_nil, false_imp_iff, implies_true, and_true,
    hpath "SSLCertificateFile".toList _ (by decide),
    hpath "SSLCertificateKeyFile".toList _ (by decide)]
  exact and_iff_right (by decide)

/-- The virtual host of an Apache site says what it should, up to the direction of
slashes in the document root, exactly if its texts stand plainly where they are put. -/
theorem read_apache_iff {phpCgi : Option Text}
    (hphp : ∀ path ∈ phpCgi, path.getLast? ≠ some '\\') :
    (∃ root, SameRoot root v.documentRoot ∧
        ApacheConf.read (v.apache (phpCgi.elim [] fcgidText)
          (phpCgi.elim [] fun _ => handlerText)) = v.apacheStatements root phpCgi) ↔
      v.ApachePlain phpCgi := by
  constructor
  · rintro ⟨root, hroot, hread⟩
    have hlines := v.oneLine_of_read hroot hread
    rw [v.read_apache_iff_says hlines, List.forall_mem_append, v.says_apacheLines_iff hroot hphp,
      v.says_apacheLines_iff hroot hphp, says_sslLines_iff] at hread
    obtain ⟨hhttp, hhttps, hcrt, hkey⟩ := hread
    simp only [texts, List.forall_mem_append, List.forall_mem_cons, List.not_mem_nil,
      false_imp_iff, implies_true, and_true] at hlines
    obtain ⟨⟨⟨⟨-, -, hrootLine⟩, -⟩, hcrtLine, hkeyLine⟩, hphpLine⟩ := hlines
    refine ⟨⟨hhttp.address, hhttps.address⟩, hhttp.names, ?_⟩
    simp only [paths, List.forall_mem_cons]
    exact ⟨⟨hhttp.root.2, hrootLine⟩, ⟨hcrt, hcrtLine⟩, ⟨hkey, hkeyLine⟩, fun path hpath =>
      ⟨hhttp.phpCgi path (Option.mem_toList.mp hpath), hphpLine path hpath⟩⟩
  · rintro ⟨⟨hhttp, hhttps⟩, hnames, hpaths⟩
    simp only [paths, List.forall_mem_cons] at hpaths
    obtain ⟨hroot, hcrt, hkey, hpath⟩ := hpaths
    have hlines : ∀ text ∈ v.texts phpCgi, OneLine text := by
      simp only [texts, List.forall_mem_append, List.forall_mem_cons, List.not_mem_nil,
        false_imp_iff, implies_true, and_true]
      exact ⟨⟨⟨⟨oneLine_of_plain hhttp, oneLine_of_plain hhttps, hroot.2⟩,
        fun hostname hmem => oneLine_of_plain (hnames hostname hmem).1⟩, hcrt.2, hkey.2⟩,
        fun path hmem => (hpath path hmem).2⟩
    have hphpPlain : ∀ path ∈ phpCgi, Quotable path := fun path hmem =>
      (hpath path (Option.mem_toList.mpr hmem)).1
    refine ⟨v.documentRoot, rfl, ?_⟩
    rw [v.read_apache_iff_says hlines, List.forall_mem_append, v.says_apacheLines_iff rfl hphp,
      v.says_apacheLines_iff rfl hphp, says_sslLines_iff]
    exact ⟨⟨hhttp, ⟨rfl, hroot.1⟩, hnames, hphpPlain⟩,
      ⟨hhttps, ⟨rfl, hroot.1⟩, hnames, hphpPlain⟩, hcrt.1, hkey.1⟩

end Vhost

end Site

end WampManager
