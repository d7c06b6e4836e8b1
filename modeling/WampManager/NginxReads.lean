/-
# The virtual host of an Nginx site, read back

An Nginx host differs from the one for Apache in more than its words: its names stand
in one directive, and its document root has its slashes turned and one added, so that
no backslash in it can take a quotation mark along. It is read as it is meant exactly if
the names and addresses are single words and no path holds a quotation mark.
-/

import WampManager.Lib.NginxConf
import WampManager.ApacheReads

namespace WampManager

namespace Site

open NginxConf (Token Arguments Directive isPlain isQuotable)

namespace Vhost

variable (v : Vhost)

/-! ## What a virtual host should say -/

/-- A directive without a block. -/
def directive (words : List Text) : List Token := words.map .word ++ [.semicolon]

/-- The locations that are passed on to PHP at an address. -/
def passTokens (address : Text) : List Token :=
  [.word "location".toList, .word "/".toList, .opening] ++
    directive ["try_files".toList, "$uri".toList, "$uri/".toList, "/index.php?$args".toList] ++
  [.closing, .word "location".toList, .word "~".toList, .word "\\.php$".toList, .opening] ++
    directive ["fastcgi_pass".toList, address] ++
    directive ["fastcgi_index".toList, "index.php".toList] ++
    directive ["fastcgi_param".toList, "SCRIPT_FILENAME".toList,
      "$document_root$fastcgi_script_name".toList] ++
    directive ["include".toList, "fastcgi_params".toList] ++
  [.closing]

/-- The block for an address. -/
def nginxBlock (root : Text) (listen : List Text) (php : Option Text) (ssl : List Token) :
    List Token :=
  [.word "server".toList, .opening] ++ directive ("listen".toList :: listen) ++
    directive ("server_name".toList :: v.names) ++ directive ["root".toList, root ++ ['/']] ++
    ssl ++ php.elim [] passTokens ++ [.closing]

/-- The directives for the certificate. -/
def sslTokens : List Token :=
  directive ["ssl_certificate".toList, v.sslCrtFile] ++
    directive ["ssl_certificate_key".toList, v.sslKeyFile] ++
    directive ["ssl_session_cache".toList, "shared:SSL:1m".toList] ++
    directive ["ssl_session_timeout".toList, "5m".toList] ++
    directive ["ssl_ciphers".toList, "HIGH:!aNULL:!MD5".toList] ++
    directive ["ssl_prefer_server_ciphers".toList, "on".toList]

/-- The two blocks of a site. -/
def nginxTokens (root : Text) (php : Option Text) : List Token :=
  v.nginxBlock root [v.interface ++ ':' :: v.httpPort] php [] ++
    v.nginxBlock root [v.interface ++ ':' :: v.httpsPort, "ssl".toList] php v.sslTokens

/-! ## Its directives -/

/-- The end of the locations that are passed on, if there are any. -/
def passEnd (php : Bool) : Text := if php then "\n\t\x7d".toList else []

/-- The directive that begins a file. -/
def listenFirst (address : Text) : Directive where
  head := "server\n\x7b\n\tlisten ".toList
  tokens := [.word "server".toList, .opening, .word "listen".toList]
  arguments := .words address []
  advance := by decide +kernel
  even := by decide +kernel

/-- The directive that begins the second block, behind one with or without PHP. -/
def listenSecond (php : Bool) (address : Text) : Directive where
  head := passEnd php ++ "\n\x7d\n\nserver\n\x7b\n\tlisten ".toList
  tokens := (if php then [.closing] else []) ++
    [.closing, .word "server".toList, .opening, .word "listen".toList]
  arguments := .words address ["ssl".toList]
  advance := by cases php <;> decide +kernel
  even := by cases php <;> decide +kernel

/-- The directive for the names. -/
def serverName : Directive where
  head := "\n\tserver_name ".toList
  tokens := [.word "server_name".toList]
  arguments := .words v.name (v.aliases.map (hostnameOf v.name))
  advance := by decide +kernel
  even := by decide +kernel

theorem length_of_sameRoot {root documentRoot : Text} (h : SameRoot root documentRoot) :
    (root ++ ['/']).length = (FilePath.slash (documentRoot ++ ['/']) '/').length := by
  have hlength := congrArg List.length h
  simp only [FilePath.slash, List.length_map] at hlength ⊢
  rw [List.length_append, List.length_append, hlength]

theorem count_of_sameRoot {root documentRoot : Text} (h : SameRoot root documentRoot) :
    (root ++ ['/']).count ';' = (FilePath.slash (documentRoot ++ ['/']) '/').count ';' := by
  have hcount := congrArg (List.count ';') h
  rw [FilePath.count_slash (by decide) (by decide),
    FilePath.count_slash (by decide) (by decide)] at hcount
  rw [FilePath.count_slash (by decide) (by decide), List.count_append, List.count_append, hcount]

/-- The directive for the document root. -/
def rootDirective {root : Text} (h : SameRoot root v.documentRoot) : Directive where
  head := "\n\troot ".toList
  tokens := [.word "root".toList]
  arguments := .quoted (FilePath.slash (v.documentRoot ++ ['/']) '/') (root ++ ['/'])
    (length_of_sameRoot h) (count_of_sameRoot h)
  advance := by decide +kernel
  even := by decide +kernel

/-- The directives for the certificate. -/
def sslDirectives : List Directive :=
  [{ head := "\n\tssl_certificate ".toList
     tokens := [.word "ssl_certificate".toList]
     arguments := .quoted v.sslCrtFile v.sslCrtFile rfl rfl
     advance := by decide +kernel
     even := by decide +kernel },
   { head := "\n\tssl_certificate_key ".toList
     tokens := [.word "ssl_certificate_key".toList]
     arguments := .quoted v.sslKeyFile v.sslKeyFile rfl rfl
     advance := by decide +kernel
     even := by decide +kernel },
   { head := "\n\tssl_session_cache ".toList
     tokens := [.word "ssl_session_cache".toList]
     arguments := .words "shared:SSL:1m".toList []
     advance := by decide +kernel
     even := by decide +kernel },
   { head := "\n\tssl_session_timeout ".toList
     tokens := [.word "ssl_session_timeout".toList]
     arguments := .words "5m".toList []
     advance := by decide +kernel
     even := by decide +kernel },
   { head := "\n\tssl_ciphers ".toList
     tokens := [.word "ssl_ciphers".toList]
     arguments := .words "HIGH:!aNULL:!MD5".toList []
     advance := by decide +kernel
     even := by decide +kernel },
   { head := "\n\tssl_prefer_server_ciphers ".toList
     tokens := [.word "ssl_prefer_server_ciphers".toList]
     arguments := .words "on".toList []
     advance := by decide +kernel
     even := by decide +kernel }]

/-- The directives that pass on to PHP at an address. -/
def passDirectives (address : Text) : List Directive :=
  [{ head := "\n\tlocation /\n\t\x7b\n\t\ttry_files ".toList
     tokens := [.word "location".toList, .word "/".toList, .opening, .word "try_files".toList]
     arguments := .words "$uri".toList ["$uri/".toList, "/index.php?$args".toList]
     advance := by decide +kernel
     even := by decide +kernel },
   { head := "\n\t\x7d\n\tlocation ~ \\.php$\n\t\x7b\n\t\tfastcgi_pass ".toList
     tokens := [.closing, .word "location".toList, .word "~".toList, .word "\\.php$".toList,
       .opening, .word "fastcgi_pass".toList]
     arguments := .words address []
     advance := by decide +kernel
     even := by decide +kernel },
   { head := "\n\t\tfastcgi_index ".toList
     tokens := [.word "fastcgi_index".toList]
     arguments := .words "index.php".toList []
     advance := by decide +kernel
     even := by decide +kernel },
   { head := "\n\t\tfastcgi_param SCRIPT_FILENAME  ".toList
     tokens := [.word "fastcgi_param".toList, .word "SCRIPT_FILENAME".toList]
     arguments := .words "$document_root$fastcgi_script_name".toList []
     advance := by decide +kernel
     even := by decide +kernel },
   { head := "\n\t\tinclude ".toList
     tokens := [.word "include".toList]
     arguments := .words "fastcgi_params".toList []
     advance := by decide +kernel
     even := by decide +kernel }]

/-- The directives of a virtual host. -/
def nginxDirectives {root : Text} (h : SameRoot root v.documentRoot) (php : Option Text) :
    List Directive :=
  listenFirst (v.interface ++ ':' :: v.httpPort) :: v.serverName :: v.rootDirective h ::
    php.elim [] passDirectives ++
  listenSecond php.isSome (v.interface ++ ':' :: v.httpsPort) :: v.serverName ::
    v.rootDirective h :: v.sslDirectives ++ php.elim [] passDirectives

/-- What stands behind the last directive. -/
def nginxEnd (php : Option Text) : Text := passEnd php.isSome ++ "\n\x7d".toList

/-- The locations of a host that are passed on. -/
def passText (address : Text) : Text :=
  line 1 "location /".toList ++ line 1 ['\x7b'] ++
    line 2 "try_files $uri $uri/ /index.php?$args;".toList ++ line 1 ['\x7d'] ++
    line 1 "location ~ \\.php$".toList ++ line 1 ['\x7b'] ++
    line 2 ("fastcgi_pass ".toList ++ address ++ [';']) ++
    line 2 "fastcgi_index index.php;".toList ++
    line 2 "fastcgi_param SCRIPT_FILENAME  $document_root$fastcgi_script_name;".toList ++
    line 2 "include fastcgi_params;".toList ++ line 1 ['\x7d']

theorem serverNames_eq : v.serverNames = (Arguments.words v.name
    (v.aliases.map (hostnameOf v.name))).text := by
  rw [serverNames, Arguments.text, List.flatMap_map]

/-- The head of a block. -/
theorem nginxBody_eq {root : Text} (h : SameRoot root v.documentRoot) (port : Text) :
    v.nginxBody port = "server\n\x7b\n\tlisten ".toList ++ (v.interface ++ ':' :: port) ++ [';'] ++
      Directive.text [v.serverName, v.rootDirective h] ++ ['\n'] := by
  delta nginxBody serverName rootDirective
  simp only [Directive.text, List.flatMap_cons, List.flatMap_nil, serverNames_eq, List.append_nil,
    Arguments.text_quoted, line, List.append_assoc, List.cons_append]
  rfl

/-- A line that ends in a semicolon, in front of others. -/
theorem newline_line {tabs : ℕ} {l rest tail : Text} {d : Directive} {ds : List Directive}
    (hline : '\n' :: (List.replicate tabs '\t' ++ l) = d.head ++ d.arguments.text ++ [';'])
    (hrest : '\n' :: rest = Directive.text ds ++ tail) :
    '\n' :: (line tabs l ++ rest) = Directive.text (d :: ds) ++ tail := by
  have hboth : '\n' :: (line tabs l ++ rest) =
      ('\n' :: (List.replicate tabs '\t' ++ l)) ++ '\n' :: rest := by simp [line]
  rw [hboth, hline, hrest, ← List.append_assoc]
  rfl

/-- The lines for the certificate. -/
theorem sslText_eq (rest : Text) :
    '\n' :: (line 1 ("ssl_certificate \"".toList ++ (v.sslCrtFile ++ "\";".toList)) ++
      (line 1 ("ssl_certificate_key \"".toList ++ (v.sslKeyFile ++ "\";".toList)) ++
      (line 1 "ssl_session_cache shared:SSL:1m;".toList ++
      (line 1 "ssl_session_timeout 5m;".toList ++
      (line 1 "ssl_ciphers HIGH:!aNULL:!MD5;".toList ++
      (line 1 "ssl_prefer_server_ciphers on;".toList ++ rest)))))) =
    Directive.text v.sslDirectives ++ '\n' :: rest := by
  delta sslDirectives
  refine newline_line ?_ (newline_line ?_ (newline_line (by decide +kernel)
    (newline_line (by decide +kernel) (newline_line (by decide +kernel)
      (newline_line (by decide +kernel) rfl)))))
  · simp only [Arguments.text_quoted, List.append_assoc, List.cons_append]
    rfl
  · simp only [Arguments.text_quoted, List.append_assoc, List.cons_append]
    rfl

/-- The locations that are passed on. -/
theorem passText_eq (address : Text) :
    '\n' :: passText address =
      Directive.text (passDirectives address) ++ '\n' :: line 1 ['\x7d'] := by
  have hfirst : line 1 "location /".toList ++ line 1 ['\x7b'] ++
      line 2 "try_files $uri $uri/ /index.php?$args;".toList =
        line 1 "location /\n\t\x7b\n\t\ttry_files $uri $uri/ /index.php?$args;".toList := by
    decide +kernel
  have hsecond : line 1 ['\x7d'] ++ line 1 "location ~ \\.php$".toList ++ line 1 ['\x7b'] ++
      line 2 ("fastcgi_pass ".toList ++ address ++ [';']) =
        line 1 ("\x7d\n\tlocation ~ \\.php$\n\t\x7b\n\t\tfastcgi_pass ".toList ++ address ++
          [';']) := by
    have hhead : line 1 ['\x7d'] ++ line 1 "location ~ \\.php$".toList ++ line 1 ['\x7b'] ++
        (List.replicate 2 '\t' ++ "fastcgi_pass ".toList) = List.replicate 1 '\t' ++
          "\x7d\n\tlocation ~ \\.php$\n\t\x7b\n\t\tfastcgi_pass ".toList := by decide +kernel
    have hboth := congrArg (· ++ (address ++ ([';'] ++ ['\n']))) hhead
    simpa only [line, List.append_assoc] using hboth
  have htext : passText address =
      line 1 "location /\n\t\x7b\n\t\ttry_files $uri $uri/ /index.php?$args;".toList ++
        (line 1 ("\x7d\n\tlocation ~ \\.php$\n\t\x7b\n\t\tfastcgi_pass ".toList ++ address ++
          [';']) ++
        (line 2 "fastcgi_index index.php;".toList ++
        (line 2 "fastcgi_param SCRIPT_FILENAME  $document_root$fastcgi_script_name;".toList ++
        (line 2 "include fastcgi_params;".toList ++ line 1 ['\x7d'])))) := by
    rw [← hfirst, ← hsecond]
    delta passText
    simp only [List.append_assoc]
  rw [htext]
  delta passDirectives
  refine newline_line (by decide +kernel) (newline_line ?_ (newline_line (by decide +kernel)
    (newline_line (by decide +kernel) (newline_line (by decide +kernel) rfl))))
  have hhead : '\n' :: (List.replicate 1 '\t' ++
      "\x7d\n\tlocation ~ \\.php$\n\t\x7b\n\t\tfastcgi_pass ".toList) =
        "\n\t\x7d\n\tlocation ~ \\.php$\n\t\x7b\n\t\tfastcgi_pass ".toList := by decide +kernel
  have hboth := congrArg (· ++ (address ++ [';'])) hhead
  simpa only [Arguments.text, List.flatMap_nil, List.append_nil, List.append_assoc,
    List.cons_append] using hboth

theorem text_append (ds ds' : List Directive) :
    Directive.text (ds ++ ds') = Directive.text ds ++ Directive.text ds' := List.flatMap_append

/-- The locations that are passed on, if there are any, in front of other lines. -/
theorem pass_eq (php : Option Text) (rest : Text) :
    '\n' :: (php.elim [] passText ++ rest) =
      Directive.text (php.elim [] passDirectives) ++ (passEnd php.isSome ++ '\n' :: rest) := by
  cases php with
  | none => rfl
  | some address =>
      have hline : '\n' :: line 1 ['\x7d'] = "\n\t\x7d".toList ++ ['\n'] := by decide +kernel
      have hend : passEnd (some address).isSome = "\n\t\x7d".toList := rfl
      rw [hend, Option.elim_some, Option.elim_some, ← List.cons_append, passText_eq, hline]
      simp only [List.append_assoc, List.cons_append, List.nil_append]

theorem nginxDirectives_eq {root : Text} (h : SameRoot root v.documentRoot)
    (php : Option Text) :
    v.nginxDirectives h php =
      [listenFirst (v.interface ++ ':' :: v.httpPort)] ++ ([v.serverName, v.rootDirective h] ++
        (php.elim [] passDirectives ++
          ([listenSecond php.isSome (v.interface ++ ':' :: v.httpsPort)] ++
            ([v.serverName, v.rootDirective h] ++
              (v.sslDirectives ++ php.elim [] passDirectives))))) := by
  simp only [nginxDirectives, List.append_assoc, List.cons_append, List.nil_append]

/-- The virtual host consists of its directives. -/
theorem nginx_eq {root : Text} (h : SameRoot root v.documentRoot) (php : Option Text) :
    v.nginx (php.elim [] passText) =
      Directive.text (v.nginxDirectives h php) ++ nginxEnd php := by
  have hfirst : Directive.text [listenFirst (v.interface ++ ':' :: v.httpPort)] =
      "server\n\x7b\n\tlisten ".toList ++ (v.interface ++ ':' :: v.httpPort) ++ [';'] := by
    change "server\n\x7b\n\tlisten ".toList ++ (v.interface ++ ':' :: v.httpPort ++ []) ++ [';'] ++
      [] = _
    rw [List.append_nil, List.append_nil]
  have hbetween (rest : Text) : '\n' :: (php.elim [] passText ++
      '\x7d' :: ("\n\n".toList ++ ("server\n\x7b\n\tlisten ".toList ++ rest))) =
        Directive.text (php.elim [] passDirectives) ++ (passEnd php.isSome ++
          ("\n\x7d\n\nserver\n\x7b\n\tlisten ".toList ++ rest)) := by
    have hhead : "\n\x7d\n\nserver\n\x7b\n\tlisten ".toList =
        '\n' :: '\x7d' :: ("\n\n".toList ++ "server\n\x7b\n\tlisten ".toList) := by decide +kernel
    rw [pass_eq, hhead]
    simp only [List.append_assoc, List.cons_append]
  have hsecond : Directive.text [listenSecond php.isSome (v.interface ++ ':' :: v.httpsPort)] =
      passEnd php.isSome ++ ("\n\x7d\n\nserver\n\x7b\n\tlisten ".toList ++
        (v.interface ++ ':' :: (v.httpsPort ++ " ssl".toList) ++ [';'])) := by
    have hssl : " ssl".toList = ' ' :: "ssl".toList ++ [] := by decide +kernel
    change passEnd php.isSome ++ "\n\x7d\n\nserver\n\x7b\n\tlisten ".toList ++
      (v.interface ++ ':' :: v.httpsPort ++ (' ' :: "ssl".toList ++ [])) ++ [';'] ++ [] = _
    rw [hssl, List.append_nil]
    simp only [List.append_assoc, List.cons_append]
  have hend : '\n' :: (php.elim [] passText ++ ['\x7d']) =
      Directive.text (php.elim [] passDirectives) ++ nginxEnd php := by
    have hclose : "\n\x7d".toList = ['\n', '\x7d'] := by decide +kernel
    rw [pass_eq, nginxEnd, hclose]
  delta nginx
  rw [nginxDirectives_eq, text_append, text_append, text_append, text_append, text_append, text_append,
    hfirst, hsecond, v.nginxBody_eq h, v.nginxBody_eq h]
  simp only [List.append_assoc, List.cons_append, List.nil_append]
  rw [hbetween, v.sslText_eq, hend]

/-- What stands at the end closes the blocks. -/
theorem read_nginxEnd (php : Option Text) : NginxConf.read (nginxEnd php) =
    php.elim [] (fun _ => [.closing]) ++ [.closing] := by
  cases php with
  | none =>
      change NginxConf.read (passEnd false ++ "\n\x7d".toList) = [.closing]
      decide +kernel
  | some address =>
      change NginxConf.read (passEnd true ++ "\n\x7d".toList) = [.closing, .closing]
      decide +kernel

theorem semicolons_nginxEnd (php : Option Text) :
    NginxConf.semicolons (NginxConf.read (nginxEnd php)) = (nginxEnd php).count ';' := by
  rw [read_nginxEnd]
  cases php with
  | none =>
      change NginxConf.semicolons [.closing] = (passEnd false ++ "\n\x7d".toList).count ';'
      decide +kernel
  | some address =>
      change NginxConf.semicolons [.closing, .closing] =
        (passEnd true ++ "\n\x7d".toList).count ';'
      decide +kernel

theorem meaning_append (ds ds' : List Directive) :
    Directive.meaning (ds ++ ds') = Directive.meaning ds ++ Directive.meaning ds' :=
  List.flatMap_append

/-- What a virtual host should say, directive by directive. -/
theorem nginxTokens_eq {root : Text} (h : SameRoot root v.documentRoot) (php : Option Text) :
    v.nginxTokens root php =
      Directive.meaning (v.nginxDirectives h php) ++ NginxConf.read (nginxEnd php) := by
  have hfirst : Directive.meaning [listenFirst (v.interface ++ ':' :: v.httpPort)] =
      [.word "server".toList, .opening] ++
        directive ["listen".toList, v.interface ++ ':' :: v.httpPort] := rfl
  have hhead : Directive.meaning [v.serverName, v.rootDirective h] =
      directive ("server_name".toList :: v.names) ++
        directive ["root".toList, root ++ ['/']] := rfl
  have hssl : Directive.meaning v.sslDirectives = v.sslTokens := rfl
  have hbetween (rest : List Token) : Directive.meaning (php.elim [] passDirectives) ++
      (Directive.meaning [listenSecond php.isSome (v.interface ++ ':' :: v.httpsPort)] ++ rest) =
        php.elim [] passTokens ++ (.closing :: .word "server".toList :: .opening ::
          (directive ["listen".toList, v.interface ++ ':' :: v.httpsPort, "ssl".toList] ++
            rest)) := by
    cases php with
    | none => rfl
    | some address => rfl
  have hend : Directive.meaning (php.elim [] passDirectives) ++
      (php.elim [] (fun _ => [.closing]) ++ [.closing]) = php.elim [] passTokens ++ [.closing] := by
    cases php with
    | none => rfl
    | some address => rfl
  rw [nginxDirectives_eq, read_nginxEnd]
  simp only [meaning_append, List.append_assoc]
  rw [hbetween, hfirst, hhead, hssl, hend]
  simp only [nginxTokens, nginxBlock, List.append_assoc, List.cons_append, List.nil_append]

/-! ## When it does -/

/-- The addresses and names are plain words, the paths quotable. -/
structure NginxPlain (php : Option Text) : Prop where
  addresses : isPlain (v.interface ++ ':' :: v.httpPort) = true ∧
    isPlain (v.interface ++ ':' :: v.httpsPort) = true
  names : ∀ hostname ∈ v.names, isPlain hostname = true
  root : isQuotable (FilePath.slash (v.documentRoot ++ ['/']) '/') = true
  ssl : isQuotable v.sslCrtFile = true ∧ isQuotable v.sslKeyFile = true
  php : ∀ address ∈ php, isPlain address = true

theorem readable_words_iff (w : Text) (ws : List Text) :
    (Arguments.words w ws).Readable ↔ isPlain w = true ∧ ∀ x ∈ ws, isPlain x = true :=
  List.forall_mem_cons

theorem readable_quoted_iff {t w : Text} {hlength : w.length = t.length}
    {hcount : w.count ';' = t.count ';'} :
    (Arguments.quoted t w hlength hcount).Readable ↔ w = t ∧ isQuotable t = true := Iff.rfl

/-- The lines for the certificate. -/
theorem readable_sslDirectives_iff : (∀ d ∈ v.sslDirectives, d.arguments.Readable) ↔
    isQuotable v.sslCrtFile = true ∧ isQuotable v.sslKeyFile = true := by
  have hcache : isPlain "shared:SSL:1m".toList = true := by decide +kernel
  have htimeout : isPlain "5m".toList = true := by decide +kernel
  have hciphers : isPlain "HIGH:!aNULL:!MD5".toList = true := by decide +kernel
  have hprefer : isPlain "on".toList = true := by decide +kernel
  delta sslDirectives
  simp only [List.forall_mem_cons, List.not_mem_nil, false_imp_iff, implies_true, and_true,
    readable_words_iff, readable_quoted_iff, true_and, hcache, htimeout, hciphers, hprefer]

/-- The locations that are passed on. -/
theorem readable_passDirectives_iff (php : Option Text) :
    (∀ d ∈ php.elim [] passDirectives, d.arguments.Readable) ↔
      ∀ address ∈ php, isPlain address = true := by
  have huri : isPlain "$uri".toList = true ∧ isPlain "$uri/".toList = true ∧
      isPlain "/index.php?$args".toList = true := by decide +kernel
  have hindex : isPlain "index.php".toList = true := by decide +kernel
  have hscript : isPlain "$document_root$fastcgi_script_name".toList = true := by decide +kernel
  have hparams : isPlain "fastcgi_params".toList = true := by decide +kernel
  cases php with
  | none => simp
  | some address =>
      rw [Option.elim_some]
      delta passDirectives
      simp only [List.forall_mem_cons, List.not_mem_nil, false_imp_iff, implies_true, and_true,
        readable_words_iff, true_and, huri, hindex, hscript, hparams, Option.mem_some_iff,
        forall_eq']

/-- The virtual host says what it should, up to the direction of slashes in the document
root, if it is said slashed and the texts are plain. -/
theorem read_nginx_iff_of_sameRoot {root : Text} (h : SameRoot root v.documentRoot)
    (php : Option Text) :
    NginxConf.read (v.nginx (php.elim [] passText)) = v.nginxTokens root php ↔
      root ++ ['/'] = FilePath.slash (v.documentRoot ++ ['/']) '/' ∧ v.NginxPlain php := by
  have hssl : isPlain "ssl".toList = true := by decide +kernel
  have hfirst : (listenFirst (v.interface ++ ':' :: v.httpPort)).arguments.Readable ↔
      isPlain (v.interface ++ ':' :: v.httpPort) = true := by
    refine (readable_words_iff _ _).trans (and_iff_left ?_)
    exact fun x hx => absurd hx List.not_mem_nil
  have hsecond : (listenSecond php.isSome (v.interface ++ ':' :: v.httpsPort)).arguments.Readable ↔
      isPlain (v.interface ++ ':' :: v.httpsPort) = true := by
    refine (readable_words_iff _ _).trans (and_iff_left ?_)
    exact List.forall_mem_singleton.mpr hssl
  have hnames : v.serverName.arguments.Readable ↔ ∀ hostname ∈ v.names, isPlain hostname = true :=
    Iff.rfl
  have hroot : (v.rootDirective h).arguments.Readable ↔
      root ++ ['/'] = FilePath.slash (v.documentRoot ++ ['/']) '/' ∧
        isQuotable (FilePath.slash (v.documentRoot ++ ['/']) '/') = true := Iff.rfl
  rw [v.nginx_eq h, v.nginxTokens_eq h, Directive.read_iff _ (semicolons_nginxEnd php),
    nginxDirectives_eq]
  simp only [List.forall_mem_append, List.forall_mem_cons, List.not_mem_nil, false_imp_iff,
    implies_true, and_true, readable_sslDirectives_iff, readable_passDirectives_iff, hfirst,
    hsecond, hnames, hroot]
  constructor
  · rintro ⟨hhttp, ⟨hn, hslash, hr⟩, hphp, hhttps, -, hcrt, -⟩
    exact ⟨hslash, ⟨hhttp, hhttps⟩, hn, hr, hcrt, hphp⟩
  · rintro ⟨hslash, ⟨hhttp, hhttps⟩, hn, hr, hcrt, hphp⟩
    exact ⟨hhttp, ⟨hn, hslash, hr⟩, hphp, hhttps, ⟨hn, hslash, hr⟩, hcrt, hphp⟩

/-- The virtual host of an Nginx site says what it should, up to the direction of slashes
in the document root, exactly if its texts stand plainly where they are put. -/
theorem read_nginx_iff (php : Option Text) :
    (∃ root, SameRoot root v.documentRoot ∧
        NginxConf.read (v.nginx (php.elim [] passText)) = v.nginxTokens root php) ↔
      v.NginxPlain php := by
  constructor
  · rintro ⟨root, h, hread⟩
    exact ((v.read_nginx_iff_of_sameRoot h php).mp hread).2
  · intro h
    have hsame : SameRoot (FilePath.slash v.documentRoot '/') v.documentRoot :=
      FilePath.slash_slash v.documentRoot (by decide)
    refine ⟨_, hsame, (v.read_nginx_iff_of_sameRoot hsame php).mpr ⟨?_, h⟩⟩
    rw [FilePath.slash, FilePath.slash, List.map_append]
    rfl

end Vhost

end Site

end WampManager
