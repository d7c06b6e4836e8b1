/-
# Names in the texts a site is made of

The configuration for a certificate and the virtual host of a site list its
hostnames. Here they are read back from these texts the way the authority and
the servers read them: entry by entry, and block by block, line by line. The
lines that list no names matter too, since paths and ports stand in them.
-/

import WampManager.HostsEdits
import WampManager.SiteSteps

namespace WampManager

namespace CA

/-- The DNS entries behind the first, numbered on. -/
def aliasEntries (domain : Text) : ℕ → List Text → Text
  | _, [] => []
  | counter, a :: aliases =>
      "\nDNS.".toList ++ Nat.toDigits 10 counter ++ " = ".toList ++ a ++ '.' :: domain ++
        aliasEntries domain (counter + 1) aliases

/-- The configuration that `CA::generate` writes for a certificate. -/
def config (domain : Text) (aliases : List Text) : Text :=
  "[ req ]\nx509_extensions = usr_cert\ndistinguished_name = dn\n\n[ dn ]\n\n".toList ++
    "[ usr_cert ]\nsubjectAltName = @alt_names\n\n[ alt_names ]\n".toList ++
    "DNS.1 = ".toList ++ domain ++ aliasEntries domain 2 aliases

/-- The value of a line that is a DNS entry. -/
def dnsName (l : Text) : Option Text :=
  if "DNS.".toList.isPrefixOf l then some (Text.trim (l.dropWhile (· ≠ '=')).tail) else none

/-- The DNS entries of a configuration. -/
def dnsNames (config : Text) : List Text := (config.splitOn '\n').filterMap dnsName

end CA

namespace Site

open Hosts (HostToken Field isHostChar)

/-! ## Reading a virtual host -/

/-- The words of a line. -/
abbrev words (l : Text) : List Text := (l.splitOnP Hosts.isBlank).filter (· ≠ [])

/-- What a reader of virtual hosts knows of a server's format: the line that
ends a block, the directives that list names, and what an argument stands for. -/
structure Format where
  close : Text
  directives : List Text
  value : Text → Text
  close_ne_nil : close ≠ []
  close_unbroken : ' ' ∉ close ∧ '\n' ∉ close

/-- Apache: a name in each directive. -/
def apacheFormat : Format where
  close := "</VirtualHost>".toList
  directives := ["ServerName".toList, "ServerAlias".toList]
  value := id
  close_ne_nil := by decide
  close_unbroken := by decide

/-- Nginx: all names in one directive, which a semicolon ends. -/
def nginxFormat : Format where
  close := ['\x7d']
  directives := ["server_name".toList]
  value := Text.rtrimChar ';'
  close_ne_nil := by decide
  close_unbroken := by decide

namespace Format

variable (format : Format)

/-- The names that a line lists. -/
def names (l : Text) : List Text :=
  match words l with
  | directive :: arguments =>
      if directive ∈ format.directives then arguments.map format.value else []
  | [] => []

/-- The names in the first block of a virtual host, the one for HTTP. -/
def httpNames (text : Text) : List Text :=
  ((text.splitOn '\n').takeWhile (· ≠ format.close)).flatMap format.names

/-- The names in the block behind it, the one for HTTPS. -/
def httpsNames (text : Text) : List Text :=
  ((((text.splitOn '\n').dropWhile (· ≠ format.close)).drop 1).takeWhile
    (· ≠ format.close)).flatMap format.names

/-- A text of whole lines that end no block and list just these names. -/
def Lists (text : Text) (ns : List Text) : Prop :=
  ∃ ls : List Text, text = Text.unlines ls ∧ (∀ l ∈ ls, '\n' ∉ l ∧ l ≠ format.close) ∧
    ls.flatMap format.names = ns

variable {format}

namespace Lists

theorem nil : format.Lists [] [] := ⟨[], rfl, by simp, rfl⟩

theorem append {text text' : Text} {ns ns' : List Text} (h : format.Lists text ns)
    (h' : format.Lists text' ns') : format.Lists (text ++ text') (ns ++ ns') := by
  obtain ⟨ls, rfl, hls, rfl⟩ := h
  obtain ⟨ls', rfl, hls', rfl⟩ := h'
  refine ⟨ls ++ ls', (Text.unlines_append ls ls').symm, fun l hl => ?_, List.flatMap_append⟩
  rcases List.mem_append.mp hl with hl | hl
  · exact hls l hl
  · exact hls' l hl

/-- A text that lists no name can stand anywhere. -/
theorem append_nil {text text' : Text} {ns : List Text} (h : format.Lists text ns)
    (h' : format.Lists text' []) : format.Lists (text ++ text') ns := by
  have hboth := h.append h'
  rwa [List.append_nil] at hboth

theorem flatMap {as : List Text} {f : Text → Text} {g : Text → Text}
    (h : ∀ a ∈ as, format.Lists (f a) [g a]) : format.Lists (as.flatMap f) (as.map g) := by
  induction as with
  | nil => exact nil
  | cons a as ih =>
      have hhead := h a List.mem_cons_self
      have htail := ih fun b hb => h b (List.mem_cons_of_mem _ hb)
      exact hhead.append htail

theorem line {tabs : ℕ} {t : Text} (hline : '\n' ∉ t)
    (hclose : List.replicate tabs '\t' ++ t ≠ format.close) :
    format.Lists (Site.line tabs t) (format.names (List.replicate tabs '\t' ++ t)) := by
  refine ⟨[List.replicate tabs '\t' ++ t], by simp [Site.line, Text.unlines], ?_, by simp⟩
  intro l hl
  rw [List.mem_singleton.mp hl, List.mem_append, List.mem_replicate]
  refine ⟨?_, hclose⟩
  rintro (⟨-, htab⟩ | hmem)
  · exact absurd htab (by decide)
  · exact hline hmem

end Lists

theorem words_line (tabs : ℕ) {word rest : Text} (hword : Field word) :
    words (List.replicate tabs '\t' ++ (word ++ ' ' :: rest)) = word :: words rest := by
  have htabs : ∀ c ∈ List.replicate tabs '\t', Hosts.isBlank c = true := by
    intro c hc
    rw [(List.mem_replicate.mp hc).2]
    rfl
  have hblank : ∀ c ∈ (' ' :: rest).head?, Hosts.isBlank c = true := by
    intro c hc
    rw [← Option.some.inj hc]
    rfl
  have hspace : words (' ' :: rest) = words rest :=
    @Hosts.fields_blanks [' '] rest (by simp [Hosts.isBlank])
  unfold words at hspace ⊢
  rw [Hosts.fields_blanks htabs, Hosts.fields_cons hword hblank, hspace]

/-- A line with a word in front of a space. -/
theorem lists_word (tabs : ℕ) {word rest : Text} (hword : Field word) (hrest : '\n' ∉ rest) :
    format.Lists (Site.line tabs (word ++ ' ' :: rest))
      (if word ∈ format.directives then (words rest).map format.value else []) := by
  have hline : '\n' ∉ word ++ ' ' :: rest := by
    rw [List.mem_append, List.mem_cons]
    rintro (hmem | hspace | hmem)
    · exact (hword.2 _ hmem).2.2.2 rfl
    · exact absurd hspace (by decide)
    · exact hrest hmem
  have hclose : List.replicate tabs '\t' ++ (word ++ ' ' :: rest) ≠ format.close := by
    intro heq
    apply format.close_unbroken.1
    rw [← heq]
    simp
  have hlists := Lists.line hline hclose
  unfold names at hlists
  rwa [words_line tabs hword] at hlists

/-- A directive of another kind lists no name. -/
theorem lists_other (tabs : ℕ) {word rest : Text} (hword : Field word)
    (hother : word ∉ format.directives) (hrest : '\n' ∉ rest) :
    format.Lists (Site.line tabs (word ++ ' ' :: rest)) [] := by
  have hlists : format.Lists _ _ := lists_word tabs hword hrest
  rwa [if_neg hother] at hlists

/-- The same for a line that is known by its opening. -/
theorem lists_opening (tabs : ℕ) (word more : Text) {opening rest : Text}
    (hopening : opening = word ++ ' ' :: more) (hword : Field word)
    (hother : word ∉ format.directives) (hmore : '\n' ∉ more) (hrest : '\n' ∉ rest) :
    format.Lists (Site.line tabs (opening ++ rest)) [] := by
  rw [hopening, List.append_assoc, List.cons_append]
  apply lists_other tabs hword hother
  rw [List.mem_append]
  exact fun h => h.elim hmore hrest

/-- A fixed line that ends no block and lists nothing. -/
def Silent (format : Format) (tabs : ℕ) (t : Text) : Prop :=
  '\n' ∉ t ∧ List.replicate tabs '\t' ++ t ≠ format.close ∧
    format.names (List.replicate tabs '\t' ++ t) = []

instance (tabs : ℕ) (t : Text) : Decidable (Silent format tabs t) :=
  inferInstanceAs (Decidable (_ ∧ _))

theorem lists_silent {tabs : ℕ} {t : Text} (h : Silent format tabs t) :
    format.Lists (Site.line tabs t) [] := by
  have hlists := Lists.line h.1 h.2.1
  rwa [h.2.2] at hlists

/-- Two blocks read back as what their lines list. -/
theorem names_blocks {http https : Text} {ns ns' : List Text} (hhttp : format.Lists http ns)
    (hhttps : format.Lists https ns') :
    format.httpNames (http ++ format.close ++ "\n\n".toList ++ (https ++ format.close)) = ns ∧
      format.httpsNames (http ++ format.close ++ "\n\n".toList ++ (https ++ format.close)) =
        ns' := by
  obtain ⟨ls, rfl, hls, rfl⟩ := hhttp
  obtain ⟨ls', rfl, hls', rfl⟩ := hhttps
  have hclose := format.close_unbroken.2
  have hlines : (Text.unlines ls ++ format.close ++ "\n\n".toList ++
      (Text.unlines ls' ++ format.close)).splitOn '\n' =
        ls ++ format.close :: [] :: (ls' ++ [format.close]) := by
    have hshape : Text.unlines ls ++ format.close ++ "\n\n".toList ++
        (Text.unlines ls' ++ format.close) =
          Text.unlines (ls ++ [format.close, []] ++ ls') ++ format.close := by
      simp [Text.unlines]
    rw [hshape, Text.splitOn_unlines_append, List.splitOn_eq_singleton hclose]
    · simp
    · intro l hl
      simp only [List.mem_append, List.mem_cons, List.not_mem_nil, or_false] at hl
      rcases hl with (hl | rfl | rfl) | hl
      · exact (hls l hl).1
      · exact hclose
      · simp
      · exact (hls' l hl).1
  have hopen : ∀ l ∈ ls, decide (l ≠ format.close) = true := fun l hl => by
    simpa using (hls l hl).2
  have hopen' : ∀ l ∈ ls', decide (l ≠ format.close) = true := fun l hl => by
    simpa using (hls' l hl).2
  have hblank : format.names [] = [] := rfl
  rw [httpNames, httpsNames, hlines, List.takeWhile_append_of_pos hopen,
    List.dropWhile_append_of_pos hopen]
  constructor
  · simp
  · have hne : ([] : Text) ≠ format.close := fun heq => format.close_ne_nil heq.symm
    rw [List.dropWhile_cons_of_neg (by simp), List.drop_one, List.tail_cons,
      List.takeWhile_cons_of_pos (by simpa using hne), List.takeWhile_append_of_pos hopen']
    simp [hblank]

end Format

/-! ## What the blocks list -/

/-- No line feed in a text. -/
abbrev OneLine (t : Text) : Prop := '\n' ∉ t

theorem OneLine.append {t u : Text} (ht : OneLine t) (hu : OneLine u) : OneLine (t ++ u) :=
  fun h => (List.mem_append.mp h).elim ht hu

theorem OneLine.cons {c : Char} {t : Text} (hc : c ≠ '\n') (ht : OneLine t) : OneLine (c :: t) :=
  fun h => (List.mem_cons.mp h).elim (fun heq => hc heq.symm) ht

theorem OneLine.slash {t : Text} (ht : OneLine t) : OneLine (FilePath.slash t '/') :=
  fun h => ht ((FilePath.mem_slash_iff (by decide) (by decide)).mp h)

theorem OneLine.rtrimChar {c : Char} {t : Text} (ht : OneLine t) : OneLine (Text.rtrimChar c t) :=
  fun h => ht ((List.rdropWhile_prefix _ _).sublist.mem h)

theorem oneLine_of_field {t : Text} (ht : Field t) : OneLine t :=
  fun h => (ht.2 _ h).2.2.2 rfl

theorem words_field {t : Text} (ht : Field t) : words t = [t] := by
  have hnil : words [] = [] := rfl
  have hcons := @Hosts.fields_cons t [] ht (by simp)
  rw [List.append_nil] at hcons
  rw [words, hcons, ← words, hnil]

/-- The name of a site and `alias.name` for each alias. -/
def namesOf (name : Text) (aliases : List Text) : List Text :=
  name :: aliases.map (hostnameOf name)

/-- All names of a site behind one directive; the semicolon is not part of the
last one. By induction on the names, read from the front. -/
theorem values_names {ns : List Text} : ∀ {n : Text},
    (∀ hostname ∈ n :: ns, HostToken hostname) →
      (words (n ++ (ns.flatMap fun m => ' ' :: m) ++ [';'])).map (Text.rtrimChar ';') =
        n :: ns := by
  have hvalue : ∀ {n : Text}, HostToken n → ∀ c ∈ n, c ≠ ';' := by
    rintro n hn c hc rfl
    exact absurd (hn.2 _ hc) (by decide)
  have hplain : ∀ {n : Text}, HostToken n → Text.rtrimChar ';' n = n := by
    intro n hn
    rw [Text.rtrimChar, List.rdropWhile_eq_self_iff]
    intro hne
    simpa using hvalue hn _ (List.getLast_mem hne)
  induction ns with
  | nil =>
      intro n hnames
      have hn := hnames n List.mem_cons_self
      have hfield : Field (n ++ [';']) := by
        refine ⟨by simp, fun c hc => ?_⟩
        rcases List.mem_append.mp hc with hc | hc
        · exact hn.field.2 c hc
        · rw [List.mem_singleton.mp hc]
          decide
      have hwords := words_field hfield
      rw [List.flatMap_nil, List.append_nil, hwords, List.map_singleton, Text.rtrimChar,
        List.rdropWhile_concat, if_pos (by rfl), ← Text.rtrimChar, hplain hn]
  | cons m ns ih =>
      intro n hnames
      have hn := hnames n List.mem_cons_self
      have hrest := ih fun hostname hmem => hnames hostname (List.mem_cons_of_mem _ hmem)
      have hwords := @Format.words_line 0 n (m ++ (ns.flatMap fun m => ' ' :: m) ++ [';'])
        hn.field
      have hshape : n ++ ((m :: ns).flatMap fun m => ' ' :: m) ++ [';'] =
          n ++ ' ' :: (m ++ (ns.flatMap fun m => ' ' :: m) ++ [';']) := by simp
      rw [List.replicate_zero, List.nil_append] at hwords
      rw [hshape, hwords, List.map_cons, hrest, hplain hn]

/-- The virtual host is made from proper names and single lines. -/
structure Vhost.Proper (v : Vhost) : Prop where
  names : ∀ hostname ∈ namesOf v.name v.aliases, HostToken hostname
  interface : OneLine v.interface
  httpPort : OneLine v.httpPort
  httpsPort : OneLine v.httpsPort
  documentRoot : OneLine v.documentRoot
  sslKeyFile : OneLine v.sslKeyFile
  sslCrtFile : OneLine v.sslCrtFile

section Blocks

open Format

variable {v : Vhost} (hv : v.Proper)
include hv

theorem Vhost.Proper.name_field : Field v.name := (hv.names _ List.mem_cons_self).field

theorem Vhost.Proper.alias_field {a : Text} (ha : a ∈ v.aliases) : Field (hostnameOf v.name a) :=
  (hv.names _ (List.mem_cons_of_mem _ (List.mem_map_of_mem ha))).field

/-- The name lines of an Apache block. -/
theorem lists_apacheNames :
    apacheFormat.Lists (line 1 ("ServerName ".toList ++ v.name) ++
      v.aliases.flatMap fun a => line 1 ("ServerAlias ".toList ++ hostnameOf v.name a))
      (namesOf v.name v.aliases) := by
  have hdirective : ∀ {directive t : Text}, Field directive →
      directive ∈ apacheFormat.directives → Field t →
      apacheFormat.Lists (line 1 (directive ++ ' ' :: t)) [t] := by
    intro directive t hdirective hmem ht
    have hlists : apacheFormat.Lists _ _ := lists_word 1 hdirective (oneLine_of_field ht)
    rw [if_pos hmem, words_field ht] at hlists
    exact hlists
  have hname : apacheFormat.Lists (line 1 ("ServerName ".toList ++ v.name)) [v.name] :=
    @hdirective "ServerName".toList _ (by decide) (by decide) hv.name_field
  have haliases : apacheFormat.Lists
      (v.aliases.flatMap fun a => line 1 ("ServerAlias ".toList ++ hostnameOf v.name a))
      (v.aliases.map (hostnameOf v.name)) :=
    Lists.flatMap fun a ha =>
      @hdirective "ServerAlias".toList _ (by decide) (by decide) (hv.alias_field ha)
  exact hname.append haliases

/-- An Apache block lists the names of its site. -/
theorem lists_apacheBody {port phpWrapper phpHandler : Text} (hport : OneLine port)
    (hwrapper : apacheFormat.Lists phpWrapper []) (hhandler : apacheFormat.Lists phpHandler []) :
    apacheFormat.Lists (v.apacheBody port phpWrapper phpHandler)
      (namesOf v.name v.aliases) := by
  have hopen : apacheFormat.Lists
      ("<VirtualHost ".toList ++ v.interface ++ ':' :: port ++ ">\n".toList) [] := by
    have hline : "<VirtualHost ".toList ++ v.interface ++ ':' :: port ++ ">\n".toList =
        line 0 ("<VirtualHost ".toList ++ (v.interface ++ ':' :: port ++ ['>'])) := by
      have hend : ">\n".toList = ['>'] ++ ['\n'] := rfl
      simp only [line, hend, List.append_assoc, List.replicate_zero, List.nil_append]
    rw [hline]
    exact lists_opening 0 "<VirtualHost".toList [] (by decide) (by decide)
      (by decide) (by decide) ((hv.interface.append (hport.cons (by decide))).append (by decide))
  have hroot : apacheFormat.Lists
      (line 1 ("DocumentRoot \"".toList ++ v.documentRoot ++ ['"'])) [] := by
    simp only [List.append_assoc]
    exact lists_opening 1 "DocumentRoot".toList ['"'] (by decide) (by decide)
      (by decide) (by decide) (hv.documentRoot.append (by decide))
  have hdirectory : apacheFormat.Lists
      (line 1 ("<Directory \"".toList ++ v.documentRoot ++ "\">".toList)) [] := by
    simp only [List.append_assoc]
    exact lists_opening 1 "<Directory".toList ['"'] (by decide) (by decide)
      (by decide) (by decide) (hv.documentRoot.append (by decide))
  have hoptions : apacheFormat.Lists (line 2 "Options all".toList ++
      line 2 "AllowOverride all".toList ++ line 2 "Require all granted".toList ++
      line 1 "</Directory>".toList) [] :=
    (((lists_silent (by decide)).append (lists_silent (by decide))).append
      (lists_silent (by decide))).append (lists_silent (by decide))
  have hhead := (hopen.append hroot).append (lists_apacheNames hv)
  have hblock := (((hhead.append_nil hwrapper).append_nil hdirectory).append_nil
    hhandler).append_nil hoptions
  delta Vhost.apacheBody
  simp only [List.append_assoc] at hblock ⊢
  exact hblock

/-- The head of an Nginx block lists the names of its site. -/
theorem lists_nginxBody {port : Text} (hport : OneLine port) :
    nginxFormat.Lists (v.nginxBody port) (namesOf v.name v.aliases) := by
  have hopen : nginxFormat.Lists (line 0 "server".toList ++ line 0 ['\x7b']) [] :=
    (lists_silent (by decide)).append (lists_silent (by decide))
  have hlisten : nginxFormat.Lists
      (line 1 ("listen ".toList ++ v.interface ++ ':' :: port ++ [';'])) [] := by
    simp only [List.append_assoc]
    exact lists_opening 1 "listen".toList [] (by decide) (by decide)
      (by decide) (by decide) (hv.interface.append ((hport.append (by decide)).cons (by decide)))
  have hroot : nginxFormat.Lists
      (line 1 ("root \"".toList ++ FilePath.slash (v.documentRoot ++ ['/']) '/' ++ "\";".toList))
      [] := by
    simp only [List.append_assoc]
    exact lists_opening 1 "root".toList ['"'] (by decide) (by decide)
      (by decide) (by decide) ((hv.documentRoot.append (by decide)).slash.append (by decide))
  have hnames : nginxFormat.Lists
      (line 1 ("server_name ".toList ++ v.serverNames ++ [';'])) (namesOf v.name v.aliases) := by
    have hone : '\n' ∉ v.serverNames ++ [';'] := by
      rw [Vhost.serverNames, List.mem_append, List.mem_append, List.mem_flatMap]
      rintro ((hmem | ⟨a, ha, hmem⟩) | hmem)
      · exact oneLine_of_field hv.name_field hmem
      · exact (oneLine_of_field (hv.alias_field ha)).cons (by decide) hmem
      · exact absurd hmem (by decide)
    have hvalues := @values_names (v.aliases.map (hostnameOf v.name)) v.name hv.names
    rw [List.flatMap_map] at hvalues
    have hword := @lists_word nginxFormat 1 "server_name".toList _ (by decide) hone
    rw [if_pos (by decide)] at hword
    have hlisted : (words (v.serverNames ++ [';'])).map nginxFormat.value =
        namesOf v.name v.aliases := hvalues
    rw [hlisted] at hword
    simp only [List.append_assoc]
    exact hword
  have hblock := ((hopen.append hlisten).append hnames).append_nil hroot
  delta Vhost.nginxBody
  exact hblock

/-- Both blocks of an Apache host list the names of the site. -/
theorem names_apache {phpWrapper phpHandler : Text}
    (hwrapper : apacheFormat.Lists phpWrapper []) (hhandler : apacheFormat.Lists phpHandler []) :
    apacheFormat.httpNames (v.apache phpWrapper phpHandler) = namesOf v.name v.aliases ∧
      apacheFormat.httpsNames (v.apache phpWrapper phpHandler) = namesOf v.name v.aliases := by
  have hcertificate : apacheFormat.Lists (line 1 "SSLEngine On".toList ++
      line 1 ("SSLCertificateFile \"".toList ++ v.sslCrtFile ++ ['"']) ++
      line 1 ("SSLCertificateKeyFile \"".toList ++ v.sslKeyFile ++ ['"'])) [] := by
    simp only [List.append_assoc]
    exact (lists_silent (by decide)).append
      ((lists_opening 1 "SSLCertificateFile".toList ['"'] (by decide)
        (by decide) (by decide) (by decide) (hv.sslCrtFile.append (by decide))).append
      (lists_opening 1 "SSLCertificateKeyFile".toList ['"'] (by decide)
        (by decide) (by decide) (by decide) (hv.sslKeyFile.append (by decide))))
  have hhttp := lists_apacheBody hv hv.httpPort hwrapper hhandler
  have hhttps := (lists_apacheBody hv hv.httpsPort hwrapper hhandler).append_nil hcertificate
  have hnames := names_blocks hhttp hhttps
  have htext : v.apache phpWrapper phpHandler =
      v.apacheBody v.httpPort phpWrapper phpHandler ++ apacheFormat.close ++ "\n\n".toList ++
        (v.apacheBody v.httpsPort phpWrapper phpHandler ++ (line 1 "SSLEngine On".toList ++
          line 1 ("SSLCertificateFile \"".toList ++ v.sslCrtFile ++ ['"']) ++
          line 1 ("SSLCertificateKeyFile \"".toList ++ v.sslKeyFile ++ ['"'])) ++
          apacheFormat.close) := by
    have hclose : apacheFormat.close = "</VirtualHost>".toList := rfl
    delta Vhost.apache
    simp only [List.append_assoc, hclose]
  rwa [htext]

/-- Both blocks of an Nginx host list the names of the site. -/
theorem names_nginx {phpWrapper : Text} (hwrapper : nginxFormat.Lists phpWrapper []) :
    nginxFormat.httpNames (v.nginx phpWrapper) = namesOf v.name v.aliases ∧
      nginxFormat.httpsNames (v.nginx phpWrapper) = namesOf v.name v.aliases := by
  have hcertificate : nginxFormat.Lists
      (line 1 ("ssl_certificate \"".toList ++ v.sslCrtFile ++ "\";".toList) ++
        (line 1 ("ssl_certificate_key \"".toList ++ v.sslKeyFile ++ "\";".toList) ++
        (line 1 "ssl_session_cache shared:SSL:1m;".toList ++
        (line 1 "ssl_session_timeout 5m;".toList ++
        (line 1 "ssl_ciphers HIGH:!aNULL:!MD5;".toList ++
        line 1 "ssl_prefer_server_ciphers on;".toList))))) [] := by
    simp only [List.append_assoc]
    exact (lists_opening 1 "ssl_certificate".toList ['"'] (by decide)
        (by decide) (by decide) (by decide) (hv.sslCrtFile.append (by decide))).append
      ((lists_opening 1 "ssl_certificate_key".toList ['"'] (by decide)
        (by decide) (by decide) (by decide) (hv.sslKeyFile.append (by decide))).append
      ((lists_silent (by decide)).append ((lists_silent (by decide)).append
        ((lists_silent (by decide)).append (lists_silent (by decide))))))
  have hhttp := (lists_nginxBody hv hv.httpPort).append_nil hwrapper
  have hhttps := ((lists_nginxBody hv (hv.httpsPort.append
    (u := " ssl".toList) (by decide))).append_nil hcertificate).append_nil hwrapper
  have hnames := names_blocks hhttp hhttps
  have htext : v.nginx phpWrapper =
      v.nginxBody v.httpPort ++ phpWrapper ++ nginxFormat.close ++ "\n\n".toList ++
        (v.nginxBody (v.httpsPort ++ " ssl".toList) ++
          (line 1 ("ssl_certificate \"".toList ++ v.sslCrtFile ++ "\";".toList) ++
          (line 1 ("ssl_certificate_key \"".toList ++ v.sslKeyFile ++ "\";".toList) ++
          (line 1 "ssl_session_cache shared:SSL:1m;".toList ++
          (line 1 "ssl_session_timeout 5m;".toList ++
          (line 1 "ssl_ciphers HIGH:!aNULL:!MD5;".toList ++
          line 1 "ssl_prefer_server_ciphers on;".toList))))) ++ phpWrapper ++
          nginxFormat.close) := by
    have hclose : nginxFormat.close = ['\x7d'] := rfl
    delta Vhost.nginx
    simp only [List.append_assoc, hclose]
  rwa [htext]

end Blocks

/-! ## The texts of a site -/

/-- The format of a server's virtual hosts. -/
def formatOf (db : Database) (instanceId : ℤ) : Format :=
  if httpdType db (some instanceId) = "apache".toList then apacheFormat else nginxFormat

/-- The port of the first endpoint of an instance. -/
def firstPort (db : Database) (instanceId : Option ℤ) : Text :=
  ((endpoint db instanceId).map fun row => row.port.toText).getD []

/-- Paths, ports and instance names are single lines. -/
structure Printable (env : Env) (db : Database) (root : Text) (httpd php : Option ℤ) : Prop where
  wampPath : OneLine env.wampPath
  root : OneLine root
  instanceName : OneLine (instanceName db httpd) ∧ OneLine (Site.instanceName db php)
  ports : OneLine (portOf db httpd "http".toList) ∧ OneLine (portOf db httpd "https".toList)
  phpEndpoint : OneLine (interfaceOf db php) ∧ OneLine (firstPort db php)

instance (env : Env) (db : Database) (root : Text) (httpd php : Option ℤ) :
    Decidable (Printable env db root httpd php) :=
  decidable_of_iff
    (OneLine env.wampPath ∧ OneLine root ∧
      (OneLine (instanceName db httpd) ∧ OneLine (Site.instanceName db php)) ∧
      (OneLine (portOf db httpd "http".toList) ∧ OneLine (portOf db httpd "https".toList)) ∧
      OneLine (interfaceOf db php) ∧ OneLine (firstPort db php))
    ⟨fun ⟨h₁, h₂, h₃, h₄, h₅⟩ => ⟨h₁, h₂, h₃, h₄, h₅⟩,
      fun h => ⟨h.wampPath, h.root, h.instanceName, h.ports, h.phpEndpoint⟩⟩

section Texts

variable {env : Env} {db : Database} {root : Text} {httpd : Option ℤ} {php : ℤ}
  (h : Printable env db root httpd (some php))
include h

theorem lists_apacheWrapper : apacheFormat.Lists (apacheWrapper env db php) [] := by
  have hfixed : apacheFormat.Lists (line 1 "FcgidMaxRequestLen 50000000".toList ++
      line 1 "FcgidIOTimeout 7200".toList ++ line 1 "FcgidConnectTimeout 7200".toList ++
      line 1 "FcgidBusyTimeout 7200".toList ++ line 1 "FcgidIdleTimeout 7200".toList ++
      line 1 "FcgidProcessLifeTime 7200".toList) [] :=
    (((((Format.lists_silent (by decide)).append (Format.lists_silent (by decide))).append
      (Format.lists_silent (by decide))).append (Format.lists_silent (by decide))).append
        (Format.lists_silent (by decide))).append (Format.lists_silent (by decide))
  have hpath : OneLine (FilePath.slash (env.binPath ++ '\\' :: instanceName db (some php) ++
      "\\php-cgi.exe".toList) '/') :=
    (((h.wampPath.append (u := "\\bin".toList) (by decide)).append
      (h.instanceName.2.cons (by decide))).append (by decide)).slash
  have hwrapper : apacheFormat.Lists (line 1 ("FcgidWrapper \"".toList ++
      (FilePath.slash (env.binPath ++ '\\' :: instanceName db (some php) ++
        "\\php-cgi.exe".toList) '/' ++ "\" .php".toList))) [] :=
    Format.lists_opening 1 "FcgidWrapper".toList ['"'] (by decide)
      (by decide) (by decide) (by decide) (hpath.append (by decide))
  have hboth := hfixed.append_nil hwrapper
  delta apacheWrapper
  simp only [List.append_assoc] at hboth ⊢
  exact hboth

theorem lists_nginxWrapper : nginxFormat.Lists (nginxWrapper db php) [] := by
  have hfront : nginxFormat.Lists (line 1 "location /".toList ++ line 1 ['\x7b'] ++
      line 2 "try_files $uri $uri/ /index.php?$args;".toList ++ line 1 ['\x7d'] ++
      line 1 "location ~ \\.php$".toList ++ line 1 ['\x7b']) [] :=
    (((((Format.lists_silent (by decide)).append (Format.lists_silent (by decide))).append
      (Format.lists_silent (by decide))).append (Format.lists_silent (by decide))).append
        (Format.lists_silent (by decide))).append (Format.lists_silent (by decide))
  have hpass : nginxFormat.Lists (line 2 ("fastcgi_pass ".toList ++
      (interfaceOf db (some php) ++ ':' :: (firstPort db (some php) ++ [';'])))) [] :=
    Format.lists_opening 2 "fastcgi_pass".toList [] (by decide) (by decide)
      (by decide) (by decide) (h.phpEndpoint.1.append
        ((h.phpEndpoint.2.append (by decide)).cons (by decide)))
  have hback : nginxFormat.Lists (line 2 "fastcgi_index index.php;".toList ++
      line 2 "fastcgi_param SCRIPT_FILENAME  $document_root$fastcgi_script_name;".toList ++
      line 2 "include fastcgi_params;".toList ++ line 1 ['\x7d']) [] :=
    (((Format.lists_silent (by decide)).append (Format.lists_silent (by decide))).append
      (Format.lists_silent (by decide))).append (Format.lists_silent (by decide))
  have hboth := (hfront.append_nil hpass).append_nil hback
  delta nginxWrapper
  simp only [List.append_assoc] at hboth ⊢
  exact hboth

end Texts

/-- The blocks of a made virtual host list the names of its site. -/
theorem names_vhostText {env : Env} {db : Database} {site : SiteRow} {v : Vhost}
    {instanceId : ℤ} (hserver : site.httpdInstanceId = some instanceId) (hv : v.Proper)
    (h : Printable env db v.documentRoot site.httpdInstanceId site.phpInstanceId) :
    (formatOf db instanceId).httpNames (vhostText env db site v) = namesOf v.name v.aliases ∧
      (formatOf db instanceId).httpsNames (vhostText env db site v) =
        namesOf v.name v.aliases := by
  unfold vhostText formatOf
  rw [hserver]
  by_cases happache : httpdType db (some instanceId) = "apache".toList
  · rw [if_pos happache, if_pos happache]
    cases hphp : site.phpInstanceId with
    | none => exact names_apache hv .nil .nil
    | some php =>
        rw [hphp] at h
        exact names_apache hv (lists_apacheWrapper h) (Format.lists_silent (by decide))
  · rw [if_neg happache, if_neg happache]
    cases hphp : site.phpInstanceId with
    | none => exact names_nginx hv .nil
    | some php =>
        rw [hphp] at h
        exact names_nginx hv (lists_nginxWrapper h)

/-! ## What the certificate lists -/

/-- An entry reads back as its value. -/
theorem dnsName_entry {number value : Text} (hnumber : ∀ c ∈ number, c.isDigit = true)
    (hvalue : HostToken value) :
    CA.dnsName ("DNS.".toList ++ (number ++ " = ".toList ++ value)) = some value := by
  have hsplit : "DNS.".toList ++ (number ++ " = ".toList ++ value) =
      ("DNS.".toList ++ number ++ [' ']) ++ '=' :: ' ' :: value := by
    simp
  have hfront : ∀ c ∈ "DNS.".toList ++ number ++ [' '], decide (c ≠ '=') = true := by
    intro c hc
    rcases List.mem_append.mp hc with hc | hc
    · rcases List.mem_append.mp hc with hc | hc
      · have hplain : ∀ d ∈ "DNS.".toList, decide (d ≠ '=') = true := by decide
        exact hplain c hc
      · rw [decide_eq_true_eq]
        rintro rfl
        exact absurd (hnumber _ hc) (by decide)
    · rw [List.mem_singleton.mp hc]
      decide
  have hbegin : "DNS.".toList.isPrefixOf ("DNS.".toList ++ (number ++ " = ".toList ++ value)) :=
    List.isPrefixOf_iff_prefix.mpr (List.prefix_append _ _)
  have htrim : Text.trim (' ' :: value) = value := by
    rw [Text.trim_cons (by rfl), Text.trim_of_no_ends]
    · intro c hc
      exact (hvalue.field.2 c (List.mem_of_head? hc)).2.1
    · intro c hc
      exact (hvalue.field.2 c (List.mem_of_getLast? hc)).2.1
  rw [CA.dnsName, if_pos hbegin, hsplit, List.dropWhile_append_of_pos hfront,
    List.dropWhile_cons_of_neg (by simp), List.tail_cons, htrim]

/-- The entries of the aliases follow the line in front of them. -/
theorem dnsNames_aliasEntries {domain : Text} :
    ∀ {aliases : List Text} {counter : ℕ} {first : Text}, '\n' ∉ first →
      (∀ a ∈ aliases, HostToken (hostnameOf domain a)) →
      ((first ++ CA.aliasEntries domain counter aliases).splitOn '\n').filterMap CA.dnsName =
        (CA.dnsName first).toList ++ aliases.map (hostnameOf domain) := by
  intro aliases
  induction aliases with
  | nil =>
      intro counter first hfirst _
      have hnone : CA.aliasEntries domain counter [] = [] := rfl
      rw [hnone, List.append_nil, List.splitOn_eq_singleton hfirst]
      cases hname : CA.dnsName first <;> simp [hname]
  | cons a aliases ih =>
      intro counter first hfirst haliases
      have hvalue := haliases a List.mem_cons_self
      have hdigits : ∀ c ∈ Nat.toDigits 10 counter, c.isDigit = true :=
        fun c hc => Nat.isDigit_of_mem_toDigits (by decide) (by decide) hc
      have hentry : '\n' ∉ "DNS.".toList ++
          (Nat.toDigits 10 counter ++ " = ".toList ++ hostnameOf domain a) := by
        rw [List.mem_append, List.mem_append, List.mem_append]
        rintro (hmem | (hmem | hmem) | hmem)
        · exact absurd hmem (by decide)
        · exact absurd (hdigits _ hmem) (by decide)
        · exact absurd hmem (by decide)
        · exact oneLine_of_field hvalue.field hmem
      have hshape : first ++ CA.aliasEntries domain counter (a :: aliases) =
          first ++ '\n' :: (("DNS.".toList ++
            (Nat.toDigits 10 counter ++ " = ".toList ++ hostnameOf domain a)) ++
              CA.aliasEntries domain (counter + 1) aliases) := by
        have hbreak : "\nDNS.".toList = '\n' :: "DNS.".toList := rfl
        have hcons : CA.aliasEntries domain counter (a :: aliases) =
            "\nDNS.".toList ++ Nat.toDigits 10 counter ++ " = ".toList ++ a ++ '.' :: domain ++
              CA.aliasEntries domain (counter + 1) aliases := rfl
        simp only [hcons, hbreak, hostnameOf, List.append_assoc, List.cons_append]
      rw [hshape, List.splitOn_append_cons_self_of_not_mem hfirst, List.filterMap_cons,
        ih hentry fun b hb => haliases b (List.mem_cons_of_mem _ hb),
        dnsName_entry hdigits hvalue]
      cases CA.dnsName first <;> rfl

/-- The certificate is for the name and for each posted alias. -/
theorem dnsNames_config {domain : Text} {aliases : List Text}
    (h : ∀ hostname ∈ namesOf domain aliases, HostToken hostname) :
    CA.dnsNames (CA.config domain aliases) = namesOf domain aliases := by
  let header := ["[ req ]", "x509_extensions = usr_cert", "distinguished_name = dn", "",
    "[ dn ]", "", "[ usr_cert ]", "subjectAltName = @alt_names", "",
    "[ alt_names ]"].map String.toList
  have hdomain := h domain List.mem_cons_self
  have hfirst : '\n' ∉ "DNS.".toList ++ (['1'] ++ " = ".toList ++ domain) := by
    rw [List.mem_append, List.mem_append]
    rintro (hmem | hmem | hmem)
    · exact absurd hmem (by decide)
    · exact absurd hmem (by decide)
    · exact oneLine_of_field hdomain.field hmem
  have hshape : CA.config domain aliases =
      Text.unlines header ++ (("DNS.".toList ++ (['1'] ++ " = ".toList ++ domain)) ++
        CA.aliasEntries domain 2 aliases) := by
    have hheader : "[ req ]\nx509_extensions = usr_cert\ndistinguished_name = dn\n\n[ dn ]\n\n".toList ++
        "[ usr_cert ]\nsubjectAltName = @alt_names\n\n[ alt_names ]\n".toList =
          Text.unlines header := by decide +kernel
    have hone : "DNS.1 = ".toList = "DNS.".toList ++ (['1'] ++ " = ".toList) := rfl
    delta CA.config
    simp only [hheader, hone]
    simp only [List.append_assoc]
  have hplain : ∀ l ∈ header, '\n' ∉ l := by decide
  have hsilent : header.filterMap CA.dnsName = [] := by decide
  rw [CA.dnsNames, hshape, Text.splitOn_unlines_append hplain, List.filterMap_append, hsilent,
    List.nil_append, dnsNames_aliasEntries hfirst
      fun a ha => h _ (List.mem_cons_of_mem _ (List.mem_map_of_mem ha)),
    dnsName_entry (by decide) hdomain]
  rfl

end Site

end WampManager
