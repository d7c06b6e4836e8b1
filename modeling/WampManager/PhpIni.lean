/-
# The configuration of a PHP version

The install of a PHP version makes a `php.ini` from the template of the package: the time
zone, lines for add-ons, the selected modules, the limits and what is the same for all. It
replaces texts, one after another, wherever they stand. All of them have an equals sign, so
that the template can be followed line by line.
-/

import WampManager.Lib.IniFile
import WampManager.Lib.Translate
import WampManager.Verify

namespace WampManager

open Text (strReplace Clear)
open Ini (Setting Edit settings)

/-! ## The install -/

/-- What the class files of PHP do in different ways. -/
structure PhpClass where
  /-- The file that the posted key of a module stands for. -/
  file : Text → Text
  /-- The text behind which the lines for add-ons are put. -/
  anchor : Text
  /-- The lines of `$ext_addon`. -/
  addons : List Text
  /-- The modules that are loaded as extensions of the engine. -/
  zend : List Text
  extensionDir : Text

namespace PhpClass

/-- The class file `php`. -/
def php : PhpClass where
  file := fun key => key ++ ".dll".toList
  anchor := ";extension=php_xsl.dll".toList
  addons := [";extension=php_memcache.dll", ";extension=php_mongodb.dll",
    ";extension=php_redis.dll", ";extension=php_xdebug.dll"].map String.toList
  zend := ["php_xdebug".toList]
  extensionDir := "; extension_dir".toList

/-- The class file `php7.4`; `php7.3` is the same. -/
def php74 : PhpClass where
  file := fun key => key.drop 4
  anchor := ";extension=xsl".toList
  addons := [";extension=opcache", "", ";extension=memcache", ";extension=mongodb",
    ";extension=redis", ";extension=xdebug"].map String.toList
  zend := ["php_opcache".toList, "php_xdebug".toList]
  extensionDir := ";extension_dir".toList

/-- The class file `php7.2`. -/
def php72 : PhpClass := { php74 with extensionDir := "; extension_dir".toList }

/-- The class file `php8.1.2`; `php8.0` and `php8.1` are the same. -/
def php812 : PhpClass where
  file := fun key => key.drop 4
  anchor := ";zend_extension=opcache".toList
  addons := [";extension=memcache", ";extension=mongodb", ";extension=redis",
    ";extension=xdebug"].map String.toList
  zend := ["php_xdebug".toList]
  extensionDir := ";extension_dir".toList

end PhpClass

/-- The class files that write a `php.ini`. -/
def ClassFile.phpClass : ClassFile → Option PhpClass
  | .php => some .php
  | .php72 => some .php72
  | .php73 | .php74 => some .php74
  | .php80 | .php81 | .php812 => some .php812
  | _ => none

/-- The limits that are posted. -/
inductive Limit
  | memoryLimit | maxInputVars | maxExecutionTime | maxInputTime
  deriving DecidableEq

namespace Limit

def key : Limit → Text
  | .memoryLimit => "memory_limit".toList
  | .maxInputVars => "max_input_vars".toList
  | .maxExecutionTime => "max_execution_time".toList
  | .maxInputTime => "max_input_time".toList

/-- The value that is searched for. -/
def preset : Limit → Text
  | .memoryLimit => "128M".toList
  | .maxInputVars => "1000".toList
  | .maxExecutionTime => "30".toList
  | .maxInputTime => "60".toList

/-- The posted value. -/
def posted (form : PostedForm) (limit : Limit) : Text := (form.value limit.key).toText

/-- The posted value with its unit. -/
def value (form : PostedForm) : Limit → Text
  | .memoryLimit => memoryLimit.posted form ++ ['M']
  | limit => limit.posted form

end Limit

namespace PhpIni

/-- The posted keys. -/
def keys (form : PostedForm) : List Text := form.map Prod.fst

/-- The posted keys of modules. -/
def moduleKeys (form : PostedForm) : List Text :=
  (keys form).filter fun key => key.take 4 = "php_".toList

/-- `install`: the text that is written to `php.ini`. -/
def configure (env : Env) (php : PhpClass) (form : PostedForm) (data : Text) : Text :=
  let data := strReplace ";date.timezone =".toList
    ("date.timezone = ".toList ++ (form.value "timezone".toList).toText) data
  let data := strReplace php.anchor (php.anchor ++ '\n' :: Text.unlines php.addons) data
  let data := (moduleKeys form).foldl (fun data key =>
    strReplace (";extension=".toList ++ php.file key) ("extension=".toList ++ php.file key) data) data
  let data := if "php_exif".toList ∈ keys form then
      strReplace (";extension=".toList ++ php.file "php_mbstring".toList)
        ("extension=".toList ++ php.file "php_mbstring".toList) data
    else data
  let data := php.zend.foldl (fun data key =>
    strReplace ("extension=".toList ++ php.file key) ("zend_extension=".toList ++ php.file key)
      data) data
  let data := strReplace (php.extensionDir ++ " = \"ext\"".toList) "extension_dir = \"ext\"".toList data
  let data := strReplace "memory_limit = 128M".toList
    ("memory_limit = ".toList ++ Limit.memoryLimit.value form) data
  let data := strReplace "max_input_vars = 1000".toList
    ("max_input_vars = ".toList ++ Limit.maxInputVars.value form) data
  let data := strReplace "max_execution_time = 30".toList
    ("max_execution_time = ".toList ++ Limit.maxExecutionTime.value form) data
  let data := strReplace "max_input_time = 60".toList
    ("max_input_time = ".toList ++ Limit.maxInputTime.value form) data
  let data := strReplace "upload_max_filesize = 2M".toList "upload_max_filesize = 50M".toList data
  let data := strReplace "post_max_size = 8M".toList "post_max_size = 50M".toList data
  let data := strReplace "SMTP = localhost".toList "; SMTP = localhost".toList data
  let data := strReplace "smtp_port = 25".toList "; smtp_port = 25".toList data
  let sendmailPath := env.wampPath ++ "\\manager\\bin\\dev-svr\\wamp.net.php.exe ".toList ++
    env.wampPath ++ "\\manager\\bin\\tools\\sendmail.php".toList
  strReplace ";sendmail_path =".toList ("sendmail_path = ".toList ++ sendmailPath) data

/-! ## The replacements as edits -/

def zoneEdit (form : PostedForm) : Edit where
  front := ";date.timezone ".toList
  back := []
  newFront := "date.timezone ".toList
  newBack := ' ' :: (form.value "timezone".toList).toText

def moduleEdit (php : PhpClass) (key : Text) : Edit where
  front := ";extension".toList
  back := php.file key
  newFront := "extension".toList
  newBack := php.file key

def zendEdit (php : PhpClass) (key : Text) : Edit where
  front := "extension".toList
  back := php.file key
  newFront := "zend_extension".toList
  newBack := php.file key

def extensionDirEdit (php : PhpClass) : Edit where
  front := php.extensionDir ++ [' ']
  back := " \"ext\"".toList
  newFront := "extension_dir ".toList
  newBack := " \"ext\"".toList

def limitEdit (form : PostedForm) (limit : Limit) : Edit where
  front := limit.key ++ [' ']
  back := ' ' :: limit.preset
  newFront := limit.key ++ [' ']
  newBack := ' ' :: limit.value form

/-- The replacements that are the same for all, behind the limits. -/
def fixedEdits (env : Env) : List Edit :=
  [⟨"upload_max_filesize ".toList, " 2M".toList, "upload_max_filesize ".toList, " 50M".toList⟩,
    ⟨"post_max_size ".toList, " 8M".toList, "post_max_size ".toList, " 50M".toList⟩,
    ⟨"SMTP ".toList, " localhost".toList, "; SMTP ".toList, " localhost".toList⟩,
    ⟨"smtp_port ".toList, " 25".toList, "; smtp_port ".toList, " 25".toList⟩,
    ⟨";sendmail_path ".toList, [], "sendmail_path ".toList,
      ' ' :: (env.wampPath ++ "\\manager\\bin\\dev-svr\\wamp.net.php.exe ".toList ++
        env.wampPath ++ "\\manager\\bin\\tools\\sendmail.php".toList)⟩]

/-- The keys of the modules that are switched on, in order. -/
def switchedOn (form : PostedForm) : List Text :=
  moduleKeys form ++ if "php_exif".toList ∈ keys form then ["php_mbstring".toList] else []

/-- The replacements in front of the limits, but for the first two. -/
def moduleEdits (php : PhpClass) (form : PostedForm) : List Edit :=
  (switchedOn form).map (moduleEdit php) ++ (php.zend.map (zendEdit php) ++ [extensionDirEdit php])

def limits : List Limit := [.memoryLimit, .maxInputVars, .maxExecutionTime, .maxInputTime]

instance (p : Limit → Prop) [DecidablePred p] : Decidable (∀ limit, p limit) :=
  decidable_of_iff (∀ limit ∈ limits, p limit)
    ⟨fun h limit => h limit (by cases limit <;> decide), fun h limit _ => h limit⟩

/-- The replacements behind the lines for add-ons. -/
def edits (env : Env) (php : PhpClass) (form : PostedForm) : List Edit :=
  moduleEdits php form ++ (limits.map (limitEdit form) ++ fixedEdits env)

/-- The template with the lines for add-ons. -/
def insertAddons (php : PhpClass) (data : Text) : Text :=
  strReplace php.anchor (php.anchor ++ '\n' :: Text.unlines php.addons) data

theorem extensionDirEdit_apply (php : PhpClass) (t : Text) :
    strReplace (php.extensionDir ++ " = \"ext\"".toList) "extension_dir = \"ext\"".toList t =
      (extensionDirEdit php).apply t := by
  have hsearch : php.extensionDir ++ " = \"ext\"".toList = (extensionDirEdit php).search := by
    rw [Edit.search, extensionDirEdit, List.append_assoc]
    rfl
  rw [hsearch]
  rfl

theorem strReplace_eq_apply {e : Edit} {search replacement t t' : Text} (hsearch : search = e.search)
    (hreplacement : replacement = e.replacement) (ht : t = t') :
    strReplace search replacement t = e.apply t' := by
  rw [hsearch, hreplacement, ht, Edit.apply]

theorem configure_eq (env : Env) (php : PhpClass) (form : PostedForm) (data : Text) :
    configure env php form data =
      Edit.applyAll (edits env php form) (insertAddons php ((zoneEdit form).apply data)) := by
  have hmodules : ∀ (ks : List Text) (t : Text), ks.foldl (fun data key =>
      strReplace (";extension=".toList ++ php.file key) ("extension=".toList ++ php.file key) data) t =
        Edit.applyAll (ks.map (moduleEdit php)) t := by
    intro ks t
    rw [Edit.applyAll, List.foldl_map]
    rfl
  have hzend : ∀ t, php.zend.foldl (fun data key => strReplace ("extension=".toList ++ php.file key)
      ("zend_extension=".toList ++ php.file key) data) t =
        Edit.applyAll (php.zend.map (zendEdit php)) t := by
    intro t
    rw [Edit.applyAll, List.foldl_map]
    rfl
  have hexif : ∀ t, (if "php_exif".toList ∈ keys form then
      strReplace (";extension=".toList ++ php.file "php_mbstring".toList)
        ("extension=".toList ++ php.file "php_mbstring".toList) t else t) =
      Edit.applyAll ((if "php_exif".toList ∈ keys form then
        ["php_mbstring".toList] else []).map (moduleEdit php)) t := by
    intro t
    split <;> rfl
  unfold configure
  simp only [hmodules, hzend, hexif, extensionDirEdit_apply, edits, moduleEdits, switchedOn,
    fixedEdits, limits, Edit.applyAll_append, Edit.applyAll_cons, Edit.applyAll_nil,
    List.map_append, List.map_cons, List.map_nil]
  refine strReplace_eq_apply rfl rfl ?_
  refine strReplace_eq_apply rfl rfl (strReplace_eq_apply rfl rfl ?_)
  refine strReplace_eq_apply rfl rfl (strReplace_eq_apply rfl rfl ?_)
  refine strReplace_eq_apply rfl rfl (strReplace_eq_apply rfl rfl ?_)
  exact strReplace_eq_apply rfl rfl (strReplace_eq_apply rfl rfl rfl)

/-- The install finds nothing to replace in a value. -/
def Quiet (env : Env) (php : PhpClass) (form : PostedForm) (value : Text) : Prop :=
  ∀ e ∈ zoneEdit form :: edits env php form, ¬ e.search <:+: value

instance (env : Env) (php : PhpClass) (form : PostedForm) (value : Text) :
    Decidable (Quiet env php form value) := inferInstanceAs (Decidable (∀ e ∈ _, _))

/-! ## What is posted -/

/-- No breaks, no blanks and no marks of an ini file. -/
def IsWord (t : Text) : Prop :=
  ∀ c ∈ t, Ini.isBreak c = false ∧ Ini.isBlank c = false ∧ c ∉ [';', '=', '"', '\'']

instance (t : Text) : Decidable (IsWord t) := inferInstanceAs (Decidable (∀ c ∈ _, _))

/-- The time zone is a name from the list of the wizard, and the modules are its check boxes. -/
structure FromWizard (form : PostedForm) : Prop where
  zone : IsWord (form.value "timezone".toList).toText
  keys : ∀ key ∈ moduleKeys form, IsWord key

/-- The texts that lines for add-ons are put behind. -/
def anchors : List Text :=
  [";extension=php_xsl.dll", ";extension=xsl", ";zend_extension=opcache"].map String.toList

/-- What all class files have in common. -/
structure Sound (php : PhpClass) : Prop where
  file : ∀ key, IsWord key → IsWord (php.file key)
  zend : ∀ key ∈ php.zend, IsWord key
  anchor : php.anchor ∈ anchors
  extensionDir : php.extensionDir ∈ [";extension_dir", "; extension_dir"].map String.toList
  addons : ∃ names : List Text, (∀ key ∈ names, IsWord key) ∧
    settings (Text.unlines php.addons) =
      names.map fun key => ⟨";extension".toList, php.file key⟩

theorem sound_of_phpClass {classFile : ClassFile} {php : PhpClass}
    (h : classFile.phpClass = some php) : Sound php := by
  have hdrop : ∀ key, IsWord key → IsWord (key.drop 4) := fun key hkey c hc =>
    hkey c (List.mem_of_mem_drop hc)
  have hdll : ∀ key, IsWord key → IsWord (key ++ ".dll".toList) := fun key hkey c hc =>
    (List.mem_append.mp hc).elim (hkey c) ((by decide +kernel : IsWord ".dll".toList) c)
  have haddons : settings (Text.unlines PhpClass.php812.addons) =
      (["php_memcache", "php_mongodb", "php_redis", "php_xdebug"].map String.toList).map
        fun key => ⟨";extension".toList, key.drop 4⟩ := by decide +kernel
  have haddons74 : settings (Text.unlines PhpClass.php74.addons) =
      (["php_opcache", "php_memcache", "php_mongodb", "php_redis", "php_xdebug"].map
        String.toList).map fun key => ⟨";extension".toList, key.drop 4⟩ := by decide +kernel
  have haddonsDll : settings (Text.unlines PhpClass.php.addons) =
      (["php_memcache", "php_mongodb", "php_redis", "php_xdebug"].map String.toList).map
        fun key => ⟨";extension".toList, key ++ ".dll".toList⟩ := by decide +kernel
  have h812 : Sound .php812 := ⟨hdrop, by decide +kernel, by decide +kernel, by decide +kernel,
    _, by decide +kernel, haddons⟩
  have h74 : Sound .php74 := ⟨hdrop, by decide +kernel, by decide +kernel, by decide +kernel,
    _, by decide +kernel, haddons74⟩
  have h72 : Sound .php72 := ⟨hdrop, h74.zend, h74.anchor, by decide +kernel, h74.addons⟩
  have hphp : Sound .php := ⟨hdll, by decide +kernel, by decide +kernel, by decide +kernel,
    _, by decide +kernel, haddonsDll⟩
  cases classFile with
  | php => exact Option.some.inj h ▸ hphp
  | php72 => exact Option.some.inj h ▸ h72
  | php73 | php74 => exact Option.some.inj h ▸ h74
  | php80 | php81 | php812 => exact Option.some.inj h ▸ h812
  | _ => cases h

/-! ## The labels -/

/-- What the labels end in that are searched for and put in, the limits apart. -/
def labels : List Text :=
  [";date.timezone ", "date.timezone ", ";extension", "extension", "zend_extension",
    ";extension_dir ", "; extension_dir ", "extension_dir ", "upload_max_filesize ",
    "post_max_size ", "SMTP ", "; SMTP ", "smtp_port ", "; smtp_port ", ";sendmail_path ",
    "sendmail_path "].map String.toList

/-- What a label can end in, if it is not the one of a limit. -/
structure IsLabel (label : Text) : Prop where
  solid : Edit.Solid label
  foreign : ∀ limit : Limit, ¬ label.rdropWhile Ini.isBlank <:+ limit.key

instance (label : Text) : Decidable (IsLabel label) :=
  decidable_of_iff (Edit.Solid label ∧ ∀ limit : Limit, ¬ label.rdropWhile Ini.isBlank <:+ limit.key)
    ⟨fun h => ⟨h.1, h.2⟩, fun h => ⟨h.solid, h.foreign⟩⟩

theorem isLabel_of_mem : ∀ label ∈ labels, IsLabel label := by decide +kernel

theorem zone_mem_labels : ";date.timezone ".toList ∈ labels ∧ "date.timezone ".toList ∈ labels := by
  simp [labels]

theorem module_mem_labels : ";extension".toList ∈ labels ∧ "extension".toList ∈ labels ∧
    "zend_extension".toList ∈ labels := by
  simp [labels]

theorem extensionDir_mem_labels {php : PhpClass} (hphp : Sound php) :
    (extensionDirEdit php).front ∈ labels ∧ (extensionDirEdit php).newFront ∈ labels := by
  have h := hphp.extensionDir
  simp only [List.map_cons, List.map_nil, List.mem_cons, List.not_mem_nil, or_false] at h
  rw [extensionDirEdit]
  rcases h with h | h <;> rw [h] <;> simp [labels]

theorem fixedEdits_mem_labels (env : Env) :
    ∀ e ∈ fixedEdits env, e.front ∈ labels ∧ e.newFront ∈ labels := by
  simp [fixedEdits, labels]

theorem foreign_of_labels {e : Edit} (h : e.front ∈ labels ∧ e.newFront ∈ labels)
    (limit : Limit) : e.Foreign limit.key :=
  ⟨(isLabel_of_mem _ h.1).foreign limit, (isLabel_of_mem _ h.2).foreign limit⟩

theorem inline_of_labels {e : Edit} (h : e.front ∈ labels ∧ e.newFront ∈ labels)
    (hback : ∀ c ∈ e.back, Ini.isBreak c = false)
    (hnewBack : ∀ c ∈ e.newBack, Ini.isBreak c = false) : e.Inline :=
  ⟨(isLabel_of_mem _ h.1).solid, (isLabel_of_mem _ h.2).solid, hback, hnewBack⟩

/-! ## Every replacement keeps to its line -/

section Inline

variable {php : PhpClass} (hphp : Sound php)

theorem no_break_of_isWord {t : Text} (h : IsWord t) : ∀ c ∈ t, Ini.isBreak c = false :=
  fun c hc => (h c hc).1

theorem no_break_append {s t : Text} (hs : ∀ c ∈ s, Ini.isBreak c = false)
    (ht : ∀ c ∈ t, Ini.isBreak c = false) : ∀ c ∈ s ++ t, Ini.isBreak c = false :=
  fun c hc => (List.mem_append.mp hc).elim (hs c) (ht c)

theorem no_break_cons_blank {t : Text} (h : ∀ c ∈ t, Ini.isBreak c = false) :
    ∀ c ∈ ' ' :: t, Ini.isBreak c = false :=
  List.forall_mem_cons.mpr ⟨rfl, h⟩

theorem zoneEdit_inline {form : PostedForm} (hform : FromWizard form) : (zoneEdit form).Inline :=
  inline_of_labels zone_mem_labels (fun _ hc => absurd hc List.not_mem_nil)
    (no_break_cons_blank (no_break_of_isWord hform.zone))

theorem solid_limit : ∀ limit : Limit, Edit.Solid (limit.key ++ [' ']) ∧
    (∀ c ∈ ' ' :: limit.preset, Ini.isBreak c = false) ∧
    ∀ other : Limit, limit ≠ other → ¬ (limit.key ++ [' ']).rdropWhile Ini.isBlank <:+ other.key := by
  decide +kernel

theorem limitEdit_inline {form : PostedForm} {limit : Limit}
    (h : ∀ c ∈ limit.value form, Ini.isBreak c = false) : (limitEdit form limit).Inline :=
  ⟨(solid_limit limit).1, (solid_limit limit).1, (solid_limit limit).2.1, no_break_cons_blank h⟩

theorem limitEdit_foreign (form : PostedForm) {limit other : Limit} (h : limit ≠ other) :
    (limitEdit form limit).Foreign other.key :=
  ⟨(solid_limit limit).2.2 other h, (solid_limit limit).2.2 other h⟩

include hphp

theorem moduleEdit_inline {key : Text} (hkey : IsWord key) : (moduleEdit php key).Inline :=
  inline_of_labels ⟨module_mem_labels.1, module_mem_labels.2.1⟩
    (no_break_of_isWord (hphp.file key hkey)) (no_break_of_isWord (hphp.file key hkey))

theorem zendEdit_inline {key : Text} (hkey : IsWord key) : (zendEdit php key).Inline :=
  inline_of_labels module_mem_labels.2 (no_break_of_isWord (hphp.file key hkey))
    (no_break_of_isWord (hphp.file key hkey))

theorem extensionDirEdit_inline : (extensionDirEdit php).Inline := by
  have hback : ∀ c ∈ " \"ext\"".toList, Ini.isBreak c = false := by simp [Ini.isBreak]
  exact inline_of_labels (extensionDir_mem_labels hphp) hback hback

end Inline

/-- The path of the installation is on one line. -/
def OnOneLine (env : Env) : Prop := ∀ c ∈ env.wampPath, Ini.isBreak c = false

instance (env : Env) : Decidable (OnOneLine env) := inferInstanceAs (Decidable (∀ c ∈ _, _))

theorem fixedEdits_inline {env : Env} (henv : OnOneLine env) : ∀ e ∈ fixedEdits env, e.Inline := by
  have hpath : ∀ c ∈ env.wampPath ++ "\\manager\\bin\\dev-svr\\wamp.net.php.exe ".toList ++
      env.wampPath ++ "\\manager\\bin\\tools\\sendmail.php".toList, Ini.isBreak c = false :=
    no_break_append (no_break_append (no_break_append henv (by simp [Ini.isBreak])) henv)
      (by simp [Ini.isBreak])
  have hbacks : ∀ e ∈ fixedEdits env, (∀ c ∈ e.back, Ini.isBreak c = false) ∧
      ∀ c ∈ e.newBack, Ini.isBreak c = false := by
    simp only [fixedEdits, List.forall_mem_cons, List.not_mem_nil, false_imp_iff, implies_true,
      and_true]
    exact ⟨by simp [Ini.isBreak], by simp [Ini.isBreak], by simp [Ini.isBreak],
      by simp [Ini.isBreak], trivial, List.forall_mem_cons.mp (no_break_cons_blank hpath)⟩
  exact fun e he => inline_of_labels (fixedEdits_mem_labels env e he) (hbacks e he).1 (hbacks e he).2

theorem isWord_of_mem_switchedOn {form : PostedForm} (hform : FromWizard form) :
    ∀ key ∈ switchedOn form, IsWord key := by
  intro key hkey
  rcases List.mem_append.mp hkey with hkey | hkey
  · exact hform.keys key hkey
  · split at hkey
    · rw [List.mem_singleton.mp hkey]
      simp [IsWord, Ini.isBreak, Ini.isBlank]
    · cases hkey

/-- All replacements of a class file but the one for the limit itself are foreign to it. -/
theorem moduleEdits_inline_foreign {php : PhpClass} (hphp : Sound php) {form : PostedForm}
    (hform : FromWizard form) (limit : Limit) :
    ∀ e ∈ moduleEdits php form, e.Inline ∧ e.Foreign limit.key := by
  intro e he
  rcases List.mem_append.mp he with he | he
  · obtain ⟨key, hkey, rfl⟩ := List.mem_map.mp he
    exact ⟨moduleEdit_inline hphp (isWord_of_mem_switchedOn hform key hkey),
      foreign_of_labels ⟨module_mem_labels.1, module_mem_labels.2.1⟩ limit⟩
  · rcases List.mem_append.mp he with he | he
    · obtain ⟨key, hkey, rfl⟩ := List.mem_map.mp he
      exact ⟨zendEdit_inline hphp (hphp.zend key hkey),
        foreign_of_labels module_mem_labels.2 limit⟩
    · rw [List.mem_singleton.mp he]
      exact ⟨extensionDirEdit_inline hphp,
        foreign_of_labels (extensionDir_mem_labels hphp) limit⟩

/-! ## The lines for add-ons -/

/-- What the searches for an anchor and for the time zone may overlap. -/
structure IsAnchor (anchor : Text) : Prop where
  ne_nil : anchor ≠ []
  self : Clear anchor anchor
  head : anchor.head? = some ';'
  zone : anchor.Apart ";date.timezone =".toList
  newZone : anchor ≠ "date.timezone = ".toList ∧ Clear anchor "date.timezone = ".toList
  cut : Text.Apart ";date.timezone =".toList (anchor ++ ['\n'])

theorem isAnchor_of_mem (anchor : Text) (h : anchor ∈ anchors) : IsAnchor anchor := by
  have hall : ∀ anchor ∈ anchors, anchor ≠ [] ∧ Clear anchor anchor ∧ anchor.head? = some ';' ∧
      (anchor ≠ ";date.timezone =".toList ∧ Clear anchor ";date.timezone =".toList ∧
        Clear ";date.timezone =".toList anchor) ∧
      (anchor ≠ "date.timezone = ".toList ∧ Clear anchor "date.timezone = ".toList) ∧
      (";date.timezone =".toList ≠ anchor ++ ['\n'] ∧
        Clear ";date.timezone =".toList (anchor ++ ['\n']) ∧
        Clear (anchor ++ ['\n']) ";date.timezone =".toList) := by decide +kernel
  obtain ⟨hne, hself, hhead, hzone, hnew, hcut⟩ := hall anchor h
  exact ⟨hne, hself, hhead, ⟨hzone.1, hzone.2.1, hzone.2.2⟩, hnew, ⟨hcut.1, hcut.2.1, hcut.2.2⟩⟩

theorem zone_clear : ";date.timezone =".toList ≠ [] ∧
    Clear ";date.timezone =".toList ";date.timezone =".toList := by decide +kernel

section Addons

variable {php : PhpClass} (hphp : Sound php)
include hphp

theorem anchor_clear : php.anchor ≠ [] ∧ Clear php.anchor php.anchor :=
  ⟨(isAnchor_of_mem _ hphp.anchor).ne_nil, (isAnchor_of_mem _ hphp.anchor).self⟩

/-- The time zone may be put in before or behind the lines are broken. -/
theorem cut_zoneEdit {form : PostedForm} (hform : FromWizard form) (t : Text) :
    Ini.cut php.anchor ((zoneEdit form).apply t) = (zoneEdit form).apply (Ini.cut php.anchor t) := by
  have h := isAnchor_of_mem _ hphp.anchor
  have hmark : ';' ∉ "date.timezone = ".toList ++ (form.value "timezone".toList).toText := by
    intro hmem
    rcases List.mem_append.mp hmem with hmem | hmem
    · simp at hmem
    · exact (hform.zone _ hmem).2.2 (by simp)
  have hdiffer : php.anchor ≠ "date.timezone = ".toList ++ (form.value "timezone".toList).toText :=
    fun heq => hmark (heq ▸ List.mem_of_head? h.head)
  exact Text.strReplace_comm h.ne_nil zone_clear.1 h.self zone_clear.2 h.zone
    ⟨hdiffer, h.newZone.2.append_right h.newZone.1 _, Text.clear_of_head h.head hmark⟩ h.cut t

/-- The settings of the lines for add-ons come to those of the template. -/
theorem settings_insertAddons_perm (t : Text) :
    (settings (insertAddons php t)).Perm (settings (Ini.cut php.anchor t) ++
      (List.replicate (Text.occurrences php.anchor t)
        (settings (Text.unlines php.addons))).flatten) :=
  Ini.settings_insert_perm (anchor_clear hphp).1 (anchor_clear hphp).2 php.addons t

end Addons

end PhpIni

end WampManager
