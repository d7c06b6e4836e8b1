/-
# Modules of a PHP version

A module is switched on by taking the semicolon away in front of `extension=` and its
file. The searched text has no end: it stands also where the name of another module goes
on. The lines of the template are followed through all replacements; a line of a module
keeps its file, and only the mark of the comment and the kind of the extension change.
-/

import WampManager.PhpIni

namespace WampManager

open Text (Clear)
open Ini (Setting Edit settings IsTail)

namespace PhpIni

/-! ## Lines that load modules -/

/-- The key that is posted for a module. -/
def keyOf (name : Text) : Text := "php_".toList ++ name

/-- The name of a module. -/
structure IsName (name : Text) : Prop where
  ne_nil : name ≠ []
  word : IsWord name

/-- The line of a module, active or not; nothing but a comment stands behind its file. -/
def IsLineOf (php : PhpClass) (name : Text) (s : Setting) : Prop :=
  (s.label = "extension".toList ∨ s.label = ";extension".toList) ∧
    ∃ tail, s.value = php.file (keyOf name) ++ tail ∧ IsTail tail

/-- A line that has nothing to do with modules. -/
structure IsOther (s : Setting) : Prop where
  label : ¬ ";extension".toList <:+ s.label
  extension : s.key ≠ "extension".toList
  zend : s.key ≠ "zend_extension".toList

/-- A line that loads a module. -/
def IsActive (s : Setting) : Prop := s.key = "extension".toList ∨ s.key = "zend_extension".toList

/-- A file has an active line for a module. -/
def Loads (php : PhpClass) (name t : Text) : Prop :=
  ∃ s ∈ settings t, IsActive s ∧ s.read = php.file (keyOf name)

/-- A module with a line in the template, or one of the add-ons. -/
def Offers (php : PhpClass) (template name : Text) : Prop :=
  IsName name ∧ ∃ s ∈ settings template ++ settings (Text.unlines php.addons), IsLineOf php name s

/-- The anchor for the add-ons stands once, on a line with nothing but a comment behind it. -/
structure Anchored (php : PhpClass) (template before tail after : Text) : Prop where
  eq : template = before ++ (php.anchor ++ (tail ++ after))
  endsLine : Ini.EndsLine before
  beginsBehindLine : Ini.BeginsBehindLine after
  line : ∀ c ∈ tail, Ini.isBreak c = false
  isTail : IsTail tail
  notBefore : ¬ php.anchor <:+: before
  notBehind : ¬ php.anchor <:+: tail ++ after

/-- A template whose lines for modules are all of one form, and which has the anchor once. -/
structure ModuleTemplate (php : PhpClass) (template : Text) : Prop where
  lines : ∀ s ∈ settings template, (∃ name, IsName name ∧ IsLineOf php name s) ∨ IsOther s
  anchored : ∃ before tail after, Anchored php template before tail after

/-- No comment behind a module or the anchor holds a text that the install replaces. -/
def QuietComments (env : Env) (php : PhpClass) (form : PostedForm) (template : Text) : Prop :=
  ∀ s ∈ settings template, "extension".toList <:+ s.label → Quiet env php form s.value

instance (env : Env) (php : PhpClass) (form : PostedForm) (template : Text) :
    Decidable (QuietComments env php form template) :=
  inferInstanceAs (Decidable (∀ s ∈ settings template, "extension".toList <:+ s.label → _))

instance (s : Setting) : Decidable (IsOther s) :=
  decidable_of_iff (¬ ";extension".toList <:+ s.label ∧ s.key ≠ "extension".toList ∧
    s.key ≠ "zend_extension".toList)
    ⟨fun h => ⟨h.1, h.2.1, h.2.2⟩, fun h => ⟨h.label, h.extension, h.zend⟩⟩

/-- What the class files do alike with modules. -/
structure SoundModules (php : PhpClass) : Prop extends Sound php where
  file_inj : ∀ name name', php.file (keyOf name) = php.file (keyOf name') → name = name'
  file_ne_nil : ∀ name, IsName name → php.file (keyOf name) ≠ []
  addonNames : ∃ names : List Text, (∀ name ∈ names, IsName name) ∧ "xdebug".toList ∈ names ∧
    settings (Text.unlines php.addons) =
      names.map fun name => ⟨";extension".toList, php.file (keyOf name)⟩
  zend_apart : php.zend.Pairwise fun key key' =>
    ¬ php.file key <+: php.file key' ∧ ¬ php.file key' <+: php.file key
  xdebug : keyOf "xdebug".toList ∈ php.zend

instance (name : Text) : Decidable (IsName name) :=
  decidable_of_iff (name ≠ [] ∧ IsWord name) ⟨fun h => ⟨h.1, h.2⟩, fun h => ⟨h.ne_nil, h.word⟩⟩

theorem soundModules_of_phpClass {classFile : ClassFile} {php : PhpClass}
    (h : classFile.phpClass = some php) : SoundModules php := by
  have hinj : ∀ name name', keyOf name ++ ".dll".toList = keyOf name' ++ ".dll".toList →
      name = name' := fun name name' heq =>
    List.append_cancel_left (List.append_cancel_right heq)
  have haddons : settings (Text.unlines PhpClass.php812.addons) =
      (["memcache", "mongodb", "redis", "xdebug"].map String.toList).map
        fun name => ⟨";extension".toList, (keyOf name).drop 4⟩ := by decide +kernel
  have haddons74 : settings (Text.unlines PhpClass.php74.addons) =
      (["opcache", "memcache", "mongodb", "redis", "xdebug"].map String.toList).map
        fun name => ⟨";extension".toList, (keyOf name).drop 4⟩ := by decide +kernel
  have haddonsDll : settings (Text.unlines PhpClass.php.addons) =
      (["memcache", "mongodb", "redis", "xdebug"].map String.toList).map
        fun name => ⟨";extension".toList, keyOf name ++ ".dll".toList⟩ := by decide +kernel
  have hsound := sound_of_phpClass h
  have h812 : Sound .php812 → SoundModules .php812 := fun hsound =>
    ⟨hsound, fun _ _ heq => heq, fun _ hname => hname.ne_nil,
      ⟨_, by decide +kernel, by decide +kernel, haddons⟩, by decide +kernel, by decide +kernel⟩
  have h74 : ∀ dir, Sound { PhpClass.php74 with extensionDir := dir } →
      SoundModules { PhpClass.php74 with extensionDir := dir } := fun dir hsound =>
    ⟨hsound, fun _ _ heq => heq, fun _ hname => hname.ne_nil,
      ⟨_, by decide +kernel, by decide +kernel, haddons74⟩,
      (by decide +kernel : List.Pairwise (fun key key' : Text =>
        ¬ key.drop 4 <+: key'.drop 4 ∧ ¬ key'.drop 4 <+: key.drop 4) PhpClass.php74.zend),
      (by decide +kernel : keyOf "xdebug".toList ∈ PhpClass.php74.zend)⟩
  have hphp : Sound .php → SoundModules .php := fun hsound =>
    ⟨hsound, hinj, fun _ _ => List.append_ne_nil_of_right_ne_nil _ (by decide +kernel),
      ⟨_, by decide +kernel, by decide +kernel, haddonsDll⟩, by decide +kernel, by decide +kernel⟩
  cases classFile with
  | php =>
      obtain rfl := Option.some.inj h
      exact hphp hsound
  | php72 =>
      obtain rfl := Option.some.inj h
      exact h74 _ hsound
  | php73 | php74 =>
      obtain rfl := Option.some.inj h
      exact h74 _ hsound
  | php80 | php81 | php812 =>
      obtain rfl := Option.some.inj h
      exact h812 hsound
  | _ => cases h

/-! ## What becomes of the line of a module -/

/-- The label of the line of a module. -/
def moduleLabel (active zend : Bool) : Text :=
  (if active then [] else [';']) ++
    if zend then "zend_extension".toList else "extension".toList

/-- The file of one of the keys begins a value. -/
def begun (php : PhpClass) (ks : List Text) (value : Text) : Bool :=
  ks.any fun key => (php.file key).isPrefixOf value

@[simp]
theorem begun_nil (php : PhpClass) (value : Text) : begun php [] value = false := rfl

@[simp]
theorem begun_cons (php : PhpClass) (key : Text) (ks : List Text) (value : Text) :
    begun php (key :: ks) value = ((php.file key).isPrefixOf value || begun php ks value) := rfl

theorem zend_not_suffix : ¬ ";extension".toList <:+ "zend_extension".toList ∧
    ¬ "zend_extension".toList <:+ ";extension".toList ∧
    ¬ ";extension".toList <:+ "extension".toList := by
  simp only [String.reduceToList]
  decide

section Line

variable {php : PhpClass}

theorem moduleEdit_setting {key value : Text} (active : Bool)
    (hquiet : ¬ (moduleEdit php key).search <:+: value) :
    (moduleEdit php key).setting ⟨moduleLabel active false, value⟩ =
      ⟨moduleLabel (active || (php.file key).isPrefixOf value) false, value⟩ := by
  have hother : ¬ (moduleEdit php key).front <:+ moduleLabel true false :=
    zend_not_suffix.2.2
  by_cases hfile : php.file key <+: value
  · rw [List.isPrefixOf_iff_prefix.mpr hfile, Bool.or_true]
    cases active with
    | true => exact Edit.setting_of_not_match (fun h => hother h.1) hquiet
    | false =>
        obtain ⟨rest, rfl⟩ := hfile
        have hrest : ¬ (moduleEdit php key).search <:+: rest := fun h =>
          hquiet (h.trans (List.suffix_append _ rest).isInfix)
        have h := Edit.setting_append (moduleEdit php key) [] rest
        rw [Edit.apply, Text.strReplace_of_absent hrest] at h
        exact h
  · have hnot : (php.file key).isPrefixOf value = false :=
      eq_false_of_ne_true (mt List.isPrefixOf_iff_prefix.mp hfile)
    rw [hnot, Bool.or_false]
    exact Edit.setting_of_not_match (fun h => hfile h.2) hquiet

theorem zendEdit_setting {key value : Text} (active : Bool)
    (hquiet : ¬ (zendEdit php key).search <:+: value) :
    (zendEdit php key).setting ⟨moduleLabel active false, value⟩ =
      ⟨moduleLabel active ((php.file key).isPrefixOf value), value⟩ := by
  by_cases hfile : php.file key <+: value
  · rw [List.isPrefixOf_iff_prefix.mpr hfile]
    obtain ⟨rest, rfl⟩ := hfile
    have hrest : ¬ (zendEdit php key).search <:+: rest := fun h =>
      hquiet (h.trans (List.suffix_append _ rest).isInfix)
    have h := Edit.setting_append (zendEdit php key) (if active then [] else [';']) rest
    rw [Edit.apply, Text.strReplace_of_absent hrest] at h
    exact h
  · rw [eq_false_of_ne_true (mt List.isPrefixOf_iff_prefix.mp hfile)]
    exact Edit.setting_of_not_match (fun h => hfile h.2) hquiet

/-- The keys switch the line on if the file of one of them begins its value. -/
theorem settingAll_modules {ks : List Text} {value : Text} (active : Bool)
    (hquiet : ∀ key ∈ ks, ¬ (moduleEdit php key).search <:+: value) :
    Edit.settingAll (ks.map (moduleEdit php)) ⟨moduleLabel active false, value⟩ =
      ⟨moduleLabel (active || begun php ks value) false, value⟩ := by
  induction ks generalizing active with
  | nil => rw [begun_nil, Bool.or_false]; rfl
  | cons key ks ih =>
      obtain ⟨hkey, hks⟩ := List.forall_mem_cons.mp hquiet
      rw [List.map_cons, Edit.settingAll_cons, moduleEdit_setting active hkey, ih _ hks,
        begun_cons, Bool.or_assoc]

/-- The kind of the extension is changed once, because no two of the files begin alike. -/
theorem settingAll_zend {ks : List Text} {value : Text} (active : Bool)
    (hapart : ks.Pairwise fun key key' =>
      ¬ php.file key <+: php.file key' ∧ ¬ php.file key' <+: php.file key)
    (hquiet : ∀ key ∈ ks, ¬ (zendEdit php key).search <:+: value) :
    Edit.settingAll (ks.map (zendEdit php)) ⟨moduleLabel active false, value⟩ =
      ⟨moduleLabel active (begun php ks value), value⟩ := by
  induction ks with
  | nil => rfl
  | cons key ks ih =>
      obtain ⟨hkey, hks⟩ := List.forall_mem_cons.mp hquiet
      obtain ⟨hhead, hrest⟩ := List.pairwise_cons.mp hapart
      rw [List.map_cons, Edit.settingAll_cons, zendEdit_setting active hkey, begun_cons]
      by_cases hfile : php.file key <+: value
      · rw [List.isPrefixOf_iff_prefix.mpr hfile, Bool.true_or]
        refine Edit.settingAll_of_not_match fun e he => ?_
        obtain ⟨key', hkey', rfl⟩ := List.mem_map.mp he
        refine ⟨fun hmatch => ?_, hks key' hkey'⟩
        rcases List.prefix_or_prefix_of_prefix hfile hmatch.2 with h | h
        · exact (hhead key' hkey').1 h
        · exact (hhead key' hkey').2 h
      · rw [eq_false_of_ne_true (mt List.isPrefixOf_iff_prefix.mp hfile), Bool.false_or]
        exact ih hrest hks

/-- The replacements behind the modules. -/
def otherEdits (env : Env) (php : PhpClass) (form : PostedForm) : List Edit :=
  zoneEdit form :: extensionDirEdit php :: (limits.map (limitEdit form) ++ fixedEdits env)

/-- What the labels end in that the other replacements take and leave. -/
def otherLabels : List Text :=
  [";date.timezone ", "date.timezone ", ";extension_dir ", "; extension_dir ", "extension_dir ",
    "memory_limit ", "max_input_vars ", "max_execution_time ", "max_input_time ",
    "upload_max_filesize ", "post_max_size ", "SMTP ", "; SMTP ", "smtp_port ", "; smtp_port ",
    ";sendmail_path ", "sendmail_path "].map String.toList

/-- What none of the lines of modules has. -/
structure IsOtherLabel (label : Text) : Prop where
  solid : Edit.Solid label
  module : ∀ active zend, ¬ label <:+ moduleLabel active zend
  line : ¬ ";extension".toList <:+ label
  extension : ¬ label.rdropWhile Ini.isBlank <:+ "extension".toList
  zend : ¬ label.rdropWhile Ini.isBlank <:+ "zend_extension".toList

theorem isOtherLabel_of_mem (label : Text) (h : label ∈ otherLabels) : IsOtherLabel label := by
  have hall : ∀ label ∈ otherLabels, Edit.Solid label ∧
      (∀ active zend, ¬ label <:+ moduleLabel active zend) ∧ ¬ ";extension".toList <:+ label ∧
      ¬ label.rdropWhile Ini.isBlank <:+ "extension".toList ∧
      ¬ label.rdropWhile Ini.isBlank <:+ "zend_extension".toList := by decide +kernel
  obtain ⟨hsolid, hmodule, hlabel, hextension, hzend⟩ := hall label h
  exact ⟨hsolid, hmodule, hlabel, hextension, hzend⟩

theorem zone_mem_otherLabels : ";date.timezone ".toList ∈ otherLabels ∧
    "date.timezone ".toList ∈ otherLabels := by
  simp [otherLabels]

theorem newDir_mem_otherLabels : "extension_dir ".toList ∈ otherLabels := by simp [otherLabels]

theorem limit_mem_otherLabels : ∀ limit : Limit, limit.key ++ [' '] ∈ otherLabels := by
  decide +kernel

theorem fixedEdits_mem_otherLabels (env : Env) :
    ∀ e ∈ fixedEdits env, e.front ∈ otherLabels ∧ e.newFront ∈ otherLabels := by
  simp [fixedEdits, otherLabels]

theorem extensionDir_mem_otherLabels (hphp : Sound php) :
    (extensionDirEdit php).front ∈ otherLabels := by
  have h := hphp.extensionDir
  simp only [List.map_cons, List.map_nil, List.mem_cons, List.not_mem_nil, or_false] at h
  show php.extensionDir ++ [' '] ∈ otherLabels
  rcases h with h | h <;> rw [h] <;> simp [otherLabels]

theorem otherEdits_labels (hphp : Sound php) (env : Env) (form : PostedForm) :
    ∀ e ∈ otherEdits env php form, e.front ∈ otherLabels ∧ e.newFront ∈ otherLabels := by
  intro e he
  rcases List.mem_cons.mp he with rfl | he
  · exact zone_mem_otherLabels
  rcases List.mem_cons.mp he with rfl | he
  · exact ⟨extensionDir_mem_otherLabels hphp, newDir_mem_otherLabels⟩
  rcases List.mem_append.mp he with he | he
  · obtain ⟨limit, -, rfl⟩ := List.mem_map.mp he
    exact ⟨limit_mem_otherLabels limit, limit_mem_otherLabels limit⟩
  · exact fixedEdits_mem_otherLabels env e he

/-- What the install does with the line of a module. -/
theorem settingAll_line (hphp : SoundModules php) {env : Env} {form : PostedForm} {value : Text}
    (active : Bool) (hquiet : Quiet env php form value) :
    Edit.settingAll (zoneEdit form :: edits env php form) ⟨moduleLabel active false, value⟩ =
      ⟨moduleLabel (active || begun php (switchedOn form) value) (begun php php.zend value),
        value⟩ := by
  have hother : ∀ active zend, ∀ e ∈ otherEdits env php form,
      ¬ e.front <:+ moduleLabel active zend := by
    exact fun active zend e he =>
      (isOtherLabel_of_mem _ (otherEdits_labels hphp.toSound env form e he).1).module active zend
  have hmem : ∀ e ∈ otherEdits env php form, e ∈ zoneEdit form :: edits env php form := by
    intro e he
    simp only [otherEdits, edits, moduleEdits, List.mem_cons, List.mem_append] at he ⊢
    rcases he with he | he | he
    · exact .inl he
    · exact .inr (.inl (.inr (.inr (.inl he))))
    · exact .inr (.inr he)
  have hsame : ∀ es : List Edit, (∀ e ∈ es, e ∈ otherEdits env php form) → ∀ active zend,
      Edit.settingAll es ⟨moduleLabel active zend, value⟩ = ⟨moduleLabel active zend, value⟩ :=
    fun es hes active zend => Edit.settingAll_of_not_match fun e he =>
      ⟨fun h => hother active zend e (hes e he) h.1, hquiet e (hmem e (hes e he))⟩
  have hlist : zoneEdit form :: edits env php form = [zoneEdit form] ++
      ((switchedOn form).map (moduleEdit php) ++ (php.zend.map (zendEdit php) ++
        (extensionDirEdit php :: (limits.map (limitEdit form) ++ fixedEdits env)))) := by
    simp [edits, moduleEdits]
  have hmodules : ∀ key ∈ switchedOn form, ¬ (moduleEdit php key).search <:+: value := by
    refine fun key hkey => hquiet _ (hlist ▸ ?_)
    exact List.mem_append_right _ (List.mem_append_left _ (List.mem_map_of_mem hkey))
  have hzend : ∀ key ∈ php.zend, ¬ (zendEdit php key).search <:+: value := by
    refine fun key hkey => hquiet _ (hlist ▸ ?_)
    exact List.mem_append_right _ (List.mem_append_right _
      (List.mem_append_left _ (List.mem_map_of_mem hkey)))
  rw [hlist, Edit.settingAll_append, Edit.settingAll_append, Edit.settingAll_append,
    hsame _ fun e he => List.mem_cons.mpr (.inl (List.mem_singleton.mp he)),
    settingAll_modules active hmodules, settingAll_zend _ hphp.zend_apart hzend,
    hsame _ fun e he => List.mem_cons_of_mem _ he]

theorem edit_cases {env : Env} {form : PostedForm} {e : Edit}
    (he : e ∈ zoneEdit form :: edits env php form) :
    (∃ key ∈ switchedOn form, e = moduleEdit php key) ∨ (∃ key ∈ php.zend, e = zendEdit php key) ∨
      e ∈ otherEdits env php form := by
  simp only [edits, moduleEdits, otherEdits, List.mem_cons, List.mem_append, List.mem_map,
    List.not_mem_nil, or_false] at he ⊢
  rcases he with rfl | (⟨key, hkey, rfl⟩ | ⟨key, hkey, rfl⟩ | rfl) | he
  · exact .inr (.inr (.inl rfl))
  · exact .inl ⟨key, hkey, rfl⟩
  · exact .inr (.inl ⟨key, hkey, rfl⟩)
  · exact .inr (.inr (.inr (.inl rfl)))
  · exact .inr (.inr (.inr (.inr he)))

theorem IsOther.congr {s s' : Setting} (h : s.label = s'.label) (hs : IsOther s) : IsOther s' := by
  have hkey : s'.key = s.key := by rw [Setting.key, Setting.key, h]
  exact ⟨h ▸ hs.label, hkey ▸ hs.extension, hkey ▸ hs.zend⟩

theorem not_suffix_append {label front : Text} (h : ¬ label <:+ front) (h' : ¬ front <:+ label)
    (rest : Text) : ¬ label <:+ rest ++ front := fun hsuffix =>
  (List.suffix_or_suffix_of_suffix hsuffix (List.suffix_append rest front)).elim h h'

theorem rdropWhile_extension : "extension".toList.rdropWhile Ini.isBlank = "extension".toList := by
  simp [List.rdropWhile, Ini.isBlank]

theorem isOther_zendEdit {key : Text} {s : Setting} (hs : IsOther s) :
    IsOther ((zendEdit php key).setting s) := by
  by_cases hmatch : (zendEdit php key).front <:+ s.label ∧ (zendEdit php key).back <+: s.value
  · obtain ⟨label, value⟩ := s
    obtain ⟨⟨rest, rfl⟩, ⟨behind, rfl⟩⟩ := hmatch
    rw [Edit.setting_append]
    have hlast : (rest ++ "zend_extension".toList).rdropWhile Ini.isBlank =
        rest ++ "zend_extension".toList := by
      rw [List.rdropWhile_eq_self_iff]
      intro hne
      rw [List.getLast_append_of_ne_nil hne (by simp)]
      simp [Ini.isBlank]
    refine ⟨not_suffix_append zend_not_suffix.1 zend_not_suffix.2.1 rest, fun heq => ?_,
      fun heq => ?_⟩
    · have hkey : rest ++ "zend_extension".toList = "extension".toList := hlast.symm.trans heq
      have hlength := congrArg List.length hkey
      simp at hlength
    · have hkey : rest ++ "zend_extension".toList = [] ++ "zend_extension".toList :=
        hlast.symm.trans heq
      obtain rfl := List.append_cancel_right hkey
      exact hs.extension rdropWhile_extension
  · rw [Edit.setting, if_neg hmatch]
    refine hs.congr ?_
    rfl

/-- The install makes no line of a module from any other line. -/
theorem isOther_setting (hphp : Sound php) {env : Env} {form : PostedForm} {e : Edit}
    (he : e ∈ zoneEdit form :: edits env php form) {s : Setting} (hs : IsOther s) :
    IsOther (e.setting s) := by
  rcases edit_cases he with ⟨key, -, rfl⟩ | ⟨key, -, rfl⟩ | he
  · rw [Edit.setting, if_neg fun h => hs.label h.1]
    refine hs.congr ?_
    rfl
  · exact isOther_zendEdit hs
  · obtain ⟨hfront, hnewFront⟩ := otherEdits_labels hphp env form e he
    have hold := isOtherLabel_of_mem e.front hfront
    have hnew := isOtherLabel_of_mem e.newFront hnewFront
    refine ⟨?_, Edit.key_setting_ne hnew.solid ⟨hold.extension, hnew.extension⟩ hs.extension,
      Edit.key_setting_ne hnew.solid ⟨hold.zend, hnew.zend⟩ hs.zend⟩
    unfold Edit.setting
    split
    · exact not_suffix_append hnew.line (hnew.module false false) _
    · exact hs.label

theorem isOther_settingAll (hphp : Sound php) {env : Env} {form : PostedForm} {s : Setting}
    (hs : IsOther s) : IsOther (Edit.settingAll (zoneEdit form :: edits env php form) s) :=
  Edit.settingAll_preserves (p := IsOther) (fun _ he _ hs => isOther_setting hphp he hs) hs

end Line

/-! ## The lines in front of the replacements -/

theorem isWord_php : IsWord "php_".toList := by simp [IsWord, Ini.isBreak, Ini.isBlank]

theorem isWord_keyOf {name : Text} (h : IsName name) : IsWord (keyOf name) := fun c hc =>
  (List.mem_append.mp hc).elim (isWord_php c) (h.word c)

section Lines

variable {php : PhpClass} (hphp : SoundModules php)
include hphp

theorem isWord_file {name : Text} (h : IsName name) : IsWord (php.file (keyOf name)) :=
  hphp.file _ (isWord_keyOf h)

/-- The line of a module reads its file. -/
theorem read_of_isLineOf {name : Text} (hname : IsName name) {s : Setting}
    (h : IsLineOf php name s) : s.read = php.file (keyOf name) := by
  obtain ⟨-, tail, hvalue, htail⟩ := h
  have hword := isWord_file hphp hname
  obtain ⟨c, rest, hcons⟩ := List.exists_cons_of_ne_nil (hphp.file_ne_nil name hname)
  have hbare : Ini.IsBare (php.file (keyOf name)) := fun c hc hmem =>
    (hword c hc).2.2 ((by decide : [';', '"', '\''] ⊆ [';', '=', '"', '\'']) hmem)
  rw [Setting.read_congr (show s.value = (Setting.mk [] _).value from hvalue)]
  refine (Setting.read_append_iff [] hbare ⟨c, by simp [hcons], ?_⟩).mpr ⟨⟨?_, ?_⟩, htail⟩
  · exact (hword c (by simp [hcons])).2.1
  · exact fun d hd => (hword d (List.mem_of_head? hd)).2.1
  · exact fun d hd => (hword d (List.mem_of_getLast? hd)).2.1

theorem name_eq_of_read {name name' : Text} (hname : IsName name) {s : Setting}
    (h : IsLineOf php name s) (hread : s.read = php.file (keyOf name')) : name = name' :=
  hphp.file_inj name name' ((read_of_isLineOf hphp hname h).symm.trans hread)

end Lines

/-- A word that begins a value ends in front of the comment. -/
theorem prefix_append_iff_of_isTail {u v tail : Text} (hu : IsWord u) (htail : IsTail tail) :
    u <+: v ++ tail ↔ u <+: v := by
  refine ⟨fun h => ?_, fun h => h.trans (List.prefix_append v tail)⟩
  rcases List.prefix_or_prefix_of_prefix h (List.prefix_append v tail) with hle | ⟨w, rfl⟩
  · exact hle
  · rw [List.prefix_append_right_inj] at h
    cases w with
    | nil => exact (List.append_nil v).symm ▸ List.prefix_refl v
    | cons c w =>
        exfalso
        obtain ⟨rest, rfl⟩ := h
        obtain ⟨-, hblank, hmark⟩ := hu c (by simp)
        have hsemicolon : c ≠ ';' := fun heq => hmark (by simp [heq])
        rw [htail c (by simp [List.takeWhile_cons_of_pos, hsemicolon])] at hblank
        cases hblank

theorem begun_iff {php : PhpClass} {ks : List Text} {v tail : Text}
    (hks : ∀ key ∈ ks, IsWord (php.file key)) (htail : IsTail tail) :
    begun php ks (v ++ tail) = true ↔ ∃ key ∈ ks, php.file key <+: v := by
  rw [begun, List.any_eq_true]
  refine exists_congr fun key => and_congr_right fun hkey => ?_
  rw [List.isPrefixOf_iff_prefix, prefix_append_iff_of_isTail (hks key hkey) htail]

theorem word_append_tail_iff {u v tail : Text} (hu : IsWord u) (hv : IsWord v)
    (htail : IsTail tail) : (∃ tail', v ++ tail = u ++ tail' ∧ IsTail tail') ↔ v = u := by
  constructor
  · rintro ⟨tail', heq, htail'⟩
    have hvu : v <+: u :=
      (prefix_append_iff_of_isTail hv htail').mp (heq ▸ List.prefix_append v tail)
    have huv : u <+: v :=
      (prefix_append_iff_of_isTail hu htail).mp (heq ▸ List.prefix_append u tail')
    exact hvu.eq_of_length_le huv.length_le
  · rintro rfl
    exact ⟨tail, rfl, htail⟩

/-- No text that is searched is part of a word. -/
theorem quiet_of_isWord {env : Env} {php : PhpClass} {form : PostedForm} {v : Text} (h : IsWord v) :
    Quiet env php form v := fun e _ hheld =>
  (h '=' (hheld.subset (by simp [Edit.search]))).2.2 (by simp)

theorem Quiet.mono {env : Env} {php : PhpClass} {form : PostedForm} {v w : Text}
    (h : Quiet env php form w) (hvw : v <:+: w) : Quiet env php form v := fun e he hheld =>
  h e he (hheld.trans hvw)

/-- The parts of an anchor. -/
theorem exists_anchor {php : PhpClass} (hphp : Sound php) : ∃ label value,
    php.anchor = label ++ '=' :: value ∧ '=' ∉ label ∧ label.dropWhile Ini.isBlank = label ∧
      "extension".toList <:+ label ∧ label.head? = some ';' ∧ IsWord value ∧
      ∀ c ∈ php.anchor, Ini.isBreak c = false := by
  have h := hphp.anchor
  simp only [anchors, List.map_cons, List.map_nil, List.mem_cons, List.not_mem_nil, or_false] at h
  rcases h with h | h | h <;> rw [h]
  · refine ⟨";extension".toList, "php_xsl.dll".toList, ?_⟩
    simp [Ini.isBlank, Ini.isBreak, IsWord]
  · refine ⟨";extension".toList, "xsl".toList, ?_⟩
    simp [Ini.isBlank, Ini.isBreak, IsWord]
  · refine ⟨";zend_extension".toList, "opcache".toList, ?_⟩
    simp [Ini.isBlank, Ini.isBreak, IsWord, List.suffix_cons_iff]

section Template

variable {php : PhpClass} (hphp : Sound php) {template before tail after label value : Text}
  (h : Anchored php template before tail after) (hanchor : php.anchor = label ++ '=' :: value)
  (hlabel : '=' ∉ label) (hhead : label.dropWhile Ini.isBlank = label)
  (hline : ∀ c ∈ php.anchor, Ini.isBreak c = false)

include h hanchor hlabel hhead hline in
theorem settings_template :
    settings template = settings before ++ ⟨label, value ++ tail⟩ :: settings after := by
  have hwhole : ∀ c ∈ label ++ '=' :: (value ++ tail), Ini.isBreak c = false := by
    intro c hc
    have hcons : label ++ '=' :: (value ++ tail) = php.anchor ++ tail := by simp [hanchor]
    rw [hcons] at hc
    exact (List.mem_append.mp hc).elim (hline c) (h.line c)
  have heq : template = before ++ ((label ++ '=' :: (value ++ tail)) ++ after) := by
    rw [h.eq, hanchor]
    simp
  rw [heq, Ini.settings_of_line h.endsLine h.beginsBehindLine hlabel hwhole, hhead]

include hphp h hanchor hlabel hhead hline in
theorem settings_cut : settings (Ini.cut php.anchor template) =
    settings before ++ ⟨label, value⟩ :: (settings tail ++ settings after) := by
  have hcut : Ini.cut php.anchor template =
      before ++ ((label ++ '=' :: value) ++ '\n' :: (tail ++ after)) := by
    obtain ⟨hne, hclear⟩ := anchor_clear hphp
    rw [Ini.cut, h.eq, Text.strReplace_append hne hclear h.notBefore,
      Text.strReplace_of_absent h.notBehind, hanchor]
    simp
  have hbehind : settings ('\n' :: (tail ++ after)) = settings tail ++ settings after := by
    rw [← Ini.settings_append_of_begins tail h.beginsBehindLine]
    exact Ini.settings_append_cons [] (tail ++ after) rfl
  rw [hcut, Ini.settings_of_line h.endsLine (.inr ⟨'\n', _, rfl, rfl⟩) hlabel (hanchor ▸ hline),
    hhead, hbehind]

end Template

/-- Behind the blanks of a tail a comment begins. -/
theorem head_of_isTail {blanks rest : Text} {c : Char} (h : IsTail (blanks ++ c :: rest))
    (hblanks : ∀ d ∈ blanks, Ini.isBlank d = true) (hc : Ini.isBlank c = false) : c = ';' := by
  by_contra hne
  have hpass : ∀ d ∈ blanks, decide (d ≠ ';') = true := by
    intro d hd
    refine decide_eq_true fun heq => ?_
    have hblank := hblanks d hd
    rw [heq] at hblank
    cases hblank
  have hmem : c ∈ (blanks ++ c :: rest).takeWhile (· ≠ ';') := by
    rw [List.takeWhile_append_of_pos hpass]
    exact List.mem_append_right _ (by simp [hne])
  have hblank := h c hmem
  rw [hc] at hblank
  cases hblank

/-- A comment that becomes a line stays a comment. -/
theorem label_of_mem_tail {tail : Text} (htail : IsTail tail)
    (hline : ∀ c ∈ tail, Ini.isBreak c = false) {s : Setting} (hs : s ∈ settings tail) :
    s.label.head? = some ';' ∧ ∃ blanks, tail = blanks ++ (s.label ++ '=' :: s.value) := by
  rw [Ini.settings_of_no_break hline, Option.mem_toList] at hs
  obtain ⟨label, hcons, hsign, hlabel⟩ := Ini.exists_of_setting? hs
  have hsplit : tail = label.takeWhile Ini.isBlank ++ (s.label ++ '=' :: s.value) := by
    rw [← List.append_assoc, hlabel, List.takeWhile_append_dropWhile, hcons]
  have hblanks : ∀ d ∈ label.takeWhile Ini.isBlank, Ini.isBlank d = true :=
    fun d hd => List.mem_takeWhile_imp hd
  refine ⟨?_, _, hsplit⟩
  rw [hsplit] at htail
  cases hcases : s.label with
  | nil =>
      rw [hcases] at htail
      cases head_of_isTail htail hblanks rfl
  | cons c rest =>
      have hne : label.dropWhile Ini.isBlank ≠ [] := by simp [← hlabel, hcases]
      have hc : Ini.isBlank c = false := by
        have hnot := List.head_dropWhile_not Ini.isBlank hne
        simpa [← hlabel, hcases] using hnot
      rw [hcases] at htail
      rw [head_of_isTail htail hblanks hc]
      rfl

theorem not_isActive_of_head {s : Setting} (h : s.label.head? = some ';') : ¬ IsActive s := by
  have hnot : ∀ key : Text, key.head? = some 'e' ∨ key.head? = some 'z' → s.key ≠ key := by
    rintro key hkey rfl
    obtain ⟨rest, hrest⟩ := List.rdropWhile_prefix Ini.isBlank (l := s.label)
    cases hcases : s.key with
    | nil => simp [hcases] at hkey
    | cons c key =>
        have hc : s.label.head? = some c := by
          rw [← hrest]
          exact congrArg List.head? (congrArg (· ++ rest) hcases)
        rw [h] at hc
        simp [hcases, ← Option.some.inj hc] at hkey
  rintro (heq | heq)
  · exact hnot _ (.inl rfl) heq
  · exact hnot _ (.inr rfl) heq

/-! ## What the install writes -/

section Install

variable {env : Env} {php : PhpClass} {form : PostedForm} {template : Text} (henv : OnOneLine env)
  (hphp : SoundModules php) (hform : FromWizard form)
  (hline : ∀ limit : Limit, ∀ c ∈ limit.value form, Ini.isBreak c = false)
  (htemplate : ModuleTemplate php template) (hquiet : QuietComments env php form template)

/-- The lines that the replacements of the install go over. -/
def sources (php : PhpClass) (template : Text) : List Setting :=
  settings (Ini.cut php.anchor template) ++ settings (Text.unlines php.addons)

include hphp in
theorem isLineOf_addons {s : Setting} (hs : s ∈ settings (Text.unlines php.addons)) :
    ∃ name, IsName name ∧ s = ⟨";extension".toList, php.file (keyOf name)⟩ := by
  obtain ⟨names, hnames, -, haddons⟩ := hphp.addonNames
  rw [haddons] at hs
  obtain ⟨name, hmem, rfl⟩ := List.mem_map.mp hs
  exact ⟨name, hnames name hmem, rfl⟩

include hphp htemplate in
theorem occurrences_zoneEdit_pos :
    0 < Text.occurrences php.anchor ((zoneEdit form).apply template) := by
  have hzone := (isAnchor_of_mem _ hphp.anchor).zone
  obtain ⟨before, tail, after, h⟩ := htemplate.anchored
  have hheld : php.anchor <:+: template :=
    ⟨before, tail ++ after, by rw [h.eq, List.append_assoc]⟩
  have hpos := (Text.infix_iff_occurrences_pos (anchor_clear hphp.toSound).1 template).mp hheld
  exact hpos.trans_le (Text.occurrences_le_strReplace zone_clear.1 zone_clear.2 hzone.clear
    hzone.clear' hzone.ne.symm _ _)

include henv hphp hform hline in
theorem edits_inline : ∀ e ∈ edits env php form, e.Inline := by
  intro e he
  rcases List.mem_append.mp he with he | he
  · exact (moduleEdits_inline_foreign hphp.toSound hform .memoryLimit e he).1
  · rcases List.mem_append.mp he with he | he
    · obtain ⟨limit, -, rfl⟩ := List.mem_map.mp he
      exact limitEdit_inline (hline limit)
    · exact fixedEdits_inline henv e he

include henv hphp hform hline htemplate in
/-- Every line that is written comes from a line of the template or from one for an add-on. -/
theorem mem_settings_configure_iff {s : Setting} :
    s ∈ settings (configure env php form template) ↔
      ∃ s' ∈ sources php template, Edit.settingAll (zoneEdit form :: edits env php form) s' = s := by
  have hzone : ∀ s' ∈ settings (Text.unlines php.addons), (zoneEdit form).setting s' = s' := by
    intro s' hs'
    obtain ⟨name, hname, rfl⟩ := isLineOf_addons hphp hs'
    refine Edit.setting_of_not_match (fun h => ?_) fun h => ?_
    · exact (isOtherLabel_of_mem _ zone_mem_otherLabels.1).module false false h.1
    · have hvalue : Quiet env php form (php.file (keyOf name)) :=
        quiet_of_isWord (isWord_file hphp hname)
      exact hvalue _ List.mem_cons_self h
  have hmem : ∀ s', s' ∈ settings (insertAddons php ((zoneEdit form).apply template)) ↔
      ∃ s'' ∈ sources php template, (zoneEdit form).setting s'' = s' := by
    intro s'
    rw [(settings_insertAddons_perm hphp.toSound _).mem_iff, cut_zoneEdit hphp.toSound hform,
      Edit.settings_apply (zoneEdit_inline hform), List.mem_append, List.mem_map]
    constructor
    · rintro (⟨s'', hs'', rfl⟩ | hs')
      · exact ⟨s'', List.mem_append_left _ hs'', rfl⟩
      · obtain ⟨ss, hss, hs'⟩ := List.mem_flatten.mp hs'
        rw [List.eq_of_mem_replicate hss] at hs'
        exact ⟨s', List.mem_append_right _ hs', hzone s' hs'⟩
    · rintro ⟨s'', hs'', rfl⟩
      rcases List.mem_append.mp hs'' with hs'' | hs''
      · exact .inl ⟨s'', hs'', rfl⟩
      · rw [hzone s'' hs'']
        refine .inr (List.mem_flatten.mpr ⟨_, List.mem_replicate.mpr ⟨?_, rfl⟩, hs''⟩)
        exact (occurrences_zoneEdit_pos hphp htemplate).ne'
  rw [configure_eq, Edit.settings_applyAll (edits_inline henv hphp hform hline), List.mem_map]
  constructor
  · rintro ⟨s', hs', rfl⟩
    obtain ⟨s'', hs'', rfl⟩ := (hmem s').mp hs'
    exact ⟨s'', hs'', rfl⟩
  · rintro ⟨s'', hs'', rfl⟩
    exact ⟨_, (hmem _).mpr ⟨s'', hs'', rfl⟩, rfl⟩

/-- The line of the anchor, in the template and behind the lines for add-ons. -/
structure AnchorLine (php : PhpClass) (template label value tail : Text) (rest : List Setting) :
    Prop where
  isTail : IsTail tail
  line : ∀ c ∈ tail, Ini.isBreak c = false
  word : IsWord value
  extension : "extension".toList <:+ label
  mem_iff : ∀ s, s ∈ settings template ↔ s = ⟨label, value ++ tail⟩ ∨ s ∈ rest
  mem_cut_iff : ∀ s, s ∈ settings (Ini.cut php.anchor template) ↔
    s = ⟨label, value⟩ ∨ s ∈ settings tail ∨ s ∈ rest

include hphp htemplate in
theorem exists_anchorLine : ∃ label value tail rest,
    AnchorLine php template label value tail rest := by
  obtain ⟨label, value, hanchor, hsign, hblank, hextension, -, hword, hbreak⟩ :=
    exists_anchor hphp.toSound
  obtain ⟨before, tail, after, h⟩ := htemplate.anchored
  refine ⟨label, value, tail, settings before ++ settings after, h.isTail, h.line, hword,
    hextension, fun s => ?_, fun s => ?_⟩
  · rw [settings_template h hanchor hsign hblank hbreak]
    simp only [List.mem_append, List.mem_cons]
    exact or_left_comm
  · rw [settings_cut hphp.toSound h hanchor hsign hblank hbreak]
    simp only [List.mem_append, List.mem_cons]
    constructor
    · rintro (hs | hs | hs | hs)
      · exact .inr (.inr (.inl hs))
      · exact .inl hs
      · exact .inr (.inl hs)
      · exact .inr (.inr (.inr hs))
    · rintro (hs | hs | hs | hs)
      · exact .inr (.inl hs)
      · exact .inr (.inr (.inl hs))
      · exact .inl hs
      · exact .inr (.inr (.inr hs))

/-- The anchor loses its comment, but no file. -/
theorem AnchorLine.isLineOf_iff {label value tail : Text} {rest : List Setting}
    (h : AnchorLine php template label value tail rest) (hphp : SoundModules php) {name : Text}
    (hname : IsName name) :
    IsLineOf php name ⟨label, value ++ tail⟩ ↔ IsLineOf php name ⟨label, value⟩ := by
  refine and_congr_right fun _ => ?_
  have hfile := isWord_file hphp hname
  have hnil := word_append_tail_iff hfile h.word (by decide : IsTail [])
  rw [List.append_nil] at hnil
  exact (word_append_tail_iff hfile h.word h.isTail).trans hnil.symm

/-- A comment behind the anchor is left alone. -/
theorem AnchorLine.not_isActive {label value tail : Text} {rest : List Setting}
    (h : AnchorLine php template label value tail rest) (hquiet : QuietComments env php form template)
    {s : Setting} (hs : s ∈ settings tail) :
    ¬ IsActive (Edit.settingAll (zoneEdit form :: edits env php form) s) := by
  obtain ⟨hhead, blanks, hsplit⟩ := label_of_mem_tail h.isTail h.line hs
  have htail : Quiet env php form tail :=
    (hquiet _ ((h.mem_iff _).mpr (.inl rfl)) h.extension).mono (List.suffix_append value tail).isInfix
  have hline : s.label ++ '=' :: s.value <:+: tail := by
    rw [hsplit]
    exact (List.suffix_append _ _).isInfix
  have hsame : Edit.settingAll (zoneEdit form :: edits env php form) s = s := by
    refine Edit.settingAll_of_not_match fun e he => ⟨?_, fun hheld => htail e he ?_⟩
    · rintro ⟨⟨front, hfront⟩, ⟨back, hback⟩⟩
      refine htail e he (List.IsInfix.trans ⟨front, back, ?_⟩ hline)
      rw [← hfront, ← hback, Edit.search]
      simp
    · refine hheld.trans (List.IsInfix.trans ?_ hline)
      exact ((List.suffix_cons '=' s.value).trans (List.suffix_append _ _)).isInfix
  rw [hsame]
  exact not_isActive_of_head hhead

theorem IsOther.not_isActive {s : Setting} (h : IsOther s) : ¬ IsActive s := fun hactive =>
  hactive.elim h.extension h.zend

theorem suffix_of_isLineOf {name : Text} {s : Setting} (h : IsLineOf php name s) :
    "extension".toList <:+ s.label := by
  rcases h.1 with h | h
  · exact h ▸ List.suffix_refl _
  · exact h ▸ ⟨[';'], by simp⟩

include hphp htemplate hquiet in
/-- A line that is no comment in the end comes from the line of a module. -/
theorem line_of_mem_sources {s : Setting} (hs : s ∈ sources php template)
    (hactive : IsActive (Edit.settingAll (zoneEdit form :: edits env php form) s)) :
    ∃ name, IsName name ∧ IsLineOf php name s ∧ Quiet env php form s.value ∧
      ∃ s' ∈ settings template ++ settings (Text.unlines php.addons),
        IsLineOf php name s' ∧ s'.label = s.label := by
  obtain ⟨label, value, tail, rest, hanchor⟩ := exists_anchorLine hphp htemplate
  have hother : IsOther s → False := fun h =>
    (isOther_settingAll hphp.toSound h).not_isActive hactive
  rcases List.mem_append.mp hs with hs | hs
  · rcases (hanchor.mem_cut_iff s).mp hs with rfl | hs | hs
    · have hmem := (hanchor.mem_iff _).mpr (.inl rfl)
      rcases htemplate.lines _ hmem with ⟨name, hname, hline⟩ | h
      · exact ⟨name, hname, (hanchor.isLineOf_iff hphp hname).mp hline, quiet_of_isWord hanchor.word,
          _, List.mem_append_left _ hmem, hline, rfl⟩
      · refine (hother (h.congr ?_)).elim
        rfl
    · exact (hanchor.not_isActive hquiet hs hactive).elim
    · have hmem := (hanchor.mem_iff s).mpr (.inr hs)
      rcases htemplate.lines s hmem with ⟨name, hname, hline⟩ | h
      · exact ⟨name, hname, hline, hquiet s hmem (suffix_of_isLineOf hline), s,
          List.mem_append_left _ hmem, hline, rfl⟩
      · exact (hother h).elim
  · obtain ⟨name, hname, rfl⟩ := isLineOf_addons hphp hs
    have hline : IsLineOf php name ⟨";extension".toList, php.file (keyOf name)⟩ :=
      ⟨.inr rfl, [], (List.append_nil _).symm, by decide⟩
    exact ⟨name, hname, hline, quiet_of_isWord (isWord_file hphp hname), _,
      List.mem_append_right _ hs, hline, rfl⟩

include hphp htemplate hquiet in
/-- The line of a module is there when the replacements begin. -/
theorem exists_mem_sources {name : Text} (hname : IsName name) {s : Setting}
    (hs : s ∈ settings template ++ settings (Text.unlines php.addons))
    (hline : IsLineOf php name s) : ∃ s' ∈ sources php template, IsLineOf php name s' ∧
      s'.label = s.label ∧ Quiet env php form s'.value := by
  obtain ⟨label, value, tail, rest, hanchor⟩ := exists_anchorLine hphp htemplate
  rcases List.mem_append.mp hs with hs | hs
  · rcases (hanchor.mem_iff s).mp hs with rfl | hrest
    · exact ⟨⟨label, value⟩, List.mem_append_left _ ((hanchor.mem_cut_iff _).mpr (.inl rfl)),
        (hanchor.isLineOf_iff hphp hname).mp hline, rfl, quiet_of_isWord hanchor.word⟩
    · exact ⟨s, List.mem_append_left _ ((hanchor.mem_cut_iff s).mpr (.inr (.inr hrest))), hline, rfl,
        hquiet s hs (suffix_of_isLineOf hline)⟩
  · obtain ⟨name', hname', rfl⟩ := isLineOf_addons hphp hs
    exact ⟨_, List.mem_append_right _ hs, hline, rfl, quiet_of_isWord (isWord_file hphp hname')⟩

theorem isActive_moduleLabel (active zend : Bool) (value : Text) :
    IsActive ⟨moduleLabel active zend, value⟩ ↔ active = true := by
  cases active <;> cases zend <;>
    simp [IsActive, Setting.key, moduleLabel, List.rdropWhile, Ini.isBlank]

theorem label_of_isLineOf {name : Text} {s : Setting} (h : IsLineOf php name s) :
    s.label = moduleLabel (decide (s.label = "extension".toList)) false := by
  rcases h.1 with h | h
  · rw [h, decide_eq_true rfl]
    rfl
  · have hne : ";extension".toList ≠ "extension".toList := by simp
    rw [h, decide_eq_false hne]
    rfl

include hphp hform in
/-- What becomes of the line of a module. -/
theorem settingAll_of_isLineOf {name : Text} {s : Setting} (h : IsLineOf php name s)
    (hvalue : Quiet env php form s.value) : ∃ active zend,
      Edit.settingAll (zoneEdit form :: edits env php form) s = ⟨moduleLabel active zend, s.value⟩ ∧
      (Edit.settingAll (zoneEdit form :: edits env php form) s).read = s.read ∧
      (active = true ↔ s.label = "extension".toList ∨
        ∃ key ∈ switchedOn form, php.file key <+: php.file (keyOf name)) ∧
      (zend = true ↔ ∃ key ∈ php.zend, php.file key <+: php.file (keyOf name)) := by
  obtain ⟨tail, htail, hcomment⟩ := h.2
  have hsame : s = ⟨moduleLabel (decide (s.label = "extension".toList)) false, s.value⟩ := by
    rw [← label_of_isLineOf h]
  have hsetting := (congrArg (Edit.settingAll (zoneEdit form :: edits env php form)) hsame).trans
    (settingAll_line hphp _ hvalue)
  refine ⟨_, _, hsetting, ?_, ?_, ?_⟩
  · rw [hsetting]
    exact Setting.read_congr rfl
  · rw [Bool.or_eq_true, decide_eq_true_eq, htail, begun_iff (fun key hkey =>
      hphp.file key (isWord_of_mem_switchedOn hform key hkey)) hcomment]
  · rw [htail, begun_iff (fun key hkey => hphp.file key (hphp.zend key hkey)) hcomment]

include hphp htemplate in
theorem loads_template_iff {name : Text} (hname : IsName name) : Loads php name template ↔
    ∃ s ∈ settings template ++ settings (Text.unlines php.addons),
      IsLineOf php name s ∧ s.label = "extension".toList := by
  constructor
  · rintro ⟨s, hs, hactive, hread⟩
    rcases htemplate.lines s hs with ⟨name', hname', hline⟩ | h
    · obtain rfl := name_eq_of_read hphp hname' hline hread
      refine ⟨s, List.mem_append_left _ hs, hline, ?_⟩
      have hlabel := label_of_isLineOf hline
      have hactive' : IsActive ⟨moduleLabel (decide (s.label = "extension".toList)) false, s.value⟩ := by
        rw [← hlabel]
        exact hactive
      exact of_decide_eq_true ((isActive_moduleLabel _ _ _).mp hactive')
    · exact (h.not_isActive hactive).elim
  · rintro ⟨s, hs, hline, hlabel⟩
    rcases List.mem_append.mp hs with hs | hs
    · refine ⟨s, hs, .inl ?_, read_of_isLineOf hphp hname hline⟩
      rw [Setting.key, hlabel, rdropWhile_extension]
    · obtain ⟨name', -, rfl⟩ := isLineOf_addons hphp hs
      exact absurd ⟨[], hlabel⟩ zend_not_suffix.2.2

include henv hphp hform hline htemplate hquiet in
/-- The install switches on what a posted key begins. -/
theorem loads_configure_iff {name : Text} (hname : IsName name) :
    Loads php name (configure env php form template) ↔
      Loads php name template ∨ Offers php template name ∧
        ∃ key ∈ switchedOn form, php.file key <+: php.file (keyOf name) := by
  constructor
  · rintro ⟨s, hs, hactive, hread⟩
    obtain ⟨s', hs', rfl⟩ := (mem_settings_configure_iff henv hphp hform hline htemplate).mp hs
    obtain ⟨name', hname', hline', hvalue, s'', hs'', hline'', hlabel⟩ :=
      line_of_mem_sources hphp htemplate hquiet hs' hactive
    obtain ⟨active, zend, hsetting, hsame, hon, -⟩ := settingAll_of_isLineOf hphp hform hline' hvalue
    rw [hsame] at hread
    rw [hsetting] at hactive
    obtain rfl := name_eq_of_read hphp hname' hline' hread
    rcases hon.mp ((isActive_moduleLabel _ _ _).mp hactive) with hext | hkey
    · exact .inl ((loads_template_iff hphp htemplate hname).mpr
        ⟨s'', hs'', hline'', hlabel.trans hext⟩)
    · exact .inr ⟨⟨hname, s'', hs'', hline''⟩, hkey⟩
  · intro h
    obtain ⟨s, hs, hline', hon⟩ : ∃ s ∈ settings template ++ settings (Text.unlines php.addons),
        IsLineOf php name s ∧ (s.label = "extension".toList ∨
          ∃ key ∈ switchedOn form, php.file key <+: php.file (keyOf name)) := by
      rcases h with h | ⟨⟨-, s, hs, hline'⟩, hkey⟩
      · obtain ⟨s, hs, hline', hlabel⟩ := (loads_template_iff hphp htemplate hname).mp h
        exact ⟨s, hs, hline', .inl hlabel⟩
      · exact ⟨s, hs, hline', .inr hkey⟩
    obtain ⟨s', hs', hline'', hlabel, hvalue⟩ :=
      exists_mem_sources hphp htemplate hquiet hname hs hline'
    obtain ⟨active, zend, hsetting, hsame, hactive, -⟩ :=
      settingAll_of_isLineOf hphp hform hline'' hvalue
    refine ⟨_, (mem_settings_configure_iff henv hphp hform hline htemplate).mpr ⟨s', hs', rfl⟩,
      ?_, ?_⟩
    · rw [hsetting, isActive_moduleLabel, hactive, hlabel]
      exact hon
    · rw [hsame]
      exact read_of_isLineOf hphp hname hline''

include henv hphp hform hline htemplate hquiet in
/-- xdebug is never loaded as a plain extension. -/
theorem zend_of_xdebug {s : Setting} (hs : s ∈ settings (configure env php form template))
    (hread : s.read = php.file (keyOf "xdebug".toList)) : s.key ≠ "extension".toList := by
  intro hkey
  obtain ⟨s', hs', rfl⟩ := (mem_settings_configure_iff henv hphp hform hline htemplate).mp hs
  obtain ⟨name, hname, hline', hvalue, -⟩ :=
    line_of_mem_sources hphp htemplate hquiet hs' (.inl hkey)
  obtain ⟨active, zend, hsetting, hsame, -, hzend⟩ := settingAll_of_isLineOf hphp hform hline' hvalue
  rw [hsame] at hread
  obtain rfl := name_eq_of_read hphp hname hline' hread
  obtain rfl : zend = true := hzend.mpr ⟨_, hphp.xdebug, List.prefix_refl _⟩
  rw [hsetting] at hkey
  cases active <;> simp [Setting.key, moduleLabel, List.rdropWhile, Ini.isBlank] at hkey

end Install

/-! ## Which modules are active -/

theorem keyOf_mem_switchedOn_iff {form : PostedForm} {name : Text} :
    keyOf name ∈ switchedOn form ↔ keyOf name ∈ moduleKeys form ∨
      name = "mbstring".toList ∧ "php_exif".toList ∈ keys form := by
  have hmbstring : keyOf name = "php_mbstring".toList ↔ name = "mbstring".toList := by
    have hkey : "php_mbstring".toList = keyOf "mbstring".toList := by simp [keyOf]
    rw [hkey]
    exact List.append_right_inj _
  rw [switchedOn, List.mem_append]
  refine or_congr_right ?_
  split
  · next hexif => rw [List.mem_singleton, hmbstring, and_iff_left hexif]
  · next hexif => exact iff_of_false List.not_mem_nil fun h => hexif h.2

/-- The modules that are posted, and what was active before, are active, and mbstring if it is
needed. A posted xdebug is loaded as an extension of the engine. -/
def EnablesSelected (env : Env) (php : PhpClass) (form : PostedForm) (template : Text) : Prop :=
  (∀ name, Offers php template name → (Loads php name (configure env php form template) ↔
    keyOf name ∈ moduleKeys form ∨
      (name = "mbstring".toList ∧ "php_exif".toList ∈ keys form) ∨ Loads php name template)) ∧
  (keyOf "xdebug".toList ∈ moduleKeys form →
    (∃ s ∈ settings (configure env php form template),
      s.key = "zend_extension".toList ∧ s.read = php.file (keyOf "xdebug".toList)) ∧
    ∀ s ∈ settings (configure env php form template),
      s.read = php.file (keyOf "xdebug".toList) → s.key ≠ "extension".toList)

/-- No key that is switched on begins the file of a module that is to stay off. -/
def NoneBegun (php : PhpClass) (form : PostedForm) (template : Text) : Prop :=
  ∀ name, Offers php template name → ¬ Loads php name template → keyOf name ∉ switchedOn form →
    ∀ key ∈ switchedOn form, ¬ php.file key <+: php.file (keyOf name)

/-- Exactly the selected modules are active if and only if no selected one begins like
another one. -/
theorem selected_modules_iff {env : Env} {classFile : ClassFile} {php : PhpClass}
    {form : PostedForm} {template : Text} (henv : OnOneLine env)
    (hclass : classFile.phpClass = some php) (hform : FromWizard form)
    (hline : ∀ limit : Limit, ∀ c ∈ limit.value form, Ini.isBreak c = false)
    (htemplate : ModuleTemplate php template) (hquiet : QuietComments env php form template) :
    EnablesSelected env php form template ↔ NoneBegun php form template := by
  have hphp := soundModules_of_phpClass hclass
  have hloads := fun {name : Text} (hname : IsName name) =>
    loads_configure_iff henv hphp hform hline htemplate hquiet hname
  constructor
  · rintro ⟨hselected, -⟩ name hoffers hnot hoff key hkey hfile
    rcases (hselected name hoffers).mp ((hloads hoffers.1).mpr (.inr ⟨hoffers, key, hkey, hfile⟩))
      with h | h | h
    · exact hoff (keyOf_mem_switchedOn_iff.mpr (.inl h))
    · exact hoff (keyOf_mem_switchedOn_iff.mpr (.inr h))
    · exact hnot h
  · intro hnone
    have hselected : ∀ name, Offers php template name →
        (Loads php name (configure env php form template) ↔ keyOf name ∈ moduleKeys form ∨
          (name = "mbstring".toList ∧ "php_exif".toList ∈ keys form) ∨
            Loads php name template) := by
      intro name hoffers
      constructor
      · intro hloaded
        rcases (hloads hoffers.1).mp hloaded with h | ⟨-, key, hkey, hfile⟩
        · exact .inr (.inr h)
        · by_contra hnot
          obtain ⟨hposted, hexif, htemplate'⟩ :
              keyOf name ∉ moduleKeys form ∧
                ¬ (name = "mbstring".toList ∧ "php_exif".toList ∈ keys form) ∧
                  ¬ Loads php name template :=
            ⟨fun h => hnot (.inl h), fun h => hnot (.inr (.inl h)), fun h => hnot (.inr (.inr h))⟩
          refine hnone name hoffers htemplate' (fun hmem => ?_) key hkey hfile
          exact (keyOf_mem_switchedOn_iff.mp hmem).elim hposted hexif
      · rw [← or_assoc, ← keyOf_mem_switchedOn_iff, hloads hoffers.1]
        rintro (h | h)
        · exact .inr ⟨hoffers, _, h, List.prefix_refl _⟩
        · exact .inl h
    refine ⟨hselected, fun hposted => ⟨?_, fun s => zend_of_xdebug henv hphp hform hline htemplate hquiet⟩⟩
    obtain ⟨names, hnames, hxdebug, haddons⟩ := hphp.addonNames
    have hoffers : Offers php template "xdebug".toList := by
      refine ⟨hnames _ hxdebug, _, List.mem_append_right _ (haddons ▸ List.mem_map_of_mem hxdebug),
        .inr rfl, [], (List.append_nil _).symm, by decide⟩
    obtain ⟨s, hs, hactive, hread⟩ := (hselected _ hoffers).mpr (.inl hposted)
    refine ⟨s, hs, hactive.resolve_left ?_, hread⟩
    exact zend_of_xdebug henv hphp hform hline htemplate hquiet hs hread

/-- What is posted for a PHP version, with two modules and xdebug. -/
def sampleModules : PostedForm :=
  [("timezone", "Europe/Vienna"), ("memory_limit", "256"), ("max_input_vars", "5000"),
    ("max_execution_time", "120"), ("max_input_time", "90"), ("php_gd", "on"),
    ("php_exif", "on"), ("php_xdebug", "on")].map fun field => (field.1.toList, field.2.toList)

/-- The lines of three modules. -/
def moduleLines : List Text :=
  [";extension=exif      ; Must be after mbstring as it depends on it", ";extension=gd",
    ";extension=mbstring"].map String.toList

/-- The lines of two modules, where the name of one begins with that of the other. -/
def crowdedLines : List Text := [";extension=gd", ";extension=gd2"].map String.toList

/-- The modules of a template with their comments, and its other lines. -/
theorem moduleTemplate_of_lines (ls : List Text) (modules : List (Text × Text))
    (others : List Setting) (hlines : settings (Text.unlines (ls ++ [PhpClass.php812.anchor])) =
      (modules.map fun m => ⟨";extension".toList, m.1 ++ m.2⟩) ++ others)
    (hmodules : ∀ m ∈ modules, IsName m.1 ∧ IsTail m.2) (hothers : ∀ s ∈ others, IsOther s)
    (hends : Ini.EndsLine (Text.unlines ls))
    (hanchor : ¬ PhpClass.php812.anchor <:+: Text.unlines ls) :
    ModuleTemplate .php812 (Text.unlines (ls ++ [PhpClass.php812.anchor])) := by
  refine ⟨fun s hs => ?_, Text.unlines ls, [], ['\n'], ?_, hends, .inr ⟨'\n', [], rfl, rfl⟩,
    fun _ hc => absurd hc List.not_mem_nil, by decide, hanchor, by decide +kernel⟩
  · rw [hlines] at hs
    rcases List.mem_append.mp hs with hs | hs
    · obtain ⟨m, hm, rfl⟩ := List.mem_map.mp hs
      exact .inl ⟨m.1, (hmodules m hm).1, .inr rfl, m.2, rfl, (hmodules m hm).2⟩
    · exact .inr (hothers s hs)
  · simp [Text.unlines]

/-- Modules, a needed one and xdebug are active. -/
theorem selected_modules_sample :
    EnablesSelected Site.sampleEnv .php812 sampleModules
      (Text.unlines (moduleLines ++ [PhpClass.php812.anchor])) := by
  have htemplate : ModuleTemplate .php812 (Text.unlines (moduleLines ++ [PhpClass.php812.anchor])) :=
    moduleTemplate_of_lines moduleLines
      [("exif".toList, "      ; Must be after mbstring as it depends on it".toList),
        ("gd".toList, []), ("mbstring".toList, [])]
      [⟨";zend_extension".toList, "opcache".toList⟩] (by decide +kernel) (by decide +kernel)
      (by decide +kernel) (.inr ⟨(Text.unlines moduleLines).dropLast, '\n', by decide +kernel, rfl⟩)
      (by decide +kernel)
  have hclass : ClassFile.php812.phpClass = some .php812 := rfl
  have hiff := @selected_modules_iff Site.sampleEnv .php812 .php812 sampleModules
    (Text.unlines (moduleLines ++ [PhpClass.php812.anchor])) (by decide +kernel) hclass
    ⟨by decide +kernel, by decide +kernel⟩ (by decide +kernel) htemplate (by decide +kernel)
  have hlines : ∀ s ∈ settings (Text.unlines (moduleLines ++ [PhpClass.php812.anchor])) ++
      settings (Text.unlines PhpClass.php812.addons),
      keyOf s.read ∉ switchedOn sampleModules →
        ∀ key ∈ switchedOn sampleModules, ¬ PhpClass.php812.file key <+: s.read := by
    decide +kernel
  apply hiff.mpr
  intro name ⟨hname, s, hs, hline⟩ _ hoff
  have hread : s.read = PhpClass.php812.file (keyOf name) :=
    read_of_isLineOf (soundModules_of_phpClass hclass) hname hline
  have hkey : keyOf s.read = keyOf name := congrArg keyOf hread
  rw [← hread]
  exact hlines s hs (hkey ▸ hoff)

/-- A template with modules gd and gd2: if gd is selected, gd2 is switched on, too. -/
theorem longer_name_switched_on :
    ¬ ∀ (env : Env) (classFile : ClassFile) (php : PhpClass) (form : PostedForm) (template : Text),
      OnOneLine env → classFile.phpClass = some php → FromWizard form →
      (∀ limit : Limit, ∀ c ∈ limit.value form, Ini.isBreak c = false) →
      ModuleTemplate php template → QuietComments env php form template →
      EnablesSelected env php form template := by
  intro h
  have htemplate : ModuleTemplate .php812 (Text.unlines (crowdedLines ++ [PhpClass.php812.anchor])) :=
    moduleTemplate_of_lines crowdedLines [("gd".toList, []), ("gd2".toList, [])]
      [⟨";zend_extension".toList, "opcache".toList⟩] (by decide +kernel) (by decide +kernel)
      (by decide +kernel) (.inr ⟨(Text.unlines crowdedLines).dropLast, '\n', by decide +kernel, rfl⟩)
      (by decide +kernel)
  have hselected := (h Site.sampleEnv .php812 .php812 sampleModules _ (by decide +kernel) rfl
    ⟨by decide +kernel, by decide +kernel⟩ (by decide +kernel) htemplate (by decide +kernel)).1
  have hname : IsName "gd2".toList := by decide +kernel
  have hoffers : Offers .php812 (Text.unlines (crowdedLines ++ [PhpClass.php812.anchor]))
      "gd2".toList :=
    ⟨hname, ⟨";extension".toList, "gd2".toList⟩, by decide +kernel, .inr rfl, [], by decide +kernel,
      by decide⟩
  have hactive : ∃ s ∈ settings (configure Site.sampleEnv .php812 sampleModules
      (Text.unlines (crowdedLines ++ [PhpClass.php812.anchor]))),
      s.key = "extension".toList ∧ s.read = "gd2".toList := by decide +kernel
  obtain ⟨s, hs, hkey, hread⟩ := hactive
  have hnone : ∀ s ∈ settings (Text.unlines (crowdedLines ++ [PhpClass.php812.anchor])),
      s.key ≠ "extension".toList ∧ s.key ≠ "zend_extension".toList := by decide +kernel
  rcases (hselected _ hoffers).mp ⟨s, hs, .inl hkey, hread⟩ with h | ⟨h, -⟩ | ⟨s', hs', hactive', -⟩
  · exact absurd h (by decide +kernel)
  · exact absurd h (by decide +kernel)
  · exact hactive'.elim (hnone s' hs').1 (hnone s' hs').2

end PhpIni

end WampManager
