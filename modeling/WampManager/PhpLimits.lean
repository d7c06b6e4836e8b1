/-
# Limits of a PHP version

The install writes a posted limit over the preset value of the template, as a text: it
looks for the key, one blank on both sides of the equals sign and the digits. A line that
is a comment stays one, a line with another value stays what it is, and what the template
has behind the digits stays behind the posted value.
-/

import WampManager.PhpIni

namespace WampManager

open Ini (Setting Edit settings ofKey assigned IsTail Trimmed)

namespace PhpIni

/-! ## Posted numbers -/

section Numbers

variable {form : PostedForm} {limit : Limit} (h : Loose.isNumeric (limit.posted form) = true)
include h

theorem mem_value_or : ∀ c ∈ limit.value form, Loose.isNumberChar c = true ∨ c = 'M' := by
  have hchars := (Loose.chars_of_isNumeric h).1
  cases limit with
  | memoryLimit =>
      intro c hc
      rcases List.mem_append.mp hc with hc | hc
      · exact .inl (hchars c hc)
      · exact .inr (List.mem_singleton.mp hc)
  | maxInputVars | maxExecutionTime | maxInputTime => exact fun c hc => .inl (hchars c hc)

theorem isBare_value : Ini.IsBare (limit.value form) := by
  intro c hc hmem
  have hnot : ∀ c ∈ [';', '"', '\''], ¬ (Loose.isNumberChar c = true ∨ c = 'M') := by decide
  exact hnot c hmem (mem_value_or h c hc)

theorem exists_not_blank : ∃ c ∈ limit.value form, Ini.isBlank c = false := by
  obtain ⟨c, hc, hdigit⟩ := (Loose.chars_of_isNumeric h).2
  have hblank : Ini.isBlank c = false := by
    rw [← Bool.not_eq_true]
    intro hblank
    rcases (by simpa [Ini.isBlank] using hblank : c = ' ' ∨ c = '\t') with rfl | rfl <;>
      exact absurd hdigit (by decide)
  cases limit with
  | memoryLimit => exact ⟨c, List.mem_append_left _ hc, hblank⟩
  | maxInputVars | maxExecutionTime | maxInputTime => exact ⟨c, hc, hblank⟩

end Numbers

/-! ## The settings of a limit -/

/-- The characters that the searched texts begin with from the limits on. -/
def heads : List Char := ['m', 'u', 'p', 'S', 's', ';']

theorem head_of_mem {env : Env} {form : PostedForm} :
    ∀ e ∈ limits.map (limitEdit form) ++ fixedEdits env, ∃ c ∈ heads, e.search.head? = some c := by
  have hlimit : ∀ limit : Limit, ∃ c ∈ heads, (limitEdit form limit).search.head? = some c := by
    intro limit
    cases limit <;> exact ⟨'m', by decide, rfl⟩
  intro e he
  rcases List.mem_append.mp he with he | he
  · obtain ⟨limit, -, rfl⟩ := List.mem_map.mp he
    exact hlimit limit
  · simp only [fixedEdits, List.mem_cons, List.not_mem_nil, or_false] at he
    rcases he with rfl | rfl | rfl | rfl | rfl
    · exact ⟨'u', by decide, rfl⟩
    · exact ⟨'p', by decide, rfl⟩
    · exact ⟨'S', by decide, rfl⟩
    · exact ⟨'s', by decide, rfl⟩
    · exact ⟨';', by decide, rfl⟩

/-- The value that a replacement of the limit leaves. -/
theorem value_limitEdit {form : PostedForm} {limit : Limit} {s : Setting}
    (hquiet : ¬ (limitEdit form limit).search <:+: s.value) :
    ((limitEdit form limit).setting s).value =
      if (limit.key ++ [' ']) <:+ s.label ∧ (' ' :: limit.preset) <+: s.value then
        ' ' :: (limit.value form ++ s.value.drop (limit.preset.length + 1))
      else s.value := by
  have hrest : ∀ n, (limitEdit form limit).apply (s.value.drop n) = s.value.drop n := fun n =>
    Text.strReplace_of_absent fun h => hquiet (h.trans (List.drop_suffix n s.value).isInfix)
  by_cases hmatch : (limit.key ++ [' ']) <:+ s.label ∧ (' ' :: limit.preset) <+: s.value
  · have hset : (limitEdit form limit).setting s =
        ⟨s.label.take (s.label.length - (limit.key ++ [' ']).length) ++ (limit.key ++ [' ']),
          ' ' :: limit.value form ++
            (limitEdit form limit).apply (s.value.drop (limit.preset.length + 1))⟩ := if_pos hmatch
    rw [if_pos hmatch, hset, hrest]
    rfl
  · have hset : (limitEdit form limit).setting s = ⟨s.label, (limitEdit form limit).apply s.value⟩ :=
      if_neg hmatch
    rw [if_neg hmatch, hset]
    exact hrest 0

/-- What comes behind the replacement of a limit finds nothing in the value. -/
theorem quiet_limitEdit {env : Env} {form : PostedForm} {limit : Limit}
    (hnumeric : Loose.isNumeric (limit.posted form) = true) {s : Setting}
    (hquiet : ∀ e ∈ limits.map (limitEdit form) ++ fixedEdits env, ¬ e.search <:+: s.value) :
    ∀ e ∈ limits.map (limitEdit form) ++ fixedEdits env,
      ¬ e.search <:+: ((limitEdit form limit).setting s).value := by
  intro e he
  have hlimit : limitEdit form limit ∈ limits.map (limitEdit form) ++ fixedEdits env :=
    List.mem_append_left _ (List.mem_map_of_mem (by cases limit <;> decide))
  rw [value_limitEdit (hquiet _ hlimit)]
  split
  · obtain ⟨c, hc, hhead⟩ := head_of_mem e he
    have hnot : c ∉ ' ' :: limit.value form := by
      have hall : ∀ c ∈ heads, c ≠ ' ' ∧ ¬ (Loose.isNumberChar c = true ∨ c = 'M') := by decide
      intro hmem
      rcases List.mem_cons.mp hmem with heq | hmem
      · exact (hall c hc).1 heq
      · exact (hall c hc).2 (mem_value_or hnumeric c hmem)
    exact Text.not_infix_append_of_head hhead hnot fun h =>
      hquiet e he (h.trans (List.drop_suffix _ s.value).isInfix)
  · exact hquiet e he

section Chain

variable {env : Env} {php : PhpClass} {form : PostedForm} (henv : OnOneLine env) (hphp : Sound php)
  (hform : FromWizard form)
include hphp hform

/-- The lines for add-ons and the time zone leave the settings of a limit alone. -/
theorem ofKey_insertAddons_perm (limit : Limit) {template : Text}
    (hquiet : ∀ s ∈ ofKey limit.key (settings (Ini.cut php.anchor template)),
      ¬ (zoneEdit form).search <:+: s.value) :
    (ofKey limit.key (settings (insertAddons php ((zoneEdit form).apply template)))).Perm
      (ofKey limit.key (settings (Ini.cut php.anchor template))) := by
  have hperm := settings_insertAddons_perm hphp ((zoneEdit form).apply template)
  obtain ⟨names, -, haddons⟩ := hphp.addons
  have hnone : ∀ n,
      ofKey limit.key (List.replicate n (settings (Text.unlines php.addons))).flatten = [] := by
    intro n
    refine List.filter_eq_nil_iff.mpr fun s hs => ?_
    obtain ⟨ss, hss, hmem⟩ := List.mem_flatten.mp hs
    rw [List.eq_of_mem_replicate hss, haddons] at hmem
    obtain ⟨name, -, rfl⟩ := List.mem_map.mp hmem
    rw [decide_eq_true_eq]
    exact fun heq => (isLabel_of_mem _ module_mem_labels.1).foreign limit
      ⟨[], heq⟩
  have hfilter := hperm.filter fun s => decide (s.key = limit.key)
  rw [List.filter_append] at hfilter
  refine hfilter.trans ?_
  have hzone : ofKey limit.key (settings (Ini.cut php.anchor ((zoneEdit form).apply template))) =
      ofKey limit.key (settings (Ini.cut php.anchor template)) := by
    rw [cut_zoneEdit hphp hform, Edit.settings_apply (zoneEdit_inline hform)]
    exact Edit.ofKey_map_setting (zoneEdit_inline hform) (foreign_of_labels zone_mem_labels limit)
      hquiet
  exact List.Perm.of_eq ((congrArg₂ (· ++ ·) hzone (hnone _)).trans (List.append_nil _))

include henv

/-- Of all replacements the one for the limit is left. -/
theorem ofKey_configure_perm (hnumeric : ∀ limit : Limit, Loose.isNumeric (limit.posted form) = true)
    (hline : ∀ limit : Limit, ∀ c ∈ limit.value form, Ini.isBreak c = false) (limit : Limit)
    {template : Text} (hquiet : ∀ s ∈ ofKey limit.key (settings (Ini.cut php.anchor template)),
      Quiet env php form s.value) :
    (ofKey limit.key (settings (configure env php form template))).Perm
      ((ofKey limit.key (settings (Ini.cut php.anchor template))).map
        (limitEdit form limit).setting) := by
  have hperm := ofKey_insertAddons_perm hphp hform limit fun s hs =>
    hquiet s hs _ List.mem_cons_self
  obtain ⟨before, after, hsplit, hbefore, hafter⟩ : ∃ before after, limits = before ++ limit :: after ∧
      limit ∉ before ∧ limit ∉ after := by
    cases limit with
    | memoryLimit => exact ⟨[], _, rfl, by decide, by decide⟩
    | maxInputVars => exact ⟨[.memoryLimit], _, rfl, by decide, by decide⟩
    | maxExecutionTime => exact ⟨[.memoryLimit, .maxInputVars], _, rfl, by decide, by decide⟩
    | maxInputTime =>
        exact ⟨[.memoryLimit, .maxInputVars, .maxExecutionTime], _, rfl, by decide, by decide⟩
  have hother : ∀ others : List Limit, limit ∉ others → ∀ e ∈ others.map (limitEdit form),
      e.Inline ∧ e.Foreign limit.key := by
    intro others hnot e he
    obtain ⟨other, hmem, rfl⟩ := List.mem_map.mp he
    exact ⟨limitEdit_inline (hline other),
      limitEdit_foreign form fun heq => hnot (heq ▸ hmem)⟩
  have hlist : edits env php form =
      (moduleEdits php form ++ before.map (limitEdit form)) ++
        limitEdit form limit :: (after.map (limitEdit form) ++ fixedEdits env) := by
    rw [edits, hsplit]
    simp
  rw [configure_eq, hlist, Edit.ofKey_applyAll_of_own ?_ ?_ (limitEdit_inline (hline limit)) rfl ?_]
  · exact hperm.map _
  · intro e he
    rcases List.mem_append.mp he with he | he
    · exact moduleEdits_inline_foreign hphp hform limit e he
    · exact hother before hbefore e he
  · intro e he
    rcases List.mem_append.mp he with he | he
    · exact hother after hafter e he
    · exact ⟨fixedEdits_inline henv e he, 
        foreign_of_labels (fixedEdits_mem_labels env e he) limit⟩
  · intro s hs
    have hs' := hquiet s (hperm.mem_iff.mp hs)
    refine ⟨fun e he => hs' e (List.mem_cons_of_mem _ ?_), fun e he => ?_⟩
    · rw [hlist]
      exact List.mem_append_left _ he
    · have hrest : ∀ e ∈ limits.map (limitEdit form) ++ fixedEdits env, ¬ e.search <:+: s.value :=
        fun e he => hs' e (List.mem_cons_of_mem _ (List.mem_append_right _ he))
      refine quiet_limitEdit (hnumeric limit) hrest e ?_
      rw [hsplit, List.map_append, List.map_cons]
      simp only [List.mem_append, List.mem_cons] at he ⊢
      rcases he with he | he
      · exact .inl (.inr (.inr he))
      · exact .inr he

end Chain

/-! ## When the posted values are taken -/

/-- A line takes the posted value: the preset value is written over, with nothing but a
comment behind it, or the line has the posted value already. -/
def Takes (form : PostedForm) (limit : Limit) (s : Setting) : Prop :=
  if (limit.key ++ [' ']) <:+ s.label ∧ (' ' :: limit.preset) <+: s.value then
    Trimmed (limit.value form) ∧ IsTail (s.value.drop (limit.preset.length + 1))
  else s.read = limit.value form

instance (form : PostedForm) (limit : Limit) (s : Setting) : Decidable (Takes form limit s) :=
  inferInstanceAs (Decidable
    (if (limit.key ++ [' ']) <:+ s.label ∧ (' ' :: limit.preset) <+: s.value then _ else _))

theorem read_limitEdit_iff {form : PostedForm} {limit : Limit}
    (hnumeric : Loose.isNumeric (limit.posted form) = true) {s : Setting}
    (hquiet : ¬ (limitEdit form limit).search <:+: s.value) :
    ((limitEdit form limit).setting s).read = limit.value form ↔ Takes form limit s := by
  have hvalue := value_limitEdit hquiet
  unfold Takes
  by_cases hmatch : (limit.key ++ [' ']) <:+ s.label ∧ (' ' :: limit.preset) <+: s.value
  · rw [if_pos hmatch] at hvalue ⊢
    have hread : ((limitEdit form limit).setting s).read = (Setting.mk []
        (' ' :: (limit.value form ++ s.value.drop (limit.preset.length + 1)))).read :=
      Setting.read_congr hvalue
    rw [hread, Setting.read_blank_cons [] (by decide)]
    exact Setting.read_append_iff [] (isBare_value hnumeric) (exists_not_blank hnumeric)
  · rw [if_neg hmatch] at hvalue ⊢
    rw [Setting.read_congr hvalue]

/-- What is assigned in a file is on one line. -/
theorem no_break_of_assigned {key t value : Text} (h : value ∈ assigned key t) :
    ∀ c ∈ value, Ini.isBreak c = false := by
  obtain ⟨s, hs, rfl⟩ := List.mem_map.mp h
  exact fun c hc => Ini.no_break_of_mem_settings (List.mem_filter.mp hs).1 c
    (Setting.mem_of_mem_read hc)

/-- Every limit is assigned the posted value exactly if the template has one active line for
it, which takes the value, and the posted value is on one line. A line begins behind the
anchor, too, because the lines for add-ons are put there. -/
theorem resource_limits_iff {env : Env} {classFile : ClassFile} {php : PhpClass}
    {form : PostedForm} {template : Text} (henv : OnOneLine env)
    (hclass : classFile.phpClass = some php) (hform : FromWizard form)
    (hnumeric : ∀ limit : Limit, Loose.isNumeric (limit.posted form) = true)
    (hquiet : ∀ limit : Limit, ∀ s ∈ ofKey limit.key (settings (Ini.cut php.anchor template)),
      Quiet env php form s.value) :
    (∀ limit : Limit, assigned limit.key (configure env php form template) =
        [limit.value form]) ↔
      ∀ limit : Limit, (∀ c ∈ limit.value form, Ini.isBreak c = false) ∧
        ∃ s, ofKey limit.key (settings (Ini.cut php.anchor template)) = [s] ∧
          Takes form limit s := by
  have hphp := sound_of_phpClass hclass
  have hone : (∀ limit : Limit, ∀ c ∈ limit.value form, Ini.isBreak c = false) → ∀ limit : Limit,
      (assigned limit.key (configure env php form template) = [limit.value form] ↔
        ∃ s, ofKey limit.key (settings (Ini.cut php.anchor template)) = [s] ∧
          Takes form limit s) := by
    intro hline limit
    have hperm := (ofKey_configure_perm henv hphp hform hnumeric hline limit (hquiet limit)).map
      Setting.read
    rw [List.map_map] at hperm
    have hlimit : limitEdit form limit ∈ zoneEdit form :: edits env php form := by
      refine List.mem_cons_of_mem _ (List.mem_append_right _ (List.mem_append_left _ ?_))
      exact List.mem_map_of_mem (by cases limit <;> decide)
    constructor
    · intro hassigned
      change ((ofKey limit.key (settings (configure env php form template))).map
        Setting.read) = _ at hassigned
      rw [hassigned] at hperm
      obtain ⟨s, hs, hread⟩ := List.map_eq_singleton_iff.mp (List.singleton_perm.mp hperm).symm
      have hmem : s ∈ ofKey limit.key (settings (Ini.cut php.anchor template)) := by simp [hs]
      exact ⟨s, hs, (read_limitEdit_iff (hnumeric limit) (hquiet limit s hmem _ hlimit)).mp hread⟩
    · rintro ⟨s, hs, htakes⟩
      have hmem : s ∈ ofKey limit.key (settings (Ini.cut php.anchor template)) := by simp [hs]
      have hread :=
        (read_limitEdit_iff (hnumeric limit) (hquiet limit s hmem _ hlimit)).mpr htakes
      rw [hs, List.map_singleton, Function.comp_apply, hread] at hperm
      exact List.perm_singleton.mp hperm
  constructor
  · intro hassigned limit
    have hline : ∀ limit : Limit, ∀ c ∈ limit.value form, Ini.isBreak c = false := fun limit =>
      no_break_of_assigned (hassigned limit ▸ List.mem_singleton_self _)
    exact ⟨hline limit, (hone hline limit).mp (hassigned limit)⟩
  · intro htakes limit
    exact (hone (fun limit => (htakes limit).1) limit).mpr (htakes limit).2

/-- Limits that are posted for a PHP version. -/
def sampleLimits : PostedForm :=
  [("timezone", "Europe/Vienna"), ("memory_limit", "256"), ("max_input_vars", "5000"),
    ("max_execution_time", "120"), ("max_input_time", "90"), ("php_curl", "on")].map
    fun field => (field.1.toList, field.2.toList)

/-- A template with the preset values. -/
def presetTemplate : Text :=
  Text.unlines (["max_execution_time = 30", "max_input_time = 60 ; seconds",
    "max_input_vars = 1000", "memory_limit = 128M", ";zend_extension=opcache"].map String.toList)

/-- The limits of a template that comes with the manager. -/
def bundledTemplate : Text :=
  Text.unlines (["max_execution_time = 300", "max_input_time = 300", ";max_input_vars = 1000",
    "memory_limit = 128M"].map String.toList)

/-- The template with the preset values takes the limits. -/
theorem resource_limits_preset :
    (limits.map fun limit =>
      assigned limit.key (configure Site.sampleEnv .php812 sampleLimits presetTemplate)) =
        [["256M".toList], ["5000".toList], ["120".toList], ["90".toList]] := by
  have hiff := @resource_limits_iff Site.sampleEnv .php812 .php812 sampleLimits presetTemplate
    (by decide +kernel) (rfl : ClassFile.php812.phpClass = some .php812)
    ⟨by decide +kernel, by decide +kernel⟩ (by decide +kernel) (by decide +kernel)
  have hone : ∀ limit : Limit,
      (ofKey limit.key (settings (Ini.cut PhpClass.php812.anchor presetTemplate))).length = 1 := by
    decide +kernel
  have htakes : ∀ limit : Limit,
      ∀ s ∈ ofKey limit.key (settings (Ini.cut PhpClass.php812.anchor presetTemplate)),
        Takes sampleLimits limit s := by decide +kernel
  have hline : ∀ limit : Limit, ∀ c ∈ limit.value sampleLimits, Ini.isBreak c = false := by
    decide +kernel
  have hassigned := hiff.mpr fun limit => by
    obtain ⟨s, hs⟩ := List.length_eq_one_iff.mp (hone limit)
    exact ⟨hline limit, s, hs, htakes limit s (hs ▸ List.mem_cons_self)⟩
  simp only [hassigned]
  decide

/-- A longer number begins with the preset one: its other digits stay, and 300 becomes 1200. -/
theorem preset_digits_kept :
    ¬ ∀ (env : Env) (classFile : ClassFile) (php : PhpClass) (form : PostedForm) (template : Text),
      OnOneLine env → classFile.phpClass = some php → FromWizard form →
      (∀ limit : Limit, Loose.isNumeric (limit.posted form) = true) →
      (∀ limit : Limit, ((settings template).filter (·.name = limit.key)).length = 1) →
      ∀ limit : Limit, assigned limit.key (configure env php form template) =
        [limit.value form] := by
  intro h
  have hlimit := h Site.sampleEnv .php812 .php812 sampleLimits bundledTemplate (by decide +kernel) rfl
    ⟨by decide +kernel, by decide +kernel⟩ (by decide +kernel)
    (by decide +kernel) .maxExecutionTime
  exact absurd hlimit (by decide +kernel)

end PhpIni

end WampManager
