/-
# Lines of an ini file

An ini file assigns values to keys, one on a line. What stands in front of the first
equals sign of a line is its label; a label that begins with a semicolon makes the line a
comment. An edit replaces a text with an equals sign in it by another one. On a single
line only the occurrence whose equals sign is the first one of the line can change the
label, and so the key.
-/

import WampManager.Lib.Occurrences

namespace Ini

open Text (strReplace occurrences Clear)

/-! ## Reading -/

def isBreak (c : Char) : Bool := c == '\n' || c == '\r'

def isBlank (c : Char) : Bool := c == ' ' || c == '\t'

def lines (t : Text) : List Text := t.splitOnP isBreak

/-- A line with an equals sign. The blanks in front are no part of the label. -/
structure Setting where
  label : Text
  value : Text
  deriving DecidableEq

namespace Setting

/-- The key of a line that is no comment. -/
def key (s : Setting) : Text := s.label.rdropWhile isBlank

/-- The key behind the marks of a comment. -/
def name (s : Setting) : Text :=
  (s.label.dropWhile fun c => isBlank c || c == ';').rdropWhile isBlank

/-- The value without quotes, or without the comment behind it. -/
def read (s : Setting) : Text :=
  match s.value.dropWhile isBlank with
  | '"' :: t => t.takeWhile (· ≠ '"')
  | '\'' :: t => t.takeWhile (· ≠ '\'')
  | t => (t.takeWhile (· ≠ ';')).rdropWhile isBlank

end Setting

/-- The setting on a line. -/
def setting? (line : Text) : Option Setting :=
  if '=' ∈ line then
    some ⟨(line.takeWhile (· ≠ '=')).dropWhile isBlank, (line.dropWhile (· ≠ '=')).tail⟩
  else none

def settings (t : Text) : List Setting := (lines t).filterMap setting?

/-- The settings of one key. -/
def ofKey (key : Text) (ss : List Setting) : List Setting := ss.filter (·.key = key)

/-- What a text assigns to a key. -/
def assigned (key t : Text) : List Text := (ofKey key (settings t)).map Setting.read

/-! ## Lines -/

theorem lines_of_no_break {t : Text} (h : ∀ c ∈ t, isBreak c = false) : lines t = [t] :=
  List.splitOnP_eq_singleton h

theorem lines_append_cons (s t : Text) {c : Char} (hc : isBreak c = true) :
    lines (s ++ c :: t) = lines s ++ lines t :=
  List.splitOnP_append_cons s t hc

/-- Every text is a line, or a line and a rest behind a break. -/
theorem line_cases (t : Text) :
    (∀ c ∈ t, isBreak c = false) ∨
      ∃ a c b, t = a ++ c :: b ∧ isBreak c = true ∧ ∀ d ∈ a, isBreak d = false := by
  induction t with
  | nil => exact .inl fun c hc => absurd hc List.not_mem_nil
  | cons c t ih =>
      by_cases hc : isBreak c = true
      · exact .inr ⟨[], c, t, rfl, hc, fun d hd => absurd hd List.not_mem_nil⟩
      · have hc' : isBreak c = false := eq_false_of_ne_true hc
        rcases ih with hnone | ⟨a, d, b, rfl, hd, ha⟩
        · exact .inl (List.forall_mem_cons.mpr ⟨hc', hnone⟩)
        · exact .inr ⟨c :: a, d, b, rfl, hd, List.forall_mem_cons.mpr ⟨hc', ha⟩⟩

/-- Induction over the lines of a text. -/
theorem line_induction {motive : Text → Prop}
    (line : ∀ t, (∀ c ∈ t, isBreak c = false) → motive t)
    (next : ∀ a c b, (∀ d ∈ a, isBreak d = false) → isBreak c = true → motive b →
      motive (a ++ c :: b)) (t : Text) : motive t := by
  induction hlength : t.length using Nat.strong_induction_on generalizing t with
  | _ n ih =>
      rcases line_cases t with hnone | ⟨a, c, b, rfl, hc, ha⟩
      · exact line t hnone
      · refine next a c b ha hc (ih b.length ?_ b rfl)
        rw [← hlength, List.length_append, List.length_cons]
        omega

theorem no_break_of_mem_lines {t l : Text} (h : l ∈ lines t) : ∀ c ∈ l, isBreak c = false := by
  induction t using line_induction with
  | line t ht =>
      rw [lines_of_no_break ht, List.mem_singleton] at h
      exact h ▸ ht
  | next a c b ha hc ih =>
      rw [lines_append_cons a b hc, lines_of_no_break ha] at h
      rcases List.mem_append.mp h with h | h
      · exact List.mem_singleton.mp h ▸ ha
      · exact ih h

@[simp]
theorem settings_append_cons (s t : Text) {c : Char} (hc : isBreak c = true) :
    settings (s ++ c :: t) = settings s ++ settings t := by
  rw [settings, lines_append_cons s t hc, List.filterMap_append]
  rfl

@[simp]
theorem settings_nil : settings [] = [] := rfl

/-- A text behind whose end a line begins. -/
def EndsLine (t : Text) : Prop := t = [] ∨ ∃ u c, t = u ++ [c] ∧ isBreak c = true

/-- A text before which a line ends. -/
def BeginsBehindLine (t : Text) : Prop := t = [] ∨ ∃ c u, t = c :: u ∧ isBreak c = true

theorem settings_append_of_endsLine {s : Text} (h : EndsLine s) (t : Text) :
    settings (s ++ t) = settings s ++ settings t := by
  rcases h with rfl | ⟨u, c, rfl, hc⟩
  · rfl
  · rw [List.append_assoc, List.singleton_append, settings_append_cons u t hc,
      settings_append_cons u [] hc, settings_nil, List.append_nil]

theorem settings_append_of_begins (s : Text) {t : Text} (h : BeginsBehindLine t) :
    settings (s ++ t) = settings s ++ settings t := by
  rcases h with rfl | ⟨c, u, rfl, hc⟩
  · rw [List.append_nil, settings_nil, List.append_nil]
  · have hfirst : settings (c :: u) = settings u := settings_append_cons [] u hc
    rw [settings_append_cons s u hc, hfirst]

/-- A single line has one setting at most. -/
theorem settings_of_no_break {t : Text} (h : ∀ c ∈ t, isBreak c = false) :
    settings t = (setting? t).toList := by
  rw [settings, lines_of_no_break h]
  cases hs : setting? t with
  | none => exact List.filterMap_cons_none hs
  | some s => exact List.filterMap_cons_some hs

theorem setting?_append_cons {label value : Text} (h : '=' ∉ label) :
    setting? (label ++ '=' :: value) = some ⟨label.dropWhile isBlank, value⟩ := by
  have hlabel : ∀ c ∈ label, decide (c ≠ '=') = true := by
    intro c hc
    exact decide_eq_true fun heq => h (heq ▸ hc)
  rw [setting?, if_pos (by simp), List.takeWhile_append_of_pos hlabel,
    List.dropWhile_append_of_pos hlabel]
  simp

/-- Every setting comes from a line with its label, an equals sign and its value. -/
theorem exists_of_setting? {line : Text} {s : Setting} (h : setting? line = some s) :
    ∃ label, line = label ++ '=' :: s.value ∧ '=' ∉ label ∧ s.label = label.dropWhile isBlank := by
  unfold setting? at h
  split at h
  · next hmem =>
      obtain ⟨label, value, rfl, hlabel⟩ := List.eq_append_cons_of_mem hmem
      have heq := (if_pos hmem).symm.trans
        (setting?_append_cons hlabel : setting? (label ++ '=' :: value) = _)
      rw [Option.some.inj (h.symm.trans heq)]
      exact ⟨label, rfl, hlabel, rfl⟩
  · cases h

theorem setting?_of_not_mem {line : Text} (h : '=' ∉ line) : setting? line = none := if_neg h

theorem no_break_of_mem_settings {t : Text} {s : Setting} (h : s ∈ settings t) :
    ∀ c ∈ s.value, isBreak c = false := by
  obtain ⟨line, hline, hs⟩ := List.mem_filterMap.mp h
  obtain ⟨label, rfl, -⟩ := exists_of_setting? hs
  exact fun c hc => no_break_of_mem_lines hline c (by simp [hc])

/-- The setting of a line between other ones. -/
theorem settings_of_line {before after label value : Text} (hbefore : EndsLine before)
    (hafter : BeginsBehindLine after) (hlabel : '=' ∉ label)
    (hline : ∀ c ∈ label ++ '=' :: value, isBreak c = false) :
    settings (before ++ ((label ++ '=' :: value) ++ after)) =
      settings before ++ ⟨label.dropWhile isBlank, value⟩ :: settings after := by
  rw [settings_append_of_endsLine hbefore, settings_append_of_begins _ hafter,
    settings_of_no_break hline, setting?_append_cons hlabel]
  rfl

/-! ## What a value reads -/

/-- Blanks, and a comment at most. -/
def IsTail (t : Text) : Prop := ∀ c ∈ t.takeWhile (· ≠ ';'), isBlank c = true

instance (t : Text) : Decidable (IsTail t) := inferInstanceAs (Decidable (∀ c ∈ _, _))

/-- No blanks at the ends. -/
def Trimmed (t : Text) : Prop :=
  (∀ c ∈ t.head?, isBlank c = false) ∧ ∀ c ∈ t.getLast?, isBlank c = false

instance (t : Text) : Decidable (Trimmed t) := inferInstanceAs (Decidable (_ ∧ _))

/-- The characters that a value without quotes does not have. -/
def IsBare (t : Text) : Prop := ∀ c ∈ t, c ∉ [';', '"', '\'']

instance (t : Text) : Decidable (IsBare t) := inferInstanceAs (Decidable (∀ c ∈ _, _))

namespace Setting

theorem mem_of_mem_read {s : Setting} {c : Char} (h : c ∈ s.read) : c ∈ s.value := by
  have hvalue : c ∈ s.value.dropWhile isBlank → c ∈ s.value :=
    fun hc => (List.dropWhile_sublist isBlank).mem hc
  unfold read at h
  split at h
  · next heq => exact hvalue (heq ▸ List.mem_cons_of_mem _ ((List.takeWhile_sublist _).mem h))
  · next heq => exact hvalue (heq ▸ List.mem_cons_of_mem _ ((List.takeWhile_sublist _).mem h))
  · exact hvalue ((List.takeWhile_sublist _).mem ((List.rdropWhile_prefix _ _).sublist.mem h))

theorem read_congr {s s' : Setting} (h : s.value = s'.value) : s.read = s'.read := by
  unfold read
  rw [h]

theorem read_blank_cons (label : Text) {c : Char} (hc : isBlank c = true) (t : Text) :
    (Setting.mk label (c :: t)).read = (Setting.mk label t).read := by
  unfold read
  rw [List.dropWhile_cons_of_pos hc]

theorem read_of_dropWhile {s : Setting} {c : Char} {t : Text}
    (h : s.value.dropWhile isBlank = c :: t) (hdouble : c ≠ '"') (hsingle : c ≠ '\'') :
    s.read = ((c :: t).takeWhile (· ≠ ';')).rdropWhile isBlank := by
  unfold read
  rw [h]
  split
  · next heq => exact absurd (List.cons.inj heq).1 hdouble
  · next heq => exact absurd (List.cons.inj heq).1 hsingle
  · rfl

theorem rdropWhile_append_of_blank {t u : Text} (h : ∀ c ∈ u, isBlank c = true) :
    (t ++ u).rdropWhile isBlank = t.rdropWhile isBlank := by
  induction u using List.reverseRecOn with
  | nil => rw [List.append_nil]
  | append_singleton u c ih =>
      rw [← List.append_assoc, List.rdropWhile_concat_pos _ _ _ (h c (by simp)),
        ih fun d hd => h d (List.mem_append_left _ hd)]

/-- A bare value is read if it has no blanks at its ends and nothing but a comment behind. -/
theorem read_append_iff (label : Text) {w tail : Text} (hbare : IsBare w)
    (hne : ∃ c ∈ w, isBlank c = false) :
    (Setting.mk label (w ++ tail)).read = w ↔ Trimmed w ∧ IsTail tail := by
  have hrest : w.dropWhile isBlank ≠ [] := by
    obtain ⟨c, hc, hblank⟩ := hne
    intro hnil
    rw [List.dropWhile_eq_nil_iff.mp hnil c hc] at hblank
    cases hblank
  obtain ⟨d, rest, hd⟩ := List.exists_cons_of_ne_nil hrest
  have hdblank : isBlank d = false := by
    have hhead := List.head_dropWhile_not isBlank hrest
    simpa [hd] using hhead
  have hmem : ∀ c ∈ d :: rest, c ∈ w := fun c hc =>
    (List.dropWhile_sublist isBlank).mem (hd ▸ hc)
  have hplain : ∀ c ∈ d :: rest, decide (c ≠ ';') = true := fun c hc =>
    decide_eq_true fun heq => hbare c (hmem c hc) (by simp [heq])
  have hdbare := hbare d (hmem d List.mem_cons_self)
  have hdrop : (w ++ tail).dropWhile isBlank = d :: (rest ++ tail) := by
    rw [List.dropWhile_append, hd]
    rfl
  rw [read_of_dropWhile (s := ⟨label, w ++ tail⟩) hdrop (by simp_all) (by simp_all),
    ← List.cons_append, List.takeWhile_append_of_pos hplain]
  generalize htail : tail.takeWhile (· ≠ ';') = tail'
  have htail' : IsTail tail ↔ ∀ c ∈ tail', isBlank c = true := by rw [IsTail, htail]
  rw [htail']
  constructor
  · intro heq
    have hwhole : w = d :: rest := by
      have hbegin := List.rdropWhile_prefix isBlank (l := (d :: rest) ++ tail')
      rw [heq] at hbegin
      cases w with
      | nil => exact absurd rfl hrest
      | cons e w =>
          obtain rfl := (List.cons_prefix_cons.mp hbegin).1
          rwa [List.dropWhile_cons_of_neg (by simp [hdblank])] at hd
    rw [hwhole] at heq ⊢
    have hsplit := List.rdropWhile_append_rtakeWhile (p := isBlank) (l := (d :: rest) ++ tail')
    rw [heq, List.append_cancel_left_eq] at hsplit
    refine ⟨⟨fun c hc => ?_, fun c hc => ?_⟩, fun c hc => ?_⟩
    · obtain rfl : d = c := by simpa using hc
      exact hdblank
    · have hnonempty : ((d :: rest) ++ tail').rdropWhile isBlank ≠ [] := by
        rw [heq]
        exact List.cons_ne_nil d rest
      have hlast := List.rdropWhile_last_not isBlank _ hnonempty
      have hc' : (d :: rest).getLast (List.cons_ne_nil d rest) = c :=
        List.getLast_of_getLast?_eq_some hc
      simp only [heq] at hlast
      rw [hc'] at hlast
      exact eq_false_of_ne_true hlast
    · rw [← hsplit] at hc
      exact List.mem_rtakeWhile_imp hc
  · rintro ⟨htrim, hblank⟩
    have hwhole : w = d :: rest := by
      cases w with
      | nil => exact absurd rfl hrest
      | cons e w =>
          have he := htrim.1 e rfl
          rwa [List.dropWhile_cons_of_neg (by simp [he])] at hd
    rw [hwhole] at htrim ⊢
    rw [rdropWhile_append_of_blank hblank, List.rdropWhile_eq_self_iff]
    intro hne'
    simp [htrim.2 _ (List.getLast?_eq_some_getLast hne')]

end Setting

/-! ## Edits -/

/-- Replace a text with an equals sign in it by another one, both cut at the sign. -/
structure Edit where
  front : Text
  back : Text
  newFront : Text
  newBack : Text

namespace Edit

variable (e : Edit)

def search : Text := e.front ++ '=' :: e.back

def replacement : Text := e.newFront ++ '=' :: e.newBack

def apply (t : Text) : Text := strReplace e.search e.replacement t

/-- The effect on a setting. -/
def setting (s : Setting) : Setting :=
  if e.front <:+ s.label ∧ e.back <+: s.value then
    ⟨s.label.take (s.label.length - e.front.length) ++ e.newFront,
      e.newBack ++ e.apply (s.value.drop e.back.length)⟩
  else ⟨s.label, e.apply s.value⟩

/-- What a label can end in, and begin with. -/
structure Solid (front : Text) : Prop where
  ne_nil : front ≠ []
  sign : '=' ∉ front
  head : ∀ c ∈ front.head?, isBlank c = false
  line : ∀ c ∈ front, isBreak c = false

instance (front : Text) : Decidable (Solid front) :=
  decidable_of_iff (front ≠ [] ∧ '=' ∉ front ∧ (∀ c ∈ front.head?, isBlank c = false) ∧
      ∀ c ∈ front, isBreak c = false)
    ⟨fun h => ⟨h.1, h.2.1, h.2.2.1, h.2.2.2⟩, fun h => ⟨h.ne_nil, h.sign, h.head, h.line⟩⟩

/-- An edit that stays on its line. -/
structure Inline : Prop where
  front : Solid e.front
  newFront : Solid e.newFront
  back : ∀ c ∈ e.back, isBreak c = false
  newBack : ∀ c ∈ e.newBack, isBreak c = false

variable {e}

theorem search_ne_nil : e.search ≠ [] := by simp [search]

theorem Inline.search (h : e.Inline) : ∀ c ∈ e.search, isBreak c = false := by
  intro c hc
  rcases List.mem_append.mp hc with hc | hc
  · exact h.front.line c hc
  · rcases List.mem_cons.mp hc with rfl | hc
    · rfl
    · exact h.back c hc

theorem Inline.replacement (h : e.Inline) : ∀ c ∈ e.replacement, isBreak c = false := by
  intro c hc
  rcases List.mem_append.mp hc with hc | hc
  · exact h.newFront.line c hc
  · rcases List.mem_cons.mp hc with rfl | hc
    · rfl
    · exact h.newBack c hc

theorem no_break_of_inline (h : e.Inline) {t : Text} (ht : ∀ c ∈ t, isBreak c = false) :
    ∀ c ∈ e.apply t, isBreak c = false := fun c hc =>
  (Text.mem_strReplace hc).elim (h.replacement c) (ht c)

/-- An edit goes from line to line. -/
theorem lines_apply (h : e.Inline) (t : Text) : lines (e.apply t) = (lines t).map e.apply := by
  induction t using line_induction with
  | line t ht =>
      rw [lines_of_no_break ht, lines_of_no_break (no_break_of_inline h ht), List.map_singleton]
  | next a c b ha hc ih =>
      have hmem : c ∉ e.search := fun hmem => by simp [h.search c hmem] at hc
      have hcut : e.apply (a ++ c :: b) = e.apply a ++ c :: e.apply b :=
        Text.strReplace_append_cons search_ne_nil hmem _ a b
      rw [hcut, lines_append_cons _ _ hc, lines_append_cons _ _ hc, List.map_append, ih,
        lines_of_no_break ha, lines_of_no_break (no_break_of_inline h ha), List.map_singleton]

theorem not_search_prefix_cons (h : Solid e.front) (t : Text) : ¬ e.search <+: '=' :: t := by
  obtain ⟨c, rest, hcons⟩ := List.exists_cons_of_ne_nil h.ne_nil
  intro hbegin
  rw [search, hcons, List.cons_append, List.cons_prefix_cons] at hbegin
  exact h.sign (by rw [hcons, hbegin.1]; exact List.mem_cons_self)

/-- A line begins with the searched text if it has the label and begins the value. -/
theorem search_prefix_iff {label value : Text} (h : '=' ∉ label) (hfront : '=' ∉ e.front) :
    e.search <+: label ++ '=' :: value ↔ e.front = label ∧ e.back <+: value := by
  constructor
  · rintro ⟨rest, hrest⟩
    rw [search, List.append_assoc, List.cons_append] at hrest
    have hshort : e.front <+: label :=
      Text.prefix_of_prefix_append_cons hfront (hrest ▸ List.prefix_append _ _)
    have hlong : label <+: e.front :=
      Text.prefix_of_prefix_append_cons h (hrest.symm ▸ List.prefix_append label _)
    have hsame : e.front = label :=
      hshort.eq_of_length_le hlong.length_le
    rw [hsame, List.append_cancel_left_eq] at hrest
    exact ⟨hsame, rest, (List.cons.inj hrest).2⟩
  · rintro ⟨rfl, rest, rfl⟩
    exact ⟨rest, by simp [search]⟩

theorem apply_line (h : Solid e.front) {label : Text} (hlabel : '=' ∉ label) (value : Text) :
    e.apply (label ++ '=' :: value) =
      if e.front <:+ label ∧ e.back <+: value then
        label.take (label.length - e.front.length) ++
          (e.replacement ++ e.apply (value.drop e.back.length))
      else label ++ '=' :: e.apply value := by
  induction label with
  | nil =>
      have hnone : ¬ e.front <:+ [] := fun hs => h.ne_nil (List.suffix_nil.mp hs)
      rw [if_neg fun hc => hnone hc.1]
      exact Text.strReplace_cons _ (not_search_prefix_cons h value)
  | cons c label ih =>
      have hrest : '=' ∉ label := fun hmem => hlabel (List.mem_cons_of_mem c hmem)
      by_cases hhere : e.search <+: (c :: label) ++ '=' :: value
      · obtain ⟨hsame, hback⟩ := (search_prefix_iff hlabel h.sign).mp hhere
        have hdrop : ((c :: label) ++ '=' :: value).drop e.search.length =
            value.drop e.back.length := by
          rw [← hsame, search, List.length_append, ← List.drop_drop, List.drop_left]
          rfl
        rw [if_pos ⟨hsame ▸ List.suffix_refl _, hback⟩, apply,
          Text.strReplace_of_prefix search_ne_nil _ hhere, hdrop, hsame]
        simp [apply]
      · have hstep : e.apply ((c :: label) ++ '=' :: value) =
            c :: e.apply (label ++ '=' :: value) := Text.strReplace_cons _ hhere
        have hcond : (e.front <:+ c :: label ∧ e.back <+: value) ↔
            e.front <:+ label ∧ e.back <+: value := by
          refine and_congr_left fun hback => ?_
          rw [List.suffix_cons_iff]
          refine or_iff_right fun hsame => hhere ?_
          exact (search_prefix_iff hlabel h.sign).mpr ⟨hsame, hback⟩
        rw [hstep, ih hrest]
        by_cases hmatch : e.front <:+ label ∧ e.back <+: value
        · rw [if_pos hmatch, if_pos (hcond.mpr hmatch)]
          have hle : e.front.length ≤ label.length := hmatch.1.length_le
          rw [List.length_cons, Nat.succ_sub hle, List.take_succ_cons]
          rfl
        · rw [if_neg hmatch, if_neg (mt hcond.mp hmatch)]
          rfl

theorem dropWhile_of_solid {front : Text} (h : Solid front) : front.dropWhile isBlank = front := by
  obtain ⟨c, rest, rfl⟩ := List.exists_cons_of_ne_nil h.ne_nil
  rw [List.dropWhile_cons_of_neg]
  simp [h.head c rfl]

theorem solid_suffix_iff {front : Text} (h : Solid front) (label : Text) :
    front <:+ label.dropWhile isBlank ↔ front <:+ label := by
  induction label with
  | nil => rfl
  | cons c label ih =>
      by_cases hc : isBlank c = true
      · rw [List.dropWhile_cons_of_pos hc, ih, List.suffix_cons_iff]
        refine (or_iff_right fun hsame => ?_).symm
        have hhead := h.head c (by rw [hsame]; rfl)
        rw [hc] at hhead
        cases hhead
      · rw [List.dropWhile_cons_of_neg hc]

/-- The blanks in front of a label stay what they are. -/
theorem dropWhile_append_solid {front newFront : Text} (h : Solid front) (h' : Solid newFront)
    (rest : Text) :
    (rest ++ newFront).dropWhile isBlank =
      ((rest ++ front).dropWhile isBlank).take
        (((rest ++ front).dropWhile isBlank).length - front.length) ++ newFront := by
  induction rest with
  | nil =>
      rw [List.nil_append, List.nil_append, dropWhile_of_solid h, dropWhile_of_solid h',
        Nat.sub_self]
      rfl
  | cons c rest ih =>
      rw [List.cons_append, List.cons_append]
      by_cases hc : isBlank c = true
      · rw [List.dropWhile_cons_of_pos hc, List.dropWhile_cons_of_pos hc, ih]
      · rw [List.dropWhile_cons_of_neg hc, List.dropWhile_cons_of_neg hc, ← List.cons_append,
          ← List.cons_append, List.length_append, Nat.add_sub_cancel, List.take_left]

theorem setting?_apply (h : e.Inline) (line : Text) :
    setting? (e.apply line) = (setting? line).map e.setting := by
  by_cases hmem : '=' ∈ line
  · obtain ⟨label, value, rfl, hlabel⟩ := List.eq_append_cons_of_mem hmem
    have hcond : (e.front <:+ label.dropWhile isBlank ∧ e.back <+: value) ↔
        e.front <:+ label ∧ e.back <+: value :=
      and_congr_left fun _ => solid_suffix_iff h.front label
    rw [apply_line h.front hlabel, setting?_append_cons hlabel, Option.map_some, setting]
    by_cases hmatch : e.front <:+ label ∧ e.back <+: value
    · rw [if_pos hmatch, if_pos (hcond.mpr hmatch)]
      obtain ⟨rest, rfl⟩ := hmatch.1
      have hrest : '=' ∉ rest := fun hm => hlabel (List.mem_append_left _ hm)
      have hnew : '=' ∉ rest ++ e.newFront := fun hm =>
        (List.mem_append.mp hm).elim hrest h.newFront.sign
      have hline : rest ++ (e.replacement ++ e.apply (value.drop e.back.length)) =
          (rest ++ e.newFront) ++
            '=' :: (e.newBack ++ e.apply (value.drop e.back.length)) := by
        simp [replacement]
      rw [List.length_append, Nat.add_sub_cancel, List.take_left, hline,
        setting?_append_cons hnew, dropWhile_append_solid h.front h.newFront]
    · rw [if_neg hmatch, if_neg (mt hcond.mp hmatch), setting?_append_cons hlabel]
  · have hnone : ¬ e.search <:+: line := fun hheld =>
      hmem (hheld.subset (by simp [search]))
    rw [apply, Text.strReplace_of_absent hnone, setting?_of_not_mem hmem]
    rfl

/-- An edit goes from setting to setting. -/
theorem settings_apply (h : e.Inline) (t : Text) :
    settings (e.apply t) = (settings t).map e.setting := by
  rw [settings, lines_apply h, settings, List.filterMap_map, List.map_filterMap]
  exact List.filterMap_congr fun line _ => setting?_apply h line

/-! ## Edits and keys -/

/-- The edit neither takes the key away from a line nor gives it to one. -/
def Foreign (e : Edit) (key : Text) : Prop :=
  ¬ e.front.rdropWhile isBlank <:+ key ∧ ¬ e.newFront.rdropWhile isBlank <:+ key

instance (e : Edit) (key : Text) : Decidable (e.Foreign key) := inferInstanceAs (Decidable (_ ∧ _))

/-- What ends in a label ends in its key, blanks apart. -/
theorem suffix_key_of_suffix_label {front label : Text} (h : Solid front) (hs : front <:+ label) :
    front.rdropWhile isBlank <:+ label.rdropWhile isBlank := by
  obtain ⟨rest, rfl⟩ := hs
  induction front using List.reverseRecOn with
  | nil => exact absurd rfl h.ne_nil
  | append_singleton front c ih =>
      rw [← List.append_assoc, List.rdropWhile_concat, List.rdropWhile_concat]
      split
      · next hc =>
          refine ih ⟨?_, fun hm => h.sign (List.mem_append_left _ hm), fun d hd => ?_,
            fun d hd => h.line d (List.mem_append_left _ hd)⟩
          · rintro rfl
            have hhead := h.head c rfl
            rw [hc] at hhead
            cases hhead
          · cases front with
            | nil => cases hd
            | cons e front => exact h.head d hd
      · exact ⟨rest, (List.append_assoc rest front [c]).symm⟩

variable {key : Text}

/-- What the edit makes of a setting that it is made for. -/
theorem setting_append (e : Edit) (rest value : Text) :
    e.setting ⟨rest ++ e.front, e.back ++ value⟩ =
      ⟨rest ++ e.newFront, e.newBack ++ e.apply value⟩ := by
  rw [setting, if_pos ⟨List.suffix_append _ _, List.prefix_append _ _⟩, List.drop_left,
    List.length_append, Nat.add_sub_cancel, List.take_left]

theorem setting_of_not_match {s : Setting} (h : ¬ (e.front <:+ s.label ∧ e.back <+: s.value))
    (hvalue : ¬ e.search <:+: s.value) : e.setting s = s := by
  rw [setting, if_neg h, apply, Text.strReplace_of_absent hvalue]

theorem not_suffix_label (h : Solid e.front) (hforeign : e.Foreign key) {s : Setting}
    (hs : s.key = key) : ¬ e.front <:+ s.label := fun hsuffix =>
  hforeign.1 (hs ▸ suffix_key_of_suffix_label h hsuffix)

theorem key_setting_ne (hnew : Solid e.newFront) (hforeign : e.Foreign key) {s : Setting}
    (hs : s.key ≠ key) : (e.setting s).key ≠ key := by
  intro heq
  unfold setting at heq
  split at heq
  · exact hforeign.2 (heq ▸ suffix_key_of_suffix_label hnew (List.suffix_append _ _))
  · exact hs heq

/-- A foreign edit leaves the settings of a key alone. -/
theorem ofKey_map_setting (h : e.Inline) (hforeign : e.Foreign key) {ss : List Setting}
    (hvalue : ∀ s ∈ ofKey key ss, ¬ e.search <:+: s.value) :
    ofKey key (ss.map e.setting) = ofKey key ss := by
  induction ss with
  | nil => rfl
  | cons s ss ih =>
      by_cases hs : s.key = key
      · have hcons : ofKey key (s :: ss) = s :: ofKey key ss :=
          List.filter_cons_of_pos (decide_eq_true hs)
        rw [hcons] at hvalue ⊢
        have hsame : e.setting s = s :=
          setting_of_not_match (fun hc => not_suffix_label h.front hforeign hs hc.1)
            (hvalue s List.mem_cons_self)
        rw [List.map_cons, hsame, ← ih fun s' hs' => hvalue s' (List.mem_cons_of_mem s hs')]
        exact List.filter_cons_of_pos (decide_eq_true hs)
      · have hcons : ofKey key (s :: ss) = ofKey key ss :=
          List.filter_cons_of_neg (by simpa using hs)
        rw [hcons] at hvalue ⊢
        rw [← ih hvalue, List.map_cons]
        exact List.filter_cons_of_neg (by simpa using key_setting_ne h.newFront hforeign hs)

/-- An edit that keeps the label keeps the key. -/
theorem key_setting_of_eq (h : e.front = e.newFront) (s : Setting) :
    (e.setting s).label = s.label := by
  unfold setting
  split
  · next hmatch =>
      obtain ⟨rest, hrest⟩ := hmatch.1
      rw [← h, ← hrest, List.length_append, Nat.add_sub_cancel, List.take_left]
  · rfl

theorem ofKey_map_setting_of_eq (h : e.front = e.newFront) (ss : List Setting) :
    ofKey key (ss.map e.setting) = (ofKey key ss).map e.setting := by
  rw [ofKey, List.filter_map]
  refine congrArg _ (List.filter_congr fun s _ => ?_)
  rw [Function.comp_apply, Setting.key, key_setting_of_eq h, Setting.key]

/-! ## Edits one after another -/

def applyAll (es : List Edit) (t : Text) : Text := es.foldl (fun t e => e.apply t) t

def settingAll (es : List Edit) (s : Setting) : Setting := es.foldl (fun s e => e.setting s) s

theorem settingAll_append (es es' : List Edit) (s : Setting) :
    settingAll (es ++ es') s = settingAll es' (settingAll es s) := List.foldl_append

theorem settingAll_cons (e : Edit) (es : List Edit) (s : Setting) :
    settingAll (e :: es) s = settingAll es (e.setting s) := rfl

/-- A setting is left alone by edits that find neither its label with its value nor
anything in its value. -/
theorem settingAll_of_not_match {es : List Edit} {s : Setting}
    (h : ∀ e ∈ es, ¬ (e.front <:+ s.label ∧ e.back <+: s.value) ∧ ¬ e.search <:+: s.value) :
    settingAll es s = s := by
  induction es with
  | nil => rfl
  | cons e es ih =>
      obtain ⟨he, hes⟩ := List.forall_mem_cons.mp h
      rw [settingAll_cons, setting_of_not_match he.1 he.2, ih hes]

/-- What every edit preserves is preserved by all of them. -/
theorem settingAll_preserves {p : Setting → Prop} {es : List Edit}
    (h : ∀ e ∈ es, ∀ s, p s → p (e.setting s)) {s : Setting} (hs : p s) : p (settingAll es s) := by
  induction es generalizing s with
  | nil => exact hs
  | cons e es ih =>
      obtain ⟨he, hes⟩ := List.forall_mem_cons.mp h
      exact ih hes (he s hs)

theorem applyAll_append (es es' : List Edit) (t : Text) :
    applyAll (es ++ es') t = applyAll es' (applyAll es t) := List.foldl_append

theorem applyAll_nil (t : Text) : applyAll [] t = t := rfl

theorem applyAll_cons (e : Edit) (es : List Edit) (t : Text) :
    applyAll (e :: es) t = applyAll es (e.apply t) := rfl

theorem settings_applyAll {es : List Edit} (h : ∀ e ∈ es, e.Inline) (t : Text) :
    settings (applyAll es t) = (settings t).map (settingAll es) := by
  induction es generalizing t with
  | nil => exact (List.map_id _).symm
  | cons e es ih =>
      obtain ⟨he, hes⟩ := List.forall_mem_cons.mp h
      rw [applyAll_cons, ih hes, settings_apply he, List.map_map]
      rfl

/-- Foreign edits leave the settings of a key alone. -/
theorem ofKey_applyAll {es : List Edit} (h : ∀ e ∈ es, e.Inline) (hforeign : ∀ e ∈ es, e.Foreign key)
    {t : Text} (hvalue : ∀ s ∈ ofKey key (settings t), ∀ e ∈ es, ¬ e.search <:+: s.value) :
    ofKey key (settings (applyAll es t)) = ofKey key (settings t) := by
  induction es generalizing t with
  | nil => rfl
  | cons e es ih =>
      obtain ⟨he, hes⟩ := List.forall_mem_cons.mp h
      obtain ⟨hforeign, hforeigns⟩ := List.forall_mem_cons.mp hforeign
      have hfirst : ofKey key (settings (e.apply t)) = ofKey key (settings t) := by
        rw [settings_apply he]
        exact ofKey_map_setting he hforeign fun s hs => hvalue s hs e List.mem_cons_self
      rw [applyAll_cons, ih hes hforeigns, hfirst]
      rw [hfirst]
      exact fun s hs e' he' => hvalue s hs e' (List.mem_cons_of_mem e he')

/-- One edit with the key among foreign ones is what remains. -/
theorem ofKey_applyAll_of_own {before after : List Edit} {own : Edit}
    (hbefore : ∀ e ∈ before, e.Inline ∧ e.Foreign key) (hafter : ∀ e ∈ after, e.Inline ∧ e.Foreign key)
    (hown : own.Inline) (hlabel : own.front = own.newFront) {t : Text}
    (hvalue : ∀ s ∈ ofKey key (settings t), (∀ e ∈ before, ¬ e.search <:+: s.value) ∧
      ∀ e ∈ after, ¬ e.search <:+: (own.setting s).value) :
    ofKey key (settings (applyAll (before ++ own :: after) t)) =
      (ofKey key (settings t)).map own.setting := by
  have hfirst : ofKey key (settings (applyAll before t)) = ofKey key (settings t) :=
    ofKey_applyAll (fun e he => (hbefore e he).1) (fun e he => (hbefore e he).2)
      fun s hs => (hvalue s hs).1
  have hmiddle : ofKey key (settings (own.apply (applyAll before t))) =
      (ofKey key (settings t)).map own.setting := by
    rw [settings_apply hown, ofKey_map_setting_of_eq hlabel, hfirst]
  rw [applyAll_append, applyAll_cons, ofKey_applyAll (fun e he => (hafter e he).1)
    (fun e he => (hafter e he).2), hmiddle]
  rw [hmiddle]
  intro s hs
  obtain ⟨s', hs', rfl⟩ := List.mem_map.mp hs
  exact (hvalue s' hs').2

end Edit

/-! ## Lines that are put behind a text -/

/-- Break the lines behind every occurrence of a text. -/
def cut (marker t : Text) : Text := strReplace marker (marker ++ ['\n']) t

theorem settings_unlines_append (ls : List Text) (t : Text) :
    settings (Text.unlines ls ++ t) = settings (Text.unlines ls) ++ settings t := by
  induction ls with
  | nil => rfl
  | cons l ls ih =>
      have hcons : ∀ t, Text.unlines (l :: ls) ++ t = l ++ '\n' :: (Text.unlines ls ++ t) :=
        fun t => by simp [Text.unlines]
      have hbreak : isBreak '\n' = true := rfl
      rw [hcons, settings_append_cons _ _ hbreak, ih, ← List.append_nil (Text.unlines (l :: ls)),
        hcons, settings_append_cons _ _ hbreak, List.append_nil, List.append_assoc]

/-- Lines behind every occurrence add their settings, as often as the text occurs. -/
theorem settings_insert_perm {marker : Text} (hne : marker ≠ []) (hclear : Clear marker marker)
    (ls : List Text) (t : Text) :
    (settings (strReplace marker (marker ++ '\n' :: Text.unlines ls) t)).Perm
      (settings (cut marker t) ++
        (List.replicate (occurrences marker t) (settings (Text.unlines ls))).flatten) := by
  unfold cut
  induction t using Text.occurrence_induction hne with
  | none t hnone =>
      rw [Text.strReplace_of_absent hnone, Text.strReplace_of_absent hnone,
        Text.occurrences_of_absent hne hnone, List.replicate_zero, List.flatten_nil,
        List.append_nil]
  | some a b ha ih =>
      have hbreak : isBreak '\n' = true := rfl
      have hlong : ∀ rest : Text, a ++ (marker ++ '\n' :: Text.unlines ls ++ rest) =
          (a ++ marker) ++ '\n' :: (Text.unlines ls ++ rest) := fun rest => by simp
      have hshort : ∀ rest : Text, a ++ (marker ++ ['\n'] ++ rest) =
          (a ++ marker) ++ '\n' :: rest := fun rest => by simp
      rw [Text.strReplace_append hne hclear ha, Text.strReplace_append hne hclear ha, hlong, hshort,
        settings_append_cons _ _ hbreak, settings_append_cons _ _ hbreak, settings_unlines_append,
        Text.occurrences_append hne hclear ha, List.replicate_succ, List.flatten_cons,
        List.append_assoc]
      refine List.Perm.append_left _ ((List.Perm.append_left _ ih).trans ?_)
      rw [← List.append_assoc, ← List.append_assoc]
      exact List.Perm.append_right _ List.perm_append_comm

end Ini
