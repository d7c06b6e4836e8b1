/-
# Cutting off the last component

A path text is a front that ends in a separator, a last component and the
separators behind it. A name can be cut off as the last component, or with a
separator in front of it as a text, wherever that occurs. The two agree exactly
if the text occurs only as the last component, and the component only behind that
separator.
-/

import WampManager.Lib.FilePath
import WampManager.Lib.Translate

namespace FilePath

/-! ## Definitions -/

/-- What stands in front of the last component, with the separator. -/
def front (t : Text) : Text := (t.rdropWhile isSep).rdropWhile (!isSep ·)

/-- A front is empty or ends in a separator. -/
def IsFront (t : Text) : Prop := ∀ c ∈ t.getLast?, isSep c = true

/-- A path text without its last component and one separator in front of it, if the
component is a given one. -/
def withoutLast (name t : Text) : Text :=
  if basename t = name then (front t).dropLast ++ t.rtakeWhile isSep else t

/-- A name occurs behind a separator only as the last component, and it is the last
component only behind that separator. -/
structure OnlyLast (sep : Char) (name t : Text) : Prop where
  at_end : ∀ before behind, t = before ++ (sep :: name ++ behind) → ∀ c ∈ behind, isSep c = true
  behind_sep : basename t = name → sep :: name <:+: t

/-! ## The three parts -/

theorem not_mem_of_isSep {t : Text} {c : Char} (ht : ∀ d ∈ t, isSep d = false)
    (hc : isSep c = true) : c ∉ t := by
  intro hm
  rw [ht c hm] at hc
  cases hc

theorem front_append_basename (t : Text) :
    front t ++ (basename t ++ t.rtakeWhile isSep) = t := by
  rw [← List.append_assoc, front, basename, List.rdropWhile_append_rtakeWhile,
    List.rdropWhile_append_rtakeWhile]

theorem isSep_of_mem_rtakeWhile {t : Text} : ∀ c ∈ t.rtakeWhile isSep, isSep c = true :=
  fun _ hc => List.mem_takeWhile_imp (List.mem_reverse.mp hc)

theorem isFront_front (t : Text) : IsFront (front t) := by
  intro c hc
  have hnil : front t ≠ [] := by
    rintro hnil
    rw [hnil] at hc
    cases hc
  have hlast := List.rdropWhile_last_not (!isSep ·) (t.rdropWhile isSep) hnil
  rw [List.getLast?_eq_some_getLast hnil, Option.mem_some_iff] at hc
  subst hc
  simpa [front] using hlast

theorem isFront_concat (t : Text) {c : Char} (hc : isSep c) : IsFront (t ++ [c]) := by
  intro d hd
  rw [List.getLast?_concat, Option.mem_some_iff] at hd
  exact hd ▸ hc

section Ending

variable {p : Char → Bool} {ending : Text} (h : ∀ c ∈ ending, p c = true)
include h

private theorem rdropWhile_append_of_pos (t : Text) :
    (t ++ ending).rdropWhile p = t.rdropWhile p := by
  rw [List.rdropWhile, List.reverse_append,
    List.dropWhile_append_of_pos fun c hc => h c (List.mem_reverse.mp hc), List.rdropWhile]

private theorem rtakeWhile_append_of_pos (t : Text) :
    (t ++ ending).rtakeWhile p = t.rtakeWhile p ++ ending := by
  rw [List.rtakeWhile, List.reverse_append,
    List.takeWhile_append_of_pos fun c hc => h c (List.mem_reverse.mp hc), List.reverse_append,
    List.reverse_reverse, List.rtakeWhile]

end Ending

section Parts

variable {name ends : Text} (hne : name ≠ []) (hname : ∀ c ∈ name, isSep c = false)
  (hends : ∀ c ∈ ends, isSep c = true)
include hne hname hends

/-- The parts of a text that is put together from them. -/
theorem parts_append {t : Text} (ht : IsFront t) :
    front (t ++ (name ++ ends)) = t ∧ basename (t ++ (name ++ ends)) = name ∧
      (t ++ (name ++ ends)).rtakeWhile isSep = ends := by
  have hother : ∀ c ∈ name, (!isSep c) = true := fun c hc => by simp [hname c hc]
  have hend : ∀ hl : t ++ name ≠ [], ¬ isSep ((t ++ name).getLast hl) = true := by
    intro hl
    rw [List.getLast_append_of_ne_nil hl hne]
    simp [hname _ (List.getLast_mem hne)]
  have hstart : ∀ hl : t ≠ [], ¬ (!isSep (t.getLast hl)) = true := by
    intro hl
    simp [ht _ (List.getLast?_eq_some_getLast hl)]
  have hbody : (t ++ (name ++ ends)).rdropWhile isSep = t ++ name := by
    rw [← List.append_assoc, rdropWhile_append_of_pos hends]
    exact List.rdropWhile_eq_self_iff.mpr hend
  refine ⟨?_, ?_, ?_⟩
  · rw [front, hbody, rdropWhile_append_of_pos hother]
    exact List.rdropWhile_eq_self_iff.mpr hstart
  · rw [basename, hbody, rtakeWhile_append_of_pos hother,
      List.rtakeWhile_eq_nil_iff.mpr hstart, List.nil_append]
  · rw [← List.append_assoc, rtakeWhile_append_of_pos hends,
      List.rtakeWhile_eq_nil_iff.mpr hend, List.nil_append]

theorem basename_append_ends {t : Text} (ht : IsFront t) :
    basename (t ++ (name ++ ends)) = name :=
  (parts_append hne hname hends ht).2.1

theorem withoutLast_append (t : Text) {c : Char} (hc : isSep c) :
    withoutLast name (t ++ c :: (name ++ ends)) = t ++ ends := by
  obtain ⟨hfront, hbase, hbehind⟩ := parts_append hne hname hends (isFront_concat t hc)
  rw [List.append_assoc, List.singleton_append] at hfront hbase hbehind
  rw [withoutLast, if_pos hbase, hfront, hbehind, List.dropLast_concat]

theorem withoutLast_self : withoutLast name (name ++ ends) = ends := by
  obtain ⟨hfront, hbase, hbehind⟩ := parts_append (t := []) hne hname hends (by simp [IsFront])
  rw [List.nil_append] at hfront hbase hbehind
  rw [withoutLast, if_pos hbase, hfront, hbehind, List.dropLast_nil, List.nil_append]

end Parts

theorem withoutLast_of_ne {name t : Text} (h : basename t ≠ name) : withoutLast name t = t :=
  if_neg h

/-- A last component stands alone or behind a separator. -/
theorem exists_of_basename_eq {name t : Text} (h : basename t = name) :
    ∃ ends, (∀ c ∈ ends, isSep c = true) ∧
      (t = name ++ ends ∨ ∃ u c, isSep c = true ∧ t = u ++ c :: (name ++ ends)) := by
  refine ⟨t.rtakeWhile isSep, isSep_of_mem_rtakeWhile, ?_⟩
  have hparts := front_append_basename t
  rw [h] at hparts
  rcases List.eq_nil_or_concat (front t) with hnil | ⟨u, c, hfront⟩
  · rw [hnil, List.nil_append] at hparts
    exact .inl hparts.symm
  · rw [List.concat_eq_append] at hfront
    refine .inr ⟨u, c, isFront_front t c (by simp [hfront]), hparts.symm.trans ?_⟩
    rw [hfront, List.append_assoc, List.singleton_append]

theorem segments_append_ends (t : Text) {ends : Text} (hends : ∀ c ∈ ends, isSep c = true) :
    segments (t ++ ends) = segments t := by
  rw [← segments_rdropWhile, rdropWhile_append_of_pos hends, segments_rdropWhile]

/-- Among the segments the last one is taken away. -/
theorem segments_of_basename_eq {name t : Text} (hne : name ≠ [])
    (hname : ∀ c ∈ name, isSep c = false) (h : basename t = name) :
    segments t = segments (withoutLast name t) ++ [name] := by
  obtain ⟨ends, hends, rfl | ⟨u, c, hc, rfl⟩⟩ := exists_of_basename_eq h
  · have hnone : segments ends = [] := by simpa using segments_append_ends [] hends
    rw [withoutLast_self hne hname hends, segments_append_ends _ hends,
      segments_of_no_sep hne hname, hnone, List.nil_append]
  · rw [withoutLast_append hne hname hends u hc, segments_append_sep _ _ hc,
      segments_append_ends _ hends, segments_append_ends _ hends, segments_of_no_sep hne hname]

/-! ## Cutting the name as a text -/

section Cut

variable {sep : Char} {name : Text} (hne : name ≠ []) (hname : ∀ c ∈ name, isSep c = false)
  (hsep : isSep sep = true)
include hne hname

/-- Among separators the name does not occur. -/
theorem not_infix_of_seps {ends : Text} (hends : ∀ c ∈ ends, isSep c = true) :
    ¬ sep :: name <:+: ends := by
  intro hinside
  obtain ⟨c, hc⟩ := List.exists_mem_of_ne_nil name hne
  have hsome := hends c (hinside.subset (List.mem_cons_of_mem sep hc))
  rw [hname c hc] at hsome
  cases hsome

include hsep

/-- As a last component the name is cut, and what occurs in front of it. -/
theorem strReplace_last (t : Text) {ends : Text} (hends : ∀ c ∈ ends, isSep c = true) :
    Text.strReplace (sep :: name) [] (t ++ (sep :: name ++ ends)) =
      Text.strReplace (sep :: name) [] t ++ ends := by
  rw [Text.strReplace_append_self (List.cons_ne_nil sep name)
      (Text.clear_cons_self (not_mem_of_isSep hname hsep)),
    Text.strReplace_of_absent (not_infix_of_seps hne hname hends), List.nil_append]

/-- Behind the separator the name is the last component alone exactly if it does not
occur in front. -/
theorem onlyLast_append_iff (t : Text) {ends : Text} (hends : ∀ c ∈ ends, isSep c = true) :
    OnlyLast sep name (t ++ (sep :: name ++ ends)) ↔ ¬ sep :: name <:+: t := by
  constructor
  · rintro honly ⟨before, behind, hsplit⟩
    obtain ⟨c, hc⟩ := List.exists_mem_of_ne_nil name hne
    have hall := honly.at_end before (behind ++ (sep :: name ++ ends)) (by simp [← hsplit]) c
      (by simp [hc])
    rw [hname c hc] at hall
    cases hall
  · intro habsent
    have hclear := Text.clear_cons_self (not_mem_of_isSep hname hsep)
    refine ⟨fun before behind hsplit => ?_, fun _ => ⟨t, ends, by simp⟩⟩
    rcases hclear.eq_or_infix habsent hsplit with ⟨-, rfl⟩ | hinside
    · exact hends
    · exact absurd hinside (not_infix_of_seps hne hname hends)

/-- The name alone is no occurrence of the name behind the separator. -/
theorem not_infix_name {ends : Text} (hends : ∀ c ∈ ends, isSep c = true) :
    ¬ sep :: name <:+: name ++ ends :=
  Text.not_infix_append_of_head rfl (not_mem_of_isSep hname hsep)
    (not_infix_of_seps hne hname hends)

/-- Behind another separator the last component stays. -/
theorem strReplace_ne_of_other {c : Char} (hc : isSep c = true) (hother : c ≠ sep) (t : Text)
    {ends : Text} (hends : ∀ c ∈ ends, isSep c = true) :
    Text.strReplace (sep :: name) [] (t ++ c :: (name ++ ends)) ≠ t ++ ends := by
  have hcons : sep :: name ≠ [] := List.cons_ne_nil sep name
  have habsent : c ∉ sep :: name := by
    simp [hother, not_mem_of_isSep hname hc]
  intro heq
  rw [Text.strReplace_append_cons hcons habsent,
    Text.strReplace_of_absent (not_infix_name hne hname hsep hends)] at heq
  have hcount := congrArg (List.count c) heq
  have hcut := Text.count_strReplace_nil hcons
    (Text.clear_cons_self (not_mem_of_isSep hname hsep)) habsent t
  simp only [List.count_append, List.count_cons_self, hcut] at hcount
  omega

theorem not_onlyLast_of_other {c : Char} (hc : isSep c = true) (hother : c ≠ sep) (t : Text)
    {ends : Text} (hends : ∀ c ∈ ends, isSep c = true) :
    ¬ OnlyLast sep name (t ++ c :: (name ++ ends)) := by
  intro honly
  obtain ⟨hfront, hbase, -⟩ := parts_append hne hname hends (isFront_concat t hc)
  rw [List.append_assoc, List.singleton_append] at hfront hbase
  obtain ⟨before, behind, hsplit⟩ := honly.behind_sep hbase
  have hbehind := honly.at_end before behind (by rw [← hsplit, List.append_assoc])
  have hfront' := (parts_append hne hname hbehind (isFront_concat before hsep)).1
  rw [List.append_assoc, List.singleton_append, ← List.cons_append, ← List.append_assoc, hsplit,
    hfront] at hfront'
  exact hother (List.singleton_inj.mp (List.append_inj' hfront' rfl).2)

/-- Cutting the name with the separator as a text cuts it as the last component exactly
if it occurs only there. -/
theorem strReplace_eq_withoutLast_iff (t : Text) :
    Text.strReplace (sep :: name) [] t = withoutLast name t ↔ OnlyLast sep name t := by
  have hcons : sep :: name ≠ [] := List.cons_ne_nil sep name
  by_cases hlast : basename t = name
  · obtain ⟨ends, hends, rfl | ⟨u, c, hc, rfl⟩⟩ := exists_of_basename_eq hlast
    · have habsent := not_infix_name hne hname hsep hends
      rw [withoutLast_self hne hname hends, Text.strReplace_of_absent habsent]
      exact iff_of_false (by simpa using hne) fun honly => habsent (honly.behind_sep hlast)
    · rw [withoutLast_append hne hname hends u hc]
      by_cases hsame : c = sep
      · subst hsame
        rw [← List.cons_append, strReplace_last hne hname hc u hends,
          onlyLast_append_iff hne hname hc u hends, List.append_cancel_right_eq,
          Text.strReplace_nil_eq_self_iff hcons]
      · exact iff_of_false (strReplace_ne_of_other hne hname hsep hc hsame u hends)
          (not_onlyLast_of_other hne hname hsep hc hsame u hends)
  · rw [withoutLast_of_ne hlast, Text.strReplace_nil_eq_self_iff hcons]
    constructor
    · intro habsent
      exact ⟨fun before behind hsplit => absurd ⟨before, behind, by simp [hsplit]⟩ habsent,
        fun h => absurd h hlast⟩
    · rintro honly ⟨before, behind, hsplit⟩
      have hends := honly.at_end before behind (by rw [← hsplit, List.append_assoc])
      have hbase := basename_append_ends hne hname hends (isFront_concat before hsep)
      exact hlast (by simpa [← hsplit] using hbase)

end Cut

end FilePath
