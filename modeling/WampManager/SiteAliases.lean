/-
# Aliases in the edit form

The aliases of a site are typed into one field, with commas between them. They are
trimmed, blank and repeated ones are dropped, and each gets a row of its own. The
edit form joins the rows again. What it shows is read as the list that was stored.
-/

import WampManager.SiteSteps

/-! ## First occurrences -/

namespace List

variable {α : Type*} [BEq α] [LawfulBEq α]

/-- A list keeps some elements of another one, each once and in the order in which
they first occur there. -/
def KeepsFirst (kept l : List α) : Prop :=
  kept ⊆ l ∧ kept.Pairwise fun a b => l.idxOf a < l.idxOf b

omit [LawfulBEq α] in
theorem KeepsFirst.nodup {kept l : List α} (h : KeepsFirst kept l) : kept.Nodup := by
  refine h.2.imp fun hlt heq => ?_
  rw [heq] at hlt
  exact Nat.lt_irrefl _ hlt

/-- Elements that pass a filter stand in the order they have behind it. -/
theorem idxOf_lt_of_filter {p : α → Bool} {l : List α} {a b : α} (ha : p a = true)
    (hb : p b = true) (h : (l.filter p).idxOf a < (l.filter p).idxOf b) :
    l.idxOf a < l.idxOf b := by
  induction l with
  | nil => exact absurd h (Nat.lt_irrefl _)
  | cons c l ih =>
      by_cases hcb : c = b
      · subst hcb
        rw [List.filter_cons_of_pos hb, List.idxOf_cons_self] at h
        exact absurd h (Nat.not_lt_zero _)
      · by_cases hca : c = a
        · subst hca
          rw [List.idxOf_cons_self, List.idxOf_cons_ne l hcb]
          exact Nat.succ_pos _
        · rw [List.idxOf_cons_ne l hca, List.idxOf_cons_ne l hcb]
          apply Nat.succ_lt_succ
          apply ih
          by_cases hc : p c = true
          · rw [List.filter_cons_of_pos hc, List.idxOf_cons_ne _ hca,
              List.idxOf_cons_ne _ hcb] at h
            exact Nat.lt_of_succ_lt_succ h
          · rwa [List.filter_cons_of_neg hc] at h

theorem KeepsFirst.of_filter {kept l : List α} {p : α → Bool} (h : KeepsFirst kept (l.filter p)) :
    KeepsFirst kept l := by
  refine ⟨fun a ha => List.mem_of_mem_filter (h.1 ha), ?_⟩
  refine h.2.imp_of_mem fun ha hb hlt => idxOf_lt_of_filter ?_ ?_ hlt
  · exact (List.mem_filter.mp (h.1 ha)).2
  · exact (List.mem_filter.mp (h.1 hb)).2

/-- Dropping what came before keeps the first occurrences. -/
theorem keepsFirst_eraseDups (l : List α) : KeepsFirst l.eraseDups l := by
  induction hn : l.length using Nat.strong_induction_on generalizing l with
  | _ n ih =>
      cases l with
      | nil => exact ⟨fun _ h => h, .nil⟩
      | cons a l =>
          have hshort : (l.filter fun b => !b == a).length < n := by
            rw [← hn, List.length_cons]
            exact Nat.lt_succ_of_le (List.length_filter_le _ _)
          have hrest : KeepsFirst (l.filter fun b => !b == a).eraseDups
              (l.filter fun b => !b == a) := ih _ hshort _ rfl
          have hne : ∀ b ∈ (l.filter fun b => !b == a).eraseDups, a ≠ b := by
            intro b hb
            have hpass := (List.mem_filter.mp (hrest.1 hb)).2
            rintro rfl
            simp at hpass
          rw [List.eraseDups_cons]
          refine ⟨List.cons_subset_cons a hrest.of_filter.1, List.pairwise_cons.mpr ⟨?_, ?_⟩⟩
          · intro b hb
            rw [List.idxOf_cons_self, List.idxOf_cons_ne l (hne b hb)]
            exact Nat.succ_pos _
          · refine hrest.of_filter.2.imp_of_mem fun hb hc hlt => ?_
            rw [List.idxOf_cons_ne l (hne _ hb), List.idxOf_cons_ne l (hne _ hc)]
            exact Nat.succ_lt_succ hlt

/-- Nothing is dropped where nothing is repeated. -/
theorem eraseDups_of_nodup {l : List α} (h : l.Nodup) : l.eraseDups = l := by
  induction l with
  | nil => rfl
  | cons a l ih =>
      obtain ⟨hnew, hl⟩ := List.nodup_cons.mp h
      have hall : (l.filter fun b => !b == a) = l := by
        refine List.filter_eq_self.mpr fun b hb => ?_
        have hne : b ≠ a := fun heq => hnew (heq ▸ hb)
        simpa using hne
      rw [List.eraseDups_cons, hall, ih hl]

end List

namespace WampManager

namespace Site

/-- The aliases as the edit form shows them. -/
def aliasesField (aliases : List Text) : Text :=
  if aliases.length = 0 then [] else ", ".toList.intercalate aliases

/-- The parts of what was typed, trimmed. -/
def aliasParts (str : Text) : List Text := (str.splitOn ',').map Text.trim

/-- Aliases as they are stored: there is something in each, neither blanks at its ends
nor a comma, and none is there twice. -/
structure CleanAliases (aliases : List Text) : Prop where
  nonempty : ∀ a ∈ aliases, a ≠ []
  trimmed : ∀ a ∈ aliases, Text.trim a = a
  single : ∀ a ∈ aliases, ',' ∉ a
  nodup : aliases.Nodup

theorem mem_aliasParts {str a : Text} (h : a ∈ aliasParts str) : Text.trim a = a ∧ ',' ∉ a := by
  obtain ⟨raw, hraw, rfl⟩ := List.mem_map.mp h
  exact ⟨Text.trim_trim raw,
    fun hmem => Text.not_mem_of_mem_splitOn hraw (Text.mem_of_mem_trim hmem)⟩

theorem mem_stringToCleanAliasArray {str a : Text} :
    a ∈ stringToCleanAliasArray str ↔ a ∈ aliasParts str ∧ a ≠ [] := by
  rw [stringToCleanAliasArray, List.mem_eraseDups, List.mem_filter, decide_eq_true_iff]
  rfl

theorem keepsFirst_stringToCleanAliasArray (str : Text) :
    (stringToCleanAliasArray str).KeepsFirst (aliasParts str) :=
  (List.keepsFirst_eraseDups _).of_filter

theorem cleanAliases_stringToCleanAliasArray (str : Text) :
    CleanAliases (stringToCleanAliasArray str) where
  nonempty _ ha := (mem_stringToCleanAliasArray.mp ha).2
  trimmed _ ha := (mem_aliasParts (mem_stringToCleanAliasArray.mp ha).1).1
  single _ ha := (mem_aliasParts (mem_stringToCleanAliasArray.mp ha).1).2
  nodup := (keepsFirst_stringToCleanAliasArray str).nodup

theorem aliasParts_blank (str : Text) : aliasParts (' ' :: str) = aliasParts str := by
  rw [aliasParts, List.splitOn_cons_eq_if_modifyHead, if_neg (by decide), aliasParts]
  cases str.splitOn ',' with
  | nil => rfl
  | cons first rest =>
      rw [List.modifyHead_cons, List.map_cons, Text.trim_cons (by rfl), List.map_cons]

/-- The parts of the joined text are the aliases. -/
theorem aliasParts_intercalate {aliases : List Text} (h : CleanAliases aliases)
    (hne : aliases ≠ []) : aliasParts (", ".toList.intercalate aliases) = aliases := by
  induction aliases with
  | nil => exact absurd rfl hne
  | cons a aliases ih =>
      have ha : Text.trim a = a := h.trimmed a List.mem_cons_self
      have hcomma : ',' ∉ a := h.single a List.mem_cons_self
      cases aliases with
      | nil => simp [aliasParts, List.intercalate_singleton, List.splitOn_eq_singleton hcomma, ha]
      | cons b aliases =>
          have hrest : CleanAliases (b :: aliases) :=
            ⟨fun x hx => h.nonempty x (List.mem_cons_of_mem a hx),
              fun x hx => h.trimmed x (List.mem_cons_of_mem a hx),
              fun x hx => h.single x (List.mem_cons_of_mem a hx), (List.nodup_cons.mp h.nodup).2⟩
          have hjoin : ", ".toList.intercalate (a :: b :: aliases) =
              a ++ ',' :: (' ' :: ", ".toList.intercalate (b :: aliases)) := by
            rw [List.intercalate_cons_cons]
            simp
          -- the blank behind the comma goes with the trimming
          have hblank : aliasParts (' ' :: ", ".toList.intercalate (b :: aliases)) =
              aliasParts (", ".toList.intercalate (b :: aliases)) := aliasParts_blank _
          rw [hjoin, aliasParts, List.splitOn_append_cons_self_of_not_mem hcomma, List.map_cons, ha]
          exact congrArg (a :: ·) (hblank.trans (ih hrest (List.cons_ne_nil b aliases)))

/-- What the edit form shows is read as the list it is made from. -/
theorem stringToCleanAliasArray_aliasesField {aliases : List Text} (h : CleanAliases aliases) :
    stringToCleanAliasArray (aliasesField aliases) = aliases := by
  by_cases hne : aliases = []
  · rw [hne]
    rfl
  · have hparts : aliasParts (aliasesField aliases) = aliases := by
      rw [aliasesField, if_neg (by simpa using hne), aliasParts_intercalate h hne]
    have hfilter : aliases.filter (· ≠ []) = aliases :=
      List.filter_eq_self.mpr fun a ha => by simpa using h.nonempty a ha
    rw [aliasParts] at hparts
    rw [stringToCleanAliasArray, hparts, hfilter, List.eraseDups_of_nodup h.nodup]

/-- What is typed is stored clean, with the first occurrences in their order, and what
the edit form shows of the stored rows is read as the same list. -/
theorem alias_lists_round_trip (str : Text) (siteId : ℤ) (row : SiteRow) (db : Database) :
    let aliases := stringToCleanAliasArray str
    let stored := aliasesOf (updateRows siteId row aliases db) siteId
    CleanAliases aliases ∧ aliases.KeepsFirst (aliasParts str) ∧
      (∀ a, a ∈ aliases ↔ a ∈ aliasParts str ∧ a ≠ []) ∧
      stored = aliases ∧ stringToCleanAliasArray (aliasesField stored) = aliases := by
  intro aliases stored
  have hclean : CleanAliases aliases := cleanAliases_stringToCleanAliasArray str
  have hstored : stored = aliases := by
    change aliasesOf (updateRows siteId row aliases db) siteId = aliases
    rw [aliasesOf_updateRows, if_pos rfl]
  refine ⟨hclean, keepsFirst_stringToCleanAliasArray str,
    fun _ => mem_stringToCleanAliasArray, hstored, ?_⟩
  rw [hstored, stringToCleanAliasArray_aliasesField hclean]

end Site

end WampManager
