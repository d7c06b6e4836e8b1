/-
# Text as lists of characters

Texts are lists of characters, so that every operation on them is a structural
recursion and can be evaluated. The module carries the handful of scripting
operations the development needs (trimming, splitting into lines, literal
replacement) and the one law that is not in the library already: the nonblank
lines of a text do not change when the text is trimmed, and the nonblank lines
of a CR LF join are those of its parts, in order.
-/

import Mathlib.Algebra.Group.Nat.Defs
import Mathlib.Data.List.DropRight
import Mathlib.Data.List.Basic

/-- A text is the list of its characters. -/
abbrev Text := List Char

namespace Text

/-- A statement about the characters of a text is decided by going through it, not
through all characters there are. -/
instance (priority := 2000) (t : Text) (p : Char → Prop) [DecidablePred p] :
    Decidable (∀ c ∈ t, p c) :=
  List.decidableBAll p t

instance (priority := 2000) (t : Text) (p : Char → Prop) [DecidablePred p] :
    Decidable (∃ c ∈ t, p c) :=
  List.decidableBEx p t

instance (priority := 2000) (c? : Option Char) (p : Char → Prop) [DecidablePred p] :
    Decidable (∀ c ∈ c?, p c) :=
  decidable_of_iff (∀ c ∈ c?.toList, p c) (by simp)

instance : LawfulBEq Text := inferInstance

/-- The characters that trimming strips from the ends of a text. -/
def isTrimChar (c : Char) : Bool :=
  c == ' ' || c == '\t' || c == '\n' || c == '\r' || c == '\x00' || c == '\x0b'

/-- Strip trim characters from both ends. -/
def trim (t : Text) : Text := (t.dropWhile isTrimChar).rdropWhile isTrimChar

/-- Strip one given character from the right end. -/
def rtrimChar (c : Char) (t : Text) : Text := t.rdropWhile (· == c)

/-- The trimmed lines of a text; lines end at line feeds. -/
def lines (t : Text) : List Text := (t.splitOn '\n').map trim

/-- The trimmed lines with at least one character. -/
def entries (t : Text) : List Text := (lines t).filter (· ≠ [])

/-- Join lines with CR LF. -/
def joinLines (ls : List Text) : Text := "\r\n".toList.intercalate ls

/-- Fold ASCII capitals to small letters. -/
def lower (t : Text) : Text := t.map Char.toLower

@[simp]
theorem lower_append (s t : Text) : lower (s ++ t) = lower s ++ lower t := List.map_append

/-- Digits and small letters are folded already. -/
theorem toLower_eq_self {c : Char} (h : c.isDigit = true ∨ c.isLower = true) : c.toLower = c := by
  have hnotUpper : ¬ (c.val ≥ 'A'.val ∧ c.val ≤ 'Z'.val) := by
    rintro ⟨hlow, hhigh⟩
    simp only [ge_iff_le, UInt32.le_iff_toNat_le] at hlow hhigh
    rcases h with h | h
    · simp only [Char.isDigit, Bool.and_eq_true, decide_eq_true_eq, ge_iff_le,
        UInt32.le_iff_toNat_le] at h
      have hbound := h.2
      simp at hbound hlow
      omega
    · delta Char.isLower at h
      simp only [Bool.and_eq_true, decide_eq_true_eq, ge_iff_le, UInt32.le_iff_toNat_le] at h
      have hbound := h.1
      simp at hbound hhigh
      omega
  exact dif_neg hnotUpper

/-- Folding makes a line feed of nothing else. -/
private theorem eq_newline_of_toLower {c : Char} (h : c.toLower = '\n') : c = '\n' := by
  delta Char.toLower at h
  split at h
  · next hrange =>
      have hval := congrArg (fun d : Char => d.val.toNat) h
      have hsum : (c.val + ('a'.val - 'A'.val)).toNat = (c.val.toNat + 32) % 2 ^ 32 :=
        UInt32.toNat_add _ _
      have hlow := UInt32.le_iff_toNat_le.mp hrange.1
      have hhigh := UInt32.le_iff_toNat_le.mp hrange.2
      simp only [hsum] at hval
      simp at hval hlow hhigh
      omega
  · exact h

/-- A folded text ends in a line feed only if the text does. -/
theorem getLast?_lower_ne_newline {t : Text} (h : t.getLast? ≠ some '\n') :
    (lower t).getLast? ≠ some '\n' := by
  rw [lower, List.getLast?_map, ne_eq, Option.map_eq_some_iff]
  rintro ⟨c, hlast, hc⟩
  exact h (eq_newline_of_toLower hc ▸ hlast)

/-! ## Trimming -/

theorem trim_cons {c : Char} (hc : isTrimChar c) (t : Text) : trim (c :: t) = trim t := by
  simp [trim, hc]

theorem trim_append_singleton {c : Char} (hc : isTrimChar c) (t : Text) :
    trim (t ++ [c]) = trim t := by
  unfold trim
  by_cases hall : ∀ d ∈ t, isTrimChar d = true
  · have hleft : t.dropWhile isTrimChar = [] := List.dropWhile_eq_nil_iff.mpr hall
    have hboth : (t ++ [c]).dropWhile isTrimChar = [] :=
      List.dropWhile_eq_nil_iff.mpr fun d hd => by
        rcases List.mem_append.mp hd with hd | hd
        · exact hall d hd
        · rw [List.mem_singleton.mp hd]
          exact hc
    rw [hleft, hboth]
  · have hne : (t.dropWhile isTrimChar).isEmpty = false := by
      rw [List.isEmpty_eq_false_iff]
      exact fun hnil => hall (List.dropWhile_eq_nil_iff.mp hnil)
    rw [List.dropWhile_append, if_neg (by simp [hne]), List.rdropWhile_concat, if_pos hc]

/-- Trimming leaves no line feed at either end, and keeps every inner character. -/
theorem mem_of_mem_trim {c : Char} {t : Text} (h : c ∈ trim t) : c ∈ t :=
  (List.dropWhile_sublist _).mem ((List.rdropWhile_prefix _ _).sublist.mem h)

theorem trim_of_no_ends {t : Text} (hhead : ∀ c ∈ t.head?, isTrimChar c = false)
    (hlast : ∀ c ∈ t.getLast?, isTrimChar c = false) : trim t = t := by
  have hleft : t.dropWhile isTrimChar = t := by
    cases t with
    | nil => rfl
    | cons c t => simp [hhead c rfl]
  unfold trim
  rw [hleft]
  rcases List.eq_nil_or_concat t with rfl | ⟨init, c, rfl⟩
  · rfl
  · rw [List.concat_eq_append, List.rdropWhile_concat, if_neg]
    simpa using hlast c (by simp)

private theorem head?_dropWhile (t : Text) :
    ∀ c ∈ (t.dropWhile isTrimChar).head?, isTrimChar c = false := by
  induction t with
  | nil => simp
  | cons d t ih =>
      by_cases hd : isTrimChar d
      · simpa [List.dropWhile_cons, hd] using ih
      · intro c hc
        simp only [List.dropWhile_cons, hd, Bool.false_eq_true, if_false, List.head?_cons,
          Option.mem_def, Option.some.injEq] at hc
        simpa [← hc] using hd

/-- Trimming twice is trimming once. -/
@[simp]
theorem trim_trim (t : Text) : trim (trim t) = trim t := by
  apply trim_of_no_ends
  · intro c hc
    apply head?_dropWhile t c
    obtain ⟨rest, hrest⟩ := List.rdropWhile_prefix isTrimChar (t.dropWhile isTrimChar)
    rw [← hrest, List.head?_append]
    simp only [trim, Option.mem_def] at hc
    simp [hc]
  · intro c hc
    have hlast := List.rdropWhile_last_not isTrimChar (t.dropWhile isTrimChar)
    by_cases hnil : trim t = []
    · simp [hnil] at hc
    · have hc' : (trim t).getLast hnil = c := by
        simpa [List.getLast?_eq_some_getLast hnil] using hc
      have hend : isTrimChar ((trim t).getLast hnil) = false :=
        eq_false_of_ne_true (hlast hnil)
      rwa [hc'] at hend

/-! ## Lines -/

@[simp]
theorem lines_nil : lines [] = [[]] := rfl

theorem lines_append_newline (first second : Text) :
    lines (first ++ '\n' :: second) = lines first ++ lines second := by
  rw [lines, List.splitOn_append_cons_self, List.map_append]
  rfl

theorem lines_of_not_mem {t : Text} (h : '\n' ∉ t) : lines t = [trim t] := by
  rw [lines, List.splitOn_eq_singleton h, List.map_singleton]

/-- A trim character at the front of a text reaches no line but a blank one. -/
theorem entries_cons {c : Char} (hc : isTrimChar c) (t : Text) :
    entries (c :: t) = entries t := by
  unfold entries
  by_cases hnl : c = '\n'
  · subst hnl
    rw [show ('\n' :: t) = [] ++ '\n' :: t from rfl, lines_append_newline]
    simp
  · have hlines : lines (c :: t) = lines t := by
      rw [lines, List.splitOn_cons_eq_if_modifyHead, if_neg (by simpa using hnl), lines]
      obtain ⟨head, tail, heq⟩ := List.exists_cons_of_ne_nil (List.splitOn_ne_nil '\n' t)
      rw [heq]
      simp [trim_cons hc]
    rw [hlines]

/-- The same at the end, by induction on the number of lines in front. -/
theorem entries_append_singleton {c : Char} (hc : isTrimChar c) (t : Text) :
    entries (t ++ [c]) = entries t := by
  induction hn : t.length using Nat.strong_induction_on generalizing t with
  | _ n ih =>
      by_cases hmem : '\n' ∈ t
      · obtain ⟨front, back, rfl⟩ := List.append_of_mem hmem
        have hback : entries (back ++ [c]) = entries back :=
          ih back.length (by simp [← hn]; omega) back rfl
        unfold entries at hback ⊢
        rw [List.append_assoc, List.cons_append, lines_append_newline, lines_append_newline,
          List.filter_append, List.filter_append, hback]
      · by_cases hnl : c = '\n'
        · subst hnl
          unfold entries
          rw [lines_append_newline]
          simp
        · unfold entries
          rw [lines_of_not_mem hmem, lines_of_not_mem (by simp [hmem, Ne.symm hnl]),
            trim_append_singleton hc]

theorem entries_dropWhile (t : Text) : entries (t.dropWhile isTrimChar) = entries t := by
  induction t with
  | nil => rfl
  | cons c t ih =>
      by_cases hc : isTrimChar c
      · rw [List.dropWhile_cons_of_pos hc, ih, entries_cons hc]
      · rw [List.dropWhile_cons_of_neg hc]

theorem entries_rdropWhile (t : Text) : entries (t.rdropWhile isTrimChar) = entries t := by
  induction t using List.reverseRecOn with
  | nil => rfl
  | append_singleton t c ih =>
      rw [List.rdropWhile_concat]
      by_cases hc : isTrimChar c
      · rw [if_pos hc, ih, entries_append_singleton hc]
      · rw [if_neg hc]

/-- Trimming a whole text keeps its nonblank lines. -/
@[simp]
theorem entries_trim (t : Text) : entries (trim t) = entries t := by
  rw [trim, entries_rdropWhile, entries_dropWhile]

@[simp]
theorem entries_nil : entries [] = [] := rfl

theorem entries_append_newline (first second : Text) :
    entries (first ++ '\n' :: second) = entries first ++ entries second := by
  rw [entries, lines_append_newline, List.filter_append]
  rfl

/-- Joining with CR LF puts the nonblank lines of the parts one after another. -/
theorem entries_joinLines (ls : List Text) : entries (joinLines ls) = ls.flatMap entries := by
  induction ls with
  | nil => rfl
  | cons l ls ih =>
      cases ls with
      | nil => simp [joinLines]
      | cons l' ls =>
          have hjoin : joinLines (l :: l' :: ls) =
              (l ++ ['\r']) ++ '\n' :: joinLines (l' :: ls) := by
            simp [joinLines, List.intercalate_cons_cons]
          rw [hjoin, entries_append_newline, entries_append_singleton (by rfl), ih]
          rfl

/-- The parts between two marks hold none. -/
theorem not_mem_of_mem_splitOn {c : Char} {t l : Text} (h : l ∈ t.splitOn c) : c ∉ l := by
  induction hn : t.length using Nat.strong_induction_on generalizing t with
  | _ n ih =>
      by_cases hmem : c ∈ t
      · obtain ⟨front, back, rfl⟩ := List.append_of_mem hmem
        rw [List.splitOn_append_cons_self, List.mem_append] at h
        rcases h with h | h
        · exact ih front.length (by simp [← hn]) h rfl
        · exact ih back.length (by simp [← hn]; omega) h rfl
      · rw [List.splitOn_eq_singleton hmem, List.mem_singleton] at h
        rwa [h]

theorem not_mem_newline_of_mem_lines {t l : Text} (h : l ∈ lines t) : '\n' ∉ l := by
  obtain ⟨raw, hraw, rfl⟩ := List.mem_map.mp h
  exact fun hmem => not_mem_of_mem_splitOn hraw (mem_of_mem_trim hmem)

theorem trim_of_mem_lines {t l : Text} (h : l ∈ lines t) : trim l = l := by
  obtain ⟨raw, -, rfl⟩ := List.mem_map.mp h
  exact trim_trim raw

/-- A nonblank line is its own only nonblank line. -/
theorem entries_of_mem_lines {t l : Text} (h : l ∈ lines t) :
    entries l = [l].filter (· ≠ []) := by
  rw [entries, lines_of_not_mem (not_mem_newline_of_mem_lines h), trim_of_mem_lines h]

/-- Reading a list of lines back line by line only drops the blank ones. -/
theorem flatMap_entries_of_subset_lines {t : Text} {ls : List Text} (h : ls ⊆ lines t) :
    ls.flatMap entries = ls.filter (· ≠ []) := by
  induction ls with
  | nil => rfl
  | cons l ls ih =>
      obtain ⟨hl, hls⟩ := List.cons_subset.mp h
      rw [List.flatMap_cons, ih hls, entries_of_mem_lines hl, ← List.filter_append]
      rfl

/-- Every text as a line, with a line feed behind it. -/
def unlines (ls : List Text) : Text := ls.flatMap (· ++ ['\n'])

theorem unlines_append (ls ls' : List Text) :
    unlines (ls ++ ls') = unlines ls ++ unlines ls' := List.flatMap_append

/-- Lines without line feeds read back one by one. -/
theorem splitOn_unlines_append {ls : List Text} (h : ∀ l ∈ ls, '\n' ∉ l) (rest : Text) :
    (unlines ls ++ rest).splitOn '\n' = ls ++ rest.splitOn '\n' := by
  induction ls with
  | nil => rfl
  | cons l ls ih =>
      have hcons : unlines (l :: ls) ++ rest = l ++ '\n' :: (unlines ls ++ rest) := by
        simp [unlines]
      rw [hcons, List.splitOn_append_cons_self_of_not_mem (h l List.mem_cons_self),
        ih fun l' hl' => h l' (List.mem_cons_of_mem _ hl'), List.cons_append]

/-! ## Literal replacement -/

/-- Replace every occurrence of `search`, from the left and without overlaps.
The counter skips the rest of an occurrence that was just replaced. -/
def replaceFrom (search replacement : Text) : ℕ → Text → Text
  | _, [] => []
  | skip + 1, _ :: rest => replaceFrom search replacement skip rest
  | 0, c :: rest =>
      if search ≠ [] ∧ search.isPrefixOf (c :: rest) then
        replacement ++ replaceFrom search replacement (search.length - 1) rest
      else c :: replaceFrom search replacement 0 rest

/-- `str_replace`: an empty search text replaces nothing. -/
def strReplace (search replacement subject : Text) : Text :=
  replaceFrom search replacement 0 subject

/-- A text in which the searched text does not occur is left alone. -/
theorem strReplace_of_absent {search replacement subject : Text}
    (h : ¬ search <:+: subject) : strReplace search replacement subject = subject := by
  unfold strReplace
  induction subject with
  | nil => rfl
  | cons c rest ih =>
      have hbegin : ¬ search.isPrefixOf (c :: rest) := fun hp =>
        h (List.isPrefixOf_iff_prefix.mp hp).isInfix
      rw [replaceFrom, if_neg (fun hc => hbegin hc.2),
        ih fun hinner => h (hinner.trans (List.suffix_cons c rest).isInfix)]

/-- Cutting a text out that occurs cuts at least one occurrence out. -/
theorem countP_strReplace_nil (p : Char → Bool) {search subject : Text} (hne : search ≠ [])
    (h : search <:+: subject) :
    (strReplace search [] subject).countP p + search.countP p ≤ subject.countP p := by
  have hsublist : ∀ (t : Text) (skip : ℕ),
      (replaceFrom search [] skip t).Sublist (t.drop skip) := by
    intro t
    induction t with
    | nil =>
        intro skip
        cases skip <;> simp [replaceFrom]
    | cons c t ih =>
        intro skip
        cases skip with
        | zero =>
            rw [replaceFrom]
            split
            · exact (ih _).trans ((List.drop_sublist _ _).trans (List.sublist_cons_self c t))
            · exact (ih 0).cons_cons c
        | succ skip => exact ih skip
  unfold strReplace
  induction subject with
  | nil => exact absurd (List.infix_nil.mp h) hne
  | cons c rest ih =>
      by_cases hbegin : search.isPrefixOf (c :: rest) = true
      · obtain ⟨tail, htail⟩ := List.isPrefixOf_iff_prefix.mp hbegin
        have hdrop : rest.drop (search.length - 1) = tail := by
          have hlength : search.length = search.length - 1 + 1 :=
            (Nat.sub_add_cancel (List.length_pos_of_ne_nil hne)).symm
          have hall : (c :: rest).drop search.length = tail := by
            rw [← htail, List.drop_left]
          rwa [hlength, List.drop_succ_cons] at hall
        have hcut := (hsublist rest (search.length - 1)).countP_le (p := p)
        rw [hdrop] at hcut
        rw [replaceFrom, if_pos ⟨hne, hbegin⟩, List.nil_append, ← htail, List.countP_append]
        omega
      · have hinner : search <:+: rest :=
          (List.infix_cons_iff.mp h).resolve_left fun hp =>
            hbegin (List.isPrefixOf_iff_prefix.mpr hp)
        have hrest := ih hinner
        rw [replaceFrom, if_neg fun hc => hbegin hc.2, List.countP_cons, List.countP_cons]
        omega

end Text
