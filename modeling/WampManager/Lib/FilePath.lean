/-
# Lexical paths

A path text is read as the list of its segments: both slashes separate, empty
segments count for nothing, `.` stays where it is and `..` drops the segment
before it, except that a volume such as `C:` is never dropped. Nothing here
looks at a file system, so two texts that resolve to one segment list name one
file wherever no links are involved.
-/

import Mathlib.Data.List.Basic
import Mathlib.Data.List.Flatten
import WampManager.Lib.Text

/-- A resolved path: its segments from the volume down. -/
abbrev FilePath := List Text

namespace FilePath

/-- Both slash kinds separate segments. -/
def isSep (c : Char) : Bool := c == '/' || c == '\\'

/-- The nonempty segments of a path text. -/
def segments (t : Text) : List Text := (t.splitOnP isSep).filter (· ≠ [])

/-- A volume name such as `C:`. -/
def isVolume (s : Text) : Bool := s.getLast? == some ':'

/-- One level up; the volume has no level above it. -/
def pop : FilePath → FilePath
  | [] => []
  | [s] => if isVolume s then [s] else []
  | s :: s' :: rest => s :: (s' :: rest).dropLast

/-- Follow one segment. -/
def push (stack : FilePath) (s : Text) : FilePath :=
  if s = ['.'] then stack
  else if s = ['.', '.'] then pop stack
  else stack ++ [s]

/-- Follow a path text from a directory. -/
def follow (start : FilePath) (t : Text) : FilePath := (segments t).foldl push start

/-- The path a text names. -/
def resolve (t : Text) : FilePath := (segments t).foldl push []

/-- A segment that is neither `.` nor `..`. -/
def Ordinary (s : Text) : Prop := s ≠ ['.'] ∧ s ≠ ['.', '.']

instance (s : Text) : Decidable (Ordinary s) := inferInstanceAs (Decidable (_ ∧ _))

/-- A path lies at or below another one. -/
def Inside (root p : FilePath) : Prop := root <+: p

instance (root p : FilePath) : Decidable (Inside root p) := inferInstanceAs (Decidable (_ <+: _))

/-- Turn both slash kinds into one. -/
def slash (t : Text) (sep : Char) : Text := t.map fun c => if isSep c then sep else c

/-! ## Segments -/

@[simp]
theorem segments_nil : segments [] = [] := rfl

theorem segments_append_sep (first second : Text) {c : Char} (hc : isSep c) :
    segments (first ++ c :: second) = segments first ++ segments second := by
  rw [segments, List.splitOnP_append_cons _ _ hc, List.filter_append]
  rfl

theorem segments_of_no_sep {t : Text} (hne : t ≠ []) (h : ∀ c ∈ t, isSep c = false) :
    segments t = [t] := by
  simp [segments, List.splitOnP_eq_singleton h, hne]

/-- Folding capitals yields a character outside the alphabet only from itself. -/
theorem toLower_eq_iff {c d : Char} (hd : d ∈ ['.', ':', '/', '\\', '*', '?', '[']) :
    c.toLower = d ↔ c = d := by
  by_cases hupper : c.val ≥ 'A'.val ∧ c.val ≤ 'Z'.val
  · have hlow : 65 ≤ c.toNat := UInt32.le_iff_toNat_le.mp hupper.1
    have hhigh : c.toNat < 91 := Nat.lt_succ_of_le (UInt32.le_iff_toNat_le.mp hupper.2)
    have hall : ∀ n < 91, 65 ≤ n → ∀ d ∈ ['.', ':', '/', '\\', '*', '?', '['],
        ((Char.ofNat n).toLower = d ↔ Char.ofNat n = d) := by decide
    simpa [Char.ofNat_toNat] using hall c.toNat hhigh hlow d hd
  · have hsame : c.toLower = c := dif_neg hupper
    rw [hsame]

/-- Unifying the slashes changes no segment. -/
theorem segments_slash (t : Text) {sep : Char} (hsep : isSep sep) :
    segments (slash t sep) = segments t := by
  have hsplit : (slash t sep).splitOnP isSep = t.splitOnP isSep := by
    induction t with
    | nil => rfl
    | cons c t ih =>
        change ((if isSep c then sep else c) :: slash t sep).splitOnP isSep = _
        rw [List.splitOnP_cons_eq_if_modifyHead, List.splitOnP_cons_eq_if_modifyHead, ih]
        by_cases hc : isSep c <;> simp [hc, hsep]
  rw [segments, hsplit, segments]

/-- Turning the slashes moves no other character. -/
theorem count_slash {c sep : Char} (hc : isSep c = false) (hsep : isSep sep) (t : Text) :
    (slash t sep).count c = t.count c := by
  induction t with
  | nil => rfl
  | cons d t ih =>
      have hd : (if isSep d then sep else d) = c ↔ d = c := by
        split_ifs with hsepd
        · constructor
          · rintro rfl
            rw [hsep] at hc
            cases hc
          · rintro rfl
            rw [hsepd] at hc
            cases hc
        · exact Iff.rfl
      change List.count c ((if isSep d then sep else d) :: slash t sep) = _
      rw [List.count_cons, List.count_cons, ih]
      simp only [beq_iff_eq, hd]

theorem mem_slash_iff {c sep : Char} (hc : isSep c = false) (hsep : isSep sep) {t : Text} :
    c ∈ slash t sep ↔ c ∈ t := by
  rw [← List.count_pos_iff, count_slash hc hsep, List.count_pos_iff]

/-- Only one kind of slash is left. -/
theorem not_mem_slash {c sep : Char} (hc : isSep c) (hne : c ≠ sep) (t : Text) :
    c ∉ slash t sep := by
  intro hmem
  obtain ⟨d, -, hd⟩ := List.mem_map.mp hmem
  split_ifs at hd with hsep
  · exact hne hd.symm
  · exact hsep (hd ▸ hc)

theorem slash_slash (t : Text) {sep : Char} (hsep : isSep sep) :
    slash (slash t sep) sep = slash t sep := by
  rw [slash, slash, List.map_map]
  refine List.map_congr_left fun c _ => ?_
  by_cases hc : isSep c <;> simp [hc, hsep]

/-! ## Resolution -/

theorem resolve_append_sep (first second : Text) {c : Char} (hc : isSep c) :
    resolve (first ++ c :: second) = (segments second).foldl push (resolve first) := by
  rw [resolve, segments_append_sep _ _ hc, List.foldl_append]
  rfl

/-- Ordinary segments are simply appended. -/
theorem foldl_push_of_ordinary {ss : List Text} (h : ∀ s ∈ ss, Ordinary s) (stack : FilePath) :
    ss.foldl push stack = stack ++ ss := by
  induction ss generalizing stack with
  | nil => simp
  | cons s ss ih =>
      have hs := h s List.mem_cons_self
      rw [List.foldl_cons, ih fun r hr => h r (List.mem_cons_of_mem _ hr)]
      simp [push, hs.1, hs.2]

theorem resolve_of_ordinary {t : Text} (h : ∀ s ∈ segments t, Ordinary s) :
    resolve t = segments t := by
  rw [resolve, foldl_push_of_ordinary h, List.nil_append]

/-- Behind ordinary segments resolution only appends. -/
theorem resolve_append_ordinary (first second : Text) {c : Char} (hc : isSep c)
    (h : ∀ s ∈ segments second, Ordinary s) :
    resolve (first ++ c :: second) = resolve first ++ segments second := by
  rw [resolve_append_sep _ _ hc, foldl_push_of_ordinary h]

theorem mem_of_mem_segments {s t : Text} (h : s ∈ segments t) : ∀ c ∈ s, c ∈ t := by
  have hsplit : ∀ u : Text, ∀ r ∈ u.splitOnP isSep, ∀ c ∈ r, c ∈ u := by
    intro u
    induction u with
    | nil => simp
    | cons d u ih =>
        rw [List.splitOnP_cons_eq_if_modifyHead]
        obtain ⟨head, tail, heq⟩ := List.exists_cons_of_ne_nil (List.splitOnP_ne_nil isSep u)
        rw [heq] at ih ⊢
        by_cases hd : isSep d
        · rw [if_pos hd]
          intro r hr c hc
          rcases List.mem_cons.mp hr with rfl | hr
          · exact absurd hc List.not_mem_nil
          · exact List.mem_cons_of_mem _ (ih r hr c hc)
        · rw [if_neg hd, List.modifyHead_cons]
          intro r hr c hc
          rcases List.mem_cons.mp hr with rfl | hr
          · rcases List.mem_cons.mp hc with rfl | hc
            · exact List.mem_cons_self
            · exact List.mem_cons_of_mem _ (ih head List.mem_cons_self c hc)
          · exact List.mem_cons_of_mem _ (ih r (List.mem_cons_of_mem _ hr) c hc)
  exact hsplit t s (List.mem_filter.mp h).1

theorem length_push_le (stack : FilePath) (s : Text) :
    (push stack s).length ≤ stack.length + 1 := by
  unfold push
  split
  · omega
  · split
    · match stack with
      | [] => simp [pop]
      | [r] => by_cases hr : isVolume r <;> simp [pop, hr]
      | r :: r' :: rest => simp [pop]
    · simp

private theorem mem_pop {stack : FilePath} {s : Text} (h : s ∈ pop stack) : s ∈ stack := by
  match stack with
  | [] => exact h
  | [r] => by_cases hr : isVolume r <;> simp_all [pop]
  | r :: r' :: rest =>
      rcases List.mem_cons.mp h with rfl | h
      · exact List.mem_cons_self
      · exact List.mem_cons_of_mem _ ((List.dropLast_sublist _).mem h)

/-- Resolution invents no segment. -/
theorem mem_segments_of_mem_resolve {s t : Text} (h : s ∈ resolve t) : s ∈ segments t := by
  have hfold : ∀ (ss : List Text) (stack : FilePath), s ∈ ss.foldl push stack →
      s ∈ stack ∨ s ∈ ss := by
    intro ss
    induction ss with
    | nil => exact fun stack hs => .inl hs
    | cons r ss ih =>
        intro stack hs
        rcases ih (push stack r) hs with hs | hs
        · unfold push at hs
          split at hs
          · exact .inl hs
          · split at hs
            · exact .inl (mem_pop hs)
            · rcases List.mem_append.mp hs with hs | hs
              · exact .inl hs
              · exact .inr (List.mem_singleton.mp hs ▸ List.mem_cons_self)
        · exact .inr (List.mem_cons_of_mem _ hs)
  exact (hfold (segments t) [] h).resolve_left List.not_mem_nil

@[simp]
theorem resolve_slash (t : Text) {sep : Char} (hsep : isSep sep) :
    resolve (slash t sep) = resolve t := by
  rw [resolve, segments_slash t hsep, resolve]

/-- A last character other than a dot makes no dot segment. -/
theorem ordinary_segments_concat {t : Text} {c : Char} (hc : isSep c = false) (hdot : c ≠ '.')
    (h : ∀ s ∈ segments t, Ordinary s) : ∀ s ∈ segments (t ++ [c]), Ordinary s := by
  induction hn : t.length using Nat.strong_induction_on generalizing t with
  | _ n ih =>
      by_cases hsep : ∃ d ∈ t, isSep d = true
      · obtain ⟨d, hd, hdsep⟩ := hsep
        obtain ⟨front, back, rfl⟩ := List.append_of_mem hd
        rw [segments_append_sep _ _ hdsep] at h
        rw [List.append_assoc, List.cons_append, segments_append_sep _ _ hdsep]
        intro s hs
        rcases List.mem_append.mp hs with hs | hs
        · exact h s (List.mem_append_left _ hs)
        · exact ih back.length (by simp [← hn]; omega)
            (fun r hr => h r (List.mem_append_right _ hr)) rfl s hs
      · have hone : segments (t ++ [c]) = [t ++ [c]] := by
          apply segments_of_no_sep (by simp)
          intro d hd
          rcases List.mem_append.mp hd with hd | hd
          · exact eq_false_of_ne_true fun hdsep => hsep ⟨d, hd, hdsep⟩
          · rw [List.mem_singleton.mp hd, hc]
        intro s hs
        rw [hone, List.mem_singleton] at hs
        have hlast : s.getLast? = some c := by rw [hs, List.getLast?_concat]
        constructor <;> rintro rfl <;> exact hdot (by simpa using hlast.symm)

/-! ## Lengths -/

/-- The segments hold all characters but the separators. -/
theorem flatten_segments (t : Text) : (segments t).flatten = t.filter (!isSep ·) := by
  have hsplit : (t.splitOnP isSep).flatten = t.filter (!isSep ·) := by
    induction t with
    | nil => simp
    | cons c t ih =>
        obtain ⟨head, tail, heq⟩ := List.exists_cons_of_ne_nil (List.splitOnP_ne_nil isSep t)
        rw [List.splitOnP_cons_eq_if_modifyHead, heq]
        rw [heq] at ih
        by_cases hc : isSep c
        · simpa [hc] using ih
        · simpa [hc] using ih
  have hblank : ∀ ls : List Text, (ls.filter (· ≠ [])).flatten = ls.flatten := by
    intro ls
    induction ls with
    | nil => rfl
    | cons l ls ih => by_cases hl : l = [] <;> simpa [hl] using ih
  rw [segments, hblank, hsplit]

theorem length_flatten_segments (t : Text) :
    (segments t).flatten.length = t.countP (!isSep ·) := by
  rw [flatten_segments, ← List.countP_eq_length_filter]

private theorem length_flatten_push_le (stack : FilePath) (s : Text) :
    (push stack s).flatten.length ≤ stack.flatten.length + s.length := by
  have hpop : (pop stack).flatten.length ≤ stack.flatten.length := by
    match stack with
    | [] => exact le_refl _
    | [r] => by_cases hr : isVolume r <;> simp [pop, hr]
    | r :: r' :: rest =>
        have hsub := ((List.dropLast_sublist (r' :: rest)).flatten).length_le
        simpa [pop] using hsub
  unfold push
  split
  · omega
  · split
    · omega
    · simp

/-- Following dot segments only loses characters. -/
theorem length_flatten_resolve_le (t : Text) :
    (resolve t).flatten.length ≤ t.countP (!isSep ·) := by
  have hfold : ∀ (ss : List Text) (stack : FilePath),
      (ss.foldl push stack).flatten.length ≤ stack.flatten.length + ss.flatten.length := by
    intro ss
    induction ss with
    | nil => simp
    | cons s ss ih =>
        intro stack
        have hpush := length_flatten_push_le stack s
        have hrest := ih (push stack s)
        rw [List.foldl_cons, List.flatten_cons, List.length_append]
        omega
  have hall := hfold (segments t) []
  rw [length_flatten_segments] at hall
  simpa [resolve] using hall

theorem length_flatten_resolve {t : Text} (h : ∀ s ∈ segments t, Ordinary s) :
    (resolve t).flatten.length = t.countP (!isSep ·) := by
  rw [resolve_of_ordinary h, length_flatten_segments]

/-! ## The last component -/

/-- The last component of a path text, without separators behind it. -/
def basename (t : Text) : Text := (t.rdropWhile isSep).rtakeWhile (!isSep ·)

/-- What stands behind the last dot of the last component. -/
def extension (t : Text) : Option Text :=
  if '.' ∈ basename t then some ((basename t).rtakeWhile (· ≠ '.')) else none

private theorem rdropWhile_append {s t : Text} (h : ∃ c ∈ t, isSep c = false) :
    (s ++ t).rdropWhile isSep = s ++ t.rdropWhile isSep := by
  have hne : (t.reverse.dropWhile isSep).isEmpty = false := by
    rw [List.isEmpty_eq_false_iff]
    intro hnil
    obtain ⟨c, hc, hsep⟩ := h
    have hall := List.dropWhile_eq_nil_iff.mp hnil c (List.mem_reverse.mpr hc)
    rw [hsep] at hall
    cases hall
  simp [List.rdropWhile, List.dropWhile_append, hne]

/-- Directories in front do not matter for the last component. -/
theorem basename_append_sep (s : Text) {c : Char} (hc : isSep c) {t : Text}
    (h : ∃ d ∈ t, isSep d = false) : basename (s ++ c :: t) = basename t := by
  have hstop : ∀ u : Text, (s ++ c :: u).rtakeWhile (!isSep ·) = u.rtakeWhile (!isSep ·) := by
    intro u
    rw [List.rtakeWhile, List.reverse_append, List.reverse_cons, List.append_assoc,
      List.takeWhile_append]
    split
    · next hall =>
        simp [List.rtakeWhile, hc, (List.takeWhile_sublist _).eq_of_length hall]
    · rfl
  have hsplit : (s ++ c :: t).rdropWhile isSep = s ++ c :: t.rdropWhile isSep := by
    rw [← List.singleton_append, ← List.append_assoc, rdropWhile_append h, List.append_assoc]
    rfl
  rw [basename, hsplit, hstop, basename]

/-- An ending without separators extends the last component. -/
theorem basename_append (t : Text) {ending : Text} (hne : ending ≠ [])
    (h : ∀ c ∈ ending, isSep c = false) :
    basename (t ++ ending) = t.rtakeWhile (!isSep ·) ++ ending := by
  have hkeep : (t ++ ending).rdropWhile isSep = t ++ ending := by
    obtain ⟨c, hc⟩ := List.exists_mem_of_ne_nil ending hne
    have hnone : ending.rdropWhile isSep = ending :=
      List.rdropWhile_eq_self_iff.mpr fun hl => by simp [h _ (List.getLast_mem hl)]
    rw [rdropWhile_append ⟨c, hc, h c hc⟩, hnone]
  rw [basename, hkeep, List.rtakeWhile, List.reverse_append,
    List.takeWhile_append_of_pos (by simpa using h), List.reverse_append, List.reverse_reverse,
    List.rtakeWhile]

@[simp]
theorem basename_slash (t : Text) {sep : Char} (hsep : isSep sep) :
    basename (slash t sep) = basename t := by
  have hdrop : ∀ u : Text, (slash u sep).dropWhile isSep = slash (u.dropWhile isSep) sep := by
    intro u
    induction u with
    | nil => rfl
    | cons c u ih =>
        by_cases hc : isSep c
        · simpa [slash, hc, hsep] using ih
        · simp [slash, hc]
  have htake : ∀ u : Text, (slash u sep).takeWhile (!isSep ·) = u.takeWhile (!isSep ·) := by
    intro u
    induction u with
    | nil => rfl
    | cons c u ih =>
        by_cases hc : isSep c
        · simp [slash, hc, hsep]
        · simpa [slash, hc] using ih
  have hreverse : ∀ u : Text, (slash u sep).reverse = slash u.reverse sep := fun u =>
    List.map_reverse.symm
  simp only [basename, List.rdropWhile, List.rtakeWhile, List.reverse_reverse, hreverse, hdrop,
    htake]

/-- A text that ends in a dot and letters has these as its extension. -/
theorem extension_append (t : Text) {ending : Text} (h : ∀ c ∈ ending, isSep c = false)
    (hdot : '.' ∉ ending) : extension (t ++ '.' :: ending) = some ending := by
  have hbase : basename (t ++ '.' :: ending) = t.rtakeWhile (!isSep ·) ++ '.' :: ending :=
    basename_append t (by simp) (by simpa [isSep] using h)
  have hlast : (t.rtakeWhile (!isSep ·) ++ '.' :: ending).rtakeWhile (· ≠ '.') = ending := by
    rw [List.rtakeWhile, List.reverse_append, List.reverse_cons, List.append_assoc,
      List.takeWhile_append_of_pos, List.singleton_append, List.takeWhile_cons_of_neg (by simp),
      List.append_nil, List.reverse_reverse]
    intro c hc
    simpa using fun heq : c = '.' => hdot (heq ▸ List.mem_reverse.mp hc)
  rw [extension, hbase, if_pos (by simp), hlast]

/-- What stands in front of the last component: `.` if it stands alone, one
separator if there are only separators. -/
def dirname (t : Text) : Text :=
  let body := t.rdropWhile isSep
  let parent := body.rdropWhile (!isSep ·)
  if t = [] then []
  else if body = [] then ['\\']
  else if parent = [] then ['.']
  else if parent.rdropWhile isSep = [] then ['\\']
  else parent.rdropWhile isSep

theorem segments_rdropWhile (t : Text) : segments (t.rdropWhile isSep) = segments t := by
  induction t using List.reverseRecOn with
  | nil => rfl
  | append_singleton t c ih =>
      by_cases hc : isSep c
      · rw [List.rdropWhile_concat_pos _ _ _ hc, ih, segments_append_sep _ _ hc, segments_nil,
          List.append_nil]
      · rw [List.rdropWhile_concat_neg _ _ _ hc]

/-- The segments of a path text are those of its front and its last component. -/
theorem segments_eq_concat {t : Text} (h : basename t ≠ []) :
    segments t = segments ((t.rdropWhile isSep).rdropWhile (!isSep ·)) ++ [basename t] := by
  have hsplit : (t.rdropWhile isSep).rdropWhile (!isSep ·) ++ basename t =
      t.rdropWhile isSep := by
    rw [basename, List.rdropWhile, List.rtakeWhile, ← List.reverse_append,
      List.takeWhile_append_dropWhile, List.reverse_reverse]
  have hbase : ∀ c ∈ basename t, isSep c = false := fun c hc => by
    have hall := List.mem_takeWhile_imp (List.mem_reverse.mp hc)
    simpa using hall
  rw [← segments_rdropWhile t]
  generalize t.rdropWhile isSep = body at hsplit ⊢
  rcases List.eq_nil_or_concat (body.rdropWhile (!isSep ·)) with hnil | ⟨front, c, hfront⟩
  · rw [hnil, List.nil_append] at hsplit
    rw [hnil, ← hsplit, segments_of_no_sep h hbase, segments_nil, List.nil_append]
  · have hc : isSep c := by
      have hne : body.rdropWhile (!isSep ·) ≠ [] := by simp [hfront]
      have hlast := List.rdropWhile_last_not (!isSep ·) body hne
      simpa [hfront] using hlast
    rw [hfront, List.concat_eq_append, List.append_assoc, List.singleton_append] at hsplit
    rw [← hsplit, segments_append_sep _ _ hc, segments_of_no_sep h hbase, hsplit, hfront,
      List.concat_eq_append, segments_append_sep _ _ hc, segments_nil, List.append_nil]

/-- A text without a last component has no segments. -/
theorem segments_eq_nil {t : Text} (h : basename t = []) : segments t = [] := by
  rw [← segments_rdropWhile t]
  rcases List.eq_nil_or_concat (t.rdropWhile isSep) with hnil | ⟨front, c, hfront⟩
  · rw [hnil, segments_nil]
  · have hlast := List.rdropWhile_last_not isSep t (by simp [hfront])
    rw [basename, hfront, List.concat_eq_append,
      List.rtakeWhile_concat_pos _ _ _ (by simpa [hfront] using hlast)] at h
    simp at h

/-- Front and last component, put together again, name the same path. -/
theorem resolve_dirname_basename (dir : Text) {t : Text} {c : Char} (hc : isSep c)
    (h : basename t ≠ []) :
    resolve (dir ++ c :: dirname t ++ c :: basename t) = resolve (dir ++ c :: t) := by
  have hbase : segments (basename t) = [basename t] := by
    apply segments_of_no_sep h
    intro d hd
    have hall := List.mem_takeWhile_imp (List.mem_reverse.mp hd)
    simpa using hall
  have hbody : t.rdropWhile isSep ≠ [] := by
    intro hnil
    simp [basename, hnil] at h
  have ht : t ≠ [] := by
    rintro rfl
    exact hbody rfl
  have hfront : ∀ stack : FilePath, (segments (dirname t)).foldl push stack =
      (segments ((t.rdropWhile isSep).rdropWhile (!isSep ·))).foldl push stack := by
    intro stack
    rw [← segments_rdropWhile ((t.rdropWhile isSep).rdropWhile (!isSep ·))]
    simp only [dirname, if_neg ht, if_neg hbody]
    by_cases hparent : (t.rdropWhile isSep).rdropWhile (!isSep ·) = []
    · simp only [hparent]
      rfl
    · rw [if_neg hparent]
      by_cases hsep : ((t.rdropWhile isSep).rdropWhile (!isSep ·)).rdropWhile isSep = []
      · simp only [hsep]
        rfl
      · rw [if_neg hsep]
  rw [resolve_append_sep _ _ hc, resolve_append_sep _ _ hc, resolve_append_sep _ _ hc, hfront,
    hbase, segments_eq_concat h, List.foldl_append]

/-! ## Walking from a directory -/

/-- A walk from a directory: what is left of it and what was entered below that. -/
structure Walk where
  base : FilePath
  below : FilePath

/-- Follow one segment: `..` leaves what was entered last, or the directory. -/
def Walk.step (w : Walk) (s : Text) : Walk :=
  if s = ['.'] then w
  else if s = ['.', '.'] then
    if w.below = [] then ⟨pop w.base, []⟩
    else ⟨w.base, if w.base = [] then pop w.below else w.below.dropLast⟩
  else ⟨w.base, w.below ++ [s]⟩

/-- Follow segments from a directory. -/
def walk (dir : FilePath) (ss : List Text) : Walk := ss.foldl Walk.step ⟨dir, []⟩

/-- What the walk climbs out of it enters again, up to capitals. -/
def Returns (dir : FilePath) (ss : List Text) : Prop :=
  (dir.drop (walk dir ss).base.length).map Text.lower <+: (walk dir ss).below.map Text.lower

instance (dir : FilePath) (ss : List Text) : Decidable (Returns dir ss) :=
  inferInstanceAs (Decidable (_ <+: _))

theorem pop_isPrefix (p : FilePath) : pop p <+: p := by
  cases p with
  | nil => exact List.prefix_rfl
  | cons s rest =>
      cases rest with
      | nil =>
          by_cases hs : isVolume s
          · simp [pop, hs]
          · simp [pop, hs]
      | cons s' rest => exact (List.prefix_cons_inj s).mpr (List.dropLast_prefix _)

/-- Below a directory the last segment is dropped, volume or not. -/
theorem pop_append {p q : FilePath} (hp : p ≠ []) (hq : q ≠ []) :
    pop (p ++ q) = p ++ q.dropLast := by
  obtain ⟨s, rest, rfl⟩ := List.exists_cons_of_ne_nil hp
  have hne : rest ++ q ≠ [] := by simp [hq]
  obtain ⟨s', rest', heq⟩ := List.exists_cons_of_ne_nil hne
  rw [List.cons_append, heq, pop, ← heq, List.dropLast_append_of_ne_nil hq, List.cons_append]

/-- A walk ends where following its segments leads. -/
theorem Walk.push_step (w : Walk) (s : Text) :
    push (w.base ++ w.below) s = (w.step s).base ++ (w.step s).below := by
  by_cases hdot : s = ['.']
  · simp [push, Walk.step, hdot]
  · by_cases hup : s = ['.', '.']
    · by_cases hbelow : w.below = []
      · simp [push, Walk.step, hup, hbelow]
      · by_cases hbase : w.base = []
        · simp [push, Walk.step, hup, hbelow, hbase]
        · simp [push, Walk.step, hup, hbelow, hbase, pop_append hbase hbelow]
    · simp [push, Walk.step, hdot, hup]

theorem Walk.base_step_isPrefix (w : Walk) (s : Text) : (w.step s).base <+: w.base := by
  unfold Walk.step
  split_ifs
  · exact List.prefix_rfl
  · exact pop_isPrefix w.base
  · exact List.prefix_rfl
  · exact List.prefix_rfl
  · exact List.prefix_rfl

/-- By induction on the segments that are followed. -/
theorem walk_spec (dir : FilePath) (ss : List Text) :
    ss.foldl push dir = (walk dir ss).base ++ (walk dir ss).below ∧
      (walk dir ss).base <+: dir := by
  have hall : ∀ w : Walk, ss.foldl push (w.base ++ w.below) =
      (ss.foldl Walk.step w).base ++ (ss.foldl Walk.step w).below ∧
        (ss.foldl Walk.step w).base <+: w.base := by
    induction ss with
    | nil => exact fun w => ⟨rfl, List.prefix_rfl⟩
    | cons s ss ih =>
        intro w
        obtain ⟨hend, hbase⟩ := ih (w.step s)
        rw [List.foldl_cons, List.foldl_cons, w.push_step]
        exact ⟨hend, hbase.trans (w.base_step_isPrefix s)⟩
  simpa [walk] using hall ⟨dir, []⟩

/-- Without `..` following only goes down. -/
theorem isPrefix_foldl_push {ss : List Text} (h : ['.', '.'] ∉ ss) (dir : FilePath) :
    dir <+: ss.foldl push dir := by
  induction ss generalizing dir with
  | nil => exact List.prefix_rfl
  | cons s ss ih =>
      have hs : s ≠ ['.', '.'] := fun hup => h (hup ▸ List.mem_cons_self)
      have hstep : dir <+: push dir s := by
        unfold push
        rw [if_neg hs]
        split
        · exact List.prefix_rfl
        · exact List.prefix_append dir [s]
      exact hstep.trans (ih (fun hmem => h (List.mem_cons_of_mem s hmem)) _)

/-- A walk ends at or below its directory exactly if it returns to what it leaves. -/
theorem inside_foldl_push (dir : FilePath) (ss : List Text) :
    Inside (dir.map Text.lower) ((ss.foldl push dir).map Text.lower) ↔ Returns dir ss := by
  obtain ⟨hend, hbase⟩ := walk_spec dir ss
  have hdir : dir.map Text.lower = (walk dir ss).base.map Text.lower ++
      (dir.drop (walk dir ss).base.length).map Text.lower := by
    rw [← List.map_append, List.prefix_iff_eq_append.mp hbase]
  rw [Inside, Returns, hend, List.map_append, hdir, List.prefix_append_right_inj]

/-- The walk ends one level below its directory. -/
def Descends (dir : FilePath) (ss : List Text) : Prop :=
  Returns dir ss ∧
    (walk dir ss).base.length + (walk dir ss).below.length = dir.length + 1

instance (dir : FilePath) (ss : List Text) : Decidable (Descends dir ss) :=
  inferInstanceAs (Decidable (_ ∧ _))

theorem exists_child_iff (dir : FilePath) (ss : List Text) :
    (∃ s, (ss.foldl push dir).map Text.lower = dir.map Text.lower ++ [s]) ↔ Descends dir ss := by
  have hlength : ((ss.foldl push dir).map Text.lower).length =
      (walk dir ss).base.length + (walk dir ss).below.length := by
    rw [List.length_map, (walk_spec dir ss).1, List.length_append]
  rw [Descends, ← inside_foldl_push, ← hlength]
  constructor
  · rintro ⟨s, hs⟩
    rw [hs]
    exact ⟨List.prefix_append _ _, by simp⟩
  · rintro ⟨⟨rest, hrest⟩, hone⟩
    rw [← hrest, List.length_append, List.length_map, Nat.add_left_cancel_iff] at hone
    obtain ⟨s, rfl⟩ := List.length_eq_one_iff.mp hone
    exact ⟨s, hrest.symm⟩

/-- A name without the dots and blanks behind it, which Windows drops. -/
def tidy (s : Text) : Text :=
  if Ordinary s then s.rdropWhile fun c => c == '.' || c == ' ' else s

/-- The segments of a path text, tidied. -/
def tidied (t : Text) : List Text := ((segments t).map tidy).filter (· ≠ [])

/-- Where a path text leads if dots and blanks behind a name do not count. -/
def followTidied (t : Text) : FilePath := (tidied t).foldl push []

/-- The same, up to capitals. -/
def place (t : Text) : FilePath := (followTidied t).map Text.lower

theorem tidied_append_sep (first second : Text) {c : Char} (hc : isSep c) :
    tidied (first ++ c :: second) = tidied first ++ tidied second := by
  rw [tidied, segments_append_sep _ _ hc, List.map_append, List.filter_append]
  rfl

theorem place_append_sep (first second : Text) {c : Char} (hc : isSep c) :
    place (first ++ c :: second) =
      ((tidied second).foldl push (followTidied first)).map Text.lower := by
  rw [place, followTidied, tidied_append_sep _ _ hc, List.foldl_append]
  rfl

/-! ## Drive letters -/

/-- Does a text begin with a drive letter and its colon? -/
def hasDrive : Text → Bool
  | c :: ':' :: _ => c.isAlpha
  | _ => false

/-- `dirname` on Windows: a drive letter stays in front. -/
def driveDirname (t : Text) : Text :=
  if hasDrive t then t.take 2 ++ dirname (t.drop 2) else dirname t

/-- One character of `basename` on Windows: the component so far, and whether it
goes on. A colon behind a single byte ends a component as a separator does. -/
def baseStep (s : Text × Bool) (c : Char) : Text × Bool :=
  if isSep c then (s.1, false)
  else if s.2 && c == ':' && s.1.length == 1 && s.1.all (·.toNat < 128) then (s.1, false)
  else if s.2 then (s.1 ++ [c], true)
  else ([c], true)

/-- `basename` on Windows. -/
def driveBasename (t : Text) : Text := (t.foldl baseStep ([], false)).1

/-- Without colons the last component is the one it is elsewhere. -/
theorem driveBasename_eq {t : Text} (h : ':' ∉ t) : driveBasename t = basename t := by
  have hall : ∀ u : Text, ':' ∉ u → u.foldl baseStep ([], false) =
      (basename u, decide (u.rtakeWhile (!isSep ·) ≠ [])) := by
    intro u
    induction u using List.reverseRecOn with
    | nil => exact fun _ => rfl
    | append_singleton u c ih =>
        intro hu
        have hcolon : (c == ':') = false := beq_eq_false_iff_ne.mpr fun heq => hu (by simp [heq])
        rw [List.foldl_append, ih fun hmem => hu (List.mem_append_left _ hmem), List.foldl_cons,
          List.foldl_nil]
        by_cases hc : isSep c
        · have hdrop : basename (u ++ [c]) = basename u := by
            rw [basename, List.rdropWhile_concat_pos _ _ _ hc, basename]
          rw [hdrop, List.rtakeWhile_concat_neg _ _ _ (by simp [hc])]
          simp [baseStep, hc]
        · have hend : basename (u ++ [c]) = u.rtakeWhile (!isSep ·) ++ [c] :=
            basename_append u (by simp) (by simpa using hc)
          have hopen : u.rtakeWhile (!isSep ·) ≠ [] → basename u = u.rtakeWhile (!isSep ·) := by
            intro hne
            rcases List.eq_nil_or_concat u with rfl | ⟨front, d, rfl⟩
            · rfl
            · rw [List.concat_eq_append] at hne ⊢
              have hd : ¬ isSep d := fun hd =>
                hne (List.rtakeWhile_concat_neg _ _ _ (by simp [hd]))
              rw [basename, List.rdropWhile_concat_neg _ _ _ hd]
          rw [hend, List.rtakeWhile_concat_pos _ _ _ (by simp [hc])]
          by_cases hne : u.rtakeWhile (!isSep ·) = []
          · simp [baseStep, hc, hcolon, hne]
          · simp [baseStep, hc, hcolon, hne, hopen hne]
  rw [driveBasename, hall t h]

/-- Neither is what stands in front of it. -/
theorem driveDirname_eq {t : Text} (h : ':' ∉ t) : driveDirname t = dirname t := by
  have hdrive : hasDrive t = false := by
    rcases t with - | ⟨c, - | ⟨d, t⟩⟩
    · rfl
    · rfl
    · have hd : d ≠ ':' := fun heq => h (by simp [heq])
      simp [hasDrive, hd]
  rw [driveDirname, hdrive]
  rfl

end FilePath
