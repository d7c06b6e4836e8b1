/-
# Where an application goes

An application is installed into a site. The form is validated against one
directory, which must be missing or empty; the install, a request later,
computes the directory it unpacks into on its own and cuts `\public` out of the
document root first. The two computations are compared here for every document
root and every path.
-/

import WampManager.Database
import WampManager.Lib.Drive

namespace WampManager

namespace Installer

/-- What the validation asks a file system. -/
structure Directories where
  /-- `is_dir`. -/
  isDir : Text → Bool
  /-- `glob`. -/
  glob : Text → List Text

/-- `Util::isDirectoryEmpty`. -/
def isDirectoryEmpty (fs : Directories) (dir : Text) : Bool :=
  (fs.glob (dir ++ "/*".toList)).length == 0

/-- `empty`. -/
def isEmpty (t : Text) : Bool := t = [] || t = ['0']

/-- A word character or a hyphen. -/
def isPathChar (c : Char) : Bool := c.isAlphanum || c == '_' || c == '-'

/-- The part of the path pattern behind the slash: path characters, each with
at most one slash behind it, and a letter or a digit at the end. -/
def matchesSteps : Text → Bool
  | [] => false
  | [c] => c.isAlphanum
  | c :: '/' :: rest => isPathChar c && matchesSteps rest
  | c :: rest => isPathChar c && matchesSteps rest

/-- The path pattern; its end anchor lets one line feed follow. -/
def matchesPath (path : Text) : Bool :=
  match path with
  | '/' :: steps =>
      matchesSteps (if steps.getLast? = some '\n' then steps.dropLast else steps)
  | _ => false

/-- An error of a form. -/
structure FormError where
  control : Text
  message : Text
  deriving DecidableEq

/-- The directory that the validation looks at. -/
def checkedPath (documentRoot path : Text) : Text :=
  if isEmpty path then documentRoot else FilePath.slash (documentRoot ++ path) '\\'

/-- `Installer::form_site_validate`; nothing means that the form is accepted. -/
def formSiteValidate (fs : Directories) (siteId : ℤ) (site : SiteRow) (path : Text) :
    Option FormError :=
  let dir := checkedPath site.documentRoot path
  if siteId = -1 then some ⟨"site_id".toList, "Please select an option".toList⟩
  else if isEmpty path then
    if isDirectoryEmpty fs dir then none
    else some ⟨"site_id".toList, "Document root already contains files/folders".toList⟩
  else if matchesPath path then
    if fs.isDir dir && !isDirectoryEmpty fs dir then
      some ⟨"path".toList, "Folder already contains files/folders".toList⟩
    else none
  else
    some ⟨"path".toList,
      "Format incorrect: start with a forward slash with no trailing slash".toList⟩

/-- The directory that `Instance::appInstall` and the `install` of phpmyadmin
unpack into. -/
def unpackPath (documentRoot path : Text) : Text :=
  FilePath.slash (Text.strReplace "\\public".toList [] documentRoot ++ path) '\\'

/-! ## Comparing the two -/

/-- The directory written is the one that was checked, and it lies in the
document root. -/
def WritesChecked (documentRoot path : Text) : Prop :=
  Drive.key (unpackPath documentRoot path) = Drive.key (checkedPath documentRoot path) ∧
    FilePath.Inside (Drive.key documentRoot) (Drive.key (unpackPath documentRoot path))

theorem ne_dot_of_isPathChar {c : Char} (h : isPathChar c) : c ≠ '.' := by
  rintro rfl
  exact absurd h (by decide)

theorem isPathChar_of_isAlphanum {c : Char} (h : c.isAlphanum) : isPathChar c := by
  simp [isPathChar, h]

/-- The steps hold no dots. -/
theorem not_dot_of_matchesSteps {steps : Text} (h : matchesSteps steps) : '.' ∉ steps := by
  fun_induction matchesSteps steps with
  | case1 => simp
  | case2 c => simpa using (ne_dot_of_isPathChar (isPathChar_of_isAlphanum h)).symm
  | case3 c rest ih =>
      obtain ⟨hc, hrest⟩ := Bool.and_eq_true_iff.mp h
      simpa [(ne_dot_of_isPathChar hc).symm] using ih hrest
  | case4 c rest _ _ ih =>
      obtain ⟨hc, hrest⟩ := Bool.and_eq_true_iff.mp h
      simpa [(ne_dot_of_isPathChar hc).symm] using ih hrest

/-- An accepted path is a slash with ordinary segments behind it. -/
theorem ordinary_of_matchesPath {path : Text} (h : matchesPath path) :
    ∃ steps, path = '/' :: steps ∧ ∀ s ∈ FilePath.segments steps, FilePath.Ordinary s := by
  unfold matchesPath at h
  split at h
  · next steps =>
      have hdot : '.' ∉ steps := by
        by_cases hfeed : steps.getLast? = some '\n'
        · rw [if_pos hfeed] at h
          obtain ⟨init, rfl⟩ := List.getLast?_eq_some_iff.mp hfeed
          have hinit : '.' ∉ init := by
            simpa using not_dot_of_matchesSteps h
          simpa using hinit
        · rw [if_neg hfeed] at h
          exact not_dot_of_matchesSteps h
      refine ⟨steps, rfl, ?_⟩
      intro s hs
      constructor <;> rintro rfl <;>
        exact hdot (FilePath.mem_of_mem_segments hs '.' List.mem_cons_self)
  · cases h

/-- Behind the document root an accepted path only appends. -/
theorem key_append {path : Text} (h : matchesPath path) :
    ∃ below, ∀ root, Drive.key (FilePath.slash (root ++ path) '\\') = Drive.key root ++ below := by
  obtain ⟨steps, rfl, hordinary⟩ := ordinary_of_matchesPath h
  refine ⟨(FilePath.segments steps).map Text.lower, fun root => ?_⟩
  rw [Drive.key, FilePath.resolve_slash _ (by decide),
    FilePath.resolve_append_ordinary _ _ (by decide) hordinary, List.map_append, Drive.key]

theorem key_slash (t : Text) : Drive.key (FilePath.slash t '\\') = Drive.key t := by
  rw [Drive.key, FilePath.resolve_slash _ (by decide), Drive.key]

/-- Once the same directory is written, it lies in the document root. -/
theorem writesChecked_iff {documentRoot path : Text} (h : isEmpty path ∨ matchesPath path) :
    WritesChecked documentRoot path ↔
      Drive.key (unpackPath documentRoot path) = Drive.key (checkedPath documentRoot path) := by
  have hinside : FilePath.Inside (Drive.key documentRoot)
      (Drive.key (checkedPath documentRoot path)) := by
    unfold checkedPath
    by_cases hempty : isEmpty path
    · rw [if_pos hempty]
      exact List.prefix_refl _
    · obtain ⟨below, happend⟩ := key_append (h.resolve_left hempty)
      rw [if_neg hempty, happend]
      exact List.prefix_append _ _
  constructor
  · exact fun hwrites => hwrites.1
  · intro hsame
    exact ⟨hsame, hsame ▸ hinside⟩

/-! ## Where they differ -/

theorem length_key (t : Text) :
    (Drive.key t).flatten.length = (FilePath.resolve t).flatten.length := by
  have hmap : ∀ p : FilePath, (p.map Text.lower).flatten.length = p.flatten.length := by
    intro p
    induction p with
    | nil => rfl
    | cons s p ih => simpa [Text.lower] using ih
  exact hmap _

/-- Cutting `\public` out of a document root without dot segments leaves another directory. -/
theorem length_key_strip {root : Text} (hpublic : "\\public".toList <:+: root)
    (hordinary : ∀ s ∈ FilePath.segments root, FilePath.Ordinary s) (rest : Text) :
    (Drive.key (Text.strReplace "\\public".toList [] root ++ rest)).flatten.length + 6 ≤
      (Drive.key root).flatten.length + rest.length := by
  have hcut := Text.countP_strReplace_nil (!FilePath.isSep ·) (by decide) hpublic
  have hsix : "\\public".toList.countP (!FilePath.isSep ·) = 6 := by decide
  have hle := FilePath.length_flatten_resolve_le
    (Text.strReplace "\\public".toList [] root ++ rest)
  have hrest : rest.countP (!FilePath.isSep ·) ≤ rest.length := List.countP_le_length
  rw [List.countP_append] at hle
  rw [length_key, length_key, FilePath.length_flatten_resolve hordinary]
  omega

/-- A document root with a digit behind it is another directory. -/
theorem key_concat_ne {root : Text}
    (hordinary : ∀ s ∈ FilePath.segments root, FilePath.Ordinary s) :
    Drive.key (root ++ ['0']) ≠ Drive.key root := by
  intro hsame
  have hlength := congrArg (fun p => p.flatten.length) hsame
  have hlonger : ∀ s ∈ FilePath.segments (root ++ ['0']), FilePath.Ordinary s :=
    FilePath.ordinary_segments_concat (by decide) (by decide) hordinary
  simp only [length_key, FilePath.length_flatten_resolve hordinary,
    FilePath.length_flatten_resolve hlonger, List.countP_append] at hlength
  have hone : ['0'].countP (!FilePath.isSep ·) = 1 := by decide
  omega

/-- Without dot segments in the document root, `\public` in it and the path `0`
each lead somewhere else. -/
theorem key_unpackPath_ne {root path : Text} (h : isEmpty path ∨ matchesPath path)
    (hordinary : ∀ s ∈ FilePath.segments root, FilePath.Ordinary s)
    (hodd : "\\public".toList <:+: root ∨ path = ['0']) :
    Drive.key (unpackPath root path) ≠ Drive.key (checkedPath root path) := by
  intro hsame
  by_cases hpublic : "\\public".toList <:+: root
  · by_cases hempty : isEmpty path
    · rw [checkedPath, if_pos hempty, unpackPath, key_slash] at hsame
      have hlength := length_key_strip hpublic hordinary path
      have hshort : path.length ≤ 1 := by
        have hcases : path = [] ∨ path = ['0'] := by simpa [isEmpty] using hempty
        rcases hcases with rfl | rfl <;> decide
      rw [hsame] at hlength
      omega
    · obtain ⟨below, happend⟩ := key_append (h.resolve_left hempty)
      rw [checkedPath, if_neg hempty, unpackPath, happend, happend] at hsame
      have hlength := length_key_strip hpublic hordinary []
      rw [List.append_nil, List.append_cancel_right hsame, List.length_nil] at hlength
      omega
  · obtain rfl := hodd.resolve_left hpublic
    rw [checkedPath, if_pos (by decide), unpackPath, key_slash,
      Text.strReplace_of_absent hpublic] at hsame
    exact key_concat_ne hordinary hsame

/-- An accepted form can only be one with an empty or a well-formed path. -/
theorem formSiteValidate_eq_none {fs : Directories} {siteId : ℤ} {site : SiteRow} {path : Text}
    (h : formSiteValidate fs siteId site path = none) :
    siteId ≠ -1 ∧ (isEmpty path ∨ matchesPath path) := by
  simp only [formSiteValidate] at h
  by_cases hid : siteId = -1
  · simp [hid] at h
  · by_cases hempty : isEmpty path
    · exact ⟨hid, .inl hempty⟩
    · by_cases hmatches : matchesPath path
      · exact ⟨hid, .inr hmatches⟩
      · simp [hid, hempty, hmatches] at h

/-- Where nothing exists, every such form is accepted. -/
theorem formSiteValidate_nothing {siteId : ℤ} {path : Text} (hid : siteId ≠ -1)
    (h : isEmpty path ∨ matchesPath path) (site : SiteRow) :
    formSiteValidate ⟨fun _ => false, fun _ => []⟩ siteId site path = none := by
  by_cases hempty : isEmpty path
  · simp [formSiteValidate, hid, hempty, isDirectoryEmpty]
  · simp [formSiteValidate, hid, hempty, h.resolve_left hempty]

/-- The form is never accepted, or nothing is cut out of the document root and the path is
not the one that counts as empty. -/
def TakenAsPosted (siteId : ℤ) (documentRoot path : Text) : Prop :=
  siteId = -1 ∨ ¬ (isEmpty path ∨ matchesPath path) ∨
    (¬ "\\public".toList <:+: documentRoot ∧ path ≠ ['0'])

/-- Where both are taken as they were posted, both texts are the same. -/
theorem writesChecked_of_takenAsPosted {siteId : ℤ} {site : SiteRow} {path : Text}
    (h : TakenAsPosted siteId site.documentRoot path) {fs : Directories}
    (haccepted : formSiteValidate fs siteId site path = none) :
    WritesChecked site.documentRoot path := by
  obtain ⟨hid, hform⟩ := formSiteValidate_eq_none haccepted
  rw [writesChecked_iff hform]
  rcases h with hid' | hmalformed | ⟨hpublic, hzero⟩
  · exact absurd hid' hid
  · exact absurd hform hmalformed
  · rw [unpackPath, Text.strReplace_of_absent hpublic, checkedPath]
    by_cases hempty : isEmpty path
    · have hnil : path = [] := by
        have hcases : path = [] ∨ path = ['0'] := by simpa [isEmpty] using hempty
        exact hcases.resolve_right hzero
      rw [if_pos hempty, hnil, List.append_nil, key_slash]
    · rw [if_neg hempty]

/-- An install writes the directory that an accepted validation checked, whatever
exists, if the form is never accepted, or nothing is cut out of the document root and
the path is not the one that counts as empty; and only then, where the document root has
no dot segments, which could climb out of what was cut. -/
theorem validated_is_written (siteId : ℤ) (site : SiteRow) (path : Text) :
    (TakenAsPosted siteId site.documentRoot path →
      ∀ fs, formSiteValidate fs siteId site path = none →
        WritesChecked site.documentRoot path) ∧
    ((∀ s ∈ FilePath.segments site.documentRoot, FilePath.Ordinary s) →
      ((∀ fs, formSiteValidate fs siteId site path = none →
        WritesChecked site.documentRoot path) ↔
          TakenAsPosted siteId site.documentRoot path)) := by
  refine ⟨fun h fs => writesChecked_of_takenAsPosted h, fun hordinary =>
    ⟨fun hwrites => ?_, fun h fs => writesChecked_of_takenAsPosted h⟩⟩
  by_contra hodd
  unfold TakenAsPosted at hodd
  push Not at hodd
  obtain ⟨hid, hform, hcut⟩ := hodd
  have hsame := (hwrites _ (formSiteValidate_nothing hid hform site)).1
  refine key_unpackPath_ne hform hordinary ?_ hsame
  by_cases hpublic : "\\public".toList <:+: site.documentRoot
  · exact .inl hpublic
  · exact .inr (hcut hpublic)

/-- A folder below a plain document root is written as it was checked. -/
theorem validated_is_written_sample :
    WritesChecked "C:\\www".toList "/blog".toList := by
  have haccepted := @formSiteValidate_nothing 1 "/blog".toList
    (by decide) (by decide) ⟨"a".toList, [], [], "C:\\www".toList, none, none⟩
  have hordinary : ∀ s ∈ FilePath.segments "C:\\www".toList, FilePath.Ordinary s := by decide
  refine ((validated_is_written 1 ⟨"a".toList, [], [], "C:\\www".toList, none, none⟩
    "/blog".toList).2 hordinary).mpr ?_ _ haccepted
  exact .inr (.inr (by decide))

/-- A site below `public`: the folder above it is written. -/
theorem writes_unchecked :
    ¬ ∀ (siteId : ℤ) (site : SiteRow) (path : Text) (fs : Directories),
      formSiteValidate fs siteId site path = none → WritesChecked site.documentRoot path := by
  intro hwrites
  have haccepted := @formSiteValidate_nothing 1 "/blog".toList
    (by decide) (by decide) ⟨"a".toList, [], [], "C:\\www\\public".toList, none, none⟩
  have hsame := (hwrites _ _ _ _ haccepted).1
  exact absurd hsame (by decide)

end Installer

end WampManager
