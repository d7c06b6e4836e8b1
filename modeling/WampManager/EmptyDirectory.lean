/-
# Empty directories

An installer asks whether a directory is empty before it writes there. The answer
is the number of paths that a pattern finds behind the directory, so it misses the
names that begin with a dot, and where the path of the directory holds pattern
characters it is the answer for other directories, or for none.
-/

import WampManager.AppInstall
import WampManager.Lib.Listing

namespace WampManager

namespace Util

open FilePath (segments)
open Installer (Directories isDirectoryEmpty formSiteValidate checkedPath)

variable (disk : Listing) (cwd : FilePath) (isDir : Text → Bool)

/-- What the validation is told about a disk. -/
def directories : Directories where
  isDir := isDir
  glob := fun pattern => (disk.glob cwd pattern).map (List.intercalate ['\\'])

/-- Everything a directory holds; the empty text names no directory. -/
def content (dir : Text) : List Text :=
  if dir = [] then [] else disk.entries (Listing.place cwd dir)

/-- A directory that is called empty holds nothing. -/
def GuardsContent (dir : Text) : Prop :=
  isDirectoryEmpty (directories disk cwd isDir) dir = true → content disk cwd dir = []

instance (dir : Text) : Decidable (GuardsContent disk cwd isDir dir) :=
  inferInstanceAs (Decidable (_ → _))

variable {disk cwd isDir}

/-- Where the guard holds, a form that is accepted leads to a directory with nothing
in it, if to any. -/
theorem content_of_formSiteValidate {siteId : ℤ} {site : SiteRow} {path : Text}
    (h : formSiteValidate (directories disk cwd isDir) siteId site path = none)
    (hguard : GuardsContent disk cwd isDir (checkedPath site.documentRoot path))
    (hdir : Installer.isEmpty path = true ∨ isDir (checkedPath site.documentRoot path) = true) :
    content disk cwd (checkedPath site.documentRoot path) = [] := by
  apply hguard
  simp only [formSiteValidate] at h
  split_ifs at h with hid hempty hroot hmatch htaken
  · exact hroot
  · have hthere : isDir (checkedPath site.documentRoot path) = true := hdir.resolve_left hempty
    have hfree : ¬ (isDir (checkedPath site.documentRoot path) &&
        !isDirectoryEmpty (directories disk cwd isDir) (checkedPath site.documentRoot path)) =
          true := htaken
    rw [hthere, Bool.true_and, Bool.not_eq_true', Bool.not_eq_false] at hfree
    exact hfree

/-! ## Directories that are not empty -/

end Util

end WampManager
