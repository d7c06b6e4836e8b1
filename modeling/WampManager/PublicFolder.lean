/-
# The public folder

The document root of a framework is the folder `public` of a project. An install and
the editor go to the project, so `\public` is cut out of the document root first, in
three places and always as a text. That is the project's folder exactly if the text
occurs only at the end.
-/

import WampManager.AppInstall
import WampManager.Lib.LastComponent
import WampManager.Site

namespace WampManager

/-- The cut that the three places make. -/
def stripPublic (documentRoot : Text) : Text :=
  Text.strReplace "\\public".toList [] documentRoot

/-- `$document_root` in `Instance::appInstall`. -/
def Instance.appDocumentRoot (site : SiteRow) : Text := stripPublic site.documentRoot

/-- `$document_root` in the `install` of phpmyadmin. -/
def Phpmyadmin.documentRoot (site : SiteRow) : Text := stripPublic site.documentRoot

namespace SiteController

/-- `$folder` in `SiteController::code`. -/
def folder (site : SiteRow) : Text := stripPublic site.documentRoot

/-- The editor of the settings. -/
def editorPath (db : Database) : Text := (db.get "editor_path".toList).elim [] SqlValue.toText

/-- `SiteController::code`: the line that is run. -/
def code (db : Database) (siteId : ℤ) : Text :=
  Text.strReplace "%folder%".toList (folder (Site.getById db siteId)) (editorPath db)

end SiteController

namespace PublicFolder

/-- The name of the folder. -/
def name : Text := "public".toList

/-- The document root without its public folder. -/
def projectFolder (documentRoot : Text) : Text := FilePath.withoutLast name documentRoot

example : projectFolder "C:\\www\\public\\shop\\public".toList =
    "C:\\www\\public\\shop".toList := by decide

/-- All three derive the project's folder. -/
def Stripped (site : SiteRow) : Prop :=
  Instance.appDocumentRoot site = projectFolder site.documentRoot ∧
    Phpmyadmin.documentRoot site = projectFolder site.documentRoot ∧
    SiteController.folder site = projectFolder site.documentRoot

instance (site : SiteRow) : Decidable (Stripped site) := inferInstanceAs (Decidable (_ ∧ _ ∧ _))

theorem name_ne_nil : name ≠ [] := by decide

theorem not_isSep_of_mem_name : ∀ c ∈ name, FilePath.isSep c = false := by decide

theorem stripPublic_eq_iff (documentRoot : Text) :
    stripPublic documentRoot = projectFolder documentRoot ↔
      FilePath.OnlyLast '\\' name documentRoot :=
  FilePath.strReplace_eq_withoutLast_iff name_ne_nil not_isSep_of_mem_name rfl documentRoot

/-- The folders are right exactly if `\public` occurs only at the end of the document
root, and a public folder at the end has the backslash in front. -/
theorem stripped_iff (site : SiteRow) :
    Stripped site ↔ FilePath.OnlyLast '\\' name site.documentRoot := by
  rw [← stripPublic_eq_iff]
  exact ⟨fun h => h.1, fun h => ⟨h, h, h⟩⟩

/-- A folder whose name only begins with it is renamed. -/
theorem public_html_renamed :
    ¬ Stripped ⟨"a".toList, [], [], "C:\\www\\public_html".toList, none, none⟩ := by
  decide

/-! ## Where the folder is used -/

/-- An install unpacks below the folder that it derives. -/
theorem unpackPath_eq (site : SiteRow) (path : Text) :
    Installer.unpackPath site.documentRoot path =
      FilePath.slash (Instance.appDocumentRoot site ++ path) '\\' := rfl

section Right

variable {site : SiteRow} (h : FilePath.OnlyLast '\\' name site.documentRoot)
include h

/-- An install without a path goes into the directory above the public folder. -/
theorem key_unpackPath (hpublic : FilePath.basename site.documentRoot = name) :
    Drive.key site.documentRoot =
      Drive.key (Installer.unpackPath site.documentRoot []) ++ [name] := by
  have hsegments :=
    FilePath.segments_of_basename_eq name_ne_nil not_isSep_of_mem_name hpublic
  have hresolve : FilePath.resolve site.documentRoot =
      FilePath.resolve (projectFolder site.documentRoot) ++ [name] := by
    rw [FilePath.resolve, hsegments, List.foldl_append]
    rfl
  have hfolder : Instance.appDocumentRoot site = projectFolder site.documentRoot :=
    (stripPublic_eq_iff site.documentRoot).mpr h
  rw [unpackPath_eq, hfolder, List.append_nil, Installer.key_slash, Drive.key, hresolve,
    List.map_append]
  rfl

/-- The editor is started on the project's folder. -/
theorem code_eq {db : Database} {siteId : ℤ} (hsite : Site.getById db siteId = site) :
    SiteController.code db siteId =
      Text.strReplace "%folder%".toList (projectFolder site.documentRoot)
        (SiteController.editorPath db) := by
  have hfolder : SiteController.folder site = projectFolder site.documentRoot :=
    (stripPublic_eq_iff site.documentRoot).mpr h
  rw [SiteController.code, hsite, hfolder]

end Right

end PublicFolder

end WampManager
