/-
# Static files

`Cache::init` stands in front of the manager and answers requests for files
below its public folder. The path of the request is appended to that folder as
it is: dot segments and both slash kinds reach the file system. Whether a
request can be answered with a file from elsewhere is decided by its path
alone, and the last theorem says how.
-/

import WampManager.Lib.Drive
import WampManager.Lib.Url

namespace WampManager

namespace Cache

/-- The answer to a request. -/
inductive Reply
  /-- A script is left to the server. -/
  | script
  /-- The manager itself answers. -/
  | app
  /-- The client has the file already. -/
  | notModified (file : Text)
  /-- The content of a file. -/
  | sent (file contentType content : Text)

/-- The file that is served. -/
def Reply.served : Reply → Option Text
  | .notModified file => some file
  | .sent file _ _ => some file
  | _ => none

/-- The type of a file by its extension. -/
def contentType (extension : Option Text) : Text :=
  match extension.map String.ofList with
  | some "js" => "text/javascript".toList
  | some "css" => "text/css".toList
  | some "woff" => "application/font-woff".toList
  | some "woff2" => "application/font-woff2".toList
  | some "ttf" => "application/x-font-ttf".toList
  | some "eot" => "application/vnd.ms-fontobject".toList
  | some "html" => "text/html".toList
  | _ => "application/octet-stream".toList

/-- The public folder. -/
def publicPath (appPath : Text) : Text := appPath ++ "\\public".toList

/-- The path text that is looked up for a request path. -/
def lookup (appPath : Text) (url : Option Text) : Text :=
  FilePath.slash (publicPath appPath ++ url.getD []) '\\'

/-- `Cache::init`; do the conditions of the request say that the client has the
file already? -/
def init (appPath : Text) (disk : Drive) (requestUri : Text) (unchanged : Bool) : Reply :=
  let url := Url.path? requestUri
  let file := lookup appPath url
  let file := if disk.isDir file ∧ url ≠ some ['/'] then file ++ "index.php".toList else file
  match disk.get file with
  | none => .app
  | some content =>
      if FilePath.extension file = some "php".toList then .script
      else if unchanged then .notModified file
      else .sent file (contentType (FilePath.extension file)) content

/-! ## What is served -/

/-- Volumes are no files. -/
def Mounted (disk : Drive) : Prop := ∀ volume, disk.tree.fileAt [volume] = none

/-- A file is served exactly at the path that is looked up, unless it is a script. -/
theorem served_init {appPath requestUri file : Text} {disk : Drive} {unchanged : Bool} :
    (init appPath disk requestUri unchanged).served = some file ↔
      file = lookup appPath (Url.path? requestUri) ∧ (disk.get file).isSome ∧
        FilePath.extension file ≠ some "php".toList := by
  have hindex : ∀ t : Text, FilePath.extension (t ++ "index.php".toList) = some "php".toList := by
    intro t
    have hsplit : t ++ "index.php".toList = (t ++ "index".toList) ++ '.' :: "php".toList := by
      rw [List.append_assoc]
      rfl
    rw [hsplit]
    exact FilePath.extension_append _ (by decide) (by decide)
  have hdir : ∀ t : Text, disk.isDir t → disk.get t = none := by
    intro t ht
    have hnode := disk.tree.isDir_iff.mp ht
    simp [Drive.get, FileTree.fileAt, hnode]
  simp only [init]
  generalize lookup appPath (Url.path? requestUri) = target
  by_cases happend : disk.isDir target ∧ Url.path? requestUri ≠ some ['/']
  · simp only [if_pos happend, hindex]
    constructor
    · intro hserved
      split at hserved <;> simp [Reply.served] at hserved
    · rintro ⟨rfl, hsome, -⟩
      rw [hdir _ happend.1] at hsome
      cases hsome
  · simp only [if_neg happend]
    cases hget : disk.get target with
    | none =>
        simp only [Reply.served, reduceCtorEq, false_iff]
        rintro ⟨rfl, hsome, -⟩
        rw [hget] at hsome
        cases hsome
    | some content =>
        by_cases hphp : FilePath.extension target = some "php".toList
        · simp only [if_pos hphp, Reply.served, reduceCtorEq, false_iff]
          rintro ⟨rfl, -, hnot⟩
          exact hnot hphp
        · have hreply : (if unchanged then Reply.notModified target
              else .sent target (contentType (FilePath.extension target)) content).served =
                some target := by
            cases unchanged <;> rfl
          simp only [if_neg hphp, hreply, Option.some.injEq]
          constructor
          · rintro rfl
            exact ⟨rfl, by simp [hget], hphp⟩
          · rintro ⟨rfl, -, -⟩
            rfl

/-! ## Where a request leads -/

/-- The request path behind the name of the public folder. -/
def publicName (requestUri : Text) : Text :=
  "public".toList ++ (Url.path? requestUri).getD []

/-- Where a request leads, segment by segment from the manager's directory. -/
def reached (appPath requestUri : Text) : FilePath :=
  (FilePath.follow (FilePath.resolve appPath) (publicName requestUri)).map Text.lower

/-- The path of a request goes on behind the name of the public folder. -/
theorem publicPath_append (appPath requestUri : Text) :
    publicPath appPath ++ (Url.path? requestUri).getD [] =
      appPath ++ '\\' :: publicName requestUri := by
  have hfolder : "\\public".toList = '\\' :: "public".toList := rfl
  delta publicPath publicName
  rw [hfolder, List.append_assoc, List.cons_append]

theorem key_lookup (appPath requestUri : Text) :
    Drive.key (lookup appPath (Url.path? requestUri)) = reached appPath requestUri := by
  rw [Drive.key, lookup, FilePath.resolve_slash _ (by decide), publicPath_append,
    FilePath.resolve_append_sep _ _ (by decide)]
  rfl

theorem extension_lookup (appPath requestUri : Text) :
    FilePath.extension (lookup appPath (Url.path? requestUri)) =
      FilePath.extension (publicName requestUri) := by
  have hbase : FilePath.basename (lookup appPath (Url.path? requestUri)) =
      FilePath.basename (publicName requestUri) := by
    have hfirst : 'p' ∈ publicName requestUri := List.mem_append_left _ (by decide)
    rw [lookup, FilePath.basename_slash _ (by decide), publicPath_append]
    exact FilePath.basename_append_sep _ (by decide) ⟨'p', hfirst, by decide⟩
  rw [FilePath.extension, FilePath.extension, hbase]

/-- The request leads into the public folder, to a script, or to no place for a file. -/
def Confined (appPath requestUri : Text) : Prop :=
  FilePath.Inside (Drive.key (publicPath appPath)) (reached appPath requestUri) ∨
    FilePath.extension (publicName requestUri) = some "php".toList ∨
      (reached appPath requestUri).length ≤ 1

/-- Every file served for a request lies in the public folder, whatever is on
the disk, exactly if the request is confined. -/
theorem served_inside_public (appPath requestUri : Text) :
    (∀ disk unchanged file, Mounted disk →
      (init appPath disk requestUri unchanged).served = some file →
        FilePath.Inside (Drive.key (publicPath appPath)) (Drive.key file)) ↔
      Confined appPath requestUri := by
  constructor
  · intro hinside
    by_contra hescapes
    unfold Confined at hescapes
    push Not at hescapes
    obtain ⟨houtside, hphp, hlong⟩ := hescapes
    have hkey := key_lookup appPath requestUri
    have hne : Drive.key (lookup appPath (Url.path? requestUri)) ≠ [] := by
      rw [hkey]
      exact List.ne_nil_of_length_pos (by omega)
    have hmounted : Mounted (.only (lookup appPath (Url.path? requestUri)) []) := by
      intro volume
      apply Drive.fileAt_only_of_ne
      intro hvolume
      rw [hkey] at hvolume
      rw [← hvolume] at hlong
      simp at hlong
    apply houtside
    rw [← hkey]
    apply hinside _ false _ hmounted
    rw [served_init, Drive.get_only hne, extension_lookup]
    exact ⟨rfl, rfl, hphp⟩
  · intro hconfined disk unchanged file hmounted hserved
    obtain ⟨rfl, hsome, hphp⟩ := served_init.mp hserved
    rw [extension_lookup] at hphp
    rw [key_lookup]
    rcases hconfined with hinside | hscript | hshort
    · exact hinside
    · exact absurd hscript hphp
    · have hnone : disk.get (lookup appPath (Url.path? requestUri)) = none := by
        rw [Drive.get, key_lookup, Option.map_eq_none_iff]
        rcases hreached : reached appPath requestUri with _ | ⟨volume, _ | ⟨name, rest⟩⟩
        · simp [FileTree.fileAt, disk.tree.root_dir]
        · exact hmounted volume
        · rw [hreached] at hshort
          simp at hshort
      rw [hnone] at hsome
      cases hsome

/-- A request path without dot segments leads into the public folder. -/
theorem confined_of_ordinary {appPath requestUri rest : Text}
    (hpath : Url.path? requestUri = some ('/' :: rest))
    (hplain : ∀ s ∈ FilePath.segments rest, FilePath.Ordinary s) : Confined appPath requestUri := by
  left
  have hsplit : appPath ++ '\\' :: publicName requestUri = publicPath appPath ++ '/' :: rest := by
    rw [← publicPath_append, hpath]
    rfl
  have hreached : reached appPath requestUri =
      Drive.key (publicPath appPath) ++ (FilePath.segments rest).map Text.lower := by
    rw [reached, FilePath.follow,
      ← FilePath.resolve_append_sep appPath (publicName requestUri) (c := '\\') (by decide), hsplit,
      FilePath.resolve_append_ordinary _ _ (by decide) hplain, List.map_append]
    rfl
  rw [hreached]
  exact List.prefix_append _ _

/-- One step up from the public folder lies the database. -/
theorem served_outside_public :
    ¬ ∀ (appPath requestUri : Text) (disk : Drive) (unchanged : Bool) (file : Text),
      Mounted disk → (init appPath disk requestUri unchanged).served = some file →
        FilePath.Inside (Drive.key (publicPath appPath)) (Drive.key file) := by
  intro hinside
  have hmounted : Mounted (.only "C:\\wamp\\manager\\manager.db".toList "SQLite".toList) := by
    intro volume
    apply Drive.fileAt_only_of_ne
    intro hvolume
    have hlength : 1 = (Drive.key "C:\\wamp\\manager\\manager.db".toList).length :=
      congrArg List.length hvolume
    exact absurd hlength (by decide +kernel)
  have hserved : (init "C:\\wamp\\manager".toList
      (.only "C:\\wamp\\manager\\manager.db".toList "SQLite".toList)
      "/../manager.db".toList false).served =
        some "C:\\wamp\\manager\\public\\..\\manager.db".toList := by decide +kernel
  exact absurd (hinside _ _ _ _ _ hmounted hserved) (by decide +kernel)

end Cache

end WampManager
