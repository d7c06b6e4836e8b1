/-
# Configuration paths of sites

The files of a site lie in the `conf\vhosts` directory of its server, under the
name of the site and an extension. Where the stored names of the instances are
those that the install gives, each instance has a directory of its own, and the
deletion pattern of a site finds files of one directory only.
-/

import WampManager.SiteSteps

namespace WampManager

namespace Site

theorem literal_lower {t : Text} (h : Glob.Literal t) : Glob.Literal (Text.lower t) := by
  intro c hc
  obtain ⟨d, hd, rfl⟩ := List.mem_map.mp hc
  obtain ⟨hstar, hany, hbracket⟩ := h d hd
  exact ⟨fun heq => hstar ((FilePath.toLower_eq_iff (by decide)).mp heq),
    fun heq => hany ((FilePath.toLower_eq_iff (by decide)).mp heq),
    fun heq => hbracket ((FilePath.toLower_eq_iff (by decide)).mp heq)⟩

/-! ## File names -/

/-- A text that stands as one segment of a path. -/
def FileName (t : Text) : Prop :=
  t ≠ [] ∧ (∀ c ∈ t, FilePath.isSep c = false) ∧ FilePath.Ordinary t

instance (t : Text) : Decidable (FileName t) := inferInstanceAs (Decidable (_ ∧ _ ∧ _))

theorem FileName.segments {t : Text} (h : FileName t) : FilePath.segments t = [t] :=
  FilePath.segments_of_no_sep h.1 h.2.1

/-- A name and an extension of at least two more characters make a file name. -/
theorem fileName_append {name ext : Text} (hname : ∀ c ∈ name, FilePath.isSep c = false)
    (hext : ∀ c ∈ ext, FilePath.isSep c = false) (hlength : 2 < ext.length) :
    FileName (name ++ ext) := by
  have hlong : 2 < (name ++ ext).length := by
    rw [List.length_append]
    omega
  refine ⟨?_, ?_, ?_, ?_⟩
  · intro hnil
    simp [hnil] at hlong
  · intro c hc
    exact (List.mem_append.mp hc).elim (hname c) (hext c)
  · intro hdot
    rw [hdot] at hlong
    exact absurd hlong (by decide)
  · intro hdots
    rw [hdots] at hlong
    exact absurd hlong (by decide)

/-- The extensions of the files of a site. -/
def extensions : List Text := [".vhost".toList, ".key".toList, ".crt".toList]

theorem extensions_spec {ext : Text} (hext : ext ∈ extensions) :
    (∀ c ∈ ext, FilePath.isSep c = false) ∧ 2 < ext.length ∧ Text.lower ext = ext ∧
      ∃ rest, ext = '.' :: rest ∧ '.' ∉ rest := by
  have hall : ∀ ext ∈ extensions, (∀ c ∈ ext, FilePath.isSep c = false) ∧ 2 < ext.length ∧
      Text.lower ext = ext ∧ ext = '.' :: ext.tail ∧ '.' ∉ ext.tail := by decide
  obtain ⟨hsep, hlength, hlower, hdot, hrest⟩ := hall ext hext
  exact ⟨hsep, hlength, hlower, ext.tail, hdot, hrest⟩

/-- No extension ends in another one. -/
theorem append_extension_inj {first second ext ext' : Text} (hext : ext ∈ extensions)
    (hext' : ext' ∈ extensions) (h : first ++ ext = second ++ ext') : first = second := by
  have hends : ∀ ext ∈ extensions, ∀ ext' ∈ extensions, ext.drop (ext.length - 2) =
      ext'.drop (ext'.length - 2) → ext = ext' := by decide
  have hlast : ∀ (t : Text), ∀ ext ∈ extensions,
      (t ++ ext).drop ((t ++ ext).length - 2) = ext.drop (ext.length - 2) := by
    intro t ext hext
    have hlength := (extensions_spec hext).2.1
    have hindex : (t ++ ext).length - 2 = t.length + (ext.length - 2) := by
      rw [List.length_append]
      omega
    rw [hindex, List.drop_append]
    simp
  have hsame : ext = ext' := by
    apply hends ext hext ext' hext'
    rw [← hlast first ext hext, ← hlast second ext' hext', h]
  rw [hsame] at h
  exact List.append_cancel_right h

/-- The folded `conf\vhosts` directory of an instance. -/
def dirKey (env : Env) (db : Database) (server : Option ℤ) : FilePath :=
  Drive.key (confPath env db server)

section FileIn

variable {env : Env} {db : Database} {server : Option ℤ} {file : Text} (hfile : FileName file)
include hfile

theorem resolve_file :
    FilePath.resolve (confPath env db server ++ '\\' :: file) =
      FilePath.resolve (confPath env db server) ++ [file] := by
  rw [FilePath.resolve_append_ordinary _ _ (by rfl) (by
    rw [hfile.segments]
    exact fun s hs => List.mem_singleton.mp hs ▸ hfile.2.2), hfile.segments]

theorem key_file :
    Drive.key (confPath env db server ++ '\\' :: file) =
      dirKey env db server ++ [Text.lower file] := by
  rw [Drive.key, resolve_file hfile, List.map_append]
  rfl

theorem nameOf_file : Drive.nameOf (confPath env db server ++ '\\' :: file) = file := by
  rw [Drive.nameOf, resolve_file hfile, List.getLast?_append]
  rfl

/-- The key and certificate files, whose path has its slashes turned, lie in the
same directory. -/
theorem key_slash_file :
    Drive.key (FilePath.slash (confPath env db server ++ ['/']) '/' ++ file) =
      dirKey env db server ++ [Text.lower file] := by
  have hsplit : FilePath.slash (confPath env db server ++ ['/']) '/' ++ file =
      FilePath.slash (confPath env db server) '/' ++ '/' :: file := by
    simp [FilePath.slash, FilePath.isSep]
  rw [hsplit, Drive.key, FilePath.resolve_append_ordinary _ _ (by rfl) (by
    rw [hfile.segments]
    exact fun s hs => List.mem_singleton.mp hs ▸ hfile.2.2), hfile.segments,
    FilePath.resolve_slash _ (by rfl), List.map_append]
  rfl

end FileIn

/-- The three files that making a site writes, one after another. -/
theorem disk_make (env : Env) {siteId : ℤ} {v : World} {site : SiteRow}
    (hsite : getById v.db siteId = site)
    (hfile : ∀ ext ∈ extensions, FileName (site.name ++ ext)) :
    ∃ keyPath crtPath vhostPath text,
      (make env siteId v).disk =
        ((v.disk.put keyPath site.sslKey).put crtPath site.sslCrt).put vhostPath text ∧
      Drive.key keyPath = dirKey env v.db site.httpdInstanceId ++
        [Text.lower (site.name ++ ".key".toList)] ∧
      Drive.key crtPath = dirKey env v.db site.httpdInstanceId ++
        [Text.lower (site.name ++ ".crt".toList)] ∧
      Drive.key vhostPath = dirKey env v.db site.httpdInstanceId ++
        [Text.lower (site.name ++ ".vhost".toList)] ∧
      Drive.nameOf vhostPath = site.name ++ ".vhost".toList := by
  unfold make
  simp only [World.put, World.editHosts, hsite]
  refine ⟨_, _, _, _, rfl, ?_, ?_, ?_, ?_⟩
  · rw [List.append_assoc, key_slash_file (hfile _ (by decide))]
  · rw [List.append_assoc, key_slash_file (hfile _ (by decide))]
  · rw [List.append_assoc, List.cons_append, key_file (hfile _ (by decide))]
  · rw [List.append_assoc, List.cons_append, nameOf_file (hfile _ (by decide))]

/-! ## The directories of the instances -/

/-- The stored names of the instances, once set, are those the install gives,
without separators and pattern characters. -/
def InstancesNamed (db : Database) : Prop :=
  ∀ id row, (id, row) ∈ db.instances.rows → ∀ name, row.name = some name →
    ∃ rest, name = decimal id ++ '-' :: rest ∧ (∀ c ∈ name, FilePath.isSep c = false) ∧
      Glob.Literal name

theorem instancesNamed_sample : InstancesNamed sampleDatabase := by
  have hrows : ∀ row ∈ sampleDatabase.instances.rows, ∀ name ∈ row.2.name,
      name = decimal row.1 ++ '-' :: name.drop 2 ∧ (∀ c ∈ name, FilePath.isSep c = false) ∧
        Glob.Literal name := by decide
  exact fun id row hrow name hname => ⟨name.drop 2, hrows _ hrow name hname⟩

variable {env : Env} {db : Database}

/-- An instance name is blank or the one its row was given. -/
theorem instanceName_cases (hnamed : InstancesNamed db) (server : Option ℤ) :
    instanceName db server = [] ∨ ∃ id rest, server = some id ∧
      instanceName db server = decimal id ++ '-' :: rest ∧
      (∀ c ∈ instanceName db server, FilePath.isSep c = false) ∧
      Glob.Literal (instanceName db server) := by
  cases server with
  | none => exact .inl rfl
  | some id =>
      unfold instanceName
      rw [Option.bind_some]
      cases hfind : db.instances.find? id with
      | none => exact .inl rfl
      | some row =>
          rw [Option.bind_some]
          cases hname : row.name with
          | none => exact .inl rfl
          | some name =>
              obtain ⟨rest, heq, hsep, hliteral⟩ :=
                hnamed id row (Table.find?_eq_some.mp hfind) name hname
              exact .inr ⟨id, rest, rfl, heq, hsep, hliteral⟩

/-- An instance whose row has a name reads that name. -/
theorem instanceName_ne_nil (hnamed : InstancesNamed db) {id : ℤ} {row : InstanceRow}
    (hrow : (id, row) ∈ db.instances.rows) (hname : row.name ≠ none) :
    instanceName db (some id) ≠ [] := by
  obtain ⟨name, hsome⟩ := Option.ne_none_iff_exists'.mp hname
  obtain ⟨rest, heq, -⟩ := hnamed id row hrow name hsome
  have hstored : instanceName db (some id) = name := by
    rw [instanceName, Option.bind_some, Table.find?_eq_some.mpr hrow, Option.bind_some, hsome]
    rfl
  simp [hstored, heq]

private theorem segments_instanceName (hnamed : InstancesNamed db) (server : Option ℤ) :
    (instanceName db server = [] ∧ FilePath.segments (instanceName db server) = []) ∨
      FileName (instanceName db server) := by
  rcases instanceName_cases hnamed server with hblank | ⟨id, rest, -, heq, hsep, -⟩
  · exact .inl ⟨hblank, by rw [hblank]; rfl⟩
  · refine .inr ⟨by simp [heq], hsep, ?_, ?_⟩
    all_goals
      intro hdots
      have hhyphen : '-' ∈ instanceName db server := by simp [heq]
      rw [hdots] at hhyphen
      exact absurd hhyphen (by decide)

theorem dirKey_eq (hnamed : InstancesNamed db) (server : Option ℤ) :
    dirKey env db server = Drive.key env.binPath ++
      ((FilePath.segments (instanceName db server)).map Text.lower ++
        ["conf".toList, "vhosts".toList]) := by
  have hsegments : FilePath.segments (instanceName db server ++ '\\' :: "conf\\vhosts".toList) =
      FilePath.segments (instanceName db server) ++ ["conf".toList, "vhosts".toList] := by
    rw [FilePath.segments_append_sep _ _ (by rfl)]
    rfl
  have hordinary : ∀ s ∈ FilePath.segments (instanceName db server) ++
      ["conf".toList, "vhosts".toList], FilePath.Ordinary s := by
    have htail : ∀ s ∈ ["conf".toList, "vhosts".toList], FilePath.Ordinary s := by decide
    intro s hs
    rcases List.mem_append.mp hs with hs | hs
    · rcases segments_instanceName hnamed server with ⟨-, hnil⟩ | hfile
      · rw [hnil] at hs
        exact absurd hs List.not_mem_nil
      · rw [hfile.segments] at hs
        exact List.mem_singleton.mp hs ▸ hfile.2.2
    · exact htail s hs
  have hpath : confPath env db server =
      env.binPath ++ '\\' :: (instanceName db server ++ '\\' :: "conf\\vhosts".toList) := by
    simp [confPath]
  rw [dirKey, Drive.key, hpath, FilePath.resolve_append_ordinary _ _ (by rfl) (by rwa [hsegments]),
    hsegments, List.map_append, List.map_append]
  rfl

/-- The directory of a named instance lies four levels below the root directory. -/
theorem length_dirKey (hnamed : InstancesNamed db) {id : ℤ}
    (hid : instanceName db (some id) ≠ []) :
    (dirKey env db (some id)).length = (FilePath.resolve env.wampPath).length + 4 := by
  obtain ⟨id', rest, -, -, hsep, -⟩ := (instanceName_cases hnamed (some id)).resolve_left hid
  have hbin : FilePath.resolve env.binPath = FilePath.resolve env.wampPath ++ ["bin".toList] :=
    FilePath.resolve_append_ordinary env.wampPath "bin".toList (by rfl) (by decide)
  rw [dirKey_eq hnamed, FilePath.segments_of_no_sep hid hsep, Drive.key, hbin]
  simp

/-- A document root below `SITE_PATH` lies at most two levels deep. -/
theorem length_siteKey_le (env : Env) {name : Text} (hname : ∀ c ∈ name, FilePath.isSep c = false) :
    (Drive.key (env.sitePath ++ '\\' :: name)).length ≤
      (FilePath.resolve env.wampPath).length + 2 := by
  have hsites : FilePath.resolve env.sitePath = FilePath.resolve env.wampPath ++ ["sites".toList] :=
    FilePath.resolve_append_ordinary env.wampPath "sites".toList (by rfl) (by decide)
  rw [Drive.key, List.length_map, FilePath.resolve_append_sep _ _ (by rfl), hsites]
  by_cases hblank : name = []
  · simp [hblank]
  · rw [FilePath.segments_of_no_sep hblank hname, List.foldl_cons, List.foldl_nil]
    refine (FilePath.length_push_le _ _).trans ?_
    simp

/-- A named instance shares its directory with nobody. -/
theorem dirKey_injective (hnamed : InstancesNamed db) {id : ℤ} {server : Option ℤ}
    (hid : instanceName db (some id) ≠ [])
    (h : dirKey env db (some id) = dirKey env db server) : server = some id := by
  rw [dirKey_eq hnamed, dirKey_eq hnamed] at h
  have hnames := List.append_cancel_right (List.append_cancel_left h)
  obtain ⟨id', rest, hsome, heq, hsep, -⟩ := (instanceName_cases hnamed (some id)).resolve_left hid
  obtain rfl := Option.some.inj hsome
  rw [FilePath.segments_of_no_sep hid hsep] at hnames
  rcases instanceName_cases hnamed server with hblank | ⟨other, rest', rfl, heq', hsep', -⟩
  · rw [hblank] at hnames
    cases hnames
  · have hne : instanceName db (some other) ≠ [] := by simp [heq']
    rw [FilePath.segments_of_no_sep hne hsep'] at hnames
    have hlower : Text.lower (instanceName db (some id)) =
        Text.lower (instanceName db (some other)) := by simpa using hnames
    have hfold : ∀ (i : ℤ) (t : Text),
        Text.lower (decimal i ++ '-' :: t) = decimal i ++ '-' :: Text.lower t := by
      intro i t
      rw [Text.lower, List.map_append, ← Text.lower, lower_decimal]
      rfl
    rw [heq, heq', hfold, hfold] at hlower
    rw [decimal_append_inj hlower]

private theorem literal_tail (hnamed : InstancesNamed db) (server : Option ℤ) :
    ∀ s ∈ (FilePath.segments (instanceName db server)).map Text.lower ++
      ["conf".toList, "vhosts".toList], Glob.Literal s := by
  have hfixed : ∀ s ∈ ["conf".toList, "vhosts".toList], Glob.Literal s := by decide
  intro s hs
  rcases List.mem_append.mp hs with hs | hs
  · obtain ⟨r, hr, rfl⟩ := List.mem_map.mp hs
    rcases instanceName_cases hnamed server with hblank | ⟨-, -, -, -, -, hname⟩
    · rw [hblank] at hr
      exact absurd hr List.not_mem_nil
    · exact literal_lower fun c hc => hname c (FilePath.mem_of_mem_segments hr c hc)
  · exact hfixed s hs

/-- Without pattern characters in the root directory, the directory of an
instance has none either. -/
theorem literal_dirKey (hnamed : InstancesNamed db) (hliteral : Glob.Literal env.wampPath)
    (server : Option ℤ) : ∀ s ∈ dirKey env db server, Glob.Literal s := by
  have hfolder : Glob.Literal "\\bin".toList := by decide
  have hbin : Glob.Literal env.binPath := fun c hc =>
    (List.mem_append.mp hc).elim (hliteral c) (hfolder c)
  have hkey : ∀ s ∈ Drive.key env.binPath, Glob.Literal s := by
    intro s hs
    obtain ⟨r, hr, rfl⟩ := List.mem_map.mp hs
    refine literal_lower fun c hc => hbin c ?_
    exact FilePath.mem_of_mem_segments (FilePath.mem_segments_of_mem_resolve hr) c hc
  rw [dirKey_eq hnamed]
  intro s hs
  rcases List.mem_append.mp hs with hs | hs
  · exact hkey s hs
  · exact literal_tail hnamed server s hs

/-- What the deletion pattern of a site finds: unless its brackets cross a separator, in
the directories its server's directory matches, the files its last segment matches. -/
theorem globMatches_configs {site : SiteRow} (hname : ∀ c ∈ site.name, FilePath.isSep c = false)
    (k : FilePath) (file : StoredFile) :
    Drive.globMatches (configs env db site) k file = true ↔
      Glob.crosses (configs env db site) = false ∧
        Glob.matchPath (dirKey env db site.httpdInstanceId) k.dropLast = true ∧
        Glob.matchSegment (site.name ++ ['.', '*']) file.spelled = true := by
  have hsuffix : ∀ c ∈ ".*".toList, FilePath.isSep c = false := by decide
  have hstar : FileName (site.name ++ ".*".toList) := by
    refine ⟨by simp, fun c hc => (List.mem_append.mp hc).elim (hname c) (hsuffix c), ?_, ?_⟩
    all_goals
      intro hdots
      have hmem : '*' ∈ site.name ++ ".*".toList := by simp
      rw [hdots] at hmem
      exact absurd hmem (by decide)
  have hconfigs : configs env db site =
      confPath env db site.httpdInstanceId ++ '\\' :: (site.name ++ ".*".toList) := by
    simp [configs]
  rw [hconfigs, Drive.globMatches, Bool.and_eq_true, Bool.and_eq_true, key_file hstar,
    List.dropLast_concat, nameOf_file hstar, Bool.not_eq_true']
  rfl

/-- Without pattern characters in the root directory, no bracket crosses a separator. -/
theorem crosses_configs (hnamed : InstancesNamed db) (hliteral : Glob.Literal env.wampPath)
    {site : SiteRow} (hname : ∀ c ∈ site.name, FilePath.isSep c = false) :
    Glob.crosses (configs env db site) = false := by
  have hfolder : Glob.Literal "\\bin".toList := by decide
  have hvhosts : Glob.Literal "\\conf\\vhosts".toList := by decide
  have hinstance : Glob.Literal (instanceName db site.httpdInstanceId) := by
    rcases instanceName_cases hnamed site.httpdInstanceId with hblank | ⟨-, -, -, -, -, hname⟩
    · rw [hblank]
      exact fun c hc => absurd hc List.not_mem_nil
    · exact hname
  have hdir : Glob.Literal (confPath env db site.httpdInstanceId) := by
    intro c hc
    simp only [confPath, Env.binPath, List.mem_append, List.mem_cons] at hc
    rcases hc with ((hc | hc) | rfl | hc) | hc
    · exact hliteral c hc
    · exact hfolder c hc
    · decide
    · exact hinstance c hc
    · exact hvhosts c hc
  have hsuffix : ∀ c ∈ ".*".toList, FilePath.isSep c = false := by decide
  have hconfigs : configs env db site =
      confPath env db site.httpdInstanceId ++ '\\' :: (site.name ++ ".*".toList) := by
    simp [configs]
  rw [hconfigs]
  exact Glob.crosses_name hdir fun c hc => (List.mem_append.mp hc).elim (hname c) (hsuffix c)

/-- Whatever the root directory is called, a pattern finds nothing in the
directory of a named instance but for that instance. -/
theorem server_of_matchPath (hnamed : InstancesNamed db) {id : ℤ} {server : Option ℤ}
    (hid : instanceName db (some id) ≠ [])
    (h : Glob.matchPath (dirKey env db server) (dirKey env db (some id)) = true) :
    server = some id := by
  suffices hsame : dirKey env db (some id) = dirKey env db server from
    dirKey_injective hnamed hid hsame
  rw [dirKey_eq hnamed, dirKey_eq hnamed] at h ⊢
  have htail := Glob.matchPath_of_append rfl h
  rw [(Glob.matchPath_literal (literal_tail hnamed server) _).mp htail]

end Site

end WampManager
