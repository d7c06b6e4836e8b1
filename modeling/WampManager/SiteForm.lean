/-
# The edit form of a site

The form shows what the tables have: the name, the aliases in one field, the document
root, and in each select the instance that the site has, if it is listed. What it shows
is posted again by the button under it. In whatever state the site requests leave the
tables, this changes nothing but the key and the certificate, and takes away a server
or a PHP version that is no longer listed; where no key is made it changes nothing at
all. The texts of the site have to be ones that an attribute shows as they are.
-/

import WampManager.MissingSite
import WampManager.SiteAliases

namespace WampManager

namespace SiteController

open Site (getById aliasesOf aliasesField stringToCleanAliasArray CleanAliases madeText)

/-! ## The page -/

/-- `Package::getInstancesByType` for one type: the keys, in the order of the options. -/
def instancesByType (db : Database) (type : Text) : List ℤ :=
  (db.instances.rows.filter fun row =>
    ((db.packages.find? row.2.packageId).bind (Package.vendorOf db)).any fun vendor =>
      vendor.type == .text type).map Prod.fst

/-- What a select posts: the last option that is marked, or the first of all. -/
def posted (options : List ℤ) (reference : Option ℤ) : ℤ :=
  ((options.filter fun id => some id == reference).getLast?).getD (-1)

section Page

-- how a browser reads the references in an attribute
variable (decode : Text → Text)

/-- What an input shows: its attribute ends at the next mark, and line breaks are left
out. -/
def inputValue (quoted : Text) : Text :=
  (decode (quoted.takeWhile (· ≠ '"'))).filter fun c => c ≠ '\n' ∧ c ≠ '\r'

/-- `showEdit`: what the form of a site posts if nothing in it is changed. -/
def showEdit (db : Database) (siteId : ℤ) : Form where
  name := inputValue decode (getById db siteId).name
  aliases := inputValue decode (aliasesField (aliasesOf db siteId))
  documentRoot := inputValue decode (getById db siteId).documentRoot
  httpdInstanceId := posted (instancesByType db "httpd".toList) (getById db siteId).httpdInstanceId
  phpInstanceId := posted (instancesByType db "php".toList) (getById db siteId).phpInstanceId

end Page

/-- Texts that stand for themselves in an attribute and an input. -/
def Showable (t : Text) : Prop := ∀ c ∈ t, c ∉ "\"&\n\r\x00".toList

instance (t : Text) : Decidable (Showable t) := inferInstanceAs (Decidable (∀ c ∈ t, _))

/-- A site whose name, aliases and document root the form can show. -/
structure ShowableSite (db : Database) (siteId : ℤ) : Prop where
  name : Showable (getById db siteId).name
  aliases : ∀ a ∈ aliasesOf db siteId, Showable a
  documentRoot : Showable (getById db siteId).documentRoot

/-- Only an ampersand begins a reference, and a null is no letter. -/
def ReadsLetters (decode : Text → Text) : Prop :=
  ∀ t : Text, '&' ∉ t → '\x00' ∉ t → decode t = t

theorem inputValue_of_showable {decode : Text → Text} (hdecode : ReadsLetters decode) {t : Text}
    (h : Showable t) : inputValue decode t = t := by
  have hnot : ∀ c ∈ "\"&\n\r\x00".toList, c ∉ t := fun c hc hmem => h c hmem hc
  have hmark : t.takeWhile (· ≠ '"') = t := by
    apply List.takeWhile_eq_self_iff.mpr
    intro c hc
    have hne : c ≠ '"' := fun heq => hnot '"' (by decide) (heq ▸ hc)
    simpa using hne
  rw [inputValue, hmark, hdecode t (hnot '&' (by decide)) (hnot '\x00' (by decide))]
  apply List.filter_eq_self.mpr
  intro c hc
  have hfeed : c ≠ '\n' := fun heq => hnot '\n' (by decide) (heq ▸ hc)
  have hreturn : c ≠ '\r' := fun heq => hnot '\r' (by decide) (heq ▸ hc)
  simp [hfeed, hreturn]

theorem Showable.append {t u : Text} (ht : Showable t) (hu : Showable u) : Showable (t ++ u) :=
  List.forall_mem_append.mpr ⟨ht, hu⟩

theorem showable_aliasesField {aliases : List Text} (h : ∀ a ∈ aliases, Showable a) :
    Showable (aliasesField aliases) := by
  have hjoined : Showable (", ".toList.intercalate aliases) := by
    induction aliases with
    | nil => exact List.forall_mem_nil _
    | cons a aliases ih =>
        obtain ⟨ha, haliases⟩ := List.forall_mem_cons.mp h
        cases aliases with
        | nil =>
            rw [List.intercalate_singleton]
            exact ha
        | cons b aliases =>
            rw [List.intercalate_cons_cons]
            exact (ha.append (by decide)).append (ih haliases)
  rw [aliasesField]
  split
  · exact List.forall_mem_nil _
  · exact hjoined

/-- A select posts the instance that a site has, if it is listed. -/
theorem selected_posted {options : List ℤ} (h : (-1 : ℤ) ∉ options) (reference : Option ℤ) :
    selected (posted options reference) = reference.filter fun id => id ∈ options := by
  cases reference with
  | none =>
      have hnone : (options.filter fun id => some id == (none : Option ℤ)) = [] := by simp
      rw [posted, hnone]
      rfl
  | some id =>
      by_cases hlisted : id ∈ options
      · have hall : ∀ option ∈ options.filter fun option => some option == some id,
            option = id := by
          intro option hoption
          simpa using (List.mem_filter.mp hoption).2
        have hne : (options.filter fun option => some option == some id) ≠ [] :=
          List.ne_nil_of_mem (List.mem_filter.mpr ⟨hlisted, by simp⟩)
        have hid : id ≠ -1 := fun heq => h (heq ▸ hlisted)
        rw [posted, List.getLast?_eq_some_getLast hne, hall _ (List.getLast_mem hne),
          Option.getD_some, selected, if_neg hid, Option.filter_some_pos (by simpa using hlisted)]
      · have hnone : (options.filter fun option => some option == some id) = [] := by
          apply List.filter_eq_nil_iff.mpr
          intro option hoption heq
          obtain rfl : option = id := by simpa using heq
          exact hlisted hoption
        rw [posted, hnone, Option.filter_some_neg (by simpa using hlisted)]
        rfl

/-! ## What site requests leave -/

/-- A document root as it is stored: there is one, and no backslash ends it. -/
def RootStored (root : Text) : Prop := root ≠ [] ∧ Text.rtrimChar '\\' root = root

/-- Document roots and aliases that the form reads as they are stored. -/
structure Tidy (db : Database) : Prop where
  roots : ∀ row ∈ db.sites.rows, RootStored row.2.documentRoot
  aliases : ∀ id, CleanAliases (aliasesOf db id)
  attached : AliasesAttached db

/-- One of the requests for sites, or any other request of the manager: none of them adds
or removes a site, changes a document root or writes an alias. -/
def FormStep (env : Env) (w : World) (request : Option Request) (w' : World) : Prop :=
  match request with
  | some request => Step env w request w'
  | none =>
      w'.db.sites.rows.map (fun row => (row.1, row.2.documentRoot)) =
          w.db.sites.rows.map (fun row => (row.1, row.2.documentRoot)) ∧
        w'.db.aliases.rows = w.db.aliases.rows

theorem cleanAliases_nil : CleanAliases [] where
  nonempty := List.forall_mem_nil _
  trimmed := List.forall_mem_nil _
  single := List.forall_mem_nil _
  nodup := List.nodup_nil

theorem rtrimChar_rtrimChar (c : Char) (t : Text) :
    Text.rtrimChar c (Text.rtrimChar c t) = Text.rtrimChar c t := List.rdropWhile_idempotent _ _

theorem rtrimChar_eq_self_iff {c : Char} {t : Text} :
    Text.rtrimChar c t = t ↔ t.getLast? ≠ some c := by
  rw [Text.rtrimChar, List.rdropWhile_eq_self_iff]
  apply Iff.intro
  · intro h hlast
    obtain ⟨front, rfl⟩ := List.getLast?_eq_some_iff.mp hlast
    exact h (by simp) (by simp)
  · intro h hne hlast
    rw [List.getLast?_eq_some_getLast hne] at h
    exact h (congrArg some (by simpa using hlast))

theorem rootStored_rtrimChar (env : Env) (name root : Text) :
    RootStored (Text.rtrimChar '\\' (Site.rootOf env name root)) := by
  apply And.intro _ (rtrimChar_rtrimChar _ _)
  rw [Site.rootOf]
  split
  · intro hnil
    have hs : 's' ∈ env.sitePath ++ '\\' :: name := by simp [Env.sitePath]
    have hall := List.rdropWhile_eq_nil_iff.mp hnil 's' hs
    revert hall
    decide
  · next hne =>
      rw [rtrimChar_rtrimChar]
      exact hne

/-- A folded name that is accepted ends in no backslash, so a root below it does not. -/
theorem rootStored_rootOf (env : Env) {db : Database} {name : Text} (root : Text)
    (h : Site.doAddAccepts db name = true) : RootStored (Site.rootOf env name root) := by
  have hdomain : Site.matchesDomain name = true := by
    simp only [Site.doAddAccepts, Bool.and_eq_true] at h
    exact h.1.2
  obtain ⟨hne, hchars⟩ := matchesDomain_iff.mp hdomain
  have hlast : ∃ c ∈ name.getLast?, c ≠ '\\' := by
    by_cases hfeed : name.getLast? = some '\n'
    · exact ⟨'\n', hfeed, by decide⟩
    · rw [if_neg hfeed] at hne hchars
      apply Exists.intro (name.getLast hne)
      apply And.intro (List.getLast?_eq_some_getLast hne)
      intro heq
      have hchar := hchars _ (List.getLast_mem hne)
      rw [heq] at hchar
      exact absurd hchar (by decide)
  rw [Site.rootOf]
  split
  · apply And.intro (by simp)
    apply rtrimChar_eq_self_iff.mpr
    obtain ⟨c, hc, hother⟩ := hlast
    intro heq
    obtain ⟨front, rfl⟩ := List.getLast?_eq_some_iff.mp hc
    have hend : (env.sitePath ++ '\\' :: (front ++ [c])).getLast? = some c := by
      rw [← List.cons_append, ← List.append_assoc, List.getLast?_concat]
    exact hother (Option.some.inj (hend.symm.trans heq))
  · next hblank => exact ⟨hblank, rtrimChar_rtrimChar _ _⟩

variable {env : Env} {db : Database}

theorem aliasesOf_nextId (h : AliasesAttached db) : aliasesOf db db.sites.nextId = [] := by
  rw [aliasesOf, List.map_eq_nil_iff, List.filter_eq_nil_iff]
  intro row hrow heq
  obtain ⟨site, hsite, hid⟩ := List.mem_map.mp (h row.1 row.2 hrow)
  have hnext : row.2.siteId = db.sites.nextId := by simpa using heq
  rw [← hid] at hnext
  exact Table.nextId_not_mem db.sites site.2 (hnext ▸ hsite)

theorem tidy_createRows (h : Tidy db) {row : SiteRow} (hroot : RootStored row.documentRoot)
    (str : Text) : Tidy (Site.createRows row (stringToCleanAliasArray str) db) := by
  constructor
  · show ∀ r ∈ (db.sites.insert row).rows, RootStored r.2.documentRoot
    rw [Table.rows_insert]
    exact List.forall_mem_append.mpr ⟨h.roots, List.forall_mem_singleton.mpr hroot⟩
  · intro id
    rw [Site.aliasesOf_createRows]
    split
    · next hid =>
        rw [hid, aliasesOf_nextId h.attached, List.nil_append]
        exact Site.cleanAliases_stringToCleanAliasArray str
    · exact h.aliases id
  · exact attached_createRows h.attached _ _

theorem tidy_updateRows (h : Tidy db) {siteId : ℤ} {row : SiteRow}
    (hroot : siteId ∈ db.sites.rows.map Prod.fst → RootStored row.documentRoot) {str : Text}
    (hkeeps : siteId ∈ db.sites.rows.map Prod.fst ∨ stringToCleanAliasArray str = []) :
    Tidy (Site.updateRows siteId row (stringToCleanAliasArray str) db) := by
  constructor
  · show ∀ r ∈ (db.sites.update _ _).rows, RootStored r.2.documentRoot
    rw [Table.rows_update]
    intro r hr
    obtain ⟨old, hold, rfl⟩ := List.mem_map.mp hr
    split
    · next hid => exact hroot (List.mem_map.mpr ⟨old, hold, by simpa using hid⟩)
    · exact h.roots old hold
  · intro id
    rw [Site.aliasesOf_updateRows]
    split
    · exact Site.cleanAliases_stringToCleanAliasArray str
    · exact h.aliases id
  · exact attached_updateRows h.attached _ hkeeps

theorem tidy_deleteRows (h : Tidy db) (siteId : ℤ) : Tidy (Site.deleteRows siteId db) := by
  constructor
  · intro row hrow
    exact h.roots row (List.mem_filter.mp hrow).1
  · intro id
    rw [Site.aliasesOf_deleteRows]
    split
    · exact cleanAliases_nil
    · exact h.aliases id
  · exact attached_deleteRows h.attached siteId

theorem tidy_step {w w' : World} {request : Option Request} (h : Tidy w.db)
    (hkeeps : KeepsAliases w.db request) (hstep : FormStep env w request w') : Tidy w'.db := by
  cases request with
  | none =>
      obtain ⟨hsites, haliases⟩ := hstep
      constructor
      · intro row hrow
        have hmem : (row.1, row.2.documentRoot) ∈
            w.db.sites.rows.map fun row => (row.1, row.2.documentRoot) :=
          hsites ▸ List.mem_map_of_mem hrow
        obtain ⟨old, hold, hsame⟩ := List.mem_map.mp hmem
        rw [← (Prod.mk.inj hsame).2]
        exact h.roots old hold
      · intro id
        rw [aliasesOf, haliases]
        exact h.aliases id
      · intro id row hrow
        have hkeys : w'.db.sites.rows.map Prod.fst = w.db.sites.rows.map Prod.fst := by
          have hfirst := congrArg (List.map Prod.fst) hsites
          simpa [List.map_map, Function.comp_def] using hfirst
        rw [hkeys]
        exact h.attached id row (haliases ▸ hrow)
  | some request =>
      obtain rfl := hstep
      cases request with
      | doAdd form ca =>
          show Tidy (doAdd env form ca w).world.db
          rw [db_doAdd]
          split
          · next haccepts =>
              cases ca with
              | none =>
                  rw [Site.createdTables, hkeeps haccepts]
                  exact h
              | some ca => exact tidy_createRows h (rootStored_rootOf env _ haccepts) _
          · exact h
      | doEdit siteId form ca =>
          show Tidy (doEdit env siteId form ca w).world.db
          rw [doEdit, Site.db_update]
          apply tidy_updateRows h _ hkeeps
          intro hthere
          cases ca with
          | none =>
              obtain ⟨⟨id, site⟩, hrow, rfl⟩ := List.mem_map.mp hthere
              rw [Site.updatedRow, getById, Table.find?_eq_some.mpr hrow]
              exact h.roots _ hrow
          | some ca => exact rootStored_rtrimChar env _ _
      | delete siteId =>
          show Tidy (delete env siteId w).world.db
          rw [delete, Site.db_delete]
          split
          · exact tidy_deleteRows h siteId
          · exact h

theorem tidy_run {w₀ w : World} {requests : List (Option Request)} (hstart : Site.NoSites w₀.db)
    (run : Transition.Run (Transition.Guarded (fun w request => KeepsAliases w.db request)
      (FormStep env)) w₀ requests w) : Tidy w.db := by
  apply run.invariant (fun w => Tidy w.db) _ fun _ _ _ h hstep => tidy_step h hstep.1 hstep.2
  constructor
  · rw [hstart.1]
    exact List.forall_mem_nil _
  · intro id
    rw [aliasesOf, hstart.2]
    exact cleanAliases_nil
  · intro id row hrow
    rw [hstart.2] at hrow
    exact absurd hrow List.not_mem_nil

/-! ## Posting the form unchanged -/

/-- The row of a site after its form was posted unchanged. -/
def renewed (db : Database) (ca : Certificate) (site : SiteRow) : SiteRow :=
  { site with
    sslKey := ca.key
    sslCrt := ca.crt
    httpdInstanceId := site.httpdInstanceId.filter fun id =>
      id ∈ instancesByType db "httpd".toList
    phpInstanceId := site.phpInstanceId.filter fun id => id ∈ instancesByType db "php".toList }

/-- The row that posting the form unchanged leaves: without a key it is the old one. -/
def reposted (db : Database) (ca : Option Certificate) (site : SiteRow) : SiteRow :=
  match ca with
  | some ca => renewed db ca site
  | none => site

/-- The server and the PHP version of a site are listed. -/
def Listed (db : Database) (site : SiteRow) : Prop :=
  (∀ id ∈ site.httpdInstanceId, id ∈ instancesByType db "httpd".toList) ∧
    ∀ id ∈ site.phpInstanceId, id ∈ instancesByType db "php".toList

instance (db : Database) (site : SiteRow) : Decidable (Listed db site) :=
  inferInstanceAs (Decidable (_ ∧ _))

theorem filter_of_forall {reference : Option ℤ} {options : List ℤ}
    (h : ∀ id ∈ reference, id ∈ options) :
    (reference.filter fun id => id ∈ options) = reference := by
  cases reference with
  | none => rfl
  | some id => rw [Option.filter_some_pos (by simpa using h id rfl)]

theorem renewed_of_listed {site : SiteRow} (h : Listed db site) (ca : Certificate) :
    renewed db ca site = { site with sslKey := ca.key, sslCrt := ca.crt } := by
  rw [renewed, filter_of_forall h.1, filter_of_forall h.2]

/-- The rows that posting the form unchanged leaves. -/
theorem db_doEdit_showEdit {decode : Text → Text} (hdecode : ReadsLetters decode) {w : World}
    {siteId : ℤ} (h : Tidy w.db) (hsite : siteId ∈ w.db.sites.rows.map Prod.fst)
    (hshow : ShowableSite w.db siteId) (hkeys : (-1 : ℤ) ∉ w.db.instances.rows.map Prod.fst)
    (ca : Option Certificate) :
    (doEdit env siteId (showEdit decode w.db siteId) ca w).world.db =
      Site.updateRows siteId (reposted w.db ca (getById w.db siteId))
        (aliasesOf w.db siteId) w.db := by
  have hoptions : ∀ type, (-1 : ℤ) ∉ instancesByType w.db type := by
    intro type hmem
    obtain ⟨row, hrow, hid⟩ := List.mem_map.mp hmem
    exact hkeys (List.mem_map.mpr ⟨row, (List.mem_filter.mp hrow).1, hid⟩)
  obtain ⟨⟨id, site⟩, hrow, rfl⟩ := List.mem_map.mp hsite
  have hfound : getById w.db id = site := by
    rw [getById, Table.find?_eq_some.mpr hrow]
    rfl
  obtain ⟨hne, hroot⟩ := h.roots _ hrow
  have hstored : Text.rtrimChar '\\' (Site.rootOf env site.name site.documentRoot) =
      site.documentRoot := by
    rw [Site.rootOf, hroot, if_neg hne, hroot]
  have hname := hshow.name
  have hdocument := hshow.documentRoot
  rw [hfound] at hname hdocument
  rw [doEdit, Site.db_update, showEdit]
  dsimp only
  rw [hfound, inputValue_of_showable hdecode hname, inputValue_of_showable hdecode hdocument,
    inputValue_of_showable hdecode (showable_aliasesField hshow.aliases),
    Site.stringToCleanAliasArray_aliasesField (h.aliases id), selected_posted (hoptions _),
    selected_posted (hoptions _)]
  cases ca with
  | none => rw [Site.updatedRow, reposted, hfound]
  | some ca =>
      rw [Site.updatedRow, hstored]
      rfl

/-- A virtual host is not made from the key and the certificate. -/
theorem madeText_updateRows {siteId id : ℤ} {row : SiteRow} {aliases : List Text} (key crt : Text)
    (hsite : getById (Site.updateRows siteId row aliases db) id =
      { getById db id with sslKey := key, sslCrt := crt })
    (haliases : aliasesOf (Site.updateRows siteId row aliases db) id = aliasesOf db id) :
    madeText env (Site.updateRows siteId row aliases db) id = madeText env db id := by
  have hvhost : Site.vhostOf env (Site.updateRows siteId row aliases db) id =
      Site.vhostOf env db id := by
    unfold Site.vhostOf
    rw [hsite, haliases]
    rfl
  rw [madeText, madeText, hvhost, hsite]
  rfl

/-- In whatever state requests leave the tables: who opens the form of a site and posts it
as it is renews the key and the certificate, and takes away a server or a PHP version that
is no longer listed; without a key the row stays. Nothing else changes for any site, and
the form shows the same again. -/
theorem edit_form_round_trip {decode : Text → Text} (hdecode : ReadsLetters decode) {w₀ w : World}
    {requests : List (Option Request)} (hstart : Site.NoSites w₀.db)
    (run : Transition.Run (Transition.Guarded (fun w request => KeepsAliases w.db request)
      (FormStep env)) w₀ requests w) {siteId : ℤ}
    (hsite : siteId ∈ w.db.sites.rows.map Prod.fst) (hshow : ShowableSite w.db siteId)
    (hkeys : (-1 : ℤ) ∉ w.db.instances.rows.map Prod.fst) (ca : Option Certificate) :
    let db' := (doEdit env siteId (showEdit decode w.db siteId) ca w).world.db
    (∀ id, getById db' id =
      if id = siteId then reposted w.db ca (getById w.db siteId) else getById w.db id) ∧
    (∀ id, aliasesOf db' id = aliasesOf w.db id) ∧
    (Listed w.db (getById w.db siteId) →
      (∀ id, madeText env db' id = madeText env w.db id) ∧
        showEdit decode db' siteId = showEdit decode w.db siteId) := by
  intro db'
  have hdb : db' = Site.updateRows siteId (reposted w.db ca (getById w.db siteId))
      (aliasesOf w.db siteId) w.db :=
    db_doEdit_showEdit hdecode (tidy_run hstart run) hsite hshow hkeys ca
  have hrows : ∀ id, getById db' id =
      if id = siteId then reposted w.db ca (getById w.db siteId) else getById w.db id := by
    intro id
    rw [hdb, Site.getById_updateRows _ _ _ _ _ hsite]
  have haliases : ∀ id, aliasesOf db' id = aliasesOf w.db id := by
    intro id
    rw [hdb, Site.aliasesOf_updateRows]
    split
    · next hid => rw [hid]
    · rfl
  refine ⟨hrows, haliases, ?_⟩
  intro hlisted
  obtain ⟨key, crt, hsame⟩ : ∃ key crt, reposted w.db ca (getById w.db siteId) =
      { getById w.db siteId with sslKey := key, sslCrt := crt } := by
    cases ca with
    | none => exact ⟨_, _, rfl⟩
    | some ca => exact ⟨_, _, renewed_of_listed hlisted ca⟩
  have hrenewed : getById db' siteId =
      { getById w.db siteId with sslKey := key, sslCrt := crt } := by
    rw [hrows, if_pos rfl, hsame]
  apply And.intro
  · intro id
    by_cases hid : id = siteId
    · subst hid
      rw [hdb] at hrenewed ⊢
      exact madeText_updateRows _ _ hrenewed (hdb ▸ haliases id)
    · have hother := hrows id
      rw [if_neg hid] at hother
      rw [hdb] at hother ⊢
      exact madeText_updateRows (getById w.db id).sslKey (getById w.db id).sslCrt hother
        (hdb ▸ haliases id)
  · have hinstances : ∀ type, instancesByType db' type = instancesByType w.db type := by
      intro type
      rw [hdb]
      rfl
    rw [showEdit, showEdit, hrenewed, haliases, hinstances, hinstances]

/-- A site with two aliases on the first server. -/
theorem edit_form_round_trip_sample :
    let w := (doAdd Site.sampleEnv (sampleForm "a.local" "www, *" 1 (-1)) sampleCertificate
      Site.sampleWorld).world
    let db' :=
      (doEdit Site.sampleEnv 1 (showEdit id w.db 1) (some ⟨"new".toList, "new".toList⟩) w).world.db
    getById db' 1 = { getById w.db 1 with sslKey := "new".toList, sslCrt := "new".toList } ∧
      madeText Site.sampleEnv db' 1 = madeText Site.sampleEnv w.db 1 := by
  intro w db'
  have run : Transition.Run (Transition.Guarded (fun w request => KeepsAliases w.db request)
      (FormStep Site.sampleEnv)) Site.sampleWorld
        [some (.doAdd (sampleForm "a.local" "www, *" 1 (-1)) sampleCertificate)] w :=
    .snoc (.nil _) ⟨trivial, rfl⟩
  have hshow : ShowableSite w.db 1 := ⟨by decide, by decide, by decide⟩
  have hlisted : Listed w.db (getById w.db 1) := by decide
  have hdecode : ReadsLetters id := fun _ _ _ => rfl
  obtain ⟨hrows, -, hsame⟩ := edit_form_round_trip hdecode ⟨rfl, rfl⟩ run (by decide) hshow
    (by decide) (some ⟨"new".toList, "new".toList⟩)
  apply And.intro _ ((hsame hlisted).1 1)
  rw [hrows, if_pos rfl, reposted, renewed_of_listed hlisted]

end SiteController

end WampManager
