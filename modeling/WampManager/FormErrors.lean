/-
# Errors of a form

A form that is refused is answered with statements for the page that posted it: one
for each error, and one that gives the button back. Running them marks the group of
the field that is named, and the tab of the first group that is marked is shown. Each
field a class file finds fault with is a control of the form the same class file shows,
so no error is lost on the way.
-/

import WampManager.Lib.Script
import WampManager.Verify

namespace WampManager

/-! ## The answer -/

namespace Validator

/-- The record of an error; no check asks for the field to be emptied. -/
def errorRecord (error : FieldError) : List (Text × Json.Field) :=
  [("name".toList, .text error.name), ("error".toList, .text error.error),
    ("clear".toList, .bool false)]

/-- The statement that shows an error. -/
def renderText (error : FieldError) : Text :=
  Script.callText "render".toList (Json.recordText (errorRecord error))

/-- The statement that gives the button back. -/
def restoreText : Text := "submit_btn.text(existing_text).prop('disabled', false);".toList

/-- `validate` with errors, which ends the request. -/
def validate (errors : List FieldError) : Text :=
  errors.flatMap (fun error =>
    "\t\t\t\t".toList ++ renderText error ++ '\n' :: "\t\t\t\t".toList) ++
  ("\t\t\t".toList ++ restoreText ++ '\n' :: "\t\t\t".toList)

/-- The answer to a form that was posted by script: errors, or the way to the wizard. -/
def answer (errors : List FieldError) : Text :=
  if errors = [] then Script.assignText "window.location".toList "/wizard".toList ++ ['\n']
  else validate errors

end Validator

/-! ## The page -/

/-- The group of a control: the tab it is on, whether it is marked, and the messages that
are shown. -/
structure FormGroup where
  control : Text
  pane : ℕ
  hasError : Bool
  help : List Text
  deriving DecidableEq

/-- The page of a form with the tab that is shown. An identifier is there once. -/
structure FormPage where
  groups : List FormGroup
  unique : (groups.map FormGroup.control).Nodup
  shown : ℕ
  first : Bool
  focus : Option Text
  button : Text
  disabled : Bool
  existing : Text
  location : Option Text

namespace FormPage

/-- Change groups; they keep their controls. -/
def change (page : FormPage) (f : FormGroup → FormGroup) (hf : ∀ g, (f g).control = g.control) :
    FormPage :=
  { page with
    groups := page.groups.map f
    unique := by
      have hcontrols : FormGroup.control ∘ f = FormGroup.control := funext hf
      rw [List.map_map, hcontrols]
      exact page.unique }

/-- `onSubmit`, up to the request. -/
def submit (page : FormPage) : FormPage :=
  { page.change (fun g => { g with hasError := false, help := [] }) fun _ => rfl with
    first := true
    focus := none
    existing := page.button
    button := "   Please wait".toList
    disabled := true }

/-- Mark the group of a control and show a message in it. -/
def markWith (name error : Text) (g : FormGroup) : FormGroup :=
  if g.control = name then { g with hasError := true, help := g.help ++ [error] } else g

theorem control_markWith (name error : Text) (g : FormGroup) :
    (markWith name error g).control = g.control := by
  unfold markWith
  split <;> rfl

/-- Is a control on a tab? -/
def isOn (page : FormPage) (name : Text) (pane : ℕ) : Bool :=
  page.groups.any fun g => g.control == name && g.pane == pane

/-- `render`: the control of the first error gets the focus, unless its tab is hidden. -/
def render (page : FormPage) (name error : Text) : FormPage :=
  { page.change (markWith name error) (control_markWith name error) with
    first := false
    focus := if page.first && page.isOn name page.shown then some name else page.focus }

/-- A property that is a text. -/
def textOf (name : String) (json : Json) : Option Text :=
  match json.get name with
  | .string t => some t
  | _ => none

/-- Run a statement of the answer. -/
def runStatement (page : FormPage) : Script.Statement → Option FormPage
  | .call function argument =>
      if function = "render".toList then do
        let json ← argument
        let name ← textOf "name" json
        let error ← textOf "error" json
        return page.render name error
      else none
  | .assign target value =>
      if target = "window.location".toList then some { page with location := some value }
      else none
  | .known _ => some { page with button := page.existing, disabled := false }

/-- `eval` of the answer; without a result it throws. -/
def eval (page : FormPage) (result : Text) : Option FormPage :=
  (Script.read [Validator.restoreText] result).bind fun statements =>
    statements.foldlM runStatement page

/-- The tab of the first group that is marked is shown. A control that is hidden with its
tab loses the focus. -/
def showMarked (page : FormPage) : FormPage :=
  match page.groups.find? (·.hasError) with
  | some g =>
      { page with
        shown := g.pane
        focus := page.focus.filter (page.isOn · g.pane) }
  | none => page

/-- The answer arrives. -/
def receive (page : FormPage) (result : Text) : Option FormPage :=
  (page.eval result).map showMarked

/-- What errors make of a group. -/
def marked (errors : List FieldError) (g : FormGroup) : FormGroup :=
  ⟨g.control, g.pane, errors.any (·.name == g.control),
    (errors.filter (·.name == g.control)).map FieldError.error⟩

end FormPage

/-! ## Reading the answer -/

namespace Validator

theorem known_not_prefix {front : Text} (h : front.head? ≠ some 's') (hne : front ≠ []) :
    ∀ k ∈ [restoreText], ∀ rest, ¬ k <+: front ++ rest := by
  intro k hk rest hbegins
  rw [List.mem_singleton.mp hk] at hbegins
  cases front with
  | nil => exact hne rfl
  | cons c front =>
      have hhead : 's' = c := (List.cons_prefix_cons.mp hbegins).1
      exact h (by rw [← hhead]; rfl)

theorem prints_render (error : FieldError) :
    Script.Prints [restoreText] (renderText error)
      (.call "render".toList (some (.object
        ((errorRecord error).map fun m => (m.1, m.2.json))))) := by
  apply Script.prints_call_argument
  · decide
  · apply Script.encodes_recordText
    · simp
    · simp
  · apply known_not_prefix
    · exact (by decide : some 'r' ≠ some 's')
    · exact List.cons_ne_nil _ _

theorem length_renderTexts (errors : List FieldError) :
    errors.length ≤ (errors.flatMap fun error =>
      "\t\t\t\t".toList ++ renderText error ++ '\n' :: "\t\t\t\t".toList).length := by
  induction errors with
  | nil => exact Nat.zero_le _
  | cons error errors ih =>
      rw [List.flatMap_cons, List.length_append, List.length_append, List.length_cons,
        List.length_cons]
      omega

/-- The page reads the errors in order, and then that the button comes back. -/
theorem read_validate (errors : List FieldError) :
    Script.read [restoreText] (validate errors) =
      some (errors.map (fun error =>
          .call "render".toList (some (.object
            ((errorRecord error).map fun m => (m.1, m.2.json))))) ++
        [.known restoreText]) := by
  have hlength := length_renderTexts errors
  obtain ⟨n, hn⟩ : ∃ n, (validate errors).length = n + 1 + errors.length :=
    ⟨(validate errors).length - 1 - errors.length, by
      simp only [validate, List.length_append] at hlength ⊢
      have hpos : 0 < restoreText.length := by decide
      omega⟩
  have hend : Script.statements [restoreText] n ('\n' :: "\t\t\t".toList) = some [] := by
    have hblank : Script.statements [restoreText] n (('\n' :: "\t\t\t".toList) ++ []) =
        Script.statements [restoreText] n [] := Script.statements_blanks (by decide) n []
    rw [List.append_nil] at hblank
    rw [hblank, Script.statements_nil]
  have hprints : Script.Prints [restoreText] restoreText (.known restoreText) :=
    Script.prints_known (c := 's') rfl (by decide)
  have hrestore := hprints n ('\n' :: "\t\t\t".toList)
  rw [hend, Option.map_some] at hrestore
  have htail : Script.statements [restoreText] (n + 1)
      ("\t\t\t".toList ++ (restoreText ++ '\n' :: "\t\t\t".toList)) =
      some [.known restoreText] :=
    (Script.statements_blanks (by decide) (n + 1) _).trans hrestore
  have htabs : ∀ c ∈ "\t\t\t\t".toList, c = '\t' ∨ c = '\n' := by decide
  have hfeed : ∀ c ∈ '\n' :: "\t\t\t\t".toList, c = '\t' ∨ c = '\n' := by decide
  have hall := Script.statements_flatMap htabs hfeed renderText
    (fun error => .call "render".toList (some (.object
      ((errorRecord error).map fun m => (m.1, m.2.json))))) errors
    (fun error _ => prints_render error) (n + 1)
    ("\t\t\t".toList ++ (restoreText ++ '\n' :: "\t\t\t".toList))
  rw [htail, Option.map_some] at hall
  rw [Script.read, hn, validate, List.append_assoc "\t\t\t".toList]
  exact hall

end Validator

/-! ## Running the answer -/

namespace FormPage

theorem runStatement_render (page : FormPage) (error : FieldError) :
    page.runStatement (.call "render".toList (some (.object
        ((Validator.errorRecord error).map fun m => (m.1, m.2.json))))) =
      some (page.render error.name error.error) := by
  rfl

/-- A page on which some errors are shown. -/
def showing (page : FormPage) (errors : List FieldError) : FormPage :=
  errors.foldl (fun page error => page.render error.name error.error) page

theorem foldlM_render (page : FormPage) (errors : List FieldError)
    (more : List Script.Statement) :
    (errors.map (fun error => Script.Statement.call "render".toList (some (.object
        ((Validator.errorRecord error).map fun m => (m.1, m.2.json))))) ++ more).foldlM
      runStatement page = more.foldlM runStatement (page.showing errors) := by
  induction errors generalizing page with
  | nil => rfl
  | cons error errors ih =>
      rw [List.map_cons, List.cons_append, List.foldlM_cons, runStatement_render]
      exact ih (page.render error.name error.error)

theorem eval_validate (page : FormPage) (errors : List FieldError) :
    page.eval (Validator.validate errors) =
      some { page.showing errors with
        button := (page.showing errors).existing
        disabled := false } := by
  rw [eval, Validator.read_validate, Option.bind_some, foldlM_render]
  rfl

/-- Messages already shown stay in front. -/
theorem groups_showing (page : FormPage) (errors : List FieldError) :
    (page.showing errors).groups = page.groups.map fun g =>
      ⟨g.control, g.pane, g.hasError || (marked errors g).hasError,
        g.help ++ (marked errors g).help⟩ := by
  induction errors generalizing page with
  | nil => simp [showing, marked]
  | cons error errors ih =>
      have hrest := ih (page.render error.name error.error)
      rw [showing, List.foldl_cons, ← showing, hrest, render, change, List.map_map]
      apply List.map_congr_left
      intro g _
      by_cases hg : g.control = error.name
      · simp [markWith, marked, hg]
      · have hne : (error.name == g.control) = false := beq_eq_false_iff_ne.mpr fun h => hg h.symm
        simp [markWith, marked, hg, hne]

theorem existing_showing (page : FormPage) (errors : List FieldError) :
    (page.showing errors).existing = page.existing ∧
      (page.showing errors).location = page.location ∧
        (page.showing errors).shown = page.shown := by
  induction errors generalizing page with
  | nil => exact ⟨rfl, rfl, rfl⟩
  | cons error errors ih => exact ih (page.render error.name error.error)

theorem focus_showing_of_not_first (page : FormPage) (errors : List FieldError)
    (h : page.first = false) : (page.showing errors).focus = page.focus := by
  induction errors generalizing page with
  | nil => rfl
  | cons error errors ih =>
      have hrest := ih (page.render error.name error.error) rfl
      rw [showing, List.foldl_cons, ← showing, hrest, render, h]
      rfl

/-- The focus goes to the first error, if its tab is shown. -/
theorem focus_showing_cons (page : FormPage) (error : FieldError) (errors : List FieldError)
    (hfirst : page.first = true) : (page.showing (error :: errors)).focus =
      if page.isOn error.name page.shown then some error.name else page.focus := by
  have hrest := focus_showing_of_not_first (page.render error.name error.error) errors rfl
  rw [showing, List.foldl_cons, ← showing, hrest, render, hfirst, Bool.true_and]

theorem isOn_map (page : FormPage) {f : FormGroup → FormGroup}
    (hf : ∀ g, (f g).control = g.control ∧ (f g).pane = g.pane) (name : Text) (pane : ℕ) :
    ((page.groups.map f).any fun g => g.control == name && g.pane == pane) =
      page.isOn name pane := by
  rw [List.any_map, isOn]
  congr 1
  funext g
  rw [Function.comp_apply, (hf g).1, (hf g).2]

/-- Nothing but the tab and the focus changes. -/
theorem showMarked_eq (page : FormPage) :
    (page.showMarked).groups = page.groups ∧ (page.showMarked).location = page.location ∧
      (page.showMarked).button = page.button ∧ (page.showMarked).disabled = page.disabled := by
  unfold showMarked
  split <;> exact ⟨rfl, rfl, rfl, rfl⟩

/-- Sorting items by keys that are there once loses none of them. -/
theorem perm_flatMap_filter {α κ : Type} [BEq κ] [LawfulBEq κ] (key : α → κ) (keys : List κ)
    (hkeys : keys.Nodup) (items : List α) (h : ∀ a ∈ items, key a ∈ keys) :
    (keys.flatMap fun k => items.filter (key · == k)).Perm items := by
  induction keys generalizing items with
  | nil =>
      have hnone : items = [] := List.eq_nil_iff_forall_not_mem.mpr fun a ha =>
        absurd (h a ha) List.not_mem_nil
      rw [hnone]
      exact List.Perm.refl _
  | cons k keys ih =>
      obtain ⟨hk, hrest⟩ := List.nodup_cons.mp hkeys
      have hothers : (keys.flatMap fun k' => items.filter (key · == k')) =
          keys.flatMap fun k' => (items.filter fun a => !(key a == k)).filter (key · == k') := by
        apply List.flatMap_congr
        intro k' hk'
        rw [List.filter_filter]
        apply List.filter_congr
        intro a _
        by_cases hkey : key a = k'
        · have hne : k' ≠ k := fun heq => hk (heq ▸ hk')
          simp [hkey, hne]
        · simp [hkey]
      have hperm := ih hrest (items.filter fun a => !(key a == k)) fun a ha => by
        obtain ⟨hmem, hne⟩ := List.mem_filter.mp ha
        rcases List.mem_cons.mp (h a hmem) with heq | hmem
        · simp [heq] at hne
        · exact hmem
      rw [List.flatMap_cons, hothers]
      exact (hperm.append_left _).trans (List.filter_append_perm _ _)

/-- The messages a page shows, with their controls. -/
def messages (page : FormPage) : List FieldError :=
  page.groups.flatMap fun g => g.help.map fun error => ⟨g.control, error⟩

/-- Each error stands in one group: none is lost, none is there twice. -/
theorem messages_marked (groups : List FormGroup) (errors : List FieldError)
    (hunique : (groups.map FormGroup.control).Nodup)
    (hnames : ∀ error ∈ errors, error.name ∈ groups.map FormGroup.control) :
    (groups.flatMap fun g =>
      (marked errors g).help.map fun error => (⟨g.control, error⟩ : FieldError)).Perm errors := by
  have hsorted := perm_flatMap_filter FieldError.name _ hunique errors hnames
  rw [List.flatMap_map] at hsorted
  have hgroups : (groups.flatMap fun g =>
      (marked errors g).help.map fun error => (⟨g.control, error⟩ : FieldError)) =
      groups.flatMap fun g => errors.filter (·.name == g.control) := by
    apply List.flatMap_congr
    intro g _
    rw [marked, List.map_map]
    have hback : ∀ error ∈ errors.filter (·.name == g.control),
        ((fun error => (⟨g.control, error⟩ : FieldError)) ∘ FieldError.error) error = error := by
      intro error herror
      have hname := (List.mem_filter.mp herror).2
      rw [beq_iff_eq] at hname
      simp [← hname]
    rw [List.map_congr_left hback, List.map_id']
  rw [hgroups]
  exact hsorted

end FormPage

/-! ## The forms of the class files -/

namespace ClassFile

open Instance Validator

/-- The controls of the form of `preinstall`, in order; boxes and radio buttons, which
no check names, are left out. -/
def controls : ClassFile → List Text
  | .acrylic =>
      ["label".toList, "interface".toList, "udp_port".toList, "primary".toList,
        "secondary".toList]
  | .wildthing =>
      ["label".toList, "interface".toList, "udp_port".toList, "primary".toList]
  | .apache | .nginx =>
      ["label".toList, "interface".toList, "http_port".toList, "https_port".toList]
  | .mariadb | .mysql =>
      ["label".toList, "datadir".toList, "interface".toList, "tcp_port".toList,
        "key_buffer_size".toList, "max_allowed_packet".toList]
  | .mysql8 =>
      ["label".toList, "datadir".toList, "interface".toList, "tcp_port".toList,
        "tcp_port_x".toList, "key_buffer_size".toList, "max_allowed_packet".toList]
  | .memcached =>
      ["label".toList, "interface".toList, "tcp_port".toList, "udp_port".toList,
        "max_memory".toList]
  | .mongodb | .postgresql =>
      ["label".toList, "datadir".toList, "interface".toList, "tcp_port".toList]
  | .redis => ["label".toList, "interface".toList, "tcp_port".toList]
  | .php | .php72 | .php73 | .php74 | .php80 | .php81 | .php812 =>
      ["label".toList, "interface".toList, "tcp_port".toList, "max_execution_time".toList,
        "max_input_time".toList, "max_input_vars".toList, "memory_limit".toList]
  | .adminer | .phpmyadmin => ["site_id".toList, "path".toList]
  | .drupal | .joomla | .wordpress =>
      ["site_id".toList, "path".toList, "database_id".toList, "db_name".toList]
  | .laravel =>
      ["site_id".toList, "path".toList, "database_id".toList, "db_name".toList,
        "app_name".toList, "app_env".toList]

/-- A class file of a server, not of an application inside a site. -/
def isServer : ClassFile → Bool
  | .adminer | .drupal | .joomla | .laravel | .phpmyadmin | .wordpress => false
  | _ => true

/-- The tab of a control; forms without tabs show all controls. -/
def pane (classFile : ClassFile) (control : Text) : ℕ :=
  match classFile with
  | .php | .php72 | .php73 | .php74 | .php80 | .php81 | .php812 =>
      if control = "label".toList then 1
      else if control ∈ ["interface".toList, "tcp_port".toList] then 2
      else 3
  | .laravel =>
      if control ∈ ["site_id".toList, "path".toList] then 1
      else if control ∈ ["database_id".toList, "db_name".toList] then 2
      else 3
  | .adminer | .drupal | .joomla | .phpmyadmin | .wordpress => 0
  | _ => if control ∈ ["label".toList, "datadir".toList] then 1 else 2

theorem nodup_controls (classFile : ClassFile) : classFile.controls.Nodup := by
  cases classFile <;> decide

/-- Errors that name controls. -/
def Names (controls : List Text) (errors : List FieldError) : Prop :=
  ∀ error ∈ errors, error.name ∈ controls

section Checks

variable {controls : List Text} {form : PostedForm} {field : Text}

theorem names_append {errors errors' : List FieldError} :
    Names controls (errors ++ errors') ↔ Names controls errors ∧ Names controls errors' :=
  List.forall_mem_append

/-- A check names the field it is about. -/
theorem names_record (hfield : field ∈ controls) (wrong : Bool) (error : Text) :
    Names controls (record field wrong error) := by
  intro e he
  unfold record at he
  split at he
  · rw [List.mem_singleton.mp he]
    exact hfield
  · exact absurd he List.not_mem_nil

theorem names_number (hfield : field ∈ controls) : Names controls (number form field) :=
  names_record hfield _ _

theorem names_requiredNumber {name : String} (hfield : name.toList ∈ controls) :
    Names controls (requiredNumber form name) :=
  names_append.mpr ⟨names_record hfield _ _, names_number hfield⟩

end Checks

/-- Every error of a server's form names one of its controls. -/
theorem names_verify (sqlite : Sqlite) (found : VerifyFound) (db : Database) (form : PostedForm)
    {classFile : ClassFile} (h : classFile.isServer = true) :
    Names classFile.controls (classFile.verify sqlite found db form) := by
  cases classFile
  all_goals first
    | exact absurd h (by decide)
    | simp (disch := decide) only [verify, verifyDns, verifyHttpd, verifyTcp, verifyBuffers,
        verifyMysql8, verifyPhp, portInUse, datadirNotEmpty, ipAddress, controls, names_append,
        names_record, names_number, names_requiredNumber, and_self]

end ClassFile

/-! ## A form that is posted -/

namespace FormPage

theorem eval_wizard (page : FormPage) :
    page.eval (Script.assignText "window.location".toList "/wizard".toList ++ ['\n']) =
      some { page with location := some "/wizard".toList } := by
  have hread : Script.read [Validator.restoreText]
      (Script.assignText "window.location".toList "/wizard".toList ++ ['\n']) =
      some [.assign "window.location".toList "/wizard".toList] := by
    have hassign : Script.Prints [Validator.restoreText]
        (Script.assignText "window.location".toList "/wizard".toList)
        (.assign "window.location".toList "/wizard".toList) :=
      Script.prints_assign (by decide) (by decide)
        (Validator.known_not_prefix (by decide) (by decide))
    have hprints := hassign 28 ['\n']
    have hend : Script.statements [Validator.restoreText] 28 (['\n'] ++ []) =
        Script.statements [Validator.restoreText] 28 [] :=
      Script.statements_blanks (by decide) 28 []
    have hlength : (Script.assignText "window.location".toList "/wizard".toList ++
        ['\n']).length = 28 + 1 := by decide
    rw [List.append_nil, Script.statements_nil] at hend
    rw [Script.read, hlength, hprints, hend]
    rfl
  rw [eval, hread]
  rfl

/-- What a posted form leads to: the page goes on to the wizard, or shows what is wrong. -/
structure Answered (page page' : FormPage) (errors : List FieldError) : Prop where
  goesOn : page'.location = some "/wizard".toList ↔ errors = []
  groups : page'.groups = page.groups.map (marked errors)
  messages : page'.messages.Perm errors
  usable : errors ≠ [] → page'.button = page.button ∧ page'.disabled = false
  shown : page'.shown = ((page'.groups.find? (·.hasError)).map FormGroup.pane).getD page.shown
  focus : page'.focus = (errors.head?.map FieldError.name).filter fun name =>
    page.isOn name page.shown && page.isOn name page'.shown

/-- The groups decide what is shown behind an answer. -/
theorem shown_showMarked (page : FormPage) :
    (page.showMarked).shown =
      ((page.groups.find? (·.hasError)).map FormGroup.pane).getD page.shown := by
  unfold showMarked
  cases page.groups.find? (·.hasError) <;> rfl

theorem focus_showMarked {page : FormPage} {g : FormGroup}
    (h : page.groups.find? (·.hasError) = some g) :
    (page.showMarked).focus = page.focus.filter (page.isOn · (page.showMarked).shown) := by
  simp only [showMarked, h]

/-- The group of an error's control is marked. -/
theorem exists_marked {groups : List FormGroup} {error : FieldError} {errors : List FieldError}
    (hnames : ∀ error ∈ errors, error.name ∈ groups.map FormGroup.control)
    (herror : error ∈ errors) :
    ∃ g, (groups.map (marked errors)).find? (·.hasError) = some g := by
  obtain ⟨g, hg, hname⟩ := List.mem_map.mp (hnames error herror)
  have hmarked : ((groups.map (marked errors)).find? (·.hasError)).isSome = true := by
    rw [List.find?_isSome]
    refine ⟨marked errors g, List.mem_map_of_mem hg, List.any_eq_true.mpr ⟨error, herror, ?_⟩⟩
    rw [hname, beq_self_eq_true]
  exact Option.isSome_iff_exists.mp hmarked

/-- A group behind the answer shows its own errors and no older ones. -/
theorem groups_answered (page : FormPage) (errors : List FieldError) :
    (page.submit.showing errors).groups = page.groups.map (marked errors) := by
  rw [groups_showing, submit, change, List.map_map]
  apply List.map_congr_left
  intro g _
  simp [marked]

theorem messages_answered {page shown : FormPage} {errors : List FieldError}
    (hnames : ∀ error ∈ errors, error.name ∈ page.groups.map FormGroup.control)
    (h : shown.groups = page.groups.map (marked errors)) : shown.messages.Perm errors := by
  rw [messages, h, List.flatMap_map]
  exact messages_marked page.groups errors page.unique hnames

/-- Nothing is wrong. -/
theorem answered_nil (page : FormPage) :
    ∃ page', page.submit.receive (Validator.answer []) = some page' ∧ Answered page page' [] := by
  have hgroups := page.groups_answered []
  have hunmarked : page.submit.groups.find? (·.hasError) = none := by
    rw [List.find?_eq_none, submit, change]
    simp
  have hreceive : page.submit.receive (Validator.answer []) =
      some { page.submit with location := some "/wizard".toList } := by
    rw [receive, Validator.answer, if_pos rfl, eval_wizard, Option.map_some, showMarked,
      hunmarked]
  refine ⟨_, hreceive, ?_⟩
  exact
    { goesOn := ⟨fun _ => rfl, fun _ => rfl⟩
      groups := hgroups
      messages := messages_answered (by simp) hgroups
      usable := fun h => absurd rfl h
      shown := by
        show page.shown = ((page.submit.groups.find? (·.hasError)).map FormGroup.pane).getD _
        rw [hunmarked]
        rfl
      focus := rfl }

/-- The focus behind the statements of the errors: the control of the first one, if its tab
is shown. -/
theorem focus_submitted (page : FormPage) (error : FieldError) (errors : List FieldError) :
    (page.submit.showing (error :: errors)).focus =
      if page.isOn error.name page.shown then some error.name else none := by
  have hsubmit : page.submit.isOn error.name page.shown = page.isOn error.name page.shown :=
    @isOn_map page (fun g => { g with hasError := false, help := [] }) (fun _ => ⟨rfl, rfl⟩)
      error.name page.shown
  rw [← hsubmit]
  exact focus_showing_cons page.submit error errors rfl

/-- Something is wrong. -/
theorem answered_cons (page : FormPage) (error : FieldError) (errors : List FieldError)
    (hstays : page.location = none)
    (hnames : ∀ e ∈ error :: errors, e.name ∈ page.groups.map FormGroup.control) :
    ∃ page', page.submit.receive (Validator.answer (error :: errors)) = some page' ∧
      Answered page page' (error :: errors) := by
  have hgroups := page.groups_answered (error :: errors)
  obtain ⟨hexisting, hlocation, hpane⟩ := existing_showing page.submit (error :: errors)
  set rendered : FormPage := { page.submit.showing (error :: errors) with
    button := (page.submit.showing (error :: errors)).existing
    disabled := false } with hrendered
  have hreceive : page.submit.receive (Validator.answer (error :: errors)) =
      some rendered.showMarked := by
    rw [receive, Validator.answer, if_neg (List.cons_ne_nil error errors), eval_validate,
      Option.map_some]
  obtain ⟨hsame, haway, hbutton, hdisabled⟩ := rendered.showMarked_eq
  have hall : rendered.showMarked.groups = page.groups.map (marked (error :: errors)) :=
    hsame.trans hgroups
  have hstill : rendered.shown = page.shown := hpane
  refine ⟨_, hreceive, ?_⟩
  exact
    { goesOn := by
        have hnowhere : rendered.showMarked.location = none :=
          haway.trans (hlocation.trans hstays)
        simp [hnowhere]
      groups := hall
      messages := messages_answered hnames hall
      usable := fun _ => ⟨hbutton.trans hexisting, hdisabled⟩
      shown := by
        rw [shown_showMarked, hsame, hstill]
      focus := by
        obtain ⟨g, hg⟩ := exists_marked hnames List.mem_cons_self
        have hfind : rendered.groups.find? (·.hasError) = some g := hgroups ▸ hg
        have hon : ∀ name pane, rendered.isOn name pane = page.isOn name pane := by
          intro name pane
          rw [isOn, show rendered.groups = _ from hgroups]
          exact @isOn_map page (marked (error :: errors)) (fun _ => ⟨rfl, rfl⟩) name pane
        have hfocus : rendered.focus =
            if page.isOn error.name page.shown then some error.name else none :=
          focus_submitted page error errors
        rw [focus_showMarked hfind, hfocus]
        simp only [hon]
        by_cases hthere : page.isOn error.name page.shown = true
        · rw [if_pos hthere]
          simp [Option.filter, hthere]
        · rw [if_neg hthere]
          simp [Option.filter, hthere] }

theorem answered (page : FormPage) (errors : List FieldError) (hstays : page.location = none)
    (hnames : ∀ error ∈ errors, error.name ∈ page.groups.map FormGroup.control) :
    ∃ page', page.submit.receive (Validator.answer errors) = some page' ∧
      Answered page page' errors := by
  cases errors with
  | nil => exact answered_nil page
  | cons error errors => exact answered_cons page error errors hstays hnames

end FormPage

/-- Posting a server's form goes on to the wizard exactly if nothing is wrong with it.
Otherwise each error is shown once, in the group of the control it names and in the
order the checks are made, on the tab of the first group that is marked, and the form
can be posted again. The first error has the focus if its tab was shown and still is. -/
theorem ClassFile.posted_form_is_answered (sqlite : Sqlite) (found : VerifyFound) (db : Database)
    (form : PostedForm) {classFile : ClassFile} (hserver : classFile.isServer = true)
    (page : FormPage)
    (hpage : page.groups.map (fun g => (g.control, g.pane)) =
      classFile.controls.map fun control => (control, classFile.pane control))
    (hstays : page.location = none) :
    ∃ page', page.submit.receive (Validator.answer (classFile.verify sqlite found db form)) =
        some page' ∧
      FormPage.Answered page page' (classFile.verify sqlite found db form) := by
  have hcontrols : page.groups.map FormGroup.control = classFile.controls := by
    have hfirst := congrArg (List.map Prod.fst) hpage
    rw [List.map_map, List.map_map] at hfirst
    exact hfirst.trans (List.map_id _)
  apply FormPage.answered page _ hstays
  intro error herror
  rw [hcontrols]
  exact names_verify sqlite found db form hserver error herror

/-- The form of a Memcached server as it is shown first. -/
def FormPage.sample : FormPage where
  groups := ClassFile.memcached.controls.map fun control =>
    ⟨control, ClassFile.memcached.pane control, false, []⟩
  unique := ClassFile.nodup_controls .memcached
  shown := 1
  first := false
  focus := none
  button := "Continue".toList
  disabled := false
  existing := []
  location := none

/-- Memory that is no number: the one error is shown with its tab, which was hidden before,
so nothing has the focus. -/
theorem ClassFile.posted_form_is_answered_memcached :
    ∃ page', FormPage.sample.submit.receive (Validator.answer
        (ClassFile.memcached.verify Instance.sampleSqlite Instance.sampleFound
          Instance.freshMachine.db [("max_memory".toList, "much".toList)])) = some page' ∧
      page'.messages.Perm
        [⟨"max_memory".toList, "Please enter a valid number".toList⟩] ∧
      page'.shown = 2 ∧ page'.focus = none := by
  have hserver : ClassFile.memcached.isServer = true := rfl
  have hanswered := ClassFile.posted_form_is_answered Instance.sampleSqlite Instance.sampleFound
    Instance.freshMachine.db [("max_memory".toList, "much".toList)] hserver FormPage.sample
    (by decide) rfl
  have herrors : ClassFile.memcached.verify Instance.sampleSqlite Instance.sampleFound
      Instance.freshMachine.db [("max_memory".toList, "much".toList)] =
      [⟨"max_memory".toList, "Please enter a valid number".toList⟩] := by decide
  obtain ⟨page', heval, hshows⟩ := hanswered
  have hshown : page'.shown = 2 := by
    rw [hshows.shown, hshows.groups, herrors]
    decide
  have hfocus : page'.focus = none := by
    rw [hshows.focus, herrors, hshown]
    decide
  exact ⟨page', heval, herrors ▸ hshows.messages, hshown, hfocus⟩

end WampManager
