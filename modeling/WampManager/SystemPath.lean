/-
# The path of the system

Saving the settings puts the three junctions in front of the path of the system.
Whether one is there already is asked for its text, not for an entry: a longer
entry that holds the text of a junction keeps the junction out. The path is then set
through a command line, which leaves a text with single blanks as it is.
-/

import Mathlib.Algebra.Order.BigOperators.Group.List
import Mathlib.Algebra.Order.Group.Nat
import WampManager.PathSet
import WampManager.Settings

namespace WampManager

namespace Settings

open PathSet (Bare Installed Interpreter Tidy isWhite line maxLine passed pathSet weight)

/-! ## The three checks -/

/-- Put an entry in front of a path that does not hold its text. -/
def prependMissing (path entry : Text) : Text :=
  if entry <:+: path then path else entry ++ ';' :: path

/-- `SettingsController::save`: the path that is set, from the one that was read. -/
def savePath (env : Env) (path : Text) : Text :=
  let path := prependMissing path (Cli.junction env .php)
  let path := prependMissing path (Cli.junction env .mysql)
  prependMissing path (Cli.junction env .pgsql)

/-- `SettingsController::save`, the path of the system included. -/
def saveAll (sh : Interpreter) (env : Env) (form : Form) : Machine × Text → Machine × Text
  | (m, path) => (save env form m, pathSet sh env (savePath env path) path)

/-- The entries of a path. -/
def entries (path : Text) : List Text := path.splitOn ';'

/-- A save leaves a path with the junctions, the old entries and nothing twice, and
saving again does not change it. -/
structure KeepsPath (sh : Interpreter) (env : Env) (form : Form) (m : Machine) (path : Text) :
    Prop where
  complete : ∀ cli, Cli.junction env cli ∈ entries (saveAll sh env form (m, path)).2
  kept : (entries path).Sublist (entries (saveAll sh env form (m, path)).2)
  once : ∀ entry, (entries (saveAll sh env form (m, path)).2).count entry ≤
    max ((entries path).count entry) 1
  settled : (saveAll sh env form (saveAll sh env form (m, path))).2 =
    (saveAll sh env form (m, path)).2

/-- The junctions in the order of the checks. -/
def junctions (env : Env) : List Text :=
  [Cli.junction env .php, Cli.junction env .mysql, Cli.junction env .pgsql]

/-- The interpreter takes the line with the path and the junctions that it does not hold. -/
def Fits (env : Env) (path : Text) : Prop :=
  (line env path).length + (((junctions env).filter (¬ · <:+: path)).map (·.length + 1)).sum ≤
    maxLine

instance (env : Env) (path : Text) : Decidable (Fits env path) := Nat.decLe _ _

/-- A path with single blanks inside it. -/
structure Single (env : Env) (path : Text) : Prop where
  tabs : '\t' ∉ path
  blanks : ¬ [' ', ' '] <:+: path
  /-- In front of the path stands what it does not hold. -/
  start : (∀ cli, Cli.junction env cli <:+: path) → ∀ c ∈ path.head?, isWhite c = false
  last : ∀ c ∈ path.getLast?, isWhite c = false

/-! ## Entries -/

theorem entries_append_cons (front back : Text) :
    entries (front ++ ';' :: back) = entries front ++ entries back :=
  List.splitOn_append_cons_self ..

theorem entries_of_not_mem {entry : Text} (h : ';' ∉ entry) : entries entry = [entry] :=
  List.splitOn_eq_singleton h

theorem infix_of_mem_entries {entry path : Text} (h : entry ∈ entries path) : entry <:+: path := by
  induction hn : path.length using Nat.strong_induction_on generalizing path with
  | _ n ih =>
      by_cases hmem : ';' ∈ path
      · obtain ⟨front, back, rfl⟩ := List.append_of_mem hmem
        rw [entries_append_cons, List.mem_append] at h
        rcases h with h | h
        · exact (ih front.length (by simp [← hn]) h rfl).trans (List.prefix_append _ _).isInfix
        · exact (ih back.length (by simp [← hn]; omega) h rfl).trans
            ((List.suffix_cons _ _).trans (List.suffix_append _ _)).isInfix
      · rw [entries_of_not_mem hmem, List.mem_singleton] at h
        rw [h]

/-- The characters of the entries and the marks between them are the characters of the path. -/
theorem sum_entries (f : Char → ℕ) (path : Text) :
    ((entries path).map fun entry => (entry.map f).sum + f ';').sum =
      (path.map f).sum + f ';' := by
  induction hn : path.length using Nat.strong_induction_on generalizing path with
  | _ n ih =>
      by_cases hmem : ';' ∈ path
      · obtain ⟨front, back, rfl⟩ := List.append_of_mem hmem
        have hfront := ih front.length (by simp [← hn]) front rfl
        have hback := ih back.length (by simp [← hn]; omega) back rfl
        rw [entries_append_cons, List.map_append, List.sum_append, hfront, hback,
          List.map_append, List.sum_append, List.map_cons, List.sum_cons]
        omega
      · rw [entries_of_not_mem hmem, List.map_singleton, List.sum_singleton]

/-- A text without a mark lies on one side of it. -/
theorem infix_append_cons_iff {entry : Text} (h : ';' ∉ entry) (front back : Text) :
    entry <:+: front ++ ';' :: back ↔ entry <:+: front ∨ entry <:+: back := by
  constructor
  · rintro ⟨before, behind, heq⟩
    rw [List.append_assoc] at heq
    rcases List.append_eq_append_iff.mp heq with ⟨a, rfl, ha⟩ | ⟨a, rfl, ha⟩
    · rcases List.append_eq_append_iff.mp ha with ⟨b, hb, -⟩ | ⟨b, hb, hb'⟩
      · exact .inl ⟨before, b, by rw [hb, List.append_assoc]⟩
      · cases b with
        | nil =>
            rw [List.append_nil] at hb
            exact .inl ⟨before, [], by rw [hb, List.append_nil]⟩
        | cons c b =>
            obtain ⟨rfl, -⟩ := List.cons.inj hb'
            exact absurd (hb ▸ List.mem_append_right a List.mem_cons_self) h
    · cases a with
      | nil =>
          rw [List.nil_append] at ha
          cases entry with
          | nil => exact .inl (List.nil_infix)
          | cons c entry =>
              obtain ⟨rfl, -⟩ := List.cons.inj ha
              exact absurd List.mem_cons_self h
      | cons c a =>
          obtain ⟨-, hback⟩ := List.cons.inj ha
          exact .inr ⟨a, behind, (List.append_assoc a entry behind).trans hback.symm⟩
  · rintro (h | h)
    · exact h.trans (List.prefix_append _ _).isInfix
    · exact h.trans ((List.suffix_cons _ _).trans (List.suffix_append _ _)).isInfix

/-! ## Entries one after another -/

/-- Put entries in front, one after another. -/
def prependAll (path : Text) (es : List Text) : Text := es.foldl prependMissing path

theorem infix_prependMissing (path entry : Text) : entry <:+: prependMissing path entry := by
  unfold prependMissing
  split
  · assumption
  · exact (List.prefix_append _ _).isInfix

theorem suffix_prependMissing (path entry : Text) : path <:+ prependMissing path entry := by
  unfold prependMissing
  split
  · exact List.suffix_rfl
  · exact (List.suffix_cons _ _).trans (List.suffix_append _ _)

theorem suffix_prependAll (path : Text) (es : List Text) : path <:+ prependAll path es := by
  induction es generalizing path with
  | nil => exact List.suffix_rfl
  | cons entry es ih => exact (suffix_prependMissing path entry).trans (ih _)

theorem infix_prependAll {es : List Text} {entry : Text} (h : entry ∈ es) (path : Text) :
    entry <:+: prependAll path es := by
  induction es generalizing path with
  | nil => cases h
  | cons e es ih =>
      rcases List.mem_cons.mp h with rfl | h
      · exact (infix_prependMissing path entry).trans (suffix_prependAll _ es).isInfix
      · exact ih h _

/-- What is held is not put in again. -/
theorem prependAll_of_infix {es : List Text} {path : Text} (h : ∀ entry ∈ es, entry <:+: path) :
    prependAll path es = path := by
  induction es with
  | nil => rfl
  | cons entry es ih =>
      obtain ⟨hentry, hes⟩ := List.forall_mem_cons.mp h
      have hsame : prependMissing path entry = path := if_pos hentry
      show prependAll (prependMissing path entry) es = path
      rw [hsame, ih hes]

/-- No mark in an entry, and none in a later one. -/
def Separate (es : List Text) : Prop :=
  (∀ entry ∈ es, ';' ∉ entry) ∧ es.Pairwise fun entry later => ¬ later <:+: entry

/-- What is put in front are the entries that the path does not hold. -/
theorem entries_prependAll {es : List Text} (h : Separate es) (path : Text) :
    entries (prependAll path es) = (es.filter (¬ · <:+: path)).reverse ++ entries path := by
  induction es generalizing path with
  | nil => rfl
  | cons entry es ih =>
      obtain ⟨hmarks, hpairs⟩ := h
      obtain ⟨hmark, hmarks⟩ := List.forall_mem_cons.mp hmarks
      obtain ⟨hlater, hpairs⟩ := List.pairwise_cons.mp hpairs
      show entries (prependAll (prependMissing path entry) es) = _
      rw [ih ⟨hmarks, hpairs⟩]
      by_cases hheld : entry <:+: path
      · rw [prependMissing, if_pos hheld, List.filter_cons_of_neg (by simpa using hheld)]
      · have hrest : es.filter (¬ · <:+: entry ++ ';' :: path) = es.filter (¬ · <:+: path) := by
          refine List.filter_congr fun later hmem => ?_
          rw [decide_eq_decide, not_iff_not, infix_append_cons_iff (hmarks later hmem)]
          exact or_iff_right (hlater later hmem)
        rw [prependMissing, if_neg hheld, hrest, List.filter_cons_of_pos (by simpa using hheld),
          List.reverse_cons, entries_append_cons, entries_of_not_mem hmark, List.append_assoc]

/-- What stands in front of the path are entries, each with a mark behind it. -/
theorem exists_front (path : Text) (es : List Text) :
    ∃ front, prependAll path es = front ++ path ∧
      (∀ c ∈ front, c = ';' ∨ ∃ entry ∈ es, c ∈ entry) ∧
      (front = [] ∨ (∃ entry ∈ es, ∃ rest, front = entry ++ ';' :: rest) ∧
        ∃ rest, front = rest ++ [';']) := by
  induction es generalizing path with
  | nil => exact ⟨[], rfl, by simp, .inl rfl⟩
  | cons entry es ih =>
      obtain ⟨front, hfront, hchars, hends⟩ := ih (prependMissing path entry)
      show ∃ front, prependAll (prependMissing path entry) es = front ++ path ∧ _
      by_cases hheld : entry <:+: path
      · rw [prependMissing, if_pos hheld] at hfront ⊢
        refine ⟨front, hfront, fun c hc => (hchars c hc).imp_right fun ⟨e, he, hce⟩ =>
          ⟨e, List.mem_cons_of_mem _ he, hce⟩, hends.imp_right fun ⟨⟨e, he, hstart⟩, hlast⟩ =>
            ⟨⟨e, List.mem_cons_of_mem _ he, hstart⟩, hlast⟩⟩
      · rw [prependMissing, if_neg hheld] at hfront ⊢
        refine ⟨front ++ (entry ++ [';']), by simp [hfront], fun c hc => ?_, .inr ⟨?_, ?_⟩⟩
        · simp only [List.mem_append, List.mem_singleton] at hc
          rcases hc with hc | hc | hc
          · exact (hchars c hc).imp_right fun ⟨e, he, hce⟩ => ⟨e, List.mem_cons_of_mem _ he, hce⟩
          · exact .inr ⟨entry, List.mem_cons_self, hc⟩
          · exact .inl hc
        · rcases hends with rfl | ⟨⟨e, he, rest, rfl⟩, -⟩
          · exact ⟨entry, List.mem_cons_self, [], rfl⟩
          · exact ⟨e, List.mem_cons_of_mem _ he, rest ++ (entry ++ [';']), by simp⟩
        · exact ⟨front ++ entry, by simp⟩

/-! ## The junctions -/

variable {env : Env} {form : Form} {m : Machine} {path : Text}

theorem mem_junctions (cli : Cli) : Cli.junction env cli ∈ junctions env := by
  cases cli <;> simp [junctions]

theorem savePath_eq : savePath env path = prependAll path (junctions env) := rfl

theorem mark_mem_junction_iff (cli : Cli) : ';' ∈ Cli.junction env cli ↔ ';' ∈ env.binPath := by
  cases cli <;> simp [Cli.junction, Instance.phpJunction]

theorem separate_junctions (h : ';' ∉ env.binPath) : Separate (junctions env) := by
  constructor
  · intro entry hentry
    simp only [junctions, List.mem_cons, List.not_mem_nil, or_false] at hentry
    rcases hentry with rfl | rfl | rfl <;> rwa [mark_mem_junction_iff]
  · have hlength : ∀ cli, (Cli.junction env cli).length =
        env.binPath.length + if cli = .php then 5 else 7 := by
      intro cli
      cases cli <;> simp [Cli.junction, Instance.phpJunction]
    have hlong : ∀ cli, cli ≠ .php →
        ¬ Cli.junction env cli <:+: Cli.junction env .php := by
      intro cli hne hheld
      have hle := hheld.length_le
      rw [hlength, hlength, if_neg hne, if_pos rfl] at hle
      omega
    have hsame : ¬ Cli.junction env .pgsql <:+: Cli.junction env .mysql := fun hheld => by
      have heq := hheld.eq_of_length (by rw [hlength, hlength]; rfl)
      exact absurd (junction_injective heq) (by decide)
    simp only [junctions, List.pairwise_cons, List.mem_cons, List.not_mem_nil, or_false,
      forall_eq_or_imp, forall_eq, false_imp_iff, implies_true, List.Pairwise.nil, and_true]
    exact ⟨⟨hlong .mysql (by decide), hlong .pgsql (by decide)⟩, hsame⟩

theorem entries_savePath (h : ';' ∉ env.binPath) : entries (savePath env path) =
    ((junctions env).filter (¬ · <:+: path)).reverse ++ entries path :=
  entries_prependAll (separate_junctions h) path

/-- Saving twice is saving once. -/
theorem savePath_savePath : savePath env (savePath env path) = savePath env path := by
  rw [savePath_eq, savePath_eq]
  exact prependAll_of_infix fun _ hentry => infix_prependAll hentry path

/-! ## The text that is set -/

theorem plain_junction (h : Installed env) (cli : Cli) : ∀ c ∈ Cli.junction env cli,
    Cmd.isPlain Util.separates c = true ∧ c ≠ '%' := by
  have hnames : ∀ c ∈ "\\bin".toList ++ ("\\.php".toList ++ ("\\.mysql".toList ++
      "\\.pgsql".toList)), Cmd.isPlain Util.separates c = true ∧ c ≠ '%' := by decide
  have hpath : ∀ c ∈ env.wampPath, Cmd.isPlain Util.separates c = true ∧ c ≠ '%' :=
    fun c hc => ⟨h.plain c hc, fun heq => h.no_percent (heq ▸ hc)⟩
  simp only [List.forall_mem_append] at hnames
  obtain ⟨hbin, hphp, hmysql, hpgsql⟩ := hnames
  cases cli <;>
    simp only [Cli.junction, Instance.phpJunction, Env.binPath, List.forall_mem_append]
  · exact ⟨⟨hpath, hbin⟩, hphp⟩
  · exact ⟨⟨hpath, hbin⟩, hmysql⟩
  · exact ⟨⟨hpath, hbin⟩, hpgsql⟩

theorem not_mem_binPath (h : Installed env) : ';' ∉ env.binPath := by
  intro hmem
  have hplain := plain_junction h .mysql ';' (List.mem_append_left _ hmem)
  exact absurd hplain.1 (by decide)

theorem head?_junction (h : Installed env) (cli : Cli) (rest : Text) :
    ∀ c ∈ (Cli.junction env cli ++ rest).head?, isWhite c = false := by
  intro c hc
  cases hpath : env.wampPath with
  | nil =>
      have hslash : (Cli.junction env cli ++ rest).head? = some '\\' := by
        cases cli <;> simp [Cli.junction, Instance.phpJunction, Env.binPath, hpath]
      obtain rfl := Option.some.inj (hslash.symm.trans hc)
      decide
  | cons d t =>
      have hfirst : (Cli.junction env cli ++ rest).head? = some d := by
        cases cli <;> simp [Cli.junction, Instance.phpJunction, Env.binPath, hpath]
      obtain rfl := Option.some.inj (hfirst.symm.trans hc)
      exact h.start d (by rw [hpath]; rfl)

theorem cli_of_mem_junctions {entry : Text} (h : entry ∈ junctions env) :
    ∃ cli, entry = Cli.junction env cli := by
  simp only [junctions, List.mem_cons, List.not_mem_nil, or_false] at h
  rcases h with h | h | h
  · exact ⟨_, h⟩
  · exact ⟨_, h⟩
  · exact ⟨_, h⟩

theorem nodup_missing (h : ';' ∉ env.binPath) :
    ((junctions env).filter (¬ · <:+: path)).Nodup :=
  ((separate_junctions h).2.imp fun hfree heq =>
    hfree (List.IsSuffix.isInfix ⟨[], heq.symm⟩)).filter _

/-- The text that is set is the path behind junctions without blanks. -/
theorem exists_savePath (h : Installed env) (path : Text) :
    ∃ front, savePath env path = front ++ path ∧
      (∀ c ∈ front, Cmd.isSpecial c = false ∧ c ≠ '%' ∧ c ≠ ' ' ∧ c ≠ '\t') ∧
      (front = [] ∨ (∀ rest, ∀ c ∈ (front ++ rest).head?, isWhite c = false) ∧
        ∃ rest, front = rest ++ [';']) := by
  obtain ⟨front, hfront, hchars, hends⟩ := exists_front path (junctions env)
  refine ⟨front, hfront, fun c hc => ?_, hends.imp_right fun ⟨⟨entry, hentry, rest, hrest⟩,
    hlast⟩ => ⟨fun more => ?_, hlast⟩⟩
  · rcases hchars c hc with rfl | ⟨entry, hentry, hc⟩
    · decide
    · obtain ⟨cli, rfl⟩ := cli_of_mem_junctions hentry
      obtain ⟨hplain, hpercent⟩ := plain_junction h cli c hc
      obtain ⟨hspecial, hseparates⟩ := Cmd.isPlain_iff.mp hplain
      refine ⟨hspecial, hpercent, ?_, ?_⟩
      · rintro rfl
        cases hseparates
      · rintro rfl
        cases hseparates
  · obtain ⟨cli, rfl⟩ := cli_of_mem_junctions hentry
    rw [hrest, List.append_assoc]
    exact head?_junction h cli _

/-- A text that holds all junctions is set as it is. -/
theorem savePath_eq_self_iff : savePath env path = path ↔ ∀ cli, Cli.junction env cli <:+: path := by
  constructor
  · intro h cli
    have hheld := infix_prependAll (@mem_junctions env cli) path
    rwa [← savePath_eq, h] at hheld
  · intro h
    rw [savePath_eq]
    refine prependAll_of_infix fun entry hentry => ?_
    obtain ⟨cli, rfl⟩ := cli_of_mem_junctions hentry
    exact h cli

theorem savePath_ne_nil : savePath env path ≠ [] := by
  intro hnil
  have hheld := infix_prependAll (@mem_junctions env .php) path
  rw [← savePath_eq, hnil, List.infix_nil] at hheld
  exact absurd hheld (by simp [Cli.junction, Instance.phpJunction])

theorem quote_not_mem_savePath (h : Installed env) (hbare : Bare path) :
    '"' ∉ savePath env path := by
  obtain ⟨front, hfront, hchars, -⟩ := exists_savePath h path
  rw [hfront, List.mem_append, not_or]
  constructor
  · exact fun hmem => Bool.noConfusion (hchars _ hmem).1
  · exact fun hmem => Bool.noConfusion (hbare.plain _ hmem)

/-- The text that is set has single blanks exactly if the path has. -/
theorem tidy_savePath_iff (h : Installed env) : Tidy (savePath env path) ↔ Single env path := by
  obtain ⟨front, hfront, hchars, hends⟩ := exists_savePath h path
  have htabs : '\t' ∉ front := fun hmem => (hchars _ hmem).2.2.2 rfl
  have hblank : ' ' ∉ front := fun hmem => (hchars _ hmem).2.2.1 rfl
  have hblanks : [' ', ' '] <:+: front ++ path ↔ [' ', ' '] <:+: path := by
    rcases hends with rfl | ⟨-, rest, rfl⟩
    · rfl
    · have hnone : ¬ [' ', ' '] <:+: rest := fun hheld =>
        hblank (List.mem_append_left _ (hheld.subset List.mem_cons_self))
      rw [List.append_assoc, List.singleton_append, infix_append_cons_iff (by decide)]
      exact or_iff_right hnone
  have hlast : (∀ c ∈ (front ++ path).getLast?, isWhite c = false) ↔
      ∀ c ∈ path.getLast?, isWhite c = false := by
    cases path with
    | cons d path => rw [List.getLast?_append_of_ne_nil _ (List.cons_ne_nil _ _)]
    | nil =>
        rcases hends with rfl | ⟨-, rest, rfl⟩
        · rfl
        · have hmark : isWhite ';' = false := by decide
          simp [hmark]
  have hstart : (∀ c ∈ (front ++ path).head?, isWhite c = false) ↔
      ((∀ cli, Cli.junction env cli <:+: path) → ∀ c ∈ path.head?, isWhite c = false) := by
    have hheld : (∀ cli, Cli.junction env cli <:+: path) ↔ front = [] := by
      rw [← savePath_eq_self_iff, hfront]
      exact List.append_left_eq_self
    rw [hheld]
    rcases hends with rfl | ⟨hhead, rest, rfl⟩
    · simp
    · exact iff_of_true (hhead path) fun hnil => absurd hnil (by simp)
  rw [hfront]
  constructor
  · rintro ⟨htab, hnone, hfirst, hend⟩
    exact ⟨fun hmem => htab (List.mem_append_right _ hmem), fun hheld => hnone (hblanks.mpr hheld),
      hstart.mp hfirst, hlast.mp hend⟩
  · rintro ⟨htab, hnone, hfirst, hend⟩
    exact ⟨fun hmem => (List.mem_append.mp hmem).elim htabs htab,
      fun hheld => hnone (hblanks.mp hheld), hstart.mpr hfirst, hlast.mpr hend⟩

/-- The line is as long as the line with the path and what is put in front of it. -/
theorem fits_iff (h : Installed env) :
    Fits env path ↔ ¬ maxLine < (line env (savePath env path)).length := by
  have hcount : ∀ t : Text, (t.map fun _ => 1).sum = t.length := fun t => by simp
  have hsum := sum_entries (fun _ => 1) (savePath env path)
  have hold := sum_entries (fun _ => 1) path
  rw [entries_savePath (not_mem_binPath h), List.map_append, List.sum_append, hold,
    List.map_reverse, List.sum_reverse] at hsum
  simp only [hcount] at hsum
  have hfront : (((junctions env).filter (¬ · <:+: path)).map (·.length + 1)).sum +
      (path.length + 1) = (savePath env path).length + 1 := hsum
  have hlength : (line env (savePath env path)).length + path.length =
      (line env path).length + (savePath env path).length := by
    simp only [line, List.length_append]
    omega
  unfold Fits
  omega

/-- What a save leaves. -/
theorem path_saveAll (sh : Interpreter) (h : Installed env) (hbare : Bare path) :
    (saveAll sh env form (m, path)).2 =
      if Fits env path then passed (savePath env path) else path := by
  obtain ⟨front, hfront, hchars, -⟩ := exists_savePath h path
  have hset := PathSet.pathSet_of_bare sh h (fun hmem => (hchars _ hmem).2.1 rfl)
    (fun c hc => (hchars c hc).1) hbare path
  rw [← hfront] at hset
  show pathSet sh env (savePath env path) path = _
  rw [hset]
  by_cases hfits : Fits env path
  · rw [if_pos hfits, if_neg ((fits_iff h).mp hfits)]
  · rw [if_neg hfits, if_pos (by rwa [fits_iff h, not_not] at hfits)]

/-- A path with the junctions and the old entries weighs no less than the text that is set. -/
theorem weight_savePath_le (h : Installed env) {new : Text}
    (hcomplete : ∀ cli, Cli.junction env cli ∈ entries new)
    (hkept : (entries path).Sublist (entries new)) : weight (savePath env path) ≤ weight new := by
  have hnodup : (((junctions env).filter (¬ · <:+: path)).reverse).Nodup :=
    List.nodup_reverse.mpr (nodup_missing (not_mem_binPath h))
  have hsub : (entries (savePath env path)).Subperm (entries new) := by
    rw [entries_savePath (not_mem_binPath h), List.subperm_ext_iff]
    intro entry _
    have hle := hkept.count_le entry
    rw [List.count_append]
    by_cases hmem : entry ∈ ((junctions env).filter (¬ · <:+: path)).reverse
    · have hone := List.nodup_iff_count_le_one.mp hnodup entry
      rw [List.mem_reverse, List.mem_filter] at hmem
      obtain ⟨cli, rfl⟩ := cli_of_mem_junctions hmem.1
      have hzero : (entries path).count (Cli.junction env cli) = 0 :=
        List.count_eq_zero.mpr fun hin => of_decide_eq_true hmem.2 (infix_of_mem_entries hin)
      have hpos := List.count_pos_iff.mpr (hcomplete cli)
      omega
    · rw [List.count_eq_zero.mpr hmem]
      omega
  obtain ⟨kept, hperm, hsublist⟩ := hsub
  have hsum := (hsublist.map fun entry => weight entry + 1).sum_le_sum fun _ _ => Nat.zero_le _
  have hsame := (hperm.map fun entry => weight entry + 1).sum_eq
  have hold := sum_entries (fun c => if c = '\t' then 2 else 1) (savePath env path)
  have hnew := sum_entries (fun c => if c = '\t' then 2 else 1) new
  change _ = weight (savePath env path) + 1 at hold
  change _ = weight new + 1 at hnew
  change ((entries (savePath env path)).map fun entry => weight entry + 1).sum = _ at hold
  change ((entries new).map fun entry => weight entry + 1).sum = _ at hnew
  omega

/-! ## Saving -/

theorem path_saveAll_of_single (sh : Interpreter) (h : Installed env) (hbare : Bare path)
    (hfits : Fits env path) (hsingle : Single env path) :
    (saveAll sh env form (m, path)).2 = savePath env path := by
  rw [path_saveAll sh h hbare, if_pos hfits]
  exact PathSet.passed_of_tidy savePath_ne_nil (quote_not_mem_savePath h hbare)
    ((tidy_savePath_iff h).mpr hsingle)

/-- What was set holds the junctions, and it is set again as it is. -/
theorem settled_savePath (sh : Interpreter) {m' : Machine} (h : Installed env) (hbare : Bare path)
    (hfits : Fits env path) (hsingle : Single env path) :
    (saveAll sh env form (m', savePath env path)).2 = savePath env path := by
  obtain ⟨front, hfront, hchars, -⟩ := exists_savePath h path
  have hset := PathSet.pathSet_of_bare sh h (fun hmem => (hchars _ hmem).2.1 rfl)
    (fun c hc => (hchars c hc).1) hbare (savePath env path)
  have hpassed := @path_saveAll_of_single _ form m' _ sh h hbare hfits hsingle
  rw [path_saveAll sh h hbare, if_pos hfits] at hpassed
  rw [← hfront, if_neg ((fits_iff h).mp hfits), hpassed] at hset
  show pathSet sh env (savePath env (savePath env path)) (savePath env path) = _
  rw [savePath_savePath, hset]

/-- With single blanks the text arrives, and the path is kept if every junction is an entry
of it or not held by it at all. -/
theorem keepsPath_of_single (sh : Interpreter) (h : Installed env) (hbare : Bare path)
    (hfits : Fits env path) (hsingle : Single env path)
    (hheld : ∀ cli, Cli.junction env cli ∈ entries path ∨ ¬ Cli.junction env cli <:+: path) :
    KeepsPath sh env form m path := by
  have hmark := not_mem_binPath h
  have hset : (saveAll sh env form (m, path)).2 = savePath env path :=
    path_saveAll_of_single sh h hbare hfits hsingle
  have hsplit := @entries_savePath _ path hmark
  refine ⟨fun cli => ?_, ?_, fun entry => ?_, ?_⟩
  · rw [hset, hsplit, List.mem_append, List.mem_reverse, List.mem_filter]
    exact (hheld cli).elim .inr fun h => .inl ⟨mem_junctions cli, decide_eq_true h⟩
  · rw [hset, hsplit]
    exact List.sublist_append_right _ _
  · rw [hset, hsplit, List.count_append, List.count_reverse]
    have hle := List.nodup_iff_count_le_one.mp (@nodup_missing _ path hmark) entry
    by_cases hmem : entry ∈ entries path
    · have hnone : ((junctions env).filter (¬ · <:+: path)).count entry = 0 := by
        rw [List.count_eq_zero, List.mem_filter]
        exact fun h => of_decide_eq_true h.2 (infix_of_mem_entries hmem)
      omega
    · have hnone := List.count_eq_zero.mpr hmem
      omega
  · have htwice := @settled_savePath _ form _ sh (save env form m) h hbare hfits hsingle
    show (saveAll sh env form (save env form m, (saveAll sh env form (m, path)).2)).2 = _
    rw [hset, htwice]

/-- If the line fits, a save keeps the path exactly if it has single blanks and every junction
is an entry of it or not held by it at all; otherwise nothing is set, and every junction
has to be an entry already. -/
theorem keepsPath_iff (sh : Interpreter) (h : Installed env) (hbare : Bare path) :
    KeepsPath sh env form m path ↔
      if Fits env path then
        Single env path ∧
          ∀ cli, Cli.junction env cli ∈ entries path ∨ ¬ Cli.junction env cli <:+: path
      else ∀ cli, Cli.junction env cli ∈ entries path := by
  have hset := @path_saveAll _ form m _ sh h hbare
  split
  · rename_i hfits
    rw [if_pos hfits] at hset
    constructor
    · intro hkeeps
      have hweight := weight_savePath_le h hkeeps.complete hkeeps.kept
      rw [hset] at hweight
      have htidy := PathSet.tidy_of_weight_le savePath_ne_nil (quote_not_mem_savePath h hbare)
        hweight
      have hsingle := (tidy_savePath_iff h).mp htidy
      have hsame := @path_saveAll_of_single _ form m _ sh h hbare hfits hsingle
      refine ⟨hsingle, fun cli => ?_⟩
      have hmem := hkeeps.complete cli
      rw [hsame, entries_savePath (not_mem_binPath h), List.mem_append, List.mem_reverse,
        List.mem_filter] at hmem
      exact hmem.elim (fun h => .inr (of_decide_eq_true h.2)) .inl
    · rintro ⟨hsingle, hheld⟩
      exact keepsPath_of_single sh h hbare hfits hsingle hheld
  · rename_i hfits
    rw [if_neg hfits] at hset
    constructor
    · intro hkeeps cli
      have hmem := hkeeps.complete cli
      rwa [hset] at hmem
    · intro hall
      have hagain := @path_saveAll _ form (save env form m) _ sh h hbare
      rw [if_neg hfits] at hagain
      refine ⟨fun cli => ?_, ?_, fun entry => ?_, ?_⟩
      · rw [hset]
        exact hall cli
      · rw [hset]
      · rw [hset]
        exact le_max_left _ _
      · show (saveAll sh env form (save env form m, (saveAll sh env form (m, path)).2)).2 = _
        rw [hset, hagain]

/-- An interpreter without variables. -/
def sampleInterpreter : Interpreter := ⟨fun _ => none, fun _ old => old⟩

/-- A path with a blank in it, and the PHP junction as an entry of its own. -/
theorem keepsPath_sample : KeepsPath sampleInterpreter Site.sampleEnv sampleForm sampleMachine
    "C:\\Program Files\\Git\\cmd;C:\\wamp\\bin\\.php;C:\\Windows".toList := by
  refine (keepsPath_iff sampleInterpreter (by decide) (by decide)).mpr ?_
  rw [if_pos (by decide)]
  refine ⟨⟨by decide, by decide, fun _ => ?_, by decide⟩, ?_⟩
  · decide
  · intro cli
    cases cli <;> decide

/-- A longer entry that holds the text of a junction keeps the junction out. -/
theorem longer_entry_counted : ¬ KeepsPath sampleInterpreter Site.sampleEnv sampleForm
    sampleMachine "C:\\wamp\\bin\\.php-old;C:\\Windows".toList := by
  intro h
  have hmem := h.complete .php
  rw [path_saveAll sampleInterpreter (by decide) (by decide), if_pos (by decide)] at hmem
  exact absurd hmem (by decide +kernel)

end Settings

end WampManager
