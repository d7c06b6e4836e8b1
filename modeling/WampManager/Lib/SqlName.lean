/-
# Names in statements

How a database server reads the name of a database in a statement: an unquoted name
goes as far as its characters do, is folded, and is none if it is a number or a reserved
word; a quoted one ends at the next quote that is not doubled. What servers and their
settings differ in is a parameter, with the laws that a name relies on.
-/

import Mathlib.Algebra.BigOperators.Group.List.Basic
import Mathlib.Algebra.GroupWithZero.Nat
import WampManager.Lib.Text

namespace SqlName

/-- The two families of servers. -/
inductive Dialect
  | mysql
  | pgsql
  deriving DecidableEq

namespace Dialect

/-- The characters of an unquoted name. -/
def isNameChar (dialect : Dialect) (c : Char) : Bool :=
  c.isAlphanum || c == '_' || c == '$' ||
    (128 ≤ c.toNat && (dialect == .pgsql || c.toNat < 0x10000))

/-- The quote of a name. -/
def quote : Dialect → Char
  | .mysql => '`'
  | .pgsql => '"'

/-- What is left of a name that is too long: MySQL refuses it, PostgreSQL cuts it off. -/
def keep : Dialect → Text → Option Text
  | .mysql, t => if t.length ≤ 64 then some t else none
  | .pgsql, t => some (clip 63 t)
where
  /-- The characters that fit into a number of bytes. -/
  clip : ℕ → Text → Text
    | _, [] => []
    | room, c :: t => if c.utf8Size ≤ room then c :: clip (room - c.utf8Size) t else []

/-- A name that is not too long. -/
def fits : Dialect → Text → Bool
  | .mysql, t => t.length ≤ 64
  | .pgsql, t => (t.map Char.utf8Size).sum ≤ 63

end Dialect

/-- A hexadecimal digit. -/
def isHex (c : Char) : Bool := c.isDigit || ('a' ≤ c && c ≤ 'f') || ('A' ≤ c && c ≤ 'F')

/-- What MySQL takes for a number rather than a name that begins with a digit. -/
def isNumber (w : Text) : Bool :=
  match w.dropWhile Char.isDigit with
  | [] => true
  | c :: rest =>
      (w.head?.any Char.isDigit && (c == 'e' || c == 'E') && rest.head?.any Char.isDigit) ||
      (w.take 2 == ['0', 'x'] && w.drop 2 != [] && (w.drop 2).all isHex) ||
      (w.take 2 == ['0', 'b'] && w.drop 2 != [] && (w.drop 2).all fun c => c == '0' || c == '1')

/-- A server with its settings. -/
structure Server where
  dialect : Dialect
  /-- What becomes of the capitals of an unquoted name. -/
  fold : Char → Char
  fold_pgsql : dialect = .pgsql → fold = Char.toLower
  /-- The reserved words, in small letters. -/
  reserved : Text → Bool
  /-- What is left of a text behind blanks and comments. -/
  gap : Text → Text
  gap_suffix : ∀ t, gap t <:+ t
  gap_solid : ∀ c t, dialect.isNameChar c = true ∨ c = ';' → gap (c :: t) = c :: t
  /-- May a statement go on like this behind the name, to its end and no further? -/
  ends : Text → Bool
  ends_semicolon : ends [';'] = true

namespace Server

variable (s : Server)

/-- A word that is a name as it stands. -/
def isUnquoted (w : Text) : Bool :=
  w != [] && !s.reserved (Text.lower w) &&
    match s.dialect with
    | .mysql => !isNumber w
    | .pgsql => !w.head?.any fun c => c.isDigit || c == '$'

/-- Read a quoted name from behind its quote. -/
def readQuoted (quote : Char) : Text → Option (Text × Text)
  | [] => none
  | [c] => if c = quote then some ([], []) else none
  | c :: c' :: t =>
      if c = quote then
        if c' = quote then (readQuoted quote t).map fun p => (quote :: p.1, p.2)
        else some ([], c' :: t)
      else (readQuoted quote (c' :: t)).map fun p => (c :: p.1, p.2)

/-- Read a name; what is left is what stands behind it. -/
def readName (t : Text) : Option (Text × Text) :=
  if t.head? = some s.dialect.quote then readQuoted s.dialect.quote t.tail
  else
    let w := t.takeWhile s.dialect.isNameChar
    if s.isUnquoted w then some (w.map s.fold, t.dropWhile s.dialect.isNameChar) else none

/-- Go on behind a word and the gap that follows, if the word stands there. -/
def behind (w t : Text) : Option Text :=
  if Text.lower (t.takeWhile s.dialect.isNameChar) = w then
    some (s.gap (t.dropWhile s.dialect.isNameChar))
  else none

/-- Go on behind the gap and, on MySQL, behind `IF NOT EXISTS`. -/
def start (t : Text) : Text :=
  match s.dialect with
  | .pgsql => s.gap t
  | .mysql =>
      (((s.behind "if".toList (s.gap t)).bind (s.behind "not".toList)).bind
        (s.behind "exists".toList)).getD (s.gap t)

/-- The name of the database that a text creates, if it is one such statement. -/
def created (sql : Text) : Option Text :=
  if "CREATE DATABASE ".toList <+: sql then
    (s.readName (s.start (sql.drop "CREATE DATABASE ".toList.length))).bind fun p =>
      if s.ends (s.gap p.2) then s.dialect.keep p.1 else none
  else none

/-- A text that names itself wherever a name stands. -/
structure Names (name : Text) : Prop where
  chars : ∀ c ∈ name, s.dialect.isNameChar c = true
  unquoted : s.isUnquoted name = true
  folded : name.map s.fold = name
  fits : s.dialect.fits name = true

end Server

/-! ## Long names -/

theorem clip_prefix (room : ℕ) (t : Text) : Dialect.keep.clip room t <+: t := by
  induction t generalizing room with
  | nil => exact List.prefix_rfl
  | cons c t ih =>
      rw [Dialect.keep.clip]
      split
      · exact List.prefix_cons_inj c |>.mpr (ih _)
      · exact List.nil_prefix

theorem clip_eq_iff (room : ℕ) (t : Text) :
    Dialect.keep.clip room t = t ↔ (t.map Char.utf8Size).sum ≤ room := by
  induction t generalizing room with
  | nil => simp [Dialect.keep.clip]
  | cons c t ih =>
      rw [Dialect.keep.clip, List.map_cons, List.sum_cons]
      split
      · rw [List.cons.injEq, ih]
        constructor
        · rintro ⟨-, h⟩
          omega
        · exact fun h => ⟨rfl, by omega⟩
      · constructor
        · exact fun h => nomatch h
        · intro h
          omega

namespace Dialect

theorem prefix_of_keep {dialect : Dialect} {t name : Text} (h : dialect.keep t = some name) :
    name <+: t := by
  cases dialect with
  | mysql =>
      rw [keep, Option.ite_none_right_eq_some, Option.some.injEq] at h
      obtain ⟨-, rfl⟩ := h
      exact List.prefix_rfl
  | pgsql =>
      obtain rfl : keep.clip 63 t = name := Option.some.inj h
      exact clip_prefix 63 t

theorem length_le_of_keep {dialect : Dialect} {t name : Text} (h : dialect.keep t = some name) :
    name.length ≤ t.length := (prefix_of_keep h).length_le

theorem keep_self_iff (dialect : Dialect) (t : Text) :
    dialect.keep t = some t ↔ dialect.fits t = true := by
  cases dialect with
  | mysql => simp [keep, fits]
  | pgsql =>
      rw [keep, Option.some.injEq, clip_eq_iff, fits, decide_eq_true_eq]

theorem not_isNameChar_semicolon (dialect : Dialect) : dialect.isNameChar ';' = false := by
  cases dialect <;> decide

theorem not_isNameChar_quote (dialect : Dialect) : dialect.isNameChar dialect.quote = false := by
  cases dialect <;> decide

end Dialect

namespace Server

variable {s : Server}

/-! ## What is left behind -/

/-- A quoted name is shorter than what is read for it. -/
theorem length_readQuoted {quote : Char} {t name rest : Text}
    (h : readQuoted quote t = some (name, rest)) : name.length + 1 ≤ t.length := by
  fun_induction readQuoted quote t generalizing name rest with
  | case1 => cases h
  | case2 => simp_all
  | case3 => cases h
  | case4 t ih =>
      obtain ⟨p, hp, hpair⟩ := Option.map_eq_some_iff.mp h
      have hle := @ih p.1 p.2 hp
      have hname : name = quote :: p.1 := (Prod.mk.inj hpair).1.symm
      rw [hname, List.length_cons, List.length_cons, List.length_cons]
      omega
  | case5 => simp_all
  | case6 c c' t hquote ih =>
      obtain ⟨p, hp, hpair⟩ := Option.map_eq_some_iff.mp h
      have hle := @ih p.1 p.2 hp
      have hname : name = c :: p.1 := (Prod.mk.inj hpair).1.symm
      rw [hname, List.length_cons, List.length_cons]
      omega

theorem behind_suffix {w t u : Text} (h : s.behind w t = some u) : u <:+ t := by
  rw [behind, Option.ite_none_right_eq_some, Option.some.injEq] at h
  rw [← h.2]
  exact (s.gap_suffix _).trans (List.dropWhile_suffix _)

theorem start_suffix (t : Text) : s.start t <:+ t := by
  unfold start
  split
  · exact s.gap_suffix t
  · cases hbehind : ((s.behind "if".toList (s.gap t)).bind (s.behind "not".toList)).bind
        (s.behind "exists".toList) with
    | none => exact s.gap_suffix t
    | some u =>
        obtain ⟨b, hb, hu⟩ := Option.bind_eq_some_iff.mp hbehind
        obtain ⟨a, ha, hab⟩ := Option.bind_eq_some_iff.mp hb
        exact (behind_suffix hu).trans
          ((behind_suffix hab).trans ((behind_suffix ha).trans (s.gap_suffix t)))

/-- A word with a semicolon behind it is where the name starts. -/
theorem start_of_chars {name : Text} (hne : name ≠ [])
    (h : ∀ c ∈ name, s.dialect.isNameChar c = true) : s.start (name ++ [';']) = name ++ [';'] := by
  have hgap : s.gap (name ++ [';']) = name ++ [';'] := by
    cases name with
    | nil => exact absurd rfl hne
    | cons c name => exact s.gap_solid c _ (.inl (h c List.mem_cons_self))
  have hdrop : (name ++ [';']).dropWhile s.dialect.isNameChar = [';'] := by
    rw [List.dropWhile_append_of_pos h]
    simp [s.dialect.not_isNameChar_semicolon]
  have hnot : ∀ t, t <:+ [';'] → s.behind "not".toList t = none := by
    intro t ht
    have hword : t.takeWhile s.dialect.isNameChar = [] := by
      cases t with
      | nil => rfl
      | cons c t =>
          obtain rfl : c = ';' := List.mem_singleton.mp (ht.subset List.mem_cons_self)
          simp [s.dialect.not_isNameChar_semicolon]
    rw [behind, hword]
    exact if_neg (by decide)
  unfold start
  split
  · exact hgap
  · rw [hgap, behind, hdrop]
    split
    · rw [Option.bind_some, hnot _ (s.gap_suffix _), Option.bind_none, Option.getD_none]
    · rfl

/-- The name of a word with a semicolon behind it. -/
theorem readName_of_chars {name : Text} (hne : name ≠ [])
    (h : ∀ c ∈ name, s.dialect.isNameChar c = true) :
    s.readName (name ++ [';']) =
      if s.isUnquoted name then some (name.map s.fold, [';']) else none := by
  have htake : (name ++ [';']).takeWhile s.dialect.isNameChar = name := by
    rw [List.takeWhile_append_of_pos h]
    simp [s.dialect.not_isNameChar_semicolon]
  have hdrop : (name ++ [';']).dropWhile s.dialect.isNameChar = [';'] := by
    rw [List.dropWhile_append_of_pos h]
    simp [s.dialect.not_isNameChar_semicolon]
  have hhead : (name ++ [';']).head? ≠ some s.dialect.quote := by
    cases name with
    | nil => exact absurd rfl hne
    | cons c name =>
        intro heq
        have hc := h c List.mem_cons_self
        obtain rfl : c = s.dialect.quote := Option.some.inj heq
        rw [s.dialect.not_isNameChar_quote] at hc
        cases hc
  rw [readName, if_neg hhead, htake, hdrop]

/-- A piece that has no semicolon and the length of the text in front of the last one
is that text. -/
theorem eq_of_suffix {name w t : Text} (hne : w ≠ []) (hw : ';' ∉ w) (hbegin : w <+: t)
    (hsuffix : t <:+ name ++ [';']) (hlength : name.length ≤ w.length) : w = name := by
  obtain ⟨back, rfl⟩ := hbegin
  obtain ⟨front, heq⟩ := hsuffix
  have hsum := congrArg List.length heq
  simp only [List.length_append, List.length_singleton] at hsum
  rcases List.eq_nil_or_concat back with rfl | ⟨back, c, rfl⟩
  · rw [List.append_nil] at heq
    obtain ⟨w, c, rfl⟩ := (List.eq_nil_or_concat w).resolve_left hne
    rw [List.concat_eq_append, ← List.append_assoc] at heq
    obtain ⟨-, hlast⟩ := List.append_inj' heq rfl
    obtain rfl := (List.cons.inj hlast).1
    exact absurd (by simp) hw
  · rw [List.concat_eq_append, ← List.append_assoc, ← List.append_assoc] at heq
    obtain ⟨hall, -⟩ := List.append_inj' heq rfl
    simp only [List.concat_eq_append, List.length_append, List.length_singleton] at hsum
    obtain rfl : front = [] := List.eq_nil_of_length_eq_zero (by omega)
    obtain rfl : back = [] := List.eq_nil_of_length_eq_zero (by omega)
    simpa using hall

/-- A statement creates the database with the name that is put into it exactly if the
name names itself. -/
theorem created_iff (s : Server) (name : Text) :
    s.created ("CREATE DATABASE ".toList ++ name ++ [';']) = some name ↔ s.Names name := by
  have hsql : s.created ("CREATE DATABASE ".toList ++ name ++ [';']) =
      (s.readName (s.start (name ++ [';']))).bind fun p =>
        if s.ends (s.gap p.2) then s.dialect.keep p.1 else none := by
    rw [created, List.append_assoc, if_pos (List.prefix_append _ _), List.drop_left]
  rw [hsql]
  constructor
  · intro h
    obtain ⟨⟨read, rest⟩, hread, hkeep⟩ := Option.bind_eq_some_iff.mp h
    rw [Option.ite_none_right_eq_some] at hkeep
    have hlength : name.length ≤ read.length := Dialect.length_le_of_keep hkeep.2
    have hsuffix := start_suffix (s := s) (name ++ [';'])
    have hshort := hsuffix.length_le
    rw [List.length_append, List.length_singleton] at hshort
    unfold readName at hread
    split at hread
    · next hquote =>
        have hquoted := length_readQuoted hread
        have htail : (s.start (name ++ [';'])).tail.length + 1 =
            (s.start (name ++ [';'])).length := by
          cases hs : s.start (name ++ [';']) with
          | nil => rw [hs] at hquote; cases hquote
          | cons c t => rfl
        omega
    · obtain ⟨hunquoted, hpair⟩ := Option.ite_none_right_eq_some.mp hread
      obtain ⟨rfl, -⟩ := Prod.mk.inj (Option.some.inj hpair)
      have hchars : ∀ c ∈ (s.start (name ++ [';'])).takeWhile s.dialect.isNameChar,
          s.dialect.isNameChar c = true := fun c hc => List.mem_takeWhile_imp hc
      have hsemicolon : ';' ∉ (s.start (name ++ [';'])).takeWhile s.dialect.isNameChar := by
        intro hmem
        have hc := hchars ';' hmem
        rw [s.dialect.not_isNameChar_semicolon] at hc
        cases hc
      have hne : (s.start (name ++ [';'])).takeWhile s.dialect.isNameChar ≠ [] := by
        intro hnil
        rw [isUnquoted, hnil] at hunquoted
        simp at hunquoted
      rw [List.length_map] at hlength
      have hself := eq_of_suffix hne hsemicolon (List.takeWhile_prefix _) hsuffix hlength
      rw [hself] at hchars hunquoted hkeep
      have hfolded : name.map s.fold = name :=
        ((Dialect.prefix_of_keep hkeep.2).eq_of_length (by simp)).symm
      rw [hfolded] at hkeep
      exact ⟨hchars, hunquoted, hfolded, (s.dialect.keep_self_iff name).mp hkeep.2⟩
  · rintro ⟨hchars, hunquoted, hfolded, hfits⟩
    have hne : name ≠ [] := by
      rintro rfl
      simp [isUnquoted] at hunquoted
    have hgap : s.ends (s.gap [';']) = true := by
      rw [s.gap_solid ';' [] (.inr rfl)]
      exact s.ends_semicolon
    rw [start_of_chars hne hchars, readName_of_chars hne hchars, if_pos hunquoted, hfolded,
      Option.bind_some, if_pos hgap]
    exact (s.dialect.keep_self_iff name).mpr hfits

end Server

end SqlName
