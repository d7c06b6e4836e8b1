/-
# Literals between quotes

How a database server reads the text behind an opening quote: up to the next quote that
is not doubled, where the rules of a server may let a backslash take the character behind
it with it.
-/

import WampManager.Lib.Occurrences

namespace SqlLiteral

/-- Whether a backslash is special inside of quotes. -/
inductive Rules
  | backslash
  | doubled
  deriving DecidableEq

/-- What a backslash and the character behind it denote. -/
def unescape : Char → Text
  | '0' => ['\x00']
  | 'b' => ['\x08']
  | 'n' => ['\n']
  | 'r' => ['\r']
  | 't' => ['\t']
  | 'Z' => ['\x1a']
  | '%' => ['\\', '%']
  | '_' => ['\\', '_']
  | c => [c]

/-- Put text in front of what is read next. -/
def before (t : Text) : Option (Text × Text) → Option (Text × Text) :=
  Option.map fun p => (t ++ p.1, p.2)

/-- The text that a literal denotes, from behind its opening quote, and what is left behind
its closing quote. -/
def read (rules : Rules) : Text → Option (Text × Text)
  | [] => none
  | '\'' :: '\'' :: t => before ['\''] (read rules t)
  | '\'' :: t => some ([], t)
  | '\\' :: c :: t =>
      match rules with
      | .backslash => before (unescape c) (read rules t)
      | .doubled => before ['\\'] (read rules (c :: t))
  | c :: t => before [c] (read rules t)

variable {rules : Rules} {t rest value : Text}

/-! ## Reading on -/

theorem before_eq_some {s u : Text} {p? : Option (Text × Text)} :
    before s p? = some (u, rest) ↔ ∃ v, p? = some (v, rest) ∧ u = s ++ v := by
  cases p? with
  | none => simp [before]
  | some p =>
      obtain ⟨v, rest'⟩ := p
      simp only [before, Option.map_some, Option.some.injEq, Prod.mk.injEq]
      constructor
      · rintro ⟨rfl, rfl⟩
        exact ⟨v, ⟨rfl, rfl⟩, rfl⟩
      · rintro ⟨_, ⟨rfl, rfl⟩, rfl⟩
        exact ⟨rfl, rfl⟩

theorem before_cons_eq_some {c : Char} {u : Text} {p? : Option (Text × Text)} :
    before [c] p? = some (c :: u, rest) ↔ p? = some (u, rest) := by
  rw [before_eq_some]
  constructor
  · rintro ⟨v, hv, heq⟩
    obtain rfl : u = v := (List.cons.inj heq).2
    exact hv
  · intro h
    exact ⟨u, h, rfl⟩

theorem read_quote (h : t.head? ≠ some '\'') : read rules ('\'' :: t) = some ([], t) := by
  cases t with
  | nil => rw [read]; simp
  | cons c t =>
      rw [read]
      rintro _ ⟨⟩
      exact h rfl

theorem read_char {c : Char} (hquote : c ≠ '\'') (h : c ≠ '\\' ∨ rules = .doubled) (t : Text) :
    read rules (c :: t) = before [c] (read rules t) := by
  by_cases hc : c = '\\'
  · obtain rfl : rules = .doubled := h.resolve_left fun hne => hne hc
    subst hc
    cases t with
    | nil => rfl
    | cons d t => rw [read]
  · rw [read]
    · rintro _ rfl
      exact absurd rfl hquote
    · exact hquote
    · rintro _ _ rfl
      exact absurd rfl hc

/-- Something of the text is used up, the closing quote at least. -/
theorem length_rest_lt (h : read rules t = some (value, rest)) : rest.length < t.length := by
  fun_induction read rules t generalizing value with
  | case1 => cases h
  | case2 t ih =>
      obtain ⟨v, hv, -⟩ := before_eq_some.mp h
      have hlt := ih hv
      simp only [List.length_cons]
      omega
  | case3 t ht =>
      cases h
      simp
  | case4 c t hrules ih =>
      obtain ⟨v, hv, -⟩ := before_eq_some.mp h
      subst hrules
      have hlt := ih hv
      simp only [List.length_cons]
      omega
  | case5 c t hrules ih =>
      obtain ⟨v, hv, -⟩ := before_eq_some.mp h
      subst hrules
      have hlt := ih hv
      simp only [List.length_cons] at hlt ⊢
      omega
  | case6 c t _ _ _ ih =>
      obtain ⟨v, hv, -⟩ := before_eq_some.mp h
      have hlt := ih hv
      simp only [List.length_cons]
      omega

/-! ## Texts with escaped quotes -/

/-- A backslash in front of every quote. -/
def escape : Text → Text
  | [] => []
  | c :: p => if c = '\'' then '\\' :: '\'' :: escape p else c :: escape p

/-- No backslash but in front of a percent sign or an underscore. -/
def Plain : Text → Prop
  | [] => True
  | c :: p => (c = '\\' → p.head? = some '%' ∨ p.head? = some '_') ∧ Plain p

instance decidablePlain : (p : Text) → Decidable (Plain p)
  | [] => .isTrue trivial
  | c :: p =>
      have := decidablePlain p
      inferInstanceAs (Decidable ((c = '\\' → p.head? = some '%' ∨ p.head? = some '_') ∧ Plain p))

theorem escape_quote (p : Text) : escape ('\'' :: p) = '\\' :: '\'' :: escape p := rfl

theorem escape_cons {c : Char} (h : c ≠ '\'') (p : Text) : escape (c :: p) = c :: escape p :=
  if_neg h

/-- Escaping is a replacement. -/
theorem strReplace_quote (p : Text) : Text.strReplace ['\''] ['\\', '\''] p = escape p := by
  induction p with
  | nil => rfl
  | cons c p ih =>
      by_cases hc : c = '\''
      · rw [hc, escape_quote, ← ih]
        exact Text.strReplace_of_prefix (List.cons_ne_nil _ _) _ ⟨p, rfl⟩
      · rw [escape_cons hc, ← ih]
        exact Text.strReplace_cons _ fun h => hc (List.cons_prefix_cons.mp h).1.symm

/-- The cases of a text with escaped quotes, in the order in which they are read. -/
theorem escape_induction {motive : Text → Prop} (nil : motive [])
    (quote : ∀ p, motive p → motive ('\'' :: p))
    (char : ∀ c p, c ≠ '\'' → c ≠ '\\' → motive p → motive (c :: p))
    (final : motive ['\\'])
    (backslash_quote : ∀ p, motive p → motive ('\\' :: '\'' :: p))
    (pair : ∀ c p, c ≠ '\'' → motive p → motive ('\\' :: c :: p)) (p : Text) : motive p := by
  induction hn : p.length using Nat.strong_induction_on generalizing p with
  | _ n ih =>
      match p, hn with
      | [], _ => exact nil
      | c :: p, hn =>
          have hp : motive p := ih p.length (by simp [← hn]) p rfl
          by_cases hquote : c = '\''
          · exact hquote ▸ quote p hp
          by_cases hbackslash : c = '\\'
          · subst hbackslash
            match p, hp, hn with
            | [], _, _ => exact final
            | d :: p, _, hn =>
                have hshort : p.length < n := by
                  simp only [List.length_cons] at hn
                  omega
                have hp : motive p := ih p.length hshort p rfl
                by_cases hd : d = '\''
                · exact hd ▸ backslash_quote p hp
                · exact pair d p hd hp
          · exact char c p hquote hbackslash hp

/-- What cannot be read at the end of a literal: the rest, with more in front of it. -/
theorem read_ne_self {front : Text} : read rules t ≠ some (front, t) := fun h =>
  (length_rest_lt h).ne rfl

theorem unescape_cases (c : Char) :
    (c = '%' ∨ c = '_') ∧ unescape c = ['\\', c] ∨
      ¬ (c = '%' ∨ c = '_') ∧ ∃ d, unescape c = [d] := by
  unfold unescape
  split
  case h_7 => exact .inl ⟨.inl rfl, rfl⟩
  case h_8 => exact .inl ⟨.inr rfl, rfl⟩
  case h_9 hpercent hunderscore => exact .inr ⟨fun h => h.elim hpercent hunderscore, _, rfl⟩
  all_goals exact .inr ⟨by decide, _, rfl⟩

/-- A backslash in front of a quote takes the escape away from it. -/
theorem read_backslash_quote_ne (p : Text) :
    read .backslash (escape ('\\' :: '\'' :: p) ++ '\'' :: rest) ≠ some (value, rest) := by
  intro h
  have hread : before ['\\'] (read .backslash ('\'' :: (escape p ++ '\'' :: rest))) =
      some (value, rest) := h
  obtain ⟨v, hv, -⟩ := before_eq_some.mp hread
  cases p with
  | nil =>
      have hdoubled : before ['\''] (read .backslash rest) = some (v, rest) := hv
      obtain ⟨u, hu, -⟩ := before_eq_some.mp hdoubled
      exact read_ne_self hu
  | cons c p =>
      have hhead : (escape (c :: p) ++ '\'' :: rest).head? ≠ some '\'' := by
        by_cases hc : c = '\''
        · simp [hc, escape_quote]
        · simpa [escape_cons hc] using hc
      rw [read_quote hhead] at hv
      have hlength := congrArg (fun p? => p?.map fun p => p.2.length) hv
      simp only [Option.map_some, Option.some.injEq, List.length_append, List.length_cons] at hlength
      omega

section Closed

variable (hrest : rest.head? ≠ some '\'')
include hrest

/-- No literal denotes more than was escaped. -/
theorem length_value_le {p : Text}
    (h : read .backslash (escape p ++ '\'' :: rest) = some (value, rest)) :
    value.length ≤ p.length := by
  induction p using escape_induction generalizing value with
  | nil =>
      rw [escape, List.nil_append, read_quote hrest] at h
      cases h
      exact le_rfl
  | quote p ih =>
      obtain ⟨v, hv, rfl⟩ := before_eq_some.mp h
      have hle := ih hv
      simpa [unescape] using hle
  | char c p hquote hbackslash ih =>
      rw [escape_cons hquote, List.cons_append, read_char hquote (.inl hbackslash)] at h
      obtain ⟨v, hv, rfl⟩ := before_eq_some.mp h
      simpa using ih hv
  | final =>
      obtain ⟨v, hv, -⟩ := before_eq_some.mp h
      exact absurd hv read_ne_self
  | backslash_quote p ih => exact absurd h (read_backslash_quote_ne p)
  | pair c p hc ih =>
      have hread : before (unescape c) (read .backslash (escape p ++ '\'' :: rest)) =
          some (value, rest) := by
        rw [← h, escape_cons (by decide), escape_cons hc]
        rfl
      obtain ⟨v, hv, rfl⟩ := before_eq_some.mp hread
      have hle := ih hv
      rcases unescape_cases c with ⟨-, hcase⟩ | ⟨-, d, hcase⟩ <;>
        · rw [hcase]
          simp only [List.length_append, List.length_cons, List.length_nil]
          omega

/-- With backslashes special, escaped quotes denote themselves exactly in plain texts. -/
theorem read_escape_iff (p : Text) :
    read .backslash (escape p ++ '\'' :: rest) = some (p, rest) ↔ Plain p := by
  induction p using escape_induction with
  | nil => exact iff_of_true (read_quote hrest) trivial
  | quote p ih =>
      have hread : read .backslash (escape ('\'' :: p) ++ '\'' :: rest) =
          before ['\''] (read .backslash (escape p ++ '\'' :: rest)) := rfl
      rw [hread, before_cons_eq_some, ih, Plain]
      exact (and_iff_right fun h => absurd h (by decide)).symm
  | char c p hquote hbackslash ih =>
      rw [escape_cons hquote, List.cons_append, read_char hquote (.inl hbackslash),
        before_cons_eq_some, ih, Plain]
      exact (and_iff_right fun h => absurd h hbackslash).symm
  | final =>
      refine iff_of_false (fun h => ?_) fun h => ?_
      · obtain ⟨v, hv, -⟩ := before_eq_some.mp h
        exact read_ne_self hv
      · exact absurd (h.1 rfl) (by decide)
  | backslash_quote p ih =>
      refine iff_of_false (read_backslash_quote_ne p) fun h => ?_
      exact absurd (h.1 rfl) (by simp)
  | pair c p hc ih =>
      have hread : read .backslash (escape ('\\' :: c :: p) ++ '\'' :: rest) =
          before (unescape c) (read .backslash (escape p ++ '\'' :: rest)) := by
        rw [escape_cons (by decide), escape_cons hc]
        rfl
      rw [hread, Plain]
      rcases unescape_cases c with ⟨hmark, hcase⟩ | ⟨hmark, d, hcase⟩
      · have hplain : Plain (c :: p) ↔ Plain p := by
          refine and_iff_right fun h => ?_
          rcases hmark with rfl | rfl <;> exact absurd h (by decide)
        have hhead : (c :: p).head? = some '%' ∨ (c :: p).head? = some '_' := by simpa using hmark
        rw [hcase, and_iff_right fun _ => hhead, hplain, ← ih, before_eq_some]
        constructor
        · rintro ⟨v, hv, heq⟩
          obtain rfl : p = v := by simpa using heq
          exact hv
        · exact fun h => ⟨p, h, rfl⟩
      · refine iff_of_false (fun h => ?_) fun h => hmark (by simpa using h.1 rfl)
        obtain ⟨v, hv, heq⟩ := before_eq_some.mp h
        have hle := length_value_le hrest hv
        have hlength := congrArg List.length heq
        rw [hcase] at hlength
        simp only [List.length_cons, List.length_append, List.length_nil] at hlength
        omega

/-- No literal with doubled quotes denotes more than was put in. -/
theorem length_value_le_of_doubled {p : Text}
    (h : read .doubled (p ++ '\'' :: rest) = some (value, rest)) : value.length ≤ p.length := by
  induction hn : p.length using Nat.strong_induction_on generalizing p value with
  | _ n ih =>
      match p, hn with
      | [], _ =>
          rw [List.nil_append, read_quote hrest] at h
          cases h
          exact Nat.zero_le n
      | c :: p, hn =>
          by_cases hc : c = '\''
          · subst hc
            match p, hn with
            | [], _ =>
                obtain ⟨v, hv, -⟩ := before_eq_some.mp h
                exact absurd hv read_ne_self
            | d :: p, hn =>
                by_cases hd : d = '\''
                · subst hd
                  obtain ⟨v, hv, rfl⟩ := before_eq_some.mp h
                  have hshort : p.length < n := by
                    simp only [List.length_cons] at hn
                    omega
                  have hle := ih p.length hshort hv rfl
                  simp only [List.length_cons] at hn
                  simp only [List.length_append, List.length_cons, List.length_nil]
                  omega
                · rw [List.cons_append, read_quote (by simpa using hd)] at h
                  have hvalue : [] = value := congrArg Prod.fst (Option.some.inj h)
                  rw [← hvalue]
                  exact Nat.zero_le n
          · rw [List.cons_append, read_char hc (.inr rfl)] at h
            obtain ⟨v, hv, rfl⟩ := before_eq_some.mp h
            have hle := ih p.length (by simp [← hn]) hv rfl
            simp only [List.length_cons] at hn
            simp only [List.length_append, List.length_cons, List.length_nil]
            omega

/-- With backslashes plain, a text denotes itself exactly if it holds no quote. -/
theorem read_doubled_iff (p : Text) :
    read .doubled (p ++ '\'' :: rest) = some (p, rest) ↔ '\'' ∉ p := by
  induction p with
  | nil => exact iff_of_true (read_quote hrest) List.not_mem_nil
  | cons c p ih =>
      by_cases hc : c = '\''
      · subst hc
        refine iff_of_false (fun h => ?_) fun h => h List.mem_cons_self
        cases p with
        | nil =>
            obtain ⟨v, hv, -⟩ := before_eq_some.mp h
            exact read_ne_self hv
        | cons d p =>
            by_cases hd : d = '\''
            · subst hd
              obtain ⟨v, hv, heq⟩ := before_eq_some.mp h
              have hle := length_value_le_of_doubled hrest hv
              have hlength := congrArg List.length heq
              simp only [List.length_cons, List.length_append, List.length_nil] at hlength
              omega
            · rw [List.cons_append, read_quote (by simpa using hd)] at h
              have hvalue : ([] : Text) = '\'' :: d :: p := congrArg Prod.fst (Option.some.inj h)
              cases hvalue
      · rw [List.cons_append, read_char hc (.inr rfl), before_cons_eq_some, ih, List.mem_cons]
        exact not_congr (or_iff_right (Ne.symm hc)).symm

end Closed

end SqlLiteral
