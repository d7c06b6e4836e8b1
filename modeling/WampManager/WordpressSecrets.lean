/-
# Secrets of a WordPress installation

The sample configuration holds the same phrase at eight places. The install replaces its
first occurrence by random characters, eight times over. The random text is used as a
replacement of an expression, where a dollar sign and digits stand for a group; this
expression has none, so that what is meant as a character of the secret becomes nothing
or the phrase again.
-/

import Mathlib.Algebra.Order.Ring.Nat
import Mathlib.Algebra.Order.BigOperators.Group.List
import WampManager.Lib.Occurrences

namespace WampManager

namespace Wordpress

open Text (occurrences explode replaceFirst)

/-! ## Replacements with references -/

/-- One or two digits: their value, and how many they are. -/
def digits? : Text → Option (ℕ × ℕ)
  | c :: d :: _ =>
      if c.isDigit then
        some (if d.isDigit then (10 * (c.toNat - 48) + (d.toNat - 48), 2) else (c.toNat - 48, 1))
      else none
  | [c] => if c.isDigit then some (c.toNat - 48, 1) else none
  | [] => none

/-- A reference to a group behind a dollar sign, with or without braces: the number of
the group, and how many characters it takes. -/
def backref? (t : Text) : Option (ℕ × ℕ) :=
  if t.head? = some '{' then
    match digits? t.tail with
    | some (n, k) => if (t.tail.drop k).head? = some '}' then some (n, k + 2) else none
    | none => none
  else digits? t

/-- The replacement of a match without groups: group 0 is the match, and the others are
empty. The counter skips the rest of a reference. There are no backslashes in it. -/
def expandFrom (found : Text) : ℕ → Text → Text
  | _, [] => []
  | skip + 1, _ :: t => expandFrom found skip t
  | 0, c :: t =>
      match if c = '$' then backref? t else none with
      | some (n, k) => (if n = 0 then found else []) ++ expandFrom found k t
      | none => c :: expandFrom found 0 t

def expand (found replacement : Text) : Text := expandFrom found 0 replacement

/-- A dollar sign with digits behind it. -/
def HasReference (t : Text) : Prop := ∃ a b, t = a ++ '$' :: b ∧ (backref? b).isSome

/-! ## The loop -/

/-- `put your unique phrase here`. -/
def phrase : Text := "put your unique phrase here".toList

/-- One round: `preg_replace` of the phrase with a limit of one. -/
def replacePhrase (config str : Text) : Text := replaceFirst phrase (expand phrase str) config

/-- The loop of `install` over the random texts. -/
def replacePhrases (strings : List Text) (config : Text) : Text := strings.foldl replacePhrase config

/-- The characters of `Util::randomString`. -/
def randomChars (exclude : Text) : Text :=
  ("!#$%&()*+,-./0123456789:;<=>?@ABCDEFGHIJKLMNOPQRSTUVWXYZ[]^_abcdefghijklmnopqrstuvwxyz".toList ++
    ['{', '|', '}']).filter (· ∉ exclude)

/-- `Util::randomString`, with what `random_int` returns for each character. -/
def randomString {length : ℕ} (exclude : Text)
    (draws : Fin length → Fin (randomChars exclude).length) : Text :=
  List.ofFn fun i => (randomChars exclude).get (draws i)

/-- The pieces of a text with strings between them. -/
def weave : List Text → List Text → Text
  | p :: ps, r :: rs => p ++ (r ++ weave ps rs)
  | ps, _ => ps.flatten

/-- The sample with the strings in the places of the phrase. -/
def inPlaces (sample : Text) (strings : List Text) : Text := weave (explode phrase sample) strings

/-! ## What becomes of a replacement -/

theorem expandFrom_skip (found : Text) (n : ℕ) (t : Text) :
    expandFrom found n t = expandFrom found 0 (t.drop n) := by
  induction t generalizing n with
  | nil => cases n <;> rfl
  | cons c t ih =>
      cases n with
      | zero => rfl
      | succ n => exact ih n

theorem hasReference_cons {c : Char} {t : Text} :
    HasReference (c :: t) ↔ (c = '$' ∧ (backref? t).isSome) ∨ HasReference t := by
  constructor
  · rintro ⟨a, b, hsplit, hb⟩
    cases a with
    | nil =>
        obtain ⟨rfl, rfl⟩ := List.cons.inj hsplit
        exact .inl ⟨rfl, hb⟩
    | cons d a =>
        obtain ⟨-, rfl⟩ := List.cons.inj hsplit
        exact .inr ⟨a, b, rfl, hb⟩
  · rintro (⟨rfl, hb⟩ | ⟨a, b, rfl, hb⟩)
    · exact ⟨[], t, rfl, hb⟩
    · exact ⟨c :: a, b, rfl, hb⟩

/-- A text without references stays as it is. One with references becomes shorter, or the
match comes back in it. -/
theorem expand_cases (found t : Text) :
    (¬ HasReference t ∧ expand found t = t) ∨
      (HasReference t ∧ (found <:+: expand found t ∨ (expand found t).length < t.length)) := by
  induction hlength : t.length using Nat.strong_induction_on generalizing t with
  | _ n ih =>
      cases t with
      | nil =>
          left
          refine ⟨?_, rfl⟩
          rintro ⟨a, b, hsplit, -⟩
          simp at hsplit
      | cons c t =>
          subst hlength
          cases href : (if c = '$' then backref? t else none) with
          | some ref =>
              obtain ⟨number, k⟩ := ref
              have hdollar : c = '$' := by
                by_contra hne
                rw [if_neg hne] at href
                cases href
              rw [if_pos hdollar] at href
              have hexpand : expand found (c :: t) =
                  (if number = 0 then found else []) ++ expand found (t.drop k) := by
                rw [expand, expandFrom, if_pos hdollar, href]
                exact congrArg _ (expandFrom_skip found k t)
              refine .inr ⟨hasReference_cons.mpr (.inl ⟨hdollar, by rw [href]; rfl⟩), ?_⟩
              rw [hexpand]
              by_cases hzero : number = 0
              · rw [if_pos hzero]
                exact .inl (List.prefix_append _ _).isInfix
              · rw [if_neg hzero, List.nil_append, List.length_cons]
                have hshort : (t.drop k).length ≤ t.length := by simp
                rcases ih (t.drop k).length (by rw [List.length_cons]; omega) (t.drop k) rfl with
                  ⟨-, hsame⟩ | ⟨-, hfound | hless⟩
                · rw [hsame]
                  exact .inr (by omega)
                · exact .inl hfound
                · exact .inr (by omega)
          | none =>
              have hexpand : expand found (c :: t) = c :: expand found t := by
                rw [expand, expandFrom, href]
                rfl
              have hhere : ¬ (c = '$' ∧ (backref? t).isSome) := by
                rintro ⟨hdollar, hsome⟩
                rw [if_pos hdollar] at href
                rw [href] at hsome
                cases hsome
              rw [hasReference_cons, or_iff_right hhere, hexpand]
              rcases ih t.length (by simp) t rfl with ⟨hno, hsame⟩ | ⟨hyes, hfound | hless⟩
              · exact .inl ⟨hno, by rw [hsame]⟩
              · exact .inr ⟨hyes, .inl (hfound.trans (List.suffix_cons c _).isInfix)⟩
              · exact .inr ⟨hyes, .inr (by simpa using hless)⟩

/-! ## What the rounds leave -/

theorem phrase_ne_nil : phrase ≠ [] := by decide

theorem clear_phrase : Text.Clear phrase phrase := by decide

/-- Each round takes one place away, adds those in the replacement, and changes the length
accordingly. -/
theorem occurrences_replacePhrases {strings : List Text} {config : Text}
    (h : strings.length ≤ occurrences phrase config) :
    occurrences phrase config + (strings.map fun s => occurrences phrase (expand phrase s)).sum ≤
        occurrences phrase (replacePhrases strings config) + strings.length ∧
      (replacePhrases strings config).length + strings.length * phrase.length =
        config.length + (strings.map fun s => (expand phrase s).length).sum := by
  induction strings generalizing config with
  | nil => exact ⟨le_refl _, rfl⟩
  | cons str strings ih =>
      have hfound : phrase <:+: config := by
        rw [Text.infix_iff_occurrences_pos phrase_ne_nil]
        exact lt_of_lt_of_le (Nat.succ_pos _) h
      obtain ⟨hplaces, hlength⟩ :=
        Text.occurrences_replaceFirst phrase_ne_nil clear_phrase (expand phrase str) hfound
      rw [List.length_cons] at h
      obtain ⟨hplaces', hlength'⟩ := @ih (replacePhrase config str) (by
        rw [replacePhrase]
        omega)
      change _ ≤ occurrences phrase (replacePhrases strings (replacePhrase config str)) + _ ∧
        (replacePhrases strings (replacePhrase config str)).length + _ = _
      rw [replacePhrase] at hplaces' hlength' ⊢
      rw [List.map_cons, List.sum_cons, List.map_cons, List.sum_cons, List.length_cons,
        Nat.add_mul, Nat.one_mul]
      constructor
      · omega
      · omega

/-- Without references each round fills the next place, unless the strings make the
phrase again. -/
theorem replacePhrases_eq {strings pieces : List Text} (hno : ∀ s ∈ strings, ¬ HasReference s)
    (hpieces : pieces.length = strings.length + 1) {front : Text}
    (hfree : ¬ phrase <:+: front ++ weave pieces strings) :
    replacePhrases strings (front ++ phrase.intercalate pieces) =
      front ++ weave pieces strings := by
  induction strings generalizing pieces front with
  | nil =>
      obtain ⟨p, rfl⟩ := List.length_eq_one_iff.mp hpieces
      simp [replacePhrases, weave, List.intercalate_singleton]
  | cons str strings ih =>
      obtain ⟨p, p', ps, rfl⟩ : ∃ p p' ps, pieces = p :: p' :: ps := by
        match pieces, hpieces with
        | p :: p' :: ps, _ => exact ⟨p, p', ps, rfl⟩
      have hbefore : ¬ phrase <:+: front ++ p := by
        intro hinside
        apply hfree
        rw [weave, ← List.append_assoc]
        exact hinside.trans (List.prefix_append _ _).isInfix
      have hexpand : expand phrase str = str :=
        ((expand_cases phrase str).resolve_right fun h => hno str List.mem_cons_self h.1).2
      have hround : replacePhrase (front ++ phrase.intercalate (p :: p' :: ps)) str =
          (front ++ p ++ str) ++ phrase.intercalate (p' :: ps) := by
        have hsplit : front ++ phrase.intercalate (p :: p' :: ps) =
            (front ++ p) ++ (phrase ++ phrase.intercalate (p' :: ps)) := by
          simp [List.intercalate_cons_cons]
        rw [replacePhrase, hsplit, Text.replaceFirst_append phrase_ne_nil clear_phrase hbefore,
          hexpand, ← List.append_assoc]
      have hweave : front ++ weave (p :: p' :: ps) (str :: strings) =
          (front ++ p ++ str) ++ weave (p' :: ps) strings := by
        simp [weave]
      change replacePhrases strings (replacePhrase _ str) = _
      rw [hround, hweave]
      refine ih (fun s hs => hno s (List.mem_cons_of_mem str hs)) (by simpa using hpieces) ?_
      rwa [← hweave]

theorem length_weave {strings pieces : List Text} (hpieces : pieces.length = strings.length + 1) :
    (weave pieces strings).length + strings.length * phrase.length =
      (phrase.intercalate pieces).length + (strings.map List.length).sum := by
  induction strings generalizing pieces with
  | nil =>
      obtain ⟨p, rfl⟩ := List.length_eq_one_iff.mp hpieces
      simp [weave, List.intercalate_singleton]
  | cons str strings ih =>
      obtain ⟨p, p', ps, rfl⟩ : ∃ p p' ps, pieces = p :: p' :: ps := by
        match pieces, hpieces with
        | p :: p' :: ps, _ => exact ⟨p, p', ps, rfl⟩
      have hrest := @ih (p' :: ps) (by simpa using hpieces)
      rw [List.intercalate_cons_cons, weave]
      simp only [List.length_append, List.length_cons, List.map_cons, List.sum_cons, Nat.add_mul,
        Nat.one_mul] at hrest ⊢
      omega

/-! ## When the secrets are in place -/

/-- The eight places hold the eight random strings, and the phrase is gone, exactly if no
string has a dollar sign with digits behind it and the strings do not make the phrase
again with the text around them. -/
theorem secrets_replaced_iff (sample : Text) (hsample : occurrences phrase sample = 8)
    (draws : Fin 8 → Fin 64 → Fin (randomChars ['\'']).length) :
    let strings := List.ofFn fun i => randomString ['\''] (draws i)
    (replacePhrases strings sample = inPlaces sample strings ∧
        ¬ phrase <:+: replacePhrases strings sample) ↔
      (∀ s ∈ strings, ¬ HasReference s) ∧ ¬ phrase <:+: inPlaces sample strings := by
  intro strings
  have hcount : strings.length = 8 := List.length_ofFn
  have hpieces : (explode phrase sample).length = strings.length + 1 := by
    rw [Text.length_explode phrase_ne_nil clear_phrase, hsample, hcount]
  have hsplit : phrase.intercalate (explode phrase sample) = sample :=
    Text.intercalate_explode phrase_ne_nil clear_phrase sample
  constructor
  · rintro ⟨heq, hgone⟩
    refine ⟨fun s hs href => ?_, heq ▸ hgone⟩
    obtain ⟨hplaces, hlength⟩ := @occurrences_replacePhrases strings sample (by omega)
    have hnone := Text.occurrences_of_absent phrase_ne_nil hgone
    have hzero : ∀ s ∈ strings, ¬ phrase <:+: expand phrase s := by
      intro s hs hinside
      rw [Text.infix_iff_occurrences_pos phrase_ne_nil] at hinside
      have hle := List.single_le_sum (fun _ _ => Nat.zero_le _) _
        (List.mem_map_of_mem (f := fun s => occurrences phrase (expand phrase s)) hs)
      omega
    have hle : ∀ s ∈ strings, (expand phrase s).length ≤ s.length := by
      intro s hs
      rcases expand_cases phrase s with ⟨-, hsame⟩ | ⟨-, hfound | hless⟩
      · rw [hsame]
      · exact absurd hfound (hzero s hs)
      · exact hless.le
    have hless : (expand phrase s).length < s.length := by
      rcases expand_cases phrase s with ⟨hno, -⟩ | ⟨-, hfound | hless⟩
      · exact absurd href hno
      · exact absurd hfound (hzero s hs)
      · exact hless
    have hsum := List.sum_lt_sum (fun s => (expand phrase s).length) List.length hle ⟨s, hs, hless⟩
    have hplace := length_weave hpieces
    rw [hsplit] at hplace
    rw [heq, inPlaces] at hlength
    omega
  · rintro ⟨hno, hfree⟩
    have hrun : replacePhrases strings sample = inPlaces sample strings := by
      have hall := @replacePhrases_eq strings (explode phrase sample) hno hpieces [] hfree
      rwa [hsplit] at hall
    exact ⟨hrun, hrun ▸ hfree⟩

/-- A sample of eight lines with the phrase. -/
def sampleConfig : Text := (List.replicate 8 (phrase ++ ['\n'])).flatten

/-- Strings of exclamation marks are put in place. -/
theorem secrets_replaced_plain :
    ¬ phrase <:+: replacePhrases
      (List.ofFn fun _ : Fin 8 => randomString ['\''] fun _ : Fin 64 => ⟨0, by decide⟩)
      sampleConfig := by
  have hplaces := (secrets_replaced_iff sampleConfig (by decide +kernel)
    fun _ _ => ⟨0, by decide⟩).mpr ⟨?_, ?_⟩
  · exact hplaces.2
  · intro s hs
    have hmarks : s = List.replicate 64 '!' := by
      revert s
      decide +kernel
    rintro ⟨a, b, hsplit, -⟩
    have hdollar : '$' ∈ List.replicate 64 '!' := by
      rw [← hmarks, hsplit]
      simp
    exact absurd (List.eq_of_mem_replicate hdollar) (by decide)
  · rw [Text.infix_iff_occurrences_pos phrase_ne_nil]
    decide +kernel

/-- A dollar sign and digits behind it are lost. -/
theorem dollar_in_secret_lost :
    ¬ ∀ (sample : Text) (draws : Fin 8 → Fin 64 → Fin (randomChars ['\'']).length),
      occurrences phrase sample = 8 →
        replacePhrases (List.ofFn fun i => randomString ['\''] (draws i)) sample =
          inPlaces sample (List.ofFn fun i => randomString ['\''] (draws i)) := by
  intro h
  have hlost := h sampleConfig (fun _ j => if j = 0 then ⟨2, by decide⟩ else ⟨14, by decide⟩)
    (by decide +kernel)
  exact absurd hlost (by decide +kernel)

end Wordpress

end WampManager
