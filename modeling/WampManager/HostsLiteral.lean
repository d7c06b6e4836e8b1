/-
# Removing a hostname by an expression

`Hosts::remove` puts a hostname into a regular expression. It escapes the dots and the
asterisks and nothing else. What the expression means is read off the expression itself:
without signs in the hostname it finds the lines for the hostname, with one of them it
misses the very line that was written for it, or finds more than that.
-/

import Mathlib.Data.List.Infix
import WampManager.HostsEdits
import WampManager.Lib.Pcre
import WampManager.Site

namespace WampManager

open Pcre (Sym Token Atom Quant Regex syms tokens isQuantifier pregMatch? Understands)

namespace Hosts

/-! ## The lines for a hostname -/

/-- A dotted address, white space and the hostname, and behind it the end of the line or
white space. -/
def IsLineFor (hostname item : Text) : Prop :=
  ∃ address blanks rest, IsAddress address ∧ blanks ≠ [] ∧ (∀ c ∈ blanks, isBlank c = true) ∧
    (∀ c ∈ rest.head?, isBlank c = true) ∧ item = address ++ (blanks ++ (hostname ++ rest))

instance (hostname item : Text) : Decidable (IsLineFor hostname item) :=
  decidable_of_iff (literalMatch hostname item = true) literalMatch_iff

/-- The lines for a hostname are removed, and no other line. -/
def RemovesLiterally (preg : Text → Text → Bool) (hostname : Text) : Prop :=
  ∀ file, remove preg hostname (load file) =
    (load file).filter fun item => ¬ IsLineFor hostname item

/-- A hostname that has no sign of an expression besides dots and asterisks. -/
def Unmarked (hostname : Text) : Prop :=
  (∀ c ∈ hostname, c ∉ "\\^$[|()?+`\x00".toList) ∧
    ∀ t ∈ hostname.tails, t.head? = some '\x7b' → Pcre.isCounter t.tail = false

instance (hostname : Text) : Decidable (Unmarked hostname) :=
  inferInstanceAs (Decidable (_ ∧ ∀ t ∈ hostname.tails, _))

/-! ## The expression -/

def patternHead : Text := "^\\d\x7b1,3\x7d\\.\\d\x7b1,3\x7d\\.\\d\x7b1,3\x7d\\.\\d\x7b1,3\x7d\\s+".toList

def patternEnd : Text := "($|\\s.*)".toList

/-- The expression between its delimiters. -/
def patternBody (hostname : Text) : Text := patternHead ++ (escape hostname ++ patternEnd)

theorem pattern_eq (hostname : Text) :
    pattern hostname = ('`' :: patternBody hostname) ++ ['`'] := by
  have hhead : "`^\\d\x7b1,3\x7d\\.\\d\x7b1,3\x7d\\.\\d\x7b1,3\x7d\\.\\d\x7b1,3\x7d\\s+".toList =
      '`' :: patternHead :=
    (by decide +kernel : _ = '`' :: "^\\d\x7b1,3\x7d\\.\\d\x7b1,3\x7d\\.\\d\x7b1,3\x7d\\.\\d\x7b1,3\x7d\\s+".toList)
  have hend : "($|\\s.*)`".toList = patternEnd ++ ['`'] :=
    (by decide +kernel : _ = "($|\\s.*)".toList ++ ['`'])
  calc pattern hostname
      = ('`' :: patternHead) ++ escape hostname ++ (patternEnd ++ ['`']) :=
        congrArg₂ (· ++ escape hostname ++ ·) hhead hend
    _ = ('`' :: patternBody hostname) ++ ['`'] := by simp [patternBody]

/-- A character of a hostname in the expression. -/
def symOf (c : Char) : Sym := if c = '.' ∨ c = '*' then .esc c else .raw c

theorem syms_escape {hostname : Text} (h : '\\' ∉ hostname) :
    syms (escape hostname) = some (hostname.map symOf) := by
  induction hostname with
  | nil => rfl
  | cons c t ih =>
      obtain ⟨hc, ht⟩ := not_or.mp (mt List.mem_cons.mpr h)
      have hcons : escape (c :: t) = (if c = '.' ∨ c = '*' then ['\\', c] else [c]) ++ escape t :=
        List.flatMap_cons
      rw [hcons, List.map_cons, symOf]
      split
      · rw [List.cons_append, List.singleton_append, Pcre.syms_escaped, ih ht]
        rfl
      · rw [List.singleton_append, Pcre.syms_cons (Ne.symm hc), ih ht]
        rfl

/-- The symbols of a number of an address. -/
def numberSyms : List Sym :=
  [.esc 'd', .raw '\x7b', .raw '1', .raw ',', .raw '3', .raw '\x7d']

/-- The symbols in front of the hostname, but for the white space. -/
def headSyms : List Sym :=
  .raw '^' :: (numberSyms ++ .esc '.' :: (numberSyms ++ .esc '.' ::
    (numberSyms ++ .esc '.' :: numberSyms)))

def endSyms : List Sym :=
  [.raw '(', .raw '$', .raw '|', .esc 's', .raw '.', .raw '*', .raw ')']

theorem syms_patternBody {hostname : Text} (h : '\\' ∉ hostname) :
    syms (patternBody hostname) =
      some (headSyms ++ (.esc 's' :: .raw '+' :: (hostname.map symOf ++ endSyms))) := by
  have hhead : syms patternHead = some (headSyms ++ [.esc 's', .raw '+']) := by decide +kernel
  have hend : syms patternEnd = some endSyms := by decide +kernel
  rw [patternBody, Pcre.syms_append hhead, Pcre.syms_append (syms_escape h), hend, Option.map_some,
    Option.map_some, List.append_assoc]
  rfl

/-! ## The hostname read literally -/

/-- The atoms in front of the hostname. -/
def headAtoms : List (Atom × Quant) :=
  [(.digit, .times 1 3), (.lit '.', .one), (.digit, .times 1 3), (.lit '.', .one),
    (.digit, .times 1 3), (.lit '.', .one), (.digit, .times 1 3), (.blank, .plus)]

def endTokens : List Token :=
  [.opening, .stop, .bar, .atom .blank .one, .atom .any .star, .closing .one]

theorem tokens_number {s : List Sym} {x : Sym} (hx : x = .esc '.' ∨ x = .esc 's') :
    tokens 0 (numberSyms ++ x :: s) =
      (tokens 0 (x :: s)).map (Token.atom .digit (.times 1 3) :: ·) := by
  rcases hx with rfl | rfl <;> rfl

theorem tokens_dot {s : List Sym} : tokens 0 (.esc '.' :: (numberSyms ++ s)) =
    (tokens 0 (numberSyms ++ s)).map (Token.atom (.lit '.') .one :: ·) := rfl

theorem tokens_head {s : List Sym} (hs : isQuantifier s = false) :
    tokens 0 (headSyms ++ .esc 's' :: .raw '+' :: s) =
      (tokens 0 s).map (Token.start :: headAtoms.map (fun p => .atom p.1 p.2) ++ ·) := by
  have hblank : tokens 0 (.esc 's' :: .raw '+' :: s) =
      (tokens 0 s).map (Token.atom .blank .plus :: ·) := by
    have hplus : Pcre.quantifier? (.raw '+' :: s) = some (.plus, 1) := by
      have h : Pcre.quantifier? (.raw '+' :: s) =
        if isQuantifier s ∨ '+' = '\x7b' then none else some (Quant.plus, 1) := rfl
      rw [h, if_neg (by simp [hs])]
    have htoken : Pcre.token? (.esc 's') (.raw '+' :: s) = some (.atom .blank .plus, 1) := by
      have h : Pcre.token? (.esc 's') (.raw '+' :: s) =
        (Pcre.quantifier? (.raw '+' :: s)).map fun p => (Token.atom .blank p.1, p.2) := rfl
      rw [h, hplus]
      rfl
    exact Pcre.tokens_cons htoken
  have hstart : ∀ u, tokens 0 (.raw '^' :: (numberSyms ++ u)) =
      (tokens 0 (numberSyms ++ u)).map (Token.start :: ·) := fun u => rfl
  simp only [headSyms, List.cons_append, List.append_assoc]
  rw [hstart, tokens_number (.inl rfl), tokens_dot, tokens_number (.inl rfl), tokens_dot,
    tokens_number (.inl rfl), tokens_dot, tokens_number (.inr rfl), hblank]
  simp only [Option.map_map]
  rfl

/-- A counter of the hostname is one of the expression. -/
theorem isCounter_rawText (rest : Text) (s : List Sym) :
    Pcre.isCounter (Pcre.rawText (rest.map symOf ++ .raw '(' :: s)) = Pcre.isCounter rest := by
  have hstop : ∀ t d u, (d = '(' ∨ d = '.' ∨ d = '*') →
      Pcre.isCounter (t ++ d :: u) = Pcre.isCounter t := by
    rintro t d u (rfl | rfl | rfl) <;> exact Pcre.isCounter_append (by decide) u
  have hraw : ∀ t : Text, (∃ u, Pcre.rawText (t.map symOf ++ .raw '(' :: s) = t ++ '(' :: u) ∨
      ∃ v d u, t = v ++ d :: u ∧ (d = '.' ∨ d = '*') ∧
        Pcre.rawText (t.map symOf ++ .raw '(' :: s) = v := by
    intro t
    induction t with
    | nil => exact .inl ⟨Pcre.rawText s, rfl⟩
    | cons c t ih =>
        by_cases hc : c = '.' ∨ c = '*'
        · refine .inr ⟨[], c, t, rfl, hc, ?_⟩
          rw [List.map_cons, symOf, if_pos hc]
          rfl
        · have hcons : Pcre.rawText ((c :: t).map symOf ++ .raw '(' :: s) =
              c :: Pcre.rawText (t.map symOf ++ .raw '(' :: s) := by
            rw [List.map_cons, symOf, if_neg hc]
            rfl
          rw [hcons]
          rcases ih with ⟨u, hu⟩ | ⟨v, d, u, rfl, hd, hv⟩
          · exact .inl ⟨u, by rw [hu]; rfl⟩
          · exact .inr ⟨c :: v, d, u, rfl, hd, by rw [hv]⟩
  rcases hraw rest with ⟨u, hu⟩ | ⟨v, d, u, rfl, hd, hv⟩
  · rw [hu]
    exact hstop rest '(' u (.inl rfl)
  · rw [hv]
    exact (hstop v d u (.inr hd)).symm

theorem Unmarked.tail {c : Char} {t : Text} (h : Unmarked (c :: t)) : Unmarked t :=
  ⟨fun d hd => h.1 d (List.mem_cons_of_mem c hd),
    fun u hu => h.2 u (List.mem_cons_of_mem (c :: t) hu)⟩

/-- No quantifier stands in a hostname or behind it. -/
theorem isQuantifier_unmarked {hostname : Text} (h : Unmarked hostname) :
    isQuantifier (hostname.map symOf ++ endSyms) = false := by
  cases hostname with
  | nil => rfl
  | cons c t =>
      rw [List.map_cons, symOf, List.cons_append]
      split
      · rfl
      · next hc =>
          have hmarks := h.1 c List.mem_cons_self
          have hcounter : c = '\x7b' → Pcre.isCounter t = false := fun heq =>
            h.2 (c :: t) (by simp) (congrArg some heq)
          rw [Pcre.isQuantifier_raw, endSyms, isCounter_rawText]
          have hne : c ≠ '?' ∧ c ≠ '*' ∧ c ≠ '+' := by
            refine ⟨?_, fun heq => hc (.inr heq), ?_⟩
            · rintro rfl
              exact hmarks (by decide)
            · rintro rfl
              exact hmarks (by decide)
          by_cases hbrace : c = '\x7b'
          · simp [hne, hcounter hbrace]
          · simp [hne, hbrace]

/-- A character of such a hostname stands for itself. -/
theorem token?_symOf {c : Char} {t : Text} (h : Unmarked (c :: t)) (s : List Sym)
    (hs : c = '\x7b' → Pcre.isCounter (Pcre.rawText s) = Pcre.isCounter t) :
    Pcre.token? (symOf c) s = Pcre.atom (.lit c) s := by
  have hmarks := h.1 c List.mem_cons_self
  by_cases hc : c = '.' ∨ c = '*'
  · rw [symOf, if_pos hc]
    rcases hc with rfl | rfl <;> rfl
  · have hsigns : c ∉ Pcre.signs := fun hmem =>
      hmarks ((by decide : Pcre.signs ⊆ "\\^$[|()?+`\x00".toList) hmem)
    have hnone : ¬ (c ∈ "[*\x00".toList ∨ (c = '\x7b' ∧ Pcre.isCounter (Pcre.rawText s) = true)) := by
      rintro (hmem | ⟨heq, hcounter⟩)
      · rcases (by simpa using hmem : c = '[' ∨ c = '*' ∨ c = '\x00') with rfl | rfl | rfl
        · exact hmarks (by decide)
        · exact hc (.inr rfl)
        · exact hmarks (by decide)
      · have hnot : Pcre.isCounter t = false := h.2 (c :: t) (by simp) (congrArg some heq)
        rw [hs heq, hnot] at hcounter
        cases hcounter
    rw [symOf, if_neg hc, Pcre.token?, if_neg hsigns, if_neg hnone, Pcre.plain,
      if_neg fun heq => hc (.inl heq)]

theorem tokens_hostname {hostname : Text} (h : Unmarked hostname) :
    tokens 0 (hostname.map symOf ++ endSyms) =
      some ((hostname.map fun c => Token.atom (.lit c) .one) ++ endTokens) := by
  induction hostname with
  | nil => rfl
  | cons c t ih =>
      have hquant := Pcre.quantifier?_none (isQuantifier_unmarked h.tail)
      have htoken : Pcre.token? (symOf c) (t.map symOf ++ endSyms) =
          some (.atom (.lit c) .one, 0) := by
        have hatom : Pcre.atom (.lit c) (t.map symOf ++ endSyms) =
            some (.atom (.lit c) .one, 0) := by
          rw [Pcre.atom, hquant]
          rfl
        rw [← hatom]
        exact token?_symOf h _ fun _ => isCounter_rawText t _
      rw [List.map_cons, List.cons_append, Pcre.tokens_cons htoken, ih h.tail]
      rfl

/-- The regular expression for a hostname without signs. -/
def literalRegex (hostname : Text) : Regex :=
  .seq (Regex.seqAll (Regex.seqAll (.seq .empty .start)
      (headAtoms.map fun p => p.2.apply (.char p.1))) (hostname.map fun c => .char (.lit c)))
    (.alt (.seq .empty .stop) (.seq (.seq .empty (.char .blank)) (.many (.char .any))))

theorem compile_unmarked {hostname : Text} (h : Unmarked hostname) :
    Pcre.compile (patternBody hostname) = some (some (literalRegex hostname)) := by
  have hback : '\\' ∉ hostname := fun hmem => h.1 '\\' hmem (by decide)
  rw [Pcre.compile, syms_patternBody hback, Option.bind_some,
    tokens_head (isQuantifier_unmarked h), tokens_hostname h]
  have hatoms : hostname.map (fun c => Token.atom (.lit c) .one) =
      (hostname.map fun c => (Atom.lit c, Quant.one)).map fun p => Token.atom p.1 p.2 := by
    rw [List.map_map]
    rfl
  have hparse : Pcre.parse (Token.start :: headAtoms.map (fun p => .atom p.1 p.2) ++
      ((hostname.map fun c => Token.atom (.lit c) .one) ++ endTokens)) =
        some (literalRegex hostname) := by
    have hstart : ∀ ts, (Token.start :: ts).foldlM Pcre.stepToken [⟨none, .empty⟩] =
        ts.foldlM Pcre.stepToken [⟨none, .seq .empty .start⟩] := fun ts => rfl
    rw [Pcre.parse, List.cons_append, hstart, Pcre.foldlM_stepToken_atoms, hatoms,
      Pcre.foldlM_stepToken_atoms, List.map_map]
    rfl
  rw [Option.map_some, Option.map_some, hparse]

/-! ## What the expression finds -/

/-- Behind the hostname the line ends, or white space follows. -/
theorem exists_mem_ends_end {m : Bool} {v : Text} :
    (∃ b u, (b, u) ∈ Regex.ends (.alt (.seq .empty .stop)
        (.seq (.seq .empty (.char .blank)) (.many (.char .any)))) m v) ↔
      ∀ c ∈ v.head?, isBlank c = true := by
  constructor
  · rintro ⟨b, u, h⟩ c hc
    obtain ⟨t, rfl⟩ := List.head?_eq_some_iff.mp hc
    rcases Regex.mem_ends_alt.mp h with h | h
    · obtain ⟨m', v', hv, hstop⟩ := Regex.mem_ends_seq.mp h
      obtain ⟨-, rfl⟩ := Regex.mem_ends_empty.mp hv
      obtain ⟨hend, -, -⟩ := Regex.mem_ends_stop.mp hstop
      rcases hend with hend | hend
      · cases hend
      · obtain ⟨rfl, -⟩ := List.cons.inj hend
        rfl
    · obtain ⟨m', v', hv, -⟩ := Regex.mem_ends_seq.mp h
      obtain ⟨m'', v'', hempty, hblank⟩ := Regex.mem_ends_seq.mp hv
      obtain ⟨-, rfl⟩ := Regex.mem_ends_empty.mp hempty
      obtain ⟨-, d, hd, heq⟩ := Regex.mem_ends_char.mp hblank
      obtain ⟨rfl, -⟩ := List.cons.inj heq
      exact hd
  · intro h
    cases v with
    | nil =>
        exact ⟨m, [], Regex.mem_ends_alt.mpr (.inl (Regex.mem_ends_seq.mpr ⟨m, [],
          Regex.mem_ends_empty.mpr ⟨rfl, rfl⟩, Regex.mem_ends_stop.mpr ⟨.inl rfl, rfl, rfl⟩⟩))⟩
    | cons c t =>
        have hblank : (false, t) ∈ Regex.ends (.seq .empty (.char .blank)) m (c :: t) :=
          Regex.mem_ends_seq.mpr ⟨m, c :: t, Regex.mem_ends_empty.mpr ⟨rfl, rfl⟩,
            Regex.mem_ends_char.mpr ⟨rfl, c, h c rfl, rfl⟩⟩
        have hmany : (false, t) ∈ Regex.ends (.many (.char .any)) false t :=
          Regex.mem_ends_many_char.mpr ⟨[], rfl, by simp, rfl⟩
        exact ⟨false, t, Regex.mem_ends_alt.mpr (.inr (Regex.mem_ends_seq.mpr ⟨false, t,
          hblank, hmany⟩))⟩

section Head

variable {r : Regex} {m b : Bool} {t v : Text}

theorem mem_ends_number :
    (m, v) ∈ Regex.ends (.seq r ((Quant.times 1 3).apply (.char .digit))) b t ↔
      m = false ∧ ∃ m' n, (m', n ++ v) ∈ Regex.ends r b t ∧ Number n := by
  rw [Regex.mem_ends_seq]
  constructor
  · rintro ⟨m', v', hr, hnumber⟩
    obtain ⟨n, rfl, hdigits, hone, hthree, rfl⟩ :=
      (Regex.mem_ends_times_char (by decide)).mp hnumber
    obtain ⟨c, n, rfl⟩ := List.exists_cons_of_length_pos hone
    exact ⟨by simp, m', c :: n, hr, hdigits, hone, hthree⟩
  · rintro ⟨rfl, m', n, hr, hdigits, hone, hthree⟩
    obtain ⟨c, n, rfl⟩ := List.exists_cons_of_length_pos hone
    exact ⟨m', c :: n ++ v, hr, (Regex.mem_ends_times_char (by decide)).mpr
      ⟨c :: n, rfl, hdigits, hone, hthree, by simp⟩⟩

theorem mem_ends_dot : (m, v) ∈ Regex.ends (.seq r (Quant.one.apply (.char (.lit '.')))) b t ↔
    m = false ∧ ∃ m', (m', '.' :: v) ∈ Regex.ends r b t := by
  rw [Regex.mem_ends_seq]
  constructor
  · rintro ⟨m', v', hr, hdot⟩
    obtain ⟨rfl, c, hc, rfl⟩ := Regex.mem_ends_char.mp hdot
    obtain rfl : '.' = c := beq_iff_eq.mp hc
    exact ⟨rfl, m', hr⟩
  · rintro ⟨rfl, m', hr⟩
    exact ⟨m', _, hr, Regex.mem_ends_char.mpr ⟨rfl, '.', rfl, rfl⟩⟩

theorem mem_ends_blanks :
    (m, v) ∈ Regex.ends (.seq r (Quant.plus.apply (.char .blank))) b t ↔
      m = false ∧ ∃ m' w, (m', w ++ v) ∈ Regex.ends r b t ∧ w ≠ [] ∧
        ∀ c ∈ w, isBlank c = true := by
  rw [Regex.mem_ends_seq]
  constructor
  · rintro ⟨m', v', hr, hblanks⟩
    obtain ⟨w, rfl, hne, hw, rfl⟩ := Regex.mem_ends_plus_char.mp hblanks
    exact ⟨rfl, m', w, hr, hne, hw⟩
  · rintro ⟨rfl, m', w, hr, hne, hw⟩
    exact ⟨m', w ++ v, hr, Regex.mem_ends_plus_char.mpr ⟨w, rfl, hne, hw, rfl⟩⟩

theorem mem_ends_first : (m, v) ∈ Regex.ends (.seq .empty .start) b t ↔
    b = true ∧ m = b ∧ v = t := by
  simp only [Regex.mem_ends_seq, Regex.mem_ends_empty, Regex.mem_ends_start]
  constructor
  · rintro ⟨m', v', ⟨rfl, rfl⟩, hb, hm, hv⟩
    exact ⟨hb, hm, hv⟩
  · rintro ⟨hb, hm, hv⟩
    exact ⟨b, t, ⟨rfl, rfl⟩, hb, hm, hv⟩

/-- The address and the white space behind it. -/
theorem mem_ends_head : (m, v) ∈ Regex.ends (Regex.seqAll (.seq .empty .start)
        (headAtoms.map fun p => p.2.apply (.char p.1))) b t ↔
      b = true ∧ m = false ∧ ∃ address blanks, IsAddress address ∧ blanks ≠ [] ∧
        (∀ c ∈ blanks, isBlank c = true) ∧ t = address ++ (blanks ++ v) := by
  simp only [headAtoms, List.map_cons, List.map_nil, Regex.seqAll, List.foldl_cons, List.foldl_nil,
    mem_ends_blanks, mem_ends_number, mem_ends_dot, mem_ends_first]
  constructor
  · rintro ⟨rfl, -, w, ⟨-, -, n₄, ⟨-, -, -, -, n₃, ⟨-, -, -, -, n₂, ⟨-, -, -, -, n₁,
      ⟨hb, -, rfl⟩, h₁⟩, h₂⟩, h₃⟩, h₄⟩, hne, hw⟩
    refine ⟨hb, rfl, n₁ ++ '.' :: (n₂ ++ '.' :: (n₃ ++ '.' :: n₄)), w, ?_, hne, hw, by simp⟩
    exact stripAddress_iff.mpr ⟨n₁, n₂, n₃, n₄, h₁, h₂, h₃, h₄, by simp, fun _ hc => by cases hc⟩
  · rintro ⟨hb, rfl, address, w, haddress, hne, hw, rfl⟩
    obtain ⟨n₁, n₂, n₃, n₄, h₁, h₂, h₃, h₄, rfl, -⟩ := stripAddress_iff.mp haddress
    refine ⟨rfl, false, w, ⟨rfl, false, n₄, ⟨rfl, false, rfl, false, n₃, ⟨rfl, false, rfl, false, n₂,
      ⟨rfl, false, rfl, b, n₁, ⟨hb, rfl, by simp⟩, h₁⟩, h₂⟩, h₃⟩, h₄⟩, hne, hw⟩

end Head

theorem found_literalRegex {hostname item : Text} :
    (literalRegex hostname).found true item = true ↔ IsLineFor hostname item := by
  rw [Regex.found_iff]
  constructor
  · rintro ⟨pre, v, b', u, rfl, hmem⟩
    obtain ⟨m, v', hhead, hend⟩ := Regex.mem_ends_seq.mp hmem
    obtain ⟨m', v'', haddress, rfl, -⟩ := (Regex.mem_ends_seqAll_lit hostname).mp hhead
    obtain ⟨hstart, -, address, blanks, hdotted, hne, hblanks, rfl⟩ := mem_ends_head.mp haddress
    obtain rfl : pre = [] := by simpa using hstart
    exact ⟨address, blanks, v', hdotted, hne, hblanks, exists_mem_ends_end.mp ⟨b', u, hend⟩, rfl⟩
  · rintro ⟨address, blanks, rest, hdotted, hne, hblanks, hrest, rfl⟩
    obtain ⟨b', u, hend⟩ := (exists_mem_ends_end (m := false && hostname.isEmpty)).mpr hrest
    refine ⟨[], _, b', u, rfl, Regex.mem_ends_seq.mpr ⟨_, rest, ?_, hend⟩⟩
    refine (Regex.mem_ends_seqAll_lit hostname).mpr ⟨false, hostname ++ rest, ?_, rfl, rfl⟩
    exact mem_ends_head.mpr ⟨rfl, rfl, address, blanks, hdotted, hne, hblanks, rfl⟩

/-! ## What the engine answers -/

theorem mem_escape {c : Char} {hostname : Text} (h : c ∈ escape hostname) :
    c ∈ hostname ∨ c = '\\' := by
  obtain ⟨d, hd, hc⟩ := List.mem_flatMap.mp h
  split at hc
  · rcases List.mem_cons.mp hc with rfl | hc
    · exact .inr rfl
    · exact .inl (List.mem_singleton.mp hc ▸ hd)
  · exact .inl (List.mem_singleton.mp hc ▸ hd)

theorem mark_not_mem_patternHead : '`' ∉ patternHead := by decide +kernel

/-- Without its delimiter in it the expression is read as a whole. -/
theorem pregMatch?_pattern {hostname : Text} (h : '`' ∉ hostname) (item : Text) :
    pregMatch? (pattern hostname) item =
      (Pcre.compile (patternBody hostname)).map fun r => r.any (Regex.found · true item) := by
  have hend : '`' ∉ patternEnd := by decide +kernel
  have hbody : '`' ∉ patternBody hostname := by
    simp only [patternBody, List.mem_append, not_or]
    refine ⟨mark_not_mem_patternHead, fun hmem => ?_, hend⟩
    rcases mem_escape hmem with hmem | heq
    · exact h hmem
    · cases heq
  obtain ⟨t, ht⟩ : ∃ t, patternEnd = t ++ [')'] := ⟨patternEnd.dropLast, by decide +kernel⟩
  have hlast : (patternBody hostname).getLast? ≠ some '\\' := by
    rw [patternBody, ht, ← List.append_assoc, ← List.append_assoc, List.getLast?_concat]
    decide
  have hnone : ¬ ∃ c ∈ ([] : Text), c ∉ "imsxeADSUXJun \r\n".toList := fun ⟨_, hc, _⟩ =>
    absurd hc List.not_mem_nil
  rw [pattern_eq, List.cons_append, Pcre.pregMatch?_mark hbody hlast, if_neg hnone,
    if_neg (not_not.mpr rfl)]

/-- With the delimiter in the hostname, what follows is taken for modifiers. -/
theorem pregMatch?_of_mark {hostname : Text} (h : '`' ∈ hostname) (hback : '\\' ∉ hostname)
    (item : Text) : pregMatch? (pattern hostname) item = some false := by
  obtain ⟨u, w, rfl, hu⟩ := List.eq_append_cons_of_mem h
  have hescape : escape (u ++ '`' :: w) = escape u ++ '`' :: escape w := by
    rw [escape, List.flatMap_append, List.flatMap_cons]
    rfl
  have hfront : '`' ∉ patternHead ++ escape u := by
    intro hmem
    rcases List.mem_append.mp hmem with hmem | hmem
    · exact mark_not_mem_patternHead hmem
    · rcases mem_escape hmem with hmem | heq
      · exact hu hmem
      · cases heq
  have hlast : (patternHead ++ escape u).getLast? ≠ some '\\' := by
    induction u using List.reverseRecOn with
    | nil =>
        obtain ⟨t, ht⟩ : ∃ t, patternHead = t ++ ['+'] := ⟨patternHead.dropLast, by decide +kernel⟩
        rw [escape, List.flatMap_nil, List.append_nil, ht, List.getLast?_concat]
        decide
    | append_singleton u c _ =>
        have hc : c ≠ '\\' := by
          rintro rfl
          exact hback (by simp)
        obtain ⟨t, ht⟩ : ∃ t, escape (u ++ [c]) = t ++ [c] := by
          rw [escape, List.flatMap_append, List.flatMap_singleton]
          split
          · exact ⟨escape u ++ ['\\'], by simp [escape]⟩
          · exact ⟨escape u, rfl⟩
        rw [ht, ← List.append_assoc, List.getLast?_concat]
        simpa using hc
  have hsplit : patternBody (u ++ '`' :: w) ++ ['`'] =
      (patternHead ++ escape u) ++ '`' :: (escape w ++ patternEnd ++ ['`']) := by
    rw [patternBody, hescape]
    simp
  have hmodifier : ∃ c ∈ escape w ++ patternEnd ++ ['`'], c ∉ "imsxeADSUXJun \r\n".toList :=
    ⟨'(', List.mem_append_left _ (List.mem_append_right _ (by decide +kernel)), by decide +kernel⟩
  rw [pattern_eq, List.cons_append, hsplit, Pcre.pregMatch?_mark hfront hlast, if_pos hmodifier]

/-! ## Which hostnames are taken literally -/

section Engine

variable {preg : Text → Text → Bool} (hpreg : Understands preg) {hostname : Text}
include hpreg

/-- Without signs the engine finds the lines for the hostname, so that nothing is lost by
reading a plain hostname literally. -/
theorem preg_pattern (h : Unmarked hostname) (item : Text) :
    preg (pattern hostname) item = literalMatch hostname item := by
  have hmark : '`' ∉ hostname := fun hmem => h.1 '`' hmem (by decide)
  have hanswer := hpreg (pattern hostname) item ((literalRegex hostname).found true item)
    (by rw [pregMatch?_pattern hmark, compile_unmarked h]; rfl)
  rw [hanswer, Bool.eq_iff_iff, found_literalRegex, literalMatch_iff]
  rfl

theorem removesLiterally_of_unmarked (h : Unmarked hostname) : RemovesLiterally preg hostname := by
  intro file
  refine List.filter_congr fun item _ => ?_
  have hmatch : matchesLine preg hostname item = literalMatch hostname item := by
    unfold matchesLine
    split
    · rfl
    · exact preg_pattern hpreg h item
  have hline : literalMatch hostname item = decide (IsLineFor hostname item) := by
    rw [Bool.eq_iff_iff, literalMatch_iff, decide_eq_true_iff]
    rfl
  rw [hmatch, hline, decide_not]

end Engine

/-- The line that is written for a hostname, with one of its characters twice, is no line for
the hostname. -/
theorem not_isLineFor_doubled {x y : Text} {c : Char} (hc : isBlank c = false) {address : Text}
    (haddress : IsAddress address) :
    ¬ IsLineFor (x ++ c :: y) (address ++ ' ' :: (x ++ c :: c :: y)) := by
  rintro ⟨address', blanks, rest, haddress', hne, hblanks, hrest, heq⟩
  have hdigit : ∀ d, isBlank d = true → d.isDigit = false := by
    intro d hd
    rw [← Bool.not_eq_true]
    intro hdigit
    have hhost : isHostChar d = true := by simp [isHostChar, hdigit]
    rw [(isHostChar_spec hhost).1] at hd
    cases hd
  obtain ⟨b, blanks, rfl⟩ := List.exists_cons_of_ne_nil hne
  have hfirst : NoDigit (' ' :: (x ++ c :: c :: y)) := fun d hd => by
    cases hd
    rfl
  have hfirst' : NoDigit (b :: blanks ++ ((x ++ c :: y) ++ rest)) := fun d hd => by
    cases hd
    exact hdigit b (hblanks b List.mem_cons_self)
  have hstrip := stripAddress_append haddress hfirst
  have hstrip' := stripAddress_append haddress' hfirst'
  rw [heq, hstrip'] at hstrip
  have htail : blanks ++ ((x ++ c :: y) ++ rest) = x ++ c :: c :: y :=
    (List.cons.inj (Option.some.inj hstrip)).2
  have hblanks' : c ∉ blanks := fun hmem => by
    have hblank := hblanks c (List.mem_cons_of_mem b hmem)
    rw [hc] at hblank
    cases hblank
  have hcount := congrArg (List.count c) htail
  have hlength := congrArg List.length htail
  simp only [List.count_append, List.count_cons_self, List.count_eq_zero_of_not_mem hblanks',
    List.length_append, List.length_cons] at hcount hlength
  have hmem : c ∈ rest := List.count_pos_iff.mp (by omega)
  obtain ⟨d, rest', rfl⟩ := List.exists_cons_of_ne_nil (List.ne_nil_of_mem hmem)
  have hd : c ≠ d := by
    rintro rfl
    have hblank := hrest c rfl
    rw [hc] at hblank
    cases hblank
  have hpos := List.length_pos_of_mem ((List.mem_cons.mp hmem).resolve_left hd)
  simp only [List.length_cons] at hlength
  omega

/-- What a hostname must look like for its expression to be read here: it is on one line, and
neither classes nor backslashes nor counters stand in it. -/
structure Modelled (hostname : Text) : Prop where
  line : '\n' ∉ hostname
  last : ∀ c ∈ hostname.getLast?, Text.isTrimChar c = false
  signs : ∀ c ∈ hostname, c ∉ ['\\', '[', '\x00']
  counter : ∀ t ∈ hostname.tails, t.head? = some '\x7b' → Pcre.isCounter t.tail = false
  compiled : '`' ∈ hostname ∨ (Pcre.compile (patternBody hostname)).isSome

instance (hostname : Text) : Decidable (Modelled hostname) :=
  decidable_of_iff ('\n' ∉ hostname ∧ (∀ c ∈ hostname.getLast?, Text.isTrimChar c = false) ∧
      (∀ c ∈ hostname, c ∉ ['\\', '[', '\x00']) ∧
      (∀ t ∈ hostname.tails, t.head? = some '\x7b' → Pcre.isCounter t.tail = false) ∧
      ('`' ∈ hostname ∨ (Pcre.compile (patternBody hostname)).isSome))
    ⟨fun ⟨h₁, h₂, h₃, h₄, h₅⟩ => ⟨h₁, h₂, h₃, h₄, h₅⟩,
      fun h => ⟨h.line, h.last, h.signs, h.counter, h.compiled⟩⟩

theorem deaf_sign {c : Char} (hc : c ∈ Pcre.signs) : c ∈ "\\^$[|()?+`\x00".toList ∧
    isBlank c = false ∧ c ≠ '\n' := by
  revert c
  decide

/-- No sign of a hostname is read where it stands. -/
theorem deaf_of_compile {hostname : Text} (hback : '\\' ∉ hostname) {c : Char}
    (hc : c ∈ Pcre.signs) {r : Regex} (h : Pcre.compile (patternBody hostname) = some (some r)) :
    r.Deaf c := by
  rw [Pcre.compile, syms_patternBody hback, Option.bind_some] at h
  obtain ⟨ts, htokens, hparse⟩ := Option.map_eq_some_iff.mp h
  have hfixed : ∀ c ∈ Pcre.signs, Sym.esc c ∉ headSyms ++ [.esc 's', .raw '+'] ∧
      Sym.esc c ∉ endSyms ∧ c ≠ '.' ∧ c ≠ '*' := by decide
  obtain ⟨hhead, hend, hdot, hstar⟩ := hfixed c hc
  have hassoc : headSyms ++ (.esc 's' :: .raw '+' :: (hostname.map symOf ++ endSyms)) =
      (headSyms ++ [.esc 's', .raw '+'] ++ hostname.map symOf) ++ endSyms := by simp
  rw [hassoc] at htokens
  refine Pcre.parse_deaf (Pcre.tokens_deaf hc (fun hmem => ?_) (fun u hu => ?_) htokens) hparse
  · rcases List.mem_append.mp hmem with hmem | hmem
    · rcases List.mem_append.mp hmem with hmem | hmem
      · exact hhead hmem
      · obtain ⟨d, -, hd⟩ := List.mem_map.mp hmem
        unfold symOf at hd
        split at hd
        · next hescaped =>
            obtain rfl := Sym.esc.inj hd
            exact hescaped.elim hdot hstar
        · cases hd
    · exact hend hmem
  · have hnone : Sym.raw '.' ∉ headSyms ++ [.esc 's', .raw '+'] ++ hostname.map symOf := by
      intro hmem
      rcases List.mem_append.mp hmem with hmem | hmem
      · exact absurd hmem (by decide)
      · obtain ⟨d, -, hd⟩ := List.mem_map.mp hmem
        unfold symOf at hd
        split at hd
        · cases hd
        · next hplain => exact hplain (.inl (Sym.raw.inj hd))
    have htails : ∀ t ∈ endSyms.tails, t.head? = some (.raw '.') →
        t.tail.head? = some (.raw '*') := by decide
    obtain ⟨pre, hpre⟩ := hu
    rcases List.append_eq_append_iff.mp hpre with ⟨z, hz, hdots⟩ | ⟨z, -, hz⟩
    · cases z with
      | nil => cases hdots
      | cons x z =>
          obtain ⟨rfl, -⟩ := List.cons.inj hdots
          exact absurd (hz ▸ by simp) hnone
    · exact htails (.raw '.' :: u) ((List.mem_tails _ _).mpr ⟨z, hz.symm⟩) rfl

def sampleAddress : Text := "1.2.3.4".toList

/-- A line for a hostname. -/
def sampleLine (hostname : Text) : Text := sampleAddress ++ ' ' :: hostname

theorem load_sampleLine {hostname : Text} (hline : '\n' ∉ hostname)
    (hlast : ∀ c ∈ hostname.getLast?, Text.isTrimChar c = false) (hne : hostname ≠ []) :
    load (sampleLine hostname) = [sampleLine hostname] := by
  have hbreak : '\n' ∉ sampleLine hostname := by
    intro hmem
    rcases List.mem_append.mp hmem with hmem | hmem
    · exact absurd hmem (by decide +kernel)
    · exact hline ((List.mem_cons.mp hmem).resolve_left (by decide))
  have hdrop : (sampleLine hostname).dropWhile Text.isTrimChar = sampleLine hostname :=
    List.dropWhile_cons_of_neg (by decide)
  have hend : (sampleLine hostname).rdropWhile Text.isTrimChar = sampleLine hostname := by
    rw [List.rdropWhile_eq_self_iff]
    intro hline
    have hsplit : (sampleLine hostname).getLast hline = hostname.getLast hne :=
      (List.getLast_append_of_ne_nil hline (List.cons_ne_nil ' ' hostname)).trans
        (List.getLast_cons hne)
    rw [hsplit, hlast _ (List.getLast?_eq_some_getLast hne)]
    decide
  rw [load, Text.lines_of_not_mem hbreak, Text.trim, hdrop, hend]

/-- A sign in the hostname makes the engine miss its line, or find another one. -/
theorem not_removesLiterally {preg : Text → Text → Bool} (hpreg : Understands preg) {hostname : Text}
    (h : Modelled hostname) (hunmarked : ¬ Unmarked hostname) :
    ¬ RemovesLiterally preg hostname := by
  intro hremoves
  obtain ⟨c, hmem, hmark⟩ : ∃ c ∈ hostname, c ∈ "\\^$[|()?+`\x00".toList := by
    by_contra hnone
    exact hunmarked ⟨fun c hc hmark => hnone ⟨c, hc, hmark⟩, h.counter⟩
  have hplain : ¬ Plain hostname := fun hplain => by
    have hsub : "\\^$[|()?+`\x00".toList ⊆ "\\^$[|()?+\x7b`\x00".toList := by decide
    exact hplain c hmem (hsub hmark)
  have hanswer : ∀ item, load item = [item] →
      (preg (pattern hostname) item = true ↔ IsLineFor hostname item) := by
    intro item hload
    have hfile := hremoves item
    rw [hload, remove, List.filter_singleton, List.filter_singleton, matchesLine,
      if_neg hplain] at hfile
    by_cases hline : IsLineFor hostname item
    · cases hfound : preg (pattern hostname) item with
      | false => simp [hfound, hline] at hfile
      | true => exact iff_of_true rfl hline
    · cases hfound : preg (pattern hostname) item with
      | false => exact iff_of_false Bool.false_ne_true hline
      | true => simp [hfound, hline] at hfile
  have hback : '\\' ∉ hostname := fun hmem => h.signs '\\' hmem (by decide)
  have haddress : IsAddress sampleAddress := by decide
  have hne : hostname ≠ [] := List.ne_nil_of_mem hmem
  have hwritten : preg (pattern hostname) (sampleLine hostname) = true :=
    (hanswer _ (load_sampleLine h.line h.last hne)).mpr ⟨sampleAddress, [' '], [], haddress,
      List.cons_ne_nil _ _, by decide, fun _ hc => (by cases hc), by simp [sampleLine]⟩
  by_cases hdelimiter : '`' ∈ hostname
  · rw [hpreg _ _ _ (pregMatch?_of_mark hdelimiter hback _)] at hwritten
    cases hwritten
  obtain ⟨x, hx⟩ := Option.isSome_iff_exists.mp (h.compiled.resolve_left hdelimiter)
  have hengine : ∀ item, preg (pattern hostname) item = x.any (Regex.found · true item) :=
    fun item => hpreg _ _ _ (by rw [pregMatch?_pattern hdelimiter, hx]; rfl)
  cases x with
  | none =>
      rw [hengine] at hwritten
      cases hwritten
  | some r =>
      have hsign : c ∈ Pcre.signs := by
        have hcases : ∀ c ∈ "\\^$[|()?+`\x00".toList,
            c ∈ Pcre.signs ∨ c ∈ ['\\', '[', '\x00'] ∨ c = '`' := by decide
        rcases hcases c hmark with hsign | hother | rfl
        · exact hsign
        · exact absurd hother (h.signs c hmem)
        · exact absurd hmem hdelimiter
      obtain ⟨-, hblank, hbreak⟩ := deaf_sign hsign
      obtain ⟨y, z, rfl⟩ := List.append_of_mem hmem
      have hdoubled : Regex.Doubled c (sampleLine (y ++ c :: z)) (sampleLine (y ++ c :: c :: z)) :=
        .inr ⟨sampleAddress ++ ' ' :: y, z, by simp [sampleLine], by simp [sampleLine]⟩
      have htwice : preg (pattern (y ++ c :: z)) (sampleLine (y ++ c :: c :: z)) = true := by
        rw [hengine] at hwritten ⊢
        exact Regex.found_doubled hbreak (deaf_of_compile hback hsign hx) hwritten hdoubled
      have hload : load (sampleLine (y ++ c :: c :: z)) = [sampleLine (y ++ c :: c :: z)] := by
        refine load_sampleLine (fun hmem => h.line ?_) (fun d hd => h.last d ?_) (by simp)
        · simpa using hmem
        · simpa using hd
      exact not_isLineFor_doubled hblank haddress ((hanswer _ hload).mp htwice)

/-- A hostname without signs is taken literally, whatever the engine does with other
expressions. Among the hostnames whose expression is read here it is the only kind. -/
theorem removes_literally_iff {preg : Text → Text → Bool} (hpreg : Understands preg)
    (hostname : Text) : (Unmarked hostname → RemovesLiterally preg hostname) ∧
      (Modelled hostname → (RemovesLiterally preg hostname ↔ Unmarked hostname)) := by
  refine ⟨removesLiterally_of_unmarked hpreg, fun hmodelled => ⟨fun hremoves => ?_,
    removesLiterally_of_unmarked hpreg⟩⟩
  by_contra hunmarked
  exact not_removesLiterally hpreg hmodelled hunmarked hremoves

theorem removes_literally_sample :
    RemovesLiterally Pcre.pregMatch "www.site.test".toList ∧
      ¬ RemovesLiterally Pcre.pregMatch "a+.site.test".toList :=
  ⟨(removes_literally_iff Pcre.understands_pregMatch "www.site.test".toList).1 (by decide +kernel),
    fun h => absurd (((removes_literally_iff Pcre.understands_pregMatch "a+.site.test".toList).2
      (by decide +kernel)).mp h) (by decide +kernel)⟩

/-- The hostnames that the operations on sites pass. -/
def Passed (hostname : Text) : Prop :=
  ∃ name, Site.matchesDomain name = true ∧ (hostname = name ∨
    ∃ aliases, ∃ a ∈ Site.stringToCleanAliasArray aliases, hostname = Site.hostnameOf name a)

/-- The alias `a|b` of the site `c`: the line for `ax` is removed, too. -/
theorem alternatives_removed : ¬ ∀ preg, Understands preg → ∀ hostname, Passed hostname →
    RemovesLiterally preg hostname := by
  intro h
  have hpassed : Passed "a|b.c".toList :=
    ⟨"c".toList, by decide +kernel, .inr ⟨"a|b".toList, "a|b".toList, by decide +kernel,
      by decide +kernel⟩⟩
  have hremoves := h Pcre.pregMatch Pcre.understands_pregMatch _ hpassed "127.0.0.1 ax".toList
  exact absurd hremoves (by decide +kernel)

end Hosts

end WampManager
