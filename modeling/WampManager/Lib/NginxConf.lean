/-
# Reading Nginx configuration

A configuration is read character by character into words, semicolons and braces. A
word stands in quotation marks or ends at white space, a semicolon or an opening
brace; a backslash takes the character behind it along, and a brace behind a dollar
sign belongs to the word. A few characters behind a backslash stand for others. The
module says which texts read back as the words they are: a directive is read as it was
written exactly if each of its words is plain, or free of its mark where it is quoted.
-/

import WampManager.Lib.Text
import WampManager.Lib.Transducer

namespace NginxConf

/-- What a configuration is made of; reading ends at an error. -/
inductive Token
  | word (w : Text)
  | semicolon
  | opening
  | closing
  | error
  deriving DecidableEq

/-- White space. -/
def isSpace (c : Char) : Bool := c == ' ' || c == '\t' || c == '\r' || c == '\n'

/-- The last character of a word: an ordinary one, a backslash that takes the next one
along, or a dollar sign. -/
inductive Mode
  | plain
  | escaped
  | dollar
  deriving DecidableEq

namespace Mode

/-- The next character of a word. -/
def next (mode : Mode) (c : Char) : Mode :=
  if mode = .escaped then .plain
  else if mode = .dollar ∧ c = '\x7b' then .dollar
  else if c = '\\' then .escaped
  else if c = '$' then .dollar
  else .plain

end Mode

/-- The characters that end a word: the mark of a quoted one, white space, the
semicolon and the opening brace otherwise. -/
def ends (quote : Option Char) (c : Char) : Bool :=
  quote.elim (isSpace c || c == ';' || c == '\x7b') (c == ·)

/-- Whether a word ends at a character, or takes it along. -/
def stops (quote : Option Char) (mode : Mode) (c : Char) : Bool :=
  mode.next c == .plain && mode != .escaped && ends quote c

/-- What a backslash and the character behind it say. -/
def pair (d : Char) : Text :=
  if d = '"' ∨ d = '\'' ∨ d = '\\' then [d]
  else if d = 't' then ['\t']
  else if d = 'r' then ['\r']
  else if d = 'n' then ['\n']
  else ['\\', d]

/-- What a word says. -/
def unescape : Text → Text
  | [] => []
  | [c] => [c]
  | c :: d :: t => if c = '\\' then pair d ++ unescape t else c :: unescape (d :: t)

/-- Where reading stands: between words, in a comment, in a word (with its mark and
what was read of it), behind a closing mark, or at an error. -/
inductive State
  | gap
  | comment
  | word (quote : Option Char) (raw : Text) (mode : Mode)
  | closed
  | failed
  deriving DecidableEq

/-- The semicolon or brace at the end of a word is a token of its own. -/
def separator (c : Char) : List Token :=
  if c = ';' then [.semicolon] else if c = '\x7b' then [.opening] else []

/-- Between words. -/
def inGap (c : Char) : List Token × State :=
  if isSpace c ∨ c = ';' ∨ c = '\x7b' then (separator c, .gap)
  else if c = '\x7d' then ([.closing], .gap)
  else if c = '#' then ([], .comment)
  else if c = '"' ∨ c = '\'' then ([], .word (some c) [] .plain)
  else ([], .word none [c] (Mode.plain.next c))

/-- In a word. -/
def inWord (quote : Option Char) (raw : Text) (mode : Mode) (c : Char) : List Token × State :=
  if stops quote mode c then
    if quote = none then (.word (unescape raw) :: separator c, .gap)
    else ([.word (unescape raw)], .closed)
  else ([], .word quote (raw ++ [c]) (mode.next c))

/-- Behind a closing mark; a parenthesis begins a word. -/
def afterQuote (c : Char) : List Token × State :=
  if isSpace c ∨ c = ';' ∨ c = '\x7b' then (separator c, .gap)
  else if c = ')' then ([], .word none [c] .plain)
  else ([.error], .failed)

/-- The reader. -/
def reader : Transducer State Char Token where
  step
    | .gap, c => inGap c
    | .comment, c => ([], if c = '\n' then .gap else .comment)
    | .word quote raw mode, c => inWord quote raw mode c
    | .closed, c => afterQuote c
    | .failed, _ => ([], .failed)
  finish
    | .gap => []
    | .comment => []
    | .word .. => [.error]
    | .closed => [.error]
    | .failed => []

/-- The tokens of a configuration. -/
def read (t : Text) : List Token := reader.run .gap t

/-! ## Semicolons and widths -/

/-- The semicolons of a token. -/
def Token.semicolons : Token → ℕ
  | .word w => w.count ';'
  | .semicolon => 1
  | _ => 0

/-- The characters a token takes up at least. -/
def Token.width : Token → ℕ
  | .word w => w.length + 1
  | _ => 0

/-- What a state holds of a word. -/
def State.held : State → Text
  | .word _ raw _ => raw
  | _ => []

theorem count_pair (d : Char) : (pair d).count ';' = ['\\', d].count ';' := by
  unfold pair
  split_ifs with hself ht hr hn
  · rcases hself with rfl | rfl | rfl <;> rfl
  · rw [ht]
    rfl
  · rw [hr]
    rfl
  · rw [hn]
    rfl
  · rfl

/-- What a backslash and a character say is shorter, or they say themselves. -/
theorem pair_eq_or (d : Char) : pair d = ['\\', d] ∨ (pair d).length < 2 := by
  unfold pair
  split_ifs
  · exact .inr Nat.one_lt_two
  · exact .inr Nat.one_lt_two
  · exact .inr Nat.one_lt_two
  · exact .inr Nat.one_lt_two
  · exact .inl rfl

theorem unescape_pair (d : Char) (t : Text) : unescape ('\\' :: d :: t) = pair d ++ unescape t :=
  rfl

theorem unescape_cons {c : Char} (hc : c ≠ '\\') (t : Text) :
    unescape (c :: t) = c :: unescape t := by
  cases t with
  | nil => rfl
  | cons d t => rw [unescape, if_neg hc]

/-- Escapes stand for no semicolon and hide none. -/
theorem count_unescape (t : Text) : (unescape t).count ';' = t.count ';' := by
  induction t using unescape.induct with
  | case1 => rfl
  | case2 c => rfl
  | case3 d t ih =>
      rw [unescape_pair, List.count_append, ih, count_pair, ← List.count_append]
      rfl
  | case4 c d t hc ih => rw [unescape_cons hc, List.count_cons, ih, ← List.count_cons]

theorem length_unescape_le (t : Text) : (unescape t).length ≤ t.length := by
  induction t using unescape.induct with
  | case1 => exact le_rfl
  | case2 c => exact le_rfl
  | case3 d t ih =>
      have hpair : (pair d).length ≤ 2 := by
        rcases pair_eq_or d with h | h
        · rw [h]
          exact le_rfl
        · exact h.le
      rw [unescape_pair, List.length_append, List.length_cons, List.length_cons]
      omega
  | case4 c d t hc ih =>
      rw [unescape_cons hc]
      simpa using ih

/-- A text that keeps its length says itself. -/
theorem unescape_eq_self {t : Text} (h : t.length ≤ (unescape t).length) : unescape t = t := by
  induction t using unescape.induct with
  | case1 => rfl
  | case2 c => rfl
  | case3 d t ih =>
      have hrest := length_unescape_le t
      rw [unescape_pair, List.length_append, List.length_cons, List.length_cons] at h
      rcases pair_eq_or d with hpair | hpair
      · rw [hpair, List.length_cons, List.length_singleton] at h
        have hsame : unescape t = t := ih (by omega)
        rw [unescape_pair, hpair, hsame]
        rfl
      · omega
  | case4 c d t hc ih =>
      rw [unescape_cons hc] at h ⊢
      rw [ih (by simpa using h)]

theorem semicolons_separator (c : Char) :
    ((separator c).map Token.semicolons).sum = if c = ';' then 1 else 0 := by
  unfold separator
  split_ifs <;> rfl

/-- A step writes the semicolons it reads or held, or holds them. -/
theorem semicolons_step (s : State) (c : Char) :
    ((reader.step s c).1.map Token.semicolons).sum + (reader.step s c).2.held.count ';' ≤
      s.held.count ';' + if c = ';' then 1 else 0 := by
  cases s with
  | gap =>
      change ((inGap c).1.map Token.semicolons).sum + (inGap c).2.held.count ';' ≤ _
      unfold inGap
      split_ifs <;> simp_all [semicolons_separator, State.held, Token.semicolons]
  | comment =>
      change 0 + (if c = '\n' then State.gap else .comment).held.count ';' ≤ _
      split_ifs <;> simp [State.held]
  | word quote raw mode =>
      change ((inWord quote raw mode c).1.map Token.semicolons).sum +
        (inWord quote raw mode c).2.held.count ';' ≤ raw.count ';' + _
      unfold inWord
      split_ifs <;>
        simp_all [semicolons_separator, State.held, Token.semicolons, count_unescape]
  | closed =>
      change ((afterQuote c).1.map Token.semicolons).sum + (afterQuote c).2.held.count ';' ≤ _
      unfold afterQuote
      split_ifs <;> simp_all [semicolons_separator, State.held, Token.semicolons]
  | failed => exact Nat.zero_le _

/-- The semicolons written were read. -/
theorem semicolons_run_le (s : State) (t : Text) :
    ((reader.run s t).map Token.semicolons).sum ≤ s.held.count ';' + t.count ';' := by
  have hfinish : ∀ s, ((reader.finish s).map Token.semicolons).sum ≤ s.held.count ';' := by
    intro s
    cases s <;> exact Nat.zero_le _
  exact Transducer.weight_run_le_count Token.semicolons (fun s : State => s.held.count ';') ';'
    semicolons_step hfinish s t

theorem width_separator (c : Char) : ((separator c).map Token.width).sum = 0 := by
  unfold separator
  split_ifs <;> rfl

/-- A step writes no more than it reads and held. -/
theorem width_step (s : State) (c : Char) :
    ((reader.step s c).1.map Token.width).sum + (reader.step s c).2.held.length ≤
      s.held.length + 1 := by
  cases s with
  | gap =>
      change ((inGap c).1.map Token.width).sum + (inGap c).2.held.length ≤ _
      unfold inGap
      split_ifs <;> simp [width_separator, State.held, Token.width]
  | comment =>
      change 0 + (if c = '\n' then State.gap else .comment).held.length ≤ _
      split_ifs <;> simp [State.held]
  | word quote raw mode =>
      have hlength := length_unescape_le raw
      change ((inWord quote raw mode c).1.map Token.width).sum +
        (inWord quote raw mode c).2.held.length ≤ raw.length + 1
      unfold inWord
      split_ifs <;> simp [width_separator, State.held, Token.width, hlength]
  | closed =>
      change ((afterQuote c).1.map Token.width).sum + (afterQuote c).2.held.length ≤ _
      unfold afterQuote
      split_ifs <;> simp [width_separator, State.held, Token.width]
  | failed => exact Nat.zero_le _

/-- What is written takes up no more than was read. -/
theorem width_run_le (s : State) (t : Text) :
    ((reader.run s t).map Token.width).sum ≤ s.held.length + t.length := by
  have hfinish : ∀ s, ((reader.finish s).map Token.width).sum ≤ s.held.length := by
    intro s
    cases s <;> exact Nat.zero_le _
  have hrun := Transducer.weight_run_le Token.width (fun _ => 1)
    (fun s : State => s.held.length) width_step hfinish s t
  simpa using hrun

/-! ## Cutting at the semicolons -/

/-- Only a semicolon is read as one, and reading goes on behind it as at the start. -/
theorem marks : reader.Marks ';' .semicolon .gap where
  step := by
    intro s c h
    have hseparator : Token.semicolon ∈ separator c → c = ';' := by
      unfold separator
      split_ifs with hc <;> simp [hc]
    cases s with
    | gap =>
        change Token.semicolon ∈ (inGap c).1 at h
        change _ ∧ (inGap c).2 = .gap ∧ ∃ out, (inGap c).1 = out ++ [.semicolon] ∧ _
        unfold inGap at h ⊢
        split_ifs at h ⊢ with hspace hclosing hcomment hquote
        · obtain rfl := hseparator h
          exact ⟨rfl, rfl, [], rfl, List.not_mem_nil⟩
        all_goals simp at h
    | comment => simp [reader] at h
    | word quote raw mode =>
        change Token.semicolon ∈ (inWord quote raw mode c).1 at h
        change _ ∧ (inWord quote raw mode c).2 = .gap ∧
          ∃ out, (inWord quote raw mode c).1 = out ++ [.semicolon] ∧ _
        unfold inWord at h ⊢
        split_ifs at h ⊢ with hstops hquote
        · obtain rfl := hseparator (by simpa using h)
          exact ⟨rfl, rfl, [.word (unescape raw)], rfl, by simp⟩
        all_goals simp at h
    | closed =>
        change Token.semicolon ∈ (afterQuote c).1 at h
        change _ ∧ (afterQuote c).2 = .gap ∧ ∃ out, (afterQuote c).1 = out ++ [.semicolon] ∧ _
        unfold afterQuote at h ⊢
        split_ifs at h ⊢ with hspace hparen
        · obtain rfl := hseparator h
          exact ⟨rfl, rfl, [], rfl, List.not_mem_nil⟩
        all_goals simp at h
    | failed => simp [reader] at h
  finish := by
    intro s
    cases s <;> simp [reader]

/-- A text is cut in one way at a character with a given number of others before it. -/
private theorem append_inj_of_count {c : Char} {front back front' back' : Text}
    (h : front ++ c :: back = front' ++ c :: back') (hcount : front.count c = front'.count c) :
    front = front' ∧ back = back' := by
  rcases List.append_eq_append_iff.mp h with ⟨more, rfl, heq⟩ | ⟨more, rfl, heq⟩
  · cases more with
    | nil => exact ⟨(List.append_nil front).symm, (List.cons.inj heq).2⟩
    | cons d more =>
        obtain ⟨rfl, -⟩ := List.cons.inj heq
        rw [List.count_append, List.count_cons_self] at hcount
        omega
  · cases more with
    | nil => exact ⟨List.append_nil front', (List.cons.inj heq).2.symm⟩
    | cons d more =>
        obtain ⟨rfl, -⟩ := List.cons.inj heq
        rw [List.count_append, List.count_cons_self] at hcount
        omega

/-- The semicolons of a list of tokens. -/
def semicolons (tokens : List Token) : ℕ := (tokens.map Token.semicolons).sum

/-- Where the tokens on both sides of a semicolon have all the semicolons there are, it
is read in its place: no other can be read for it. -/
theorem advance_of_read_eq {front back : Text} {first second : List Token}
    (hfirst : semicolons first = front.count ';') (hsecond : semicolons second = back.count ';')
    (h : read (front ++ ';' :: back) = first ++ .semicolon :: second) :
    reader.advance .gap (front ++ [';']) = (first ++ [.semicolon], .gap) ∧
      read back = second := by
  obtain ⟨front', back', heq, hadvance, hback⟩ := marks.exists_of_run_eq h
  have hleft : semicolons first ≤ front'.count ';' := by
    have hrun := reader.run_append_of_advance hadvance []
    have hle := semicolons_run_le .gap (front' ++ [';'] ++ [])
    rw [hrun] at hle
    simpa [semicolons, State.held, Transducer.run, reader, Token.semicolons] using hle
  have hright : semicolons second ≤ back'.count ';' := by
    have hle := semicolons_run_le .gap back'
    rw [hback] at hle
    simpa [semicolons, State.held] using hle
  have htotal := congrArg (List.count ';') heq
  rw [List.count_append, List.count_append, List.count_cons_self, List.count_cons_self]
    at htotal
  obtain ⟨rfl, rfl⟩ := append_inj_of_count heq (by omega)
  exact ⟨hadvance, hback⟩

/-- A text is read as the tokens on both sides of a semicolon exactly if both parts are,
where these have all the semicolons. -/
theorem read_cut_iff {front back : Text} {first second : List Token}
    (hfirst : semicolons first = front.count ';') (hsecond : semicolons second = back.count ';') :
    read (front ++ ';' :: back) = first ++ .semicolon :: second ↔
      read (front ++ [';']) = first ++ [.semicolon] ∧ read back = second := by
  constructor
  · intro h
    obtain ⟨hadvance, hback⟩ := advance_of_read_eq hfirst hsecond h
    have hrun := reader.run_append_of_advance hadvance []
    rw [List.append_nil] at hrun
    exact ⟨hrun.trans (List.append_nil _), hback⟩
  · rintro ⟨hfront, rfl⟩
    have halone : read (front ++ ';' :: []) = first ++ .semicolon :: [] := hfront
    obtain ⟨hadvance, -⟩ := advance_of_read_eq hfirst rfl halone
    have hrun := reader.run_append_of_advance hadvance back
    rwa [List.append_assoc, List.append_assoc] at hrun

/-! ## Words -/

/-- A word goes on over a text, which leaves no backslash alone at its end. -/
def stays (quote : Option Char) : Mode → Text → Bool
  | mode, [] => mode != .escaped
  | mode, c :: t => !stops quote mode c && stays quote (mode.next c) t

/-- What is read behind the character that ends a word. -/
def behind (quote : Option Char) (c : Char) (rest : Text) : List Token :=
  if quote = none then separator c ++ reader.run .gap rest else reader.run .closed rest

/-- The word read first ends at the first character that may end it. -/
theorem exists_of_run_word {quote : Option Char} {raw : Text} {mode : Mode} {t w : Text}
    {out : List Token} (h : reader.run (.word quote raw mode) t = .word w :: out) :
    ∃ more c rest, t = more ++ c :: rest ∧ stays quote mode more = true ∧
      ends quote c = true ∧ w = unescape (raw ++ more) ∧ out = behind quote c rest := by
  induction t generalizing raw mode with
  | nil => simp [Transducer.run, reader] at h
  | cons c t ih =>
      rw [Transducer.run] at h
      change (inWord quote raw mode c).1 ++ reader.run (inWord quote raw mode c).2 t = _ at h
      unfold inWord at h
      by_cases hstops : stops quote mode c = true
      · rw [if_pos hstops] at h
        have hparts := hstops
        simp only [stops, Bool.and_eq_true] at hparts
        refine ⟨[], c, t, rfl, hparts.1.2, hparts.2, ?_⟩
        rw [List.append_nil, behind]
        split_ifs at h ⊢ with hquote
        · obtain ⟨hw, hout⟩ := List.cons.inj h
          exact ⟨(Token.word.inj hw).symm, hout.symm⟩
        · obtain ⟨hw, hout⟩ := List.cons.inj h
          exact ⟨(Token.word.inj hw).symm, hout.symm⟩
      · rw [if_neg hstops] at h
        obtain ⟨more, d, rest, rfl, hstays, hends, hw, hout⟩ := ih h
        refine ⟨c :: more, d, rest, rfl, ?_, hends, ?_, hout⟩
        · rw [stays, hstays, Bool.eq_false_iff.mpr hstops]
          rfl
        · rw [hw, List.append_assoc, List.singleton_append]

/-- A word reads on to a character that ends it. -/
theorem run_word {quote : Option Char} {mode : Mode} {more : Text}
    (hstays : stays quote mode more = true) {c : Char} (hends : ends quote c = true)
    (hplain : c ≠ '\x7b' ∧ c ≠ '\\' ∧ c ≠ '$') (raw rest : Text) :
    reader.run (.word quote raw mode) (more ++ c :: rest) =
      .word (unescape (raw ++ more)) :: behind quote c rest := by
  induction more generalizing raw mode with
  | nil =>
      have hmode : mode ≠ .escaped := by simpa [stays] using hstays
      have hstops : stops quote mode c = true := by
        simp [stops, Mode.next, hmode, hplain, hends]
      rw [List.nil_append, List.append_nil, Transducer.run]
      change (inWord quote raw mode c).1 ++ reader.run (inWord quote raw mode c).2 rest = _
      rw [inWord, if_pos hstops, behind]
      split_ifs <;> rfl
  | cons d more ih =>
      simp only [stays, Bool.and_eq_true, Bool.not_eq_true'] at hstays
      rw [List.cons_append, Transducer.run]
      change (inWord quote raw mode d).1 ++ reader.run (inWord quote raw mode d).2 _ = _
      rw [inWord, if_neg (by simp [hstays.1])]
      have hrest := ih hstays.2 (raw ++ [d])
      rwa [List.append_assoc, List.singleton_append] at hrest

/-- The characters a word without marks may begin with. -/
def starts (c : Char) : Bool :=
  !(isSpace c || c == ';' || c == '\x7b' || c == '\x7d' || c == '#' || c == '"' || c == '\'')

/-- A text that is one word and says itself. -/
def isPlain : Text → Bool
  | [] => false
  | c :: t => starts c && stays none (Mode.plain.next c) t && unescape (c :: t) == c :: t

/-- A text that says itself between quotation marks. -/
def isQuotable (t : Text) : Bool := stays (some '"') .plain t && unescape t == t

theorem inGap_of_starts {c : Char} (h : starts c = true) :
    inGap c = ([], .word none [c] (Mode.plain.next c)) := by
  simp only [starts, Bool.not_eq_true', Bool.or_eq_false_iff, beq_eq_false_iff_ne] at h
  obtain ⟨⟨⟨⟨⟨⟨hspace, hsemicolon⟩, hopening⟩, hclosing⟩, hcomment⟩, hdouble⟩, hsingle⟩ := h
  rw [inGap, if_neg (by simp [hspace, hsemicolon, hopening]), if_neg hclosing, if_neg hcomment,
    if_neg (by simp [hdouble, hsingle])]

/-- A plain text is read as a word. -/
theorem read_of_isPlain {w : Text} (hw : isPlain w = true) {c : Char} (hends : ends none c = true)
    (hplain : c ≠ '\x7b' ∧ c ≠ '\\' ∧ c ≠ '$') (rest : Text) :
    read (w ++ c :: rest) = .word w :: behind none c rest := by
  cases w with
  | nil => cases hw
  | cons d t =>
      simp only [isPlain, Bool.and_eq_true, beq_iff_eq] at hw
      rw [read, List.cons_append, Transducer.run]
      change (inGap d).1 ++ reader.run (inGap d).2 _ = _
      rw [inGap_of_starts hw.1.1, run_word hw.1.2 hends hplain, List.singleton_append, hw.2]
      rfl

/-- A text that holds no more than a word, what ends it and what is read behind it begins
with the word. -/
theorem isPlain_of_read_eq {t w : Text} {out : List Token} (h : read t = .word w :: out)
    (hwidth : t.length ≤ w.length + 1 + (out.map Token.width).sum) :
    isPlain w = true ∧ ∃ c rest, t = w ++ c :: rest ∧ ends none c = true ∧
      out = behind none c rest := by
  cases t with
  | nil => cases h
  | cons c t =>
      rw [read, Transducer.run] at h
      change (inGap c).1 ++ reader.run (inGap c).2 t = _ at h
      rw [List.length_cons] at hwidth
      by_cases hstarts : starts c = true
      · rw [inGap_of_starts hstarts, List.nil_append] at h
        obtain ⟨more, d, rest, rfl, hstays, hends, hw, rfl⟩ := exists_of_run_word h
        rw [List.singleton_append] at hw
        have hbehind : ((behind none d rest).map Token.width).sum ≤ rest.length := by
          have hle := width_run_le .gap rest
          rw [behind, if_pos rfl, List.map_append, List.sum_append, width_separator]
          simpa [State.held] using hle
        have hsame : unescape (c :: more) = c :: more := by
          apply unescape_eq_self
          rw [← hw]
          simp only [List.length_append, List.length_cons] at hwidth ⊢
          omega
        rw [hsame] at hw
        subst hw
        refine ⟨?_, d, rest, rfl, hends, rfl⟩
        rw [isPlain, hstarts, hstays, hsame]
        simp
      · exfalso
        have hheld : ((inGap c).1.map Token.width).sum = 0 ∧ (inGap c).2.held = [] := by
          unfold inGap
          split_ifs with hspace hclosing hcomment hquote
          · exact ⟨width_separator c, rfl⟩
          · exact ⟨rfl, rfl⟩
          · exact ⟨rfl, rfl⟩
          · exact ⟨rfl, rfl⟩
          · simp_all [starts]
        have hle := width_run_le (inGap c).2 t
        have hsum := congrArg (fun out => (out.map Token.width).sum) h
        simp only [List.map_append, List.sum_append, List.map_cons, List.sum_cons, hheld.1,
          Token.width] at hsum
        rw [hheld.2, List.length_nil] at hle
        omega

/-- Words one blank apart are read as they stand exactly if each of them is plain. -/
theorem read_words_iff (w : Text) (ws : List Text) :
    read (w ++ ws.flatMap (' ' :: ·) ++ [';']) = (w :: ws).map .word ++ [.semicolon] ↔
      ∀ x ∈ w :: ws, isPlain x = true := by
  have hsum (ws : List Text) :
      ((ws.map Token.word ++ [Token.semicolon]).map Token.width).sum =
        (ws.flatMap (' ' :: ·)).length := by
    induction ws with
    | nil => rfl
    | cons x ws ih =>
        rw [List.map_cons, List.cons_append, List.map_cons, List.sum_cons, ih, List.flatMap_cons,
          List.length_append]
        rfl
  induction ws generalizing w with
  | nil =>
      rw [List.flatMap_nil, List.append_nil]
      constructor
      · intro h
        obtain ⟨hplain, -⟩ := isPlain_of_read_eq h (by simp)
        simpa using hplain
      · intro h
        rw [read_of_isPlain (h w List.mem_cons_self) (by rfl) (by decide)]
        rfl
  | cons x ws ih =>
      have htext : w ++ (x :: ws).flatMap (' ' :: ·) ++ [';'] =
          w ++ ' ' :: (x ++ ws.flatMap (' ' :: ·) ++ [';']) := by simp
      rw [htext]
      refine Iff.trans ?_ (List.forall_mem_cons.trans (and_congr_right' (ih x).symm)).symm
      constructor
      · intro h
        have hfirst : read (w ++ ' ' :: (x ++ ws.flatMap (' ' :: ·) ++ [';'])) =
            .word w :: ((x :: ws).map Token.word ++ [.semicolon]) := h
        obtain ⟨hplain, c, rest, heq, -, hout⟩ := isPlain_of_read_eq hfirst (by
          rw [hsum (x :: ws)]
          simp only [List.length_append, List.length_cons, List.flatMap_cons, List.length_nil]
          omega)
        obtain ⟨rfl, rfl⟩ := List.cons.inj (List.append_cancel_left heq)
        exact ⟨hplain, hout.symm⟩
      · rintro ⟨hplain, htail⟩
        rw [read_of_isPlain hplain (by rfl) (by decide), behind, if_pos rfl]
        exact congrArg (Token.word w :: ·) htail

/-- A text in quotation marks reads back exactly if it says itself there. -/
theorem read_quoted_iff {t w : Text} (hlength : w.length = t.length) :
    read ('"' :: t ++ ['"', ';']) = [.word w, .semicolon] ↔ w = t ∧ isQuotable t = true := by
  have hopen : read ('"' :: t ++ ['"', ';']) =
      reader.run (.word (some '"') [] .plain) (t ++ ['"', ';']) := rfl
  rw [hopen, isQuotable, Bool.and_eq_true, beq_iff_eq]
  constructor
  · intro h
    obtain ⟨more, c, rest, heq, hstays, hends, hw, hout⟩ := exists_of_run_word h
    rw [List.nil_append] at hw
    have hrest : rest ≠ [] := by
      rintro rfl
      cases hout
    have hpos := List.length_pos_of_ne_nil hrest
    have hle := length_unescape_le more
    have htotal := congrArg List.length heq
    simp only [List.length_append, List.length_cons, List.length_nil] at htotal
    rw [← hw, hlength] at hle
    have hsame : more = t := (List.append_inj_left heq (by omega)).symm
    subst hsame
    have hself : unescape more = more := unescape_eq_self (by rw [← hw, hlength])
    exact ⟨hw.trans hself, hstays, hself⟩
  · rintro ⟨rfl, hstays, hsame⟩
    rw [run_word hstays (by rfl) (by decide), List.nil_append, hsame]
    rfl

/-! ## Quotable texts -/

/-- Every backslash has a character behind it, and the two say themselves. -/
def isSteady : Text → Bool
  | [] => true
  | [c] => c != '\\'
  | c :: d :: t => if c = '\\' then pair d == ['\\', d] && isSteady t else isSteady (d :: t)

theorem isSteady_cons {c : Char} (hc : c ≠ '\\') (t : Text) :
    isSteady (c :: t) = isSteady t := by
  cases t with
  | nil => simpa [isSteady] using hc
  | cons d t => rw [isSteady, if_neg hc]

theorem isSteady_of_not_mem {t : Text} (h : '\\' ∉ t) : isSteady t = true := by
  induction t with
  | nil => rfl
  | cons c t ih =>
      have hc : c ≠ '\\' := fun heq => h (heq ▸ List.mem_cons_self)
      rw [isSteady_cons hc, ih fun hmem => h (List.mem_cons_of_mem c hmem)]

/-- What stands behind a steady text is steady by itself. -/
theorem isSteady_append {s : Text} (hs : isSteady s = true) (t : Text) :
    isSteady (s ++ t) = isSteady t := by
  induction s using unescape.induct with
  | case1 => rfl
  | case2 c =>
      have hc : c ≠ '\\' := by simpa [isSteady] using hs
      exact isSteady_cons hc t
  | case3 d s ih =>
      have hparts : pair d = ['\\', d] ∧ isSteady s = true := by simpa [isSteady] using hs
      simp [isSteady, hparts.1, ih hparts.2]
  | case4 c d s hc ih =>
      rw [isSteady_cons hc] at hs
      rw [List.cons_append, isSteady_cons hc, ih hs]

/-- No character but a backslash takes the next one along. -/
theorem next_ne_escaped {mode : Mode} {c : Char} (hc : c ≠ '\\') : mode.next c ≠ .escaped := by
  unfold Mode.next
  split_ifs <;> simp

/-- A word that goes on over a text that says itself is steady. -/
theorem isSteady_of_stays {quote : Option Char} {mode : Mode} (hmode : mode ≠ .escaped) {t : Text}
    (hstays : stays quote mode t = true) (hsame : unescape t = t) : isSteady t = true := by
  induction t using unescape.induct generalizing mode with
  | case1 => rfl
  | case2 c =>
      by_cases hc : c = '\\'
      · subst hc
        have hnext : mode.next '\\' = .escaped := by simp [Mode.next, hmode]
        simp [stays, hnext] at hstays
      · simpa [isSteady] using hc
  | case3 d t ih =>
      have hnext : mode.next '\\' = .escaped := by simp [Mode.next, hmode]
      have hlength := length_unescape_le t
      rw [unescape_pair] at hsame
      rcases pair_eq_or d with hpair | hpair
      · rw [hpair] at hsame
        have hrest : unescape t = t := (List.cons.inj (List.cons.inj hsame).2).2
        simp only [stays, hnext, Bool.and_eq_true] at hstays
        have ht := ih (by simp [Mode.next]) hstays.2.2 hrest
        simp [isSteady, hpair, ht]
      · have htotal := congrArg List.length hsame
        simp only [List.length_append, List.length_cons] at htotal
        omega
  | case4 c d t hc ih =>
      rw [unescape_cons hc] at hsame
      rw [stays, Bool.and_eq_true] at hstays
      rw [isSteady_cons hc, ih (next_ne_escaped hc) hstays.2 (List.cons.inj hsame).2]

/-- A steady text says itself. -/
theorem unescape_of_isSteady {t : Text} (h : isSteady t = true) : unescape t = t := by
  induction t using unescape.induct with
  | case1 => rfl
  | case2 c => rfl
  | case3 d t ih =>
      have hparts : pair d = ['\\', d] ∧ isSteady t = true := by simpa [isSteady] using h
      rw [unescape_pair, hparts.1, ih hparts.2]
      rfl
  | case4 c d t hc ih =>
      rw [isSteady_cons hc] at h
      rw [unescape_cons hc, ih h]

theorem isSteady_of_isPlain {w : Text} (h : isPlain w = true) : isSteady w = true := by
  cases w with
  | nil => cases h
  | cons c t =>
      simp only [isPlain, Bool.and_eq_true, beq_iff_eq] at h
      have hfirst : stops none .plain c = false := by
        have hstarts := h.1.1
        simp only [starts, Bool.not_eq_true', Bool.or_eq_false_iff] at hstarts
        simp [stops, ends, hstarts]
      have hstays : stays none .plain (c :: t) = true := by
        rw [stays, hfirst, h.1.2]
        rfl
      exact isSteady_of_stays (by decide) hstays h.2

/-- In quotation marks a steady text goes on to the first mark. -/
theorem stays_quote_iff {mode : Mode} (hmode : mode ≠ .escaped) {t : Text}
    (hsteady : isSteady t = true) : stays (some '"') mode t = true ↔ '"' ∉ t := by
  have hstops {mode : Mode} {c : Char} (hmode : mode ≠ .escaped) :
      stops (some '"') mode c = true ↔ c = '"' := by
    simp only [stops, ends, Option.elim_some, Bool.and_eq_true, beq_iff_eq, bne_iff_ne]
    constructor
    · exact fun h => h.2
    · rintro rfl
      exact ⟨⟨by simp [Mode.next, hmode], hmode⟩, rfl⟩
  induction t using unescape.induct generalizing mode with
  | case1 => simpa [stays] using hmode
  | case2 c =>
      have hc : c ≠ '\\' := by simpa [isSteady] using hsteady
      rw [stays, Bool.and_eq_true, Bool.not_eq_true', ← Bool.not_eq_true, hstops hmode]
      simpa [stays, next_ne_escaped hc] using ne_comm
  | case3 d t ih =>
      have hparts : pair d = ['\\', d] ∧ isSteady t = true := by simpa [isSteady] using hsteady
      have hd : d ≠ '"' := by
        rintro rfl
        exact absurd hparts.1 (by decide)
      have hnext : mode.next '\\' = .escaped := by simp [Mode.next, hmode]
      have hfirst : stops (some '"') mode '\\' = false := by simp [stops, hnext]
      have hsecond : stops (some '"') .escaped d = false := by simp [stops]
      have hrest : stays (some '"') .plain t = true ↔ '"' ∉ t := ih (by decide) hparts.2
      simp only [stays, hnext, hfirst, hsecond, Bool.not_false, Bool.true_and]
      rw [show Mode.escaped.next d = .plain from rfl, hrest]
      simp [hd.symm]
  | case4 c d t hc ih =>
      rw [isSteady_cons hc] at hsteady
      have hrest : stays (some '"') (mode.next c) (d :: t) = true ↔ '"' ∉ d :: t :=
        ih (next_ne_escaped hc) hsteady
      rw [stays, Bool.and_eq_true, Bool.not_eq_true', ← Bool.not_eq_true, hstops hmode, hrest]
      constructor
      · rintro ⟨hquote, htail⟩ hmem
        exact (List.mem_cons.mp hmem).elim (fun heq => hquote heq.symm) htail
      · intro h
        exact ⟨fun heq => h (heq ▸ List.mem_cons_self),
          fun hmem => h (List.mem_cons_of_mem c hmem)⟩

/-- What says itself in quotation marks: a steady text without marks. -/
theorem isQuotable_iff {t : Text} :
    isQuotable t = true ↔ '"' ∉ t ∧ isSteady t = true := by
  rw [isQuotable, Bool.and_eq_true, beq_iff_eq]
  constructor
  · rintro ⟨hstays, hsame⟩
    have hsteady := isSteady_of_stays (by decide) hstays hsame
    exact ⟨(stays_quote_iff (by decide) hsteady).mp hstays, hsteady⟩
  · rintro ⟨hmark, hsteady⟩
    exact ⟨(stays_quote_iff (by decide) hsteady).mpr hmark, unescape_of_isSteady hsteady⟩

/-- Behind a steady text nothing but its marks matters. -/
theorem isQuotable_append_iff {s : Text} (hs : isSteady s = true) (t : Text) :
    isQuotable (s ++ t) = true ↔ '"' ∉ s ∧ isQuotable t = true := by
  rw [isQuotable_iff, isQuotable_iff, isSteady_append hs, List.mem_append, not_or, and_assoc]

/-! ## Directives -/

/-- What stands between the head of a directive and its semicolon: words one blank apart,
or a text in quotation marks that is meant to say a word. -/
inductive Arguments
  | words (w : Text) (ws : List Text)
  | quoted (t w : Text) (length : w.length = t.length) (count : w.count ';' = t.count ';')

namespace Arguments

/-- The arguments as they are written. -/
def text : Arguments → Text
  | .words w ws => w ++ ws.flatMap (' ' :: ·)
  | .quoted t _ _ _ => '"' :: t ++ ['"']

theorem text_quoted {t w : Text} (length : w.length = t.length)
    (count : w.count ';' = t.count ';') :
    (Arguments.quoted t w length count).text = '"' :: t ++ ['"'] := rfl

/-- The arguments as they are meant. -/
def tokens : Arguments → List Token
  | .words w ws => (w :: ws).map .word
  | .quoted _ w _ _ => [.word w]

/-- The arguments can be read as they are meant. -/
def Readable : Arguments → Prop
  | .words w ws => ∀ x ∈ w :: ws, isPlain x = true
  | .quoted t w _ _ => w = t ∧ isQuotable t = true

theorem read_iff (arguments : Arguments) :
    read (arguments.text ++ [';']) = arguments.tokens ++ [.semicolon] ↔ arguments.Readable := by
  cases arguments with
  | words w ws => exact read_words_iff w ws
  | quoted t w hlength _ =>
      rw [text, List.append_assoc]
      exact read_quoted_iff hlength

theorem semicolons_tokens (arguments : Arguments) :
    semicolons arguments.tokens = arguments.text.count ';' := by
  cases arguments with
  | words w ws =>
      have hrest : semicolons (ws.map .word) = (ws.flatMap (' ' :: ·)).count ';' := by
        induction ws with
        | nil => rfl
        | cons x ws ih =>
            rw [List.flatMap_cons, List.count_append, ← ih]
            rfl
      rw [text, List.count_append, ← hrest]
      rfl
  | quoted t w _ hcount =>
      simp [semicolons, tokens, text, Token.semicolons, hcount]

end Arguments

/-- A directive: what stands behind the semicolon before it, which is read up to its
arguments, and its arguments. -/
structure Directive where
  head : Text
  tokens : List Token
  arguments : Arguments
  advance : reader.advance .gap head = (tokens, .gap)
  even : semicolons tokens = head.count ';'

namespace Directive

/-- A list of directives as it is written. -/
def text (ds : List Directive) : Text := ds.flatMap fun d => d.head ++ d.arguments.text ++ [';']

/-- A list of directives as it is meant. -/
def meaning (ds : List Directive) : List Token :=
  ds.flatMap fun d => d.tokens ++ d.arguments.tokens ++ [.semicolon]

theorem semicolons_append (first second : List Token) :
    semicolons (first ++ second) = semicolons first + semicolons second := by
  rw [semicolons, List.map_append, List.sum_append]
  rfl

theorem semicolons_meaning (ds : List Directive) : semicolons (meaning ds) = (text ds).count ';' := by
  induction ds with
  | nil => rfl
  | cons d ds ih =>
      have hhead := d.even
      have harguments := d.arguments.semicolons_tokens
      simp only [meaning, text] at ih
      rw [meaning, text, List.flatMap_cons, List.flatMap_cons, semicolons_append, ih,
        semicolons_append, semicolons_append, hhead, harguments]
      simp only [List.count_append]
      rfl

/-- A configuration is read as it is meant exactly if the arguments of all its directives
can be. -/
theorem read_iff (ds : List Directive) {tail : Text}
    (heven : semicolons (read tail) = tail.count ';') :
    read (text ds ++ tail) = meaning ds ++ read tail ↔ ∀ d ∈ ds, d.arguments.Readable := by
  induction ds with
  | nil => simp [text, meaning]
  | cons d ds ih =>
      have htext : text (d :: ds) ++ tail =
          (d.head ++ d.arguments.text) ++ ';' :: (text ds ++ tail) := by simp [text]
      have hmeaning : meaning (d :: ds) ++ read tail =
          (d.tokens ++ d.arguments.tokens) ++ .semicolon :: (meaning ds ++ read tail) := by
        simp [meaning]
      have hfirst : semicolons (d.tokens ++ d.arguments.tokens) =
          (d.head ++ d.arguments.text).count ';' := by
        rw [semicolons_append, d.even, d.arguments.semicolons_tokens, List.count_append]
      have hsecond : semicolons (meaning ds ++ read tail) = (text ds ++ tail).count ';' := by
        rw [semicolons_append, semicolons_meaning, heven, List.count_append]
      have halone : read (d.head ++ d.arguments.text ++ [';']) =
          d.tokens ++ d.arguments.tokens ++ [.semicolon] ↔ d.arguments.Readable := by
        rw [← d.arguments.read_iff, read, List.append_assoc,
          reader.run_append_of_advance d.advance, List.append_assoc]
        exact List.append_right_inj d.tokens
      rw [htext, hmeaning, read_cut_iff hfirst hsecond, halone]
      rw [List.forall_mem_cons]
      exact and_congr_right' ih

end Directive

end NginxConf
