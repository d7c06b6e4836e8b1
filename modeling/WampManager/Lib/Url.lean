/-
# The path of a URL

The path component as the scripting language's own URL parser finds it. The
parser is lenient: it decides by the first colon and by slashes whether a text
starts with a scheme, with a host or with the path itself, it decodes nothing,
and it gives up on ports out of range and on empty hosts. Only the path is
computed here; the branches that differ in other components alone are joined.
-/

import WampManager.Lib.Text

namespace Url

/-- The characters of a scheme. -/
def isSchemeChar (c : Char) : Bool :=
  c.isAlpha || c.isDigit || c == '+' || c == '.' || c == '-'

/-- Control characters are written as underscores. -/
def replaceControl (t : Text) : Text :=
  t.map fun c => if c.toNat < 32 ∨ c.toNat = 127 then '_' else c

/-- The text up to the fragment and the query; a rest that starts with one of
them has no path. -/
def justPath (s : Text) : Option Text :=
  let path := (s.takeWhile (· ≠ '#')).takeWhile (· ≠ '?')
  if s = [] ∨ path ≠ [] then some (replaceControl path) else none

/-- The number at the front of a text, after blanks and a sign. -/
def leadingInt (t : Text) : ℤ :=
  match t.dropWhile fun c => c == ' ' || 9 ≤ c.toNat && c.toNat ≤ 13 with
  | '-' :: rest => -(Nat.ofDigitChars 10 (rest.takeWhile Char.isDigit) 0 : ℤ)
  | '+' :: rest => Nat.ofDigitChars 10 (rest.takeWhile Char.isDigit) 0
  | rest => Nat.ofDigitChars 10 (rest.takeWhile Char.isDigit) 0

/-- A port in range. -/
def isPort (t : Text) : Bool := 0 < leadingInt t && leadingInt t ≤ 65535

/-- The part behind the last occurrence of a character; all of it if there is none. -/
def afterLast (c : Char) (t : Text) : Text := t.rtakeWhile (· ≠ c)

/-- Host and port of an authority; is it refused? A port that was found before
the authority is not looked for again. -/
def refused (portKnown : Bool) (authority : Text) : Bool :=
  let server := afterLast '@' authority
  if ':' ∉ server ∨ (server.head? = some '[' ∧ server.getLast? = some ']') then server = []
  else
    let port := afterLast ':' server
    let host := server.take (server.length - port.length - 1)
    host = [] || (!portKnown && (5 < port.length || (port ≠ [] && !isPort port)))

/-- Skip an authority, then read the path. -/
def parseHost (portKnown : Bool) (s : Text) : Option Text :=
  let isEnd (c : Char) : Bool := c = '/' || c = '?' || c = '#'
  if refused portKnown (s.takeWhile (!isEnd ·)) then none
  else if s.dropWhile (!isEnd ·) = [] then none
  else justPath (s.dropWhile (!isEnd ·))

/-- A text that may start with two slashes and a host. -/
def parseRelative (s : Text) : Option Text :=
  match s with
  | '/' :: '/' :: rest => parseHost false rest
  | _ => justPath s

/-- The first colon may stand in front of a port. -/
def parsePort (s after : Text) : Option Text :=
  let digits := after.takeWhile Char.isDigit
  let rest := after.dropWhile Char.isDigit
  if 0 < digits.length ∧ digits.length < 6 ∧ (rest = [] ∨ rest.head? = some '/') then
    if isPort digits then
      match s with
      | '/' :: '/' :: rest => parseHost true rest
      | _ => parseHost true s
    else none
  else if after = [] then none
  else parseRelative s

/-- What follows a scheme and its colon. -/
def parseScheme (s scheme after : Text) : Option Text :=
  match after with
  | [] => none
  | '/' :: '/' :: rest =>
      if Text.lower scheme = "file".toList ∧ rest.head? = some '/' then
        if rest[2]? = some ':' then justPath rest.tail else justPath rest
      else parseHost false rest
  | '/' :: _ => justPath after
  | _ =>
      let digits := after.takeWhile Char.isDigit
      let rest := after.dropWhile Char.isDigit
      if digits.length < 6 ∧ (rest = [] ∨ rest.head? = some '/') then parsePort s after
      else justPath after

/-- `parse_url($s)['path']`; null when there is no path or no URL. -/
def path? (s : Text) : Option Text :=
  let before := s.takeWhile (· ≠ ':')
  match s.dropWhile (· ≠ ':') with
  | [] => parseRelative s
  | _ :: after =>
      if before = [] then parsePort s after
      else if before.all isSchemeChar then parseScheme s before after
      else if after ≠ [] ∧ '?' ∉ before ∧ '#' ∉ before then parsePort s after
      else parseRelative s

/-- Schemes, hosts and queries are cut off, ports out of range refuse the text. -/
example : path? "http://a.b:80/x/y?q#f".toList = some "/x/y".toList ∧
    path? "/a?b=c".toList = some "/a".toList ∧ path? "//h/p".toList = some "/p".toList ∧
    path? "?q".toList = none ∧ path? "/x:70000".toList = none := by decide +kernel

/-! ## Paths -/

/-- A character of a path: no control character. -/
def isShown (c : Char) : Bool := !(c.toNat < 32 || c.toNat = 127)

theorem isShown_of_mem_replaceControl {t : Text} {c : Char} (h : c ∈ replaceControl t) :
    isShown c = true := by
  obtain ⟨d, -, rfl⟩ := List.mem_map.mp h
  by_cases hd : d.toNat < 32 ∨ d.toNat = 127
  · rw [if_pos hd]
    rfl
  · rw [if_neg hd]
    simpa [isShown] using hd

theorem justPath_eq_some {s path : Text} (h : justPath s = some path) :
    ∃ t, path = replaceControl t := by
  obtain ⟨-, h⟩ := Option.ite_none_right_eq_some.mp h
  exact ⟨_, (Option.some.inj h).symm⟩

theorem parseHost_eq_some {portKnown : Bool} {s path : Text} (h : parseHost portKnown s = some path) :
    ∃ t, path = replaceControl t := by
  unfold parseHost at h
  dsimp only at h
  split_ifs at h
  exact justPath_eq_some h

theorem parseRelative_eq_some {s path : Text} (h : parseRelative s = some path) :
    ∃ t, path = replaceControl t := by
  unfold parseRelative at h
  split at h
  · exact parseHost_eq_some h
  · exact justPath_eq_some h

theorem parsePort_eq_some {s after path : Text} (h : parsePort s after = some path) :
    ∃ t, path = replaceControl t := by
  unfold parsePort at h
  dsimp only at h
  split_ifs at h
  · split at h <;> exact parseHost_eq_some h
  · exact parseRelative_eq_some h

theorem parseScheme_eq_some {s scheme after path : Text}
    (h : parseScheme s scheme after = some path) : ∃ t, path = replaceControl t := by
  unfold parseScheme at h
  dsimp only at h
  split at h
  · cases h
  · split_ifs at h
    · exact justPath_eq_some h
    · exact justPath_eq_some h
    · exact parseHost_eq_some h
  · exact justPath_eq_some h
  · split_ifs at h
    · exact parsePort_eq_some h
    · exact justPath_eq_some h

/-- No path has control characters. -/
theorem isShown_of_path? {s path : Text} (h : path? s = some path) :
    ∀ c ∈ path, isShown c = true := by
  have hcontrol : ∃ t, path = replaceControl t := by
    unfold path? at h
    dsimp only at h
    split at h
    · exact parseRelative_eq_some h
    · split_ifs at h
      · exact parsePort_eq_some h
      · exact parseScheme_eq_some h
      · exact parsePort_eq_some h
      · exact parseRelative_eq_some h
  obtain ⟨t, rfl⟩ := hcontrol
  exact fun c => isShown_of_mem_replaceControl

/-- A character without a meaning of its own. -/
def isPlain (c : Char) : Bool := isShown c && c ∉ [':', '#', '?']

/-- A text of such characters with at most one slash in front is its own path. -/
theorem path?_of_isPlain {t : Text} (ht : ∀ c ∈ t, isPlain c = true) (hne : t ≠ [])
    (hslash : ¬ ['/', '/'] <+: t) : path? t = some t := by
  have hplain : ∀ c ∈ t, isShown c = true ∧ c ≠ ':' ∧ c ≠ '#' ∧ c ≠ '?' := by
    intro c hc
    simpa [isPlain] using ht c hc
  have hcolon : t.dropWhile (· ≠ ':') = [] :=
    List.dropWhile_eq_nil_iff.mpr fun c hc => decide_eq_true (hplain c hc).2.1
  have hmark : t.takeWhile (· ≠ '#') = t :=
    List.takeWhile_eq_self_iff.mpr fun c hc => decide_eq_true (hplain c hc).2.2.1
  have hquery : t.takeWhile (· ≠ '?') = t :=
    List.takeWhile_eq_self_iff.mpr fun c hc => decide_eq_true (hplain c hc).2.2.2
  have hcontrol : replaceControl t = t := by
    rw [replaceControl]
    nth_rewrite 2 [← List.map_id t]
    apply List.map_congr_left
    intro c hc
    exact if_neg (by simpa [isShown] using (hplain c hc).1)
  have hpath : justPath t = some t := by
    simp only [justPath, hmark, hquery, hcontrol, hne, ne_eq, not_false_eq_true, or_true,
      if_true]
  unfold path?
  rw [hcolon]
  dsimp only
  unfold parseRelative
  split
  · exact absurd (List.prefix_append ['/', '/'] _) hslash
  · exact hpath

end Url
