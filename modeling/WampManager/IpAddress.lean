/-
# Addresses that pass validation

The expression for addresses repeats a group that stands at the start or behind a dot,
and is tied to the end of the text only. What it finds is an address that is the whole
text or the text behind some dot, with or without a line feed at the end.
-/

import WampManager.Lib.PcreWords
import WampManager.Verify

namespace WampManager

namespace IpAddress

open Pcre Pcre.Regex

/-! ## The check -/

/-- `(25[0-5])|(2[0-4]\d)|(1\d\d)|([1-9]?\d)`. -/
def octet : Regex :=
  .alt (.seq (.char (.lit '2')) (.seq (.char (.lit '5')) (oneOf '0' ['1', '2', '3', '4', '5'])))
    (.alt (.seq (.char (.lit '2')) (.seq (oneOf '0' ['1', '2', '3', '4']) (.char .digit)))
      (.alt (.seq (.char (.lit '1')) (.seq (.char .digit) (.char .digit)))
        (.seq ((oneOf '1' ['2', '3', '4', '5', '6', '7', '8', '9']).upTo 1) (.char .digit))))

/-- `((^|\.)(…)){4}$`. -/
def ipRegex : Regex :=
  .seq ((Regex.seq (.alt .start (.char (.lit '.'))) octet).pow 4) .stop

/-- `Validator::ipAddress`: the errors behind those that are there. -/
def ipAddress (msg? : Option Text) (control value : Text) (errors : List (Text × Text)) :
    List (Text × Text) :=
  if found ipRegex true value then errors
  else errors ++ [(control, msg?.getD "Please enter a valid ip address".toList)]

/-- Four numbers from 0 to 255 without leading zeros, with dots between them. -/
def IsIpAddress (t : Text) : Prop :=
  ∃ ws : List Text, ws.length = 4 ∧ (∀ w ∈ ws, ∃ n < 256, w = Nat.toDigits 10 n) ∧
    t = ['.'].intercalate ws

/-- An address with more in front of it, up to a dot, or with a line feed behind it. -/
def IsPadded (t : Text) : Prop :=
  ∃ address, IsIpAddress address ∧ (t = address ++ ['\n'] ∨
    ∃ front back, (back = [] ∨ back = ['\n']) ∧ t = front ++ '.' :: address ++ back)

/-! ## What the expression finds -/

/-- The words of the five alternatives, from the last to the first. -/
def units : List Text := digits.map fun c => [c]

def tens : List Text :=
  joins [['1'], ['2'], ['3'], ['4'], ['5'], ['6'], ['7'], ['8'], ['9']] units

def hundreds : List Text := joins [['1']] (joins units units)

def twoHundreds : List Text := joins [['2']] (joins [['0'], ['1'], ['2'], ['3'], ['4']] units)

def fifties : List Text :=
  joins [['2']] (joins [['5']] [['0'], ['1'], ['2'], ['3'], ['4'], ['5']])

theorem reads_octet :
    Reads octet (fifties ++ (twoHundreds ++ (hundreds ++ (tens ++ units)))) :=
  ((reads_lit '2').seq ((reads_lit '5').seq (reads_oneOf _ _))).alt
    (((reads_lit '2').seq ((reads_oneOf _ _).seq reads_digit)).alt
      (((reads_lit '1').seq (reads_digit.seq reads_digit)).alt
        ((reads_oneOf _ _).opt_seq reads_digit)))

theorem words_eq : units ++ (tens ++ (hundreds ++ (twoHundreds ++ fifties))) =
    (List.range 256).map (Nat.toDigits 10) := by
  decide +kernel

theorem mem_words_iff {w : Text} :
    w ∈ fifties ++ (twoHundreds ++ (hundreds ++ (tens ++ units))) ↔
      ∃ n < 256, w = Nat.toDigits 10 n := by
  have hmem : w ∈ units ++ (tens ++ (hundreds ++ (twoHundreds ++ fifties))) ↔
      ∃ n < 256, w = Nat.toDigits 10 n := by
    rw [words_eq, List.mem_map]
    simp only [List.mem_range, eq_comm]
  rw [← hmem]
  simp only [List.mem_append]
  tauto

/-- The expression finds an address at the front of the text or behind a dot of it. -/
theorem found_ipRegex_iff {t : Text} : found ipRegex true t = true ↔
    ∃ address back, IsIpAddress address ∧ (back = [] ∨ back = ['\n']) ∧
      (t = address ++ back ∨ ∃ front, t = front ++ '.' :: address ++ back) := by
  have hwords : ∀ (b : Bool) (v : Text) (b' : Bool) (u : Text), (b', u) ∈ ends ipRegex b v ↔
      (u = [] ∨ u = ['\n']) ∧ b' = false ∧ ∃ address, IsIpAddress address ∧
        (v = '.' :: address ++ u ∨ b = true ∧ v = address ++ u) := by
    intro b v b' u
    rw [ipRegex, mem_ends_seq]
    constructor
    · rintro ⟨m, rest, hrest, hstop⟩
      obtain ⟨hback, rfl, rfl⟩ := mem_ends_stop.mp hstop
      obtain ⟨rfl, ws, hlength, hws, h⟩ := (mem_ends_pow_head_seq reads_octet).mp hrest
      exact ⟨hback, rfl, _, ⟨ws, hlength, fun w hw => mem_words_iff.mp (hws w hw), rfl⟩, h⟩
    · rintro ⟨hback, rfl, address, ⟨ws, hlength, hws, rfl⟩, h⟩
      exact ⟨false, u, (mem_ends_pow_head_seq reads_octet).mpr
        ⟨rfl, ws, hlength, fun w hw => mem_words_iff.mpr (hws w hw), h⟩,
        mem_ends_stop.mpr ⟨hback, rfl, rfl⟩⟩
  rw [found_iff]
  constructor
  · rintro ⟨front, v, b', back, rfl, hmem⟩
    obtain ⟨hback, -, address, haddress, rfl | ⟨hfront, rfl⟩⟩ := (hwords _ _ _ _).mp hmem
    · exact ⟨address, back, haddress, hback, .inr ⟨front, by simp⟩⟩
    · have hnil : front = [] := by simpa using hfront
      exact ⟨address, back, haddress, hback, .inl (by rw [hnil, List.nil_append])⟩
  · rintro ⟨address, back, haddress, hback, rfl | ⟨front, rfl⟩⟩
    · exact ⟨[], _, false, back, rfl, (hwords _ _ _ _).mpr
        ⟨hback, rfl, address, haddress, .inr ⟨rfl, rfl⟩⟩⟩
    · exact ⟨front, '.' :: address ++ back, false, back, by simp, (hwords _ _ _ _).mpr
        ⟨hback, rfl, address, haddress, .inl rfl⟩⟩

/-! ## Addresses and what is more than an address -/

theorem count_intercalate {mark : Char} {ws : List Text} (h : ∀ w ∈ ws, mark ∉ w) :
    ([mark].intercalate ws).count mark = ws.length - 1 := by
  induction ws with
  | nil => rfl
  | cons w ws ih =>
      obtain ⟨hw, hws⟩ := List.forall_mem_cons.mp h
      have hcount := List.count_eq_zero.mpr hw
      cases ws with
      | nil => simpa [List.intercalate] using hcount
      | cons v ws =>
          rw [List.intercalate_cons_cons, List.count_append, List.count_append, hcount, ih hws]
          simp
          omega

theorem mem_intercalate {mark c : Char} {ws : List Text} (h : c ∈ [mark].intercalate ws) :
    c = mark ∨ ∃ w ∈ ws, c ∈ w := by
  induction ws with
  | nil => cases h
  | cons w ws ih =>
      cases ws with
      | nil => exact .inr ⟨w, List.mem_cons_self, by simpa [List.intercalate] using h⟩
      | cons v ws =>
          rw [List.intercalate_cons_cons, List.mem_append, List.mem_append] at h
          rcases h with (h | h) | h
          · exact .inr ⟨w, List.mem_cons_self, h⟩
          · exact .inl (List.mem_singleton.mp h)
          · exact (ih h).imp_right fun ⟨x, hx, hc⟩ => ⟨x, List.mem_cons_of_mem w hx, hc⟩

theorem IsIpAddress.chars {t : Text} (h : IsIpAddress t) :
    t.count '.' = 3 ∧ ∀ c ∈ t, c.isDigit = true ∨ c = '.' := by
  obtain ⟨ws, hlength, hws, rfl⟩ := h
  have hdigit : ∀ w ∈ ws, ∀ c ∈ w, c.isDigit = true := by
    intro w hw c hc
    obtain ⟨n, -, rfl⟩ := hws w hw
    exact Nat.isDigit_of_mem_toDigits (by decide) (by decide) hc
  constructor
  · rw [count_intercalate fun w hw hmem => absurd (hdigit w hw '.' hmem) (by decide), hlength]
  · intro c hc
    rcases mem_intercalate hc with rfl | ⟨w, hw, hc⟩
    · exact .inr rfl
    · exact .inl (hdigit w hw c hc)

/-- An address has no room for anything more. -/
theorem IsIpAddress.not_isPadded {t : Text} (h : IsIpAddress t) : ¬ IsPadded t := by
  rintro ⟨address, haddress, rfl | ⟨front, back, -, rfl⟩⟩
  · have hmem := h.chars.2 '\n' (List.mem_append_right _ List.mem_cons_self)
    exact absurd hmem (by decide)
  · have hcount := h.chars.1
    simp only [List.count_append, List.count_cons_self, haddress.chars.1] at hcount
    omega

/-! ## The check of the class files -/

/-- One part of an address, in the form that the class files check. -/
theorem isOctet_iff {w : Text} : Validator.isOctet w = true ↔
    ∃ n < 256, w = Nat.toDigits 10 n := by
  have hones : ∀ c, '1' ≤ c ∧ c ≤ '9' ↔ c ∈ ['1', '2', '3', '4', '5', '6', '7', '8', '9'] :=
    fun c => between_iff (by decide) (by decide)
  have hfours : ∀ c, '0' ≤ c ∧ c ≤ '4' ↔ c ∈ ['0', '1', '2', '3', '4'] :=
    fun c => between_iff (by decide) (by decide)
  have hfives : ∀ c, '0' ≤ c ∧ c ≤ '5' ↔ c ∈ ['0', '1', '2', '3', '4', '5'] :=
    fun c => between_iff (by decide) (by decide)
  have hunits : ∀ c t, c :: t ∈ units ↔ c.isDigit = true ∧ t = [] := by
    intro c t
    rw [isDigit_iff_mem]
    simp [units, eq_comm]
  have htens : tens =
      joins (['1', '2', '3', '4', '5', '6', '7', '8', '9'].map fun c => [c]) units := rfl
  have hhundreds : hundreds =
      joins (['1'].map fun c => [c]) (joins (digits.map fun c => [c]) units) := rfl
  have htwo : twoHundreds = joins (['2'].map fun c => [c])
      (joins (['0', '1', '2', '3', '4'].map fun c => [c]) units) := rfl
  have hfifties : fifties = joins (['2'].map fun c => [c])
    (joins (['5'].map fun c => [c]) (['0', '1', '2', '3', '4', '5'].map fun c => [c])) := rfl
  have hnil : [] ∉ units := by decide
  rw [← mem_words_iff, htens, hhundreds, htwo, hfifties]
  match w with
  | [] =>
      simp only [Validator.isOctet, List.mem_append, nil_notMem_joins, hnil, or_false,
        Bool.false_eq_true]
  | [a] =>
      simp only [Validator.isOctet, List.mem_append, cons_mem_joins, hunits, nil_notMem_joins,
        hnil, and_false, and_true, false_or]
  | [a, b] =>
      simp only [Validator.isOctet, List.mem_append, cons_mem_joins, nil_notMem_singles, hunits,
        hnil, ← hones, Bool.and_eq_true, decide_eq_true_iff, reduceCtorEq, and_false, and_true,
        false_or, or_false]
  | [a, b, c] =>
      simp only [Validator.isOctet, List.mem_append, cons_mem_joins, cons_mem_singles, hunits,
        ← hones, ← hfours, ← hfives, ← isDigit_iff_mem, Bool.or_eq_true, Bool.and_eq_true,
        beq_iff_eq, decide_eq_true_iff, List.mem_singleton, reduceCtorEq, and_false, and_true,
        or_false, and_assoc]
      exact or_comm.trans (or_congr_right or_comm)
  | a :: b :: c :: d :: w =>
      simp only [Validator.isOctet, List.mem_append, cons_mem_joins, cons_mem_singles, hunits,
        reduceCtorEq, and_false, or_false, Bool.false_eq_true]

/-- Joined words are put behind a text, or behind a mark that follows it. -/
theorem intercalate_append {mark : Char} {us ws : List Text} (hus : us ≠ []) (hws : ws ≠ []) :
    [mark].intercalate (us ++ ws) = [mark].intercalate us ++ mark :: [mark].intercalate ws := by
  induction us with
  | nil => exact absurd rfl hus
  | cons u us ih =>
      cases us with
      | nil =>
          rw [List.singleton_append, List.intercalate_cons_of_ne_nil hws,
            List.intercalate_singleton, List.append_assoc, List.singleton_append]
      | cons v us =>
          have hrest := ih (List.cons_ne_nil v us)
          rw [List.cons_append, List.intercalate_cons_of_ne_nil (by simp), hrest,
            List.intercalate_cons_cons, List.append_assoc, List.append_assoc, List.append_assoc]

theorem splitOn_address {ws : List Text} (hlength : ws.length = 4)
    (hws : ∀ w ∈ ws, ∃ n < 256, w = Nat.toDigits 10 n) :
    (['.'].intercalate ws).splitOn '.' = ws := by
  refine List.splitOn_intercalate '.' (fun w hw hmem => ?_) ?_
  · obtain ⟨n, -, rfl⟩ := hws w hw
    exact absurd (Nat.isDigit_of_mem_toDigits (by decide) (by decide) hmem) (by decide)
  · rintro rfl
    cases hlength

theorem getLast?_append_address {address : Text} (h : IsIpAddress address) (front : Text) :
    (front ++ address).getLast? ≠ some '\n' := by
  have hne : address ≠ [] := by
    rintro rfl
    cases h.chars.1
  intro hlast
  rw [List.getLast?_append_of_ne_nil front hne] at hlast
  exact absurd (h.chars.2 '\n' (List.mem_of_getLast? hlast)) (by decide)

/-- What the class files check is the expression. -/
theorem matchesAddress_eq_found (t : Text) :
    Validator.matchesAddress t = found ipRegex true t := by
  rw [Bool.eq_iff_iff, found_ipRegex_iff, Validator.matchesAddress]
  constructor
  · intro h
    obtain ⟨body, back, hback, rfl, hbody⟩ : ∃ body back, (back = [] ∨ back = ['\n']) ∧
        t = body ++ back ∧ (if t.getLast? = some '\n' then t.dropLast else t) = body := by
      split_ifs with hfeed
      · obtain ⟨init, rfl⟩ := List.getLast?_eq_some_iff.mp hfeed
        exact ⟨init, ['\n'], .inr rfl, rfl, List.dropLast_concat⟩
      · exact ⟨t, [], .inl rfl, (List.append_nil t).symm, rfl⟩
    simp only [hbody, Bool.and_eq_true, decide_eq_true_iff] at h
    obtain ⟨hfour, hall⟩ := h
    generalize hparts : body.splitOn '.' = parts at hfour hall
    have hlength : (parts.drop (parts.length - 4)).length = 4 := by
      rw [List.length_drop]
      omega
    have hws : parts.drop (parts.length - 4) ≠ [] := fun hnil => by
      rw [hnil] at hlength
      cases hlength
    have hjoin : body = ['.'].intercalate
        (parts.take (parts.length - 4) ++ parts.drop (parts.length - 4)) := by
      rw [List.take_append_drop, ← hparts, List.intercalate_splitOn]
    refine ⟨['.'].intercalate (parts.drop (parts.length - 4)), back,
      ⟨_, hlength, fun w hw => isOctet_iff.mp (List.all_eq_true.mp hall w hw), rfl⟩, hback, ?_⟩
    by_cases hus : parts.take (parts.length - 4) = []
    · rw [hus, List.nil_append] at hjoin
      exact .inl (by rw [hjoin])
    · rw [intercalate_append hus hws] at hjoin
      exact .inr ⟨_, by rw [hjoin]⟩
  · rintro ⟨address, back, haddress, hback, ht⟩
    obtain ⟨body, hbody, rfl⟩ : ∃ body,
        (body = address ∨ ∃ front, body = front ++ '.' :: address) ∧ t = body ++ back := by
      rcases ht with rfl | ⟨front, rfl⟩
      · exact ⟨address, .inl rfl, rfl⟩
      · exact ⟨front ++ '.' :: address, .inr ⟨front, rfl⟩, rfl⟩
    have hlast : body.getLast? ≠ some '\n' := by
      rcases hbody with rfl | ⟨front, rfl⟩
      · exact getLast?_append_address haddress []
      · simpa using getLast?_append_address haddress (front ++ ['.'])
    have hcut : (if (body ++ back).getLast? = some '\n' then (body ++ back).dropLast
        else body ++ back) = body := by
      rcases hback with rfl | rfl
      · rw [List.append_nil, if_neg hlast]
      · rw [if_pos List.getLast?_concat, List.dropLast_concat]
    obtain ⟨ws, hlength, hws, rfl⟩ := haddress
    obtain ⟨us, hparts⟩ : ∃ us, body.splitOn '.' = us ++ ws := by
      rcases hbody with rfl | ⟨front, rfl⟩
      · exact ⟨[], splitOn_address hlength hws⟩
      · exact ⟨front.splitOn '.', by
          rw [List.splitOn_append_cons_self, splitOn_address hlength hws]⟩
    have hall : ws.all Validator.isOctet = true :=
      List.all_eq_true.mpr fun w hw => isOctet_iff.mpr (hws w hw)
    simp only [hcut, hparts, List.length_append, hlength, Nat.add_sub_cancel, List.drop_left, hall]
    simp

/-- An address that the class files check has the same error. -/
theorem validator_ipAddress_eq (form : PostedForm) (field : Text) :
    Validator.ipAddress form field =
      (ipAddress none field (form.value field).toText []).map fun e => ⟨e.1, e.2⟩ := by
  rw [Validator.ipAddress, matchesAddress_eq_found, ipAddress]
  cases found ipRegex true (form.value field).toText <;> rfl

/-! ## The errors -/

/-- No error is recorded exactly for addresses, but for texts that are padded addresses. -/
theorem ipAddress_iff (msg? : Option Text) (control value : Text) (errors : List (Text × Text)) :
    (ipAddress msg? control value errors = errors ↔ IsIpAddress value) ↔ ¬ IsPadded value := by
  have hfound : ipAddress msg? control value errors = errors ↔ found ipRegex true value = true := by
    unfold ipAddress
    split
    · next h => exact iff_of_true rfl h
    · next h => exact iff_of_false (by simp) h
  rw [hfound, found_ipRegex_iff]
  constructor
  · rintro h ⟨address, haddress, hpadded⟩
    have hvalue : IsIpAddress value := by
      rcases hpadded with rfl | ⟨front, back, hback, rfl⟩
      · exact h.mp ⟨address, ['\n'], haddress, .inr rfl, .inl rfl⟩
      · exact h.mp ⟨address, back, haddress, hback, .inr ⟨front, rfl⟩⟩
    exact hvalue.not_isPadded ⟨address, haddress, hpadded⟩
  · intro h
    constructor
    · rintro ⟨address, back, haddress, hback, rfl | ⟨front, rfl⟩⟩
      · rcases hback with rfl | rfl
        · rwa [List.append_nil]
        · exact absurd ⟨address, haddress, .inl rfl⟩ h
      · exact absurd ⟨address, haddress, .inr ⟨front, back, hback, rfl⟩⟩ h
    · intro haddress
      exact ⟨value, [], haddress, .inl rfl, .inl (List.append_nil value).symm⟩

/-- Five numbers are taken for an address. -/
theorem five_numbers_pass : ¬ (ipAddress none "primary".toList "999.8.8.8.8".toList [] = [] ↔
    IsIpAddress "999.8.8.8.8".toList) := by
  intro h
  have haddress := h.mp (by decide +kernel)
  exact absurd haddress.chars.1 (by decide +kernel)

end IpAddress

end WampManager
