import BoatRamp.RawSql.Confiners

/-!
# Printed literals

A value that the rewriter puts into a statement is printed, and the engine reads
it again.  The printer doubles a quote unless it takes the quote for one that is
escaped already, so that not every text is read as it was meant.
-/

namespace BoatRamp.RawSql

open Tenancy List Option

def QUOTE : Char := Char.ofNat 39

def BACKSLASH : Char := Char.ofNat 92

/-- What the printer writes between the quotes, after the given character.  It leaves a quote alone
after a backslash, and two quotes next to each other. -/
def escapeQuoted (previous : Char) : Text → Text
  | [] => []
  | [char] =>
      if char = QUOTE ∧ previous ≠ BACKSLASH then [QUOTE, QUOTE] else [char]
  | char :: next :: rest =>
      if char = QUOTE then
        if previous = BACKSLASH then QUOTE :: escapeQuoted QUOTE (next :: rest)
        else if next = QUOTE then QUOTE :: QUOTE :: escapeQuoted QUOTE rest
        else QUOTE :: QUOTE :: escapeQuoted QUOTE (next :: rest)
      else char :: escapeQuoted char (next :: rest)

def Value.display : Value → Option Text
  | .singleQuotedString text => some (QUOTE :: escapeQuoted (Char.ofNat 0) text ++ [QUOTE])
  | _ => none

def unescape (char : Char) : Text :=
  if char = '%' ∨ char = '_' then [BACKSLASH, char]
  else if char = '0' then [Char.ofNat 0]
  else if char = 'b' then [Char.ofNat 8]
  else if char = 'n' then ['\n']
  else if char = 'r' then ['\r']
  else if char = 't' then ['\t']
  else if char = 'Z' then [Char.ofNat 26]
  else [char]

def readString (escapes : Bool) : Text → Option (Text × Text)
  | [] => none
  | [char] => if char = QUOTE then some ([], []) else none
  | char :: next :: rest =>
      if char = QUOTE then
        if next = QUOTE then (readString escapes rest).map fun read => (QUOTE :: read.1, read.2)
        else some ([], next :: rest)
      else if escapes ∧ char = BACKSLASH then
        (readString escapes rest).map fun read => (unescape next ++ read.1, read.2)
      else (readString escapes (next :: rest)).map fun read => (char :: read.1, read.2)

def readLiteral (dialect : Dialect) : Text → Option (Text × Text)
  | [] => none
  | char :: rest => if char = QUOTE then readString (dialect = .mysql) rest else none

def ReadAsMeant (dialect : Dialect) (text : Text) : Prop :=
  ∃ value printed, valueExpr (.text text) = .ok (.value value) ∧ value.display = some printed ∧
    ∀ rest : Text, rest.head? ≠ some QUOTE →
      readLiteral dialect (printed ++ rest) = some (text, rest)

/-- What may follow a character: no second quote after a quote, and after a backslash no quote, or
for an engine with escapes one of the two characters that the backslash stays in front of. -/
def fits (escapes : Bool) (char : Char) (next : Option Char) : Bool :=
  if char = QUOTE then next ≠ some QUOTE
  else if char = BACKSLASH then
    if escapes then next = some '%' || next = some '_' else next ≠ some QUOTE
  else true

def plain (escapes : Bool) : Text → Bool
  | [] => true
  | char :: rest => fits escapes char rest.head? && plain escapes rest

section Steps

variable {prev char : Char} (text : Text)

theorem escapeQuoted_cons (hc : char ≠ QUOTE) :
    escapeQuoted prev (char :: text) = char :: escapeQuoted char text := by
  cases text with
  | nil | cons next rest => simp [escapeQuoted, hc]

theorem escapeQuoted_after_backslash (char : Char) :
    escapeQuoted BACKSLASH (char :: text) = char :: escapeQuoted char text := by
  by_cases hc : char = QUOTE
  · cases text with
    | nil => simp [escapeQuoted]
    | cons next rest => simp [escapeQuoted, hc]
  · exact escapeQuoted_cons text hc

theorem escapeQuoted_doubled (hp : prev ≠ BACKSLASH) :
    escapeQuoted prev (QUOTE :: QUOTE :: text) = QUOTE :: QUOTE :: escapeQuoted QUOTE text := by
  simp [escapeQuoted, hp]

theorem escapeQuoted_single (hp : prev ≠ BACKSLASH) (hn : text.head? ≠ some QUOTE) :
    escapeQuoted prev (QUOTE :: text) = QUOTE :: QUOTE :: escapeQuoted QUOTE text := by
  cases text with
  | nil => simp [escapeQuoted, hp]
  | cons next rest =>
    have hs : next ≠ QUOTE := by simpa using hn
    simp [escapeQuoted, hp, hs]

variable (e : Bool)

theorem readString_end (hn : text.head? ≠ some QUOTE) :
    readString e (QUOTE :: text) = some ([], text) := by
  cases text with
  | nil => simp [readString]
  | cons next rest =>
    have hs : next ≠ QUOTE := by simpa using hn
    simp [readString, hs]

theorem readString_doubled : readString e (QUOTE :: QUOTE :: text) =
      (readString e text).map (fun r => (QUOTE :: r.1, r.2)) := by
  simp [readString]

theorem readString_cons (hq : char ≠ QUOTE) (hb : e = true → char ≠ BACKSLASH) :
    readString e (char :: text) = (readString e text).map (fun r => (char :: r.1, r.2)) := by
  cases text with
  | nil => simp [readString, hq]
  | cons next rest =>
    have hs : ¬(e = true ∧ char = BACKSLASH) := fun h => hb h.1 h.2
    simp [readString, hq, hs]

theorem readString_escaped : readString true (BACKSLASH :: char :: text) =
      (readString true text).map (fun r => (unescape char ++ r.1, r.2)) := by
  have hb : BACKSLASH ≠ QUOTE := by decide
  simp [readString, hb]

end Steps

theorem eq_some_of_map_cons {f : Option (Text × Text)} {char x : Char} {text rest : Text}
    (hm : f.map (fun r => (char :: r.1, r.2)) = some (x :: text, rest)) :
    f = some (text, rest) := by
  obtain ⟨⟨v, l⟩, hf, hv⟩ := map_eq_some_iff.mp hm
  cases hv
  exact hf

def weight (text : Text) : Nat := text.length + text.count QUOTE

theorem weight_cons (char : Char) (text : Text) :
    weight (char :: text) = weight text + if char = QUOTE then 2 else 1 := by
  simp only [weight, length_cons, count_cons, beq_iff_eq]
  split <;> omega

theorem weight_unescape (char : Char) (text : Text) :
    weight (unescape char ++ text) ≤ weight text + 2 := by
  have h (one : Char) : weight (one :: text) ≤ weight text + 2 := by
    rw [weight_cons]
    split <;> omega
  unfold unescape
  split
  next hp =>
    have hb : BACKSLASH ≠ QUOTE := by decide
    have hc : char ≠ QUOTE := by rcases hp with rfl | rfl <;> decide
    simp [weight_cons, hb, hc]
  · repeat' split
    all_goals exact h _

theorem length_escapeQuoted_le (p : Char) (text : Text) :
    (escapeQuoted p text).length ≤ weight text := by
  fun_induction escapeQuoted p text with
  | case1 | case3 => simp [weight]
  | case2 p char hc => simp [hc.1, weight_cons]
  | case4 next rest ih =>
    rw [weight_cons, if_pos rfl, length_cons]
    omega
  | case5 p rest hp ih =>
    simp only [weight_cons, length_cons, if_true]
    omega
  | case6 p next rest hp hn ih =>
    rw [weight_cons, if_pos rfl, length_cons, length_cons]
    omega
  | case7 p char next rest hc ih =>
    rw [weight_cons, if_neg hc, length_cons]
    omega

/-- A string uses up at least its own length and a closing quote, every quote in it counted
twice. -/
theorem weight_readString_le {es : Bool} {text v rest : Text}
    (hr : readString es text = some (v, rest)) : weight v + 1 + rest.length ≤ text.length := by
  fun_induction readString es text generalizing v rest with
  | case1 | case3 => cases hr
  | case2 =>
    cases hr
    simp [weight]
  | case4 tail ih =>
    obtain ⟨r, hf, hs⟩ := map_eq_some_iff.mp hr
    cases hs
    have := ih hf
    simp only [weight_cons, length_cons, if_true]
    omega
  | case5 =>
    cases hr
    simp [weight, Nat.add_comm]
  | case6 char next tail hq hb ih =>
    obtain ⟨r, hf, hs⟩ := map_eq_some_iff.mp hr
    cases hs
    have := ih hf
    have := weight_unescape next r.1
    simp only [length_cons]
    omega
  | case7 char next tail hq hb ih =>
    obtain ⟨r, hf, hs⟩ := map_eq_some_iff.mp hr
    cases hs
    have := ih hf
    simp only [weight_cons, length_cons, if_neg hq] at this ⊢
    omega

section Agreement

variable {e : Bool} {rest : Text} (hr : rest.head? ≠ some QUOTE)

include hr

theorem readString_of_plain {text : Text} {p : Char} (hp : plain e text = true)
    (hb : p = BACKSLASH → text.head? ≠ some QUOTE) :
    readString e (escapeQuoted p text ++ QUOTE :: rest) = some (text, rest) := by
  -- by the length of the text: an escape is read together with the character after it
  induction hl : text.length using Nat.strong_induction_on generalizing text p with
  | _ len ih =>
    cases text with
    | nil => exact readString_end rest e hr
    | cons char tail =>
      simp only [plain, Bool.and_eq_true] at hp
      obtain ⟨hf, ht⟩ := hp
      have hs : tail.length < len := by simp [← hl]
      by_cases hq : char = QUOTE
      · subst hq
        have hn : tail.head? ≠ some QUOTE := by simpa [fits] using hf
        have hc : p ≠ BACKSLASH := fun h => hb h rfl
        rw [escapeQuoted_single tail hc hn, cons_append, cons_append,
          readString_doubled, ih _ hs ht (fun h => absurd h (by decide)) rfl]
        rfl
      rw [escapeQuoted_cons tail hq, cons_append]
      by_cases he : e = true ∧ char = BACKSLASH
      · obtain ⟨rfl, rfl⟩ := he
        cases tail with
        | nil => simp [fits, hq] at hf
        | cons next tail =>
          have hm : next = '%' ∨ next = '_' := by simpa [fits, hq] using hf
          have hnq : next ≠ QUOTE := by rcases hm with rfl | rfl <;> decide
          have hnb : next ≠ BACKSLASH := by rcases hm with rfl | rfl <;> decide
          simp only [plain, Bool.and_eq_true] at ht
          simp only [length_cons] at hs
          rw [escapeQuoted_cons tail hnq, cons_append, readString_escaped,
            ih _ (by omega) ht.2 (fun h => absurd h hnb) rfl]
          simp [unescape, hm]
      rw [readString_cons _ e hq (fun h hc => he ⟨h, hc⟩), ih _ hs ht ?_ rfl]
      · rfl
      · rintro rfl
        have hn : e = false := by simpa using he
        simpa [fits, hq, hn] using hf

omit hr in
theorem quote_undoubled {p text : Text} (hl : p.length ≤ weight text) :
    readString e (QUOTE :: (p ++ QUOTE :: rest)) ≠ some (QUOTE :: text, rest) := by
  intro r
  cases hs : p ++ QUOTE :: rest with
  | nil => simp at hs
  | cons next tail =>
    have hn : p.length + rest.length = tail.length := by
      have := congrArg length hs
      simp only [length_append, length_cons] at this
      omega
    rw [hs] at r
    by_cases hq : next = QUOTE
    · rw [hq, readString_doubled] at r
      have := weight_readString_le (eq_some_of_map_cons r)
      omega
    · rw [readString_end _ _ (by simpa using hq)] at r
      cases r

omit hr in
theorem eq_backslash_of_unescape {char : Char} {r text : Text}
    (hu : unescape char ++ r = BACKSLASH :: text) :
    (char = '%' ∨ char = '_') ∧ char :: r = text ∨ char = BACKSLASH ∧ r = text := by
  unfold unescape at hu
  split at hu
  next hm => exact .inl ⟨hm, (cons.inj hu).2⟩
  refine .inr ?_
  repeat' split at hu
  all_goals
    obtain ⟨hc, ht⟩ := cons.inj hu
    first
      | exact ⟨hc, ht⟩
      | exact absurd hc (by decide)

theorem plain_of_readString {text : Text} {p : Char}
    (r : readString e (escapeQuoted p text ++ QUOTE :: rest) = some (text, rest)) :
    plain e text = true ∧ (p = BACKSLASH → text.head? ≠ some QUOTE) := by
  induction hl : text.length using Nat.strong_induction_on generalizing text p with
  | _ len ih =>
    cases text with
    | nil => exact ⟨rfl, fun _ => by simp⟩
    | cons char tail =>
      have hs : tail.length < len := by simp [← hl]
      have hh := length_escapeQuoted_le QUOTE tail
      simp only [plain, Bool.and_eq_true, head?_cons, ne_eq, some.injEq]
      by_cases hq : char = QUOTE
      · subst hq
        by_cases hp : p = BACKSLASH
        · rw [hp, escapeQuoted_after_backslash] at r
          exact absurd r (quote_undoubled hh)
        by_cases hn : tail.head? = some QUOTE
        · obtain ⟨tail, rfl⟩ := head?_eq_some_iff.mp hn
          rw [escapeQuoted_doubled tail hp, cons_append, cons_append, readString_doubled] at r
          have hw := weight_readString_le (eq_some_of_map_cons r)
          have hle := length_escapeQuoted_le QUOTE tail
          simp only [weight_cons, if_true, length_append, length_cons] at hw
          omega
        rw [escapeQuoted_single tail hp hn, cons_append, cons_append, readString_doubled] at r
        have ht := (ih _ hs (eq_some_of_map_cons r) rfl).1
        exact ⟨⟨by simp [fits, hn], ht⟩, fun h => absurd h hp⟩
      refine ⟨?_, fun _ => hq⟩
      rw [escapeQuoted_cons tail hq, cons_append] at r
      by_cases he : e = true ∧ char = BACKSLASH
      · obtain ⟨rfl, rfl⟩ := he
        cases tail with
        | nil =>
          rw [escapeQuoted, nil_append, readString_escaped] at r
          obtain ⟨f, -, hv⟩ := map_eq_some_iff.mp r
          rcases eq_backslash_of_unescape (Prod.mk.inj hv).1 with ⟨hm, -⟩ | ⟨hm, -⟩
          · exact absurd hm (by decide)
          · exact absurd hm (by decide)
        | cons next tail =>
          simp only [length_cons] at hs
          rw [escapeQuoted_after_backslash, cons_append, readString_escaped] at r
          obtain ⟨⟨v, l⟩, hf, hv⟩ := map_eq_some_iff.mp r
          obtain ⟨hu, rfl⟩ := Prod.mk.inj hv
          rcases eq_backslash_of_unescape hu with ⟨hm, hv⟩ | ⟨rfl, rfl⟩
          · obtain rfl := (cons.inj hv).2
            have hnq : next ≠ QUOTE := by rcases hm with rfl | rfl <;> decide
            have hnb : next ≠ BACKSLASH := by rcases hm with rfl | rfl <;> decide
            have ht := (ih _ (by omega) hf rfl).1
            exact ⟨by simp [fits, hq, hm], by simp [plain, fits, hnq, hnb, ht]⟩
          have hw := weight_readString_le hf
          have hle := length_escapeQuoted_le BACKSLASH tail
          simp only [weight_cons, if_neg hq, length_append, length_cons] at hw
          omega
      rw [readString_cons _ e hq fun h hc => he ⟨h, hc⟩] at r
      obtain ⟨ht, hn⟩ := ih _ hs (eq_some_of_map_cons r) rfl
      refine ⟨?_, ht⟩
      by_cases hc : char = BACKSLASH
      · have hne : e = false := by simpa [hc] using he
        simp [fits, hc, hn hc, hne]
      · simp [fits, hq, hc]

end Agreement

/-- A text is read as it was meant exactly when it has no two quotes next to each other and every
backslash in it is in front of something else than a quote, or in MySQL of `%` or `_`. -/
theorem readAsMeant_iff (dialect : Dialect) (text : Text) :
    ReadAsMeant dialect text ↔ plain (dialect = .mysql) text = true := by
  have hd (rest : Text) : readLiteral dialect
      (QUOTE :: escapeQuoted (Char.ofNat 0) text ++ [QUOTE] ++ rest) =
      readString (dialect = .mysql) (escapeQuoted (Char.ofNat 0) text ++ QUOTE :: rest) := by
    simp [readLiteral]
  constructor
  · rintro ⟨v, p, hv, hp, read⟩
    cases hv
    cases hp
    have hr := read [] (by simp)
    rw [hd] at hr
    exact (plain_of_readString (by simp) hr).1
  intro hp
  refine ⟨.singleQuotedString text, _, rfl, rfl, fun rest hr => ?_⟩
  rw [hd]
  exact readString_of_plain hr hp fun h => absurd h (by decide)

namespace Breakout

def tenant : Text := "x".toList ++ [BACKSLASH, QUOTE] ++ " or 1=1 --".toList

theorem literal_ended : ((Value.singleQuotedString tenant).display.bind (readLiteral .postgres)) =
        some ("x".toList ++ [BACKSLASH], " or 1=1 --".toList ++ [QUOTE]) ∧
      ¬ReadAsMeant .postgres tenant := by
  refine ⟨by decide +kernel, ?_⟩
  rintro ⟨value, p, hv, hp, read⟩
  cases hv
  cases hp
  exact absurd (read [] (by decide)) (by decide +kernel)

end Breakout

end BoatRamp.RawSql
