import LessonScript.Proofs.TokenText
import LessonScript.Proofs.LiteralLexing

/-!
How far a token goes.

A token is read from its own text: what comes behind its last character matters only for where it
ends.  Where the text ends, or goes on with a blank or a line feed, nothing behind that place is
looked at (`Lexeme.scan_parted`), with one exception: a string that is still open goes on over
blanks.  A token without a complaint is read again from its text alone (`Lexeme.scan_whole`).
-/

namespace LessonScript

open Lexer Text

/-! ### Ends of tokens -/

/-- The text ends, or goes on with a blank or a line feed. -/
def Parted (more : List Char) : Prop :=
  ∀ c ∈ more.head?, isBlank c = true ∨ c = '\n'

theorem Parted.nil : Parted [] :=
  nofun

theorem Parted.blank {c : Char} (blank : isBlank c = true) (more : List Char) :
    Parted (c :: more) := by
  rintro _ ⟨⟩
  exact .inl blank

theorem Parted.lineFeed (more : List Char) : Parted ('\n' :: more) := by
  rintro _ ⟨⟩
  exact .inr rfl

def separators : List Char :=
  [' ', '\t', '\r', '\x0c', '\n']

/-- What holds of no character that parts tokens does not hold of the first one of a parted text. -/
theorem Parted.head {more : List Char} (parted : Parted more) {p : Char → Bool}
    (others : separators.any p = false) : ∀ c ∈ more.head?, p c = false := by
  intro c first
  refine Bool.eq_false_iff.mpr (List.any_eq_false.mp others c ?_)
  rcases parted c first with blank | rfl
  · simp only [isBlank, Bool.or_eq_true, beq_iff_eq] at blank
    rcases blank with ((rfl | rfl) | rfl) | rfl
    all_goals simp [separators]
  · simp [separators]

theorem cutWhile_append_of_head {p : Char → Bool} {more : List Char}
    (stops : ∀ c ∈ more.head?, p c = false) (cs : List Char) :
    cutWhile p (cs ++ more) = ((cutWhile p cs).1, (cutWhile p cs).2 ++ more) := by
  have none : cutWhile p more = ([], more) := by
    cases more with
    | nil => rfl
    | cons c more =>
        have stop : ¬ p c = true := Bool.eq_false_iff.mp (stops c rfl)
        rw [cutWhile, List.takeWhile_cons_of_neg stop, List.dropWhile_cons_of_neg stop]
  induction cs with
  | nil => exact none
  | cons c cs ih =>
      unfold cutWhile at ih ⊢
      obtain ⟨front, back⟩ := Prod.mk.inj ih
      by_cases inside : p c = true
      · simp only [List.cons_append, List.takeWhile_cons_of_pos inside,
          List.dropWhile_cons_of_pos inside, front, back]
      · simp only [List.cons_append, List.takeWhile_cons_of_neg inside,
          List.dropWhile_cons_of_neg inside]

theorem cutWhile_inside {p : Char → Bool} {cs : List Char} (inside : ∀ c ∈ cs, p c = true) :
    cutWhile p cs = (cs, []) := by
  rw [cutWhile, List.takeWhile_eq_self_iff.mpr inside, List.dropWhile_eq_nil_iff.mpr inside]

theorem cutWhile_cutWhile (p : Char → Bool) (cs : List Char) :
    cutWhile p (cutWhile p cs).1 = ((cutWhile p cs).1, []) :=
  cutWhile_inside fun _ member => List.mem_takeWhile_imp member

theorem cutWhile_exact {p : Char → Bool} {front back : List Char}
    (inside : ∀ c ∈ front, p c = true) (stops : ∀ c ∈ back.head?, p c = false) :
    cutWhile p (front ++ back) = (front, back) := by
  rw [cutWhile_append_of_head stops, cutWhile_inside inside, List.nil_append]

namespace Lexeme

/-- The token with more text behind it. -/
def before (token : Lexeme) (more : List Char) : Lexeme :=
  { token with rest := token.rest ++ more }

/-! ### Numbers -/

theorem digits_parted : separators.any Char.isDigit = false :=
  rfl

theorem nameParts_parted : separators.any isNamePart = false := by
  decide +kernel

theorem isNameStart_false {c : Char} (other : isNamePart c = false) : isNameStart c = false :=
  Bool.eq_false_iff.mpr fun start =>
    Bool.eq_false_iff.mp other (isNamePart_of_isNameStart start)

theorem scanDigits_append_of_head {more : List Char}
    (digits : ∀ c ∈ more.head?, c.isDigit = false) (points : ∀ c ∈ more.head?, c ≠ '.')
    (c : Char) (cs : List Char) :
    scanDigits c (cs ++ more) =
      ((scanDigits c cs).1, (scanDigits c cs).2.1, (scanDigits c cs).2.2 ++ more) := by
  unfold scanDigits
  rw [cutWhile_append_of_head digits]
  split
  · rfl
  · dsimp only
    cases rest : (cutWhile Char.isDigit cs).2 with
    | nil =>
        rw [List.nil_append]
        split
        · exact absurd rfl (points '.' rfl)
        · rfl
    | cons d rest =>
        rw [List.cons_append]
        by_cases point : d = '.'
        · subst point
          simp only [cutWhile_append_of_head digits]
        · split
          · rename_i same
            cases same
            exact absurd rfl point
          · split
            · rename_i same
              cases same
              exact absurd rfl point
            · rfl

theorem scanDigits_parted {more : List Char} (parted : Parted more) (c : Char) (cs : List Char) :
    scanDigits c (cs ++ more) =
      ((scanDigits c cs).1, (scanDigits c cs).2.1, (scanDigits c cs).2.2 ++ more) := by
  have points : ∀ d ∈ more.head?, (d == '.') = false := parted.head rfl
  exact scanDigits_append_of_head (parted.head digits_parted)
    (fun d first => by simpa using points d first) c cs

def splitExponent (cs : List Char) : List Char × List Char × List Char :=
  match cs with
  | sign :: digits =>
    if sign = '+' ∨ sign = '-' then ([sign], cutWhile Char.isDigit digits)
    else ([], cutWhile Char.isDigit cs)
  | [] => ([], [], [])

theorem scanExponent_cons (mark : Char) (cs : List Char) :
    scanExponent (mark :: cs) =
      if mark = 'e' ∨ mark = 'E' then
        if (splitExponent cs).2.1.isEmpty then ([], mark :: cs)
        else (mark :: ((splitExponent cs).1 ++ (splitExponent cs).2.1), (splitExponent cs).2.2)
      else ([], mark :: cs) := by
  unfold scanExponent splitExponent
  dsimp only
  split
  · cases cs with
    | nil => rfl
    | cons sign digits =>
        dsimp only
        split <;> rfl
  · rfl

theorem splitExponent_parted {more : List Char} (parted : Parted more) (cs : List Char) :
    splitExponent (cs ++ more) =
      ((splitExponent cs).1, (splitExponent cs).2.1, (splitExponent cs).2.2 ++ more) := by
  have digits := parted.head digits_parted
  cases cs with
  | nil =>
      cases more with
      | nil => rfl
      | cons c more =>
          have sign : (c == '+' || c == '-') = false :=
            parted.head (p := fun c => c == '+' || c == '-') rfl c rfl
          have plain : ¬ (c = '+' ∨ c = '-') := by simpa using sign
          have none := cutWhile_append_of_head digits []
          rw [List.nil_append] at none ⊢
          simp only [splitExponent, if_neg plain, none]
          rfl
  | cons sign rest =>
      have whole := cutWhile_append_of_head digits (sign :: rest)
      rw [List.cons_append] at whole ⊢
      unfold splitExponent
      dsimp only
      split
      · rw [cutWhile_append_of_head digits]
      · rw [whole]

theorem scanExponent_parted {more : List Char} (parted : Parted more) (cs : List Char) :
    scanExponent (cs ++ more) = ((scanExponent cs).1, (scanExponent cs).2 ++ more) := by
  cases cs with
  | nil =>
      cases more with
      | nil => rfl
      | cons c more =>
          have letter : (c == 'e' || c == 'E') = false :=
            parted.head (p := fun c => c == 'e' || c == 'E') rfl c rfl
          have plain : ¬ (c = 'e' ∨ c = 'E') := by simpa using letter
          rw [List.nil_append, scanExponent_cons, if_neg plain]
          rfl
  | cons mark cs =>
      rw [List.cons_append, scanExponent_cons, scanExponent_cons, splitExponent_parted parted]
      split
      · split <;> rfl
      · rfl

theorem scanSuffix_parted {more : List Char} (parted : Parted more) (cs : List Char) :
    scanSuffix (cs ++ more) = ((scanSuffix cs).1, (scanSuffix cs).2 ++ more) := by
  cases cs with
  | nil =>
      cases more with
      | nil => rfl
      | cons c more =>
          have other := isNameStart_false (parted.head nameParts_parted c rfl)
          rw [List.nil_append, scanSuffix, if_neg (Bool.eq_false_iff.mp other)]
          rfl
  | cons c cs =>
      have whole := cutWhile_append_of_head (parted.head nameParts_parted) (c :: cs)
      rw [List.cons_append] at whole ⊢
      unfold scanSuffix
      dsimp only
      split
      · exact whole
      · rfl

theorem scanNumber_parted {more : List Char} (parted : Parted more) (c : Char) (cs : List Char) :
    scanNumber c (cs ++ more) = (scanNumber c cs).before more := by
  simp only [scanNumber, scanDigits_parted parted, scanExponent_parted parted,
    scanSuffix_parted parted, before]

/-! ### Words, operators and strings -/

theorem scanWord_parted {more : List Char} (parted : Parted more) (c : Char) (cs : List Char) :
    scanWord c (cs ++ more) = (scanWord c cs).before more := by
  simp only [scanWord, cutWhile_append_of_head (parted.head nameParts_parted), before]

theorem scanSingle_append (c : Char) (cs more : List Char) :
    scanSingle c (cs ++ more) = (scanSingle c cs).before more := by
  unfold scanSingle
  split <;> rfl

theorem ofChars?_parted {c d : Char} {more : List Char} (parted : Parted (d :: more)) :
    Symbol.ofChars? [c, d] = none := by
  have ends : (Symbol.all.any fun s => s.chars.getLast? == some d) = false :=
    parted.head (p := fun d => Symbol.all.any fun s => s.chars.getLast? == some d) rfl d rfl
  rw [Symbol.ofChars?, List.find?_eq_none]
  intro s listed spelled
  apply List.any_eq_false.mp ends s listed
  rw [eq_of_beq spelled]
  exact beq_self_eq_true _

theorem scanSymbol_parted {more : List Char} (parted : Parted more) (c : Char) (cs : List Char) :
    scanSymbol c (cs ++ more) = (scanSymbol c cs).before more := by
  cases cs with
  | nil =>
      cases more with
      | nil => exact scanSingle_append c [] []
      | cons d more =>
          rw [List.nil_append, scanSymbol, ofChars?_parted parted]
          exact scanSingle_append c [] (d :: more)
  | cons second rest =>
      rw [List.cons_append]
      unfold scanSymbol
      dsimp only
      split
      · rfl
      · exact scanSingle_append c (second :: rest) more

theorem scanString_cons (quote c : Char) (cs value taken : List Char) :
    scanString quote (c :: cs) value taken =
      if c = quote then ⟨.str (String.ofList value.reverse), (c :: taken).reverse, cs⟩
      else if c = '\\' then
        match cs with
        | [] => ⟨.fault .unterminatedString, (c :: taken).reverse, []⟩
        | letter :: cs =>
          match unescape? letter with
          | some escaped => scanString quote cs (escaped :: value) (letter :: c :: taken)
          | none =>
            ⟨.fault (if letter = '\n' then .unterminatedString else .invalidEscape letter),
              (c :: taken).reverse, letter :: cs⟩
      else if c = '\n' then ⟨.fault .unterminatedString, taken.reverse, c :: cs⟩
      else scanString quote cs (c :: value) (c :: taken) :=
  (scanString.eq_def quote (c :: cs) value taken).trans rfl

/-- An open string goes on over blanks, but not over the end of its line. -/
theorem scanString_parted {more : List Char} {quote : Char} (known : quote ≠ '\n')
    (cs value taken : List Char)
    (ends : (scanString quote cs value taken).kind = .fault .unterminatedString →
      (scanString quote cs value taken).rest = [] → ∀ c ∈ more.head?, c = '\n') :
    scanString quote (cs ++ more) value taken = (scanString quote cs value taken).before more := by
  fun_induction scanString quote cs value taken with
  | case1 value taken =>
      cases more with
      | nil => rfl
      | cons c more =>
          obtain rfl := ends rfl rfl c rfl
          rw [List.nil_append, scanString_cons, if_neg known.symm, if_neg (by decide), if_pos rfl]
          rfl
  | case2 cs value taken =>
      rw [List.cons_append, scanString_cons, if_pos rfl]
      rfl
  | case3 value taken inside =>
      rw [List.cons_append, List.nil_append, scanString_cons, if_neg inside, if_pos rfl]
      cases more with
      | nil => rfl
      | cons c more =>
          obtain rfl := ends rfl rfl c rfl
          rfl
  | case4 value taken letter cs escaped read inside ih =>
      rw [← ih ends, List.cons_append, List.cons_append, scanString_cons, if_neg inside,
        if_pos rfl]
      simp only [read]
  | case5 value taken letter cs read complaint inside =>
      rw [List.cons_append, List.cons_append, scanString_cons, if_neg inside, if_pos rfl]
      simp only [read]
      rfl
  | case6 cs value taken inside plain =>
      rw [List.cons_append, scanString_cons, if_neg inside, if_neg plain, if_pos rfl]
      rfl
  | case7 c cs value taken inside plain other ih =>
      rw [← ih ends, List.cons_append, scanString_cons, if_neg inside, if_neg plain, if_neg other]

theorem startsWithDigit_parted {more : List Char} (parted : Parted more) (cs : List Char) :
    startsWithDigit (cs ++ more) = startsWithDigit cs := by
  cases cs with
  | nil =>
      cases more with
      | nil => rfl
      | cons d more => exact parted.head digits_parted d rfl
  | cons => rfl

/-- What is behind a blank or a line feed is not looked at, unless a string is still open there. -/
theorem scan_parted {more : List Char} (parted : Parted more) (c : Char) (cs : List Char)
    (ends : (scan c cs).kind = .fault .unterminatedString → (scan c cs).rest = [] →
      ∀ d ∈ more.head?, d = '\n') :
    scan c (cs ++ more) = (scan c cs).before more := by
  unfold scan at ends ⊢
  rw [startsWithDigit_parted parted]
  split
  · rename_i quotes
    rw [if_pos quotes] at ends
    exact scanString_parted (by rcases quotes with rfl | rfl <;> decide) cs [] [] ends
  · split
    · exact scanNumber_parted parted c cs
    · split
      · exact scanWord_parted parted c cs
      · exact scanSymbol_parted parted c cs

/-- A token ends in the same place where a line feed behind it is a space, unless that line feed
ends a string that is still open. -/
theorem scan_spaced {c : Char} {after mid back : List Char}
    (rest : (scan c after).rest = mid ++ '\n' :: back)
    (ends : (scan c after).kind = .fault .unterminatedString → mid ≠ []) :
    scan c ((scan c after).tail ++ mid ++ ' ' :: back) =
      { scan c after with rest := mid ++ ' ' :: back } := by
  have split : after = (scan c after).tail ++ mid ++ '\n' :: back := by
    rw [List.append_assoc, ← rest, scan_append]
  generalize (scan c after).tail ++ mid = text at split ⊢
  have whole : scan c after = (scan c text).before ('\n' :: back) := by
    rw [split]
    exact scan_parted (.lineFeed back) c text fun _ _ d first => (Option.some.inj first).symm
  rw [whole] at rest ends ⊢
  have left : (scan c text).rest = mid := List.append_cancel_right rest
  rw [scan_parted (.blank rfl back) c text fun open_ empty =>
    absurd (left.symm.trans empty) (ends open_)]
  rw [before, before, left]

/-! ### Tokens read from their own text -/

theorem scanString_whole {quote : Char} (cs value taken : List Char)
    (fine : (scanString quote cs value taken).kind.complains = false) :
    ∃ body, (scanString quote cs value taken).tail = taken.reverse ++ body ∧
      scanString quote body value taken =
        { scanString quote cs value taken with rest := [] } := by
  fun_induction scanString quote cs value taken with
  | case1 | case3 | case5 | case6 => cases fine
  | case2 cs value taken =>
      refine ⟨[quote], List.reverse_cons, ?_⟩
      rw [scanString_cons, if_pos rfl]
  | case4 value taken letter cs escaped read inside ih =>
      obtain ⟨body, tail, whole⟩ := ih fine
      refine ⟨'\\' :: letter :: body, by rw [tail]; simp, ?_⟩
      rw [← whole, scanString_cons, if_neg inside, if_pos rfl]
      simp only [read]
  | case7 c cs value taken inside plain other ih =>
      obtain ⟨body, tail, whole⟩ := ih fine
      refine ⟨c :: body, by rw [tail]; simp, ?_⟩
      rw [← whole, scanString_cons, if_neg inside, if_neg plain, if_neg other]

theorem scanDigits_point (cs : List Char) :
    scanDigits '.' cs = ((cutWhile Char.isDigit cs).1, true, (cutWhile Char.isDigit cs).2) :=
  if_pos rfl

theorem scanDigits_fraction {c : Char} (noPoint : c ≠ '.') {cs behind : List Char}
    (rest : (cutWhile Char.isDigit cs).2 = '.' :: behind) :
    scanDigits c cs = ((cutWhile Char.isDigit cs).1 ++ '.' :: (cutWhile Char.isDigit behind).1,
      true, (cutWhile Char.isDigit behind).2) := by
  unfold scanDigits
  rw [if_neg noPoint]
  simp only [rest]

theorem scanDigits_plain {c : Char} (noPoint : c ≠ '.') {cs : List Char}
    (rest : ∀ behind, (cutWhile Char.isDigit cs).2 ≠ '.' :: behind) :
    scanDigits c cs = ((cutWhile Char.isDigit cs).1, false, (cutWhile Char.isDigit cs).2) := by
  unfold scanDigits
  rw [if_neg noPoint]
  dsimp only
  split
  · rename_i same
    exact absurd same (rest _)
  · rfl

theorem scanDigits_whole (c : Char) (cs : List Char) :
    scanDigits c (scanDigits c cs).1 = ((scanDigits c cs).1, (scanDigits c cs).2.1, []) := by
  by_cases point : c = '.'
  · subst point
    rw [scanDigits_point cs, scanDigits_point, cutWhile_cutWhile]
  · by_cases rest : ∃ behind, (cutWhile Char.isDigit cs).2 = '.' :: behind
    · obtain ⟨behind, rest⟩ := rest
      have stops : ∀ d ∈ ('.' :: (cutWhile Char.isDigit behind).1).head?, d.isDigit = false := by
        rintro _ ⟨⟩
        rfl
      have taken := cutWhile_append_of_head stops (cutWhile Char.isDigit cs).1
      rw [cutWhile_cutWhile] at taken
      rw [scanDigits_fraction point rest,
        scanDigits_fraction point (congrArg Prod.snd taken), taken, cutWhile_cutWhile]
    · have plain := scanDigits_plain point (not_exists.mp rest)
      have taken := cutWhile_cutWhile Char.isDigit cs
      rw [plain, scanDigits_plain point (by rw [taken]; exact nofun), taken]

theorem splitExponent_whole (cs : List Char) :
    splitExponent ((splitExponent cs).1 ++ (splitExponent cs).2.1) =
      ((splitExponent cs).1, (splitExponent cs).2.1, []) := by
  cases cs with
  | nil => rfl
  | cons sign digits =>
      by_cases signs : sign = '+' ∨ sign = '-'
      · simp only [splitExponent, if_pos signs, List.singleton_append, cutWhile_cutWhile]
      · have taken := cutWhile_cutWhile Char.isDigit (sign :: digits)
        simp only [splitExponent, if_neg signs, List.nil_append]
        split
        · rename_i first rest same
          have digit : first.isDigit = true := by
            have member : first ∈ (cutWhile Char.isDigit (sign :: digits)).1 := by
              rw [same]
              exact List.mem_cons_self ..
            exact List.mem_takeWhile_imp member
          rw [if_neg (by rintro (rfl | rfl) <;> cases digit), taken]
        · rename_i same
          rw [same]

theorem scanExponent_whole (cs : List Char) :
    scanExponent (scanExponent cs).1 = ((scanExponent cs).1, []) := by
  cases cs with
  | nil => rfl
  | cons mark cs =>
      rw [scanExponent_cons]
      split
      · rename_i marks
        split
        · rfl
        · rename_i some
          rw [scanExponent_cons, splitExponent_whole, if_pos marks, if_neg some]
      · rfl

theorem scanExponent_head (cs : List Char) :
    ∀ c ∈ (scanExponent cs).1.head?, c.isDigit = false ∧ c ≠ '.' := by
  cases cs with
  | nil => exact nofun
  | cons mark cs =>
      rw [scanExponent_cons]
      split
      · rename_i marks
        split
        · exact nofun
        · rintro _ ⟨⟩
          rcases marks with rfl | rfl <;> decide
      · exact nofun

theorem scanNumber_whole {c : Char} {cs : List Char}
    (fine : (scanNumber c cs).kind.complains = false) :
    scanNumber c (scanNumber c cs).tail = { scanNumber c cs with rest := [] } := by
  have head := scanExponent_head (scanDigits c cs).2.2
  have digits := scanDigits_append_of_head (fun d first => (head d first).1)
    (fun d first => (head d first).2) c (scanDigits c cs).1
  rw [scanDigits_whole] at digits
  -- Letters behind the digits would have made the number a complaint.
  have spoilt : (scanSuffix (scanExponent (scanDigits c cs).2.2).2).1 = [] := by
    by_contra some
    simp only [scanNumber, List.isEmpty_iff, if_neg some] at fine
    cases fine
  have none : scanSuffix [] = ([], []) := rfl
  simp only [scanNumber, spoilt, List.append_nil, digits, List.nil_append, scanExponent_whole,
    none, List.isEmpty_nil, if_true]

theorem scanWord_whole (c : Char) (cs : List Char) :
    scanWord c (scanWord c cs).tail = { scanWord c cs with rest := [] } := by
  simp only [scanWord, cutWhile_cutWhile]

theorem scanSingle_whole {c : Char} {cs : List Char} :
    scanSymbol c (scanSingle c cs).tail = { scanSingle c cs with rest := [] } := by
  unfold scanSingle
  split
  · rename_i s found
    simp only [scanSymbol, scanSingle, found]
  · rename_i none
    simp only [scanSymbol, scanSingle, none]

theorem scanSymbol_whole (c : Char) (cs : List Char) :
    scanSymbol c (scanSymbol c cs).tail = { scanSymbol c cs with rest := [] } := by
  cases cs with
  | nil => exact scanSingle_whole
  | cons second rest =>
      cases found : Symbol.ofChars? [c, second] with
      | none =>
          have single : scanSymbol c (second :: rest) = scanSingle c (second :: rest) := by
            simp only [scanSymbol, found]
          rw [single]
          exact scanSingle_whole
      | some s => simp only [scanSymbol, found]

theorem startsWithDigit_scanNumber {cs : List Char} (digit : startsWithDigit cs = true) :
    startsWithDigit (scanNumber '.' cs).tail = true := by
  cases cs with
  | nil => cases digit
  | cons d cs =>
      have front : (scanDigits '.' (d :: cs)).1 = d :: (cutWhile Char.isDigit cs).1 := by
        unfold scanDigits cutWhile
        rw [if_pos rfl]
        exact List.takeWhile_cons_of_pos digit
      simp only [scanNumber, front]
      exact digit

theorem scanSymbol_point (cs : List Char) : (scanSymbol '.' cs).kind.complains = true := by
  have none (rest : List Char) : Symbol.ofChars? ('.' :: rest) = none := by
    have starts : ∀ s ∈ Symbol.all, s.chars.head? ≠ some '.' := by decide
    rw [Symbol.ofChars?, List.find?_eq_none]
    intro s listed spelled
    apply starts s listed
    rw [eq_of_beq spelled]
    rfl
  cases cs with
  | nil => simp only [scanSymbol, scanSingle, none]; rfl
  | cons second rest => simp only [scanSymbol, scanSingle, none]; rfl

/-- A token without a complaint is read again from its text alone. -/
theorem scan_whole {c : Char} {cs : List Char} (fine : (scan c cs).kind.complains = false) :
    scan c (scan c cs).tail = { scan c cs with rest := [] } := by
  by_cases quotes : c = '"' ∨ c = '\''
  · have read (cs : List Char) : scan c cs = scanString c cs [] [] := if_pos quotes
    rw [read] at fine
    obtain ⟨body, tail, whole⟩ := scanString_whole cs [] [] fine
    rw [List.reverse_nil, List.nil_append] at tail
    rw [read cs, read, tail, whole]
  · have begins (cs : List Char) : scan c cs =
        if c.isDigit || (c == '.' && startsWithDigit cs) then scanNumber c cs
        else if isNameStart c then scanWord c cs
        else scanSymbol c cs := if_neg quotes
    by_cases number : (c.isDigit || (c == '.' && startsWithDigit cs)) = true
    · have read : scan c cs = scanNumber c cs := by rw [begins, if_pos number]
      rw [read] at fine ⊢
      rw [begins, scanNumber_whole fine, if_pos]
      simp only [Bool.or_eq_true, Bool.and_eq_true, beq_iff_eq] at number ⊢
      apply number.imp_right
      rintro ⟨rfl, digit⟩
      exact ⟨rfl, startsWithDigit_scanNumber digit⟩
    · have noDigit : c.isDigit = false := by
        simp only [Bool.or_eq_true, not_or] at number
        exact Bool.eq_false_iff.mpr number.1
      -- A point with no digit behind it is a complaint, so the choice depends on `c` alone.
      by_cases point : c = '.'
      · subst point
        have read : scan '.' cs = scanSymbol '.' cs := by
          rw [begins, if_neg number]
          exact if_neg (by decide +kernel)
        rw [read, scanSymbol_point] at fine
        cases fine
      · have plain (cs : List Char) : ¬ (c.isDigit || (c == '.' && startsWithDigit cs)) = true := by
          simp [noDigit, point]
        rw [begins cs, if_neg (plain cs), begins, if_neg (plain _)]
        split
        · exact scanWord_whole c cs
        · exact scanSymbol_whole c cs

end Lexeme

end LessonScript
