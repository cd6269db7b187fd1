import LessonScript.Proofs.LexerSteps
import LessonScript.Proofs.LiteralText
import LessonScript.Proofs.Grammar

/-!
The lexer reads the text of a literal.

Where a line has nothing else, the text of a literal without a sign is one token that denotes the
literal (`TakenWhole`).  A string loses its quotes and escapes, and of a number the lexer takes
what the readers of numbers take.
-/

namespace LessonScript

open Text Lexer

namespace Lexeme

theorem scanString_escapeChar {quote : Char} (known : quote = '\'' ∨ quote = '"') (c : Char)
    (rest value taken : List Char) :
    scanString quote (escapeChar quote c ++ rest) value taken =
      scanString quote rest (c :: value) ((escapeChar quote c).reverse ++ taken) := by
  have notSlash : '\\' ≠ quote := by rcases known with rfl | rfl <;> decide
  rcases Assembly.escapeChar_cases known c with
    ⟨letter, written, read⟩ | ⟨written, other, plain, notEnd⟩
  · rw [written, List.cons_append, List.singleton_append, scanString, if_neg notSlash, if_pos rfl,
      read]
    rfl
  · rw [written, List.singleton_append]
    conv => lhs; unfold scanString
    rw [if_neg other, if_neg plain, if_neg notEnd]
    rfl

theorem scanString_quoted {quote : Char} (known : quote = '\'' ∨ quote = '"')
    (cs value taken : List Char) :
    scanString quote (cs.flatMap (escapeChar quote) ++ [quote]) value taken =
      ⟨.str (String.ofList (value.reverse ++ cs)),
        taken.reverse ++ (cs.flatMap (escapeChar quote) ++ [quote]), []⟩ := by
  induction cs generalizing value taken with
  | nil =>
      rw [List.flatMap_nil, List.nil_append, scanString, if_pos rfl, List.append_nil,
        List.reverse_cons]
  | cons c cs ih =>
      rw [List.flatMap_cons, List.append_assoc, scanString_escapeChar known, ih]
      simp

theorem digits_of_readCapped? {cap n : Nat} {cs : List Char}
    (read : readCapped? cap cs = some n) : cs ≠ [] ∧ AllDigits cs := by
  unfold readCapped? at read
  split at read
  · rename_i digits
    simpa [AllDigits] using digits
  · cases read

theorem splitSign_cases (cs : List Char) :
    (∃ sign, cs = sign :: (splitSign cs).2 ∧ (sign = '+' ∨ sign = '-')) ∨
      (splitSign cs).2 = cs := by
  unfold splitSign
  split
  · exact .inl ⟨_, rfl, .inr rfl⟩
  · exact .inl ⟨_, rfl, .inl rfl⟩
  · exact .inr rfl

theorem cutWhile_all {digits : List Char} (all : AllDigits digits) :
    cutWhile Char.isDigit digits = (digits, []) := by
  have cut : cutWhile Char.isDigit (digits ++ []) = (digits, []) :=
    Binary64.cutWhile_digits all nofun
  rwa [List.append_nil] at cut

theorem isEmpty_of_ne_nil {cs : List Char} (some : cs ≠ []) : ¬ cs.isEmpty = true := by
  rwa [List.isEmpty_iff]

theorem scanExponent_of_read {cs : List Char} {exponent : Int}
    (read : Binary64.readExponent? cs = some exponent) : scanExponent cs = (cs, []) := by
  cases cs with
  | nil => rfl
  | cons mark rest =>
      unfold Binary64.readExponent? at read
      dsimp only at read
      split at read
      · rename_i marks
        obtain ⟨_, lifted, _⟩ := Option.map_eq_some_iff.mp read
        obtain ⟨_, capped, _⟩ := Option.bind_eq_some_iff.mp lifted
        obtain ⟨some, digits⟩ := digits_of_readCapped? capped
        unfold scanExponent
        rcases splitSign_cases rest with ⟨sign, signed, known⟩ | unsigned
        · generalize (splitSign rest).2 = behind at some digits signed
          subst signed
          simp only [if_pos marks, if_pos known, cutWhile_all digits,
            if_neg (isEmpty_of_ne_nil some), List.singleton_append]
        · rw [unsigned] at some digits
          obtain ⟨c, others, rfl⟩ := List.exists_cons_of_ne_nil some
          have plain : ¬ (c = '+' ∨ c = '-') := by
            have digit := digits c (List.mem_cons_self ..)
            rintro (rfl | rfl) <;> cases digit
          simp only [if_pos marks, if_neg plain, cutWhile_all digits,
            if_neg (isEmpty_of_ne_nil some), List.nil_append]
      · cases read

theorem scanNumber_eq {c : Char} {rest front behind : List Char} {point : Bool}
    (digits : scanDigits c rest = (front, point, behind))
    (exponent : scanExponent behind = (behind, [])) :
    scanNumber c rest = ⟨numberKind (point || !behind.isEmpty) (c :: rest), rest, []⟩ := by
  have whole := scanDigits_append c rest
  rw [digits] at whole
  simp only [scanNumber, digits, exponent, scanSuffix, List.append_nil, whole, List.isEmpty_nil,
    if_true]

theorem scanExponent_of_map {rest : List Char} {f : Int → Binary64.Numeral} {empty : Prop}
    [Decidable empty] {numeral : Binary64.Numeral}
    (read : (if empty then none else (Binary64.readExponent? rest).map f) = some numeral) :
    scanExponent rest = (rest, []) := by
  split at read
  · cases read
  · obtain ⟨exponent, read, _⟩ := Option.map_eq_some_iff.mp read
    exact scanExponent_of_read read

theorem scanNumber_of_numeral {c : Char} {rest : List Char} (digit : c.isDigit = true)
    {numeral : Binary64.Numeral} (read : Binary64.readNumeral? (c :: rest) = some numeral)
    (mark : ∃ d ∈ c :: rest, d.isDigit = false) :
    scanNumber c rest = ⟨numberKind true (c :: rest), rest, []⟩ := by
  have cut : cutWhile Char.isDigit (c :: rest) =
      (c :: (cutWhile Char.isDigit rest).1, (cutWhile Char.isDigit rest).2) := by
    unfold cutWhile
    rw [List.takeWhile_cons_of_pos digit, List.dropWhile_cons_of_pos digit]
  have noPoint : c ≠ '.' := by
    rintro rfl
    cases digit
  unfold Binary64.readNumeral? at read
  rw [cut] at read
  by_cases point : ∃ behind, (cutWhile Char.isDigit rest).2 = '.' :: behind
  · obtain ⟨behind, point⟩ := point
    rw [point] at read
    have digits : scanDigits c rest = ((cutWhile Char.isDigit rest).1 ++
        '.' :: (cutWhile Char.isDigit behind).1, true, (cutWhile Char.isDigit behind).2) := by
      simp only [scanDigits, if_neg noPoint, point]
    exact scanNumber_eq digits (scanExponent_of_map read)
  · have digits : scanDigits c rest =
        ((cutWhile Char.isDigit rest).1, false, (cutWhile Char.isDigit rest).2) := by
      unfold scanDigits
      rw [if_neg noPoint]
      dsimp only
      split
      · exact absurd ⟨_, ‹_›⟩ point
      · rfl
    have taken : scanExponent (cutWhile Char.isDigit rest).2 =
        ((cutWhile Char.isDigit rest).2, []) := by
      dsimp only at read
      split at read
      · exact absurd ⟨_, ‹_›⟩ point
      · exact scanExponent_of_map read
    have more : (cutWhile Char.isDigit rest).2 ≠ [] := by
      intro none
      have whole := cutWhile_append Char.isDigit rest
      rw [none, List.append_nil] at whole
      obtain ⟨d, member, other⟩ := mark
      rcases List.mem_cons.mp member with rfl | member
      · rw [digit] at other
        cases other
      · rw [← whole] at member
        rw [List.mem_takeWhile_imp member] at other
        cases other
    have scanned := scanNumber_eq digits taken
    rwa [Bool.false_or, List.isEmpty_eq_false_iff.mpr more] at scanned

theorem scanNumber_of_digits {c : Char} {rest : List Char} (digits : AllDigits (c :: rest)) :
    scanNumber c rest = ⟨numberKind false (c :: rest), rest, []⟩ := by
  have noPoint : c ≠ '.' := by
    rintro rfl
    cases digits '.' (List.mem_cons_self ..)
  have others : AllDigits rest := fun d member => digits d (List.mem_cons_of_mem c member)
  have scanned : scanDigits c rest = (rest, false, []) := by
    simp only [scanDigits, if_neg noPoint, cutWhile_all others]
  exact scanNumber_eq scanned rfl

theorem scan_of_digit {c : Char} (digit : c.isDigit = true) (rest : List Char) :
    scan c rest = scanNumber c rest := by
  unfold scan
  rw [if_neg (by rintro (rfl | rfl) <;> cases digit), digit, Bool.true_or, if_pos rfl]

end Lexeme

theorem Lexer.visible_of_digit {c : Char} (digit : c.isDigit = true) : Visible c := by
  refine ⟨?_, ?_, ?_⟩
  · rw [← Bool.not_eq_true]
    intro blank
    simp only [isBlank, Bool.or_eq_true, beq_iff_eq] at blank
    rcases blank with ((rfl | rfl) | rfl) | rfl <;> cases digit
  · rintro rfl
    cases digit
  · rintro rfl
    cases digit

/-- The text is read as one token, which denotes the literal. -/
inductive TakenWhole (l : Literal) : List Char → Prop
  | mk {c : Char} {rest : List Char} {kind : TokenKind} (visible : Visible c)
      (scanned : Lexeme.scan c rest = ⟨kind, rest, []⟩) (denotes : kind.literal? = some l) :
      TakenWhole l (c :: rest)

theorem takenWhole_nothing : TakenWhole .nothing ['N', 'o', 'n', 'e'] :=
  .mk ⟨by decide, by decide, by decide⟩ rfl rfl

theorem takenWhole_bool : ∀ b, TakenWhole (.bool b) (Value.bool b).repr.toList
  | true => .mk ⟨by decide, by decide, by decide⟩ rfl rfl
  | false => .mk ⟨by decide, by decide, by decide⟩ rfl rfl

theorem takenWhole_str (cs : List Char) : TakenWhole (.str (String.ofList cs)) (quoteChars cs) := by
  have known := Assembly.quoteOf_eq cs
  refine .mk ?_ ((if_pos known.symm).trans (Lexeme.scanString_quoted known cs [] [])) rfl
  rcases known with same | same <;> rw [same] <;> exact ⟨by decide, by decide, by decide⟩

theorem takenWhole_int {n : Int64} (positive : 0 ≤ n.toInt) :
    TakenWhole (.int n) (intText n.toInt).toList := by
  have read := readInt64?_intText n
  have chars : (intText n.toInt).toList = Nat.toDigits 10 n.toInt.natAbs := by
    rw [toList_intText, if_neg (Int.not_lt.mpr positive), List.nil_append]
  obtain ⟨c, rest, same⟩ := List.exists_cons_of_ne_nil
    (Nat.toDigits_ne_nil (b := 10) (n := n.toInt.natAbs))
  have digits := allDigits_toDigits n.toInt.natAbs
  rw [chars, same] at read ⊢
  rw [same] at digits
  have digit := digits c (List.mem_cons_self ..)
  refine .mk (visible_of_digit digit) ((Lexeme.scan_of_digit digit rest).trans
    (Lexeme.scanNumber_of_digits digits)) ?_
  rw [Lexeme.numberKind, if_neg Bool.false_ne_true, read]
  rfl

theorem takenWhole_magnitude {x : Binary64} (finite : x.isFinite = true) :
    TakenWhole (.float x.abs) x.magnitudeChars := by
  obtain ⟨q, denotes, same⟩ := Binary64.exists_denotes finite
  have read : Binary64.ofChars? x.magnitudeChars = some x.abs :=
    denotes.ofChars?_eq fun numeral all value => same numeral all value false
  obtain ⟨numeral, numerals, _⟩ := denotes.reads
  have mark := denotes.mark
  obtain ⟨c, rest, same, digit⟩ := denotes.first
  rw [same] at read numerals mark ⊢
  refine .mk (visible_of_digit digit) ((Lexeme.scan_of_digit digit rest).trans
    (Lexeme.scanNumber_of_numeral digit numerals mark)) ?_
  rw [Lexeme.numberKind, if_pos rfl, read]
  rfl

end LessonScript
