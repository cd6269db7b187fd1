import LessonScript.Token.Lexer
import Mathlib.Data.List.TakeWhile

/-!
What the lexer does, step by step.

What is read as one token lies on one line and is no layout mark (`Lexeme.scan_oneLine`,
`Lexeme.scan_isMark`).  `Lexer.Moves` has one constructor for each thing that a step can do, and
`Lexer.tokensFrom_induction` reduces a statement about the tokens still to come to these.
-/

namespace LessonScript

/-- The token stands on a line: it is neither a layout mark nor a complaint. -/
def TokenKind.onLine : TokenKind → Bool
  | .newline | .indent | .dedent | .endOfInput | .fault _ => false
  | _ => true

/-- The token is put in by the layout, as is the complaint about an indentation. -/
def TokenKind.isMark : TokenKind → Bool
  | .newline | .indent | .dedent | .endOfInput | .fault .unmatchedIndentation => true
  | _ => false

namespace Lexeme

/-! ### What a token says -/

def fromText (kind : TokenKind) : Prop :=
  kind.onLine = true ∨ ∃ f, kind = .fault f ∧ f ≠ .unmatchedIndentation

theorem fromText_fault {f : LexicalFault} (own : (TokenKind.fault f).isMark = false) :
    fromText (.fault f) := by
  refine .inr ⟨f, rfl, ?_⟩
  rintro rfl
  cases own

theorem scanString_fromText (quote : Char) (cs value taken : List Char) :
    fromText (scanString quote cs value taken).kind := by
  fun_induction scanString quote cs value taken
  case case2 => exact .inl rfl
  case case4 ih | case7 ih => exact ih
  case case1 | case3 | case6 => exact fromText_fault rfl
  case case5 complaint _ =>
    apply fromText_fault
    dsimp only [complaint]
    split <;> rfl

theorem numberKind_fromText (isFloat : Bool) (text : List Char) :
    fromText (numberKind isFloat text) := by
  unfold numberKind
  split
  · split
    · exact .inl rfl
    · exact fromText_fault rfl
  · split
    · exact .inl rfl
    · exact fromText_fault rfl

theorem scanNumber_fromText (c : Char) (cs : List Char) : fromText (scanNumber c cs).kind := by
  unfold scanNumber
  dsimp only
  split
  · exact numberKind_fromText _ _
  · exact fromText_fault rfl

theorem scanWord_fromText (c : Char) (cs : List Char) : fromText (scanWord c cs).kind := by
  unfold scanWord wordKind
  dsimp only
  split
  · exact .inl rfl
  · exact .inl rfl

theorem scanSymbol_fromText (c : Char) (cs : List Char) : fromText (scanSymbol c cs).kind := by
  have single (cs : List Char) : fromText (scanSingle c cs).kind := by
    unfold scanSingle
    split
    · exact .inl rfl
    · exact fromText_fault rfl
  unfold scanSymbol
  split
  · split
    · exact .inl rfl
    · exact single _
  · exact single _

theorem scan_fromText (c : Char) (cs : List Char) : fromText (scan c cs).kind := by
  unfold scan
  split
  · exact scanString_fromText _ _ _ _
  · split
    · exact scanNumber_fromText _ _
    · split
      · exact scanWord_fromText _ _
      · exact scanSymbol_fromText _ _

theorem scan_isMark (c : Char) (cs : List Char) : (scan c cs).kind.isMark = false := by
  rcases scan_fromText c cs with plain | ⟨f, complains, own⟩
  · cases kind : (scan c cs).kind <;> rw [kind] at plain
    case newline | indent | dedent | endOfInput | fault => cases plain
    all_goals rfl
  · rw [complains]
    cases f with
    | unmatchedIndentation => exact absurd rfl own
    | _ => rfl

/-! ### Where a token lies -/

theorem lineFeed_notMem_cutWhile {p : Char → Bool} (other : p '\n' = false) (cs : List Char) :
    '\n' ∉ (Text.cutWhile p cs).1 := by
  intro member
  have inside := List.mem_takeWhile_imp member
  rw [other] at inside
  cases inside

theorem scanString_oneLine {quote : Char} (known : quote ≠ '\n') (cs value : List Char)
    {taken : List Char} (before : '\n' ∉ taken) :
    '\n' ∉ (scanString quote cs value taken).tail := by
  fun_induction scanString quote cs value taken with
  | case1 | case3 | case5 | case6 => simpa using before
  | case2 => simpa [known.symm] using before
  | case4 _ _ letter _ _ read _ ih =>
      apply ih
      have other : letter ≠ '\n' := by
        rintro rfl
        cases read
      simpa [other.symm] using before
  | case7 _ _ _ _ _ _ plain ih =>
      apply ih
      simpa [Ne.symm plain] using before

/-- A character that a number can hold, if what spoils it is taken with it. -/
def isNumberPart (c : Char) : Bool :=
  Text.isNamePart c || c == '.' || c == '+' || c == '-'

theorem isNumberPart_of_isNamePart {c : Char} (part : Text.isNamePart c = true) :
    isNumberPart c = true := by
  simp [isNumberPart, part]

theorem isNumberPart_of_isDigit {c : Char} (digit : c.isDigit = true) : isNumberPart c = true := by
  simp [isNumberPart, Text.isNamePart, Text.isAlphanumeric, Text.isNumeric, digit]

theorem cutWhile_digits_parts (cs : List Char) :
    ∀ d ∈ (Text.cutWhile Char.isDigit cs).1, isNumberPart d = true :=
  fun _ member => isNumberPart_of_isDigit (List.mem_takeWhile_imp member)

theorem scanDigits_parts (c : Char) (cs : List Char) :
    ∀ d ∈ (scanDigits c cs).1, isNumberPart d = true := by
  unfold scanDigits
  split
  · exact cutWhile_digits_parts cs
  · dsimp only
    split
    · refine List.forall_mem_append.mpr ⟨cutWhile_digits_parts _, ?_⟩
      exact List.forall_mem_cons.mpr ⟨rfl, cutWhile_digits_parts _⟩
    · exact cutWhile_digits_parts cs

theorem scanExponent_parts (cs : List Char) : ∀ d ∈ (scanExponent cs).1, isNumberPart d = true := by
  unfold scanExponent
  split
  · rename_i letter rest
    split
    · rename_i marks
      have spelled {sign : List Char} (plain : ∀ d ∈ sign, isNumberPart d = true)
          (behind : List Char) :
          ∀ d ∈ (if (Text.cutWhile Char.isDigit behind).1.isEmpty then ([], letter :: rest)
            else (letter :: (sign ++ (Text.cutWhile Char.isDigit behind).1),
              (Text.cutWhile Char.isDigit behind).2)).1, isNumberPart d = true := by
        split
        · exact List.forall_mem_nil _
        · have first : isNumberPart letter = true := by
            rcases marks with rfl | rfl <;> decide
          refine List.forall_mem_cons.mpr ⟨first, ?_⟩
          exact List.forall_mem_append.mpr ⟨plain, cutWhile_digits_parts _⟩
      dsimp only
      split
      · split
        · rename_i signs
          refine spelled ?_ _
          rcases signs with rfl | rfl <;> simp [isNumberPart]
        · exact spelled (List.forall_mem_nil _) _
      · exact spelled (List.forall_mem_nil _) _
    · exact List.forall_mem_nil _
  · exact List.forall_mem_nil _

theorem scanSuffix_parts (cs : List Char) : ∀ d ∈ (scanSuffix cs).1, isNumberPart d = true := by
  unfold scanSuffix
  split
  · split
    · exact fun _ member => isNumberPart_of_isNamePart (List.mem_takeWhile_imp member)
    · exact List.forall_mem_nil _
  · exact List.forall_mem_nil _

theorem scanNumber_parts (c : Char) (cs : List Char) :
    ∀ d ∈ (scanNumber c cs).tail, isNumberPart d = true := by
  simp only [scanNumber, List.forall_mem_append]
  exact ⟨⟨scanDigits_parts _ _, scanExponent_parts _⟩, scanSuffix_parts _⟩

theorem isNamePart_lineFeed : Text.isNamePart '\n' = false := by
  decide +kernel

theorem scanNumber_oneLine (c : Char) (cs : List Char) : '\n' ∉ (scanNumber c cs).tail := by
  intro member
  have part := scanNumber_parts c cs '\n' member
  rw [isNumberPart, isNamePart_lineFeed] at part
  cases part

theorem scanSymbol_oneLine (c : Char) (cs : List Char) : '\n' ∉ (scanSymbol c cs).tail := by
  have single (cs : List Char) : '\n' ∉ (scanSingle c cs).tail := by
    unfold scanSingle
    split <;> exact List.not_mem_nil
  have signs : ∀ symbol ∈ Symbol.all, '\n' ∉ symbol.chars := by decide
  unfold scanSymbol
  split
  · split
    · rename_i second _ symbol found
      have spelled := List.find?_some found
      have other := signs symbol (List.mem_of_find?_eq_some found)
      rw [eq_of_beq spelled] at other
      simp only [List.mem_cons, not_or] at other
      simpa using other.2.1
    · exact single _
  · exact single _

theorem scan_oneLine (c : Char) (cs : List Char) : '\n' ∉ (scan c cs).tail := by
  unfold scan
  split
  · rename_i quotes
    exact scanString_oneLine (by rcases quotes with rfl | rfl <;> decide) cs [] List.not_mem_nil
  · split
    · exact scanNumber_oneLine c cs
    · split
      · exact lineFeed_notMem_cutWhile isNamePart_lineFeed _
      · exact scanSymbol_oneLine c cs

end Lexeme

theorem Position.advanceBy_append (p : Position) (first second : List Char) :
    p.advanceBy (first ++ second) = (p.advanceBy first).advanceBy second :=
  List.foldl_append

namespace Lexer

/-! ### Gaps -/

def AllBlank (cs : List Char) : Prop :=
  ∀ c ∈ cs, isBlank c = true

/-- What may stand before a token or the end of its line, in front of the text `behind`: blanks,
and a comment if the line ends there. -/
inductive Gap (behind : List Char) : List Char → Prop
  | nil : Gap behind []
  | blank {c : Char} {cs : List Char} (isBlank : isBlank c = true) (rest : Gap behind cs) :
      Gap behind (c :: cs)
  | comment {words : List Char} (oneLine : '\n' ∉ words) (ends : ∀ c ∈ behind.head?, c = '\n') :
      Gap behind ('#' :: words)

structure Visible (c : Char) : Prop where
  notBlank : isBlank c = false
  notEnd : c ≠ '\n'
  notComment : c ≠ '#'

theorem AllBlank.gap {behind cs : List Char} (blank : AllBlank cs) : Gap behind cs := by
  induction cs with
  | nil => exact .nil
  | cons c cs ih =>
      obtain ⟨first, others⟩ := List.forall_mem_cons.mp blank
      exact .blank first (ih others)

theorem AllBlank.append_gap {behind blanks cs : List Char} (blank : AllBlank blanks)
    (gap : Gap behind cs) : Gap behind (blanks ++ cs) := by
  induction blanks with
  | nil => exact gap
  | cons c blanks ih =>
      obtain ⟨first, others⟩ := List.forall_mem_cons.mp blank
      exact .blank first (ih others)

theorem Gap.oneLine {behind cs : List Char} (gap : Gap behind cs) : '\n' ∉ cs := by
  induction gap with
  | nil => exact List.not_mem_nil
  | blank isBlank _ ih =>
      refine List.not_mem_cons_of_ne_of_not_mem ?_ ih
      rintro rfl
      cases isBlank
  | comment oneLine => exact List.not_mem_cons_of_ne_of_not_mem (by decide) oneLine

theorem AllBlank.oneLine {blanks : List Char} (blank : AllBlank blanks) : '\n' ∉ blanks :=
  fun member => nomatch blank '\n' member

theorem of_cutWhile_eq_cons {p : Char → Bool} {cs rest : List Char} {c : Char}
    (cut : (Text.cutWhile p cs).2 = c :: rest) : p c = false := by
  have first := List.head?_dropWhile_not p cs
  change cs.dropWhile p = c :: rest at cut
  rw [cut] at first
  simpa using first

theorem allBlank_cutWhile (cs : List Char) : AllBlank (Text.cutWhile isBlank cs).1 :=
  fun _ member => List.mem_takeWhile_imp member

theorem cutWhile_visible {blanks : List Char} {c : Char} (blank : AllBlank blanks)
    (visible : Visible c) (after : List Char) :
    Text.cutWhile isBlank (blanks ++ c :: after) = (blanks, c :: after) := by
  have stops : ¬ isBlank c = true := Bool.eq_false_iff.mp visible.notBlank
  rw [Text.cutWhile, List.takeWhile_append_of_pos blank, List.dropWhile_append_of_pos blank,
    List.takeWhile_cons_of_neg stops, List.dropWhile_cons_of_neg stops, List.append_nil]

theorem splitComment_spec (cs : List Char) :
    ∃ words behind, splitComment ('#' :: cs) = ('#' :: words, behind) ∧
      '\n' ∉ words ∧ ∀ c ∈ behind.head?, c = '\n' := by
  refine ⟨cs.takeWhile (· != '\n'), cs.dropWhile (· != '\n'), rfl, fun member => ?_, ?_⟩
  · simpa using List.mem_takeWhile_imp member
  · intro c first
    obtain ⟨tail, cut⟩ := List.head?_eq_some_iff.mp first
    simpa using of_cutWhile_eq_cons (p := (· != '\n')) cut

theorem splitComment_gap (cs : List Char) :
    Gap (splitComment cs).2 (splitComment cs).1 := by
  cases cs with
  | nil => exact .nil
  | cons c rest =>
      by_cases comment : c = '#'
      · subst comment
        obtain ⟨words, behind, cut, oneLine, ends⟩ := splitComment_spec rest
        rw [cut]
        exact .comment oneLine ends
      · rw [splitComment, if_neg comment]
        exact .nil

/-- What follows a gap is the end of the text, the end of the line, or a token on it; a comment
leaves no room for a token. -/
theorem splitGap_cases (cs : List Char) :
    ((splitGap cs).2 = [] ∧ Gap [] cs) ∨
      (∃ after, (splitGap cs).2 = '\n' :: after ∧ Gap ('\n' :: after) (splitGap cs).1) ∨
      ∃ c after, (splitGap cs).2 = c :: after ∧ Visible c ∧ AllBlank (splitGap cs).1 := by
  have whole := splitGap_append cs
  have blank := allBlank_cutWhile cs
  have gap : Gap (splitGap cs).2 (splitGap cs).1 :=
    blank.append_gap (splitComment_gap (Text.cutWhile isBlank cs).2)
  cases rest : (splitGap cs).2 with
  | nil =>
      rw [rest, List.append_nil] at whole
      rw [rest, whole] at gap
      exact .inl ⟨rfl, gap⟩
  | cons c after =>
      rw [rest] at gap
      by_cases ends : c = '\n'
      · subst ends
        exact .inr (.inl ⟨after, rfl, gap⟩)
      · refine .inr (.inr ⟨c, after, rfl, ?_⟩)
        unfold splitGap splitComment at rest ⊢
        dsimp only at rest ⊢
        split at rest
        · rename_i first tail cut
          have plain := of_cutWhile_eq_cons cut
          split at rest
          · -- Behind a comment stands the end of its line.
            have stops := of_cutWhile_eq_cons rest
            exact absurd (by simpa using stops) ends
          · rename_i other
            obtain ⟨rfl, rfl⟩ := List.cons.inj (cut.symm.trans rest)
            rw [if_neg other, List.append_nil]
            exact ⟨⟨plain, ends, other⟩, blank⟩
        · cases rest

/-! ### Steps -/

structure Fresh (s : Lexer) : Prop where
  atLineStart : s.atLineStart = true
  outside : s.depth = 0

inductive Moves (s : Lexer) : Step → Prop
  /-- The last line holds blanks only. -/
  | ended (fresh : s.Fresh) (blank : AllBlank s.rest) :
      Moves s (.more [] { s with
        rest := [], position := s.position.advanceBy s.rest, atLineStart := false })
  /-- A line without a token is passed over. -/
  | passed {gap after : List Char} (fresh : s.Fresh) (reads : s.rest = gap ++ '\n' :: after)
      (passes : Gap ('\n' :: after) gap) :
      Moves s (.more [] { s with
        rest := after, position := s.position.advanceBy (gap ++ ['\n']) })
  /-- The last line holds a comment only. -/
  | trailed (fresh : s.Fresh) (passes : Gap [] s.rest) :
      Moves s (.more [] { s with rest := [], position := s.position.advanceBy s.rest })
  /-- The indentation of a line with a token is compared with the open blocks. -/
  | begun {blanks after : List Char} {c : Char} (fresh : s.Fresh)
      (reads : s.rest = blanks ++ c :: after) (blank : AllBlank blanks) (visible : Visible c) :
      Moves s (.more (layoutMarks (s.position.advanceBy blanks) s.indents (widthOf blanks)).1
        { s with
          rest := c :: after
          position := s.position.advanceBy blanks
          indents := (layoutMarks (s.position.advanceBy blanks) s.indents (widthOf blanks)).2
          atLineStart := false })
  /-- The text ends. -/
  | closed (begun : ¬ s.Fresh) (passes : Gap [] s.rest) :
      Moves s (.closed
        (closingMarks { s with rest := [], position := s.position.advanceBy s.rest })
        { s with
          rest := []
          position := s.position.advanceBy s.rest
          indents := []
          lineHasToken := false })
  /-- A line ends inside parentheses. -/
  | joined {gap after : List Char} (begun : ¬ s.Fresh) (reads : s.rest = gap ++ '\n' :: after)
      (passes : Gap ('\n' :: after) gap) (inside : 0 < s.depth) :
      Moves s (.more [] { s with
        rest := after, position := s.position.advanceBy (gap ++ ['\n']) })
  /-- A line ends outside parentheses. -/
  | parted {gap after : List Char} (begun : ¬ s.Fresh) (reads : s.rest = gap ++ '\n' :: after)
      (passes : Gap ('\n' :: after) gap) (outside : s.depth = 0) :
      Moves s (.more
        (if s.lineHasToken then [.mark .newline (s.position.advanceBy gap)] else [])
        { s with
          rest := after
          position := s.position.advanceBy (gap ++ ['\n'])
          atLineStart := true
          lineHasToken := false })
  /-- A token is read. -/
  | token {blanks after : List Char} {c : Char} (begun : ¬ s.Fresh)
      (reads : s.rest = blanks ++ c :: after) (blank : AllBlank blanks) (visible : Visible c) :
      Moves s (.more
        [⟨(Lexeme.scan c after).kind, s.position.advanceBy blanks,
          c :: (Lexeme.scan c after).tail⟩]
        { s with
          rest := (Lexeme.scan c after).rest
          position := s.position.advanceBy (blanks ++ c :: (Lexeme.scan c after).tail)
          depth := depthAfter s.depth (Lexeme.scan c after).kind
          lineHasToken := true })

theorem fresh_iff (s : Lexer) : (s.atLineStart && s.depth == 0) = true ↔ s.Fresh := by
  rw [Bool.and_eq_true, beq_iff_eq]
  exact ⟨fun ⟨start, outside⟩ => ⟨start, outside⟩, fun fresh => ⟨fresh.1, fresh.2⟩⟩

theorem measureLine_moves {s : Lexer} (fresh : s.Fresh) : s.Moves s.measureLine := by
  have whole := Text.cutWhile_append isBlank s.rest
  have blank := allBlank_cutWhile s.rest
  unfold measureLine
  dsimp only
  split
  · rename_i rest
    rw [rest, List.append_nil] at whole
    rw [whole] at blank ⊢
    exact .ended fresh blank
  · rename_i c after rest
    have plain := of_cutWhile_eq_cons rest
    rw [rest] at whole
    split
    · rename_i ends
      subst ends
      have moves := Moves.passed fresh whole.symm blank.gap
      rwa [Position.advanceBy_append] at moves
    · split
      · rename_i comment
        subst comment
        obtain ⟨words, behind, cut, oneLine, ends⟩ := splitComment_spec after
        have parts := splitComment_append ('#' :: after)
        rw [cut] at parts ⊢
        dsimp only at parts ⊢
        have passes : Gap behind ((Text.cutWhile isBlank s.rest).1 ++ '#' :: words) :=
          blank.append_gap (.comment oneLine ends)
        rw [← parts, ← List.append_assoc] at whole
        cases behind with
        | nil =>
            rw [List.append_nil] at whole
            have moves := Moves.trailed fresh (whole ▸ passes)
            rwa [← whole, Position.advanceBy_append] at moves
        | cons d rest =>
            obtain rfl := ends d rfl
            have moves := Moves.passed fresh whole.symm passes
            rwa [Position.advanceBy_append, Position.advanceBy_append] at moves
      · rename_i ends comment
        exact .begun fresh whole.symm blank ⟨plain, ends, comment⟩

theorem readToken_moves {s : Lexer} (begun : ¬ s.Fresh) : s.Moves s.readToken := by
  have whole := splitGap_append s.rest
  unfold readToken
  dsimp only
  rcases splitGap_cases s.rest with ⟨rest, passes⟩ | ⟨after, rest, passes⟩ |
    ⟨c, after, rest, visible, blank⟩
  · rw [rest, List.append_nil] at whole
    rw [rest, whole]
    exact .closed begun passes
  · rw [rest] at whole ⊢
    dsimp only
    rw [if_pos rfl]
    split
    · have moves := Moves.joined begun whole.symm passes ‹_›
      rwa [Position.advanceBy_append] at moves
    · have moves := Moves.parted begun whole.symm passes (Nat.eq_zero_of_not_pos ‹_›)
      rwa [Position.advanceBy_append] at moves
  · rw [rest] at whole ⊢
    dsimp only
    rw [if_neg visible.notEnd]
    have moves := Moves.token begun whole.symm blank visible
    rwa [Position.advanceBy_append] at moves

theorem step_moves (s : Lexer) : s.Moves s.step := by
  unfold step
  by_cases fresh : s.Fresh
  · rw [if_pos (s.fresh_iff.mpr fresh)]
    exact measureLine_moves fresh
  · rw [if_neg (mt s.fresh_iff.mp fresh)]
    exact readToken_moves fresh

/-! ### The tokens still to come -/

def tokensFrom (s : Lexer) : List Token :=
  (run #[] s).1.toList

theorem run_of_closed {s final : Lexer} {last : List Token} (stepped : s.step = .closed last final)
    (found : Array Token) : run found s = (found ++ last, final) := by
  rw [run]
  split
  · rename_i again
    cases stepped.symm.trans again
    rfl
  · rename_i again
    cases stepped.symm.trans again

theorem run_of_more {s next : Lexer} {more : List Token} (stepped : s.step = .more more next)
    (found : Array Token) : run found s = run (found ++ more) next := by
  rw [run]
  split
  · rename_i again
    cases stepped.symm.trans again
  · rename_i again
    cases stepped.symm.trans again
    rfl

theorem toList_run (n : Nat) (found : Array Token) (s : Lexer) (small : s.measure < n) :
    (run found s).1.toList = found.toList ++ s.tokensFrom := by
  unfold tokensFrom
  induction n generalizing found s with
  | zero => exact absurd small (Nat.not_lt_zero _)
  | succ n ih =>
      cases stepped : s.step with
      | closed last final =>
          rw [run_of_closed stepped, run_of_closed stepped]
          simp
      | more more next =>
          have smaller := step_measure stepped
          rw [run_of_more stepped, run_of_more stepped, ih (found ++ more) next (by omega),
            ih (#[] ++ more) next (by omega)]
          simp

theorem tokensFrom_of_closed {s final : Lexer} {last : List Token}
    (stepped : s.step = .closed last final) : s.tokensFrom = last := by
  rw [tokensFrom, run_of_closed stepped]
  simp

theorem tokensFrom_of_more {s next : Lexer} {more : List Token}
    (stepped : s.step = .more more next) : s.tokensFrom = more ++ next.tokensFrom := by
  rw [tokensFrom, run_of_more stepped, toList_run _ _ _ (Nat.lt_succ_self _)]
  simp

theorem tokensFrom_induction {motive : Lexer → List Token → Prop}
    (closed : ∀ {s final : Lexer} {last : List Token}, s.Moves (.closed last final) →
      motive s last)
    (more : ∀ {s next : Lexer} {found : List Token}, s.Moves (.more found next) →
      motive next next.tokensFrom → motive s (found ++ next.tokensFrom))
    (s : Lexer) : motive s s.tokensFrom := by
  have moves := s.step_moves
  cases stepped : s.step with
  | closed last final =>
      rw [stepped] at moves
      rw [tokensFrom_of_closed stepped]
      exact closed moves
  | more found next =>
      rw [stepped] at moves
      rw [tokensFrom_of_more stepped]
      exact more moves (tokensFrom_induction closed more next)
termination_by s.measure
decreasing_by exact step_measure stepped

/-! ### Marks and what is read -/

theorem layoutMarks_marked (position : Position) (indents : List Nat) (width : Nat) :
    ∀ t ∈ (layoutMarks position indents width).1, ∃ kind : TokenKind,
      t = .mark kind position ∧ kind.isMark = true ∧ kind ≠ .endOfInput := by
  intro t member
  unfold layoutMarks at member
  dsimp only at member
  split at member
  · exact ⟨.indent, List.mem_singleton.mp member, rfl, nofun⟩
  · split at member
    · obtain ⟨_, _, rfl⟩ := List.mem_map.mp member
      exact ⟨.dedent, rfl, rfl, nofun⟩
    · rcases List.mem_append.mp member with closed | unmatched
      · obtain ⟨_, _, rfl⟩ := List.mem_map.mp closed
        exact ⟨.dedent, rfl, rfl, nofun⟩
      · exact ⟨_, List.mem_singleton.mp unmatched, rfl, nofun⟩

theorem closingMarks_isMark (s : Lexer) : ∀ t ∈ s.closingMarks, t.kind.isMark = true := by
  intro t member
  unfold closingMarks at member
  rcases List.mem_append.mp member with inside | last
  · rcases List.mem_append.mp inside with newline | dedent
    · split at newline
      · rw [List.mem_singleton.mp newline]
        rfl
      · cases newline
    · obtain ⟨_, _, rfl⟩ := List.mem_map.mp dedent
      rfl
  · rw [List.mem_singleton.mp last]
    rfl

def Scanned (t : Token) : Prop :=
  ∃ c after, Visible c ∧ t.kind = (Lexeme.scan c after).kind ∧
    t.lexeme = c :: (Lexeme.scan c after).tail

theorem tokensFrom_cases (s : Lexer) : ∀ t ∈ s.tokensFrom, t.kind.isMark = true ∨ Scanned t := by
  induction s using tokensFrom_induction with
  | closed moves =>
      cases moves with
      | closed => exact fun t member => .inl (closingMarks_isMark _ t member)
  | more moves onward =>
      refine List.forall_mem_append.mpr ⟨?_, onward⟩
      intro t member
      cases moves with
      | ended | passed | trailed | joined => cases member
      | begun =>
          obtain ⟨kind, rfl, isMark, _⟩ := layoutMarks_marked _ _ _ t member
          exact .inl isMark
      | parted =>
          split at member
          · rw [List.mem_singleton.mp member]
            exact .inl rfl
          · cases member
      | token _ _ _ visible =>
          rw [List.mem_singleton.mp member]
          exact .inr ⟨_, _, visible, rfl, rfl⟩

end Lexer

end LessonScript
