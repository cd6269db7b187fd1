import LessonScript.Proofs.TokenExtent
import LessonScript.Proofs.TokenLines

/-!
The kinds of the tokens of a text.

`Lexer.Moves` says what a step can do; the tokens still to come are the ones that it allows
(`Lexer.Moves.tokensFrom_eq`, `Lexer.Moves.tokensFrom_closed`).  Their kinds do not depend on the
place of the text (`Lexer.kindsFrom_place`), nor on the blanks in front of it where a line has
begun (`Lexer.kindsFrom_blanks`).
-/

namespace LessonScript.Lexer

open Text

theorem Gap.cases {behind gap : List Char} (passes : Gap behind gap) :
    AllBlank gap ∨ ∃ blanks words, gap = blanks ++ '#' :: words ∧ AllBlank blanks ∧
      '\n' ∉ words ∧ ∀ c ∈ behind.head?, c = '\n' := by
  induction passes with
  | nil => exact .inl (List.forall_mem_nil _)
  | blank isBlank _ ih =>
      rcases ih with blank | ⟨blanks, words, rfl, blank, rest⟩
      · exact .inl (List.forall_mem_cons.mpr ⟨isBlank, blank⟩)
      · exact .inr ⟨_ :: blanks, words, rfl, List.forall_mem_cons.mpr ⟨isBlank, blank⟩, rest⟩
  | @comment words oneLine ends =>
      exact .inr ⟨[], words, rfl, List.forall_mem_nil _, oneLine, ends⟩

theorem splitComment_exact {words behind : List Char} (oneLine : '\n' ∉ words)
    (ends : ∀ c ∈ behind.head?, c = '\n') :
    splitComment ('#' :: (words ++ behind)) = ('#' :: words, behind) := by
  have inside : ∀ c ∈ '#' :: words, (c != '\n') = true := by
    refine List.forall_mem_cons.mpr ⟨by decide, fun c member => ?_⟩
    rw [bne_iff_ne]
    rintro rfl
    exact oneLine member
  have stops : ∀ c ∈ behind.head?, (c != '\n') = false := by
    intro c first
    rw [ends c first]
    rfl
  exact cutWhile_exact inside stops

theorem splitComment_of_head {cs : List Char} (plain : ∀ c ∈ cs.head?, c ≠ '#') :
    splitComment cs = ([], cs) := by
  cases cs with
  | nil => rfl
  | cons c cs => exact if_neg (plain c rfl)

theorem Gap.splitGap_eq {behind gap : List Char} (passes : Gap behind gap)
    (ends : ∀ c ∈ behind.head?, c = '\n') : splitGap (gap ++ behind) = (gap, behind) := by
  rcases passes.cases with blank | ⟨blanks, words, rfl, blank, oneLine, _⟩
  · have cut := cutWhile_exact blank fun c first => by rw [ends c first]; rfl
    have plain : splitComment behind = ([], behind) := splitComment_of_head fun c first => by
      rw [ends c first]
      decide
    rw [splitGap, cut]
    dsimp only
    rw [plain, List.append_nil]
  · have cut : cutWhile isBlank (blanks ++ '#' :: (words ++ behind)) = _ :=
      cutWhile_exact blank (by rintro _ ⟨⟩; rfl)
    rw [List.append_assoc, List.cons_append, splitGap, cut]
    dsimp only
    rw [splitComment_exact oneLine ends]

theorem splitGap_visible {blanks after : List Char} {c : Char} (blank : AllBlank blanks)
    (visible : Visible c) : splitGap (blanks ++ c :: after) = (blanks, c :: after) := by
  have plain : splitComment (c :: after) = ([], c :: after) := if_neg visible.notComment
  rw [splitGap, cutWhile_visible blank visible]
  dsimp only
  rw [plain, List.append_nil]

theorem Fresh.step_eq {s : Lexer} (fresh : s.Fresh) : s.step = s.measureLine :=
  if_pos (s.fresh_iff.mpr fresh)

theorem step_of_begun {s : Lexer} (begun : ¬ s.Fresh) : s.step = s.readToken :=
  if_neg (mt s.fresh_iff.mp begun)

theorem measureLine_ended {s : Lexer} (blank : AllBlank s.rest) :
    s.measureLine = .more [] { s with
      rest := [], position := s.position.advanceBy s.rest, atLineStart := false } := by
  unfold measureLine
  rw [cutWhile_inside blank]

theorem measureLine_passed {s : Lexer} {gap after : List Char}
    (reads : s.rest = gap ++ '\n' :: after) (passes : Gap ('\n' :: after) gap) :
    s.measureLine = .more [] { s with
      rest := after, position := s.position.advanceBy (gap ++ ['\n']) } := by
  unfold measureLine
  rw [reads, Position.advanceBy_append]
  rcases passes.cases with blank | ⟨blanks, words, rfl, blank, oneLine, ends⟩
  · rw [cutWhile_exact blank (by rintro _ ⟨⟩; rfl)]
    rfl
  · rw [List.append_assoc, List.cons_append, cutWhile_exact blank (by rintro _ ⟨⟩; rfl)]
    dsimp only
    rw [splitComment_exact oneLine ends, if_neg (by decide), if_pos rfl, Position.advanceBy_append]
    rfl

theorem measureLine_trailed {s : Lexer} {blanks words : List Char}
    (reads : s.rest = blanks ++ '#' :: words) (blank : AllBlank blanks) (oneLine : '\n' ∉ words) :
    s.measureLine = .more [] { s with
      rest := [], position := s.position.advanceBy s.rest } := by
  have cut : splitComment ('#' :: (words ++ [])) = _ := splitComment_exact oneLine nofun
  rw [List.append_nil] at cut
  unfold measureLine
  rw [reads, cutWhile_exact blank (by rintro _ ⟨⟩; rfl)]
  dsimp only
  rw [cut, if_neg (by decide), if_pos rfl, Position.advanceBy_append]
  rfl

theorem measureLine_begun {s : Lexer} {blanks after : List Char} {c : Char}
    (reads : s.rest = blanks ++ c :: after) (blank : AllBlank blanks) (visible : Visible c) :
    s.measureLine =
      .more (layoutMarks (s.position.advanceBy blanks) s.indents (widthOf blanks)).1
        { s with
          rest := c :: after
          position := s.position.advanceBy blanks
          indents := (layoutMarks (s.position.advanceBy blanks) s.indents (widthOf blanks)).2
          atLineStart := false } := by
  unfold measureLine
  rw [reads, cutWhile_visible blank visible]
  dsimp only
  rw [if_neg visible.notEnd, if_neg visible.notComment]

theorem Moves.tokensFrom_eq {s next : Lexer} {found : List Token}
    (moves : s.Moves (.more found next)) : s.tokensFrom = found ++ next.tokensFrom := by
  cases moves with
  | ended fresh blank =>
      exact tokensFrom_of_more (fresh.step_eq.trans (measureLine_ended blank))
  | passed fresh reads passes =>
      exact tokensFrom_of_more (fresh.step_eq.trans (measureLine_passed reads passes))
  | trailed fresh passes =>
      rcases passes.cases with blank | ⟨blanks, words, reads, blank, oneLine, _⟩
      · -- Behind its blanks the line starts again and ends there.
        have again : Fresh { s with rest := [], position := s.position.advanceBy s.rest } :=
          ⟨fresh.atLineStart, fresh.outside⟩
        rw [tokensFrom_of_more (fresh.step_eq.trans (measureLine_ended blank)),
          tokensFrom_of_more (again.step_eq.trans (measureLine_ended (List.forall_mem_nil _)))]
        rfl
      · exact tokensFrom_of_more
          (fresh.step_eq.trans (measureLine_trailed reads blank oneLine))
  | begun fresh reads blank visible =>
      exact tokensFrom_of_more (fresh.step_eq.trans (measureLine_begun reads blank visible))
  | joined begun reads passes inside =>
      apply tokensFrom_of_more
      rw [step_of_begun begun, readToken, reads, passes.splitGap_eq (by rintro _ ⟨⟩; rfl)]
      dsimp only
      rw [if_pos rfl, if_pos inside, Position.advanceBy_append]
      rfl
  | parted begun reads passes outside =>
      apply tokensFrom_of_more
      rw [step_of_begun begun, readToken, reads, passes.splitGap_eq (by rintro _ ⟨⟩; rfl)]
      dsimp only
      rw [if_pos rfl, if_neg (by rw [outside]; exact Nat.lt_irrefl _), Position.advanceBy_append]
      rfl
  | token begun reads blank visible =>
      apply tokensFrom_of_more
      rw [step_of_begun begun, readToken, reads, splitGap_visible blank visible]
      dsimp only
      rw [if_neg visible.notEnd, Position.advanceBy_append]

theorem Moves.tokensFrom_closed {s final : Lexer} {last : List Token}
    (moves : s.Moves (.closed last final)) : s.tokensFrom = last := by
  cases moves with
  | closed begun passes =>
      have cut := passes.splitGap_eq nofun
      rw [List.append_nil] at cut
      apply tokensFrom_of_closed
      rw [step_of_begun begun, readToken, cut]

def kindsFrom (s : Lexer) : List TokenKind :=
  s.tokensFrom.map Token.kind

theorem Moves.kindsFrom_eq {s next : Lexer} {found : List Token}
    (moves : s.Moves (.more found next)) :
    s.kindsFrom = found.map Token.kind ++ next.kindsFrom := by
  rw [kindsFrom, moves.tokensFrom_eq, List.map_append]
  rfl

theorem Moves.kindsFrom_closed {s final : Lexer} {last : List Token}
    (moves : s.Moves (.closed last final)) : s.kindsFrom = last.map Token.kind := by
  rw [kindsFrom, moves.tokensFrom_closed]

theorem kinds_tokenize (source : String) :
    (tokenize source).map Token.kind = (start source.toList).kindsFrom :=
  rfl

theorem layoutMarks_place (p q : Position) (indents : List Nat) (width : Nat) :
    (layoutMarks p indents width).1.map Token.kind =
        (layoutMarks q indents width).1.map Token.kind ∧
      (layoutMarks p indents width).2 = (layoutMarks q indents width).2 := by
  have dedents (p : Position) (widths : List Nat) :
      (widths.map fun _ => Token.mark .dedent p).map Token.kind =
        widths.map fun _ => TokenKind.dedent := by
    rw [List.map_map]
    rfl
  unfold layoutMarks
  split
  · exact ⟨rfl, rfl⟩
  · dsimp only
    split
    · exact ⟨by rw [dedents, dedents], rfl⟩
    · refine ⟨?_, rfl⟩
      rw [List.map_append, List.map_append, dedents, dedents]
      rfl

theorem kinds_closingMarks (s : Lexer) :
    s.closingMarks.map Token.kind =
      (if s.lineHasToken then [.newline] else []) ++
        s.indents.map (fun _ => TokenKind.dedent) ++ [.endOfInput] := by
  unfold closingMarks
  rw [List.map_append, List.map_append, List.map_map]
  split <;> rfl

theorem begun_of_begun {s u : Lexer} (begun : ¬ s.Fresh) (start : u.atLineStart = s.atLineStart)
    (depth : u.depth = s.depth) : ¬ u.Fresh :=
  fun fresh => begun ⟨start ▸ fresh.atLineStart, depth ▸ fresh.outside⟩

theorem kindsFrom_place (s : Lexer) (p : Position) :
    { s with position := p }.kindsFrom = s.kindsFrom := by
  change _ = s.tokensFrom.map Token.kind
  induction s using tokensFrom_induction generalizing p with
  | @closed s final last moves =>
      cases moves with
      | closed begun passes =>
          have again : Moves { s with position := p } _ :=
            .closed (begun_of_begun begun rfl rfl) passes
          rw [again.kindsFrom_closed, kinds_closingMarks, kinds_closingMarks]
  | @more s next found moves onward =>
      rw [List.map_append]
      cases moves with
      | ended fresh blank =>
          have again : Moves { s with position := p } _ := .ended ⟨fresh.1, fresh.2⟩ blank
          exact again.kindsFrom_eq.trans (congrArg _ (onward _))
      | passed fresh reads passes =>
          have again : Moves { s with position := p } _ :=
            .passed ⟨fresh.1, fresh.2⟩ reads passes
          exact again.kindsFrom_eq.trans (congrArg _ (onward _))
      | trailed fresh passes =>
          have again : Moves { s with position := p } _ := .trailed ⟨fresh.1, fresh.2⟩ passes
          exact again.kindsFrom_eq.trans (congrArg _ (onward _))
      | @begun blanks after c fresh reads blank visible =>
          have again : Moves { s with position := p } _ :=
            .begun ⟨fresh.1, fresh.2⟩ reads blank visible
          obtain ⟨marks, indents⟩ := layoutMarks_place (p.advanceBy blanks)
            (s.position.advanceBy blanks) s.indents (widthOf blanks)
          rw [again.kindsFrom_eq, marks, indents]
          exact congrArg _ (onward _)
      | joined begun reads passes inside =>
          have again : Moves { s with position := p } _ :=
            .joined (begun_of_begun begun rfl rfl) reads passes inside
          exact again.kindsFrom_eq.trans (congrArg _ (onward _))
      | parted begun reads passes outside =>
          have again : Moves { s with position := p } _ :=
            .parted (begun_of_begun begun rfl rfl) reads passes outside
          rw [again.kindsFrom_eq, ← onward]
          split <;> rfl
      | token begun reads blank visible =>
          have again : Moves { s with position := p } _ :=
            .token (begun_of_begun begun rfl rfl) reads blank visible
          exact again.kindsFrom_eq.trans (congrArg _ (onward _))

theorem kindsFrom_of_place {s u : Lexer} (same : s = { u with position := s.position }) :
    s.kindsFrom = u.kindsFrom := by
  rw [same]
  exact kindsFrom_place u _

/-- The state in front of another text, at a place that does not matter. -/
def reading (s : Lexer) (cs : List Char) : Lexer :=
  { s with rest := cs, position := .start }

section

variable {s : Lexer} {gap blanks after : List Char} {c : Char}

theorem kinds_ended (fresh : s.Fresh) (blank : AllBlank blanks) :
    (s.reading blanks).kindsFrom = ({ s with atLineStart := false }.reading []).kindsFrom := by
  have moves : (s.reading blanks).Moves _ := .ended ⟨fresh.1, fresh.2⟩ blank
  exact moves.kindsFrom_eq.trans (kindsFrom_of_place rfl)

theorem kinds_passed (fresh : s.Fresh) (passes : Gap ('\n' :: after) gap) :
    (s.reading (gap ++ '\n' :: after)).kindsFrom = (s.reading after).kindsFrom := by
  have moves : (s.reading (gap ++ '\n' :: after)).Moves _ :=
    .passed ⟨fresh.1, fresh.2⟩ rfl passes
  exact moves.kindsFrom_eq.trans (kindsFrom_of_place rfl)

/-- The state in which the lexer reads the first token of a line, behind so many blanks. -/
def indented (s : Lexer) (blanks : List Char) : Lexer :=
  { s with
    indents := (layoutMarks s.position s.indents (widthOf blanks)).2
    atLineStart := false }

theorem kinds_begun (fresh : s.Fresh) (blank : AllBlank blanks) (visible : Visible c) :
    (s.reading (blanks ++ c :: after)).kindsFrom =
      (layoutMarks s.position s.indents (widthOf blanks)).1.map Token.kind ++
        ((s.indented blanks).reading (c :: after)).kindsFrom := by
  have moves : (s.reading (blanks ++ c :: after)).Moves _ :=
    .begun ⟨fresh.1, fresh.2⟩ rfl blank visible
  obtain ⟨marks, indents⟩ := layoutMarks_place (Position.start.advanceBy blanks) s.position
    s.indents (widthOf blanks)
  have onward := moves.kindsFrom_eq
  change _ = List.map Token.kind (layoutMarks (.advanceBy .start blanks) s.indents _).1 ++ _
    at onward
  rw [onward, marks, indented, ← indents]
  exact congrArg _ (kindsFrom_of_place rfl)

theorem kinds_closed (begun : ¬ s.Fresh) (passes : Gap [] gap) :
    (s.reading gap).kindsFrom = s.closingMarks.map Token.kind := by
  have moves : (s.reading gap).Moves _ := .closed (begun_of_begun begun rfl rfl) passes
  rw [moves.kindsFrom_closed, kinds_closingMarks, kinds_closingMarks]
  rfl

theorem kinds_joined (begun : ¬ s.Fresh) (inside : 0 < s.depth)
    (passes : Gap ('\n' :: after) gap) :
    (s.reading (gap ++ '\n' :: after)).kindsFrom = (s.reading after).kindsFrom := by
  have moves : (s.reading (gap ++ '\n' :: after)).Moves _ :=
    .joined (begun_of_begun begun rfl rfl) rfl passes inside
  exact moves.kindsFrom_eq.trans (kindsFrom_of_place rfl)

def lineDone (s : Lexer) : Lexer :=
  { s with atLineStart := true, lineHasToken := false }

theorem kinds_parted (begun : ¬ s.Fresh) (outside : s.depth = 0)
    (passes : Gap ('\n' :: after) gap) :
    (s.reading (gap ++ '\n' :: after)).kindsFrom =
      (if s.lineHasToken then [.newline] else []) ++ (s.lineDone.reading after).kindsFrom := by
  have moves : (s.reading (gap ++ '\n' :: after)).Moves _ :=
    .parted (begun_of_begun begun rfl rfl) rfl passes outside
  rw [moves.kindsFrom_eq, ← kindsFrom_place (s.lineDone.reading after)]
  change List.map Token.kind (if s.lineHasToken = true then _ else _) ++ _ = _
  split <;> rfl

def behindToken (s : Lexer) (kind : TokenKind) : Lexer :=
  { s with depth := depthAfter s.depth kind, lineHasToken := true }

theorem kinds_read (begun : ¬ s.Fresh) (blank : AllBlank blanks) (visible : Visible c) :
    (s.reading (blanks ++ c :: after)).kindsFrom =
      (Lexeme.scan c after).kind :: ((s.behindToken (Lexeme.scan c after).kind).reading
        (Lexeme.scan c after).rest).kindsFrom := by
  have moves : (s.reading (blanks ++ c :: after)).Moves _ :=
    .token (begun_of_begun begun rfl rfl) rfl blank visible
  exact moves.kindsFrom_eq.trans (congrArg _ (kindsFrom_of_place rfl))

end

end LessonScript.Lexer
