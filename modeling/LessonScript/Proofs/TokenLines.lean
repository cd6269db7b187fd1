import LessonScript.Proofs.TokenPlaces

/-!
The tokens of a text, line by line.

`LaidLines` says which tokens a text has from a line on: a line without a token adds nothing; a
line that begins outside parentheses begins with the marks that its indentation asks for; and a
line that ends outside them ends with a newline.  `tokenize_lines` proves it of every text.  The
induction is on the steps of the lexer, which may stand in the middle of a line (`OnLine`).
-/

namespace LessonScript

open Lexer

namespace Text

theorem segments_line {line : List Char} (plain : '\n' ∉ line) (rest : List Char) :
    segments (line ++ '\n' :: rest) = line :: segments rest := by
  induction line with
  | nil => rfl
  | cons c line ih =>
      obtain ⟨other, others⟩ := not_or.mp (mt List.mem_cons.mpr plain)
      rw [List.cons_append, segments, List.foldr_cons, if_neg (Ne.symm other), ← segments,
        ih others]

theorem exists_segments (cs : List Char) : ∃ line later, segments cs = line :: later := by
  cases cs with
  | nil => exact ⟨[], [], rfl⟩
  | cons c cs =>
      rw [segments, List.foldr_cons]
      split
      · exact ⟨_, _, rfl⟩
      · split <;> exact ⟨_, _, rfl⟩

theorem segments_append {front rest line : List Char} {later : List (List Char)}
    (plain : '\n' ∉ front) (pieces : segments rest = line :: later) :
    segments (front ++ rest) = (front ++ line) :: later := by
  induction front with
  | nil => exact pieces
  | cons c front ih =>
      obtain ⟨other, others⟩ := not_or.mp (mt List.mem_cons.mpr plain)
      rw [List.cons_append, segments, List.foldr_cons, if_neg (Ne.symm other), ← segments,
        ih others]
      rfl

theorem segments_last {line : List Char} (plain : '\n' ∉ line) : segments line = [line] := by
  have whole : segments (line ++ []) = [line ++ []] := segments_append plain rfl
  rwa [List.append_nil] at whole

end Text

theorem Position.advanceBy_line (p : Position) {cs : List Char} (plain : '\n' ∉ cs) :
    (p.advanceBy cs).line = p.line := by
  induction cs generalizing p with
  | nil => rfl
  | cons c cs ih =>
      obtain ⟨other, others⟩ := not_or.mp (mt List.mem_cons.mpr plain)
      rw [advanceBy_cons, ih _ others, advance, if_neg (Ne.symm other)]

theorem Position.advanceBy_lineFeed (p : Position) {cs : List Char} (plain : '\n' ∉ cs) :
    (p.advanceBy (cs ++ ['\n'])).line = p.line + 1 := by
  rw [advanceBy_append, advanceBy_cons, ← p.advanceBy_line plain]
  rfl

/-- The width of the blanks in front of the first token of a line; a blank line and a line with
a comment only have none. -/
def indentation? (line : List Char) : Option Nat :=
  match line.dropWhile isBlank with
  | [] => none
  | c :: _ => if c = '#' then none else some (widthOf (line.takeWhile isBlank))

theorem Lexer.Gap.silent {behind line : List Char} (passes : Gap behind line) :
    indentation? line = none := by
  induction passes with
  | nil => rfl
  | blank isBlank _ ih =>
      rw [indentation?] at ih ⊢
      rw [List.dropWhile_cons_of_pos isBlank]
      split at ih
      · rfl
      · split at ih
        · rw [if_pos ‹_›]
        · cases ih
  | comment => rfl

theorem indentation?_visible {blanks : List Char} {c : Char} (blank : AllBlank blanks)
    (visible : Visible c) (more : List Char) :
    indentation? (blanks ++ c :: more) = some (widthOf blanks) := by
  obtain ⟨front, back⟩ := Prod.mk.inj (cutWhile_visible blank visible more)
  rw [indentation?, back, front]
  exact if_neg visible.notComment

/-- The kinds of the marks that a line of the given width puts in, where the open blocks have
the given widths, innermost first. -/
def marksFor (blocks : List Nat) (width : Nat) : List TokenKind :=
  if blocks.headD 0 < width then [.indent]
  else
    List.replicate (blocks.countP (width < ·)) .dedent ++
      if (blocks.filter (· ≤ width)).headD 0 = width then [] else [.fault .unmatchedIndentation]

/-- The widths of the blocks open behind the marks of a line of the given width. -/
def settle (blocks : List Nat) (width : Nat) : List Nat :=
  if blocks.headD 0 < width then width :: blocks else blocks.filter (· ≤ width)

/-- Every open block is wider than the block that it lies in, and the outermost has a width. -/
def Nested (blocks : List Nat) : Prop :=
  (blocks ++ [0]).Pairwise (· > ·)

theorem Nested.nil : Nested [] :=
  List.pairwise_singleton _ _

theorem Nested.settle {blocks : List Nat} (nested : Nested blocks) (width : Nat) :
    Nested (settle blocks width) := by
  unfold LessonScript.settle
  split
  · rename_i deeper
    refine List.pairwise_cons.mpr ⟨fun outer member => ?_, nested⟩
    cases blocks with
    | nil =>
        cases List.mem_singleton.mp member
        exact deeper
    | cons inner blocks =>
        rcases List.mem_cons.mp member with rfl | member
        · exact deeper
        · exact Nat.lt_trans ((List.pairwise_cons.mp nested).1 outer member) deeper
  · exact nested.sublist ((List.filter_sublist).append (List.Sublist.refl _))

theorem Nested.closes {blocks : List Nat} (nested : Nested blocks) (width : Nat) :
    blocks.takeWhile (width < ·) = blocks.filter (width < ·) ∧
      blocks.dropWhile (width < ·) = blocks.filter (· ≤ width) := by
  induction blocks with
  | nil => exact ⟨rfl, rfl⟩
  | cons inner blocks ih =>
      obtain ⟨outer, others⟩ := List.pairwise_cons.mp nested
      by_cases closed : width < inner
      · have open' : ¬ inner ≤ width := Nat.not_le.mpr closed
        obtain ⟨front, back⟩ := ih others
        simp [closed, open', front, back]
      · have kept : inner ≤ width := Nat.le_of_not_lt closed
        have all : ∀ block ∈ blocks, block ≤ width := fun block member =>
          Nat.le_trans (Nat.le_of_lt (outer block (List.mem_append_left _ member))) kept
        have none : blocks.filter (width < ·) = [] :=
          List.filter_eq_nil_iff.mpr fun block member => by simpa using all block member
        have whole : blocks.filter (· ≤ width) = blocks :=
          List.filter_eq_self.mpr fun block member => by simpa using all block member
        simp [closed, kept, none, whole]

theorem layoutMarks_eq {blocks : List Nat} (nested : Nested blocks) (position : Position)
    (width : Nat) :
    layoutMarks position blocks width =
      ((marksFor blocks width).map (Token.mark · position), settle blocks width) := by
  obtain ⟨closed, kept⟩ := nested.closes width
  unfold layoutMarks marksFor settle
  split
  · rfl
  · rw [closed, kept]
    dsimp only
    have dedents : (blocks.filter (width < ·)).map (fun _ => Token.mark .dedent position) =
        (List.replicate (blocks.countP (width < ·)) TokenKind.dedent).map
          (Token.mark · position) := by
      rw [List.map_const', List.map_replicate, List.countP_eq_length_filter]
    split
    · rw [List.append_nil, dedents]
    · rw [List.map_append, dedents]
      rfl

/-- The number of parentheses open behind the tokens. -/
def depthFrom (depth : Nat) (tokens : List Token) : Nat :=
  tokens.foldl (fun depth t => depthAfter depth t.kind) depth

theorem depthFrom_append (depth : Nat) (first second : List Token) :
    depthFrom depth (first ++ second) = depthFrom (depthFrom depth first) second :=
  List.foldl_append

theorem depthFrom_marks (depth : Nat) {marks : List Token}
    (marked : ∀ t ∈ marks, t.kind.isMark = true) : depthFrom depth marks = depth := by
  induction marks with
  | nil => rfl
  | cons t marks ih =>
      obtain ⟨isMark, others⟩ := List.forall_mem_cons.mp marked
      have same : depthAfter depth t.kind = depth := by
        cases kind : t.kind <;> rw [kind] at isMark <;> first | rfl | cases isMark
      rw [depthFrom, List.foldl_cons, same]
      exact ih others

structure WordOf (number : Nat) (t : Token) : Prop where
  plain : t.kind.isMark = false
  placed : t.position.line = number

/-- What ends a line with a token: a newline, where no parenthesis is open. -/
inductive LineEnd (number : Nat) : Nat → List Token → Prop
  | parted {place : Position} (placed : place.line = number) :
      LineEnd number 0 [.mark .newline place]
  | joined {depth : Nat} (inside : 0 < depth) : LineEnd number depth []

theorem LineEnd.eq_nil {number depth : Nat} {ending : List Token}
    (ends : LineEnd number depth ending) (inside : 0 < depth) : ending = [] := by
  cases ends with
  | parted => cases inside
  | joined => rfl

def openingMarks (depth : Nat) (blocks : List Nat) (width : Nat) (place : Position) : List Token :=
  if depth = 0 then (marksFor blocks width).map (Token.mark · place) else []

def finalMarks (depth : Nat) (blocks : List Nat) (finish : Position) : List Token :=
  (if 0 < depth then [Token.mark .newline finish] else []) ++
    blocks.map (fun _ => Token.mark .dedent finish) ++ [.mark .endOfInput finish]

/-- The tokens from the line of the given number on, where so many parentheses and the blocks of
these widths are open; the text ends at `finish`. -/
inductive LaidLines (finish : Position) :
    Nat → List Nat → Nat → List (List Char) → List Token → Prop
  | done {depth : Nat} {blocks : List Nat} :
      LaidLines finish depth blocks (finish.line + 1) [] (finalMarks depth blocks finish)
  | silent {depth number : Nat} {blocks : List Nat} {line : List Char} {later : List (List Char)}
      {tokens : List Token} (blank : indentation? line = none)
      (onward : LaidLines finish depth blocks (number + 1) later tokens) :
      LaidLines finish depth blocks number (line :: later) tokens
  | line {depth number width : Nat} {blocks : List Nat} {line : List Char}
      {later : List (List Char)} {place : Position} {first : Token}
      {words ending tokens : List Token} (indented : indentation? line = some width)
      (placed : place.line = number) (reads : ∀ t ∈ first :: words, WordOf number t)
      (ends : LineEnd number (depthFrom depth (first :: words)) ending)
      (onward : LaidLines finish (depthFrom depth (first :: words))
        (if depth = 0 then settle blocks width else blocks) (number + 1) later tokens) :
      LaidLines finish depth blocks number (line :: later)
        (openingMarks depth blocks width place ++ first :: words ++ ending ++ tokens)

theorem LaidLines.sameLine {finish : Position} {depth number : Nat} {blocks : List Nat}
    {line other : List Char} {later : List (List Char)} {tokens : List Token}
    (laid : LaidLines finish depth blocks number (line :: later) tokens)
    (blank : indentation? line = none) (blank' : indentation? other = none) :
    LaidLines finish depth blocks number (other :: later) tokens := by
  cases laid with
  | silent _ onward => exact .silent blank' onward
  | line indented => cases blank.symm.trans indented

namespace Lexer

structure Tidy (s : Lexer) : Prop where
  atStart : s.atLineStart = true → s.depth = 0 ∧ s.lineHasToken = false
  inside : 0 < s.depth → s.lineHasToken = true
  nested : Nested s.indents

theorem start_tidy (cs : List Char) : (start cs).Tidy :=
  ⟨fun _ => ⟨rfl, rfl⟩, nofun, .nil⟩

theorem Tidy.moves {s next : Lexer} {found : List Token} (tidy : s.Tidy)
    (moves : s.Moves (.more found next)) : next.Tidy := by
  cases moves with
  | ended => exact ⟨nofun, tidy.inside, tidy.nested⟩
  | passed | trailed | joined => exact ⟨tidy.atStart, tidy.inside, tidy.nested⟩
  | begun =>
      refine ⟨nofun, tidy.inside, ?_⟩
      rw [layoutMarks_eq tidy.nested]
      exact tidy.nested.settle _
  | parted _ _ _ outside =>
      exact ⟨fun _ => ⟨outside, rfl⟩, fun inside => absurd outside (Nat.ne_of_gt inside),
        tidy.nested⟩
  | token begun =>
      refine ⟨fun start => ?_, fun _ => rfl, tidy.nested⟩
      exact absurd ⟨start, (tidy.atStart start).1⟩ begun

inductive OnLine (finish : Position) (s : Lexer) : List (List Char) → List Token → Prop
  | mk {line : List Char} {later : List (List Char)} {words ending tokens : List Token}
      (reads : ∀ t ∈ words, WordOf s.position.line t)
      (covers : words = [] ↔ indentation? line = none)
      (ends : if s.lineHasToken = true ∨ words ≠ [] then
          LineEnd s.position.line (depthFrom s.depth words) ending
        else ending = [])
      (onward : LaidLines finish (depthFrom s.depth words) s.indents (s.position.line + 1) later
        tokens) :
      OnLine finish s (line :: later) (words ++ ending ++ tokens)

theorem OnLine.inside {finish : Position} {s : Lexer} {lines : List (List Char)}
    {tokens : List Token} (onLine : OnLine finish s lines tokens) (inside : 0 < s.depth)
    (begun : s.lineHasToken = true) :
    LaidLines finish s.depth s.indents s.position.line lines tokens := by
  obtain @⟨line, later, words, ending, tokens, reads, covers, ends, onward⟩ := onLine
  rw [if_pos (.inl begun)] at ends
  have marks (width : Nat) : openingMarks s.depth s.indents width s.position = [] :=
    if_neg (Nat.ne_of_gt inside)
  cases words with
  | nil =>
      rw [ends.eq_nil inside]
      exact .silent (covers.mp rfl) onward
  | cons first words =>
      cases indented : indentation? line with
      | none => cases covers.mpr indented
      | some width =>
          have laid := @LaidLines.line finish _ _ _ s.indents _ _ s.position _ _ _ _ indented rfl
            reads ends (by rwa [if_neg (Nat.ne_of_gt inside)])
          rwa [marks, List.nil_append] at laid

theorem finalMarks_eq (s : Lexer) (tidy : s.Tidy) :
    s.closingMarks =
      (if s.depth = 0 ∧ s.lineHasToken = true then [.mark .newline s.position] else []) ++
        finalMarks s.depth s.indents s.position := by
  unfold closingMarks finalMarks
  by_cases inside : 0 < s.depth
  · rw [if_pos (tidy.inside inside), if_pos inside,
      if_neg fun outside => absurd outside.1 (Nat.ne_of_gt inside)]
    rfl
  · have outside : s.depth = 0 := Nat.eq_zero_of_not_pos inside
    by_cases begun : s.lineHasToken = true
    · rw [if_pos begun, if_pos ⟨outside, begun⟩, if_neg inside]
      rfl
    · rw [if_neg begun, if_neg fun both => begun both.2, if_neg inside]
      rfl

structure GoesOn (finish : Position) (s : Lexer) (tokens : List Token) : Prop where
  fresh : s.Fresh →
    LaidLines finish 0 s.indents s.position.line (Text.segments s.rest) tokens
  begun : ¬ s.Fresh → OnLine finish s (Text.segments s.rest) tokens

theorem lineEnd_newline {number depth : Nat} {place : Position} (begun : Bool)
    (placed : place.line = number) :
    if begun = true ∨ ([] : List Token) ≠ [] then
      LineEnd number depth (if depth = 0 ∧ begun = true then [.mark .newline place] else [])
    else (if depth = 0 ∧ begun = true then [Token.mark .newline place] else []) = [] := by
  cases begun with
  | false => simp
  | true =>
      rw [if_pos (.inl rfl)]
      by_cases outside : depth = 0
      · subst outside
        exact .parted placed
      · rw [if_neg fun both => outside both.1]
        exact .joined (Nat.pos_of_ne_zero outside)

theorem closed_onLine {s : Lexer} (tidy : s.Tidy) (passes : Gap [] s.rest) :
    OnLine (s.position.advanceBy s.rest) s (Text.segments s.rest)
      (closingMarks { s with rest := [], position := s.position.advanceBy s.rest }) := by
  have line := s.position.advanceBy_line passes.oneLine
  have laid : LaidLines (s.position.advanceBy s.rest) s.depth s.indents (s.position.line + 1) []
      (finalMarks s.depth s.indents (s.position.advanceBy s.rest)) := by
    rw [← line]
    exact .done
  have marks := finalMarks_eq { s with rest := [], position := s.position.advanceBy s.rest }
    ⟨tidy.atStart, tidy.inside, tidy.nested⟩
  rw [Text.segments_last passes.oneLine, marks]
  exact .mk (List.forall_mem_nil _) (iff_of_true rfl passes.silent)
    (lineEnd_newline s.lineHasToken line) laid

theorem parted_onLine {finish : Position} {s : Lexer} {gap after : List Char}
    {tokens : List Token} (reads : s.rest = gap ++ '\n' :: after)
    (passes : Gap ('\n' :: after) gap) (outside : s.depth = 0)
    (onward : LaidLines finish 0 s.indents (s.position.line + 1) (Text.segments after) tokens) :
    OnLine finish s (Text.segments s.rest)
      ((if s.lineHasToken then [.mark .newline (s.position.advanceBy gap)] else []) ++
        tokens) := by
  have ends := @lineEnd_newline s.position.line 0 _ s.lineHasToken
    (s.position.advanceBy_line passes.oneLine)
  simp only [true_and] at ends
  rw [reads, Text.segments_line passes.oneLine]
  rw [← outside] at ends onward
  change OnLine _ _ _ ([] ++ _ ++ _)
  exact .mk (List.forall_mem_nil _) (iff_of_true rfl passes.silent) ends onward

theorem token_onLine {finish : Position} {s next : Lexer} {blanks after : List Char} {c : Char}
    {tokens : List Token} {t : Token} (reads : s.rest = blanks ++ c :: after)
    (blank : AllBlank blanks) (visible : Visible c) (word : WordOf s.position.line t)
    (onward : OnLine finish next (Text.segments next.rest) tokens) {used : List Char}
    (cut : after = used ++ next.rest) (oneLine : '\n' ∉ used)
    (sameLine : next.position.line = s.position.line) (sameBlocks : next.indents = s.indents)
    (depth : next.depth = depthAfter s.depth t.kind) (begun : next.lineHasToken = true) :
    OnLine finish s (Text.segments s.rest) (t :: tokens) := by
  have front : '\n' ∉ blanks ++ c :: used := by
    simp only [List.mem_append, List.mem_cons, not_or]
    exact ⟨blank.oneLine, visible.notEnd.symm, oneLine⟩
  obtain ⟨line, later, same⟩ := Text.exists_segments next.rest
  rw [reads, cut, ← List.cons_append, ← List.append_assoc, Text.segments_append front same]
  rw [same] at onward
  obtain @⟨_, _, words, ending, tokens, plain, _, ends, onward⟩ := onward
  rw [if_pos (.inl begun), sameLine, depth] at ends
  rw [sameLine, depth, sameBlocks] at onward
  rw [sameLine] at plain
  have indented : indentation? ((blanks ++ c :: used) ++ line) = some (widthOf blanks) := by
    rw [List.append_assoc, List.cons_append]
    exact indentation?_visible blank visible _
  change OnLine _ _ _ (t :: words ++ _ ++ _)
  refine .mk (List.forall_mem_cons.mpr ⟨word, plain⟩) ?_ ?_ onward
  · rw [indented]
    exact iff_of_false (List.cons_ne_nil _ _) nofun
  · rw [if_pos (.inr (List.cons_ne_nil _ _))]
    exact ends

theorem ended_laid {finish : Position} {s next : Lexer} {tokens : List Token} (tidy : s.Tidy)
    (fresh : s.Fresh) (blank : AllBlank s.rest)
    (onward : OnLine finish next (Text.segments []) tokens)
    (sameLine : next.position.line = s.position.line) (sameDepth : next.depth = s.depth)
    (sameBlocks : next.indents = s.indents) (sameToken : next.lineHasToken = s.lineHasToken) :
    LaidLines finish 0 s.indents s.position.line (Text.segments s.rest) tokens := by
  obtain @⟨_, _, words, ending, tokens, _, covers, ends, onward⟩ := onward
  obtain rfl : words = [] := covers.mpr rfl
  rw [sameToken, (tidy.atStart fresh.atLineStart).2, if_neg (by simp)] at ends
  rw [Text.segments_last blank.oneLine, ends]
  rw [sameLine, sameBlocks, sameDepth, fresh.outside] at onward
  exact .silent (Gap.silent (blank.gap : Gap [] _)) onward

theorem begun_laid {finish : Position} {s next : Lexer} {blanks after : List Char} {c : Char}
    {tokens : List Token} (tidy : s.Tidy) (reads : s.rest = blanks ++ c :: after)
    (blank : AllBlank blanks) (visible : Visible c)
    (onward : OnLine finish next (Text.segments (c :: after)) tokens)
    (sameLine : next.position.line = s.position.line) (outside : next.depth = 0)
    (blocks : next.indents = settle s.indents (widthOf blanks)) :
    LaidLines finish 0 s.indents s.position.line (Text.segments s.rest)
      ((layoutMarks next.position s.indents (widthOf blanks)).1 ++ tokens) := by
  obtain ⟨line, later, same⟩ := Text.exists_segments after
  have first : '\n' ∉ [c] := by simpa using visible.notEnd.symm
  have front : '\n' ∉ blanks ++ [c] := by
    simpa using ⟨blank.oneLine, visible.notEnd.symm⟩
  have pieces := Text.segments_append front same
  rw [List.append_assoc, List.singleton_append] at pieces
  rw [← List.singleton_append, Text.segments_append first same] at onward
  rw [reads, pieces, layoutMarks_eq tidy.nested, List.append_assoc, List.singleton_append]
  obtain @⟨_, _, words, ending, tokens, plain, covers, ends, onward⟩ := onward
  rw [sameLine] at plain ends onward
  rw [outside] at ends onward
  rw [blocks] at onward
  cases words with
  | nil =>
      have indented : indentation? ([] ++ c :: line) = _ :=
        indentation?_visible (List.forall_mem_nil _) visible line
      cases (covers.mp rfl).symm.trans indented
  | cons first words =>
      rw [if_pos (.inr (List.cons_ne_nil _ _))] at ends
      have laid := LaidLines.line (indentation?_visible blank visible line) sameLine plain ends
        (by rwa [if_pos rfl])
      rw [openingMarks, if_pos rfl] at laid
      simpa only [List.append_assoc] using laid

theorem tokensFrom_goesOn (s : Lexer) :
    s.Tidy → GoesOn (s.position.advanceBy s.rest) s s.tokensFrom := by
  induction s using tokensFrom_induction with
  | @closed s _ _ moves =>
      intro tidy
      cases moves with
      | closed begun passes =>
          exact ⟨fun fresh => absurd fresh begun, fun _ => closed_onLine tidy passes⟩
  | @more s next _ moves onward =>
      intro tidy
      have same := moves.sameEnd
      have tidy' := tidy.moves moves
      obtain ⟨fresh', begun'⟩ := onward tidy'
      rw [same] at fresh' begun'
      generalize s.position.advanceBy s.rest = finish at fresh' begun' ⊢
      cases moves with
      | ended fresh blank =>
          refine ⟨fun _ => ?_, fun begun => absurd fresh begun⟩
          exact ended_laid tidy fresh blank (begun' nofun)
            (s.position.advanceBy_line blank.oneLine) rfl rfl rfl
      | @passed gap after fresh reads passes =>
          refine ⟨fun _ => ?_, fun begun => absurd fresh begun⟩
          have laid := fresh' ⟨fresh.atLineStart, fresh.outside⟩
          rw [s.position.advanceBy_lineFeed passes.oneLine] at laid
          rw [reads, Text.segments_line passes.oneLine] 
          exact .silent passes.silent laid
      | trailed fresh passes =>
          refine ⟨fun _ => ?_, fun begun => absurd fresh begun⟩
          have laid := fresh' ⟨fresh.atLineStart, fresh.outside⟩
          rw [s.position.advanceBy_line passes.oneLine] at laid
          rw [Text.segments_last passes.oneLine] 
          exact laid.sameLine rfl passes.silent
      | @begun blanks after c fresh reads blank visible =>
          refine ⟨fun _ => ?_, fun begun => absurd fresh begun⟩
          exact begun_laid tidy reads blank visible (begun' nofun)
            (s.position.advanceBy_line blank.oneLine) fresh.outside
            (congrArg Prod.snd (layoutMarks_eq tidy.nested _ _))
      | @joined gap after begun reads passes inside =>
          refine ⟨fun fresh => absurd fresh begun, fun _ => ?_⟩
          have onLine := begun' fun fresh => Nat.ne_of_gt inside fresh.outside
          have laid := onLine.inside inside (tidy.inside inside)
          rw [s.position.advanceBy_lineFeed passes.oneLine] at laid
          rw [reads, Text.segments_line passes.oneLine]
          change OnLine _ _ _ ([] ++ [] ++ _)
          refine .mk (List.forall_mem_nil _) (iff_of_true rfl passes.silent) ?_ laid
          rw [if_pos (.inl (tidy.inside inside))]
          exact .joined inside
      | @parted gap after begun reads passes outside =>
          refine ⟨fun fresh => absurd fresh begun, fun _ => ?_⟩
          have laid := fresh' ⟨rfl, outside⟩
          rw [s.position.advanceBy_lineFeed passes.oneLine] at laid
          exact parted_onLine reads passes outside laid
      | @token blanks after c begun reads blank visible =>
          refine ⟨fun fresh => absurd fresh begun, fun _ => ?_⟩
          have used : '\n' ∉ blanks ++ c :: (Lexeme.scan c after).tail := by
            simp only [List.mem_append, List.mem_cons, not_or]
            exact ⟨blank.oneLine, visible.notEnd.symm, Lexeme.scan_oneLine c after⟩
          have onLine := begun' fun fresh =>
            begun ⟨fresh.atLineStart, (tidy.atStart fresh.atLineStart).1⟩
          exact token_onLine reads blank visible
            ⟨Lexeme.scan_isMark c after, s.position.advanceBy_line blank.oneLine⟩ onLine
            (Lexeme.scan_append c after).symm (Lexeme.scan_oneLine c after)
            (s.position.advanceBy_line used) rfl rfl rfl

end Lexer

theorem tokenize_lines (source : String) :
    LaidLines (.behind source.toList) 0 [] 1 (Text.segments source.toList) (tokenize source) := by
  have goesOn := tokensFrom_goesOn (.start source.toList) (start_tidy _)
  change GoesOn (Position.start.advanceBy source.toList) _ (tokenize source) at goesOn
  rw [Position.start_eq_behind, Position.behind_advanceBy] at goesOn
  exact goesOn.fresh ⟨rfl, rfl⟩

end LessonScript
