import LessonScript.Proofs.LexerSteps
import LessonScript.Token.Stream
import Mathlib.Data.List.DropRight

/-!
Where the tokens of a text stand.

Tokens and gaps make up the whole text in turn (`Woven`), so nothing of it is lost, and the
place of a token is a matter of the text in front of it (`Position.behind`).  A stream hands out
the same tokens one at a time, and then the end of the input again and again
(`TokenStream.nth_eq`).

`tokenize_places` puts these together for every text.
-/

namespace LessonScript

namespace Position

/-- The place behind a text that begins at the start of the input: its bytes, one line more than
it has line feeds, and one column more than there are characters behind the last of them. -/
def behind (before : List Char) : Position :=
  ⟨Text.byteLength before, 1 + before.count '\n', 1 + (before.rtakeWhile (· != '\n')).length⟩

theorem advanceBy_cons (p : Position) (c : Char) (cs : List Char) :
    p.advanceBy (c :: cs) = (p.advance c).advanceBy cs :=
  rfl

theorem behind_advance (before : List Char) (c : Char) :
    (behind before).advance c = behind (before ++ [c]) := by
  have bytes : Text.byteLength (before ++ [c]) = Text.byteLength before + c.utf8Size := by
    simp [Text.byteLength]
  unfold advance behind
  rw [bytes, List.count_append]
  by_cases ends : c = '\n'
  · subst ends
    simp [List.rtakeWhile_concat_neg]
    omega
  · have same : List.count '\n' [c] = 0 := by simp [ends]
    rw [if_neg ends, same, List.rtakeWhile_concat_pos _ _ _ (by simpa using ends)]
    simp
    omega

theorem behind_advanceBy (before cs : List Char) :
    (behind before).advanceBy cs = behind (before ++ cs) := by
  induction cs generalizing before with
  | nil => rw [List.append_nil]; rfl
  | cons c cs ih => rw [advanceBy_cons, behind_advance, ih, List.append_assoc]; rfl

theorem start_eq_behind : start = behind [] :=
  rfl

end Position

namespace Lexer

/-- What may lie between two tokens, in front of the text `behind`: blanks, line feeds, and
comments that go on to the end of their line. -/
inductive Filler (behind : List Char) : List Char → Prop
  | nil : Filler behind []
  | blank {c : Char} {cs : List Char} (isBlank : isBlank c = true) (rest : Filler behind cs) :
      Filler behind (c :: cs)
  | lineFeed {cs : List Char} (rest : Filler behind cs) : Filler behind ('\n' :: cs)
  | comment {words cs : List Char} (oneLine : '\n' ∉ words)
      (ends : ∀ c ∈ (cs ++ behind).head?, c = '\n') (rest : Filler behind cs) :
      Filler behind ('#' :: (words ++ cs))

theorem Gap.filler_append {first second behind : List Char} (gap : Gap (second ++ behind) first)
    (rest : Filler behind second) : Filler behind (first ++ second) := by
  induction gap with
  | nil => exact rest
  | blank isBlank _ ih => exact .blank isBlank ih
  | comment oneLine ends => exact .comment oneLine ends rest

theorem Gap.filler {gap behind : List Char} (passes : Gap behind gap) : Filler behind gap := by
  have filled : Filler behind (gap ++ []) := Gap.filler_append passes .nil
  rwa [List.append_nil] at filled

theorem Gap.filler_line {gap after : List Char} (passes : Gap ('\n' :: after) gap) :
    Filler after (gap ++ ['\n']) :=
  Gap.filler_append (by rwa [List.singleton_append]) (.lineFeed .nil)

theorem Filler.append {first second behind : List Char} (filler : Filler (second ++ behind) first)
    (rest : Filler behind second) : Filler behind (first ++ second) := by
  induction filler with
  | nil => exact rest
  | blank isBlank _ ih => exact .blank isBlank ih
  | lineFeed _ ih => exact .lineFeed ih
  | comment oneLine ends _ ih =>
      rw [List.cons_append, List.append_assoc]
      exact .comment oneLine (by rwa [List.append_assoc]) ih

/-- A gap is made of blanks and line feeds, and perhaps of a comment and what follows it; the end
of the line ends the comment. -/
theorem Filler.split {behind gap : List Char} (filler : Filler behind gap) :
    ∃ blanks comment, gap = blanks ++ comment ∧ (∀ c ∈ blanks, isBlank c = true ∨ c = '\n') ∧
      (comment = [] ∨ ∃ words, comment = '#' :: words ∧
        ('\n' ∉ words ++ behind → behind = [])) := by
  induction filler with
  | nil => exact ⟨[], [], rfl, List.forall_mem_nil _, .inl rfl⟩
  | blank isBlank _ ih =>
      obtain ⟨blanks, comment, rfl, blank, ends⟩ := ih
      exact ⟨_ :: blanks, comment, rfl, List.forall_mem_cons.mpr ⟨.inl isBlank, blank⟩, ends⟩
  | lineFeed _ ih =>
      obtain ⟨blanks, comment, rfl, blank, ends⟩ := ih
      exact ⟨_ :: blanks, comment, rfl, List.forall_mem_cons.mpr ⟨.inr rfl, blank⟩, ends⟩
  | @comment words cs _ ends _ _ =>
      refine ⟨[], _, rfl, List.forall_mem_nil _, .inr ⟨words ++ cs, rfl, fun oneLine => ?_⟩⟩
      rw [List.append_assoc] at oneLine
      have noLine : '\n' ∉ cs ++ behind := mt (List.mem_append_right words) oneLine
      cases rest : cs ++ behind with
      | nil => exact (List.append_eq_nil_iff.mp rest).2
      | cons c others =>
          rw [rest] at ends noLine
          exact absurd (ends c rfl ▸ List.mem_cons_self ..) noLine

end Lexer

open Lexer

/-- The text, which stands behind the text `before`, is made of the tokens and of what lies
between them. -/
inductive Woven : List Char → List Char → List Token → Prop
  | last {before gap : List Char} (filler : Filler [] gap) :
      Woven before gap [.mark .endOfInput (.behind (before ++ gap))]
  | more {before gap after text : List Char} {t : Token} {ts : List Token}
      (reads : text = gap ++ (t.lexeme ++ after)) (filler : Filler (t.lexeme ++ after) gap)
      (placed : t.position = .behind (before ++ gap)) (other : t.kind ≠ .endOfInput)
      (covers : t.lexeme = [] ↔ t.kind.isMark = true)
      (onward : Woven (before ++ gap ++ t.lexeme) after ts) : Woven before text (t :: ts)

theorem Woven.fill {before first rest : List Char} {tokens : List Token}
    (woven : Woven (before ++ first) rest tokens) (filler : Filler rest first) :
    Woven before (first ++ rest) tokens := by
  cases woven with
  | last ends =>
      rw [List.append_assoc]
      exact .last (Filler.append (by rwa [List.append_nil]) ends)
  | more reads ends placed other covers onward =>
      subst reads
      rw [List.append_assoc] at placed onward
      exact .more (List.append_assoc ..).symm (filler.append ends) placed other covers
        (by simpa only [List.append_assoc] using onward)

theorem Woven.marks {before text : List Char} {tokens marks : List Token} {place : Position}
    (woven : Woven before text tokens) (behind : place = .behind before)
    (marked : ∀ t ∈ marks, ∃ kind : TokenKind, t = .mark kind place ∧ kind.isMark = true ∧
      kind ≠ .endOfInput) :
    Woven before text (marks ++ tokens) := by
  subst behind
  induction marks with
  | nil => exact woven
  | cons t marks ih =>
      obtain ⟨⟨kind, rfl, isMark, other⟩, others⟩ := List.forall_mem_cons.mp marked
      have onward := ih others
      rw [← List.append_nil before, ← List.append_nil (before ++ [])] at onward
      have placed : (Token.mark kind (.behind before)).position = .behind (before ++ []) := by
        rw [List.append_nil]
        rfl
      exact .more (List.nil_append _).symm .nil placed other (iff_of_true rfl isMark) onward

namespace Lexer

theorem closingMarks_woven (s : Lexer) {before : List Char} (placed : s.position = .behind before) :
    Woven before [] s.closingMarks := by
  have last : Woven before [] [.mark .endOfInput s.position] := by
    have ends : Woven before [] _ := .last .nil
    rwa [List.append_nil, ← placed] at ends
  refine last.marks placed fun t member => ?_
  rcases List.mem_append.mp member with ended | closed
  · split at ended
    · exact ⟨.newline, List.mem_singleton.mp ended, rfl, nofun⟩
    · cases ended
  · obtain ⟨_, _, rfl⟩ := List.mem_map.mp closed
    exact ⟨.dedent, rfl, rfl, nofun⟩

/-- The tokens from a state on, with the gaps between them, are the text still to be read. -/
theorem tokensFrom_woven (s : Lexer) :
    ∀ before : List Char, s.position = .behind before → Woven before s.rest s.tokensFrom := by
  induction s using tokensFrom_induction with
  | @closed s _ _ moves =>
      intro before placed
      cases moves with
      | closed _ passes =>
          have ends : s.position.advanceBy s.rest = .behind (before ++ s.rest) := by
            rw [placed, Position.behind_advanceBy]
          have closing := closingMarks_woven
            { s with rest := [], position := s.position.advanceBy s.rest } ends
          have whole := closing.fill passes.filler
          rwa [List.append_nil] at whole
  | @more s next _ moves onward =>
      intro before placed
      have behind (read : List Char) :
          s.position.advanceBy read = .behind (before ++ read) := by
        rw [placed, Position.behind_advanceBy]
      cases moves with
      | ended _ blank =>
          have whole := (onward _ (behind s.rest)).fill blank.gap.filler
          rwa [List.append_nil] at whole
      | trailed _ passes =>
          have whole := (onward _ (behind s.rest)).fill passes.filler
          rwa [List.append_nil] at whole
      | @passed gap after _ reads passes | @joined gap after _ reads passes _ =>
          have whole := (onward _ (behind (gap ++ ['\n']))).fill passes.filler_line
          rwa [List.append_assoc, List.singleton_append, ← reads] at whole
      | @begun blanks after c _ reads blank _ =>
          have line := (onward _ (behind blanks)).marks (behind blanks)
            (layoutMarks_marked _ s.indents (widthOf blanks))
          have whole := line.fill blank.gap.filler
          rwa [← reads] at whole
      | @parted gap after _ reads passes _ =>
          have ended := behind (gap ++ ['\n'])
          rw [← List.append_assoc] at ended
          have line : Woven (before ++ gap) (['\n'] ++ after) _ :=
            (onward _ ended).fill (.lineFeed .nil)
          rw [reads]
          refine (line.marks (behind gap) fun t member => ?_).fill passes.filler
          split at member
          · exact ⟨.newline, List.mem_singleton.mp member, rfl, nofun⟩
          · cases member
      | @token blanks after c _ reads blank _ =>
          have parts := Lexeme.scan_append c after
          have other := Lexeme.scan_isMark c after
          have whole : s.rest =
              blanks ++ (c :: (Lexeme.scan c after).tail ++ (Lexeme.scan c after).rest) := by
            rw [reads, List.cons_append, parts]
          refine .more whole blank.gap.filler (behind blanks) ?_ ?_ ?_
          · change (Lexeme.scan c after).kind ≠ _
            intro ended
            rw [ended] at other
            cases other
          · simp [other]
          · rw [List.append_assoc]
            exact onward _ (behind _)

end Lexer

theorem Text.byteLength_eq (cs : List Char) :
    Text.byteLength cs = (String.ofList cs).utf8ByteSize := by
  have counts (total : Nat) : cs.foldl (fun total c => total + c.utf8Size) total =
      total + (String.ofList cs).utf8ByteSize := by
    induction cs generalizing total with
    | nil => rfl
    | cons c cs ih =>
        rw [List.foldl_cons, ih, String.ofList_cons, String.utf8ByteSize_append,
          String.utf8ByteSize_singleton, Nat.add_assoc]
  rw [Text.byteLength, counts, Nat.zero_add]

theorem Text.byteLength_append (first second : List Char) :
    Text.byteLength (first ++ second) = Text.byteLength first + Text.byteLength second := by
  simp only [Text.byteLength_eq, String.ofList_append, String.utf8ByteSize_append]

theorem Text.byteLength_cons (c : Char) (cs : List Char) :
    Text.byteLength (c :: cs) = c.utf8Size + Text.byteLength cs := by
  rw [← List.singleton_append, Text.byteLength_append]
  simp [Text.byteLength]

theorem Text.byteLength_le_append (first second : List Char) :
    Text.byteLength first ≤ Text.byteLength (first ++ second) := by
  rw [Text.byteLength_append]
  exact Nat.le_add_right _ _

theorem Text.byteLength_lt_append (first : List Char) (c : Char) (rest : List Char) :
    Text.byteLength first < Text.byteLength (first ++ c :: rest) := by
  have size := c.utf8Size_pos
  rw [Text.byteLength_append, Text.byteLength_cons]
  omega

theorem Token.stop_eq {t : Token} {front : List Char} (placed : t.position = .behind front) :
    t.stop = Text.byteLength (front ++ t.lexeme) := by
  rw [Token.stop, placed, Position.behind, ← Text.byteLength_append]

/-- Where the last of the tokens stops. -/
def stopOf (front : List Token) : Nat :=
  (front.getLast?.map Token.stop).getD 0

/-- The place of a token of the text, which goes on from the tokens in front of it. -/
structure StandsIn (source : String) (front : List Token) (t : Token) : Prop where
  /-- From the last token on there is a gap, and then the token's own text; its place is the one
  behind all the text in front of it. -/
  text : ∃ read gap after, source.toList = read ++ gap ++ t.lexeme ++ after ∧
    Text.byteLength read = stopOf front ∧ Filler (t.lexeme ++ after) gap ∧
    t.position = .behind (read ++ gap)
  ordered : stopOf front ≤ t.position.offset ∧ t.position.offset ≤ t.stop ∧
    t.stop ≤ source.utf8ByteSize
  /-- The token begins and stops between two characters. -/
  boundaries : String.Pos.Raw.IsValid source ⟨t.position.offset⟩ ∧
    String.Pos.Raw.IsValid source ⟨t.stop⟩
  /-- Marks have no text, and all other tokens have. -/
  covers : t.position.offset < t.stop ↔ t.kind.isMark = false
  /-- No line or column is counted beyond the characters of the text. -/
  narrow : t.position.line ≤ source.length + 1 ∧ t.position.column ≤ source.length + 1

theorem isValid_behind {source : String} {before after : List Char}
    (reads : source.toList = before ++ after) :
    String.Pos.Raw.IsValid source ⟨Text.byteLength before⟩ := by
  refine String.Pos.Raw.isValid_iff_exists_append.mpr
    ⟨String.ofList before, String.ofList after, ?_, ?_⟩
  · rw [← String.ofList_append, ← reads, String.ofList_toList]
  · rw [Text.byteLength_eq]
    rfl

theorem standsIn_of_text {source : String} {front : List Token} {t : Token}
    {read gap after : List Char} (reads : source.toList = read ++ gap ++ t.lexeme ++ after)
    (stopped : Text.byteLength read = stopOf front) (filler : Filler (t.lexeme ++ after) gap)
    (placed : t.position = .behind (read ++ gap)) (covers : t.lexeme = [] ↔ t.kind.isMark = true) :
    StandsIn source front t := by
  have offset : t.position.offset = Text.byteLength (read ++ gap) := by rw [placed]; rfl
  have stop := Token.stop_eq placed
  have size : source.utf8ByteSize = Text.byteLength source.toList := by
    rw [Text.byteLength_eq, String.ofList_toList]
  have some : Text.byteLength t.lexeme = 0 ↔ t.lexeme = [] := by
    rw [Text.byteLength_eq, String.utf8ByteSize_eq_zero_iff, String.ofList_eq_empty_iff]
  have length : source.length = (read ++ gap).length + (t.lexeme ++ after).length := by
    rw [← String.length_toList, reads, List.append_assoc (read ++ gap), List.length_append]
  refine ⟨⟨read, gap, after, reads, stopped, filler, placed⟩, ?_, ?_, ?_, ?_⟩
  · rw [offset, stop, size, reads]
    simp only [Text.byteLength_append]
    omega
  · rw [offset, stop]
    have reads' := reads
    rw [List.append_assoc] at reads'
    exact ⟨isValid_behind reads', isValid_behind reads⟩
  · rw [Token.stop, ← Bool.not_eq_true, ← covers, ← some]
    omega
  · rw [placed, length]
    have lines := List.count_le_length (a := '\n') (l := read ++ gap)
    have columns := (List.rtakeWhile_suffix (· != '\n') (read ++ gap)).length_le
    simp only [Position.behind]
    omega

theorem Woven.part {before text : List Char} {tokens : List Token}
    (woven : Woven before text tokens) {front back : List Token} {t : Token}
    (split : tokens = front ++ t :: back) :
    ∃ read gap after, text = read ++ gap ++ t.lexeme ++ after ∧
      Text.byteLength (before ++ read) =
        (front.getLast?.map Token.stop).getD (Text.byteLength before) ∧
      Filler (t.lexeme ++ after) gap ∧ t.position = .behind (before ++ read ++ gap) ∧
      (t.lexeme = [] ↔ t.kind.isMark = true) := by
  induction woven generalizing front with
  | @last before gap filler =>
      obtain ⟨rfl, rfl, rfl⟩ : front = [] ∧ _ = t ∧ [] = back := by
        cases front with
        | nil => exact ⟨rfl, List.cons.inj split⟩
        | cons f front => cases front <;> cases (List.cons.inj split).2
      refine ⟨[], gap, [], ?_, ?_, filler, ?_, iff_of_true rfl rfl⟩
      · simp [Token.mark]
      · simp
      · simp [Token.mark]
  | @more before gap after text f ts reads filler placed other covers onward ih =>
      cases front with
      | nil =>
          obtain ⟨rfl, rfl⟩ := List.cons.inj split
          refine ⟨[], gap, after, ?_, ?_, filler, ?_, covers⟩
          · simpa using reads
          · simp
          · simpa using placed
      | cons g front =>
          obtain ⟨rfl, onwards⟩ := List.cons.inj split
          obtain ⟨read, between, behind, whole, stopped, fills, stands, covered⟩ := ih onwards
          refine ⟨gap ++ (f.lexeme ++ read), between, behind, ?_, ?_, fills, ?_, covered⟩
          · rw [reads, whole]
            simp only [List.append_assoc]
          · have stop : f.stop = Text.byteLength (before ++ gap ++ f.lexeme) := by
              rw [Token.stop, placed, Position.behind, ← Text.byteLength_append]
            simp only [List.append_assoc] at stopped stop ⊢
            rw [stopped, ← stop, List.getLast?_cons]
            cases front.getLast? <;> rfl
          · simpa only [List.append_assoc] using stands

theorem Woven.covers {before text : List Char} {tokens : List Token}
    (woven : Woven before text tokens) : ∀ t ∈ tokens, t.lexeme = [] ↔ t.kind.isMark = true := by
  intro t member
  obtain ⟨front, back, split⟩ := List.append_of_mem member
  obtain ⟨_, _, _, _, _, _, _, covers⟩ := woven.part split
  exact covers

theorem Woven.offset_le {before text : List Char} {tokens : List Token}
    (woven : Woven before text tokens) :
    ∀ t ∈ tokens, Text.byteLength before ≤ t.position.offset := by
  induction woven with
  | @last before gap _ =>
      intro t member
      rw [List.mem_singleton.mp member]
      exact Text.byteLength_le_append before gap
  | @more before gap _ _ t _ _ _ placed _ _ _ ih =>
      refine List.forall_mem_cons.mpr ⟨?_, fun u member => ?_⟩
      · rw [placed]
        exact Text.byteLength_le_append before gap
      · rw [List.append_assoc] at ih
        exact Nat.le_trans (Text.byteLength_le_append _ _) (ih u member)

theorem Woven.marks_of_nil {before text : List Char} {tokens : List Token}
    (woven : Woven before text tokens) (empty : text = []) :
    ∀ t ∈ tokens, t.lexeme = [] ∧ t.kind.isMark = true := by
  induction woven with
  | last => exact fun t member => List.mem_singleton.mp member ▸ ⟨rfl, rfl⟩
  | more reads _ _ _ covers _ ih =>
      rw [empty] at reads
      obtain ⟨_, lexeme, after⟩ := by simpa using reads.symm
      exact List.forall_mem_cons.mpr ⟨⟨lexeme, covers.mp lexeme⟩, ih after⟩

theorem Woven.ends {before text : List Char} {tokens : List Token}
    (woven : Woven before text tokens) :
    ∃ front, tokens = front ++ [.mark .endOfInput (.behind (before ++ text))] ∧
      ∀ t ∈ front, t.kind ≠ .endOfInput := by
  induction woven with
  | last => exact ⟨[], rfl, nofun⟩
  | more reads _ _ other _ _ ih =>
      obtain ⟨front, rfl, others⟩ := ih
      refine ⟨_ :: front, ?_, List.forall_mem_cons.mpr ⟨other, others⟩⟩
      rw [reads]
      simp only [List.append_assoc, List.cons_append]

namespace TokenStream

/-- The end of the input as it is seen from a state on. -/
def ending (s : TokenStream) : Token :=
  .mark .endOfInput (s.lexer.position.advanceBy s.lexer.rest)

def upcoming (s : TokenStream) (n : Nat) : Token :=
  (s.waiting ++ s.lexer.tokensFrom)[n]?.getD s.ending

end TokenStream

theorem Lexer.Moves.sameEnd {s next : Lexer} {found : List Token}
    (moves : s.Moves (.more found next)) :
    next.position.advanceBy next.rest = s.position.advanceBy s.rest := by
  cases moves with
  | ended | trailed => rfl
  | passed _ reads | joined _ reads | parted _ reads =>
      rw [reads, ← Position.advanceBy_append, List.append_assoc, List.singleton_append]
  | begun _ reads => rw [reads, ← Position.advanceBy_append]
  | @token blanks after c _ reads =>
      rw [reads, ← Position.advanceBy_append, List.append_assoc, List.cons_append,
        Lexeme.scan_append]

theorem Lexer.Moves.closes {s final : Lexer} {last : List Token}
    (moves : s.Moves (.closed last final)) : last ≠ [] := by
  cases moves with
  | closed => exact List.append_ne_nil_of_right_ne_nil _ (List.cons_ne_nil _ _)

theorem Lexer.tokensFrom_final {s final : Lexer} {last : List Token}
    (moves : s.Moves (.closed last final)) :
    final.tokensFrom = [.mark .endOfInput (s.position.advanceBy s.rest)] ∧
      final.position.advanceBy final.rest = s.position.advanceBy s.rest := by
  cases moves with
  | closed begun passes =>
      refine ⟨?_, rfl⟩
      refine Lexer.tokensFrom_of_closed (if_neg (mt (Lexer.fresh_iff _).mp fun fresh => ?_))
      exact begun ⟨fresh.atLineStart, fresh.outside⟩

namespace TokenStream

theorem next_upcoming (s : TokenStream) :
    s.next.1 = s.upcoming 0 ∧ ∀ n, s.next.2.upcoming n = s.upcoming (n + 1) := by
  fun_induction next s with
  | case1 token waiting lexer => exact ⟨rfl, fun n => rfl⟩
  | case2 lexer found onward stepped ih =>
      have moves := lexer.step_moves
      rw [stepped] at moves
      have same : upcoming ⟨found, onward⟩ = upcoming ⟨[], lexer⟩ := by
        funext n
        simp only [upcoming, ending, Lexer.tokensFrom_of_more stepped, moves.sameEnd,
          List.nil_append]
      rw [← same]
      exact ih
  | case3 lexer found final stepped =>
      have moves := lexer.step_moves
      rw [stepped] at moves
      obtain ⟨again, sameEnd⟩ := Lexer.tokensFrom_final moves
      have tokens := Lexer.tokensFrom_of_closed stepped
      simp only [upcoming, ending, again, sameEnd, tokens, List.nil_append]
      obtain ⟨token, others, rfl⟩ := List.exists_cons_of_ne_nil moves.closes
      refine ⟨rfl, fun n => ?_⟩
      rw [List.tail_cons, List.getElem?_cons_succ, List.getElem?_append]
      split
      · rfl
      · rename_i beyond
        rw [List.getElem?_eq_none (Nat.le_of_not_lt beyond)]
        cases (n - others.length) <;> rfl

theorem nth_eq (s : TokenStream) (n : Nat) : s.nth n = s.upcoming n := by
  induction n generalizing s with
  | zero => exact s.next_upcoming.1
  | succ n ih => exact (ih s.next.2).trans (s.next_upcoming.2 n)

end TokenStream

theorem tokenize_woven (source : String) : Woven [] source.toList (tokenize source) :=
  tokensFrom_woven (.start source.toList) [] Position.start_eq_behind

/-- For every text, `tokenize` loses nothing and each token stands where it says: its span goes on
from the one before over blanks, line feeds and comments only, and its line and column are
counted in the text in front of it.  The end of the input is the last token and no other, at the
end of the text.  Handed out one at a time, the tokens are the same, and behind them comes the
end of the input again and again. -/
theorem tokenize_places (source : String) :
    (∀ front t back, tokenize source = front ++ t :: back → StandsIn source front t) ∧
      (∃ front, tokenize source =
          front ++ [.mark .endOfInput (.behind source.toList)] ∧
        ∀ t ∈ front, t.kind ≠ .endOfInput) ∧
      ∀ n, (TokenStream.ofSource source).nth n =
        (tokenize source)[n]?.getD (.mark .endOfInput (.behind source.toList)) := by
  have woven := tokenize_woven source
  refine ⟨fun front t back split => ?_, woven.ends, fun n => ?_⟩
  · obtain ⟨read, gap, after, reads, stopped, filler, placed, covers⟩ := woven.part split
    exact standsIn_of_text reads stopped filler placed covers
  · rw [TokenStream.nth_eq, TokenStream.upcoming, TokenStream.ending]
    change (tokenize source)[n]?.getD (.mark .endOfInput (Position.start.advanceBy _)) = _
    rw [Position.start_eq_behind, Position.behind_advanceBy]
    rfl

end LessonScript
