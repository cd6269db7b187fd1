import LessonScript.Proofs.OpenParens

/-!
Behind which lines the editor indents further.

`Indentation.opensBlock` looks at the characters of a line in front of its first number sign.  On
a line without a faulty token these are the texts of its tokens with blanks between them, so long
as no string holds a number sign (`Woven.code_eq`).  The last of them is a colon exactly when the
last token is one (`Indentation.endsInColon_iff`); but the parentheses are counted with their sign,
so a line that closes a parenthesis of an earlier line is no header for the editor.
-/

namespace LessonScript

open Lexer

namespace Text

/-- The characters that can be seen. -/
def visible (cs : List Char) : List Char :=
  cs.filter (!isSpace ·)

/-- The part of a text in front of its first number sign. -/
def beforeSign (cs : List Char) : List Char :=
  cs.takeWhile (· != '#')

theorem getLast?_trimEnd (cs : List Char) : (trimEnd cs).getLast? = (visible cs).getLast? := by
  rw [trimEnd, List.getLast?_reverse, visible, List.getLast?_filter,
    List.find?_eq_head?_dropWhile_not]
  simp only [Bool.not_not]

theorem visible_append (first second : List Char) :
    visible (first ++ second) = visible first ++ visible second :=
  List.filter_append ..

theorem visible_blanks {cs : List Char} (blank : ∀ c ∈ cs, isBlank c = true ∨ c = '\n')
    (rest : List Char) : visible (beforeSign (cs ++ rest)) = visible (beforeSign rest) := by
  have plain : ∀ c ∈ cs, (c != '#') = true ∧ ¬ (!isSpace c) = true := by
    intro c member
    have known := blank c member
    simp only [isBlank, Bool.or_eq_true, beq_iff_eq] at known
    rcases known with (((rfl | rfl) | rfl) | rfl) | rfl <;> decide
  have none : visible cs = [] := List.filter_eq_nil_iff.mpr fun c member => (plain c member).2
  rw [beforeSign, List.takeWhile_append_of_pos fun c member => (plain c member).1, visible_append,
    none]
  rfl

theorem beforeSign_append (first second : List Char) :
    beforeSign (first ++ second) =
      if '#' ∈ first then beforeSign first else first ++ beforeSign second := by
  split
  · rename_i sign
    rw [beforeSign, List.takeWhile_append, if_neg]
    · rfl
    · intro whole
      have all := (List.takeWhile_prefix (· != '#')).eq_of_length whole
      exact absurd (List.takeWhile_eq_self_iff.mp all '#' sign) (by decide)
  · rename_i plain
    refine List.takeWhile_append_of_pos fun c member => bne_iff_ne.mpr ?_
    rintro rfl
    exact plain member

end Text

/-- The texts of the tokens, one behind the other. -/
def textOf (tokens : List Token) : List Char :=
  tokens.flatMap Token.lexeme

theorem textOf_append (first second : List Token) :
    textOf (first ++ second) = textOf first ++ textOf second :=
  List.flatMap_append

theorem textOf_of_marks {tokens : List Token} (marked : ∀ t ∈ tokens, t.lexeme = []) :
    textOf tokens = [] :=
  List.flatMap_eq_nil_iff.mpr marked

open Text in
/-- On one line the first number sign is in a string or begins a comment, and there is nothing but
blanks between the tokens in front of it. -/
theorem Woven.code_eq {before text : List Char} {tokens : List Token}
    (woven : Woven before text tokens) (oneLine : '\n' ∉ text) :
    visible (beforeSign text) = visible (beforeSign (textOf tokens)) := by
  induction woven with
  | @last before gap filler =>
      obtain ⟨blanks, comment, rfl, blank, ends⟩ := filler.split
      rw [visible_blanks blank]
      rcases ends with rfl | ⟨words, rfl, _⟩ <;> rfl
  | @more before gap after text t ts reads filler placed other covers onward ih =>
      obtain ⟨blanks, comment, rfl, blank, ends⟩ := filler.split
      subst reads
      simp only [List.mem_append, not_or] at oneLine
      rw [List.append_assoc, visible_blanks blank]
      rcases ends with rfl | ⟨words, rfl, endsLine⟩
      · change visible (beforeSign (t.lexeme ++ after)) =
          visible (beforeSign (t.lexeme ++ textOf ts))
        rw [beforeSign_append, beforeSign_append]
        split
        · rfl
        · rw [visible_append, visible_append, ih oneLine.2.2]
      · obtain ⟨lexeme, ended⟩ := List.append_eq_nil_iff.mp (endsLine (by simp_all))
        have later : textOf (t :: ts) = [] := textOf_of_marks (List.forall_mem_cons.mpr
          ⟨lexeme, fun u member => (onward.marks_of_nil ended u member).1⟩)
        rw [later]
        rfl

/-- The tokens of a line are the end of the input only, or marks, words, a newline and marks. -/
inductive LineTokens : List Token → Prop
  | silent {t : Token} (ends : t.kind = .endOfInput) : LineTokens [t]
  | line {marks words rest : List Token} {last newline : Token}
      (opening : ∀ t ∈ marks, t.kind.isMark = true ∧ t.kind ≠ .newline)
      (plain : ∀ t ∈ words ++ [last], t.kind.isMark = false) (ends : newline.kind = .newline)
      (closing : ∀ t ∈ newline :: rest, t.kind.isMark = true) :
      LineTokens (marks ++ (words ++ [last]) ++ newline :: rest)

theorem finalMarks_of_inside {depth : Nat} (inside : 0 < depth) (blocks : List Nat)
    (finish : Position) :
    finalMarks depth blocks finish = .mark .newline finish :: finalMarks 0 blocks finish := by
  rw [finalMarks, finalMarks, if_pos inside, if_neg (Nat.lt_irrefl 0)]
  rfl

theorem LaidLines.lineTokens {finish : Position} {number : Nat} {line : List Char}
    {tokens : List Token} (laid : LaidLines finish 0 [] number [line] tokens) :
    LineTokens tokens := by
  cases laid with
  | silent _ onward =>
      cases onward with
      | done => exact .silent rfl
  | @line _ _ width _ _ _ place first words ending _ _ _ reads ends onward =>
      have opening := openingMarks_isMark 0 [] width place
      have marks : ∀ t ∈ openingMarks 0 [] width place,
          t.kind.isMark = true ∧ t.kind ≠ .newline :=
        fun t member => ⟨(opening t member).2.1, (opening t member).2.2.1⟩
      have plain : ∀ t ∈ first :: words, t.kind.isMark = false :=
        fun t member => (reads t member).plain
      generalize depthFrom 0 (first :: words) = depth at ends onward
      obtain ⟨others, last, parts⟩ :=
        (List.eq_nil_or_concat (first :: words)).resolve_left (List.cons_ne_nil _ _)
      rw [List.concat_eq_append] at parts
      rw [parts] at plain ⊢
      have closing (ended : Position) (blocks : List Nat) :
          ∀ t ∈ Token.mark .newline ended :: finalMarks 0 blocks finish, t.kind.isMark = true :=
        List.forall_mem_cons.mpr ⟨rfl, finalMarks_isMark 0 blocks finish⟩
      cases onward with
      | done =>
          cases ends with
          | parted =>
              rw [List.append_assoc]
              exact .line marks plain rfl (closing _ _)
          | joined inside =>
              rw [List.append_nil, finalMarks_of_inside inside]
              exact .line marks plain rfl (closing _ _)

theorem tokenize_line {source : String} (oneLine : '\n' ∉ source.toList) :
    LineTokens (tokenize source) := by
  have laid := tokenize_lines source
  rw [Text.segments_last oneLine] at laid
  exact laid.lineTokens

/-- The tokens in front of the newline of a line. -/
def beforeNewline (tokens : List Token) : List Token :=
  tokens.takeWhile (·.kind ≠ .newline)

/-- The last token in front of the newline is a colon. -/
def EndsInColon (tokens : List Token) : Prop :=
  (beforeNewline tokens).getLast?.map Token.kind = some (.symbol .colon)

instance (tokens : List Token) : Decidable (EndsInColon tokens) :=
  inferInstanceAs (Decidable (_ = _))

theorem ne_newline_of_plain {kind : TokenKind} (plain : kind.isMark = false) : kind ≠ .newline := by
  rintro rfl
  cases plain

theorem beforeNewline_line {marks words rest : List Token} {newline : Token}
    (opening : ∀ t ∈ marks, t.kind.isMark = true ∧ t.kind ≠ .newline)
    (plain : ∀ t ∈ words, t.kind.isMark = false) (ends : newline.kind = .newline) :
    beforeNewline (marks ++ words ++ newline :: rest) = marks ++ words := by
  have passes : ∀ t ∈ marks ++ words, decide (t.kind ≠ .newline) = true := by
    refine List.forall_mem_append.mpr ⟨fun t member => ?_, fun t member => ?_⟩
    · exact decide_eq_true (opening t member).2
    · exact decide_eq_true (ne_newline_of_plain (plain t member))
  rw [beforeNewline, List.takeWhile_append_of_pos passes,
    List.takeWhile_cons_of_neg (by simp [ends]), List.append_nil]

theorem LineTokens.depth_eq {tokens : List Token} (line : LineTokens tokens) :
    depthFrom 0 (beforeNewline tokens) = depthFrom 0 tokens := by
  cases line with
  | silent ends => simp [beforeNewline, ends]
  | @line _ _ rest _ newline opening plain ends closing =>
      rw [beforeNewline_line opening plain ends, depthFrom_append _ _ (newline :: rest),
        depthFrom_marks _ closing]

theorem HasText.visible_iff {kind : TokenKind} {text : List Char} (hasText : HasText kind text)
    (before : List Char) :
    (Text.visible (before ++ text)).getLast? = some ':' ↔ kind = .symbol .colon := by
  obtain ⟨c, last, seen, colon⟩ := hasText.last
  obtain ⟨front, rfl⟩ := List.getLast?_eq_some_iff.mp last
  have single : Text.visible [c] = [c] := List.filter_cons_of_pos (by rw [seen]; rfl)
  rw [← List.append_assoc, Text.visible_append, single, List.getLast?_concat, Option.some.injEq,
    colon]

theorem LineTokens.colon_iff {tokens : List Token} (line : LineTokens tokens)
    (covers : ∀ t ∈ tokens, t.lexeme = [] ↔ t.kind.isMark = true)
    (texts : ∀ t ∈ tokens, t.kind.isMark = true ∨ HasText t.kind t.lexeme) :
    (Text.visible (textOf tokens)).getLast? = some ':' ↔ EndsInColon tokens := by
  have silent {ts : List Token} (part : ts ⊆ tokens) (marked : ∀ t ∈ ts, t.kind.isMark = true) :
      textOf ts = [] :=
    textOf_of_marks fun t member => (covers t (part member)).mpr (marked t member)
  cases line with
  | @silent t ends =>
      have empty := silent (List.Subset.refl _) (List.forall_mem_singleton.mpr (by rw [ends]; rfl))
      rw [empty]
      simp [Text.visible, EndsInColon, beforeNewline, ends]
  | @line marks words rest last newline opening plain ends closing =>
      have hasText : HasText last.kind last.lexeme := by
        have word := plain last (by simp)
        refine (texts last (by simp)).resolve_left ?_
        rw [word]
        exact Bool.false_ne_true
      have inFront : textOf marks = [] :=
        silent (by simp) fun t member => (opening t member).1
      have behind : textOf (newline :: rest) = [] := silent (List.subset_append_right _ _) closing
      have whole : textOf (marks ++ (words ++ [last]) ++ newline :: rest) =
          textOf words ++ last.lexeme := by
        rw [textOf_append, textOf_append, inFront, behind, textOf_append]
        simp [textOf]
      rw [whole, hasText.visible_iff, EndsInColon, beforeNewline_line opening plain ends]
      simp

namespace Indentation

/-- The leading space of a line, and one level more if the next line is to be deeper. -/
def levelBehind (line : String) (deeper : Prop) [Decidable deeper] : String :=
  String.ofList (Text.leadingSpace line.toList ++ if deeper then [' ', ' ', ' ', ' '] else [])

theorem lastCodeLine?_eq {earlier later : List String} {line : String}
    (code : Text.trim line.toList ≠ []) (blank : ∀ l ∈ later, Text.trim l.toList = []) :
    lastCodeLine? (earlier ++ line :: later) = some line.toList := by
  have none : (later.map String.toList).reverse.find? (fun l => !(Text.trim l).isEmpty) = none := by
    refine List.find?_eq_none.mpr fun l member => ?_
    obtain ⟨text, isLater, rfl⟩ := List.mem_map.mp (List.mem_reverse.mp member)
    simp [blank text isLater]
  rw [lastCodeLine?, List.map_append, List.map_cons, List.reverse_append, List.reverse_cons,
    List.append_assoc, List.find?_append, none, Option.none_or, List.singleton_append]
  exact List.find?_cons_of_pos (by simpa using code)

theorem next_eq {earlier later : List String} {line : String}
    (code : Text.trim line.toList ≠ []) (blank : ∀ l ∈ later, Text.trim l.toList = []) :
    next (earlier ++ line :: later) = levelBehind line (opensBlock line.toList = true) := by
  rw [next, lastCodeLine?_eq code blank, levelBehind]
  dsimp only
  split <;> simp

theorem levelBehind_congr (line : String) {deeper deeper' : Prop} [Decidable deeper]
    [Decidable deeper'] (same : deeper ↔ deeper') :
    levelBehind line deeper = levelBehind line deeper' := by
  simp only [levelBehind, same]

theorem depth_eq_zero_iff {line : String} (oneLine : '\n' ∉ line.toList)
    (closes : ClosesOwn (tokenize line)) :
    depthFrom 0 (beforeNewline (tokenize line)) = 0 ↔
      countOf (.symbol .leftParen) (tokenize line) =
        countOf (.symbol .rightParen) (tokenize line) := by
  rw [(tokenize_line oneLine).depth_eq, ← Nat.cast_inj (R := Int), closes.depthFrom_eq, balance_eq,
    Nat.cast_zero, Int.sub_eq_zero, Nat.cast_inj]

section Line

variable {line : String} (oneLine : '\n' ∉ line.toList) (faultless : Faultless (tokenize line))

include oneLine faultless

/-- A line opens a block for the editor if the texts of its tokens end in a colon in front of the
first number sign, and as many parentheses are opened as closed. -/
theorem opensBlock_iff :
    opensBlock line.toList = true ↔
      (Text.visible (Text.beforeSign (textOf (tokenize line)))).getLast? = some ':' ∧
        countOf (.symbol .leftParen) (tokenize line) =
          countOf (.symbol .rightParen) (tokenize line) := by
  rw [opensBlock, Bool.and_eq_true, beq_iff_eq, beq_iff_eq, Text.getLast?_trimEnd,
    openParens_of_line faultless oneLine, balance_eq, Int.sub_eq_zero, Nat.cast_inj,
    ← (tokenize_woven line).code_eq oneLine]
  rfl

theorem endsInColon_iff (plain : ∀ t ∈ tokenize line, '#' ∉ t.lexeme) :
    (Text.visible (Text.beforeSign (textOf (tokenize line)))).getLast? = some ':' ↔
      EndsInColon (tokenize line) := by
  have whole : Text.beforeSign (textOf (tokenize line)) = textOf (tokenize line) := by
    refine List.takeWhile_eq_self_iff.mpr fun c member => bne_iff_ne.mpr ?_
    rintro rfl
    obtain ⟨t, isToken, sign⟩ := List.mem_flatMap.mp member
    exact plain t isToken sign
  rw [whole]
  exact (tokenize_line oneLine).colon_iff (tokenize_woven line).covers
    (tokenize_hasText faultless)

end Line

/-- The line behind the last line with code is indented as that line is, and one level deeper
behind a block header.  What makes a line without a faulty token a header is the visible text of
its tokens in front of the first number sign, which must end in a colon, and as many closed
parentheses as open ones.  If no string holds a number sign, it is a colon as the last token; and if
besides no parenthesis of an earlier line is closed, the parentheses of the line must not be
open at that colon. -/
theorem next_follows_tokens {earlier later : List String} {line : String}
    (code : Text.trim line.toList ≠ []) (blank : ∀ l ∈ later, Text.trim l.toList = [])
    (oneLine : '\n' ∉ line.toList) (faultless : Faultless (tokenize line)) :
    next (earlier ++ line :: later) = levelBehind line
      ((Text.visible (Text.beforeSign (textOf (tokenize line)))).getLast? = some ':' ∧
        countOf (.symbol .leftParen) (tokenize line) =
          countOf (.symbol .rightParen) (tokenize line)) ∧
    ((∀ t ∈ tokenize line, '#' ∉ t.lexeme) →
      next (earlier ++ line :: later) = levelBehind line
        (EndsInColon (tokenize line) ∧ countOf (.symbol .leftParen) (tokenize line) =
          countOf (.symbol .rightParen) (tokenize line)) ∧
      (ClosesOwn (tokenize line) →
        next (earlier ++ line :: later) = levelBehind line
          (EndsInColon (tokenize line) ∧ depthFrom 0 (beforeNewline (tokenize line)) = 0))) := by
  rw [next_eq code blank]
  have header := opensBlock_iff oneLine faultless
  refine ⟨levelBehind_congr line header, fun plain => ⟨levelBehind_congr line ?_, fun closes =>
    levelBehind_congr line ?_⟩⟩
  · rw [header, endsInColon_iff oneLine faultless plain]
  · rw [header, endsInColon_iff oneLine faultless plain, depth_eq_zero_iff oneLine closes]

theorem next_follows_header :
    next ["x = 1", "  while f(':', x):  # (note", " "] = "      " := by
  have behind := (@next_follows_tokens ["x = 1"] [" "] "  while f(':', x):  # (note"
    (by decide +kernel) (by decide +kernel) (by decide +kernel) (by decide +kernel)).2
  exact ((behind (by decide +kernel)).2 (by decide +kernel)).trans (by decide +kernel)

/-- The number sign of a string hides the colon behind it; and the editor takes a line for no
header that closes the parenthesis of an earlier one. -/
theorem next_misses_headers :
    (Faultless (tokenize "if x == '#':") ∧ EndsInColon (tokenize "if x == '#':") ∧
      depthFrom 0 (beforeNewline (tokenize "if x == '#':")) = 0 ∧ next ["if x == '#':"] = "") ∧
    (Faultless (tokenize "    2):") ∧ EndsInColon (tokenize "    2):") ∧
      depthFrom 0 (beforeNewline (tokenize "    2):")) = 0 ∧
      next ["if f(1,", "    2):"] = "    ") := by
  decide +kernel

end Indentation

end LessonScript
