import LessonScript.Proofs.Layout
import LessonScript.Proofs.TokenLines
import Mathlib.Algebra.Ring.Nat

/-!
The layout tokens of a text follow its indentation.

`tokenize_layout` says of every text that indents and dedents are balanced, that newlines,
indents and dedents stand outside parentheses, that newlines stand behind tokens, and which marks
stand in front of the first token of each line.  Which blocks are open at a line is read off the
lines in front of it (`blocksBehind`).

The lexer counts widths with 32 bits, so its width of a line is that of the rule (`columnsOf`) up to
that many columns (`widthOf_eq`).  Half a gigabyte of tabs has no width for it
(`wide_margin_opens_no_block`).
-/

namespace LessonScript

/-! ### Indents and dedents -/

/-- The number of tokens of the kind. -/
def countOf (kind : TokenKind) (tokens : List Token) : Nat :=
  tokens.countP (·.kind = kind)

/-- No part of the tokens from the start closes more blocks than are open, so many of them being
open at the start, and all of the tokens close them all. -/
structure Balanced (d : Nat) (tokens : List Token) : Prop where
  prefixes : ∀ front, front <+: tokens → countOf .dedent front ≤ d + countOf .indent front
  total : countOf .dedent tokens = d + countOf .indent tokens

theorem countOf_cons (kind : TokenKind) (t : Token) (tokens : List Token) :
    countOf kind (t :: tokens) = countOf kind tokens + if t.kind = kind then 1 else 0 := by
  unfold countOf
  rw [List.countP_cons]
  simp only [decide_eq_true_eq]

theorem Balanced.cons {d e : Nat} {t : Token} {ts : List Token} (balanced : Balanced e ts)
    (step : d + (if t.kind = .indent then 1 else 0) = e + if t.kind = .dedent then 1 else 0) :
    Balanced d (t :: ts) := by
  constructor
  · intro front isPrefix
    rcases List.prefix_cons_iff.mp isPrefix with rfl | ⟨rest, rfl, others⟩
    · exact Nat.zero_le _
    · have bound := balanced.prefixes rest others
      rw [countOf_cons, countOf_cons]
      omega
  · have total := balanced.total
    rw [countOf_cons, countOf_cons]
    omega

theorem LaidOut.balanced {d : Nat} {tokens : List Token} (laidOut : LaidOut d tokens) :
    Balanced d tokens := by
  induction laidOut with
  | finish ends =>
      have none : Balanced 0 [] := ⟨fun front isPrefix => by
        rw [List.prefix_nil.mp isPrefix]; exact Nat.le_refl _, rfl⟩
      exact none.cons (by rw [ends]; rfl)
  | indent opens _ ih => exact ih.cons (by rw [opens]; rfl)
  | dedent closes _ ih => exact ih.cons (by rw [closes]; rfl)
  | newline ends _ ih => exact ih.cons (by rw [ends]; rfl)
  | fault complains _ ih => exact ih.cons (by simp [complains])
  | @word d t ts plain _ _ ih =>
      have other : t.kind ≠ .indent ∧ t.kind ≠ .dedent := by
        constructor <;> intro reads <;> rw [reads] at plain <;> cases plain
      exact ih.cons (by rw [if_neg other.1, if_neg other.2])

/-! ### Marks and parentheses -/

theorem append_eq_append_cons {α : Type} {first second front back : List α} {a : α}
    (split : first ++ second = front ++ a :: back) :
    (∃ rest, first = front ++ a :: rest) ∨
      ∃ rest, front = first ++ rest ∧ second = rest ++ a :: back := by
  rcases List.append_eq_append_iff.mp split with ⟨rest, inFront, inSecond⟩ | ⟨rest, inFirst, behind⟩
  · exact .inr ⟨rest, inFront, inSecond⟩
  · cases rest with
    | nil => exact .inr ⟨[], by simpa using inFirst.symm, by simpa using behind.symm⟩
    | cons b rest =>
        obtain ⟨rfl, _⟩ := List.cons.inj behind
        exact .inl ⟨rest, inFirst⟩

/-- The token belongs to the marks that close a text. -/
structure Closes (finish : Position) (t : Token) : Prop where
  kind : t.kind = .newline ∨ t.kind = .dedent ∨ t.kind = .endOfInput
  placed : t.position = finish

theorem finalMarks_close (depth : Nat) (blocks : List Nat) (finish : Position) :
    ∀ t ∈ finalMarks depth blocks finish, Closes finish t := by
  intro t member
  unfold finalMarks at member
  simp only [List.mem_append, List.mem_singleton, List.mem_map] at member
  rcases member with (ended | ⟨_, _, rfl⟩) | rfl
  · split at ended
    · obtain rfl := List.mem_singleton.mp ended
      exact ⟨.inl rfl, rfl⟩
    · cases ended
  · exact ⟨.inr (.inl rfl), rfl⟩
  · exact ⟨.inr (.inr rfl), rfl⟩

theorem finalMarks_isMark (depth : Nat) (blocks : List Nat) (finish : Position) :
    ∀ t ∈ finalMarks depth blocks finish, t.kind.isMark = true := by
  intro t member
  rcases (finalMarks_close depth blocks finish t member).kind with kind | kind | kind <;>
    rw [kind] <;> rfl

theorem marksFor_isMark {blocks : List Nat} {width : Nat} {kind : TokenKind}
    (member : kind ∈ marksFor blocks width) : kind.isMark = true ∧ kind ≠ .newline := by
  unfold marksFor at member
  split at member
  · cases List.mem_singleton.mp member
    exact ⟨rfl, nofun⟩
  · rcases List.mem_append.mp member with closed | unmatched
    · cases List.eq_of_mem_replicate closed
      exact ⟨rfl, nofun⟩
    · split at unmatched
      · cases unmatched
      · cases List.mem_singleton.mp unmatched
        exact ⟨rfl, nofun⟩

theorem openingMarks_isMark (depth : Nat) (blocks : List Nat) (width : Nat) (place : Position) :
    ∀ t ∈ openingMarks depth blocks width place,
      depth = 0 ∧ t.kind.isMark = true ∧ t.kind ≠ .newline ∧ t.position = place := by
  intro t member
  unfold openingMarks at member
  split at member
  · rename_i outside
    obtain ⟨kind, known, rfl⟩ := List.mem_map.mp member
    obtain ⟨isMark, other⟩ := marksFor_isMark known
    exact ⟨outside, isMark, other, rfl⟩
  · cases member

section Line

variable {depth behind width number : Nat} {blocks : List Nat} {place : Position} {first : Token}
  {words ending tokens front back : List Token} {t : Token}

theorem depthFrom_line (ends : LineEnd number behind ending) :
    depthFrom depth (openingMarks depth blocks width place ++ first :: words ++ ending) =
      depthFrom depth (first :: words) := by
  rw [depthFrom_append, depthFrom_append,
    depthFrom_marks depth fun t member => (openingMarks_isMark _ _ _ _ t member).2.1]
  cases ends <;> rfl

theorem line_placed (placed : place.line = number) (reads : ∀ t ∈ first :: words, WordOf number t)
    (ends : LineEnd number behind ending) :
    ∀ t ∈ openingMarks depth blocks width place ++ first :: words ++ ending,
      t.position.line = number := by
  intro t member
  rcases List.mem_append.mp member with inLine | ended
  · rcases List.mem_append.mp inLine with opens | word
    · rw [(openingMarks_isMark _ _ _ _ t opens).2.2.2, placed]
    · exact (reads t word).placed
  · cases ends with
    | parted placed => rwa [List.mem_singleton.mp ended]
    | joined => cases ended

theorem line_cases (ends : LineEnd number behind ending)
    (split : openingMarks depth blocks width place ++ first :: words ++ ending ++ tokens =
      front ++ t :: back) :
    (∃ rest, openingMarks depth blocks width place = front ++ t :: rest) ∨
      t ∈ first :: words ∨
      (front = openingMarks depth blocks width place ++ first :: words ∧ behind = 0) ∨
      ∃ rest, front = openingMarks depth blocks width place ++ first :: words ++ ending ++ rest ∧
        tokens = rest ++ t :: back := by
  rcases append_eq_append_cons split with ⟨_, inLine⟩ | behind
  · rcases append_eq_append_cons inLine with ⟨_, inWords⟩ | ⟨rest, inFront, inEnding⟩
    · rcases append_eq_append_cons inWords with inMarks | ⟨rest, _, inRest⟩
      · exact .inl inMarks
      · exact .inr (.inl (inRest ▸ List.mem_append_right _ (List.mem_cons_self ..)))
    · cases ends with
      | joined => cases rest <;> cases inEnding
      | parted =>
          cases rest with
          | nil => exact .inr (.inr (.inl ⟨by rw [inFront, List.append_nil], rfl⟩))
          | cons u rest => cases rest <;> cases (List.cons.inj inEnding).2
  · exact .inr (.inr (.inr behind))

end Line

variable {finish : Position} {depth number : Nat} {blocks : List Nat} {lines : List (List Char)}
  {tokens : List Token}

/-- Newlines, indents and dedents stand outside parentheses, except for those that close the
text. -/
theorem LaidLines.outside (laid : LaidLines finish depth blocks number lines tokens)
    {front back : List Token} {t : Token} (split : tokens = front ++ t :: back)
    (marks : t.kind = .newline ∨ t.kind = .indent ∨ t.kind = .dedent) :
    depthFrom depth front = 0 ∨ ∀ u ∈ t :: back, Closes finish u := by
  induction laid generalizing front with
  | @done depth blocks =>
      refine .inr fun u member => finalMarks_close depth blocks finish u ?_
      rw [split]
      exact List.mem_append_right _ member
  | silent _ _ ih => exact ih split
  | @line depth _ width blocks _ _ place _ _ _ _ _ _ reads ends _ ih =>
      have opening := openingMarks_isMark depth blocks width place
      rcases line_cases ends split with ⟨rest, opens⟩ | word | ⟨rfl, outside⟩ | ⟨rest, rfl, behind⟩
      · rw [opens] at opening
        have outside := (opening t (List.mem_append_right _ (List.mem_cons_self ..))).1
        rw [depthFrom_marks _ fun u member => (opening u (List.mem_append_left _ member)).2.1]
        exact .inl outside
      · have plain := (reads t word).plain
        rcases marks with kind | kind | kind <;> rw [kind] at plain <;> cases plain
      · rw [depthFrom_append, depthFrom_marks _ fun u member => (opening u member).2.1]
        exact .inl outside
      · rw [depthFrom_append, depthFrom_line ends]
        exact ih behind

theorem finalMarks_newline {front back : List Token} {t : Token} (ends : t.kind = .newline)
    (split : finalMarks depth blocks finish = front ++ t :: back) : 0 < depth ∧ front = [] := by
  unfold finalMarks at split
  rw [List.append_assoc] at split
  rcases append_eq_append_cons split with ⟨rest, first⟩ | ⟨rest, _, last⟩
  · split at first
    · cases front with
      | nil => exact ⟨‹_›, rfl⟩
      | cons u front => cases front <;> cases (List.cons.inj first).2
    · cases front <;> cases first
  · have member : t ∈ blocks.map (fun _ => Token.mark .dedent finish) ++
        [Token.mark .endOfInput finish] := last ▸ List.mem_append_right _ (List.mem_cons_self ..)
    rcases List.mem_append.mp member with closed | ended
    · obtain ⟨_, _, rfl⟩ := List.mem_map.mp closed
      cases ends
    · cases List.mem_singleton.mp ended
      cases ends

theorem LaidLines.newline_behind (laid : LaidLines finish depth blocks number lines tokens)
    {above : List Token} (inside : 0 < depth → ∃ u ∈ above.getLast?, u.kind.isMark = false)
    {front back : List Token} {t : Token} (split : tokens = front ++ t :: back)
    (ends : t.kind = .newline) : ∃ u ∈ (above ++ front).getLast?, u.kind.isMark = false := by
  induction laid generalizing above front with
  | done =>
      obtain ⟨open', rfl⟩ := finalMarks_newline ends split
      rw [List.append_nil]
      exact inside open'
  | silent _ _ ih => exact ih inside split
  | @line depth _ width blocks _ _ place first words _ _ _ _ reads ended _ ih =>
      have last (marks : List Token) :
          ∃ u ∈ (marks ++ first :: words).getLast?, u.kind.isMark = false :=
        ⟨_, by rw [List.getLast?_append_cons]; exact List.getLast?_eq_some_getLast _,
          (reads _ (List.getLast_mem (List.cons_ne_nil _ _))).plain⟩
      rcases line_cases ended split with ⟨rest, opens⟩ | word | ⟨rfl, _⟩ | ⟨rest, rfl, behind⟩
      · have opening := openingMarks_isMark depth blocks width place
        rw [opens] at opening
        exact absurd ends (opening t (List.mem_append_right _ (List.mem_cons_self ..))).2.2.1
      · have plain := (reads t word).plain
        rw [ends] at plain
        cases plain
      · rw [← List.append_assoc]
        exact last _
      · rw [← List.append_assoc]
        refine ih (fun open' => ?_) behind
        rw [ended.eq_nil open', List.append_nil, ← List.append_assoc]
        exact last _

/-! ### The marks of a line -/

/-- The tokens on the lines above the line of the given number. -/
def tokensAbove (tokens : List Token) (number : Nat) : List Token :=
  tokens.filter (·.position.line < number)

/-- A blank adds one column, and a tab goes to the next multiple of eight; carriage returns and form
feeds have no width. -/
def addColumns (columns : Nat) (c : Char) : Nat :=
  if c = ' ' then columns + 1
  else if c = '\t' then (columns / 8 + 1) * 8
  else columns

def columnsOf (blanks : List Char) : Nat :=
  blanks.foldl addColumns 0

/-- The number of columns in front of the first token of a line, if it has one. -/
def margin? (line : List Char) : Option Nat :=
  (indentation? line).map fun _ => columnsOf (line.takeWhile Lexer.isBlank)

/-- The widths of the blocks open behind some lines, the first of which has the given number, where
`width?` measures a line.  Only lines that begin outside parentheses open and close blocks. -/
def blocksBehind (width? : List Char → Option Nat) (tokens : List Token) :
    Nat → List Nat → List (List Char) → List Nat
  | _, blocks, [] => blocks
  | number, blocks, line :: lines =>
    blocksBehind width? tokens (number + 1)
      (if depthFrom 0 (tokensAbove tokens number) = 0 then
        (width? line).elim blocks (settle blocks)
      else blocks)
      lines

section Blocks

variable {width? width'? : List Char → Option Nat}

theorem blocksBehind_nested (tokens : List Token) (nested : Nested blocks) :
    Nested (blocksBehind width? tokens number blocks lines) := by
  induction lines generalizing number blocks with
  | nil => exact nested
  | cons line lines ih =>
      refine ih ?_
      split
      · cases width? line with
        | none => exact nested
        | some width => exact nested.settle width
      · exact nested

theorem blocksBehind_congr (tokens : List Token) (number : Nat) (blocks : List Nat)
    (same : ∀ line ∈ lines, width? line = width'? line) :
    blocksBehind width? tokens number blocks lines =
      blocksBehind width'? tokens number blocks lines := by
  induction lines generalizing number blocks with
  | nil => rfl
  | cons line lines ih =>
      obtain ⟨here, below⟩ := List.forall_mem_cons.mp same
      rw [blocksBehind, blocksBehind, here]
      exact ih _ _ below

end Blocks

theorem LaidLines.number_le (laid : LaidLines finish depth blocks number lines tokens) :
    ∀ t ∈ tokens, number ≤ t.position.line + if lines = [] then 1 else 0 := by
  induction laid with
  | @done depth blocks =>
      intro t member
      rw [(finalMarks_close depth blocks finish t member).placed, if_pos rfl]
  | silent _ _ ih =>
      intro t member
      have bound := ih t member
      rw [if_neg (List.cons_ne_nil _ _)]
      split at bound <;> omega
  | line _ placed reads ends _ ih =>
      intro t member
      rw [if_neg (List.cons_ne_nil _ _)]
      rcases List.mem_append.mp member with inLine | behind
      · exact Nat.le_of_eq (line_placed placed reads ends t inLine).symm
      · have bound := ih t behind
        split at bound <;> omega

theorem LaidLines.notAbove {line : List Char}
    (laid : LaidLines finish depth blocks number (line :: lines) tokens) :
    ∀ t ∈ tokens, number ≤ t.position.line := by
  intro t member
  have bound := laid.number_le t member
  rwa [if_neg (List.cons_ne_nil _ _)] at bound

theorem tokensAbove_append {above : List Token} (isAbove : ∀ t ∈ above, t.position.line < number)
    (notAbove : ∀ t ∈ tokens, number ≤ t.position.line) :
    tokensAbove (above ++ tokens) number = above := by
  have first : above.filter (·.position.line < number) = above :=
    List.filter_eq_self.mpr fun t member => by simpa using isAbove t member
  have second : tokens.filter (·.position.line < number) = [] :=
    List.filter_eq_nil_iff.mpr fun t member => by simpa using notAbove t member
  rw [tokensAbove, List.filter_append, first, second, List.append_nil]

theorem LaidLines.split {earlier later : List (List Char)} {line : List Char}
    (laid : LaidLines finish depth blocks number (earlier ++ line :: later) tokens)
    (above : List Token) (isAbove : ∀ t ∈ above, t.position.line < number)
    (depths : depthFrom 0 above = depth) :
    ∃ front onward, tokens = front ++ onward ∧
      (∀ t ∈ above ++ front, t.position.line < number + earlier.length) ∧
      LaidLines finish (depthFrom depth front)
        (blocksBehind indentation? (above ++ tokens) number blocks earlier)
        (number + earlier.length)
        (line :: later) onward := by
  induction earlier generalizing above depth number blocks tokens with
  | nil => exact ⟨[], tokens, rfl, by simpa using isAbove, laid⟩
  | cons first earlier ih =>
      have goesOn : number + 1 + earlier.length = number + (first :: earlier).length := by
        rw [List.length_cons]
        omega
      rw [List.cons_append] at laid
      rw [blocksBehind, tokensAbove_append isAbove laid.notAbove, depths, ← goesOn]
      cases laid with
      | silent blank onward =>
          rw [blank, Option.elim_none, ite_self]
          exact ih onward above (fun t member => Nat.lt_succ_of_lt (isAbove t member)) depths
      | @line _ _ width _ _ _ place word words ending tokens indented placed reads ends onward =>
          have onLine : ∀ t ∈ openingMarks depth blocks width place ++ word :: words ++ ending,
              t.position.line = number := line_placed placed reads ends
          have inLine : depthFrom depth
              (openingMarks depth blocks width place ++ word :: words ++ ending) = _ :=
            depthFrom_line ends
          generalize openingMarks depth blocks width place ++ word :: words ++ ending = chunk
            at onLine inLine ⊢
          rw [← inLine] at onward
          obtain ⟨front, below, rfl, areAbove, laid⟩ := ih onward (above ++ chunk)
            (fun t member => (List.mem_append.mp member).elim
              (fun isUp => Nat.lt_succ_of_lt (isAbove t isUp))
              (fun isHere => Nat.lt_succ_of_le (Nat.le_of_eq (onLine t isHere))))
            (by rw [depthFrom_append, depths])
          refine ⟨chunk ++ front, below, (List.append_assoc ..).symm, ?_, ?_⟩
          · rwa [← List.append_assoc]
          · rw [depthFrom_append, indented, Option.elim_some, ← List.append_assoc]
            exact laid

/-- The marks of a line of the text, in terms of the lines above it, where `width?` measures a
line. -/
structure LineMarked (width? : List Char → Option Nat) (tokens : List Token) (finish : Position)
    (earlier : List (List Char)) (line : List Char) (later : List (List Char)) : Prop where
  /-- The open blocks lie in each other. -/
  nested : Nested (blocksBehind width? tokens 1 [] earlier)
  /-- Outside parentheses a line with a token begins with the marks that the widths of the open
  blocks ask for, and goes on with a word. -/
  opens : depthFrom 0 (tokensAbove tokens (earlier.length + 1)) = 0 →
    ∀ width, width? line = some width →
      ∃ marks first back,
        tokens = tokensAbove tokens (earlier.length + 1) ++ marks ++ first :: back ∧
        marks.map Token.kind = marksFor (blocksBehind width? tokens 1 [] earlier) width ∧
        first.kind.isMark = false ∧
        ∀ t ∈ first :: marks, t.position.line = earlier.length + 1
  /-- A line without a token adds nothing; the marks that close the text may stand on it. -/
  silent : width? line = none → ∀ t ∈ tokens, t.position.line = earlier.length + 1 →
    later = [] ∧ Closes finish t

theorem LineMarked.congr {width? width'? : List Char → Option Nat} {earlier later : List (List Char)}
    {line : List Char} (marked : LineMarked width? tokens finish earlier line later)
    (same : ∀ l ∈ earlier ++ [line], width? l = width'? l) :
    LineMarked width'? tokens finish earlier line later := by
  have blocks := blocksBehind_congr tokens 1 [] fun l member =>
    same l (List.mem_append_left _ member)
  have width := same line (List.mem_append_right _ (List.mem_singleton_self line))
  obtain ⟨nested, opens, silent⟩ := marked
  rw [blocks] at nested
  rw [width, blocks] at opens
  rw [width] at silent
  exact ⟨nested, opens, silent⟩

theorem LaidLines.closes (laid : LaidLines finish depth blocks number [] tokens) :
    ∀ t ∈ tokens, Closes finish t := by
  cases laid with
  | done => exact finalMarks_close depth blocks finish

theorem LaidLines.marked {earlier later : List (List Char)} {line : List Char}
    (laid : LaidLines finish 0 [] 1 (earlier ++ line :: later) tokens) :
    LineMarked indentation? tokens finish earlier line later := by
  obtain ⟨front, onward, rfl, isAbove, here⟩ := laid.split [] (List.forall_mem_nil _) rfl
  rw [List.nil_append] at isAbove here
  rw [Nat.add_comm] at isAbove here
  have above := tokensAbove_append isAbove here.notAbove
  refine ⟨blocksBehind_nested _ .nil, fun outside width indented => ?_, fun blank t member on => ?_⟩
  · rw [above] at outside ⊢
    rw [outside] at here
    generalize blocksBehind indentation? (front ++ onward) 1 [] earlier = blocks at here ⊢
    generalize earlier.length + 1 = number at here ⊢
    cases here with
    | silent blank => cases blank.symm.trans indented
    | @line _ _ _ _ _ _ place first words ending behind indented' placed reads _ _ =>
        obtain rfl := Option.some.inj (indented.symm.trans indented')
        refine ⟨openingMarks 0 blocks width place, first, words ++ ending ++ behind, ?_, ?_,
          (reads first (List.mem_cons_self ..)).plain, fun t member => ?_⟩
        · simp only [List.append_assoc, List.cons_append]
        · rw [openingMarks, if_pos rfl, List.map_map]
          exact List.map_id _
        · rcases List.mem_cons.mp member with rfl | opens
          · exact (reads t (List.mem_cons_self ..)).placed
          · rw [(openingMarks_isMark _ _ _ _ t opens).2.2.2, placed]
  · have below : t ∈ onward := by
      rcases List.mem_append.mp member with isUp | below
      · exact absurd on (Nat.ne_of_lt (isAbove t isUp))
      · exact below
    generalize blocksBehind indentation? (front ++ onward) 1 [] earlier = blocks at here
    generalize earlier.length + 1 = number at here on
    cases here with
    | line indented => cases blank.symm.trans indented
    | silent _ behind =>
        cases later with
        | nil => exact ⟨rfl, behind.closes t below⟩
        | cons next later =>
            have isBelow := behind.notAbove t below
            omega

/-! ### Widths of 32 bits -/

theorem widen_toNat {width : UInt32} {columns : Nat} (same : width.toNat = columns % 2 ^ 32)
    (c : Char) : (Lexer.widen width c).toNat = addColumns columns c % 2 ^ 32 := by
  unfold Lexer.widen addColumns
  split_ifs
  · simp [same]
  · -- Eight divides the number of widths.
    simp only [UInt32.toNat_mul, UInt32.toNat_add, UInt32.toNat_div, same]
    change (columns % 2 ^ 32 / 8 + 1) % 2 ^ 32 * 8 % 2 ^ 32 = _
    omega
  · exact same

theorem widthOf_eq (blanks : List Char) : Lexer.widthOf blanks = columnsOf blanks % 2 ^ 32 := by
  have counted (width : UInt32) (columns : Nat) (same : width.toNat = columns % 2 ^ 32) :
      (blanks.foldl Lexer.widen width).toNat = blanks.foldl addColumns columns % 2 ^ 32 := by
    induction blanks generalizing width columns with
    | nil => exact same
    | cons c blanks ih => exact ih _ _ (widen_toNat same c)
  exact counted 0 0 rfl

/-- The blanks in front of a line and their columns can be counted with 32 bits, the blanks with a
sign. -/
structure Measurable (line : List Char) : Prop where
  blanks : (line.takeWhile Lexer.isBlank).length < 2 ^ 31
  columns : columnsOf (line.takeWhile Lexer.isBlank) < 2 ^ 32

theorem Measurable.indentation?_eq {line : List Char} (measurable : Measurable line) :
    indentation? line = margin? line := by
  unfold margin? indentation?
  split
  · rfl
  · split_ifs
    · rfl
    · rw [widthOf_eq, Nat.mod_eq_of_lt measurable.columns]
      rfl

/-- The layout of every text is what its indentation asks for, where that can be counted. -/
theorem tokenize_layout (source : String) :
    Balanced 0 (tokenize source) ∧
      (∀ front t back, tokenize source = front ++ t :: back →
        t.kind = .newline ∨ t.kind = .indent ∨ t.kind = .dedent →
          depthFrom 0 front = 0 ∨ ∀ u ∈ t :: back, Closes (.behind source.toList) u) ∧
      (∀ front t back, tokenize source = front ++ t :: back → t.kind = .newline →
        ∃ u ∈ front.getLast?, u.kind.isMark = false) ∧
      ∀ earlier line later, Text.segments source.toList = earlier ++ line :: later →
        (∀ l ∈ earlier ++ [line], Measurable l) →
          LineMarked margin? (tokenize source) (.behind source.toList) earlier line later := by
  have laid := tokenize_lines source
  refine ⟨(tokenize_laidOut source).balanced, fun front t back => laid.outside,
    fun front t back split ends => ?_, fun earlier line later lines measurable => ?_⟩
  · rw [← List.nil_append front]
    exact laid.newline_behind (fun inside => absurd inside (Nat.lt_irrefl 0)) split ends
  · rw [lines] at laid
    exact laid.marked.congr fun l member => (measurable l member).indentation?_eq

theorem tokenize_layout_tab :
    (∀ l ∈ ["if x:".toList] ++ ["\ty".toList], Measurable l) ∧
      LineMarked margin? (tokenize "if x:\n\ty") (.behind "if x:\n\ty".toList) ["if x:".toList]
        "\ty".toList [] := by
  have measurable : ∀ l ∈ ["if x:".toList] ++ ["\ty".toList], Measurable l :=
    List.forall_mem_cons.mpr ⟨⟨by decide, by decide⟩,
      List.forall_mem_singleton.mpr ⟨by decide, by decide⟩⟩
  exact ⟨measurable, (tokenize_layout "if x:\n\ty").2.2.2 _ _ _ (by decide) measurable⟩

/-! ### A margin that is too wide -/

/-- A line with a name behind so many tabs. -/
def tabbedLine (tabs : Nat) : List Char :=
  List.replicate tabs '\t' ++ ['x']

theorem cut_tabbedLine (tabs : Nat) :
    (tabbedLine tabs).takeWhile Lexer.isBlank = List.replicate tabs '\t' ∧
      (tabbedLine tabs).dropWhile Lexer.isBlank = ['x'] := by
  induction tabs with
  | zero => exact ⟨rfl, rfl⟩
  | succ tabs ih =>
      obtain ⟨front, back⟩ := ih
      constructor
      · exact congrArg ('\t' :: ·) front
      · exact back

theorem columnsOf_tabs (tabs : Nat) : columnsOf (List.replicate tabs '\t') = 8 * tabs := by
  have counted (columns : Nat) :
      (List.replicate tabs '\t').foldl addColumns (8 * columns) = 8 * (columns + tabs) := by
    induction tabs generalizing columns with
    | zero => rfl
    | succ tabs ih =>
        have next : addColumns (8 * columns) '\t' = 8 * (columns + 1) := by
          change (8 * columns / 8 + 1) * 8 = _
          omega
        rw [List.replicate_succ, List.foldl_cons, next, ih]
        omega
  rw [columnsOf, counted 0, Nat.zero_add]

theorem indentation?_tabbedLine (tabs : Nat) :
    indentation? (tabbedLine tabs) = some (8 * tabs % 2 ^ 32) ∧
      margin? (tabbedLine tabs) = some (8 * tabs) := by
  obtain ⟨front, back⟩ := cut_tabbedLine tabs
  have measured : indentation? (tabbedLine tabs) = some (8 * tabs % 2 ^ 32) := by
    rw [indentation?, back, front, widthOf_eq, columnsOf_tabs]
    rfl
  refine ⟨measured, ?_⟩
  rw [margin?, measured, front, columnsOf_tabs]
  rfl

theorem segments_tabbedLine (tabs : Nat) : Text.segments (tabbedLine tabs) = [tabbedLine tabs] := by
  apply Text.segments_last
  intro member
  rcases List.mem_append.mp member with tab | name
  · cases List.eq_of_mem_replicate tab
  · cases List.mem_singleton.mp name

theorem tokenize_tabbedLine {tabs : Nat} (wide : 0 < tabs) (uncounted : 8 * tabs % 2 ^ 32 = 0) :
    (∃ first ∈ (tokenize (.ofList (tabbedLine tabs))).head?, first.kind.isMark = false) ∧
      ¬ LineMarked margin? (tokenize (.ofList (tabbedLine tabs))) (.behind (tabbedLine tabs)) []
        (tabbedLine tabs) [] := by
  obtain ⟨measured, margin⟩ := indentation?_tabbedLine tabs
  have laid := tokenize_lines (.ofList (tabbedLine tabs))
  rw [String.toList_ofList, segments_tabbedLine] at laid
  generalize tokenize (.ofList (tabbedLine tabs)) = tokens at laid ⊢
  rw [uncounted] at measured
  have above : tokensAbove tokens 1 = [] := tokensAbove_append (List.forall_mem_nil _) laid.notAbove
  have outside : depthFrom 0 (tokensAbove tokens 1) = 0 := congrArg (depthFrom 0) above
  have marked : LineMarked indentation? tokens _ [] (tabbedLine tabs) [] := laid.marked
  obtain ⟨_, first, back, split, noMarks, word, _⟩ := marked.opens outside 0 measured
  obtain rfl := List.map_eq_nil_iff.mp noMarks
  rw [List.append_nil] at split
  change tokens = tokensAbove tokens 1 ++ first :: back at split
  rw [above, List.nil_append] at split
  refine ⟨⟨first, by rw [split]; rfl, word⟩, fun claimed => ?_⟩
  obtain ⟨marks, first', back', split', opens, _⟩ := claimed.opens outside (8 * tabs) margin
  have indents : marks.map Token.kind = [.indent] :=
    opens.trans (if_pos (Nat.mul_pos (Nat.zero_lt_succ 7) wide))
  obtain ⟨mark, rfl, kind⟩ := List.map_eq_singleton_iff.mp indents
  change tokens = tokensAbove tokens 1 ++ [mark] ++ first' :: back' at split'
  rw [above, split] at split'
  obtain ⟨rfl, _⟩ := List.cons.inj split'
  rw [kind] at word
  cases word

/-- Half a gigabyte of tabs is a margin that opens a block, and the lexer sees none. -/
theorem wide_margin_opens_no_block :
    Text.segments (tabbedLine (2 ^ 29)) = [tabbedLine (2 ^ 29)] ∧
      margin? (tabbedLine (2 ^ 29)) = some (2 ^ 32) ∧
      (∃ first ∈ (tokenize (.ofList (tabbedLine (2 ^ 29)))).head?, first.kind.isMark = false) ∧
      ¬ LineMarked margin? (tokenize (.ofList (tabbedLine (2 ^ 29))))
        (.behind (tabbedLine (2 ^ 29))) [] (tabbedLine (2 ^ 29)) [] := by
  have layout := tokenize_tabbedLine (show 0 < 2 ^ 29 by decide) (by decide)
  exact ⟨segments_tabbedLine _, (indentation?_tabbedLine _).2.trans (by decide), layout⟩

end LessonScript
