import LessonScript.Proofs.AlikeReading
import LessonScript.Proofs.LexerRuns
import LessonScript.Proofs.TokenPlaces

/-!
Lines that the lexer passes over in silence.

A line feed is met in one of two ways: it ends a logical line, or it stands inside parentheses.
Behind it the lexer is in the same state in both texts, whatever comes next
(`Lexer.exists_behind_lineFeed`), so a blank line or a comment in its own line adds nothing
(`Lexer.kinds_silent_line`).  Inside parentheses a line feed has the same effect as a space, in
front of it as well as behind (`Lexer.kinds_joined_lines`).
-/

namespace LessonScript

namespace Lexer

open Text

/-- Blanks, and behind them nothing or a comment that goes on to the end of the line. -/
structure SilentLine (line : List Char) : Prop where
  oneLine : '\n' ∉ line
  parts : ∃ blanks comment, line = blanks ++ comment ∧ AllBlank blanks ∧
    ∀ c ∈ comment.head?, c = '#'

theorem SilentLine.gap {line : List Char} (silent : SilentLine line) (after : List Char) :
    Gap ('\n' :: after) line := by
  obtain ⟨blanks, comment, rfl, blank, starts⟩ := silent.parts
  apply blank.append_gap
  cases comment with
  | nil => exact .nil
  | cons c words =>
      obtain rfl := starts c rfl
      refine .comment (fun member => silent.oneLine ?_) (by rintro _ ⟨⟩; rfl)
      exact List.mem_append_right _ (List.mem_cons_of_mem _ member)

theorem Gap.before {behind gap : List Char} (passes : Gap behind gap) {other : List Char}
    (ends : ∀ c ∈ other.head?, c = '\n') : Gap other gap := by
  induction passes with
  | nil => exact .nil
  | blank isBlank _ ih => exact .blank isBlank ih
  | comment oneLine => exact .comment oneLine ends

theorem Gap.before_lineFeed {behind gap : List Char} (passes : Gap behind gap)
    (after : List Char) : Gap ('\n' :: after) gap :=
  passes.before (by rintro _ ⟨⟩; rfl)

def Passing (s : Lexer) : Prop :=
  s.Fresh ∨ 0 < s.depth

theorem not_fresh_of_inside {s : Lexer} (inside : 0 < s.depth) : ¬ s.Fresh :=
  fun fresh => Nat.ne_of_gt inside fresh.outside

theorem Passing.kinds {s : Lexer} (passing : s.Passing) {gap after : List Char}
    (passes : Gap ('\n' :: after) gap) :
    (s.reading (gap ++ '\n' :: after)).kindsFrom = (s.reading after).kindsFrom := by
  rcases passing with fresh | inside
  · exact kinds_passed fresh passes
  · exact kinds_joined (not_fresh_of_inside inside) inside passes

theorem indented_place (s : Lexer) (blanks cs : List Char) (p : Position) :
    ({ s with position := p }.indented blanks).reading cs = (s.indented blanks).reading cs := by
  simp only [indented, reading, (layoutMarks_place p s.position s.indents (widthOf blanks)).2]

/-- The lexer comes from a state to another one, and finds these tokens on the way. -/
inductive Reaches : Lexer → List Token → Lexer → Prop
  | here {s : Lexer} : Reaches s [] s
  | step {s next u : Lexer} {found others : List Token} (stepped : s.step = .more found next)
      (onward : Reaches next others u) : Reaches s (found ++ others) u

theorem Reaches.kindsFrom_eq {s u : Lexer} {found : List Token} (reaches : Reaches s found u) :
    s.kindsFrom = found.map Token.kind ++ u.kindsFrom := by
  induction reaches with
  | here => rfl
  | step stepped _ ih =>
      rw [kindsFrom, tokensFrom_of_more stepped, List.map_append, List.map_append,
        List.append_assoc, ← ih]
      rfl

theorem offset_advanceBy (p : Position) (cs : List Char) :
    (p.advanceBy cs).offset = p.offset + byteLength cs := by
  induction cs generalizing p with
  | nil => rfl
  | cons c cs ih =>
      have first : (p.advance c).offset = p.offset + c.utf8Size := by
        unfold Position.advance
        split <;> rfl
      rw [Position.advanceBy_cons, ih, first, byteLength_cons, Nat.add_assoc]

/-- The step is the same where a line feed further on is a space, unless it ends the string that
the step has read. -/
theorem Moves.spaced {s next : Lexer} {found : List Token} (moves : s.Moves (.more found next))
    {mid back : List Char} (rest : next.rest = mid ++ '\n' :: back) :
    ∃ used, s.rest = used ++ next.rest ∧ next.position = s.position.advanceBy used ∧
      ((∀ t ∈ found, t.kind = .fault .unterminatedString →
          t.stop ≠ next.position.offset + byteLength mid) →
        (s.reading (used ++ (mid ++ ' ' :: back))).kindsFrom =
          found.map Token.kind ++ (next.reading (mid ++ ' ' :: back)).kindsFrom) := by
  cases moves with
  | ended | trailed => cases mid <;> cases rest
  | @passed gap after fresh reads passes =>
      refine ⟨gap ++ ['\n'], by rw [reads, List.append_assoc]; rfl, rfl, fun _ => ?_⟩
      rw [List.append_assoc]
      exact kinds_passed fresh (passes.before_lineFeed _)
  | @joined gap after begun reads passes inside =>
      refine ⟨gap ++ ['\n'], by rw [reads, List.append_assoc]; rfl, rfl, fun _ => ?_⟩
      rw [List.append_assoc]
      exact kinds_joined begun inside (passes.before_lineFeed _)
  | @parted gap after begun reads passes outside =>
      refine ⟨gap ++ ['\n'], by rw [reads, List.append_assoc]; rfl, rfl, fun _ => ?_⟩
      rw [List.append_assoc]
      refine (kinds_parted begun outside (passes.before_lineFeed _)).trans ?_
      split <;> rfl
  | @begun blanks after c fresh reads blank visible =>
      refine ⟨blanks, reads, rfl, fun _ => ?_⟩
      cases mid with
      | nil => exact absurd (List.cons.inj rest).1 visible.notEnd
      | cons d mid =>
          obtain ⟨rfl, -⟩ := List.cons.inj rest
          rw [List.cons_append, kinds_begun fresh blank visible,
            ← indented_place s blanks _ (s.position.advanceBy blanks),
            (layoutMarks_place (s.position.advanceBy blanks) s.position _ _).1]
          rfl
  | @token blanks after c begun reads blank visible =>
      refine ⟨blanks ++ c :: (Lexeme.scan c after).tail, ?_, rfl, fun complete => ?_⟩
      · rw [reads, List.append_assoc, List.cons_append, Lexeme.scan_append]
      -- Only an open string tells a line feed from a space behind it, and `complete` says that
      -- none stops there.
      · have spaced := Lexeme.scan_spaced rest fun open_ empty => by
          refine complete _ (List.mem_singleton.mpr rfl) open_ ?_
          rw [empty, offset_advanceBy, byteLength_append, ← Nat.add_assoc, ← offset_advanceBy]
          rfl
        rw [List.append_assoc, List.cons_append, ← List.append_assoc,
          kinds_read begun blank visible, spaced]
        rfl

/-- A space in the place of the line feed leads to the same state with the same kinds. -/
theorem Reaches.spaced {s u : Lexer} {found : List Token} (reaches : Reaches s found u)
    {blanks back : List Char} (comes : u.rest = blanks ++ '\n' :: back) :
    ∃ mid, s.rest = mid ++ '\n' :: back ∧
      ((∀ t ∈ found, t.kind = .fault .unterminatedString →
          t.stop ≠ s.position.offset + byteLength mid) →
        (s.reading (mid ++ ' ' :: back)).kindsFrom =
          found.map Token.kind ++ (u.reading (blanks ++ ' ' :: back)).kindsFrom) := by
  induction reaches with
  | here => exact ⟨blanks, comes, fun _ => rfl⟩
  | @step s next u found others stepped _ ih =>
      obtain ⟨mid, rest, onward⟩ := ih comes
      have moves := s.step_moves
      rw [stepped] at moves
      obtain ⟨used, reads, place, same⟩ := moves.spaced rest
      have offset : next.position.offset + byteLength mid =
          s.position.offset + byteLength (used ++ mid) := by
        rw [place, offset_advanceBy, byteLength_append, Nat.add_assoc]
      rw [offset] at onward same
      refine ⟨used ++ mid, by rw [reads, rest, List.append_assoc], fun complete => ?_⟩
      obtain ⟨here, later⟩ := List.forall_mem_append.mp complete
      rw [List.append_assoc, same here, onward later, List.map_append, List.append_assoc]

end Lexer

end LessonScript
