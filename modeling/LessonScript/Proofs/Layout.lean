import LessonScript.Proofs.LexerSteps
import LessonScript.Script.StmtReader

/-!
The layout of the tokens of a text.

However a text looks, its tokens end with the end of the input and nothing else does, every
indent has its dedent, and the end of the input is never reached in the middle of a line.  The
tokens still to come are described from the state of the lexer, so the induction is on its
steps.
-/

namespace LessonScript

open TokenReader

/-- The tokens close so many blocks more than they open, end with the end of the input, and do
not end in the middle of a line. -/
inductive LaidOut : Nat → List Token → Prop
  | finish {t : Token} (ends : t.kind = .endOfInput) : LaidOut 0 [t]
  | indent {d : Nat} {t : Token} {ts : List Token} (opens : t.kind = .indent)
      (rest : LaidOut (d + 1) ts) : LaidOut d (t :: ts)
  | dedent {d : Nat} {t : Token} {ts : List Token} (closes : t.kind = .dedent)
      (rest : LaidOut d ts) : LaidOut (d + 1) (t :: ts)
  | newline {d : Nat} {t : Token} {ts : List Token} (ends : t.kind = .newline)
      (rest : LaidOut d ts) : LaidOut d (t :: ts)
  | fault {d : Nat} {f : LexicalFault} {t : Token} {ts : List Token} (complains : t.kind = .fault f)
      (rest : LaidOut d ts) : LaidOut d (t :: ts)
  | word {d : Nat} {t : Token} {ts : List Token} (plain : t.kind.onLine = true)
      (goesOn : kindOf ts ≠ .endOfInput) (rest : LaidOut d ts) : LaidOut d (t :: ts)

theorem LaidOut.behind_word {d : Nat} {t : Token} {ts : List Token} (laidOut : LaidOut d (t :: ts))
    (plain : t.kind.onLine = true) : kindOf ts ≠ .endOfInput ∧ LaidOut d ts := by
  cases laidOut with
  | word _ goesOn rest => exact ⟨goesOn, rest⟩
  | finish reads | indent reads | dedent reads | newline reads | fault reads =>
      rw [reads] at plain
      cases plain

theorem LaidOut.behind_newline {d : Nat} {t : Token} {ts : List Token}
    (laidOut : LaidOut d (t :: ts)) (ends : t.kind = .newline) : LaidOut d ts := by
  cases laidOut with
  | newline _ rest => exact rest
  | word plain =>
      rw [ends] at plain
      cases plain
  | finish reads | indent reads | dedent reads | fault reads =>
      rw [ends] at reads
      cases reads

theorem LaidOut.behind_indent {d : Nat} {t : Token} {ts : List Token}
    (laidOut : LaidOut d (t :: ts)) (opens : t.kind = .indent) : LaidOut (d + 1) ts := by
  cases laidOut with
  | indent _ rest => exact rest
  | word plain =>
      rw [opens] at plain
      cases plain
  | finish reads | newline reads | dedent reads | fault reads =>
      rw [opens] at reads
      cases reads

theorem LaidOut.behind_dedent {d : Nat} {t : Token} {ts : List Token}
    (laidOut : LaidOut (d + 1) (t :: ts)) (closes : t.kind = .dedent) : LaidOut d ts := by
  cases laidOut with
  | dedent _ rest => exact rest
  | word plain =>
      rw [closes] at plain
      cases plain
  | indent reads | newline reads | fault reads =>
      rw [closes] at reads
      cases reads

theorem LaidOut.of_end {d : Nat} {tokens : List Token} (laidOut : LaidOut d tokens)
    (ended : kindOf tokens = .endOfInput) :
    d = 0 ∧ ∃ last, tokens = [last] ∧ last.kind = .endOfInput := by
  cases laidOut with
  | finish ends => exact ⟨rfl, _, rfl, ends⟩
  | word plain =>
      change Token.kind _ = _ at ended
      rw [ended] at plain
      cases plain
  | indent reads | newline reads | dedent reads | fault reads =>
      change Token.kind _ = _ at ended
      rw [ended] at reads
      cases reads

theorem LaidOut.behind_piece {d : Nat} {used rest : List Token} (laidOut : LaidOut d (used ++ rest))
    (plain : ∀ t ∈ used, t.kind.onLine = true) (some : used ≠ []) :
    kindOf rest ≠ .endOfInput ∧ LaidOut d rest := by
  induction used with
  | nil => exact absurd rfl some
  | cons t used ih =>
      obtain ⟨goesOn, behind⟩ := laidOut.behind_word (plain t (List.mem_cons_self ..))
      cases used with
      | nil => exact ⟨goesOn, behind⟩
      | cons next used =>
          exact ih behind (fun t member => plain t (List.mem_cons_of_mem _ member))
            (List.cons_ne_nil _ _)

theorem LaidOut.behind_front {d : Nat} {front rest : List Token}
    (laidOut : LaidOut d (front ++ rest)) (some : rest ≠ []) : ∃ d', LaidOut d' rest := by
  induction front generalizing d with
  | nil => exact ⟨d, laidOut⟩
  | cons t front ih =>
      have goesOn : front ++ rest ≠ [] := List.append_ne_nil_of_right_ne_nil _ some
      rw [List.cons_append] at laidOut
      generalize front ++ rest = tokens at laidOut ih goesOn
      cases laidOut with
      | finish => exact absurd rfl goesOn
      | indent _ inside => exact ih inside
      | dedent _ behind | newline _ behind | fault _ behind | word _ _ behind => exact ih behind

namespace Lexer

/-- What is known of the tokens from a state on: they close the blocks that are open, and end a
line that has been begun. -/
structure LaysOut (s : Lexer) (tokens : List Token) : Prop where
  laidOut : LaidOut s.indents.length tokens
  goesOn : s.lineHasToken = true → kindOf tokens ≠ .endOfInput

theorem laidOut_dedents (position : Position) (widths : List Nat) {d : Nat} {ts : List Token}
    (laidOut : LaidOut d ts) :
    LaidOut (widths.length + d) (widths.map (fun _ => Token.mark .dedent position) ++ ts) := by
  induction widths with
  | nil => simpa using laidOut
  | cons width widths ih =>
      rw [List.length_cons, Nat.add_right_comm]
      exact .dedent rfl ih

theorem closingMarks_laysOut (s : Lexer) : LaysOut s s.closingMarks := by
  have closing : LaidOut s.indents.length
      (s.indents.map (fun _ => Token.mark .dedent s.position) ++
        [Token.mark .endOfInput s.position]) :=
    laidOut_dedents s.position s.indents (.finish rfl)
  unfold closingMarks
  rw [List.append_assoc]
  by_cases begun : s.lineHasToken = true
  · rw [if_pos begun]
    exact ⟨.newline rfl closing, fun _ => nofun⟩
  · rw [if_neg begun]
    exact ⟨closing, fun begun' => absurd begun' begun⟩

theorem layoutMarks_laidOut (position : Position) (indents : List Nat) (width : Nat)
    {tokens : List Token} (laidOut : LaidOut (layoutMarks position indents width).2.length tokens) :
    LaidOut indents.length ((layoutMarks position indents width).1 ++ tokens) := by
  unfold layoutMarks at laidOut ⊢
  split
  · rename_i deeper
    rw [if_pos deeper] at laidOut
    exact .indent rfl laidOut
  · rename_i shallower
    rw [if_neg shallower] at laidOut
    have parts := congrArg List.length
      (List.takeWhile_append_dropWhile (p := (width < ·)) (l := indents))
    rw [List.length_append] at parts
    rw [← parts]
    dsimp only at laidOut ⊢
    split
    · rename_i fits
      rw [if_pos fits] at laidOut
      exact laidOut_dedents position _ laidOut
    · rename_i unmatched
      rw [if_neg unmatched] at laidOut
      rw [List.append_assoc]
      exact laidOut_dedents position _ (.fault rfl laidOut)

theorem layoutMarks_goOn (position : Position) (indents : List Nat) (width : Nat)
    {tokens : List Token} (goesOn : kindOf tokens ≠ .endOfInput) :
    kindOf ((layoutMarks position indents width).1 ++ tokens) ≠ .endOfInput := by
  unfold layoutMarks
  split
  · exact nofun
  · dsimp only
    cases indents.takeWhile (width < ·) with
    | nil =>
        split
        · exact goesOn
        · exact nofun
    | cons closed others =>
        split
        · exact nofun
        · exact nofun

theorem tokensFrom_laysOut (s : Lexer) : LaysOut s s.tokensFrom := by
  induction s using tokensFrom_induction with
  | @closed s _ _ moves =>
      cases moves with
      | closed _ _ =>
          have closing := closingMarks_laysOut
            { s with rest := [], position := s.position.advanceBy s.rest }
          exact ⟨closing.laidOut, closing.goesOn⟩
  | @more s _ _ moves onward =>
      cases moves with
      | ended | passed | trailed | joined => exact ⟨onward.laidOut, onward.goesOn⟩
      | begun =>
          exact ⟨layoutMarks_laidOut _ _ _ onward.laidOut,
            fun begun => layoutMarks_goOn _ _ _ (onward.goesOn begun)⟩
      | parted =>
          by_cases begun : s.lineHasToken = true
          · rw [if_pos begun]
            exact ⟨.newline rfl onward.laidOut, fun _ => nofun⟩
          · rw [if_neg begun]
            exact ⟨onward.laidOut, fun begun' => absurd begun' begun⟩
      | @token _ after c =>
          have goesOn : (Lexeme.scan c after).kind ≠ .endOfInput := fun ended => by
            have other := Lexeme.scan_isMark c after
            rw [ended] at other
            cases other
          refine ⟨?_, fun _ => goesOn⟩
          rcases Lexeme.scan_fromText c after with plain | ⟨f, complains, _⟩
          · exact .word plain (onward.goesOn rfl) onward.laidOut
          · exact .fault complains onward.laidOut

end Lexer

theorem tokenize_laidOut (source : String) : LaidOut 0 (tokenize source) :=
  (Lexer.tokensFrom_laysOut (Lexer.start source.toList)).laidOut

end LessonScript
