import LessonScript.Editor.Session
import LessonScript.Proofs.Acceptance
import LessonScript.Proofs.CodeLines
import LessonScript.Proofs.FaultPlaces
import LessonScript.Proofs.SilentLines

/-!
The script that an editor holds after it has loaded a text.

Cutting a text into lines and joining these again drops carriage returns in front of line feeds and
the last line feed (`Text.loads_joined`).  The two texts lead the lexer through the same states, but
for places in a line: the last line feed of the one is the end of the other, and a carriage return
that is gone was a blank, or stood in a string that is open at the end of its line
(`Lexer.Loading`).  So their tokens are the same but for their columns, or a complaint stands in
the same place of both (`Lexer.tokensFrom_loaded`), and what is compiled is the same but for the
lines of the last two instructions (`Session.load_keeps_program`).
-/

namespace LessonScript

namespace Text

open Lexer

/-- The second text is the first one, perhaps without some carriage returns in front of line feeds
and without a line feed at the end. -/
inductive Loads : List Char → List Char → Prop
  | nil : Loads [] []
  | same (c : Char) {cs ds : List Char} (rest : Loads cs ds) : Loads (c :: cs) (c :: ds)
  | carriageReturn {cs ds : List Char} (rest : Loads ('\n' :: cs) ds) :
      Loads ('\r' :: '\n' :: cs) ds
  | lastLineFeed : Loads ['\n'] []

namespace Loads

theorem refl (cs : List Char) : Loads cs cs := by
  induction cs with
  | nil => exact .nil
  | cons c cs ih => exact .same c ih

theorem eq_of_oneLine {cs ds : List Char} (loads : Loads cs ds) (oneLine : '\n' ∉ cs) :
    ds = cs := by
  induction loads with
  | nil => rfl
  | same c _ ih => rw [ih (mt (List.mem_cons_of_mem c) oneLine)]
  | carriageReturn => exact absurd (List.mem_cons_of_mem _ (List.mem_cons_self ..)) oneLine
  | lastLineFeed => exact absurd (List.mem_cons_self ..) oneLine

/-- Of the front of a line at most a carriage return is dropped, and only at the end of the line. -/
theorem front {front rest ds : List Char} (oneLine : '\n' ∉ front)
    (loads : Loads (front ++ rest) ds) :
    ∃ front' ds', ds = front' ++ ds' ∧ Loads rest ds' ∧
      (front = front' ∨ front = front' ++ ['\r'] ∧ rest.head? = some '\n') := by
  induction front generalizing ds with
  | nil => exact ⟨[], ds, rfl, loads, .inl rfl⟩
  | cons c front ih =>
      obtain ⟨other, others⟩ := not_or.mp (mt List.mem_cons.mpr oneLine)
      rw [List.cons_append] at loads
      generalize whole : front ++ rest = cs at ih loads
      cases loads with
      | same _ loads =>
          obtain ⟨front', ds', rfl, behind, same⟩ := ih others loads
          refine ⟨c :: front', ds', rfl, behind, ?_⟩
          exact same.imp (congrArg _) fun ⟨same, ends⟩ => ⟨congrArg _ same, ends⟩
      | lastLineFeed => exact absurd rfl other
      | carriageReturn loads =>
          cases front with
          | nil =>
              rw [List.nil_append] at whole
              exact ⟨[], ds, rfl, whole ▸ loads, .inr ⟨rfl, by rw [whole]; rfl⟩⟩
          | cons d front =>
              obtain ⟨rfl, -⟩ := List.cons.inj whole
              exact absurd (List.mem_cons_self ..) others

/-- Of a line a carriage return at its end may be dropped, and of the last one the line feed. -/
theorem line {gap after ds : List Char} (oneLine : '\n' ∉ gap)
    (loads : Loads (gap ++ '\n' :: after) ds) :
    ∃ gap', (gap = gap' ∨ gap = gap' ++ ['\r']) ∧
      ((∃ after', ds = gap' ++ '\n' :: after' ∧ Loads after after') ∨ ds = gap' ∧ after = []) := by
  obtain ⟨gap', ds', rfl, behind, same⟩ := loads.front oneLine
  refine ⟨gap', same.imp_right And.left, ?_⟩
  cases behind with
  | same _ behind => exact .inl ⟨_, rfl, behind⟩
  | lastLineFeed => exact .inr ⟨List.append_nil _, rfl⟩

theorem token {blanks after ds : List Char} {c : Char} (blank : AllBlank blanks)
    (visible : Visible c) (loads : Loads (blanks ++ c :: after) ds) :
    ∃ after', ds = blanks ++ c :: after' ∧ Loads after after' := by
  obtain ⟨blanks', ds', rfl, behind, rfl | ⟨_, ends⟩⟩ := loads.front blank.oneLine
  · cases behind with
    | same _ behind => exact ⟨_, rfl, behind⟩
    | lastLineFeed => exact absurd rfl visible.notEnd
    | carriageReturn => cases visible.notBlank
  · exact absurd (Option.some.inj ends) visible.notEnd

end Loads

end Text

open Text Lexer

def TokenKind.Loaded (kind kind' : TokenKind) : Prop :=
  kind = kind' ∨ ∃ f g, kind = .fault f ∧ kind' = .fault g

theorem TokenKind.Loaded.depthAfter {kind kind' : TokenKind} (loaded : kind.Loaded kind')
    {depth depth' : Nat} (same : depth = depth') :
    Lexer.depthAfter depth kind = Lexer.depthAfter depth' kind' := by
  subst same
  rcases loaded with rfl | ⟨f, g, rfl, rfl⟩ <;> rfl

namespace Lexeme

/-- The kinds are the same or complaints, and what is left of the second text is what loading
leaves of what is left of the first. -/
structure Loaded (token token' : Lexeme) : Prop where
  kinds : token.kind.Loaded token'.kind
  rest : Loads token.rest token'.rest

end Lexeme

/-- The kinds are the same or complaints, and tokens on a line stand on lines with the same
number. -/
structure Token.Loaded (t u : Token) : Prop where
  kinds : t.kind.Loaded u.kind
  lines : t.kind.onLine = true → t.position.line = u.position.line

namespace Lexer

theorem onLine_of_isMark {kind : TokenKind} (isMark : kind.isMark = true) :
    kind.onLine = false := by
  cases kind <;> first | rfl | cases isMark

theorem loaded_marks {marks marks' : List Token}
    (isMark : ∀ t ∈ marks, t.kind.isMark = true)
    (kinds : marks.map Token.kind = marks'.map Token.kind) :
    List.Forall₂ Token.Loaded marks marks' := by
  rw [← List.forall₂_eq_eq_eq, List.forall₂_map_left_iff, List.forall₂_map_right_iff] at kinds
  refine ((List.forall₂_and_left _ _).mpr ⟨isMark, kinds⟩).imp fun t u same =>
    ⟨.inl same.2, fun onLine => ?_⟩
  rw [onLine_of_isMark same.1] at onLine
  cases onLine

theorem tokensFrom_ends {s : Lexer} (passes : Gap [] s.rest) :
    ∃ p, s.tokensFrom = closingMarks { s with position := p } := by
  by_cases fresh : s.Fresh
  · have trailed := (Moves.trailed fresh passes).tokensFrom_eq
    have ended := (Moves.ended (s := { s with rest := [], position := s.position.advanceBy s.rest })
      ⟨fresh.1, fresh.2⟩ (List.forall_mem_nil _)).tokensFrom_eq
    rw [trailed, List.nil_append, ended, List.nil_append]
    refine ⟨_, (Moves.closed (fun again => ?_) .nil).tokensFrom_closed⟩
    cases again.atLineStart
  · exact ⟨_, (Moves.closed fresh passes).tokensFrom_closed⟩

theorem loaded_ends {s u : Lexer} (passes : Gap [] s.rest) (passes' : Gap [] u.rest)
    (indents : s.indents = u.indents) (begun : s.lineHasToken = u.lineHasToken) :
    List.Forall₂ Token.Loaded s.tokensFrom u.tokensFrom := by
  obtain ⟨p, ends⟩ := tokensFrom_ends passes
  obtain ⟨q, ends'⟩ := tokensFrom_ends passes'
  rw [ends, ends']
  apply loaded_marks (closingMarks_isMark _)
  rw [kinds_closingMarks, kinds_closingMarks, indents, begun]

theorem Gap.dropCarriageReturn {behind gap gap' : List Char} (passes : Gap behind gap)
    (dropped : gap = gap' ∨ gap = gap' ++ ['\r']) : Gap behind gap' := by
  rcases dropped with rfl | rfl
  · exact passes
  · induction gap' with
    | nil => exact .nil
    | cons c gap' ih =>
        cases passes with
        | blank isBlank rest => exact .blank isBlank (ih rest)
        | comment oneLine ends =>
            exact .comment (fun member => oneLine (List.mem_append_left _ member)) ends

/-- The lexer reads a text, and the other one what loading leaves of it, in the same state.  The
lines have the same numbers as long as there is something to read. -/
structure Loading (s u : Lexer) : Prop where
  rest : Loads s.rest u.rest
  indents : s.indents = u.indents
  depth : s.depth = u.depth
  atLineStart : s.atLineStart = u.atLineStart
  lineHasToken : s.lineHasToken = u.lineHasToken
  line : u.rest ≠ [] → s.position.line = u.position.line

theorem Loading.fresh {s u : Lexer} (loading : Loading s u) (fresh : s.Fresh) : u.Fresh :=
  ⟨loading.atLineStart ▸ fresh.1, loading.depth ▸ fresh.2⟩

theorem Loading.begun {s u : Lexer} (loading : Loading s u) (begun : ¬ s.Fresh) : ¬ u.Fresh :=
  begun_of_begun begun loading.atLineStart.symm loading.depth.symm

theorem Loading.ends {s u : Lexer} (loading : Loading s u) (passes : Gap [] s.rest) :
    List.Forall₂ Token.Loaded s.tokensFrom u.tokensFrom := by
  have same := loading.rest.eq_of_oneLine passes.oneLine
  exact loaded_ends passes (same ▸ passes) loading.indents loading.lineHasToken

theorem Loading.token {s u : Lexer} {blanks after : List Char} {c : Char} (loading : Loading s u)
    (reads : s.rest = blanks ++ c :: after) (blank : AllBlank blanks) (visible : Visible c) :
    ∃ after', u.rest = blanks ++ c :: after' ∧ Loads after after' ∧
      (s.position.advanceBy blanks).line = (u.position.advanceBy blanks).line := by
  have rest := loading.rest
  rw [reads] at rest
  obtain ⟨after', reads', behind⟩ := rest.token blank visible
  refine ⟨after', reads', behind, ?_⟩
  rw [Position.advanceBy_line _ blank.oneLine, Position.advanceBy_line _ blank.oneLine,
    loading.line (by simp [reads'])]

end Lexer

/-- Both texts are refused, or both compile: the programs have the same constants and names, and
the same instructions on the same lines, up to the two that return nothing at the end. -/
inductive CompileAlike : Except Error Program → Except Error Program → Prop
  | refused (error error' : Error) : CompileAlike (.error error) (.error error')
  | compiled {p q : Program} (constants : p.constants = q.constants) (names : p.names = q.names)
      {body : List Instruction} {index line line' : Nat}
      (nothing : p.constants[index]? = some .nothing)
      (code : p.code.toList = body ++ [⟨.loadConst index, line⟩, ⟨.returnValue, line⟩])
      (code' : q.code.toList = body ++ [⟨.loadConst index, line'⟩, ⟨.returnValue, line'⟩]) :
      CompileAlike (.ok p) (.ok q)

theorem CodeAlike.eq {code other : List Instruction} (alike : CodeAlike Eq code other) :
    code = other := by
  rw [← List.forall₂_eq_eq_eq]
  refine alike.imp fun i j same => ?_
  cases i
  cases j
  rw [Instruction.mk.injEq]
  exact ⟨same.op, same.lines⟩

theorem CompileAlike.ofScript {script script' : Script}
    (alike : Stmt.Alike Eq script.body script'.body) :
    CompileAlike (.ok (.ofScript script)) (.ok (.ofScript script')) := by
  have same := Program.ofScript_alike alike
  have code' := Program.code_ofScript script'
  rw [← alike.tables, ← (alike.code _ _ _).eq] at code'
  exact .compiled same.constants same.names
    ((Program.ofScript_uses script).constant (Tables.ofStmt_knows script.body).2)
    (Program.code_ofScript script) code'

end LessonScript
