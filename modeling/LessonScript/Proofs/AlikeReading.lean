import LessonScript.Proofs.PartingTokens
import LessonScript.Proofs.RefusalPlaces
import LessonScript.Proofs.TokensLeft
import LessonScript.Proofs.TreeLikeness

/-!
Reading tokens of the same kinds.

Where two lists of tokens have the same kinds, a reader gives parts that are alike, or has the same
complaint; the lines in the code of these parts are the lines of tokens in the same place of the two
lists.  This is proved reader by reader.  A line that is handed on is the line of a token that
stands on it and is no layout mark.

The lists may part at one place.  If the readers that can come to stand there agree on what comes at
the place, all readers agree on the lists (`readTopLevel_agrees`).  Without such a place there is
nothing to be shown first (`Script.ofTokens?_agrees`).
-/

namespace LessonScript

open TokenReader ExprReader StmtReader

/-- Results that stand in the relation, and what is left of the tokens. -/
structure ReadAlike {α : Type} (after : List Token → List Token → Prop) (alike : α → α → Prop)
    (x y : α × List Token) : Prop where
  parts : alike x.1 y.1
  rest : after x.2 y.2

/-- The readers agree on tokens in the first relation, and leave tokens in the second one. -/
def Agrees {α : Type} (lax : Prop) (before after : List Token → List Token → Prop)
    (alike : α → α → Prop) (reader reader' : TokenReader α) : Prop :=
  ∀ ts us, before ts us → Agree lax (ReadAlike after alike) (reader ts) (reader' us)

/-- The readers of expressions agree, unless they begin at the place where the tokens part. -/
abbrev Parting.ExprAgrees (P : Parting) (reader reader' : TokenReader Expr) : Prop :=
  Agrees P.lax P.Near P.Near (Expr.Alike P.lines) reader reader'

structure Parting.ExprBridged (P : Parting) : Prop where
  allowed : ∀ {ts us}, P.parts .expression ts us → P.lax
  expression : ∀ {n n'}, P.Levels n n' →
    Agrees P.lax (P.parts .expression) P.Near (Expr.Alike P.lines) (innerAt P.bound n).expression
      (innerAt P.bound n').expression
  argument : ∀ {ts us}, P.parts .expression ts us →
    kindOf ts ≠ .symbol .rightParen ∧ kindOf us ≠ .symbol .rightParen

variable {P : Parting}

/-! ### Expressions -/

structure InnerAgrees (P : Parting) (inner inner' : Inner) : Prop where
  expression : Agrees P.lax (P.At .expression) P.Near (Expr.Alike P.lines) inner.expression
    inner'.expression
  complement : P.ExprAgrees inner.complement inner'.complement
  negation : P.ExprAgrees inner.negation inner'.negation

section Expressions

variable {inner inner' : Inner}

theorem readPrimary_agrees (agrees : InnerAgrees P inner inner') :
    P.ExprAgrees (readPrimary inner) (readPrimary inner') := by
  intro ts us near
  have literal (l : Literal) {kind : TokenKind} (next : kindOf ts = kind)
      (onLine : kind.onLine = true) (opens : kind.opening? = none) :
      Agree P.lax (ReadAlike P.Near (Expr.Alike P.lines)) (.ok (.literal (lineOf ts) l, ts.tail))
        (.ok (.literal (lineOf us) l, us.tail)) :=
    .ok ⟨.literal (near.lineOf next onLine) l, near.tail next opens⟩
  have refused : Agree P.lax (ReadAlike P.Near (Expr.Alike P.lines))
      (unexpected "an expression" ts) (unexpected "an expression" us) := .unexpected _ near
  unfold readPrimary
  dsimp only
  rw [← near.kindOf]
  cases next : kindOf ts with
  | int | float | str => exact literal _ next rfl rfl
  | keyword word =>
      cases word with
      | true | false | nothing => exact literal _ next rfl rfl
      | _ => exact refused
  | name id =>
      dsimp only
      split
      · exact .refuse _ _ _
      · exact .ok ⟨.name (near.lineOf next rfl) id, near.tail next rfl⟩
  | symbol s =>
      cases s with
      | leftParen =>
          refine .bind (agrees.expression _ _ (near.behind next rfl)) ?_
          rintro ⟨e, rest⟩ ⟨e', rest'⟩ ⟨same, near⟩
          refine .expect _ near fun next => ?_
          exact .ok ⟨same, near.tail next rfl⟩
      | _ => exact refused
  | _ => exact refused

theorem Parting.ExprBridged.closing (bridged : P.ExprBridged) {ts us : List Token}
    (place : P.At .expression ts us) :
    kindOf ts = .symbol .rightParen ↔ kindOf us = .symbol .rightParen := by
  rcases place with near | parts
  · rw [near.kindOf]
  · exact iff_of_false (bridged.argument parts).1 (bridged.argument parts).2

theorem readArguments_agrees (bridged : P.ExprBridged) (agrees : InnerAgrees P inner inner')
    (k : Nat) :
    Agrees P.lax (P.At .expression) (P.At .expression) (AllAlike P.lines) (readArguments inner k)
      (readArguments inner' k) := by
  induction k with
  | zero => exact fun ts us place => .ok ⟨.nil, place⟩
  | succ k ih =>
      intro ts us place
      unfold readArguments
      by_cases closing : kindOf ts = .symbol .rightParen
      · rw [if_pos closing, if_pos ((bridged.closing place).mp closing)]
        exact .ok ⟨.nil, place⟩
      · rw [if_neg closing, if_neg (mt (bridged.closing place).mpr closing)]
        refine .bind (agrees.expression _ _ place) ?_
        rintro ⟨arg, rest⟩ ⟨arg', rest'⟩ ⟨same, near⟩
        dsimp only at near ⊢
        rw [← near.kindOf]
        split
        · rename_i next
          refine .bind (ih _ _ (near.behind next rfl)) ?_
          rintro ⟨args, rest⟩ ⟨args', rest'⟩ ⟨others, place⟩
          exact .ok ⟨.cons same others, place⟩
        · exact .ok ⟨.cons same .nil, .inl near⟩

theorem readCalls_agrees (bridged : P.ExprBridged) (agrees : InnerAgrees P inner inner')
    (arguments k : Nat) {callee callee' : Expr} (callees : Expr.Alike P.lines callee callee')
    {ts us : List Token} (near : P.Near ts us) :
    Agree P.lax (ReadAlike P.Near (Expr.Alike P.lines)) (readCalls inner arguments k callee ts)
      (readCalls inner' arguments k callee' us) := by
  induction k generalizing callee callee' ts us with
  | zero => exact .ok ⟨callees, near⟩
  | succ k ih =>
      unfold readCalls
      rw [← near.kindOf]
      split
      · rename_i next
        refine .bind (readArguments_agrees bridged agrees arguments _ _
          (near.behind next rfl)) ?_
        rintro ⟨args, rest⟩ ⟨args', rest'⟩ ⟨all, others | parts⟩
        · refine .expect _ others fun closing => ?_
          exact ih (.call (near.lineOf next rfl) callees all) (others.tail closing rfl)
        · exact .refused_expect (bridged.allowed parts) (bridged.argument parts).1
      · exact .ok ⟨callees, near⟩

theorem readCall_agrees (bridged : P.ExprBridged) (agrees : InnerAgrees P inner inner') :
    P.ExprAgrees (readCall P.bound inner) (readCall P.bound inner') := by
  intro ts us near
  refine .bind (readPrimary_agrees agrees _ _ near) ?_
  rintro ⟨callee, rest⟩ ⟨callee', rest'⟩ ⟨callees, near⟩
  exact readCalls_agrees bridged agrees P.bound P.bound callees near

theorem readUnary_agrees (bridged : P.ExprBridged) (agrees : InnerAgrees P inner inner') :
    P.ExprAgrees (readUnary P.bound inner) (readUnary P.bound inner') := by
  intro ts us near
  unfold readUnary
  rw [← near.kindOf]
  split
  · rename_i next
    refine .bind (agrees.negation _ _ (near.tail next rfl)) ?_
    rintro ⟨operand, rest⟩ ⟨operand', rest'⟩ ⟨operands, others⟩
    exact .ok ⟨.negate (near.lineOf next rfl) operands, others⟩
  · exact readCall_agrees bridged agrees _ _ near

/-- An operator stands on its line, and what comes behind it is no whole expression. -/
structure Stands {α : Type} (op? : TokenKind → Option α) : Prop where
  onLine : ∀ {kind op}, op? kind = some op → kind.onLine = true
  opens : ∀ {kind op}, op? kind = some op → kind.opening? = none

theorem readLeftChain_agrees {op? : TokenKind → Option ArithOp}
    {operand operand' : TokenReader Expr} (agrees : P.ExprAgrees operand operand')
    (stands : Stands op?) (k : Nat) {left left' : Expr} (lefts : Expr.Alike P.lines left left')
    {ts us : List Token} (near : P.Near ts us) :
    Agree P.lax (ReadAlike P.Near (Expr.Alike P.lines)) (readLeftChain op? operand k left ts)
      (readLeftChain op? operand' k left' us) := by
  induction k generalizing left left' ts us with
  | zero => exact .ok ⟨lefts, near⟩
  | succ k ih =>
      unfold readLeftChain
      rw [← near.kindOf]
      cases found : op? (kindOf ts) with
      | some op =>
          have behind := near.tail rfl (stands.opens found)
          refine .bind (agrees _ _ behind) ?_
          rintro ⟨right, rest⟩ ⟨right', rest'⟩ ⟨rights, others⟩
          exact ih (.arith (near.lineOf rfl (stands.onLine found)) op lefts rights) others
      | none => exact .ok ⟨lefts, near⟩

theorem productOp?_stands : Stands productOp? := by
  constructor
  all_goals
    intro kind op found
    rw [(productOp?_eq found).1]
    cases op <;> rfl

theorem sumOp?_stands : Stands sumOp? := by
  constructor
  all_goals
    intro kind op found
    rw [(sumOp?_eq found).1]
    cases op <;> rfl

theorem compareOp?_stands : Stands compareOp? := by
  constructor
  all_goals
    intro kind op found
    rw [compareOp?_eq found]
    cases op <;> rfl

theorem readProduct_agrees (bridged : P.ExprBridged) (agrees : InnerAgrees P inner inner') :
    P.ExprAgrees (readProduct P.bound inner) (readProduct P.bound inner') := by
  intro ts us near
  have factors := readUnary_agrees bridged agrees
  refine .bind (factors _ _ near) ?_
  rintro ⟨left, rest⟩ ⟨left', rest'⟩ ⟨lefts, near⟩
  exact readLeftChain_agrees factors productOp?_stands P.bound lefts near

theorem readSum_agrees (bridged : P.ExprBridged) (agrees : InnerAgrees P inner inner') :
    P.ExprAgrees (readSum P.bound inner) (readSum P.bound inner') := by
  intro ts us near
  have terms := readProduct_agrees bridged agrees
  refine .bind (terms _ _ near) ?_
  rintro ⟨left, rest⟩ ⟨left', rest'⟩ ⟨lefts, near⟩
  exact readLeftChain_agrees terms sumOp?_stands P.bound lefts near

theorem readComparison_agrees (bridged : P.ExprBridged)
    (agrees : InnerAgrees P inner inner') :
    P.ExprAgrees (readComparison P.bound inner) (readComparison P.bound inner') := by
  intro ts us near
  have sums := readSum_agrees bridged agrees
  refine .bind (sums _ _ near) ?_
  rintro ⟨left, rest⟩ ⟨left', rest'⟩ ⟨lefts, near⟩
  dsimp only at lefts near ⊢
  rw [← near.kindOf]
  cases found : compareOp? (kindOf rest) with
  | none => exact .ok ⟨lefts, near⟩
  | some op =>
      have behind := near.tail rfl (compareOp?_stands.opens found)
      refine .bind (sums _ _ behind) ?_
      rintro ⟨right, after⟩ ⟨right', after'⟩ ⟨rights, others⟩
      dsimp only at others ⊢
      rw [← others.kindOf]
      split
      · exact .refuse _ _ _
      · exact .ok ⟨.compare (near.lineOf rfl (compareOp?_stands.onLine found)) op lefts rights,
          others⟩

theorem readNot_agrees (bridged : P.ExprBridged) (agrees : InnerAgrees P inner inner') :
    P.ExprAgrees (readNot P.bound inner) (readNot P.bound inner') := by
  intro ts us near
  unfold readNot
  rw [← near.kindOf]
  split
  · rename_i next
    refine .bind (agrees.complement _ _ (near.tail next rfl)) ?_
    rintro ⟨operand, rest⟩ ⟨operand', rest'⟩ ⟨operands, others⟩
    exact .ok ⟨.complement (near.lineOf next rfl) operands, others⟩
  · exact readComparison_agrees bridged agrees _ _ near

/-- A connective: it stands on its line, and puts parts that are alike together in the same way. -/
structure JoinsAlike (R : Nat → Nat → Prop) (word : Keyword) (join : Nat → Expr → Expr → Expr) :
    Prop where
  onLine : (TokenKind.keyword word).onLine = true
  opens : (TokenKind.keyword word).opening? = none
  alike : ∀ {line line' l l' r r'}, R line line' → Expr.Alike R l l' → Expr.Alike R r r' →
    Expr.Alike R (join line l r) (join line' l' r')

theorem readRightChain_agrees {word : Keyword} {join : Nat → Expr → Expr → Expr}
    {operand operand' : TokenReader Expr} (agrees : P.ExprAgrees operand operand')
    (joins : JoinsAlike P.lines word join) (k : Nat) :
    P.ExprAgrees (readRightChain word join operand k) (readRightChain word join operand' k) := by
  induction k with
  | zero => exact agrees
  | succ k ih =>
      intro ts us near
      refine .bind (agrees _ _ near) ?_
      rintro ⟨left, rest⟩ ⟨left', rest'⟩ ⟨lefts, near⟩
      dsimp only at lefts near ⊢
      rw [← near.kindOf]
      split
      · rename_i next
        refine .bind (ih _ _ (near.tail next joins.opens)) ?_
        rintro ⟨right, after⟩ ⟨right', after'⟩ ⟨rights, others⟩
        exact .ok ⟨joins.alike (near.lineOf next joins.onLine) lefts rights, others⟩
      · exact .ok ⟨lefts, near⟩

theorem readOr_agrees (bridged : P.ExprBridged) (agrees : InnerAgrees P inner inner') :
    P.ExprAgrees (readOr P.bound inner) (readOr P.bound inner') :=
  readRightChain_agrees (readRightChain_agrees (readNot_agrees bridged agrees)
    ⟨rfl, rfl, .both⟩ P.bound) ⟨rfl, rfl, .either⟩ P.bound

end Expressions

theorem innerAt_agrees (bridged : P.ExprBridged) {n n' : Nat}
    (levels : P.Levels n n') : InnerAgrees P (innerAt P.bound n) (innerAt P.bound n') := by
  have deep {before : List Token → List Token → Prop} :
      Agrees P.lax before P.Near (Expr.Alike P.lines) (refuse .tooDeep) (refuse .tooDeep) :=
    fun _ _ _ => .refuse _ _ _
  have refused {before : List Token → List Token → Prop} (allowed : P.lax)
      (reader : TokenReader Expr) :
      Agrees P.lax before P.Near (Expr.Alike P.lines) (refuse .tooDeep) reader :=
    fun _ _ _ => .refused allowed
  have tooDeep {before : List Token → List Token → Prop} (allowed : P.lax)
      (reader : TokenReader Expr) :
      Agrees P.lax before P.Near (Expr.Alike P.lines) reader (refuse .tooDeep) :=
    fun _ _ _ => .tooDeep allowed rfl
  induction n generalizing n' with
  | zero =>
      rcases levels with allowed | rfl
      · exact ⟨refused allowed _, refused allowed _, refused allowed _⟩
      · exact ⟨deep, deep, deep⟩
  | succ n ih =>
      cases n' with
      | zero =>
          rcases levels with allowed | same
          · exact ⟨tooDeep allowed _, tooDeep allowed _, tooDeep allowed _⟩
          · cases same
      | succ n' =>
          have inside := ih (levels.imp_right Nat.succ.inj)
          refine ⟨?_, readNot_agrees bridged inside, readUnary_agrees bridged inside⟩
          rintro ts us (near | parts)
          · exact readOr_agrees bridged inside _ _ near
          · exact bridged.expression levels _ _ parts

/-! ### Statements -/

theorem expression_starts {bound n : Nat} {tokens rest : List Token} {e : Expr}
    (read : (innerAt bound n).expression tokens = .ok (e, rest)) :
    (kindOf tokens).onLine = true := by
  obtain ⟨used, rfl, e', spells⟩ := (innerAt_finds bound n).expression _ _ _ read
  obtain ⟨first, others, rfl⟩ := List.exists_cons_of_ne_nil spells.ne_nil
  exact TokenKind.onLine_of_inExpression (spells.inExpression first (List.mem_cons_self ..))

inductive BranchesAlike (R : Nat → Nat → Prop) :
    Option (Nat × Stmt) → Option (Nat × Stmt) → Prop
  | none : BranchesAlike R none none
  | some {line line' : Nat} {body body' : Stmt} (lines : R line line')
      (bodies : Stmt.Alike R body body') : BranchesAlike R (some (line, body)) (some (line', body'))

theorem BranchesAlike.conditional {R : Nat → Nat → Prop} {branches branches' : Option (Nat × Stmt)}
    (alike : BranchesAlike R branches branches') {line line' : Nat} {test test' : Expr}
    {body body' : Stmt} (lines : R line line') (tests : Expr.Alike R test test')
    (bodies : Stmt.Alike R body body') :
    Stmt.Alike R (conditional line test body branches)
      (conditional line' test' body' branches') := by
  cases alike with
  | none => exact .ifThen lines tests bodies
  | some elseLines others => exact .ifElse lines tests bodies elseLines others

namespace Parting

abbrev StmtAgrees (P : Parting) (before : List Token → List Token → Prop)
    (reader reader' : TokenReader Stmt) : Prop :=
  Agrees P.lax before (P.At .statement) (Stmt.Alike P.lines) reader reader'

/-- The readers of statements agree where the tokens part.  No block begins or ends at that place,
and neither does the input. -/
structure StmtBridged (P : Parting) : Prop where
  statement : ∀ {n n' inLoop inLoop'}, P.Levels n n' → P.Loops inLoop inLoop' →
    P.StmtAgrees (P.parts .statement)
      (readStatement P.bound (innerAt P.bound n).expression (suiteAt P.bound n) inLoop)
      (readStatement P.bound (innerAt P.bound n').expression (suiteAt P.bound n') inLoop')
  block : ∀ {n n' inLoop inLoop'}, P.Levels n n' → P.Loops inLoop inLoop' →
    P.StmtAgrees (P.parts .suite)
      (readBlock P.bound (innerAt P.bound n).expression (suiteAt P.bound n) inLoop)
      (readBlock P.bound (innerAt P.bound n').expression (suiteAt P.bound n') inLoop')
  branches : ∀ {n n' inLoop inLoop' k ts us}, P.Levels n n' → P.Loops inLoop inLoop' →
    P.parts .statement ts us → ts.length ≤ k ∧ us.length ≤ k →
    Agree P.lax (ReadAlike (P.At .statement) (BranchesAlike P.lines))
      (readBranches (innerAt P.bound n).expression (suiteAt P.bound n inLoop) k ts)
      (readBranches (innerAt P.bound n').expression (suiteAt P.bound n' inLoop') k us)
  short : ∀ {ts us}, P.parts .statement ts us → ts.length ≤ P.bound ∧ us.length ≤ P.bound
  goesOn : ∀ {ts us}, P.parts .statement ts us →
    (kindOf ts).boundsBlock = false ∧ (kindOf us).boundsBlock = false

theorem ExprBridged.of_none {P : Parting} (none : ∀ {ts us}, ¬ P.parts .expression ts us) :
    P.ExprBridged :=
  ⟨fun parts => (none parts).elim, fun _ _ _ parts => (none parts).elim,
    fun parts => (none parts).elim⟩

theorem StmtBridged.of_suite {P : Parting} (none : ∀ {ts us}, ¬ P.parts .statement ts us)
    (block : ∀ {n n' inLoop inLoop'}, P.Levels n n' → P.Loops inLoop inLoop' →
      P.StmtAgrees (P.parts .suite)
        (readBlock P.bound (innerAt P.bound n).expression (suiteAt P.bound n) inLoop)
        (readBlock P.bound (innerAt P.bound n').expression (suiteAt P.bound n') inLoop')) :
    P.StmtBridged :=
  ⟨fun _ _ _ _ parts => (none parts).elim, block, fun _ _ parts => (none parts).elim,
    fun parts => (none parts).elim, fun parts => (none parts).elim⟩

theorem StmtBridged.of_none {P : Parting} (noSuite : ∀ {ts us}, ¬ P.parts .suite ts us)
    (none : ∀ {ts us}, ¬ P.parts .statement ts us) : P.StmtBridged :=
  .of_suite none fun _ _ _ _ parts => (noSuite parts).elim

/-- The readers of expressions and of statements agree where the tokens part. -/
structure Bridged (P : Parting) : Prop where
  expressions : P.ExprBridged
  statements : P.StmtBridged

theorem StmtBridged.ne_mark {P : Parting} (bridged : P.StmtBridged) {ts us : List Token}
    (parts : P.parts .statement ts us) {kind : TokenKind} (mark : kind.boundsBlock = true) :
    kindOf ts ≠ kind ∧ kindOf us ≠ kind := by
  have other {tokens : List Token} (goesOn : (kindOf tokens).boundsBlock = false) :
      kindOf tokens ≠ kind := by
    rintro rfl
    cases mark.symm.trans goesOn
  exact ⟨other (bridged.goesOn parts).1, other (bridged.goesOn parts).2⟩

theorem StmtBridged.marks {P : Parting} (bridged : P.StmtBridged)
    {ts us : List Token} (place : P.At .statement ts us) {kind : TokenKind}
    (mark : kind.boundsBlock = true) : kindOf ts = kind ↔ kindOf us = kind := by
  rcases place with near | parts
  · rw [near.kindOf]
  · exact iff_of_false (bridged.ne_mark parts mark).1 (bridged.ne_mark parts mark).2

theorem At.short {P : Parting} {ts us : List Token} (place : P.At .statement ts us)
    (bridged : P.StmtBridged) : ts.length ≤ P.bound ∧ us.length ≤ P.bound :=
  place.elim Near.short bridged.short

theorem At.behindIndent {P : Parting} {ts us : List Token}
    (place : P.At .statement ts us) (bridged : P.StmtBridged) (next : kindOf ts = .indent) :
    P.At .statement ts.tail us.tail := by
  rcases place with near | parts
  · exact near.behind next rfl
  · exact absurd next (bridged.ne_mark parts rfl).1

theorem At.behindBlock {P : Parting} {ts us : List Token}
    (place : P.At .statement ts us) (bridged : P.StmtBridged) :
    P.At .statement (if kindOf ts = .dedent then ts.tail else ts)
      (if kindOf us = .dedent then us.tail else us) := by
  rcases place with near | parts
  · rw [← near.kindOf]
    split
    · rename_i next
      exact near.behind next rfl
    · exact .inl near
  · have noDedent := bridged.ne_mark parts (rfl : TokenKind.dedent.boundsBlock = true)
    rw [if_neg noDedent.1, if_neg noDedent.2]
    exact .inr parts

end Parting

section Statements

variable {n n' : Nat} {inLoop inLoop' : Bool}

theorem assignment?_near {ts us : List Token} (near : P.Near ts us) :
    assignment? ts = assignment? us := by
  rw [assignment?, assignment?, near.kindOf]

theorem readLineEnd_agrees {β : Type} {related : β → β → Prop} {ts us : List Token}
    (near : P.Near ts us) {f g : List Token → Except Refusal β}
    (onward : ∀ rest rest', P.At .statement rest rest' → Agree P.lax related (f rest) (g rest')) :
    Agree P.lax related (readLineEnd ts >>= f) (readLineEnd us >>= g) := by
  have ended : Agree P.lax (P.At .statement) (readLineEnd ts) (readLineEnd us) := by
    unfold readLineEnd
    rw [← near.kindOf]
    split
    · rename_i next
      exact .ok (near.behind next rfl)
    · exact .ok (.inl near)
    · exact .unexpected _ near
  exact ended.bind onward

section Simple

variable (inner : InnerAgrees P (innerAt P.bound n) (innerAt P.bound n'))

include inner

theorem readAssignment_agrees (id : String) {symbol : Symbol} {line line' : Nat}
    (lines : P.lines line line') {ts us : List Token} (near : P.Near ts us)
    (next : assignment? ts = some symbol) :
    Agree P.lax (ReadAlike P.Near (Stmt.Alike P.lines))
      (readAssignment (innerAt P.bound n).expression line id symbol ts)
      (readAssignment (innerAt P.bound n').expression line' id symbol us) := by
  obtain ⟨sign, assigns⟩ := kindOf_of_assignment? next
  have opens : (TokenKind.symbol symbol).opening? = some .expression := by
    cases symbol <;> first | rfl | cases assigns
  have behind := near.behind sign opens
  refine .bind (inner.expression _ _ behind) ?_
  rintro ⟨e, rest⟩ ⟨e', rest'⟩ ⟨values, others⟩
  dsimp only
  split
  · exact .ok ⟨.assign lines id values, others⟩
  · exact .ok ⟨.augment lines id _ (near.lineOf sign rfl) values, others⟩

theorem readEvaluation_agrees :
    Agrees P.lax P.Near P.Near (Stmt.Alike P.lines)
      (readEvaluation (innerAt P.bound n).expression)
      (readEvaluation (innerAt P.bound n').expression) := by
  intro ts us near
  refine .bind_read (inner.expression _ _ (.inl near)) ?_
  rintro ⟨e, rest⟩ ⟨e', rest'⟩ read _ ⟨values, others⟩
  dsimp only at others ⊢
  rw [← assignment?_near others]
  split
  · exact .refuse _ _ _
  · exact .ok ⟨.evaluate (near.lineOf rfl (expression_starts read)) values, others⟩

omit inner in
theorem jump_agrees (loops : P.Loops inLoop inLoop') {s s' : Stmt} (alike : Stmt.Alike P.lines s s')
    (complaint : Complaint) {ts us : List Token} (behind : P.Near ts.tail us.tail) :
    Agree P.lax (ReadAlike P.Near (Stmt.Alike P.lines))
      (if inLoop then .ok (s, ts.tail) else refuse complaint ts)
      (if inLoop' then .ok (s', us.tail) else refuse complaint us) := by
  cases inLoop with
  | true =>
      have inside : inLoop' = true := loops.elim And.right Eq.symm
      rw [if_pos rfl, if_pos inside]
      exact .ok ⟨alike, behind⟩
  | false =>
      rcases loops with ⟨mixed, rfl⟩ | rfl
      · exact .refused (P.lax_of_mixed mixed)
      · exact .refuse _ _ _

theorem readSimple_agrees (loops : P.Loops inLoop inLoop') :
    Agrees P.lax P.Near P.Near (Stmt.Alike P.lines)
      (readSimple (innerAt P.bound n).expression inLoop)
      (readSimple (innerAt P.bound n').expression inLoop') := by
  intro ts us near
  have evaluates := readEvaluation_agrees inner _ _ near
  unfold readSimple
  rw [← near.kindOf]
  cases next : kindOf ts with
  | keyword word =>
      cases word with
      | pass => exact .ok ⟨.skip, near.tail next rfl⟩
      | «break» =>
          exact jump_agrees loops (.breakLoop (near.lineOf next rfl)) _ (near.tail next rfl)
      | «continue» =>
          exact jump_agrees loops (.continueLoop (near.lineOf next rfl)) _ (near.tail next rfl)
      | _ => exact evaluates
  | name id =>
      have behind := near.tail next rfl
      dsimp only
      rw [← assignment?_near behind]
      cases comes : assignment? ts.tail with
      | some symbol =>
          dsimp only
          split
          · exact .refuse _ _ _
          · exact readAssignment_agrees inner id (near.lineOf next rfl) behind comes
      | none => exact evaluates
  | _ => exact evaluates

theorem readLine_agrees (loops : P.Loops inLoop inLoop') :
    P.StmtAgrees P.Near (readLine (innerAt P.bound n).expression inLoop)
      (readLine (innerAt P.bound n').expression inLoop') := by
  intro ts us near
  refine .bind (readSimple_agrees inner loops _ _ near) ?_
  rintro ⟨s, rest⟩ ⟨s', rest'⟩ ⟨same, near⟩
  exact readLineEnd_agrees near fun rest rest' place => .ok ⟨same, place⟩

end Simple

/-- A test that holds of nothing but the bounds of a block, or of the input. -/
def EndsOnly (ends : TokenKind → Bool) : Prop :=
  ∀ {kind}, ends kind = true → kind.boundsBlock = true

theorem Parting.StmtBridged.ends (bridged : P.StmtBridged) {ts us : List Token}
    (place : P.At .statement ts us) {ends : TokenKind → Bool} (endsOnly : EndsOnly ends) :
    ends (kindOf ts) = ends (kindOf us) := by
  rcases place with near | parts
  · rw [near.kindOf]
  · have goesOn {tokens : List Token} (inside : (kindOf tokens).boundsBlock = false) :
        ends (kindOf tokens) = false :=
      Bool.eq_false_iff.mpr fun ended => nomatch (endsOnly ended).symm.trans inside
    rw [goesOn (bridged.goesOn parts).1, goesOn (bridged.goesOn parts).2]

theorem readStatements_agrees (bridged : P.StmtBridged) {statement statement' : TokenReader Stmt}
    (agrees : P.StmtAgrees (P.At .statement) statement statement') {ends : TokenKind → Bool}
    (endsOnly : EndsOnly ends) (k : Nat) :
    P.StmtAgrees (P.At .statement) (readStatements statement ends k)
      (readStatements statement' ends k) := by
  induction k with
  | zero => exact fun ts us place => .ok ⟨.skip, place⟩
  | succ k ih =>
      intro ts us place
      unfold readStatements
      rw [← bridged.ends place endsOnly]
      split
      · exact .ok ⟨.skip, place⟩
      · refine .bind (agrees _ _ place) ?_
        rintro ⟨first, rest⟩ ⟨first', rest'⟩ ⟨firsts, place⟩
        refine .bind (ih _ _ place) ?_
        rintro ⟨second, rest⟩ ⟨second', rest'⟩ ⟨seconds, place⟩
        exact .ok ⟨.seq firsts seconds, place⟩

def Parting.SuitesAgree (P : Parting) (n n' : Nat) : Prop :=
  ∀ {inLoop inLoop'}, P.Loops inLoop inLoop' →
    P.StmtAgrees P.Near (suiteAt P.bound n inLoop) (suiteAt P.bound n' inLoop')

variable (bridged : P.Bridged) (levels : P.Levels n n') (suites : P.SuitesAgree n n')

include bridged levels suites

theorem readBranches_agrees (loops : P.Loops inLoop inLoop') {k : Nat} {ts us : List Token}
    (place : P.At .statement ts us) (within : ts.length ≤ k ∧ us.length ≤ k) :
    Agree P.lax (ReadAlike (P.At .statement) (BranchesAlike P.lines))
      (readBranches (innerAt P.bound n).expression (suiteAt P.bound n inLoop) k ts)
      (readBranches (innerAt P.bound n').expression (suiteAt P.bound n' inLoop') k us) := by
  have inner := innerAt_agrees bridged.expressions levels
  induction k generalizing ts us with
  | zero => exact .ok ⟨.none, place⟩
  | succ k ih =>
      rcases place with near | parts
      · unfold readBranches
        dsimp only
        rw [← near.kindOf]
        split
        · rename_i next
          refine .bind_read (inner.expression _ _ (near.behind next rfl)) ?_
          rintro ⟨test, rest⟩ ⟨test', rest'⟩ readTest readTest' ⟨tests, others⟩
          refine .bind_read (suites loops _ _ others) ?_
          rintro ⟨body, after⟩ ⟨body', after'⟩ readBody readBody' ⟨bodies, place⟩
          have shorter := guarded_shortens readTest readBody within.1
          have shorter' := guarded_shortens readTest' readBody' within.2
          refine .bind (ih place ⟨shorter, shorter'⟩) ?_
          rintro ⟨branches, rest⟩ ⟨branches', rest'⟩ ⟨later, place⟩
          have lines := near.lineOf next rfl
          exact .ok ⟨.some lines (later.conditional lines tests bodies), place⟩
        · rename_i next
          refine .bind (suites loops _ _ (near.tail next rfl)) ?_
          rintro ⟨body, rest⟩ ⟨body', rest'⟩ ⟨bodies, place⟩
          exact .ok ⟨.some (near.lineOf next rfl) bodies, place⟩
        · exact .ok ⟨.none, .inl near⟩
      · exact bridged.statements.branches levels loops parts within

theorem readIf_agrees (loops : P.Loops inLoop inLoop') {ts us : List Token} (near : P.Near ts us)
    (next : kindOf ts = .keyword .if) :
    Agree P.lax (ReadAlike (P.At .statement) (Stmt.Alike P.lines))
      (readIf P.bound (innerAt P.bound n).expression (suiteAt P.bound n inLoop) ts)
      (readIf P.bound (innerAt P.bound n').expression (suiteAt P.bound n' inLoop') us) := by
  have inner := innerAt_agrees bridged.expressions levels
  refine .bind (inner.expression _ _ (near.behind next rfl)) ?_
  rintro ⟨test, rest⟩ ⟨test', rest'⟩ ⟨tests, others⟩
  refine .bind (suites loops _ _ others) ?_
  rintro ⟨body, rest⟩ ⟨body', rest'⟩ ⟨bodies, place⟩
  refine .bind (readBranches_agrees bridged levels suites loops place
    (place.short bridged.statements)) ?_
  rintro ⟨branches, rest⟩ ⟨branches', rest'⟩ ⟨later, place⟩
  exact .ok ⟨later.conditional (near.lineOf next rfl) tests bodies, place⟩

theorem readWhile_agrees {ts us : List Token} (near : P.Near ts us)
    (next : kindOf ts = .keyword .while) :
    Agree P.lax (ReadAlike (P.At .statement) (Stmt.Alike P.lines))
      (readWhile (innerAt P.bound n).expression (suiteAt P.bound n) ts)
      (readWhile (innerAt P.bound n').expression (suiteAt P.bound n') us) := by
  have inner := innerAt_agrees bridged.expressions levels
  refine .bind (inner.expression _ _ (near.behind next rfl)) ?_
  rintro ⟨test, rest⟩ ⟨test', rest'⟩ ⟨tests, others⟩
  refine .bind (suites (.inr rfl) _ _ others) ?_
  rintro ⟨body, rest⟩ ⟨body', rest'⟩ ⟨bodies, place⟩
  exact .ok ⟨.whileLoop (near.lineOf next rfl) tests bodies, place⟩

theorem readFor_agrees {ts us : List Token} (near : P.Near ts us)
    (next : kindOf ts = .keyword .for) :
    Agree P.lax (ReadAlike (P.At .statement) (Stmt.Alike P.lines))
      (readFor (innerAt P.bound n).expression (suiteAt P.bound n) ts)
      (readFor (innerAt P.bound n').expression (suiteAt P.bound n') us) := by
  have inner := innerAt_agrees bridged.expressions levels
  have header := near.tail next rfl
  unfold readFor
  dsimp only
  rw [← header.kindOf]
  split
  · rename_i id named
    split
    · exact .refuse _ _ _
    · refine .expect _ (header.tail named rfl) fun between => ?_
      have behind := (header.tail named rfl).behind between rfl
      refine .bind (inner.expression _ _ behind) ?_
      rintro ⟨iterable, rest⟩ ⟨iterable', rest'⟩ ⟨iterables, others⟩
      refine .bind (suites (.inr rfl) _ _ others) ?_
      rintro ⟨body, rest⟩ ⟨body', rest'⟩ ⟨bodies, place⟩
      exact .ok ⟨.forLoop (near.lineOf next rfl) id iterables bodies, place⟩
  · exact .unexpected _ header

theorem readStatement_agrees (loops : P.Loops inLoop inLoop') :
    P.StmtAgrees (P.At .statement)
      (readStatement P.bound (innerAt P.bound n).expression (suiteAt P.bound n) inLoop)
      (readStatement P.bound (innerAt P.bound n').expression (suiteAt P.bound n') inLoop') := by
  rintro ts us (near | parts)
  · unfold readStatement
    rw [← near.kindOf]
    split
    · rename_i next
      exact readIf_agrees bridged levels suites loops near next
    · rename_i next
      exact readWhile_agrees bridged levels suites near next
    · rename_i next
      exact readFor_agrees bridged levels suites near next
    · exact readLine_agrees (innerAt_agrees bridged.expressions levels) loops _ _ near
  · exact bridged.statements.statement levels loops _ _ parts

theorem readBlock_agrees (loops : P.Loops inLoop inLoop') :
    P.StmtAgrees (P.At .suite)
      (readBlock P.bound (innerAt P.bound n).expression (suiteAt P.bound n) inLoop)
      (readBlock P.bound (innerAt P.bound n').expression (suiteAt P.bound n') inLoop') := by
  have endsOnly : EndsOnly endsBlock := by
    intro kind ended
    cases kind <;> first | rfl | cases ended
  have statements := readStatements_agrees bridged.statements
    (readStatement_agrees bridged levels suites loops) endsOnly P.bound
  rintro ts us (near | parts)
  · unfold readBlock
    dsimp only
    rw [← near.kindOf]
    split
    · rename_i next
      have block : P.At .statement ts.tail us.tail := near.behind next rfl
      have marks := bridged.statements.marks block (rfl : TokenKind.indent.boundsBlock = true)
      by_cases indented : kindOf ts.tail = .indent
      · rw [if_pos indented, if_pos (marks.mp indented)]
        refine .bind (statements _ _ (block.behindIndent bridged.statements indented)) ?_
        rintro ⟨body, rest⟩ ⟨body', rest'⟩ ⟨bodies, place⟩
        exact .ok ⟨bodies, place.behindBlock bridged.statements⟩
      · rw [if_neg indented, if_neg (mt marks.mpr indented)]
        exact .refuse _ _ _
    · exact readLine_agrees (innerAt_agrees bridged.expressions levels) loops _ _ near
  · exact bridged.statements.block levels loops _ _ parts

end Statements

theorem suiteAt_agrees (bridged : P.Bridged) {n n' : Nat}
    (levels : P.Levels n n') : P.SuitesAgree n n' := by
  induction n generalizing n' with
  | zero =>
      intro inLoop inLoop' loops ts us near
      cases n' with
      | zero => exact .expect _ near fun _ => .refuse _ _ _
      | succ n' =>
          rcases levels with allowed | same
          · exact .expect _ near fun _ => .refused allowed
          · cases same
  | succ n ih =>
      intro inLoop inLoop' loops ts us near
      cases n' with
      | zero =>
          rcases levels with allowed | same
          · exact .expect _ near fun _ => .tooDeep allowed rfl
          · cases same
      | succ n' =>
          have inside : P.Levels n n' := levels.imp_right Nat.succ.inj
          refine .expect _ near fun next => ?_
          exact readBlock_agrees bridged inside (ih inside) loops _ _ (near.behind next rfl)

/-! ### Whole scripts -/

theorem readTopLevel_agrees (bridged : P.Bridged) (k : Nat) :
    P.StmtAgrees (P.At .statement) (readStatements (readTopLevel P.bound) (· = .endOfInput) k)
      (readStatements (readTopLevel P.bound) (· = .endOfInput) k) := by
  have levels : P.Levels maxNesting maxNesting := .inr rfl
  have endsOnly : EndsOnly fun kind => decide (kind = .endOfInput) :=
    fun ended => of_decide_eq_true ended ▸ rfl
  exact readStatements_agrees bridged.statements
    (readStatement_agrees bridged levels (suiteAt_agrees bridged levels) (.inr rfl)) endsOnly k

def Parting.nowhere (bound : Nat) (lines : Nat → Nat → Prop) (lax : Prop) : Parting :=
  ⟨bound, lines, fun _ _ _ => False, lax, lax, id⟩

theorem Parting.nowhere_bridged (bound : Nat) (lines : Nat → Nat → Prop) (lax : Prop) :
    (nowhere bound lines lax).Bridged :=
  ⟨.of_none False.elim, .of_none False.elim False.elim⟩

theorem Script.ofTokens?_agrees {R : Nat → Nat → Prop} {ts us : List Token}
    (alike : TokensAlike R ts us) :
    Agree False (fun script script' => Stmt.Alike R script.body script'.body) (ofTokens? ts)
      (ofTokens? us) := by
  let P := Parting.nowhere ts.length R False
  have near : P.Near ts us := .of_alike alike (Nat.le_refl _)
  have bridged : P.Bridged := Parting.nowhere_bridged ts.length R False
  unfold ofTokens?
  dsimp only
  rw [← alike.length_eq]
  refine .bind (readTopLevel_agrees bridged ts.length _ _ (.inl near)) ?_
  rintro ⟨body, rest⟩ ⟨body', rest'⟩ ⟨bodies, _⟩
  exact .ok bodies

end LessonScript
