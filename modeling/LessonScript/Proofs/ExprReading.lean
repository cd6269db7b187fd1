import LessonScript.Proofs.Grammar
import LessonScript.Proofs.Meaning

/-!
Every spelling of an expression is read, as an expression with the same meaning.

A reader of some strength stops in front of a token that does not go on with an expression of
that strength.  For a chain the induction follows the derivation, which grows at its right end:
what has been read so far is an operand from which the reader goes on.  A chain of `and` or of
`or` is read into a tree that is nested the other way; `Expr.Same` is all that the two trees
share.  Which tree is read depends on the tokens of the expression alone, so the tree stands in front
of what comes behind them (`Reads`).
-/

namespace LessonScript

open TokenReader ExprReader

/-! ### Tokens behind an expression -/

/-- The token does not go on with an expression as loose as that. -/
def TokenKind.stops (looseness : Nat) : TokenKind → Bool
  | .symbol .leftParen => looseness < Strength.call.looseness
  | .symbol .star | .symbol .slash | .symbol .doubleSlash | .symbol .percent =>
    looseness < Strength.product.looseness
  | .symbol .plus | .symbol .minus => looseness < Strength.sum.looseness
  | .symbol .eq | .symbol .ne | .symbol .lt | .symbol .gt | .symbol .le | .symbol .ge =>
    looseness < Strength.comparison.looseness
  | .keyword .and => looseness < Strength.conjunction.looseness
  | .keyword .or => looseness < Strength.disjunction.looseness
  | _ => true

section Stops

variable {kind : TokenKind} {a b : Nat}

theorem TokenKind.stops_mono (le : a ≤ b) (stops : kind.stops b = true) : kind.stops a = true := by
  unfold TokenKind.stops at stops ⊢
  split at stops <;>
    first | rfl | exact decide_eq_true (Nat.lt_of_le_of_lt le (of_decide_eq_true stops))

theorem TokenKind.stops.ne_leftParen (stops : kind.stops a = true)
    (loose : Strength.call.looseness ≤ a) : kind ≠ .symbol .leftParen := by
  rintro rfl
  exact Nat.not_lt.mpr loose (of_decide_eq_true stops)

theorem TokenKind.stops.ne_and (stops : kind.stops a = true)
    (loose : Strength.conjunction.looseness ≤ a) : kind ≠ .keyword .and := by
  rintro rfl
  exact Nat.not_lt.mpr loose (of_decide_eq_true stops)

theorem TokenKind.stops.ne_or (stops : kind.stops a = true)
    (loose : Strength.disjunction.looseness ≤ a) : kind ≠ .keyword .or := by
  rintro rfl
  exact Nat.not_lt.mpr loose (of_decide_eq_true stops)

theorem TokenKind.stops.productOp?_eq (stops : kind.stops a = true)
    (loose : Strength.product.looseness ≤ a) : productOp? kind = none := by
  unfold productOp?
  split
  case h_5 => rfl
  all_goals exact absurd (of_decide_eq_true stops) (Nat.not_lt.mpr loose)

theorem TokenKind.stops.sumOp?_eq (stops : kind.stops a = true)
    (loose : Strength.sum.looseness ≤ a) : sumOp? kind = none := by
  unfold sumOp?
  split
  case h_3 => rfl
  all_goals exact absurd (of_decide_eq_true stops) (Nat.not_lt.mpr loose)

theorem TokenKind.stops.compareOp?_eq (stops : kind.stops a = true)
    (loose : Strength.comparison.looseness ≤ a) : compareOp? kind = none := by
  unfold compareOp?
  split
  case h_7 => rfl
  all_goals exact absurd (of_decide_eq_true stops) (Nat.not_lt.mpr loose)

end Stops

theorem productOp?_sign {op : ArithOp} (joins : op.joinsFactors = true) :
    productOp? (.symbol op.sign) = some op ∧
      (TokenKind.symbol op.sign).stops Strength.negation.looseness = true := by
  cases op with
  | add | subtract => cases joins
  | multiply | trueDivide | floorDivide | modulo => exact ⟨rfl, rfl⟩

theorem sumOp?_sign {op : ArithOp} (joins : op.joinsFactors = false) :
    sumOp? (.symbol op.sign) = some op ∧
      (TokenKind.symbol op.sign).stops Strength.product.looseness = true := by
  cases op with
  | add | subtract => exact ⟨rfl, rfl⟩
  | multiply | trueDivide | floorDivide | modulo => cases joins

theorem compareOp?_sign (op : CompareOp) :
    compareOp? (.symbol op.sign) = some op ∧
      (TokenKind.symbol op.sign).stops Strength.sum.looseness = true := by
  cases op <;> exact ⟨rfl, rfl⟩

/-! ### What a reader makes of a spelling -/

/-- In front of any tokens that stop it, the reader makes this expression of the tokens. -/
def ReadsTo (reader : Nat → TokenReader Expr) (looseness : Nat) (e : Expr) (ts : List Token) :
    Prop :=
  ∀ bound rest, (kindOf rest).stops looseness = true → (ts ++ rest).length ≤ bound →
    reader bound (ts ++ rest) = .ok (e, rest)

/-- The reader takes the tokens for the front of a chain and goes on behind it. -/
def ReadsInto (reader : Nat → TokenReader Expr) (onward : Nat → Nat → Expr → TokenReader Expr)
    (looseness : Nat) (e : Expr) (ts : List Token) : Prop :=
  ∀ bound rest, (kindOf rest).stops looseness = true → (ts ++ rest).length ≤ bound →
    ∃ k, bound ≤ k + ts.length ∧ reader bound (ts ++ rest) = onward bound k e rest

def rightOnward (word : Keyword) (join : Nat → Expr → Expr → Expr) (operand : TokenReader Expr)
    (k : Nat) (left : Expr) : TokenReader Expr := fun rest =>
  if kindOf rest = .keyword word then do
    let (right, after) ← readRightChain word join operand k rest.tail
    return (join (lineOf rest) left right, after)
  else return (left, rest)

/-- The front of a chain that is joined from the right, but for the last operand. -/
structure Fronts (join : Nat → Expr → Expr → Expr) (wrap : Expr → Expr) : Prop where
  congr : ∀ {x y : Expr}, x.Same y → (wrap x).Same (wrap y)
  assoc : ∀ (line : Nat) (x y : Expr), (wrap (join line x y)).Same (join line (wrap x) y)

/-- The reader takes the tokens for the front of a chain; what it makes of the last operand and
of all behind it still goes into the place that `wrap` leaves open. -/
def ReadsBehind (reader : Nat → TokenReader Expr) (join : Nat → Expr → Expr → Expr)
    (onward : Nat → Nat → Expr → TokenReader Expr) (looseness : Nat) (e : Expr)
    (ts : List Token) : Prop :=
  ∃ wrap last, wrap last = e ∧ Fronts join wrap ∧
    ∀ bound rest, (kindOf rest).stops looseness = true → (ts ++ rest).length ≤ bound →
      ∃ k, bound ≤ k + ts.length ∧
        reader bound (ts ++ rest) =
          (onward bound k last rest).map fun found => (wrap found.1, found.2)

section Chains

variable {loose loose' : Nat} {operand reader : Nat → TokenReader Expr} {l r e : Expr}
  {ts us : List Token} {sign : Token}

/-! ### Chains that are joined from the left -/

theorem ReadsInto.start (op? : TokenKind → Option ArithOp) (reads : ReadsTo operand loose e ts) :
    ReadsInto (fun bound tokens => do
      let (left, rest) ← operand bound tokens
      readLeftChain op? (operand bound) bound left rest)
      (fun bound => readLeftChain op? (operand bound)) loose e ts := by
  intro bound rest stops bounded
  refine ⟨bound, Nat.le_add_right _ _, ?_⟩
  dsimp only
  rw [reads bound rest stops bounded]
  rfl

theorem ReadsInto.more {op? : TokenKind → Option ArithOp} {op : ArithOp}
    (left : ReadsInto reader (fun bound => readLeftChain op? (operand bound)) loose l ts)
    (denotes : op? sign.kind = some op) (stopped : sign.kind.stops loose = true)
    (right : ReadsTo operand loose r us) :
    ReadsInto reader (fun bound => readLeftChain op? (operand bound)) loose
      (.arith sign.position.line op l r) (ts ++ sign :: us) := by
  intro bound rest stops bounded
  simp only [List.length_append, List.length_cons] at bounded
  obtain ⟨k, within, read⟩ := left bound (sign :: (us ++ rest)) stopped (by simp; omega)
  have readRight := right bound rest stops (by simp; omega)
  -- The bound outlasts the tokens, so the chain has a step left for this operator.
  obtain ⟨k, rfl⟩ : ∃ m, k = m + 1 := ⟨k - 1, by omega⟩
  refine ⟨k, ?_, ?_⟩
  · simp only [List.length_append, List.length_cons]
    omega
  · have found : op? (kindOf (sign :: (us ++ rest))) = some op := denotes
    rw [List.append_assoc, List.cons_append, read]
    dsimp only
    rw [readLeftChain, found]
    dsimp only [List.tail_cons]
    rw [readRight]
    rfl

theorem ReadsInto.readsTo {op? : TokenKind → Option ArithOp}
    (into : ReadsInto reader (fun bound => readLeftChain op? (operand bound)) loose e ts)
    (le : loose ≤ loose')
    (ends : ∀ kind : TokenKind, kind.stops loose' = true → op? kind = none) :
    ReadsTo reader loose' e ts := by
  intro bound rest stops bounded
  obtain ⟨k, _, read⟩ := into bound rest (TokenKind.stops_mono le stops) bounded
  rw [read]
  cases k with
  | zero => rfl
  | succ k =>
      dsimp only
      rw [readLeftChain, ends _ stops]

/-! ### Chains that are joined from the right -/

structure Chains (join : Nat → Expr → Expr → Expr) : Prop where
  congr : ∀ {line line' : Nat} {l l' r r' : Expr}, l.Same l' → r.Same r' →
    (join line l r).Same (join line' l' r')
  assoc : ∀ (l₁ l₂ l₃ l₄ : Nat) (a b c : Expr),
    (join l₁ (join l₂ a b) c).Same (join l₃ a (join l₄ b c))

variable {word : Keyword} {join : Nat → Expr → Expr → Expr}

theorem Fronts.id : Fronts join id :=
  ⟨fun same => same, fun _ _ _ => .refl _⟩

theorem Fronts.more (chains : Chains join) {wrap : Expr → Expr} (fronts : Fronts join wrap)
    (line : Nat) (last : Expr) : Fronts join fun x => wrap (join line last x) := by
  refine ⟨fun same => fronts.congr (chains.congr (.refl _) same), fun line' x y => ?_⟩
  have regroup := fronts.congr (chains.assoc line' line line line' last x y).symm
  exact regroup.trans (fronts.assoc _ _ _)

theorem ReadsBehind.start (reads : ReadsTo operand loose e ts) (some : ts ≠ []) :
    ReadsBehind (fun bound => readRightChain word join (operand bound) bound) join
      (fun bound => rightOnward word join (operand bound)) loose e ts := by
  refine ⟨id, e, rfl, .id, fun bound rest stops bounded => ?_⟩
  have read := reads bound rest stops bounded
  have long : 0 < ts.length := List.length_pos_iff.mpr some
  simp only [List.length_append] at bounded
  obtain ⟨k, rfl⟩ : ∃ m, bound = m + 1 := ⟨bound - 1, by omega⟩
  refine ⟨k, by omega, ?_⟩
  dsimp only
  rw [readRightChain, read]
  change rightOnward word join (operand (k + 1)) k e rest = _
  generalize rightOnward word join (operand (k + 1)) k e rest = found
  cases found <;> rfl

theorem ReadsBehind.more (chains : Chains join)
    (left : ReadsBehind reader join (fun bound => rightOnward word join (operand bound)) loose l ts)
    (denotes : sign.kind = .keyword word) (stopped : sign.kind.stops loose = true)
    (right : ReadsTo operand loose r us) :
    ∃ e, e.Same (join sign.position.line l r) ∧
      ReadsBehind reader join (fun bound => rightOnward word join (operand bound)) loose e
        (ts ++ sign :: us) := by
  obtain ⟨wrap, last, rfl, fronts, reads⟩ := left
  refine ⟨wrap (join sign.position.line last r), fronts.assoc _ _ _, _, r, rfl,
    fronts.more chains sign.position.line last, fun bound rest stops bounded => ?_⟩
  simp only [List.length_append, List.length_cons] at bounded
  obtain ⟨k, within, read⟩ := reads bound (sign :: (us ++ rest)) stopped (by simp; omega)
  have readRight := right bound rest stops (by simp; omega)
  obtain ⟨k, rfl⟩ : ∃ m, k = m + 1 := ⟨k - 1, by omega⟩
  refine ⟨k, ?_, ?_⟩
  · simp only [List.length_append, List.length_cons]
    omega
  · rw [List.append_assoc, List.cons_append, read]
    change Except.map _ (if sign.kind = _ then _ else _) = _
    rw [if_pos denotes]
    dsimp only [List.tail_cons]
    rw [readRightChain, readRight]
    change Except.map _ (Except.bind (rightOnward word join (operand bound) k r rest) _) = _
    generalize rightOnward word join (operand bound) k r rest = found
    cases found <;> rfl

theorem ReadsBehind.readsTo
    (behind : ReadsBehind reader join (fun bound => rightOnward word join (operand bound)) loose e
      ts)
    (le : loose ≤ loose')
    (ends : ∀ kind : TokenKind, kind.stops loose' = true → kind ≠ .keyword word) :
    ReadsTo reader loose' e ts := by
  obtain ⟨wrap, last, rfl, _, reads⟩ := behind
  intro bound rest stops bounded
  obtain ⟨k, _, read⟩ := reads bound rest (TokenKind.stops_mono le stops) bounded
  rw [read]
  dsimp only
  rw [rightOnward, if_neg (ends _ stops)]
  rfl

end Chains

/-! ### Every phrase is read -/

/-- What the readers that may open so many levels make of the tokens: just this phrase. -/
def Reads (n : Nat) : Phrase → List Token → Prop
  | .operand .expression e, ts =>
    ReadsTo (fun bound => (innerAt bound n).expression) Strength.expression.looseness e ts
  | .operand .disjunction e, ts =>
    ReadsBehind (fun bound => readOr bound (innerAt bound n)) .either
      (fun bound => rightOnward .or .either (readAnd bound (innerAt bound n)))
      Strength.conjunction.looseness e ts
  | .operand .conjunction e, ts =>
    ReadsBehind (fun bound => readAnd bound (innerAt bound n)) .both
      (fun bound => rightOnward .and .both (readNot bound (innerAt bound n)))
      Strength.inversion.looseness e ts
  | .operand .inversion e, ts =>
    ReadsTo (fun bound => readNot bound (innerAt bound n)) Strength.inversion.looseness e ts
  | .operand .comparison e, ts =>
    ReadsTo (fun bound => readComparison bound (innerAt bound n)) Strength.comparison.looseness
      e ts
  | .operand .sum e, ts =>
    ReadsInto (fun bound => readSum bound (innerAt bound n))
      (fun bound => readLeftChain sumOp? (readProduct bound (innerAt bound n)))
      Strength.product.looseness e ts
  | .operand .product e, ts =>
    ReadsInto (fun bound => readProduct bound (innerAt bound n))
      (fun bound => readLeftChain productOp? (readUnary bound (innerAt bound n)))
      Strength.negation.looseness e ts
  | .operand .negation e, ts =>
    ReadsTo (fun bound => readUnary bound (innerAt bound n)) Strength.negation.looseness e ts
  | .operand .call e, ts =>
    ReadsInto (fun bound => readCall bound (innerAt bound n))
      (fun bound => readCalls (innerAt bound n) bound) Strength.primary.looseness e ts
  | .operand .primary e, ts =>
    ReadsTo (fun bound => readPrimary (innerAt bound n)) Strength.primary.looseness e ts
  | .arguments es, ts =>
    ∀ bound rest k, kindOf rest = .symbol .rightParen → (ts ++ rest).length ≤ bound →
      ts.length ≤ k → readArguments (innerAt bound n) k (ts ++ rest) = .ok (es, rest)

section Phrases

variable {n : Nat} {e l r : Expr} {ts us : List Token} {token left right sign : Token}

theorem readPrimary_literal {value : Literal} (inner : Inner) (rest : List Token)
    (denotes : token.kind.literal? = some value) :
    readPrimary inner (token :: rest) = .ok (.literal token.position.line value, rest) := by
  rcases token with ⟨kind, position, lexeme⟩
  change kind.literal? = some value at denotes
  rcases TokenKind.of_literal? denotes with
    ⟨n, rfl, rfl⟩ | ⟨x, rfl, rfl⟩ | ⟨s, rfl, rfl⟩ | ⟨rfl, rfl⟩ | ⟨rfl, rfl⟩ | ⟨rfl, rfl⟩
  all_goals rfl

theorem readPrimary_name {id : String} (inner : Inner) (rest : List Token)
    (reads : token.kind = .name id) (free : isReserved id = false) :
    readPrimary inner (token :: rest) = .ok (.name token.position.line id, rest) := by
  rcases token with ⟨kind, position, lexeme⟩
  cases reads
  change (if isReserved id = true then _ else _) = _
  rw [free]
  rfl

theorem expect_kind {kind : TokenKind} (rest : List Token) (reads : token.kind = kind) :
    expect kind (token :: rest) = .ok rest := by
  rw [expect]
  exact if_pos reads

theorem readPrimary_parentheses (opening : left.kind = .symbol .leftParen)
    (inside : Reads n (.operand .expression e) ts) (closing : right.kind = .symbol .rightParen) :
    Reads n (.operand .primary e) (left :: (ts ++ [right])) := by
  intro bound rest _ bounded
  simp only [List.length_append, List.length_cons, List.cons_append, List.append_assoc] at bounded
  have stopped : (kindOf (right :: rest)).stops Strength.expression.looseness = true := by
    change right.kind.stops _ = true
    rw [closing]
    rfl
  have read := inside bound (right :: rest) stopped (by simp; omega)
  have found : left :: (ts ++ [right]) ++ rest = left :: (ts ++ right :: rest) := by simp
  rcases left with ⟨kind, position, lexeme⟩
  cases opening
  dsimp only at read ⊢
  rw [found, readPrimary]
  dsimp only [kindOf, List.tail_cons]
  rw [read]
  change (expect (.symbol .rightParen) (right :: rest)).bind _ = _
  rw [expect_kind rest closing]
  rfl

theorem readCall_start (primary : Reads n (.operand .primary e) ts) :
    Reads n (.operand .call e) ts := by
  intro bound rest stops bounded
  have read := primary bound rest stops bounded
  refine ⟨bound, Nat.le_add_right _ _, ?_⟩
  dsimp only at read ⊢
  rw [readCall, read]
  rfl

theorem readCall_more {args : List Expr} (callee : Reads n (.operand .call e) ts)
    (opening : left.kind = .symbol .leftParen) (arguments : Reads n (.arguments args) us)
    (closing : right.kind = .symbol .rightParen) :
    Reads n (.operand .call (.call left.position.line e args)) (ts ++ left :: (us ++ [right])) := by
  intro bound rest stops bounded
  simp only [List.length_append, List.length_cons, List.length_nil] at bounded
  have any : (kindOf (left :: (us ++ right :: rest))).stops Strength.primary.looseness = true := by
    change left.kind.stops _ = true
    rw [opening]
    rfl
  obtain ⟨k, within, read⟩ := callee bound _ any (by simp; omega)
  have readArgs := arguments bound (right :: rest) bound closing (by simp; omega) (by omega)
  obtain ⟨k, rfl⟩ : ∃ m, k = m + 1 := ⟨k - 1, by omega⟩
  refine ⟨k, ?_, ?_⟩
  · simp only [List.length_append, List.length_cons, List.length_nil]
    omega
  · have found : ts ++ left :: (us ++ [right]) ++ rest = ts ++ left :: (us ++ right :: rest) := by
      simp
    rw [found, read]
    dsimp only
    rw [readCalls]
    change (if left.kind = _ then _ else _) = _
    rw [if_pos opening]
    dsimp only [List.tail_cons]
    rw [readArgs]
    change (expect (.symbol .rightParen) (right :: rest)).bind _ = _
    rw [expect_kind rest closing]
    rfl

theorem readUnary_call (starts : (Phrase.operand .call e).Begins ts)
    (call : Reads n (.operand .call e) ts) : Reads n (.operand .negation e) ts := by
  intro bound rest stops bounded
  obtain ⟨k, _, read⟩ := call bound rest (TokenKind.stops_mono (by decide) stops) bounded
  rcases starts with ⟨first, others, rfl, begins⟩
  have noMinus : first.kind ≠ .symbol .minus := by
    intro minus
    rw [minus] at begins
    cases begins
  dsimp only at read ⊢
  rw [readUnary]
  change (if first.kind = _ then _ else _) = _
  rw [if_neg noMinus, read]
  cases k with
  | zero => rfl
  | succ k => rw [readCalls, if_neg (TokenKind.stops.ne_leftParen stops (by decide))]

theorem readUnary_minus (reads : sign.kind = .symbol .minus)
    (operand : Reads n (.operand .negation e) ts) :
    Reads (n + 1) (.operand .negation (.negate sign.position.line e)) (sign :: ts) := by
  intro bound rest stops bounded
  have read := operand bound rest stops (Nat.le_of_succ_le bounded)
  dsimp only at read ⊢
  rw [readUnary]
  change (if sign.kind = _ then _ else _) = _
  rw [if_pos reads]
  change ((readUnary bound (innerAt bound n) (ts ++ rest)).bind _) = _
  rw [read]
  rfl

theorem readProduct_reads (product : Reads n (.operand .product e) ts) :
    ReadsTo (fun bound => readProduct bound (innerAt bound n)) Strength.product.looseness e ts :=
  product.readsTo (by decide) fun _ stops => TokenKind.stops.productOp?_eq stops (Nat.le_refl _)

theorem readProduct_start (factor : Reads n (.operand .negation e) ts) :
    Reads n (.operand .product e) ts :=
  ReadsInto.start productOp? factor

theorem readProduct_more {op : ArithOp} (left : Reads n (.operand .product l) ts)
    (joins : op.joinsFactors = true) (reads : sign.kind = .symbol op.sign)
    (right : Reads n (.operand .negation r) us) :
    Reads n (.operand .product (.arith sign.position.line op l r)) (ts ++ sign :: us) := by
  obtain ⟨denotes, stopped⟩ := productOp?_sign joins
  rw [← reads] at denotes stopped
  exact ReadsInto.more left denotes stopped right

theorem readSum_reads (sum : Reads n (.operand .sum e) ts) :
    ReadsTo (fun bound => readSum bound (innerAt bound n)) Strength.sum.looseness e ts :=
  sum.readsTo (by decide) fun _ stops => TokenKind.stops.sumOp?_eq stops (Nat.le_refl _)

theorem readSum_start (term : Reads n (.operand .product e) ts) : Reads n (.operand .sum e) ts :=
  ReadsInto.start sumOp? (readProduct_reads term)

theorem readSum_more {op : ArithOp} (left : Reads n (.operand .sum l) ts)
    (joins : op.joinsFactors = false) (reads : sign.kind = .symbol op.sign)
    (right : Reads n (.operand .product r) us) :
    Reads n (.operand .sum (.arith sign.position.line op l r)) (ts ++ sign :: us) := by
  obtain ⟨denotes, stopped⟩ := sumOp?_sign joins
  rw [← reads] at denotes stopped
  exact ReadsInto.more left denotes stopped (readProduct_reads right)

theorem readComparison_sum (sum : Reads n (.operand .sum e) ts) :
    Reads n (.operand .comparison e) ts := by
  intro bound rest stops bounded
  have read := readSum_reads sum bound rest (TokenKind.stops_mono (by decide) stops) bounded
  have none : compareOp? (kindOf rest) = none := TokenKind.stops.compareOp?_eq stops (Nat.le_refl _)
  dsimp only at read ⊢
  rw [readComparison, read]
  dsimp only [bind, Except.bind]
  rw [none]
  rfl

theorem readComparison_compare {op : CompareOp} (left : Reads n (.operand .sum l) ts)
    (reads : sign.kind = .symbol op.sign) (right : Reads n (.operand .sum r) us) :
    Reads n (.operand .comparison (.compare sign.position.line op l r)) (ts ++ sign :: us) := by
  intro bound rest stops bounded
  simp only [List.length_append, List.length_cons] at bounded
  obtain ⟨denotes, stopped⟩ := compareOp?_sign op
  rw [← reads] at denotes stopped
  have readLeft := readSum_reads left bound (sign :: (us ++ rest)) stopped (by simp; omega)
  have readRight :=
    readSum_reads right bound rest (TokenKind.stops_mono (by decide) stops) (by simp; omega)
  have found : compareOp? (kindOf (sign :: (us ++ rest))) = some op := denotes
  have none : compareOp? (kindOf rest) = none := TokenKind.stops.compareOp?_eq stops (Nat.le_refl _)
  dsimp only at readLeft readRight ⊢
  rw [List.append_assoc, List.cons_append, readComparison, readLeft]
  dsimp only [bind, Except.bind]
  rw [found]
  dsimp only [List.tail_cons]
  rw [readRight]
  dsimp only
  rw [none]
  rfl

theorem readNot_comparison (starts : (Phrase.operand .comparison e).Begins ts)
    (comparison : Reads n (.operand .comparison e) ts) : Reads n (.operand .inversion e) ts := by
  intro bound rest stops bounded
  have read := comparison bound rest (TokenKind.stops_mono (by decide) stops) bounded
  rcases starts with ⟨first, others, rfl, begins⟩
  have noNot : first.kind ≠ .keyword .not := by
    intro not
    rw [not] at begins
    cases begins
  dsimp only at read ⊢
  rw [readNot]
  change (if first.kind = _ then _ else _) = _
  rw [if_neg noNot, read]

theorem readNot_not (reads : sign.kind = .keyword .not)
    (operand : Reads n (.operand .inversion e) ts) :
    Reads (n + 1) (.operand .inversion (.complement sign.position.line e)) (sign :: ts) := by
  intro bound rest stops bounded
  have read := operand bound rest stops (Nat.le_of_succ_le bounded)
  dsimp only at read ⊢
  rw [readNot]
  change (if sign.kind = _ then _ else _) = _
  rw [if_pos reads]
  change ((readNot bound (innerAt bound n) (ts ++ rest)).bind _) = _
  rw [read]
  rfl

theorem chains_both : Chains .both :=
  ⟨Expr.Same.both, Expr.Same.both_assoc⟩

theorem chains_either : Chains .either :=
  ⟨Expr.Same.either, Expr.Same.either_assoc⟩

theorem readAnd_start (operand : Reads n (.operand .inversion e) ts) (some : ts ≠ []) :
    Reads n (.operand .conjunction e) ts :=
  ReadsBehind.start operand some

theorem readAnd_reads (conjunction : Reads n (.operand .conjunction e) ts) :
    ReadsTo (fun bound => readAnd bound (innerAt bound n)) Strength.conjunction.looseness e ts :=
  conjunction.readsTo (by decide) fun _ stops => TokenKind.stops.ne_and stops (Nat.le_refl _)

theorem readOr_start (operand : Reads n (.operand .conjunction e) ts) (some : ts ≠ []) :
    Reads n (.operand .disjunction e) ts :=
  ReadsBehind.start (readAnd_reads operand) some

theorem readOr_reads (disjunction : Reads n (.operand .disjunction e) ts) :
    ReadsTo (fun bound => readOr bound (innerAt bound n)) Strength.disjunction.looseness e ts :=
  disjunction.readsTo (by decide) fun _ stops => TokenKind.stops.ne_or stops (Nat.le_refl _)

theorem readExpression_disjunction (disjunction : Reads n (.operand .disjunction e) ts) :
    Reads (n + 1) (.operand .expression e) ts :=
  fun bound rest stops bounded =>
    readOr_reads disjunction bound rest (TokenKind.stops_mono (by decide) stops) bounded

theorem readArguments_last (starts : (Phrase.operand .expression e).Begins ts)
    (argument : Reads n (.operand .expression e) ts) : Reads n (.arguments [e]) ts := by
  intro bound rest k closing bounded within
  rcases starts with ⟨first, others, rfl, begins⟩
  obtain ⟨k, rfl⟩ : ∃ m, k = m + 1 := ⟨k - 1, by simp at within; omega⟩
  have stopped : (kindOf rest).stops Strength.expression.looseness = true := by
    rw [closing]
    rfl
  have read := argument bound rest stopped bounded
  have noClosing : first.kind ≠ .symbol .rightParen := by
    intro closing
    rw [closing] at begins
    cases begins
  dsimp only at read
  rw [readArguments]
  change (if first.kind = _ then _ else _) = _
  rw [if_neg noClosing, read]
  change (if kindOf rest = _ then _ else _) = _
  rw [closing]
  rfl

theorem readArguments_more {es : List Expr} (starts : (Phrase.operand .expression e).Begins ts)
    (argument : Reads n (.operand .expression e) ts) (between : sign.kind = .symbol .comma)
    (arguments : Reads n (.arguments es) us) :
    Reads n (.arguments (e :: es)) (ts ++ sign :: us) := by
  intro bound rest k closing bounded within
  simp only [List.length_append, List.length_cons] at bounded within
  rcases starts with ⟨first, others, rfl, begins⟩
  obtain ⟨k, rfl⟩ : ∃ m, k = m + 1 := ⟨k - 1, by omega⟩
  have stopped : (kindOf (sign :: (us ++ rest))).stops Strength.expression.looseness = true := by
    change sign.kind.stops _ = true
    rw [between]
    rfl
  have read := argument bound (sign :: (us ++ rest)) stopped (by simp at bounded ⊢; omega)
  have readOthers := arguments bound rest k closing (by simp; omega) (by omega)
  have noClosing : first.kind ≠ .symbol .rightParen := by
    intro closing
    rw [closing] at begins
    cases begins
  dsimp only at read
  rw [List.append_assoc, List.cons_append, readArguments]
  change (if first.kind = _ then _ else _) = _
  rw [if_neg noClosing]
  rw [List.cons_append] at read ⊢
  rw [read]
  change (if sign.kind = _ then _ else _) = _
  rw [if_pos between]
  change ((readArguments (innerAt bound n) k (us ++ rest)).bind _) = _
  rw [readOthers]
  rfl

end Phrases

def Phrase.Read (n : Nat) : Phrase → List Token → Prop
  | .operand strength e, ts => ∃ e', e'.Same e ∧ Reads n (.operand strength e') ts
  | .arguments es, ts => ∃ es', AllSame es' es ∧ Reads n (.arguments es') ts

theorem Spells.reading {n : Nat} {phrase : Phrase} {ts : List Token}
    (spells : Spells n phrase ts) : phrase.Read n ts := by
  induction spells with
  | literal denotes =>
      exact ⟨_, .literal, fun _ rest _ _ => readPrimary_literal _ rest denotes⟩
  | name reads free =>
      exact ⟨_, .name, fun _ rest _ _ => readPrimary_name _ rest reads free⟩
  | parentheses opening _ closing ih =>
      obtain ⟨_, same, inside⟩ := ih
      exact ⟨_, same, readPrimary_parentheses opening inside closing⟩
  | call _ ih =>
      obtain ⟨_, same, primary⟩ := ih
      exact ⟨_, same, readCall_start primary⟩
  | callMore _ opening _ closing ihCallee ihArguments =>
      obtain ⟨_, same, callee⟩ := ihCallee
      obtain ⟨_, all, arguments⟩ := ihArguments
      exact ⟨_, same.call all, readCall_more callee opening arguments closing⟩
  | noArguments =>
      refine ⟨[], .nil, fun bound rest k closing _ _ => ?_⟩
      cases k with
      | zero => rfl
      | succ k => exact if_pos closing
  | lastArgument argument ih =>
      obtain ⟨_, same, reads⟩ := ih
      exact ⟨_, .cons same .nil, readArguments_last argument.begins reads⟩
  | moreArguments argument between _ ih ih' =>
      obtain ⟨_, same, reads⟩ := ih
      obtain ⟨_, all, others⟩ := ih'
      exact ⟨_, .cons same all,
        readArguments_more argument.begins reads between others⟩
  | negation call ih =>
      obtain ⟨_, same, reads⟩ := ih
      exact ⟨_, same, readUnary_call call.begins reads⟩
  | minus reads _ ih =>
      obtain ⟨_, same, operand⟩ := ih
      exact ⟨_, same.negate, readUnary_minus reads operand⟩
  | product _ ih =>
      obtain ⟨_, same, factor⟩ := ih
      exact ⟨_, same, readProduct_start factor⟩
  | productMore _ joins reads _ ihLeft ihRight =>
      obtain ⟨_, sameLeft, left⟩ := ihLeft
      obtain ⟨_, sameRight, right⟩ := ihRight
      exact ⟨_, sameLeft.arith _ sameRight, readProduct_more left joins reads right⟩
  | sum _ ih =>
      obtain ⟨_, same, term⟩ := ih
      exact ⟨_, same, readSum_start term⟩
  | sumMore _ joins reads _ ihLeft ihRight =>
      obtain ⟨_, sameLeft, left⟩ := ihLeft
      obtain ⟨_, sameRight, right⟩ := ihRight
      exact ⟨_, sameLeft.arith _ sameRight, readSum_more left joins reads right⟩
  | comparison _ ih =>
      obtain ⟨_, same, sum⟩ := ih
      exact ⟨_, same, readComparison_sum sum⟩
  | compare _ reads _ ihLeft ihRight =>
      obtain ⟨_, sameLeft, left⟩ := ihLeft
      obtain ⟨_, sameRight, right⟩ := ihRight
      exact ⟨_, sameLeft.compare _ sameRight, readComparison_compare left reads right⟩
  | inversion comparison ih =>
      obtain ⟨_, same, reads⟩ := ih
      exact ⟨_, same, readNot_comparison comparison.begins reads⟩
  | not reads _ ih =>
      obtain ⟨_, same, operand⟩ := ih
      exact ⟨_, same.complement, readNot_not reads operand⟩
  | conjunction operand ih =>
      obtain ⟨_, same, reads⟩ := ih
      exact ⟨_, same, readAnd_start reads operand.ne_nil⟩
  | conjunctionMore _ reads _ ihLeft ihRight =>
      obtain ⟨_, sameLeft, left⟩ := ihLeft
      obtain ⟨_, sameRight, right⟩ := ihRight
      obtain ⟨e, same, behind⟩ :=
        ReadsBehind.more chains_both left reads (by rw [reads]; rfl) right
      exact ⟨e, same.trans (sameLeft.both sameRight), behind⟩
  | disjunction operand ih =>
      obtain ⟨_, same, reads⟩ := ih
      exact ⟨_, same, readOr_start reads operand.ne_nil⟩
  | disjunctionMore _ reads _ ihLeft ihRight =>
      obtain ⟨_, sameLeft, left⟩ := ihLeft
      obtain ⟨_, sameRight, right⟩ := ihRight
      obtain ⟨e, same, behind⟩ :=
        ReadsBehind.more chains_either left reads (by rw [reads]; rfl) (readAnd_reads right)
      exact ⟨e, same.trans (sameLeft.either sameRight), behind⟩
  | expression _ ih =>
      obtain ⟨_, same, inside⟩ := ih
      exact ⟨_, same, readExpression_disjunction inside⟩

theorem Spells.reads {n : Nat} {e : Expr} {ts : List Token}
    (spells : Spells n (.operand .expression e) ts) (bound : Nat) (rest : List Token)
    (stops : (kindOf rest).stops Strength.expression.looseness = true)
    (bounded : (ts ++ rest).length ≤ bound) :
    ∃ e', e'.Same e ∧ (innerAt bound n).expression (ts ++ rest) = .ok (e', rest) := by
  obtain ⟨e', same, reads⟩ := spells.reading
  exact ⟨e', same, reads bound rest stops bounded⟩

end LessonScript
