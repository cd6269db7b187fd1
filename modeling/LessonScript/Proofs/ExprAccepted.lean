import LessonScript.Proofs.ReaderSteps

/-!
Whatever a reader of expressions accepts is spelled by the grammar.

A reader finds parts of a kind when the tokens that it takes are always such a part.  The
induction is on the levels of nesting; within a level every reader finds what its name says,
from the strongest to the weakest.  A chain that is read from the right is put together from the
left: whatever stands in front of an operand is carried along.
-/

namespace LessonScript

open TokenReader ExprReader

def Finds {α : Type} (reader : TokenReader α) (isPart : List Token → Prop) : Prop :=
  ∀ tokens a rest, reader tokens = .ok (a, rest) → ∃ used, tokens = used ++ rest ∧ isPart used

def Spelled (n : Nat) (strength : Strength) (ts : List Token) : Prop :=
  ∃ e, Spells n (.operand strength e) ts

structure InnerFinds (inner : Inner) (n : Nat) : Prop where
  expression : Finds inner.expression (Spelled n .expression)
  complement : Finds inner.complement fun ts =>
    ∀ word : Token, word.kind = .keyword .not → Spelled n .inversion (word :: ts)
  negation : Finds inner.negation fun ts =>
    ∀ sign : Token, sign.kind = .symbol .minus → Spelled n .negation (sign :: ts)

section Level

variable {inner : Inner} {n bound : Nat}

theorem spelled_literal {tokens : List Token} {l : Literal}
    (denotes : (kindOf tokens).literal? = some l) :
    ∃ used, tokens = used ++ tokens.tail ∧ Spelled n .primary used := by
  have goesOn : kindOf tokens ≠ .endOfInput := by
    intro ended
    rw [ended] at denotes
    cases denotes
  obtain ⟨t, rest, rfl⟩ := exists_of_goesOn goesOn
  exact ⟨[t], rfl, .literal 0 l, .literal denotes⟩

theorem readPrimary_finds (finds : InnerFinds inner n) :
    Finds (readPrimary inner) (Spelled n .primary) := by
  intro tokens e rest done
  cases readPrimary_cases done with
  | literal denotes => exact spelled_literal denotes
  | @name id names free =>
      obtain ⟨t, rest, rfl, reads⟩ := exists_of_kindOf names nofun
      exact ⟨[t], rfl, .name 0 id, .name reads free⟩
  | parentheses opening read closing =>
      obtain ⟨left, others, rfl, opens⟩ := exists_of_kindOf opening nofun
      obtain ⟨right, rfl, closes⟩ := exists_of_expect closing nofun
      obtain ⟨used, same, e', spells⟩ := finds.expression _ _ _ read
      change others = _ at same
      subst same
      exact ⟨left :: (used ++ [right]), by simp, e', .parentheses opens spells closes⟩

theorem readArguments_finds (finds : InnerFinds inner n) (k : Nat) :
    Finds (readArguments inner k) fun ts => ∃ es, Spells n (.arguments es) ts := by
  induction k with
  | zero =>
      intro tokens args rest done
      cases done
      exact ⟨[], rfl, [], .noArguments⟩
  | succ k ih =>
      intro tokens args rest done
      cases readArguments_cases done with
      | none => exact ⟨[], rfl, [], .noArguments⟩
      | more read between others =>
          obtain ⟨used, rfl, e, spells⟩ := finds.expression _ _ _ read
          obtain ⟨comma, behind, rfl, reads⟩ := exists_of_kindOf between nofun
          obtain ⟨used', same, es, spellsMore⟩ := ih _ _ _ others
          change behind = _ at same
          subst same
          exact ⟨used ++ comma :: used', by simp, e :: es, .moreArguments spells reads spellsMore⟩
      | last read =>
          obtain ⟨used, rfl, e, spells⟩ := finds.expression _ _ _ read
          exact ⟨used, rfl, [e], .lastArgument spells⟩

theorem readCalls_finds (finds : InnerFinds inner n) (arguments k : Nat) {callee : Expr}
    {tokens rest : List Token} {e : Expr}
    (done : readCalls inner arguments k callee tokens = .ok (e, rest)) {front : List Token}
    (spelled : Spelled n .call front) :
    ∃ used, tokens = used ++ rest ∧ Spelled n .call (front ++ used) := by
  induction k generalizing callee tokens front with
  | zero =>
      cases done
      exact ⟨[], rfl, by simpa using spelled⟩
  | succ k ih =>
      cases readCalls_cases done with
      | none => exact ⟨[], rfl, by simpa using spelled⟩
      | more opening read closing others =>
          obtain ⟨left, inside, rfl, opens⟩ := exists_of_kindOf opening nofun
          obtain ⟨right, rfl, closes⟩ := exists_of_expect closing nofun
          obtain ⟨used, same, es, spells⟩ := readArguments_finds finds arguments _ _ _ read
          change inside = _ at same
          subst same
          rcases spelled with ⟨e₀, spellsFront⟩
          obtain ⟨used', rfl, found⟩ :=
            ih others ⟨.call 0 e₀ es, .callMore spellsFront opens spells closes⟩
          exact ⟨left :: (used ++ right :: used'), by simp, by simpa using found⟩

theorem readCall_finds (finds : InnerFinds inner n) :
    Finds (readCall bound inner) (Spelled n .call) := by
  intro tokens e rest done
  obtain ⟨⟨callee, behind⟩, read, onward⟩ := exists_of_bind_ok done
  obtain ⟨front, rfl, e₀, spells⟩ := readPrimary_finds finds _ _ _ read
  obtain ⟨used, rfl, spelled⟩ := readCalls_finds finds bound bound onward ⟨e₀, .call spells⟩
  exact ⟨front ++ used, by simp, spelled⟩

theorem readUnary_finds (finds : InnerFinds inner n) :
    Finds (readUnary bound inner) (Spelled n .negation) := by
  intro tokens e rest done
  cases readUnary_cases done with
  | negate minus read =>
      obtain ⟨sign, others, rfl, reads⟩ := exists_of_kindOf minus nofun
      obtain ⟨used, same, spelled⟩ := finds.negation _ _ _ read
      change others = _ at same
      subst same
      exact ⟨sign :: used, rfl, spelled sign reads⟩
  | call read =>
      obtain ⟨used, same, e, spells⟩ := readCall_finds finds _ _ _ read
      exact ⟨used, same, e, .negation spells⟩

theorem readLeftChain_finds {op? : TokenKind → Option ArithOp} {operand : TokenReader Expr}
    (chain : List Token → Prop) {part : List Token → Prop} (finds : Finds operand part)
    (more : ∀ {front ts sign op}, chain front → op? sign.kind = some op → part ts →
      chain (front ++ sign :: ts)) (k : Nat) {left e : Expr} {tokens rest : List Token}
    (noEnd : op? .endOfInput = none)
    (done : readLeftChain op? operand k left tokens = .ok (e, rest)) {front : List Token}
    (spelled : chain front) : ∃ used, tokens = used ++ rest ∧ chain (front ++ used) := by
  induction k generalizing left tokens front with
  | zero =>
      cases done
      exact ⟨[], rfl, by simpa using spelled⟩
  | succ k ih =>
      cases readLeftChain_cases done with
      | none => exact ⟨[], rfl, by simpa using spelled⟩
      | more denotes read others =>
          have goesOn : kindOf tokens ≠ .endOfInput := by
            intro ended
            rw [ended, noEnd] at denotes
            cases denotes
          obtain ⟨sign, behind, rfl⟩ := exists_of_goesOn goesOn
          obtain ⟨used, same, found⟩ := finds _ _ _ read
          change behind = _ at same
          subst same
          obtain ⟨used', rfl, grown⟩ := ih others (more spelled denotes found)
          exact ⟨sign :: (used ++ used'), by simp, by simpa using grown⟩

theorem leftChain_finds {op? : TokenKind → Option ArithOp} {operand : TokenReader Expr}
    {chain part : List Token → Prop} (finds : Finds operand part)
    (start : ∀ {ts}, part ts → chain ts)
    (more : ∀ {front ts sign op}, chain front → op? sign.kind = some op → part ts →
      chain (front ++ sign :: ts)) (noEnd : op? .endOfInput = none) {e : Expr}
    {tokens rest : List Token}
    (done : (operand tokens).bind (fun x => readLeftChain op? operand bound x.1 x.2) =
      .ok (e, rest)) : ∃ used, tokens = used ++ rest ∧ chain used := by
  obtain ⟨⟨left, behind⟩, read, onward⟩ := exists_of_bind_ok done
  obtain ⟨front, rfl, found⟩ := finds _ _ _ read
  obtain ⟨used, rfl, grown⟩ := readLeftChain_finds chain finds more bound noEnd onward (start found)
  exact ⟨front ++ used, by simp, grown⟩

theorem productOp?_eq {kind : TokenKind} {op : ArithOp} (denotes : productOp? kind = some op) :
    kind = .symbol op.sign ∧ op.joinsFactors = true := by
  unfold productOp? at denotes
  split at denotes <;> cases denotes <;> exact ⟨rfl, rfl⟩

theorem sumOp?_eq {kind : TokenKind} {op : ArithOp} (denotes : sumOp? kind = some op) :
    kind = .symbol op.sign ∧ op.joinsFactors = false := by
  unfold sumOp? at denotes
  split at denotes <;> cases denotes <;> exact ⟨rfl, rfl⟩

theorem compareOp?_eq {kind : TokenKind} {op : CompareOp} (denotes : compareOp? kind = some op) :
    kind = .symbol op.sign := by
  unfold compareOp? at denotes
  split at denotes <;> cases denotes <;> rfl

theorem readProduct_finds (finds : InnerFinds inner n) :
    Finds (readProduct bound inner) (Spelled n .product) := by
  have start {ts : List Token} : Spelled n .negation ts → Spelled n .product ts := by
    rintro ⟨e, spells⟩
    exact ⟨e, .product spells⟩
  have more {front ts : List Token} {sign : Token} {op : ArithOp} :
      Spelled n .product front → productOp? sign.kind = some op → Spelled n .negation ts →
        Spelled n .product (front ++ sign :: ts) := by
    rintro ⟨l, left⟩ denotes ⟨r, right⟩
    obtain ⟨reads, joins⟩ := productOp?_eq denotes
    exact ⟨.arith 0 op l r, .productMore left joins reads right⟩
  intro tokens e rest done
  exact leftChain_finds (readUnary_finds finds) start more rfl done

theorem readSum_finds (finds : InnerFinds inner n) :
    Finds (readSum bound inner) (Spelled n .sum) := by
  have start {ts : List Token} : Spelled n .product ts → Spelled n .sum ts := by
    rintro ⟨e, spells⟩
    exact ⟨e, .sum spells⟩
  have more {front ts : List Token} {sign : Token} {op : ArithOp} :
      Spelled n .sum front → sumOp? sign.kind = some op → Spelled n .product ts →
        Spelled n .sum (front ++ sign :: ts) := by
    rintro ⟨l, left⟩ denotes ⟨r, right⟩
    obtain ⟨reads, joins⟩ := sumOp?_eq denotes
    exact ⟨.arith 0 op l r, .sumMore left joins reads right⟩
  intro tokens e rest done
  exact leftChain_finds (readProduct_finds finds) start more rfl done

theorem readComparison_finds (finds : InnerFinds inner n) :
    Finds (readComparison bound inner) (Spelled n .comparison) := by
  intro tokens e rest done
  cases readComparison_cases done with
  | single read =>
      obtain ⟨used, same, e, spells⟩ := readSum_finds finds _ _ _ read
      exact ⟨used, same, e, .comparison spells⟩
  | @compare op _ _ _ _ readLeft denotes readRight =>
      obtain ⟨used, rfl, l, spellsLeft⟩ := readSum_finds finds _ _ _ readLeft
      obtain ⟨sign, others, rfl, reads⟩ := exists_of_kindOf (compareOp?_eq denotes) nofun
      obtain ⟨used', same, r, spellsRight⟩ := readSum_finds finds _ _ _ readRight
      change others = _ at same
      subst same
      exact ⟨used ++ sign :: used', by simp, .compare 0 op l r,
        .compare spellsLeft reads spellsRight⟩

theorem readNot_finds (finds : InnerFinds inner n) :
    Finds (readNot bound inner) (Spelled n .inversion) := by
  intro tokens e rest done
  cases readNot_cases done with
  | complement not read =>
      obtain ⟨word, others, rfl, reads⟩ := exists_of_kindOf not nofun
      obtain ⟨used, same, spelled⟩ := finds.complement _ _ _ read
      change others = _ at same
      subst same
      exact ⟨word :: used, rfl, spelled word reads⟩
  | comparison read =>
      obtain ⟨used, same, e, spells⟩ := readComparison_finds finds _ _ _ read
      exact ⟨used, same, e, .inversion spells⟩

theorem readRightChain_finds {word : Keyword} {join : Nat → Expr → Expr → Expr}
    {operand : TokenReader Expr} {chain part : List Token → Prop} (finds : Finds operand part)
    (start : ∀ {ts}, part ts → chain ts)
    (more : ∀ {front ts sign}, chain front → sign.kind = .keyword word → part ts →
      chain (front ++ sign :: ts)) (k : Nat) {tokens rest : List Token} {e : Expr}
    (done : readRightChain word join operand k tokens = .ok (e, rest)) :
    ∃ used, tokens = used ++ rest ∧ chain used ∧
      ∀ {front sign}, chain front → sign.kind = .keyword word → chain (front ++ sign :: used) := by
  induction k generalizing tokens e with
  | zero =>
      obtain ⟨used, same, found⟩ := finds _ _ _ done
      exact ⟨used, same, start found, fun spelled reads => more spelled reads found⟩
  | succ k ih =>
      cases readRightChain_cases done with
      | single read =>
          obtain ⟨used, same, found⟩ := finds _ _ _ read
          exact ⟨used, same, start found, fun spelled reads => more spelled reads found⟩
      | more read goesOn others =>
          obtain ⟨used, rfl, found⟩ := finds _ _ _ read
          obtain ⟨sign, behind, rfl, reads⟩ := exists_of_kindOf goesOn nofun
          obtain ⟨used', same, _, grow⟩ := ih others
          change behind = _ at same
          subst same
          refine ⟨used ++ sign :: used', by simp, grow (start found) reads, ?_⟩
          intro front first spelled reads'
          have grown := grow (more spelled reads' found) reads
          simpa using grown

theorem readAnd_finds (finds : InnerFinds inner n) :
    Finds (readAnd bound inner) (Spelled n .conjunction) := by
  have start {ts : List Token} : Spelled n .inversion ts → Spelled n .conjunction ts := by
    rintro ⟨e, spells⟩
    exact ⟨e, .conjunction spells⟩
  have more {front ts : List Token} {sign : Token} :
      Spelled n .conjunction front → sign.kind = .keyword .and → Spelled n .inversion ts →
        Spelled n .conjunction (front ++ sign :: ts) := by
    rintro ⟨l, left⟩ reads ⟨r, right⟩
    exact ⟨.both 0 l r, .conjunctionMore left reads right⟩
  intro tokens e rest done
  obtain ⟨used, same, spelled, _⟩ :=
    readRightChain_finds (readNot_finds finds) start more bound done
  exact ⟨used, same, spelled⟩

theorem readOr_finds (finds : InnerFinds inner n) :
    Finds (readOr bound inner) (Spelled n .disjunction) := by
  have start {ts : List Token} : Spelled n .conjunction ts → Spelled n .disjunction ts := by
    rintro ⟨e, spells⟩
    exact ⟨e, .disjunction spells⟩
  have more {front ts : List Token} {sign : Token} :
      Spelled n .disjunction front → sign.kind = .keyword .or → Spelled n .conjunction ts →
        Spelled n .disjunction (front ++ sign :: ts) := by
    rintro ⟨l, left⟩ reads ⟨r, right⟩
    exact ⟨.either 0 l r, .disjunctionMore left reads right⟩
  intro tokens e rest done
  obtain ⟨used, same, spelled, _⟩ :=
    readRightChain_finds (readAnd_finds finds) start more bound done
  exact ⟨used, same, spelled⟩

end Level

theorem innerAt_finds (bound n : Nat) : InnerFinds (innerAt bound n) n := by
  induction n with
  | zero => exact ⟨nofun, nofun, nofun⟩
  | succ n ih =>
      constructor
      · intro tokens e rest done
        obtain ⟨used, same, e', spells⟩ := readOr_finds ih _ _ _ done
        exact ⟨used, same, e', .expression spells⟩
      · intro tokens e rest done
        obtain ⟨used, same, e', spells⟩ := readNot_finds ih _ _ _ done
        exact ⟨used, same, fun word reads => ⟨.complement 0 e', .not reads spells⟩⟩
      · intro tokens e rest done
        obtain ⟨used, same, e', spells⟩ := readUnary_finds ih _ _ _ done
        exact ⟨used, same, fun sign reads => ⟨.negate 0 e', .minus reads spells⟩⟩

end LessonScript
