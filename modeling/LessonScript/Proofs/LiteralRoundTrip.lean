import LessonScript.Proofs.Instructions
import LessonScript.Proofs.LiteralLexing
import LessonScript.Proofs.References
import LessonScript.Proofs.RunSteps

/-!
The text of a literal reads back as the literal.

A listing that loads the text has the literal as its constant, and a script that assigns the text
to a name leaves the name bound to the literal (`Literal.repr_reads_back`).  A script has no
literals with a sign: the sign is read as an operator, which the run applies to the literal
behind it.
-/

namespace LessonScript

open Text Lexer

namespace Literal

/-- The literal that is read from the text of a literal: the numbers that are not numbers have
one text. -/
def canonical : Literal → Literal
  | .float x => .float (if x.isNaN then .nan false else x)
  | l => l

theorem literal_repr_eq (l : Literal) :
    Assembly.literal (some l.value.repr.toList) = .ok l.canonical := by
  cases l with
  | nothing | bool | int | str => exact Assembly.literal_repr nofun
  | float x =>
      cases nonNumber : x.isNaN with
      | true =>
          have text : (float x).value.repr = (float (.nan false)).value.repr := by
            change String.ofList x.chars = _
            rw [Binary64.chars, if_pos nonNumber]
            rfl
          rw [canonical, nonNumber, if_pos rfl, text]
          exact Assembly.literal_repr fun y same _ => (Literal.float.inj same).symm
      | false =>
          rw [canonical, nonNumber, if_neg Bool.false_ne_true]
          refine Assembly.literal_repr fun y same nan => ?_
          rw [← Literal.float.inj same, nonNumber] at nan
          cases nan

end Literal

theorem Program.addConstant_empty (v : Value) :
    empty.addConstant v = (⟨#[], #[v], #[]⟩, 0) := by
  simp [addConstant, empty]

theorem Program.ofListing?_literal (l : Literal) :
    ofListing? ["LOAD_CONST " ++ l.value.repr] =
      .ok ⟨#[⟨.loadConst 0, 1⟩], #[l.canonical.value], #[]⟩ := by
  have written : Assembly.Written "LOAD_CONST".toList (some l.value.repr.toList) :=
    ⟨by decide, by decide, fun _ same => Option.some.inj same ▸ Assembly.tight_repr l⟩
  have line : String.ofList (Assembly.spaced "LOAD_CONST".toList (some l.value.repr.toList)) =
      "LOAD_CONST " ++ l.value.repr := by
    apply String.toList_injective
    simp [Assembly.spaced]
  have words := written.words?_eq
  rw [line] at words
  have added : Assembly.addLine .empty 1 ("LOAD_CONST " ++ l.value.repr) = _ :=
    Assembly.addLine_eq_ok_iff.mpr (.instruction words (.constant l.literal_repr_eq))
  rw [addConstant_empty] at added
  rw [ofListing?, Assembly.addLines, added]
  rfl

def Lexer.midLine (begun : Bool) (cs : List Char) (position : Position) : Lexer :=
  ⟨cs, position, [], 0, false, begun⟩

theorem kinds_end (position : Position) :
    (midLine true [] position).tokensFrom.map Token.kind = [.newline, .endOfInput] := by
  rw [tokensFrom_of_closed rfl]
  rfl

theorem kinds_token {blanks after tail rest : List Char} {c : Char} {kind : TokenKind}
    (blank : AllBlank blanks) (visible : Visible c)
    (scanned : Lexeme.scan c after = ⟨kind, tail, rest⟩) (level : depthAfter 0 kind = 0)
    (begun : Bool) (position : Position) :
    ∃ place, (midLine begun (blanks ++ c :: after) position).tokensFrom.map Token.kind =
      kind :: (midLine true rest place).tokensFrom.map Token.kind := by
  refine ⟨position.advanceBy blanks |>.advanceBy (c :: tail), ?_⟩
  have stepped : (midLine begun (blanks ++ c :: after) position).step =
      .more [⟨kind, position.advanceBy blanks, c :: tail⟩]
        (midLine true rest (position.advanceBy blanks |>.advanceBy (c :: tail))) := by
    change readToken _ = _
    simp only [readToken, midLine, splitGap, splitComment, cutWhile_visible blank visible,
      if_neg visible.notComment, List.append_nil, if_neg visible.notEnd, scanned, level]
  rw [tokensFrom_of_more stepped]
  rfl

theorem start_visible {c : Char} (visible : Visible c) (cs : List Char) :
    (Lexer.start (c :: cs)).tokensFrom = (midLine false (c :: cs) .start).tokensFrom := by
  have cut : cutWhile isBlank (c :: cs) = ([], c :: cs) :=
    cutWhile_visible (List.forall_mem_nil _) visible cs
  have stepped : (Lexer.start (c :: cs)).step = .more [] (midLine false (c :: cs) .start) := by
    change measureLine _ = _
    simp only [measureLine, Lexer.start, cut, if_neg visible.notEnd, if_neg visible.notComment]
    rfl
  rw [tokensFrom_of_more stepped, List.nil_append]

theorem allBlank_space : AllBlank [' '] := by
  intro c member
  rw [List.mem_singleton.mp member]
  rfl

theorem kinds_assignment (cs : List Char) :
    ∃ place, (tokenize (String.ofList ("x = ".toList ++ cs))).map Token.kind =
      .name "x" :: .symbol .assign ::
        (midLine true (' ' :: cs) place).tokensFrom.map Token.kind := by
  have letter : Visible 'x' := ⟨by decide, by decide, by decide⟩
  have sign : Visible '=' := ⟨by decide, by decide, by decide⟩
  obtain ⟨behind, named⟩ := kinds_token (List.forall_mem_nil _) letter
    (show Lexeme.scan 'x' (" = ".toList ++ cs) = ⟨.name "x", [], _⟩ from rfl) rfl false .start
  obtain ⟨place, assigned⟩ := kinds_token allBlank_space sign
    (show Lexeme.scan '=' (' ' :: cs) = ⟨.symbol .assign, [], _⟩ from rfl) rfl true behind
  refine ⟨place, ?_⟩
  rw [tokenize, String.toList_ofList]
  change (Lexer.start ('x' :: (" = ".toList ++ cs))).tokensFrom.map Token.kind = _
  rw [start_visible letter]
  exact named.trans (congrArg _ assigned)

/-- The text of a literal, or of one behind a minus sign, that stands for the value. -/
inductive SignedText (v : Value) : List Char → Prop
  | plain {l : Literal} {cs : List Char} (taken : TakenWhole l cs) (same : l.value = v) :
      SignedText v cs
  | negative {l : Literal} {cs : List Char} (taken : TakenWhole l cs)
      (negated : l.value.negate = .ok v) : SignedText v ('-' :: cs)

theorem exists_opposite {n : Int64} (small : n ≠ Int64.minValue) :
    ∃ m : Int64, m.toInt = -n.toInt := by
  have least : n.toInt ≠ Int64.minValue.toInt := fun same => small (Int64.toInt_inj.mp same)
  have low := n.minValue_le_toInt
  have high := n.toInt_le
  have range : Int64.minValue.toInt ≤ -n.toInt ∧ -n.toInt ≤ Int64.maxValue.toInt := by
    simp only [Int64.toInt_minValue, Int64.toInt_maxValue] at least low high ⊢
    omega
  exact ⟨_, checkedInt64_eq_some_iff.mp (if_pos range)⟩

theorem signedText_int {n : Int64} (small : n ≠ Int64.minValue) :
    SignedText (.int n) (intText n.toInt).toList := by
  by_cases positive : 0 ≤ n.toInt
  · exact .plain (takenWhole_int positive) rfl
  · obtain ⟨m, opposite⟩ := exists_opposite small
    have text : (intText n.toInt).toList = '-' :: (intText m.toInt).toList := by
      rw [toList_intText, toList_intText, if_pos (by omega), if_neg (by omega), opposite,
        Int.natAbs_neg]
      rfl
    rw [text]
    refine .negative (takenWhole_int (by omega)) ?_
    change Value.ofExact "-" (-m.toInt) = _
    rw [opposite, Int.neg_neg, Value.ofExact, checkedInt64_toInt]

theorem signedText_float {x : Binary64} (finite : x.isFinite = true) :
    SignedText (.float x) x.chars := by
  have taken := takenWhole_magnitude finite
  rw [Binary64.chars_of_isFinite finite]
  have word : x.magnitude < Binary64.signWeight := Nat.mod_lt _ (by decide)
  cases negative : x.isNegative with
  | true =>
      rw [if_pos rfl]
      refine .negative taken ?_
      change Except.ok (Value.float x.abs.neg) = _
      rw [Binary64.neg, Binary64.abs, Binary64.isNegative_ofMagnitude false word,
        Binary64.magnitude_ofMagnitude false word, Bool.not_false, ← negative,
        Binary64.ofMagnitude_self]
  | false =>
      rw [if_neg Bool.false_ne_true]
      refine .plain taken ?_
      change Value.float x.abs = _
      rw [Binary64.abs, ← negative, Binary64.ofMagnitude_self]

/-- The literal can be written in a script: there is no literal for an integer without a positive
counterpart, nor for a number that is not finite. -/
def Literal.Writable : Literal → Prop
  | .int n => n ≠ Int64.minValue
  | .float x => x.isFinite = true
  | _ => True

theorem signedText_repr {l : Literal} (writable : l.Writable) :
    SignedText l.value l.value.repr.toList := by
  cases l with
  | nothing => exact .plain takenWhole_nothing rfl
  | bool b => exact .plain (takenWhole_bool b) rfl
  | int n => exact signedText_int writable
  | float x =>
      change SignedText _ (String.ofList x.chars).toList
      rw [String.toList_ofList]
      exact signedText_float writable
  | str s =>
      change SignedText _ (String.ofList (quoteChars s.toList)).toList
      rw [String.toList_ofList]
      exact .plain (takenWhole_str s.toList) (by rw [String.ofList_toList])

/-- The expression is a literal, or one behind a minus sign, that stands for the value. -/
inductive SignedLiteral (v : Value) : Expr → Prop
  | plain (line : Nat) {l : Literal} (same : l.value = v) : SignedLiteral v (.literal line l)
  | negative (signLine line : Nat) {l : Literal} (negated : l.value.negate = .ok v) :
      SignedLiteral v (.negate signLine (.literal line l))

theorem depthAfter_literal {kind : TokenKind} {l : Literal} (denotes : kind.literal? = some l) :
    depthAfter 0 kind = 0 := by
  rcases TokenKind.of_literal? denotes with
    ⟨n, rfl, _⟩ | ⟨x, rfl, _⟩ | ⟨s, rfl, _⟩ | ⟨rfl, _⟩ | ⟨rfl, _⟩ | ⟨rfl, _⟩
  all_goals rfl

theorem TakenWhole.kinds {l : Literal} {cs blanks : List Char} (taken : TakenWhole l cs)
    (blank : AllBlank blanks) (position : Position) :
    ∃ kind, kind.literal? = some l ∧
      (midLine true (blanks ++ cs) position).tokensFrom.map Token.kind =
        [kind, .newline, .endOfInput] := by
  obtain ⟨visible, scanned, denotes⟩ := taken
  obtain ⟨place, kinds⟩ :=
    kinds_token blank visible scanned (depthAfter_literal denotes) true position
  rw [kinds_end] at kinds
  exact ⟨_, denotes, kinds⟩

theorem scanSymbol_literal? (c : Char) (cs : List Char) :
    (Lexeme.scanSymbol c cs).kind.literal? = none := by
  have single (cs : List Char) : (Lexeme.scanSingle c cs).kind.literal? = none := by
    unfold Lexeme.scanSingle
    split <;> rfl
  unfold Lexeme.scanSymbol
  split
  · split
    · rfl
    · exact single _
  · exact single _

theorem TakenWhole.scan_minus {l : Literal} {cs : List Char} (taken : TakenWhole l cs) :
    Lexeme.scan '-' cs = ⟨.symbol .minus, [], cs⟩ := by
  obtain @⟨c, rest, kind, visible, scanned, denotes⟩ := taken
  have other : '=' ≠ c := by
    rintro rfl
    have foreign := scanSymbol_literal? '=' rest
    rw [show Lexeme.scanSymbol '=' rest = ⟨kind, rest, []⟩ from scanned] at foreign
    rw [denotes] at foreign
    cases foreign
  have single : Symbol.ofChars? ['-', c] = none := by
    rw [Symbol.ofChars?, List.find?_eq_none]
    intro symbol _
    cases symbol <;> simp [Symbol.chars, other]
  change Lexeme.scanSymbol '-' (c :: rest) = _
  rw [Lexeme.scanSymbol, single]
  rfl

theorem ofTokens?_plain {tokens : List Token} {kind : TokenKind} {l : Literal}
    (denotes : kind.literal? = some l)
    (kinds : tokens.map Token.kind =
      [.name "x", .symbol .assign, kind, .newline, .endOfInput]) :
    ∃ line valueLine lastLine, Script.ofTokens? tokens =
      .ok ⟨.seq (.assign line "x" (.literal valueLine l)) .skip, lastLine⟩ := by
  simp only [List.map_eq_cons_iff, List.map_eq_nil_iff] at kinds
  obtain ⟨⟨_, _, _⟩, _, rfl, rfl, ⟨_, _, _⟩, _, rfl, rfl, ⟨_, _, _⟩, _, rfl, rfl,
    ⟨_, _, _⟩, _, rfl, rfl, ⟨_, _, _⟩, _, rfl, rfl, rfl⟩ := kinds
  -- The reader looks at kinds only, so it runs once these are known.
  rcases TokenKind.of_literal? denotes with
    ⟨n, rfl, rfl⟩ | ⟨x, rfl, rfl⟩ | ⟨s, rfl, rfl⟩ | ⟨rfl, rfl⟩ | ⟨rfl, rfl⟩ | ⟨rfl, rfl⟩
  all_goals exact ⟨_, _, _, rfl⟩

theorem ofTokens?_negative {tokens : List Token} {kind : TokenKind} {l : Literal}
    (denotes : kind.literal? = some l)
    (kinds : tokens.map Token.kind =
      [.name "x", .symbol .assign, .symbol .minus, kind, .newline, .endOfInput]) :
    ∃ line signLine valueLine lastLine, Script.ofTokens? tokens =
      .ok ⟨.seq (.assign line "x" (.negate signLine (.literal valueLine l))) .skip, lastLine⟩ := by
  simp only [List.map_eq_cons_iff, List.map_eq_nil_iff] at kinds
  obtain ⟨⟨_, _, _⟩, _, rfl, rfl, ⟨_, _, _⟩, _, rfl, rfl, ⟨_, _, _⟩, _, rfl, rfl,
    ⟨_, _, _⟩, _, rfl, rfl, ⟨_, _, _⟩, _, rfl, rfl, ⟨_, _, _⟩, _, rfl, rfl, rfl⟩ := kinds
  rcases TokenKind.of_literal? denotes with
    ⟨n, rfl, rfl⟩ | ⟨x, rfl, rfl⟩ | ⟨s, rfl, rfl⟩ | ⟨rfl, rfl⟩ | ⟨rfl, rfl⟩ | ⟨rfl, rfl⟩
  all_goals exact ⟨_, _, _, _, rfl⟩

theorem SignedText.script {v : Value} {cs : List Char} (signed : SignedText v cs) :
    ∃ line e lastLine, SignedLiteral v e ∧
      Script.ofSource? (String.ofList ("x = ".toList ++ cs)) =
        .ok ⟨.seq (.assign line "x" e) .skip, lastLine⟩ := by
  obtain ⟨place, kinds⟩ := kinds_assignment cs
  cases signed with
  | plain taken same =>
      obtain ⟨kind, denotes, rest⟩ := taken.kinds allBlank_space place
      rw [List.singleton_append] at rest
      rw [rest] at kinds
      obtain ⟨line, valueLine, lastLine, read⟩ := ofTokens?_plain denotes kinds
      refine ⟨line, _, lastLine, .plain valueLine same, ?_⟩
      rw [Script.ofSource?, read]
  | negative taken negated =>
      have dash : Visible '-' := ⟨by decide, by decide, by decide⟩
      obtain ⟨behind, signs⟩ := kinds_token allBlank_space dash taken.scan_minus rfl true place
      obtain ⟨kind, denotes, rest⟩ := taken.kinds (List.forall_mem_nil _) behind
      rw [List.nil_append] at rest
      rw [List.singleton_append, rest] at signs
      rw [signs] at kinds
      obtain ⟨line, signLine, valueLine, lastLine, read⟩ := ofTokens?_negative denotes kinds
      refine ⟨line, _, lastLine, .negative signLine valueLine negated, ?_⟩
      rw [Script.ofSource?, read]

namespace Program

variable {σ : Type} {p : Program} {builtins : BuiltinSet} {host : Host σ}

theorem stateAfter_signedLiteral {v : Value} {e : Expr} (signed : SignedLiteral v e) {t : Tables}
    (uses : p.Uses t) (known : e.KnownTo t) (holds : p.Holds 0 (e.code t 0)) (room : Nat)
    (world : σ) :
    p.stateAfter builtins host e.size ⟨⟨[], room + 1⟩, [], 0⟩ world =
      some (⟨⟨[v], room⟩, [], e.size⟩, world) := by
  have load {l : Literal} (known : l ∈ t.literals) :
      Machine.dispatch p builtins host ⟨⟨[], room + 1⟩, [], 1⟩ world (t.load l) =
        (.ok (.goOn ⟨⟨[l.value], room⟩, [], 1⟩), world) :=
    Machine.dispatch_loadConst (uses.constant known) _
  cases signed with
  | plain line same =>
      subst same
      rw [Expr.size, stateAfter_of_step holds.head (load known)]
      rfl
  | @negative signLine line l negated =>
      have negate : Machine.dispatch p builtins host ⟨⟨[l.value], room⟩, [], 2⟩ world .negate =
          (.ok (.goOn ⟨⟨[v], room⟩, [], 2⟩), world) := by
        rw [Machine.dispatch_negate, negated]
        rfl
      rw [Expr.size, Expr.size, stateAfter_of_step holds.head (load known),
        stateAfter_of_step holds.tail.head negate]
      rfl

/-- A script that binds a name to a signed literal leaves the name bound to its value, within the
limits. -/
theorem run_assignment {v : Value} {e : Expr} (signed : SignedLiteral v e) (line : Nat)
    (id : String) (lastLine : Nat) (builtins : BuiltinSet) (host : Host σ) (world : σ) :
    (ofScript ⟨.seq (.assign line id e) .skip, lastLine⟩).run .standard builtins host world =
      ⟨.ok .nothing, e.size + 3, [(id, v)], world⟩ := by
  let script : Script := ⟨.seq (.assign line id e) .skip, lastLine⟩
  obtain ⟨⟨⟨named, known⟩, _⟩, knowsNothing⟩ := Tables.ofStmt_knows script.body
  have uses := ofScript_uses script
  have holds := (ofScript script).holds_self
  rw [code_ofScript] at holds
  have size : (script.body.code (.ofStmt script.body) .outermost 0).length = e.size + 1 :=
    script.body.length_code _ .outermost 0
  have ending := holds.behind size
  rw [Nat.zero_add] at ending
  have stores := holds.left.left.behind (e.length_code _ 0)
  rw [Nat.zero_add] at stores
  have pushed : (ofScript script).stateAfter builtins host e.size ⟨⟨[], 1024⟩, [], 0⟩ world =
      some (⟨⟨[v], 1023⟩, [], e.size⟩, world) :=
    stateAfter_signedLiteral signed uses known holds.left.left.left 1023 world
  have bound : (ofScript script).stateAfter builtins host 2 ⟨⟨[v], 1023⟩, [], e.size⟩ world =
      some (⟨⟨[.nothing], 1023⟩, [(id, v)], e.size + 2⟩, world) := by
    rw [stateAfter_of_step stores.head (Machine.dispatch_storeName (uses.name named)),
      stateAfter_of_step ending.head (Machine.dispatch_loadConst (uses.constant knowsNothing) _)]
    rfl
  have small : e.size ≤ 2 := by
    cases signed with
    | plain => exact Nat.le_succ 1
    | negative => exact Nat.le_refl 2
  have ended : (ofScript script).run? .standard builtins host world =
      some ⟨.ok .nothing, 0 + e.size + 2 + 1, [(id, v)], world⟩ := by
    rw [run?_eq]
    change (ofScript script).runFrom? builtins host (some 100000) 0 ⟨⟨[], 1024⟩, [], 0⟩ world = _
    have first : ∀ limit, some 100000 = some limit → e.size ≤ limit := by
      rintro _ ⟨⟩
      omega
    have second : ∀ limit, some (100000 - e.size) = some limit → 2 ≤ limit := by
      rintro _ ⟨⟩
      omega
    have left : some (100000 - e.size - 2) ≠ some 0 := by
      intro none
      have spent := Option.some.inj none
      omega
    rw [runFrom?_of_stateAfter first 0 pushed, Option.map_some,
      runFrom?_of_stateAfter second _ bound, Option.map_some,
      runFrom?_of_ends (.returned ending.tail.head left Machine.dispatch_returnValue)]
  rw [run_of_run? ended, show 0 + e.size + 2 + 1 = e.size + 3 by omega]

end Program

/-- The text of a literal reads back as the literal.  A listing that loads it has the literal as
its constant, up to the form of a number that is not a number; and a script that assigns it to a
name runs within the limits and leaves the name bound to the literal, if a script can write it. -/
theorem Literal.repr_reads_back (l : Literal) :
    Program.ofListing? ["LOAD_CONST " ++ l.value.repr] =
        .ok ⟨#[⟨.loadConst 0, 1⟩], #[l.canonical.value], #[]⟩ ∧
      (l.Writable → ∃ p steps, Program.ofLines? ["x = " ++ l.value.repr] = .ok p ∧
        ∀ {σ : Type} (builtins : BuiltinSet) (host : Host σ) (world : σ),
          p.run .standard builtins host world =
            ⟨.ok .nothing, steps, [("x", l.value)], world⟩) := by
  refine ⟨Program.ofListing?_literal l, fun writable => ?_⟩
  obtain ⟨line, e, lastLine, signed, read⟩ := (signedText_repr writable).script
  have source : "x = " ++ l.value.repr = String.ofList ("x = ".toList ++ l.value.repr.toList) := by
    apply String.toList_injective
    simp
  refine ⟨_, e.size + 3, ?_, Program.run_assignment signed line "x" lastLine⟩
  change Program.ofSource? ("x = " ++ l.value.repr) = _
  rw [Program.ofSource?_eq, source, read]
  rfl

theorem negative_zero_reads_back :
    Program.ofListing? ["LOAD_CONST -0.0"] =
        .ok ⟨#[⟨.loadConst 0, 1⟩], #[.float (.zero true)], #[]⟩ ∧
      ∃ p steps, Program.ofLines? ["x = -0.0"] = .ok p ∧
        ∀ {σ : Type} (builtins : BuiltinSet) (host : Host σ) (world : σ),
          p.run .standard builtins host world =
            ⟨.ok .nothing, steps, [("x", .float (.zero true))], world⟩ := by
  have text : (Literal.float (.zero true)).value.repr = "-0.0" := by decide +kernel
  obtain ⟨listed, assigned⟩ := Literal.repr_reads_back (.float (.zero true))
  rw [text] at listed assigned
  have finite : (Binary64.zero true).isFinite = true := by decide
  exact ⟨listed, assigned finite⟩

end LessonScript
