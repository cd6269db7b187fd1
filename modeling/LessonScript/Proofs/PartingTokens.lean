import LessonScript.Proofs.StmtAccepted
import Mathlib.Data.List.Forall2

/-!
Lists of tokens of the same kinds that part at one place.

Readers look at the kinds of tokens and hand on the lines of some of them.  Two lists have the same
kinds, token by token, up to a place where they may part: behind a token that opens an expression,
a suite or a statement.  A `Parting` says what may come there, and what else may differ where the
two lists are read.
-/

namespace LessonScript

open TokenReader

/-- Two readings have results that stand in the relation, or the same complaint.  If the agreement
is lax, the second reading may also run out of levels, and it has any outcome where the first is
refused. -/
inductive Agree {α β : Type} (lax : Prop) (related : α → β → Prop) :
    Except Refusal α → Except Refusal β → Prop
  | ok {a : α} {b : β} (results : related a b) : Agree lax related (.ok a) (.ok b)
  | error {refusal refusal' : Refusal} (same : refusal.complaint = refusal'.complaint) :
      Agree lax related (.error refusal) (.error refusal')
  | refused {refusal : Refusal} {y : Except Refusal β} (allowed : lax) :
      Agree lax related (.error refusal) y
  | tooDeep {x : Except Refusal α} {refusal : Refusal} (allowed : lax)
      (deep : refusal.complaint = .tooDeep) : Agree lax related x (.error refusal)

namespace Agree

variable {α α' β β' : Type} {lax : Prop} {related : α → α' → Prop} {related' : β → β' → Prop}

theorem bind_read {x : Except Refusal α} {y : Except Refusal α'} {f : α → Except Refusal β}
    {g : α' → Except Refusal β'} (first : Agree lax related x y)
    (onward : ∀ a b, x = .ok a → y = .ok b → related a b → Agree lax related' (f a) (g b)) :
    Agree lax related' (x >>= f) (y >>= g) := by
  cases first with
  | ok results => exact onward _ _ rfl rfl results
  | error same => exact .error same
  | refused allowed => exact .refused allowed
  | tooDeep allowed deep => exact .tooDeep allowed deep

theorem bind {x : Except Refusal α} {y : Except Refusal α'} {f : α → Except Refusal β}
    {g : α' → Except Refusal β'} (first : Agree lax related x y)
    (onward : ∀ a b, related a b → Agree lax related' (f a) (g b)) :
    Agree lax related' (x >>= f) (y >>= g) :=
  first.bind_read fun a b _ _ results => onward a b results

theorem imp {related' : α → α' → Prop} {x : Except Refusal α} {y : Except Refusal α'}
    (agree : Agree lax related x y) (onward : ∀ a b, related a b → related' a b) :
    Agree lax related' x y := by
  cases agree with
  | ok results => exact .ok (onward _ _ results)
  | error same => exact .error same
  | refused allowed => exact .refused allowed
  | tooDeep allowed deep => exact .tooDeep allowed deep

theorem refuse (complaint : Complaint) (ts us : List Token) :
    Agree lax related (refuse complaint ts) (TokenReader.refuse complaint us) :=
  .error rfl

theorem unless_refused {x : Except Refusal α} {y : Except Refusal α'} (allowed : lax)
    (onward : ∀ a, x = .ok a → Agree lax related x y) : Agree lax related x y := by
  cases x with
  | error refusal => exact .refused allowed
  | ok a => exact onward a rfl

theorem through {related'' : α → β' → Prop} {x : Except Refusal α}
    {z : Except Refusal β'} {a : α'} {b : β} (first : Agree lax related x (.ok a))
    (second : Agree lax related' (.ok b) z)
    (onward : ∀ c d, related c a → related' b d → related'' c d) : Agree lax related'' x z := by
  cases first with
  | ok results =>
      cases second with
      | ok results' => exact .ok (onward _ _ results results')
      | tooDeep allowed deep => exact .tooDeep allowed deep
  | refused allowed => exact .refused allowed

end Agree

/-- The same kind; tokens on a line are on lines that stand in the relation. -/
structure Token.Alike (R : Nat → Nat → Prop) (t u : Token) : Prop where
  kind : t.kind = u.kind
  lines : t.kind.onLine = true → R t.position.line u.position.line

abbrev TokensAlike (R : Nat → Nat → Prop) (ts us : List Token) : Prop :=
  List.Forall₂ (Token.Alike R) ts us

theorem tokensAlike_of_kinds {ts us : List Token}
    (same : ts.map Token.kind = us.map Token.kind) : TokensAlike (fun _ _ => True) ts us := by
  rw [← List.forall₂_eq_eq_eq, List.forall₂_map_left_iff, List.forall₂_map_right_iff] at same
  exact same.imp fun _ _ kind => ⟨kind, fun _ => trivial⟩

/-- What a token opens: behind it stands a whole expression, the body of a suite, or a statement. -/
inductive Opening where
  | expression
  | suite
  | statement
  deriving DecidableEq

def TokenKind.opening? : TokenKind → Option Opening
  | .keyword .if | .keyword .elif | .keyword .while | .keyword .in => some .expression
  | .symbol .colon => some .suite
  | .symbol .leftParen | .symbol .comma => some .expression
  | .symbol s => if s.isAssignment then some .expression else none
  | .newline | .indent | .dedent => some .statement
  | _ => none

def TokenKind.boundsBlock : TokenKind → Bool
  | .indent | .dedent | .endOfInput => true
  | _ => false

/-- How two lists of tokens, no longer than the bound, may differ, and how two readings of them.
The lists part where one of the openings leads to `parts`.  Levels of nesting do not count if the
readings are compared laxly; if they are mixed, the second one may be in a loop where the first is
not. -/
structure Parting where
  bound : Nat
  lines : Nat → Nat → Prop
  parts : Opening → List Token → List Token → Prop
  lax : Prop
  mixed : Prop
  lax_of_mixed : mixed → lax

namespace Parting

variable (P : Parting)

inductive Near : List Token → List Token → Prop
  | nil : Near [] []
  | cons {t u : Token} {ts us : List Token} (first : t.Alike P.lines u) (others : Near ts us)
      (short : ts.length < P.bound ∧ us.length < P.bound) : Near (t :: ts) (u :: us)
  | opening {o : Opening} {t u : Token} {ts us : List Token} (first : t.Alike P.lines u)
      (opens : t.kind.opening? = some o) (parts : P.parts o ts us)
      (short : ts.length < P.bound ∧ us.length < P.bound) : Near (t :: ts) (u :: us)

def At (o : Opening) (ts us : List Token) : Prop :=
  P.Near ts us ∨ P.parts o ts us

def Levels (n n' : Nat) : Prop :=
  P.lax ∨ n = n'

def Loops (inLoop inLoop' : Bool) : Prop :=
  P.mixed ∧ inLoop' = true ∨ inLoop = inLoop'

variable {P} {ts us : List Token}

theorem Near.of_alike (alike : TokensAlike P.lines ts us) (short : ts.length ≤ P.bound) :
    P.Near ts us := by
  induction alike with
  | nil => exact .nil
  | cons first others ih =>
      exact .cons first (ih (Nat.le_of_succ_le short)) ⟨short, others.length_eq ▸ short⟩

namespace Near

variable {kind : TokenKind}

theorem short (near : P.Near ts us) : ts.length ≤ P.bound ∧ us.length ≤ P.bound := by
  cases near with
  | nil => exact ⟨Nat.zero_le _, Nat.zero_le _⟩
  | cons _ _ short | opening _ _ _ short => exact short

theorem kindOf (near : P.Near ts us) : kindOf ts = kindOf us := by
  cases near with
  | nil => rfl
  | cons first | opening first => exact first.kind

theorem lineOf (near : P.Near ts us) (next : TokenReader.kindOf ts = kind)
    (onLine : kind.onLine = true) : P.lines (lineOf ts) (lineOf us) := by
  subst next
  cases near with
  | nil => cases onLine
  | cons first | opening first => exact first.lines onLine

theorem behind (near : P.Near ts us) (next : TokenReader.kindOf ts = kind) {o : Opening}
    (opens : kind.opening? = some o) : P.At o ts.tail us.tail := by
  subst next
  cases near with
  | nil => exact .inl .nil
  | cons _ others => exact .inl others
  | opening _ opens' parts =>
      cases opens.symm.trans opens'
      exact .inr parts

theorem tail (near : P.Near ts us) (next : TokenReader.kindOf ts = kind)
    (opens : kind.opening? = none) : P.Near ts.tail us.tail := by
  subst next
  cases near with
  | nil => exact .nil
  | cons _ others => exact others
  | opening _ opens' => cases opens.symm.trans opens'

end Near

end Parting

namespace Agree

variable {P : Parting} {β β' : Type} {related : β → β' → Prop} {ts us : List Token}

theorem unexpected (wanted : String) (near : P.Near ts us) :
    Agree P.lax related (unexpected wanted ts) (TokenReader.unexpected wanted us) := by
  unfold TokenReader.unexpected
  rw [← near.kindOf]
  cases kindOf ts with
  | name word =>
      dsimp only
      split <;> exact .refuse _ _ _
  | _ => exact .refuse _ _ _

theorem expect (kind : TokenKind) (near : P.Near ts us)
    {f : List Token → Except Refusal β} {g : List Token → Except Refusal β'}
    (onward : kindOf ts = kind → Agree P.lax related (f ts.tail) (g us.tail)) :
    Agree P.lax related (expect kind ts >>= f) (TokenReader.expect kind us >>= g) := by
  unfold TokenReader.expect
  rw [← near.kindOf]
  split
  · rename_i next
    exact onward next
  · have refused : Agree P.lax (fun _ _ => False)
        (TokenReader.unexpected (α := List Token) kind.title ts)
        (TokenReader.unexpected (α := List Token) kind.title us) := unexpected _ near
    exact refused.bind fun _ _ no => no.elim

theorem refused_expect {lax : Prop} {kind : TokenKind} {f : List Token → Except Refusal β}
    {y : Except Refusal β'} (allowed : lax) (differs : kindOf ts ≠ kind) :
    Agree lax related (TokenReader.expect kind ts >>= f) y := by
  refine .unless_refused allowed fun a done => ?_
  obtain ⟨rest, expected, _⟩ := exists_of_bind_ok done
  unfold TokenReader.expect at expected
  rw [if_neg differs] at expected
  exact absurd expected (unexpected_ne_ok _ _)

end Agree

end LessonScript
