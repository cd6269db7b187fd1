import LessonScript.Proofs.AlikeReading

/-!
Putting one piece of a script in the place of another.

On the same tokens a reader makes parts that are alike however many levels may still be opened, if
they are enough.  So two pieces are compared by what is read of them at any one level each: if these
parts have the same code, the pieces can be swapped behind a token that opens such a part.
-/

namespace LessonScript

open TokenReader ExprReader StmtReader

abbrev AnyLines : Nat → Nat → Prop :=
  fun _ _ => True

theorem AnyLines.refl (n : Nat) : AnyLines n n :=
  trivial

theorem AnyLines.trans (a b c : Nat) (_ : AnyLines a b) (_ : AnyLines b c) : AnyLines a c :=
  trivial

def SameKinds (ts us : List Token) : Prop :=
  ts.map Token.kind = us.map Token.kind

theorem SameKinds.length_eq {ts us : List Token} (same : SameKinds ts us) :
    ts.length = us.length := by
  have lengths := congrArg List.length same
  rwa [List.length_map, List.length_map] at lengths

theorem Parting.Near.of_sameKinds {P : Parting} (any : P.lines = AnyLines) {ts us : List Token}
    (same : SameKinds ts us) (short : ts.length ≤ P.bound) : P.Near ts us :=
  .of_alike (any ▸ tokensAlike_of_kinds same) short

theorem Parting.Near.sameKinds {bound : Nat} {lines : Nat → Nat → Prop} {lax : Prop}
    {ts us : List Token} (near : (Parting.nowhere bound lines lax).Near ts us) :
    SameKinds ts us := by
  induction near with
  | nil => rfl
  | cons first _ _ ih => exact congrArg₂ List.cons first.kind ih
  | opening _ _ parts => exact parts.elim

/-- On the same tokens, no more than so many, the readers make parts that are alike: one reader for
each number of levels, inside a loop or not. -/
def Steady {α : Type} (size : Nat) (alike : α → α → Prop) (reader : Nat → Bool → TokenReader α) :
    Prop :=
  ∀ n n' {inLoop inLoop' tokens}, (inLoop = true → inLoop' = true) → tokens.length ≤ size →
    Agree True (ReadAlike SameKinds alike) (reader n inLoop tokens) (reader n' inLoop' tokens)

section Levels

variable (bound : Nat)

theorem levels_any (n n' : Nat) : (Parting.nowhere bound AnyLines True).Levels n n' :=
  .inl trivial

theorem loops_mixed {inLoop inLoop' : Bool} (stays : inLoop = true → inLoop' = true) :
    (Parting.nowhere bound AnyLines True).Loops inLoop inLoop' := by
  cases inLoop with
  | true => exact .inr (stays rfl).symm
  | false =>
      cases inLoop' with
      | true => exact .inl ⟨trivial, rfl⟩
      | false => exact .inr rfl

variable {bound}

theorem near_self {tokens : List Token} (short : tokens.length ≤ bound) :
    (Parting.nowhere bound AnyLines True).Near tokens tokens :=
  .of_sameKinds rfl rfl short

theorem Agree.keepsKinds {α : Type} {alike : α → α → Prop} {x y : Except Refusal (α × List Token)}
    (agree : Agree True
      (ReadAlike ((Parting.nowhere bound AnyLines True).At .statement) alike) x y) :
    Agree True (ReadAlike SameKinds alike) x y :=
  agree.imp fun _ _ results => ⟨results.parts, results.rest.elim Parting.Near.sameKinds False.elim⟩

variable (bound)

theorem expression_steady :
    Steady bound (Expr.Alike AnyLines) fun n _ => (innerAt bound n).expression := by
  intro n n' _ _ tokens _ short
  have bridged := Parting.nowhere_bridged bound AnyLines True
  have inner := innerAt_agrees bridged.expressions (levels_any bound n n')
  exact (inner.expression _ _ (.inl (near_self short))).imp
    fun _ _ results => ⟨results.parts, results.rest.sameKinds⟩

theorem suites_agree (n n' : Nat) : (Parting.nowhere bound AnyLines True).SuitesAgree n n' :=
  suiteAt_agrees (Parting.nowhere_bridged bound AnyLines True) (levels_any bound n n')

theorem statement_steady :
    Steady bound (Stmt.Alike AnyLines) fun n inLoop =>
      readStatement bound (innerAt bound n).expression (suiteAt bound n) inLoop := by
  intro n n' _ _ tokens stays short
  exact (readStatement_agrees (Parting.nowhere_bridged bound AnyLines True) (levels_any bound n n')
    (suites_agree bound n n') (loops_mixed bound stays) _ _ (.inl (near_self short))).keepsKinds

theorem block_steady :
    Steady bound (Stmt.Alike AnyLines) fun n inLoop =>
      readBlock bound (innerAt bound n).expression (suiteAt bound n) inLoop := by
  intro n n' _ _ tokens stays short
  exact (readBlock_agrees (Parting.nowhere_bridged bound AnyLines True) (levels_any bound n n')
    (suites_agree bound n n') (loops_mixed bound stays) _ _ (.inl (near_self short))).keepsKinds

theorem branches_steady (k : Nat) :
    Steady (min bound k) (BranchesAlike AnyLines) fun n inLoop =>
      readBranches (innerAt bound n).expression (suiteAt bound n inLoop) k := by
  intro n n' _ _ tokens stays short
  have within : tokens.length ≤ k := short.trans (Nat.min_le_right _ _)
  exact (readBranches_agrees (Parting.nowhere_bridged bound AnyLines True) (levels_any bound n n')
    (suites_agree bound n n') (loops_mixed bound stays)
    (.inl (near_self (short.trans (Nat.min_le_left _ _)))) ⟨within, within⟩).keepsKinds

end Levels

def Parting.swap (bound : Nat) (places : Opening → Prop) (ts us : List Token) : Parting where
  bound := bound
  lines := AnyLines
  parts o ts' us' := places o ∧ ts' = ts ∧ us' = us
  lax := True
  mixed := False
  lax_of_mixed := False.elim

section Swap

variable {α : Type} {bound size m m' : Nat} {places : Opening → Prop}
  {ts us rest before after : List Token}

theorem Parting.swap_loops {inLoop inLoop' : Bool}
    (loops : (Parting.swap bound places before after).Loops inLoop inLoop') :
    inLoop = inLoop' :=
  loops.elim (fun mixed => mixed.1.elim) id

theorem Agree.atPlace {P : Parting} {o : Opening} {alike : α → α → Prop}
    {x y : Except Refusal (α × List Token)} (agree : Agree P.lax (ReadAlike P.Near alike) x y) :
    Agree P.lax (ReadAlike (P.At o) alike) x y :=
  agree.imp fun _ _ results => ⟨results.parts, .inl results.rest⟩

/-- Two pieces that are read at some levels, as parts that are alike, are read as such parts at all
levels that are enough. -/
theorem Steady.bridge {alike : α → α → Prop} {reader : Nat → Bool → TokenReader α}
    (steady : Steady size alike reader) (trans : ∀ {a b c}, alike a b → alike b c → alike a c)
    (n n' : Nat) (inLoop : Bool) {a b : α} (first : reader m inLoop ts = .ok (a, rest))
    (second : reader m' inLoop us = .ok (b, rest)) (same : alike a b) (short : ts.length ≤ size)
    (short' : us.length ≤ size) (behind : rest.length ≤ bound) :
    Agree True (ReadAlike (Parting.swap bound places before after).Near alike)
      (reader n inLoop ts) (reader n' inLoop us) := by
  have one : Agree True (ReadAlike SameKinds alike) (reader n inLoop ts) (reader m inLoop ts) :=
    steady n m id short
  have other : Agree True (ReadAlike SameKinds alike) (reader m' inLoop us)
      (reader n' inLoop us) := steady m' n' id short'
  rw [first] at one
  rw [second] at other
  refine one.through other fun c d left right => ?_
  exact ⟨trans left.parts (trans same right.parts),
    .of_sameKinds rfl (left.rest.trans right.rest) (left.rest.length_eq.trans_le behind)⟩

end Swap

/-- The last of the tokens opens this.  At the start of a script there is a statement. -/
def LeadsTo (o : Opening) (front : List Token) : Prop :=
  front = [] ∧ o = .statement ∨ ∃ before t, front = before ++ [t] ∧ t.kind.opening? = some o

theorem Parting.near_behind {P : Parting} {o : Opening} {front ts us : List Token} {t : Token}
    (lines : ∀ n, P.lines n n) (opens : t.kind.opening? = some o) (parts : P.parts o ts us)
    (short : (front ++ t :: ts).length ≤ P.bound ∧ (front ++ t :: us).length ≤ P.bound) :
    P.Near (front ++ t :: ts) (front ++ t :: us) := by
  induction front with
  | nil => exact .opening ⟨rfl, fun _ => lines _⟩ opens parts short
  | cons u front ih =>
      have shorter := ih ⟨Nat.le_of_succ_le short.1, Nat.le_of_succ_le short.2⟩
      exact .cons ⟨rfl, fun _ => lines _⟩ shorter short

theorem LeadsTo.at_place {P : Parting} {o : Opening} {front ts us : List Token}
    (leads : LeadsTo o front) (lines : ∀ n, P.lines n n) (parts : P.parts o ts us)
    (short : (front ++ ts).length ≤ P.bound ∧ (front ++ us).length ≤ P.bound) :
    P.At .statement (front ++ ts) (front ++ us) := by
  rcases leads with ⟨rfl, rfl⟩ | ⟨before, t, rfl, opens⟩
  · exact .inr parts
  · rw [List.append_assoc, List.append_assoc] at short ⊢
    exact .inl (Parting.near_behind lines opens parts short)

end LessonScript
