import LessonScript.Program.Instruction
import LessonScript.Script.Tree

/-!
The constants and names that a script refers to.

They are collected in the order in which the code of the script brings them up, and each is
entered once, where it comes up first.  Collecting puts what a part of the tree refers to in
front of what comes behind it, so no list is copied.
-/

namespace LessonScript

def intern {α : Type} [BEq α] (pool : List α) (x : α) : List α :=
  if pool.contains x then pool else pool ++ [x]

/-- The entries of a list, each once, in the order of their first occurrence. -/
def poolOf {α : Type} [BEq α] (xs : List α) : List α :=
  xs.foldl intern []

mutual

/-- The literals of an expression, in the order of its code, in front of others. -/
def Expr.literalsBefore : Expr → List Literal → List Literal
  | .literal _ value, rest => value :: rest
  | .name .., rest => rest
  | .negate _ e, rest | .complement _ e, rest => e.literalsBefore rest
  | .arith _ _ l r, rest | .compare _ _ l r, rest | .both _ l r, rest | .either _ l r, rest =>
    l.literalsBefore (r.literalsBefore rest)
  | .call _ callee args, rest => callee.literalsBefore (literalsOfAllBefore args rest)

def literalsOfAllBefore : List Expr → List Literal → List Literal
  | [], rest => rest
  | e :: es, rest => e.literalsBefore (literalsOfAllBefore es rest)

end

mutual

def Expr.namesBefore : Expr → List String → List String
  | .literal .., rest => rest
  | .name _ id, rest => id :: rest
  | .negate _ e, rest | .complement _ e, rest => e.namesBefore rest
  | .arith _ _ l r, rest | .compare _ _ l r, rest | .both _ l r, rest | .either _ l r, rest =>
    l.namesBefore (r.namesBefore rest)
  | .call _ callee args, rest => callee.namesBefore (namesOfAllBefore args rest)

def namesOfAllBefore : List Expr → List String → List String
  | [], rest => rest
  | e :: es, rest => e.namesBefore (namesOfAllBefore es rest)

end

def Stmt.literalsBefore : Stmt → List Literal → List Literal
  | .skip, rest | .breakLoop _, rest | .continueLoop _, rest => rest
  | .seq first second, rest => first.literalsBefore (second.literalsBefore rest)
  | .evaluate _ e, rest | .assign _ _ e, rest | .augment _ _ _ _ e, rest => e.literalsBefore rest
  | .ifThen _ test body, rest => test.literalsBefore (body.literalsBefore rest)
  | .ifElse _ test body _ orelse, rest =>
    test.literalsBefore (body.literalsBefore (orelse.literalsBefore rest))
  | .whileLoop _ test body, rest => test.literalsBefore (body.literalsBefore rest)
  | .forLoop _ _ iterable body, rest => iterable.literalsBefore (body.literalsBefore rest)

/-- The names of a statement, in the order in which it brings them up, in front of others: an
assigned name comes before the names of its expression, and a loop variable between the
iterable and the body. -/
def Stmt.namesBefore : Stmt → List String → List String
  | .skip, rest | .breakLoop _, rest | .continueLoop _, rest => rest
  | .seq first second, rest => first.namesBefore (second.namesBefore rest)
  | .evaluate _ e, rest => e.namesBefore rest
  | .assign _ id e, rest | .augment _ id _ _ e, rest => id :: e.namesBefore rest
  | .ifThen _ test body, rest => test.namesBefore (body.namesBefore rest)
  | .ifElse _ test body _ orelse, rest =>
    test.namesBefore (body.namesBefore (orelse.namesBefore rest))
  | .whileLoop _ test body, rest => test.namesBefore (body.namesBefore rest)
  | .forLoop _ id iterable body, rest => iterable.namesBefore (id :: body.namesBefore rest)

structure Tables where
  literals : List Literal
  names : List String

namespace Tables

/-- The tables of a script; the value with which a script ends comes last. -/
def ofStmt (body : Stmt) : Tables :=
  ⟨poolOf (body.literalsBefore [.nothing]), poolOf (body.namesBefore [])⟩

def load (t : Tables) (l : Literal) : Opcode :=
  .loadConst (t.literals.idxOf l)

def loadName (t : Tables) (id : String) : Opcode :=
  .loadName (t.names.idxOf id)

def storeName (t : Tables) (id : String) : Opcode :=
  .storeName (t.names.idxOf id)

end Tables

end LessonScript
