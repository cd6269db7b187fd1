import LessonScript.Program.OfScript

/-!
Operands that refer to the tables of a program.

A part of a script is known to the tables when they have an entry for each of its literals
and names.  The tables collected from a script know the whole script, and an index computed
from tables that know an entry leads back to that entry.
-/

namespace LessonScript

theorem mem_intern {α : Type} [BEq α] [LawfulBEq α] (pool : List α) (x y : α) :
    y ∈ intern pool x ↔ y ∈ pool ∨ y = x := by
  unfold intern
  split
  · rename_i known
    constructor
    · exact Or.inl
    · rintro (member | rfl)
      · exact member
      · exact List.contains_iff_mem.mp known
  · simp

theorem mem_foldl_intern {α : Type} [BEq α] [LawfulBEq α] (xs pool : List α) (y : α) :
    y ∈ xs.foldl intern pool ↔ y ∈ pool ∨ y ∈ xs := by
  induction xs generalizing pool with
  | nil => simp
  | cons x xs ih =>
      rw [List.foldl_cons, ih, mem_intern, List.mem_cons, or_assoc]

theorem mem_poolOf {α : Type} [BEq α] [LawfulBEq α] (xs : List α) (y : α) :
    y ∈ poolOf xs ↔ y ∈ xs := by
  simp [poolOf, mem_foldl_intern]

mutual

/-- The tables have an entry for every literal and name of the expression. -/
def Expr.KnownTo (t : Tables) : Expr → Prop
  | .literal _ value => value ∈ t.literals
  | .name _ id => id ∈ t.names
  | .negate _ e | .complement _ e => e.KnownTo t
  | .arith _ _ l r | .compare _ _ l r | .both _ l r | .either _ l r => l.KnownTo t ∧ r.KnownTo t
  | .call _ callee args => callee.KnownTo t ∧ AllKnownTo t args

def AllKnownTo (t : Tables) : List Expr → Prop
  | [] => True
  | e :: es => e.KnownTo t ∧ AllKnownTo t es

end

/-- The tables have an entry for every literal and name of the statement. -/
def Stmt.KnownTo (t : Tables) : Stmt → Prop
  | .skip | .breakLoop _ | .continueLoop _ => True
  | .seq first second => first.KnownTo t ∧ second.KnownTo t
  | .evaluate _ e => e.KnownTo t
  | .assign _ id e | .augment _ id _ _ e => id ∈ t.names ∧ e.KnownTo t
  | .ifThen _ test body | .whileLoop _ test body => test.KnownTo t ∧ body.KnownTo t
  | .ifElse _ test body _ orelse => test.KnownTo t ∧ body.KnownTo t ∧ orelse.KnownTo t
  | .forLoop _ id iterable body => id ∈ t.names ∧ iterable.KnownTo t ∧ body.KnownTo t

structure Tables.Has (t : Tables) (literals : List Literal) (names : List String) : Prop where
  literals : ∀ l ∈ literals, l ∈ t.literals
  names : ∀ id ∈ names, id ∈ t.names

mutual

theorem Expr.knownTo_of_has {t : Tables} (e : Expr) {ls : List Literal} {ids : List String}
    (has : t.Has (e.literalsBefore ls) (e.namesBefore ids)) : e.KnownTo t ∧ t.Has ls ids := by
  cases e with
  | literal _ value =>
      have known := has.literals value (List.mem_cons_self ..)
      exact ⟨known, fun l member => has.literals l (List.mem_cons_of_mem _ member), has.names⟩
  | name _ id =>
      have known := has.names id (List.mem_cons_self ..)
      exact ⟨known, has.literals, fun x member => has.names x (List.mem_cons_of_mem _ member)⟩
  | negate _ e | complement _ e => exact e.knownTo_of_has has
  | arith _ _ l r | compare _ _ l r | both _ l r | either _ l r =>
      obtain ⟨left, has⟩ := l.knownTo_of_has has
      obtain ⟨right, has⟩ := r.knownTo_of_has has
      exact ⟨⟨left, right⟩, has⟩
  | call _ callee args =>
      obtain ⟨known, has⟩ := callee.knownTo_of_has has
      obtain ⟨allKnown, has⟩ := allKnownTo_of_has args has
      exact ⟨⟨known, allKnown⟩, has⟩

theorem allKnownTo_of_has {t : Tables} (es : List Expr) {ls : List Literal} {ids : List String}
    (has : t.Has (literalsOfAllBefore es ls) (namesOfAllBefore es ids)) :
    AllKnownTo t es ∧ t.Has ls ids := by
  cases es with
  | nil => exact ⟨trivial, has⟩
  | cons e es =>
      obtain ⟨known, has⟩ := e.knownTo_of_has has
      obtain ⟨allKnown, has⟩ := allKnownTo_of_has es has
      exact ⟨⟨known, allKnown⟩, has⟩

end

theorem Tables.Has.tailNames {t : Tables} {ls : List Literal} {id : String} {ids : List String}
    (has : t.Has ls (id :: ids)) : id ∈ t.names ∧ t.Has ls ids :=
  ⟨has.names id (List.mem_cons_self ..), has.literals,
    fun x member => has.names x (List.mem_cons_of_mem _ member)⟩

theorem Stmt.knownTo_of_has {t : Tables} (s : Stmt) {ls : List Literal} {ids : List String}
    (has : t.Has (s.literalsBefore ls) (s.namesBefore ids)) : s.KnownTo t ∧ t.Has ls ids := by
  induction s generalizing ls ids with
  | skip | breakLoop | continueLoop => exact ⟨trivial, has⟩
  | seq first second ihFirst ihSecond =>
      obtain ⟨knownFirst, has⟩ := ihFirst has
      obtain ⟨knownSecond, has⟩ := ihSecond has
      exact ⟨⟨knownFirst, knownSecond⟩, has⟩
  | evaluate _ e => exact e.knownTo_of_has has
  | assign _ id e | augment _ id _ _ e =>
      rcases has.tailNames with ⟨member, has⟩
      obtain ⟨known, has⟩ := e.knownTo_of_has has
      exact ⟨⟨member, known⟩, has⟩
  | ifThen _ test body ih | whileLoop _ test body ih =>
      obtain ⟨known, has⟩ := test.knownTo_of_has has
      obtain ⟨knownBody, has⟩ := ih has
      exact ⟨⟨known, knownBody⟩, has⟩
  | ifElse _ test body _ orelse ihBody ihElse =>
      obtain ⟨known, has⟩ := test.knownTo_of_has has
      obtain ⟨knownBody, has⟩ := ihBody has
      obtain ⟨knownElse, has⟩ := ihElse has
      exact ⟨⟨known, knownBody, knownElse⟩, has⟩
  | forLoop _ id iterable body ih =>
      obtain ⟨known, has⟩ := iterable.knownTo_of_has has
      rcases has.tailNames with ⟨member, has⟩
      obtain ⟨knownBody, has⟩ := ih has
      exact ⟨⟨member, known, knownBody⟩, has⟩

theorem Tables.ofStmt_knows (body : Stmt) :
    body.KnownTo (.ofStmt body) ∧ Literal.nothing ∈ (Tables.ofStmt body).literals := by
  have has : (Tables.ofStmt body).Has (body.literalsBefore [.nothing]) (body.namesBefore []) :=
    ⟨fun l member => (mem_poolOf _ l).mpr member, fun id member => (mem_poolOf _ id).mpr member⟩
  obtain ⟨known, rest⟩ := body.knownTo_of_has has
  exact ⟨known, rest.literals .nothing (List.mem_cons_self ..)⟩

/-- The constants and names of the program are the entries of the tables. -/
structure Program.Uses (p : Program) (t : Tables) : Prop where
  constants : p.constants.toList = t.literals.map Literal.value
  names : p.names.toList = t.names

theorem Program.ofScript_uses (script : Script) :
    (ofScript script).Uses (.ofStmt script.body) :=
  ⟨rfl, rfl⟩

theorem Program.Uses.constant {p : Program} {t : Tables} (uses : p.Uses t) {l : Literal}
    (known : l ∈ t.literals) : p.constants[t.literals.idxOf l]? = some l.value := by
  rw [← Array.getElem?_toList, uses.constants, List.getElem?_map,
    List.getElem?_eq_getElem (List.idxOf_lt_length_iff.mpr known), List.getElem_idxOf]
  rfl

theorem Program.Uses.name {p : Program} {t : Tables} (uses : p.Uses t) {id : String}
    (known : id ∈ t.names) : p.names[t.names.idxOf id]? = some id := by
  rw [← Array.getElem?_toList, uses.names,
    List.getElem?_eq_getElem (List.idxOf_lt_length_iff.mpr known), List.getElem_idxOf]

/-- The entries from `base` on begin with those of the list. -/
def Lies {α : Type} (entryAt : Nat → Option α) (base : Nat) (xs : List α) : Prop :=
  ∀ j (within : j < xs.length), entryAt (base + j) = some xs[j]

section Lies

variable {α : Type} {entryAt : Nat → Option α} {base : Nat} {x : α} {xs front back : List α}

theorem Lies.left (lies : Lies entryAt base (front ++ back)) : Lies entryAt base front := by
  intro j within
  have found := lies j (by simp; omega)
  rwa [List.getElem_append_left within] at found

theorem Lies.right (lies : Lies entryAt base (front ++ back)) :
    Lies entryAt (base + front.length) back := by
  intro j within
  have found := lies (front.length + j) (by simp; omega)
  rw [List.getElem_append_right (by omega)] at found
  simpa [Nat.add_assoc] using found

theorem Lies.behind {size : Nat} (lies : Lies entryAt base (front ++ back))
    (length : front.length = size) : Lies entryAt (base + size) back := by
  rw [← length]
  exact lies.right

theorem Lies.head (lies : Lies entryAt base (x :: xs)) : entryAt base = some x :=
  lies 0 (Nat.succ_pos _)

theorem Lies.tail (lies : Lies entryAt base (x :: xs)) : Lies entryAt (base + 1) xs := by
  intro j within
  have found := lies (j + 1) (by simp; omega)
  rwa [List.getElem_cons_succ, ← Nat.add_assoc, Nat.add_right_comm] at found

theorem lies_getElem? (xs : List α) : Lies (fun i => xs[i]?) 0 xs := by
  intro j within
  simp

end Lies

theorem length_operands (t : Tables) (base : Nat) (l r : Expr) :
    (l.code t base ++ r.code t (base + l.size)).length = l.size + r.size := by
  rw [List.length_append, l.length_code, r.length_code]

/-- The code stands in the program from instruction `base` on. -/
abbrev Program.Holds (p : Program) (base : Nat) (code : List Instruction) : Prop :=
  Lies (fun i => p.code[i]?) base code

theorem Program.holds_self (p : Program) : p.Holds 0 p.code.toList := by
  intro j within
  simp

end LessonScript
