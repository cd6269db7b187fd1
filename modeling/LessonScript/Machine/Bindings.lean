import LessonScript.Fault
import LessonScript.Value.Basic

/-!
Names and what they stand for.

The builtins of a run are a set fixed by the host.  Local bindings are kept in the order of
their names, each name once; they hide a builtin of the same name, and builtins are never
copied among them.
-/

namespace LessonScript

structure BuiltinSet where
  contains : Builtin → Bool

namespace BuiltinSet

def standard : BuiltinSet :=
  ⟨fun _ => true⟩

def empty : BuiltinSet :=
  ⟨fun _ => false⟩

def insert (set : BuiltinSet) (f : Builtin) : BuiltinSet :=
  ⟨fun g => g == f || set.contains g⟩

def erase (set : BuiltinSet) (f : Builtin) : BuiltinSet :=
  ⟨fun g => g != f && set.contains g⟩

def ofList (fs : List Builtin) : BuiltinSet :=
  fs.foldl insert empty

def toList (set : BuiltinSet) : List Builtin :=
  Builtin.all.filter set.contains

def lookup? (set : BuiltinSet) (name : String) : Option Builtin :=
  (Builtin.ofName? name).filter set.contains

theorem lookup?_eq_some_iff {set : BuiltinSet} {name : String} {f : Builtin} :
    set.lookup? name = some f ↔ name = f.name ∧ set.contains f = true := by
  rw [lookup?, Option.filter_eq_some_iff, Builtin.ofName?_eq_some_iff]

end BuiltinSet

abbrev Locals := List (String × Value)

namespace Locals

def find? (locals : Locals) (name : String) : Option Value :=
  locals.lookup name

def store : Locals → String → Value → Locals
  | [], name, v => [(name, v)]
  | (other, w) :: rest, name, v =>
    if name = other then (name, v) :: rest
    else if name < other then (name, v) :: (other, w) :: rest
    else (other, w) :: store rest name v

theorem mem_store {locals : Locals} {name : String} {v : Value} {entry : String × Value}
    (member : entry ∈ locals.store name v) : entry = (name, v) ∨ entry ∈ locals := by
  induction locals with
  | nil => exact .inl (List.mem_singleton.mp member)
  | cons first rest ih =>
      unfold store at member
      split at member
      · exact (List.mem_cons.mp member).imp_right (List.mem_cons_of_mem first)
      · split at member
        · exact List.mem_cons.mp member
        · cases List.mem_cons.mp member with
          | inl same => exact .inr (same ▸ List.mem_cons_self)
          | inr inRest => exact (ih inRest).imp_right (List.mem_cons_of_mem first)

def load? (locals : Locals) (builtins : BuiltinSet) (name : String) : Except Fault Value :=
  match locals.find? name with
  | some v => .ok v
  | none =>
    match builtins.lookup? name with
    | some f => .ok (.builtin f)
    | none => .error (.undefinedName name)

end Locals

end LessonScript
