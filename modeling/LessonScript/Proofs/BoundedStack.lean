import LessonScript.Machine.Stack

/-!
The value stack as a bounded list.

Seen from the bottom to the top a stack is a list that grows and shrinks at its end.  An operation
succeeds exactly if there is room for the value to push, or if there are as many values as it needs
(`Stack.Admits`); it does then what the same operation does on a list (`OnList`), and otherwise it
leaves the stack as it was (`Stack.perform_of_admits`, `Stack.perform_of_not_admits`).  So do any
number of operations in turn (`Stack.serve_onList`).  Taking many values is taking them one by one
(`Stack.popMany_eq`), but for a stack with too few of them, where the single ones would be gone.
-/

namespace LessonScript

/-- An operation on a stack, with the opcode that asks for it. -/
inductive StackCall where
  | push (v : Value)
  | pop (opcode : String)
  | peek (opcode : String)
  /-- Change the value on top in its place. -/
  | update (change : Value → Value) (opcode : String)
  | popMany (count : Nat) (opcode : String)

/-- What an operation does to a list of values, the last of which is on top: the list before, the
operation, the values that it returns, and the list after. -/
inductive OnList : List Value → StackCall → List Value → List Value → Prop
  | push (xs : List Value) (v : Value) : OnList xs (.push v) [] (xs ++ [v])
  | pop (xs : List Value) (v : Value) (opcode : String) : OnList (xs ++ [v]) (.pop opcode) [v] xs
  | peek (xs : List Value) (v : Value) (opcode : String) :
      OnList (xs ++ [v]) (.peek opcode) [v] (xs ++ [v])
  | update (xs : List Value) (v : Value) (change : Value → Value) (opcode : String) :
      OnList (xs ++ [v]) (.update change opcode) [v] (xs ++ [change v])
  | popMany (xs vs : List Value) (opcode : String) :
      OnList (xs ++ vs) (.popMany vs.length opcode) vs xs

/-- Operations in turn, each with the values that it returns, take one list to another. -/
inductive AllOnList : List Value → List (StackCall × List Value) → List Value → Prop
  | nil (xs : List Value) : AllOnList xs [] xs
  | cons {xs ys zs answer : List Value} {call : StackCall}
      {calls : List (StackCall × List Value)} (first : OnList xs call answer ys)
      (others : AllOnList ys calls zs) : AllOnList xs ((call, answer) :: calls) zs

namespace Stack

variable {s : Stack} {call : StackCall}

/-- The values of the stack, the top last. -/
def contents (s : Stack) : List Value :=
  s.values.reverse

/-- The operation on a stack, which leaves a stack also when it fails. -/
def perform : StackCall → EStateM Fault Stack (List Value)
  | .push v => do
    push v
    return []
  | .pop opcode => return [← pop opcode]
  | .peek opcode => return [← peek opcode]
  | .update change opcode => return [← updateTop change opcode]
  | .popMany count opcode => popMany count opcode

/-- The operation as a function of the stack. -/
def perform? (s : Stack) : StackCall → Except Fault (List Value × Stack)
  | .push v => do return ([], ← s.push? v)
  | .pop opcode => do
    let (v, s) ← s.pop? opcode
    return ([v], s)
  | .peek opcode => do return ([← s.peek? opcode], s)
  | .update change opcode => do
    let v ← s.peek? opcode
    return ([v], ← s.replaceTop? (change v) opcode)
  | .popMany count opcode => s.popMany? count opcode

/-- The operations in turn, from a stack on, each on what the one before has left.  Those that
succeed are returned with their values. -/
def serve (s : Stack) : List StackCall → List (StackCall × List Value) × Stack
  | [] => ([], s)
  | call :: calls =>
    match perform call s with
    | .ok answer t => ((call, answer) :: (t.serve calls).1, (t.serve calls).2)
    | .error _ left => left.serve calls

/-- There is room for the value, or there are the values that the operation needs. -/
def Admits (s : Stack) : StackCall → Prop
  | .push _ => s.depth < s.limit
  | .pop _ | .peek _ | .update .. => 1 ≤ s.depth
  | .popMany count _ => count ≤ s.depth

/-- How an operation fails. -/
def refusal (s : Stack) : StackCall → Fault
  | .push _ => .limit (.depth s.limit)
  | .pop opcode | .peek opcode | .update _ opcode | .popMany _ opcode => .underflow opcode

theorem depth_le_limit (s : Stack) : s.depth ≤ s.limit :=
  Nat.le_add_right _ _

theorem perform_of_admits (admits : s.Admits call) :
    ∃ answer t, perform call s = .ok answer t ∧ s.perform? call = .ok (answer, t) ∧
      OnList s.contents call answer t.contents ∧ t.limit = s.limit := by
  cases s with
  | mk values room =>
      cases call with
      | push v =>
          cases room with
          | zero => exact absurd admits (Nat.lt_irrefl _)
          | succ room =>
              refine ⟨[], ⟨v :: values, room⟩, rfl, rfl, ?_, ?_⟩
              · rw [contents, contents, List.reverse_cons]
                exact .push _ v
              · exact Nat.succ_add_eq_add_succ values.length room
      | pop opcode =>
          cases values with
          | nil => exact absurd admits (Nat.not_succ_le_zero 0)
          | cons v values =>
              refine ⟨[v], ⟨values, room + 1⟩, rfl, rfl, ?_, ?_⟩
              · rw [contents, contents, List.reverse_cons]
                exact .pop _ v opcode
              · exact (Nat.succ_add_eq_add_succ values.length room).symm
      | peek opcode =>
          cases values with
          | nil => exact absurd admits (Nat.not_succ_le_zero 0)
          | cons v values =>
              refine ⟨[v], ⟨v :: values, room⟩, rfl, rfl, ?_, rfl⟩
              rw [contents, List.reverse_cons]
              exact .peek _ v opcode
      | update change opcode =>
          cases values with
          | nil => exact absurd admits (Nat.not_succ_le_zero 0)
          | cons v values =>
              refine ⟨[v], ⟨change v :: values, room⟩, rfl, rfl, ?_, rfl⟩
              rw [contents, contents, List.reverse_cons, List.reverse_cons]
              exact .update _ v change opcode
      | popMany count opcode =>
          have enough : count ≤ values.length := admits
          refine ⟨(values.take count).reverse, ⟨values.drop count, room + count⟩, if_pos enough,
            if_pos enough, ?_, ?_⟩
          · -- The values are taken from the front of a list that the contents are the reverse of.
            have taken : (values.take count).reverse.length = count := by
              rw [List.length_reverse, List.length_take_of_le enough]
            have popped := OnList.popMany (values.drop count).reverse (values.take count).reverse
              opcode
            rw [taken, ← List.reverse_append, List.take_append_drop] at popped
            exact popped
          · change (values.drop count).length + (room + count) = values.length + room
            rw [List.length_drop]
            omega

theorem perform_of_not_admits (refused : ¬ s.Admits call) :
    perform call s = .error (s.refusal call) s ∧ s.perform? call = .error (s.refusal call) := by
  cases s with
  | mk values room =>
      cases call with
      | push v =>
          cases room with
          | zero => exact ⟨rfl, rfl⟩
          | succ room => exact absurd (Nat.lt_add_of_pos_right (Nat.succ_pos room)) refused
      | pop | peek | update =>
          cases values with
          | nil => exact ⟨rfl, rfl⟩
          | cons v values => exact absurd (Nat.succ_pos values.length) refused
      | popMany count opcode => exact ⟨if_neg refused, if_neg refused⟩

/-- So many values, one after the other, the top first. -/
def popEach (opcode : String) : Nat → EStateM Fault Stack (List Value)
  | 0 => return []
  | count + 1 => do
    let v ← pop opcode
    return v :: (← popEach opcode count)

theorem popEach_succ (v : Value) (values : List Value) (room : Nat) (opcode : String)
    (count : Nat) :
    popEach opcode (count + 1) ⟨v :: values, room⟩ =
      match popEach opcode count ⟨values, room + 1⟩ with
      | .ok vs t => .ok (v :: vs) t
      | .error fault left => .error fault left := by
  change EStateM.bind (popEach opcode count) (fun vs => pure (v :: vs)) ⟨values, room + 1⟩ = _
  unfold EStateM.bind
  cases popEach opcode count ⟨values, room + 1⟩ <;> rfl

theorem popEach_eq (opcode : String) (count : Nat) (s : Stack) :
    popEach opcode count s =
      if count ≤ s.depth then
        .ok (s.values.take count) ⟨s.values.drop count, s.room + count⟩
      else .error (.underflow opcode) ⟨[], s.limit⟩ := by
  induction count generalizing s with
  | zero => rfl
  | succ count ih =>
      cases s with
      | mk values room =>
          cases values with
          | nil => exact congrArg (EStateM.Result.error _) (congrArg (mk []) (Nat.zero_add room).symm)
          | cons v values =>
              rw [popEach_succ, ih]
              by_cases enough : count ≤ depth ⟨values, room + 1⟩
              · have enough' : count + 1 ≤ depth ⟨v :: values, room⟩ := Nat.succ_le_succ enough
                have more : room + 1 + count = room + (count + 1) := Nat.add_right_comm room 1 count
                rw [if_pos enough, if_pos enough', ← more]
                rfl
              · have short : ¬ count + 1 ≤ depth ⟨v :: values, room⟩ :=
                  fun enough' => enough (Nat.le_of_succ_le_succ enough')
                rw [if_neg enough, if_neg short]
                exact congrArg (EStateM.Result.error _)
                  (congrArg (mk []) (Nat.succ_add_eq_add_succ values.length room).symm)

/-- Taking many values at once gives what taking them one by one gives, in reverse, and takes none
where that fails. -/
theorem popMany_eq (opcode : String) (count : Nat) (s : Stack) :
    popMany count opcode s =
      match popEach opcode count s with
      | .ok vs t => .ok vs.reverse t
      | .error fault _ => .error fault s := by
  rw [popEach_eq, popMany]
  split <;> rfl

theorem serve_onList (s : Stack) (calls : List StackCall) :
    AllOnList s.contents (s.serve calls).1 (s.serve calls).2.contents ∧
      (s.serve calls).2.limit = s.limit := by
  induction calls generalizing s with
  | nil => exact ⟨.nil _, rfl⟩
  | cons call calls ih =>
      by_cases admits : s.Admits call
      · obtain ⟨answer, t, performed, _, onList, limit⟩ := perform_of_admits admits
        rw [serve, performed]
        exact ⟨.cons onList (ih t).1, (ih t).2.trans limit⟩
      · rw [serve, (perform_of_not_admits admits).1]
        exact ih s

/-- After any operations on an empty stack, the stack is within its limit, and the operations that
succeeded are those of a list, from the empty one on.  A further operation succeeds exactly if it
finds the room or the values that it needs, and otherwise it leaves the stack as it is.  Taking
many values is taking them one by one. -/
theorem stack_is_bounded_list (limit : Nat) (calls : List StackCall) :
    let s := ((withLimit limit).serve calls).2
    s.depth ≤ limit ∧ s.limit = limit ∧
      (∀ call,
        (s.Admits call ∧ ∃ answer t,
          perform call s = .ok answer t ∧ s.perform? call = .ok (answer, t)) ∨
        (¬ s.Admits call ∧ perform call s = .error (s.refusal call) s ∧
          s.perform? call = .error (s.refusal call))) ∧
      (∀ count opcode, popMany count opcode s =
        match popEach opcode count s with
        | .ok vs t => .ok vs.reverse t
        | .error fault _ => .error fault s) ∧
      AllOnList [] ((withLimit limit).serve calls).1 s.contents := by
  intro s
  have served := serve_onList (withLimit limit) calls
  have kept : s.limit = limit := served.2.trans (Nat.zero_add limit)
  refine ⟨kept ▸ s.depth_le_limit, kept, ?_, fun count opcode => popMany_eq opcode count s,
    served.1⟩
  intro call
  by_cases admits : s.Admits call
  · obtain ⟨answer, t, performed, performed', _⟩ := perform_of_admits admits
    exact .inl ⟨admits, answer, t, performed, performed'⟩
  · exact .inr ⟨admits, perform_of_not_admits admits⟩

end Stack

end LessonScript
