import LessonScript.Binary64.Arithmetic
import LessonScript.Fault
import LessonScript.Script.Operator
import LessonScript.Value.Order

/-!
The operators of scripts on values.

On two integers the result is the exact one, or an overflow when it has no 64-bit form.
Where one operand is a floating point number the other is converted first.  Texts can be
joined and repeated up to a greatest length.  Every other pair of kinds is refused.
-/

namespace LessonScript.Value

def maxTextBytes : Nat :=
  0x100000

def unsupported (op : String) (a b : Value) : Fault :=
  .arithmetic (.operands op a.kind b.kind)

def ofExact (op : String) (n : Int) : Except Fault Value :=
  match checkedInt64 n with
  | some word => .ok (.int word)
  | none => .error (.overflow op)

def onNumbers (op : String) (f : Binary64 → Binary64 → Binary64) (a b : Value) :
    Except Fault Value :=
  match a.number?, b.number? with
  | some x, some y => .ok (.float (f x y))
  | _, _ => .error (unsupported op a b)

/-- The same where the second operand divides: zero is refused. -/
def onDivisor (op : String) (f : Binary64 → Binary64 → Binary64) (a b : Value) :
    Except Fault Value :=
  match a.number?, b.number? with
  | some x, some y =>
    if y.isZero then .error (.arithmetic .divisionByZero) else .ok (.float (f x y))
  | _, _ => .error (unsupported op a b)

def textTimes (s : String) (count : Nat) : String :=
  if count = 0 then ""
  else
    let half := textTimes s (count / 2)
    if count % 2 = 0 then half ++ half else half ++ half ++ s
termination_by count

theorem textTimes_eq (s : String) (count : Nat) :
    textTimes s count = String.join (List.replicate count s) := by
  fun_induction textTimes s count with
  | case1 => rfl
  | case2 count _ half hEven ih =>
    have hCount : count = count / 2 + count / 2 := by omega
    conv => rhs; rw [hCount]
    rw [← List.replicate_append_replicate, String.join_append, ← ih]
  | case3 count _ half hOdd ih =>
    have hCount : count = count / 2 + count / 2 + 1 := by omega
    conv => rhs; rw [hCount]
    rw [← List.replicate_append_replicate, ← List.replicate_append_replicate,
      String.join_append, String.join_append, ← ih]
    simp [half]

/-- The text so many times in a row; a negative count gives the empty text. -/
def repeated (s : String) (count : Int) : Except Fault Value :=
  if count < 0 ∨ s.isEmpty then .ok (.str "")
  else if s.utf8ByteSize * count.toNat ≤ maxTextBytes then
    .ok (.str (textTimes s count.toNat))
  else .error (.overflow "*")

/-- The sum of two values, or two texts joined. -/
def add : Value → Value → Except Fault Value
  | int a, int b => ofExact "+" (a.toInt + b.toInt)
  | str s, str t =>
    if s.utf8ByteSize + t.utf8ByteSize ≤ maxTextBytes then .ok (.str (s ++ t))
    else .error (.overflow "+")
  | a, b => onNumbers "+" .add a b

def subtract : Value → Value → Except Fault Value
  | int a, int b => ofExact "-" (a.toInt - b.toInt)
  | a, b => onNumbers "-" .sub a b

/-- The product of two values, or a text repeated. -/
def multiply : Value → Value → Except Fault Value
  | int a, int b => ofExact "*" (a.toInt * b.toInt)
  | str s, int n => repeated s n.toInt
  | int n, str s => repeated s n.toInt
  | a, b => onNumbers "*" .mul a b

/-- The quotient of two values, always a floating point number. -/
def trueDivide (a b : Value) : Except Fault Value :=
  onDivisor "/" .div a b

/-- The quotient of two values, rounded down. -/
def floorDivide : Value → Value → Except Fault Value
  | int a, int b =>
    if b = 0 then .error (.arithmetic .divisionByZero)
    else ofExact "//" (Int.fdiv a.toInt b.toInt)
  | a, b => onDivisor "//" (fun x y => (x.div y).floor) a b

/-- The remainder of the division that rounds down; it has the sign of the divisor. -/
def modulo : Value → Value → Except Fault Value
  | int a, int b =>
    if b = 0 then .error (.arithmetic .divisionByZero)
    else ofExact "%" (Int.fmod a.toInt b.toInt)
  | a, b => onDivisor "%" .modulo a b

def negate : Value → Except Fault Value
  | int a => ofExact "-" (-a.toInt)
  | float x => .ok (.float x.neg)
  | a => .error (.arithmetic (.operand "-" a.kind))

def arith : ArithOp → Value → Value → Except Fault Value
  | .add => add
  | .subtract => subtract
  | .multiply => multiply
  | .trueDivide => trueDivide
  | .floorDivide => floorDivide
  | .modulo => modulo

/-- Whether a comparison holds.  Equality is defined for every pair; a pair of numbers
without an order satisfies no other comparison. -/
def comparison (op : CompareOp) (a b : Value) : Except Fault Value :=
  match op with
  | .eq => .ok (.bool (a.equals b))
  | .ne => .ok (.bool (!a.equals b))
  | op =>
    match a.compare? b with
    | some order => .ok (.bool (op.holds order))
    | none =>
      if a.kind.isNumeric && b.kind.isNumeric then .ok (.bool false)
      else .error (unsupported op.symbol a b)

end LessonScript.Value
