import LessonScript.Binary64.Reading
import LessonScript.Machine.Host
import LessonScript.Text.Lines
import LessonScript.Value.Arithmetic
import LessonScript.Value.Text

/-!
What the builtins do.

All but `print` and `input` are functions of their arguments; these two are the only way
from a script to its host.  Arguments are checked in the order in which they stand.
-/

namespace LessonScript.Builtin

/-- The truncated or rounded number as an integer; what is not finite is refused. -/
def integerOf (f : Builtin) (x : Binary64) (n : Option Int) : Except Fault Value :=
  match n with
  | some n => Value.ofExact f.name n
  | none => .error (.argument f.name ("cannot convert float " ++ x.text ++ " to integer"))

def absOf : Value → Except Fault Value
  | .int n => Value.ofExact "abs" n.toInt.natAbs
  | .float x => .ok (.float x.abs)
  | v => .error (.typeMismatch "a number" v.kind)

def lenOf : Value → Except Fault Value
  | .str s => Value.ofExact "len" s.length
  | .range p => Value.ofExact "len" p.length
  | v => .error (.typeMismatch "a str or range" v.kind)

def intOf : Value → Except Fault Value
  | .int n => .ok (.int n)
  | .bool b => .ok (.int (if b then 1 else 0))
  | .float x => integerOf int x x.truncate?
  | .str s =>
    match Text.readInt64? (Text.trim s.toList) with
    | some n => .ok (.int n)
    | none => .error (.argument int.name ("invalid literal for int(): " ++ quoted s))
  | v => .error (.typeMismatch "a number or str" v.kind)

def floatOf : Value → Except Fault Value
  | .int n => .ok (.float (.ofInt n.toInt))
  | .float x => .ok (.float x)
  | .bool b => .ok (.float (.ofInt (if b then 1 else 0)))
  | .str s =>
    match Binary64.ofChars? (Text.trim s.toList) with
    | some x => .ok (.float x)
    | none => .error (.argument float.name ("could not convert string to float: " ++ quoted s))
  | v => .error (.typeMismatch "a number or str" v.kind)

/-- The multiple of a power of ten nearest to an integer, a tie going to the even multiple.  It is
found with words of 128 bits: a power that is none gives zero, and twice the remainder wraps
around. -/
def nearestMultiple (n : Int) (power : Nat) : Int :=
  if 39 ≤ power then 0
  else
    let unit : Int := Nat.pow 10 power
    let quotient := n / unit
    let twice := (BitVec.ofInt 128 (2 * (n % unit))).toInt
    if unit < twice ∨ (twice = unit ∧ quotient % 2 ≠ 0) then (quotient + 1) * unit
    else quotient * unit

/-- The integer rounded to so many decimal places; only a negative count changes it. -/
def roundInt (n : Int64) (places : Int) : Except Fault Value :=
  if 0 ≤ places then .ok (.int n)
  else Value.ofExact "round" (nearestMultiple n.toInt places.natAbs)

def placesOf : Option Value → Except Fault (Option Int64)
  | none | some .nothing => .ok none
  | some (.int n) => .ok (some n)
  | some v => .error (.typeMismatch "an integer" v.kind)

/-- A number rounded, ties to even: to an integer without a count of places, and otherwise
to a number of its own kind. -/
def roundOf (v : Value) (places : Option Value) : Except Fault Value := do
  match v, ← placesOf places with
  | .int n, none => .ok (.int n)
  | .int n, some places => roundInt n places.toInt
  | .float x, none => integerOf round x x.roundEven.truncate?
  | .float x, some places => .ok (.float (x.roundPlaces places.toInt))
  | v, _ => .error (.typeMismatch "a number" v.kind)

def integers : List Value → Except Fault (List Int64)
  | [] => .ok []
  | .int n :: rest => (integers rest).map (n :: ·)
  | v :: _ => .error (.typeMismatch "an integer" v.kind)

theorem exists_of_integers_error {values : List Value} {fault : Fault}
    (failed : integers values = .error fault) :
    ∃ v ∈ values, fault = .typeMismatch "an integer" v.kind := by
  fun_induction integers values with
  | case1 => cases failed
  | case2 n rest ih =>
      cases tail : integers rest with
      | error inner =>
          rw [tail] at failed
          cases failed
          obtain ⟨v, member, same⟩ := ih tail
          exact ⟨v, List.mem_cons_of_mem _ member, same⟩
      | ok ns =>
          rw [tail] at failed
          cases failed
  | case3 v rest _ =>
      cases failed
      exact ⟨v, List.mem_cons_self .., rfl⟩

def rangeOf (args : List Value) : Except Fault Value := do
  let progression := match ← integers args with
    | [stop] => Progression.ofBounds? 0 stop 1
    | [start, stop] => Progression.ofBounds? start stop 1
    | start :: stop :: step :: _ => Progression.ofBounds? start stop step
    | [] => none
  match progression with
  | some p => .ok (.range p)
  | none => .error (.argument range.name "step must not be zero")

def extremeSymbol : Ordering → String
  | .lt => "<"
  | _ => ">"

def emptySequence (f : Builtin) : Fault :=
  .argument f.name "arg is an empty sequence"

/-- The best of an item and the following ones: an item replaces an earlier one when it
stands in the wanted order to it.  Numbers without an order are passed over. -/
def bestOf (want : Ordering) : Value → List Value → Except Fault Value
  | best, [] => .ok best
  | best, item :: rest =>
    match item.compare? best with
    | some order => bestOf want (if order = want then item else best) rest
    | none =>
      if item.kind.isNumeric && best.kind.isNumeric then bestOf want best rest
      else .error (Value.unsupported (extremeSymbol want) item best)

def extremeOf (f : Builtin) (want : Ordering) : List Value → Except Fault Value
  | [] => .error (emptySequence f)
  | first :: rest => bestOf want first rest

def extremeOfProgression (f : Builtin) (want : Ordering) (p : Progression) :
    Except Fault Value :=
  if p.length = 0 then .error (emptySequence f)
  else
    let first := p.start.toInt
    let last := first + ((p.length : Int) - 1) * p.step.toInt
    let pick := if want = .lt then Min.min first last else Max.max first last
    match checkedInt64 pick with
    | some n => .ok (.int n)
    | none => .error (.internal "range bound out of i64")

def extreme (f : Builtin) (want : Ordering) (args : List Value) : Except Fault Value :=
  match args with
  | [.range p] => extremeOfProgression f want p
  | [.str s] => extremeOf f want (s.toList.map fun c => .str (String.ofList [c]))
  | [v] => .error (.typeMismatch "an iterable (range or str)" v.kind)
  | args => extremeOf f want args

/-- The result of a builtin that does not reach its host, for a count of arguments that it
accepts. -/
def resultOf (f : Builtin) (args : List Value) : Except Fault Value :=
  let first : Except Fault Value :=
    match args with
    | v :: _ => .ok v
    | [] => .error (.internal "builtin called with too few arguments")
  match f with
  | print | input => .ok .nothing
  | abs => do absOf (← first)
  | min => extreme min .lt args
  | max => extreme max .gt args
  | len => do lenOf (← first)
  | str => do return .str (← first).text
  | int => do intOf (← first)
  | float => do floatOf (← first)
  | round => do roundOf (← first) args[1]?
  | range => rangeOf args

def messageOf (args : List Value) : String :=
  String.intercalate " " (args.map Value.text)

def promptOf (args : List Value) : String :=
  match args with
  | v :: _ => v.text
  | [] => ""

def call {σ : Type} (host : Host σ) (world : σ) (f : Builtin) (args : List Value) :
    Except Fault Value × σ :=
  if f.arity.accepts args.length then
    match f with
    | print => (.ok .nothing, host.print world (messageOf args))
    | input =>
      let (answer, world) := host.input world (promptOf args)
      (answer.map .str, world)
    | f => (f.resultOf args, world)
  else (.error (.call (.arity f.name f.arity args.length)), world)

end LessonScript.Builtin
