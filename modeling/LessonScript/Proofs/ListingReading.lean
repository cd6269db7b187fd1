import LessonScript.Program.Assembly
import Mathlib.Data.List.TakeWhile

/-!
What a line of a listing is read as.

A line is cut into its words, a mnemonic and perhaps an operand (`Assembly.words?`), and the words
are read by one rule for each kind of mnemonic (`Assembly.Reads`).  The words of a line are a word
without blanks and a text without blanks at its ends; two such words with a space between them are
cut at the same place again.
-/

namespace LessonScript

namespace Text

def IsWord (cs : List Char) : Prop :=
  cs ≠ [] ∧ ∀ c ∈ cs, isSpace c = false

theorem isWord_iff {cs : List Char} :
    IsWord cs ↔ (!cs.isEmpty && cs.all fun c => !isSpace c) = true := by
  cases cs <;> simp [IsWord]

instance : DecidablePred IsWord :=
  fun _ => decidable_of_iff _ isWord_iff.symm

/-- The text is not empty and neither begins nor ends with a blank character. -/
structure Tight (cs : List Char) : Prop where
  first : ∃ c rest, cs = c :: rest ∧ isSpace c = false
  last : ∃ front c, cs = front ++ [c] ∧ isSpace c = false

theorem IsWord.tight {cs : List Char} (word : IsWord cs) : Tight cs := by
  obtain ⟨some, plain⟩ := word
  obtain ⟨front, c, same⟩ := (List.eq_nil_or_concat cs).resolve_left some
  obtain ⟨d, rest, begins⟩ := List.exists_cons_of_ne_nil some
  refine ⟨⟨d, rest, begins, plain d ?_⟩, ⟨front, c, by simpa using same, plain c ?_⟩⟩
  · rw [begins]
    exact List.mem_cons_self ..
  · rw [same]
    simp

theorem Tight.join {first second : List Char} (tight : Tight first) (tight' : Tight second)
    (between : List Char) : Tight (first ++ between ++ second) := by
  obtain ⟨c, rest, rfl, plain⟩ := tight.first
  obtain ⟨front, d, rfl, plain'⟩ := tight'.last
  exact ⟨⟨c, _, rfl, plain⟩, ⟨c :: rest ++ between ++ front, d, by simp, plain'⟩⟩

theorem Tight.trim_eq {cs : List Char} (tight : Tight cs) : trim cs = cs := by
  obtain ⟨c, rest, same, plain⟩ := tight.first
  have start : trimStart cs = cs := by
    rw [trimStart, same, List.dropWhile_cons_of_neg (by simp [plain])]
  obtain ⟨front, d, same, plain⟩ := tight.last
  rw [trim, start, trimEnd, same, List.reverse_append, List.reverse_singleton,
    List.singleton_append, List.dropWhile_cons_of_neg (by simp [plain])]
  simp

theorem trim_ne_nil {cs : List Char} {c : Char} (member : c ∈ cs) (plain : isSpace c = false) :
    trim cs ≠ [] := by
  intro empty
  have atStart : ∀ c ∈ trimStart cs, isSpace c = true := by
    intro c member
    rw [trim, trimEnd, List.reverse_eq_nil_iff, List.dropWhile_eq_nil_iff] at empty
    exact empty c (List.mem_reverse.mpr member)
  have everywhere : ∀ c ∈ cs, isSpace c = true := by
    rw [← leadingSpace_append_trimStart cs]
    intro c member
    rcases List.mem_append.mp member with leading | behind
    · exact List.mem_takeWhile_imp leading
    · exact atStart c behind
  rw [everywhere c member] at plain
  cases plain

/-- What is left of a text without the blanks at its ends is tight, if anything is left. -/
theorem tight_trim {cs : List Char} (some : trim cs ≠ []) : Tight (trim cs) := by
  constructor
  · obtain ⟨c, rest, first⟩ := List.exists_cons_of_ne_nil some
    refine ⟨c, rest, first, ?_⟩
    -- The first character stays when blanks are dropped from the end.
    obtain ⟨others, joined⟩ : trim cs <+: trimStart cs := by
      rw [trim, trimEnd, ← List.reverse_suffix, List.reverse_reverse]
      exact List.dropWhile_suffix isSpace
    rw [first, List.cons_append] at joined
    have stopped := List.head?_dropWhile_not isSpace cs
    rwa [show cs.dropWhile isSpace = c :: (rest ++ others) from joined.symm] at stopped
  · rw [trim, trimEnd, Ne, List.reverse_eq_nil_iff] at some
    obtain ⟨d, behind, fromEnd⟩ := List.exists_cons_of_ne_nil some
    refine ⟨behind.reverse, d, by rw [trim, trimEnd, fromEnd, List.reverse_cons], ?_⟩
    have stopped := List.head?_dropWhile_not isSpace (trimStart cs).reverse
    rwa [fromEnd] at stopped

theorem splitAtSpace_eq_none_iff {cs : List Char} :
    splitAtSpace cs = none ↔ ∀ c ∈ cs, isSpace c = false := by
  have all : cs.dropWhile (fun c => !isSpace c) = [] ↔ ∀ c ∈ cs, isSpace c = false := by
    simp [List.dropWhile_eq_nil_iff]
  rw [← all, splitAtSpace, cutWhile]
  cases cs.dropWhile (fun c => !isSpace c) <;> simp

theorem splitAtSpace_append {word : List Char} {blank : Char}
    (plain : ∀ c ∈ word, isSpace c = false) (isBlank : isSpace blank = true) (rest : List Char) :
    splitAtSpace (word ++ blank :: rest) = some (word, rest) := by
  have whole : ∀ c ∈ word, (!isSpace c) = true := by
    intro c member
    simp [plain c member]
  have dropped : (word ++ blank :: rest).dropWhile (fun c => !isSpace c) = blank :: rest := by
    rw [List.dropWhile_append_of_pos whole, List.dropWhile_cons_of_neg (by simp [isBlank])]
  have taken : (word ++ blank :: rest).takeWhile (fun c => !isSpace c) = word := by
    rw [List.takeWhile_append_of_pos whole, List.takeWhile_cons_of_neg (by simp [isBlank]),
      List.append_nil]
  simp only [splitAtSpace, cutWhile, dropped, taken]

theorem exists_of_splitAtSpace {cs word rest : List Char}
    (cut : splitAtSpace cs = some (word, rest)) :
    ∃ blank, cs = word ++ blank :: rest ∧ isSpace blank = true ∧
      ∀ c ∈ word, isSpace c = false := by
  have joined := List.takeWhile_append_dropWhile (p := fun c => !isSpace c) (l := cs)
  have stopped := List.head?_dropWhile_not (fun c => !isSpace c) cs
  simp only [splitAtSpace, cutWhile] at cut
  generalize taken : cs.takeWhile (fun c => !isSpace c) = front at cut joined
  generalize cs.dropWhile (fun c => !isSpace c) = behind at cut joined stopped
  cases behind with
  | nil => cases cut
  | cons blank others =>
      cases cut
      refine ⟨blank, joined.symm, by simpa using stopped, ?_⟩
      intro c member
      rw [← taken] at member
      simpa using List.mem_takeWhile_imp member

/-- The first word of a tight text is a word, and what follows it is tight too, without the
blanks at its ends. -/
theorem Tight.of_split {cs word rest : List Char} (tight : Tight cs)
    (cut : splitAtSpace cs = some (word, rest)) : IsWord word ∧ Tight (trim rest) := by
  obtain ⟨blank, joined, isBlank, plain⟩ := exists_of_splitAtSpace cut
  constructor
  · refine ⟨?_, plain⟩
    rintro rfl
    obtain ⟨c, _, begins, first⟩ := tight.first
    cases joined.symm.trans begins
    rw [first] at isBlank
    cases isBlank
  · obtain ⟨front, d, ends, last⟩ := tight.last
    have lasts : (blank :: rest).getLast? = some d := by
      have whole := congrArg List.getLast? (joined.symm.trans ends)
      rw [List.getLast?_append, List.getLast?_concat, List.getLast?_cons, Option.some_or] at whole
      rw [List.getLast?_cons, whole]
    apply tight_trim
    rcases List.mem_cons.mp (List.mem_of_getLast? lasts) with rfl | behind
    · rw [last] at isBlank
      cases isBlank
    · exact trim_ne_nil behind last

end Text

namespace Assembly

/-- The words of a line: its mnemonic and its operand, if it has one.  A line that is passed over
has none. -/
def words? (line : String) : Option (List Char × Option (List Char)) :=
  let text := Text.trim line.toList
  if text.isEmpty || text.head? == some '#' then none
  else match Text.splitAtSpace text with
    | some (word, rest) => some (word, some (Text.trim rest))
    | none => some (text, none)

/-- The line with these words and one space between them. -/
def spaced (mnemonic : List Char) : Option (List Char) → List Char
  | some operand => mnemonic ++ ' ' :: operand
  | none => mnemonic

structure Written (mnemonic : List Char) (operand : Option (List Char)) : Prop where
  word : Text.IsWord mnemonic
  counts : mnemonic.head? ≠ some '#'
  tight : ∀ text, operand = some text → Text.Tight text

theorem Written.tight_spaced {mnemonic : List Char} {operand : Option (List Char)}
    (written : Written mnemonic operand) : Text.Tight (spaced mnemonic operand) := by
  cases operand with
  | none => exact written.word.tight
  | some text => simpa [spaced] using written.word.tight.join (written.tight text rfl) [' ']

theorem Written.words?_eq {mnemonic : List Char} {operand : Option (List Char)}
    (written : Written mnemonic operand) :
    words? (String.ofList (spaced mnemonic operand)) = some (mnemonic, operand) := by
  have trimmed := written.tight_spaced.trim_eq
  have counts : ((spaced mnemonic operand).isEmpty ||
      (spaced mnemonic operand).head? == some '#') = false := by
    obtain ⟨c, rest, begins⟩ := List.exists_cons_of_ne_nil written.word.1
    have other := written.counts
    rw [begins] at other
    cases operand <;> simpa [spaced, begins] using other
  rw [words?, String.toList_ofList, trimmed, counts, if_neg Bool.false_ne_true]
  cases operand with
  | none => simp only [spaced, Text.splitAtSpace_eq_none_iff.mpr written.word.2]
  | some text =>
      simp only [spaced, Text.splitAtSpace_append written.word.2 (by decide : Text.isSpace ' ' = true),
        (written.tight text rfl).trim_eq]

theorem written_of_words? {line : String} {mnemonic : List Char} {operand : Option (List Char)}
    (cut : words? line = some (mnemonic, operand)) : Written mnemonic operand := by
  simp only [words?] at cut
  split at cut
  · cases cut
  · rename_i counts
    simp only [Bool.or_eq_true, List.isEmpty_iff, beq_iff_eq, not_or] at counts
    have tight := Text.tight_trim counts.1
    generalize Text.trim line.toList = text at counts tight cut
    split at cut
    · rename_i word rest split
      cases cut
      obtain ⟨word, inside⟩ := tight.of_split split
      refine ⟨word, ?_, fun text same => Option.some.inj same ▸ inside⟩
      obtain ⟨blank, joined, _, _⟩ := Text.exists_of_splitAtSpace split
      obtain ⟨c, others, begins⟩ := List.exists_cons_of_ne_nil word.1
      rw [joined, begins] at counts
      rw [begins]
      exact counts.2
    · rename_i split
      cases cut
      exact ⟨⟨counts.1, Text.splitAtSpace_eq_none_iff.mp split⟩, counts.2, nofun⟩

structure Foreign (mnemonic : String) : Prop where
  constant : mnemonic ≠ "LOAD_CONST"
  comparison : mnemonic ≠ "COMPARE_OP"
  named : named? mnemonic = none
  numbered : numbered? mnemonic = none
  bare : bare? mnemonic = none

/-- The operation that the words of a line are read as, and the program with its constant or name
entered: one rule for each kind of mnemonic. -/
inductive Reads (p : Program) : String → Option (List Char) → Program → Opcode → Prop
  | constant {text : List Char} {l : Literal} (reads : literal (some text) = .ok l) :
      Reads p "LOAD_CONST" (some text) (p.addConstant l.value).1
        (.loadConst (p.addConstant l.value).2)
  | comparison {text : List Char} {op : CompareOp} (reads : comparison (some text) = .ok op) :
      Reads p "COMPARE_OP" (some text) p (.compare op)
  | named {mnemonic : String} {make : Nat → Opcode} {text : List Char} {id : String}
      (known : named? mnemonic = some make) (reads : identifier (some text) = .ok id) :
      Reads p mnemonic (some text) (p.addName id).1 (make (p.addName id).2)
  | numbered {mnemonic : String} {make : Nat → Opcode} {text : List Char} {n : Nat}
      (known : numbered? mnemonic = some make) (reads : number (some text) = .ok n) :
      Reads p mnemonic (some text) p (make n)
  | bare {mnemonic : String} {op : Opcode} (known : bare? mnemonic = some op) :
      Reads p mnemonic none p op
  | unknown {mnemonic : String} {operand : Option (List Char)} (foreign : Foreign mnemonic) :
      Reads p mnemonic operand p (.unknown mnemonic (operand.map String.ofList))

theorem eq_of_named? {mnemonic : String} {make : Nat → Opcode}
    (known : named? mnemonic = some make) :
    (mnemonic = "LOAD_NAME" ∧ make = .loadName) ∨ (mnemonic = "LOAD_FAST" ∧ make = .loadFast) ∨
      (mnemonic = "STORE_NAME" ∧ make = .storeName) ∨
      (mnemonic = "STORE_FAST" ∧ make = .storeFast) := by
  unfold named? at known
  split at known <;> cases known <;> simp

theorem eq_of_numbered? {mnemonic : String} {make : Nat → Opcode}
    (known : numbered? mnemonic = some make) :
    (mnemonic = "CALL_FUNCTION" ∧ make = .call) ∨ (mnemonic = "JUMP_ABSOLUTE" ∧ make = .jump) ∨
      (mnemonic = "POP_JUMP_IF_FALSE" ∧ make = .popJumpIf false) ∨
      (mnemonic = "POP_JUMP_IF_TRUE" ∧ make = .popJumpIf true) ∨
      (mnemonic = "JUMP_IF_FALSE_OR_POP" ∧ make = .jumpIfOrPop false) ∨
      (mnemonic = "JUMP_IF_TRUE_OR_POP" ∧ make = .jumpIfOrPop true) ∨
      (mnemonic = "FOR_ITER" ∧ make = .forIter) := by
  unfold numbered? at known
  split at known <;> cases known <;> simp

theorem operation_eq_ok_iff {p q : Program} {mnemonic : String} {operand : Option (List Char)}
    {op : Opcode} : operation p mnemonic operand = .ok (q, op) ↔ Reads p mnemonic operand q op := by
  constructor
  · intro read
    unfold operation at read
    split at read
    · rename_i same
      subst same
      obtain ⟨l, reads, entered⟩ := exists_of_bind_ok read
      cases entered
      cases operand with
      | none => cases reads
      | some text => exact .constant reads
    · rename_i notConstant
      split at read
      · rename_i same
        subst same
        obtain ⟨op, reads, entered⟩ := exists_of_bind_ok read
        cases entered
        cases operand with
        | none => cases reads
        | some text => exact .comparison reads
      · rename_i notComparison
        split at read
        · rename_i known
          obtain ⟨id, reads, entered⟩ := exists_of_bind_ok read
          cases entered
          cases operand with
          | none => cases reads
          | some text => exact .named known reads
        · rename_i known
          obtain ⟨n, reads, entered⟩ := exists_of_bind_ok read
          cases entered
          cases operand with
          | none => cases reads
          | some text => exact .numbered known reads
        · rename_i known
          split at read
          · cases read
          · rename_i alone
            cases read
            cases operand with
            | none => exact .bare known
            | some text => exact absurd rfl alone
        · rename_i notNamed notNumbered notBare
          cases read
          exact .unknown ⟨notConstant, notComparison, notNamed, notNumbered, notBare⟩
  · intro reads
    cases reads with
    | constant reads =>
        rw [operation, if_pos rfl, reads]
        rfl
    | comparison reads =>
        rw [operation, if_neg (by decide), if_pos rfl, reads]
        rfl
    | named known reads =>
        have notOthers : mnemonic ≠ "LOAD_CONST" ∧ mnemonic ≠ "COMPARE_OP" := by
          rcases eq_of_named? known with ⟨rfl, _⟩ | ⟨rfl, _⟩ | ⟨rfl, _⟩ | ⟨rfl, _⟩ <;> decide
        rw [operation, if_neg notOthers.1, if_neg notOthers.2, known, reads]
        rfl
    | numbered known reads =>
        rcases eq_of_numbered? known with
          ⟨rfl, _⟩ | ⟨rfl, _⟩ | ⟨rfl, _⟩ | ⟨rfl, _⟩ | ⟨rfl, _⟩ | ⟨rfl, _⟩ | ⟨rfl, _⟩
        all_goals
          rw [operation, if_neg (by decide), if_neg (by decide), known, reads]
          rfl
    | bare known =>
        unfold bare? at known
        split at known <;> cases known <;> rfl
    | unknown foreign =>
        rw [operation, if_neg foreign.constant, if_neg foreign.comparison, foreign.named,
          foreign.numbered, foreign.bare]

/-- What a line adds to a program: nothing, or the instruction that its words are read as. -/
inductive Adds (p : Program) (number : Nat) (line : String) : Program → Prop
  | passed (words : words? line = none) : Adds p number line p
  | instruction {mnemonic : List Char} {operand : Option (List Char)} {q : Program} {op : Opcode}
      (words : words? line = some (mnemonic, operand))
      (reads : Reads p (String.ofList mnemonic) operand q op) :
      Adds p number line (q.emit op number).1

theorem addLine_of_passed (p : Program) (number : Nat) {line : String}
    (words : words? line = none) : addLine p number line = .ok p := by
  unfold words? at words
  unfold addLine
  dsimp only at words ⊢
  split at words
  · rename_i empty
    rw [if_pos empty]
  · split at words <;> cases words

theorem addLine_of_words (p : Program) (number : Nat) {line : String} {mnemonic : List Char}
    {operand : Option (List Char)} (words : words? line = some (mnemonic, operand)) :
    ∃ refusal, addLine p number line =
      ((operation p (String.ofList mnemonic) operand).map
        fun read => (read.1.emit read.2 number).1).mapError refusal := by
  refine ⟨fun complaint => .ofFault (.malformed
    { message := complaint.message
      line := number
      column := Text.byteLength (Text.leadingSpace line.toList) + 1
      source := line }), ?_⟩
  unfold words? at words
  unfold addLine
  dsimp only at words ⊢
  split at words
  · cases words
  · rename_i counts
    rw [if_neg counts]
    cases cut : Text.splitAtSpace (Text.trim line.toList) with
    | none =>
        rw [cut] at words
        cases words
        cases operation p (String.ofList (Text.trim line.toList)) none <;> rfl
    | some parts =>
        obtain ⟨word, rest⟩ := parts
        rw [cut] at words
        cases words
        cases operation p (String.ofList mnemonic) (some (Text.trim rest)) <;> rfl

theorem addLine_eq_ok_iff {p q : Program} {number : Nat} {line : String} :
    addLine p number line = .ok q ↔ Adds p number line q := by
  constructor
  · intro added
    cases words : words? line with
    | none =>
        rw [addLine_of_passed p number words] at added
        cases added
        exact .passed words
    | some cut =>
        obtain ⟨mnemonic, operand⟩ := cut
        obtain ⟨refusal, same⟩ := addLine_of_words p number words
        rw [same] at added
        cases read : operation p (String.ofList mnemonic) operand with
        | error complaint =>
            rw [read] at added
            cases added
        | ok after =>
            rw [read] at added
            cases added
            exact .instruction words (operation_eq_ok_iff.mp read)
  · intro adds
    cases adds with
    | passed words => exact addLine_of_passed p number words
    | instruction words reads =>
        obtain ⟨refusal, same⟩ := addLine_of_words p number words
        rw [same, operation_eq_ok_iff.mpr reads]
        rfl

theorem addLines_preserves {Keeps : Program → Prop}
    (step : ∀ {p q : Program} {number : Nat} {line : String},
      Adds p number line q → Keeps p → Keeps q)
    {p q : Program} {number : Nat} {lines : List String}
    (read : addLines p number lines = .ok q) (keeps : Keeps p) : Keeps q := by
  induction lines generalizing p number with
  | nil =>
      cases read
      exact keeps
  | cons line rest ih =>
      obtain ⟨after, added, onward⟩ := exists_of_bind_ok read
      exact ih onward (step (addLine_eq_ok_iff.mp added) keeps)

end Assembly

end LessonScript
