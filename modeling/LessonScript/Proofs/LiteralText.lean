import LessonScript.Proofs.FloatText
import LessonScript.Proofs.ListingReading

/-!
The operands of a listing are read back.

A literal is read back from its text (`Assembly.literal_repr`); of the numbers that are not
numbers only one has a text of its own, so it stands for the others.  The same holds of names,
comparisons and counts.  None of these texts begins or ends with a blank, so a line cut at its
first blank gives back the mnemonic and the operand.
-/

namespace LessonScript

def Literal.Canonical (l : Literal) : Prop :=
  ∀ x, l = .float x → x.isNaN = true → x = .nan false

namespace Assembly

open Text

theorem quoteOf_eq (cs : List Char) : quoteOf cs = '\'' ∨ quoteOf cs = '"' := by
  unfold quoteOf
  split
  · exact .inr rfl
  · exact .inl rfl

/-- A character is written as itself, or as a backslash and a letter that stands for it. -/
theorem escapeChar_cases {quote : Char} (known : quote = '\'' ∨ quote = '"') (c : Char) :
    (∃ letter, escapeChar quote c = ['\\', letter] ∧ unescape? letter = some c) ∨
      escapeChar quote c = [c] ∧ c ≠ quote ∧ c ≠ '\\' ∧ c ≠ '\n' := by
  unfold escapeChar
  by_cases lineFeed : c = '\n'
  · subst lineFeed
    exact .inl ⟨'n', rfl, rfl⟩
  by_cases tab : c = '\t'
  · subst tab
    exact .inl ⟨'t', rfl, rfl⟩
  by_cases carriageReturn : c = '\r'
  · subst carriageReturn
    exact .inl ⟨'r', rfl, rfl⟩
  by_cases backslash : c = '\\'
  · subst backslash
    exact .inl ⟨'\\', rfl, rfl⟩
  rw [if_neg lineFeed, if_neg tab, if_neg carriageReturn, if_neg backslash]
  by_cases same : c = quote
  · subst same
    rw [if_pos rfl]
    exact .inl ⟨c, rfl, by rcases known with rfl | rfl <;> rfl⟩
  · rw [if_neg same]
    exact .inr ⟨rfl, same, backslash, lineFeed⟩

theorem stringBody_escapeChar {quote : Char} (known : quote = '\'' ∨ quote = '"') (c : Char)
    (value rest : List Char) :
    stringBody quote value (escapeChar quote c ++ rest) = stringBody quote (c :: value) rest := by
  have notSlash : '\\' ≠ quote := by rcases known with rfl | rfl <;> decide
  rcases escapeChar_cases known c with ⟨letter, written, read⟩ | ⟨written, other, plain, _⟩
  · rw [written, List.cons_append, List.singleton_append, stringBody, if_neg notSlash, if_pos rfl,
      read]
  · rw [written, List.singleton_append]
    conv => lhs; unfold stringBody
    rw [if_neg other, if_neg plain]

theorem stringBody_quoted {quote : Char} (known : quote = '\'' ∨ quote = '"')
    (cs value : List Char) :
    stringBody quote value (cs.flatMap (escapeChar quote) ++ [quote]) =
      .ok (value.reverse ++ cs) := by
  induction cs generalizing value with
  | nil =>
      rw [List.flatMap_nil, List.nil_append, List.append_nil]
      unfold stringBody
      rw [if_pos rfl]
      rfl
  | cons c cs ih =>
      rw [List.flatMap_cons, List.append_assoc, stringBody_escapeChar known, ih, List.reverse_cons,
        List.append_assoc, List.singleton_append]

theorem mem_of_wordLiteral? {word : String} (known : wordLiteral? word ≠ none) :
    word ∈ ["None", "True", "False", "inf", "-inf", "nan"] := by
  unfold wordLiteral? at known
  split at known
  · simp
  · simp
  · simp
  · simp
  · simp
  · simp
  · exact absurd rfl known

theorem wordLiteral?_of_foreign {text : List Char} {c : Char} (member : c ∈ text)
    (foreign : ∀ word ∈ ["None", "True", "False", "inf", "-inf", "nan"], c ∉ word.toList) :
    wordLiteral? (String.ofList text) = none := by
  by_contra known
  exact foreign _ (mem_of_wordLiteral? known) (by rwa [String.toList_ofList])

theorem wordLiteral?_of_digit {text : List Char} {c : Char} (member : c ∈ text)
    (digit : c.isDigit = true) : wordLiteral? (String.ofList text) = none := by
  have noDigit : ∀ word ∈ ["None", "True", "False", "inf", "-inf", "nan"],
      (word.toList.all fun c => !c.isDigit) = true := by
    decide
  apply wordLiteral?_of_foreign member
  intro word listed inside
  have other := List.all_eq_true.mp (noDigit word listed) c inside
  rw [digit] at other
  cases other

theorem literal_of_number {c : Char} {rest : List Char}
    (noWord : wordLiteral? (String.ofList (c :: rest)) = none) (unquoted : ¬(c = '\'' ∨ c = '"')) :
    literal (some (c :: rest)) = numberLiteral (c :: rest) := by
  simp only [literal, required, bind, Except.bind, noWord, if_neg unquoted]

theorem literal_of_digit {c : Char} (digit : c.isDigit = true) (rest : List Char)
    (negative : Bool) :
    literal (some (if negative then '-' :: c :: rest else c :: rest)) =
      numberLiteral (if negative then '-' :: c :: rest else c :: rest) := by
  cases negative with
  | true =>
      exact literal_of_number (wordLiteral?_of_digit (by simp) digit) (by decide)
  | false =>
      refine literal_of_number (wordLiteral?_of_digit (List.mem_cons_self ..) digit) ?_
      rintro (rfl | rfl) <;> cases digit

theorem literal_intText (n : Int64) : literal (some (intText n.toInt).toList) = .ok (.int n) := by
  obtain ⟨c, rest, same⟩ := List.exists_cons_of_ne_nil
    (Nat.toDigits_ne_nil (b := 10) (n := n.toInt.natAbs))
  have digit := allDigits_toDigits n.toInt.natAbs c (by rw [same]; exact List.mem_cons_self ..)
  have chars : (intText n.toInt).toList =
      if decide (n.toInt < 0) then '-' :: c :: rest else c :: rest := by
    rw [toList_intText, same]
    by_cases negative : n.toInt < 0 <;> simp [negative]
  have read := readInt64?_intText n
  rw [chars] at read ⊢
  rw [literal_of_digit digit, numberLiteral, read]

theorem isNumberChar_of_isNumeralChar {c : Char} (plain : Binary64.IsNumeralChar c) :
    isNumberChar c = true := by
  rcases plain with digit | mark
  · simp [isNumberChar, digit]
  · have marks : ['.', 'e', '+', '-'].all isNumberChar = true := by decide
    exact List.all_eq_true.mp marks c mark

theorem readInt64?_eq_none {cs : List Char} {q : ℚ} (denotes : Binary64.Denotes cs q)
    (negative : Bool) : readInt64? (if negative then '-' :: cs else cs) = none := by
  obtain ⟨c, member, mark⟩ := denotes.mark
  have refused : readCapped? int64Cap cs = none := by
    unfold readCapped?
    rw [if_neg]
    simp only [Bool.and_eq_true, List.all_eq_true, not_and]
    intro _ all
    rw [all c member] at mark
    cases mark
  unfold readInt64?
  rw [denotes.splitSign_eq negative]
  dsimp only
  rw [refused]
  rfl

theorem isNumberChar_of_mem_chars {x : Binary64} (finite : x.isFinite = true) {c : Char}
    (member : c ∈ x.chars) : isNumberChar c = true := by
  obtain ⟨q, denotes, _⟩ := Binary64.exists_denotes finite
  rw [Binary64.chars_of_isFinite finite] at member
  have inside : c = '-' ∨ c ∈ x.magnitudeChars := by
    split at member
    · exact List.mem_cons.mp member
    · exact .inr member
  rcases inside with rfl | inside
  · decide
  · exact isNumberChar_of_isNumeralChar (denotes.plain c inside)

theorem literal_chars_of_isFinite {x : Binary64} (finite : x.isFinite = true) :
    literal (some x.chars) = .ok (.float x) := by
  obtain ⟨q, denotes, _⟩ := Binary64.exists_denotes finite
  have plain : x.chars.all isNumberChar = true :=
    List.all_eq_true.mpr fun _ member => isNumberChar_of_mem_chars finite member
  have read := Binary64.ofChars?_chars finite
  have noInteger := readInt64?_eq_none denotes x.isNegative
  obtain ⟨c, rest, same, digit⟩ := denotes.first
  rw [Binary64.chars_of_isFinite finite] at plain read ⊢
  rw [same] at plain read noInteger ⊢
  rw [literal_of_digit digit, numberLiteral, noInteger]
  dsimp only
  rw [read]
  dsimp only
  rw [if_pos plain]

theorem eq_infinity {x : Binary64} (infinite : x.isFinite = false) (number : x.isNaN = false) :
    x = .infinity x.isNegative := by
  unfold Binary64.isFinite at infinite
  unfold Binary64.isNaN at number
  rw [decide_eq_false_iff_not] at infinite number
  have magnitude : x.magnitude = Binary64.infiniteMagnitude := by omega
  rw [Binary64.infinity, ← magnitude, Binary64.ofMagnitude_self]

theorem literal_chars {x : Binary64} (canonical : x.isNaN = true → x = .nan false) :
    literal (some x.chars) = .ok (.float x) := by
  cases finite : x.isFinite with
  | true => exact literal_chars_of_isFinite finite
  | false =>
      cases number : x.isNaN with
      | true =>
          rw [canonical number]
          rfl
      | false =>
          rw [eq_infinity finite number]
          cases x.isNegative <;> rfl

theorem literal_quoteChars (cs : List Char) :
    literal (some (quoteChars cs)) = .ok (.str (String.ofList cs)) := by
  have known := quoteOf_eq cs
  have body := stringBody_quoted known cs []
  have noWord : wordLiteral? (String.ofList (quoteChars cs)) = none := by
    apply wordLiteral?_of_foreign (List.mem_cons_self ..)
    rcases known with same | same <;> rw [same] <;> decide
  unfold quoteChars at noWord ⊢
  dsimp only at noWord ⊢
  simp only [literal, required, bind, Except.bind, noWord, if_pos known, body]
  rfl

theorem literal_repr {l : Literal} (canonical : l.Canonical) :
    literal (some l.value.repr.toList) = .ok l := by
  cases l with
  | nothing => rfl
  | bool b => cases b <;> rfl
  | int n => exact literal_intText n
  | float x =>
      change literal (some (String.ofList x.chars).toList) = _
      rw [String.toList_ofList]
      exact literal_chars fun number => canonical x rfl number
  | str s =>
      change literal (some (String.ofList (quoteChars s.toList)).toList) = _
      rw [String.toList_ofList, literal_quoteChars, String.ofList_toList]

theorem splitSign_subset (cs : List Char) : (splitSign cs).2 ⊆ cs := by
  unfold splitSign
  split
  · exact List.subset_cons_self ..
  · exact List.subset_cons_self ..
  · exact List.Subset.refl _

theorem toLower_ne_of_isNumberChar {c : Char} (plain : isNumberChar c = true) :
    c.toLower ≠ 'n' := by
  simp only [isNumberChar, Bool.or_eq_true, beq_iff_eq] at plain
  rcases plain with ((((digit | rfl) | rfl) | rfl) | rfl) | rfl
  · rw [Binary64.toLower_of_isDigit digit]
    rintro rfl
    cases digit
  · decide
  · decide
  · decide
  · decide
  · decide

theorem isNaN_of_ofChars? {cs : List Char} {x : Binary64} (read : Binary64.ofChars? cs = some x)
    (plain : ∀ c rest, (splitSign cs).2 = c :: rest → isNumberChar c = true) :
    x.isNaN = false := by
  unfold Binary64.ofChars? at read
  dsimp only at read
  split at read
  · cases read
    exact Binary64.isNaN_ofMagnitude _ (Nat.le_refl _)
  · split at read
    · rename_i spelled
      rw [Binary64.spells_iff] at spelled
      cases body : (splitSign cs).2 with
      | nil =>
          rw [body] at spelled
          cases spelled
      | cons c rest =>
          rw [body] at spelled
          exact absurd (List.cons.inj spelled).1 (toLower_ne_of_isNumberChar (plain c rest body))
    · obtain ⟨numeral, _, rfl⟩ := Option.map_eq_some_iff.mp read
      exact Binary64.isNaN_ofNumeral _ numeral

theorem canonical_of_numberLiteral {text : List Char} {l : Literal}
    (read : numberLiteral text = .ok l) : l.Canonical := by
  unfold numberLiteral at read
  intro x same nonNumber
  subst same
  split at read
  · cases read
  · split at read
    · rename_i float
      split at read
      · rename_i plain
        cases read
        have number := isNaN_of_ofChars? float fun c rest body => List.all_eq_true.mp plain c
          (splitSign_subset text (body ▸ List.mem_cons_self ..))
        rw [number] at nonNumber
        cases nonNumber
      · cases read
    · cases read

theorem canonical_of_wordLiteral? {word : String} {l : Literal}
    (known : wordLiteral? word = some l) : l.Canonical := by
  intro x same nonNumber
  subst same
  unfold wordLiteral? at known
  split at known <;> cases known
  · cases nonNumber
  · cases nonNumber
  · rfl

theorem canonical_of_literal {text : List Char} {l : Literal}
    (read : literal (some text) = .ok l) : l.Canonical := by
  simp only [literal, required, bind, Except.bind] at read
  split at read
  · rename_i known
    cases read
    exact canonical_of_wordLiteral? known
  · split at read
    · split at read
      · split at read
        · cases read
        · cases read
          exact nofun
      · exact canonical_of_numberLiteral read
    · exact canonical_of_numberLiteral read

theorem isSpace_of_isNumberChar {c : Char} (plain : isNumberChar c = true) :
    isSpace c = false := by
  simp only [isNumberChar, Bool.or_eq_true, beq_iff_eq] at plain
  rcases plain with ((((digit | rfl) | rfl) | rfl) | rfl) | rfl
  · unfold Char.isDigit at digit
    simp only [Bool.and_eq_true, decide_eq_true_eq] at digit
    have low : 48 ≤ c.toNat := digit.1
    have high : c.toNat ≤ 57 := digit.2
    rw [← Bool.not_eq_true]
    simp only [isSpace, Bool.or_eq_true, Bool.and_eq_true, decide_eq_true_eq, beq_iff_eq]
    omega
  · decide
  · decide
  · decide
  · decide
  · decide

theorem isWord_of_number {cs : List Char} (nonempty : cs ≠ [])
    (plain : ∀ c ∈ cs, isNumberChar c = true) : IsWord cs :=
  ⟨nonempty, fun c member => isSpace_of_isNumberChar (plain c member)⟩

theorem isNumberChar_of_isDigit {c : Char} (digit : c.isDigit = true) : isNumberChar c = true := by
  simp [isNumberChar, digit]

theorem isWord_natText (n : Nat) : IsWord (natText n).toList := by
  rw [natText, String.toList_ofList]
  exact isWord_of_number Nat.toDigits_ne_nil fun c member =>
    isNumberChar_of_isDigit (allDigits_toDigits n c member)

theorem isWord_intText (n : Int) : IsWord (intText n).toList := by
  rw [toList_intText]
  apply isWord_of_number
  · simp [Nat.toDigits_ne_nil]
  · intro c member
    rcases List.mem_append.mp member with sign | digit
    · split at sign
      · rw [List.mem_singleton.mp sign]
        decide
      · cases sign
    · exact isNumberChar_of_isDigit (allDigits_toDigits _ c digit)

theorem isWord_chars (x : Binary64) : IsWord x.chars := by
  cases finite : x.isFinite with
  | true =>
      apply isWord_of_number
      · obtain ⟨q, denotes, _⟩ := Binary64.exists_denotes finite
        obtain ⟨c, rest, same, _⟩ := denotes.first
        rw [Binary64.chars_of_isFinite finite, same]
        split <;> exact List.cons_ne_nil _ _
      · exact fun _ member => isNumberChar_of_mem_chars finite member
  | false =>
      unfold Binary64.chars
      rw [finite]
      have words : ∀ cs ∈ [['n', 'a', 'n'], ['i', 'n', 'f'], ['-', 'i', 'n', 'f']], IsWord cs := by
        decide
      dsimp only
      split
      · exact words _ (by simp)
      · split <;> exact words _ (by simp)

/-- The text of a literal neither begins nor ends with a blank. -/
theorem tight_repr (l : Literal) : Tight l.value.repr.toList := by
  have words : ∀ word ∈ ["None", "True", "False"], IsWord word.toList := by decide
  cases l with
  | nothing => exact IsWord.tight (words "None" (by decide))
  | bool b =>
      cases b with
      | false => exact IsWord.tight (words "False" (by decide))
      | true => exact IsWord.tight (words "True" (by decide))
  | int n => exact (isWord_intText n.toInt).tight
  | float x =>
      change Tight (String.ofList x.chars).toList
      rw [String.toList_ofList]
      exact (isWord_chars x).tight
  | str s =>
      change Tight (String.ofList (quoteChars s.toList)).toList
      rw [String.toList_ofList]
      have plain : isSpace (quoteOf s.toList) = false := by
        rcases quoteOf_eq s.toList with same | same <;> rw [same] <;> decide
      exact ⟨⟨_, _, rfl, plain⟩, ⟨_, _, (List.cons_append ..).symm, plain⟩⟩

def spaces : List Nat :=
  [9, 10, 11, 12, 13, 0x20, 0x85, 0xA0, 0x1680, 0x2000, 0x2001, 0x2002, 0x2003, 0x2004, 0x2005,
    0x2006, 0x2007, 0x2008, 0x2009, 0x200A, 0x2028, 0x2029, 0x202F, 0x205F, 0x3000]

theorem mem_spaces_of_isSpace {c : Char} (blank : isSpace c = true) : c.toNat ∈ spaces := by
  simp only [isSpace, Bool.or_eq_true, Bool.and_eq_true, decide_eq_true_eq, beq_iff_eq] at blank
  simp only [spaces, List.mem_cons, List.not_mem_nil, or_false]
  omega

theorem isSpace_of_isNamePart {c : Char} (part : isNamePart c = true) : isSpace c = false := by
  have none : ∀ n ∈ spaces, isNamePart (Char.ofNat n) = false := by decide +kernel
  by_contra blank
  have listed := mem_spaces_of_isSpace (Bool.not_eq_false _ |>.mp blank)
  have other := none _ listed
  rw [Char.ofNat_toNat, part] at other
  cases other

theorem isWord_of_isName {cs : List Char} (name : isName cs = true) : IsWord cs := by
  cases cs with
  | nil => cases name
  | cons c rest =>
      simp only [isName, Bool.and_eq_true, List.all_eq_true] at name
      refine ⟨List.cons_ne_nil c rest, List.forall_mem_cons.mpr ⟨?_, ?_⟩⟩
      · exact isSpace_of_isNamePart (isNamePart_of_isNameStart name.1)
      · exact fun d member => isSpace_of_isNamePart (name.2 d member)

theorem identifier_eq {id : String} (name : isName id.toList = true) :
    identifier (some id.toList) = .ok id := by
  simp only [identifier, required, bind, Except.bind, if_pos name, String.ofList_toList]

theorem number_natText {n : Nat} (small : n < 0x100000000) :
    number (some (natText n).toList) = .ok n := by
  simp only [number, required, bind, Except.bind, readNatBelow?_natText small]

theorem comparison_symbol (op : CompareOp) : comparison (some op.symbol.toList) = .ok op := by
  cases op <;> rfl

theorem isWord_symbol (op : CompareOp) : IsWord op.symbol.toList := by
  have words : ∀ op ∈ CompareOp.all, IsWord op.symbol.toList := by decide
  exact words op (by cases op <;> simp [CompareOp.all])

end Assembly

end LessonScript
