import LessonScript.Proofs.LexerSteps
import LessonScript.Proofs.LiteralText

/-!
What the text of a token looks like.

A token without a complaint is a string literal with its quotes, an operator, or a number or word
made of few kinds of characters (`HasText`).  A scanner that knows quotes, backslashes and comments
only can be followed from token to token with no more than this; `tokenize_hasText` gives it for
every token of a text.
-/

namespace LessonScript

open Lexer

def TokenKind.complains : TokenKind → Bool
  | .fault _ => true
  | _ => false

inductive QuotedRest (quote : Char) : List Char → Prop
  | close : QuotedRest quote [quote]
  | escape (letter : Char) {cs : List Char} (rest : QuotedRest quote cs) :
      QuotedRest quote ('\\' :: letter :: cs)
  | char {c : Char} {cs : List Char} (open' : c ≠ quote) (plain : c ≠ '\\') (inLine : c ≠ '\n')
      (rest : QuotedRest quote cs) : QuotedRest quote (c :: cs)

inductive HasText : TokenKind → List Char → Prop
  | quoted {quote : Char} {cs : List Char} {s : String} (known : quote = '"' ∨ quote = '\'')
      (rest : QuotedRest quote cs) : HasText (.str s) (quote :: cs)
  | plain {kind : TokenKind} {c : Char} {cs : List Char} (noSign : ∀ s, kind ≠ .symbol s)
      (parts : ∀ d ∈ c :: cs, Lexeme.isNumberPart d = true) : HasText kind (c :: cs)
  | sign (s : Symbol) : HasText (.symbol s) s.chars

namespace Lexeme

theorem scanString_rest {quote : Char} (cs value taken : List Char) :
    (scanString quote cs value taken).kind.complains = true ∨
      ∃ body s, (scanString quote cs value taken).tail = taken.reverse ++ body ∧
        (scanString quote cs value taken).kind = .str s ∧ QuotedRest quote body := by
  fun_induction scanString quote cs value taken with
  | case1 | case3 | case5 | case6 => exact .inl rfl
  | case2 => exact .inr ⟨_, _, List.reverse_cons, rfl, .close⟩
  | case4 value taken letter cs escaped read open' ih =>
      apply ih.imp_right
      rintro ⟨body, s, tail, kind, rest⟩
      refine ⟨'\\' :: letter :: body, s, ?_, kind, .escape letter rest⟩
      rw [tail]
      simp
  | case7 c cs value taken open' plain inLine ih =>
      apply ih.imp_right
      rintro ⟨body, s, tail, kind, rest⟩
      refine ⟨c :: body, s, ?_, kind, .char open' plain inLine rest⟩
      rw [tail]
      simp

theorem numberKind_noSign (isFloat : Bool) (text : List Char) (s : Symbol) :
    numberKind isFloat text ≠ .symbol s := by
  unfold numberKind
  split <;> split <;> exact nofun

theorem scanNumber_noSign (c : Char) (cs : List Char) (s : Symbol) :
    (scanNumber c cs).kind ≠ .symbol s := by
  simp only [scanNumber]
  split
  · exact numberKind_noSign _ _ s
  · intro same
    cases same

theorem scanWord_noSign (c : Char) (cs : List Char) (s : Symbol) :
    (scanWord c cs).kind ≠ .symbol s := by
  simp only [scanWord, wordKind]
  split <;> exact nofun

theorem chars_of_ofChars? {cs : List Char} {s : Symbol} (found : Symbol.ofChars? cs = some s) :
    s.chars = cs := by
  have spelled := List.find?_some found
  exact eq_of_beq spelled

theorem scanSymbol_hasText (c : Char) (cs : List Char) :
    (scanSymbol c cs).kind.complains = true ∨
      HasText (scanSymbol c cs).kind (c :: (scanSymbol c cs).tail) := by
  have single (cs : List Char) : (scanSingle c cs).kind.complains = true ∨
      HasText (scanSingle c cs).kind (c :: (scanSingle c cs).tail) := by
    unfold scanSingle
    split
    · rename_i s found
      rw [← chars_of_ofChars? found]
      exact .inr (.sign s)
    · exact .inl rfl
  unfold scanSymbol
  split
  · split
    · rename_i s found
      rw [← chars_of_ofChars? found]
      exact .inr (.sign s)
    · exact single _
  · exact single _

theorem scan_hasText (c : Char) (cs : List Char) :
    (scan c cs).kind.complains = true ∨ HasText (scan c cs).kind (c :: (scan c cs).tail) := by
  unfold scan
  split
  · rename_i known
    apply (scanString_rest cs [] []).imp_right
    rintro ⟨body, s, tail, kind, rest⟩
    rw [tail, kind]
    exact .quoted known rest
  · split
    · rename_i number
      have first : isNumberPart c = true := by
        rcases Bool.or_eq_true_iff.mp number with digit | point
        · exact isNumberPart_of_isDigit digit
        · have same : c = '.' := eq_of_beq (Bool.and_eq_true_iff.mp point).1
          rw [same]
          rfl
      exact .inr (.plain (scanNumber_noSign c cs)
        (List.forall_mem_cons.mpr ⟨first, scanNumber_parts c cs⟩))
    · split
      · rename_i name
        have first := isNumberPart_of_isNamePart (Text.isNamePart_of_isNameStart name)
        exact .inr (.plain (scanWord_noSign c cs) (List.forall_mem_cons.mpr
          ⟨first, fun d member => isNumberPart_of_isNamePart (List.mem_takeWhile_imp member)⟩))
      · exact scanSymbol_hasText c cs

end Lexeme

theorem Lexeme.isNumberPart_spec {c : Char} (part : isNumberPart c = true) :
    Text.isSpace c = false ∧ c ∉ ['"', '\'', '(', ')', '#', ':', '\n'] := by
  have others : ['"', '\'', '(', ')', '#', ':', '\n'].all (!isNumberPart ·) = true := by
    decide +kernel
  refine ⟨?_, fun member => ?_⟩
  · simp only [isNumberPart, Bool.or_eq_true, beq_iff_eq] at part
    rcases part with ((name | rfl) | rfl) | rfl
    · exact Assembly.isSpace_of_isNamePart name
    all_goals rfl
  · have other := List.all_eq_true.mp others c member
    rw [part] at other
    cases other

theorem QuotedRest.getLast? {quote : Char} {cs : List Char} (rest : QuotedRest quote cs) :
    cs.getLast? = some quote := by
  induction rest with
  | close => rfl
  | escape _ rest ih | char _ _ _ rest ih => simp [List.getLast?_cons, ih]

theorem HasText.last {kind : TokenKind} {text : List Char} (hasText : HasText kind text) :
    ∃ c, text.getLast? = some c ∧ Text.isSpace c = false ∧ (c = ':' ↔ kind = .symbol .colon) := by
  cases hasText with
  | @quoted quote cs s known rest =>
      refine ⟨quote, by simp [List.getLast?_cons, rest.getLast?], ?_, iff_of_false ?_ nofun⟩
      · rcases known with rfl | rfl <;> rfl
      · rcases known with rfl | rfl <;> decide
  | @plain _ c cs noSign parts =>
      have some : c :: cs ≠ [] := List.cons_ne_nil c cs
      obtain ⟨visible, other⟩ := Lexeme.isNumberPart_spec (parts _ (List.getLast_mem some))
      refine ⟨_, List.getLast?_eq_some_getLast some, visible, iff_of_false ?_ (noSign _)⟩
      intro colon
      rw [colon] at other
      exact other (by decide)
  | sign s => cases s <;> exact ⟨_, rfl, rfl, by decide⟩

/-- No token complains. -/
def Faultless (tokens : List Token) : Prop :=
  ∀ t ∈ tokens, t.kind.complains = false

instance (tokens : List Token) : Decidable (Faultless tokens) :=
  inferInstanceAs (Decidable (∀ t ∈ tokens, t.kind.complains = false))

theorem tokenize_hasText {source : String} (faultless : Faultless (tokenize source)) :
    ∀ t ∈ tokenize source, t.kind.isMark = true ∨ HasText t.kind t.lexeme := by
  intro t member
  refine ((Lexer.start source.toList).tokensFrom_cases t member).imp_right fun scanned => ?_
  obtain ⟨c, after, _, kind, lexeme⟩ := scanned
  have fine := faultless t member
  rw [kind] at fine
  rw [kind, lexeme]
  exact (Lexeme.scan_hasText c after).resolve_left (by simp [fine])

end LessonScript
