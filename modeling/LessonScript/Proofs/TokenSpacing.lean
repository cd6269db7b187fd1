import LessonScript.Proofs.LexerRuns
import LessonScript.Proofs.TokenPlaces
import Mathlib.Data.String.Basic

/-!
Tokens and the space between them.

Written out with a single space between them, the tokens of a text are read again as they were
(`respaced_kinds`): a token is read from its own text, and a space parts it from the next one.
-/

namespace LessonScript

open Lexer Text

/-- The text that the token covers in its source. -/
def Token.spanText (source : String) (t : Token) : String :=
  String.Pos.Raw.extract source ⟨t.position.offset⟩ ⟨t.stop⟩

/-- The tokens of a text that are neither marks of the layout nor complaints. -/
def words (source : String) : List Token :=
  (tokenize source).filter (·.kind.onLine)

theorem byteLength_eq_utf8Len (cs : List Char) : byteLength cs = String.utf8Len cs := by
  rw [byteLength_eq, String.utf8ByteSize_ofList]

theorem spanText_eq {source : String} {t : Token} (member : t ∈ tokenize source) :
    t.spanText source = String.ofList t.lexeme := by
  obtain ⟨front, back, split⟩ := List.append_of_mem member
  obtain ⟨read, gap, after, reads, _, _, placed, _⟩ := (tokenize_woven source).part split
  have offset : t.position.offset = String.utf8Len (read ++ gap) := by
    rw [← byteLength_eq_utf8Len, placed]
    rfl
  rw [Token.spanText, Token.stop, offset, byteLength_eq_utf8Len, ← source.ofList_toList, reads]
  exact String.extract_of_valid _ _ _

/-- A word is read from its text at some place, and without a complaint. -/
structure Word (t : Token) : Prop where
  scanned : Scanned t
  fine : t.kind.complains = false

theorem word_of_mem {source : String} {t : Token} (member : t ∈ words source) : Word t := by
  obtain ⟨listed, plain⟩ := List.mem_filter.mp member
  rcases tokensFrom_cases (.start source.toList) t listed with isMark | scanned
  · cases kind : t.kind <;> rw [kind] at plain isMark <;> cases plain <;> cases isMark
  · refine ⟨scanned, ?_⟩
    cases kind : t.kind <;> rw [kind] at plain <;> first | rfl | cases plain

theorem Word.kinds {s : Lexer} {t : Token} (word : Word t) (begun : ¬ s.Fresh)
    {blanks more : List Char} (blank : AllBlank blanks) (parted : Parted more) :
    (s.reading (blanks ++ (t.lexeme ++ more))).kindsFrom =
      t.kind :: ((s.behindToken t.kind).reading more).kindsFrom := by
  obtain ⟨c, after, visible, kind, lexeme⟩ := word.scanned
  have fine := word.fine
  rw [kind] at fine ⊢
  have whole := Lexeme.scan_whole fine
  have parts : Lexeme.scan c ((Lexeme.scan c after).tail ++ more) =
      { Lexeme.scan c after with rest := more } := by
    rw [Lexeme.scan_parted parted, whole, Lexeme.before]
    · rfl
    · rw [whole]
      dsimp only
      intro open_
      rw [open_] at fine
      cases fine
  rw [lexeme, List.cons_append, kinds_read begun blank visible, parts]

def spacedWords (ts : List Token) : List Char :=
  ts.flatMap fun t => ' ' :: t.lexeme

theorem spacedWords_parted (ts : List Token) : Parted (spacedWords ts) := by
  cases ts with
  | nil => exact .nil
  | cons t ts => exact .blank rfl _

theorem not_fresh {s : Lexer} (begun : s.atLineStart = false) : ¬ s.Fresh :=
  fun fresh => nomatch begun.symm.trans fresh.atLineStart

theorem kinds_spacedWords {s : Lexer} (begun : s.atLineStart = false) (flat : s.indents = [])
    (hasToken : s.lineHasToken = true) {ts : List Token} (all : ∀ t ∈ ts, Word t) :
    (s.reading (spacedWords ts)).kindsFrom = ts.map Token.kind ++ [.newline, .endOfInput] := by
  induction ts generalizing s with
  | nil =>
      have closed : (s.reading []).kindsFrom = _ := kinds_closed (not_fresh begun) .nil
      rw [kinds_closingMarks, flat, hasToken] at closed
      exact closed
  | cons t ts ih =>
      obtain ⟨word, others⟩ := List.forall_mem_cons.mp all
      have first : (s.reading (spacedWords (t :: ts))).kindsFrom =
          t.kind :: ((s.behindToken t.kind).reading (spacedWords ts)).kindsFrom :=
        word.kinds (not_fresh begun) (List.forall_mem_singleton.mpr rfl) (spacedWords_parted ts)
      rw [first, ih (s := s.behindToken t.kind) begun flat rfl others]
      rfl

theorem intercalate_spacedWords (t : Token) (ts : List Token) :
    List.intercalate [' '] ((t :: ts).map Token.lexeme) = t.lexeme ++ spacedWords ts := by
  induction ts generalizing t with
  | nil => simp [spacedWords]
  | cons u ts ih =>
      rw [List.map_cons, List.map_cons, List.intercalate_cons_cons, ← List.map_cons, ih,
        List.append_assoc]
      rfl

/-- Words with a single space between them are read again, and nothing else is. -/
theorem kinds_words {ts : List Token} (all : ∀ t ∈ ts, Word t) :
    (start (List.intercalate [' '] (ts.map Token.lexeme))).kindsFrom =
      ts.map Token.kind ++ (if ts = [] then [] else [.newline]) ++ [.endOfInput] := by
  cases ts with
  | nil =>
      have fresh : (start []).Fresh := ⟨rfl, rfl⟩
      exact (kinds_ended fresh (List.forall_mem_nil _)).trans (kinds_closed nofun .nil)
  | cons t ts =>
      obtain ⟨word, others⟩ := List.forall_mem_cons.mp all
      obtain ⟨c, after, visible, _, lexeme⟩ := word.scanned
      -- The first word stands at the start of its line and opens no block.
      have begins : (start (t.lexeme ++ spacedWords ts)).kindsFrom =
          (((start []).indented []).reading (t.lexeme ++ spacedWords ts)).kindsFrom := by
        rw [lexeme]
        exact kinds_begun (s := start []) ⟨rfl, rfl⟩ (List.forall_mem_nil _) visible
      have first := word.kinds (s := (start []).indented []) nofun (List.forall_mem_nil _)
        (spacedWords_parted ts)
      rw [List.nil_append] at first
      rw [intercalate_spacedWords, begins, first, kinds_spacedWords rfl rfl rfl others]
      simp

/-- The words of a text, written out with a single space between them. -/
def respaced (source : String) : String :=
  " ".intercalate ((words source).map (·.spanText source))

theorem kinds_of_words {source : String} {ts : List Token} (listed : ∀ t ∈ ts, t ∈ words source) :
    (tokenize (" ".intercalate (ts.map (·.spanText source)))).map Token.kind =
      ts.map Token.kind ++ (if ts = [] then [] else [.newline]) ++ [.endOfInput] := by
  have texts : ts.map (fun t => (t.spanText source).toList) = ts.map Token.lexeme := by
    refine List.map_congr_left fun t member => ?_
    rw [spanText_eq (List.mem_of_mem_filter (listed t member)), String.toList_ofList]
  have whole : (" ".intercalate (ts.map (·.spanText source))).toList =
      List.intercalate [' '] (ts.map Token.lexeme) := by
    rw [String.toList_intercalate, List.map_map]
    exact congrArg _ texts
  rw [kinds_tokenize, whole]
  exact kinds_words fun t member => word_of_mem (listed t member)

/-- For every text, the tokens that are neither marks of the layout nor complaints, written out
with a single space between them, are read again with the same kinds and payloads, in the same
order; a newline follows if there are any, and the end of the input.  So each of them is read from
its own text. -/
theorem respaced_kinds (source : String) :
    (tokenize (respaced source)).map Token.kind =
        (words source).map Token.kind ++ (if words source = [] then [] else [.newline]) ++
          [.endOfInput] ∧
      ∀ t ∈ words source, (tokenize (t.spanText source)).map Token.kind =
        [t.kind, .newline, .endOfInput] := by
  refine ⟨kinds_of_words fun _ member => member, fun t member => ?_⟩
  have alone : (tokenize (" ".intercalate ([t].map (·.spanText source)))).map Token.kind = _ :=
    kinds_of_words (List.forall_mem_singleton.mpr member)
  rwa [List.map_singleton, String.intercalate_singleton] at alone

end LessonScript
