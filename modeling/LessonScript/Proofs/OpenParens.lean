import LessonScript.Editor.Entry
import LessonScript.Proofs.LineLayout
import LessonScript.Proofs.TokenText

/-!
The parentheses that the line editor counts are those of the tokens up to the first comment.

`Indentation.countOpen` looks for quotes, parentheses and number signs only.  It passes over one
token of the lexer at a time (`HasText.countOpen_eq`) and stops at the first number sign outside
tokens, where the lexer goes on with the next line.  So the editor and the lexer agree exactly when
the parentheses behind the first comment make up for each other (`Indentation.openParens_counts`).
-/

namespace LessonScript

open Lexer Indentation

/-- What a token adds to the number of open parentheses. -/
def TokenKind.opens : TokenKind → Int
  | .symbol .leftParen => 1
  | .symbol .rightParen => -1
  | _ => 0

theorem TokenKind.opens_of_isMark {kind : TokenKind} (isMark : kind.isMark = true) :
    kind.opens = 0 := by
  cases kind with
  | symbol => cases isMark
  | _ => rfl

namespace Indentation

/-- The character stands for itself outside strings. -/
def isPlain (c : Char) : Bool :=
  c ∉ ['"', '\'', '(', ')', '#']

theorem countOpen_plain (depth : Int) {cs : List Char} (plain : ∀ c ∈ cs, isPlain c = true)
    (rest : List Char) :
    countOpen none false depth (cs ++ rest) = countOpen none false depth rest := by
  induction cs with
  | nil => rfl
  | cons c cs ih =>
      obtain ⟨first, others⟩ := List.forall_mem_cons.mp plain
      have other : c ∉ ['"', '\'', '(', ')', '#'] := by simpa [isPlain] using first
      simp only [List.mem_cons, List.not_mem_nil, or_false, not_or] at other
      rw [List.cons_append, countOpen, if_neg (by tauto), if_neg (by tauto), if_neg (by tauto),
        if_neg (by tauto)]
      exact ih others

theorem countOpen_comment (depth : Int) (cs : List Char) :
    countOpen none false depth ('#' :: cs) = depth := by
  rw [countOpen, if_neg (by decide), if_neg (by decide), if_neg (by decide), if_pos rfl]

end Indentation

theorem QuotedRest.countOpen_eq {quote : Char} {cs : List Char}
    (known : quote = '"' ∨ quote = '\'') (quoted : QuotedRest quote cs) (depth : Int)
    (rest : List Char) :
    countOpen (some quote) false depth (cs ++ rest) = countOpen none false depth rest := by
  induction quoted with
  | close =>
      have other : quote ≠ '\\' := by rcases known with rfl | rfl <;> decide
      rw [List.singleton_append, countOpen, if_neg other, if_pos (.inl rfl)]
  | escape letter _ ih =>
      rw [List.cons_append, List.cons_append, countOpen, if_pos rfl, countOpen]
      exact ih
  | char open' plain inLine _ ih =>
      rw [List.cons_append, countOpen, if_neg plain, if_neg (not_or.mpr ⟨open', inLine⟩)]
      exact ih

theorem HasText.countOpen_eq {kind : TokenKind} {text : List Char} (hasText : HasText kind text)
    (depth : Int) (rest : List Char) :
    countOpen none false depth (text ++ rest) = countOpen none false (depth + kind.opens) rest := by
  cases hasText with
  | quoted known quoted =>
      rw [List.cons_append, countOpen, if_pos known.symm, quoted.countOpen_eq known depth rest]
      exact congrArg (countOpen none false · rest) (Int.add_zero depth).symm
  | plain noSign parts =>
      have same : kind.opens = 0 := by
        cases kind with
        | symbol s => exact absurd rfl (noSign s)
        | _ => rfl
      rw [same, Int.add_zero]
      refine countOpen_plain depth (fun c member => ?_) rest
      have other := (Lexeme.isNumberPart_spec (parts c member)).2
      simp only [isPlain, decide_eq_true_eq]
      exact fun special => other (List.mem_append_left [':', '\n'] special)
  | sign s =>
      have plain : s = .leftParen ∨ s = .rightParen ∨
          (TokenKind.symbol s).opens = 0 ∧ s.chars.all isPlain = true := by
        cases s <;> decide
      rcases plain with rfl | rfl | ⟨same, plain⟩
      · rfl
      · rfl
      · rw [same, Int.add_zero]
        exact countOpen_plain depth (List.all_eq_true.mp plain) rest

theorem Token.countOpen_eq {t : Token} (text : t.kind.isMark = true ∨ HasText t.kind t.lexeme)
    (covers : t.lexeme = [] ↔ t.kind.isMark = true) (depth : Int) (rest : List Char) :
    countOpen none false depth (t.lexeme ++ rest) =
      countOpen none false (depth + t.kind.opens) rest := by
  rcases text with isMark | hasText
  · rw [covers.mpr isMark, t.kind.opens_of_isMark isMark, Int.add_zero, List.nil_append]
  · exact hasText.countOpen_eq depth rest

/-- The token's own text covers the place. -/
def Token.covers (t : Token) (offset : Nat) : Bool :=
  t.position.offset ≤ offset && offset < t.stop

/-- The first place of a number sign that belongs to no token, in a text that begins at the
offset; the end of the text, if there is none. -/
def commentFrom (tokens : List Token) : Nat → List Char → Nat
  | offset, [] => offset
  | offset, c :: cs =>
    if c = '#' ∧ ¬ tokens.any (·.covers offset) then offset
    else commentFrom tokens (offset + c.utf8Size) cs

def commentStart (source : String) : Nat :=
  commentFrom (tokenize source) 0 source.toList

theorem le_commentFrom (tokens : List Token) (offset : Nat) (cs : List Char) :
    offset ≤ commentFrom tokens offset cs := by
  fun_induction commentFrom tokens offset cs with
  | case1 | case2 => exact Nat.le_refl _
  | case3 _ _ _ _ ih => exact Nat.le_trans (Nat.le_add_right _ _) ih

/-- Text without a number sign and the text of a token hold no start of a comment. -/
theorem commentFrom_append {tokens : List Token} {offset : Nat} {cs : List Char}
    (clear : '#' ∉ cs ∨ ∃ t ∈ tokens, t.position.offset ≤ offset ∧
      offset + Text.byteLength cs ≤ t.stop) (rest : List Char) :
    commentFrom tokens offset (cs ++ rest) =
      commentFrom tokens (offset + Text.byteLength cs) rest := by
  induction cs generalizing offset with
  | nil => rfl
  | cons c cs ih =>
      rw [Text.byteLength_cons] at clear ⊢
      have size := c.utf8Size_pos
      rw [List.cons_append, commentFrom, if_neg, ih, Nat.add_assoc]
      · refine clear.imp (fun plain => mt (List.mem_cons_of_mem c) plain) ?_
        rintro ⟨t, member, begins, ends⟩
        exact ⟨t, member, by omega, by omega⟩
      · rintro ⟨rfl, uncovered⟩
        rcases clear with plain | ⟨t, member, begins, ends⟩
        · exact plain (List.mem_cons_self ..)
        · refine uncovered (List.any_eq_true.mpr ⟨t, member, ?_⟩)
          simp only [Token.covers, Bool.and_eq_true, decide_eq_true_eq]
          omega

theorem commentFrom_uncovered {tokens : List Token} {offset : Nat} (cs : List Char)
    (apart : ∀ t ∈ tokens, t.stop ≤ offset ∨ offset < t.position.offset) :
    commentFrom tokens offset ('#' :: cs) = offset := by
  rw [commentFrom, if_pos]
  refine ⟨rfl, fun covered => ?_⟩
  obtain ⟨t, member, covers⟩ := List.any_eq_true.mp covered
  simp only [Token.covers, Bool.and_eq_true, decide_eq_true_eq] at covers
  rcases apart t member with behind | inFront
  · exact absurd covers.2 (Nat.not_lt.mpr behind)
  · exact absurd covers.1 (Nat.not_le.mpr inFront)

theorem commentFrom_token {tokens : List Token} {t : Token} {front : List Char}
    (member : t ∈ tokens) (placed : t.position = .behind front) (after : List Char) :
    commentFrom tokens (Text.byteLength front) (t.lexeme ++ after) =
      commentFrom tokens (Text.byteLength (front ++ t.lexeme)) after := by
  have begins : t.position.offset ≤ Text.byteLength front := by
    rw [placed]
    exact Nat.le_refl _
  have stops : Text.byteLength front + Text.byteLength t.lexeme ≤ t.stop := by
    rw [Token.stop_eq placed, Text.byteLength_append]
  rw [commentFrom_append (.inr ⟨t, member, begins, stops⟩), Text.byteLength_append]

theorem offset_lt_commentFrom {t : Token} {front : List Char} (placed : t.position = .behind front)
    (some : t.lexeme ≠ []) (tokens : List Token) (after : List Char) :
    t.position.offset < commentFrom tokens (Text.byteLength (front ++ t.lexeme)) after := by
  obtain ⟨c, rest, spelled⟩ := List.exists_cons_of_ne_nil some
  refine Nat.lt_of_lt_of_le ?_ (le_commentFrom tokens _ after)
  rw [placed, spelled]
  exact Text.byteLength_lt_append front c rest

theorem isPlain_of_blank {c : Char} (blank : isBlank c = true ∨ c = '\n') : isPlain c = true := by
  simp only [isBlank, Bool.or_eq_true, beq_iff_eq] at blank
  rcases blank with (((rfl | rfl) | rfl) | rfl) | rfl <;> decide

theorem countOpen_blanks (depth : Int) {blanks : List Char}
    (blank : ∀ c ∈ blanks, isBlank c = true ∨ c = '\n') (rest : List Char) :
    countOpen none false depth (blanks ++ rest) = countOpen none false depth rest :=
  countOpen_plain depth (fun c member => isPlain_of_blank (blank c member)) rest

def balance (tokens : List Token) : Int :=
  (tokens.map (·.kind.opens)).sum

theorem balance_cons (t : Token) (tokens : List Token) :
    balance (t :: tokens) = t.kind.opens + balance tokens :=
  List.sum_cons

theorem balance_marks {tokens : List Token} (marked : ∀ t ∈ tokens, t.kind.isMark = true) :
    balance tokens = 0 := by
  induction tokens with
  | nil => rfl
  | cons t tokens ih =>
      obtain ⟨isMark, others⟩ := List.forall_mem_cons.mp marked
      rw [balance_cons, t.kind.opens_of_isMark isMark, ih others, Int.add_zero]

theorem balance_filter {p : Token → Bool} {tokens : List Token}
    (kept : ∀ t ∈ tokens, t.kind.isMark = true ∨ p t = true) :
    balance (tokens.filter p) = balance tokens := by
  induction tokens with
  | nil => rfl
  | cons t tokens ih =>
      obtain ⟨first, others⟩ := List.forall_mem_cons.mp kept
      by_cases passes : p t = true
      · rw [List.filter_cons_of_pos passes, balance_cons, balance_cons, ih others]
      · have none := t.kind.opens_of_isMark (first.resolve_right passes)
        rw [List.filter_cons_of_neg passes, balance_cons, none, Int.zero_add, ih others]

theorem balance_append (first second : List Token) :
    balance (first ++ second) = balance first + balance second := by
  rw [balance, List.map_append, List.sum_append]
  rfl

structure CutAt (comment : Nat) (text : List Char) (front back : List Token) : Prop where
  inFront : ∀ t ∈ front, t.kind.isMark = true ∨ t.position.offset < comment
  behind : ∀ t ∈ back, comment ≤ t.position.offset
  counted : ∀ depth, countOpen none false depth text = depth + balance front
  ofLine : '\n' ∉ text → ∀ t ∈ back, t.kind.isMark = true

theorem CutAt.token {comment : Nat} {blanks after : List Char} {t : Token} {front back : List Token}
    (cut : CutAt comment after front back) (blank : ∀ c ∈ blanks, isBlank c = true ∨ c = '\n')
    (text : t.kind.isMark = true ∨ HasText t.kind t.lexeme)
    (covers : t.lexeme = [] ↔ t.kind.isMark = true)
    (inFront : t.lexeme ≠ [] → t.position.offset < comment) :
    CutAt comment (blanks ++ (t.lexeme ++ after)) (t :: front) back := by
  refine ⟨List.forall_mem_cons.mpr ⟨?_, cut.inFront⟩, cut.behind, fun depth => ?_,
    fun oneLine => ?_⟩
  · by_cases empty : t.lexeme = []
    · exact .inl (covers.mp empty)
    · exact .inr (inFront empty)
  · rw [countOpen_blanks depth blank, Token.countOpen_eq text covers, cut.counted, balance_cons,
      Int.add_assoc]
  · exact cut.ofLine fun member => oneLine
      (List.mem_append_right _ (List.mem_append_right _ member))

theorem CutAt.comment {blanks words : List Char} {start : Nat} {tokens : List Token}
    (blank : ∀ c ∈ blanks, isBlank c = true ∨ c = '\n')
    (behind : ∀ t ∈ tokens, start ≤ t.position.offset)
    (ofLine : '\n' ∉ words → ∀ t ∈ tokens, t.kind.isMark = true) :
    CutAt start (blanks ++ '#' :: words) [] tokens := by
  refine ⟨List.forall_mem_nil _, behind, fun depth => ?_, fun oneLine => ofLine fun member => ?_⟩
  · rw [countOpen_blanks depth blank, countOpen_comment]
    exact (Int.add_zero depth).symm
  · exact oneLine (List.mem_append_right _ (List.mem_cons_of_mem _ member))

/-- The first number sign outside tokens begins a comment, and what is counted is counted in
front of it. -/
theorem Woven.cutAt {before text : List Char} {tokens : List Token}
    (woven : Woven before text tokens) {earlier : List Token}
    (past : ∀ t ∈ earlier, t.stop ≤ Text.byteLength before)
    (texts : ∀ t ∈ tokens, t.kind.isMark = true ∨ HasText t.kind t.lexeme) :
    ∃ front back, tokens = front ++ back ∧
      CutAt (commentFrom (earlier ++ tokens) (Text.byteLength before) text) text front back := by
  induction woven generalizing earlier with
  | @last before gap filler =>
      obtain ⟨blanks, comment, rfl, blank, ends⟩ := filler.split
      refine ⟨[_], [], rfl, List.forall_mem_singleton.mpr (.inl rfl), List.forall_mem_nil _,
        fun depth => ?_, fun _ => List.forall_mem_nil _⟩
      rw [countOpen_blanks depth blank]
      refine Eq.trans ?_ (Int.add_zero depth).symm
      rcases ends with rfl | ⟨words, rfl, _⟩
      · rfl
      · exact countOpen_comment depth words
  | @more before gap after text t ts reads filler placed other covers onward ih =>
      obtain ⟨blanks, comment, rfl, blank, ends⟩ := filler.split
      have stops := Token.stop_eq placed
      have noSign : '#' ∉ blanks := fun member =>
        absurd (isPlain_of_blank (blank _ member)) (by decide)
      subst reads
      rw [List.append_assoc blanks, commentFrom_append (.inl noSign), ← Text.byteLength_append]
      rcases ends with rfl | ⟨words, rfl, endsLine⟩
      · rw [List.append_nil] at placed stops onward ih
        obtain ⟨text, others⟩ := List.forall_mem_cons.mp texts
        have past' : ∀ u ∈ earlier ++ [t],
            u.stop ≤ Text.byteLength (before ++ blanks ++ t.lexeme) := by
          refine List.forall_mem_append.mpr ⟨fun u isEarlier => ?_, by simp [stops]⟩
          rw [List.append_assoc]
          exact Nat.le_trans (past u isEarlier) (Text.byteLength_le_append _ _)
        obtain ⟨front, back, rfl, cut⟩ := ih past' others
        rw [List.append_assoc earlier, List.singleton_append] at cut
        rw [List.nil_append, commentFrom_token (by simp) placed]
        exact ⟨t :: front, back, rfl, cut.token blank text covers fun some =>
          offset_lt_commentFrom placed some _ after⟩
      · have here : Text.byteLength (before ++ blanks) < t.position.offset := by
          rw [placed, ← List.append_assoc]
          exact Text.byteLength_lt_append _ '#' words
        have later : ∀ u ∈ t :: ts, Text.byteLength (before ++ blanks) < u.position.offset := by
          refine List.forall_mem_cons.mpr ⟨here, fun u member => ?_⟩
          have behind := onward.offset_le u member
          rw [← stops] at behind
          exact Nat.lt_of_lt_of_le here (Nat.le_trans (Nat.le_add_right _ _) behind)
        rw [List.cons_append, commentFrom_uncovered]
        · refine ⟨[], t :: ts, rfl, .comment blank (fun u member => (later u member).le) ?_⟩
          intro oneLine
          obtain ⟨lexeme, ended⟩ := List.append_eq_nil_iff.mp (endsLine oneLine)
          exact List.forall_mem_cons.mpr
            ⟨covers.mp lexeme, fun u member => (onward.marks_of_nil ended u member).2⟩
        · intro u member
          refine (List.mem_append.mp member).imp (fun isEarlier => ?_) (later u)
          exact Nat.le_trans (past u isEarlier) (Text.byteLength_le_append _ _)

/-- The tokens in front of the first comment. -/
def beforeComment (source : String) : List Token :=
  (tokenize source).filter (·.position.offset < commentStart source)

/-- The tokens behind the first comment: those of later lines, and the marks that end its own. -/
def behindComment (source : String) : List Token :=
  (tokenize source).filter (commentStart source ≤ ·.position.offset)

/-- Every parenthesis that is closed has been opened before. -/
def ClosesOwn (tokens : List Token) : Prop :=
  ∀ front, front <+: tokens →
    countOf (.symbol .rightParen) front ≤ countOf (.symbol .leftParen) front

instance (tokens : List Token) : Decidable (ClosesOwn tokens) :=
  decidable_of_iff (∀ front ∈ tokens.inits,
    countOf (.symbol .rightParen) front ≤ countOf (.symbol .leftParen) front)
    (by simp only [ClosesOwn, List.mem_inits])

theorem TokenKind.opens_eq (kind : TokenKind) :
    kind.opens = (if kind = .symbol .leftParen then 1 else 0) -
      if kind = .symbol .rightParen then 1 else 0 := by
  cases kind with
  | symbol s => cases s <;> rfl
  | _ => rfl

theorem balance_eq (tokens : List Token) :
    balance tokens =
      (countOf (.symbol .leftParen) tokens : Int) - countOf (.symbol .rightParen) tokens := by
  induction tokens with
  | nil => rfl
  | cons t tokens ih =>
      rw [balance_cons, countOf_cons, countOf_cons, ih, t.kind.opens_eq]
      push_cast
      ring

theorem countOf_split (kind : TokenKind) (source : String) :
    countOf kind (tokenize source) =
      countOf kind (beforeComment source) + countOf kind (behindComment source) := by
  simp only [countOf, beforeComment, behindComment, ← Nat.not_lt, decide_not]
  exact List.countP_eq_countP_filter_add _ _ _

theorem depthAfter_eq (depth : Nat) (kind : TokenKind) (closes : 0 ≤ depth + kind.opens) :
    (depthAfter depth kind : Int) = depth + kind.opens := by
  cases kind with
  | symbol s =>
      cases s with
      | rightParen =>
          simp only [TokenKind.opens] at closes ⊢
          change ((depth - 1 : Nat) : Int) = _
          omega
      | _ => rfl
  | _ => rfl

/-- Where only open parentheses are closed, the lexer counts what the tokens open and do not
close. -/
theorem depthFrom_add (depth : Nat) {tokens : List Token}
    (closes : ∀ front, front <+: tokens → 0 ≤ depth + balance front) :
    (depthFrom depth tokens : Int) = depth + balance tokens := by
  induction tokens generalizing depth with
  | nil => exact (Int.add_zero _).symm
  | cons t tokens ih =>
      have first := closes [t] (List.prefix_append [t] tokens)
      rw [balance_cons] at first ⊢
      have step := depthAfter_eq depth t.kind (by simpa [balance] using first)
      change (depthFrom (depthAfter depth t.kind) tokens : Int) = _
      rw [ih, step, Int.add_assoc]
      intro front isPrefix
      have bound := closes (t :: front) (List.cons_prefix_cons.mpr ⟨rfl, isPrefix⟩)
      rwa [balance_cons, ← Int.add_assoc, ← step] at bound

theorem ClosesOwn.depthFrom_eq {tokens : List Token} (closes : ClosesOwn tokens) :
    (depthFrom 0 tokens : Int) = balance tokens := by
  rw [depthFrom_add, Nat.cast_zero, Int.zero_add]
  intro front isPrefix
  have bound := closes front isPrefix
  rw [balance_eq]
  omega

namespace Indentation

theorem exists_cutAt {source : String} (faultless : Faultless (tokenize source)) :
    ∃ front back, tokenize source = front ++ back ∧
      CutAt (commentStart source) source.toList front back :=
  (tokenize_woven source).cutAt (List.forall_mem_nil _) (tokenize_hasText faultless)

theorem openParens_eq {source : String} (faultless : Faultless (tokenize source)) :
    openParens source.toList = balance (beforeComment source) := by
  obtain ⟨front, back, parts, cut⟩ := exists_cutAt faultless
  have none : back.filter (·.position.offset < commentStart source) = [] :=
    List.filter_eq_nil_iff.mpr fun t member => by simpa using cut.behind t member
  rw [beforeComment, parts, List.filter_append, none, List.append_nil,
    balance_filter fun t member => by simpa using cut.inFront t member]
  exact (cut.counted 0).trans (Int.zero_add _)

theorem openParens_of_line {source : String} (faultless : Faultless (tokenize source))
    (oneLine : '\n' ∉ source.toList) :
    openParens source.toList = balance (tokenize source) := by
  obtain ⟨front, back, parts, cut⟩ := exists_cutAt faultless
  rw [parts, balance_append, balance_marks (cut.ofLine oneLine), Int.add_zero]
  exact (cut.counted 0).trans (Int.zero_add _)

/-- In a text without a faulty token the parentheses that are counted are those of the tokens in
front of the first comment.  So the count is that of all tokens exactly when the lines behind the
first comment close as many parentheses as they open; and then the editor goes on with an entry
exactly while the lexer is inside parentheses. -/
theorem openParens_counts {source : String} (faultless : Faultless (tokenize source)) :
    openParens source.toList = (countOf (.symbol .leftParen) (beforeComment source) : Int) -
      countOf (.symbol .rightParen) (beforeComment source) ∧
    (openParens source.toList = (countOf (.symbol .leftParen) (tokenize source) : Int) -
        countOf (.symbol .rightParen) (tokenize source) ↔
      countOf (.symbol .leftParen) (behindComment source) =
        countOf (.symbol .rightParen) (behindComment source)) ∧
    (ClosesOwn (tokenize source) →
      countOf (.symbol .leftParen) (behindComment source) =
        countOf (.symbol .rightParen) (behindComment source) →
      ∀ before raw text rest, RawLines.text? raw = some text →
        (Entry.splitLineEnd (before ++ text.toList)).1 = source.toList →
          Entry.take? before (raw :: rest) =
            if 0 < depthFrom 0 (tokenize source) then Entry.take? (before ++ text.toList) rest
            else (some (.line source), rest)) := by
  have counted := openParens_eq faultless
  rw [balance_eq] at counted
  have whole : openParens source.toList = (countOf (.symbol .leftParen) (tokenize source) : Int) -
        countOf (.symbol .rightParen) (tokenize source) ↔
      countOf (.symbol .leftParen) (behindComment source) =
        countOf (.symbol .rightParen) (behindComment source) := by
    rw [counted, countOf_split, countOf_split]
    push_cast
    omega
  refine ⟨counted, whole, fun closes even before raw text rest read body => ?_⟩
  have depth : (depthFrom 0 (tokenize source) : Int) = openParens source.toList := by
    rw [whole.mpr even, closes.depthFrom_eq, balance_eq]
  simp only [Entry.take?, read, body, ← depth, Nat.cast_pos, String.ofList_toList]

theorem openParens_of_nested_call :
    openParens "print('#(', max(1,\n 2), # (note".toList = 1 ∧
      ∀ raw rest, RawLines.text? raw = some "print('#(', max(1,\n 2), # (note" →
        Entry.take? [] (raw :: rest) =
          Entry.take? "print('#(', max(1,\n 2), # (note".toList rest := by
  obtain ⟨count, _, goesOn⟩ :=
    @openParens_counts "print('#(', max(1,\n 2), # (note" (by decide +kernel)
  refine ⟨count.trans (by decide +kernel), fun raw rest read => ?_⟩
  have taken := goesOn (by decide +kernel) (by decide +kernel) [] raw _ rest read
    (by decide +kernel)
  rwa [if_pos (by decide +kernel)] at taken

/-- The editor does not see that the second line closes the call. -/
theorem openParens_behind_comment :
    Faultless (tokenize "print(1, # note\n2)") ∧ ClosesOwn (tokenize "print(1, # note\n2)") ∧
      openParens "print(1, # note\n2)".toList = 1 ∧
      (countOf (.symbol .leftParen) (tokenize "print(1, # note\n2)") : Int) -
        countOf (.symbol .rightParen) (tokenize "print(1, # note\n2)") = 0 := by
  decide +kernel

end Indentation

end LessonScript
