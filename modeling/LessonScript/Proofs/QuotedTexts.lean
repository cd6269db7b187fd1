import LessonScript.Proofs.LiteralText
import LessonScript.Token.Lexeme

/-!
Strings of scripts and strings of listings are written alike.

A script goes on behind a string and a listing does not, so the one reader leaves text over where
the other refuses it, and their complaints are not the same.  What they accept is the same, with
the same value: `QuotedAlike` relates the two outcomes, and it is kept from character to
character.
-/

namespace LessonScript

open Assembly Lexeme

/-- What the reader of listings and the reader of scripts make of the same text behind an opening
quote. -/
inductive QuotedAlike : Except Complaint (List Char) → Lexeme → Prop
  | accepted (value tail : List Char) :
      QuotedAlike (.ok value) ⟨.str (String.ofList value), tail, []⟩
  | leftOver (s : String) (tail : List Char) {rest : List Char} (some : rest ≠ []) :
      QuotedAlike (.error .textBehindString) ⟨.str s, tail, rest⟩
  | refused {complaint : Complaint} (other : complaint ≠ .textBehindString) (fault : LexicalFault)
      (tail rest : List Char) : QuotedAlike (.error complaint) ⟨.fault fault, tail, rest⟩

theorem stringBody_scanString (quote : Char) (cs value taken : List Char) (oneLine : '\n' ∉ cs) :
    QuotedAlike (stringBody quote value cs) (scanString quote cs value taken) := by
  fun_induction scanString quote cs value taken with
  | case1 value taken =>
      unfold stringBody
      exact .refused (by decide) _ _ _
  | case2 cs value taken =>
      unfold stringBody
      rw [if_pos rfl]
      cases cs with
      | nil => exact .accepted _ _
      | cons c cs => exact .leftOver _ _ (List.cons_ne_nil c cs)
  | case3 value taken inside =>
      unfold stringBody
      rw [if_neg inside, if_pos rfl]
      exact .refused (by decide) _ _ _
  | case4 value taken letter cs escaped read inside ih =>
      unfold stringBody
      simp only [if_neg inside, if_true, read]
      simp only [List.mem_cons, not_or] at oneLine
      exact ih oneLine.2.2
  | case5 value taken letter cs read complaint inside =>
      unfold stringBody
      simp only [if_neg inside, if_true, read]
      exact .refused (by decide) _ _ _
  | case6 cs value taken inside plain => exact absurd (List.mem_cons_self ..) oneLine
  | case7 c cs value taken inside plain other ih =>
      unfold stringBody
      rw [if_neg inside, if_neg plain]
      exact ih (mt (List.mem_cons_of_mem c) oneLine)

theorem literal_quoted {quote : Char} (known : quote = '\'' ∨ quote = '"') (cs : List Char) :
    literal (some (quote :: cs)) =
      (stringBody quote [] cs).map fun value => .str (String.ofList value) := by
  have noWord : wordLiteral? (String.ofList (quote :: cs)) = none := by
    apply wordLiteral?_of_foreign (List.mem_cons_self ..)
    rcases known with rfl | rfl <;> decide
  simp only [literal, required, bind, Except.bind, noWord, if_pos known]
  cases stringBody quote [] cs <;> rfl

theorem scan_quoted {quote : Char} (known : quote = '\'' ∨ quote = '"') (cs : List Char) :
    scan quote cs = scanString quote cs [] [] :=
  if_pos known.symm

/-- What follows a quote on a line is a whole string of a listing exactly when it is one of a
script, and both have the same value.  Any other text is refused in a listing; in a script it is
a complaint, or a string with text left over, which is what the listing refuses it for. -/
theorem quoted_texts_read_alike {quote : Char} {cs : List Char}
    (known : quote = '\'' ∨ quote = '"') (oneLine : '\n' ∉ cs) :
    (∀ s, literal (some (quote :: cs)) = .ok (.str s) ↔ scan quote cs = ⟨.str s, cs, []⟩) ∧
      ((¬ ∃ s, literal (some (quote :: cs)) = .ok (.str s)) →
        (∃ complaint, literal (some (quote :: cs)) = .error complaint) ∧
          ((∃ fault, (scan quote cs).kind = .fault fault) ∨
            ∃ s, (scan quote cs).kind = .str s ∧ (scan quote cs).rest ≠ [])) ∧
      (literal (some (quote :: cs)) = .error .textBehindString ↔
        ∃ s, (scan quote cs).kind = .str s ∧ (scan quote cs).rest ≠ []) := by
  have alike := stringBody_scanString quote cs [] [] oneLine
  have whole := scan_append quote cs
  rw [scan_quoted known] at whole ⊢
  rw [literal_quoted known]
  generalize stringBody quote [] cs = read at alike ⊢
  generalize scanString quote cs [] [] = token at alike whole ⊢
  cases alike with
  | accepted value tail =>
      obtain rfl : tail = cs := by simpa using whole
      refine ⟨fun s => ?_, fun none => absurd ⟨_, rfl⟩ none, iff_of_false nofun ?_⟩
      · constructor
        · rintro ⟨⟩
          rfl
        · rintro ⟨⟩
          rfl
      · rintro ⟨_, _, some⟩
        exact some rfl
  | leftOver s tail some =>
      have left : ∃ s', TokenKind.str s = .str s' ∧ _ := ⟨s, rfl, some⟩
      refine ⟨fun s' => iff_of_false nofun fun same => ?_, fun _ => ⟨⟨_, rfl⟩, .inr left⟩,
        iff_of_true rfl left⟩
      exact some (congrArg Lexeme.rest same)
  | refused other fault tail rest =>
      refine ⟨fun s => iff_of_false nofun nofun, fun _ => ⟨⟨_, rfl⟩, .inl ⟨fault, rfl⟩⟩,
        iff_of_false ?_ nofun⟩
      rintro ⟨⟩
      exact other rfl

theorem escaped_quote_reads_alike :
    literal (some ['\'', '\\', '\'', '\\', 't', '"', '\'']) =
        .ok (.str (String.ofList ['\'', '\t', '"'])) ∧
      scan '\'' ['\\', '\'', '\\', 't', '"', '\''] =
        ⟨.str (String.ofList ['\'', '\t', '"']), ['\\', '\'', '\\', 't', '"', '\''], []⟩ := by
  have scanned : scan '\'' ['\\', '\'', '\\', 't', '"', '\''] =
      ⟨.str (String.ofList ['\'', '\t', '"']), ['\\', '\'', '\\', 't', '"', '\''], []⟩ := by
    rfl
  exact ⟨((quoted_texts_read_alike (.inl rfl) (by decide)).1 _).mpr scanned, scanned⟩

end LessonScript
