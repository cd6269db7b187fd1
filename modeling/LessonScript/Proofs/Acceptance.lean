import LessonScript.Program.OfScript
import LessonScript.Proofs.StmtAccepted

/-!
The texts that compile are those whose tokens the grammar derives.
-/

namespace LessonScript

theorem Forms.noFault {n : Nat} {inLoop : Bool} {part : Part} {ts : List Token}
    (forms : Forms n inLoop part ts) : ∀ t ∈ ts, ∀ f, t.kind ≠ .fault f := by
  have word {kind : TokenKind} {t : Token} (reads : t.kind = kind)
      (plain : ∀ f, kind ≠ .fault f) : ∀ f, t.kind ≠ .fault f := by
    rw [reads]
    exact plain
  have expression {n : Nat} {phrase : Phrase} {ts : List Token} (spells : Spells n phrase ts) :
      ∀ t ∈ ts, ∀ f, t.kind ≠ .fault f := by
    intro t member f complains
    have inside := spells.inExpression t member
    rw [complains] at inside
    cases inside
  induction forms with
  | pass reads | breakLoop reads | continueLoop reads => simpa using word reads nofun
  | evaluate spells => exact expression spells
  | assign names _ reads spells | augment names _ _ reads spells =>
      simp only [List.forall_mem_cons]
      exact ⟨word names nofun, word reads nofun, expression spells⟩
  | line _ ends ih =>
      simp only [List.forall_mem_append, List.forall_mem_cons]
      exact ⟨ih, word ends nofun, nofun⟩
  | conditional reads spells _ _ ihSuite ihBranches
  | elifBranch reads spells _ _ ihSuite ihBranches =>
      simp only [List.forall_mem_append, List.forall_mem_cons]
      exact ⟨word reads nofun, expression spells, ihSuite, ihBranches⟩
  | noBranch | nothing => exact nofun
  | elseBranch reads _ ih =>
      simp only [List.forall_mem_cons]
      exact ⟨word reads nofun, ih⟩
  | whileLoop reads spells _ ih =>
      simp only [List.forall_mem_append, List.forall_mem_cons]
      exact ⟨word reads nofun, expression spells, ih⟩
  | forLoop reads names _ between spells _ ih =>
      simp only [List.forall_mem_append, List.forall_mem_cons]
      exact ⟨word reads nofun, word names nofun, word between nofun, expression spells, ih⟩
  | inline reads _ ends ih =>
      simp only [List.forall_mem_append, List.forall_mem_cons]
      exact ⟨word reads nofun, ih, word ends nofun, nofun⟩
  | block reads ends opens _ closes ih =>
      simp only [List.forall_mem_append, List.forall_mem_cons]
      exact ⟨word reads nofun, word ends nofun, word opens nofun, ih, word closes nofun, nofun⟩
  | more _ _ ih ih' =>
      simp only [List.forall_mem_append]
      exact ⟨ih, ih'⟩

theorem FormsScript.noFault {s : Stmt} {tokens : List Token} (forms : FormsScript s tokens) :
    ∀ t ∈ tokens, ∀ f, t.kind ≠ .fault f := by
  rcases forms with ⟨ts, last, rfl, ends, forms⟩
  intro t member f complains
  rcases List.mem_append.mp member with inside | atEnd
  · exact forms.noFault t inside f complains
  · cases List.mem_singleton.mp atEnd
    rw [ends] at complains
    cases complains

theorem Program.ofSource?_of_read {source : String} {script : Script}
    (read : Script.ofTokens? (tokenize source) = .ok script) :
    ofSource? source = .ok (ofScript script) := by
  rw [ofSource?_eq, Script.ofSource?, read]
  rfl

theorem Program.exists_forms_of_compiled {source : String} {p : Program}
    (compiled : ofSource? source = .ok p) : ∃ s, FormsScript s (tokenize source) := by
  cases read : Script.ofTokens? (tokenize source) with
  | error refusal =>
      rw [ofSource?_eq, Script.ofSource?, read] at compiled
      cases compiled
  | ok script => exact exists_formsScript (tokenize_laidOut source) read

/-- The compiler accepts exactly its grammar: a text compiles if and only if none of its tokens
is a complaint and the grammar derives them; any other text is refused as malformed. -/
theorem Program.compiles_iff_derivable (source : String) :
    ((∃ p, ofSource? source = .ok p) ↔
      (∀ t ∈ tokenize source, ∀ f, t.kind ≠ .fault f) ∧ ∃ s, FormsScript s (tokenize source)) ∧
    ((¬ ∃ p, ofSource? source = .ok p) →
      ∃ fault, ofSource? source = .error (.ofFault (.malformed fault))) := by
  constructor
  · constructor
    · rintro ⟨p, compiled⟩
      obtain ⟨s, forms⟩ := exists_forms_of_compiled compiled
      exact ⟨forms.noFault, s, forms⟩
    · rintro ⟨_, s, forms⟩
      rcases forms.reads with ⟨script, read, _⟩
      exact ⟨_, ofSource?_of_read read⟩
  · intro refused
    cases read : Script.ofTokens? (tokenize source) with
    | error refusal =>
        refine ⟨Script.faultOf source refusal, ?_⟩
        rw [ofSource?_eq, Script.ofSource?, read]
        rfl
    | ok script => exact absurd ⟨_, ofSource?_of_read read⟩ refused

end LessonScript
