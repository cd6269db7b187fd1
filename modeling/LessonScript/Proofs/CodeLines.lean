import LessonScript.Proofs.AlikeReading
import LessonScript.Proofs.FaultPlaces
import LessonScript.Proofs.LineLayout
import LessonScript.Proofs.References
import LessonScript.Proofs.RunSteps
import LessonScript.Proofs.SyntaxFaults

/-!
The lines that instructions name.

A reader hands on the line of a token of the script, so the tokens are alike to themselves under
the relation that also asks for such a token (`Script.body_lines`).  The line has code, since a line
without a token has nothing but blanks and a comment.  An error of a run names the line of the
instruction that failed (`Program.instructions_name_lines`).
-/

namespace LessonScript

theorem LineEnd.isMark {number depth : Nat} {ending : List Token}
    (ends : LineEnd number depth ending) : ∀ t ∈ ending, t.kind.isMark = true := by
  cases ends with
  | parted => exact List.forall_mem_singleton.mpr rfl
  | joined => exact List.forall_mem_nil _

theorem LaidLines.exists_line {finish : Position} {depth number : Nat} {blocks : List Nat}
    {lines : List (List Char)} {tokens : List Token}
    (laid : LaidLines finish depth blocks number lines tokens) :
    ∀ t ∈ tokens, t.kind.isMark = false →
      ∃ index line, t.position.line = number + index ∧ lines[index]? = some line ∧
        indentation? line ≠ none := by
  have marked {t : Token} {P : Prop} (isMark : t.kind.isMark = true)
      (word : t.kind.isMark = false) : P := nomatch isMark.symm.trans word
  induction laid with
  | done => exact fun t member word => marked (finalMarks_isMark _ _ _ t member) word
  | @silent depth number blocks line later tokens _ _ ih =>
      intro t member word
      obtain ⟨index, line, place, found, indented⟩ := ih t member word
      exact ⟨index + 1, line, by omega, found, indented⟩
  | @line depth number width blocks line later place first words ending tokens indented _ reads
      ends _ ih =>
      intro t member word
      rcases List.mem_append.mp member with front | behind
      · rcases List.mem_append.mp front with front | closes
        · rcases List.mem_append.mp front with opens | here
          · exact marked (openingMarks_isMark _ _ _ _ t opens).2.1 word
          · exact ⟨0, line, (reads t here).placed, rfl, by rw [indented]; exact nofun⟩
        · exact marked (ends.isMark t closes) word
      · obtain ⟨index, line, place, found, indented⟩ := ih t behind word
        exact ⟨index + 1, line, by omega, found, indented⟩

/-- A token that is no layout mark begins on the line, which is therefore more than blanks and a
comment. -/
structure HasCode (lines : List String) (n : Nat) : Prop where
  token : ∃ t ∈ tokenize (Text.joinLines lines), t.kind.onLine = true ∧ t.position.line = n
  text : ∃ line, 1 ≤ n ∧ lines[n - 1]? = some line ∧ indentation? line.toList ≠ none

variable {lines : List String}

theorem hasCode_of_mem (some : lines ≠ []) (plain : ∀ line ∈ lines, '\n' ∉ line.toList)
    {t : Token} (member : t ∈ tokenize (Text.joinLines lines)) (onLine : t.kind.onLine = true) :
    HasCode lines t.position.line := by
  have word : t.kind.isMark = false := by
    cases kind : t.kind <;> rw [kind] at onLine <;> first | rfl | cases onLine
  have laid := tokenize_lines (Text.joinLines lines)
  rw [Text.segments_joinLines some plain] at laid
  obtain ⟨index, cs, place, found, indented⟩ := laid.exists_line t member word
  rw [List.getElem?_map] at found
  obtain ⟨line, stands, rfl⟩ := Option.map_eq_some_iff.mp found
  refine ⟨⟨t, member, onLine, rfl⟩, line, by omega, ?_, indented⟩
  rw [place, Nat.add_sub_cancel_left, stands]

theorem HasCode.inside {n : Nat} (code : HasCode lines n) : 1 ≤ n ∧ n ≤ lines.length := by
  obtain ⟨line, first, found, _⟩ := code.text
  have inside := (List.getElem?_eq_some_iff.mp found).1
  omega

theorem line_inside (some : lines ≠ []) (plain : ∀ line ∈ lines, '\n' ∉ line.toList) {t : Token}
    (member : t ∈ tokenize (Text.joinLines lines)) :
    1 ≤ t.position.line ∧ t.position.line ≤ lines.length := by
  obtain ⟨front, back, reads, placed⟩ := exists_behind_of_mem_tokenize member
  have found := Text.segments_getElem?_count front back
  rw [← reads, Text.segments_joinLines some plain] at found
  have inside := (List.getElem?_eq_some_iff.mp found).1
  rw [List.length_map] at inside
  rw [placed, Position.behind]
  dsimp only
  omega

theorem Script.body_lines {tokens : List Token} {script : Script}
    (read : ofTokens? tokens = .ok script) (t : Tables) (loop : LoopFrame) (base : Nat) :
    ∀ i ∈ script.body.code t loop base,
      ∃ u ∈ tokens, u.kind.onLine = true ∧ u.position.line = i.line := by
  -- The relation looks at the first of the two lines only, so the list is alike to itself.
  have same : TokensAlike (fun n _ => ∃ u ∈ tokens, u.kind.onLine = true ∧ u.position.line = n)
      tokens tokens :=
    List.forall₂_same.mpr fun u member => ⟨rfl, fun onLine => ⟨u, member, onLine, rfl⟩⟩
  have agree := ofTokens?_agrees same
  rw [read] at agree
  cases agree with
  | ok alike =>
      intro i member
      exact (List.forall₂_same.mp (alike.code t loop base) i member).lines

theorem Script.lastLine_inside {script : Script} (some : lines ≠ [])
    (plain : ∀ line ∈ lines, '\n' ∉ line.toList)
    (read : ofTokens? (tokenize (Text.joinLines lines)) = .ok script) :
    1 ≤ script.lastLine ∧ script.lastLine ≤ lines.length := by
  obtain ⟨⟨body, rest⟩, _, done⟩ := exists_of_bind_ok read
  cases done
  change 1 ≤ lastLineOf _ ∧ lastLineOf _ ≤ _
  unfold lastLineOf
  split
  · rename_i t last
    exact line_inside some plain (List.dropLast_subset _ (List.mem_of_getLast? last))
  · exact ⟨Nat.le_refl 1, List.length_pos_iff.mpr some⟩

namespace Program

theorem exists_script {source : String} {p : Program} (compiled : ofSource? source = .ok p) :
    ∃ script, Script.ofTokens? (tokenize source) = .ok script ∧ p = ofScript script := by
  obtain ⟨script, read, rfl⟩ := exists_of_ofSource? compiled
  unfold Script.ofSource? at read
  split at read
  · rename_i found
    cases read
    exact ⟨script, found, rfl⟩
  · cases read

/-- The error names the instruction that failed.  Its line is the one of the instruction, but for a
complaint about a text with which the host has answered a request for input. -/
structure Names {σ : Type} (p : Program) (host : Host σ) (error : Error) (offset : Nat)
    (i : Instruction) : Prop where
  found : p.code[offset]? = some i
  site : error.site = some (siteOf i offset)
  line : error.line? = some i.line ∨
    error.fault.isSyntax = true ∧
      ∃ before prompt after, host.input before prompt = (.error error.fault, after)

theorem Names.of_fault {σ : Type} {p : Program} {host : Host σ} {fault : Fault} {offset : Nat}
    {i : Instruction} (found : p.code[offset]? = some i)
    (fromHost : fault.isSyntax = true →
      ∃ before prompt after, host.input before prompt = (.error fault, after)) :
    p.Names host ⟨fault, some (siteOf i offset)⟩ offset i := by
  refine ⟨found, rfl, ?_⟩
  cases fault with
  | malformed fault => exact .inr ⟨rfl, fromHost rfl⟩
  | _ => exact .inl rfl

theorem run_names {σ : Type} {p : Program} {limits : Limits} {builtins : BuiltinSet}
    {host : Host σ} {world : σ} {error : Error}
    (failed : (p.run limits builtins host world).result = .error error) :
    ∃ offset i, p.Names host error offset i := by
  obtain ⟨n, m, before, _, _, ends⟩ := run_endsWithin_of_error failed
  generalize p.run limits builtins host world = report at failed ends
  cases ends with
  | atEnd | returned => cases failed
  | exhausted found =>
      cases failed
      exact ⟨_, _, .of_fault found nofun⟩
  | failed found _ refused =>
      cases failed
      refine ⟨_, _, .of_fault found fun complains => ?_⟩
      obtain ⟨prompt, answered⟩ := Machine.dispatch_syntax refused complains
      exact ⟨_, prompt, _, answered⟩

/-- The instructions of a script of lines name lines of the script.  All but the last two name a
line on which a token begins that is no layout mark; so does every error of a run with an
instruction in front of these. -/
theorem instructions_name_lines {lines : List String} {p : Program} (some : lines ≠ [])
    (plain : ∀ line ∈ lines, '\n' ∉ line.toList) (compiled : ofLines? lines = .ok p) :
    (∀ i ∈ p.code.toList, 1 ≤ i.line ∧ i.line ≤ lines.length) ∧
      ∃ body index last, p.code.toList = body ++ [⟨.loadConst index, last⟩, ⟨.returnValue, last⟩] ∧
        p.constants[index]? = Option.some .nothing ∧
        (∀ i ∈ body, HasCode lines i.line) ∧
        ∀ (σ : Type) (limits : Limits) (builtins : BuiltinSet) (host : Host σ) (world : σ) error,
          (p.run limits builtins host world).result = .error error →
            ∃ offset i, p.Names host error offset i ∧
              (offset < body.length → HasCode lines i.line) := by
  obtain ⟨script, read, rfl⟩ := exists_script compiled
  have code := code_ofScript script
  generalize hBody : script.body.code (.ofStmt script.body) .outermost 0 = body at code
  have fromTokens : ∀ i ∈ body, HasCode lines i.line := by
    intro i member
    obtain ⟨u, listed, onLine, place⟩ :=
      Script.body_lines read _ _ _ i (hBody ▸ member)
    rw [← place]
    exact hasCode_of_mem some plain listed onLine
  have last := Script.lastLine_inside some plain read
  refine ⟨?_, body, _, script.lastLine, code, ?_, fromTokens, ?_⟩
  · rw [code]
    refine List.forall_mem_append.mpr ⟨fun i member => (fromTokens i member).inside, ?_⟩
    exact List.forall_mem_cons.mpr ⟨last, List.forall_mem_singleton.mpr last⟩
  · exact (ofScript_uses script).constant (Tables.ofStmt_knows script.body).2
  · intro σ limits builtins host world error failed
    obtain ⟨offset, i, names⟩ := run_names failed
    refine ⟨offset, i, names, fun inside => fromTokens i ?_⟩
    have found := names.found
    rw [← Array.getElem?_toList, code, List.getElem?_append_left inside] at found
    exact List.mem_of_getElem? found

theorem division_names_line :
    ∃ p error, ofLines? ["x = 0", "", "# halve", "print(1 // x)"] = .ok p ∧
      (∀ i ∈ p.code.toList, 1 ≤ i.line ∧ i.line ≤ 4) ∧
      (p.run .standard .standard Recorder.host (.ofInputs [])).result = .error error ∧
      ∃ offset i, p.Names Recorder.host error offset i := by
  obtain ⟨p, compiled⟩ := exists_of_isOk (Text.joinLines ["x = 0", "", "# halve", "print(1 // x)"])
    (by decide +kernel)
  have ran : ((ofLines? ["x = 0", "", "# halve", "print(1 // x)"]).toOption.any fun p =>
      !(p.run .standard .standard Recorder.host (.ofInputs [])).result.isOk) = true := by
    decide +kernel
  obtain ⟨lines, body, index, last, _, _, _, errors⟩ :=
    instructions_name_lines (by decide) (by decide +kernel) compiled
  rw [ofLines?, compiled] at ran
  change (!(p.run .standard .standard Recorder.host (.ofInputs [])).result.isOk) = true at ran
  cases failed : (p.run .standard .standard Recorder.host (.ofInputs [])).result with
  | ok v =>
      rw [failed] at ran
      cases ran
  | error error =>
      obtain ⟨offset, i, names, _⟩ := errors _ _ _ _ _ _ failed
      exact ⟨p, error, compiled, lines, failed, offset, i, names⟩

end Program

end LessonScript
