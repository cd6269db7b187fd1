import LessonScript.Program.OfScript
import LessonScript.Proofs.RefusalPlaces
import LessonScript.Proofs.TokenLines

/-!
The place that a syntax fault names.

Line, column and byte offset of a token are three counts over the text in front of it.  The line
of the text that a fault quotes is found from the offset alone, searching both ways for a line feed
(`Text.lineAround`); it is the line that the number names, since that many line feeds are in front
of it (`Text.segments_getElem?_count`).  Together with the places where readers refuse this gives
`Program.faults_point_into_lines`.
-/

namespace LessonScript

namespace Text

theorem cutAtByte_append (before front back : List Char) :
    cutAtByte before (byteLength front) (front ++ back) = (front.reverse ++ before, back) := by
  induction front generalizing before with
  | nil =>
      cases back with
      | nil => rfl
      | cons c cs => exact if_pos c.utf8Size_pos
  | cons c front ih =>
      rw [List.cons_append, cutAtByte, byteLength_cons, if_neg (by omega),
        Nat.add_sub_cancel_left, ih, List.reverse_cons, List.append_assoc]
      rfl

theorem lineAround_append (front back : List Char) :
    lineAround (front ++ back) (byteLength front) =
      front.rtakeWhile (· != '\n') ++ back.takeWhile (· != '\n') := by
  rw [lineAround, cutAtByte_append, List.append_nil]
  rfl

theorem segments_cons (c : Char) (cs : List Char) :
    segments (c :: cs) =
      if c = '\n' then [] :: segments cs else (segments cs).modifyHead (c :: ·) := by
  obtain ⟨line, later, same⟩ := exists_segments cs
  rw [segments, List.foldr_cons, ← segments, same]
  rfl

theorem segments_eq_splitOn (cs : List Char) : segments cs = cs.splitOn '\n' := by
  induction cs with
  | nil => rfl
  | cons c cs ih =>
      rw [segments_cons, ih, List.splitOn_cons_eq_if_modifyHead]
      simp only [beq_iff_eq]

theorem segments_joinLines {lines : List String} (some : lines ≠ [])
    (plain : ∀ line ∈ lines, '\n' ∉ line.toList) :
    segments (joinLines lines).toList = lines.map String.toList := by
  rw [segments_eq_splitOn, joinLines, String.toList_intercalate]
  apply List.splitOn_intercalate
  · exact List.forall_mem_map.mpr plain
  · exact mt List.map_eq_nil_iff.mp some

theorem segments_takeWhile (cs : List Char) :
    ∃ later, segments cs = cs.takeWhile (· != '\n') :: later := by
  induction cs with
  | nil => exact ⟨[], rfl⟩
  | cons c cs ih =>
      obtain ⟨later, same⟩ := ih
      rw [segments_cons, same]
      by_cases ends : c = '\n'
      · subst ends
        exact ⟨_, rfl⟩
      · rw [if_neg ends, List.takeWhile_cons_of_pos (by simpa using ends)]
        exact ⟨later, rfl⟩

/-- Behind as many lines as there are line feeds in a text comes the line that its end lies in.
The induction is from the end of the text, so that the line is complete on its right side. -/
theorem segments_drop (front : List Char) {back line : List Char} {later : List (List Char)}
    (pieces : segments back = line :: later) :
    (segments (front ++ back)).drop (front.count '\n') =
      (front.rtakeWhile (· != '\n') ++ line) :: later := by
  induction front using List.reverseRecOn generalizing back line later with
  | nil => exact pieces
  | append_singleton front c ih =>
      have onward := segments_cons c back
      rw [pieces] at onward
      rw [List.append_assoc, List.singleton_append, List.count_append]
      by_cases ends : c = '\n'
      · subst ends
        rw [if_pos rfl] at onward
        rw [← List.drop_drop, ih onward, List.rtakeWhile_concat_neg _ _ _ (by simp)]
        rfl
      · have none : List.count '\n' [c] = 0 := by simp [ends]
        rw [if_neg ends] at onward
        rw [none, Nat.add_zero, ih onward,
          List.rtakeWhile_concat_pos _ _ _ (by simpa using ends), List.append_assoc]
        rfl

theorem segments_getElem?_count (front back : List Char) :
    (segments (front ++ back))[front.count '\n']? =
      some (lineAround (front ++ back) (byteLength front)) := by
  obtain ⟨later, pieces⟩ := segments_takeWhile back
  rw [lineAround_append, ← List.head?_drop, segments_drop front pieces]
  rfl

end Text

theorem exists_behind_of_mem_tokenize {source : String} {t : Token}
    (member : t ∈ tokenize source) :
    ∃ front back, source.toList = front ++ back ∧ t.position = .behind front := by
  obtain ⟨before, after, split⟩ := List.append_of_mem member
  obtain ⟨read, gap, rest, reads, _, _, placed, _⟩ := (tokenize_woven source).part split
  refine ⟨read ++ gap, t.lexeme ++ rest, ?_, placed⟩
  rw [reads, List.append_assoc (read ++ gap)]

theorem ended_tokenize (source : String) : Ended (tokenize source) := by
  obtain ⟨front, ends, _⟩ := (tokenize_woven source).ends
  rw [ends]
  exact ⟨_, List.getLast?_concat, rfl⟩

/-- The fault quotes the line of the text that its number names, and its column is in that line or
just behind it. -/
structure SyntaxFault.Quotes (text : List Char) (fault : SyntaxFault) : Prop where
  line : 1 ≤ fault.line
  source : (Text.segments text)[fault.line - 1]? = some fault.source.toList
  column : 1 ≤ fault.column ∧ fault.column ≤ fault.source.length + 1

theorem Script.faultOf_quotes {source : String} {refusal : Refusal} {t : Token}
    (member : t ∈ tokenize source) (stands : refusal.position = t.position) :
    (faultOf source refusal).Quotes source.toList := by
  obtain ⟨front, back, reads, placed⟩ := exists_behind_of_mem_tokenize member
  have quoted : Text.lineAround source.toList refusal.position.offset =
      Text.lineAround (front ++ back) (Text.byteLength front) := by
    rw [reads, stands, placed]
    rfl
  unfold faultOf
  rw [quoted, stands, placed]
  constructor
  case line => exact Nat.le_add_right 1 _
  case source =>
    rw [reads, String.toList_ofList, ← Text.segments_getElem?_count]
    exact congrArg _ (Nat.add_sub_cancel_left 1 _)
  case column =>
    rw [String.length_ofList, Text.lineAround_append, List.length_append, Position.behind]
    dsimp only
    omega

/-- The fault points into the lines of a script: it quotes the line that its number names, its
column is in that line or just behind it, and a token of the script begins there. -/
structure SyntaxFault.PointsInto (lines : List String) (fault : SyntaxFault) : Prop where
  line : 1 ≤ fault.line ∧ fault.line ≤ lines.length
  source : lines[fault.line - 1]? = some fault.source
  column : 1 ≤ fault.column ∧ fault.column ≤ fault.source.length + 1
  token : ∃ t ∈ tokenize (Text.joinLines lines),
    t.position.line = fault.line ∧ t.position.column = fault.column

theorem SyntaxFault.Quotes.pointsInto {lines : List String} {fault : SyntaxFault}
    (some : lines ≠ []) (plain : ∀ line ∈ lines, '\n' ∉ line.toList)
    (quotes : fault.Quotes (Text.joinLines lines).toList) {t : Token}
    (member : t ∈ tokenize (Text.joinLines lines)) (sameLine : t.position.line = fault.line)
    (sameColumn : t.position.column = fault.column) : fault.PointsInto lines := by
  obtain ⟨first, quoted, columns⟩ := quotes
  rw [Text.segments_joinLines some plain, List.getElem?_map] at quoted
  obtain ⟨line, found, text⟩ := Option.map_eq_some_iff.mp quoted
  have inside := (List.getElem?_eq_some_iff.mp found).1
  constructor
  case line => omega
  case source => rw [found, String.toList_inj.mp text]
  case column => exact columns
  case token => exact ⟨t, member, sameLine, sameColumn⟩

namespace Program

theorem ofSource?_refusal {source : String} {error : Error}
    (refused : ofSource? source = .error error) :
    ∃ refusal, error = .ofFault (.malformed (Script.faultOf source refusal)) ∧
      ∃ t ∈ tokenize source, refusal.position = t.position := by
  rw [ofSource?_eq] at refused
  unfold Script.ofSource? at refused
  cases read : Script.ofTokens? (tokenize source) with
  | ok script =>
      rw [read] at refused
      cases refused
  | error refusal =>
      rw [read] at refused
      cases refused
      exact ⟨refusal, rfl, Script.ofTokens?_refusal (ended_tokenize source) read⟩

/-- Whatever lines do not compile, the error is a syntax fault, and it points at a token of the
script: its line is one of the lines, the text that it quotes is that line, and its column is that
of one of the line's characters or the one behind the last. -/
theorem faults_point_into_lines {lines : List String} {error : Error} (some : lines ≠ [])
    (plain : ∀ line ∈ lines, '\n' ∉ line.toList) (refused : ofLines? lines = .error error) :
    ∃ fault, error = .ofFault (.malformed fault) ∧ fault.PointsInto lines := by
  obtain ⟨refusal, same, t, member, stands⟩ := ofSource?_refusal refused
  refine ⟨_, same, ?_⟩
  apply (Script.faultOf_quotes member stands).pointsInto some plain member
  · exact congrArg Position.line stands.symm
  · exact congrArg Position.column stands.symm

/-- A loop without a body is refused just behind its line, and the line quoted is found although
the text in front of it has more bytes than characters. -/
theorem missing_body_points_behind_line :
    ∃ fault, ofLines? ["s = 'é'", "while True:"] = .error (.ofFault (.malformed fault)) ∧
      fault.line = 2 ∧ fault.column = 12 ∧ fault.PointsInto ["s = 'é'", "while True:"] := by
  have refused : ofLines? ["s = 'é'", "while True:"] = .error (.ofFault (.malformed
      ⟨"expected an indented block", 2, 12, "while True:"⟩)) := by
    decide +kernel
  obtain ⟨fault, same, points⟩ := faults_point_into_lines (by decide) (by decide) refused
  cases same
  exact ⟨_, refused, rfl, rfl, points⟩

end Program

end LessonScript
