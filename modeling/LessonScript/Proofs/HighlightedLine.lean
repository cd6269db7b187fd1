import LessonScript.Editor.Highlight
import Mathlib.Data.List.Basic

/-!
A coloured line shows the line.

A terminal takes a text apart into the characters that it shows and the escape sequences between
them (`parts`).  A segment of a line is shown character by character, with one sequence before it
and one behind it if it has a style (`parts_shown`), and the segments of a line make up the line.
So without its sequences a coloured line is the line, and its sequences are a start and the reset
in turn, one pair for each style (`coloured_shows_line`).
-/

namespace LessonScript.Highlight

/-- The character that begins an escape sequence. -/
def escape : Char :=
  '\x1b'

/-- The rest of an escape sequence, up to its last character `m`, and the text behind it.  A
sequence without an end is the whole text. -/
def cutEscape : List Char → List Char × List Char
  | [] => ([], [])
  | c :: cs =>
    if c = 'm' then ([c], cs)
    else
      let (part, rest) := cutEscape cs
      (c :: part, rest)

theorem length_cutEscape_le (cs : List Char) : (cutEscape cs).2.length ≤ cs.length := by
  fun_induction cutEscape cs with
  | case1 => exact Nat.le_refl _
  | case2 cs => exact Nat.le_succ _
  | case3 c cs _ part rest cut ih =>
      rw [cut] at ih
      exact Nat.le_succ_of_le ih

/-- What a terminal takes from a text at a time. -/
inductive Part where
  | shown (c : Char)
  | escape (sequence : List Char)
  deriving DecidableEq

namespace Part

def shown? : Part → Option Char
  | shown c => some c
  | escape _ => none

def escape? : Part → Option (List Char)
  | shown _ => none
  | escape sequence => some sequence

end Part

def parts : List Char → List Part
  | [] => []
  | c :: cs =>
    if c = escape then .escape (c :: (cutEscape cs).1) :: parts (cutEscape cs).2
    else .shown c :: parts cs
  termination_by cs => cs.length
  decreasing_by
    · exact Nat.lt_succ_of_le (length_cutEscape_le cs)
    · exact Nat.lt_succ_self _

/-- A text without its escape sequences. -/
def withoutEscapes (text : String) : String :=
  String.ofList ((parts text.toList).filterMap Part.shown?)

/-- The escape sequences of a text, in order. -/
def escapes (text : String) : List (List Char) :=
  (parts text.toList).filterMap Part.escape?

def IsEscape (sequence : List Char) : Prop :=
  ∃ front, 'm' ∉ front ∧ sequence = escape :: (front ++ ['m'])

theorem cutEscape_append {front : List Char} (inside : 'm' ∉ front) (rest : List Char) :
    cutEscape (front ++ 'm' :: rest) = (front ++ ['m'], rest) := by
  induction front with
  | nil => rfl
  | cons c front ih =>
      have other : c ≠ 'm' := (List.ne_of_not_mem_cons inside).symm
      have behind := ih (List.not_mem_of_not_mem_cons inside)
      rw [List.cons_append, cutEscape, if_neg other, behind]
      rfl

theorem parts_escape_append {sequence : List Char} (whole : IsEscape sequence)
    (rest : List Char) : parts (sequence ++ rest) = .escape sequence :: parts rest := by
  cases whole with
  | intro front whole =>
      rw [whole.2, List.cons_append, List.append_assoc, List.singleton_append, parts, if_pos rfl,
        cutEscape_append whole.1]

theorem parts_plain_append {text : List Char} (plain : escape ∉ text) (rest : List Char) :
    parts (text ++ rest) = text.map .shown ++ parts rest := by
  induction text with
  | nil => rfl
  | cons c text ih =>
      have other : c ≠ escape := (List.ne_of_not_mem_cons plain).symm
      have behind := ih (List.not_mem_of_not_mem_cons plain)
      rw [List.cons_append, parts, if_neg other, behind]
      rfl

theorem isEscape_reset : IsEscape Style.reset :=
  ⟨"[0".toList, by decide, rfl⟩

theorem isEscape_start (style : Style) : IsEscape style.start := by
  cases style with
  | comment => exact ⟨"[2;3".toList, by decide, rfl⟩
  | string => exact ⟨"[33".toList, by decide, rfl⟩
  | number => exact ⟨"[35".toList, by decide, rfl⟩
  | constant => exact ⟨"[34".toList, by decide, rfl⟩
  | keyword => exact ⟨"[1;32".toList, by decide, rfl⟩
  | builtin => exact ⟨"[36".toList, by decide, rfl⟩
  | paren => exact ⟨"[1".toList, by decide, rfl⟩

theorem start_ne_reset (style : Style) : style.start ≠ Style.reset := by
  cases style <;> decide

def segmentParts (s : Segment) : List Part :=
  match s.style with
  | some style => .escape style.start :: (s.text.map .shown ++ [.escape Style.reset])
  | none => s.text.map .shown

theorem parts_shown {s : Segment} (plain : escape ∉ s.text) (rest : List Char) :
    parts (s.shown ++ rest) = segmentParts s ++ parts rest := by
  unfold Segment.shown segmentParts
  cases s.style with
  | none => exact parts_plain_append plain rest
  | some style =>
      dsimp only
      rw [List.append_assoc, List.append_assoc, parts_escape_append (isEscape_start style),
        parts_plain_append plain, parts_escape_append isEscape_reset, List.cons_append,
        List.append_assoc, List.singleton_append]

theorem parts_flatMap_shown {segments : List Segment}
    (plain : escape ∉ segments.flatMap Segment.text) :
    parts (segments.flatMap Segment.shown) = segments.flatMap segmentParts := by
  induction segments with
  | nil => rw [List.flatMap_nil, List.flatMap_nil, parts]
  | cons s segments ih =>
      rw [List.flatMap_cons, List.mem_append, not_or] at plain
      rw [List.flatMap_cons, List.flatMap_cons, parts_shown plain.1, ih plain.2]

theorem filterMap_shown?_segmentParts (s : Segment) :
    (segmentParts s).filterMap Part.shown? = s.text := by
  have text : (s.text.map Part.shown).filterMap Part.shown? = s.text := by
    rw [List.filterMap_map]
    exact List.filterMap_some
  unfold segmentParts
  cases s.style with
  | none => exact text
  | some style =>
      dsimp only
      rw [List.filterMap_cons_none rfl, List.filterMap_append, text]
      exact List.append_nil _

theorem filterMap_escape?_segmentParts (s : Segment) :
    (segmentParts s).filterMap Part.escape? =
      s.style.toList.flatMap fun style => [style.start, Style.reset] := by
  have text : (s.text.map Part.shown).filterMap Part.escape? = [] := by
    rw [List.filterMap_eq_nil_iff, List.forall_mem_map]
    exact fun c _ => rfl
  unfold segmentParts
  cases s.style with
  | none => exact text
  | some style =>
      change style.start :: (s.text.map Part.shown ++ [Part.escape Style.reset]).filterMap _ = _
      rw [List.filterMap_append, text]
      rfl

/-- The styles that a line is coloured with, in order. -/
def styles (line : String) : List Style :=
  (segments line.toList).filterMap Segment.style

theorem parts_coloured {line : String} (plain : escape ∉ line.toList) :
    parts (coloured line).toList = (segments line.toList).flatMap segmentParts := by
  rw [← segments_text line.toList] at plain
  rw [coloured, String.toList_ofList, parts_flatMap_shown plain]

/-- Colours only add to a line: a coloured line without its escape sequences is the line, and the
sequences are the start of a style and the reset in turn. -/
theorem coloured_shows_line {line : String} (plain : escape ∉ line.toList) :
    withoutEscapes (coloured line) = line ∧
      escapes (coloured line) =
        (styles line).flatMap (fun style => [style.start, Style.reset]) ∧
      ∀ style : Style, style.start ≠ Style.reset := by
  unfold withoutEscapes escapes
  rw [parts_coloured plain]
  constructor
  · rw [List.filterMap_flatMap]
    simp only [filterMap_shown?_segmentParts]
    rw [segments_text, String.ofList_toList]
  constructor
  · rw [List.filterMap_flatMap, styles, List.filterMap_eq_flatMap_toList, List.flatMap_assoc]
    simp only [filterMap_escape?_segmentParts]
  · exact start_ne_reset

/-- A text that never ends, because its last quote stands behind a backslash. -/
theorem open_text_shows_line :
    escape ∉ "if 1e3m(print) == 'm#\\'".toList ∧
      withoutEscapes (coloured "if 1e3m(print) == 'm#\\'") = "if 1e3m(print) == 'm#\\'" := by
  have plain : escape ∉ "if 1e3m(print) == 'm#\\'".toList := by decide
  exact ⟨plain, (coloured_shows_line plain).1⟩

end LessonScript.Highlight
