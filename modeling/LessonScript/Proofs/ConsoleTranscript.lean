import LessonScript.Editor.Console
import LessonScript.Proofs.HostCalls
import LessonScript.Proofs.TextBytes
import Mathlib.Data.List.DropRight

/-!
The transcript and the input of a console.

`Host.serve` makes a list of calls of a host, one after the other.  On a console that reads a
text, what is written is what the calls say in their order, and the requests for input take the
lines of the text, one a request (`Console.serve_text`).  A console without input answers no
request and leaves its stream alone.

The text reaches the console as bytes: cutting the bytes of a text behind every byte 10 is
cutting the text behind every line feed, since no other character has that byte in its code
(`RawLines.ofBytes_encode`).
-/

namespace LessonScript

/-- Makes calls of a host: the answers to the requests for input, and the state behind them. -/
def Host.serve {σ : Type} (host : Host σ) : σ → List HostCall →
    List (Except Fault String) × σ
  | world, [] => ([], world)
  | world, .print message :: calls => host.serve (host.print world message) calls
  | world, .input prompt :: calls =>
    let (answer, after) := host.input world prompt
    let (answers, final) := host.serve after calls
    (answer :: answers, final)

namespace HostCall

/-- What a call says on a console. -/
def spoken : HostCall → String
  | print message => "BIT: " ++ message ++ "\n"
  | input prompt => prompt

end HostCall

/-- The lines of a text without their line feeds; what is behind the last line feed is a line
unless it is empty. -/
def typedLines (cs : List Char) : List (List Char) :=
  let pieces := cs.splitOn '\n'
  if pieces.getLast? = some [] then pieces.dropLast else pieces

theorem typedLines_nil : typedLines [] = [] := by
  simp [typedLines]

theorem typedLines_lineFeed (cs : List Char) :
    typedLines ('\n' :: cs) = [] :: typedLines cs := by
  obtain ⟨piece, pieces, cut⟩ := List.exists_cons_of_ne_nil (List.splitOn_ne_nil '\n' cs)
  have cut' : ('\n' :: cs).splitOn '\n' = [] :: piece :: pieces := by
    rw [List.splitOn_cons_eq_if_modifyHead, cut]
    rfl
  simp only [typedLines, cut, cut', List.getLast?_cons_cons, List.dropLast_cons_cons]
  split <;> rfl

/-- A character in front of a text belongs to the first line, and is one if there was none. -/
theorem typedLines_cons {c : Char} (c_ne : c ≠ '\n') (cs : List Char) :
    typedLines (c :: cs) =
      match typedLines cs with
      | [] => [[c]]
      | line :: rest => (c :: line) :: rest := by
  obtain ⟨piece, pieces, cut⟩ := List.exists_cons_of_ne_nil (List.splitOn_ne_nil '\n' cs)
  have cut' : (c :: cs).splitOn '\n' = (c :: piece) :: pieces := by
    rw [List.splitOn_cons_eq_if_modifyHead, cut]
    simp [c_ne]
  simp only [typedLines, cut, cut']
  cases pieces with
  | nil => by_cases blank : piece = [] <;> simp [blank]
  | cons next pieces =>
      simp only [List.getLast?_cons_cons, List.dropLast_cons_cons]
      split <;> rfl

theorem RawLines.text?_encode (cs : List Char) :
    RawLines.text? (encode cs) = some (String.ofList cs) := by
  have bytes : (⟨(encode cs).toArray⟩ : ByteArray) = (String.ofList cs).toByteArray := by
    rw [String.toByteArray_ofList, List.utf8Encode, ← List.data_toByteArray]
    rfl
  rw [RawLines.text?, bytes, String.fromUTF8?, dif_pos (String.ofList cs).isValidUTF8]
  rfl

theorem lineFeed_notMem_utf8EncodeChar {c : Char} (c_ne : c ≠ '\n') :
    10 ∉ String.utf8EncodeChar c := by
  have value : c.val.toNat ≠ 10 := fun same =>
    c_ne (Char.ext (UInt32.toNat_inj.mp same))
  simp only [String.utf8EncodeChar]
  split_ifs <;> simp only [List.mem_cons, List.not_mem_nil, or_false, not_or, ← UInt8.toNat_inj,
    UInt8.toNat_ofNat', UInt8.toNat_ofNat] <;> omega

theorem RawLines.ofBytes_append {bytes : List UInt8} (bytes_ne : bytes ≠ [])
    (plain : 10 ∉ bytes) (more : List UInt8) :
    RawLines.ofBytes (bytes ++ more) =
      match RawLines.ofBytes more with
      | [] => [bytes]
      | line :: rest => (bytes ++ line) :: rest := by
  induction bytes with
  | nil => exact absurd rfl bytes_ne
  | cons byte bytes ih =>
      rw [List.mem_cons, not_or] at plain
      have step : RawLines.ofBytes ((byte :: bytes) ++ more) =
          match RawLines.ofBytes (bytes ++ more) with
          | [] => [[byte]]
          | line :: rest => (byte :: line) :: rest := if_neg (Ne.symm plain.1)
      rw [step]
      by_cases last : bytes = []
      · subst last
        rw [List.nil_append]
        cases RawLines.ofBytes more <;> rfl
      · rw [ih last plain.2]
        cases RawLines.ofBytes more <;> rfl

def RawLines.Encodes (raws : RawLines) (lines : List (List Char)) : Prop :=
  List.Forall₂ (fun raw line => raw = encode line ∨ raw = encode (line ++ ['\n'])) raws lines

theorem RawLines.Encodes.tail {raws : RawLines} {lines : List (List Char)}
    (reads : raws.Encodes lines) : RawLines.Encodes raws.tail lines.tail := by
  cases reads with
  | nil => exact .nil
  | cons _ rest => exact rest

theorem RawLines.ofBytes_encode (cs : List Char) :
    (RawLines.ofBytes (encode cs)).Encodes (typedLines cs) := by
  induction cs with
  | nil =>
      rw [typedLines_nil]
      exact .nil
  | cons c cs ih =>
      by_cases feed : c = '\n'
      · subst feed
        rw [typedLines_lineFeed]
        exact .cons (.inr rfl) ih
      · rw [typedLines_cons feed, encode_cons, RawLines.ofBytes_append
          String.utf8EncodeChar_ne_nil (lineFeed_notMem_utf8EncodeChar feed)]
        generalize RawLines.ofBytes (encode cs) = raws, typedLines cs = lines at ih
        cases ih with
        | nil => exact .cons (.inl (List.append_nil _).symm) .nil
        | cons same rest =>
            refine .cons (same.imp ?_ ?_) rest <;> rintro rfl <;> rfl

def withoutLineEnd (line : List Char) : String :=
  String.ofList (line.rdropWhile fun c => c == '\n' || c == '\r')

/-- The answer to the request for input with this number, counted from zero. -/
def lineAnswer (lines : List (List Char)) (index : Nat) : Except Fault String :=
  match lines[index]? with
  | some line => .ok (withoutLineEnd line)
  | none => .error (Console.inputFault "end of input")

/-- The number of requests for input among calls. -/
def inputRequests (calls : List HostCall) : Nat :=
  calls.countP (·.builtin = .input)

theorem withoutLineEnd_lineFeed (line : List Char) :
    withoutLineEnd (line ++ ['\n']) = withoutLineEnd line := by
  rw [withoutLineEnd, List.rdropWhile_concat_pos _ _ _ rfl]
  rfl

theorem lineAnswer_tail (lines : List (List Char)) (index : Nat) :
    lineAnswer lines.tail index = lineAnswer lines (index + 1) := by
  rw [lineAnswer, lineAnswer, List.getElem?_tail]

namespace Console

/-- The console with input disabled. -/
def withoutInput (c : Console) : Console :=
  { c with inputEnabled := false }

theorem takeLine_encoded {raw : List UInt8} {line : List Char}
    (encoded : raw = encode line ∨ raw = encode (line ++ ['\n'])) (rest : RawLines)
    (written : String) :
    takeLine ⟨raw :: rest, written, true, none⟩ =
      (.ok (withoutLineEnd line), ⟨rest, written, true, none⟩) := by
  have trimmed (text : List Char) : trimLineEnd (String.ofList text) = withoutLineEnd text := by
    rw [trimLineEnd, String.toList_ofList]
    rfl
  obtain rfl | rfl := encoded
  · simp only [takeLine, RawLines.text?_encode, trimmed]
  · simp only [takeLine, RawLines.text?_encode, trimmed, withoutLineEnd_lineFeed]

theorem host_input {raws : RawLines} {lines : List (List Char)} (reads : raws.Encodes lines)
    (written prompt : String) :
    host.input ⟨raws, written, true, none⟩ prompt =
      (lineAnswer lines 0, ⟨raws.tail, written ++ prompt, true, none⟩) := by
  have asked : host.input ⟨raws, written, true, none⟩ prompt =
      takeLine ⟨raws, written ++ prompt, true, none⟩ := rfl
  rw [asked]
  cases reads with
  | nil => rfl
  | cons encoded _ => exact takeLine_encoded encoded _ _

theorem serve_enabled {raws : RawLines} {lines : List (List Char)} (reads : raws.Encodes lines)
    (written : String) (calls : List HostCall) :
    host.serve ⟨raws, written, true, none⟩ calls =
      ((List.range (inputRequests calls)).map (lineAnswer lines),
        ⟨raws.drop (inputRequests calls), written ++ String.join (calls.map HostCall.spoken),
          true, none⟩) := by
  induction calls generalizing raws lines written with
  | nil => simp [Host.serve, inputRequests]
  | cons call calls ih =>
      cases call with
      | print message =>
          have said : host.print ⟨raws, written, true, none⟩ message =
              ⟨raws, written ++ (HostCall.print message).spoken, true, none⟩ := rfl
          rw [Host.serve, said, ih reads]
          simp [inputRequests, HostCall.builtin, String.join_cons, String.append_assoc]
      | input prompt =>
          rw [Host.serve, host_input reads]
          dsimp only
          rw [ih reads.tail]
          simp [inputRequests, HostCall.builtin, HostCall.spoken, String.join_cons,
            String.append_assoc, List.range_succ_eq_map, lineAnswer_tail]

/-- Without input, a request neither writes nor takes anything. -/
theorem serve_disabled (raws : RawLines) (written : String) (calls : List HostCall) :
    host.serve ⟨raws, written, false, none⟩ calls =
      (List.replicate (inputRequests calls) (.error inputUnavailable),
        ⟨raws,
          written ++ String.join ((calls.filter (·.builtin = .print)).map HostCall.spoken),
          false, none⟩) := by
  induction calls generalizing written with
  | nil => simp [Host.serve, inputRequests]
  | cons call calls ih =>
      cases call with
      | print message =>
          have said : host.print ⟨raws, written, false, none⟩ message =
              ⟨raws, written ++ (HostCall.print message).spoken, false, none⟩ := rfl
          rw [Host.serve, said, ih]
          simp [inputRequests, HostCall.builtin, String.join_cons, String.append_assoc]
      | input prompt =>
          have refused : host.input ⟨raws, written, false, none⟩ prompt =
              (.error inputUnavailable, ⟨raws, written, false, none⟩) := rfl
          rw [Host.serve, refused]
          dsimp only
          rw [ih]
          simp [inputRequests, HostCall.builtin, List.replicate_succ]

/-- A console over a text keeps its transcript and its input in step with the calls.

What is written is what the calls say, in their order and whether or not a request is answered.
The requests are answered with the lines of the text, one after the other and without their line
ends, and with the end of the input behind the last line.  With input disabled every request
fails, and it neither writes nor takes anything. -/
theorem serve_text (text : String) (calls : List HostCall) :
    let console := Console.ofBytes text.toUTF8.data.toList
    let served := host.serve console calls
    (served.2.written = String.join (calls.map HostCall.spoken) ∧
      served.1 =
        (List.range (inputRequests calls)).map (lineAnswer (typedLines text.toList))) ∧
    host.serve console.withoutInput calls =
      (List.replicate (inputRequests calls) (.error inputUnavailable),
        { console.withoutInput with
          written := String.join ((calls.filter (·.builtin = .print)).map HostCall.spoken) }) := by
  have bytes : Console.ofBytes text.toUTF8.data.toList =
      ⟨RawLines.ofBytes (encode text.toList), "", true, none⟩ := by
    rw [String.toUTF8_eq_toByteArray, toByteArray_toList]
    rfl
  simp only [bytes, withoutInput, serve_enabled (RawLines.ofBytes_encode text.toList),
    serve_disabled, String.empty_append, and_self]

example : (host.serve (.ofBytes "Rex\r\n\nFido".toUTF8.data.toList)
    [.input "a", .print "b", .input "c", .input "d", .input "e"]).1 =
      [.ok "Rex", .ok "", .ok "Fido", .error (inputFault "end of input")] := by
  decide

end Console

end LessonScript
