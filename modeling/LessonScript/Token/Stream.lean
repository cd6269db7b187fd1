import LessonScript.Token.Lexer

/-!
Tokens handed out one at a time.

A step of the lexer may find several tokens at once, so a stream keeps those that still wait.
Behind the end of the input a stream goes on with the end of the input.
-/

namespace LessonScript

structure TokenStream where
  waiting : List Token
  lexer : Lexer

namespace TokenStream

def ofSource (source : String) : TokenStream :=
  ⟨[], .start source.toList⟩

def next (s : TokenStream) : Token × TokenStream :=
  match s with
  | ⟨token :: waiting, lexer⟩ => (token, ⟨waiting, lexer⟩)
  | ⟨[], lexer⟩ =>
    match _hStep : lexer.step with
    | .more found onward => next ⟨found, onward⟩
    | .closed found final =>
      (found.headD (.mark .endOfInput final.position), ⟨found.tail, final⟩)
  termination_by s.lexer.measure
  decreasing_by exact Lexer.step_measure ‹_›

def nth : Nat → TokenStream → Token
  | 0, s => s.next.1
  | n + 1, s => nth n s.next.2

end TokenStream

end LessonScript
