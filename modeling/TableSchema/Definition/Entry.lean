import TableSchema.Definition.Problem
import TableSchema.Token.Scanner

/-!
The entries of a definition file.

An entry is what stands between two ends of lines: its tokens, and how it ended. A comment that goes
over several lines does not end the entry in which it stands. Each token is kept together with the
line on which the scanner stood after it, because a message shows that line.
-/

namespace TableSchema.Definition

/-- A token, and the line on which it ended. -/
structure Seen where
  token : Token
  line : List Char
deriving DecidableEq, Repr

namespace Seen

/-- The place of `token` when `s` is the last token that was read. -/
def placeOf (s : Seen) (token : Token) : Place := ⟨token.row, token.col + 1, String.ofList s.line⟩

/-- The refusal of `token` when `s` is the last token that was read. -/
def refuse (s : Seen) (token : Token) (problem : Problem) : Refusal :=
  .grammar problem (s.placeOf token)

/-- The refusal of the last token that was read. -/
def reject (s : Seen) (problem : Problem) : Refusal := s.refuse s.token problem

end Seen

/-- How an entry ended. -/
inductive Ending where
  | newLine (mark : Seen)
  | flaw (mark : Seen)
  | unreadable
deriving DecidableEq, Repr

/-- The tokens of a line, and how it ended. -/
structure Entry where
  tokens : List Seen
  ending : Ending
deriving DecidableEq, Repr

/-- The end of a line, if nothing went wrong before it. -/
def Ending.newLine? : Ending → Except Refusal Seen
  | newLine mark => .ok mark
  | flaw mark => .error (.lexical mark.token.text (mark.placeOf mark.token))
  | unreadable => .error (.unreadable .notText)

namespace Entry

/-- The next token of an entry and the tokens after it. The end of the line stays the next token
however often it is read. -/
def next (e : Entry) : Except Refusal (Seen × Entry) :=
  match e.tokens with
  | [] => do
    let mark ← e.ending.newLine?
    return (mark, e)
  | seen :: rest => .ok (seen, { e with tokens := rest })

/-- The entries of a sequence of events. An input that stopped within a line would end it there. -/
def ofEvents : List Event → List Entry
  | [] => []
  | ⟨.unreadable, _, _⟩ :: events => ⟨[], .unreadable⟩ :: ofEvents events
  | ⟨.token token, row, line⟩ :: events =>
    match token.kind with
    | .newLine => ⟨[], .newLine ⟨token, line⟩⟩ :: ofEvents events
    | .flaw => ⟨[], .flaw ⟨token, line⟩⟩ :: ofEvents events
    | _ =>
      match ofEvents events with
      | [] => [⟨[⟨token, line⟩], .newLine ⟨.lineEnd row line.length, line⟩⟩]
      | entry :: entries =>
        { entry with tokens := ⟨token, line⟩ :: entry.tokens } :: entries

end Entry

end TableSchema.Definition
