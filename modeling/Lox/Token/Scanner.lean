import Lox.Token.Lexer

/-!
# Scanners

A scanner hands out the items of a source one at a time, when it is asked for the next one. It has
nothing more to give after the end of the input.
-/
namespace Lox.Lexer

/-- A scanner in the middle of a source. -/
structure Scanner where
  /-- What is left of the source, nothing once the end of the input has been handed out. -/
  rest : Option (List Char)
  line : Nat
  deriving Repr

theorem length_drop_lt (c : Char) (cs : List Char) (n : Nat) :
    (cs.drop n).length < (c :: cs).length :=
  Nat.lt_succ_of_le (List.drop_sublist n cs).length_le

namespace Scanner

def ofSource (source : String) : Scanner := ⟨some source.toList, 1⟩

/-- The next item, and the scanner behind it. White space and comments are passed over. -/
def scan (line : Nat) : List Char → Item × Scanner
  | [] => (.ok (.endOfInput line), ⟨none, line⟩)
  | c :: cs =>
    let piece := next c cs
    let line := line + piece.span.count '\n'
    let rest := cs.drop (piece.span.length - 1)
    match piece.item? line with
    | some item => (item, ⟨some rest, line⟩)
    | none => scan line rest
termination_by cs => cs.length
decreasing_by exact length_drop_lt ..

/-- What the scanner is asked for, if there is anything left. -/
def next? (scanner : Scanner) : Option Item × Scanner :=
  match scanner.rest with
  | none => (none, scanner)
  | some rest => ((scan scanner.line rest).1, (scan scanner.line rest).2)

/-- The answer after `n` others. -/
def answer (scanner : Scanner) : (n : Nat) → Option Item
  | 0 => scanner.next?.1
  | n + 1 => scanner.next?.2.answer n

end Scanner
end Lox.Lexer
