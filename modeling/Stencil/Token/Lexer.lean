import Stencil.Number.Numeral
import Stencil.Template.Error
import Stencil.Text.Blank
/-!
# The division into tokens

A template is divided line by line. Control characters are dropped and the ends of each line
trimmed; blank lines leave nothing. Texts between two equal quotes become string tokens, the
words in between are divided by the vocabulary. A line that is not blank ends in a newline token,
and the whole in a stop token.
-/

namespace Stencil

namespace Lexer

/-- Control characters that are dropped wherever they stand. -/
def isControl (c : Char) : Bool :=
  c == '\r' || c == '\t' || c == '\x08' || c == '\x0c'

/-- The two quotes. -/
def isQuote (c : Char) : Bool :=
  c == '"' || c == '\''

/-- A line without control characters and without blanks at its ends. -/
def clean (line : List Char) : List Char :=
  Text.trim (line.filter fun c => !isControl c)

/-! ## Strings -/

/-- A part of a line, outside or inside quotes. -/
inductive Chunk
  | plain (text : List Char)
  | quoted (text : List Char)
  deriving DecidableEq

theorem length_dropWhile_le (p : Char → Bool) (cs : List Char) :
    (cs.dropWhile p).length ≤ cs.length :=
  (List.dropWhile_suffix p).length_le

/-- The parts of a line in order, starting outside quotes; a quote that is not closed is the
error. -/
def chunks (cs : List Char) : Except Char (List Chunk) :=
  let plain := Chunk.plain (cs.takeWhile fun c => !isQuote c)
  match _h : cs.dropWhile fun c => !isQuote c with
  | [] => .ok [plain]
  | quote :: rest =>
    let quoted := Chunk.quoted (rest.takeWhile fun c => c != quote)
    match _h' : rest.dropWhile fun c => c != quote with
    | [] => .error quote
    | _ :: after => (chunks after).map fun more => plain :: quoted :: more
termination_by cs.length
decreasing_by
  have h1 := length_dropWhile_le (fun c => !isQuote c) cs
  have h2 := length_dropWhile_le (fun c => c != quote) rest
  simp only [_h, _h', List.length_cons] at h1 h2
  omega

/-! ## Words -/

/-- A piece of a line before it becomes a token. -/
abbrev Lexeme := TokenKind × List Char

/-- Whether a word consists of digits and points and starts with a number. -/
def isNumeral (cs : List Char) : Bool :=
  !cs.isEmpty && cs.all (fun c => c.isDigit || c == '.') && (Number.ofText? cs).isSome

/-- Whether `c` is no word by itself. -/
def isInner (v : Vocabulary) (c : Char) : Bool :=
  (v.charKind? c).isNone

/-- Divides a word. A word of the vocabulary and a numeral stay whole. From any other the last
character is cut off if it is a word, else the first one if it is, else the literal before the
first character that is; without such a character it is a literal. -/
def word (v : Vocabulary) (cs : List Char) : List Lexeme :=
  match cs with
  | [] => []
  | c :: rest =>
    match v.kind? (String.ofList (c :: rest)) with
    | some kind => [(kind, c :: rest)]
    | none =>
      if isNumeral (c :: rest) then [(.number, c :: rest)]
      else
        let last := (c :: rest).getLast (by simp)
        match v.charKind? last with
        | some kind => word v (c :: rest).dropLast ++ [(kind, [last])]
        | none =>
          match v.charKind? c with
          | some kind => (kind, [c]) :: word v rest
          | none =>
            match _h : rest.dropWhile (isInner v) with
            | [] => [(.literal, c :: rest)]
            | d :: after =>
              (.literal, c :: rest.takeWhile (isInner v)) ::
                ((v.charKind? d).getD .literal, [d]) :: word v after
termination_by cs.length
decreasing_by
  all_goals simp only [List.length_dropLast, List.length_cons]
  · omega
  · omega
  · have h1 := length_dropWhile_le (isInner v) rest
    simp only [_h, List.length_cons] at h1
    omega

/-- The words of a text, cut at blanks. -/
def words (cs : List Char) : List (List Char) :=
  (cs.splitOn ' ').filter fun w => !w.isEmpty

/-- The lexemes of a part of a line. -/
def Chunk.lexemes (v : Vocabulary) : Chunk → List Lexeme
  | .plain text => (words text).flatMap (word v)
  | .quoted text => [(.string, text)]

/-! ## Lines -/

/-- The token of a lexeme in a line. -/
def tokenAt (line : Nat) (l : Lexeme) : Token :=
  ⟨l.1, String.ofList l.2, line⟩

/-- The tokens of one line; none if it is blank. -/
def line (v : Vocabulary) (number : Nat) (text : List Char) : Except SyntaxError (List Token) :=
  let text := clean text
  if text.isEmpty then .ok []
  else match chunks text with
    | .error quote => .error ⟨number, .unclosedString quote⟩
    | .ok cs =>
      .ok ((cs.flatMap (Chunk.lexemes v)).map (tokenAt number) ++ [⟨.newline, "\n", number⟩])

/-- The tokens of lines that are counted from `number` on. -/
def lines (v : Vocabulary) : Nat → List (List Char) → Except SyntaxError (List Token)
  | _, [] => .ok []
  | number, l :: ls =>
    match line v number l with
    | .error e => .error e
    | .ok here => (lines v (number + 1) ls).map fun rest => here ++ rest

/-- The tokens without a stop, closed by one in the line of the last token. -/
def close (first : Nat) (tokens : List Token) : List Token :=
  tokens ++ [⟨.stop, "(end)", (tokens.getLast?.map Token.line).getD first⟩]

/-- The tokens of a text whose first line has the number `first`. -/
def tokenizeFrom (v : Vocabulary) (source : String) (first : Nat) :
    Except SyntaxError (List Token) :=
  (lines v first (source.toList.splitOn '\n')).map (close first)

/-- The tokens of a template. -/
def tokenize (v : Vocabulary) (source : String) : Except SyntaxError (List Token) :=
  tokenizeFrom v source 1

end Lexer

end Stencil
