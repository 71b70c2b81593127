import DeployGate.Ocl.Scan
import DeployGate.Text.Quoted

/-!
# Tokens

The tokens of a document are its lexemes without space and comments, each with the
number of the line it starts on.  The end of the document has a line of its own.

Main results:

- `tokens_eq_ok_iff` says that a document has tokens exactly if its scan reaches
  the end.
-/

namespace DeployGate

namespace Ocl

/-! ## Tokens -/

/-- What a token stands for in the grammar, with its text. -/
inductive Symbol where
  | newline
  | string (text : Text)
  | heredoc (text : Text)
  | number (text : Text)
  | name (text : Text)
  | mark (m : Mark)
  deriving DecidableEq, Repr

namespace Symbol

/-- The name of the kind of a symbol; a mark is its own kind. -/
def kind : Symbol → Text
  | .newline => "newline".toList
  | .string _ => "string".toList
  | .heredoc _ => "heredoc".toList
  | .number _ => "number".toList
  | .name _ => "name".toList
  | .mark m => [m.char]

/-- The text of a symbol. -/
def text : Symbol → Text
  | .newline => ['\n']
  | .string t => t
  | .heredoc t => t
  | .number t => t
  | .name t => t
  | .mark m => [m.char]

/-- The name of the kind of the end of a document. -/
def endKind : Text := "eof".toList

/-- How messages call a symbol: by its text, or by its kind if that is empty. -/
def description (s : Symbol) : Text :=
  if s.text.isEmpty then s.kind else s.text

end Symbol

/-- A symbol and the line it starts on, counted from one. -/
structure Token where
  symbol : Symbol
  line : Int
  deriving DecidableEq, Repr

/-- The tokens of a document and the line of its end. -/
structure TokenList where
  tokens : List Token
  endLine : Int
  deriving DecidableEq, Repr

/-! ## Faults -/

/-- Why a text is no document. -/
inductive Cause where
  | unexpectedCharacter (c : Char)
  | unterminatedHeredoc (marker : Text)
  /-- The end of the text inside braces. -/
  | unexpectedEnd
  /-- A closing brace that nothing opened. -/
  | unexpectedClose
  /-- Another kind of token is wanted. -/
  | kindExpected (kind found : Text)
  | nameExpected (found : Text)
  /-- A dictionary entry has no separator behind its name. -/
  | separatorExpected (name : Text)
  | valueExpected (found : Text)
  | commaExpected (found : Text)
  /-- A statement goes on where it should be over. -/
  | lineEndExpected (found : Text)
  deriving DecidableEq, Repr

/-- The wording of a cause. -/
def Cause.message : Cause → Text
  | .unexpectedCharacter c => "unexpected character ".toList ++ Text.quoted [c]
  | .unterminatedHeredoc marker => "unterminated heredoc, expected closing ".toList ++ marker
  | .unexpectedEnd => "unexpected end of input, expected '\x7d'".toList
  | .unexpectedClose => "unexpected '\x7d'".toList
  | .kindExpected kind found => "expected ".toList ++ kind.quoted ++ ", found ".toList ++
      found.quoted
  | .nameExpected found => "expected a name, found ".toList ++ found.quoted
  | .separatorExpected name => "expected '=' after ".toList ++ name.quoted
  | .valueExpected found => "expected a value, found ".toList ++ found.quoted
  | .commaExpected found => "expected ',' or ']', found ".toList ++ found.quoted
  | .lineEndExpected found => "expected end of line, found ".toList ++ found.quoted

/-- A cause and the line of the document it lies on. -/
structure Error where
  line : Int
  cause : Cause
  deriving DecidableEq, Repr

/-- The wording of an error. -/
def Error.message (e : Error) : Text :=
  "line ".toList ++ Text.ofInt e.line ++ ": ".toList ++ e.cause.message

/-! ## From lexemes to tokens -/

/-- The symbol of a lexeme; space and comments have none. -/
def Lexeme.symbol? : Lexeme → Option Symbol
  | .lineEnd _ => some .newline
  | .space _ => none
  | .comment _ => none
  | .heredoc indented _ _ body _ => some (.heredoc (Heredoc.value indented body))
  | .string t => some (.string t)
  | .number t => some (.number t)
  | .name t => some (.name t)
  | .mark m => some (.mark m)

/-- The cause that a fault of a scan is reported as. -/
def Lexeme.Fault.cause : Lexeme.Fault → Cause
  | .unexpected c => .unexpectedCharacter c
  | .unterminated marker => .unterminatedHeredoc marker

/-- How many lines the count of lines goes forward behind a lexeme: one behind a line
end; behind a heredoc one for each line feed of its opener, and of its body as it is
without the margin.  Other lexemes and the closing line of a heredoc count for none. -/
def Lexeme.linesPassed : Lexeme → Nat
  | .lineEnd _ => 1
  | .heredoc indented opener _ body _ =>
    opener.lineFeeds + (if indented then Text.withoutMargin body else body).lineFeeds
  | _ => 0

/-- The tokens of lexemes that start on the given line. -/
def tokensFrom (line : Int) : List Lexeme → TokenList
  | [] => ⟨[], line⟩
  | l :: ls =>
    let rest := tokensFrom (line + l.linesPassed) ls
    match l.symbol? with
    | some s => { rest with tokens := ⟨s, line⟩ :: rest.tokens }
    | none => rest

/-- The tokens of a text, or the place where no lexeme can be read. -/
def tokens (t : Text) : Except Error TokenList :=
  let s := Scan.of t
  let ts := tokensFrom 1 s.lexemes
  match s.fault with
  | none => .ok ts
  | some f => .error ⟨ts.endLine, f.cause⟩

/-- The body of a heredoc that starts at an index of a text, and the offset behind its
closing line.  Where nothing closes the heredoc, the line of its opener is blamed. -/
def Heredoc.bodyFrom (text : Text) (index : Int) (marker : Text) (line : Int) :
    Except Error (Text × Nat) :=
  match Heredoc.bodyFrom? text index marker with
  | some found => .ok found
  | none => .error ⟨line, .unterminatedHeredoc marker⟩

/-- A text has tokens exactly if its scan reaches the end. -/
theorem tokens_eq_ok_iff {t : Text} {ts : TokenList} :
    tokens t = .ok ts ↔ (Scan.of t).fault = none ∧ tokensFrom 1 (Scan.of t).lexemes = ts := by
  simp only [tokens]
  split <;> simp_all

end Ocl

end DeployGate
