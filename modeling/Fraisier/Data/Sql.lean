import Mathlib.Data.List.DropRight
import Fraisier.Data.Text
import Fraisier.Data.Transducer

/-!
# The tokens of a statement

How PostgreSQL cuts a statement into tokens while `standard_conforming_strings` is on: a quote in
a string is doubled and a backslash stands for itself, a string goes on behind a newline and
another quote, comments nest if they have two ends, and an operator ends where a comment begins.
Literals with a prefix, numbers that are not whole, `$` and names that would be cut are not read.
-/

namespace Fraisier.Data.Sql

/-- A token: a key word or a name in lower case, a name in quotes, a string by its value, a whole
number, or an operator. -/
inductive Token where
  | word (text : List Char)
  | name (text : List Char)
  | string (value : List Char)
  | number (digits : List Char)
  | operator (text : List Char)
deriving DecidableEq

/-- Why a statement is not read. -/
inductive Fault where
  | unterminated
  | emptyName
  | unread
deriving DecidableEq

/-- What the reader is in. A string is closed, but not complete, while it may go on behind a
newline. -/
inductive Mode where
  | plain
  | word (text : List Char)
  | number (digits : List Char)
  | operator (text : List Char)
  | dot
  | colon
  | name (text : List Char)
  | nameQuote (text : List Char)
  | string (value : List Char)
  | stringQuote (value : List Char)
  | closed (value : List Char) (newline : Bool)
  | closedDash (value : List Char) (newline : Bool)
  | closedComment (value : List Char)
  | lineComment
  | comment (depth : Nat)
  | commentSlash (depth : Nat)
  | commentStar (depth : Nat)
deriving DecidableEq

/-! ## Characters -/

/-- The characters that end a line. -/
def isNewline (c : Char) : Bool :=
  c = '\n' || c = '\r'

/-- The characters that separate tokens. -/
def isSpace (c : Char) : Bool :=
  c = ' ' || (9 ≤ c.toNat && c.toNat ≤ 13)

/-- The characters that a name begins with. -/
def isNameStart (c : Char) : Bool :=
  c.isAlpha || c = '_' || 128 ≤ c.toNat

/-- The characters that a name goes on with. -/
def isNameRest (c : Char) : Bool :=
  isNameStart c || c.isDigit || c = '$'

/-- The characters of operators that may have more than one. -/
def isOperator (c : Char) : Bool :=
  "~!@#^&|\x60?+-*/%<>=".toList.contains c

/-! ## Complete tokens -/

/-- The most bytes of a name. -/
def nameSize : Nat := 63

/-- Whether a name is read as it is. -/
def fits (text : List Char) : Bool :=
  decide ((String.ofList text).utf8ByteSize ≤ nameSize)

/-- The operators that a run of their characters is: a `+` or a `-` at its end is one of its own,
unless a character before it is not of standard SQL. -/
def cutOperator (text : List Char) : List (List Char) :=
  let signs := text.rtakeWhile fun c => c = '+' || c = '-'
  if text.dropLast.any "~!@#^&|\x60?%".toList.contains then [text]
  else if signs.length < text.length then
    text.take (text.length - signs.length) :: signs.map fun c => [c]
  else signs.map fun c => [c]

/-- The tokens that are complete if the one that the reader is in ends. -/
def completed : Mode → Except Fault (List Token)
  | .plain | .lineComment => .ok []
  | .word text => if fits text then .ok [.word (text.map Char.toLower)] else .error .unread
  | .number digits => .ok [.number digits]
  | .operator text =>
      if (cutOperator text).all fits then .ok ((cutOperator text).map .operator)
      else .error .unread
  | .dot => .ok [.operator ['.']]
  | .colon => .ok [.operator [':']]
  | .nameQuote text =>
      if text = [] then .error .emptyName
      else if fits text then .ok [.name text]
      else .error .unread
  | .stringQuote value | .closed value _ | .closedComment value => .ok [.string value]
  | .closedDash value _ => .ok [.string value, .operator ['-']]
  | .name _ | .string _ | .comment _ | .commentSlash _ | .commentStar _ => .error .unterminated

/-! ## Reading -/

/-- What a step gives, behind tokens that are complete. -/
def behind (tokens : Except Fault (List Token)) (result : Except Fault (Mode × List Token)) :
    Except Fault (Mode × List Token) :=
  match tokens, result with
  | .error fault, _ => .error fault
  | _, .error fault => .error fault
  | .ok tokens, .ok (mode, more) => .ok (mode, tokens ++ more)

/-- Read the first character of a token. -/
def stepPlain (c : Char) : Except Fault (Mode × List Token) :=
  if isSpace c then .ok (.plain, [])
  else if isNameStart c then .ok (.word [c], [])
  else if c.isDigit then .ok (.number [c], [])
  else if c = '\'' then .ok (.string [], [])
  else if c = '"' then .ok (.name [], [])
  else if c = '$' then .error .unread
  else if c = '.' then .ok (.dot, [])
  else if c = ':' then .ok (.colon, [])
  else if isOperator c then .ok (.operator [c], [])
  else .ok (.plain, [.operator [c]])

/-- Read a character that does not belong to the token that the reader is in. -/
def ended (mode : Mode) (c : Char) : Except Fault (Mode × List Token) :=
  behind (completed mode) (stepPlain c)

/-- Whether a quote behind a word begins a literal of another kind than a string. -/
def isLiteralPrefix (text : List Char) : Bool :=
  ["b", "e", "n", "x"].contains (String.ofList (text.map Char.toLower))

/-- Read a character behind a word. -/
def stepWord (text : List Char) (c : Char) : Except Fault (Mode × List Token) :=
  if isNameRest c then .ok (.word (text ++ [c]), [])
  else if c = '\'' ∧ isLiteralPrefix text then .error .unread
  else if c = '&' ∧ text.map Char.toLower = ['u'] then .error .unread
  else ended (.word text) c

/-- Read a character behind a run of operator characters; where a comment begins, its first
character is the last of the run. -/
def stepOperator (text : List Char) (c : Char) : Except Fault (Mode × List Token) :=
  if text.getLast? = some '-' ∧ c = '-' then
    behind (completed (.operator text.dropLast)) (.ok (.lineComment, []))
  else if text.getLast? = some '/' ∧ c = '*' then
    behind (completed (.operator text.dropLast)) (.ok (.comment 0, []))
  else if isOperator c then .ok (.operator (text ++ [c]), [])
  else ended (.operator text) c

/-- Read a character behind a string that has ended. -/
def stepClosed (value : List Char) (newline : Bool) (c : Char) :
    Except Fault (Mode × List Token) :=
  if isNewline c then .ok (.closed value true, [])
  else if isSpace c then .ok (.closed value newline, [])
  else if c = '-' then .ok (.closedDash value newline, [])
  else if c = '\'' ∧ newline then .ok (.string value, [])
  else ended (.closed value newline) c

/-- Read a character. -/
def step : Mode → Char → Except Fault (Mode × List Token)
  | .plain, c => stepPlain c
  | .word text, c => stepWord text c
  | .number digits, c =>
      if c.isDigit then .ok (.number (digits ++ [c]), [])
      else if isNameRest c ∨ c = '.' then .error .unread
      else ended (.number digits) c
  | .operator text, c => stepOperator text c
  | .dot, c =>
      if c = '.' then .ok (.plain, [.operator ['.', '.']])
      else if c.isDigit then .error .unread
      else ended .dot c
  | .colon, c =>
      if c = ':' ∨ c = '=' then .ok (.plain, [.operator [':', c]]) else ended .colon c
  | .name text, c => if c = '"' then .ok (.nameQuote text, []) else .ok (.name (text ++ [c]), [])
  | .nameQuote text, c =>
      if c = '"' then .ok (.name (text ++ [c]), []) else ended (.nameQuote text) c
  | .string value, c =>
      if c = '\'' then .ok (.stringQuote value, []) else .ok (.string (value ++ [c]), [])
  | .stringQuote value, c =>
      if c = '\'' then .ok (.string (value ++ [c]), []) else stepClosed value false c
  | .closed value newline, c => stepClosed value newline c
  | .closedDash value newline, c =>
      if c = '-' then .ok (.closedComment value, [])
      else behind (completed (.closed value newline)) (stepOperator ['-'] c)
  | .closedComment value, c =>
      if isNewline c then .ok (.closed value true, []) else .ok (.closedComment value, [])
  | .lineComment, c => if isNewline c then .ok (.plain, []) else .ok (.lineComment, [])
  | .comment depth, c =>
      if c = '/' then .ok (.commentSlash depth, [])
      else if c = '*' then .ok (.commentStar depth, [])
      else .ok (.comment depth, [])
  | .commentSlash depth, c =>
      if c = '/' then .ok (.commentSlash depth, [])
      else if c = '*' then .ok (.comment (depth + 1), [])
      else .ok (.comment depth, [])
  | .commentStar depth, c =>
      if c = '/' then .ok (if depth = 0 then .plain else .comment (depth - 1), [])
      else if c = '*' then .ok (.commentStar depth, [])
      else .ok (.comment depth, [])

/-- The reader of statements. -/
def reader : Transducer Mode Char Token Fault := ⟨step, completed⟩

/-- The tokens of a statement. -/
def lex (statement : String) : Except Fault (List Token) :=
  reader.read .plain (cString statement)

/-! ## Strings and names -/

/-- A value as it is written in a string: each quote is doubled. -/
def double (value : List Char) : List Char :=
  value.flatMap fun c => if c = '\'' then [c, c] else [c]

theorem double_cons (c : Char) (value : List Char) :
    double (c :: value) = (if c = '\'' then [c, c] else [c]) ++ double value :=
  List.flatMap_cons

/-- A doubled value is read as the value. -/
theorem run_double (before value : List Char) :
    reader.run (.string before) (double value) = .ok (.string (before ++ value), []) := by
  induction value generalizing before with
  | nil => rw [List.append_nil]; rfl
  | cons c value ih =>
      have hchar : reader.run (.string before) (if c = '\'' then [c, c] else [c]) =
          .ok (.string (before ++ [c]), []) := by
        split
        next h =>
          subst h
          rfl
        next h =>
          have hstep : reader.step (.string before) c = .ok (.string (before ++ [c]), []) := by
            simp only [reader, step, if_neg h]
          rw [Transducer.run_cons_silent hstep, Transducer.run_nil]
      rw [double_cons, Transducer.run_append hchar (ih (before ++ [c])), List.append_assoc,
        List.singleton_append, List.append_nil]

/-- A string in quotes is read as its value, up to what shows that the string ends there. -/
theorem run_quoted (value : List Char) :
    reader.run .plain ('\'' :: (double value ++ ['\''])) = .ok (.stringQuote value, []) := by
  have hopen : reader.step .plain '\'' = .ok (.string [], []) := rfl
  have hclose : reader.run (.string value) ['\''] = .ok (.stringQuote value, []) := rfl
  rw [Transducer.run_cons_silent hopen, Transducer.run_append (run_double [] value) hclose]
  rfl

/-- What is left of a doubled value that is cut is the doubled start of the value. -/
theorem takeWhile_double {value : List Char} (h : nul ∈ value) (after : List Char) :
    (double value ++ after).takeWhile (· != nul) = double (value.takeWhile (· != nul)) := by
  induction value with
  | nil => cases h
  | cons c value ih =>
      by_cases hc : c = nul
      · subst hc
        rfl
      · have hkept : ∀ d ∈ (if c = '\'' then [c, c] else [c]), (d != nul) = true := by
          intro d hd
          split at hd
          · obtain rfl | rfl := List.mem_pair.mp hd <;> exact bne_iff_ne.mpr hc
          · rw [List.mem_singleton.mp hd]
            exact bne_iff_ne.mpr hc
        have hvalue : nul ∈ value := (List.mem_cons.mp h).resolve_left (Ne.symm hc)
        rw [double_cons, List.append_assoc, List.takeWhile_append_of_pos hkept, ih hvalue,
          List.takeWhile_cons, if_pos (bne_iff_ne.mpr hc), double_cons]

/-- The characters of a name that has no quotes. -/
theorem run_name {text : List Char} (h : '"' ∉ text) (before : List Char) :
    reader.run (.name before) text = .ok (.name (before ++ text), []) := by
  induction text generalizing before with
  | nil => rw [List.append_nil]; rfl
  | cons c text ih =>
      obtain ⟨hc, htext⟩ := List.ne_and_not_mem_of_not_mem_cons h
      have hstep : reader.step (.name before) c = .ok (.name (before ++ [c]), []) := by
        simp only [reader, step, if_neg (Ne.symm hc)]
      rw [Transducer.run_cons_silent hstep, ih htext, List.append_assoc, List.singleton_append]

/-- A name in quotes ends at a quote and a blank. -/
theorem run_nameEnd {text : List Char} (hne : text ≠ []) (hfits : fits text = true) :
    reader.run (.name text) ['"', ' '] = .ok (.plain, [.name text]) := by
  have hquote : reader.step (.name text) '"' = .ok (.nameQuote text, []) := rfl
  have hcompleted : completed (.nameQuote text) = .ok [.name text] := by
    simp only [completed, if_neg hne, if_pos hfits]
  have hblank : reader.step (.nameQuote text) ' ' = .ok (.plain, [.name text]) := by
    have hstep : reader.step (.nameQuote text) ' ' =
        behind (completed (.nameQuote text)) (.ok (.plain, [])) := rfl
    rw [hstep, hcompleted]
    rfl
  rw [Transducer.run_cons_silent hquote, Transducer.run_cons hblank Transducer.run_nil,
    List.append_nil]

end Fraisier.Data.Sql
