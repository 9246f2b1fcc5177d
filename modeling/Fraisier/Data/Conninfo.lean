import Fraisier.Data.Text
import Fraisier.Data.Transducer

/-!
# Connection strings

How libpq reads a connection string of keywords and values: blanks separate the pairs and may
stand on both sides of a `=`; a value ends at a blank unless it stands in single quotes; and a
backslash takes the next character of a value as it is.
-/

namespace Fraisier.Data.Conninfo

/-- What begins a text that libpq reads as a URI. -/
def uriPrefixes : List String := ["postgresql://", "postgres://"]

/-- Whether libpq takes the name of a database for a connection string of pairs. -/
def isPairs (text : String) : Bool :=
  !uriPrefixes.any (fun start => start.toList.isPrefixOf (cString text)) &&
    (cString text).contains '='

/-- The characters that `isspace` of C calls blanks. -/
def isBlank (c : Char) : Bool :=
  c = ' ' || (9 ≤ c.toNat && c.toNat ≤ 13)

/-- What the reader is in: the keyword and the value that it has read of the current pair. -/
inductive Mode where
  | blank
  | keyword (keyword : List Char)
  | gap (keyword : List Char)
  | equals (keyword : List Char)
  | bare (keyword value : List Char)
  | bareEscape (keyword value : List Char)
  | quoted (keyword value : List Char)
  | quotedEscape (keyword value : List Char)
deriving DecidableEq

/-- Why a connection string is refused. -/
inductive Fault where
  | missingEquals (keyword : List Char)
  | unterminatedQuote
deriving DecidableEq

/-- A pair of a keyword and a value. -/
abbrev Pair := List Char × List Char

/-- Read a character of a value that is not in quotes. -/
def stepBare (keyword value : List Char) (c : Char) : Mode × List Pair :=
  if isBlank c then (.blank, [(keyword, value)])
  else if c = '\\' then (.bareEscape keyword value, [])
  else (.bare keyword (value ++ [c]), [])

/-- Read a character. -/
def step : Mode → Char → Except Fault (Mode × List Pair)
  | .blank, c =>
      if isBlank c then .ok (.blank, [])
      else if c = '=' then .ok (.equals [], [])
      else .ok (.keyword [c], [])
  | .keyword keyword, c =>
      if c = '=' then .ok (.equals keyword, [])
      else if isBlank c then .ok (.gap keyword, [])
      else .ok (.keyword (keyword ++ [c]), [])
  | .gap keyword, c =>
      if isBlank c then .ok (.gap keyword, [])
      else if c = '=' then .ok (.equals keyword, [])
      else .error (.missingEquals keyword)
  | .equals keyword, c =>
      if isBlank c then .ok (.equals keyword, [])
      else if c = '\'' then .ok (.quoted keyword [], [])
      else .ok (stepBare keyword [] c)
  | .bare keyword value, c => .ok (stepBare keyword value c)
  | .bareEscape keyword value, c => .ok (.bare keyword (value ++ [c]), [])
  | .quoted keyword value, c =>
      if c = '\\' then .ok (.quotedEscape keyword value, [])
      else if c = '\'' then .ok (.blank, [(keyword, value)])
      else .ok (.quoted keyword (value ++ [c]), [])
  | .quotedEscape keyword value, c => .ok (.quoted keyword (value ++ [c]), [])

/-- The pair that the end of the input completes. -/
def finish : Mode → Except Fault (List Pair)
  | .blank => .ok []
  | .keyword keyword | .gap keyword => .error (.missingEquals keyword)
  | .equals keyword => .ok [(keyword, [])]
  | .bare keyword value | .bareEscape keyword value => .ok [(keyword, value)]
  | .quoted _ _ | .quotedEscape _ _ => .error .unterminatedQuote

/-- The reader of connection strings. -/
def reader : Transducer Mode Char Pair Fault := ⟨step, finish⟩

/-- The pairs of a connection string. -/
def pairs (text : String) : Except Fault (List (String × String)) :=
  (reader.read .blank (cString text)).map
    (·.map fun pair => (String.ofList pair.1, String.ofList pair.2))

/-! ## Values in quotes -/

/-- A value as it is written in quotes: a backslash stands before each quote and backslash. -/
def escape (value : List Char) : List Char :=
  value.flatMap fun c => if c = '\\' ∨ c = '\'' then ['\\', c] else [c]

theorem escape_cons (c : Char) (value : List Char) :
    escape (c :: value) = (if c = '\\' ∨ c = '\'' then ['\\', c] else [c]) ++ escape value :=
  List.flatMap_cons

/-- An escaped value is read as the value. -/
theorem run_escape (keyword value before : List Char) :
    reader.run (.quoted keyword before) (escape value) =
      .ok (.quoted keyword (before ++ value), []) := by
  induction value generalizing before with
  | nil => rw [List.append_nil]; rfl
  | cons c value ih =>
      have hchar : reader.run (.quoted keyword before)
          (if c = '\\' ∨ c = '\'' then ['\\', c] else [c]) =
            .ok (.quoted keyword (before ++ [c]), []) := by
        split
        · rfl
        next h =>
          obtain ⟨hbackslash, hquote⟩ := not_or.mp h
          have hstep : reader.step (.quoted keyword before) c =
              .ok (.quoted keyword (before ++ [c]), []) := by
            simp only [reader, step, if_neg hbackslash, if_neg hquote]
          rw [Transducer.run_cons_silent hstep, Transducer.run_nil]
      rw [escape_cons, Transducer.run_append hchar (ih (before ++ [c])), List.append_assoc,
        List.singleton_append, List.append_nil]

end Fraisier.Data.Conninfo
