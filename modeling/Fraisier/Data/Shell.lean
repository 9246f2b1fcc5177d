import Mathlib.Data.List.Infix

/-!
# The language of a POSIX shell

How a shell cuts its input into words and operators, which quotes and backslashes keep a
character from having a meaning, and which simple commands a list of words is. Where a parameter
or a command would be expanded there is no answer. Reserved words are words like others here.
Read `Shell.State.run_append` first: what is read of a text is read of its parts, one after the
other.
-/

namespace Fraisier.Data.Shell

/-- How a character of a word is quoted: not at all, by double quotes, or so that it has no
meaning. -/
inductive Quoting where
  | bare
  | double
  | full
deriving DecidableEq

/-- A word, by its characters once the quotes are removed. -/
abbrev Word := List (Char × Quoting)

/-- A token of the input: a word or an operator, a newline among them. -/
inductive Token where
  | word (word : Word)
  | operator (text : List Char)
deriving DecidableEq

/-- What the reader is in. -/
inductive Mode where
  | plain
  | escape
  | single
  | double
  | doubleEscape
  | operator (text : List Char)
  | comment
deriving DecidableEq

/-- A reader: what it is in, the word it has begun, and the tokens it has read. -/
structure State where
  mode : Mode
  word : Option Word
  tokens : List Token
deriving DecidableEq

/-- The operators. -/
def operators : List (List Char) :=
  ["&", "|", ";", "<", ">", "(", ")", "&&", "||", ";;", "<<", ">>", "<&", ">&", "<>", "<<-",
    ">|"].map String.toList

namespace State

/-- A character of the current word. -/
def push (s : State) (c : Char) (quoting : Quoting) : State :=
  { s with mode := .plain, word := some (s.word.getD [] ++ [(c, quoting)]) }

/-- Quotes begin, and a word if there is none. -/
def quote (s : State) (mode : Mode) : State :=
  { s with mode := mode, word := some (s.word.getD []) }

/-- The current word ends. -/
def cut (s : State) : State :=
  match s.word with
  | none => s
  | some word => { s with word := none, tokens := s.tokens ++ [.word word] }

/-- An operator. -/
def emit (s : State) (text : List Char) : State :=
  { s with mode := .plain, tokens := s.tokens ++ [.operator text] }

/-- Read a character that no quote and no operator comes before. -/
def stepPlain (s : State) (c : Char) : Option State :=
  if c = '\\' then some { s with mode := .escape }
  else if c = '\'' then some (s.quote .single)
  else if c = '"' then some (s.quote .double)
  else if c = '$' ∨ c = '\x60' then none
  else if c = '\n' then some (s.cut.emit [c])
  else if [c] ∈ operators then some { s.cut with mode := .operator [c] }
  else if c = ' ' ∨ c = '\t' then some s.cut
  else if c = '#' ∧ s.word = none then some { s with mode := .comment }
  else some (s.push c .bare)

/-- Read a character. -/
def step (s : State) (c : Char) : Option State :=
  match s.mode with
  | .plain => s.stepPlain c
  | .escape => if c = '\n' then some { s with mode := .plain } else some (s.push c .full)
  | .single =>
      if c = '\'' then some { s with mode := .plain }
      else some { s.push c .full with mode := .single }
  | .double =>
      if c = '"' then some { s with mode := .plain }
      else if c = '\\' then some { s with mode := .doubleEscape }
      else if c = '$' ∨ c = '\x60' then none
      else some { s.push c .double with mode := .double }
  | .doubleEscape =>
      if c = '$' ∨ c = '\x60' ∨ c = '"' ∨ c = '\\' then
        some { s.push c .full with mode := .double }
      else if c = '\n' then some { s with mode := .double }
      else some { (s.push '\\' .double).push c .double with mode := .double }
  | .operator text =>
      if text ++ [c] ∈ operators then some { s with mode := .operator (text ++ [c]) }
      else (s.emit text).stepPlain c
  | .comment => if c = '\n' then some (s.emit [c]) else some s

/-- Read a text. -/
def run (s : State) (text : List Char) : Option State :=
  text.foldlM step s

/-- The tokens at the end of the input, unless it ends in quotes. -/
def finish (s : State) : Option (List Token) :=
  match s.mode with
  | .plain => some s.cut.tokens
  | .operator text => some (s.emit text).tokens
  | .comment => some s.tokens
  | _ => none

end State

/-- The tokens of a text. -/
def lex (text : List Char) : Option (List Token) :=
  (State.run ⟨.plain, none, []⟩ text).bind State.finish

/-! ## What is read -/

/-- Whether a character stands for itself wherever it is read. -/
def isOrdinary (c : Char) : Bool :=
  !"\\'\"$\x60\n \t#".toList.contains c && !operators.contains [c]

namespace State

variable {s : State} {word : Word}

/-- More of a word. -/
def append (s : State) (word : Word) : State :=
  { s with word := some (s.word.getD [] ++ word) }

theorem append_append (s : State) (word word' : Word) :
    (s.append word).append word' = s.append (word ++ word') := by
  simp [append]

/-- What is read of a text is read of its parts. -/
theorem run_append (s : State) (before after : List Char) :
    s.run (before ++ after) = (s.run before).bind fun s' => s'.run after :=
  List.foldlM_append

theorem run_cons (s : State) (c : Char) (rest : List Char) :
    s.run (c :: rest) = (s.step c).bind fun s' => s'.run rest :=
  List.foldlM_cons

theorem run_of_append {s' : State} {before : List Char} (h : s.run before = some s')
    (after : List Char) : s.run (before ++ after) = s'.run after := by
  rw [run_append, h, Option.bind_some]

theorem step_ordinary (hmode : s.mode = .plain) {c : Char} (hc : isOrdinary c = true) :
    s.step c = some (s.append [(c, .bare)]) := by
  simp only [isOrdinary, Bool.and_eq_true, Bool.not_eq_true', List.contains_eq_mem,
    decide_eq_false_iff_not] at hc
  obtain ⟨hspecial, hoperator⟩ := hc
  have hne : ∀ d ∈ "\\'\"$\x60\n \t#".toList, c ≠ d := fun d hd heq => hspecial (heq ▸ hd)
  rw [step, hmode]
  simp only [stepPlain, hne _ (by decide : '\\' ∈ _), hne _ (by decide : '\'' ∈ _),
    hne _ (by decide : '"' ∈ _), hne _ (by decide : '$' ∈ _), hne _ (by decide : '\x60' ∈ _),
    hne _ (by decide : '\n' ∈ _), hne _ (by decide : ' ' ∈ _), hne _ (by decide : '\t' ∈ _),
    hne _ (by decide : '#' ∈ _), hoperator, if_false, or_self, false_and]
  rw [push, append, ← hmode]

/-- Ordinary characters are a word as they stand. -/
theorem run_ordinary (hmode : s.mode = .plain) {text : List Char}
    (htext : ∀ c ∈ text, isOrdinary c = true) (hne : text ≠ []) :
    s.run text = some (s.append (text.map fun c => (c, .bare))) := by
  induction text generalizing s with
  | nil => exact absurd rfl hne
  | cons c text ih =>
      obtain ⟨hc, htext⟩ := List.forall_mem_cons.mp htext
      rw [run_cons, step_ordinary hmode hc, Option.bind_some]
      cases text with
      | nil => rfl
      | cons d text =>
          have hrest := @ih (s.append [(c, .bare)]) hmode htext (List.cons_ne_nil d text)
          rw [hrest, append_append]
          rfl

/-- A text in single quotes, with each quote in it written as four characters. -/
def singleQuoted (text : List Char) : List Char :=
  '\'' :: (text.flatMap (fun c => if c = '\'' then "'\\''".toList else [c]) ++ ['\''])

theorem run_escapedQuote (hmode : s.mode = .single) :
    s.run "'\\''".toList = some { s.push '\'' .full with mode := .single } := by
  have htext : "'\\''".toList = ['\'', '\\', '\'', '\''] := by decide
  rw [htext, run_cons, step, hmode]
  simp [run, List.foldlM, step, stepPlain, push, quote]

/-- Within single quotes every character is itself. -/
theorem run_inQuotes (hmode : s.mode = .single) (text : List Char) :
    s.run (text.flatMap fun c => if c = '\'' then "'\\''".toList else [c]) =
      some { s with word := if text = [] then s.word
                             else some (s.word.getD [] ++ text.map fun c => (c, .full)) } := by
  induction text generalizing s with
  | nil => rfl
  | cons c text ih =>
      have hstep : s.run (if c = '\'' then "'\\''".toList else [c]) =
          some { s.push c .full with mode := .single } := by
        by_cases hc : c = '\''
        · rw [if_pos hc, hc, run_escapedQuote hmode]
        · rw [if_neg hc, run_cons, step, hmode]
          simp only [hc, if_false, Option.bind_some]
          rfl
      rw [List.flatMap_cons, run_of_append hstep, ih rfl]
      cases text with
      | nil => simp [push, hmode]
      | cons d text => simp [push, hmode]

/-- A text in single quotes is a word, all of it quoted. -/
theorem run_singleQuoted (hmode : s.mode = .plain) (text : List Char) :
    s.run (singleQuoted text) = some (s.append (text.map fun c => (c, .full))) := by
  have hquote : s.step '\'' = some (s.quote .single) := by
    rw [step, hmode]
    rfl
  rw [singleQuoted, run_cons, hquote, Option.bind_some,
    run_of_append (run_inQuotes rfl text), run_cons, step]
  cases text with
  | nil => simp [run, quote, append, hmode]
  | cons c text => simp [run, quote, append, hmode]

/-- A blank ends a word. -/
theorem run_blank (hmode : s.mode = .plain) (hword : s.word = some word) :
    s.run [' '] = some ⟨.plain, none, s.tokens ++ [.word word]⟩ := by
  rw [run_cons, step, hmode]
  have hstep : s.stepPlain ' ' = some s.cut := by
    rw [stepPlain]
    have hoperator : [' '] ∉ operators := by decide
    simp [hoperator]
  simp only [hstep, Option.bind_some]
  rw [cut, hword, hmode]
  rfl

/-- A conjunction between blanks. -/
theorem run_and (hmode : s.mode = .plain) (hword : s.word = some word) :
    s.run " && ".toList =
      some ⟨.plain, none, s.tokens ++ [.word word] ++ [.operator ['&', '&']]⟩ := by
  have htext : " && ".toList = [' '] ++ ['&', '&', ' '] := by decide
  rw [htext, run_of_append (run_blank hmode hword)]
  rfl

end State

/-! ## Commands -/

/-- The text of a word. -/
def text (word : Word) : String :=
  String.ofList (word.map Prod.fst)

/-- Whether the shell makes nothing else of a word: no pathname and no home directory. -/
def isLiteral (word : Word) : Bool :=
  word.all fun c => c.2 != .bare || !"*?[~".toList.contains c.1

/-- Whether a character may stand in a name. -/
def isNameChar (c : Char) : Bool :=
  c.isAlphanum || c == '_'

/-- Whether a text is a name. -/
def isName (name : List Char) : Bool :=
  name.all isNameChar && name.head?.any fun c => !c.isDigit

/-- The characters of a name at the start of a word. -/
def namePart (word : Word) : Word :=
  word.takeWhile fun c => c.2 == .bare && isNameChar c.1

/-- The assignment that a word is, if it is one. -/
def assignment (word : Word) : Option (String × String) :=
  match word.drop (namePart word).length with
  | ('=', .bare) :: value =>
      if isName ((namePart word).map Prod.fst) then some (text (namePart word), text value)
      else none
  | _ => none

/-- A simple command without redirections. -/
structure Command where
  assignments : List (String × String)
  words : List String
deriving DecidableEq

/-- The command that some words are. -/
def command : List Word → Command
  | [] => ⟨[], []⟩
  | word :: rest =>
      match assignment word with
      | some pair => { command rest with assignments := pair :: (command rest).assignments }
      | none => ⟨[], (word :: rest).map text⟩

/-- The commands of a list in which each is run if the one before it succeeds, and nothing is
expanded. -/
def andList : List Word → List Token → Option (List Command)
  | [], [] => none
  | word :: words, [] => some [command (word :: words).reverse]
  | words, .word word :: rest => if isLiteral word then andList (word :: words) rest else none
  | [], .operator _ :: _ => none
  | word :: words, .operator op :: rest =>
      if op = ['&', '&'] then (andList [] rest).map (command (word :: words).reverse :: ·) else none

/-- The commands that a text is. -/
def commands (text : String) : Option (List Command) :=
  (lex text.toList).bind (andList [])

/-! ## Commands that are read -/

section Commands

variable {word : Word} {words : List Word}

/-- Words without an operator are one command. -/
theorem andList_words {pending : List Word} (hliteral : ∀ word ∈ words, isLiteral word = true)
    (hne : pending.reverse ++ words ≠ []) :
    andList pending (words.map .word) = some [command (pending.reverse ++ words)] := by
  induction words generalizing pending with
  | nil =>
      rw [List.append_nil] at hne ⊢
      cases pending with
      | nil => exact absurd rfl hne
      | cons word pending => rfl
  | cons word words ih =>
      obtain ⟨hword, hliteral⟩ := List.forall_mem_cons.mp hliteral
      have hstep : andList pending (List.map Token.word (word :: words)) =
          andList (word :: pending) (words.map .word) := by
        rw [List.map_cons]
        cases pending with
        | nil => exact if_pos hword
        | cons _ _ => exact if_pos hword
      rw [hstep, ih hliteral (by simp), List.reverse_cons, List.append_assoc,
        List.singleton_append]

/-- Words up to a conjunction are a command of their own. -/
theorem andList_and {pending : List Word} {rest : List Token}
    (hliteral : ∀ word ∈ words, isLiteral word = true) (hne : pending.reverse ++ words ≠ []) :
    andList pending (words.map .word ++ .operator ['&', '&'] :: rest) =
      (andList [] rest).map (command (pending.reverse ++ words) :: ·) := by
  induction words generalizing pending with
  | nil =>
      rw [List.append_nil] at hne ⊢
      cases pending with
      | nil => exact absurd rfl hne
      | cons word pending => rfl
  | cons word words ih =>
      obtain ⟨hword, hliteral⟩ := List.forall_mem_cons.mp hliteral
      have hstep : andList pending (List.map Token.word (word :: words) ++
          .operator ['&', '&'] :: rest) =
          andList (word :: pending) (words.map .word ++ .operator ['&', '&'] :: rest) := by
        rw [List.map_cons, List.cons_append]
        cases pending with
        | nil => exact if_pos hword
        | cons _ _ => exact if_pos hword
      rw [hstep, ih hliteral (by simp), List.reverse_cons, List.append_assoc,
        List.singleton_append]

theorem command_of_assignment {pair : String × String} (h : assignment word = some pair) :
    command (word :: words) = ⟨pair :: (command words).assignments, (command words).words⟩ := by
  rw [command, h]

theorem command_of_word (h : assignment word = none) :
    command (word :: words) = ⟨[], (word :: words).map text⟩ := by
  rw [command, h]

/-- A word that starts with a quoted character is no assignment. -/
theorem assignment_full (chars : List Char) :
    assignment (chars.map fun c => (c, .full)) = none := by
  cases chars with
  | nil => rfl
  | cons c chars =>
      have hpart : namePart ((c :: chars).map fun c => (c, .full)) = [] :=
        List.takeWhile_cons_of_neg (by simp)
      rw [assignment, hpart, List.length_nil, List.drop_zero, List.map_cons]
      split
      next hword => cases (Prod.mk.inj (List.cons.inj hword).1).2
      next => rfl

theorem text_map (chars : List Char) (quoting : Quoting) :
    text (chars.map fun c => (c, quoting)) = String.ofList chars := by
  rw [text, List.map_map]
  exact congrArg String.ofList (List.map_id chars)

/-- An assignment in bare characters is one in what they say. -/
theorem exists_of_assignment {chars : List Char} {pair : String × String}
    (h : assignment (chars.map fun c => (c, .bare)) = some pair) :
    ∃ name value, chars = name ++ '=' :: value ∧ isName name = true := by
  unfold assignment at h
  split at h
  next value hdrop =>
    split at h
    next hname =>
      refine ⟨(namePart (chars.map fun c => (c, .bare))).map Prod.fst, value.map Prod.fst, ?_,
        hname⟩
      have hsplit : chars.map (fun c => (c, Quoting.bare)) =
          namePart (chars.map fun c => (c, .bare)) ++ ('=', .bare) :: value := by
        rw [← hdrop]
        exact List.prefix_append_drop (List.takeWhile_prefix _)
      have hchars := congrArg (List.map Prod.fst) hsplit
      rw [List.map_map, List.map_append] at hchars
      exact (List.map_id chars).symm.trans hchars
    next => cases h
  next => cases h

/-- A name in bare characters, an equals sign and a value are an assignment. -/
theorem assignment_name {name : List Char} (hname : isName name = true) (value : Word) :
    assignment (name.map (fun c => (c, .bare)) ++ ('=', .bare) :: value) =
      some (String.ofList name, text value) := by
  have hchars : ∀ c ∈ name.map (fun c => (c, Quoting.bare)),
      (c.2 == .bare && isNameChar c.1) = true := by
    intro c hc
    obtain ⟨d, hd, rfl⟩ := List.mem_map.mp hc
    exact List.all_eq_true.mp (Bool.and_eq_true_iff.mp hname).1 d hd
  have hpart : namePart (name.map (fun c => (c, .bare)) ++ ('=', .bare) :: value) =
      name.map fun c => (c, .bare) := by
    rw [namePart, List.takeWhile_append_of_pos hchars, List.takeWhile_cons_of_neg (by decide),
      List.append_nil]
  rw [assignment, hpart, List.drop_left]
  simp only [text_map, List.map_map]
  rw [if_pos]
  exact (congrArg isName (List.map_id name)).trans hname

end Commands

end Fraisier.Data.Shell
