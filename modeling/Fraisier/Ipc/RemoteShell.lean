import Fraisier.Core.Tools
import Fraisier.Data.Shell
import Fraisier.Ipc.Client

/-!
# Commands for a remote shell

A transport runs a command of an adapter here or on another host, where a shell reads it from one
text. Read `remoteCommand_exact` first: what the shell reads is the directory, the assignments,
the program and its arguments, and nothing else. The launcher of adapter processes has a copy of
the quoting, of which the same holds.
-/

namespace Fraisier.Ipc

open Fraisier.Core
open Fraisier.Data (Json)
open Fraisier.Data.Shell

/-! ## The transport -/

/-- A configured `ssh`. -/
structure SshTransport where
  program : String
  user : Option String
  port : Option Nat
  identity : Option String
  options : List String
deriving DecidableEq

/-- Where the commands of an adapter run. -/
inductive Transport where
  | local
  | ssh (ssh : SshTransport)
deriving DecidableEq

/-- A process to spawn here. -/
structure Spawn where
  program : String
  args : List String
  envs : List (String × String)
  cwd : Option String
deriving DecidableEq

namespace Transport

/-- A token of a shell command: bare when made of safe characters only, else in quotes. -/
def shellQuote (value : String) : String :=
  let safe := !value.isEmpty && value.toList.all fun c =>
    c.isAlphanum || "_-./:=@%+,".toList.contains c
  if safe then value
  else "'" ++ String.ofList (value.toList.flatMap fun c =>
    if c = '\'' then "'\\''".toList else [c]) ++ "'"

/-- A command as one text for a remote shell. -/
def remoteCommand (program : String) (args : List String) (envs : List (String × String))
    (cwd : Option String) : String :=
  (match cwd with
    | some dir => "cd " ++ shellQuote dir ++ " && "
    | none => "") ++
  String.join (envs.map fun entry => entry.1 ++ "=" ++ shellQuote entry.2 ++ " ") ++
  shellQuote program ++
  String.join (args.map fun arg => " " ++ shellQuote arg)

end Transport

/-- The destination of a call: the configured address of its host, or the host's name. -/
def SshTransport.destination (ssh : SshTransport) (ctx : AdapterCtx) (operation : String) :
    Except AdapterError String :=
  let configured := ((ctx.settings.lookup "address").bind Json.asStr).filter fun a => !a.isEmpty
  match configured.or (ctx.host.map HostId.name) with
  | none => .error (.tagged .invalidConfig "ssh" operation
      ("the ssh transport needs a target host address (set the host's [hosts].inventory " ++
        "address)") none)
  | some address =>
      match ssh.user with
      | some user => .ok s!"{user}@{address}"
      | none => .ok address

/-- The arguments of `ssh`, the last of them the remote command. -/
def SshTransport.sshArgv (ssh : SshTransport) (destination remote : String) : List String :=
  ["-o", "BatchMode=yes"] ++ ssh.options.flatMap (fun option => ["-o", option]) ++
    (ssh.port.elim [] fun port => ["-p", toString port]) ++
    (ssh.identity.elim [] fun identity => ["-i", identity]) ++ [destination, remote]

/-- The process that a command becomes. -/
def Transport.command (transport : Transport) (ctx : AdapterCtx) (spawn : Spawn)
    (operation : String) : Except AdapterError Spawn :=
  match transport with
  | .local => .ok spawn
  | .ssh config =>
      match config.destination ctx operation with
      | .error error => .error error
      | .ok destination =>
          let remote := remoteCommand spawn.program spawn.args spawn.envs spawn.cwd
          .ok ⟨config.program, config.sshArgv destination remote, [], none⟩

/-! ## Quoted tokens -/

/-- Whether a token is left bare. -/
def isSafe (value : String) : Bool :=
  !value.isEmpty && value.toList.all fun c => c.isAlphanum || "_-./:=@%+,".toList.contains c

/-- The word that a quoted token is. -/
def quoted (value : String) : Word :=
  value.toList.map fun c => (c, if isSafe value then .bare else .full)

theorem toList_shellQuote (value : String) :
    (shellQuote value).toList =
      if isSafe value then value.toList else State.singleQuoted value.toList := by
  rw [shellQuote]
  change (if isSafe value then value else _).toList = _
  split
  · rfl
  · simp only [String.toList_append, String.toList_ofList, List.append_assoc]
    rfl

/-- Whether a character is safe. -/
def isSafeChar (c : Char) : Bool :=
  c.isAlphanum || "_-./:=@%+,".toList.contains c

theorem not_mem_of_safe {c : Char} {special : List Char} (hc : isSafeChar c = true)
    (hall : special.all (fun d => !isSafeChar d) = true) : c ∉ special := by
  intro hmem
  have hspecial := List.all_eq_true.mp hall c hmem
  rw [hc] at hspecial
  cases hspecial

/-- Safe characters stand for themselves. -/
theorem isOrdinary_of_safe {c : Char} (hc : isSafeChar c = true) : isOrdinary c = true := by
  have hbare : c ∉ "\\'\"$\x60\n \t#".toList := not_mem_of_safe hc (by decide +kernel)
  have hoperator : [c] ∉ operators := by
    have hhead : c ∉ operators.filterMap List.head? := not_mem_of_safe hc (by decide +kernel)
    exact fun hmem => hhead (List.mem_filterMap.mpr ⟨[c], hmem, rfl⟩)
  rw [isOrdinary, List.contains_eq_mem, List.contains_eq_mem, decide_eq_false hbare,
    decide_eq_false hoperator]
  rfl

theorem isSafeChar_of_isSafe {value : String} (h : isSafe value = true) {c : Char}
    (hc : c ∈ value.toList) : isSafeChar c = true :=
  List.all_eq_true.mp (Bool.and_eq_true_iff.mp h).2 c hc

theorem isSafeChar_of_isNameChar {c : Char} (h : isNameChar c = true) : isSafeChar c = true := by
  rw [isNameChar, Bool.or_eq_true, beq_iff_eq] at h
  rw [isSafeChar, Bool.or_eq_true]
  obtain h | rfl := h
  · exact .inl h
  · exact .inr (by decide)

/-- Bare characters that are safe are not expanded. -/
theorem isLiteral_bare {chars : List Char} (h : ∀ c ∈ chars, isSafeChar c = true) :
    isLiteral (chars.map fun c => (c, .bare)) = true := by
  refine List.all_eq_true.mpr fun e he => ?_
  obtain ⟨c, hc, rfl⟩ := List.mem_map.mp he
  have hnot : c ∉ "*?[~".toList := not_mem_of_safe (h c hc) (by decide +kernel)
  simpa using hnot

theorem isLiteral_quoted (value : String) : isLiteral (quoted value) = true := by
  rw [quoted]
  cases hsafe : isSafe value with
  | true => exact isLiteral_bare fun c hc => isSafeChar_of_isSafe hsafe hc
  | false =>
      refine List.all_eq_true.mpr fun e he => ?_
      obtain ⟨c, -, rfl⟩ := List.mem_map.mp he
      rfl

theorem text_quoted (value : String) : text (quoted value) = value := by
  rw [quoted, text_map, String.ofList_toList]

/-- Whether a text has the form of an assignment. -/
def IsAssignment (value : String) : Prop :=
  ∃ name rest, value.toList = name ++ '=' :: rest ∧ isName name = true

/-- A quoted token is an assignment only if it is written as one. -/
theorem assignment_quoted {value : String} (h : ¬IsAssignment value) :
    assignment (quoted value) = none := by
  rw [quoted]
  cases hsafe : isSafe value with
  | false => exact assignment_full value.toList
  | true =>
      cases hassigned : assignment (value.toList.map fun c => (c, .bare)) with
      | none => exact hassigned
      | some pair => exact absurd (exists_of_assignment hassigned) h

/-- A quoted token is read as its word. -/
theorem run_shellQuote {s : State} (hmode : s.mode = .plain) (value : String) :
    s.run (shellQuote value).toList = some (s.append (quoted value)) := by
  rw [toList_shellQuote, quoted]
  cases hsafe : isSafe value with
  | false => exact State.run_singleQuoted hmode value.toList
  | true =>
      refine State.run_ordinary hmode (fun c hc => ?_) fun hnil => ?_
      · exact isOrdinary_of_safe (isSafeChar_of_isSafe hsafe hc)
      · rw [String.toList_eq_nil_iff.mp hnil] at hsafe
        cases hsafe

/-! ## Commands -/

/-- The words that some assignments are. -/
def assigned (entry : String × String) : Word :=
  entry.1.toList.map (fun c => (c, .bare)) ++ ('=', .bare) :: quoted entry.2

theorem isSafeChar_of_isName {name : List Char} (h : isName name = true) {c : Char}
    (hc : c ∈ name) : isSafeChar c = true :=
  isSafeChar_of_isNameChar (List.all_eq_true.mp (Bool.and_eq_true_iff.mp h).1 c hc)

theorem isLiteral_assigned {entry : String × String} (hname : isName entry.1.toList = true) :
    isLiteral (assigned entry) = true := by
  have hbare : isLiteral (entry.1.toList.map fun c => (c, .bare)) = true :=
    isLiteral_bare fun c hc => isSafeChar_of_isName hname hc
  have hvalue := isLiteral_quoted entry.2
  rw [isLiteral] at hbare hvalue ⊢
  rw [assigned, List.all_append, hbare, List.all_cons, hvalue]
  decide

/-- An assignment is read as its word. -/
theorem run_assigned {entry : String × String} (hname : isName entry.1.toList = true)
    (tokens : List Token) :
    State.run ⟨.plain, none, tokens⟩ (entry.1 ++ "=" ++ shellQuote entry.2 ++ " ").toList =
      some ⟨.plain, none, tokens ++ [.word (assigned entry)]⟩ := by
  have hsafe : ∀ c ∈ entry.1.toList ++ ['='], isOrdinary c = true := by
    intro c hc
    obtain hc | hc := List.mem_append.mp hc
    · exact isOrdinary_of_safe (isSafeChar_of_isName hname hc)
    · rw [List.mem_singleton.mp hc]
      decide
  have hkey : State.run ⟨.plain, none, tokens⟩ (entry.1.toList ++ ['=']) =
      some ⟨.plain, some ((entry.1.toList ++ ['=']).map fun c => (c, .bare)), tokens⟩ :=
    State.run_ordinary rfl hsafe (by simp)
  have htext : (entry.1 ++ "=" ++ shellQuote entry.2 ++ " ").toList =
      (entry.1.toList ++ ['=']) ++ ((shellQuote entry.2).toList ++ [' ']) := by
    simp only [String.toList_append, List.append_assoc]
    rfl
  rw [htext, State.run_of_append hkey, State.run_of_append (run_shellQuote rfl entry.2)]
  rw [State.run_blank rfl rfl]
  simp [State.append, assigned]

/-- Some assignments are read as their words. -/
theorem run_envs {envs : List (String × String)}
    (hnames : ∀ entry ∈ envs, isName entry.1.toList = true) (tokens : List Token) :
    State.run ⟨.plain, none, tokens⟩
      (String.join (envs.map fun entry => entry.1 ++ "=" ++ shellQuote entry.2 ++ " ")).toList =
      some ⟨.plain, none, tokens ++ (envs.map assigned).map .word⟩ := by
  induction envs generalizing tokens with
  | nil => simp [State.run]
  | cons entry envs ih =>
      obtain ⟨hname, hnames⟩ := List.forall_mem_cons.mp hnames
      rw [List.map_cons, String.join_cons, String.toList_append,
        State.run_of_append (run_assigned hname tokens), ih hnames]
      simp

/-- Arguments behind a word are read as its successors. -/
theorem run_args (args : List String) (word : Word) (tokens : List Token) :
    (State.run ⟨.plain, some word, tokens⟩
      (String.join (args.map fun arg => " " ++ shellQuote arg)).toList).bind State.finish =
      some (tokens ++ (word :: args.map quoted).map .word) := by
  induction args generalizing word tokens with
  | nil => rfl
  | cons arg args ih =>
      have htext : (String.join ((arg :: args).map fun arg => " " ++ shellQuote arg)).toList =
          [' '] ++ ((shellQuote arg).toList ++
            (String.join (args.map fun arg => " " ++ shellQuote arg)).toList) := by
        rw [List.map_cons, String.join_cons, String.toList_append, String.toList_append,
          List.append_assoc]
        rfl
      have hblank : State.run ⟨.plain, some word, tokens⟩ [' '] =
          some ⟨.plain, none, tokens ++ [.word word]⟩ := State.run_blank rfl rfl
      rw [htext, State.run_of_append hblank, State.run_of_append (run_shellQuote rfl arg)]
      have hrest := ih (quoted arg) (tokens ++ [.word word])
      simpa [State.append] using hrest

/-- What a shell makes of assignments, a program and its arguments. -/
theorem command_eq {envs : List (String × String)} {program : String} {args : List String}
    (hnames : ∀ entry ∈ envs, isName entry.1.toList = true) (hprogram : ¬IsAssignment program) :
    command (envs.map assigned ++ quoted program :: args.map quoted) =
      ⟨envs, program :: args⟩ := by
  induction envs with
  | nil =>
      rw [List.map_nil, List.nil_append, command_of_word (assignment_quoted hprogram),
        List.map_cons, text_quoted, List.map_map]
      congr 2
      exact (List.map_congr_left fun arg _ => text_quoted arg).trans (List.map_id args)
  | cons entry envs ih =>
      obtain ⟨hname, hnames⟩ := List.forall_mem_cons.mp hnames
      have hassigned : assignment (assigned entry) = some entry := by
        rw [assigned, assignment_name hname, text_quoted, String.ofList_toList]
      rw [List.map_cons, List.cons_append, command_of_assignment hassigned, ih hnames]

/-- The text of a command is read as its assignments, the program and its arguments. -/
theorem lex_command {envs : List (String × String)}
    (hnames : ∀ entry ∈ envs, isName entry.1.toList = true) (program : String)
    (args : List String) (tokens : List Token) :
    (State.run ⟨.plain, none, tokens⟩
      (String.join (envs.map fun entry => entry.1 ++ "=" ++ shellQuote entry.2 ++ " ") ++
        shellQuote program ++ String.join (args.map fun arg => " " ++ shellQuote arg)).toList).bind
        State.finish =
      some (tokens ++ (envs.map assigned ++ quoted program :: args.map quoted).map .word) := by
  rw [String.toList_append, String.toList_append, List.append_assoc,
    State.run_of_append (run_envs hnames tokens), State.run_of_append (run_shellQuote rfl program)]
  have hargs := run_args args (quoted program) (tokens ++ (envs.map assigned).map .word)
  simpa [State.append] using hargs

theorem isLiteral_command {envs : List (String × String)}
    (hnames : ∀ entry ∈ envs, isName entry.1.toList = true) (program : String)
    (args : List String) :
    ∀ word ∈ envs.map assigned ++ quoted program :: args.map quoted, isLiteral word = true := by
  intro word hword
  simp only [List.mem_append, List.mem_map, List.mem_cons] at hword
  obtain ⟨entry, hentry, rfl⟩ | rfl | ⟨arg, -, rfl⟩ := hword
  · exact isLiteral_assigned (hnames entry hentry)
  · exact isLiteral_quoted program
  · exact isLiteral_quoted arg

/-- Words between which there are blanks are joined by them. -/
theorem intercalate_quoted (program : String) (args : List String) :
    " ".intercalate ((program :: args).map shellQuote) =
      shellQuote program ++ String.join (args.map fun arg => " " ++ shellQuote arg) := by
  induction args generalizing program with
  | nil => simp
  | cons arg args ih =>
      have hrest := ih arg
      simp only [List.map_cons] at hrest ⊢
      rw [String.intercalate_cons_cons, hrest, String.join_cons, String.append_assoc,
        String.append_assoc]

/-- A shell reads a command without a directory as its assignments, the program and its
arguments. -/
theorem commands_plain {envs : List (String × String)} {program : String} (args : List String)
    (hnames : ∀ entry ∈ envs, isName entry.1.toList = true) (hprogram : ¬IsAssignment program) :
    commands (String.join (envs.map fun entry => entry.1 ++ "=" ++ shellQuote entry.2 ++ " ") ++
      shellQuote program ++ String.join (args.map fun arg => " " ++ shellQuote arg)) =
      some [⟨envs, program :: args⟩] := by
  rw [commands, lex, lex_command hnames, Option.bind_some, List.nil_append,
    andList_words (isLiteral_command hnames program args) (by simp)]
  simp only [List.reverse_nil, List.nil_append, command_eq hnames hprogram]

/-- A shell reads a command that is to run in a directory as a change to that and the command. -/
theorem commands_below {envs : List (String × String)} {program : String} (args : List String)
    (dir : String) (hnames : ∀ entry ∈ envs, isName entry.1.toList = true)
    (hprogram : ¬IsAssignment program) :
    commands (Transport.remoteCommand program args envs (some dir)) =
      some [⟨[], ["cd", dir]⟩, ⟨envs, program :: args⟩] := by
  have htext : (Transport.remoteCommand program args envs (some dir)).toList =
      "cd".toList ++ ([' '] ++ ((shellQuote dir).toList ++ (" && ".toList ++
        (String.join (envs.map fun entry => entry.1 ++ "=" ++ shellQuote entry.2 ++ " ") ++
          shellQuote program ++
            String.join (args.map fun arg => " " ++ shellQuote arg)).toList))) := by
    simp only [Transport.remoteCommand, String.toList_append, List.append_assoc]
    rfl
  -- the text is read piece by piece: `cd`, the quoted directory, the operator, and the command
  have hcd : State.run ⟨.plain, none, []⟩ "cd".toList =
      some ⟨.plain, some ("cd".toList.map fun c => (c, .bare)), []⟩ := by decide
  rw [commands, lex, htext, State.run_of_append hcd,
    State.run_of_append (State.run_blank rfl rfl),
    State.run_of_append (run_shellQuote rfl dir),
    State.run_of_append (State.run_and rfl rfl), lex_command hnames, Option.bind_some]
  have hliteral : ∀ word ∈ ["cd".toList.map fun c => (c, Quoting.bare), quoted dir],
      isLiteral word = true := by
    intro word hword
    obtain rfl | rfl : word = _ ∨ word = _ := by simpa using hword
    · decide
    · exact isLiteral_quoted dir
  have hfirst := @andList_and [_, quoted dir] []
    ((envs.map assigned ++ quoted program :: args.map quoted).map .word) hliteral (by simp)
  rw [andList_words (isLiteral_command hnames program args) (by simp)] at hfirst
  have hcommand : command ["cd".toList.map fun c => (c, Quoting.bare), quoted dir] =
      ⟨[], ["cd", dir]⟩ := by
    rw [command_of_word (by decide), List.map_cons, List.map_singleton, text_quoted, text_map]
    rfl
  simp only [List.reverse_nil, List.nil_append, hcommand, command_eq hnames hprogram,
    Option.map_some] at hfirst
  simpa [State.append] using hfirst

theorem commands_remoteCommand {envs : List (String × String)} {program : String}
    (args : List String) (cwd : Option String)
    (hnames : ∀ entry ∈ envs, isName entry.1.toList = true) (hprogram : ¬IsAssignment program) :
    commands (Transport.remoteCommand program args envs cwd) =
      some ((cwd.elim [] fun dir => [⟨[], ["cd", dir]⟩]) ++ [⟨envs, program :: args⟩]) := by
  cases cwd with
  | none =>
      have htext : Transport.remoteCommand program args envs none =
          String.join (envs.map fun entry => entry.1 ++ "=" ++ shellQuote entry.2 ++ " ") ++
            shellQuote program ++ String.join (args.map fun arg => " " ++ shellQuote arg) := by
        rw [Transport.remoteCommand, String.empty_append]
        rfl
      rw [htext, commands_plain args hnames hprogram]
      rfl
  | some dir => exact commands_below args dir hnames hprogram

/-- What a shell reads of a remote command is the directory to change to, the assignments, the
program and its arguments, whatever they are made of, and nothing else. The same holds of the
command by which an adapter process is launched. -/
theorem remoteCommand_exact :
    (∀ (program : String) (args : List String) (envs : List (String × String))
      (cwd : Option String), (∀ entry ∈ envs, isName entry.1.toList = true) →
      ¬IsAssignment program →
      commands (Transport.remoteCommand program args envs cwd) =
        some ((cwd.elim [] fun dir => [⟨[], ["cd", dir]⟩]) ++ [⟨envs, program :: args⟩])) ∧
    ∀ (program : String) (args : List String), ¬IsAssignment program →
      commands (remoteCommand program args) = some [⟨[], program :: args⟩] := by
  refine ⟨fun program args envs cwd => commands_remoteCommand args cwd,
    fun program args hprogram => ?_⟩
  have htext : remoteCommand program args =
      String.join (([] : List (String × String)).map fun entry =>
        entry.1 ++ "=" ++ shellQuote entry.2 ++ " ") ++ shellQuote program ++
          String.join (args.map fun arg => " " ++ shellQuote arg) := by
    rw [remoteCommand, intercalate_quoted]
    rfl
  rw [htext, commands_plain args (by simp) hprogram]

theorem remoteCommand_exact_app :
    commands (Transport.remoteCommand "app" ["it's", "$(id)", ""] [("KEY", "a\nvalue")]
      (some "~/srv")) =
        some [⟨[], ["cd", "~/srv"]⟩, ⟨[("KEY", "a\nvalue")], ["app", "it's", "$(id)", ""]⟩] ∧
      commands (remoteCommand "app" ["a b"]) = some [⟨[], ["app", "a b"]⟩] := by
  have happ : ¬IsAssignment "app" := by
    rintro ⟨name, rest, htext, -⟩
    have hmem : '=' ∈ "app".toList := by
      rw [htext]
      simp
    exact absurd hmem (by decide)
  exact ⟨remoteCommand_exact.1 "app" ["it's", "$(id)", ""] [("KEY", "a\nvalue")] (some "~/srv")
    (by decide) happ, remoteCommand_exact.2 "app" ["a b"] happ⟩

example : commands "cd /srv/app && KEY='a value' app --flag 'two words'; reboot" = none := by
  decide +kernel

/-- A process that is to run on another host becomes an `ssh` to the destination of the call, and
the shell there reads the process from its last argument. -/
theorem command_reads {config : SshTransport} {ctx : AdapterCtx} {spawn here : Spawn}
    {operation : String} (h : (Transport.ssh config).command ctx spawn operation = .ok here)
    (hnames : ∀ entry ∈ spawn.envs, isName entry.1.toList = true)
    (hprogram : ¬IsAssignment spawn.program) :
    here.program = config.program ∧ here.envs = [] ∧ here.cwd = none ∧
      ∃ options destination text, config.destination ctx operation = .ok destination ∧
        here.args = options ++ [destination, text] ∧
        commands text = some ((spawn.cwd.elim [] fun dir => [⟨[], ["cd", dir]⟩]) ++
          [⟨spawn.envs, spawn.program :: spawn.args⟩]) := by
  rw [Transport.command] at h
  cases hdestination : config.destination ctx operation with
  | error error =>
      rw [hdestination] at h
      cases h
  | ok destination =>
      rw [hdestination] at h
      obtain rfl := Except.ok.inj h
      exact ⟨rfl, rfl, rfl, _, destination, _, rfl, rfl,
        commands_remoteCommand spawn.args spawn.cwd hnames hprogram⟩

end Fraisier.Ipc
