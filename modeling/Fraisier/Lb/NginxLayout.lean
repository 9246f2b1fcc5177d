import Fraisier.Data.Blocks
import Fraisier.Data.Words
import Fraisier.Lb.NginxFaults
import Fraisier.Lb.NginxLines

/-!
# Draining a host, as nginx reads it

The adapter finds and rewrites a directive line by line, and nginx reads blocks of directives.
How nginx reads is a machine of which three things are assumed: blanks mean nothing, words that
blanks separate and a semicolon ends are a directive, and a brace closes a block. Read
`drain_marks` first. In a configuration whose upstream is laid out in lines, a drain marks the
directive of its host and changes nothing else.
-/

namespace Fraisier.Lb

open Fraisier.Core Fraisier.Effect
open Fraisier.Data (Alphabet BlockEvent BlockReader)

/-! ## How nginx reads -/

/-- The plain words of a configuration, which need no quotes and hold no variables. -/
def configWords : Alphabet where
  isWord c :=
    !(Data.isWhitespace c || ['{', '}', ';', '#', '$', '\\', '\'', '"'].contains c)
  isGap c := c == ' ' || c == '\t'
  whitespace := by
    intro c hc
    obtain rfl | rfl : c = ' ' ∨ c = '\t' := by simpa using hc
    · decide
    · decide
  visible := by
    intro c hc
    rw [Bool.not_eq_true', Bool.or_eq_false_iff] at hc
    exact hc.1
  space := by decide

/-- What is assumed of the way in which nginx reads a configuration. -/
structure ReadsConfig (r : BlockReader) : Prop where
  blank : ∀ c, c = '\n' ∨ configWords.isGap c = true → r.step r.start c = ([], r.start)
  directive : ∀ {indent body : List Char} {words : List String}, configWords.Gap indent →
    configWords.Spaced body words → r.Whole (indent ++ (body ++ [';'])) [.item words]
  closing : r.step r.start '}' = ([.closes], r.start)

/-- The header of an upstream. -/
def upstreamHeader (upstream : String) : List String :=
  ["upstream", upstream]

/-- Whether a directive is a `server` directive whose address has a host part. -/
def isServer (host : String) : BlockEvent → Bool
  | .item (name :: address :: _) => name == "server" && hostPart address == host
  | _ => false

/-- The address of a `server` directive. -/
def address : BlockEvent → Option String
  | .item (_ :: address :: _) => some address
  | _ => none

/-- A directive with the `down` flag among its parameters. -/
def withDown : BlockEvent → BlockEvent
  | .item (name :: address :: params) =>
      .item (name :: address :: (params.filter (· ≠ "down") ++ ["down"]))
  | event => event

/-- What is read once every `server` directive of a host in an upstream carries `down`. -/
def markDown (upstream host : String) : List BlockEvent → List BlockEvent :=
  Data.mapWithin (upstreamHeader upstream) (isServer host) withDown

/-- The `server` directives of a host in an upstream. -/
def serversOf (upstream host : String) : List BlockEvent → List BlockEvent :=
  Data.filterWithin (upstreamHeader upstream) (isServer host)

/-- The `server` directives of a host in an upstream have addresses other than the bare word
`down`, which the adapter takes for the flag. -/
def Addressed (upstream host : String) (events : List BlockEvent) : Prop :=
  ∀ event ∈ serversOf upstream host events, address event ≠ some "down"

instance (upstream host : String) (events : List BlockEvent) :
    Decidable (Addressed upstream host events) :=
  inferInstanceAs (Decidable
    (∀ event ∈ serversOf upstream host events, address event ≠ some "down"))

/-- Where the address is no flag, the flag is all that changes among the words. -/
theorem withDown_eq {host : String} {words : List String}
    (hserver : isServer host (.item words) = true)
    (haddress : address (.item words) ≠ some "down") :
    withDown (.item words) = .item (words.filter (· ≠ "down") ++ ["down"]) := by
  match words, hserver, haddress with
  | name :: address :: params, hserver, haddress =>
      have hname : name = "server" := by
        rw [isServer, Bool.and_eq_true] at hserver
        exact eq_of_beq hserver.1
      have hkept : address ≠ "down" := fun h => haddress (congrArg some h)
      rw [hname, withDown, List.filter_cons_of_pos (by decide),
        List.filter_cons_of_pos (by simpa using hkept)]
      rfl

/-! ## The layout -/

/-- A line that holds one directive of plain words. -/
def SimpleLine (line : String) (words : List String) : Prop :=
  ∃ indent body tail, configWords.Gap indent ∧ configWords.Spaced body words ∧
    configWords.Gap tail ∧ line.toList = indent ++ (body ++ ';' :: tail)

/-- The lines of a block: simple `server` directives, and lines with whole directives of other
names, none of which looks like a `server` directive or the end of the block. -/
inductive BlockLines (r : BlockReader) : List String → List BlockEvent → Prop
  | nil : BlockLines r [] []
  | server {line : String} {words lines : List String} {events : List BlockEvent}
      (hline : SimpleLine line ("server" :: words)) (hrest : BlockLines r lines events) :
      BlockLines r (line :: lines) (.item ("server" :: words) :: events)
  | other {group lines : List String} {met events : List BlockEvent}
      (hgroup : r.Whole (written group) met)
      (hmet : ∀ event ∈ met, ∃ words, event = .item words ∧ words.head? ≠ some "server")
      (hlines : ∀ line ∈ group, Data.stripPrefix (Data.trim line) "server" = none ∧
        (Data.trim line).toList.head? ≠ some '}')
      (hrest : BlockLines r lines events) : BlockLines r (group ++ lines) (met ++ events)

/-- A configuration with an upstream that is laid out in lines. What stands before and after
the upstream is arbitrary. -/
structure Layout (r : BlockReader) (upstream text : String) where
  before : List String
  opening : String
  block : List String
  closing : String
  after : List String
  lines : Data.lines text = before ++ opening :: (block ++ closing :: after)
  /-- The ends of the lines carry no meaning. -/
  lineEnds : (r.run r.start (written (Data.lines text))).1 = r.read text
  /-- Nginx is between two directives when it reaches the upstream, the first of its name. -/
  reached : (r.run r.start (written before)).2 = r.start
  first : ∀ line ∈ before, opensUpstream upstream (Data.trim line) = false
  opens : r.Whole (opening.toList ++ ['\n']) [.opens (upstreamHeader upstream)]
  recognised : opensUpstream upstream (Data.trim opening) = true
  inside : ∃ events, BlockLines r block events
  closes : ∃ indent rest, configWords.Gap indent ∧ closing.toList = indent ++ '}' :: rest
  once : (r.read text).count (.opens (upstreamHeader upstream)) = 1

/-! ## Simple directives -/

section Simple

variable {line : String} {words : List String} {body : List Char}

/-- What can stand in a word. -/
theorem configWords_isWord {c : Char} (h : configWords.isWord c = true) :
    c ≠ ' ' ∧ c ≠ '\t' ∧ c ≠ ';' ∧ c ≠ '}' := by
  refine ⟨?_, ?_, ?_, ?_⟩ <;>
  · rintro rfl
    revert h
    decide

/-- A simple line without its indentation. -/
theorem SimpleLine.dropWhile {indent tail : List Char} (hindent : configWords.Gap indent)
    (hbody : configWords.Spaced body words)
    (hline : line.toList = indent ++ (body ++ ';' :: tail)) :
    line.toList.dropWhile Data.isWhitespace = body ++ ';' :: tail := by
  obtain ⟨c, hc, hword⟩ := hbody.exists_head
  rw [hline]
  exact Data.dropWhile_whitespace hindent.whitespace (by rw [List.head?_append, hc]; rfl)
    (configWords.visible hword)

/-- The end of a simple line is cut off behind the semicolon. -/
theorem trimEnd_simple {tail : List Char} (htail : configWords.Gap tail) :
    Data.trimEnd (String.ofList (body ++ ';' :: tail)) = String.ofList (body ++ [';']) := by
  rw [← List.singleton_append, ← List.append_assoc, Data.trimEnd_append htail.whitespace,
    Data.trimEnd_of_visible isWhitespace_semicolon]

/-- A directive is rewritten as a directive of the same words, and `down`. -/
theorem SimpleLine.setDown (h : SimpleLine line words) :
    SimpleLine (setDown true line) (words.filter (· ≠ "down") ++ ["down"]) := by
  obtain ⟨indent, body, tail, hindent, hbody, htail, hline⟩ := h
  have hdrop := SimpleLine.dropWhile hindent hbody hline
  have htake : line.toList.takeWhile Data.isWhitespace = indent := by
    have hboth := List.takeWhile_append_dropWhile (p := Data.isWhitespace) (l := line.toList)
    rw [hdrop] at hboth
    exact List.append_cancel_right (hboth.trans hline)
  have hsemicolon : Data.stripSuffix (String.ofList (body ++ [';'])) ";" =
      some (String.ofList body) := by
    rw [String.ofList_append]
    exact Data.stripSuffix_append _ _
  have hsplit : Data.splitWhitespace (Data.trimEnd (String.ofList body)) = words := by
    rw [Data.splitWhitespace_trimEnd, Data.splitWhitespace, String.toList_ofList,
      hbody.wordsFrom_eq]
  have hdown : configWords.Word "down" := .of_all (by decide) (by decide)
  refine ⟨indent, _, [], hindent, Alphabet.Spaced.of_intercalate (by simp) ?_, by
    exact fun c hc => absurd hc List.not_mem_nil, ?_⟩
  · intro word hword
    obtain hword | hword := List.mem_append.mp hword
    · exact hbody.word (List.mem_of_mem_filter hword)
    · rw [List.mem_singleton.mp hword]
      exact hdown
  · rw [Lb.setDown, htake, hdrop, trimEnd_simple htail, hsemicolon, Option.getD_some, hsplit,
      if_pos rfl]
    simp [String.toList_append]

/-- The first word of a directive ends at a gap or at the semicolon. -/
theorem exists_first_word {word : String} (h : configWords.Spaced body (word :: words)) :
    ∃ c rest, (c = ' ' ∨ c = '\t' ∨ c = ';') ∧ body ++ [';'] = word.toList ++ c :: rest := by
  have hgap : ∀ {c}, configWords.isGap c = true → c = ' ' ∨ c = '\t' ∨ c = ';' := by
    intro c hc
    obtain rfl | rfl : c = ' ' ∨ c = '\t' := by simpa [configWords] using hc
    · exact .inl rfl
    · exact .inr (.inl rfl)
  cases h with
  | @last _ gap _ hblank =>
      cases gap with
      | nil => exact ⟨';', [], .inr (.inr rfl), by simp⟩
      | cons c gap =>
          exact ⟨c, gap ++ [';'], hgap (hblank c List.mem_cons_self), by simp⟩
  | @cons _ gap rest _ _ hblank hne _ =>
      cases gap with
      | nil => exact absurd rfl hne
      | cons c gap =>
          exact ⟨c, gap ++ rest ++ [';'], hgap (hblank c List.mem_cons_self), by simp⟩

/-- The first piece of a directive is its first word. -/
theorem head?_pieces {word : String} (h : configWords.Spaced body (word :: words)) :
    (pieces (String.ofList (body ++ [';']))).head? = some word := by
  obtain ⟨c, rest, hc, heq⟩ := exists_first_word h
  have hplain : ∀ d ∈ word.toList, (d = ' ' || d = '\t' || d = ';') = false := by
    intro d hd
    obtain ⟨h1, h2, h3, -⟩ := configWords_isWord ((h.word List.mem_cons_self).isWord d hd)
    simp [h1, h2, h3]
  have hsep : (c = ' ' || c = '\t' || c = ';') = true := by
    obtain rfl | rfl | rfl := hc <;> decide
  rw [pieces, String.toList_ofList, heq, List.splitOnP_append_cons_of_forall_mem hplain c hsep]
  simp

/-- What the adapter sees of a simple `server` directive. -/
theorem isSome_serverLine (host : String) (h : SimpleLine line ("server" :: words)) :
    (serverLine host (Data.trim line)).isSome = isServer host (.item ("server" :: words)) ∧
      (Data.trim line).toList.head? ≠ some '}' := by
  obtain ⟨indent, body, tail, hindent, hbody, htail, hline⟩ := h
  have htrim : Data.trim line = String.ofList (body ++ [';']) := by
    rw [Data.trim_eq, SimpleLine.dropWhile hindent hbody hline, trimEnd_simple htail]
  refine ⟨?_, ?_⟩
  · cases hbody with
    | @last _ gap _ hgap =>
        have hafter : Data.stripPrefix (Data.trim line) "server" =
            some (String.ofList (gap ++ [';'])) := by
          rw [htrim, List.append_assoc, String.ofList_append, String.ofList_toList]
          exact Data.stripPrefix_append _ _
        have hempty : Data.trim (String.ofList (gap ++ [';'])) = ";" := by
          rw [Data.trim_eq, String.toList_ofList, Data.dropWhile_whitespace hgap.whitespace rfl
            isWhitespace_semicolon]
          rfl
        have hnone : (pieces ";").head?.getD "" = "" := by decide
        rw [serverLine, hafter]
        simp only [hempty, hnone]
        rfl
    | @cons _ gap rest _ _ hgap _ hrest =>
        have hafter : Data.stripPrefix (Data.trim line) "server" =
            some (String.ofList (gap ++ (rest ++ [';']))) := by
          rw [htrim, List.append_assoc, List.append_assoc, String.ofList_append,
            String.ofList_toList]
          exact Data.stripPrefix_append _ _
        obtain ⟨c, hc, hword⟩ := hrest.exists_head
        have hrestTrim : Data.trim (String.ofList (gap ++ (rest ++ [';']))) =
            String.ofList (rest ++ [';']) := by
          rw [Data.trim_eq, String.toList_ofList, Data.dropWhile_whitespace hgap.whitespace
            (by rw [List.head?_append, hc]; rfl) (configWords.visible hword),
            Data.trimEnd_of_visible isWhitespace_semicolon]
        obtain ⟨address, params, rfl⟩ : ∃ address params, words = address :: params := by
          cases hrest with
          | last => exact ⟨_, _, rfl⟩
          | cons => exact ⟨_, _, rfl⟩
        have hne : address ≠ "" := by
          rintro rfl
          exact (hrest.word List.mem_cons_self).nonempty rfl
        rw [serverLine, hafter]
        simp only [hrestTrim, head?_pieces hrest, Option.getD_some, isServer]
        by_cases hhost : hostPart address = host
        · simp [hne, hhost]
        · simp [hhost]
  · obtain ⟨c, hc, hword⟩ := hbody.exists_head
    rw [htrim, String.toList_ofList, List.head?_append, hc]
    intro hbrace
    cases hbrace
    exact (configWords_isWord hword).2.2.2 rfl

end Simple

/-! ## Locating the directive -/

section Locate

variable {r : BlockReader} {upstream host : String}

theorem locateFrom_before {before : List String}
    (hbefore : ∀ line ∈ before, opensUpstream upstream (Data.trim line) = false) (index : Nat)
    (rest : List String) : locateFrom upstream host false index (before ++ rest) =
      locateFrom upstream host false (index + before.length) rest := by
  induction before generalizing index with
  | nil => rfl
  | cons line before ih =>
      rw [List.cons_append, locateFrom, hbefore line List.mem_cons_self,
        ih fun l hl => hbefore l (List.mem_cons_of_mem line hl), List.length_cons,
        Nat.add_right_comm, Nat.add_assoc]

/-- A line of the block that is not the host's is passed over. -/
theorem locateFrom_skip {line : String} (hhead : (Data.trim line).toList.head? ≠ some '}')
    (hnone : serverLine host (Data.trim line) = none) (index : Nat) (rest : List String) :
    locateFrom upstream host true index (line :: rest) =
      locateFrom upstream host true (index + 1) rest := by
  simp only [locateFrom, if_neg hhead, hnone]

/-- The lines of a group that holds no `server` directive are passed over. -/
theorem locateFrom_group {group : List String}
    (hlines : ∀ line ∈ group, Data.stripPrefix (Data.trim line) "server" = none ∧
      (Data.trim line).toList.head? ≠ some '}') (index : Nat) (rest : List String) :
    locateFrom upstream host true index (group ++ rest) =
      locateFrom upstream host true (index + group.length) rest := by
  induction group generalizing index with
  | nil => rfl
  | cons line group ih =>
      obtain ⟨hother, hhead⟩ := hlines line List.mem_cons_self
      have hnone : serverLine host (Data.trim line) = none := by
        rw [serverLine, hother]
      rw [List.cons_append, locateFrom_skip hhead hnone,
        ih fun l hl => hlines l (List.mem_cons_of_mem line hl), List.length_cons,
        Nat.add_right_comm, Nat.add_assoc]

/-- The first directive of a host in a block, and what stands before and after it. -/
structure FirstServer (r : BlockReader) (upstream host : String) (block : List String)
    (events : List BlockEvent) where
  before : List String
  line : String
  after : List String
  words : List String
  met : List BlockEvent
  remaining : List BlockEvent
  block_eq : block = before ++ line :: after
  events_eq : events = met ++ .item words :: remaining
  simple : SimpleLine line words
  server : isServer host (.item words) = true
  readsBefore : BlockLines r before met
  readsAfter : BlockLines r after remaining
  first : ∀ event ∈ met, isServer host event = false
  located : ∀ index rest, ∃ membership, locateFrom upstream host true index (block ++ rest) =
    some (index + before.length, membership)

/-- The adapter finds the first directive that nginx reads for a host, or there is none. -/
theorem BlockLines.locate {block : List String} {events : List BlockEvent}
    (h : BlockLines r block events) :
    ((∀ event ∈ events, isServer host event = false) ∧
      ∀ index rest, locateFrom upstream host true index (block ++ rest) =
        locateFrom upstream host true (index + block.length) rest) ∨
    Nonempty (FirstServer r upstream host block events) := by
  induction h with
  | nil => exact .inl ⟨fun _ h => absurd h List.not_mem_nil, fun _ _ => rfl⟩
  | @server line words lines events hline hrest ih =>
      obtain ⟨hsome, hhead⟩ := isSome_serverLine host hline
      cases hserver : isServer host (.item ("server" :: words)) with
      | true =>
          rw [hserver] at hsome
          obtain ⟨membership, hmembership⟩ := Option.isSome_iff_exists.mp hsome
          refine .inr ⟨⟨[], line, lines, _, [], events, rfl, rfl, hline, hserver, .nil, hrest,
            fun _ h => absurd h List.not_mem_nil, fun index rest => ⟨membership, ?_⟩⟩⟩
          simp only [List.cons_append, locateFrom, if_neg hhead, hmembership]
          rfl
      | false =>
          have hnone : serverLine host (Data.trim line) = none := by
            rw [hserver] at hsome
            simpa using hsome
          obtain ⟨hevents, hpassed⟩ | ⟨⟨found⟩⟩ := ih
          · refine .inl ⟨List.forall_mem_cons.mpr ⟨hserver, hevents⟩, fun index rest => ?_⟩
            rw [List.cons_append, locateFrom_skip hhead hnone, hpassed, List.length_cons,
              Nat.add_right_comm, Nat.add_assoc]
          · refine .inr ⟨{ found with
              before := line :: found.before
              met := .item ("server" :: words) :: found.met
              block_eq := congrArg (line :: ·) found.block_eq
              events_eq := congrArg (BlockEvent.item ("server" :: words) :: ·) found.events_eq
              readsBefore := .server hline found.readsBefore
              first := List.forall_mem_cons.mpr ⟨hserver, found.first⟩
              located := fun index rest => ?_ }⟩
            obtain ⟨membership, hfound⟩ := found.located (index + 1) rest
            refine ⟨membership, ?_⟩
            rw [List.cons_append, locateFrom_skip hhead hnone, hfound, List.length_cons,
              Nat.add_right_comm, Nat.add_assoc]
  | @other group lines met events hgroup hmet hlines hrest ih =>
      have hothers : ∀ event ∈ met, isServer host event = false := by
        intro event hevent
        obtain ⟨words, rfl, hname⟩ := hmet event hevent
        match words, hname with
        | [], _ => rfl
        | [_], _ => rfl
        | name :: address :: _, hname =>
            have hne : name ≠ "server" := fun h => hname (by rw [h]; rfl)
            simp [isServer, hne]
      obtain ⟨hevents, hpassed⟩ | ⟨⟨found⟩⟩ := ih
      · refine .inl ⟨fun event hevent => ?_, fun index rest => ?_⟩
        · exact (List.mem_append.mp hevent).elim (hothers event) (hevents event)
        · rw [List.append_assoc, locateFrom_group hlines, hpassed, List.length_append,
            Nat.add_assoc]
      · refine .inr ⟨{ found with
          before := group ++ found.before
          met := met ++ found.met
          block_eq := (congrArg (group ++ ·) found.block_eq).trans (List.append_assoc ..).symm
          events_eq := (congrArg (met ++ ·) found.events_eq).trans (List.append_assoc ..).symm
          readsBefore := .other hgroup hmet hlines found.readsBefore
          first := fun event hevent =>
            (List.mem_append.mp hevent).elim (hothers event) (found.first event)
          located := fun index rest => ?_ }⟩
        obtain ⟨membership, hfound⟩ := found.located (index + group.length) rest
        refine ⟨membership, ?_⟩
        rw [List.append_assoc, locateFrom_group hlines, hfound, List.length_append,
          Nat.add_assoc]

end Locate

/-! ## Reading the edited configuration -/

section Read

variable {r : BlockReader} {upstream host text : String}

/-- A simple line is read as its directive. -/
theorem SimpleLine.whole (hr : ReadsConfig r) {line : String} {words : List String}
    (h : SimpleLine line words) : r.Whole (line.toList ++ ['\n']) [.item words] := by
  obtain ⟨indent, body, tail, hindent, hbody, htail, hline⟩ := h
  have htailRead : r.Whole (tail ++ ['\n']) [] := by
    refine BlockReader.whole_of_forall fun c hc => hr.blank c ?_
    obtain hc | hc := List.mem_append.mp hc
    · exact .inr (htail c hc)
    · exact .inl (List.mem_singleton.mp hc)
  have hread := (hr.directive hindent hbody).append htailRead
  rw [List.append_nil] at hread
  rw [BlockReader.Whole, hline]
  simpa using hread

/-- The lines of a block are read as whole directives. -/
theorem BlockLines.whole (hr : ReadsConfig r) {lines : List String} {events : List BlockEvent}
    (h : BlockLines r lines events) : r.Whole (written lines) events := by
  induction h with
  | nil => exact .nil _
  | server hline _ ih =>
      rw [written_cons]
      exact (hline.whole hr).append ih
  | other hgroup _ _ _ ih =>
      rw [written_append]
      exact hgroup.append ih

theorem BlockLines.items {lines : List String} {events : List BlockEvent}
    (h : BlockLines r lines events) : ∀ event ∈ events, ∃ words, event = .item words := by
  induction h with
  | nil => exact fun _ h => absurd h List.not_mem_nil
  | server _ _ ih => exact List.forall_mem_cons.mpr ⟨⟨_, rfl⟩, ih⟩
  | other _ hmet _ _ ih =>
      intro event hevent
      obtain hevent | hevent := List.mem_append.mp hevent
      · obtain ⟨words, rfl, -⟩ := hmet event hevent
        exact ⟨words, rfl⟩
      · exact ih event hevent

namespace Layout

/-- The lines of a configuration with another block in place of the upstream's. -/
def linesWith (layout : Layout r upstream text) (block : List String) : List String :=
  layout.before ++ layout.opening :: (block ++ layout.closing :: layout.after)

/-- Whatever whole directives are in the block, the rest is read as it was. -/
theorem exists_reads (layout : Layout r upstream text) (hr : ReadsConfig r) :
    ∃ before after, ∀ block events, r.Whole (written block) events →
      (r.run r.start (written (layout.linesWith block))).1 =
        before ++ .opens (upstreamHeader upstream) :: (events ++ .closes :: after) := by
  obtain ⟨indent, rest, hindent, hclosing⟩ := layout.closes
  have hblank : r.Whole indent [] :=
    BlockReader.whole_of_forall fun c hc => hr.blank c (.inr (hindent c hc))
  have hclose : r.Reads r.start ['}'] [.closes] r.start :=
    .cons hr.closing (.nil _)
  have hbefore := BlockReader.reads_run r.start (written layout.before)
  rw [layout.reached] at hbefore
  have hrest := BlockReader.reads_run r.start (rest ++ ['\n'] ++ written layout.after)
  refine ⟨(r.run r.start (written layout.before)).1,
    (r.run r.start (rest ++ ['\n'] ++ written layout.after)).1, fun block events hevents => ?_⟩
  have hread := hbefore.append
    (layout.opens.append (hevents.append (hblank.append (hclose.append hrest))))
  have hwritten : written (layout.linesWith block) =
      written layout.before ++ (layout.opening.toList ++ ['\n'] ++ (written block ++
        (indent ++ (['}'] ++ (rest ++ ['\n'] ++ written layout.after))))) := by
    simp [linesWith, written_append, written_cons, hclosing]
  rw [hwritten, hread]
  simp

end Layout

/-- An edited configuration is read where its lines are. -/
theorem read_intercalate {lines : List String} (hne : lines ≠ []) :
    r.read ("\n".intercalate lines ++ "\n") = (r.run r.start (written lines)).1 := by
  rw [BlockReader.read, toList_intercalate_newline hne]

/-- What is visible at the start of a text stays there when the text is trimmed. -/
theorem head?_trim_closing {closing : String} {indent rest : List Char}
    (hindent : configWords.Gap indent) (hclosing : closing.toList = indent ++ '}' :: rest) :
    (Data.trim closing).toList.head? = some '}' := by
  have hdrop : closing.toList.dropWhile Data.isWhitespace = '}' :: rest := by
    rw [hclosing]
    exact Data.dropWhile_whitespace hindent.whitespace rfl (by decide)
  obtain ⟨gap, hgap, hends⟩ := Data.exists_eq_trimEnd_append (String.ofList ('}' :: rest))
  rw [Data.trim_eq, hdrop]
  rw [String.toList_ofList] at hends
  cases htrim : (Data.trimEnd (String.ofList ('}' :: rest))).toList with
  | nil =>
      rw [htrim, List.nil_append] at hends
      have hbrace := hgap '}' (by rw [← hends]; exact List.mem_cons_self)
      cases hbrace
  | cons c more =>
      rw [htrim] at hends
      rw [(List.cons.inj hends).1]
      rfl

/-- The search goes on in the block. -/
theorem Layout.locate_eq (layout : Layout r upstream text) :
    locate (Data.lines text) upstream host =
      locateFrom upstream host true (layout.before.length + 1)
        (layout.block ++ layout.closing :: layout.after) := by
  rw [locate, layout.lines, locateFrom_before layout.first, locateFrom, layout.recognised,
    Nat.zero_add]

theorem modify_append {α : Type} (f : α → α) (before : List α) (x : α) (after : List α) :
    (before ++ x :: after).modify before.length f = before ++ f x :: after := by
  rw [List.modify_eq_take_cons_drop (by simp)]
  simp

/-- In a configuration that is laid out in lines, the adapter finds no directive of a host
where nginx reads none. Where nginx reads one, the rewritten text is read with that directive
marked. -/
theorem Layout.edited (layout : Layout r upstream text) (hr : ReadsConfig r)
    (hone : (serversOf upstream host (r.read text)).length ≤ 1)
    (haddressed : Addressed upstream host (r.read text)) :
    (serversOf upstream host (r.read text) = [] ∧
      locate (Data.lines text) upstream host = none) ∨
    (serversOf upstream host (r.read text) ≠ [] ∧ ∃ found,
      locate (Data.lines text) upstream host = some found ∧
      r.read (rewritten (Data.lines text) found.1 true) =
        markDown upstream host (r.read text)) := by
  obtain ⟨events, hblock⟩ := layout.inside
  obtain ⟨before, after, hread⟩ := layout.exists_reads hr
  have htext : r.read text =
      before ++ .opens (upstreamHeader upstream) :: (events ++ .closes :: after) := by
    rw [← layout.lineEnds, layout.lines]
    exact hread _ _ (hblock.whole hr)
  have honce := layout.once
  rw [htext] at honce
  simp only [List.count_append, List.count_cons_self, List.count_cons, beq_iff_eq,
    reduceCtorEq, if_false] at honce
  have hbefore : .opens (upstreamHeader upstream) ∉ before :=
    List.count_eq_zero.mp (by omega)
  have hafter : .opens (upstreamHeader upstream) ∉ after :=
    List.count_eq_zero.mp (by omega)
  have hservers : serversOf upstream host (r.read text) = events.filter (isServer host) := by
    rw [htext]
    exact Data.filterWithin_block hbefore hblock.items hafter rfl
  rw [Addressed, hservers] at haddressed
  rw [hservers] at hone ⊢
  have hcases : _ ∨ Nonempty (FirstServer r upstream host layout.block events) := hblock.locate
  obtain ⟨hnone, hpassed⟩ | ⟨⟨found⟩⟩ := hcases
  · refine .inl ⟨List.filter_eq_nil_iff.mpr fun e he => by simp [hnone e he], ?_⟩
    obtain ⟨indent, rest, hindent, hclosing⟩ := layout.closes
    rw [layout.locate_eq, hpassed, locateFrom]
    exact if_pos (head?_trim_closing hindent hclosing)
  · obtain ⟨lines, line, lines', words, met, met', hlines, hevents, hline, hserver, hreads,
      hreads', hfirst, hlocated⟩ := found
    obtain ⟨membership, hlocated⟩ :=
      hlocated (layout.before.length + 1) (layout.closing :: layout.after)
    rw [hevents, List.filter_append, List.filter_cons_of_pos hserver] at hone ⊢
    have hlast : ∀ event ∈ met', isServer host event = false := by
      intro event hevent
      rw [List.length_append, List.length_cons] at hone
      have hempty : met'.filter (isServer host) = [] := List.length_eq_zero_iff.mp (by omega)
      simpa using List.filter_eq_nil_iff.mp hempty event hevent
    refine .inr ⟨by simp, _, layout.locate_eq.trans hlocated, ?_⟩
    have hedited : (Data.lines text).modify (layout.before.length + 1 + lines.length)
        (setDown true) = layout.linesWith (lines ++ setDown true line :: lines') := by
      have hmodify := modify_append (setDown true)
        (layout.before ++ layout.opening :: lines) line
        (lines' ++ layout.closing :: layout.after)
      have hindex : layout.before.length + 1 + lines.length =
          (layout.before ++ layout.opening :: lines).length := by
        rw [List.length_append, List.length_cons]
        omega
      rw [← hindex] at hmodify
      rw [layout.lines, hlines, Layout.linesWith]
      simpa using hmodify
    have hnew : r.Whole (written (lines ++ setDown true line :: lines'))
        (met ++ withDown (.item words) :: met') := by
      have hmem : .item words ∈ events.filter (isServer host) := by
        rw [hevents, List.filter_append, List.filter_cons_of_pos hserver]
        exact List.mem_append_right _ List.mem_cons_self
      rw [withDown_eq hserver (haddressed _ hmem), written_append, written_cons]
      exact (hreads.whole hr).append ((hline.setDown.whole hr).append (hreads'.whole hr))
    have hsame : ∀ others : List BlockEvent, (∀ event ∈ others, isServer host event = false) →
        others.map (fun event => if isServer host event then withDown event else event) =
          others := by
      intro others hothers
      rw [List.map_congr_left fun event hevent => if_neg (by simp [hothers event hevent])]
      exact List.map_id' others
    have hmarked : events.map (fun event =>
        if isServer host event then withDown event else event) =
        met ++ withDown (.item words) :: met' := by
      rw [hevents, List.map_append, List.map_cons, hsame _ hfirst, hsame _ hlast,
        if_pos hserver]
    rw [rewritten, hedited, read_intercalate (by simp [Layout.linesWith]), hread _ _ hnew,
      markDown, htext, Data.mapWithin_block hbefore hblock.items hafter rfl, hmarked]

end Read

/-! ## Draining -/

/-- A drain that succeeds leaves a text that is read with the directives of its host marked. -/
def Marks (r : BlockReader) (lb : NginxLb) (ctx : AdapterCtx) (host : HostId)
    (path upstream text : String) (o : DiskOracle) (s : Disk) : Prop :=
  ∀ sched prior, ((lb.drain ctx host).exec (disk o) sched s).value = .ok prior →
    ∃ new, ((lb.drain ctx host).exec (disk o) sched s).final.text path = some new ∧
      r.read new = markDown upstream (NginxLb.hostToken ctx host) (r.read text)

/-- A drain returns an error and changes nothing. -/
def Refused (lb : NginxLb) (ctx : AdapterCtx) (host : HostId) (o : DiskOracle) (s : Disk) :
    Prop :=
  ∀ sched, ((lb.drain ctx host).exec (disk o) sched s).final = s ∧
    ∃ error, ((lb.drain ctx host).exec (disk o) sched s).value = .error error

section Drain

variable {lb : NginxLb} {ctx : AdapterCtx} {host : HostId} {path upstream text : String}
  {o : DiskOracle} {s : Disk}

/-- A drain that succeeds has rewritten the line that it found. Where there is none, it
returns an error and changes nothing. -/
theorem drain_spec (hpath : NginxLb.stringSetting ctx "config_path" = some path)
    (hupstream : NginxLb.stringSetting ctx "upstream" = some upstream)
    (htext : s.text path = some text) :
    wp (disk o) Eq Guarantee.any (lb.drain ctx host)
      (fun result s' =>
        (∀ prior, result = .ok prior → ∃ found,
          locate (Data.lines text) upstream (NginxLb.hostToken ctx host) = some found ∧
          s'.text path = some (rewritten (Data.lines text) found.1 true)) ∧
        (locate (Data.lines text) upstream (NginxLb.hostToken ctx host) = none →
          s' = s ∧ ∃ error, result = .error error)) s := by
  refine wp_post ?_ (apply_writes hpath hupstream htext "drain")
  rintro result s' ⟨hwritten, hrefused⟩
  refine ⟨fun prior hprior => ?_, hrefused⟩
  obtain ⟨index, hlocate, hnew⟩ := hwritten prior hprior
  exact ⟨(index, prior), hlocate, hnew⟩

/-- Where the adapter finds no line, it refuses. -/
theorem refused_of_locate (hpath : NginxLb.stringSetting ctx "config_path" = some path)
    (hupstream : NginxLb.stringSetting ctx "upstream" = some upstream)
    (htext : s.text path = some text)
    (hnone : locate (Data.lines text) upstream (NginxLb.hostToken ctx host) = none) :
    Refused lb ctx host o s :=
  fun sched => (wp_exec (drain_spec hpath hupstream htext) sched).1.2 hnone

/-- However nginx reads beyond what is assumed of it, and whatever stands around an upstream
that is laid out in lines: a drain that succeeds leaves a configuration that is read as it was,
but for `down` among the parameters of its host's directive in that upstream. Where nginx reads
no directive of the host there, or where no line opens the upstream, the drain returns an error
and changes nothing. -/
theorem drain_marks {r : BlockReader} (hr : ReadsConfig r) (lb : NginxLb) (ctx : AdapterCtx)
    (host : HostId) {path upstream text : String} (o : DiskOracle) (s : Disk)
    (hpath : NginxLb.stringSetting ctx "config_path" = some path)
    (hupstream : NginxLb.stringSetting ctx "upstream" = some upstream)
    (htext : s.text path = some text) :
    (∀ _ : Layout r upstream text,
      (serversOf upstream (NginxLb.hostToken ctx host) (r.read text)).length ≤ 1 →
      Addressed upstream (NginxLb.hostToken ctx host) (r.read text) →
      Marks r lb ctx host path upstream text o s ∧
      (serversOf upstream (NginxLb.hostToken ctx host) (r.read text) = [] →
        Refused lb ctx host o s)) ∧
    ((∀ line ∈ Data.lines text, opensUpstream upstream (Data.trim line) = false) →
      Refused lb ctx host o s) := by
  refine ⟨fun layout hone haddressed => ?_, fun hunopened => ?_⟩
  · obtain ⟨hempty, hnone⟩ | ⟨hservers, found, hfound, hread⟩ :=
      layout.edited hr hone haddressed
    · have hrefused : Refused lb ctx host o s :=
        refused_of_locate hpath hupstream htext hnone
      refine ⟨fun sched prior hprior => ?_, fun _ => hrefused⟩
      obtain ⟨-, error, herror⟩ := hrefused sched
      cases hprior.symm.trans herror
    · refine ⟨fun sched prior hprior => ?_, fun hempty => absurd hempty hservers⟩
      obtain ⟨found', hfound', hnew⟩ :=
        (wp_exec (drain_spec hpath hupstream htext) sched).1.1 prior hprior
      cases hfound.symm.trans hfound'
      exact ⟨_, hnew, hread⟩
  · refine refused_of_locate hpath hupstream htext ?_
    have hpassed := @locateFrom_before upstream (NginxLb.hostToken ctx host) _ hunopened 0 []
    rw [List.append_nil] at hpassed
    rw [locate, hpassed, locateFrom]

end Drain

/-! ## A reader of plain configurations -/

/-- What a reader keeps between two characters: the words of the directive so far, the word it
is in, latest character first, and whether it is in a comment. -/
structure PlainState where
  words : List String
  word : Option (List Char)
  comment : Bool

/-- Between two directives. -/
def PlainState.fresh : PlainState where
  words := []
  word := none
  comment := false

/-- The words of a directive that ends here. -/
def PlainState.ended (s : PlainState) : List String :=
  match s.word with
  | none => s.words
  | some word => s.words ++ [String.ofList word.reverse]

/-- A reader of blocks, comments and words without quotes, escapes and variables. -/
def plainReader : BlockReader where
  State := PlainState
  start := .fresh
  step s c :=
    if s.comment then ([], { s with comment := c ≠ '\n' })
    else if [' ', '\t', '\r', '\n'].contains c then
      ([], { words := s.ended, word := none, comment := false })
    else if c = ';' then ([.item s.ended], .fresh)
    else if c = '{' then ([.opens s.ended], .fresh)
    else if c = '}' && s.word.isNone then ([.closes], .fresh)
    else if c = '#' && s.word.isNone then ([], { s with comment := true })
    else ([], { s with word := some (c :: s.word.getD []) })

/-- A character of a word is put to the word. -/
theorem plainReader_word {c : Char} (hc : configWords.isWord c = true) (words : List String)
    (word : Option (List Char)) :
    plainReader.step ⟨words, word, false⟩ c = ([], ⟨words, some (c :: word.getD []), false⟩) := by
  obtain ⟨hspace, htab, hsemicolon, hclosing⟩ := configWords_isWord hc
  have hopening : c ≠ '{' := by
    rintro rfl
    revert hc
    decide
  have hcomment : c ≠ '#' := by
    rintro rfl
    revert hc
    decide
  have hreturn : c ≠ '\r' := by
    rintro rfl
    revert hc
    decide
  have hnewline : c ≠ '\n' := by
    rintro rfl
    revert hc
    decide
  simp [plainReader, hspace, htab, hsemicolon, hclosing, hopening, hcomment, hreturn, hnewline]

theorem plainReader_blank {c : Char} (hc : c = '\n' ∨ configWords.isGap c = true)
    (s : PlainState) (hs : s.comment = false) :
    plainReader.step s c = ([], ⟨s.ended, none, false⟩) := by
  have hblank : [' ', '\t', '\r', '\n'].contains c = true := by
    obtain rfl | hgap := hc
    · decide
    · obtain rfl | rfl : c = ' ' ∨ c = '\t' := by simpa [configWords] using hgap
      · decide
      · decide
  simp only [plainReader, hs, hblank, if_true]
  rfl

/-- A gap ends a word. -/
theorem plainReader_gap {gap : List Char} (hgap : configWords.Gap gap) (words : List String) :
    plainReader.Reads ⟨words, none, false⟩ gap [] ⟨words, none, false⟩ := by
  induction gap with
  | nil => exact .nil _
  | cons c gap ih =>
      exact .cons (plainReader_blank (.inr (hgap c List.mem_cons_self)) _ rfl)
        (ih fun d hd => hgap d (List.mem_cons_of_mem c hd))

theorem plainReader_letters {letters : List Char}
    (hletters : ∀ c ∈ letters, configWords.isWord c = true) (words : List String)
    (word : List Char) :
    plainReader.Reads ⟨words, some word, false⟩ letters []
      ⟨words, some (letters.reverse ++ word), false⟩ := by
  induction letters generalizing word with
  | nil => exact .nil _
  | cons c letters ih =>
      rw [List.reverse_cons, List.append_assoc]
      exact .cons (plainReader_word (hletters c List.mem_cons_self) words (some word))
        (ih (fun d hd => hletters d (List.mem_cons_of_mem c hd)) (c :: word))

/-- A word is read up to its last character. -/
theorem plainReader_whole_word {word : String} (hword : configWords.Word word)
    (words : List String) :
    plainReader.Reads ⟨words, none, false⟩ word.toList []
      ⟨words, some word.toList.reverse, false⟩ := by
  obtain ⟨c, letters, hcons⟩ := List.exists_cons_of_ne_nil hword.nonempty
  have hisWord := hword.isWord
  rw [hcons] at hisWord ⊢
  rw [List.reverse_cons]
  exact .cons (plainReader_word (hisWord c List.mem_cons_self) words none)
    (plainReader_letters (fun d hd => hisWord d (List.mem_cons_of_mem c hd)) words [c])

/-- A gap after a word ends the word. -/
theorem plainReader_word_gap {word : String} {c : Char} {gap : List Char}
    (hword : configWords.Word word) (hgap : configWords.Gap (c :: gap)) (before : List String) :
    plainReader.Reads ⟨before, none, false⟩ (word.toList ++ c :: gap) []
      ⟨before ++ [word], none, false⟩ := by
  have hended : plainReader.step ⟨before, some word.toList.reverse, false⟩ c =
      ([], ⟨before ++ [word], none, false⟩) := by
    rw [plainReader_blank (.inr (hgap c List.mem_cons_self)) _ rfl, PlainState.ended]
    simp
  exact (plainReader_whole_word hword before).append (.cons hended
    (plainReader_gap (fun d hd => hgap d (List.mem_cons_of_mem c hd)) (before ++ [word])))

theorem plainReader_semicolon (s : PlainState) (hs : s.comment = false) :
    plainReader.Reads s [';'] [.item s.ended] .fresh := by
  simp [BlockReader.Reads, BlockReader.run, plainReader, hs]

/-- Words and a semicolon are read as a directive. -/
theorem plainReader_directive {body : List Char} {words : List String}
    (h : configWords.Spaced body words) (before : List String) :
    plainReader.Reads ⟨before, none, false⟩ (body ++ [';']) [.item (before ++ words)] .fresh := by
  induction h generalizing before with
  | @last word gap hword hgap =>
      cases gap with
      | nil =>
          have hread := (plainReader_whole_word hword before).append
            (plainReader_semicolon ⟨before, some word.toList.reverse, false⟩ rfl)
          rw [List.append_nil]
          simpa [PlainState.ended] using hread
      | cons c gap =>
          exact (plainReader_word_gap hword hgap before).append
            (plainReader_semicolon ⟨before ++ [word], none, false⟩ rfl)
  | @cons word gap rest words hword hgap hne _ ih =>
      obtain ⟨c, gap, rfl⟩ := List.exists_cons_of_ne_nil hne
      have hread := (plainReader_word_gap hword hgap before).append (ih (before ++ [word]))
      rw [← List.append_assoc word.toList, List.append_assoc (word.toList ++ c :: gap)]
      simpa using hread

/-- The reader of plain configurations is a way to read as nginx does. -/
theorem plainReader_reads : ReadsConfig plainReader where
  blank _ hc := plainReader_blank hc .fresh rfl
  directive hindent hbody := (plainReader_gap hindent []).append (plainReader_directive hbody [])
  closing := rfl

theorem gap_blanks (n : Nat) : configWords.Gap (List.replicate n ' ') :=
  fun c hc => by
    rw [List.eq_of_mem_replicate hc]
    exact configWords.space

/-- An upstream with two hosts. -/
def twoHosts : String :=
  "upstream shop \x7b\n  server web:80;\n  server api:80;\n\x7d\n"

theorem simpleLine_address {address : String} (h : configWords.Word address) :
    SimpleLine ("  server " ++ address ++ ";") ["server", address] := by
  have hserver : configWords.Word "server" := .of_all (by decide) (by decide)
  refine ⟨[' ', ' '], _, [], gap_blanks 2,
    .cons hserver (gap_blanks 1) (by simp) (.last h (gap_blanks 0)), gap_blanks 0, ?_⟩
  simp

/-- Its layout. -/
def twoHostsLayout : Layout plainReader "shop" twoHosts where
  before := []
  opening := "upstream shop \x7b"
  block := ["  server " ++ "web:80" ++ ";", "  server " ++ "api:80" ++ ";"]
  closing := "\x7d"
  after := []
  lines := by decide +kernel
  lineEnds := by decide +kernel
  reached := rfl
  first := fun _ h => absurd h List.not_mem_nil
  opens := rfl
  recognised := by decide +kernel
  inside := ⟨_, .server (simpleLine_address (.of_all (by decide) (by decide)))
    (.server (simpleLine_address (.of_all (by decide) (by decide))) .nil)⟩
  closes := ⟨[], [], gap_blanks 0, rfl⟩
  once := by decide +kernel

theorem drain_marks_web :
    (((NginxLb.mk "nginx" 1).drain shopPool ⟨"web"⟩).exec (disk soundHost) []
      (diskOf "/etc/pool.conf" twoHosts)).value.toOption.isSome = true ∧
    Marks plainReader (NginxLb.mk "nginx" 1) shopPool ⟨"web"⟩ "/etc/pool.conf" "shop" twoHosts
      soundHost (diskOf "/etc/pool.conf" twoHosts) :=
  ⟨by decide +kernel,
    ((drain_marks plainReader_reads (NginxLb.mk "nginx" 1) shopPool ⟨"web"⟩ soundHost
      (diskOf "/etc/pool.conf" twoHosts) (by decide +kernel) (by decide +kernel)
      (by simp [diskOf])).1 twoHostsLayout (by decide +kernel) (by decide +kernel)).1⟩

/-- A drain that succeeds and leaves a text that is read otherwise. -/
theorem not_marks {r : BlockReader} {lb : NginxLb} {ctx : AdapterCtx} {host : HostId}
    {path upstream text new : String} {o : DiskOracle} {s : Disk}
    (hdrain : (((lb.drain ctx host).exec (disk o) [] s).value.toOption.isSome,
      ((lb.drain ctx host).exec (disk o) [] s).final.text path) = (true, some new))
    (hread : r.read new ≠ markDown upstream (NginxLb.hostToken ctx host) (r.read text)) :
    ¬Marks r lb ctx host path upstream text o s := by
  intro hmarks
  obtain ⟨hok, hnew⟩ := Prod.mk.inj hdrain
  cases hvalue : ((lb.drain ctx host).exec (disk o) [] s).value with
  | error error =>
      rw [hvalue] at hok
      cases hok
  | ok prior =>
      obtain ⟨new', hnew', hread'⟩ := hmarks [] prior hvalue
      cases hnew.symm.trans hnew'
      exact hread hread'

/-- An upstream with two ports of a host, one with a comment behind a directive, and one in a
single line with another upstream after it. -/
def looseTexts : List String :=
  ["upstream shop \x7b\n  server web:80;\n  server web:81;\n\x7d\n",
    "upstream shop \x7b\n  server web:80; # the shop\n\x7d\n",
    "upstream shop \x7b server web:80; \x7d\nupstream other \x7b\n  server web:80;\n\x7d\n"]

/-- Of two ports the second stays up. Behind a comment the flag is part of the comment. After
an upstream in a single line the other upstream is edited. -/
theorem looseTexts_not_marked :
    ReadsConfig plainReader ∧ ∀ text ∈ looseTexts,
      ¬Marks plainReader (NginxLb.mk "nginx" 1) shopPool ⟨"web"⟩ "/etc/pool.conf" "shop" text
        soundHost (diskOf "/etc/pool.conf" text) := by
  refine ⟨plainReader_reads, ?_⟩
  rw [looseTexts, List.forall_mem_cons, List.forall_mem_cons, List.forall_mem_singleton]
  refine ⟨?_, ?_, ?_⟩
  · exact not_marks (show _ = (true, some
      "upstream shop \x7b\n  server web:80 down;\n  server web:81;\n\x7d\n") by
        decide +kernel) (by decide +kernel)
  · exact not_marks (show _ = (true, some
      "upstream shop \x7b\n  server web:80; # the shop down;\n\x7d\n") by
        decide +kernel) (by decide +kernel)
  · exact not_marks (show _ = (true, some ("upstream shop \x7b server web:80; \x7d\n" ++
      "upstream other \x7b\n  server web:80 down;\n\x7d\n")) by
        decide +kernel) (by decide +kernel)

end Fraisier.Lb
