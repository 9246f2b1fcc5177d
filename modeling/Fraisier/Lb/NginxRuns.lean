import Mathlib.Data.List.DropRight
import Fraisier.Data.Lines
import Fraisier.Lb.NginxFaults
import Fraisier.Lb.NginxLines

/-!
# Draining and reattaching, one after the other

Every operation reads the configuration that the one before it wrote, finds the line of its host
again and rewrites it. Read `runs_keep_pool` first: after any run of operations that succeed a
host is down when its last operation took it down, and every other line is the one it was.
-/

namespace Fraisier.Lb

open Fraisier.Core Fraisier.Effect
open Fraisier.Data (Alphabet)

/-! ## Configurations -/

theorem whitespace_of_gap {c : Char} (hc : (c == ' ' || c == '\t') = true) :
    Data.isWhitespace c = true := by
  obtain rfl | rfl : c = ' ' ∨ c = '\t' := by simpa using hc
  · decide
  · decide

theorem visible_of_word {c : Char} (hc : (!(Data.isWhitespace c || c == ';')) = true) :
    Data.isWhitespace c = false := by
  rw [Bool.not_eq_true', Bool.or_eq_false_iff] at hc
  exact hc.1

/-- The words of a `server` directive. Blanks separate them, and a semicolon ends the last. -/
def serverWords : Alphabet where
  isWord c := !(Data.isWhitespace c || c == ';')
  isGap c := c == ' ' || c == '\t'
  whitespace := whitespace_of_gap
  visible := visible_of_word
  space := rfl

theorem directiveWords_serverWords : DirectiveWords serverWords where
  blank h := by simpa [serverWords] using h
  noEnd := by decide

/-- A line that holds one `server` directive and nothing else. -/
def ServerLine (line address : String) (params : List String) : Prop :=
  ∃ indent body tail, (∀ c ∈ indent, Data.isWhitespace c = true) ∧
    serverWords.Spaced body ("server" :: address :: params) ∧
    (∀ c ∈ tail, Data.isWhitespace c = true) ∧ line.toList = indent ++ (body ++ ';' :: tail)

/-- Whether a line opens the block of an upstream, and whether it closes a block. -/
def role (upstream line : String) : Bool × Bool :=
  (opensUpstream upstream (Data.trim line), (Data.trim line).toList.head? = some '}')

/-- Which lines stand in the first block that is opened, by their roles. -/
def insideFrom : Bool → List (Bool × Bool) → List Bool
  | _, [] => []
  | false, (opens, _) :: rest => false :: insideFrom opens rest
  | true, (_, closes) :: rest =>
      if closes then List.replicate (rest.length + 1) false else true :: insideFrom true rest

/-- Which lines stand in the block of an upstream. -/
def inside (upstream : String) (lines : List String) : List Bool :=
  insideFrom false (lines.map (role upstream))

/-- The line at an index is the `server` directive of a host in an upstream. -/
structure Serves (upstream : String) (lines : List String) (host : String) (index : Nat)
    (address : String) (params : List String) : Prop where
  inside : (inside upstream lines)[index]? = some true
  line : ∃ raw, lines[index]? = some raw ∧ ServerLine raw address params
  host : hostPart address = host

/-- A configuration in which each `server` directive of an upstream is alone on its line and has
a host part that no other has. -/
structure Configuration (upstream : String) (lines : List String) : Prop where
  alone : ∀ (index : Nat) raw, (inside upstream lines)[index]? = some true →
    lines[index]? = some raw →
    Data.stripPrefix (Data.trim raw) "server" = none ∨
      ∃ address params, ServerLine raw address params
  distinct : ∀ {host index index' address address' params params'},
    Serves upstream lines host index address params →
      Serves upstream lines host index' address' params' → index = index'

/-- An address that is not a parameter too. -/
def PlainAddress (address : String) : Prop :=
  address ≠ "down" ∧ pieceWeight address = none

/-- The directive of a host in an upstream has a plain address. -/
def PlainHost (upstream : String) (lines : List String) (host : String) : Prop :=
  ∀ {index address params}, Serves upstream lines host index address params →
    PlainAddress address

/-- The membership that is in force by the parameters of a directive. -/
def inForce (params : List String) : LbMembership where
  state := if "down" ∈ params then .removed else .inPool
  weight := params.findSome? pieceWeight

/-- The parameters of a directive once its `down` flag is toggled. -/
def toggled (down : Bool) (params : List String) : List String :=
  params.filter (· ≠ "down") ++ if down then ["down"] else []

/-! ## Lines -/

section Lines

variable {line address : String} {params : List String}

theorem trim_withoutReturn (line : String) :
    Data.trim (Data.withoutReturn line) = Data.trim line := by
  obtain hsame | hreturn := Data.withoutReturn_cases line
  · rw [hsame]
  · have hwhite : ∀ c ∈ ['\r'], Data.isWhitespace c = true := by
      intro c hc
      rw [List.mem_singleton.mp hc]
      decide
    rw [Data.trim_eq, Data.trim_eq, hreturn, List.dropWhile_append]
    split
    next hempty =>
      rw [List.isEmpty_iff.mp hempty, List.dropWhile_cons_of_pos (by decide), List.dropWhile_nil]
    next => rw [Data.trimEnd_append hwhite]

theorem ServerLine.withoutReturn (h : ServerLine line address params) :
    ServerLine (Data.withoutReturn line) address params := by
  obtain hsame | hreturn := Data.withoutReturn_cases line
  · rwa [hsame]
  · obtain ⟨indent, body, tail, hindent, hbody, htail, hline⟩ := h
    rw [hreturn] at hline
    obtain rfl | ⟨tail, c, rfl⟩ := List.eq_nil_or_concat tail
    · rw [← List.append_assoc] at hline
      cases (List.append_inj' hline rfl).2
    · rw [List.concat_eq_append, ← List.cons_append, ← List.append_assoc, ← List.append_assoc]
        at hline
      refine ⟨indent, body, tail, hindent, hbody, fun d hd => htail d ?_, ?_⟩
      · rw [List.concat_eq_append]
        exact List.mem_append_left _ hd
      · rw [(List.append_inj' hline rfl).1, List.append_assoc]

theorem ServerLine.of_withoutReturn
    (h : ServerLine (Data.withoutReturn line) address params) : ServerLine line address params := by
  obtain hsame | hreturn := Data.withoutReturn_cases line
  · rwa [hsame] at h
  · obtain ⟨indent, body, tail, hindent, hbody, htail, hline⟩ := h
    refine ⟨indent, body, tail ++ ['\r'], hindent, hbody, fun c hc => ?_, ?_⟩
    · obtain hc | hc := List.mem_append.mp hc
      · exact htail c hc
      · rw [List.mem_singleton.mp hc]
        decide
    · rw [hreturn, hline]
      simp

theorem ServerLine.trim (h : ServerLine line address params) :
    ∃ body, Data.trim line = String.ofList (body ++ [';']) ∧
      serverWords.Spaced body ("server" :: address :: params) := by
  obtain ⟨indent, body, tail, hindent, hbody, htail, hline⟩ := h
  exact ⟨body, trim_line hindent hbody htail hline, hbody⟩

/-- A line holds one directive only. -/
theorem ServerLine.unique {address' : String} {params' : List String}
    (h : ServerLine line address params) (h' : ServerLine line address' params') :
    address = address' ∧ params = params' := by
  obtain ⟨body, htrim, hbody⟩ := h.trim
  obtain ⟨body', htrim', hbody'⟩ := h'.trim
  have hsame : body = body' := by
    have hchars := String.ofList_inj.mp (htrim.symm.trans htrim')
    exact List.append_cancel_right hchars
  have hwords := hbody.wordsFrom_eq
  rw [hsame, hbody'.wordsFrom_eq] at hwords
  simp only [List.cons.injEq, true_and] at hwords
  exact ⟨hwords.1.symm, hwords.2.symm⟩

/-- A `server` directive opens no upstream and closes no block. -/
theorem ServerLine.role_eq (h : ServerLine line address params) (upstream : String) :
    role upstream line = (false, false) := by
  obtain ⟨body, htrim, hbody⟩ := h.trim
  have hhead : (Data.trim line).toList.head? = some 's' := by
    cases hbody with
    | cons => rw [htrim, String.toList_ofList]; rfl
  have hopens : opensUpstream upstream (Data.trim line) = false := by
    have hnone : Data.stripPrefix (Data.trim line) "upstream" = none := by
      obtain ⟨rest, hrest⟩ := List.head?_eq_some_iff.mp hhead
      rw [Data.stripPrefix, hrest]
      rfl
    rw [opensUpstream, hnone]
  rw [role, hopens, hhead]
  rfl

/-- What the adapter sees of a `server` directive. -/
theorem ServerLine.serverLine_eq (h : ServerLine line address params) (token : String) :
    serverLine token (Data.trim line) =
      if hostPart address = token then some (membershipOf (address :: params)) else none := by
  obtain ⟨indent, body, tail, hindent, hbody, htail, hline⟩ := h
  exact Lb.serverLine_eq directiveWords_serverWords hindent hbody htail hline token

theorem membershipOf_plain (h : PlainAddress address) (params : List String) :
    membershipOf (address :: params) = inForce params := by
  have hdown : (address :: params).contains "down" = params.contains "down" := by
    simp [Ne.symm h.1]
  have hweight : (address :: params).findSome? pieceWeight = params.findSome? pieceWeight := by
    rw [List.findSome?_cons, h.2]
  rw [membershipOf, hdown, inForce]
  refine congr (congrArg LbMembership.mk ?_) hweight
  simp

/-- A directive with a plain address is rewritten as the same one with another flag. -/
theorem ServerLine.setDown (h : ServerLine line address params) (hplain : PlainAddress address)
    (down : Bool) : ServerLine (setDown down line) address (toggled down params) := by
  obtain ⟨indent, body, tail, hindent, hbody, htail, hline⟩ := h
  have hwords : ("server" :: address :: params).filter (· ≠ "down") ++
      (if down then ["down"] else []) = "server" :: address :: toggled down params := by
    simp [toggled, hplain.1]
  have hdown : serverWords.Word "down" := .of_all (by decide) (by decide)
  refine ⟨indent, _, [], hindent, Alphabet.Spaced.of_intercalate (by simp) ?_, by
    exact fun c hc => absurd hc List.not_mem_nil, ?_⟩
  · intro word hword
    rw [← hwords] at hword
    obtain hword | hword := List.mem_append.mp hword
    · exact hbody.word (List.mem_of_mem_filter hword)
    · split at hword
      · rw [List.mem_singleton.mp hword]
        exact hdown
      · cases hword
  · rw [setDown_eq down hindent hbody htail hline, hwords]
    simp [String.toList_append]

end Lines

/-! ## Finding a directive again -/

section Locate

variable {upstream host : String} {lines : List String} {index : Nat}

/-- What is located stands in the block, and the adapter sees a directive of the host there. -/
theorem inside_of_locateFrom {opened : Bool} {start : Nat} {membership : LbMembership}
    (h : locateFrom upstream host opened start lines = some (index, membership)) :
    ∃ offset raw, index = start + offset ∧
      (insideFrom opened (lines.map (role upstream)))[offset]? = some true ∧
      lines[offset]? = some raw ∧ serverLine host (Data.trim raw) = some membership := by
  induction lines generalizing opened start with
  | nil => cases opened <;> cases h
  | cons raw rest ih =>
      have hnext : ∀ {opened}, locateFrom upstream host opened (start + 1) rest =
          some (index, membership) → ∃ offset raw', index = start + (offset + 1) ∧
            (insideFrom opened (rest.map (role upstream)))[offset]? = some true ∧
            rest[offset]? = some raw' ∧ serverLine host (Data.trim raw') = some membership := by
        intro opened h
        obtain ⟨offset, raw', hindex, hinside, hraw, hserver⟩ := ih h
        exact ⟨offset, raw', by omega, hinside, hraw, hserver⟩
      cases opened with
      | false =>
          rw [locateFrom] at h
          have hflags : insideFrom false ((raw :: rest).map (role upstream)) = false ::
              insideFrom (opensUpstream upstream (Data.trim raw)) (rest.map (role upstream)) := by
            rw [List.map_cons, role, insideFrom]
          obtain ⟨offset, raw', hindex, hinside, hraw, hserver⟩ := hnext h
          refine ⟨offset + 1, raw', hindex, ?_, hraw, hserver⟩
          rw [hflags, List.getElem?_cons_succ]
          exact hinside
      | true =>
          rw [locateFrom] at h
          split at h
          next => cases h
          next hopen =>
            have hflags : insideFrom true ((raw :: rest).map (role upstream)) =
                true :: insideFrom true (rest.map (role upstream)) := by
              rw [List.map_cons, role, insideFrom, if_neg (by simpa using hopen)]
            rw [hflags]
            split at h
            next found hfound =>
              cases h
              exact ⟨0, raw, rfl, rfl, rfl, hfound⟩
            next =>
              obtain ⟨offset, raw', hindex, hinside, hraw, hserver⟩ := hnext h
              exact ⟨offset + 1, raw', hindex, hinside, hraw, hserver⟩

/-- The line that the adapter locates is the directive of the host, and the membership is the
one in force. -/
theorem Configuration.serves_of_locate (hconfig : Configuration upstream lines)
    (hplain : PlainHost upstream lines host) {membership : LbMembership}
    (h : locate lines upstream host = some (index, membership)) :
    ∃ address params, Serves upstream lines host index address params ∧
      membership = inForce params := by
  obtain ⟨offset, raw, hindex, hinside, hraw, hserver⟩ := inside_of_locateFrom h
  rw [Nat.zero_add] at hindex
  subst hindex
  obtain hnone | ⟨address, params, hline⟩ := hconfig.alone index raw hinside hraw
  · rw [serverLine, hnone] at hserver
    cases hserver
  · rw [hline.serverLine_eq] at hserver
    split at hserver
    next hhost =>
      have hserves : Serves upstream lines host index address params :=
        ⟨hinside, ⟨raw, hraw, hline⟩, hhost⟩
      refine ⟨address, params, hserves, ?_⟩
      rw [← Option.some.inj hserver, membershipOf_plain (hplain hserves)]
    next => cases hserver

end Locate

/-! ## One operation -/

section Step

variable {upstream host address : String} {params : List String} {lines : List String}
  {index : Nat} {down : Bool}

/-- The lines that are read once a directive is rewritten. -/
def relined (lines : List String) (index : Nat) (down : Bool) : List String :=
  (lines.modify index (setDown down)).map Data.withoutReturn

theorem getElem?_relined (lines : List String) (index i : Nat) (down : Bool) :
    (relined lines index down)[i]? = lines[i]?.map fun raw =>
      Data.withoutReturn (if index = i then setDown down raw else raw) := by
  rw [relined, List.getElem?_map, List.getElem?_modify]
  cases lines[i]? with
  | none => rfl
  | some raw => rw [Option.map_eq_map, Option.map_some, Option.map_some, Option.map_some]

/-- Rewriting a directive leaves every line in the block or out of it. -/
theorem inside_relined (hserves : Serves upstream lines host index address params)
    (hplain : PlainAddress address) :
    inside upstream (relined lines index down) = inside upstream lines := by
  have hroles : (relined lines index down).map (role upstream) = lines.map (role upstream) := by
    refine List.ext_getElem? fun i => ?_
    rw [List.getElem?_map, List.getElem?_map, getElem?_relined, Option.map_map]
    refine Option.map_congr fun raw hraw => ?_
    have hreturn : ∀ raw, role upstream (Data.withoutReturn raw) = role upstream raw := by
      intro raw
      rw [role, role, trim_withoutReturn]
    rw [Function.comp_apply, hreturn]
    split
    next hindex =>
      obtain ⟨raw', hraw', hline⟩ := hserves.line
      rw [hindex, hraw] at hraw'
      cases hraw'
      rw [hline.role_eq, (hline.setDown hplain down).role_eq]
    next => rfl
  rw [inside, hroles, inside]

/-- Every directive is found again on its line, the rewritten one with another flag. -/
theorem Serves.relined (hserves : Serves upstream lines host index address params)
    (hplain : PlainAddress address) {host' address' : String} {params' : List String} {i : Nat}
    (h : Serves upstream lines host' i address' params') :
    Serves upstream (relined lines index down) host' i address'
      (if index = i then toggled down params' else params') := by
  obtain ⟨raw, hraw, hline⟩ := h.line
  refine ⟨(inside_relined hserves hplain).symm ▸ h.inside,
    ⟨Data.withoutReturn (if index = i then setDown down raw else raw), ?_, ?_⟩, h.host⟩
  · rw [getElem?_relined, hraw, Option.map_some]
  · refine ServerLine.withoutReturn ?_
    split
    next hindex =>
      obtain ⟨raw', hraw', hline'⟩ := hserves.line
      rw [hindex, hraw] at hraw'
      cases hraw'
      obtain ⟨rfl, -⟩ := hline.unique hline'
      exact hline.setDown hplain down
    next => exact hline

/-- Every directive of the rewritten lines was one before. -/
theorem Serves.of_relined (hserves : Serves upstream lines host index address params)
    (hplain : PlainAddress address) {host' address' : String} {params' : List String} {i : Nat}
    (h : Serves upstream (Lb.relined lines index down) host' i address' params') :
    ∃ params'', Serves upstream lines host' i address' params'' := by
  have hinside := h.inside
  rw [inside_relined hserves hplain] at hinside
  obtain ⟨raw, hraw, hline⟩ := h.line
  rw [getElem?_relined, Option.map_eq_some_iff] at hraw
  obtain ⟨before, hbefore, rfl⟩ := hraw
  have hline := hline.of_withoutReturn
  split at hline
  next hindex =>
    obtain ⟨raw', hraw', hline'⟩ := hserves.line
    rw [hindex, hbefore] at hraw'
    cases hraw'
    obtain ⟨rfl, -⟩ := hline.unique (hline'.setDown hplain down)
    exact ⟨params, hinside, ⟨before, hbefore, hline'⟩, h.host⟩
  next => exact ⟨params', hinside, ⟨before, hbefore, hline⟩, h.host⟩

/-- A configuration stays one when a directive is rewritten. -/
theorem Configuration.relined (hconfig : Configuration upstream lines)
    (hserves : Serves upstream lines host index address params) (hplain : PlainAddress address) :
    Configuration upstream (Lb.relined lines index down) where
  alone i raw hinside hraw := by
    rw [inside_relined hserves hplain] at hinside
    rw [getElem?_relined, Option.map_eq_some_iff] at hraw
    obtain ⟨before, hbefore, rfl⟩ := hraw
    split
    next hindex =>
      obtain ⟨raw', hraw', hline'⟩ := hserves.line
      rw [hindex, hbefore] at hraw'
      cases hraw'
      exact .inr ⟨address, _, (hline'.setDown hplain down).withoutReturn⟩
    next =>
      rw [trim_withoutReturn]
      obtain hnone | ⟨address', params', hline⟩ := hconfig.alone i before hinside hbefore
      · exact .inl hnone
      · exact .inr ⟨address', params', hline.withoutReturn⟩
  distinct h h' := by
    obtain ⟨_, hbefore⟩ := hserves.of_relined hplain h
    obtain ⟨_, hbefore'⟩ := hserves.of_relined hplain h'
    exact hconfig.distinct hbefore hbefore'

end Step

/-! ## The text of a configuration -/

section Text

variable {upstream host address text : String} {params : List String} {index : Nat} {down : Bool}

/-- A rewritten directive is one line. -/
theorem ServerLine.newline_not_mem {line : String} (h : ServerLine line address params)
    (hline : '\n' ∉ line.toList) :
    '\n' ∉ (Lb.setDown down line).toList := by
  obtain ⟨indent, body, tail, hindent, hbody, htail, hchars⟩ := h
  have hwords : serverWords.Spaced (" ".intercalate (("server" :: address :: params).filter
      (· ≠ "down") ++ if down then ["down"] else [])).toList (("server" :: address :: params).filter
        (· ≠ "down") ++ if down then ["down"] else []) := by
    refine Alphabet.Spaced.of_intercalate (by simp) fun word hword => ?_
    obtain hword | hword := List.mem_append.mp hword
    · exact hbody.word (List.mem_of_mem_filter hword)
    · split at hword
      · rw [List.mem_singleton.mp hword]
        exact .of_all (by decide) (by decide)
      · cases hword
  rw [setDown_eq down hindent hbody htail hchars, String.toList_append, String.toList_append,
    String.toList_ofList]
  intro hmem
  obtain hmem | hmem := List.mem_append.mp hmem
  · obtain hmem | hmem := List.mem_append.mp hmem
    · exact hline (hchars ▸ List.mem_append_left _ hmem)
    · obtain hword | hgap := hwords.isWord_or_isGap hmem
      · exact absurd hword (by decide)
      · exact absurd hgap (by decide)
  · exact absurd hmem (by decide)

/-- The lines of the rewritten text are the rewritten lines. -/
theorem lines_rewritten (hserves : Serves upstream (Data.lines text) host index address params) :
    Data.lines (rewritten (Data.lines text) index down) = relined (Data.lines text) index down := by
  obtain ⟨raw, hraw, hline⟩ := hserves.line
  have hmem := List.mem_of_getElem? hraw
  have hne : (Data.lines text).modify index (setDown down) ≠ [] := by
    intro hnil
    have hlength := congrArg List.length hnil
    rw [List.length_modify, List.length_nil] at hlength
    rw [List.length_eq_zero_iff.mp hlength] at hmem
    cases hmem
  have hnewline : ∀ line ∈ (Data.lines text).modify index (setDown down), '\n' ∉ line.toList := by
    intro line hmem'
    obtain ⟨i, hi⟩ := List.mem_iff_getElem?.mp hmem'
    rw [List.getElem?_modify, Option.map_eq_map, Option.map_eq_some_iff] at hi
    obtain ⟨before, hbefore, rfl⟩ := hi
    have hplainLine := Data.newline_not_mem_lines before (List.mem_of_getElem? hbefore)
    split
    next hindex =>
      rw [hindex, hbefore] at hraw
      cases hraw
      exact hline.newline_not_mem hplainLine
    next => exact hplainLine
  rw [Data.lines, rewritten, toList_intercalate_newline hne]
  exact Data.linesFrom_flatMap hnewline

/-- A line without the carriage returns that end it. -/
def content (line : String) : List Char :=
  line.toList.rdropWhile (· = '\r')

theorem content_withoutReturn (line : String) :
    content (Data.withoutReturn line) = content line := by
  obtain hsame | hreturn := Data.withoutReturn_cases line
  · rw [hsame]
  · rw [content, content, hreturn, List.rdropWhile_concat_pos _ _ _ (by decide)]

end Text

/-! ## Operations -/

/-- An operation on a host that a directive is matched by. -/
inductive LbOp where
  | drain (host : String)
  | reattach (host : String) (prior : LbMembership)

namespace LbOp

def host : LbOp → String
  | drain host => host
  | reattach host _ => host

/-- Whether the operation takes the host down. -/
def down : LbOp → Bool
  | drain _ => true
  | reattach _ prior => decide (prior.state ≠ .inPool)

end LbOp

/-- An operation of the adapter that succeeds on a disk, the membership it returns, and the disk
it leaves. The file system and nginx answer as they like. -/
inductive Call (path upstream : String) : Disk → LbOp → Option LbMembership → Disk → Prop
  | drain {lb : NginxLb} {ctx : AdapterCtx} {host : HostId} {o : DiskOracle} {s : Disk}
      {sched : List Bool} {prior : LbMembership}
      (hpath : NginxLb.stringSetting ctx "config_path" = some path)
      (hupstream : NginxLb.stringSetting ctx "upstream" = some upstream)
      (hvalue : ((lb.drain ctx host).exec (disk o) sched s).value = .ok prior) :
      Call path upstream s (.drain (NginxLb.hostToken ctx host)) (some prior)
        ((lb.drain ctx host).exec (disk o) sched s).final
  | reattach {lb : NginxLb} {ctx : AdapterCtx} {host : HostId} {o : DiskOracle} {s : Disk}
      {sched : List Bool} {prior : LbMembership}
      (hpath : NginxLb.stringSetting ctx "config_path" = some path)
      (hupstream : NginxLb.stringSetting ctx "upstream" = some upstream)
      (hvalue : ((lb.reattach ctx host prior).exec (disk o) sched s).value = .ok ()) :
      Call path upstream s (.reattach (NginxLb.hostToken ctx host) prior) none
        ((lb.reattach ctx host prior).exec (disk o) sched s).final

/-- Operations that succeed one after the other, each with what it returns. -/
inductive Calls (path upstream : String) :
    Disk → List (LbOp × Option LbMembership) → Disk → Prop
  | nil (s : Disk) : Calls path upstream s [] s
  | cons {s s' s'' : Disk} {op : LbOp} {returned : Option LbMembership}
      {rest : List (LbOp × Option LbMembership)} (hcall : Call path upstream s op returned s')
      (hrest : Calls path upstream s' rest s'') :
      Calls path upstream s ((op, returned) :: rest) s''

section Calls

variable {path upstream text : String} {s s' : Disk} {op : LbOp} {returned : Option LbMembership}

/-- An operation that succeeds rewrites the line that is located. -/
theorem Call.locates (h : Call path upstream s op returned s') (htext : s.text path = some text) :
    ∃ index prior, locate (Data.lines text) upstream op.host = some (index, prior) ∧
      s'.text path = some (rewritten (Data.lines text) index op.down) ∧
      ∀ membership, returned = some membership → membership = prior := by
  cases h with
  | @drain lb ctx host o _ sched prior hpath hupstream hvalue =>
      obtain ⟨index, hlocate, hnew⟩ :=
        (wp_exec (apply_writes hpath hupstream htext "drain") sched).1.1 prior hvalue
      exact ⟨index, prior, hlocate, hnew, fun _ h => (Option.some.inj h).symm⟩
  | @reattach lb ctx host o _ sched prior hpath hupstream hvalue =>
      have hspec : wp (disk o) Eq Guarantee.any (lb.reattach ctx host prior)
          (fun result s' => result = .ok () → ∃ index prior',
            locate (Data.lines text) upstream (NginxLb.hostToken ctx host) = some (index, prior') ∧
            s'.text path = some (rewritten (Data.lines text) index
              (decide (prior.state ≠ .inPool)))) s := by
        refine wp_bind (wp_post ?_ (apply_writes hpath hupstream htext "reattach"))
        rintro (error | prior') s' ⟨hwritten, -⟩
        · exact wp_ret.mpr fun h => by cases h
        · obtain ⟨index, hlocate, hnew⟩ := hwritten prior' rfl
          exact wp_ret.mpr fun _ => ⟨index, prior', hlocate, hnew⟩
      obtain ⟨index, prior', hlocate, hnew⟩ := (wp_exec hspec sched).1 hvalue
      exact ⟨index, prior', hlocate, hnew, fun _ h => by cases h⟩

end Calls

/-! ## Runs -/

/-- Whether a host is down after some operations: the last one on it decides. -/
def downAfter (ops : List LbOp) (host : String) (before : Prop) : Prop :=
  ((ops.filter (·.host = host)).getLast?.map fun op => op.down = true).getD before

/-- What some operations leave of the lines of a configuration. -/
structure Follows (upstream : String) (ops : List LbOp) (lines lines' : List String) : Prop where
  config : Configuration upstream lines'
  length : lines'.length = lines.length
  serves : ∀ {host index address params}, Serves upstream lines host index address params →
    ∃ params', Serves upstream lines' host index address params' ∧
      params'.filter (· ≠ "down") = params.filter (· ≠ "down") ∧
      ("down" ∈ params' ↔ downAfter ops host ("down" ∈ params))
  served : ∀ {host index address params}, Serves upstream lines' host index address params →
    ∃ params', Serves upstream lines host index address params'
  others : ∀ i : Nat, (∀ op ∈ ops, ∀ address params,
    ¬Serves upstream lines op.host i address params) →
      lines'[i]?.map content = lines[i]?.map content

section Runs

variable {path upstream text : String} {lines lines' lines'' : List String} {s s' : Disk}
  {ops ops' : List LbOp} {op : LbOp} {returned : Option LbMembership}
  {trace : List (LbOp × Option LbMembership)}

theorem downAfter_append (ops ops' : List LbOp) (host : String) (before : Prop) :
    downAfter (ops ++ ops') host before = downAfter ops' host (downAfter ops host before) := by
  rw [downAfter, List.filter_append, List.getLast?_append, downAfter, downAfter]
  cases (ops'.filter (·.host = host)).getLast? with
  | none => rfl
  | some op => rfl

theorem Follows.refl (hconfig : Configuration upstream lines) :
    Follows upstream [] lines lines where
  config := hconfig
  length := rfl
  serves h := ⟨_, h, rfl, Iff.rfl⟩
  served h := ⟨_, h⟩
  others _ _ := rfl

theorem Follows.trans (h : Follows upstream ops lines lines')
    (h' : Follows upstream ops' lines' lines'') :
    Follows upstream (ops ++ ops') lines lines'' where
  config := h'.config
  length := h'.length.trans h.length
  serves hserves := by
    obtain ⟨params', hserves', hfilter, hdown⟩ := h.serves hserves
    obtain ⟨params'', hserves'', hfilter', hdown'⟩ := h'.serves hserves'
    refine ⟨params'', hserves'', hfilter'.trans hfilter, ?_⟩
    rw [downAfter_append, hdown', propext hdown]
  served hserves := by
    obtain ⟨_, hserves'⟩ := h'.served hserves
    exact h.served hserves'
  others i hi := by
    refine (h'.others i fun op hop address params hserves => ?_).trans
      (h.others i fun op hop => hi op (List.mem_append_left _ hop))
    obtain ⟨_, hserves'⟩ := h.served hserves
    exact hi op (List.mem_append_right _ hop) _ _ hserves'

/-- A plain address stays one. -/
theorem Follows.plain (h : Follows upstream ops lines lines') {host : String}
    (hplain : PlainHost upstream lines host) : PlainHost upstream lines' host := by
  intro index address params hserves
  obtain ⟨_, hbefore⟩ := h.served hserves
  exact hplain hbefore

theorem mem_toggled (down : Bool) (params : List String) :
    "down" ∈ toggled down params ↔ down = true := by
  cases down <;> simp [toggled]

theorem filter_toggled (down : Bool) (params : List String) :
    (toggled down params).filter (· ≠ "down") = params.filter (· ≠ "down") := by
  cases down <;> simp [toggled, List.filter_filter]

/-- What one operation leaves. -/
theorem follows_relined {host address : String} {params : List String} {index : Nat}
    (hconfig : Configuration upstream lines) (hplain : PlainHost upstream lines host)
    (hserves : Serves upstream lines host index address params) (hhost : op.host = host) :
    Follows upstream [op] lines (relined lines index op.down) where
  config := hconfig.relined hserves (hplain hserves)
  length := by rw [relined, List.length_map, List.length_modify]
  serves {host' i address' params'} h := by
    have hagain : Serves upstream (Lb.relined lines index op.down) host' i address'
        (if index = i then toggled op.down params' else params') :=
      hserves.relined (hplain hserves) h
    by_cases hindex : index = i
    · subst hindex
      have hsame : host' = host := by
        obtain ⟨raw, hraw, hline⟩ := hserves.line
        obtain ⟨raw', hraw', hline'⟩ := h.line
        rw [hraw] at hraw'
        cases hraw'
        rw [← h.host, ← hserves.host, (hline'.unique hline).1]
      rw [if_pos rfl] at hagain
      refine ⟨_, hagain, filter_toggled _ _, ?_⟩
      rw [mem_toggled, downAfter, hsame, ← hhost]
      simp
    · have hne : op.host ≠ host' := by
        intro hsame
        rw [← hhost, hsame] at hserves
        exact hindex (hconfig.distinct hserves h)
      rw [if_neg hindex] at hagain
      refine ⟨_, hagain, rfl, ?_⟩
      rw [downAfter, List.filter_cons_of_neg (by simpa using hne)]
      rfl
  served h := hserves.of_relined (hplain hserves) h
  others i hi := by
    rw [getElem?_relined, Option.map_map]
    refine Option.map_congr fun raw _ => ?_
    have hindex : index ≠ i := by
      rintro rfl
      exact hi op List.mem_cons_self _ _ (hhost ▸ hserves)
    rw [Function.comp_apply, if_neg hindex, content_withoutReturn]

/-- An operation that succeeds finds the directive of its host and follows from it. -/
theorem Call.follows (h : Call path upstream s op returned s') (htext : s.text path = some text)
    (hconfig : Configuration upstream (Data.lines text))
    (hplain : PlainHost upstream (Data.lines text) op.host) :
    ∃ text' index address params, s'.text path = some text' ∧
      Serves upstream (Data.lines text) op.host index address params ∧
      (∀ prior, returned = some prior → prior = inForce params) ∧
      Follows upstream [op] (Data.lines text) (Data.lines text') := by
  obtain ⟨index, prior, hlocate, hnew, hreturned⟩ := h.locates htext
  obtain ⟨address, params, hserves, hprior⟩ := hconfig.serves_of_locate hplain hlocate
  refine ⟨_, index, address, params, hnew, hserves, fun p hp => (hreturned p hp).trans hprior, ?_⟩
  rw [lines_rewritten hserves]
  exact follows_relined hconfig hplain hserves rfl

theorem Calls.follows (h : Calls path upstream s trace s') (htext : s.text path = some text)
    (hconfig : Configuration upstream (Data.lines text))
    (hplain : ∀ op ∈ trace.map Prod.fst, PlainHost upstream (Data.lines text) op.host) :
    ∃ text', s'.text path = some text' ∧
      Follows upstream (trace.map Prod.fst) (Data.lines text) (Data.lines text') := by
  induction h generalizing text with
  | nil s => exact ⟨text, htext, .refl hconfig⟩
  | cons hcall _ ih =>
      obtain ⟨hop, hrest⟩ := List.forall_mem_cons.mp hplain
      obtain ⟨text₁, _, _, _, htext₁, -, -, hfollows⟩ := hcall.follows htext hconfig hop
      obtain ⟨text₂, htext₂, hrest⟩ := ih htext₁ hfollows.config fun op hmem =>
        hfollows.plain (hrest op hmem)
      exact ⟨text₂, htext₂, hfollows.trans hrest⟩

/-- In a configuration whose `server` directives are alone on their lines and have different host
parts, and after any run of operations that succeed on hosts without a parameter for an address:
a host is down when the last operation on it took it down, or when there is none and it was down;
the lines of the other hosts and all lines around them are the same up to their ends. A further
drain returns the membership in force, and giving it back, after whatever else was done, restores
the parameters. -/
theorem runs_keep_pool (htext : s.text path = some text)
    (hconfig : Configuration upstream (Data.lines text))
    (hplain : ∀ op ∈ trace.map Prod.fst, PlainHost upstream (Data.lines text) op.host)
    (hcalls : Calls path upstream s trace s') :
    ∃ text', s'.text path = some text' ∧
      (∀ host index address params, Serves upstream (Data.lines text) host index address params →
        ∃ params', Serves upstream (Data.lines text') host index address params' ∧
          ("down" ∈ params' ↔ downAfter (trace.map Prod.fst) host ("down" ∈ params))) ∧
      (Data.lines text').length = (Data.lines text).length ∧
      (∀ i : Nat, (∀ op ∈ trace.map Prod.fst, ∀ address params,
          ¬Serves upstream (Data.lines text) op.host i address params) →
        (Data.lines text')[i]?.map content = (Data.lines text)[i]?.map content) ∧
      ∀ host prior s₁, PlainHost upstream (Data.lines text) host →
        Call path upstream s' (.drain host) (some prior) s₁ →
        ∃ index address params, Serves upstream (Data.lines text') host index address params ∧
          prior = inForce params ∧
          ∀ between s₂ s₃,
            (∀ op ∈ between.map Prod.fst, PlainHost upstream (Data.lines text) op.host) →
            Calls path upstream s₁ between s₂ →
            Call path upstream s₂ (.reattach host prior) none s₃ →
            ∃ text₃ params₃, s₃.text path = some text₃ ∧
              Serves upstream (Data.lines text₃) host index address params₃ ∧
              ∀ param, param ∈ params₃ ↔ param ∈ params := by
  obtain ⟨text', htext', hfollows⟩ := hcalls.follows htext hconfig hplain
  refine ⟨text', htext', fun host index address params h => ?_, hfollows.length,
    hfollows.others, fun host prior s₁ hhost hdrain => ?_⟩
  · obtain ⟨params', hserves, -, hdown⟩ := hfollows.serves h
    exact ⟨params', hserves, hdown⟩
  · obtain ⟨text₁, index, address, params, htext₁, hserves, hprior, hfollows₁⟩ :=
      hdrain.follows htext' hfollows.config (hfollows.plain hhost)
    have hforce := hprior prior rfl
    refine ⟨index, address, params, hserves, hforce,
      fun between s₂ s₃ hplain' hbetween hreattach => ?_⟩
    obtain ⟨text₂, htext₂, hfollows₂⟩ := hbetween.follows htext₁ hfollows₁.config
      fun op hop => hfollows₁.plain (hfollows.plain (hplain' op hop))
    obtain ⟨text₃, _, _, _, htext₃, -, -, hfollows₃⟩ :=
      hreattach.follows htext₂ hfollows₂.config
        (hfollows₂.plain (hfollows₁.plain (hfollows.plain hhost)))
    obtain ⟨params₃, hserves₃, hfilter, hdown⟩ :=
      ((hfollows₁.trans hfollows₂).trans hfollows₃).serves hserves
    refine ⟨text₃, params₃, htext₃, hserves₃, fun param => ?_⟩
    by_cases hparam : param = "down"
    · rw [hparam, hdown, downAfter_append, downAfter, hforce]
      simp [LbOp.host, LbOp.down, inForce]
    · have hother : ∀ params : List String,
          param ∈ params ↔ param ∈ params.filter (· ≠ "down") := fun params => by
        simp [hparam]
      rw [hother, hfilter, ← hother]

end Runs

/-! ## Two pools -/

/-- Words with spaces between them, an indentation and a semicolon are a directive. -/
theorem serverLine_intercalate {indent : List Char} {address : String} {params : List String}
    (hindent : ∀ c ∈ indent, Data.isWhitespace c = true)
    (hwords : ∀ word ∈ address :: params, serverWords.Word word) :
    ServerLine (String.ofList indent ++ " ".intercalate ("server" :: address :: params) ++ ";")
      address params := by
  have hserver : serverWords.Word "server" := .of_all (by decide) (by decide)
  refine ⟨indent, _, [], hindent, Alphabet.Spaced.of_intercalate (by simp)
    (List.forall_mem_cons.mpr ⟨hserver, hwords⟩), fun c hc => absurd hc List.not_mem_nil, ?_⟩
  simp [String.toList_append]

theorem whitespace_indent : ∀ c ∈ [' ', ' '], Data.isWhitespace c = true := by
  intro c hc
  obtain rfl : c = ' ' := by simpa using hc
  decide

/-- Lines whose block has two directives are a configuration. -/
theorem configuration_of_two {upstream opening line line' closing address address' : String}
    {params params' : List String}
    (hinside : inside upstream [opening, line, line', closing] = [false, true, true, false])
    (hline : ServerLine line address params) (hline' : ServerLine line' address' params')
    (hhosts : hostPart address ≠ hostPart address') :
    Configuration upstream [opening, line, line', closing] := by
  have hindex : ∀ (i : Nat) raw, (inside upstream [opening, line, line', closing])[i]? = some true →
      [opening, line, line', closing][i]? = some raw →
        i = 1 ∧ raw = line ∨ i = 2 ∧ raw = line' := by
    intro i raw hi hraw
    rw [hinside] at hi
    match i with
    | 0 => cases hi
    | 1 => exact .inl ⟨rfl, (Option.some.inj hraw).symm⟩
    | 2 => exact .inr ⟨rfl, (Option.some.inj hraw).symm⟩
    | 3 => cases hi
    | i + 4 => cases hi
  have hserves : ∀ {host i address₁ params₁},
      Serves upstream [opening, line, line', closing] host i address₁ params₁ →
        i = 1 ∧ host = hostPart address ∨ i = 2 ∧ host = hostPart address' := by
    intro host i address₁ params₁ h
    obtain ⟨raw, hraw, hserver⟩ := h.line
    obtain ⟨rfl, rfl⟩ | ⟨rfl, rfl⟩ := hindex i raw h.inside hraw
    · exact .inl ⟨rfl, by rw [← h.host, (hserver.unique hline).1]⟩
    · exact .inr ⟨rfl, by rw [← h.host, (hserver.unique hline').1]⟩
  refine ⟨fun i raw hi hraw => ?_, fun h h' => ?_⟩
  · obtain ⟨-, rfl⟩ | ⟨-, rfl⟩ := hindex i raw hi hraw
    · exact .inr ⟨_, _, hline⟩
    · exact .inr ⟨_, _, hline'⟩
  · obtain ⟨rfl, hhost⟩ | ⟨rfl, hhost⟩ := hserves h
    · obtain ⟨rfl, -⟩ | ⟨rfl, hhost'⟩ := hserves h'
      · rfl
      · exact absurd (hhost.symm.trans hhost') hhosts
    · obtain ⟨rfl, hhost'⟩ | ⟨rfl, -⟩ := hserves h'
      · exact absurd (hhost'.symm.trans hhost) hhosts
      · rfl

/-- A pool with a weight and a host that is down. -/
def weightedPool : String :=
  "upstream shop \x7b\n  server web:80 weight=5;\n  server api:80 down;\n\x7d\n"

theorem lines_weightedPool : Data.lines weightedPool =
    ["upstream shop \x7b", "  server web:80 weight=5;", "  server api:80 down;", "\x7d"] := by
  decide +kernel

theorem weightedPool_lines :
    ServerLine "  server web:80 weight=5;" "web:80" ["weight=5"] ∧
      ServerLine "  server api:80 down;" "api:80" ["down"] := by
  have hwords : ∀ {words : List String}, (words.all fun word =>
      word.toList ≠ [] && word.toList.all serverWords.isWord) = true →
        ∀ word ∈ words, serverWords.Word word := by
    intro words hall word hword
    have hboth := List.all_eq_true.mp hall word hword
    rw [Bool.and_eq_true, decide_eq_true_eq] at hboth
    exact .of_all hboth.1 hboth.2
  have hweb : "  server web:80 weight=5;" = String.ofList [' ', ' '] ++
      " ".intercalate ["server", "web:80", "weight=5"] ++ ";" := by decide +kernel
  have hapi : "  server api:80 down;" = String.ofList [' ', ' '] ++
      " ".intercalate ["server", "api:80", "down"] ++ ";" := by decide +kernel
  rw [hweb, hapi]
  exact ⟨serverLine_intercalate whitespace_indent (hwords (by decide +kernel)),
    serverLine_intercalate whitespace_indent (hwords (by decide +kernel))⟩

theorem configuration_weightedPool : Configuration "shop" (Data.lines weightedPool) := by
  rw [lines_weightedPool]
  exact configuration_of_two (by decide +kernel) weightedPool_lines.1 weightedPool_lines.2
    (by decide +kernel)

theorem plainHost_weightedPool (host : String) :
    PlainHost "shop" (Data.lines weightedPool) host := by
  intro index address params h
  obtain ⟨raw, hraw, hline⟩ := h.line
  have hinside := h.inside
  rw [lines_weightedPool] at hraw hinside
  have hflags : inside "shop" ["upstream shop \x7b", "  server web:80 weight=5;",
      "  server api:80 down;", "\x7d"] = [false, true, true, false] := by decide +kernel
  rw [hflags] at hinside
  match index with
  | 0 => cases hinside
  | 1 =>
      cases hraw
      rw [(hline.unique weightedPool_lines.1).1]
      exact ⟨by decide +kernel, by decide +kernel⟩
  | 2 =>
      cases hraw
      rw [(hline.unique weightedPool_lines.2).1]
      exact ⟨by decide +kernel, by decide +kernel⟩
  | 3 => cases hinside
  | index + 4 => cases hinside

/-- The disk once a host was drained. -/
def drainedDisk (host : String) (s : Disk) : Disk :=
  (((NginxLb.mk "nginx" 1).drain shopPool ⟨host⟩).exec (disk soundHost) [] s).final

/-- One host is drained and then the other one, and the first is given back. -/
theorem runs_keep_pool_web : ∃ s', Calls "/etc/pool.conf" "shop"
    (diskOf "/etc/pool.conf" weightedPool) [(.drain "web", some ⟨.inPool, some 5⟩),
      (.drain "api", some ⟨.removed, none⟩), (.reattach "web" ⟨.inPool, some 5⟩, none)] s' ∧
      ∃ text' params' params'', s'.text "/etc/pool.conf" = some text' ∧
        Serves "shop" (Data.lines text') "web" 1 "web:80" params' ∧ "down" ∉ params' ∧
        Serves "shop" (Data.lines text') "api" 2 "api:80" params'' ∧ "down" ∈ params'' := by
  have hpath : NginxLb.stringSetting shopPool "config_path" = some "/etc/pool.conf" := by
    decide +kernel
  have hupstream : NginxLb.stringSetting shopPool "upstream" = some "shop" := by decide +kernel
  have hweb : Call "/etc/pool.conf" "shop" (diskOf "/etc/pool.conf" weightedPool)
      (.drain "web") (some ⟨.inPool, some 5⟩)
      (drainedDisk "web" (diskOf "/etc/pool.conf" weightedPool)) :=
    .drain hpath hupstream (by decide +kernel)
  have hapi : Call "/etc/pool.conf" "shop"
      (drainedDisk "web" (diskOf "/etc/pool.conf" weightedPool)) (.drain "api")
      (some ⟨.removed, none⟩)
      (drainedDisk "api" (drainedDisk "web" (diskOf "/etc/pool.conf" weightedPool))) :=
    .drain hpath hupstream (by decide +kernel)
  have hback : Call "/etc/pool.conf" "shop"
      (drainedDisk "api" (drainedDisk "web" (diskOf "/etc/pool.conf" weightedPool)))
      (.reattach "web" ⟨.inPool, some 5⟩) none _ :=
    @Call.reattach _ _ ⟨"nginx", 1⟩ shopPool ⟨"web"⟩ soundHost _ [] _ hpath hupstream
      (by decide +kernel)
  -- giving `web` back leaves the drain of `api` in force
  have hcalls := Calls.cons hweb (.cons hapi (.cons hback (.nil _)))
  have hserves : Serves "shop" (Data.lines weightedPool) "web" 1 "web:80" ["weight=5"] ∧
      Serves "shop" (Data.lines weightedPool) "api" 2 "api:80" ["down"] := by
    rw [lines_weightedPool]
    exact ⟨⟨by decide +kernel, ⟨_, rfl, weightedPool_lines.1⟩, by decide +kernel⟩,
      by decide +kernel, ⟨_, rfl, weightedPool_lines.2⟩, by decide +kernel⟩
  obtain ⟨text', htext', hpool, -⟩ := runs_keep_pool (by simp [diskOf])
    configuration_weightedPool (fun _ _ => plainHost_weightedPool _) hcalls
  obtain ⟨params', hserves', hdown'⟩ := hpool _ _ _ _ hserves.1
  obtain ⟨params'', hserves'', hdown''⟩ := hpool _ _ _ _ hserves.2
  exact ⟨_, hcalls, text', params', params'', htext', hserves',
    fun h => Bool.false_ne_true (hdown'.mp h), hserves'', hdown''.mpr rfl⟩

/-- A pool with a host that is called `down`. -/
def downPool : String :=
  "upstream shop \x7b\n  server down;\n  server api:80 down;\n\x7d\n"

/-- The address of the host is taken for the flag. The host is said to be out of the pool when it
is in it, the drain takes nothing down, and giving the membership back does not either. -/
theorem downAddress_not_drained :
    Configuration "shop" (Data.lines downPool) ∧
    Serves "shop" (Data.lines downPool) "down" 1 "down" [] ∧
    ∃ s', Call "/etc/pool.conf" "shop" (diskOf "/etc/pool.conf" downPool) (.drain "down")
        (some ⟨.removed, none⟩) s' ∧ s'.text "/etc/pool.conf" = some downPool := by
  have hlines : Data.lines downPool =
      ["upstream shop \x7b", "  server down;", "  server api:80 down;", "\x7d"] := by
    decide +kernel
  have hwritten : "  server down;" = String.ofList [' ', ' '] ++
      " ".intercalate ["server", "down"] ++ ";" := by decide +kernel
  have hline : ServerLine "  server down;" "down" [] := by
    rw [hwritten]
    refine serverLine_intercalate whitespace_indent fun word hword => ?_
    rw [List.mem_singleton.mp hword]
    exact .of_all (by decide) (by decide)
  have hdrain : ((((NginxLb.mk "nginx" 1).drain shopPool ⟨"down"⟩).exec (disk soundHost) []
      (diskOf "/etc/pool.conf" downPool)).value, (((NginxLb.mk "nginx" 1).drain shopPool
        ⟨"down"⟩).exec (disk soundHost) [] (diskOf "/etc/pool.conf" downPool)).final.text
          "/etc/pool.conf") = (.ok ⟨.removed, none⟩, some downPool) := by
    decide +kernel
  obtain ⟨hvalue, hfinal⟩ := Prod.mk.inj hdrain
  rw [hlines]
  exact ⟨configuration_of_two (by decide +kernel) hline weightedPool_lines.2
    (by decide +kernel), ⟨by decide +kernel, ⟨_, rfl, hline⟩, by decide +kernel⟩, _,
    .drain (by decide +kernel) (by decide +kernel) hvalue, hfinal⟩

end Fraisier.Lb
