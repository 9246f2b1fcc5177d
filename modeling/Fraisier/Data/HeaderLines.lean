import Fraisier.Data.Bytes

/-!
# Header lines

Lines that end in CRLF, up to one that is empty. `position_headers` says where they end;
`lines_headers` and `splitCrlf_headers` that the lines are read again, by either way of cutting
a text into lines.
-/

namespace Fraisier.Data

/-- The end of a line and an empty line. -/
def blankLine : List UInt8 :=
  utf8 "\r\n\r\n".toList

/-- The text of header lines. -/
def headerLines (lines : List String) : List Char :=
  lines.flatMap fun line => line.toList ++ ['\r', '\n']

/-- A text cut at each CRLF. -/
def splitCrlf : List Char → List (List Char)
  | '\r' :: '\n' :: rest => [] :: splitCrlf rest
  | c :: rest =>
      match splitCrlf rest with
      | line :: lines => (c :: line) :: lines
      | [] => [[c]]
  | [] => [[]]

/-- What stands before and behind the first of some separators is determined. -/
theorem append_separator_inj {α : Type} {separator : α} {l l' rest rest' : List α}
    (hl : separator ∉ l) (hl' : separator ∉ l')
    (h : l ++ separator :: rest = l' ++ separator :: rest') : l = l' ∧ rest = rest' := by
  induction l generalizing l' with
  | nil =>
      cases l' with
      | nil => exact ⟨rfl, (List.cons.inj h).2⟩
      | cons a l' => exact absurd ((List.cons.inj h).1 ▸ List.mem_cons_self) hl'
  | cons a l ih =>
      cases l' with
      | nil => exact absurd ((List.cons.inj h).1 ▸ List.mem_cons_self) hl
      | cons a' l' =>
          obtain ⟨rfl, htail⟩ := List.cons.inj h
          obtain ⟨rfl, hrest⟩ := ih (fun hmem => hl (List.mem_cons_of_mem a hmem))
            (fun hmem => hl' (List.mem_cons_of_mem a hmem)) htail
          exact ⟨rfl, hrest⟩

/-! ## Where header lines end -/

theorem return_mem_utf8 {chars : List Char} : '\r'.toUInt8 ∈ utf8 chars ↔ '\r' ∈ chars :=
  ascii_mem_utf8 (by decide)

theorem blankLine_eq : blankLine =
    ['\r'.toUInt8, '\n'.toUInt8, '\r'.toUInt8, '\n'.toUInt8] := by
  decide

/-- A line end that no return follows ends no header block. -/
theorem position_crlf {byte : UInt8} (hbyte : byte ≠ '\r'.toUInt8) (rest : List UInt8) :
    position blankLine ('\r'.toUInt8 :: '\n'.toUInt8 :: byte :: rest) =
      (position blankLine (byte :: rest)).map (2 + ·) := by
  have hreturn : blankLine.isPrefixOf ('\r'.toUInt8 :: '\n'.toUInt8 :: byte :: rest) = false := by
    have hne : ('\r'.toUInt8 == byte) = false := by simpa using Ne.symm hbyte
    rw [blankLine_eq]
    simp [List.isPrefixOf, hne]
  have hnewline : blankLine.isPrefixOf ('\n'.toUInt8 :: byte :: rest) = false := by
    rw [blankLine_eq]
    rfl
  rw [position, hreturn, position, hnewline]
  cases position blankLine (byte :: rest) with
  | none => rfl
  | some n =>
      simp only [Bool.false_eq_true, if_false, Option.map_some, Option.some.injEq]
      omega

theorem position_line {text : String} (h : '\r' ∉ text.toList) (rest : List UInt8) :
    position blankLine (utf8 text.toList ++ rest) =
      (position blankLine rest).map ((utf8 text.toList).length + ·) := by
  rw [blankLine_eq]
  exact position_append (fun hmem => h (return_mem_utf8.mp hmem)) rest

theorem headerLines_cons (line : String) (lines : List String) :
    headerLines (line :: lines) = line.toList ++ '\r' :: '\n' :: headerLines lines := by
  rw [headerLines, List.flatMap_cons, List.append_assoc]
  rfl

theorem utf8_line_cons (line : String) (lines : List String) (last : List Char) :
    utf8 (headerLines (line :: lines) ++ last) = utf8 line.toList ++
      '\r'.toUInt8 :: '\n'.toUInt8 :: utf8 (headerLines lines ++ last) := by
  rw [headerLines_cons, List.append_assoc, utf8_append]
  rfl

/-- A text without a return begins with no return. -/
theorem exists_first_byte {text : String} (hne : text ≠ "") (h : '\r' ∉ text.toList) :
    ∃ byte rest, utf8 text.toList = byte :: rest ∧ byte ≠ '\r'.toUInt8 := by
  cases hbytes : utf8 text.toList with
  | nil => exact absurd (String.toList_eq_nil_iff.mp (@utf8_injective _ [] hbytes)) hne
  | cons byte rest =>
      refine ⟨byte, rest, rfl, fun hbyte => h (return_mem_utf8.mp ?_)⟩
      rw [hbytes, hbyte]
      exact List.mem_cons_self

/-- Header lines that an empty line follows end there, and not before. -/
theorem position_headers {lines : List String} {last : String}
    (hlines : ∀ line ∈ lines, line ≠ "" ∧ '\r' ∉ line.toList)
    (hlast : last ≠ "" ∧ '\r' ∉ last.toList) (rest : List UInt8) :
    position blankLine (utf8 (headerLines lines ++ last.toList) ++ (blankLine ++ rest)) =
      some (utf8 (headerLines lines ++ last.toList)).length := by
  induction lines with
  | nil =>
      have hhere : position blankLine (blankLine ++ rest) = some 0 := by
        rw [blankLine_eq]
        rfl
      rw [headerLines, List.flatMap_nil, List.nil_append, position_line hlast.2, hhere]
      rfl
  | cons line lines ih =>
      have hline := hlines line List.mem_cons_self
      have hrest := ih fun l hl => hlines l (List.mem_cons_of_mem line hl)
      obtain ⟨byte, behind, hnext, hbyte⟩ : ∃ byte behind,
          utf8 (headerLines lines ++ last.toList) = byte :: behind ∧ byte ≠ '\r'.toUInt8 := by
        cases lines with
        | nil => exact exists_first_byte hlast.1 hlast.2
        | cons next lines =>
            have hnext := hlines next (List.mem_cons_of_mem line List.mem_cons_self)
            obtain ⟨byte, behind, hfirst, hbyte⟩ := exists_first_byte hnext.1 hnext.2
            rw [utf8_line_cons, hfirst]
            exact ⟨byte, _, rfl, hbyte⟩
      rw [hnext] at hrest
      rw [utf8_line_cons, List.append_assoc, position_line hline.2, hnext, List.cons_append,
        List.cons_append, List.cons_append, position_crlf hbyte, ← List.cons_append, hrest]
      simp only [Option.map_some, Option.some.injEq, List.length_append, List.length_cons]
      omega

/-! ## Reading header lines -/

/-- The lines of a header are read as they are. -/
theorem lines_headers {headers : List String} {last : String}
    (hheaders : ∀ line ∈ headers, '\n' ∉ line.toList)
    (hlast : last ≠ "" ∧ '\n' ∉ last.toList) :
    lines (String.ofList (headerLines headers ++ last.toList)) = headers ++ [last] := by
  have hwritten : headerLines headers =
      (headers.map (· ++ "\r")).flatMap fun line => line.toList ++ ['\n'] := by
    have hreturn : "\r".toList = ['\r'] := by decide
    rw [headerLines, List.flatMap_map]
    simp [hreturn]
  have hnewline : ∀ line ∈ headers.map (· ++ "\r"), '\n' ∉ line.toList := by
    intro line hline
    obtain ⟨text, htext, rfl⟩ := List.mem_map.mp hline
    rw [String.toList_append, List.mem_append]
    exact fun hmem => hmem.elim (hheaders text htext) (by decide)
  have hread : headers.map (withoutReturn ∘ (· ++ "\r")) = headers := by
    rw [show withoutReturn ∘ (· ++ "\r") = id from funext fun _ => withoutReturn_append,
      List.map_id]
  rw [lines, String.toList_ofList, hwritten, linesFrom_flatMap_append hnewline, List.map_map,
    hread, linesFrom_last (by simpa using hlast.1) hlast.2, List.reverse_nil, List.nil_append,
    String.ofList_toList]

theorem splitCrlf_line {line : List Char} (h : '\r' ∉ line) (rest : List Char) :
    splitCrlf (line ++ '\r' :: '\n' :: rest) = line :: splitCrlf rest := by
  induction line with
  | nil => rw [List.nil_append, splitCrlf]
  | cons c line ih =>
      obtain ⟨hc, hline⟩ := not_or.mp (List.mem_cons.not.mp h)
      rw [List.cons_append, splitCrlf, ih hline]
      exact fun _ heq => absurd heq.symm hc

theorem splitCrlf_last {line : List Char} (h : '\r' ∉ line) : splitCrlf line = [line] := by
  induction line with
  | nil => rfl
  | cons c line ih =>
      obtain ⟨hc, hline⟩ := not_or.mp (List.mem_cons.not.mp h)
      rw [splitCrlf, ih hline]
      exact fun _ heq => absurd heq.symm hc

/-- Lines without returns are cut as they were written. -/
theorem splitCrlf_headers {headers : List String} {last : String}
    (hheaders : ∀ line ∈ headers, '\r' ∉ line.toList) (hlast : '\r' ∉ last.toList) :
    splitCrlf (headerLines headers ++ last.toList) =
      (headers.map String.toList) ++ [last.toList] := by
  induction headers with
  | nil => exact splitCrlf_last hlast
  | cons line headers ih =>
      rw [headerLines_cons, List.append_assoc, List.cons_append, List.cons_append,
        splitCrlf_line (hheaders line List.mem_cons_self),
        ih fun l hl => hheaders l (List.mem_cons_of_mem line hl)]
      rfl

/-- The digits of a number are no ends of lines, and no whitespace. -/
theorem digits_visible (n : Nat) : ∀ c ∈ (toString n).toList,
    c ≠ '\r' ∧ c ≠ '\n' ∧ isWhitespace c = false := by
  intro c hc
  rw [Nat.toString_eq_ofList_toDigits, String.toList_ofList] at hc
  have hdigit := Nat.isDigit_of_mem_toDigits (by decide) (by decide) hc
  have hbounds := toNat_of_isDigit hdigit
  refine ⟨?_, ?_, ?_⟩
  · rintro rfl
    cases hdigit
  · rintro rfl
    cases hdigit
  · simp only [isWhitespace]
    simp
    omega

end Fraisier.Data
