import Fraisier.Data.HeaderLines
import Fraisier.Ipc.Framing

/-!
# Frames that are written and read

The core and an adapter write frames that both of them read, with other headers or without,
whatever the bytes of the body are: `frames_round_trip`. `readers_sound_iff` says for which
inputs the readers compute nothing unsound.
-/

namespace Fraisier.Ipc

open Fraisier.Data

/-! ## Repeated reading -/

theorem length_lt_of_declares {stream rest : List UInt8} {length : Nat}
    (h : Declares stream length rest) : rest.length < stream.length := by
  obtain ⟨headers, blank, lengths, rfl, -, ⟨-, hends⟩, -, -⟩ := h
  have hblank : 0 < (utf8 blank.toList).length := by
    refine List.length_pos_of_ne_nil fun hnil => ?_
    have hempty : blank.toList = [] := utf8_injective hnil
    obtain ⟨text, -, rfl⟩ | ⟨hne, -, -⟩ := hends
    · rw [String.toList_append] at hempty
      exact absurd (List.append_eq_nil_iff.mp hempty).2 (by decide)
    · exact hne (String.toList_eq_nil_iff.mp hempty)
  rw [List.length_append, List.length_append]
  omega

/-- A message that is read leaves less of the stream. -/
theorem length_lt_of_readMessage {stream body rest : List UInt8}
    (h : (readMessage stream).answer = .ok (some (body, rest))) :
    rest.length < stream.length := by
  by_cases hdeclares : ∃ length rest, Declares stream length rest
  · obtain ⟨length, behind, hdeclares⟩ := hdeclares
    have hlt := length_lt_of_declares hdeclares
    rw [readMessage_of_declares hdeclares] at h
    dsimp only at h
    split at h
    · cases h
    · split at h
      · cases h
      · cases h
        rw [List.length_drop]
        omega
  · rw [readMessage] at h
    split at h
    next => cases h
    next => cases h
    next length behind hread => exact absurd ⟨length, behind, readHeader_iff.mp hread⟩ hdeclares

/-- Read messages off a stream up to a clean end. -/
def readMessages (stream : List UInt8) : Except (Failure IoError) (List (List UInt8)) :=
  match _h : (readMessage stream).answer with
  | .error failure => .error failure
  | .ok none => .ok []
  | .ok (some (body, rest)) => (readMessages rest).map (body :: ·)
termination_by stream.length
decreasing_by exact length_lt_of_readMessage _h

theorem readMessages_ended {stream : List UInt8} (h : (readMessage stream).answer = .ok none) :
    readMessages stream = .ok [] := by
  rw [readMessages]
  split
  next hanswer => cases h.symm.trans hanswer
  next => rfl
  next hanswer => cases h.symm.trans hanswer

theorem readMessages_message {stream body rest : List UInt8}
    (h : (readMessage stream).answer = .ok (some (body, rest))) :
    readMessages stream = (readMessages rest).map (body :: ·) := by
  rw [readMessages]
  split
  next hanswer => cases h.symm.trans hanswer
  next hanswer => cases h.symm.trans hanswer
  next hanswer =>
    cases h.symm.trans hanswer
    rfl

/-! ## Frames with other headers -/

/-- The header that declares a length. -/
def contentLength (length : Nat) : String :=
  "Content-Length: " ++ toString length

/-- A header that declares no length, ASCII or not. -/
structure OtherHeader (line : String) : Prop where
  ne : line ≠ ""
  inline : ∀ c ∈ line.toList, c ≠ '\r' ∧ c ≠ '\n'
  other : lengthText line = none

/-- A header block with other headers before and after the one that declares the length. -/
def headBlock (before after : List String) (length : Nat) : List UInt8 :=
  utf8 (headerLines (before ++ contentLength length :: after) ++ ['\r', '\n'])

/-- A body behind such a header block. -/
def frameWith (before after : List String) (body : List UInt8) : List UInt8 :=
  headBlock before after body.length ++ body

theorem frameWith_nil (body : List UInt8) : frameWith [] [] body = header body ++ body := by
  simp [frameWith, headBlock, headerLines, header, contentLength]

/-! ## Frames and the core's reader -/

/-- A header line as it is written. -/
def ended (line : String) : String :=
  line ++ "\r\n"

theorem ended_toList (line : String) : (ended line).toList = line.toList ++ ['\r', '\n'] := by
  have hend : "\r\n".toList = ['\r', '\n'] := by decide
  rw [ended, String.toList_append, hend]

theorem trimLineEnd_ended {line : String} (h : ∀ c ∈ line.toList, c ≠ '\r' ∧ c ≠ '\n') :
    trimLineEnd (ended line) = line := by
  have hreverse : (ended line).toList.reverse = '\n' :: '\r' :: line.toList.reverse := by
    rw [ended_toList, List.reverse_append]
    rfl
  rw [trimLineEnd, hreverse, List.dropWhile_cons_of_pos (by decide),
    List.dropWhile_cons_of_pos (by decide), dropWhile_eq_self, List.reverse_reverse,
    String.ofList_toList]
  intro c hc
  have hinline := h c (List.mem_reverse.mp hc)
  simp [hinline]

theorem isLine_ended {line : String} (h : ∀ c ∈ line.toList, c ≠ '\r' ∧ c ≠ '\n') :
    IsLine (ended line) := by
  have hreturn : "\r".toList = ['\r'] := by decide
  have hnewline : "\n".toList = ['\n'] := by decide
  refine ⟨line ++ "\r", ?_, ?_⟩
  · rw [String.toList_append, List.mem_append, hreturn]
    exact fun hmem => hmem.elim (fun hline => (h _ hline).2 rfl) (by decide)
  · rw [← String.toList_inj, ended_toList, String.toList_append, String.toList_append, hreturn,
      hnewline, List.append_assoc, List.singleton_append]

theorem contentLength_inline (length : Nat) :
    ∀ c ∈ (contentLength length).toList, c ≠ '\r' ∧ c ≠ '\n' := by
  intro c hc
  rw [contentLength, String.toList_append, List.mem_append] at hc
  obtain hc | hc := hc
  · have hall : ("Content-Length: ".toList.all fun c => c != '\r' && c != '\n') = true := by
      decide
    simpa using List.all_eq_true.mp hall c hc
  · exact ⟨(digits_visible _ c hc).1, (digits_visible _ c hc).2.1⟩

theorem lengthText_contentLength (length : Nat) :
    lengthText (contentLength length) = some (" " ++ toString length) := by
  have hname : "Content-Length: " = "Content-Length:" ++ " " := by decide
  rw [lengthText, contentLength, hname, String.append_assoc, stripPrefix_append]

theorem contentLength_ne (length : Nat) : contentLength length ≠ "" := by
  intro hempty
  have htext := lengthText_contentLength length
  rw [hempty] at htext
  cases htext

theorem readLength_written {n : Nat} (h : n < usizeSize) :
    readLength (" " ++ toString n) = some n := by
  have htrim := @trim_of_visible [' '] (toString n).toList
    (List.forall_mem_singleton.mpr (by decide)) fun c hc => (digits_visible n c hc).2.2
  have hblank : " ".toList = [' '] := by decide
  have htext : " " ++ toString n = String.ofList ([' '] ++ (toString n).toList) := by
    rw [← String.toList_inj, String.toList_append, hblank, String.toList_ofList]
  rw [readLength, htext, htrim, String.ofList_toList, parseUnsigned_toString h]

theorem OtherHeader.ended_ne {line : String} (h : OtherHeader line) :
    trimLineEnd (ended line) ≠ "" := by
  rw [trimLineEnd_ended h.inline]
  exact h.ne

theorem utf8_headerLines (lines : List String) :
    utf8 (headerLines lines) = (lines.map ended).flatMap fun line => utf8 line.toList := by
  induction lines with
  | nil => rfl
  | cons line lines ih =>
      rw [headerLines, List.flatMap_cons, utf8_append, List.map_cons, List.flatMap_cons,
        ended_toList, ← ih]
      rfl

/-- Other headers may stand in front of a header block. -/
theorem headerBlock_others {lines : List String} (h : ∀ line ∈ lines, OtherHeader line)
    {declared : Option Nat} {stream rest : List UInt8} {length : Nat}
    (hblock : HeaderBlock declared stream length rest) :
    HeaderBlock declared (utf8 (headerLines lines) ++ stream) length rest := by
  rw [utf8_headerLines]
  induction lines with
  | nil => exact hblock
  | cons line lines ih =>
      have hline := h line List.mem_cons_self
      rw [List.map_cons, List.flatMap_cons, List.append_assoc]
      refine .other (isLine_ended hline.inline) hline.ended_ne ?_
        (ih fun l hl => h l (List.mem_cons_of_mem line hl))
      rw [trimLineEnd_ended hline.inline]
      exact hline.other

/-- A header block is one to the core, whatever follows it. -/
theorem declares_headBlock {before after : List String} {length : Nat}
    (hbefore : ∀ line ∈ before, OtherHeader line) (hafter : ∀ line ∈ after, OtherHeader line)
    (hlength : length < usizeSize) (rest : List UInt8) :
    Declares (headBlock before after length ++ rest) length rest := by
  have hinline := contentLength_inline length
  have hended : HeaderBlock (some length) (utf8 ['\r', '\n'] ++ rest) length rest := by
    refine ⟨[], "\r\n", [], by simp, by simp, ⟨by decide, .inl ⟨"\r", by decide, by decide⟩⟩,
      rfl, rfl⟩
  have hdeclared : HeaderBlock none (utf8 (ended (contentLength length)).toList ++
      (utf8 (headerLines after) ++ (utf8 ['\r', '\n'] ++ rest))) length rest := by
    refine .declare (isLine_ended hinline) ?_ ?_ (readLength_written hlength)
      (headerBlock_others hafter hended)
    · rw [trimLineEnd_ended hinline]
      exact contentLength_ne length
    · rw [trimLineEnd_ended hinline, lengthText_contentLength]
  have hblock : headBlock before after length ++ rest = utf8 (headerLines before) ++
      (utf8 (ended (contentLength length)).toList ++
        (utf8 (headerLines after) ++ (utf8 ['\r', '\n'] ++ rest))) := by
    rw [headBlock, headerLines, List.flatMap_append, List.flatMap_cons, ended_toList]
    simp only [utf8_append, List.append_assoc, headerLines]
  rw [Declares, hblock]
  exact headerBlock_others hbefore hdeclared

/-- The core reads the body of a frame, and leaves what follows it. -/
theorem readMessage_frame {before after : List String} {body : List UInt8}
    (hbefore : ∀ line ∈ before, OtherHeader line) (hafter : ∀ line ∈ after, OtherHeader line)
    (hfits : body.length ≤ isizeMax) (suffix : List UInt8) :
    (readMessage (frameWith before after body ++ suffix)).answer = .ok (some (body, suffix)) := by
  have hsize : isizeMax < usizeSize := by decide
  have hdeclares := declares_headBlock hbefore hafter (Nat.lt_of_le_of_lt hfits hsize)
    (body ++ suffix)
  have hlong : ¬ (body ++ suffix).length < body.length := by
    rw [List.length_append]
    omega
  rw [frameWith, List.append_assoc, readMessage_of_declares hdeclares]
  dsimp only
  rw [if_neg (Nat.not_lt.mpr hfits), if_neg hlong, List.take_left, List.drop_left]

/-- The frames that a writer has written are read one after the other. -/
theorem readMessages_frames {bodies : List (List UInt8)}
    (h : ∀ body ∈ bodies, body.length ≤ isizeMax) :
    readMessages (bodies.flatMap fun body => frameWith [] [] body) = .ok bodies := by
  induction bodies with
  | nil => exact readMessages_ended rfl
  | cons body bodies ih =>
      have hread := @readMessage_frame [] [] body (by simp) (by simp)
        (h body List.mem_cons_self) (bodies.flatMap fun body => frameWith [] [] body)
      rw [List.flatMap_cons, readMessages_message hread,
        ih fun b hb => h b (List.mem_cons_of_mem body hb)]
      rfl

/-! ## Frames and the adapters' reader -/

theorem separator_eq : separator = blankLine := rfl

/-- A header block is lines up to an empty one. -/
theorem exists_headers {before after : List String} (length : Nat)
    (hbefore : ∀ line ∈ before, OtherHeader line) (hafter : ∀ line ∈ after, OtherHeader line) :
    ∃ init last, before ++ contentLength length :: after = init ++ [last] ∧
      (∀ line ∈ init ++ [last], line ≠ "" ∧ ∀ c ∈ line.toList, c ≠ '\r' ∧ c ≠ '\n') ∧
      headBlock before after length = utf8 (headerLines init ++ last.toList) ++ separator := by
  have hne : before ++ contentLength length :: after ≠ [] := by simp
  obtain ⟨init, last, hlines⟩ : ∃ init last, before ++ contentLength length :: after =
      init ++ [last] :=
    ⟨_, _, (List.dropLast_append_getLast hne).symm⟩
  refine ⟨init, last, hlines, ?_, ?_⟩
  · intro line hline
    rw [← hlines, List.mem_append, List.mem_cons] at hline
    obtain hline | rfl | hline := hline
    · exact ⟨(hbefore line hline).ne, (hbefore line hline).inline⟩
    · exact ⟨contentLength_ne length, contentLength_inline length⟩
    · exact ⟨(hafter line hline).ne, (hafter line hline).inline⟩
  · rw [headBlock, hlines, headerLines, List.flatMap_append, List.flatMap_singleton]
    simp only [List.append_assoc, utf8_append, headerLines]
    rfl

/-- A header block is one to an adapter, and the body starts behind it. -/
theorem framed_headBlock {before after : List String} {length : Nat}
    (hbefore : ∀ line ∈ before, OtherHeader line) (hafter : ∀ line ∈ after, OtherHeader line)
    (hlength : length < usizeSize) (rest : List UInt8) :
    Framed (headBlock before after length ++ rest) (headBlock before after length).length
      length := by
  obtain ⟨init, last, hlines, hall, hblock⟩ := exists_headers length hbefore hafter
  have hlast := hall last (by simp)
  have hinit : ∀ line ∈ init, line ≠ "" ∧ ∀ c ∈ line.toList, c ≠ '\r' ∧ c ≠ '\n' :=
    fun line hline => hall line (List.mem_append_left _ hline)
  refine framed_iff.mpr ⟨(utf8 (headerLines init ++ last.toList)).length,
    String.ofList (headerLines init ++ last.toList), " " ++ toString length, ?_, ?_, ?_,
    readLength_written hlength, ?_⟩
  · rw [hblock, List.append_assoc, separator_eq]
    exact position_headers (fun line hline => ⟨(hinit line hline).1, fun hmem =>
      ((hinit line hline).2 _ hmem).1 rfl⟩) ⟨hlast.1, fun hmem => (hlast.2 _ hmem).1 rfl⟩ _
  · rw [hblock, List.append_assoc, List.take_left]
    exact fromUtf8_eq_some_iff.mpr (by rw [String.toList_ofList])
  · have hread := lines_headers (fun line hline hmem => ((hinit line hline).2 _ hmem).2 rfl)
      ⟨hlast.1, fun hmem => (hlast.2 _ hmem).2 rfl⟩
    have hnone : before.findSome? lengthText = none :=
      List.findSome?_eq_none_iff.mpr fun line hline => (hbefore line hline).other
    rw [hread, ← hlines, List.findSome?_append, hnone, Option.none_or, List.findSome?_cons,
      lengthText_contentLength]
  · rw [hblock, List.length_append]

/-- An adapter reads the body of a frame, whatever follows it. -/
theorem extract_frame {before after : List String} {body suffix : List UInt8}
    (hbefore : ∀ line ∈ before, OtherHeader line) (hafter : ∀ line ∈ after, OtherHeader line)
    (hfits : (frameWith before after body ++ suffix).length ≤ isizeMax) (checks : Bool) :
    (extract checks (frameWith before after body ++ suffix)).answer = .ok body := by
  have hsize : isizeMax < usizeSize := by decide
  rw [frameWith, List.length_append, List.length_append] at hfits
  have hframed := framed_headBlock hbefore hafter (by omega : body.length < usizeSize)
    (body ++ suffix)
  rw [frameWith, List.append_assoc, (@extract_of_framed checks _ _ _ hframed (by omega)).2,
    List.drop_left, List.take_left, if_pos]
  rw [List.length_append, List.length_append]
  omega

/-- Both readers read what both writers write: message after message off a stream, and the one
that a buffer begins with. Neither minds other headers. -/
theorem frames_round_trip :
    (∀ bodies : List (List UInt8), (∀ body ∈ bodies, body.length ≤ isizeMax) →
      readMessages (bodies.foldl writeMessage []) = .ok bodies ∧
        readMessages (bodies.foldl writeFramed []) = .ok bodies) ∧
    (∀ (checks : Bool) (body suffix : List UInt8),
      (writeFramed [] body ++ suffix).length ≤ isizeMax →
        (extract checks (writeFramed [] body ++ suffix)).answer = .ok body) ∧
    ∀ (checks : Bool) (before after : List String) (body suffix : List UInt8),
      (∀ line ∈ before, OtherHeader line) → (∀ line ∈ after, OtherHeader line) →
      (frameWith before after body ++ suffix).length ≤ isizeMax →
        (readMessage (frameWith before after body ++ suffix)).answer = .ok (some (body, suffix)) ∧
          (extract checks (frameWith before after body ++ suffix)).answer = .ok body := by
  have hframe : ∀ body : List UInt8, writeFramed [] body = frameWith [] [] body := fun body =>
    (frameWith_nil body).symm
  have hwritten : ∀ (bodies : List (List UInt8)) (writer : List UInt8),
      bodies.foldl writeMessage writer =
        writer ++ bodies.flatMap fun body => frameWith [] [] body := by
    intro bodies
    induction bodies with
    | nil => simp
    | cons body bodies ih =>
        intro writer
        rw [List.foldl_cons, ih, writeMessage, List.flatMap_cons, frameWith_nil]
        simp only [List.append_assoc]
  refine ⟨fun bodies hbodies => ?_, fun checks body suffix hfits => ?_,
    fun checks before after body suffix hbefore hafter hfits => ⟨?_, ?_⟩⟩
  · have hread := readMessages_frames hbodies
    have hall := hwritten bodies []
    rw [List.nil_append] at hall
    exact ⟨hall ▸ hread, hall ▸ hread⟩
  · rw [hframe] at hfits ⊢
    exact extract_frame (by simp) (by simp) hfits checks
  · refine readMessage_frame hbefore hafter ?_ suffix
    rw [frameWith, List.length_append, List.length_append] at hfits
    omega
  · exact extract_frame hbefore hafter hfits checks

theorem frames_round_trip_hello :
    readMessages ([[104, 105], [13, 10, 13, 10]].foldl writeMessage []) =
        .ok [[104, 105], [13, 10, 13, 10]] ∧
      (extract true (writeFramed [] [104, 105] ++ [0])).answer = .ok [104, 105] ∧
      (extract false (frameWith ["Content-Type: text/json"] [] [104, 105] ++ [])).answer =
        .ok [104, 105] := by
  have hother : ∀ line ∈ ["Content-Type: text/json"], OtherHeader line := by
    intro line hline
    rw [List.mem_singleton.mp hline]
    have hall : ("Content-Type: text/json".toList.all fun c => c != '\r' && c != '\n') = true := by
      decide
    exact ⟨by decide, fun c hc => by simpa using List.all_eq_true.mp hall c hc, by decide⟩
  refine ⟨(frames_round_trip.1 _ (by simp [isizeMax])).1,
    frames_round_trip.2.1 true _ _ ?_,
    (frames_round_trip.2.2 false _ _ _ _ hother (by simp) ?_).2⟩
  · decide
  · decide

/-! ## Safety -/

/-- The core's reader computes nothing unsound, and says so when a stream is too short. -/
def ReadsSafely (stream : List UInt8) : Prop :=
  (readMessage stream).Sound ∧ ∀ length rest, Declares stream length rest → rest.length < length →
    (readMessage stream).answer = .error (.error earlyEof)

/-- So does an adapter's. -/
def ExtractsSafely (checks : Bool) (buf : List UInt8) : Prop :=
  (extract checks buf).Sound ∧ ∀ bodyStart length, Framed buf bodyStart length →
    buf.length < bodyStart + length →
    (extract checks buf).answer = .error (.error (truncated length (buf.length - bodyStart)))

theorem readsSafely_iff {stream : List UInt8} : ReadsSafely stream ↔
    ∀ length rest, Declares stream length rest → length ≤ rest.length ∧ length ≤ isizeMax := by
  constructor
  · rintro ⟨⟨hoperations, hpanic⟩, -⟩ length rest hdeclares
    rw [readMessage_of_declares hdeclares] at hoperations hpanic
    refine ⟨hoperations (.request length rest.length) (by simp), ?_⟩
    by_contra hlong
    exact hpanic (if_pos (Nat.lt_of_not_le hlong))
  · intro h
    by_cases hdeclares : ∃ length rest, Declares stream length rest
    · obtain ⟨length, rest, hdeclares⟩ := hdeclares
      obtain ⟨hfits, hsize⟩ := h length rest hdeclares
      refine ⟨⟨?_, ?_⟩, fun n behind hn hshort => absurd (h n behind hn).1 (Nat.not_le.mpr hshort)⟩
      · rw [readMessage_of_declares hdeclares]
        simpa [Operation.Sound] using hfits
      · rw [readMessage_of_declares hdeclares]
        dsimp only
        rw [if_neg (Nat.not_lt.mpr hsize), if_neg (Nat.not_lt.mpr hfits)]
        exact fun heq => nomatch heq
    · have hnone : ∀ length rest, ¬ Declares stream length rest := fun length rest h =>
        hdeclares ⟨length, rest, h⟩
      exact ⟨readMessage_of_not_declares hnone, fun n behind hn => absurd hn (hnone n behind)⟩

theorem extractsSafely_iff {checks : Bool} {buf : List UInt8} : ExtractsSafely checks buf ↔
    ∀ bodyStart length, Framed buf bodyStart length → bodyStart + length < usizeSize := by
  constructor
  · rintro ⟨hsound, -⟩ bodyStart length hframed
    by_contra hge
    exact not_sound_of_framed hframed (Nat.le_of_not_lt hge) hsound
  · intro h
    refine ⟨?_, fun bodyStart length hframed hshort => ?_⟩
    · by_cases hframed : ∃ bodyStart length, Framed buf bodyStart length
      · obtain ⟨bodyStart, length, hframed⟩ := hframed
        exact (extract_of_framed hframed (h _ _ hframed)).1
      · exact extract_of_not_framed fun bodyStart length h => hframed ⟨bodyStart, length, h⟩
    · rw [(extract_of_framed hframed (h _ _ hframed)).2, if_neg (Nat.not_le.mpr hshort)]

/-- The core's reader is safe where what a stream declares is there, an adapter's where what a
buffer declares does not overflow. -/
theorem readers_safe_iff (bytes : List UInt8) :
    (ReadsSafely bytes ↔
      ∀ length rest, Declares bytes length rest → length ≤ rest.length ∧ length ≤ isizeMax) ∧
    ∀ checks, (ExtractsSafely checks bytes ↔
      ∀ bodyStart length, Framed bytes bodyStart length → bodyStart + length < usizeSize) :=
  ⟨readsSafely_iff, fun _ => extractsSafely_iff⟩

/-- The largest length there is overflows the one reader and the memory of the other. -/
theorem largest_length_unsafe :
    ¬ ReadsSafely (headBlock [] [] (usizeSize - 1)) ∧
      ¬ ExtractsSafely true (headBlock [] [] (usizeSize - 1)) := by
  have hlt : usizeSize - 1 < usizeSize := by decide
  constructor
  · intro hsafe
    have hdeclares := @declares_headBlock [] [] _ (by simp) (by simp) hlt []
    rw [List.append_nil] at hdeclares
    exact absurd (readsSafely_iff.mp hsafe _ _ hdeclares).1 (by decide)
  · intro hsafe
    have hframed := @framed_headBlock [] [] _ (by simp) (by simp) hlt []
    rw [List.append_nil] at hframed
    have hsum := extractsSafely_iff.mp hsafe _ _ hframed
    have hpos : 0 < (headBlock [] [] (usizeSize - 1)).length := by
      rw [headBlock, utf8_append, List.length_append]
      exact Nat.lt_of_lt_of_le (by decide) (Nat.le_add_left _ _)
    omega

end Fraisier.Ipc
