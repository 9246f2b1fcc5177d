import Fraisier.Data.Words
import Fraisier.Webhook.Server

/-!
# How reads are cut

Where a stream ends well, what is read of it depends on how it was cut into reads only by the
cap on the header: a header that ends more than one byte behind the cap, but within one more
read, is accepted or not. `chunking_irrelevant_iff` says exactly when that matters.
-/

namespace Fraisier.Webhook

open Fraisier.Data

@[simp] theorem received_nil : received [] = [] := rfl

@[simp] theorem received_cons (read : Read) (reads : List Read) :
    received (read :: reads) = read.bytes ++ received reads := rfl

@[simp] theorem received_append (reads reads' : List Read) :
    received (reads ++ reads') = received reads ++ received reads' :=
  List.flatMap_append

/-- Reads that bring one byte each. -/
def singly (bytes : List UInt8) : List Read :=
  bytes.map fun byte => ⟨[byte], List.cons_ne_nil _ _, by simp⟩

@[simp] theorem received_singly (bytes : List UInt8) : received (singly bytes) = bytes := by
  induction bytes with
  | nil => rfl
  | cons byte bytes ih =>
      rw [singly, List.map_cons, received_cons, ← singly, ih]
      rfl

/-! ## The end of the header -/

/-- The request that a whole stream brings, whatever its length. -/
def requestOf (bytes : List UInt8) (headerEnd maxBody : Nat) : Except ReadFailure Request := do
  let request ← parseHead (bytes.take headerEnd)
  let length := contentLength request.headers
  if maxBody < length then
    .error (.message ("request body too large (" ++ toString length ++ " > " ++
      toString maxBody ++ " bytes)"))
  else return { request with body := (bytes.drop (headerEnd + 4)).take length }

theorem requestOf_accepted {bytes : List UInt8} {headerEnd maxBody : Nat} {request : Request}
    (h : parseHead (bytes.take headerEnd) = .ok request)
    (hlength : contentLength request.headers ≤ maxBody) :
    requestOf bytes headerEnd maxBody = .ok { request with
      body := (bytes.drop (headerEnd + 4)).take (contentLength request.headers) } := by
  rw [requestOf, h]
  exact if_neg (Nat.not_lt.mpr hlength)

theorem blankLine_ne_nil : blankLine ≠ [] :=
  List.cons_ne_nil _ _

@[simp] theorem blankLine_length : blankLine.length = 4 := rfl

variable {ending : Ending} {buf : List UInt8} {reads : List Read} {headerEnd : Nat}

/-- What has been read is searched for the end of the header before anything else. -/
theorem readHead_found (h : position blankLine buf = some headerEnd) :
    readHead ending buf reads = .ok (headerEnd, buf, reads) := by
  cases reads <;> simp only [readHead, h]

/-- With more bytes than the cap and no end of the header, no more is read. -/
theorem readHead_tooLarge (h : position blankLine buf = none)
    (hlong : maxHeaderBytes < buf.length) :
    readHead ending buf reads = .error (.message "request headers too large") := by
  cases reads <;> simp only [readHead, h, if_pos hlong]

/-- With no more bytes than the cap, the next read is added. -/
theorem readHead_next (h : position blankLine buf = none) (hshort : buf.length ≤ maxHeaderBytes)
    (read : Read) :
    readHead ending buf (read :: reads) = readHead ending (buf ++ read.bytes) reads := by
  rw [readHead, h]
  exact if_neg (Nat.not_lt.mpr hshort)

/-- Up to the cap, reads are as good as their bytes. -/
theorem readHead_append (h : position blankLine (buf ++ received reads) = none)
    (hshort : (buf ++ received reads).length ≤ maxHeaderBytes) (more : List Read) :
    readHead ending buf (reads ++ more) = readHead ending (buf ++ received reads) more := by
  induction reads generalizing buf with
  | nil => rw [List.nil_append, received_nil, List.append_nil]
  | cons read reads ih =>
      rw [received_cons, ← List.append_assoc] at h hshort
      have hfront : position blankLine buf = none := by
        rw [List.append_assoc] at h
        exact position_front_none blankLine_ne_nil h
      have hlength : buf.length ≤ maxHeaderBytes := by
        rw [List.append_assoc, List.length_append] at hshort
        omega
      rw [List.cons_append, readHead_next hfront hlength, ih h hshort, received_cons,
        List.append_assoc]

/-- A header that is read is the one of all the bytes. -/
theorem received_of_readHead {read : Nat × List UInt8 × List Read}
    (h : readHead ending buf reads = .ok read) :
    position blankLine read.2.1 = some read.1 ∧
      read.2.1 ++ received read.2.2 = buf ++ received reads := by
  induction reads generalizing buf with
  | nil =>
      cases hposition : position blankLine buf with
      | some headerEnd =>
          rw [readHead_found hposition] at h
          cases h
          exact ⟨hposition, rfl⟩
      | none =>
          rw [readHead, hposition] at h
          dsimp only at h
          split at h
          · cases h
          · cases ending <;> cases h
  | cons next reads ih =>
      cases hposition : position blankLine buf with
      | some headerEnd =>
          rw [readHead_found hposition] at h
          cases h
          exact ⟨hposition, rfl⟩
      | none =>
          by_cases hlong : maxHeaderBytes < buf.length
          · rw [readHead_tooLarge hposition hlong] at h
            cases h
          · rw [readHead_next hposition (Nat.le_of_not_lt hlong)] at h
            obtain ⟨hfound, hbytes⟩ := ih h
            exact ⟨hfound, by rw [hbytes, received_cons, List.append_assoc]⟩

/-- A header that ends within a byte of the cap is read, however it is cut. -/
theorem exists_readHead (h : position blankLine (buf ++ received reads) = some headerEnd)
    (hshort : headerEnd + 4 ≤ maxHeaderBytes + 1) :
    ∃ read, readHead ending buf reads = .ok read := by
  induction reads generalizing buf with
  | nil =>
      rw [received_nil, List.append_nil] at h
      exact ⟨_, readHead_found h⟩
  | cons next reads ih =>
      have hfront := position_front blankLine_ne_nil h
      rw [blankLine_length] at hfront
      by_cases hread : headerEnd + 4 ≤ buf.length
      · exact ⟨_, readHead_found (hfront.trans (if_pos hread))⟩
      · rw [readHead_next (hfront.trans (if_neg hread)) (by omega)]
        exact ih (by rwa [List.append_assoc, ← received_cons])

/-- A header that ends more than one read behind the cap is not, however it is cut. -/
theorem readHead_error (h : position blankLine (buf ++ received reads) = some headerEnd)
    (hbuf : buf.length ≤ maxHeaderBytes) (hlong : maxHeaderBytes + 1024 < headerEnd + 4) :
    readHead ending buf reads = .error (.message "request headers too large") := by
  induction reads generalizing buf with
  | nil =>
      rw [received_nil, List.append_nil] at h
      have hle := le_of_prefix_drop blankLine_ne_nil
        ((position_eq_some_iff blankLine_ne_nil).mp h).1
      rw [blankLine_length] at hle
      omega
  | cons next reads ih =>
      have hle := next.le
      have hfront := position_front blankLine_ne_nil h
      rw [blankLine_length, if_neg (by omega)] at hfront
      have hmore : position blankLine ((buf ++ next.bytes) ++ received reads) = some headerEnd := by
        rwa [List.append_assoc, ← received_cons]
      have hlength : (buf ++ next.bytes).length = buf.length + next.bytes.length :=
        List.length_append
      rw [readHead_next hfront hbuf]
      by_cases hcap : (buf ++ next.bytes).length ≤ maxHeaderBytes
      · exact ih hmore hcap
      · have hnext := position_front blankLine_ne_nil hmore
        rw [blankLine_length, if_neg (by omega)] at hnext
        exact readHead_tooLarge hnext (Nat.lt_of_not_le hcap)

/-! ## The body -/

theorem take_min_append (k : Nat) (l rest : List UInt8) :
    (l.take (min k l.length) ++ rest).take k = (l ++ rest).take k := by
  by_cases hk : k ≤ l.length
  · have hlength : (l.take k).length = k := List.length_take_of_le hk
    rw [Nat.min_eq_left hk, List.take_append_of_le_length (Nat.le_of_eq hlength.symm),
      List.take_append_of_le_length hk, List.take_take, Nat.min_self]
  · rw [Nat.min_eq_right (by omega), List.take_length]

/-- Of a stream that ends well, the body is what follows the header. -/
theorem readBody_closed (length : Nat) (body : List UInt8) (reads : List Read) :
    ∃ read, readBody .closed length body reads = .ok read ∧
      read.take length = (body ++ received reads).take length := by
  induction reads generalizing body with
  | nil =>
      refine ⟨body, ?_, by rw [received_nil, List.append_nil]⟩
      rw [readBody]
      split <;> rfl
  | cons next reads ih =>
      rw [readBody]
      split
      next hshort =>
        obtain ⟨read, hread, htake⟩ :=
          ih (body ++ next.bytes.take (min (length - body.length) next.bytes.length))
        refine ⟨read, hread, htake.trans ?_⟩
        rw [received_cons, List.append_assoc, List.take_append, take_min_append,
          ← List.take_append]
      next hlong =>
        refine ⟨body, rfl, ?_⟩
        rw [List.take_append_of_le_length (by omega)]

/-! ## Requests -/

/-- The request that a stream that ends well is read as, once its header is. -/
theorem readRequest_closed {read : Nat × List UInt8 × List Read}
    (h : readHead .closed [] reads = .ok read) (maxBody : Nat) :
    readRequest ⟨reads, .closed⟩ maxBody = requestOf (received reads) read.1 maxBody := by
  obtain ⟨headerEnd, buf, more⟩ := read
  obtain ⟨hposition, hbytes⟩ := received_of_readHead h
  rw [List.nil_append] at hbytes
  have hle := le_of_prefix_drop blankLine_ne_nil
    ((position_eq_some_iff blankLine_ne_nil).mp hposition).1
  rw [blankLine_length] at hle
  have hhead : buf.take headerEnd = (received reads).take headerEnd := by
    rw [← hbytes, List.take_append_of_le_length (by omega)]
  have hrest : buf.drop (headerEnd + 4) ++ received more =
      (received reads).drop (headerEnd + 4) := by
    rw [← hbytes, List.drop_append_of_le_length hle]
  rw [readRequest, requestOf, h]
  change (do
    let request ← parseHead (buf.take headerEnd)
    let length := contentLength request.headers
    if maxBody < length then
      .error (.message ("request body too large (" ++ toString length ++ " > " ++
        toString maxBody ++ " bytes)"))
    else
      let body ← readBody .closed length (buf.drop (headerEnd + 4)) more
      return { request with body := body.take length } : Except ReadFailure Request) = _
  rw [hhead]
  cases parseHead ((received reads).take headerEnd) with
  | error failure => rfl
  | ok request =>
      change (if maxBody < contentLength request.headers then _ else _) =
        (if maxBody < contentLength request.headers then _ else _)
      split
      · rfl
      · obtain ⟨body, hbody, htake⟩ := readBody_closed (contentLength request.headers)
          (buf.drop (headerEnd + 4)) more
        rw [hbody, ← hrest, ← htake]
        rfl

theorem readRequest_error {failure : ReadFailure}
    (h : readHead .closed [] reads = .error failure) (maxBody : Nat) :
    readRequest ⟨reads, .closed⟩ maxBody = .error failure := by
  rw [readRequest, h]
  rfl

/-- The header that is read ends where the one of the whole stream does. -/
theorem headerEnd_of_readHead {read : Nat × List UInt8 × List Read}
    (h : readHead .closed [] reads = .ok read) :
    position blankLine (received reads) = some read.1 := by
  obtain ⟨hposition, hbytes⟩ := received_of_readHead h
  rw [List.nil_append] at hbytes
  cases hwhole : position blankLine (received reads) with
  | none =>
      rw [← hbytes] at hwhole
      rw [position_front_none blankLine_ne_nil hwhole] at hposition
      cases hposition
  | some headerEnd =>
      rw [← hbytes] at hwhole
      rw [position_front blankLine_ne_nil hwhole] at hposition
      split at hposition
      · exact hposition
      · cases hposition

/-- What a stream that ends well is read as: the request it brings, or the header is not read. -/
theorem readRequest_cases (reads : List Read) (maxBody : Nat) :
    (∃ headerEnd, position blankLine (received reads) = some headerEnd ∧
      readRequest ⟨reads, .closed⟩ maxBody = requestOf (received reads) headerEnd maxBody) ∨
    ∃ failure, readHead .closed [] reads = .error failure ∧
      readRequest ⟨reads, .closed⟩ maxBody = .error failure := by
  cases h : readHead .closed [] reads with
  | ok read => exact .inl ⟨read.1, headerEnd_of_readHead h, readRequest_closed h maxBody⟩
  | error failure => exact .inr ⟨failure, rfl, readRequest_error h maxBody⟩

/-! ## Where the cut matters -/

/-- The same request, or an error in both. -/
def SameResult (result result' : Except ReadFailure Request) : Prop :=
  result.toOption = result'.toOption

/-- A header that is well formed and announces no more than the body may have. -/
def Acceptable (head : List UInt8) (maxBody : Nat) : Prop :=
  ∃ request, parseHead head = .ok request ∧ contentLength request.headers ≤ maxBody

/-- An acceptable header ends more than one byte behind the cap, but within one more read. -/
def Late (bytes : List UInt8) (maxBody : Nat) : Prop :=
  ∃ headerEnd, position blankLine bytes = some headerEnd ∧
    maxHeaderBytes + 1 < headerEnd + 4 ∧ headerEnd + 4 ≤ maxHeaderBytes + 1024 ∧
      Acceptable (bytes.take headerEnd) maxBody

theorem requestOf_toOption {bytes : List UInt8} {maxBody : Nat} :
    (requestOf bytes headerEnd maxBody).toOption ≠ none ↔
      Acceptable (bytes.take headerEnd) maxBody := by
  rw [requestOf, Acceptable]
  cases hhead : parseHead (bytes.take headerEnd) with
  | error failure => simp [Bind.bind, Except.bind, Except.toOption]
  | ok request =>
      by_cases hlength : maxBody < contentLength request.headers
      · simp [Bind.bind, Except.bind, Except.toOption, hlength]
      · simp [Bind.bind, Except.bind, Except.toOption, hlength, Pure.pure, Except.pure]
        omega

/-- A header that ends late can be cut with any number of bytes behind the cap read at once. -/
theorem exists_cut {bytes : List UInt8} {k : Nat} (h : position blankLine bytes = some headerEnd)
    (hlate : maxHeaderBytes < headerEnd + 4) (hpos : 0 < k) (hk : k ≤ 1024)
    (hlength : maxHeaderBytes + k ≤ bytes.length) :
    ∃ reads more, received reads = bytes ∧ readHead .closed [] reads =
      readHead .closed (bytes.take (maxHeaderBytes + k)) more := by
  have hfront := received_singly (bytes.take maxHeaderBytes)
  have hmore := received_singly (bytes.drop (maxHeaderBytes + k))
  have hsplit : bytes.take maxHeaderBytes ++ bytes.drop maxHeaderBytes = bytes :=
    List.take_append_drop _ _
  have hchunk : ((bytes.drop maxHeaderBytes).take k).length = k := by
    rw [List.length_take, List.length_drop]
    omega
  have hnone : position blankLine (bytes.take maxHeaderBytes) = none := by
    rw [← hsplit] at h
    rw [position_front blankLine_ne_nil h, blankLine_length, List.length_take, if_neg (by omega)]
  refine ⟨singly (bytes.take maxHeaderBytes) ++ ⟨(bytes.drop maxHeaderBytes).take k, ?_, ?_⟩ ::
    singly (bytes.drop (maxHeaderBytes + k)), singly (bytes.drop (maxHeaderBytes + k)), ?_, ?_⟩
  · exact List.ne_nil_of_length_pos (by omega)
  · omega
  · rw [received_append, received_cons, hfront, hmore, ← List.append_assoc, ← List.take_add,
      List.take_append_drop]
  · have hread := @readHead_append .closed [] (singly (bytes.take maxHeaderBytes))
      (by rw [hfront, List.nil_append]; exact hnone)
      (by rw [hfront, List.nil_append, List.length_take]; omega)
    rw [hread, hfront, List.nil_append, readHead_next hnone (by rw [List.length_take]; omega),
      ← List.take_add]

/-- A late header is accepted or not, by where it is cut. -/
theorem differ_of_late {bytes : List UInt8} {maxBody : Nat} (h : Late bytes maxBody) :
    ∃ reads reads', received reads = bytes ∧ received reads' = bytes ∧
      ¬ SameResult (readRequest ⟨reads, .closed⟩ maxBody)
        (readRequest ⟨reads', .closed⟩ maxBody) := by
  obtain ⟨headerEnd, hposition, hlate, hsoon, hacceptable⟩ := h
  have hlength := le_of_prefix_drop blankLine_ne_nil
    ((position_eq_some_iff blankLine_ne_nil).mp hposition).1
  rw [blankLine_length] at hlength
  have hfront : ∀ k, k ≤ bytes.length → position blankLine (bytes.take k) =
      if headerEnd + 4 ≤ k then some headerEnd else none := by
    intro k hk
    have hsplit := @position_front blankLine (bytes.take k) (bytes.drop k) _
      blankLine_ne_nil (by rw [List.take_append_drop]; exact hposition)
    rwa [List.length_take_of_le hk, blankLine_length] at hsplit
  -- one read up to the end of the header, or one that stops a byte behind the cap
  obtain ⟨reads, more, hreads, hread⟩ := exists_cut (k := headerEnd + 4 - maxHeaderBytes)
    hposition (by omega) (by omega) (by omega) (by omega)
  obtain ⟨reads', more', hreads', hread'⟩ := exists_cut (k := 1) hposition (by omega) (by omega)
    (by omega) (by omega)
  refine ⟨reads, reads', hreads, hreads', ?_⟩
  have hok : ∃ buf, readHead .closed [] reads = .ok (headerEnd, buf, more) := by
    refine ⟨_, hread.trans (readHead_found ?_)⟩
    rw [hfront _ (by omega), if_pos (by omega)]
  obtain ⟨buf, hok⟩ := hok
  have herror : readHead .closed [] reads' = .error (.message "request headers too large") := by
    rw [hread']
    refine readHead_tooLarge ?_ ?_
    · rw [hfront _ (by omega), if_neg (by omega)]
    · rw [List.length_take_of_le (by omega)]
      omega
  rw [readRequest_closed hok, readRequest_error herror, hreads]
  exact requestOf_toOption.mpr hacceptable

/-- Where the header ends early enough, the request of the whole stream is read. -/
theorem readRequest_early (h : position blankLine (received reads) = some headerEnd)
    (hearly : headerEnd + 4 ≤ maxHeaderBytes + 1) (maxBody : Nat) :
    readRequest ⟨reads, .closed⟩ maxBody = requestOf (received reads) headerEnd maxBody := by
  obtain ⟨read, hread⟩ := @exists_readHead .closed [] _ _
    (by rwa [List.nil_append]) hearly
  have hsame := headerEnd_of_readHead hread
  rw [h, Option.some.injEq] at hsame
  rw [readRequest_closed hread, hsame]

/-- Where it does not, and is not late either, no request is read. -/
theorem readRequest_never {maxBody : Nat} (hlate : ¬ Late (received reads) maxBody)
    (hend : ∀ headerEnd, position blankLine (received reads) = some headerEnd →
      maxHeaderBytes + 1 < headerEnd + 4) :
    (readRequest ⟨reads, .closed⟩ maxBody).toOption = none := by
  obtain ⟨headerEnd, hposition, hread⟩ | ⟨failure, -, hread⟩ := readRequest_cases reads maxBody
  · have hbehind := hend headerEnd hposition
    by_cases hsoon : headerEnd + 4 ≤ maxHeaderBytes + 1024
    · rw [hread]
      by_contra hsome
      exact hlate ⟨headerEnd, hposition, hbehind, hsoon, requestOf_toOption.mp hsome⟩
    · have herror := @readHead_error .closed [] _ _ (by rwa [List.nil_append])
        (Nat.zero_le _) (Nat.lt_of_not_le hsoon)
      rw [readRequest_error herror]
      rfl
  · rw [hread]
    rfl

/-- However a stream that ends well is cut into reads, the same is read of it, unless an
acceptable header ends late. -/
theorem chunking_irrelevant_iff (bytes : List UInt8) (maxBody : Nat) :
    (∀ reads reads', received reads = bytes → received reads' = bytes →
      SameResult (readRequest ⟨reads, .closed⟩ maxBody)
        (readRequest ⟨reads', .closed⟩ maxBody)) ↔ ¬ Late bytes maxBody := by
  constructor
  · intro hsame hlate
    obtain ⟨reads, reads', hreads, hreads', hdiffer⟩ := differ_of_late hlate
    exact hdiffer (hsame reads reads' hreads hreads')
  · rintro hlate reads reads' rfl hreads'
    rw [SameResult]
    by_cases hearly : ∃ headerEnd, position blankLine (received reads) = some headerEnd ∧
        headerEnd + 4 ≤ maxHeaderBytes + 1
    · obtain ⟨headerEnd, hposition, hle⟩ := hearly
      rw [readRequest_early hposition hle, readRequest_early (hreads' ▸ hposition) hle, hreads']
    · have hend : ∀ headerEnd, position blankLine (received reads) = some headerEnd →
          maxHeaderBytes + 1 < headerEnd + 4 := fun headerEnd hposition =>
        Nat.lt_of_not_le fun hle => hearly ⟨headerEnd, hposition, hle⟩
      rw [readRequest_never hlate hend,
        readRequest_never (by rwa [hreads']) (by rwa [hreads'])]

/-- A header of one long word that fills the cap. Its end is four bytes behind it. -/
def lateHeader : List UInt8 :=
  utf8 (List.replicate maxHeaderBytes 'P') ++ blankLine

/-- A header of one word is a request line with a method only. -/
theorem parseHead_word {word : String} (hne : word ≠ "")
    (hvisible : ∀ c ∈ word.toList, isWhitespace c = false) :
    parseHead (utf8 word.toList) = .ok ⟨word, "/", [], []⟩ := by
  have hreturn : '\r' ∉ word.toList := fun hmem => by
    have hwhite := hvisible _ hmem
    cases hwhite
  have hwords : splitWhitespace word = [word] := by
    have hcollect := wordsFrom_visible hvisible [] []
    have hempty : word.toList.reverse.isEmpty = false := by
      simpa using String.toList_eq_nil_iff.not.mpr hne
    rw [List.append_nil, List.append_nil] at hcollect
    rw [splitWhitespace, hcollect, wordsFrom, hempty, List.reverse_reverse, String.ofList_toList]
    rfl
  simp only [parseHead, fromUtf8_utf8, splitCrlf_last hreturn, String.ofList_toList, hwords]
  rfl

theorem late_lateHeader : Late lateHeader 0 := by
  have hvisible : ∀ c ∈ List.replicate maxHeaderBytes 'P', isWhitespace c = false := by
    intro c hc
    rw [List.eq_of_mem_replicate hc]
    decide
  have hlength : (utf8 (List.replicate maxHeaderBytes 'P')).length = maxHeaderBytes := by
    rw [utf8_ascii, List.length_map, List.length_replicate]
    intro c hc
    rw [List.eq_of_mem_replicate hc]
    decide
  have hreturn : '\r' ∉ (String.ofList (List.replicate maxHeaderBytes 'P')).toList := by
    rw [String.toList_ofList]
    exact fun hmem => absurd (List.eq_of_mem_replicate hmem) (by decide)
  have hposition : position blankLine lateHeader = some maxHeaderBytes := by
    have hline := position_line hreturn blankLine
    rw [String.toList_ofList, hlength] at hline
    rw [lateHeader, hline]
    rfl
  have hne : String.ofList (List.replicate maxHeaderBytes 'P') ≠ "" := by
    intro hempty
    have hnil := congrArg String.toList hempty
    rw [String.toList_ofList] at hnil
    exact absurd (congrArg List.length hnil) (by rw [List.length_replicate]; decide)
  have hparse := parseHead_word hne (by rwa [String.toList_ofList])
  rw [String.toList_ofList] at hparse
  refine ⟨maxHeaderBytes, hposition, by omega, by omega,
    ⟨String.ofList (List.replicate maxHeaderBytes 'P'), "/", [], []⟩, ?_, Nat.le_refl 0⟩
  rw [← hparse, lateHeader]
  exact congrArg parseHead (List.take_left' hlength)

/-- This header is read or not, by how it is cut. -/
theorem lateHeader_differs : ¬ ∀ reads reads', received reads = lateHeader →
    received reads' = lateHeader → SameResult (readRequest ⟨reads, .closed⟩ 0)
      (readRequest ⟨reads', .closed⟩ 0) := by
  intro hsame
  obtain ⟨reads, reads', hreads, hreads', hdiffer⟩ := differ_of_late late_lateHeader
  exact hdiffer (hsame reads reads' hreads hreads')

end Fraisier.Webhook
