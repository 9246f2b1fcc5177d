import Mathlib.Data.List.DropRight
import Fraisier.Data.Escapes
import Fraisier.Data.Split

/-!
# What stands behind a scheme

How the URL standard reads what stands behind `//` and a scheme that it does not know: the
user, the password, the host, the port, the path and the query, each as it is written. How an
address between brackets is read is a parameter.
-/

namespace Fraisier.Data

/-! ## Reading -/

/-- A control character or a space. -/
def isControlOrSpace (c : Char) : Bool :=
  c.toNat ≤ 0x20

def isTabOrNewline (c : Char) : Bool :=
  c = '\t' || c = '\n' || c = '\r'

/-- A text without the control characters and spaces at its end, and without its tabs and
newlines. -/
def cleaned (text : List Char) : List Char :=
  (text.rdropWhile isControlOrSpace).filter fun c => !isTabOrNewline c

/-- The host goes up to a colon outside of brackets. -/
def spanHost : Bool → List Char → List Char × List Char
  | _, [] => ([], [])
  | bracketed, c :: rest =>
      if c = ':' ∧ bracketed = false then ([], c :: rest)
      else
        let bracketed := if c = '[' then true else if c = ']' then false else bracketed
        (c :: (spanHost bracketed rest).1, (spanHost bracketed rest).2)

/-- What does not occur in a host. -/
def forbiddenInHost : List Char :=
  ['\x00', '\t', '\n', '\r', ' ', '#', '/', ':', '<', '>', '?', '@', '[', '\\', ']', '^', '|']

/-- A host: an address between brackets, or characters none of which is forbidden. -/
def readHost (ipv6 : List Char → Option (List Char)) (text : List Char) : Option (List Char) :=
  if text.head? = some '[' then
    if text.getLast? = some ']' then
      (ipv6 text.tail.dropLast).map fun address => '[' :: (address ++ [']'])
    else none
  else if text.any forbiddenInHost.contains then none
  else some text

/-- A port. No digits are none. -/
def readPort (digits : List Char) : Option (Option UInt16) :=
  if digits = [] then some none
  else if digits.all Char.isDigit = true ∧ Nat.ofDigitChars 10 digits 0 < 65536 then
    some (some (UInt16.ofNat (Nat.ofDigitChars 10 digits 0)))
  else none

/-- A host and a port. Without a host there are no credentials and no port. -/
def readAddress (ipv6 : List Char → Option (List Char)) (credentials : Bool)
    (text : List Char) : Option (List Char × Option UInt16) :=
  let parts := spanHost false text
  if parts.1 = [] ∧ (credentials = true ∨ parts.2 ≠ []) then none
  else
    (readHost ipv6 parts.1).bind fun host =>
      (readPort parts.2.tail).map fun port => (host, port)

/-- The parts of an authority, as they are written. -/
structure Authority where
  user : List Char
  password : Option (List Char)
  host : List Char
  port : Option UInt16

/-- An authority: credentials up to the last `@`, and an address. -/
def readAuthority (ipv6 : List Char → Option (List Char)) (text : List Char) :
    Option Authority :=
  match rsplitOnce '@' text with
  | none => (readAddress ipv6 false text).map fun address => ⟨[], none, address.1, address.2⟩
  | some (credentials, address) =>
      let user := ((splitOnce [':'] credentials).map Prod.fst).getD credentials
      let password := ((splitOnce [':'] credentials).map Prod.snd).filter (· ≠ [])
      (readAddress ipv6 true address).map fun address => ⟨user, password, address.1, address.2⟩

/-- The segments that stand for the same place, and for the place above. -/
def singleDots : List (List Char) :=
  [".".toList, "%2e".toList, "%2E".toList]

def doubleDots : List (List Char) :=
  ["..".toList, ".%2e".toList, ".%2E".toList, "%2e.".toList, "%2E.".toList, "%2e%2e".toList,
    "%2e%2E".toList, "%2E%2e".toList, "%2E%2E".toList]

/-- The segments of a path without those of dots. What is kept so far is latest first. -/
def keepSegments : List (List Char) → List (List Char) → List (List Char)
  | kept, [] => kept.reverse
  | kept, segment :: rest =>
      let last := if rest = [] then [[]] else []
      if doubleDots.contains segment then keepSegments (last ++ kept.tail) rest
      else if singleDots.contains segment then keepSegments (last ++ kept) rest
      else keepSegments (segment :: kept) rest

/-- Segments, with a slash before each. -/
def joinSegments (segments : List (List Char)) : List Char :=
  segments.flatMap ('/' :: ·)

/-- A path, which is empty or begins with a slash. -/
def readPath (text : List Char) : List Char :=
  if text = [] then [] else joinSegments (keepSegments [] (text.tail.splitOn '/'))

/-- A query, behind a question mark and up to a fragment. -/
def readQuery (text : List Char) : Option (List Char) :=
  if text.head? = some '?' then some (text.tail.takeWhile (· ≠ '#')) else none

def endsAuthority (c : Char) : Bool :=
  c = '/' || c = '?' || c = '#'

def endsPath (c : Char) : Bool :=
  c = '?' || c = '#'

/-- The parts of a URL, as they are written. -/
structure UrlText where
  authority : Authority
  path : List Char
  query : Option (List Char)

/-- What stands behind a scheme and `//`. -/
def readUrl (ipv6 : List Char → Option (List Char)) (text : List Char) : Option UrlText :=
  let tail := (cleaned text).dropWhile fun c => !endsAuthority c
  (readAuthority ipv6 ((cleaned text).takeWhile fun c => !endsAuthority c)).map fun authority =>
    { authority
      path := readPath (tail.takeWhile fun c => !endsPath c)
      query := readQuery (tail.dropWhile fun c => !endsPath c) }

/-! ## The parameters of a query -/

/-- What a name or a value of a parameter is decoded to. -/
def decodeForm (text : List Char) : List Char :=
  decodeLossy (text.map fun c => if c = '+' then ' ' else c)

/-- A parameter. -/
def readParam (text : List Char) : String × String :=
  let parts := (splitOnce ['='] text).getD (text, [])
  (String.ofList (decodeForm parts.1), String.ofList (decodeForm parts.2))

/-- The parameters of a query. -/
def readParams (query : List Char) : List (String × String) :=
  ((query.splitOn '&').filter (· ≠ [])).map readParam

/-! ## Where reading stops -/

section Stops

variable {c : Char}

theorem isTabOrNewline_eq_false_iff :
    isTabOrNewline c = false ↔ c ≠ '\t' ∧ c ≠ '\n' ∧ c ≠ '\r' := by
  simp [isTabOrNewline, and_assoc]

theorem endsAuthority_eq_false_iff :
    endsAuthority c = false ↔ c ≠ '/' ∧ c ≠ '?' ∧ c ≠ '#' := by
  simp [endsAuthority, and_assoc]

theorem endsPath_eq_false_iff : endsPath c = false ↔ c ≠ '?' ∧ c ≠ '#' := by
  simp [endsPath]

variable {p : Char → Bool} {before : List Char}

theorem takeWhile_of_forall (h : ∀ c ∈ before, p c = true) : before.takeWhile p = before :=
  List.takeWhile_eq_self_iff.mpr h

/-- What is taken of a text ends where something stops it. -/
theorem takeWhile_append_of_neg (hc : p c = false) (before after : List Char) :
    (before ++ c :: after).takeWhile p = before.takeWhile p := by
  rw [List.takeWhile_append, List.takeWhile_cons_of_neg (by simp [hc]), List.append_nil]
  split
  next hall => exact ((List.takeWhile_prefix _).eq_of_length hall).symm
  next => rfl

theorem dropWhile_append_of_forall (hbefore : ∀ d ∈ before, p d = true) (hc : p c = false)
    (after : List Char) : (before ++ c :: after).dropWhile p = c :: after := by
  rw [List.dropWhile_append_of_pos hbefore, List.dropWhile_cons_of_neg (by simp [hc])]

end Stops

/-! ## What reading drops -/

theorem ascii_of_isControlOrSpace {c : Char} (h : isControlOrSpace c = true) : c.toNat < 128 := by
  have hle : c.toNat ≤ 0x20 := by simpa [isControlOrSpace] using h
  omega

theorem ascii_of_isTabOrNewline {c : Char} (h : (!isTabOrNewline c) = false) : c.toNat < 128 := by
  rw [Bool.not_eq_false'] at h
  obtain (rfl | rfl) | rfl : (c = '\t' ∨ c = '\n') ∨ c = '\r' := by
    simpa [isTabOrNewline] using h
  · decide
  · decide
  · decide

theorem ascii_of_endsAuthority {c : Char} (h : (!endsAuthority c) = false) : c.toNat < 128 := by
  rw [Bool.not_eq_false'] at h
  obtain (rfl | rfl) | rfl : (c = '/' ∨ c = '?') ∨ c = '#' := by
    simpa [endsAuthority] using h
  · decide
  · decide
  · decide

theorem ascii_of_endsPath {c : Char} (h : (!endsPath c) = false) : c.toNat < 128 := by
  rw [Bool.not_eq_false'] at h
  obtain rfl | rfl : c = '?' ∨ c = '#' := by simpa [endsPath] using h
  · decide
  · decide

theorem ascii_of_eq {c d : Char} (hd : d.toNat < 128) (h : decide (c ≠ d) = false) :
    c.toNat < 128 := by
  have hsame : c = d := by simpa using h
  rw [hsame]
  exact hd

theorem thins_cleaned (text : List Char) : Thins (cleaned text) text :=
  (Thins.filter (fun _ => ascii_of_isTabOrNewline) _).trans
    (Thins.rdropWhile (fun _ => ascii_of_isControlOrSpace) text)

/-- What stands behind a visible character is cleaned by itself. -/
theorem cleaned_append_cons {c : Char} (hc : isControlOrSpace c = false)
    (before after : List Char) : cleaned (before ++ c :: after) =
      before.filter (fun d => !isTabOrNewline d) ++ c :: cleaned after := by
  have hdrop : (before ++ c :: after).rdropWhile isControlOrSpace =
      before ++ c :: after.rdropWhile isControlOrSpace := by
    induction after using List.reverseRecOn with
    | nil => rw [List.rdropWhile_concat_neg _ _ _ (by simp [hc]), List.rdropWhile_nil]
    | append_singleton after d ih =>
        rw [← List.cons_append, ← List.append_assoc, List.rdropWhile_concat,
          List.rdropWhile_concat, ih]
        split
        · rfl
        · simp
  have hvisible : (!isTabOrNewline c) = true := by
    rw [Bool.not_eq_true']
    by_contra htab
    rw [Bool.not_eq_false] at htab
    obtain (rfl | rfl) | rfl : (c = '\t' ∨ c = '\n') ∨ c = '\r' := by
      simpa [isTabOrNewline] using htab
    · cases hc
    · cases hc
    · cases hc
  rw [cleaned, hdrop, List.filter_append, List.filter_cons, if_pos hvisible, cleaned]

/-- A text that is clean: it has no tabs or newlines, and it ends in something visible. -/
structure Clean (text : List Char) : Prop where
  visible : ∀ c ∈ text, isTabOrNewline c = false
  last : ∀ c ∈ text.getLast?, isControlOrSpace c = false

theorem cleaned_eq_self_iff {text : List Char} : cleaned text = text ↔ Clean text := by
  constructor
  · intro h
    have hfilter := Thins.filter (fun _ => ascii_of_isTabOrNewline)
      (text.rdropWhile isControlOrSpace)
    have hdrop := Thins.rdropWhile (fun _ => ascii_of_isControlOrSpace) text
    have hsame : text.rdropWhile isControlOrSpace = text :=
      hdrop.eq_of_weight_le (by rw [← congrArg weight h]; exact hfilter.weight_le)
    rw [cleaned, hsame, List.filter_eq_self] at h
    refine ⟨fun c hc => by simpa using h c hc, fun c hc => ?_⟩
    obtain ⟨before, rfl⟩ := List.getLast?_eq_some_iff.mp hc
    simpa using List.rdropWhile_eq_self_iff.mp hsame (by simp)
  · intro h
    have hsame : text.rdropWhile isControlOrSpace = text := by
      refine List.rdropWhile_eq_self_iff.mpr fun hne => ?_
      rw [h.last _ (List.getLast?_eq_some_getLast hne)]
      simp
    rw [cleaned, hsame, List.filter_eq_self]
    exact fun c hc => by simpa using h.visible c hc

/-! ## Paths -/

/-- The weight of segments with a slash before each. -/
def segmentsWeight : List (List Char) → Nat
  | [] => 0
  | segment :: segments => 1 + weight segment + segmentsWeight segments

@[simp] theorem segmentsWeight_nil : segmentsWeight [] = 0 := rfl

@[simp] theorem segmentsWeight_cons (segment : List Char) (segments : List (List Char)) :
    segmentsWeight (segment :: segments) = 1 + weight segment + segmentsWeight segments := rfl

@[simp] theorem segmentsWeight_append (segments segments' : List (List Char)) :
    segmentsWeight (segments ++ segments') =
      segmentsWeight segments + segmentsWeight segments' := by
  induction segments with
  | nil => simp
  | cons segment segments ih =>
      rw [List.cons_append, segmentsWeight_cons, segmentsWeight_cons, ih]
      omega

theorem segmentsWeight_reverse (segments : List (List Char)) :
    segmentsWeight segments.reverse = segmentsWeight segments := by
  induction segments with
  | nil => rfl
  | cons segment segments ih =>
      rw [List.reverse_cons, segmentsWeight_append, ih, segmentsWeight_cons, segmentsWeight_cons,
        segmentsWeight_nil]
      omega

theorem segmentsWeight_tail_le (segments : List (List Char)) :
    segmentsWeight segments.tail ≤ segmentsWeight segments := by
  cases segments with
  | nil => exact Nat.le_refl _
  | cons segment segments =>
      rw [List.tail_cons, segmentsWeight_cons]
      omega

theorem le_segmentsWeight {segment : List Char} {segments : List (List Char)}
    (h : segment ∈ segments) : 1 + weight segment ≤ segmentsWeight segments := by
  induction segments with
  | nil => cases h
  | cons first segments ih =>
      rw [segmentsWeight_cons]
      obtain rfl | hrest := List.mem_cons.mp h
      · omega
      · have hle := ih hrest
        omega

theorem weight_joinSegments (segments : List (List Char)) :
    weight (joinSegments segments) = segmentsWeight segments := by
  induction segments with
  | nil => rfl
  | cons segment segments ih =>
      rw [joinSegments, List.flatMap_cons, weight_append, weight_cons,
        weight_ascii (by decide), segmentsWeight_cons, ← ih]
      rfl

/-- A segment of dots. -/
def isDots (segment : List Char) : Bool :=
  doubleDots.contains segment || singleDots.contains segment

theorem weight_pos_of_isDots {segment : List Char} (h : isDots segment = true) :
    0 < weight segment := by
  have hall : ∀ dots ∈ doubleDots ++ singleDots, 0 < weight dots := by decide
  refine hall segment (List.mem_append.mpr ?_)
  simpa [isDots] using h

/-- Either there are no segments of dots and all segments are kept, or weight is lost. -/
theorem keepSegments_cases (kept segments : List (List Char)) :
    ((∀ segment ∈ segments, isDots segment = false) ∧
      keepSegments kept segments = kept.reverse ++ segments) ∨
    ((∃ segment ∈ segments, isDots segment = true) ∧
      segmentsWeight (keepSegments kept segments) <
        segmentsWeight kept + segmentsWeight segments) := by
  induction segments generalizing kept with
  | nil => exact .inl ⟨fun _ h => absurd h List.not_mem_nil, (List.append_nil _).symm⟩
  | cons segment rest ih =>
      have hle : ∀ kept, segmentsWeight (keepSegments kept rest) ≤
          segmentsWeight kept + segmentsWeight rest := by
        intro kept
        obtain ⟨-, hsame⟩ | ⟨-, hless⟩ := ih kept
        · rw [hsame, segmentsWeight_append, segmentsWeight_reverse]
        · exact hless.le
      have hlast : segmentsWeight (if rest = [] then [[]] else []) ≤ 1 := by
        split <;> decide
      rw [keepSegments, segmentsWeight_cons]
      by_cases hdouble : doubleDots.contains segment = true
      · have hdots : isDots segment = true := by rw [isDots, hdouble, Bool.true_or]
        have hpos := weight_pos_of_isDots hdots
        have htail := segmentsWeight_tail_le kept
        have hkept := hle ((if rest = [] then [[]] else []) ++ kept.tail)
        rw [segmentsWeight_append] at hkept
        refine .inr ⟨⟨segment, List.mem_cons_self, hdots⟩, ?_⟩
        rw [if_pos hdouble]
        omega
      · rw [if_neg hdouble]
        by_cases hsingle : singleDots.contains segment = true
        · have hdots : isDots segment = true := by rw [isDots, hsingle, Bool.or_true]
          have hpos := weight_pos_of_isDots hdots
          have hkept := hle ((if rest = [] then [[]] else []) ++ kept)
          rw [segmentsWeight_append] at hkept
          refine .inr ⟨⟨segment, List.mem_cons_self, hdots⟩, ?_⟩
          rw [if_pos hsingle]
          omega
        · have hplain : isDots segment = false := by
            rw [isDots, Bool.eq_false_iff.mpr hdouble, Bool.eq_false_iff.mpr hsingle,
              Bool.or_false]
          rw [if_neg hsingle]
          obtain ⟨hnone, hsame⟩ | ⟨⟨dots, hmem, hdots⟩, hless⟩ := ih (segment :: kept)
          · refine .inl ⟨List.forall_mem_cons.mpr ⟨hplain, hnone⟩, ?_⟩
            rw [hsame, List.reverse_cons, List.append_assoc, List.singleton_append]
          · refine .inr ⟨⟨dots, List.mem_cons_of_mem _ hmem, hdots⟩, ?_⟩
            rw [segmentsWeight_cons] at hless
            omega

theorem joinSegments_splitOn (text : List Char) :
    joinSegments (text.splitOn '/') = '/' :: text := by
  have hjoin : ∀ segments : List (List Char), segments ≠ [] →
      joinSegments segments = '/' :: ['/'].intercalate segments := by
    intro segments hne
    induction segments with
    | nil => exact absurd rfl hne
    | cons segment segments ih =>
        cases segments with
        | nil => simp [joinSegments]
        | cons next segments =>
            have hrest := ih (by simp)
            rw [joinSegments, List.flatMap_cons, ← joinSegments, hrest,
              List.intercalate_cons_cons]
            simp
  rw [hjoin _ (List.splitOn_ne_nil '/' text), List.intercalate_splitOn]

/-- A path without slashes at its start. -/
def withoutSlashes (path : List Char) : List Char :=
  path.dropWhile (· = '/')

/-- What can stand behind the slash of a path and is read as it is. -/
structure PlainPath (text : List Char) : Prop where
  relative : text.head? ≠ some '/'
  segments : ∀ segment ∈ text.splitOn '/', isDots segment = false

/-- What is behind the slash of a path is read as it is, or weight is lost. -/
theorem readPath_cases (text : List Char) :
    (PlainPath text ∧ withoutSlashes (readPath ('/' :: text)) = text) ∨
      (¬PlainPath text ∧ weight (withoutSlashes (readPath ('/' :: text))) < weight text) := by
  have hslash : ∀ c, decide (c = '/') = true → c.toNat < 128 := by
    intro c hc
    rw [of_decide_eq_true hc]
    decide
  rw [readPath, if_neg (by simp), List.tail_cons]
  obtain ⟨hnone, hsame⟩ | ⟨⟨dots, hmem, hdots⟩, hless⟩ := keepSegments_cases [] (text.splitOn '/')
  · rw [hsame, List.reverse_nil, List.nil_append, joinSegments_splitOn, withoutSlashes,
      List.dropWhile_cons_of_pos (by decide)]
    by_cases hhead : text.head? = some '/'
    · obtain ⟨rest, rfl⟩ := List.head?_eq_some_iff.mp hhead
      refine .inr ⟨fun h => h.relative hhead, ?_⟩
      rw [List.dropWhile_cons_of_pos (by decide)]
      have hle := (Thins.dropWhile hslash rest).weight_le
      rw [weight_cons '/', weight_ascii (by decide)]
      omega
    · refine .inl ⟨⟨hhead, hnone⟩, ?_⟩
      cases text with
      | nil => rfl
      | cons c rest =>
          refine List.dropWhile_cons_of_neg fun hc => hhead ?_
          rw [of_decide_eq_true hc]
          rfl
  · refine .inr ⟨fun h => ?_, ?_⟩
    · rw [h.segments dots hmem] at hdots
      cases hdots
    · have hweight : segmentsWeight (text.splitOn '/') = 1 + weight text := by
        rw [← weight_joinSegments, joinSegments_splitOn, weight_cons, weight_ascii (by decide)]
      rw [hweight, ← weight_joinSegments] at hless
      cases hkept : keepSegments [] (text.splitOn '/') with
      | nil =>
          have hpos := weight_pos_of_isDots hdots
          have hle := le_segmentsWeight hmem
          show 0 < weight text
          omega
      | cons segment segments =>
          rw [hkept] at hless
          have hjoin : joinSegments (segment :: segments) =
              '/' :: (segment ++ joinSegments segments) := rfl
          rw [hjoin] at hless ⊢
          rw [withoutSlashes, List.dropWhile_cons_of_pos (by decide)]
          have hle := (Thins.dropWhile hslash (segment ++ joinSegments segments)).weight_le
          rw [weight_cons, weight_ascii (by decide)] at hless
          rw [segmentsWeight_nil] at hless
          omega

/-! ## Addresses -/

theorem thins_afterLast {separator : Char} (hseparator : separator.toNat < 128)
    (text : List Char) : Thins (afterLast separator text) text := by
  cases hsplit : rsplitOnce separator text with
  | none => exact .inl (afterLast_of_not_mem (not_mem_of_rsplitOnce hsplit))
  | some parts =>
      obtain ⟨start, rest⟩ := parts
      obtain ⟨rfl, hrest⟩ := eq_append_of_rsplitOnce hsplit
      refine .inr ?_
      rw [afterLast_append_cons hrest, weight_append, weight_cons separator,
        weight_ascii hseparator]
      omega

/-- What an authority is read as has the address behind its last `@`. -/
theorem exists_readAddress {ipv6 : List Char → Option (List Char)} {text : List Char}
    {authority : Authority} (h : readAuthority ipv6 text = some authority) :
    ∃ credentials, readAddress ipv6 credentials (afterLast '@' text) =
      some (authority.host, authority.port) := by
  unfold readAuthority at h
  unfold afterLast
  cases hsplit : rsplitOnce '@' text with
  | none =>
      rw [hsplit] at h
      obtain ⟨address, haddress, rfl⟩ := Option.map_eq_some_iff.mp h
      exact ⟨false, haddress⟩
  | some parts =>
      rw [hsplit] at h
      obtain ⟨address, haddress, rfl⟩ := Option.map_eq_some_iff.mp h
      exact ⟨true, haddress⟩

/-- The host of an address is read from what goes up to the colon. -/
theorem readHost_of_readAddress {ipv6 : List Char → Option (List Char)} {credentials : Bool}
    {text host : List Char} {port : Option UInt16}
    (h : readAddress ipv6 credentials text = some (host, port)) :
    readHost ipv6 (spanHost false text).1 = some host := by
  unfold readAddress at h
  dsimp only at h
  split at h
  · cases h
  · obtain ⟨host', hhost, hport⟩ := Option.bind_eq_some_iff.mp h
    obtain ⟨port', -, hboth⟩ := Option.map_eq_some_iff.mp hport
    cases hboth
    exact hhost

/-- A host without an opening bracket goes up to the first colon. -/
theorem spanHost_of_not_mem {text : List Char} (h : '[' ∉ (spanHost false text).1) :
    (spanHost false text).1 = text.takeWhile (· ≠ ':') := by
  induction text with
  | nil => rfl
  | cons c rest ih =>
      by_cases hcolon : c = ':'
      · subst hcolon
        rfl
      · rw [spanHost, if_neg (fun hc => hcolon hc.1)] at h ⊢
        have hopen : c ≠ '[' := fun hc => h (by rw [hc]; exact List.mem_cons_self)
        have hstate : (if c = '[' then true else if c = ']' then false else false) = false := by
          simp [hopen]
        simp only [hstate] at h ⊢
        rw [ih fun hmem => h (List.mem_cons_of_mem c hmem),
          List.takeWhile_cons_of_pos (by simp [hcolon])]

/-- What can follow a host: nothing, or a colon. -/
def FollowsHost (rest : List Char) : Prop :=
  rest = [] ∨ rest.head? = some ':'

theorem spanHost_of_follows {rest : List Char} (h : FollowsHost rest) :
    spanHost false rest = ([], rest) := by
  obtain rfl | hcolon := h
  · rfl
  · obtain ⟨more, rfl⟩ := List.head?_eq_some_iff.mp hcolon
    rfl

theorem spanHost_plain {host rest : List Char} (hhost : ∀ c ∈ host, c ≠ ':' ∧ c ≠ '[')
    (hrest : FollowsHost rest) : spanHost false (host ++ rest) = (host, rest) := by
  induction host with
  | nil => exact spanHost_of_follows hrest
  | cons c host ih =>
      obtain ⟨hcolon, hopen⟩ := hhost c List.mem_cons_self
      have hstate : (if c = '[' then true else if c = ']' then false else false) = false := by
        simp [hopen]
      rw [List.cons_append, spanHost, if_neg (fun hc => hcolon hc.1)]
      simp only [hstate, ih fun d hd => hhost d (List.mem_cons_of_mem c hd)]

theorem spanHost_bracketed {address rest : List Char} (haddress : ']' ∉ address)
    (hrest : FollowsHost rest) :
    spanHost true (address ++ ']' :: rest) = (address ++ [']'], rest) := by
  induction address with
  | nil =>
      have hspan := spanHost_of_follows hrest
      rw [List.nil_append, spanHost, if_neg (by simp)]
      simp [hspan]
  | cons c address ih =>
      obtain ⟨hc, hmore⟩ := not_or.mp (List.mem_cons.not.mp haddress)
      have hstate : (if c = '[' then true else if c = ']' then false else true) = true := by
        simp [Ne.symm hc]
      rw [List.cons_append, spanHost, if_neg (by simp)]
      simp only [hstate, ih hmore, List.cons_append]

/-- An address between brackets is a host. -/
theorem spanHost_brackets {address rest : List Char} (haddress : ']' ∉ address)
    (hrest : FollowsHost rest) :
    spanHost false ('[' :: (address ++ [']']) ++ rest) = ('[' :: (address ++ [']']), rest) := by
  have hspan := spanHost_bracketed haddress hrest
  rw [List.cons_append, List.append_assoc, List.singleton_append, spanHost, if_neg (by simp)]
  simp [hspan]

/-! ## Parameters -/

theorem head?_splitOn (text : List Char) (separator : Char) :
    (text.splitOn separator).head? = some (text.takeWhile (· ≠ separator)) := by
  have hsplit := List.takeWhile_append_dropWhile (p := (· ≠ separator)) (l := text)
  have hbefore : separator ∉ text.takeWhile (· ≠ separator) := by
    intro hmem
    have hne := List.mem_takeWhile_imp hmem
    simp at hne
  cases hafter : text.dropWhile (· ≠ separator) with
  | nil =>
      rw [hafter, List.append_nil] at hsplit
      rw [hsplit] at hbefore ⊢
      rw [List.splitOn_eq_singleton hbefore]
      rfl
  | cons c rest =>
      have hc : c = separator := by
        have hnot := List.head?_dropWhile_not (· ≠ separator) text
        rw [hafter] at hnot
        simpa using hnot
      rw [hafter, hc] at hsplit
      have hfirst := List.splitOn_append_cons_self_of_not_mem hbefore rest
      rw [hsplit] at hfirst
      rw [hfirst]
      rfl

/-- The first parameter of a query that begins with its name. -/
theorem exists_readParams {name : List Char} (hname : ∀ c ∈ name, c ≠ '=' ∧ c ≠ '&')
    (value : List Char) : ∃ more, readParams (name ++ '=' :: value) =
      (String.ofList (decodeForm name),
        String.ofList (decodeForm (value.takeWhile (· ≠ '&')))) :: more := by
  have hfirst := head?_splitOn (name ++ '=' :: value) '&'
  have htake : (name ++ '=' :: value).takeWhile (· ≠ '&') =
      name ++ '=' :: value.takeWhile (· ≠ '&') := by
    rw [List.takeWhile_append_of_pos fun c hc => by simp [(hname c hc).2],
      List.takeWhile_cons_of_pos (by decide)]
  rw [htake] at hfirst
  obtain ⟨pieces, hpieces⟩ := List.head?_eq_some_iff.mp hfirst
  have hequals : '=' ∉ name := fun hmem => (hname _ hmem).1 rfl
  refine ⟨(pieces.filter (· ≠ [])).map readParam, ?_⟩
  rw [readParams, hpieces, List.filter_cons_of_pos (by simp), List.map_cons, readParam,
    splitOnce_append hequals]
  rfl

theorem weight_map_plus (text : List Char) :
    weight (text.map fun c => if c = '+' then ' ' else c) = weight text := by
  induction text with
  | nil => rfl
  | cons c text ih =>
      have hc : weight [if c = '+' then ' ' else c] = weight [c] := by
        split
        next hplus =>
          rw [hplus]
          rfl
        next => rfl
      rw [List.map_cons, weight_cons, hc, ih, ← weight_cons]

theorem weight_decodeForm_le (text : List Char) : weight (decodeForm text) ≤ weight text := by
  rw [← weight_map_plus text]
  exact (Thins.decodeLossy _).weight_le

/-- A value is decoded to itself when it has no plus sign and no escape. -/
theorem decodeForm_eq_self_iff {text : List Char} :
    decodeForm text = text ↔ '+' ∉ text ∧ hasEscape text = false := by
  constructor
  · intro h
    have hsame : decodeLossy (text.map fun c => if c = '+' then ' ' else c) =
        text.map fun c => if c = '+' then ' ' else c := by
      refine (Thins.decodeLossy _).eq_of_weight_le ?_
      rw [weight_map_plus]
      exact Nat.le_of_eq (congrArg weight h).symm
    have hmap : (text.map fun c => if c = '+' then ' ' else c) = text := hsame.symm.trans h
    have hplus : '+' ∉ text := by
      intro hmem
      rw [← hmap] at hmem
      obtain ⟨c, -, hc⟩ := List.mem_map.mp hmem
      split at hc
      · cases hc
      next hne => exact hne hc
    rw [hmap] at hsame
    exact ⟨hplus, Thins.hasEscape_eq_false hsame⟩
  · rintro ⟨hplus, hescape⟩
    have hmap : (text.map fun c => if c = '+' then ' ' else c) = text := by
      refine (List.map_congr_left fun c hc => ?_).trans (List.map_id text)
      exact if_neg fun (hc' : c = '+') => hplus (hc' ▸ hc)
    rw [decodeForm, hmap, decodeLossy_of_hasEscape hescape]

end Fraisier.Data
