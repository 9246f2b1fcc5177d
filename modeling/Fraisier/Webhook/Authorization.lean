import Fraisier.Webhook.Chunks

/-!
# Who may have a body handled

`handled_only_authorized` says what a connection must have brought for the handler to be called
with a body, and that a signature stands for one timestamp and one body unless the MAC collides.
`signed_post_handled` says that what a client signs is handled.
-/

namespace Fraisier.Webhook

open Fraisier.Data

variable {host : Host} {config : ServerConfig} {connection : Connection} {now : Nat}

/-- What a connection brought that has a body handled. -/
structure Authorized (host : Host) (config : ServerConfig) (connection : Connection) (now : Nat)
    (body : List UInt8) (request : Request) (timestampText signatureText : String)
    (timestamp : Nat) : Prop where
  read : readRequest connection config.maxBodyBytes = .ok request
  body_eq : request.body = body
  post : eqIgnoreAsciiCase request.method "POST" = true
  timestamped : request.header timestampHeader = some timestampText
  parsed : parseTimestamp (trim timestampText) = some timestamp
  within : now ≤ timestamp + config.toleranceSecs ∧ timestamp ≤ now + config.toleranceSecs
  signed : request.header signatureHeader = some signatureText
  carries : Carries signatureText (tag host.mac config.secret (trim timestampText) body)
  serving : config.drain.isDraining host.pathExists = false

/-- The handler is not called, or called once with the body of a verified request. -/
theorem calls_cases (host : Host) (config : ServerConfig) (connection : Connection) (now : Nat) :
    (serveConnection host config connection now).calls = [] ∨
      ∃ request, readRequest connection config.maxBodyBytes = .ok request ∧
        eqIgnoreAsciiCase request.method "POST" = true ∧
        verify host.mac config.secret request.body (request.header timestampHeader)
          (request.header signatureHeader) now config.toleranceSecs = .ok () ∧
        config.drain.isDraining host.pathExists = false ∧
        (serveConnection host config connection now).calls = [request.body] := by
  rw [serveConnection]
  split
  next => exact .inl rfl
  next => exact .inl rfl
  next request hread =>
    split
    next => exact .inl rfl
    next =>
      split
      next => exact .inl rfl
      next hpost =>
        split
        next => exact .inl rfl
        next hverified =>
          split
          next => exact .inl rfl
          next hserving =>
            refine .inr ⟨request, hread, by simpa using hpost, hverified, by simpa using hserving,
              ?_⟩
            split <;> rfl

/-- A keyed MAC gives two inputs one tag. -/
def Collides (mac : List UInt8 → List UInt8 → List UInt8) (secret : List UInt8) : Prop :=
  ∃ input input', input ≠ input' ∧ mac secret input = mac secret input'

theorem Carries.unique {text : String} {tag tag' : List UInt8} (h : Carries text tag)
    (h' : Carries text tag') : tag = tag' := by
  obtain ⟨hex, hhex, htag⟩ := h
  obtain ⟨hex', hhex', htag'⟩ := h'
  rw [hhex, Option.some.injEq] at hhex'
  subst hhex'
  rw [htag] at htag'
  exact Option.some.inj htag'

/-- The handler is called at most once, with the body of a fresh and signed POST while the server
is not draining. A signature is for one timestamp and one body. -/
theorem handled_only_authorized (host : Host) (config : ServerConfig) (connection : Connection)
    (now : Nat) (hsum : now + config.toleranceSecs < 2 ^ 63 - 1) :
    (serveConnection host config connection now).calls.length ≤ 1 ∧
    (∀ body ∈ (serveConnection host config connection now).calls,
      ∃ request timestampText signatureText timestamp, Authorized host config connection now body
        request timestampText signatureText timestamp) ∧
    ∀ (text text' : String) (body body' : List UInt8), (parseTimestamp text).isSome →
      (parseTimestamp text').isSome → (text, body) ≠ (text', body') →
        macInput text body ≠ macInput text' body' ∧
          ∀ signatureText, Carries signatureText (tag host.mac config.secret text body) →
            Carries signatureText (tag host.mac config.secret text' body') →
              Collides host.mac config.secret := by
  refine ⟨?_, fun body hbody => ?_, fun text text' body body' htext htext' hne => ?_⟩
  · obtain hnone | ⟨request, -, -, -, -, hcalls⟩ := calls_cases host config connection now
    · rw [hnone]
      exact Nat.zero_le _
    · rw [hcalls]
      exact Nat.le_refl _
  · obtain hnone | ⟨request, hread, hpost, hverified, hserving, hcalls⟩ :=
      calls_cases host config connection now
    · rw [hnone] at hbody
      cases hbody
    · rw [hcalls, List.mem_singleton] at hbody
      subst hbody
      obtain ⟨timestampText, signatureText, timestamp, hheader, hparsed, hfresh, hsigned,
        hcarries⟩ := verify_eq_ok_iff.mp hverified
      exact ⟨request, timestampText, signatureText, timestamp, hread, rfl, hpost, hheader, hparsed,
        within_of_fresh hsum hfresh, hsigned, hcarries, hserving⟩
  · obtain ⟨timestamp, htimestamp⟩ := Option.isSome_iff_exists.mp htext
    obtain ⟨timestamp', htimestamp'⟩ := Option.isSome_iff_exists.mp htext'
    have hinput : macInput text body ≠ macInput text' body' := by
      intro heq
      obtain ⟨rfl, rfl⟩ := macInput_inj htimestamp htimestamp' heq
      exact hne rfl
    exact ⟨hinput, fun signatureText hcarries hcarries' =>
      ⟨_, _, hinput, hcarries.unique hcarries'⟩⟩

/-! ## What a client signs -/

/-- The lines of a signed request but the last. -/
def postLines (timestamp length : Nat) : List String :=
  ["POST /deploy HTTP/1.1", "Host: x", "Content-Length: " ++ toString length,
    timestampHeader ++ ": " ++ toString timestamp]

/-- The bytes of a signed request. -/
def rawPost (timestamp : Nat) (signature : String) (body : List UInt8) : List UInt8 :=
  utf8 (headerLines (postLines timestamp body.length) ++
    (signatureHeader ++ ": " ++ signature).toList) ++ (blankLine ++ body)

/-- The headers of a signed request. -/
def postHeaders (timestamp length : Nat) (signature : String) : List (String × String) :=
  [("host", "x"), ("content-length", toString length), (timestampHeader, toString timestamp),
    (signatureHeader, signature)]

/-- A header line is read as its name and its value. -/
theorem headerOf_line {name value : String} (hname : ':' ∉ name.toList)
    (hvalue : ∀ c ∈ value.toList, isWhitespace c = false) :
    headerOf (name ++ ": " ++ value).toList = some (toAsciiLowercase (trim name), value) := by
  have hcolon : ": ".toList = [':', ' '] := by decide
  have hline : (name ++ ": " ++ value).toList = name.toList ++ ':' :: ' ' :: value.toList := by
    rw [String.toList_append, String.toList_append, hcolon, List.append_assoc]
    rfl
  have htrim := @trim_of_visible [' '] value.toList
    (List.forall_mem_singleton.mpr (by decide)) hvalue
  rw [String.ofList_toList] at htrim
  rw [headerOf, hline, splitOnce_append hname, Option.map_some, String.ofList_toList]
  exact congrArg (fun text => some (toAsciiLowercase (trim name), text)) htrim

theorem length_utf8_le (chars : List Char) : (utf8 chars).length ≤ 4 * chars.length := by
  induction chars with
  | nil => exact Nat.le_refl _
  | cons c chars ih =>
      have hle := c.utf8Size_le_four
      rw [utf8_cons, List.length_append, String.length_utf8EncodeChar, List.length_cons]
      omega

theorem length_toString_le {n : Nat} (h : n < 2 ^ 64) : (toString n).toList.length ≤ 20 := by
  rw [Nat.toString_eq_ofList_toDigits, String.toList_ofList]
  exact (Nat.length_toDigits_le_iff (by decide) (by decide)).mpr (Nat.lt_trans h (by decide))

/-- The lines of a signed request have no returns. -/
theorem postLines_inline {timestamp length : Nat} {line : String}
    (h : line ∈ postLines timestamp length) : line ≠ "" ∧ '\r' ∉ line.toList := by
  have hdigits : ∀ n : Nat, '\r' ∉ (toString n).toList := fun n hmem =>
    (digits_visible n _ hmem).1 rfl
  have hname : ∀ {name : String} {n : Nat}, name ≠ "" → '\r' ∉ name.toList →
      name ++ toString n ≠ "" ∧ '\r' ∉ (name ++ toString n).toList := by
    intro name n hne hreturn
    refine ⟨fun hempty => hne (String.append_eq_empty_iff.mp hempty).1, ?_⟩
    rw [String.toList_append, List.mem_append]
    exact fun hmem => hmem.elim hreturn (hdigits n)
  simp only [postLines, List.mem_cons, List.not_mem_nil, or_false] at h
  obtain rfl | rfl | rfl | rfl := h
  · exact ⟨by decide, by decide⟩
  · exact ⟨by decide, by decide⟩
  · exact hname (by decide) (by decide)
  · exact hname (by decide) (by decide)

theorem parseHead_post {timestamp length : Nat} {signature : String}
    (hsignature : ∀ c ∈ signature.toList, c ≠ '\r' ∧ c ≠ '\n' ∧ isWhitespace c = false) :
    parseHead (utf8 (headerLines (postLines timestamp length) ++
      (signatureHeader ++ ": " ++ signature).toList)) =
        .ok ⟨"POST", "/deploy", postHeaders timestamp length signature, []⟩ := by
  have hlast : '\r' ∉ (signatureHeader ++ ": " ++ signature).toList := by
    rw [String.toList_append, List.mem_append]
    exact fun hmem => hmem.elim (by decide) fun hmem => (hsignature _ hmem).1 rfl
  have hlines := @splitCrlf_headers (postLines timestamp length) _
    (fun line hline => (postLines_inline hline).2) hlast
  have hrequest : splitWhitespace "POST /deploy HTTP/1.1" = ["POST", "/deploy", "HTTP/1.1"] := by
    decide
  have hhost : headerOf "Host: x".toList = some ("host", "x") := by decide
  have hlength : headerOf ("Content-Length: " ++ toString length).toList =
      some ("content-length", toString length) := by
    have hname : toAsciiLowercase (trim "Content-Length") = "content-length" := by decide
    have hsplit : "Content-Length: " = "Content-Length" ++ ": " := by decide
    rw [hsplit, headerOf_line (by decide) fun c hc => (digits_visible length c hc).2.2, hname]
  have htimestamp : headerOf (timestampHeader ++ ": " ++ toString timestamp).toList =
      some (timestampHeader, toString timestamp) := by
    have hname : toAsciiLowercase (trim timestampHeader) = timestampHeader := by decide
    rw [headerOf_line (by decide) fun c hc => (digits_visible timestamp c hc).2.2, hname]
  have hsigned : headerOf (signatureHeader ++ ": " ++ signature).toList =
      some (signatureHeader, signature) := by
    have hname : toAsciiLowercase (trim signatureHeader) = signatureHeader := by decide
    rw [headerOf_line (by decide) fun c hc => (hsignature c hc).2.2, hname]
  have htext := fromUtf8_utf8 (String.ofList (headerLines (postLines timestamp length) ++
    (signatureHeader ++ ": " ++ signature).toList))
  rw [String.toList_ofList] at htext
  rw [parseHead, htext]
  dsimp only
  rw [String.toList_ofList, hlines]
  simp only [postLines, List.map_cons, List.map_nil, List.cons_append, List.nil_append,
    String.ofList_toList, hrequest, List.filterMap_cons, hhost, hlength, htimestamp, hsigned,
    List.filterMap_nil, postHeaders, List.head?_cons, Option.getD_some]

/-- The headers of a signed request are found under their names. -/
theorem header_post {timestamp length : Nat} {signature : String} {body : List UInt8} :
    (Request.mk "POST" "/deploy" (postHeaders timestamp length signature) body).header
        timestampHeader = some (toString timestamp) ∧
      (Request.mk "POST" "/deploy" (postHeaders timestamp length signature) body).header
        signatureHeader = some signature := by
  have hfirst : eqIgnoreAsciiCase "host" timestampHeader = false ∧
      eqIgnoreAsciiCase "content-length" timestampHeader = false ∧
      eqIgnoreAsciiCase timestampHeader timestampHeader = true := by
    decide
  have hsecond : eqIgnoreAsciiCase "host" signatureHeader = false ∧
      eqIgnoreAsciiCase "content-length" signatureHeader = false ∧
      eqIgnoreAsciiCase timestampHeader signatureHeader = false ∧
      eqIgnoreAsciiCase signatureHeader signatureHeader = true := by
    decide
  constructor
  · simp only [Request.header, postHeaders, List.find?_cons, hfirst, Option.map_some]
  · simp only [Request.header, postHeaders, List.find?_cons, hsecond, Option.map_some]

theorem contentLength_post {timestamp length : Nat} {signature : String} (h : length < 2 ^ 64) :
    contentLength (postHeaders timestamp length signature) = length := by
  have hfind : (postHeaders timestamp length signature).find?
      (fun entry => entry.1 = "content-length") = some ("content-length", toString length) := by
    rw [postHeaders, List.find?_cons_of_neg (by simp), List.find?_cons_of_pos (by simp)]
  rw [contentLength, hfind, Option.bind_some, parseUnsigned_toString h, Option.getD_some]

/-- The header of a signed request ends well within the cap. -/
theorem length_postHead {timestamp length : Nat} {signature : String}
    (htimestamp : timestamp < 2 ^ 64) (hlength : length < 2 ^ 64)
    (hsignature : signature.toList.length ≤ 71) :
    (utf8 (headerLines (postLines timestamp length) ++
      (signatureHeader ++ ": " ++ signature).toList)).length + 4 ≤ maxHeaderBytes + 1 := by
  have hle := length_utf8_le (headerLines (postLines timestamp length) ++
    (signatureHeader ++ ": " ++ signature).toList)
  have hdigits := length_toString_le htimestamp
  have hdigits' := length_toString_le hlength
  have hliterals : "POST /deploy HTTP/1.1".toList.length = 21 ∧ "Host: x".toList.length = 7 ∧
      "Content-Length: ".toList.length = 16 ∧ (timestampHeader ++ ": ").toList.length = 22 ∧
        (signatureHeader ++ ": ").toList.length = 22 := by
    decide
  obtain ⟨hrequest, hhost, hlengthName, htimestampName, hsignatureName⟩ := hliterals
  simp only [headerLines, postLines, List.flatMap_cons, List.flatMap_nil, List.append_nil,
    List.length_append, List.length_cons, List.length_nil, String.toList_append] at *
  rw [maxHeaderBytes]
  omega

theorem length_sign {mac : List UInt8 → List UInt8 → List UInt8} {secret : List UInt8}
    (htag : ∀ input, (mac secret input).length = 32) (timestamp : Nat) (body : List UInt8) :
    (sign mac secret timestamp body).toList.length = 71 := by
  have hpairs : ∀ bytes : List UInt8, (hexEncode bytes).toList.length = 2 * bytes.length := by
    intro bytes
    rw [hexEncode, String.toList_ofList]
    induction bytes with
    | nil => rfl
    | cons byte bytes ih =>
        rw [List.flatMap_cons, List.length_append, ih, List.length_cons]
        simp only [hexPair, List.length_cons, List.length_nil]
        omega
  have hname : "sha256=".toList.length = 7 := by decide
  rw [sign, String.toList_append, List.length_append, hpairs, hname, tag, htag]

/-- The request of a client is read as it was signed, however it is cut into reads. -/
theorem readRequest_post {timestamp maxBody : Nat} {signature : String} {body : List UInt8}
    (htimestamp : timestamp < 2 ^ 64) (hbody : body.length < 2 ^ 64) (hmax : body.length ≤ maxBody)
    (hsignature : ∀ c ∈ signature.toList, c ≠ '\r' ∧ c ≠ '\n' ∧ isWhitespace c = false)
    (hlength : signature.toList.length ≤ 71) {reads : List Read}
    (hreads : received reads = rawPost timestamp signature body) :
    readRequest ⟨reads, .closed⟩ maxBody =
      .ok ⟨"POST", "/deploy", postHeaders timestamp body.length signature, body⟩ := by
  have hlast : signatureHeader ++ ": " ++ signature ≠ "" ∧
      '\r' ∉ (signatureHeader ++ ": " ++ signature).toList := by
    refine ⟨fun hempty => ?_, ?_⟩
    · exact absurd (String.append_eq_empty_iff.mp hempty).1 (by decide)
    · rw [String.toList_append, List.mem_append]
      exact fun hmem => hmem.elim (by decide) fun hmem => (hsignature _ hmem).1 rfl
  have hposition : position blankLine (received reads) =
      some (utf8 (headerLines (postLines timestamp body.length) ++
        (signatureHeader ++ ": " ++ signature).toList)).length := by
    rw [hreads]
    exact position_headers (fun line hline => postLines_inline hline) hlast body
  have hlate := @length_postHead _ _ signature htimestamp hbody hlength
  have hhead : (received reads).take (utf8 (headerLines (postLines timestamp body.length) ++
      (signatureHeader ++ ": " ++ signature).toList)).length =
        utf8 (headerLines (postLines timestamp body.length) ++
          (signatureHeader ++ ": " ++ signature).toList) := by
    rw [hreads]
    exact List.take_left
  have hrest : (received reads).drop ((utf8 (headerLines (postLines timestamp body.length) ++
      (signatureHeader ++ ": " ++ signature).toList)).length + 4) = body := by
    rw [hreads, rawPost, ← List.append_assoc, ← blankLine_length, ← List.length_append]
    exact List.drop_left
  have hlength' := @contentLength_post timestamp _ signature hbody
  have hparse := @parseHead_post timestamp body.length _ hsignature
  rw [readRequest_early hposition hlate,
    requestOf_accepted (hhead.symm ▸ hparse) (Nat.le_of_eq hlength' |>.trans hmax), hrest, hlength',
    List.take_length]

/-- What a client signs at a time that is fresh is handled once. -/
theorem signed_post_handled {timestamp : Nat} {body : List UInt8}
    (htimestamp : timestamp < 2 ^ 64) (hbody : body.length < 2 ^ 64)
    (hmax : body.length ≤ config.maxBodyBytes)
    (hfresh : (saturating now - saturating timestamp).natAbs ≤ config.toleranceSecs)
    (hserving : config.drain.isDraining host.pathExists = false)
    (htag : ∀ input, (host.mac config.secret input).length = 32) {reads : List Read}
    (hreads : received reads =
      rawPost timestamp (sign host.mac config.secret timestamp body) body) :
    (serveConnection host config ⟨reads, .closed⟩ now).calls = [body] := by
  have hread := readRequest_post htimestamp hbody hmax (sign_visible _ timestamp body)
    (Nat.le_of_eq (length_sign htag timestamp body)) hreads
  have hverified : verify host.mac config.secret body (some (toString timestamp))
      (some (sign host.mac config.secret timestamp body)) now config.toleranceSecs = .ok () :=
    verify_eq_ok_iff.mpr ⟨_, _, _, verified_sign htimestamp hfresh⟩
  have hget : eqIgnoreAsciiCase "POST" "GET" = false := by decide
  have hpost : eqIgnoreAsciiCase "POST" "POST" = true := by decide
  simp only [serveConnection, hread, hget, hpost, Bool.false_and, Bool.not_true, Bool.false_eq_true,
    if_false, header_post.1, header_post.2, hverified, hserving]
  split <;> rfl

/-! ## Two runs -/

/-- A host that never drains, and whose handler always succeeds. -/
def plainHost (mac : List UInt8 → List UInt8 → List UInt8) : Host where
  mac := mac
  pathExists _ := false
  quoted := id
  handle _ := .ok "done"

def plainConfig : ServerConfig where
  secret := [1, 2, 3]
  toleranceSecs := 300
  maxBodyBytes := 1024
  drain := ⟨none, 0, []⟩

/-- A client that sends a signed request byte by byte. -/
def client (mac : List UInt8 → List UInt8 → List UInt8) (timestamp : Nat) (body : List UInt8) :
    Connection :=
  ⟨singly (rawPost timestamp (sign mac plainConfig.secret timestamp body) body), .closed⟩

theorem client_handled {mac : List UInt8 → List UInt8 → List UInt8}
    (htag : ∀ secret input, (mac secret input).length = 32) {timestamp : Nat} {body : List UInt8}
    (htimestamp : timestamp < 2 ^ 64) (hbody : body.length ≤ 1024)
    (hfresh : (saturating now - saturating timestamp).natAbs ≤ 300) :
    (serveConnection (plainHost mac) plainConfig (client mac timestamp body) now).calls =
      [body] :=
  signed_post_handled htimestamp (Nat.lt_of_le_of_lt hbody (by decide)) hbody hfresh rfl
    (htag _) (received_singly _)

/-- A MAC that sums bytes up, to sign with. -/
def summingMac (secret input : List UInt8) : List UInt8 :=
  (secret ++ input).foldl (fun sum byte => sum + byte) 0 :: List.replicate 31 0

theorem length_summingMac (secret input : List UInt8) :
    (summingMac secret input).length = 32 := by
  rw [summingMac, List.length_cons, List.length_replicate]

theorem handled_only_authorized_hello :
    ∃ request timestampText signatureText timestamp,
      Authorized (plainHost summingMac) plainConfig (client summingMac 1700000000 [104, 105])
        1700000100 [104, 105] request timestampText signatureText timestamp := by
  have hcalls := @client_handled 1700000100 summingMac length_summingMac
    1700000000 [104, 105] (by decide) (by decide) (by decide)
  refine (handled_only_authorized (plainHost summingMac) plainConfig
    (client summingMac 1700000000 [104, 105]) 1700000100 (by decide)).2.1 _ ?_
  rw [hcalls]
  exact List.mem_cons_self

/-- Where the clock and the tolerance add up to the largest signed number, a timestamp beyond it
is handled, whatever the MAC. -/
theorem saturated_timestamp_handled :
    ¬ ∃ mac : List UInt8 → List UInt8 → List UInt8,
      (∀ secret input, (mac secret input).length = 32) ∧
      ∀ (host : Host) (config : ServerConfig) (connection : Connection) (now : Nat),
        host.mac = mac → now + config.toleranceSecs < 2 ^ 63 →
        ∀ body ∈ (serveConnection host config connection now).calls,
          ∃ request timestampText signatureText timestamp, Authorized host config connection now
            body request timestampText signatureText timestamp := by
  rintro ⟨mac, htag, hauthorized⟩
  have hcalls := @client_handled (2 ^ 63 - 301) mac htag (2 ^ 63) [] (by decide) (by decide)
    (by decide)
  have hread : readRequest (client mac (2 ^ 63) []) 1024 = .ok _ :=
    readRequest_post (by decide) (by decide) (by decide) (sign_visible _ _ _)
      (Nat.le_of_eq (length_sign (htag _) _ _)) (received_singly _)
  obtain ⟨request, timestampText, signatureText, timestamp, h⟩ :=
    hauthorized (plainHost mac) plainConfig (client mac (2 ^ 63) []) (2 ^ 63 - 301) rfl (by decide)
      [] (by rw [hcalls]; exact List.mem_cons_self)
  have hrequest := hread.symm.trans h.read
  rw [Except.ok.injEq] at hrequest
  have htext : toString (2 ^ 63) = timestampText := by
    have hheader := h.timestamped
    rw [← hrequest, header_post.1] at hheader
    exact Option.some.inj hheader
  have htimestamp : timestamp = 2 ^ 63 := by
    have hparsed := h.parsed
    rw [← htext, trim_self fun c hc => (digits_visible _ c hc).2.2, parseTimestamp,
      parseUnsigned_toString (by decide), Option.some.injEq] at hparsed
    exact hparsed.symm
  have hwithin := h.within.2
  rw [htimestamp] at hwithin
  exact absurd hwithin (by decide)

end Fraisier.Webhook
