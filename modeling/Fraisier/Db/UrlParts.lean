import Fraisier.Data.UrlText
import Fraisier.Db.Dsn

/-!
# The parts of a URI and a connection

What is assumed of the `url` crate, and which connection is parsed of the parts of a URI
(`parse_dsn_iff`). For a host, a database and an `sslmode` each, when they are read as they are
written: `HostText.plain` and `hostText_of_read`, `database_eq_iff`, `mode_eq_iff`.
-/

namespace Fraisier.Db

open Fraisier.Data

/-! ## What is assumed of the `url` crate -/

/-- A component with some characters percent-encoded. -/
def Encodes (component : String) (text : List Char) : Prop :=
  ∃ escaped, KeepsEscapes escaped ∧ component = String.ofList (percentEncode escaped text)

/-- A URL of the crate has the parts of a text. -/
structure Url.Has (u : Url) (text : UrlText) : Prop where
  scheme : u.scheme = "postgres"
  username : Encodes u.username text.authority.user
  password : Option.Rel Encodes u.password text.authority.password
  host : Encodes (u.host.getD "") text.authority.host
  port : u.port = text.authority.port
  path : ∃ escaped, KeepsEscapes escaped ∧ escaped 0x2F = false ∧
    u.path = String.ofList (percentEncode escaped text.path)
  queryPairs : u.queryPairs = readParams (text.query.getD [])

/-- The crate reads what stands behind `postgres://` as the URL standard does. -/
structure ReadsStandard (ipv6 : List Char → Option (List Char))
    (url : String → Except String Url) : Prop where
  rejects : ∀ text, readUrl ipv6 text = none →
    ∃ error, url (String.ofList ("postgres://".toList ++ text)) = .error error
  accepts : ∀ text parts, readUrl ipv6 text = some parts →
    ∃ u, url (String.ofList ("postgres://".toList ++ text)) = .ok u ∧ u.Has parts

/-- An IPv6 address is written with digits and colons, and what is written is read as it is. -/
structure WritesAddresses (ipv6 : List Char → Option (List Char)) : Prop where
  digits : ∀ text address, ipv6 text = some address →
    ∀ c ∈ address, isHexChar c = true ∨ c = ':'
  again : ∀ text address, ipv6 text = some address → ipv6 address = some address

/-! ## What `parse` makes of the parts -/

/-- A component as it is decoded. -/
def decoded (text : List Char) : String :=
  String.ofList (decodeLossy text)

/-- A connection is what is decoded of the parts of a text. -/
structure PgConn.Matches (conn : PgConn) (text : UrlText) : Prop where
  host : conn.host =
    if text.authority.host = [] then none else some (decoded text.authority.host)
  port : conn.port = text.authority.port
  user : conn.user =
    if text.authority.user = [] then none else some (decoded text.authority.user)
  password : conn.password = text.authority.password.map decoded
  database : conn.database = decoded (withoutSlashes text.path)
  named : conn.database ≠ ""
  sslmode : conn.sslmode =
    ((readParams (text.query.getD [])).find? (·.1 = "sslmode")).map Prod.snd

theorem decode_ofList (text : List Char) : decode (String.ofList text) = decoded text := by
  rw [decode, bytes_eq, String.toList_ofList, decoded, decodeLossy]

theorem percentEncode_eq_nil_iff {escaped : UInt8 → Bool} {text : List Char} :
    percentEncode escaped text = [] ↔ text = [] := by
  constructor
  · intro h
    rw [percentEncode, List.flatMap_eq_nil_iff] at h
    cases text with
    | nil => rfl
    | cons c rest =>
        obtain ⟨lead, more, hencoded, -⟩ := exists_encoded c
        have hlead := h lead (by rw [utf8_cons, hencoded]; exact List.mem_cons_self)
        unfold encodeByte at hlead
        split at hlead
        · cases hlead
        · cases hlead
  · rintro rfl
    rfl

theorem Encodes.decode_eq {component : String} {text : List Char} (h : Encodes component text) :
    decode component = decoded text := by
  obtain ⟨escaped, hset, rfl⟩ := h
  rw [decode_ofList, decoded, decodeLossy_percentEncode hset, decoded]

theorem Encodes.eq_empty_iff {component : String} {text : List Char}
    (h : Encodes component text) : component = "" ↔ text = [] := by
  obtain ⟨escaped, -, rfl⟩ := h
  rw [String.ofList_eq_empty_iff, percentEncode_eq_nil_iff]

/-- Slashes at the start of a path are there before and behind encoding. -/
theorem dropWhile_percentEncode {escaped : UInt8 → Bool} (hslash : escaped 0x2F = false)
    (text : List Char) : (percentEncode escaped text).dropWhile (· = '/') =
      percentEncode escaped (withoutSlashes text) := by
  induction text with
  | nil => rfl
  | cons c rest ih =>
      by_cases hc : c = '/'
      · subst hc
        have hcons : percentEncode escaped ('/' :: rest) = '/' :: percentEncode escaped rest := by
          have hbyte : encodeByte escaped 0x2F = ['/'] := by
            rw [encodeByte, hslash]
            rfl
          rw [percentEncode, utf8_cons, utf8EncodeChar_ascii (by decide), List.singleton_append,
            List.flatMap_cons]
          exact congrArg (· ++ percentEncode escaped rest) hbyte
        rw [hcons, List.dropWhile_cons_of_pos (by decide), ih, withoutSlashes, withoutSlashes,
          List.dropWhile_cons_of_pos (by decide)]
      · rw [withoutSlashes, List.dropWhile_cons_of_neg (by simpa using hc)]
        obtain ⟨lead, more, hencoded, -⟩ := exists_encoded c
        have hbytes : utf8 (c :: rest) = lead :: (more ++ utf8 rest) := by
          rw [utf8_cons, hencoded, List.cons_append]
        rw [percentEncode, hbytes, List.flatMap_cons, encodeByte]
        split
        · rfl
        next hkept =>
          simp only [Bool.or_eq_true, decide_eq_true_eq, not_or] at hkept
          obtain ⟨d, text, hd, hascii, hval, -⟩ :=
            exists_of_utf8_cons hbytes (UInt8.not_le.mp hkept.2)
          obtain ⟨rfl, rfl⟩ := List.cons.inj hd
          have hsame : Char.ofNat lead.toNat = c := by
            rw [← hval, toNat_ascii hascii, Char.ofNat_toNat]
          rw [hsame]
          exact List.dropWhile_cons_of_neg (by simpa using hc)

/-! ## Parsing -/

section Parse

variable {ipv6 : List Char → Option (List Char)} {url : String → Except String Url}
  {dsn : String} {conn : PgConn} {u : Url} {text : UrlText}

/-- A connection is parsed of a URL with the parts that it matches. -/
theorem parse_eq_ok_iff (hurl : url dsn = .ok u) (hu : u.Has text) :
    PgConn.parse url dsn = .ok conn ↔ conn.Matches text := by
  have hhost : (u.host.filter (· ≠ "")).map decode =
      if text.authority.host = [] then none else some (decoded text.authority.host) := by
    have hempty := hu.host.eq_empty_iff
    have hdecode := hu.host.decode_eq
    cases hnone : u.host with
    | none =>
        rw [hnone, Option.getD_none] at hempty
        rw [if_pos (hempty.mp rfl)]
        rfl
    | some host =>
        rw [hnone, Option.getD_some] at hempty hdecode
        by_cases h : host = ""
        · rw [if_pos (hempty.mp h)]
          simp [h]
        · rw [if_neg (mt hempty.mpr h)]
          simp [h, hdecode]
  have huser : (if u.username = "" then none else some (decode u.username)) =
      if text.authority.user = [] then none else some (decoded text.authority.user) := by
    simp only [hu.username.eq_empty_iff, hu.username.decode_eq]
  have hpassword : u.password.map decode = text.authority.password.map decoded := by
    have hrel := hu.password
    cases hu' : u.password <;> cases ht : text.authority.password <;> rw [hu', ht] at hrel
    · rfl
    · cases hrel
    · cases hrel
    · cases hrel with
      | some hencodes => exact congrArg some hencodes.decode_eq
  have hdatabase : decode (String.ofList (u.path.toList.dropWhile (· = '/'))) =
      decoded (withoutSlashes text.path) := by
    obtain ⟨escaped, hset, hslash, hpath⟩ := hu.path
    rw [hpath, String.toList_ofList, dropWhile_percentEncode hslash, decode_ofList, decoded,
      decodeLossy_percentEncode hset, decoded]
  have hparse : PgConn.parse url dsn =
      if decoded (withoutSlashes text.path) = "" then .error .missingDatabase
      else .ok {
        host := if text.authority.host = [] then none else some (decoded text.authority.host)
        port := text.authority.port
        user := if text.authority.user = [] then none else some (decoded text.authority.user)
        password := text.authority.password.map decoded
        database := decoded (withoutSlashes text.path)
        sslmode := ((readParams (text.query.getD [])).find? (·.1 = "sslmode")).map Prod.snd } := by
    rw [PgConn.parse, hurl]
    simp only [Except.mapError, bind, Except.bind, hu.scheme, hhost, huser, hpassword, hdatabase,
      hu.port, hu.queryPairs]
    rfl
  rw [hparse]
  constructor
  · intro h
    split at h
    · cases h
    next hnamed =>
      cases h
      exact ⟨rfl, rfl, rfl, rfl, rfl, hnamed, rfl⟩
  · rintro ⟨hhost, hport, huser, hpassword, hdatabase, hnamed, hsslmode⟩
    rw [if_neg (hdatabase ▸ hnamed)]
    obtain ⟨_, _, _, _, _, _⟩ := conn
    simp only at hhost hport huser hpassword hdatabase hsslmode
    rw [hhost, hport, huser, hpassword, hdatabase, hsslmode]

/-- What stands behind the scheme in the URI of a connection. -/
def PgConn.afterScheme (conn : PgConn) : List Char :=
  conn.userinfo ++ (conn.hostPort ++ conn.pathQuery)

/-- A connection comes back when it matches what is read of its URI. -/
theorem parse_dsn_iff (hurl : ReadsStandard ipv6 url) :
    PgConn.parse url conn.dsn = .ok conn ↔
      ∃ text, readUrl ipv6 conn.afterScheme = some text ∧ conn.Matches text := by
  have hdsn : conn.dsn = String.ofList ("postgres://".toList ++ conn.afterScheme) := by
    refine String.toList_inj.mp ?_
    rw [PgConn.toList_dsn]
    exact String.toList_ofList.symm
  cases hread : readUrl ipv6 conn.afterScheme with
  | none =>
      obtain ⟨error, herror⟩ := hurl.rejects _ hread
      refine iff_of_false ?_ (by rintro ⟨_, h, -⟩; cases h)
      rw [PgConn.parse, hdsn, herror]
      exact fun h => by cases h
  | some text =>
      obtain ⟨u, hu, hhas⟩ := hurl.accepts _ _ hread
      rw [← hdsn] at hu
      rw [parse_eq_ok_iff hu hhas]
      simp

end Parse

/-! ## The host -/

section Host

variable {ipv6 : List Char → Option (List Char)} {host port : List Char}

/-- A host that is read as it is written: an address between brackets, or plain characters
without an escape. No host is one. -/
def HostText (ipv6 : List Char → Option (List Char)) (host : List Char) : Prop :=
  (∃ address, host = '[' :: (address ++ [']']) ∧ ipv6 address = some address) ∨
    (∀ c ∈ host, c ∉ forbiddenInHost) ∧ hasEscape host = false

/-- What a host has in it when it is read as it is written. -/
structure HostPlain (ipv6 : List Char → Option (List Char)) (host : List Char) : Prop where
  visible : ∀ c ∈ host, isTabOrNewline c = false
  inAuthority : ∀ c ∈ host, endsAuthority c = false
  noCredentials : '@' ∉ host
  span : ∀ rest, FollowsHost rest → spanHost false (host ++ rest) = (host, rest)
  reads : readHost ipv6 host = some host
  decodes : decodeLossy host = host

/-- No character of an address is a digit of an escape, or anything but a digit or a colon. -/
theorem ne_of_isHexChar {c d : Char} (hc : isHexChar c = true ∨ c = ':')
    (hd : isHexChar d = false ∧ d ≠ ':') : c ≠ d := by
  rintro rfl
  obtain hhex | hcolon := hc
  · rw [hd.1] at hhex
    cases hhex
  · exact hd.2 hcolon

/-- What is not forbidden does not end an authority, and so on. -/
theorem of_not_forbidden {c : Char} (h : c ∉ forbiddenInHost) :
    isTabOrNewline c = false ∧ endsAuthority c = false ∧ c ≠ '@' ∧ c ≠ ':' ∧ c ≠ '[' := by
  simp only [forbiddenInHost, List.mem_cons, List.not_mem_nil, or_false, not_or] at h
  obtain ⟨-, htab, hnewline, hreturn, -, hhash, hslash, hcolon, -, -, hquestion, hat, hopen, -⟩ := h
  exact ⟨isTabOrNewline_eq_false_iff.mpr ⟨htab, hnewline, hreturn⟩,
    endsAuthority_eq_false_iff.mpr ⟨hslash, hquestion, hhash⟩, hat, hcolon, hopen⟩

theorem HostText.plain (hipv6 : WritesAddresses ipv6) (h : HostText ipv6 host) :
    HostPlain ipv6 host := by
  obtain ⟨address, rfl, haddress⟩ | ⟨hplain, hescape⟩ := h
  · have hclose : ']' ∉ address := fun hmem =>
      ne_of_isHexChar (hipv6.digits _ _ haddress _ hmem) (by decide) rfl
    have hne : ∀ c ∈ '[' :: (address ++ [']']), ∀ d,
        (d ≠ '[' ∧ d ≠ ']') ∧ isHexChar d = false ∧ d ≠ ':' → c ≠ d := by
      intro c hc d hd
      obtain rfl | hc := List.mem_cons.mp hc
      · exact hd.1.1.symm
      · obtain hc | hc := List.mem_append.mp hc
        · exact ne_of_isHexChar (hipv6.digits _ _ haddress c hc) hd.2
        · rw [List.mem_singleton.mp hc]
          exact hd.1.2.symm
    refine ⟨fun c hc => ?_, fun c hc => ?_, fun hmem => hne _ hmem '@' (by decide) rfl,
      fun rest hrest => spanHost_brackets hclose hrest, ?_, ?_⟩
    · exact isTabOrNewline_eq_false_iff.mpr ⟨hne c hc '\t' (by decide), hne c hc '\n' (by decide),
        hne c hc '\r' (by decide)⟩
    · exact endsAuthority_eq_false_iff.mpr ⟨hne c hc '/' (by decide), hne c hc '?' (by decide),
        hne c hc '#' (by decide)⟩
    · have hlast : ('[' :: (address ++ [']'])).getLast? = some ']' := by
        rw [← List.cons_append, List.getLast?_concat]
      rw [readHost, List.head?_cons, if_pos rfl, if_pos hlast, List.tail_cons,
        List.dropLast_concat, haddress]
      rfl
    · exact decodeLossy_of_hasEscape
        (hasEscape_eq_false_of_not_mem fun hmem => hne _ hmem '%' (by decide) rfl)
  · refine ⟨fun c hc => (of_not_forbidden (hplain c hc)).1,
      fun c hc => (of_not_forbidden (hplain c hc)).2.1,
      fun hmem => (of_not_forbidden (hplain _ hmem)).2.2.1 rfl,
      fun rest hrest => spanHost_plain (fun c hc => (of_not_forbidden (hplain c hc)).2.2.2) hrest,
      ?_, decodeLossy_of_hasEscape hescape⟩
    have hhead : host.head? ≠ some '[' := fun hhead =>
      (of_not_forbidden (hplain _ (List.mem_of_head? hhead))).2.2.2.2 rfl
    have hany : host.any forbiddenInHost.contains = false := by
      rw [List.any_eq_false]
      exact fun c hc => by simpa using hplain c hc
    rw [readHost, if_neg hhead, hany]
    rfl

/-- A port as it is written: nothing, or a colon and what neither ends an authority nor holds
an `@`. -/
structure PortText (port : List Char) : Prop where
  follows : FollowsHost port
  inAuthority : ∀ c ∈ port, endsAuthority c = false
  noCredentials : '@' ∉ port

/-- The host goes up to a colon, so a port behind it makes no difference. -/
theorem takeWhile_colon (hport : FollowsHost port) :
    (host ++ port).takeWhile (· ≠ ':') = host.takeWhile (· ≠ ':') := by
  have hnothing : port.takeWhile (· ≠ ':') = [] := by
    obtain rfl | hcolon := hport
    · rfl
    · obtain ⟨more, rfl⟩ := List.head?_eq_some_iff.mp hcolon
      rfl
  rw [List.takeWhile_append, hnothing, List.append_nil]
  split
  next hall => exact ((List.takeWhile_prefix _).eq_of_length hall).symm
  next => rfl

/-- A host that is read back is written so that it can be. -/
theorem hostText_of_read (hipv6 : WritesAddresses ipv6) {credentials visible : List Char}
    {authority : Authority} (hcredentials : credentials = [] ∨ ∃ text, credentials = text ++ ['@'])
    (hport : PortText port) (hvisible : visible = host.filter fun c => !isTabOrNewline c)
    (hread : readAuthority ipv6
      (credentials ++ (visible ++ port).takeWhile fun c => !endsAuthority c) = some authority)
    (hhost : host = decodeLossy authority.host) : HostText ipv6 host := by
  obtain ⟨_, haddress⟩ := exists_readAddress hread
  have hread := readHost_of_readAddress haddress
  have hlast : afterLast '@' (credentials ++
      (visible ++ port).takeWhile fun c => !endsAuthority c) =
      afterLast '@' ((visible ++ port).takeWhile fun c => !endsAuthority c) := by
    obtain rfl | ⟨text, rfl⟩ := hcredentials
    · rfl
    · rw [List.append_assoc, List.singleton_append, afterLast_prepend]
  rw [hlast, readHost] at hread
  split at hread
  · split at hread
    · obtain ⟨address, haddress, hwritten⟩ := Option.map_eq_some_iff.mp hread
      have hpercent : '%' ∉ '[' :: (address ++ [']']) := by
        intro hmem
        obtain hmem | hmem := List.mem_append.mp (List.mem_of_ne_of_mem (by decide) hmem)
        · exact ne_of_isHexChar (hipv6.digits _ _ haddress _ hmem) (by decide) rfl
        · cases List.mem_singleton.mp hmem
      rw [hhost, ← hwritten, decodeLossy_of_hasEscape (hasEscape_eq_false_of_not_mem hpercent)]
      exact .inl ⟨address, rfl, hipv6.again _ _ haddress⟩
    · cases hread
  · split at hread
    · cases hread
    next hforbidden =>
      rw [← Option.some.inj hread] at hhost
      -- without brackets the host is cut out of what was written, so nothing may be lost
      have hplain : ∀ c ∈ (spanHost false (afterLast '@'
          ((visible ++ port).takeWhile fun c => !endsAuthority c))).1, c ∉ forbiddenInHost := by
        simpa using hforbidden
      have hspan := spanHost_of_not_mem fun hmem => (of_not_forbidden (hplain _ hmem)).2.2.2.2 rfl
      have hcut : (afterLast '@' ((visible ++ port).takeWhile fun c => !endsAuthority c)).takeWhile
          (· ≠ ':') =
          (afterLast '@' (visible.takeWhile fun c => !endsAuthority c)).takeWhile (· ≠ ':') := by
        have hwhole : (port.takeWhile fun c => !endsAuthority c) = port :=
          takeWhile_of_forall fun c hc => by simp [hport.inAuthority c hc]
        rw [List.takeWhile_append]
        split
        next hall =>
          rw [hwhole, afterLast_append hport.noCredentials, takeWhile_colon hport.follows,
            (List.takeWhile_prefix _).eq_of_length hall]
        next => rfl
      rw [hspan, hcut] at hhost hplain
      have hthins : Thins ((afterLast '@' (visible.takeWhile fun c => !endsAuthority c)).takeWhile
          (· ≠ ':')) host := by
        refine (Thins.takeWhile (fun _ => ascii_of_eq (by decide)) _).trans ?_
        refine (thins_afterLast (by decide) _).trans ?_
        refine (Thins.takeWhile (fun _ => ascii_of_endsAuthority) _).trans ?_
        rw [hvisible]
        exact Thins.filter (fun _ => ascii_of_isTabOrNewline) host
      have hsame := hthins.antisymm (by rw [hhost]; exact Thins.decodeLossy _)
      rw [hsame] at hplain hhost
      exact .inr ⟨hplain, Thins.hasEscape_eq_false hhost.symm⟩

end Host

/-! ## The database -/

/-- A database name that is read as it is written, with or without a parameter behind it. -/
structure PlainDatabase (database : List Char) (last : Bool) : Prop where
  named : database ≠ []
  visible : ∀ c ∈ database, isTabOrNewline c = false
  ended : last = true → ∀ c ∈ database.getLast?, isControlOrSpace c = false
  inPath : ∀ c ∈ database, endsPath c = false
  path : PlainPath database
  unescaped : hasEscape database = false

/-- A database name as it is cleaned. Behind it there is nothing, or a parameter. -/
def cleanedName (database : List Char) (last : Bool) : List Char :=
  if last then cleaned database else database.filter fun c => !isTabOrNewline c

theorem thins_cleanedName (database : List Char) (last : Bool) :
    Thins (cleanedName database last) database := by
  cases last with
  | true => exact thins_cleaned database
  | false => exact Thins.filter (fun _ => ascii_of_isTabOrNewline) database

theorem cleanedName_eq_self_iff {database : List Char} {last : Bool} :
    cleanedName database last = database ↔ (∀ c ∈ database, isTabOrNewline c = false) ∧
      (last = true → ∀ c ∈ database.getLast?, isControlOrSpace c = false) := by
  cases last with
  | true =>
      refine cleaned_eq_self_iff.trans ⟨fun h => ⟨h.visible, fun _ => h.last⟩, fun h => ?_⟩
      exact ⟨h.1, h.2 rfl⟩
  | false =>
      refine List.filter_eq_self.trans ⟨fun h => ⟨fun c hc => by simpa using h c hc, ?_⟩, ?_⟩
      · exact fun h => by cases h
      · exact fun h c hc => by simpa using h.1 c hc

/-- A database is read as it is written exactly when its name is plain. -/
theorem database_eq_iff {database : List Char} {last : Bool} (hnamed : database ≠ []) :
    database = decodeLossy (withoutSlashes (readPath ('/' ::
      (cleanedName database last).takeWhile fun c => !endsPath c))) ↔
      PlainDatabase database last := by
  have hcut : Thins ((cleanedName database last).takeWhile fun c => !endsPath c)
      (cleanedName database last) := Thins.takeWhile (fun _ => ascii_of_endsPath) _
  have hclean := thins_cleanedName database last
  constructor
  · intro h
    have hpath : Thins (withoutSlashes (readPath ('/' ::
        (cleanedName database last).takeWhile fun c => !endsPath c)))
        ((cleanedName database last).takeWhile fun c => !endsPath c) := by
      obtain ⟨-, hsame⟩ | ⟨-, hless⟩ := readPath_cases
        ((cleanedName database last).takeWhile fun c => !endsPath c)
      · exact .inl hsame
      · exact .inr hless
    -- the name is what is left of it after each step, so no step takes anything away
    have hdecode := Thins.decodeLossy (withoutSlashes (readPath ('/' ::
      (cleanedName database last).takeWhile fun c => !endsPath c)))
    rw [← h] at hdecode
    have hname := hclean.antisymm (hdecode.trans (hpath.trans hcut))
    have hwhole := (hcut.trans hclean).antisymm (hdecode.trans hpath)
    rw [hname] at hwhole
    rw [hname, hwhole] at h
    have hpathEq := (hpath.trans (hcut.trans hclean)).antisymm hdecode
    rw [hname, hwhole] at hpathEq
    rw [hpathEq] at h
    obtain ⟨hvisible, hended⟩ := cleanedName_eq_self_iff.mp hname
    refine ⟨hnamed, hvisible, hended, ?_, ?_, Thins.hasEscape_eq_false h.symm⟩
    · exact fun c hc => by simpa using List.takeWhile_eq_self_iff.mp hwhole c hc
    · obtain ⟨hplain, -⟩ | ⟨-, hless⟩ := readPath_cases database
      · exact hplain
      · rw [hpathEq] at hless
        exact absurd hless (Nat.lt_irrefl _)
  · intro h
    have hname : cleanedName database last = database :=
      cleanedName_eq_self_iff.mpr ⟨h.visible, h.ended⟩
    have hwhole : (database.takeWhile fun c => !endsPath c) = database :=
      takeWhile_of_forall fun c hc => by simp [h.inPath c hc]
    obtain ⟨-, hsame⟩ | ⟨hnot, -⟩ := readPath_cases database
    · rw [hname, hwhole, hsame, decodeLossy_of_hasEscape h.unescaped]
    · exact absurd h.path hnot

/-! ## The parameter -/

/-- A mode that is read as it is written. -/
structure PlainMode (mode : List Char) : Prop where
  clean : Clean mode
  whole : ∀ c ∈ mode, c ≠ '#' ∧ c ≠ '&' ∧ c ≠ '+'
  unescaped : hasEscape mode = false

theorem mode_eq_iff {mode : List Char} :
    mode = decodeForm (((cleaned mode).takeWhile (· ≠ '#')).takeWhile (· ≠ '&')) ↔
      PlainMode mode := by
  have hfragment : Thins ((cleaned mode).takeWhile (· ≠ '#')) (cleaned mode) :=
    Thins.takeWhile (fun _ => ascii_of_eq (by decide)) _
  have hparam : Thins (((cleaned mode).takeWhile (· ≠ '#')).takeWhile (· ≠ '&'))
      ((cleaned mode).takeWhile (· ≠ '#')) := Thins.takeWhile (fun _ => ascii_of_eq (by decide)) _
  have hclean := thins_cleaned mode
  constructor
  · intro h
    have hle := weight_decodeForm_le (((cleaned mode).takeWhile (· ≠ '#')).takeWhile (· ≠ '&'))
    rw [← h] at hle
    have hwhole := (hparam.trans (hfragment.trans hclean)).eq_of_weight_le hle
    have hrest := hle.trans hparam.weight_le
    have hfragmentEq := (hfragment.trans hclean).eq_of_weight_le hrest
    have hcleanEq := hclean.eq_of_weight_le (hrest.trans hfragment.weight_le)
    rw [hwhole] at h
    obtain ⟨hplus, hescape⟩ := decodeForm_eq_self_iff.mp h.symm
    rw [hfragmentEq] at hwhole
    rw [hcleanEq] at hfragmentEq
    refine ⟨cleaned_eq_self_iff.mp hcleanEq, fun c hc => ⟨?_, ?_, ?_⟩, hescape⟩
    · simpa using List.takeWhile_eq_self_iff.mp hfragmentEq c hc
    · simpa using List.takeWhile_eq_self_iff.mp hwhole c hc
    · rintro rfl
      exact hplus hc
  · intro h
    have hplus : '+' ∉ mode := fun hmem => (h.whole _ hmem).2.2 rfl
    have hfragmentEq : mode.takeWhile (· ≠ '#') = mode :=
      takeWhile_of_forall fun c hc => by simp [(h.whole c hc).1]
    have hparamEq : mode.takeWhile (· ≠ '&') = mode :=
      takeWhile_of_forall fun c hc => by simp [(h.whole c hc).2.1]
    rw [cleaned_eq_self_iff.mpr h.clean, hfragmentEq, hparamEq,
      decodeForm_eq_self_iff.mpr ⟨hplus, h.unescaped⟩]

end Fraisier.Db
