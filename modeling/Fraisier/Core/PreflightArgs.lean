import Fraisier.Core.Rehearsal
import Fraisier.Core.Tools
import Fraisier.Data.Split
import Fraisier.Db.Dsn

/-!
# Which arguments a preflight is run with

A preflight that classifies against a copy names the copy on its command line. The password is
split off its URI first and travels in a variable. The main result is
`preflight_hides_password`.
-/

namespace Fraisier.Core

open Fraisier.Data Fraisier.Db Fraisier.Effect

variable {T : Sig}

/-! ## Splitting a password off -/

/-- The value of a hexadecimal digit. -/
def digitValue (c : Char) : Option Nat :=
  if '0' ≤ c ∧ c ≤ '9' then some (c.toNat - '0'.toNat)
  else if 'A' ≤ c ∧ c ≤ 'F' then some (c.toNat - 'A'.toNat + 10)
  else if 'a' ≤ c ∧ c ≤ 'f' then some (c.toNat - 'a'.toNat + 10)
  else none

/-- The byte that two characters are read as: two digits, or a sign and one. -/
def radixByte (high low : Char) : Option UInt8 :=
  match digitValue high, digitValue low with
  | some high, some low => some (UInt8.ofNat (16 * high + low))
  | none, some low => if high = '+' then some (UInt8.ofNat low) else none
  | _, none => none

/-- The bytes of characters, with the byte of each `%XX`. -/
def percentDecodeText : List Char → List UInt8
  | '%' :: high :: low :: rest =>
      match radixByte high low with
      | some byte => byte :: percentDecodeText rest
      | none => String.utf8EncodeChar '%' ++ percentDecodeText (high :: low :: rest)
  | c :: rest => String.utf8EncodeChar c ++ percentDecodeText rest
  | [] => []

/-- The authority ends before a `/` or a `?`. -/
def inAuthority (c : Char) : Bool :=
  c ≠ '/' && c ≠ '?'

/-- A URI without its password, and the password. Anything but a PostgreSQL URI is refused. -/
def splitPassword (dsn : String) : Except AdapterError (String × Option String) :=
  let refusal : AdapterError :=
    { AdapterError.new .invalidConfig ("the deep-classification target is not a postgres:// " ++
        "URL, so its password cannot be kept off argv") with
      adapter := some "confiture" }
  match splitOnce "://".toList dsn.toList with
  | none => .error refusal
  | some (scheme, rest) =>
      if scheme ≠ "postgres".toList ∧ scheme ≠ "postgresql".toList then .error refusal
      else
        match rsplitOnce '@' (rest.takeWhile inAuthority) with
        | none => .ok (dsn, none)
        | some (userinfo, host) =>
            match splitOnce [':'] userinfo with
            | none => .ok (dsn, none)
            | some (user, password) =>
                let tail := rest.dropWhile inAuthority
                .ok (String.ofList (scheme ++ "://".toList ++ user ++ '@' :: (host ++ tail)),
                  some (String.ofList (fromUtf8Lossy (percentDecodeText password))))

/-! ## The invocation -/

/-- What a subcommand is invoked with. -/
structure PlannedInvocation where
  args : List String
  databaseUrl : String
  env : List (String × String)
deriving DecidableEq

/-- Plan the invocation of a subcommand. -/
def ConfitureMigration.plan (confiture : ConfitureMigration) (os : Os T) (subcommand : String)
    (ctx : AdapterCtx) (extra : List String) : Prog T (Except AdapterError PlannedInvocation) := do
  match ← ctx.secret os databaseUrlSecret with
  | .error error => return .error { error with adapter := some "confiture" }
  | .ok databaseUrl =>
    let args := confiture.planArgs subcommand ctx extra
    if subcommand ≠ "preflight" then return .ok ⟨args, databaseUrl, []⟩
    else
      match ← ctx.secret os againstDatabaseUrlSecret with
      | .error _ => return .ok ⟨args, databaseUrl, []⟩
      | .ok target =>
        match splitPassword target with
        | .error error => return .error error
        | .ok (url, password) =>
            return .ok ⟨args ++ ["--against", url], databaseUrl,
              (password.map fun password => ("PGPASSWORD", password)).toList⟩

/-! ## The splitter undoes what `dsn` writes -/

theorem radixByte_upperDigit : ∀ n < 256,
    radixByte (upperDigit (n / 16)) (upperDigit (n % 16)) = some (UInt8.ofNat n) := by
  decide +kernel

theorem percentDecodeText_encodeUserinfo (text : String) :
    String.ofList (fromUtf8Lossy (percentDecodeText (encodeUserinfo text))) = text := by
  have hdecoded : percentDecodeText (encodeUserinfo text) = utf8 text.toList := by
    refine decode_percentEncode (by decide +kernel) rfl (fun byte rest => ?_)
      (fun c rest hascii hne => ?_) text.toList
    · have hbyte := radixByte_upperDigit byte.toNat byte.toNat_lt
      rw [UInt8.ofNat_toNat] at hbyte
      simp only [escapeByte, List.cons_append, List.nil_append, percentDecodeText, hbyte]
    · rw [percentDecodeText.eq_def]
      split
      · next hmatch => exact absurd (List.cons.inj hmatch).1 hne
      · next hmatch =>
          obtain ⟨rfl, rfl⟩ := List.cons.inj hmatch
          rw [utf8EncodeChar_ascii hascii]
          rfl
      · next hmatch => cases hmatch
  rw [hdecoded, fromUtf8Lossy_utf8, String.ofList_toList]

/-- What goes on up to a separator lies before it. -/
theorem mem_takeWhile_separated {p : Char → Bool} {separator c : Char} {before after : List Char}
    (hseparator : p separator = false) (h : c ∈ (before ++ separator :: after).takeWhile p) :
    c ∈ before := by
  have hnothing : (separator :: after).takeWhile p = [] := by
    rw [List.takeWhile_cons, hseparator]
    rfl
  rw [List.takeWhile_append, hnothing, List.append_nil] at h
  split at h
  · exact h
  · exact (List.takeWhile_sublist p).subset h

theorem PgConn.not_mem_hostPort {conn : PgConn} (h : ∀ host ∈ conn.host, '@' ∉ host.toList) :
    '@' ∉ conn.hostPort := by
  intro hmem
  rcases List.mem_append.mp hmem with hhost | hport
  · cases hconn : conn.host with
    | none =>
        rw [hconn] at hhost
        exact List.not_mem_nil hhost
    | some host =>
        rw [hconn] at hhost
        exact h host hconn hhost
  · cases hconn : conn.port with
    | none =>
        rw [hconn] at hport
        exact List.not_mem_nil hport
    | some port =>
        rw [hconn] at hport
        rcases List.mem_cons.mp hport with hcolon | hdigit
        · exact absurd hcolon (by decide)
        · have hat := Nat.isDigit_of_mem_toDigits (by decide) (by decide) hdigit
          exact absurd hat (by decide)

theorem splitOnce_scheme (rest : List Char) :
    splitOnce "://".toList ("postgres://".toList ++ rest) = some ("postgres".toList, rest) := by
  have hmark : "://".toList = [':', '/', '/'] := rfl
  have hscheme : "postgres://".toList =
      ['p', 'o', 's', 't', 'g', 'r', 'e', 's', ':', '/', '/'] := rfl
  have hname : "postgres".toList = ['p', 'o', 's', 't', 'g', 'r', 'e', 's'] := rfl
  rw [hmark, hscheme, hname]
  simp [splitOnce, List.isPrefixOf]

theorem encodeUserinfo_inAuthority (text : String) :
    ∀ c ∈ encodeUserinfo text, inAuthority c = true := by
  intro c hc
  have hslash : c ≠ '/' := fun h => not_mem_encodeUserinfo text '/' (by simp) (h ▸ hc)
  have hquery : c ≠ '?' := fun h => not_mem_encodeUserinfo text '?' (by simp) (h ▸ hc)
  simp [inAuthority, hslash, hquery]

/-- How a URI is split that has an `@` behind its userinfo, and none further on in its
authority. -/
theorem splitPassword_authority {dsn : String} {userinfo address : List Char}
    (hdsn : dsn.toList = "postgres://".toList ++ (userinfo ++ '@' :: address))
    (huserinfo : ∀ c ∈ userinfo, inAuthority c = true)
    (haddress : '@' ∉ address.takeWhile inAuthority) :
    splitPassword dsn = (splitOnce [':'] userinfo).elim (.ok (dsn, none)) fun parts =>
      .ok (String.ofList ("postgres://".toList ++ (parts.1 ++ '@' :: address)),
        some (String.ofList (fromUtf8Lossy (percentDecodeText parts.2)))) := by
  have hgoes : ∀ c ∈ userinfo ++ ['@'], inAuthority c = true := by
    simpa [or_imp, forall_and, inAuthority] using huserinfo
  have hauthority : (userinfo ++ '@' :: address).takeWhile inAuthority =
      userinfo ++ '@' :: address.takeWhile inAuthority := by
    rw [List.append_cons, List.takeWhile_append_of_pos hgoes, List.append_assoc,
      List.singleton_append]
  have htail : (userinfo ++ '@' :: address).dropWhile inAuthority =
      address.dropWhile inAuthority := by
    rw [List.append_cons, List.dropWhile_append_of_pos hgoes]
  have hscheme : "postgres://".toList = "postgres".toList ++ "://".toList := rfl
  unfold splitPassword
  rw [hdsn, splitOnce_scheme]
  simp only [hauthority, htail, rsplitOnce_append haddress]
  rw [if_neg fun h => h.1 rfl]
  cases splitOnce [':'] userinfo with
  | none => rfl
  | some parts =>
      simp only [Option.elim_some, List.takeWhile_append_dropWhile, hscheme, List.append_assoc]

/-- The splitter finds the password that `dsn` wrote, whatever characters it has. -/
theorem splitPassword_dsn {conn : PgConn} {user : String} (huser : conn.user = some user)
    (hhost : ∀ host ∈ conn.host, '@' ∉ host.toList) :
    splitPassword conn.dsn = .ok ({ conn with password := none }.dsn, conn.password) := by
  have haddress : '@' ∉ (conn.hostPort ++ conn.pathQuery).takeWhile inAuthority := fun h =>
    PgConn.not_mem_hostPort hhost (mem_takeWhile_separated (by decide) h)
  have hbare : { conn with password := none }.dsn = String.ofList ("postgres://".toList ++
      (encodeUserinfo user ++ '@' :: (conn.hostPort ++ conn.pathQuery))) := by
    have hdsn := @PgConn.toList_dsn_of_user { conn with password := none } user huser
    rw [Option.map_none, Option.getD_none, List.append_nil] at hdsn
    exact String.toList_inj.mp (hdsn.trans String.toList_ofList.symm)
  have huserinfo := encodeUserinfo_inAuthority user
  have hcolon := not_mem_encodeUserinfo user ':' (by simp)
  cases hpassword : conn.password with
  | none =>
      have hdsn : conn.dsn.toList = "postgres://".toList ++
          (encodeUserinfo user ++ '@' :: (conn.hostPort ++ conn.pathQuery)) := by
        rw [PgConn.toList_dsn_of_user huser, hpassword]
        simp
      rw [splitPassword_authority hdsn huserinfo haddress, splitOnce_eq_none hcolon, hbare]
      rw [Option.elim_none, ← hdsn, String.ofList_toList]
  | some password =>
      have hdsn : conn.dsn.toList = "postgres://".toList ++ (encodeUserinfo user ++ ':' ::
          encodeUserinfo password ++ '@' :: (conn.hostPort ++ conn.pathQuery)) := by
        rw [PgConn.toList_dsn_of_user huser, hpassword]
        simp
      have hgoes : ∀ c ∈ encodeUserinfo user ++ ':' :: encodeUserinfo password,
          inAuthority c = true :=
        List.forall_mem_append.mpr ⟨huserinfo,
          List.forall_mem_cons.mpr ⟨by decide, encodeUserinfo_inAuthority password⟩⟩
      rw [splitPassword_authority hdsn hgoes haddress, splitOnce_append hcolon, hbare]
      rw [Option.elim_some, percentDecodeText_encodeUserinfo]

/-! ## The arguments of a preflight -/

/-- The context of a preflight that classifies against a connection. -/
def againstConn (ctx : AdapterCtx) (conn : PgConn) : AdapterCtx :=
  ctx.withResolvedSecret againstDatabaseUrlSecret conn.dsn

/-- The arguments that are planned for a preflight. -/
def preflightArgs (confiture : ConfitureMigration) (os : Os T) (ctx : AdapterCtx)
    (extra : List String) : Prog T (Except AdapterError (List String)) := do
  return (← confiture.plan os "preflight" ctx extra).map PlannedInvocation.args

theorem secret_databaseUrl_againstConn (os : Os T) (ctx : AdapterCtx) (conn : PgConn) :
    (againstConn ctx conn).secret os databaseUrlSecret = ctx.secret os databaseUrlSecret := by
  have hne : databaseUrlSecret ≠ againstDatabaseUrlSecret := by decide
  simp only [AdapterCtx.secret, againstConn, AdapterCtx.withResolvedSecret,
    lookup_insertEntry_ne _ _ hne]

theorem secret_against_againstConn (os : Os T) (ctx : AdapterCtx) (conn : PgConn) :
    (againstConn ctx conn).secret os againstDatabaseUrlSecret = .ret (.ok conn.dsn) := by
  simp only [AdapterCtx.secret, againstConn, AdapterCtx.withResolvedSecret,
    lookup_insertEntry_self]

/-- The arguments of a preflight against a connection whose password can be split off. -/
theorem preflightArgs_againstConn {conn : PgConn} {url : String} {password : Option String}
    (hsplit : splitPassword conn.dsn = .ok (url, password)) (confiture : ConfitureMigration)
    (os : Os T) (ctx : AdapterCtx) (extra : List String) :
    preflightArgs confiture os (againstConn ctx conn) extra =
      (ctx.secret os databaseUrlSecret >>= fun secret => .ret <|
        (secret.mapError fun error => { error with adapter := some "confiture" }).map fun _ =>
          confiture.planArgs "preflight" ctx extra ++ ["--against", url]) := by
  have hsubcommand : ¬ "preflight" ≠ "preflight" := not_not.mpr rfl
  unfold preflightArgs ConfitureMigration.plan
  rw [secret_databaseUrl_againstConn, bind_assoc]
  congr 1
  funext secret
  cases secret with
  | error error => rfl
  | ok databaseUrl =>
      simp only [if_neg hsubcommand, secret_against_againstConn, Prog.ret_bind, hsplit]
      rfl

/-- For every connection with a user, and a host without an `@`: its password is split off whole,
and does not decide which arguments a preflight is run with. -/
theorem preflight_hides_password (conn : PgConn) (user : String) (huser : conn.user = some user)
    (hhost : ∀ host ∈ conn.host, '@' ∉ host.toList) :
    splitPassword conn.dsn = .ok ({ conn with password := none }.dsn, conn.password) ∧
      ∀ (T : Sig) (confiture : ConfitureMigration) (os : Os T) (ctx : AdapterCtx)
        (extra : List String) (password password' : String),
        preflightArgs confiture os (againstConn ctx { conn with password := some password })
            extra =
          preflightArgs confiture os (againstConn ctx { conn with password := some password' })
            extra := by
  refine ⟨splitPassword_dsn huser hhost, fun T confiture os ctx extra password password' => ?_⟩
  have hsplit := @splitPassword_dsn { conn with password := some password } user huser hhost
  have hsplit' := @splitPassword_dsn { conn with password := some password' } user huser hhost
  rw [preflightArgs_againstConn hsplit, preflightArgs_againstConn hsplit']

theorem preflight_hides_password_shop :
    splitPassword (PgConn.mk (some "db") (some 5432) (some "shop") (some "a/b@c:%") "shop"
        none).dsn =
      .ok ((PgConn.mk (some "db") (some 5432) (some "shop") none "shop" none).dsn,
        some "a/b@c:%") :=
  (preflight_hides_password ⟨some "db", some 5432, some "shop", some "a/b@c:%", "shop", none⟩ "shop"
    rfl (by simp)).1

end Fraisier.Core
