import Fraisier.Db.Connection

/-!
# Connections as URIs

`PgConn.dsn` writes a connection as a URI, with its user and its password percent-encoded.
-/

namespace Fraisier.Db

open Fraisier.Data

/-- The ASCII bytes that are escaped in the userinfo of a URI. -/
def userinfoSet (byte : UInt8) : Bool :=
  byte < 0x20 || byte = 0x7F ||
    (utf8 " \"#<>?`\x7b\x7d/:@\\[]%".toList).contains byte

/-- A user name or a password, as it is written in a URI. -/
def encodeUserinfo (text : String) : List Char :=
  percentEncode userinfoSet text.toList

namespace PgConn

/-- The userinfo of a connection, with the `@` behind it. -/
def userinfo (conn : PgConn) : List Char :=
  match conn.user with
  | none => []
  | some user =>
      encodeUserinfo user ++ (conn.password.map fun password =>
        ':' :: encodeUserinfo password).getD [] ++ ['@']

/-- The host and the port of a connection. -/
def hostPort (conn : PgConn) : List Char :=
  (conn.host.getD "").toList ++
    (conn.port.map fun port => ':' :: Nat.toDigits 10 port.toNat).getD []

/-- The database of a connection and the parameter behind it. -/
def pathQuery (conn : PgConn) : List Char :=
  '/' :: conn.database.toList ++
    (conn.sslmode.map fun mode => "?sslmode=".toList ++ mode.toList).getD []

/-- The URI of a connection, with its password. -/
def dsn (conn : PgConn) : String :=
  String.ofList ("postgres://".toList ++ conn.userinfo ++ conn.hostPort ++ conn.pathQuery)

end PgConn

theorem PgConn.toList_dsn (conn : PgConn) : conn.dsn.toList =
    "postgres://".toList ++ (conn.userinfo ++ (conn.hostPort ++ conn.pathQuery)) := by
  unfold dsn
  rw [String.toList_ofList, List.append_assoc, List.append_assoc]

theorem PgConn.toList_dsn_of_user {conn : PgConn} {user : String}
    (huser : conn.user = some user) : conn.dsn.toList = "postgres://".toList ++
      (encodeUserinfo user ++ (conn.password.map fun password =>
        ':' :: encodeUserinfo password).getD [] ++ '@' :: (conn.hostPort ++ conn.pathQuery)) := by
  have huserinfo : conn.userinfo = encodeUserinfo user ++ (conn.password.map fun password =>
      ':' :: encodeUserinfo password).getD [] ++ ['@'] := by
    simp only [userinfo, huser]
  rw [toList_dsn, huserinfo, List.append_assoc _ ['@'], List.singleton_append]

/-- A character that is neither kept nor made by the encoding. -/
theorem not_mem_encodeUserinfo_of {c : Char} (h : (!c.isAlphanum && (c != '%' &&
    userinfoSet (UInt8.ofNat c.toNat))) = true) (text : String) : c ∉ encodeUserinfo text := by
  obtain ⟨hplain, hpercent, hescaped⟩ : c.isAlphanum = false ∧ c ≠ '%' ∧
      userinfoSet (UInt8.ofNat c.toNat) = true := by
    simpa using h
  refine not_mem_percentEncode hplain hpercent fun n hn hchar => ?_
  rw [← Data.toNat_ofNat_ascii n hn, hchar]
  exact hescaped

theorem not_mem_encodeUserinfo (text : String) :
    ∀ c ∈ ['@', '/', '?', ':'], c ∉ encodeUserinfo text := by
  intro c hc
  have hset : ['@', '/', '?', ':'].all (fun c => !c.isAlphanum && (c != '%' &&
      userinfoSet (UInt8.ofNat c.toNat))) = true := by
    decide +kernel
  exact not_mem_encodeUserinfo_of (List.all_eq_true.mp hset c hc) text

end Fraisier.Db
