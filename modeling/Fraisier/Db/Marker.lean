import Fraisier.Config.Deploy
import Fraisier.Db.Refresh

/-!
# The refresh marker of a configuration

A database that may be replaced carries a setting that names one fraise and one environment,
with a `/` between them. The setting is written as a literal of SQL, printed by `psql` and
trimmed when it is read. `marker_names_one` says for which names the marker is the one of its
own configuration only.
-/

namespace Fraisier.Db

open Fraisier.Data Fraisier.Effect

/-- The setting that marks a database. -/
def markerSetting : String := "fraisier.refresh_target"

/-- The marker of a fraise and an environment. -/
def markerValue (fraise environment : String) : String :=
  fraise ++ "/" ++ environment

/-- The quote of SQL literals. -/
def sqlQuote : Char := Char.ofNat 39

/-- A literal of SQL: a quote in the value is doubled. -/
def literal (value : String) : String :=
  String.ofList (sqlQuote ::
    ((value.toList.flatMap fun c => if c = sqlQuote then [c, c] else [c]) ++ [sqlQuote]))

/-- What a statement that marks a database begins with. -/
def setMarkerHead (db : String) : String :=
  "ALTER DATABASE \"" ++ db ++ "\" SET " ++ markerSetting ++ " = "

/-- The statement that marks a database. -/
def setMarkerSql (db value : String) : Except String String :=
  if validateDbName db then .ok (setMarkerHead db ++ literal value) else .error db

/-- The marker that was printed; nothing is printed of a database without one. -/
def parseMarker (stdout : String) : Option String :=
  let marker := trim stdout
  if marker.isEmpty then none else some marker

/-! ## The server -/

/-- What follows the first quote of a literal, up to its end. -/
def unquoteFrom : List Char → Option (List Char)
  | [] => none
  | [c] => if c = sqlQuote then some [] else none
  | c :: d :: rest =>
      if c = sqlQuote then
        if d = sqlQuote then (unquoteFrom rest).map (sqlQuote :: ·) else none
      else (unquoteFrom (d :: rest)).map (c :: ·)

/-- The value that a literal of SQL stands for. -/
def unquote (text : String) : Option String :=
  match text.toList with
  | c :: rest => if c = sqlQuote then (unquoteFrom rest).map String.ofList else none
  | [] => none

/-- What `psql` prints of a setting. -/
def printed : Option String → String
  | some value => value ++ "\n"
  | none => ""

/-- What a statement that marks a database sets. -/
def stored (db sql : String) : Option String :=
  (stripPrefix sql (setMarkerHead db)).bind unquote

/-- The marker that is read of a database after a statement marked it. -/
def readBackMarker (db sql : String) : Option String :=
  parseMarker (printed (stored db sql))

/-- A server stands still, with a database that a statement marked and that has no sessions. -/
structure Marked {σ : Type} (h : Handler ServerSig σ) (restorer maintenance : PgConn)
    (sql : String) : Prop where
  marker : ∀ s, (h (.marker restorer) s).1 = .ok (readBackMarker restorer.database sql)
  idle : ∀ s, (h (.connections maintenance restorer.database) s).1 = .ok []

/-! ## Reading a marker back -/

theorem unquoteFrom_quoted (value : List Char) :
    unquoteFrom ((value.flatMap fun c => if c = sqlQuote then [c, c] else [c]) ++ [sqlQuote]) =
      some value := by
  induction value with
  | nil => rfl
  | cons c value ih =>
      rw [List.flatMap_cons]
      by_cases hc : c = sqlQuote
      · subst hc
        simp [unquoteFrom, ih]
      · rw [if_neg hc, List.singleton_append, List.cons_append]
        -- What follows is not empty: it ends in a quote.
        cases hrest :
            (value.flatMap fun c => if c = sqlQuote then [c, c] else [c]) ++ [sqlQuote] with
        | nil => simp at hrest
        | cons d rest => rw [unquoteFrom, if_neg hc, ← hrest, ih]; rfl

/-- A literal stands for the value it was made of. -/
theorem unquote_literal (value : String) : unquote (literal value) = some value := by
  simp [unquote, literal, unquoteFrom_quoted]

/-- A text without the whitespace at its start. -/
def trimStart (text : String) : String :=
  String.ofList (text.toList.dropWhile isWhitespace)

theorem dropWhile_stop {l rest : List Char} {c : Char} (hc : isWhitespace c = false) :
    (l ++ c :: rest).dropWhile isWhitespace = l.dropWhile isWhitespace ++ c :: rest := by
  rw [List.dropWhile_append]
  split
  next hempty => simp [List.isEmpty_iff.mp hempty, hc]
  · rfl

/-- A marker is read with the whitespace before its fraise and after its environment gone. -/
theorem readBackMarker_eq {db fraise environment sql : String}
    (h : setMarkerSql db (markerValue fraise environment) = .ok sql) :
    readBackMarker db sql = some (trimStart fraise ++ "/" ++ trimEnd environment) := by
  have hstored : stored db sql = some (markerValue fraise environment) := by
    rw [setMarkerSql] at h
    split at h
    · cases h
      rw [stored, stripPrefix_append, Option.bind_some, unquote_literal]
    · cases h
  have htrim : trim (markerValue fraise environment ++ "\n") =
      trimStart fraise ++ "/" ++ trimEnd environment := by
    refine String.toList_inj.mp ?_
    have hslash : isWhitespace '/' = false := by decide
    have hnewline : isWhitespace '\n' = true := by decide
    have hsplit : (markerValue fraise environment ++ "\n").toList =
        fraise.toList ++ '/' :: (environment.toList ++ ['\n']) := by
      simp [markerValue]
    simp only [trim, trimStart, trimEnd, hsplit, String.toList_ofList, String.toList_append]
    rw [dropWhile_stop hslash, List.reverse_append, List.reverse_cons, List.reverse_append,
      List.append_assoc, List.append_assoc, List.singleton_append, List.reverse_singleton,
      List.singleton_append, List.dropWhile_cons, if_pos hnewline]
    rw [dropWhile_stop hslash]
    simp
  have hne : (trimStart fraise ++ "/" ++ trimEnd environment).isEmpty = false := by
    simp
  simp only [readBackMarker, hstored, printed, parseMarker, htrim, hne]
  rfl

/-! ## Whose marker it is -/

section Owners

variable {fraise environment fraise' environment' : String}

/-- The marker of a pair of names, when it is read, is the marker of that pair only. -/
def NamesOne (db fraise environment fraise' environment' : String) : Prop :=
  ∀ sql, setMarkerSql db (markerValue fraise' environment') = .ok sql →
    (readBackMarker db sql = some (markerValue fraise environment) ↔
      (fraise, environment) = (fraise', environment'))

/-- A pair's own names have no whitespace at their outer ends, and another pair's marker is not
read as theirs. -/
def Apart (fraise environment fraise' environment' : String) : Prop :=
  ((fraise, environment) = (fraise', environment') →
    trimStart fraise = fraise ∧ trimEnd environment = environment) ∧
  ((fraise, environment) ≠ (fraise', environment') →
    trimStart fraise' ++ "/" ++ trimEnd environment' ≠ fraise ++ "/" ++ environment)

theorem trimStart_length (text : String) :
    (trimStart text).toList.length ≤ text.toList.length := by
  rw [trimStart, String.toList_ofList]
  exact (List.dropWhile_suffix _).length_le

theorem trimEnd_length (text : String) : (trimEnd text).toList.length ≤ text.toList.length := by
  rw [trimEnd, String.toList_ofList, List.length_reverse, ← text.toList.length_reverse]
  exact (List.dropWhile_suffix _).length_le

/-- Trimmed names are joined to the text of the names if there is nothing to trim. -/
theorem trimmed_eq_iff :
    trimStart fraise ++ "/" ++ trimEnd environment = markerValue fraise environment ↔
      trimStart fraise = fraise ∧ trimEnd environment = environment := by
  constructor
  · intro h
    have hchars := congrArg String.toList h
    simp only [markerValue, String.toList_append, List.append_assoc] at hchars
    have hlength := congrArg List.length hchars
    simp only [List.length_append] at hlength
    have hstart := trimStart_length fraise
    have hend := trimEnd_length environment
    obtain ⟨hfraise, hrest⟩ := List.append_inj hchars (by omega)
    exact ⟨String.toList_inj.mp hfraise, String.toList_inj.mp (List.append_cancel_left hrest)⟩
  · rintro ⟨hfraise, henvironment⟩
    rw [hfraise, henvironment, markerValue]

theorem exists_sql {db : String} (hdb : validateDbName db = true) (value : String) :
    ∃ sql, setMarkerSql db value = .ok sql :=
  ⟨_, by rw [setMarkerSql, if_pos hdb]⟩

theorem reads_iff_apart :
    (trimStart fraise' ++ "/" ++ trimEnd environment' = markerValue fraise environment ↔
      (fraise, environment) = (fraise', environment')) ↔
      Apart fraise environment fraise' environment' := by
  by_cases hsame : (fraise, environment) = (fraise', environment')
  · obtain ⟨rfl, rfl⟩ := Prod.mk.inj hsame
    simp [Apart, trimmed_eq_iff]
  · simp only [Apart, hsame, iff_false, false_implies, true_and, ne_eq, not_false_eq_true,
      true_implies]
    rfl

theorem namesOne_iff {db : String} (hdb : validateDbName db = true) :
    NamesOne db fraise environment fraise' environment' ↔
      Apart fraise environment fraise' environment' := by
  rw [← reads_iff_apart]
  constructor
  · intro h
    obtain ⟨sql, hsql⟩ := exists_sql hdb (markerValue fraise' environment')
    have hread := h sql hsql
    rwa [readBackMarker_eq hsql, Option.some.injEq] at hread
  · intro h sql hsql
    rwa [readBackMarker_eq hsql, Option.some.injEq]

/-- A database without sessions may be dropped if its marker is read as the one asked for. -/
theorem markedAndIdle_ok_iff {σ : Type} {h : Handler ServerSig σ} {restorer maintenance : PgConn}
    {sql marker : String} (hmarked : Marked h restorer maintenance sql) (sched : List Bool)
    (s : σ) :
    ((markedAndIdle restorer maintenance marker).exec h sched s).value = .ok () ↔
      readBackMarker restorer.database sql = some marker := by
  have hmarker := hmarked.marker s
  simp only [markedAndIdle, server, Prog.perform, Prog.call_bind, Prog.ret_bind, Prog.exec]
  rw [hmarker]
  cases readBackMarker restorer.database sql with
  | none => simp
  | some found =>
      by_cases hfound : found = marker
      · have hidle := hmarked.idle (h (.marker restorer) s).2
        simp only [hfound, if_true, Prog.exec]
        rw [hidle]
        simp
      · simp [hfound]

/-- A database that was marked for a pair of names may be dropped for that pair only. -/
def DropsOwn (db fraise environment fraise' environment' : String) : Prop :=
  ∀ sql, setMarkerSql db (markerValue fraise' environment') = .ok sql →
    ∀ {σ : Type} (h : Handler ServerSig σ) (restorer maintenance : PgConn) (sched : List Bool)
      (s : σ), restorer.database = db → Marked h restorer maintenance sql →
      (((markedAndIdle restorer maintenance (markerValue fraise environment)).exec
        h sched s).value = .ok () ↔ (fraise, environment) = (fraise', environment'))

/-- A server that was told to mark a database, and has no sessions. -/
def quietServer (sql : String) : Handler ServerSig Unit
  | .marker conn, s => (.ok (readBackMarker conn.database sql), s)
  | .connections _ _, s => (.ok [], s)
  | _, s => (.error "no answer", s)

theorem dropsOwn_iff {db : String} :
    DropsOwn db fraise environment fraise' environment' ↔
      NamesOne db fraise environment fraise' environment' := by
  constructor
  · intro h sql hsql
    let conn : PgConn := ⟨none, none, none, none, db, none⟩
    have hmarked : Marked (quietServer sql) conn conn sql := ⟨fun _ => rfl, fun _ => rfl⟩
    rw [← h sql hsql (quietServer sql) conn conn [] () rfl hmarked, markedAndIdle_ok_iff hmarked]
  · intro h sql hsql σ handler restorer maintenance sched s hdb hmarked
    rw [markedAndIdle_ok_iff hmarked, hdb]
    exact h sql hsql

end Owners

/-- A marker that was set for a pair of names is read as the marker of that pair only, and the
database may be dropped for that pair only, exactly if the names have no whitespace at their
outer ends and no other pair is joined to the same text. -/
theorem marker_names_one {db : String} (hdb : validateDbName db = true)
    (fraise environment fraise' environment' : String) :
    (NamesOne db fraise environment fraise' environment' ↔
      Apart fraise environment fraise' environment') ∧
    (DropsOwn db fraise environment fraise' environment' ↔
      Apart fraise environment fraise' environment') :=
  ⟨namesOne_iff hdb, dropsOwn_iff.trans (namesOne_iff hdb)⟩

theorem marker_names_one_checkout : Apart "checkout" "staging" "checkout" "qa" ∧
    NamesOne "checkout_db" "checkout" "staging" "checkout" "qa" := by
  have hapart : Apart "checkout" "staging" "checkout" "qa" := by
    refine ⟨by decide, fun _ => by decide⟩
  exact ⟨hapart, (@marker_names_one "checkout_db" (by decide) "checkout" "staging"
    "checkout" "qa").1.mpr hapart⟩

/-- The database of `shop/eu` and `qa` may be dropped for `shop` and `eu/qa`, and a name that
ends in a blank does not find its own. -/
theorem marker_not_apart :
    (Config.Accepted "shop" "eu/qa" ∧ Config.Accepted "shop/eu" "qa" ∧
      ¬ NamesOne "shop_db" "shop" "eu/qa" "shop/eu" "qa" ∧
      ¬ DropsOwn "shop_db" "shop" "eu/qa" "shop/eu" "qa") ∧
    Config.Accepted "shop" "qa " ∧ ¬ NamesOne "shop_db" "shop" "qa " "shop" "qa " := by
  have hdb : validateDbName "shop_db" = true := by decide
  have hslash : ¬ Apart "shop" "eu/qa" "shop/eu" "qa" := fun h => h.2 (by decide) (by decide)
  have hblank : ¬ Apart "shop" "qa " "shop" "qa " := by
    intro h
    exact absurd (h.1 rfl).2 (by decide)
  refine ⟨⟨by decide, by decide, ?_, ?_⟩, by decide, ?_⟩
  · exact fun h => hslash ((namesOne_iff hdb).mp h)
  · exact fun h => hslash ((namesOne_iff hdb).mp (dropsOwn_iff.mp h))
  · exact fun h => hblank ((namesOne_iff hdb).mp h)

end Fraisier.Db
