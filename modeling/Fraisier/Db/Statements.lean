import Fraisier.Data.Conninfo
import Fraisier.Data.Sql
import Fraisier.Db.Marker

/-!
# Names in statements

The name of a database in the arguments of `pg_restore`, and the values in the statement that
marks a database and in the one that asks for extensions. `statements_keep_values` gives what
libpq and PostgreSQL read of them: the value as it is, and around it the same whatever it is.
-/

namespace Fraisier.Db

open Fraisier.Data

/-- A text with each occurrence of a character replaced. -/
def replaceChar (text : List Char) (c : Char) (by_ : List Char) : List Char :=
  text.flatMap fun d => if d = c then by_ else [d]

/-- The name of a database as a pair of a connection string. -/
def conninfoDbname (name : String) : String :=
  let escaped := replaceChar (replaceChar name.toList '\\' ['\\', '\\']) '\'' ['\\', '\'']
  "dbname='" ++ String.ofList escaped ++ "'"

/-- What the statement that asks for extensions has before their names. -/
def extensionsHead : String :=
  "WITH wanted(name) AS (SELECT unnest(ARRAY["

/-- What the statement that asks for extensions has behind the list of their names. -/
def extensionsTail : String := String.join [
  "::text[])) SELECT json_build_object(",
  "'superuser', (SELECT rolsuper FROM pg_catalog.pg_roles WHERE rolname = current_user), ",
  "'missing', COALESCE((SELECT json_agg(w.name) FROM wanted w WHERE NOT EXISTS ",
  "(SELECT 1 FROM pg_catalog.pg_available_extensions a WHERE a.name = w.name)), '[]'), ",
  "'untrusted', COALESCE((SELECT json_agg(w.name) FROM wanted w WHERE NOT EXISTS ",
  "(SELECT 1 FROM pg_catalog.pg_available_extension_versions v ",
  "WHERE v.name = w.name AND v.trusted)), '[]'))"]

/-- The statement that asks which extensions could be created in a new database. -/
def extensionsSql (extensions : List String) : String :=
  extensionsHead ++ (", ".intercalate (extensions.map literal) ++ "]") ++ extensionsTail

/-! ## The name of a database -/

/-- Backslashes first and quotes after them: the backslash of a quote is not doubled. -/
theorem replaceChar_eq_escape (text : List Char) :
    replaceChar (replaceChar text '\\' ['\\', '\\']) '\'' ['\\', '\''] = Conninfo.escape text := by
  induction text with
  | nil => rfl
  | cons c text ih =>
      rw [Conninfo.escape_cons, ← ih]
      by_cases hbackslash : c = '\\'
      · subst hbackslash
        rfl
      · by_cases hquote : c = '\''
        · subst hquote
          rfl
        · simp [replaceChar, hbackslash, hquote]

theorem toList_conninfoDbname (name : String) :
    (conninfoDbname name).toList =
      "dbname='".toList ++ Conninfo.escape name.toList ++ ['\''] := by
  simp [conninfoDbname, replaceChar_eq_escape]

theorem nul_not_mem_conninfoDbname {name : String} (h : nul ∉ name.toList) :
    nul ∉ (conninfoDbname name).toList := by
  have hstart : nul ∉ "dbname='".toList := by decide
  have hescape : nul ∉ Conninfo.escape name.toList := by
    intro hmem
    obtain ⟨c, hc, hmem⟩ := List.mem_flatMap.mp hmem
    split at hmem
    · obtain hnul | hnul := List.mem_pair.mp hmem
      · exact absurd hnul (by decide)
      · exact h (hnul ▸ hc)
    · exact h (List.mem_singleton.mp hmem ▸ hc)
  rw [toList_conninfoDbname]
  simp only [List.mem_append, hstart, hescape, List.mem_singleton, false_or]
  decide

/-- libpq takes the argument for a connection string and reads the name of the database in it,
and nothing else. -/
theorem pairs_conninfoDbname {name : String} (h : nul ∉ name.toList) :
    Conninfo.isPairs (conninfoDbname name) = true ∧
      Conninfo.pairs (conninfoDbname name) = .ok [("dbname", name)] := by
  have htext : cString (conninfoDbname name) =
      "dbname='".toList ++ Conninfo.escape name.toList ++ ['\''] := by
    rw [cString_of_not_mem (nul_not_mem_conninfoDbname h), toList_conninfoDbname]
  have hstart : Conninfo.reader.run .blank "dbname='".toList =
      .ok (.quoted "dbname".toList [], []) := by decide
  have hend : Conninfo.reader.run (.quoted "dbname".toList name.toList) ['\''] =
      .ok (.blank, [("dbname".toList, name.toList)]) := rfl
  constructor
  · rw [Conninfo.isPairs, htext]
    rfl
  · have hread := Transducer.run_append (Transducer.run_append hstart
      (Conninfo.run_escape "dbname".toList name.toList [])) hend
    rw [Conninfo.pairs, htext, Transducer.read_of_run hread rfl]
    simp [Except.map]

/-! ## The statement that marks a database -/

/-- The tokens of the statement that marks a database. -/
def markerTokens (db value : List Char) : List Sql.Token :=
  [.word "alter".toList, .word "database".toList, .name db, .word "set".toList,
    .word "fraisier".toList, .operator ['.'], .word "refresh_target".toList, .operator ['='],
    .string value]

theorem toList_literal (value : String) :
    (literal value).toList = '\'' :: (Sql.double value.toList ++ ['\'']) := by
  rw [literal, String.toList_ofList]
  rfl

theorem nul_not_mem_literal {value : String} (h : nul ∉ value.toList) :
    nul ∉ (literal value).toList := by
  have hquote : nul ≠ '\'' := by decide
  have hdouble : nul ∉ Sql.double value.toList := by
    intro hmem
    obtain ⟨c, hc, hmem⟩ := List.mem_flatMap.mp hmem
    have hnul : nul = c := by
      split at hmem
      · exact (List.mem_pair.mp hmem).elim id id
      · exact List.mem_singleton.mp hmem
    exact h (hnul ▸ hc)
  rw [toList_literal]
  simp only [List.mem_cons, List.mem_append, List.not_mem_nil, hquote, hdouble, or_self,
    not_false_eq_true]

theorem dbName_fits {db : String} (h : validateDbName db = true) : Sql.fits db.toList = true := by
  rw [validateDbName] at h
  split at h
  · cases h
  · rw [Sql.fits, String.ofList_toList]
    exact (Bool.and_eq_true_iff.mp h).2

theorem toList_setMarkerHead (db : String) :
    (setMarkerHead db).toList = "ALTER DATABASE \"".toList ++ db.toList ++ ['"', ' '] ++
      "SET fraisier.refresh_target = ".toList := by
  have hhead : setMarkerHead db =
      "ALTER DATABASE \"" ++ db ++ ("\" SET " ++ markerSetting ++ " = ") := by
    rw [← String.append_assoc, ← String.append_assoc]
    rfl
  have hset : ("\" SET " ++ markerSetting ++ " = ").toList =
      ['"', ' '] ++ "SET fraisier.refresh_target = ".toList := by decide
  rw [hhead, String.toList_append, hset, String.toList_append, List.append_assoc _ ['"', ' ']]

/-- The name of a database in quotes is one token. -/
theorem run_setMarkerHead {db : String} (hdb : validateDbName db = true) :
    Sql.reader.run .plain (setMarkerHead db).toList =
      .ok (.plain, (markerTokens db.toList []).dropLast) := by
  have hstart : Sql.reader.run .plain "ALTER DATABASE \"".toList =
      .ok (.name [], [.word "alter".toList, .word "database".toList]) := by decide +kernel
  have hname : Sql.reader.run (.name []) db.toList = .ok (.name db.toList, []) :=
    Sql.run_name (not_mem_of_validateDbName hdb (by decide)) []
  have hset : Sql.reader.run .plain "SET fraisier.refresh_target = ".toList =
      .ok (.plain, [.word "set".toList, .word "fraisier".toList, .operator ['.'],
        .word "refresh_target".toList, .operator ['=']]) := by decide +kernel
  have hquoted := Transducer.run_append (Transducer.run_append hstart hname)
    (Sql.run_nameEnd (ne_nil_of_validateDbName hdb) (dbName_fits hdb))
  rw [toList_setMarkerHead, Transducer.run_append hquoted hset]
  rfl

/-- The statement sets the setting to the value, if the value can be in a statement at all. -/
theorem lex_setMarkerSql {db value sql : String} (h : setMarkerSql db value = .ok sql) :
    Sql.lex sql =
      if nul ∈ value.toList then .error .unterminated
      else .ok (markerTokens db.toList value.toList) := by
  rw [setMarkerSql] at h
  split at h
  next hdb =>
    cases h
    have hname : nul ∉ db.toList := not_mem_of_validateDbName hdb (by decide)
    have hhead : nul ∉ (setMarkerHead db).toList := by
      have hstart : nul ∉ "ALTER DATABASE \"".toList := by decide
      have hquote : nul ∉ ['"', ' '] := by decide
      have hset : nul ∉ "SET fraisier.refresh_target = ".toList := by decide
      rw [toList_setMarkerHead]
      simp only [List.mem_append, hstart, hname, hquote, hset, or_self, not_false_eq_true]
    have hkept : ∀ c ∈ (setMarkerHead db).toList, (c != nul) = true :=
      fun c hc => bne_iff_ne.mpr fun heq => hhead (heq ▸ hc)
    have hrun := run_setMarkerHead hdb
    split
    next hvalue =>
      -- The statement ends at the character, inside the string.
      have htext : cString (setMarkerHead db ++ literal value) = (setMarkerHead db).toList ++
          '\'' :: Sql.double (value.toList.takeWhile (· != nul)) := by
        rw [cString, String.toList_append, toList_literal, List.takeWhile_append_of_pos hkept,
          List.takeWhile_cons, if_pos (by decide), Sql.takeWhile_double hvalue]
      have hopen : Sql.reader.step .plain '\'' = .ok (.string [], []) := rfl
      have hvalue := Sql.run_double [] (value.toList.takeWhile (· != nul))
      rw [← Transducer.run_cons_silent hopen] at hvalue
      rw [Sql.lex, htext, Transducer.read, Transducer.run_append hrun hvalue]
      rfl
    next hvalue =>
      have htext : cString (setMarkerHead db ++ literal value) = (setMarkerHead db).toList ++
          '\'' :: (Sql.double value.toList ++ ['\'']) := by
        have hliteral := nul_not_mem_literal hvalue
        rw [cString_of_not_mem, String.toList_append, toList_literal]
        rw [String.toList_append, List.mem_append, not_or]
        exact ⟨hhead, hliteral⟩
      rw [Sql.lex, htext, Transducer.read_of_run
        (Transducer.run_append hrun (Sql.run_quoted value.toList)) rfl]
      rfl
  · cases h

/-! ## The statement that asks for extensions -/

/-- The tokens of a list of strings. -/
def listTokens (values : List (List Char)) : List Sql.Token :=
  (values.map Sql.Token.string).intersperse (.operator [','])

/-- A list of literals is a list of strings. What follows it shows that the last one ends. -/
theorem run_literals (values : List String) :
    Sql.reader.run .plain ((", ".intercalate (values.map literal)).toList ++ [']']) =
      .ok (.plain, listTokens (values.map String.toList) ++ [.operator [']']]) := by
  induction values with
  | nil => decide
  | cons value values ih =>
      have hquoted := Sql.run_quoted value.toList
      cases values with
      | nil =>
          have hbracket : Sql.reader.run (.stringQuote value.toList) [']'] =
              .ok (.plain, [.string value.toList, .operator [']']]) := rfl
          rw [List.map_singleton, String.intercalate_singleton, toList_literal,
            Transducer.run_append hquoted hbracket]
          rfl
      | cons next values =>
          have hcomma : Sql.reader.run (.stringQuote value.toList) ", ".toList =
              .ok (.plain, [.string value.toList, .operator [',']]) := rfl
          rw [List.map_cons, List.map_cons, String.intercalate_cons_cons, String.toList_append,
            String.toList_append, toList_literal, List.append_assoc, ← List.map_cons,
            Transducer.run_append (Transducer.run_append hquoted hcomma) ih]
          rfl

theorem nul_not_mem_literals {values : List String} (h : ∀ value ∈ values, nul ∉ value.toList) :
    nul ∉ (", ".intercalate (values.map literal)).toList := by
  induction values with
  | nil => decide
  | cons value values ih =>
      obtain ⟨hvalue, hvalues⟩ := List.forall_mem_cons.mp h
      have hliteral := nul_not_mem_literal hvalue
      cases values with
      | nil => rwa [List.map_singleton, String.intercalate_singleton]
      | cons next values =>
          have hcomma : nul ∉ ", ".toList := by decide
          rw [List.map_cons, List.map_cons, String.intercalate_cons_cons, ← List.map_cons,
            String.toList_append, String.toList_append]
          simp only [List.mem_append, hliteral, hcomma, ih hvalues, or_self, not_false_eq_true]

theorem extensionsHead_complete :
    (Sql.reader.run .plain extensionsHead.toList).map Prod.fst = .ok .plain ∧
      nul ∉ extensionsHead.toList := by
  rw [extensionsHead, String.toList_ofList]
  decide +kernel

theorem extensionsTail_complete :
    (Sql.reader.run .plain extensionsTail.toList).map Prod.fst = .ok .plain ∧
      nul ∉ extensionsTail.toList := by
  rw [extensionsTail, String.toList_join]
  simp only [List.flatMap_cons, List.flatMap_nil]
  -- Each line is a list of characters before anything is computed of it.
  repeat rw [String.toList_ofList]
  decide +kernel

theorem toList_extensionsSql (extensions : List String) :
    (extensionsSql extensions).toList = extensionsHead.toList ++
      ((", ".intercalate (extensions.map literal)).toList ++ [']']) ++ extensionsTail.toList := by
  rw [extensionsSql, String.toList_append, String.toList_append, String.toList_append]
  rfl

/-- The statement has the names as strings, and the same tokens around them for all names. -/
theorem lex_extensionsSql : ∃ front rest, ∀ extensions : List String,
    (∀ name ∈ extensions, nul ∉ name.toList) →
      Sql.lex (extensionsSql extensions) =
        .ok (front ++ listTokens (extensions.map String.toList) ++ rest) := by
  obtain ⟨hfront, hhead⟩ := extensionsHead_complete
  obtain ⟨hrest, htail⟩ := extensionsTail_complete
  obtain ⟨front, hfront⟩ := Transducer.exists_run_of_map hfront
  obtain ⟨rest, hrest⟩ := Transducer.exists_run_of_map hrest
  refine ⟨front, .operator [']'] :: rest, fun extensions h => ?_⟩
  have hnul : nul ∉ (extensionsSql extensions).toList := by
    have hbracket : nul ∉ [']'] := by decide
    rw [toList_extensionsSql]
    simp only [List.mem_append, hhead, nul_not_mem_literals h, hbracket, htail, or_self,
      not_false_eq_true]
  have hrun := Transducer.run_append
    (Transducer.run_append hfront (run_literals extensions)) hrest
  rw [Sql.lex, cString_of_not_mem hnul, toList_extensionsSql, Transducer.read_of_run hrun rfl,
    List.append_nil, ← List.append_assoc, List.append_assoc _ [_], List.singleton_append]

/-- libpq reads the name of a database in the argument, and PostgreSQL the values in the
statements, as they are, and nothing else in the argument or in the statements depends on
them. -/
theorem statements_keep_values :
    (∀ name : String, nul ∉ name.toList →
      Conninfo.isPairs (conninfoDbname name) = true ∧
      Conninfo.pairs (conninfoDbname name) = .ok [("dbname", name)]) ∧
    (∀ db value sql : String, setMarkerSql db value = .ok sql →
      Sql.lex sql =
        if nul ∈ value.toList then .error .unterminated
        else .ok (markerTokens db.toList value.toList)) ∧
    ∃ front rest, ∀ extensions : List String, (∀ name ∈ extensions, nul ∉ name.toList) →
      Sql.lex (extensionsSql extensions) =
        .ok (front ++ listTokens (extensions.map String.toList) ++ rest) :=
  ⟨fun _ h => pairs_conninfoDbname h, fun _ _ _ h => lex_setMarkerSql h, lex_extensionsSql⟩

/-- A connection string as a name, a statement as a marker, and comments as extensions. -/
theorem statements_keep_values_hostile :
    Conninfo.pairs (conninfoDbname "host=evil it's\\") = .ok [("dbname", "host=evil it's\\")] ∧
    Sql.lex (setMarkerHead "shop" ++ literal "it's'; DROP DATABASE shop; --") =
      .ok (markerTokens "shop".toList "it's'; DROP DATABASE shop; --".toList) ∧
    ∃ front rest, Sql.lex (extensionsSql ["o'dd", "/*", "']::text[]))\\"]) =
      .ok (front ++ [.string "o'dd".toList, .operator [','], .string "/*".toList,
        .operator [','], .string "']::text[]))\\".toList] ++ rest) := by
  obtain ⟨hname, hmarker, front, rest, hextensions⟩ := statements_keep_values
  refine ⟨(hname _ (by decide)).2, ?_, front, rest, ?_⟩
  · rw [hmarker "shop" "it's'; DROP DATABASE shop; --" _ rfl, if_neg (by decide)]
  · have hnul : nul ∉ "o'dd".toList ∧ nul ∉ "/*".toList ∧ nul ∉ "']::text[]))\\".toList := by
      decide
    exact hextensions ["o'dd", "/*", "']::text[]))\\"] (List.forall_mem_cons.mpr ⟨hnul.1,
      List.forall_mem_cons.mpr ⟨hnul.2.1, List.forall_mem_singleton.mpr hnul.2.2⟩⟩)

end Fraisier.Db
