import Mathlib.Data.List.Infix

/-!
# TOML documents

A document is a tree of tables. An item is found by the keys that lead to it, and replaced there;
`navigate_modify_self` and `navigate_modify_other` say what is found afterwards.
-/

namespace Fraisier.Data.Toml

/-- The blanks and comments around a value. -/
structure Decor where
  before : String
  after : String
deriving DecidableEq

/-- What a key stands for. A table has a header of its own or is written with dotted keys; an
inline table is a value, as are texts, and the numbers, booleans, dates and arrays, which are
kept as they are written. -/
inductive Item where
  | table (entries : List (String × Item))
  | tables (written : String)
  | inline (entries : List (String × Item)) (decor : Decor)
  | string (text : String) (decor : Decor)
  | literal (written : String) (decor : Decor)

namespace Item

/-- The entries of a table of either kind. -/
def entries : Item → List (String × Item)
  | .table entries => entries
  | .inline entries _ => entries
  | _ => []

/-- The item under a key. -/
def get (item : Item) (key : String) : Option Item :=
  item.entries.lookup key

/-- The item that keys lead to. -/
def navigate : List String → Item → Option Item
  | [], item => some item
  | key :: path, item => (item.get key).bind (navigate path)

def asStr : Item → Option String
  | .string text _ => some text
  | _ => none

/-- What is around an item that is a value. -/
def valueDecor : Item → Option Decor
  | .inline _ decor => some decor
  | .string _ decor => some decor
  | .literal _ decor => some decor
  | _ => none

/-- Entries with the first one of a key changed. -/
def alter (key : String) (f : Item → Item) : List (String × Item) → List (String × Item)
  | [] => []
  | (k, item) :: rest => if key = k then (k, f item) :: rest else (k, item) :: alter key f rest

/-- An item with the one that keys lead to changed. -/
def modify : List String → (Item → Item) → Item → Item
  | [], f, item => f item
  | key :: path, f, .table entries => .table (alter key (modify path f) entries)
  | key :: path, f, .inline entries decor => .inline (alter key (modify path f) entries) decor
  | _, _, item => item

variable {f : Item → Item} {key k : String} {item : Item} {path other : List String}

theorem lookup_alter (key k : String) (f : Item → Item) (entries : List (String × Item)) :
    (alter key f entries).lookup k =
      if k = key then (entries.lookup k).map f else entries.lookup k := by
  induction entries with
  | nil => simp [alter]
  | cons entry rest ih =>
      obtain ⟨k', item⟩ := entry
      rw [alter]
      by_cases hkey : key = k'
      · subst hkey
        by_cases hk : k = key
        · simp [hk]
        · have hbeq : (k == key) = false := by simpa using hk
          simp [hk, hbeq, List.lookup_cons]
      · rw [if_neg hkey, List.lookup_cons, List.lookup_cons, ih]
        by_cases hk : k = k'
        · have hne : k ≠ key := fun heq => hkey (heq ▸ hk)
          simp [hk, Ne.symm hkey]
        · have hbeq : (k == k') = false := by simpa using hk
          simp [hbeq]

/-- Under its first key a changed item is changed, under others it is not. -/
theorem get_modify : (modify (key :: path) f item).get k =
    if k = key then (item.get k).map (modify path f) else item.get k := by
  cases item with
  | table entries => exact lookup_alter key k _ entries
  | inline entries decor => exact lookup_alter key k _ entries
  | tables written => simp [modify, get, entries]
  | string text decor => simp [modify, get, entries]
  | literal written decor => simp [modify, get, entries]

/-- Putting back what is under a key changes nothing. -/
theorem modify_of_get {inner : Item} (h : item.get key = some inner) :
    modify [key] (fun _ => inner) item = item := by
  have halter : ∀ entries : List (String × Item), entries.lookup key = some inner →
      alter key (fun _ => inner) entries = entries := by
    intro entries hentries
    induction entries with
    | nil => rfl
    | cons entry rest ih =>
        obtain ⟨k, found⟩ := entry
        rw [alter]
        by_cases hkey : key = k
        · subst hkey
          rw [if_pos rfl]
          rw [List.lookup_cons_self, Option.some.injEq] at hentries
          rw [hentries]
        · have hbeq : (key == k) = false := by simpa using hkey
          rw [List.lookup_cons, hbeq] at hentries
          rw [if_neg hkey, ih hentries]
  cases item with
  | table entries => exact congrArg Item.table (halter entries h)
  | inline entries decor => exact congrArg (Item.inline · decor) (halter entries h)
  | tables written => rfl
  | string text decor => rfl
  | literal written decor => rfl

/-- Where an item was changed, the changed one is found. -/
theorem navigate_modify_self :
    navigate path (modify path f item) = (navigate path item).map f := by
  induction path generalizing item with
  | nil => rfl
  | cons key path ih =>
      rw [navigate, navigate, get_modify, if_pos rfl]
      cases item.get key with
      | none => rfl
      | some inner => exact ih

/-- Beside it, the same is found as before. -/
theorem navigate_modify_other (hpath : ¬ path <+: other) (hother : ¬ other <+: path) :
    navigate other (modify path f item) = navigate other item := by
  induction path generalizing item other with
  | nil => exact absurd List.nil_prefix hpath
  | cons key path ih =>
      cases other with
      | nil => exact absurd List.nil_prefix hother
      | cons k other =>
          rw [navigate, navigate, get_modify]
          by_cases hk : k = key
          · subst hk
            rw [List.cons_prefix_cons, not_and] at hpath hother
            rw [if_pos rfl]
            cases item.get k with
            | none => rfl
            | some inner => exact ih (hpath rfl) (hother rfl)
          · rw [if_neg hk]

end Item

end Fraisier.Data.Toml
