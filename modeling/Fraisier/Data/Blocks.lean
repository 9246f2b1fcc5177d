import Mathlib.Data.List.Basic

/-!
# Texts that are read as nested blocks

A machine reads a text character by character and tells the items it meets and the blocks that
open and close around them. What is read of a text is put together from what is read of its
parts, and an item is told from the others by the block it stands in.
-/

namespace Fraisier.Data

/-- What is met in a text of nested blocks. -/
inductive BlockEvent where
  | item (words : List String)
  | opens (header : List String)
  | closes
deriving DecidableEq

/-- A machine that reads a text of nested blocks. -/
structure BlockReader where
  State : Type
  start : State
  step : State → Char → List BlockEvent × State

namespace BlockReader

variable (r : BlockReader)

/-- What is met in some characters, and the state after them. -/
def run : r.State → List Char → List BlockEvent × r.State
  | s, [] => ([], s)
  | s, c :: rest =>
      ((r.step s c).1 ++ (run (r.step s c).2 rest).1, (run (r.step s c).2 rest).2)

/-- What is met in a text. -/
def read (text : String) : List BlockEvent :=
  (r.run r.start text.toList).1

/-- Some characters are read as some events, from one state to another. -/
def Reads (s : r.State) (text : List Char) (events : List BlockEvent) (s' : r.State) : Prop :=
  r.run s text = (events, s')

/-- Some characters are read as whole items and blocks. -/
def Whole (text : List Char) (events : List BlockEvent) : Prop :=
  r.Reads r.start text events r.start

variable {r}

theorem Reads.nil (s : r.State) : r.Reads s [] [] s :=
  rfl

/-- Every text is read in some way. -/
theorem reads_run (s : r.State) (text : List Char) :
    r.Reads s text (r.run s text).1 (r.run s text).2 :=
  rfl

theorem run_append (s : r.State) (text text' : List Char) :
    r.run s (text ++ text') =
      ((r.run s text).1 ++ (r.run (r.run s text).2 text').1,
        (r.run (r.run s text).2 text').2) := by
  induction text generalizing s with
  | nil => rfl
  | cons c rest ih => simp only [List.cons_append, run, ih, List.append_assoc]

theorem Reads.append {s s' s'' : r.State} {text text' : List Char}
    {events events' : List BlockEvent} (h : r.Reads s text events s')
    (h' : r.Reads s' text' events' s'') : r.Reads s (text ++ text') (events ++ events') s'' := by
  rw [Reads, run_append, h, h']

theorem Reads.cons {s s' s'' : r.State} {c : Char} {rest : List Char}
    {events events' : List BlockEvent} (h : r.step s c = (events, s'))
    (h' : r.Reads s' rest events' s'') : r.Reads s (c :: rest) (events ++ events') s'' := by
  rw [Reads, run, h, h']

/-- Characters that mean nothing are read as nothing. -/
theorem whole_of_forall {text : List Char}
    (h : ∀ c ∈ text, r.step r.start c = ([], r.start)) : r.Whole text [] := by
  induction text with
  | nil => exact .nil _
  | cons c rest ih =>
      exact .cons (h c List.mem_cons_self) (ih fun d hd => h d (List.mem_cons_of_mem c hd))

end BlockReader

/-! ## Where an item stands -/

/-- The headers of the blocks that are open after an event, the innermost first. -/
def enter (blocks : List (List String)) : BlockEvent → List (List String)
  | .item _ => blocks
  | .opens header => header :: blocks
  | .closes => blocks.tail

/-- The events, and whether each is met directly in a block with a header. -/
def within (header : List String) :
    List (List String) → List BlockEvent → List (Bool × BlockEvent)
  | _, [] => []
  | blocks, event :: rest =>
      (decide (blocks.head? = some header), event) :: within header (enter blocks event) rest

/-- Change the events that have a property and are met in a block with a header. -/
def mapWithin (header : List String) (p : BlockEvent → Bool) (f : BlockEvent → BlockEvent)
    (events : List BlockEvent) : List BlockEvent :=
  (within header [] events).map fun met => if met.1 && p met.2 then f met.2 else met.2

/-- The events that have a property and are met in a block with a header. -/
def filterWithin (header : List String) (p : BlockEvent → Bool) (events : List BlockEvent) :
    List BlockEvent :=
  ((within header [] events).filter fun met => met.1 && p met.2).map Prod.snd

section Within

variable {header : List String} {p : BlockEvent → Bool} {f : BlockEvent → BlockEvent}

theorem within_append (blocks : List (List String)) (events events' : List BlockEvent) :
    within header blocks (events ++ events') =
      within header blocks events ++ within header (events.foldl enter blocks) events' := by
  induction events generalizing blocks with
  | nil => rfl
  | cons event rest ih => simp only [List.cons_append, within, ih, List.foldl_cons]

theorem enter_mem {blocks : List (List String)} {event : BlockEvent} (hblocks : header ∉ blocks)
    (hevent : event ≠ .opens header) : header ∉ enter blocks event := by
  cases event with
  | item words => exact hblocks
  | opens other =>
      rintro hmem
      obtain rfl | hmem := List.mem_cons.mp hmem
      · exact hevent rfl
      · exact hblocks hmem
  | closes => exact fun hmem => hblocks (List.mem_of_mem_tail hmem)

/-- Where no block with the header is open or opened, nothing is met in one. -/
theorem within_outside {blocks : List (List String)} {events : List BlockEvent}
    (hblocks : header ∉ blocks) (hevents : .opens header ∉ events) :
    within header blocks events = events.map (Prod.mk false) ∧
      header ∉ events.foldl enter blocks := by
  induction events generalizing blocks with
  | nil => exact ⟨rfl, hblocks⟩
  | cons event rest ih =>
      obtain ⟨hevent, hrest⟩ := not_or.mp (List.mem_cons.not.mp hevents)
      obtain ⟨hwithin, hafter⟩ := ih (enter_mem hblocks (Ne.symm hevent)) hrest
      have hhead : blocks.head? ≠ some header := fun h => hblocks (List.mem_of_head? h)
      refine ⟨?_, hafter⟩
      rw [within, hwithin, decide_eq_false hhead, List.map_cons]

/-- Items leave the open blocks as they are. -/
theorem within_items {blocks : List (List String)} {events : List BlockEvent}
    (hevents : ∀ event ∈ events, ∃ words, event = .item words) :
    within header blocks events = events.map (Prod.mk (decide (blocks.head? = some header))) ∧
      events.foldl enter blocks = blocks := by
  induction events with
  | nil => exact ⟨rfl, rfl⟩
  | cons event rest ih =>
      obtain ⟨words, rfl⟩ := hevents event List.mem_cons_self
      obtain ⟨hwithin, hafter⟩ := ih fun e he => hevents e (List.mem_cons_of_mem _ he)
      refine ⟨?_, hafter⟩
      rw [within, enter, hwithin, List.map_cons]

/-- The events of a text that has one block with the header, and items in it. -/
theorem within_block {before items after : List BlockEvent} (hbefore : .opens header ∉ before)
    (hitems : ∀ event ∈ items, ∃ words, event = .item words) (hafter : .opens header ∉ after) :
    within header [] (before ++ .opens header :: (items ++ .closes :: after)) =
      before.map (Prod.mk false) ++ (false, .opens header) ::
        (items.map (Prod.mk true) ++ (true, .closes) :: after.map (Prod.mk false)) := by
  obtain ⟨hwithin, hblocks⟩ := within_outside List.not_mem_nil hbefore
  obtain ⟨hinside, hsame⟩ := @within_items header (header :: before.foldl enter []) _ hitems
  have hhead : (before.foldl enter []).head? ≠ some header :=
    fun h => hblocks (List.mem_of_head? h)
  rw [within_append, hwithin, within, decide_eq_false hhead, enter, within_append, hinside, hsame,
    within, enter, List.tail_cons, (within_outside hblocks hafter).1]
  simp

/-- What is changed in such a text. -/
theorem mapWithin_block {before items after : List BlockEvent}
    (hbefore : .opens header ∉ before)
    (hitems : ∀ event ∈ items, ∃ words, event = .item words) (hafter : .opens header ∉ after)
    (hp : p .closes = false) :
    mapWithin header p f (before ++ .opens header :: (items ++ .closes :: after)) =
      before ++ .opens header ::
        (items.map (fun event => if p event then f event else event) ++ .closes :: after) := by
  rw [mapWithin, within_block hbefore hitems hafter]
  simp [Function.comp_def, hp]

/-- What is found in such a text. -/
theorem filterWithin_block {before items after : List BlockEvent}
    (hbefore : .opens header ∉ before)
    (hitems : ∀ event ∈ items, ∃ words, event = .item words) (hafter : .opens header ∉ after)
    (hp : p .closes = false) :
    filterWithin header p (before ++ .opens header :: (items ++ .closes :: after)) =
      items.filter p := by
  rw [filterWithin, within_block hbefore hitems hafter]
  simp [List.filter_map, Function.comp_def, hp]

end Within

end Fraisier.Data
