import Mathlib.Data.List.Dedup
import Mathlib.Data.List.Perm.Subperm
import Mathlib.Data.List.Sort
import Mathlib.Data.String.Basic
import Fraisier.Data.Paths
import Fraisier.Data.Text

/-!
# Stack files

A stack file names the configurations of the members that deploy together, what each of
them depends on and which of them is the router. `resolve` reads the configurations, refuses
a stack with problems and orders the members. Read `resolve_wellOrdered` first: it collects
what the rest of the program may assume about the order.
-/

namespace Fraisier.Config

open Fraisier.Data

/-- What a stack reads of a member's configuration, and the rest of it as written. -/
structure DeployConfig where
  name : Option String
  environment : Option String
  strategy : Option String
  activePath : Option PathBuf
  graphqlUrl : Option String
  hosts : Bool
  rest : String
deriving DecidableEq

/-- A member's entry in a stack file. -/
structure MemberSpec where
  config : PathBuf
  dependsOn : List String
  sdl : Option PathBuf
deriving DecidableEq

/-- The `[stack]` section. -/
structure StackSection where
  name : Option String
  environment : Option String
  router : Option String
  members : List MemberSpec

/-- A member: its configuration is loaded and names it. -/
structure Member where
  name : String
  configPath : PathBuf
  config : DeployConfig
  dependsOn : List String
  sdl : Option PathBuf
deriving DecidableEq

/-- The endpoint that serves the member's schema. -/
def Member.graphqlUrl (member : Member) : Option String :=
  member.config.graphqlUrl

/-- A stack, its members in the order they deploy. -/
structure Stack where
  name : String
  environment : String
  router : Option String
  members : List Member

/-- Why a stack file is not a stack: every problem found. -/
abbrev StackError := List String

/-! ## The order of the members -/

/-- A member's name, and what it depends on. -/
abbrev Graph := List (String × List String)

/-- Add a name to a sorted set of names. -/
def insertName (set : List String) (name : String) : List String :=
  if name ∈ set then set else set.orderedInsert (· ≤ ·) name

/-- The position of a name; the last member of that name has it. -/
def index (members : Graph) (name : String) : Option Nat :=
  (members.zipIdx.reverse.find? fun entry => entry.1.1 == name).map Prod.snd

/-- What each member waits for: its dependencies that are members. -/
def waiting (members : Graph) : Graph :=
  members.map fun member =>
    (member.1, member.2.filter fun dependency => dependency ∈ members.map Prod.fst)

/-- The members that wait for nothing. -/
def ready (waiting : Graph) : List String :=
  (waiting.filter fun member => member.2.isEmpty).foldl (fun set member =>
    insertName set member.1) []

/-- Nobody waits for `next` any longer; a member that waited for it alone is ready. -/
def release (next : String) : Graph → List String → Graph × List String
  | [], ready => ([], ready)
  | (name, on) :: waiting, ready =>
      let left := on.filter (· != next)
      let ready := if next ∈ on ∧ left = [] then insertName ready name else ready
      let r := release next waiting ready
      ((name, left) :: r.1, r.2)

/-- Place the first name that is ready, again and again. -/
def placeReady : Nat → Graph → List String → List String
  | 0, _, _ => []
  | _ + 1, _, [] => []
  | fuel + 1, waiting, next :: ready =>
      let r := release next waiting ready
      next :: placeReady fuel r.1 r.2

/-- The names in the order they are placed. Every member is placed once at most, so that
the number of members bounds the rounds. -/
def placed (members : Graph) : List String :=
  placeReady members.length (waiting members) (ready (waiting members))

/-- The order of the members as positions: every member after what it depends on, ties broken
by name. The error names the members on a cycle or behind one. -/
def deployOrder (members : Graph) : Except (List String) (List Nat) :=
  let order := (placed members).filterMap (index members)
  if order.length = members.length then .ok order
  else .error (((members.zipIdx.filter fun entry => entry.2 ∉ order).map
    fun entry => entry.1.1).insertionSort (· ≤ ·))

/-! ## Problems -/

/-- Names that more than one member has, and dependencies that name no member. -/
def referenceProblems (members : List Member) : List String :=
  let names := members.map Member.name
  let at_ name := (members.filter fun member => member.name == name).map
    fun member => member.configPath.display
  ((names.dedup.insertionSort (· ≤ ·)).filter fun name => 1 < (at_ name).length).map
      (fun duplicate => s!"more than one member is named '{duplicate}': " ++
        ", ".intercalate (at_ duplicate)) ++
    members.flatMap fun member =>
      (member.dependsOn.filter fun dependency => dependency ∉ names).map fun dependency =>
        s!"member '{member.name}' depends on '{dependency}', which is not a member"

/-- What a member's schema check lacks. -/
def memberSdlProblems (router : Option String) (member : Member) : List String :=
  match member.sdl with
  | none => []
  | some sdl =>
      (if member.graphqlUrl.isNone then
        [s!"member '{member.name}' has sdl, but its config has no [federation].graphql_url"]
        else []) ++
      (if member.config.strategy = some "blue-green" then
        [s!"member '{member.name}' has sdl, but deploys blue-green; the SDL check runs in a " ++
          "single- or multi-host deploy's health step"]
        else []) ++
      (if !sdl.staysBelow then
        [s!"member '{member.name}': sdl must be a path inside the router's release, not " ++
          sdl.display]
        else []) ++
      (if router = some member.name then
        [s!"member '{member.name}' is the router, which serves the supergraph; it has no sdl"]
        else [])

/-- The member that a name names. -/
def findMember (members : List Member) (name : String) : Option Member :=
  members.find? fun member => member.name == name

/-- What the schema check of the stack lacks. -/
def sdlProblems (router : Option String) (members : List Member) : List String :=
  let routerMember := router.bind (findMember members)
  let checked := members.filter fun member => member.sdl.isSome
  (match router, routerMember with
    | some name, none => [s!"[stack].router '{name}' is not a member"]
    | _, _ => []) ++
  members.flatMap (memberSdlProblems router) ++
  (if checked = [] then []
    else match router, routerMember with
      | none, _ =>
          ["member(s) " ++ ", ".intercalate (checked.map fun member => s!"'{member.name}'") ++
            " have sdl, a path in the router's release: name the router with [stack].router"]
      | some name, some member =>
          if member.config.activePath.isNone then
            [s!"the router '{name}' has no [artifact].active_path, the release sdl paths are " ++
              "read from"]
          else []
      | some _, none => [])

/-- The members with a schema that deploy after the router. -/
def subgraphsAfterTheRouter (stack : Stack) : List String :=
  match stack.router with
  | none => []
  | some router =>
      ((stack.members.dropWhile fun member => member.name != router).filter
        fun member => member.sdl.isSome).map fun member =>
          s!"the router '{router}' deploys before '{member.name}', whose SDL its release " ++
            s!"holds: add '{member.name}' to its depends_on"

/-! ## Resolving a stack -/

/-- A text that says something. -/
def nonBlank (text : Option String) : Option String :=
  text.filter fun text => !(trim text).isEmpty

section Resolve

variable (parse : String → Except String DeployConfig) (base : PathBuf)
  (read : PathBuf → Except String String)

/-- The member an entry names, if its configuration can be loaded, and the problems found. -/
def loadMember (environment : Option String) (spec : MemberSpec) :
    List String × Option Member :=
  let configPath := base.join spec.config
  let shown := spec.config.display
  match read configPath with
  | .error error => ([s!"member {shown}: cannot read {configPath.display}: {error}"], none)
  | .ok toml =>
      match parse toml with
      | .error error => ([s!"member {shown}: {error}"], none)
      | .ok config =>
          match config.name with
          | none => ([s!"member {shown}: its config has no [deploy].name, which names the member"],
              none)
          | some name =>
              let elsewhere := match environment with
                | some environment =>
                    if config.environment ≠ some environment then
                      let own := config.environment.getD "<none>"
                      [s!"member '{name}' ({shown}) deploys to '{own}', not the stack's " ++
                        s!"environment '{environment}'"]
                    else []
                | none => []
              (elsewhere, some
                { name, configPath, config, dependsOn := spec.dependsOn, sdl := spec.sdl })

/-- Take members out of their slots in an order; a slot gives its member once. -/
def takeSlots : List (Option Member) → List Nat → List Member
  | _, [] => []
  | slots, i :: order =>
      match slots[i]?.join with
      | some member => member :: takeSlots (slots.set i none) order
      | none => takeSlots slots order

/-- Every problem of a stack file whose members were loaded. -/
def stackProblems (file : StackSection) (loaded : List (List String × Option Member)) :
    List String :=
  let members := loaded.filterMap Prod.snd
  (if (nonBlank file.name).isNone then ["[stack].name is required"] else []) ++
    (if (nonBlank file.environment).isNone then ["[stack].environment is required"] else []) ++
    (if file.members.isEmpty then ["a stack needs at least one [[stack.member]]"] else []) ++
    loaded.flatMap Prod.fst ++ referenceProblems members ++ sdlProblems file.router members

/-- Resolve a stack file: read every member's configuration and order the members. -/
def resolve (file : StackSection) : Except StackError Stack :=
  let loaded := file.members.map (loadMember parse base read (nonBlank file.environment))
  let members := loaded.filterMap Prod.snd
  let problems := stackProblems file loaded
  if problems ≠ [] then .error problems
  else
    match deployOrder (members.map fun member => (member.name, member.dependsOn)) with
    | .error cycle =>
        .error ["members depend on each other in a cycle: " ++ ", ".intercalate cycle]
    | .ok order =>
        let stack : Stack :=
          { name := (nonBlank file.name).getD ""
            environment := (nonBlank file.environment).getD ""
            router := file.router
            members := takeSlots (members.map some) order }
        let early := subgraphsAfterTheRouter stack
        if early ≠ [] then .error early else .ok stack

end Resolve

/-! ## What the order guarantees -/

theorem mem_insertName {set : List String} {name other : String} :
    other ∈ insertName set name ↔ other = name ∨ other ∈ set := by
  unfold insertName
  split
  next hname =>
    constructor
    · exact Or.inr
    · rintro (rfl | h)
      · exact hname
      · exact h
  next => exact List.mem_orderedInsert _

theorem nodup_insertName {set : List String} (h : set.Nodup) (name : String) :
    (insertName set name).Nodup := by
  unfold insertName
  split
  next => exact h
  next hname =>
    exact (List.perm_orderedInsert _ name set).nodup_iff.mpr (List.nodup_cons.mpr ⟨hname, h⟩)

theorem length_insertName_le (set : List String) (name : String) :
    (insertName set name).length ≤ set.length + 1 := by
  unfold insertName
  split
  next => omega
  next => rw [List.orderedInsert_length]

section Release

variable {next : String} {waiting : Graph} {ready : List String}

theorem release_fst (next : String) (waiting : Graph) (ready : List String) :
    (release next waiting ready).1 =
      waiting.map fun member => (member.1, member.2.filter (· != next)) := by
  induction waiting generalizing ready with
  | nil => rfl
  | cons member waiting ih =>
      simp only [release, List.map_cons]
      rw [ih]

theorem mem_release_snd {name : String} :
    name ∈ (release next waiting ready).2 ↔ name ∈ ready ∨
      ∃ member ∈ waiting, member.1 = name ∧ next ∈ member.2 ∧
        member.2.filter (· != next) = [] := by
  induction waiting generalizing ready with
  | nil => simp [release]
  | cons member waiting ih =>
      obtain ⟨first, on⟩ := member
      simp only [release]
      rw [ih, List.exists_mem_cons_iff]
      by_cases hfree : next ∈ on ∧ on.filter (· != next) = []
      · rw [if_pos hfree, mem_insertName]
        have hfirst : (first = name ∧ next ∈ on ∧ on.filter (· != next) = []) ↔
            name = first := ⟨fun h => h.1.symm, fun h => ⟨h.symm, hfree⟩⟩
        rw [hfirst]
        tauto
      · rw [if_neg hfree]
        tauto

theorem nodup_release (h : ready.Nodup) : (release next waiting ready).2.Nodup := by
  induction waiting generalizing ready with
  | nil => exact h
  | cons member waiting ih =>
      refine ih ?_
      split
      next => exact nodup_insertName h _
      next => exact h

/-- How many rounds are left at most: the names that are ready, and those that wait. -/
def roundsLeft (waiting : Graph) (ready : List String) : Nat :=
  ready.length + (waiting.filter fun member => !member.2.isEmpty).length

theorem roundsLeft_release_le :
    roundsLeft (release next waiting ready).1 (release next waiting ready).2 ≤
      roundsLeft waiting ready := by
  induction waiting generalizing ready with
  | nil => exact Nat.le_refl _
  | cons member waiting ih =>
      obtain ⟨name, on⟩ := member
      simp only [release]
      by_cases hfree : next ∈ on ∧ on.filter (· != next) = []
      · -- A member that becomes ready waited before.
        have hwaited : on.isEmpty = false := by
          cases on with
          | nil => exact absurd hfree.1 List.not_mem_nil
          | cons d on => rfl
        have hrest := @ih (insertName ready name)
        have hinsert := length_insertName_le ready name
        rw [if_pos hfree, hfree.2]
        simp only [roundsLeft, hwaited, List.isEmpty_nil, Bool.not_true, Bool.not_false,
          List.filter_cons, if_true, Bool.false_eq_true, if_false, List.length_cons] at hrest ⊢
        omega
      · have hrest := @ih ready
        have hkept : (!(on.filter (· != next)).isEmpty) = true → (!on.isEmpty) = true := by
          cases on with
          | nil => simp
          | cons d on => simp
        rw [if_neg hfree]
        simp only [roundsLeft, List.filter_cons] at hrest ⊢
        by_cases hleft : (!(on.filter (· != next)).isEmpty) = true
        · rw [if_pos hleft, if_pos (hkept hleft), List.length_cons, List.length_cons]
          omega
        · rw [if_neg hleft]
          split
          next =>
            rw [List.length_cons]
            omega
          next => exact hrest

end Release

/-- The rounds that are left bound the loop: more fuel changes nothing. -/
theorem placeReady_fuel {waiting : Graph} {ready : List String} {fuel : Nat}
    (h : roundsLeft waiting ready ≤ fuel) (more : Nat) :
    placeReady (fuel + more) waiting ready = placeReady fuel waiting ready := by
  induction fuel generalizing waiting ready with
  | zero =>
      have hready : ready = [] := by
        refine List.length_eq_zero_iff.mp ?_
        unfold roundsLeft at h
        omega
      subst hready
      cases more <;> rfl
  | succ fuel ih =>
      rw [Nat.succ_add]
      cases ready with
      | nil => rfl
      | cons next ready =>
          simp only [placeReady]
          rw [ih]
          have hle := @roundsLeft_release_le next waiting ready
          simp only [roundsLeft, List.length_cons] at h hle ⊢
          omega

theorem mem_ready {waiting : Graph} {name : String} :
    name ∈ ready waiting ↔ ∃ member ∈ waiting, member.1 = name ∧ member.2 = [] := by
  have hfold : ∀ (free : Graph) (set : List String),
      name ∈ free.foldl (fun set member => insertName set member.1) set ↔
        name ∈ set ∨ ∃ member ∈ free, member.1 = name := by
    intro free
    induction free with
    | nil => simp
    | cons member free ih =>
        intro set
        rw [List.foldl_cons, ih, mem_insertName, List.exists_mem_cons_iff]
        tauto
  unfold ready
  rw [hfold]
  simp [and_comm]

theorem nodup_ready (waiting : Graph) : (ready waiting).Nodup := by
  have hfold : ∀ (free : Graph) (set : List String), set.Nodup →
      (free.foldl (fun set member => insertName set member.1) set).Nodup := by
    intro free
    induction free with
    | nil => exact fun set h => h
    | cons member free ih => exact fun set h => ih _ (nodup_insertName h _)
  exact hfold _ _ List.nodup_nil

theorem length_ready_le (waiting : Graph) :
    (ready waiting).length ≤ (waiting.filter fun member => member.2.isEmpty).length := by
  have hfold : ∀ (free : Graph) (set : List String),
      (free.foldl (fun set member => insertName set member.1) set).length ≤
        set.length + free.length := by
    intro free
    induction free with
    | nil => exact fun set => Nat.le_refl _
    | cons member free ih =>
        intro set
        have hrest := ih (insertName set member.1)
        have hinsert := length_insertName_le set member.1
        rw [List.foldl_cons, List.length_cons]
        omega
  have hready := hfold (waiting.filter fun member => member.2.isEmpty) []
  rwa [List.length_nil, Nat.zero_add] at hready

/-- There are at most as many rounds as members. -/
theorem roundsLeft_waiting_le (members : Graph) :
    roundsLeft (waiting members) (ready (waiting members)) ≤ members.length := by
  have hready := length_ready_le (waiting members)
  have hsplit := List.length_eq_length_filter_add (l := waiting members)
    fun member => member.2.isEmpty
  have hlength : (waiting members).length = members.length := by simp [waiting]
  unfold roundsLeft
  omega

/-- The loop ends before its rounds run out. -/
theorem placed_fuel (members : Graph) (more : Nat) :
    placeReady (members.length + more) (waiting members) (ready (waiting members)) =
      placed members :=
  placeReady_fuel (roundsLeft_waiting_le members) more

/-- Names that each come once and after the members they depend on. -/
def Legal (members : Graph) : List String → List String → Prop
  | _, [] => True
  | done, next :: rest =>
      next ∉ done ∧ next ∈ members.map Prod.fst ∧
        (∀ member ∈ members, member.1 = next → ∀ dependency ∈ member.2,
          dependency ∈ members.map Prod.fst → dependency ∈ done) ∧
        Legal members (done ++ [next]) rest

/-- What waits for whom after some names have been placed. -/
structure Waits (members : Graph) (done : List String) (waiting : Graph) (ready : List String) :
    Prop where
  distinct : (waiting.map Prod.fst).Nodup
  known : ∀ w ∈ waiting, w.1 ∈ members.map Prod.fst
  waits : ∀ w ∈ waiting, ∀ m ∈ members, m.1 = w.1 →
    ∀ d, d ∈ w.2 ↔ d ∈ m.2 ∧ d ∈ members.map Prod.fst ∧ d ∉ done
  free : ∀ name ∈ ready, name ∉ done ∧ ∃ w ∈ waiting, w.1 = name ∧ w.2 = []
  once : ready.Nodup
  settled : ∀ w ∈ waiting, w.1 ∈ done ∨ w.1 ∈ ready → w.2 = []

theorem waits_start (members : Graph) (hdistinct : (members.map Prod.fst).Nodup) :
    Waits members [] (waiting members) (ready (waiting members)) where
  distinct := by simpa [waiting, Function.comp_def] using hdistinct
  known := by
    intro w hw
    obtain ⟨m, hm, rfl⟩ := List.mem_map.mp hw
    exact List.mem_map.mpr ⟨m, hm, rfl⟩
  waits := by
    intro w hw m hm hname d
    obtain ⟨v, hv, rfl⟩ := List.mem_map.mp hw
    rw [List.inj_on_of_nodup_map hdistinct hm hv hname]
    simp
  free := fun name hname => ⟨List.not_mem_nil, mem_ready.mp hname⟩
  once := nodup_ready _
  settled := by
    intro w hw hready
    obtain ⟨v, hv, hname, hempty⟩ := mem_ready.mp (hready.resolve_left List.not_mem_nil)
    have hnames : ((waiting members).map Prod.fst).Nodup := by
      simpa [waiting, Function.comp_def] using hdistinct
    rw [List.inj_on_of_nodup_map hnames hw hv hname.symm]
    exact hempty

theorem Waits.release {members waiting : Graph} {done ready : List String} {next : String}
    (h : Waits members done waiting (next :: ready)) :
    Waits members (done ++ [next]) (release next waiting ready).1
      (release next waiting ready).2 where
  distinct := by
    rw [release_fst]
    simpa [Function.comp_def] using h.distinct
  known := by
    intro w hw
    rw [release_fst] at hw
    obtain ⟨v, hv, rfl⟩ := List.mem_map.mp hw
    exact h.known v hv
  waits := by
    intro w hw m hm hname d
    rw [release_fst] at hw
    obtain ⟨v, hv, rfl⟩ := List.mem_map.mp hw
    simp only [List.mem_filter, h.waits v hv m hm hname, List.mem_append, List.mem_singleton,
      bne_iff_ne]
    tauto
  free := by
    intro name hname
    obtain ⟨hfresh, hready⟩ := List.nodup_cons.mp h.once
    rw [release_fst]
    rcases mem_release_snd.mp hname with hname | ⟨w, hw, rfl, hnext, hleft⟩
    · obtain ⟨hdone, w, hw, hfst, hempty⟩ := h.free name (List.mem_cons_of_mem _ hname)
      refine ⟨?_, _, List.mem_map_of_mem hw, hfst, by simp [hempty]⟩
      have hne : name ≠ next := fun heq => hfresh (heq ▸ hname)
      simpa [hdone] using hne
    · refine ⟨?_, _, List.mem_map_of_mem hw, rfl, hleft⟩
      -- A member that was placed, or is being placed, waits for nobody.
      intro hdone
      have hsettled : w.2 = [] := by
        refine h.settled w hw ?_
        rcases List.mem_append.mp hdone with hdone | hdone
        · exact Or.inl hdone
        · exact Or.inr (List.mem_singleton.mp hdone ▸ List.mem_cons_self)
      rw [hsettled] at hnext
      cases hnext
  once := nodup_release (List.nodup_cons.mp h.once).2
  settled := by
    intro w hw hplace
    rw [release_fst] at hw
    obtain ⟨v, hv, rfl⟩ := List.mem_map.mp hw
    rcases hplace with hdone | hready
    · have hempty : v.2 = [] := by
        refine h.settled v hv ?_
        rcases List.mem_append.mp hdone with hdone | hdone
        · exact Or.inl hdone
        · exact Or.inr (List.mem_singleton.mp hdone ▸ List.mem_cons_self)
      simp [hempty]
    · rcases mem_release_snd.mp hready with hready | ⟨u, hu, hname, -, hleft⟩
      · have hempty := h.settled v hv (Or.inr (List.mem_cons_of_mem _ hready))
        simp [hempty]
      · rwa [← List.inj_on_of_nodup_map h.distinct hu hv hname]

/-- The loop places every name after the names it depends on. -/
theorem legal_placeReady {members waiting : Graph} {done ready : List String} (fuel : Nat)
    (h : Waits members done waiting ready) :
    Legal members done (placeReady fuel waiting ready) := by
  induction fuel generalizing waiting done ready with
  | zero => trivial
  | succ fuel ih =>
      cases ready with
      | nil => trivial
      | cons next ready =>
          obtain ⟨hdone, w, hw, rfl, hempty⟩ := h.free next List.mem_cons_self
          refine ⟨hdone, h.known w hw, ?_, ih h.release⟩
          intro member hmember hname d hd hknown
          by_contra hnot
          have hwaits := (h.waits w hw member hmember hname d).mpr ⟨hd, hknown, hnot⟩
          rw [hempty] at hwaits
          cases hwaits

theorem legal_placed {members : Graph} (hdistinct : (members.map Prod.fst).Nodup) :
    Legal members [] (placed members) :=
  legal_placeReady _ (waits_start members hdistinct)

section Legal

variable {members : Graph} {done rest : List String}

theorem Legal.known (h : Legal members done rest) : ∀ name ∈ rest, name ∈ members.map Prod.fst := by
  induction rest generalizing done with
  | nil => simp
  | cons next rest ih => exact List.forall_mem_cons.mpr ⟨h.2.1, ih h.2.2.2⟩

theorem Legal.nodup (h : Legal members done rest) (hdone : done.Nodup) : (done ++ rest).Nodup := by
  induction rest generalizing done with
  | nil => simpa using hdone
  | cons next rest ih =>
      have hnext : (done ++ [next]).Nodup :=
        List.nodup_append_comm.mp (List.nodup_cons.mpr ⟨h.1, hdone⟩)
      simpa using ih h.2.2.2 hnext

theorem Legal.before (h : Legal members done rest) {before after : List String} {next : String}
    (hsplit : rest = before ++ next :: after) : ∀ member ∈ members, member.1 = next →
      ∀ dependency ∈ member.2, dependency ∈ members.map Prod.fst →
        dependency ∈ done ++ before := by
  induction before generalizing done rest with
  | nil =>
      subst hsplit
      simpa using h.2.2.1
  | cons first before ih =>
      subst hsplit
      simpa using ih h.2.2.2 rfl

end Legal

/-! ## What a resolved stack guarantees -/

theorem index_eq_some {members : Graph} {name : String} {i : Nat}
    (h : index members name = some i) : ∃ entry, members[i]? = some entry ∧ entry.1 = name := by
  obtain ⟨found, hfound, rfl⟩ := Option.map_eq_some_iff.mp h
  have hmem := List.mem_reverse.mp (List.mem_of_find?_eq_some hfound)
  have hname := List.find?_some hfound
  exact ⟨found.1, List.mem_zipIdx_iff_getElem?.mp hmem, by simpa using hname⟩

theorem exists_index {members : Graph} {name : String} (h : name ∈ members.map Prod.fst) :
    ∃ i, index members name = some i := by
  obtain ⟨entry, hentry, rfl⟩ := List.mem_map.mp h
  obtain ⟨i, hi⟩ := List.mem_iff_getElem?.mp hentry
  have hfound : ((members.zipIdx.reverse.find?
      fun e => e.1.1 == entry.1)).isSome = true := by
    rw [List.find?_isSome]
    exact ⟨(entry, i), List.mem_reverse.mpr (List.mem_zipIdx_iff_getElem?.mpr hi), by simp⟩
  obtain ⟨found, hfound⟩ := Option.isSome_iff_exists.mp hfound
  exact ⟨found.2, by simp [index, hfound]⟩

/-- The name at the position of a name. -/
theorem name_index {members : Graph} {name : String} (h : name ∈ members.map Prod.fst) :
    ((index members name).bind fun i => members[i]?.map Prod.fst) = some name := by
  obtain ⟨i, hi⟩ := exists_index h
  obtain ⟨e, he, rfl⟩ := index_eq_some hi
  rw [hi, Option.bind_some, he, Option.map_some]

/-- Different names have different positions. -/
theorem nodup_filterMap_index {members : Graph} {names : List String} (h : names.Nodup) :
    (names.filterMap (index members)).Nodup := by
  refine h.filterMap ?_
  intro first second i hfirst hsecond
  obtain ⟨e, he, rfl⟩ := index_eq_some hfirst
  obtain ⟨e', he', rfl⟩ := index_eq_some hsecond
  rw [he] at he'
  rw [Option.some.inj he']

/-- Slots that are asked once each give the members at their positions. -/
theorem takeSlots_of_nodup {members : List Member} {slots : List (Option Member)}
    {order : List Nat} (hnodup : order.Nodup)
    (hslots : ∀ i ∈ order, slots[i]? = members[i]?.map some) :
    takeSlots slots order = order.filterMap fun i => members[i]? := by
  induction order generalizing slots with
  | nil => rfl
  | cons i order ih =>
      obtain ⟨hfresh, hrest⟩ := List.nodup_cons.mp hnodup
      obtain ⟨hi, hslots⟩ := List.forall_mem_cons.mp hslots
      have hkept : ∀ j ∈ order, (slots.set i none)[j]? = members[j]?.map some := by
        intro j hj
        have hne : i ≠ j := fun heq => hfresh (heq ▸ hj)
        rw [List.getElem?_set_ne hne]
        exact hslots j hj
      cases hm : members[i]? with
      | none =>
          rw [hm] at hi
          simp only [takeSlots, hi, Option.map_none, Option.join_none, List.filterMap_cons, hm]
          exact ih hrest hslots
      | some member =>
          rw [hm] at hi
          simp only [takeSlots, hi, Option.map_some, Option.join_some, List.filterMap_cons, hm]
          rw [ih hrest hkept]

/-- The graph that the members of a stack span. -/
def graphOf (members : List Member) : Graph :=
  members.map fun member => (member.name, member.dependsOn)

theorem graphOf_names (members : List Member) :
    (graphOf members).map Prod.fst = members.map Member.name := by
  simp [graphOf, Function.comp_def]

section Order

variable {members : List Member} {order : List Nat}

theorem placed_perm (hdistinct : (members.map Member.name).Nodup)
    (h : deployOrder (graphOf members) = .ok order) :
    (placed (graphOf members)).Perm (members.map Member.name) := by
  have hlegal : Legal (graphOf members) [] (placed (graphOf members)) :=
    legal_placed (by rwa [graphOf_names])
  have hknown := hlegal.known
  rw [graphOf_names] at hknown
  refine (List.subperm_of_subset (hlegal.nodup List.nodup_nil) hknown).perm_of_length_le ?_
  simp only [deployOrder] at h
  split at h
  next hlength =>
    have hle := List.length_filterMap_le (index (graphOf members)) (placed (graphOf members))
    simp only [graphOf, List.length_map, List.nil_append] at hlength hle ⊢
    omega
  next => cases h

/-- The members are taken in the order in which their names are placed. -/
theorem takeSlots_names (hdistinct : (members.map Member.name).Nodup)
    (h : deployOrder (graphOf members) = .ok order) :
    (takeSlots (members.map some) order).map Member.name = placed (graphOf members) ∧
      ∀ member ∈ takeSlots (members.map some) order, member ∈ members := by
  have hlegal : Legal (graphOf members) [] (placed (graphOf members)) :=
    legal_placed (by rwa [graphOf_names])
  have horder : order = (placed (graphOf members)).filterMap (index (graphOf members)) := by
    simp only [deployOrder] at h
    split at h
    next => exact (Except.ok.inj h).symm
    next => cases h
  have hnodup : order.Nodup := by
    rw [horder]
    exact nodup_filterMap_index (hlegal.nodup List.nodup_nil)
  have htake := takeSlots_of_nodup hnodup fun i _ => List.getElem?_map (f := some) (l := members)
  rw [htake]
  constructor
  · rw [horder, List.filterMap_filterMap, List.map_filterMap]
    have hat : ∀ name ∈ placed (graphOf members),
        (((index (graphOf members) name).bind fun i => members[i]?).map Member.name) =
          some name := by
      intro name hname
      rw [← name_index (hlegal.known name hname)]
      cases index (graphOf members) name with
      | none => rfl
      | some i => simp [graphOf, Function.comp_def]
    rw [List.filterMap_congr hat, List.filterMap_some]
  · intro member hmember
    obtain ⟨i, -, hi⟩ := List.mem_filterMap.mp hmember
    exact List.mem_of_getElem? hi

end Order

/-- What the rest of the program may assume of a stack. -/
structure Stack.WellOrdered (stack : Stack) : Prop where
  distinct : (stack.members.map Member.name).Nodup
  ordered : ∀ before member after, stack.members = before ++ member :: after →
    ∀ dependency ∈ member.dependsOn, dependency ∈ before.map Member.name
  routed : ∀ member ∈ stack.members, member.sdl.isSome = true →
    ∃ router ∈ stack.members, stack.router = some router.name
  routerLast : ∀ before router after, stack.members = before ++ router :: after →
    stack.router = some router.name → ∀ member ∈ router :: after, member.sdl = none
  checkable : ∀ member ∈ stack.members, ∀ sdl, member.sdl = some sdl →
    sdl.staysBelow = true ∧ member.graphqlUrl.isSome = true

section Problems

variable {members : List Member}

/-- Without problems, names are distinct and dependencies are members. -/
theorem referenceProblems_eq_nil (h : referenceProblems members = []) :
    (members.map Member.name).Nodup ∧ ∀ member ∈ members, ∀ dependency ∈ member.dependsOn,
      dependency ∈ members.map Member.name := by
  obtain ⟨hnames, hdeps⟩ := List.append_eq_nil_iff.mp h
  constructor
  · rw [List.nodup_iff_count_le_one]
    intro name
    by_contra hmany
    have hcount : (members.filter fun member => member.name == name).length =
        (members.map Member.name).count name := by
      rw [List.count, List.countP_map, List.countP_eq_length_filter]
      rfl
    have hmem : name ∈ (members.map Member.name).dedup.insertionSort (· ≤ ·) := by
      rw [List.mem_insertionSort, List.mem_dedup]
      exact List.count_pos_iff.mp (by omega)
    have hempty := List.filter_eq_nil_iff.mp (List.map_eq_nil_iff.mp hnames) name hmem
    simp only [List.length_map, hcount, decide_eq_true_eq] at hempty
    omega
  · intro member hmember dependency hdependency
    have hfilter := List.map_eq_nil_iff.mp (List.flatMap_eq_nil_iff.mp hdeps member hmember)
    have hknown := List.filter_eq_nil_iff.mp hfilter dependency hdependency
    simpa using hknown

theorem memberSdlProblems_eq_nil {router : Option String} {member : Member} {sdl : PathBuf}
    (h : memberSdlProblems router member = []) (hsdl : member.sdl = some sdl) :
    member.graphqlUrl.isSome = true ∧ sdl.staysBelow = true ∧ router ≠ some member.name := by
  simp only [memberSdlProblems, hsdl, List.append_eq_nil_iff, ite_eq_right_iff,
    List.cons_ne_nil, imp_false, Bool.not_eq_true] at h
  obtain ⟨⟨⟨hurl, -⟩, hbelow⟩, hrouter⟩ := h
  exact ⟨by simpa using hurl, by simpa using hbelow, hrouter⟩

/-- Without problems, members with a schema can be checked against a router among them. -/
theorem sdlProblems_eq_nil {router : Option String} (h : sdlProblems router members = []) :
    (∀ member ∈ members, memberSdlProblems router member = []) ∧
      ∀ member ∈ members, member.sdl.isSome = true →
        ∃ routerMember ∈ members, router = some routerMember.name := by
  simp only [sdlProblems, List.append_eq_nil_iff, List.flatMap_eq_nil_iff] at h
  obtain ⟨⟨hnamed, hmembers⟩, hrouted⟩ := h
  refine ⟨hmembers, ?_⟩
  intro member hmember hsdl
  have hchecked : members.filter (fun member => member.sdl.isSome) ≠ [] :=
    List.ne_nil_of_mem (List.mem_filter.mpr ⟨hmember, hsdl⟩)
  rw [if_neg hchecked] at hrouted
  cases router with
  | none => simp at hrouted
  | some name =>
      cases hfind : findMember members name with
      | none => simp [hfind] at hnamed
      | some routerMember =>
          have hname := List.find?_some hfind
          exact ⟨routerMember, List.mem_of_find?_eq_some hfind,
            congrArg some (by simpa using hname : routerMember.name = name).symm⟩

/-- Without early subgraphs, no schema belongs to the router or to a member behind it. -/
theorem subgraphsAfterTheRouter_eq_nil {stack : Stack} {router : Member}
    {before after : List Member} (h : subgraphsAfterTheRouter stack = [])
    (hdistinct : (stack.members.map Member.name).Nodup)
    (hsplit : stack.members = before ++ router :: after)
    (hrouter : stack.router = some router.name) :
    ∀ member ∈ router :: after, member.sdl = none := by
  have hbefore : ∀ member ∈ before, (member.name != router.name) = true := by
    intro member hmember
    rw [hsplit, List.map_append, List.map_cons] at hdistinct
    have hfresh := List.disjoint_of_nodup_append hdistinct (List.mem_map_of_mem hmember)
    have hne : member.name ≠ router.name := by
      intro heq
      rw [heq] at hfresh
      exact hfresh List.mem_cons_self
    simpa using hne
  simp only [subgraphsAfterTheRouter, hrouter, hsplit] at h
  rw [List.dropWhile_append_of_pos hbefore, List.dropWhile_cons_of_neg (by simp)] at h
  have hnone := List.filter_eq_nil_iff.mp (List.map_eq_nil_iff.mp h)
  intro member hmember
  have hempty := hnone member hmember
  simpa using hempty

end Problems

/-- Members without problems, taken in their order, make a well-ordered stack. -/
theorem wellOrdered_of_order {members : List Member} {order : List Nat} {stack : Stack}
    (hreferences : referenceProblems members = []) (hsdl : sdlProblems stack.router members = [])
    (horder : deployOrder (graphOf members) = .ok order)
    (hmembers : stack.members = takeSlots (members.map some) order)
    (hearly : subgraphsAfterTheRouter stack = []) : stack.WellOrdered := by
  obtain ⟨hdistinct, hknown⟩ := referenceProblems_eq_nil hreferences
  obtain ⟨hchecked, hrouted⟩ := sdlProblems_eq_nil hsdl
  obtain ⟨hnames, hsub⟩ := takeSlots_names hdistinct horder
  rw [← hmembers] at hnames hsub
  have hperm := placed_perm hdistinct horder
  have hlegal : Legal (graphOf members) [] (placed (graphOf members)) :=
    legal_placed (by rwa [graphOf_names])
  have hdistinct' : (stack.members.map Member.name).Nodup := by
    rw [hnames]
    exact hperm.nodup_iff.mpr hdistinct
  refine ⟨hdistinct', ?_, ?_, ?_, ?_⟩
  · intro before member after hsplit dependency hdependency
    have hmember : member ∈ members :=
      hsub member (hsplit ▸ List.mem_append_right _ List.mem_cons_self)
    have hplaced : placed (graphOf members) =
        before.map Member.name ++ member.name :: after.map Member.name := by
      rw [← hnames, hsplit, List.map_append, List.map_cons]
    have hdone := hlegal.before hplaced (member.name, member.dependsOn)
      (List.mem_map_of_mem hmember) rfl dependency hdependency
    rw [graphOf_names] at hdone
    simpa using hdone (hknown member hmember dependency hdependency)
  · intro member hmember hsome
    obtain ⟨router, hrouter, hname⟩ := hrouted member (hsub member hmember) hsome
    have hplaced : router.name ∈ stack.members.map Member.name := by
      rw [hnames]
      exact hperm.mem_iff.mpr (List.mem_map_of_mem hrouter)
    obtain ⟨found, hfound, heq⟩ := List.mem_map.mp hplaced
    exact ⟨found, hfound, hname.trans (congrArg some heq.symm)⟩
  · intro before router after hsplit hrouter
    exact subgraphsAfterTheRouter_eq_nil hearly hdistinct' hsplit hrouter
  · intro member hmember sdl hsome
    have hclean := memberSdlProblems_eq_nil (hchecked member (hsub member hmember)) hsome
    exact ⟨hclean.2.1, hclean.1⟩

/-- A stack that was resolved is well ordered. -/
theorem resolve_wellOrdered {parse : String → Except String DeployConfig} {base : PathBuf}
    {read : PathBuf → Except String String} {file : StackSection} {stack : Stack}
    (h : resolve parse base read file = .ok stack) : stack.WellOrdered := by
  simp only [resolve] at h
  generalize file.members.map (loadMember parse base read (nonBlank file.environment)) =
    loaded at h
  split at h
  next => cases h
  next hproblems =>
    have hnone := Decidable.not_not.mp hproblems
    simp only [stackProblems, List.append_eq_nil_iff] at hnone
    split at h
    next => cases h
    next order horder =>
      split at h
      next => cases h
      next hearly =>
        obtain rfl := Except.ok.inj h
        exact wellOrdered_of_order hnone.1.2 hnone.2 horder rfl (Decidable.not_not.mp hearly)

end Fraisier.Config
