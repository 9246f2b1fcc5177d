import Fraisier.Data.Links
import Fraisier.Db.Archive

/-!
# Which archives a retention policy removes

A policy has an age rule, a floor of archives that are exempt from it, and a ceiling. The
floor counts what `pg_restore` does not reject. `plan` applies a policy to the archives of a
directory that a pattern selects, and `remove` carries the plan out. Read `floor_le_kept`
first.
-/

namespace Fraisier.Db

open Fraisier.Data

/-! ## Policies -/

/-- A retention policy: times are in nanoseconds. -/
structure Policy where
  retention : Option Int
  keepMinimum : Nat
  keepLast : Option Nat
  keepLast_valid : ∀ keepLast', keepLast = some keepLast' → 0 < keepLast' ∧ keepMinimum ≤ keepLast'

/-- Why a policy was rejected. -/
inductive PolicyError where
  | keepLastZero
  | keepLastBelowMinimum (keepLast keepMinimum : Nat)
deriving DecidableEq

/-- A policy, unless its ceiling is zero or below its floor. -/
def Policy.new (retention : Option Int) (keepMinimum : Nat) :
    Option Nat → Except PolicyError Policy
  | none => .ok ⟨retention, keepMinimum, none, by simp⟩
  | some keepLast =>
      if hzero : keepLast = 0 then .error .keepLastZero
      else if hbelow : keepLast < keepMinimum then
        .error (.keepLastBelowMinimum keepLast keepMinimum)
      else .ok ⟨retention, keepMinimum, some keepLast, by
        rintro _ ⟨⟩
        omega⟩

theorem Policy.keepMinimum_of_new {retention : Option Int} {keepMinimum : Nat}
    {keepLast : Option Nat} {policy : Policy}
    (h : Policy.new retention keepMinimum keepLast = .ok policy) :
    policy.keepMinimum = keepMinimum := by
  unfold new at h
  split at h
  · exact (congrArg Policy.keepMinimum (Except.ok.inj h)).symm
  · split at h
    · cases h
    · split at h
      · cases h
      · exact (congrArg Policy.keepMinimum (Except.ok.inj h)).symm

/-! ## The disk -/

/-- An entry of a directory: the components of the directory's canonical path, and a name. -/
structure Key where
  dir : List String
  name : String
deriving DecidableEq

/-- Whether an entry is hidden. -/
def Key.isHidden (key : Key) : Bool :=
  key.name.toList.head? == some '.'

/-- An entry's path, as a text. -/
def Key.display (key : Key) : String :=
  String.join (key.dir.map fun part => "/" ++ part) ++ "/" ++ key.name

/-- The entries of directories, each file with the time of its last modification, and the
canonical path of each directory. -/
structure Disk where
  dirs : List String → Option (List String)
  entries : List (Key × Node Key Int)
  nodup : (entries.map Prod.fst).Nodup

namespace Disk

/-- What stands under an entry. -/
def node (d : Disk) (key : Key) : Option (Node Key Int) :=
  d.entries.lookup key

/-- The canonical path of an entry. -/
def canonicalize (d : Disk) (key : Key) : Option Key :=
  Node.lead d.node Node.maxLinks key

/-- Whether an entry leads to a file. -/
def isFile (d : Disk) (key : Key) : Bool :=
  ((d.canonicalize key).bind d.node).any Node.isFile

/-- The modification time of the file an entry leads to. -/
def modified (d : Disk) (key : Key) : Option Int :=
  ((d.canonicalize key).bind d.node).bind fun
    | .file time => some time
    | _ => none

/-- A disk without some entries. -/
def without (d : Disk) (removed : List Key) : Disk where
  dirs := d.dirs
  entries := d.entries.filter fun e => e.1 ∉ removed
  nodup := d.nodup.sublist (List.filter_sublist.map _)

end Disk

/-! ## The archives of a directory -/

/-- One step of the matcher: the rest of the pattern, the rest of the name, and where the
last `*` was, with what it has left of the name. -/
structure Matching where
  pattern : List UInt8
  name : List UInt8
  star : Option (List UInt8 × List UInt8)

/-- Match a pattern against a name, in so many steps. -/
def matchFrom : Nat → Matching → Option Bool
  | 0, _ => none
  | _ + 1, ⟨pattern, [], _⟩ => some (pattern.all (· == '*'.toUInt8))
  | fuel + 1, ⟨pattern, byte :: name, star⟩ =>
      let backtrack :=
        match star with
        | none => some false
        | some (rest, left) => matchFrom fuel ⟨rest, left.tail, some (rest, left.tail)⟩
      match pattern with
      | [] => backtrack
      | first :: rest =>
          if first == '*'.toUInt8 then
            matchFrom fuel ⟨rest, byte :: name, some (rest, byte :: name)⟩
          else if first == '?'.toUInt8 || first == byte then matchFrom fuel ⟨rest, name, star⟩
          else backtrack

/-- How many steps are left to take, where names have at most so many bytes. -/
def Matching.measure (n : Nat) (m : Matching) : Nat :=
  match m.star with
  | none => (m.pattern.length + 1) * ((n + 1) * (n + 1)) + m.name.length
  | some (rest, left) =>
      rest.length * ((n + 1) * (n + 1)) + left.length * (n + 1) + m.name.length

/-- What is left of a pattern and of a name is not longer than at the last `*`. -/
def Matching.Within (n : Nat) (m : Matching) : Prop :=
  m.name.length ≤ n ∧ ∀ rest left, m.star = some (rest, left) →
    m.pattern.length ≤ rest.length ∧ m.name.length ≤ left.length ∧ left.length ≤ n

/-- The matcher comes to an end. -/
theorem matchFrom_isSome {n fuel : Nat} {m : Matching} (hwithin : m.Within n)
    (hfuel : m.measure n < fuel) : (matchFrom fuel m).isSome = true := by
  induction fuel generalizing m with
  | zero => exact absurd hfuel (Nat.not_lt_zero _)
  | succ fuel ih =>
      obtain ⟨pattern, name, star⟩ := m
      obtain ⟨hname, hstar⟩ := hwithin
      cases name with
      | nil => rfl
      | cons byte name =>
          simp only [List.length_cons] at hname hstar
          have hbacktrack : (match star with
              | none => some false
              | some (rest, left) =>
                  matchFrom fuel ⟨rest, left.tail, some (rest, left.tail)⟩).isSome = true := by
            cases star with
            | none => rfl
            | some at_ =>
                obtain ⟨rest, left⟩ := at_
                obtain ⟨-, hleft, hn⟩ := hstar rest left rfl
                cases left with
                | nil => simp at hleft
                | cons first left =>
                    simp only [List.length_cons] at hleft hn
                    refine ih ⟨by simp; omega, ?_⟩ ?_
                    · intro rest' left' heq
                      cases heq
                      exact ⟨le_rfl, le_rfl, by simp; omega⟩
                    · simp only [Matching.measure, List.length_cons, List.tail_cons] at hfuel ⊢
                      have hexpand :
                          (left.length + 1) * (n + 1) = left.length * (n + 1) + (n + 1) :=
                        Nat.succ_mul _ _
                      omega
          have hstep : ∀ rest, rest.length ≤ pattern.length →
              (matchFrom fuel ⟨rest, name, star⟩).isSome = true := by
            intro rest hrest
            refine ih ⟨by simp only; omega, ?_⟩ ?_
            · intro rest' left' heq
              obtain ⟨hpattern, hleft, hn⟩ := hstar rest' left' heq
              exact ⟨hrest.trans hpattern, by simp only; omega, hn⟩
            · cases star with
              | none =>
                  simp only [Matching.measure, List.length_cons] at hfuel ⊢
                  have hmono := Nat.mul_le_mul_right ((n + 1) * (n + 1))
                    (Nat.add_le_add_right hrest 1)
                  omega
              | some at_ =>
                  simp only [Matching.measure, List.length_cons] at hfuel ⊢
                  omega
          rw [matchFrom.eq_def]
          cases pattern with
          | nil => exact hbacktrack
          | cons first rest =>
              simp only
              split
              · refine ih ⟨by simpa using hname, ?_⟩ ?_
                · intro rest' left' heq
                  cases heq
                  exact ⟨le_rfl, le_rfl, by simpa using hname⟩
                · have hsquare : (n + 1) * (n + 1) = n * (n + 1) + (n + 1) := Nat.succ_mul _ _
                  have hbytes := Nat.mul_le_mul_right (n + 1) hname
                  cases star with
                  | none =>
                      simp only [Matching.measure, List.length_cons] at hfuel ⊢
                      have hexpand : (rest.length + 1 + 1) * ((n + 1) * (n + 1)) =
                          rest.length * ((n + 1) * (n + 1)) + (n + 1) * (n + 1) +
                            (n + 1) * (n + 1) := by
                        rw [Nat.succ_mul, Nat.succ_mul]
                      omega
                  | some at_ =>
                      obtain ⟨rest', left'⟩ := at_
                      obtain ⟨hpattern, -, -⟩ := hstar rest' left' rfl
                      simp only [Matching.measure, List.length_cons] at hfuel hpattern ⊢
                      have hmono := Nat.mul_le_mul_right ((n + 1) * (n + 1)) hpattern
                      have hexpand : (rest.length + 1) * ((n + 1) * (n + 1)) =
                          rest.length * ((n + 1) * (n + 1)) + (n + 1) * (n + 1) := Nat.succ_mul _ _
                      omega
              · split
                · exact hstep rest (by simp)
                · exact hbacktrack

/-- The bytes of a text. -/
def bytes (text : String) : List UInt8 :=
  text.toList.flatMap String.utf8EncodeChar

/-- Enough steps to match a pattern against a name. -/
def matchSteps (pattern name : List UInt8) : Nat :=
  (Matching.mk pattern name none).measure name.length + 1

/-- Whether a name matches a pattern: `*` is any run of characters, `?` any one. -/
def «matches» (pattern name : String) : Bool :=
  (matchFrom (matchSteps (bytes pattern) (bytes name))
    ⟨bytes pattern, bytes name, none⟩).getD false

/-- The matcher has enough steps. -/
theorem matchFrom_matchSteps (pattern name : List UInt8) :
    (matchFrom (matchSteps pattern name) ⟨pattern, name, none⟩).isSome = true :=
  matchFrom_isSome ⟨le_rfl, by simp⟩ (Nat.lt_succ_self _)

/-- A text before and after the last occurrence of a character. -/
def rsplitOnce (text : List Char) (sep : Char) : Option (List Char × List Char) :=
  let after := (text.reverse.takeWhile (· != sep)).reverse
  if sep ∈ text then some (text.take (text.length - after.length - 1), after) else none

/-- The timestamp just before the extension of a name. -/
def stampInName (name : String) : Option UtcStamp := do
  let (stem, _) ← rsplitOnce name.toList '.'
  let (_, stamp) ← rsplitOnce stem '-'
  UtcStamp.parse (String.ofList stamp)

/-- One archive a policy is applied to. -/
structure Candidate where
  path : Key
  takenAt : Int
deriving DecidableEq

/-- The archives in a directory that a retention entry applies to, and the matching links
that resolve outside the directory. -/
structure Corpus where
  candidates : List Candidate
  outside : List Key

namespace Disk

/-- Whether a path is below a directory. -/
def under (root : List String) (key : Key) : Bool :=
  root.isPrefixOf (key.dir ++ [key.name])

/-- Whether an entry of a directory is an archive: a file, or a link to a file within the
directory. -/
def isCandidate (d : Disk) (root : List String) (pattern : String) (key : Key)
    (node : Node Key Int) : Bool :=
  key.dir == root && !key.isHidden && «matches» pattern key.name &&
    match node with
    | .file _ => true
    | .other => false
    | .link _ => (d.canonicalize key).any (under root) && d.isFile key

/-- Whether an entry of a directory is a matching link that resolves outside it, or nowhere. -/
def isOutside (d : Disk) (root : List String) (pattern : String) (key : Key)
    (node : Node Key Int) : Bool :=
  key.dir == root && !key.isHidden && «matches» pattern key.name && node.isLink &&
    !(d.canonicalize key).any (under root)

/-- When an archive was taken: the timestamp of its name, or its modification time. -/
def takenAt (d : Disk) (key : Key) : Int :=
  match stampInName key.name with
  | some stamp => stamp.toSystemTime * 1000000000
  | none => (d.modified key).getD 0

/-- The files in a directory whose names match a pattern. A directory that does not exist or
cannot be read is an error. -/
def corpus (d : Disk) (unreadable : List String → Option String) (dir : List String)
    (pattern : String) : Except String Corpus :=
  match d.dirs dir with
  | none => .error "no such directory"
  | some root =>
      match unreadable root with
      | some error => .error error
      | none => .ok
          { candidates := (d.entries.filter fun e => d.isCandidate root pattern e.1 e.2).map
              fun e => ⟨e.1, d.takenAt e.1⟩
            outside := (d.entries.filter fun e => d.isOutside root pattern e.1 e.2).map Prod.fst }

end Disk

/-! ## Plans -/

/-- What a policy does to a set of archives. -/
structure Plan where
  remove : List Key
  keep : List Key
  exempt : List Key
  invalid : List (Key × String)
  unverifiable : List (Key × String)
  removedByCeiling : List Key
deriving DecidableEq

/-- Nothing is planned. -/
def Plan.empty : Plan :=
  ⟨[], [], [], [], [], []⟩

/-- What stays. -/
def Plan.kept (plan : Plan) : List Key :=
  plan.keep ++ plan.exempt

/-- Remove an archive, perhaps one that only the ceiling removes. -/
def Plan.drop (plan : Plan) (path : Key) (withinRetention : Bool) : Plan :=
  { plan with
    remove := plan.remove ++ [path]
    removedByCeiling := if withinRetention then plan.removedByCeiling ++ [path]
      else plan.removedByCeiling }

/-- Decide on one archive: the slots that are spent, and the plan. -/
def planOne (policy : Policy) (cutoff : Option Int) (verify : Key → Verdict)
    (state : Nat × Plan) (candidate : Candidate) : Nat × Plan :=
  let (slots, plan) := state
  let path := candidate.path
  let beyondCeiling := policy.keepLast.any fun keepLast => decide (keepLast ≤ slots)
  let withinRetention := cutoff.all fun cutoff => decide (cutoff ≤ candidate.takenAt)
  if withinRetention && !beyondCeiling then
    (slots + 1, { plan with keep := plan.keep ++ [path] })
  else if !beyondCeiling && decide (slots < policy.keepMinimum) then
    match verify path with
    | .invalid reason =>
        (slots, { plan with invalid := plan.invalid ++ [(path, reason)] }.drop path withinRetention)
    | .valid => (slots + 1, { plan with exempt := plan.exempt ++ [path] })
    | .unverifiable reason =>
        (slots + 1, { plan with
          unverifiable := plan.unverifiable ++ [(path, reason)]
          exempt := plan.exempt ++ [path] })
  else (slots, plan.drop path withinRetention)

/-- The archives, newest first. -/
def newestFirst (candidates : List Candidate) : List Candidate :=
  candidates.insertionSort fun a b => b.takenAt ≤ a.takenAt

/-- Apply a policy at a time. -/
def plan (candidates : List Candidate) (policy : Policy) (now : Int) (verify : Key → Verdict) :
    Plan :=
  ((newestFirst candidates).foldl
    (planOne policy (policy.retention.map (now - ·)) verify) (0, .empty)).2

/-- Whether a verdict is a rejection of the archive. -/
def Verdict.isInvalid : Verdict → Bool
  | .invalid _ => true
  | _ => false

/-- What deciding on an archive adds to a plan: it is kept and spends a slot, or it is removed,
and before the floor is reached only one that is rejected. -/
inductive Adds (policy : Policy) (verify : Key → Verdict) (path : Key) (slots : Nat) (plan : Plan) :
    Nat → Plan → Prop
  | kept (plan' : Plan) : plan'.kept.Perm (path :: plan.kept) → plan'.remove = plan.remove →
      Adds policy verify path slots plan (slots + 1) plan'
  | removed (plan' : Plan) : plan'.kept = plan.kept → plan'.remove = plan.remove ++ [path] →
      policy.keepMinimum ≤ slots ∨ (verify path).isInvalid = true →
      Adds policy verify path slots plan slots plan'

theorem planOne_adds (policy : Policy) (cutoff : Option Int) (verify : Key → Verdict)
    (slots : Nat) (plan : Plan) (candidate : Candidate) :
    Adds policy verify candidate.path slots plan
      (planOne policy cutoff verify (slots, plan) candidate).1
      (planOne policy cutoff verify (slots, plan) candidate).2 := by
  unfold planOne
  simp only
  split
  · refine .kept _ ?_ rfl
    simp [Plan.kept, List.perm_middle]
  next hkeep =>
    split
    next hfloor =>
      cases hverdict : verify candidate.path with
      | invalid reason => exact .removed _ rfl rfl (.inr (by rw [hverdict]; rfl))
      | valid =>
          refine .kept _ ?_ rfl
          simp only [Plan.kept, ← List.append_assoc]
          exact List.perm_append_singleton _ _
      | unverifiable reason =>
          refine .kept _ ?_ rfl
          simp only [Plan.kept, ← List.append_assoc]
          exact List.perm_append_singleton _ _
    next hfloor =>
      -- The ceiling is not below the floor.
      refine .removed _ rfl rfl (.inl ?_)
      by_contra hbelow
      have hnot : (policy.keepLast.any fun keepLast => decide (keepLast ≤ slots)) = false := by
        cases hlast : policy.keepLast with
        | none => rfl
        | some keepLast =>
            have hvalid := (policy.keepLast_valid keepLast hlast).2
            simp only [Option.any_some, decide_eq_false_iff_not]
            omega
      simp only [hnot, Bool.not_false, Bool.true_and, decide_eq_true_eq] at hfloor
      omega

/-- What a plan is after some archives: it spent a slot for each that it keeps, it keeps or
removes each, and it keeps as many as the floor asks for or all that are not rejected. -/
structure Planned (policy : Policy) (verify : Key → Verdict) (paths : List Key) (slots : Nat)
    (plan : Plan) : Prop where
  spent : plan.kept.length = slots
  perm : (plan.kept ++ plan.remove).Perm paths
  floor : min policy.keepMinimum (paths.countP fun path => !(verify path).isInvalid) ≤ slots

theorem Planned.add {policy : Policy} {verify : Key → Verdict} {paths : List Key}
    {slots slots' : Nat} {plan plan' : Plan} {path : Key}
    (h : Planned policy verify paths slots plan)
    (hadds : Adds policy verify path slots plan slots' plan') :
    Planned policy verify (path :: paths) slots' plan' := by
  cases hadds with
  | kept _ hkept hremove =>
      refine ⟨?_, ?_, ?_⟩
      · rw [hkept.length_eq, List.length_cons, h.spent]
      · rw [hremove]
        exact (hkept.append_right _).trans (h.perm.cons path)
      · have hcount : List.countP (fun path => !(verify path).isInvalid) (path :: paths) ≤
            List.countP (fun path => !(verify path).isInvalid) paths + 1 := by
          rw [List.countP_cons]
          split <;> omega
        have := h.floor
        omega
  | removed _ hkept hremove hwhy =>
      refine ⟨?_, ?_, ?_⟩
      · rw [hkept, h.spent]
      · rw [hkept, hremove, ← List.append_assoc]
        exact (List.perm_append_singleton _ _).trans (h.perm.cons path)
      · obtain hfull | hinvalid := hwhy
        · omega
        · rw [List.countP_cons_of_neg (by simp [hinvalid])]
          exact h.floor

/-- A plan keeps or removes each archive, and keeps as many as the floor asks for or all that
are not rejected. -/
theorem plan_planned (candidates : List Candidate) (policy : Policy) (now : Int)
    (verify : Key → Verdict) :
    Planned policy verify (candidates.map Candidate.path)
      (plan candidates policy now verify).kept.length (plan candidates policy now verify) := by
  have hfold : ∀ (todo : List Candidate) (done : List Key) (slots : Nat) (plan : Plan),
      Planned policy verify done slots plan →
      Planned policy verify (todo.reverse.map Candidate.path ++ done)
        (todo.foldl (planOne policy (policy.retention.map (now - ·)) verify) (slots, plan)).1
        (todo.foldl (planOne policy (policy.retention.map (now - ·)) verify) (slots, plan)).2 := by
    intro todo
    induction todo with
    | nil => exact fun done slots plan h => h
    | cons candidate todo ih =>
        intro done slots plan h
        have hnext := ih _ _ _ (h.add
          (planOne_adds policy (policy.retention.map (now - ·)) verify slots plan candidate))
        simpa using hnext
  have hplanned := hfold (newestFirst candidates) [] 0 .empty ⟨rfl, .refl _, by simp⟩
  have hperm : ((newestFirst candidates).reverse.map Candidate.path).Perm
      (candidates.map Candidate.path) :=
    ((List.reverse_perm _).trans (List.perm_insertionSort _ _)).map _
  rw [List.append_nil] at hplanned
  refine ⟨rfl, hplanned.perm.trans hperm, ?_⟩
  rw [← hperm.countP_eq]
  exact hplanned.spent ▸ hplanned.floor

/-! ## Carrying a plan out -/

namespace Disk

/-- Whether an archive reads back. -/
def verify (d : Disk) (pgRestore : String) (tool : Key → Except String Outcome) (key : Key) :
    Verdict :=
  if d.isFile key then verdictOf pgRestore (tool key) else notThere key.display

/-- Remove one archive, if it is still an entry of the directory that resolves inside it. -/
def removeOne (stuck : Key → Option String) (root : List String) :
    Disk × List (Key × String) → Key → Disk × List (Key × String)
  | (d, left), archive =>
      if archive.dir = root then
        match d.canonicalize archive with
        | none => (d, left ++ [(archive, "no such file")])
        | some target =>
            if under root target then
              match stuck archive with
              | some error => (d, left ++ [(archive, error)])
              | none => (d.without [archive], left)
            else
              (d, left ++ [(archive, s!"it resolves to {target.display}, outside the directory")])
      else (d, left ++ [(archive, "it is not directly in the directory")])

/-- Remove archives from a directory: what is left in place, and why. -/
def remove (d : Disk) (stuck : Key → Option String) (dir : List String) (archives : List Key) :
    Disk × List (Key × String) :=
  match d.dirs dir with
  | none => (d, archives.map fun archive => (archive, "no such directory"))
  | some root => archives.foldl (removeOne stuck root) (d, [])

/-! ## Fewer entries -/

@[simp] theorem dirs_without (d : Disk) (removed : List Key) : (d.without removed).dirs = d.dirs :=
  rfl

theorem node_without (d : Disk) (removed : List Key) (key : Key) :
    (d.without removed).node key = if key ∈ removed then none else d.node key := by
  have hlookup := lookup_filter_key d.entries (fun key => decide (key ∉ removed)) key
  by_cases hkey : key ∈ removed <;> simpa [node, without, hkey] using hlookup

theorem without_nil (d : Disk) : d.without [] = d := by
  cases d
  simp [without]

theorem without_without (d : Disk) (removed removed' : List Key) :
    (d.without removed).without removed' = d.without (removed ++ removed') := by
  simp only [without, List.filter_filter, mk.injEq, true_and]
  refine List.filter_congr fun e _ => ?_
  simp [not_or, Bool.and_comm]

/-- One archive is left in place, or it is taken away. -/
theorem exists_removeOne (d : Disk) (stuck : Key → Option String) (root : List String)
    (left : List (Key × String)) (archive : Key) :
    ∃ removed, removed ⊆ [archive] ∧ ∃ left',
      removeOne stuck root (d, left) archive = (d.without removed, left') := by
  have hstays : ∀ left' : List (Key × String), ∃ removed, removed ⊆ [archive] ∧ ∃ left'',
      (d, left') = (d.without removed, left'') :=
    fun left' => ⟨[], List.nil_subset _, left', by rw [without_nil]⟩
  rw [removeOne]
  split
  · split
    · exact hstays _
    · split
      · split
        · exact hstays _
        · exact ⟨[archive], List.Subset.refl _, _, rfl⟩
      · exact hstays _
  · exact hstays _

/-- Removing archives takes some of them away. -/
theorem exists_remove (d : Disk) (stuck : Key → Option String) (dir : List String)
    (archives : List Key) :
    ∃ removed, removed ⊆ archives ∧ (d.remove stuck dir archives).1 = d.without removed := by
  unfold remove
  cases d.dirs dir with
  | none => exact ⟨[], List.nil_subset _, (without_nil d).symm⟩
  | some root =>
      have hfold : ∀ (todo : List Key) (d : Disk) (left : List (Key × String)),
          ∃ removed, removed ⊆ todo ∧
            (todo.foldl (removeOne stuck root) (d, left)).1 = d.without removed := by
        intro todo
        induction todo with
        | nil => exact fun d left => ⟨[], List.nil_subset _, (without_nil d).symm⟩
        | cons archive todo ih =>
            intro d left
            obtain ⟨first, hfirst, left', heq⟩ := exists_removeOne d stuck root left archive
            obtain ⟨removed, hsubset, hrest⟩ := ih (d.without first) left'
            refine ⟨first ++ removed, ?_, ?_⟩
            · exact List.append_subset.mpr
                ⟨fun key hkey => by simp [List.mem_singleton.mp (hfirst hkey)],
                  fun key hkey => List.mem_cons_of_mem _ (hsubset hkey)⟩
            · rw [List.foldl_cons, heq, hrest, without_without]
      exact hfold archives d []

/-- The archives in a directory that a pattern selects. -/
def archives (d : Disk) (root : List String) (pattern : String) : List Key :=
  (d.entries.filter fun e => d.isCandidate root pattern e.1 e.2).map Prod.fst

theorem nodup_archives (d : Disk) (root : List String) (pattern : String) :
    (d.archives root pattern).Nodup :=
  d.nodup.sublist (List.filter_sublist.map _)

theorem mem_archives {d : Disk} {root : List String} {pattern : String} {key : Key} :
    key ∈ d.archives root pattern ↔
      ∃ node, d.node key = some node ∧ d.isCandidate root pattern key node = true := by
  constructor
  · intro h
    obtain ⟨e, he, rfl⟩ := List.mem_map.mp h
    obtain ⟨hmem, hcandidate⟩ := List.mem_filter.mp he
    exact ⟨e.2, lookup_of_mem d.nodup hmem, hcandidate⟩
  · intro h
    obtain ⟨node, hnode, hcandidate⟩ := h
    exact List.mem_map.mpr
      ⟨(key, node), List.mem_filter.mpr ⟨mem_of_lookup_eq_some hnode, hcandidate⟩, rfl⟩

/-- The entries that following the links of an entry passes. -/
def trail (d : Disk) (key : Key) : List Key :=
  Node.trail d.node Node.maxLinks key

theorem isFile_of_mem_archives {d : Disk} {root : List String} {pattern : String} {key : Key}
    (h : key ∈ d.archives root pattern) : d.isFile key = true := by
  obtain ⟨node, hnode, hcandidate⟩ := mem_archives.mp h
  unfold isCandidate at hcandidate
  rw [Bool.and_eq_true] at hcandidate
  cases node with
  | file time =>
      have hlead : d.canonicalize key = some key := by
        rw [canonicalize, Node.maxLinks, Node.lead, hnode]
      rw [isFile, hlead, Option.bind_some, hnode]
      rfl
  | other => cases hcandidate.2
  | link target => exact (Bool.and_eq_true_iff.mp hcandidate.2).2

section Without

variable {d : Disk} {removed : List Key} {root : List String} {pattern : String} {key : Key}

theorem canonicalize_without (h : ∀ x ∈ d.trail key, x ∉ removed) :
    (d.without removed).canonicalize key = d.canonicalize key := by
  refine Node.lead_congr fun x hx => ?_
  rw [node_without, if_neg (h x hx)]

theorem isFile_without (h : ∀ x ∈ d.trail key, x ∉ removed) :
    (d.without removed).isFile key = d.isFile key := by
  rw [isFile, isFile, canonicalize_without h]
  cases hlead : d.canonicalize key with
  | none => rfl
  | some target =>
      rw [Option.bind_some, Option.bind_some, node_without,
        if_neg (h target (Node.lead_mem_trail hlead))]

/-- What is left leads where it led. -/
theorem canonicalize_of_without {target : Key}
    (h : (d.without removed).canonicalize key = some target) :
    d.canonicalize key = some target := by
  refine Node.lead_of_removed (fun x => ?_) h
  rw [node_without]
  split
  · exact .inr rfl
  · exact .inl rfl

theorem isFile_of_without (h : (d.without removed).isFile key = true) : d.isFile key = true := by
  rw [isFile] at h ⊢
  cases hlead : (d.without removed).canonicalize key with
  | none => simp [hlead] at h
  | some target =>
      rw [hlead, Option.bind_some, node_without] at h
      rw [canonicalize_of_without hlead, Option.bind_some]
      split at h
      · cases h
      · exact h

/-- An archive whose trail is left is one. -/
theorem mem_archives_without (hkey : key ∈ d.archives root pattern)
    (h : ∀ x ∈ d.trail key, x ∉ removed) : key ∈ (d.without removed).archives root pattern := by
  obtain ⟨node, hnode, hcandidate⟩ := mem_archives.mp hkey
  refine mem_archives.mpr ⟨node, ?_, ?_⟩
  · rw [node_without, if_neg (h key (Node.mem_trail_self _ key)), hnode]
  · unfold isCandidate at hcandidate ⊢
    rw [canonicalize_without h, isFile_without h]
    exact hcandidate

/-- No archive appears where entries are only taken away. -/
theorem mem_archives_of_without (hkey : key ∈ (d.without removed).archives root pattern) :
    key ∈ d.archives root pattern := by
  obtain ⟨node, hnode, hcandidate⟩ := mem_archives.mp hkey
  rw [node_without] at hnode
  split at hnode
  · cases hnode
  · refine mem_archives.mpr ⟨node, hnode, ?_⟩
    unfold isCandidate at hcandidate ⊢
    rw [Bool.and_eq_true] at hcandidate ⊢
    refine ⟨hcandidate.1, ?_⟩
    cases node with
    | link target =>
        have hlink := hcandidate.2
        simp only [Bool.and_eq_true] at hlink ⊢
        obtain ⟨hunder, hfile⟩ := hlink
        refine ⟨?_, isFile_of_without hfile⟩
        cases hlead : (d.without removed).canonicalize key with
        | none => simp [hlead] at hunder
        | some target =>
            rw [canonicalize_of_without hlead]
            rwa [hlead] at hunder
    | _ => exact hcandidate.2

end Without

end Disk

end Fraisier.Db
