import Fraisier.Config.Stack
import Fraisier.Data.Dependencies

/-!
# Which members deploy, and in which order

`deployOrder` keeps the members that are ready in a sorted set and takes the first one again
and again. The set is at all times what `Open` says of the dependencies (`Queue`), so that the
order is the greedy one. The main theorem is `deployOrder_correct`.
-/

namespace Fraisier.Config

open Fraisier.Data Relation

/-- A member depends on another one. Names that are no members do not count. -/
def DependsOn (members : Graph) (name other : String) : Prop :=
  (∃ member ∈ members, member.1 = name ∧ other ∈ member.2) ∧ other ∈ members.map Prod.fst

/-- The names at positions. -/
def namesAt (members : Graph) (order : List Nat) : List String :=
  order.filterMap fun i => members[i]?.map Prod.fst

/-- The next member that is placed after others. -/
def NextOpen (members : Graph) : List String → String → Prop :=
  Open (· ∈ members.map Prod.fst) (DependsOn members)

theorem pairwise_insertName {set : List String} (h : set.Pairwise (· ≤ ·)) (name : String) :
    (insertName set name).Pairwise (· ≤ ·) := by
  rw [insertName]
  split
  · exact h
  · exact h.orderedInsert name _

section Queue

variable {members waiting : Graph} {done ready : List String} {next : String}

theorem pairwise_release (h : ready.Pairwise (· ≤ ·)) :
    (release next waiting ready).2.Pairwise (· ≤ ·) := by
  induction waiting generalizing ready with
  | nil => exact h
  | cons member waiting ih =>
      refine ih ?_
      split
      · exact pairwise_insertName h _
      · exact h

theorem pairwise_ready (waiting : Graph) : (Config.ready waiting).Pairwise (· ≤ ·) := by
  have hfold : ∀ (free : Graph) (set : List String), set.Pairwise (· ≤ ·) →
      (free.foldl (fun set member => insertName set member.1) set).Pairwise (· ≤ ·) := by
    intro free
    induction free with
    | nil => exact fun set h => h
    | cons member free ih => exact fun set h => ih _ (pairwise_insertName h _)
  exact hfold _ _ List.Pairwise.nil

/-- Everything that waits for nothing is placed or ready, and the ready names are sorted. -/
structure Queue (members : Graph) (done : List String) (waiting : Graph) (ready : List String) :
    Prop extends Waits members done waiting ready where
  names : waiting.map Prod.fst = members.map Prod.fst
  sorted : ready.Pairwise (· ≤ ·)
  complete : ∀ w ∈ waiting, w.2 = [] → w.1 ∈ done ∨ w.1 ∈ ready

theorem queue_start (hdistinct : (members.map Prod.fst).Nodup) :
    Queue members [] (Config.waiting members) (Config.ready (Config.waiting members)) where
  toWaits := waits_start members hdistinct
  names := by simp [Config.waiting, Function.comp_def]
  sorted := pairwise_ready _
  complete := fun w hw hempty => .inr (mem_ready.mpr ⟨w, hw, rfl, hempty⟩)

theorem Queue.release (h : Queue members done waiting (next :: ready)) :
    Queue members (done ++ [next]) (release next waiting ready).1 (release next waiting ready).2
    where
  toWaits := h.toWaits.release
  names := by
    rw [release_fst, ← h.names]
    simp [Function.comp_def]
  sorted := pairwise_release (List.pairwise_cons.mp h.sorted).2
  complete := by
    intro w hw hempty
    rw [release_fst] at hw
    obtain ⟨v, hv, rfl⟩ := List.mem_map.mp hw
    by_cases hnext : next ∈ v.2
    · exact .inr (mem_release_snd.mpr (.inr ⟨v, hv, rfl, hnext, hempty⟩))
    · -- It waited for nothing before either.
      have hleft : v.2 = [] := by
        rw [← hempty]
        refine (List.filter_eq_self.mpr fun d hd => ?_).symm
        exact bne_iff_ne.mpr fun heq => hnext (heq ▸ hd)
      obtain hdone | hready := h.complete v hv hleft
      · exact .inl (List.mem_append_left _ hdone)
      · obtain heq | hready := List.mem_cons.mp hready
        · exact .inl (List.mem_append_right _ (List.mem_singleton.mpr heq))
        · exact .inr (mem_release_snd.mpr (.inl hready))

/-- The ready names are the members that can be placed next. -/
theorem Queue.mem_ready_iff (h : Queue members done waiting ready) {name : String} :
    name ∈ ready ↔ NextOpen members done name := by
  constructor
  · intro hname
    obtain ⟨hdone, w, hw, rfl, hempty⟩ := h.free name hname
    refine ⟨h.known w hw, hdone, ?_⟩
    rintro other ⟨⟨member, hmember, hfst, hon⟩, hknown⟩
    by_contra hnot
    have hwaits := (h.waits w hw member hmember hfst other).mpr ⟨hon, hknown, hnot⟩
    rw [hempty] at hwaits
    cases hwaits
  · rintro ⟨hknown, hdone, hon⟩
    rw [← h.names] at hknown
    obtain ⟨w, hw, rfl⟩ := List.mem_map.mp hknown
    obtain ⟨member, hmember, hfst⟩ := List.mem_map.mp (h.known w hw)
    have hempty : w.2 = [] := by
      refine List.eq_nil_iff_forall_not_mem.mpr fun d hd => ?_
      obtain ⟨hd, hknown, hnot⟩ := (h.waits w hw member hmember hfst d).mp hd
      exact hnot (hon d ⟨⟨member, hmember, hfst, hd⟩, hknown⟩)
    exact (h.complete w hw hempty).resolve_left hdone

/-- The loop places the least member that can be placed, until there is none. -/
theorem Queue.greedy (h : Queue members done waiting ready) {fuel : Nat}
    (hfuel : roundsLeft waiting ready ≤ fuel) :
    Greedy (· ∈ members.map Prod.fst) (DependsOn members) done (placeReady fuel waiting ready) ∧
      ∀ name, ¬ NextOpen members (done ++ placeReady fuel waiting ready) name := by
  induction fuel generalizing done waiting ready with
  | zero =>
      obtain rfl : ready = [] := List.length_eq_zero_iff.mp (by
        rw [roundsLeft] at hfuel
        omega)
      refine ⟨trivial, fun name hname => ?_⟩
      rw [placeReady, List.append_nil, ← h.mem_ready_iff] at hname
      cases hname
  | succ fuel ih =>
      cases ready with
      | nil =>
          refine ⟨trivial, fun name hname => ?_⟩
          rw [placeReady, List.append_nil, ← h.mem_ready_iff] at hname
          cases hname
      | cons next ready =>
          have hrounds : roundsLeft (Config.release next waiting ready).1
              (Config.release next waiting ready).2 ≤ fuel := by
            have hle := @roundsLeft_release_le next waiting ready
            simp only [roundsLeft, List.length_cons] at hfuel hle ⊢
            omega
          obtain ⟨hgreedy, hend⟩ := ih h.release hrounds
          refine ⟨⟨h.mem_ready_iff.mp List.mem_cons_self, fun name hname => ?_, hgreedy⟩, ?_⟩
          · obtain rfl | hready := List.mem_cons.mp (h.mem_ready_iff.mpr hname)
            · exact le_rfl
            · exact (List.pairwise_cons.mp h.sorted).1 name hready
          · simpa [placeReady] using hend

end Queue

section Placed

variable {members : Graph} (hdistinct : (members.map Prod.fst).Nodup)
include hdistinct

/-- The names are placed greedily, until none can be. -/
theorem placed_greedy :
    Greedy (· ∈ members.map Prod.fst) (DependsOn members) [] (placed members) ∧
      ∀ name, ¬ NextOpen members (placed members) name :=
  (queue_start hdistinct).greedy (roundsLeft_waiting_le members)

/-- A member is placed unless it is on a cycle or leads to one. -/
theorem mem_placed_iff {name : String} (hname : name ∈ members.map Prod.fst) :
    name ∈ placed members ↔ ¬ LeadsToCycle (DependsOn members) name := by
  obtain ⟨hgreedy, hend⟩ := placed_greedy hdistinct
  exact hgreedy.mem_iff hend (List.finite_toSet _) (fun _ _ h => h.2) hname

theorem nodup_placed : (placed members).Nodup :=
  (placed_greedy hdistinct).1.nodup List.nodup_nil

theorem placed_subset : placed members ⊆ members.map Prod.fst :=
  fun _ hname => (placed_greedy hdistinct).1.items_of_mem hname

theorem namesAt_placed : namesAt members ((placed members).filterMap (index members)) =
    placed members := by
  have hat : ∀ name ∈ placed members,
      ((index members name).bind fun i => members[i]?.map Prod.fst) = some name :=
    fun name hname => name_index (placed_subset hdistinct hname)
  rw [namesAt, List.filterMap_filterMap, List.filterMap_congr hat, List.filterMap_some]

theorem length_filterMap_placed :
    ((placed members).filterMap (index members)).length = (placed members).length := by
  have hle := List.length_filterMap_le (index members) (placed members)
  have hnames := List.length_filterMap_le (fun i => members[i]?.map Prod.fst)
    ((placed members).filterMap (index members))
  rw [← namesAt, namesAt_placed hdistinct] at hnames
  omega

/-- The position of a member is in the order exactly if its name is placed. -/
theorem mem_filterMap_placed {member : String × List String} {i : Nat}
    (hi : members[i]? = some member) :
    i ∈ (placed members).filterMap (index members) ↔ member.1 ∈ placed members := by
  constructor
  · intro h
    obtain ⟨name, hname, hindex⟩ := List.mem_filterMap.mp h
    obtain ⟨entry, hentry, rfl⟩ := index_eq_some hindex
    rw [hi] at hentry
    rwa [Option.some.inj hentry]
  · intro h
    obtain ⟨j, hj⟩ := exists_index (placed_subset hdistinct h)
    obtain ⟨entry, hentry, hfst⟩ := index_eq_some hj
    have hi' : (members.map Prod.fst)[i]? = some member.1 := by rw [List.getElem?_map, hi]; rfl
    have hj' : (members.map Prod.fst)[j]? = some member.1 := by
      rw [List.getElem?_map, hentry, Option.map_some, hfst]
    have heq : i = j := (List.getElem?_inj (List.getElem?_eq_some_iff.mp hi').1 hdistinct).mp
      (hi'.trans hj'.symm)
    exact List.mem_filterMap.mpr ⟨member.1, h, heq ▸ hj⟩

/-- All members are placed exactly if no member is on a cycle. -/
theorem length_placed_iff : (placed members).length = members.length ↔
    ∀ name, ¬ TransGen (DependsOn members) name name := by
  have hall : (placed members).length = members.length ↔
      ∀ name ∈ members.map Prod.fst, name ∈ placed members := by
    have hsubperm := List.subperm_of_subset (nodup_placed hdistinct) (placed_subset hdistinct)
    constructor
    · intro hlength name hname
      have hperm := hsubperm.perm_of_length_le (by rw [List.length_map, hlength])
      exact hperm.mem_iff.mpr hname
    · intro h
      have hle := (List.subperm_of_subset hdistinct h).length_le
      have hge := hsubperm.length_le
      rw [List.length_map] at hle hge
      omega
  rw [hall]
  constructor
  · intro h name hcycle
    have hname : name ∈ members.map Prod.fst := by
      obtain ⟨other, -, hlast⟩ := TransGen.tail'_iff.mp hcycle
      exact hlast.2
    exact (mem_placed_iff hdistinct hname).mp (h name hname) (leadsToCycle_of_transGen hcycle)
  · rintro h name hname
    refine (mem_placed_iff hdistinct hname).mpr ?_
    rintro ⟨other, -, hcycle⟩
    exact h other hcycle

/-- The order is made of the names that are placed, if all members are. -/
theorem deployOrder_eq_ok_iff {order : List Nat} : deployOrder members = .ok order ↔
    (placed members).length = members.length ∧
      order = (placed members).filterMap (index members) := by
  simp only [deployOrder]
  rw [length_filterMap_placed hdistinct]
  by_cases h : (placed members).length = members.length
  · rw [if_pos h]
    exact ⟨fun hok => ⟨h, (Except.ok.inj hok).symm⟩, fun hok => congrArg _ hok.2.symm⟩
  · rw [if_neg h]
    exact ⟨fun hok => (by cases hok), fun hok => absurd hok.1 h⟩

/-- The order of members that are listed in another order. -/
theorem placed_perm_eq {members' : Graph} (hperm : members'.Perm members) :
    placed members' = placed members := by
  have hnames : (members'.map Prod.fst).Perm (members.map Prod.fst) := hperm.map _
  have hdepends : DependsOn members' = DependsOn members := by
    funext name other
    simp only [DependsOn, hperm.mem_iff, hnames.mem_iff]
  have hitems : (· ∈ members'.map Prod.fst) = (· ∈ members.map Prod.fst) := by
    funext name
    rw [hnames.mem_iff]
  obtain ⟨hgreedy, hend⟩ := placed_greedy hdistinct
  obtain ⟨hgreedy', hend'⟩ := placed_greedy (hnames.nodup_iff.mpr hdistinct)
  simp only [NextOpen, hdepends, hitems] at hgreedy' hend' hend
  exact hgreedy'.unique hgreedy hend' hend

theorem exists_order_iff : (∃ order, deployOrder members = .ok order) ↔
    ∀ name, ¬ TransGen (DependsOn members) name name := by
  rw [← length_placed_iff hdistinct]
  constructor
  · rintro ⟨order, hok⟩
    exact ((deployOrder_eq_ok_iff hdistinct).mp hok).1
  · intro h
    exact ⟨_, (deployOrder_eq_ok_iff hdistinct).mpr ⟨h, rfl⟩⟩

/-- The positions of an order are those of all members. -/
theorem order_perm_range {order : List Nat} (hok : deployOrder members = .ok order) :
    order.Perm (List.range members.length) := by
  obtain ⟨hlength, rfl⟩ := (deployOrder_eq_ok_iff hdistinct).mp hok
  have hpositions : (placed members).filterMap (index members) ⊆ List.range members.length := by
    intro i hi
    obtain ⟨name, -, hindex⟩ := List.mem_filterMap.mp hi
    obtain ⟨entry, hentry, -⟩ := index_eq_some hindex
    exact List.mem_range.mpr (List.getElem?_eq_some_iff.mp hentry).1
  refine (List.subperm_of_subset (nodup_filterMap_index (nodup_placed hdistinct))
    hpositions).perm_of_length_le ?_
  rw [length_filterMap_placed hdistinct, hlength, List.length_range]

/-- Without an order, the names that are not placed are the error. -/
theorem stuck_of_error {stuck : List String} (herror : deployOrder members = .error stuck) :
    stuck.Pairwise (· < ·) ∧ ∀ name, name ∈ stuck ↔
      name ∈ members.map Prod.fst ∧ LeadsToCycle (DependsOn members) name := by
  simp only [deployOrder] at herror
  split at herror
  · cases herror
  cases herror
  refine ⟨?_, fun name => (List.mem_insertionSort _).trans ⟨fun h => ?_, ?_⟩⟩
  · have hall : (members.zipIdx.map Prod.fst).map Prod.fst = members.map Prod.fst := by
      rw [List.zipIdx_map_fst]
    rw [List.map_map] at hall
    have hnodup : (members.zipIdx.map fun entry => entry.1.1).Nodup := by
      rw [← hall] at hdistinct
      exact hdistinct
    refine ((List.pairwise_insertionSort _ _).and ((List.perm_insertionSort _ _).nodup_iff.mpr
      (hnodup.sublist (List.filter_sublist.map _)))).imp ?_
    rintro first second ⟨hle, hne⟩
    exact lt_of_le_of_ne hle hne
  · obtain ⟨⟨member, i⟩, hentry, rfl⟩ := List.mem_map.mp h
    obtain ⟨hentry, hfresh⟩ := List.mem_filter.mp hentry
    have hi := List.mem_zipIdx_iff_getElem?.mp hentry
    have hname := List.mem_map_of_mem (f := Prod.fst) (List.mem_of_getElem? hi)
    refine ⟨hname, ?_⟩
    by_contra hcycle
    exact of_decide_eq_true hfresh ((mem_filterMap_placed hdistinct hi).mpr
      ((mem_placed_iff hdistinct hname).mpr hcycle))
  · rintro ⟨hname, hcycle⟩
    obtain ⟨member, hmember, rfl⟩ := List.mem_map.mp hname
    obtain ⟨i, hi⟩ := List.mem_iff_getElem?.mp hmember
    refine List.mem_map.mpr ⟨(member, i), List.mem_filter.mpr
      ⟨List.mem_zipIdx_iff_getElem?.mpr hi, decide_eq_true fun hin => ?_⟩, rfl⟩
    exact (mem_placed_iff hdistinct hname).mp ((mem_filterMap_placed hdistinct hi).mp hin) hcycle

end Placed

/-- The order of members with distinct names exists unless their dependencies have a cycle. It
is the positions of all members, each the first name of those whose dependencies were before, and
its names do not depend on how the members are listed. Without an order, the members that are on
a cycle or lead to one are named, sorted. -/
theorem deployOrder_correct (members : Graph) (hdistinct : (members.map Prod.fst).Nodup) :
    ((∃ order, deployOrder members = .ok order) ↔
      ∀ name, ¬ TransGen (DependsOn members) name name) ∧
    (∀ order, deployOrder members = .ok order →
      order.Perm (List.range members.length) ∧
      (∀ before name after, namesAt members order = before ++ name :: after →
        (∀ other, DependsOn members name other → other ∈ before) ∧
        ∀ other ∈ members.map Prod.fst, other ∉ before →
          (∀ dependency, DependsOn members other dependency → dependency ∈ before) →
          name ≤ other) ∧
      ∀ members' : Graph, members'.Perm members → ∃ order',
        deployOrder members' = .ok order' ∧ namesAt members' order' = namesAt members order) ∧
    ∀ stuck, deployOrder members = .error stuck → stuck.Pairwise (· < ·) ∧
      ∀ name, name ∈ stuck ↔
        name ∈ members.map Prod.fst ∧ LeadsToCycle (DependsOn members) name := by
  refine ⟨exists_order_iff hdistinct, fun order hok => ⟨order_perm_range hdistinct hok, ?_, ?_⟩,
    fun stuck herror => stuck_of_error hdistinct herror⟩
  · intro before name after hsplit
    obtain ⟨-, rfl⟩ := (deployOrder_eq_ok_iff hdistinct).mp hok
    rw [namesAt_placed hdistinct] at hsplit
    obtain ⟨hopen, hleast⟩ := (placed_greedy hdistinct).1.split hsplit
    exact ⟨hopen.2.2, fun other hother hfresh hon => hleast other ⟨hother, hfresh, hon⟩⟩
  · intro members' hperm
    obtain ⟨hlength, rfl⟩ := (deployOrder_eq_ok_iff hdistinct).mp hok
    have hdistinct' : (members'.map Prod.fst).Nodup :=
      (hperm.map Prod.fst).nodup_iff.mpr hdistinct
    have hplaced := placed_perm_eq hdistinct hperm
    refine ⟨_, (deployOrder_eq_ok_iff hdistinct').mpr ⟨?_, rfl⟩, ?_⟩
    · rw [hplaced, hlength, hperm.length_eq]
    · rw [namesAt_placed hdistinct', namesAt_placed hdistinct, hplaced]

/-- Two members, one with an unknown dependency and one that it names twice. -/
theorem deployOrder_correct_two :
    let members : Graph := [("router", ["db", "cdn", "db"]), ("db", [])]
    deployOrder members = .ok [1, 0] ∧ [1, 0].Perm (List.range members.length) := by
  intro members
  have hok : deployOrder members = .ok [1, 0] := by decide
  exact ⟨hok, ((deployOrder_correct members (by decide)).2.1 [1, 0] hok).1⟩

end Fraisier.Config
