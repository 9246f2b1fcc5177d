import Fraisier.Db.RetentionPlan

/-!
# When the floor is made of archives that read back

A young archive takes a slot of the floor without being verified. `plan_keeps_valid_iff` says
when the plan nevertheless removes none of the newest archives that read back, as many as the
floor asks for: it depends on how many of the young archives that the ceiling leaves read back.
-/

namespace Fraisier.Db

open Fraisier.Data

/-! ## The archives that stay -/

/-- What stays of some archives, newest first. -/
def stayers (decided : List (Candidate × Fate)) : List Candidate :=
  (decided.filter fun e => e.2.stays).map Prod.fst

/-- What goes. -/
def leavers (decided : List (Candidate × Fate)) : List Candidate :=
  (decided.filter fun e => !e.2.stays).map Prod.fst

/-- Whether an archive reads back. -/
def readsBack (verify : Key → Verdict) (candidate : Candidate) : Bool :=
  decide (verify candidate.path = .valid)

/-- What the ceiling leaves of some archives when so many slots are spent. -/
def Policy.capped (policy : Policy) (slots : Nat) (candidates : List Candidate) :
    List Candidate :=
  match policy.keepLast with
  | none => candidates
  | some keepLast => candidates.take (keepLast - slots)

section Stayers

variable {policy : Policy} {cutoff : Option Int} {verify : Key → Verdict} {slots : Nat}
variable {candidates : List Candidate}

theorem stayers_cons (candidate : Candidate) (fate : Fate) (decided : List (Candidate × Fate)) :
    stayers ((candidate, fate) :: decided) =
      if fate.stays then candidate :: stayers decided else stayers decided := by
  unfold stayers
  cases hstays : fate.stays <;> simp [hstays]

theorem stayers_append (decided decided' : List (Candidate × Fate)) :
    stayers (decided ++ decided') = stayers decided ++ stayers decided' := by
  simp [stayers]

theorem spent_eq_stayers (slots : Nat) (decided : List (Candidate × Fate)) :
    spent slots decided = slots + (stayers decided).length := by
  rw [spent, stayers, List.length_map, List.countP_eq_length_filter]

theorem fates_append (slots : Nat) (newer older : List Candidate) :
    fates policy cutoff verify slots (newer ++ older) =
      fates policy cutoff verify slots newer ++
        fates policy cutoff verify (spent slots (fates policy cutoff verify slots newer))
          older := by
  induction newer generalizing slots with
  | nil => rfl
  | cons candidate newer ih =>
      rw [List.cons_append, fates, fates, ih, List.cons_append, spent_cons]

theorem Policy.capped_of_isFull (hfull : policy.isFull slots = true) :
    policy.capped slots candidates = [] := by
  unfold capped
  cases hlast : policy.keepLast with
  | none => simp [isFull, hlast] at hfull
  | some keepLast =>
      have hle : keepLast ≤ slots := by simpa [isFull, hlast] using hfull
      show candidates.take (keepLast - slots) = []
      rw [Nat.sub_eq_zero_of_le hle, List.take_zero]

theorem Policy.capped_cons (hfull : policy.isFull slots = false) (candidate : Candidate) :
    policy.capped slots (candidate :: candidates) =
      candidate :: policy.capped (slots + 1) candidates := by
  unfold capped
  cases hlast : policy.keepLast with
  | none => rfl
  | some keepLast =>
      have hlt : slots < keepLast := by simpa [isFull, hlast] using hfull
      show (candidate :: candidates).take (keepLast - slots) = _
      rw [show keepLast - slots = (keepLast - (slots + 1)) + 1 by omega, List.take_succ_cons]

/-- Of young archives those stay that the ceiling leaves. -/
theorem stayers_young (hyoung : ∀ candidate ∈ candidates, isYoung cutoff candidate = true) :
    stayers (fates policy cutoff verify slots candidates) = policy.capped slots candidates := by
  induction candidates generalizing slots with
  | nil =>
      unfold Policy.capped
      cases policy.keepLast with
      | none => rfl
      | some keepLast => exact List.take_nil.symm
  | cons candidate candidates ih =>
      obtain ⟨hfirst, hrest⟩ := List.forall_mem_cons.mp hyoung
      rw [fates, stayers_cons]
      cases hfull : policy.isFull slots with
      | false =>
          have hfate : fateOf policy cutoff verify slots candidate = .keep := by
            simp [fateOf, hfirst, hfull]
          rw [hfate, Policy.capped_cons hfull]
          exact congrArg (candidate :: ·) (ih hrest)
      | true =>
          have hfate : fateOf policy cutoff verify slots candidate = .drop true := by
            simp [fateOf, hfirst, hfull]
          rw [hfate, Policy.capped_of_isFull hfull]
          exact (ih hrest).trans (Policy.capped_of_isFull hfull)

/-- Of old archives those stay that read back, newest first, until the floor is reached. -/
theorem stayers_old (hold : ∀ candidate ∈ candidates, isYoung cutoff candidate = false)
    (hread : ∀ candidate ∈ candidates, ∀ why, verify candidate.path ≠ .unverifiable why) :
    stayers (fates policy cutoff verify slots candidates) =
      (candidates.filter (readsBack verify)).take (policy.keepMinimum - slots) := by
  induction candidates generalizing slots with
  | nil => simp [fates, stayers]
  | cons candidate candidates ih =>
      obtain ⟨hfirst, hrest⟩ := List.forall_mem_cons.mp hold
      obtain ⟨hread₁, hread⟩ := List.forall_mem_cons.mp hread
      rw [fates, stayers_cons]
      -- an old archive is verified only while the floor has slots left
      by_cases hslots : slots < policy.keepMinimum
      · have hfull := Policy.isFull_eq_false hslots
        have hfate : fateOf policy cutoff verify slots candidate =
            .ofVerdict (verify candidate.path) := by
          simp [fateOf, hfirst, hfull, hslots]
        rw [hfate]
        cases hverdict : verify candidate.path with
        | valid =>
            rw [List.filter_cons_of_pos (by simp [readsBack, hverdict]),
              show policy.keepMinimum - slots = (policy.keepMinimum - (slots + 1)) + 1 by omega,
              List.take_succ_cons]
            exact congrArg (candidate :: ·) (ih hrest hread)
        | invalid why =>
            rw [List.filter_cons_of_neg (by simp [readsBack, hverdict])]
            exact ih hrest hread
        | unverifiable why => exact absurd hverdict (hread₁ why)
      · have hfate : fateOf policy cutoff verify slots candidate = .drop false := by
          simp [fateOf, hfirst, hslots]
        rw [hfate, Nat.sub_eq_zero_of_le (Nat.le_of_not_lt hslots), List.take_zero]
        refine (ih hrest hread).trans ?_
        show List.take (policy.keepMinimum - slots) _ = []
        rw [Nat.sub_eq_zero_of_le (Nat.le_of_not_lt hslots), List.take_zero]

/-- A list that is sorted with the archives that count first falls into two parts. -/
theorem filter_append_filter {p : Candidate → Bool}
    (hsorted : candidates.Pairwise fun a b => p b = true → p a = true) :
    candidates = candidates.filter p ++ candidates.filter fun candidate => !p candidate := by
  induction candidates with
  | nil => rfl
  | cons candidate candidates ih =>
      obtain ⟨hfirst, hrest⟩ := List.pairwise_cons.mp hsorted
      cases hcounts : p candidate with
      | true =>
          rw [List.filter_cons_of_pos hcounts, List.filter_cons_of_neg (by simp [hcounts]),
            List.cons_append, ← ih hrest]
      | false =>
          have hnone : candidates.filter p = [] := by
            refine List.filter_eq_nil_iff.mpr fun other hother hcounts' => ?_
            rw [hfirst other hother hcounts'] at hcounts
            cases hcounts
          have hall : (candidates.filter fun candidate => !p candidate) = candidates := by
            rw [hnone, List.nil_append] at ih
            exact (ih hrest).symm
          rw [List.filter_cons_of_neg (by simp [hcounts]), hnone,
            List.filter_cons_of_pos (by simp [hcounts]), hall, List.nil_append]

end Stayers

/-! ## Prefixes -/

section Prefixes

variable {α : Type} {l : List α} {a b : Nat}

/-- A prefix of distinct elements lies in another one when it is not longer. -/
theorem take_subset_take_iff (hnodup : l.Nodup) :
    l.take a ⊆ l.take b ↔ min a l.length ≤ b := by
  constructor
  · intro hsubset
    have hlength := (List.subperm_of_subset (hnodup.sublist (List.take_sublist a l))
      hsubset).length_le
    simp only [List.length_take] at hlength
    omega
  · intro hle
    rw [List.take_eq_take_min (i := a)]
    exact List.take_subset_take_left l hle

/-- The place of an element among those that count is how many of them stand before it. -/
theorem mem_take_filter {p : α → Bool} {before after : List α} {x : α} {n : Nat}
    (hsplit : l = before ++ x :: after) (hnodup : l.Nodup) :
    x ∈ (l.filter p).take n ↔ p x = true ∧ before.countP p < n := by
  rw [List.countP_eq_length_filter]
  have hnot : x ∉ before.filter p := by
    intro hmem
    rw [hsplit, List.nodup_append] at hnodup
    exact hnodup.2.2 x (List.mem_of_mem_filter hmem) x List.mem_cons_self rfl
  cases hcounts : p x with
  | false =>
      refine iff_of_false (fun hmem => ?_) (by simp)
      have := (List.mem_filter.mp (List.mem_of_mem_take hmem)).2
      rw [hcounts] at this
      cases this
  | true =>
      rw [hsplit, List.filter_append, List.filter_cons_of_pos hcounts, List.take_append,
        List.mem_append, iff_false_intro (fun hmem => hnot (List.mem_of_mem_take hmem)),
        false_or]
      cases hroom : n - (before.filter p).length with
      | zero => simpa using Nat.le_of_sub_eq_zero hroom
      | succ room => simp; omega

end Prefixes

/-! ## The floor -/

/-- The young archives that the ceiling leaves. -/
def youngStayers (candidates : List Candidate) (policy : Policy) (now : Int) : List Candidate :=
  policy.capped 0 ((newestFirst candidates).filter (isYoung (policy.cutoff now)))

/-- When the slots of the floor go to archives that read back. Either all young archives that
the ceiling leaves read back; or those that do not leave slots enough for all archives that do;
or the young ones that do are as many as the floor asks for, or are all there are. -/
def FloorReadsBack (candidates : List Candidate) (policy : Policy) (now : Int)
    (verify : Key → Verdict) : Prop :=
  let young := youngStayers candidates policy now
  let unread := young.countP fun candidate => !readsBack verify candidate
  let read := young.countP (readsBack verify)
  let valid := candidates.countP (readsBack verify)
  unread = 0 ∨ valid + unread ≤ policy.keepMinimum ∨ policy.keepMinimum ≤ read ∨ valid ≤ read

section Floor

variable {candidates : List Candidate} {policy : Policy} {now : Int} {verify : Key → Verdict}

theorem isYoung_of_newer {cutoff : Option Int} {a b : Candidate} (hle : b.takenAt ≤ a.takenAt)
    (hyoung : isYoung cutoff b = true) : isYoung cutoff a = true := by
  cases cutoff with
  | none => rfl
  | some cutoff =>
      simp only [isYoung, Option.all_some, decide_eq_true_eq] at hyoung ⊢
      omega

/-- The young archives stand before the old ones. -/
theorem newestFirst_eq_append (cutoff : Option Int) :
    newestFirst candidates = (newestFirst candidates).filter (isYoung cutoff) ++
      (newestFirst candidates).filter fun candidate => !isYoung cutoff candidate :=
  filter_append_filter ((newestFirst_sorted candidates).imp fun hle => isYoung_of_newer hle)

/-- What stays: the young archives that the ceiling leaves, and the newest old ones that read
back, as many as the floor still asks for. -/
theorem stayers_newestFirst
    (hread : ∀ candidate ∈ candidates, ∀ why, verify candidate.path ≠ .unverifiable why) :
    stayers (fates policy (policy.cutoff now) verify 0 (newestFirst candidates)) =
      youngStayers candidates policy now ++
        (((newestFirst candidates).filter fun candidate =>
          !isYoung (policy.cutoff now) candidate).filter (readsBack verify)).take
            (policy.keepMinimum - (youngStayers candidates policy now).length) := by
  have hyoung := @stayers_young policy (policy.cutoff now) verify 0
    ((newestFirst candidates).filter (isYoung (policy.cutoff now)))
    fun _ h => (List.mem_filter.mp h).2
  rw [newestFirst_eq_append (policy.cutoff now), fates_append, stayers_append, spent_eq_stayers,
    hyoung, Nat.zero_add, stayers_old, youngStayers]
  · rw [← newestFirst_eq_append]
  · intro candidate h
    simpa using (List.mem_filter.mp h).2
  · intro candidate h
    exact hread candidate ((newestFirst_perm candidates).mem_iff.mp (List.mem_of_mem_filter h))

/-- The ceiling leaves all of some archives, or as many as the floor asks for. -/
theorem Policy.capped_cases (young : List Candidate) :
    policy.capped 0 young = young ∨ policy.keepMinimum ≤ (policy.capped 0 young).length ∧
      policy.capped 0 young <+: young := by
  unfold capped
  cases hlast : policy.keepLast with
  | none => exact .inl rfl
  | some keepLast =>
      show young.take keepLast = young ∨
        policy.keepMinimum ≤ (young.take keepLast).length ∧ young.take keepLast <+: young
      have hvalid := (policy.keepLast_valid keepLast hlast).2
      by_cases hlength : young.length ≤ keepLast
      · exact .inl (List.take_of_length_le hlength)
      · refine .inr ⟨?_, List.take_prefix keepLast young⟩
        rw [List.length_take]
        omega

/-- The archives that read back and stay are the newest ones that read back. -/
theorem readsBack_stayers
    (hread : ∀ candidate ∈ candidates, ∀ why, verify candidate.path ≠ .unverifiable why) :
    (stayers (fates policy (policy.cutoff now) verify 0 (newestFirst candidates))).filter
        (readsBack verify) = ((newestFirst candidates).filter (readsBack verify)).take
          ((youngStayers candidates policy now).countP (readsBack verify) +
            (policy.keepMinimum - (youngStayers candidates policy now).length)) := by
  set young := (newestFirst candidates).filter (isYoung (policy.cutoff now)) with hyoung
  set old := (newestFirst candidates).filter
    (fun candidate => !isYoung (policy.cutoff now) candidate) with hold
  have hparts : (newestFirst candidates).filter (readsBack verify) =
      young.filter (readsBack verify) ++ old.filter (readsBack verify) := by
    rw [← List.filter_append, ← newestFirst_eq_append]
  have hall : ∀ room, ((old.filter (readsBack verify)).take room).filter (readsBack verify) =
      (old.filter (readsBack verify)).take room := by
    intro room
    refine List.filter_eq_self.mpr fun candidate h => ?_
    exact (List.mem_filter.mp (List.mem_of_mem_take h)).2
  rw [stayers_newestFirst hread, List.filter_append, ← hold, hall, hparts,
    List.countP_eq_length_filter]
  obtain hsame | ⟨hfloor, rest, hrest⟩ := @Policy.capped_cases policy young
  -- no young archive goes, and the old ones come after them
  · have hsame : youngStayers candidates policy now = young := hsame
    rw [hsame, List.take_length_add_append]
  -- the young archives alone fill the floor, and no old one is needed
  · have hrest : youngStayers candidates policy now ++ rest = young := hrest
    have hfloor : policy.keepMinimum ≤ (youngStayers candidates policy now).length := hfloor
    rw [← hrest, List.filter_append, List.append_assoc, Nat.sub_eq_zero_of_le hfloor,
      List.take_zero, List.append_nil, Nat.add_zero, List.take_left]

/-- The newest archives that read back are all among those that stay when the slots of the floor
go to archives that read back. -/
theorem min_le_iff_floorReadsBack :
    min policy.keepMinimum (candidates.countP (readsBack verify)) ≤
        (youngStayers candidates policy now).countP (readsBack verify) +
          (policy.keepMinimum - (youngStayers candidates policy now).length) ↔
      FloorReadsBack candidates policy now verify := by
  have hlength := List.length_eq_countP_add_countP (readsBack verify)
    (l := youngStayers candidates policy now)
  simp only [decide_not, Bool.decide_eq_true] at hlength
  unfold FloorReadsBack
  rw [hlength]
  omega

/-- An archive is one of the newest so many of a kind when it stands among them. -/
theorem isNewestOf_iff_mem_take (htimes : (candidates.map Candidate.takenAt).Nodup)
    {counts : Candidate → Bool} {n : Nat} {candidate : Candidate} (hmem : candidate ∈ candidates) :
    IsNewestOf counts n candidates candidate ↔
      candidate ∈ ((newestFirst candidates).filter counts).take n := by
  obtain ⟨before, after, hsplit⟩ :=
    List.append_of_mem ((newestFirst_perm candidates).mem_iff.mpr hmem)
  have hnodup : (newestFirst candidates).Nodup :=
    (newestFirst_perm candidates).nodup_iff.mpr htimes.of_map
  rw [mem_take_filter hsplit hnodup, IsNewestOf, countP_before htimes hsplit]
  exact and_iff_right hmem

/-- What does not stay goes. -/
theorem stayers_append_leavers :
    (stayers (fates policy (policy.cutoff now) verify 0 (newestFirst candidates)) ++
      leavers (fates policy (policy.cutoff now) verify 0 (newestFirst candidates))).Perm
        candidates := by
  rw [stayers, leavers, ← List.map_append]
  refine ((List.filter_append_perm _ _).map _).trans ?_
  rw [fates_fst]
  exact newestFirst_perm candidates

theorem not_mem_leavers (htimes : (candidates.map Candidate.takenAt).Nodup)
    {candidate : Candidate} (hmem : candidate ∈ candidates) :
    candidate ∉ leavers (fates policy (policy.cutoff now) verify 0 (newestFirst candidates)) ↔
      candidate ∈ stayers (fates policy (policy.cutoff now) verify 0 (newestFirst candidates)) := by
  have hperm := @stayers_append_leavers candidates policy now verify
  have hnodup := hperm.nodup_iff.mpr htimes.of_map
  have hmem := hperm.mem_iff.mpr hmem
  rw [List.mem_append] at hmem
  constructor
  · exact hmem.resolve_right
  · intro hstays hleaves
    exact (List.nodup_append.mp hnodup).2.2 candidate hstays candidate hleaves rfl

/-- None of the newest archives that read back goes exactly when the slots of the floor go to
archives that read back. -/
theorem newest_not_leavers_iff (htimes : (candidates.map Candidate.takenAt).Nodup)
    (hread : ∀ candidate ∈ candidates, ∀ why, verify candidate.path ≠ .unverifiable why) :
    (∀ candidate ∈ candidates, IsNewestOf (readsBack verify) policy.keepMinimum candidates
      candidate → candidate ∉
        leavers (fates policy (policy.cutoff now) verify 0 (newestFirst candidates))) ↔
      FloorReadsBack candidates policy now verify := by
  have hnodup : ((newestFirst candidates).filter (readsBack verify)).Nodup :=
    ((newestFirst_perm candidates).nodup_iff.mpr htimes.of_map).filter _
  have hlength : ((newestFirst candidates).filter (readsBack verify)).length =
      candidates.countP (readsBack verify) := by
    rw [← List.countP_eq_length_filter, (newestFirst_perm candidates).countP_eq]
  rw [← min_le_iff_floorReadsBack, ← hlength, ← take_subset_take_iff hnodup,
    ← readsBack_stayers hread]
  constructor
  · intro hkept candidate htake
    obtain ⟨hmem, hcounts⟩ := List.mem_filter.mp (List.mem_of_mem_take htake)
    have hmem := (newestFirst_perm candidates).mem_iff.mp hmem
    have hnewest := (isNewestOf_iff_mem_take htimes hmem).mpr htake
    exact List.mem_filter.mpr ⟨(not_mem_leavers htimes hmem).mp (hkept candidate hmem hnewest),
      hcounts⟩
  · intro hsubset candidate hmem hnewest
    have htake := (isNewestOf_iff_mem_take htimes hmem).mp hnewest
    exact (not_mem_leavers htimes hmem).mpr (List.mem_filter.mp (hsubset htake)).1

end Floor

/-- The archives that a plan removes include none of the newest `keepMinimum` that read back
exactly when the slots of the floor go to archives that read back. -/
theorem plan_keeps_valid_iff (candidates : List Candidate) (policy : Policy) (now : Int)
    (verify : Key → Verdict) (htimes : (candidates.map Candidate.takenAt).Nodup)
    (hread : ∀ candidate ∈ candidates, ∀ why, verify candidate.path ≠ .unverifiable why) :
    ∃ removed : List Candidate,
      (plan candidates policy now verify).remove = removed.map Candidate.path ∧
      ((∀ candidate ∈ candidates, IsNewestOf (readsBack verify) policy.keepMinimum candidates
          candidate → candidate ∉ removed) ↔ FloorReadsBack candidates policy now verify) ∧
      ((candidates.map Candidate.path).Nodup →
        ((∀ candidate ∈ candidates, IsNewestOf (readsBack verify) policy.keepMinimum candidates
            candidate → candidate.path ∉ (plan candidates policy now verify).remove) ↔
          FloorReadsBack candidates policy now verify)) := by
  set removed := leavers (fates policy (policy.cutoff now) verify 0 (newestFirst candidates))
    with hremoved
  have hremove : (plan candidates policy now verify).remove = removed.map Candidate.path := by
    rw [plan_eq, hremoved, leavers, List.map_map]
    rfl
  have hiff := @newest_not_leavers_iff candidates policy now verify htimes hread
  refine ⟨removed, hremove, hiff, fun hpaths => ?_⟩
  have hsubset : ∀ candidate ∈ removed, candidate ∈ candidates := fun candidate h =>
    (@stayers_append_leavers candidates policy now verify).mem_iff.mp (List.mem_append_right _ h)
  rw [← hiff, hremove]
  refine forall₃_congr fun candidate hmem _ => not_congr ⟨fun hgone => ?_, List.mem_map_of_mem⟩
  obtain ⟨other, hother, hpath⟩ := List.mem_map.mp hgone
  obtain rfl := List.inj_on_of_nodup_map hpaths (hsubset other hother) hmem hpath
  exact hother

/-- The newest archive that reads back may be removed. -/
theorem plan_removes_newest_valid :
    IsNewestOf (readsBack TwoArchives.verify) TwoArchives.policy.keepMinimum
        [TwoArchives.young, TwoArchives.old] TwoArchives.old ∧
      ([TwoArchives.young, TwoArchives.old].map Candidate.takenAt).Nodup ∧
      (∀ path why, TwoArchives.verify path ≠ .unverifiable why) ∧
      TwoArchives.old.path ∈ (plan [TwoArchives.young, TwoArchives.old] TwoArchives.policy 120
        TwoArchives.verify).remove := by
  refine ⟨⟨by decide, by decide, by decide⟩, by decide, ?_, by decide⟩
  intro path why
  unfold TwoArchives.verify
  split <;> simp

/-- `pg_restore` reads both archives. -/
def TwoArchives.verifyBoth (_ : Key) : Verdict :=
  .valid

/-- With two sound archives, the floor of one is the young one. -/
theorem plan_keeps_valid_iff_twoArchives :
    FloorReadsBack [TwoArchives.young, TwoArchives.old] TwoArchives.policy 120
        TwoArchives.verifyBoth ∧
      TwoArchives.young.path ∉ (plan [TwoArchives.young, TwoArchives.old] TwoArchives.policy 120
        TwoArchives.verifyBoth).remove := by
  obtain ⟨removed, hremove, -, hpaths⟩ := plan_keeps_valid_iff
    [TwoArchives.young, TwoArchives.old] TwoArchives.policy 120 TwoArchives.verifyBoth
    (by decide) (fun _ _ _ => by simp [TwoArchives.verifyBoth])
  have hfloor : FloorReadsBack [TwoArchives.young, TwoArchives.old] TwoArchives.policy 120
      TwoArchives.verifyBoth := .inl (by decide)
  exact ⟨hfloor, (hpaths (by decide)).mpr hfloor _ (by decide) ⟨by decide, by decide, by decide⟩⟩

end Fraisier.Db
