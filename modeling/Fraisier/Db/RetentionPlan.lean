import Fraisier.Db.Retention
import Fraisier.Effect.History

/-!
# What a retention plan guarantees

`plan` goes over the archives once, newest first, and decides the fate of each from the slots
that are spent. `fates` lists the decisions, and every list of a plan is a selection of them.
Read `plan_eq` first: the guarantees are facts about `fates`, proved archive by archive.
`planning` is the same pass with its questions to `pg_restore` as commands.
-/

namespace Fraisier.Db

open Fraisier.Data Fraisier.Effect

/-! ## The fate of an archive -/

/-- What a policy decides on one archive. -/
inductive Fate where
  | keep
  | exempt (unread : Option String)
  | reject (why : String)
  | drop (withinRetention : Bool)
deriving DecidableEq

namespace Fate

/-- Whether the archive stays, and spends a slot. -/
def stays : Fate → Bool
  | keep | exempt _ => true
  | reject _ | drop _ => false

/-- Whether the archive was verified. -/
def asked : Fate → Bool
  | exempt _ | reject _ => true
  | keep | drop _ => false

/-- The slots that are spent afterwards. -/
def spend (slots : Nat) (fate : Fate) : Nat :=
  if fate.stays then slots + 1 else slots

end Fate

/-- The time before which archives are old. -/
def Policy.cutoff (policy : Policy) (now : Int) : Option Int :=
  policy.retention.map (now - ·)

/-- Whether an archive is within the age rule. -/
def isYoung (cutoff : Option Int) (candidate : Candidate) : Bool :=
  cutoff.all fun cutoff => decide (cutoff ≤ candidate.takenAt)

/-- Whether the ceiling is reached. -/
def Policy.isFull (policy : Policy) (slots : Nat) : Bool :=
  policy.keepLast.any fun keepLast => decide (keepLast ≤ slots)

/-- The fate that a verdict gives an archive that contests a slot. -/
def Fate.ofVerdict : Verdict → Fate
  | .invalid why => .reject why
  | .valid => .exempt none
  | .unverifiable why => .exempt (some why)

/-- Decide the fate of an archive. -/
def fateOf (policy : Policy) (cutoff : Option Int) (verify : Key → Verdict) (slots : Nat)
    (candidate : Candidate) : Fate :=
  if isYoung cutoff candidate && !policy.isFull slots then .keep
  else if !policy.isFull slots && decide (slots < policy.keepMinimum) then
    .ofVerdict (verify candidate.path)
  else .drop (isYoung cutoff candidate)

/-- Put an archive where its fate puts it. -/
def Plan.put (plan : Plan) (path : Key) : Fate → Plan
  | .keep => { plan with keep := plan.keep ++ [path] }
  | .exempt none => { plan with exempt := plan.exempt ++ [path] }
  | .exempt (some why) => { plan with
      unverifiable := plan.unverifiable ++ [(path, why)]
      exempt := plan.exempt ++ [path] }
  | .reject why => { plan with
      invalid := plan.invalid ++ [(path, why)]
      remove := plan.remove ++ [path] }
  | .drop withinRetention => plan.drop path withinRetention

section Fates

variable (policy : Policy) (cutoff : Option Int) (verify : Key → Verdict)

/-- An archive that contests a slot is past the age rule. -/
theorem isYoung_of_contests {slots : Nat} {candidate : Candidate}
    (hkeep : ¬ (isYoung cutoff candidate && !policy.isFull slots) = true)
    (hfull : policy.isFull slots = false) : isYoung cutoff candidate = false := by
  simpa [hfull] using hkeep

theorem planOne_eq (slots : Nat) (plan : Plan) (candidate : Candidate) :
    planOne policy cutoff verify (slots, plan) candidate =
      ((fateOf policy cutoff verify slots candidate).spend slots,
        plan.put candidate.path (fateOf policy cutoff verify slots candidate)) := by
  simp only [planOne, fateOf]
  rw [← isYoung, ← Policy.isFull]
  split
  next => rfl
  next hkeep =>
    split
    next hcontests =>
      have hfull : policy.isFull slots = false := by
        simpa using (Bool.and_eq_true_iff.mp hcontests).1
      have hold := isYoung_of_contests policy cutoff hkeep hfull
      cases verify candidate.path with
      | valid => rfl
      | unverifiable why => rfl
      | invalid why => simp [Fate.ofVerdict, Plan.put, Plan.drop, Fate.spend, Fate.stays, hold]
    next => rfl

/-- The fates of archives, newest first, after some slots are spent. -/
def fates : Nat → List Candidate → List (Candidate × Fate)
  | _, [] => []
  | slots, candidate :: candidates =>
      let fate := fateOf policy cutoff verify slots candidate
      (candidate, fate) :: fates (fate.spend slots) candidates

/-- The slots that are spent after some archives. -/
def spent (slots : Nat) (decided : List (Candidate × Fate)) : Nat :=
  slots + decided.countP fun e => e.2.stays

theorem spent_cons (slots : Nat) (e : Candidate × Fate) (decided : List (Candidate × Fate)) :
    spent slots (e :: decided) = spent (e.2.spend slots) decided := by
  simp only [spent, Fate.spend, List.countP_cons]
  split
  next => omega
  next => omega

theorem foldl_planOne (candidates : List Candidate) (slots : Nat) (plan : Plan) :
    (candidates.foldl (planOne policy cutoff verify) (slots, plan)).2 =
      (fates policy cutoff verify slots candidates).foldl
        (fun plan e => plan.put e.1.path e.2) plan := by
  induction candidates generalizing slots plan with
  | nil => rfl
  | cons candidate candidates ih =>
      rw [List.foldl_cons, planOne_eq, ih]
      rfl

theorem fates_fst (slots : Nat) (candidates : List Candidate) :
    (fates policy cutoff verify slots candidates).map Prod.fst = candidates := by
  induction candidates generalizing slots with
  | nil => rfl
  | cons candidate candidates ih => simp [fates, ih]

/-- Where an archive stands, its fate was decided from the slots that were spent. -/
theorem fates_split {slots : Nat} {candidates : List Candidate}
    {before after : List (Candidate × Fate)} {candidate : Candidate} {fate : Fate}
    (h : fates policy cutoff verify slots candidates = before ++ (candidate, fate) :: after) :
    fate = fateOf policy cutoff verify (spent slots before) candidate := by
  induction candidates generalizing slots before with
  | nil => cases before <;> cases h
  | cons first candidates ih =>
      cases before with
      | nil =>
          obtain ⟨hfirst, -⟩ := List.cons.inj h
          cases hfirst
          rfl
      | cons e before =>
          obtain ⟨rfl, hrest⟩ := List.cons.inj h
          rw [ih hrest, spent_cons]

end Fates

/-! ## The lists of a plan -/

/-- The plan that fates make. -/
def Plan.ofFates (decided : List (Candidate × Fate)) : Plan where
  remove := (decided.filter fun e => !e.2.stays).map fun e => e.1.path
  keep := (decided.filter fun e => e.2 == .keep).map fun e => e.1.path
  exempt := (decided.filter fun e => e.2.stays && e.2 != .keep).map fun e => e.1.path
  invalid := decided.filterMap fun e => match e.2 with
    | .reject why => some (e.1.path, why)
    | _ => none
  unverifiable := decided.filterMap fun e => match e.2 with
    | .exempt (some why) => some (e.1.path, why)
    | _ => none
  removedByCeiling := (decided.filter fun e => e.2 == .drop true).map fun e => e.1.path

theorem Plan.ofFates_append (decided : List (Candidate × Fate)) (candidate : Candidate)
    (fate : Fate) : Plan.ofFates (decided ++ [(candidate, fate)]) =
      (Plan.ofFates decided).put candidate.path fate := by
  cases fate with
  | keep => simp [ofFates, put, Fate.stays]
  | exempt unread => cases unread <;> simp [ofFates, put, Fate.stays]
  | reject why => simp [ofFates, put, Fate.stays]
  | drop withinRetention => cases withinRetention <;> simp [ofFates, put, Plan.drop, Fate.stays]

theorem Plan.foldl_put (decided rest : List (Candidate × Fate)) :
    rest.foldl (fun plan e => plan.put e.1.path e.2) (Plan.ofFates decided) =
      Plan.ofFates (decided ++ rest) := by
  induction rest generalizing decided with
  | nil => simp
  | cons e rest ih =>
      rw [List.foldl_cons, ← Plan.ofFates_append, ih, List.append_assoc, List.singleton_append]

/-- A plan is made of the fates of the archives, newest first. -/
theorem plan_eq (candidates : List Candidate) (policy : Policy) (now : Int)
    (verify : Key → Verdict) : plan candidates policy now verify =
      .ofFates (fates policy (policy.cutoff now) verify 0 (newestFirst candidates)) := by
  rw [plan, foldl_planOne]
  exact Plan.foldl_put [] _

/-! ## The order of the archives -/

theorem newestFirst_perm (candidates : List Candidate) :
    (newestFirst candidates).Perm candidates :=
  List.perm_insertionSort _ _

theorem newestFirst_sorted (candidates : List Candidate) :
    (newestFirst candidates).Pairwise fun a b => b.takenAt ≤ a.takenAt :=
  have : Std.Total fun a b : Candidate => b.takenAt ≤ a.takenAt := ⟨fun _ _ => le_total _ _⟩
  have : IsTrans Candidate fun a b => b.takenAt ≤ a.takenAt := ⟨fun _ _ _ h h' => h'.trans h⟩
  List.pairwise_insertionSort _ _

section Order

variable {candidates : List Candidate}

/-- With distinct times, archives stand strictly newest first. -/
theorem newestFirst_strict (hdistinct : (candidates.map Candidate.takenAt).Nodup) :
    (newestFirst candidates).Pairwise fun a b => b.takenAt < a.takenAt := by
  have hnodup : ((newestFirst candidates).map Candidate.takenAt).Nodup :=
    ((newestFirst_perm candidates).map _).nodup_iff.mpr hdistinct
  refine (newestFirst_sorted candidates).imp₂ ?_ (List.pairwise_map.mp hnodup)
  exact fun a b hle hne => lt_of_le_of_ne hle (Ne.symm hne)

/-- Archives of distinct times are sorted in one way only. -/
theorem newestFirst_eq_of_perm {candidates' : List Candidate}
    (hdistinct : (candidates.map Candidate.takenAt).Nodup) (hperm : candidates.Perm candidates') :
    newestFirst candidates = newestFirst candidates' := by
  have hdistinct' := (hperm.map Candidate.takenAt).nodup_iff.mp hdistinct
  refine List.Perm.eq_of_pairwise ?_ (newestFirst_strict hdistinct) (newestFirst_strict hdistinct')
    ((newestFirst_perm _).trans (hperm.trans (newestFirst_perm _).symm))
  exact fun a b _ _ hlt hlt' => absurd hlt (lt_asymm hlt')

/-- The archives before one are those that are newer. -/
theorem countP_before (hdistinct : (candidates.map Candidate.takenAt).Nodup)
    {before after : List Candidate} {candidate : Candidate}
    (hsplit : newestFirst candidates = before ++ candidate :: after) (p : Candidate → Bool) :
    candidates.countP (fun other => p other && decide (candidate.takenAt < other.takenAt)) =
      before.countP p := by
  have hstrict := newestFirst_strict hdistinct
  rw [hsplit] at hstrict
  obtain ⟨-, htail, hbefore⟩ := List.pairwise_append.mp hstrict
  rw [← (newestFirst_perm candidates).countP_eq, hsplit, List.countP_append]
  have hnone : (candidate :: after).countP
      (fun other => p other && decide (candidate.takenAt < other.takenAt)) = 0 := by
    refine List.countP_eq_zero.mpr fun other hother => ?_
    have hle : other.takenAt ≤ candidate.takenAt := by
      rcases List.mem_cons.mp hother with rfl | hother
      · exact le_rfl
      · exact (List.pairwise_cons.mp htail).1 other hother |>.le
    simp [not_lt.mpr hle]
  have hall : before.countP
      (fun other => p other && decide (candidate.takenAt < other.takenAt)) = before.countP p := by
    refine List.countP_congr fun other hother => ?_
    simp [hbefore other hother candidate List.mem_cons_self]
  rw [hnone, hall, Nat.add_zero]

end Order

/-! ## The floor -/

/-- One of the newest so many candidates among those that count. -/
def IsNewestOf (counts : Candidate → Bool) (n : Nat) (candidates : List Candidate)
    (candidate : Candidate) : Prop :=
  candidate ∈ candidates ∧ counts candidate = true ∧
    candidates.countP (fun other => counts other && decide (candidate.takenAt < other.takenAt)) < n

/-- What counts for the floor: an archive within the age rule, which is not verified, and one
that reads back. -/
def holdsSlot (cutoff : Option Int) (verify : Key → Verdict) (candidate : Candidate) : Bool :=
  isYoung cutoff candidate || decide (verify candidate.path = .valid)

/-- The ceiling is not reached below the floor. -/
theorem Policy.isFull_eq_false {policy : Policy} {slots : Nat} (h : slots < policy.keepMinimum) :
    policy.isFull slots = false := by
  unfold isFull
  cases hlast : policy.keepLast with
  | none => rfl
  | some keepLast =>
      have hvalid := (policy.keepLast_valid keepLast hlast).2
      simp only [Option.any_some, decide_eq_false_iff_not]
      omega

/-- What counts stays while the floor is not reached. -/
theorem fateOf_stays {policy : Policy} {cutoff : Option Int} {verify : Key → Verdict}
    {slots : Nat} {candidate : Candidate} (hslots : slots < policy.keepMinimum)
    (hcounts : holdsSlot cutoff verify candidate = true) :
    (fateOf policy cutoff verify slots candidate).stays = true := by
  have hfull := Policy.isFull_eq_false hslots
  unfold fateOf
  cases hyoung : isYoung cutoff candidate with
  | true => simp [hfull, Fate.stays]
  | false =>
      have hvalid : verify candidate.path = .valid := by simpa [holdsSlot, hyoung] using hcounts
      simp [hfull, hslots, hvalid, Fate.ofVerdict, Fate.stays]

/-- What stays counts, where every archive can be verified. -/
theorem holdsSlot_of_stays {policy : Policy} {cutoff : Option Int} {verify : Key → Verdict}
    {slots : Nat} {candidate : Candidate} (hread : ∀ why, verify candidate.path ≠ .unverifiable why)
    (hstays : (fateOf policy cutoff verify slots candidate).stays = true) :
    holdsSlot cutoff verify candidate = true := by
  unfold fateOf at hstays
  split at hstays
  next hyoung => simp [holdsSlot, (Bool.and_eq_true_iff.mp hyoung).1]
  next =>
    split at hstays
    next =>
      cases hverdict : verify candidate.path with
      | valid => simp [holdsSlot, hverdict]
      | invalid why => rw [hverdict] at hstays; cases hstays
      | unverifiable why => exact absurd hverdict (hread why)
    next => cases hstays

section Floor

variable {policy : Policy} {candidates : List Candidate} {now : Int} {verify : Key → Verdict}

/-- Where a candidate stands among the fates, its fate was decided from the slots that the
newer ones spent. -/
theorem exists_fate {candidate : Candidate} (h : candidate ∈ candidates) :
    ∃ before fate after, fates policy (policy.cutoff now) verify 0 (newestFirst candidates) =
        before ++ (candidate, fate) :: after ∧
      newestFirst candidates = before.map Prod.fst ++ candidate :: after.map Prod.fst := by
  have hmem := (newestFirst_perm candidates).mem_iff.mpr h
  rw [← fates_fst policy (policy.cutoff now) verify 0 (newestFirst candidates)] at hmem
  obtain ⟨⟨found, fate⟩, hfate, rfl⟩ := List.mem_map.mp hmem
  obtain ⟨before, after, hsplit⟩ := List.append_of_mem hfate
  refine ⟨before, fate, after, hsplit, ?_⟩
  rw [← fates_fst policy (policy.cutoff now) verify 0 (newestFirst candidates), hsplit,
    List.map_append, List.map_cons]

/-- Every fate was decided from some slots. -/
theorem exists_fateOf {cutoff : Option Int} {slots : Nat} {e : Candidate × Fate}
    (he : e ∈ fates policy cutoff verify slots candidates) :
    ∃ slots', e.2 = fateOf policy cutoff verify slots' e.1 := by
  obtain ⟨before, after, hsplit⟩ := List.append_of_mem he
  exact ⟨_, fates_split policy cutoff verify hsplit⟩

/-- The newest archives that count for the floor stay, whatever the cutoff and the ceiling;
where no archive is unverifiable, no archive that does not count takes their slots. -/
theorem stays_of_isNewestOf (hdistinct : (candidates.map Candidate.takenAt).Nodup)
    (hread : ∀ candidate ∈ candidates, ∀ why, verify candidate.path ≠ .unverifiable why)
    {candidate : Candidate} {fate : Fate}
    (hfate : (candidate, fate) ∈
      fates policy (policy.cutoff now) verify 0 (newestFirst candidates))
    (hnewest : IsNewestOf (holdsSlot (policy.cutoff now) verify) policy.keepMinimum candidates
      candidate) : fate.stays = true := by
  obtain ⟨before, after, hsplit⟩ := List.append_of_mem hfate
  have hplace : newestFirst candidates =
      before.map Prod.fst ++ candidate :: after.map Prod.fst := by
    rw [← fates_fst policy (policy.cutoff now) verify 0 (newestFirst candidates), hsplit,
      List.map_append, List.map_cons]
  obtain ⟨-, hcounts, hfew⟩ := hnewest
  rw [countP_before hdistinct hplace, List.countP_map] at hfew
  have hspent : before.countP (fun e => e.2.stays) ≤
      before.countP (holdsSlot (policy.cutoff now) verify ∘ Prod.fst) := by
    refine List.countP_mono_left fun e he hstays => ?_
    have hmem : e ∈ fates policy (policy.cutoff now) verify 0 (newestFirst candidates) :=
      hsplit ▸ List.mem_append_left _ he
    obtain ⟨slots, heq⟩ := exists_fateOf hmem
    have hcandidate : e.1 ∈ candidates := by
      rw [← (newestFirst_perm candidates).mem_iff, hplace]
      exact List.mem_append_left _ (List.mem_map_of_mem he)
    exact holdsSlot_of_stays (hread e.1 hcandidate) (heq ▸ hstays)
  rw [fates_split policy (policy.cutoff now) verify hsplit]
  refine fateOf_stays ?_ hcounts
  unfold spent
  omega

end Floor

/-- The floor: where every archive can be verified, the plan removes none of the newest
`keepMinimum` archives among those that are within the age rule or read back. -/
theorem plan_keeps_floor (candidates : List Candidate) (policy : Policy) (now : Int)
    (verify : Key → Verdict) (hdistinct : (candidates.map Candidate.takenAt).Nodup)
    (hread : ∀ candidate ∈ candidates, ∀ why, verify candidate.path ≠ .unverifiable why) :
    ∃ removed : List Candidate,
      (plan candidates policy now verify).remove = removed.map Candidate.path ∧
      (∀ candidate ∈ removed, candidate ∈ candidates ∧
        ¬ IsNewestOf (holdsSlot (policy.cutoff now) verify) policy.keepMinimum candidates
          candidate) ∧
      ((candidates.map Candidate.path).Nodup → ∀ candidate,
        IsNewestOf (holdsSlot (policy.cutoff now) verify) policy.keepMinimum candidates
          candidate → candidate.path ∉ (plan candidates policy now verify).remove) := by
  set decided := fates policy (policy.cutoff now) verify 0 (newestFirst candidates) with hdecided
  have hremove : (plan candidates policy now verify).remove =
      ((decided.filter fun e => !e.2.stays).map Prod.fst).map Candidate.path := by
    rw [plan_eq, List.map_map]
    rfl
  have hremoved : ∀ candidate ∈ (decided.filter fun e => !e.2.stays).map Prod.fst,
      candidate ∈ candidates ∧ ¬ IsNewestOf (holdsSlot (policy.cutoff now) verify)
        policy.keepMinimum candidates candidate := by
    intro candidate hcandidate
    obtain ⟨e, he, rfl⟩ := List.mem_map.mp hcandidate
    obtain ⟨hmem, hgone⟩ := List.mem_filter.mp he
    have hlisted : e.1 ∈ decided.map Prod.fst := List.mem_map_of_mem hmem
    rw [hdecided, fates_fst, (newestFirst_perm candidates).mem_iff] at hlisted
    refine ⟨hlisted, fun hnewest => ?_⟩
    have hstays := stays_of_isNewestOf hdistinct hread hmem hnewest
    simp [hstays] at hgone
  refine ⟨_, hremove, hremoved, ?_⟩
  intro hpaths candidate hnewest hgone
  rw [hremove] at hgone
  obtain ⟨other, hother, hpath⟩ := List.mem_map.mp hgone
  obtain rfl := List.inj_on_of_nodup_map hpaths (hremoved other hother).1 hnewest.1 hpath
  exact (hremoved other hother).2 hnewest

/-! Two archives, a truncated one of today and a sound one of last month: the floor of one is
spent on the former, which is not verified. -/

namespace TwoArchives

def young : Candidate := ⟨⟨["backups"], "shop-20240531.pgdump"⟩, 100⟩

def old : Candidate := ⟨⟨["backups"], "shop-20240501.pgdump"⟩, 10⟩

def policy : Policy := ⟨some 50, 1, none, by simp⟩

/-- `pg_restore` rejects the young archive. -/
def verify (path : Key) : Verdict :=
  if path = young.path then .invalid "truncated" else .valid

end TwoArchives

/-! ## The floor that does not look -/

/-- An entry has a partner in a list that stands beside it. -/
theorem exists_of_forall₂ {ι κ : Type} {R : ι → κ → Prop} {l : List ι} {l' : List κ}
    (h : List.Forall₂ R l l') {x : ι} (hx : x ∈ l) : ∃ y ∈ l', R x y := by
  induction h with
  | nil => cases hx
  | cons hfirst _ ih =>
      rcases List.mem_cons.mp hx with rfl | hx
      · exact ⟨_, List.mem_cons_self, hfirst⟩
      · obtain ⟨y, hy, hR⟩ := ih hx
        exact ⟨y, List.mem_cons_of_mem _ hy, hR⟩

/-- The verdicts of a host where nothing can be verified. -/
def blind (reason : Key → String) (path : Key) : Verdict :=
  .unverifiable (reason path)

/-- A fate, but for what was found out about an archive that is exempt. -/
def Fate.forget : Fate → Fate
  | .exempt _ => .exempt none
  | fate => fate

/-- What a plan removes, keeps and exempts does not depend on what was found out. -/
theorem Plan.ofFates_forget (decided : List (Candidate × Fate)) :
    let known := Plan.ofFates (decided.map fun e => (e.1, e.2.forget))
    (Plan.ofFates decided).remove = known.remove ∧ (Plan.ofFates decided).keep = known.keep ∧
      (Plan.ofFates decided).exempt = known.exempt := by
  have hstays : ∀ fate : Fate, fate.forget.stays = fate.stays := by
    intro fate
    cases fate <;> rfl
  have hkeep : ∀ fate : Fate, (fate.forget == Fate.keep) = (fate == Fate.keep) := by
    intro fate
    cases fate <;> rfl
  simp only [ofFates, List.filter_map, List.map_map, Function.comp_def, hstays, bne, hkeep,
    and_self]

section Blind

variable {policy : Policy} {cutoff : Option Int} {verify : Key → Verdict} {reason : Key → String}

/-- An archive was answered to be invalid, and it is old. -/
def Rejected (cutoff : Option Int) (verify : Key → Verdict) (candidate : Candidate)
    (fate : Fate) : Prop :=
  ∃ why, verify candidate.path = .invalid why ∧ fate = .reject why ∧
    isYoung cutoff candidate = false

/-- From fewer slots, whatever stays for the blind floor stays or was rejected. -/
theorem stays_or_rejected {slots slots' : Nat} (hslots : slots ≤ slots')
    {candidate : Candidate}
    (hblind : (fateOf policy cutoff (blind reason) slots' candidate).stays = true) :
    (fateOf policy cutoff verify slots candidate).stays = true ∨
      Rejected cutoff verify candidate (fateOf policy cutoff verify slots candidate) := by
  have hfull : policy.isFull slots' = false → policy.isFull slots = false := by
    unfold Policy.isFull
    cases policy.keepLast with
    | none => exact id
    | some keepLast =>
        simp only [Option.any_some, decide_eq_false_iff_not]
        omega
  unfold fateOf at hblind ⊢
  split at hblind
  next hkeep =>
    obtain ⟨hyoung, hroom⟩ := Bool.and_eq_true_iff.mp hkeep
    simp [hyoung, hfull (by simpa using hroom), Fate.stays]
  next hkeep =>
    split at hblind
    next hcontests =>
      obtain ⟨hroom, hfew⟩ := Bool.and_eq_true_iff.mp hcontests
      have hroom' : policy.isFull slots' = false := by simpa using hroom
      have hold := isYoung_of_contests policy cutoff hkeep hroom'
      have hfew' : slots < policy.keepMinimum := by
        have := of_decide_eq_true hfew
        omega
      simp only [hold, hfull hroom', hfew', Bool.not_false, Bool.false_and, Bool.true_and,
        decide_true, if_true, Bool.false_eq_true, if_false]
      cases hverdict : verify candidate.path with
      | valid => exact .inl rfl
      | unverifiable why => exact .inl rfl
      | invalid why => exact .inr ⟨why, hverdict, rfl, hold⟩
    next => cases hblind

/-- The seeing plan is never ahead in slots. -/
theorem spend_le {slots slots' : Nat} (hslots : slots ≤ slots') (candidate : Candidate) :
    (fateOf policy cutoff verify slots candidate).spend slots ≤
      (fateOf policy cutoff (blind reason) slots' candidate).spend slots' := by
  rcases Nat.lt_or_eq_of_le hslots with hlt | rfl
  · unfold Fate.spend
    split <;> split <;> omega
  · -- From the same slots, what stays for the seeing plan stays for the blind one.
    have hstays : (fateOf policy cutoff verify slots candidate).stays = true →
        (fateOf policy cutoff (blind reason) slots candidate).stays = true := by
      unfold fateOf
      split
      next => exact id
      next =>
        split
        next => exact fun _ => rfl
        next => exact id
    unfold Fate.spend
    split
    next h => rw [if_pos (hstays h)]
    next => split <;> omega

theorem fates_blind {slots slots' : Nat} (hslots : slots ≤ slots') (candidates : List Candidate) :
    List.Forall₂ (fun e e' => e.1 = e'.1 ∧
        (e'.2.stays = true → e.2.stays = true ∨ Rejected cutoff verify e.1 e.2))
      (fates policy cutoff verify slots candidates)
      (fates policy cutoff (blind reason) slots' candidates) := by
  induction candidates generalizing slots slots' with
  | nil => exact .nil
  | cons candidate candidates ih =>
      exact .cons ⟨rfl, stays_or_rejected hslots⟩ (ih (spend_le hslots candidate))

/-- Without rejections, both plans decide alike. -/
theorem fates_forget {slots : Nat} {candidates : List Candidate}
    (hsound : ∀ candidate ∈ candidates, ∀ why, verify candidate.path ≠ .invalid why) :
    (fates policy cutoff verify slots candidates).map (fun e => (e.1, e.2.forget)) =
      (fates policy cutoff (blind reason) slots candidates).map
        (fun e => (e.1, e.2.forget)) := by
  induction candidates generalizing slots with
  | nil => rfl
  | cons candidate candidates ih =>
      obtain ⟨hfirst, hrest⟩ := List.forall_mem_cons.mp hsound
      have hforget : (fateOf policy cutoff verify slots candidate).forget =
          (fateOf policy cutoff (blind reason) slots candidate).forget := by
        unfold fateOf
        split
        next => rfl
        next =>
          split
          next =>
            cases hverdict : verify candidate.path with
            | valid => rfl
            | unverifiable why => rfl
            | invalid why => exact absurd hverdict (hfirst why)
          next => rfl
      have hspend : ∀ fate : Fate, fate.spend slots = fate.forget.spend slots := by
        intro fate
        cases fate <;> rfl
      simp only [fates, List.map_cons, hforget, List.cons.injEq, true_and]
      rw [hspend, hforget, ← hspend]
      exact ih hrest

end Blind

/-- Verifying removes, beyond what a floor that does not look removes, only archives that are
rejected and past the cutoff; and nothing changes where no archive is rejected. -/
theorem plan_removes_as_blind (candidates : List Candidate) (policy : Policy) (now : Int)
    (verify : Key → Verdict) (reason : Key → String) :
    let seeing := plan candidates policy now verify
    let unseeing := plan candidates policy now (blind reason)
    (∀ path ∈ seeing.remove, path ∉ unseeing.remove → ∃ candidate ∈ candidates, ∃ why,
      candidate.path = path ∧ verify path = .invalid why ∧ (path, why) ∈ seeing.invalid ∧
        isYoung (policy.cutoff now) candidate = false) ∧
    (∀ path ∈ seeing.remove, verify path = .valid → path ∈ unseeing.remove) ∧
    ((∀ candidate ∈ candidates, ∀ why, verify candidate.path ≠ .invalid why) →
      seeing.remove = unseeing.remove ∧ seeing.keep = unseeing.keep ∧
        seeing.exempt = unseeing.exempt) := by
  intro seeing unseeing
  have hnew : ∀ path ∈ seeing.remove, path ∉ unseeing.remove → ∃ candidate ∈ candidates, ∃ why,
      candidate.path = path ∧ verify path = .invalid why ∧ (path, why) ∈ seeing.invalid ∧
        isYoung (policy.cutoff now) candidate = false := by
    intro path hpath hkept
    rw [show seeing = _ from plan_eq candidates policy now verify] at hpath ⊢
    rw [show unseeing = _ from plan_eq candidates policy now (blind reason)] at hkept
    obtain ⟨e, he, rfl⟩ := List.mem_map.mp hpath
    obtain ⟨hmem, hgone⟩ := List.mem_filter.mp he
    obtain ⟨e', he', heq, hblind⟩ := exists_of_forall₂ (fates_blind le_rfl _) hmem
    have hstays : e'.2.stays = true := by
      by_contra hnot
      refine hkept (List.mem_map.mpr ⟨e', List.mem_filter.mpr ⟨he', by simpa using hnot⟩, ?_⟩)
      rw [heq]
    obtain ⟨why, hverdict, hreject, hold⟩ := (hblind hstays).resolve_left (by simpa using hgone)
    have hlisted : e.1 ∈ (fates policy (policy.cutoff now) verify 0
        (newestFirst candidates)).map Prod.fst := List.mem_map_of_mem hmem
    rw [fates_fst, (newestFirst_perm candidates).mem_iff] at hlisted
    exact ⟨e.1, hlisted, why, rfl, hverdict,
      List.mem_filterMap.mpr ⟨e, hmem, by rw [hreject]⟩, hold⟩
  refine ⟨hnew, ?_, ?_⟩
  · intro path hpath hvalid
    by_contra hkept
    obtain ⟨candidate, -, why, -, hinvalid, -⟩ := hnew path hpath hkept
    rw [hvalid] at hinvalid
    cases hinvalid
  · intro hsound
    have hforget : (fates policy (policy.cutoff now) verify 0 (newestFirst candidates)).map
        (fun e => (e.1, e.2.forget)) =
        (fates policy (policy.cutoff now) (blind reason) 0 (newestFirst candidates)).map
          fun e => (e.1, e.2.forget) :=
      fates_forget fun candidate hcandidate =>
        hsound candidate ((newestFirst_perm candidates).mem_iff.mp hcandidate)
    have hseeing := Plan.ofFates_forget
      (fates policy (policy.cutoff now) verify 0 (newestFirst candidates))
    have hunseeing := Plan.ofFates_forget
      (fates policy (policy.cutoff now) (blind reason) 0 (newestFirst candidates))
    rw [hforget] at hseeing
    rw [show seeing = _ from plan_eq candidates policy now verify,
      show unseeing = _ from plan_eq candidates policy now (blind reason)]
    exact ⟨hseeing.1.trans hunseeing.1.symm, hseeing.2.1.trans hunseeing.2.1.symm,
      hseeing.2.2.trans hunseeing.2.2.symm⟩

/-! ## Asking -/

/-- Asking whether an archive reads back. -/
@[reducible] def VerifySig : Sig where
  Cmd := Key
  Ans _ := Verdict

/-- Decide on one archive, asking whether it reads back if it contests a slot. -/
def planOneAsking (policy : Policy) (cutoff : Option Int) (state : Nat × Plan)
    (candidate : Candidate) : Prog VerifySig (Nat × Plan) :=
  let (slots, plan) := state
  let path := candidate.path
  let beyondCeiling := policy.isFull slots
  let withinRetention := isYoung cutoff candidate
  if withinRetention && !beyondCeiling then
    return (slots + 1, { plan with keep := plan.keep ++ [path] })
  else if !beyondCeiling && decide (slots < policy.keepMinimum) then do
    match ← Prog.perform (S := VerifySig) path with
    | .invalid reason =>
        let rejected := { plan with invalid := plan.invalid ++ [(path, reason)] }
        return (slots, rejected.drop path withinRetention)
    | .valid => return (slots + 1, { plan with exempt := plan.exempt ++ [path] })
    | .unverifiable reason =>
        return (slots + 1, { plan with
          unverifiable := plan.unverifiable ++ [(path, reason)]
          exempt := plan.exempt ++ [path] })
  else return (slots, plan.drop path withinRetention)

/-- Apply a policy at a time, asking about the archives that contest a slot. -/
def planning (candidates : List Candidate) (policy : Policy) (now : Int) :
    Prog VerifySig Plan := do
  let (_, plan) ← (newestFirst candidates).foldlM (planOneAsking policy (policy.cutoff now))
    (0, Plan.empty)
  return plan

/-- The answers of a run are those of a function. -/
def AnsweredBy (verify : Key → Verdict) (calls : List (Event VerifySig)) : Prop :=
  ∀ e ∈ calls, e.ans = verify e.cmd

/-- The questions about archives with some fates. -/
def questions (decided : List (Candidate × Fate)) : List Key :=
  (decided.filter fun e => e.2.asked).map fun e => e.1.path

section Asking

variable {policy : Policy} {cutoff : Option Int} (verify : Key → Verdict)

theorem planOneAsking_yields (slots : Nat) (plan : Plan) (candidate : Candidate) :
    (planOneAsking policy cutoff (slots, plan) candidate).Yields fun state calls =>
      AnsweredBy verify calls →
        state = planOne policy cutoff verify (slots, plan) candidate ∧
          calls.map Event.cmd =
            questions [(candidate, fateOf policy cutoff verify slots candidate)] := by
  rw [planOne_eq]
  unfold planOneAsking fateOf
  by_cases hkeep : (isYoung cutoff candidate && !policy.isFull slots) = true
  · simp only [hkeep, if_true]
    exact fun _ => ⟨rfl, rfl⟩
  · rw [Bool.not_eq_true] at hkeep
    by_cases hcontests : (!policy.isFull slots && decide (slots < policy.keepMinimum)) = true
    · simp only [hkeep, hcontests, Bool.false_eq_true, if_false, if_true]
      intro answer
      have hanswer : AnsweredBy verify [⟨candidate.path, answer⟩] →
          answer = verify candidate.path := fun h => h _ List.mem_cons_self
      cases answer with
      | valid =>
          intro h
          rw [← hanswer h]
          exact ⟨rfl, rfl⟩
      | unverifiable why =>
          intro h
          rw [← hanswer h]
          exact ⟨rfl, rfl⟩
      | invalid why =>
          intro h
          rw [← hanswer h]
          refine ⟨?_, rfl⟩
          have hroom : policy.isFull slots = false := by
            simpa using (Bool.and_eq_true_iff.mp hcontests).1
          have hold := isYoung_of_contests policy cutoff (Bool.not_eq_true _ ▸ hkeep) hroom
          simp [Fate.ofVerdict, Plan.put, Plan.drop, Fate.spend, Fate.stays, hold]
    · rw [Bool.not_eq_true] at hcontests
      simp only [hkeep, hcontests, Bool.false_eq_true, if_false]
      exact fun _ => ⟨rfl, rfl⟩

/-- Asking as the plan goes makes the plan of the answers, and asks about the archives whose
fate the answers decide. -/
theorem planning_yields (candidates : List Candidate) (now : Int) :
    (planning candidates policy now).Yields fun made calls => AnsweredBy verify calls →
      made = plan candidates policy now verify ∧ calls.map Event.cmd =
        questions (fates policy (policy.cutoff now) verify 0 (newestFirst candidates)) := by
  have hfold : ∀ (todo : List Candidate) (slots : Nat) (plan : Plan),
      (todo.foldlM (planOneAsking policy (policy.cutoff now)) (slots, plan)).Yields
        fun state calls => AnsweredBy verify calls →
          state = todo.foldl (planOne policy (policy.cutoff now) verify) (slots, plan) ∧
            calls.map Event.cmd =
              questions (fates policy (policy.cutoff now) verify slots todo) := by
    intro todo
    induction todo with
    | nil => exact fun slots plan _ => ⟨rfl, rfl⟩
    | cons candidate todo ih =>
        intro slots plan
        rw [List.foldlM_cons]
        refine Prog.Yields.bind ((planOneAsking_yields verify slots plan candidate).mono ?_)
        intro state first hfirst
        refine (ih state.1 state.2).mono ?_
        intro final rest hrest hanswered
        obtain ⟨hstate, hasked⟩ := hfirst fun e he => hanswered e (List.mem_append_left _ he)
        obtain ⟨hfinal, hrested⟩ := hrest fun e he => hanswered e (List.mem_append_right _ he)
        rw [planOne_eq] at hstate
        subst hstate
        refine ⟨?_, ?_⟩
        · rw [hfinal, List.foldl_cons, planOne_eq]
        · rw [List.map_append, hasked, hrested, questions, questions, questions, fates,
            ← List.map_append, ← List.filter_append, List.singleton_append]
  refine Prog.Yields.bind ((hfold (newestFirst candidates) 0 .empty).mono ?_)
  intro state calls h hanswered
  rw [show calls ++ [] = calls from List.append_nil calls] at hanswered ⊢
  obtain ⟨rfl, hasked⟩ := h hanswered
  exact ⟨rfl, hasked⟩

end Asking

/-! ## The books -/

section Books

variable {policy : Policy} {cutoff : Option Int} {verify : Key → Verdict}

/-- The ceiling bounds the slots. -/
theorem spent_le_keepLast (cutoff : Option Int) (verify : Key → Verdict) {keepLast : Nat}
    (hlast : policy.keepLast = some keepLast) {slots : Nat} (hslots : slots ≤ keepLast)
    (candidates : List Candidate) :
    spent slots (fates policy cutoff verify slots candidates) ≤ keepLast := by
  induction candidates generalizing slots with
  | nil => simpa [spent, fates] using hslots
  | cons candidate candidates ih =>
      have hroom : (fateOf policy cutoff verify slots candidate).stays = true →
          slots + 1 ≤ keepLast := by
        intro hstays
        have hfull : policy.isFull slots = false := by
          unfold fateOf at hstays
          split at hstays
          next hkeep => simpa using (Bool.and_eq_true_iff.mp hkeep).2
          next =>
            split at hstays
            next hcontests => simpa using (Bool.and_eq_true_iff.mp hcontests).1
            next => cases hstays
        have hlt : slots < keepLast := by simpa [Policy.isFull, hlast] using hfull
        exact hlt
      have hspend : (fateOf policy cutoff verify slots candidate).spend slots ≤ keepLast := by
        unfold Fate.spend
        split
        next hstays => exact hroom hstays
        next => exact hslots
      rw [fates, spent_cons]
      exact ih hspend

/-- Below the floor, an archive stays or was answered to be invalid. -/
theorem stays_or_reject {slots : Nat} (hslots : slots < policy.keepMinimum)
    (candidate : Candidate) :
    (fateOf policy cutoff verify slots candidate).stays = true ∨
      ∃ why, fateOf policy cutoff verify slots candidate = .reject why := by
  have hfull := Policy.isFull_eq_false hslots
  unfold fateOf
  split
  next => exact .inl rfl
  next =>
    rw [if_pos (by simp [hfull, hslots])]
    cases verify candidate.path with
    | valid => exact .inl rfl
    | unverifiable why => exact .inl rfl
    | invalid why => exact .inr ⟨why, rfl⟩

/-- Whether an archive was answered to be invalid. -/
def Fate.isReject : Fate → Bool
  | .reject _ => true
  | _ => false

/-- The floor bounds the slots from below. -/
theorem le_spent (policy : Policy) (cutoff : Option Int) (verify : Key → Verdict) (slots : Nat)
    (candidates : List Candidate) :
    min policy.keepMinimum (slots + candidates.length -
        (fates policy cutoff verify slots candidates).countP fun e => e.2.isReject) ≤
      spent slots (fates policy cutoff verify slots candidates) := by
  induction candidates generalizing slots with
  | nil => simp [spent, fates]
  | cons candidate candidates ih =>
      by_cases hslots : slots < policy.keepMinimum
      · have hrest := ih ((fateOf policy cutoff verify slots candidate).spend slots)
        rw [fates, spent_cons, List.countP_cons, List.length_cons]
        rcases stays_or_reject hslots candidate with hstays | ⟨why, hreject⟩
        · have hnot : (fateOf policy cutoff verify slots candidate).isReject = false := by
            cases hfate : fateOf policy cutoff verify slots candidate with
            | reject why => rw [hfate] at hstays; cases hstays
            | keep | exempt | drop => rfl
          simp only [Fate.spend, hstays, hnot, if_true, Bool.false_eq_true, if_false] at hrest ⊢
          omega
        · simp only [hreject, Fate.spend, Fate.stays, Fate.isReject, if_true, Bool.false_eq_true,
            if_false] at hrest ⊢
          omega
      · simp only [spent]
        omega

/-- An archive that is kept outside the floor is young. -/
theorem isYoung_of_keep {slots : Nat} {candidate : Candidate}
    (h : fateOf policy cutoff verify slots candidate = .keep) :
    isYoung cutoff candidate = true := by
  unfold fateOf at h
  split at h
  next hkeep => exact (Bool.and_eq_true_iff.mp hkeep).1
  next =>
    split at h
    next => cases hverdict : verify candidate.path <;> rw [hverdict] at h <;> cases h
    next => cases h

/-- A young archive that does not stay was dropped by the ceiling. -/
theorem drop_of_isYoung {slots : Nat} {candidate : Candidate}
    (hyoung : isYoung cutoff candidate = true)
    (h : (fateOf policy cutoff verify slots candidate).stays = false) :
    fateOf policy cutoff verify slots candidate = .drop true ∧ policy.isFull slots = true := by
  cases hfull : policy.isFull slots with
  | false => simp [fateOf, hyoung, hfull, Fate.stays] at h
  | true => exact ⟨by simp [fateOf, hyoung, hfull], rfl⟩

/-- An archive that is asked about is old, and the floor was not reached. -/
theorem old_of_asked {slots : Nat} {candidate : Candidate}
    (h : (fateOf policy cutoff verify slots candidate).asked = true) :
    isYoung cutoff candidate = false ∧ slots < policy.keepMinimum := by
  unfold fateOf at h
  split at h
  next => cases h
  next hkeep =>
    split at h
    next hcontests =>
      obtain ⟨hroom, hfew⟩ := Bool.and_eq_true_iff.mp hcontests
      exact ⟨isYoung_of_contests policy cutoff hkeep (by simpa using hroom),
        of_decide_eq_true hfew⟩
    next => cases h

end Books

/-- What stays, as candidates. -/
def survivors (candidates : List Candidate) (plan : Plan) : List Candidate :=
  candidates.filter fun candidate => candidate.path ∈ plan.kept

/-- How many survivors are newer than a candidate. -/
def newerSurvivors (candidates : List Candidate) (plan : Plan) (candidate : Candidate) : Nat :=
  (survivors candidates plan).countP fun other => decide (candidate.takenAt < other.takenAt)

/-- What a plan guarantees of its lists and of the questions asked for it. -/
structure Plan.Books (policy : Policy) (candidates : List Candidate) (now : Int) (plan : Plan)
    (asked : List Key) : Prop where
  partition : (plan.remove ++ plan.keep ++ plan.exempt).Perm (candidates.map Candidate.path)
  ceiling : ∀ keepLast, policy.keepLast = some keepLast → plan.kept.length ≤ keepLast
  floor : min policy.keepMinimum (candidates.length - plan.invalid.length) ≤ plan.kept.length
  young : ∀ candidate ∈ candidates, candidate.path ∈ plan.kept → candidate.path ∉ plan.exempt →
    isYoung (policy.cutoff now) candidate = true
  removedYoung : ∀ candidate ∈ candidates, candidate.path ∈ plan.remove →
    isYoung (policy.cutoff now) candidate = true → candidate.path ∈ plan.removedByCeiling ∧
      ∃ keepLast, policy.keepLast = some keepLast ∧
        keepLast ≤ newerSurvivors candidates plan candidate
  askedOnce : asked.Nodup
  askedOld : ∀ path ∈ asked, ∃ candidate ∈ candidates, candidate.path = path ∧
    isYoung (policy.cutoff now) candidate = false ∧
      newerSurvivors candidates plan candidate < policy.keepMinimum

section Lists

variable {policy : Policy} {candidates : List Candidate} {now : Int} {verify : Key → Verdict}

/-- What is kept is what stays. -/
theorem kept_perm (decided : List (Candidate × Fate)) : (Plan.ofFates decided).kept.Perm
    ((decided.filter fun e => e.2.stays).map fun e => e.1.path) := by
  have hkeep : ∀ e ∈ decided, (e.2 == Fate.keep) = (e.2 == Fate.keep && e.2.stays) := by
    intro e _
    cases e.2 <;> rfl
  have hexempt : ∀ e ∈ decided, (e.2.stays && e.2 != Fate.keep) =
      (!(e.2 == Fate.keep) && e.2.stays) := fun e _ => Bool.and_comm _ _
  rw [Plan.kept, Plan.ofFates, ← List.map_append, List.filter_congr hkeep,
    List.filter_congr hexempt, ← List.filter_filter, ← List.filter_filter]
  exact (List.filter_append_perm _ _).map _

theorem kept_length (decided : List (Candidate × Fate)) :
    (Plan.ofFates decided).kept.length = decided.countP fun e => e.2.stays := by
  rw [(kept_perm decided).length_eq, List.length_map, List.countP_eq_length_filter]

theorem invalid_length (decided : List (Candidate × Fate)) :
    (Plan.ofFates decided).invalid.length = decided.countP fun e => e.2.isReject := by
  induction decided with
  | nil => rfl
  | cons e decided ih =>
      obtain ⟨candidate, fate⟩ := e
      rw [List.countP_cons, ← ih]
      cases fate <;> rfl

/-- The fates are those of the candidates. -/
theorem fates_paths : ((fates policy (policy.cutoff now) verify 0 (newestFirst candidates)).map
    fun e => e.1.path).Perm (candidates.map Candidate.path) := by
  have hmap := congrArg (List.map Candidate.path)
    (fates_fst policy (policy.cutoff now) verify 0 (newestFirst candidates))
  rw [List.map_map] at hmap
  exact (List.Perm.of_eq hmap).trans ((newestFirst_perm candidates).map _)

section Distinct

variable (hpaths : (candidates.map Candidate.path).Nodup)

include hpaths

/-- Fates go by the paths of their archives. -/
theorem fate_inj {e e' : Candidate × Fate}
    (he : e ∈ fates policy (policy.cutoff now) verify 0 (newestFirst candidates))
    (he' : e' ∈ fates policy (policy.cutoff now) verify 0 (newestFirst candidates))
    (hpath : e.1.path = e'.1.path) : e = e' := by
  have hnodup : ((fates policy (policy.cutoff now) verify 0 (newestFirst candidates)).map
      fun e => e.1.path).Nodup := fates_paths.nodup_iff.mpr hpaths
  exact List.inj_on_of_nodup_map hnodup he he' hpath

/-- An archive is kept when its fate is to stay. -/
theorem mem_kept {e : Candidate × Fate}
    (he : e ∈ fates policy (policy.cutoff now) verify 0 (newestFirst candidates)) :
    e.1.path ∈ (plan candidates policy now verify).kept ↔ e.2.stays = true := by
  rw [plan_eq, (kept_perm _).mem_iff]
  constructor
  · intro h
    obtain ⟨e', he', hpath⟩ := List.mem_map.mp h
    obtain ⟨hmem, hstays⟩ := List.mem_filter.mp he'
    rwa [fate_inj hpaths he hmem hpath.symm]
  · exact fun h => List.mem_map.mpr ⟨e, List.mem_filter.mpr ⟨he, h⟩, rfl⟩

/-- The slots that are spent when an archive's turn comes are its newer survivors. -/
theorem spent_eq_newerSurvivors (htimes : (candidates.map Candidate.takenAt).Nodup)
    {before after : List (Candidate × Fate)} {e : Candidate × Fate}
    (hsplit : fates policy (policy.cutoff now) verify 0 (newestFirst candidates) =
      before ++ e :: after) :
    spent 0 before = newerSurvivors candidates (plan candidates policy now verify) e.1 := by
  have hplace : newestFirst candidates = before.map Prod.fst ++ e.1 :: after.map Prod.fst := by
    rw [← fates_fst policy (policy.cutoff now) verify 0 (newestFirst candidates), hsplit,
      List.map_append, List.map_cons]
  have hcount := countP_before htimes hplace
    fun other => decide (other.path ∈ (plan candidates policy now verify).kept)
  rw [newerSurvivors, survivors, List.countP_filter]
  simp only [Bool.and_comm (decide (_ < _))] at hcount ⊢
  rw [hcount, List.countP_map, spent, Nat.zero_add]
  refine List.countP_congr fun e' he' => ?_
  have hmem : e' ∈ fates policy (policy.cutoff now) verify 0 (newestFirst candidates) :=
    hsplit ▸ List.mem_append_left _ he'
  simp [mem_kept hpaths hmem]

/-- The lists of a plan and the questions asked for it keep the books. -/
theorem plan_books (htimes : (candidates.map Candidate.takenAt).Nodup) :
    (plan candidates policy now verify).Books policy candidates now
      (questions (fates policy (policy.cutoff now) verify 0 (newestFirst candidates))) := by
  have hplan := plan_eq candidates policy now verify
  have hfst := fates_fst policy (policy.cutoff now) verify 0 (newestFirst candidates)
  have hfate : ∀ candidate ∈ candidates, ∃ fate, (candidate, fate) ∈
      fates policy (policy.cutoff now) verify 0 (newestFirst candidates) := by
    intro candidate hcandidate
    obtain ⟨before, fate, after, hsplit, -⟩ := exists_fate hcandidate
    exact ⟨fate, hsplit ▸ List.mem_append_right _ List.mem_cons_self⟩
  have hmem : ∀ e ∈ fates policy (policy.cutoff now) verify 0 (newestFirst candidates),
      e.1 ∈ candidates := by
    intro e he
    have hlisted := List.mem_map_of_mem (f := Prod.fst) he
    rwa [hfst, (newestFirst_perm candidates).mem_iff] at hlisted
  refine ⟨?_, ?_, ?_, ?_, ?_, ?_, ?_⟩
  · -- What does not stay is removed, and what stays is kept.
    rw [List.append_assoc]
    show ((plan candidates policy now verify).remove ++
      (plan candidates policy now verify).kept).Perm _
    rw [hplan]
    refine (List.Perm.append_left _ (kept_perm _)).trans ?_
    rw [Plan.ofFates, ← List.map_append]
    exact ((List.perm_append_comm.trans (List.filter_append_perm _ _)).map _).trans fates_paths
  · intro keepLast hlast
    have hspent := spent_le_keepLast (policy.cutoff now) verify hlast (Nat.zero_le _)
      (newestFirst candidates)
    rw [hplan, kept_length]
    simpa [spent] using hspent
  · have hspent := le_spent policy (policy.cutoff now) verify 0 (newestFirst candidates)
    rw [hplan, kept_length, invalid_length]
    simpa [spent, (newestFirst_perm candidates).length_eq] using hspent
  · intro candidate hcandidate hkept hexempt
    obtain ⟨fate, hfate⟩ := hfate candidate hcandidate
    obtain ⟨slots, hdecided⟩ := exists_fateOf hfate
    have hstays := (mem_kept hpaths hfate).mp hkept
    have hkeep : fate = .keep := by
      by_contra hnot
      refine hexempt ?_
      rw [hplan]
      refine List.mem_map.mpr ⟨_, List.mem_filter.mpr ⟨hfate, ?_⟩, rfl⟩
      simpa [hstays] using hnot
    exact isYoung_of_keep (hdecided.symm.trans hkeep)
  · intro candidate hcandidate hremoved hyoung
    obtain ⟨fate, hfate⟩ := hfate candidate hcandidate
    obtain ⟨before, after, hsplit⟩ := List.append_of_mem hfate
    have hdecided := fates_split policy (policy.cutoff now) verify hsplit
    have hgone : fate.stays = false := by
      rw [hplan] at hremoved
      obtain ⟨e, he, hpath⟩ := List.mem_map.mp hremoved
      obtain ⟨hlisted, hout⟩ := List.mem_filter.mp he
      obtain rfl := fate_inj hpaths hlisted hfate hpath
      simpa using hout
    rw [hdecided] at hgone
    obtain ⟨hdrop, hfull⟩ := drop_of_isYoung hyoung hgone
    constructor
    · rw [hplan]
      refine List.mem_map.mpr ⟨_, List.mem_filter.mpr ⟨hfate, ?_⟩, rfl⟩
      rw [hdecided, hdrop]
      rfl
    · rw [spent_eq_newerSurvivors hpaths htimes hsplit] at hfull
      cases hlast : policy.keepLast with
      | none => simp [Policy.isFull, hlast] at hfull
      | some keepLast => exact ⟨keepLast, rfl, by simpa [Policy.isFull, hlast] using hfull⟩
  · exact (fates_paths.nodup_iff.mpr hpaths).sublist (List.filter_sublist.map _)
  · intro path hpath
    obtain ⟨e, he, rfl⟩ := List.mem_map.mp hpath
    obtain ⟨hlisted, hasked⟩ := List.mem_filter.mp he
    obtain ⟨before, after, hsplit⟩ := List.append_of_mem hlisted
    have hdecided := fates_split policy (policy.cutoff now) verify hsplit
    rw [hdecided] at hasked
    obtain ⟨hold, hfew⟩ := old_of_asked hasked
    rw [spent_eq_newerSurvivors hpaths htimes hsplit] at hfew
    exact ⟨e.1, hmem e hlisted, rfl, hold, hfew⟩

end Distinct

end Lists

/-- Every plan keeps its books: the lists, the bounds and the questions asked for it. -/
theorem plan_keeps_books (candidates : List Candidate) (policy : Policy) (now : Int)
    (verify : Key → Verdict) (hpaths : (candidates.map Candidate.path).Nodup)
    (htimes : (candidates.map Candidate.takenAt).Nodup) :
    (planning candidates policy now).Yields (fun made calls => AnsweredBy verify calls →
      made = plan candidates policy now verify ∧
        made.Books policy candidates now (calls.map Event.cmd)) ∧
      ∀ candidates', candidates.Perm candidates' →
        plan candidates' policy now verify = plan candidates policy now verify := by
  constructor
  · refine (planning_yields verify candidates now).mono ?_
    intro made calls h hanswered
    obtain ⟨rfl, hasked⟩ := h hanswered
    exact ⟨rfl, hasked ▸ plan_books hpaths htimes⟩
  · intro candidates' hperm
    rw [plan_eq, plan_eq, newestFirst_eq_of_perm htimes hperm]

/-- The books of the plan for the two archives. -/
theorem plan_keeps_books_twoArchives :
    (planning [TwoArchives.young, TwoArchives.old] TwoArchives.policy 120).Yields fun made calls =>
      AnsweredBy TwoArchives.verify calls →
        made.Books TwoArchives.policy [TwoArchives.young, TwoArchives.old] 120
          (calls.map Event.cmd) :=
  ((plan_keeps_books [TwoArchives.young, TwoArchives.old] TwoArchives.policy 120
    TwoArchives.verify (by decide) (by decide)).1).mono fun _ _ h hanswered => (h hanswered).2

end Fraisier.Db
