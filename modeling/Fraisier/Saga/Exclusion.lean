import Fraisier.Effect.Schedule
import Fraisier.Saga.Engine
import Fraisier.Saga.Locks

/-!
# Saga runs exclude each other

Any number of saga runs share one store, for the same and for different pairs, and a
schedule says whose call comes next. Each run keeps to `lockProtocol`, which lets it work
only between an acquired lock and its release. As the lock of every backend is a try-lock,
no two runs for one pair are there at the same time. Read `Exclusive` first, which says
this of the calls the runs have made; the main theorem is `Backend.runs_exclude`.
-/

namespace Fraisier.Saga

open Fraisier.Effect

variable {T : Sig}

/-! ## The calls of a run -/

/-- The call releases a lock. -/
def isRelease : (StoreSig.sum T).Cmd → Bool
  | .inl (.releaseLock _) => true
  | _ => false

/-- A run that made these calls is between acquiring the lock of the pair and releasing
it. -/
def Holds (key : FraiseKey) (calls : List (Event (StoreSig.sum T))) : Prop :=
  (∃ guard, ⟨.inl (.acquireLock key), .ok guard⟩ ∈ calls) ∧ ∀ e ∈ calls, isRelease e.cmd = false

/-- What holds of the runs of a pool at any time, `tags` being the calls each has made. -/
structure Exclusive {ι σ : Type} (key : ι → FraiseKey)
    (p : Pool ι (StoreSig.sum T) (List (Event (StoreSig.sum T))) σ) : Prop where
  /-- At most one run of a pair holds its lock. -/
  alone : ∀ i j, Holds (key i) (p.tags i) → Holds (key j) (p.tags j) → key i = key j → i = j
  /-- A step is called by a run that holds the lock. -/
  inside : ∀ i before c x after, p.tags i = before ++ ⟨.inr c, x⟩ :: after → Holds (key i) before
  /-- A run that is refused the lock makes no other call. -/
  refused : ∀ i error, ⟨.inl (.acquireLock (key i)), .error error⟩ ∈ p.tags i →
    p.tags i = [⟨.inl (.acquireLock (key i)), .error error⟩]
  /-- A run releases at most once, and then the lock that it acquired. -/
  releases : ∀ i guard x, ⟨.inl (.releaseLock guard), x⟩ ∈ p.tags i →
    guard.key = key i ∧ (p.tags i).countP (fun e => isRelease e.cmd) = 1
  /-- A run that acquired and has ended has released. -/
  released : ∀ i guard, ⟨.inl (.acquireLock (key i)), .ok guard⟩ ∈ p.tags i →
    p.threads i = .ret () → (p.tags i).countP (fun e => isRelease e.cmd) = 1

/-! ## The lock protocol -/

/-- How far a run has got with the lock. -/
inductive LockStage where
  | outside
  | refused
  | inside
  | released
deriving DecidableEq

/-- What a run does while it holds the lock. -/
def Works : (StoreSig.sum T).Cmd → Prop
  | .inl (.recordEvent _ _) => True
  | .inl (.recordState _ _) => True
  | .inl _ => False
  | .inr _ => True

/-- What a run for a pair does at each stage. -/
inductive LockMove : FraiseKey × LockStage → (c : (StoreSig.sum T).Cmd) →
    (StoreSig.sum T).Ans c → FraiseKey × LockStage → Prop where
  | refuse (key error) :
      LockMove (key, .outside) (.inl (.acquireLock key)) (.error error) (key, .refused)
  | acquire (key) :
      LockMove (key, .outside) (.inl (.acquireLock key)) (.ok ⟨key⟩) (key, .inside)
  | work (key c x) (hc : Works c) : LockMove (key, .inside) c x (key, .inside)
  | release (key x) :
      LockMove (key, .inside) (.inl (.releaseLock ⟨key⟩)) x (key, .released)

theorem LockMove.pair {φ φ' : FraiseKey × LockStage} {c : (StoreSig.sum T).Cmd}
    {x : (StoreSig.sum T).Ans c} (h : LockMove φ c x φ') : φ'.1 = φ.1 := by
  cases h <;> rfl

/-- A run releases the lock that it holds. -/
theorem LockMove.of_release {φ φ' : FraiseKey × LockStage} {guard : LockGuard}
    {x : (StoreSig.sum T).Ans (.inl (.releaseLock guard))}
    (h : LockMove φ (.inl (.releaseLock guard)) x φ') : guard.key = φ.1 ∧ φ.2 = .inside := by
  cases h with
  | work key c x hc => exact hc.elim
  | release key x => exact ⟨rfl, rfl⟩

/-- Any method may fail. The guard of a granted lock is for the pair it was asked for. -/
def LockAnswer : (c : (StoreSig.sum T).Cmd) → (StoreSig.sum T).Ans c → Prop
  | .inl (.acquireLock key), x => ∀ guard, x = .ok guard → guard = ⟨key⟩
  | _, _ => True

/-- A guard is determined by its pair. -/
theorem LockGuard.eq_of_key {guard : LockGuard} {key : FraiseKey} (h : guard.key = key) :
    guard = ⟨key⟩ := by
  subst h
  rfl

/-- The protocol of the runs with the locks. -/
def lockProtocol (T : Sig) : Protocol (StoreSig.sum T) (FraiseKey × LockStage) where
  Possible := LockAnswer
  Move := LockMove

/-- Where a run may end. -/
def LockStage.Final : LockStage → Prop
  | .refused => True
  | .released => True
  | _ => False

section Follows

variable {R : Type}

theorem issues_inr {α : Type} (p : Prog T α) : (p.inr (S := StoreSig)).Issues Works := by
  induction p with
  | ret a => exact .ret a
  | call c k ih => exact ⟨trivial, ih⟩
  | choose k ih => exact ih

theorem issues_transition (key : FraiseKey) (source target : SagaState) :
    (transition (T := T) key source target).Issues Works := by
  refine Prog.Issues.bind (.perform trivial) fun x => ?_
  cases x with
  | error e => exact .ret _
  | ok u =>
      refine Prog.Issues.bind (.perform trivial) fun x => ?_
      cases x <;> exact .ret _

theorem issues_rollbackLoop [CharTables] (ctx : StepContext) (failed : String)
    (error : SagaError) (source : SagaState) (steps : List (Step T R)) (state : R) :
    (rollbackLoop ctx failed error source steps state).Issues Works := by
  induction steps generalizing source state with
  | nil =>
      refine Prog.Issues.bind (issues_transition _ _ _) fun x => ?_
      cases x <;> exact .ret _
  | cons step rest ih =>
      refine Prog.Issues.bind (issues_transition _ _ _) fun x => ?_
      cases x with
      | error e => exact .ret _
      | ok u =>
          refine Prog.Issues.bind (issues_inr _) fun result => ?_
          obtain ⟨_ | _, state'⟩ := result
          · refine Prog.Issues.bind (issues_transition _ _ _) fun x => ?_
            cases x <;> exact .ret _
          · exact ih _ _

theorem issues_executeLoop [CharTables] (ctx : StepContext) (source : SagaState)
    (completed steps : List (Step T R)) (state : R) :
    (executeLoop ctx source completed steps state).Issues Works := by
  induction steps generalizing source completed state with
  | nil =>
      refine Prog.Issues.bind (issues_transition _ _ _) fun x => ?_
      cases x <;> exact .ret _
  | cons step rest ih =>
      refine Prog.Issues.bind (issues_transition _ _ _) fun x => ?_
      cases x with
      | error e => exact .ret _
      | ok u =>
          refine Prog.Issues.bind (issues_inr _) fun result => ?_
          obtain ⟨_ | _, state'⟩ := result
          · exact issues_rollbackLoop _ _ _ _ _ _
          · exact ih _ _ _

/-- A run keeps to the protocol, whatever the store and the steps answer. -/
theorem follows_runWithState_lock [CharTables] (key : FraiseKey) (steps : List (Step T R))
    (state : R) :
    (lockProtocol T).Follows (runWithState key steps state) (fun _ φ => φ.2.Final)
      (key, .outside) := by
  intro x hx
  cases x with
  | error error => exact ⟨_, .refuse key error, trivial⟩
  | ok guard =>
      obtain rfl := hx guard rfl
      refine ⟨_, .acquire key, ?_⟩
      show (lockProtocol T).Follows (execute key steps state >>= _) _ _
      have hissues : (execute key steps state).Issues Works :=
        issues_executeLoop _ _ _ _ _
      refine Protocol.follows_bind (Protocol.follows_post ?_
        (hissues.follows fun c x hc => .work key c x hc))
      intro result φ hφ
      subst hφ
      obtain ⟨outcome, state'⟩ := result
      -- The release comes next whatever the outcome is.
      intro y _
      refine ⟨_, .release key y, ?_⟩
      cases y <;> cases outcome <;> trivial

end Follows

/-! ## The calls of a run at each stage -/

/-- The calls a run for a pair has made when it is at a stage. -/
inductive CallsAt : FraiseKey × LockStage → List (Event (StoreSig.sum T)) → Prop where
  | outside (key) : CallsAt (key, .outside) []
  | refused (key error) : CallsAt (key, .refused) [⟨.inl (.acquireLock key), .error error⟩]
  | inside (key during) (hworks : ∀ e ∈ during, Works e.cmd) :
      CallsAt (key, .inside) (⟨.inl (.acquireLock key), .ok ⟨key⟩⟩ :: during)
  | released (key during x) (hworks : ∀ e ∈ during, Works e.cmd) :
      CallsAt (key, .released)
        (⟨.inl (.acquireLock key), .ok ⟨key⟩⟩ :: during ++ [⟨.inl (.releaseLock ⟨key⟩), x⟩])

/-- Work is not a release. -/
theorem isRelease_of_works {c : (StoreSig.sum T).Cmd} (h : Works c) : isRelease c = false := by
  cases c with
  | inl c => cases c <;> first | rfl | exact h.elim
  | inr c => rfl

namespace CallsAt

variable {φ φ' : FraiseKey × LockStage} {calls : List (Event (StoreSig.sum T))}

/-- A move adds its call. -/
theorem move (h : CallsAt φ calls) {c : (StoreSig.sum T).Cmd} {x : (StoreSig.sum T).Ans c}
    (hmove : LockMove φ c x φ') : CallsAt φ' (calls ++ [⟨c, x⟩]) := by
  cases hmove with
  | refuse key error =>
      cases h
      exact .refused key error
  | acquire key =>
      cases h
      exact .inside key [] (by simp)
  | work key c x hc =>
      cases h with
      | inside key during hworks =>
          refine .inside key (during ++ [⟨c, x⟩]) ?_
          simpa [or_imp, forall_and] using ⟨hworks, hc⟩
  | release key x =>
      cases h with
      | inside key during hworks => exact .released key during x hworks

/-- The lock is held at one stage only. -/
theorem holds_iff (h : CallsAt φ calls) : Holds φ.1 calls ↔ φ.2 = .inside := by
  constructor
  · intro hholds
    obtain ⟨⟨guard, hacquired⟩, hkept⟩ := hholds
    cases h with
    | outside key => cases hacquired
    | refused key error =>
        have heq := List.mem_singleton.mp hacquired
        cases heq
    | inside key during hworks => rfl
    | released key during x hworks =>
        have hrelease := hkept ⟨.inl (.releaseLock ⟨key⟩), x⟩ (by simp)
        cases hrelease
  · intro hstage
    cases h with
    | inside key during hworks =>
        refine ⟨⟨⟨key⟩, List.mem_cons_self⟩, List.forall_mem_cons.mpr ⟨rfl, ?_⟩⟩
        exact fun e he => isRelease_of_works (hworks e he)
    | _ => cases hstage

theorem holds_acquired {key : FraiseKey} {during : List (Event (StoreSig.sum T))}
    (hworks : ∀ e ∈ during, Works e.cmd) :
    Holds key (⟨.inl (.acquireLock key), .ok ⟨key⟩⟩ :: during) :=
  (holds_iff (.inside key during hworks)).mpr rfl

/-- A step is only called with the lock held. -/
theorem holds_before_step (h : CallsAt φ calls) {before after : List (Event (StoreSig.sum T))}
    {c : T.Cmd} {x : T.Ans c} (hcalls : calls = before ++ ⟨.inr c, x⟩ :: after) :
    Holds φ.1 before := by
  cases before with
  | nil => cases h <;> cases hcalls
  | cons e before =>
      cases h with
      | outside key => cases hcalls
      | refused key error =>
          obtain ⟨-, hrest⟩ := List.cons.inj hcalls
          simp at hrest
      | inside key during hworks =>
          obtain ⟨rfl, rfl⟩ := List.cons.inj hcalls
          exact holds_acquired fun e he => hworks e (List.mem_append_left _ he)
      | released key during y hworks =>
          obtain ⟨rfl, hrest⟩ := List.cons.inj hcalls
          refine holds_acquired fun e he => ?_
          obtain ⟨rest, -, hlast⟩ | ⟨rest, rfl, -⟩ := List.append_eq_append_iff.mp hrest
          · -- the step would stand where the release does
            cases rest with
            | nil => cases hlast
            | cons e' rest => simp at hlast
          · exact hworks e (List.mem_append_left _ he)

/-- A refusal is the only call of its run. -/
theorem eq_of_refused (h : CallsAt φ calls) {error : StateStoreError}
    (hmem : ⟨.inl (.acquireLock φ.1), .error error⟩ ∈ calls) :
    calls = [⟨.inl (.acquireLock φ.1), .error error⟩] := by
  cases h with
  | outside key => cases hmem
  | refused key error' =>
      have heq := List.mem_singleton.mp hmem
      cases heq
      rfl
  | inside key during hworks =>
      rcases List.mem_cons.mp hmem with heq | hmem
      · cases heq
      · exact (hworks _ hmem).elim
  | released key during x hworks =>
      rcases List.mem_cons.mp hmem with heq | hmem
      · cases heq
      · rcases List.mem_append.mp hmem with hmem | hmem
        · exact (hworks _ hmem).elim
        · have heq := List.mem_singleton.mp hmem
          cases heq

/-- A run that is through with the lock has released it once. -/
theorem countP_isRelease (h : CallsAt φ calls) :
    calls.countP (fun e => isRelease e.cmd) = if φ.2 = .released then 1 else 0 := by
  have hworking : ∀ {during : List (Event (StoreSig.sum T))}, (∀ e ∈ during, Works e.cmd) →
      during.countP (fun e => isRelease e.cmd) = 0 := by
    intro during hworks
    refine List.countP_eq_zero.mpr fun e he => ?_
    simp [isRelease_of_works (hworks e he)]
  cases h with
  | outside key => rfl
  | refused key error => rfl
  | inside key during hworks =>
      rw [List.countP_cons, hworking hworks]
      rfl
  | released key during x hworks =>
      rw [List.cons_append, List.countP_cons, List.countP_append, hworking hworks]
      rfl

/-- The released lock is the one of the pair. -/
theorem key_of_release (h : CallsAt φ calls) {guard : LockGuard}
    {x : (StoreSig.sum T).Ans (.inl (.releaseLock guard))}
    (hmem : ⟨.inl (.releaseLock guard), x⟩ ∈ calls) :
    guard.key = φ.1 ∧ φ.2 = .released := by
  cases h with
  | outside key => cases hmem
  | refused key error =>
      have heq := List.mem_singleton.mp hmem
      cases heq
  | inside key during hworks =>
      rcases List.mem_cons.mp hmem with heq | hmem
      · cases heq
      · exact (hworks _ hmem).elim
  | released key during y hworks =>
      rcases List.mem_cons.mp hmem with heq | hmem
      · cases heq
      · rcases List.mem_append.mp hmem with hmem | hmem
        · exact (hworks _ hmem).elim
        · have heq := List.mem_singleton.mp hmem
          cases heq
          exact ⟨rfl, rfl⟩

/-- A run that has acquired the lock was not refused it. -/
theorem stage_of_acquired (h : CallsAt φ calls) {guard : LockGuard}
    (hmem : ⟨.inl (.acquireLock φ.1), .ok guard⟩ ∈ calls) :
    φ.2 ≠ .refused := by
  cases h with
  | refused key error =>
      have heq := List.mem_singleton.mp hmem
      cases heq
  | _ => simp

end CallsAt

/-! ## The runs of a pool -/

/-- What holds of the stages of the runs, their calls and the store at any time: a run at
the stage `inside` holds the lock of its slot, and no other run does. -/
structure Excluded {ι σ τ κ : Type} (slot : FraiseKey → κ) (held : σ → κ → Prop)
    (key : ι → FraiseKey) (phases : ι → FraiseKey × LockStage)
    (tags : ι → List (Event (StoreSig.sum T))) (s : σ × τ) : Prop where
  calls : ∀ i, CallsAt (phases i) (tags i)
  pair : ∀ i, (phases i).1 = key i
  held : ∀ i, (phases i).2 = .inside → held s.1 (slot (key i))
  alone : ∀ i j, (phases i).2 = .inside → (phases j).2 = .inside →
    slot (key i) = slot (key j) → i = j

section Runs

variable {ι σ τ κ : Type} [DecidableEq ι] {h : Handler StoreSig σ} {g : Handler T τ}
variable {slot : FraiseKey → κ} {held : σ → κ → Prop} {key : ι → FraiseKey}

omit [DecidableEq ι] in
theorem TryLock.kept_prod (hlock : TryLock h slot held) {c : (StoreSig.sum T).Cmd} {s : σ × τ}
    {k : κ} (hrelease : ∀ guard, c = .inl (.releaseLock guard) → slot guard.key ≠ k)
    (hheld : held s.1 k) : held ((h.prod g) c s).2.1 k := by
  cases c with
  | inl c => exact hlock.kept c s.1 k (fun guard hc => hrelease guard (congrArg _ hc)) hheld
  | inr c => exact hheld

theorem Excluded.step (hlock : TryLock h slot held) {phases : ι → FraiseKey × LockStage}
    {tags : ι → List (Event (StoreSig.sum T))} {s : σ × τ}
    (hI : Excluded slot held key phases tags s) {i : ι} {c : (StoreSig.sum T).Cmd}
    {x : (StoreSig.sum T).Ans c} {φ : FraiseKey × LockStage} (hx : ((h.prod g) c s).1 = x)
    (hmove : LockMove (phases i) c x φ) :
    Excluded slot held key (Function.update phases i φ)
      (Function.update tags i (tags i ++ [⟨c, x⟩])) ((h.prod g) c s).2 := by
  obtain ⟨hcalls, hpair, hheld, halone⟩ := hI
  -- A release frees the lock of a run that is inside, so no other run holds that lock.
  have hothers : ∀ j, j ≠ i → (phases j).2 = .inside →
      held ((h.prod g) c s).2.1 (slot (key j)) := by
    intro j hne hj
    refine hlock.kept_prod (fun guard hc hslot => hne ?_) (hheld j hj)
    subst hc
    obtain ⟨hguard, hinside⟩ := hmove.of_release
    rw [hguard, hpair i] at hslot
    exact halone j i hj hinside hslot.symm
  -- A lock that is granted was held by no other run.
  have hentered : φ.2 = .inside → held ((h.prod g) c s).2.1 (slot (key i)) ∧
      ∀ j, j ≠ i → (phases j).2 = .inside → slot (key i) ≠ slot (key j) := by
    intro hinside
    have hown := hpair i
    generalize hphase : phases i = ψ at hmove hown
    cases hmove with
    | refuse _ error => cases hinside
    | acquire _ =>
        obtain rfl := hown
        obtain ⟨-, hfree, hnow⟩ := hlock.granted (key i) ⟨key i⟩ s.1 hx
        exact ⟨hnow, fun j hne hj hslot => hfree (hslot ▸ hheld j hj)⟩
    | work _ c x hc =>
        have hi : (phases i).2 = .inside := by rw [hphase]
        refine ⟨hlock.kept_prod (fun guard hc' _ => ?_) (hheld i hi), ?_⟩
        · rw [hc'] at hc
          exact hc
        · exact fun j hne hj hslot => hne (halone j i hj hi hslot.symm)
    | release _ x => cases hinside
  refine ⟨?_, ?_, ?_, ?_⟩
  · intro j
    by_cases hj : j = i
    · subst hj
      simpa using (hcalls j).move hmove
    · simpa [hj] using hcalls j
  · intro j
    by_cases hj : j = i
    · subst hj
      simpa [hmove.pair] using hpair j
    · simpa [hj] using hpair j
  · intro j hj
    by_cases hji : j = i
    · subst hji
      exact (hentered (by simpa using hj)).1
    · exact hothers j hji (by simpa [hji] using hj)
  · intro j k hj hk hslot
    by_cases hji : j = i <;> by_cases hki : k = i
    · exact hji.trans hki.symm
    · subst hji
      exact absurd hslot ((hentered (by simpa using hj)).2 k hki (by simpa [hki] using hk))
    · subst hki
      exact absurd hslot.symm ((hentered (by simpa using hk)).2 j hji (by simpa [hji] using hj))
    · exact halone j k (by simpa [hji] using hj) (by simpa [hki] using hk) hslot

/-- A saga run: the pair it is for, its steps and the run state it starts with. -/
structure SagaRun (T : Sig) where
  R : Type
  key : FraiseKey
  steps : List (Step T R)
  state : R

/-- The run as a program. -/
def SagaRun.prog [CharTables] (run : SagaRun T) : Prog (StoreSig.sum T) Unit :=
  runWithState run.key run.steps run.state >>= fun _ => .ret ()

/-- Runs that have made no call yet. -/
def sagaPool [CharTables] (runs : ι → SagaRun T) (s : σ) :
    Pool ι (StoreSig.sum T) (List (Event (StoreSig.sum T))) σ :=
  ⟨fun i => (runs i).prog, fun _ => [], s⟩

omit [DecidableEq ι] in
/-- What the runs of a pool have called, if they kept to the protocol and the locks. -/
theorem Excluded.exclusive {phases : ι → FraiseKey × LockStage}
    {p : Pool ι (StoreSig.sum T) (List (Event (StoreSig.sum T))) (σ × τ)}
    (hI : Excluded slot held key phases p.tags p.state)
    (htracked : p.Tracked (lockProtocol T) (fun φ => φ.2.Final) phases) : Exclusive key p := by
  have hholds : ∀ i, Holds (key i) (p.tags i) ↔ (phases i).2 = .inside := by
    intro i
    rw [← hI.pair i]
    exact (hI.calls i).holds_iff
  refine ⟨?_, ?_, ?_, ?_, ?_⟩
  · intro i j hi hj hkey
    exact hI.alone i j ((hholds i).mp hi) ((hholds j).mp hj) (congrArg slot hkey)
  · intro i before c x after hcalls
    rw [← hI.pair i]
    exact (hI.calls i).holds_before_step hcalls
  · intro i error hrefused
    rw [← hI.pair i] at hrefused ⊢
    exact (hI.calls i).eq_of_refused hrefused
  · intro i guard x hrelease
    obtain ⟨hguard, hstage⟩ := (hI.calls i).key_of_release hrelease
    refine ⟨hguard.trans (hI.pair i), ?_⟩
    rw [(hI.calls i).countP_isRelease, if_pos hstage]
  · intro i guard hacquired hended
    rw [← hI.pair i] at hacquired
    have hstage := (hI.calls i).stage_of_acquired hacquired
    have hfinal := htracked i
    rw [hended] at hfinal
    rw [(hI.calls i).countP_isRelease]
    generalize hφ : phases i = φ at hstage hfinal
    obtain ⟨pair, stage⟩ := φ
    -- A run ends refused or released, and an acquired lock was not refused.
    cases stage with
    | released => rfl
    | refused => exact absurd rfl hstage
    | _ => exact hfinal.elim

/-- The runs keep to the protocol and to the locks under every schedule. -/
theorem TryLock.exclusive [CharTables] (hlock : TryLock h slot held) (g : Handler T τ)
    (runs : ι → SagaRun T) (s : σ × τ) (sched : List (ι × Bool)) :
    Exclusive (fun i => (runs i).key) ((sagaPool runs s).run (h.prod g).recording sched) := by
  have hpossible : ∀ tag c (k : (StoreSig.sum T).Ans c → Prog (StoreSig.sum T) Unit) s,
      (lockProtocol T).Possible c ((h.prod g).recording tag c k s).1 := by
    intro tag c k s
    cases c with
    | inl c =>
        cases c with
        | acquireLock key =>
            intro guard hguard
            obtain ⟨hkey, -⟩ := hlock.granted key guard s.1 hguard
            exact LockGuard.eq_of_key hkey
        | _ => trivial
    | inr c => trivial
  have hstart : (sagaPool runs s).Tracked (lockProtocol T) (fun φ => φ.2.Final)
      fun i => ((runs i).key, .outside) :=
    fun i => Protocol.follows_bind (follows_runWithState_lock _ _ _)
  have hempty : Excluded slot held (fun i => (runs i).key) (fun i => ((runs i).key, .outside))
      (sagaPool runs s).tags (sagaPool runs s).state :=
    { calls := fun i => .outside _
      pair := fun i => rfl
      held := fun i hi => by cases hi
      alone := fun i j hi => by cases hi }
  obtain ⟨phases, htracked, hI⟩ := Pool.run_tracked hpossible
    (I := Excluded slot held fun i => (runs i).key) (C := fun _ _ => True)
    (fun p phases i c k φ _ hI _ _ hmove _ => hI.step hlock rfl hmove) sched
    (Pool.along_of_forall fun _ _ => trivial) hstart hempty
  exact hI.exclusive htracked

end Runs

/-- Under every schedule of any number of saga runs over one store of any backend, the runs
of a pair exclude each other between acquiring its lock and releasing it, steps are called
there only, a refused run does nothing else, and a run that acquired releases exactly once.
A run that has its turn again and again ends. -/
theorem Backend.runs_exclude [CharTables] {ρ τ ι : Type} [DecidableEq ι]
    (stableHash : FraiseKey → UInt64) (b : Backend ρ) (g : Handler T τ) (runs : ι → SagaRun T)
    (s : b.State) (t : τ) (sched : List (ι × Bool)) :
    Exclusive (fun i => (runs i).key)
      ((sagaPool runs (s, t)).run ((b.store stableHash).prod g).recording sched) ∧
    ∀ i turns, Pool.Fair turns i → ∃ n,
      (((sagaPool runs (s, t)).run ((b.store stableHash).prod g).recording sched).run
        ((b.store stableHash).prod g).recording (Pool.turns turns n)).threads i = .ret () := by
  obtain ⟨κ, slot, held, hlock⟩ := b.tryLock stableHash
  exact ⟨hlock.exclusive g runs (s, t) sched, fun i turns hfair => Pool.exists_finished hfair⟩

end Fraisier.Saga
