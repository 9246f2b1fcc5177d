import Fraisier.Effect.Schedule
import Fraisier.Sync.Push

/-!
# Operators that share a remote

Any number of operators push and pull, in any interleaving, each from its own sync directory
to one remote that takes fast-forward updates only. Beside an operator's refs stands what it
last synced with the remote, what its `git push` did and what it was told. The main theorem
is `operators_sound`, and `operators_not_sound_conflict` is a run it says nothing about.
-/

namespace Fraisier.Sync

open Fraisier.Data Fraisier.Effect

/-! ## The world -/

/-- What a `git push` did to the remote. One that fails and moves nothing did nothing, also where
the remote has the commit already. -/
inductive PushEffect where
  | nothing
  | moved
  | held
deriving DecidableEq

/-- What becomes of a `git push`: it works, or it fails, perhaps after the remote moved. Its
combined output is some text. -/
inductive PushFault where
  | works (combined : String)
  | fails (moved : Bool) (combined : String)
deriving DecidableEq

/-- What an invocation meets: an error, the time, a ref or a state that is not found, and what
becomes of a push. -/
structure Fault where
  error : Option SyncError
  time : Nat
  unread : Bool
  push : PushFault

/-- An operator: the refs of its sync directory, the commit of each ref it last synced with
the remote, whether an operation is under way and what its `git push` did, the commits it
moved its refs to beside what was synced then, and what it was told beside what `git push`
did. -/
structure Operator where
  refs : String → Option Commit
  synced : String → Option Commit
  busy : Bool
  effect : PushEffect
  moves : List (Commit × Option Commit)
  told : List (Report × PushEffect)

/-- A new operator. -/
def Operator.new : Operator :=
  ⟨fun _ => none, fun _ => none, false, .nothing, [], []⟩

/-- The remote's refs, how many invocations were made, and the commits that operators were
told are pushed. -/
structure World where
  remote : String → Option Commit
  calls : Nat
  promised : List (String × Commit)

/-- Whether the remote takes a commit: only as a fast-forward. -/
def accepts (tip : Option Commit) (commit : Commit) : Bool :=
  match tip with
  | none => true
  | some tip => tip.isAncestor commit

/-- The remote takes a commit. -/
def World.take (w : World) (key : String) (commit : Commit) : World :=
  { w with remote := Function.update w.remote key (some commit) }

/-- The commit of a ref is synced with the remote. -/
def Operator.sync (o : Operator) (key : String) (commit : Commit) (effect : PushEffect) :
    Operator :=
  { o with synced := Function.update o.synced key (some commit), effect := effect }

/-- A `git push` of a ref. -/
def pushRef (o : Operator) (key : String) (w : World) : PushFault →
    (Bool × String) × Operator × World
  | .works combined =>
      match o.refs key with
      | none => ((false, combined), o, w)
      | some commit =>
          if w.remote key = some commit then ((true, combined), o.sync key commit .held, w)
          else if accepts (w.remote key) commit then
            ((true, combined), o.sync key commit .moved, w.take key commit)
          else ((false, combined), o, w)
  | .fails moved combined =>
      match o.refs key with
      | none => ((false, combined), o, w)
      | some commit =>
          if moved && accepts (w.remote key) commit then
            ((false, combined), o.sync key commit .moved, w.take key commit)
          else ((false, combined), o, w)

/-- A commit that was reported as pushed. -/
def promise (o : Operator) (w : World) : Report → World
  | .push key (.ok .pushed) =>
      match o.refs key with
      | some commit => { w with promised := (key, commit) :: w.promised }
      | none => w
  | _ => w

/-- Answer an invocation that meets no error. -/
def answer (fault : Fault) (o : Operator) (w : World) :
    (c : GitCall) → c.Value × Operator × World
  | .init => ((), o, w)
  | .revParse key => (if fault.unread then none else o.refs key, o, w)
  | .readState key => (if fault.unread then none else (o.refs key).map Commit.state, o, w)
  | .hashObject content => (content, o, w)
  | .mktree blob => (blob, o, w)
  | .commitTree tree parent message => (Commit.make parent tree message fault.time, o, w)
  | .updateRef key commit =>
      ((), { o with refs := Function.update o.refs key (some commit) }, w)
  | .push key => pushRef o key w fault.push
  | .lsRemote key => (w.remote key, o, w)
  | .fetch key =>
      ((), { o with
        refs := Function.update o.refs key (w.remote key)
        synced := Function.update o.synced key (w.remote key) }, w)
  | .report _ => ((), o, w)

/-- What is noted beside an invocation. -/
def Operator.note (o : Operator) : GitCall → Operator
  | .updateRef key commit => { o with busy := true, moves := (commit, o.synced key) :: o.moves }
  | .report report =>
      { o with busy := false, effect := .nothing, told := (report, o.effect) :: o.told }
  | _ => { o with busy := true }

/-- Carry out an invocation of an operator. The `n`-th one meets the `n`-th fault. -/
def gitMonitor (faults : Nat → Fault) : Monitor GitSig Operator World :=
  fun o c _ w =>
    let fault := faults w.calls
    let w := { w with calls := w.calls + 1 }
    match c with
    | .report report => (.ok (), o.note (.report report), promise o w report)
    | c =>
      match fault.error with
      | some error => (.error error, o.note c, w)
      | none =>
          let (value, o, w) := answer fault (o.note c) w c
          (.ok value, o, w)

/-- Operators with new sync directories, each with its operations. -/
def operators {ι : Type} (ops : ι → List Op) (remote : String → Option Commit) :
    Pool ι GitSig Operator World where
  threads i := operate (ops i)
  tags _ := .new
  state := ⟨remote, 0, []⟩

/-! ## What is asked of the operators, and of the pushes -/

/-- A commit is on the remote: the remote's commit of the key is built on it. -/
def OnRemote (w : World) (key : String) (commit : Commit) : Prop :=
  ∃ tip, w.remote key = some tip ∧ commit.isAncestor tip = true

/-- The commit is the base, or a commit built on it. -/
def BuiltOn (base : Option Commit) (commit : Commit) : Prop :=
  base = some commit ∨ ∃ state message time, commit = Commit.make base state message time

/-- What an operator was told of a push is what the push did. -/
def Truthful : Report × PushEffect → Prop
  | (.push _ outcome, effect) =>
      (outcome = .ok .pushed ↔ effect = .moved) ∧ (outcome = .ok .upToDate ↔ effect = .held)
  | (.pull _ _, _) => True

/-- What a push was told to have put on the remote is there, every operator was told the
truth, the refs of one without an operation under way are what it last synced, and no commit
was pushed but those and what is built on them. -/
structure Sound {ι : Type} (p : Pool ι GitSig Operator World) : Prop where
  lasting : ∀ e ∈ p.state.promised, OnRemote p.state e.1 e.2
  truthful : ∀ i, ∀ e ∈ (p.tags i).told, Truthful e
  synced : ∀ i, (p.tags i).busy = false → (p.tags i).refs = (p.tags i).synced
  built : ∀ i, ∀ e ∈ (p.tags i).moves, BuiltOn e.2 e.1

/-- A `git push` that goes well, of a ref of an operator: it moves the remote exactly when its
output does not say that everything is up to date, and what is not taken is no new commit. -/
def GoesWell (o : Operator) (key : String) (w : World) (fault : Fault) : Prop :=
  match fault.error, fault.push with
  | some _, _ => o.refs key = o.synced key
  | none, .fails moved _ =>
      o.refs key = o.synced key ∧ (moved = true → ∀ commit, o.refs key = some commit →
        accepts (w.remote key) commit = false)
  | none, .works combined =>
      ∀ commit, o.refs key = some commit →
        if w.remote key = some commit then containsText combined "up-to-date" = true
        else if accepts (w.remote key) commit then containsText combined "up-to-date" = false
        else o.refs key = o.synced key

/-- A `git rev-parse` that works finds the ref of a key if it is there. -/
def FindsRef (o : Operator) (key : String) (fault : Fault) : Prop :=
  fault.error = none → fault.unread = true → o.refs key = none

/-- What is asked of an invocation: a push goes well, and a ref that is there is found. -/
def GitCall.WellAnswered (o : Operator) (w : World) (fault : Fault) : GitCall → Prop
  | .revParse key => FindsRef o key fault
  | .push key => GoesWell o key w fault
  | _ => True

/-- The invocation that an operator comes to is answered well. -/
def PushesWell {ι : Type} (faults : Nat → Fault) (p : Pool ι GitSig Operator World) (i : ι) :
    Prop :=
  match p.threads i with
  | .call c _ => c.WellAnswered (p.tags i) p.state (faults p.state.calls)
  | _ => True

/-! ## The course of an operation -/

/-- Where an operation stands: nothing is moved, the local commit of a key is known, its ref
is moved, or its push was answered. -/
inductive Phase where
  | quiet
  | based (key : String) (parent : Option Commit)
  | moved (key : String)
  | answered (key : String) (x : Except SyncError (Bool × String))

/-- An invocation that looks, or makes an object. -/
def GitCall.Looks : GitCall → Prop
  | .init => True
  | .readState _ => True
  | .hashObject _ => True
  | .mktree _ => True
  | .commitTree _ _ _ => True
  | .lsRemote _ => True
  | _ => False

/-- A report that says of no push that it reached the remote. -/
def Report.Quiet : Report → Prop
  | .push _ outcome => outcome ≠ .ok .pushed ∧ outcome ≠ .ok .upToDate
  | .pull _ _ => True

/-- What is told of a push that was answered. -/
def Tells (x : Except SyncError (Bool × String)) (outcome : Except SyncError PushOutcome) :
    Prop :=
  match x with
  | .ok (true, combined) =>
      outcome = .ok (if containsText combined "up-to-date" then .upToDate else .pushed)
  | _ => outcome ≠ .ok .pushed ∧ outcome ≠ .ok .upToDate

/-- How an operation moves along. -/
inductive PushMove : Phase → (c : GitCall) → Except SyncError c.Value → Phase → Prop
  | look {φ : Phase} {c : GitCall} (x : Except SyncError c.Value) : c.Looks → PushMove φ c x φ
  | base (key : String) (parent : Option Commit) :
      PushMove .quiet (.revParse key) (.ok parent) (.based key parent)
  | unbased (key : String) (error : SyncError) :
      PushMove .quiet (.revParse key) (.error error) .quiet
  | fetch (key : String) (x : Except SyncError Unit) : PushMove .quiet (.fetch key) x .quiet
  | quiet (report : Report) (x : Except SyncError Unit) : report.Quiet →
      PushMove .quiet (.report report) x .quiet
  | giveUp (key : String) (parent : Option Commit) (report : Report) (x : Except SyncError Unit) :
      report.Quiet → PushMove (.based key parent) (.report report) x .quiet
  | update (key : String) (parent : Option Commit) (commit : Commit) : BuiltOn parent commit →
      PushMove (.based key parent) (.updateRef key commit) (.ok ()) (.moved key)
  | failed (key : String) (parent : Option Commit) (commit : Commit) (error : SyncError) :
      BuiltOn parent commit →
      PushMove (.based key parent) (.updateRef key commit) (.error error) (.based key parent)
  | push (key : String) (x : Except SyncError (Bool × String)) :
      PushMove (.moved key) (.push key) x (.answered key x)
  | told (key : String) (x : Except SyncError (Bool × String))
      (outcome : Except SyncError PushOutcome) (y : Except SyncError Unit) : Tells x outcome →
      PushMove (.answered key x) (.report (.push key outcome)) y .quiet

/-- A commit is made on the parent it was asked for. -/
def PossibleGit : (c : GitCall) → Except SyncError c.Value → Prop
  | .commitTree tree parent message, .ok commit =>
      ∃ time, commit = Commit.make parent tree message time
  | _, _ => True

/-- The course of operations. -/
def pushProtocol : Protocol GitSig Phase where
  Possible := PossibleGit
  Move := PushMove

section Course

variable {key : String} {φ : Phase}

/-- An invocation and what follows it. -/
theorem follows_andThen {β : Type} {c : GitCall}
    {f : c.Value → Prog GitSig (Except SyncError β)} {Q : Except SyncError β → Phase → Prop}
    (herror : ∀ error, ∃ φ', PushMove φ c (.error error) φ' ∧ Q (.error error) φ')
    (hok : ∀ a, PossibleGit c (.ok a) →
      ∃ φ', PushMove φ c (.ok a) φ' ∧ pushProtocol.Follows (f a) Q φ') :
    pushProtocol.Follows (andThen (git c) f) Q φ := by
  intro x hx
  cases x with
  | error error => exact herror error
  | ok a => exact hok a hx

/-- An invocation that looks, and what follows it. -/
theorem follows_look {β : Type} {c : GitCall} (hc : c.Looks)
    {f : c.Value → Prog GitSig (Except SyncError β)} {Q : Except SyncError β → Phase → Prop}
    (herror : ∀ error, Q (.error error) φ)
    (hok : ∀ a, PossibleGit c (.ok a) → pushProtocol.Follows (f a) Q φ) :
    pushProtocol.Follows (andThen (git c) f) Q φ :=
  follows_andThen (fun error => ⟨φ, .look _ hc, herror error⟩)
    fun a ha => ⟨φ, .look _ hc, hok a ha⟩

/-- How a push ends: nothing reached the remote, or it is told what it was answered. -/
def Ends (key : String) (outcome : Except SyncError PushOutcome) (φ : Phase) : Prop :=
  (φ = .quiet ∨ ∃ parent, φ = .based key parent) ∧ (Report.push key outcome).Quiet ∨
    ∃ x, φ = .answered key x ∧ Tells x outcome

theorem quiet_error (key : String) (error : SyncError) : (Report.push key (.error error)).Quiet :=
  ⟨by simp, by simp⟩

theorem push_follows (commit : Commit) :
    pushProtocol.Follows (push key commit) (Ends key) (.moved key) := by
  have hanswered : ∀ x outcome, Tells x outcome → Ends key outcome (.answered key x) :=
    fun x outcome h => .inr ⟨x, rfl, h⟩
  refine follows_andThen (fun error => ⟨_, .push key _, hanswered _ _ (quiet_error key error)⟩) ?_
  intro a _
  obtain ⟨success, combined⟩ := a
  refine ⟨_, .push key _, ?_⟩
  cases success with
  | true =>
      simp only [if_true]
      by_cases hheld : containsText combined "up-to-date" = true
      · simp only [hheld, if_true]
        exact hanswered _ _ (by simp [Tells, hheld])
      · simp only [hheld]
        exact hanswered _ _ (by simp [Tells, hheld])
  | false =>
      simp only [Bool.false_eq_true, if_false]
      split
      -- a rejected push looks at the remote for its report
      · refine follows_look (c := .lsRemote key) trivial
          (fun error => hanswered _ _ (quiet_error key error)) ?_
        intro remoteHead _
        exact hanswered _ _ ⟨by simp, by simp⟩
      · exact hanswered _ _ (quiet_error key _)

theorem commitFor_follows (state : String) (parent : Option Commit) :
    pushProtocol.Follows (commitFor key state parent)
      (fun result φ => φ = .based key parent ∧ ∀ commit, result = .ok commit →
        BuiltOn parent commit) (.based key parent) := by
  have hbuild : pushProtocol.Follows
      (andThen (git (.hashObject state)) fun blob => andThen (git (.mktree blob)) fun tree =>
        git (.commitTree tree parent s!"fraisier sync {key}"))
      (fun result φ => φ = .based key parent ∧ ∀ commit, result = .ok commit →
        BuiltOn parent commit) (.based key parent) := by
    refine follows_look (c := .hashObject state) trivial (fun error => ⟨rfl, by simp⟩) ?_
    intro blob _
    refine follows_look (c := .mktree blob) trivial (fun error => ⟨rfl, by simp⟩) ?_
    intro tree _ x hx
    refine ⟨_, .look x trivial, rfl, ?_⟩
    intro commit hcommit
    subst hcommit
    obtain ⟨time, rfl⟩ := hx
    exact .inr ⟨tree, _, time, rfl⟩
  unfold commitFor
  cases parent with
  | none => exact hbuild
  | some tip =>
      refine follows_look (c := .readState key) trivial (fun error => ⟨rfl, by simp⟩) ?_
      intro (held : Option String) _
      show pushProtocol.Follows (if held = some state then _ else _) _ _
      split
      · exact ⟨rfl, fun commit hcommit => by simp_all [BuiltOn]⟩
      · exact hbuild

theorem pushState_follows (state : String) :
    pushProtocol.Follows (pushState key state) (Ends key) .quiet := by
  have hquiet : ∀ error, Ends key (.error error) .quiet :=
    fun error => .inl ⟨.inl rfl, quiet_error key error⟩
  rw [pushState]
  cases validateKey key with
  | error error => exact hquiet error
  | ok _ =>
      refine follows_look (c := .init) trivial hquiet ?_
      intro _ _
      refine follows_andThen (c := .revParse key)
        (fun error => ⟨_, .unbased key error, hquiet error⟩) ?_
      intro parent _
      refine ⟨_, .base key parent, ?_⟩
      have hbased : ∀ error, Ends key (.error error) (.based key parent) :=
        fun error => .inl ⟨.inr ⟨parent, rfl⟩, quiet_error key error⟩
      refine Protocol.follows_bind (Protocol.follows_post ?_ (commitFor_follows state parent))
      intro result φ hresult
      obtain ⟨rfl, hbuilt⟩ := hresult
      cases result with
      | error error => exact hbased error
      | ok commit =>
          refine follows_andThen (c := .updateRef key commit)
            (fun error => ⟨_, .failed key parent commit error (hbuilt commit rfl), hbased error⟩) ?_
          intro _ _
          exact ⟨_, .update key parent commit (hbuilt commit rfl), push_follows commit⟩

theorem pullState_follows :
    pushProtocol.Follows (pullState key) (fun _ φ => φ = .quiet) .quiet := by
  rw [pullState]
  cases validateKey key with
  | error error => exact rfl
  | ok _ =>
      refine follows_look (c := .init) trivial (fun _ => rfl) ?_
      intro _ _
      refine follows_look (c := .lsRemote key) trivial (fun _ => rfl) ?_
      intro head _
      show pushProtocol.Follows (if _ then _ else _) _ _
      split
      · exact rfl
      · refine follows_andThen (c := .fetch key) (fun error => ⟨_, .fetch key _, rfl⟩) ?_
        intro _ _
        exact ⟨_, .fetch key _, fun x _ => ⟨_, .look x trivial, rfl⟩⟩

/-- Operations follow the course, one after another. -/
theorem operate_follows (ops : List Op) :
    pushProtocol.Follows (operate ops) (fun _ φ => φ = .quiet) .quiet := by
  induction ops with
  | nil => exact rfl
  | cons op ops ih =>
      cases op with
      | push key state =>
          refine Protocol.follows_bind (Protocol.follows_post ?_ (pushState_follows state))
          intro outcome φ hends x _
          obtain ⟨rfl | ⟨parent, rfl⟩, hquiet⟩ | ⟨y, rfl, htells⟩ := hends
          · exact ⟨_, .quiet _ x hquiet, ih⟩
          · exact ⟨_, .giveUp key parent _ x hquiet, ih⟩
          · exact ⟨_, .told key y outcome x htells, ih⟩
      | pull key =>
          refine Protocol.follows_bind (Protocol.follows_post ?_ pullState_follows)
          intro state φ hquiet x _
          subst hquiet
          exact ⟨_, .quiet _ x trivial, ih⟩

end Course

/-! ## The invariant -/

/-- What a push did is what it was answered. -/
def Did (effect : PushEffect) : Except SyncError (Bool × String) → Prop
  | .ok (true, combined) =>
      effect = if containsText combined "up-to-date" then .held else .moved
  | _ => effect = .nothing

/-- The notes beside an operator match its phase. -/
def Phase.Fits (o : Operator) : Phase → Prop
  | .quiet => o.refs = o.synced ∧ o.effect = .nothing
  | .based key parent =>
      o.refs = o.synced ∧ o.effect = .nothing ∧ o.busy = true ∧ parent = o.synced key
  | .moved key =>
      o.effect = .nothing ∧ o.busy = true ∧ (∃ commit, o.refs key = some commit) ∧
        ∀ other, other ≠ key → o.refs other = o.synced other
  | .answered _ x => o.refs = o.synced ∧ o.busy = true ∧ Did o.effect x

/-- What an operator has synced is on the remote, it was told the truth and it moved its refs
to nothing but what it had synced and what is built on it. -/
structure Operator.Honest (w : World) (o : Operator) : Prop where
  onRemote : ∀ key commit, o.synced key = some commit → OnRemote w key commit
  truthful : ∀ e ∈ o.told, Truthful e
  built : ∀ e ∈ o.moves, BuiltOn e.2 e.1

/-- What holds between the operators and the remote. -/
structure SyncInv {ι : Type} (phases : ι → Phase) (tags : ι → Operator) (w : World) : Prop where
  fits : ∀ i, (phases i).Fits (tags i)
  honest : ∀ i, (tags i).Honest w
  promised : ∀ e ∈ w.promised, OnRemote w e.1 e.2

/-- What is on the remote stays there. -/
def World.Grows (w w' : World) : Prop :=
  ∀ key commit, OnRemote w key commit → OnRemote w' key commit

theorem Operator.Honest.mono {w w' : World} {o : Operator} (h : o.Honest w)
    (hgrows : w.Grows w') : o.Honest w' :=
  ⟨fun key commit hsynced => hgrows key commit (h.onRemote key commit hsynced), h.truthful,
    h.built⟩

/-- A fast-forward loses nothing. -/
theorem World.grows_take {w : World} {key : String} {commit : Commit}
    (haccepts : accepts (w.remote key) commit = true) : w.Grows (w.take key commit) := by
  intro other held honRemote
  obtain ⟨tip, htip, hancestor⟩ := honRemote
  by_cases heq : other = key
  · subst heq
    rw [htip] at haccepts
    exact ⟨commit, by simp [World.take], Commit.isAncestor_trans hancestor haccepts⟩
  · exact ⟨tip, by simpa [World.take, heq] using htip, hancestor⟩

/-- What the remote took is on it. -/
theorem World.onRemote_take (w : World) (key : String) (commit : Commit) :
    OnRemote (w.take key commit) key commit :=
  ⟨commit, by simp [World.take], Commit.isAncestor_self commit⟩

namespace SyncInv

variable {ι : Type} {phases : ι → Phase} {tags : ι → Operator} {w w' : World}

/-- A step of one operator. -/
theorem move [DecidableEq ι] (h : SyncInv phases tags w) {i : ι} {φ : Phase} {o : Operator}
    (hgrows : w.Grows w') (hfits : φ.Fits o) (hhonest : o.Honest w')
    (hpromised : ∀ e ∈ w'.promised, OnRemote w' e.1 e.2) :
    SyncInv (Function.update phases i φ) (Function.update tags i o) w' := by
  refine ⟨?_, ?_, hpromised⟩
  · intro j
    by_cases hj : j = i
    · subst hj
      simpa using hfits
    · simpa [hj] using h.fits j
  · intro j
    by_cases hj : j = i
    · subst hj
      simpa using hhonest
    · simpa [hj] using (h.honest j).mono hgrows

/-- Operators with new sync directories. -/
theorem initial (remote : String → Option Commit) :
    SyncInv (fun _ : ι => Phase.quiet) (fun _ => .new) ⟨remote, 0, []⟩ :=
  ⟨fun _ => ⟨rfl, rfl⟩,
    fun _ => ⟨by simp [Operator.new], by simp [Operator.new], by simp [Operator.new]⟩, by simp⟩

end SyncInv

/-! ## What each invocation does -/

section Invocations

variable {faults : Nat → Fault} {o : Operator} {w : World} {key : String}

theorem Phase.Fits.look {φ : Phase} (h : φ.Fits o) : φ.Fits { o with busy := true } := by
  cases φ with
  | quiet => exact h
  | based key parent => exact ⟨h.1, h.2.1, rfl, h.2.2.2⟩
  | moved key => exact ⟨h.1, rfl, h.2.2⟩
  | answered key x => exact ⟨h.1, rfl, h.2.2⟩

/-- An invocation that looks changes nothing. -/
theorem gitMonitor_look {c : GitCall} (hc : c.Looks)
    (k : Except SyncError c.Value → Prog GitSig Unit) :
    (gitMonitor faults o c k w).2 = ({ o with busy := true }, { w with calls := w.calls + 1 }) := by
  cases herror : (faults w.calls).error <;>
    cases c <;> simp only [gitMonitor, herror] <;> first | rfl | exact hc.elim

/-- A push that goes well is answered with what it did, and what it pushed is what is synced
now. -/
theorem pushRef_wellAnswered {fault : Fault} {commit : Commit} (hrefs : o.refs key = some commit)
    (hothers : ∀ other, other ≠ key → o.refs other = o.synced other)
    (heffect : o.effect = .nothing) (herror : fault.error = none)
    (hwell : GoesWell o key w fault) (hhonest : o.Honest w) :
    ∃ a o' w', pushRef o key w fault.push = (a, o', w') ∧ Did o'.effect (.ok a) ∧
      o'.refs = o'.synced ∧ o'.busy = o.busy ∧ o'.Honest w' ∧ w.Grows w' ∧
      w'.promised = w.promised := by
  -- What is synced after the push, whether it is synced now or was before.
  have hsync : ∀ effect, (o.sync key commit effect).refs = (o.sync key commit effect).synced := by
    intro effect
    funext other
    by_cases heq : other = key
    · subst heq
      simpa [Operator.sync] using hrefs
    · simpa [Operator.sync, heq] using hothers other heq
  have hsame : o.refs key = o.synced key → o.refs = o.synced := by
    intro hkey
    funext other
    by_cases heq : other = key
    · exact heq ▸ hkey
    · exact hothers other heq
  have hhonest' : ∀ {w' : World} effect, w.Grows w' → OnRemote w' key commit →
      (o.sync key commit effect).Honest w' := by
    intro w' effect hgrows honRemote
    refine ⟨?_, hhonest.truthful, hhonest.built⟩
    intro other held hheld
    by_cases heq : other = key
    · subst heq
      obtain rfl : commit = held := by simpa [Operator.sync] using hheld
      exact honRemote
    · exact hgrows other held (hhonest.onRemote other held (by
        simpa [Operator.sync, heq] using hheld))
  have hstays : w.Grows w := fun _ _ honRemote => honRemote
  unfold GoesWell at hwell
  simp only [herror] at hwell
  cases hpush : fault.push with
  | works combined =>
      simp only [hpush] at hwell
      have hgoes := hwell commit hrefs
      simp only [pushRef, hrefs]
      -- the remote has the commit, takes it, or refuses it
      by_cases hheld : w.remote key = some commit
      · simp only [hheld, if_true] at hgoes ⊢
        exact ⟨_, _, _, rfl, by simp [Did, hgoes, Operator.sync], hsync _, rfl,
          hhonest' _ hstays ⟨commit, hheld, Commit.isAncestor_self commit⟩, hstays, rfl⟩
      · simp only [hheld, if_false] at hgoes ⊢
        by_cases htaken : accepts (w.remote key) commit = true
        · simp only [htaken, if_true] at hgoes ⊢
          exact ⟨_, _, _, rfl, by simp [Did, hgoes, Operator.sync], hsync _, rfl,
            hhonest' _ (World.grows_take htaken) (World.onRemote_take w key commit),
            World.grows_take htaken, rfl⟩
        · simp only [htaken] at hgoes ⊢
          exact ⟨_, _, _, rfl, heffect, hsame hgoes, rfl, hhonest, hstays, rfl⟩
  | fails moved combined =>
      simp only [hpush] at hwell
      obtain ⟨hkey, hnot⟩ := hwell
      simp only [pushRef, hrefs]
      have hrefused : (moved && accepts (w.remote key) commit) = false := by
        cases moved with
        | true => simpa using hnot rfl commit hrefs
        | false => rfl
      -- a push that is said to have failed moved nothing, so that nothing has to be synced
      simp only [hrefused]
      exact ⟨_, _, _, rfl, heffect, hsame hkey, rfl, hhonest, hstays, rfl⟩

/-- A report to an operator whose refs are synced. -/
theorem gitMonitor_report {ι : Type} [DecidableEq ι] {phases : ι → Phase} {tags : ι → Operator}
    (h : SyncInv phases tags w) {i : ι} {report : Report} (hrefs : (tags i).refs = (tags i).synced)
    (htruthful : Truthful (report, (tags i).effect))
    (k : Except SyncError Unit → Prog GitSig Unit)
    (hpushed : ∀ key commit, report = .push key (.ok .pushed) →
      (tags i).refs key = some commit → OnRemote w key commit) :
    SyncInv (Function.update phases i .quiet)
      (Function.update tags i (gitMonitor faults (tags i) (.report report) k w).2.1)
      (gitMonitor faults (tags i) (.report report) k w).2.2 := by
  set w' := promise (tags i) { w with calls := w.calls + 1 } report with hw'
  have hremote : w'.remote = w.remote := by
    rw [hw', promise.eq_def]
    split <;> [split <;> rfl; rfl]
  have hon : ∀ {key commit}, OnRemote w key commit → OnRemote w' key commit := by
    intro key commit honRemote
    simpa only [OnRemote, hremote] using honRemote
  refine h.move (fun _ _ => hon) ⟨hrefs, rfl⟩ ?_ ?_
  · have hhonest := (h.honest i).mono (fun _ _ => hon)
    refine ⟨hhonest.onRemote, ?_, hhonest.built⟩
    intro e he
    obtain rfl | he := List.mem_cons.mp he
    · exact htruthful
    · exact hhonest.truthful e he
  · intro e he
    show OnRemote w' e.1 e.2
    replace he : e ∈ w'.promised := he
    rw [hw', promise.eq_def] at he
    split at he
    · split at he
      next commit hcommit =>
        obtain rfl | he := List.mem_cons.mp he
        · exact hon (hpushed _ _ rfl hcommit)
        · exact hon (h.promised e he)
      · exact hon (h.promised e he)
    · exact hon (h.promised e he)

section Keeps

variable {ι : Type} [DecidableEq ι] {phases : ι → Phase} {p : Pool ι GitSig Operator World}
  {i : ι} {φ φ' : Phase}

/-- The invariant holds once an operator has carried out an invocation and stands at a phase. -/
def KeptBy (faults : Nat → Fault) (phases : ι → Phase) (p : Pool ι GitSig Operator World) (i : ι)
    (φ' : Phase) (c : GitCall) (k : Except SyncError c.Value → Prog GitSig Unit) : Prop :=
  SyncInv (Function.update phases i φ')
    (Function.update p.tags i (gitMonitor faults (p.tags i) c k p.state).2.1)
    (gitMonitor faults (p.tags i) c k p.state).2.2

theorem World.grows_calls (w : World) : w.Grows { w with calls := w.calls + 1 } :=
  fun _ _ honRemote => honRemote

/-- An operator stays honest while its notes of the remote do not change. -/
theorem Operator.Honest.noted (h : o.Honest w) {o' : Operator} (hgrows : w.Grows w')
    (hsynced : o'.synced = o.synced) (htold : o'.told = o.told)
    (hmoves : ∀ e ∈ o'.moves, BuiltOn e.2 e.1) : o'.Honest w' :=
  ⟨fun key commit hheld => hgrows key commit (h.onRemote key commit (hsynced ▸ hheld)),
    fun e he => h.truthful e (htold ▸ he), hmoves⟩

theorem look_keeps (h : SyncInv phases p.tags p.state) (hfits : φ.Fits (p.tags i)) {c : GitCall}
    (hc : c.Looks) (k : Except SyncError c.Value → Prog GitSig Unit) :
    KeptBy faults phases p i φ c k := by
  have hhonest := h.honest i
  rw [KeptBy, gitMonitor_look hc k]
  exact h.move (World.grows_calls _) hfits.look
    (hhonest.noted (World.grows_calls _) rfl rfl hhonest.built) h.promised

theorem revParse_keeps (h : SyncInv phases p.tags p.state) (hfits : φ.Fits (p.tags i))
    (hfinds : FindsRef (p.tags i) key (faults p.state.calls))
    {k : Except SyncError (Option Commit) → Prog GitSig Unit} {x : Except SyncError (Option Commit)}
    (hx : x = (gitMonitor faults (p.tags i) (.revParse key) k p.state).1)
    (hmove : PushMove φ (.revParse key) x φ') : KeptBy faults phases p i φ' (.revParse key) k := by
  have hhonest := h.honest i
  have hnoted : Operator.Honest { p.state with calls := p.state.calls + 1 }
      { p.tags i with busy := true } :=
    hhonest.noted (World.grows_calls _) rfl rfl hhonest.built
  unfold KeptBy
  cases hmove with
  | look _ hc => exact hc.elim
  | base _ parent =>
      obtain ⟨hrefs, heffect⟩ := hfits
      cases herror : (faults p.state.calls).error with
      | some error =>
          simp only [gitMonitor, herror] at hx
          cases hx
      | none =>
          simp only [gitMonitor, herror, answer] at hx ⊢
          -- a ref that is there is found, so that the parent is what was synced
          have hparent : parent = (p.tags i).refs key := by
            obtain rfl : parent = _ := Except.ok.inj hx
            by_cases hunread : (faults p.state.calls).unread = true
            · exact (if_pos hunread).trans (hfinds herror hunread).symm
            · exact if_neg hunread
          exact h.move (World.grows_calls _)
            ⟨hrefs, heffect, rfl, hparent.trans (congrFun hrefs key)⟩ hnoted h.promised
  | unbased _ error =>
      cases herror : (faults p.state.calls).error with
      | some error =>
          simp only [gitMonitor, herror]
          exact h.move (World.grows_calls _) hfits hnoted h.promised
      | none =>
          simp only [gitMonitor, herror] at hx
          cases hx

theorem fetch_keeps (h : SyncInv phases p.tags p.state) (hfits : φ.Fits (p.tags i))
    {k : Except SyncError Unit → Prog GitSig Unit} {x : Except SyncError Unit}
    (hmove : PushMove φ (.fetch key) x φ') : KeptBy faults phases p i φ' (.fetch key) k := by
  have hhonest := h.honest i
  unfold KeptBy
  cases hmove with
  | look _ hc => exact hc.elim
  | fetch =>
      obtain ⟨hrefs, heffect⟩ := hfits
      cases herror : (faults p.state.calls).error with
      | some error =>
          simp only [gitMonitor, herror]
          exact h.move (World.grows_calls _) ⟨hrefs, heffect⟩
            (hhonest.noted (World.grows_calls _) rfl rfl hhonest.built) h.promised
      | none =>
          simp only [gitMonitor, herror, answer]
          refine h.move (World.grows_calls _) ⟨?_, heffect⟩
            ⟨?_, hhonest.truthful, hhonest.built⟩ h.promised
          · simp only [Operator.note, hrefs]
          · intro other commit hcommit
            by_cases heq : other = key
            · subst heq
              exact ⟨commit, by simpa [Operator.note] using hcommit, Commit.isAncestor_self commit⟩
            · exact hhonest.onRemote other commit (by simpa [Operator.note, heq] using hcommit)

theorem updateRef_keeps (h : SyncInv phases p.tags p.state) (hfits : φ.Fits (p.tags i))
    {commit : Commit} {k : Except SyncError Unit → Prog GitSig Unit} {x : Except SyncError Unit}
    (hx : x = (gitMonitor faults (p.tags i) (.updateRef key commit) k p.state).1)
    (hmove : PushMove φ (.updateRef key commit) x φ') :
    KeptBy faults phases p i φ' (.updateRef key commit) k := by
  have hhonest := h.honest i
  -- The move is noted whether it works or not.
  have hmoves : BuiltOn ((p.tags i).synced key) commit →
      ∀ e ∈ (commit, (p.tags i).synced key) :: (p.tags i).moves, BuiltOn e.2 e.1 := by
    intro hbuilt e he
    obtain rfl | he := List.mem_cons.mp he
    · exact hbuilt
    · exact hhonest.built e he
  unfold KeptBy
  cases hmove with
  | look _ hc => exact hc.elim
  | update _ parent _ hbuilt =>
      obtain ⟨hrefs, heffect, -, rfl⟩ := hfits
      cases herror : (faults p.state.calls).error with
      | some error =>
          simp only [gitMonitor, herror] at hx
          cases hx
      | none =>
          simp only [gitMonitor, herror, answer]
          refine h.move (World.grows_calls _)
            ⟨heffect, rfl, ⟨commit, by simp [Operator.note]⟩, ?_⟩
            (hhonest.noted (World.grows_calls _) rfl rfl (hmoves hbuilt)) h.promised
          intro other hother
          simp [Operator.note, hother, hrefs]
  | failed _ parent _ error hbuilt =>
      obtain ⟨hrefs, heffect, -, rfl⟩ := hfits
      cases herror : (faults p.state.calls).error with
      | some error =>
          simp only [gitMonitor, herror]
          exact h.move (World.grows_calls _) ⟨hrefs, heffect, rfl, rfl⟩
            (hhonest.noted (World.grows_calls _) rfl rfl (hmoves hbuilt)) h.promised
      | none =>
          simp only [gitMonitor, herror] at hx
          cases hx

theorem push_keeps (h : SyncInv phases p.tags p.state) (hfits : φ.Fits (p.tags i))
    (hwell : GoesWell (p.tags i) key p.state (faults p.state.calls))
    {k : Except SyncError (Bool × String) → Prog GitSig Unit} {x : Except SyncError (Bool × String)}
    (hx : x = (gitMonitor faults (p.tags i) (.push key) k p.state).1)
    (hmove : PushMove φ (.push key) x φ') : KeptBy faults phases p i φ' (.push key) k := by
  have hhonest := h.honest i
  have hnoted : Operator.Honest { p.state with calls := p.state.calls + 1 }
      { p.tags i with busy := true } :=
    hhonest.noted (World.grows_calls _) rfl rfl hhonest.built
  unfold KeptBy
  cases hmove with
  | look _ hc => exact hc.elim
  | push =>
      obtain ⟨heffect, -, ⟨commit, hcommit⟩, hothers⟩ := hfits
      cases herror : (faults p.state.calls).error with
      | some error =>
          simp only [gitMonitor, herror] at hx ⊢
          subst hx
          have hsynced : (p.tags i).refs key = (p.tags i).synced key := by
            unfold GoesWell at hwell
            simpa only [herror] using hwell
          refine h.move (World.grows_calls _) ⟨?_, rfl, heffect⟩ hnoted h.promised
          funext other
          by_cases heq : other = key
          · exact heq ▸ hsynced
          · exact hothers other heq
      | none =>
          obtain ⟨a, o', w', hpush, hdid, hrefs, hbusy, hhonest', hgrows, hpromised⟩ :=
            pushRef_wellAnswered (o := { p.tags i with busy := true })
              (w := { p.state with calls := p.state.calls + 1 }) hcommit hothers heffect herror
              hwell hnoted
          have hanswer : gitMonitor faults (p.tags i) (.push key) k p.state = (.ok a, o', w') := by
            simp only [gitMonitor, herror, answer, Operator.note, hpush]
          rw [hanswer] at hx ⊢
          subst hx
          refine h.move hgrows ⟨hrefs, hbusy, hdid⟩ hhonest' ?_
          intro e he
          rw [hpromised] at he
          exact hgrows _ _ (h.promised e he)

/-- A report that says of no push that it reached the remote, after nothing did. -/
theorem quiet_keeps (h : SyncInv phases p.tags p.state)
    (hrefs : (p.tags i).refs = (p.tags i).synced) (heffect : (p.tags i).effect = .nothing)
    {report : Report} (hquiet : report.Quiet) {k : Except SyncError Unit → Prog GitSig Unit} :
    KeptBy faults phases p i .quiet (.report report) k := by
  refine gitMonitor_report h hrefs ?_ k ?_
  · cases report with
    | push key outcome => simp [Truthful, heffect, hquiet.1, hquiet.2]
    | pull key state => trivial
  · intro key commit hpushed
    subst hpushed
    exact absurd rfl hquiet.1

theorem report_keeps (h : SyncInv phases p.tags p.state) (hfits : φ.Fits (p.tags i))
    {report : Report} {k : Except SyncError Unit → Prog GitSig Unit} {x : Except SyncError Unit}
    (hmove : PushMove φ (.report report) x φ') :
    KeptBy faults phases p i φ' (.report report) k := by
  cases hmove with
  | look _ hc => exact hc.elim
  | quiet _ _ hquiet => exact quiet_keeps h hfits.1 hfits.2 hquiet
  | giveUp key parent _ _ hquiet => exact quiet_keeps h hfits.1 hfits.2.1 hquiet
  | told key y outcome _ htells =>
      obtain ⟨hrefs, -, hdid⟩ := hfits
      refine gitMonitor_report h hrefs ?_ k ?_
      · cases y with
        | error error => simp_all [Tells, Did, Truthful]
        | ok a =>
            obtain ⟨success, combined⟩ := a
            cases success with
            | false => simp_all [Tells, Did, Truthful]
            | true =>
                simp only [Tells, Did] at htells hdid
                by_cases hheld : containsText combined "up-to-date" = true <;>
                  simp_all [Truthful]
      · intro other commit _ hcommit
        have hsynced := h.honest i
        -- a push that took place has synced the ref, and what is synced is on the remote
        exact hsynced.onRemote other commit (hrefs ▸ hcommit)

/-- One invocation of an operator keeps the invariant. -/
theorem gitMonitor_keeps (h : SyncInv phases p.tags p.state) (hwell : PushesWell faults p i)
    {c : GitCall} {k : Except SyncError c.Value → Prog GitSig Unit}
    (hthread : p.threads i = .call c k) {x : Except SyncError c.Value}
    (hx : x = (gitMonitor faults (p.tags i) c k p.state).1) (hφ : phases i = φ)
    (hmove : PushMove φ c x φ') : KeptBy faults phases p i φ' c k := by
  have hfits := h.fits i
  rw [hφ] at hfits
  unfold PushesWell at hwell
  rw [hthread] at hwell
  cases c with
  | revParse key => exact revParse_keeps h hfits hwell hx hmove
  | fetch key => exact fetch_keeps h hfits hmove
  | updateRef key commit => exact updateRef_keeps h hfits hx hmove
  | push key => exact push_keeps h hfits hwell hx hmove
  | report report => exact report_keeps h hfits hmove
  -- Whatever is left only looks, or makes an object.
  | _ =>
      cases hmove with
      | look _ hc => exact look_keeps h hfits hc k

end Keeps

end Invocations

/-! ## Every run of operators whose pushes go well -/

section Runs

variable {ι : Type} {faults : Nat → Fault}

/-- A commit is made on the parent it was asked for. -/
theorem gitMonitor_possible (o : Operator) (c : GitCall)
    (k : Except SyncError c.Value → Prog GitSig Unit) (w : World) :
    PossibleGit c (gitMonitor faults o c k w).1 := by
  cases c with
  | commitTree tree parent message =>
      cases herror : (faults w.calls).error with
      | some error => simp only [gitMonitor, herror, PossibleGit]
      | none =>
          simp only [gitMonitor, herror, PossibleGit]
          exact ⟨_, rfl⟩
  | _ => trivial

/-- The invariant makes the operators sound. -/
theorem SyncInv.sound {phases : ι → Phase} {p : Pool ι GitSig Operator World}
    (h : SyncInv phases p.tags p.state) : Sound p := by
  refine ⟨h.promised, fun i => (h.honest i).truthful, ?_, fun i => (h.honest i).built⟩
  intro i hidle
  have hfits := h.fits i
  cases hphase : phases i with
  | quiet =>
      rw [hphase] at hfits
      exact hfits.1
  | based key parent =>
      rw [hphase] at hfits
      exact hfits.1
  | moved key =>
      rw [hphase] at hfits
      rw [hfits.2.1] at hidle
      cases hidle
  | answered key x =>
      rw [hphase] at hfits
      exact hfits.1

/-- In every state that operators reach whose pushes go well, what a push was told to have
put on the remote is there, every operator was told the truth, its refs are what it last
synced, and no commit was pushed but those and what is built on them. -/
theorem operators_sound [DecidableEq ι] (ops : ι → List Op) (remote : String → Option Commit)
    (sched : List (ι × Bool))
    (hwell : (operators ops remote).Along (gitMonitor faults) (PushesWell faults) sched) :
    Sound ((operators ops remote).run (gitMonitor faults) sched) := by
  obtain ⟨phases, -, hinv⟩ := Pool.run_tracked (P := pushProtocol)
    (m := gitMonitor faults) (I := SyncInv) (C := PushesWell faults) gitMonitor_possible
    (fun p phases i c k φ _ hinv hi hthread hmove _ =>
      gitMonitor_keeps hinv hi hthread rfl rfl hmove)
    sched hwell (fun i => operate_follows (ops i)) (SyncInv.initial remote)
  exact hinv.sound

end Runs

/-! ## Two operators -/

namespace TwoOperators

/-- A remote without refs, to which one operator pushes and the other pushes twice, after it
has pulled where it says so. -/
def start (pulls : Bool) : Pool Bool GitSig Operator World :=
  operators (fun second => if second then
    (if pulls then [.pull "app"] else []) ++ [.push "app" "two", .push "app" "three"]
  else [.push "app" "one"]) fun _ => none

/-- Each `git push` works and says the same. -/
def faults (combined : String) : Nat → Fault :=
  fun time => ⟨none, time, false, .works combined⟩

/-- The first operator pushes, and then the second one takes so many steps. -/
def inTurn (steps : Nat) : List (Bool × Bool) :=
  List.replicate 8 (false, true) ++ List.replicate steps (true, true)

end TwoOperators

/-- The second operator pulls before it pushes. -/
theorem operators_sound_twoOperators :
    Sound ((TwoOperators.start true).run (gitMonitor (TwoOperators.faults "app -> app"))
      (TwoOperators.inTurn 23)) ∧
    ((TwoOperators.start true).run (gitMonitor (TwoOperators.faults "app -> app"))
      (TwoOperators.inTurn 23)).state.promised.length = 3 := by
  have hmoves : ∀ {o : Operator} {key : String} {w : World},
      (∀ commit, o.refs key = some commit →
        w.remote key ≠ some commit ∧ accepts (w.remote key) commit = true) →
      GoesWell o key w (TwoOperators.faults "app -> app" w.calls) := by
    intro o key w htaken commit hcommit
    simpa [htaken commit hcommit] using (by decide : containsText "app -> app" "up-to-date" = false)
  have hfound : ∀ {o : Operator} {key : String} {time : Nat},
      FindsRef o key (TwoOperators.faults "app -> app" time) := by
    intro o key time _ hunread
    cases hunread
  refine ⟨operators_sound _ _ _ ?_, rfl⟩
  repeat' first | exact trivial | exact hfound | refine And.intro ?_ ?_
  all_goals
    refine hmoves ?_
    intro commit hcommit
    cases hcommit
    decide

/-- A commit that was rejected as a conflict is the parent of the next one. -/
theorem operators_not_sound_conflict :
    ¬ Sound ((TwoOperators.start false).run
      (gitMonitor (TwoOperators.faults "[rejected] (fetch first)")) (TwoOperators.inTurn 18)) := by
  intro h
  obtain hnone | ⟨state, message, time, hmade⟩ := h.built true
    (.child (.root "two" "fraisier sync app" 12) "three" "fraisier sync app" 22, none) (by decide)
  · cases hnone
  · cases hmade

end Fraisier.Sync
