import Fraisier.Data.Text
import Fraisier.Effect.Pool

/-!
# Sharing state over git refs

Each key's state lives as a chain of commits under one ref of a remote. An operator has a
sync directory of its own that holds the ref as well. `pushState` builds a commit on the
local ref, moves the ref and pushes it; `pullState` fetches the ref over the local one. Both
run `git`, whose invocations are the commands.
-/

namespace Fraisier.Sync

open Fraisier.Data Fraisier.Effect

/-! ## Commits -/

/-- A commit: its `state.json`, its parent, its message and its time. Two commits with the
same content are one. -/
inductive Commit where
  | root (state message : String) (time : Nat)
  | child (parent : Commit) (state message : String) (time : Nat)
deriving DecidableEq

namespace Commit

/-- The state a commit holds. -/
def state : Commit → String
  | root state _ _ => state
  | child _ state _ _ => state

/-- A commit on an optional parent. -/
def make (parent : Option Commit) (state message : String) (time : Nat) : Commit :=
  match parent with
  | none => root state message time
  | some parent => child parent state message time

/-- A commit is an ancestor of itself and of whatever is built on it. -/
def isAncestor (a : Commit) : Commit → Bool
  | root state message time => a == root state message time
  | child parent state message time =>
      a == child parent state message time || a.isAncestor parent

@[simp] theorem isAncestor_self (a : Commit) : a.isAncestor a = true := by
  cases a <;> simp [isAncestor]

theorem isAncestor_trans {a b c : Commit} (hab : a.isAncestor b = true)
    (hbc : b.isAncestor c = true) : a.isAncestor c = true := by
  induction c with
  | root state message time =>
      have heq : b = root state message time := by simpa [isAncestor] using hbc
      exact heq ▸ hab
  | child parent state message time ih =>
      rw [isAncestor, Bool.or_eq_true, beq_iff_eq] at hbc
      obtain rfl | hbc := hbc
      · exact hab
      · rw [isAncestor, ih hbc, Bool.or_true]

end Commit

/-! ## The `git` invocations -/

/-- An error of a sync operation. -/
inductive SyncError where
  | spawn (error : String)
  | git (op detail : String)
  | invalidKey (key : String)
deriving DecidableEq

/-- The result of a push. -/
inductive PushOutcome where
  | pushed
  | upToDate
  | conflict (localHead : Commit) (remoteHead : Option Commit)
deriving DecidableEq

/-- What an operator is told at the end of an operation. -/
inductive Report where
  | push (key : String) (outcome : Except SyncError PushOutcome)
  | pull (key : String) (state : Except SyncError (Option String))

/-- The `git` invocations on an operator's sync directory and the remote, each on the ref of
a key where it names one, and the return of an operation to the operator. -/
inductive GitCall where
  | init
  | revParse (key : String)
  | readState (key : String)
  | hashObject (content : String)
  | mktree (blob : String)
  | commitTree (tree : String) (parent : Option Commit) (message : String)
  | updateRef (key : String) (commit : Commit)
  | push (key : String)
  | lsRemote (key : String)
  | fetch (key : String)
  | report (report : Report)

/-- What each invocation yields: blobs and trees are named by the state they hold, and a
push by whether it succeeded and its combined output. -/
def GitCall.Value : GitCall → Type
  | .init => Unit
  | .revParse _ => Option Commit
  | .readState _ => Option String
  | .hashObject _ => String
  | .mktree _ => String
  | .commitTree _ _ _ => Commit
  | .updateRef _ _ => Unit
  | .push _ => Bool × String
  | .lsRemote _ => Option Commit
  | .fetch _ => Unit
  | .report _ => Unit

/-- The invocations as commands: each may fail. -/
@[reducible] def GitSig : Sig where
  Cmd := GitCall
  Ans c := Except SyncError c.Value

/-- Run `git`. -/
def git (c : GitCall) : Prog GitSig (Except SyncError c.Value) :=
  .call c .ret

/-- Continue with what an invocation yields; an error ends the operation. -/
def andThen {α β : Type} (p : Prog GitSig (Except SyncError α))
    (f : α → Prog GitSig (Except SyncError β)) : Prog GitSig (Except SyncError β) := do
  match ← p with
  | .error error => return .error error
  | .ok a => f a

/-! ## The operations -/

/-- A key must be non-empty and free of whitespace. -/
def validateKey (key : String) : Except SyncError Unit :=
  if key.isEmpty || key.toList.any isWhitespace then .error (.invalidKey key) else .ok ()

/-- Push a ref: a rejection as no fast-forward is a conflict. -/
def push (key : String) (localHead : Commit) : Prog GitSig (Except SyncError PushOutcome) :=
  andThen (git (.push key)) fun (success, combined) =>
    if success then
      if containsText combined "up-to-date" then .ret (.ok .upToDate) else .ret (.ok .pushed)
    else if containsText combined "rejected" &&
        (containsText combined "non-fast-forward" || containsText combined "fetch first") then
      andThen (git (.lsRemote key)) fun remoteHead => .ret (.ok (.conflict localHead remoteHead))
    else .ret (.error (.git "push" (trim combined)))

/-- The commit to push: the local one when it holds the state, or a new one built on it. -/
def commitFor (key state : String) (parent : Option Commit) :
    Prog GitSig (Except SyncError Commit) :=
  let build := andThen (git (.hashObject state)) fun blob =>
    andThen (git (.mktree blob)) fun tree =>
      git (.commitTree tree parent s!"fraisier sync {key}")
  match parent with
  | none => build
  | some tip => andThen (git (.readState key)) fun (held : Option String) =>
      if held = some state then .ret (.ok tip) else build

/-- Push the state of a key. -/
def pushState (key state : String) : Prog GitSig (Except SyncError PushOutcome) :=
  andThen (.ret (validateKey key)) fun _ =>
    andThen (git .init) fun _ =>
      andThen (git (.revParse key)) fun parent =>
        andThen (commitFor key state parent) fun commit =>
          andThen (git (.updateRef key commit)) fun _ => push key commit

/-- Fetch the remote's state of a key over the local one. -/
def pullState (key : String) : Prog GitSig (Except SyncError (Option String)) :=
  andThen (.ret (validateKey key)) fun _ =>
    andThen (git .init) fun _ =>
      andThen (git (.lsRemote key)) fun head =>
        if head.isNone then .ret (.ok none)
        else andThen (git (.fetch key)) fun _ => git (.readState key)

/-- An operation of an operator. -/
inductive Op where
  | push (key state : String)
  | pull (key : String)

/-- Carry out operations one after another, and be told of each. -/
def operate : List Op → Prog GitSig Unit
  | [] => .ret ()
  | .push key state :: ops => do
      let outcome ← pushState key state
      let _ ← git (.report (.push key outcome))
      operate ops
  | .pull key :: ops => do
      let state ← pullState key
      let _ ← git (.report (.pull key state))
      operate ops

end Fraisier.Sync
