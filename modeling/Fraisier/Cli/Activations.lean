import Fraisier.Cli.Alert
import Fraisier.Effect.Killed
import Fraisier.Effect.Schedule

/-!
# Failures that are reported once

Any number of activations of scheduled units fail, and each is followed by its alert. They share
one directory. A run may be killed anywhere, a command may fail, a write may stop in the middle,
and the directory may go away: `activations_sound`.
-/

namespace Fraisier.Cli.Alerts

open Fraisier.Data Fraisier.Effect Fraisier.Saga

/-! ## Activations -/

/-- The identifier of an activation. -/
abbrev InvocationId : Type := { id : String // isInvocationId id = true }

/-- An activation of a scheduled unit: its run, how that ends, and whether its alert is told the
invocation. -/
structure Activation where
  run : ScheduledRun
  unit : String
  outcome : Outcome
  id : InvocationId
  monitored : Bool

/-- What the alert of an activation knows as its invocation. -/
def Activation.monitorId (a : Activation) : Option String :=
  if a.monitored then some a.id else none

theorem filter_monitorId (a : Activation) : a.monitorId.filter isInvocationId = a.monitorId := by
  rw [Activation.monitorId]
  split
  · exact Option.filter_eq_some_iff.mpr ⟨rfl, a.id.property⟩
  · rfl

section Programs

variable [CharTables] (dir : PathBuf)

/-- The alert of an activation, from its start to its exit. -/
def Activation.alert (a : Activation) : Prog AlertSig Unit := do
  let result ← notify a.unit a.monitorId dir
  ask (.exit result)

/-- An activation: what its run does last, and its alert if the run failed or was killed. -/
def Activation.program (a : Activation) : Prog AlertSig Unit := do
  match ← (recorded a.outcome a.run (some a.unit) (some a.id.val) dir).killable with
  | some outcome => if (failureReason outcome).isSome then a.alert dir else return ()
  | none => a.alert dir

end Programs

/-! ## The host -/

/-- The directory of the records: whether it is there, its files, and how many commands were
carried out. -/
structure Failures where
  present : Bool
  files : PathBuf → Option (List UInt8)
  calls : Nat

/-- What is noted of an activation: the record that was moved into place, what was sent and how
that was answered, how the alert ended, and the configuration that was read last. -/
structure Notes where
  recorded : Option (List UInt8)
  sent : List (Delivery × Except String Unit)
  ended : Option (Except String AlertOutput)
  config : Option AlertConfig

/-- What a command meets: an error, how much a failed write leaves, whether the directory goes away
before it, how a hook fails, the configuration and the clock. -/
structure Fault where
  error : Option String
  torn : Nat
  gone : Bool
  hook : Option String
  config : AlertConfig
  clock : Option UInt64

/-- Nothing fails but hooks. -/
def Fault.Calm (fault : Fault) : Prop :=
  fault.error = none ∧ fault.gone = false

namespace Failures

/-- The directory when it has gone away. -/
def cleared (w : Failures) : Failures :=
  { w with present := false, files := fun _ => none }

/-- A file with another content. -/
def put (w : Failures) (path : PathBuf) (content : Option (List UInt8)) : Failures :=
  { w with files := Function.update w.files path content }

/-- An answer without a value. -/
def answer : Option String → Except String Unit
  | none => .ok ()
  | some cause => .error cause

def missing : String := "No such file or directory (os error 2)"

/-- Carry out a command. A file that was removed after it had been opened is written nowhere. -/
def carry (fault : Fault) (notes : Notes) (w : Failures) :
    (c : AlertCall) → c.Answer × Notes × Failures
  | .load =>
      match fault.error with
      | some cause => (.error cause, notes, w)
      | none => (.ok fault.config, { notes with config := some fault.config }, w)
  | .now => (fault.clock, notes, w)
  | .createDirAll _ =>
      (answer fault.error, notes, if fault.error.isSome then w else { w with present := true })
  | .openNew path _ =>
      match fault.error with
      | some cause => (.error cause, notes, w)
      | none => if w.present then (.ok (), notes, w.put path (some [])) else
          (.error missing, notes, w)
  | .write path bytes =>
      (answer fault.error, notes, w.put path ((w.files path).map fun _ =>
        if fault.error.isSome then bytes.take fault.torn else bytes))
  | .rename source target =>
      match fault.error, w.files source with
      | some cause, _ => (.error cause, notes, w)
      | none, none => (.error missing, notes, w)
      | none, some bytes => (.ok (), { notes with recorded := some bytes },
          (w.put source none).put target (some bytes))
  | .remove path =>
      match fault.error, w.files path with
      | some cause, _ => (.error cause, notes, w)
      | none, none => (.error missing, notes, w)
      | none, some _ => (.ok (), notes, w.put path none)
  | .size path =>
      match fault.error, w.files path with
      | some cause, _ => (.error cause, notes, w)
      | none, none => (.error missing, notes, w)
      | none, some bytes => (.ok bytes.length, notes, w)
  | .read path =>
      match fault.error, w.files path with
      | some cause, _ => (.error cause, notes, w)
      | none, none => (.error missing, notes, w)
      | none, some bytes => (.ok bytes, notes, w)
  | .warn _ => ((), notes, w)
  | .deliver delivery =>
      (answer fault.hook, { notes with sent := (delivery, answer fault.hook) :: notes.sent }, w)
  | .exit result => ((), { notes with ended := some result }, w)

end Failures

/-! ## What a command does -/

/-- The files that a command may change. -/
def AlertCall.paths : AlertCall → List PathBuf
  | .openNew path _ => [path]
  | .write path _ => [path]
  | .rename source target => [source, target]
  | .remove path => [path]
  | _ => []

section Carry

variable {fault : Fault} {notes : Notes} {w : Failures}

theorem put_files {path q : PathBuf} {content : Option (List UInt8)} (h : q ≠ path) :
    (w.put path content).files q = w.files q :=
  Function.update_of_ne h _ _

/-- A command changes only its files. -/
theorem carry_files {c : AlertCall} {q : PathBuf} (h : q ∉ c.paths) :
    (w.carry fault notes c).2.2.files q = w.files q := by
  cases c with
  | load | now | size | read | warn | deliver | exit =>
      simp only [Failures.carry]
      try split <;> rfl
  | createDirAll dir =>
      simp only [Failures.carry]
      split <;> rfl
  | openNew path mode =>
      simp only [Failures.carry]
      split
      · rfl
      · split
        · exact put_files (by simpa [AlertCall.paths] using h)
        · rfl
  | write path bytes => exact put_files (by simpa [AlertCall.paths] using h)
  | rename source target =>
      obtain ⟨hsource, htarget⟩ : q ≠ source ∧ q ≠ target := by
        simpa [AlertCall.paths] using h
      simp only [Failures.carry]
      split
      · rfl
      · rfl
      · rw [put_files htarget, put_files hsource]
  | remove path =>
      simp only [Failures.carry]
      split
      · rfl
      · rfl
      · exact put_files (by simpa [AlertCall.paths] using h)

/-- A write that succeeded has written everything, unless the file was gone. -/
theorem carry_write_ok {path : PathBuf} {bytes : List UInt8} {u : Unit}
    (h : .ok u = (w.carry fault notes (.write path bytes)).1) :
    (w.carry fault notes (.write path bytes)).2.2.files path = none ∨
      (w.carry fault notes (.write path bytes)).2.2.files path = some bytes := by
  have herror : fault.error = none := by
    cases herror : fault.error with
    | none => rfl
    | some cause =>
        simp only [Failures.carry, herror, Failures.answer] at h
        cases h
  simp only [Failures.carry, herror, Failures.put, Function.update_self]
  cases w.files path with
  | none => exact .inl rfl
  | some content => exact .inr rfl

/-- A rename that succeeded has moved what was there. -/
theorem carry_rename_ok {source target : PathBuf} {u : Unit}
    (h : .ok u = (w.carry fault notes (.rename source target)).1) :
    ∃ bytes, w.files source = some bytes ∧ (w.carry fault notes (.rename source target)).2 =
      ({ notes with recorded := some bytes }, (w.put source none).put target (some bytes)) := by
  cases herror : fault.error with
  | some cause =>
      simp only [Failures.carry, herror] at h
      cases h
  | none =>
      cases hsource : w.files source with
      | none =>
          simp only [Failures.carry, herror, hsource] at h
          cases h
      | some bytes =>
          refine ⟨bytes, rfl, ?_⟩
          simp only [Failures.carry, herror, hsource]

/-- A rename that failed has changed nothing. -/
theorem carry_rename_error {source target : PathBuf} {cause : String}
    (h : .error cause = (w.carry fault notes (.rename source target)).1) :
    (w.carry fault notes (.rename source target)).2 = (notes, w) := by
  cases herror : fault.error with
  | some cause => simp only [Failures.carry, herror]
  | none =>
      cases hsource : w.files source with
      | none => simp only [Failures.carry, herror, hsource]
      | some bytes =>
          simp only [Failures.carry, herror, hsource] at h
          cases h

/-- What is measured or read is what is there. -/
theorem carry_read {path : PathBuf} {bytes : List UInt8}
    (h : .ok bytes = (w.carry fault notes (.read path)).1) : w.files path = some bytes := by
  simp only [Failures.carry] at h
  split at h
  · cases h
  · cases h
  · next hpath =>
      obtain rfl := Except.ok.inj h
      exact hpath

theorem carry_size {path : PathBuf} {size : Nat}
    (h : .ok size = (w.carry fault notes (.size path)).1) :
    ∃ bytes, w.files path = some bytes ∧ size = bytes.length := by
  simp only [Failures.carry] at h
  split at h
  · cases h
  · cases h
  · next hpath => exact ⟨_, hpath, Except.ok.inj h⟩

/-- Where nothing fails, what can not be measured or read is not there. -/
theorem carry_read_error {path : PathBuf} {cause : String} (herror : fault.error = none)
    (h : .error cause = (w.carry fault notes (.read path)).1) : w.files path = none := by
  cases hpath : w.files path with
  | none => rfl
  | some bytes =>
      simp only [Failures.carry, herror, hpath] at h
      cases h

theorem carry_size_error {path : PathBuf} {cause : String} (herror : fault.error = none)
    (h : .error cause = (w.carry fault notes (.size path)).1) : w.files path = none := by
  cases hpath : w.files path with
  | none => rfl
  | some bytes =>
      simp only [Failures.carry, herror, hpath] at h
      cases h

/-- Where nothing fails, what is removed is gone. -/
theorem carry_remove {path : PathBuf} (herror : fault.error = none) :
    (w.carry fault notes (.remove path)).2.2.files path = none := by
  cases hpath : w.files path with
  | none =>
      simp only [Failures.carry, herror, hpath]
  | some bytes =>
      simp only [Failures.carry, herror, hpath]
      exact Function.update_self _ _ _

theorem carry_remove_cases (path : PathBuf) :
    (w.carry fault notes (.remove path)).2 = (notes, w) ∨
      (w.carry fault notes (.remove path)).2 = (notes, w.put path none) := by
  simp only [Failures.carry]
  split
  · exact .inl rfl
  · exact .inl rfl
  · exact .inr rfl

/-- What is loaded is noted, and nothing else. -/
theorem carry_load_same : ∃ config,
    (w.carry fault notes .load).2 = ({ notes with config := config }, w) := by
  cases herror : fault.error with
  | some cause => exact ⟨notes.config, by simp only [Failures.carry, herror]⟩
  | none => exact ⟨some fault.config, by simp only [Failures.carry, herror]⟩

theorem carry_load_ok {config : AlertConfig}
    (h : .ok config = (w.carry fault notes .load).1) :
    (w.carry fault notes .load).2 = ({ notes with config := some config }, w) := by
  cases herror : fault.error with
  | some cause =>
      simp only [Failures.carry, herror] at h
      cases h
  | none =>
      simp only [Failures.carry, herror] at h ⊢
      rw [Except.ok.inj h]

theorem carry_openNew_notes (path : PathBuf) (mode : Nat) :
    (w.carry fault notes (.openNew path mode)).2.1 = notes := by
  simp only [Failures.carry]
  split
  · rfl
  · split <;> rfl

theorem carry_size_same (path : PathBuf) : (w.carry fault notes (.size path)).2 = (notes, w) := by
  simp only [Failures.carry]
  split <;> rfl

theorem carry_read_same (path : PathBuf) : (w.carry fault notes (.read path)).2 = (notes, w) := by
  simp only [Failures.carry]
  split <;> rfl

end Carry

/-- Carry out a command of an activation. The `n`-th one meets the `n`-th fault. -/
def alertMonitor (faults : Nat → Fault) : Monitor AlertSig Notes Failures :=
  fun notes c _ w =>
    let fault := faults w.calls
    let w := { w with calls := w.calls + 1 }
    (if fault.gone then w.cleared else w).carry fault notes c

/-- Activations that share a directory. -/
def activations {ι : Type} [CharTables] (dir : PathBuf) (acts : ι → Activation) (w : Failures) :
    Pool ι AlertSig Notes Failures where
  threads i := (acts i).program dir
  tags _ := ⟨none, [], none, none⟩
  state := w

/-! ## What is an activation's own -/

/-- What an activation has noted, and the two files that are its own. -/
structure Standing where
  notes : Notes
  record : Option (List UInt8)
  unfinished : Option (List UInt8)

/-- What an activation has noted, and its files. -/
def standing (dir : PathBuf) (a : Activation) (notes : Notes) (w : Failures) : Standing :=
  ⟨notes, w.files (recordPath dir a.id), w.files (unfinishedPath dir a.id)⟩

theorem recordPath_ne (dir : PathBuf) (a b : Activation) :
    recordPath dir a.id ≠ unfinishedPath dir b.id :=
  recordPath_ne_unfinishedPath dir a.id.property b.id.property

end Fraisier.Cli.Alerts
