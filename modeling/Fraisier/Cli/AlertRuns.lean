import Fraisier.Cli.Activations

/-!
# Every alert tells what is known

In every state that activations reach, whatever fails and wherever a run is killed: an alert sends
at most one message, and that tells what this very run recorded, or that there is no record.
`activations_sound` also says when the record is sent and that it does not stay behind.
-/

namespace Fraisier.Cli.Alerts

open Fraisier.Data Fraisier.Effect Fraisier.Saga

/-! ## What is promised -/

section Alerts

variable [CharTables]

namespace Activation

variable (a : Activation)

/-- A record of the activation: of its run, its unit and its invocation, with the reason for its
failure, redacted and perhaps cut short. -/
def Wrote (record : FailureRecord) : Prop :=
  record.event = a.run.event ∧ record.unit = a.unit ∧ record.invocationId = a.id ∧
    ∃ reason, failureReason a.outcome = some reason ∧
      Shortened (Redact.credentials reason) record.reason

/-- A whole record of the activation, as a file. -/
def Owns (bytes : List UInt8) : Prop :=
  bytes.length ≤ maxBytes ∧ ∃ record, a.Wrote record ∧ bytes = record.body

/-- A message of the alert: about a record of the activation, or without one. When nothing failed
and the alert knows the invocation, a record that was written is what the message is about. -/
def Sends (calm : Prop) (notes : Notes) (config : AlertConfig) (record : Option FailureRecord)
    (answer : Except String Unit) : Prop :=
  notes.config = some config ∧
    notes.sent = [(deliveryOf config a.unit a.monitorId record, answer)] ∧
    (∀ r ∈ record, a.Wrote r) ∧
    (calm → a.monitored = true → record = notes.recorded.bind FailureRecord.ofBody)

/-- How an alert ends: it has sent its message and says how that went, or it could not read the
configuration and has sent nothing. -/
def Concluded (calm : Prop) (notes : Notes) (result : Except String AlertOutput) : Prop :=
  (∃ config record answer, a.Sends calm notes config record answer ∧
    result = .ok (outputOf config a.unit a.monitorId record answer)) ∨
  (¬ calm ∧ notes.sent = [] ∧ ∃ cause, result = .error cause)

/-- An alert has sent one message, about the record that was written, and says how that went. -/
def Tells (notes : Notes) (bytes : List UInt8) (result : Except String AlertOutput) : Prop :=
  ∃ config record answer, notes.config = some config ∧
    FailureRecord.ofBody bytes = some record ∧ a.Wrote record ∧
    notes.sent = [(deliveryOf config a.unit a.monitorId (some record), answer)] ∧
    result = .ok (outputOf config a.unit a.monitorId (some record) answer)

/-- What an activation reported. An alert that did not end has sent one message at most, and one
that ended says how that went. When nothing failed, one that knows the invocation tells what was
recorded. -/
structure Reported (calm : Prop) (notes : Notes) : Prop where
  sent : notes.sent = [] ∨ ∃ config record answer, a.Sends calm notes config record answer
  recorded : ∀ bytes ∈ notes.recorded, a.Owns bytes
  ended : ∀ result ∈ notes.ended, a.Concluded calm notes result
  told : calm → a.monitored = true → ∀ bytes ∈ notes.recorded, ∀ result ∈ notes.ended,
    a.Tells notes bytes result

end Activation

/-- Every activation reported what it should, a record that can be seen is whole, a failure has
had its alert when the activation is done, and when nothing failed no record is left behind an
alert that knew its invocation. -/
structure Sound {ι : Type} (dir : PathBuf) (acts : ι → Activation) (calm : Prop)
    (p : Pool ι AlertSig Notes Failures) : Prop where
  reported : ∀ i, (acts i).Reported calm (p.tags i)
  whole : ∀ i, ∀ bytes ∈ p.state.files (recordPath dir (acts i).id), (acts i).Owns bytes
  alerted : ∀ i, p.threads i = .ret () → (failureReason (acts i).outcome).isSome = true →
    (p.tags i).ended.isSome = true
  consumed : calm → ∀ i, (acts i).monitored = true → p.threads i = .ret () →
    p.state.files (recordPath dir (acts i).id) = none

/-! ## The course of an activation -/

/-- Where an activation stands: its run records, with what is complete under the other name, the
record is moved into place, the alert has its configuration, it has looked for the record, it has
sent its message, with a record left to delete or not, it has no configuration, it has finished. -/
inductive Stage where
  | recording (written : Option (List UInt8))
  | recorded
  | alerting (config : AlertConfig)
  | looked (config : AlertConfig) (found : Option FailureRecord)
  | sent (output : AlertOutput) (pending : Bool)
  | refused (cause : String)
  | finished

/-- The run has not come to its alert. -/
def Stage.Running : Stage → Prop
  | .recording _ => True
  | .recorded => True
  | _ => False

/-- What the alert makes of a record that it found. -/
def Activation.known (dir : PathBuf) (a : Activation) (found : Option FailureRecord) :
    Option FailureRecord :=
  matching a.unit a.monitorId (found.map fun record => (record, recordPath dir a.id))

/-- How a command and its answer move an activation. -/
inductive StageMove (dir : PathBuf) (a : Activation) :
    Stage → (c : AlertCall) → c.Answer → Stage → Prop where
  | names (x) : StageMove dir a (.recording none) .load x (.recording none)
  | now (x) : StageMove dir a (.recording none) .now x (.recording none)
  | createDirAll (x) : StageMove dir a (.recording none) (.createDirAll dir) x (.recording none)
  | openNew (x) : StageMove dir a (.recording none)
      (.openNew (unfinishedPath dir a.id) 0o600) x (.recording none)
  | write (bytes u) : a.Owns bytes → StageMove dir a (.recording none)
      (.write (unfinishedPath dir a.id) bytes) (.ok u) (.recording (some bytes))
  | torn (bytes cause) : StageMove dir a (.recording none)
      (.write (unfinishedPath dir a.id) bytes) (.error cause) (.recording none)
  | rename (bytes u) : StageMove dir a (.recording (some bytes))
      (.rename (unfinishedPath dir a.id) (recordPath dir a.id)) (.ok u) .recorded
  | stuck (bytes cause) : StageMove dir a (.recording (some bytes))
      (.rename (unfinishedPath dir a.id) (recordPath dir a.id)) (.error cause) (.recording none)
  | remove (x) : StageMove dir a (.recording none) (.remove (unfinishedPath dir a.id)) x
      (.recording none)
  | warn (line x) : StageMove dir a (.recording none) (.warn line) x (.recording none)
  | start (s config) : s.Running → StageMove dir a s .load (.ok config) (.alerting config)
  | refuse (s cause) : s.Running → StageMove dir a s .load (.error cause) (.refused cause)
  | size (config size) : a.monitored = true → size ≤ maxBytes → StageMove dir a (.alerting config)
      (.size (recordPath dir a.id)) (.ok size) (.alerting config)
  | large (config size) : a.monitored = true → maxBytes < size → StageMove dir a (.alerting config)
      (.size (recordPath dir a.id)) (.ok size) (.looked config none)
  | absent (config cause) : a.monitored = true → StageMove dir a (.alerting config)
      (.size (recordPath dir a.id)) (.error cause) (.looked config none)
  | read (config bytes) : a.monitored = true → StageMove dir a (.alerting config)
      (.read (recordPath dir a.id)) (.ok bytes) (.looked config (FailureRecord.ofBody bytes))
  | unread (config cause) : a.monitored = true → StageMove dir a (.alerting config)
      (.read (recordPath dir a.id)) (.error cause) (.looked config none)
  | tell (config found answer) : StageMove dir a (.looked config found)
      (.deliver (deliveryOf config a.unit a.monitorId (a.known dir found))) answer
      (.sent (outputOf config a.unit a.monitorId (a.known dir found) answer) found.isSome)
  | point (config answer) : a.monitored = false → StageMove dir a (.alerting config)
      (.deliver (deliveryOf config a.unit a.monitorId none)) answer
      (.sent (outputOf config a.unit a.monitorId none answer) false)
  | consume (output x) : StageMove dir a (.sent output true) (.remove (recordPath dir a.id)) x
      (.sent output false)
  | exit (output x) : StageMove dir a (.sent output false) (.exit (.ok output)) x .finished
  | fail (cause x) : StageMove dir a (.refused cause) (.exit (.error cause)) x .finished

/-- The protocol of activations. None becomes another one. -/
def alertProtocol (dir : PathBuf) : Protocol AlertSig (Activation × Stage) where
  Possible _ _ := True
  Move φ c x φ' := φ'.1 = φ.1 ∧ StageMove dir φ.1 φ.2 c x φ'.2

/-- An activation is done when its alert has ended, or when its run did not fail. -/
def Ended (φ : Activation × Stage) : Prop :=
  φ.2 = .finished ∨ φ.2 = .recording none ∧ (failureReason φ.1.outcome).isSome = false

section Course

variable (dir : PathBuf) (a : Activation)

/-- The moves of the run. -/
def runProtocol : Protocol AlertSig (Activation × Stage) :=
  (alertProtocol dir).within fun φ => φ.1 = a ∧ φ.2.Running

variable {dir a}

theorem follows_ask {c : AlertCall} {Q : c.Answer → Activation × Stage → Prop} {s : Stage}
    (h : ∀ x, ∃ s', StageMove dir a s c x s' ∧ s'.Running ∧ Q x (a, s')) :
    (runProtocol dir a).Follows (ask c) Q (a, s) := by
  intro x _
  obtain ⟨s', hmove, hrunning, hQ⟩ := h x
  exact ⟨(a, s'), ⟨⟨rfl, hmove⟩, rfl, hrunning⟩, hQ⟩

/-- Where a run stands when it has tried to write its record. -/
def stageAfter {α : Type} : Except String α → Stage
  | .ok _ => .recorded
  | .error _ => .recording none

theorem put_follows {body : List UInt8} (hown : a.Owns body) :
    (runProtocol dir a).Follows (put (unfinishedPath dir a.id) (recordPath dir a.id) body)
      (fun x φ => φ = (a, stageAfter x)) (a, .recording none) := by
  refine Protocol.follows_attempt (follows_ask fun x => ⟨_, .openNew x, trivial, ?_⟩)
  cases x with
  | error cause => exact rfl
  | ok u =>
      refine Protocol.follows_attempt (follows_ask fun x => ?_)
      cases x with
      | error cause => exact ⟨_, .torn body cause, trivial, rfl⟩
      | ok u =>
          refine ⟨_, .write body u hown, trivial, follows_ask fun x => ?_⟩
          cases x with
          | error cause => exact ⟨_, .stuck body cause, trivial, rfl⟩
          | ok u => exact ⟨_, .rename body u, trivial, rfl⟩

theorem publish_follows {body : List UInt8} (hown : a.Owns body) :
    (runProtocol dir a).Follows (publish dir a.id body) (fun x φ => φ = (a, stageAfter x))
      (a, .recording none) := by
  refine Protocol.follows_bind (Protocol.follows_post ?_ (put_follows hown))
  intro x φ hφ
  subst hφ
  cases x with
  | ok u => exact rfl
  | error cause =>
      exact Protocol.follows_bind (follows_ask fun x => ⟨_, .remove x, trivial, rfl⟩)

/-- What is written of a record of the activation is its own. -/
theorem owns_of_bounded {record : FailureRecord} {body : List UInt8}
    (hevent : record.event = a.run.event) (hunit : record.unit = a.unit)
    (hid : record.invocationId = a.id) (hreason : failureReason a.outcome = some record.reason)
    (h : bounded { record with reason := Redact.credentials record.reason } = .ok body) :
    a.Owns body := by
  obtain ⟨hle, short, hshort, rfl⟩ := bounded_ok h
  exact ⟨hle, { record with reason := short },
    ⟨hevent, hunit, hid, record.reason, hreason, hshort⟩, rfl⟩

theorem write_follows {record : FailureRecord} (hid : record.invocationId = a.id)
    (hown : ∀ body, bounded { record with reason := Redact.credentials record.reason } =
      .ok body → a.Owns body) :
    (runProtocol dir a).Follows (record.write dir) (fun x φ => φ = (a, stageAfter x))
      (a, .recording none) := by
  have hvalid : isInvocationId record.invocationId = true := hid ▸ a.id.property
  rw [FailureRecord.write, if_pos hvalid]
  cases h : bounded { record with reason := Redact.credentials record.reason } with
  | error cause => exact rfl
  | ok body =>
      refine Protocol.follows_attempt (follows_ask fun x => ⟨_, .createDirAll x, trivial, ?_⟩)
      cases x with
      | error cause => exact rfl
      | ok u =>
          show (runProtocol dir a).Follows (publish dir record.invocationId body) _ _
          rw [hid]
          exact publish_follows (hown body h)

theorem recordFailure_follows :
    (runProtocol dir a).Follows
      (recordFailure a.run a.unit a.outcome (some a.id.val) dir)
      (fun x φ => φ = (a, .recording none) ∨ φ = (a, .recorded) ∧ x.isOk = true ∧
        (failureReason a.outcome).isSome = true) (a, .recording none) := by
  unfold recordFailure
  cases hreason : failureReason a.outcome with
  | none => exact .inl rfl
  | some reason =>
      refine Protocol.follows_bind (follows_ask fun x => ⟨_, .names x, trivial, ?_⟩)
      refine Protocol.follows_bind (follows_ask fun now => ⟨_, .now now, trivial, ?_⟩)
      refine Protocol.follows_bind (Protocol.follows_post ?_ (write_follows rfl fun body h =>
        owns_of_bounded rfl rfl rfl hreason h))
      intro y φ hφ
      subst hφ
      cases y with
      | ok path => exact .inr ⟨rfl, rfl, rfl⟩
      | error cause => exact .inl rfl

/-- What a run does last leaves it with its outcome, and with a record only of a failure. -/
theorem recorded_follows :
    (runProtocol dir a).Follows
      (recorded a.outcome a.run (some a.unit) (some a.id.val) dir)
      (fun outcome φ => outcome = a.outcome ∧ (φ = (a, .recording none) ∨
        φ = (a, .recorded) ∧ (failureReason a.outcome).isSome = true)) (a, .recording none) := by
  refine Protocol.follows_bind (Protocol.follows_post ?_ recordFailure_follows)
  intro x φ hφ
  cases x with
  | ok path => exact ⟨rfl, hφ.imp_right fun h => ⟨h.1, h.2.2⟩⟩
  | error warning =>
      obtain rfl | ⟨-, hok, -⟩ := hφ
      · exact Protocol.follows_bind (follows_ask fun x => ⟨_, .warn _ x, trivial, rfl, .inl rfl⟩)
      · cases hok

end Course

/-! ## The course of the alert -/

section Alert

variable {dir : PathBuf} {a : Activation}

theorem follows_alert {c : AlertCall} {Q : c.Answer → Activation × Stage → Prop} {s : Stage}
    (h : ∀ x, ∃ s', StageMove dir a s c x s' ∧ Q x (a, s')) :
    (alertProtocol dir).Follows (ask c) Q (a, s) := by
  intro x _
  obtain ⟨s', hmove, hQ⟩ := h x
  exact ⟨(a, s'), ⟨rfl, hmove⟩, hQ⟩

/-- The alert looks for the record of its activation. -/
theorem find_follows (config : AlertConfig) (hmonitored : a.monitored = true) :
    (alertProtocol dir).Follows (FailureRecord.find dir a.id)
      (fun found φ => ∃ record : Option FailureRecord, φ = (a, .looked config record) ∧
        found = record.map fun r => (r, recordPath dir a.id)) (a, .alerting config) := by
  rw [FailureRecord.find, if_pos a.id.property]
  refine Protocol.follows_bind (follows_alert fun x => ?_)
  cases x with
  | error cause => exact ⟨_, .absent config cause hmonitored, none, rfl, rfl⟩
  | ok size =>
      by_cases hlarge : maxBytes < size
      · refine ⟨_, .large config size hmonitored hlarge, ?_⟩
        simp only [if_pos hlarge]
        exact ⟨none, rfl, rfl⟩
      · refine ⟨_, .size config size hmonitored (Nat.le_of_not_lt hlarge), ?_⟩
        simp only [if_neg hlarge]
        refine Protocol.follows_bind (follows_alert fun y => ?_)
        cases y with
        | error cause => exact ⟨_, .unread config cause hmonitored, none, rfl, rfl⟩
        | ok bytes => exact ⟨_, .read config bytes hmonitored, _, rfl, rfl⟩

/-- How an alert stands when it knows how it ends. -/
def stageOf : Except String AlertOutput → Stage
  | .ok output => .sent output false
  | .error cause => .refused cause

theorem consume_follows (output : AlertOutput) (found : Option FailureRecord) :
    (alertProtocol dir).Follows
      (consume (found.map fun r => (r, recordPath dir a.id)))
      (fun _ φ => φ = (a, .sent output false)) (a, .sent output found.isSome) := by
  cases found with
  | none => exact rfl
  | some record =>
      exact Protocol.follows_bind (follows_alert fun x => ⟨_, .consume output x, rfl⟩)

theorem sendFound_follows (config : AlertConfig) (record : Option FailureRecord) :
    (alertProtocol dir).Follows
      (sendFound config a.unit a.monitorId (record.map fun r => (r, recordPath dir a.id)))
      (fun result φ => φ = (a, stageOf result)) (a, .looked config record) := by
  refine Protocol.follows_bind (follows_alert fun answer => ⟨_, .tell config record answer, ?_⟩)
  refine Protocol.follows_bind (Protocol.follows_post ?_ (consume_follows _ record))
  intro u φ hφ
  subst hφ
  exact rfl

theorem notify_follows {s : Stage} (hs : s.Running) :
    (alertProtocol dir).Follows (notify a.unit a.monitorId dir)
      (fun result φ => φ = (a, stageOf result)) (a, s) := by
  refine Protocol.follows_bind (follows_alert fun x => ?_)
  cases x with
  | error cause => exact ⟨_, .refuse s cause hs, rfl⟩
  | ok config =>
      refine ⟨_, .start s config hs, ?_⟩
      simp only [filter_monitorId]
      cases hmonitored : a.monitored with
      | false =>
          have hid : a.monitorId = none := by simp [Activation.monitorId, hmonitored]
          have hpoint := fun answer => @StageMove.point _ dir a config answer hmonitored
          rw [hid] at hpoint ⊢
          exact Protocol.follows_bind (follows_alert fun answer => ⟨_, hpoint answer, rfl⟩)
      | true =>
          have hid : a.monitorId = some a.id.val := by simp [Activation.monitorId, hmonitored]
          have hfind : findFor dir a.monitorId = FailureRecord.find dir a.id := by rw [hid, findFor]
          rw [hfind]
          refine Protocol.follows_bind (Protocol.follows_post ?_ (find_follows config hmonitored))
          intro found φ h
          obtain ⟨record, rfl, rfl⟩ := h
          exact sendFound_follows config record

theorem alert_follows {s : Stage} (hs : s.Running) :
    (alertProtocol dir).Follows (a.alert dir) (fun _ φ => φ = (a, .finished)) (a, s) := by
  refine Protocol.follows_bind (Protocol.follows_post ?_ (notify_follows hs))
  intro result φ hφ
  subst hφ
  cases result with
  | error cause => exact follows_alert fun x => ⟨_, .fail cause x, rfl⟩
  | ok output => exact follows_alert fun x => ⟨_, .exit output x, rfl⟩

/-- An activation follows the protocol, wherever its run is killed. -/
theorem program_follows (dir : PathBuf) (a : Activation) :
    (alertProtocol dir).Follows (a.program dir) (fun _ φ => Ended φ) (a, .recording none) := by
  have halert : ∀ {s : Stage}, s.Running →
      (alertProtocol dir).Follows (a.alert dir) (fun _ φ => Ended φ) (a, s) := by
    intro s hs
    refine Protocol.follows_post ?_ (alert_follows hs)
    intro u φ hφ
    exact .inl (congrArg Prod.snd hφ)
  have hrun := @recorded_follows _ dir a
  refine Protocol.follows_bind (Protocol.follows_killable (P := alertProtocol dir)
    (J := fun φ => φ.1 = a ∧ φ.2.Running) ⟨rfl, trivial⟩ ?_ ?_ hrun)
  · intro φ hφ
    obtain ⟨b, s⟩ := φ
    obtain ⟨rfl, hs⟩ := hφ
    exact halert hs
  · intro outcome φ hφ
    obtain ⟨rfl, hφ⟩ := hφ
    cases hfailed : (failureReason a.outcome).isSome with
    | true =>
        simp only [hfailed, if_true]
        obtain rfl | ⟨rfl, -⟩ := hφ
        · exact halert trivial
        · exact halert trivial
    | false =>
        simp only [hfailed, Bool.false_eq_true, if_false]
        obtain rfl | ⟨-, hsome⟩ := hφ
        · exact .inr ⟨rfl, hfailed⟩
        · rw [hfailed] at hsome
          cases hsome

end Alert

/-! ## The invariant -/

section Invariant

variable (calm : Prop) (a : Activation)

/-- What holds of an activation at a stage. -/
def Fits (x : Standing) : Stage → Prop
  | .recording written => x.notes.recorded = none ∧ x.notes.sent = [] ∧ x.notes.ended = none ∧
      ∀ bytes ∈ written, a.Owns bytes ∧ (x.unfinished = none ∨ x.unfinished = some bytes)
  | .recorded => x.notes.sent = [] ∧ x.notes.ended = none ∧ (calm → x.record = x.notes.recorded)
  | .alerting config => x.notes.config = some config ∧ x.notes.sent = [] ∧
      x.notes.ended = none ∧ (calm → x.record = x.notes.recorded)
  | .looked config found => x.notes.config = some config ∧ x.notes.sent = [] ∧
      x.notes.ended = none ∧ a.monitored = true ∧ (∀ r ∈ found, a.Wrote r) ∧
      (calm → x.record = x.notes.recorded ∧ found = x.notes.recorded.bind FailureRecord.ofBody)
  | .sent output pending => x.notes.ended = none ∧
      (∃ config record answer, a.Sends calm x.notes config record answer ∧
        output = outputOf config a.unit a.monitorId record answer) ∧
      (calm → a.monitored = true → pending = false → x.record = none)
  | .refused _ => x.notes.sent = [] ∧ x.notes.ended = none ∧ ¬ calm
  | .finished => (∃ result, x.notes.ended = some result ∧ a.Concluded calm x.notes result) ∧
      (calm → a.monitored = true → x.record = none)

/-- What holds of an activation at every stage: a record that can be seen was written by it. -/
structure Holds (x : Standing) (s : Stage) : Prop where
  seen : x.record = none ∨ x.record = x.notes.recorded
  own : ∀ bytes ∈ x.notes.recorded, a.Owns bytes
  fits : Fits calm a x s

variable {calm a} {x : Standing} {s : Stage}

/-- A record that is owned is read. -/
theorem ofBody_of_owns {bytes : List UInt8} (h : a.Owns bytes) :
    ∃ record, FailureRecord.ofBody bytes = some record ∧ a.Wrote record := by
  obtain ⟨-, record, hwrote, rfl⟩ := h
  exact ⟨record, record.ofBody_body, hwrote⟩

/-- When the directory goes away, nothing is calm. -/
theorem Holds.cleared (h : Holds calm a x s) (hcalm : ¬ calm) :
    Holds calm a ⟨x.notes, none, none⟩ s := by
  refine ⟨.inl rfl, h.own, ?_⟩
  have hfits := h.fits
  cases s with
  | recording written =>
      obtain ⟨hrecorded, hsent, hended, hwritten⟩ := hfits
      exact ⟨hrecorded, hsent, hended, fun bytes hbytes => ⟨(hwritten bytes hbytes).1, .inl rfl⟩⟩
  | recorded => exact ⟨hfits.1, hfits.2.1, fun h => absurd h hcalm⟩
  | alerting config => exact ⟨hfits.1, hfits.2.1, hfits.2.2.1, fun h => absurd h hcalm⟩
  | looked config found =>
      obtain ⟨hconfig, hsent, hended, hmonitored, hwrote, -⟩ := hfits
      exact ⟨hconfig, hsent, hended, hmonitored, hwrote, fun h => absurd h hcalm⟩
  | sent output pending => exact ⟨hfits.1, hfits.2.1, fun h => absurd h hcalm⟩
  | refused cause => exact hfits
  | finished => exact ⟨hfits.1, fun h => absurd h hcalm⟩

/-- When nothing failed, an alert that knows the invocation tells what was recorded. -/
theorem tells_of_concluded {result : Except String AlertOutput}
    (h : a.Concluded calm x.notes result) (hcalm : calm) (hmonitored : a.monitored = true)
    {bytes : List UInt8} (hrecorded : x.notes.recorded = some bytes) (hown : a.Owns bytes) :
    a.Tells x.notes bytes result := by
  obtain ⟨config, found, answer, ⟨hconfig, hsent, -, hfound⟩, hresult⟩ | ⟨hnot, -⟩ := h
  · obtain ⟨record, hread, hwrote⟩ := ofBody_of_owns hown
    have hrecord : found = some record := by
      rw [hfound hcalm hmonitored, hrecorded, Option.bind_some, hread]
    subst hrecord
    exact ⟨config, record, answer, hconfig, hread, hwrote, hsent, hresult⟩
  · exact absurd hcalm hnot

/-- What holds at any stage is what should be reported. -/
theorem Holds.reported (h : Holds calm a x s) : a.Reported calm x.notes := by
  have hfits := h.fits
  have hopen : (x.notes.sent = [] ∨ ∃ config record answer,
      a.Sends calm x.notes config record answer) → x.notes.ended = none →
      a.Reported calm x.notes := by
    intro hsent hended
    refine ⟨hsent, h.own, fun result hresult => ?_, fun _ _ _ _ result hresult => ?_⟩
    · rw [hended] at hresult
      cases hresult
    · rw [hended] at hresult
      cases hresult
  cases s with
  | recording written => exact hopen (.inl hfits.2.1) hfits.2.2.1
  | recorded => exact hopen (.inl hfits.1) hfits.2.1
  | alerting config => exact hopen (.inl hfits.2.1) hfits.2.2.1
  | looked config found => exact hopen (.inl hfits.2.1) hfits.2.2.1
  | refused cause => exact hopen (.inl hfits.1) hfits.2.1
  | sent output pending =>
      obtain ⟨hended, ⟨config, record, answer, hsends, -⟩, -⟩ := hfits
      exact hopen (.inr ⟨config, record, answer, hsends⟩) hended
  | finished =>
      obtain ⟨⟨result, hended, hconcluded⟩, -⟩ := hfits
      refine ⟨?_, h.own, fun other hother => ?_, fun hcalm hmonitored bytes hbytes other hother =>
        ?_⟩
      · obtain ⟨config, record, answer, hsends, -⟩ | ⟨-, hsent, -⟩ := hconcluded
        · exact .inr ⟨config, record, answer, hsends⟩
        · exact .inl hsent
      · obtain rfl := Option.some.inj (hended.symm.trans hother)
        exact hconcluded
      · obtain rfl := Option.some.inj (hended.symm.trans hother)
        exact tells_of_concluded hconcluded hcalm hmonitored hbytes (h.own bytes hbytes)

/-- A record that the alert found is about its activation. -/
theorem known_of_wrote {dir : PathBuf} (hmonitored : a.monitored = true)
    {found : Option FailureRecord} (h : ∀ r ∈ found, a.Wrote r) : a.known dir found = found := by
  cases found with
  | none => rfl
  | some r =>
      obtain ⟨-, hunit, hid, -⟩ := h r rfl
      have hmonitor : a.monitorId = some a.id.val := by simp [Activation.monitorId, hmonitored]
      simp [Activation.known, matching, hunit, hid, hmonitor]

end Invariant

/-! ## One command of an activation -/

section Carry

variable {calm : Prop} {dir : PathBuf} {a : Activation} {fault : Fault} {notes : Notes}
  {w : Failures}

/-- A run that records nothing yet may do what it likes under the other name. -/
theorem Holds.recording (h : Holds calm a (standing dir a notes w) (.recording none))
    {notes' : Notes} {w' : Failures} (hnotes : notes' = notes)
    (hrecord : w'.files (recordPath dir a.id) = w.files (recordPath dir a.id)) :
    Holds calm a (standing dir a notes' w') (.recording none) := by
  subst hnotes
  obtain ⟨hrecorded, hsent, hended, -⟩ := h.fits
  refine ⟨?_, h.own, hrecorded, hsent, hended, fun bytes hbytes => by cases hbytes⟩
  show w'.files (recordPath dir a.id) = none ∨ w'.files (recordPath dir a.id) = _
  rw [hrecord]
  exact h.seen

/-- A run may be killed with whatever it has done, and its alert begins. -/
theorem Holds.start {s : Stage} (h : Holds calm a (standing dir a notes w) s) (hs : s.Running)
    (config : AlertConfig) :
    Holds calm a (standing dir a { notes with config := some config } w) (.alerting config) := by
  have hfits := h.fits
  cases s with
  | recorded => exact ⟨h.seen, h.own, rfl, hfits⟩
  | recording written =>
      obtain ⟨hrecorded, hsent, hended, -⟩ := hfits
      refine ⟨h.seen, h.own, rfl, hsent, hended, fun _ => ?_⟩
      -- killed before it noted its record, the run has none in place or the one it noted
      obtain hnone | hsame := h.seen
      · exact hnone.trans hrecorded.symm
      · exact hsame
  | alerting | looked | sent | refused | finished => cases hs

/-- Moving the record into place notes what was written. -/
theorem Holds.rename {bytes : List UInt8} {u : Unit}
    (h : Holds calm a (standing dir a notes w) (.recording (some bytes)))
    (hx : .ok u = (w.carry fault notes
      (.rename (unfinishedPath dir a.id) (recordPath dir a.id))).1) :
    Holds calm a (standing dir a
      (w.carry fault notes (.rename (unfinishedPath dir a.id) (recordPath dir a.id))).2.1
      (w.carry fault notes (.rename (unfinishedPath dir a.id) (recordPath dir a.id))).2.2)
      .recorded := by
  obtain ⟨moved, hsource, hdone⟩ := carry_rename_ok hx
  obtain ⟨-, hsent, hended, hwritten⟩ := h.fits
  obtain ⟨hown, hthere⟩ := hwritten bytes rfl
  have hmoved : moved = bytes := by
    obtain hnone | hsome := hthere
    · rw [standing, hsource] at hnone
      cases hnone
    · rw [standing, hsource] at hsome
      exact Option.some.inj hsome
  rw [hdone]
  have hplaced : ((w.put (unfinishedPath dir a.id) none).put (recordPath dir a.id)
      (some moved)).files (recordPath dir a.id) = some moved := Function.update_self _ _ _
  refine ⟨.inr hplaced, fun found hfound => ?_, hsent, hended, fun _ => hplaced⟩
  obtain rfl := Option.some.inj hfound
  exact hmoved ▸ hown

/-- The alert that looks for a record finds the one that was moved into place, or none. -/
theorem Holds.looked {config : AlertConfig} {found : Option FailureRecord}
    (h : Holds calm a (standing dir a notes w) (.alerting config)) (hmonitored : a.monitored = true)
    (hfound : found = none ∨ ∃ bytes, w.files (recordPath dir a.id) = some bytes ∧
      found = FailureRecord.ofBody bytes)
    (hnone : calm → found = none → w.files (recordPath dir a.id) = none) :
    Holds calm a (standing dir a notes w) (.looked config found) := by
  obtain ⟨hconfig, hsent, hended, hkept⟩ := h.fits
  have hwrote : ∀ bytes, w.files (recordPath dir a.id) = some bytes → a.Owns bytes := by
    intro bytes hbytes
    obtain hnone | hsame := h.seen
    · rw [standing, hbytes] at hnone
      cases hnone
    · exact h.own bytes (hsame.symm.trans hbytes)
  refine ⟨h.seen, h.own, hconfig, hsent, hended, hmonitored, ?_, fun hcalm => ⟨hkept hcalm, ?_⟩⟩
  · intro r hr
    obtain rfl | ⟨bytes, hbytes, rfl⟩ := hfound
    · cases hr
    · obtain ⟨record, hread, hrecord⟩ := ofBody_of_owns (hwrote bytes hbytes)
      rw [hread] at hr
      exact Option.some.inj hr ▸ hrecord
  · have hrecorded : notes.recorded = w.files (recordPath dir a.id) := (hkept hcalm).symm
    show found = notes.recorded.bind FailureRecord.ofBody
    rw [hrecorded]
    obtain hfound | ⟨bytes, hbytes, hfound⟩ := hfound
    · rw [hfound, hnone hcalm hfound, Option.bind_none]
    · rw [hfound, hbytes, Option.bind_some]

/-- The message is about what the alert found. -/
theorem Holds.tell {config : AlertConfig} {found : Option FailureRecord}
    (h : Holds calm a (standing dir a notes w) (.looked config found))
    (answer : Except String Unit) :
    Holds calm a (standing dir a
      { notes with sent :=
          (deliveryOf config a.unit a.monitorId (a.known dir found), answer) :: notes.sent } w)
      (.sent (outputOf config a.unit a.monitorId (a.known dir found) answer) found.isSome) := by
  obtain ⟨hconfig, hsent, hended, hmonitored, hwrote, hcalm⟩ := h.fits
  rw [known_of_wrote hmonitored hwrote]
  have hnil : notes.sent = [] := hsent
  refine ⟨h.seen, h.own, hended, ⟨config, found, answer, ⟨hconfig, ?_, hwrote, ?_⟩, rfl⟩, ?_⟩
  · show _ :: notes.sent = _
    rw [hnil]
  · exact fun hc _ => (hcalm hc).2
  · intro hc _ hpending
    obtain ⟨hrecord, hfound⟩ := hcalm hc
    cases hrecorded : notes.recorded with
    | none =>
        exact hrecord.trans hrecorded
    | some bytes =>
        obtain ⟨record, hread, -⟩ := ofBody_of_owns (h.own bytes hrecorded)
        have hbind : found = notes.recorded.bind FailureRecord.ofBody := hfound
        rw [hbind, hrecorded, Option.bind_some, hread] at hpending
        cases hpending

/-- One command of an activation keeps what holds of it. -/
theorem carry_holds {s s' : Stage} {c : AlertCall} {x : c.Answer}
    (hcalm : calm → fault.error = none) (h : Holds calm a (standing dir a notes w) s)
    (hx : x = (w.carry fault notes c).1) (hmove : StageMove dir a s c x s') :
    Holds calm a (standing dir a (w.carry fault notes c).2.1 (w.carry fault notes c).2.2) s' := by
  cases hmove with
  | names x =>
      obtain ⟨config, hload⟩ := @carry_load_same fault notes w
      rw [hload]
      exact ⟨h.seen, h.own, h.fits⟩
  | now x => exact h
  | warn line x => exact h
  | createDirAll x => exact h.recording rfl (carry_files (by simp [AlertCall.paths]))
  | openNew x =>
      exact h.recording (carry_openNew_notes _ _)
        (carry_files (by simpa [AlertCall.paths] using recordPath_ne dir a a))
  | torn bytes cause =>
      exact h.recording rfl (carry_files (by simpa [AlertCall.paths] using recordPath_ne dir a a))
  | remove x =>
      have hnotes : (w.carry fault notes (.remove (unfinishedPath dir a.id))).2.1 = notes := by
        obtain hsame | hremoved := @carry_remove_cases fault notes w (unfinishedPath dir a.id)
        · rw [hsame]
        · rw [hremoved]
      exact h.recording hnotes
        (carry_files (by simpa [AlertCall.paths] using recordPath_ne dir a a))
  | write bytes u hown =>
      have hagain : Holds calm a (standing dir a notes
          (w.carry fault notes (.write (unfinishedPath dir a.id) bytes)).2.2) (.recording none) :=
        h.recording rfl (carry_files (by simpa [AlertCall.paths] using recordPath_ne dir a a))
      obtain ⟨hseen, hkept, hrecorded, hsent, hended, -⟩ := hagain
      refine ⟨hseen, hkept, hrecorded, hsent, hended, fun found hfound => ?_⟩
      obtain rfl := Option.some.inj hfound
      exact ⟨hown, carry_write_ok hx⟩
  | rename bytes u => exact h.rename hx
  | stuck bytes cause =>
      rw [carry_rename_error hx]
      obtain ⟨hrecorded, hsent, hended, -⟩ := h.fits
      exact ⟨h.seen, h.own, hrecorded, hsent, hended, fun found hfound => by cases hfound⟩
  | start _ config hs =>
      rw [carry_load_ok hx]
      exact h.start hs config
  | refuse _ cause hs =>
      obtain ⟨config, hload⟩ := @carry_load_same fault notes w
      obtain ⟨-, hsent, hended, -⟩ := (h.start hs ⟨none, none⟩).fits
      rw [hload]
      refine ⟨h.seen, h.own, hsent, hended, fun hc => ?_⟩
      simp only [Failures.carry, hcalm hc] at hx
      cases hx
  | size config size hmonitored hle =>
      rw [carry_size_same]
      exact h
  | large config size hmonitored hlarge =>
      obtain ⟨bytes, hbytes, rfl⟩ := carry_size hx
      rw [carry_size_same]
      refine h.looked hmonitored (.inl rfl) fun hc _ => ?_
      -- A record of the activation is not too large.
      obtain hnone | hsame := h.seen
      · exact hnone
      · have hown := h.own bytes (hsame.symm.trans hbytes)
        exact absurd hown.1 (Nat.not_le_of_lt hlarge)
  | absent config cause hmonitored =>
      rw [carry_size_same]
      exact h.looked hmonitored (.inl rfl) fun hc _ => carry_size_error (hcalm hc) hx
  | read config bytes hmonitored =>
      have hbytes := carry_read hx
      rw [carry_read_same]
      -- what is in place is the activation's own record, and that can be read
      refine h.looked hmonitored (.inr ⟨bytes, hbytes, rfl⟩) fun hc hnone => ?_
      obtain hgone | hsame := h.seen
      · exact hgone
      · obtain ⟨record, hread, -⟩ := ofBody_of_owns (h.own bytes (hsame.symm.trans hbytes))
        rw [hread] at hnone
        cases hnone
  | unread config cause hmonitored =>
      rw [carry_read_same]
      exact h.looked hmonitored (.inl rfl) fun hc _ => carry_read_error (hcalm hc) hx
  | tell config found answer =>
      obtain rfl : answer = Failures.answer fault.hook := hx
      exact h.tell _
  | point config answer hmonitored =>
      obtain rfl : answer = Failures.answer fault.hook := hx
      obtain ⟨hconfig, hsent, hended, -⟩ := h.fits
      refine ⟨h.seen, h.own, hended, ⟨config, none, _, ⟨hconfig, ?_, ?_, ?_⟩, rfl⟩, ?_⟩
      · show _ :: notes.sent = _
        rw [show notes.sent = [] from hsent]
      · exact fun r hr => by cases hr
      · intro _ hknown
        rw [hmonitored] at hknown
        cases hknown
      · intro _ hknown
        rw [hmonitored] at hknown
        cases hknown
  | consume output x =>
      obtain ⟨hended, hsends, -⟩ := h.fits
      have hgone := fun hc => @carry_remove fault notes w (recordPath dir a.id) (hcalm hc)
      obtain hsame | hremoved := @carry_remove_cases fault notes w (recordPath dir a.id)
      -- a record that could not be deleted was not there, or something failed
      · rw [hsame] at hgone ⊢
        exact ⟨h.seen, h.own, hended, hsends, fun hc _ _ => hgone hc⟩
      · rw [hremoved]
        have hnone : (w.put (recordPath dir a.id) none).files (recordPath dir a.id) = none :=
          Function.update_self _ _ _
        exact ⟨.inl hnone, h.own, hended, hsends, fun _ _ _ => hnone⟩
  | exit output x =>
      obtain ⟨hended, ⟨config, record, answer, hsends, rfl⟩, hgone⟩ := h.fits
      exact ⟨h.seen, h.own, ⟨_, rfl, .inl ⟨config, record, answer, hsends, rfl⟩⟩,
        fun hc hmonitored => hgone hc hmonitored rfl⟩
  | fail cause x =>
      obtain ⟨hsent, hended, hnot⟩ := h.fits
      exact ⟨h.seen, h.own, ⟨_, rfl, .inr ⟨hnot, hsent, cause, rfl⟩⟩, fun hc => absurd hc hnot⟩

end Carry

/-! ## Every run -/

section Runs

variable {ι : Type} {calm : Prop} {dir : PathBuf} {acts : ι → Activation}

/-- What holds of every activation. -/
def AlertInv (calm : Prop) (dir : PathBuf) (acts : ι → Activation) (phases : ι → Activation × Stage)
    (tags : ι → Notes) (w : Failures) : Prop :=
  ∀ i, (phases i).1 = acts i ∧ Holds calm (acts i) (standing dir (acts i) (tags i) w) (phases i).2

/-- An activation only touches its own files. -/
theorem paths_of_move {a : Activation} {s s' : Stage} {c : AlertCall} {x : c.Answer}
    (h : StageMove dir a s c x s') {q : PathBuf} (hq : q ∈ c.paths) :
    q = recordPath dir a.id ∨ q = unfinishedPath dir a.id := by
  cases h with
  | openNew | write | torn | remove => exact .inr (by simpa [AlertCall.paths] using hq)
  | rename | stuck => exact Or.symm (by simpa [AlertCall.paths] using hq)
  | consume => exact .inl (by simpa [AlertCall.paths] using hq)
  | names | now | createDirAll | warn | start | refuse | size | large | absent | read | unread
  | tell | point | exit | fail => simp [AlertCall.paths] at hq

/-- One activation leaves what is another's as it is. -/
theorem standing_of_other {a b : Activation} (hne : b.id ≠ a.id) {s s' : Stage} {c : AlertCall}
    {x : c.Answer} (h : StageMove dir a s c x s') (fault : Fault) (notes notes' : Notes)
    (w : Failures) :
    standing dir b notes' (w.carry fault notes c).2.2 = standing dir b notes' w := by
  -- its two names are of its invocation, and the invocations differ
  have hrecord : recordPath dir b.id ∉ c.paths := by
    intro hmem
    obtain heq | heq := paths_of_move h hmem
    · exact hne (Subtype.ext (recordPath_injective dir b.id.property a.id.property heq))
    · exact recordPath_ne dir b a heq
  have hunfinished : unfinishedPath dir b.id ∉ c.paths := by
    intro hmem
    obtain heq | heq := paths_of_move h hmem
    · exact recordPath_ne dir a b heq.symm
    · exact hne (Subtype.ext (unfinishedPath_injective dir b.id.property a.id.property heq))
  rw [standing, standing, carry_files hrecord, carry_files hunfinished]

/-- A command is counted, and the directory may be gone before it. -/
theorem AlertInv.before {phases : ι → Activation × Stage} {tags : ι → Notes} {w : Failures}
    (h : AlertInv calm dir acts phases tags w) {fault : Fault} (hcalm : calm → fault.Calm) :
    AlertInv calm dir acts phases tags
      (if fault.gone then Failures.cleared { w with calls := w.calls + 1 }
        else { w with calls := w.calls + 1 }) := by
  intro i
  obtain ⟨hacts, hholds⟩ := h i
  refine ⟨hacts, ?_⟩
  split
  · next hgone =>
      refine hholds.cleared fun hc => ?_
      rw [(hcalm hc).2] at hgone
      cases hgone
  · exact hholds

/-- One command keeps the invariant. -/
theorem alertMonitor_keeps [DecidableEq ι] (hids : Function.Injective fun i => (acts i).id)
    {faults : Nat → Fault} (hcalm : ∀ n, calm → (faults n).Calm)
    {phases : ι → Activation × Stage} {tags : ι → Notes} {w : Failures}
    (h : AlertInv calm dir acts phases tags w) {i : ι} {c : AlertCall}
    {k : c.Answer → Prog AlertSig Unit} {φ : Activation × Stage}
    (hmove : (alertProtocol dir).Move (phases i) c (alertMonitor faults (tags i) c k w).1 φ) :
    AlertInv calm dir acts (Function.update phases i φ)
      (Function.update tags i (alertMonitor faults (tags i) c k w).2.1)
      (alertMonitor faults (tags i) c k w).2.2 := by
  have hbefore := h.before (hcalm w.calls)
  obtain ⟨hsame, hmove⟩ := hmove
  intro j
  by_cases hj : j = i
  · subst hj
    obtain ⟨hacts, hholds⟩ := hbefore j
    rw [hacts] at hmove
    simp only [Function.update_self]
    exact ⟨hsame.trans hacts, carry_holds (fun hc => (hcalm _ hc).1) hholds rfl hmove⟩
  · obtain ⟨hacts, hholds⟩ := hbefore j
    obtain ⟨hown, -⟩ := hbefore i
    rw [hown] at hmove
    simp only [Function.update_of_ne hj]
    refine ⟨hacts, ?_⟩
    have hother := standing_of_other (fun hid => hj (hids hid)) hmove (faults w.calls) (tags i)
      (tags j) (if (faults w.calls).gone then Failures.cleared { w with calls := w.calls + 1 }
        else { w with calls := w.calls + 1 })
    exact hother ▸ hholds

/-- Before any activation has begun, none has a record. -/
theorem alertInv_activations (acts : ι → Activation) {w : Failures}
    (hfresh : ∀ i, w.files (recordPath dir (acts i).id) = none) :
    AlertInv calm dir acts (fun i => (acts i, .recording none)) (activations dir acts w).tags
      (activations dir acts w).state := by
  refine fun i => ⟨rfl, .inl (hfresh i), ?_, rfl, rfl, rfl, ?_⟩
  · exact fun bytes hbytes => by cases hbytes
  · exact fun bytes hbytes => by cases hbytes

/-- The invariant makes the activations sound. -/
theorem AlertInv.sound {phases : ι → Activation × Stage} {p : Pool ι AlertSig Notes Failures}
    (htracked : p.Tracked (alertProtocol dir) Ended phases)
    (h : AlertInv calm dir acts phases p.tags p.state) : Sound dir acts calm p := by
  -- An activation that is done has finished its alert, or had nothing to record.
  have hdone : ∀ {i}, p.threads i = .ret () → Ended (phases i) := by
    intro i hended
    have hfollows := htracked i
    rw [hended] at hfollows
    exact hfollows
  refine ⟨fun i => (h i).2.reported, fun i bytes hbytes => ?_, fun i hended hfailed => ?_,
    fun hc i hmonitored hended => ?_⟩
  · have hholds := (h i).2
    obtain hnone | hsame := hholds.seen
    · rw [standing, hbytes] at hnone
      cases hnone
    · exact hholds.own bytes (hsame.symm.trans hbytes)
  · obtain ⟨hacts, hholds⟩ := h i
    obtain hover | ⟨-, hquiet⟩ := hdone hended
    · rw [hover] at hholds
      obtain ⟨result, hresult, -⟩ := hholds.fits.1
      exact Option.isSome_iff_exists.mpr ⟨result, hresult⟩
    · rw [hacts, hfailed] at hquiet
      cases hquiet
  · have hholds := (h i).2
    obtain hover | ⟨hidle, -⟩ := hdone hended
    · rw [hover] at hholds
      exact hholds.fits.2 hc hmonitored
    · rw [hidle] at hholds
      obtain hnone | hsame := hholds.seen
      · exact hnone
      · exact hsame.trans hholds.fits.1

end Runs

end Alerts

/-! ## A drill and a backup -/

namespace Nightly

/-- A drill and a backup, which both fail. -/
def acts (backup : Bool) : Activation where
  run := if backup then .backup else .drill
  unit := if backup then "fraisier-shop-scheduled.service" else "fraisier-shop-drill.service"
  outcome := if backup then .error "pg_dump exited 1" else .ok ⟨1, "boom\n"⟩
  id := if backup then ⟨"0123456789abcdef0123456789abcdef", by decide⟩
    else ⟨"fedcba9876543210fedcba9876543210", by decide⟩
  monitored := true

def dir : PathBuf := ⟨true, ["run", "fraisier", "failures"]⟩

/-- Nothing fails. -/
def faults (_ : Nat) : Fault :=
  ⟨none, 0, false, none, ⟨some ⟨some "shop", some "production"⟩, some "notify"⟩, some 0⟩

/-- The backup is killed when it has read its configuration. Then the drill and its alert run. -/
def schedule : List (Bool × Bool) :=
  List.replicate 2 (true, true) ++ (true, false) :: List.replicate 17 (false, true)

def start : Pool Bool AlertSig Notes Failures :=
  @activations _ asciiTables dir acts ⟨false, fun _ => none, 0⟩

end Nightly

end Fraisier.Cli.Alerts
