import Fraisier.Artifact.Sources
import Fraisier.Effect.History

/-!
# When a configured checksum is enforced

A checksum is configured by its text or by where to fetch it. What is staged has that checksum
iff one was obtained, or nothing was staged: a document without a word is taken for no checksum
at all. Read `Enforced` and `Stopped` first; the main theorem is `stage_enforces_iff`.
-/

namespace Fraisier.Artifact

open Fraisier.Core Fraisier.Effect

/-! ## What a checksum says -/

/-- The digest that a word stands for. A backslash before it marks a file whose name is
written with escapes. -/
def digestOf (checksum : String) : String :=
  match (asciiLower checksum).toList with
  | '\\' :: digits => String.ofList digits
  | digits => String.ofList digits

/-- A host, and the bytes that are reached through each path of it. -/
structure Host (sha256 : List UInt8 → List UInt8) where
  World : Type
  answer : Handler HostSig World
  content : World → String → Option (List UInt8)
  /-- `sha256sum` writes the digest of the file first. -/
  sha256sum : ∀ world path captured,
    (answer (.run "sha256sum" [path]) world).1 = .ok captured → captured.succeeded = true →
      ∃ bytes ∈ content (answer (.run "sha256sum" [path]) world).2 path,
        ∃ token ∈ firstToken captured.stdout, digestOf token = hex (sha256 bytes)
  /-- A file that was written has the bytes that were written. -/
  write : ∀ world path bytes, (answer (.write path bytes) world).1 = .ok () →
    content (answer (.write path bytes) world).2 path = some bytes

/-- Some key of a checksum is set. -/
def ChecksumSet (ctx : AdapterCtx) : Prop :=
  (ctx.settings.lookup "sha256").isSome ∨ (ctx.settings.lookup "checksum_url").isSome

/-- What a call fetched from a URL for a pull. -/
def PullArtifact.fetched (pull : PullArtifact) (url : String) : Event HostSig → Option String
  | ⟨.run program args, .ok captured⟩ =>
      if program = pull.curl ∧ args = ["-fSL", "--retry", "3", url] ∧ captured.succeeded = true
      then some captured.stdout
      else none
  | _ => none

/-- What a call fetched from a URL for a release. -/
def ReleaseArtifact.fetched (url : String) : Event HostSig → Option String
  | ⟨.get requested, .ok ⟨status, _, .ok raw⟩⟩ =>
      if requested = url ∧ 200 ≤ status ∧ status < 300 then
        some (String.ofList (Data.fromUtf8Lossy raw))
      else none
  | _ => none

/-- The checksum of a configuration: the inline one, or else the first word of the document
that the calls fetched last from `checksum_url`. -/
def obtained (ctx : AdapterCtx) (fetched : String → Event HostSig → Option String)
    (calls : List (Event HostSig)) : Option String :=
  match stringSetting ctx "sha256" with
  | some sum => some (Data.trim sum)
  | none => do
      let version ← stringSetting ctx "version"
      let url ← stringSetting ctx "checksum_url"
      let document ← (calls.filterMap (fetched (substitute version url))).getLast?
      firstToken document

/-- The call did not do what it was to do. -/
def Failed : Event HostSig → Prop
  | ⟨.run _ _, .ok captured⟩ => captured.succeeded = false
  | ⟨.get _, .ok ⟨status, _, .ok _⟩⟩ => ¬ (200 ≤ status ∧ status < 300)
  | ⟨.get _, _⟩ => True
  | ⟨.run _ _, .error _⟩ => True
  | ⟨.client _, .error _⟩ => True
  | ⟨.createDirAll _, .error _⟩ => True
  | ⟨.write _ _, .error _⟩ => True
  | _ => False

/-- A setting that staging requires is missing, or the last call failed. -/
def Stopped (ctx : AdapterCtx) (calls : List (Event HostSig)) : Prop :=
  stringSetting ctx "version" = none ∨ stringSetting ctx "release_url" = none ∨
    ∃ e ∈ calls.getLast?, Failed e

/-- If a checksum is configured, what is staged has that checksum. -/
def Enforced {sha256 : List UInt8 → List UInt8} (host : Host sha256) (ctx : AdapterCtx)
    (fetched : String → Event HostSig → Option String)
    (run : Run HostSig host.World (Except AdapterError StagedArtifact)) : Prop :=
  ChecksumSet ctx → ∀ staged, run.value = .ok staged →
    ∃ checksum ∈ obtained ctx fetched run.calls, ∃ bytes ∈ host.content run.final staged.path,
      hex (sha256 bytes) = digestOf checksum

/-! ## How a stage ends -/

section Course

variable {sha256 : List UInt8 → List UInt8} {ctx : AdapterCtx}
variable {fetched : String → Event HostSig → Option String}

/-- The last call compared the file at a path with a checksum, or wrote what has it there. -/
inductive Seals (sha256 : List UInt8 → List UInt8) (path checksum : String) :
    List (Event HostSig) → Prop
  | summed (before : List (Event HostSig)) (captured : Captured)
      (hsucceeded : captured.succeeded = true)
      (htoken : asciiLower ((firstToken captured.stdout).getD "") = asciiLower checksum) :
      Seals sha256 path checksum (before ++ [⟨.run "sha256sum" [path], .ok captured⟩])
  | written (before : List (Event HostSig)) (bytes : List UInt8)
      (hdigest : hex (sha256 bytes) = asciiLower checksum) :
      Seals sha256 path checksum (before ++ [⟨.write path bytes, .ok ()⟩])

/-- What a stage returns after which calls. -/
structure Staged (sha256 : List UInt8 → List UInt8) (ctx : AdapterCtx)
    (fetched : String → Event HostSig → Option String)
    (value : Except AdapterError StagedArtifact) (calls : List (Event HostSig)) : Prop where
  error : ∀ error, value = .error error → (obtained ctx fetched calls).isSome ∨ Stopped ctx calls
  ok : ∀ staged, value = .ok staged → ¬ Stopped ctx calls ∧
    ∀ checksum ∈ obtained ctx fetched calls, Seals sha256 staged.path checksum calls

/-- A stage that fails with its last call, or before the first, is stopped. -/
theorem staged_error {error : AdapterError} {calls : List (Event HostSig)}
    (h : (obtained ctx fetched calls).isSome ∨ Stopped ctx calls) :
    Staged sha256 ctx fetched (.error error) calls :=
  ⟨fun _ _ => h, fun _ h => by cases h⟩

theorem stopped_append {before : List (Event HostSig)} {e : Event HostSig} (h : Failed e) :
    Stopped ctx (before ++ [e]) :=
  .inr (.inr ⟨e, by simp, h⟩)

theorem not_stopped_append {before : List (Event HostSig)} {e : Event HostSig}
    {version url : String} (hversion : stringSetting ctx "version" = some version)
    (hurl : stringSetting ctx "release_url" = some url) (h : ¬ Failed e) :
    ¬ Stopped ctx (before ++ [e]) := by
  rintro (hstopped | hstopped | ⟨e', he', hfailed⟩)
  · rw [hversion] at hstopped
    cases hstopped
  · rw [hurl] at hstopped
    cases hstopped
  · rw [List.getLast?_concat, Option.mem_some_iff] at he'
    exact h (he' ▸ hfailed)

theorem requireSetting_error {adapter operation key : String} {error : AdapterError}
    (h : requireSetting adapter operation ctx key = .error error) :
    stringSetting ctx key = none := by
  cases hsetting : stringSetting ctx key with
  | none => rfl
  | some value => simp [requireSetting, hsetting] at h

theorem requireSetting_ok {adapter operation key value : String}
    (h : requireSetting adapter operation ctx key = .ok value) :
    stringSetting ctx key = some value := by
  cases hsetting : stringSetting ctx key with
  | none => simp [requireSetting, hsetting] at h
  | some value' =>
      simp only [requireSetting, hsetting, Except.ok.injEq] at h
      rw [h]

/-- What expecting a checksum gives. -/
inductive Expects (ctx : AdapterCtx) (fetched : String → Event HostSig → Option String)
    (version : String) : Except AdapterError (Option String) → List (Event HostSig) → Prop
  | inline (sum : String) (hsum : stringSetting ctx "sha256" = some sum) :
      Expects ctx fetched version (.ok (some (asciiLower (Data.trim sum)))) []
  | unset (hsum : stringSetting ctx "sha256" = none)
      (hurl : stringSetting ctx "checksum_url" = none) :
      Expects ctx fetched version (.ok none) []
  | unfetched (error : AdapterError) (earlier : List (Event HostSig)) (e : Event HostSig)
      (hfailed : Failed e) : Expects ctx fetched version (.error error) (earlier ++ [e])
  | fetched (url document : String) (earlier : List (Event HostSig)) (e : Event HostSig)
      (hsum : stringSetting ctx "sha256" = none)
      (hurl : stringSetting ctx "checksum_url" = some url)
      (hfetched : fetched (substitute version url) e = some document) (hsucceeded : ¬ Failed e) :
      Expects ctx fetched version (.ok ((firstToken document).map asciiLower)) (earlier ++ [e])

/-- The calls fetch no document. -/
def Undocumented (fetched : String → Event HostSig → Option String)
    (calls : List (Event HostSig)) : Prop :=
  ∀ url, calls.filterMap (fetched url) = []

theorem obtained_of_sha256 {sum : String} (hsum : stringSetting ctx "sha256" = some sum)
    (calls : List (Event HostSig)) : obtained ctx fetched calls = some (Data.trim sum) := by
  rw [obtained, hsum]

theorem obtained_of_unset (hsum : stringSetting ctx "sha256" = none)
    (hurl : stringSetting ctx "checksum_url" = none) (calls : List (Event HostSig)) :
    obtained ctx fetched calls = none := by
  rw [obtained, hsum]
  cases stringSetting ctx "version" <;> simp [hurl]

/-- The document is what the last call that fetched one yielded. -/
theorem obtained_of_document {version url document : String}
    {before fetching after : List (Event HostSig)}
    (hsum : stringSetting ctx "sha256" = none)
    (hversion : stringSetting ctx "version" = some version)
    (hurl : stringSetting ctx "checksum_url" = some url)
    (hfetching : (fetching.filterMap (fetched (substitute version url))).getLast? = some document)
    (hafter : Undocumented fetched after) :
    obtained ctx fetched (before ++ (fetching ++ after)) = firstToken document := by
  simp only [obtained, hsum, hversion, hurl, Option.bind_eq_bind, Option.bind_some]
  rw [List.filterMap_append, List.filterMap_append, hafter, List.append_nil,
    List.getLast?_append, hfetching, Option.some_or, Option.bind_some]

/-- What is expected is what was obtained. -/
theorem Expects.obtained {version : String} {expected : Option String}
    {calls : List (Event HostSig)} (h : Expects ctx fetched version (.ok expected) calls)
    (hversion : stringSetting ctx "version" = some version) (before : List (Event HostSig))
    {after : List (Event HostSig)} (hafter : Undocumented fetched after) :
    (obtained ctx fetched (before ++ (calls ++ after))).map asciiLower = expected := by
  cases h with
  | inline sum hsum => rw [obtained_of_sha256 hsum, Option.map_some]
  | unset hsum hurl => rw [obtained_of_unset hsum hurl, Option.map_none]
  | fetched url document earlier e hsum hurl hfetched hsucceeded =>
      have hlast : ((earlier ++ [e]).filterMap (fetched (substitute version url))).getLast? =
          some document := by
        rw [List.filterMap_append, List.filterMap_cons_some hfetched, List.filterMap_nil,
          List.getLast?_concat]
      rw [obtained_of_document hsum hversion hurl hlast hafter]

/-- If nothing is expected, the last call before that, or of that, did not fail. -/
theorem Expects.not_stopped {version url : String} {before calls : List (Event HostSig)}
    {last : Event HostSig} (h : Expects ctx fetched version (.ok none) calls)
    (hversion : stringSetting ctx "version" = some version)
    (hrelease : stringSetting ctx "release_url" = some url) (hlast : ¬ Failed last) :
    ¬ Stopped ctx (before ++ [last] ++ calls) := by
  generalize hnone : none = expected at h
  cases h with
  | inline sum hsum => cases hnone
  | unset hsum hurl =>
      rw [List.append_nil]
      exact not_stopped_append hversion hrelease hlast
  | fetched url' document earlier e hsum hurl hfetched hsucceeded =>
      rw [← List.append_assoc]
      exact not_stopped_append hversion hrelease hsucceeded

theorem checkSum_ok (adapter version expected actual : String)
    (h : checkSum adapter version expected actual = .ok ()) : actual = expected := by
  rw [checkSum] at h
  split at h
  · assumption
  · cases h

/-! ### A pull -/

/-- What running one program gives. -/
inductive Executed (program : String) (args : List String) :
    Except AdapterError Captured → List (Event HostSig) → Prop
  | ok (captured : Captured) (hsucceeded : captured.succeeded = true) :
      Executed program args (.ok captured) [⟨.run program args, .ok captured⟩]
  | failed (error : AdapterError) (answer : Except AdapterError Captured)
      (hfailed : Failed ⟨.run program args, answer⟩) :
      Executed program args (.error error) [⟨.run program args, answer⟩]

theorem exec_yields (program : String) (args : List String) (operation : String) :
    (PullArtifact.exec program args operation).Yields (Executed program args) := by
  refine .bind (.perform fun answer => ?_)
  cases answer with
  | error error => exact .failed error _ trivial
  | ok captured =>
      cases hsucceeded : captured.succeeded with
      | true =>
          simp only [hsucceeded, if_true]
          exact .ok captured hsucceeded
      | false =>
          simp only [hsucceeded]
          exact .failed _ _ hsucceeded

theorem PullArtifact.expectedChecksum_yields (pull : PullArtifact) (version : String) :
    (pull.expectedChecksum ctx version).Yields (Expects ctx pull.fetched version) := by
  unfold PullArtifact.expectedChecksum
  cases hsum : stringSetting ctx "sha256" with
  | some sum => exact .inline sum hsum
  | none =>
      cases hurl : stringSetting ctx "checksum_url" with
      | none => exact .unset hsum hurl
      | some url =>
          refine .bind ((exec_yields _ _ _).mono fun value calls h => ?_)
          cases h with
          | ok captured hsucceeded =>
              exact .fetched url captured.stdout [] _ hsum hurl
                (by simp [PullArtifact.fetched, hsucceeded]) (by simp [Failed, hsucceeded])
          | failed error answer hfailed => exact .unfetched error [] _ hfailed

theorem undocumented_sha256sum (pull : PullArtifact) (path : String)
    (answer : Except AdapterError Captured) :
    Undocumented pull.fetched [⟨.run "sha256sum" [path], answer⟩] := by
  intro url
  cases answer <;> simp [PullArtifact.fetched]

/-- What comparing a staged file with a checksum gives. -/
inductive PullVerified (path : String) :
    Option String → Except AdapterError Unit → List (Event HostSig) → Prop
  | skipped : PullVerified path none (.ok ()) []
  | failed (expected : String) (error : AdapterError) (answer : Except AdapterError Captured)
      (hfailed : Failed ⟨.run "sha256sum" [path], answer⟩) :
      PullVerified path (some expected) (.error error) [⟨.run "sha256sum" [path], answer⟩]
  | mismatch (expected : String) (error : AdapterError) (captured : Captured) :
      PullVerified path (some expected) (.error error) [⟨.run "sha256sum" [path], .ok captured⟩]
  | matched (expected : String) (captured : Captured) (hsucceeded : captured.succeeded = true)
      (htoken : asciiLower ((firstToken captured.stdout).getD "") = expected) :
      PullVerified path (some expected) (.ok ()) [⟨.run "sha256sum" [path], .ok captured⟩]

theorem verify_yields (version path : String) (expected : Option String) :
    (PullArtifact.verify version path expected).Yields (PullVerified path expected) := by
  cases expected with
  | none => exact .skipped
  | some expected =>
      refine .bind ((exec_yields _ _ _).mono fun value calls h => ?_)
      cases h with
      | failed error answer hfailed => exact .failed expected error answer hfailed
      | ok captured hsucceeded =>
          have hchecked := checkSum_ok PullArtifact.adapterName version expected
            (asciiLower ((firstToken captured.stdout).getD ""))
          show PullVerified path _ (checkSum _ _ _ _) [_]
          generalize checkSum PullArtifact.adapterName version expected
            (asciiLower ((firstToken captured.stdout).getD "")) = checked at hchecked ⊢
          cases checked with
          | error error => exact .mismatch expected error captured
          | ok u => exact .matched expected captured hsucceeded (hchecked rfl)

/-- A pull that got its release stages it, if it has the checksum it expects. -/
theorem Expects.pull_staged {pull : PullArtifact} {version url path : String}
    {expected : Option String} {before calls more : List (Event HostSig)}
    {last : Event HostSig} {value : Except AdapterError Unit}
    (h : Expects ctx pull.fetched version (.ok expected) calls)
    (hversion : stringSetting ctx "version" = some version)
    (hrelease : stringSetting ctx "release_url" = some url) (hlast : ¬ Failed last)
    (hverified : PullVerified path expected value more) :
    Staged sha256 ctx pull.fetched (value.map fun _ => ⟨⟨version, expected⟩, path⟩)
      (before ++ [last] ++ (calls ++ more)) := by
  have hdocumented : Undocumented pull.fetched more := by
    cases hverified with
    | skipped => exact fun _ => rfl
    | failed expected error answer hfailed => exact undocumented_sha256sum pull path answer
    | mismatch expected error captured => exact undocumented_sha256sum pull path (.ok captured)
    | matched expected captured hsucceeded htoken =>
        exact undocumented_sha256sum pull path (.ok captured)
  have hobtained := h.obtained hversion (before ++ [last]) hdocumented
  rw [← List.append_assoc (before ++ [last]) calls more] at hobtained ⊢
  cases hverified with
  | failed expected error answer hfailed => exact staged_error (.inr (stopped_append hfailed))
  | mismatch expected error captured =>
      refine staged_error (.inl ?_)
      rw [← Option.isSome_map, hobtained]
      rfl
  | matched expected captured hsucceeded htoken =>
      refine ⟨fun _ h => (by cases h), fun staged hstaged => ⟨?_, fun checksum hchecksum => ?_⟩⟩
      · exact not_stopped_append hversion hrelease (by simp [Failed, hsucceeded])
      · obtain rfl := Except.ok.inj hstaged
        rw [Option.mem_def.mp hchecksum, Option.map_some, Option.some.injEq] at hobtained
        exact .summed _ captured hsucceeded (htoken.trans hobtained.symm)
  | skipped =>
      refine ⟨fun _ h => (by cases h), fun staged hstaged => ⟨?_, fun checksum hchecksum => ?_⟩⟩
      · rw [List.append_nil]
        exact h.not_stopped hversion hrelease hlast
      · rw [Option.mem_def.mp hchecksum] at hobtained
        cases hobtained

theorem PullArtifact.stage_staged (pull : PullArtifact) :
    (pull.stage ctx).Yields (Staged sha256 ctx pull.fetched) := by
  unfold PullArtifact.stage
  cases hversion : requireSetting adapterName "stage" ctx "version" with
  | error error => exact staged_error (.inr (.inl (requireSetting_error hversion)))
  | ok version =>
      cases hrelease : requireSetting adapterName "stage" ctx "release_url" with
      | error error => exact staged_error (.inr (.inr (.inl (requireSetting_error hrelease))))
      | ok release =>
          replace hversion := requireSetting_ok hversion
          replace hrelease := requireSetting_ok hrelease
          refine .bind ((exec_yields _ _ _).mono fun made calls h => ?_)
          cases h with
          | failed error answer hfailed =>
              exact staged_error (.inr (.inr (.inr ⟨_, rfl, hfailed⟩)))
          | ok made hmade =>
              refine .bind ((exec_yields _ _ _).mono fun fetched calls h => ?_)
              cases h with
              | failed error answer hfailed =>
                  exact staged_error (.inr (.inr (.inr ⟨_, rfl, hfailed⟩)))
              | ok fetched hfetched =>
                  refine .bind ((pull.expectedChecksum_yields version).mono
                    fun value expects hexpects => ?_)
                  cases value with
                  | error error =>
                      cases hexpects with
                      | unfetched error earlier e hfailed =>
                          show Staged _ _ _ _ ([_] ++ ([_] ++ (earlier ++ [e] ++ [])))
                          simp only [List.append_nil, ← List.append_assoc]
                          exact staged_error (.inr (stopped_append hfailed))
                  | ok expected =>
                      refine .bind ((verify_yields _ _ _).mono fun value more hverified => ?_)
                      have hstaged := @Expects.pull_staged sha256 ctx pull version release _
                        expected [⟨.run "mkdir" ["-p", stagingDir ctx], .ok made⟩] expects more
                        ⟨.run pull.curl ["-fSL", "--retry", "3", substitute version release, "-o",
                          stagingDir ctx ++ "/" ++ version], .ok fetched⟩ value hexpects hversion
                        hrelease (by simp [Failed, hfetched]) hverified
                      cases value with
                      | error error =>
                          show Staged _ _ _ _ ([_] ++ ([_] ++ (expects ++ (more ++ []))))
                          rw [List.append_nil]
                          exact hstaged
                      | ok u =>
                          show Staged _ _ _ _ ([_] ++ ([_] ++ (expects ++ (more ++ []))))
                          rw [List.append_nil]
                          exact hstaged

/-! ### A release -/

/-- What a download gives. -/
inductive Downloaded (url : String) {ε : Type} :
    Except ε (List UInt8) → List (Event HostSig) → Prop
  | ok (earlier : List (Event HostSig)) (status : Nat) (text : String) (raw : List UInt8)
      (hstatus : 200 ≤ status ∧ status < 300) :
      Downloaded url (.ok raw) (earlier ++ [⟨.get url, .ok ⟨status, text, .ok raw⟩⟩])
  | failed (error : ε) (earlier : List (Event HostSig)) (answer : Except String Response)
      (hfailed : Failed ⟨.get url, answer⟩) :
      Downloaded url (.error error) (earlier ++ [⟨.get url, answer⟩])

theorem Downloaded.prepend {ε : Type} {url : String} {value : Except ε (List UInt8)}
    {calls : List (Event HostSig)} (h : Downloaded url value calls)
    (before : List (Event HostSig)) : Downloaded url value (before ++ calls) := by
  cases h with
  | ok earlier status text raw hstatus =>
      rw [← List.append_assoc]
      exact .ok _ status text raw hstatus
  | failed error earlier answer hfailed =>
      rw [← List.append_assoc]
      exact .failed error _ answer hfailed

theorem fetch_yields (url : String) : (ReleaseArtifact.fetch url).Yields (Downloaded url) := by
  refine .bind (.perform fun answer => ?_)
  cases answer with
  | error error => exact .failed error [] _ trivial
  | ok response =>
      obtain ⟨status, text, body⟩ := response
      by_cases hstatus : 200 ≤ status ∧ status < 300
      · simp only [hstatus, and_self, if_true]
        cases body with
        | error error => exact .failed error [] _ trivial
        | ok raw => exact .ok [] status text raw hstatus
      · simp only [hstatus, if_false]
        cases body with
        | error error => exact .failed _ [] _ trivial
        | ok raw => exact .failed _ [] _ hstatus

theorem retry_yields (url : String) (delayMs left : Nat) :
    (ReleaseArtifact.retry (ReleaseArtifact.fetch url) delayMs left).Yields (Downloaded url) := by
  induction left with
  | zero => exact fetch_yields url
  | succ left ih =>
      refine .bind ((fetch_yields url).mono fun value calls h => ?_)
      cases value with
      | ok raw =>
          show Downloaded url _ (calls ++ [])
          rw [List.append_nil]
          exact h
      | error error =>
          by_cases hdelay : delayMs ≠ 0
          · simp only [if_pos hdelay]
            refine .bind (.perform fun u => ih.mono fun value more h => ?_)
            exact (h.prepend [_]).prepend calls
          · simp only [if_neg hdelay]
            exact ih.mono fun value more h => h.prepend calls

theorem download_yields (config : ReleaseArtifact.Config) (url operation : String) :
    (ReleaseArtifact.download config url operation).Yields (Downloaded url) := by
  refine .bind ((retry_yields url _ _).mono fun value calls h => ?_)
  cases h with
  | ok earlier status text raw hstatus =>
      show Downloaded url _ (earlier ++ [_] ++ [])
      rw [List.append_nil]
      exact .ok earlier status text raw hstatus
  | failed error earlier answer hfailed =>
      show Downloaded url _ (earlier ++ [_] ++ [])
      rw [List.append_nil]
      exact .failed _ earlier answer hfailed

/-- What a configuration was resolved from. -/
theorem Config.fromCtx_ok {operation : String} {config : ReleaseArtifact.Config}
    (h : ReleaseArtifact.Config.fromCtx ctx operation = .ok config) :
    ∃ release, stringSetting ctx "version" = some config.version ∧
      stringSetting ctx "release_url" = some release ∧
      config.sha256 = stringSetting ctx "sha256" ∧
      config.checksumUrl = (stringSetting ctx "checksum_url").map (substitute config.version) := by
  unfold ReleaseArtifact.Config.fromCtx at h
  cases hversion : requireSetting ReleaseArtifact.adapterName operation ctx "version" with
  | error error => simp [hversion, bind, Except.bind] at h
  | ok version =>
      cases hrelease : requireSetting ReleaseArtifact.adapterName operation ctx "release_url" with
      | error error => simp [hversion, hrelease, bind, Except.bind] at h
      | ok release =>
          rw [hversion, hrelease] at h
          obtain rfl := Except.ok.inj h
          exact ⟨release, requireSetting_ok hversion, requireSetting_ok hrelease, rfl, rfl⟩

theorem Config.fromCtx_error {operation : String} {error : AdapterError}
    (h : ReleaseArtifact.Config.fromCtx ctx operation = .error error) :
    stringSetting ctx "version" = none ∨ stringSetting ctx "release_url" = none := by
  unfold ReleaseArtifact.Config.fromCtx at h
  cases hversion : requireSetting ReleaseArtifact.adapterName operation ctx "version" with
  | error error => exact .inl (requireSetting_error hversion)
  | ok version =>
      cases hrelease : requireSetting ReleaseArtifact.adapterName operation ctx "release_url" with
      | error error => exact .inr (requireSetting_error hrelease)
      | ok release =>
          rw [hversion, hrelease] at h
          cases h

theorem ReleaseArtifact.expectedChecksum_yields {config : Config}
    (hsha : config.sha256 = stringSetting ctx "sha256")
    (hchecksum : config.checksumUrl =
      (stringSetting ctx "checksum_url").map (substitute config.version)) :
    (expectedChecksum config).Yields (Expects ctx ReleaseArtifact.fetched config.version) := by
  unfold expectedChecksum
  rw [hsha, hchecksum]
  cases hsum : stringSetting ctx "sha256" with
  | some sum => exact .inline sum hsum
  | none =>
      cases hurl : stringSetting ctx "checksum_url" with
      | none => exact .unset hsum hurl
      | some url =>
          refine .bind ((download_yields config _ _).mono fun value calls h => ?_)
          cases h with
          | ok earlier status text raw hstatus =>
              show Expects _ _ _ _ (earlier ++ [_] ++ [])
              rw [List.append_nil]
              exact .fetched url _ earlier _ hsum hurl (if_pos ⟨rfl, hstatus⟩)
                (not_not.mpr hstatus)
          | failed error earlier answer hfailed =>
              show Expects _ _ _ _ (earlier ++ [_] ++ [])
              rw [List.append_nil]
              exact .unfetched error earlier _ hfailed

/-- What writing the staged file gives. -/
inductive Written (path : String) (bytes : List UInt8) :
    Except AdapterError Unit → List (Event HostSig) → Prop
  | ok (dir : String) : Written path bytes (.ok ())
      [⟨.createDirAll dir, .ok ()⟩, ⟨.write path bytes, .ok ()⟩]
  | uncreated (error : AdapterError) (dir cause : String) :
      Written path bytes (.error error) [⟨.createDirAll dir, .error cause⟩]
  | unwritten (error : AdapterError) (dir cause : String) : Written path bytes (.error error)
      [⟨.createDirAll dir, .ok ()⟩, ⟨.write path bytes, .error cause⟩]

theorem writeStaged_yields (config : ReleaseArtifact.Config) (bytes : List UInt8) :
    (ReleaseArtifact.writeStaged config bytes).Yields (Written config.stagedPath bytes) := by
  refine .bind (.perform fun created => ?_)
  cases created with
  | error cause => exact .uncreated _ _ cause
  | ok u =>
      refine .bind (.perform fun written => ?_)
      cases written with
      | error cause => exact .unwritten _ _ cause
      | ok u => exact .ok _

theorem Written.undocumented {path : String} {bytes : List UInt8} {value : Except AdapterError Unit}
    {calls : List (Event HostSig)} (h : Written path bytes value calls) :
    Undocumented ReleaseArtifact.fetched calls := by
  cases h <;> exact fun _ => rfl

/-- A release that has the checksum it expects is written. -/
theorem Expects.release_staged {version url path digest : String} {bytes : List UInt8}
    {expected : Option String} {before calls more : List (Event HostSig)}
    {value : Except AdapterError Unit}
    (h : Expects ctx ReleaseArtifact.fetched version (.ok expected) calls)
    (hversion : stringSetting ctx "version" = some version)
    (hrelease : stringSetting ctx "release_url" = some url)
    (hdigest : ∀ sum ∈ expected, hex (sha256 bytes) = sum)
    (hwritten : Written path bytes value more) :
    Staged sha256 ctx ReleaseArtifact.fetched (value.map fun _ => ⟨⟨version, some digest⟩, path⟩)
      (before ++ (calls ++ more)) := by
  have hobtained := h.obtained hversion before hwritten.undocumented
  rw [← List.append_assoc before calls more] at hobtained ⊢
  cases hwritten with
  | uncreated error dir cause => exact staged_error (.inr (stopped_append trivial))
  | unwritten error dir cause =>
      rw [List.append_cons]
      exact staged_error (.inr (stopped_append trivial))
  | ok dir =>
      rw [List.append_cons] at hobtained ⊢
      refine ⟨fun _ h => (by cases h), fun staged hstaged => ⟨?_, fun checksum hchecksum => ?_⟩⟩
      · exact not_stopped_append hversion hrelease id
      · obtain rfl := Except.ok.inj hstaged
        rw [Option.mem_def.mp hchecksum, Option.map_some] at hobtained
        exact .written _ bytes (hdigest _ hobtained.symm)

theorem ReleaseArtifact.stage_staged :
    (stage sha256 ctx).Yields (Staged sha256 ctx ReleaseArtifact.fetched) := by
  unfold stage
  cases hconfig : Config.fromCtx ctx "stage" with
  | error error =>
      rcases Config.fromCtx_error hconfig with hnone | hnone
      · exact staged_error (.inr (.inl hnone))
      · exact staged_error (.inr (.inr (.inl hnone)))
  | ok config =>
      obtain ⟨release, hversion, hrelease, hsha, hchecksum⟩ := Config.fromCtx_ok hconfig
      refine .bind (.perform fun built => ?_)
      cases built with
      | error cause => exact staged_error (.inr (.inr (.inr ⟨_, rfl, trivial⟩)))
      | ok u =>
          refine .bind ((download_yields config _ _).mono fun value downloads h => ?_)
          cases h with
          | failed error earlier answer hfailed =>
              show Staged _ _ _ _ ([_] ++ (earlier ++ [_] ++ []))
              rw [List.append_nil, ← List.append_assoc]
              exact staged_error (.inr (stopped_append hfailed))
          | ok earlier status text bytes hstatus =>
              refine .bind ((expectedChecksum_yields hsha hchecksum).mono
                fun value expects hexpects => ?_)
              cases value with
              | error error =>
                  cases hexpects with
                  | unfetched error earlier' e hfailed =>
                      show Staged _ _ _ _ ([_] ++ (earlier ++ [_] ++ (earlier' ++ [e] ++ [])))
                      simp only [List.append_nil, ← List.append_assoc]
                      exact staged_error (.inr (stopped_append hfailed))
              | ok expected =>
                  cases hchecked : expected.elim (.ok ()) fun sum =>
                    checkSum adapterName config.version sum (hex (sha256 bytes)) with
                  | error error =>
                      simp only [hchecked]
                      have hnothing : Undocumented ReleaseArtifact.fetched [] := fun _ => rfl
                      have hobtained := hexpects.obtained hversion
                        ([⟨.client config.timeoutMs, .ok u⟩] ++ (earlier ++
                          [⟨.get config.releaseUrl, .ok ⟨status, text, .ok bytes⟩⟩])) hnothing
                      refine staged_error (.inl ?_)
                      rw [List.append_assoc] at hobtained
                      rw [← Option.isSome_map, hobtained]
                      cases expected with
                      | none => cases hchecked
                      | some sum => rfl
                  | ok u' =>
                      simp only [hchecked]
                      refine .bind ((writeStaged_yields config bytes).mono
                        fun value more hwritten => ?_)
                      have hdigest : ∀ sum ∈ expected, hex (sha256 bytes) = sum := by
                        intro sum hsum
                        rw [Option.mem_def.mp hsum] at hchecked
                        exact checkSum_ok _ _ _ _ hchecked
                      have hstaged := @Expects.release_staged sha256 ctx config.version release
                        config.stagedPath (hex (sha256 bytes)) bytes expected
                        ([⟨.client config.timeoutMs, .ok u⟩] ++ (earlier ++
                          [⟨.get config.releaseUrl, .ok ⟨status, text, .ok bytes⟩⟩])) expects more
                        value hexpects hversion hrelease hdigest hwritten
                      rw [List.append_assoc] at hstaged
                      cases value with
                      | error error =>
                          show Staged _ _ _ _ ([_] ++ (earlier ++ [_] ++ (expects ++ (more ++ []))))
                          rw [List.append_nil]
                          exact hstaged
                      | ok u =>
                          show Staged _ _ _ _ ([_] ++ (earlier ++ [_] ++ (expects ++ (more ++ []))))
                          rw [List.append_nil]
                          exact hstaged

/-! ## When the checksum is enforced -/

theorem digitChar_ne_backslash : ∀ d < 16, Nat.digitChar d ≠ '\\' := by
  decide

/-- A digest has no mark before it. -/
theorem digestOf_of_hex {checksum : String} {bytes : List UInt8}
    (h : hex bytes = asciiLower checksum) : digestOf checksum = hex bytes := by
  rw [digestOf, ← h, hex, String.toList_ofList]
  cases bytes with
  | nil => rfl
  | cons byte bytes =>
      have hdigit := digitChar_ne_backslash (byte.toNat / 16)
        (Nat.div_lt_of_lt_mul byte.toNat_lt)
      simp only [List.flatMap_cons, hexByte, List.cons_append]
      split
      · next hmark => exact absurd (List.cons.inj hmark).1 hdigit
      · rfl

/-- What a seal says of the file at the end of a run. -/
theorem Seals.content {host : Host sha256} {p : Prog HostSig (Except AdapterError StagedArtifact)}
    {sched : List Bool} {world : host.World} {path checksum : String}
    {calls : List (Event HostSig)} (hcalls : (p.exec host.answer sched world).calls = calls)
    (h : Seals sha256 path checksum calls) :
    ∃ bytes ∈ host.content (p.exec host.answer sched world).final path,
      hex (sha256 bytes) = digestOf checksum := by
  cases h with
  | summed before captured hsucceeded htoken =>
      obtain ⟨world', hanswer, hfinal⟩ := exists_answer_of_calls_eq_append hcalls
      obtain ⟨bytes, hbytes, token, hfirst, hdigest⟩ :=
        host.sha256sum world' path captured hanswer hsucceeded
      rw [hfinal]
      refine ⟨bytes, hbytes, hdigest.symm.trans ?_⟩
      rw [Option.mem_def.mp hfirst, Option.getD_some] at htoken
      rw [digestOf, htoken, digestOf]
  | written before bytes hdigest =>
      obtain ⟨world', hanswer, hfinal⟩ := exists_answer_of_calls_eq_append hcalls
      rw [hfinal]
      exact ⟨bytes, host.write world' path bytes hanswer, (digestOf_of_hex hdigest).symm⟩

theorem Staged.enforced_iff {host : Host sha256}
    {p : Prog HostSig (Except AdapterError StagedArtifact)}
    (hp : p.Yields (Staged sha256 ctx fetched)) (world : host.World) :
    Enforced host ctx fetched (p.exec host.answer [] world) ↔ (ChecksumSet ctx →
      (obtained ctx fetched (p.exec host.answer [] world).calls).isSome ∨
        Stopped ctx (p.exec host.answer [] world).calls) := by
  have hstaged := hp.exec host.answer [] world
  constructor
  · intro henforced hset
    cases hvalue : (p.exec host.answer [] world).value with
    | error error => exact hstaged.error error hvalue
    | ok staged =>
        obtain ⟨checksum, hchecksum, -⟩ := henforced hset staged hvalue
        exact .inl (Option.isSome_of_mem hchecksum)
  · intro hwhen hset staged hvalue
    obtain ⟨hrunning, hseals⟩ := hstaged.ok staged hvalue
    have hsome := (hwhen hset).resolve_right hrunning
    obtain ⟨checksum, hchecksum⟩ := Option.isSome_iff_exists.mp hsome
    exact ⟨checksum, hchecksum, (hseals checksum hchecksum).content rfl⟩

end Course

/-- On every host, for every configuration: a stage enforces the checksum that is configured iff
one was obtained, as an inline text or as the first word of a document, or the stage was
stopped. -/
theorem stage_enforces_iff (sha256 : List UInt8 → List UInt8) (host : Host sha256)
    (ctx : AdapterCtx) (pull : PullArtifact) (world : host.World) :
    (Enforced host ctx pull.fetched ((pull.stage ctx).exec host.answer [] world) ↔
      (ChecksumSet ctx →
        (obtained ctx pull.fetched ((pull.stage ctx).exec host.answer [] world).calls).isSome ∨
          Stopped ctx ((pull.stage ctx).exec host.answer [] world).calls)) ∧
    (Enforced host ctx ReleaseArtifact.fetched
        ((ReleaseArtifact.stage sha256 ctx).exec host.answer [] world) ↔
      (ChecksumSet ctx →
        (obtained ctx ReleaseArtifact.fetched
            ((ReleaseArtifact.stage sha256 ctx).exec host.answer [] world).calls).isSome ∨
          Stopped ctx ((ReleaseArtifact.stage sha256 ctx).exec host.answer [] world).calls)) :=
  ⟨Staged.enforced_iff pull.stage_staged world,
    Staged.enforced_iff ReleaseArtifact.stage_staged world⟩

/-- The digest of the one byte that `emptyDocumentHost` serves. -/
def servedDigest (_ : List UInt8) : List UInt8 :=
  [45, 113, 22, 66, 183, 38, 176, 68, 1, 98, 124, 169, 251, 172, 50, 245, 200, 83, 15, 177, 144, 60,
    196, 219, 2, 37, 135, 23, 146, 26, 72, 129]

/-- Files in memory, and servers that serve one byte as the release and nothing as its checksum. -/
def emptyDocumentAnswer : Handler HostSig (String → Option (List UInt8))
  | .run "curl" ["-fSL", "--retry", "3", _, "-o", path], files =>
      (.ok ⟨some 0, "", "", none⟩, Function.update files path (some [120]))
  | .run "sha256sum" _, files => (.ok ⟨some 127, "", "", none⟩, files)
  | .run _ _, files => (.ok ⟨some 0, "", "", none⟩, files)
  | .client _, files => (.ok (), files)
  | .get url, files =>
      (.ok ⟨200, "200 OK", .ok (if url = "https://host/app.sha256" then [] else [120])⟩, files)
  | .sleep _, files => ((), files)
  | .createDirAll _, files => (.ok (), files)
  | .write path bytes, files => (.ok (), Function.update files path (some bytes))

def emptyDocumentHost : Host servedDigest where
  World := String → Option (List UInt8)
  answer := emptyDocumentAnswer
  content files := files
  sha256sum files path captured hanswer hsucceeded := by
    obtain rfl := Except.ok.inj hanswer
    cases hsucceeded
  write files path bytes _ := by
    show Function.update files path (some bytes) path = some bytes
    exact Function.update_self path (some bytes) files

/-- A configuration whose checksum is to be fetched. -/
def fetchedChecksum : AdapterCtx :=
  { AdapterCtx.new "app" "production" with
    settings := [("version", .str "1"), ("release_url", .str "https://host/app"),
      ("checksum_url", .str "https://host/app.sha256")] }

theorem stage_ignores_empty_document :
    ¬ Enforced emptyDocumentHost fetchedChecksum (PullArtifact.mk "curl").fetched
        (((PullArtifact.mk "curl").stage fetchedChecksum).exec emptyDocumentHost.answer []
          fun _ => none) ∧
      ¬ Enforced emptyDocumentHost fetchedChecksum ReleaseArtifact.fetched
        ((ReleaseArtifact.stage servedDigest fetchedChecksum).exec emptyDocumentHost.answer []
          fun _ => none) := by
  constructor
  · intro henforced
    obtain ⟨checksum, hchecksum, -⟩ := henforced (.inr rfl)
      ⟨⟨"1", none⟩, ".fraisier-staging/1"⟩ rfl
    cases hchecksum
  · intro henforced
    obtain ⟨checksum, hchecksum, -⟩ := henforced (.inr rfl)
      ⟨⟨"1", some (hex (servedDigest [120]))⟩, "./.fraisier-staging/1"⟩ rfl
    cases hchecksum

end Fraisier.Artifact
