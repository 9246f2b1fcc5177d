import Mathlib.Logic.Relation
import Fraisier.Cli.Stack

/-!
# The order of a stack deploy

A member starts after everything it depends on was deployed, the first failure ends the
deploy, and the router starts last of the members that are checked, after each of them
matched its candidate release. `Deploys` says which calls the loop over the members makes;
the promise about every run is read off it. Read `stackDeploy_ordered` first.
-/

namespace Fraisier.Cli.Stacks

open Fraisier.Effect Fraisier.Core Fraisier.Config Fraisier.Data Fraisier.Saga

variable {T : Sig} {α : Type}

/-- A command of the stack, and what it was answered. -/
def did (c : StackCmd) (x : StackSig.Ans c) : Event (StackSig.sum T) :=
  ⟨.inl c, x⟩

/-- A comparison of a member's live schema with the file its gate names, which found them
equal but for newlines at their ends. -/
def MatchedBy (gate : SdlGate) (block : List (Event (StackSig.sum T))) : Prop :=
  ∃ member ctx host status served headers live,
    block = [did (.probe member ctx host) (.ok status), did (.servedSdl gate.served) (.ok served),
      did (.resolveHeaders gate.member ctx) (.ok headers),
      did (.liveSdl gate.url headers) (.ok live), did (.record gate .matched) ()] ∧
      status.healthy = true ∧ trimNewlines live = trimNewlines served

/-- The last comparison of the gate's member matched. -/
def LastMatched (gate : SdlGate) (calls : List (Event (StackSig.sum T))) : Prop :=
  ∃ before block after, calls = before ++ (block ++ after) ∧ MatchedBy gate block ∧
    ∀ e ∈ after, ∀ other verdict, e.cmd = .inl (.record other verdict) →
      other.member ≠ gate.member

/-- A member's health was checked, and the last check was healthy. -/
def EndsHealthy (asks : List (Event (HealthSig.sum T))) : Prop :=
  ∃ before ask status after, asks = before ++ ⟨.inl ask, .ok status⟩ :: after ∧
    status.healthy = true ∧ ∀ e ∈ after, ∀ other, e.cmd ≠ .inl other

/-- A deploy runs the health adapter it is given: when it succeeds, it has checked the
member's health, and the last check was healthy. -/
def RunsHealthStep (deploy : Prog (HealthSig.sum T) (Except String CommandOutput)) : Prop :=
  deploy.Yields fun result asks => outcomeOf result = .deployed → EndsHealthy asks

/-! ## The calls of one member's deploy -/

/-- The commands of the stack that a member's deploy gives between its start and its end. -/
def Within (name : String) : StackCmd → Prop
  | .probe .. | .servedSdl _ | .resolveHeaders .. | .liveSdl .. => True
  | .record gate _ => gate.member = name
  | .stage .. | .isDir _ | .start .. | .finish .. => False

/-- A call that a member's deploy makes between its start and its end. -/
def Inside (name : String) (e : Event (StackSig.sum T)) : Prop :=
  ∀ c, e.cmd = .inl c → Within name c

theorem inside_other {name : String} (c : T.Cmd) (x : T.Ans c) :
    Inside name (⟨.inr c, x⟩ : Event (StackSig.sum T)) :=
  fun _ h => (Sum.inr_ne_inl h).elim

theorem inside_did {name : String} {c : StackCmd} (hc : Within name c) (x : StackSig.Ans c) :
    Inside name (did (T := T) c x) :=
  fun _ h => Sum.inl.inj h ▸ hc

/-- The rule for a command of the stack. -/
theorem command_yields {c : StackCmd} {f : StackSig.Ans c → Prog (StackSig.sum T) α}
    {A : α → List (Event (StackSig.sum T)) → Prop}
    (h : ∀ x, (f x).Yields fun a calls => A a (did c x :: calls)) : (command c >>= f).Yields A :=
  h

/-- A comparison that finds no difference has read both schemas. -/
theorem compare_yields (gate : SdlGate) (ctx : AdapterCtx) :
    (gate.compare (T := T) ctx).Yields fun result calls =>
      (∀ e ∈ calls, Inside gate.member e) ∧ (result = .ok none → ∃ served headers live,
        calls = [did (.servedSdl gate.served) (.ok served),
          did (.resolveHeaders gate.member ctx) (.ok headers),
          did (.liveSdl gate.url headers) (.ok live)] ∧
          trimNewlines live = trimNewlines served) := by
  have hserved : ∀ x, Inside gate.member (did (T := T) (.servedSdl gate.served) x) :=
    inside_did (by trivial)
  have hheaders : ∀ x, Inside gate.member (did (T := T) (.resolveHeaders gate.member ctx) x) :=
    inside_did (by trivial)
  have hlive : ∀ headers x, Inside gate.member (did (T := T) (.liveSdl gate.url headers) x) :=
    fun _ => inside_did (by trivial)
  unfold SdlGate.compare
  refine command_yields fun served => ?_
  cases served with
  | error error => exact ⟨by simpa using hserved _, nofun⟩
  | ok served =>
      refine command_yields fun headers => ?_
      cases headers with
      | error error => exact ⟨by simpa using ⟨hserved _, hheaders _⟩, nofun⟩
      | ok headers =>
          refine command_yields fun live => ?_
          cases live with
          | error error => exact ⟨by simpa using ⟨hserved _, hheaders _, hlive _ _⟩, nofun⟩
          | ok live =>
              refine ⟨by simpa using ⟨hserved _, hheaders _, hlive _ _⟩, ?_⟩
              intro h
              exact ⟨served, headers, live, rfl,
                sdlDifference_eq_none.mp (Option.map_eq_none_iff.mp (Except.ok.inj h))⟩

section Guarded

variable [CharTables]

theorem problem_of_eq_none {compared : Except String (Option String)}
    (h : (Verdict.of compared).problem = none) : compared = .ok none := by
  cases compared with
  | error why => cases h
  | ok difference =>
      cases difference with
      | none => rfl
      | some why => cases h

/-- A healthy answer of a guarded check follows a comparison that matched. -/
theorem check_yields (gate : SdlGate) (member : Member) (ctx : AdapterCtx) (host : HostId)
    (kept : Option Verdict) :
    (gate.check (T := T) member ctx host kept).Yields fun r calls =>
      (∀ e ∈ calls, Inside gate.member e) ∧ ∀ status, r.1 = .ok status →
        status.healthy = true → MatchedBy gate calls := by
  have hprobe : ∀ x, ∀ e ∈ [did (T := T) (.probe member ctx host) x], Inside gate.member e :=
    fun x e he => List.mem_singleton.mp he ▸ inside_did (by trivial) _
  unfold SdlGate.check
  refine command_yields fun answer => ?_
  cases answer with
  | error error => exact ⟨hprobe _, nofun⟩
  | ok status =>
      show Prog.Yields (if _ then _ else _) _
      by_cases hhealthy : status.healthy = true
      · rw [if_neg (by simp [hhealthy])]
        refine Prog.Yields.bind ((compare_yields gate ctx).mono ?_)
        intro compared reads ⟨hreads, hmatched⟩
        refine command_yields fun _ => ?_
        have hinside : ∀ e ∈ did (T := T) (.probe member ctx host) (.ok status) ::
            (reads ++ [did (.record gate (Verdict.of compared)) ()]), Inside gate.member e := by
          intro e he
          rcases List.mem_cons.mp he with rfl | he
          · exact inside_did (by trivial) _
          · rcases List.mem_append.mp he with he | he
            · exact hreads e he
            · exact List.mem_singleton.mp he ▸ inside_did (by exact rfl) _
        cases hproblem : (Verdict.of compared).problem with
        | some why =>
            refine ⟨hinside, ?_⟩
            intro status' h hstatus
            cases h
            cases hstatus
        | none =>
            refine ⟨hinside, ?_⟩
            intro status' h _
            obtain rfl := problem_of_eq_none hproblem
            obtain ⟨served, headers, live, rfl, hequal⟩ := hmatched rfl
            exact ⟨member, ctx, host, status, served, headers, live, rfl, hhealthy, hequal⟩
      · rw [if_pos (by simpa using hhealthy)]
        refine ⟨hprobe _, ?_⟩
        intro status' h hstatus
        cases h
        exact absurd hstatus hhealthy

/-- The health check that a member's deploy is given, guarded or not. -/
theorem memberCheck_yields {gate : Option SdlGate} {member : Member}
    (hgate : ∀ g ∈ gate, g.member = member.name) (ctx : AdapterCtx) (host : HostId)
    (kept : Option Verdict) :
    (memberCheck (T := T) gate member ctx host kept).Yields fun r calls =>
      (∀ e ∈ calls, Inside member.name e) ∧ ∀ g ∈ gate, ∀ status, r.1 = .ok status →
        status.healthy = true → MatchedBy g calls := by
  cases gate with
  | none =>
      refine command_yields fun answer => ⟨?_, nofun⟩
      exact fun e he => List.mem_singleton.mp he ▸ inside_did (by trivial) _
  | some gate =>
      refine (check_yields gate member ctx host kept).mono ?_
      intro r calls ⟨hinside, hmatched⟩
      rw [hgate gate rfl] at hinside
      refine ⟨hinside, ?_⟩
      intro g hg
      cases hg
      exact hmatched

omit [CharTables] in
/-- The calls that a member's deploy makes when its health checks are guarded: each check is
replaced by a block of calls, everything else stays. -/
inductive Expands (gate : Option SdlGate) (name : String) :
    List (Event (HealthSig.sum T)) → List (Event (StackSig.sum T)) → Prop
  | nil : Expands gate name [] []
  | check {ask : AdapterCtx × HostId} {answer : Except AdapterError HealthStatus}
      {asks : List (Event (HealthSig.sum T))} {block calls : List (Event (StackSig.sum T))}
      (hinside : ∀ e ∈ block, Inside name e)
      (hmatched : ∀ g ∈ gate, ∀ status, answer = .ok status → status.healthy = true →
        MatchedBy g block)
      (hrest : Expands gate name asks calls) :
      Expands gate name (⟨.inl ask, answer⟩ :: asks) (block ++ calls)
  | other {asks : List (Event (HealthSig.sum T))} {calls : List (Event (StackSig.sum T))}
      (c : T.Cmd) (x : T.Ans c) (hrest : Expands gate name asks calls) :
      Expands gate name (⟨.inr c, x⟩ :: asks) (⟨.inr c, x⟩ :: calls)

/-- A guarded run makes the calls of the member's deploy, its checks expanded. -/
theorem guardedRun_yields {gate : Option SdlGate} {member : Member}
    (hgate : ∀ g ∈ gate, g.member = member.name) {p : Prog (HealthSig.sum T) α}
    {A : α → List (Event (HealthSig.sum T)) → Prop} (hp : p.Yields A) (kept : Option Verdict) :
    (guardedRun gate member p kept).Yields fun r calls =>
      ∃ asks, Expands gate member.name asks calls ∧ A r.1 asks := by
  induction p generalizing A kept with
  | ret a => exact ⟨[], .nil, hp⟩
  | call c k ih =>
      cases c with
      | inl ask =>
          refine Prog.Yields.bind ((memberCheck_yields hgate ask.1 ask.2 kept).mono ?_)
          intro r block ⟨hinside, hmatched⟩
          refine (ih r.1 (hp r.1) r.2).mono ?_
          intro s calls ⟨asks, hasks, hA⟩
          exact ⟨_, .check hinside hmatched hasks, hA⟩
      | inr c =>
          intro x
          refine (ih x (hp x) kept).mono ?_
          intro s calls ⟨asks, hasks, hA⟩
          exact ⟨_, .other c x hasks, hA⟩
  | choose k ih => exact fun b => ih b (hp b) kept

section Expands

omit [CharTables]

variable {gate : Option SdlGate} {name : String} {asks : List (Event (HealthSig.sum T))}
  {calls : List (Event (StackSig.sum T))}

theorem Expands.inside (h : Expands gate name asks calls) : ∀ e ∈ calls, Inside name e := by
  induction h with
  | nil => simp
  | check hinside _ _ ih =>
      intro e he
      rcases List.mem_append.mp he with he | he
      · exact hinside e he
      · exact ih e he
  | other c x _ ih => exact List.forall_mem_cons.mpr ⟨inside_other c x, ih⟩

/-- Without checks, only calls of the member's own are made. -/
theorem Expands.unchecked (h : Expands gate name asks calls)
    (hasks : ∀ e ∈ asks, ∀ ask, e.cmd ≠ .inl ask) : ∀ e ∈ calls, ∀ c, e.cmd ≠ .inl c := by
  induction h with
  | nil => simp
  | check _ _ _ _ => exact absurd rfl (hasks _ List.mem_cons_self _)
  | other c x _ ih =>
      obtain ⟨-, hrest⟩ := List.forall_mem_cons.mp hasks
      exact List.forall_mem_cons.mpr ⟨fun _ => Sum.inr_ne_inl, ih hrest⟩

/-- A last check that was healthy expands to a last comparison that matched. -/
theorem Expands.lastMatched (h : Expands gate name asks calls) {g : SdlGate} (hg : g ∈ gate)
    {before after : List (Event (HealthSig.sum T))} {ask : AdapterCtx × HostId}
    {status : HealthStatus} (hasks : asks = before ++ ⟨.inl ask, .ok status⟩ :: after)
    (hhealthy : status.healthy = true) (hafter : ∀ e ∈ after, ∀ other, e.cmd ≠ .inl other) :
    LastMatched g calls := by
  induction h generalizing before with
  | nil => cases before <;> cases hasks
  | check hinside hmatched hrest ih =>
      cases before with
      | nil =>
          obtain ⟨hask, rfl⟩ := List.cons.inj hasks
          cases hask
          refine ⟨[], _, _, rfl, hmatched g hg status rfl hhealthy, ?_⟩
          exact fun e he other verdict hrecord => absurd hrecord (hrest.unchecked hafter e he _)
      | cons first before =>
          obtain ⟨-, hasks⟩ := List.cons.inj hasks
          obtain ⟨earlier, block, later, rfl, hblock, hlater⟩ := ih hasks
          exact ⟨_, block, later, (List.append_assoc _ _ _).symm, hblock, hlater⟩
  | other c x hrest ih =>
      cases before with
      | nil => cases hasks
      | cons first before =>
          obtain ⟨-, hasks⟩ := List.cons.inj hasks
          obtain ⟨earlier, block, later, rfl, hblock, hlater⟩ := ih hasks
          exact ⟨_ :: earlier, block, later, rfl, hblock, hlater⟩

end Expands

/-! ## The calls of the loop -/

/-- The calls of one member's deploy: between its start and its end it keeps to itself, and
when it succeeds behind a gate its last comparison matched, if it checks its health. -/
structure MemberCalls (checked : Prop) (gate : Option SdlGate) (member : Member)
    (outcome : MemberOutcome) (calls : List (Event (StackSig.sum T))) : Prop where
  framed : ∃ version inner, calls = did (.start member version) () ::
    (inner ++ [did (.finish member outcome) ()]) ∧ (∀ e ∈ inner, Inside member.name e) ∧
      (outcome = .deployed → checked → ∀ g ∈ gate, LastMatched g inner)
  tried : outcome ≠ .skipped

omit [CharTables] in
theorem outcomeOf_ne_skipped (result : Except String CommandOutput) :
    outcomeOf result ≠ .skipped := by
  unfold outcomeOf
  split
  next output =>
    split
    next => exact fun h => MemberOutcome.noConfusion h
    next => exact fun h => MemberOutcome.noConfusion h
  next => exact fun h => MemberOutcome.noConfusion h

omit [CharTables] in
/-- Whatever it is deployed at, a member's deploy runs its health step. -/
def ChecksHealth (deployer : MemberDeployer T) (member : Member) : Prop :=
  ∀ version, RunsHealthStep (deployer.deploy member version)

theorem deployMember_yields {deployer : MemberDeployer T} {gate : Option SdlGate}
    {member : Member} (hgate : ∀ g ∈ gate, g.member = member.name)
    (versions : List (String × String)) :
    (deployMember deployer versions gate member).Yields fun r calls =>
      MemberCalls (ChecksHealth deployer member) gate member r.1 calls := by
  have hresult : (deployer.deploy member (versions.lookup member.name)).Yields
      fun result asks => ChecksHealth deployer member → outcomeOf result = .deployed →
        EndsHealthy asks := by
    by_cases hchecks : ChecksHealth deployer member
    · exact (hchecks _).mono fun _ _ h _ => h
    · exact (Prog.Yields.any _).mono fun _ _ _ h => absurd h hchecks
  refine command_yields fun _ => Prog.Yields.bind
    ((guardedRun_yields hgate hresult none).mono ?_)
  intro r inner ⟨asks, hasks, hresult⟩
  refine command_yields fun _ => ⟨⟨_, inner, rfl, hasks.inside, ?_⟩, outcomeOf_ne_skipped r.1⟩
  intro hdeployed hchecks g hg
  obtain ⟨before, ask, status, after, hsplit, hhealthy, hafter⟩ := hresult hchecks hdeployed
  exact hasks.lastMatched hg hsplit hhealthy hafter

/-- The report of a member that never started. -/
def skippedReport (member : Member) : MemberReport :=
  ⟨member.name, .skipped, none⟩

omit [CharTables] in
/-- The calls of the loop over the members, and what it reports: deployed members, then at
most one that failed, then skipped ones. -/
inductive Deploys (checked : Member → Prop) (gates : List (String × SdlGate)) :
    List Member → List MemberReport → List (Event (StackSig.sum T)) → Prop
  | nil : Deploys checked gates [] [] []
  | deployed {member : Member} {members : List Member} {reports : List MemberReport}
      {kept : Option Verdict} {first rest : List (Event (StackSig.sum T))}
      (hfirst : MemberCalls (checked member) (gates.lookup member.name) member .deployed first)
      (hrest : Deploys checked gates members reports rest) :
      Deploys checked gates (member :: members) (⟨member.name, .deployed, kept⟩ :: reports)
        (first ++ rest)
  | failed {member : Member} {members : List Member} {kept : Option Verdict} {why : String}
      {calls : List (Event (StackSig.sum T))}
      (hcalls : MemberCalls (checked member) (gates.lookup member.name) member (.failed why)
        calls) :
      Deploys checked gates (member :: members)
        (⟨member.name, .failed why, kept⟩ :: members.map skippedReport) calls

theorem deployMembers_skips (deployer : MemberDeployer T) (versions : List (String × String))
    (gates : List (String × SdlGate)) (members : List Member) :
    (deployMembers deployer versions gates true members).Yields fun reports calls =>
      reports = members.map skippedReport ∧ calls = [] := by
  induction members with
  | nil => exact ⟨rfl, rfl⟩
  | cons member members ih =>
      refine Prog.Yields.bind (ih.mono ?_)
      intro reports calls ⟨hreports, hcalls⟩
      exact ⟨congrArg _ hreports, by simp [hcalls]⟩

/-- The gates are those of the members they are found under. -/
def Own (gates : List (String × SdlGate)) (members : List Member) : Prop :=
  ∀ member ∈ members, ∀ g ∈ gates.lookup member.name, g.member = member.name

theorem deployMembers_yields {deployer : MemberDeployer T} {gates : List (String × SdlGate)}
    {members : List Member} (hgates : Own gates members) (versions : List (String × String)) :
    (deployMembers deployer versions gates false members).Yields fun reports calls =>
      Deploys (ChecksHealth deployer) gates members reports calls := by
  induction members with
  | nil => exact .nil
  | cons member members ih =>
      obtain ⟨hgate, hgates⟩ := List.forall_mem_cons.mp hgates
      refine Prog.Yields.bind ((deployMember_yields hgate versions).mono ?_)
      intro r first hfirst
      obtain ⟨outcome, kept⟩ := r
      cases outcome with
      | deployed =>
          refine Prog.Yields.bind ((ih hgates).mono ?_)
          intro reports rest hrest
          show Deploys _ gates _ _ (first ++ (rest ++ []))
          rw [List.append_nil]
          exact .deployed hfirst hrest
      | failed why =>
          refine Prog.Yields.bind ((deployMembers_skips deployer versions gates members).mono ?_)
          rintro reports rest ⟨rfl, rfl⟩
          show Deploys _ gates _ _ (first ++ [])
          rw [List.append_nil]
          exact .failed hfirst
      | skipped => exact absurd rfl hfirst.tried

/-! ## Reading the order off the calls -/

section Reading

omit [CharTables]

variable {checked : Member → Prop} {gates : List (String × SdlGate)} {members : List Member}
  {reports : List MemberReport} {calls : List (Event (StackSig.sum T))}

/-- Where an entry stands that the first part of a list does not have. -/
theorem append_eq_append_of_not_mem {ε : Type} {x : ε} {front rest before after : List ε}
    (hx : x ∉ front) (hsplit : front ++ rest = before ++ x :: after) :
    ∃ later, before = front ++ later ∧ rest = later ++ x :: after := by
  rcases List.append_eq_append_iff.mp hsplit with ⟨later, rfl, hrest⟩ | ⟨later, hfront, hrest⟩
  · exact ⟨later, rfl, hrest⟩
  · cases later with
    | nil =>
        refine ⟨[], ?_, hrest.symm⟩
        rw [hfront, List.append_nil, List.append_nil]
    | cons y later =>
        obtain ⟨rfl, -⟩ := List.cons.inj hrest
        exact absurd (hfront ▸ List.mem_append_right _ List.mem_cons_self) hx

/-- Where an entry stands that the first part of a list can have at its head only. -/
theorem append_eq_append_cons {ε : Type} {head x : ε} {tail rest before after : List ε}
    (hx : x ∉ tail) (hsplit : head :: tail ++ rest = before ++ x :: after) :
    before = [] ∧ x = head ∨
      ∃ later, before = head :: tail ++ later ∧ rest = later ++ x :: after := by
  cases before with
  | nil => exact Or.inl ⟨rfl, (List.cons.inj hsplit).1.symm⟩
  | cons first before =>
      obtain ⟨rfl, htail⟩ := List.cons.inj hsplit
      obtain ⟨later, rfl, hrest⟩ := append_eq_append_of_not_mem hx htail
      exact Or.inr ⟨later, rfl, hrest⟩

theorem no_start {name : String} {inner : List (Event (StackSig.sum T))}
    (hinner : ∀ e ∈ inner, Inside name e) (ended : Member) (outcome : MemberOutcome) :
    ∀ e ∈ inner ++ [did (.finish ended outcome) ()], ∀ member version,
      e.cmd ≠ .inl (.start member version) := by
  intro e he member version hstart
  rcases List.mem_append.mp he with he | he
  · exact hinner e he _ hstart
  · obtain rfl := List.mem_singleton.mp he
    exact StackCmd.noConfusion (Sum.inl.inj hstart)

theorem did_start_not_mem {name : String} {inner : List (Event (StackSig.sum T))}
    (hinner : ∀ e ∈ inner, Inside name e) (ended : Member) (outcome : MemberOutcome)
    (member : Member) (version : Option String) :
    did (.start member version) () ∉ inner ++ [did (.finish ended outcome) ()] :=
  fun h => no_start hinner ended outcome _ h member version rfl

theorem LastMatched.extend {gate : SdlGate} (h : LastMatched gate calls)
    (earlier more : List (Event (StackSig.sum T)))
    (hmore : ∀ e ∈ more, ∀ other verdict, e.cmd = .inl (.record other verdict) →
      other.member ≠ gate.member) : LastMatched gate (earlier ++ (calls ++ more)) := by
  obtain ⟨before, block, after, rfl, hblock, hafter⟩ := h
  refine ⟨earlier ++ before, block, after ++ more, by simp, hblock, ?_⟩
  intro e he
  rcases List.mem_append.mp he with he | he
  · exact hafter e he
  · exact hmore e he

/-- A verdict that one member's deploy keeps is its own. -/
theorem MemberCalls.records {p : Prop} {gate : Option SdlGate} {member : Member}
    {outcome : MemberOutcome} (h : MemberCalls p gate member outcome calls) :
    ∀ e ∈ calls, ∀ other verdict,
      e.cmd = .inl (.record other verdict) → other.member = member.name := by
  obtain ⟨version, inner, rfl, hinner, -⟩ := h.framed
  intro e he other verdict hrecord
  rcases List.mem_cons.mp he with rfl | he
  · exact StackCmd.noConfusion (Sum.inl.inj hrecord)
  · rcases List.mem_append.mp he with he | he
    · exact hinner e he _ hrecord
    · obtain rfl := List.mem_singleton.mp he
      exact StackCmd.noConfusion (Sum.inl.inj hrecord)

theorem Deploys.records (h : Deploys checked gates members reports calls) : ∀ e ∈ calls,
    ∀ other verdict, e.cmd = .inl (.record other verdict) →
      other.member ∈ members.map Member.name := by
  induction h with
  | nil => simp
  | deployed hfirst _ ih =>
      intro e he other verdict hrecord
      rcases List.mem_append.mp he with he | he
      · exact hfirst.records e he other verdict hrecord ▸ List.mem_cons_self
      · exact List.mem_cons_of_mem _ (ih e he other verdict hrecord)
  | failed hcalls =>
      intro e he other verdict hrecord
      exact hcalls.records e he other verdict hrecord ▸ List.mem_cons_self

/-- A member that starts does so after the members before it were deployed, each of them
with a last comparison that matched if it has a gate. -/
theorem Deploys.start (h : Deploys checked gates members reports calls)
    (hdistinct : (members.map Member.name).Nodup) (hgates : Own gates members)
    {before after : List (Event (StackSig.sum T))} {member : Member} {version : Option String}
    (hcalls : calls = before ++ did (.start member version) () :: after) :
    ∃ done rest, members = done ++ member :: rest ∧ ∀ d ∈ done,
      did (.finish d .deployed) () ∈ before ∧
        (checked d → ∀ g ∈ gates.lookup d.name, LastMatched g before) := by
  induction h generalizing before with
  | nil => cases before <;> cases hcalls
  | @deployed head members reports kept first rest hfirst hrest ih =>
      obtain ⟨hfresh, hdistinct⟩ := List.nodup_cons.mp hdistinct
      obtain ⟨hgate, hgates⟩ := List.forall_mem_cons.mp hgates
      obtain ⟨version', inner, rfl, hinner, hmatched⟩ := hfirst.framed
      rcases append_eq_append_cons (did_start_not_mem hinner _ _ _ _) hcalls with
        ⟨rfl, hstart⟩ | ⟨later, rfl, hrest'⟩
      · have hcmd := Sum.inl.inj (congrArg Event.cmd hstart)
        obtain ⟨rfl, -⟩ := StackCmd.start.inj hcmd
        exact ⟨[], members, rfl, by simp⟩
      · obtain ⟨done, remaining, rfl, hdone⟩ := ih hdistinct hgates hrest'
        refine ⟨head :: done, remaining, rfl, List.forall_mem_cons.mpr ⟨?_, ?_⟩⟩
        · refine ⟨by simp, ?_⟩
          intro hchecked g hg
          have hlast := (hmatched rfl hchecked g hg).extend [did (.start head version') ()]
            (did (.finish head .deployed) () :: later) ?_
          · simpa using hlast
          · intro e he other verdict hrecord
            rcases List.mem_cons.mp he with rfl | he
            · exact StackCmd.noConfusion (Sum.inl.inj hrecord)
            · have hlater := hrest.records e (hrest' ▸ List.mem_append_left _ he) other verdict
                hrecord
              exact fun heq => hfresh (hgate g hg ▸ heq ▸ hlater)
        · intro d hd
          obtain ⟨hfinish, hlast⟩ := hdone d hd
          refine ⟨List.mem_append_right _ hfinish, ?_⟩
          intro hchecked g hg
          obtain ⟨earlier, block, last, rfl, hblock, hlast⟩ := hlast hchecked g hg
          exact ⟨_, block, last, (List.append_assoc _ _ _).symm, hblock, hlast⟩
  | @failed head members kept why calls hfailed =>
      obtain ⟨version', inner, rfl, hinner, -⟩ := hfailed.framed
      rw [← List.append_nil (_ :: _)] at hcalls
      rcases append_eq_append_cons (did_start_not_mem hinner _ _ _ _) hcalls with
        ⟨rfl, hstart⟩ | ⟨later, -, hnone⟩
      · have hcmd := Sum.inl.inj (congrArg Event.cmd hstart)
        obtain ⟨rfl, -⟩ := StackCmd.start.inj hcmd
        exact ⟨[], members, rfl, by simp⟩
      · cases later <;> cases hnone

/-- A failure is the end of the last member's deploy. -/
theorem Deploys.stop (h : Deploys checked gates members reports calls)
    {before after : List (Event (StackSig.sum T))} {member : Member} {why : String}
    (hcalls : calls = before ++ did (.finish member (.failed why)) () :: after) :
    ∀ e ∈ after, ∀ other version, e.cmd ≠ .inl (.start other version) := by
  induction h generalizing before with
  | nil => cases before <;> cases hcalls
  | @deployed head members reports kept first rest hfirst hrest ih =>
      obtain ⟨version', inner, rfl, hinner, -⟩ := hfirst.framed
      have hnot : did (.finish member (.failed why)) () ∉
          inner ++ [did (T := T) (.finish head .deployed) ()] := by
        intro hmem
        rcases List.mem_append.mp hmem with hmem | hmem
        · exact hinner _ hmem _ rfl
        · have hcmd := Sum.inl.inj (congrArg Event.cmd (List.mem_singleton.mp hmem))
          exact MemberOutcome.noConfusion (StackCmd.finish.inj hcmd).2
      rcases append_eq_append_cons hnot hcalls with ⟨-, hhead⟩ | ⟨later, -, hrest'⟩
      · exact StackCmd.noConfusion (Sum.inl.inj (congrArg Event.cmd hhead))
      · exact ih hrest'
  | failed hfailed =>
      obtain ⟨version', inner, rfl, hinner, -⟩ := hfailed.framed
      cases before with
      | nil =>
          exact StackCmd.noConfusion (Sum.inl.inj (congrArg Event.cmd (List.cons.inj hcalls).1))
      | cons first before =>
          obtain ⟨-, htail⟩ := List.cons.inj hcalls
          intro e he
          have hmem : e ∈ before ++ did (.finish member (.failed why)) () :: after :=
            List.mem_append_right _ (List.mem_cons_of_mem _ he)
          rw [List.append_eq] at htail
          rw [← htail] at hmem
          exact no_start hinner _ _ e hmem

/-- One report for each member: deployed ones, then at most one that failed, then skipped
ones. -/
def Reported : List Member → List MemberReport → Prop
  | [], reports => reports = []
  | member :: members, reports => ∃ report rest, reports = report :: rest ∧
      report.name = member.name ∧
        if report.outcome = .deployed then Reported members rest
        else rest = members.map skippedReport

theorem Deploys.reported (h : Deploys checked gates members reports calls) :
    Reported members reports := by
  induction h with
  | nil => rfl
  | deployed _ _ ih => exact ⟨_, _, rfl, rfl, ih⟩
  | failed _ => exact ⟨_, _, rfl, rfl, rfl⟩

/-- A member is reported with an outcome. -/
def Outcome (reports : List MemberReport) (member : Member) (outcome : MemberOutcome) : Prop :=
  ∃ report ∈ reports, report.name = member.name ∧ report.outcome = outcome

theorem outcome_cons {report : MemberReport} {member : Member} {outcome : MemberOutcome} :
    Outcome (report :: reports) member outcome ↔
      (report.name = member.name ∧ report.outcome = outcome) ∨
        Outcome reports member outcome := by
  simp [Outcome]

theorem Deploys.names (h : Deploys checked gates members reports calls) :
    reports.map MemberReport.name = members.map Member.name := by
  induction h with
  | nil => rfl
  | deployed _ _ ih => simp [ih]
  | failed _ => simp [skippedReport, Function.comp_def]

/-- The starts and ends among the calls of one member. -/
theorem MemberCalls.frame {p : Prop} {gate : Option SdlGate} {first : Member}
    {outcome : MemberOutcome} (h : MemberCalls p gate first outcome calls) :
    (∀ member ended, did (.finish member ended) () ∈ calls ↔ member = first ∧ ended = outcome) ∧
      (∀ member version, did (.start member version) () ∈ calls → member = first) ∧
      ∃ version, did (.start first version) () ∈ calls := by
  obtain ⟨version, inner, rfl, hinner, -⟩ := h.framed
  refine ⟨?_, ?_, version, List.mem_cons_self⟩
  · intro member ended
    constructor
    · intro hmem
      rcases List.mem_cons.mp hmem with heq | hmem
      · exact StackCmd.noConfusion (Sum.inl.inj (congrArg Event.cmd heq))
      · rcases List.mem_append.mp hmem with hmem | hmem
        · exact (hinner _ hmem _ rfl).elim
        · have hcmd := Sum.inl.inj (congrArg Event.cmd (List.mem_singleton.mp hmem))
          exact StackCmd.finish.inj hcmd
    · rintro ⟨rfl, rfl⟩
      simp
  · intro member version' hmem
    rcases List.mem_cons.mp hmem with heq | hmem
    · exact (StackCmd.start.inj (Sum.inl.inj (congrArg Event.cmd heq))).1
    · exact absurd hmem (did_start_not_mem hinner _ _ _ _)

/-- What is reported is what happened. -/
theorem Deploys.outcome (h : Deploys checked gates members reports calls)
    (hdistinct : (members.map Member.name).Nodup) {member : Member} (hmember : member ∈ members) :
    (Outcome reports member .deployed ↔ did (.finish member .deployed) () ∈ calls) ∧
      (Outcome reports member .skipped ↔ ∀ version, did (.start member version) () ∉ calls) := by
  induction h with
  | nil => cases hmember
  | @deployed head members reports kept first rest hfirst hrest ih =>
      obtain ⟨hfresh, hdistinct⟩ := List.nodup_cons.mp hdistinct
      obtain ⟨hfinish, hstart, version', hstarted⟩ := hfirst.frame
      have hother : ∀ outcome, ¬ Outcome reports head outcome := by
        rintro outcome ⟨report, hreport, hname, -⟩
        exact hfresh (hrest.names ▸ hname ▸ List.mem_map_of_mem hreport)
      rcases List.mem_cons.mp hmember with rfl | hmember
      · constructor
        · exact iff_of_true (outcome_cons.mpr (Or.inl ⟨rfl, rfl⟩))
            (List.mem_append_left _ ((hfinish _ _).mpr ⟨rfl, rfl⟩))
        · refine iff_of_false ?_ fun h => h version' (List.mem_append_left _ hstarted)
          rw [outcome_cons]
          rintro (⟨-, h⟩ | h)
          · exact MemberOutcome.noConfusion h
          · exact hother _ h
      · have hne : head.name ≠ member.name :=
          fun heq => hfresh (heq ▸ List.mem_map_of_mem hmember)
        obtain ⟨hdeployed, hskipped⟩ := ih hdistinct hmember
        have hfirst_finish : did (.finish member .deployed) () ∉ first :=
          fun h => hne (congrArg Member.name ((hfinish _ _).mp h).1).symm
        have hfirst_start : ∀ version, did (.start member version) () ∉ first :=
          fun version h => hne (congrArg Member.name (hstart _ _ h)).symm
        simp only [outcome_cons, hne, false_and, false_or, List.mem_append, hdeployed, hskipped,
          hfirst_finish, hfirst_start, and_self]
  | @failed head members kept why calls hfailed =>
      obtain ⟨hfresh, hdistinct⟩ := List.nodup_cons.mp hdistinct
      obtain ⟨hfinish, hstart, version', hstarted⟩ := hfailed.frame
      rcases List.mem_cons.mp hmember with rfl | hmember
      · have hother : ∀ outcome, ¬ Outcome (members.map skippedReport) member outcome := by
          rintro outcome ⟨report, hreport, hname, -⟩
          obtain ⟨m, hm, rfl⟩ := List.mem_map.mp hreport
          exact hfresh (hname ▸ List.mem_map_of_mem hm)
        simp only [outcome_cons, hother, hfinish]
        exact ⟨by simp, by simpa using ⟨_, hstarted⟩⟩
      · have hne : head.name ≠ member.name :=
          fun heq => hfresh (heq ▸ List.mem_map_of_mem hmember)
        constructor
        · refine iff_of_false ?_ fun h => hne (congrArg Member.name ((hfinish _ _).mp h).1).symm
          rw [outcome_cons]
          rintro (⟨h, -⟩ | ⟨report, hreport, -, h⟩)
          · exact hne h
          · obtain ⟨m, -, rfl⟩ := List.mem_map.mp hreport
            exact MemberOutcome.noConfusion h
        · refine iff_of_true (outcome_cons.mpr (Or.inr ?_))
            fun version h => hne (congrArg Member.name (hstart _ _ h)).symm
          exact ⟨_, List.mem_map_of_mem hmember, rfl, rfl⟩

/-- A member that ended has started. -/
theorem Deploys.started (h : Deploys checked gates members reports calls) {member : Member}
    {outcome : MemberOutcome} (hfinish : did (.finish member outcome) () ∈ calls) :
    ∃ version, did (.start member version) () ∈ calls := by
  induction h with
  | nil => cases hfinish
  | deployed hfirst _ ih =>
      rcases List.mem_append.mp hfinish with hfinish | hfinish
      · obtain ⟨version, hstart⟩ := hfirst.frame.2.2
        obtain ⟨rfl, -⟩ := (hfirst.frame.1 _ _).mp hfinish
        exact ⟨version, List.mem_append_left _ hstart⟩
      · obtain ⟨version, hstart⟩ := ih hfinish
        exact ⟨version, List.mem_append_right _ hstart⟩
  | failed hfailed =>
      obtain ⟨rfl, -⟩ := (hfailed.frame.1 _ _).mp hfinish
      exact hfailed.frame.2.2

end Reading

/-! ## What a stack deploy promises -/

omit [CharTables] in
/-- One member depends on another one, directly or through others. -/
def Requires (stack : Stack) : Member → Member → Prop :=
  Relation.TransGen fun member dependency =>
    dependency ∈ stack.members ∧ dependency.name ∈ member.dependsOn

omit [CharTables] in
/-- The router's candidate release was staged, and it is a directory. -/
def StagedDirectory (release : PathBuf) (calls : List (Event (StackSig.sum T))) : Prop :=
  (∃ router version, did (.stage router version) (.ok release) ∈ calls) ∧
    did (.isDir release) true ∈ calls

omit [CharTables] in
/-- What a run of a stack deploy promises. -/
structure Orderly (stack : Stack) (checked : Member → Prop) (output : StackOutput)
    (calls : List (Event (StackSig.sum T))) : Prop where
  dependenciesFirst : ∀ before member version after,
    calls = before ++ did (.start member version) () :: after →
      ∀ dependency, Requires stack member dependency →
        did (.finish dependency .deployed) () ∈ before
  stopsAtFailure : ∀ before member why after,
    calls = before ++ did (.finish member (.failed why)) () :: after →
      ∀ e ∈ after, ∀ other version, e.cmd ≠ .inl (.start other version)
  reported : ∀ report, output = .finished report → Reported stack.members report.members ∧
    ∀ member ∈ stack.members,
      (Outcome report.members member .deployed ↔ did (.finish member .deployed) () ∈ calls) ∧
      (Outcome report.members member .skipped ↔
        ∀ version, did (.start member version) () ∉ calls)
  closed : ∀ report, output = .finished report → ∀ member ∈ stack.members,
    Outcome report.members member .deployed → ∀ dependency, Requires stack member dependency →
      Outcome report.members dependency .deployed
  gated : ∀ release, StagedDirectory release calls → ∀ before router version after,
    calls = before ++ did (.start router version) () :: after →
      stack.router = some router.name → ∀ member ∈ stack.members, ∀ sdl,
        member.sdl = some sdl → checked member →
          ∃ gate, gate.member = member.name ∧ gate.served = release.join sdl ∧
            member.graphqlUrl = some gate.url ∧ LastMatched gate before

section Promise

omit [CharTables]

variable {stack : Stack}

/-- What a member depends on stands before it. -/
theorem Requires.before (hstack : stack.WellOrdered) {member dependency : Member}
    (h : Requires stack member dependency) {done rest : List Member}
    (hsplit : stack.members = done ++ member :: rest) : dependency ∈ done := by
  have hdirect : ∀ {member next : Member} {done rest : List Member},
      stack.members = done ++ member :: rest → next ∈ stack.members →
        next.name ∈ member.dependsOn → next ∈ done := by
    intro member next done rest hsplit hnext hname
    obtain ⟨found, hfound, heq⟩ := List.mem_map.mp (hstack.ordered _ _ _ hsplit _ hname)
    have hmem : found ∈ stack.members := hsplit ▸ List.mem_append_left _ hfound
    rwa [← List.inj_on_of_nodup_map hstack.distinct hmem hnext heq]
  induction h using Relation.TransGen.head_induction_on generalizing done rest with
  | single h => exact hdirect hsplit h.1 h.2
  | @head member next h _ ih =>
      obtain ⟨earlier, later, rfl⟩ := List.append_of_mem (hdirect hsplit h.1 h.2)
      have hnext : stack.members = earlier ++ next :: (later ++ member :: rest) := by
        simp [hsplit]
      exact List.mem_append_left _ (ih hnext)

/-- A member's gate is found under its name. -/
theorem lookup_gatesOf (hdistinct : (stack.members.map Member.name).Nodup) {release : PathBuf}
    {member : Member} (hmember : member ∈ stack.members) :
    (gatesOf stack (.staged release)).lookup member.name = SdlGate.new member release :=
  lookup_filterMap_entry hdistinct hmember

/-- A call before the first member starts: staging the router, or looking at its release. -/
def Prelude (e : Event (StackSig.sum T)) : Prop :=
  (∃ router version x, e = did (.stage router version) x) ∨ ∃ path x, e = did (.isDir path) x

theorem Prelude.noStart {e : Event (StackSig.sum T)} (h : Prelude e) (member : Member)
    (version : Option String) : e.cmd ≠ .inl (.start member version) := by
  obtain ⟨_, _, _, rfl⟩ | ⟨_, _, rfl⟩ := h
  · exact fun h => StackCmd.noConfusion (Sum.inl.inj h)
  · exact fun h => StackCmd.noConfusion (Sum.inl.inj h)

theorem Prelude.noFinish {e : Event (StackSig.sum T)} (h : Prelude e) (member : Member)
    (outcome : MemberOutcome) : e.cmd ≠ .inl (.finish member outcome) := by
  obtain ⟨_, _, _, rfl⟩ | ⟨_, _, rfl⟩ := h
  · exact fun h => StackCmd.noConfusion (Sum.inl.inj h)
  · exact fun h => StackCmd.noConfusion (Sum.inl.inj h)

theorem prelude_stage {router : Member} {version : Option String} (x : Except String PathBuf) :
    Prelude (did (T := T) (.stage router version) x) :=
  Or.inl ⟨_, _, _, rfl⟩

theorem prelude_isDir {path : PathBuf} (x : Bool) : Prelude (did (T := T) (.isDir path) x) :=
  Or.inr ⟨_, _, rfl⟩

/-- A candidate is staged when the calls say so. -/
theorem candidate_yields (stack : Stack) (versions : List (String × String)) :
    (candidate (T := T) stack versions false).Yields fun found calls =>
      (∀ e ∈ calls, Prelude e) ∧
        ∀ release, StagedDirectory release calls → found = .staged release := by
  have hnothing : ∀ release, ¬ StagedDirectory (T := T) release [] := by
    rintro release ⟨-, h⟩
    cases h
  unfold candidate
  split
  next => exact ⟨by simp, fun release h => absurd h (hnothing release)⟩
  next router _ =>
    rw [if_neg (by simp : ¬ (false = true))]
    split
    next => exact ⟨by simp, fun release h => absurd h (hnothing release)⟩
    next =>
      refine command_yields fun staged => ?_
      cases staged with
      | error error =>
          refine ⟨fun e he => List.mem_singleton.mp he ▸ prelude_stage _, ?_⟩
          rintro release ⟨-, h⟩
          exact StackCmd.noConfusion
            (Sum.inl.inj (congrArg Event.cmd (List.mem_singleton.mp h)))
      | ok path =>
          refine command_yields fun isDir => ?_
          have hprelude : ∀ e ∈ [did (T := T) (.stage router (versions.lookup router.name))
              (.ok path), did (.isDir path) isDir], Prelude e := by
            intro e he
            rcases List.mem_cons.mp he with rfl | he
            · exact prelude_stage _
            · exact List.mem_singleton.mp he ▸ prelude_isDir _
          cases isDir with
          | true =>
              refine ⟨hprelude, ?_⟩
              rintro release ⟨⟨router', version, hstage⟩, -⟩
              rcases List.mem_cons.mp hstage with heq | hdir
              · cases heq
                rfl
              · exact StackCmd.noConfusion
                  (Sum.inl.inj (congrArg Event.cmd (List.mem_singleton.mp hdir)))
          | false =>
              refine ⟨hprelude, ?_⟩
              rintro release ⟨-, hdir⟩
              rcases List.mem_cons.mp hdir with heq | hdir
              · exact StackCmd.noConfusion (Sum.inl.inj (congrArg Event.cmd heq))
              · cases List.mem_singleton.mp hdir

/-- The loop stages nothing and looks at no release. -/
theorem Deploys.noPrelude {checked : Member → Prop} {gates : List (String × SdlGate)}
    {members : List Member} {reports : List MemberReport} {calls : List (Event (StackSig.sum T))}
    (h : Deploys checked gates members reports calls) : ∀ e ∈ calls, ¬ Prelude e := by
  have hmember : ∀ {p : Prop} {gate : Option SdlGate} {member : Member}
      {outcome : MemberOutcome} {calls : List (Event (StackSig.sum T))},
      MemberCalls p gate member outcome calls → ∀ e ∈ calls, ¬ Prelude e := by
    intro p gate member outcome calls hcalls e he hprelude
    obtain ⟨version, inner, rfl, hinner, -⟩ := hcalls.framed
    rcases List.mem_cons.mp he with rfl | he
    · exact hprelude.noStart _ _ rfl
    · rcases List.mem_append.mp he with he | he
      · obtain ⟨_, _, _, rfl⟩ | ⟨_, _, rfl⟩ := hprelude
        · exact hinner _ he _ rfl
        · exact hinner _ he _ rfl
      · exact hprelude.noFinish _ _ (congrArg Event.cmd (List.mem_singleton.mp he))
  induction h with
  | nil => simp
  | deployed hfirst _ ih =>
      intro e he
      rcases List.mem_append.mp he with he | he
      · exact hmember hfirst e he
      · exact ih e he
  | failed hfailed => exact hmember hfailed

/-- Gates are found under the names of their members. -/
theorem own_gatesOf (hdistinct : (stack.members.map Member.name).Nodup) (found : Candidate) :
    Own (gatesOf stack found) stack.members := by
  intro member hmember g hg
  cases found with
  | staged release =>
      rw [lookup_gatesOf hdistinct hmember] at hg
      simp only [SdlGate.new, Option.bind_eq_bind, Option.mem_def, Option.bind_eq_some_iff] at hg
      obtain ⟨sdl, -, url, -, hg⟩ := hg
      cases hg
      rfl
  | none | notChecked | unreadable | failed => cases hg

section Loop

variable {checked : Member → Prop} {found : Candidate} {report : StackReport}
  {pre calls : List (Event (StackSig.sum T))}

/-- A run that stages what it stages and then deploys the members is orderly. -/
theorem Deploys.orderly (hstack : stack.WellOrdered)
    (hpre : ∀ e ∈ pre, Prelude e)
    (hstaged : ∀ release, StagedDirectory release pre → found = .staged release)
    (h : Deploys checked (gatesOf stack found) stack.members report.members calls) :
    Orderly stack checked (.finished report) (pre ++ calls) := by
  have hown := own_gatesOf hstack.distinct found
  have hstart : ∀ {before after : List (Event (StackSig.sum T))} {member : Member}
      {version : Option String},
      pre ++ calls = before ++ did (.start member version) () :: after → ∃ done rest later,
        before = pre ++ later ∧ stack.members = done ++ member :: rest ∧ ∀ d ∈ done,
          did (.finish d .deployed) () ∈ later ∧
            (checked d → ∀ g ∈ (gatesOf stack found).lookup d.name, LastMatched g later) := by
    intro before after member version hcalls
    have hnot : did (.start member version) () ∉ pre := fun hmem => (hpre _ hmem).noStart _ _ rfl
    obtain ⟨later, rfl, hlater⟩ := append_eq_append_of_not_mem hnot hcalls
    obtain ⟨done, rest, hsplit, hdone⟩ := h.start hstack.distinct hown hlater
    exact ⟨done, rest, later, rfl, hsplit, hdone⟩
  have houtcome : ∀ member ∈ stack.members,
      (Outcome report.members member .deployed ↔
        did (.finish member .deployed) () ∈ pre ++ calls) ∧
      (Outcome report.members member .skipped ↔
        ∀ version, did (.start member version) () ∉ pre ++ calls) := by
    intro member hmember
    obtain ⟨hdeployed, hskipped⟩ := h.outcome hstack.distinct hmember
    have hfinish : did (.finish member .deployed) () ∉ pre :=
      fun hmem => (hpre _ hmem).noFinish _ _ rfl
    have hbegin : ∀ version, did (.start member version) () ∉ pre :=
      fun version hmem => (hpre _ hmem).noStart _ _ rfl
    simp only [hdeployed, hskipped, List.mem_append, hfinish, hbegin, false_or, and_self]
  have hrequires : ∀ {before after : List (Event (StackSig.sum T))} {member dependency : Member}
      {version : Option String},
      pre ++ calls = before ++ did (.start member version) () :: after →
        Requires stack member dependency → did (.finish dependency .deployed) () ∈ before := by
    intro before after member dependency version hcalls hdepends
    obtain ⟨done, rest, later, rfl, hsplit, hdone⟩ := hstart hcalls
    exact List.mem_append_right _ (hdone _ (hdepends.before hstack hsplit)).1
  refine ⟨fun _ _ _ _ hcalls _ => hrequires hcalls, ?_, ?_, ?_, ?_⟩
  · intro before member why after hcalls
    have hnot : did (.finish member (.failed why)) () ∉ pre :=
      fun hmem => (hpre _ hmem).noFinish _ _ rfl
    obtain ⟨later, -, hlater⟩ := append_eq_append_of_not_mem hnot hcalls
    exact h.stop hlater
  · intro report' hreport
    cases hreport
    exact ⟨h.reported, houtcome⟩
  · intro report' hreport member hmember hdeployed dependency hdepends
    cases hreport
    have hfinish := (h.outcome hstack.distinct hmember).1.mp hdeployed
    obtain ⟨version, hstarted⟩ := h.started hfinish
    obtain ⟨before, after, hcalls⟩ := List.append_of_mem (List.mem_append_right pre hstarted)
    have hdone := hrequires hcalls hdepends
    refine ((houtcome dependency ?_).1.mpr ?_)
    · obtain ⟨done, rest, _, _, hsplit, _⟩ := hstart hcalls
      exact hsplit ▸ List.mem_append_left _ (hdepends.before hstack hsplit)
    · exact hcalls ▸ List.mem_append_left _ hdone
  · intro release hrelease before router version after hcalls hrouter member hmember sdl hsdl
      hchecked
    have hinPre : StagedDirectory release pre := by
      obtain ⟨⟨staged, version', hstage⟩, hdir⟩ := hrelease
      refine ⟨⟨staged, version', ?_⟩, ?_⟩
      · exact (List.mem_append.mp hstage).resolve_right
          fun hmem => h.noPrelude _ hmem (prelude_stage _)
      · exact (List.mem_append.mp hdir).resolve_right
          fun hmem => h.noPrelude _ hmem (prelude_isDir _)
    obtain rfl := hstaged release hinPre
    obtain ⟨done, rest, later, rfl, hsplit, hdone⟩ := hstart hcalls
    -- The router and the members behind it have no schema.
    have hbefore : member ∈ done := by
      rw [hsplit] at hmember
      refine (List.mem_append.mp hmember).resolve_right fun hbehind => ?_
      rw [hstack.routerLast done router rest hsplit hrouter member hbehind] at hsdl
      cases hsdl
    obtain ⟨url, hurl⟩ := Option.isSome_iff_exists.mp (hstack.checkable member hmember sdl hsdl).2
    have hlast := (hdone member hbefore).2 hchecked ⟨member.name, release.join sdl, url⟩ (by
      rw [lookup_gatesOf hstack.distinct hmember]
      simp [SdlGate.new, hsdl, hurl])
    refine ⟨⟨member.name, release.join sdl, url⟩, rfl, rfl, hurl, ?_⟩
    simpa using hlast.extend pre [] (by simp)

/-- A run that stages what it stages and then skips every member is orderly. -/
theorem orderly_skipped (hpre : ∀ e ∈ pre, Prelude e)
    (hmembers : report.members = stack.members.map skippedReport) :
    Orderly stack checked (.finished report) pre := by
  have hnoStart : ∀ member version, did (.start member version) () ∉ pre :=
    fun member version hmem => (hpre _ hmem).noStart _ _ rfl
  have hnoFinish : ∀ member outcome, did (.finish member outcome) () ∉ pre :=
    fun member outcome hmem => (hpre _ hmem).noFinish _ _ rfl
  have hskipped : ∀ member, ¬ Outcome report.members member .deployed := by
    rintro member ⟨r, hr, -, hdeployed⟩
    rw [hmembers] at hr
    obtain ⟨m, -, rfl⟩ := List.mem_map.mp hr
    exact MemberOutcome.noConfusion hdeployed
  refine ⟨?_, ?_, ?_, ?_, ?_⟩
  · intro before member version after hcalls
    exact absurd (hcalls ▸ List.mem_append_right _ List.mem_cons_self) (hnoStart member version)
  · intro before member why after hcalls
    exact absurd (hcalls ▸ List.mem_append_right _ List.mem_cons_self) (hnoFinish member _)
  · intro report' hreport
    cases hreport
    refine ⟨?_, fun member hmember => ⟨iff_of_false (hskipped member) (hnoFinish member _), ?_⟩⟩
    · rw [hmembers]
      cases stack.members with
      | nil => rfl
      | cons first rest => exact ⟨_, _, rfl, rfl, rfl⟩
    · refine iff_of_true ⟨skippedReport member, ?_, rfl, rfl⟩ (hnoStart member)
      exact hmembers ▸ List.mem_map_of_mem hmember
  · intro report' hreport member _ hdeployed
    cases hreport
    exact absurd hdeployed (hskipped member)
  · intro release _ before router version after hcalls
    exact absurd (hcalls ▸ List.mem_append_right _ List.mem_cons_self) (hnoStart router version)

end Loop

/-- A command that goes ahead deploys the stack that was loaded. -/
theorem eq_of_ready {deployer : MemberDeployer T} {pairs : List String} {found : Stack}
    {versions : List (String × String)}
    (h : ready deployer (.ok stack) pairs = .ok (found, versions)) : found = stack := by
  simp only [ready, Except.mapError, bind, Except.bind] at h
  split at h
  next => cases h
  next =>
    split at h
    next => cases h
    next => exact (Prod.mk.inj (Except.ok.inj h)).1.symm

/-- A command that is refused makes no calls. -/
theorem orderly_refused {checked : Member → Prop} (message : String) :
    Orderly (T := T) stack checked (.refused message) [] := by
  refine ⟨?_, ?_, nofun, nofun, ?_⟩
  · intro before member version after hcalls
    simp at hcalls
  · intro before member why after hcalls
    simp at hcalls
  · intro release _ before router version after hcalls
    simp at hcalls

/-- Whatever is answered, deploying behind a candidate is orderly. -/
theorem deployBehind_yields [CharTables] {deployer : MemberDeployer T}
    (hstack : stack.WellOrdered) {found : Candidate} {pre : List (Event (StackSig.sum T))}
    (hpre : ∀ e ∈ pre, Prelude e)
    (hstaged : ∀ release, StagedDirectory release pre → found = .staged release)
    (versions : List (String × String)) :
    (deployBehind deployer found stack versions).Yields fun r calls =>
      ∀ findings, Orderly stack (ChecksHealth deployer) (.finished ⟨r.1, r.2, findings⟩)
        (pre ++ calls) := by
  have hloop : ∀ found, (∀ release, StagedDirectory release pre → found = .staged release) →
      (do
        let reports ← deployMembers deployer versions (gatesOf stack found) false stack.members
        return ((reports, none) : List MemberReport × Option String)).Yields fun r calls =>
      ∀ findings, Orderly stack (ChecksHealth deployer) (.finished ⟨r.1, r.2, findings⟩)
        (pre ++ calls) := by
    intro found hstaged
    refine Prog.Yields.bind ((deployMembers_yields (own_gatesOf hstack.distinct found)
      versions).mono ?_)
    intro reports calls hdeploys findings
    rw [List.append_nil]
    exact hdeploys.orderly hstack hpre hstaged
  cases found with
  | failed why =>
      intro findings
      rw [List.append_nil]
      exact orderly_skipped hpre rfl
  | none | notChecked | staged | unreadable => exact hloop _ hstaged

end Promise

/-- In every stack that resolves, the members with a schema come before the router; and
whatever members, hosts and endpoints answer, a deploy that is no dry run is orderly. -/
theorem stackDeploy_ordered {parse : String → Except String DeployConfig}
    {base : PathBuf} {read : PathBuf → Except String String} {file : StackSection} {stack : Stack}
    (hresolved : resolve parse base read file = .ok stack) (deployer : MemberDeployer T)
    (pairs : List String) :
    (∀ member ∈ stack.members, member.sdl.isSome = true → ∃ before middle router after,
      stack.members = before ++ member :: (middle ++ router :: after) ∧
        stack.router = some router.name) ∧
      (stackDeploy deployer (resolve parse base read file) pairs false).Yields
        fun output calls => Orderly stack (ChecksHealth deployer) output calls := by
  have hstack := resolve_wellOrdered hresolved
  constructor
  · intro member hmember hsdl
    obtain ⟨router, hrouter, hname⟩ := hstack.routed member hmember hsdl
    obtain ⟨done, rest, hsplit⟩ := List.append_of_mem hrouter
    have hbefore : member ∈ done := by
      rw [hsplit] at hmember
      refine (List.mem_append.mp hmember).resolve_right fun hbehind => ?_
      rw [hstack.routerLast done router rest hsplit hname member hbehind] at hsdl
      cases hsdl
    obtain ⟨before, middle, rfl⟩ := List.append_of_mem hbefore
    exact ⟨before, middle, router, rest, by simp [hsplit], hname⟩
  · unfold stackDeploy
    split
    next => exact orderly_refused _
    next found versions hready =>
      rw [hresolved] at hready
      obtain rfl := eq_of_ready hready
      refine Prog.Yields.bind ((candidate_yields found versions).mono ?_)
      intro candidate pre ⟨hpre, hstaged⟩
      refine Prog.Yields.bind ((deployBehind_yields hstack hpre hstaged versions).mono ?_)
      intro r calls horderly
      show Orderly found _ _ (pre ++ (calls ++ []))
      rw [List.append_nil]
      exact horderly _

end Guarded

/-! ## A stack of two members -/

namespace Sample

/-- A configuration of a member of the sample. -/
def configOf (name : String) : DeployConfig where
  name := some name
  environment := some "staging"
  strategy := none
  activePath := some ⟨true, ["srv", name, "current"]⟩
  graphqlUrl := some "http://billing/graphql"
  hosts := false
  rest := ""

/-- A stack file: a router, and a subgraph that it depends on. -/
def file : StackSection where
  name := some "shop"
  environment := some "staging"
  router := some "router"
  members :=
    [{ config := ⟨false, ["router"]⟩, dependsOn := ["billing"], sdl := none },
      { config := ⟨false, ["billing"]⟩, dependsOn := [],
        sdl := some ⟨false, ["billing.graphql"]⟩ }]

/-- A configuration is its member's name. -/
def parse (toml : String) : Except String DeployConfig :=
  .ok (configOf toml)

/-- A configuration file holds the last component of its path. -/
def read (path : PathBuf) : Except String String :=
  .ok (path.fileName.getD "")

/-- A member of the sample at its place. -/
def member (name : String) (dependsOn : List String) (sdl : Option PathBuf) : Member where
  name := name
  configPath := ⟨true, ["etc", name]⟩
  config := configOf name
  dependsOn := dependsOn
  sdl := sdl

/-- The stack that the file resolves to. -/
def stack : Stack where
  name := "shop"
  environment := "staging"
  router := some "router"
  members := [member "billing" [] (some ⟨false, ["billing.graphql"]⟩),
    member "router" ["billing"] none]

/-- A deployer whose deploys check the health of one host and do nothing else. -/
def deployer : MemberDeployer ⟨Empty, Empty.rec⟩ where
  deploy _ _ := .call (.inl (.new "shop" "staging", ⟨"localhost"⟩)) fun
    | .ok status => .ret (.ok ⟨if status.healthy then 0 else 1, "health"⟩)
    | .error error => .ret (.error error.message)
  invalid _ := []

/-- The deployer runs the health adapter that it is given. -/
theorem deployer_checksHealth (member : Member) : ChecksHealth deployer member := by
  intro version answer
  cases answer with
  | error error => nofun
  | ok status =>
      intro hdeployed
      refine ⟨[], _, status, [], rfl, ?_, by simp⟩
      cases hhealthy : status.healthy with
      | true => rfl
      | false => simp [outcomeOf, hhealthy] at hdeployed

end Sample

/-- The sample deploys in order, and its members check their health. -/
theorem stackDeploy_ordered_sample :
    resolve Sample.parse ⟨true, ["etc"]⟩ Sample.read Sample.file = .ok Sample.stack ∧
      (stackDeploy Sample.deployer (resolve Sample.parse ⟨true, ["etc"]⟩ Sample.read Sample.file)
        ["router=v3"] false).Yields
          fun output calls => Orderly Sample.stack (ChecksHealth Sample.deployer) output calls ∧
            ∀ member, ChecksHealth Sample.deployer member := by
  have hresolved : resolve Sample.parse ⟨true, ["etc"]⟩ Sample.read Sample.file =
      .ok Sample.stack := rfl
  refine ⟨hresolved, ((stackDeploy_ordered hresolved Sample.deployer ["router=v3"]).2).mono ?_⟩
  exact fun output calls h => ⟨h, Sample.deployer_checksHealth⟩

end Fraisier.Cli.Stacks
