import ZanoP2pool.ShareChainOrderFree
import ZanoP2pool.StratumSubmission

namespace ZanoP2pool

open Foundation

/-!
# The jobs of a full node

A template of a full node names the parent of every share mined on it.  The
difficulty of its work depends on the line of shares below that parent, which the
identity of the parent determines for good.  So a version of a template stands for
one job, whoever asks for it and however often the chain changes in between.
-/

/-- The shares of a list from an identity down to a root, newest first. -/
inductive ShareLine
    (backend : Backend)
    (shares : List Share) :
    ShareId → List Share → Prop where
  | root : ShareLine backend shares 0 []
  | step
      {id : ShareId}
      {share : Share}
      {rest : List Share} :
      id ≠ 0 →
      share ∈ shares →
      shareId backend share = .ok id →
      ShareLine backend shares share.parentId rest →
      ShareLine backend shares id (share :: rest)

section Lines

variable {backend : Backend} {shares : List Share}

/-- An identity has one line, as its shares have identities of their own. -/
theorem ShareLine.unique
    (distinct : DistinctShareIds backend shares)
    {id : ShareId}
    {first second : List Share}
    (firstLine : ShareLine backend shares id first)
    (secondLine : ShareLine backend shares id second) :
    first = second := by
  induction firstLine generalizing second with
  | root =>
      cases secondLine with
      | root => rfl
      | step nonzero _ _ _ => exact absurd rfl nonzero
  | step nonzero member keyed _ inductionHypothesis =>
      cases secondLine with
      | root => exact absurd rfl nonzero
      | step _ otherMember otherKeyed below =>
          have same :=
            distinct.injective _ member _ otherMember _ keyed otherKeyed
          subst same
          rw [inductionHypothesis below]

/-- The branch of a chain that holds listed shares only is a line of them. -/
theorem Branch.line
    {chain : ShareChain}
    (sound : ShareChain.Sound backend chain)
    (held : ShareChain.HoldsOnly (· ∈ shares) chain)
    {id : ShareId}
    {branch : List Share}
    (isBranch : Branch chain.connected id branch) :
    ShareLine backend shares id branch := by
  induction isBranch with
  | root => exact .root
  | step nonzero found _ inductionHypothesis =>
      exact .step nonzero (held.1 found) (sound.keyed found).2
        inductionHypothesis

end Lines

/-- The height of a share that extends a line. -/
def ExtendsLine : List Share → UInt64 → Prop
  | [], height => height = 0
  | parent :: _, height =>
      parent.shareHeight ≠ kUInt64Max ∧ height = parent.shareHeight + 1

/-- The work a template stands for below the line of its parent. -/
structure DerivedFrom
    (backend : Backend)
    (policy : DifficultyPolicy)
    (shares : List Share)
    (workTemplate : StratumTemplate)
    (work : StratumIssuedWork)
    (binding : StratumShareParentBinding)
    (line : List Share)
    (target : DifficultyTarget) :
    Prop where
  bound : workTemplate.parentBinding = some binding
  isLine : ShareLine backend shares binding.parentId line
  height : ExtendsLine line binding.shareHeight
  expected :
    branchExpectedDifficulty policy line workTemplate.networkDifficulty =
      .ok work.shareDifficulty
  positive : work.shareDifficulty ≠ 0
  below : work.shareDifficulty ≤ workTemplate.networkDifficulty
  aimed : wireTarget work.shareDifficulty = .ok target
  derived :
    work =
      StratumSessionRegistry.derivedWork workTemplate work.sessionId
        work.shareDifficulty target (some binding)

/-- Some line determines the work of the template. -/
def Derived
    (backend : Backend)
    (policy : DifficultyPolicy)
    (shares : List Share)
    (workTemplate : StratumTemplate)
    (work : StratumIssuedWork) :
    Prop :=
  ∃ binding line target,
    DerivedFrom backend policy shares workTemplate work binding line target

section Works

variable {backend : Backend} {policy : DifficultyPolicy} {shares : List Share}
variable {workTemplate : StratumTemplate} {work other : StratumIssuedWork}

theorem Derived.version
    (derived : Derived backend policy shares workTemplate work) :
    work.jobVersion = workTemplate.version := by
  obtain ⟨_, _, _, from_⟩ := derived
  rw [from_.derived]
  rfl

/-- The works of one template differ in their sessions only. -/
theorem Derived.same
    (distinct : DistinctShareIds backend shares)
    (derived : Derived backend policy shares workTemplate work)
    (otherDerived : Derived backend policy shares workTemplate other) :
    other = { work with sessionId := other.sessionId } := by
  obtain ⟨binding, line, target, first⟩ := derived
  obtain ⟨otherBinding, otherLine, otherTarget, second⟩ := otherDerived
  have sameBinding : otherBinding = binding :=
    Option.some_injective _ (second.bound.symm.trans first.bound)
  subst sameBinding
  have sameLine := second.isLine.unique distinct first.isLine
  subst sameLine
  have sameDifficulty : other.shareDifficulty = work.shareDifficulty :=
    Except.ok.inj (second.expected.symm.trans first.expected)
  have sameTarget : otherTarget = target := by
    have targets := second.aimed
    rw [sameDifficulty, first.aimed] at targets
    exact (Except.ok.inj targets).symm
  subst sameTarget
  rw [second.derived, first.derived, sameDifficulty]
  rfl

end Works

namespace StratumSessionRegistry

/-- The versions below this one have been published. -/
def versionBound (registry : StratumSessionRegistry) : Nat :=
  if registry.nextTemplateVersion = 0 then 2 ^ 64
  else registry.nextTemplateVersion.toNat

/-- What asking for work leads to. -/
inductive IssueOutcome
    (registry : StratumSessionRegistry)
    (sessionId : UInt64)
    (consensusShareDifficulty : Option Difficulty128)
    (parentBinding : Option StratumShareParentBinding) :
    EStateM.Result Exception StratumSessionRegistry StratumIssuedWork →
      Prop where
  | threw
      (thrown : Exception) :
      IssueOutcome registry sessionId consensusShareDifficulty parentBinding
        (.error thrown registry)
  | repeated
      {session : StratumSession}
      {workTemplate : StratumTemplate}
      {current : StratumIssuedWork} :
      registry.findSession sessionId = some session →
      registry.currentTemplate = some workTemplate →
      session.currentWork = some current →
      current.jobVersion = workTemplate.version →
      IssueOutcome registry sessionId consensusShareDifficulty parentBinding
        (.ok current registry)
  | issued
      {session : StratumSession}
      {workTemplate : StratumTemplate}
      {binding : Option StratumShareParentBinding}
      {difficulty : Difficulty128}
      {target : DifficultyTarget} :
      registry.findSession sessionId = some session →
      registry.currentTemplate = some workTemplate →
      workBinding workTemplate parentBinding = .ok binding →
      workDifficulty session workTemplate consensusShareDifficulty =
        .ok difficulty →
      wireTarget difficulty = .ok target →
      (∀ current, session.currentWork = some current →
        ¬ (current.jobVersion = workTemplate.version ∧
          current.shareDifficulty = difficulty ∧
          current.parentBinding = binding)) →
      IssueOutcome registry sessionId consensusShareDifficulty parentBinding
        (.ok (derivedWork workTemplate session.id difficulty target binding)
          { registry with
            sessions := registry.sessions.insert sessionId
              { session with
                previousWork := session.currentWork
                currentWork := some
                  (derivedWork workTemplate session.id difficulty target
                    binding) } })

theorem issueWork_outcome
    (registry : StratumSessionRegistry)
    (sessionId : UInt64)
    (consensusShareDifficulty : Option Difficulty128)
    (parentBinding : Option StratumShareParentBinding) :
    IssueOutcome registry sessionId consensusShareDifficulty parentBinding
      (issueWork sessionId consensusShareDifficulty parentBinding registry) := by
  unfold issueWork
  cases found : registry.findSession sessionId with
  | none =>
      rw [bind_of_error (requireSession_missing found)]
      exact .threw _
  | some session =>
      rw [bind_of_ok (requireSession_found found)]
      by_cases loggedIn : session.loggedIn = true
      swap
      · rw [if_pos loggedIn]
        exact .threw _
      rw [if_neg (not_not.mpr loggedIn), get_bind_apply]
      cases published : registry.currentTemplate with
      | none => exact .threw _
      | some workTemplate =>
          simp only
          cases bound : workBinding workTemplate parentBinding with
          | error thrown => exact .threw _
          | ok binding =>
              rw [bind_of_ok (orThrow_ok _ _)]
              cases chosen :
                  workDifficulty session workTemplate
                    consensusShareDifficulty with
              | error thrown => exact .threw _
              | ok difficulty =>
                  rw [bind_of_ok (orThrow_ok _ _)]
                  cases unchanged :
                      session.currentWork.filter fun current =>
                        current.jobVersion = workTemplate.version ∧
                          current.shareDifficulty = difficulty ∧
                          current.parentBinding = binding with
                  | some current =>
                      obtain ⟨held, same⟩ :=
                        Option.filter_eq_some_iff.mp unchanged
                      exact .repeated found published held
                        (of_decide_eq_true same).1
                  | none =>
                      simp only
                      cases aimed : wireTarget difficulty with
                      | error thrown => exact .threw _
                      | ok target =>
                          rw [bind_of_ok (orThrow_ok _ _)]
                          refine .issued found published bound chosen aimed ?_
                          intro current held same
                          rw [Option.filter_eq_none_iff] at unchanged
                          exact unchanged current held (decide_eq_true same)

/-- The template of a registry stays, or it is replaced by one of a new version. -/
def Republished (registry next : StratumSessionRegistry) : Prop :=
  (next.currentTemplate = registry.currentTemplate ∧
      next.nextTemplateVersion = registry.nextTemplateVersion) ∨
    ∃ workTemplate,
      next.currentTemplate = some workTemplate ∧
      workTemplate.version = registry.nextTemplateVersion ∧
      registry.nextTemplateVersion ≠ 0 ∧
      next.nextTemplateVersion = registry.nextTemplateVersion + 1

/-- A new version is the bound of the versions before it. -/
theorem versionBound_succ
    {registry next : StratumSessionRegistry}
    (available : registry.nextTemplateVersion ≠ 0)
    (advanced : next.nextTemplateVersion = registry.nextTemplateVersion + 1) :
    registry.versionBound = registry.nextTemplateVersion.toNat ∧
      next.versionBound = registry.nextTemplateVersion.toNat + 1 := by
  refine ⟨if_neg available, ?_⟩
  have fits := registry.nextTemplateVersion.toNat_lt
  have value := UInt64.toNat_add registry.nextTemplateVersion 1
  have one : (1 : UInt64).toNat = 1 := rfl
  rw [one] at value
  unfold versionBound
  rw [advanced]
  by_cases wrapped : registry.nextTemplateVersion + 1 = 0
  · rw [if_pos wrapped]
    rw [wrapped] at value
    have zero : (0 : UInt64).toNat = 0 := rfl
    omega
  · rw [if_neg wrapped, value]
    have nonzero : (registry.nextTemplateVersion + 1).toNat ≠ 0 := fun zero =>
      wrapped (UInt64.toNat_inj.mp zero)
    omega

section Works

variable (backend : Backend) (policy : DifficultyPolicy) (shares : List Share)

/-- A work that was issued: templates of its version stand for the same job. -/
structure Kept
    (registry : StratumSessionRegistry)
    (work : StratumIssuedWork) :
    Prop where
  derived : ∃ workTemplate, Derived backend policy shares workTemplate work
  bounded : work.jobVersion.toNat < registry.versionBound
  current :
    ∀ workTemplate,
      registry.currentTemplate = some workTemplate →
      workTemplate.version = work.jobVersion →
      Derived backend policy shares workTemplate work

/-- The works of a session were issued one after the other. -/
structure OrderedWorks
    (registry : StratumSessionRegistry)
    (session : StratumSession) :
    Prop where
  current :
    ∀ work, session.currentWork = some work →
      Kept backend policy shares registry work
  previous :
    ∀ work, session.previousWork = some work →
      Kept backend policy shares registry work
  ordered :
    ∀ previous current,
      session.previousWork = some previous →
      session.currentWork = some current →
      previous.jobVersion < current.jobVersion

/-- The current template has the newest version, and all works were issued. -/
structure OrderedSessions (registry : StratumSessionRegistry) : Prop where
  newest :
    ∀ workTemplate,
      registry.currentTemplate = some workTemplate →
      workTemplate.version.toNat + 1 = registry.versionBound
  sessions :
    ∀ id session,
      registry.findSession id = some session →
      OrderedWorks backend policy shares registry session

end Works

variable {backend : Backend} {policy : DifficultyPolicy} {shares : List Share}
variable {registry next : StratumSessionRegistry}
variable {work : StratumIssuedWork} {session : StratumSession}

theorem Kept.step
    (kept : Kept backend policy shares registry work)
    (step : Republished registry next) :
    Kept backend policy shares next work := by
  rcases step with ⟨sameTemplate, sameNext⟩ |
    ⟨workTemplate, published, version, available, advanced⟩
  · have sameBound : next.versionBound = registry.versionBound := by
      unfold versionBound
      rw [sameNext]
    refine ⟨kept.derived, sameBound ▸ kept.bounded, ?_⟩
    rw [sameTemplate]
    exact kept.current
  · obtain ⟨bound, nextBound⟩ := versionBound_succ available advanced
    have below := kept.bounded
    refine ⟨kept.derived, by omega, ?_⟩
    intro other found same
    rw [published] at found
    cases found
    rw [← same, version, bound] at below
    exact absurd below (lt_irrefl _)

theorem OrderedWorks.step
    (works : OrderedWorks backend policy shares registry session)
    (step : Republished registry next) :
    OrderedWorks backend policy shares next session :=
  ⟨fun work held => (works.current work held).step step,
    fun work held => (works.previous work held).step step, works.ordered⟩

/-- A session without work has nothing to keep in order. -/
theorem OrderedWorks.idle
    (noCurrent : session.currentWork = none)
    (noPrevious : session.previousWork = none) :
    OrderedWorks backend policy shares registry session := by
  refine ⟨?_, ?_, ?_⟩
  · intro work held
    rw [noCurrent] at held
    cases held
  · intro work held
    rw [noPrevious] at held
    cases held
  · intro previous current held
    rw [noPrevious] at held
    cases held

/-- Sessions stay ordered when every one of them is an old one or is ordered. -/
theorem OrderedSessions.step
    (ordered : OrderedSessions backend policy shares registry)
    (step : Republished registry next)
    (kept :
      ∀ id session,
        next.findSession id = some session →
        registry.findSession id = some session ∨
          OrderedWorks backend policy shares next session) :
    OrderedSessions backend policy shares next := by
  constructor
  case newest =>
    intro workTemplate found
    rcases step with ⟨sameTemplate, sameNext⟩ |
      ⟨published, isPublished, version, available, advanced⟩
    · rw [sameTemplate] at found
      rw [ordered.newest workTemplate found]
      unfold versionBound
      rw [sameNext]
    · rw [isPublished] at found
      cases found
      rw [version, (versionBound_succ available advanced).2]
  case sessions =>
    intro id session found
    rcases kept id session found with old | works
    · exact (ordered.sessions id session old).step step
    · exact works

/-- The sessions after one of them was stored. -/
theorem findSession_store
    {id other : UInt64}
    {stored : StratumSession}
    (found :
      { registry with
        sessions := registry.sessions.insert id stored }.findSession other =
        some session) :
    (other = id ∧ session = stored) ∨
      registry.findSession other = some session := by
  unfold findSession at found ⊢
  rw [Std.ExtTreeMap.getElem?_insert] at found
  split_ifs at found with same
  · exact .inl ⟨(Std.LawfulEqOrd.eq_of_compare same).symm, (Option.some.inj found).symm⟩
  · exact .inr found

theorem createSession_ordered
    (ordered : OrderedSessions backend policy shares registry) :
    OrderedSessions backend policy shares
        (finalState (createSession registry)) ∧
      Republished registry (finalState (createSession registry)) := by
  unfold createSession
  rw [get_bind_apply]
  by_cases exhausted : registry.nextSessionId = 0
  · rw [if_pos exhausted]
    exact ⟨ordered, .inl ⟨rfl, rfl⟩⟩
  · rw [if_neg exhausted]
    refine ⟨ordered.step (.inl ⟨rfl, rfl⟩) ?_, .inl ⟨rfl, rfl⟩⟩
    intro id session found
    unfold findSession at found ⊢
    simp only [set_bind_apply, pure_apply, finalState_ok] at found
    rw [Std.ExtTreeMap.getElem?_insertIfNew] at found
    split_ifs at found with fresh
    · cases found
      exact .inr (.idle rfl rfl)
    · exact .inl found

theorem removeSession_ordered
    (ordered : OrderedSessions backend policy shares registry)
    (sessionId : UInt64) :
    OrderedSessions backend policy shares
        { registry with sessions := registry.sessions.erase sessionId } := by
  refine ordered.step (.inl ⟨rfl, rfl⟩) ?_
  intro id session found
  unfold findSession at found ⊢
  rw [Std.ExtTreeMap.getElem?_erase] at found
  split_ifs at found
  exact .inl found

theorem login_ordered
    (ordered : OrderedSessions backend policy shares registry)
    (sessionId : UInt64)
    (loginRequest : StratumLogin) :
    OrderedSessions backend policy shares
        (finalState (login backend sessionId loginRequest registry)) ∧
      Republished registry
        (finalState (login backend sessionId loginRequest registry)) := by
  unfold login
  cases found : registry.findSession sessionId with
  | none =>
      rw [bind_of_error (requireSession_missing found)]
      exact ⟨ordered, .inl ⟨rfl, rfl⟩⟩
  | some session =>
      rw [bind_of_ok (requireSession_found found)]
      by_cases unnamed : loginRequest.username.isEmpty = true
      · rw [if_pos unnamed]
        exact ⟨ordered, .inl ⟨rfl, rfl⟩⟩
      · rw [if_neg unnamed, get_bind_apply]
        refine ⟨ordered.step (.inl ⟨rfl, rfl⟩) ?_, .inl ⟨rfl, rfl⟩⟩
        intro id other present
        rcases findSession_store present with ⟨_, rfl⟩ | old
        · exact .inr (.idle rfl rfl)
        · exact .inl old

theorem publishTemplate_ordered
    (ordered : OrderedSessions backend policy shares registry)
    (headerHash seedHash : Hash256)
    (height : UInt64)
    (networkDifficulty : Difficulty128)
    (parentBinding : Option StratumShareParentBinding) :
    OrderedSessions backend policy shares
        (finalState (publishTemplate headerHash seedHash height
          networkDifficulty parentBinding registry)) ∧
      Republished registry
        (finalState (publishTemplate headerHash seedHash height
          networkDifficulty parentBinding registry)) := by
  suffices step :
      Republished registry
          (finalState (publishTemplate headerHash seedHash height
            networkDifficulty parentBinding registry)) ∧
        (finalState (publishTemplate headerHash seedHash height
            networkDifficulty parentBinding registry)).sessions =
          registry.sessions by
    refine ⟨ordered.step step.1 ?_, step.1⟩
    intro id session found
    unfold findSession at found ⊢
    rw [step.2] at found
    exact .inl found
  unfold publishTemplate
  by_cases zero : difficulty128IsZero networkDifficulty = true
  · rw [if_pos zero]
    exact ⟨.inl ⟨rfl, rfl⟩, rfl⟩
  rw [if_neg zero]
  cases requireBinding parentBinding
      "root Stratum template binding must use share height zero"
      "non-root Stratum template binding must use nonzero share height" with
  | error thrown => exact ⟨.inl ⟨rfl, rfl⟩, rfl⟩
  | ok _ =>
      rw [bind_of_ok (orThrow_ok _ _), get_bind_apply]
      cases registry.currentTemplate.filter fun current =>
          current.headerHash = headerHash ∧ current.seedHash = seedHash ∧
            current.height = height ∧
            current.networkDifficulty = networkDifficulty ∧
            current.parentBinding = parentBinding with
      | some current => exact ⟨.inl ⟨rfl, rfl⟩, rfl⟩
      | none =>
          simp only
          by_cases exhausted : registry.nextTemplateVersion = 0
          · rw [if_pos exhausted]
            exact ⟨.inl ⟨rfl, rfl⟩, rfl⟩
          · rw [if_neg exhausted]
            exact ⟨.inr ⟨_, rfl, rfl, exhausted, rfl⟩, rfl⟩

/-- Work asked for with the binding of the template has that binding. -/
theorem workBinding_bound
    {workTemplate : StratumTemplate}
    {binding : StratumShareParentBinding}
    {chosen : Option StratumShareParentBinding}
    (bound : workTemplate.parentBinding = some binding)
    (decided : workBinding workTemplate (some binding) = .ok chosen) :
    chosen = some binding := by
  unfold workBinding at decided
  rw [bound] at decided
  simp only [Option.isSome_some, ne_eq, not_true_eq_false, and_false,
    if_false] at decided
  obtain ⟨_, picked, checked⟩ := except_bind_eq_ok.mp decided
  cases picked
  obtain ⟨_, _, finished⟩ := except_bind_eq_ok.mp checked
  exact (Except.ok.inj finished).symm

/-- Work of a full node is the job of the current template. -/
theorem IssueOutcome.ordered
    (distinct : DistinctShareIds backend shares)
    (ordered : OrderedSessions backend policy shares registry)
    {sessionId : UInt64}
    {difficulty : Difficulty128}
    {binding : StratumShareParentBinding}
    {workTemplate : StratumTemplate}
    {line : List Share}
    {result :
      EStateM.Result Exception StratumSessionRegistry StratumIssuedWork}
    (published : registry.currentTemplate = some workTemplate)
    (bound : workTemplate.parentBinding = some binding)
    (isLine : ShareLine backend shares binding.parentId line)
    (height : ExtendsLine line binding.shareHeight)
    (expected :
      branchExpectedDifficulty policy line workTemplate.networkDifficulty =
        .ok difficulty)
    (outcome :
      IssueOutcome registry sessionId (some difficulty) (some binding)
        result) :
    OrderedSessions backend policy shares (finalState result) ∧
      Republished registry (finalState result) ∧
      ∀ work next, result = .ok work next →
        Derived backend policy shares workTemplate work := by
  cases outcome with
  | threw thrown =>
      refine ⟨ordered, .inl ⟨rfl, rfl⟩, ?_⟩
      rintro work next ⟨⟩
  | repeated found current held same =>
      rw [published] at current
      cases current
      refine ⟨ordered, .inl ⟨rfl, rfl⟩, ?_⟩
      rintro work next ⟨⟩
      exact ((ordered.sessions _ _ found).current _ held).current _ published
        same.symm
  | @issued session _ _ chosen target found current boundTo decided aimed
      changed =>
      rw [published] at current
      cases current
      have chosenDifficulty :
          chosen = difficulty ∧ difficulty ≠ 0 ∧
            difficulty ≤ workTemplate.networkDifficulty := by
        unfold workDifficulty at decided
        simp only at decided
        split_ifs at decided with zero above
        cases decided
        refine ⟨rfl, ?_, BitVec.not_lt.mp above⟩
        intro none
        exact zero (by rw [none]; rfl)
      obtain ⟨rfl, positive, below⟩ := chosenDifficulty
      have derived :
          Derived backend policy shares workTemplate
            (derivedWork workTemplate session.id chosen target
              (some binding)) :=
        ⟨binding, line, target, bound, isLine, height, expected, positive,
          below, aimed, rfl⟩
      cases workBinding_bound bound boundTo
      refine ⟨ordered.step (.inl ⟨rfl, rfl⟩) ?_, .inl ⟨rfl, rfl⟩, ?_⟩
      swap
      · rintro work next ⟨⟩
        exact derived
      intro id other present
      rcases findSession_store present with ⟨_, rfl⟩ | old
      swap
      · exact .inl old
      have works := ordered.sessions _ _ found
      refine .inr ⟨?_, ?_, ?_⟩
      · rintro work ⟨⟩
        refine ⟨⟨workTemplate, derived⟩, ?_, ?_⟩
        · have newest := ordered.newest _ published
          exact newest ▸ Nat.lt_succ_self _
        · intro other isCurrent _
          rw [published] at isCurrent
          cases isCurrent
          exact derived
      · intro work held
        exact (works.current work held).step (.inl ⟨rfl, rfl⟩)
      · rintro previous _ held ⟨⟩
        have kept := works.current previous held
        have newest := ordered.newest _ published
        have atMost : previous.jobVersion.toNat ≤ workTemplate.version.toNat := by
          have bounded := kept.bounded
          omega
        rcases Nat.lt_or_eq_of_le atMost with less | same
        · exact UInt64.lt_iff_toNat_lt.mpr less
        · -- Work of the same version would have been handed out again.
          have sameVersion : previous.jobVersion = workTemplate.version :=
            UInt64.toNat_inj.mp same
          have again := kept.current _ published sameVersion.symm
          have job := derived.same distinct again
          refine absurd ⟨sameVersion, ?_, ?_⟩ (changed previous held)
          · rw [job]
            rfl
          · rw [job]
            rfl

end StratumSessionRegistry

/-- The target of a positive difficulty is the largest word it fits into. -/
theorem wireTarget_eq
    {difficulty : Difficulty128}
    (nonzero : difficulty ≠ 0) :
    wireTarget difficulty =
      .ok { bigEndian :=
        BitVec.ofNat 256 ((2 ^ 256 - 1) / difficulty.toNat) } := by
  have read : PowTarget.parseDifficulty
      (PowTarget.difficulty128ToDecimal difficulty) = .ok difficulty := by
    rw [PowTarget.difficulty128ToDecimal_eq]
    exact readDecimal_toDigits nonzero
  have word :
      (BitVec.allOnes 256 / difficulty.setWidth 256).toNat =
        (2 ^ 256 - 1) / difficulty.toNat := by
    rw [BitVec.toNat_udiv, BitVec.toNat_allOnes, BitVec.toNat_setWidth,
      Nat.mod_eq_of_lt (lt_trans difficulty.isLt (by norm_num))]
  unfold wireTarget PowTarget.difficultyToTarget
  rw [read]
  simp only [bind, Except.bind, pure, Except.pure]
  generalize BitVec.allOnes 256 / difficulty.setWidth 256 = target at word
  rw [bytesOfWord_eq (by decide),
    ofBigEndian_bigEndian_of_lt (lt_of_lt_of_eq target.isLt (by norm_num)), word]

/-- A parent that can be built upon ends a branch below the bound height. -/
theorem StratumServer.requireParent_branch
    {backend : Backend}
    {chain : ShareChain}
    (sound : ShareChain.Sound backend chain)
    {binding : StratumShareParentBinding}
    (required : requireParent chain binding = .ok ()) :
    ∃ branch,
      Branch chain.connected binding.parentId branch ∧
        ExtendsLine branch binding.shareHeight := by
  unfold requireParent at required
  by_cases zero : binding.parentId = 0
  · rw [if_pos zero] at required
    split_ifs at required with raised
    exact ⟨[], zero ▸ .root, not_not.mp raised⟩
  rw [if_neg zero] at required
  cases found : chain.find binding.parentId with
  | none =>
      rw [found] at required
      cases required
  | some parent =>
      rw [found] at required
      simp only at required
      split_ifs at required with inconsistent
      · rw [not_or, not_not] at inconsistent
        obtain ⟨below, isBelow, _, _⟩ := sound.rooted found
        exact ⟨parent.share :: below, .step zero found isBelow, inconsistent⟩

/-- The difficulty a configured chain prescribes is that of the branch. -/
theorem StratumServer.consensusDifficulty_eq
    {chain : ShareChain}
    (rooted : Rooted chain.connected)
    {policy : DifficultyPolicy}
    (configured : chain.difficultyPolicy = some policy)
    {parentId : ShareId}
    {branch : List Share}
    (isBranch : Branch chain.connected parentId branch)
    (networkDifficulty : Difficulty128) :
    consensusDifficulty chain parentId networkDifficulty =
      (branchExpectedDifficulty policy branch networkDifficulty).map some := by
  have enforced : chain.enforcesSidechainDifficulty = true := by
    unfold ShareChain.enforcesSidechainDifficulty
    rw [configured]
    rfl
  unfold consensusDifficulty
  rw [if_pos enforced,
    ShareChain.expectedChildShareDifficulty_eq rooted configured isBranch]
  cases branchExpectedDifficulty policy branch networkDifficulty <;> rfl

/-- A full node whose chain holds the given shares and whose works are in order. -/
structure Orderly
    (backend : Backend)
    (policy : DifficultyPolicy)
    (shares : List Share)
    (server : StratumServer) :
    Prop where
  shared : server.sharedChain = true
  sound : ShareChain.Sound backend server.chain
  trusted : ShareChain.Trusted server.chain
  configured : server.chain.difficultyPolicy = some policy
  held : ShareChain.HoldsOnly (· ∈ shares) server.chain
  sessions :
    StratumSessionRegistry.OrderedSessions backend policy shares server.sessions

section Runs

variable {backend : Backend} {policy : DifficultyPolicy} {shares : List Share}
variable {server : StratumServer}

open StratumSessionRegistry StratumServer

/-- Asking for work keeps the order and leads to the job of the template. -/
structure IssuedInOrder
    (backend : Backend)
    (policy : DifficultyPolicy)
    (shares : List Share)
    (server : StratumServer)
    (result : EStateM.Result Exception StratumServer StratumIssuedWork) :
    Prop where
  sessions : OrderedSessions backend policy shares (finalState result).sessions
  republished : Republished server.sessions (finalState result).sessions
  shared : (finalState result).sharedChain = true
  job :
    ∀ work next, result = .ok work next →
      ∃ workTemplate,
        server.sessions.currentTemplate = some workTemplate ∧
          Derived backend policy shares workTemplate work

theorem Orderly.refused
    (orderly : Orderly backend policy shares server)
    (thrown : Exception) :
    IssuedInOrder backend policy shares server (.error thrown server) := by
  refine ⟨orderly.sessions, .inl ⟨rfl, rfl⟩, orderly.shared, ?_⟩
  rintro work next ⟨⟩

theorem Orderly.issueWork
    (distinct : DistinctShareIds backend shares)
    (orderly : Orderly backend policy shares server)
    (sessionId : UInt64) :
    IssuedInOrder backend policy shares server
      (StratumServer.issueWork sessionId server) := by
  unfold StratumServer.issueWork
  rw [get_bind_apply]
  cases published : server.sessions.currentTemplate with
  | none =>
      have outcome :=
        issueWork_outcome server.sessions sessionId none none
      simp only [onSessions, zoom]
      cases asked :
          StratumSessionRegistry.issueWork sessionId none none
            server.sessions with
      | error thrown next =>
          rw [asked] at outcome
          cases outcome
          exact orderly.refused thrown
      | ok work next =>
          rw [asked] at outcome
          cases outcome with
          | repeated _ current _ _ =>
              rw [published] at current
              cases current
          | issued _ current _ _ _ _ =>
              rw [published] at current
              cases current
  | some workTemplate =>
      simp only
      rw [if_neg (not_not.mpr orderly.shared)]
      cases bound : workTemplate.parentBinding with
      | none => exact orderly.refused _
      | some binding =>
          simp only
          cases required : requireParent server.chain binding with
          | error thrown => exact orderly.refused thrown
          | ok _ =>
              rw [bind_of_ok (orThrow_ok _ _)]
              obtain ⟨branch, isBranch, height⟩ :=
                requireParent_branch orderly.sound required
              rw [consensusDifficulty_eq orderly.sound.rooted
                orderly.configured isBranch]
              cases judged :
                  branchExpectedDifficulty policy branch
                    workTemplate.networkDifficulty with
              | error thrown => exact orderly.refused thrown
              | ok difficulty =>
                  have outcome :=
                    issueWork_outcome server.sessions sessionId
                      (some difficulty) (some binding)
                  have issued := outcome.ordered distinct orderly.sessions
                    published bound (isBranch.line orderly.sound orderly.held)
                    height judged
                  simp only [Except.map]
                  rw [bind_of_ok (orThrow_ok _ _)]
                  unfold onSessions zoom
                  cases asked :
                      StratumSessionRegistry.issueWork sessionId
                        (some difficulty) (some binding) server.sessions with
                  | error thrown next =>
                      rw [asked] at issued
                      refine ⟨issued.1, issued.2.1, orderly.shared, ?_⟩
                      rintro work final ⟨⟩
                  | ok work next =>
                      rw [asked] at issued
                      refine ⟨issued.1, issued.2.1, orderly.shared, ?_⟩
                      rintro other final ⟨⟩
                      exact ⟨workTemplate, published, issued.2.2 _ _ rfl⟩

/-- A call keeps the order, whatever it does to the chain. -/
theorem Orderly.step
    (distinct : DistinctShareIds backend shares)
    (orderly : Orderly backend policy shares server)
    (op : StratumOp)
    (offered :
      ∀ chainOp ∈ op.chainOp? backend server, ∀ share,
        chainOp.share? = some share → share ∈ shares) :
    Orderly backend policy shares (op.attempt backend server) ∧
      Republished server.sessions (op.attempt backend server).sessions := by
  have chain := @StratumOp.attempt_sameChain backend server op
  obtain ⟨sound, trusted, samePolicy⟩ :=
    @attemptOps_sound backend (op.chainOp? backend server).toList server.chain
      orderly.sound orderly.trusted
  have held :=
    @attemptOps_holdsOnly backend (· ∈ shares)
      (op.chainOp? backend server).toList server.chain orderly.sound
      orderly.trusted
      (fun chainOp member => offered chainOp (Option.mem_toList.mp member))
      orderly.held
  rw [← chain] at sound trusted samePolicy held
  have configured := samePolicy.trans orderly.configured
  suffices sessions :
      (op.attempt backend server).sharedChain = true ∧
        OrderedSessions backend policy shares
          (op.attempt backend server).sessions ∧
        Republished server.sessions (op.attempt backend server).sessions from
    ⟨⟨sessions.1, sound, trusted, configured, held, sessions.2.1⟩,
      sessions.2.2⟩
  have shared := orderly.shared
  have ordered := orderly.sessions
  cases op with
  | createSession =>
      rw [StratumOp.attempt_createSession]
      exact ⟨shared, createSession_ordered ordered⟩
  | removeSession sessionId =>
      rw [StratumOp.attempt_removeSession]
      exact ⟨shared, removeSession_ordered ordered sessionId, .inl ⟨rfl, rfl⟩⟩
  | login sessionId loginRequest =>
      rw [StratumOp.attempt_login]
      exact ⟨shared, login_ordered ordered sessionId loginRequest⟩
  | publishTemplate headerHash seedHash height networkDifficulty parentBinding =>
      rw [StratumOp.attempt_publishTemplate]
      exact ⟨shared, publishTemplate_ordered ordered headerHash seedHash height
        networkDifficulty parentBinding⟩
  | issueWork sessionId =>
      rw [StratumOp.attempt_issueWork]
      have issued := orderly.issueWork distinct sessionId
      exact ⟨issued.shared, issued.sessions, issued.republished⟩
  | submit sessionId submission now mode =>
      rw [StratumOp.attempt_submit]
      cases pending : server.pendingWork? sessionId submission with
      | none =>
          obtain ⟨result, answered, _⟩ :=
            @submit_turnedAway backend server sessionId submission now mode
              pending
          rw [answered]
          exact ⟨shared, ordered, .inl ⟨rfl, rfl⟩⟩
      | some chosen =>
          obtain ⟨session, issued⟩ := chosen
          rw [submit_pending pending, finalState_offerSubmission]
          exact ⟨shared, ordered, .inl ⟨rfl, rfl⟩⟩
  | chain op =>
      rw [StratumOp.attempt_chain]
      exact ⟨shared, ordered, .inl ⟨rfl, rfl⟩⟩

end Runs

/-- The work that a call hands out, if it is asked for work and does not throw. -/
def StratumOp.issued?
    (op : StratumOp)
    (server : StratumServer) :
    Option StratumIssuedWork :=
  match op with
  | .issueWork sessionId => returned (StratumServer.issueWork sessionId server)
  | _ => none

/-- The works that a run hands out, in order. -/
def issuedWorks
    (backend : Backend) :
    List StratumOp → StratumServer → List StratumIssuedWork
  | [], _ => []
  | op :: rest, server =>
      (op.issued? server).toList ++
        issuedWorks backend rest (op.attempt backend server)

/-- A later work has a later version, or it is the same job. -/
def Succeeds (earlier later : StratumIssuedWork) : Prop :=
  earlier.jobVersion ≤ later.jobVersion ∧
    (earlier.jobVersion = later.jobVersion →
      later = { earlier with sessionId := later.sessionId })

section Runs

variable {backend : Backend} {policy : DifficultyPolicy} {shares : List Share}
variable {server : StratumServer}

open StratumSessionRegistry

/-- The work that a call hands out is the job of the template it leaves. -/
theorem Orderly.issued
    (distinct : DistinctShareIds backend shares)
    (orderly : Orderly backend policy shares server)
    {op : StratumOp}
    {work : StratumIssuedWork}
    (issued : op.issued? server = some work) :
    ∃ workTemplate,
      server.sessions.currentTemplate = some workTemplate ∧
        Derived backend policy shares workTemplate work := by
  cases op with
  | issueWork sessionId =>
      exact (orderly.issueWork distinct sessionId).job _ _
        (eq_ok_of_returned issued)
  | _ => cases issued

/-- The job of the current template follows every work issued before. -/
theorem StratumSessionRegistry.Kept.succeeds
    (distinct : DistinctShareIds backend shares)
    (ordered : OrderedSessions backend policy shares server.sessions)
    {earlier later : StratumIssuedWork}
    (kept : Kept backend policy shares server.sessions earlier)
    {workTemplate : StratumTemplate}
    (published : server.sessions.currentTemplate = some workTemplate)
    (derived : Derived backend policy shares workTemplate later) :
    Succeeds earlier later := by
  have newest := ordered.newest _ published
  have bounded := kept.bounded
  have version := derived.version
  refine ⟨UInt64.le_iff_toNat_le.mpr (by rw [version]; omega), ?_⟩
  intro same
  have again := kept.current _ published (version.symm.trans same.symm)
  exact again.same distinct derived

/-- Every work issued later follows a work that was issued. -/
theorem issuedWorks_succeed
    (distinct : DistinctShareIds backend shares)
    (ops : List StratumOp)
    (orderly : Orderly backend policy shares server)
    (offered :
      ∀ share ∈ (chainHistory backend ops server).filterMap ChainOp.share?,
        share ∈ shares)
    {earlier : StratumIssuedWork}
    (kept : Kept backend policy shares server.sessions earlier) :
    ∀ later ∈ issuedWorks backend ops server, Succeeds earlier later := by
  induction ops generalizing server with
  | nil =>
      intro later member
      cases member
  | cons op rest inductionHypothesis =>
      rw [chainHistory, List.filterMap_append] at offered
      obtain ⟨next, step⟩ := orderly.step distinct op fun chainOp member share
        given => offered share (List.mem_append_left _
          (List.mem_filterMap.mpr ⟨chainOp, Option.mem_toList.mpr member, given⟩))
      intro later member
      rw [issuedWorks, List.mem_append] at member
      rcases member with now | afterwards
      · obtain ⟨workTemplate, published, derived⟩ :=
          orderly.issued distinct (Option.mem_toList.mp now)
        exact kept.succeeds distinct orderly.sessions published derived
      · exact inductionHypothesis next
          (fun share given => offered share (List.mem_append_right _ given))
          (kept.step step) later afterwards

/-- The works of a run follow one another, and it leaves the server in order. -/
theorem Orderly.run
    (distinct : DistinctShareIds backend shares)
    (ops : List StratumOp)
    (orderly : Orderly backend policy shares server)
    (offered :
      ∀ share ∈ (chainHistory backend ops server).filterMap ChainOp.share?,
        share ∈ shares) :
    (issuedWorks backend ops server).Pairwise Succeeds ∧
      Orderly backend policy shares (attemptStratum backend ops server) := by
  induction ops generalizing server with
  | nil => exact ⟨.nil, orderly⟩
  | cons op rest inductionHypothesis =>
      rw [chainHistory, List.filterMap_append] at offered
      obtain ⟨next, step⟩ := orderly.step distinct op fun chainOp member share
        given => offered share (List.mem_append_left _
          (List.mem_filterMap.mpr ⟨chainOp, Option.mem_toList.mpr member, given⟩))
      have later := fun share given =>
        offered share (List.mem_append_right _ given)
      obtain ⟨successive, final⟩ := inductionHypothesis next later
      refine ⟨?_, final⟩
      rw [issuedWorks]
      cases issued : op.issued? server with
      | none => exact successive
      | some work =>
          obtain ⟨workTemplate, published, derived⟩ :=
            orderly.issued distinct issued
          have newest := orderly.sessions.newest _ published
          have kept : Kept backend policy shares server.sessions work := by
            refine ⟨⟨workTemplate, derived⟩, ?_, ?_⟩
            · rw [derived.version]
              exact newest ▸ Nat.lt_succ_self _
            · intro other current _
              rw [published] at current
              cases current
              exact derived
          exact List.pairwise_cons.mpr
            ⟨issuedWorks_succeed distinct rest next later (kept.step step),
              successive⟩

end Runs

/-- The parts of a work agree with each other. -/
structure StratumIssuedWork.Consistent (work : StratumIssuedWork) : Prop where
  positive : 0 < work.shareDifficulty
  below : work.shareDifficulty ≤ work.trustedContext.networkDifficulty
  target :
    work.wireWork.shareTarget.bigEndian.toNat =
      (2 ^ 256 - 1) / work.shareDifficulty.toNat
  header : work.trustedContext.miningHeaderHash = work.wireWork.headerHash
  height : work.trustedContext.zanoHeight = work.wireWork.height

theorem Derived.consistent
    {backend : Backend}
    {policy : DifficultyPolicy}
    {shares : List Share}
    {workTemplate : StratumTemplate}
    {work : StratumIssuedWork}
    (derived : Derived backend policy shares workTemplate work) :
    work.Consistent := by
  obtain ⟨binding, line, target, from_⟩ := derived
  have aimed := from_.aimed
  rw [wireTarget_eq from_.positive] at aimed
  have sameTarget := Except.ok.inj aimed
  have fits :
      (2 ^ 256 - 1) / work.shareDifficulty.toNat < 2 ^ 256 :=
    lt_of_le_of_lt (Nat.div_le_self _ _) (by norm_num)
  have wire : work.wireWork.shareTarget = target := by
    rw [from_.derived]
    rfl
  refine ⟨?_, ?_, ?_, ?_, ?_⟩
  · exact (BitVec.pos_iff_ne_zero _).mpr from_.positive
  · rw [from_.derived]
    exact from_.below
  · rw [wire, ← sameTarget, BitVec.toNat_ofNat, Nat.mod_eq_of_lt fits]
  · rw [from_.derived]
    rfl
  · rw [from_.derived]
    rfl

/-- A configured server that has just been started is in order. -/
theorem StratumServer.Started.orderly
    {backend : Backend}
    {params : SidechainParameters}
    {start : StratumServer}
    (started : start.Started backend)
    (shared : start.sharedChain = true)
    (built : ShareChain.ofParameters backend params = .ok start.chain)
    (shares : List Share) :
    ∃ policy, Orderly backend policy shares start := by
  obtain ⟨policy, parameterId, chain⟩ := ShareChain.ofParameters_eq_ok built
  have wellFormed := started.chain.wellFormed
  obtain ⟨config, created⟩ := started.sessions
  have sessions : start.sessions = { config } := by
    unfold StratumSessionRegistry.create at created
    split_ifs at created
    exact (Except.ok.inj created).symm
  refine ⟨policy, shared, wellFormed.sound, wellFormed.trusted, ?_, ?_, ?_⟩
  · rw [chain]
  · rw [chain]
    constructor
    · intro id entry found
      cases found
    · intro id orphan found
      cases found
  · rw [sessions]
    constructor
    case newest =>
      intro workTemplate published
      cases published
    case sessions =>
      intro id session found
      cases found

/--
Over any run of a full node, works of one job version differ in their sessions only,
versions never decrease, and the works of a session are consistent and in order.
-/
theorem publishedTemplate_oneJob
    {backend : Backend}
    {params : SidechainParameters}
    {start : StratumServer}
    (started : start.Started backend)
    (shared : start.sharedChain = true)
    (built : ShareChain.ofParameters backend params = .ok start.chain)
    (ops : List StratumOp)
    (distinct :
      DistinctShareIds backend
        ((chainHistory backend ops start).filterMap ChainOp.share?)) :
    (issuedWorks backend ops start).Pairwise Succeeds ∧
      ∀ id session,
        (attemptStratum backend ops start).sessions.findSession id =
          some session →
        (∀ work, session.currentWork = some work → work.Consistent) ∧
        (∀ work, session.previousWork = some work → work.Consistent) ∧
        ∀ previous current,
          session.previousWork = some previous →
          session.currentWork = some current →
          previous.jobVersion < current.jobVersion := by
  obtain ⟨policy, orderly⟩ := started.orderly shared built
    ((chainHistory backend ops start).filterMap ChainOp.share?)
  obtain ⟨successive, final⟩ :=
    orderly.run distinct ops fun _ given => given
  refine ⟨successive, ?_⟩
  intro id session found
  obtain ⟨current, previous, ordered⟩ := final.sessions.sessions id session found
  refine ⟨?_, ?_, ordered⟩
  · intro work held
    obtain ⟨workTemplate, derived⟩ := (current work held).derived
    exact derived.consistent
  · intro work held
    obtain ⟨workTemplate, derived⟩ := (previous work held).derived
    exact derived.consistent

/-- The parent is pruned and admitted again before another miner asks for work. -/
def sampleReadmittedOps : List StratumOp :=
  sampleJobOps ++
    [ .chain (.prune 1)
    , .chain (.submit (sampleShare 0 0 0 1) sampleContext 1000 .light)
    , .createSession
    , .login 2
        { username := [0x6e], password := [], worker := [], requestedDifficulty := none }
    , .issueWork 2 ]

/-- Both miners are given the job of the template. -/
theorem publishedTemplate_oneJob_readmitted :
    (issuedWorks sampleBackend sampleReadmittedOps sampleStratum).map
        (fun work => (work.sessionId, work.jobVersion)) =
      [(1, 1), (2, 1)] ∧
    (issuedWorks sampleBackend sampleReadmittedOps sampleStratum).Pairwise
      Succeeds :=
  ⟨by decide +kernel,
    (publishedTemplate_oneJob sampleStratum_started rfl sampleStart_built
      sampleReadmittedOps (by decide +kernel)).1⟩

end ZanoP2pool
