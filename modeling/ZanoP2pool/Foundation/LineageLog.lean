import ZanoP2pool.Foundation.Lineage

namespace Foundation

/-!
# Logs of admitted and waiting items

Items arrive one by one.  An arriving item is logged when it is accepted on an
admitted lineage, and also when its parent has no lineage yet; an item refused
on arrival is not logged.  The log is later judged again by a weaker rule.  If
the weaker rule accepts no waiting item that the strict rule refuses, both
rules admit the same lineages.
-/

variable {Item Other Id : Type}

namespace Genealogy

/-- The same items judged by another acceptance rule. -/
def relaxed
    (genealogy : Genealogy Item Id)
    (loose : List Item → Item → Prop) :
    Genealogy Item Id :=
  { genealogy with accepts := loose }

/-- No admitted lineage ends at the parent of the item. -/
def Parentless
    (genealogy : Genealogy Item Id)
    (pool : Set Item)
    (item : Item) :
    Prop :=
  ∀ below,
    genealogy.Lineage pool below →
      genealogy.parentOf item ≠ genealogy.tip below

/-- The item is accepted on an admitted lineage. -/
def Admitted
    (genealogy : Genealogy Item Id)
    (pool : Set Item)
    (item : Item) :
    Prop :=
  ∃ below,
    genealogy.Lineage pool below ∧
    genealogy.parentOf item = genealogy.tip below ∧
    genealogy.accepts below item

/-- The items that arrived and the log they left behind. -/
inductive Logged
    (genealogy : Genealogy Item Id)
    (waits : Item → Prop) :
    Set Item → List Item → Prop where
  | empty :
      Logged genealogy waits ∅ []
  | refuse
      {pool : Set Item}
      {log : List Item}
      {item : Item} :
      Logged genealogy waits pool log →
      genealogy.Refused pool item →
      Logged genealogy waits (insert item pool) log
  | enter
      {pool : Set Item}
      {log : List Item}
      {item : Item} :
      Logged genealogy waits pool log →
      item ∉ pool →
      genealogy.Admitted pool item →
      Logged genealogy waits (insert item pool) (log ++ [item])
  | wait
      {pool : Set Item}
      {log : List Item}
      {item : Item} :
      Logged genealogy waits pool log →
      item ∉ pool →
      genealogy.Parentless pool item →
      waits item →
      Logged genealogy waits (insert item pool) (log ++ [item])

/-- An item stays admitted in a larger pool. -/
theorem Admitted.mono
    {genealogy : Genealogy Item Id}
    {pool larger : Set Item}
    (contained : pool ⊆ larger)
    {item : Item}
    (admitted : genealogy.Admitted pool item) :
    genealogy.Admitted larger item := by
  obtain ⟨below, lineage, parent, accepted⟩ := admitted
  exact ⟨below, lineage.mono contained, parent, accepted⟩

/-- An item cannot be both refused and admitted. -/
theorem Refused.not_admitted
    {genealogy : Genealogy Item Id}
    {pool : Set Item}
    (distinct : genealogy.Distinct pool)
    {item : Item}
    (refused : genealogy.Refused pool item) :
    ¬ genealogy.Admitted pool item := by
  obtain ⟨below, lineage, parent, rejected⟩ := refused
  rintro ⟨other, otherLineage, otherParent, accepted⟩
  have same : other = below :=
    otherLineage.unique distinct lineage (otherParent.symm.trans parent)
  exact rejected (same ▸ accepted)

/-- A parentless item starts no new lineage. -/
theorem Lineage.of_insert
    {genealogy : Genealogy Item Id}
    {pool : Set Item}
    {item : Item}
    (parentless : genealogy.Parentless pool item)
    {path : List Item}
    (lineage : genealogy.Lineage (insert item pool) path) :
    genealogy.Lineage pool path := by
  induction lineage with
  | root => exact .root
  | extend _ member parent accepted inductionHypothesis =>
      rcases member with rfl | member
      · exact (parentless _ inductionHypothesis parent).elim
      · exact .extend inductionHypothesis member parent accepted

/-- A parentless item stays parentless when it is added itself. -/
theorem Parentless.insert
    {genealogy : Genealogy Item Id}
    {pool : Set Item}
    {item : Item}
    (parentless : genealogy.Parentless pool item) :
    genealogy.Parentless (insert item pool) item :=
  fun below lineage =>
    parentless below (lineage.of_insert parentless)

/-- Every item of a lineage is admitted. -/
theorem Lineage.admitted
    {genealogy : Genealogy Item Id}
    {pool : Set Item}
    {path : List Item}
    (lineage : genealogy.Lineage pool path) :
    ∀ item ∈ path, item ∈ pool ∧ genealogy.Admitted pool item := by
  induction lineage with
  | root => simp
  | @extend item below belowLineage member parent accepted
      inductionHypothesis =>
      intro other inPath
      rcases List.mem_cons.mp inPath with rfl | deeper
      · exact ⟨member, below, belowLineage, parent, accepted⟩
      · exact inductionHypothesis other deeper

end Genealogy

namespace Genealogy.Logged

variable {genealogy : Genealogy Item Id} {waits : Item → Prop}
variable {pool : Set Item} {log : List Item}

/-- Logged items arrived. -/
theorem mem
    (logged : genealogy.Logged waits pool log) :
    ∀ item ∈ log, item ∈ pool := by
  induction logged with
  | empty => simp
  | refuse _ _ inductionHypothesis =>
      exact fun item member => .inr (inductionHypothesis item member)
  | enter _ _ _ inductionHypothesis =>
      intro item member
      rcases List.mem_append.mp member with earlier | last
      · exact .inr (inductionHypothesis item earlier)
      · exact .inl (List.mem_singleton.mp last)
  | wait _ _ _ _ inductionHypothesis =>
      intro item member
      rcases List.mem_append.mp member with earlier | last
      · exact .inr (inductionHypothesis item earlier)
      · exact .inl (List.mem_singleton.mp last)

/-- Items that arrived are logged or refused. -/
theorem logged_or_refused
    (logged : genealogy.Logged waits pool log) :
    ∀ item ∈ pool, item ∈ log ∨ genealogy.Refused pool item := by
  induction logged with
  | empty => simp
  | @refuse pool log item _ refused inductionHypothesis =>
      have contained := Set.subset_insert item pool
      rintro other (rfl | member)
      · exact .inr (refused.mono contained)
      · exact (inductionHypothesis other member).imp_right
          (Refused.mono contained)
  | @enter pool log item _ _ _ inductionHypothesis =>
      rintro other (rfl | member)
      · exact .inl (by simp)
      · exact (inductionHypothesis other member).imp
          (fun earlier => List.mem_append_left _ earlier)
          (Refused.mono (Set.subset_insert item pool))
  | @wait pool log item _ _ _ _ inductionHypothesis =>
      rintro other (rfl | member)
      · exact .inl (by simp)
      · exact (inductionHypothesis other member).imp
          (fun earlier => List.mem_append_left _ earlier)
          (Refused.mono (Set.subset_insert item pool))

/-- No item is logged twice. -/
theorem nodup
    (logged : genealogy.Logged waits pool log) :
    log.Nodup := by
  induction logged with
  | empty => exact List.nodup_nil
  | refuse _ _ inductionHypothesis => exact inductionHypothesis
  | enter earlier fresh _ inductionHypothesis =>
      exact inductionHypothesis.append (List.nodup_singleton _) (by
        rw [List.disjoint_singleton]
        exact fun member => fresh (earlier.mem _ member))
  | wait earlier fresh _ _ inductionHypothesis =>
      exact inductionHypothesis.append (List.nodup_singleton _) (by
        rw [List.disjoint_singleton]
        exact fun member => fresh (earlier.mem _ member))

/-- Every logged item was judged on arrival: admitted, or it waited. -/
theorem admitted_or_waits
    (logged : genealogy.Logged waits pool log) :
    ∀ item ∈ log, genealogy.Admitted pool item ∨ waits item := by
  induction logged with
  | empty => simp
  | @refuse pool log item _ _ inductionHypothesis =>
      exact fun other member =>
        (inductionHypothesis other member).imp_left
          (Admitted.mono (Set.subset_insert item pool))
  | @enter pool log item _ _ admitted inductionHypothesis =>
      have contained := Set.subset_insert item pool
      intro other member
      rcases List.mem_append.mp member with earlier | last
      · exact (inductionHypothesis other earlier).imp_left
          (Admitted.mono contained)
      · rw [List.mem_singleton.mp last]
        exact .inl (admitted.mono contained)
  | @wait pool log item _ _ _ waiting inductionHypothesis =>
      intro other member
      rcases List.mem_append.mp member with earlier | last
      · exact (inductionHypothesis other earlier).imp_left
          (Admitted.mono (Set.subset_insert item pool))
      · rw [List.mem_singleton.mp last]
        exact .inr waiting

/-- The state of the pool and the log when a logged item arrived. -/
theorem split
    (logged : genealogy.Logged waits pool log)
    {before after : List Item}
    {item : Item}
    (shape : log = before ++ item :: after) :
    ∃ earlier,
      earlier ⊆ pool ∧
      genealogy.Logged waits earlier before ∧
      (genealogy.Admitted earlier item ∨
        genealogy.Parentless earlier item) := by
  -- The last logged item is the one asked for, or it belongs to the rest.
  have lastOrEarlier :
      ∀ {earlierLog after : List Item} {last : Item},
        earlierLog ++ [last] = before ++ item :: after →
          (earlierLog = before ∧ last = item) ∨
            ∃ rest, earlierLog = before ++ item :: rest := by
    intro earlierLog after last same
    rcases List.eq_nil_or_concat after with rfl | ⟨rest, final, rfl⟩
    · obtain ⟨sameLog, sameLast⟩ := List.append_inj_left' same rfl,
        List.append_inj_right' same rfl
      exact .inl ⟨sameLog, by simpa using sameLast⟩
    · rw [List.concat_eq_append, ← List.cons_append, ← List.append_assoc]
        at same
      exact .inr ⟨rest, List.append_inj_left' same rfl⟩
  induction logged generalizing after with
  | empty => simp at shape
  | @refuse pool log refusedItem _ _ inductionHypothesis =>
      obtain ⟨earlier, contained, earlierLogged, judged⟩ :=
        inductionHypothesis shape
      exact ⟨earlier, contained.trans (Set.subset_insert refusedItem pool),
        earlierLogged, judged⟩
  | @enter pool log last earlierLogged _ admitted inductionHypothesis =>
      rcases lastOrEarlier shape with ⟨rfl, rfl⟩ | ⟨rest, inEarlier⟩
      · exact ⟨pool, Set.subset_insert last pool, earlierLogged,
          .inl admitted⟩
      · obtain ⟨earlier, contained, found, judged⟩ :=
          inductionHypothesis inEarlier
        exact ⟨earlier, contained.trans (Set.subset_insert last pool), found,
          judged⟩
  | @wait pool log last earlierLogged _ parentless _ inductionHypothesis =>
      rcases lastOrEarlier shape with ⟨rfl, rfl⟩ | ⟨rest, inEarlier⟩
      · exact ⟨pool, Set.subset_insert last pool, earlierLogged,
          .inr parentless⟩
      · obtain ⟨earlier, contained, found, judged⟩ :=
          inductionHypothesis inEarlier
        exact ⟨earlier, contained.trans (Set.subset_insert last pool), found,
          judged⟩

section Relaxed

variable {loose : List Item → Item → Prop}
variable (weaker : ∀ below item, genealogy.accepts below item → loose below item)

/-- The items of a log as a set. -/
abbrev logPool (log : List Item) : Set Item := { item | item ∈ log }

include weaker in
/-- A lineage of the strict rule is one of the weaker rule over the log. -/
theorem relax
    (logged : genealogy.Logged waits pool log)
    (distinct : genealogy.Distinct pool)
    {path : List Item}
    (lineage : genealogy.Lineage pool path) :
    (genealogy.relaxed loose).Lineage (logPool log) path := by
  induction lineage with
  | root => exact .root
  | @extend item below belowLineage member parent accepted
      inductionHypothesis =>
      have inLog : item ∈ log :=
        (logged.logged_or_refused item member).resolve_right fun refused =>
          refused.not_admitted distinct
            ⟨below, belowLineage, parent, accepted⟩
      exact .extend inductionHypothesis inLog parent
        (weaker below item accepted)

/-- Waiting items that the weaker rule accepts satisfy the strict rule. -/
def WaitersComply
    (genealogy : Genealogy Item Id)
    (waits : Item → Prop)
    (loose : List Item → Item → Prop)
    (pool : Set Item) :
    Prop :=
  ∀ item, waits item → ∀ below,
    genealogy.Lineage pool below →
    genealogy.parentOf item = genealogy.tip below →
    loose below item →
      genealogy.accepts below item

/-- With compliant waiters the weaker rule admits nothing new. -/
theorem restrict
    (logged : genealogy.Logged waits pool log)
    (distinct : genealogy.Distinct pool)
    (comply : WaitersComply genealogy waits loose pool)
    {path : List Item}
    (lineage : (genealogy.relaxed loose).Lineage (logPool log) path) :
    genealogy.Lineage pool path := by
  induction lineage with
  | root => exact .root
  | @extend item below _ member parent accepted inductionHypothesis =>
      refine .extend inductionHypothesis (logged.mem item member) parent ?_
      rcases logged.admitted_or_waits item member with admitted | waiting
      · obtain ⟨other, otherLineage, otherParent, strictly⟩ := admitted
        have same : other = below :=
          otherLineage.unique distinct inductionHypothesis
            (otherParent.symm.trans parent)
        exact same ▸ strictly
      · exact comply item waiting below inductionHypothesis parent accepted

include weaker in
/-- With compliant waiters no logged item is refused when it is replayed. -/
theorem replayed_not_refused
    (logged : genealogy.Logged waits pool log)
    (distinct : genealogy.Distinct pool)
    (comply : WaitersComply genealogy waits loose pool)
    {before after : List Item}
    {item : Item}
    (shape : log = before ++ item :: after) :
    ¬ (genealogy.relaxed loose).Refused (logPool before) item := by
  obtain ⟨earlier, contained, earlierLogged, judged⟩ := logged.split shape
  have earlierDistinct := distinct.subset contained
  have earlierComply : WaitersComply genealogy waits loose earlier :=
    fun other waiting below lineage =>
      comply other waiting below (lineage.mono contained)
  rintro ⟨below, lineage, parent, rejected⟩
  have strictLineage :=
    earlierLogged.restrict earlierDistinct earlierComply lineage
  rcases judged with ⟨other, otherLineage, otherParent, accepted⟩ | parentless
  · have same : other = below :=
      otherLineage.unique earlierDistinct strictLineage
        (otherParent.symm.trans parent)
    exact rejected (weaker below item (same ▸ accepted))
  · exact parentless below strictLineage parent

end Relaxed

end Genealogy.Logged

namespace Genealogy

/-- A map of items that keeps identities, parents and judgements. -/
structure Carries
    (source : Genealogy Item Id)
    (target : Genealogy Other Id)
    (carry : Item → Other) :
    Prop where
  idOf : ∀ item, target.idOf (carry item) = source.idOf item
  parentOf : ∀ item, target.parentOf (carry item) = source.parentOf item
  root : target.root = source.root
  accepts :
    ∀ below item,
      target.accepts (below.map carry) (carry item) ↔
        source.accepts below item

namespace Carries

variable {source : Genealogy Item Id} {target : Genealogy Other Id}
variable {carry : Item → Other} {pool : Set Item}

theorem tip_map
    (carries : Carries source target carry)
    (path : List Item) :
    target.tip (path.map carry) = source.tip path := by
  cases path with
  | nil => exact carries.root
  | cons item below => exact carries.idOf item

/-- A lineage is carried to a lineage of the carried pool. -/
theorem lineage_map
    (carries : Carries source target carry)
    {path : List Item}
    (lineage : source.Lineage pool path) :
    target.Lineage (Set.image carry pool) (path.map carry) := by
  induction lineage with
  | root => exact .root
  | @extend item below _ member parent accepted inductionHypothesis =>
      refine .extend inductionHypothesis ⟨item, member, rfl⟩ ?_
        ((carries.accepts below item).mpr accepted)
      rw [carries.parentOf, carries.tip_map, parent]

/-- Every lineage of the carried pool comes from one of the pool. -/
theorem lineage_of_map
    (carries : Carries source target carry)
    {carried : List Other}
    (lineage : target.Lineage (Set.image carry pool) carried) :
    ∃ path, carried = path.map carry ∧ source.Lineage pool path := by
  induction lineage with
  | root => exact ⟨[], rfl, .root⟩
  | extend _ member parent accepted inductionHypothesis =>
      obtain ⟨below, rfl, belowLineage⟩ := inductionHypothesis
      obtain ⟨item, itemMember, rfl⟩ := member
      rw [carries.parentOf, carries.tip_map] at parent
      exact ⟨item :: below, rfl, .extend belowLineage itemMember parent
        ((carries.accepts below item).mp accepted)⟩

/-- A carried item is refused exactly when the item is. -/
theorem refused_map
    (carries : Carries source target carry)
    {item : Item} :
    target.Refused (Set.image carry pool) (carry item) ↔
      source.Refused pool item := by
  constructor
  · rintro ⟨carried, lineage, parent, rejected⟩
    obtain ⟨below, rfl, belowLineage⟩ := carries.lineage_of_map lineage
    rw [carries.parentOf, carries.tip_map] at parent
    exact ⟨below, belowLineage, parent, fun accepted =>
      rejected ((carries.accepts below item).mpr accepted)⟩
  · rintro ⟨below, lineage, parent, rejected⟩
    refine ⟨below.map carry, carries.lineage_map lineage, ?_, ?_⟩
    · rw [carries.parentOf, carries.tip_map, parent]
    · exact fun accepted =>
        rejected ((carries.accepts below item).mp accepted)

end Carries

end Genealogy

end Foundation
