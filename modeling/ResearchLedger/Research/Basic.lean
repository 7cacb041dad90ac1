import ResearchLedger.AccountName
import ResearchLedger.Quantity
/-!
Disciplines, research groups, their researches, and the contents and reviews these consist of.
-/

namespace ResearchLedger

/-- A field of expertise, with the total weights of what is rewarded in it. -/
structure Discipline where
  id : DisciplineId
  parent : Option DisciplineId
  name : String
  activeWeight : Nat
  activeResearchWeight : Nat
  activeReviewWeight : Nat
deriving DecidableEq

/-- A discipline in which nobody has voted. -/
def Discipline.fresh (id : DisciplineId) (parent : Option DisciplineId) (name : String) : Discipline :=
  ⟨id, parent, name, 0, 0, 0⟩

/-- A group of accounts that carries out researches. -/
structure ResearchGroup where
  id : GroupId
  name : String
  permlink : String
  description : String
  quorumPercent : Nat
  totalTokens : Nat
  balance : Amount
deriving DecidableEq

/-- A research of a group. -/
structure Research where
  id : ResearchId
  group : GroupId
  title : String
  abstractText : String
  permlink : String
  /-- The research tokens that the group has not given away. -/
  ownedTokens : Nat
  reviewSharePercent : Nat
  disciplines : SortedSet DisciplineId
  created : Seconds
deriving DecidableEq

/-- What kind of content a research publishes. -/
inductive ContentType where
  | announcement
  | milestone
  | finalResult
  | review
deriving DecidableEq

/-- Whether a content still earns rewards. -/
inductive ActivityState where
  | active
  | inactive
deriving DecidableEq

/-- A published content of a research. -/
structure Content where
  id : ContentId
  research : ResearchId
  type : ContentType
  title : String
  text : String
  permlink : String
  authors : List AccountName
  references : List ContentId
  externalReferences : List String
  created : Seconds
  activity : ActivityState
  activityEnd : Seconds
deriving DecidableEq

/-- Whether the content still earns rewards. -/
def Content.isActive (c : Content) : Bool := c.activity = .active

/-- A review of a content. -/
structure Review where
  id : ReviewId
  content : ContentId
  author : AccountName
  text : String
  isPositive : Bool
  disciplines : SortedSet DisciplineId
  references : List ContentId
  externalReferences : List String
  created : Seconds
  rewardWeights : SortedMap DisciplineId Nat
  curationWeights : SortedMap DisciplineId Nat
  /-- The factor of the review's weight by discipline, in hundredths of a percent. -/
  weightModifiers : SortedMap DisciplineId Nat
  /-- The expertise that stood behind a positive review. -/
  expertiseUsed : SortedMap DisciplineId Amount
deriving DecidableEq

end ResearchLedger
