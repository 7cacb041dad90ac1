import ResearchLedger.AccountName
import ResearchLedger.Quantity
/-!
Votes on contents and reviews, and their running totals.
-/

namespace ResearchLedger

/-- A vote on a content in one discipline. -/
structure Vote where
  voter : AccountName
  discipline : DisciplineId
  research : ResearchId
  content : ContentId
  /-- The signed percentage that was asked for. -/
  percent : Int
  /-- The curator's weight after the reverse auction. -/
  weight : Nat
  usedPower : Nat
  tokens : Nat
  time : Seconds
deriving DecidableEq

/-- A vote on a review in one discipline. -/
structure ReviewVote where
  voter : AccountName
  discipline : DisciplineId
  review : ReviewId
  percent : Int
  weight : Nat
  usedPower : Nat
  tokens : Nat
  time : Seconds
deriving DecidableEq

/-- The running totals of the votes on a content in one discipline. The active totals are those of
the time in which the content is active, and fall to zero with it. -/
structure VoteTotals where
  content : ContentId
  discipline : DisciplineId
  research : ResearchId
  weight : Nat
  activeWeight : Nat
  researchWeight : Nat
  activeResearchWeight : Nat
  curatorsWeight : Nat
  activeCuratorsWeight : Nat
deriving DecidableEq

/-- The totals before the first vote. -/
def VoteTotals.fresh (content : ContentId) (discipline : DisciplineId) (research : ResearchId) :
    VoteTotals :=
  ⟨content, discipline, research, 0, 0, 0, 0, 0, 0⟩

end ResearchLedger
