/-!
Amounts, counters and times, with the ranges in which they are stored. Amounts are exact integers
and counters exact naturals; the operations here say what happens at the ends of the ranges.
-/

namespace ResearchLedger

/-- Money or tokens in the smallest unit; negative values are changes. -/
abbrev Amount := Int

/-- Seconds since the epoch, or a span of seconds. -/
abbrev Seconds := Nat

abbrev DisciplineId := Nat
abbrev ResearchId := Nat
abbrev ContentId := Nat
abbrev ReviewId := Nat
abbrev GroupId := Nat
abbrev GrantId := Nat
abbrev ProposalId := Nat

/-- The greatest stored counter, weight, identifier or time. -/
def maxWord : Nat := 0xFFFFFFFFFFFFFFFF

/-- The greatest number of group tokens. -/
def maxWord32 : Nat := 0xFFFFFFFF

/-- The greatest percentage or small counter that is stored. -/
def maxWord16 : Nat := 0xFFFF

/-- The greatest intermediate product. -/
def maxProduct : Nat := 0xFFFFFFFFFFFFFFFFFFFFFFFFFFFFFFFF

/-- What several quantities come to. -/
def total {α : Type} [Add α] [OfNat α 0] (l : List α) : α := l.foldr (· + ·) 0

/-- The time that never comes. -/
def never : Seconds := maxWord

/-- One hundred percent, counted in hundredths of a percent. -/
def wholePercent : Nat := 10000

/-- How many proxies a vote is carried up. -/
def maxProxyDepth : Nat := 4

/-- The discipline that every account's common tokens count in. -/
def commonDiscipline : DisciplineId := 0

namespace Amount

/-- The greatest stored amount. -/
def max : Amount := 0x7FFFFFFFFFFFFFFF

/-- The least stored amount. -/
def min : Amount := -0x8000000000000000

/-- Whether an amount can be stored. -/
def Fits (a : Amount) : Prop := min ≤ a ∧ a ≤ max

instance (a : Amount) : Decidable (Fits a) := inferInstanceAs (Decidable (_ ∧ _))

/-- The amount itself if it can be stored. -/
def checked? (a : Amount) : Option Amount := if Fits a then some a else none

/-- The nearest amount that can be stored. -/
def clamp (a : Amount) : Amount := if a < min then min else if max < a then max else a

end Amount

namespace Seconds

/-- The time `d` seconds after `t`; past the last time it is the last time. -/
def after (t d : Seconds) : Seconds := Nat.min (t + d) maxWord

end Seconds

end ResearchLedger
