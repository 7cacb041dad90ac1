import ResearchLedger.Json.Record
import ResearchLedger.Research.Basic
import ResearchLedger.Text.Decimal
/-!
Disciplines, groups, researches, contents and reviews as JSON. A map over disciplines is an object whose
names are their numbers in decimal.
-/

namespace ResearchLedger

open Json (required withDefault)

/-- The number of a discipline as the name of a member. -/
def disciplineKey (id : DisciplineId) : String := String.ofList (Decimal.ofNat id)

/-- The number that the name of a member stands for: a 64-bit numeral without superfluous zeros. -/
def disciplineOfKey? (s : String) : Option DisciplineId := do
  let n ← Decimal.natural? s.toList
  if n ≤ maxWord ∧ disciplineKey n = s then some n else none

/-- A map over disciplines as JSON. -/
def disciplineMap {α : Type} (value : α → Json) (m : SortedMap DisciplineId α) : Json :=
  .ofMap disciplineKey value m

/-- A set read from the array of its members. -/
def disciplineSet? (j : Json) : Option (SortedSet DisciplineId) :=
  SortedSet.ofKeys <$> Json.list? Json.word? j

namespace Discipline

def toJson (d : Discipline) : Json :=
  .object [
    ("id", .nat d.id),
    ("parent_id", .ofOption .nat d.parent),
    ("name", .string d.name),
    ("total_active_reward_weight", .nat d.activeWeight),
    ("total_active_research_reward_weight", .nat d.activeResearchWeight),
    ("total_active_review_reward_weight", .nat d.activeReviewWeight)]

def ofJson? (j : Json) : Option Discipline := do
  let [id, parent, name, activeWeight, activeResearchWeight, activeReviewWeight] ← j.fields?
    ["id", "parent_id", "name", "total_active_reward_weight",
      "total_active_research_reward_weight", "total_active_review_reward_weight"] | none
  return {
    id := ← required Json.word? id
    parent := ← withDefault none (Json.option? Json.word?) parent
    name := ← required Json.string? name
    activeWeight := ← required Json.word? activeWeight
    activeResearchWeight := ← required Json.word? activeResearchWeight
    activeReviewWeight := ← required Json.word? activeReviewWeight }

end Discipline

namespace ResearchGroup

def toJson (g : ResearchGroup) : Json :=
  .object [
    ("id", .nat g.id),
    ("name", .string g.name),
    ("permlink", .string g.permlink),
    ("description", .string g.description),
    ("quorum_percent", .nat g.quorumPercent),
    ("total_tokens", .nat g.totalTokens),
    ("balance", .int g.balance)]

def ofJson? (j : Json) : Option ResearchGroup := do
  let [id, name, permlink, description, quorumPercent, totalTokens, balance] ← j.fields?
    ["id", "name", "permlink", "description", "quorum_percent", "total_tokens", "balance"] | none
  return {
    id := ← required Json.word? id
    name := ← required Json.string? name
    permlink := ← required Json.string? permlink
    description := ← required Json.string? description
    quorumPercent := ← required Json.word16? quorumPercent
    totalTokens := ← required Json.word32? totalTokens
    balance := ← required Json.amount? balance }

end ResearchGroup

namespace Research

def toJson (r : Research) : Json :=
  .object [
    ("id", .nat r.id),
    ("research_group_id", .nat r.group),
    ("title", .string r.title),
    ("abstract_text", .string r.abstractText),
    ("permlink", .string r.permlink),
    ("owned_tokens", .nat r.ownedTokens),
    ("review_share_in_percent", .nat r.reviewSharePercent),
    ("disciplines", .ofList .nat (SortedSet.toList r.disciplines)),
    ("created_at", .nat r.created)]

def ofJson? (j : Json) : Option Research := do
  let [id, group, title, abstractText, permlink, ownedTokens, reviewSharePercent, disciplines,
    created] ← j.fields?
    ["id", "research_group_id", "title", "abstract_text", "permlink", "owned_tokens",
      "review_share_in_percent", "disciplines", "created_at"] | none
  return {
    id := ← required Json.word? id
    group := ← required Json.word? group
    title := ← required Json.string? title
    abstractText := ← required Json.string? abstractText
    permlink := ← required Json.string? permlink
    ownedTokens := ← required Json.word16? ownedTokens
    reviewSharePercent := ← required Json.word16? reviewSharePercent
    disciplines := ← required disciplineSet? disciplines
    created := ← required Json.word? created }

end Research

namespace ActivityState

/-- The word for each state. -/
def toWord : ActivityState → String
  | active => "active"
  | inactive => "inactive"

end ActivityState

namespace Content

def toJson (c : Content) : Json :=
  .object [
    ("id", .nat c.id),
    ("research_id", .nat c.research),
    ("content_type", c.type.toJson),
    ("title", .string c.title),
    ("content", .string c.text),
    ("permlink", .string c.permlink),
    ("authors", .ofList AccountName.toJson c.authors),
    ("references", .ofList .nat c.references),
    ("external_references", .ofList .string c.externalReferences),
    ("created_at", .nat c.created),
    ("activity_state", .string c.activity.toWord),
    ("activity_window_end", .nat c.activityEnd)]

end Content

namespace Review

def toJson (r : Review) : Json :=
  .object [
    ("id", .nat r.id),
    ("research_content_id", .nat r.content),
    ("author", r.author.toJson),
    ("content", .string r.text),
    ("is_positive", .bool r.isPositive),
    ("disciplines", .ofList .nat (SortedSet.toList r.disciplines)),
    ("references", .ofList .nat r.references),
    ("external_references", .ofList .string r.externalReferences),
    ("created_at", .nat r.created),
    ("reward_weights_per_discipline", disciplineMap .nat r.rewardWeights),
    ("curation_reward_weights_per_discipline", disciplineMap .nat r.curationWeights),
    ("weight_modifiers", disciplineMap .nat r.weightModifiers),
    ("expertise_amounts_used", disciplineMap .int r.expertiseUsed)]

def ofJson? (j : Json) : Option Review := do
  let [id, content, author, text, isPositive, disciplines, references, externalReferences, created,
    rewardWeights, curationWeights, weightModifiers, expertiseUsed] ← j.fields?
    ["id", "research_content_id", "author", "content", "is_positive", "disciplines", "references",
      "external_references", "created_at", "reward_weights_per_discipline",
      "curation_reward_weights_per_discipline", "weight_modifiers", "expertise_amounts_used"] | none
  return {
    id := ← required Json.word? id
    content := ← required Json.word? content
    author := ← required AccountName.ofJson? author
    text := ← required Json.string? text
    isPositive := ← required Json.bool? isPositive
    disciplines := ← required disciplineSet? disciplines
    references := ← required (Json.list? Json.word?) references
    externalReferences := ← required (Json.list? Json.string?) externalReferences
    created := ← required Json.word? created
    rewardWeights := ← required (Json.map? disciplineOfKey? Json.word?) rewardWeights
    curationWeights := ← required (Json.map? disciplineOfKey? Json.word?) curationWeights
    weightModifiers := ← required (Json.map? disciplineOfKey? Json.word32?) weightModifiers
    expertiseUsed := ← required (Json.map? disciplineOfKey? Json.amount?) expertiseUsed }

end Review

end ResearchLedger
