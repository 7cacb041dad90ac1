import ResearchLedger.Proofs.Bystander
import ResearchLedger.Proofs.VotePlans
import ResearchLedger.Proofs.VoteSums

/-! Votes on contents by different accounts commute, but for what their curators earn when they meet on
one content in one discipline. -/
namespace ResearchLedger

variable {s s' : State} {l l' la lb lab lba : Ledger} {config : Config} {genesis : Genesis}

namespace SortedMap

variable {κ α : Type} [KeyOrder κ] [DecidableEq κ] {m : SortedMap κ α} {k k' : κ} {v v' w w' : α}

theorem insert_insert : (m.insert k v).insert k w = m.insert k w :=
  ext_get? fun j => by simp only [get?_insert]; split <;> rfl

theorem insert_comm (h : k ≠ k') : (m.insert k v).insert k' w = (m.insert k' w).insert k v := by
  refine ext_get? fun j => ?_
  rcases eq_or_ne k j with rfl | hk
  · simp only [get?_insert, if_true, if_neg h.symm]
  · simp only [get?_insert, if_neg hk]

theorem modify_comm {f g : α → α} (h : k ≠ k') :
    (m.modify k f).modify k' g = (m.modify k' g).modify k f := by
  refine ext_get? fun j => ?_
  rcases eq_or_ne k j with rfl | hk
  · simp only [get?_modify, if_true, if_neg h.symm]
  · simp only [get?_modify, if_neg hk]

theorem modify_insert_self {f : α → α} : (m.insert k v).modify k f = m.insert k (f v) := by
  rw [modify_of_some get?_insert_self, insert_insert]

theorem modify_insert_of_ne {f : α → α} (h : k ≠ k') :
    (m.insert k v).modify k' f = (m.modify k' f).insert k v := by
  refine ext_get? fun j => ?_
  rcases eq_or_ne k j with rfl | hk
  · simp only [get?_insert, get?_modify, if_true, if_neg h.symm]
  · simp only [get?_insert, get?_modify, if_neg hk]

/-- Two writes may change places if each writes the same in both places, or if they meet and the later one
writes the same. -/
theorem insert_swap (hne : k ≠ k' → v' = v ∧ w' = w) (heq : k = k' → w' = v') :
    (m.insert k v).insert k' w' = (m.insert k' w).insert k v' := by
  by_cases h : k = k'
  · subst h
    rw [insert_insert, insert_insert, heq rfl]
  · obtain ⟨rfl, rfl⟩ := hne h
    exact insert_comm h

end SortedMap

open SortedMap

theorem Discipline.raise_comm (d : Discipline) (t t' r r' : Nat) (active active' : Bool) :
    (d.raise t r active).raise t' r' active' = (d.raise t' r' active').raise t r active := by
  cases active <;> cases active' <;> simp [raise, Nat.add_right_comm]

/-- The totals without what the curators have. -/
def VoteTotals.blurred (t : VoteTotals) : VoteTotals :=
  { t with curatorsWeight := 0, activeCuratorsWeight := 0 }

/-- The vote without its weight. -/
def Vote.blurred (v : Vote) : Vote := { v with weight := 0 }

theorem VoteTotals.blurred_raise_raise (t : VoteTotals) (x x' r r' c c' d d' : Nat) (active : Bool) :
    ((t.raise x r c active).raise x' r' c' active).blurred =
      ((t.raise x' r' d active).raise x r d' active).blurred := by
  cases active <;> simp [raise, blurred, Nat.add_right_comm]

namespace Ledger

/-- The ledger without the weights of two voters' votes on a content in a discipline, and without what
the curators have there. -/
def blurred (l : Ledger) (k : ContentId × DisciplineId) (n m : AccountName) : Ledger :=
  { l with state := { l.state with
      voteTotals := l.state.voteTotals.modify k VoteTotals.blurred
      votes := l.state.votes.modify k fun vs =>
        (vs.modify n Vote.blurred).modify m Vote.blurred } }

/-- The ledger with other contents of the stores that votes on contents write. -/
def withVotes (l : Ledger) (expertTokens : SortedMap AccountName (SortedMap DisciplineId ExpertToken))
    (disciplines : SortedMap DisciplineId Discipline)
    (voteTotals : SortedMap (ContentId × DisciplineId) VoteTotals)
    (votes : SortedMap (ContentId × DisciplineId) (SortedMap AccountName Vote)) (activeWeight : Nat) :
    Ledger :=
  { state := { l.state with expertTokens, disciplines, voteTotals, votes }
    head := { l.head with activeWeight } }

theorem blurred_withVotes {expertTokens : SortedMap AccountName (SortedMap DisciplineId ExpertToken)}
    {disciplines : SortedMap DisciplineId Discipline}
    {voteTotals : SortedMap (ContentId × DisciplineId) VoteTotals}
    {votes : SortedMap (ContentId × DisciplineId) (SortedMap AccountName Vote)} {activeWeight : Nat}
    {k : ContentId × DisciplineId} {n m : AccountName} :
    (l.withVotes expertTokens disciplines voteTotals votes activeWeight).blurred k n m =
      l.withVotes expertTokens disciplines (voteTotals.modify k VoteTotals.blurred)
        (votes.modify k fun vs => (vs.modify n Vote.blurred).modify m Vote.blurred) activeWeight := rfl

end Ledger

namespace ContentVotePlan

variable {p : ContentVotePlan} {c : Content} {k : ContentId × DisciplineId}

theorem expertTokens_commit (p : ContentVotePlan) (l : Ledger) : (p.commit l).state.expertTokens =
    l.state.expertTokens.modify p.vote.voter (·.modify p.vote.discipline fun t =>
      { t with votingPower := p.remainingPower, lastVoteTime := l.head.time }) := rfl

/-- Two votes write to four stores and to the total weight, and nowhere else. -/
theorem commit_commit (p q : ContentVotePlan) (l : Ledger) : q.commit (p.commit l) =
    l.withVotes (q.commit (p.commit l)).state.expertTokens (q.commit (p.commit l)).state.disciplines
      (q.commit (p.commit l)).state.voteTotals (q.commit (p.commit l)).state.votes
      (q.commit (p.commit l)).head.activeWeight := rfl

theorem totalsBefore_commit : (p.commit l).state.totalsBefore c k =
    if p.key = k then p.totals else l.state.totalsBefore c k := by
  unfold State.totalsBefore
  rw [voteTotals_commit, get?_insert]
  split <;> rfl

theorem Casts.disciplines_commit {d : Discipline} {reward : Nat} (h : p.Casts l c d reward)
    (hs : l.state.Linked) :
    (p.commit l).state.disciplines = l.state.disciplines.insert p.key.2 p.discipline := by
  have hid : p.discipline.id = p.key.2 := by
    rw [h.raised]
    exact hs.disciplines _ d h.discipline
  rw [← hid]
  rfl

end ContentVotePlan

namespace VoteForContent

variable {op a b : VoteForContent} {p p' q q' : ContentVotePlan}

/-- An operation that votes has a plan, and carries it out. -/
theorem exists_plan {events : List Event}
    (h : (Operation.voteForContent op).apply l = (.ok events, l')) :
    ∃ p, op.plan l.head l.state = .ok p ∧ l' = p.commit l := by
  cases Operation.effect_of_run (LedgerM.apply_ok h) with
  | voteForContent hp => exact ⟨_, hp, rfl⟩

/-- What is written down of a vote comes from the operation, its content, the token and the time. -/
theorem vote_eq {c : Content} {d : Discipline} {reward : Nat} (h : op.plan l.head l.state = .ok p)
    (hcast : p.Casts l c d reward) : p.vote = ⟨op.voter, op.discipline, c.research, op.content,
      op.weight, p.vote.weight, p.use.used, p.use.tokens, l.head.time⟩ := by
  obtain ⟨_, _, _, -, hvoter, hkey⟩ := plan_ok h
  obtain ⟨hplanned, hpercent⟩ := plan_planned h
  rw [← hvoter, ← hpercent, ← hplanned.time, ← hcast.research,
    ← show p.vote.content = op.content from congrArg Prod.fst hkey,
    ← show p.vote.discipline = op.discipline from congrArg Prod.snd hkey]
  rfl

/-- The same vote, planned before and after another account's vote: it takes the same of its token, and
weighs the same unless the other vote was for the same content in the same discipline. -/
structure Replanned (op : VoteForContent) (p p' : ContentVotePlan) (l l' : Ledger) (c : Content)
    (d d' : Discipline) (reward : Nat) : Prop where
  before : p.Casts l c d reward
  after : p'.Casts l' c d' reward
  voter : p.vote.voter = op.voter
  key : p.key = (op.content, op.discipline)
  key_eq : p'.key = p.key
  use_eq : p'.use = p.use
  blurred_eq : p'.vote.blurred = p.vote.blurred
  vote_eq : l'.state.totalsBefore c p.key = l.state.totalsBefore c p.key → p'.vote = p.vote

theorem replanned (hp : op.plan l.head l.state = .ok p) (hp' : op.plan l'.head l'.state = .ok p')
    (hcontents : l'.state.contents = l.state.contents) (hconfig : l'.state.config = l.state.config)
    (htoken : l'.state.expertToken? op.voter op.discipline =
      l.state.expertToken? op.voter op.discipline) (htime : l'.head.time = l.head.time) :
    ∃ c d d' reward, Replanned op p p' l l' c d d' reward := by
  obtain ⟨c, d, reward, hcast, hvoter, hkey⟩ := plan_ok hp
  obtain ⟨c', d', reward', hcast', hvoter', hkey'⟩ := plan_ok hp'
  obtain ⟨hplanned, hpercent⟩ := plan_planned hp
  obtain ⟨hplanned', hpercent'⟩ := plan_planned hp'
  have hkeys : p'.key = p.key := hkey'.trans hkey.symm
  obtain rfl : c' = c := by
    have hc := hcast'.content
    rw [hcontents, hkeys, hcast.content] at hc
    exact (Option.some.inj hc).symm
  have huse : p'.use = p.use := by
    have hbacked := hplanned'.backed
    have hdiscipline : p.vote.discipline = op.discipline := congrArg Prod.snd hkey
    have hdiscipline' : p'.vote.discipline = op.discipline := congrArg Prod.snd hkey'
    rw [hvoter', hdiscipline', hpercent', htime] at hbacked
    have hold := hplanned.backed
    rw [hvoter, hdiscipline, hpercent] at hold
    exact hbacked.unique (hold.congr htoken hconfig)
  have htokens : p'.vote.tokens = p.vote.tokens := congrArg PowerUse.tokens huse
  obtain rfl : reward' = reward := by
    have hcurve := hcast'.curve
    rw [htokens, hcast.curve] at hcurve
    exact (Except.ok.inj hcurve).symm
  have hvote := vote_eq hp hcast
  have hvote' := vote_eq hp' hcast'
  rw [huse, htime] at hvote'
  refine ⟨c', d, d', reward', hcast, hcast', hvoter, hkey, hkeys, huse, ?_, fun hbefore => ?_⟩
  · rw [hvote, hvote']
    rfl
  · have hweight : p'.totals.weight = p.totals.weight := by
      rw [hcast.totals, hcast'.totals, hkeys, hbefore, htokens]
      rfl
    obtain ⟨x, growth, hx, hgrowth, hearned⟩ := hplanned.earns
    obtain ⟨x', growth', hx', hgrowth', hearned'⟩ := hplanned'.earns
    obtain rfl := Option.some.inj (hx.symm.trans hcast.content)
    obtain rfl := Option.some.inj (hx'.symm.trans hcast'.content)
    rw [hweight, htokens, hgrowth] at hgrowth'
    obtain rfl := Except.ok.inj hgrowth'
    rw [hplanned'.time, htime, hconfig, ← hplanned.time, ← hearned] at hearned'
    rw [hvote', hearned', ← hvote]

/-- Two votes by different accounts, in both orders: `p` and then `q'`, or `q` and then `p'`. -/
structure BothOrders (a b : VoteForContent) (p p' q q' : ContentVotePlan) (l : Ledger) : Prop where
  linked : l.state.Linked
  ne : a.voter ≠ b.voter
  first : ∃ c d d' reward, Replanned a p p' l (q.commit l) c d d' reward
  second : ∃ c d d' reward, Replanned b q q' l (p.commit l) c d d' reward

namespace Replanned

variable {c : Content} {d d' : Discipline} {reward : Nat}

theorem voter_eq (h : Replanned op p p' l l' c d d' reward) : p'.vote.voter = p.vote.voter := by
  exact (congrArg Vote.voter h.blurred_eq :)

theorem tokens_eq (h : Replanned op p p' l l' c d d' reward) : p'.vote.tokens = p.vote.tokens :=
  congrArg PowerUse.tokens h.use_eq

theorem discipline_eq (h : Replanned op p p' l l' c d d' reward) :
    p'.discipline = d'.raise p.vote.tokens reward c.isActive := by
  rw [h.after.raised, h.tokens_eq]

theorem totals_eq (h : Replanned op p p' l l' c d d' reward) : p'.totals =
    (l'.state.totalsBefore c p.key).raise p.vote.tokens reward p'.vote.weight c.isActive := by
  rw [h.after.totals, h.tokens_eq, h.key_eq]

end Replanned

namespace BothOrders

open ContentVotePlan

theorem swap (h : BothOrders a b p p' q q' l) : BothOrders b a q q' p p' l :=
  ⟨h.linked, h.ne.symm, h.second, h.first⟩

theorem expertTokens_eq (h : BothOrders a b p p' q q' l) :
    (q'.commit (p.commit l)).state.expertTokens = (p'.commit (q.commit l)).state.expertTokens := by
  obtain ⟨ca, da, da', ra, ha⟩ := h.first
  obtain ⟨cb, db, db', rb, hb⟩ := h.second
  have hne : p.vote.voter ≠ q.vote.voter := by
    rw [ha.voter, hb.voter]
    exact h.ne
  have hp : p'.vote.discipline = p.vote.discipline := congrArg Prod.snd ha.key_eq
  have hq : q'.vote.discipline = q.vote.discipline := congrArg Prod.snd hb.key_eq
  have hpower : p'.remainingPower = p.remainingPower := congrArg PowerUse.remaining ha.use_eq
  have hpower' : q'.remainingPower = q.remainingPower := congrArg PowerUse.remaining hb.use_eq
  simp only [expertTokens_commit, ha.voter_eq, hb.voter_eq, hp, hq, hpower, hpower']
  exact modify_comm hne

/-- A discipline of both votes is raised by both. -/
theorem disciplines_eq (h : BothOrders a b p p' q q' l) :
    (q'.commit (p.commit l)).state.disciplines = (p'.commit (q.commit l)).state.disciplines := by
  obtain ⟨ca, da, da', ra, ha⟩ := h.first
  obtain ⟨cb, db, db', rb, hb⟩ := h.second
  have hda := ha.after.discipline
  have hdb := hb.after.discipline
  rw [ha.key_eq, hb.before.disciplines_commit h.linked, get?_insert] at hda
  rw [hb.key_eq, ha.before.disciplines_commit h.linked, get?_insert] at hdb
  rw [hb.after.disciplines_commit (ha.before.linked h.linked), ha.before.disciplines_commit h.linked,
    ha.after.disciplines_commit (hb.before.linked h.linked), hb.before.disciplines_commit h.linked,
    ha.key_eq, hb.key_eq]
  refine insert_swap (fun hne => ?_) fun heq => ?_
  · rw [if_neg hne.symm, ha.before.discipline] at hda
    rw [if_neg hne, hb.before.discipline] at hdb
    obtain rfl := Option.some.inj hda
    obtain rfl := Option.some.inj hdb
    exact ⟨ha.discipline_eq.trans ha.before.raised.symm, hb.discipline_eq.trans hb.before.raised.symm⟩
  · rw [if_pos heq.symm] at hda
    rw [if_pos heq] at hdb
    have hsame : da = db := by
      have := ha.before.discipline
      rw [heq, hb.before.discipline] at this
      exact (Option.some.inj this).symm
    rw [ha.discipline_eq, hb.discipline_eq, ← Option.some.inj hda, ← Option.some.inj hdb,
      ha.before.raised, hb.before.raised, hsame]
    exact Discipline.raise_comm ..

theorem activeWeight_eq (h : BothOrders a b p p' q q' l) :
    (q'.commit (p.commit l)).head.activeWeight = (p'.commit (q.commit l)).head.activeWeight := by
  obtain ⟨ca, da, da', ra, ha⟩ := h.first
  obtain ⟨cb, db, db', rb, hb⟩ := h.second
  have hp := ha.after.activeWeight
  have hq := hb.after.activeWeight
  rw [ha.tokens_eq] at hp
  rw [hb.tokens_eq] at hq
  change q'.activeWeight = p'.activeWeight
  change p'.activeWeight = if ca.isActive then q.activeWeight + _ else q.activeWeight at hp
  change q'.activeWeight = if cb.isActive then p.activeWeight + _ else p.activeWeight at hq
  rw [hp, hq, ha.before.activeWeight, hb.before.activeWeight]
  cases ca.isActive <;> cases cb.isActive <;> simp [Nat.add_right_comm]

section Apart

/-- Votes that do not meet find the totals that they would find without each other. -/
theorem vote_eq (h : BothOrders a b p p' q q' l) (hne : p.key ≠ q.key) :
    p'.vote = p.vote ∧ p'.totals = p.totals := by
  obtain ⟨ca, da, da', ra, ha⟩ := h.first
  have hbefore : (q.commit l).state.totalsBefore ca p.key = l.state.totalsBefore ca p.key := by
    rw [totalsBefore_commit, if_neg hne.symm]
  have hvote := ha.vote_eq hbefore
  exact ⟨hvote, by rw [ha.totals_eq, hbefore, hvote, ha.before.totals]⟩

theorem voteTotals_eq (h : BothOrders a b p p' q q' l) (hne : p.key ≠ q.key) :
    (q'.commit (p.commit l)).state.voteTotals = (p'.commit (q.commit l)).state.voteTotals := by
  obtain ⟨ca, da, da', ra, ha⟩ := h.first
  obtain ⟨cb, db, db', rb, hb⟩ := h.second
  simp only [voteTotals_commit, ha.key_eq, hb.key_eq, (h.vote_eq hne).2, (h.swap.vote_eq hne.symm).2]
  exact insert_comm hne

theorem votes_eq (h : BothOrders a b p p' q q' l) (hne : p.key ≠ q.key) :
    (q'.commit (p.commit l)).state.votes = (p'.commit (q.commit l)).state.votes := by
  obtain ⟨ca, da, da', ra, ha⟩ := h.first
  obtain ⟨cb, db, db', rb, hb⟩ := h.second
  simp only [votes_commit, ha.key_eq, hb.key_eq, (h.vote_eq hne).1, (h.swap.vote_eq hne.symm).1,
    getD_insert_of_ne hne, getD_insert_of_ne hne.symm]
  exact insert_comm hne

end Apart

section Together

theorem blurred_totals_eq (h : BothOrders a b p p' q q' l) (heq : p.key = q.key) :
    q'.totals.blurred = p'.totals.blurred := by
  obtain ⟨ca, da, da', ra, ha⟩ := h.first
  obtain ⟨cb, db, db', rb, hb⟩ := h.second
  obtain rfl : ca = cb := by
    have := ha.before.content
    rw [heq, hb.before.content] at this
    exact (Option.some.inj this).symm
  rw [ha.totals_eq, hb.totals_eq, totalsBefore_commit, totalsBefore_commit, if_pos heq, if_pos heq.symm,
    ha.before.totals, hb.before.totals, heq]
  exact VoteTotals.blurred_raise_raise ..

theorem blurred_voteTotals_eq (h : BothOrders a b p p' q q' l) (heq : p.key = q.key) :
    (q'.commit (p.commit l)).state.voteTotals.modify p.key VoteTotals.blurred =
      (p'.commit (q.commit l)).state.voteTotals.modify p.key VoteTotals.blurred := by
  obtain ⟨ca, da, da', ra, ha⟩ := h.first
  obtain ⟨cb, db, db', rb, hb⟩ := h.second
  simp only [voteTotals_commit, ha.key_eq, hb.key_eq, ← heq, insert_insert, modify_insert_self,
    h.blurred_totals_eq heq]

/-- Of two votes in one place each is the same in both orders but for its weight. -/
theorem blurred_votes_eq (h : BothOrders a b p p' q q' l) (heq : p.key = q.key) :
    ((q'.commit (p.commit l)).state.votes.modify p.key fun vs =>
        (vs.modify a.voter Vote.blurred).modify b.voter Vote.blurred) =
      (p'.commit (q.commit l)).state.votes.modify p.key fun vs =>
        (vs.modify a.voter Vote.blurred).modify b.voter Vote.blurred := by
  obtain ⟨ca, da, da', ra, ha⟩ := h.first
  obtain ⟨cb, db, db', rb, hb⟩ := h.second
  simp only [votes_commit, ha.key_eq, hb.key_eq, ha.voter_eq, hb.voter_eq, ha.voter, hb.voter, ← heq,
    getD_insert_self, insert_insert, modify_insert_self, modify_insert_of_ne h.ne,
    ha.blurred_eq, hb.blurred_eq, insert_comm h.ne]

end Together

/-- In both orders the votes lead to the same ledger, but for the weights of votes that meet. -/
theorem commit_eq (h : BothOrders a b p p' q q' l) :
    (p.key ≠ q.key → q'.commit (p.commit l) = p'.commit (q.commit l)) ∧
    (p.key = q.key → (q'.commit (p.commit l)).blurred p.key a.voter b.voter =
      (p'.commit (q.commit l)).blurred p.key a.voter b.voter) := by
  have hfirst := commit_commit p q' l
  have hsecond := commit_commit q p' l
  constructor
  · intro hne
    rw [hfirst, hsecond, h.expertTokens_eq, h.disciplines_eq, h.voteTotals_eq hne, h.votes_eq hne,
      h.activeWeight_eq]
  · intro heq
    rw [hfirst, hsecond, Ledger.blurred_withVotes, Ledger.blurred_withVotes, h.expertTokens_eq,
      h.disciplines_eq, h.blurred_voteTotals_eq heq, h.blurred_votes_eq heq, h.activeWeight_eq]

end BothOrders

/-- A vote of another account leaves all that a vote is planned from, but totals and weights. -/
theorem replanned_after (hne : op.voter ≠ q.vote.voter) (hp : op.plan l.head l.state = .ok p)
    (hp' : op.plan (q.commit l).head (q.commit l).state = .ok p') :
    ∃ c d d' reward, Replanned op p p' l (q.commit l) c d d' reward :=
  replanned hp hp' rfl rfl (State.expertToken?_spendPower hne) rfl

end VoteForContent

/-- Two votes on contents by different accounts are cast at one time, in both orders, and neither is
refused in either. If they are not for the same content in the same discipline, the ledgers after them are
the same. If they are, the ledgers are the same but for the weights of the two votes and what the
curators have there. -/
theorem Ledger.Reachable.votes_commute (h : l.Reachable config genesis) {a b : VoteForContent}
    {events₁ events₂ events₃ events₄ : List Event} (hne : a.voter ≠ b.voter)
    (ha : (Operation.voteForContent a).apply l = (.ok events₁, la))
    (hab : (Operation.voteForContent b).apply la = (.ok events₂, lab))
    (hb : (Operation.voteForContent b).apply l = (.ok events₃, lb))
    (hba : (Operation.voteForContent a).apply lb = (.ok events₄, lba)) :
    ((a.content, a.discipline) ≠ (b.content, b.discipline) → lab = lba) ∧
    ((a.content, a.discipline) = (b.content, b.discipline) →
      lab.blurred (a.content, a.discipline) a.voter b.voter =
        lba.blurred (a.content, a.discipline) a.voter b.voter) := by
  obtain ⟨p, hp, rfl⟩ := VoteForContent.exists_plan ha
  obtain ⟨q, hq, rfl⟩ := VoteForContent.exists_plan hb
  obtain ⟨q', hq', rfl⟩ := VoteForContent.exists_plan hab
  obtain ⟨p', hp', rfl⟩ := VoteForContent.exists_plan hba
  obtain ⟨_, _, _, -, hpvoter, hpkey⟩ := VoteForContent.plan_ok hp
  obtain ⟨_, _, _, -, hqvoter, hqkey⟩ := VoteForContent.plan_ok hq
  have hboth : VoteForContent.BothOrders a b p p' q q' l := {
    linked := h.linked
    ne := hne
    first := VoteForContent.replanned_after (by rw [hqvoter]; exact hne) hp hp'
    second := VoteForContent.replanned_after (by rw [hpvoter]; exact hne.symm) hq hq' }
  rw [← hpkey, ← hqkey]
  exact hboth.commit_eq

namespace Sample

/-- Alice publishes two contents, and half a window passes. -/
def debate : List Step :=
  publish.take 3 ++ [.operation (.createContent ⟨alice, 0, .milestone, "Reply", "", "reply", [alice], [], []⟩),
    .endBlock 43200]

def debated : Ledger := (founded 1 300 20).after debate

/-- The whole vote of an account for one of the contents. -/
def voteOf (n : AccountName) (content : ContentId) : Operation :=
  .voteForContent ⟨n, 0, 10000, 0, content⟩

/-- The ledger after such a vote. -/
def castBy (n : AccountName) (content : ContentId) (l : Ledger) : Ledger :=
  ((voteOf n content).apply l).2

theorem apply_voteOf (n : AccountName) (content : ContentId)
    (h : ((voteOf n content).apply l).1 = .ok []) :
    (voteOf n content).apply l = (.ok [], castBy n content l) := Prod.ext h rfl

/-- Votes for different contents lead to the same ledger in both orders. Of two votes for one content the
second weighs more than if it were the first. -/
theorem debated_votes_commute :
    castBy carol 1 (castBy bob 0 debated) = castBy bob 0 (castBy carol 1 debated) ∧
    (castBy carol 0 (castBy bob 0 debated)).blurred (0, 0) bob carol =
      (castBy bob 0 (castBy carol 0 debated)).blurred (0, 0) bob carol ∧
    ((castBy carol 0 (castBy bob 0 debated)).state.vote? bob 0 0).map (·.weight) = some 2598 ∧
    ((castBy bob 0 (castBy carol 0 debated)).state.vote? bob 0 0).map (·.weight) = some 2817 := by
  have hreachable : debated.Reachable {} (founders 1 300 20) :=
    ⟨founded 1 300 20, debate, rfl, by decide, rfl⟩
  have hbob : (voteOf bob 0).apply debated = (.ok [], castBy bob 0 debated) :=
    apply_voteOf bob 0 (by decide +kernel)
  have hapart := hreachable.votes_commute (by decide : bob ≠ carol) hbob
    (apply_voteOf carol 1 (by decide +kernel))
    (apply_voteOf carol 1 (by decide +kernel))
    (apply_voteOf bob 0 (by decide +kernel))
  have htogether := hreachable.votes_commute (by decide : bob ≠ carol) hbob
    (apply_voteOf carol 0 (by decide +kernel))
    (apply_voteOf carol 0 (by decide +kernel))
    (apply_voteOf bob 0 (by decide +kernel))
  exact ⟨hapart.1 (by decide), htogether.2 rfl, by decide +kernel, by decide +kernel⟩

end Sample

end ResearchLedger
