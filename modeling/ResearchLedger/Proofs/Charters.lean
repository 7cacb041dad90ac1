import ResearchLedger.Proofs.Records
import ResearchLedger.Proofs.Requests

/-! Charters of research groups: the tokens of a group are all in hands, and neither its number of tokens
nor its quorum nor its members ever change. -/
namespace ResearchLedger

open SortedMap

variable {s s' s'' : State} {l l' : Ledger} {op : Operation} {id : GroupId} {g : ResearchGroup}
  {names : List AccountName} {holders : SortedMap AccountName Nat}

/-- The tokens of different holders are part of all that are held. -/
theorem sum_getD_le (hn : names.Nodup) :
    (names.map fun n => holders.getD n 0).sum ≤ holders.sumOf fun _ tokens => tokens := by
  induction names generalizing holders with
  | nil => exact Nat.zero_le _
  | cons n names ih =>
    obtain ⟨hnew, hn⟩ := List.nodup_cons.1 hn
    rw [List.map_cons, List.sum_cons]
    cases hget : holders.get? n with
    | none =>
      rw [getD_eq, hget, Option.getD_none, Nat.zero_add]
      exact ih hn
    | some tokens =>
      rw [getD_eq, hget, Option.getD_some, sumOf_eq_erase hget]
      have hrest : names.map (fun m => holders.getD m 0) = names.map fun m => (holders.erase n).getD m 0 :=
        List.map_congr_left fun m hm => by
          have hne : n ≠ m := fun he => hnew (he ▸ hm)
          rw [getD_eq, getD_eq, get?_erase_of_ne hne]
      rw [hrest]
      exact Nat.add_le_add_left (ih hn) _

/-- The tokens of a group are all in hands, there are some, and some of them are a quorum. -/
structure ResearchGroup.Shared (g : ResearchGroup) (holders : SortedMap AccountName Nat) : Prop where
  held : (holders.sumOf fun _ tokens => tokens) = g.totalTokens
  some_tokens : 0 < g.totalTokens
  some_quorum : 0 < g.quorumPercent
  quorum_le : g.quorumPercent ≤ wholePercent

namespace State

/-- The tokens of every group are shared out, and there are none of a group that is still to come. -/
structure Chartered (s : State) : Prop where
  shared : s.groups.All fun id g => g.Shared (s.groupTokens.getD id ∅)
  unheld : ∀ id n, s.nextIds.group ≤ id → s.groupTokensOf id n = 0

/-- Every group stays, with its number of tokens, its quorum and its members. -/
def KeepsCharters (s s' : State) : Prop :=
  s.groups.All fun id g => ∃ g', s'.groups.get? id = some g' ∧ g'.totalTokens = g.totalTokens ∧
    g'.quorumPercent = g.quorumPercent ∧ s'.groupTokens.getD id ∅ = s.groupTokens.getD id ∅

/-- Nothing changes but the money of groups. -/
structure SameCharters (s s' : State) : Prop where
  groups : ∀ id, (s'.groups.get? id).map (fun g => (g.totalTokens, g.quorumPercent)) =
    (s.groups.get? id).map fun g => (g.totalTokens, g.quorumPercent)
  groupTokens : s'.groupTokens = s.groupTokens
  nextId : s'.nextIds.group = s.nextIds.group

namespace SameCharters

theorem of_eq (hg : s'.groups = s.groups) (ht : s'.groupTokens = s.groupTokens)
    (hn : s'.nextIds.group = s.nextIds.group) : s.SameCharters s' := ⟨fun _ => by rw [hg], ht, hn⟩

theorem symm (h : s.SameCharters s') : s'.SameCharters s :=
  ⟨fun id => (h.groups id).symm, h.groupTokens.symm, h.nextId.symm⟩

theorem trans (h : s.SameCharters s') (h' : s'.SameCharters s'') : s.SameCharters s'' :=
  ⟨fun id => (h'.groups id).trans (h.groups id), h'.groupTokens.trans h.groupTokens,
    h'.nextId.trans h.nextId⟩

theorem creditGroup (h : s.SameCharters s') (group : GroupId) (amount : Amount) :
    s.SameCharters (s'.creditGroup group amount) := by
  refine ⟨fun id => ?_, h.groupTokens, h.nextId⟩
  rw [← h.groups, State.creditGroup, get?_modify]
  split
  · rw [Option.map_map]
    rfl
  · rfl

/-- What a group is known by is known of the group as it was. -/
theorem find (h : s.SameCharters s') (hg : s'.groups.get? id = some g) : ∃ g₀,
    s.groups.get? id = some g₀ ∧ g.totalTokens = g₀.totalTokens ∧ g.quorumPercent = g₀.quorumPercent := by
  have hsame := h.groups id
  rw [hg, Option.map_some] at hsame
  obtain ⟨g₀, hg₀, he⟩ := Option.map_eq_some_iff.1 hsame.symm
  exact ⟨g₀, hg₀, (congrArg Prod.fst he).symm, (congrArg Prod.snd he).symm⟩

theorem keeps (h : s.SameCharters s') : s.KeepsCharters s' := by
  intro id g hg
  obtain ⟨g', hg', htotal, hquorum⟩ := h.symm.find hg
  exact ⟨g', hg', htotal.symm, hquorum.symm, by rw [h.groupTokens]⟩

theorem chartered (h : s.SameCharters s') (hs : s.Chartered) : s'.Chartered where
  shared id g hg := by
    obtain ⟨g₀, hg₀, htotal, hquorum⟩ := h.find hg
    obtain ⟨hheld, htokens, hpos, hle⟩ := hs.shared id g₀ hg₀
    rw [h.groupTokens]
    exact ⟨hheld.trans htotal.symm, htotal ▸ htokens, hquorum ▸ hpos, hquorum ▸ hle⟩
  unheld id n hid := by
    unfold groupTokensOf
    rw [h.groupTokens]
    exact hs.unheld id n (h.nextId ▸ hid)

end SameCharters

namespace Chartered

theorem eq_zero {n : AccountName} {tokens : Nat} (h : s.Chartered) (hid : s.nextIds.group ≤ id)
    (hn : (s.groupTokens.getD id ∅).get? n = some tokens) : tokens = 0 := by
  have := h.unheld id n hid
  rwa [groupTokensOf, getD_eq, hn] at this

/-- A group has a number that has been given out. -/
theorem lt_next (h : s.Chartered) (hg : s.groups.get? id = some g) : id < s.nextIds.group := by
  obtain ⟨hheld, htokens, -⟩ := h.shared id g hg
  by_contra hge
  have hnone : ((s.groupTokens.getD id ∅).sumOf fun _ tokens => tokens) = 0 :=
    sumOf_eq_zero fun _ _ => h.eq_zero (Nat.not_lt.1 hge)
  omega

/-- Different members have together at most the tokens of their group. -/
theorem sum_le (h : s.Chartered) (hg : s.groups.get? id = some g) (hn : names.Nodup) :
    (names.map (s.groupTokensOf id)).sum ≤ g.totalTokens := by
  rw [← (h.shared id g hg).held]
  exact sum_getD_le hn

end Chartered

end State

namespace CreateGroup

variable {op : CreateGroup} {u : Unit}

theorem keepsCharters (hs : s.Chartered) : s.KeepsCharters (op.commit s) := by
  intro id g hg
  have hne : s.nextIds.group ≠ id := (hs.lt_next hg).ne'
  exact ⟨g, (get?_insert_of_ne hne).trans hg, rfl, rfl, getD_insert_of_ne hne⟩

/-- The tokens of a new group are all in the hands of its creator. -/
theorem chartered (h : op.check s = .ok u) (hs : s.Chartered) : (op.commit s).Chartered where
  shared id g hg := by
    by_cases hid : s.nextIds.group = id
    · subst hid
      obtain rfl := Option.some.inj (get?_insert_self.symm.trans hg)
      obtain ⟨_, -, h⟩ := bind_eq_ok.1 h
      obtain ⟨_, -, h⟩ := bind_eq_ok.1 h
      obtain ⟨hquorum, -⟩ := guard_bind_eq_ok.1 h
      obtain ⟨hpos, hle⟩ := not_or.1 hquorum
      refine ⟨?_, Nat.succ_pos _, Nat.pos_of_ne_zero hpos, Nat.not_lt.1 hle⟩
      -- Nobody has tokens under the new number, so the creator's are all that there are.
      have hothers : (((s.groupTokens.getD s.nextIds.group ∅).erase op.creator).sumOf
          fun _ tokens => tokens) = 0 :=
        sumOf_eq_zero fun n tokens hn => by
          rw [get?_erase] at hn
          split at hn
          · cases hn
          · exact hs.eq_zero le_rfl hn
      have htokens : (op.commit s).groupTokens.getD s.nextIds.group ∅ =
          (s.groupTokens.getD s.nextIds.group ∅).insert op.creator wholePercent := getD_insert_self
      rw [htokens, sumOf_insert, hothers]
      rfl
    · have hg : s.groups.get? id = some g := (get?_insert_of_ne hid).symm.trans hg
      have htokens : (op.commit s).groupTokens.getD id ∅ = s.groupTokens.getD id ∅ := getD_insert_of_ne hid
      have hshared : g.Shared (s.groupTokens.getD id ∅) := hs.shared id g hg
      rwa [← htokens] at hshared
  unheld id n hid := by
    have hlt : s.nextIds.group < id := hid
    have htokens : (op.commit s).groupTokens.getD id ∅ = s.groupTokens.getD id ∅ :=
      getD_insert_of_ne hlt.ne
    unfold State.groupTokensOf
    rw [htokens]
    exact hs.unheld id n hlt.le

end CreateGroup

/-- What no operation does leaves the charters of all groups. -/
theorem Drift.sameCharters (h : Drift l l') : l.state.SameCharters l'.state := by
  cases h with
  | @reward _ plan =>
    exact State.applyReward_preserves (P := l.state.SameCharters)
      (fun _ _ _ h => h.trans (.of_eq rfl rfl rfl)) (fun _ _ _ h => h.creditGroup _ _)
      (fun _ _ _ _ _ h => h.trans (.of_eq rfl rfl rfl)) (.of_eq rfl rfl rfl)
  | payment h =>
    obtain ⟨_, _, _, rfl⟩ := LedgerM.payPowerDown_footprint h
    exact .of_eq rfl rfl rfl
  | upkeep h =>
    cases h with
    | @grant id g _ _ _ h =>
      obtain rfl | ⟨shares, -, rfl⟩ := State.processGrant_ok h
      · exact .of_eq rfl rfl rfl
      · exact State.afterShares_preserves (P := l.state.SameCharters) (fun _ _ _ h => h.creditGroup _ _)
          (fun _ _ h => h.trans (.of_eq rfl rfl rfl)) (fun _ h => h.trans (.of_eq rfl rfl rfl))
          (fun _ _ h => h.trans (.of_eq rfl rfl rfl)) (.of_eq rfl rfl rfl)
    | partners =>
      obtain ⟨_, _, h⟩ := l.state.changePartners_footprint l.head.time
      rw [h]
      exact .of_eq rfl rfl rfl
    | returns =>
      obtain ⟨_, _, h⟩ := l.state.returnDelegations_footprint l.head.time
      rw [h]
      exact .of_eq rfl rfl rfl
    | deactivation content =>
      obtain ⟨_, _, _, _, h⟩ := l.deactivate_footprint content
      rw [h]
      exact .of_eq rfl rfl rfl
    | requests | history | proposals | clock => exact .of_eq rfl rfl rfl

/-- Every operation but the creation of a group leaves the charters of all groups. -/
theorem Operation.Effect.sameCharters (h : op.Effect l l') (hop : ∀ o, op ≠ .createGroup o) :
    l.state.SameCharters l'.state := by
  cases op with
  | createGroup o => exact absurd rfl (hop o)
  | _ => cases h.footprint; exact .of_eq rfl rfl rfl

/-- Groups remain chartered, and all charters remain. -/
theorem Change.chartered (h : Change l l') (hl : l.state.Chartered) :
    l'.state.Chartered ∧ l.state.KeepsCharters l'.state := by
  rcases h.operation_or_drift with ⟨op, ho⟩ | hd
  · by_cases hop : ∃ o, op = .createGroup o
    · obtain ⟨o, rfl⟩ := hop
      cases ho with | createGroup hc =>
      exact ⟨CreateGroup.chartered hc hl, CreateGroup.keepsCharters hl⟩
    · have hsame := ho.sameCharters fun o he => hop ⟨o, he⟩
      exact ⟨hsame.chartered hl, hsame.keeps⟩
  · exact ⟨hd.sameCharters.chartered hl, hd.sameCharters.keeps⟩

end ResearchLedger
