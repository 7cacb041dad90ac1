import ResearchLedger.Operation.Json
import ResearchLedger.Proofs.RecordLayouts

/-! Decoded operations: every number that an operation is read from fits its field. -/
namespace ResearchLedger

/-- All entries of a map satisfy what those of the list do that it is made of. -/
theorem SortedMap.All.ofList {κ α : Type} [KeyOrder κ] [DecidableEq κ] {p : κ → α → Prop}
    {l : List (κ × α)} (h : ∀ e ∈ l, p e.1 e.2) : (SortedMap.ofList l).All p := by
  unfold SortedMap.ofList
  suffices ∀ m : SortedMap κ α, m.All p → (l.foldl (fun m e => m.insert e.1 e.2) m).All p from
    this ∅ .empty
  induction l with
  | nil => exact fun _ hm => hm
  | cons e l ih =>
    rw [List.forall_mem_cons] at h
    exact fun m hm => ih h.2 _ (hm.insert h.1)

namespace Json

variable {α β κ : Type} {f : Json → Option α} {g : Json → Option β} {P : α → Prop} {R : β → Prop}

/-- Whatever a decoder reads satisfies `P`. -/
def Ensures (f : Json → Option α) (P : α → Prop) : Prop := ∀ j a, f j = some a → P a

/-- Whatever comes of the fields that are still to be read satisfies `P`. -/
def Completes (o : Option α) (P : α → Prop) : Prop := ∀ a, o = some a → P a

/-- Every item that is read comes from the decoder. -/
theorem Ensures.mapM {γ : Type} {k : γ → Option α} (h : ∀ c a, k c = some a → P a) {cs : List γ} :
    ∀ {l : List α}, cs.mapM k = some l → ∀ a ∈ l, P a := by
  induction cs with
  | nil =>
    intro l hl
    cases hl
    exact fun _ ha => absurd ha List.not_mem_nil
  | cons c cs ih =>
    intro l hl
    rw [List.mapM_cons] at hl
    obtain ⟨a, ha, hl⟩ := Option.bind_eq_some_iff.1 hl
    obtain ⟨as, has, hl⟩ := Option.bind_eq_some_iff.1 hl
    cases hl
    exact List.forall_mem_cons.2 ⟨h c a ha, ih has⟩

theorem Ensures.option (h : Ensures f P) : Ensures (option? f) fun o => ∀ a ∈ o, P a := by
  intro j o ho
  unfold option? at ho
  split at ho
  · cases ho
    exact fun _ ha => by cases ha
  · obtain ⟨a, ha, rfl⟩ := Option.map_eq_some_iff.1 ho
    exact fun b hb => by cases hb; exact h _ _ ha

theorem Ensures.list (h : Ensures f P) : Ensures (list? f) fun l => ∀ a ∈ l, P a := by
  intro j l hl
  unfold list? at hl
  split at hl
  · exact Ensures.mapM h hl
  · cases hl

theorem Ensures.pair (h : Ensures f P) (h' : Ensures g R) :
    Ensures (pair? f g) fun x => P x.1 ∧ R x.2 := by
  intro j x hx
  unfold pair? at hx
  split at hx
  · obtain ⟨a, ha, hx⟩ := Option.bind_eq_some_iff.1 hx
    obtain ⟨b, hb, hx⟩ := Option.bind_eq_some_iff.1 hx
    cases hx
    exact ⟨h _ _ ha, h' _ _ hb⟩
  · cases hx

theorem Ensures.map [KeyOrder κ] [DecidableEq κ] {key : String → Option κ} (h : Ensures f P) :
    Ensures (map? key f) fun m => m.All fun _ a => P a := by
  intro j m hm
  unfold map? at hm
  split at hm
  · obtain ⟨l, hl, rfl⟩ := Option.map_eq_some_iff.1 hm
    refine .ofList (Ensures.mapM (P := fun e => P e.2) (fun e x hx => ?_) hl)
    obtain ⟨k, -, hx⟩ := Option.bind_eq_some_iff.1 hx
    obtain ⟨a, ha, hx⟩ := Option.bind_eq_some_iff.1 hx
    cases hx
    exact h _ _ ha
  · cases hm

/-- A record has a place for each of its names. -/
theorem length_fields? {names : List String} {j : Json} {fields : List (Option Json)}
    (h : j.fields? names = some fields) : fields.length = names.length := by
  unfold fields? at h
  split at h
  · rename_i members
    clear * - h
    induction names generalizing fields with
    | nil => cases h; rfl
    | cons name names ih =>
      rw [List.mapM_cons] at h
      obtain ⟨x, -, h⟩ := Option.bind_eq_some_iff.1 h
      obtain ⟨xs, hxs, h⟩ := Option.bind_eq_some_iff.1 h
      cases h
      rw [List.length_cons, List.length_cons, ih hxs]
  · split at h
    · cases h
      rw [List.length_append, List.length_map, List.length_replicate]
      omega
    · cases h
  · cases h

section Record

variable {names : List String} {read : List (Option Json) → Option α} {field : Option Json}
  {k : α → Option β} {default : α} {o : Option α} {b : β}

/-- A record is ensured by what comes of its fields, of which there is one for each name. -/
theorem Ensures.record
    (h : ∀ fields, fields.length = names.length → Completes (read fields) P) :
    Ensures (fun j => j.fields? names >>= read) P := by
  intro j a ha
  obtain ⟨fields, hfields, ha⟩ := Option.bind_eq_some_iff.1 ha
  exact h fields (length_fields? hfields) a ha

/-- A field that has to be present, before the others. -/
theorem Ensures.next (h : Ensures f P) (hk : ∀ a, P a → Completes (k a) R) :
    Completes (required f field >>= k) R := by
  intro b hb
  obtain ⟨a, ha, hb⟩ := Option.bind_eq_some_iff.1 hb
  obtain ⟨j, -, hj⟩ := Option.bind_eq_some_iff.1 ha
  exact hk a (h j a hj) b hb

/-- A field that may be left out for a value that is within its range as well. -/
theorem Ensures.nextOr (h : Ensures f P) (hd : P default) (hk : ∀ a, P a → Completes (k a) R) :
    Completes (withDefault default f field >>= k) R := by
  intro b hb
  obtain ⟨a, ha, hb⟩ := Option.bind_eq_some_iff.1 hb
  refine hk a ?_ b hb
  cases field with
  | none => cases ha; exact hd
  | some j => exact h j a ha

/-- A field that may be left out for nothing. -/
theorem Ensures.optional {k : Option α → Option β} (h : Ensures f P)
    (hk : ∀ a, (∀ x ∈ a, P x) → Completes (k a) R) :
    Completes (withDefault none (option? f) field >>= k) R :=
  h.option.nextOr (fun _ hx => by cases hx) hk

namespace Completes

/-- A field about which nothing has to be known. -/
theorem skip (hk : ∀ a, Completes (k a) R) : Completes (o >>= k) R := by
  intro b hb
  obtain ⟨a, -, hb⟩ := Option.bind_eq_some_iff.1 hb
  exact hk a b hb

theorem done (h : R b) : Completes (pure b) R := by
  rintro _ ⟨⟩
  exact h

end Completes

end Record

theorem ensures_nat? (limit : Nat) : Ensures (nat? limit) (· ≤ limit) := by
  intro j n h
  unfold nat? at h
  split at h
  · split at h
    · cases h
      omega
    · cases h
  · cases h

theorem ensures_int? (least greatest : Int) :
    Ensures (int? least greatest) fun i => least ≤ i ∧ i ≤ greatest := by
  intro j i h
  unfold int? at h
  split at h
  · split at h
    · cases h
      assumption
    · cases h
  · cases h

theorem ensures_word? : Ensures word? (· ≤ maxWord) := ensures_nat? maxWord

theorem ensures_word32? : Ensures word32? (· ≤ maxWord32) := ensures_nat? maxWord32

theorem ensures_word16? : Ensures word16? (· ≤ maxWord16) := ensures_nat? maxWord16

theorem ensures_amount? : Ensures amount? Amount.Fits := ensures_int? Amount.min Amount.max

end Json

open Json

theorem Asset.ensures_ofJson? : Ensures Asset.ofJson? Asset.InRange :=
  .record fun
    | [_, _], _ =>
      ensures_amount?.next fun _ amount => ensures_word?.next fun _ symbol => .done ⟨amount, symbol⟩

theorem Authority.ensures_ofJson? : Ensures Authority.ofJson? Authority.InRange :=
  .record fun
    | [_, _, _], _ =>
      ensures_word32?.next fun _ threshold => ensures_word16?.map.next fun _ accounts =>
      ensures_word16?.map.next fun _ keys => .done ⟨threshold, accounts, keys⟩

theorem ChainProperties.ensures_ofJson? : Ensures ChainProperties.ofJson? ChainProperties.InRange :=
  .record fun
    | [_, _], _ =>
      Asset.ensures_ofJson?.next fun _ fee => ensures_word32?.next fun _ size => .done ⟨fee, size⟩

theorem ChainProperties.InRange.default : ({} : ChainProperties).InRange := by
  exact ⟨⟨by decide, by decide⟩, by decide⟩

theorem Json.ensures_votePercent? : Ensures votePercent? fun i => -0x8000 ≤ i ∧ i ≤ 0x7FFF :=
  ensures_int? _ _

/-- Every number of an operation fits its field. -/
def Operation.InRange : Operation → Prop
  | accountCreate op => op.fee.InRange ∧ op.owner.InRange ∧ op.active.InRange ∧ op.posting.InRange
  | accountUpdate op => (∀ a ∈ op.owner, a.InRange) ∧ (∀ a ∈ op.active, a.InRange) ∧
    (∀ a ∈ op.posting, a.InRange)
  | transfer op => op.amount.InRange
  | transferToCommonTokens op => op.amount.InRange
  | withdrawCommonTokens op => op.total.Fits
  | setWithdrawRoute op => op.percent ≤ maxWord16
  | delegateCommonTokens op => op.amount.Fits
  | setWitnessProxy _ => True
  | witnessUpdate op => op.properties.InRange
  | witnessVote _ => True
  | requestRecovery op => op.newOwner.InRange
  | recoverAccount op => op.newOwner.InRange ∧ op.recentOwner.InRange
  | changeRecoveryPartner _ => True
  | voteForContent op => op.discipline ≤ maxWord ∧ (-0x8000 ≤ op.weight ∧ op.weight ≤ 0x7FFF) ∧
    op.research ≤ maxWord ∧ op.content ≤ maxWord
  | voteForReview op => op.discipline ≤ maxWord ∧ (-0x8000 ≤ op.weight ∧ op.weight ≤ 0x7FFF) ∧
    op.review ≤ maxWord
  | makeReview op => op.content ≤ maxWord ∧ (∀ x ∈ op.references, x ≤ maxWord)
  | createGroup op => op.quorumPercent ≤ maxWord16
  | createResearch op => op.group ≤ maxWord ∧ op.reviewSharePercent ≤ maxWord16 ∧
    (∀ x ∈ op.disciplines, x ≤ maxWord)
  | createContent op => op.research ≤ maxWord ∧ (∀ x ∈ op.references, x ≤ maxWord)
  | transferResearchTokens op => op.research ≤ maxWord ∧ op.amount ≤ maxWord16
  | addExpertise op => (∀ x ∈ op.additions, x.1 ≤ maxWord ∧ x.2.Fits)
  | createGrant op => op.discipline ≤ maxWord ∧ op.amount.InRange ∧ op.startBlock ≤ maxWord ∧
    op.endBlock ≤ maxWord
  | createProposal op => op.group ≤ maxWord ∧ op.expiration ≤ maxWord
  | voteForProposal op => op.proposal ≤ maxWord ∧ op.group ≤ maxWord

theorem AccountCreate.ensures_ofJson? : Ensures AccountCreate.ofJson? fun op =>
    (Operation.accountCreate op).InRange :=
  .record fun
    | [_, _, _, _, _, _, _, _], _ =>
      Asset.ensures_ofJson?.next fun _ fee => .skip fun _ => .skip fun _ =>
      Authority.ensures_ofJson?.next fun _ owner => Authority.ensures_ofJson?.next fun _ active =>
      Authority.ensures_ofJson?.next fun _ posting => .skip fun _ => .skip fun _ =>
      .done ⟨fee, owner, active, posting⟩

theorem AccountUpdate.ensures_ofJson? : Ensures AccountUpdate.ofJson? fun op =>
    (Operation.accountUpdate op).InRange :=
  .record fun
    | [_, _, _, _, _, _], _ =>
      .skip fun _ => Authority.ensures_ofJson?.optional fun _ owner =>
      Authority.ensures_ofJson?.optional fun _ active =>
      Authority.ensures_ofJson?.optional fun _ posting => .skip fun _ => .skip fun _ =>
      .done ⟨owner, active, posting⟩

theorem Transfer.ensures_ofJson? : Ensures Transfer.ofJson? fun op =>
    (Operation.transfer op).InRange :=
  .record fun
    | [_, _, _, _], _ =>
      .skip fun _ => .skip fun _ => Asset.ensures_ofJson?.next fun _ amount => .skip fun _ =>
      .done amount

theorem TransferToCommonTokens.ensures_ofJson? : Ensures TransferToCommonTokens.ofJson? fun op =>
    (Operation.transferToCommonTokens op).InRange :=
  .record fun
    | [_, _, _], _ =>
      .skip fun _ => .skip fun _ => Asset.ensures_ofJson?.next fun _ amount => .done amount

theorem WithdrawCommonTokens.ensures_ofJson? : Ensures WithdrawCommonTokens.ofJson? fun op =>
    (Operation.withdrawCommonTokens op).InRange :=
  .record fun
    | [_, _], _ =>
      .skip fun _ => ensures_amount?.next fun _ total => .done total

theorem SetWithdrawRoute.ensures_ofJson? : Ensures SetWithdrawRoute.ofJson? fun op =>
    (Operation.setWithdrawRoute op).InRange :=
  .record fun
    | [_, _, _, _], _ =>
      .skip fun _ => .skip fun _ => ensures_word16?.next fun _ percent => .skip fun _ =>
      .done percent

theorem DelegateCommonTokens.ensures_ofJson? : Ensures DelegateCommonTokens.ofJson? fun op =>
    (Operation.delegateCommonTokens op).InRange :=
  .record fun
    | [_, _, _], _ =>
      .skip fun _ => .skip fun _ => ensures_amount?.next fun _ amount => .done amount

theorem WitnessUpdate.ensures_ofJson? : Ensures WitnessUpdate.ofJson? fun op =>
    (Operation.witnessUpdate op).InRange :=
  .record fun
    | [_, _, _, _], _ =>
      .skip fun _ => .skip fun _ => .skip fun _ =>
      ChainProperties.ensures_ofJson?.nextOr .default fun _ properties => .done properties

theorem RequestRecovery.ensures_ofJson? : Ensures RequestRecovery.ofJson? fun op =>
    (Operation.requestRecovery op).InRange :=
  .record fun
    | [_, _, _], _ =>
      .skip fun _ => .skip fun _ => Authority.ensures_ofJson?.next fun _ newOwner => .done newOwner

theorem RecoverAccount.ensures_ofJson? : Ensures RecoverAccount.ofJson? fun op =>
    (Operation.recoverAccount op).InRange :=
  .record fun
    | [_, _, _], _ =>
      .skip fun _ => Authority.ensures_ofJson?.next fun _ newOwner =>
      Authority.ensures_ofJson?.next fun _ recentOwner => .done ⟨newOwner, recentOwner⟩

theorem VoteForContent.ensures_ofJson? : Ensures VoteForContent.ofJson? fun op =>
    (Operation.voteForContent op).InRange :=
  .record fun
    | [_, _, _, _, _], _ =>
      .skip fun _ => ensures_word?.next fun _ discipline =>
      ensures_votePercent?.next fun _ weight => ensures_word?.next fun _ research =>
      ensures_word?.next fun _ content => .done ⟨discipline, weight, research, content⟩

theorem VoteForReview.ensures_ofJson? : Ensures VoteForReview.ofJson? fun op =>
    (Operation.voteForReview op).InRange :=
  .record fun
    | [_, _, _, _], _ =>
      .skip fun _ => ensures_word?.next fun _ discipline =>
      ensures_votePercent?.next fun _ weight => ensures_word?.next fun _ review =>
      .done ⟨discipline, weight, review⟩

theorem MakeReview.ensures_ofJson? : Ensures MakeReview.ofJson? fun op =>
    (Operation.makeReview op).InRange :=
  .record fun
    | [_, _, _, _, _, _], _ =>
      .skip fun _ => ensures_word?.next fun _ content => .skip fun _ => .skip fun _ =>
      ensures_word?.list.nextOr (List.forall_mem_nil _) fun _ references => .skip fun _ =>
      .done ⟨content, references⟩

theorem CreateGroup.ensures_ofJson? : Ensures CreateGroup.ofJson? fun op =>
    (Operation.createGroup op).InRange :=
  .record fun
    | [_, _, _, _, _], _ =>
      .skip fun _ => .skip fun _ => .skip fun _ => .skip fun _ =>
      ensures_word16?.next fun _ quorumPercent => .done quorumPercent

theorem CreateResearch.ensures_ofJson? : Ensures CreateResearch.ofJson? fun op =>
    (Operation.createResearch op).InRange :=
  .record fun
    | [_, _, _, _, _, _, _], _ =>
      .skip fun _ => ensures_word?.next fun _ group => .skip fun _ => .skip fun _ => .skip fun _ =>
      ensures_word16?.next fun _ reviewSharePercent => ensures_word?.list.next fun _ disciplines =>
      .done ⟨group, reviewSharePercent, disciplines⟩

theorem CreateContent.ensures_ofJson? : Ensures CreateContent.ofJson? fun op =>
    (Operation.createContent op).InRange :=
  .record fun
    | [_, _, _, _, _, _, _, _, _], _ =>
      .skip fun _ => ensures_word?.next fun _ research => .skip fun _ => .skip fun _ =>
      .skip fun _ => .skip fun _ => .skip fun _ =>
      ensures_word?.list.nextOr (List.forall_mem_nil _) fun _ references => .skip fun _ =>
      .done ⟨research, references⟩

theorem TransferResearchTokens.ensures_ofJson? : Ensures TransferResearchTokens.ofJson? fun op =>
    (Operation.transferResearchTokens op).InRange :=
  .record fun
    | [_, _, _, _, _], _ =>
      ensures_word?.next fun _ research => .skip fun _ => .skip fun _ =>
      ensures_word16?.next fun _ amount => .skip fun _ => .done ⟨research, amount⟩

theorem AddExpertise.ensures_ofJson? : Ensures AddExpertise.ofJson? fun op =>
    (Operation.addExpertise op).InRange :=
  .record fun
    | [_, _, _], _ =>
      .skip fun _ => .skip fun _ =>
      (ensures_word?.pair ensures_amount?).list.next fun _ additions => .done additions

theorem CreateGrant.ensures_ofJson? : Ensures CreateGrant.ofJson? fun op =>
    (Operation.createGrant op).InRange :=
  .record fun
    | [_, _, _, _, _], _ =>
      .skip fun _ => ensures_word?.next fun _ discipline =>
      Asset.ensures_ofJson?.next fun _ amount => ensures_word?.next fun _ startBlock =>
      ensures_word?.next fun _ endBlock => .done ⟨discipline, amount, startBlock, endBlock⟩

theorem CreateProposal.ensures_ofJson? : Ensures CreateProposal.ofJson? fun op =>
    (Operation.createProposal op).InRange :=
  .record fun
    | [_, _, _, _], _ =>
      .skip fun _ => ensures_word?.next fun _ group => .skip fun _ =>
      ensures_word?.next fun _ expiration => .done ⟨group, expiration⟩

theorem VoteForProposal.ensures_ofJson? : Ensures VoteForProposal.ofJson? fun op =>
    (Operation.voteForProposal op).InRange :=
  .record fun
    | [_, _, _], _ =>
      .skip fun _ => ensures_word?.next fun _ proposal => ensures_word?.next fun _ group =>
      .done ⟨proposal, group⟩

/-- An operation that some JSON is read as. -/
def Operation.Decoded (op : Operation) : Prop := ∃ j, ofJson? j = some op

theorem Operation.Decoded.inRange {op : Operation} (h : op.Decoded) : op.InRange := by
  obtain ⟨j, h⟩ := h
  unfold ofJson? at h
  split at h
  · unfold ofBody? at h
    split at h
    all_goals first | cases h | obtain ⟨x, hx, rfl⟩ := Option.map_eq_some_iff.1 h
    · exact AccountCreate.ensures_ofJson? _ _ hx
    · exact AccountUpdate.ensures_ofJson? _ _ hx
    · exact Transfer.ensures_ofJson? _ _ hx
    · exact TransferToCommonTokens.ensures_ofJson? _ _ hx
    · exact WithdrawCommonTokens.ensures_ofJson? _ _ hx
    · exact SetWithdrawRoute.ensures_ofJson? _ _ hx
    · exact DelegateCommonTokens.ensures_ofJson? _ _ hx
    · trivial
    · exact WitnessUpdate.ensures_ofJson? _ _ hx
    · trivial
    · exact RequestRecovery.ensures_ofJson? _ _ hx
    · exact RecoverAccount.ensures_ofJson? _ _ hx
    · trivial
    · exact VoteForContent.ensures_ofJson? _ _ hx
    · exact VoteForReview.ensures_ofJson? _ _ hx
    · exact MakeReview.ensures_ofJson? _ _ hx
    · exact CreateGroup.ensures_ofJson? _ _ hx
    · exact CreateResearch.ensures_ofJson? _ _ hx
    · exact CreateContent.ensures_ofJson? _ _ hx
    · exact TransferResearchTokens.ensures_ofJson? _ _ hx
    · exact AddExpertise.ensures_ofJson? _ _ hx
    · exact CreateGrant.ensures_ofJson? _ _ hx
    · exact CreateProposal.ensures_ofJson? _ _ hx
    · exact VoteForProposal.ensures_ofJson? _ _ hx
  · cases h

end ResearchLedger
