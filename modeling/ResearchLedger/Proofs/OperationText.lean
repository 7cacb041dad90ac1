import ResearchLedger.Proofs.Decoding
import ResearchLedger.Proofs.Founding
import ResearchLedger.Proofs.Snapshots

/-! Operations come back from their texts, with every number, text, key and name that they have. -/
namespace ResearchLedger

namespace Json

variable {α β : Type} {f : Json → Option α} {g : Json → Option β} {j : Json} {a : α} {b : β}

/-- Items that are read one by one are read together. -/
theorem mapM_map {γ δ : Type} {k : δ → Option α} {w : γ → δ} {v : γ → α} {l : List γ}
    (h : ∀ c ∈ l, k (w c) = some (v c)) : (l.map w).mapM k = some (l.map v) := by
  induction l with
  | nil => rfl
  | cons c l ih =>
    rw [List.forall_mem_cons] at h
    rw [List.map_cons, List.mapM_cons, h.1, ih h.2]
    rfl

/-- A value is read from some JSON, and this comes back from its text. -/
structure Yields (f : Json → Option α) (j : Json) (a : α) : Prop where
  plain : j.Plain
  read : f j = some a

namespace Yields

theorem nat {n limit : Nat} (h : n ≤ limit) (hl : limit ≤ maxWord) : Yields (nat? limit) (.nat n) n :=
  ⟨.nat (h.trans hl), nat?_nat h⟩

theorem word {n : Nat} (h : n ≤ maxWord) : Yields word? (.nat n) n := nat h (le_refl _)

theorem word32 {n : Nat} (h : n ≤ maxWord32) : Yields word32? (.nat n) n := nat h (by decide)

theorem word16 {n : Nat} (h : n ≤ maxWord16) : Yields word16? (.nat n) n := nat h (by decide)

theorem int {i least greatest : Int} (h : least ≤ i ∧ i ≤ greatest) (hl : Amount.min ≤ least)
    (hg : greatest ≤ maxWord) : Yields (int? least greatest) (.int i) i :=
  ⟨.int ⟨hl.trans h.1, h.2.trans hg⟩, if_pos h⟩

theorem amount {i : Amount} (h : i.Fits) : Yields amount? (.int i) i :=
  int h (le_refl _) (by decide)

theorem votePercent {i : Int} (h : -0x8000 ≤ i ∧ i ≤ 0x7FFF) : Yields votePercent? (.int i) i :=
  int h (by decide) (by decide)

theorem string (s : String) : Yields string? (.string s) s := ⟨.string s, rfl⟩

theorem bool (b : Bool) : Yields bool? (.bool b) b := ⟨.bool b, rfl⟩

theorem accountName (n : AccountName) : Yields AccountName.ofJson? n.toJson n :=
  ⟨.string n.text, dif_pos n.valid⟩

theorem publicKey (k : PublicKey) : Yields PublicKey.ofJson? k.toJson k :=
  ⟨.string k.toHex, k.ofText?_toHex⟩

theorem contentType (t : ContentType) : Yields ContentType.ofJson? t.toJson t :=
  ⟨.string t.toWord, by cases t <;> rfl⟩

theorem pair (h : Yields f j a) {k : Json} (h' : Yields g k b) :
    Yields (pair? f g) (.array [j, k]) (a, b) := by
  refine ⟨.array ?_, ?_⟩
  · simp only [List.forall_mem_cons]
    exact ⟨h.plain, h'.plain, fun _ hj => absurd hj List.not_mem_nil⟩
  · rw [pair?, h.read, h'.read]
    rfl

theorem list {toJson : α → Json} {l : List α} (h : ∀ a ∈ l, Yields f (toJson a) a) :
    Yields (list? f) (.ofList toJson l) l := by
  refine ⟨.array ?_, ?_⟩
  · intro j hj
    obtain ⟨a, ha, rfl⟩ := List.mem_map.1 hj
    exact (h a ha).plain
  · have hitems := mapM_map (k := f) (v := id) fun a ha => (h a ha).read
    rwa [List.map_id] at hitems

/-- What may be absent comes back if no value of its kind is written as null. -/
theorem option {toJson : α → Json} (hnull : ∀ a, toJson a ≠ .null) {o : Option α}
    (h : ∀ a ∈ o, Yields f (toJson a) a) : Yields (option? f) (.ofOption toJson o) o := by
  cases o with
  | none => exact ⟨.null, rfl⟩
  | some a =>
    have ha := h a rfl
    refine ⟨ha.plain, ?_⟩
    unfold ofOption option?
    split
    · rename_i hj
      exact absurd hj (hnull a)
    · rw [ha.read]
      rfl

theorem map {κ : Type} [KeyOrder κ] {key : String → Option κ} {toText : κ → String} {toJson : α → Json}
    {m : SortedMap κ α} (hk : ∀ k, key (toText k) = some k)
    (h : ∀ k a, m.get? k = some a → Yields f (toJson a) a) :
    Yields (map? key f) (.ofMap toText toJson m) m := by
  have hentries : ∀ e ∈ m.entries, Yields f (toJson e.2) e.2 := fun e he =>
    h _ _ (SortedMap.mem_entries_iff.1 he)
  have hread : (m.entries.map fun e => (toText e.1, toJson e.2)).mapM
      (fun e => do return (← key e.1, ← f e.2)) = some (m.entries.map id) := by
    refine mapM_map fun e he => ?_
    rw [hk, (hentries e he).read]
    rfl
  refine ⟨.object ?_, ?_⟩
  · intro e he
    obtain ⟨x, hx, rfl⟩ := List.mem_map.1 he
    exact (hentries x hx).plain
  · unfold ofMap map?
    dsimp only
    rw [hread, List.map_id]
    exact congrArg some m.ofList_entries

end Yields

/-- The fields of a record are read one after the other, and their JSON comes back from its text. -/
structure Gives (fields : List Json) (x : Option α) (a : α) : Prop where
  plain : ∀ j ∈ fields, j.Plain
  read : x = some a

namespace Gives

variable {js : List Json} {k : α → Option β}

theorem done : Gives [] (pure b) b := ⟨fun _ hj => absurd hj List.not_mem_nil, rfl⟩

theorem field (h : Yields f j a) (hk : Gives js (k a) b) :
    Gives (j :: js) (required f (some j) >>= k) b :=
  ⟨List.forall_mem_cons.2 ⟨h.plain, hk.plain⟩, by rw [required, Option.bind_some, h.read]; exact hk.read⟩

theorem defaulted {default : α} (h : Yields f j a) (hk : Gives js (k a) b) :
    Gives (j :: js) (withDefault default f (some j) >>= k) b :=
  ⟨List.forall_mem_cons.2 ⟨h.plain, hk.plain⟩, by rw [withDefault, h.read]; exact hk.read⟩

end Gives

theorem named_eq {members : List (String × Json)} (h : (members.map Prod.fst).Nodup)
    {e : String × Json} (he : e ∈ members) : named members e.1 = [e.2] := by
  unfold named
  induction members with
  | nil => cases he
  | cons x members ih =>
    rw [List.map_cons, List.nodup_cons] at h
    rcases List.mem_cons.1 he with rfl | he
    · have hrest : members.filter (fun m => m.1 == e.1) = [] := by
        rw [List.filter_eq_nil_iff]
        intro m hm heq
        exact h.1 (eq_of_beq heq ▸ List.mem_map_of_mem hm)
      rw [List.filter_cons, if_pos (beq_self_eq_true e.1), hrest]
      rfl
    · have hne : ¬ (x.1 == e.1) = true := by
        intro heq
        exact h.1 (eq_of_beq heq ▸ List.mem_map_of_mem he)
      rw [List.filter_cons, if_neg hne]
      exact ih h.2 he

theorem fields?_object {members : List (String × Json)} (h : (members.map Prod.fst).Nodup) :
    (object members).fields? (members.map Prod.fst) = some (members.map fun e => some e.2) := by
  refine mapM_map fun e he => ?_
  rw [named_eq h he]
  rfl

/-- A record with fields of different names is read from the object of its fields. -/
theorem Yields.record {members : List (String × Json)} {names : List String}
    {k : List (Option Json) → Option α} (hnames : members.map Prod.fst = names) (hnodup : names.Nodup)
    (hk : Gives (members.map Prod.snd) (k (members.map fun e => some e.2)) a) :
    Yields (fun j => j.fields? names >>= k) (object members) a := by
  refine ⟨.object ?_, ?_⟩
  · intro e he
    exact hk.plain _ (List.mem_map_of_mem he)
  · subst hnames
    rw [fields?_object hnodup]
    exact hk.read

end Json

open Json Json.Yields

theorem Asset.InRange.yields {a : Asset} (h : a.InRange) : Yields Asset.ofJson? a.toJson a :=
  .record rfl (by decide) <| .field (.amount h.amount) <| .field (word h.symbol) .done

theorem Authority.InRange.yields {a : Authority} (h : a.InRange) : Yields Authority.ofJson? a.toJson a :=
  .record rfl (by decide) <| .field (word32 h.threshold) <|
    .field (.map (fun n => dif_pos n.valid) fun k w hw => word16 (h.accounts k w hw)) <|
    .field (.map PublicKey.ofText?_toHex fun k w hw => word16 (h.keys k w hw)) .done

theorem ChainProperties.InRange.yields {p : ChainProperties} (h : p.InRange) :
    Yields ChainProperties.ofJson? p.toJson p :=
  .record rfl (by decide) <| .field h.accountCreationFee.yields <|
    .field (word32 h.maximumBlockSize) .done

theorem Authority.yields_option {o : Option Authority} (h : ∀ a ∈ o, a.InRange) :
    Yields (option? Authority.ofJson?) (.ofOption Authority.toJson o) o :=
  .option (fun _ h => by cases h) fun a ha => (h a ha).yields

theorem AccountName.yields_option (o : Option AccountName) :
    Yields (option? AccountName.ofJson?) (.ofOption AccountName.toJson o) o :=
  .option (fun _ h => by cases h) fun n _ => accountName n

theorem yields_words {l : List Nat} (h : ∀ x ∈ l, x ≤ maxWord) :
    Yields (list? word?) (.ofList .nat l) l :=
  .list fun x hx => word (h x hx)

theorem yields_strings (l : List String) : Yields (list? string?) (.ofList .string l) l :=
  .list fun s _ => string s

theorem AccountCreate.yields {op : AccountCreate} (h : (Operation.accountCreate op).InRange) :
    Yields AccountCreate.ofJson? op.toJson op := by
  obtain ⟨fee, owner, active, posting⟩ := h
  exact .record rfl (by decide) <| .field fee.yields <| .field (accountName _) <|
    .field (accountName _) <| .field owner.yields <| .field active.yields <| .field posting.yields <|
    .field (publicKey _) <| .defaulted (string _) .done

theorem AccountUpdate.yields {op : AccountUpdate} (h : (Operation.accountUpdate op).InRange) :
    Yields AccountUpdate.ofJson? op.toJson op := by
  obtain ⟨owner, active, posting⟩ := h
  exact .record rfl (by decide) <| .field (accountName _) <|
    .defaulted (Authority.yields_option owner) <| .defaulted (Authority.yields_option active) <|
    .defaulted (Authority.yields_option posting) <| .field (publicKey _) <|
    .defaulted (string _) .done

theorem Transfer.yields {op : Transfer} (h : (Operation.transfer op).InRange) :
    Yields Transfer.ofJson? op.toJson op :=
  .record rfl (by decide) <| .field (accountName _) <| .field (accountName _) <|
    .field (Asset.InRange.yields h) <| .defaulted (string _) .done

theorem TransferToCommonTokens.yields {op : TransferToCommonTokens}
    (h : (Operation.transferToCommonTokens op).InRange) :
    Yields TransferToCommonTokens.ofJson? op.toJson op :=
  .record rfl (by decide) <| .field (accountName _) <|
    .defaulted (AccountName.yields_option _) <| .field (Asset.InRange.yields h) .done

theorem WithdrawCommonTokens.yields {op : WithdrawCommonTokens}
    (h : (Operation.withdrawCommonTokens op).InRange) :
    Yields WithdrawCommonTokens.ofJson? op.toJson op :=
  .record rfl (by decide) <| .field (accountName _) <| .field (.amount h) .done

theorem SetWithdrawRoute.yields {op : SetWithdrawRoute}
    (h : (Operation.setWithdrawRoute op).InRange) : Yields SetWithdrawRoute.ofJson? op.toJson op :=
  .record rfl (by decide) <| .field (accountName _) <| .field (accountName _) <|
    .field (word16 h) <| .field (bool _) .done

theorem DelegateCommonTokens.yields {op : DelegateCommonTokens}
    (h : (Operation.delegateCommonTokens op).InRange) :
    Yields DelegateCommonTokens.ofJson? op.toJson op :=
  .record rfl (by decide) <| .field (accountName _) <| .field (accountName _) <|
    .field (.amount h) .done

theorem SetWitnessProxy.yields (op : SetWitnessProxy) : Yields SetWitnessProxy.ofJson? op.toJson op :=
  .record rfl (by decide) <| .field (accountName _) <| .defaulted (AccountName.yields_option _) .done

theorem WitnessUpdate.yields {op : WitnessUpdate} (h : (Operation.witnessUpdate op).InRange) :
    Yields WitnessUpdate.ofJson? op.toJson op :=
  .record rfl (by decide) <| .field (accountName _) <| .field (string _) <| .field (publicKey _) <|
    .defaulted (ChainProperties.InRange.yields h) .done

theorem WitnessVote.yields (op : WitnessVote) : Yields WitnessVote.ofJson? op.toJson op :=
  .record rfl (by decide) <| .field (accountName _) <| .field (accountName _) <|
    .field (bool _) .done

theorem RequestRecovery.yields {op : RequestRecovery} (h : (Operation.requestRecovery op).InRange) :
    Yields RequestRecovery.ofJson? op.toJson op :=
  .record rfl (by decide) <| .field (accountName _) <| .field (accountName _) <|
    .field (Authority.InRange.yields h) .done

theorem RecoverAccount.yields {op : RecoverAccount} (h : (Operation.recoverAccount op).InRange) :
    Yields RecoverAccount.ofJson? op.toJson op :=
  .record rfl (by decide) <| .field (accountName _) <| .field h.1.yields <| .field h.2.yields .done

theorem ChangeRecoveryPartner.yields (op : ChangeRecoveryPartner) :
    Yields ChangeRecoveryPartner.ofJson? op.toJson op :=
  .record rfl (by decide) <| .field (accountName _) <| .field (accountName _) .done

theorem VoteForContent.yields {op : VoteForContent} (h : (Operation.voteForContent op).InRange) :
    Yields VoteForContent.ofJson? op.toJson op := by
  obtain ⟨discipline, weight, research, content⟩ := h
  exact .record rfl (by decide) <| .field (accountName _) <| .field (word discipline) <|
    .field (votePercent weight) <| .field (word research) <| .field (word content) .done

theorem VoteForReview.yields {op : VoteForReview} (h : (Operation.voteForReview op).InRange) :
    Yields VoteForReview.ofJson? op.toJson op := by
  obtain ⟨discipline, weight, review⟩ := h
  exact .record rfl (by decide) <| .field (accountName _) <| .field (word discipline) <|
    .field (votePercent weight) <| .field (word review) .done

theorem MakeReview.yields {op : MakeReview} (h : (Operation.makeReview op).InRange) :
    Yields MakeReview.ofJson? op.toJson op :=
  .record rfl (by decide) <| .field (accountName _) <| .field (word h.1) <| .field (string _) <|
    .field (bool _) <| .defaulted (yields_words h.2) <| .defaulted (yields_strings _) .done

theorem CreateGroup.yields {op : CreateGroup} (h : (Operation.createGroup op).InRange) :
    Yields CreateGroup.ofJson? op.toJson op :=
  .record rfl (by decide) <| .field (accountName _) <| .field (string _) <| .field (string _) <|
    .defaulted (string _) <| .field (word16 h) .done

theorem CreateResearch.yields {op : CreateResearch} (h : (Operation.createResearch op).InRange) :
    Yields CreateResearch.ofJson? op.toJson op := by
  obtain ⟨group, reviewSharePercent, disciplines⟩ := h
  exact .record rfl (by decide) <| .field (accountName _) <| .field (word group) <|
    .field (string _) <| .defaulted (string _) <| .field (string _) <|
    .field (word16 reviewSharePercent) <| .field (yields_words disciplines) .done

theorem CreateContent.yields {op : CreateContent} (h : (Operation.createContent op).InRange) :
    Yields CreateContent.ofJson? op.toJson op :=
  .record rfl (by decide) <| .field (accountName _) <| .field (word h.1) <|
    .field (contentType _) <| .field (string _) <| .field (string _) <| .field (string _) <|
    .field (.list fun n _ => accountName n) <| .defaulted (yields_words h.2) <|
    .defaulted (yields_strings _) .done

theorem TransferResearchTokens.yields {op : TransferResearchTokens}
    (h : (Operation.transferResearchTokens op).InRange) :
    Yields TransferResearchTokens.ofJson? op.toJson op :=
  .record rfl (by decide) <| .field (word h.1) <| .field (accountName _) <|
    .field (accountName _) <| .field (word16 h.2) <| .defaulted (bool _) .done

theorem AddExpertise.yields {op : AddExpertise} (h : (Operation.addExpertise op).InRange) :
    Yields AddExpertise.ofJson? op.toJson op :=
  .record rfl (by decide) <| .field (accountName _) <| .field (accountName _) <|
    .field (.list fun x hx => .pair (word (h x hx).1) (amount (h x hx).2)) .done

theorem CreateGrant.yields {op : CreateGrant} (h : (Operation.createGrant op).InRange) :
    Yields CreateGrant.ofJson? op.toJson op := by
  obtain ⟨discipline, total, startBlock, endBlock⟩ := h
  exact .record rfl (by decide) <| .field (accountName _) <| .field (word discipline) <|
    .field total.yields <| .field (word startBlock) <| .field (word endBlock) .done

theorem CreateProposal.yields {op : CreateProposal} (h : (Operation.createProposal op).InRange) :
    Yields CreateProposal.ofJson? op.toJson op :=
  .record rfl (by decide) <| .field (accountName _) <| .field (word h.1) <|
    .defaulted (string _) <| .field (word h.2) .done

theorem VoteForProposal.yields {op : VoteForProposal} (h : (Operation.voteForProposal op).InRange) :
    Yields VoteForProposal.ofJson? op.toJson op :=
  .record rfl (by decide) <| .field (accountName _) <| .field (word h.1) <| .field (word h.2) .done

namespace Operation

variable {op : Operation}

theorem yields_of_body {α : Type} {f : Json → Option α} {make : α → Operation} {a : α}
    (h : Yields f op.body a) (hop : op = make a) (hf : ofBody? op.name = fun j => make <$> f j) :
    Yields ofJson? op.toJson op := by
  refine ⟨.object ?_, ?_⟩
  · intro e he
    cases List.mem_singleton.1 he
    exact h.plain
  · change ofBody? op.name op.body = some op
    rw [hf, hop]
    dsimp only
    rw [← hop, h.read]
    exact congrArg some hop.symm

/-- The fields of an operation and its name determine it. -/
theorem InRange.yields (h : op.InRange) : Yields ofJson? op.toJson op := by
  cases op with
  | accountCreate => exact yields_of_body (AccountCreate.yields h) rfl rfl
  | accountUpdate => exact yields_of_body (AccountUpdate.yields h) rfl rfl
  | transfer => exact yields_of_body (Transfer.yields h) rfl rfl
  | transferToCommonTokens => exact yields_of_body (TransferToCommonTokens.yields h) rfl rfl
  | withdrawCommonTokens => exact yields_of_body (WithdrawCommonTokens.yields h) rfl rfl
  | setWithdrawRoute => exact yields_of_body (SetWithdrawRoute.yields h) rfl rfl
  | delegateCommonTokens => exact yields_of_body (DelegateCommonTokens.yields h) rfl rfl
  | setWitnessProxy op => exact yields_of_body op.yields rfl rfl
  | witnessUpdate => exact yields_of_body (WitnessUpdate.yields h) rfl rfl
  | witnessVote op => exact yields_of_body op.yields rfl rfl
  | requestRecovery => exact yields_of_body (RequestRecovery.yields h) rfl rfl
  | recoverAccount => exact yields_of_body (RecoverAccount.yields h) rfl rfl
  | changeRecoveryPartner op => exact yields_of_body op.yields rfl rfl
  | voteForContent => exact yields_of_body (VoteForContent.yields h) rfl rfl
  | voteForReview => exact yields_of_body (VoteForReview.yields h) rfl rfl
  | makeReview => exact yields_of_body (MakeReview.yields h) rfl rfl
  | createGroup => exact yields_of_body (CreateGroup.yields h) rfl rfl
  | createResearch => exact yields_of_body (CreateResearch.yields h) rfl rfl
  | createContent => exact yields_of_body (CreateContent.yields h) rfl rfl
  | transferResearchTokens => exact yields_of_body (TransferResearchTokens.yields h) rfl rfl
  | addExpertise => exact yields_of_body (AddExpertise.yields h) rfl rfl
  | createGrant => exact yields_of_body (CreateGrant.yields h) rfl rfl
  | createProposal => exact yields_of_body (CreateProposal.yields h) rfl rfl
  | voteForProposal => exact yields_of_body (VoteForProposal.yields h) rfl rfl

theorem parse_eq_ok {text : String} (h : parse text = .ok op) : op.Decoded := by
  unfold parse at h
  split at h
  · rename_i hread
    cases h
    obtain ⟨j, -, hj⟩ := Option.bind_eq_some_iff.1 hread
    exact ⟨j, hj⟩
  · cases h

theorem InRange.parse_render (h : op.InRange) : parse op.render = .ok op := by
  unfold parse render
  rw [Json.parse?_render h.yields.plain, Option.bind_some, h.yields.read]

/-- An operation whose numbers fit their fields is read back from its text; so an operation that any text
is read as is also what its own text is read as. -/
theorem text_round_trip : (∀ op : Operation, op.InRange → parse op.render = .ok op) ∧
    ∀ text op, parse text = .ok op → parse op.render = .ok op := by
  refine ⟨fun op h => h.parse_render, fun text op h => ?_⟩
  exact (parse_eq_ok h).inRange.parse_render

end Operation

namespace Sample

/-- The greatest threshold that a field can have, an account, the empty key and a key of 33 bytes. -/
def guarded : Authority where
  threshold := maxWord32
  accounts := SortedMap.insert ∅ bob maxWord16
  keys := (Authority.ofKey .empty).keys.insert ⟨List.replicate 33 0xE9, .inr rfl⟩ 0

/-- An update with a guarded owner, without a new active authority, and with a text that needs escapes. -/
def guarding : Operation :=
  .accountUpdate ⟨alice, some guarded, none, some guarded, .empty, "\"\\\n\u0007é\u0000"⟩

theorem guarded_inRange : guarded.InRange where
  threshold := le_refl _
  accounts := SortedMap.All.empty.insert (le_refl _)
  keys := (SortedMap.All.empty.insert (by decide)).insert (by decide)

theorem guarding_text : guarding.InRange ∧ Operation.parse guarding.render = .ok guarding := by
  have h : guarding.InRange := by
    refine ⟨?_, fun _ hnone => (by cases hnone), ?_⟩ <;>
    · rintro _ ⟨⟩
      exact guarded_inRange
  exact ⟨h, Operation.text_round_trip.1 guarding h⟩

end Sample

end ResearchLedger
