import ResearchLedger.Proofs.SnapshotRoundTrip

/-! What the root is a digest of determines the data of a state: names, lengths and bytes of the stores
are told apart in it, and so are the records in each store. -/
namespace ResearchLedger

/-- Two different inputs with one digest. -/
def Sha3.Collision (a b : List UInt8) : Prop := a ≠ b ∧ hash a = hash b

variable {s t : State} {name : String} {bytes bytes' rest rest' : List UInt8}

theorem storeSegment_inj (hb : bytes.length ≤ maxWord) (hb' : bytes'.length ≤ maxWord)
    (h : storeSegment name bytes ++ rest = storeSegment name bytes' ++ rest') :
    bytes = bytes' ∧ rest = rest' := by
  have hcount {n : Nat} (hn : n ≤ maxWord) :
      LittleEndian.decode (LittleEndian.encode 8 n) = n :=
    LittleEndian.decode_encode 8 n (Nat.lt_of_le_of_lt hn (by decide))
  unfold storeSegment at h
  rw [List.append_assoc, List.append_assoc, List.append_assoc, List.append_assoc] at h
  obtain ⟨hsize, hbytes⟩ := List.append_inj (List.append_cancel_left h) (by
    rw [List.length_reverse, List.length_reverse, LittleEndian.length_encode,
      LittleEndian.length_encode])
  have hlength : bytes.length = bytes'.length := by
    rw [← hcount hb, List.reverse_injective hsize, hcount hb']
  exact List.append_inj hbytes hlength

/-- Stores that have the same names in the same order are told apart by their segments. -/
theorem flatMap_storeSegment_inj {stores stores' : List (String × List UInt8)}
    (hnames : stores.map Prod.fst = stores'.map Prod.fst)
    (hs : ∀ store ∈ stores, store.2.length ≤ maxWord) (hs' : ∀ store ∈ stores', store.2.length ≤ maxWord)
    (h : stores.flatMap (fun e => storeSegment e.1 e.2) =
      stores'.flatMap fun e => storeSegment e.1 e.2) : stores = stores' := by
  induction stores generalizing stores' with
  | nil => exact (List.map_eq_nil_iff.1 hnames.symm).symm
  | cons store stores ih =>
    cases stores' with
    | nil => cases hnames
    | cons store' stores' =>
      obtain ⟨name, bytes⟩ := store
      obtain ⟨name', bytes'⟩ := store'
      obtain ⟨hname, htail⟩ := List.cons.inj hnames
      cases hname
      rw [List.forall_mem_cons] at hs hs'
      rw [List.flatMap_cons, List.flatMap_cons] at h
      obtain ⟨rfl, hrest⟩ := storeSegment_inj hs.1 hs'.1 h
      rw [ih htail hs.2 hs'.2 hrest]

namespace State

/-- Two states agree on every store, whatever their parameters are. -/
def SameData (s t : State) : Prop := { s with config := t.config } = t

instance : Decidable (s.SameData t) := inferInstanceAs (Decidable (_ = _))

theorem SameData.stores_eq (h : s.SameData t) : s.stores = t.stores := by
  rw [← h]
  rfl

theorem SameData.preimage_eq (h : s.SameData t) : s.preimage = t.preimage := by
  unfold preimage
  rw [h.stores_eq]

/-- States whose stores have the same bytes agree on every store. -/
theorem sameData_of_stores_eq (hs : s.InRange) (ht : t.InRange) (hsized : s.Sized)
    (h : s.stores = t.stores) : s.SameData t := by
  -- Both states are read from the same bytes once their parameters are put on a par.
  let s₀ : State := { s with config := {} }
  let t₀ : State := { t with config := {} }
  have hlength : (Config.layout.write {}).length ≤ maxWord := by decide +kernel
  have htsized : t₀.Sized := fun store hstore => hsized store (h ▸ hstore)
  have hs₀ : State.layout.read.Reads (State.layout.write s₀) s₀ :=
    InRange.reads { hs with config := .default } hlength hsized
  have ht₀ : State.layout.read.Reads (State.layout.write t₀) t₀ :=
    InRange.reads { ht with config := .default } hlength htsized
  have hwrite : State.layout.write s₀ = State.layout.write t₀ := by
    change _ ++ s.stores.flatMap Prod.snd = _ ++ t.stores.flatMap Prod.snd
    rw [h]
  have hsame := hs₀ []
  rw [hwrite, ht₀ []] at hsame
  have heq : t₀ = s₀ := (Prod.mk.inj (Option.some.inj hsame)).1
  exact congrArg (fun x : State => { x with config := t.config }) heq.symm

theorem preimage_eq_iff (hs : s.InRange) (ht : t.InRange) (hsized : s.Sized) (htsized : t.Sized) :
    s.preimage = t.preimage ↔ s.SameData t := by
  constructor
  · intro h
    exact sameData_of_stores_eq hs ht hsized (flatMap_storeSegment_inj rfl hsized htsized h)
  · exact SameData.preimage_eq

/-- Equal roots mean equal data, unless two different inputs of the digest collide. -/
theorem sameData_of_root_eq (hs : s.InRange) (ht : t.InRange) (hsized : s.Sized) (htsized : t.Sized)
    (hno : ¬ Sha3.Collision s.preimage t.preimage) (h : s.root = t.root) : s.SameData t := by
  by_contra hne
  apply hno
  refine ⟨fun he => hne ?_, h⟩
  exact (preimage_eq_iff hs ht hsized htsized).1 he

/-- Two states, whatever their stores hold, have one input of the digest exactly if they agree on every
store; so they have one root only if they do, or else two inputs of the digest collide. -/
theorem root_determines_data (hs : s.InRange) (ht : t.InRange) (hsized : s.Sized) (htsized : t.Sized) :
    (s.preimage = t.preimage ↔ s.SameData t) ∧
      (s.root = t.root → s.SameData t ∨ Sha3.Collision s.preimage t.preimage) := by
  refine ⟨preimage_eq_iff hs ht hsized htsized, fun hroot => ?_⟩
  by_cases hno : Sha3.Collision s.preimage t.preimage
  · exact .inr hno
  · exact .inl (sameData_of_root_eq hs ht hsized htsized hno hroot)

end State

namespace Sample

/-- The rewarded state with one counter moved. -/
def recounted : State :=
  { rewarded.state with nextIds := { rewarded.state.nextIds with grant := 1 } }

theorem recounted_inRange : recounted.InRange :=
  { rewarded_inRange with nextIds := by constructor <;> decide +kernel }

theorem recounted_sized : recounted.Sized := .of_length (by decide +kernel)

theorem recounted_other : ¬ recounted.SameData rewarded.state := by decide +kernel

/-- Two states that differ in one counter have different inputs of the digest, and different roots
unless these collide. -/
theorem recounted_root : recounted.preimage ≠ rewarded.state.preimage ∧
    (recounted.root ≠ rewarded.state.root ∨
      Sha3.Collision recounted.preimage rewarded.state.preimage) := by
  obtain ⟨hiff, hroot⟩ := State.root_determines_data recounted_inRange rewarded_inRange
    recounted_sized (.of_length rewarded_storable.size)
  refine ⟨fun h => recounted_other (hiff.1 h), ?_⟩
  by_cases h : recounted.root = rewarded.state.root
  · exact .inr ((hroot h).resolve_left recounted_other)
  · exact .inl h

end Sample

end ResearchLedger
