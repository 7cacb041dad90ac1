import Mathlib.Data.List.TakeWhile
import ResearchLedger.Text.Blank

/-! Words of a text: what they are, and which texts have given words. -/
namespace ResearchLedger.Text

variable {c d : Char} {b s v w : List Char} {ws : List (List Char)}

/-- Nothing but blanks. -/
def Blank (s : List Char) : Prop := ∀ c ∈ s, isBlank c = true

/-- One or more characters that are not blank. -/
structure IsWord (s : List Char) : Prop where
  ne_nil : s ≠ []
  solid : ∀ c ∈ s, isBlank c = false

/-- A text that a word can stand before: it is empty or begins with a blank. -/
def Parted (s : List Char) : Prop := ∀ c ∈ s.head?, isBlank c = true

theorem not_isBlank_of_isDigit (h : c.isDigit = true) : isBlank c = false := by
  have hc : 48 ≤ c.toNat ∧ c.toNat ≤ 57 := by
    unfold Char.isDigit at h
    simpa [UInt32.le_iff_toNat_le] using h
  unfold isBlank
  simp only [Bool.or_eq_false_iff, Bool.and_eq_false_iff, beq_eq_false_iff_ne, decide_eq_false_iff_not]
  omega

theorem Blank.parted (h : Blank s) : Parted s := fun c hc => h c (List.mem_of_head? hc)

theorem Blank.parted_append (h : Blank b) (hne : b ≠ []) : Parted (b ++ s) := by
  obtain ⟨c, b, rfl⟩ := List.exists_cons_of_ne_nil hne
  intro d hd
  cases Option.some.inj hd
  exact h c List.mem_cons_self

theorem words_cons : words (c :: s) = if isBlank c then words s else
    match s, words s with
    | d :: _, w :: ws => if isBlank d then [c] :: w :: ws else (c :: w) :: ws
    | _, ws => [c] :: ws := rfl

theorem words_blank_append (h : Blank b) : words (b ++ s) = words s := by
  induction b with
  | nil => rfl
  | cons c b ih =>
    obtain ⟨hc, hb⟩ := List.forall_mem_cons.1 h
    rw [List.cons_append, words_cons, if_pos hc, ih hb]

theorem words_blank (h : Blank b) : words b = [] := by
  have := words_blank_append (s := []) h
  rwa [List.append_nil] at this

theorem words_last (hc : isBlank c = false) (hs : Parted s) : words (c :: s) = [c] :: words s := by
  rw [words_cons, if_neg (by rw [hc]; exact Bool.false_ne_true)]
  split
  · rename_i d s w ws hw
    rw [if_pos (hs d rfl), hw]
  · rfl

theorem words_longer (hc : isBlank c = false) (hd : isBlank d = false) (hw : words (d :: s) = w :: ws) :
    words (c :: d :: s) = (c :: w) :: ws := by
  rw [words_cons, if_neg (by rw [hc]; exact Bool.false_ne_true), hw]
  dsimp only
  rw [if_neg (by rw [hd]; exact Bool.false_ne_true)]

theorem words_word_append (hw : IsWord w) (hs : Parted s) : words (w ++ s) = w :: words s := by
  obtain ⟨hne, hsolid⟩ := hw
  induction w with
  | nil => exact absurd rfl hne
  | cons c w ih =>
    obtain ⟨hc, hw⟩ := List.forall_mem_cons.1 hsolid
    cases w with
    | nil => exact words_last hc hs
    | cons d w => exact words_longer hc (hw d List.mem_cons_self) (ih (List.cons_ne_nil d w) hw)

theorem words_eq_nil : words s = [] ↔ Blank s := by
  refine ⟨fun h => ?_, words_blank⟩
  induction s with
  | nil => exact fun c hc => absurd hc List.not_mem_nil
  | cons c s ih =>
    rw [words_cons] at h
    by_cases hc : isBlank c = true
    · rw [if_pos hc] at h
      exact List.forall_mem_cons.2 ⟨hc, ih h⟩
    · rw [if_neg hc] at h
      split at h
      · split at h <;> cases h
      · cases h

/-- Any text is blanks, a word and the rest, unless it is only blanks. -/
theorem exists_word (h : ¬ Blank s) : ∃ b w t, s = b ++ w ++ t ∧ Blank b ∧ IsWord w ∧ Parted t := by
  obtain ⟨c, t, ht⟩ : ∃ c t, s.dropWhile isBlank = c :: t := by
    refine List.exists_cons_of_ne_nil fun hnil => h fun c hc => ?_
    exact List.dropWhile_eq_nil_iff.1 hnil c hc
  have hc : isBlank c = false := by
    have := List.head?_dropWhile_not isBlank s
    rw [ht] at this
    simpa using this
  refine ⟨s.takeWhile isBlank, (c :: t).takeWhile fun d => !isBlank d,
    (c :: t).dropWhile fun d => !isBlank d, ?_, fun d hd => List.mem_takeWhile_imp hd, ⟨?_, ?_⟩, ?_⟩
  · rw [List.append_assoc, List.takeWhile_append_dropWhile, ← ht, List.takeWhile_append_dropWhile]
  · rw [List.takeWhile_cons, if_pos (by rw [hc]; rfl)]
    exact List.cons_ne_nil _ _
  · intro d hd
    simpa using List.mem_takeWhile_imp hd
  · intro d hd
    have := List.head?_dropWhile_not (fun d => !isBlank d) (c :: t)
    rw [Option.mem_def.1 hd] at this
    simpa using this

theorem words_eq_cons : words s = w :: ws ↔
    ∃ b t, s = b ++ w ++ t ∧ Blank b ∧ IsWord w ∧ Parted t ∧ words t = ws := by
  constructor
  · intro h
    have hs : ¬ Blank s := fun hb => by
      rw [words_blank hb] at h
      cases h
    obtain ⟨b, w', t, rfl, hb, hw, ht⟩ := exists_word hs
    rw [List.append_assoc, words_blank_append hb, words_word_append hw ht] at h
    cases h
    exact ⟨b, t, rfl, hb, hw, ht, rfl⟩
  · rintro ⟨b, t, rfl, hb, hw, ht, rfl⟩
    rw [List.append_assoc, words_blank_append hb, words_word_append hw ht]

/-- Two words and nothing else stand in a text, with at least one blank between them. -/
theorem words_eq_pair : words s = [v, w] ↔ ∃ before between after,
    s = before ++ v ++ between ++ w ++ after ∧ Blank before ∧ Blank between ∧ between ≠ [] ∧
      Blank after ∧ IsWord v ∧ IsWord w := by
  rw [words_eq_cons]
  constructor
  · rintro ⟨before, t, rfl, hbefore, hv, ht, h⟩
    obtain ⟨between, after, rfl, hbetween, hw, -, h⟩ := words_eq_cons.1 h
    refine ⟨before, between, after, by simp only [List.append_assoc], hbefore, hbetween, ?_,
      words_eq_nil.1 h, hv, hw⟩
    -- two words that touch would be one
    rintro rfl
    obtain ⟨c, w, rfl⟩ := List.exists_cons_of_ne_nil hw.ne_nil
    have hblank := ht c rfl
    rw [hw.solid c List.mem_cons_self] at hblank
    cases hblank
  · rintro ⟨before, between, after, rfl, hbefore, hbetween, hne, hafter, hv, hw⟩
    refine ⟨before, between ++ (w ++ after), by simp only [List.append_assoc], hbefore, hv,
      hbetween.parted_append hne, ?_⟩
    rw [words_blank_append hbetween, words_word_append hw hafter.parted, words_blank hafter]

end ResearchLedger.Text
