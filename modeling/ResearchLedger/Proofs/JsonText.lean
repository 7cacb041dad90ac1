import Mathlib.Data.List.Basic
import ResearchLedger.Json.Parser
import ResearchLedger.Json.Printer
import ResearchLedger.Proofs.Hexadecimal

/-! JSON text: what is written, on one line or one member a line, is read back as the same value. -/
namespace ResearchLedger

namespace Decimal

theorem isDigit_digit : ∀ {d : Nat}, d < 10 → (digit d).isDigit = true := by decide

theorem toNat_digit : ∀ {d : Nat}, d < 10 → (digit d).toNat - 48 = d := by decide

theorem digit_eq_zero : ∀ {d : Nat}, d < 10 → digit d = '0' → d = 0 := by decide

theorem value_append (l : List Char) (c : Char) : value (l ++ [c]) = 10 * value l + (c.toNat - 48) := by
  unfold value
  rw [List.foldl_append]
  rfl

theorem isDigit_ofNat (n : Nat) : ∀ c ∈ ofNat n, c.isDigit = true := by
  fun_induction ofNat n with
  | case1 n h => simpa using isDigit_digit h
  | case2 n h ih =>
    intro c hc
    rcases List.mem_append.1 hc with hc | hc
    · exact ih c hc
    · rw [List.mem_singleton.1 hc]
      exact isDigit_digit (Nat.mod_lt _ (by decide))

theorem value_ofNat (n : Nat) : value (ofNat n) = n := by
  fun_induction ofNat n with
  | case1 n h => exact (value_append [] (digit n)).trans (by rw [toNat_digit h]; exact Nat.zero_add n)
  | case2 n h ih =>
    rw [value_append, ih, toNat_digit (Nat.mod_lt _ (by decide))]
    omega

theorem ofNat_ne_nil (n : Nat) : ofNat n ≠ [] := by
  unfold ofNat
  split <;> simp

/-- A numeral of more than one digit does not begin with zero. -/
theorem head?_ofNat (n : Nat) (h : (ofNat n).head? = some '0') : n = 0 := by
  fun_induction ofNat n with
  | case1 n hn => exact digit_eq_zero hn (Option.some.inj h)
  | case2 n hn ih =>
    rw [List.head?_append_of_ne_nil _ (ofNat_ne_nil _)] at h
    have := ih h
    omega

end Decimal

namespace Json

open Token

/-- An integer that fits 64 bits, signed or unsigned. -/
def Fits (i : Int) : Prop := Amount.min ≤ i ∧ i ≤ maxWord

/-- No numeral goes on with the text. -/
def EndsNumber (s : List Char) : Prop :=
  ∀ c ∈ s.head?, c.isDigit = false ∧ c ≠ '.' ∧ c ≠ 'e' ∧ c ≠ 'E'

namespace Token

variable {s rest : List Char} {c : Char} {t : Token} {ts : List Token}

theorem ofText?_space (hc : isSpace c = true) : ofText? (c :: s) = ofText? s := by
  rw [ofText?, if_pos hc]

theorem ofText?_token (hc : isSpace c = false) (ht : scan (c :: s) = some (t, rest))
    (h : ofText? rest = some ts) : ofText? (c :: s) = some (t :: ts) := by
  rw [ofText?, if_neg (by simp [hc])]
  split <;> simp_all

theorem ofText?_newLine (depth : Nat) : ofText? (newLine depth ++ s) = ofText? s := by
  have hblanks (n : Nat) : ofText? (List.replicate n ' ' ++ s) = ofText? s := by
    induction n with
    | zero => rfl
    | succ n ih => exact (ofText?_space rfl).trans ih
  exact (ofText?_space rfl).trans (hblanks _)

/-- A character of a string comes back as its code, escaped or not. -/
theorem scanString_escape (c : Char) (s : List Char) :
    scanString (escape c ++ s) = consCode (some c.toNat) (scanString s) := by
  unfold escape
  split
  case h_8 hquote hback _ _ _ _ _ =>
    split
    · rename_i hlow
      have hcode : hex4? '0' '0' (Hex.digit (c.toNat / 16)) (Hex.digit (c.toNat % 16)) =
          some c.toNat := by
        unfold hex4?
        rw [Hex.digitValue?_digit (by omega), Hex.digitValue?_digit (by omega)]
        change some (4096 * 0 + 256 * 0 + 16 * (c.toNat / 16) + c.toNat % 16) = _
        congr 1
        omega
      change consCode (hex4? '0' '0' _ _) (scanString s) = _
      rw [hcode]
    · rename_i hhigh
      rw [List.singleton_append, scanString.eq_4 _ _ (fun h => hquote h) (fun _ _ _ _ _ h => absurd h hback)
        (fun _ _ h => absurd h hback)]
      exact if_neg (by simpa [hhigh] using hback)
  all_goals rfl

theorem scanString_quoted (l : List Char) (s : List Char) :
    scanString (l.flatMap escape ++ '"' :: s) = some (l.map Char.toNat, s) := by
  induction l with
  | nil => rfl
  | cons c l ih =>
    rw [List.flatMap_cons, List.append_assoc, scanString_escape, ih]
    rfl

/-- No character is half of a surrogate pair. -/
theorem not_surrogate (c : Char) : isHighSurrogate c.toNat = false ∧ isLowSurrogate c.toNat = false := by
  have hc : c.toNat < 0xD800 ∨ (0xDFFF < c.toNat ∧ c.toNat < 0x110000) := c.valid
  unfold isHighSurrogate isLowSurrogate
  simp only [Bool.and_eq_false_iff, decide_eq_false_iff_not]
  omega

theorem characters?_toNat (l : List Char) : characters? (l.map Char.toNat) = some l := by
  induction l with
  | nil => rfl
  | cons c l ih =>
    obtain ⟨hhigh, hlow⟩ := not_surrogate c
    cases l with
    | nil =>
      rw [List.map_cons, List.map_nil, characters?, hhigh, hlow, Char.ofNat_toNat]
      rfl
    | cons d l =>
      rw [List.map_cons] at ih ⊢
      rw [List.map_cons, characters?, ih]
      simp [hhigh, hlow, Char.ofNat_toNat]

theorem ofText?_quote (name : String) (h : ofText? s = some ts) :
    ofText? (quote name ++ s) = some (text (some name) :: ts) := by
  have hscan : scan (quote name ++ s) = some (text (some name), s) := by
    change (scanString ((name.toList.flatMap escape ++ ['"']) ++ s)).map _ = _
    rw [List.append_assoc]
    change (scanString (name.toList.flatMap escape ++ '"' :: s)).map _ = _
    rw [scanString_quoted, Option.map_some, characters?_toNat, Option.map_some, String.ofList_toList]
  exact ofText?_token rfl hscan h

/-- Where a numeral ends, its digits are told from what follows. -/
theorem splitDigits_ofNat (n : Nat) (hs : EndsNumber s) :
    splitDigits (Decimal.ofNat n ++ s) = (Decimal.ofNat n, s) := by
  have hd := Decimal.isDigit_ofNat n
  unfold splitDigits
  rw [List.takeWhile_append_of_pos hd, List.dropWhile_append_of_pos hd]
  cases s with
  | nil => simp
  | cons c s =>
    have hc := (hs c rfl).1
    simp [hc]

theorem scanUnsigned_ofNat {negative : Bool} (n : Nat) (hs : EndsNumber s) :
    scanUnsigned negative (Decimal.ofNat n ++ s) = some (integer negative n, s) := by
  have hdigits : ((Decimal.ofNat n).isEmpty || (Decimal.ofNat n).head? == some '0' &&
      decide (1 < (Decimal.ofNat n).length)) = false := by
    have hne := Decimal.ofNat_ne_nil n
    by_cases hhead : (Decimal.ofNat n).head? = some '0'
    · rw [Decimal.head?_ofNat n hhead, Decimal.ofNat, if_pos (by decide)]
      decide
    · simp [hne, hhead]
  have hfraction : skipFraction? s = some (false, s) := by
    unfold skipFraction?
    split
    · exact absurd rfl (hs '.' rfl).2.1
    · rfl
  have hexponent : skipExponent? s = some (false, s) := by
    unfold skipExponent?
    split
    · exact absurd rfl (hs 'e' rfl).2.2.1
    · exact absurd rfl (hs 'E' rfl).2.2.2
    · rfl
  unfold scanUnsigned
  rw [splitDigits_ofNat n hs]
  dsimp only
  rw [hdigits, hfraction]
  simp [hexponent, Decimal.value_ofNat]

theorem integer_natAbs {i : Int} (hi : Fits i) : integer (decide (i < 0)) i.natAbs = .int i := by
  obtain ⟨hl, hu⟩ : (-0x8000000000000000 : Int) ≤ i ∧ i ≤ (0xFFFFFFFFFFFFFFFF : Nat) := hi
  unfold integer
  by_cases hneg : i < 0
  · rw [decide_eq_true hneg, if_pos rfl, if_neg]
    · congr 1
      omega
    · change ¬ (i.natAbs = 0 ∨ (0x7FFFFFFFFFFFFFFF + 1 : Int) < i.natAbs)
      omega
  · rw [decide_eq_false hneg, if_neg Bool.false_ne_true, if_neg]
    · congr 1
      omega
    · change ¬ 0xFFFFFFFFFFFFFFFF < i.natAbs
      omega

theorem scan_number (hc : c = '-' ∨ c.isDigit = true) :
    scan (c :: s) = (scanNumber (c :: s)).map fun p => (plain p.1, p.2) := by
  unfold scan
  split
  case h_11 => rfl
  all_goals
    rename_i heq
    exact absurd ((List.cons.inj heq).1 ▸ hc) (by decide)

theorem scanNumber_digit (hc : c.isDigit = true) : scanNumber (c :: s) = scanUnsigned false (c :: s) := by
  unfold scanNumber
  split
  · rename_i heq
    rw [(List.cons.inj heq).1] at hc
    cases hc
  · rfl

theorem isSpace_digit (hc : c.isDigit = true) : isSpace c = false := by
  refine Bool.eq_false_iff.2 fun h => ?_
  simp only [isSpace, Bool.or_eq_true, beq_iff_eq] at h
  rcases h with ((rfl | rfl) | rfl) | rfl <;> cases hc

theorem ofText?_ofInt {i : Int} (hi : Fits i) (hs : EndsNumber s) (h : ofText? s = some ts) :
    ofText? (Decimal.ofInt i ++ s) = some (plain (.int i) :: ts) := by
  obtain ⟨c, l, hcl⟩ := List.exists_cons_of_ne_nil (Decimal.ofNat_ne_nil i.natAbs)
  have hc : c.isDigit = true := Decimal.isDigit_ofNat i.natAbs c (hcl ▸ List.mem_cons_self)
  have hint := integer_natAbs hi
  have hscan (negative : Bool) : scanUnsigned negative (Decimal.ofNat i.natAbs ++ s) =
      some (integer negative i.natAbs, s) := scanUnsigned_ofNat i.natAbs hs
  unfold Decimal.ofInt
  split
  · rename_i hneg
    rw [decide_eq_true hneg] at hint
    have hall : scan ('-' :: (Decimal.ofNat i.natAbs ++ s)) = some (plain (.int i), s) := by
      rw [scan_number (.inl rfl), scanNumber, hscan, hint]
      rfl
    exact ofText?_token rfl hall h
  · rename_i hneg
    rw [decide_eq_false hneg] at hint
    have hall : scan (c :: (l ++ s)) = some (plain (.int i), s) := by
      rw [scan_number (.inr hc), scanNumber_digit hc, ← List.cons_append, ← hcl, hscan, hint]
      rfl
    rw [hcl]
    exact ofText?_token (isSpace_digit hc) hall h

end Token

/-- A value that can be read back: its numbers fit, and it is of a kind that is written. -/
inductive Plain : Json → Prop
  | null : Plain null
  | bool (b : Bool) : Plain (bool b)
  | int {i : Int} (h : Fits i) : Plain (int i)
  | string (s : String) : Plain (string s)
  | array {items : List Json} (h : ∀ j ∈ items, Plain j) : Plain (array items)
  | object {members : List (String × Json)} (h : ∀ e ∈ members, Plain e.2) : Plain (object members)

mutual

/-- The tokens of a value. -/
def tokens : Json → List Token
  | null => [.plain null]
  | bool b => [.plain (bool b)]
  | int i => [.plain (int i)]
  | string s => [.text (some s)]
  | array [] => [.openBracket, .closeBracket]
  | array (j :: items) => .openBracket :: (tokens j ++ itemTokens items)
  | object [] => [.openBrace, .closeBrace]
  | object ((name, j) :: members) =>
    .openBrace :: .text (some name) :: .colon :: (tokens j ++ memberTokens members)
  | other => [.plain null]

/-- The tokens of the items after the first. -/
def itemTokens : List Json → List Token
  | [] => [.closeBracket]
  | j :: items => .comma :: (tokens j ++ itemTokens items)

/-- The tokens of the members after the first. -/
def memberTokens : List (String × Json) → List Token
  | [] => [.closeBrace]
  | (name, j) :: members =>
    .comma :: .text (some name) :: .colon :: (tokens j ++ memberTokens members)

end

section Text

variable {s : List Char} {ts : List Token} {items : List Json} {members : List (String × Json)}

theorem EndsNumber.newLine (depth : Nat) : EndsNumber (newLine depth ++ s) := by
  rintro c ⟨⟩
  decide

theorem EndsNumber.comma : EndsNumber (',' :: s) := by
  rintro c ⟨⟩
  decide

theorem EndsNumber.itemLines (depth : Nat) : EndsNumber (itemLines depth items ++ s) := by
  cases items with
  | nil => exact List.append_assoc _ _ s ▸ newLine depth
  | cons => exact comma

theorem EndsNumber.memberLines (depth : Nat) : EndsNumber (memberLines depth members ++ s) := by
  cases members with
  | nil => exact List.append_assoc _ _ s ▸ newLine depth
  | cons => exact comma

/-- The lines of a value hold its tokens. -/
theorem ofText?_indented {j : Json} (hj : j.Plain) {depth : Nat} (hs : EndsNumber s)
    (h : ofText? s = some ts) : ofText? (indented depth j ++ s) = some (j.tokens ++ ts) := by
  induction hj generalizing depth s ts with
  | null => exact ofText?_token rfl rfl h
  | bool b => cases b <;> exact ofText?_token rfl rfl h
  | int hi => exact ofText?_ofInt hi hs h
  | string name => exact ofText?_quote name h
  | @array items _ ih =>
    have hitem (j : Json) (hj : j ∈ items) {s : List Char} {ts : List Token} (hs : EndsNumber s)
        (h : ofText? s = some ts) : ofText? (newLine (depth + 1) ++ (indented (depth + 1) j ++ s)) =
          some (j.tokens ++ ts) := by
      rw [ofText?_newLine]
      exact ih j hj hs h
    have hlines (rest : List Json) (hr : ∀ j ∈ rest, j ∈ items) :
        ofText? (itemLines depth rest ++ s) = some (itemTokens rest ++ ts) := by
      induction rest with
      | nil =>
        rw [itemLines, List.append_assoc, ofText?_newLine]
        exact ofText?_token rfl rfl h
      | cons j rest ihr =>
        have htail := ihr fun k hk => hr k (List.mem_cons_of_mem _ hk)
        have hj := hitem j (hr j List.mem_cons_self) (.itemLines depth) htail
        simp only [itemLines, itemTokens, List.cons_append, List.append_assoc]
        exact ofText?_token rfl rfl hj
    cases items with
    | nil => exact ofText?_token rfl rfl (ofText?_token rfl rfl h)
    | cons j items =>
      have htail := hlines items fun k hk => List.mem_cons_of_mem _ hk
      have hj := hitem j List.mem_cons_self (.itemLines depth) htail
      simp only [indented, tokens, List.cons_append, List.append_assoc]
      exact ofText?_token rfl rfl hj
  | @object members _ ih =>
    have hmember (name : String) (j : Json) (hj : (name, j) ∈ members) {s : List Char}
        {ts : List Token} (hs : EndsNumber s) (h : ofText? s = some ts) :
        ofText? (newLine (depth + 1) ++ (quote name ++ (':' :: ' ' :: (indented (depth + 1) j ++ s)))) =
          some (.text (some name) :: .colon :: (j.tokens ++ ts)) := by
      rw [ofText?_newLine]
      refine ofText?_quote name (ofText?_token rfl rfl ?_)
      rw [ofText?_space rfl]
      exact ih _ hj hs h
    have hlines (rest : List (String × Json)) (hr : ∀ e ∈ rest, e ∈ members) :
        ofText? (memberLines depth rest ++ s) = some (memberTokens rest ++ ts) := by
      induction rest with
      | nil =>
        rw [memberLines, List.append_assoc, ofText?_newLine]
        exact ofText?_token rfl rfl h
      | cons e rest ihr =>
        have htail := ihr fun k hk => hr k (List.mem_cons_of_mem _ hk)
        have hj := hmember e.1 e.2 (hr e List.mem_cons_self) (.memberLines depth) htail
        simp only [memberLines, memberTokens, List.cons_append, List.append_assoc]
        exact ofText?_token rfl rfl hj
    cases members with
    | nil => exact ofText?_token rfl rfl (ofText?_token rfl rfl h)
    | cons e members =>
      have htail := hlines members fun k hk => List.mem_cons_of_mem _ hk
      have hj := hmember e.1 e.2 List.mem_cons_self (.memberLines depth) htail
      simp only [indented, tokens, List.cons_append, List.append_assoc]
      exact ofText?_token rfl rfl hj

theorem EndsNumber.itemChars : EndsNumber (itemChars items ++ s) := by
  cases items with
  | nil => rintro c ⟨⟩; decide
  | cons => exact comma

theorem EndsNumber.memberChars : EndsNumber (memberChars members ++ s) := by
  cases members with
  | nil => rintro c ⟨⟩; decide
  | cons => exact comma

/-- The line of a value holds its tokens. -/
theorem ofText?_chars {j : Json} (hj : j.Plain) (hs : EndsNumber s) (h : ofText? s = some ts) :
    ofText? (chars j ++ s) = some (j.tokens ++ ts) := by
  induction hj generalizing s ts with
  | null => exact ofText?_token rfl rfl h
  | bool b => cases b <;> exact ofText?_token rfl rfl h
  | int hi => exact ofText?_ofInt hi hs h
  | string name => exact ofText?_quote name h
  | @array items _ ih =>
    have htail (rest : List Json) (hr : ∀ j ∈ rest, j ∈ items) :
        ofText? (itemChars rest ++ s) = some (itemTokens rest ++ ts) := by
      induction rest with
      | nil => exact ofText?_token rfl rfl h
      | cons j rest ihr =>
        rw [List.forall_mem_cons] at hr
        have hj := ih j hr.1 .itemChars (ihr hr.2)
        simp only [itemChars, itemTokens, List.cons_append, List.append_assoc]
        exact ofText?_token rfl rfl hj
    cases items with
    | nil => exact ofText?_token rfl rfl (ofText?_token rfl rfl h)
    | cons j items =>
      have hj := ih j List.mem_cons_self .itemChars
        (htail items fun k hk => List.mem_cons_of_mem _ hk)
      simp only [chars, tokens, List.cons_append, List.append_assoc]
      exact ofText?_token rfl rfl hj
  | @object members _ ih =>
    have hmember (name : String) (j : Json) (hj : (name, j) ∈ members) {s : List Char}
        {ts : List Token} (hs : EndsNumber s) (h : ofText? s = some ts) :
        ofText? (quote name ++ (':' :: (chars j ++ s))) =
          some (.text (some name) :: .colon :: (j.tokens ++ ts)) :=
      ofText?_quote name (ofText?_token rfl rfl (ih _ hj hs h))
    have htail (rest : List (String × Json)) (hr : ∀ e ∈ rest, e ∈ members) :
        ofText? (memberChars rest ++ s) = some (memberTokens rest ++ ts) := by
      induction rest with
      | nil => exact ofText?_token rfl rfl h
      | cons e rest ihr =>
        rw [List.forall_mem_cons] at hr
        have hj := hmember e.1 e.2 hr.1 .memberChars (ihr hr.2)
        simp only [memberChars, memberTokens, List.cons_append, List.append_assoc]
        exact ofText?_token rfl rfl hj
    cases members with
    | nil => exact ofText?_token rfl rfl (ofText?_token rfl rfl h)
    | cons e members =>
      have hj := hmember e.1 e.2 List.mem_cons_self .memberChars
        (htail members fun k hk => List.mem_cons_of_mem _ hk)
      simp only [chars, tokens, List.cons_append, List.append_assoc]
      exact ofText?_token rfl rfl hj

end Text

section Tokens

open Reader

variable {stack : List Frame} {ts : List Token}

theorem run_itemOrClose (j : Json) {items : List Json} :
    Reader.run ⟨.array items :: stack, .itemOrClose⟩ (j.tokens ++ ts) =
      Reader.run ⟨.array items :: stack, .value⟩ (j.tokens ++ ts) := by
  cases j with
  | array items => cases items <;> rfl
  | object members => cases members <;> rfl
  | _ => rfl

/-- The reader takes the tokens of a value for the value. -/
theorem run_tokens {j : Json} (hj : j.Plain) :
    Reader.run ⟨stack, .value⟩ (j.tokens ++ ts) = Reader.run (deliver j stack) ts := by
  induction hj generalizing stack ts with
  | null => rfl
  | bool => rfl
  | int => rfl
  | string => rfl
  | @array items _ ih =>
    have hrest (rest acc : List Json) (hr : ∀ j ∈ rest, j ∈ items) :
        Reader.run ⟨.array acc :: stack, .next⟩ (itemTokens rest ++ ts) =
          Reader.run (deliver (.array (acc.reverse ++ rest)) stack) ts := by
      induction rest generalizing acc with
      | nil => rw [List.append_nil]; rfl
      | cons j rest ihr =>
        have htail := ihr (j :: acc) fun k hk => hr k (List.mem_cons_of_mem _ hk)
        rw [List.reverse_cons, List.append_assoc] at htail
        change Reader.run ⟨.array acc :: stack, .value⟩ (j.tokens ++ itemTokens rest ++ ts) = _
        rw [List.append_assoc, ih j (hr j List.mem_cons_self)]
        exact htail
    cases items with
    | nil => rfl
    | cons j items =>
      change Reader.run ⟨.array [] :: stack, .itemOrClose⟩ (j.tokens ++ itemTokens items ++ ts) = _
      rw [List.append_assoc, run_itemOrClose, ih j List.mem_cons_self]
      exact hrest items [j] fun k hk => List.mem_cons_of_mem _ hk
  | @object members _ ih =>
    have hmember (name : String) (j : Json) (hj : (name, j) ∈ members)
        (acc : List (String × Json)) (ts : List Token) :
        Reader.run ⟨.object (some acc) (some name) :: stack, .value⟩ (j.tokens ++ ts) =
          Reader.run ⟨.object (some ((name, j) :: acc)) none :: stack, .next⟩ ts := ih _ hj
    have hrest (rest acc : List (String × Json)) (hr : ∀ e ∈ rest, e ∈ members) :
        Reader.run ⟨.object (some acc) none :: stack, .next⟩ (memberTokens rest ++ ts) =
          Reader.run (deliver (.object (acc.reverse ++ rest)) stack) ts := by
      induction rest generalizing acc with
      | nil => rw [List.append_nil]; rfl
      | cons e rest ihr =>
        have htail := ihr (e :: acc) fun k hk => hr k (List.mem_cons_of_mem _ hk)
        rw [List.reverse_cons, List.append_assoc] at htail
        change Reader.run ⟨.object (some acc) (some e.1) :: stack, .value⟩
          (e.2.tokens ++ memberTokens rest ++ ts) = _
        rw [List.append_assoc, hmember e.1 e.2 (hr e List.mem_cons_self)]
        exact htail
    cases members with
    | nil => rfl
    | cons e members =>
      change Reader.run ⟨.object (some []) (some e.1) :: stack, .value⟩
        (e.2.tokens ++ memberTokens members ++ ts) = _
      rw [List.append_assoc, hmember e.1 e.2 List.mem_cons_self]
      exact hrest members [e] fun k hk => List.mem_cons_of_mem _ hk

end Tokens

theorem ofTokens?_tokens {j : Json} (hj : j.Plain) : ofTokens? j.tokens = some j := by
  have hrun : Reader.run ⟨[], .value⟩ (j.tokens ++ []) = Reader.run (Reader.deliver j []) [] :=
    run_tokens hj
  unfold ofTokens?
  rw [← List.append_nil j.tokens, hrun]
  rfl

theorem parse?_of_tokens {j : Json} {l : List Char} (hj : j.Plain)
    (h : ∀ {s ts}, EndsNumber s → Token.ofText? s = some ts →
      Token.ofText? (l ++ s) = some (j.tokens ++ ts)) : parse? (String.ofList l) = some j := by
  have hnil : Token.ofText? [] = some [] := by rw [Token.ofText?]
  have htext := h (fun _ hc => by cases hc) hnil
  rw [List.append_nil, List.append_nil] at htext
  unfold parse?
  rw [String.toList_ofList, htext]
  exact ofTokens?_tokens hj

/-- A value written on one line is read back. -/
theorem parse?_render {j : Json} (hj : j.Plain) : parse? j.render = some j :=
  parse?_of_tokens hj (ofText?_chars hj)

/-- A value written over several lines is read back. -/
theorem parse?_renderIndented {j : Json} (hj : j.Plain) : parse? j.renderIndented = some j :=
  parse?_of_tokens hj (ofText?_indented hj)

end Json

end ResearchLedger
