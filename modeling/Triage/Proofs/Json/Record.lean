/-
The record of a vectorizer is read back from its text. The tokens of a text are found one after the
other, each where the one before it ends; a number ends where no character follows that could be
part of it.
-/
import Triage.Proofs.Decimal.Digits
import Triage.Vectorizer.Stored

namespace Triage.Json

/-! ## Scanning -/

/-- The tokens of characters, whatever bound is given that is not below their number. -/
def Scans (cs : List Char) (ts : List Token) : Prop :=
  ∀ fuel, cs.length ≤ fuel → scan fuel cs = ts

theorem Scans.nil : Scans [] [] := by
  intro fuel _
  cases fuel <;> rfl

theorem Scans.space {c : Char} {cs : List Char} {ts : List Token} (hc : isSpace c = true)
    (h : Scans cs ts) : Scans (c :: cs) ts := by
  intro fuel hf
  cases fuel with
  | zero => cases hf
  | succ fuel =>
    have hskip : scan (fuel + 1) (c :: cs) = scan (fuel + 1) cs := by
      unfold scan
      rw [List.dropWhile_cons_of_pos hc]
    rw [hskip]
    exact h (fuel + 1) (Nat.le_trans (Nat.le_succ _) hf)

theorem Scans.token {c : Char} {cs rest : List Char} {t : Token} {ts : List Token}
    (hc : isSpace c = false) (hs : scanToken (c :: cs) = some (t, rest))
    (hl : rest.length ≤ cs.length) (h : Scans rest ts) : Scans (c :: cs) (t :: ts) := by
  intro fuel hf
  cases fuel with
  | zero => cases hf
  | succ fuel =>
    unfold scan
    rw [List.dropWhile_cons_of_neg (by rw [hc]; exact Bool.false_ne_true)]
    simp only [hs]
    rw [h fuel (Nat.le_trans hl (Nat.le_of_succ_le_succ hf))]

theorem Scans.tokens_eq {s : String} {ts : List Token} (h : Scans s.toList ts) : tokens s = ts :=
  h _ (Nat.le_of_eq String.length_toList)

/-! ## Numbers -/

/-- Whether a number ends before these characters. -/
def Ends (cs : List Char) : Prop :=
  ∀ c, cs.head? = some c → c.isDigit = false ∧ c ≠ '.' ∧ c ≠ 'e' ∧ c ≠ 'E'

theorem absorb_eq {n : Nat} {digits : List Char}
    (h : Nat.ofDigitChars 10 digits n < UInt64.size) :
    absorb n digits = (Nat.ofDigitChars 10 digits n, 0) := by
  induction digits generalizing n with
  | nil => rfl
  | cons c rest ih =>
    rw [Nat.ofDigitChars_cons] at h ⊢
    have hle : 10 * n + (c.toNat - '0'.toNat) ≤
        Nat.ofDigitChars 10 rest (10 * n + (c.toNat - '0'.toNat)) := by
      rw [Nat.ofDigitChars_eq_ofDigitChars_zero]
      exact Nat.le_trans (Nat.le_mul_of_pos_left _ (Nat.pow_pos (by decide)))
        (Nat.le_add_right _ _)
    simp only [absorb]
    rw [Nat.mul_comm n 10, if_pos (Nat.lt_of_le_of_lt hle h), ih h]

theorem wholeNumber_digitsOf {n : Nat} (h : n < UInt64.size) :
    wholeNumber false (Decimal.digitsOf n) = some (.natural n) := by
  have hn : Nat.ofDigitChars 10 (Decimal.digitsOf n) 0 = n := Nat.ofDigitChars_ten_toDigits
  unfold wholeNumber
  rw [absorb_eq (by rwa [hn]), hn]
  rfl

theorem scanTail_of_ends {cs : List Char} (h : Ends cs) : scanTail cs = some (none, none, cs) := by
  cases cs with
  | nil => rfl
  | cons c rest =>
    obtain ⟨-, hdot, he, hE⟩ := h c rfl
    unfold scanTail
    simp only [bind, Option.bind]
    split
    · rename_i heq
      exact absurd (List.cons.inj heq).1 hdot
    · split <;> simp_all

theorem scanNumber_digitsOf {n : Nat} (h : n < UInt64.size) {rest : List Char} (hr : Ends rest) :
    scanNumber false (Decimal.digitsOf n ++ rest) = some (some (.natural n), rest) := by
  have hspan : Decimal.spanDigits (Decimal.digitsOf n ++ rest) = (Decimal.digitsOf n, rest) :=
    Decimal.spanDigits_append Decimal.isDigit_digitsOf fun c hc => (hr c hc).1
  -- There are digits, and no zero leads them unless it is alone.
  have hshape : ((Decimal.digitsOf n).isEmpty ||
      (decide ((Decimal.digitsOf n).length > 1) && (Decimal.digitsOf n).head? == some '0')) =
        false := by
    rw [List.isEmpty_eq_false_iff.2 (Decimal.digitsOf_ne_nil n), Bool.false_or]
    by_cases hn : n = 0
    · subst hn
      rfl
    · rw [Bool.and_eq_false_iff]
      exact .inr (by simpa using Decimal.head?_digitsOf hn)
  unfold scanNumber
  simp only [hspan, hshape, scanTail_of_ends hr, wholeNumber_digitsOf h]
  rfl

theorem scanToken_digit {c : Char} (hc : c.isDigit = true) (cs : List Char) :
    scanToken (c :: cs) = (scanNumber false (c :: cs)).map fun (n, rest) => (.number n, rest) := by
  unfold scanToken
  split <;> first | rfl | (rename_i heq; rw [(List.cons.inj heq).1] at hc; cases hc)

theorem isSpace_digit {c : Char} (hc : c.isDigit = true) : isSpace c = false := by
  rw [← Bool.not_eq_true]
  intro h
  simp only [isSpace, Bool.or_eq_true, beq_iff_eq] at h
  rcases h with ((rfl | rfl) | rfl) | rfl <;> cases hc

/-! ## Items -/

/-- Characters of which the tokens are known, whatever follows that does not prolong a number. -/
def Item (cs : List Char) (ts : List Token) : Prop :=
  ∀ rest more, Ends rest → Scans rest more → Scans (cs ++ rest) (ts ++ more)

theorem Item.number {n : Nat} (h : n < UInt64.size) :
    Item (Number.text (.natural n)).toList [.number (some (.natural n))] := by
  intro rest more hr hm
  have hscan := scanNumber_digitsOf h hr
  show Scans ((String.ofList (Decimal.digitsOf n)).toList ++ rest) _
  rw [String.toList_ofList]
  have hdigit := Decimal.isDigit_digitsOf (n := n)
  cases hd : Decimal.digitsOf n with
  | nil => exact absurd hd (Decimal.digitsOf_ne_nil n)
  | cons c cs =>
    rw [hd] at hscan hdigit
    have hc := hdigit c List.mem_cons_self
    rw [List.cons_append] at hscan ⊢
    refine Scans.token (isSpace_digit hc) ?_ ?_ hm
    · rw [scanToken_digit hc, hscan]
      rfl
    · rw [List.length_append]
      exact Nat.le_add_left _ _

/-- Whether a string stands in a text as it is. -/
def IsPlain (s : String) : Prop :=
  ∀ c ∈ s.toList, c ≠ '"' ∧ c ≠ '\\' ∧ ¬c.toNat < 0x20

instance (s : String) : Decidable (IsPlain s) := List.decidableBAll _ s.toList

theorem escape_plain {s : String} (h : IsPlain s) :
    (escape s).toList = '"' :: (s.toList ++ ['"']) := by
  have hchar : ∀ c ∈ s.toList, escapeChar c = [c] := by
    intro c hc
    obtain ⟨hquote, hslash, hlow⟩ := h c hc
    have hne : ∀ d : Char, d.toNat < 0x20 → c ≠ d := by
      rintro d hd rfl
      exact hlow hd
    unfold escapeChar
    rw [if_neg hquote, if_neg hslash, if_neg (hne _ (by decide)), if_neg (hne _ (by decide)),
      if_neg (hne _ (by decide)), if_neg (hne _ (by decide)), if_neg (hne _ (by decide)),
      if_neg hlow]
  unfold escape
  rw [String.toList_ofList, List.cons_append]
  have hflat : s.toList.flatMap escapeChar = s.toList := by
    rw [List.flatMap_def, List.map_congr_left hchar, ← List.flatMap_def, List.flatMap_singleton']
  rw [hflat]

theorem scanString_plain {cs : List Char}
    (h : ∀ c ∈ cs, c ≠ '"' ∧ c ≠ '\\' ∧ ¬c.toNat < 0x20) (rest : List Char) :
    scanString (cs ++ '"' :: rest) = some (cs.map .char, rest) := by
  induction cs with
  | nil => rfl
  | cons c more ih =>
    obtain ⟨hquote, hslash, hlow⟩ := h c List.mem_cons_self
    have htail := ih fun d hd => h d (List.mem_cons_of_mem c hd)
    rw [List.cons_append, scanString]
    · simp only [if_neg hlow, htail]
      rfl
    · exact hquote
    · rintro _ _ _ _ _ rfl -
      exact hslash rfl
    · rintro _ _ rfl -
      exact hslash rfl

theorem assemble_chars (cs : List Char) : assemble (cs.map .char) = some cs := by
  induction cs with
  | nil => rfl
  | cons c rest ih =>
    rw [List.map_cons, assemble, ih]
    rfl

theorem Item.string {s : String} (h : IsPlain s) : Item (escape s).toList [.text (some s)] := by
  intro rest more _ hm
  rw [escape_plain h, List.cons_append, List.append_assoc, List.singleton_append]
  refine Scans.token (by decide) ?_ ?_ hm
  · show (scanString (s.toList ++ '"' :: rest)).map _ = _
    rw [scanString_plain h]
    simp only [Option.map_some, assemble_chars, String.ofList_toList]
  · simp only [List.length_append, List.length_cons]
    omega

/-- A mark that is a token by itself. -/
theorem Scans.mark {c : Char} {t : Token} {rest : List Char} {ts : List Token}
    (hc : isSpace c = false) (ht : ∀ rest, scanToken (c :: rest) = some (t, rest))
    (h : Scans rest ts) : Scans (c :: rest) (t :: ts) :=
  Scans.token hc (ht rest) (Nat.le_refl _) h

theorem Scans.indent (level : Nat) {rest : List Char} {ts : List Token} (h : Scans rest ts) :
    Scans ((indent level).toList ++ rest) ts := by
  have hspaces : ∀ n, Scans (List.replicate n ' ' ++ rest) ts := by
    intro n
    induction n with
    | zero => exact h
    | succ n ih => exact Scans.space rfl ih
  unfold Json.indent
  rw [String.toList_ofList]
  exact Scans.space rfl (hspaces _)

theorem ends_of_head {c : Char} (hc : c.isDigit = false ∧ c ≠ '.' ∧ c ≠ 'e' ∧ c ≠ 'E')
    (rest : List Char) : Ends (c :: rest) := by
  intro d hd
  cases hd
  exact hc

theorem Item.member {key value : String} {ts : List Token} (hk : IsPlain key)
    (hv : Item value.toList ts) :
    Item (escape key ++ ": " ++ value).toList (.text (some key) :: .colon :: ts) := by
  intro rest more hr hm
  have hcolon : Scans (':' :: ' ' :: (value.toList ++ rest)) (.colon :: (ts ++ more)) :=
    Scans.mark rfl (fun _ => rfl) (Scans.space rfl (hv rest more hr hm))
  have hkey := Item.string hk _ _ (ends_of_head (by decide) _) hcolon
  simpa using hkey

/-! ## Brackets -/

/-- A text with its tokens. -/
structure Scanned where
  text : String
  tokens : List Token
  item : Item text.toList tokens

theorem Scans.items (level : Nat) {items : List Scanned} (hne : items ≠ []) {rest : List Char}
    {more : List Token} (hr : Ends rest) (hm : Scans rest more) :
    Scans ((",".intercalate ((items.map Scanned.text).map (Json.indent level ++ ·))).toList ++ rest)
      ([Token.comma].intercalate (items.map Scanned.tokens) ++ more) := by
  induction items with
  | nil => exact absurd rfl hne
  | cons i others ih =>
    by_cases ho : others = []
    · subst ho
      have := Scans.indent level (i.item rest more hr hm)
      simpa using this
    · have hcomma := Scans.mark (c := ',') (t := .comma) rfl (fun _ => rfl) (ih ho)
      have := Scans.indent level (i.item _ _ (ends_of_head (by decide) _) hcomma)
      rw [List.map_cons, List.map_cons, List.map_cons,
        String.intercalate_cons_of_ne_nil (by simpa using ho),
        List.intercalate_cons_of_ne_nil (by simpa using ho)]
      simpa using this

/-- Items between brackets. -/
theorem Item.bracketed (opening closing : Char) {t u : Token} (level : Nat) {items : List Scanned}
    (hne : items ≠ []) (ho : isSpace opening = false) (hc : isSpace closing = false)
    (ht : ∀ rest, scanToken (opening :: rest) = some (t, rest))
    (hu : ∀ rest, scanToken (closing :: rest) = some (u, rest)) :
    Item (Json.bracketed (String.ofList [opening]) (String.ofList [closing]) level
        (items.map Scanned.text)).toList
      (t :: ([Token.comma].intercalate (items.map Scanned.tokens) ++ [u])) := by
  intro rest more hr hm
  have hclosing := Scans.indent level (Scans.mark hc hu hm)
  have hends : Ends ((Json.indent level).toList ++ closing :: rest) := by
    unfold Json.indent
    rw [String.toList_ofList]
    exact ends_of_head (by decide) _
  have hall := Scans.mark ho ht (Scans.items (level + 1) hne hends hclosing)
  unfold Json.bracketed
  rw [if_neg (by simpa using hne)]
  simpa using hall

namespace Scanned

/-- A natural number of at most 64 bits. -/
def number (n : Nat) (h : n < UInt64.size) : Scanned := ⟨_, _, Item.number h⟩

/-- A member of an object. -/
def member (key : String) (hk : IsPlain key) (value : Scanned) : Scanned :=
  ⟨_, _, Item.member hk value.item⟩

/-- The items of an array. -/
def array (level : Nat) (items : List Scanned) (hne : items ≠ []) : Scanned :=
  ⟨_, _, Item.bracketed '[' ']' level hne rfl rfl (fun _ => rfl) fun _ => rfl⟩

/-- The members of an object. -/
def object (level : Nat) (members : List Scanned) (hne : members ≠ []) : Scanned :=
  ⟨_, _, Item.bracketed '\x7b' '\x7d' level hne rfl rfl (fun _ => rfl) fun _ => rfl⟩

theorem tokens_eq (s : Scanned) : Json.tokens s.text = s.tokens := by
  have h := s.item [] [] (fun c hc => by cases hc) Scans.nil
  rw [List.append_nil, List.append_nil] at h
  exact h.tokens_eq

end Scanned

/-! ## Members -/

section

variable {σ : Type} {fields : List (FieldReader σ)} {f : FieldReader σ} {given : List String}
  {key : String} {acc next : σ} {ts rest : List Token}

/-- A known field with more members behind it. -/
theorem readMembers_comma (hf : fields.find? (·.name == key) = some f)
    (hg : given.contains key = false) (hr : f.read acc ts = .ok (next, .comma :: rest))
    (fuel : Nat) : readMembers fields given acc (fuel + 1) (.text (some key) :: .colon :: ts) =
      readMembers fields (key :: given) next fuel rest := by
  rw [readMembers]
  simp only [hf, hg, hr, Bool.false_eq_true, if_false]

/-- A known field that is the last member. -/
theorem readMembers_close (hf : fields.find? (·.name == key) = some f)
    (hg : given.contains key = false) (hr : f.read acc ts = .ok (next, .closeObject :: rest))
    (fuel : Nat) : readMembers fields given acc (fuel + 1) (.text (some key) :: .colon :: ts) =
      .ok ((next, key :: given), rest) := by
  rw [readMembers]
  simp only [hf, hg, hr, Bool.false_eq_true, if_false]

end

end Triage.Json

namespace Triage.VectorizerRecord

open Json

/-! ## The record -/

/-- Whether the numbers in a record have at most 64 bits. -/
structure Fits (r : VectorizerRecord) : Prop where
  maxFeatures : r.settings.maxFeatures < UInt64.size
  least : r.settings.ngrams.least < UInt64.size
  most : r.settings.ngrams.most < UInt64.size
  size : r.size < UInt64.size

/-- The tokens of a record. -/
def toTokens (r : VectorizerRecord) : List Token :=
  [.openObject none, .text (some "max_features"), .colon,
    .number (some (.natural r.settings.maxFeatures)), .comma,
    .text (some "ngram_range"), .colon, .openArray,
    .number (some (.natural r.settings.ngrams.least)), .comma,
    .number (some (.natural r.settings.ngrams.most)), .closeArray, .comma,
    .text (some "vocab_size"), .colon, .number (some (.natural r.size)), .closeObject]

/-- A record as it is written, with its tokens. -/
def scanned (r : VectorizerRecord) (h : r.Fits) : Scanned :=
  .object 0
    [.member "max_features" (by decide) (.number r.settings.maxFeatures h.maxFeatures),
      .member "ngram_range" (by decide)
        (.array 1 [.number r.settings.ngrams.least h.least, .number r.settings.ngrams.most h.most]
          (by simp)),
      .member "vocab_size" (by decide) (.number r.size h.size)]
    (by simp)

theorem tokens_pretty {r : VectorizerRecord} (h : r.Fits) :
    tokens r.toValue.pretty = r.toTokens :=
  (r.scanned h).tokens_eq

theorem ofRange (r : Text.NGramRange) : Text.NGramRange.of r.least r.most = .ok r :=
  dif_pos ⟨r.least_pos, r.least_le_most⟩

theorem readRange_of (r : Text.NGramRange) (rest : List Token) :
    Settings.readRange (.openArray :: .number (some (.natural r.least)) :: .comma ::
      .number (some (.natural r.most)) :: .closeArray :: rest) = .ok (r, rest) := by
  simp only [Settings.readRange, ofRange]

/-- A record is read back from its text. -/
theorem ofText_pretty {r : VectorizerRecord} (h : r.Fits) :
    ofText r.toValue.pretty = .ok r := by
  unfold ofText
  rw [tokens_pretty h]
  have hread : readRecord fields ⟨.standard, 0⟩ r.toTokens =
      .ok ((r, ["vocab_size", "ngram_range", "max_features"]), []) := by
    -- Behind the opening bracket there are sixteen tokens, and so much is the bound.
    show readMembers fields [] ⟨.standard, 0⟩ 16 _ = _
    rw [readMembers_comma rfl rfl rfl, readMembers_comma rfl rfl
      (by simp only [FieldReader.of, readRange_of]; rfl), readMembers_close rfl rfl rfl]
  unfold readAll readComplete
  rw [hread]
  rfl

end Triage.VectorizerRecord
