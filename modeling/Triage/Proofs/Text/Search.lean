/-
Substitution as a search. A search goes through the bytes of a text: from a place on it finds the
first one where a key begins and takes the longest key there, then goes on behind it (`Finds`). There
is one list of matches that it can find, and they divide the text (`Division`): between them stand
gaps, and what a substitution makes of the text is the gaps again with a replacement for each key.
That is also what is got by copying the slices of the text between the matches, none of which cuts a
character.
-/
import Triage.Proofs.Text.Encoding
import Triage.Proofs.Text.Substitution

namespace Triage.Text.Substitution

open Storage

/-! ## Searches -/

/-- Whether the bytes of a text go on with a key from a place. -/
def BeginsAt (key text : String) (p : Nat) : Prop :=
  bytesOf key <+: (bytesOf text).drop p

/-- An entry whose key was found, and where. -/
structure Match where
  start : Nat
  entry : String × String

/-- The place behind the key. -/
def Match.stop (m : Match) : Nat :=
  m.start + m.entry.1.utf8ByteSize

/-- What a search finds from a place on: nothing if no key begins there or behind, else the longest
key at the first place where one begins, and then what it finds behind that key. -/
inductive Finds (entries : List (String × String)) (text : String) : Nat → List Match → Prop
  | done {p : Nat} (none : ∀ q, p ≤ q → ∀ e ∈ entries, ¬BeginsAt e.1 text q) :
      Finds entries text p []
  | found {p : Nat} {m : Match} {ms : List Match} (behind : p ≤ m.start)
      (first : ∀ q, p ≤ q → q < m.start → ∀ e ∈ entries, ¬BeginsAt e.1 text q)
      (mem : m.entry ∈ entries) (begins : BeginsAt m.entry.1 text m.start)
      (longest : ∀ e ∈ entries, BeginsAt e.1 text m.start →
        e.1.utf8ByteSize ≤ m.entry.1.utf8ByteSize)
      (rest : Finds entries text m.stop ms) : Finds entries text p (m :: ms)

section

variable {s : Substitution} {text front back : String} {p q : Nat} {ms ns : List Match}

theorem beginsAt_append {key : String} :
    BeginsAt key (front ++ back) front.utf8ByteSize ↔ key.toList <+: back.toList := by
  rw [BeginsAt, bytesOf_append, ← length_bytesOf, List.drop_left, prefix_bytesOf_iff]

/-- Two entries are one if the key of either is the longest at a place. -/
theorem eq_of_longest {d e : String × String} (hd : d ∈ s.entries) (he : e ∈ s.entries)
    (hdp : BeginsAt d.1 text p) (hep : BeginsAt e.1 text p)
    (hsize : d.1.utf8ByteSize = e.1.utf8ByteSize) : d = e := by
  have hbytes : bytesOf d.1 = bytesOf e.1 := by
    refine (List.prefix_of_prefix_length_le hdp hep ?_).eq_of_length ?_
    · simp [hsize]
    · simp [hsize]
  exact List.inj_on_of_nodup_map s.keys_nodup hd he (bytesOf_injective hbytes)

/-- There is one thing that a search finds. -/
theorem Finds.unique (h : Finds s.entries text p ms) (h' : Finds s.entries text p ns) :
    ms = ns := by
  induction h generalizing ns with
  | done none =>
    cases h' with
    | done => rfl
    | found behind first mem begins => exact absurd begins (none _ behind _ mem)
  | @found p m ms behind first mem begins longest rest ih =>
    cases h' with
    | done none => exact absurd begins (none _ behind _ mem)
    | @found _ n ns behind' first' mem' begins' longest' rest' =>
      have hstart : m.start = n.start := by
        rcases Nat.lt_trichotomy m.start n.start with hlt | heq | hgt
        · exact absurd begins (first' _ behind hlt _ mem)
        · exact heq
        · exact absurd begins' (first _ behind' hgt _ mem')
      have hsize : m.entry.1.utf8ByteSize = n.entry.1.utf8ByteSize :=
        le_antisymm (longest' _ mem (hstart ▸ begins)) (longest _ mem' (hstart ▸ begins'))
      obtain ⟨start, entry⟩ := m
      obtain ⟨start', entry'⟩ := n
      cases hstart
      cases eq_of_longest mem mem' begins begins' hsize
      rw [ih rest']

/-- A search may as well begin before, where no key does. -/
theorem Finds.earlier {entries : List (String × String)} (h : Finds entries text q ms)
    (hpq : p ≤ q) (hnone : ∀ r, p ≤ r → r < q → ∀ e ∈ entries, ¬BeginsAt e.1 text r) :
    Finds entries text p ms := by
  cases h with
  | done none =>
    refine .done fun r hr => ?_
    rcases Nat.lt_or_ge r q with hlt | hge
    · exact hnone r hr hlt
    · exact none r hge
  | found behind first mem begins longest rest =>
    refine .found (hpq.trans behind) (fun r hr hlt => ?_) mem begins longest rest
    rcases Nat.lt_or_ge r q with hlt' | hge
    · exact hnone r hr hlt'
    · exact first r hge hlt

/-! ## Divisions -/

/-- A text divided at keys: the gap before each key with the entry of the key, and what is behind
the last. -/
structure Division where
  pieces : List (String × (String × String))
  rest : String

/-- Gaps with one side of an entry behind each. -/
def joined (side : String × String → String) :
    List (String × (String × String)) → String → String
  | [], rest => rest
  | (gap, e) :: pieces, rest => gap ++ side e ++ joined side pieces rest

/-- The matches that pieces from a place on consist of. -/
def matchesFrom (p : Nat) : List (String × (String × String)) → List Match
  | [] => []
  | (gap, e) :: pieces =>
    let m : Match := ⟨p + gap.utf8ByteSize, e⟩
    m :: matchesFrom m.stop pieces

namespace Division

/-- The text that is divided. -/
def source (d : Division) : String :=
  joined Prod.fst d.pieces d.rest

/-- The text with the replacements instead of the keys. -/
def result (d : Division) : String :=
  joined Prod.snd d.pieces d.rest

/-- Where the keys stand. -/
def matchList (d : Division) : List Match :=
  matchesFrom 0 d.pieces

end Division

/-- A text is divided in one way at given matches. -/
theorem eq_of_matchesFrom {pieces others : List (String × (String × String))} {rest more : String}
    (hsource : joined Prod.fst pieces rest = joined Prod.fst others more)
    (hmatches : matchesFrom p pieces = matchesFrom p others) : pieces = others ∧ rest = more := by
  induction pieces generalizing others p with
  | nil =>
    cases others with
    | nil => exact ⟨rfl, hsource⟩
    | cons b others => cases hmatches
  | cons a pieces ih =>
    cases others with
    | nil => cases hmatches
    | cons b others =>
      obtain ⟨gap, e⟩ := a
      obtain ⟨gap', e'⟩ := b
      obtain ⟨hhead, htail⟩ := List.cons.inj hmatches
      obtain ⟨hstart, rfl⟩ := Match.mk.inj hhead
      have hsize : gap.utf8ByteSize = gap'.utf8ByteSize := Nat.add_left_cancel hstart
      rw [joined, joined] at hsource
      obtain ⟨hfront, hback⟩ := append_inj_of_size hsource (by simp [hsize])
      obtain ⟨rfl, -⟩ := append_inj_of_size hfront hsize
      obtain ⟨rfl, rfl⟩ := ih hback htail
      exact ⟨rfl, rfl⟩

theorem Division.eq_of_matchList {d e : Division} (hsource : d.source = e.source)
    (hmatches : d.matchList = e.matchList) : d = e := by
  obtain ⟨pieces, rest⟩ := d
  obtain ⟨others, more⟩ := e
  obtain ⟨rfl, rfl⟩ := eq_of_matchesFrom hsource hmatches
  rfl

/-! ## Passes -/

/-- A character that is kept belongs to the first gap. -/
def keepFirst (c : Char) (d : Division) : Division :=
  match d with
  | ⟨[], rest⟩ => ⟨[], String.ofList [c] ++ rest⟩
  | ⟨(gap, e) :: pieces, rest⟩ => ⟨(String.ofList [c] ++ gap, e) :: pieces, rest⟩

theorem joined_keepFirst (side : String × String → String) (c : Char) (d : Division) :
    joined side (keepFirst c d).pieces (keepFirst c d).rest =
      String.ofList [c] ++ joined side d.pieces d.rest := by
  obtain ⟨_ | ⟨⟨gap, e⟩, pieces⟩, rest⟩ := d <;> simp [keepFirst, joined, String.append_assoc]

theorem matchesFrom_keepFirst (c : Char) (d : Division) :
    matchesFrom p (keepFirst c d).pieces =
      matchesFrom (p + (String.ofList [c]).utf8ByteSize) d.pieces := by
  obtain ⟨_ | ⟨⟨gap, e⟩, pieces⟩, rest⟩ := d
  · rfl
  · simp only [keepFirst, matchesFrom, String.utf8ByteSize_append, Nat.add_assoc]

theorem length_keepFirst (c : Char) (d : Division) :
    (keepFirst c d).pieces.length = d.pieces.length := by
  obtain ⟨_ | ⟨⟨gap, e⟩, pieces⟩, rest⟩ := d <;> rfl

theorem append_ofList_cons (front : String) (c : Char) (rest : List Char) :
    front ++ String.ofList (c :: rest) = front ++ String.ofList [c] ++ String.ofList rest := by
  rw [String.append_assoc, ← String.ofList_append, List.singleton_append]

/-- Where no key begins a text, none begins there or inside its first character. -/
theorem not_beginsAt_of_not_prefix {c : Char} {rest : List Char}
    (hno : ∀ e ∈ s.table, ¬e.1 <+: c :: rest) (hp : front.utf8ByteSize ≤ p)
    (hlt : p < (front ++ String.ofList [c]).utf8ByteSize) :
    ∀ e ∈ s.entries, ¬BeginsAt e.1 (front ++ String.ofList (c :: rest)) p := by
  intro e he hbegins
  obtain ⟨other, back, hsplit, rfl⟩ := exists_append_of_prefix (s.keys_ne_empty e he) hbegins
  rw [append_ofList_cons] at hsplit
  obtain rfl := eq_of_append_within hsplit.symm hp hlt
  rw [beginsAt_append] at hbegins
  exact hno (e.1.toList, e.2.toList) (List.mem_map_of_mem he) (by simpa using hbegins)

theorem not_beginsAt_behind (hp : text.utf8ByteSize ≤ p) :
    ∀ e ∈ s.entries, ¬BeginsAt e.1 text p := by
  intro e he hbegins
  rw [BeginsAt, List.drop_eq_nil_of_le (by simpa using hp), List.prefix_nil] at hbegins
  exact s.keys_ne_empty e he (bytesOf_injective (hbegins.trans (by simp [bytesOf_eq])))

/-- The longest key in characters is the longest in bytes. -/
theorem size_le_of_isLongest {e d : String × String} {rest : List Char}
    (h : IsLongest s.table (e.1.toList ++ rest) (e.1.toList, e.2.toList)) (hd : d ∈ s.entries)
    (hbegins : d.1.toList <+: e.1.toList ++ rest) : d.1.utf8ByteSize ≤ e.1.utf8ByteSize := by
  have hlength := h.longest (d.1.toList, d.2.toList) (List.mem_map_of_mem hd) hbegins
  have hprefix : d.1.toList <+: e.1.toList :=
    List.prefix_of_prefix_length_le hbegins (List.prefix_append _ _) hlength
  simpa using (prefix_bytesOf_iff.2 hprefix).length_le

/-- What a pass makes of a text comes of a division at the matches of a search. -/
theorem exists_division_of_pass {rest out : List Char} {n : Nat} (h : Pass s.table rest out n)
    (front : String) : ∃ d : Division, d.source = String.ofList rest ∧
      d.result = String.ofList out ∧ d.pieces.length = n ∧
      Finds s.entries (front ++ String.ofList rest) front.utf8ByteSize
        (matchesFrom front.utf8ByteSize d.pieces) := by
  -- By induction on the pass; `front` is what it has left behind.
  induction h generalizing front with
  | nil =>
    refine ⟨⟨[], ""⟩, rfl, rfl, rfl, .done fun q hq => not_beginsAt_behind ?_⟩
    simpa using hq
  | @keep c rest out n hno _ ih =>
    obtain ⟨d, hsource, hresult, hlength, hfinds⟩ := ih (front ++ String.ofList [c])
    refine ⟨keepFirst c d, ?_, ?_, ?_, ?_⟩
    · rw [Division.source, joined_keepFirst, ← Division.source, hsource, ← String.ofList_append,
        List.singleton_append]
    · rw [Division.result, joined_keepFirst, ← Division.result, hresult, ← String.ofList_append,
        List.singleton_append]
    · rw [length_keepFirst, hlength]
    · have hnone := fun r (hr : front.utf8ByteSize ≤ r) hlt =>
        not_beginsAt_of_not_prefix (s := s) hno hr hlt
      rw [matchesFrom_keepFirst, ← String.utf8ByteSize_append]
      rw [← append_ofList_cons] at hfinds
      exact hfinds.earlier (by simp) hnone
  | @swap e rest out n he _ ih =>
    obtain ⟨a, ha, rfl⟩ := List.mem_map.1 he.mem
    obtain ⟨d, hsource, hresult, hlength, hfinds⟩ := ih (front ++ a.1)
    have hsplit : front ++ String.ofList (a.1.toList ++ rest) =
        front ++ a.1 ++ String.ofList rest := by
      rw [String.ofList_append, String.ofList_toList, String.append_assoc]
    have hstop : (Match.mk front.utf8ByteSize a).stop = (front ++ a.1).utf8ByteSize := by
      rw [Match.stop, String.utf8ByteSize_append]
    refine ⟨⟨("", a) :: d.pieces, d.rest⟩, ?_, ?_, ?_, ?_⟩
    · rw [Division.source, joined, ← Division.source, hsource]
      simp
    · rw [Division.result, joined, ← Division.result, hresult]
      simp
    · rw [List.length_cons, hlength]
    · have hbegins (d : String × String) :
          BeginsAt d.1 (front ++ String.ofList (a.1.toList ++ rest)) front.utf8ByteSize ↔
            d.1.toList <+: a.1.toList ++ rest := by
        rw [beginsAt_append, String.toList_ofList]
      refine .found (Nat.le_add_right _ _) (fun q hq hlt => ?_) ha ?_ (fun d hd hdp => ?_) ?_
      · exact absurd hlt (by simpa using hq)
      · exact (hbegins a).2 (List.prefix_append _ _)
      · exact size_le_of_isLongest he hd ((hbegins d).1 hdp)
      · rw [hsplit]
        simpa [hstop] using hfinds

/-! ## Copies -/

/-- What was written, how many keys were replaced in it, and the place behind the last. -/
structure Copy where
  out : String
  count : Nat
  last : Nat

/-- Writes the slice before a match and the replacement of its key. -/
def Copy.step (text : String) (c : Copy) (m : Match) : Option Copy :=
  (textBetween? text c.last m.start).map fun gap =>
    ⟨c.out ++ gap ++ m.entry.2, c.count + 1, m.stop⟩

/-- Writes what is behind the last match. -/
def Copy.finish (text : String) (c : Copy) : Option (String × Nat) :=
  (textBetween? text c.last text.utf8ByteSize).map fun rest => (c.out ++ rest, c.count)

/-- A text copied with replacements for its matches, and how many there were. -/
def copied (text : String) (ms : List Match) : Option (String × Nat) := do
  let c ← ms.foldlM (Copy.step text) ⟨"", 0, 0⟩
  c.finish text

theorem copied_matchesFrom (pieces : List (String × (String × String))) (rest front out : String)
    (n : Nat) : let text := front ++ joined Prod.fst pieces rest
    ((matchesFrom front.utf8ByteSize pieces).foldlM (Copy.step text)
      ⟨out, n, front.utf8ByteSize⟩).bind (Copy.finish text) =
        some (out ++ joined Prod.snd pieces rest, n + pieces.length) := by
  intro text
  induction pieces generalizing front out n with
  | nil =>
    have hslice := textBetween?_append front rest ""
    rw [String.append_empty] at hslice
    simp only [matchesFrom, List.foldlM_nil, Copy.finish, text, joined, Option.pure_def,
      Option.bind_some, hslice, Option.map_some, List.length_nil, Nat.add_zero]
  | cons piece pieces ih =>
    obtain ⟨gap, e⟩ := piece
    have hsplit : text = front ++ gap ++ (e.1 ++ joined Prod.fst pieces rest) := by
      simp [text, joined, String.append_assoc]
    have hbehind : text = front ++ gap ++ e.1 ++ joined Prod.fst pieces rest := by
      simp [text, joined, String.append_assoc]
    have hslice := textBetween?_append front gap (e.1 ++ joined Prod.fst pieces rest)
    have hrest := ih (front ++ gap ++ e.1) (out ++ gap ++ e.2) (n + 1)
    rw [← hsplit, String.utf8ByteSize_append] at hslice
    rw [← hbehind] at hrest
    have hstep : Copy.step text ⟨out, n, front.utf8ByteSize⟩
        ⟨front.utf8ByteSize + gap.utf8ByteSize, e⟩ =
          some ⟨out ++ gap ++ e.2, n + 1, (front ++ gap ++ e.1).utf8ByteSize⟩ := by
      simp [Copy.step, hslice, Match.stop]
    have hstop : (Match.mk (front.utf8ByteSize + gap.utf8ByteSize) e).stop =
        (front ++ gap ++ e.1).utf8ByteSize := by
      simp [Match.stop]
    rw [matchesFrom, List.foldlM_cons, hstep, hstop]
    refine hrest.trans ?_
    simp only [joined, String.append_assoc, List.length_cons, Nat.add_assoc, Nat.add_comm 1]

theorem copied_matchList (d : Division) :
    copied d.source d.matchList = some (d.result, d.pieces.length) := by
  have h := copied_matchesFrom d.pieces d.rest "" "" 0
  rwa [String.empty_append, String.empty_append, Nat.zero_add] at h

/-! ## Substitutions -/

/-- A substitution divides a text at what a search finds in it. -/
theorem exists_division (s : Substitution) (text : String) : ∃ d : Division, d.source = text ∧
    Finds s.entries text 0 d.matchList ∧ s.replace text = (d.result, d.pieces.length) := by
  obtain ⟨d, hsource, hresult, hlength, hfinds⟩ := exists_division_of_pass (s.pass_replace text) ""
  rw [String.ofList_toList] at hsource hresult hfinds
  rw [String.empty_append] at hfinds
  exact ⟨d, hsource, hfinds, by rw [hresult, hlength]⟩

end

/-- Just the tables without empty and repeated keys are accepted. A substitution divides every text
in gaps and keys, in the one way that is found by going on, behind each key, to the first place where
a key begins and taking the longest there; it puts a replacement for each key and counts them. To
copy the slices between any matches so found gives the same. -/
theorem replace_leftmost_longest :
    (∀ entries : List (String × String), (∃ s, ofList entries = .ok s) ↔
      (∀ e ∈ entries, e.1 ≠ "") ∧ (entries.map Prod.fst).Nodup) ∧
    ∀ (entries : List (String × String)) (s : Substitution), ofList entries = .ok s →
      ∀ text : String,
        (∃ d : Division, d.source = text ∧ Finds entries text 0 d.matchList ∧
          s.replace text = (d.result, d.pieces.length) ∧
          ∀ e : Division, e.source = text → Finds entries text 0 e.matchList → e = d) ∧
        ∀ ms, Finds entries text 0 ms → copied text ms = some (s.replace text) := by
  refine ⟨fun entries => exists_ofList_iff, fun entries s hs text => ?_⟩
  obtain rfl := entries_of_ofList hs
  obtain ⟨d, rfl, hfinds, hreplace⟩ := s.exists_division text
  constructor
  · refine ⟨d, rfl, hfinds, hreplace, fun e hsource hfound => ?_⟩
    exact Division.eq_of_matchList hsource (hfound.unique hfinds)
  · intro ms hfound
    rw [hfound.unique hfinds, copied_matchList, hreplace]

/-- A table with one key at the front of the other, and characters of several bytes. -/
def nested : Substitution where
  entries := [("薇", "微"), ("薇信", "微信号")]
  keys_ne_empty := by decide
  keys_nodup := by decide

theorem replace_leftmost_longest_nested :
    ofList [("薇", "微"), ("薇信", "微信号")] = .ok nested ∧ ∃ d : Division,
      d.source = "加薇信薇!" ∧ Finds nested.entries "加薇信薇!" 0 d.matchList ∧
      ("加微信号微!", 2) = (d.result, d.pieces.length) ∧
      copied "加薇信薇!" d.matchList = some ("加微信号微!", 2) := by
  have hreplace : nested.replace "加薇信薇!" = ("加微信号微!", 2) := by decide +kernel
  have h := replace_leftmost_longest.2 nested.entries nested rfl "加薇信薇!"
  obtain ⟨d, hsource, hfinds, hresult, -⟩ := h.1
  rw [hreplace] at hresult
  exact ⟨rfl, d, hsource, hfinds, hresult, hreplace ▸ h.2 _ hfinds⟩

end Triage.Text.Substitution
