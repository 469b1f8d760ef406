/-
N-grams are the windows of the tokens. A window stands at a place, given by its length and where it
begins; the n-grams of a text are its windows joined, place by place, shorter windows first and then
from left to right. Joining keeps windows apart, since tokens have no blanks: the tokens of a window
can be read off its n-gram. So an n-gram occurs as often as its window.
-/
import Triage.Proofs.Text.Token

namespace Triage.Text

variable {α : Type} {n m : Nat} {r : NGramRange} {p : Nat × Nat}

/-! ## Windows -/

/-- The window of a list at a place, given by its length and where it begins. -/
def window (l : List α) (p : Nat × Nat) : List α :=
  (l.drop p.2).take p.1

/-- The windows of one length, each where it begins. -/
theorem windows_eq (hn : 0 < n) (l : List α) :
    windows n l = (List.range (l.length + 1 - n)).map fun i => window l (n, i) := by
  induction l with
  | nil =>
    have hnone : ([] : List α).length + 1 - n = 0 := by simp only [List.length_nil]; omega
    rw [hnone]
    rfl
  | cons a rest ih =>
    unfold windows
    simp only [List.length_take, List.length_cons]
    by_cases hfits : n ≤ rest.length + 1
    · have hone : rest.length + 1 + 1 - n = (rest.length + 1 - n) + 1 := by omega
      rw [if_pos (Nat.min_eq_left hfits), ih, hone, List.range_succ_eq_map, List.map_cons,
        List.map_map]
      rfl
    · have hnone : rest.length + 1 + 1 - n = 0 := by omega
      rw [if_neg (by omega), hnone]
      rfl

theorem length_window {l : List α} (h : p.2 + p.1 ≤ l.length) : (window l p).length = p.1 := by
  unfold window
  rw [List.length_take, List.length_drop]
  omega

/-- A window has the members of the list from where it begins. -/
theorem getElem?_window {l : List α} {k : Nat} (hk : k < p.1) : (window l p)[k]? = l[p.2 + k]? := by
  unfold window
  rw [List.getElem?_take_of_lt hk, List.getElem?_drop]

/-! ## Places -/

namespace NGramRange

/-- The places of windows in a list of `m` tokens, those of the least length first. -/
def places (r : NGramRange) (m : Nat) : List (Nat × Nat) :=
  (List.range' r.least (min r.most m + 1 - r.least)).flatMap fun n =>
    (List.range (m + 1 - n)).map (n, ·)

theorem mem_places : p ∈ r.places m ↔ r.least ≤ p.1 ∧ p.1 ≤ r.most ∧ p.2 + p.1 ≤ m := by
  unfold places
  simp only [List.mem_flatMap, List.mem_range'_1, List.mem_map, List.mem_range]
  constructor
  · rintro ⟨n, hn, i, hi, rfl⟩
    dsimp only
    omega
  · intro h
    exact ⟨p.1, by omega, p.2, by omega, rfl⟩

theorem pairwise_places (r : NGramRange) (m : Nat) :
    (r.places m).Pairwise fun p q => p.1 < q.1 ∨ p.1 = q.1 ∧ p.2 < q.2 := by
  have hlengths := List.pairwise_lt_range' (s := r.least) (n := min r.most m + 1 - r.least) 1
  refine List.pairwise_flatMap.2 ⟨fun n _ => ?same, hlengths.imp ?shorter⟩
  case same => exact List.pairwise_map.2 (List.pairwise_lt_range.imp fun h => .inr ⟨rfl, h⟩)
  case shorter =>
    intro n k hnk p hp q hq
    obtain ⟨_, -, rfl⟩ := List.mem_map.1 hp
    obtain ⟨_, -, rfl⟩ := List.mem_map.1 hq
    exact .inl hnk

theorem length_places (r : NGramRange) (m : Nat) :
    (r.places m).length = ∑ n ∈ Finset.Icc r.least (min r.most m), (m - n + 1) := by
  have hlengths : (List.range' r.least (min r.most m + 1 - r.least)).toFinset =
      Finset.Icc r.least (min r.most m) := by
    ext n
    simp only [List.mem_toFinset, List.mem_range'_1, Finset.mem_Icc]
    omega
  unfold places
  rw [List.length_flatMap, ← hlengths, List.sum_toFinset _ List.nodup_range']
  refine congrArg List.sum (List.map_congr_left fun n hn => ?_)
  rw [List.mem_range'_1] at hn
  rw [List.length_map, List.length_range]
  omega

theorem places_eq_nil (h : m < r.least) : r.places m = [] := by
  refine List.eq_nil_iff_forall_not_mem.2 fun p hp => ?_
  rw [mem_places] at hp
  omega

/-- The n-grams, place by place. -/
theorem extract_eq (r : NGramRange) (tokens : List String) :
    r.extract tokens =
      (r.places tokens.length).map fun p => " ".intercalate (window tokens p) := by
  unfold extract places
  rw [List.map_flatMap, List.flatMap_congr fun n hn => ?_]
  rw [windows_eq (Nat.lt_of_lt_of_le r.least_pos (List.mem_range'_1.1 hn).1), List.map_map,
    List.map_map]
  rfl

/-- The whole list is an n-gram if its length is within the range. -/
theorem intercalate_mem_extract {tokens : List String} (hleast : r.least ≤ tokens.length)
    (hmost : tokens.length ≤ r.most) : " ".intercalate tokens ∈ r.extract tokens := by
  have hplace : (tokens.length, 0) ∈ r.places tokens.length :=
    mem_places.2 ⟨hleast, hmost, Nat.le_of_eq (Nat.zero_add _)⟩
  rw [extract_eq]
  exact List.mem_map.2 ⟨_, hplace, by simp [window]⟩

end NGramRange

/-! ## Joining -/

/-- The words of a text joined can be read off it. -/
theorem intercalate_inj {a b : List String} (ha : a ≠ []) (hb : b ≠ [])
    (hblank : ∀ t, t ∈ a ∨ t ∈ b → ' ' ∉ t.toList) (h : " ".intercalate a = " ".intercalate b) :
    a = b := by
  have hsplit {l : List String} (hl : l ≠ []) (hfree : ∀ t ∈ l, ' ' ∉ t.toList) :
      (" ".intercalate l).toList.splitOn ' ' = l.map String.toList := by
    rw [String.toList_intercalate]
    refine List.splitOn_intercalate ' ' (fun t ht => ?_) (by simpa using hl)
    obtain ⟨s, hs, rfl⟩ := List.mem_map.1 ht
    exact hfree s hs
  refine List.map_injective_iff.2 (fun _ _ => String.toList_inj.1) ?_
  rw [← hsplit ha fun t ht => hblank t (.inl ht), ← hsplit hb fun t ht => hblank t (.inr ht), h]

/-- A window of a text is a list of tokens. -/
theorem window_ne_nil {text : String} (hp : p ∈ r.places (tokenize text).length) :
    window (tokenize text) p ≠ [] := by
  obtain ⟨hleast, -, hend⟩ := NGramRange.mem_places.1 hp
  have hpos := r.least_pos
  rw [← List.length_pos_iff, length_window hend]
  omega

theorem space_not_mem_of_mem_window {text t : String} (ht : t ∈ window (tokenize text) p) :
    ' ' ∉ t.toList := by
  intro hspace
  have hfree := isBlank_tokenize (List.mem_of_mem_drop (List.mem_of_mem_take ht)) ' ' hspace
  exact absurd hfree (by decide)

theorem window_eq_of_intercalate {s : NGramRange} {text other : String} {q : Nat × Nat}
    (hp : p ∈ r.places (tokenize text).length) (hq : q ∈ s.places (tokenize other).length)
    (h : " ".intercalate (window (tokenize text) p) = " ".intercalate (window (tokenize other) q)) :
    window (tokenize text) p = window (tokenize other) q :=
  intercalate_inj (window_ne_nil hp) (window_ne_nil hq)
    (fun _ ht => ht.elim space_not_mem_of_mem_window space_not_mem_of_mem_window) h

/-- An n-gram occurs as often as its window. -/
theorem count_extract {text : String} (hp : p ∈ r.places (tokenize text).length) :
    (r.extract (tokenize text)).count (" ".intercalate (window (tokenize text) p)) =
      (r.places (tokenize text).length).countP
        fun q => window (tokenize text) q = window (tokenize text) p := by
  rw [NGramRange.extract_eq, List.count, List.countP_map]
  refine List.countP_congr fun q hq => ?_
  rw [Function.comp_apply, beq_iff_eq, decide_eq_true_eq]
  exact ⟨window_eq_of_intercalate hq hp, congrArg _⟩

/-- An n-gram occurs at most once for each token, since its window begins at another one each
time. -/
theorem count_extract_le (r : NGramRange) (text ngram : String) :
    (r.extract (tokenize text)).count ngram ≤ (tokenize text).length := by
  by_cases hmem : ngram ∈ r.extract (tokenize text)
  · rw [r.extract_eq] at hmem
    obtain ⟨p, hp, rfl⟩ := List.mem_map.1 hmem
    have hlength {q : Nat × Nat} (hq : q ∈ r.places (tokenize text).length)
        (hsame : window (tokenize text) q = window (tokenize text) p) : q.1 = p.1 := by
      rw [← length_window (NGramRange.mem_places.1 hq).2.2, hsame,
        length_window (NGramRange.mem_places.1 hp).2.2]
    rw [count_extract hp, List.countP_eq_length_filter]
    generalize hfound : (r.places (tokenize text).length).filter _ = found
    have hat {q : Nat × Nat} (hq : q ∈ found) :
        q ∈ r.places (tokenize text).length ∧ q.1 = p.1 := by
      rw [← hfound, List.mem_filter, decide_eq_true_eq] at hq
      exact ⟨hq.1, hlength hq.1 hq.2⟩
    have hnodup : (found.map Prod.snd).Nodup := by
      refine List.pairwise_map.2 ((hfound ▸ (r.pairwise_places _).filter _).imp_of_mem ?_)
      intro a b ha hb hab
      have := hat ha
      have := hat hb
      omega
    have hsub : found.map Prod.snd ⊆ List.range (tokenize text).length := by
      intro start hstart
      obtain ⟨q, hq, rfl⟩ := List.mem_map.1 hstart
      have hplace := NGramRange.mem_places.1 (hat hq).1
      have := r.least_pos
      exact List.mem_range.2 (by omega)
    simpa using (List.subperm_of_subset hnodup hsub).length_le
  · rw [List.count_eq_zero_of_not_mem hmem]
    exact Nat.zero_le _

/-! ## Main statement -/

/-- The n-grams of a text are its windows joined. There is one at each place at which as many tokens
follow as the window is long, for every length of the range; they come in the order of their lengths,
then of where they begin. A window consists of the tokens from its place on. Windows are joined to
one n-gram only if they are the same list of tokens, whatever texts they are of; so an n-gram occurs
as often as its window. -/
theorem extract_windows (r : NGramRange) (text : String) :
    let tokens := tokenize text
    let places := r.places tokens.length
    (r.extract tokens = places.map fun p => " ".intercalate (window tokens p)) ∧
    (places.Pairwise fun p q => p.1 < q.1 ∨ p.1 = q.1 ∧ p.2 < q.2) ∧
    (∀ n start, (n, start) ∈ places ↔
      r.least ≤ n ∧ n ≤ min r.most tokens.length ∧ start + n ≤ tokens.length) ∧
    (∀ p ∈ places, (window tokens p).length = p.1 ∧
      ∀ k < p.1, (window tokens p)[k]? = tokens[p.2 + k]?) ∧
    (r.extract tokens).length =
      ∑ n ∈ Finset.Icc r.least (min r.most tokens.length), (tokens.length - n + 1) ∧
    (tokens.length < r.least → r.extract tokens = []) ∧
    (∀ (s : NGramRange) (other : String), ∀ p ∈ places, ∀ q ∈ s.places (tokenize other).length,
      " ".intercalate (window tokens p) = " ".intercalate (window (tokenize other) q) ↔
        window tokens p = window (tokenize other) q) ∧
    ∀ p ∈ places, (r.extract tokens).count (" ".intercalate (window tokens p)) =
      places.countP fun q => window tokens q = window tokens p := by
  intro tokens places
  have hextract := r.extract_eq tokens
  refine ⟨hextract, r.pairwise_places _, fun n start => ?member, fun p hp => ?window, ?length,
    fun hshort => ?short, fun s other p hp q hq => ?joined, fun p hp => count_extract hp⟩
  case member =>
    rw [NGramRange.mem_places]
    dsimp only
    omega
  case window =>
    exact ⟨length_window (NGramRange.mem_places.1 hp).2.2, fun k hk => getElem?_window hk⟩
  case length => rw [hextract, List.length_map, NGramRange.length_places]
  case short => rw [hextract, NGramRange.places_eq_nil hshort, List.map_nil]
  case joined => exact ⟨window_eq_of_intercalate hp hq, congrArg _⟩

example : NGramRange.upToThree.extract (tokenize "加VX8 vx8") =
    ["加", "vx8", "vx8", "加 vx8", "vx8 vx8", "加 vx8 vx8"] := by decide +kernel

end Triage.Text
