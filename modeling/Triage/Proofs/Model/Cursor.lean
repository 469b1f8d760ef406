/-
Reading a model is safe on any bytes. `decode` reads with the arithmetic of a machine: it keeps its
place in the bytes, stops where a length is taken from a smaller one, where a product has more than
64 bits or where a byte is not there, and notes the length of every vector it makes for a layer. It
comes to what `Model.ofBytes` gives, so none of these stops is ever reached, and no vector is longer
than the bytes.
-/
import Triage.Proofs.Model.Forward

namespace Triage

namespace Model

/-! ## Reading by place -/

/-- Why reading stops: a fault of the model, or arithmetic or a place out of range. -/
inductive Stop where
  | fault (f : ModelFault)
  | underflow
  | overflow
  | outOfRange
  deriving DecidableEq

/-- A place in the bytes, and the lengths of the vectors that have been made so far. -/
structure Cursor where
  position : Nat
  vectors : List Nat

def Cursor.start : Cursor := ⟨0, []⟩

abbrev Decoder := ExceptT Stop (StateM Cursor)

def stop {α : Type} (f : ModelFault) : Decoder α :=
  throw (.fault f)

def difference (a b : Nat) : Decoder Nat :=
  if b ≤ a then pure (a - b) else throw .underflow

def product (a b : Nat) : Decoder Nat :=
  if a * b < UInt64.size then pure (a * b) else throw .overflow

def allocate (n : Nat) : Decoder Unit :=
  modify fun c => { c with vectors := n :: c.vectors }

def byteAt (bytes : List UInt8) (i : Nat) : Decoder UInt8 :=
  match bytes[i]? with
  | some b => pure b
  | none => throw .outOfRange

section

variable (body : List UInt8)

/-- The number of bytes behind the place. -/
def remaining : Decoder Nat := do
  let c ← get
  difference body.length c.position

def decodeBytes (n : Nat) : Decoder (List UInt8) := do
  let c ← get
  let front := (body.drop c.position).take n
  if front.length = n then
    set { c with position := c.position + n }
    pure front
  else stop .truncated

def decodeNumber (n : Nat) : Decoder Nat := do
  let front ← decodeBytes body n
  pure (ofLittleEndian front)

def decodeSingles (n : Nat) : Decoder Singles := do
  allocate n
  let front ← decodeBytes body (4 * n)
  let xs := singlesOf front
  if xs.all Float32.isFinite then pure xs.toArray else stop .notFinite

def decodeActivation (index : Nat) : Decoder Activation := do
  let code ← decodeNumber body 1
  match code with
  | 0 => pure .relu
  | 1 => pure .softmax
  | _ => stop (.activation index code)

def decodeWeights (index code count outputs : Nat) : Decoder StoredWeights :=
  match code with
  | 0 => do
    let w ← decodeSingles body count
    pure (.float32 w)
  | 1 => do
    let scales ← decodeSingles body outputs
    allocate count
    let values ← decodeBytes body count
    pure (.int8 scales (values.map UInt8.toInt8).toArray)
  | _ => stop (.weightType index code)

def decodeLayer (index : Nat) : Decoder StoredLayer := do
  let inputs ← decodeNumber body 4
  let outputs ← decodeNumber body 4
  let activation ← decodeActivation body index
  let code ← decodeNumber body 1
  let count ← product inputs outputs
  if count = 0 then stop (.shape index inputs outputs)
  let room ← remaining body
  if room < count then stop (.tooManyWeights index count room)
  let weights ← decodeWeights body index code count outputs
  let bias ← decodeSingles body outputs
  pure ⟨inputs, outputs, activation, weights, bias⟩

def decodeLayers (index : Nat) : Nat → Decoder (List StoredLayer)
  | 0 => pure []
  | n + 1 => do
    let l ← decodeLayer body index
    let ls ← decodeLayers (index + 1) n
    pure (l :: ls)

def decodeBody : Decoder Model := do
  let mark ← decodeBytes body 4
  if mark ≠ magic then stop .magic
  let version ← decodeNumber body 2
  if version ≠ 1 then stop (.version version)
  let count ← decodeNumber body 2
  if count = 0 then stop .noLayers
  let layers ← decodeLayers body 0 count
  let left ← remaining body
  if left ≠ 0 then stop (.trailing left)
  match chainFault? 0 layers with
  | some f => stop f
  | none => pure ⟨methodOf layers, layers⟩

end

/-- Reads a model from bytes by place. -/
def decode (bytes : List UInt8) : Decoder Model := do
  if bytes.length < 12 then stop (.tooShort bytes.length)
  let cut ← difference bytes.length 4
  let body := bytes.take cut
  let trailer := bytes.drop cut
  let a ← byteAt trailer 0
  let b ← byteAt trailer 1
  let c ← byteAt trailer 2
  let d ← byteAt trailer 3
  let stored := UInt32.ofNat (ofLittleEndian [a, b, c, d])
  let computed := checksum body
  if stored ≠ computed then stop (.checksum stored computed)
  decodeBody body

/-- What comes of reading a model by place, and the place in the end. -/
def decoding (bytes : List UInt8) : Except Stop Model × Cursor :=
  decode bytes .start

/-! ## Following a reader -/

/-- Whether a place is in the bytes, and no vector is longer than they are. -/
structure Cursor.Within (body : List UInt8) (c : Cursor) : Prop where
  position : c.position ≤ body.length
  vectors : ∀ n ∈ c.vectors, n ≤ body.length

/-- Whether a decoder stays within the bytes and ends as a computation does: with its fault, or with
a value that is related to its own. -/
def Follows {α β : Type} (body : List UInt8) (c : Cursor) (R : α → Cursor → β → Prop)
    (d : Decoder α) (x : Except ModelFault β) : Prop :=
  (d c).2.Within body ∧ Alike (fun s f => s = .fault f) (fun a b => R a (d c).2 b) (d c).1 x

/-- A reader gives a value and what is behind the place. -/
def Taken {α : Type} (body : List UInt8) (a : α) (c : Cursor) (b : α × List UInt8) : Prop :=
  b = (a, body.drop c.position)

section

variable {α β γ δ : Type} {body : List UInt8} {c c' : Cursor}

theorem run_bind_ok {d : Decoder α} {k : α → Decoder β} {a : α} (h : d c = (.ok a, c')) :
    (d >>= k) c = k a c' := by
  show ExceptT.bindCont k (d c).1 (d c).2 = _
  rw [h]
  rfl

theorem run_bind_error {d : Decoder α} {k : α → Decoder β} {s : Stop} (h : d c = (.error s, c')) :
    (d >>= k) c = (.error s, c') := by
  show ExceptT.bindCont k (d c).1 (d c).2 = _
  rw [h]
  rfl

theorem follows_pure {R : α → Cursor → β → Prop} {a : α} {b : β} (hc : c.Within body)
    (h : R a c b) : Follows body c R (pure a) (.ok b) :=
  ⟨hc, h⟩

theorem follows_stop {R : α → Cursor → β → Prop} (hc : c.Within body) (f : ModelFault) :
    Follows body c R (stop f) (.error f) :=
  ⟨hc, rfl⟩

/-- A step that only a decoder takes. -/
theorem follows_step {R : β → Cursor → γ → Prop} {d : Decoder α} {k : α → Decoder β} {a : α}
    {x : Except ModelFault γ} (h : d c = (.ok a, c')) (hk : Follows body c' R (k a) x) :
    Follows body c R (d >>= k) x := by
  unfold Follows
  rw [run_bind_ok h]
  exact hk

/-- What follows goes on from related values. -/
theorem follows_bind {R : α → Cursor → γ → Prop} {S : β → Cursor → δ → Prop} {d : Decoder α}
    {k : α → Decoder β} {x : Except ModelFault γ} {f : γ → Except ModelFault δ}
    (hd : Follows body c R d x)
    (hk : ∀ a c' b, Cursor.Within body c' → x = .ok b → R a c' b →
      Follows body c' S (k a) (f b)) :
    Follows body c S (d >>= k) (x >>= f) := by
  obtain ⟨hwithin, hends⟩ := hd
  generalize hrun : d c = end' at hwithin hends
  obtain ⟨r, c'⟩ := end'
  match r, x, hends with
  | .ok a, .ok b, hends => exact follows_step hrun (hk a c' b hwithin rfl hends)
  | .error s, .error e, hends =>
    unfold Follows
    rw [run_bind_error hrun]
    exact ⟨hwithin, hends⟩

theorem follows_check {R : β → Cursor → δ → Prop} {p : Prop} [Decidable p] {f : ModelFault}
    {k : α → Decoder β} {g : γ → Except ModelFault δ} {d : Decoder β} {x : Except ModelFault δ}
    (hc : c.Within body) (h : ¬p → Follows body c R d x) :
    Follows body c R (if p then stop f >>= k else d) (if p then .error f >>= g else x) := by
  by_cases hp : p
  · rw [if_pos hp, if_pos hp]
    exact ⟨hc, rfl⟩
  · rw [if_neg hp, if_neg hp]
    exact h hp

/-! ## Arithmetic in range -/

theorem difference_run {a b : Nat} (h : b ≤ a) : difference a b c = (.ok (a - b), c) := by
  rw [difference, if_pos h]
  rfl

theorem product_run {a b : Nat} (ha : a < 256 ^ 4) (hb : b < 256 ^ 4) :
    product a b c = (.ok (a * b), c) := by
  have hlt : a * b < UInt64.size := Nat.mul_lt_mul'' ha hb
  rw [product, if_pos hlt]
  rfl

theorem byteAt_run {bytes : List UInt8} {i : Nat} {b : UInt8} (h : bytes[i]? = some b) :
    byteAt bytes i c = (.ok b, c) := by
  rw [byteAt, h]
  rfl

theorem remaining_run (hc : c.Within body) :
    remaining body c = (.ok (body.drop c.position).length, c) := by
  have hget : (get : Decoder Cursor) c = (.ok c, c) := rfl
  rw [remaining, run_bind_ok hget, difference_run hc.position, List.length_drop]

theorem Cursor.Within.allocate (hc : c.Within body) {n : Nat} (hn : n ≤ body.length) :
    Cursor.Within body { c with vectors := n :: c.vectors } where
  position := hc.position
  vectors := List.forall_mem_cons.2 ⟨hn, hc.vectors⟩

/-! ## Fields -/

theorem follows_decodeBytes (hc : c.Within body) (n : Nat) :
    Follows body c (Taken body) (decodeBytes body n) (takeBytes n (body.drop c.position)) := by
  have hget : (get : Decoder Cursor) c = (.ok c, c) := rfl
  refine follows_step hget ?_
  unfold takeBytes
  by_cases hlength : ((body.drop c.position).take n).length = n
  · simp only [hlength, if_true]
    have hroom : c.position + n ≤ body.length := by
      have hplace := hc.position
      rw [List.length_take, List.length_drop] at hlength
      omega
    refine ⟨⟨hroom, hc.vectors⟩, ?_⟩
    show (_, _) = (_, body.drop (c.position + n))
    rw [List.drop_drop]
  · simp only [hlength, if_false]
    exact follows_stop hc _

theorem follows_decodeNumber (hc : c.Within body) (n : Nat) :
    Follows body c (Taken body) (decodeNumber body n) (takeNumber n (body.drop c.position)) := by
  refine follows_bind (follows_decodeBytes hc n) ?_
  rintro front c' _ hc' - rfl
  exact follows_pure hc' rfl

theorem follows_decodeSingles (hc : c.Within body) {n : Nat} (hn : n ≤ body.length) :
    Follows body c (Taken body) (decodeSingles body n) (takeSingles n (body.drop c.position)) := by
  have hallocate : allocate n c = (.ok (), { c with vectors := n :: c.vectors }) := rfl
  refine follows_step hallocate ?_
  refine follows_bind (follows_decodeBytes (hc.allocate hn) (4 * n)) ?_
  rintro front c' _ hc' - rfl
  by_cases hall : (singlesOf front).all Float32.isFinite
  · simp only [hall, if_true]
    exact follows_pure hc' rfl
  · simp only [hall]
    exact follows_stop hc' _

theorem follows_decodeActivation (hc : c.Within body) (index : Nat) :
    Follows body c (Taken body) (decodeActivation body index)
      (takeActivation index (body.drop c.position)) := by
  refine follows_bind (follows_decodeNumber hc 1) ?_
  rintro code c' _ hc' - rfl
  match code with
  | 0 => exact follows_pure hc' rfl
  | 1 => exact follows_pure hc' rfl
  | code + 2 => exact follows_stop hc' _

theorem follows_decodeWeights (hc : c.Within body) (index code : Nat) {count outputs : Nat}
    (hcount : count ≤ body.length) (houtputs : outputs ≤ body.length) :
    Follows body c (Taken body) (decodeWeights body index code count outputs)
      (takeWeights index code count outputs (body.drop c.position)) := by
  match code with
  | 0 =>
    refine follows_bind (follows_decodeSingles hc hcount) ?_
    rintro w c' _ hc' - rfl
    exact follows_pure hc' rfl
  | 1 =>
    refine follows_bind (follows_decodeSingles hc houtputs) ?_
    rintro scales c₁ _ hc₁ - rfl
    have hallocate : allocate count c₁ = (.ok (), { c₁ with vectors := count :: c₁.vectors }) := rfl
    refine follows_step hallocate ?_
    refine follows_bind (follows_decodeBytes (hc₁.allocate hcount) count) ?_
    rintro values c₂ _ hc₂ - rfl
    exact follows_pure hc₂ rfl
  | code + 2 => exact follows_stop hc _

/-- The widths have four bytes, so that their product is in range; no more weights are asked for
than bytes are left, nor more biases, since there is an input. -/
theorem follows_decodeLayer (hc : c.Within body) (index : Nat) :
    Follows body c (Taken body) (decodeLayer body index)
      (takeLayer index (body.drop c.position)) := by
  refine follows_bind (follows_decodeNumber hc 4) ?_
  rintro inputs c₁ _ hc₁ htake₁ rfl
  refine follows_bind (follows_decodeNumber hc₁ 4) ?_
  rintro outputs c₂ _ hc₂ htake₂ rfl
  refine follows_bind (follows_decodeActivation hc₂ index) ?_
  rintro activation c₃ _ hc₃ - rfl
  refine follows_bind (follows_decodeNumber hc₃ 1) ?_
  rintro code c₄ _ hc₄ - rfl
  refine follows_step (product_run (takeNumber_ok htake₁).1 (takeNumber_ok htake₂).1) ?_
  refine follows_check hc₄ fun hcount => ?_
  refine follows_step (remaining_run hc₄) ?_
  refine follows_check hc₄ fun hroom => ?_
  have hweights : inputs * outputs ≤ body.length := by
    rw [List.length_drop] at hroom
    omega
  have hbias : outputs ≤ body.length := by
    have hinputs : 0 < inputs := Nat.pos_of_mul_pos_right (Nat.pos_of_ne_zero hcount)
    exact (Nat.le_mul_of_pos_left outputs hinputs).trans hweights
  refine follows_bind (follows_decodeWeights hc₄ index code hweights hbias) ?_
  rintro weights c₅ _ hc₅ - rfl
  refine follows_bind (follows_decodeSingles hc₅ hbias) ?_
  rintro bias c₆ _ hc₆ - rfl
  exact follows_pure hc₆ rfl

theorem follows_decodeLayers (hc : c.Within body) (index n : Nat) :
    Follows body c (Taken body) (decodeLayers body index n)
      (takeLayers index n (body.drop c.position)) := by
  induction n generalizing c index with
  | zero => exact follows_pure hc rfl
  | succ n ih =>
    refine follows_bind (follows_decodeLayer hc index) ?_
    rintro l c₁ _ hc₁ - rfl
    refine follows_bind (ih hc₁ (index + 1)) ?_
    rintro ls c₂ _ hc₂ - rfl
    exact follows_pure hc₂ rfl

/-! ## Models -/

theorem follows_decodeBody (body : List UInt8) :
    Follows body .start (fun m _ n => m = n) (decodeBody body) (ofBody body) := by
  have hc : Cursor.start.Within body := ⟨Nat.zero_le _, fun n hn => by cases hn⟩
  refine follows_bind (follows_decodeBytes hc 4) ?_
  rintro mark c₁ _ hc₁ - rfl
  refine follows_check hc₁ fun _ => ?_
  refine follows_bind (follows_decodeNumber hc₁ 2) ?_
  rintro version c₂ _ hc₂ - rfl
  refine follows_check hc₂ fun _ => ?_
  refine follows_bind (follows_decodeNumber hc₂ 2) ?_
  rintro count c₃ _ hc₃ - rfl
  refine follows_check hc₃ fun _ => ?_
  refine follows_bind (follows_decodeLayers hc₃ 0 count) ?_
  rintro layers c₄ _ hc₄ - rfl
  refine follows_step (remaining_run hc₄) ?_
  have hleft : (body.drop c₄.position).length ≠ 0 ↔ body.drop c₄.position ≠ [] :=
    List.length_eq_zero_iff.not
  simp only [hleft]
  refine follows_check hc₄ fun _ => ?_
  cases chainFault? 0 layers with
  | some f => exact follows_stop hc₄ f
  | none => exact follows_pure hc₄ rfl

theorem Follows.mono {R : α → Cursor → β → Prop} {d : Decoder α} {x : Except ModelFault β}
    {bytes : List UInt8} (h : Follows body c R d x) (hl : body.length ≤ bytes.length) :
    Follows bytes c R d x :=
  ⟨⟨h.1.position.trans hl, fun n hn => (h.1.vectors n hn).trans hl⟩, h.2⟩

theorem trailer_eq (bytes : List UInt8) (h : 4 ≤ bytes.length) :
    ∃ a b c d, bytes.drop (bytes.length - 4) = [a, b, c, d] := by
  have hlength : (bytes.drop (bytes.length - 4)).length = 4 := by
    rw [List.length_drop]
    omega
  match bytes.drop (bytes.length - 4), hlength with
  | [a, b, c, d], _ => exact ⟨a, b, c, d, rfl⟩

/-- Reading by place follows the reader of models from any bytes. -/
theorem follows_decode (bytes : List UInt8) :
    Follows bytes .start (fun m _ n => m = n) (decode bytes) (ofBytes bytes) := by
  have hstart : Cursor.start.Within bytes := ⟨Nat.zero_le _, fun n hn => by cases hn⟩
  unfold decode ofBytes
  by_cases hshort : bytes.length < 12
  · rw [if_pos hshort, if_pos hshort]
    exact ⟨hstart, rfl⟩
  · rw [if_neg hshort, if_neg hshort]
    obtain ⟨a, b, c, d, htrailer⟩ := trailer_eq bytes (by omega)
    refine follows_step (difference_run (by omega)) ?_
    simp only [htrailer]
    refine follows_step (byteAt_run rfl) ?_
    refine follows_step (byteAt_run rfl) ?_
    refine follows_step (byteAt_run rfl) ?_
    refine follows_step (byteAt_run rfl) ?_
    by_cases hsum : UInt32.ofNat (ofLittleEndian [a, b, c, d]) ≠
        checksum (bytes.take (bytes.length - 4))
    · rw [if_pos hsum, if_pos hsum]
      exact ⟨hstart, rfl⟩
    · rw [if_neg hsum, if_neg hsum]
      refine (follows_decodeBody _).mono ?_
      rw [List.length_take]
      omega

end

/-- From any bytes reading by place comes to a model or to a fault of the bytes, the one `ofBytes`
gives, and makes no vector for a layer that is longer than the bytes. A model it comes to is well
formed; it gives a probability for each class to a vector as wide as its inputs, never reading
outside its arrays, and refuses all other vectors. -/
theorem decoding_safe (bytes : List UInt8) :
    ((∃ m, (decoding bytes).1 = .ok m) ∨ ∃ f, (decoding bytes).1 = .error (.fault f)) ∧
    (decoding bytes).1 = (ofBytes bytes).mapError .fault ∧
    (∀ n ∈ (decoding bytes).2.vectors, n ≤ bytes.length) ∧
    ∀ m, ofBytes bytes = .ok m → m.layers ≠ [] ∧ m.WellFormed ∧ ∀ x : Singles,
      m.score? x = some (m.scorer.score x) ∧
      (x.size = m.inputs → ∃ y, m.scorer.score x = .ok y ∧ y.size = m.classes) ∧
      (x.size ≠ m.inputs → m.scorer.score x = .error (.dimension m.inputs x.size)) := by
  obtain ⟨hwithin, hends⟩ := follows_decode bytes
  have heq : (decoding bytes).1 = (ofBytes bytes).mapError .fault := by
    unfold decoding
    obtain ⟨_, f, hrun, hread, rfl⟩ | ⟨m, _, hrun, hread, rfl⟩ := hends.cases
    · rw [hrun, hread]
      rfl
    · rw [hrun, hread]
      rfl
  refine ⟨?_, heq, hwithin.vectors, fun m hm => ?_⟩
  · rw [heq]
    cases ofBytes bytes with
    | ok m => exact .inl ⟨m, rfl⟩
    | error f => exact .inr ⟨f, rfl⟩
  · obtain ⟨hformed, -⟩ := ofBytes_ok hm
    have hne := hformed.chained.ne_nil
    refine ⟨hne, hformed, fun x => ⟨hformed.score?_eq x, fun hx => ?_, fun hx => if_neg hx⟩⟩
    exact ⟨m.forward x, if_pos hx, size_forward hne x⟩

theorem decoding_mixedBytes : mixed.WellFormed ∧
    (∀ n ∈ (decoding mixedBytes).2.vectors, n ≤ 58) ∧
    mixed.score? #[1] = some (mixed.scorer.score #[1]) ∧
    mixed.scorer.score #[1, 2] = .error (.dimension 1 2) := by
  obtain ⟨-, -, hvectors, hsafe⟩ := decoding_safe mixedBytes
  obtain ⟨-, hformed, hscore⟩ := hsafe mixed ofBytes_mixedBytes
  exact ⟨hformed, hvectors, (hscore #[1]).1, (hscore #[1, 2]).2.2 (by decide)⟩

end Model

end Triage
