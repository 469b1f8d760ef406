/-
The binary form of a model is canonical. Bytes are read as a model exactly if the model is well
formed and they are the bytes that are written for it (`Model.ofBytes_eq_ok`), so no other bytes are
read as the same model. A network whose layers are not too many or too wide is written without fail;
what is written is read as the same model if all its singles are finite, and refused if one is not.
-/
import Triage.Proofs.Model.Bytes

namespace Triage

variable {bytes rest : List UInt8}

/-! ## Numbers -/

theorem ofLittleEndian_lt (bs : List UInt8) : ofLittleEndian bs < 256 ^ bs.length := by
  induction bs with
  | nil => decide
  | cons b bs ih =>
    have hb : b.toNat < 256 := b.toNat_lt
    rw [List.length_cons, Nat.pow_succ]
    simp only [ofLittleEndian]
    omega

theorem littleEndian_ofLittleEndian (bs : List UInt8) :
    littleEndian bs.length (ofLittleEndian bs) = bs := by
  induction bs with
  | nil => rfl
  | cons b bs ih =>
    have hb : b.toNat < 256 := b.toNat_lt
    have hdiv : (b.toNat + 256 * ofLittleEndian bs) / 256 = ofLittleEndian bs := by omega
    have hlow : UInt8.ofNat (b.toNat + 256 * ofLittleEndian bs) = b := by
      apply UInt8.toNat_inj.1
      rw [UInt8.toNat_ofNat']
      omega
    simp only [List.length_cons, littleEndian, ofLittleEndian, hdiv, hlow, ih]

theorem takeBytes_ok {n : Nat} {front : List UInt8} (h : takeBytes n bytes = .ok (front, rest)) :
    front.length = n ∧ bytes = front ++ rest := by
  unfold takeBytes at h
  simp only at h
  split at h
  · cases h
    exact ⟨‹_›, (List.take_append_drop n bytes).symm⟩
  · cases h

theorem takeNumber_ok {n v : Nat} (h : takeNumber n bytes = .ok (v, rest)) :
    v < 256 ^ n ∧ bytes = littleEndian n v ++ rest := by
  obtain ⟨⟨front, rest'⟩, htake, h⟩ := ok_of_bind h
  cases h
  obtain ⟨rfl, rfl⟩ := takeBytes_ok htake
  exact ⟨ofLittleEndian_lt front, by rw [littleEndian_ofLittleEndian]⟩

theorem sizedBytes_eq {n v : Nat} (h : v < 256 ^ n) : sizedBytes n v = .ok (littleEndian n v) :=
  if_pos h

/-! ## Singles -/

/-- Four bytes are the bytes of their single if that is finite. -/
theorem singleBytes_ofBits {bs : List UInt8} (hl : bs.length = 4)
    (h : (Float32.ofBits (UInt32.ofNat (ofLittleEndian bs))).isFinite = true) :
    singleBytes (Float32.ofBits (UInt32.ofNat (ofLittleEndian bs))) = bs := by
  have hlt : ofLittleEndian bs < UInt32.size := by
    have := ofLittleEndian_lt bs
    rw [hl] at this
    exact this
  unfold singleBytes
  rw [Number.single_toBits_ofBits h, UInt32.toNat_ofNat_of_lt' hlt, ← hl,
    littleEndian_ofLittleEndian]

theorem singles_singlesOf {n : Nat} {bs : List UInt8} (hl : bs.length = 4 * n)
    (h : ∀ x ∈ singlesOf bs, x.isFinite = true) :
    (singlesOf bs).length = n ∧ (singlesOf bs).flatMap singleBytes = bs := by
  induction n generalizing bs with
  | zero =>
    rw [List.length_eq_zero_iff.1 hl]
    exact ⟨rfl, rfl⟩
  | succ n ih =>
    match bs, hl, h with
    | a :: b :: c :: d :: bs, hl, h =>
      simp only [singlesOf, List.mem_cons, forall_eq_or_imp] at h
      have hrest : bs.length = 4 * n := by
        simp only [List.length_cons] at hl
        omega
      obtain ⟨hlength, hbytes⟩ := ih hrest h.2
      have hfour : singleBytes _ = [a, b, c, d] := singleBytes_ofBits rfl h.1
      simp only [singlesOf, List.length_cons, List.flatMap_cons, hlength, hbytes, hfour,
        List.cons_append, List.nil_append, and_self]

theorem takeSingles_ok {n : Nat} {xs : Singles} (h : takeSingles n bytes = .ok (xs, rest)) :
    xs.size = n ∧ (∀ x ∈ xs.toList, x.isFinite = true) ∧
      bytes = xs.toList.flatMap singleBytes ++ rest := by
  obtain ⟨⟨front, rest'⟩, htake, hchecked⟩ := ok_of_bind h
  obtain ⟨hlength, rfl⟩ := takeBytes_ok htake
  simp only at hchecked
  split at hchecked
  · rename_i hall
    cases hchecked
    have hfinite := List.all_eq_true.1 hall
    obtain ⟨hsize, hbytes⟩ := singles_singlesOf hlength hfinite
    exact ⟨hsize, hfinite, by rw [hbytes]⟩
  · cases hchecked

/-! ## Layers -/

/-- Whether a layer can be read: there are weights, the arrays have the length that the widths give,
and every single is finite. -/
structure StoredLayer.Sound (l : StoredLayer) : Prop where
  inputs : 0 < l.inputs
  outputs : 0 < l.outputs
  sized : l.Sized
  finite : ∀ x ∈ l.singles, x.isFinite = true

theorem toUInt8_toInt8 (bs : List UInt8) : (bs.map UInt8.toInt8).map Int8.toUInt8 = bs := by
  rw [List.map_map]
  have hid : Int8.toUInt8 ∘ UInt8.toInt8 = id := by
    funext b
    simp
  rw [hid, List.map_id]

theorem takeActivation_ok {index : Nat} {a : Activation}
    (h : takeActivation index bytes = .ok (a, rest)) : bytes = a.code :: rest := by
  obtain ⟨⟨code, rest'⟩, htake, h⟩ := ok_of_bind h
  obtain ⟨-, rfl⟩ := takeNumber_ok htake
  match code, h with
  | 0, h => cases h; rfl
  | 1, h => cases h; rfl

theorem takeWeights_ok {index code inputs outputs : Nat} {w : StoredWeights}
    (h : takeWeights index code (inputs * outputs) outputs bytes = .ok (w, rest)) :
    w.Sized inputs outputs ∧ (∀ x ∈ w.singles, x.isFinite = true) ∧
      UInt8.ofNat code :: bytes = w.toBytes ++ rest := by
  match code, h with
  | 0, h =>
    obtain ⟨⟨w', rest'⟩, htake, h⟩ := ok_of_bind h
    cases h
    obtain ⟨hsize, hfinite, rfl⟩ := takeSingles_ok htake
    exact ⟨hsize, hfinite, rfl⟩
  | 1, h =>
    obtain ⟨⟨scales, rest₁⟩, htake, h⟩ := ok_of_bind h
    obtain ⟨⟨values, rest₂⟩, hvalues, h⟩ := ok_of_bind h
    cases h
    obtain ⟨hsize, hfinite, rfl⟩ := takeSingles_ok htake
    obtain ⟨hlength, rfl⟩ := takeBytes_ok hvalues
    refine ⟨⟨hsize, by simpa using hlength⟩, hfinite, ?_⟩
    simp only [StoredWeights.toBytes, toUInt8_toInt8, List.cons_append, List.append_assoc]
    rfl

/-- A layer that is read is sound, and what was taken off are its bytes. -/
theorem takeLayer_ok {index : Nat} {l : StoredLayer} (h : takeLayer index bytes = .ok (l, rest)) :
    l.Sound ∧ ∃ front, l.toBytes = .ok front ∧ bytes = front ++ rest := by
  -- The fields in order: the widths, the activation, the type of weights, the weights, the bias.
  obtain ⟨⟨inputs, r₁⟩, htake₁, h⟩ := ok_of_bind h
  obtain ⟨⟨outputs, r₂⟩, htake₂, h⟩ := ok_of_bind h
  obtain ⟨⟨activation, r₃⟩, htake₃, h⟩ := ok_of_bind h
  obtain ⟨⟨code, r₄⟩, htake₄, h⟩ := ok_of_bind h
  obtain ⟨hcount, h⟩ := ok_of_check h
  obtain ⟨-, h⟩ := ok_of_check h
  obtain ⟨⟨weights, r₅⟩, htake₅, h⟩ := ok_of_bind h
  obtain ⟨⟨bias, r₆⟩, htake₆, h⟩ := ok_of_bind h
  cases h
  obtain ⟨hinputs, e₁⟩ := takeNumber_ok htake₁
  obtain ⟨houtputs, e₂⟩ := takeNumber_ok htake₂
  have e₃ := takeActivation_ok htake₃
  obtain ⟨-, e₄⟩ := takeNumber_ok htake₄
  obtain ⟨hsized, hweights, e₅⟩ := takeWeights_ok htake₅
  obtain ⟨hbias, hfinite, e₆⟩ := takeSingles_ok htake₆
  have hpos : 0 < inputs * outputs := Nat.pos_of_ne_zero hcount
  have hcode : littleEndian 1 code = [UInt8.ofNat code] := rfl
  refine ⟨⟨Nat.pos_of_mul_pos_right hpos, Nat.pos_of_mul_pos_left hpos, ⟨hsized, hbias⟩,
    fun x hx => ?_⟩, littleEndian 4 inputs ++ littleEndian 4 outputs ++ activation.code ::
      weights.toBytes ++ bias.toList.flatMap singleBytes, ?_, ?_⟩
  · exact (List.mem_append.1 hx).elim (hweights x) (hfinite x)
  · unfold StoredLayer.toBytes
    rw [sizedBytes_eq hinputs, sizedBytes_eq houtputs]
    rfl
  · rw [e₁, e₂, e₃, e₄, hcode, List.singleton_append, e₅, e₆]
    simp only [List.append_assoc, List.cons_append]

theorem takeLayers_ok {index n : Nat} {ls : List StoredLayer}
    (h : takeLayers index n bytes = .ok (ls, rest)) :
    ls.length = n ∧ (∀ l ∈ ls, l.Sound) ∧
      ∃ front, layerBytes ls = .ok front ∧ bytes = front ++ rest := by
  induction n generalizing index bytes ls with
  | zero =>
    cases h
    exact ⟨rfl, fun l hl => (by cases hl), [], rfl, rfl⟩
  | succ n ih =>
    obtain ⟨⟨l, r₁⟩, htake₁, h⟩ := ok_of_bind h
    obtain ⟨⟨ls, r₂⟩, htake₂, h⟩ := ok_of_bind h
    cases h
    obtain ⟨hl, front, hfront, rfl⟩ := takeLayer_ok htake₁
    obtain ⟨hlength, hls, back, hback, rfl⟩ := ih htake₂
    refine ⟨by rw [List.length_cons, hlength], List.forall_mem_cons.2 ⟨hl, hls⟩, front ++ back, ?_,
      (List.append_assoc _ _ _).symm⟩
    simp only [layerBytes, hfront, hback, ok_bind]
    rfl

/-! ## Chains -/

/-- Whether layers make up a model: all but the last use ReLU and fit the next one, and the last
uses softmax over two classes or more. -/
structure Chained (ls : List StoredLayer) : Prop where
  links : ls.IsChain fun a b => a.activation = .relu ∧ b.inputs = a.outputs
  last : ∃ l, ls.getLast? = some l ∧ l.activation = .softmax ∧ 2 ≤ l.outputs

theorem Chained.ne_nil {ls : List StoredLayer} (h : Chained ls) : ls ≠ [] := by
  rintro rfl
  obtain ⟨l, hl, -⟩ := h.last
  cases hl

theorem chainFault?_eq_none (index : Nat) {ls : List StoredLayer} (hne : ls ≠ []) :
    chainFault? index ls = none ↔ Chained ls := by
  induction ls generalizing index with
  | nil => exact absurd rfl hne
  | cons a rest ih =>
    cases rest with
    | nil =>
      have hlast : Chained [a] ↔ a.activation = .softmax ∧ 2 ≤ a.outputs :=
        ⟨fun ⟨_, l, hl, h⟩ => by cases hl; exact h, fun h => ⟨.singleton a, a, rfl, h⟩⟩
      rw [hlast, chainFault?]
      by_cases ha : a.activation = .softmax
      · by_cases hc : a.outputs < 2
        · simp [ha, hc]
        · simp [ha, hc, Nat.le_of_not_lt hc]
      · simp [ha]
    | cons b rest =>
      have hcons : Chained (a :: b :: rest) ↔
          (a.activation = .relu ∧ b.inputs = a.outputs) ∧ Chained (b :: rest) := by
        refine ⟨fun ⟨hlinks, hlast⟩ => ?_, fun ⟨hlink, hlinks, hlast⟩ => ?_⟩
        · obtain ⟨hlink, hlinks⟩ := List.isChain_cons_cons.1 hlinks
          exact ⟨hlink, hlinks, by simpa using hlast⟩
        · exact ⟨.cons_cons hlink hlinks, by simpa using hlast⟩
      rw [hcons, ← ih (index + 1) (List.cons_ne_nil b rest), chainFault?]
      by_cases ha : a.activation = .relu
      · by_cases hw : b.inputs = a.outputs
        · simp [ha, hw]
        · simp [ha, hw]
      · simp [ha]

/-! ## Models -/

namespace Model

/-- Whether a model can be read: its layers are sound and make up a model, and it is said to be kept
as bytes if the weights of any layer are. -/
structure WellFormed (m : Model) : Prop where
  sound : ∀ l ∈ m.layers, l.Sound
  chained : Chained m.layers
  method : m.method = methodOf m.layers

/-- The singles that are kept of a model. -/
def singles (m : Model) : List Float32 :=
  m.layers.flatMap StoredLayer.singles

theorem layersFault?_eq {index : Nat} {ls : List StoredLayer}
    (h : ∀ l ∈ ls, 0 < l.inputs ∧ 0 < l.outputs) :
    layersFault? index ls = finiteFault? (ls.flatMap StoredLayer.singles) := by
  induction ls generalizing index with
  | nil => rfl
  | cons l rest ih =>
    obtain ⟨⟨hinputs, houtputs⟩, hrest⟩ := List.forall_mem_cons.1 h
    have hcount : l.inputs * l.outputs ≠ 0 := (Nat.mul_pos hinputs houtputs).ne'
    rw [layersFault?, StoredLayer.fault?, if_neg hcount, ih hrest, List.flatMap_cons,
      finiteFault?_append]

/-- All that can be wrong with sized layers that make up a model is a single. -/
theorem fault?_eq {m : Model} (hpos : ∀ l ∈ m.layers, 0 < l.inputs ∧ 0 < l.outputs)
    (hc : Chained m.layers) : m.fault? = finiteFault? m.singles := by
  have hne := hc.ne_nil
  rw [Model.fault?, if_neg hne, layersFault?_eq hpos, (chainFault?_eq_none 0 hne).2 hc,
    Option.or_none, singles]

theorem WellFormed.fault? {m : Model} (h : m.WellFormed) : m.fault? = none := by
  rw [fault?_eq (fun l hl => ⟨(h.sound l hl).inputs, (h.sound l hl).outputs⟩) h.chained,
    finiteFault?_eq_none]
  intro x hx
  obtain ⟨l, hl, hx⟩ := List.mem_flatMap.1 hx
  exact (h.sound l hl).finite x hx

theorem ofBody_ok {m : Model} (h : ofBody bytes = .ok m) : m.WellFormed ∧ m.body = .ok bytes := by
  -- The fields in order: the magic bytes, the version, the number of layers, the layers.
  obtain ⟨⟨mark, r₁⟩, htake₁, h⟩ := ok_of_bind h
  obtain ⟨hmark, h⟩ := ok_of_check h
  obtain ⟨⟨version, r₂⟩, htake₂, h⟩ := ok_of_bind h
  obtain ⟨hversion, h⟩ := ok_of_check h
  obtain ⟨⟨count, r₃⟩, htake₃, h⟩ := ok_of_bind h
  obtain ⟨hzero, h⟩ := ok_of_check h
  obtain ⟨⟨layers, r₄⟩, htake₄, h⟩ := ok_of_bind h
  obtain ⟨hrest, h⟩ := ok_of_check h
  obtain ⟨-, e₁⟩ := takeBytes_ok htake₁
  obtain ⟨-, e₂⟩ := takeNumber_ok htake₂
  obtain ⟨hcount, e₃⟩ := takeNumber_ok htake₃
  obtain ⟨hlength, hsound, front, hfront, e₄⟩ := takeLayers_ok htake₄
  split at h
  · cases h
  · rename_i hchain
    cases h
    subst hlength
    have hne : layers ≠ [] := fun e => hzero (List.length_eq_zero_iff.2 e)
    refine ⟨⟨hsound, (chainFault?_eq_none 0 hne).1 hchain, rfl⟩, ?_⟩
    rw [e₁, e₂, e₃, e₄, Decidable.not_not.1 hmark, Decidable.not_not.1 hversion,
      Decidable.not_not.1 hrest, List.append_nil]
    simp only [body, sizedBytes_eq hcount, hfront, ok_bind, List.append_assoc]
    rfl

/-- What bytes consist of that are read as a model: the checksum stands behind the rest. -/
theorem parts_of_ofBytes {m : Model} (h : ofBytes bytes = .ok m) :
    12 ≤ bytes.length ∧
      UInt32.ofNat (ofLittleEndian (bytes.drop (bytes.length - 4))) =
        checksum (bytes.take (bytes.length - 4)) ∧
      ofBody (bytes.take (bytes.length - 4)) = .ok m := by
  unfold ofBytes at h
  split at h
  · cases h
  · simp only at h
    split at h
    · cases h
    · rename_i hlong hsum
      exact ⟨Nat.le_of_not_lt hlong, Decidable.not_not.1 hsum, h⟩

theorem ofBytes_ok {m : Model} (h : ofBytes bytes = .ok m) :
    m.WellFormed ∧ m.toBytes = .ok bytes := by
  obtain ⟨hlong, hsum, hread⟩ := parts_of_ofBytes h
  obtain ⟨hformed, hbody⟩ := ofBody_ok hread
  refine ⟨hformed, ?_⟩
  have hlength : (bytes.drop (bytes.length - 4)).length = 4 := by
    rw [List.length_drop]
    omega
  have hlt : ofLittleEndian (bytes.drop (bytes.length - 4)) < UInt32.size := by
    have := ofLittleEndian_lt (bytes.drop (bytes.length - 4))
    rw [hlength] at this
    exact this
  have htrailer : littleEndian 4 (checksum (bytes.take (bytes.length - 4))).toNat =
      bytes.drop (bytes.length - 4) := by
    have hread := littleEndian_ofLittleEndian (bytes.drop (bytes.length - 4))
    rw [hlength] at hread
    rw [← hsum, UInt32.toNat_ofNat_of_lt' hlt, hread]
  rw [toBytes, hbody]
  show Except.ok (sealed _) = _
  rw [sealed, htrailer, List.take_append_drop]

/-- Bytes are read as a model exactly if it is well formed and they are the bytes written for it. -/
theorem ofBytes_eq_ok {m : Model} :
    ofBytes bytes = .ok m ↔ m.WellFormed ∧ m.toBytes = .ok bytes := by
  refine ⟨ofBytes_ok, fun ⟨hformed, hbytes⟩ => ?_⟩
  rw [ofBytes_toBytes (fun l hl => (hformed.sound l hl).sized) hbytes, hformed.fault?,
    ← hformed.method]
  rfl

/-- Bytes that are read as a model are the bytes that are written for it, so no others are. -/
theorem bytes_canonical {m : Model} (h : ofBytes bytes = .ok m) :
    m.toBytes = .ok bytes ∧ ∀ other, ofBytes other = .ok m → other = bytes := by
  obtain ⟨-, hbytes⟩ := ofBytes_ok h
  refine ⟨hbytes, fun other hother => ?_⟩
  obtain ⟨-, hagain⟩ := ofBytes_ok hother
  rw [hbytes] at hagain
  exact (Except.ok.inj hagain).symm

/-- A model whose layers are kept in different ways, with the least byte among the weights. -/
def mixed : Model where
  method := .int8
  layers := [
    ⟨1, 1, .relu, .float32 #[Float32.ofBits 0x80000000], #[Float32.ofBits 1]⟩,
    ⟨1, 2, .softmax, .int8 #[1, 0.5] #[-128, 127], #[0, -1.5]⟩]

def mixedBytes : List UInt8 := [
  0x41, 0x44, 0x51, 0x4d, 0x01, 0x00, 0x02, 0x00,
  0x01, 0x00, 0x00, 0x00, 0x01, 0x00, 0x00, 0x00, 0x00, 0x00,
  0x00, 0x00, 0x00, 0x80, 0x01, 0x00, 0x00, 0x00,
  0x01, 0x00, 0x00, 0x00, 0x02, 0x00, 0x00, 0x00, 0x01, 0x01,
  0x00, 0x00, 0x80, 0x3f, 0x00, 0x00, 0x00, 0x3f, 0x80, 0x7f,
  0x00, 0x00, 0x00, 0x00, 0x00, 0x00, 0xc0, 0xbf,
  0xce, 0xe6, 0xdd, 0xfb]

theorem ofBytes_mixedBytes : ofBytes mixedBytes = .ok mixed := by
  decide +kernel

theorem mixedBytes_canonical : mixed.toBytes = .ok mixedBytes ∧
    ∀ other, ofBytes other = .ok mixed → other = mixedBytes :=
  bytes_canonical ofBytes_mixedBytes

/-! ## Networks as models -/

theorem layerBytes_isOk {ls : List StoredLayer}
    (h : ∀ l ∈ ls, l.inputs < 256 ^ 4 ∧ l.outputs < 256 ^ 4) : ∃ bs, layerBytes ls = .ok bs := by
  induction ls with
  | nil => exact ⟨[], rfl⟩
  | cons l rest ih =>
    obtain ⟨⟨hinputs, houtputs⟩, hrest⟩ := List.forall_mem_cons.1 h
    obtain ⟨tail, htail⟩ := ih hrest
    have hhead : ∃ head, l.toBytes = .ok head := by
      unfold StoredLayer.toBytes
      rw [sizedBytes_eq hinputs, sizedBytes_eq houtputs]
      exact ⟨_, rfl⟩
    obtain ⟨head, hhead⟩ := hhead
    refine ⟨head ++ tail, ?_⟩
    simp only [layerBytes, hhead, htail, ok_bind]
    rfl

/-- A model can be written unless it has too many layers, or one that is too wide. -/
theorem toBytes_isOk {m : Model} (hcount : m.layers.length < 256 ^ 2)
    (h : ∀ l ∈ m.layers, l.inputs < 256 ^ 4 ∧ l.outputs < 256 ^ 4) :
    ∃ bytes, m.toBytes = .ok bytes := by
  obtain ⟨layers, hlayers⟩ := layerBytes_isOk h
  unfold toBytes body
  rw [sizedBytes_eq hcount, hlayers]
  exact ⟨_, rfl⟩

theorem chained_stored {ls : List Layer} {last : Layer}
    (hlinks : ls.IsChain fun a b => a.activation = .relu ∧ b.inputs = a.outputs)
    (hlast : ls.getLast? = some last) (hsoftmax : last.activation = .softmax)
    (hclasses : 2 ≤ last.outputs) (q : Quantization) : Chained (ls.map (·.stored q)) where
  links := (List.isChain_map _).2 hlinks
  last := ⟨last.stored q, by rw [List.getLast?_map, hlast]; rfl, hsoftmax, hclasses⟩

/-- A network with layers that are not too many or too wide is written as a model in either way, and
is read back as that model if every single that is kept is finite; else it is refused. -/
theorem network_reads_back {ls : List Layer} {n : Network} (q : Quantization)
    (hparts : ∀ l ∈ ls, ∃ inputs outputs weights bias activation,
      Layer.of inputs outputs weights bias activation = .ok l)
    (hn : Network.of ls = .ok n) (hcount : ls.length ≤ 65535)
    (hwidths : ∀ l ∈ ls, l.inputs ≤ 4294967295 ∧ l.outputs ≤ 4294967295) :
    ∃ bytes, (ofNetwork n q).toBytes = .ok bytes ∧
      ((∀ x ∈ (ofNetwork n q).singles, x.isFinite = true) →
        ofBytes bytes = .ok (ofNetwork n q)) ∧
      ((∃ x ∈ (ofNetwork n q).singles, x.isFinite = false) →
        ofBytes bytes = .error .notFinite) := by
  obtain ⟨rfl, hlinks, last, hlast, hsoftmax, hclasses⟩ := Network.of_ok hn
  have hlayers : ∀ l ∈ n.layers, 0 < l.inputs ∧ 0 < l.outputs ∧ l.Sized := by
    intro l hl
    obtain ⟨_, _, _, _, _, hof⟩ := hparts l hl
    obtain ⟨hinputs, houtputs⟩ := hwidths l hl
    exact Layer.of_ok hof (by omega) (by omega)
  have hstored (p : StoredLayer → Prop) (h : ∀ l ∈ n.layers, p (l.stored q)) :
      ∀ l ∈ (ofNetwork n q).layers, p l :=
    List.forall_mem_map.2 h
  have hchained : Chained (ofNetwork n q).layers :=
    chained_stored hlinks hlast hsoftmax hclasses q
  have hne : n.layers ≠ [] := by simpa [ofNetwork] using hchained.ne_nil
  obtain ⟨bytes, hbytes⟩ : ∃ bytes, (ofNetwork n q).toBytes = .ok bytes := by
    refine toBytes_isOk ?_ (hstored _ fun l hl => ?_)
    · rw [ofNetwork, List.length_map]
      omega
    · obtain ⟨hinputs, houtputs⟩ := hwidths l hl
      exact ⟨Nat.lt_succ_of_le hinputs, Nat.lt_succ_of_le houtputs⟩
  have hread := ofBytes_toBytes (hstored _ fun l hl => (hlayers l hl).2.2.stored q) hbytes
  rw [fault?_eq (hstored _ fun l hl => ⟨(hlayers l hl).1, (hlayers l hl).2.1⟩) hchained,
    methodOf_ofNetwork hne] at hread
  refine ⟨bytes, hbytes, ?_, ?_⟩
  · intro hfinite
    rw [hread, finiteFault?_eq_none.2 hfinite]
    rfl
  · rintro ⟨x, hx, hnot⟩
    have hall : (ofNetwork n q).singles.all Float32.isFinite = false :=
      List.all_eq_false.2 ⟨x, hx, by simp [hnot]⟩
    rw [hread, finiteFault?, hall]
    rfl

/-- Two narrow layers, the bias of the first class being given. -/
def narrowLayers (b : Float32) : List Layer := [
  ⟨1, 1, #[Float32.ofBits 0x80000000], #[Float32.ofBits 1], .relu⟩,
  ⟨1, 2, #[-1.5, 0.25], #[b, 0], .softmax⟩]

theorem narrowLayers_parts (b : Float32) : ∀ l ∈ narrowLayers b,
    ∃ inputs outputs weights bias activation,
      Layer.of inputs outputs weights bias activation = .ok l := by
  simp only [narrowLayers, List.forall_mem_cons]
  have first : Layer.of 1 1 #[Float32.ofBits 0x80000000] #[Float32.ofBits 1] .relu = .ok _ := rfl
  have second : Layer.of 1 2 #[-1.5, 0.25] #[b, 0] .softmax = .ok _ := rfl
  refine ⟨⟨_, _, _, _, _, first⟩, ⟨_, _, _, _, _, second⟩, ?_⟩
  rintro l ⟨⟩

theorem narrowLayers_reads_back :
    (∃ bytes, (ofNetwork ⟨narrowLayers 1⟩ .int8).toBytes = .ok bytes ∧
      ofBytes bytes = .ok (ofNetwork ⟨narrowLayers 1⟩ .int8)) ∧
    ∃ bytes, (ofNetwork ⟨narrowLayers (1 / 0)⟩ .int8).toBytes = .ok bytes ∧
      ofBytes bytes = .error .notFinite := by
  constructor
  · obtain ⟨bytes, hbytes, hread, -⟩ := network_reads_back .int8 (narrowLayers_parts 1) rfl
      (by decide) (by decide)
    exact ⟨bytes, hbytes, hread (by decide +kernel)⟩
  · obtain ⟨bytes, hbytes, -, hrefused⟩ := network_reads_back .int8 (narrowLayers_parts (1 / 0)) rfl
      (by decide) (by decide)
    exact ⟨bytes, hbytes, hrefused (by decide +kernel)⟩

end Model

end Triage
