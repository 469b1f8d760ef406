/-
A model is read back from its binary form. What a writer puts down a reader takes off again and
leaves what stood behind it; so if the arrays of every layer are as long as its widths say, what
comes of the bytes is decided by the numbers in the model alone, and is told by `Model.fault?`.
-/
import Triage.Model.Bytes
import Triage.Proofs.Network.Basic
import Triage.Proofs.Number.Format
import Triage.Proofs.Result

namespace Triage

variable {bytes rest : List UInt8}

/-! ## Numbers -/

theorem length_littleEndian (n v : Nat) : (littleEndian n v).length = n := by
  induction n generalizing v with
  | zero => rfl
  | succ n ih => simp only [littleEndian, List.length_cons, ih]

theorem ofLittleEndian_littleEndian {n v : Nat} (h : v < 256 ^ n) :
    ofLittleEndian (littleEndian n v) = v := by
  induction n generalizing v with
  | zero =>
    rw [Nat.pow_zero] at h
    rw [Nat.lt_one_iff.1 h]
    rfl
  | succ n ih =>
    have hdiv : v / 256 < 256 ^ n := by
      rw [Nat.pow_succ] at h
      exact Nat.div_lt_of_lt_mul (by omega)
    have hlow : (UInt8.ofNat v).toNat = v % 256 := by simp
    simp only [littleEndian, ofLittleEndian, ih hdiv, hlow]
    omega

theorem takeBytes_append (front rest : List UInt8) :
    takeBytes front.length (front ++ rest) = .ok (front, rest) := by
  simp [takeBytes]

theorem takeNumber_append {n v : Nat} (h : v < 256 ^ n) (rest : List UInt8) :
    takeNumber n (littleEndian n v ++ rest) = .ok (v, rest) := by
  have htake := takeBytes_append (littleEndian n v) rest
  rw [length_littleEndian] at htake
  unfold takeNumber
  rw [htake]
  show Except.ok (ofLittleEndian (littleEndian n v), rest) = _
  rw [ofLittleEndian_littleEndian h]

/-- A number that must fit is written so that it is taken off again. -/
theorem takeNumber_sizedBytes {n v : Nat} (h : sizedBytes n v = .ok bytes) (rest : List UInt8) :
    takeNumber n (bytes ++ rest) = .ok (v, rest) := by
  unfold sizedBytes at h
  split at h
  · cases h
    exact takeNumber_append ‹_› rest
  · cases h

theorem takeNumber_one (b : UInt8) (rest : List UInt8) :
    takeNumber 1 (b :: rest) = .ok (b.toNat, rest) :=
  rfl

/-! ## Singles -/

theorem length_singles (xs : List Float32) : (xs.flatMap singleBytes).length = 4 * xs.length := by
  induction xs with
  | nil => rfl
  | cons x xs ih =>
    simp only [List.flatMap_cons, List.length_append, List.length_cons, ih, singleBytes,
      length_littleEndian]
    omega

theorem singlesOf_singles (xs : List Float32) : singlesOf (xs.flatMap singleBytes) = xs := by
  induction xs with
  | nil => rfl
  | cons x xs ih =>
    have hlt : x.toBits.toNat < 256 ^ 4 := x.toBits.toNat_lt
    have hbits : UInt32.ofNat (ofLittleEndian (littleEndian 4 x.toBits.toNat)) = x.toBits := by
      rw [ofLittleEndian_littleEndian hlt]
      exact UInt32.ofNat_toNat
    have hstep : singlesOf ((x :: xs).flatMap singleBytes) =
        Float32.ofBits (UInt32.ofNat (ofLittleEndian (littleEndian 4 x.toBits.toNat))) ::
          singlesOf (xs.flatMap singleBytes) := rfl
    rw [hstep, hbits, Number.single_ofBits_toBits, ih]

/-- The fault of singles that are read: all must be finite. -/
def finiteFault? (xs : List Float32) : Option ModelFault :=
  if xs.all Float32.isFinite then none else some .notFinite

theorem finiteFault?_append (xs ys : List Float32) :
    finiteFault? (xs ++ ys) = (finiteFault? xs).or (finiteFault? ys) := by
  unfold finiteFault?
  rw [List.all_append]
  cases xs.all Float32.isFinite <;> simp

theorem finiteFault?_eq_none {xs : List Float32} :
    finiteFault? xs = none ↔ ∀ x ∈ xs, x.isFinite = true := by
  simp [finiteFault?]

/-- Singles are taken off as they were written, unless one of them is not finite. -/
theorem takeSingles_append {n : Nat} {xs : Singles} (hn : xs.size = n) (rest : List UInt8) :
    takeSingles n (xs.toList.flatMap singleBytes ++ rest) =
      unlessFault (finiteFault? xs.toList) (xs, rest) := by
  have htake := takeBytes_append (xs.toList.flatMap singleBytes) rest
  rw [length_singles, Array.length_toList, hn] at htake
  unfold takeSingles finiteFault?
  rw [htake]
  simp only [ok_bind, singlesOf_singles]
  split <;> rfl

/-! ## Layers -/

/-- Whether weights have the length that the widths of their layer give. -/
def StoredWeights.Sized (inputs outputs : Nat) : StoredWeights → Prop
  | .float32 w => w.size = inputs * outputs
  | .int8 scales values => scales.size = outputs ∧ values.size = inputs * outputs

/-- Whether the arrays of a layer have the length that its widths give. -/
structure StoredLayer.Sized (l : StoredLayer) : Prop where
  weights : l.weights.Sized l.inputs l.outputs
  bias : l.bias.size = l.outputs

/-- The singles that are kept of weights: the weights themselves, or their scales. -/
def StoredWeights.singles : StoredWeights → List Float32
  | .float32 w => w.toList
  | .int8 scales _ => scales.toList

/-- The singles that are kept of a layer. -/
def StoredLayer.singles (l : StoredLayer) : List Float32 :=
  l.weights.singles ++ l.bias.toList

/-- The code of the type of weights. -/
def StoredWeights.code : StoredWeights → Nat
  | .float32 _ => 0
  | .int8 _ _ => 1

theorem toInt8_toUInt8 (values : Array Int8) :
    ((values.toList.map Int8.toUInt8).map UInt8.toInt8).toArray = values := by
  rw [List.map_map]
  have hid : UInt8.toInt8 ∘ Int8.toUInt8 = id := by
    funext q
    simp
  rw [hid, List.map_id]

/-- Behind their code weights are taken off as they were written, unless a single is not finite;
there are as many bytes at least as weights. -/
theorem takeWeights_append {w : StoredWeights} {inputs outputs : Nat}
    (hs : w.Sized inputs outputs) (index : Nat) :
    ∃ tail, w.toBytes = UInt8.ofNat w.code :: tail ∧ inputs * outputs ≤ tail.length ∧ ∀ rest,
      takeWeights index w.code (inputs * outputs) outputs (tail ++ rest) =
        unlessFault (finiteFault? w.singles) (w, rest) := by
  cases w with
  | float32 w =>
    have hsize : w.size = inputs * outputs := hs
    refine ⟨w.toList.flatMap singleBytes, rfl, ?_, fun rest => ?_⟩
    · rw [length_singles, Array.length_toList, hsize]
      omega
    · show (takeSingles _ _ >>= _) = unlessFault (finiteFault? w.toList) _
      rw [takeSingles_append hsize]
      cases finiteFault? w.toList <;> rfl
  | int8 scales values =>
    obtain ⟨hscales, hvalues⟩ := hs
    have hlength : (values.toList.map Int8.toUInt8).length = inputs * outputs := by
      simpa using hvalues
    refine ⟨scales.toList.flatMap singleBytes ++ values.toList.map Int8.toUInt8, rfl, ?_,
      fun rest => ?_⟩
    · rw [List.length_append, hlength]
      omega
    · have happend := takeBytes_append (values.toList.map Int8.toUInt8) rest
      rw [hlength] at happend
      show (takeSingles _ _ >>= _) = unlessFault (finiteFault? scales.toList) _
      rw [List.append_assoc, takeSingles_append hscales]
      cases finiteFault? scales.toList with
      | none =>
        simp only [unlessFault, ok_bind, happend, toInt8_toUInt8]
        rfl
      | some f => rfl

theorem takeActivation_append (a : Activation) (index : Nat) (rest : List UInt8) :
    takeActivation index (a.code :: rest) = .ok (a, rest) := by
  cases a <;> rfl

/-- The fault of a layer that is read: there must be weights, and every single must be finite. -/
def StoredLayer.fault? (index : Nat) (l : StoredLayer) : Option ModelFault :=
  if l.inputs * l.outputs = 0 then some (.shape index l.inputs l.outputs)
  else finiteFault? l.singles

/-- A layer is taken off as it was written, unless it has a fault. -/
theorem takeLayer_append {l : StoredLayer} (hs : l.Sized) (hb : l.toBytes = .ok bytes)
    (index : Nat) (rest : List UInt8) :
    takeLayer index (bytes ++ rest) = unlessFault (l.fault? index) (l, rest) := by
  obtain ⟨inputs, hinputs, hb⟩ := ok_of_bind hb
  obtain ⟨outputs, houtputs, hb⟩ := ok_of_bind hb
  obtain ⟨tail, htail, hlength, hweights⟩ := takeWeights_append hs.weights index
  cases hb
  have hcode : (UInt8.ofNat l.weights.code).toNat = l.weights.code := by
    cases l.weights <;> rfl
  rw [htail]
  unfold takeLayer StoredLayer.fault?
  -- The fields in order: the widths, the activation, the type of weights, the weights, the bias.
  simp only [List.append_assoc, List.cons_append, takeNumber_sizedBytes hinputs,
    takeNumber_sizedBytes houtputs, takeActivation_append, takeNumber_one, ok_bind, hcode]
  by_cases hcount : l.inputs * l.outputs = 0
  · simp only [hcount, if_true]
    rfl
  · have hroom : ¬(tail ++ (l.bias.toList.flatMap singleBytes ++ rest)).length <
        l.inputs * l.outputs := by
      rw [List.length_append]
      omega
    simp only [hcount, if_false, hroom, hweights, StoredLayer.singles, finiteFault?_append]
    show (unlessFault _ _ >>= _) = _
    refine unlessFault_bind ?_
    simp only [takeSingles_append hs.bias]
    cases finiteFault? l.bias.toList <;> rfl

/-- The first fault of layers that are read, `index` being the number of the first. -/
def layersFault? (index : Nat) : List StoredLayer → Option ModelFault
  | [] => none
  | l :: rest => (l.fault? index).or (layersFault? (index + 1) rest)

/-- Layers are taken off as they were written, unless one of them has a fault. -/
theorem takeLayers_append {ls : List StoredLayer} (hs : ∀ l ∈ ls, l.Sized)
    (hb : layerBytes ls = .ok bytes) (index : Nat) (rest : List UInt8) :
    takeLayers index ls.length (bytes ++ rest) =
      unlessFault (layersFault? index ls) (ls, rest) := by
  induction ls generalizing bytes index with
  | nil =>
    cases hb
    rfl
  | cons l ls ih =>
    obtain ⟨front, hfront, hb⟩ := ok_of_bind hb
    obtain ⟨back, hback, hb⟩ := ok_of_bind hb
    cases hb
    have hlayer := takeLayer_append (hs l List.mem_cons_self) hfront index (back ++ rest)
    have hlayers := ih (fun l hl => hs l (List.mem_cons_of_mem _ hl)) hback (index + 1)
    rw [List.append_assoc]
    show (takeLayer _ _ >>= _) = _
    rw [hlayer]
    refine unlessFault_bind ?_
    show (takeLayers _ _ _ >>= _) = _
    rw [hlayers]
    cases layersFault? (index + 1) ls <;> rfl

/-! ## Models -/

namespace Model

/-- The first fault of a model that is read from its bytes. -/
def fault? (m : Model) : Option ModelFault :=
  if m.layers = [] then some .noLayers
  else (layersFault? 0 m.layers).or (chainFault? 0 m.layers)

/-- Before the checksum the layers are read that were written there, unless they have a fault. -/
theorem ofBody_body {m : Model} (hs : ∀ l ∈ m.layers, l.Sized) (hb : m.body = .ok bytes) :
    ofBody bytes = unlessFault m.fault? ⟨methodOf m.layers, m.layers⟩ := by
  obtain ⟨count, hcount, hb⟩ := ok_of_bind hb
  obtain ⟨layers, hlayers, hb⟩ := ok_of_bind hb
  cases hb
  have hmagic (rest : List UInt8) : takeBytes 4 (magic ++ rest) = .ok (magic, rest) :=
    takeBytes_append magic rest
  have hversion (rest : List UInt8) : takeNumber 2 (littleEndian 2 1 ++ rest) = .ok (1, rest) :=
    takeNumber_append (by decide) rest
  have htake := takeLayers_append hs hlayers 0 []
  rw [List.append_nil] at htake
  unfold ofBody fault?
  -- The fields in order: the magic bytes, the version, the number of layers, the layers.
  simp only [List.append_assoc, hmagic, hversion, takeNumber_sizedBytes hcount, ok_bind, ne_eq,
    not_true, if_false, List.length_eq_zero_iff]
  by_cases hempty : m.layers = []
  · simp only [hempty, if_true]
    rfl
  · simp only [hempty, if_false]
    show (takeLayers _ _ _ >>= _) = _
    rw [htake]
    refine unlessFault_bind ?_
    simp only [not_true, if_false]
    cases chainFault? 0 m.layers <;> rfl

theorem length_body {m : Model} (hb : m.body = .ok bytes) : 8 ≤ bytes.length := by
  obtain ⟨count, hcount, hb⟩ := ok_of_bind hb
  obtain ⟨layers, -, hb⟩ := ok_of_bind hb
  cases hb
  have hlength : count.length = 2 := by
    unfold sizedBytes at hcount
    split at hcount
    · cases hcount
      exact length_littleEndian _ _
    · cases hcount
  simp only [List.length_append, length_littleEndian, hlength, magic, List.length_cons,
    List.length_nil]
  omega

/-- From the bytes of a model its layers are read, unless they have a fault. -/
theorem ofBytes_toBytes {m : Model} (hs : ∀ l ∈ m.layers, l.Sized) (hb : m.toBytes = .ok bytes) :
    ofBytes bytes = unlessFault m.fault? ⟨methodOf m.layers, m.layers⟩ := by
  obtain ⟨body, hbody, rfl⟩ := ok_of_map hb
  have hlength : (sealed body).length = body.length + 4 := by
    rw [sealed, List.length_append, length_littleEndian]
  have hlong := length_body hbody
  have hstored : UInt32.ofNat (ofLittleEndian (littleEndian 4 (checksum body).toNat)) =
      checksum body := by
    rw [ofLittleEndian_littleEndian (checksum body).toNat_lt, UInt32.ofNat_toNat]
  unfold ofBytes
  rw [if_neg (by omega)]
  simp only [hlength, Nat.add_sub_cancel]
  simp only [sealed, List.take_left, List.drop_left, hstored, ne_eq, not_true, if_false]
  exact ofBody_body hs hbody

end Model

/-! ## Networks as models -/

theorem Layer.Sized.stored {l : Layer} (h : l.Sized) (q : Quantization) : (l.stored q).Sized := by
  refine ⟨?_, h.bias⟩
  cases q with
  | float32 => exact h.weights
  | int8 =>
    refine ⟨Array.size_ofFn, ?_⟩
    rw [Array.size_mapIdx]
    exact h.weights

theorem methodOf_ofNetwork {n : Network} (hn : n.layers ≠ []) (q : Quantization) :
    methodOf (Model.ofNetwork n q).layers = q := by
  obtain ⟨l, rest, hl⟩ := List.exists_cons_of_ne_nil hn
  cases q with
  | float32 => simp [methodOf, Model.ofNetwork, StoredWeights.isInt8, Layer.stored]
  | int8 =>
    simp [methodOf, Model.ofNetwork, StoredWeights.isInt8, Layer.stored, quantizeInt8, hl]

/-- What is read from the bytes of a network as a model is that model. -/
theorem Model.ofBytes_ofNetwork {n : Network} {q : Quantization} {m : Model} (hn : n.layers ≠ [])
    (hs : ∀ l ∈ n.layers, l.Sized) (hb : (ofNetwork n q).toBytes = .ok bytes)
    (h : ofBytes bytes = .ok m) : m = ofNetwork n q := by
  have hstored : ∀ l ∈ (ofNetwork n q).layers, l.Sized := by
    intro l hl
    obtain ⟨l, hmem, rfl⟩ := List.mem_map.1 hl
    exact (hs l hmem).stored q
  rw [ofBytes_toBytes hstored hb, methodOf_ofNetwork hn] at h
  exact (unlessFault_eq_ok.1 h).2.symm

end Triage
