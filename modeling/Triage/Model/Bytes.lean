/-
The binary form of a model. All numbers stand with their lowest byte first:

    "ADQM"        the mark of the format
    version       two bytes, 1
    layers        two bytes
    each layer    inputs and outputs (four bytes each), activation (a byte: 0 ReLU, 1 softmax),
                  weight type (a byte: 0 singles, 1 bytes), the weights, the biases
    checksum      four bytes, over everything before them

Weights of type 1 are preceded by their scales. A reader takes from the front what it has already
been told the size of, so it never asks for more than is there.
-/
import Triage.Model.Basic
import Triage.Model.Checksum

namespace Triage

/-! ## Numbers -/

/-- The `n` lowest bytes of a number, lowest first. -/
def littleEndian : Nat → Nat → List UInt8
  | 0, _ => []
  | n + 1, v => UInt8.ofNat v :: littleEndian n (v / 256)

/-- The number with these bytes, lowest first. -/
def ofLittleEndian : List UInt8 → Nat
  | [] => 0
  | b :: rest => b.toNat + 256 * ofLittleEndian rest

/-- The bytes of a single. -/
def singleBytes (x : Float32) : List UInt8 :=
  littleEndian 4 x.toBits.toNat

/-- The bytes of a number that must fit `n` bytes. -/
def sizedBytes (n v : Nat) : Except Error (List UInt8) :=
  if v < Nat.pow 256 n then .ok (littleEndian n v) else .error (.argument (.tooLarge v (8 * n)))

/-! ## Writing -/

/-- The code of an activation. -/
def Activation.code : Activation → UInt8
  | .relu => 0
  | .softmax => 1

/-- The type and the bytes of weights. -/
def StoredWeights.toBytes : StoredWeights → List UInt8
  | .float32 w => 0 :: w.toList.flatMap singleBytes
  | .int8 scales values =>
    1 :: (scales.toList.flatMap singleBytes ++ values.toList.map Int8.toUInt8)

/-- The bytes of a layer. -/
def StoredLayer.toBytes (l : StoredLayer) : Except Error (List UInt8) := do
  let inputs ← sizedBytes 4 l.inputs
  let outputs ← sizedBytes 4 l.outputs
  pure (inputs ++ outputs ++ l.activation.code :: l.weights.toBytes ++
    l.bias.toList.flatMap singleBytes)

/-- The bytes of layers, one after the other. -/
def layerBytes : List StoredLayer → Except Error (List UInt8)
  | [] => .ok []
  | l :: rest => do
    let head ← l.toBytes
    let tail ← layerBytes rest
    pure (head ++ tail)

/-- The mark of the format. -/
def Model.magic : List UInt8 :=
  [0x41, 0x44, 0x51, 0x4d]

/-- The bytes of a model before the checksum. -/
def Model.body (m : Model) : Except Error (List UInt8) := do
  let count ← sizedBytes 2 m.layers.length
  let layers ← layerBytes m.layers
  pure (magic ++ littleEndian 2 1 ++ count ++ layers)

/-- Bytes with their checksum behind them. -/
def sealed (body : List UInt8) : List UInt8 :=
  body ++ littleEndian 4 (checksum body).toNat

/-- The bytes of a model. -/
def Model.toBytes (m : Model) : Except Error (List UInt8) :=
  m.body.map sealed

/-! ## Reading -/

/-- Takes a value off the front of bytes. -/
abbrev ByteReader (α : Type) := List UInt8 → Except ModelFault (α × List UInt8)

/-- Takes `n` bytes. -/
def takeBytes (n : Nat) : ByteReader (List UInt8) := fun bs =>
  let front := bs.take n
  if front.length = n then .ok (front, bs.drop n) else .error .truncated

/-- Takes a number of `n` bytes. -/
def takeNumber (n : Nat) : ByteReader Nat := fun bs => do
  let (front, rest) ← takeBytes n bs
  pure (ofLittleEndian front, rest)

/-- The singles of bytes, four to each. -/
def singlesOf : List UInt8 → List Float32
  | a :: b :: c :: d :: rest =>
    Float32.ofBits (UInt32.ofNat (ofLittleEndian [a, b, c, d])) :: singlesOf rest
  | _ => []

/-- Takes `n` singles, all of which must be finite. -/
def takeSingles (n : Nat) : ByteReader Singles := fun bs => do
  let (front, rest) ← takeBytes (4 * n) bs
  let xs := singlesOf front
  if xs.all Float32.isFinite then pure (xs.toArray, rest) else .error .notFinite

/-- Takes the activation of a layer. -/
def takeActivation (index : Nat) : ByteReader Activation := fun bs => do
  let (code, rest) ← takeNumber 1 bs
  match code with
  | 0 => pure (.relu, rest)
  | 1 => pure (.softmax, rest)
  | _ => .error (.activation index code)

/-- Takes the weights of a layer, their type being known. -/
def takeWeights (index code count outputs : Nat) : ByteReader StoredWeights := fun bs =>
  match code with
  | 0 => do
    let (w, rest) ← takeSingles count bs
    pure (.float32 w, rest)
  | 1 => do
    let (scales, rest) ← takeSingles outputs bs
    let (values, rest) ← takeBytes count rest
    pure (.int8 scales (values.map UInt8.toInt8).toArray, rest)
  | _ => .error (.weightType index code)

/-- Takes a layer. There cannot be more weights than bytes left. -/
def takeLayer (index : Nat) : ByteReader StoredLayer := fun bs => do
  let (inputs, rest) ← takeNumber 4 bs
  let (outputs, rest) ← takeNumber 4 rest
  let (activation, rest) ← takeActivation index rest
  let (code, rest) ← takeNumber 1 rest
  let count := inputs * outputs
  if count = 0 then .error (.shape index inputs outputs)
  if rest.length < count then .error (.tooManyWeights index count rest.length)
  let (weights, rest) ← takeWeights index code count outputs rest
  let (bias, rest) ← takeSingles outputs rest
  pure (⟨inputs, outputs, activation, weights, bias⟩, rest)

/-- Takes `n` layers, `index` being the number of the first. -/
def takeLayers (index : Nat) : Nat → ByteReader (List StoredLayer)
  | 0 => fun bs => .ok ([], bs)
  | n + 1 => fun bs => do
    let (l, rest) ← takeLayer index bs
    let (ls, rest) ← takeLayers (index + 1) n rest
    pure (l :: ls, rest)

/-! ## Checking -/

/-- The first fault in the order of layers: all but the last use ReLU and fit the next one, and the
last uses softmax over two classes or more. -/
def chainFault? (index : Nat) : List StoredLayer → Option ModelFault
  | [] => none
  | [last] =>
    if last.activation ≠ .softmax then some (.chainActivation index .softmax last.activation)
    else if last.outputs < 2 then some .tooFewClasses
    else none
  | a :: b :: rest =>
    if a.activation ≠ .relu then some (.chainActivation index .relu a.activation)
    else if b.inputs ≠ a.outputs then some (.chainWidths index b.inputs a.outputs)
    else chainFault? (index + 1) (b :: rest)

/-- Whether weights are kept as bytes. -/
def StoredWeights.isInt8 : StoredWeights → Bool
  | .float32 _ => false
  | .int8 _ _ => true

/-- How the weights of layers are kept: as bytes if those of any are. -/
def methodOf (layers : List StoredLayer) : Quantization :=
  if layers.any (·.weights.isInt8) then .int8 else .float32

/-- The model with these bytes before the checksum. -/
def Model.ofBody (body : List UInt8) : Except ModelFault Model := do
  let (mark, rest) ← takeBytes 4 body
  if mark ≠ Model.magic then .error .magic
  let (version, rest) ← takeNumber 2 rest
  if version ≠ 1 then .error (.version version)
  let (count, rest) ← takeNumber 2 rest
  if count = 0 then .error .noLayers
  let (layers, rest) ← takeLayers 0 count rest
  if rest ≠ [] then .error (.trailing rest.length)
  match chainFault? 0 layers with
  | some f => .error f
  | none => pure ⟨methodOf layers, layers⟩

/-- The model with these bytes. -/
def Model.ofBytes (bytes : List UInt8) : Except ModelFault Model :=
  if bytes.length < 12 then .error (.tooShort bytes.length)
  else
    let body := bytes.take (bytes.length - 4)
    let stored := UInt32.ofNat (ofLittleEndian (bytes.drop (bytes.length - 4)))
    let computed := checksum body
    if stored ≠ computed then .error (.checksum stored computed) else Model.ofBody body

end Triage
