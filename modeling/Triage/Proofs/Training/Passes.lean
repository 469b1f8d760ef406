/-
One sample among the tables of a training. On its way forward the input of each layer is appended to
a list, and the gates of each hidden layer to another; on the way back, which counts the layers down,
these lists, the layers and their gradients are asked for by number, and the arrays of weights row by
row. Whatever is asked for is there, and what comes out is what the passes over the layers give that
ask for nothing by number. This is so because layers that are in step stay so from one to the next: the
input of a layer is as wide as its rows are many, there are gates for each layer but the last, as many
as it has outputs, and the error at a layer is as long as its rows.
-/
import Triage.Proofs.Training.Outlines

namespace Triage

namespace Training

/-! ## Forward -/

/-- What is kept of a sample for the way back: the input of each layer and at last the output, and
the gates of each hidden layer. -/
structure Trace where
  activations : List Singles
  gates : List Singles

/-- Sends a sample on from layer number `l`. -/
def traceFrom? (rates : List Float32) (l : Nat) (t : Trace) :
    List Layer → Random.Source → Option (Trace × Random.Source)
  | [], s => some (t, s)
  | layer :: rest, s => do
    let input ← t.activations[l]?
    let out ← layer.forward? input
    match layer.activation with
    | .softmax => traceFrom? rates (l + 1) ⟨t.activations ++ [out], t.gates⟩ rest s
    | .relu =>
      let (gates, s) := drawGates ((rates[l]?).getD 0) out.toList s
      traceFrom? rates (l + 1)
        ⟨t.activations ++ [out.zipWith gated gates.toArray], t.gates ++ [gates.toArray]⟩ rest s

/-- Sends a sample through layers. -/
def trace? (rates : List Float32) (ls : List Layer) (x : Singles) (s : Random.Source) :
    Option (Trace × Random.Source) :=
  traceFrom? rates 0 ⟨[x], []⟩ ls s

/-- The gates of the hidden layers. -/
def hiddenGates (passages : List Passage) : List Singles :=
  (passages.filter (·.layer.activation == .relu)).map Passage.gates

/-- What is kept of a sample that passed layers and came out as `y`. -/
def traceOf (passages : List Passage) (y : Singles) : Trace :=
  ⟨passages.map Passage.input ++ [y], hiddenGates passages⟩

section

variable {ls : List Layer} {x : Singles}

theorem size_gated (l : Layer) (x : Singles) (rate : Float32) (s : Random.Source) :
    ((l.forward x).zipWith gated (drawGates rate (l.forward x).toList s).1.toArray).size =
      l.outputs := by
  simp [length_drawGates, size_forward]

/-- Nothing is asked for that is not there, and what is kept is what happened at the layers. -/
theorem traceFrom?_eq (rates : List Float32) (h : InStep ls) (hx : Enters x ls)
    (front gates : List Singles) (s : Random.Source) :
    traceFrom? rates front.length ⟨front ++ [x], gates⟩ ls s =
      let (passages, y, s) := passThrough (rates.drop front.length) x ls s
      some (⟨front ++ (traceOf passages y).activations, gates ++ (traceOf passages y).gates⟩, s) := by
  induction ls generalizing x front gates s with
  | nil => simp [traceFrom?, passThrough, traceOf, hiddenGates]
  | cons l rest ih =>
    have hget : (front ++ [x])[front.length]? = some x := by simp
    have hlength (y : Singles) : front.length + 1 = (front ++ [y]).length := by simp
    unfold traceFrom? passThrough
    simp only [hget, h.forward?_eq hx, Option.bind_eq_bind, Option.bind_some, List.head?_drop,
      List.drop_drop, hlength x]
    cases hact : l.activation with
    | softmax =>
      simp only [ih h.tail (h.enters (size_forward l x))]
      simp [traceOf, hiddenGates, hact]
    | relu =>
      simp only [ih h.tail (h.enters (size_gated l x _ s))]
      simp [traceOf, hiddenGates, hact]

theorem trace?_eq (rates : List Float32) (h : InStep ls) (hx : Enters x ls) (s : Random.Source) :
    trace? rates ls x s =
      let (passages, y, s) := passThrough rates x ls s
      some (traceOf passages y, s) := by
  have hfrom := traceFrom?_eq rates h hx [] [] s
  rw [List.length_nil, List.drop_zero] at hfrom
  exact hfrom

end

/-- Whether a layer on the way of a sample had as many inputs as it takes, and, if it is hidden, has
as many gates as outputs. -/
structure Passage.Sized (p : Passage) : Prop where
  input : p.input.size = p.layer.inputs
  gates : p.layer.activation = .relu → p.gates.size = p.layer.outputs

theorem passages_sized {rates : List Float32} {ls : List Layer} {x : Singles} (h : InStep ls)
    (hx : Enters x ls) (s : Random.Source) :
    ∀ p ∈ (passThrough rates x ls s).1, p.Sized := by
  induction ls generalizing rates x s with
  | nil => exact fun p hp => absurd hp List.not_mem_nil
  | cons l rest ih =>
    unfold passThrough
    cases hact : l.activation with
    | softmax =>
      refine List.forall_mem_cons.2 ⟨⟨hx l rfl, fun hrelu => ?_⟩,
        ih h.tail (h.enters (size_forward l x)) s⟩
      rw [hact] at hrelu
      cases hrelu
    | relu =>
      refine List.forall_mem_cons.2 ⟨⟨hx l rfl, fun _ => ?_⟩,
        ih h.tail (h.enters (size_gated l x _ s)) _⟩
      simp [length_drawGates, size_forward]

/-- There are gates for each layer that another one follows. -/
theorem getElem?_hiddenGates {passages : List Passage} {k : Nat}
    (h : InStep (passages.map Passage.layer)) (hk : k + 1 < passages.length) :
    (hiddenGates passages)[k]? = passages[k]?.map Passage.gates := by
  induction passages generalizing k with
  | nil => exact absurd hk (Nat.not_lt_zero _)
  | cons p rest ih =>
    cases rest with
    | nil => simp at hk
    | cons q rest =>
      have hrelu : p.layer.activation = .relu := (List.isChain_cons_cons.1 h.chain).1.1
      have hcons : hiddenGates (p :: q :: rest) = p.gates :: hiddenGates (q :: rest) := by
        simp [hiddenGates, hrelu]
      rw [hcons]
      cases k with
      | zero => rfl
      | succ k => exact ih h.tail (by simpa using hk)

/-! ## Rows of a gradient -/

/-- Members from one place on replaced by those of a row. -/
def putRow (xs row : Singles) (first : Nat) : Singles :=
  xs.mapIdx fun k x => if first ≤ k then row.getD (k - first) x else x

/-- Adds what an input gives to the weights it has, unless their row is not there. -/
def addRow? (outputs : Nat) (delta w : Singles) : Nat × Float32 → Option Singles
  | (i, x) => (row? w outputs i).map fun row =>
    putRow w (zipInto (fun g d => g + x * d) row delta) (i * outputs)

/-- Adds the part of one sample, unless a row is missing. -/
def Gradient.add? (g : Gradient) (l : Layer) (input delta : Singles) : Option Gradient := do
  let w ← (activeInputs input).foldlM (addRow? l.outputs delta) g.weights
  pure ⟨w, zipInto (· + ·) g.bias delta⟩

/-- A row of a gradient, entry by entry. -/
theorem getElem?_addRow (outputs : Nat) (delta : List Float32) (w : Singles) (i : Nat)
    (x : Float32) (k : Nat) : (addRow outputs delta w i x)[k]? = w[k]?.map fun g =>
      if i * outputs ≤ k then (delta[k - i * outputs]?).elim g (g + x * ·) else g := by
  unfold addRow
  have hfrom (entries : List Float32) (m : Nat) (w : Singles) :
      ((entries.zipIdx m).foldl
        (fun w e => w.modify (i * outputs + e.2) (· + x * e.1)) w)[k]? = w[k]?.map fun g =>
          if i * outputs + m ≤ k then
            (entries[k - (i * outputs + m)]?).elim g (g + x * ·) else g := by
    induction entries generalizing m w with
    | nil => cases hk : w[k]? <;> simp [hk]
    | cons d rest ih =>
      rw [List.zipIdx_cons, List.foldl_cons, ih, Array.getElem?_modify]
      rcases Nat.lt_trichotomy (i * outputs + m) k with hlt | heq | hgt
      · obtain ⟨n, rfl⟩ := Nat.exists_eq_add_of_lt hlt
        have hplace : i * outputs + m + n + 1 - (i * outputs + m) = n + 1 := by omega
        have hrest : i * outputs + m + n + 1 - (i * outputs + (m + 1)) = n := by omega
        rw [if_neg (by omega), hplace, hrest]
        simp [show i * outputs + (m + 1) ≤ i * outputs + m + n + 1 by omega,
          show i * outputs + m ≤ i * outputs + m + n + 1 by omega]
      · subst heq
        rw [if_pos rfl]
        cases hk : w[i * outputs + m]? <;>
          simp [show ¬i * outputs + (m + 1) ≤ i * outputs + m by omega]
      · rw [if_neg (by omega)]
        cases hk : w[k]? <;>
          simp [show ¬i * outputs + (m + 1) ≤ k by omega, show ¬i * outputs + m ≤ k by omega]
  exact hfrom delta 0 w

theorem addRow?_eq {rows outputs i : Nat} {delta w : Singles} (hw : w.size = rows * outputs)
    (hwords : rows * outputs < UInt64.size) (hd : delta.size = outputs) (hi : i < rows)
    (x : Float32) : addRow? outputs delta w (i, x) = some (addRow outputs delta.toList w i x) := by
  rw [addRow?, row?_eq hw hwords hi 0, Option.map_some, zipInto_ofFn _ _ hd]
  refine congrArg some (Array.ext_getElem? fun k => ?_)
  rw [getElem?_addRow, putRow, Array.getElem?_mapIdx]
  rcases Nat.lt_or_ge k w.size with hk | hk
  · rw [Array.getElem?_eq_getElem hk, Option.map_some, Option.map_some]
    split
    · rename_i hle
      rcases Nat.lt_or_ge (k - i * outputs) outputs with hj | hj
      · have hplace : i * outputs + (k - i * outputs) = k := by omega
        simp [hj, hd, hk, hplace]
      · simp [hd, Nat.not_lt.2 hj]
    · rfl
  · rw [Array.getElem?_eq_none hk]
    rfl

theorem foldlM_eq_foldl {σ α : Type} {step? : σ → α → Option σ} {step : σ → α → σ} {P : σ → Prop}
    {as : List α} (hstep : ∀ s a, P s → a ∈ as → step? s a = some (step s a) ∧ P (step s a))
    {s : σ} (hs : P s) : as.foldlM step? s = some (as.foldl step s) := by
  induction as generalizing s with
  | nil => rfl
  | cons a rest ih =>
    obtain ⟨heq, hnext⟩ := hstep s a hs List.mem_cons_self
    rw [List.foldlM_cons, heq]
    exact ih (fun s a hs ha => hstep s a hs (List.mem_cons_of_mem _ ha)) hnext

theorem zipInto_eq_zipWith {f : Float32 → Float32 → Float32} {xs ys : Singles}
    (h : xs.size = ys.size) : zipInto f xs ys = xs.zipWith f ys := by
  refine Array.ext (by simp [zipInto, h]) fun j hj _ => ?_
  have hlt : j < ys.size := by simpa [zipInto, h] using hj
  simp [zipInto, hlt]

/-- No row is missing for an error as long as the rows. -/
theorem Gradient.Fits.add?_eq {g : Gradient} {l : Layer} {input delta : Singles} (h : g.Fits l)
    (hwords : l.inputs * l.outputs < UInt64.size) (hin : input.size = l.inputs)
    (hd : delta.size = l.outputs) : g.add? l input delta = some (g.add l input delta) := by
  obtain ⟨w, b⟩ := g
  have hfold : (activeInputs input).foldlM (addRow? l.outputs delta) w =
      some ((activeInputs input).foldl
        (fun w e => addRow l.outputs delta.toList w e.1 e.2) w) := by
    refine foldlM_eq_foldl (P := fun w => w.size = l.inputs * l.outputs)
      (fun w e hw he => ⟨?_, ?_⟩) h.weights
    · exact addRow?_eq hw hwords hd (hin ▸ lt_of_mem_activeInputs he) e.2
    · rw [size_addRow, hw]
  rw [Gradient.add?, hfold, zipInto_eq_zipWith (h.bias.trans hd.symm)]
  rfl

/-! ## Errors pulled back -/

/-- The error at an output of the layer before, unless its gate or its row of weights is missing. -/
def pullUnit? (l : Layer) (delta gates : Singles) (i : Nat) : Option Float32 := do
  let gate ← gates[i]?
  if gate == 0 then pure 0
  else
    let row ← row? l.weights l.outputs i
    pure ((row.toList.zip delta.toList).foldl (fun sum (w, d) => sum + w * d) 0 * gate)

/-- The error at the outputs of the layer before. -/
def pullBack? (l : Layer) (delta gates : Singles) : Option Singles := do
  let units ← (List.range l.inputs).mapM (pullUnit? l delta gates)
  pure units.toArray

theorem mapM_eq_map {α β : Type} {f? : α → Option β} {f : α → β} {as : List α}
    (h : ∀ a ∈ as, f? a = some (f a)) : as.mapM f? = some (as.map f) := by
  induction as with
  | nil => rfl
  | cons a rest ih =>
    obtain ⟨ha, hrest⟩ := List.forall_mem_cons.1 h
    rw [List.mapM_cons, ha, ih hrest]
    rfl

section

variable {l : Layer} {delta gates : Singles}

theorem pullUnit?_eq (hs : l.Sized) (hwords : l.inputs * l.outputs < UInt64.size)
    (hd : delta.size = l.outputs) (hg : gates.size = l.inputs) {i : Nat} (hi : i < l.inputs) :
    pullUnit? l delta gates i = some ((pullBack l delta gates).getD i 0) := by
  have hgate : gates[i]? = some (gates.getD i 0) := by simp [hg, hi]
  have hunit : (pullBack l delta gates).getD i 0 = if gates.getD i 0 == 0 then 0
      else delta.toList.zipIdx.foldl (fun sum e => sum + l.weight i e.2 * e.1) 0 *
        gates.getD i 0 := by
    simp [pullBack, hi]
  have hrow : ((Array.ofFn fun j : Fin l.outputs => l.weights.getD (i * l.outputs + j) 0).toList.zip
      delta.toList) = delta.toList.zipIdx.map fun e => (l.weight i e.2, e.1) := by
    refine List.ext_getElem (by simp [hd]) fun j hj _ => ?_
    simp [Layer.weight]
  rw [hunit, pullUnit?, hgate]
  simp only [Option.bind_eq_bind, Option.bind_some]
  split
  · rfl
  · rw [row?_eq hs.weights hwords hi 0, Option.bind_some, hrow, List.foldl_map]
    rfl

/-- No gate and no row is missing. -/
theorem pullBack?_eq (hs : l.Sized) (hwords : l.inputs * l.outputs < UInt64.size)
    (hd : delta.size = l.outputs) (hg : gates.size = l.inputs) :
    pullBack? l delta gates = some (pullBack l delta gates) := by
  have hunits : (List.range l.inputs).mapM (pullUnit? l delta gates) =
      some ((List.range l.inputs).map ((pullBack l delta gates).getD · 0)) :=
    mapM_eq_map fun i hi => pullUnit?_eq hs hwords hd hg (List.mem_range.1 hi)
  rw [pullBack?, hunits]
  refine congrArg some (Array.ext (by simp [pullBack]) fun i hi _ => ?_)
  have hlt : i < l.inputs := by simpa using hi
  simp [pullBack, hlt]

end

/-! ## Backward -/

/-- Adds the part of one sample to the gradients of a layer and of those before it, `delta` being the
error at it; they are gone through from the last to the first. -/
def backFrom? (ls : List Layer) (t : Trace) (l : Nat) (delta : Singles) (gs : List Gradient) :
    Option (List Gradient) := do
  let layer ← ls[l]?
  let input ← t.activations[l]?
  let g ← gs[l]?
  let g ← g.add? layer input delta
  match l with
  | 0 => pure (gs.set l g)
  | k + 1 =>
    let gates ← t.gates[k]?
    let delta ← pullBack? layer delta gates
    backFrom? ls t k delta (gs.set l g)

/-- Adds the part of one sample to the gradients of all layers. -/
def back? (ls : List Layer) (t : Trace) (delta : Singles) (gs : List Gradient) :
    Option (List Gradient) :=
  match ls.length with
  | 0 => pure gs
  | l + 1 => backFrom? ls t l delta gs

section

variable {delta : Singles} {p : Passage} {rest : List Passage} {g : Gradient} {gs : List Gradient}

theorem backward_cons (h : gs.length = rest.length) :
    (backward delta (p :: rest) (g :: gs)).1 =
      g.add p.layer p.input (backward delta (p :: rest) (g :: gs)).2 ::
        (backward delta rest gs).1 := by
  cases rest with
  | nil =>
    rw [List.length_eq_zero_iff.1 h]
    rfl
  | cons q rest => rfl

end

/-- A way and the gradients it is to be added to, all of the sizes that go together, `delta` being the
error at the end. -/
structure Ready (delta : Singles) (passages : List Passage) (gs : List Gradient) : Prop where
  inStep : InStep (passages.map Passage.layer)
  sized : ∀ p ∈ passages, p.Sized
  fits : List.Forall₂ Gradient.Fits gs (passages.map Passage.layer)
  error : ∀ p, passages.getLast? = some p → delta.size = p.layer.outputs

namespace Ready

variable {delta : Singles} {p : Passage} {front rest passages : List Passage} {g : Gradient}
  {before gs : List Gradient}

theorem right (h : Ready delta (front ++ rest) (before ++ gs)) (hb : before.length = front.length) :
    Ready delta rest gs := by
  have hlayers := h.inStep.drop front.length
  have hfits := List.forall₂_drop front.length h.fits
  rw [← List.map_drop, List.drop_left] at hlayers hfits
  rw [← hb, List.drop_left] at hfits
  refine ⟨hlayers, fun p hp => h.sized p (List.mem_append_right _ hp), hfits, fun p hp => ?_⟩
  exact h.error p (by rw [List.getLast?_append, hp]; rfl)

theorem length_eq (h : Ready delta passages gs) : gs.length = passages.length := by
  rw [h.fits.length_eq, List.length_map]

theorem size_backward (h : Ready delta (p :: rest) gs) :
    (backward delta (p :: rest) gs).2.size = p.layer.outputs :=
  (backward_fits h.inStep.linked h.error h.fits).2 p rfl

/-- No row of the gradient of the first layer is missing. -/
theorem add?_eq (h : Ready delta (p :: rest) (g :: gs)) :
    g.add? p.layer p.input (backward delta (p :: rest) (g :: gs)).2 =
      some (g.add p.layer p.input (backward delta (p :: rest) (g :: gs)).2) := by
  obtain ⟨hg, -⟩ := List.forall₂_cons.1 h.fits
  exact hg.add?_eq (h.inStep.words _ List.mem_cons_self) (h.sized p List.mem_cons_self).input
    h.size_backward

/-- Nor is a row of weights or a gate on the way from the second layer back to the first. -/
theorem pullBack?_eq {q : Passage} (h : Ready delta (q :: p :: rest) (g :: gs)) :
    pullBack? p.layer (backward delta (p :: rest) gs).2 q.gates =
      some (backward delta (q :: p :: rest) (g :: gs)).2 := by
  have hright : Ready delta (p :: rest) gs :=
    (show Ready delta ([q] ++ p :: rest) ([g] ++ gs) from h).right rfl
  obtain ⟨hrelu, hwidth⟩ := (List.isChain_cons_cons.1 h.inStep.chain).1
  have hmem := List.mem_cons_self (a := p.layer) (l := rest.map Passage.layer)
  rw [Training.pullBack?_eq (hright.inStep.sized _ hmem) (hright.inStep.words _ hmem)
    hright.size_backward (((h.sized q List.mem_cons_self).gates hrelu).trans hwidth.symm)]
  rfl

/-- The gates that are asked for on the way back are those of the layer before. -/
theorem gates {q : Passage} (h : Ready delta (front ++ q :: p :: rest) gs) (y : Singles) :
    (traceOf (front ++ q :: p :: rest) y).gates[front.length]? = some q.gates := by
  have hplace : front.length + 1 < (front ++ q :: p :: rest).length := by simp
  exact (getElem?_hiddenGates h.inStep hplace).trans (by simp)

/-- One layer back: its own gradient is there, and becomes that of the way back. -/
theorem backFrom?_step (y : Singles) (hb : before.length = front.length)
    (h : Ready delta (front ++ p :: rest) (before ++ g :: gs)) :
    backFrom? ((front ++ p :: rest).map Passage.layer) (traceOf (front ++ p :: rest) y)
        front.length (backward delta (p :: rest) (g :: gs)).2
        (before ++ g :: (backward delta rest gs).1) =
      match front.length with
      | 0 => some (before ++ (backward delta (p :: rest) (g :: gs)).1)
      | k + 1 => (traceOf (front ++ p :: rest) y).gates[k]?.bind fun gates =>
        (pullBack? p.layer (backward delta (p :: rest) (g :: gs)).2 gates).bind fun next =>
          backFrom? ((front ++ p :: rest).map Passage.layer) (traceOf (front ++ p :: rest) y) k next
            (before ++ (backward delta (p :: rest) (g :: gs)).1) := by
  have hright := h.right hb
  have hlength : gs.length = rest.length := by simpa using hright.length_eq
  have hlayer : ((front ++ p :: rest).map Passage.layer)[front.length]? = some p.layer := by simp
  have hinput : (traceOf (front ++ p :: rest) y).activations[front.length]? = some p.input := by
    simp [traceOf]
  have hgradient (gs : List Gradient) : (before ++ g :: gs)[front.length]? = some g := by
    simp [← hb]
  have hset (g' : Gradient) (gs : List Gradient) :
      (before ++ g :: gs).set front.length g' = before ++ g' :: gs := by
    simp [← hb]
  rw [backFrom?]
  simp only [hlayer, hinput, hgradient, hright.add?_eq, hset, ← backward_cons hlength,
    Option.bind_eq_bind, Option.bind_some]
  rfl

/-- From any layer on, the gradients of the layers behind it being those of the way back, the others
become so. The layers are counted down, so the induction is on those before. -/
theorem backFrom?_eq (y : Singles) (hb : before.length = front.length)
    (h : Ready delta (front ++ p :: rest) (before ++ g :: gs)) :
    backFrom? ((front ++ p :: rest).map Passage.layer) (traceOf (front ++ p :: rest) y)
        front.length (backward delta (p :: rest) (g :: gs)).2
        (before ++ g :: (backward delta rest gs).1) =
      some (backward delta (front ++ p :: rest) (before ++ g :: gs)).1 := by
  induction front using List.reverseRecOn generalizing p rest before g gs with
  | nil =>
    obtain rfl := List.length_eq_zero_iff.1 hb
    exact h.backFrom?_step y hb
  | append_singleton front q ih =>
    have hstep := h.backFrom?_step y hb
    obtain ⟨before, g', rfl⟩ := (List.eq_nil_or_concat' before).resolve_left fun hnil => by
      simp [hnil] at hb
    have hb' : before.length = front.length := by simpa using hb
    rw [List.length_append, List.length_singleton] at hstep ⊢
    simp only [List.append_assoc, List.cons_append, List.nil_append] at h hstep ⊢
    rw [hstep, h.gates y, Option.bind_some, (h.right hb').pullBack?_eq, Option.bind_some]
    exact ih hb' h

end Ready

/-- Nothing is asked for on the way back that is not there, and the gradients become what the way
back over the layers gives. -/
theorem Ready.back?_eq {delta : Singles} {passages : List Passage} {gs : List Gradient}
    (h : Ready delta passages gs) (y : Singles) :
    back? (passages.map Passage.layer) (traceOf passages y) delta gs =
      some (backward delta passages gs).1 := by
  have hlength := h.length_eq
  rcases List.eq_nil_or_concat' passages with rfl | ⟨front, p, rfl⟩
  · rw [List.length_eq_zero_iff.1 hlength]
    rfl
  · obtain ⟨before, g, rfl⟩ := (List.eq_nil_or_concat' gs).resolve_left fun hnil => by
      simp [hnil] at hlength
    have hb : before.length = front.length := by simpa using hlength
    rw [back?, List.length_map, List.length_append]
    exact h.backFrom?_eq y hb

end Training

end Triage
