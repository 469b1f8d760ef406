/-
A whole training among its tables. Layers, means and gradients stand in lists of their own that are
kept from the first batch to the last: the gradients are set to zero before a batch and not made anew,
samples and labels are asked for by the numbers that the order of an epoch holds, and the loss of an
epoch is a total that is looked at in its end. Every such training ends as the one that asks for
nothing by number, whatever the settings, as long as the products of the widths are numbers of 64 bits.

What carries this from batch to batch is that the tables stay those of the layers under training, with
the outlines the layers began with and arrays as long as these say. The loss stays finite because the
share of the right class is taken to be above zero.
-/
import Triage.Proofs.Number.Totals
import Triage.Proofs.Random.Draw
import Triage.Proofs.Training.Kept
import Triage.Proofs.Training.Moves
import Triage.Proofs.Training.Passes

namespace Triage

/-! ## Computations that may stop -/

/-- A computation that may end with an error, and may also stop without a result or an error. -/
abbrev Checked (α : Type) :=
  ExceptT Error Option α

/-- What was asked for, unless it is not there. -/
def ask {α : Type} (o : Option α) : Checked α :=
  ExceptT.mk (o.map .ok)

/-- A computation that does not stop. -/
def whole {α : Type} (x : Except Error α) : Checked α :=
  ExceptT.mk (some x)

/-- Whether a computation that may stop does not stop, and ends as another does that cannot. -/
def Follows {α β : Type} (R : α → β → Prop) (c : Checked α) (x : Except Error β) : Prop :=
  ∃ y, c.run = some y ∧ Alike Eq R y x

namespace Follows

variable {α β γ δ : Type} {R : α → β → Prop} {S : γ → δ → Prop} {c : Checked α} {x : Except Error β}

theorem pure {a : α} {b : β} (h : R a b) : Follows R (Pure.pure a : Checked α) (.ok b) :=
  ⟨.ok a, rfl, h⟩

theorem error (e : Error) : Follows R (throw e : Checked α) (.error e) :=
  ⟨.error e, rfl, rfl⟩

theorem whole (x : Except Error β) : Follows Eq (Triage.whole x) x := by
  refine ⟨x, rfl, ?_⟩
  cases x <;> exact rfl

theorem run_eq {c : Checked β} (h : Follows Eq c x) : c.run = some x := by
  obtain ⟨y, hc, hy⟩ := h
  rcases hy.cases with ⟨e, _, rfl, rfl, rfl⟩ | ⟨a, _, rfl, rfl, rfl⟩ <;> exact hc

theorem of_ok {b : β} (h : Follows R c x) (hx : x = .ok b) : ∃ a, R a b := by
  obtain ⟨y, -, hy⟩ := h
  rcases hy.cases with ⟨_, _, -, rfl, -⟩ | ⟨a, _, -, rfl, hab⟩
  · cases hx
  · cases hx
    exact ⟨a, hab⟩

theorem bind {f : α → Checked γ} {g : β → Except Error δ} (h : Follows R c x)
    (hk : ∀ a b, x = .ok b → R a b → Follows S (f a) (g b)) : Follows S (c >>= f) (x >>= g) := by
  obtain ⟨y, hc, hy⟩ := h
  rcases hy.cases with ⟨e, e', rfl, rfl, rfl⟩ | ⟨a, b, rfl, rfl, hab⟩
  · obtain rfl : c = throw e := hc
    exact error e
  · obtain rfl : c = Pure.pure a := hc
    exact hk a b rfl hab

/-- What is asked for and is there. -/
theorem ask_bind {o : Option α} {a : α} {f : α → Checked γ} {z : Except Error δ} (ho : o = some a)
    (h : Follows S (f a) z) : Follows S (ask o >>= f) z := by
  subst ho
  exact h

/-- What is asked for in the end and is there. -/
theorem bind_ask {o : α → Option γ} {S : γ → β → Prop} (h : Follows R c x)
    (ho : ∀ a b, R a b → ∃ a', o a = some a' ∧ S a' b) : Follows S (c >>= fun a => ask (o a)) x := by
  rw [← bind_pure x]
  refine h.bind fun a b _ hab => ?_
  obtain ⟨a', ho, hab'⟩ := ho a b hab
  rw [ho]
  exact pure hab'

/-- Steps taken one after the other, each with what goes together with the other's. -/
theorem foldlM {ι κ : Type} {Q : ι → κ → Prop} {f : α → ι → Checked α} {g : β → κ → Except Error β}
    {is : List ι} {ks : List κ} (h : List.Forall₂ Q is ks)
    (hstep : ∀ a b i k, R a b → Q i k → Follows R (f a i) (g b k)) {a : α} {b : β} (hab : R a b) :
    Follows R (is.foldlM f a) (ks.foldlM g b) := by
  induction h generalizing a b with
  | nil => exact pure hab
  | cons hik _ ih => exact (hstep a b _ _ hab hik).bind fun a b _ hab => ih hab

end Follows

namespace Training

open Number (larger widen lnSingle isFinite_lnSingle Within)

/-! ## Tables -/

/-- The tables of a training: its layers, their means, and their gradients, the number of batches
taken, the loss of the epoch so far, and the place in the stream of random words. -/
structure Tables where
  layers : List Layer
  memory : Memory
  gradients : List Gradient
  step : Nat
  loss : Float
  source : Random.Source

/-- A gradient set to zero where it stands. -/
def Gradient.cleared (g : Gradient) : Gradient :=
  ⟨g.weights.map fun _ => 0, g.bias.map fun _ => 0⟩

/-- What a share is raised to before its logarithm is taken. -/
def leastShare : Float32 := 0.0000001

section

variable (ln : Float32 → Float32) (settings : TrainingSettings) (xs : List Singles)
  (labels : List Nat) (epoch : Nat)

/-- Takes a sample by its number. -/
def takeSample? (t : Tables) (sample : Nat) : Checked Tables := do
  let x ← ask xs[sample]?
  let (trace, source) ← ask (trace? settings.dropout t.layers x t.source)
  match trace.activations.getLast? with
  | none => pure { t with source := source }
  | some y =>
    if y.all Float32.isFinite then
      let label ← ask labels[sample]?
      let share ← ask y[label]?
      let gradients ← ask (back? t.layers trace (outputError y label) t.gradients)
      pure { t with
        gradients := gradients
        loss := t.loss - widen (ln (larger share leastShare))
        source := source }
    else throw (.training (.nonFinite epoch))

/-- Takes a batch, which must not be empty. -/
def takeBatch? (t : Tables) (batch : List Nat) : Checked Tables := do
  let cleared := { t with gradients := t.gradients.map Gradient.cleared }
  let t ← batch.foldlM (takeSample? ln settings xs labels epoch) cleared
  let count ← ask (if batch.length = 0 then none else some batch.length)
  let gradients := t.gradients.map (Gradient.mean count)
  let (layers, memory) ←
    ask (moveFrom? settings.learningRate (t.step + 1) gradients 0 t.memory t.layers)
  pure { t with layers, memory, gradients, step := t.step + 1 }

/-- The pieces of `n` members that a list is made up of, unless there are no such. -/
def chunks? {α : Type} (n : Nat) (as : List α) : Option (List (List α)) :=
  if n = 0 then none else some (pieces n as.length as)

/-- Takes an epoch. It stops if its mean loss is not finite. -/
def takeEpoch? (t : Tables) (order : Array Nat) : Checked Tables := do
  let batches ← ask (chunks? settings.batchSize order.toList)
  let t ← batches.foldlM (takeBatch? ln settings xs labels epoch) { t with loss := 0 }
  ask (if (t.loss / Float.ofNat xs.length).isFinite then some t else none)

end

/-- Takes `n` epochs, `epoch` being the number of the first. -/
def takeEpochs? (ln : Float32 → Float32) (settings : TrainingSettings) (xs : List Singles)
    (labels : List Nat) (epoch : Nat) (order : Array Nat) (t : Tables) : Nat → Checked Tables
  | 0 => pure t
  | n + 1 => do
    let (order, source) := Random.shuffle order t.source
    let t ← takeEpoch? ln settings xs labels epoch { t with source := source } order
    takeEpochs? ln settings xs labels (epoch + 1) order t n

/-- The means of layers that have not moved yet. -/
def Memory.start (ls : List Layer) : Memory :=
  let zeros := ls.flatMap fun l =>
    [Array.replicate l.weights.size 0, Array.replicate l.bias.size 0]
  ⟨zeros, zeros⟩

/-- Trains a network, its weights being drawn only if their number has 64 bits in each layer. -/
def fit? (ln : Float32 → Float32) (settings : TrainingSettings) (xs : List Singles)
    (labels : List Nat) (classes : Nat) : Checked Network := do
  let width ← whole (checkedWidth xs labels classes)
  let _ ← ask ((chainWidths width settings.hidden classes).mapM fun (n, m) => word? (n * m))
  let (layers, source) := drawLayers width settings.hidden classes
    (Random.Source.ofSeed settings.initSeed)
  let start : Tables := ⟨layers, .start layers, layers.map Gradient.zero, 0, 0, source⟩
  let done ← takeEpochs? ln settings xs labels 1 (Array.range xs.length) start settings.epochs
  whole (Network.of done.layers)

/-! ## Samples -/

/-- What a training among tables relies on: samples that are suitable, a logarithm that is finite where
it is taken, arrays whose lengths are numbers of 64 bits, and batches that are not empty. -/
structure Trainable (ln : Float32 → Float32) (settings : TrainingSettings) (xs : List Singles)
    (labels : List Nat) (classes width : Nat) : Prop extends Suitable xs labels classes width where
  ln_finite : ∀ x : Float32, x.isFinite → 0 < x → (ln x).isFinite
  words : ∀ w ∈ chainWidths width settings.hidden classes, w.1 * w.2 < UInt64.size
  batch_pos : 0 < settings.batchSize
  count : xs.length ≤ 2 ^ 64

/-- Whether a number stands for an example among the samples and labels, of the right width and with
the label of a class. -/
structure StandsFor (xs : List Singles) (labels : List Nat) (inputs classes : Nat) (i : Nat)
    (e : Example) : Prop where
  features : xs[i]? = some e.1
  label : labels[i]? = some e.2
  width : e.1.size = inputs
  class_lt : e.2 < classes

/-- The tables in the middle of a batch: what is added up is as it is without them, and the layers,
their means and the number of batches are those of the beginning. -/
structure Adding (start t : Tables) (sums : List Gradient × Random.Source) : Prop where
  layers : t.layers = start.layers
  memory : t.memory = start.memory
  step : t.step = start.step
  gradients : t.gradients = sums.1
  source : t.source = sums.2
  fits : List.Forall₂ Gradient.Fits sums.1 start.layers
  loss : Within 182 t.loss

/-- What happened to a sample, its error, and gradients that fit the layers go together. -/
theorem passThrough_ready (rates : List Float32) {ls : List Layer} {x : Singles}
    {gs : List Gradient} (h : InStep ls) (hx : Enters x ls)
    (hfits : List.Forall₂ Gradient.Fits gs ls) (label : Nat) (s : Random.Source) :
    Ready (outputError (passThrough rates x ls s).2.1 label) (passThrough rates x ls s).1 gs := by
  have hlayers := passages_layers rates x ls s
  exact ⟨hlayers.symm ▸ h, passages_sized h hx s, hlayers.symm ▸ hfits,
    fun _ hp => size_outputError rates x label s hp⟩

/-- The logarithm of a share is a single, and small in a total. -/
theorem within_loss {ln : Float32 → Float32}
    (hln : ∀ x : Float32, x.isFinite → 0 < x → (ln x).isFinite) {loss : Float}
    (h : Within 182 loss) {share : Float32} (hshare : share.isFinite = true) :
    Within 182 (loss - widen (ln (larger share leastShare))) := by
  have hleast : leastShare.isFinite = true := by decide
  have hfinite := Number.isFinite_larger hshare (.inl hleast)
  have hpos : 0 < larger share leastShare := Number.larger_pos hshare hleast (by decide)
  exact h.sub_small (Number.within_widen (hln _ hfinite hpos)) (by norm_num) (by norm_num)

section

variable {ln : Float32 → Float32} {settings : TrainingSettings} {xs : List Singles}
  {labels : List Nat} {epoch width classes : Nat} {start t : Tables}
  {sums : List Gradient × Random.Source}

theorem takeSample?_follows (htrain : Trainable ln settings xs labels classes width)
    (hlayers : InStep start.layers)
    (houtlines : start.layers.map Layer.outline = outlines width settings.hidden classes) {i : Nat}
    {e : Example} (he : StandsFor xs labels width classes i e) (h : Adding start t sums) :
    Follows (Adding start) (takeSample? ln settings xs labels epoch t i)
      (takeSample settings.dropout start.layers epoch sums.1 sums.2 e) := by
  obtain ⟨layers, memory, gradients, step, loss, source⟩ := t
  obtain ⟨gs, s⟩ := sums
  obtain ⟨rfl, rfl, rfl, rfl, rfl, hfits, hloss⟩ := h
  have hx := enters_of_outlines houtlines he.width
  have hready := passThrough_ready settings.dropout hlayers hx hfits e.2 source
  have hsize := size_passThrough settings.dropout e.1 start.layers source
  obtain ⟨last, hlast, -, houtputs⟩ := last_of_outlines houtlines
  rw [hlast, Option.map_some, Option.getD_some, houtputs] at hsize
  have hlayersOf := passages_layers settings.dropout e.1 start.layers source
  have hnext := fits_sample settings.dropout e.1 e.2 source hlayers.linked hfits
  refine Follows.ask_bind he.features
    (Follows.ask_bind (trace?_eq settings.dropout hlayers hx source) ?_)
  unfold takeSample
  generalize passThrough settings.dropout e.1 start.layers source = passed at *
  obtain ⟨passages, y, s'⟩ := passed
  simp only at hready hsize hlayersOf hnext ⊢
  have houtput : (traceOf passages y).activations.getLast? = some y := by simp [traceOf]
  simp only [houtput]
  split
  · rename_i hfinite
    have hlabel : e.2 < y.size := hsize ▸ he.class_lt
    have hback := hready.back?_eq y
    rw [hlayersOf] at hback
    refine Follows.ask_bind he.label (Follows.ask_bind (Array.getElem?_eq_getElem hlabel)
      (Follows.ask_bind hback (Follows.pure ?_)))
    exact ⟨rfl, rfl, rfl, rfl, rfl, hnext,
      within_loss htrain.ln_finite hloss (Array.all_eq_true.1 hfinite _ hlabel)⟩
  · exact Follows.error _

/-! ## Batches -/

/-- The tables between two batches: they are those of the layers under training, which are of the
widths they began with. -/
structure Tables.Hold (t : Tables) (p : Progress) (inputs : Nat) (hidden : List Nat)
    (classes : Nat) : Prop where
  layers : t.layers = p.layers.map MovingLayer.current
  memory : t.memory = memoryOf p.layers
  step : t.step = p.step
  source : t.source = p.source
  fits : List.Forall₂ Gradient.Fits t.gradients t.layers
  kept : Kept p.layers inputs hidden classes
  loss : Within 182 t.loss

theorem Gradient.Fits.cleared {g : Gradient} {l : Layer} (h : g.Fits l) (hs : l.Sized) :
    g.cleared = zero l := by
  have hzeros {xs ys : Singles} (hsize : xs.size = ys.size) :
      (xs.map fun _ => (0 : Float32)) = Array.replicate ys.size 0 :=
    Array.ext (by simp [hsize]) fun i _ _ => by simp
  exact congrArg₂ Gradient.mk (hzeros (h.weights.trans hs.weights.symm))
    (hzeros (h.bias.trans hs.bias.symm))

/-- Gradients of the right size become those of no change when they are set to zero. -/
theorem cleared_eq {gs : List Gradient} {ls : List Layer}
    (hfits : List.Forall₂ Gradient.Fits gs ls) (hsized : ∀ l ∈ ls, l.Sized) :
    gs.map Gradient.cleared = ls.map Gradient.zero := by
  induction hfits with
  | nil => rfl
  | cons hg _ ih =>
    obtain ⟨hl, hrest⟩ := List.forall_mem_cons.1 hsized
    rw [List.map_cons, List.map_cons, hg.cleared hl, ih hrest]

/-- What fits layers fits them after a move. -/
theorem fits_move (rate : Float32) (step : Nat) {ls : List MovingLayer} {gs : List Gradient}
    (hfits : List.Forall₂ Gradient.Fits gs (ls.map MovingLayer.current)) :
    List.Forall₂ Gradient.Fits gs
      ((ls.zipWith (MovingLayer.move rate step) gs).map MovingLayer.current) := by
  induction ls generalizing gs with
  | nil => exact hfits
  | cons l ls ih =>
    obtain ⟨g, gs, hg, hgs, rfl⟩ := List.forall₂_cons_right_iff.1 hfits
    exact .cons ⟨hg.weights, hg.bias⟩ (ih hgs)

/-- The samples of a batch, taken one after the other. -/
theorem takeSamples?_follows (htrain : Trainable ln settings xs labels classes width)
    (hlayers : InStep start.layers)
    (houtlines : start.layers.map Layer.outline = outlines width settings.hidden classes)
    {is : List Nat} {es : List Example}
    (hes : List.Forall₂ (StandsFor xs labels width classes) is es) (h : Adding start t sums) :
    Follows (Adding start) (is.foldlM (takeSample? ln settings xs labels epoch) t)
      (takeSamples settings.dropout start.layers epoch es sums.1 sums.2) := by
  rw [takeSamples_eq]
  exact Follows.foldlM hes
    (fun _ _ _ _ hadd he => takeSample?_follows htrain hlayers houtlines he hadd) h

/-- The move that ends a batch. -/
theorem moveAll?_eq {p : Progress} {gs : List Gradient} (hsized : ∀ l ∈ p.layers, l.Sized)
    (hfits : List.Forall₂ Gradient.Fits gs (p.layers.map MovingLayer.current)) (rate : Float32)
    (step : Nat) :
    moveFrom? rate step gs 0 (memoryOf p.layers) (p.layers.map MovingLayer.current) =
      some ((p.layers.zipWith (MovingLayer.move rate step) gs).map MovingLayer.current,
        memoryOf (p.layers.zipWith (MovingLayer.move rate step) gs)) :=
  moveFrom?_eq rate step hsized hfits [] [] rfl

theorem takeBatch?_follows (htrain : Trainable ln settings xs labels classes width) {p : Progress}
    {is : List Nat} {es : List Example}
    (hes : List.Forall₂ (StandsFor xs labels width classes) is es) (hne : is ≠ [])
    (h : t.Hold p width settings.hidden classes) :
    Follows (fun t p => t.Hold p width settings.hidden classes)
      (takeBatch? ln settings xs labels epoch t is) (takeBatch settings epoch p es) := by
  obtain ⟨layers, memory, gradients, step, loss, source⟩ := t
  obtain ⟨rfl, rfl, rfl, rfl, hfits, hkept, hloss⟩ := h
  simp only at hfits hloss
  have hstep := inStep_of_outlines hkept.outlines hkept.current htrain.words
  rw [takeBatch_eq, takeBatch?]
  simp only [cleared_eq hfits hkept.current]
  have hadding : Adding
      ⟨p.layers.map MovingLayer.current, memoryOf p.layers,
        (p.layers.map MovingLayer.current).map Gradient.zero, p.step, loss, p.source⟩ _
      ((p.layers.map MovingLayer.current).map Gradient.zero, p.source) :=
    ⟨rfl, rfl, rfl, rfl, rfl, fits_zero hkept.current, hloss⟩
  refine (takeSamples?_follows htrain hstep hkept.outlines hes hadding).bind ?_
  rintro t ⟨gs, s⟩ - ⟨hlayers, hmemory, hsteps, hgradients, rfl, hfits, hloss⟩
  simp only at hlayers hmemory hsteps hgradients hfits
  have hcount : (if is.length = 0 then none else some is.length) = some is.length :=
    if_neg (by simpa using hne)
  have hmean := fits_mean hfits is.length
  refine Follows.ask_bind hcount ?_
  simp only [hlayers, hmemory, hsteps, hgradients, ← hes.length_eq]
  refine Follows.ask_bind (moveAll?_eq hkept.sized hmean settings.learningRate (p.step + 1)) ?_
  exact Follows.pure ⟨rfl, rfl, rfl, rfl, fits_move settings.learningRate (p.step + 1) hmean,
    hkept.move hmean settings.learningRate (p.step + 1), hloss⟩

/-! ## Epochs -/

/-- Lists that go together member by member come in pieces that do, and no piece is empty. -/
theorem forall₂_pieces {ι κ : Type} {Q : ι → κ → Prop} {n : Nat} (hn : 0 < n) (fuel : Nat)
    {is : List ι} {ks : List κ} (h : List.Forall₂ Q is ks) :
    List.Forall₂ (fun is ks => List.Forall₂ Q is ks ∧ is ≠ []) (pieces n fuel is)
      (pieces n fuel ks) := by
  induction fuel generalizing is ks with
  | zero => exact .nil
  | succ fuel ih =>
    cases h with
    | nil => exact .nil
    | @cons i k is ks hik hrest =>
      have hall : List.Forall₂ Q (i :: is) (k :: ks) := .cons hik hrest
      refine .cons ⟨List.forall₂_take n hall, ?_⟩ (ih (List.forall₂_drop n hall))
      obtain ⟨n, rfl⟩ := Nat.exists_eq_succ_of_ne_zero hn.ne'
      exact List.cons_ne_nil _ _

/-- Numbers below the number of samples stand for samples. -/
theorem forall₂_standsFor (h : Suitable xs labels classes width) {is : List Nat}
    (his : ∀ i ∈ is, i < xs.length) :
    List.Forall₂ (StandsFor xs labels width classes) is
      (is.filterMap ((xs.zip labels).toArray[·]?)) := by
  induction is with
  | nil => exact .nil
  | cons i rest ih =>
    obtain ⟨hi, hrest⟩ := List.forall_mem_cons.1 his
    have hlabel : i < labels.length := h.length ▸ hi
    have hget : (xs.zip labels).toArray[i]? = some (xs[i], labels[i]) := by
      simp [hi, hlabel]
    rw [List.filterMap_cons_some hget]
    exact .cons ⟨List.getElem?_eq_getElem hi, List.getElem?_eq_getElem hlabel,
      h.widths _ (List.getElem_mem hi), h.class_lt _ (List.getElem_mem hlabel)⟩ (ih hrest)

theorem takeEpoch?_follows (htrain : Trainable ln settings xs labels classes width) {p : Progress}
    {order : Array Nat} (horder : ∀ i ∈ order.toList, i < xs.length)
    (h : t.Hold p width settings.hidden classes) :
    Follows (fun t p => t.Hold p width settings.hidden classes)
      (takeEpoch? ln settings xs labels epoch t order)
      (takeBatches settings epoch p (batchesOf settings (xs.zip labels).toArray order)) := by
  have hchunks : chunks? settings.batchSize order.toList =
      some (pieces settings.batchSize order.size order.toList) :=
    if_neg htrain.batch_pos.ne'
  have hpieces := forall₂_pieces htrain.batch_pos order.size
    (forall₂_standsFor htrain.toSuitable horder)
  have hstart : Tables.Hold { t with loss := 0 } p width settings.hidden classes :=
    { h with loss := Number.within_zero 182 }
  have hbatches := Follows.foldlM (f := takeBatch? ln settings xs labels epoch)
    (g := takeBatch settings epoch) hpieces
    (fun t p is es h hes => takeBatch?_follows htrain hes.1 hes.2 h) hstart
  rw [← takeBatches_eq] at hbatches
  refine Follows.ask_bind hchunks (hbatches.bind_ask fun t p h => ⟨t, if_pos ?_, h⟩)
  have hmean := Number.between_ofNat (List.length_pos_iff.2 htrain.nonempty) htrain.count
    (le_refl 64)
  exact (h.loss.div_between hmean (by norm_num)).isFinite

/-- The order of an epoch holds the numbers of all samples, so it does whatever it is shuffled to. -/
theorem takeEpochs?_follows (htrain : Trainable ln settings xs labels classes width) (n : Nat)
    {p : Progress} {order : Array Nat} (horder : ∀ i ∈ order.toList, i < xs.length)
    (h : t.Hold p width settings.hidden classes) :
    Follows (fun t p => t.Hold p width settings.hidden classes)
      (takeEpochs? ln settings xs labels epoch order t n)
      (takeEpochs settings (xs.zip labels).toArray epoch order p n) := by
  induction n generalizing epoch order t p with
  | zero => exact Follows.pure h
  | succ n ih =>
    rw [takeEpochs_succ, ← h.source]
    have hshuffled : ∀ i ∈ (Random.shuffle order t.source).1.toList, i < xs.length := fun i hi =>
      horder i ((Random.shuffle_perm order t.source).toList.mem_iff.1 hi)
    have hstart : Tables.Hold { t with source := (Random.shuffle order t.source).2 }
        { p with source := (Random.shuffle order t.source).2 } width settings.hidden classes :=
      { h with source := rfl }
    exact (takeEpoch?_follows htrain hshuffled hstart).bind fun t p _ h => ih hshuffled h

end

/-! ## Whole trainings -/

/-- The tables a training begins with. -/
theorem hold_start (inputs : Nat) (hidden : List Nat) (classes : Nat) (s : Random.Source) :
    Tables.Hold
      ⟨(drawLayers inputs hidden classes s).1, .start (drawLayers inputs hidden classes s).1,
        (drawLayers inputs hidden classes s).1.map Gradient.zero, 0, 0,
        (drawLayers inputs hidden classes s).2⟩
      ⟨(drawLayers inputs hidden classes s).1.map MovingLayer.start, 0,
        (drawLayers inputs hidden classes s).2⟩ inputs hidden classes := by
  have hsized := sized_drawLayers inputs hidden classes s
  have hkept := kept_start inputs hidden classes s
  generalize drawLayers inputs hidden classes s = drawn at hsized hkept ⊢
  obtain ⟨ls, source⟩ := drawn
  have hcurrent : ls = (ls.map MovingLayer.start).map MovingLayer.current := by
    rw [List.map_map]
    exact (List.map_id ls).symm
  have hmemory : Memory.start ls = memoryOf (ls.map MovingLayer.start) := by
    simp only [memoryOf, places, Memory.start, List.flatMap_map]
    rfl
  exact ⟨hcurrent, hmemory, rfl, rfl, fits_zero hsized, hkept, Number.within_zero 182⟩

section

variable {settings : TrainingSettings} {xs : List Singles} {labels : List Nat} {classes : Nat}

/-- The epochs of a training, from the tables it begins with. -/
theorem takeEpochs?_start {ln : Float32 → Float32} {width : Nat}
    (htrain : Trainable ln settings xs labels classes width) (s : Random.Source) :
    Follows (fun t p => t.Hold p width settings.hidden classes)
      (takeEpochs? ln settings xs labels 1 (Array.range xs.length)
        ⟨(drawLayers width settings.hidden classes s).1,
          .start (drawLayers width settings.hidden classes s).1,
          (drawLayers width settings.hidden classes s).1.map Gradient.zero, 0, 0,
          (drawLayers width settings.hidden classes s).2⟩ settings.epochs)
      (takeEpochs settings (xs.zip labels).toArray 1 (Array.range (xs.zip labels).toArray.size)
        ⟨(drawLayers width settings.hidden classes s).1.map MovingLayer.start, 0,
          (drawLayers width settings.hidden classes s).2⟩ settings.epochs) := by
  have hlength : (xs.zip labels).toArray.size = xs.length := by simp [← htrain.length]
  rw [hlength]
  exact takeEpochs?_follows htrain settings.epochs (by simp)
    (hold_start width settings.hidden classes s)

/-- Every training among the tables ends as the one without them. -/
theorem fit?_follows {ln : Float32 → Float32}
    (htrain : ∀ width, Suitable xs labels classes width →
      Trainable ln settings xs labels classes width) :
    Follows Eq (fit? ln settings xs labels classes) (fit settings xs labels classes) := by
  refine (Follows.whole (checkedWidth xs labels classes)).bind fun width _ hwidth heq => ?_
  subst heq
  have htrain := htrain width (suitable_of_checkedWidth hwidth)
  have hdrawn : (chainWidths width settings.hidden classes).mapM (fun (n, m) => word? (n * m)) =
      some ((chainWidths width settings.hidden classes).map fun w => w.1 * w.2) :=
    mapM_eq_map fun w hw => word?_eq (htrain.words w hw)
  exact Follows.ask_bind hdrawn ((takeEpochs?_start htrain _).bind
    fun t p _ h => h.layers ▸ Follows.whole _)

theorem batchSize_pos (h : settings.fault? = none) : 0 < settings.batchSize := by
  unfold TrainingSettings.fault? at h
  repeat' split at h
  all_goals first | omega | cases h

theorem checkedWidth_error {e : Error} (h : checkedWidth xs labels classes = .error e) :
    (∃ f, e = .precondition f) ∨ ∃ m n, e = .dimension m n := by
  unfold checkedWidth at h
  split at h
  · cases h
    exact .inl ⟨_, rfl⟩
  · cases xs with
    | nil =>
      cases h
      exact .inl ⟨_, rfl⟩
    | cons x rest =>
      simp only at h
      repeat' split at h
      all_goals cases h
      all_goals first | exact .inl ⟨_, rfl⟩ | exact .inr ⟨_, _, rfl⟩

theorem trainedLayers_error {e : Error} (h : trainedLayers settings xs labels classes = .error e) :
    (∃ f, e = .precondition f) ∨ (∃ m n, e = .dimension m n) ∨ ∃ f, e = .training f := by
  rcases error_of_bind h with h | ⟨width, -, h⟩
  · exact (checkedWidth_error h).imp_right .inl
  · rcases error_of_bind h with h | ⟨done, -, h⟩
    · obtain ⟨v, -, rfl⟩ := (takeEpochs_cut _ _ _ _).error_iff.1 h
      exact .inr (.inr ⟨_, rfl⟩)
    · cases h

/-- Training among tables, for every logarithm that is finite where it should be: whatever the
settings that are allowed and whatever the samples, as long as the products of the widths are numbers
of 64 bits if the samples are suitable, nothing is asked for that is not there, no batch is empty and
no mean loss other than finite, so it ends as the training without tables does.
If it fails, that is for what is asked of the samples or for what came out; if not, the layers have
the outlines that were asked for and arrays as long as these say. The layers it comes to are always
accepted as a network. -/
theorem shapes_kept {ln : Float32 → Float32}
    (hln : ∀ x : Float32, x.isFinite → 0 < x → (ln x).isFinite) (hsettings : settings.fault? = none)
    (hwords : ∀ width, Suitable xs labels classes width →
      ∀ w ∈ chainWidths width settings.hidden classes, w.1 * w.2 < UInt64.size)
    (hcount : xs.length < UInt64.size) :
    (fit? ln settings xs labels classes).run = some (fit settings xs labels classes) ∧
    (∀ e, fit settings xs labels classes = .error e →
      (∃ f, e = .precondition f) ∨ (∃ m n, e = .dimension m n) ∨ ∃ f, e = .training f) ∧
    (∀ n, fit settings xs labels classes = .ok n →
      ∃ width, (∀ x ∈ xs, x.size = width) ∧
        n.layers.map Layer.outline = outlines width settings.hidden classes ∧
        ∀ l ∈ n.layers, l.weights.size = l.inputs * l.outputs ∧ l.bias.size = l.outputs) ∧
    (fit settings xs labels classes = trainedLayers settings xs labels classes >>= Network.of) ∧
    ∀ ls, trainedLayers settings xs labels classes = .ok ls → Network.of ls = .ok ⟨ls⟩ := by
  have htrain : ∀ width, Suitable xs labels classes width →
      Trainable ln settings xs labels classes width := fun width h =>
    { h with
      ln_finite := hln
      words := hwords width h
      batch_pos := batchSize_pos hsettings
      count := hcount.le }
  refine ⟨(fit?_follows htrain).run_eq, fun e he => ?_, fun n hn => ?_, fit_eq,
    fun _ => network_of_trained⟩
  · rw [fit_eq] at he
    rcases error_of_bind he with he | ⟨ls, hls, he⟩
    · exact trainedLayers_error he
    · rw [network_of_trained hls] at he
      cases he
  · obtain ⟨width, hsuitable, houtlines, hsized⟩ := fit_spec hn
    exact ⟨width, hsuitable.widths, houtlines,
      fun l hl => ⟨(hsized l hl).weights, (hsized l hl).bias⟩⟩

end

/-- Settings of a short training with one hidden layer and a last batch that is not full. -/
def shortSettings : TrainingSettings :=
  { TrainingSettings.standard with hidden := [2], dropout := [0.5], epochs := 1, batchSize := 2 }

theorem shapes_kept_short : ∃ n, fit shortSettings [#[1], #[0], #[2]] [0, 1, 0] 2 = .ok n ∧
    n.layers.map Layer.outline = [((1, 2), .relu), ((2, 2), .softmax)] ∧
    (fit? lnSingle shortSettings [#[1], #[0], #[2]] [0, 1, 0] 2).run = some (.ok n) := by
  obtain ⟨hrun, -, hkept, -⟩ := @shapes_kept shortSettings [#[1], #[0], #[2]] [0, 1, 0] 2 lnSingle
    (fun _ => isFinite_lnSingle) (by decide +kernel)
    (fun width h => h.widths #[1] List.mem_cons_self ▸ (by decide)) (by decide)
  obtain ⟨n, hn⟩ := ok_of_isOk
    (show (fit shortSettings [#[1], #[0], #[2]] [0, 1, 0] 2).isOk = true by decide +kernel)
  obtain ⟨width, hwidth, houtlines, -⟩ := hkept n hn
  obtain rfl : 1 = width := hwidth #[1] List.mem_cons_self
  exact ⟨n, hn, houtlines, hn ▸ hrun⟩

end Training

end Triage
