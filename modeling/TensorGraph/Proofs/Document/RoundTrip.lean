import TensorGraph.Proofs.Document.Rereading
import TensorGraph.Proofs.Evaluation.Outcome

/-!
# Configurations that are read back

A configuration that constructors and builders make is the one that is read from its text. The other
way around, what is read from any text could have been made by constructors and builders, since
reading passes the same checks.

The numbers in single precision of a configuration are taken to be `Lossless`: on its own, each of
them is read as it is written.

## Main definitions

* `Lossless`: a number in single precision that is read as it is written.
* `Descent.Built`, `Dense.Built`, `Dropout.Built`: what constructors and builders make.
* `ConfigurationKind`: the kinds of configuration, each with its values and how they are written
  and read.

## Main results

* `ConfigurationKind.ofDocument_reread`: a configuration is read back from its document.
* `Descent.built_of_ofDocument`, `Dense.built_of_ofDocument`, `Dropout.built_of_ofDocument`: what is
  read could have been built.
* `ConfigurationKind.configurations_read_back`: both for texts.
-/

namespace TensorGraph

namespace Document

/-! ## Documents that are made of parts -/

/-- Writing keeps the names and the order of the fields. -/
theorem reread_record (fields : List (String × Document)) :
    (record fields).reread = record (fields.map fun (name, d) => (name, d.reread)) := by
  rw [record, reread, record]
  congr 1
  induction fields with
  | nil => rfl
  | cons f fs ih => exact congrArg _ ih

/-! ## Reading the parts -/

/-- A word of 64 bits is read as it was written. -/
theorem word_natural_toNat (w : UInt64) : word (natural w.toNat) = .ok w := by
  have hw : w.toNat < Nat.pow 2 64 := w.toNat_lt
  simp [word, natural, found, Number.toWord?, hw]

/-- A natural number that a word can hold is read as it was written. -/
theorem count_natural {n : Nat} (hn : n < 2 ^ 64) : count (natural n) = .ok n := by
  have hword := word_natural_toNat (UInt64.ofNat n)
  rw [UInt64.toNat_ofNat_of_lt' hn] at hword
  rw [count, hword]
  exact congrArg Except.ok (UInt64.toNat_ofNat_of_lt' hn)

theorem namedFields_map (fields : List (String × Document)) :
    namedFields (fields.map fun (name, d) => (some name, d)) = some fields := by
  induction fields with
  | nil => rfl
  | cons f fs ih =>
    rw [List.map_cons, namedFields, ih]
    rfl

/-- The fields of a group are those that it is written with. -/
theorem group_record {known : List String} {fields : List (String × Document)}
    (hnames : fields.map Prod.fst = known) (hnodup : known.Nodup) :
    group known (record fields) = .ok fields := by
  subst hnames
  -- every field is known, and none is given twice
  have hgiven : fields.filter (fun f => (fields.map Prod.fst).contains f.1) = fields := by
    refine List.filter_eq_self.2 fun f hf => ?_
    simpa using ⟨f.2, hf⟩
  have honce : (fields.map Prod.fst).all fun name => fields.countP (·.1 == name) ≤ 1 := by
    refine List.all_eq_true.2 fun name _ => decide_eq_true ?_
    have hcount := List.nodup_iff_count.1 hnodup name
    rwa [List.count, List.countP_map] at hcount
  refine except_bind_eq_ok_iff.2 ⟨fields, congrArg found (namedFields_map fields), ?_⟩
  simp only [hgiven, honce, if_true]
  rfl

/-- A field of another name in front is passed over. -/
theorem lookup_cons_of_ne {name name' : String} (hne : name ≠ name') (d : Document)
    (fields : List (String × Document)) :
    ((name', d) :: fields).lookup name = fields.lookup name := by
  rw [List.lookup_cons, beq_false_of_ne hne]

/-- A required field is read where it stands in the document. -/
theorem required_eq_ok {α : Type} {fields : List (String × Document)} {name : String}
    {d : Document} {read : Document → Reading α} {a : α} (hd : fields.lookup name = some d)
    (hread : read d = .ok a) : required fields name read = .ok a := by
  rw [required, hd]
  exact hread

/-- A field with a default is read where it stands in the document. -/
theorem defaulted_eq_ok {α : Type} {fields : List (String × Document)} {name : String}
    {d : Document} {default_ : α} {read : Document → Reading α} {a : α}
    (hd : fields.lookup name = some d) (hread : read d = .ok a) :
    defaulted fields name default_ read = .ok a := by
  rw [defaulted, hd]
  exact hread

/-- What may be left out is read back if what is written is not null. -/
theorem optional_ofOption {α : Type} {read : Document → Reading α} {write : α → Document}
    (value : Option α) (hread : ∀ a ∈ value, read (write a).reread = .ok a)
    (hnull : ∀ a, (write a).reread ≠ null) :
    optional read (ofOption (value.map write)).reread = .ok value := by
  cases value with
  | none => rfl
  | some a =>
    rw [Option.map_some, ofOption, optional, hread a rfl]
    · rfl
    · exact hnull a

/-- A name that may be missing is read as it was written. -/
theorem optional_plainText (name : Option String) :
    optional plainText (ofOption (name.map string)).reread = .ok name :=
  optional_ofOption name (fun _ _ => rfl) nofun

end Document

open Document

/-! ## Choices without parameters -/

/-- An activation is read from its own name. -/
theorem Activation.ofDocument_reread (a : Activation) : ofDocument a.toDocument.reread = .ok a := by
  cases a <;> rfl

/-- A policy for partial batches is read from its own name. -/
theorem PartialBatch.ofDocument_reread (p : PartialBatch) :
    ofDocument p.toDocument.reread = .ok p := by
  cases p <;> rfl

/-- A phase is read from its own name. -/
theorem Phase.ofDocument_reread (p : Phase) : ofDocument p.toDocument.reread = .ok p := by
  cases p <;> rfl

/-- An element type is read from its own name. -/
theorem ElementType.ofDocument_reread (t : ElementType) :
    ofDocument t.toDocument.reread = .ok t := by
  cases t <;> rfl

/-! ## Numbers -/

/-- A number in single precision that is read as it is written. -/
def Lossless (x : Float32) : Prop := readText single (compact (ofSingle x)) = .ok x

/-- Losslessness in terms of the document that is read back, without the text in between. -/
theorem lossless_iff {x : Float32} :
    (single (ofSingle x).reread).toOption = some x ↔ Lossless x := by
  rw [Lossless, readText_compact]
  cases single (ofSingle x).reread <;> simp [Except.toOption]

instance (x : Float32) : Decidable (Lossless x) := decidable_of_iff _ lossless_iff

theorem Lossless.single_reread {x : Float32} (h : Lossless x) :
    single (ofSingle x).reread = .ok x :=
  (readText_compact single (ofSingle x)).symm.trans h

/-! ## Choices with parameters -/

namespace Initializer

/-- The numbers in single precision of an initializer. -/
def numbers : Initializer → List Float32
  | randomNormal a b _ | randomUniform a b _ | truncatedNormal a b _ => [a, b]
  | zeros | ones => []
  | constant x => [x]

/-- A seed that may be missing is read as it was written. -/
theorem optional_seedDocument (seed : Option UInt64) :
    optional word (seedDocument seed).reread = .ok seed :=
  optional_ofOption seed (fun s _ => word_natural_toNat s) nofun

/-- Two numbers and a seed under different names are read back. -/
theorem sampling_samplingDocument (make : Float32 → Float32 → Option UInt64 → Initializer)
    {first second : String} (hnodup : [first, second, "seed"].Nodup) {a b : Float32}
    (seed : Option UInt64) (ha : Lossless a) (hb : Lossless b) :
    sampling make first second (samplingDocument first second a b seed).reread =
      .ok (make a b seed) := by
  obtain ⟨⟨hsecond, hfirst⟩, hseed⟩ : (first ≠ second ∧ first ≠ "seed") ∧ second ≠ "seed" := by
    simpa using hnodup
  rw [samplingDocument, reread_record]
  refine except_bind_eq_ok_iff.2 ⟨_, group_record rfl hnodup, ?_⟩
  -- each of the three is found past the names before it
  refine except_bind_eq_ok_iff.2 ⟨a, required_eq_ok List.lookup_cons_self ha.single_reread, ?_⟩
  refine except_bind_eq_ok_iff.2 ⟨b, required_eq_ok ?_ hb.single_reread, ?_⟩
  · exact (lookup_cons_of_ne hsecond.symm _ _).trans List.lookup_cons_self
  refine except_bind_eq_ok_iff.2 ⟨seed, defaulted_eq_ok ?_ (optional_seedDocument seed), rfl⟩
  exact (lookup_cons_of_ne hfirst.symm _ _).trans
    ((lookup_cons_of_ne hseed.symm _ _).trans List.lookup_cons_self)

/-- An initializer is read back. -/
theorem ofDocument_reread {i : Initializer} (hi : ∀ x ∈ i.numbers, Lossless x) :
    ofDocument i.toDocument.reread = .ok i := by
  cases i with
  | zeros | ones => rfl
  | randomNormal mean stddev seed | truncatedNormal mean stddev seed =>
    obtain ⟨hmean, hstddev⟩ : Lossless mean ∧ Lossless stddev := by simpa [numbers] using hi
    refine except_bind_eq_ok_iff.2 ⟨_, rfl, ?_⟩
    exact sampling_samplingDocument _ (by decide) seed hmean hstddev
  | randomUniform min max seed =>
    obtain ⟨hmin, hmax⟩ : Lossless min ∧ Lossless max := by simpa [numbers] using hi
    refine except_bind_eq_ok_iff.2 ⟨_, rfl, ?_⟩
    exact sampling_samplingDocument _ (by decide) seed hmin hmax
  | constant x =>
    have hx : Lossless x := by simpa [numbers] using hi
    refine except_bind_eq_ok_iff.2 ⟨_, rfl, ?_⟩
    exact except_bind_eq_ok_iff.2 ⟨x, hx.single_reread, rfl⟩

/-- No initializer is written as the absence of one. -/
theorem toDocument_reread_ne_null (i : Initializer) : i.toDocument.reread ≠ null := by
  cases i <;> nofun

/-- An initializer that may be missing is read as it was written. -/
theorem optional_toDocument (i : Option Initializer)
    (hi : ∀ j ∈ i, ∀ x ∈ j.numbers, Lossless x) :
    optional ofDocument (ofOption (i.map toDocument)).reread = .ok i :=
  optional_ofOption i (fun j hj => ofDocument_reread (hi j hj)) toDocument_reread_ne_null

end Initializer

namespace Loss

def numbers : Loss → List Float32
  | negativeLogLikelihood e => [e]
  | _ => []

/-- A loss function is read as it was written, if its numbers are. -/
theorem ofDocument_reread {l : Loss} (hl : ∀ x ∈ l.numbers, Lossless x) :
    ofDocument l.toDocument.reread = .ok l := by
  cases l with
  | meanSquaredError | binaryCrossEntropy | categoricalCrossEntropy => rfl
  | negativeLogLikelihood e =>
    have he : Lossless e := by simpa [numbers] using hl
    refine except_bind_eq_ok_iff.2 ⟨_, rfl, ?_⟩
    rw [reread_record]
    refine except_bind_eq_ok_iff.2 ⟨_, group_record rfl (by decide), ?_⟩
    exact except_bind_eq_ok_iff.2
      ⟨e, required_eq_ok List.lookup_cons_self he.single_reread, rfl⟩

end Loss

namespace Metric

def numbers : Metric → List Float32
  | loss l => l.numbers
  | _ => []

/-- A metric is read as it was written, if its numbers are. -/
theorem ofDocument_reread {m : Metric} (hm : ∀ x ∈ m.numbers, Lossless x) :
    ofDocument m.toDocument.reread = .ok m := by
  cases m with
  | meanSquaredError | meanAbsoluteError => rfl
  | loss l =>
    refine except_bind_eq_ok_iff.2 ⟨_, rfl, ?_⟩
    exact except_bind_eq_ok_iff.2 ⟨l, Loss.ofDocument_reread hm, rfl⟩

end Metric

/-! ## Groups of parameters -/

namespace TrainingPlan

/-- A training plan is read as it was written, if words can hold its sizes. -/
theorem ofDocument_reread {p : TrainingPlan} (hepochs : p.epochs < 2 ^ 64)
    (hbatch : p.batchSize < 2 ^ 64) : ofDocument p.toDocument.reread = .ok p := by
  rw [toDocument, reread_record]
  refine except_bind_eq_ok_iff.2 ⟨_, group_record rfl (by decide), ?_⟩
  refine except_bind_eq_ok_iff.2 ⟨p.epochs, defaulted_eq_ok rfl (count_natural hepochs), ?_⟩
  refine except_bind_eq_ok_iff.2 ⟨p.batchSize, defaulted_eq_ok rfl (count_natural hbatch), ?_⟩
  refine except_bind_eq_ok_iff.2 ⟨p.verbose, defaulted_eq_ok rfl rfl, ?_⟩
  exact except_bind_eq_ok_iff.2
    ⟨p.partialBatch, defaulted_eq_ok rfl p.partialBatch.ofDocument_reread, rfl⟩

end TrainingPlan

namespace Descent

/-- Descent parameters are read as they were written, if the numbers are. -/
theorem ofDocument_reread {d : Descent} (hrate : Lossless d.learningRate)
    (hmomentum : Lossless d.momentum) : ofDocument d.toDocument.reread = .ok d := by
  rw [toDocument, reread_record]
  refine except_bind_eq_ok_iff.2 ⟨_, group_record rfl (by decide), ?_⟩
  refine except_bind_eq_ok_iff.2
    ⟨d.learningRate, defaulted_eq_ok rfl hrate.single_reread, ?_⟩
  refine except_bind_eq_ok_iff.2 ⟨d.momentum, defaulted_eq_ok rfl hmomentum.single_reread, ?_⟩
  refine except_bind_eq_ok_iff.2 ⟨_, congrArg checked (dif_pos d.learningRate_pos), ?_⟩
  exact congrArg checked (dif_pos d.momentum_nonneg)

end Descent

namespace Dense

/-- The numbers in single precision of a layer's initializers. -/
def numbers (d : Dense) : List Float32 :=
  d.weightsInitializer.toList.flatMap Initializer.numbers ++
    d.biasInitializer.toList.flatMap Initializer.numbers

/-- A dense layer is read as it was written, if its numbers are. -/
theorem ofDocument_reread {d : Dense} (hunits : d.units < 2 ^ 64)
    (hd : ∀ x ∈ d.numbers, Lossless x) : ofDocument d.toDocument.reread = .ok d := by
  have hweights : ∀ i ∈ d.weightsInitializer, ∀ x ∈ i.numbers, Lossless x := by
    intro i hi x hx
    exact hd x (List.mem_append_left _ (List.mem_flatMap.2 ⟨i, Option.mem_toList.2 hi, hx⟩))
  have hbias : ∀ i ∈ d.biasInitializer, ∀ x ∈ i.numbers, Lossless x := by
    intro i hi x hx
    exact hd x (List.mem_append_right _ (List.mem_flatMap.2 ⟨i, Option.mem_toList.2 hi, hx⟩))
  have hactivation : optional Activation.ofDocument
      (ofOption (d.activation.map Activation.toDocument)).reread = .ok d.activation :=
    optional_ofOption _ (fun a _ => a.ofDocument_reread) nofun
  rw [toDocument, reread_record]
  -- the group is complete, and its parts are read in the order in which they stand
  refine except_bind_eq_ok_iff.2 ⟨_, group_record rfl (by decide), ?_⟩
  refine except_bind_eq_ok_iff.2 ⟨d.units, required_eq_ok rfl (count_natural hunits), ?_⟩
  refine except_bind_eq_ok_iff.2 ⟨d.activation, defaulted_eq_ok rfl hactivation, ?_⟩
  refine except_bind_eq_ok_iff.2 ⟨d.weightsInitializer,
    defaulted_eq_ok rfl (Initializer.optional_toDocument _ hweights), ?_⟩
  refine except_bind_eq_ok_iff.2 ⟨d.biasInitializer,
    defaulted_eq_ok rfl (Initializer.optional_toDocument _ hbias), ?_⟩
  refine except_bind_eq_ok_iff.2 ⟨d.name, defaulted_eq_ok rfl (optional_plainText d.name), ?_⟩
  exact except_bind_eq_ok_iff.2 ⟨_, congrArg checked (dif_pos d.units_pos), rfl⟩

end Dense

namespace Dropout

/-- A dropout layer is read as it was written, if its rate is. -/
theorem ofDocument_reread {d : Dropout} (hrate : Lossless d.rate) :
    ofDocument d.toDocument.reread = .ok d := by
  rw [toDocument, reread_record]
  refine except_bind_eq_ok_iff.2 ⟨_, group_record rfl (by decide), ?_⟩
  refine except_bind_eq_ok_iff.2 ⟨d.rate, required_eq_ok rfl hrate.single_reread, ?_⟩
  refine except_bind_eq_ok_iff.2
    ⟨d.seed, defaulted_eq_ok rfl (Initializer.optional_seedDocument d.seed), ?_⟩
  refine except_bind_eq_ok_iff.2 ⟨d.name, defaulted_eq_ok rfl (optional_plainText d.name), ?_⟩
  exact except_bind_eq_ok_iff.2 ⟨_, congrArg checked (dif_pos d.rate_mem), rfl⟩

end Dropout

/-! ## What is read can be built -/

namespace Document

/-- A reading passes a check exactly if the constructor behind it accepts the parameters. -/
theorem checked_eq_ok_iff {α : Type} {r : Except Error α} {a : α} :
    checked r = .ok a ↔ r = .ok a := by
  cases r <;> simp [checked]

/-- What is read from a text is read from a document. -/
theorem exists_read_of_readText {α : Type} {read : Document → Reading α} {s : String} {a : α}
    (h : readText read s = .ok a) : ∃ d, read d = .ok a := by
  obtain ⟨⟨d, rest⟩, -, h⟩ := except_bind_eq_ok_iff.1 h
  obtain ⟨a', hread, h⟩ := except_bind_eq_ok_iff.1 h
  refine ⟨d, hread.trans ?_⟩
  split at h
  · exact h
  · cases h

/-- What is read from a required field is read from a document. -/
theorem exists_read_of_required {α : Type} {fields : List (String × Document)} {name : String}
    {read : Document → Reading α} {a : α} (h : required fields name read = .ok a) :
    ∃ d, read d = .ok a := by
  unfold required at h
  split at h
  · next d _ => exact ⟨d, h⟩
  · cases h

/-- Only numbers that a word can hold are read as counts. -/
theorem lt_of_count {d : Document} {n : Nat} (h : count d = .ok n) : n < 2 ^ 64 := by
  obtain ⟨w, -, rfl⟩ := except_map_eq_ok_iff.1 h
  exact w.toNat_lt

end Document

namespace Descent

/-- The descents that constructors and builders give. -/
inductive Built : Descent → Prop
  | standard : Built standard
  | ofLearningRate {rate : Float32} {d : Descent} (h : ofLearningRate rate = .ok d) : Built d
  | withLearningRate {rate : Float32} {d d' : Descent} (hd : Built d)
      (h : d.withLearningRate rate = .ok d') : Built d'
  | withMomentum {momentum : Float32} {d d' : Descent} (hd : Built d)
      (h : d.withMomentum momentum = .ok d') : Built d'

/-- Descent parameters that are read from a document come from the constructor. -/
theorem built_of_ofDocument {document : Document} {d : Descent}
    (h : ofDocument document = .ok d) : d.Built := by
  obtain ⟨fields, -, h⟩ := except_bind_eq_ok_iff.1 h
  obtain ⟨rate, -, h⟩ := except_bind_eq_ok_iff.1 h
  obtain ⟨momentum, -, h⟩ := except_bind_eq_ok_iff.1 h
  obtain ⟨plain, hplain, h⟩ := except_bind_eq_ok_iff.1 h
  exact .withMomentum (.ofLearningRate (checked_eq_ok_iff.1 hplain)) (checked_eq_ok_iff.1 h)

end Descent

namespace Dense

/-- The layers that the constructor and the builders make of words. -/
inductive Built : Dense → Prop
  | create {units : Nat} {d : Dense} (hunits : units < 2 ^ 64) (h : create units = .ok d) : Built d
  | withActivation {d : Dense} (hd : Built d) (a : Activation) : Built (d.withActivation a)
  | withWeightsInitializer {d : Dense} (hd : Built d) (i : Initializer) :
    Built (d.withWeightsInitializer i)
  | withBiasInitializer {d : Dense} (hd : Built d) (i : Initializer) :
    Built (d.withBiasInitializer i)
  | withName {d : Dense} (hd : Built d) (name : String) : Built (d.withName name)

/-- A dense layer that is made has the units that it was asked for. -/
theorem units_eq_of_create {units : Nat} {d : Dense} (h : create units = .ok d) :
    d.units = units := by
  unfold create at h
  split at h <;> cases h
  rfl

/-- A word can hold the units of a dense layer that has been built. -/
theorem Built.units_lt {d : Dense} (h : d.Built) : d.units < 2 ^ 64 := by
  induction h with
  | create hunits h => rwa [units_eq_of_create h]
  | withActivation _ _ ih | withWeightsInitializer _ _ ih | withBiasInitializer _ _ ih
  | withName _ _ ih => exact ih

/-- Builders set every part that a layer may have. -/
theorem built_mk {units : Nat} (hunits : units < 2 ^ 64) (activation : Option Activation)
    (weights bias : Option Initializer) (name : Option String) (hpos : 0 < units) :
    Built ⟨units, activation, weights, bias, name, hpos⟩ := by
  have hplain : Built ⟨units, none, none, none, none, hpos⟩ := .create hunits (dif_pos hpos)
  -- the builders are applied one after the other, each for a part that is there
  have hactivation : ∀ a, Built ⟨units, a, none, none, none, hpos⟩ :=
    Option.forall.2 ⟨hplain, hplain.withActivation⟩
  have hweights : ∀ w, Built ⟨units, activation, w, none, none, hpos⟩ :=
    Option.forall.2 ⟨hactivation _, (hactivation _).withWeightsInitializer⟩
  have hbias : ∀ b, Built ⟨units, activation, weights, b, none, hpos⟩ :=
    Option.forall.2 ⟨hweights _, (hweights _).withBiasInitializer⟩
  have hname : ∀ n, Built ⟨units, activation, weights, bias, n, hpos⟩ :=
    Option.forall.2 ⟨hbias _, (hbias _).withName⟩
  exact hname name

/-- A dense layer that is read from a document comes from the constructor and its setters. -/
theorem built_of_ofDocument {document : Document} {d : Dense} (h : ofDocument document = .ok d) :
    d.Built := by
  obtain ⟨fields, -, h⟩ := except_bind_eq_ok_iff.1 h
  obtain ⟨units, hunits, h⟩ := except_bind_eq_ok_iff.1 h
  obtain ⟨activation, -, h⟩ := except_bind_eq_ok_iff.1 h
  obtain ⟨weights, -, h⟩ := except_bind_eq_ok_iff.1 h
  obtain ⟨bias, -, h⟩ := except_bind_eq_ok_iff.1 h
  obtain ⟨name, -, h⟩ := except_bind_eq_ok_iff.1 h
  obtain ⟨plain, hplain, ⟨⟩⟩ := except_bind_eq_ok_iff.1 h
  -- a number of units that is read fits into 64 bits, as the constructor asks
  obtain ⟨written, hwritten⟩ := exists_read_of_required hunits
  have hlt : plain.units < 2 ^ 64 := by
    rw [units_eq_of_create (checked_eq_ok_iff.1 hplain)]
    exact lt_of_count hwritten
  exact built_mk hlt activation weights bias name plain.units_pos

end Dense

namespace Dropout

/-- The layers that the constructor and the builders give. -/
inductive Built : Dropout → Prop
  | create {rate : Float32} {d : Dropout} (h : create rate = .ok d) : Built d
  | withSeed {d : Dropout} (hd : Built d) (seed : UInt64) : Built (d.withSeed seed)
  | withName {d : Dropout} (hd : Built d) (name : String) : Built (d.withName name)

/-- A dropout layer that is read from a document comes from the constructor and its setters. -/
theorem built_of_ofDocument {document : Document} {d : Dropout} (h : ofDocument document = .ok d) :
    d.Built := by
  obtain ⟨fields, -, h⟩ := except_bind_eq_ok_iff.1 h
  obtain ⟨rate, -, h⟩ := except_bind_eq_ok_iff.1 h
  obtain ⟨seed, -, h⟩ := except_bind_eq_ok_iff.1 h
  obtain ⟨name, -, h⟩ := except_bind_eq_ok_iff.1 h
  obtain ⟨plain, -, ⟨⟩⟩ := except_bind_eq_ok_iff.1 h
  have hplain : Built ⟨plain.rate, none, none, plain.rate_mem⟩ := .create (dif_pos plain.rate_mem)
  have hseed : ∀ s, Built ⟨plain.rate, s, none, plain.rate_mem⟩ :=
    Option.forall.2 ⟨hplain, hplain.withSeed⟩
  have hname : ∀ n, Built ⟨plain.rate, seed, n, plain.rate_mem⟩ :=
    Option.forall.2 ⟨hseed _, (hseed _).withName⟩
  exact hname name

end Dropout

/-! ## All kinds of configuration -/

/-- The kinds of configuration. -/
inductive ConfigurationKind where
  | activation
  | initializer
  | loss
  | metric
  | partialBatch
  | phase
  | elementType
  | plan
  | descent
  | dense
  | dropout

namespace ConfigurationKind

/-- The configurations of a kind. -/
def Value : ConfigurationKind → Type
  | activation => Activation
  | initializer => Initializer
  | loss => Loss
  | metric => Metric
  | partialBatch => PartialBatch
  | phase => Phase
  | elementType => ElementType
  | plan => TrainingPlan
  | descent => Descent
  | dense => Dense
  | dropout => Dropout

def toDocument : (k : ConfigurationKind) → k.Value → Document
  | activation => Activation.toDocument
  | initializer => Initializer.toDocument
  | loss => Loss.toDocument
  | metric => Metric.toDocument
  | partialBatch => PartialBatch.toDocument
  | phase => Phase.toDocument
  | elementType => ElementType.toDocument
  | plan => TrainingPlan.toDocument
  | descent => Descent.toDocument
  | dense => Dense.toDocument
  | dropout => Dropout.toDocument

def ofDocument : (k : ConfigurationKind) → Document → Reading k.Value
  | activation => Activation.ofDocument
  | initializer => Initializer.ofDocument
  | loss => Loss.ofDocument
  | metric => Metric.ofDocument
  | partialBatch => PartialBatch.ofDocument
  | phase => Phase.ofDocument
  | elementType => ElementType.ofDocument
  | plan => TrainingPlan.ofDocument
  | descent => Descent.ofDocument
  | dense => Dense.ofDocument
  | dropout => Dropout.ofDocument

/-- The numbers in single precision of a configuration. -/
def numbers : (k : ConfigurationKind) → k.Value → List Float32
  | initializer => Initializer.numbers
  | loss => Loss.numbers
  | metric => Metric.numbers
  | descent => fun d => [d.learningRate, d.momentum]
  | dense => Dense.numbers
  | dropout => fun d => [d.rate]
  | activation | partialBatch | phase | elementType | plan => fun _ => []

/-- The configurations that constructors and builders make of words. All values of a choice can be
written down, and so can all plans with words for their counts. -/
def Obtainable : (k : ConfigurationKind) → k.Value → Prop
  | plan => fun p => p.epochs < 2 ^ 64 ∧ p.batchSize < 2 ^ 64
  | descent => Descent.Built
  | dense => Dense.Built
  | dropout => Dropout.Built
  | activation | initializer | loss | metric | partialBatch | phase | elementType => fun _ => True

/-- A configuration of any kind is read as it was written, if its numbers are. -/
theorem ofDocument_reread (k : ConfigurationKind) {x : k.Value} (hx : k.Obtainable x)
    (hnumbers : ∀ y ∈ k.numbers x, Lossless y) : k.ofDocument (k.toDocument x).reread = .ok x := by
  -- a kind is read back with the lemma of its type; the facts about its numbers and bounds are
  -- split off here
  cases k with
  | activation => exact Activation.ofDocument_reread x
  | initializer => exact Initializer.ofDocument_reread hnumbers
  | loss => exact Loss.ofDocument_reread hnumbers
  | metric => exact Metric.ofDocument_reread hnumbers
  | partialBatch => exact PartialBatch.ofDocument_reread x
  | phase => exact Phase.ofDocument_reread x
  | elementType => exact ElementType.ofDocument_reread x
  | plan => exact TrainingPlan.ofDocument_reread hx.1 hx.2
  | descent =>
    obtain ⟨hrate, hmomentum⟩ := List.forall_mem_cons.1 hnumbers
    exact Descent.ofDocument_reread hrate (List.forall_mem_singleton.1 hmomentum)
  | dense => exact Dense.ofDocument_reread hx.units_lt hnumbers
  | dropout => exact Dropout.ofDocument_reread (List.forall_mem_singleton.1 hnumbers)

/-- What constructors and builders make is read back from its text, and what is read from a text is
something that constructors and builders make. -/
theorem configurations_read_back :
    (∀ (k : ConfigurationKind) (x : k.Value), k.Obtainable x →
      (∀ y ∈ k.numbers x, y.isFinite) → (∀ y ∈ k.numbers x, y.isFinite → Lossless y) →
      readText k.ofDocument (compact (k.toDocument x)) = .ok x) ∧
    (∀ (s : String) (d : Descent), readText Descent.ofDocument s = .ok d →
      d.Built ∧ (d.learningRate.isFinite ∧ 0 < d.learningRate) ∧
        d.momentum.isFinite ∧ 0 ≤ d.momentum) ∧
    (∀ (s : String) (d : Dense), readText Dense.ofDocument s = .ok d → d.Built ∧ 1 ≤ d.units) ∧
    ∀ (s : String) (d : Dropout), readText Dropout.ofDocument s = .ok d →
      d.Built ∧ 0 ≤ d.rate ∧ d.rate < 1 := by
  refine ⟨fun k x hx hfinite hlossless => ?_, fun s d hread => ?_, fun s d hread => ?_,
    fun s d hread => ?_⟩
  · rw [readText_compact]
    exact k.ofDocument_reread hx fun y hy => hlossless y hy (hfinite y hy)
  · -- what is read was made by the constructor and the builders, whose checks it has passed
    obtain ⟨document, hdocument⟩ := exists_read_of_readText hread
    exact ⟨Descent.built_of_ofDocument hdocument, d.learningRate_pos, d.momentum_nonneg⟩
  · obtain ⟨document, hdocument⟩ := exists_read_of_readText hread
    exact ⟨Dense.built_of_ofDocument hdocument, d.units_pos⟩
  · obtain ⟨document, hdocument⟩ := exists_read_of_readText hread
    exact ⟨Dropout.built_of_ofDocument hdocument, d.rate_mem⟩

/-- A dense layer with all its parts, a descent and a dropout are read back. -/
theorem elaborate_layers_read_back :
    let dense : Dense := ⟨3, some .relu,
      some (.truncatedNormal 0.5 1e-7 (some 0xffffffffffffffff)), some (.constant (-0)),
      some "a\"b\\c\n\x01é", by decide⟩
    let descent : Descent := ⟨0.05, 0.9, by decide +kernel, by decide +kernel⟩
    let dropout : Dropout := ⟨0.25, some 7, none, by decide +kernel⟩
    (dense.Built ∧ (∀ y ∈ dense.numbers, y.isFinite ∧ Lossless y) ∧
      readText Dense.ofDocument (compact dense.toDocument) = .ok dense ∧ 1 ≤ dense.units) ∧
    (descent.Built ∧ (Lossless descent.learningRate ∧ Lossless descent.momentum) ∧
      readText Descent.ofDocument (compact descent.toDocument) = .ok descent ∧
      0 < descent.learningRate) ∧
    dropout.Built ∧ Lossless dropout.rate ∧
      readText Dropout.ofDocument (compact dropout.toDocument) = .ok dropout ∧
      dropout.rate < 1 := by
  intro dense descent dropout
  obtain ⟨hback, hdescents, hdenses, hdropouts⟩ := configurations_read_back
  have hdense : dense.Built := Dense.built_mk (by decide) _ _ _ _ _
  have hdescent : descent.Built :=
    .withMomentum (.ofLearningRate (dif_pos descent.learningRate_pos))
      (dif_pos descent.momentum_nonneg)
  have hdropout : dropout.Built := .withSeed (.create (dif_pos dropout.rate_mem)) 7
  have hof : ∀ y ∈ dense.numbers, y.isFinite ∧ Lossless y := by decide +kernel
  have hlearning : ∀ y ∈ [descent.learningRate, descent.momentum], y.isFinite ∧ Lossless y := by
    decide +kernel
  have hrate : ∀ y ∈ [dropout.rate], y.isFinite ∧ Lossless y := by decide +kernel
  have hfirst := hback .dense dense hdense (fun y hy => (hof y hy).1) fun y hy _ => (hof y hy).2
  have hsecond := hback .descent descent hdescent (fun y hy => (hlearning y hy).1)
    fun y hy _ => (hlearning y hy).2
  have hthird := hback .dropout dropout hdropout (fun y hy => (hrate y hy).1)
    fun y hy _ => (hrate y hy).2
  refine ⟨⟨hdense, hof, hfirst, (hdenses _ dense hfirst).2⟩, ⟨hdescent, ⟨?_, ?_⟩, hsecond, ?_⟩,
    hdropout, ?_, hthird, (hdropouts _ dropout hthird).2.2⟩
  · exact (hlearning _ (by simp)).2
  · exact (hlearning _ (by simp)).2
  · exact (hdescents _ descent hsecond).2.1.2
  · exact (hrate _ (by simp)).2

end ConfigurationKind
end TensorGraph
