import TensorGraph.Random.Sampler

/-!
# Draws and the words of a stream

Where a stream stands is told by how many of its words have been drawn. A draw takes its numbers one
after the other, each from the words that come next, and leaves the stream behind the words that it
has used. A uniform sample uses one word, a dropout factor two, and a normal sample as many as its
method asks for, at least two; a truncated normal sample uses the words of every normal sample that
it rejects as well.

## Main definitions

* `Stream.after` and `Stream.word`: the positions of a stream, and its words.
* `Stream.Advances`: a draw that moves a stream past the words of what it gives.
* `Stream.Yields`: numbers that are taken one after the other.
* `Ziggurat.Points`, `Sampler.Samples` and `Noise.Gives`: one number, and how many words it is made
  of.
* `Noise.Takes`: one draw.
* `Noise.Follows`: draws one after the other that take a stream from one position to another.

## Main results

* `Stream.word_ofSeed`: the words of a seeded stream are those of its blocks, in order.
* `Noise.takes_draw`: a draw takes its numbers from the words that come next.
* `Noise.Follows.unique`: from one position, draws of the same sizes are the same.
-/

namespace TensorGraph

deriving instance DecidableEq for Sampler
deriving instance DecidableEq for SamplingDefect

/-! ## The words of a stream -/

namespace Stream

/-- A stream after a number of its words. -/
def after (s : Stream) : Nat → Stream
  | 0 => s
  | n + 1 => s.next32.2.after n

/-- The words that come next in a stream, numbered from zero. -/
def word (s : Stream) (i : Nat) : UInt32 := (s.after i).next32.1

variable {s t u : Stream} {words : List UInt32}

/-- Words are taken one batch after the other. -/
theorem after_add (s : Stream) (m n : Nat) : s.after (m + n) = (s.after m).after n := by
  induction m generalizing s with
  | zero => rw [Nat.zero_add, after]
  | succ m ih => rw [Nat.succ_add, after, after, ih]

/-- The words from a position on are numbered from there. -/
theorem word_after (s : Stream) (m i : Nat) : (s.after m).word i = s.word (m + i) := by
  rw [word, word, after_add]

/-- Two words in a row as a longer one, of which the first is the lower half. -/
def pair (s : Stream) (i : Nat) : UInt64 :=
  (s.word i).toUInt64 ||| ((s.word (i + 1)).toUInt64 <<< 32)

theorem pair_after (s : Stream) (m i : Nat) : (s.after m).pair i = s.pair (m + i) := by
  rw [pair, pair, word_after, word_after, Nat.add_assoc]

/-- A longer word is made of the next two. -/
theorem next64_eq (s : Stream) : s.next64 = (s.pair 0, s.after 2) := by
  rcases hlow : s.next32 with ⟨low, t⟩
  rcases hhigh : t.next32 with ⟨high, u⟩
  simp only [pair, word, after, next64, hlow, hhigh]

/-- What a draw from a position of a stream comes to: the stream moves on, and what is given, if
anything is, is made of the words that it moves past. -/
def Advances {α : Type} (s : Stream) (gives : α → Nat → Prop) (draw : Option α × Stream) : Prop :=
  ∃ n, draw.2 = s.after n ∧ ∀ x, draw.1 = some x → gives x n

namespace Advances

variable {α β : Type} {gives gives' : α → Nat → Prop} {draw : Option α × Stream} {m : Nat} {x : α}

/-- Words may be spent on nothing. -/
theorem none (s : Stream) (n : Nat) : s.Advances gives (.none, s.after n) := ⟨n, rfl, nofun⟩

theorem some (s : Stream) {n : Nat} (h : gives x n) : s.Advances gives (.some x, s.after n) :=
  ⟨n, rfl, by rintro _ ⟨⟩; exact h⟩

/-- Words that have been spent before count as well. -/
theorem later (h : (s.after m).Advances gives draw)
    (hgives : ∀ x n, gives x n → gives' x (m + n)) : s.Advances gives' draw := by
  obtain ⟨n, hn, hx⟩ := h
  exact ⟨m + n, hn.trans (s.after_add m n).symm, fun x hdraw => hgives x n (hx x hdraw)⟩

/-- What is given may be made into something else. -/
theorem map {made : β → Nat → Prop} {f : α → β} (h : s.Advances gives draw)
    (hmade : ∀ x n, gives x n → made (f x) n) : s.Advances made (draw.1.map f, draw.2) := by
  obtain ⟨n, hn, hx⟩ := h
  refine ⟨n, hn, fun y hy => ?_⟩
  obtain ⟨x, hdraw, rfl⟩ := Option.map_eq_some_iff.1 hy
  exact hmade x n (hx x hdraw)

/-- Either nothing is given, or something that is made of the words. -/
theorem eq_none_or_eq_some (h : s.Advances gives draw) :
    (∃ n, draw = (.none, s.after n)) ∨ ∃ x n, draw = (.some x, s.after n) ∧ gives x n := by
  obtain ⟨n, hn, hx⟩ := h
  obtain ⟨_ | x, t⟩ := draw <;> obtain rfl : t = s.after n := hn
  · exact .inl ⟨n, rfl⟩
  · exact .inr ⟨x, n, rfl, hx x rfl⟩

end Advances

/-- The words that are left of a block are drawn in order. -/
theorem after_of_le (key : Vector UInt32 8) (counter : UInt64) {n : Nat} (h : n ≤ words.length) :
    (Stream.mk key counter words).after n = ⟨key, counter, words.drop n⟩ := by
  induction n generalizing words with
  | zero => rfl
  | succ n ih =>
    cases words with
    | nil => simp at h
    | cons w words => exact ih (Nat.le_of_succ_le_succ h)

/-- At the end of a block, the next one begins. -/
theorem next32_nil (key : Vector UInt32 8) (counter : UInt64) :
    (Stream.mk key counter []).next32 = ((Block.keystream key counter)[0],
      ⟨key, counter + 1, (Block.keystream key counter).toList.drop 1⟩) := by
  have hwords := List.drop_eq_getElem_cons
    (Nat.lt_of_lt_of_eq (by decide : 0 < 16) (Block.keystream key counter).length_toList.symm)
  rw [List.drop_zero, Vector.getElem_toList] at hwords
  rw [next32, hwords]
  rfl

/-- The first words of a new block leave the rest of it. -/
theorem after_succ_of_lt (key : Vector UInt32 8) (counter : UInt64) {n : Nat} (h : n < 16) :
    (Stream.mk key counter []).after (n + 1) =
      ⟨key, counter + 1, (Block.keystream key counter).toList.drop (n + 1)⟩ := by
  have hlength := (Block.keystream key counter).length_toList
  rw [after, next32_nil, after_of_le _ _ (by rw [List.length_drop]; omega), List.drop_drop,
    Nat.add_comm 1]

/-- A block has sixteen words. -/
theorem after_mul (key : Vector UInt32 8) (counter : UInt64) (blocks : Nat) :
    (Stream.mk key counter []).after (16 * blocks) = ⟨key, counter + .ofNat blocks, []⟩ := by
  induction blocks generalizing counter with
  | zero => simp [after]
  | succ blocks ih =>
    rw [Nat.mul_succ, Nat.add_comm, after_add, after_succ_of_lt key counter (by omega : 15 < 16),
      List.drop_of_length_le (by simp), ih, UInt64.add_assoc, Nat.add_comm blocks,
      UInt64.ofNat_add]
    rfl

/-- The words of a block are drawn in order. -/
theorem word_of_lt (key : Vector UInt32 8) (counter : UInt64) {n : Nat} (h : n < 16) :
    (Stream.mk key counter []).word n = (Block.keystream key counter)[n] := by
  have hlength := (Block.keystream key counter).length_toList
  cases n with
  | zero => rw [word, after, next32_nil]
  | succ n =>
    rw [word, after_succ_of_lt key counter (by omega), List.drop_eq_getElem_cons (by omega), next32]
    exact Vector.getElem_toList _

/-- The words of a seeded stream are those of its blocks, one block after the other. -/
theorem word_ofSeed (seed : UInt64) (i : Nat) :
    (ofSeed seed).word i =
      Vector.get (Block.keystream (ofSeed seed).key (.ofNat (i / 16))) (.ofNat 16 i) := by
  have hstart : (ofSeed seed).after (16 * (i / 16)) =
      ⟨(ofSeed seed).key, .ofNat (i / 16), []⟩ := by
    have hblocks := after_mul (ofSeed seed).key 0 (i / 16)
    rwa [UInt64.zero_add] at hblocks
  -- the word is the one with the remainder as its number in the block that begins there
  have hword := word_of_lt (ofSeed seed).key (.ofNat (i / 16)) (Nat.mod_lt i (by decide : 0 < 16))
  rwa [word, ← hstart, ← after_add, Nat.div_add_mod] at hword

/-- Numbers that are taken one after the other, each from where the one before has left the stream.
Between them they use a number of words. -/
inductive Yields (gives : Stream → Float32 → Nat → Prop) : Stream → List Float32 → Nat → Prop
  | nil (s : Stream) : Yields gives s [] 0
  | cons {s : Stream} {x : Float32} {xs : List Float32} {m n : Nat} (first : gives s x m)
      (rest : Yields gives (s.after m) xs n) : Yields gives s (x :: xs) (m + n)

variable {gives : Stream → Float32 → Nat → Prop} {draw : Stream → Option Float32 × Stream}

/-- Draws that never fail are all collected. -/
theorem collect_of_draws {draw : Stream → Option Float32 × Stream}
    (h : ∀ s, (draw s).1.isSome) (count : Nat) (drawn : Array Float32) (s : Stream) :
    ∃ xs, (collect draw count drawn s).1 = some xs ∧ xs.size = drawn.size + count := by
  induction count generalizing drawn s with
  | zero => exact ⟨drawn, rfl, rfl⟩
  | succ count ih =>
    obtain ⟨x, hx⟩ := Option.isSome_iff_exists.1 (h s)
    obtain ⟨xs, hxs, hsize⟩ := ih (drawn.push x) (draw s).2
    refine ⟨xs, ?_, by rw [hsize, Array.size_push]; omega⟩
    rw [collect, show draw s = (some x, (draw s).2) from Prod.ext hx rfl]
    exact hxs

/-- What is collected follows what has been drawn so far. -/
theorem advances_collect (h : ∀ s : Stream, s.Advances (gives s) (draw s)) (count : Nat)
    (drawn : Array Float32) (s : Stream) :
    s.Advances (fun xs n => ∃ ys, xs.toList = drawn.toList ++ ys ∧ ys.length = count ∧
      Yields gives s ys n) (collect draw count drawn s) := by
  induction count generalizing drawn s with
  | zero => exact .some s (n := 0) ⟨[], by simp, rfl, .nil s⟩
  | succ count ih =>
    obtain ⟨m, hdraw⟩ | ⟨x, m, hdraw, hx⟩ := (h s).eq_none_or_eq_some <;> rw [collect, hdraw]
    · exact .none s m
    · refine (ih (drawn.push x) (s.after m)).later ?_
      rintro xs n ⟨ys, hxs, hlength, hys⟩
      refine ⟨x :: ys, ?_, by rw [List.length_cons, hlength], .cons hx hys⟩
      rw [hxs, Array.toList_push, List.append_assoc, List.singleton_append]

end Stream

/-! ## Normal draws -/

namespace Ziggurat

/-- How far beyond the start of the tail the next two words put a point, as a negative number. -/
def overshoot (s : Stream) : Float := Float.log (openUnit (s.pair 0)) / tailStart

/-- The two words after them reject this point. -/
def Overshoots (s : Stream) : Prop :=
  -2 * Float.log (openUnit (s.pair 2)) < overshoot s * overshoot s

/-- A point of the tail, on the side of a number, and how many words it is made of. -/
inductive TailPoints (u : Float) : Stream → Float → Nat → Prop
  /-- Every attempt takes four words. -/
  | taken {s : Stream} (under : ¬Overshoots s) :
      TailPoints u s (if u < 0 then overshoot s - tailStart else tailStart - overshoot s) 4
  | again {s : Stream} {x : Float} {n : Nat} (above : Overshoots s)
      (point : TailPoints u (s.after 4) x n) : TailPoints u s x (4 + n)

/-- Every attempt at the tail uses four words. -/
theorem advances_tail (u : Float) (attempts : Nat) (s : Stream) :
    s.Advances (TailPoints u s) (tail u attempts s) := by
  induction attempts generalizing s with
  | zero => exact .none s 0
  | succ attempts ih =>
    simp only [tail, Stream.next64_eq, Stream.pair_after, ← Stream.after_add, Nat.reduceAdd]
    refine iteInduction (motive := s.Advances (TailPoints u s)) (fun hover => ?_) fun hunder => ?_
    · exact (ih (s.after 4)).later fun x n => .again hover
    · exact .some s (.taken hunder)

/-- The layer that the next two words choose. -/
def layer (s : Stream) : Nat := (s.pair 0 &&& 0xff).toNat

/-- The point of the layer that they choose. -/
def point (s : Stream) : Float := symmetricUnit (s.pair 0) * edges.getD (layer s) 0

/-- The point lies under the next layer, and so under the curve. -/
def Inside (s : Stream) : Prop := (point s).abs < edges.getD (layer s + 1) 0

/-- At the height that the two words after them choose, the point lies under the curve. -/
def Under (s : Stream) : Prop :=
  heights.getD (layer s + 1) 0 +
    (heights.getD (layer s) 0 - heights.getD (layer s + 1) 0) * unit (s.pair 2) < density (point s)

/-- A standard normal draw, and how many words it is made of. -/
inductive Points : Stream → Float → Nat → Prop
  | inside {s : Stream} (inside : Inside s) : Points s (point s) 2
  /-- The layer of the tail has its own draw. -/
  | tail {s : Stream} {x : Float} {n : Nat} (outside : ¬Inside s) (last : layer s = 0)
      (point : TailPoints (symmetricUnit (s.pair 0)) (s.after 2) x n) : Points s x (2 + n)
  /-- A point of the wedge takes two more words. -/
  | wedge {s : Stream} (outside : ¬Inside s) (inner : layer s ≠ 0) (under : Under s) :
      Points s (point s) 4
  | again {s : Stream} {x : Float} {n : Nat} (outside : ¬Inside s) (inner : layer s ≠ 0)
      (above : ¬Under s) (point : Points (s.after 4) x n) : Points s x (4 + n)

/-- Every attempt at a draw uses two words, and two more if the point lies in the wedge. -/
theorem advances_draw (attempts : Nat) (s : Stream) :
    s.Advances (Points s) (draw attempts s) := by
  induction attempts generalizing s with
  | zero => exact .none s 0
  | succ attempts ih =>
    simp only [draw, Stream.next64_eq, Stream.pair_after, ← Stream.after_add, Nat.reduceAdd]
    refine iteInduction (motive := s.Advances (Points s)) (fun hinside => ?_) fun houtside => ?_
    · exact .some s (.inside hinside)
    refine iteInduction (motive := s.Advances (Points s)) (fun hlast => ?_) fun hinner => ?_
    · exact (advances_tail _ attemptLimit (s.after 2)).later fun x n => .tail houtside hlast
    refine iteInduction (motive := s.Advances (Points s)) (fun hunder => ?_) fun hover => ?_
    · exact .some s (.wedge houtside hinner hunder)
    · exact (ih (s.after 4)).later fun x n => .again houtside hinner hover

end Ziggurat

/-! ## Samples -/

namespace Sampler

/-- A sample of a distribution, and how many words of a stream it is made of. -/
inductive Samples : Sampler → Stream → Float32 → Nat → Prop
  /-- A standard normal draw is scaled and shifted. -/
  | normal {mean stddev : Float32} {s : Stream} {z : Float} {n : Nat}
      (standard : Ziggurat.Points s z n) :
      Samples (.normal mean stddev) s (mean + stddev * Single.ofDouble z) n
  /-- The upper 23 bits of a word are those of a fraction, which is scaled and shifted. -/
  | uniform {min max : Float32} {s : Stream} :
      Samples (.uniform min max) s
        (Single.nearest ⟨false, (s.word 0 >>> 9).toNat, -23⟩ *
          fittingScale min max (max - min).toBits.toNat + min) 1
  /-- A normal sample within two deviations of the mean is taken. -/
  | near {mean stddev x : Float32} {s : Stream} {n : Nat}
      (sample : Samples (.normal mean stddev) s x n) (near : (x - mean).abs ≤ 2 * stddev) :
      Samples (.truncatedNormal mean stddev) s x n
  /-- One that is farther away is drawn again. -/
  | again {mean stddev x y : Float32} {s : Stream} {m n : Nat}
      (rejected : Samples (.normal mean stddev) s x m) (far : ¬(x - mean).abs ≤ 2 * stddev)
      (sample : Samples (.truncatedNormal mean stddev) (s.after m) y n) :
      Samples (.truncatedNormal mean stddev) s y (m + n)

/-- A normal draw gives a sample. -/
theorem advances_normalDraw (mean stddev : Float32) (s : Stream) :
    s.Advances ((normal mean stddev).Samples s) (normalDraw mean stddev s) :=
  (Ziggurat.advances_draw attemptLimit s).map fun _ _ => .normal

/-- Normal samples are drawn until one is near, or none is given. -/
theorem advances_truncatedDraw (mean stddev : Float32) (attempts : Nat) (s : Stream) :
    s.Advances ((truncatedNormal mean stddev).Samples s)
      (truncatedDraw mean stddev attempts s) := by
  induction attempts generalizing s with
  | zero => exact .none s 0
  | succ attempts ih =>
    obtain ⟨m, hdraw⟩ | ⟨x, m, hdraw, hsample⟩ :=
      (advances_normalDraw mean stddev s).eq_none_or_eq_some <;> rw [truncatedDraw, hdraw]
    · exact .none s m
    · refine iteInduction (motive := s.Advances ((truncatedNormal mean stddev).Samples s))
        (fun hnear => ?_) fun hfar => ?_
      · exact .some s (.near hsample hnear)
      · exact (ih (s.after m)).later fun y n => .again hsample hfar

/-- The draw of one sample. -/
def single : Sampler → Stream → Option Float32 × Stream
  | normal mean stddev => normalDraw mean stddev
  | truncatedNormal mean stddev => truncatedDraw mean stddev attemptLimit
  | uniform min max => uniformDraw (fittingScale min max (max - min).toBits.toNat) min

/-- Parameters that are refused leave the stream alone, and the others are drawn for sample by
sample. -/
theorem draw_cases (sampler : Sampler) (count : Nat) (s : Stream) :
    (∃ defect, sampler.draw count s = (.error defect, s)) ∨
      sampler.draw count s = accepted (Stream.collect sampler.single count #[] s) := by
  cases sampler <;>
  · rw [draw]
    split
    · exact .inr rfl
    · exact .inl ⟨_, rfl⟩

/-- A single draw gives a sample. -/
theorem advances_single (sampler : Sampler) (s : Stream) :
    s.Advances (sampler.Samples s) (sampler.single s) := by
  cases sampler with
  | normal mean stddev => exact advances_normalDraw mean stddev s
  | truncatedNormal mean stddev => exact advances_truncatedDraw mean stddev attemptLimit s
  | uniform min max => exact .some s Samples.uniform

/-- A draw moves the stream on. Its samples are drawn one after the other, each from the words that
come next. -/
theorem forward_draw (sampler : Sampler) (count : Nat) (s : Stream) :
    ∃ n, (sampler.draw count s).2 = s.after n ∧ ∀ xs, (sampler.draw count s).1 = .ok xs →
      xs.size = count ∧ Stream.Yields sampler.Samples s xs.toList n := by
  obtain ⟨defect, hrefused⟩ | hcollect := sampler.draw_cases count s
  · rw [hrefused]
    exact ⟨0, rfl, nofun⟩
  · obtain ⟨n, hdrawn⟩ | ⟨xs, n, hdrawn, ys, hlist, hlength, hys⟩ :=
      (Stream.advances_collect sampler.advances_single count #[] s).eq_none_or_eq_some <;>
      rw [hcollect, hdrawn]
    · exact ⟨n, rfl, nofun⟩
    · refine ⟨n, rfl, ?_⟩
      rintro _ ⟨⟩
      obtain rfl : xs.toList = ys := hlist
      exact ⟨hlength, hys⟩

end Sampler

/-! ## Factors -/

namespace Dropping

/-- A factor of a dropout, and how many words of a stream it is made of. -/
inductive Factors (rate : Float32) : Stream → Float32 → Nat → Prop
  /-- A rate that leaves a probability of one asks for no word. -/
  | certain {s : Stream} (certain : (1 - rate == 1) = true) : Factors rate s (1 / (1 - rate)) 0
  /-- An element is kept if the number that two words make is below the threshold. -/
  | drawn {s : Stream} (uncertain : ¬(1 - rate == 1) = true) :
      Factors rate s
        (if (s.pair 0).toNat < threshold (1 - rate) then 1 / (1 - rate) else 0) 2

variable {rate : Float32}

/-- Certain factors are all the same and leave the stream where it is. -/
theorem yields_replicate (hcertain : (1 - rate == 1) = true) (count : Nat) (s : Stream) :
    Stream.Yields (Factors rate) s (List.replicate count (1 / (1 - rate))) 0 := by
  induction count with
  | zero => exact .nil s
  | succ count ih =>
    change Stream.Yields (Factors rate) s (_ :: _) (0 + 0)
    exact .cons (.certain hcertain) ih

/-- An uncertain factor is made of the next two words. -/
theorem advances_factor (huncertain : ¬(1 - rate == 1) = true) (s : Stream) :
    s.Advances (Factors rate s) (factor (1 - rate) (threshold (1 - rate)) s) := by
  simp only [factor, Stream.next64_eq]
  exact .some s (.drawn huncertain)

/-- Factors are drawn one after the other, each from the words that come next. -/
theorem forward_mask (rate : Float32) (count : Nat) (s : Stream) :
    ∃ n, (mask rate count s).2 = s.after n ∧ (mask rate count s).1.size = count ∧
      Stream.Yields (Factors rate) s (mask rate count s).1.toList n := by
  rw [mask]
  split
  · next hcertain =>
    refine ⟨0, rfl, Array.size_replicate, ?_⟩
    rw [Array.toList_replicate]
    exact yields_replicate hcertain count s
  · next huncertain =>
    have hsome (s : Stream) : (factor (1 - rate) (threshold (1 - rate)) s).1.isSome := rfl
    obtain ⟨xs, hxs, -⟩ := Stream.collect_of_draws hsome count #[] s
    obtain ⟨n, hn, hys⟩ := Stream.advances_collect (advances_factor huncertain) count #[] s
    obtain ⟨ys, hlist, hlength, hys⟩ := hys xs hxs
    obtain rfl : xs.toList = ys := hlist
    simp only [hxs]
    exact ⟨n, hn, hlength, hys⟩

end Dropping

/-! ## Draws for a node -/

/-- What a node draws: samples of a distribution, or the factors of a dropout. -/
inductive Noise where
  | samples (sampler : Sampler)
  | factors (rate : Float32)
  deriving DecidableEq

/-- One draw: how many numbers are asked for, and the numbers, unless none are accepted. -/
structure Sampling where
  count : Nat
  drawn : Except SamplingDefect (Array Float32)

namespace Noise

/-- Draw a number of numbers from a stream. -/
def draw (count : Nat) (s : Stream) :
    Noise → Except SamplingDefect (Array Float32) × Stream
  | samples sampler => sampler.draw count s
  | factors rate =>
    let (xs, s) := Dropping.mask rate count s
    (.ok xs, s)

/-- One of the numbers that a node draws, and how many words of a stream it is made of. -/
def Gives : Noise → Stream → Float32 → Nat → Prop
  | samples sampler => sampler.Samples
  | factors rate => Dropping.Factors rate

/-- A draw takes its numbers from one position of a stream, and leaves the stream at another one. -/
structure Takes (noise : Noise) (x : Sampling) (s t : Stream) : Prop where
  draws : noise.draw x.count s = (x.drawn, t)
  /-- The stream goes forward, past the words of the numbers. -/
  forward : ∃ n, t = s.after n ∧ ∀ xs, x.drawn = .ok xs →
    xs.size = x.count ∧ Stream.Yields noise.Gives s xs.toList n

/-- Draws that take a stream from one position to another. Each of them begins where the one before
has left the stream. -/
inductive Follows (noise : Noise) : List Sampling → Stream → Stream → Prop
  | nil (s : Stream) : Follows noise [] s s
  | cons {x : Sampling} {log : List Sampling} {s t u : Stream} (first : noise.Takes x s t)
      (rest : Follows noise log t u) : Follows noise (x :: log) s u

/-- A draw takes its numbers from the words that come next. -/
theorem takes_draw (noise : Noise) (count : Nat) (s : Stream) :
    noise.Takes ⟨count, (noise.draw count s).1⟩ s (noise.draw count s).2 := by
  refine ⟨rfl, ?_⟩
  cases noise with
  | samples sampler => exact sampler.forward_draw count s
  | factors rate =>
    obtain ⟨n, hn, hfactors⟩ := Dropping.forward_mask rate count s
    refine ⟨n, hn, ?_⟩
    rintro _ ⟨⟩
    exact hfactors

variable {noise : Noise} {x x' : Sampling} {log log' : List Sampling} {s t t' u : Stream}

/-- From one position, draws of the same size are the same. -/
theorem Takes.unique (h : noise.Takes x s t) (h' : noise.Takes x' s t')
    (hcount : x.count = x'.count) : x = x' ∧ t = t' := by
  obtain ⟨count, drawn⟩ := x
  obtain ⟨count', drawn'⟩ := x'
  obtain rfl : count = count' := hcount
  obtain ⟨rfl, rfl⟩ := Prod.mk.inj (h.draws.symm.trans h'.draws)
  exact ⟨rfl, rfl⟩

namespace Follows

/-- One draw follows from where the stream was. -/
theorem singleton (noise : Noise) (count : Nat) (s : Stream) :
    noise.Follows [⟨count, (noise.draw count s).1⟩] s (noise.draw count s).2 :=
  .cons (noise.takes_draw count s) (.nil _)

/-- Draws follow each other. -/
theorem append (h : noise.Follows log s t) (h' : noise.Follows log' t u) :
    noise.Follows (log ++ log') s u := by
  induction h with
  | nil => exact h'
  | cons first _ ih => exact .cons first (ih h')

/-- Draws that follow only move a stream on. -/
theorem exists_after (h : noise.Follows log s t) : ∃ n, t = s.after n := by
  induction h with
  | nil => exact ⟨0, rfl⟩
  | cons first _ ih =>
    obtain ⟨m, rfl, -⟩ := first.forward
    obtain ⟨n, rfl⟩ := ih
    exact ⟨m + n, (Stream.after_add _ m n).symm⟩

/-- From one position, draws of the same sizes are the same. -/
theorem unique (h : noise.Follows log s t) (h' : noise.Follows log' s t')
    (hcounts : log.map (·.count) = log'.map (·.count)) : log = log' := by
  induction h generalizing log' with
  | nil => exact (List.map_eq_nil_iff.1 hcounts.symm).symm
  | cons first _ ih =>
    cases h' with
    | nil => cases hcounts
    | cons first' rest' =>
      obtain ⟨hcount, hrest⟩ := List.cons.inj hcounts
      -- the first draws leave the stream at the same place
      obtain ⟨rfl, rfl⟩ := first.unique first' hcount
      rw [ih rest' hrest]

end Follows
end Noise
end TensorGraph
