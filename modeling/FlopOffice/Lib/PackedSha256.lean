/-
# FlopOffice.Lib.PackedSha256 — SHA-256 on packed words.

The kernel computes with natural literals at once, but takes a list apart cell by cell. So here the
eight working words of a block are one natural in base `2 ^ 32`, and so is the window of the next sixteen
words of the schedule: a word is read by a shift, and the window slides by one. The operations are called
by their own names, which saves the evaluator the way through the instances.

`digest_eq_packed` says that this is the same function. A proof that evaluates a digest rewrites with it
first.
-/
import FlopOffice.Lib.Sha256

namespace FlopOffice.Lib.Sha256

/-! ## Packed words -/

/-- The word that starts at this bit. -/
def wordAt (x bit : Nat) : Nat := Nat.mod (Nat.shiftRight x bit) 0x100000000

/-- Words in base `2 ^ 32`, the first one lowest. -/
def pack : List Nat → Nat
  | [] => 0
  | w :: ws => Nat.add w (Nat.shiftLeft (pack ws) 32)

/-- All words are below `2 ^ 32`. -/
def AreWords (ws : List Nat) : Prop := ∀ w ∈ ws, w < wordModulus

theorem wordAt_eq (x bit : Nat) : wordAt x bit = x / 2 ^ bit % wordModulus := by
  rw [← Nat.shiftRight_eq_div_pow]
  rfl

theorem pack_nil : pack [] = 0 := rfl

theorem pack_cons (w : Nat) (ws : List Nat) : pack (w :: ws) = w + 2 ^ 32 * pack ws := by
  rw [Nat.mul_comm, ← Nat.shiftLeft_eq]
  rfl

theorem pack_append (ws : List Nat) (w : Nat) :
    pack (ws ++ [w]) = pack ws + (2 ^ 32) ^ ws.length * w := by
  induction ws with
  | nil =>
    rw [List.nil_append, pack_cons, pack_nil, List.length_nil, Nat.mul_zero, Nat.pow_zero,
      Nat.one_mul, Nat.add_zero, Nat.zero_add]
  | cons v ws ih =>
    rw [List.cons_append, pack_cons, pack_cons, ih, List.length_cons, Nat.mul_add, Nat.add_assoc,
      show (2 ^ 32) ^ (ws.length + 1) = 2 ^ 32 * (2 ^ 32) ^ ws.length from Nat.pow_succ', Nat.mul_assoc]

/-- **A packed word is read back.** -/
theorem wordAt_pack {ws : List Nat} (h : AreWords ws) {i : Nat} (hi : i < ws.length) :
    wordAt (pack ws) (32 * i) = ws.getD i 0 := by
  induction ws generalizing i with
  | nil => exact absurd hi (Nat.not_lt_zero i)
  | cons w ws ih =>
    obtain ⟨hword, hws⟩ := List.forall_mem_cons.mp h
    have hw : w < 2 ^ 32 := hword
    rw [wordAt_eq, pack_cons]
    cases i with
    | zero =>
      rw [Nat.mul_zero, Nat.pow_zero, Nat.div_one, List.getD_cons_zero, wordModulus,
        show 0x100000000 = 2 ^ 32 from rfl, Nat.add_mul_mod_self_left]
      exact Nat.mod_eq_of_lt hw
    | succ i =>
      rw [List.getD_cons_succ, ← ih hws (Nat.lt_of_succ_lt_succ hi), wordAt_eq, Nat.mul_succ,
        Nat.add_comm (32 * i), Nat.pow_add, ← Nat.div_div_eq_div_mul,
        Nat.add_mul_div_left _ _ (Nat.two_pow_pos 32), Nat.div_eq_of_lt hw, Nat.zero_add]

/-! ## The operations on words, by their own names -/

def packedRotr (x n m : Nat) : Nat :=
  Nat.lor (Nat.shiftRight x n) (Nat.mod (Nat.shiftLeft x m) 0x100000000)

def packedSigma0 (x : Nat) : Nat :=
  Nat.xor (Nat.xor (packedRotr x 7 25) (packedRotr x 18 14)) (Nat.shiftRight x 3)

def packedSigma1 (x : Nat) : Nat :=
  Nat.xor (Nat.xor (packedRotr x 17 15) (packedRotr x 19 13)) (Nat.shiftRight x 10)

def packedBigSigma0 (x : Nat) : Nat :=
  Nat.xor (Nat.xor (packedRotr x 2 30) (packedRotr x 13 19)) (packedRotr x 22 10)

def packedBigSigma1 (x : Nat) : Nat :=
  Nat.xor (Nat.xor (packedRotr x 6 26) (packedRotr x 11 21)) (packedRotr x 25 7)

def packedCh (e f g : Nat) : Nat := Nat.xor (Nat.land e f) (Nat.land (Nat.sub 0xffffffff e) g)

def packedMaj (a b c : Nat) : Nat :=
  Nat.xor (Nat.xor (Nat.land a b) (Nat.land a c)) (Nat.land b c)

theorem packedBigSigma0_eq (x : Nat) : packedBigSigma0 x = bigSigma0 x := rfl

theorem packedBigSigma1_eq (x : Nat) : packedBigSigma1 x = bigSigma1 x := rfl

theorem packedCh_eq (e f g : Nat) : packedCh e f g = ch e f g := rfl

theorem packedMaj_eq (a b c : Nat) : packedMaj a b c = maj a b c := rfl

/-! ## Rounds -/

/-- The eight words, `a` first. -/
def State.words (s : State) : List Nat := [s.a, s.b, s.c, s.d, s.e, s.f, s.g, s.h]

/-- `2 ^ 240`: the sixteenth word stands at its square. -/
def halfWindow : Nat := 0x1000000000000000000000000000000000000000000000000000000000000

/-- The next window. -/
def slide (window : Nat) : Nat :=
  Nat.add (Nat.shiftRight window 32) (Nat.mul (Nat.mul
    (Nat.mod (Nat.add (Nat.add (Nat.add (packedSigma1 (wordAt window 448)) (wordAt window 288))
      (packedSigma0 (wordAt window 32))) (wordAt window 0)) 0x100000000) halfWindow) halfWindow)

/-- The words after a round: `a'` comes in below `a`, and `e'` takes the place of `d`. -/
def shiftIn (s a' e' : Nat) : Nat :=
  Nat.add (Nat.add a' (Nat.mul (Nat.mod s 0x1000000000000000000000000) 0x100000000))
    (Nat.add (Nat.mul e' 0x100000000000000000000000000000000)
      (Nat.mul (Nat.div
          (Nat.mod s 0x100000000000000000000000000000000000000000000000000000000)
          0x100000000000000000000000000000000)
        0x10000000000000000000000000000000000000000))

/-- The rounds, one for each constant, on packed words. -/
def packedRounds : List Nat → Nat → Nat → Nat
  | [], _, s => s
  | k :: ks, window, s =>
    force (wordAt s 0) fun a => force (wordAt s 128) fun e =>
    force (Nat.add (Nat.add (Nat.add (Nat.add (wordAt s 224) (packedBigSigma1 e))
      (packedCh e (wordAt s 160) (wordAt s 192))) k) (wordAt window 0)) fun t₁ =>
    force (Nat.mod (Nat.add (Nat.add t₁ (packedBigSigma0 a))
      (packedMaj a (wordAt s 32) (wordAt s 64))) 0x100000000) fun a' =>
    force (Nat.mod (Nat.add (wordAt s 96) t₁) 0x100000000) fun e' =>
    force (shiftIn s a' e') fun s' => force (slide window) fun window' => packedRounds ks window' s'

theorem AreWords.round {s : State} (h : AreWords s.words) (k w : Nat) :
    AreWords (round s k w).words := by
  obtain ⟨a, b, c, d, e, f, g, h'⟩ := s
  simp only [AreWords, State.words, List.forall_mem_cons] at h
  obtain ⟨ha, hb, hc, -, he, hf, hg, -⟩ := h
  have hmod : ∀ n, n % wordModulus < wordModulus := fun n => Nat.mod_lt n (by decide)
  simp only [AreWords, State.words, Sha256.round, force_eq, List.forall_mem_cons]
  exact ⟨hmod _, ha, hb, hc, hmod _, he, hf, hg, List.forall_mem_nil _⟩

theorem shiftIn_eq {a b c d e f g h : Nat} (hs : AreWords [a, b, c, d, e, f, g, h]) (a' e' : Nat) :
    shiftIn (pack [a, b, c, d, e, f, g, h]) a' e' = pack [a', a, b, c, e', e, f, g] := by
  simp only [AreWords, List.forall_mem_cons, wordModulus] at hs
  obtain ⟨ha, hb, hc, hd, he, hf, hg, hh, -⟩ := hs
  have hmod : ∀ m n, Nat.mod m n = m % n := fun _ _ => rfl
  have hdiv : ∀ m n, Nat.div m n = m / n := fun _ _ => rfl
  simp only [shiftIn, pack_cons, pack_nil, Nat.add_eq, Nat.mul_eq, hmod, hdiv]
  omega

/-- **The window slides**: it holds the words that follow in the schedule. -/
theorem slide_eq {w₀ w₁ : Nat} {ws : List Nat} (h : AreWords (w₀ :: w₁ :: ws)) (hlen : ws.length = 14) :
    slide (pack (w₀ :: w₁ :: ws)) = pack (w₁ :: ws ++
      [(sigma1 (ws.getD 12 0) + ws.getD 7 0 + sigma0 w₁ + w₀) % wordModulus]) := by
  have hread : ∀ i, i < 16 → wordAt (pack (w₀ :: w₁ :: ws)) (32 * i) = (w₀ :: w₁ :: ws).getD i 0 :=
    fun i hi => wordAt_pack h (by simpa [hlen] using hi)
  have h₀ : wordAt (pack (w₀ :: w₁ :: ws)) 0 = w₀ := hread 0 (by decide)
  have h₁ : wordAt (pack (w₀ :: w₁ :: ws)) 32 = w₁ := hread 1 (by decide)
  have h₉ : wordAt (pack (w₀ :: w₁ :: ws)) 288 = ws.getD 7 0 := hread 9 (by decide)
  have h₁₄ : wordAt (pack (w₀ :: w₁ :: ws)) 448 = ws.getD 12 0 := hread 14 (by decide)
  have hrest : Nat.shiftRight (pack (w₀ :: w₁ :: ws)) 32 = pack (w₁ :: ws) := by
    have hw₀ : w₀ < 2 ^ 32 := h w₀ List.mem_cons_self
    rw [show Nat.shiftRight _ 32 = pack (w₀ :: w₁ :: ws) / 2 ^ 32 from Nat.shiftRight_eq_div_pow _ _,
      pack_cons w₀, Nat.add_mul_div_left _ _ (Nat.two_pow_pos 32), Nat.div_eq_of_lt hw₀, Nat.zero_add]
  have htop : (2 ^ 32) ^ (w₁ :: ws).length = halfWindow * halfWindow := by
    rw [List.length_cons, hlen]
    rfl
  rw [pack_append, htop, Nat.mul_comm, ← Nat.mul_assoc]
  unfold slide
  rw [h₀, h₁, h₉, h₁₄, hrest]
  rfl

/-- **The rounds on packed words are the rounds.** -/
theorem packedRounds_eq (ks : List Nat) {ws : List Nat} {s : State} (hws : AreWords ws)
    (hlen : ws.length = 16) (hs : AreWords s.words) :
    packedRounds ks (pack ws) (pack s.words) = pack (rounds ks (schedule ks.length ws) s).words := by
  induction ks generalizing ws s with
  | nil => rfl
  | cons k ks ih =>
    obtain ⟨w₀, w₁, ws, rfl⟩ : ∃ w₀ w₁ ws', ws = w₀ :: w₁ :: ws' := by
      match ws, hlen with
      | w₀ :: w₁ :: ws', _ => exact ⟨w₀, w₁, ws', rfl⟩
    have hlen' : ws.length = 14 := by
      simp only [List.length_cons] at hlen
      omega
    -- what the next round finds
    have hslide := slide_eq hws hlen'
    have hnext : AreWords (w₁ :: ws ++
        [(sigma1 (ws.getD 12 0) + ws.getD 7 0 + sigma0 w₁ + w₀) % wordModulus]) := by
      intro w hw
      rcases List.mem_append.mp hw with hw | hw
      · exact hws w (List.mem_cons_of_mem _ hw)
      · rw [List.mem_singleton.mp hw]
        exact Nat.mod_lt _ (by decide)
    have hround := ih hnext (by simp [hlen']) (hs.round k w₀)
    have hw₀ : wordAt (pack (w₀ :: w₁ :: ws)) 0 = w₀ :=
      wordAt_pack (i := 0) hws (Nat.succ_pos _)
    obtain ⟨a, b, c, d, e, f, g, h⟩ := s
    have hread : ∀ i, i < 8 → wordAt (pack [a, b, c, d, e, f, g, h]) (32 * i) =
        [a, b, c, d, e, f, g, h].getD i 0 := fun i hi => wordAt_pack hs hi
    have hmod : ∀ n, Nat.mod n 0x100000000 = n % wordModulus := fun _ => rfl
    simp only [List.length_cons, schedule, rounds, force_eq]
    rw [← hround]
    simp only [packedRounds, force_eq]
    dsimp only [State.words]
    rw [hslide, show wordAt _ 0 = a from hread 0 (by decide),
      show wordAt _ 32 = b from hread 1 (by decide), show wordAt _ 64 = c from hread 2 (by decide),
      show wordAt _ 96 = d from hread 3 (by decide), show wordAt _ 128 = e from hread 4 (by decide),
      show wordAt _ 160 = f from hread 5 (by decide), show wordAt _ 192 = g from hread 6 (by decide),
      show wordAt _ 224 = h from hread 7 (by decide), hw₀, shiftIn_eq hs]
    simp only [packedBigSigma0_eq, packedBigSigma1_eq, packedCh_eq, packedMaj_eq, Nat.add_eq, hmod,
      Sha256.round, force_eq]

/-! ## Blocks -/

/-- The words of a packed state. -/
def unpack (x : Nat) : State :=
  ⟨wordAt x 0, wordAt x 32, wordAt x 64, wordAt x 96, wordAt x 128, wordAt x 160, wordAt x 192,
    wordAt x 224⟩

theorem unpack_pack {s : State} (h : AreWords s.words) : unpack (pack s.words) = s := by
  have hread : ∀ i, i < 8 → wordAt (pack s.words) (32 * i) = s.words.getD i 0 :=
    fun i hi => wordAt_pack h hi
  unfold unpack
  rw [show wordAt _ 0 = s.a from hread 0 (by decide), show wordAt _ 32 = s.b from hread 1 (by decide),
    show wordAt _ 64 = s.c from hread 2 (by decide), show wordAt _ 96 = s.d from hread 3 (by decide),
    show wordAt _ 128 = s.e from hread 4 (by decide), show wordAt _ 160 = s.f from hread 5 (by decide),
    show wordAt _ 192 = s.g from hread 6 (by decide), show wordAt _ 224 = s.h from hread 7 (by decide)]

theorem AreWords.rounds {ks ws : List Nat} {s : State} (h : AreWords s.words) :
    AreWords (rounds ks ws s).words := by
  induction ks generalizing ws s with
  | nil => exact h
  | cons k ks ih =>
    cases ws with
    | nil => exact h
    | cons w ws => exact ih (h.round k w)

/-- The compression function, with packed rounds. -/
def packedCompress (s : State) (block : List Nat) : State :=
  force (packedRounds roundConstants (pack block) (pack s.words)) fun x =>
  match s, unpack x with
  | ⟨a, b, c, d, e, f, g, h⟩, ⟨a', b', c', d', e', f', g', h'⟩ =>
    force ((a + a') % wordModulus) fun a => force ((b + b') % wordModulus) fun b =>
    force ((c + c') % wordModulus) fun c => force ((d + d') % wordModulus) fun d =>
    force ((e + e') % wordModulus) fun e => force ((f + f') % wordModulus) fun f =>
    force ((g + g') % wordModulus) fun g => force ((h + h') % wordModulus) fun h =>
    ⟨a, b, c, d, e, f, g, h⟩

theorem packedCompress_eq {s : State} {block : List Nat} (hs : AreWords s.words)
    (hblock : AreWords block) (hlen : block.length = 16) : packedCompress s block = compress s block := by
  rw [packedCompress, force_eq, packedRounds_eq roundConstants hblock hlen hs, unpack_pack hs.rounds]
  rfl

theorem AreWords.compress (s : State) (block : List Nat) : AreWords (compress s block).words := by
  have hmod : ∀ n, n % wordModulus < wordModulus := fun n => Nat.mod_lt n (by decide)
  simp only [AreWords, State.words, Sha256.compress, force_eq, List.forall_mem_cons]
  exact ⟨hmod _, hmod _, hmod _, hmod _, hmod _, hmod _, hmod _, hmod _, List.forall_mem_nil _⟩

/-- `absorb`, with packed rounds. -/
def packedAbsorb : Nat → List Nat → State → State
  | 0, _, s => s
  | _, [], s => s
  | fuel + 1, ws, s => packedAbsorb fuel (ws.drop 16) (packedCompress s (ws.take 16))

theorem packedAbsorb_eq {fuel : Nat} {ws : List Nat} {s : State} (hs : AreWords s.words)
    (hws : AreWords ws) (hlen : 16 ∣ ws.length) : packedAbsorb fuel ws s = absorb fuel ws s := by
  induction fuel generalizing ws s with
  | zero => rfl
  | succ fuel ih =>
    cases ws with
    | nil => rfl
    | cons w ws =>
      obtain ⟨n, hn⟩ := hlen
      have hlong : 16 ≤ (w :: ws).length := by
        rw [List.length_cons] at hn ⊢
        omega
      have hblock : AreWords ((w :: ws).take 16) := fun x hx => hws x (List.mem_of_mem_take hx)
      have hrest : AreWords ((w :: ws).drop 16) := fun x hx => hws x (List.mem_of_mem_drop hx)
      have hblocks : 16 ∣ ((w :: ws).drop 16).length := by
        rw [List.length_drop, hn]
        exact ⟨n - 1, by omega⟩
      rw [packedAbsorb, absorb, packedCompress_eq hs hblock (List.length_take_of_le hlong)]
      · exact ih (.compress s _) hrest hblocks
      · exact List.cons_ne_nil _ _
      · exact List.cons_ne_nil _ _

/-! ## Digests -/

/-- `digest`, with packed rounds. -/
def packedDigest (message : List Nat) : List Nat :=
  (packedAbsorb (message.length + 2) (words (pad message)) State.initial).bytes

theorem areWords_words {bytes : List Nat} (h : ∀ b ∈ bytes, b < 256) : AreWords (words bytes) := by
  induction bytes using words.induct with
  | case1 a b c d rest ih =>
    simp only [List.forall_mem_cons] at h
    obtain ⟨ha, hb, hc, hd, hrest⟩ := h
    rw [words]
    refine List.forall_mem_cons.mpr ⟨?_, ih hrest⟩
    simp only [wordModulus]
    omega
  | case2 bytes hshort =>
    rw [words]
    · exact List.forall_mem_nil _
    · exact hshort

theorem words_length (bytes : List Nat) : (words bytes).length = bytes.length / 4 := by
  induction bytes using words.induct with
  | case1 a b c d rest ih =>
    rw [words, List.length_cons, ih]
    simp only [List.length_cons]
    omega
  | case2 bytes hshort =>
    have hlt : bytes.length < 4 := by
      match bytes, hshort with
      | [], _ | [_], _ | [_, _], _ | [_, _, _], _ =>
        simp only [List.length_cons, List.length_nil]
        omega
      | a :: b :: c :: d :: rest, h => exact absurd rfl (h a b c d rest)
    rw [words, List.length_nil, Nat.div_eq_of_lt hlt]
    exact hshort

/-- **The packed digest is the digest.** -/
theorem digest_eq_packed {message : List Nat} (h : ∀ b ∈ message, b < 256) :
    digest message = packedDigest message := by
  have hpad : ∀ b ∈ pad message, b < 256 := by
    intro b hb
    simp only [pad, List.mem_append, List.mem_cons, List.mem_replicate] at hb
    rcases hb with hb | rfl | ⟨-, rfl⟩ | hb
    · exact h b hb
    · decide
    · decide
    · exact lt_of_mem_bigEndian hb
  have hlen : 16 ∣ (words (pad message)).length := by
    rw [words_length]
    simp only [pad, List.length_append, List.length_cons, List.length_replicate, bigEndian_length]
    omega
  have hinitial : AreWords State.initial.words := by
    unfold AreWords
    decide
  rw [digest, packedDigest, packedAbsorb_eq hinitial (areWords_words hpad) hlen]

end FlopOffice.Lib.Sha256
