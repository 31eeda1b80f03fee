import Mathlib.Data.BitVec

/-! # Leading bits, and words in memory

Bit vectors are read from the most significant bit on here, as addresses are. `Agree k x y` says that `x` and
`y` have the same first `k` bits. Masking the others out decides it (`agree_iff_mask`), and it can be decided
one window after the other (`agree_add`).

In memory a bit vector in network order starts with its most significant byte. A machine reads four bytes of
it as a word, in its own byte order; `hton` is the same change of order (`word_bytes`). It works bit by bit,
so that a masked comparison of two words has the same outcome on every machine (`hton_mask`). -/

namespace Snuffleupagus.Lib.LeadingBits

variable {w : ℕ}

/-! ### Leading bits -/

/-- The first `k` bits are the same. -/
def Agree (k : ℕ) (x y : BitVec w) : Prop := ∀ i < k, x.getMsbD i = y.getMsbD i

instance (k : ℕ) (x y : BitVec w) : Decidable (Agree k x y) := by
  unfold Agree; infer_instance

/-- The `len` bits from `start` on. -/
def window (x : BitVec w) (start len : ℕ) : BitVec len := x.extractLsb' (w - start - len) len

theorem getMsbD_window {x : BitVec w} {start len i : ℕ} (h : start + len ≤ w) (hi : i < len) :
    (window x start len).getMsbD i = x.getMsbD (start + i) := by
  unfold window
  rw [BitVec.getMsbD_extractLsb', decide_eq_true hi, decide_eq_true (by omega)]
  simp only [Bool.true_and]
  congr 1
  omega

theorem agree_zero (x y : BitVec w) : Agree 0 x y := fun i hi => absurd hi (Nat.not_lt_zero i)

theorem agree_self {x y : BitVec w} : Agree w x y ↔ x = y := by
  refine ⟨BitVec.eq_of_getMsbD_eq, ?_⟩
  rintro rfl i -
  rfl

/-- **One window after the other.** -/
theorem agree_add {x y : BitVec w} {start len k : ℕ} (h : start + len ≤ w) (hk : k ≤ len) :
    Agree (start + k) x y ↔ Agree start x y ∧ Agree k (window x start len) (window y start len) := by
  have hwindow : ∀ i < k, ((window x start len).getMsbD i = (window y start len).getMsbD i ↔
      x.getMsbD (start + i) = y.getMsbD (start + i)) := by
    intro i hi
    rw [getMsbD_window h (by omega), getMsbD_window h (by omega)]
  constructor
  · intro ha
    exact ⟨fun i hi => ha i (by omega), fun i hi => (hwindow i hi).mpr (ha (start + i) (by omega))⟩
  · rintro ⟨hs, hw⟩ i hi
    by_cases hlt : i < start
    · exact hs i hlt
    · have := (hwindow (i - start) (by omega)).mp (hw (i - start) (by omega))
      rwa [show start + (i - start) = i by omega] at this

/-- The same, for windows of one length that follow each other. -/
theorem agree_mul {x y : BitVec w} {len n : ℕ} (h : len * n ≤ w) :
    Agree (len * n) x y ↔ ∀ i < n, window x (len * i) len = window y (len * i) len := by
  induction n with
  | zero => simp [agree_zero]
  | succ n ih =>
    rw [Nat.mul_succ] at h ⊢
    rw [agree_add h le_rfl, ih (by omega), agree_self, Nat.forall_lt_succ_right]

/-- **Masking the other bits out.** -/
theorem agree_iff_mask {x y : BitVec w} {k : ℕ} (hk : k ≤ w) :
    Agree k x y ↔ (x ^^^ y) &&& (BitVec.allOnes w <<< (w - k)) = 0 := by
  have hbit : ∀ i < w, ((x ^^^ y) &&& (BitVec.allOnes w <<< (w - k))).getMsbD i =
      ((x.getMsbD i ^^ y.getMsbD i) && decide (i < k)) := by
    intro i hi
    rw [BitVec.getMsbD_and, BitVec.getMsbD_xor, BitVec.getMsbD_shiftLeft, BitVec.getMsbD_allOnes]
    congr 1
    exact decide_eq_decide.mpr (by omega)
  constructor
  · intro ha
    refine BitVec.eq_of_getMsbD_eq fun i hi => ?_
    rw [hbit i hi, BitVec.ofNat_eq_ofNat, BitVec.getMsbD_zero]
    by_cases hik : i < k
    · simp [ha i hik]
    · simp [hik]
  · intro hz i hi
    have h := hbit i (by omega)
    rw [hz, BitVec.ofNat_eq_ofNat, BitVec.getMsbD_zero, decide_eq_true hi, Bool.and_true] at h
    simpa using h.symm

/-! ### Words in memory -/

/-- Byte `i` of a bit vector in network order. -/
def byte (x : BitVec w) (i : ℕ) : BitVec 8 := window x (8 * i) 8

/-- The order in which a machine has the bytes of a word in memory. -/
inductive ByteOrder
  | little | big
  deriving DecidableEq

/-- The word a machine reads from four bytes. -/
def ByteOrder.word (o : ByteOrder) (b₀ b₁ b₂ b₃ : BitVec 8) : BitVec 32 :=
  match o with
  | .big => b₀ ++ b₁ ++ b₂ ++ b₃
  | .little => b₃ ++ b₂ ++ b₁ ++ b₀

/-- The word whose bytes lie in memory in network order. -/
def ByteOrder.hton (o : ByteOrder) (x : BitVec 32) : BitVec 32 :=
  o.word (byte x 0) (byte x 1) (byte x 2) (byte x 3)

/-- Where bit `i` of a word in memory stands in network order. -/
def ByteOrder.place (o : ByteOrder) (i : ℕ) : ℕ :=
  match o with
  | .big => i
  | .little => 8 * (3 - i / 8) + i % 8

section Words
variable {o : ByteOrder}

theorem place_lt {i : ℕ} (hi : i < 32) : o.place i < 32 := by
  cases o <;> simp only [ByteOrder.place] <;> omega

theorem place_place {i : ℕ} (hi : i < 32) : o.place (o.place i) = i := by
  cases o <;> simp only [ByteOrder.place]
  omega

/-- **The change of order moves bits.** -/
theorem getMsbD_hton {x : BitVec 32} {i : ℕ} (hi : i < 32) :
    (o.hton x).getMsbD i = x.getMsbD (o.place i) := by
  have hbyte : ∀ n < 4, ∀ j < 8, (byte x n).getMsbD j = x.getMsbD (8 * n + j) :=
    fun n hn j hj => getMsbD_window (by omega) hj
  unfold ByteOrder.hton ByteOrder.word ByteOrder.place
  cases o
  all_goals
    dsimp only
    rw [BitVec.getMsbD_append, BitVec.getMsbD_append, BitVec.getMsbD_append]
    split_ifs
  all_goals first
    | omega
    | rw [hbyte _ (by omega) _ (by omega)]
      congr 1
      omega

theorem hton_xor (x y : BitVec 32) : o.hton (x ^^^ y) = o.hton x ^^^ o.hton y := by
  refine BitVec.eq_of_getMsbD_eq fun i hi => ?_
  rw [BitVec.getMsbD_xor, getMsbD_hton hi, getMsbD_hton hi, getMsbD_hton hi, BitVec.getMsbD_xor]

theorem hton_and (x y : BitVec 32) : o.hton (x &&& y) = o.hton x &&& o.hton y := by
  refine BitVec.eq_of_getMsbD_eq fun i hi => ?_
  rw [BitVec.getMsbD_and, getMsbD_hton hi, getMsbD_hton hi, getMsbD_hton hi, BitVec.getMsbD_and]

theorem hton_eq_zero {x : BitVec 32} : o.hton x = 0 ↔ x = 0 := by
  constructor
  · intro h
    refine BitVec.eq_of_getMsbD_eq fun i hi => ?_
    have hbit := getMsbD_hton (o := o) (x := x) (place_lt (o := o) hi)
    rw [h, place_place hi] at hbit
    rw [← hbit]
    simp
  · rintro rfl
    refine BitVec.eq_of_getMsbD_eq fun i hi => ?_
    rw [getMsbD_hton hi]
    simp

/-- **A masked comparison of two words is the same on every machine.** -/
theorem hton_mask (x y mask : BitVec 32) :
    (o.hton x ^^^ o.hton y) &&& o.hton mask = 0 ↔ (x ^^^ y) &&& mask = 0 := by
  rw [← hton_xor, ← hton_and, hton_eq_zero]

/-- A window of four bytes, read as a word. -/
theorem word_bytes {x : BitVec w} {i : ℕ} (h : 32 * i + 32 ≤ w) :
    o.word (byte x (4 * i)) (byte x (4 * i + 1)) (byte x (4 * i + 2)) (byte x (4 * i + 3)) =
      o.hton (window x (32 * i) 32) := by
  have hbyte : ∀ n < 4, byte x (4 * i + n) = byte (window x (32 * i) 32) n := by
    intro n hn
    refine BitVec.eq_of_getMsbD_eq fun j hj => ?_
    unfold byte
    rw [getMsbD_window (by omega) hj, getMsbD_window (by omega) hj, getMsbD_window h (by omega)]
    congr 1
    omega
  unfold ByteOrder.hton
  rw [← hbyte 0 (by omega), ← hbyte 1 (by omega), ← hbyte 2 (by omega), ← hbyte 3 (by omega), add_zero]

end Words

end Snuffleupagus.Lib.LeadingBits
