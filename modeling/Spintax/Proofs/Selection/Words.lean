import Mathlib
import Spintax.Proofs.Selection.Drawing

namespace Spintax

namespace Draw

variable {bound : UInt64}

theorem toNat_pos (h : bound ≠ 0) : 0 < bound.toNat :=
  UInt64.lt_iff_toNat_lt.mp (UInt64.pos_iff_ne_zero.mpr h)

theorem toNat_remainder_sum (h : bound ≠ 0) :
    (0xFFFFFFFFFFFFFFFF % bound + 1).toNat = (0xFFFFFFFFFFFFFFFF % bound).toNat + 1 := by
  have hlt : (0xFFFFFFFFFFFFFFFF % bound).toNat < bound.toNat :=
    UInt64.lt_iff_toNat_lt.mp (UInt64.mod_lt _ (UInt64.pos_iff_ne_zero.mpr h))
  have hbound := bound.toNat_lt
  rw [UInt64.toNat_add]
  exact Nat.mod_eq_of_lt (by rw [UInt64.toNat_one]; omega)

theorem toNat_remainder (h : bound ≠ 0) :
    (remainder bound).toNat = UInt64.size % bound.toNat := by
  have hmod : (0xFFFFFFFFFFFFFFFF % bound).toNat = (2 ^ 64 - 1) % bound.toNat := UInt64.toNat_mod ..
  rw [remainder, UInt64.toNat_mod, toNat_remainder_sum h, hmod, Nat.mod_add_mod]
  rfl

theorem accepts_iff (h : bound ≠ 0) (word : UInt64) :
    accepts bound word ↔ word.toNat < bound.toNat * (UInt64.size / bound.toNat) := by
  have hr := toNat_remainder h
  have hw := word.toNat_lt
  have hdiv := Nat.div_add_mod UInt64.size bound.toNat
  simp only [UInt64.size] at hr hdiv ⊢
  simp only [accepts, Bool.or_eq_true, decide_eq_true_eq, ← UInt64.toNat_inj,
    UInt64.lt_iff_toNat_lt, UInt64.toNat_sub, UInt64.toNat_zero, hr]
  generalize bound.toNat * (2 ^ 64 / bound.toNat) = k at *
  omega

theorem ncard_words {k : Nat} (hk : k ≤ UInt64.size) (P : Nat → Prop) [DecidablePred P] :
    {word : UInt64 | word.toNat < k ∧ P word.toNat}.ncard = Nat.count P k := by
  -- words are counted as numbers, since `Nat.count` is additive in its bound
  have himage : UInt64.toNat '' {word | word.toNat < k ∧ P word.toNat} =
      (((Finset.range k).filter P : Finset Nat) : Set Nat) := by
    ext n
    simp only [Set.mem_image, Set.mem_ofPred_eq, Finset.coe_filter, Finset.mem_range]
    constructor
    · rintro ⟨word, h, rfl⟩
      exact h
    · rintro ⟨hn, hp⟩
      have hword : (UInt64.ofNat n).toNat = n := by
        rw [UInt64.toNat_ofNat']
        exact Nat.mod_eq_of_lt (Nat.lt_of_lt_of_le hn hk)
      exact ⟨.ofNat n, by rw [hword]; exact ⟨hn, hp⟩, hword⟩
  rw [← Set.ncard_image_of_injective _ fun _ _ h => UInt64.toNat_inj.mp h, himage,
    Set.ncard_coe_finset, Nat.count_eq_card_filter_range]

theorem count_mod (n q : Nat) (P : Nat → Prop) [DecidablePred P] :
    Nat.count (fun v => P (v % n)) (n * q) = Nat.count P n * q := by
  induction q with
  | zero => simp
  | succ q ih =>
    have hround : Nat.count (fun k => P ((n * q + k) % n)) n = Nat.count P n := by
      simp only [Nat.count_eq_card_filter_range, Nat.mul_add_mod]
      congr 1
      refine Finset.filter_congr fun k hk => ?_
      rw [Nat.mod_eq_of_lt (Finset.mem_range.mp hk)]
    rw [Nat.mul_succ, Nat.count_add, ih, hround, Nat.mul_succ]

theorem count_interval {low high n : Nat} (h : high ≤ n) :
    Nat.count (fun v => low ≤ v ∧ v < high) n = high - low := by
  rw [Nat.count_eq_card_filter_range, ← Nat.card_Ico]
  congr 1
  ext v
  simp only [Finset.mem_filter, Finset.mem_range, Finset.mem_Ico]
  omega

/-- Among the accepted words every interval of results has its share. -/
theorem ncard_accepts (h : bound ≠ 0) (low : Nat) {high : Nat} (hhigh : high ≤ bound.toNat) :
    {word | accepts bound word ∧ low ≤ (word % bound).toNat ∧ (word % bound).toNat < high}.ncard =
      (high - low) * (UInt64.size / bound.toNat) := by
  have hle := Nat.mul_div_le UInt64.size bound.toNat
  have hcount := ncard_words hle fun v => low ≤ v % bound.toNat ∧ v % bound.toNat < high
  rw [count_mod _ _ fun v => low ≤ v ∧ v < high, count_interval hhigh] at hcount
  simp only [accepts_iff h, UInt64.toNat_mod]
  exact hcount

theorem ncard_accepts_pos (h : bound ≠ 0) : 0 < {word | accepts bound word}.ncard := by
  have hlt : ∀ word, (word % bound).toNat < bound.toNat := fun word =>
    UInt64.lt_iff_toNat_lt.mp (UInt64.mod_lt word (UInt64.pos_iff_ne_zero.mpr h))
  have hcard := ncard_accepts h 0 (Nat.le_refl _)
  simp only [hlt, Nat.zero_le, and_true, Nat.sub_zero] at hcard
  rw [hcard]
  exact Nat.mul_pos (toNat_pos h) (Nat.div_pos bound.toNat_lt.le (toNat_pos h))

theorem covers_unique {shares : List Nat} {n i j : Nat} (hi : (shares.take i).sum ≤ n)
    (hi' : n < (shares.take (i + 1)).sum) (hj : (shares.take j).sum ≤ n)
    (hj' : n < (shares.take (j + 1)).sum) : i = j := by
  obtain h | h | h := Nat.lt_trichotomy i j
  · have hle : (shares.take (i + 1)).sum ≤ (shares.take j).sum := List.monotone_sum_take shares h
    omega
  · exact h
  · have hle : (shares.take (j + 1)).sum ≤ (shares.take i).sum := List.monotone_sum_take shares h
    omega

theorem covering_eq_iff {weights : List UInt32} {target : UInt64} {i : Nat}
    (h : target.toNat < (weights.map UInt32.toNat).sum) : covering 0 target weights = i ↔
      ((weights.map UInt32.toNat).take i).sum ≤ target.toNat ∧
        target.toNat < ((weights.map UInt32.toNat).take (i + 1)).sum := by
  obtain ⟨k, hk, -, hlow, hhigh⟩ := covering_spec 0 target h
  rw [hk, Nat.zero_add]
  rw [List.map_take] at hlow hhigh
  constructor
  · rintro rfl
    exact ⟨hlow, hhigh⟩
  · rintro ⟨hlow', hhigh'⟩
    exact covers_unique hlow hhigh hlow' hhigh'

end Draw

namespace Shape

/-- What stays below this number is drawn for a group. -/
def bound (shape : Shape) : UInt64 :=
  match shape.weights with
  | some weights => Draw.total weights
  | none => .ofNat shape.branches

/-- The branch that an accepted word leads to. -/
def pick (shape : Shape) (word : UInt64) : Nat :=
  match shape.weights with
  | some weights => Draw.covering 0 (word % shape.bound) weights
  | none => (word % shape.bound).toNat

def branchAt (shape : Shape) (target : UInt64) : Nat :=
  match shape.weights with
  | some weights => Draw.covering 0 target weights
  | none => target.toNat

theorem pick_eq (shape : Shape) (word : UInt64) :
    shape.pick word = shape.branchAt (word % shape.bound) := by
  unfold pick branchAt
  cases shape.weights <;> rfl

def shares (shape : Shape) : List Nat :=
  match shape.weights with
  | some weights => weights.map UInt32.toNat
  | none => List.replicate shape.branches 1

variable {shape : Shape}

theorem sum_shares (shape : Shape) : shape.shares.sum = shape.total := by
  cases hw : shape.weights with
  | some weights => simp [shares, total, hw]
  | none => simp [shares, total, hw]

theorem length_shares (hs : shape.Sound) : shape.shares.length = shape.branches := by
  cases hw : shape.weights with
  | some weights => simp [shares, hw, hs.length weights hw]
  | none => simp [shares, hw]

theorem toNat_bound_eq_mod (shape : Shape) :
    shape.bound.toNat = shape.total % UInt64.size := by
  unfold bound total
  cases shape.weights with
  | some weights => exact Draw.toNat_total weights
  | none => exact UInt64.toNat_ofNat'

theorem toNat_bound (ht : shape.total < UInt64.size) : shape.bound.toNat = shape.total := by
  rw [toNat_bound_eq_mod, Nat.mod_eq_of_lt ht]

theorem bound_ne_zero (hs : shape.Sound) (ht : shape.total < UInt64.size) : shape.bound ≠ 0 := by
  intro h
  have hpos := hs.total_pos
  rw [← toNat_bound ht, h] at hpos
  exact Nat.lt_irrefl 0 hpos

theorem sum_take_le (shape : Shape) (i : Nat) : (shape.shares.take i).sum ≤ shape.total := by
  rw [← sum_shares]
  exact (List.take_sublist i _).sum_le_sum fun _ _ => Nat.zero_le _

theorem mod_bound_lt (hs : shape.Sound) (ht : shape.total < UInt64.size) (word : UInt64) :
    (word % shape.bound).toNat < shape.total := by
  rw [UInt64.toNat_mod, toNat_bound ht]
  exact Nat.mod_lt _ hs.total_pos

theorem pick_eq_iff (hs : shape.Sound) (ht : shape.total < UInt64.size) {word : UInt64}
    {i : Nat} : shape.pick word = i ↔
      (shape.shares.take i).sum ≤ (word % shape.bound).toNat ∧
        (word % shape.bound).toNat < (shape.shares.take (i + 1)).sum := by
  have hlt := mod_bound_lt hs ht word
  unfold pick shares
  cases hw : shape.weights with
  | some weights =>
    simp only [total, hw] at hlt ⊢
    exact Draw.covering_eq_iff hlt
  | none =>
    simp only [total, hw, List.take_replicate, List.sum_replicate, smul_eq_mul] at hlt ⊢
    omega

variable (hs : shape.Sound) (ht : shape.total < UInt64.size)

include hs ht

theorem ncard_accepts : {word | Draw.accepts shape.bound word}.ncard =
    shape.total * (UInt64.size / shape.total) := by
  have h := Draw.ncard_accepts (bound_ne_zero hs ht) 0 (Nat.le_refl _)
  simpa only [toNat_bound ht, mod_bound_lt hs ht, Nat.zero_le, and_true, Nat.sub_zero] using h

/-- Each branch has its share of the accepted words. -/
theorem ncard_pick {i : Nat} (hi : i < shape.shares.length) :
    {word | Draw.accepts shape.bound word ∧ shape.pick word = i}.ncard * shape.total =
      {word | Draw.accepts shape.bound word}.ncard * shape.shares[i] := by
  have hle : (shape.shares.take (i + 1)).sum ≤ shape.bound.toNat := by
    rw [toNat_bound ht]
    exact sum_take_le shape (i + 1)
  have h := Draw.ncard_accepts (bound_ne_zero hs ht) (shape.shares.take i).sum hle
  simp only [← pick_eq_iff hs ht] at h
  rw [h, ncard_accepts hs ht, List.sum_take_succ _ _ hi, Nat.add_sub_cancel_left,
    toNat_bound ht]
  ring

end Shape

theorem Path.drawBranch_eq (shape : Shape) : drawBranch shape =
    fun s => (Draw.uniform shape.bound s).map fun (target, s) => (shape.branchAt target, s) := by
  funext s
  unfold Shape.bound Shape.branchAt
  cases hw : shape.weights with
  | some weights => exact drawBranch_weighted hw s
  | none => exact drawBranch_even hw s

end Spintax
