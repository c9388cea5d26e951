import Mathlib.Algebra.GroupWithZero.Nat
import Spintax.Proofs.Result
import Spintax.Selection

namespace Spintax

/-- The weight of all branches together, without a bound. -/
def Shape.total (shape : Shape) : Nat :=
  match shape.weights with
  | some weights => (weights.map UInt32.toNat).sum
  | none => shape.branches

namespace Draw

/-- When the weights are laid end to end, `target` falls on the one at position `i`. -/
def Covers (weights : List UInt32) (target i : Nat) : Prop :=
  i < weights.length ∧ ((weights.take i).map UInt32.toNat).sum ≤ target ∧
    target < ((weights.take (i + 1)).map UInt32.toNat).sum

theorem accepted_eq_ranDry {bound : UInt64} {s : Supply} {e : DrawError}
    (h : accepted bound s = .error e) : e = .ranDry := by
  fun_induction accepted bound s with
  | case1 => cases h
  | case2 s hs word s' hacc ih => exact ih h
  | case3 => cases h; rfl

theorem uniform_eq_ok {bound i : UInt64} {s s' : Supply} (h : uniform bound s = .ok (i, s')) :
    i < bound := by
  unfold uniform at h
  split at h
  · cases h
  · next hb =>
    obtain ⟨⟨word, s₁⟩, -, hi⟩ := Result.map_eq_ok.mp h
    cases hi
    exact UInt64.mod_lt _ (UInt64.pos_iff_ne_zero.mpr hb)

theorem uniform_eq_error {bound : UInt64} {s : Supply} {e : DrawError}
    (h : uniform bound s = .error e) : e = .ranDry ∨ e = .noChoice ∧ bound = 0 := by
  unfold uniform at h
  split at h
  · next hb =>
    cases h
    exact .inr ⟨rfl, hb⟩
  · exact .inl (accepted_eq_ranDry (Result.map_eq_error.mp h))

theorem toNat_foldl (n : UInt64) (weights : List UInt32) :
    ((weights.map UInt32.toUInt64).foldl (· + ·) n).toNat =
      (n.toNat + (weights.map UInt32.toNat).sum) % UInt64.size := by
  induction weights generalizing n with
  | nil => simp [Nat.mod_eq_of_lt n.toNat_lt_size]
  | cons w ws ih => simp [ih, UInt64.size, Nat.add_assoc]

theorem toNat_total (weights : List UInt32) :
    (total weights).toNat = (weights.map UInt32.toNat).sum % UInt64.size := by
  simp [total, toNat_foldl]

theorem covering_spec {weights : List UInt32} (index : Nat) (target : UInt64)
    (h : target.toNat < (weights.map UInt32.toNat).sum) :
    ∃ i, covering index target weights = index + i ∧ Covers weights target.toNat i := by
  induction weights generalizing index target with
  | nil => simp at h
  | cons w ws ih =>
    rw [covering]
    by_cases hw : target < w.toUInt64
    · rw [if_pos hw]
      rw [UInt64.lt_iff_toNat_lt, UInt32.toNat_toUInt64] at hw
      exact ⟨0, rfl, by simp [Covers, hw]⟩
    · rw [if_neg hw]
      rw [UInt64.not_lt] at hw
      have hsub := UInt64.toNat_sub_of_le _ _ hw
      rw [UInt64.le_iff_toNat_le] at hw
      simp only [UInt32.toNat_toUInt64, List.map_cons, List.sum_cons] at hsub hw h
      obtain ⟨i, hi, hlen, hlow, hhigh⟩ := ih (index + 1) (target - w.toUInt64)
        (by omega)
      refine ⟨i + 1, by omega, by simpa using hlen, ?_, ?_⟩
      · simp only [List.take_succ_cons, List.map_cons, List.sum_cons]
        omega
      · rw [List.take_succ_cons]
        simp only [List.map_cons, List.sum_cons]
        omega

theorem sum_le (weights : List UInt32) :
    (weights.map UInt32.toNat).sum ≤ weights.length * (2 ^ 32 - 1) := by
  induction weights with
  | nil => simp
  | cons w ws ih =>
    have := w.toNat_lt
    simp only [List.map_cons, List.sum_cons, List.length_cons]
    omega

/-- A target below the sum in 64 bits is covered by one of the weights, so that the last
weight never has to stand in for a target beyond all of them. -/
theorem covers_of_uniform {weights : List UInt32} {target : UInt64} {s s' : Supply}
    (h : uniform (total weights) s = .ok (target, s')) :
    Covers weights target.toNat (covering 0 target weights) := by
  have hlt := UInt64.lt_iff_toNat_lt.mp (uniform_eq_ok h)
  rw [toNat_total] at hlt
  obtain ⟨i, hi, hc⟩ := covering_spec 0 target (Nat.lt_of_lt_of_le hlt (Nat.mod_le _ _))
  rw [hi, Nat.zero_add]
  exact hc

end Draw

/-- What every group of a template has: branches, and where one of them has a weight, a
positive weight for each. -/
structure Shape.Sound (shape : Shape) : Prop where
  branches : 2 ≤ shape.branches
  length : ∀ weights, shape.weights = some weights → weights.length = shape.branches
  pos : ∀ weights, shape.weights = some weights → ∀ w ∈ weights, 0 < w.toNat

theorem Shape.Sound.total_pos {shape : Shape} (h : shape.Sound) : 0 < shape.total := by
  have h2 := h.branches
  unfold total
  split
  · next weights hw =>
    have hlen := h.length weights hw
    have hpos := h.pos weights hw
    cases weights with
    | nil =>
      simp only [List.length_nil] at hlen
      omega
    | cons w ws =>
      have hw := hpos w (by simp)
      simp only [List.map_cons, List.sum_cons]
      omega
  · omega

namespace Path

theorem drawBranch_weighted {shape : Shape} {weights : List UInt32}
    (h : shape.weights = some weights) (s : Supply) :
    drawBranch shape s = Draw.weighted weights s := by
  simp [drawBranch, h]

theorem drawBranch_even {shape : Shape} (h : shape.weights = none) (s : Supply) :
    drawBranch shape s =
      (Draw.uniform (.ofNat shape.branches) s).map fun (i, s) => (i.toNat, s) := by
  simp [drawBranch, h]

theorem drawBranch_eq_ok {shape : Shape} {s s' : Supply} {i : Nat} (hs : shape.Sound)
    (h : drawBranch shape s = .ok (i, s')) : i < shape.branches := by
  cases hw : shape.weights with
  | some weights =>
    rw [drawBranch_weighted hw] at h
    obtain ⟨⟨target, s₁⟩, hu, hi⟩ := Result.map_eq_ok.mp h
    cases hi
    rw [← hs.length weights hw]
    exact (Draw.covers_of_uniform hu).1
  | none =>
    rw [drawBranch_even hw] at h
    obtain ⟨⟨word, s₁⟩, hu, hi⟩ := Result.map_eq_ok.mp h
    cases hi
    have hlt := UInt64.lt_iff_toNat_lt.mp (Draw.uniform_eq_ok hu)
    rw [UInt64.toNat_ofNat'] at hlt
    exact Nat.lt_of_lt_of_le hlt (Nat.mod_le _ _)

theorem drawBranch_eq_error {shape : Shape} {s : Supply} {e : DrawError}
    (h : drawBranch shape s = .error e) :
    e = .ranDry ∨ e = .noChoice ∧ UInt64.size ∣ shape.total := by
  cases hw : shape.weights with
  | some weights =>
    rw [drawBranch_weighted hw] at h
    have hu := Draw.uniform_eq_error (Result.map_eq_error.mp h)
    refine hu.imp_right fun ⟨he, hb⟩ => ⟨he, ?_⟩
    have hz := Draw.toNat_total weights
    rw [hb] at hz
    simp only [Shape.total, hw]
    exact Nat.dvd_of_mod_eq_zero hz.symm
  | none =>
    rw [drawBranch_even hw] at h
    have hu := Draw.uniform_eq_error (Result.map_eq_error.mp h)
    refine hu.imp_right fun ⟨he, hb⟩ => ⟨he, ?_⟩
    have hz := congrArg UInt64.toNat hb
    rw [UInt64.toNat_ofNat'] at hz
    simp only [Shape.total, hw]
    exact Nat.dvd_of_mod_eq_zero hz

/-- A path has one entry for each group, and each entry names a branch of its group. -/
theorem draw_eq_ok {shapes : List Shape} {s s' : Supply} {p : Path}
    (hs : ∀ shape ∈ shapes, shape.Sound) (h : draw shapes s = .ok (p, s')) :
    p.length = shapes.length ∧
      ∀ i (hp : i < p.length) (hg : i < shapes.length), p[i] < shapes[i].branches := by
  induction shapes generalizing s p with
  | nil =>
    cases h
    exact ⟨rfl, fun i hp => absurd hp (Nat.not_lt_zero i)⟩
  | cons shape shapes ih =>
    rw [draw] at h
    split at h
    · cases h
    · next i s₁ hi =>
      obtain ⟨⟨q, s₂⟩, hd, hp⟩ := Result.map_eq_ok.mp h
      cases hp
      obtain ⟨hlen, hfit⟩ := ih (fun shape' hm => hs shape' (by simp [hm])) hd
      refine ⟨by simp [hlen], ?_⟩
      rintro (_ | j) hp hg
      · exact drawBranch_eq_ok (hs shape (by simp)) hi
      · exact hfit j (by simpa using hp) (by simpa using hg)

theorem draw_eq_error {shapes : List Shape} {s : Supply} {e : DrawError}
    (h : draw shapes s = .error e) :
    e = .ranDry ∨ e = .noChoice ∧ ∃ shape ∈ shapes, UInt64.size ∣ shape.total := by
  induction shapes generalizing s with
  | nil => cases h
  | cons shape shapes ih =>
    rw [draw] at h
    split at h
    · next e' hi =>
      cases h
      exact (drawBranch_eq_error hi).imp_right fun ⟨he, hd⟩ => ⟨he, shape, by simp, hd⟩
    · next i s₁ hi =>
      refine (ih (Result.map_eq_error.mp h)).imp_right fun ⟨he, shape', hm, hd⟩ => ?_
      exact ⟨he, shape', List.mem_cons_of_mem _ hm, hd⟩

end Path

end Spintax
