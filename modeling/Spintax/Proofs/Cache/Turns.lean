import Spintax.Cache.Flight
import Spintax.Entries

namespace Spintax.Cache

namespace Stage

def slot? : Stage → Option Nat
  | .leading k | .parsing k | .keeping k _ | .releasing k _ => some k
  | _ => none

/-- The flight that a caller leads, from the claim of the slot until it is published. -/
def leads? : Stage → Option Nat
  | .publishing k _ => some k
  | s => s.slot?

def flight? : Stage → Option Nat
  | .waiting k => some k
  | s => s.leads?

def outcome? : Stage → Option Outcome
  | .keeping _ p => some (.ok p)
  | .releasing _ r | .publishing _ r | .answered r => some r
  | _ => none

def asks : Stage → Nat
  | .asking => 1
  | _ => 0

def parses : Stage → Nat
  | .parsing _ => 1
  | _ => 0

end Stage

namespace Crowd

variable {w w' : Crowd} {now i j k : Nat} {x y : String} {s s' : Stage}

def At (w : Crowd) (i : Nat) (x : String) (s : Stage) : Prop :=
  w.callers[i]? = some ⟨x, s⟩

def Complete (w : Crowd) : Prop :=
  ∀ i x s, w.At i x s → ∃ r, s = .answered r

/-- `Turn w now x s w' s'`: in the crowd `w`, a caller that asks for `x` goes from stage `s`
to stage `s'`, and but for its stage the crowd becomes `w'`. -/
inductive Turn (w : Crowd) (now : Nat) (x : String) : Stage → Crowd → Stage → Prop
  | hit {p : Parse} {c : Cache} (h : w.cache.get now x = (some p, c)) :
      Turn w now x .asking { w with cache := c } (.answered (.ok p))
  | miss {c : Cache} (h : w.cache.get now x = (none, c)) :
      Turn w now x .asking { w with cache := c } .missed
  | join {k : Nat} (h : w.slots.lookup x = some k) :
      Turn w now x .missed { w with cache := w.cache.wait } (.waiting k)
  | claim (h : w.slots.lookup x = none) :
      Turn w now x .missed { w with slots := (x, w.flights) :: w.slots, flights := w.flights + 1 }
        (.leading w.flights)
  | receive {k : Nat} {r : Outcome} (h : w.published.lookup k = some r) :
      Turn w now x (.waiting k) w (.answered r)
  | find {k : Nat} {p : Parse} {c : Cache} (h : w.cache.lookup now x = (some p, c)) :
      Turn w now x (.leading k) { w with cache := c } (.releasing k (.ok p))
  | lack {k : Nat} {c : Cache} (h : w.cache.lookup now x = (none, c)) :
      Turn w now x (.leading k) { w with cache := c } (.parsing k)
  | parse {k : Nat} {p : Parse} {c : Cache} (h : w.cache.parse x = (.ok p, c)) :
      Turn w now x (.parsing k) { w with cache := c } (.keeping k p)
  | reject {k : Nat} {e : Fault} {c : Cache} (h : w.cache.parse x = (.error e, c)) :
      Turn w now x (.parsing k) { w with cache := c } (.releasing k (.error e))
  | keep {k : Nat} {p : Parse} :
      Turn w now x (.keeping k p) { w with cache := w.cache.insert now x p } (.releasing k (.ok p))
  | release {k : Nat} {r : Outcome} :
      Turn w now x (.releasing k r) { w with slots := w.slots.filter (· ≠ (x, k)) }
        (.publishing k r)
  | publish {k : Nat} {r : Outcome} :
      Turn w now x (.publishing k r) { w with published := (k, r) :: w.published } (.answered r)

theorem turn_of_stepFrom (h : w.stepFrom now i x s = some w') :
    ∃ w₁ s', Turn w now x s w₁ s' ∧ w' = w₁.move i s' := by
  cases s with
  | asking =>
    simp only [stepFrom] at h
    split at h <;> cases h
    · next hg => exact ⟨_, _, .hit hg, rfl⟩
    · next hg => exact ⟨_, _, .miss hg, rfl⟩
  | missed =>
    simp only [stepFrom] at h
    split at h <;> cases h
    · next hl => exact ⟨_, _, .join hl, rfl⟩
    · next hl => exact ⟨_, _, .claim hl, rfl⟩
  | waiting k =>
    obtain ⟨r, hr, rfl⟩ := Option.map_eq_some_iff.mp h
    exact ⟨_, _, .receive hr, rfl⟩
  | leading k =>
    simp only [stepFrom] at h
    split at h <;> cases h
    · next hl => exact ⟨_, _, .find hl, rfl⟩
    · next hl => exact ⟨_, _, .lack hl, rfl⟩
  | parsing k =>
    simp only [stepFrom] at h
    split at h <;> cases h
    · next hp => exact ⟨_, _, .parse hp, rfl⟩
    · next hp => exact ⟨_, _, .reject hp, rfl⟩
  | keeping k p =>
    cases h
    exact ⟨_, _, .keep, rfl⟩
  | releasing k r =>
    cases h
    exact ⟨_, _, .release, rfl⟩
  | publishing k r =>
    cases h
    exact ⟨_, _, .publish, rfl⟩
  | answered r => cases h

theorem turn_of_step (h : w.step now i = some w') :
    ∃ x s w₁ s', w.At i x s ∧ Turn w now x s w₁ s' ∧ w' = w₁.move i s' := by
  rw [step] at h
  split at h
  · next c hc =>
    obtain ⟨w₁, s', ht, hw⟩ := turn_of_stepFrom h
    exact ⟨c.text, c.stage, w₁, s', hc, ht, hw⟩
  · cases h

theorem Turn.callers (h : Turn w now x s w' s') : w'.callers = w.callers := by
  cases h <;> rfl

theorem Turn.at_move (h : Turn w now x s w' s') (hi : w.At i x s) {s₁ : Stage} :
    (w'.move i s').At j y s₁ ↔ (j = i ∧ y = x ∧ s₁ = s') ∨ (j ≠ i ∧ w.At j y s₁) := by
  rw [At, move, h.callers, List.getElem?_modify]
  by_cases hj : j = i
  · subst hj
    rw [At] at hi
    simp only [hi, if_true, Option.map_eq_map, Option.map_some, Option.some.injEq,
      Caller.mk.injEq, true_and, ne_eq, not_true, false_and, or_false]
    exact ⟨fun ⟨hy, hs⟩ => ⟨hy.symm, hs.symm⟩, fun ⟨hy, hs⟩ => ⟨hy.symm, hs.symm⟩⟩
  · simp [hj, Ne.symm hj, At]

theorem Turn.split (h : Turn w now x s w' s') (hi : w.At i x s) :
    ∃ l₁ l₂, w.callers = l₁ ++ ⟨x, s⟩ :: l₂ ∧ (w'.move i s').callers = l₁ ++ ⟨x, s'⟩ :: l₂ := by
  obtain ⟨hlt, hc⟩ := List.getElem?_eq_some_iff.mp hi
  obtain ⟨l₁, c, l₂, hl, rfl, hm⟩ :=
    List.exists_of_modify (fun c : Caller => { c with stage := s' }) hlt
  obtain rfl : c = ⟨x, s⟩ := by simpa [hl] using hc
  refine ⟨l₁, l₂, hl, ?_⟩
  rw [move, h.callers]
  exact hm

/-- What may happen to a crowd: a caller goes on, or somebody who asks for nothing purges or
clears the cache. The entries of the store may come to lie in another order. -/
inductive Event where
  | call (now i : Nat)
  | purge (now : Nat)
  | clear
  | reorder (order : Order)

def after (w : Crowd) : Event → Crowd
  | .call now i => (w.step now i).getD w
  | .purge now => { w with cache := (w.cache.purge now).2 }
  | .clear => { w with cache := w.cache.clear }
  | .reorder order => { w with cache := { w.cache with order } }

def follow (w : Crowd) (es : List Event) : Crowd :=
  es.foldl after w

def parseOf? (w : Crowd) : Event → Option (String × Outcome)
  | .call _ i =>
    match w.callers[i]? with
    | some ⟨x, .parsing _⟩ => some (x, (w.cache.parse x).1)
    | _ => none
  | _ => none

def parses (w : Crowd) : List Event → List (String × Outcome)
  | [] => []
  | e :: es => (w.parseOf? e).toList ++ (w.after e).parses es

theorem follow_append (w : Crowd) (es₁ es₂ : List Event) :
    w.follow (es₁ ++ es₂) = (w.follow es₁).follow es₂ :=
  List.foldl_append

theorem parseOf?_call (h : w.At i x s) :
    w.parseOf? (.call now i) = match s with
      | .parsing _ => some (x, (w.cache.parse x).1)
      | _ => none := by
  rw [parseOf?, show w.callers[i]? = _ from h]
  cases s <;> rfl

theorem parseOf?_purge : w.parseOf? (.purge now) = none := rfl

theorem parseOf?_clear : w.parseOf? .clear = none := rfl

theorem parseOf?_reorder (order : Order) : w.parseOf? (.reorder order) = none := rfl

theorem parseOf?_of_step (h : w.step now i = none) : w.parseOf? (.call now i) = none := by
  cases hc : w.callers[i]? with
  | none => rw [parseOf?, hc]
  | some c =>
    obtain ⟨x, s⟩ := c
    rw [parseOf?_call hc]
    cases s with
    | parsing k =>
      rw [step, hc] at h
      simp only [stepFrom] at h
      split at h <;> cases h
    | asking | missed | waiting | leading | keeping | releasing | publishing | answered => rfl

end Crowd

end Spintax.Cache
