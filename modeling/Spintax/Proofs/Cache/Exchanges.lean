import Mathlib.Data.List.Induction
import Spintax.Proofs.Cache.Refinement

namespace Spintax.Cache

/-- A request and its answer, with the cache and the time before and after. -/
structure Exchange where
  before : Session
  request : Request
  answer : Answer
  after : Session

namespace Session

def exchange (s : Session) (r : Order × Request) : Exchange :=
  let before := { s with cache := { s.cache with order := r.1 } }
  ⟨before, r.2, (before.step r.2).1, (before.step r.2).2⟩

def after (s : Session) : List (Order × Request) → Session
  | [] => s
  | r :: rs => (s.exchange r).after.after rs

def log (s : Session) : List (Order × Request) → List Exchange
  | [] => []
  | r :: rs => s.exchange r :: (s.exchange r).after.log rs

end Session

variable {f f' : Flat} {now n : Nat} {text : String} {k : Kept} {p : Parse} {r : Request}
  {a : Answer} {x : Exchange} {s : Session}

theorem Limits.not_isExpired (limits : Limits) (now : Nat) (text : String) (p : Parse) :
    Kept.isExpired limits.maxAge now ⟨text, p, now⟩ = false := by
  rw [Kept.isExpired, Nat.sub_self, decide_eq_false_iff_not, Nat.not_le]
  exact limits.maxAge_pos

namespace Flat

def use (f : Flat) (k : Kept) : Flat :=
  { f with
    kept := f.kept.filter (·.text ≠ k.text) ++ [k]
    stats := { f.stats with hits := f.stats.hits + 1 } }

/-- The cache after nothing was found for a text. If it had an entry, that one was too old. -/
def lack (f : Flat) (text : String) : Flat :=
  let others := f.kept.filter (·.text ≠ text)
  { f with
    kept := others
    stats := { f.stats with
      misses := f.stats.misses + 1
      expirations := f.stats.expirations + (f.kept.length - others.length) } }

def attempt (f : Flat) (text : String) : Flat :=
  { f.lack text with stats := { (f.lack text).stats with parses := f.stats.parses + 1 } }

/-- What it takes to keep a parse for a new text in a flat cache that is not too large. -/
inductive Insertion (f : Flat) (now : Nat) (k : Kept) : Flat → Prop
  | plain (h : f.kept.length < f.limits.capacity) :
      Insertion f now k { f with kept := f.kept ++ [k] }
  | thin (h : f.kept.length = f.limits.capacity)
      (hold : ∃ d ∈ f.kept, d.isExpired f.limits.maxAge now = true) :
      Insertion f now k
        { f with
          kept := f.kept.filter (fun d => !d.isExpired f.limits.maxAge now) ++ [k]
          stats := { f.stats with expirations := f.stats.expirations +
            (f.kept.filter (·.isExpired f.limits.maxAge now)).length } }
  | evict {d : Kept} {ds : List Kept} (h : f.kept.length = f.limits.capacity)
      (hfresh : ∀ d ∈ f.kept, d.isExpired f.limits.maxAge now = false) (hk : f.kept = d :: ds) :
      Insertion f now k
        { f with
          kept := ds ++ [k]
          stats := { f.stats with evictions := f.stats.evictions + 1 } }

theorem purge_concat (hk : k.isExpired f.limits.maxAge now = false) :
    (Flat.purge { f with kept := f.kept ++ [k] } now).2 =
      { f with
        kept := f.kept.filter (fun d => !d.isExpired f.limits.maxAge now) ++ [k]
        stats := { f.stats with expirations := f.stats.expirations +
          (f.kept.filter (·.isExpired f.limits.maxAge now)).length } } := by
  simp [purge, List.filter_append, hk]

theorem length_purge_lt (hold : ∃ d ∈ f.kept, d.isExpired f.limits.maxAge now = true) :
    (f.kept.filter fun d => !d.isExpired f.limits.maxAge now).length < f.kept.length := by
  rw [List.length_filter_lt_length_iff_exists]
  simpa using hold

theorem insertion (h : f.kept.length ≤ f.limits.capacity) (now : Nat) (text : String)
    (p : Parse) : f.Insertion now ⟨text, p, now⟩ (f.insert now text p) := by
  have hnew := f.limits.not_isExpired now text p
  have hlen : (f.kept ++ [(⟨text, p, now⟩ : Kept)]).length = f.kept.length + 1 := by simp
  rw [insert, fit, purge_concat hnew]
  simp only [hlen, evict]
  split
  · next hfull =>
    have heq : f.kept.length = f.limits.capacity := by omega
    by_cases hold : ∃ d ∈ f.kept, d.isExpired f.limits.maxAge now = true
    · have hlt := length_purge_lt hold
      have hzero : ((f.kept.filter fun d => !d.isExpired f.limits.maxAge now) ++
          [(⟨text, p, now⟩ : Kept)]).length - f.limits.capacity = 0 := by
        rw [List.length_append, List.length_singleton]
        omega
      rw [hzero]
      exact .thin heq hold
    · have hfresh : ∀ d ∈ f.kept, d.isExpired f.limits.maxAge now = false := by
        simpa using hold
      have hall : (f.kept.filter fun d => !d.isExpired f.limits.maxAge now) = f.kept := by
        rw [List.filter_eq_self]
        simpa using hfresh
      have hnone : f.kept.filter (·.isExpired f.limits.maxAge now) = [] := by
        rw [List.filter_eq_nil_iff]
        simpa using hfresh
      have hone : f.kept.length + 1 - f.limits.capacity = 1 := by omega
      obtain ⟨d, ds, hk⟩ : ∃ d ds, f.kept = d :: ds := by
        have hpos := f.limits.capacity_pos
        exact List.exists_cons_of_length_pos (by omega)
      rw [hall, hnone, hlen, hone]
      simp only [hk, List.cons_append, List.drop_one, List.tail_cons]
      exact .evict heq hfresh hk
  · exact .plain (by omega)

theorem Insertion.room (h : f.Insertion now k f') : f'.kept.length ≤ f'.limits.capacity := by
  cases h with
  | plain h =>
    simp only [List.length_append, List.length_singleton]
    omega
  | thin h hold =>
    have hlt := length_purge_lt hold
    simp only [List.length_append, List.length_singleton]
    omega
  | evict h _ hk =>
    rw [hk, List.length_cons] at h
    simp only [List.length_append, List.length_singleton]
    omega

theorem Insertion.sublist (h : f.Insertion now k f') : f'.kept.Sublist (f.kept ++ [k]) := by
  cases h with
  | plain => exact .refl _
  | thin => exact List.filter_sublist.append_right _
  | evict _ _ hk =>
    rw [hk]
    exact List.sublist_cons_self _ _

theorem Insertion.stats (h : f.Insertion now k f') :
    f'.stats.hits = f.stats.hits ∧ f'.stats.misses = f.stats.misses ∧
      f'.stats.parses = f.stats.parses := by
  cases h <;> exact ⟨rfl, rfl, rfl⟩

/-- What a request does to a flat cache. -/
inductive Turn (f : Flat) (now : Nat) : Request → Answer → Flat → Prop
  | found {k : Kept} (hk : k ∈ f.kept) (he : k.isExpired f.limits.maxAge now = false) :
      Turn f now (.get k.text) (.found (some k.parse)) (f.use k)
  | missing {text : String}
      (hl : ∀ k ∈ f.kept, k.text = text → k.isExpired f.limits.maxAge now = true) :
      Turn f now (.get text) (.found none) (f.lack text)
  | reused {k : Kept} (hk : k ∈ f.kept) (he : k.isExpired f.limits.maxAge now = false) :
      Turn f now (.resolve k.text) (.resolved (.ok k.parse)) (f.use k)
  | fault {text : String} {e : Fault}
      (hl : ∀ k ∈ f.kept, k.text = text → k.isExpired f.limits.maxAge now = true)
      (hp : Template.parse text = .error e) :
      Turn f now (.resolve text) (.resolved (.error e))
        { f.attempt text with stats := { (f.attempt text).stats with
            parseFailures := f.stats.parseFailures + 1 } }
  | parsed {text : String} {t : Template} {f' : Flat}
      (hl : ∀ k ∈ f.kept, k.text = text → k.isExpired f.limits.maxAge now = true)
      (hp : Template.parse text = .ok t)
      (hi : (f.attempt text).Insertion now ⟨text, ⟨f.stats.parses, t⟩, now⟩ f') :
      Turn f now (.resolve text) (.resolved (.ok ⟨f.stats.parses, t⟩)) f'
  | purge : Turn f now .purge (.purged (f.purge now).1) (f.purge now).2
  | clear : Turn f now .clear .done { f with kept := [] }
  | pass (ms : Nat) : Turn f now (.pass ms) .done f

theorem split_of_mem (hn : (f.kept.map Kept.text).Nodup) (hk : k ∈ f.kept) :
    ∃ l₁ l₂, f.kept = l₁ ++ k :: l₂ ∧ f.kept.filter (·.text ≠ k.text) = l₁ ++ l₂ := by
  obtain ⟨l₁, l₂, hl⟩ := List.append_of_mem hk
  refine ⟨l₁, l₂, hl, ?_⟩
  rw [hl, List.map_append, List.map_cons, List.nodup_middle, List.nodup_cons, ← List.map_append]
    at hn
  rw [hl, List.filter_append, List.filter_cons_of_neg (by simp), ← List.filter_append,
    List.filter_eq_self]
  intro d hd
  have hne : d.text ≠ k.text := fun heq => hn.1 (heq ▸ List.mem_map_of_mem hd)
  simpa using hne

theorem length_others (hn : (f.kept.map Kept.text).Nodup) (hk : k ∈ f.kept) :
    (f.kept.filter (·.text ≠ k.text)).length + 1 = f.kept.length := by
  obtain ⟨l₁, l₂, hl, hothers⟩ := split_of_mem hn hk
  rw [hothers, hl, List.length_append, List.length_append, List.length_cons, Nat.add_assoc]

theorem get_cases (hn : (f.kept.map Kept.text).Nodup) (now : Nat) (text : String) :
    (∃ k ∈ f.kept, k.text = text ∧ k.isExpired f.limits.maxAge now = false ∧
      f.get now text = (some k.parse, f.use k)) ∨
    ((∀ k ∈ f.kept, k.text = text → k.isExpired f.limits.maxAge now = true) ∧
      f.get now text = (none, f.lack text)) := by
  rw [get, lookup]
  cases hf : f.kept.find? (·.text = text) with
  | none =>
    have habs : ∀ k ∈ f.kept, k.text ≠ text := by simpa using hf
    have hall : f.kept.filter (·.text ≠ text) = f.kept := by
      rw [List.filter_eq_self]
      simpa using habs
    refine .inr ⟨fun k hk ht => absurd ht (habs k hk), ?_⟩
    simp only [lack, hall, Nat.sub_self, Nat.add_zero]
  | some k =>
    have hk : k ∈ f.kept := List.mem_of_find?_eq_some hf
    obtain rfl : k.text = text := by simpa using List.find?_some hf
    cases he : k.isExpired f.limits.maxAge now with
    | false =>
      refine .inl ⟨k, hk, rfl, he, ?_⟩
      simp only [he, Bool.false_eq_true, if_false, use]
    | true =>
      refine .inr ⟨fun d hd ht => ?_, ?_⟩
      · rw [List.inj_on_of_nodup_map hn hd hk ht, he]
      · have hone : f.kept.length - (f.kept.filter (·.text ≠ k.text)).length = 1 := by
          rw [← length_others hn hk, Nat.add_sub_cancel_left]
        simp only [he, if_true, lack, hone]

theorem turn_of_step {now' : Nat} (hn : (f.kept.map Kept.text).Nodup)
    (hroom : f.kept.length ≤ f.limits.capacity) (h : f.step now r = (a, now', f')) :
    f.Turn now r a f' := by
  cases r with
  | get text =>
    obtain ⟨k, hk, rfl, he, hget⟩ | ⟨hl, hget⟩ := get_cases hn now text
    · simp only [step, hget] at h
      cases h
      exact .found hk he
    · simp only [step, hget] at h
      cases h
      exact .missing hl
  | resolve text =>
    obtain ⟨k, hk, rfl, he, hget⟩ | ⟨hl, hget⟩ := get_cases hn now text
    · simp only [step, resolve, hget] at h
      cases h
      exact .reused hk he
    · simp only [step, resolve, hget, parse] at h
      cases hp : Template.parse text with
      | error e =>
        simp only [hp] at h
        cases h
        exact .fault hl hp
      | ok t =>
        simp only [hp] at h
        cases h
        have hle : (f.attempt text).kept.length ≤ (f.attempt text).limits.capacity :=
          Nat.le_trans (List.length_filter_le _ _) hroom
        exact .parsed hl hp (insertion hle now text _)
  | purge =>
    cases h
    exact .purge
  | clear =>
    cases h
    exact .clear
  | pass ms =>
    cases h
    exact .pass ms

theorem Turn.limits (h : f.Turn now r a f') : f'.limits = f.limits := by
  cases h with
  | parsed _ _ hi => cases hi <;> rfl
  | found | missing | reused | fault | purge | clear | pass => rfl

theorem Turn.room (h : f.Turn now r a f') (hroom : f.kept.length ≤ f.limits.capacity) :
    f'.kept.length ≤ f'.limits.capacity := by
  have hle : ∀ q : Kept → Bool, (f.kept.filter q).length ≤ f.limits.capacity :=
    fun q => Nat.le_trans (List.length_filter_le q f.kept) hroom
  cases h with
  | @found k hk | @reused k hk =>
    have hlt : (f.kept.filter (·.text ≠ k.text)).length < f.kept.length := by
      rw [List.length_filter_lt_length_iff_exists]
      exact ⟨k, hk, by simp⟩
    simp only [use, List.length_append, List.length_singleton]
    omega
  | missing | fault => exact hle _
  | parsed _ _ hi => exact hi.room
  | purge => exact hle _
  | clear => exact Nat.zero_le _
  | pass => exact hroom

end Flat

/-- A flat cache that is not too large takes part in the exchange. -/
structure Exchange.Mirrors (x : Exchange) (f f' : Flat) : Prop where
  before : Refines x.before.cache f
  after : Refines x.after.cache f'
  turn : f.Turn x.before.now x.request x.answer f'
  room : f.kept.length ≤ f.limits.capacity

namespace Session

theorem exists_mirrors (h : Refines s.cache f) (hroom : f.kept.length ≤ f.limits.capacity)
    (r : Order × Request) : ∃ f', (s.exchange r).Mirrors f f' := by
  have hbefore : Refines (s.exchange r).before.cache f := h.reorder r.1
  obtain ⟨a, s', f', hs, hf, hafter⟩ := hbefore.step r.2
  have ha : (s.exchange r).answer = a := congrArg Prod.fst hs
  have hs' : (s.exchange r).after = s' := congrArg Prod.snd hs
  refine ⟨f', hbefore, hs' ▸ hafter, ?_, hroom⟩
  rw [ha]
  exact Flat.turn_of_step h.texts hroom hf

theorem after_concat (s : Session) (rs : List (Order × Request)) (r : Order × Request) :
    s.after (rs ++ [r]) = ((s.after rs).exchange r).after := by
  induction rs generalizing s with
  | nil => rfl
  | cons r' rs ih => exact ih _

theorem log_concat (s : Session) (rs : List (Order × Request)) (r : Order × Request) :
    s.log (rs ++ [r]) = s.log rs ++ [(s.after rs).exchange r] := by
  induction rs generalizing s with
  | nil => rfl
  | cons r' rs ih => exact congrArg _ (ih _)

/-- What holds of a new cache and goes on to hold at each exchange holds of the whole history. -/
theorem follow {P : List Exchange → Flat → Prop} (limits : Limits) (fp : String → UInt32)
    (hstart : P [] (.empty limits))
    (hstep : ∀ log x f f', P log f → x.Mirrors f f' → P (log ++ [x]) f')
    (rs : List (Order × Request)) :
    ∃ f, Refines ((start limits fp).after rs).cache f ∧ f.limits = limits ∧
      f.kept.length ≤ f.limits.capacity ∧ P ((start limits fp).log rs) f := by
  induction rs using List.reverseRecOn with
  | nil => exact ⟨_, refines_empty limits fp, rfl, Nat.zero_le _, hstart⟩
  | append_singleton rs r ih =>
    obtain ⟨f, h, hlimits, hroom, hP⟩ := ih
    obtain ⟨f', hx⟩ := exists_mirrors h hroom r
    rw [after_concat, log_concat]
    exact ⟨f', hx.after, hx.turn.limits.trans hlimits, hx.turn.room hroom, hstep _ _ f f' hP hx⟩

end Session

end Spintax.Cache
