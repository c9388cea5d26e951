import Mathlib
import Spintax.Proofs.Cache.Exchanges

namespace Spintax.Cache

variable {f f' : Flat} {now n : Nat} {text : String} {k : Kept} {r : Request} {a : Answer}
  {x : Exchange} {log : List Exchange} {s : Session}

/-- The text that is used: one is found, or it has no fault and is found or kept. -/
def Request.use? : Request → Answer → Option String
  | .get text, .found (some _) => some text
  | .resolve text, .resolved (.ok _) => some text
  | _, _ => none

def uses (log : List Exchange) : List String :=
  log.filterMap fun x => x.request.use? x.answer

def sinceClear (log : List Exchange) : List Exchange :=
  log.rtakeWhile (·.request ≠ .clear)

/-- The last `n` of the texts that were used, each at the place of its last use. -/
def recent (n : Nat) (us : List String) : List String :=
  us.dedup.rtake n

namespace Session

def texts (s : Session) : List String :=
  s.cache.store.entries.map (·.2.text)

def isFresh (s : Session) : Bool :=
  s.cache.store.entries.all fun e => !e.2.isExpired s.cache.limits.maxAge s.now

end Session

theorem dedup_concat (us : List String) (t : String) :
    (us ++ [t]).dedup = us.dedup.filter (· ≠ t) ++ [t] := by
  induction us with
  | nil => rfl
  | cons u us ih =>
    rw [List.cons_append]
    by_cases hu : u ∈ us
    · rw [List.dedup_cons_of_mem (List.mem_append_left _ hu), List.dedup_cons_of_mem hu, ih]
    · rw [List.dedup_cons_of_notMem hu]
      by_cases hut : u = t
      · subst hut
        rw [List.dedup_cons_of_mem (List.mem_append_right _ (List.mem_singleton_self u)), ih,
          List.filter_cons_of_neg (by simp)]
      · have hnew : u ∉ us ++ [t] := by simp [hu, hut]
        rw [List.dedup_cons_of_notMem hnew, ih, List.filter_cons_of_pos (by simpa using hut),
          List.cons_append]

section Rtake

variable {α β : Type} {l l₁ l₂ : List α}

theorem rtake_of_length_le (h : l.length ≤ n) : l.rtake n = l := by
  rw [List.rtake, Nat.sub_eq_zero_of_le h, List.drop_zero]

theorem rtake_append_of_le (h : n ≤ l₂.length) : (l₁ ++ l₂).rtake n = l₂.rtake n := by
  rw [List.rtake, List.rtake, List.length_append, Nat.add_sub_assoc h, List.drop_append,
    List.drop_eq_nil_of_le (Nat.le_add_right _ _), List.nil_append, Nat.add_sub_cancel_left]

theorem map_rtake (g : α → β) (l : List α) (n : Nat) : (l.rtake n).map g = (l.map g).rtake n := by
  rw [List.rtake, List.rtake, List.map_drop, List.length_map]

theorem rtake_filter_ne [DecidableEq α] (hl : l.Nodup) (n : Nat) (t : α) :
    (l.filter (· ≠ t)).rtake n = ((l.rtake (n + 1)).filter (· ≠ t)).rtake n := by
  by_cases hlen : l.length ≤ n + 1
  · rw [rtake_of_length_le hlen]
  · have hsplit : l = l.rdrop (n + 1) ++ l.rtake (n + 1) := (List.take_append_drop _ l).symm
    have hlast : (l.rtake (n + 1)).length = n + 1 := by
      rw [List.rtake, List.length_drop]
      omega
    have hnodup : (l.rtake (n + 1)).Nodup := hl.sublist (List.drop_sublist _ l)
    have herase : (l.rtake (n + 1)).filter (· ≠ t) = (l.rtake (n + 1)).erase t := by
      rw [hnodup.erase_eq_filter]
      exact List.filter_congr fun b _ => by rw [Bool.eq_iff_iff]; simp
    have hle : n ≤ ((l.rtake (n + 1)).filter (· ≠ t)).length := by
      have hlen := List.le_length_erase (a := t) (l := l.rtake (n + 1))
      rw [herase]
      omega
    conv_lhs => rw [hsplit, List.filter_append, rtake_append_of_le hle]

end Rtake

theorem recent_nil (n : Nat) : recent n [] = [] := by
  rw [recent, List.dedup_nil, List.rtake_nil]

theorem recent_concat (hn : 0 < n) (us : List String) (t : String) :
    recent n (us ++ [t]) = ((recent n us).filter (· ≠ t) ++ [t]).rtake n := by
  obtain ⟨m, rfl⟩ := Nat.exists_eq_succ_of_ne_zero (Nat.ne_of_gt hn)
  rw [recent, recent, dedup_concat, List.rtake_concat_succ, List.rtake_concat_succ,
    rtake_filter_ne us.nodup_dedup]

namespace Flat

def texts (f : Flat) : List String :=
  f.kept.map Kept.text

theorem texts_others (f : Flat) (text : String) :
    (f.kept.filter (·.text ≠ text)).map Kept.text = f.texts.filter (· ≠ text) := by
  rw [texts, List.filter_map]
  rfl

theorem Insertion.kept_of_fresh (h : f.Insertion now k f')
    (hfresh : ∀ d ∈ f.kept, d.isExpired f.limits.maxAge now = false) :
    f'.kept = (f.kept ++ [k]).rtake f.limits.capacity := by
  have hroom := h.room
  cases h with
  | plain => exact (rtake_of_length_le hroom).symm
  | thin _ hold =>
    obtain ⟨d, hd, he⟩ := hold
    rw [hfresh d hd] at he
    cases he
  | @evict d ds h _ hk =>
    have hlen : (ds ++ [k]).length = f.limits.capacity := by
      rw [← h, hk, List.length_append, List.length_singleton, List.length_cons]
    calc ds ++ [k] = (ds ++ [k]).rtake f.limits.capacity := (rtake_of_length_le hroom).symm
      _ = ([d] ++ (ds ++ [k])).rtake f.limits.capacity := (rtake_append_of_le hlen.ge).symm
      _ = (f.kept ++ [k]).rtake f.limits.capacity := by rw [hk]; rfl

theorem Turn.sublist_of_use (h : f.Turn now r a f') (hu : r.use? a = some text) :
    f'.texts.Sublist (f.texts.filter (· ≠ text) ++ [text]) := by
  cases h with
  | found | reused =>
    cases hu
    rw [texts, use, List.map_append, texts_others]
    exact .refl _
  | parsed _ _ hi =>
    cases hu
    have hs := hi.sublist.map Kept.text
    rw [List.map_append] at hs
    rw [← texts_others]
    exact hs
  | missing | fault | purge | clear | pass => cases hu

theorem Turn.sublist_of_no_use (h : f.Turn now r a f') (hu : r.use? a = none) :
    f'.texts.Sublist f.texts := by
  cases h with
  | found | reused | parsed => cases hu
  | missing | fault | purge => exact List.filter_sublist.map _
  | clear => exact List.nil_sublist _
  | pass => exact .refl _

theorem Turn.texts_of_use (h : f.Turn now r a f') (hroom : f.kept.length ≤ f.limits.capacity)
    (hfresh : ∀ k ∈ f.kept, k.isExpired f.limits.maxAge now = false)
    (hu : r.use? a = some text) :
    f'.texts = (f.texts.filter (· ≠ text) ++ [text]).rtake f.limits.capacity := by
  have hroom' := h.room hroom
  rw [← texts_others]
  cases h with
  | @found k | @reused k =>
    cases hu
    rw [← rtake_of_length_le (l := (f.use k).texts) (n := f.limits.capacity)]
    · rw [texts, use, List.map_append]
      rfl
    · rwa [texts, List.length_map]
  | parsed _ _ hi =>
    cases hu
    have hfresh' : ∀ k ∈ (f.attempt text).kept, k.isExpired f.limits.maxAge now = false :=
      fun k hk => hfresh k (List.mem_filter.mp hk).1
    rw [texts, hi.kept_of_fresh hfresh', map_rtake, List.map_append]
    rfl
  | missing | fault | purge | clear | pass => cases hu

theorem ne_of_young (hl : ∀ k ∈ f.kept, k.text = text → k.isExpired f.limits.maxAge now = true)
    (hk : k ∈ f.kept) (hage : k.isExpired f.limits.maxAge now = false) : k.text ≠ text := by
  intro ht
  have hold := hl k hk ht
  rw [hage] at hold
  cases hold

theorem Turn.texts_of_no_use (h : f.Turn now r a f')
    (hfresh : ∀ k ∈ f.kept, k.isExpired f.limits.maxAge now = false)
    (hu : r.use? a = none) (hr : r ≠ .clear) : f'.texts = f.texts := by
  have hkeep : ∀ q : Kept → Bool, (∀ k ∈ f.kept, q k = true) →
      (f.kept.filter q).map Kept.text = f.texts := by
    intro q hq
    rw [List.filter_eq_self.mpr hq, texts]
  cases h with
  | found | reused | parsed => cases hu
  | @missing text hl | @fault text _ hl =>
    apply hkeep
    intro k hk
    rw [decide_eq_true_eq]
    exact ne_of_young hl hk (hfresh k hk)
  | purge =>
    apply hkeep
    simpa using hfresh
  | clear => exact absurd rfl hr
  | pass => rfl

theorem Turn.kept_of_clear (h : f.Turn now .clear a f') : f'.kept = [] := by
  cases h
  rfl

/-- Only a new template makes another one go, and only the first in the order. -/
theorem Turn.evicts (h : f.Turn now r a f') (hroom : f.kept.length ≤ f.limits.capacity)
    (he : f'.stats.evictions ≠ f.stats.evictions) :
    ∃ text p d ds, r = .resolve text ∧ a = .resolved (.ok p) ∧
      (∀ k ∈ f.kept, k.isExpired f.limits.maxAge now = false) ∧ f.kept = d :: ds ∧
      f'.kept = ds ++ [⟨text, p, now⟩] ∧ text ∉ f.texts ∧
      f'.stats.evictions = f.stats.evictions + 1 := by
  cases h with
  | @parsed text t _ hl hp hi =>
    cases hi with
    | plain | thin => exact absurd rfl he
    | @evict d ds hfull hfresh hk =>
      -- the store was full, so that the text had no entry of its own
      have hall : (f.attempt text).kept = f.kept :=
        List.filter_sublist.eq_of_length_le (hfull ▸ hroom)
      have hne : text ∉ f.texts := by
        rw [texts, ← hall, attempt, lack, texts_others, List.mem_filter]
        simp
      rw [hall] at hfresh hk
      exact ⟨text, _, d, ds, rfl, rfl, hfresh, hk, rfl, hne, rfl⟩
  | found | missing | reused | fault | purge | clear | pass => exact absurd rfl he

theorem Turn.stays (h : f.Turn now r a f') (he : f'.stats.evictions = f.stats.evictions)
    (hr : r ≠ .clear) (hk : k ∈ f.kept) (hage : k.isExpired f.limits.maxAge now = false) :
    k.text ∈ f'.texts := by
  have hyoung : (!k.isExpired f.limits.maxAge now) = true := by
    rw [hage]
    rfl
  have hothers : ∀ text, (∀ d ∈ f.kept, d.text = text → d.isExpired f.limits.maxAge now = true) →
      k ∈ f.kept.filter (·.text ≠ text) := by
    intro text hl
    rw [List.mem_filter, decide_eq_true_eq]
    exact ⟨hk, ne_of_young hl hk hage⟩
  cases h with
  | @found d hd | @reused d hd =>
    rw [texts, use, List.map_append, texts_others, List.mem_append, List.mem_filter]
    by_cases hkd : k.text = d.text
    · exact .inr (by simp [hkd])
    · exact .inl ⟨List.mem_map_of_mem hk, by simpa using hkd⟩
  | missing hl | fault hl => exact List.mem_map_of_mem (hothers _ hl)
  | parsed hl hp hi =>
    have hold := hothers _ hl
    cases hi with
    | plain => exact List.mem_map_of_mem (List.mem_append_left _ hold)
    | thin =>
      exact List.mem_map_of_mem (List.mem_append_left _ (List.mem_filter.mpr ⟨hold, hyoung⟩))
    | evict => simp [attempt, lack] at he
  | purge => exact List.mem_map_of_mem (List.mem_filter.mpr ⟨hk, hyoung⟩)
  | clear => exact absurd rfl hr
  | pass => exact List.mem_map_of_mem hk

end Flat

theorem uses_concat (log : List Exchange) (x : Exchange) :
    uses (log ++ [x]) = uses log ++ (x.request.use? x.answer).toList := by
  rw [uses, uses, List.filterMap_append, List.filterMap_cons]
  cases x.request.use? x.answer <;> rfl

namespace Refines

theorem perm_texts (h : Refines s.cache f) : s.texts.Perm f.texts := by
  have hp := h.entries.map Kept.text
  rwa [List.map_map] at hp

theorem isFresh_iff (h : Refines s.cache f) :
    s.isFresh = true ↔ ∀ k ∈ f.kept, k.isExpired f.limits.maxAge s.now = false := by
  have heq : s.isFresh = f.kept.all fun k => !k.isExpired f.limits.maxAge s.now := by
    rw [Session.isFresh, ← h.entries.all_eq, List.all_map, h.limits]
    rfl
  simp [heq]

end Refines

/-- The entries of a flat cache are in the order of their last use. As long as none was ever too
old, they are the last that were used. -/
structure Flat.Ranked (log : List Exchange) (f : Flat) : Prop where
  order : f.texts.Sublist (uses log).dedup
  last : (∀ x ∈ log, x.before.isFresh = true) →
    f.texts = recent f.limits.capacity (uses (sinceClear log))

theorem Flat.Ranked.exchange (h : f.Ranked log) (hx : x.Mirrors f f') :
    f'.Ranked (log ++ [x]) := by
  constructor
  · rw [uses_concat]
    cases hu : x.request.use? x.answer with
    | none =>
      rw [Option.toList_none, List.append_nil]
      exact (hx.turn.sublist_of_no_use hu).trans h.order
    | some text =>
      rw [Option.toList_some, dedup_concat]
      exact (hx.turn.sublist_of_use hu).trans ((h.order.filter _).append_right _)
  · intro hfresh
    have hlast := h.last fun y hy => hfresh y (List.mem_append_left _ hy)
    have hyoung := hx.before.isFresh_iff.mp (hfresh x (by simp))
    by_cases hr : x.request = .clear
    · have hturn := hx.turn
      rw [hr] at hturn
      rw [Flat.texts, hturn.kept_of_clear, sinceClear,
        List.rtakeWhile_concat_neg _ _ _ (by simp [hr])]
      exact (recent_nil _).symm
    · rw [sinceClear, List.rtakeWhile_concat_pos _ _ _ (by simpa using hr), uses_concat,
        hx.turn.limits]
      cases hu : x.request.use? x.answer with
      | none =>
        rw [Option.toList_none, List.append_nil, hx.turn.texts_of_no_use hyoung hu hr]
        exact hlast
      | some text =>
        rw [Option.toList_some, recent_concat f.limits.capacity_pos, ← sinceClear, ← hlast]
        exact hx.turn.texts_of_use hx.room hyoung hu

/-- One text had to go for a new one, when nothing that was kept was too old. All others that
were kept were used later than that one. -/
def Exchange.EvictsOldest (x : Exchange) (log : List Exchange) : Prop :=
  ∃ text p victim, x.request = .resolve text ∧ x.answer = .resolved (.ok p) ∧
    x.after.cache.stats.evictions = x.before.cache.stats.evictions + 1 ∧
    x.before.isFresh = true ∧ victim ∈ x.before.texts ∧ text ∉ x.before.texts ∧
    (∀ other ∈ x.before.texts, other ≠ victim → [victim, other].Sublist (uses log).dedup) ∧
    x.after.texts.Perm (text :: x.before.texts.erase victim)

theorem Exchange.Mirrors.evictsOldest (hx : x.Mirrors f f') (ho : f.texts.Sublist (uses log).dedup)
    (he : f'.stats.evictions ≠ f.stats.evictions) : x.EvictsOldest log := by
  obtain ⟨text, p, d, ds, hr, ha, hfresh, hk, hk', hnew, hone⟩ := hx.turn.evicts hx.room he
  have hbefore : x.before.texts.Perm (d.text :: ds.map Kept.text) := by
    have hp := hx.before.perm_texts
    rwa [Flat.texts, hk] at hp
  have hafter : x.after.texts.Perm (text :: ds.map Kept.text) := by
    have hp := hx.after.perm_texts
    rw [Flat.texts, hk', List.map_append] at hp
    exact hp.trans (List.perm_append_singleton text _)
  have hrest : (x.before.texts.erase d.text).Perm (ds.map Kept.text) := by
    have hp := hbefore.erase d.text
    rwa [List.erase_cons_head] at hp
  refine ⟨text, p, d.text, hr, ha, ?_, hx.before.isFresh_iff.mpr hfresh, ?_, ?_, ?_, ?_⟩
  · rw [hx.before.stats, hx.after.stats, hone]
  · exact hbefore.symm.subset List.mem_cons_self
  · exact fun hmem => hnew (hx.before.perm_texts.subset hmem)
  · intro other hother hne
    have hlater : other ∈ ds.map Kept.text := by
      obtain rfl | hlater := List.mem_cons.mp (hbefore.subset hother)
      · exact absurd rfl hne
      · exact hlater
    rw [Flat.texts, hk] at ho
    exact ((List.singleton_sublist.mpr hlater).cons_cons d.text).trans ho
  · exact hafter.trans (hrest.symm.cons text)

namespace Session

/-- As long as nothing is ever too old, those texts are kept that were used last since the cache
was cleared, as many as there is room for. Whatever is too old, an eviction takes the one whose
last use is the longest ago, and without an eviction or a request to clear nothing goes before
its time. To get or parse a text is to resolve it. -/
theorem evicts_least_recent (limits : Limits) (fp : String → UInt32) (rs : List (Order × Request)) :
    let s := (start limits fp).after rs
    let log := (start limits fp).log rs
    ((∀ x ∈ log, x.before.isFresh = true) →
      s.texts.Perm (recent limits.capacity (uses (sinceClear log)))) ∧
    ∀ r, let x := s.exchange r
      (x.after.cache.stats.evictions ≠ x.before.cache.stats.evictions → x.EvictsOldest log) ∧
      (x.after.cache.stats.evictions = x.before.cache.stats.evictions → x.request ≠ .clear →
        ∀ e ∈ x.before.cache.store.entries,
          e.2.isExpired limits.maxAge x.before.now = false → e.2.text ∈ x.after.texts) := by
  intro s log
  have hnew : (Flat.empty limits).Ranked [] := ⟨List.nil_sublist _, fun _ => (recent_nil _).symm⟩
  obtain ⟨f, (h : Refines s.cache f), hlimits, hroom, (hranked : f.Ranked log)⟩ :=
    follow (P := fun log f => f.Ranked log) limits fp hnew (fun _ _ _ _ hr hx => hr.exchange hx) rs
  constructor
  · intro hfresh
    rw [← hlimits, ← hranked.last hfresh]
    exact h.perm_texts
  · intro r x
    obtain ⟨f', (hx : x.Mirrors f f')⟩ := exists_mirrors h hroom r
    rw [hx.before.stats, hx.after.stats]
    constructor
    · exact hx.evictsOldest hranked.order
    · intro he hr e hmem hage
      rw [← hlimits] at hage
      have hk := hx.before.entries.subset (List.mem_map_of_mem hmem)
      exact hx.after.perm_texts.symm.subset (hx.turn.stays he hr hk hage)

theorem evicts_least_recent_two :
    let limits : Limits := ⟨2, 1000, by decide, by decide⟩
    let rs : List (Order × Request) :=
      [(.asKept, .resolve "a"), (.asKept, .resolve "b"), (.asKept, .get "a")]
    let s := (start limits fun _ => 0).after rs
    let log := (start limits fun _ => 0).log rs
    let x := s.exchange (.asKept, .resolve "c")
    (∀ y ∈ log, y.before.isFresh = true) ∧ s.texts.Perm ["b", "a"] ∧
      x.after.cache.stats.evictions ≠ x.before.cache.stats.evictions ∧ x.EvictsOldest log := by
  intro limits rs s log x
  obtain ⟨hlast, hnext⟩ := evicts_least_recent limits (fun _ => 0) rs
  have hfresh : ∀ y ∈ log, y.before.isFresh = true := List.all_eq_true.mp (by cbv)
  have hrecent : recent limits.capacity (uses (sinceClear log)) = ["b", "a"] := by cbv
  have he : x.after.cache.stats.evictions ≠ x.before.cache.stats.evictions := by cbv
  have hperm : s.texts.Perm ["b", "a"] := by
    rw [← hrecent]
    exact hlast hfresh
  have hx : x.EvictsOldest log := (hnext (.asKept, .resolve "c")).1 (by cbv)
  exact ⟨hfresh, hperm, he, hx⟩

end Session

end Spintax.Cache
