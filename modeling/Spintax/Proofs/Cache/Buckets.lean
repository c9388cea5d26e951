import Mathlib.Data.List.Nodup
import Spintax.Cache.Store
import Spintax.Entries

namespace Spintax.Cache

theorem Entry.place_of_notMem {e : Entry} {es : List Entry} (h : ∀ d ∈ es, d.text ≠ e.text) :
    e.place es = es ++ [e] := by
  induction es with
  | nil => rfl
  | cons d es ih =>
    rw [Entry.place, if_neg (h d (by simp)), ih fun d hd => h d (by simp [hd])]
    rfl

theorem Entry.oldest?_ne_none (p : UInt32 × Entry) (ps : List (UInt32 × Entry)) :
    Entry.oldest? (p :: ps) ≠ none := by
  rw [Entry.oldest?]
  split
  · simp
  · split <;> simp

theorem Entry.oldest?_eq_some {ps : List (UInt32 × Entry)} {p : UInt32 × Entry}
    (h : Entry.oldest? ps = some p) : p ∈ ps ∧ ∀ q ∈ ps, p.2.lastUse ≤ q.2.lastUse := by
  induction ps generalizing p with
  | nil => simp [Entry.oldest?] at h
  | cons q ps ih =>
    rw [Entry.oldest?] at h
    cases ho : Entry.oldest? ps with
    | none =>
      have hps : ps = [] := by
        cases ps with
        | nil => rfl
        | cons r ps => exact absurd ho (Entry.oldest?_ne_none r ps)
      cases (by simpa [ho] using h : q = p)
      simp [hps]
    | some d =>
      obtain ⟨hd, hle⟩ := ih ho
      simp only [ho] at h
      by_cases hqd : q.2.lastUse ≤ d.2.lastUse
      · cases (by simpa [hqd] using h : q = p)
        exact ⟨by simp, by simpa using fun k r hr => Nat.le_trans hqd (hle (k, r) hr)⟩
      · cases (by simpa [hqd] using h : d = p)
        exact ⟨by simp [hd], by simpa using ⟨by omega, fun k r hr => hle (k, r) hr⟩⟩

namespace Store

variable {key : UInt32} {bs : List (UInt32 × List Entry)} {fp : String → UInt32}
  {s : Store} {es ds : List Entry} {text : String} {d e : Entry}

def all (s : Store) : List Entry :=
  s.buckets.flatMap (·.2)

def elsewhere (s : Store) (key : UInt32) : List Entry :=
  (s.buckets.filter (·.1 ≠ key)).flatMap (·.2)

/-- The store has these entries, in any order. Each is in the one bucket of its
fingerprint, no text has two, no bucket is empty, and the size is their number. -/
structure Holds (fp : String → UInt32) (s : Store) (es : List Entry) : Prop where
  keys : (s.buckets.map Prod.fst).Nodup
  filled : ∀ b ∈ s.buckets, b.2 ≠ []
  home : ∀ b ∈ s.buckets, ∀ e ∈ b.2, fp e.text = b.1
  perm : s.all.Perm es
  texts : (es.map Entry.text).Nodup
  size : s.size = es.length

theorem flatMap_keep (key : UInt32) (es : List Entry) : (keep key es).flatMap (·.2) = es := by
  cases es <;> simp [keep]

theorem mem_keep {b : UInt32 × List Entry} (h : b ∈ keep key es) : b = (key, es) ∧ es ≠ [] := by
  cases es with
  | nil => simp [keep] at h
  | cons e es => exact ⟨by simpa [keep] using h, by simp⟩

theorem filter_ne_of_notMem (h : key ∉ bs.map Prod.fst) : bs.filter (·.1 ≠ key) = bs := by
  rw [List.filter_eq_self]
  intro b hb
  have hne : b.1 ≠ key := fun hk => h (hk ▸ List.mem_map_of_mem hb)
  simpa using hne

theorem alter_perm (key : UInt32) (f : List Entry → List Entry) (hk : (bs.map Prod.fst).Nodup) :
    (alter key f bs).Perm (keep key (f ((bs.lookup key).getD [])) ++ bs.filter (·.1 ≠ key)) := by
  induction bs with
  | nil => simp [alter, List.lookup_nil]
  | cons b bs ih =>
    rw [List.map_cons, List.nodup_cons] at hk
    rw [alter, Entries.lookup_cons]
    by_cases hb : b.1 = key
    · subst hb
      rw [if_pos rfl, if_pos rfl, List.filter_cons_of_neg (by simp), filter_ne_of_notMem hk.1]
      exact .rfl
    · rw [if_neg hb, if_neg (Ne.symm hb), List.filter_cons_of_pos (by simpa using hb)]
      exact ((ih hk.2).cons b).trans List.perm_middle.symm

theorem alter_id (hb : ∀ b ∈ bs, b.2 ≠ []) : alter key id bs = bs := by
  induction bs with
  | nil => rfl
  | cons b bs ih =>
    rw [alter, ih fun c hc => hb c (by simp [hc])]
    split
    · next hk =>
      obtain ⟨k, es⟩ := b
      cases es with
      | nil => exact absurd rfl (hb (k, []) (by simp))
      | cons e es =>
        cases hk
        rfl
    · rfl

theorem all_alter (key : UInt32) (f : List Entry → List Entry)
    (hk : (s.buckets.map Prod.fst).Nodup) :
    ((alter key f s.buckets).flatMap (·.2)).Perm (f (s.bucket key) ++ s.elsewhere key) := by
  have h := (alter_perm key f hk).flatMap_right (·.2)
  rwa [List.flatMap_append, flatMap_keep] at h

namespace Holds

theorem of_perm (h : s.Holds fp es) (hp : es.Perm ds) : s.Holds fp ds where
  __ := h
  perm := h.perm.trans hp
  texts := (hp.map Entry.text).nodup_iff.mp h.texts
  size := h.size.trans hp.length_eq

theorem split (h : s.Holds fp es) (key : UInt32) :
    (s.bucket key ++ s.elsewhere key).Perm es := by
  have ha := all_alter key id h.keys
  rw [alter_id h.filled] at ha
  exact ha.symm.trans h.perm

theorem of_mem_bucket (h : s.Holds fp es) (he : e ∈ s.bucket key) : fp e.text = key := by
  have hb : (key, s.bucket key) ∈ s.buckets := by
    rw [bucket] at he ⊢
    cases hl : s.buckets.lookup key with
    | none => simp [hl] at he
    | some b =>
      obtain ⟨l₁, l₂, hbs, -⟩ := List.lookup_eq_some_iff.mp hl
      rw [hbs]
      simp
  exact h.home _ hb e he

theorem of_mem_elsewhere (h : s.Holds fp es) (he : e ∈ s.elsewhere key) : fp e.text ≠ key := by
  rw [elsewhere, List.mem_flatMap] at he
  obtain ⟨b, hb, heb⟩ := he
  rw [List.mem_filter] at hb
  have hne : b.1 ≠ key := by simpa using hb.2
  rwa [h.home b hb.1 e heb]

theorem alter (h : s.Holds fp es) {f : List Entry → List Entry} {n : Nat}
    (hf : ∀ e ∈ f (s.bucket key), fp e.text = key)
    (hp : (f (s.bucket key) ++ s.elsewhere key).Perm ds)
    (ht : (ds.map Entry.text).Nodup) (hn : n = ds.length) :
    (⟨Store.alter key f s.buckets, n⟩ : Store).Holds fp ds := by
  have ha := alter_perm key f h.keys
  have hmem : ∀ b ∈ Store.alter key f s.buckets,
      (b = (key, f (s.bucket key)) ∧ f (s.bucket key) ≠ []) ∨ b ∈ s.buckets := by
    intro b hb
    obtain hb | hb := List.mem_append.mp (ha.subset hb)
    · exact .inl (mem_keep hb)
    · exact .inr (List.mem_filter.mp hb).1
  refine ⟨?_, ?_, ?_, (all_alter key f h.keys).trans hp, ht, hn⟩
  · rw [(ha.map Prod.fst).nodup_iff, List.map_append, List.nodup_append]
    refine ⟨?_, h.keys.sublist (List.filter_sublist.map _), ?_⟩
    · cases f ((s.buckets.lookup key).getD []) <;> simp [keep]
    · intro k hk k' hk' heq
      obtain ⟨b, hb, rfl⟩ := List.mem_map.mp hk
      obtain ⟨b', hb', rfl⟩ := List.mem_map.mp hk'
      have hne : b'.1 ≠ key := by simpa using (List.mem_filter.mp hb').2
      exact hne (by rw [← heq, (mem_keep hb).1])
  · intro b hb
    obtain ⟨rfl, hne⟩ | hb := hmem b hb
    · exact hne
    · exact h.filled b hb
  · intro b hb e he
    obtain ⟨rfl, -⟩ | hb := hmem b hb
    · exact hf e he
    · exact h.home b hb e he

theorem empty : Store.empty.Holds fp [] := by
  constructor <;> simp [Store.empty, all]

theorem notMem_texts (h : s.Holds fp (e :: es)) : ∀ d ∈ es, d.text ≠ e.text := by
  have ht := h.texts
  rw [List.map_cons, List.nodup_cons] at ht
  exact fun d hd heq => ht.1 (heq ▸ List.mem_map_of_mem hd)

theorem bucket_cons (h : s.Holds fp (e :: es)) :
    e ∈ s.bucket (fp e.text) ∧ ∀ d ∈ s.bucket (fp e.text), d = e ∨ d.text ≠ e.text := by
  have hp := h.split (fp e.text)
  constructor
  · have he : e ∈ s.bucket (fp e.text) ++ s.elsewhere (fp e.text) := hp.symm.subset (by simp)
    obtain he | he := List.mem_append.mp he
    · exact he
    · exact absurd rfl (h.of_mem_elsewhere he)
  · intro d hd
    have hd' : d ∈ e :: es := hp.subset (by simp [hd])
    obtain hde | hde := List.mem_cons.mp hd'
    · exact .inl hde
    · exact .inr (h.notMem_texts d hde)

theorem find?_eq_some (h : s.Holds fp (e :: es)) : s.find? (fp e.text) e.text = some e := by
  obtain ⟨he, hb⟩ := h.bucket_cons
  rw [find?]
  cases hf : (s.bucket (fp e.text)).find? (·.text = e.text) with
  | none => simpa using List.find?_eq_none.mp hf e he
  | some d =>
    have hd : d.text = e.text := by simpa using List.find?_some hf
    obtain rfl | hne := hb d (List.mem_of_find?_eq_some hf)
    · rfl
    · exact absurd hd hne

theorem find?_eq_none (h : s.Holds fp es) (ht : ∀ e ∈ es, e.text ≠ text) :
    s.find? (fp text) text = none := by
  rw [find?, List.find?_eq_none]
  intro e he
  have hm : e ∈ es := (h.split (fp text)).subset (by simp [he])
  simpa using ht e hm

theorem remove?_eq_some (h : s.Holds fp (e :: es)) :
    ∃ s', s.remove? (fp e.text) e.text = some s' ∧ s'.Holds fp es := by
  refine ⟨_, by rw [remove?, h.find?_eq_some]; rfl, ?_⟩
  refine h.alter (fun d hd => h.of_mem_bucket (List.mem_filter.mp hd).1) ?_
    (h.texts.sublist ((List.sublist_cons_self e es).map _)) (by simp [h.size])
  have hkeep : ∀ ds : List Entry, (∀ d ∈ ds, d.text ≠ e.text) →
      ds.filter (·.text ≠ e.text) = ds := by
    intro ds hds
    rw [List.filter_eq_self]
    simpa using hds
  have hp := (h.split (fp e.text)).filter (·.text ≠ e.text)
  rw [List.filter_append, List.filter_cons_of_neg (by simp), hkeep es h.notMem_texts,
    hkeep (s.elsewhere _)] at hp
  · exact hp
  · intro d hd heq
    exact h.of_mem_elsewhere hd (by rw [heq])

theorem touch (h : s.Holds fp (e :: es)) (tick : Nat) :
    (s.touch (fp e.text) e.text tick).Holds fp (e.touch tick :: es) := by
  let g (d : Entry) : Entry := if d.text = e.text then d.touch tick else d
  have htext : ∀ d, (g d).text = d.text := by
    intro d
    by_cases hd : d.text = e.text <;> simp [g, hd, Entry.touch]
  have hkeep : ∀ ds : List Entry, (∀ d ∈ ds, d.text ≠ e.text) → ds.map g = ds := by
    intro ds hds
    exact (List.map_congr_left fun d hd => if_neg (hds d hd)).trans (List.map_id ds)
  refine h.alter (f := List.map g) ?_ ?_ (by simpa [Entry.touch] using h.texts)
    (by simpa using h.size)
  · intro d hd
    obtain ⟨d', hd', rfl⟩ := List.mem_map.mp hd
    rw [htext, h.of_mem_bucket hd']
  · have hp := (h.split (fp e.text)).map g
    rw [List.map_append, List.map_cons, hkeep es h.notMem_texts, hkeep (s.elsewhere _)] at hp
    · simpa [g] using hp
    · intro d hd heq
      exact h.of_mem_elsewhere hd (by rw [heq])

theorem insert (h : s.Holds fp es) (ht : ∀ d ∈ es, d.text ≠ e.text) :
    (s.insert (fp e.text) e).Holds fp (e :: es) := by
  have hb : ∀ d ∈ s.bucket (fp e.text), d.text ≠ e.text :=
    fun d hd => ht d ((h.split (fp e.text)).subset (by simp [hd]))
  rw [Store.insert, h.find?_eq_none ht]
  refine h.alter (f := e.place) ?_ ?_ ?_ (by simp [h.size])
  · rw [Entry.place_of_notMem hb]
    intro d hd
    obtain hd | hd := List.mem_append.mp hd
    · exact h.of_mem_bucket hd
    · rw [List.mem_singleton.mp hd]
  · rw [Entry.place_of_notMem hb, List.append_assoc]
    exact List.perm_middle.trans ((h.split (fp e.text)).cons e)
  · rw [List.map_cons, List.nodup_cons]
    refine ⟨fun hm => ?_, h.texts⟩
    obtain ⟨d, hd, heq⟩ := List.mem_map.mp hm
    exact ht d hd heq

theorem entries (h : s.Holds fp es) :
    (s.entries.map Prod.snd).Perm es ∧ ∀ p ∈ s.entries, p.1 = fp p.2.text := by
  constructor
  · have hall : s.entries.map Prod.snd = s.all := by
      simp [Store.entries, all, List.map_flatMap, Function.comp_def]
    rw [hall]
    exact h.perm
  · intro p hp
    obtain ⟨b, hb, hpb⟩ := List.mem_flatMap.mp hp
    obtain ⟨e, he, rfl⟩ := List.mem_map.mp hpb
    exact (h.home b hb e he).symm

theorem removeAll {ps : List (UInt32 × Entry)} (h : s.Holds fp (ps.map Prod.snd ++ es))
    (hfp : ∀ p ∈ ps, p.1 = fp p.2.text) :
    ∃ s', removeAll ps s = (ps.length, s') ∧ s'.Holds fp es := by
  induction ps generalizing s with
  | nil => exact ⟨s, rfl, h⟩
  | cons p ps ih =>
    obtain ⟨s₁, hs₁, h₁⟩ := Holds.remove?_eq_some (e := p.2) h
    obtain ⟨s₂, hs₂, h₂⟩ := ih h₁ fun q hq => hfp q (by simp [hq])
    refine ⟨s₂, ?_, h₂⟩
    rw [Store.removeAll, hfp p (by simp), hs₁]
    simp [hs₂]

end Holds

end Store

end Spintax.Cache
