import Mathlib.Logic.Relation
import Spintax.Cache.Session
import Spintax.Proofs.Cache.Buckets

namespace Spintax.Cache

open Relation

variable {fp : String → UInt32} {s s' : Store} {es : List Entry} {d e : Entry} {text : String}

theorem Entry.place_of_mem (hn : (es.map Entry.text).Nodup) (hd : ∃ d ∈ es, d.text = e.text) :
    e.place es = es.map fun d => if d.text = e.text then e else d := by
  induction es with
  | nil => simp at hd
  | cons d es ih =>
    rw [List.map_cons, List.nodup_cons] at hn
    rw [Entry.place, List.map_cons]
    by_cases ht : d.text = e.text
    · rw [if_pos ht, if_pos ht]
      have hkeep : ∀ d' ∈ es, d'.text ≠ e.text :=
        fun d' hd' heq => hn.1 (ht ▸ heq ▸ List.mem_map_of_mem hd')
      rw [List.map_congr_left fun d' hd' => if_neg (hkeep d' hd'), List.map_id']
    · obtain ⟨d', hd', hdt⟩ := hd
      obtain rfl | hd' := List.mem_cons.mp hd'
      · exact absurd hdt ht
      · rw [if_neg ht, if_neg ht, ih hn.2 ⟨d', hd', hdt⟩]

namespace Store

/-- What one look-up, one insertion or one removal does to a store. -/
inductive Change (fp : String → UInt32) : Store → Store → Prop
  | touch (s : Store) (text : String) (tick : Nat) : Change fp s (s.touch (fp text) text tick)
  | insert (s : Store) (e : Entry) : Change fp s (s.insert (fp e.text) e)
  | remove {s s' : Store} {key : UInt32} {text : String} (h : s.remove? key text = some s') :
      Change fp s s'
  | clear (s : Store) : Change fp s .empty

def Arises (fp : String → UInt32) (s : Store) : Prop :=
  ReflTransGen (Change fp) .empty s

namespace Holds

theorem size_entries (h : s.Holds fp es) : s.size = s.entries.length := by
  rw [h.size, ← h.entries.1.length_eq, List.length_map]

theorem cases_text (h : s.Holds fp es) (text : String) :
    (∃ d ds, d.text = text ∧ s.Holds fp (d :: ds)) ∨ ∀ e ∈ es, e.text ≠ text := by
  by_cases ht : ∃ d ∈ es, d.text = text
  · obtain ⟨d, hd, hdt⟩ := ht
    obtain ⟨l₁, l₂, rfl⟩ := List.append_of_mem hd
    exact .inl ⟨d, _, hdt, h.of_perm List.perm_middle⟩
  · exact .inr (by simpa using ht)

theorem touch_absent (h : s.Holds fp es) (ht : ∀ e ∈ es, e.text ≠ text) (tick : Nat) :
    (s.touch (fp text) text tick).Holds fp es := by
  have hkeep : (s.bucket (fp text)).map (fun e => if e.text = text then e.touch tick else e) =
      s.bucket (fp text) := by
    have hne : ∀ e ∈ s.bucket (fp text), e.text ≠ text :=
      fun e he => ht e ((h.split (fp text)).subset (List.mem_append_left _ he))
    rw [List.map_congr_left fun e he => if_neg (hne e he), List.map_id']
  refine h.alter (f := List.map _) ?_ ?_ h.texts h.size
  · rw [hkeep]
    exact fun e he => h.of_mem_bucket he
  · rw [hkeep]
    exact h.split (fp text)

theorem replace (h : s.Holds fp (d :: es)) (ht : d.text = e.text) :
    (s.insert (fp e.text) e).Holds fp (e :: es) := by
  let g (c : Entry) : Entry := if c.text = e.text then e else c
  have hkeep : ∀ ds : List Entry, (∀ c ∈ ds, c.text ≠ e.text) → ds.map g = ds := by
    intro ds hds
    exact (List.map_congr_left fun c hc => if_neg (hds c hc)).trans (List.map_id ds)
  have hp := h.split (fp e.text)
  have hplace : e.place (s.bucket (fp e.text)) = (s.bucket (fp e.text)).map g := by
    refine Entry.place_of_mem ?_ ⟨d, ?_, ht⟩
    · have hn := (hp.map Entry.text).nodup_iff.mpr h.texts
      rw [List.map_append] at hn
      exact hn.of_append_left
    · rw [← ht]
      exact h.bucket_cons.1
  have hsome : (s.find? (fp e.text) e.text).isSome := by
    rw [← ht, h.find?_eq_some]
    rfl
  have htexts : ((e :: es).map Entry.text).Nodup := by
    rw [List.map_cons, ← ht, ← List.map_cons]
    exact h.texts
  rw [Store.insert, if_pos hsome]
  refine h.alter (f := e.place) ?_ ?_ htexts h.size
  · rw [hplace]
    intro c hc
    obtain ⟨c', hc', rfl⟩ := List.mem_map.mp hc
    by_cases hct : c'.text = e.text
    · simp only [g, hct, if_true]
    · simp only [g, hct, if_false]
      exact h.of_mem_bucket hc'
  · have hp' := hp.map g
    rw [List.map_append, List.map_cons, hkeep es (ht ▸ h.notMem_texts),
      hkeep (s.elsewhere _)] at hp'
    · rw [hplace]
      simpa only [g, ht, if_true] using hp'
    · intro c hc heq
      exact h.of_mem_elsewhere hc (by rw [heq])

theorem of_remove? {key : UInt32} (h : s.Holds fp es) (hr : s.remove? key text = some s') :
    ∃ e ds, es.Perm (e :: ds) ∧ s'.Holds fp ds := by
  have hsome : (s.find? key text).isSome := by
    rw [remove?] at hr
    split at hr
    · assumption
    · cases hr
  obtain ⟨e, he⟩ := Option.isSome_iff_exists.mp hsome
  have hmem : e ∈ s.bucket key := List.mem_of_find?_eq_some he
  obtain rfl : e.text = text := by simpa using List.find?_some he
  obtain rfl : fp e.text = key := h.of_mem_bucket hmem
  have hes : e ∈ es := (h.split (fp e.text)).subset (List.mem_append_left _ hmem)
  obtain ⟨l₁, l₂, rfl⟩ := List.append_of_mem hes
  obtain ⟨s₁, hs₁, h₁⟩ := (h.of_perm List.perm_middle).remove?_eq_some
  cases hs₁.symm.trans hr
  exact ⟨e, _, List.perm_middle, h₁⟩

theorem change (h : s.Holds fp es) (hc : Change fp s s') : ∃ ds, s'.Holds fp ds := by
  cases hc with
  | touch text tick =>
    obtain ⟨d, ds, rfl, hd⟩ | ht := h.cases_text text
    · exact ⟨_, hd.touch tick⟩
    · exact ⟨_, h.touch_absent ht tick⟩
  | insert e =>
    obtain ⟨d, ds, ht, hd⟩ | ht := h.cases_text e.text
    · exact ⟨_, hd.replace ht⟩
    · exact ⟨_, h.insert ht⟩
  | remove hr =>
    obtain ⟨e, ds, -, hds⟩ := h.of_remove? hr
    exact ⟨ds, hds⟩
  | clear => exact ⟨[], .empty⟩

end Holds

theorem Arises.holds (h : s.Arises fp) : ∃ es, s.Holds fp es := by
  induction h with
  | refl => exact ⟨[], .empty⟩
  | tail _ hc ih =>
    obtain ⟨es, hes⟩ := ih
    exact hes.change hc

theorem Arises.size_of_remove? {key : UInt32} (h : s.Arises fp)
    (hr : s.remove? key text = some s') : s'.size + 1 = s.size := by
  obtain ⟨es, hes⟩ := h.holds
  obtain ⟨e, ds, hp, hds⟩ := hes.of_remove? hr
  rw [hes.size, hds.size, hp.length_eq, List.length_cons]

theorem removeAll_changes (ps : List (UInt32 × Entry)) (s : Store) :
    ReflTransGen (Change fp) s (removeAll ps s).2 := by
  induction ps generalizing s with
  | nil => exact .refl
  | cons p ps ih =>
    rw [removeAll]
    cases hr : s.remove? p.1 p.2.text with
    | none => exact ih s
    | some s' => exact (ReflTransGen.single (.remove hr)).trans (ih s')

end Store

/-- The store of one becomes that of the other, one change at a time. -/
structure Leads (c c' : Cache) : Prop where
  fingerprint : c'.fingerprint = c.fingerprint
  changes : ReflTransGen (Store.Change c.fingerprint) c.store c'.store

namespace Leads

variable {c c' c'' : Cache}

theorem of_same (hf : c'.fingerprint = c.fingerprint) (hs : c'.store = c.store) :
    Leads c c' where
  fingerprint := hf
  changes := by
    rw [hs]

theorem of_change (hf : c'.fingerprint = c.fingerprint)
    (hs : Store.Change c.fingerprint c.store c'.store) : Leads c c' :=
  ⟨hf, .single hs⟩

theorem trans (h : Leads c c') (h' : Leads c' c'') : Leads c c'' where
  fingerprint := h'.fingerprint.trans h.fingerprint
  changes := h.changes.trans (h.fingerprint ▸ h'.changes)

end Leads

variable (c : Cache) (now n : Nat)

theorem leads_lookup (text : String) : Leads c (c.lookup now text).2 := by
  rw [lookup]
  cases c.store.find? (c.fingerprint text) text with
  | none => exact .of_same rfl rfl
  | some e =>
    simp only
    split
    · cases hr : c.store.remove? (c.fingerprint text) text with
      | none => exact .of_same rfl rfl
      | some s => exact .of_change rfl (.remove hr)
    · exact .of_change rfl (.touch _ _ _)

theorem leads_purge : Leads c (c.purge now).2 := by
  rw [purge]
  simp only
  split <;> exact ⟨rfl, Store.removeAll_changes _ _⟩

theorem leads_evict? {c c' : Cache} (h : c.evict? = some c') : Leads c c' := by
  rw [evict?] at h
  split at h
  · cases h
  · obtain ⟨s, hr, rfl⟩ := Option.map_eq_some_iff.mp h
    exact .of_change rfl (.remove hr)

theorem leads_shrink : Leads c (shrink n c) := by
  induction n generalizing c with
  | zero => exact .of_same rfl rfl
  | succ n ih =>
    rw [shrink]
    cases he : c.evict? with
    | none => exact .of_same rfl rfl
    | some c' => exact (leads_evict? he).trans (ih c')

theorem leads_fit : Leads c (c.fit now) := by
  rw [fit]
  split
  · exact (leads_purge c now).trans (leads_shrink _ _)
  · exact .of_same rfl rfl

theorem leads_insert (text : String) (p : Parse) : Leads c (c.insert now text p) := by
  let e : Entry := ⟨text, p, now, c.ticks⟩
  have h : Leads c { c with
      store := c.store.insert (c.fingerprint text) e
      ticks := c.ticks + 1 } := .of_change rfl (.insert c.store e)
  rw [insert]
  split
  · exact h
  · exact (h.trans (leads_fit _ now)).trans (.of_same rfl rfl)

theorem leads_parseAndKeep (text : String) : Leads c (c.parseAndKeep now text).2 := by
  have h : Leads c (c.parse text).2 := by
    rw [parse]
    split <;> exact .of_same rfl rfl
  rw [parseAndKeep]
  split
  · next hp =>
    rw [hp] at h
    exact h.trans (leads_insert _ _ _ _)
  · next hp =>
    rw [hp] at h
    exact h

theorem leads_get (text : String) : Leads c (c.get now text).2 := by
  have h := leads_lookup c now text
  rw [get]
  split <;> next hl => rw [hl] at h; exact h.trans (.of_same rfl rfl)

theorem leads_lead (text : String) : Leads c (c.lead now text).2 := by
  have h := leads_lookup c now text
  rw [lead]
  split
  · next hl =>
    rw [hl] at h
    exact h
  · next hl =>
    rw [hl] at h
    exact h.trans (leads_parseAndKeep _ _ _)

theorem leads_resolve (text : String) : Leads c (c.resolve now text).2 := by
  have h := leads_get c now text
  rw [resolve]
  split
  · next hg =>
    rw [hg] at h
    exact h
  · next hg =>
    rw [hg] at h
    exact h.trans (leads_lead _ _ _)

theorem Session.leads_step (s : Session) (r : Request) : Leads s.cache (s.step r).2.cache := by
  cases r with
  | get text => exact leads_get s.cache s.now text
  | resolve text => exact leads_resolve s.cache s.now text
  | purge => exact leads_purge s.cache s.now
  | clear => exact .of_change rfl (.clear _)
  | pass ms => exact .of_same rfl rfl

end Spintax.Cache
