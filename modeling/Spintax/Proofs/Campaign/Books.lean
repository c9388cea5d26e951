import Mathlib
import Spintax.Campaign.Ledger
import Spintax.Proofs.Campaign.Tallies

namespace Spintax

variable {c : Choice} {s : Shard} {shards : List Shard} {l l' : Ledger}
  {ms ms' : List (List Choice)}

namespace Shard

theorem messages_foldl_merge (shards : List Shard) (s : Shard) :
    (shards.foldl merge s).messages = s.messages + (shards.map messages).sum := by
  induction shards generalizing s with
  | nil => rfl
  | cons t shards ih =>
    rw [List.foldl_cons, ih, List.map_cons, List.sum_cons, ← Nat.add_assoc]
    rfl

theorem ordered_foldl_merge (h : ∀ t ∈ shards, Tally.Ordered t.tally.entries)
    (hs : Tally.Ordered s.tally.entries) :
    Tally.Ordered (shards.foldl merge s).tally.entries := by
  induction shards generalizing s with
  | nil => exact hs
  | cons t shards ih =>
    obtain ⟨ht, h⟩ := List.forall_mem_cons.mp h
    exact ih h (s := s.merge t) (Tally.ordered_merge hs ht)

theorem count_foldl_merge (h : ∀ t ∈ shards, Tally.Ordered t.tally.entries)
    (hs : Tally.Ordered s.tally.entries) (c : Choice) :
    (shards.foldl merge s).tally.count c =
      s.tally.count c + (shards.map (·.tally.count c)).sum := by
  induction shards generalizing s with
  | nil => rfl
  | cons t shards ih =>
    obtain ⟨ht, h⟩ := List.forall_mem_cons.mp h
    have hmerge : (s.merge t).tally.count c = s.tally.count c + t.tally.count c :=
      Tally.count_merge hs ht c
    rw [List.foldl_cons, ih h (s := s.merge t) (Tally.ordered_merge hs ht), hmerge,
      List.map_cons, List.sum_cons, Nat.add_assoc]

end Shard

namespace Ledger

/-- The shards together have these messages, each of them once. -/
structure Holds (l : Ledger) (ms : List (List Choice)) : Prop where
  shards : l.shards.length = shardCount
  ordered : ∀ s ∈ l.shards, Tally.Ordered s.tally.entries
  messages : (l.shards.map Shard.messages).sum = ms.length
  counts : ∀ c, (l.shards.map (·.tally.count c)).sum = ms.flatten.count c

theorem holds_openAt (now : Timestamp) : (openAt now).Holds [] where
  shards := List.length_replicate
  ordered s hs := by
    rw [List.eq_of_mem_replicate hs]
    exact Tally.ordered_empty
  messages := by simp [openAt, Shard.empty]
  counts c := by simp [openAt, Shard.empty, Tally.empty, Tally.count]

namespace Holds

theorem enter (h : l.Holds ms) (writer : Nat) (cs : List Choice) :
    (l.enter writer cs).Holds (ms ++ [cs]) := by
  obtain ⟨hlen, hord, hmsg, hcount⟩ := h
  have hi : writer % shardCount < l.shards.length := by
    rw [hlen]
    exact Nat.mod_lt writer (by decide)
  obtain ⟨l₁, s, l₂, hl, -, hm⟩ := List.exists_of_modify (Shard.enter · cs) hi
  have hs : Tally.Ordered s.tally.entries := hord s (by simp [hl])
  refine ⟨?_, ?_, ?_, fun c => ?_⟩
  · rw [Ledger.enter, List.length_modify, hlen]
  · intro t ht
    rw [Ledger.enter, hm] at ht
    obtain ht | ht := List.mem_append.mp ht
    · exact hord t (by simp [hl, ht])
    · obtain rfl | ht := List.mem_cons.mp ht
      · exact Tally.ordered_addAll hs cs
      · exact hord t (by simp [hl, ht])
  · rw [hl] at hmsg
    rw [Ledger.enter, hm]
    simp only [List.map_append, List.map_cons, List.sum_append, List.sum_cons, Shard.enter,
      List.length_append, List.length_singleton] at hmsg ⊢
    omega
  · have hc := hcount c
    rw [hl] at hc
    rw [Ledger.enter, hm]
    simp only [List.map_append, List.map_cons, List.sum_append, List.sum_cons, Shard.enter,
      Tally.count_addAll hs, List.flatten_append, List.flatten_singleton,
      List.count_append] at hc ⊢
    omega

theorem messages_total (h : l.Holds ms) : l.total.messages = ms.length := by
  rw [total, Shard.messages_foldl_merge, h.messages]
  exact Nat.zero_add _

theorem ordered_total (h : l.Holds ms) : Tally.Ordered l.total.tally.entries :=
  Shard.ordered_foldl_merge h.ordered Tally.ordered_empty

theorem count_total (h : l.Holds ms) (c : Choice) :
    l.total.tally.count c = ms.flatten.count c := by
  rw [total, Shard.count_foldl_merge h.ordered Tally.ordered_empty, h.counts]
  exact Nat.zero_add _

/-- Neither the writers of the messages nor their order can be told from the sum. -/
theorem total_eq_of_perm (h : l.Holds ms) (h' : l'.Holds ms') (hp : ms.Perm ms') :
    l.total = l'.total := by
  have hmsg : l.total.messages = l'.total.messages := by
    rw [h.messages_total, h'.messages_total, hp.length_eq]
  have hentries : l.total.tally.entries = l'.total.tally.entries := by
    refine h.ordered_total.ext h'.ordered_total fun c => ?_
    change l.total.tally.count c = l'.total.tally.count c
    rw [h.count_total, h'.count_total]
    exact hp.flatten.count_eq c
  have hext : ∀ s t : Shard, s.messages = t.messages → s.tally.entries = t.tally.entries →
      s = t := by
    rintro ⟨n, ⟨es⟩⟩ ⟨m, ⟨fs⟩⟩ rfl rfl
    rfl
  exact hext _ _ hmsg hentries

end Holds

end Ledger

end Spintax
