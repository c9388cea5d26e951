import Spintax.Campaign.Desk
import Spintax.Proofs.Campaign.Conservation

namespace Spintax

namespace Shard

variable {s t : Shard} {shards shards' : List Shard} {ms : List (List Choice)}

/-- The shards together have these messages, each of them once. -/
structure Hold (shards : List Shard) (ms : List (List Choice)) : Prop where
  ordered : ∀ s ∈ shards, Tally.Ordered s.tally.entries
  messages : (shards.map Shard.messages).sum = ms.length
  counts : ∀ c, (shards.map (·.tally.count c)).sum = ms.flatten.count c

theorem hold_of_holds {l : Ledger} (h : l.Holds ms) :
    Hold (.empty :: l.shards) ms where
  ordered := List.forall_mem_cons.mpr ⟨Tally.ordered_empty, h.ordered⟩
  messages := by
    rw [List.map_cons, List.sum_cons, h.messages]
    exact Nat.zero_add _
  counts c := by
    rw [List.map_cons, List.sum_cons, h.counts]
    exact Nat.zero_add _

namespace Hold

theorem merge (h : Hold (s :: t :: shards) ms) : Hold (s.merge t :: shards) ms := by
  obtain ⟨hord, hmsg, hcount⟩ := h
  obtain ⟨hs, hord⟩ := List.forall_mem_cons.mp hord
  obtain ⟨ht, hord⟩ := List.forall_mem_cons.mp hord
  refine ⟨List.forall_mem_cons.mpr ⟨Tally.ordered_merge hs ht, hord⟩, ?_, fun c => ?_⟩
  · rw [← hmsg]
    simp [Shard.merge, Nat.add_assoc]
  · have hmerge : (s.merge t).tally.count c = s.tally.count c + t.tally.count c :=
      Tally.count_merge hs ht c
    rw [← hcount, List.map_cons, List.sum_cons, hmerge]
    simp [Nat.add_assoc]

theorem enter (h : Hold (shards ++ s :: shards') ms) (cs : List Choice) :
    Hold (shards ++ s.enter cs :: shards') (ms ++ [cs]) := by
  obtain ⟨hord, hmsg, hcount⟩ := h
  rw [List.forall_mem_append, List.forall_mem_cons] at hord
  obtain ⟨hl, hs, hr⟩ := hord
  refine ⟨?_, ?_, fun c => ?_⟩
  · rw [List.forall_mem_append, List.forall_mem_cons]
    exact ⟨hl, Tally.ordered_addAll hs cs, hr⟩
  · rw [List.length_append, List.length_singleton, ← hmsg]
    simp [Shard.enter]
    omega
  · have hadd : (s.enter cs).tally.count c = s.tally.count c + cs.count c :=
      Tally.count_addAll hs cs c
    rw [List.flatten_append, List.count_append, List.flatten_singleton, ← hcount]
    simp [hadd]
    omega

theorem tells (h : Hold [s] ms) (campaign : String) (openedAt now : Timestamp) :
    (Statistics.ofShard campaign s openedAt now).Tells ms := by
  obtain ⟨hord, hmsg, hcount⟩ := h
  refine Statistics.tells_ofShard (hord s List.mem_cons_self) ?_ (fun c => ?_) campaign openedAt now
  · simpa using hmsg
  · simpa using hcount c

theorem record {k : Nat} {l : Ledger} (h : Hold (s :: l.shards.drop k) ms)
    (hl : l.shards.length = Ledger.shardCount) (writer : Nat) (cs : List Choice) :
    ∃ new, new.Sublist [cs] ∧ Hold (s :: (l.enter writer cs).shards.drop k) (ms ++ new) := by
  rw [Ledger.enter]
  by_cases hk : writer % Ledger.shardCount < k
  · refine ⟨[], List.nil_sublist _, ?_⟩
    rw [List.drop_modify_of_lt _ _ _ _ hk, List.append_nil]
    exact h
  · refine ⟨[cs], List.Sublist.refl _, ?_⟩
    have hlt : writer % Ledger.shardCount < Ledger.shardCount := Nat.mod_lt _ (by decide)
    rw [List.drop_modify_of_ge _ _ _ _ (not_lt.mp hk)]
    obtain ⟨us, u, vs, hdrop, -, hmodify⟩ := List.exists_of_modify (Shard.enter · cs)
      (i := writer % Ledger.shardCount - k) (l := l.shards.drop k)
      (by rw [List.length_drop, hl]; omega)
    rw [hmodify]
    have h : Hold ((s :: us) ++ u :: vs) ms := by rwa [hdrop] at h
    exact h.enter cs

end Hold

end Shard

namespace Tracker

variable {campaign : String} {rs rs' : List Request}

theorem current_append (h : ∀ r ∈ rs', r.closes campaign = false) :
    current campaign (rs ++ rs') = current campaign rs ++ messages campaign rs' := by
  induction rs' generalizing rs with
  | nil => rw [List.append_nil, messages, List.filterMap_nil, List.append_nil]
  | cons r rs' ih =>
    obtain ⟨hr, h⟩ := List.forall_mem_cons.mp h
    have hcurrent : current campaign (rs ++ [r]) =
        current campaign rs ++ (r.message? campaign).toList := by
      rw [current_concat, hr]
      rfl
    rw [List.append_cons, ih h, hcurrent, messages_cons, List.append_assoc]

theorem current_reset_append (rs : List Request) (now : Timestamp) (rs' : List Request) :
    current campaign (rs ++ .reset now campaign :: rs') = current campaign rs' := by
  induction rs' using List.reverseRecOn with
  | nil =>
    rw [current_reset, if_pos rfl]
    rfl
  | append_singleton rs' r ih =>
    rw [← List.cons_append, ← List.append_assoc, current_concat, ih, ← current_concat]

end Tracker

namespace Desk

namespace Event

def request? : Event → Option Tracker.Request
  | record now writer campaign choices => some (.record now writer campaign choices)
  | reset now campaign => some (.reset now campaign)
  | snapshot _ | read _ _ => none

def message? (campaign : String) (e : Event) : Option (List Choice) :=
  e.request?.bind (·.message? campaign)

def closes (campaign : String) (e : Event) : Bool :=
  e.request?.any (·.closes campaign)

def reads (n : Nat) : Event → Bool
  | read _ k => k = n
  | _ => false

end Event

def requests (es : List Event) : List Tracker.Request :=
  es.filterMap Event.request?

def messages (campaign : String) (es : List Event) : List (List Choice) :=
  Tracker.messages campaign (requests es)

/-- The messages that are recorded for a campaign after its books were closed for the last
time. -/
def current (campaign : String) (es : List Event) : List (List Choice) :=
  Tracker.current campaign (requests es)

variable {d : Desk} {campaign : String} {n : Nat} {as bs : List Event} {e : Event}
  {ms : List (List Choice)} {now : Timestamp} {r : Reading} {l : Ledger}

theorem messages_cons (campaign : String) (e : Event) (es : List Event) :
    messages campaign (e :: es) = (e.message? campaign).toList ++ messages campaign es := by
  rw [messages, requests, List.filterMap_cons, Event.message?]
  cases he : e.request? with
  | none => rfl
  | some q => exact Tracker.messages_cons campaign q _

theorem messages_append (campaign : String) (as bs : List Event) :
    messages campaign (as ++ bs) = messages campaign as ++ messages campaign bs := by
  rw [messages, requests, List.filterMap_append]
  exact List.filterMap_append

theorem current_append (h : ∀ e ∈ bs, e.closes campaign = false) :
    current campaign (as ++ bs) = current campaign as ++ messages campaign bs := by
  rw [current, requests, List.filterMap_append]
  refine Tracker.current_append fun q hq => ?_
  obtain ⟨e, he, hq⟩ := List.mem_filterMap.mp hq
  simpa [Event.closes, hq] using h e he

theorem current_reset_append (as : List Event) (now : Timestamp) (bs : List Event) :
    current campaign (as ++ .reset now campaign :: bs) = current campaign bs := by
  rw [current, requests, List.filterMap_append, List.filterMap_cons]
  exact Tracker.current_reset_append _ now _

theorem after_append (as bs : List Event) (d : Desk) :
    after (as ++ bs) d = after bs (after as d) := by
  induction as generalizing d with
  | nil => rfl
  | cons e as ih => exact ih _

theorem tracker_step (d : Desk) (e : Event) :
    (d.step e).2.tracker = (e.request?.map fun q => (d.tracker.step q).2).getD d.tracker := by
  cases e with
  | record => rfl
  | read now n =>
    rw [step]
    split
    · split <;> rfl
    · rfl
  | snapshot campaign =>
    rw [step]
    split <;> rfl
  | reset now campaign =>
    rw [step]
    split
    · rfl
    · next h => simp [Event.request?, Tracker.step, Tracker.reset, Tracker.snapshot, h]

theorem tracker_after (es : List Event) (d : Desk) :
    (after es d).tracker = (Tracker.run (requests es) d.tracker).2 := by
  induction es generalizing d with
  | nil => rfl
  | cons e es ih =>
    rw [after, ih, tracker_step, requests, requests, List.filterMap_cons]
    cases e.request? <;> rfl

theorem accounts_after (es : List Event) :
    Tracker.Accounts (after es .empty).tracker (requests es) := by
  rw [tracker_after]
  exact Tracker.Accounts.empty.run _

/-- The messages are in the sum of the reading, or in the shards that are still to be read. -/
structure Gathers (d : Desk) (n : Nat) (r : Reading) (l : Ledger) (ms : List (List Choice)) :
    Prop where
  reading : d.readings[n]? = some r
  books : r.books d.tracker = some l
  shards : l.shards.length = Ledger.shardCount
  next : r.next ≤ Ledger.shardCount
  hold : Shard.Hold (r.sum :: l.shards.drop r.next) ms

def meanwhile (r : Reading) (es : List Event) : List (List Choice) :=
  if r.closed.isSome then []
  else messages r.campaign (es.takeWhile fun e => !e.closes r.campaign)

/-- What some events do to the reading with number `n`. Of the messages that are recorded meanwhile
it gets those that are `new` to it. -/
structure Goes (n : Nat) (r : Reading) (es : List Event) (r' : Reading)
    (new : List (List Choice)) : Prop where
  campaign : r'.campaign = r.campaign
  closed : r'.closed.isSome = (r.closed.isSome || es.any (·.closes r.campaign))
  next : r'.next = min Ledger.shardCount (r.next + es.countP (·.reads n))
  new : new.Sublist (meanwhile r es)

theorem Goes.cons {r r' r'' : Reading} {new new' : List (List Choice)}
    (h : Goes n r [e] r' new) (h' : Goes n r' bs r'' new') :
    Goes n r (e :: bs) r'' (new ++ new') := by
  obtain ⟨hcampaign, hclosed, hnext, hnew⟩ := h
  obtain ⟨hcampaign', hclosed', hnext', hnew'⟩ := h'
  refine ⟨hcampaign'.trans hcampaign, ?_, ?_, ?_⟩
  · rw [hclosed', hclosed, hcampaign]
    simp [Bool.or_assoc]
  · have hcount : ([e] ++ bs).countP (·.reads n) =
        [e].countP (·.reads n) + bs.countP (·.reads n) := List.countP_append
    rw [List.singleton_append] at hcount
    rw [hnext', hnext, hcount]
    omega
  · have hmeanwhile : meanwhile r (e :: bs) = meanwhile r [e] ++ meanwhile r' bs := by
      rw [meanwhile, meanwhile, meanwhile, hclosed, hcampaign]
      cases hsome : r.closed.isSome with
      | true => rfl
      | false =>
        cases he : e.closes r.campaign with
        | true => simp [he, messages, requests, Tracker.messages]
        | false =>
          simp only [List.takeWhile_cons, List.takeWhile_nil, he, Bool.not_false, if_true,
            List.any_cons, List.any_nil, Bool.or_false, Bool.false_eq_true, if_false]
          rw [← messages_append]
          rfl
    rw [hmeanwhile]
    exact hnew.append hnew'

theorem gathers_snapshot (hl : d.tracker.ledger? campaign = some l) (h : l.Holds ms) :
    (d.step (.snapshot campaign)).2.Gathers d.readings.length (.start campaign none) l ms := by
  simp only [step, hl]
  exact ⟨by simp, hl, h.shards, Nat.zero_le _, Shard.hold_of_holds h⟩

theorem gathers_reset (hl : d.tracker.ledger? campaign = some l) (h : l.Holds ms) :
    (d.step (.reset now campaign)).2.Gathers d.readings.length (.start campaign (some l)) l ms := by
  simp only [step, hl]
  exact ⟨by simp, rfl, h.shards, Nat.zero_le _, Shard.hold_of_holds h⟩

namespace Gathers

theorem step_record (h : d.Gathers n r l ms) (now : Timestamp) (writer : Nat) (c : String)
    (cs : List Choice) :
    ∃ l' new, (d.step (.record now writer c cs)).2.Gathers n r l' (ms ++ new) ∧
      Goes n r [.record now writer c cs] r new := by
  obtain ⟨hr, hbooks, hl, hnext, hhold⟩ := h
  have hgoes : ∀ {new : List (List Choice)},
      new.Sublist (meanwhile r [.record now writer c cs]) →
        Goes n r [.record now writer c cs] r new := by
    intro new hnew
    exact ⟨rfl, by simp [Event.closes, Event.request?, Tracker.Request.closes],
      by simpa [Event.reads] using hnext, hnew⟩
  cases hclosed : r.closed with
  | some l' =>
    rw [Reading.books, hclosed, Option.some_or] at hbooks
    refine ⟨l, [], ⟨hr, ?_, hl, hnext, by rwa [List.append_nil]⟩, hgoes (List.nil_sublist _)⟩
    rw [Reading.books, hclosed, Option.some_or, hbooks]
  | none =>
    rw [Reading.books, hclosed, Option.none_or] at hbooks
    by_cases hc : r.campaign = c
    · subst hc
      obtain ⟨new, hnew, hhold⟩ := hhold.record hl writer cs
      refine ⟨l.enter writer cs, new, ⟨hr, ?_, ?_, hnext, hhold⟩, hgoes ?_⟩
      · simp only [Reading.books, hclosed, Option.none_or, step]
        rw [Tracker.ledger?_record, if_pos rfl, hbooks]
        rfl
      · rw [Ledger.enter, List.length_modify, hl]
      · simpa [meanwhile, hclosed, Event.closes, Event.request?, Tracker.Request.closes, messages,
          requests, Tracker.messages, Tracker.Request.message?] using hnew
    · refine ⟨l, [], ⟨hr, ?_, hl, hnext, by rwa [List.append_nil]⟩, hgoes (List.nil_sublist _)⟩
      simp only [Reading.books, hclosed, Option.none_or, step]
      rw [Tracker.ledger?_record, if_neg hc, hbooks]

theorem step_snapshot (h : d.Gathers n r l ms) (c : String) :
    (d.step (.snapshot c)).2.Gathers n r l ms := by
  obtain ⟨hr, hbooks, hl, hnext, hhold⟩ := h
  rw [step]
  split
  · refine ⟨?_, hbooks, hl, hnext, hhold⟩
    rw [List.getElem?_append_left (List.getElem?_eq_some_iff.mp hr).1]
    exact hr
  · exact ⟨hr, hbooks, hl, hnext, hhold⟩

theorem step_reset (h : d.Gathers n r l ms) (now : Timestamp) (c : String) :
    ∃ r', (d.step (.reset now c)).2.Gathers n r' l ms ∧ Goes n r [.reset now c] r' [] := by
  obtain ⟨hr, hbooks, hl, hnext, hhold⟩ := h
  have hnext' : r.next = min Ledger.shardCount (r.next + 0) := (Nat.min_eq_right hnext).symm
  have hcloses : [Event.reset now c].any (·.closes r.campaign) = decide (r.campaign = c) := by
    simp [Event.closes, Event.request?, Tracker.Request.closes, eq_comm]
  rw [step]
  split
  · next l' hl' =>
    have hkept : ∀ r' : Reading, r.close c l' = r' →
        (d.readings.map (.close c l') ++ [.start c (some l')])[n]? = some r' := by
      rintro r' rfl
      rw [List.getElem?_append_left (by simpa using (List.getElem?_eq_some_iff.mp hr).1),
        List.getElem?_map, hr]
      rfl
    by_cases hc : r.campaign = c
    · refine ⟨{ r with closed := r.closed.or (some l') },
        ⟨hkept _ (if_pos hc), ?_, hl, hnext, hhold⟩,
        rfl, ?_, hnext', List.nil_sublist _⟩
      · rw [Reading.books, hc, hl'] at hbooks
        simp only [Reading.books, hbooks, Option.some_or]
      · rw [hcloses, decide_eq_true hc]
        cases r.closed <;> rfl
    · refine ⟨r, ⟨hkept _ (if_neg hc), ?_, hl, hnext, hhold⟩, rfl, ?_, hnext', List.nil_sublist _⟩
      · rw [Reading.books, Tracker.ledger?_reset, if_neg hc]
        exact hbooks
      · rw [hcloses, decide_eq_false hc, Bool.or_false]
  · next hnone =>
    refine ⟨r, ⟨hr, hbooks, hl, hnext, hhold⟩, rfl, ?_, hnext', List.nil_sublist _⟩
    rw [hcloses]
    by_cases hc : r.campaign = c
    · rw [Reading.books, hc, hnone, Option.or_none] at hbooks
      simp [hbooks]
    · simp [hc]

theorem read_hold (hl : l.shards.length = Ledger.shardCount) (hnext : r.next ≤ Ledger.shardCount)
    (hhold : Shard.Hold (r.sum :: l.shards.drop r.next) ms) (now : Timestamp) :
    (r.read l now).2.campaign = r.campaign ∧ (r.read l now).2.closed = r.closed ∧
      (r.read l now).2.next = min Ledger.shardCount (r.next + 1) ∧
      Shard.Hold ((r.read l now).2.sum :: l.shards.drop (r.read l now).2.next) ms := by
  rw [Reading.read]
  cases hs : l.shards[r.next]? with
  | none =>
    have hle : l.shards.length ≤ r.next := List.getElem?_eq_none_iff.mp hs
    refine ⟨rfl, rfl, ?_, hhold⟩
    simp only
    omega
  | some t =>
    obtain ⟨hlt, ht⟩ := List.getElem?_eq_some_iff.mp hs
    rw [List.drop_eq_getElem_cons hlt, ht] at hhold
    refine ⟨rfl, rfl, ?_, hhold.merge⟩
    simp only
    omega

theorem step_read_other {k : Nat} (h : d.Gathers n r l ms) (hk : k ≠ n) :
    (d.step (.read now k)).2.Gathers n r l ms := by
  obtain ⟨hr, hbooks, hl, hnext, hhold⟩ := h
  simp only [Desk.step]
  split
  · split
    · exact ⟨(List.getElem?_set_ne hk).trans hr, hbooks, hl, hnext, hhold⟩
    · exact ⟨hr, hbooks, hl, hnext, hhold⟩
  · exact ⟨hr, hbooks, hl, hnext, hhold⟩

theorem step_read (h : d.Gathers n r l ms) (now : Timestamp) (k : Nat) :
    ∃ r', (d.step (.read now k)).2.Gathers n r' l ms ∧ Goes n r [.read now k] r' [] := by
  by_cases hk : k = n
  · subst hk
    obtain ⟨hr, hbooks, hl, hnext, hhold⟩ := h
    obtain ⟨hcampaign, hclosed, hnext', hhold'⟩ := read_hold hl hnext hhold now
    simp only [Desk.step, hr, hbooks]
    refine ⟨(r.read l now).2, ⟨?_, ?_, hl, ?_, hhold'⟩, hcampaign, ?_, ?_, List.nil_sublist _⟩
    · exact List.getElem?_set_self (List.getElem?_eq_some_iff.mp hr).1
    · rw [Reading.books, hclosed, hcampaign]
      exact hbooks
    · rw [hnext']
      exact Nat.min_le_left _ _
    · rw [hclosed]
      simp [Event.closes, Event.request?]
    · rw [hnext']
      simp [Event.reads]
  · refine ⟨r, h.step_read_other hk, rfl, ?_, ?_, List.nil_sublist _⟩
    · simp [Event.closes, Event.request?]
    · simpa [Event.reads, hk] using h.next

theorem step (h : d.Gathers n r l ms) (e : Event) :
    ∃ r' l' new, (d.step e).2.Gathers n r' l' (ms ++ new) ∧ Goes n r [e] r' new := by
  cases e with
  | record now writer c cs =>
    obtain ⟨l', new, h', hgoes⟩ := h.step_record now writer c cs
    exact ⟨r, l', new, h', hgoes⟩
  | snapshot c =>
    refine ⟨r, l, [], ?_, rfl, ?_, ?_, List.nil_sublist _⟩
    · rw [List.append_nil]
      exact h.step_snapshot c
    · simp [Event.closes, Event.request?]
    · exact (Nat.min_eq_right h.next).symm
  | reset now c =>
    obtain ⟨r', h', hgoes⟩ := h.step_reset now c
    exact ⟨r', l, [], by rwa [List.append_nil], hgoes⟩
  | read now k =>
    obtain ⟨r', h', hgoes⟩ := h.step_read now k
    exact ⟨r', l, [], by rwa [List.append_nil], hgoes⟩

theorem after (h : d.Gathers n r l ms) (es : List Event) :
    ∃ r' l' new, (after es d).Gathers n r' l' (ms ++ new) ∧ Goes n r es r' new := by
  induction es generalizing d r l ms with
  | nil =>
    refine ⟨r, l, [], by rwa [List.append_nil], rfl, ?_, ?_, List.nil_sublist _⟩
    · simp
    · exact (Nat.min_eq_right h.next).symm
  | cons e es ih =>
    obtain ⟨r₁, l₁, new₁, h₁, hgoes₁⟩ := h.step e
    obtain ⟨r₂, l₂, new₂, h₂, hgoes₂⟩ := ih h₁
    exact ⟨r₂, l₂, new₁ ++ new₂, by rwa [← List.append_assoc], hgoes₁.cons hgoes₂⟩

theorem answer (h : d.Gathers n r l ms) (now : Timestamp) :
    (r.next + 1 = Ledger.shardCount → ∃ s, (d.step (.read now n)).1 = some (some s)) ∧
    ∀ s, (d.step (.read now n)).1 = some (some s) → s.campaign = r.campaign ∧ s.Tells ms := by
  obtain ⟨hr, hbooks, hl, hnext, hhold⟩ := h
  simp only [Desk.step, hr, hbooks, Reading.read]
  cases hs : l.shards[r.next]? with
  | none =>
    have hle : l.shards.length ≤ r.next := List.getElem?_eq_none_iff.mp hs
    refine ⟨fun hlast => ?_, fun s hs => by cases hs⟩
    omega
  | some t =>
    obtain ⟨hlt, ht⟩ := List.getElem?_eq_some_iff.mp hs
    rw [List.drop_eq_getElem_cons hlt, ht] at hhold
    simp only
    refine ⟨fun hlast => ⟨_, by rw [if_pos hlast]; rfl⟩, fun s hs => ?_⟩
    split at hs
    · next hlast =>
      cases hs
      rw [List.drop_eq_nil_of_le (by rw [hl, hlast])] at hhold
      exact ⟨rfl, hhold.merge.tells r.campaign l.openedAt now⟩
    · cases hs

end Gathers

/-- What a reading tells that begins after some messages, while others are recorded. -/
structure Reports (d : Desk) (n : Nat) (campaign : String) (old new : List (List Choice))
    (bs : List Event) : Prop where
  ends : bs.countP (·.reads n) + 1 = Ledger.shardCount →
    ∀ now, ∃ s, ((after bs d).step (.read now n)).1 = some (some s)
  tells : ∀ now s, ((after bs d).step (.read now n)).1 = some (some s) →
    s.campaign = campaign ∧ ∃ chosen, chosen.Sublist new ∧ s.Tells (old ++ chosen)

theorem Gathers.reports (h : d.Gathers n r l ms) (hr : r.next = 0) (bs : List Event) :
    d.Reports n r.campaign ms (meanwhile r bs) bs := by
  obtain ⟨r', l', new, h', hgoes⟩ := h.after bs
  constructor
  case ends =>
    intro hcount now
    refine (h'.answer now).1 ?_
    rw [hgoes.next, hr]
    omega
  case tells =>
    intro now s hs
    obtain ⟨hcampaign, htells⟩ := (h'.answer now).2 s hs
    exact ⟨hcampaign.trans hgoes.campaign, new, hgoes.new, htells⟩

theorem answer_reads (hr : d.readings[n]? = some r) (hbooks : r.books d.tracker = some l)
    (hl : l.shards.length = Ledger.shardCount) {ss : List Shard} {t : Shard}
    (hss : l.shards.drop r.next = ss ++ [t]) (now : Timestamp) :
    ((after (List.replicate ss.length (.read now n)) d).step (.read now n)).1 =
      some (some (.ofShard r.campaign ((ss ++ [t]).foldl .merge r.sum) l.openedAt now)) := by
  have hlen := congrArg List.length hss
  rw [List.length_drop, List.length_append, List.length_singleton, hl] at hlen
  induction ss generalizing d r with
  | nil =>
    have ht : l.shards[r.next]? = some t := by
      rw [← Nat.add_zero r.next, ← List.getElem?_drop, hss]
      rfl
    have hlast : r.next + 1 = Ledger.shardCount := by
      rw [List.length_nil] at hlen
      omega
    simp [after, step, hr, hbooks, Reading.read, ht, hlast]
  | cons u ss ih =>
    have hu : l.shards[r.next]? = some u := by
      rw [← Nat.add_zero r.next, ← List.getElem?_drop, hss]
      rfl
    have hmore : r.next + 1 ≠ Ledger.shardCount := by
      rw [List.length_cons] at hlen
      omega
    let r' : Reading := { r with next := r.next + 1, sum := r.sum.merge u }
    have hread : (d.step (.read now n)).2 = { d with readings := d.readings.set n r' } := by
      simp [step, hr, hbooks, Reading.read, hu, r']
    have hdrop : l.shards.drop r'.next = ss ++ [t] := by
      rw [← List.drop_drop, hss]
      rfl
    rw [List.length_cons, List.replicate_succ, after, hread]
    refine ih (r := r') (List.getElem?_set_self (List.getElem?_eq_some_iff.mp hr).1) hbooks hdrop ?_
    rw [List.length_cons] at hlen
    simp only [r']
    omega

/-- So the tracker that serves one after the other answers what a snapshot or a reset tells that
nobody disturbs. -/
theorem answer_alone (hl : d.tracker.ledger? campaign = some l)
    (hshards : l.shards.length = Ledger.shardCount) (now : Timestamp) :
    let reads := List.replicate 15 (Event.read now d.readings.length)
    ((after (.snapshot campaign :: reads) d).step (.read now d.readings.length)).1 =
        some (d.tracker.snapshot now campaign) ∧
      ((after (.reset now campaign :: reads) d).step (.read now d.readings.length)).1 =
        some (d.tracker.reset now campaign).2 := by
  intro reads
  obtain ⟨ss, t, hss⟩ : ∃ ss t, l.shards = ss ++ [t] :=
    ⟨_, _, (List.dropLast_append_getLast (by rw [← List.length_pos_iff, hshards]; decide)).symm⟩
  have hlen : ss.length = 15 := by
    rw [hss, List.length_append, List.length_singleton] at hshards
    exact Nat.succ.inj hshards
  have hanswer : some (d.tracker.snapshot now campaign) =
      some (some (.ofShard campaign ((ss ++ [t]).foldl .merge .empty) l.openedAt now)) := by
    rw [Tracker.snapshot, hl, ← hss]
    rfl
  rw [Tracker.reset_eq_snapshot, hanswer]
  constructor
  · have hreading : (d.step (.snapshot campaign)).2.readings[d.readings.length]? =
        some (.start campaign none) := by
      simp [step, hl]
    have hbooks : Reading.books (.start campaign none) (d.step (.snapshot campaign)).2.tracker =
        some l := by
      simp [step, hl, Reading.books, Reading.start]
    rw [after]
    simp only [reads, ← hlen]
    exact answer_reads hreading hbooks hshards hss now
  · have hreading : (d.step (.reset now campaign)).2.readings[d.readings.length]? =
        some (.start campaign (some l)) := by
      simp [step, hl]
    rw [after]
    simp only [reads, ← hlen]
    exact answer_reads hreading rfl hshards hss now

theorem exists_books (as : List Event) (h : current campaign as ≠ []) :
    ∃ l, (after as .empty).tracker.ledger? campaign = some l ∧ l.Holds (current campaign as) := by
  have hb := (accounts_after as).books campaign
  rw [← current] at hb
  generalize current campaign as = ms at hb h
  generalize (after as .empty).tracker.ledger? campaign = o at hb
  cases hb with
  | none => exact absurd rfl h
  | some hl => exact ⟨_, rfl, hl⟩

theorem books_eq_none (as : List Event) :
    (after as .empty).tracker.ledger? campaign = none ↔ current campaign as = [] := by
  have h : (after as .empty).tracker.snapshot "" campaign = none ↔ _ :=
    (accounts_after as).snapshot_eq_none
  rwa [Tracker.snapshot, Option.map_eq_none_iff] at h

theorem reports_snapshot (as bs : List Event) (h : current campaign as ≠ []) :
    ((after as .empty).step (.snapshot campaign)).2.Reports (after as .empty).readings.length
      campaign (current campaign as)
      (messages campaign (bs.takeWhile (!·.closes campaign))) bs := by
  obtain ⟨l, hl, hholds⟩ := exists_books as h
  exact (gathers_snapshot hl hholds).reports rfl bs

/-- The messages of a later snapshot are those of an earlier one and those since then. -/
theorem current_later (as : List Event) {cs : List Event}
    (hopen : ∀ e ∈ bs ++ cs, e.closes campaign = false) (now : Timestamp) (n : Nat) :
    current campaign (as ++ (.snapshot campaign :: bs ++ .read now n :: cs)) =
      current campaign as ++ (messages campaign bs ++ messages campaign cs) := by
  have hopen' : ∀ e ∈ .snapshot campaign :: bs ++ .read now n :: cs,
      e.closes campaign = false := by
    rw [List.forall_mem_append] at hopen
    rw [List.cons_append, List.forall_mem_cons, List.forall_mem_append, List.forall_mem_cons]
    exact ⟨rfl, hopen.1, rfl, hopen.2⟩
  rw [current_append hopen', messages_append, messages_cons, messages_cons]
  rfl

theorem reports_reset (as bs : List Event) (h : current campaign as ≠ []) (now : Timestamp) :
    ((after as .empty).step (.reset now campaign)).2.Reports (after as .empty).readings.length
      campaign (current campaign as) [] bs := by
  obtain ⟨l, hl, hholds⟩ := exists_books as h
  exact (gathers_reset hl hholds).reports rfl bs

end Desk

namespace Statistics

/-- Nothing that is counted in the first statistics is missing in the second. -/
structure Below (s s' : Statistics) : Prop where
  renders : s.renders ≤ s'.renders
  groups : ∀ g, s.rendersOf g ≤ s'.rendersOf g
  counts : ∀ g b, s.count g b ≤ s'.count g b

theorem Tells.below {s s' : Statistics} {ms ms' : List (List Choice)} (h : s.Tells ms)
    (h' : s'.Tells ms') (hsub : ms.Sublist ms') : s.Below s' where
  renders := by
    rw [h.renders, h'.renders]
    exact hsub.length_le
  groups g := by
    rw [h.rendersOf, h'.rendersOf]
    exact hsub.flatten.countP_le
  counts g b := by
    rw [h.counts, h'.counts]
    exact hsub.flatten.count_le _

theorem Tells.rendersOf_eq {s : Statistics} {ms : List (List Choice)} (h : s.Tells ms) {g : Nat}
    (hg : ∀ cs ∈ ms, Choice.visits cs g = 1) : s.rendersOf g = s.renders := by
  rw [h.rendersOf, h.renders]
  clear h
  induction ms with
  | nil => rfl
  | cons cs ms ih =>
    obtain ⟨hcs, hms⟩ := List.forall_mem_cons.mp hg
    rw [List.flatten_cons, Choice.visits_append, hcs, ih hms, List.length_cons, Nat.add_comm]

end Statistics

namespace Desk

/-- Several record messages, take snapshots and reset campaigns at one desk, and a snapshot and a
reset read one shard after another. Each message is told as a whole or not at all. -/
theorem tells_whole (as bs : List Event) (campaign : String) :
    let d := after as .empty
    let n := d.readings.length
    let old := current campaign as
    let new := messages campaign (bs.takeWhile (!·.closes campaign))
    ((d.step (.snapshot campaign)).1 = some none ↔ old = []) ∧
    (∀ now, (d.step (.reset now campaign)).1 = some none ↔ old = []) ∧
    (old ≠ [] → (d.step (.snapshot campaign)).2.Reports n campaign old new bs ∧
      ∀ now s, ((after (.snapshot campaign :: bs) d).step (.read now n)).1 = some (some s) →
        (∀ g ∈ s.groups, g.2.renders = (g.2.branches.map Prod.snd).sum) ∧
        (∀ g, (∀ cs ∈ old ++ new, Choice.visits cs g = 1) → s.rendersOf g = s.renders) ∧
        ∀ cs, (∀ e ∈ bs ++ cs, e.closes campaign = false) →
          let d' := after (.snapshot campaign :: bs ++ .read now n :: cs) d
          ∀ ds now' s', ((after (.snapshot campaign :: ds) d').step
            (.read now' d'.readings.length)).1 = some (some s') → s.Below s') ∧
    ∀ now, (old ≠ [] → (d.step (.reset now campaign)).2.Reports n campaign old [] bs) ∧
      let d' := after (.reset now campaign :: bs) d
      current campaign bs ≠ [] → ∀ cs,
        (d'.step (.snapshot campaign)).2.Reports d'.readings.length campaign (current campaign bs)
          (messages campaign (cs.takeWhile (!·.closes campaign))) cs := by
  intro d n old new
  refine ⟨?_, fun now => ?_, fun hne => ⟨reports_snapshot as bs hne, fun now s hs => ?_⟩,
    fun now => ⟨fun hne => reports_reset as bs hne now, ?_⟩⟩
  · rw [← books_eq_none as, step]
    split <;> simp_all [d]
  · rw [← books_eq_none as, step]
    split <;> simp_all [d]
  · obtain ⟨-, chosen, hchosen, htells⟩ := (reports_snapshot as bs hne).tells now s hs
    refine ⟨htells.sums, fun g hg => htells.rendersOf_eq fun cs hcs => hg cs ?_, ?_⟩
    · exact ((List.Sublist.refl old).append hchosen).subset hcs
    · intro cs hopen d' ds now' s' hs'
      have hbs : new = messages campaign bs := by
        have hall : bs.takeWhile (!·.closes campaign) = bs := List.takeWhile_eq_self_iff.mpr
          fun e he => by simp [hopen e (List.mem_append_left cs he)]
        exact congrArg (messages campaign) hall
      have hold : current campaign (as ++ (.snapshot campaign :: bs ++ .read now n :: cs)) =
          old ++ (messages campaign bs ++ messages campaign cs) := current_later as hopen now n
      have hd' : d' = after (as ++ (.snapshot campaign :: bs ++ .read now n :: cs)) .empty :=
        (after_append as _ .empty).symm
      rw [hd'] at hs'
      have hne' : current campaign (as ++ (.snapshot campaign :: bs ++ .read now n :: cs)) ≠
          [] := by
        rw [hold]
        simp [hne]
      obtain ⟨-, chosen', -, htells'⟩ := (reports_snapshot _ ds hne').tells now' s' hs'
      have hchosen : chosen.Sublist (messages campaign bs) := by
        rw [← hbs]
        exact hchosen
      refine htells.below htells' ?_
      rw [hold, List.append_assoc, List.append_assoc]
      exact (List.Sublist.refl old).append (hchosen.trans (List.sublist_append_left _ _))
  · intro d' hne cs
    have hd' : d' = after (as ++ .reset now campaign :: bs) .empty :=
      (after_append as _ .empty).symm
    have hcurrent : current campaign (as ++ .reset now campaign :: bs) = current campaign bs :=
      current_reset_append as now bs
    rw [hd', ← hcurrent]
    exact reports_snapshot _ cs (hcurrent ▸ hne)

/-- A message goes into a shard that was read before, and another one into a later shard. -/
theorem tells_whole_meanwhile :
    let as : List Event := [.record "1" 3 "a" [⟨0, 1⟩], .record "2" 4 "b" []]
    let bs : List Event := List.replicate 4 (.read "3" 0) ++
      [.record "3" 3 "a" [⟨0, 0⟩], .record "4" 9 "a" [⟨0, 1⟩]] ++ List.replicate 11 (.read "5" 0)
    let cs : List Event := List.replicate 15 (.read "6" 1)
    let d := after as .empty
    (∃ s s', ((after (.snapshot "a" :: bs) d).step (.read "5" 0)).1 = some (some s) ∧
      ((after (.snapshot "a" :: cs) (after (.snapshot "a" :: bs ++ [.read "5" 0]) d)).step
        (.read "6" 1)).1 = some (some s') ∧
      s.renders = 2 ∧ s.rendersOf 0 = s.renders ∧ s.Below s' ∧ s'.renders = 3) ∧
    ∃ s s', ((after (.reset "3" "a" :: bs) d).step (.read "5" 0)).1 = some (some s) ∧
      ((after (.snapshot "a" :: cs) (after (.reset "3" "a" :: bs) d)).step
        (.read "6" 1)).1 = some (some s') ∧
      s.Tells [[⟨0, 1⟩]] ∧ s'.Tells [[⟨0, 0⟩], [⟨0, 1⟩]] := by
  intro as bs cs d
  have hold : current "a" as = [[⟨0, 1⟩]] := by decide
  have hnew : messages "a" (bs.takeWhile (!·.closes "a")) = [[⟨0, 0⟩], [⟨0, 1⟩]] := by decide
  have hnewer : current "a" bs = [[⟨0, 0⟩], [⟨0, 1⟩]] := by decide
  have hnone : messages "a" (cs.takeWhile (!·.closes "a")) = [] := by decide
  have hn : (after as .empty).readings.length = 0 := by cbv
  have hn₁ : (after (.snapshot "a" :: bs ++ .read "5" 0 :: []) (after as .empty)).readings.length =
    1 := by cbv
  have hn₂ : (after (.reset "3" "a" :: bs) (after as .empty)).readings.length = 1 := by cbv
  have hbs : bs.countP (·.reads 0) + 1 = Ledger.shardCount := by decide
  have hcs : cs.countP (·.reads 1) + 1 = Ledger.shardCount := by decide
  have hopen : ∀ e ∈ bs ++ [], e.closes "a" = false := by decide
  obtain ⟨⟨s, hs, hrenders⟩, s', hs', hrenders'⟩ :
      (∃ s, ((after (.snapshot "a" :: bs) (after as .empty)).step (.read "5" 0)).1 =
        some (some s) ∧ s.renders = 2) ∧
      ∃ s', ((after (.snapshot "a" :: cs)
        (after (.snapshot "a" :: bs ++ .read "5" 0 :: []) (after as .empty))).step
          (.read "6" 1)).1 = some (some s') ∧ s'.renders = 3 :=
    ⟨⟨_, by cbv, rfl⟩, _, by cbv, rfl⟩
  have hvisits : ∀ cs ∈ [[⟨0, 1⟩]] ++ [[⟨0, 0⟩], [⟨0, 1⟩]], Choice.visits cs 0 = 1 := by decide
  clear_value as bs cs
  obtain ⟨-, -, hsnapshot, hreset⟩ := tells_whole as bs "a"
  rw [hn, hold] at hsnapshot hreset
  rw [hnew] at hsnapshot
  obtain ⟨-, hsnapshot⟩ := hsnapshot (List.cons_ne_nil _ _)
  obtain ⟨-, hgroups, hbelow⟩ := hsnapshot "5" s hs
  have hbelow := hbelow [] hopen cs "6" s'
  rw [hn₁] at hbelow
  obtain ⟨hreset, hfresh⟩ := hreset "3"
  have hreset := hreset (List.cons_ne_nil _ _)
  have hfresh := hfresh (hnewer ▸ List.cons_ne_nil _ _) cs
  rw [hn₂, hnewer, hnone] at hfresh
  obtain ⟨r, hr⟩ := hreset.ends hbs "5"
  obtain ⟨r', hr'⟩ := hfresh.ends hcs "6"
  obtain ⟨-, chosen, hchosen, htells⟩ := hreset.tells "5" r hr
  obtain ⟨-, chosen', hchosen', htells'⟩ := hfresh.tells "6" r' hr'
  rw [List.sublist_nil.mp hchosen] at htells
  rw [List.sublist_nil.mp hchosen'] at htells'
  exact ⟨⟨s, s', hs, hs', hrenders, hgroups 0 hvisits, hbelow hs', hrenders'⟩,
    r, r', hr, hr', htells, htells'⟩

end Desk

end Spintax
