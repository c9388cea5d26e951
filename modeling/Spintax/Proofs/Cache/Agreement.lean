import Mathlib
import Spintax.Mailing.Mailer
import Spintax.Proofs.Cache.Exchanges
import Spintax.Proofs.Result
import Spintax.Template.Report

namespace Spintax.Cache

variable {c c' : Cache} {f f' : Flat} {now : Nat} {text : String} {k : Kept} {p : Parse}
  {r : Request} {a : Answer} {x y : Exchange} {log : List Exchange} {s : Session} {e : Fault}

namespace Exchange

/-- `text` was parsed on request. No other exchange has the number of this parse. -/
structure Makes (x : Exchange) (text : String) (p : Parse) : Prop where
  request : x.request = .resolve text
  answer : x.answer = .resolved (.ok p)
  serial : x.before.cache.stats.parses = p.serial
  parses : x.after.cache.stats.parses = p.serial + 1
  template : Template.parse text = .ok p.template

end Exchange

namespace Flat

structure Made (f f' : Flat) (now : Nat) (r : Request) (a : Answer) (k : Kept) : Prop where
  request : r = .resolve k.text
  answer : a = .resolved (.ok k.parse)
  serial : f.stats.parses = k.parse.serial
  parses : f'.stats.parses = k.parse.serial + 1
  template : Template.parse k.text = .ok k.parse.template
  since : k.since = now

theorem Turn.kept_cases (h : f.Turn now r a f') (hk : k ∈ f'.kept) :
    k ∈ f.kept ∨ f.Made f' now r a k := by
  cases h with
  | found hd | reused hd =>
    obtain hk | hk := List.mem_append.mp hk
    · exact .inl (List.mem_filter.mp hk).1
    · rw [List.mem_singleton.mp hk]
      exact .inl hd
  | missing | fault | purge => exact .inl (List.mem_filter.mp hk).1
  | parsed hl hp hi =>
    obtain hk | hk := List.mem_append.mp (hi.sublist.subset hk)
    · exact .inl (List.mem_filter.mp hk).1
    · rw [List.mem_singleton.mp hk]
      exact .inr ⟨rfl, rfl, rfl, hi.stats.2.2, hp, rfl⟩
  | clear => exact absurd hk List.not_mem_nil
  | pass => exact .inl hk

theorem Turn.found_cases (h : f.Turn now (.get text) (.found (some p)) f') :
    ∃ k ∈ f.kept, k.text = text ∧ k.parse = p ∧ k.isExpired f.limits.maxAge now = false := by
  cases h with
  | found hk he => exact ⟨_, hk, rfl, rfl, he⟩

theorem Turn.resolved_cases (h : f.Turn now (.resolve text) (.resolved (.ok p)) f') :
    ∃ k, k.text = text ∧ k.parse = p ∧ k.isExpired f.limits.maxAge now = false ∧
      (k ∈ f.kept ∨ f.Made f' now (.resolve text) (.resolved (.ok p)) k) := by
  cases h with
  | reused hk he => exact ⟨_, rfl, rfl, he, .inl hk⟩
  | parsed hl hp hi =>
    exact ⟨⟨text, _, now⟩, rfl, rfl, f.limits.not_isExpired now text _,
      .inr ⟨rfl, rfl, rfl, hi.stats.2.2, hp, rfl⟩⟩

theorem Turn.map_resolved {r : Except Fault Parse}
    (h : f.Turn now (.resolve text) (.resolved r) f')
    (hk : ∀ k ∈ f.kept, Template.parse k.text = .ok k.parse.template) :
    r.map Parse.template = Template.parse text := by
  cases h with
  | reused hmem => exact (hk _ hmem).symm
  | fault hl hp => exact hp.symm
  | parsed hl hp hi => exact hp.symm

end Flat

/-- Each entry of a flat cache was made by an exchange at the moment since which it is kept. -/
def Flat.Traced (log : List Exchange) (f : Flat) : Prop :=
  ∀ k ∈ f.kept, ∃ y ∈ log, y.Makes k.text k.parse ∧ y.before.now = k.since

theorem Exchange.Mirrors.makes (hx : x.Mirrors f f')
    (hm : f.Made f' x.before.now x.request x.answer k) : x.Makes k.text k.parse where
  request := hm.request
  answer := hm.answer
  serial := by rw [hx.before.stats, hm.serial]
  parses := by rw [hx.after.stats, hm.parses]
  template := hm.template

namespace Flat.Traced

theorem exchange (h : f.Traced log) (hx : x.Mirrors f f') : f'.Traced (log ++ [x]) := by
  intro k hk
  obtain hold | hm := hx.turn.kept_cases hk
  · obtain ⟨y, hy, hmakes, hsince⟩ := h k hold
    exact ⟨y, List.mem_append_left _ hy, hmakes, hsince⟩
  · exact ⟨x, List.mem_append_right _ (List.mem_singleton_self x), hx.makes hm, hm.since.symm⟩

theorem parse_eq (h : f.Traced log) (hk : k ∈ f.kept) :
    Template.parse k.text = .ok k.parse.template := by
  obtain ⟨y, -, hmakes, -⟩ := h k hk
  exact hmakes.template

theorem absent (h : f.Traced log) (he : Template.parse text = .error e) :
    ∀ k ∈ f.kept, k.text ≠ text := by
  rintro k hk rfl
  rw [h.parse_eq hk] at he
  cases he

end Flat.Traced

theorem Kept.lt_of_isExpired {maxAge : Nat} (h : k.isExpired maxAge now = false) :
    now < k.since + maxAge := by
  rw [isExpired, decide_eq_false_iff_not] at h
  omega

namespace Exchange.Mirrors

theorem exists_of_found (hx : x.Mirrors f f') (ht : f.Traced log) (hr : x.request = .get text)
    (ha : x.answer = .found (some p)) :
    ∃ y ∈ log, y.Makes text p ∧ x.before.now < y.before.now + f.limits.maxAge := by
  have hturn := hx.turn
  rw [hr, ha] at hturn
  obtain ⟨k, hk, rfl, rfl, he⟩ := hturn.found_cases
  obtain ⟨y, hy, hmakes, hsince⟩ := ht k hk
  exact ⟨y, hy, hmakes, hsince ▸ k.lt_of_isExpired he⟩

theorem exists_of_resolved (hx : x.Mirrors f f') (ht : f.Traced log)
    (hr : x.request = .resolve text) (ha : x.answer = .resolved (.ok p)) :
    ∃ y ∈ log ++ [x], y.Makes text p ∧ x.before.now < y.before.now + f.limits.maxAge := by
  have hturn := hx.turn
  rw [hr, ha] at hturn
  obtain ⟨k, rfl, rfl, he, hk | hm⟩ := hturn.resolved_cases
  · obtain ⟨y, hy, hmakes, hsince⟩ := ht k hk
    exact ⟨y, List.mem_append_left _ hy, hmakes, hsince ▸ k.lt_of_isExpired he⟩
  · rw [← hr, ← ha] at hm
    refine ⟨x, List.mem_append_right _ (List.mem_singleton_self x), hx.makes hm, ?_⟩
    exact Nat.lt_add_of_pos_right f.limits.maxAge_pos

end Exchange.Mirrors

theorem Refines.resolve_fault (h : Refines c f) (habs : ∀ k ∈ f.kept, k.text ≠ text)
    (he : Template.parse text = .error e) (now : Nat) :
    c.get now text = (none, c.miss) ∧ c.resolve now text = (.error e, (c.miss.parse text).2) := by
  have hget : c.get now text = (none, c.miss) := by
    rw [Cache.get, h.lookup_absent habs]
  have hmiss : c.miss.lookup now text = (none, c.miss) := by
    obtain ⟨_, _, f', hc, hf, h'⟩ := h.get now text
    cases hget.symm.trans hc
    exact h'.lookup_absent (Flat.notMem_of_get hf)
  refine ⟨hget, ?_⟩
  rw [Cache.resolve, hget]
  simp only [lead, hmiss, parseAndKeep, Cache.parse, he]

theorem ofText_of_parse {α : Type} {g : α → Template} {r : Except Fault α}
    (h : r.map g = Template.parse text) :
    ((Report.ofText text).isValid = true ↔ ∃ b, r = .ok b) ∧
      ∀ e, (Report.ofText text).faults = [e] ↔ r = .error e := by
  rw [Report.ofText, ← h]
  cases r with
  | ok b => simp [Except.map, Report.isValid]
  | error e => simp [Except.map, Report.isValid]

theorem accept_of_parse {m : Mailer} {limit : Nat} {request : Option Nat}
    (hl : m.concurrency.limit request = .ok limit)
    (hr : (m.cache.resolve now text).1.map Parse.template = Template.parse text) :
    (∀ t, (m.accept now text request).1 = .ok (limit, t) ↔ Template.parse text = .ok t) ∧
      ((∃ why, (m.accept now text request).1 = .error why) ↔
        (Report.ofText text).isValid = false) ∧
      ∀ e, (m.accept now text request).1 = .error (.badTemplate e) ↔
        (Report.ofText text).faults = [e] := by
  rw [Mailer.accept, hl, Report.ofText, ← hr]
  obtain ⟨r, c'⟩ := m.cache.resolve now text
  cases r with
  | ok p => simp [Except.map, Report.isValid]
  | error e => simp [Except.map, Report.isValid, Mailer.refuse]

namespace Session

/-- At any time and for any text. To get or parse a text is to resolve it. -/
theorem agrees_with_parse (limits : Limits) (fp : String → UInt32) (rs : List (Order × Request))
    (order : Order) (text : String) :
    let s := (start limits fp).after rs
    let log := (start limits fp).log rs
    let c := { s.cache with order }
    (c.resolve s.now text).1.map Parse.template = Template.parse text ∧
    ((Report.ofText text).isValid = true ↔ ∃ p, (c.resolve s.now text).1 = .ok p) ∧
    (∀ e, (Report.ofText text).faults = [e] ↔ (c.resolve s.now text).1 = .error e) ∧
    (∀ p, (c.get s.now text).1 = some p → Template.parse text = .ok p.template) ∧
    (∀ p, (c.get s.now text).1 = some p →
      ∃ y ∈ log, y.Makes text p ∧ s.now < y.before.now + limits.maxAge) ∧
    (∀ p, (c.resolve s.now text).1 = .ok p →
      ∃ y ∈ log ++ [s.exchange (order, .resolve text)],
        y.Makes text p ∧ s.now < y.before.now + limits.maxAge) ∧
    (∀ e, Template.parse text = .error e →
      (c.get s.now text).2.store = c.store ∧ (c.get s.now text).2.ticks = c.ticks ∧
      (c.resolve s.now text).2.store = c.store ∧ (c.resolve s.now text).2.ticks = c.ticks ∧
      (c.resolve s.now text).2.stats.parses = c.stats.parses + 1 ∧
      (c.resolve s.now text).2.stats.parseFailures = c.stats.parseFailures + 1) ∧
    ∀ (m : Mailer) (request : Option Nat) (limit : Nat), m.cache = c →
      m.concurrency.limit request = .ok limit →
        (∀ t, (m.accept s.now text request).1 = .ok (limit, t) ↔ Template.parse text = .ok t) ∧
        ((∃ why, (m.accept s.now text request).1 = .error why) ↔
          (Report.ofText text).isValid = false) ∧
        ∀ e, (m.accept s.now text request).1 = .error (.badTemplate e) ↔
          (Report.ofText text).faults = [e] := by
  intro s log c
  have hnew : (Flat.empty limits).Traced [] := fun k hk => absurd hk List.not_mem_nil
  obtain ⟨f, (h : Refines s.cache f), hlimits, hroom, (ht : f.Traced log)⟩ :=
    follow (P := fun log f => f.Traced log) limits fp hnew (fun _ _ _ _ ht hx => ht.exchange hx) rs
  obtain ⟨f₁, hget⟩ := exists_mirrors h hroom (order, .get text)
  obtain ⟨f₂, hres⟩ := exists_mirrors h hroom (order, .resolve text)
  have hturn : f.Turn s.now (.resolve text) (.resolved (c.resolve s.now text).1) f₂ := hres.turn
  have hmap := hturn.map_resolved fun k hk => ht.parse_eq hk
  obtain ⟨hvalid, hfaults⟩ := ofText_of_parse hmap
  have hfound : ∀ p, (c.get s.now text).1 = some p →
      ∃ y ∈ log, y.Makes text p ∧ s.now < y.before.now + limits.maxAge := by
    intro p hp
    rw [← hlimits]
    exact hget.exists_of_found ht rfl (congrArg Answer.found hp)
  refine ⟨hmap, hvalid, hfaults, ?_, hfound, ?_, ?_, ?_⟩
  · intro p hp
    obtain ⟨y, -, hmakes, -⟩ := hfound p hp
    exact hmakes.template
  · intro p hp
    rw [← hlimits]
    exact hres.exists_of_resolved ht rfl (congrArg Answer.resolved hp)
  · intro e he
    obtain ⟨hg, hr⟩ := (h.reorder order).resolve_fault (ht.absent he) he s.now
    rw [hg, hr, Cache.parse, he]
    exact ⟨rfl, rfl, rfl, rfl, rfl, rfl⟩
  · intro m request limit hm hl
    apply accept_of_parse hl
    rw [hm]
    exact hmap

theorem agrees_with_parse_two :
    let limits : Limits := ⟨1, 10, by decide, by decide⟩
    let rs : List (Order × Request) := [(.asKept, .resolve "a"), (.asKept, .pass 9)]
    let s := (start limits fun _ => 0).after rs
    let log := (start limits fun _ => 0).log rs
    let c := { s.cache with order := .asKept }
    let m := Mailer.start c .strict .standard fun _ => .ofArray #[]
    (∃ p, (c.get s.now "a").1 = some p ∧
      ∃ y ∈ log, y.Makes "a" p ∧ s.now < y.before.now + limits.maxAge) ∧
    ∃ e, Template.parse "{}" = .error e ∧ (c.resolve s.now "{}").2.store = c.store ∧
      (m.accept s.now "{}" none).1 = .error (.badTemplate e) := by
  intro limits rs s log c m
  obtain ⟨p, hp⟩ : ∃ p, (c.get s.now "a").1 = some p := ⟨_, by cbv⟩
  obtain ⟨e, he⟩ : ∃ e, Template.parse "{}" = .error e := ⟨_, by cbv⟩
  obtain ⟨-, -, -, -, hyoung, -⟩ := agrees_with_parse limits (fun _ => 0) rs .asKept "a"
  obtain ⟨-, -, -, -, -, -, hsame, hmail⟩ :=
    agrees_with_parse limits (fun _ => 0) rs .asKept "{}"
  obtain ⟨-, -, hrefused⟩ := hmail m none 32 rfl rfl
  have hfaults : (Report.ofText "{}").faults = [e] := by
    rw [Report.ofText, he]
  refine ⟨⟨p, hp, hyoung p hp⟩, e, he, ?_, (hrefused e).mpr hfaults⟩
  obtain ⟨-, -, hstore, -⟩ := hsame e he
  exact hstore

end Session

end Spintax.Cache
