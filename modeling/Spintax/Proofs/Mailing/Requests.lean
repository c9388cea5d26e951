import Spintax.Proofs.Cache.Agreement
import Spintax.Proofs.Cache.SingleFlight
import Spintax.Proofs.Mailing.Offices

namespace Spintax

namespace Cache

variable {c : Cache} {text : String} {e : Fault}

/-- Whoever asks for a text with a fault, also while others do so, changes no entry. -/
theorem Crowd.Accounted.store_turn {w w' : Crowd} {f : Flat} {now i : Nat} {s s' : Stage}
    {log : List (String × Outcome)} (h : Accounted log w f) (ht : Turn w now text s w' s')
    (hi : w.At i text s) (he : Template.parse text = .error e) :
    w'.cache.store = w.cache.store ∧ w'.cache.ticks = w.cache.ticks := by
  have hnever : ∀ p : Parse, (text, .ok p) ∉ log := by
    intro p hp
    have hparse := h.honest text _ hp
    rw [he] at hparse
    cases hparse
  have habs : ∀ d ∈ f.kept, d.text ≠ text := by
    rintro d hd rfl
    exact hnever d.parse (h.vouched.kept d hd)
  have hlookup : w.cache.lookup now text = (none, w.cache) := h.refines.lookup_absent habs
  cases ht with
  | hit hg =>
    rw [Cache.get, hlookup] at hg
    cases hg
  | miss hg =>
    rw [Cache.get, hlookup] at hg
    cases hg
    exact ⟨rfl, rfl⟩
  | find hl =>
    rw [hlookup] at hl
    cases hl
  | lack hl =>
    rw [hlookup] at hl
    cases hl
    exact ⟨rfl, rfl⟩
  | parse hp =>
    rw [Cache.parse, he] at hp
    cases hp
  | reject hp =>
    rw [Cache.parse, he] at hp
    cases hp
    exact ⟨rfl, rfl⟩
  | @keep k p => exact absurd (h.vouched.carried i text _ _ hi rfl) (hnever p)
  | join | claim | receive | release | publish => exact ⟨rfl, rfl⟩

namespace Session

variable {limits : Limits} {fp : String → UInt32} {rs : List (Order × Request)} {order : Order}

theorem exists_traced (limits : Limits) (fp : String → UInt32) (rs : List (Order × Request)) :
    ∃ f, Refines ((start limits fp).after rs).cache f ∧ f.kept.length ≤ f.limits.capacity ∧
      f.Traced ((start limits fp).log rs) := by
  have hnew : (Flat.empty limits).Traced [] := fun k hk => absurd hk List.not_mem_nil
  obtain ⟨f, h, -, hroom, ht⟩ := follow (P := fun log f => f.Traced log) limits fp hnew
    (fun _ _ _ _ ht hx => ht.exchange hx) rs
  exact ⟨f, h, hroom, ht⟩

theorem resolve_fault (hc : c = { ((start limits fp).after rs).cache with order })
    (he : Template.parse text = .error e) :
    c.resolve ((start limits fp).after rs).now text = (.error e, (c.miss.parse text).2) := by
  subst hc
  obtain ⟨f, h, -, ht⟩ := exists_traced limits fp rs
  exact ((h.reorder order).resolve_fault (ht.absent he) he _).2

theorem resolve_template (hc : c = { ((start limits fp).after rs).cache with order })
    {t : Template} (ht : Template.parse text = .ok t) :
    ∃ p cache, c.resolve ((start limits fp).after rs).now text = (.ok p, cache) ∧
      p.template = t := by
  subst hc
  obtain ⟨f, h, hroom, htraced⟩ := exists_traced limits fp rs
  obtain ⟨f', hx⟩ := exists_mirrors h hroom (order, .resolve text)
  have hmap := hx.turn.map_resolved fun k hk => htraced.parse_eq hk
  rw [ht] at hmap
  obtain ⟨p, hp, hpt⟩ := Result.map_eq_ok.mp hmap
  exact ⟨p, _, Prod.ext hp rfl, hpt⟩

end Session

end Cache

namespace Concurrency

variable {c : Concurrency} {request : Option Nat}

theorem limit_of_zero (h : request.getD c.usual = 0) : c.limit request = .error .noWorkers := by
  rw [limit, h]

theorem limit_of_pos (h : 1 ≤ request.getD c.usual) :
    c.limit request = .ok (min (request.getD c.usual) (max c.most 1)) := by
  obtain ⟨n, hn⟩ := Nat.exists_eq_add_one.mpr h
  rw [limit, hn]

end Concurrency

namespace Mailer

variable {m : Mailer} {now : Nat} {text : String} {request : Option Nat} {cache : Cache}

theorem accept_of_zero (h : request.getD m.concurrency.usual = 0) :
    m.accept now text request = m.refuse .noWorkers := by
  rw [accept, Concurrency.limit_of_zero h]

theorem accept_of_fault {e : Fault} (h : 1 ≤ request.getD m.concurrency.usual)
    (hr : m.cache.resolve now text = (.error e, cache)) :
    m.accept now text request = { m with cache }.refuse (.badTemplate e) := by
  rw [accept, Concurrency.limit_of_pos h, hr]

theorem accept_of_template {p : Cache.Parse} (h : 1 ≤ request.getD m.concurrency.usual)
    (hr : m.cache.resolve now text = (.ok p, cache)) :
    m.accept now text request =
      (.ok (min (request.getD m.concurrency.usual) (max m.concurrency.most 1), p.template),
        { m with cache, meter := { m.meter with started := m.meter.started + 1 } }) := by
  rw [accept, Concurrency.limit_of_pos h, hr]

end Mailer

namespace Office

/-- Ask for a mailing. It joins the others if it is not refused. -/
def process (f : Office) (now : Nat) (campaign text : String) (request : Option Nat)
    (source : Nat → Option Recipient) : Except Refusal Unit × Office :=
  match f.mailer.accept now text request with
  | (.error r, mailer) => (.error r, ⟨mailer, f.runs⟩)
  | (.ok (limit, t), mailer) => (.ok (), ⟨mailer, f.runs ++ [.start campaign t limit source]⟩)

def refusing (f : Office) (cache : Cache) : Office :=
  ⟨{ f.mailer with cache, meter := { f.mailer.meter with refused := f.mailer.meter.refused + 1 } },
    f.runs⟩

variable {f : Office} {now : Nat} {text campaign : String} {request : Option Nat}
  {source : Nat → Option Recipient} {cache : Cache}

theorem process_of_zero (h : request.getD f.mailer.concurrency.usual = 0) :
    f.process now campaign text request source =
      (.error .noWorkers, f.refusing f.mailer.cache) := by
  rw [process, Mailer.accept_of_zero h]
  rfl

theorem process_of_fault {e : Fault} (h : 1 ≤ request.getD f.mailer.concurrency.usual)
    (hr : f.mailer.cache.resolve now text = (.error e, cache)) :
    f.process now campaign text request source = (.error (.badTemplate e), f.refusing cache) := by
  rw [process, Mailer.accept_of_fault h hr]
  rfl

theorem process_of_template {p : Cache.Parse} (h : 1 ≤ request.getD f.mailer.concurrency.usual)
    (hr : f.mailer.cache.resolve now text = (.ok p, cache)) :
    f.process now campaign text request source =
      (.ok (), ⟨{ f.mailer with
        cache
        meter := { f.mailer.meter with started := f.mailer.meter.started + 1 } },
        f.runs ++ [.start campaign p.template
          (min (request.getD f.mailer.concurrency.usual) (max f.mailer.concurrency.most 1))
          source]⟩) := by
  rw [process, Mailer.accept_of_template h hr]

/-- Whatever the cache answers, the mailing is refused or begins. -/
theorem process_cases (f : Office) (now : Nat) (campaign text : String) (request : Option Nat)
    (source : Nat → Option Recipient) :
    (∃ r cache, f.process now campaign text request source = (.error r, f.refusing cache)) ∨
    ∃ t limit cache, f.process now campaign text request source =
      (.ok (), ⟨{ f.mailer with
        cache
        meter := { f.mailer.meter with started := f.mailer.meter.started + 1 } },
        f.runs ++ [.start campaign t limit source]⟩) := by
  obtain hzero | hpos := Nat.eq_zero_or_pos (request.getD f.mailer.concurrency.usual)
  · exact .inl ⟨_, _, process_of_zero hzero⟩
  · cases hresolve : f.mailer.cache.resolve now text with
    | mk r cache =>
      cases r with
      | error e => exact .inl ⟨_, _, process_of_fault hpos hresolve⟩
      | ok p => exact .inr ⟨_, _, _, process_of_template hpos hresolve⟩

/-- Somebody asks for a mailing when the cache of the mailer has served any requests. Whatever
happened otherwise, the mailing is refused without a trace, or it begins. To get or parse a text is
to resolve it. -/
theorem refused_or_begun (limits : Cache.Limits) (fp : String → UInt32)
    (rs : List (Cache.Order × Cache.Request)) (order : Cache.Order) (f : Office)
    (hf : f.mailer.cache = { ((Cache.Session.start limits fp).after rs).cache with order })
    (campaign text : String) (request : Option Nat) (source : Nat → Option Recipient) :
    let now := ((Cache.Session.start limits fp).after rs).now
    let m := f.mailer
    let asked := request.getD m.concurrency.usual
    (∀ r f', f.process now campaign text request source = (.error r, f') →
      (∀ source', f.process now campaign text request source' = (.error r, f')) ∧
      f'.runs = f.runs ∧
      f'.mailer = { m with
        cache := f'.mailer.cache
        meter := { m.meter with refused := m.meter.refused + 1 } } ∧
      (asked = 0 ∧ r = .noWorkers ∧ f'.mailer.cache = m.cache ∨
        1 ≤ asked ∧ ∃ e, Template.parse text = .error e ∧ r = .badTemplate e ∧
          f'.mailer.cache.store = m.cache.store ∧ f'.mailer.cache.ticks = m.cache.ticks ∧
          f'.mailer.cache.stats = { m.cache.stats with
            misses := m.cache.stats.misses + 1
            parses := m.cache.stats.parses + 1
            parseFailures := m.cache.stats.parseFailures + 1 })) ∧
    (asked = 0 → ∃ f', f.process now campaign text request source = (.error .noWorkers, f')) ∧
    (∀ e, 1 ≤ asked → Template.parse text = .error e →
      ∃ f', f.process now campaign text request source = (.error (.badTemplate e), f')) ∧
    (∀ t, 1 ≤ asked → Template.parse text = .ok t → ∃ limit f', 1 ≤ limit ∧
      limit ≤ max m.concurrency.most 1 ∧
      f.process now campaign text request source = (.ok (), f') ∧
      f'.runs = f.runs ++ [.start campaign t limit source]) ∧
    (∃ rs' order', (f.process now campaign text request source).2.mailer.cache =
      { ((Cache.Session.start limits fp).after rs').cache with order := order' }) ∧
    ∀ texts es now i w', let w := (Cache.Crowd.start (.empty limits fp) texts).follow es
      w.step now i = some w' → ∀ x s e, w.At i x s → Template.parse x = .error e →
        w'.cache.store = w.cache.store ∧ w'.cache.ticks = w.cache.ticks := by
  intro now m asked
  have hfault : ∀ e, Template.parse text = .error e →
      m.cache.resolve now text = (.error e, (m.cache.miss.parse text).2) :=
    fun e he => Cache.Session.resolve_fault hf he
  have htemplate : ∀ t, Template.parse text = .ok t →
      ∃ p cache, m.cache.resolve now text = (.ok p, cache) ∧ p.template = t :=
    fun t ht => Cache.Session.resolve_template hf ht
  refine ⟨?_, fun hzero => ⟨_, process_of_zero hzero⟩,
    fun e hpos he => ⟨_, process_of_fault hpos (hfault e he)⟩, ?_, ?_, ?_⟩
  · intro r f' hr
    obtain hzero | hpos := Nat.eq_zero_or_pos asked
    · cases (process_of_zero hzero).symm.trans hr
      exact ⟨fun _ => process_of_zero hzero, rfl, rfl, .inl ⟨hzero, rfl, rfl⟩⟩
    · cases hparse : Template.parse text with
      | ok t =>
        obtain ⟨p, cache, hp, -⟩ := htemplate t hparse
        cases (process_of_template hpos hp).symm.trans hr
      | error e =>
        cases (process_of_fault hpos (hfault e hparse)).symm.trans hr
        refine ⟨fun _ => process_of_fault hpos (hfault e hparse), rfl, rfl,
          .inr ⟨hpos, e, rfl, rfl, ?_⟩⟩
        rw [refusing, Cache.parse, hparse]
        exact ⟨rfl, rfl, rfl⟩
  · intro t hpos ht
    obtain ⟨p, cache, hp, rfl⟩ := htemplate t ht
    exact ⟨_, _, Nat.le_min.mpr ⟨hpos, Nat.le_max_right _ _⟩, Nat.min_le_right _ _,
      process_of_template hpos hp, rfl⟩
  · obtain hzero | hpos := Nat.eq_zero_or_pos asked
    · rw [process_of_zero hzero]
      exact ⟨rs, order, hf⟩
    · have hcache : (f.process now campaign text request source).2.mailer.cache =
          (m.cache.resolve now text).2 := by
        cases hparse : m.cache.resolve now text with
        | mk r cache =>
          cases r with
          | ok p => rw [process_of_template hpos hparse]
          | error e => rw [process_of_fault hpos hparse, refusing]
      refine ⟨rs ++ [(order, .resolve text)], (m.cache.resolve now text).2.order, ?_⟩
      rw [hcache, Cache.Session.after_concat]
      change (f.mailer.cache.resolve now text).2 = _
      rw [hf]
      rfl
  · intro texts es now i w' w hw x s e hi he
    obtain ⟨g, h, -⟩ := Cache.Crowd.accounted_follow
      (Cache.Crowd.start_accounted limits fp texts) es
    obtain ⟨y, s₁, w₁, s', hi', hturn, rfl⟩ := Cache.Crowd.turn_of_step hw
    cases hi.symm.trans hi'
    have hsame := h.store_turn hturn hi he
    exact hsame

theorem refused_or_begun_thrice :
    let limits : Cache.Limits := ⟨1, 10, by decide, by decide⟩
    let rs : List (Cache.Order × Cache.Request) := [(.asKept, .resolve "a"), (.asKept, .pass 9)]
    let s := (Cache.Session.start limits fun _ => 0).after rs
    let m := Mailer.start { s.cache with order := .asKept } .strict ⟨4, 2⟩ fun _ => .ofArray #[]
    let f : Office := ⟨m, []⟩
    let source : Nat → Option Recipient := fun _ => some ⟨"1", .empty⟩
    f.mailer.cache = { s.cache with order := .asKept } ∧
      (∃ f', f.process s.now "c" "{}" (some 0) source = (.error .noWorkers, f') ∧
        f'.runs = [] ∧ f'.mailer.cache = m.cache) ∧
      (∃ e f', f.process s.now "c" "{}" none source = (.error (.badTemplate e), f') ∧
        f'.runs = [] ∧ f'.mailer.cache.store = m.cache.store) ∧
      ∃ t limit f', 1 ≤ limit ∧ limit ≤ 2 ∧ f.process s.now "c" "b" (some 9) source = (.ok (), f') ∧
        f'.runs = [.start "c" t limit source] := by
  intro limits rs s m f source
  obtain ⟨e, he⟩ : ∃ e, Template.parse "{}" = .error e := ⟨_, by cbv⟩
  obtain ⟨t, ht⟩ : ∃ t, Template.parse "b" = .ok t := ⟨_, by cbv⟩
  obtain ⟨hrefused, hzero, -⟩ :=
    refused_or_begun limits (fun _ => 0) rs .asKept f rfl "c" "{}" (some 0) source
  obtain ⟨hrefused', -, hfault, -⟩ :=
    refused_or_begun limits (fun _ => 0) rs .asKept f rfl "c" "{}" none source
  obtain ⟨-, -, -, hbegun, -⟩ :=
    refused_or_begun limits (fun _ => 0) rs .asKept f rfl "c" "b" (some 9) source
  have hfour : 1 ≤ (none : Option Nat).getD m.concurrency.usual := by decide
  refine ⟨rfl, ?_, ?_, ?_⟩
  · obtain ⟨f', hf'⟩ := hzero rfl
    obtain ⟨-, hruns, -, ⟨-, -, hcache⟩ | ⟨hpos, -⟩⟩ := hrefused _ f' hf'
    · exact ⟨f', hf', hruns, hcache⟩
    · cases hpos
  · obtain ⟨f', hf'⟩ := hfault e hfour he
    obtain ⟨-, hruns, -, ⟨hzero, -⟩ | ⟨-, -, -, -, hstore, -⟩⟩ := hrefused' _ f' hf'
    · rw [hzero] at hfour
      cases hfour
    · exact ⟨e, f', hf', hruns, hstore⟩
  · obtain ⟨limit, f', hpos, hle, hf', hruns⟩ := hbegun t (by decide) ht
    exact ⟨t, limit, f', hpos, hle, hf', hruns⟩

end Office

end Spintax
