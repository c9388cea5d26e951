import Spintax.Proofs.Mailing.Deliveries
import Spintax.Proofs.Mailing.Figures

namespace Spintax

namespace Shift

/-- Whether the mailing is cancelled by some of the steps, at a moment when `p` holds of it. A step
that cannot be taken is passed over. -/
def cancelledWhen (p : Run → Bool) : List (Timestamp × Step) → Shift → Bool
  | [], _ => false
  | (now, a) :: as, s =>
    match s.step now a with
    | none => cancelledWhen p as s
    | some (_, s') => (a = .cancel && p s.run) || cancelledWhen p as s'

variable {s s' : Shift} {now : Timestamp} {a : Step} {o : Option Outcome} {p q : Run → Bool}
  {as : List (Timestamp × Step)} {k : Nat}

theorem cancelledWhen_skip (h : s.step now a = none) :
    s.cancelledWhen p ((now, a) :: as) = s.cancelledWhen p as := by
  rw [cancelledWhen, h]

theorem cancelledWhen_step (h : s.step now a = some (o, s')) :
    s.cancelledWhen p ((now, a) :: as) =
      (decide (a = .cancel) && p s.run || s'.cancelledWhen p as) := by
  rw [cancelledWhen, h]

theorem cancelledWhen_mono (h : ∀ r, p r = true → q r = true)
    (hp : s.cancelledWhen p as = true) : s.cancelledWhen q as = true := by
  induction as generalizing s with
  | nil => cases hp
  | cons a as ih =>
    obtain ⟨now, a⟩ := a
    cases hstep : s.step now a with
    | none =>
      rw [cancelledWhen_skip hstep] at hp ⊢
      exact ih hp
    | some os =>
      rw [cancelledWhen_step hstep, Bool.or_eq_true, Bool.and_eq_true] at hp ⊢
      exact hp.imp (And.imp_right (h _)) ih

namespace Move

theorem cancels (h : s.Move now a o s') :
    s'.run.cancelled = (s.run.cancelled || decide (a = .cancel)) := by
  cases h with
  | turn ha h =>
    have hne : a ≠ .cancel := by
      rintro rfl
      exact ha
    cases h <;> simp [hne]
  | refuse | lose => simp
  | cancel => simp

theorem scheduled_eq (h : s.Move now a o s') (hc : s'.run.cancelled = true) :
    s'.run.progress.scheduled = s.run.progress.scheduled := by
  rw [h.cancels, Bool.or_eq_true, decide_eq_true_eq] at hc
  obtain hc | rfl := hc
  · exact (h.cancelled hc).2.1
  · cases h with
    | turn ha => exact absurd ha id
    | cancel => rfl

end Move

/-- A property that a cancelled mailing has or lacks for good shows at the end whether it held when
the mailing was cancelled. -/
theorem cancelled_follow_eq (p : Run → Bool) (hs : s.run.Orderly)
    (hp : ∀ {s s' : Shift} {now : Timestamp} {a : Step} {o : Option Outcome}, s.Move now a o s' →
      s'.run.cancelled = true → p s'.run = p s.run)
    (as : List (Timestamp × Step)) :
    ((follow as s).2.run.cancelled && p (follow as s).2.run) =
      (s.run.cancelled && p s.run || s.cancelledWhen p as) := by
  induction as generalizing s with
  | nil => simp [follow, cancelledWhen]
  | cons a as ih =>
    obtain ⟨now, a⟩ := a
    rw [follow]
    split
    · next hstep =>
      rw [cancelledWhen_skip hstep]
      exact ih hs
    · next o s' hstep =>
      have hmove := move_of_step hs.numbered hstep
      have hstay : (s'.run.cancelled && p s'.run) = (s'.run.cancelled && p s.run) := by
        cases hc : s'.run.cancelled with
        | false => rfl
        | true => rw [hp hmove hc]
      rw [cancelledWhen_step hstep, ih (hmove.orderly hs), hstay, hmove.cancels,
        Bool.and_or_distrib_right, Bool.or_assoc]

theorem told_of_step (hn : s.run.Numbered) (h : s.step now a = some (o, s'))
    (hc : s.run.closed = false) :
    s'.run.closed = false ∧ s'.mailer.meter.cancelled = s.mailer.meter.cancelled ∨
      a = .close ∧ s'.run.closed = true ∧
        s'.mailer.meter.cancelled = s.mailer.meter.cancelled + s.run.cancelled.toNat := by
  cases does_of_step hn h with
  | schedule | refuse | exhaust | begin | leave | finish | yield | cancel => exact .inl ⟨hc, rfl⟩
  | render writer ht hm =>
    simp only [Mailer.render, Prod.mk.injEq] at hm
    obtain ⟨rfl, rfl⟩ := hm
    exact .inl ⟨hc, MailerMeter.cancelled_count _ _⟩
  | lose => exact .inl ⟨hc, MailerMeter.cancelled_count _ _⟩
  | close => exact .inr ⟨rfl, rfl, rfl⟩
  | rest he ht hclosed => exact absurd (hc.symm.trans hclosed) Bool.false_ne_true

theorem told_of_closed (hs : s.run.Orderly) (h : s.step now a = some (o, s'))
    (hc : s.run.closed = true) : s'.run.closed = true ∧
      s'.run.progress.scheduled = s.run.progress.scheduled ∧
      s'.mailer.meter.cancelled = s.mailer.meter.cancelled := by
  cases does_of_step hs.numbered h with
  | schedule he | refuse he | exhaust he =>
    rw [(hs.closed hc).1] at he
    cases he
  | begin ht | render writer ht | leave ht | finish ht | lose ht | yield ht =>
    exact absurd hc (hs.not_closed ht)
  | close he ht hopen => exact absurd (hopen.symm.trans hc) Bool.false_ne_true
  | cancel | rest => exact ⟨hc, rfl, rfl⟩

theorem told_follow_closed (hs : s.run.Orderly) (hc : s.run.closed = true)
    (as : List (Timestamp × Step)) : (follow as s).2.run.closed = true ∧
      (follow as s).2.run.progress.scheduled = s.run.progress.scheduled ∧
      (follow as s).2.mailer.meter.cancelled = s.mailer.meter.cancelled ∧
      s.cancelledWhen (!·.closed) as = false := by
  induction as generalizing s with
  | nil => exact ⟨hc, rfl, rfl, rfl⟩
  | cons a as ih =>
    obtain ⟨now, a⟩ := a
    rw [follow]
    split
    · next hstep =>
      rw [cancelledWhen_skip hstep]
      exact ih hs hc
    · next o s' hstep =>
      obtain ⟨hc', hsched', hmeter'⟩ := told_of_closed hs hstep hc
      obtain ⟨hclosed, hsched, hmeter, hnever⟩ :=
        ih ((move_of_step hs.numbered hstep).orderly hs) hc'
      rw [cancelledWhen_step hstep, hnever, hc, Bool.not_true, Bool.and_false, Bool.or_false]
      exact ⟨hclosed, hsched.trans hsched', hmeter.trans hmeter', rfl⟩

theorem told_follow (hs : s.run.Orderly) (ht : s.run.Thorough) (hc : s.run.closed = false)
    (as : List (Timestamp × Step)) (hclosed : (follow as s).2.run.closed = true) :
    (follow as s).2.mailer.meter.cancelled = s.mailer.meter.cancelled +
      (s.run.cancelled || s.cancelledWhen (!·.closed) as).toNat ∧
    ((s.run.cancelled || s.cancelledWhen (!·.closed) as) = false →
      s.run.source (follow as s).2.run.progress.scheduled = none) := by
  induction as generalizing s with
  | nil =>
    rw [follow, hc] at hclosed
    cases hclosed
  | cons a as ih =>
    obtain ⟨now, a⟩ := a
    rw [follow] at hclosed ⊢
    split at hclosed
    · next hstep =>
      rw [cancelledWhen_skip hstep]
      exact ih hs ht hc hclosed
    · next o s' hstep =>
      have hmove := move_of_step hs.numbered hstep
      have horderly := hmove.orderly hs
      have hthorough := hmove.thorough ht
      rw [cancelledWhen_step hstep, hc, Bool.not_false, Bool.and_true, ← Bool.or_assoc,
        ← hmove.cancels, ← hmove.alike.source]
      obtain ⟨hc', hmeter'⟩ | ⟨rfl, hc', hmeter'⟩ := told_of_step hs.numbered hstep hc
      · rw [← hmeter']
        exact ih horderly hthorough hc' hclosed
      · obtain ⟨-, hsched, hmeter, hnever⟩ := told_follow_closed horderly hc' as
        rw [hsched, hmeter, hmeter', hnever, Bool.or_false, hmove.cancels]
        refine ⟨by simp, fun hcancel => ?_⟩
        obtain ⟨htaken, hend⟩ := hthorough (hmove.cancels.trans hcancel)
        rw [← htaken]
        exact hend (horderly.closed hc').1

/-- What is left to do where nobody comes after the first `k` recipients: six steps for each of
those to come, and the rest of the steps for the others. -/
def toDo (k : Nat) (s : Shift) : Nat :=
  6 * (k - s.run.taken) + s.remaining

theorem Move.toDo_lt (h : s.Move now a o s') (hends : ∀ i, k ≤ i → s.run.source i = none)
    (hc : s.run.closed = false) (ha : a ≠ .cancel) : s'.toDo k < s.toDo k := by
  unfold toDo
  obtain ⟨htaken, hlt⟩ | ⟨-, hcomes, htaken, hremaining⟩ := h.remaining_lt_or_schedule hc ha
  · omega
  · have hlt : s.run.taken < k := by
      by_contra hle
      rw [hends _ (Nat.le_of_not_lt hle)] at hcomes
      cases hcomes
    omega

/-- A mailing that has only so many recipients can be brought to its end, whatever happened to
it. -/
theorem exists_drain (hs : s.run.Orderly) (hlimit : 1 ≤ s.run.limit)
    (hends : ∀ i, k ≤ i → s.run.source i = none) :
    ∃ cs : List (Timestamp × Step), (∀ c ∈ cs, c.2.Works) ∧ (s.follow cs).2.run.closed = true := by
  induction hleft : s.toDo k using Nat.strong_induction_on generalizing s with
  | _ n ih =>
    cases hc : s.run.closed with
    | true => exact ⟨[], by simp, hc⟩
    | false =>
      obtain ⟨a, ha, o, s', hstep⟩ := s.exists_step "" hlimit
      have hmove := move_of_step hs.numbered hstep
      have halike := hmove.alike
      have hne : a ≠ .cancel := by
        rintro rfl
        exact ha
      obtain ⟨cs, hcs, hclosed⟩ := ih _ (hleft ▸ hmove.toDo_lt hends hc hne) (hmove.orderly hs)
        (halike.limit.symm ▸ hlimit) (halike.source.symm ▸ hends) rfl
      refine ⟨("", a) :: cs, List.forall_mem_cons.mpr ⟨ha, hcs⟩, ?_⟩
      rw [follow, hstep]
      exact hclosed

variable {m : Mailer} {campaign : String} {t : Template} {limit : Nat}
  {recipients : List Recipient} {os : List Outcome} {e : Shift}

theorem moments_closed (h : follow as ⟨m, .start campaign t limit (recipients[·]?)⟩ = (os, e))
    (hc : e.run.closed = true) :
    let begun : Shift := ⟨m, .start campaign t limit (recipients[·]?)⟩
    let early := begun.cancelledWhen (·.progress.scheduled < recipients.length) as
    let inTime := begun.cancelledWhen (!·.closed) as
    let ever := begun.cancelledWhen (fun _ => true) as
    (e.run.progress.scheduled < recipients.length ↔ early = true) ∧
    (early = true → inTime = true) ∧ (inTime = true → ever = true) ∧
    e.mailer.meter.cancelled = m.meter.cancelled + inTime.toNat ∧ e.run.cancelled = ever := by
  intro begun early inTime ever
  have he : (follow as begun).2 = e := congrArg Prod.snd h
  have hstart : begun.run.Orderly := Run.orderly_start campaign t limit _
  have htold := told_follow hstart (Run.thorough_start campaign t limit _) rfl as (he.symm ▸ hc)
  have hearly : ((follow as begun).2.run.cancelled &&
      decide ((follow as begun).2.run.progress.scheduled < recipients.length)) = early :=
    cancelled_follow_eq (·.progress.scheduled < recipients.length) hstart
      (fun hmove hc => by rw [hmove.scheduled_eq hc]) as
  have hever : ((follow as begun).2.run.cancelled && true) = ever :=
    cancelled_follow_eq (fun _ => true) hstart (fun _ _ => rfl) as
  rw [he] at htold hearly hever
  rw [Bool.and_true] at hever
  obtain ⟨hmeter, hend⟩ := htold
  have hmono : inTime = true → ever = true := cancelledWhen_mono fun _ _ => rfl
  have hsched : e.run.progress.scheduled < recipients.length → inTime = true := by
    intro hlt
    by_contra hnever
    have hnone := hend (Bool.eq_false_of_not_eq_true hnever)
    have hlen : recipients.length ≤ e.run.progress.scheduled := List.getElem?_eq_none_iff.mp hnone
    omega
  have hiff : e.run.progress.scheduled < recipients.length ↔ early = true := by
    rw [← hearly, Bool.and_eq_true, decide_eq_true_eq, hever]
    exact ⟨fun hlt => ⟨hmono (hsched hlt), hlt⟩, And.right⟩
  exact ⟨hiff, fun h => hsched (hiff.mpr h), hmono, hmeter, hever⟩

/-- At the end of a mailing each outcome belongs to a recipient of its own, and somebody is left if
not all were scheduled. -/
theorem left_closed (h : follow as ⟨m, .start campaign t limit (recipients[·]?)⟩ = (os, e))
    (hc : e.run.closed = true) :
    ∃ done : List (Nat × Outcome), done.map Prod.snd = os ∧ (done.map Prod.fst).Nodup ∧
      (∀ d ∈ done, ∃ p, recipients[d.1]? = some p ∧ d.2.recipient = p.id) ∧
      ((∃ i < recipients.length, i ∉ done.map Prod.fst) ↔
        e.run.progress.scheduled < recipients.length) := by
  have hdone := follow_closed m campaign t limit (recipients[·]?) as (by rwa [h])
  rw [h] at hdone
  obtain ⟨done, hos, heveryone, hsource, -⟩ := hdone
  refine ⟨done, hos, heveryone.nodup_iff.mpr List.nodup_range, hsource, ?_⟩
  simp only [heveryone.mem_iff, List.mem_range, Nat.not_lt]
  exact ⟨fun ⟨i, hi, hle⟩ => Nat.lt_of_le_of_lt hle hi, fun h => ⟨_, h, Nat.le_refl _⟩⟩

end Shift

/-- A mailing is sent to some recipients. It goes on for some steps before it is delivered to a
sink, and for some more until the summary is made. -/
theorem Shift.tells_cancelled {σ : Type} (sink : Sink σ) (state : σ) (m : Mailer)
    (campaign : String) (t : Template) (limit : Nat) (recipients : List Recipient)
    (as : List (Timestamp × Step)) :
    let begun : Shift := ⟨m, .start campaign t limit (recipients[·]?)⟩
    let s := begun.follow as
    (∀ now n, ∃ bs : List (Timestamp × Step), (∀ b ∈ bs, b.2.Works) ∧
      let d := Dispatch.follow sink bs (.start s.2 state)
      s.2.deliverTo now n sink state = (d.summary, d.state, d.shift)) ∧
    ∀ bs : List (Timestamp × Step),
      let d := Dispatch.follow sink bs (.start s.2 state)
      let rises := (Office.mk m []).meters.Rises (Office.mk d.shift.mailer []).meters
        "ara_variation_bulk_runs_cancelled_total"
      let early := begun.cancelledWhen (·.progress.scheduled < recipients.length) (as ++ bs)
      let inTime := begun.cancelledWhen (!·.closed) (as ++ bs)
      let ever := begun.cancelledWhen (fun _ => true) (as ++ bs)
      (1 ≤ limit → ∃ cs : List (Timestamp × Step), (∀ c ∈ cs, c.2.Works) ∧
        (d.shift.follow cs).2.run.closed = true) ∧
      (d.shift.run.closed = true → ∃ done : List (Nat × Outcome),
        done.map Prod.snd = s.1 ++ d.answered.map Prod.fst ∧ (done.map Prod.fst).Nodup ∧
        (∀ e ∈ done, ∃ p, recipients[e.1]? = some p ∧ e.2.recipient = p.id) ∧
        let left := ∃ i < recipients.length, i ∉ done.map Prod.fst
        -- Somebody is left without an outcome just when the mailing is cancelled early.
        (left ↔ early = true) ∧ rises inTime.toNat ∧ d.summary.cancelled = ever ∧
        -- If somebody is left, both reports tell of it.
        (left → rises 1 ∧ d.summary.cancelled = true) ∧
        -- The figure tells of nothing else just when a mailing that is cancelled in time is
        -- cancelled early, and the summary just when one that is cancelled at all is.
        ((rises 1 ↔ left) ↔ (inTime = true → early = true)) ∧
        ((d.summary.cancelled = true ↔ left) ↔ (ever = true → early = true))) := by
  intro begun s
  refine ⟨fun now n => s.2.deliverTo_eq_follow_works sink now n state, fun bs => ?_⟩
  intro d rises early inTime ever
  have hd : d = ⟨(s.2.follow bs).2, (sink.answers (s.2.follow bs).1 state).1,
      (sink.answers (s.2.follow bs).1 state).2⟩ := Dispatch.follow_start sink bs s.2 state
  have hos : d.answered.map Prod.fst = (s.2.follow bs).1 := by
    rw [hd]
    exact sink.map_fst_answers _ _
  have hall : begun.follow (as ++ bs) = (s.1 ++ d.answered.map Prod.fst, d.shift) := by
    rw [follow_append, hos, hd]
  have hstart : begun.run.Orderly := Run.orderly_start campaign t limit _
  refine ⟨fun hlimit => ?_, fun hc => ?_⟩
  · have halike := alike_follow hstart (as ++ bs)
    rw [hall] at halike
    have horderly := orderly_follow hstart (as ++ bs)
    rw [hall] at horderly
    refine exists_drain (k := recipients.length) horderly (by rwa [halike.limit]) fun i hi => ?_
    rw [halike.source]
    exact List.getElem?_eq_none hi
  · obtain ⟨hsched, hearly, hlate, hmeter, htold⟩ := moments_closed hall hc
    obtain ⟨done, hos, hnodup, hsource, hleft⟩ := left_closed hall hc
    have hrises : rises inTime.toNat := ⟨m.meter.cancelled, rfl, congrArg some hmeter⟩
    have hone : rises 1 ↔ inTime = true := by
      refine (Meters.Rises.iff_eq hrises).trans ?_
      cases inTime <;> decide
    have htold : d.summary.cancelled = ever := d.cancelled_summary.trans htold
    refine ⟨done, hos, hnodup, hsource, hleft.trans hsched, hrises, htold, ?_⟩
    rw [hleft.trans hsched, hone, htold]
    exact ⟨fun h => ⟨hearly h, hlate (hearly h)⟩,
      ⟨Iff.mp, fun h => ⟨h, hearly⟩⟩, ⟨Iff.mp, fun h => ⟨h, hlate ∘ hearly⟩⟩⟩

theorem Shift.tells_cancelled_early :
    let m : Mailer := .start (.empty .standard fun _ => 0) .strict .standard fun _ => .splitMix 7
    let recipients : List Recipient := [⟨"1", .ofList [("x", "y")]⟩, ⟨"1", .empty⟩, ⟨"2", .empty⟩]
    let as : List (Timestamp × Step) :=
      [.schedule, .schedule, .begin 1, .render 1 0, .leave 1, .finish 1, .yield 1].map ("0", ·)
    let bs : List (Timestamp × Step) :=
      [.begin 0, .cancel, .schedule, .render 0 3, .leave 0, .finish 0, .yield 0, .close,
        .cancel].map ("1", ·)
    ∃ t, Template.parse "{a|b}{{x}}" = .ok t ∧
      let s := Shift.follow as ⟨m, .start "c" t 2 (recipients[·]?)⟩
      let d := Dispatch.follow .memory bs (.start s.2 [])
      1 ≤ 2 ∧ (∃ cs : List (Timestamp × Step), (∀ c ∈ cs, c.2.Works) ∧
        (d.shift.follow cs).2.run.closed = true) ∧
      d.shift.run.closed = true ∧ ∃ done : List (Nat × Outcome),
        done.map Prod.snd = s.1 ++ d.answered.map Prod.fst ∧ (done.map Prod.fst).Nodup ∧
        (∃ i < recipients.length, i ∉ done.map Prod.fst) ∧
        (Office.mk m []).meters.Rises (Office.mk d.shift.mailer []).meters
          "ara_variation_bulk_runs_cancelled_total" 1 ∧
        d.summary.cancelled = true := by
  intro m recipients as bs
  obtain ⟨t, ht, hearly, hclosed⟩ : ∃ t, Template.parse "{a|b}{{x}}" = .ok t ∧
      Shift.cancelledWhen (·.progress.scheduled < recipients.length) (as ++ bs)
        ⟨m, .start "c" t 2 (recipients[·]?)⟩ = true ∧
      (Dispatch.follow .memory bs (.start (Shift.follow as
        ⟨m, .start "c" t 2 (recipients[·]?)⟩).2 [])).shift.run.closed = true :=
    ⟨_, by cbv, by cbv, by cbv⟩
  have hlimit : 1 ≤ 2 := by decide
  clear_value m recipients as bs
  obtain ⟨hdrain, hend⟩ := (Shift.tells_cancelled .memory [] m "c" t 2 recipients as).2 bs
  obtain ⟨done, hos, hnodup, -, hleft, -, -, htold, -⟩ := hend hclosed
  exact ⟨t, ht, hlimit, hdrain hlimit, hclosed, done, hos, hnodup, hleft.mpr hearly,
    htold (hleft.mpr hearly)⟩

/-- The only recipient has had its outcome, and the source is exhausted, when the mailing is
cancelled. Nobody is left, but both reports tell of it. -/
theorem Shift.tells_cancelled_late :
    let m : Mailer := .start (.empty .standard fun _ => 0) .strict .standard fun _ => .splitMix 0
    let recipients : List Recipient := [⟨"a", .empty⟩]
    ∃ t, Template.parse "hi" = .ok t ∧
      let pulled := Shift.pulls "0" 1 ⟨m, .start "c" t 2 (recipients[·]?)⟩
      let told := (pulled.2.cancel "0").deliverTo "0" 2 .memory []
      pulled.1.map (·.recipient) = recipients.map (·.id) ∧ pulled.2.run.exhausted = true ∧
        told.2.2.run.closed = true ∧ told.1.total = 0 ∧
        (Office.mk m []).meters.Rises (Office.mk told.2.2.mailer []).meters
          "ara_variation_bulk_runs_cancelled_total" 1 ∧
        told.1.cancelled = true :=
  ⟨_, by cbv, by cbv, by cbv, by cbv, by cbv, ⟨0, by cbv, by cbv⟩, by cbv⟩

end Spintax
