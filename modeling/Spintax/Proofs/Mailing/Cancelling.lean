import Mathlib.Data.List.Range
import Spintax.Proofs.Mailing.Moves

namespace Spintax

theorem Outcome.recipient_ofDrawn (id : String) (drawn : Drawn (Except RenderError Rendered)) :
    (ofDrawn id drawn).recipient = id := by
  obtain e | ⟨e | m, s⟩ := drawn <;> rfl

namespace Run

/-- The recipients are taken from the source one after the other. Those that are done and those
at work are those that were scheduled, and the outcomes are theirs. -/
structure Assigned (r : Run) (done : List (Nat × Outcome)) : Prop where
  room : r.tasks.length ≤ r.limit
  taken : r.taken = r.progress.scheduled ∨
    r.taken = r.progress.scheduled + 1 ∧ r.exhausted = true
  everyone : (done.map Prod.fst ++ r.tasks.map (·.number)).Perm
    (List.range r.progress.scheduled)
  tasks : ∀ t ∈ r.tasks, r.source t.number = some t.recipient ∧
    ∀ o, t.stage.outcome? = some o → o.recipient = t.recipient.id
  done : ∀ d ∈ done, ∃ p, r.source d.1 = some p ∧ d.2.recipient = p.id

theorem assigned_start (campaign : String) (t : Template) (limit : Nat)
    (source : Nat → Option Recipient) : (start campaign t limit source).Assigned [] where
  room := Nat.zero_le _
  taken := .inl rfl
  everyone := List.Perm.refl _
  tasks t ht := by cases ht
  done d hd := by cases hd

namespace Assigned

variable {r : Run} {done : List (Nat × Outcome)} {l us : List Task} {t : Task}

theorem change (h : r.Assigned done) {stage : TaskStage} {progress : Progress}
    (ht : r.tasks = l ++ t :: us) (hp : progress.scheduled = r.progress.scheduled)
    (ho : ∀ o, stage.outcome? = some o → o.recipient = t.recipient.id) :
    Assigned { r with tasks := l ++ { t with stage } :: us, progress } done := by
  obtain ⟨hroom, htaken, heveryone, htasks, hdone⟩ := h
  rw [ht] at hroom heveryone htasks
  rw [List.forall_mem_append, List.forall_mem_cons] at htasks
  obtain ⟨hl, htask, hus⟩ := htasks
  refine ⟨by simpa using hroom, by rwa [hp], ?_, ?_, hdone⟩
  · rw [hp]
    simpa using heveryone
  · rw [List.forall_mem_append, List.forall_mem_cons]
    exact ⟨hl, ⟨htask.1, ho⟩, hus⟩

theorem schedule (h : r.Assigned done) {p : Recipient} (he : r.exhausted = false)
    (hroom : r.tasks.length < r.limit) (hp : r.source r.taken = some p) :
    Assigned { r with
      taken := r.taken + 1
      tasks := r.tasks ++ [⟨r.progress.scheduled, p, .waiting⟩]
      progress := r.progress.schedule } done := by
  obtain ⟨-, htaken, heveryone, htasks, hdone⟩ := h
  have htaken : r.taken = r.progress.scheduled := by simpa [he] using htaken
  rw [htaken] at hp
  refine ⟨by simpa using hroom, by simp [htaken, Progress.schedule], ?_, ?_, hdone⟩
  · simp only [Progress.schedule, List.range_succ, List.map_append, List.map_cons, List.map_nil,
      ← List.append_assoc]
    exact heveryone.append_right _
  · rw [List.forall_mem_append, List.forall_mem_singleton]
    exact ⟨htasks, hp, fun o ho => by cases ho⟩

theorem yield (h : r.Assigned done) {o : Outcome} (ht : r.tasks = l ++ t :: us)
    (ho : t.stage.outcome? = some o) :
    Assigned { r with tasks := l ++ us, yielded := r.yielded + 1 } (done ++ [(t.number, o)]) := by
  obtain ⟨hroom, htaken, heveryone, htasks, hdone⟩ := h
  rw [ht] at hroom heveryone htasks
  rw [List.forall_mem_append, List.forall_mem_cons] at htasks
  obtain ⟨hl, ⟨hsource, hout⟩, hus⟩ := htasks
  refine ⟨?_, htaken, ?_, List.forall_mem_append.mpr ⟨hl, hus⟩, ?_⟩
  · simp only [List.length_append, List.length_cons] at hroom ⊢
    omega
  · rw [List.map_append, List.append_assoc, List.map_singleton, List.singleton_append,
      List.map_append]
    rw [List.map_append, List.map_cons] at heveryone
    exact (List.perm_middle.symm.append_left _).trans heveryone
  · rw [List.forall_mem_append, List.forall_mem_singleton]
    exact ⟨hdone, t.recipient, hsource, hout o ho⟩

end Assigned

end Run

namespace Shift

variable {s s' : Shift} {now : Timestamp} {a : Step} {o : Option Outcome}
  {done : List (Nat × Outcome)}

namespace Move

theorem assigned (h : s.Move now a o s') (hr : s.run.Assigned done) :
    ∃ done', s'.run.Assigned (done ++ done') ∧ o.toList = done'.map Prod.snd := by
  have hquiet : ∀ {r : Run}, r.Assigned done →
      ∃ done', r.Assigned (done ++ done') ∧ [] = done'.map Prod.snd :=
    fun {r} h => ⟨[], by rwa [List.append_nil], rfl⟩
  cases h with
  | turn ha h =>
    cases h with
    | schedule hc he hroom hp => exact hquiet (hr.schedule he hroom hp)
    | exhaust => exact hquiet { hr with taken := hr.taken.imp_right fun h => ⟨h.1, rfl⟩ }
    | @advance l us t stage progress ht ho hlt hp =>
      have hout := (hr.tasks t (by simp [ht])).2
      exact hquiet (hr.change ht hp fun o hstage => hout o (ho ▸ hstage))
    | render writer ht hst hm =>
      simp only [Mailer.render, Prod.mk.injEq] at hm
      obtain ⟨rfl, -⟩ := hm
      refine hquiet (hr.change ht rfl fun o ho => ?_)
      cases ho
      exact Outcome.recipient_ofDrawn _ _
    | yield ht hst => exact ⟨[(_, _)], hr.yield ht (by rw [hst]; rfl), rfl⟩
    | close => exact hquiet { hr with }
  | refuse hc he hp =>
    have htaken : s.run.taken = s.run.progress.scheduled := by simpa [he] using hr.taken
    exact hquiet { hr with taken := .inr ⟨by rw [htaken], rfl⟩ }
  | lose ht =>
    refine hquiet (hr.change ht rfl fun o ho => ?_)
    cases ho
    rfl
  | cancel => exact hquiet { hr with }

theorem cancelled (h : s.Move now a o s') (hc : s.run.cancelled = true) :
    s'.run.cancelled = true ∧ s'.run.progress.scheduled = s.run.progress.scheduled ∧
      o.toList.length + s'.run.tasks.length = s.run.tasks.length := by
  cases h with
  | turn ha h =>
    cases h with
    | schedule hcancel =>
      rw [hc] at hcancel
      cases hcancel
    | exhaust | close => exact ⟨hc, rfl, Nat.zero_add _⟩
    | advance ht ho hlt hp => exact ⟨hc, hp, by simp [ht]⟩
    | render writer ht => exact ⟨hc, rfl, by simp [ht]⟩
    | yield ht =>
      refine ⟨hc, rfl, ?_⟩
      simp only [ht, Option.toList_some, List.length_append, List.length_cons, List.length_nil]
      omega
  | refuse => exact ⟨hc, rfl, Nat.zero_add _⟩
  | lose ht => exact ⟨hc, rfl, by simp [ht]⟩
  | cancel => exact ⟨rfl, rfl, Nat.zero_add _⟩

end Move

/-- What is left to do after a cancellation: the rest of the steps for those at work, and one step
each to find the end and to close. -/
def remaining (s : Shift) : Nat :=
  (s.run.tasks.map (·.stage.rank)).sum + (!s.run.exhausted).toNat + (!s.run.closed).toNat

theorem Move.remaining_lt_or_schedule (h : s.Move now a o s') (hc : s.run.closed = false)
    (ha : a ≠ .cancel) :
    s.run.taken ≤ s'.run.taken ∧ s'.remaining < s.remaining ∨
      s.run.cancelled = false ∧ (s.run.source s.run.taken).isSome ∧
        s'.run.taken = s.run.taken + 1 ∧ s'.remaining = s.remaining + 5 := by
  cases h with
  | turn _ h =>
    cases h with
    | schedule hgoing _ _ hp =>
      refine .inr ⟨hgoing, by rw [hp]; rfl, rfl, ?_⟩
      simp only [remaining, List.map_append, List.map_cons, List.map_nil, List.sum_append,
        List.sum_cons, List.sum_nil, TaskStage.rank]
      omega
    | exhaust he => exact .inl ⟨Nat.le_refl _, by simp [remaining, he]⟩
    | advance ht ho hr =>
      refine .inl ⟨Nat.le_refl _, ?_⟩
      simp [remaining, ht]
      omega
    | render writer ht hst =>
      exact .inl ⟨Nat.le_refl _, by simp [remaining, ht, hst, TaskStage.rank]⟩
    | yield ht hst => exact .inl ⟨Nat.le_refl _, by simp [remaining, ht, hst, TaskStage.rank]⟩
    | close => exact .inl ⟨Nat.le_refl _, by simp [remaining, hc]⟩
  | refuse _ he => exact .inl ⟨Nat.le_succ _, by simp [remaining, he]⟩
  | lose ht hst => exact .inl ⟨Nat.le_refl _, by simp [remaining, ht, hst, TaskStage.rank]⟩
  | cancel => exact absurd rfl ha

theorem Move.remaining_lt (h : s.Move now a o s') (hcancel : s.run.cancelled = true)
    (hc : s.run.closed = false) (ha : a ≠ .cancel) : s'.remaining < s.remaining := by
  obtain ⟨-, hlt⟩ | ⟨hgoing, -⟩ := h.remaining_lt_or_schedule hc ha
  · exact hlt
  · rw [hcancel] at hgoing
    cases hgoing

theorem remaining_le (s : Shift) : s.remaining ≤ 5 * s.run.tasks.length + 2 := by
  have hrank : ∀ n ∈ s.run.tasks.map (·.stage.rank), n ≤ 5 := by
    intro n hn
    obtain ⟨t, -, rfl⟩ := List.mem_map.mp hn
    cases t.stage <;> simp [TaskStage.rank]
  have hsum := List.sum_le_card_nsmul _ 5 hrank
  rw [List.length_map, smul_eq_mul, Nat.mul_comm] at hsum
  have h₁ := Bool.toNat_le (!s.run.exhausted)
  have h₂ := Bool.toNat_le (!s.run.closed)
  unfold remaining
  omega

/-- All of the steps can be taken, each before the end of the mailing, and none of them only
cancels it. -/
def Busy : List (Timestamp × Step) → Shift → Prop
  | [], _ => True
  | (now, a) :: as, s => s.run.closed = false ∧ a ≠ .cancel ∧
      ∃ o s', s.step now a = some (o, s') ∧ Busy as s'

variable {as bs : List (Timestamp × Step)}

theorem follow_append (as bs : List (Timestamp × Step)) (s : Shift) :
    follow (as ++ bs) s =
      ((follow as s).1 ++ (follow bs (follow as s).2).1, (follow bs (follow as s).2).2) := by
  induction as generalizing s with
  | nil => rfl
  | cons a as ih =>
    obtain ⟨now, a⟩ := a
    rw [List.cons_append, follow, follow]
    split
    · exact ih s
    · rw [ih, List.append_assoc]

/-- What each step keeps, given what was yielded so far, is kept over all steps. -/
theorem follow_induction {P : List Outcome → Shift → Prop}
    (h : ∀ {os : List Outcome} {s s' : Shift} {now : Timestamp} {a : Step} {o : Option Outcome},
      s.run.Orderly → s.Move now a o s' → P os s → P (os ++ o.toList) s')
    (as : List (Timestamp × Step)) (os : List Outcome) (hs : s.run.Orderly) (h₀ : P os s) :
    (follow as s).2.run.Orderly ∧ P (os ++ (follow as s).1) (follow as s).2 := by
  induction as generalizing s os with
  | nil =>
    rw [follow, List.append_nil]
    exact ⟨hs, h₀⟩
  | cons a as ih =>
    obtain ⟨now, a⟩ := a
    rw [follow]
    split
    · exact ih os hs h₀
    · next hstep =>
      have hmove := move_of_step hs.numbered hstep
      rw [← List.append_assoc]
      exact ih _ (hmove.orderly hs) (h hs hmove h₀)

theorem orderly_follow (hs : s.run.Orderly) (as : List (Timestamp × Step)) :
    (follow as s).2.run.Orderly :=
  (follow_induction (P := fun _ _ => True) (fun _ _ _ => trivial) as [] hs trivial).1

theorem alike_follow (hs : s.run.Orderly) (as : List (Timestamp × Step)) :
    s.run.Alike (follow as s).2.run := by
  refine (follow_induction (P := fun _ s' => s.run.Alike s'.run) ?_ as [] hs
    (.refl _)).2
  intro os s₁ s₂ now a o _ hmove h
  exact h.trans hmove.alike

theorem assigned_follow (hs : s.run.Orderly) (hr : s.run.Assigned [])
    (as : List (Timestamp × Step)) :
    ∃ done, (follow as s).2.run.Assigned done ∧ (follow as s).1 = done.map Prod.snd := by
  refine (follow_induction (P := fun os s' => ∃ done, s'.run.Assigned done ∧
    os = done.map Prod.snd) ?_ as [] hs ⟨[], hr, rfl⟩).2
  rintro os s₁ s₂ now a o - hmove ⟨done, hdone, rfl⟩
  obtain ⟨done', hdone', ho⟩ := hmove.assigned hdone
  exact ⟨done ++ done', hdone', by rw [ho, List.map_append]⟩

theorem enters_follow (hs : s.run.Orderly) (as : List (Timestamp × Step)) : ∃ records,
    (follow as s).2.mailer.tracker = s.mailer.tracker.recordAll s.run.campaign records ∧
    (∀ e ∈ records, s.run.template.Shows e.2.2) ∧
    (follow as s).2.run.held.countP Outcome.isSuccess +
        (follow as s).1.countP Outcome.isSuccess =
      s.run.held.countP Outcome.isSuccess + records.length := by
  refine (follow_induction (P := fun os s' => s.run.Alike s'.run ∧ ∃ records,
    s'.mailer.tracker = s.mailer.tracker.recordAll s.run.campaign records ∧
    (∀ e ∈ records, s.run.template.Shows e.2.2) ∧
    s'.run.held.countP Outcome.isSuccess + os.countP Outcome.isSuccess =
      s.run.held.countP Outcome.isSuccess + records.length) ?_ as [] hs
    ⟨.refl _, [], rfl, by simp, rfl⟩).2.2
  rintro os s₁ s₂ now a o - hmove ⟨halike, records, htracker, hshows, hwon⟩
  obtain ⟨records', htracker', hshows', hwon'⟩ := hmove.enters
  rw [halike.campaign, htracker, ← Tracker.recordAll_append] at htracker'
  rw [halike.template] at hshows'
  refine ⟨halike.trans hmove.alike, records ++ records', htracker', ?_, ?_⟩
  · exact List.forall_mem_append.mpr ⟨hshows, hshows'⟩
  · rw [List.countP_append, List.length_append]
    omega

theorem cancelled_follow (hs : s.run.Orderly) (hc : s.run.cancelled = true)
    (as : List (Timestamp × Step)) : (follow as s).2.run.cancelled = true ∧
      (follow as s).2.run.progress.scheduled = s.run.progress.scheduled ∧
      (follow as s).1.length + (follow as s).2.run.tasks.length = s.run.tasks.length := by
  refine (follow_induction (P := fun os s' => s'.run.cancelled = true ∧
    s'.run.progress.scheduled = s.run.progress.scheduled ∧
    os.length + s'.run.tasks.length = s.run.tasks.length) ?_ as [] hs
    ⟨hc, rfl, Nat.zero_add _⟩).2
  rintro os s₁ s₂ now a o - hmove ⟨hc, hsched, hlen⟩
  obtain ⟨hc', hsched', hlen'⟩ := hmove.cancelled hc
  refine ⟨hc', hsched'.trans hsched, ?_⟩
  rw [List.length_append]
  omega

theorem Busy.length_le (hs : s.run.Orderly) (hc : s.run.cancelled = true) (h : Busy as s) :
    as.length ≤ s.remaining := by
  induction as generalizing s with
  | nil => exact Nat.zero_le _
  | cons a as ih =>
    obtain ⟨now, a⟩ := a
    obtain ⟨hclosed, ha, o, s', hstep, hbusy⟩ := h
    have hmove := move_of_step hs.numbered hstep
    have hlt := hmove.remaining_lt hc hclosed ha
    have hle := ih (hmove.orderly hs) (hmove.cancelled hc).1 hbusy
    rw [List.length_cons]
    omega

theorem Busy.concat {b : Timestamp × Step} (h : Busy as s) (hb : Busy [b] (follow as s).2) :
    Busy (as ++ [b]) s := by
  induction as generalizing s with
  | nil => exact hb
  | cons a as ih =>
    obtain ⟨now, a⟩ := a
    obtain ⟨hclosed, ha, o, s', hstep, hbusy⟩ := h
    rw [follow, hstep] at hb
    exact ⟨hclosed, ha, o, s', hstep, ih hbusy hb⟩

/-- While a cancelled mailing is not at its end there is a step to take, and there are only so many
of them. -/
theorem Busy.drains (hs : s.run.Orderly) (hc : s.run.cancelled = true)
    (hlimit : 1 ≤ s.run.limit) (hroom : s.run.tasks.length ≤ s.run.limit) (h : Busy as s) :
    as.length ≤ 5 * s.run.limit + 2 ∧
      ((follow as s).2.run.closed = true ∨ ∃ b, Busy (as ++ [b]) s) := by
  constructor
  · have hle := h.length_le hs hc
    have hmax := s.remaining_le
    omega
  · by_cases hclosed : (follow as s).2.run.closed = true
    · exact .inl hclosed
    · rw [Bool.not_eq_true] at hclosed
      have hlimit' : 1 ≤ (follow as s).2.run.limit := by
        rwa [(alike_follow hs as).limit]
      obtain ⟨a, ha, o, s', hstep⟩ := exists_step "" hlimit'
      refine .inr ⟨("", a), h.concat ⟨hclosed, ?_, o, s', hstep, trivial⟩⟩
      rintro rfl
      exact ha

/-- At the end of a mailing, whatever happened to it, each recipient that was scheduled has had its
outcome once, and the tracker has a record for each of the messages. -/
theorem follow_closed (m : Mailer) (campaign : String) (t : Template) (limit : Nat)
    (source : Nat → Option Recipient) (as : List (Timestamp × Step))
    (hc : (follow as ⟨m, .start campaign t limit source⟩).2.run.closed = true) :
    let s := follow as ⟨m, .start campaign t limit source⟩
    ∃ done : List (Nat × Outcome), done.map Prod.snd = s.1 ∧
      (done.map Prod.fst).Perm (List.range s.2.run.progress.scheduled) ∧
      (∀ d ∈ done, ∃ p, source d.1 = some p ∧ d.2.recipient = p.id) ∧
      ∃ records, s.2.mailer.tracker = m.tracker.recordAll campaign records ∧
        records.length = s.1.countP Outcome.isSuccess := by
  intro s
  let s₀ : Shift := ⟨m, .start campaign t limit source⟩
  have hstart : s₀.run.Orderly := Run.orderly_start campaign t limit source
  have hassign : s₀.run.Assigned [] := Run.assigned_start campaign t limit source
  have htasks : s.2.run.tasks = [] := ((orderly_follow hstart as).closed hc).2
  obtain ⟨done, hdone, hos⟩ := assigned_follow hstart hassign as
  obtain ⟨records, htracker, -, hwon⟩ := enters_follow hstart as
  refine ⟨done, hos.symm, ?_, ?_, records, htracker, ?_⟩
  · have heveryone : (done.map Prod.fst ++ s.2.run.tasks.map (·.number)).Perm
        (List.range s.2.run.progress.scheduled) := hdone.everyone
    rwa [htasks, List.map_nil, List.append_nil] at heveryone
  · have hsource : s.2.run.source = source := (alike_follow hstart as).source
    intro d hd
    rw [← hsource]
    exact hdone.done d hd
  · have hwon : s.2.run.held.countP Outcome.isSuccess + s.1.countP Outcome.isSuccess =
        0 + records.length := hwon
    rw [Run.held_eq_nil htasks, List.countP_nil] at hwon
    omega

/-- A mailing is cancelled after any steps, and any steps follow. The source may be endless. -/
theorem follow_cancelled (m : Mailer) (campaign : String) (t : Template) {limit : Nat}
    (hlimit : 1 ≤ limit) (source : Nat → Option Recipient) (as : List (Timestamp × Step))
    (now : Timestamp) (bs : List (Timestamp × Step)) :
    let s := follow as ⟨m, .start campaign t limit source⟩
    let e := follow bs (s.2.cancel now)
    let scheduled := s.2.run.progress.scheduled
    e.2.run.progress.scheduled = scheduled ∧
    scheduled ≤ e.2.run.taken ∧ e.2.run.taken ≤ scheduled + 1 ∧
    e.1.length ≤ limit ∧
    (Busy bs (s.2.cancel now) → bs.length ≤ 5 * limit + 2 ∧
      (e.2.run.closed = true ∨ ∃ b, Busy (bs ++ [b]) (s.2.cancel now))) ∧
    (e.2.run.closed = true →
      ∃ done : List (Nat × Outcome), done.map Prod.snd = s.1 ++ e.1 ∧
        (done.map Prod.fst).Perm (List.range scheduled) ∧
        (∀ d ∈ done, ∃ p, source d.1 = some p ∧ d.2.recipient = p.id) ∧
        ∃ records, e.2.mailer.tracker = m.tracker.recordAll campaign records ∧
          records.length = (s.1 ++ e.1).countP Outcome.isSuccess) := by
  intro s e scheduled
  let s₀ : Shift := ⟨m, .start campaign t limit source⟩
  have hstart : s₀.run.Orderly := Run.orderly_start campaign t limit source
  have hassign : s₀.run.Assigned [] := Run.assigned_start campaign t limit source
  -- the steps before and after the cancellation are those of one mailing
  have hall : follow (as ++ (now, .cancel) :: bs) s₀ = (s.1 ++ e.1, e.2) := by
    rw [follow_append, follow]
    rfl
  have hmove : s.2.Move now .cancel none (s.2.cancel now) := .cancel
  have horderly := hmove.orderly (orderly_follow hstart as)
  have hlimit' : (s.2.cancel now).run.limit = limit := (alike_follow hstart as).limit
  obtain ⟨done₀, hassigned₀, -⟩ := assigned_follow hstart hassign as
  have hroom : (s.2.cancel now).run.tasks.length ≤ limit := hlimit' ▸ hassigned₀.room
  obtain ⟨-, hsched, hlen⟩ := cancelled_follow horderly rfl bs
  have hsched : e.2.run.progress.scheduled = scheduled := hsched
  have hlen : e.1.length + e.2.run.tasks.length = (s.2.cancel now).run.tasks.length := hlen
  obtain ⟨done, hassigned, -⟩ := assigned_follow hstart hassign (as ++ (now, .cancel) :: bs)
  rw [hall] at hassigned
  have htaken : e.2.run.taken = e.2.run.progress.scheduled ∨
      e.2.run.taken = e.2.run.progress.scheduled + 1 ∧ e.2.run.exhausted = true := hassigned.taken
  refine ⟨hsched, by omega, by omega, by omega, fun hbusy => ?_, fun hclosed => ?_⟩
  · have hdrains := hbusy.drains horderly rfl (by omega) (by omega)
    rwa [hlimit'] at hdrains
  · have h := follow_closed m campaign t limit source (as ++ (now, .cancel) :: bs)
    rw [hall] at h
    rw [← hsched]
    exact h hclosed

theorem follow_cancelled_endless :
    let m : Mailer := .start (.empty .standard fun _ => 0) .strict .standard fun _ => .splitMix 7
    let source : Nat → Option Recipient := fun n => some ⟨toString n, .empty⟩
    let as : List (Timestamp × Step) := [.schedule, .schedule, .begin 1, .render 1 0].map ("0", ·)
    let bs : List (Timestamp × Step) := [.leave 1, .finish 1, .yield 1, .schedule, .begin 0,
      .render 0 3, .leave 0, .finish 0, .yield 0, .close].map ("1", ·)
    ∃ t, Template.parse "{a|b}" = .ok t ∧
      let s := follow as ⟨m, .start "c" t 2 source⟩
      let e := follow bs (s.2.cancel "1")
      1 ≤ 2 ∧ e.2.run.closed = true ∧ e.2.run.taken = 3 ∧
      e.2.run.progress.scheduled = s.2.run.progress.scheduled ∧
      ∃ done : List (Nat × Outcome), done.map Prod.snd = s.1 ++ e.1 ∧
        (done.map Prod.fst).Perm (List.range s.2.run.progress.scheduled) ∧
        ∃ records, e.2.mailer.tracker = m.tracker.recordAll "c" records ∧
          records.length = (s.1 ++ e.1).countP Outcome.isSuccess := by
  intro m source as bs
  obtain ⟨t, ht, hc, htaken⟩ : ∃ t, Template.parse "{a|b}" = .ok t ∧
      (follow bs ((follow as ⟨m, .start "c" t 2 source⟩).2.cancel "1")).2.run.closed = true ∧
      (follow bs ((follow as ⟨m, .start "c" t 2 source⟩).2.cancel "1")).2.run.taken = 3 :=
    ⟨_, by cbv, by cbv, by cbv⟩
  have hlimit : 1 ≤ 2 := by decide
  clear_value source as bs
  obtain ⟨hsched, -, -, -, -, h⟩ := follow_cancelled m "c" t hlimit source as "1" bs
  obtain ⟨done, hdone, hnumbers, -, hrecords⟩ := h hc
  exact ⟨t, ht, hlimit, hc, htaken, hsched, done, hdone, hnumbers, hrecords⟩

end Shift

end Spintax
