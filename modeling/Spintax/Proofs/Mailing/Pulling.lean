import Spintax.Proofs.Mailing.Cancelling

namespace Spintax

namespace Shift

variable {s s' : Shift} {now : Timestamp} {a : Step} {o : Option Outcome}

theorem eq_none_of_step (ha : ∀ n, a ≠ .yield n) (h : s.step now a = some (o, s')) : o = none := by
  cases a with
  | yield n => exact absurd rfl (ha n)
  | cancel =>
    cases h
    rfl
  | schedule | close =>
    simp only [step] at h
    split at h <;> cases h
    rfl
  | begin n | render n w | leave n | finish n | lose n =>
    simp only [step] at h
    split at h
    · simp only [taskStep] at h
      split at h <;> cases h
      rfl
    · cases h

theorem follow_quiet {as : List (Timestamp × Step)} (has : ∀ a ∈ as, ∀ n, a.2 ≠ .yield n)
    (s : Shift) : (follow as s).1 = [] := by
  induction as generalizing s with
  | nil => rfl
  | cons a as ih =>
    obtain ⟨now, a⟩ := a
    obtain ⟨ha, has⟩ := List.forall_mem_cons.mp has
    rw [follow]
    split
    · exact ih has s
    · next hstep =>
      rw [eq_none_of_step ha hstep, ih has]
      rfl

theorem follow_singleton (a : Timestamp × Step) (s : Shift) :
    (follow [a] s).1.length ≤ 1 := by
  obtain ⟨now, a⟩ := a
  rw [follow]
  split
  · exact Nat.zero_le _
  · next o s' _ => cases o <;> simp [follow]

theorem fill_eq_follow (now : Timestamp) (n : Nat) (s : Shift) :
    ∃ as : List (Timestamp × Step), (∀ a ∈ as, a.2.Works) ∧ follow as s = ([], fill now n s) := by
  induction n generalizing s with
  | zero => exact ⟨[], by simp, rfl⟩
  | succ n ih =>
    rw [fill]
    cases hstep : s.step now .schedule with
    | none => exact ⟨[], by simp, rfl⟩
    | some os =>
      obtain ⟨o, s'⟩ := os
      obtain ⟨as, hworks, has⟩ := ih s'
      have ho : o = none := eq_none_of_step (by simp) hstep
      refine ⟨(now, .schedule) :: as, List.forall_mem_cons.mpr ⟨trivial, hworks⟩, ?_⟩
      rw [follow, hstep]
      simp only [has, ho, Option.toList_none, List.append_nil]

theorem perform_service_eq_follow (now : Timestamp) (n : Nat) (s : Shift) :
    ∃ o : Option Outcome, perform now (service n) s =
      (o.toList, (follow ((service n).map (now, ·)) s).2) := by
  have hsplit : (service n).map (now, ·) =
      [.begin n, .render n 0, .leave n, .finish n].map (now, ·) ++ [(now, .yield n)] := rfl
  have hquiet : (follow ([Step.begin n, .render n 0, .leave n, .finish n].map (now, ·)) s).1 = [] :=
    follow_quiet (by simp) s
  have hlen : (perform now (service n) s).1.length ≤ 1 := by
    rw [perform_eq_follow, hsplit, follow_append, hquiet, List.nil_append]
    exact follow_singleton _ _
  rw [perform_eq_follow] at hlen ⊢
  generalize follow ((service n).map (now, ·)) s = r at hlen ⊢
  obtain ⟨_ | ⟨o, _ | _⟩, s'⟩ := r
  · exact ⟨none, rfl⟩
  · exact ⟨some o, rfl⟩
  · simp at hlen

theorem works_service (now : Timestamp) (n : Nat) :
    ∀ a ∈ (service n).map (now, ·), a.2.Works := by
  simp [service, Step.Works]

theorem pull_eq_follow (s : Shift) (now : Timestamp) :
    ∃ as : List (Timestamp × Step), (∀ a ∈ as, a.2.Works) ∧
      follow as s = ((s.pull now).1.toList, (s.pull now).2) := by
  obtain ⟨as, hworks, has⟩ := fill_eq_follow now s.run.limit s
  rw [pull]
  dsimp only
  split
  · next t us _ =>
    obtain ⟨o, hservice⟩ := perform_service_eq_follow now t.number (fill now s.run.limit s)
    refine ⟨as ++ (service t.number).map (now, ·),
      List.forall_mem_append.mpr ⟨hworks, works_service now t.number⟩, ?_⟩
    rw [follow_append, has, ← perform_eq_follow, hservice]
    cases o <;> rfl
  · refine ⟨as ++ [.close].map (now, ·),
      List.forall_mem_append.mpr ⟨hworks, by simp [Step.Works]⟩, ?_⟩
    have hquiet : (follow ([Step.close].map (now, ·)) (fill now s.run.limit s)).1 = [] :=
      follow_quiet (by simp) _
    rw [follow_append, has, perform_eq_follow, hquiet]
    rfl

/-- To wait for outcomes is to take some steps, of which none cancels the mailing. -/
theorem pulls_eq_follow (now : Timestamp) (n : Nat) (s : Shift) :
    ∃ as : List (Timestamp × Step), (∀ a ∈ as, a.2.Works) ∧ follow as s = s.pulls now n := by
  induction n generalizing s with
  | zero => exact ⟨[], by simp, rfl⟩
  | succ n ih =>
    obtain ⟨as, hworks, has⟩ := pull_eq_follow s now
    rw [pulls]
    rcases hpull : s.pull now with ⟨_ | o, s'⟩
    · rw [hpull] at has
      exact ⟨as, hworks, has⟩
    · rw [hpull] at has
      obtain ⟨bs, hworks', hbs⟩ := ih s'
      refine ⟨as ++ bs, List.forall_mem_append.mpr ⟨hworks, hworks'⟩, ?_⟩
      rw [follow_append, has, hbs]
      rfl

end Shift

namespace Run

/-- Nobody cancelled the mailing, those who were scheduled are all waiting for a worker, and nobody
comes after the first `k` recipients. -/
structure Ready (r : Run) (k : Nat) : Prop where
  orderly : r.Orderly
  limit : 1 ≤ r.limit
  going : r.cancelled = false
  waiting : ∀ t ∈ r.tasks, t.stage = .waiting
  ends : ∀ i, k ≤ i → r.source i = none

def toCome (r : Run) (k : Nat) : Nat :=
  r.tasks.length + (k - r.taken)

theorem ready_start (campaign : String) (t : Template) {limit k : Nat} (hlimit : 1 ≤ limit)
    {source : Nat → Option Recipient} (hsource : ∀ i, k ≤ i → source i = none) :
    (start campaign t limit source).Ready k where
  orderly := orderly_start campaign t limit source
  limit := hlimit
  going := rfl
  waiting t ht := by cases ht
  ends := hsource

end Run

namespace Shift

variable {s s' : Shift} {now : Timestamp} {o : Option Outcome} {k : Nat}

theorem ready_schedule (h : s.run.Ready k) (hs : s.step now .schedule = some (o, s')) :
    s'.run.Ready k ∧ s'.run.toCome k ≤ s.run.toCome k ∧
      (s'.run.tasks = [] → s'.run.exhausted = true) := by
  have horderly := (move_of_step h.orderly.numbered hs).orderly h.orderly
  cases does_of_step h.orderly.numbered hs with
  | exhaust => exact ⟨⟨horderly, h.limit, h.going, h.waiting, h.ends⟩, Nat.le_refl _, fun _ => rfl⟩
  | refuse he hroom hp hc => exact absurd (h.going.symm.trans hc) Bool.false_ne_true
  | schedule he hroom hp =>
    have htaken : s.run.taken < k := by
      by_contra hle
      rw [h.ends _ (Nat.le_of_not_lt hle)] at hp
      cases hp
    refine ⟨⟨horderly, h.limit, h.going, ?_, h.ends⟩, ?_, by simp⟩
    · simpa [or_imp, forall_and] using h.waiting
    · simp only [Run.toCome, List.length_append, List.length_singleton]
      omega

theorem ready_fill (now : Timestamp) (n : Nat) (h : s.run.Ready k) : (fill now n s).run.Ready k ∧
    (fill now n s).run.toCome k ≤ s.run.toCome k ∧
    ((n = 0 → s.run.tasks = [] → s.run.exhausted = true) →
      (fill now n s).run.tasks = [] → (fill now n s).run.exhausted = true) := by
  induction n generalizing s with
  | zero => exact ⟨h, Nat.le_refl _, fun hs => hs rfl⟩
  | succ n ih =>
    rw [fill]
    cases hstep : s.step now .schedule with
    | none =>
      refine ⟨h, Nat.le_refl _, fun _ htasks => ?_⟩
      have hlimit := h.limit
      simp only [step] at hstep
      split at hstep
      · next hfull => simpa [htasks, Nat.ne_of_gt hlimit] using hfull
      · cases hstep
    | some os =>
      obtain ⟨o, s'⟩ := os
      obtain ⟨hready, hle, hexhausted⟩ := ready_schedule h hstep
      obtain ⟨hready', hle', hexhausted'⟩ := ih hready
      exact ⟨hready', Nat.le_trans hle' hle, fun _ => hexhausted' fun _ => hexhausted⟩

theorem ready_service (now : Timestamp) {t : Task} {us : List Task} (h : s.run.Ready k)
    (ht : s.run.tasks = t :: us) : ∃ o s', perform now (service t.number) s = ([o], s') ∧
      s'.run.Ready k ∧ s'.run.tasks = us ∧ s'.run.taken = s.run.taken := by
  obtain ⟨number, recipient, stage⟩ := t
  have hstage : stage = .waiting := h.waiting _ (by rw [ht]; exact List.mem_cons_self)
  subst hstage
  have hne : ∀ u ∈ us, u.number ≠ number := h.orderly.numbered.others (l := []) ht
  have hfilter : us.filter (fun u => !decide (u.number = number)) = us := by
    simpa using Run.filter_others hne
  have hmap := Run.map_others hne
  rcases hm : s.mailer.render now 0 s.run.campaign s.run.template recipient.id
    recipient.values with ⟨o, m⟩
  have hperform : ∃ progress, perform now (service number) s = ([o], ⟨m, { s.run with
      tasks := us, progress, yielded := s.run.yielded + 1 }⟩) := by
    refine ⟨((s.run.progress.enter).leave).finish o.isSuccess, ?_⟩
    simp [service, perform, step, Run.task?, taskStep, Run.move, ht, hm, hmap, hfilter]
  obtain ⟨progress, hperform⟩ := hperform
  refine ⟨o, _, hperform, ⟨?_, h.limit, h.going, fun u hu => ?_, h.ends⟩, rfl, rfl⟩
  · have horderly := orderly_follow h.orderly ((service number).map (now, ·))
    rwa [← perform_eq_follow, hperform] at horderly
  · exact h.waiting u (by rw [ht]; exact List.mem_cons_of_mem _ hu)

/-- After as many outcomes as there are recipients the mailing is at its end. -/
theorem pulls_closed (n : Nat) (h : s.run.Ready k) (hn : s.run.toCome k < n) :
    (s.pulls now n).2.run.closed = true ∧ (s.pulls now n).2.run.cancelled = false := by
  induction n generalizing s with
  | zero => cases hn
  | succ n ih =>
    obtain ⟨hready, hle, hexhausted⟩ := ready_fill now s.run.limit h
    rw [pulls, pull]
    cases htasks : (fill now s.run.limit s).run.tasks with
    | nil =>
      have he := hexhausted (fun h0 => absurd h0 (Nat.ne_of_gt h.limit)) htasks
      simp only [htasks, perform, step, he, List.isEmpty_nil, Bool.and_self, if_true, Run.close]
      split
      · next hc => exact ⟨hc, hready.going⟩
      · exact ⟨rfl, hready.going⟩
    | cons t us =>
      obtain ⟨o, s', hservice, hready', htasks', htaken⟩ := ready_service now hready htasks
      simp only [hservice, List.head?_cons]
      refine ih hready' ?_
      simp only [Run.toCome, htasks, htasks', htaken, List.length_cons] at hle hn ⊢
      omega

end Shift

end Spintax
