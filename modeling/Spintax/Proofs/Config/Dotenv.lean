import Mathlib.Data.List.Nodup
import Spintax.Config.Dotenv

namespace Spintax.Config

namespace Environment

variable {env : Environment} {name value : String}

theorem fill_of_isSome (h : (env.get? name).isSome) : env.fill name value = env :=
  if_pos h

theorem fill_of_isNone (h : env.get? name = none) :
    env.fill name value = env ++ [(name, value)] := by
  rw [fill, h]
  rfl

theorem get?_append (env vars : Environment) (n : String) :
    (get? (env ++ vars) n) = (env.get? n).or (vars.get? n) :=
  List.lookup_append

theorem get?_fill (env : Environment) (name value n : String) :
    (env.fill name value).get? n = (env.get? n).or (get? [(name, value)] n) := by
  cases h : env.get? name with
  | none => rw [fill_of_isNone h, get?_append]
  | some v =>
    rw [fill_of_isSome (by rw [h]; rfl)]
    by_cases hn : n = name
    · rw [hn, h, Option.some_or]
    · have hnone : get? [(name, value)] n = none := by
        rw [get?, Entries.lookup_cons, if_neg hn, List.lookup_nil]
      rw [hnone, Option.or_none]

def fillAll (env : Environment) (vars : List (String × String)) : Environment :=
  vars.foldl (fun env e => env.fill e.1 e.2) env

theorem get?_fillAll (env : Environment) (vars : List (String × String)) (n : String) :
    (env.fillAll vars).get? n = (env.get? n).or (vars.lookup n) := by
  induction vars generalizing env with
  | nil => rw [List.lookup_nil, Option.or_none]; rfl
  | cons e vars ih =>
    have hcons : ([e] ++ vars).lookup n = (get? [e] n).or (vars.lookup n) := List.lookup_append
    rw [List.singleton_append] at hcons
    rw [hcons, ← Option.or_assoc, ← get?_fill]
    exact ih (env.fill e.1 e.2)

/-- What is set comes after what was there, and is what the first entry for its name says. -/
theorem fillAll_eq_append (env : Environment) (vars : List (String × String)) :
    ∃ added : Environment, env.fillAll vars = env ++ added ∧ (added.map Prod.fst).Nodup ∧
      ∀ e ∈ added, env.get? e.1 = none ∧ vars.lookup e.1 = some e.2 := by
  induction vars generalizing env with
  | nil => exact ⟨[], (List.append_nil env).symm, List.nodup_nil, by simp⟩
  | cons e vars ih =>
    obtain ⟨added, hadded, hnodup, hnew⟩ := ih (env.fill e.1 e.2)
    cases h : env.get? e.1 with
    | some v =>
      have hfill : env.fill e.1 e.2 = env := fill_of_isSome (by rw [h]; rfl)
      rw [hfill] at hadded hnew
      refine ⟨added, ?_, hnodup, fun d hd => ?_⟩
      · rw [← hadded, fillAll, List.foldl_cons, hfill]
        rfl
      · obtain ⟨hnone, hlookup⟩ := hnew d hd
        have hne : d.1 ≠ e.1 := by
          intro hde
          rw [hde, h] at hnone
          cases hnone
        exact ⟨hnone, by rwa [Entries.lookup_cons, if_neg hne]⟩
    | none =>
      have hfill : env.fill e.1 e.2 = env ++ [e] := fill_of_isNone h
      rw [hfill] at hadded hnew
      have hnew' : ∀ d ∈ added, d.1 ≠ e.1 ∧ env.get? d.1 = none ∧ vars.lookup d.1 = some d.2 := by
        intro d hd
        obtain ⟨hnone, hlookup⟩ := hnew d hd
        rw [get?_append, Option.or_eq_none_iff] at hnone
        refine ⟨fun hde => ?_, hnone.1, hlookup⟩
        have hsome := hnone.2
        rw [get?, Entries.lookup_cons, if_pos hde] at hsome
        cases hsome
      refine ⟨e :: added, ?_, ?_, ?_⟩
      · rw [List.append_cons, ← hadded, fillAll, List.foldl_cons, hfill]
        rfl
      · rw [List.map_cons, List.nodup_cons]
        refine ⟨fun hmem => ?_, hnodup⟩
        obtain ⟨d, hd, hde⟩ := List.mem_map.mp hmem
        exact (hnew' d hd).1 hde
      · rw [List.forall_mem_cons]
        refine ⟨⟨h, by rw [Entries.lookup_cons, if_pos rfl]⟩, fun d hd => ?_⟩
        obtain ⟨hne, hnone, hlookup⟩ := hnew' d hd
        exact ⟨hnone, by rwa [Entries.lookup_cons, if_neg hne]⟩

end Environment

namespace Dotenv

def assignments (given env : Environment) : List (Option (List Char)) → List (String × String)
  | [] | none :: _ => []
  | some l :: ls =>
    match lineValue? env given l with
    | none => []
    | some none => assignments given env ls
    | some (some (key, value)) =>
      (key, value) :: assignments ((key, value) :: given) (env.fill key value) ls

def lines (text : String) : List (Option (List Char)) :=
  let cs := text.toList
  logicalLines [] .open (rawLines (if cs.head? = some '\ufeff' then cs.drop 1 else cs))

/-- The variables that a file sets for a process that has some variables already. -/
def assigned (text : String) (env : Environment) : List (String × String) :=
  assignments [] env (lines text)

theorem addLines?_cases (given env : Environment) (ls : List (Option (List Char))) :
    addLines? given env ls = some (env.fillAll (assignments given env ls)) ∨
      addLines? given env ls = none ∧ ∃ e ∈ assignments given env ls, e.2.contains '\x00' := by
  induction ls generalizing given env with
  | nil => exact .inl rfl
  | cons l ls ih =>
    cases l with
    | none => exact .inl rfl
    | some l =>
      rw [addLines?, assignments]
      cases lineValue? env given l with
      | none => exact .inl rfl
      | some e =>
        cases e with
        | none => exact ih given env
        | some e =>
          simp only
          cases hfill : fill? env e.1 e.2 with
          | none =>
            have hzero : e.2.contains '\x00' := by
              rw [fill?] at hfill
              split at hfill
              · next hif => exact (Bool.and_eq_true_iff.mp hif).2
              · cases hfill
            exact .inr ⟨rfl, e, List.mem_cons_self, hzero⟩
          | some env' =>
            have henv' : env' = env.fill e.1 e.2 := by
              rw [fill?] at hfill
              split at hfill
              · cases hfill
              · exact (Option.some.inj hfill).symm
            subst henv'
            rw [Option.bind_some]
            obtain hsome | ⟨hnone, d, hd, hzero⟩ := ih (e :: given) (env.fill e.1 e.2)
            · exact .inl hsome
            · exact .inr ⟨hnone, d, List.mem_cons_of_mem e hd, hzero⟩

theorem load?_cases (text : String) (env : Environment) :
    load? text env = some (env.fillAll (assigned text env)) ∨
      load? text env = none ∧ ∃ e ∈ assigned text env, e.2.contains '\x00' :=
  addLines?_cases [] env (lines text)

end Dotenv

end Spintax.Config
