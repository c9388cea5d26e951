import Spintax.Proofs.Config.Contents
import Spintax.Proofs.Config.Dotenv
import Spintax.Proofs.Json.Reading

namespace Spintax

namespace Files

def without (files : Files) (name : String) : Files := fun n =>
  if n = name then .error .absent else files n

theorem without_of_ne (files : Files) {name n : String} (h : n ≠ name) :
    files.without name n = files n :=
  if_neg h

theorem text?_without (files : Files) (name : String) : (files.without name).text? name = none := by
  have habsent : files.without name name = .error .absent := if_pos rfl
  rw [text?, text, habsent]
  rfl

theorem text?_without_of_ne (files : Files) {name n : String} (h : n ≠ name) :
    (files.without name).text? n = files.text? n := by
  rw [text?, text, text?, text, files.without_of_ne h]

theorem isFile_without_of_ne (files : Files) {name n : String} (h : n ≠ name) :
    (files.without name).isFile n = files.isFile n := by
  rw [isFile, isFile, files.without_of_ne h]

end Files

namespace Settings

open Config

/-- What some layers make of a setting, the highest one of them first. -/
def outcome? (k : Setting) (layers : List (List (String × Value))) : Option Content :=
  (layers.findSome? k.given?).bind k.read?

def content (s : Settings) : Setting → Content
  | .capacity => .number s.capacity
  | .maxAge => .number s.maxAgeSeconds
  | .concurrency => .number s.concurrency.usual
  | .maxConcurrency => .number s.concurrency.most
  | .policy => .policy s.policy
  | .exportFormat => .exportFormat s.exportFormat
  | .logLevel => .level s.logLevel
  | .logFormat => .logFormat s.logFormat

theorem eq_of_content {s t : Settings} (h : ∀ k, s.content k = t.content k) : s = t := by
  obtain ⟨capacity, age, ⟨usual, most⟩, policy, exportFormat, level, logFormat⟩ := s
  obtain ⟨capacity', age', ⟨usual', most'⟩, policy', exportFormat', level', logFormat'⟩ := t
  cases h .capacity
  cases h .maxAge
  cases h .concurrency
  cases h .maxConcurrency
  cases h .policy
  cases h .exportFormat
  cases h .logLevel
  cases h .logFormat
  rfl

def modeLayer (vars : Environment) : String :=
  "config/" ++ (vars.get? "RUN_MODE").getD "development"

def layers (vars : Environment) (mode default : List (String × Value)) :
    List (List (String × Value)) :=
  [vars.settings "variation__", mode, default, builtIn]

def dotenv (env : Environment) (files : Files) : List (String × String) :=
  (files.text? ".env").elim [] fun text => Dotenv.assigned text env

def filled (env : Environment) (files : Files) : Environment :=
  env.fillAll (dotenv env files)

variable {root : Value} {s : Settings} {env vars : Environment} {files : Files}
  {default mode : List (String × Value)}

theorem field?_part (h : root.Settled) {k : Setting} {v : Value} (hv : root.at? k = some v)
    {α : Type} (position : Nat) (default : α) (read : Value → Option α) :
    ((root.entry? k.part).getD (.table [])).field? position k.name default read = read v := by
  rw [Value.at?] at hv
  obtain ⟨w, hentry, hv⟩ := Option.bind_eq_some_iff.mp hv
  have htable := (h.parts k w hentry).1
  rw [hentry, Option.getD_some]
  cases w with
  | table es =>
    have hlookup : es.lookup k.name = some v := hv
    rw [Value.field?, hlookup]
    rfl
  | null | bool | integer | real | text | list => cases htable

theorem exists_ofValue? (h : root.Settled) {value : Setting → Value}
    (hvalue : ∀ k, root.at? k = some (value k))
    (hread : ∀ k : Setting, (k.read? (value k)).isSome) :
    ∃ s, ofValue? root = some s ∧ ∀ k : Setting, k.read? (value k) = some (s.content k) := by
  have hmap {α : Type} {x : Option α} {f : α → Content} (h : (x.map f).isSome) :
      ∃ a, x = some a :=
    Option.isSome_iff_exists.mp (Option.isSome_map ▸ h)
  obtain ⟨capacity, hcapacity⟩ := hmap (hread .capacity)
  obtain ⟨age, hage⟩ := hmap (hread .maxAge)
  obtain ⟨usual, husual⟩ := hmap (hread .concurrency)
  obtain ⟨most, hmost⟩ := hmap (hread .maxConcurrency)
  obtain ⟨policy, hpolicy⟩ := hmap (hread .policy)
  obtain ⟨exportFormat, hexport⟩ := hmap (hread .exportFormat)
  obtain ⟨level, hlevel⟩ := hmap (hread .logLevel)
  obtain ⟨logFormat, hformat⟩ := hmap (hread .logFormat)
  refine ⟨⟨capacity, age, ⟨usual, most⟩, policy, exportFormat, level, logFormat⟩, ?_, fun k => ?_⟩
  · have hfield (k : Setting) {α : Type} {a : α} (position : Nat) (default : α)
        {read : Value → Option α} (ha : read (value k) = some a) :
        ((root.entry? k.part).getD (.table [])).field? position k.name default read = some a :=
      (field?_part h (hvalue k) position default read).trans ha
    simp only [ofValue?, Option.bind_eq_bind, Option.bind_eq_some_iff]
    exact ⟨_, hfield .capacity _ _ hcapacity, _, hfield .maxAge _ _ hage,
      _, hfield .concurrency _ _ husual, _, hfield .maxConcurrency _ _ hmost,
      _, hfield .policy _ _ hpolicy, _, hfield .exportFormat _ _ hexport,
      _, hfield .logLevel _ _ hlevel, _, hfield .logFormat _ _ hformat, rfl⟩
  · cases k with
    | capacity => exact congrArg (Option.map Content.number) hcapacity
    | maxAge => exact congrArg (Option.map Content.number) hage
    | concurrency => exact congrArg (Option.map Content.number) husual
    | maxConcurrency => exact congrArg (Option.map Content.number) hmost
    | policy => exact congrArg (Option.map Content.policy) hpolicy
    | exportFormat => exact congrArg (Option.map Content.exportFormat) hexport
    | logLevel => exact congrArg (Option.map Content.level) hlevel
    | logFormat => exact congrArg (Option.map Content.logFormat) hformat

theorem addLayer_some (es : List (String × Value)) (root : Value) :
    addLayer (some es) root = (Value.layer? es root).elim (.error .badPosition) .ok := by
  rw [addLayer]
  cases Value.layer? es root <;> rfl

theorem addLayer_append (es fs : List (String × Value)) (root : Value) :
    addLayer (some (es ++ fs)) root = addLayer (some es) root >>= addLayer (some fs) := by
  have hlayer : Value.layer? (es ++ fs) root = (Value.layer? es root).bind (Value.layer? fs) :=
    List.foldlM_append
  rw [addLayer_some, addLayer_some, hlayer]
  cases Value.layer? es root with
  | none => rfl
  | some root => exact (addLayer_some fs root).symm

theorem addLayer_entries {top : Value} (h : top.Settled) : ∃ root,
    addLayer (some (builtIn ++ top.entries)) (.table []) = .ok root ∧ root.Settled ∧
      ∀ k : Setting, root.at? k = (top.at? k).or (k.given? builtIn) := by
  obtain ⟨hplain, hfits, hgiven⟩ := h.entries
  have hplain' : builtIn.all isPlain := by cbv
  have hfits' : builtIn.all fun e => (Key.ofText e.1).fits := by decide +kernel
  have hall : (builtIn ++ top.entries).all isPlain := by
    rw [List.all_append, hplain, hplain']
    rfl
  have hall' : (builtIn ++ top.entries).all fun e => (Key.ofText e.1).fits := by
    rw [List.all_append, hfits, hfits']
    rfl
  obtain ⟨root, hroot⟩ := Option.isSome_iff_exists.mp (Value.layer?_isSome hall' (.table []))
  obtain ⟨hsettled, hat⟩ := Value.settled_of_layer? hall hroot
  refine ⟨root, ?_, hsettled, fun k => ?_⟩
  · rw [addLayer_some, hroot, Option.elim_some]
  · rw [hat, Setting.given?_append, hgiven]

/-- The files and the environment are like a single layer. -/
theorem given_eq_addLayer (hdefault : fileEntries? (content? files "config/default") = some default)
    (hmode : fileEntries? (content? files (modeLayer vars)) = some mode) :
    given vars files =
      addLayer (some (default ++ mode ++ vars.settings "variation__")) (.table []) := by
  rw [modeLayer] at hmode
  simp only [given, fileLayers, List.foldlM_cons, List.foldlM_nil, hdefault, hmode, bind_pure,
    addLayer_append]

theorem load_eq_of_environment (h : environment env files = .ok vars) : load env files = (do
    let top ← given vars files
    let root ← addLayer (some (builtIn ++ top.entries)) (.table [])
    let some s := ofValue? root | throw .malformed
    return s) := by
  rw [load, h]
  simp only [addLayer_append, bind_assoc]
  rfl

/-- Only a position in front of a list or beyond all lists can keep plain layers from being
loaded. -/
theorem load_cases (henv : environment env files = .ok vars)
    (hdefault : fileEntries? (content? files "config/default") = some default)
    (hmode : fileEntries? (content? files (modeLayer vars)) = some mode)
    (hplain : ∀ es ∈ layers vars mode default, es.all isPlain)
    (houtcome : ∀ k, (outcome? k (layers vars mode default)).isSome) :
    (∃ s, load env files = .ok s ∧
      ∀ k, outcome? k (layers vars mode default) = some (s.content k)) ∨
    load env files = .error .badPosition ∧
      ¬ ∀ es ∈ layers vars mode default, es.all fun e => (Key.ofText e.1).fits := by
  have hall {p : String × Value → Bool} (h : ∀ es ∈ layers vars mode default, es.all p) :
      (default ++ mode ++ vars.settings "variation__").all p := by
    simp only [layers, List.forall_mem_cons] at h
    obtain ⟨hvars, hmode, hdefault, -⟩ := h
    rw [List.all_append, List.all_append, hvars, hmode, hdefault]
    rfl
  have hgiven := given_eq_addLayer hdefault hmode
  rw [addLayer_some] at hgiven
  rw [load_eq_of_environment henv, hgiven]
  cases htop : Value.layer? (default ++ mode ++ vars.settings "variation__") (.table []) with
  | none =>
    refine .inr ⟨rfl, fun hfits => ?_⟩
    have hsome := Value.layer?_isSome (hall hfits) (.table [])
    rw [htop] at hsome
    cases hsome
  | some top =>
    -- the tree comes apart into entries again, which go over the built-in values
    obtain ⟨hsettled, hat⟩ := Value.settled_of_layer? (hall hplain) htop
    obtain ⟨root, hroot, hsettled', hat'⟩ := addLayer_entries hsettled
    have hhighest : ∀ k : Setting,
        root.at? k = (layers vars mode default).findSome? k.given? := by
      intro k
      rw [hat', hat, ← Setting.given?_append, ← Setting.given?_flatten]
      simp [layers]
    have hvalue : ∀ k : Setting, ∃ v, root.at? k = some v ∧ (k.read? v).isSome := by
      intro k
      obtain ⟨c, hc⟩ := Option.isSome_iff_exists.mp (houtcome k)
      obtain ⟨v, hv, hread⟩ := Option.bind_eq_some_iff.mp hc
      exact ⟨v, (hhighest k).trans hv, Option.isSome_iff_exists.mpr ⟨c, hread⟩⟩
    choose value hvalue hread using hvalue
    obtain ⟨s, hs, hcontent⟩ := exists_ofValue? hsettled' hvalue hread
    refine .inl ⟨s, ?_, fun k => ?_⟩
    · simp only [Option.elim_some, bind, Except.bind, hroot, hs]
      rfl
    · rw [outcome?, ← hhighest, hvalue, Option.bind_some, hcontent]

theorem environment_cases (env : Environment) (files : Files) :
    environment env files = .ok (filled env files) ∨
      environment env files = .error .badVariable ∧
        ∃ e ∈ dotenv env files, e.2.contains '\x00' := by
  rw [environment, filled, dotenv]
  cases files.text? ".env" with
  | none => exact .inl rfl
  | some text =>
    obtain hload | ⟨hload, hzero⟩ := Dotenv.load?_cases text env
    · rw [Option.map_some, hload]
      exact .inl rfl
    · rw [Option.map_some, hload]
      exact .inr ⟨rfl, hzero⟩

theorem content?_without {layer : String} (h : layer ≠ ".env") (files : Files) :
    content? (files.without ".env") layer = content? files layer := by
  have hname : ∀ name ∈ fileName? layer, name ≠ ".env" := by
    rintro name hname rfl
    obtain ⟨cs, -, hcs⟩ := Option.map_eq_some_iff.mp hname
    have hlength := congrArg (fun name : String => name.toList.length) hcs
    simp at hlength
  rw [content?, content?, files.isFile_without_of_ne h, files.text?_without_of_ne h]
  cases hfile : fileName? layer with
  | none => rfl
  | some name =>
    have hne := hname name hfile
    rw [Option.bind_some, Option.bind_some, files.text?_without_of_ne hne]

theorem given_without (vars : Environment) (files : Files) :
    given vars (files.without ".env") = given vars files := by
  have hmode : "config/" ++ (vars.get? "RUN_MODE").getD "development" ≠ ".env" := by
    intro h
    have hhead := congrArg (fun name : String => name.toList.head?) h
    simp at hhead
  simp only [given, fileLayers, List.foldlM_cons, List.foldlM_nil, content?_without hmode,
    content?_without (show "config/default" ≠ ".env" by decide)]

/-- What `.env` sets could as well be set for the process. -/
theorem load_without (h : environment env files = .ok vars) :
    load env files = load vars (files.without ".env") := by
  have henv : environment vars (files.without ".env") = .ok vars := by
    rw [environment, files.text?_without]
    rfl
  rw [load_eq_of_environment h, load_eq_of_environment henv, given_without]

def isOrdinary (name : String) : Bool :=
  name.toList.reverse.takeWhile (· ≠ '/') ∉ [[], ['.'], ['.', '.']]

theorem lastStep?_of_takeWhile {cs : List Char}
    (h : cs.takeWhile (· ≠ '/') ∉ [[], ['.'], ['.', '.']]) : lastStep? cs = some cs := by
  rw [lastStep?.eq_def]
  split
  · simp at h
  · simp at h
  · simp at h
  · rfl

theorem content?_of_isOrdinary {name : String} (h : isOrdinary name)
    (hfile : files.isFile ("config/" ++ name) = false) :
    content? files ("config/" ++ name) = files.text? ("config/" ++ name ++ ".json") := by
  have hlast : ("config/" ++ name).toList.reverse.takeWhile (· ≠ '/') ∉
      [[], ['.'], ['.', '.']] := by
    have hreverse : ("config/" ++ name).toList.reverse =
        name.toList.reverse ++ "/gifnoc".toList := by
      rw [String.toList_append, List.reverse_append]
      rfl
    have htake : (name.toList.reverse ++ "/gifnoc".toList).takeWhile (· ≠ '/') =
        name.toList.reverse.takeWhile (· ≠ '/') := by
      rw [List.takeWhile_append]
      split
      · next hall =>
        have hstop : "/gifnoc".toList.takeWhile (· ≠ '/') = [] := by decide
        rw [hstop, List.append_nil]
        exact (List.IsPrefix.eq_of_length (List.takeWhile_prefix _) hall).symm
      · rfl
    rw [hreverse, htake]
    exact of_decide_eq_true h
  have hname : fileName? ("config/" ++ name) = some ("config/" ++ name ++ ".json") := by
    rw [fileName?, lastStep?_of_takeWhile hlast, Option.map_some, List.reverse_reverse,
      String.ofList_toList]
  rw [content?, hfile, hname]
  rfl

theorem fileEntries?_of_tokens {text : String} (ts : List Json.Token)
    (ms : List (String × Json.Value)) (htokens : Json.tokens text.toList = ts)
    (hrun : (Json.Reader.any maxDepth).run ts = .ok (.object ms, [])) :
    fileEntries? (some text) = some (Value.ofJsonMembers ms) := by
  rw [fileEntries?, Json.Reader.decode_of_tokens htokens hrun]
  simp only [Value.ofJson]

/-- Settings are layered key by key. -/
theorem layered_by_key (env : Environment) (files : Files) (default mode : List (String × Value))
    (hdefault : fileEntries? (content? files "config/default") = some default)
    (hmode : fileEntries? (content? files (modeLayer (filled env files))) = some mode)
    (hplain : ∀ es ∈ layers (filled env files) mode default, es.all isPlain)
    (houtcome : ∀ k, (outcome? k (layers (filled env files) mode default)).isSome) :
    load env files ≠ .error .malformed ∧
    (∀ s, load env files = .ok s →
      ∀ k, outcome? k (layers (filled env files) mode default) = some (s.content k)) ∧
    ((∀ es ∈ layers (filled env files) mode default, es.all fun e => (Key.ofText e.1).fits) →
      (∀ e ∈ dotenv env files, ¬ e.2.contains '\x00') → ∃ s, load env files = .ok s) ∧
    ((∀ e ∈ dotenv env files, ¬ e.2.contains '\x00') →
      load env files = load (filled env files) (files.without ".env")) ∧
    (∀ name, (filled env files).get? name =
      (env.get? name).or ((dotenv env files).lookup name)) ∧
    (∃ added : Environment, filled env files = env ++ added ∧ (added.map Prod.fst).Nodup ∧
      ∀ e ∈ added, env.get? e.1 = none ∧ (dotenv env files).lookup e.1 = some e.2) ∧
    (∀ name, isOrdinary name → files.isFile ("config/" ++ name) = false →
      content? files ("config/" ++ name) = files.text? ("config/" ++ name ++ ".json")) ∧
    ∀ (k : Setting) (c : Content), k.takes c → k.read? (.ofJson c.json) = some c ∧
      ((∀ name, c = .level name → Value.ofText name = .text name) →
        k.read? (.ofText c.spelling) = some c) := by
  have hcases := environment_cases env files
  have hload (henv : environment env files = .ok (filled env files)) :=
    load_cases henv hdefault hmode hplain houtcome
  have hfailed : environment env files = .error .badVariable →
      load env files = .error .badVariable := by
    intro henv
    rw [load, henv]
    rfl
  have hzero : (∀ e ∈ dotenv env files, ¬ e.2.contains '\x00') →
      environment env files = .ok (filled env files) := by
    intro hzero
    obtain henv | ⟨-, e, he, hbad⟩ := hcases
    · exact henv
    · exact absurd hbad (hzero e he)
  refine ⟨?_, ?_, ?_, fun h => load_without (hzero h), Environment.get?_fillAll env _,
    Environment.fillAll_eq_append env _, fun name => content?_of_isOrdinary,
    fun k c hk => ⟨Setting.read?_ofJson hk, Setting.read?_ofText hk⟩⟩
  · obtain henv | ⟨henv, -⟩ := hcases
    · obtain ⟨s, hs, -⟩ | ⟨hbad, -⟩ := hload henv
      · simp [hs]
      · simp [hbad]
    · simp [hfailed henv]
  · intro s hs
    obtain henv | ⟨henv, -⟩ := hcases
    · obtain ⟨s', hs', hcontent⟩ | ⟨hbad, -⟩ := hload henv
      · cases hs.symm.trans hs'
        exact hcontent
      · cases hs.symm.trans hbad
    · cases hs.symm.trans (hfailed henv)
  · intro hfits hvalues
    obtain ⟨s, hs, -⟩ | ⟨-, hbad⟩ := hload (hzero hvalues)
    · exact ⟨s, hs⟩
    · exact absurd hfits hbad

/-- The variable counts more than the files, and the line for it in `.env` does not count at all.
That `max_entries` is no number in a file does not matter. -/
theorem layered_by_key_test :
    let env : Environment := [("HOME", "/"), ("VARIATION__CACHE__MAX_ENTRIES", "10")]
    let texts : List (String × String) := [
      (".env", "RUN_MODE=test\nVARIATION__CACHE__MAX_ENTRIES=20\n"),
      ("config/default.json", "\x7b\"cache\": \x7b\"max_age_seconds\": 60\x7d, \"a\": 1\x7d"),
      ("config/test.json",
        "\x7b\"cache\": \x7b\"max_entries\": \"many\"\x7d, \"logging.level\": \"warn\"\x7d")]
    let files : Files := fun name =>
      (texts.lookup name).elim (.error .absent) fun text => .ok text.toUTF8
    let s : Settings := { standard with capacity := 10, maxAgeSeconds := 60, logLevel := "warn" }
    ∃ default mode, fileEntries? (content? files "config/default") = some default ∧
      fileEntries? (content? files (modeLayer (filled env files))) = some mode ∧
      (∀ es ∈ layers (filled env files) mode default, es.all isPlain) ∧
      (∀ k, (outcome? k (layers (filled env files) mode default)).isSome) ∧
      load env files = .ok s := by
  intro env texts files s
  obtain ⟨default, hentries⟩ : ∃ es : List (String × Value),
      es = [("cache", .table [("max_age_seconds", .integer 60)]), ("a", .integer 1)] := ⟨_, rfl⟩
  obtain ⟨mode, hentries'⟩ : ∃ es : List (String × Value),
      es = [("cache", .table [("max_entries", .text "many")]), ("logging.level", .text "warn")] :=
    ⟨_, rfl⟩
  have hvars : filled env files = env ++ [("RUN_MODE", "test")] := by decide +kernel
  have hsettings : (env ++ [("RUN_MODE", "test")]).settings "variation__" =
      [("cache.max_entries", .integer 10)] := by cbv
  have hdefault : fileEntries? (content? files "config/default") = some default := by
    have hcontent : content? files "config/default" = texts.lookup "config/default.json" := by
      decide +kernel
    rw [hcontent, hentries]
    exact fileEntries?_of_tokens
      [.openObject, .text "cache", .colon, .openObject, .text "max_age_seconds", .colon,
        .number (some (.integer 60)), .closeObject, .comma, .text "a", .colon,
        .number (some (.integer 1)), .closeObject]
      [("cache", .object [("max_age_seconds", .ofNat 60)]), ("a", .ofNat 1)]
      (by decide +kernel) (by cbv)
  have hmode : fileEntries? (content? files (modeLayer (filled env files))) = some mode := by
    have hcontent : content? files (modeLayer (env ++ [("RUN_MODE", "test")])) =
        texts.lookup "config/test.json" := by
      decide +kernel
    rw [hvars, hcontent, hentries']
    exact fileEntries?_of_tokens
      [.openObject, .text "cache", .colon, .openObject, .text "max_entries", .colon,
        .text "many", .closeObject, .comma, .text "logging.level", .colon, .text "warn",
        .closeObject]
      [("cache", .object [("max_entries", .text "many")]), ("logging.level", .text "warn")]
      (by decide +kernel) (by cbv)
  have hdotenv : dotenv env files =
      [("RUN_MODE", "test"), ("VARIATION__CACHE__MAX_ENTRIES", "20")] := by
    decide +kernel
  have hzero : ∀ e ∈ dotenv env files, ¬ e.2.contains '\x00' := by
    rw [hdotenv]
    simp
  obtain ⟨ls, hls⟩ : ∃ ls, ls = [[("cache.max_entries", .integer 10)], mode, default, builtIn] :=
    ⟨_, rfl⟩
  have hlayers : layers (filled env files) mode default = ls := by
    rw [layers, hvars, hsettings, hls]
  rw [hentries, hentries'] at hls
  have hplain : ∀ es ∈ ls, es.all isPlain := by
    rw [hls]
    simp only [List.forall_mem_cons]
    exact ⟨by cbv, by cbv, by cbv, by cbv, by simp⟩
  have hfits : ∀ es ∈ ls, es.all fun e => (Key.ofText e.1).fits := by
    rw [hls]
    decide +kernel
  have hcontent : ∀ k, outcome? k ls = some (s.content k) := by
    rw [hls]
    intro k
    cases k <;> decide +kernel
  have houtcome : ∀ k, (outcome? k ls).isSome := by
    intro k
    rw [hcontent]
    rfl
  rw [← hlayers] at hplain hfits hcontent houtcome
  obtain ⟨-, hall, hloaded, -⟩ :=
    layered_by_key env files default mode hdefault hmode hplain houtcome
  obtain ⟨t, ht⟩ := hloaded hfits hzero
  have hts : t = s := eq_of_content fun k =>
    Option.some.inj ((hall t ht k).symm.trans (hcontent k))
  exact ⟨default, mode, hdefault, hmode, hplain, houtcome, ht.trans (congrArg Except.ok hts)⟩

/-- A variable with the name of a section is unknown, and yet settings are refused for it. -/
theorem load_section_as_number :
    let env : Environment := [("VARIATION__CACHE", "5")]
    let files : Files := fun _ => .error .absent
    filled env files = env ∧ fileEntries? (content? files "config/default") = some [] ∧
      fileEntries? (content? files (modeLayer env)) = some [] ∧
      (∀ k : Setting, (k.given? (env.settings "variation__")).isNone) ∧
      load env files = .error .malformed ∧ ∀ s, load env files ≠ .ok s := by
  intro env files
  have hload : load env files = .error .malformed := by decide +kernel
  refine ⟨rfl, by cbv, by cbv, fun k => ?_, hload, fun s hs => ?_⟩
  · cases k <;> decide +kernel
  · cases hload.symm.trans hs

end Settings

end Spintax
