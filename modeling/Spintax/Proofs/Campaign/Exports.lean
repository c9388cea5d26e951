import Spintax.Proofs.Campaign.Conservation
import Spintax.Proofs.Csv
import Spintax.Proofs.Json.Layout

namespace Spintax

theorem Number.natural?_toString (n : Nat) : natural? (toString n).toList = some n := by
  have hdigits : (toString n).toList = Nat.toDigits 10 n := Nat.toList_repr
  have hall : (Nat.toDigits 10 n).all Char.isDigit = true := List.all_eq_true.mpr fun c hc =>
    Nat.isDigit_of_mem_toDigits (by decide) (by decide) hc
  rw [hdigits, natural?, hall, valueOf_toDigits]
  simp [Nat.toDigits_ne_nil]

theorem toString_injective {m n : Nat} (h : toString m = toString n) : m = n := by
  have hm := Number.natural?_toString m
  rw [h, Number.natural?_toString] at hm
  exact (Option.some.inj hm).symm

theorem mapM_map_eq_some {α β : Type} {f : α → β} {g : β → Option α} {as : List α}
    (h : ∀ a ∈ as, g (f a) = some a) : (as.map f).mapM g = some as := by
  induction as with
  | nil => rfl
  | cons a as ih =>
    obtain ⟨ha, h⟩ := List.forall_mem_cons.mp h
    rw [List.map_cons, List.mapM_cons, ha, ih h]
    rfl

def Csv.entry? : List String → Option (Choice × Nat)
  | [_, group, branch, count, _] => do
    return (⟨← Number.natural? group.toList, ← Number.natural? branch.toList⟩,
      ← Number.natural? count.toList)
  | _ => none

namespace Json.Value

def members? : Value → Option (List (String × Value))
  | object ms => some ms
  | _ => none

def member? (v : Value) (name : String) : Option Value :=
  v.members?.bind (·.lookup name)

def natural? : Value → Option Nat
  | number (.integer n) => if 0 ≤ n then some n.toNat else none
  | _ => none

def text? : Value → Option String
  | text s => some s
  | _ => none

def numbered? {α : Type} (read : Value → Option α) (v : Value) : Option (List (Nat × α)) := do
  (← v.members?).mapM fun (name, v) => return (← Number.natural? name.toList, ← read v)

def group? (v : Value) : Option GroupCounts := do
  return ⟨← (← v.member? "renders").natural?,
    ← (← v.member? "alternatives").numbered? natural?⟩

def statistics? (v : Value) : Option Statistics := do
  return ⟨← (← v.member? "campaign_id").text?, ← (← v.member? "total_renders").natural?,
    ← (← v.member? "groups").numbered? group?, ← (← v.member? "first_recorded_at").text?,
    ← (← v.member? "captured_at").text?⟩

theorem natural?_ofNat (n : Nat) : (Value.ofNat n).natural? = some n :=
  rfl

theorem numbered?_object {α : Type} (read : Value → Option α) {write : α → Value}
    (as : List (Nat × α)) (h : ∀ a ∈ as, read (write a.2) = some a.2) :
    (Value.object (as.map fun a => (toString a.1, write a.2))).numbered? read = some as := by
  refine mapM_map_eq_some fun a ha => ?_
  obtain ⟨i, a⟩ := a
  have ha : read (write a) = some a := h _ ha
  simp only [Number.natural?_toString, ha]
  rfl

theorem group?_toJson (g : GroupCounts) : g.toJson.group? = some g := by
  have hbranches := numbered?_object natural? g.branches
    fun b _ => natural?_ofNat b.2
  have hmember : g.toJson.member? "alternatives" =
      some (.object (g.branches.map fun b => (toString b.1, .ofNat b.2))) := rfl
  have hrenders : g.toJson.member? "renders" = some (.ofNat g.renders) := rfl
  rw [group?, hmember, hrenders]
  simp only [Option.bind_eq_bind, Option.bind_some, natural?_ofNat, hbranches]
  rfl

theorem statistics?_toJson (s : Statistics) : s.toJson.statistics? = some s := by
  have hgroups := numbered?_object group? s.groups
    fun g _ => group?_toJson g.2
  have hmember : s.toJson.member? "groups" =
      some (.object (s.groups.map fun g => (toString g.1, g.2.toJson))) := rfl
  have hcampaign : s.toJson.member? "campaign_id" = some (.text s.campaign) := rfl
  have hrenders : s.toJson.member? "total_renders" = some (.ofNat s.renders) := rfl
  have hfirst : s.toJson.member? "first_recorded_at" = some (.text s.firstRecordedAt) := rfl
  have hcaptured : s.toJson.member? "captured_at" = some (.text s.capturedAt) := rfl
  rw [statistics?, hcampaign, hrenders, hmember, hfirst, hcaptured]
  simp only [Option.bind_eq_bind, Option.bind_some, natural?_ofNat, hgroups]
  rfl

end Json.Value

theorem Json.returnsLaidOut_numbered {α : Type} {write : α → Value} {depth : Nat}
    {as : List (Nat × α)} (hnames : (as.map Prod.fst).Nodup)
    (h : ∀ a ∈ as, (write a.2).ReturnsLaidOut depth (write a.2)) :
    (Value.object (as.map fun (i, a) => (toString i, write a))).ReturnsLaidOut (depth + 1)
      (.object (as.map fun (i, a) => (toString i, write a))) := by
  refine returnsLaidOut_object (List.forall₂_same.mpr fun m hm => ⟨rfl, ?_⟩) ?_
  · obtain ⟨a, ha, rfl⟩ := List.mem_map.mp hm
    exact h a ha
  · rw [List.Nodup, List.pairwise_map] at hnames
    rw [List.Nodup, List.pairwise_map, List.pairwise_map]
    exact hnames.imp fun hne he => hne (toString_injective he)

namespace GroupCounts

theorem returnsLaidOut {g : GroupCounts} (hrenders : g.renders < UInt64.size)
    (hcounts : ∀ b ∈ g.branches, b.2 < UInt64.size)
    (hasc : (g.branches.map Prod.fst).Pairwise (· < ·)) (depth : Nat) :
    g.toJson.ReturnsLaidOut (depth + 2) g.toJson := by
  have hbranches := Json.returnsLaidOut_numbered (hasc.imp Nat.ne_of_lt) fun b hb =>
    Json.returnsLaidOut_natural depth (hcounts b hb)
  refine Json.returnsLaidOut_object ?_ (by simp)
  exact .cons ⟨rfl, Json.returnsLaidOut_natural _ hrenders⟩ (.cons ⟨rfl, hbranches⟩ .nil)

/-- The choices of a branch of group `i` that were counted, each with its count. -/
def table (g : GroupCounts) (i : Nat) : List (Choice × Nat) :=
  g.branches.map fun (j, n) => (⟨i, j⟩, n)

theorem mem_table {g : GroupCounts} {i : Nat} {e : Choice × Nat} :
    e ∈ g.table i ↔ ∃ b ∈ g.branches, (⟨i, b.1⟩, b.2) = e :=
  List.mem_map

theorem group_of_mem_table {g : GroupCounts} {i : Nat} {e : Choice × Nat} (h : e ∈ g.table i) :
    e.1.group = i := by
  obtain ⟨b, -, rfl⟩ := mem_table.mp h
  rfl

end GroupCounts

namespace Statistics

variable {s : Statistics} {ms : List (List Choice)}

def table (s : Statistics) : List (Choice × Nat) :=
  s.groups.flatMap fun g => g.2.table g.1

theorem mem_table {e : Choice × Nat} :
    e ∈ s.table ↔ ∃ g ∈ s.groups, ∃ b ∈ g.2.branches, (⟨g.1, b.1⟩, b.2) = e := by
  simp only [table, List.mem_flatMap, GroupCounts.mem_table]

/-- Each choice that was counted has its count in the table, and nothing else is there. -/
theorem Tells.mem_table_iff (h : s.Tells ms) (c : Choice) (n : Nat) :
    (c, n) ∈ s.table ↔ 0 < n ∧ n = ms.flatten.count c := by
  rw [mem_table]
  constructor
  · rintro ⟨g, hg, b, hb, he⟩
    cases he
    have hcount := h.count_of_mem hg hb
    have hshown := (h.shown g hg).2 b hb
    rw [hcount]
    exact ⟨List.count_pos_iff.mpr hshown, rfl⟩
  · rintro ⟨hpos, rfl⟩
    obtain ⟨counts, hgroup, hbranch⟩ := h.mem_of_group (List.count_pos_iff.mp hpos)
    obtain ⟨b, hb, hname⟩ := List.mem_map.mp hbranch
    have hg := (Entries.lookup_eq_some_iff_mem (h.groups.imp Nat.ne_of_lt)).mp hgroup
    refine ⟨_, hg, b, hb, ?_⟩
    rw [h.count_of_mem hg hb, hname]

theorem Tells.ascending_table (h : s.Tells ms) : s.table.Pairwise fun d e =>
    d.1.group < e.1.group ∨ d.1.group = e.1.group ∧ d.1.branch < e.1.branch := by
  rw [table, List.pairwise_flatMap]
  constructor
  · intro g hg
    rw [GroupCounts.table, List.pairwise_map]
    have hasc := h.branches g hg
    rw [List.pairwise_map] at hasc
    exact hasc.imp fun hlt => .inr ⟨rfl, hlt⟩
  · have hasc := h.groups
    rw [List.pairwise_map] at hasc
    refine hasc.imp fun hlt d hd e he => .inl ?_
    rwa [GroupCounts.group_of_mem_table hd, GroupCounts.group_of_mem_table he]

theorem filter_table (h : (s.groups.map Prod.fst).Pairwise (· < ·)) {g : Nat × GroupCounts}
    (hg : g ∈ s.groups) : s.table.filter (·.1.group = g.1) = g.2.table g.1 := by
  rw [table]
  generalize s.groups = gs at h hg
  induction gs with
  | nil => cases hg
  | cons g' gs ih =>
    rw [List.map_cons, List.pairwise_cons] at h
    obtain ⟨hlt, h⟩ := h
    rw [List.flatMap_cons, List.filter_append]
    cases hg with
    | head =>
      have hown : (g.2.table g.1).filter (·.1.group = g.1) = g.2.table g.1 :=
        List.filter_eq_self.mpr fun e he => decide_eq_true (GroupCounts.group_of_mem_table he)
      have hothers : (gs.flatMap fun g => g.2.table g.1).filter (·.1.group = g.1) = [] := by
        refine List.filter_eq_nil_iff.mpr fun e he => ?_
        obtain ⟨g', hg', he⟩ := List.mem_flatMap.mp he
        rw [decide_eq_true_eq, GroupCounts.group_of_mem_table he]
        exact (Nat.ne_of_lt (hlt _ (List.mem_map_of_mem hg'))).symm
      rw [hown, hothers, List.append_nil]
    | tail _ hg =>
      have hnone : (g'.2.table g'.1).filter (·.1.group = g.1) = [] := by
        refine List.filter_eq_nil_iff.mpr fun e he => ?_
        rw [decide_eq_true_eq, GroupCounts.group_of_mem_table he]
        exact Nat.ne_of_lt (hlt _ (List.mem_map_of_mem hg))
      rw [hnone, List.nil_append, ih h hg]

theorem Tells.sum_table (h : s.Tells ms) {g : Nat × GroupCounts} (hg : g ∈ s.groups) :
    g.2.renders = ((s.table.filter (·.1.group = g.1)).map Prod.snd).sum := by
  rw [h.sums g hg, filter_table h.groups hg, GroupCounts.table, List.map_map]
  rfl

theorem Tells.renders_le (h : s.Tells ms) {g : Nat × GroupCounts} (hg : g ∈ s.groups) :
    g.2.renders ≤ ms.flatten.length := by
  have hgroup : s.group? g.1 = some g.2 :=
    (Entries.lookup_eq_some_iff_mem (h.groups.imp Nat.ne_of_lt)).mpr hg
  have hrenders := h.rendersOf g.1
  rw [Statistics.rendersOf, hgroup, Option.map_some, Option.getD_some] at hrenders
  rw [hrenders]
  exact List.countP_le_length

theorem Tells.returnsLaidOut (h : s.Tells ms) (hmessages : ms.length < UInt64.size)
    (hchoices : ms.flatten.length < UInt64.size) (depth : Nat) :
    s.toJson.ReturnsLaidOut (depth + 4) s.toJson := by
  have hgroups := Json.returnsLaidOut_numbered (h.groups.imp Nat.ne_of_lt) fun g hg => by
    refine GroupCounts.returnsLaidOut (Nat.lt_of_le_of_lt (h.renders_le hg) hchoices) ?_
      (h.branches g hg) depth
    intro b hb
    rw [h.count_of_mem hg hb]
    exact Nat.lt_of_le_of_lt List.count_le_length hchoices
  have hrenders := Json.returnsLaidOut_natural (depth + 3) (h.renders ▸ hmessages)
  refine Json.returnsLaidOut_object ?_ (by simp)
  exact .cons ⟨rfl, Json.returnsLaidOut_text _ _⟩ (.cons ⟨rfl, hrenders⟩
    (.cons ⟨rfl, hgroups⟩ (.cons ⟨rfl, Json.returnsLaidOut_text _ _⟩
      (.cons ⟨rfl, Json.returnsLaidOut_text _ _⟩ .nil))))

theorem mem_rows {row : List String} (h : row ∈ s.rows) :
    row.length = 5 ∧ row.head? = some s.campaign := by
  obtain ⟨g, -, h⟩ := List.mem_flatMap.mp h
  obtain ⟨b, -, rfl⟩ := List.mem_map.mp h
  exact ⟨rfl, rfl⟩

theorem mapM_entry?_rows (s : Statistics) : s.rows.mapM Csv.entry? = some s.table := by
  have hgroup : ∀ (i : Nat) (g : GroupCounts) (bs : List (Nat × Nat)),
      (bs.map fun (j, n) => [s.campaign, toString i, toString j, toString n,
        (g.share j).fixed sharePlaces]).mapM Csv.entry? =
      some (bs.map fun (j, n) => (⟨i, j⟩, n)) := by
    intro i g bs
    induction bs with
    | nil => rfl
    | cons b bs ih =>
      rw [List.map_cons, List.mapM_cons, ih]
      simp only [Csv.entry?, Number.natural?_toString]
      rfl
  rw [rows, table]
  induction s.groups with
  | nil => rfl
  | cons g gs ih =>
    rw [List.flatMap_cons, List.mapM_append, ih, hgroup]
    rfl

theorem read?_toCsv (s : Statistics) : Csv.read? s.toCsv = some (header :: s.rows) := by
  refine Csv.read?_write fun row hrow => ?_
  obtain rfl | hrow := List.mem_cons.mp hrow
  · exact List.cons_ne_nil _ _
  · obtain ⟨hlen, -⟩ := mem_rows hrow
    exact List.ne_nil_of_length_eq_add_one hlen

end Statistics

namespace Tracker

/-- Any requests are made of a new tracker, one after another. All numbers are counted in 64 bits,
and a campaign has any name. -/
theorem exports_agree (rs : List Request) (campaign : String) (now now' : Timestamp)
    (hcurrent : current campaign rs ≠ [])
    (hmessages : (current campaign rs).length < UInt64.size)
    (hchoices : (current campaign rs).flatten.length < UInt64.size) :
    let t := (run rs .empty).2
    ∃ csv json s rows, t.export now campaign .csv = .ok csv ∧
      t.export now' campaign .json = .ok json ∧ t.snapshot now' campaign = some s ∧
      Csv.read? csv = some (["campaign_id", "group", "alternative", "count", "share"] :: rows) ∧
      (∀ row ∈ rows, row.length = 5 ∧ row.head? = some campaign) ∧
      (∀ depth, ∃ v, (Json.Reader.any (depth + 4)).decode json = .ok v ∧
        v.statistics? = some s) ∧
      s.campaign = campaign ∧ s.renders = (current campaign rs).length ∧
      rows.mapM Csv.entry? = some s.table ∧
      (∀ c n, (c, n) ∈ s.table ↔ 0 < n ∧ n = (current campaign rs).flatten.count c) ∧
      (s.table.Pairwise fun d e =>
        d.1.group < e.1.group ∨ d.1.group = e.1.group ∧ d.1.branch < e.1.branch) ∧
      ∀ g ∈ s.groups, g.2.branches ≠ [] ∧
        g.2.renders = ((s.table.filter (·.1.group = g.1)).map Prod.snd).sum := by
  intro t
  have h : Accounts t rs := Accounts.empty.run rs
  cases hl : t.ledger? campaign with
  | none =>
    have hnone : t.snapshot now campaign = none := by rw [snapshot, hl, Option.map_none]
    exact absurd (h.snapshot_eq_none.mp hnone) hcurrent
  | some l =>
    have hsnap : ∀ now, t.snapshot now campaign = some (.ofLedger campaign l now) := by
      intro now
      rw [snapshot, hl, Option.map_some]
    have hexport : ∀ now format, t.export now campaign format =
        .ok ((Statistics.ofLedger campaign l now).write format) := by
      intro now format
      rw [Tracker.export, hsnap]
    have htells := (h.tells_snapshot (hsnap now')).2
    have hjson : ∀ depth, ∃ v, (Json.Reader.any (depth + 4)).decode
        (Statistics.ofLedger campaign l now').toJson.pretty = .ok v ∧
          v.statistics? = some (.ofLedger campaign l now') := fun depth =>
      ⟨_, (htells.returnsLaidOut hmessages hchoices depth).decode,
        Json.Value.statistics?_toJson _⟩
    exact ⟨_, _, _, (Statistics.ofLedger campaign l now).rows, hexport now .csv,
      hexport now' .json, hsnap now', Statistics.read?_toCsv _, fun row => Statistics.mem_rows,
      hjson, rfl, htells.renders, Statistics.mapM_entry?_rows (.ofLedger campaign l now),
      htells.mem_table_iff, htells.ascending_table,
      fun g hg => ⟨(htells.shown g hg).1, htells.sum_table hg⟩⟩

theorem exports_agree_quoted :
    let campaign := "a,\"b\"\r\n"
    let rs : List Request := [.record "1" 3 campaign [⟨10, 1⟩, ⟨2, 0⟩],
      .record "2" 4 campaign [⟨2, 0⟩]]
    let t := (run rs .empty).2
    current campaign rs ≠ [] ∧ (current campaign rs).length < UInt64.size ∧
      (current campaign rs).flatten.length < UInt64.size ∧
      ∃ csv json s rows v, t.export "3" campaign .csv = .ok csv ∧
        t.export "4" campaign .json = .ok json ∧
        Csv.read? csv = some (["campaign_id", "group", "alternative", "count", "share"] :: rows) ∧
        (Json.Reader.any 127).decode json = .ok v ∧ v.statistics? = some s ∧
        rows.mapM Csv.entry? = some s.table ∧ (⟨2, 0⟩, 2) ∈ s.table ∧ (⟨10, 1⟩, 1) ∈ s.table := by
  intro campaign rs t
  have hcurrent : current campaign rs ≠ [] := by decide
  have hmessages : (current campaign rs).length < UInt64.size := by decide
  have hchoices : (current campaign rs).flatten.length < UInt64.size := by decide
  obtain ⟨csv, json, s, rows, hcsv, hjson, -, hrows, -, hread, -, -, htable, hmem, -⟩ :=
    exports_agree rs campaign "3" "4" hcurrent hmessages hchoices
  obtain ⟨v, hv, hs⟩ := hread 123
  refine ⟨hcurrent, hmessages, hchoices, csv, json, s, rows, v, hcsv, hjson, hrows, hv, hs,
    htable, (hmem _ _).mpr (by decide), (hmem _ _).mpr (by decide)⟩

end Tracker

end Spintax
