import ValueHeap.Report
import ValueHeap.Proofs.Occupancy

/-!
# Differences: the change between two reports, added to the first, is the second

A report has figures: its three counts of slots, and a number under every name, zero where it has
none. A change has one for each of them. Between two reports every figure of the change is the
`delta` of theirs, so what holds of `delta` holds of all figures; what a name without a number, in
place of a zero, makes to a change is told by its lists of names.

* `toInt_delta`: numbers below `2 ^ 63` have an exact difference;
* `get?_kindChanges`: what the two passes leave under a name;
* `figure_changeTo`, `changeTo_names`, `mem_added_iff`, `changeTo_reversed`, `changeTo_isEmpty_iff`;
* **`Report.changeTo_exact`**.
-/

namespace ValueHeap

/-! ## 1. Signed differences -/

/-- **Numbers in the range of a signed word have an exact difference.** -/
theorem toInt_delta {m n : Nat} (hm : m < 2 ^ 63) (hn : n < 2 ^ 63) :
    (delta m n).toInt = (n : Int) - m := by
  unfold delta
  rw [Int64.toInt_sub, Int64.toInt_ofNat_of_lt hn, Int64.toInt_ofNat_of_lt hm]
  exact Int.bmod_eq_of_le (by omega) (by omega)

theorem delta_self (n : Nat) : delta n n = 0 := Int64.sub_self _

theorem neg_delta (m n : Nat) : -delta m n = delta n m := Int64.neg_sub

theorem delta_eq_zero_iff {m n : Nat} (hm : m < 2 ^ 63) (hn : n < 2 ^ 63) :
    delta m n = 0 ↔ m = n := by
  constructor
  · intro h
    have hzero := toInt_delta hm hn
    rw [h, Int64.toInt_zero] at hzero
    omega
  · rintro rfl
    exact delta_self m

/-! ## 2. Names -/

namespace SortedMap

variable {m n : SortedMap Nat}

theorem lookup_without (name : String) :
    (m.without n).lookup name = if (n.get? name).isSome then none else m.get? name := by
  refine (lookup_filter (fun k => !n.contains k) name m.pairs).trans ?_
  unfold contains
  cases (n.get? name).isSome <;> rfl

theorem mem_without_iff {name : String} :
    name ∈ (m.without n).map (·.1) ↔ name ∈ m.names ∧ name ∉ n.names := by
  rw [← lookup_isSome_iff, lookup_without, mem_names_iff, mem_names_iff]
  cases (n.get? name).isSome <;> simp

theorem sorted_without : ((m.without n).map (·.1)).Pairwise (· < ·) :=
  m.sorted.sublist (List.filter_sublist.map _)

/-- Maps with the same names and the same numbers are the same. -/
theorem ext_numbers (hnames : ∀ name, name ∈ m.names ↔ name ∈ n.names)
    (h : ∀ name, (m.get? name).getD 0 = (n.get? name).getD 0) : m = n := by
  refine ext_get? fun name => ?_
  have hname := hnames name
  have hnumber := h name
  rw [mem_names_iff, mem_names_iff] at hname
  cases hm : m.get? name with
  | none =>
    rw [hm] at hname
    exact (Option.not_isSome_iff_eq_none.mp fun e => nomatch hname.mpr e).symm
  | some x =>
    rw [hm] at hname hnumber
    obtain ⟨y, hy⟩ := Option.isSome_iff_exists.mp (hname.mp rfl)
    rw [hy] at hnumber ⊢
    exact congrArg some hnumber

end SortedMap

/-- **What the two passes leave under a name**: the difference of its numbers, if either map has
    one. -/
theorem get?_kindChanges (m n : SortedMap Nat) (name : String) :
    (kindChanges m n).get? name = if (m.get? name).isSome ∨ (n.get? name).isSome then
      some (delta ((m.get? name).getD 0) ((n.get? name).getD 0)) else none := by
  have first := sorted_mapValues (fun k v => delta v ((n.get? k).getD 0)) m.sorted
  have second := sorted_mapValues (fun _ v => delta 0 v) (n.sorted_without (n := m))
  unfold kindChanges
  rw [SortedMap.get?_insertAll _ _ second, SortedMap.get?_insertAll _ _ first,
    lookup_mapValues fun _ v => delta 0 v, lookup_mapValues fun k v => delta v ((n.get? k).getD 0),
    SortedMap.lookup_without, SortedMap.get?_empty, show m.pairs.lookup name = m.get? name from rfl]
  cases m.get? name with
  | none => cases n.get? name <;> rfl
  | some x => rfl

/-! ## 3. Figures -/

/-- What a report has a number for. -/
inductive Figure
  | live
  | unreferenced
  | total
  | kind (name : String)

/-- The number of a figure; a name that is absent counts zero. -/
def Report.figure (r : Report) : Figure → Nat
  | .live => r.live
  | .unreferenced => r.unreferenced
  | .total => r.total
  | .kind name => (r.kinds.get? name).getD 0

/-- The change of a figure; a name that is absent has not changed. -/
def Change.figure (c : Change) : Figure → Int64
  | .live => c.live
  | .unreferenced => c.unreferenced
  | .total => c.total
  | .kind name => (c.kinds.get? name).getD 0

theorem Report.figure_kind (r : Report) (name : String) :
    r.figure (.kind name) = (r.kinds.get? name).getD 0 := rfl

theorem Change.figure_kind (c : Change) (name : String) :
    c.figure (.kind name) = (c.kinds.get? name).getD 0 := rfl

/-- All figures are in the range of a signed word. -/
def Report.Bounded (r : Report) : Prop := ∀ f, r.figure f < 2 ^ 63

/-- Only the names that there are have to be looked at. -/
theorem Report.bounded_iff {r : Report} : r.Bounded ↔ r.live < 2 ^ 63 ∧ r.unreferenced < 2 ^ 63 ∧
    r.total < 2 ^ 63 ∧ ∀ p ∈ r.kinds.pairs, p.2 < 2 ^ 63 := by
  constructor
  · intro h
    refine ⟨h .live, h .unreferenced, h .total, fun p hp => ?_⟩
    have hlt := h (.kind p.1)
    rwa [figure_kind, SortedMap.mem_pairs_iff.mp hp] at hlt
  · rintro ⟨hlive, hunreferenced, htotal, hkinds⟩ f
    cases f with
    | live => exact hlive
    | unreferenced => exact hunreferenced
    | total => exact htotal
    | kind name =>
      rw [figure_kind]
      cases hn : r.kinds.get? name with
      | none => exact Nat.two_pow_pos 63
      | some n => exact hkinds (name, n) (SortedMap.mem_pairs_iff.mpr hn)

instance (r : Report) : Decidable r.Bounded := decidable_of_iff _ Report.bounded_iff.symm

/-- The report is that of an arena, after a run from the start of a program in which no counter of
    its tracker leaves its range. -/
def Report.Taken (r : Report) : Prop :=
  ∃ k acts, World.start.overflowsIn k acts = false ∧
    ((World.start.run acts).1.arena? k).map (fun b => b.snapshot.report) = some r

/-- The change the other way: all signs flipped, and the two lists swapped. -/
def Change.reversed (c : Change) : Change where
  live := -c.live
  unreferenced := -c.unreferenced
  total := -c.total
  kinds := c.kinds.mapValues fun d => -d
  added := c.removed
  removed := c.added

/-- **No change is empty figures and empty lists.** -/
theorem Change.isEmpty_iff {c : Change} :
    c.isEmpty ↔ (∀ f, c.figure f = 0) ∧ c.added = [] ∧ c.removed = [] := by
  have hkinds : (c.kinds.pairs.all fun p => p.2 == 0) ↔ ∀ name, c.figure (.kind name) = 0 := by
    rw [List.all_eq_true]
    constructor
    · intro h name
      rw [figure_kind]
      cases hn : c.kinds.get? name with
      | none => rfl
      | some d => exact eq_of_beq (h (name, d) (SortedMap.mem_pairs_iff.mpr hn))
    · intro h p hp
      have hzero := h p.1
      rw [figure_kind, SortedMap.mem_pairs_iff.mp hp] at hzero
      exact beq_iff_eq.mpr hzero
  unfold isEmpty
  simp only [Bool.and_eq_true, beq_iff_eq, List.isEmpty_iff, hkinds]
  constructor
  · rintro ⟨⟨⟨⟨⟨hlive, hunreferenced⟩, htotal⟩, hadded⟩, hremoved⟩, hk⟩
    refine ⟨fun f => ?_, hadded, hremoved⟩
    cases f with
    | live => exact hlive
    | unreferenced => exact hunreferenced
    | total => exact htotal
    | kind name => exact hk name
  · rintro ⟨hf, hadded, hremoved⟩
    exact ⟨⟨⟨⟨⟨hf .live, hf .unreferenced⟩, hf .total⟩, hadded⟩, hremoved⟩, fun name =>
      hf (.kind name)⟩

namespace Report

variable {a b c : Report}

/-- **Every figure of the change is the difference of the figures.** -/
theorem figure_changeTo (a b : Report) (f : Figure) :
    (a.changeTo b).figure f = delta (a.figure f) (b.figure f) := by
  cases f with
  | live | unreferenced | total => rfl
  | kind name =>
    rw [figure_kind, figure_kind, Change.figure_kind]
    show ((kindChanges a.kinds b.kinds).get? name).getD 0 = _
    rw [get?_kindChanges]
    cases a.kinds.get? name <;> cases b.kinds.get? name <;> rfl

theorem changeTo_names {name : String} :
    name ∈ (a.changeTo b).kinds.names ↔ name ∈ a.kinds.names ∨ name ∈ b.kinds.names := by
  simp only [SortedMap.mem_names_iff]
  show ((kindChanges a.kinds b.kinds).get? name).isSome ↔ _
  rw [get?_kindChanges]
  cases a.kinds.get? name <;> cases b.kinds.get? name <;> simp

theorem mem_added_iff {name : String} :
    name ∈ (a.changeTo b).added ↔ name ∈ b.kinds.names ∧ name ∉ a.kinds.names :=
  SortedMap.mem_without_iff

theorem mem_removed_iff {name : String} :
    name ∈ (a.changeTo b).removed ↔ name ∈ a.kinds.names ∧ name ∉ b.kinds.names :=
  SortedMap.mem_without_iff

/-- **Turned around, the change is reversed**, within any range. -/
theorem changeTo_reversed (a b : Report) : b.changeTo a = (a.changeTo b).reversed := by
  have hkinds : kindChanges b.kinds a.kinds =
      (kindChanges a.kinds b.kinds).mapValues fun d => -d := by
    refine SortedMap.ext_get? fun name => ?_
    rw [SortedMap.get?_mapValues, get?_kindChanges, get?_kindChanges]
    cases a.kinds.get? name <;> cases b.kinds.get? name <;> simp [neg_delta]
  unfold changeTo Change.reversed
  rw [hkinds]
  simp only [neg_delta]

/-- **A change is empty if the counts and the maps are equal**: a zero under a name is not the same
    as no number. -/
theorem changeTo_isEmpty_iff (ha : a.Bounded) (hb : b.Bounded) : (a.changeTo b).isEmpty ↔
    a.live = b.live ∧ a.unreferenced = b.unreferenced ∧ a.total = b.total ∧ a.kinds = b.kinds := by
  rw [Change.isEmpty_iff]
  constructor
  · rintro ⟨hf, hadded, hremoved⟩
    have heq : ∀ f, a.figure f = b.figure f := fun f =>
      (delta_eq_zero_iff (ha f) (hb f)).mp ((figure_changeTo a b f).symm.trans (hf f))
    refine ⟨heq .live, heq .unreferenced, heq .total,
      SortedMap.ext_numbers (fun name => ?_) fun name => heq (.kind name)⟩
    have hnew : name ∉ (a.changeTo b).added := hadded ▸ List.not_mem_nil
    have hgone : name ∉ (a.changeTo b).removed := hremoved ▸ List.not_mem_nil
    rw [mem_added_iff] at hnew
    rw [mem_removed_iff] at hgone
    tauto
  · rintro ⟨hlive, hunreferenced, htotal, hkinds⟩
    have hnone : a.kinds.without a.kinds = [] :=
      List.filter_eq_nil_iff.mpr fun p hp => by
        simp [SortedMap.contains, SortedMap.mem_pairs_iff.mp hp]
    refine ⟨fun f => ?_, ?_, ?_⟩
    · have heq : a.figure f = b.figure f := by
        cases f with
        | live => exact hlive
        | unreferenced => exact hunreferenced
        | total => exact htotal
        | kind name => exact congrArg (fun m => (m.get? name).getD 0) hkinds
      rw [figure_changeTo, heq, delta_self]
    · show (b.kinds.without a.kinds).map (·.1) = []
      rw [← hkinds, hnone, List.map_nil]
    · show (a.kinds.without b.kinds).map (·.1) = []
      rw [← hkinds, hnone, List.map_nil]

/-- The slots of an arena are live or free. -/
theorem Taken.live_add_free (h : a.Taken) : a.live + a.free = a.total := by
  obtain ⟨k, acts, hn, hr⟩ := h
  obtain ⟨b, hb, rfl⟩ := Option.map_eq_some_iff.mp hr
  exact (World.vacantExact_run hn hb).live_add_vacant

/-! ## 4. Three reports -/

/-- **A change is exact, and changes compose.** For any reports whose figures are in the range of a
    signed word: -/
theorem changeTo_exact (ha : a.Bounded) (hb : b.Bounded) (hc : c.Bounded) :
    -- added to the first report, the change gives the second
    (∀ f, (a.figure f : Int) + ((a.changeTo b).figure f).toInt = b.figure f) ∧
    -- its names are those of either report, the lists have those of one only, all in order
    (a.changeTo b).kinds.names.Pairwise (· < ·) ∧
    (∀ name, name ∈ (a.changeTo b).kinds.names ↔
      name ∈ a.kinds.names ∨ name ∈ b.kinds.names) ∧
    (a.changeTo b).added.Pairwise (· < ·) ∧
    (∀ name, name ∈ (a.changeTo b).added ↔ name ∈ b.kinds.names ∧ name ∉ a.kinds.names) ∧
    (a.changeTo b).removed.Pairwise (· < ·) ∧
    (∀ name, name ∈ (a.changeTo b).removed ↔ name ∈ a.kinds.names ∧ name ∉ b.kinds.names) ∧
    -- turned around, it has all signs flipped and the two lists swapped
    b.changeTo a = (a.changeTo b).reversed ∧
    (∀ f, ((b.changeTo a).figure f).toInt = -((a.changeTo b).figure f).toInt) ∧
    -- one change after another adds up
    (∀ f, ((a.changeTo c).figure f).toInt =
      ((a.changeTo b).figure f).toInt + ((b.changeTo c).figure f).toInt) ∧
    -- it is empty if the counts and the maps are equal, and then as many slots of arenas are free
    ((a.changeTo b).isEmpty ↔ a.live = b.live ∧ a.unreferenced = b.unreferenced ∧
      a.total = b.total ∧ a.kinds = b.kinds) ∧
    (a.Taken → b.Taken → (a.changeTo b).isEmpty → a.free = b.free) := by
  have hfigure {a b : Report} (ha : a.Bounded) (hb : b.Bounded) (f : Figure) :
      ((a.changeTo b).figure f).toInt = (b.figure f : Int) - a.figure f := by
    rw [figure_changeTo, toInt_delta (ha f) (hb f)]
  have hempty := changeTo_isEmpty_iff ha hb
  refine ⟨fun f => ?_, (a.changeTo b).kinds.sorted, fun _ => changeTo_names,
    SortedMap.sorted_without, fun _ => mem_added_iff, SortedMap.sorted_without,
    fun _ => mem_removed_iff, changeTo_reversed a b, fun f => ?_, fun f => ?_, hempty,
    fun hta htb he => ?_⟩
  · rw [hfigure ha hb]
    omega
  · rw [hfigure hb ha, hfigure ha hb]
    omega
  · rw [hfigure ha hc, hfigure ha hb, hfigure hb hc]
    omega
  · obtain ⟨hlive, _, htotal, _⟩ := hempty.mp he
    have := hta.live_add_free
    have := htb.live_add_free
    omega

/-- An integer is built. -/
def building : List Action :=
  [.addArena (.strict ⟨none, none, none⟩ .zero) .silent,
    .call 0 (.buildScalar (.integer 7))]

/-- An integer is built, released and reclaimed, and another one built. -/
def rebuilding : List Action :=
  [.addArena (.strict ⟨none, none, none⟩ .zero) .silent,
    .call 0 (.buildScalar (.integer 8)),
    .call 0 (.release ⟨⟨1⟩, 0, 0⟩),
    .call 0 .reclaim,
    .call 0 (.buildScalar (.integer 7))]

/-- A report of one integer, when there have been that many allocations. -/
def oneInteger (allocations : Nat) : Report :=
  ⟨1, 0, 0, 1, ⟨[("Integer", 1)], by decide⟩, some allocations, some 96⟩

/-- The same with a zero under another name. -/
def noLists : Report := ⟨1, 0, 0, 1, ⟨[("Integer", 1), ("List", 0)], by decide⟩, some 1, some 96⟩

/-- From `building` to `rebuilding` nothing changed. To the report with a zero no figure changed,
    but there is a change: it has a new name. -/
theorem changeTo_exact_noLists : (oneInteger 1).Bounded ∧ (oneInteger 2).Bounded ∧
    noLists.Bounded ∧ (oneInteger 1).Taken ∧ (oneInteger 2).Taken ∧
    ((oneInteger 1).changeTo (oneInteger 2)).isEmpty ∧
    (oneInteger 1).free = (oneInteger 2).free ∧
    (∀ f, (((oneInteger 1).changeTo noLists).figure f).toInt = 0) ∧
    "List" ∈ ((oneInteger 1).changeTo noLists).added ∧
    ¬ ((oneInteger 1).changeTo noLists).isEmpty := by
  have h1 : (oneInteger 1).Bounded := by decide
  have h2 : (oneInteger 2).Bounded := by decide
  have h3 : noLists.Bounded := by decide
  have t1 : (oneInteger 1).Taken := ⟨0, building, by cbv, by cbv⟩
  have t2 : (oneInteger 2).Taken := ⟨0, rebuilding, by cbv, by cbv⟩
  obtain ⟨_, _, _, _, _, _, _, _, _, _, hempty, hfree⟩ := changeTo_exact h1 h2 h3
  obtain ⟨hsum, _, _, _, hadded, _, _, _, _, _, hempty', _⟩ := changeTo_exact h1 h3 h2
  have hnone : ((oneInteger 1).changeTo (oneInteger 2)).isEmpty :=
    hempty.mpr ⟨rfl, rfl, rfl, rfl⟩
  refine ⟨h1, h2, h3, t1, t2, hnone, hfree t1 t2 hnone, fun f => ?_,
    (hadded "List").mpr (by decide), fun h => ?_⟩
  · have hf := hsum f
    have heq : (oneInteger 1).figure f = noLists.figure f := by
      cases f with
      | live | unreferenced | total => rfl
      | kind name =>
        show (List.lookup name [("Integer", 1)]).getD 0 =
          (List.lookup name [("Integer", 1), ("List", 0)]).getD 0
        simp only [lookup_pair, List.lookup_nil]
        split
        · rfl
        · split <;> rfl
    omega
  · have hnames := congrArg SortedMap.names (hempty'.mp h).2.2.2
    exact absurd hnames (by decide)

end Report

end ValueHeap
