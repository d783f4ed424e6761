import ValueHeap.Proofs.Accounts
import ValueHeap.Proofs.Cascade

/-!
# Where the two collections agree

Reclaiming goes by counts, sweeping by what roots lead to. They part on cycles only: a value stays
for both if a chain of references leads to it from a handle outstanding, and for the first also if
the chain starts on a cycle. So without cycles, and with just the handles outstanding as roots, both
leave the same values; and then counts and accounts have no choice, since counts are exact and what
is taken from the weight of an arena is given back to its tracker.

* `Acyclic`: no live value can be reached from itself;
* `Coherent.kept_iff_anchored`: what stays is the same for both;
* **`World.Reachable.collections_agree`**: the same number, occupants, generations and accounts.
-/

namespace ValueHeap

namespace Arena

variable {a b c : Arena} {ledger roots : List Handle} {moving : List Slot}

/-! ## 1. Without cycles -/

/-- No live value can be reached from itself by one reference or more. -/
def Acyclic (a : Arena) : Prop := ∀ i, (a.occupant? i).isSome → ¬ a.Below i i

/-- Where values only refer to slots with lower numbers, there is no cycle. -/
theorem acyclic_of_lower (h : ∀ i ∈ a.liveSlots, ∀ j ∈ a.childrenAt i, j < i) : a.Acyclic := by
  have lower : ∀ {i j}, a.Below j i → j < i := by
    intro i j hb
    have step : ∀ {x y}, y ∈ a.childrenAt x → y < x := fun {x y} hy =>
      h x (mem_liveSlots.mpr (occupied_of_childrenAt hy)) y hy
    induction hb with
    | single hj => exact step hj
    | tail _ hj ih => exact (step hj).trans ih
  exact fun i _ hb => Nat.lt_irrefl i (lower hb)

/-- The roots are the handles of the ledger, as far as they name values. -/
def Roots (a : Arena) (ledger roots : List Handle) : Prop :=
  ∀ h, a.resolves h → (h ∈ roots ↔ h ∈ ledger)

/-- **Without cycles the outstanding handles decide**, whether one goes by counts or by roots. -/
theorem Coherent.kept_iff_anchored (co : a.Coherent ledger moving) (hc : a.Acyclic)
    (hr : a.Roots ledger roots) (j : Slot) :
    a.Kept roots j ↔ (a.occupant? j).isSome ∧ a.Anchored ledger j := by
  constructor
  · intro hk
    refine ⟨co.kept_live hk, ?_⟩
    obtain ⟨r, hm, hres, hl⟩ := hk
    have he := (resolves_iff_handleOf.mp hres).2
    exact ⟨r.slot, .inl (he ▸ (hr r hres).mp hm), hl⟩
  · rintro ⟨hj, s, hs, hl⟩
    -- the start of the chain is live, so it is on no cycle
    have hlive : (a.occupant? s).isSome := by
      rcases Relation.ReflTransGen.cases_head hl with rfl | ⟨x, hx, _⟩
      · exact hj
      · exact occupied_of_childrenAt hx
    have hm := hs.resolve_right (hc s hlive)
    have hres := resolves_handleOf hlive
    exact ⟨a.handleOf s, (hr _ hres).mpr hm, hres, hl⟩

/-! ## 2. What both leave -/

/-- Counts are exact, so where the values are the same their counts are. -/
theorem Coherent.occupant?_eq (cb : b.Coherent ledger []) (cc : c.Coherent ledger [])
    (hid : c.id = b.id) (hr : ∀ j, c.refills? j = b.refills? j)
    (hp : ∀ j, c.payload? j = b.payload? j) (j : Slot) : c.occupant? j = b.occupant? j := by
  have hpj := hp j
  cases hb : b.occupant? j with
  | none =>
    rw [payload?, payload?, hb] at hpj
    exact Option.map_eq_none_iff.mp hpj
  | some o =>
    rw [payload?, payload?, hb] at hpj
    obtain ⟨o', ho', hpo⟩ := Option.map_eq_some_iff.mp hpj
    have h1 := cb.counted j o hb
    have h2 := cc.counted j o' ho'
    rw [handleOf_eq hid (hr j), entriesOn_congr (fun i => childrenAt_congr (hp i)) j, ← h1] at h2
    obtain ⟨n, p⟩ := o
    obtain ⟨n', p'⟩ := o'
    cases h2
    cases hpo
    exact ho'

/-- What is left decides how much was given back to the tracker. -/
theorem Drawn.tracker_eq_of_clears {log more : List Stroke} (hb : Drawn a log b)
    (hlog : ∀ s ∈ log, s.Clears) (hc : Drawn a more c) (hmore : ∀ s ∈ more, s.Clears)
    (v : a.VacantExact) (hp : ∀ j, c.payload? j = b.payload? j) : c.tracker = b.tracker := by
  obtain ⟨m, hm, hbt⟩ := hb.refunded v hlog
  obtain ⟨n, hn, hct⟩ := hc.refunded v hmore
  have hw := weight_congr hp
  have e : n = m := by omega
  rw [hct, hbt, e]

/-- **Both collections leave the same**, where there is no cycle. -/
theorem Coherent.collections_leave (co : a.Coherent ledger []) (hc : a.Acyclic)
    (hr : a.Roots ledger roots) : ∃ n b c, a.reclaim = (n, b) ∧ a.sweep roots = .ok n c ∧
      (∀ j, c.occupant? j = b.occupant? j) ∧ (∀ j, c.refills? j = b.refills? j) ∧
      c.tracker = b.tracker := by
  have R := co.reclaim_reclaimed
  obtain ⟨n, c, hok, S⟩ := co.sweep_swept roots
  have hlive : ∀ j, (c.occupant? j).isSome ↔ (a.reclaim.2.occupant? j).isSome := fun j => by
    rw [S.live_iff co, R.live_iff, co.kept_iff_anchored hc hr]
  have hpay : ∀ j, c.payload? j = a.reclaim.2.payload? j := by
    intro j
    cases hp : a.reclaim.2.payload? j with
    | none =>
      have hn : ¬ (c.occupant? j).isSome := fun h => by
        have h := (hlive j).mp h
        rw [← payload?_isSome, hp] at h
        cases h
      exact Option.map_eq_none_iff.mpr (Option.not_isSome_iff_eq_none.mp hn)
    | some p =>
      have hl := (hlive j).mpr (occupied_of_payload? hp)
      rw [S.payload? ((S.live_iff co j).mp hl)]
      exact R.payload? j p hp
  have hrefills : ∀ j, c.refills? j = a.reclaim.2.refills? j := fun j =>
    (S.refills? j).trans (R.refills? j).symm
  have hsweep := sweep_relays a a.tracer roots
  rw [hok] at hsweep
  obtain ⟨log, hlog, hswept⟩ := hsweep.drawn fun h => by cases h
  obtain ⟨more, hmore, hreclaimed, _⟩ := (reclaim_echoes a a.tracer).2
  have hn : n = a.reclaim.1 := by
    rw [S.freed, R.freed]
    refine congrArg List.length (List.filter_congr fun j _ => ?_)
    rw [← Option.not_isSome, ← Option.not_isSome, Bool.eq_iff_iff.mpr (hlive j)]
  refine ⟨n, a.reclaim.2, c, Prod.ext hn.symm rfl, hok, fun j => ?_, hrefills,
    hreclaimed.tracker_eq_of_clears hmore.1.clears hswept hlog.clears co.vacant hpay⟩
  exact (reclaim_coherent co).occupant?_eq (S.coherent co) (S.id.trans R.id.symm) hrefills hpay j

end Arena

namespace World

open Arena

variable {w : World} {k : Nat} {a : Arena} {roots : List Handle}

/-! ## 3. Programs -/

/-- **Reclaiming and sweeping agree where no live value lies on a cycle**, if the roots are all
    handles outstanding that name a value, the forgotten ones included. -/
theorem Reachable.collections_agree (hw : w.Reachable) (ha : w.arena? k = some a)
    (hc : a.Acyclic) (hr : a.Roots w.outstanding roots) :
    ∃ n b c, a.reclaim = (n, b) ∧ a.sweep roots = .ok n c ∧
      -- the same slots are emptied, and the values left have the same payloads and counts
      (∀ j, c.occupant? j = b.occupant? j) ∧
      -- the generations are the same
      (∀ j, c.generation? j = b.generation? j) ∧
      -- and so are the accounts
      c.tracker = b.tracker := by
  obtain ⟨n, b, c, hb, hok, ho, hg, ht⟩ := (hw.sound.coherent k a ha).collections_leave hc hr
  exact ⟨n, b, c, hb, hok, ho, fun j => by rw [generation?_eq, generation?_eq, hg], ht⟩

/-- A list of an integer and of a flag is released; another handle to the flag is forgotten. -/
def discarding : List Action :=
  [.addArena (.strict .none .zero) .silent,
    .call 0 (.buildScalar (.integer 7)),
    .call 0 (.buildScalar (.bool true)),
    .call 0 (.clone ⟨⟨1⟩, 1, 0⟩),
    .call 0 (.buildList [⟨⟨1⟩, 0, 0⟩, ⟨⟨1⟩, 1, 0⟩]),
    .forget ⟨⟨1⟩, 1, 0⟩,
    .call 0 (.release ⟨⟨1⟩, 2, 0⟩)]

/-- In `discarding` the list and the integer go; the flag stays for the handle that was
    forgotten. -/
theorem collections_agree_discarding : ∃ a b c, (start.run discarding).1.arena? 0 = some a ∧
    a.reclaim = (2, b) ∧ a.sweep [⟨⟨1⟩, 1, 0⟩] = .ok 2 c ∧ c.occupant? 1 = b.occupant? 1 ∧
    (b.occupant? 1).isSome ∧ c.tracker = b.tracker := by
  have hreach : (start.run discarding).1.Reachable := reachable_run discarding (by decide +kernel)
  obtain ⟨a, ha⟩ := Option.isSome_iff_exists.mp
    (by decide +kernel : ((start.run discarding).1.arena? 0).isSome)
  have hlower : ((start.run discarding).1.arena? 0).map
      (fun a => decide (∀ i ∈ a.liveSlots, ∀ j ∈ a.childrenAt i, j < i)) = some true := by
    decide +kernel
  have hout : (start.run discarding).1.outstanding = [⟨⟨1⟩, 1, 0⟩] := by decide +kernel
  have htwo : ((start.run discarding).1.arena? 0).map
      (fun a => (a.reclaim.1, (a.reclaim.2.occupant? 1).isSome)) = some (2, true) := by cbv
  rw [ha] at hlower htwo
  have hc := acyclic_of_lower (of_decide_eq_true (Option.some.inj hlower))
  have hr : a.Roots (start.run discarding).1.outstanding [⟨⟨1⟩, 1, 0⟩] := fun h _ => by rw [hout]
  obtain ⟨n, b, c, hb, hok, ho, _, ht⟩ := hreach.collections_agree ha hc hr
  have h2 : (a.reclaim.1, (a.reclaim.2.occupant? 1).isSome) = (2, true) := Option.some.inj htwo
  rw [hb] at h2
  have hn : n = 2 := congrArg Prod.fst h2
  exact ⟨a, b, c, ha, hn ▸ hb, hn ▸ hok, ho 1, congrArg Prod.snd h2, ht⟩

end World

end ValueHeap
