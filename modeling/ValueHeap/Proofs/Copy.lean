import ValueHeap.Proofs.Filling

/-!
# A deep copy is the same graph on other slots

The values that can be reached from the root are planned, filled into new slots and rewired.
`IsCopy` says what comes of it, by a renaming of the source's slots; it speaks of the occupants of
the two arenas only, so that a copy within one arena is no special case.

* `copyParts_plans`: the plan of a copy in a coherent arena;
* `rewire_rewired`: children are renamed and counted, each once;
* **`buildCopy_meets`**: a copy is built, or the arena holds what it held before;
* **`IsCopy.coherent`**: a built copy keeps the invariant of the arena it is built in.
-/

namespace ValueHeap

namespace Arena

open Outcome

variable {a b c t : Arena} {ledger : List Handle} {moving : List Slot} {root : Slot}

/-! ## 1. The plan -/

/-- The slots that the value in a slot is made of, in the order in which a copy is built. -/
def partsOf (a : Arena) (root : Slot) : List Slot := reach a.childrenAt a.liveSlots [root]

theorem nodup_partsOf (a : Arena) (root : Slot) : (a.partsOf root).Nodup :=
  nodup_reach _ _ _ a.nodup_liveSlots

/-- The parts of a value are what it leads to. -/
theorem Coherent.mem_partsOf (co : a.Coherent ledger moving) (hr : (a.occupant? root).isSome)
    (s : Slot) : s ∈ a.partsOf root ↔ a.Leads root s := by
  unfold partsOf
  rw [co.mem_reach_iff_leads]
  · constructor
    · rintro ⟨i, hi, hl⟩
      cases List.mem_singleton.mp hi
      exact hl
    · exact fun hl => ⟨root, List.mem_singleton.mpr rfl, hl⟩
  · intro i hi
    cases List.mem_singleton.mp hi
    exact hr

/-- The root comes first. -/
theorem partsOf_eq_cons (hr : (a.occupant? root).isSome) :
    ∃ rest, a.partsOf root = root :: rest := by
  unfold partsOf
  rw [reach, if_pos (mem_liveSlots.mpr hr)]
  exact ⟨_, rfl⟩

theorem occupied_of_part {s : Slot} (hs : s ∈ a.partsOf root) : ∃ o, a.occupant? s = some o :=
  Option.isSome_iff_exists.mp (mem_liveSlots.mp (reach_subset hs))

/-- The plan of a copy: each part once, the root first, with its payload at the start. -/
structure Plans (a : Arena) (root : Slot) (plan : List (Slot × Payload)) : Prop where
  sources : plan.map (·.1) = a.partsOf root
  payload : ∀ s p, (s, p) ∈ plan → ∃ q, a.payload? s = some q ∧ p = q.restarted

/-- **Planning a copy does not fail** in a coherent arena. -/
theorem copyParts_plans (co : a.Coherent ledger moving) (root : Slot) :
    ∃ plan, a.copyParts root = .ok plan ∧ Plans a root plan := by
  have hlive : ∀ s ∈ a.partsOf root, ∃ q, a.payload? s = some q := by
    intro s hs
    obtain ⟨o, ho⟩ := occupied_of_part hs
    exact ⟨_, payload?_of_occupant? ho⟩
  have hnone : ((a.partsOf root).flatMap a.childrenAt).findSome? a.dangling? = none := by
    rw [List.findSome?_eq_none_iff]
    intro i hi
    obtain ⟨s, _, hs⟩ := List.mem_flatMap.mp hi
    obtain ⟨o, ho⟩ := Option.isSome_iff_exists.mp (co.closed i s hs)
    unfold dangling?
    rw [follow_of_occupant? ho]
  refine ⟨(a.partsOf root).filterMap fun i => (a.payload? i).map fun p => (i, p.restarted),
    ?_, ?_, ?_⟩
  · unfold partsOf at hnone
    unfold copyParts
    simp only [hnone]
    rfl
  · rw [List.map_filterMap]
    refine (List.filterMap_congr fun s hs => ?_).trans List.filterMap_some
    obtain ⟨q, hq⟩ := hlive s hs
    rw [hq]
    rfl
  · intro s p hm
    obtain ⟨i, _, hi⟩ := List.mem_filterMap.mp hm
    obtain ⟨q, hq, e⟩ := Option.map_eq_some_iff.mp hi
    cases e
    exact ⟨q, hq, rfl⟩

/-! ## 2. Renaming children and counting them -/

/-- `b` has the identity, the empty slots and the generations of `a`. -/
structure SameFrame (b a : Arena) : Prop where
  id : b.id = a.id
  vacant : b.vacant = a.vacant
  refills? : ∀ j, b.refills? j = a.refills? j

theorem SameFrame.trans (h : SameFrame c b) (k : SameFrame b a) : SameFrame c a :=
  ⟨h.id.trans k.id, h.vacant.trans k.vacant, fun j => (h.refills? j).trans (k.refills? j)⟩

theorem SameSlots.sameFrame (h : SameSlots b a) : SameFrame b a :=
  ⟨h.id, h.vacant, h.refills?⟩

theorem sameFrame_update (a : Arena) (i : Slot) (f : Occupant → Occupant) :
    SameFrame (a.update i f) a := ⟨rfl, rfl, refills?_update a i f⟩

theorem retain_eq_ok {i : Slot} (h : (a.occupant? i).isSome) :
    a.retain i = .ok () (a.update i (fun o => { o with count := o.count + 1 })) := by
  obtain ⟨o, ho⟩ := Option.isSome_iff_exists.mp h
  unfold retain retain?
  rw [ho]

theorem occupant?_retained (a : Arena) (i j : Slot) :
    (a.update i (fun o => { o with count := o.count + 1 })).occupant? j =
      (a.occupant? j).map fun o => { o with count := o.count + [i].count j } := by
  rw [occupant?_update]
  by_cases e : j = i
  · rw [if_pos e, e, List.count_singleton_self]
  · rw [if_neg e, List.count_cons_of_ne (Ne.symm e)]
    cases a.occupant? j <;> rfl

/-- **References are added without fault** to slots that hold a value. -/
theorem retainAll_raised (is : List Slot) (a : Arena) (h : ∀ i ∈ is, (a.occupant? i).isSome) :
    ∃ b, a.retainAll is = .ok () b ∧ SameFrame b a ∧
      ∀ j, b.occupant? j =
        (a.occupant? j).map fun o => { o with count := o.count + is.count j } := by
  induction is generalizing a with
  | nil =>
    refine ⟨a, rfl, ⟨rfl, rfl, fun _ => rfl⟩, fun j => ?_⟩
    cases a.occupant? j <;> rfl
  | cons i is ih =>
    have hocc := occupant?_retained a i
    obtain ⟨b, hok, hf, hb⟩ := ih (a.update i fun o => { o with count := o.count + 1 }) (by
      intro k hk
      rw [hocc, Option.isSome_map]
      exact h k (List.mem_cons_of_mem _ hk))
    refine ⟨b, ?_, hf.trans (sameFrame_update a i _), fun j => ?_⟩
    · unfold retainAll
      rw [retain_eq_ok (h i List.mem_cons_self)]
      exact hok
    · have hcons : (i :: is).count j = [i].count j + is.count j := by
        show ([i] ++ is).count j = _
        exact List.count_append
      rw [hb, hocc, Option.map_map, hcons]
      refine congrArg (fun f => (a.occupant? j).map f) (funext fun o => ?_)
      exact congrArg (Occupant.mk · o.payload) (Nat.add_assoc _ _ _)

/-- One slot is rewired: its children are renamed, and each new reference counts once. -/
theorem rewire_one {f : Slot → Slot} {p : Payload} (i : Slot)
    (hc : ∀ k ∈ p.children, (a.occupant? (f k)).isSome) :
    ∃ b, (a.setPayload i (p.mapSlots f)).retainAll (p.mapSlots f).children =
        .ok () b ∧ SameFrame b a ∧
      ∀ j, b.occupant? j = (a.occupant? j).map fun q =>
        ⟨q.count + (p.children.map f).count j,
          if j = i then p.mapSlots f else q.payload⟩ := by
  have hset := occupant?_setPayload a i (p.mapSlots f)
  have hsome : ∀ j, ((a.setPayload i (p.mapSlots f)).occupant? j).isSome =
      (a.occupant? j).isSome := by
    intro j
    rw [hset]
    by_cases e : j = i
    · rw [if_pos e, Option.isSome_map]
    · rw [if_neg e]
  obtain ⟨b, hok, hf, hb⟩ := retainAll_raised (p.mapSlots f).children
    (a.setPayload i (p.mapSlots f)) (by
      intro k hk
      rw [Payload.children_mapSlots] at hk
      obtain ⟨m, hm, rfl⟩ := List.mem_map.mp hk
      rw [hsome]
      exact hc m hm)
  refine ⟨b, hok, hf.trans (sameFrame_update a i _), fun j => ?_⟩
  rw [hb, hset, Payload.children_mapSlots]
  by_cases e : j = i
  · rw [if_pos e, Option.map_map]
    exact congrArg (fun g => (a.occupant? j).map g) (funext fun q => by simp [e])
  · simp only [if_neg e]

/-- **Rewiring** renames the children of the given slots, and counts each new reference once. -/
theorem rewire_rewired (f : Slot → Slot) (is : List Slot) (a : Arena) (hd : is.Nodup)
    (hl : ∀ i ∈ is, (a.occupant? i).isSome)
    (hc : ∀ i ∈ is, ∀ k ∈ a.childrenAt i, (a.occupant? (f k)).isSome) :
    ∃ b, a.rewire f is = .ok () b ∧ SameFrame b a ∧
      ∀ j, b.occupant? j = (a.occupant? j).map fun o =>
        ⟨o.count + ((is.flatMap a.childrenAt).map f).count j,
          if j ∈ is then o.payload.mapSlots f else o.payload⟩ := by
  induction is generalizing a with
  | nil =>
    refine ⟨a, rfl, ⟨rfl, rfl, fun _ => rfl⟩, fun j => ?_⟩
    cases a.occupant? j <;> rfl
  | cons i is ih =>
    obtain ⟨hi, hd⟩ := List.nodup_cons.mp hd
    obtain ⟨o, ho⟩ := Option.isSome_iff_exists.mp (hl i List.mem_cons_self)
    have hch : a.childrenAt i = o.payload.children := childrenAt_of_occupant? ho
    obtain ⟨b, hok, hf, hb⟩ := rewire_one i fun k hk => hc i List.mem_cons_self k (hch ▸ hk)
    have hbsome : ∀ j, (b.occupant? j).isSome = (a.occupant? j).isSome := fun j => by
      rw [hb, Option.isSome_map]
    -- the slots that are still to be rewired hold what they held
    have hbch : ∀ j ∈ is, b.childrenAt j = a.childrenAt j := by
      intro j hj
      have e : j ≠ i := fun e => hi (e ▸ hj)
      refine childrenAt_congr ?_
      unfold payload?
      rw [hb, Option.map_map]
      exact congrArg (fun g => (a.occupant? j).map g) (funext fun q => if_neg e)
    obtain ⟨d, hdok, hdf, hdocc⟩ := ih b hd
      (fun j hj => by
        rw [hbsome]
        exact hl j (List.mem_cons_of_mem _ hj))
      (fun j hj k hk => by
        rw [hbsome]
        rw [hbch j hj] at hk
        exact hc j (List.mem_cons_of_mem _ hj) k hk)
    refine ⟨d, ?_, hdf.trans hf, fun j => ?_⟩
    · unfold rewire
      simp only [follow_of_occupant? ho, hok]
      exact hdok
    · rw [hdocc, hb, List.flatMap_congr hbch, List.flatMap_cons, List.map_append,
        List.count_append, hch, Option.map_map]
      by_cases e : j = i
      · rw [e, ho]
        simp only [Option.map_some, Function.comp_apply, hi, List.mem_cons, true_or, ↓reduceIte,
          Nat.add_assoc]
      · cases a.occupant? j with
        | none => rfl
        | some q =>
          simp only [Option.map_some, Function.comp_apply, List.mem_cons, e, false_or, ↓reduceIte,
            Nat.add_assoc]

/-! ## 3. Copies -/

/-- **`b` is `t` with a copy of what `root` leads to in `a`**, under the renaming `f` of its parts;
    `h` is the handle to the copy. -/
structure IsCopy (a t b : Arena) (root : Slot) (f : Slot → Slot) (h : Handle) : Prop where
  id : b.id = t.id
  vacant : b.VacantExact
  handle : h = b.handleOf (f root)
  injective : ∀ s ∈ a.partsOf root, ∀ s' ∈ a.partsOf root, f s = f s' → s = s'
  fresh : ∀ s ∈ a.partsOf root, t.occupant? (f s) = none
  newer : ∀ s ∈ a.partsOf root,
    ∃ r, b.refills? (f s) = some r ∧ ∀ q, t.refills? (f s) = some q → q < r
  /-- A part's copy has the part's payload, renamed and at its start, and counts the references
      among the parts; the handle to the copy of the root counts too. -/
  copied : ∀ s ∈ a.partsOf root, ∀ p, a.payload? s = some p → b.occupant? (f s) =
    some ⟨((a.partsOf root).flatMap a.childrenAt).count s + [root].count s,
      p.restarted.mapSlots f⟩
  old : ∀ j, j ∉ (a.partsOf root).map f →
    b.occupant? j = t.occupant? j ∧ b.refills? j = t.refills? j

theorem renamed_of_mem {built : List (Slot × Slot)} {s i : Slot} (hd : (built.map (·.1)).Nodup)
    (hm : (s, i) ∈ built) : renamed built s = i := by
  unfold renamed
  induction built with
  | nil => cases hm
  | cons q rest ih =>
    obtain ⟨k, m⟩ := q
    obtain ⟨hk, hd⟩ := List.nodup_cons.mp hd
    rcases List.mem_cons.mp hm with e | hm
    · cases e
      rw [List.lookup_cons_self]
      rfl
    · have hne : (s == k) = false := by
        rw [beq_eq_false_iff_ne]
        intro e
        exact hk (e ▸ List.mem_map_of_mem (f := (·.1)) hm)
      rw [List.lookup_cons, hne]
      exact ih hd hm

theorem map_renamed {built : List (Slot × Slot)} (hd : (built.map (·.1)).Nodup) :
    (built.map (·.1)).map (renamed built) = built.map (·.2) := by
  rw [List.map_map]
  exact List.map_congr_left fun q hq => renamed_of_mem (i := q.2) hd hq

/-- A renaming that tells `s` from the rest of a list keeps how often `s` occurs in it. -/
theorem count_map_of_inj {f : Slot → Slot} {s : Slot} :
    ∀ {l : List Slot}, (∀ x ∈ l, f x = f s → x = s) → (l.map f).count (f s) = l.count s
  | [], _ => rfl
  | x :: l, h => by
      have ih := count_map_of_inj fun y hy => h y (List.mem_cons_of_mem _ hy)
      rw [List.map_cons]
      by_cases e : x = s
      · rw [e, List.count_cons_self, List.count_cons_self, ih]
      · have hn : f x ≠ f s := fun k => e (h x List.mem_cons_self k)
        rw [List.count_cons_of_ne hn, List.count_cons_of_ne e, ih]

/-- The references among the parts name parts. -/
theorem Coherent.partsOf_closed (co : a.Coherent ledger moving) {s k : Slot}
    (hs : s ∈ a.partsOf root) (hk : k ∈ a.childrenAt s) : k ∈ a.partsOf root := by
  unfold partsOf at hs ⊢
  rw [mem_reach_iff] at hs ⊢
  exact .step hs hk (mem_liveSlots.mpr (co.closed k s hk))

/-! ## 4. Wiring up the filled slots -/

section Wiring

variable {plan : List (Slot × Payload)} {built : List (Slot × Slot)} {s : Slot}

theorem Filled.map_fst (w : Filled t b plan built) (hp : Plans a root plan) :
    built.map (·.1) = a.partsOf root := w.sources.trans hp.sources

theorem Filled.nodup_fst (w : Filled t b plan built) (hp : Plans a root plan) :
    (built.map (·.1)).Nodup := w.map_fst hp ▸ nodup_partsOf a root

theorem Filled.map_parts (w : Filled t b plan built) (hp : Plans a root plan) :
    (a.partsOf root).map (renamed built) = built.map (·.2) :=
  w.map_fst hp ▸ map_renamed (w.nodup_fst hp)

/-- A new slot, by the part it stands for. -/
theorem Filled.mem_new (w : Filled t b plan built) (hp : Plans a root plan)
    (hs : s ∈ a.partsOf root) : renamed built s ∈ built.map (·.2) :=
  w.map_parts hp ▸ List.mem_map_of_mem hs

/-- What a filled slot holds, by the part it stands for. -/
theorem Filled.part (w : Filled t b plan built) (hp : Plans a root plan)
    (hs : s ∈ a.partsOf root) :
    ∃ q, a.payload? s = some q ∧ b.occupant? (renamed built s) = some ⟨0, q.restarted⟩ := by
  obtain ⟨⟨s', i⟩, hm, rfl⟩ := List.mem_map.mp (w.map_fst hp ▸ hs)
  obtain ⟨p, hpm, ho⟩ := w.new s' i hm
  obtain ⟨q, hq, rfl⟩ := hp.payload s' p hpm
  exact ⟨q, hq, by rw [renamed_of_mem (w.nodup_fst hp) hm, ho]⟩

theorem Filled.injective (w : Filled t b plan built) (hp : Plans a root plan) :
    ∀ s ∈ a.partsOf root, ∀ s' ∈ a.partsOf root, renamed built s = renamed built s' → s = s' :=
  (List.nodup_map_iff_inj_on (nodup_partsOf a root)).mp (w.map_parts hp ▸ w.nodup)

theorem Filled.childrenAt_part (w : Filled t b plan built) (hp : Plans a root plan)
    (hs : s ∈ a.partsOf root) : b.childrenAt (renamed built s) = a.childrenAt s := by
  obtain ⟨q, hq, ho⟩ := w.part hp hs
  rw [childrenAt_of_occupant? ho, childrenAt_of_payload? hq]
  exact Payload.children_restarted q

/-- The new values still name what the parts name. -/
theorem Filled.edges (w : Filled t b plan built) (hp : Plans a root plan) :
    (built.map (·.2)).flatMap b.childrenAt = (a.partsOf root).flatMap a.childrenAt := by
  rw [← w.map_parts hp, List.flatMap_map]
  exact List.flatMap_congr fun s hs => w.childrenAt_part hp hs

/-- The first pair is that of the root. -/
theorem Filled.first (w : Filled t b plan built) (hp : Plans a root plan)
    (hr : (a.occupant? root).isSome) : ∃ rest, built = (root, renamed built root) :: rest := by
  obtain ⟨rest, hroot⟩ := partsOf_eq_cons hr
  have hsrc := (w.map_fst hp).trans hroot
  have hnd := w.nodup_fst hp
  cases built with
  | nil => cases hsrc
  | cons q built' =>
    obtain ⟨s, i⟩ := q
    have e : s = root := (List.cons.inj hsrc).1
    subst e
    exact ⟨built', by rw [renamed_of_mem hnd List.mem_cons_self]⟩

/-- `d` is `b` with the new slots renamed, the references among them counted, and one more
    reference to the first. -/
structure Wired (b d : Arena) (f : Slot → Slot) (root : Slot) (new edges : List Slot) : Prop where
  frame : SameFrame d b
  occupant? : ∀ j, d.occupant? j = (b.occupant? j).map fun o =>
    ⟨o.count + (edges.map f).count j + [f root].count j,
      if j ∈ new then o.payload.mapSlots f else o.payload⟩

theorem mem_partsOf_self (hr : (a.occupant? root).isSome) : root ∈ a.partsOf root := by
  obtain ⟨rest, e⟩ := partsOf_eq_cons hr
  exact e ▸ List.mem_cons_self

/-- **Wiring up does not fail**: the references among the new slots name new slots. -/
theorem wireUp_wired (co : a.Coherent ledger moving) (hr : (a.occupant? root).isSome)
    (hp : Plans a root plan) (w : Filled t b plan built) (crossing : Bool) :
    ∃ d, b.wireUp built crossing = .ok (d.handleOf (renamed built root)) d ∧
      Wired b d (renamed built) root (built.map (·.2)) ((a.partsOf root).flatMap a.childrenAt) := by
  obtain ⟨c, hok, hf, hocc⟩ := rewire_rewired (renamed built) (built.map (·.2)) b w.nodup
    (fun i hi => w.occupied hi) (by
      rw [← w.map_parts hp]
      intro i hi k hk
      obtain ⟨s, hs, rfl⟩ := List.mem_map.mp hi
      rw [w.childrenAt_part hp hs] at hk
      exact w.occupied (w.mem_new hp (co.partsOf_closed hs hk)))
  rw [w.edges hp] at hocc
  have hlive : (c.occupant? (renamed built root)).isSome := by
    rw [hocc, Option.isSome_map]
    exact w.occupied (w.mem_new hp (mem_partsOf_self hr))
  obtain ⟨rest, hfirst⟩ := w.first hp hr
  refine ⟨(c.update (renamed built root) fun o => { o with count := o.count + 1 }).note
    (.duplicate built.length crossing), ?_, ?_, fun j => ?_⟩
  · unfold wireUp
    rw [hok, andThen_ok]
    generalize renamed built root = i at hlive hfirst ⊢
    subst hfirst
    simp only
    rw [retain_eq_ok hlive]
    rfl
  · exact (sameSlots_note _ _).sameFrame.trans ((sameFrame_update c _ _).trans hf)
  · rw [occupant?_note, occupant?_retained, hocc, Option.map_map]
    rfl

/-- **The filled slots, wired up, are a copy.** -/
theorem Wired.isCopy {d : Arena} (co : a.Coherent ledger moving) (hr : (a.occupant? root).isSome)
    (hp : Plans a root plan) (w : Filled t b plan built)
    (k : Wired b d (renamed built) root (built.map (·.2))
      ((a.partsOf root).flatMap a.childrenAt)) :
    IsCopy a t d root (renamed built) (d.handleOf (renamed built root)) := by
  have hinj := w.injective hp
  have hedge : ∀ x ∈ (a.partsOf root).flatMap a.childrenAt, x ∈ a.partsOf root := by
    intro x hx
    obtain ⟨s, hs, hsx⟩ := List.mem_flatMap.mp hx
    exact co.partsOf_closed hs hsx
  have hsome : ∀ j, (d.occupant? j).isSome = (b.occupant? j).isSome := fun j => by
    rw [k.occupant?, Option.isSome_map]
  refine ⟨k.frame.id.trans w.id, w.vacant.congr k.frame.vacant k.frame.refills? hsome, rfl, hinj,
    fun s hs => w.fresh _ (w.mem_new hp hs), ?_, ?_, ?_⟩
  · intro s hs
    rw [k.frame.refills?]
    exact w.newer _ (w.mem_new hp hs)
  · intro s hs p hps
    obtain ⟨q, hq, ho⟩ := w.part hp hs
    cases hq.symm.trans hps
    have hroot : [renamed built root].count (renamed built s) = [root].count s :=
      count_map_of_inj (l := [root]) fun x hx e => by
        cases List.mem_singleton.mp hx
        exact hinj root (mem_partsOf_self hr) s hs e
    rw [k.occupant?, ho, Option.map_some, if_pos (w.mem_new hp hs), hroot,
      count_map_of_inj fun x hx e => hinj x (hedge x hx) s hs e, Nat.zero_add]
  · intro j hj
    have hzero : ∀ l : List Slot, (∀ x ∈ l, x ∈ a.partsOf root) →
        (l.map (renamed built)).count j = 0 := by
      intro l hl
      refine List.count_eq_zero.mpr fun hm => hj ?_
      obtain ⟨x, hx, rfl⟩ := List.mem_map.mp hm
      exact List.mem_map_of_mem (hl x hx)
    have hroot : [renamed built root].count j = 0 := hzero [root] fun x hx => by
      cases List.mem_singleton.mp hx
      exact mem_partsOf_self hr
    rw [w.map_parts hp] at hj
    obtain ⟨h1, h2⟩ := w.old j hj
    refine ⟨?_, (k.frame.refills? j).trans h2⟩
    rw [k.occupant?, hzero _ hedge, hroot, ← h1]
    simp only [hj, ↓reduceIte]
    cases b.occupant? j <;> rfl

end Wiring

/-- **A copy is built, or the arena holds what it held before.** -/
theorem buildCopy_meets {plan : List (Slot × Payload)} (co : a.Coherent ledger moving)
    (hr : (a.occupant? root).isSome) (hp : Plans a root plan) (v : t.VacantExact)
    (crossing : Bool) :
    (t.buildCopy plan crossing).Meets (fun h b => ∃ f, IsCopy a t b root f h)
      (fun b => Restored t b) := by
  refine (fillSlots_meets plan (.start v)).andThen fun built b w => ?_
  rw [List.nil_append] at w
  obtain ⟨d, hok, k⟩ := wireUp_wired co hr hp w crossing
  rw [hok]
  exact ⟨_, k.isCopy co hr hp w⟩

/-! ## 5. What a copy keeps -/

namespace IsCopy

variable {lt : List Handle} {f : Slot → Slot} {h : Handle} {s : Slot}

theorem payload? (k : IsCopy a t b root f h) (hs : s ∈ a.partsOf root) {p : Payload}
    (hp : a.payload? s = some p) : b.payload? (f s) = some (p.restarted.mapSlots f) := by
  unfold Arena.payload?
  rw [k.copied s hs p hp]
  rfl

theorem childrenAt (k : IsCopy a t b root f h) (hs : s ∈ a.partsOf root) :
    b.childrenAt (f s) = (a.childrenAt s).map f := by
  obtain ⟨o, ho⟩ := occupied_of_part hs
  have hp := payload?_of_occupant? ho
  rw [childrenAt_of_payload? (k.payload? hs hp), childrenAt_of_payload? hp,
    Payload.children_mapSlots, Payload.children_restarted]

theorem live (k : IsCopy a t b root f h) (hs : s ∈ a.partsOf root) :
    (b.occupant? (f s)).isSome := by
  obtain ⟨o, ho⟩ := occupied_of_part hs
  rw [k.copied s hs _ (payload?_of_occupant? ho)]
  rfl

/-- A live slot is no new one. -/
theorem not_new (k : IsCopy a t b root f h) {j : Slot} (hj : (t.occupant? j).isSome) :
    j ∉ (a.partsOf root).map f := by
  intro hm
  obtain ⟨s, hs, rfl⟩ := List.mem_map.mp hm
  rw [k.fresh s hs] at hj
  cases hj

theorem old_childrenAt (k : IsCopy a t b root f h) {j : Slot}
    (hj : j ∉ (a.partsOf root).map f) : b.childrenAt j = t.childrenAt j := by
  refine childrenAt_congr ?_
  unfold Arena.payload?
  rw [(k.old j hj).1]

/-- **The live slots are those from before and the new ones.** -/
theorem liveSlots_perm (k : IsCopy a t b root f h) :
    b.liveSlots.Perm (t.liveSlots ++ (a.partsOf root).map f) := by
  have hnew : ((a.partsOf root).map f).Nodup :=
    (List.nodup_map_iff_inj_on (nodup_partsOf a root)).mpr k.injective
  refine (List.perm_ext_iff_of_nodup b.nodup_liveSlots ?_).mpr fun j => ?_
  · refine List.nodup_append.mpr ⟨t.nodup_liveSlots, hnew, fun i hi j hj e => ?_⟩
    exact k.not_new (mem_liveSlots.mp hi) (e ▸ hj)
  · rw [List.mem_append, mem_liveSlots, mem_liveSlots]
    by_cases hj : j ∈ (a.partsOf root).map f
    · obtain ⟨s, hs, rfl⟩ := List.mem_map.mp hj
      simp [hj, k.live hs]
    · simp [hj, (k.old j hj).1]

/-- **As many slots are added as the value has parts.** -/
theorem live_eq (k : IsCopy a t b root f h) : b.live = t.live + (a.partsOf root).length := by
  rw [live_eq_length, live_eq_length, k.liveSlots_perm.length_eq, List.length_append,
    List.length_map]

/-- The entries on a slot are those from before and those among the new slots. -/
theorem entriesOn_eq (k : IsCopy a t b root f h) (j : Slot) : b.entriesOn j =
    t.entriesOn j + (((a.partsOf root).flatMap a.childrenAt).map f).count j := by
  have h1 : t.liveSlots.flatMap b.childrenAt = t.liveSlots.flatMap t.childrenAt :=
    List.flatMap_congr fun i hi => k.old_childrenAt (k.not_new (mem_liveSlots.mp hi))
  have h2 : ((a.partsOf root).map f).flatMap b.childrenAt =
      ((a.partsOf root).flatMap a.childrenAt).map f := by
    rw [List.flatMap_map, List.map_flatMap]
    exact List.flatMap_congr fun s hs => k.childrenAt hs
  unfold entriesOn
  rw [(k.liveSlots_perm.flatMap_right b.childrenAt).count_eq, List.flatMap_append,
    List.count_append, h1, h2]

/-- **No handle to a new slot was issued before**, unless its generation starts over. -/
theorem handleOf_fresh (k : IsCopy a t b root f h) (ct : t.Coherent lt moving) (hu : b.Unwrapped)
    (hs : s ∈ a.partsOf root) : b.handleOf (f s) ∉ lt := by
  intro hm
  obtain ⟨r, hr, hlt⟩ := k.newer s hs
  obtain ⟨q, hq, hle⟩ := ct.issued _ hm k.id
  have hg : (b.handleOf (f s)).generation.toNat = r := by
    show ((b.generation? (f s)).getD 0).toNat = r
    rw [generation?_eq, hr]
    exact Nat.mod_eq_of_lt (hu.refills_lt hr)
  have := hlt q hq
  omega

/-- The entries on a new slot are the references among the parts. -/
theorem entriesOn_new (k : IsCopy a t b root f h) (ca : a.Coherent ledger [])
    (ct : t.Coherent lt []) (hs : s ∈ a.partsOf root) :
    b.entriesOn (f s) = ((a.partsOf root).flatMap a.childrenAt).count s := by
  have h0 : t.entriesOn (f s) = 0 := by
    refine Nat.eq_zero_of_not_pos fun hpos => ?_
    obtain ⟨i, hi⟩ := entriesOn_pos.mp hpos
    have hl := ct.closed _ i hi
    rw [k.fresh s hs] at hl
    cases hl
  rw [k.entriesOn_eq, h0, Nat.zero_add]
  refine count_map_of_inj fun x hx e => ?_
  obtain ⟨i, hi, hix⟩ := List.mem_flatMap.mp hx
  exact k.injective x (ca.partsOf_closed hi hix) s hs e

/-- The entries on any other slot are those from before. -/
theorem entriesOn_old (k : IsCopy a t b root f h) (ca : a.Coherent ledger []) {j : Slot}
    (hj : j ∉ (a.partsOf root).map f) : b.entriesOn j = t.entriesOn j := by
  have h0 : (((a.partsOf root).flatMap a.childrenAt).map f).count j = 0 := by
    refine List.count_eq_zero.mpr fun hm => hj ?_
    obtain ⟨x, hx, rfl⟩ := List.mem_map.mp hm
    obtain ⟨i, hi, hix⟩ := List.mem_flatMap.mp hx
    exact List.mem_map_of_mem (ca.partsOf_closed hi hix)
  rw [k.entriesOn_eq, h0, Nat.add_zero]

/-- The one handle to a new slot is that to the copy of the root. -/
theorem handles_new (k : IsCopy a t b root f h) (hr : (a.occupant? root).isSome)
    (ct : t.Coherent lt []) (hu : b.Unwrapped) (hs : s ∈ a.partsOf root) :
    (h :: lt).count (b.handleOf (f s)) = [root].count s := by
  have hroot := k.handle
  have hnone := List.count_eq_zero.mpr (k.handleOf_fresh ct hu hs)
  by_cases e : root = s
  · rw [← e] at hnone ⊢
    rw [hroot, List.count_cons_self, hnone, List.count_singleton_self]
  · have hn : h ≠ b.handleOf (f s) := fun x =>
      e (k.injective root (mem_partsOf_self hr) s hs (congrArg Handle.slot (hroot.symm.trans x)))
    rw [List.count_cons_of_ne hn, hnone, List.count_cons_of_ne e, List.count_nil]

theorem handles_old (k : IsCopy a t b root f h) (hr : (a.occupant? root).isSome) {j : Slot}
    (hj : j ∉ (a.partsOf root).map f) :
    (h :: lt).count (b.handleOf j) = lt.count (t.handleOf j) := by
  have hn : h ≠ b.handleOf j := by
    intro e
    refine hj (List.mem_map.mpr ⟨root, mem_partsOf_self hr, ?_⟩)
    exact congrArg Handle.slot (k.handle.symm.trans e)
  rw [List.count_cons_of_ne hn, handleOf_eq k.id (k.old j hj).2]

/-- A view among the new values names a dictionary. -/
theorem views_new (k : IsCopy a t b root f h) (ca : a.Coherent ledger [])
    (hs : s ∈ a.partsOf root) {d : Slot} (hd : b.payload? (f s) = some (.dictItems d)) :
    b.kind? d = some .dictionary := by
  obtain ⟨o, ho⟩ := occupied_of_part hs
  have hp := payload?_of_occupant? ho
  rw [k.payload? hs hp] at hd
  obtain ⟨e, he, rfl⟩ : ∃ e, o.payload = .dictItems e ∧ d = f e := by
    cases hop : o.payload <;> rw [hop] at hd <;> cases hd
    exact ⟨_, rfl, rfl⟩
  rw [he] at hp
  have hem : e ∈ a.partsOf root := ca.partsOf_closed hs (by
    rw [childrenAt_of_payload? hp]
    exact List.mem_cons_self)
  obtain ⟨q, hq, hkind⟩ := Option.map_eq_some_iff.mp (ca.views s e hp)
  unfold kind?
  rw [k.payload? hem hq, Option.map_some, Payload.kind_mapSlots, Payload.kind_restarted, hkind]

theorem old_payload? (k : IsCopy a t b root f h) {j : Slot} (hj : j ∉ (a.partsOf root).map f) :
    b.payload? j = t.payload? j := by
  unfold Arena.payload?
  rw [(k.old j hj).1]

/-- A handle that was issued is for a generation that its slot has had. -/
theorem issued (k : IsCopy a t b root f h) (ct : t.Coherent lt []) {g : Handle} (hm : g ∈ lt)
    (e : g.arena = b.id) : ∃ r, b.refills? g.slot = some r ∧ g.generation.toNat ≤ r := by
  obtain ⟨q, hq, hle⟩ := ct.issued g hm (e.trans k.id)
  by_cases hj : g.slot ∈ (a.partsOf root).map f
  · obtain ⟨s, hs, hsg⟩ := List.mem_map.mp hj
    obtain ⟨r, hbr, hlt⟩ := k.newer s hs
    rw [hsg] at hbr hlt
    exact ⟨r, hbr, hle.trans (hlt q hq).le⟩
  · exact ⟨q, (k.old _ hj).2.trans hq, hle⟩

/-- **A built copy keeps the invariant** of the arena it is built in. -/
theorem coherent (k : IsCopy a t b root f h) (ca : a.Coherent ledger [])
    (hr : (a.occupant? root).isSome) (ct : t.Coherent lt []) (hu : b.Unwrapped) :
    b.Coherent (h :: lt) [] := by
  have hold : ∀ j, (t.occupant? j).isSome → (b.occupant? j).isSome := fun j hj => by
    rwa [(k.old j (k.not_new hj)).1]
  have hnone : ∀ i ∈ ([] : List Slot), (b.occupant? i).isSome := fun i hi => by cases hi
  refine ⟨k.vacant, ?_, ?_, ?_, ?_, hnone⟩
  · intro g hm e
    rcases List.mem_cons.mp hm with rfl | hm
    · have hroot := k.handle
      subst hroot
      obtain ⟨r, hq, _⟩ := k.newer root (mem_partsOf_self hr)
      refine ⟨r, hq, ?_⟩
      show ((b.generation? (f root)).getD 0).toNat ≤ r
      rw [generation?_eq, hq]
      exact Nat.mod_le r _
    · exact k.issued ct hm e
  · intro j o ho
    rw [List.count_nil, Nat.add_zero]
    by_cases hj : j ∈ (a.partsOf root).map f
    · obtain ⟨s, hs, rfl⟩ := List.mem_map.mp hj
      obtain ⟨q, hq⟩ := occupied_of_part hs
      rw [k.copied s hs _ (payload?_of_occupant? hq)] at ho
      cases ho
      rw [k.entriesOn_new ca ct hs, k.handles_new hr ct hu hs]
      exact Nat.add_comm _ _
    · rw [k.entriesOn_old ca hj, k.handles_old hr hj]
      rw [(k.old j hj).1] at ho
      exact ct.counted j o ho
  · intro i j hj
    by_cases hm : j ∈ (a.partsOf root).map f
    · obtain ⟨s, hs, rfl⟩ := List.mem_map.mp hm
      rw [k.childrenAt hs] at hj
      obtain ⟨x, hx, rfl⟩ := List.mem_map.mp hj
      exact k.live (ca.partsOf_closed hs hx)
    · rw [k.old_childrenAt hm] at hj
      exact hold i (ct.closed i j hj)
  · intro i d hd
    by_cases hm : i ∈ (a.partsOf root).map f
    · obtain ⟨s, hs, rfl⟩ := List.mem_map.mp hm
      exact k.views_new ca hs hd
    · rw [k.old_payload? hm] at hd
      have hk := ct.views i d hd
      obtain ⟨q, hq, _⟩ := Option.map_eq_some_iff.mp hk
      unfold kind? at hk ⊢
      rwa [k.old_payload? (k.not_new (occupied_of_payload? hq))]

end IsCopy

/-! ## 6. Copying -/

theorem Restored.refl (v : t.VacantExact) : Restored t t :=
  ⟨rfl, v, fun _ => rfl, fun _ _ => rfl, fun _ r hr => ⟨r, hr, Nat.le_refl r⟩⟩

/-- The sizes of the slots that a copy fills, in order. -/
def copySizes (a : Arena) (root : Slot) : List Nat :=
  (a.partsOf root).filterMap fun i => (a.payload? i).map (·.footprint)

theorem Plans.sizes {plan : List (Slot × Payload)} (hp : Plans a root plan) :
    plan.map (fun q => q.2.footprint) = a.copySizes root := by
  unfold copySizes
  rw [← hp.sources, List.filterMap_map, ← List.filterMap_eq_map]
  refine List.filterMap_congr fun q hq => ?_
  obtain ⟨p, hps, e⟩ := hp.payload q.1 q.2 hq
  rw [Function.comp_apply, Function.comp_apply, hps, e, Option.map_some,
    Payload.footprint_restarted]

/-- **A copy is made or refused**; a refusal leaves the target as it was. -/
theorem copyTo_meets {h : Handle} (co : a.Coherent ledger moving) (v : t.VacantExact)
    (crossing : Bool) :
    (a.copyTo h t crossing).Meets
      (fun g b => (a.occupant? h.slot).isSome ∧ ∃ f, IsCopy a t b h.slot f g)
      (fun b => Restored t b) := by
  unfold copyTo
  cases hl : a.lookup h with
  | error e => exact .refl v
  | ok o =>
    have hr : (a.occupant? h.slot).isSome := by
      rw [occupant?_of_lookup hl]
      rfl
    obtain ⟨plan, hplan, hp⟩ := copyParts_plans co h.slot
    simp only [hplan]
    exact (buildCopy_meets co hr hp v crossing).imp (fun _ _ k => ⟨hr, k⟩) fun _ k => k

/-- **A copy is made** if the handle names a value and the tracker accepts every slot. -/
theorem copyTo_accepted {h : Handle} (co : a.Coherent ledger moving) (v : t.VacantExact)
    (crossing : Bool) (hr : a.resolves h) (hs : t.tracker.acceptsAll (a.copySizes h.slot)) :
    ∃ g b f, a.copyTo h t crossing = .ok g b ∧ IsCopy a t b h.slot f g := by
  obtain ⟨o, hl⟩ := resolves_iff.mp hr
  have hlive := (resolves_iff_handleOf.mp hr).1
  obtain ⟨plan, hplan, hp⟩ := copyParts_plans co h.slot
  rw [← hp.sizes] at hs
  obtain ⟨built, b, hok⟩ := fillSlots_accepted plan [] t hs
  have w := fillSlots_meets plan (.start v)
  rw [hok, List.nil_append] at w
  obtain ⟨d, hd, k⟩ := wireUp_wired co hlive hp w crossing
  refine ⟨_, d, _, ?_, k.isCopy co hlive hp w⟩
  unfold copyTo buildCopy
  simp only [hl, hplan, hok, andThen_ok]
  exact hd

theorem copy_sound {h : Handle} (co : a.Coherent ledger []) :
    (a.copy h).Meets (fun g b => b.Sound (g :: ledger) []) (fun b => b.Sound ledger []) :=
  (copyTo_meets co co.vacant false).imp
    (fun _ _ ⟨hr, _, k⟩ hu => k.coherent co hr co hu) fun _ k _ => k.coherent co

end Arena

end ValueHeap
