import ValueHeap.Proofs.Documents
import ValueHeap.Proofs.Cascade

/-!
# Values that are added, and what a collection leaves of them

While a document is built, values are added to the arena that refer to one another only. Two
things are said of them at every moment: which references to them are still in the hands of the
builder, and that each of them reads as a document, so that none lies on a cycle. That is enough
for a collection to find all of them, once no reference to them is left in any hand, and to leave
the other values alone.

* `Sown`: the values added to an arena, whatever may come of them; `Sown.occupant?`: the values
  that were there are as they were;
* **`Sown.reclaim`**: when no reference to an added value is left over, a collection makes the
  arena what it would have made it before;
* `Grove`: the added values form trees; `Grove.entriesOn`: one reference leads to each of them.
-/

namespace ValueHeap

namespace Arena

open Outcome Document

variable {a b c : Arena} {ledger : List Handle} {moving loose loose' roots roots' : List Slot}
  {slots slots' : List Slot} {i j : Slot}

/-! ## 1. What reads as a document -/

/-- The value in the slot has a document. -/
def Readable (a : Arena) (i : Slot) : Prop := ∃ levels d, a.exportSlot levels i = .ok d

theorem Readable.grows (h : a.Readable i) (g : Grows a b) : b.Readable i := by
  obtain ⟨levels, d, h⟩ := h
  exact ⟨levels, d, exportSlot_kept g h⟩

theorem exists_of_forall₂ {α β : Type} {R : α → β → Prop} {l : List α} {ys : List β}
    (h : List.Forall₂ R l ys) {x : α} (hx : x ∈ l) : ∃ y, R x y := by
  induction h with
  | nil => cases hx
  | cons hxy _ ih =>
    rcases List.mem_cons.mp hx with rfl | hx
    · exact ⟨_, hxy⟩
    · exact ih hx

/-- Where a payload has a document, each of its children has one. -/
theorem Renders.child {child : Slot → Document → Prop} {p : Payload} {d : Document}
    (h : Renders child p d) (hj : j ∈ p.children) : ∃ e, child j e := by
  cases h with
  | bool | integer | float | string => cases hj
  | list h | tuple h => exact exists_of_forall₂ h hj
  | dictionary h =>
    obtain ⟨p, hp, rfl⟩ := List.mem_map.mp hj
    obtain ⟨m, hm⟩ := exists_of_forall₂ h hp
    exact ⟨m.2, hm.2⟩

/-- **A value that has a document is on no cycle.** -/
theorem Readable.not_below (h : a.Readable i) : ¬ a.Below i i := by
  obtain ⟨levels, d, h⟩ := h
  induction levels generalizing i d with
  | zero => cases h
  | succ levels ih =>
    intro hc
    obtain ⟨p, hp, hr⟩ := exportSlot_succ.mp h
    -- the value after this one is on the cycle too, with one level less
    obtain ⟨x, hx, hl⟩ := Relation.TransGen.head'_iff.mp hc
    obtain ⟨e, he⟩ := hr.child (childrenAt_of_payload? hp ▸ hx)
    exact ih e he (Relation.TransGen.tail' hl hx)

/-! ## 2. References among the values that were there -/

theorem Grows.leads (g : Grows a b) (h : a.Leads i j) : b.Leads i j :=
  Relation.ReflTransGen.mono (fun x y hy => by
    rwa [g.childrenAt (occupied_of_childrenAt hy)]) _ _ h

/-- From a value that was there, only such values can be reached, and these as before. -/
theorem Grows.leads_iff (g : Grows a b) (co : a.Coherent ledger moving)
    (hi : (a.occupant? i).isSome) : b.Leads i j ↔ a.Leads i j := by
  refine ⟨fun h => ?_, g.leads⟩
  induction h with
  | refl => exact .refl
  | tail _ hy ih => exact ih.tail (by rwa [g.childrenAt (co.leads_live ih hi)] at hy)

/-- The references to a value that was there come from such values. -/
theorem Grafts.entriesOn (w : Grafts a b) (hi : (a.occupant? i).isSome) :
    b.entriesOn i = a.entriesOn i := by
  have hsum := fun d : Arena => entriesOn_eq_sum d i (n := max a.cells.size b.cells.size)
  rw [hsum a (le_max_left _ _), hsum b (le_max_right _ _)]
  refine Finset.sum_congr rfl fun j _ => ?_
  cases ho : a.occupant? j with
  | some o => rw [w.childrenAt (by rw [ho]; rfl)]
  | none =>
    have hn : i ∉ b.childrenAt j := fun hm => by
      rw [w.apart j i ho hm] at hi
      cases hi
    rw [childrenAt_of_vacant ho, List.count_eq_zero.mpr hn, List.count_nil]

/-! ## 3. The values added -/

/-- `b` is `a` with further values. To those in `loose` a reference is in the hands of whoever
    builds them; the references in `moving` were on the move before. -/
structure Sown (a b : Arena) (ledger : List Handle) (moving loose : List Slot) : Prop
    extends Grafts a b where
  coherent : b.Coherent ledger (loose ++ moving)
  fresh : ∀ i ∈ loose, a.occupant? i = none
  readable : ∀ i, a.occupant? i = none → (b.occupant? i).isSome → b.Readable i

namespace Sown

theorem refl (co : a.Coherent ledger moving) : Sown a a ledger moving [] where
  toGrafts := .refl co.vacant
  coherent := co
  fresh := List.forall_mem_nil _
  readable i hi hs := by
    rw [hi] at hs
    cases hs

theorem trans (h : Sown a b ledger moving loose) (k : Sown b c ledger (loose ++ moving) loose') :
    Sown a c ledger moving (loose' ++ loose) where
  toGrafts := h.toGrafts.trans k.toGrafts
  coherent := (List.append_assoc loose' loose moving).symm ▸ k.coherent
  fresh i hi := (List.mem_append.mp hi).elim (fun hi => h.vacant_of (k.fresh i hi)) (h.fresh i)
  readable i hi hs := by
    cases hb : b.occupant? i with
    | none => exact k.readable i hb hs
    | some o => exact (h.readable i hi (by rw [hb]; rfl)).grows k.toGrows

/-- Some of the references in hand may be given up. -/
theorem still (h : Sown a b ledger moving loose) (k : Still b c)
    (co : c.Coherent ledger (loose' ++ moving)) (hl : loose' ⊆ loose) :
    Sown a c ledger moving loose' where
  toGrafts := h.toGrafts.still k
  coherent := co
  fresh i hi := h.fresh i (hl hi)
  readable i hi hs := (h.readable i hi ((k.occupied i).symm.trans hs)).grows k.grows

/-- **The values that were there are as they were**, counts and all. -/
theorem occupant? (h : Sown a b ledger moving loose) (co : a.Coherent ledger moving) {o : Occupant}
    (ho : a.occupant? i = some o) : b.occupant? i = some o := by
  have hi : (a.occupant? i).isSome := by rw [ho]; rfl
  obtain ⟨o', ho'⟩ := Option.isSome_iff_exists.mp (h.occupied hi)
  have hp : o'.payload = o.payload := by
    have hk := (h.kept i _ (payload?_of_occupant? ho)).1
    rw [payload?_of_occupant? ho'] at hk
    exact Option.some.inj hk
  have hloose : loose.count i = 0 := List.count_eq_zero.mpr fun hm => by
    rw [h.fresh i hm] at hi
    cases hi
  have hn : o'.count = o.count := by
    have h1 := co.counted i o ho
    have h2 := h.coherent.counted i o' ho'
    rw [h.handleOf hi, h.entriesOn hi, List.count_append, hloose] at h2
    omega
  obtain ⟨n, p⟩ := o
  obtain ⟨n', p'⟩ := o'
  cases hp
  cases hn
  exact ho'

/-! ## 4. What a collection leaves -/

/-- No value that was added is anchored; the others are anchored as before. -/
theorem anchored_iff (h : Sown a b ledger moving loose) (co : a.Coherent ledger moving)
    (hl : ∀ x ∈ ledger, a.resolves x) :
    (b.occupant? j).isSome ∧ b.Anchored ledger j ↔
      (a.occupant? j).isSome ∧ a.Anchored ledger j := by
  have held : ∀ {d : Arena} {s}, d.handleOf s ∈ ledger → (a.occupant? s).isSome := fun hm =>
    (resolves_iff_handleOf.mp (hl _ hm)).1
  constructor
  · intro hb
    obtain ⟨_, s, hs, hlead⟩ := hb
    -- whatever anchors a slot was there before
    have hold : (a.occupant? s).isSome := by
      rcases hs with hm | hc
      · exact held hm
      · refine Option.isSome_iff_ne_none.mpr fun hv => ?_
        obtain ⟨x, hx, _⟩ := Relation.TransGen.head'_iff.mp hc
        exact (h.readable s hv (occupied_of_childrenAt hx)).not_below hc
    have hlead' := (h.leads_iff co hold).mp hlead
    refine ⟨co.leads_live hlead' hold, s, hs.imp (fun hm => h.handleOf hold ▸ hm) fun hc => ?_,
      hlead'⟩
    obtain ⟨x, hx, hxs⟩ := Relation.TransGen.head'_iff.mp hc
    rw [h.childrenAt hold] at hx
    exact Relation.TransGen.head'_iff.mpr
      ⟨x, hx, (h.leads_iff co (co.closed x s hx)).mp hxs⟩
  · intro ha
    obtain ⟨hj, s, hs, hlead⟩ := ha
    refine ⟨h.occupied hj, s, hs.imp (fun hm => ?_) fun hc => ?_, h.leads hlead⟩
    · rwa [h.handleOf (held hm)]
    · obtain ⟨x, hx, hxs⟩ := Relation.TransGen.head'_iff.mp hc
      refine Relation.TransGen.head'_iff.mpr ⟨x, ?_, h.leads hxs⟩
      rwa [h.childrenAt (occupied_of_childrenAt hx)]

/-- **A collection finds every value that was added**, once no reference to one is in any hand,
    and does to the others what it would have done without them. -/
theorem reclaim (h : Sown a b ledger [] []) (co : a.Coherent ledger [])
    (hl : ∀ x ∈ ledger, a.resolves x) (j : Slot) :
    b.reclaim.2.occupant? j = a.reclaim.2.occupant? j := by
  have wa := co.reclaim_reclaimed
  have wb := h.coherent.reclaim_reclaimed
  have hlive : ∀ j, (b.reclaim.2.occupant? j).isSome ↔ (a.reclaim.2.occupant? j).isSome :=
    fun j => by rw [wa.live_iff, wb.live_iff, h.anchored_iff co hl]
  have hpay : ∀ j, b.reclaim.2.payload? j = a.reclaim.2.payload? j := by
    intro j
    by_cases hj : (a.reclaim.2.occupant? j).isSome
    · obtain ⟨oa, ha⟩ := (wa.live_iff j).mp hj
      obtain ⟨ob, hb⟩ := (wb.live_iff j).mp ((hlive j).mpr hj)
      obtain ⟨o, ho⟩ := Option.isSome_iff_exists.mp oa
      have hp := payload?_of_occupant? ho
      rw [wa.payload?_of_anchored oa ha, wb.payload?_of_anchored ob hb, hp, (h.kept j _ hp).1]
    · have hna := Option.not_isSome_iff_eq_none.mp hj
      have hnb := Option.not_isSome_iff_eq_none.mp (mt (hlive j).mp hj)
      unfold payload?
      rw [hna, hnb]
  -- payloads give the references among values, and these the counts
  cases ho : a.reclaim.2.occupant? j with
  | none => exact Option.not_isSome_iff_eq_none.mp fun hb => by simpa [ho] using (hlive j).mp hb
  | some o =>
    have hj : (a.reclaim.2.occupant? j).isSome := by rw [ho]; rfl
    obtain ⟨o', ho'⟩ := Option.isSome_iff_exists.mp ((hlive j).mpr hj)
    have hp := hpay j
    rw [payload?_of_occupant? ho, payload?_of_occupant? ho'] at hp
    have hhandle : b.reclaim.2.handleOf j = a.reclaim.2.handleOf j := by
      rw [handleOf_eq wb.id (wb.refills? j), handleOf_eq wa.id (wa.refills? j),
        h.handleOf ((wa.live_iff j).mp hj).1]
    have h1 := (reclaim_coherent co).counted j o ho
    have h2 := (reclaim_coherent h.coherent).counted j o' ho'
    rw [hhandle, entriesOn_congr fun k => childrenAt_congr (hpay k), List.append_nil, ← h1] at h2
    obtain ⟨n, p⟩ := o
    obtain ⟨n', p'⟩ := o'
    cases h2
    cases hp
    exact ho'

end Sown

/-! ## 5. Trees -/

/-- The slots that are filled in `b` and not in `a` form trees: each is a root or held once by one
    of them, and can be reached from a root. -/
structure Grove (a b : Arena) (roots slots : List Slot) : Prop where
  nodup : slots.Nodup
  mem_iff : ∀ i, i ∈ slots ↔ a.occupant? i = none ∧ (b.occupant? i).isSome
  perm : (roots ++ slots.flatMap b.childrenAt).Perm slots
  rooted : ∀ i ∈ slots, ∃ r ∈ roots, b.Leads r i

namespace Grove

theorem none (a : Arena) : Grove a a [] [] where
  nodup := .nil
  mem_iff i := by
    cases a.occupant? i with
    | none => simp
    | some o => simp
  perm := .nil
  rooted := List.forall_mem_nil _

theorem root_mem (g : Grove a b roots slots) {r : Slot} (hr : r ∈ roots) : r ∈ slots :=
  g.perm.mem_iff.mp (List.mem_append_left _ hr)

/-- What the slots of a grove hold stays while values are added. -/
theorem children_kept (g : Grove a b roots slots) (w : Grows b c) :
    slots.flatMap c.childrenAt = slots.flatMap b.childrenAt :=
  List.flatMap_congr fun i hi => w.childrenAt ((g.mem_iff i).mp hi).2

/-- **A value that holds the roots** makes one tree of them. -/
theorem plant {p : Payload} (g : Grove a b p.children slots) (w : Grows a b) (k : Gains b c i p) :
    Grove a c [i] (i :: slots) where
  nodup := List.nodup_cons.mpr ⟨fun hi => by simpa [k.fresh] using (g.mem_iff i).mp hi, g.nodup⟩
  mem_iff j := by
    rw [List.mem_cons, g.mem_iff, ← payload?_isSome c, k.payload? j]
    by_cases hj : j = i
    · rw [if_pos hj, hj]
      exact iff_of_true (.inl rfl) ⟨w.vacant_of k.fresh, rfl⟩
    · rw [if_neg hj, payload?_isSome]
      exact or_iff_right hj
  perm := by
    rw [List.flatMap_cons, childrenAt_of_payload? k.payload?_new, g.children_kept k.grows]
    exact g.perm.cons i
  rooted j hj := by
    refine ⟨i, List.mem_singleton_self i, ?_⟩
    rcases List.mem_cons.mp hj with rfl | hj
    · exact .refl
    · obtain ⟨r, hr, hl⟩ := g.rooted j hj
      refine .head ?_ (k.grows.leads hl)
      rwa [childrenAt_of_payload? k.payload?_new]

/-- Two groves, one planted after the other. -/
theorem beside (g : Grove a b roots slots) (k : Grove b c roots' slots') (wa : Grows a b)
    (wb : Grows b c) : Grove a c (roots ++ roots') (slots ++ slots') where
  nodup := List.nodup_append'.mpr ⟨g.nodup, k.nodup, fun i hi hi' => by
    simpa [((k.mem_iff i).mp hi').1] using ((g.mem_iff i).mp hi).2⟩
  mem_iff i := by
    rw [List.mem_append, g.mem_iff, k.mem_iff]
    constructor
    · intro h
      rcases h with ⟨hv, hs⟩ | ⟨hv, hs⟩
      · exact ⟨hv, wb.occupied hs⟩
      · exact ⟨wa.vacant_of hv, hs⟩
    · intro h
      obtain ⟨hv, hs⟩ := h
      cases hb : b.occupant? i with
      | none => exact .inr ⟨rfl, hs⟩
      | some o => exact .inl ⟨hv, rfl⟩
  perm := by
    refine List.perm_iff_count.mpr fun x => ?_
    have h1 := g.perm.count_eq x
    have h2 := k.perm.count_eq x
    rw [List.flatMap_append, g.children_kept wb]
    simp only [List.count_append] at h1 h2 ⊢
    omega
  rooted i hi := by
    rcases List.mem_append.mp hi with hi | hi
    · obtain ⟨r, hr, hl⟩ := g.rooted i hi
      exact ⟨r, List.mem_append_left _ hr, wb.leads hl⟩
    · obtain ⟨r, hr, hl⟩ := k.rooted i hi
      exact ⟨r, List.mem_append_right _ hr, hl⟩

/-- **One of two roots that is stored in the other** is a root no longer. -/
theorem store {q : Payload} (g : Grove a b [i, j] (i :: slots)) (r : Rewrites b c i q)
    (hq : q.children = b.childrenAt i ++ [j]) : Grove a c [i] (i :: slots) := by
  have hch : ∀ x, c.childrenAt x = if x = i then b.childrenAt i ++ [j] else b.childrenAt x :=
    fun x => hq ▸ r.payload?.childrenAt x
  refine ⟨g.nodup, fun k => by rw [g.mem_iff, r.occupied_iff], ?_, fun k hk => ?_⟩
  · have hrest : slots.flatMap c.childrenAt = slots.flatMap b.childrenAt :=
      List.flatMap_congr fun k hk => by
        rw [hch, if_neg]
        rintro rfl
        exact (List.nodup_cons.mp g.nodup).1 hk
    refine List.perm_iff_count.mpr fun x => ?_
    have h1 := g.perm.count_eq x
    rw [List.flatMap_cons, hch, if_pos rfl, hrest]
    simp only [List.flatMap_cons, List.count_append, List.count_cons, List.count_nil] at h1 ⊢
    omega
  · have hsub : ∀ x y, y ∈ b.childrenAt x → y ∈ c.childrenAt x := fun x y hy => by
      rw [hch]
      split
      · rename_i hx
        exact List.mem_append_left _ (hx ▸ hy)
      · exact hy
    refine ⟨i, List.mem_singleton_self i, ?_⟩
    obtain ⟨x, hx, hxk⟩ := g.rooted k hk
    have hl : c.Leads x k := Relation.ReflTransGen.mono hsub _ _ hxk
    rcases List.mem_cons.mp hx with rfl | hx
    · exact hl
    · obtain rfl := List.mem_singleton.mp hx
      refine .head ?_ hl
      rw [hch, if_pos rfl]
      exact List.mem_append_right _ (List.mem_singleton_self x)

/-- **One reference leads to each value of a grove**, from the outside if it is a root. -/
theorem entriesOn (g : Grove a b roots slots) (w : Grows a b) (co : a.Coherent ledger moving)
    (hi : i ∈ slots) : roots.count i + b.entriesOn i = 1 := by
  have hv := ((g.mem_iff i).mp hi).1
  -- the values that were there before refer to none that was not
  have hold : ((b.liveSlots.filter fun j => !(a.occupant? j).isNone).flatMap b.childrenAt).count i
      = 0 := by
    refine List.count_eq_zero.mpr fun hm => ?_
    obtain ⟨j, hj, hij⟩ := List.mem_flatMap.mp hm
    have hs : (a.occupant? j).isSome := by simpa using (List.mem_filter.mp hj).2
    rw [w.childrenAt hs] at hij
    simpa [hv] using co.closed i j hij
  have hnew : (b.liveSlots.filter fun j => (a.occupant? j).isNone).Perm slots := by
    refine (List.perm_ext_iff_of_nodup ((nodup_liveSlots b).filter _) g.nodup).mpr fun j => ?_
    rw [List.mem_filter, g.mem_iff, mem_liveSlots, Option.isNone_iff_eq_none]
    exact And.comm
  have hsplit := count_flatMap_filter b.childrenAt (fun j => (a.occupant? j).isNone) i b.liveSlots
  have hp := g.perm.count_eq i
  rw [List.count_append, List.count_eq_one_of_mem g.nodup hi] at hp
  unfold Arena.entriesOn
  rw [hsplit, hold, (hnew.flatMap_right b.childrenAt).count_eq i]
  exact hp

/-- **Every value of a grove has one reference**, if that to each root is in hand. -/
theorem count? (g : Grove a b roots slots) (w : Grows a b) (ca : a.Coherent ledger moving)
    (cb : b.Coherent ledger (roots ++ moving)) (hl : ∀ x ∈ ledger, a.resolves x) (hi : i ∈ slots) :
    b.count? i = some 1 := by
  obtain ⟨hv, hs⟩ := (g.mem_iff i).mp hi
  obtain ⟨o, ho⟩ := Option.isSome_iff_exists.mp hs
  have h1 := cb.counted i o ho
  have h2 := g.entriesOn w ca hi
  have hledger : ledger.count (b.handleOf i) = 0 := List.count_eq_zero.mpr fun hm => by
    have hr := (resolves_iff_handleOf.mp (hl _ hm)).1
    rw [show (b.handleOf i).slot = i from rfl, hv] at hr
    cases hr
  have hmoving : moving.count i = 0 := List.count_eq_zero.mpr fun hm => by
    simpa [hv] using ca.moving_live i hm
  rw [hledger, List.count_append, hmoving] at h1
  rw [Arena.count?, ho, Option.map_some, Option.some.injEq]
  omega

end Grove

end Arena

end ValueHeap
