import ValueHeap.Proofs.Slots

/-!
# Coherence: the invariant of an arena

An arena is coherent with a *ledger*, the handles that were issued and not given back, and a list
of *moving* references, those that the operation under way holds in its hands. Between operations
nothing moves.

* `Coherent` is the invariant: counts are exact, children name live values, a view names a
  dictionary, and the list of empty slots is exact;
* a handle turns into a moving reference (`Coherent.redeem`) and back (`Coherent.issue`); a moving
  reference is taken (`Coherent.retain`), given back (`Coherent.unlink`) or stored
  (`Coherent.setPayload`, `Coherent.fill`);
* `Coherent.vacate`: emptying a slot without references sets the references it held moving.
-/

namespace ValueHeap

namespace Arena

/-- **The invariant of an arena**, with the handles outstanding and the references on the move. -/
structure Coherent (a : Arena) (ledger : List Handle) (moving : List Slot) : Prop where
  vacant : a.VacantExact
  /-- A handle was issued for a generation that its slot has had. -/
  issued : ∀ h ∈ ledger, h.arena = a.id →
    ∃ r, a.refills? h.slot = some r ∧ h.generation.toNat ≤ r
  counted : ∀ i o, a.occupant? i = some o →
    o.count = ledger.count (a.handleOf i) + moving.count i + a.entriesOn i
  closed : ∀ i j, i ∈ a.childrenAt j → (a.occupant? i).isSome
  views : ∀ i d, a.payload? i = some (.dictItems d) → a.kind? d = some .dictionary
  moving_live : ∀ i ∈ moving, (a.occupant? i).isSome

namespace Coherent

variable {a b : Arena} {ledger ledger' : List Handle} {moving moving' : List Slot}

theorem empty (id : ArenaId) (t : Tracker) (r : Tracer) (h : ∀ h ∈ ledger, h.arena ≠ id) :
    (Arena.empty id t r).Coherent ledger [] where
  vacant := ⟨List.nodup_nil, fun i => by simp [Arena.empty]⟩
  issued h' hm e := absurd e (h h' hm)
  counted i o ho := by simp [Arena.empty, occupant?] at ho
  closed i j hj := by
    have := occupied_of_childrenAt hj
    simp [Arena.empty, occupant?] at this
  views i d hd := by simp [Arena.empty, payload?, occupant?] at hd
  moving_live i hi := by cases hi

/-! ## 1. The ledger -/

/-- Booking references otherwise, between handles and the move, keeps the invariant. -/
theorem rebook (c : a.Coherent ledger moving)
    (hi : ∀ h ∈ ledger', h.arena = a.id →
      ∃ r, a.refills? h.slot = some r ∧ h.generation.toNat ≤ r)
    (hm : ∀ i ∈ moving', (a.occupant? i).isSome)
    (hc : ∀ i o, a.occupant? i = some o → ledger'.count (a.handleOf i) + moving'.count i =
      ledger.count (a.handleOf i) + moving.count i) : a.Coherent ledger' moving' where
  vacant := c.vacant
  issued := hi
  counted i o ho := by
    have h1 := c.counted i o ho
    have h2 := hc i o ho
    omega
  closed := c.closed
  views := c.views
  moving_live := hm

/-- Only the arena's own handles matter, and of these only how often each is outstanding. -/
theorem congr_ledger (c : a.Coherent ledger moving)
    (h : ∀ h, h.arena = a.id → ledger'.count h = ledger.count h) :
    a.Coherent ledger' moving := by
  refine c.rebook (fun k hk e => ?_) c.moving_live fun i _ _ => by rw [h _ rfl]
  have hp : 0 < ledger.count k := h k e ▸ List.count_pos_iff.mpr hk
  exact c.issued k (List.count_pos_iff.mp hp) e

theorem perm_ledger (c : a.Coherent ledger moving) (h : ledger'.Perm ledger) :
    a.Coherent ledger' moving := c.congr_ledger fun k _ => h.count_eq k

theorem perm_moving (c : a.Coherent ledger moving) (h : moving'.Perm moving) :
    a.Coherent ledger moving' :=
  c.rebook c.issued (fun i hi => c.moving_live i (h.mem_iff.mp hi)) fun i _ _ => by
    rw [h.count_eq]

theorem of_sameSlots (h : SameSlots b a) (c : a.Coherent ledger moving) :
    b.Coherent ledger moving := by
  cases a
  cases b
  obtain ⟨h1, h2, h3⟩ := h
  simp only at h1 h2 h3
  subst h1 h2 h3
  exact ⟨⟨c.vacant.nodup, c.vacant.mem_iff⟩, c.issued, c.counted, c.closed, c.views, c.moving_live⟩

/-- **Handing in a handle**: its reference is then on the move. -/
theorem redeem {h : Handle} (c : a.Coherent (h :: ledger) moving) (hr : a.resolves h) :
    a.Coherent ledger (h.slot :: moving) := by
  obtain ⟨hl, he⟩ := resolves_iff_handleOf.mp hr
  refine c.rebook (fun k hk => c.issued k (List.mem_cons_of_mem _ hk)) ?_ ?_
  · intro i hi
    rcases List.mem_cons.mp hi with rfl | hi
    · exact hl
    · exact c.moving_live i hi
  · intro i _ _
    by_cases e : h.slot = i
    · subst e
      rw [List.count_cons_self, ← he, List.count_cons_self]
      omega
    · have hn : h ≠ a.handleOf i := fun k => e (congrArg Handle.slot k)
      rw [List.count_cons_of_ne e, List.count_cons_of_ne hn]

theorem redeemAll (hs : List Handle) (c : a.Coherent (hs ++ ledger) moving)
    (hr : ∀ h ∈ hs, a.resolves h) : a.Coherent ledger (hs.map (·.slot) ++ moving) := by
  induction hs generalizing moving with
  | nil => exact c
  | cons h hs ih =>
    have c1 := Coherent.redeem c (hr h List.mem_cons_self)
    have c2 := ih c1 fun k hk => hr k (List.mem_cons_of_mem _ hk)
    exact c2.perm_moving List.perm_middle.symm

/-- A handle that names no value stands for no reference. -/
theorem drop_dead {h : Handle} (c : a.Coherent (h :: ledger) moving) (hr : ¬ a.resolves h) :
    a.Coherent ledger moving := by
  refine c.rebook (fun k hk => c.issued k (List.mem_cons_of_mem _ hk)) c.moving_live ?_
  intro i o ho
  have hn : h ≠ a.handleOf i := fun e => hr (resolves_iff.mpr ⟨o, e ▸ lookup_handleOf ho⟩)
  rw [List.count_cons_of_ne hn]

/-- The handles that name values are all that count. -/
theorem resolving (c : a.Coherent ledger moving) :
    a.Coherent (ledger.filter a.resolves) moving := by
  refine c.rebook (fun h hm => c.issued h (List.mem_of_mem_filter hm)) c.moving_live ?_
  intro i o ho
  rw [List.count_filter (resolves_iff.mpr ⟨o, lookup_handleOf ho⟩)]

/-- **Issuing a handle** for a reference on the move. -/
theorem issue {i : Slot} (c : a.Coherent ledger (i :: moving)) :
    a.Coherent (a.handleOf i :: ledger) moving := by
  refine c.rebook ?_ (fun k hk => c.moving_live k (List.mem_cons_of_mem _ hk)) ?_
  · intro k hk e
    rcases List.mem_cons.mp hk with rfl | hk
    · have hl := lt_size_of_occupant? (c.moving_live i List.mem_cons_self)
      obtain ⟨r, hr⟩ := Option.isSome_iff_exists.mp (refills?_isSome.mpr hl)
      refine ⟨r, hr, ?_⟩
      show ((a.generation? i).getD 0).toNat ≤ r
      rw [generation?_eq, hr]
      exact Nat.mod_le r _
    · exact c.issued k hk e
  · intro j _ _
    by_cases e : i = j
    · subst e
      rw [List.count_cons_self, List.count_cons_self]
      omega
    · have hn : a.handleOf i ≠ a.handleOf j := fun k => e (congrArg Handle.slot k)
      rw [List.count_cons_of_ne e, List.count_cons_of_ne hn]

/-! ## 2. References -/

/-- What is on the move or held by a live value names a live value. -/
theorem live_of_count (c : a.Coherent ledger moving) {i j : Slot}
    (h : 0 < moving.count i + (a.childrenAt j).count i) : (a.occupant? i).isSome := by
  rcases Nat.eq_zero_or_pos (moving.count i) with e | e
  · have hp : 0 < (a.childrenAt j).count i := by omega
    exact c.closed i j (List.count_pos_iff.mp hp)
  · exact c.moving_live i (List.count_pos_iff.mp e)

/-- Where payloads stay, the invariant is a matter of the counts alone. -/
theorem recount (c : a.Coherent ledger moving) (hid : b.id = a.id) (hv : b.vacant = a.vacant)
    (hr : ∀ j, b.refills? j = a.refills? j) (hp : ∀ j, b.payload? j = a.payload? j)
    (hm : ∀ j ∈ moving', (a.occupant? j).isSome)
    (hc : ∀ j o o', a.occupant? j = some o → b.occupant? j = some o' →
      o'.count + moving.count j = o.count + moving'.count j) : b.Coherent ledger moving' := by
  have hch : ∀ j, b.childrenAt j = a.childrenAt j := fun j => childrenAt_congr (hp j)
  have ho : ∀ j, (b.occupant? j).isSome = (a.occupant? j).isSome := by
    intro j
    have h := congrArg Option.isSome (hp j)
    simpa [payload?] using h
  refine ⟨c.vacant.congr hv hr ho, ?_, ?_, ?_, ?_, ?_⟩
  · intro h hm' e
    rw [hr]
    exact c.issued h hm' (e.trans hid)
  · intro i o' ho'
    have hs' : (a.occupant? i).isSome := by rw [← ho, ho']; rfl
    obtain ⟨o, ho1⟩ := Option.isSome_iff_exists.mp hs'
    have h1 := c.counted i o ho1
    have h2 := hc i o o' ho1 ho'
    rw [handleOf_eq hid (hr i), entriesOn_congr hch]
    omega
  · intro i j hj
    rw [hch] at hj
    rw [ho]
    exact c.closed i j hj
  · intro i d hd
    rw [hp] at hd
    have hk := c.views i d hd
    unfold kind? at hk ⊢
    rwa [hp]
  · intro i hi
    rw [ho]
    exact hm i hi

/-- **One more reference** to a live value is on the move. -/
theorem retain {i : Slot} (c : a.Coherent ledger moving) (hi : (a.occupant? i).isSome) :
    (a.update i (fun o => { o with count := o.count + 1 })).Coherent ledger (i :: moving) := by
  refine c.recount rfl rfl (refills?_update a i _) (payload?_update a i fun _ => rfl) ?_ ?_
  · intro j hj
    rcases List.mem_cons.mp hj with rfl | hj
    · exact hi
    · exact c.moving_live j hj
  · intro j o o' ho ho'
    rw [occupant?_update, ho] at ho'
    by_cases h : j = i
    · subst h
      rw [if_pos rfl] at ho'
      cases ho'
      rw [List.count_cons_self]
      show o.count + 1 + _ = _
      omega
    · rw [if_neg h] at ho'
      cases ho'
      rw [List.count_cons_of_ne (Ne.symm h)]

/-- The count of a value with a reference on the move is positive. -/
theorem count_pos_of_moving {i : Slot} (c : a.Coherent ledger (i :: moving)) :
    ∃ o, a.occupant? i = some o ∧ 0 < o.count := by
  obtain ⟨o, ho⟩ := Option.isSome_iff_exists.mp (c.moving_live i List.mem_cons_self)
  have hc := c.counted i o ho
  rw [List.count_cons_self] at hc
  exact ⟨o, ho, by omega⟩

/-- **A moving reference is given up**; its count was positive. -/
theorem unlink {i : Slot} (c : a.Coherent ledger (i :: moving)) :
    (a.unlink i).Coherent ledger moving := by
  obtain ⟨o₀, ho₀, hpos⟩ := c.count_pos_of_moving
  refine c.recount (id_unlink a i) (vacant_unlink a i) (refills?_unlink a i) (payload?_unlink a i)
    (fun j hj => c.moving_live j (List.mem_cons_of_mem _ hj)) ?_
  intro j o o' ho ho'
  rw [occupant?_unlink, ho] at ho'
  by_cases h : j = i
  · subst h
    rw [ho₀] at ho
    cases ho
    rw [if_pos rfl] at ho'
    cases ho'
    rw [List.count_cons_self]
    show o₀.count - 1 + _ = _
    omega
  · rw [if_neg h] at ho'
    cases ho'
    rw [List.count_cons_of_ne (Ne.symm h)]

theorem giveBack {i : Slot} (c : a.Coherent ledger (i :: moving)) :
    (a.giveBack i).Coherent ledger moving :=
  c.unlink.of_sameSlots (sameSlots_giveBack a i)

theorem giveBackAll (is : List Slot) (c : a.Coherent ledger (is ++ moving)) :
    (a.giveBackAll is).Coherent ledger moving := by
  induction is generalizing a with
  | nil => exact c
  | cons i is ih => exact ih (Coherent.giveBack c)

/-- **Releasing a handle** settles it, whether it names a value or not. -/
theorem release {h : Handle} (c : a.Coherent (h :: ledger) moving) :
    (a.release h).Coherent ledger moving := by
  unfold Arena.release
  cases hl : a.lookup h with
  | ok o => exact (c.redeem (resolves_iff.mpr ⟨o, hl⟩)).giveBack
  | error e =>
    refine c.drop_dead fun hr => ?_
    obtain ⟨o, ho⟩ := resolves_iff.mp hr
    rw [hl] at ho
    cases ho

theorem releaseAll (hs : List Handle) (c : a.Coherent (hs ++ ledger) moving) :
    (a.releaseAll hs).Coherent ledger moving := by
  induction hs generalizing a with
  | nil => exact c
  | cons h hs ih => exact ih (Coherent.release c)

/-! ## 3. Payloads -/

/-- **Changing a payload**: what the new payload refers to beyond the old came off the move, and
    what it no longer refers to is on the move. -/
theorem setPayload {i : Slot} {p q : Payload} (c : a.Coherent ledger moving)
    (hp : a.payload? i = some p) (hk : q.kind = p.kind) (hn : p.kind ≠ .dictItems)
    (hb : ∀ j, moving'.count j + q.children.count j = moving.count j + p.children.count j) :
    (a.setPayload i q).Coherent ledger moving' := by
  have hrev := revises_setPayload q hp
  have hlive : ∀ j, ((a.setPayload i q).occupant? j).isSome = (a.occupant? j).isSome := by
    intro j
    rw [occupant?_setPayload]
    by_cases h : j = i <;> simp [h]
  have hold : a.childrenAt i = p.children := childrenAt_of_payload? hp
  have hmoved : ∀ j, 0 < moving'.count j + q.children.count j → (a.occupant? j).isSome := by
    intro j h
    refine c.live_of_count (j := i) ?_
    rw [hold, ← hb]
    exact h
  refine ⟨c.vacant.congr rfl (refills?_update a i _) hlive, ?_, ?_, ?_, ?_, ?_⟩
  · intro h hm e
    show ∃ r, (a.update i _).refills? h.slot = some r ∧ _
    rw [refills?_update]
    exact c.issued h hm e
  · intro j o ho
    have he : (a.setPayload i q).entriesOn j + _ = a.entriesOn j + q.children.count j :=
      hrev.entriesOn j
    rw [hold] at he
    have hb' := hb j
    rw [handleOf_eq (a := a) (b := a.setPayload i q) rfl (refills?_update a i _ j)]
    have hcount : ∃ o', a.occupant? j = some o' ∧ o'.count = o.count := by
      rw [occupant?_setPayload] at ho
      by_cases h : j = i
      · rw [if_pos h] at ho
        obtain ⟨o', ho', rfl⟩ := Option.map_eq_some_iff.mp ho
        exact ⟨o', ho', rfl⟩
      · rw [if_neg h] at ho
        exact ⟨o, ho, rfl⟩
    obtain ⟨o', ho', e⟩ := hcount
    have h1 := c.counted j o' ho'
    omega
  · intro j k hj
    rw [hlive]
    rw [hrev.childrenAt] at hj
    by_cases h : k = i
    · rw [if_pos h] at hj
      have : 0 < q.children.count j := List.count_pos_iff.mpr hj
      exact hmoved j (by omega)
    · rw [if_neg h] at hj
      exact c.closed j k hj
  · intro j d hd
    have hkind : (a.setPayload i q).kind? d = a.kind? d := by
      rw [hrev.kind?]
      by_cases h : d = i
      · rw [if_pos h, h]
        unfold kind?
        rw [hp, Option.map_some, Option.map_some, hk]
      · rw [if_neg h]
    rw [hkind]
    rw [hrev j] at hd
    by_cases h : j = i
    · rw [if_pos h] at hd
      cases hd
      exact absurd hk.symm hn
    · rw [if_neg h] at hd
      exact c.views j d hd
  · intro j hj
    rw [hlive]
    have := List.count_pos_iff.mpr hj
    exact hmoved j (by omega)

/-! ## 4. Filling a slot -/

/-- **The handle for a slot that is filled is a new one**, unless its generation starts over. -/
theorem handleOf_fill_fresh (c : a.Coherent ledger moving) (o : Occupant)
    (hu : (a.fill o).Unwrapped) : (a.fill o).handleOf a.nextSlot ∉ ledger := by
  intro hm
  obtain ⟨r, hr, hle⟩ := c.issued _ hm (id_fill a o)
  have hnext : (a.fill o).refills? a.nextSlot = some (r + 1) := by
    have hr' : a.refills? a.nextSlot = some r := hr
    rw [refills?_fill a o _ c.vacant.lt_size, if_pos rfl, nextRefills, hr']
    rfl
  have hlt := hu.refills_lt hnext
  have hg : ((a.fill o).handleOf a.nextSlot).generation.toNat = r + 1 := by
    show (((a.fill o).generation? a.nextSlot).getD 0).toNat = r + 1
    rw [generation?_eq, hnext]
    exact Nat.mod_eq_of_lt hlt
  omega

/-- **Filling a slot**: the references of the new value come off the move, and as many references
    to it as its count says go on the move. No handle outstanding may name the new value. -/
theorem fill_of_fresh {p : Payload} {n : Nat} (c : a.Coherent ledger (p.children ++ moving))
    (hview : ∀ d, p = .dictItems d → a.kind? d = some .dictionary)
    (hf : (a.fill ⟨n, p⟩).handleOf a.nextSlot ∉ ledger) :
    (a.fill ⟨n, p⟩).Coherent ledger (List.replicate n a.nextSlot ++ moving) := by
  have hvac := c.vacant.nextSlot_vacant
  have hocc := fun j => occupant?_fill a ⟨n, p⟩ j c.vacant.lt_size
  have href := fun j => refills?_fill a ⟨n, p⟩ j c.vacant.lt_size
  have hnot : ∀ j, (a.occupant? j).isSome → j ≠ a.nextSlot := by
    intro j hj e
    rw [e, hvac] at hj
    cases hj
  have hlive : ∀ j, (a.occupant? j).isSome → ((a.fill ⟨n, p⟩).occupant? j).isSome := by
    intro j hj
    rw [hocc, if_neg (hnot j hj)]
    exact hj
  have hrev := revises_fill ⟨n, p⟩ c.vacant
  have hkind : ∀ j k, a.kind? j = some k → (a.fill ⟨n, p⟩).kind? j = some k := by
    intro j k hj
    have hj' : (a.occupant? j).isSome := by
      cases ho : a.occupant? j with
      | none => simp [kind?, payload?, ho] at hj
      | some o => rfl
    rw [hrev.kind?, if_neg (hnot j hj')]
    exact hj
  have hnone : ∀ j, a.nextSlot ∉ a.childrenAt j := fun j hj => hnot _ (c.closed _ j hj) rfl
  have hnomove : a.nextSlot ∉ p.children ++ moving := fun h => hnot _ (c.moving_live _ h) rfl
  refine ⟨c.vacant.fill _, ?_, ?_, ?_, ?_, ?_⟩
  · intro h hm e
    obtain ⟨r, hr, hle⟩ := c.issued h hm (e.trans (id_fill a _))
    rw [href]
    by_cases hs : h.slot = a.nextSlot
    · rw [if_pos hs]
      refine ⟨_, rfl, ?_⟩
      rw [nextRefills, ← hs, hr]
      exact Nat.le_succ_of_le hle
    · rw [if_neg hs]
      exact ⟨r, hr, hle⟩
  · intro j o ho
    have he : _ + (a.childrenAt a.nextSlot).count j = a.entriesOn j + p.children.count j :=
      hrev.entriesOn j
    rw [childrenAt_of_vacant hvac, List.count_nil, Nat.add_zero] at he
    rw [List.count_append]
    rw [hocc] at ho
    by_cases h : j = a.nextSlot
    · subst h
      rw [if_pos rfl] at ho
      cases ho
      have h0 : a.entriesOn a.nextSlot = 0 := by
        refine Nat.eq_zero_of_not_pos fun hp => ?_
        obtain ⟨k, hk⟩ := entriesOn_pos.mp hp
        exact hnone k hk
      have h1 : p.children.count a.nextSlot = 0 :=
        List.count_eq_zero.mpr fun k => hnomove (List.mem_append_left _ k)
      have h2 : moving.count a.nextSlot = 0 :=
        List.count_eq_zero.mpr fun k => hnomove (List.mem_append_right _ k)
      have h3 := List.count_eq_zero.mpr hf
      rw [List.count_replicate_self]
      show n = _
      omega
    · rw [if_neg h] at ho
      have hr : (a.fill ⟨n, p⟩).refills? j = a.refills? j := by rw [href, if_neg h]
      have h1 := c.counted j o ho
      rw [List.count_append] at h1
      have h2 : (List.replicate n a.nextSlot).count j = 0 :=
        List.count_eq_zero.mpr fun k => h (List.eq_of_mem_replicate k)
      rw [handleOf_eq (id_fill a _) hr]
      omega
  · intro j k hj
    refine hlive j ?_
    rw [hrev.childrenAt] at hj
    by_cases h : k = a.nextSlot
    · rw [if_pos h] at hj
      exact c.moving_live j (List.mem_append_left _ hj)
    · rw [if_neg h] at hj
      exact c.closed j k hj
  · intro j d hd
    refine hkind d _ ?_
    rw [hrev j] at hd
    by_cases h : j = a.nextSlot
    · rw [if_pos h] at hd
      exact hview d (Option.some.inj hd)
    · rw [if_neg h] at hd
      exact c.views j d hd
  · intro j hj
    rcases List.mem_append.mp hj with hj | hj
    · rw [List.eq_of_mem_replicate hj, hocc, if_pos rfl]
      rfl
    · exact hlive j (c.moving_live j (List.mem_append_right _ hj))

theorem fill {p : Payload} {n : Nat} (c : a.Coherent ledger (p.children ++ moving))
    (hview : ∀ d, p = .dictItems d → a.kind? d = some .dictionary)
    (hu : (a.fill ⟨n, p⟩).Unwrapped) :
    (a.fill ⟨n, p⟩).Coherent ledger (List.replicate n a.nextSlot ++ moving) :=
  c.fill_of_fresh hview (c.handleOf_fill_fresh ⟨n, p⟩ hu)

/-! ## 5. Emptying a slot -/

/-- **Emptying a slot without references**: the references that its value held go on the move. -/
theorem vacate {i : Slot} {o : Occupant} (c : a.Coherent ledger moving)
    (ho : a.occupant? i = some o) (h0 : o.count = 0) :
    (a.vacate i).Coherent ledger (o.payload.children ++ moving) := by
  have hc := c.counted i o ho
  have hent : ∀ j, i ∉ a.childrenAt j := by
    intro j hj
    have := entriesOn_pos.mpr ⟨j, hj⟩
    omega
  have hmov : i ∉ moving := by
    intro hj
    have := List.count_pos_iff.mpr hj
    omega
  have hocc := occupant?_vacate a i
  have hold : a.childrenAt i = o.payload.children := childrenAt_of_occupant? ho
  have hrev := revises_vacate a i
  have hlive : ∀ j, j ≠ i → (a.occupant? j).isSome → ((a.vacate i).occupant? j).isSome := by
    intro j h hj
    rw [hocc, if_neg h]
    exact hj
  refine ⟨c.vacant.vacate (by rw [ho]; rfl), ?_, ?_, ?_, ?_, ?_⟩
  · intro h hm e
    rw [refills?_vacate]
    exact c.issued h hm e
  · intro j o' ho'
    rw [hocc] at ho'
    by_cases h : j = i
    · rw [if_pos h] at ho'
      cases ho'
    · rw [if_neg h] at ho'
      have he : _ = a.entriesOn j + ([] : List Slot).count j := hrev.entriesOn j
      rw [hold, List.count_nil] at he
      have h1 := c.counted j o' ho'
      rw [handleOf_eq (a := a) (b := a.vacate i) rfl (refills?_vacate a i j), List.count_append]
      omega
  · intro j k hj
    rw [hrev.childrenAt] at hj
    by_cases h : k = i
    · rw [if_pos h] at hj
      cases hj
    · rw [if_neg h] at hj
      refine hlive j (fun e => ?_) (c.closed j k hj)
      subst e
      exact hent k hj
  · intro j d hd
    rw [hrev j] at hd
    by_cases h : j = i
    · rw [if_pos h] at hd
      cases hd
    · rw [if_neg h] at hd
      have hk := c.views j d hd
      have hdi : d ≠ i := by
        intro e
        subst e
        refine hent j ?_
        rw [childrenAt_of_payload? hd]
        exact List.mem_cons_self
      rw [hrev.kind?, if_neg hdi]
      exact hk
  · intro j hj
    rcases List.mem_append.mp hj with hj | hj
    · rw [← hold] at hj
      refine hlive j (fun e => ?_) (c.closed j i hj)
      subst e
      exact hent j hj
    · refine hlive j (fun e => ?_) (c.moving_live j hj)
      subst e
      exact hmov hj

end Coherent

end Arena

end ValueHeap
