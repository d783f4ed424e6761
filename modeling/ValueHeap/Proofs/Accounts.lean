import ValueHeap.Proofs.Journals

/-!
# What the accounts say of the values

A tracker is told the size of a value when its slot is filled and when it is emptied. In between a
payload may be replaced by a larger or a smaller one, and nobody tells the tracker: so the accounts
agree with the values as far as no value grew or shrank, and the limit on memory holds of the values
up to what they have grown.

* `weight` is the size of all values together; `Stroked.weight` is what a stroke makes of it;
* `Accounted` is the invariant: accounts and weight differ by the growth and the shrinkage at most;
* `Drawn.refunded`: a collection gives back exactly what it takes from the weight;
* **`World.accounts_run`**: the accounts after a run.
-/

namespace ValueHeap

open Arena

namespace Stroke

/-- What the tracker is charged for. -/
def charged : Stroke → Nat
  | filled _ p _ => p.footprint
  | _ => 0

/-- What is given back to the tracker. -/
def released : Stroke → Nat
  | emptied _ p => p.footprint
  | _ => 0

end Stroke

namespace Arena

variable {a b : Arena} {s : Stroke} {log : List Stroke} {g k : Nat}

/-! ## 1. The weight of an arena -/

/-- The values of an arena, with their slots. -/
def holdings (a : Arena) : List (Slot × Payload) :=
  a.liveSlots.filterMap fun i => (a.payload? i).map fun p => (i, p)

/-- The sizes of all values together. -/
def weight (a : Arena) : Nat := totalSize a.holdings

theorem sizeAt_of_vacant {i : Slot} (h : a.occupant? i = none) : a.sizeAt i = 0 := by
  unfold sizeAt payload?
  rw [h]
  rfl

/-- The weight is the sum over any range of slots that covers the arena. -/
theorem weight_eq_sum (a : Arena) {n : Nat} (h : a.cells.size ≤ n) :
    a.weight = ∑ j ∈ Finset.range n, a.sizeAt j := by
  have hsum : ∀ m, totalSize (((List.range m).filter fun i => (a.occupant? i).isSome).filterMap
      fun i => (a.payload? i).map fun p => (i, p)) = ∑ j ∈ Finset.range m, a.sizeAt j := by
    intro m
    induction m with
    | zero => rfl
    | succ m ih =>
      rw [List.range_succ, List.filter_append, List.filterMap_append, totalSize, List.map_append,
        List.sum_append, Finset.sum_range_succ, ← ih]
      congr 1
      cases ho : a.occupant? m with
      | none => simp [ho, sizeAt_of_vacant ho]
      | some o =>
        have hp := payload?_of_occupant? ho
        simp [ho, hp, sizeAt_of_payload? hp]
  refine (hsum a.cells.size).trans ?_
  refine Finset.sum_subset (Finset.range_mono h) fun j _ hj => sizeAt_of_vacant ?_
  rw [← Option.not_isSome_iff_eq_none]
  exact fun k => hj (Finset.mem_range.mpr (lt_size_of_occupant? k))

theorem weight_congr (h : ∀ j, b.payload? j = a.payload? j) : b.weight = a.weight := by
  rw [b.weight_eq_sum (Nat.le_max_left _ a.cells.size),
    a.weight_eq_sum (Nat.le_max_right b.cells.size _)]
  refine Finset.sum_congr rfl fun j _ => ?_
  unfold sizeAt
  rw [h]

/-- **Where one payload changes, the weight changes by its size.** -/
theorem Revises.weight {i : Slot} {q : Option Payload} (h : Revises b a i q) :
    b.weight + a.sizeAt i = a.weight + q.elim 0 Payload.footprint := by
  have hi : b.sizeAt i = q.elim 0 Payload.footprint := by
    unfold sizeAt
    rw [h i, if_pos rfl]
    cases q <;> rfl
  let n := max (max b.cells.size a.cells.size) (i + 1)
  have hn : i ∈ Finset.range n := Finset.mem_range.mpr (by omega)
  rw [← hi, b.weight_eq_sum (by omega : b.cells.size ≤ n),
    a.weight_eq_sum (by omega : a.cells.size ≤ n),
    ← Finset.add_sum_erase _ _ hn, ← Finset.add_sum_erase (Finset.range n) _ hn]
  have he : ∑ j ∈ (Finset.range n).erase i, b.sizeAt j =
      ∑ j ∈ (Finset.range n).erase i, a.sizeAt j := by
    refine Finset.sum_congr rfl fun j hj => ?_
    unfold sizeAt
    rw [h j, if_neg (Finset.ne_of_mem_erase hj)]
  rw [he]
  omega

/-- **What a stroke does to the weight**: filling and growing add to it, emptying and shrinking take
    from it. -/
theorem Stroked.weight (h : Stroked a s b) (v : a.VacantExact) :
    b.weight + (s.released + s.shrinkage) = a.weight + (s.charged + s.growth) := by
  have same : ∀ {b : Arena}, (∀ j, b.payload? j = a.payload? j) → b.weight + 0 = a.weight + 0 :=
    fun h => congrArg (· + 0) (weight_congr h)
  cases h with
  | retained _ => exact same (payload?_update a _ fun _ => rfl)
  | unlinked _ => exact same (payload?_unlink a _)
  | returned _ => exact same (still_giveBack v _).payload?
  | @rewritten i p q hp _ =>
    have hw : _ = a.weight + q.footprint := (revises_setPayload q hp).weight
    rw [sizeAt_of_payload? hp] at hw
    simp only [Stroke.released, Stroke.shrinkage, Stroke.charged, Stroke.growth]
    omega
  | @filled p n _ he =>
    have hg := allocate_leaves v p n
    rw [he] at hg
    have hw : b.weight + _ = a.weight + p.footprint := hg.payload?.weight
    rwa [sizeAt_of_vacant v.nextSlot_vacant] at hw
  | @emptied i p _ hf =>
    obtain ⟨o, ho, rfl, hs⟩ := free?_eq_some hf
    have hw : _ = a.weight + 0 := (revises_vacate a i).weight
    rw [sizeAt_of_payload? (payload?_of_occupant? ho)] at hw
    rwa [weight_congr (b := b) (a := a.vacate i) fun j => by unfold payload?; rw [hs.occupant?]]
  | collected _ => exact same fun _ => rfl
  | duplicated _ _ => exact same fun _ => rfl
  | recounted => exact same fun _ => rfl

/-! ## 2. What a tracker is told -/

/-- The tracker after a stroke: it is told of the slots that are filled and emptied. -/
def told (t : Tracker) : Stroke → Tracker
  | .filled _ p _ => (t.charge p.footprint).2
  | .emptied _ p => t.refund p.footprint
  | _ => t

theorem Stroked.tracker (h : Stroked a s b) : b.tracker = told a.tracker s := by
  cases h with
  | unlinked _ =>
    unfold unlink
    split <;> rfl
  | returned _ => exact (sameBooks_giveBack a _).tracker
  | @filled p n _ he =>
    unfold allocate at he
    dsimp only at he
    split at he <;> cases he
    exact tracker_fill _ _
  | emptied hf =>
    obtain ⟨o, ho, rfl, _⟩ := free?_eq_some hf
    rw [free?_of_payload? (payload?_of_occupant? ho)] at hf
    cases hf
    rfl
  | _ => rfl

/-- A slot is filled only if the tracker accepts its size. -/
theorem Stroked.accepted {i : Slot} {p : Payload} {n : Nat} (h : Stroked a (.filled i p n) b) :
    (a.tracker.charge p.footprint).1 = .accepted := by
  cases h with
  | filled he =>
    unfold allocate at he
    dsimp only at he
    split at he <;> rename_i hv
    · cases he
    · cases he
    · exact hv

/-- What one refund and another give back, one refund of both does. -/
theorem refund_refund (t : Tracker) (m n : Nat) : (t.refund m).refund n = t.refund (m + n) := by
  cases t with
  | unlimited => rfl
  | lenient limits usage =>
    cases h : limits.maxMemory <;> simp [Tracker.refund, h, Nat.sub_sub]
  | strict limits usage => simp [Tracker.refund, Nat.sub_sub]

theorem refund_zero (t : Tracker) : t.refund 0 = t := by
  cases t with
  | unlimited => rfl
  | lenient limits usage => cases h : limits.maxMemory <;> simp [Tracker.refund, h]
  | strict limits usage => rfl

/-- **What a collection takes from the weight, it gives back to the tracker.** -/
theorem Drawn.refunded (h : Drawn a log b) (v : a.VacantExact) (hc : ∀ s ∈ log, s.Clears) :
    ∃ n, b.weight + n = a.weight ∧ b.tracker = a.tracker.refund n := by
  induction h with
  | nil => exact ⟨0, rfl, (refund_zero _).symm⟩
  | @cons a b c s log hs _ ih =>
    obtain ⟨hcs, hc⟩ := List.forall_mem_cons.mp hc
    obtain ⟨n, hw, ht⟩ := ih (hs.vacant v) hc
    have hw' := hs.weight v
    have ht' := hs.tracker
    rw [hcs.level.1, hcs.level.2] at hw'
    have hz : s.charged = 0 ∧ told a.tracker s = a.tracker.refund s.released := by
      cases s with
      | emptied i p => exact ⟨rfl, rfl⟩
      | unlinked | collected | recounted => exact ⟨rfl, (refund_zero _).symm⟩
      | retained | returned | rewritten | filled | duplicated => exact hcs.elim
    refine ⟨s.released + n, by omega, ?_⟩
    rw [ht, ht', hz.2, refund_refund]

/-! ## 3. The accounts of a strict tracker -/

/-- A strict tracker counts what it accepts, and accepts it only within the limit. -/
theorem charge_strict {limits : Limits} {usage : Usage} {size : Nat}
    (h : ((Tracker.strict limits usage).charge size).1 = .accepted) :
    ((Tracker.strict limits usage).charge size).2 =
      .strict limits ⟨usage.allocations + 1, usage.memory + size⟩ ∧
    ∀ m, limits.maxMemory = some m → usage.memory + size ≤ m := by
  unfold Tracker.charge at h ⊢
  cases hc : Tracker.checkCount limits usage <;> simp only [hc, reduceCtorEq] at h ⊢
  cases hm : Tracker.checkMemory limits usage size <;> simp only [hm, reduceCtorEq] at h ⊢
  unfold Tracker.strictUsage at h ⊢
  split at h <;> [split at h; cases h]
  · rename_i h1 h2
    rw [if_pos h1, if_pos h2]
    refine ⟨rfl, fun m e => ?_⟩
    unfold Tracker.checkMemory at hm
    rw [e] at hm
    simp only [if_pos h2] at hm
    split at hm
    · cases hm
    · omega
  · cases h

/-- **The invariant of the accounts**: they differ from the weight by no more than the values have
    grown and shrunk, and the memory is within its limit. -/
def Accounted (a : Arena) (limits : Limits) (g k : Nat) : Prop :=
  ∃ usage, a.tracker = .strict limits usage ∧ a.weight ≤ usage.memory + g ∧
    usage.memory ≤ a.weight + k ∧ ∀ m, limits.maxMemory = some m → usage.memory ≤ m

theorem accounted_empty (id : ArenaId) (limits : Limits) (tracer : Tracer) :
    (Arena.empty id (.strict limits .zero) tracer).Accounted limits 0 0 :=
  ⟨.zero, rfl, Nat.le_refl 0, Nat.le_refl 0, fun m _ => Nat.zero_le m⟩

/-- **Every stroke keeps the invariant of the accounts.** -/
theorem Stroked.accounted {limits : Limits} (h : Stroked a s b) (v : a.VacantExact)
    (w : a.Accounted limits g k) : b.Accounted limits (g + s.growth) (k + s.shrinkage) := by
  obtain ⟨u, hu, hg, hk, hm⟩ := w
  have hw := h.weight v
  have ht := h.tracker
  rw [hu] at ht
  cases s with
  | filled i p n =>
    have hacc := h.accepted
    rw [hu] at hacc
    obtain ⟨hc, hlim⟩ := charge_strict hacc
    simp only [Stroke.released, Stroke.shrinkage, Stroke.charged, Stroke.growth] at hw ⊢
    exact ⟨_, ht.trans hc, by simp only; omega, by simp only; omega, hlim⟩
  | emptied i p =>
    simp only [Stroke.released, Stroke.shrinkage, Stroke.charged, Stroke.growth] at hw ⊢
    refine ⟨_, ht, ?_, ?_, fun m e => ?_⟩
    · simp only
      omega
    · simp only
      omega
    · exact (Nat.sub_le _ _).trans (hm m e)
  | rewritten i p q =>
    simp only [Stroke.released, Stroke.shrinkage, Stroke.charged, Stroke.growth] at hw ⊢
    exact ⟨u, ht, by omega, by omega, hm⟩
  | _ =>
    have e : b.weight = a.weight := hw
    exact ⟨u, ht, e ▸ hg, e ▸ hk, hm⟩

theorem Drawn.accounted {limits : Limits} (h : Drawn a log b) (v : a.VacantExact)
    (w : a.Accounted limits g k) :
    b.Accounted limits (g + (log.map Stroke.growth).sum)
      (k + (log.map Stroke.shrinkage).sum) := by
  induction h generalizing g k with
  | nil => exact w
  | cons hs _ ih =>
    have h := ih (hs.vacant v) (hs.accounted v w)
    rwa [Nat.add_assoc, Nat.add_assoc] at h

end Arena

/-! ## 4. Runs -/

namespace World

open Arena

variable {w : World} {k : Nat} {a b : Arena} {act : Action} {log : List Stroke}

/-- A measure of the calls on the arena at `k`, of the call that an action makes. -/
def measured (w : World) (k : Nat) (f : Arena → Call → Nat) : Action → Nat
  | .call l c =>
    match w.arena? l with
    | some a => if l = k then f a c else 0
    | none => 0
  | _ => 0

/-- What a measure of the calls on the arena at `k` adds up to over a run. -/
def measure (w : World) (k : Nat) (f : Arena → Call → Nat) : List Action → Nat
  | [] => 0
  | act :: rest => w.measured k f act + (w.after act).measure k f rest

theorem measured_call (ha : w.arena? k = some a) (f : Arena → Call → Nat) (c : Call) :
    w.measured k f (.call k c) = f a c := by
  simp only [measured, ha, ↓reduceIte]

/-- Values grow by no more than the call says that an action makes. -/
theorem Does.growth_le (h : w.Does k act log) :
    (log.map Stroke.growth).sum ≤ w.measured k growth act := by
  rcases h with ⟨c, a, rfl, ha, hk⟩ | hk
  · rw [measured_call ha]
    exact hk.growth_le
  · exact growth_sum_zero hk.level

/-- Values shrink by no more than the call says that an action makes. -/
theorem Does.shrinkage_le (h : w.Does k act log) :
    (log.map Stroke.shrinkage).sum ≤ w.measured k shrinkage act := by
  rcases h with ⟨c, a, rfl, ha, hk⟩ | hk
  · rw [measured_call ha]
    exact hk.shrinkage_le
  · exact shrinkage_sum_zero hk.level

/-- **The accounts after an action.** -/
theorem after_accounted (hn : w.overflows k act = false) (hr : NoReset k [act])
    (ha : w.arena? k = some a) (v : a.VacantExact) (hb : (w.after act).arena? k = some b)
    {limits : Limits} {g s : Nat} (h : a.Accounted limits g s) :
    b.Accounted limits (g + w.measured k growth act) (s + w.measured k shrinkage act) := by
  obtain ⟨log, hdoes, hdrawing⟩ := after_drawn hr ha hb
  have hg := hdoes.growth_le
  have hs := hdoes.shrinkage_le
  obtain ⟨u, hu, h1, h2, h3⟩ := (hdrawing.drawn hn).accounted v h
  exact ⟨u, hu, by omega, by omega, h3⟩

/-- **The accounts after a run.** -/
theorem accounts_run (hw : w.Reachable) (acts : List Action) (hp : (w.run acts).2 = true)
    (hr : NoReset k acts) {limits : Limits} {g s : Nat} (ha : w.arena? k = some a)
    (hb : (w.run acts).1.arena? k = some b) (h : a.Accounted limits g s) :
    b.Accounted limits (g + w.measure k growth acts) (s + w.measure k shrinkage acts) := by
  induction acts generalizing w a g s with
  | nil =>
    cases ha.symm.trans hb
    exact h
  | cons act rest ih =>
    obtain ⟨hp1, hp2⟩ := Bool.and_eq_true_iff.mp hp
    have hperm : w.Permits act := of_decide_eq_true hp1
    obtain ⟨hr1, hr2⟩ : NoReset k [act] ∧ NoReset k rest := noReset_append.mp hr
    obtain ⟨c, hc⟩ : ∃ c, (w.after act).arena? k = some c := Option.isSome_iff_exists.mp
      (arena?_after_isSome (by rw [ha]; rfl : (w.arena? k).isSome))
    have v := (hw.sound.coherent k a ha).vacant
    have h' := ih (hw.step hperm) hp2 hr2 hc hb
      (after_accounted hperm.not_overflows hr1 ha v hc h)
    rwa [Nat.add_assoc, Nat.add_assoc] at h'

/-- **The accounts of a strict tracker, over any run.** Whatever is built, updated, copied,
    imported, refused, released or collected in an arena that was empty with a new tracker: -/
theorem Reachable.accounts_bounded (hw : w.Reachable) {id : ArenaId} {limits : Limits}
    {tracer : Tracer} (ha : w.arena? k = some (.empty id (.strict limits .zero) tracer))
    {acts : List Action} (hp : (w.run acts).2 = true) (hr : NoReset k acts)
    (hb : (w.run acts).1.arena? k = some b) : ∃ usage, b.tracker = .strict limits usage ∧
      -- the accounts stay behind the values by what values have grown at most
      b.weight ≤ usage.memory + w.measure k growth acts ∧
      -- and ahead of them by what values have shrunk at most
      usage.memory ≤ b.weight + w.measure k shrinkage acts ∧
      -- the limit holds of the accounts
      (∀ m, limits.maxMemory = some m → usage.memory ≤ m) ∧
      -- where no value has changed its size the accounts are exact, and the limit holds of the
      -- values
      (w.measure k growth acts = 0 → w.measure k shrinkage acts = 0 →
        usage.memory = b.weight ∧ ∀ m, limits.maxMemory = some m → b.weight ≤ m) := by
  obtain ⟨u, hu, hg, hs, hm⟩ := accounts_run hw acts hp hr ha hb (accounted_empty id limits tracer)
  rw [Nat.zero_add] at hg hs
  refine ⟨u, hu, hg, hs, hm, fun h0 h1 => ?_⟩
  rw [h0, Nat.add_zero] at hg
  rw [h1, Nat.add_zero] at hs
  exact ⟨Nat.le_antisymm hs hg, fun m e => hg.trans (hm m e)⟩

/-- An arena that may hold 200 bytes. -/
def budgeted : List Action := [.addArena (.strict ⟨none, some 200, none⟩ .zero) .silent]

/-- An integer and an empty list, which the integer is put in twice. -/
def enlisting : List Action :=
  [.call 0 (.buildScalar (.integer 7)), .call 0 (.buildList []), .call 0 (.clone ⟨⟨1⟩, 0, 0⟩),
    .call 0 (.append ⟨⟨1⟩, 1, 0⟩ ⟨⟨1⟩, 0, 0⟩), .call 0 (.clone ⟨⟨1⟩, 0, 0⟩),
    .call 0 (.append ⟨⟨1⟩, 1, 0⟩ ⟨⟨1⟩, 0, 0⟩)]

theorem budgeted_reachable : (start.run budgeted).1.Reachable :=
  reachable_run budgeted (by decide +kernel)

/-- After `enlisting` the values take 16 bytes more than the accounts say, as the list has grown. -/
theorem accounts_bounded_enlisting :
    (start.run budgeted).1.measure 0 growth enlisting = 16 ∧
    ∃ b usage, ((start.run budgeted).1.run enlisting).1.arena? 0 = some b ∧
      b.tracker = .strict ⟨none, some 200, none⟩ usage ∧ b.weight ≤ usage.memory + 16 ∧
      usage.memory ≤ b.weight ∧ usage.memory ≤ 200 := by
  have hg : (start.run budgeted).1.measure 0 growth enlisting = 16 := by decide +kernel
  have hs : (start.run budgeted).1.measure 0 shrinkage enlisting = 0 := by decide +kernel
  obtain ⟨b, hb⟩ := Option.isSome_iff_exists.mp
    (by decide +kernel : (((start.run budgeted).1.run enlisting).1.arena? 0).isSome)
  have ha : (start.run budgeted).1.arena? 0 =
      some (.empty ⟨1⟩ (.strict ⟨none, some 200, none⟩ .zero) .silent) := rfl
  obtain ⟨u, hu, h1, h2, h3, _⟩ := budgeted_reachable.accounts_bounded ha (by decide +kernel)
    (fun t ht => by simp [enlisting] at ht) hb
  rw [hg] at h1
  rw [hs] at h2
  exact ⟨hg, b, u, hb, hu, h1, h2, h3 200 rfl⟩

/-- The world of `enlisting`. -/
def enlisted : World := (start.run (budgeted ++ enlisting)).1

/-- The list of `enlisting` is released and reclaimed. -/
def delisting : List Action := [.call 0 (.release ⟨⟨1⟩, 1, 0⟩), .call 0 .reclaim]

/-- **The accounts do not match the values.** After `enlisting` the values take 208 bytes, which is
    beyond the limit, and the accounts say 192; after `delisting` the integer that is left takes 96
    bytes, and the accounts say 80. -/
theorem accounts_mismatch : enlisted.Reachable ∧ (enlisted.run delisting).2 = true ∧
    (∃ a, enlisted.arena? 0 = some a ∧ a.weight = 208 ∧
      a.tracker = .strict ⟨none, some 200, none⟩ ⟨2, 192⟩) ∧
    ∃ b, (enlisted.run delisting).1.arena? 0 = some b ∧ b.weight = 96 ∧
      b.tracker = .strict ⟨none, some 200, none⟩ ⟨2, 80⟩ := by
  refine ⟨reachable_run _ (by decide +kernel), by cbv, ?_, ?_⟩
  · have h : (enlisted.arena? 0).map (fun a => (a.weight, a.tracker)) =
        some (208, .strict ⟨none, some 200, none⟩ ⟨2, 192⟩) := by decide +kernel
    obtain ⟨a, ha, e⟩ := Option.map_eq_some_iff.mp h
    exact ⟨a, ha, congrArg Prod.fst e, congrArg Prod.snd e⟩
  · have h : ((enlisted.run delisting).1.arena? 0).map (fun b => (b.weight, b.tracker)) =
        some (96, .strict ⟨none, some 200, none⟩ ⟨2, 80⟩) := by cbv
    obtain ⟨b, hb, e⟩ := Option.map_eq_some_iff.mp h
    exact ⟨b, hb, congrArg Prod.fst e, congrArg Prod.snd e⟩

end World

end ValueHeap
