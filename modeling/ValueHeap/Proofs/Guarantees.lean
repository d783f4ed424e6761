import Mathlib.Data.List.Permutation
import ValueHeap.Proofs.World
import ValueHeap.Proofs.Cascade
import ValueHeap.Proofs.Lifetimes
import ValueHeap.Proofs.Documents
import ValueHeap.Proofs.Solvency

/-!
# What holds in every world a program can reach

Eight properties of all runs, each followed by an instance at a small program whose values are
shared:

1. counts: the count of a value is the number of handles to it that are outstanding and of
   references to it that live values hold;
2. references and faults: no reference dangles, and no call faults but for a handle that it takes
   for granted;
3. deep copies: a copy is the same graph on slots that were empty;
4. sweeps: what is left is what the roots lead to, with exact counts, and nothing else;
5. reclaiming: what is left is what handles and cycles lead to, with exact counts, and nothing else;
6. lifetimes: a handle names its value as long as that survives, and nothing else at any time;
7. documents: what is built from a document reads as its normal form, and what a value reads as
   can be built again;
8. histories: what a value holds follows from what was done to that value, whatever happens to
   others and to the slots meanwhile.
-/

namespace ValueHeap

open Arena

theorem Tracker.acceptsAll_unlimited (sizes : List Nat) : unlimited.acceptsAll sizes = true := by
  induction sizes with
  | nil => rfl
  | cons size rest ih => exact ih

namespace World

variable {w : World} {k l : Nat} {a t : Arena}

/-- A program with one arena, in it an integer that is held once and listed twice, and a dictionary
    with a view over it. -/
def sharing : List Action :=
  [.addArena .unlimited .silent,
    .call 0 (.buildScalar (.integer 7)),
    .call 0 (.clone ⟨⟨1⟩, 0, 0⟩),
    .call 0 (.clone ⟨⟨1⟩, 0, 0⟩),
    .call 0 (.buildList [⟨⟨1⟩, 0, 0⟩, ⟨⟨1⟩, 0, 0⟩]),
    .call 0 .buildDictionary,
    .call 0 (.buildView ⟨⟨1⟩, 2, 0⟩)]

theorem sharing_reachable : (start.run sharing).1.Reachable :=
  reachable_run sharing (by decide +kernel)

/-- The arena of `sharing`, at the end. -/
def sharingArena : Arena := ((start.run sharing).1.arena? 0).get (by decide +kernel)

theorem arena?_sharing : (start.run sharing).1.arena? 0 = some sharingArena :=
  (Option.some_get _).symm

/-! ## 1. Counts -/

/-- Copying a value of the arena at `k` into the arena at `l`, which may be the same. -/
def duplicate (k l : Nat) (h : Handle) : Action :=
  if k = l then .call k (.copy h) else .copyInto k l h

/-- After copying, the target holds the copy and every other arena is as it was. -/
theorem arena?_duplicate (ha : w.arena? k = some a) (ht : w.arena? l = some t) {h g : Handle}
    {b : Arena} (hc : (if k = l then a.copy h else a.copyInto h t) = .ok g b) :
    (w.after (duplicate k l h)).arena? l = some b ∧
      (k ≠ l → (w.after (duplicate k l h)).arena? k = some a) := by
  unfold duplicate
  by_cases e : k = l
  · subst e
    rw [if_pos rfl] at hc ⊢
    rw [after_call ha, arena?_book w ha, if_pos rfl]
    refine ⟨?_, fun hne => absurd rfl hne⟩
    show some (a.copy h).arena = some b
    rw [hc]
    rfl
  · rw [if_neg e] at hc ⊢
    rw [after_copyInto ha ht, arena?_book w ht, arena?_book w ht, if_pos rfl, if_neg e, hc]
    exact ⟨rfl, fun _ => ha⟩

/-- **A deep copy is the same graph on slots that were empty.** If the handle names a value and the
    tracker of the target accepts a slot for each of the values it leads to, the copy is made: `f`
    tells for each of them which slot stands for it. -/
theorem Reachable.copy_isomorphic (hw : w.Reachable) (ha : w.arena? k = some a)
    (ht : w.arena? l = some t) {h : Handle} (hh : a.resolves h)
    (hs : t.tracker.acceptsAll (a.copySizes h.slot)) :
    ∃ (g : Handle) (b : Arena) (f : Slot → Slot),
      (if k = l then a.copy h else a.copyInto h t) = .ok g b ∧
      -- the handle is that of the root's copy
      (b.resolves g ∧ g = b.handleOf (f h.slot)) ∧
      -- `f` is injective, into slots that were empty
      (∀ s s', a.Leads h.slot s → a.Leads h.slot s' → f s = f s' → s = s') ∧
      (∀ s, a.Leads h.slot s → t.occupant? (f s) = none) ∧
      -- one slot is added for each value that is reached
      (∀ s, s ∈ a.partsOf h.slot ↔ a.Leads h.slot s) ∧ (a.partsOf h.slot).Nodup ∧
      b.live = t.live + (a.partsOf h.slot).length ∧
      -- what the new slots hold, and their counts
      (∀ s p, a.Leads h.slot s → a.payload? s = some p → b.occupant? (f s) =
        some ⟨((a.partsOf h.slot).flatMap a.childrenAt).count s + (if s = h.slot then 1 else 0),
          p.restarted.mapSlots f⟩) ∧
      -- what was there stays as it was, in the target and in the source
      (∀ j, (t.occupant? j).isSome →
        b.occupant? j = t.occupant? j ∧ b.generation? j = t.generation? j) ∧
      (w.after (duplicate k l h)).arena? l = some b ∧
      (k ≠ l → (w.after (duplicate k l h)).arena? k = some a) := by
  have ca := hw.sound.coherent k a ha
  have ct := hw.sound.coherent l t ht
  have hlive := (resolves_iff_handleOf.mp hh).1
  have hmem := ca.mem_partsOf hlive
  obtain ⟨g, b, f, hc, hcopy⟩ : ∃ g b f,
      (if k = l then a.copy h else a.copyInto h t) = .ok g b ∧ IsCopy a t b h.slot f g := by
    by_cases e : k = l
    · subst e
      cases ha.symm.trans ht
      rw [if_pos rfl]
      exact copyTo_accepted ca ca.vacant false hh hs
    · rw [if_neg e]
      exact copyTo_accepted ca ct.vacant true hh hs
  have hroot := mem_partsOf_self hlive
  have hg : b.resolves g := by
    rw [hcopy.handle, resolves_iff_handleOf]
    exact ⟨hcopy.live hroot, rfl⟩
  refine ⟨g, b, f, hc, ⟨hg, hcopy.handle⟩, ?_, ?_, hmem, nodup_partsOf a h.slot, hcopy.live_eq,
    ?_, ?_, arena?_duplicate ha ht hc⟩
  · exact fun s s' hs hs' => hcopy.injective s ((hmem s).mpr hs) s' ((hmem s').mpr hs')
  · exact fun s hs => hcopy.fresh s ((hmem s).mpr hs)
  · intro s p hs hp
    have hcount : [h.slot].count s = if s = h.slot then 1 else 0 := by
      by_cases e : s = h.slot
      · rw [if_pos e, e, List.count_singleton_self]
      · rw [if_neg e, List.count_cons_of_ne (Ne.symm e), List.count_nil]
    rw [hcopy.copied s ((hmem s).mpr hs) p hp, hcount]
  · intro j hj
    obtain ⟨h1, h2⟩ := hcopy.old j (hcopy.not_new hj)
    refine ⟨h1, ?_⟩
    rw [generation?_eq, generation?_eq, h2]

/-- The view of `sharing` is copied with its dictionary. -/
theorem copy_isomorphic_sharing : ∃ (g : Handle) (b : Arena) (f : Slot → Slot),
    sharingArena.copy ⟨⟨1⟩, 3, 0⟩ = .ok g b ∧
    b.resolves g ∧ g = b.handleOf (f 3) ∧ sharingArena.occupant? (f 2) = none ∧ f 2 ≠ f 3 ∧
    b.payload? (f 3) = some (.dictItems (f 2)) := by
  obtain ⟨g, b, f, hc, hg, hinj, hfresh, _, _, _, hcopied, _⟩ :=
    sharing_reachable.copy_isomorphic arena?_sharing arena?_sharing
      (h := ⟨⟨1⟩, 3, 0⟩) (by decide +kernel) (Tracker.acceptsAll_unlimited _)
  have h3 : sharingArena.Leads 3 3 := .refl
  have h2 : sharingArena.Leads 3 2 := .single (by decide +kernel)
  refine ⟨g, b, f, hc, hg.1, hg.2, hfresh 2 h2, fun e => ?_, ?_⟩
  · exact absurd (hinj 2 3 h2 h3 e) (by decide)
  · unfold Arena.payload?
    rw [hcopied 3 (.dictItems 2) h3 rfl]
    rfl

/-! ## 4. Sweeps -/

/-- **A sweep is exact.** For outstanding handles as roots, stale and foreign ones included, a sweep
    answers; what it leaves is what can be reached from a root that names a value. A value that
    stays loses just the references that what is gone held on it. -/
theorem Reachable.sweep_exact (hw : w.Reachable) (ha : w.arena? k = some a) {roots : List Handle}
    (hr : ∀ h ∈ roots, h ∈ w.held) :
    ∃ n b, a.sweep roots = .ok n b ∧
      (∀ i, (b.occupant? i).isSome ↔ (a.occupant? i).isSome ∧ a.Kept roots i) ∧
      -- what stays keeps payload and generation, and its count is exact and positive
      (∀ i o, a.occupant? i = some o → a.Kept roots i → b.generation? i = a.generation? i ∧
        ∃ c, b.occupant? i = some ⟨c, o.payload⟩ ∧ c + a.entriesGone b i = o.count ∧ 0 < c) ∧
      -- the answer is the number of slots that stopped being live
      n = (a.liveSlots.filter fun i => (b.occupant? i).isNone).length ∧
      -- handles to what is gone are stale, those to what stays are not
      (∀ h, h.arena = a.id → (a.occupant? h.slot).isSome → ¬ a.Kept roots h.slot →
        b.lookup h = .error .stale) ∧
      (∀ h, a.resolves h → a.Kept roots h.slot → b.resolves h) ∧
      -- only the set of resolving roots matters
      (∀ roots', (∀ h, a.resolves h → (h ∈ roots' ↔ h ∈ roots)) →
        a.sweep roots' = a.sweep roots) ∧
      -- a second sweep finds nothing
      ∃ d, b.sweep roots = .ok 0 d ∧ ∀ i, d.occupant? i = b.occupant? i := by
  have co := hw.sound.coherent k a ha
  obtain ⟨n, b, hok, s⟩ := co.sweep_swept roots
  have cb := s.coherent co
  have hroots : ∀ h ∈ roots, h ∈ w.outstanding := fun h hm => List.mem_append_left _ (hr h hm)
  refine ⟨n, b, hok, fun i => ?_, fun i o ho hk => ?_, s.freed, fun h hid hl hn => ?_,
    fun h hres hk => (s.resolves_iff co h).mpr ⟨hres, hk⟩, fun roots' h => sweep_congr co h,
    s.again co⟩
  · rw [s.live_iff co]
    exact ⟨fun hk => ⟨co.kept_live hk, hk⟩, fun h => h.2⟩
  · have hb : b.occupant? i = some ⟨o.count - a.entriesGone b i, o.payload⟩ := by
      rw [s.kept i hk, ho]
      rfl
    have h1 := co.counted i o ho
    have h2 := entriesOn_split s.refills? (fun j p => s.payload?_of_some) i
    refine ⟨?_, _, hb, by omega, s.count_pos co hroots hb⟩
    rw [generation?_eq, generation?_eq, s.refills?]
  · refine lookup_eq_stale (hid.trans s.id.symm) fun hres => hn ?_
    exact ((s.resolves_iff co h).mp hres).2

/-- Sweeping `sharing` from its view leaves the view and its dictionary, and the handle to it. -/
theorem sweep_exact_sharing : ∃ n b, sharingArena.sweep [⟨⟨1⟩, 3, 0⟩] = .ok n b ∧
    (b.occupant? 2).isSome ∧ b.resolves ⟨⟨1⟩, 3, 0⟩ ∧
    ∃ d, b.sweep [⟨⟨1⟩, 3, 0⟩] = .ok 0 d := by
  have held : ∀ h ∈ [(⟨⟨1⟩, 3, 0⟩ : Handle)], h ∈ (start.run sharing).1.held := by decide +kernel
  obtain ⟨n, b, hok, hlive, _, _, _, hres, _, d, hd, _⟩ :=
    sharing_reachable.sweep_exact arena?_sharing held
  have h3 : sharingArena.Kept [⟨⟨1⟩, 3, 0⟩] 3 := ⟨_, List.mem_cons_self, by decide +kernel, .refl⟩
  have h2 : sharingArena.Kept [⟨⟨1⟩, 3, 0⟩] 2 :=
    ⟨_, List.mem_cons_self, by decide +kernel, .single (by decide +kernel)⟩
  exact ⟨n, b, hok, (hlive 2).mpr ⟨by decide +kernel, h2⟩, hres _ (by decide +kernel) h3, d, hd⟩

/-! ## 5. Reclaiming -/

/-- **Reclaiming is exact.** It ends, and it leaves what can be reached from a value that has a
    handle outstanding, forgotten or not, or that lies on a cycle of references. A value that stays
    loses just the references that what is gone held on it, and no handle outstanding is lost. -/
theorem Reachable.reclaim_exact (hw : w.Reachable) (ha : w.arena? k = some a) :
    ∃ n b, a.reclaim = (n, b) ∧
      (∀ i, (b.occupant? i).isSome ↔ (a.occupant? i).isSome ∧ a.Anchored w.outstanding i) ∧
      -- what stays keeps payload and generation, and its count is exact and positive
      (∀ i o, a.occupant? i = some o → a.Anchored w.outstanding i →
        b.generation? i = a.generation? i ∧
        ∃ c, b.occupant? i = some ⟨c, o.payload⟩ ∧ c + a.entriesGone b i = o.count ∧ 0 < c) ∧
      -- the answer is the number of slots that stopped being live
      n = (a.liveSlots.filter fun i => (b.occupant? i).isNone).length ∧
      -- no handle that has not been given back becomes stale
      (∀ h ∈ w.outstanding, a.resolves h → b.resolves h) ∧
      -- reclaiming again finds nothing
      ∃ d, b.reclaim = (0, d) ∧ ∀ i, d.occupant? i = b.occupant? i := by
  have co := hw.sound.coherent k a ha
  have r := co.reclaim_reclaimed
  have cb := reclaim_coherent co
  obtain ⟨h0, hagain⟩ := r.again
  refine ⟨a.reclaim.1, a.reclaim.2, rfl, r.live_iff, fun i o ho hi => ⟨?_, ?_⟩, r.freed,
    fun h hm => r.resolves hm, a.reclaim.2.reclaim.2, Prod.ext h0 rfl, hagain⟩
  · rw [generation?_eq, generation?_eq, r.refills?]
  · have hp := r.payload?_of_anchored (by rw [ho]; rfl) hi
    rw [payload?_of_occupant? ho] at hp
    obtain ⟨⟨c, q⟩, hb, rfl⟩ := Option.map_eq_some_iff.mp hp
    -- the counts are exact before and after, and the entries split
    have h1 := co.counted i o ho
    have h2 := cb.counted i _ hb
    have h3 := entriesOn_split r.refills? r.payload? i
    rw [handleOf_eq r.id (r.refills? i)] at h2
    simp only at h2
    exact ⟨c, hb, by omega, r.positive i _ hb⟩

/-- A program whose arena has an integer with a handle, a list of it and of a text that was
    released, and a dictionary that holds itself and has no handle. -/
def releasing : List Action :=
  [.addArena .unlimited .silent,
    .call 0 (.buildScalar (.integer 7)),
    .call 0 (.clone ⟨⟨1⟩, 0, 0⟩),
    .call 0 (.buildScalar (.string "a")),
    .call 0 (.buildList [⟨⟨1⟩, 0, 0⟩, ⟨⟨1⟩, 1, 0⟩]),
    .call 0 (.release ⟨⟨1⟩, 2, 0⟩),
    .call 0 .buildDictionary,
    .call 0 (.clone ⟨⟨1⟩, 3, 0⟩),
    .call 0 (.insertEntry ⟨⟨1⟩, 3, 0⟩ "self" ⟨⟨1⟩, 3, 0⟩),
    .call 0 (.release ⟨⟨1⟩, 3, 0⟩)]

theorem releasing_reachable : (start.run releasing).1.Reachable :=
  reachable_run releasing (by decide +kernel)

/-- The arena of `releasing`, at the end. -/
def releasingArena : Arena := ((start.run releasing).1.arena? 0).get (by decide +kernel)

theorem arena?_releasing : (start.run releasing).1.arena? 0 = some releasingArena :=
  (Option.some_get _).symm

/-- In `releasing` the list goes and the text with it; the integer stays for its handle and the
    dictionary for its cycle. -/
theorem reclaim_exact_releasing : ∃ n b, releasingArena.reclaim = (n, b) ∧
    b.occupant? 2 = none ∧ b.occupant? 1 = none ∧ (b.occupant? 3).isSome ∧
    b.resolves ⟨⟨1⟩, 0, 0⟩ ∧ ∃ d, b.reclaim = (0, d) := by
  obtain ⟨n, b, hok, hlive, _, _, hres, d, hd, _⟩ :=
    releasing_reachable.reclaim_exact arena?_releasing
  have support := (releasing_reachable.sound.coherent 0 _ arena?_releasing).supported
  have hlist : ¬ (b.occupant? 2).isSome := by
    intro h
    rcases (support 2 ((hlive 2).mp h)).2 with hm | ⟨j, _, hj⟩
    · exact absurd hm (by decide +kernel)
    · exact absurd (entriesOn_pos.mpr ⟨j, hj⟩) (by decide +kernel)
  have htext : ¬ (b.occupant? 1).isSome := by
    intro h
    rcases (support 1 ((hlive 1).mp h)).2 with hm | ⟨j, hj, hj1⟩
    · exact absurd hm (by decide +kernel)
    · -- the list is the only value that holds the text
      have only : ∀ j ∈ releasingArena.liveSlots, 1 ∈ releasingArena.childrenAt j → j = 2 := by
        decide +kernel
      cases only j (mem_liveSlots.mpr hj.1) hj1
      exact hlist ((hlive 2).mpr hj)
  have hcycle : releasingArena.Anchored (start.run releasing).1.outstanding 3 :=
    anchored_of_cycle (.single (by decide +kernel))
  exact ⟨n, b, hok, Option.not_isSome_iff_eq_none.mp hlist, Option.not_isSome_iff_eq_none.mp htext,
    (hlive 3).mpr ⟨by decide +kernel, hcycle⟩, hres _ (by decide +kernel) (by decide +kernel),
    d, hd⟩

/-! ## 6. Lifetimes -/

/-- **A handle names its value exactly as long as that survives.** Let an action, permitted or not,
    have the arena at `k` issue a handle. As long as fewer than `2 ^ 32` identities are taken, and
    the slot is filled again less than `2 ^ 32` times, the handle names a value of the arena at `l`
    if and only if that is the same arena, not reset since, and the value has not been freed. -/
theorem handle_lifetime {past later : List Action} {act : Action} {u : World} {h : Handle}
    (hw : (start.run past).1.after act = w) (hu : (w.run later).1 = u) (ha : w.arena? k = some a)
    (hh : h ∈ (start.run past).1.issues act k) (ht : u.realm.taken < 2 ^ 32)
    (hwrap : ∀ c, u.arena? k = some c → a.refillsSince c h.slot < 2 ^ 32) :
    a.resolves h ∧ ∀ l b, u.arena? l = some b →
      (b.resolves h ↔ l = k ∧ NoReset k later ∧ w.Survives k (a.object h.slot) later) ∧
      -- it names no other value
      (∀ o, b.lookup h = .ok o →
        b.occupant? h.slot = some o ∧ b.object h.slot = a.object h.slot) ∧
      -- otherwise the error tells an arena that did not issue it from a value that is gone
      (h.arena = b.id ↔ l = k ∧ NoReset k later) ∧
      (¬ b.resolves h →
        b.lookup h = .error (if h.arena = b.id then .stale else .foreign b.id h.arena)) := by
  subst hw hu
  have hlt := Nat.lt_of_le_of_lt (taken_le_run _ later) ht
  have o₀ := orderly_start.run past (Nat.lt_of_le_of_lt (taken_le_after _ act) hlt)
  have o := o₀.after hlt
  have hres := resolves_of_issues o₀ hh ha
  refine ⟨hres, fun l b hb => ?_⟩
  have hid := arena_eq_iff o ht ha hres hb
  have hiff : b.resolves h ↔ l = k ∧ NoReset k later ∧
      ((start.run past).1.after act).Survives k (a.object h.slot) later := by
    constructor
    · intro hb'
      have e : h.arena = b.id := congrArg Handle.arena (resolves_iff_handleOf.mp hb').2
      obtain ⟨rfl, hr⟩ := hid.mp e
      exact ⟨rfl, hr, (resolves_iff_survives o ht ha hres hr hb (hwrap b hb)).mp hb'⟩
    · rintro ⟨rfl, hr, hs⟩
      exact (resolves_iff_survives o ht ha hres hr hb (hwrap b hb)).mpr hs
  refine ⟨hiff, fun q hq => ?_, hid, lookup_of_not_resolves⟩
  obtain ⟨rfl, _, hs⟩ := hiff.mp (resolves_iff.mpr ⟨q, hq⟩)
  obtain ⟨c, hc, hal⟩ := hs later (List.prefix_refl later)
  cases hb.symm.trans hc
  exact ⟨occupant?_of_lookup hq, hal.2⟩

/-- A program with two arenas. -/
def pairing : List Action := [.addArena .unlimited .silent, .addArena .unlimited .silent]

/-- The world of `pairing` once an integer is built in its first arena. -/
def paired : World := (start.run pairing).1.after (.call 0 (.buildScalar (.integer 7)))

/-- The integer is released and reclaimed, and its slot is filled again. -/
def replacing : List Action :=
  [.call 0 (.release ⟨⟨1⟩, 0, 0⟩), .call 0 .reclaim, .call 0 (.buildScalar (.integer 8))]

/-- After `replacing` the handle to the integer of `paired` is stale in the first arena and foreign
    to the second. -/
theorem handle_lifetime_replacing : ∃ a b, (paired.run replacing).1.arena? 0 = some a ∧
    (paired.run replacing).1.arena? 1 = some b ∧ a.lookup ⟨⟨1⟩, 0, 0⟩ = .error .stale ∧
    b.lookup ⟨⟨1⟩, 0, 0⟩ = .error (.foreign b.id ⟨1⟩) := by
  obtain ⟨c, hc⟩ := Option.isSome_iff_exists.mp (by cbv : (paired.arena? 0).isSome)
  obtain ⟨a, ha⟩ := Option.isSome_iff_exists.mp
    (by cbv : ((paired.run replacing).1.arena? 0).isSome)
  obtain ⟨b, hb⟩ := Option.isSome_iff_exists.mp
    (by cbv : ((paired.run replacing).1.arena? 1).isSome)
  -- the integer is gone, and its slot was filled again once
  have hgone : ((paired.run replacing).1.arena? 0).map (·.resolves ⟨⟨1⟩, 0, 0⟩) = some false := by
    cbv
  have hagain : ((paired.run replacing).1.arena? 0).map (·.refills? 0) = some (some 1) := by cbv
  have hwrap : ∀ d, (paired.run replacing).1.arena? 0 = some d →
      c.refillsSince d 0 < 2 ^ 32 := by
    intro d hd
    rw [hd] at hagain
    have hd' : d.refills? 0 = some 1 := Option.some.inj hagain
    unfold refillsSince
    rw [hd', Option.getD_some]
    omega
  have htaken : (paired.run replacing).1.realm.taken < 2 ^ 32 := by cbv
  have hissued : (⟨⟨1⟩, 0, 0⟩ : Handle) ∈
      (start.run pairing).1.issues (.call 0 (.buildScalar (.integer 7))) 0 := by decide +kernel
  obtain ⟨_, h⟩ := handle_lifetime (rfl : _ = paired) rfl hc hissued htaken hwrap
  have hreset : NoReset 0 replacing := fun t ht => by simp [replacing] at ht
  obtain ⟨_, _, hid, hstale⟩ := h 0 a ha
  obtain ⟨_, _, hid', hforeign⟩ := h 1 b hb
  have hne : (⟨1⟩ : ArenaId) ≠ b.id := fun e => absurd (hid'.mp e).1 (by decide)
  refine ⟨a, b, ha, hb, ?_, ?_⟩
  · rw [ha] at hgone
    have hn : ¬ a.resolves ⟨⟨1⟩, 0, 0⟩ := ne_true_of_eq_false (Option.some.inj hgone)
    rw [hstale hn, if_pos (hid.mpr ⟨rfl, hreset⟩)]
  · have hn : ¬ b.resolves ⟨⟨1⟩, 0, 0⟩ := fun hr =>
      hne (congrArg Handle.arena (resolves_iff_handleOf.mp hr).2)
    rw [hforeign hn, if_neg hne]

/-! ## 7. Documents -/

/-- **Building from documents and reading as documents are inverse**, up to the whole numbers that
    do not fit 32 bits. -/
theorem Reachable.document_round_trip (hw : w.Reachable) (ha : w.arena? k = some a) :
    -- what is built reads as the normal form, the document itself if all whole numbers fit
    (∀ d h b, d.Proper → a.importDocument d = .ok h b → b.exportDocument h = .ok d.norm ∧
      ((∀ n, Document.Occurs (.integer n) d → FitsWord n) → d.norm = d)) ∧
    -- in it, a whole number that does not fit has become the nearest float
    (∀ n : Int, -2 ^ 63 ≤ n → n < 2 ^ 64 → (Double.ofInt n).IsNearest n) ∧
    -- what a value reads as can be built wherever the tracker accepts it, and reads the same
    (∀ h d, a.exportDocument h = .ok d → ∀ u l t, Reachable u → u.arena? l = some t →
      t.tracker.acceptsAll d.footprints →
      ∃ g b, t.importDocument d = .ok g b ∧ b.exportDocument g = .ok d) := by
  have v := (hw.sound.coherent k a ha).vacant
  refine ⟨fun d h b hd e => ⟨exportDocument_importDocument v hd e, Document.norm_eq_self⟩,
    fun n h1 h2 => Double.ofInt_isNearest (by omega), fun h d e u l t hu ht hs => ?_⟩
  exact importDocument_accepted e (hu.sound.coherent l t ht).vacant hs

/-- An object of a text and of numbers, one of which is too large for an integer. -/
def sampleDocument : Document :=
  .object [("name", .string "probe"), ("sizes", .array [.integer 7, .integer 5000000000])]

theorem sampleDocument_proper : sampleDocument.Proper := by
  refine .object (by decide) (List.forall_mem_cons.mpr ⟨.string _,
    List.forall_mem_singleton.mpr (.array (List.forall_mem_cons.mpr ⟨?_,
      List.forall_mem_singleton.mpr ?_⟩))⟩)
  · exact .integer (by decide) (by decide)
  · exact .integer (by decide) (by decide)

/-- In `sharing` the sample reads as built but for the large number, and what its list reads as can
    be built. -/
theorem document_round_trip_sharing :
    (∃ h b, sharingArena.importDocument sampleDocument = .ok h b ∧
      b.exportDocument h = .ok (.object [("name", .string "probe"),
        ("sizes", .array [.integer 7, .float (Double.ofInt 5000000000)])])) ∧
    ∃ g b, sharingArena.importDocument (.array [.integer 7, .integer 7]) = .ok g b ∧
      b.exportDocument g = .ok (.array [.integer 7, .integer 7]) := by
  obtain ⟨h1, _, h2⟩ := sharing_reachable.document_round_trip arena?_sharing
  constructor
  · have he : sharingArena.importDocument sampleDocument =
        .ok ⟨⟨1⟩, 4, 0⟩ (sharingArena.importDocument sampleDocument).arena := by
      rfl
    refine ⟨_, _, he, ?_⟩
    rw [(h1 _ _ _ sampleDocument_proper he).1]
    simp [sampleDocument, Document.norm, show FitsWord 7 by decide,
      show ¬ FitsWord 5000000000 by decide]
  · have hx : sharingArena.exportDocument ⟨⟨1⟩, 1, 0⟩ = .ok (.array [.integer 7, .integer 7]) := rfl
    exact h2 _ _ hx _ 0 _ sharing_reachable arena?_sharing (Tracker.acceptsAll_unlimited _)

/-! ## 8. Histories -/

/-- **An arena is a store of values, each with a history of its own.** A value is a filling of a
    slot, and it holds other values, not slots: so what it holds at any time follows from what it
    held when it was new and from the calls that were about it. -/
theorem Reachable.histories_decide (hw : w.Reachable) (ha : w.arena? k = some a) :
    -- as long as a value is there, it is what its own updates make of it, and of the same kind
    (∀ acts b o x, (w.run acts).2 = true → NoReset k acts → (w.run acts).1.arena? k = some b →
      a.contents? o = some x → b.Alive o → w.Survives k o acts ∧
        b.contents? o = some (x.after (w.updates k o acts)) ∧
        (x.after (w.updates k o acts)).kind = x.kind) ∧
    -- all that it holds is there, too
    (∀ o x, a.contents? o = some x → ∀ e ∈ x.entries, a.Alive e) ∧
    -- a call that builds adds one value, which holds what the call was given
    (∀ c x y b, c.born? a = some x → a.perform c = .ok y b → ∃ g e, y.issued = [g] ∧
      b.Names g e ∧ b.contents? e = some x ∧ ∀ o, a.Newborn b o ↔ o = e) ∧
    -- any other call adds none, copies and documents apart
    (∀ c, (∀ d, c ≠ .importDocument d) → (∀ h, c ≠ .copy h) →
      c.born? a = none ∨ ¬ (a.perform c).answer.isOk → ∀ o, ¬ a.Newborn (a.perform c).arena o) ∧
    -- copies start from what their originals hold; a refused copy adds nothing
    (∀ l t h, w.arena? l = some t →
      (∀ g b, (if k = l then a.copy h else a.copyInto h t) = .ok g b →
        ∃ F, a.Reproduces t b h g F) ∧
      ∀ e b, (if k = l then a.copy h else a.copyInto h t) = .error e b → ∀ o, ¬ t.Newborn b o) ∧
    -- values from documents hold such values only, and the one that is named is the document
    (∀ d, (∀ o x, a.Newborn (a.importDocument d).arena o →
        (a.importDocument d).arena.contents? o = some x → ∀ e ∈ x.entries, ¬ a.Alive e) ∧
      ∀ h b, d.Proper → a.importDocument d = .ok h b →
        (∃ e, b.Names h e ∧ a.Newborn b e) ∧ b.exportDocument h = .ok d.norm) ∧
    -- reading hands out just the values that are held
    (∀ h o, a.Names h o →
      (∀ items n, a.contents? o = some (.list items) ∨ a.contents? o = some (.tuple items) →
        ∃ g b, a.item h n = .ok g b ∧ Option.Rel b.Names g items[n]?) ∧
      (∀ entries key, a.contents? o = some (.dictionary entries) →
        ∃ g b, a.entry h key = .ok g b ∧ Option.Rel b.Names g (entries.lookup key)) ∧
      (∀ name members key, a.contents? o = some (.moduleTable name members) →
        ∃ g b, a.member h key = .ok g b ∧ Option.Rel b.Names g (members.lookup key)) ∧
      (∀ owner name, a.contents? o = some (.bound owner name) →
        ∃ g b, a.ownerOf h = .ok g b ∧ b.Names g owner) ∧
      (∀ dict, a.contents? o = some (.view dict) →
        ∃ entries hs b, a.contents? dict = some (.dictionary entries) ∧ a.entriesOf h = .ok hs b ∧
          List.Forall₂ (fun p e => p.1 = e.1 ∧ b.Names p.2 e.2) hs entries)) := by
  have co := hw.sound.coherent k a ha
  have v := co.vacant
  refine ⟨fun acts b o x hp hr hb hx ho => ⟨?_, contents_run hw acts hp hr ha hb hx ho⟩,
    fun o x hx e he => alive_of_entries co.closed hx he, fun c x y b => perform_births v,
    fun c hd hh hx o => perform_not_newborn v hd hh hx, fun l t h ht => ?_,
    fun d => ⟨fun o x => importDocument_entries v d, fun h b hd hok =>
      ⟨importDocument_newborn v hok, exportDocument_importDocument v hd hok⟩⟩,
    fun h o hn => ⟨fun items n hx => item_names v co.closed hn hx n,
      fun entries key hx => entry_names v co.closed hn hx key,
      fun name members key hx => member_names v co.closed hn hx key,
      fun owner name hx => ownerOf_names v co.closed hn hx,
      fun dict hx => ?_⟩⟩
  · exact survives_run hw acts hp hr ha hb (contents?_eq_some.mp hx).1 ho
  · by_cases e : k = l
    · subst e
      cases ha.symm.trans ht
      rw [if_pos rfl]
      exact copyTo_reproduces co v false
    · rw [if_neg e]
      exact copyTo_reproduces co (hw.sound.coherent l t ht).vacant true
  · obtain ⟨entries, hd⟩ := co.dictionary_of_view hx
    obtain ⟨hs, b, hok, hall⟩ := entriesOf_names v co.closed hn hx hd
    exact ⟨entries, hs, b, hd, hok, hall⟩

/-- What `sharing` can go on with: the integer is listed once more, the view is given up and
    collected, and another integer is put in its slot. -/
def reusing : List Action :=
  [.call 0 (.append ⟨⟨1⟩, 1, 0⟩ ⟨⟨1⟩, 0, 0⟩),
    .call 0 (.release ⟨⟨1⟩, 3, 0⟩),
    .call 0 .reclaim,
    .call 0 (.buildScalar (.integer 8))]

/-- The list of `sharing` holds the first integer three times after `reusing`, as its history has
    it, and its second item is read out as that integer. -/
theorem histories_decide_reusing :
    (∃ b, ((start.run sharing).1.run reusing).1.arena? 0 = some b ∧ b.object 3 = ⟨3, 1⟩ ∧
      b.contents? ⟨1, 0⟩ = some (.list [⟨0, 0⟩, ⟨0, 0⟩, ⟨0, 0⟩])) ∧
    ∃ g b, sharingArena.item ⟨⟨1⟩, 1, 0⟩ 1 = .ok (some g) b ∧ b.Names g ⟨0, 0⟩ := by
  obtain ⟨hrun, _, _, _, _, _, hread⟩ := sharing_reachable.histories_decide arena?_sharing
  have hx : sharingArena.contents? ⟨1, 0⟩ = some (.list [⟨0, 0⟩, ⟨0, 0⟩]) := rfl
  constructor
  · have hthere : (((start.run sharing).1.run reusing).1.arena? 0).map
        (fun c => (decide (c.Alive ⟨1, 0⟩), c.object 3)) = some (true, ⟨3, 1⟩) := by cbv
    obtain ⟨b, hb, he⟩ := Option.map_eq_some_iff.mp hthere
    rw [Prod.mk.injEq, decide_eq_true_eq] at he
    obtain ⟨u, hu⟩ : ∃ u, (start.run sharing).1.run reusing = (u, true) := ⟨_, by cbv⟩
    obtain ⟨_, hc, _⟩ := hrun reusing b ⟨1, 0⟩ _ (congrArg Prod.snd hu)
      (fun t ht => by simp [reusing] at ht) hb hx he.1
    exact ⟨b, hb, he.2, hc⟩
  · obtain ⟨hitem, _⟩ := hread ⟨⟨1⟩, 1, 0⟩ ⟨1, 0⟩ ⟨by decide +kernel, rfl⟩
    obtain ⟨g, b, hok, hg⟩ := hitem _ 1 (.inl hx)
    obtain ⟨hn⟩ := hg
    exact ⟨_, b, hok, hn⟩

end World

end ValueHeap
