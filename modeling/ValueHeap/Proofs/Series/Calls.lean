import ValueHeap.Proofs.Series.Graphs

/-!
# The strokes of every call

A document is built out of factories and updates; a call is one operation.

* `RelaysAlways`, **`buildTree_relays`**: what building a document is made of, however deep;
* `Performs`: what a call is made of, with its answer; **`perform_relays`**.
-/

namespace ValueHeap

open Arena

namespace Arena

open Outcome

variable {a : Arena} {t : Tracer}

/-! ## 1. Documents -/

/-- Whatever is built, it is built alike under any tracer: of candid strokes that take nothing,
    leave a reference to the new value, and let dictionaries grow by the names of members at
    most. -/
def RelaysAlways (build : Document → Arena → Outcome Handle) : Prop :=
  ∀ d a t, Relays (Moving Stroke.Candid 0 (fun h => {h.slot}) 0 (namesSize d.names) 0) a t
    (build d a) (build d (a.hearing t))

theorem releaseAll_candid (hs : List Handle) (a : Arena) (t : Tracer) :
    Echoes (Moves Stroke.Candid (slotsOf hs) 0 0 0) a t (a.releaseAll hs)
      ((a.hearing t).releaseAll hs) :=
  (releaseAll_echoes hs a t).mono fun _ h =>
    (h.mono fun _ hs => hs.builds.candid).weaken (handed_le a hs) le_rfl

theorem build_candid (a : Arena) (t : Tracer) {p : Payload} (hc : p.children = []) :
    Relays (Moving Stroke.Candid 0 (fun h => {h.slot}) 0 0 0) a t (a.build p)
      ((a.hearing t).build p) := by
  have h := build_relays a t p
  rw [hc] at h
  exact h.mono fun _ _ h => Moves.mono h.moves fun _ => Stroke.Builds.candid

theorem buildSequence_candid (a : Arena) (t : Tracer) (items : List Handle) :
    Relays (Moving Stroke.Candid (slotsOf items) (fun h => {h.slot}) 0 0 0) a t
      (a.buildSequence .list items) ((a.hearing t).buildSequence .list items) :=
  (buildSequence_relays a t items (fun _ => rfl) fun _ => rfl).mono fun _ _ h =>
    (Moves.mono h.moves fun _ => Stroke.Builds.candid).weaken (handed_le a items) le_rfl

/-- A dictionary grows by the size of a new name at most. -/
theorem insertEntry_candid (a : Arena) (t : Tracer) (dict : Handle) (key : String)
    (item : Handle) :
    Relays (Moving Stroke.Candid {item.slot} (fun _ => 0) 0 (nameSize key) 0) a t
      (a.insertEntry dict key item) ((a.hearing t).insertEntry dict key item) := by
  have hsize : a.growthAt ((Call.insertEntry dict key item).written? a) ≤ nameSize key ∧
      a.shrinkageAt ((Call.insertEntry dict key item).written? a) = 0 := by
    cases hr : a.readDictionary dict with
    | error e => simp [Call.written?, hr, growthAt, shrinkageAt]
    | ok entries =>
      rw [Call.written?_insertEntry hr]
      simp only [growthAt, shrinkageAt]
      rw [sizeAt_of_payload? (readDictionary_eq_ok hr), Payload.footprint_insert]
      split <;> omega
  refine (insertEntry_relays a t dict key item).mono fun x log h => ?_
  have h' := (Moves.mono h fun _ => Stroke.Updates.candid).weaken (handed_le a [item]) le_rfl
  rcases x with (e | e) | x
  · exact h'.bound (Nat.zero_le _) le_rfl
  · exact h'.bound (Nat.zero_le _) le_rfl
  · exact h'.bound hsize.1 hsize.2.le

theorem buildItems_relays {build : Document → Arena → Outcome Handle} (hb : RelaysAlways build)
    (docs : List Document) (built : List Handle) (a : Arena) (t : Tracer) :
    Relays (Moving Stroke.Candid (slotsOf built) slotsOf 0
      (namesSize (docs.flatMap Document.names)) 0) a t (buildItems build a docs built)
      (buildItems build (a.hearing t) docs built) := by
  induction docs generalizing a t built with
  | nil => exact relays_reading _ (Moves.nil le_rfl)
  | cons d docs ih =>
    have hone := relays_frame (hb d a t) (slotsOf built)
    rw [zero_add] at hone
    rw [List.flatMap_cons, namesSize_append]
    refine relays_andThen (relays_onError hone fun b u => releaseAll_candid built b u)
      fun x b u => ?_
    rw [← slotsOf_concat]
    exact ih (built ++ [x]) b u

theorem buildMembers_relays {build : Document → Arena → Outcome Handle} (hb : RelaysAlways build)
    (dict : Handle) (members : List (String × Document)) (a : Arena) (t : Tracer) :
    Relays (Moving Stroke.Candid 0 (fun _ => 0) 0
      (namesSize (members.flatMap fun m => m.1 :: m.2.names)) 0) a t
      (buildMembers build dict a members) (buildMembers build dict (a.hearing t) members) := by
  induction members generalizing a t with
  | nil => exact relays_reading _ (Moves.nil le_rfl)
  | cons m members ih =>
    have h : Relays (Moving Stroke.Candid 0 (fun _ => 0) 0 (namesSize m.2.names +
        (nameSize m.1 + namesSize (members.flatMap fun m => m.1 :: m.2.names))) 0) a t
        (buildMembers build dict a (m :: members))
        (buildMembers build dict (a.hearing t) (m :: members)) :=
      relays_andThen (hb m.2 a t) fun x b u =>
        relays_andThen (insertEntry_candid b u dict m.1 x) fun _ c v => ih c v
    refine relays_mono h (fun _ hs => hs) ?_ le_rfl
    rw [List.flatMap_cons, List.cons_append, namesSize_cons, namesSize_append]
    omega

/-- **A document is built alike under any tracer**, however deep. -/
theorem buildTree_relays (levels : Nat) : RelaysAlways (buildTree levels) := by
  induction levels with
  | zero => exact fun _ a t => relays_reading _ (Moves.nil (Multiset.zero_le _))
  | succ levels ih =>
    intro d a t
    cases d with
    | null => exact relays_reading _ (Moves.nil (Multiset.zero_le _))
    | bool | float | string =>
      exact relays_mono (build_candid a t rfl) (fun _ hs => hs) (Nat.zero_le _) le_rfl
    | integer value =>
      exact relays_mono (build_candid a t (children_wholeNumber value)) (fun _ hs => hs)
        (Nat.zero_le _) le_rfl
    | array docs =>
      rw [Document.names]
      have h : Relays (Moving Stroke.Candid 0 (fun h => {h.slot}) 0
          (namesSize (docs.flatMap Document.names) + 0) 0) a t
          (buildTree (levels + 1) (.array docs) a)
          (buildTree (levels + 1) (.array docs) (a.hearing t)) :=
        relays_andThen (buildItems_relays ih docs [] a t) fun xs b u => buildSequence_candid b u xs
      exact h
    | object members =>
      rw [Document.names]
      -- the reference to the dictionary waits until its members are there
      have hfill : ∀ (dict : Handle) b u, Relays (Moving Stroke.Candid {dict.slot}
          (fun h => {h.slot}) 0 (namesSize (members.flatMap fun m => m.1 :: m.2.names) + 0) 0) b u
          (((buildMembers (buildTree levels) dict b members).onError fun c =>
            c.release dict).andThen fun _ c => .ok dict c)
          (((buildMembers (buildTree levels) dict (b.hearing u) members).onError fun c =>
            c.release dict).andThen fun _ c => .ok dict c) := fun dict b u => by
        have hone := relays_frame (buildMembers_relays ih dict members b u) {dict.slot}
        rw [zero_add] at hone
        exact relays_andThen (relays_onError hone fun c v => releaseAll_candid [dict] c v)
          fun _ _ _ => relays_reading _ (Moves.nil le_rfl)
      have h : Relays (Moving Stroke.Candid 0 (fun h => {h.slot}) 0
          (0 + (namesSize (members.flatMap fun m => m.1 :: m.2.names) + 0)) 0) a t
          (buildTree (levels + 1) (.object members) a)
          (buildTree (levels + 1) (.object members) (a.hearing t)) :=
        relays_andThen (build_candid a t rfl) fun dict b u => hfill dict b u
      rwa [Nat.zero_add] at h

end Arena

/-! ## 2. Calls -/

namespace Arena

namespace Call

/-- The call is not a garbage collection. -/
def Steady : Call → Prop
  | sweep _ => False
  | _ => True

/-- The factories of containers. -/
def MakesContainer : Call → Bool
  | buildList _ | buildTuple _ | buildDictionary | buildView _ | buildModule _
  | buildBoundName _ _ => true
  | _ => false

/-- The calls that may build several values. -/
def MakesMany : Call → Prop
  | importDocument _ | copy _ => True
  | _ => False

end Call

open Outcome

variable {α : Type} {a : Arena} {t : Tracer} {c : Call} {log : List Stroke} {m : Multiset Slot}
  {g k n : Nat}

/-- **What a call is made of**, with its answer: strokes in one of the forms that operations have,
    which let values grow and shrink by no more than the call says. Only a garbage collection starts
    the count of containers anew. A call that builds one value at most has built one container if it
    is a factory of containers that answers, and none otherwise. -/
structure Performs (a : Arena) (c : Call) (x : Except Failure Answer) (log : List Stroke) :
    Prop where
  phrase : Phrase (a.handed c.consumed) log
  growth_le : (log.map Stroke.growth).sum ≤ a.growth c
  shrinkage_le : (log.map Stroke.shrinkage).sum ≤ a.shrinkage c
  steady : c.Steady → ∀ s ∈ log, s.Steady
  containers : ¬ c.MakesMany → (log.map Stroke.containers).sum =
    if c.MakesContainer = true ∧ x.isOk = true then 1 else 0

/-- No factory, nothing built. -/
theorem containers_none {x : Except Failure Answer} (hc : c.MakesContainer = false)
    (hn : (log.map Stroke.containers).sum = 0) : (log.map Stroke.containers).sum =
      if c.MakesContainer = true ∧ x.isOk = true then 1 else 0 := by
  rw [hn, hc, if_neg fun h => Bool.false_ne_true h.1]

theorem growth_sum_zero (h : ∀ s ∈ log, s.Level) : (log.map Stroke.growth).sum ≤ g :=
  (Stroke.sum_eq_zero fun s hs => (h s hs).1).le.trans (Nat.zero_le g)

theorem shrinkage_sum_zero (h : ∀ s ∈ log, s.Level) : (log.map Stroke.shrinkage).sum ≤ g :=
  (Stroke.sum_eq_zero fun s hs => (h s hs).2).le.trans (Nat.zero_le g)

theorem performs_of_retaining {x : Except Failure α} {f : α → Answer} (h : Retaining x log)
    (hc : c.MakesContainer = false) : Performs a c (x.map f) log where
  phrase := by
    have hsolvent := (Solvent.of_retains h).mono_left (Multiset.zero_le (a.handed c.consumed))
    rw [← List.append_nil log] at hsolvent ⊢
    exact .candid h (List.forall_mem_nil _) hsolvent
  growth_le := growth_sum_zero fun s hs => (h s hs).wires.level
  shrinkage_le := shrinkage_sum_zero fun s hs => (h s hs).wires.level
  steady _ s hs := (h s hs).wires.copies.steady
  containers _ := containers_none hc (Stroke.sum_eq_zero fun s hs => (h s hs).containers)

theorem containers_made {x : Except Failure Handle} {f : Handle → Answer}
    (h : (log.map Stroke.containers).sum = if x.isOk then n else 0)
    (hn : n = if c.MakesContainer then 1 else 0) : (log.map Stroke.containers).sum =
      if c.MakesContainer = true ∧ (x.map f).isOk = true then 1 else 0 := by
  rw [h, hn]
  cases x with
  | error e => exact (if_neg fun h => Bool.false_ne_true h.2).symm
  | ok x => cases c.MakesContainer <;> rfl

theorem performs_of_making {x : Except Failure Handle} {f : Handle → Answer} (h : Making m n x log)
    (hm : m ≤ a.handed c.consumed) (hn : n = if c.MakesContainer then 1 else 0) :
    Performs a c (x.map f) log where
  phrase := Moves.phrase ((Moves.mono h.moves fun _ => Stroke.Builds.candid).weaken hm
    (Multiset.zero_le _))
  growth_le := h.moves.growth_le.trans (Nat.zero_le _)
  shrinkage_le := h.moves.shrinkage_le.trans (Nat.zero_le _)
  steady _ s hs := (h.moves.each s hs).candid.steady
  containers _ := containers_made h.containers hn

theorem performs_of_sharing {x : Except Failure Handle} {f : Handle → Answer} (h : Sharing x log)
    (hc : c.MakesContainer = true) : Performs a c (x.map f) log := by
  obtain ⟨before, after, m, rfl, hr, hb⟩ := h
  have hlevel : ∀ s ∈ before ++ after, s.Level := List.forall_mem_append.mpr
    ⟨fun s hs => (hr.each s hs).wires.level, fun s hs => (hb.moves.each s hs).level⟩
  refine ⟨?_, growth_sum_zero hlevel, shrinkage_sum_zero hlevel, fun _ => ?_, fun _ => ?_⟩
  · have hsolvent : Solvent 0 (before ++ after) 0 :=
      (hr.solvent.trans hb.moves.solvent).mono_right (Multiset.zero_le _)
    exact .candid hr.each (fun s hs => (hb.moves.each s hs).candid)
      (hsolvent.mono_left (Multiset.zero_le _))
  · exact List.forall_mem_append.mpr ⟨fun s hs => (hr.each s hs).wires.copies.steady,
      fun s hs => (hb.moves.each s hs).candid.steady⟩
  · rw [List.map_append, List.sum_append, Stroke.sum_eq_zero fun s hs => (hr.each s hs).containers,
      Nat.zero_add]
    exact containers_made hb.containers (by rw [hc]; rfl)

/-- An update lets a value grow and shrink when it answers. -/
theorem performs_of_altering {r : Outcome α} {f : α → Answer}
    (h : Altering (a.handed c.consumed) (a.growthAt (c.written? a)) (a.shrinkageAt (c.written? a))
      r.answer log)
    (hp : a.perform c = r.map f) (hd : ∀ d, c ≠ .importDocument d) (hc : c.MakesContainer = false) :
    Performs a c (r.answer.map f) log := by
  have hok : (a.perform c).answer.isOk = r.answer.isOk := by
    rw [hp]
    obtain ⟨e | x, b⟩ := r <;> rfl
  have hg : a.growth c = if r.answer.isOk then a.growthAt (c.written? a) else 0 := by
    unfold growth
    split
    · exact absurd rfl (hd _)
    · rw [hok]
  have hk : a.shrinkage c = if r.answer.isOk then a.shrinkageAt (c.written? a) else 0 := by
    unfold shrinkage
    split
    · exact absurd rfl (hd _)
    · rw [hok]
  refine ⟨(Moves.mono h fun _ => Stroke.Updates.candid).phrase, hg ▸ h.growth_le,
    hk ▸ h.shrinkage_le, fun _ s hs => (h.each s hs).candid.steady, fun _ => ?_⟩
  exact containers_none hc (Stroke.sum_eq_zero fun s hs => (h.each s hs).containers)

/-- What is told of each reference that it takes, and builds and resizes nothing. -/
theorem performs_of_moves {x : Except Failure Answer} (h : Moves Stroke.Candid m 0 0 0 log)
    (hm : m ≤ a.handed c.consumed) (hn : (log.map Stroke.containers).sum = 0)
    (hc : c.MakesContainer = false) : Performs a c x log where
  phrase := (h.weaken hm le_rfl).phrase
  growth_le := h.growth_le.trans (Nat.zero_le _)
  shrinkage_le := h.shrinkage_le.trans (Nat.zero_le _)
  steady _ s hs := (h.each s hs).steady
  containers _ := containers_none hc hn

theorem performs_of_collecting {x : Except Failure Answer} (h : Collecting log)
    (hs : c.Steady → ∀ s ∈ log, s.Steady) (hc : c.MakesContainer = false) :
    Performs a c x log where
  phrase := h.phrase.mono (Multiset.zero_le _)
  growth_le := growth_sum_zero fun s hs => (h.clears s hs).level
  shrinkage_le := shrinkage_sum_zero fun s hs => (h.clears s hs).level
  steady := hs
  containers _ := containers_none hc (Stroke.sum_eq_zero fun s hs => (h.clears s hs).containers)

/-- **Every call is a series of strokes**, and another tracer hears of all of them. -/
theorem perform_relays (a : Arena) (t : Tracer) (c : Call) :
    Relays (Performs a c) a t (a.perform c) ((a.hearing t).perform c) := by
  have read : ∀ {α : Type} {x : Except HeapError α} {f : α → Answer} {c : Call},
      c.MakesContainer = false → Relays (Performs a c) a t ((ofAnswer x a).map f)
        ((ofAnswer x (a.hearing t)).map f) := fun hc =>
    (relays_ofAnswer _ retaining_nil).map fun _ h => performs_of_retaining h hc
  have asked : ∀ {α : Type} {x : Except Fault α} {f : α → Answer} {c : Call},
      c.MakesContainer = false → Relays (Performs a c) a t ((ofAsk x a).map f)
        ((ofAsk x (a.hearing t)).map f) := fun hc =>
    (relays_ofAsk _ retaining_nil).map fun _ h => performs_of_retaining h hc
  cases c with
  | buildScalar s =>
    have hs : s.payload.children = [] ∧ s.payload.containers = 0 := by cases s <;> exact ⟨rfl, rfl⟩
    refine (build_relays a t _).map fun _ h => performs_of_making h ?_ hs.2
    rw [hs.1]
    exact Multiset.zero_le _
  | buildAlias | buildDictionary | buildFunction | buildBuiltin | buildModule | buildHostObject =>
    exact (build_relays a t _).map fun _ h => performs_of_making h le_rfl rfl
  | buildRange start stop step =>
    exact (buildRange_relays a t start stop step).map fun _ h => performs_of_making h le_rfl rfl
  | buildList items | buildTuple items =>
    exact (buildSequence_relays a t items (fun _ => rfl) fun _ => rfl).map fun _ h =>
      performs_of_making h le_rfl rfl
  | buildView dict => exact (buildView_relays a t dict).map fun _ h => performs_of_sharing h rfl
  | buildBoundName owner name =>
    exact (buildBoundName_relays a t owner name).map fun _ h => performs_of_sharing h rfl
  | importDocument d =>
    refine (buildTree_relays _ d a t).map fun log h => ?_
    exact ⟨(Moves.weaken h le_rfl (Multiset.zero_le _)).phrase, h.growth_le, h.shrinkage_le,
      fun _ s hs => (h.each s hs).steady, fun hm => absurd trivial hm⟩
  | readValue s => exact (readValue_relays a t s).map fun _ h => performs_of_making h le_rfl rfl
  | copy h =>
    refine (copy_relays a t h).map fun log k => ?_
    exact ⟨k.phrase.mono (Multiset.zero_le _), growth_sum_zero k.level, shrinkage_sum_zero k.level,
      fun _ => k.steady, fun hm => absurd trivial hm⟩
  | clone h => exact (clone_relays a t h).map fun _ h => performs_of_retaining h rfl
  | release h =>
    refine relays_of_echoes ((release_echoes a t h).mono fun log k => ?_)
    exact performs_of_moves (k.mono fun _ hs => hs.updates.candid) le_rfl (containers_returns k.each)
      rfl
  | assign h s =>
    exact (assign_relays a t h s).map fun _ k =>
      performs_of_altering k rfl (fun _ e => by cases e) rfl
  | append list x =>
    exact (append_relays a t list x).map fun _ k =>
      performs_of_altering k rfl (fun _ e => by cases e) rfl
  | insertEntry dict key x =>
    exact (insertEntry_relays a t dict key x).map fun _ k =>
      performs_of_altering k rfl (fun _ e => by cases e) rfl
  | bindMember table name x =>
    exact (bindMember_relays a t table name x).map fun _ k =>
      performs_of_altering k rfl (fun _ e => by cases e) rfl
  | stepIterator iterator =>
    refine (stepIterator_relays a t iterator).map fun log h => ?_
    have k := stepping_of_altering h
    exact performs_of_moves k.moves (Multiset.zero_le _) k.containers rfl
  | item sequence index =>
    exact (item_relays a t sequence index).map fun _ h => performs_of_retaining h rfl
  | entry dict key => exact (entry_relays a t dict key).map fun _ h => performs_of_retaining h rfl
  | member table name =>
    exact (member_relays a t table name).map fun _ h => performs_of_retaining h rfl
  | ownerOf bound => exact (ownerOf_relays a t bound).map fun _ h => performs_of_retaining h rfl
  | entriesOf view => exact (entriesOf_relays a t view).map fun _ h => performs_of_retaining h rfl
  | nextValue iterator =>
    exact (nextValue_relays a t iterator).map fun _ k =>
      performs_of_moves k.moves (Multiset.zero_le _) k.containers rfl
  | reclaim =>
    obtain ⟨hn, h⟩ := reclaim_echoes a t
    show Relays _ a t ⟨.ok (Answer.number a.reclaim.1), a.reclaim.2⟩
      ⟨.ok (Answer.number (a.hearing t).reclaim.1), (a.hearing t).reclaim.2⟩
    rw [hn]
    exact relays_of_echoes (h.mono fun log k => performs_of_collecting k.1 (fun _ => k.2) rfl)
  | sweep roots =>
    exact (sweep_relays a t roots).map fun _ k => performs_of_collecting k (fun h => h.elim) rfl
  | payloadAs | hasKey | hasMember | refcount | writeValue => exact read rfl
  | kindOf | iterable | callable | generates | truth | equalValues | greater | atLeast =>
    exact asked rfl
  | exportDocument h =>
    have hread : Relays Retaining a t ⟨a.exportDocument h, a⟩
        ⟨(a.hearing t).exportDocument h, a.hearing t⟩ := by
      rw [exportDocument_hearing]
      exact relays_reading _ (retaining_nil _)
    exact hread.map fun _ h => performs_of_retaining h rfl
  | resolves | live | shouldCollect | snapshot =>
    exact relays_reading _ (performs_of_moves (.nil le_rfl) (Multiset.zero_le _) rfl rfl)

end Arena

end ValueHeap
