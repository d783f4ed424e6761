import ValueHeap.Proofs.Listeners

/-!
# The strokes of factories and updates

One lemma for each operation says which strokes it is made of, and that another tracer hears them.
All that is known of an operation as a series of strokes is read off these lemmas.

* `Arena.handed`: the references that come with the handles of a call;
* `Retaining`: what adds references, and nothing else;
* `Making`: factories; `Sharing`: those that add a reference of their own;
* `Altering`: updates; `Stepping`: what is taken from an iterator.
-/

namespace ValueHeap

open Arena

/-! ## 1. Handles as references -/

/-- The references that some handles stand for. -/
def slotsOf (hs : List Handle) : Multiset Slot := ↑(hs.map Handle.slot)

theorem slotsOf_concat (hs : List Handle) (h : Handle) :
    slotsOf (hs ++ [h]) = {h.slot} + slotsOf hs := by
  rw [slotsOf, List.map_append, ← Multiset.coe_add, add_comm]
  rfl

namespace Arena

open Outcome

variable {α β : Type} {a b c : Arena} {t : Tracer} {m : Multiset Slot} {g k n : Nat}

/-- The references of those handles that name values. -/
def handed (a : Arena) (hs : List Handle) : Multiset Slot := slotsOf (hs.filter a.resolves)

theorem handed_le (a : Arena) (hs : List Handle) : a.handed hs ≤ slotsOf hs :=
  Multiset.coe_le.mpr (List.filter_sublist.map _).subperm

/-- If all handles name values, each of them stands for a reference. -/
theorem handed_of_resolves {hs : List Handle} (h : ∀ x ∈ hs, a.resolves x) :
    a.handed hs = slotsOf hs := by
  rw [handed, List.filter_eq_self.mpr h]

theorem resolves_giveBack (a : Arena) (i : Slot) (h : Handle) :
    (a.giveBack i).resolves h = a.resolves h := by
  have hs := sameSlots_giveBack a i
  have hp : ∀ j, (a.giveBack i).payload? j = a.payload? j := fun j => by
    rw [payload?, hs.occupant?]
    exact payload?_unlink a i j
  have hr : ∀ j, (a.giveBack i).refills? j = a.refills? j := fun j =>
    (hs.refills? j).trans (refills?_unlink a i j)
  rw [Bool.eq_iff_iff, resolves_iff_handleOf, resolves_iff_handleOf, occupied_congr (hp _),
    handleOf_eq (hs.id.trans (id_unlink a i)) (hr _)]

/-- Releasing a handle leaves what the others stand for. -/
theorem handed_release (a : Arena) (h : Handle) (hs : List Handle) :
    (a.release h).handed hs = a.handed hs := by
  have e : (a.release h).resolves = a.resolves := by
    funext x
    unfold release
    split
    · exact resolves_giveBack a h.slot x
    · rfl
  rw [handed, handed, e]

/-! ## 2. References that are given back -/

/-- **A reference that is given back comes off the move**, and the tracer hears of it. -/
theorem giveBack_echoes (a : Arena) (t : Tracer) (i : Slot) :
    Echoes (Moves Stroke.Returns {i} 0 0 0) a t (a.giveBack i) ((a.hearing t).giveBack i) := by
  cases ho : a.occupant? i with
  | none =>
    unfold giveBack
    rw [occupant?_hearing, ho]
    exact .refl a t (.nil (Multiset.zero_le _))
  | some o =>
    refine (Stroked.returned (count?_of_occupant? ho)).echoes
      (Moves.single (s := .returned i o.count) trivial le_rfl) ?_
    unfold giveBack
    rw [occupant?_hearing, ho, unlink_hearing]
    rfl

theorem giveBackAll_echoes (is : List Slot) (a : Arena) (t : Tracer) :
    Echoes (Moves Stroke.Returns is 0 0 0) a t (a.giveBackAll is)
      ((a.hearing t).giveBackAll is) := by
  induction is generalizing a t with
  | nil => exact .refl a t (.nil le_rfl)
  | cons i is ih =>
    refine (giveBack_echoes a t i).trans (giveBackAll · is) (ih (a.giveBack i))
      fun log more h h' => ?_
    have hall := (h.frame is).append (h'.weaken (zero_add (is : Multiset Slot)).ge le_rfl)
    rwa [Multiset.singleton_add, Multiset.cons_coe] at hall

theorem giveBackReplaced_echoes (a : Arena) (t : Tracer) (previous : Option Slot) :
    Echoes (Moves Stroke.Returns previous.toList 0 0 0) a t (a.giveBackReplaced previous)
      ((a.hearing t).giveBackReplaced previous) := by
  cases previous with
  | none => exact .refl a t (.nil le_rfl)
  | some i => exact giveBack_echoes a t i

/-- A handle that names nothing stands for no reference, and nothing is told. -/
theorem release_echoes (a : Arena) (t : Tracer) (h : Handle) :
    Echoes (Moves Stroke.Returns (a.handed [h]) 0 0 0) a t (a.release h)
      ((a.hearing t).release h) := by
  unfold release
  rw [lookup_hearing]
  cases hl : a.lookup h with
  | error e => exact .refl a t (.nil (Multiset.zero_le _))
  | ok o =>
    rw [handed_of_resolves (List.forall_mem_singleton.mpr (resolves_iff.mpr ⟨o, hl⟩))]
    exact giveBack_echoes a t h.slot

theorem releaseAll_echoes (hs : List Handle) (a : Arena) (t : Tracer) :
    Echoes (Moves Stroke.Returns (a.handed hs) 0 0 0) a t (a.releaseAll hs)
      ((a.hearing t).releaseAll hs) := by
  induction hs generalizing a t with
  | nil => exact .refl a t (.nil le_rfl)
  | cons h hs ih =>
    refine (release_echoes a t h).trans (releaseAll · hs) (ih (a.release h)) fun log more k k' => ?_
    rw [handed_release] at k'
    have e : a.handed (h :: hs) = a.handed [h] + a.handed hs := by
      rw [handed, ← List.singleton_append, List.filter_append]
      exact (congrArg _ (List.map_append ..)).trans (Multiset.coe_add _ _).symm
    rw [e]
    exact (k.frame _).append (k'.weaken (zero_add _).ge le_rfl)

/-! ## 3. References that are handed out -/

/-- With an answer just this stroke, and without one none. -/
def Only (stroke : α → Stroke) (x : Except Failure α) (log : List Stroke) : Prop :=
  log = match x with
    | .ok y => [stroke y]
    | .error _ => []

/-- References are added, and nothing else is done. -/
def Retaining (_ : Except Failure α) (log : List Stroke) : Prop := ∀ s ∈ log, s.Retains

theorem retaining_nil (x : Except Failure α) : Retaining x [] := List.forall_mem_nil _

theorem retaining_append {x : Except Failure α} {y : Except Failure β} {log more : List Stroke}
    (h : Retaining x log) (h' : Retaining y more) : Retaining y (log ++ more) :=
  List.forall_mem_append.mpr ⟨h, h'⟩

theorem retaining_only {i : Slot} {x : Except Failure Unit} {log : List Stroke}
    (h : Only (fun _ => .retained i) x log) : Retaining x log := by
  unfold Only at h
  subst h
  cases x with
  | error e => exact retaining_nil _
  | ok y => exact List.forall_mem_singleton.mpr trivial

/-- References that are added in sequence. -/
theorem retaining_andThen {r r' : Outcome α} {next next' : α → Arena → Outcome β}
    (h : Relays Retaining a t r r')
    (n : ∀ x b u, Relays Retaining b u (next x b) (next' x (b.hearing u))) :
    Relays Retaining a t (r.andThen next) (r'.andThen next') :=
  h.andThen n (fun _ _ _ _ h h' => retaining_append h h') fun _ _ h => h

/-- A reference is added, or its value is missing and nothing is done. -/
theorem retain_relays (a : Arena) (t : Tracer) (i : Slot) :
    Relays (Only fun _ => .retained i) a t (a.retain i) ((a.hearing t).retain i) := by
  unfold retain retain?
  rw [occupant?_hearing]
  cases ho : a.occupant? i with
  | none => exact relays_reading _ rfl
  | some o =>
    have h := Stroked.retained (i := i) (by rw [ho]; rfl : (a.occupant? i).isSome)
    exact relays_of_echoes (h.echoes rfl rfl)

/-- A handle that is issued adds a reference. -/
theorem handOut_relays (a : Arena) (t : Tracer) (i : Slot) :
    Relays Retaining a t (a.handOut i) ((a.hearing t).handOut i) :=
  retaining_andThen ((retain_relays a t i).mono fun _ _ => retaining_only) fun _ _ _ =>
    relays_reading _ (retaining_nil _)

theorem clone_relays (a : Arena) (t : Tracer) (h : Handle) :
    Relays Retaining a t (a.clone h) ((a.hearing t).clone h) := by
  unfold clone
  rw [lookup_hearing]
  cases a.lookup h with
  | error e => exact relays_reading _ (retaining_nil _)
  | ok o => exact handOut_relays a t h.slot

theorem handOutFound_relays (a : Arena) (t : Tracer) (found : Option Slot) :
    Relays Retaining a t (a.handOutFound found) ((a.hearing t).handOutFound found) := by
  cases found with
  | none => exact relays_reading _ (retaining_nil _)
  | some i =>
    exact retaining_andThen (handOut_relays a t i) fun _ _ _ => relays_reading _ (retaining_nil _)

theorem item_relays (a : Arena) (t : Tracer) (sequence : Handle) (index : Nat) :
    Relays Retaining a t (a.item sequence index) ((a.hearing t).item sequence index) := by
  unfold item
  rw [readSequence_hearing]
  cases a.readSequence sequence with
  | error e => exact relays_reading _ (retaining_nil _)
  | ok items => exact handOutFound_relays a t _

theorem entry_relays (a : Arena) (t : Tracer) (dict : Handle) (key : String) :
    Relays Retaining a t (a.entry dict key) ((a.hearing t).entry dict key) := by
  unfold entry readDictionary
  rw [read_hearing]
  cases a.read .dictionary Payload.asDictionary? dict with
  | error e => exact relays_reading _ (retaining_nil _)
  | ok entries => exact handOutFound_relays a t _

theorem member_relays (a : Arena) (t : Tracer) (table : Handle) (name : String) :
    Relays Retaining a t (a.member table name) ((a.hearing t).member table name) := by
  unfold member readModule
  rw [read_hearing]
  cases a.read .moduleTable Payload.asModule? table with
  | error e => exact relays_reading _ (retaining_nil _)
  | ok m => exact handOutFound_relays a t _

theorem ownerOf_relays (a : Arena) (t : Tracer) (bound : Handle) :
    Relays Retaining a t (a.ownerOf bound) ((a.hearing t).ownerOf bound) := by
  unfold ownerOf readAttr
  rw [read_hearing]
  cases a.read .attr Payload.asAttr? bound with
  | error e => exact relays_reading _ (retaining_nil _)
  | ok b => exact handOut_relays a t b.owner

/-- A listing adds one reference for each entry. -/
theorem handOutPairs_relays (pairs : List (String × Slot)) (a : Arena) (t : Tracer) :
    Relays Retaining a t (a.handOutPairs pairs) ((a.hearing t).handOutPairs pairs) := by
  induction pairs generalizing a t with
  | nil => exact relays_reading _ (retaining_nil _)
  | cons p pairs ih =>
    exact retaining_andThen (handOut_relays a t p.2) fun _ b u =>
      retaining_andThen (ih b u) fun _ _ _ => relays_reading _ (retaining_nil _)

theorem entriesOf_relays (a : Arena) (t : Tracer) (view : Handle) :
    Relays Retaining a t (a.entriesOf view) ((a.hearing t).entriesOf view) := by
  unfold entriesOf readDictItems
  rw [read_hearing]
  cases a.read .dictItems Payload.asDictItems? view with
  | error e => exact relays_reading _ (retaining_nil _)
  | ok dict =>
    dsimp only
    rw [follow_hearing]
    cases a.follow dict with
    | error f => exact relays_reading _ (retaining_nil _)
    | ok p =>
      cases p with
      | dictionary entries => exact handOutPairs_relays _ a t
      | _ => exact relays_reading _ (retaining_nil _)

/-! ## 4. Building -/

/-- **What a factory is made of** that takes over the references `m`: with an answer the value is in
    its slot, and `n` containers have been built; without one the references have been given
    back. -/
structure Making (m : Multiset Slot) (n : Nat) (x : Except Failure Handle) (log : List Stroke) :
    Prop where
  moves : Moving Stroke.Builds m (fun h => {h.slot}) 0 0 0 x log
  containers : (log.map Stroke.containers).sum = if x.isOk then n else 0

/-- Nothing is built. -/
theorem Making.none (e : Failure) : Making m n (.error e) [] where
  moves := by cases e <;> exact Moves.nil (Multiset.zero_le m)
  containers := rfl

/-- With an answer a factory has filled the slot that it names, and nothing else. -/
theorem Making.filled {p : Payload} {x : Except Failure Handle} {log : List Stroke}
    (h : Only (fun h => .filled h.slot p 1) x log) : Making p.children p.containers x log := by
  unfold Only at h
  subst h
  cases x with
  | error e => exact .none e
  | ok h => exact ⟨Moves.single (s := .filled h.slot p 1) trivial le_rfl, List.sum_singleton⟩

/-- What is given back is not built. -/
theorem containers_returns {log : List Stroke} (h : ∀ s ∈ log, s.Returns) :
    (log.map Stroke.containers).sum = 0 :=
  Stroke.sum_eq_zero fun s hs => (h s hs).containers

/-- **A slot is filled or refused alike under any tracer.** -/
theorem allocate_relays (a : Arena) (t : Tracer) (p : Payload) (n : Nat) :
    Relays (Only fun i => .filled i p n) a t (a.allocate p n) ((a.hearing t).allocate p n) := by
  cases hv : (a.tracker.charge p.footprint).1 with
  | accepted =>
    have e : a.allocate p n = .ok a.nextSlot
        ((({ a with tracker := (a.tracker.charge p.footprint).2 }.countBuilt p.kind).fill
          ⟨n, p⟩).note (.allocate a.nextSlot p.kind)) := by
      simp only [allocate, hv]
    have e' : (a.hearing t).allocate p n = .ok a.nextSlot
        (((({ a with tracker := (a.tracker.charge p.footprint).2 }.countBuilt p.kind).hearing
          t).fill ⟨n, p⟩).note (.allocate a.nextSlot p.kind)) := by
      simp only [allocate, show (a.hearing t).tracker = a.tracker from rfl, hv]
      rfl
    rw [e, e']
    refine relays_of_echoes ((Stroked.filled e).echoes rfl ?_)
    unfold fill
    dsimp only [hearing]
    split <;> rfl
  | refused why =>
    have e : a.allocate p n = .error (.resource why) a := by
      have ht := Tracker.charge_refused hv
      simp only [allocate, hv]
      rw [ht]
    have e' : (a.hearing t).allocate p n = .error (.resource why) (a.hearing t) := by
      have ht := Tracker.charge_refused hv
      simp only [allocate, show (a.hearing t).tracker = a.tracker from rfl, hv]
      rw [ht]
      rfl
    rw [e, e']
    exact relays_reading _ rfl
  | overflowed =>
    have e : a.allocate p n = .fault .counterOverflow
        { a with tracker := (a.tracker.charge p.footprint).2 } := by
      simp only [allocate, hv]
    have e' : (a.hearing t).allocate p n = .fault .counterOverflow
        ({ a with tracker := (a.tracker.charge p.footprint).2 }.hearing t) := by
      simp only [allocate, show (a.hearing t).tracker = a.tracker from rfl, hv]
      rfl
    rw [e, e']
    exact ⟨rfl, [], a.tracker, rfl, .nil, fun h => absurd rfl h, rfl⟩

theorem build_only (a : Arena) (t : Tracer) (p : Payload) :
    Relays (Only fun h => .filled h.slot p 1) a t (a.build p) ((a.hearing t).build p) := by
  -- the handle names the slot that was filled
  refine (allocate_relays a t p 1).andThen
    (M := fun i x log => (∃ h : Handle, x = .ok h ∧ h.slot = i) ∧ log = [])
    (fun i b _ => relays_reading _ ⟨⟨b.handleOf i, rfl, rfl⟩, rfl⟩) ?_ fun _ _ h => h
  rintro i log x more rfl ⟨⟨h, rfl, rfl⟩, rfl⟩
  rfl

/-- **A value that is built** takes its children off the move. -/
theorem build_relays (a : Arena) (t : Tracer) (p : Payload) :
    Relays (Making p.children p.containers) a t (a.build p) ((a.hearing t).build p) :=
  (build_only a t p).mono fun _ _ => .filled

/-- If the slot is refused, the references that it would have held are given back. -/
theorem buildHolding_relays (a : Arena) (t : Tracer) (p : Payload) :
    Relays (Making p.children p.containers) a t (a.buildHolding p)
      ((a.hearing t).buildHolding p) := by
  refine (build_only a t p).onError (giveBackAll_echoes p.children) (fun e log more h h' => ?_)
    fun _ _ _ => .filled
  unfold Only at h
  subst h
  exact ⟨h'.mono fun _ => Stroke.Returns.builds, containers_returns h'.each⟩

/-- All of the handles name values, or the first one that does not decides. -/
theorem resolves_of_firstError? {hs : List Handle} (h : a.firstError? hs = none) :
    ∀ x ∈ hs, a.resolves x := by
  intro x hx
  have hn := List.findSome?_eq_none_iff.mp h x hx
  cases hl : a.lookup x with
  | error e => simp [hl] at hn
  | ok o => exact resolves_iff.mpr ⟨o, hl⟩

/-- **A sequence takes the references of its items**, or gives all of them back. -/
theorem buildSequence_relays (a : Arena) (t : Tracer) {make : List Slot → Payload}
    (items : List Handle) (hc : ∀ is, (make is).children = is)
    (hn : ∀ is, (make is).containers = 1) :
    Relays (Making (a.handed items) 1) a t (a.buildSequence make items)
      ((a.hearing t).buildSequence make items) := by
  unfold buildSequence
  rw [firstError?_hearing]
  cases hf : a.firstError? items with
  | some e =>
    refine relays_of_echoes ((releaseAll_echoes items a t).mono fun log h => ?_)
    exact ⟨h.mono fun _ => Stroke.Returns.builds, containers_returns h.each⟩
  | none =>
    have h := buildHolding_relays a t (make (items.map (·.slot)))
    rw [hc, hn] at h
    rwa [handed_of_resolves (resolves_of_firstError? hf)]

theorem buildRange_relays (a : Arena) (t : Tracer) (start stop step : Int32) :
    Relays (Making 0 0) a t (a.buildRange start stop step)
      ((a.hearing t).buildRange start stop step) := by
  unfold buildRange
  cases Progression.new? start stop step with
  | none => exact relays_reading _ (.none _)
  | some walk => exact build_relays a t _

/-- Only integers and truth values can be read from a stream. -/
theorem scalar_readPayload {s u : ByteStream} {p : Payload} (h : s.readPayload = (.ok p, u)) :
    p.children = [] ∧ p.containers = 0 := by
  unfold ByteStream.readPayload at h
  split at h
  · cases h
  · split at h <;> cases h
    exact ⟨rfl, rfl⟩
  · split at h <;> cases h
    exact ⟨rfl, rfl⟩
  · cases h

/-- A value that is read from a stream holds no references. -/
theorem readValue_relays (a : Arena) (t : Tracer) (s : ByteStream) :
    Relays (Making 0 0) a t (a.readValue s).1 ((a.hearing t).readValue s).1 := by
  have outcome : ∀ b : Arena, ∀ p s', s.readPayload = (.ok p, s') →
      (b.readValue s).1 = b.build p := by
    intro b p s' hp
    unfold readValue
    rw [hp]
    dsimp only
    split <;> rfl
  rcases hp : s.readPayload with ⟨e | p, s'⟩
  · unfold readValue
    rw [hp]
    exact relays_reading _ (.none _)
  · have h := build_relays a t p
    obtain ⟨hc, hn⟩ := scalar_readPayload hp
    rw [hc, hn] at h
    rwa [outcome a p s' hp, outcome (a.hearing t) p s' hp]

/-- **What a factory is made of** that adds a reference of its own before it builds. -/
def Sharing (x : Except Failure Handle) (log : List Stroke) : Prop :=
  ∃ before after m, log = before ++ after ∧ Moves Stroke.Retains 0 m 0 0 before ∧ Making m 1 x after

theorem sharing_none (e : Failure) : Sharing (.error e) [] :=
  ⟨[], [], 0, rfl, .nil le_rfl, .none e⟩

/-- A reference is added, and then held in a container or given back. -/
theorem holding_relays (a : Arena) (t : Tracer) (i : Slot) {p : Payload} (hc : p.children = [i])
    (hn : p.containers = 1) : Relays Sharing a t ((a.retain i).andThen fun _ b => b.buildHolding p)
      (((a.hearing t).retain i).andThen fun _ b => b.buildHolding p) := by
  refine (retain_relays a t i).andThen (fun _ b u => buildHolding_relays b u p) ?_ ?_
  · rintro _ log x more rfl h
    rw [hc, hn] at h
    exact ⟨_, more, _, rfl, Moves.single (s := .retained i) trivial le_rfl, h⟩
  · rintro e log rfl
    exact sharing_none e

theorem buildView_relays (a : Arena) (t : Tracer) (dict : Handle) :
    Relays Sharing a t (a.buildView dict) ((a.hearing t).buildView dict) := by
  unfold buildView readDictionary
  rw [read_hearing]
  cases a.read .dictionary Payload.asDictionary? dict with
  | error e => exact relays_reading _ (sharing_none _)
  | ok entries => exact holding_relays a t dict.slot rfl rfl

theorem buildBoundName_relays (a : Arena) (t : Tracer) (owner : Handle) (name : String) :
    Relays Sharing a t (a.buildBoundName owner name)
      ((a.hearing t).buildBoundName owner name) := by
  unfold buildBoundName
  rw [lookup_hearing]
  cases a.lookup owner with
  | error e => exact relays_reading _ (sharing_none _)
  | ok o => exact holding_relays a t owner.slot rfl rfl

/-! ## 5. Changing values -/

/-- **What an update is made of** that takes over the references `m`: with an answer the payload has
    been replaced, and without one no payload has. -/
def Altering (m : Multiset Slot) (g k : Nat) (x : Except Failure α) (log : List Stroke) : Prop :=
  Moves Stroke.Updates m 0 (if x.isOk then g else 0) (if x.isOk then k else 0) log

theorem altering_none (m : Multiset Slot) (g k : Nat) (x : Except Failure α) :
    Altering m g k x [] := Moves.nil (Multiset.zero_le m)

/-- An update that does not happen gives back what it was handed. -/
theorem altering_returns {log : List Stroke} {x : Except Failure α}
    (h : Moves Stroke.Returns m 0 0 0 log) : Altering m g k x log :=
  (h.mono fun _ => Stroke.Returns.updates).bound (Nat.zero_le _) (Nat.zero_le _)

/-- The references of the new payload come off the move, and those of the old one go on it. -/
theorem setPayload_echoes {i : Slot} {p q : Payload} {m' : Multiset Slot} (t : Tracer)
    (hp : a.payload? i = some p) (hk : p.kind = q.kind)
    (hm : (q.children : Multiset Slot) + m' ≤ m + p.children) :
    Echoes (Moves Stroke.Updates m m' (a.growthAt (some (i, q))) (a.shrinkageAt (some (i, q)))) a t
      (a.setPayload i q) ((a.hearing t).setPayload i q) := by
  rw [growthAt, shrinkageAt, sizeAt_of_payload? hp]
  exact (Stroked.rewritten hp hk).echoes (Moves.single (s := .rewritten i p q) trivial hm) rfl

/-- A scalar takes the place of another one; no reference moves. -/
theorem assign_relays (a : Arena) (t : Tracer) (h : Handle) (s : Scalar) :
    Relays (Altering 0 (a.growthAt (some (h.slot, s.payload)))
      (a.shrinkageAt (some (h.slot, s.payload)))) a t (a.assign h s)
      ((a.hearing t).assign h s) := by
  unfold assign payloadAs
  rw [lookup_hearing]
  cases hl : a.lookup h with
  | error e => exact relays_reading _ (altering_none ..)
  | ok o =>
    by_cases hk : o.payload.kind = s.payload.kind
    · simp only [hk, ↓reduceIte]
      have hnone : s.payload.children = [] := by cases s <;> rfl
      have hp := payload?_of_occupant? (occupant?_of_lookup hl)
      exact relays_of_echoes (setPayload_echoes t hp hk (by rw [hnone]; exact Multiset.zero_le _))
    · simp only [hk, ↓reduceIte]
      exact relays_reading _ (altering_none ..)

/-- **What an update is handed** is stored, or given back if it cannot be. -/
theorem takeOver_relays {item : Handle} {container : Except HeapError α}
    {store store' : α → Arena}
    (hs : ∀ x, container = .ok x →
      Echoes (Moves Stroke.Updates {item.slot} 0 g k) a t (store x) (store' x)) :
    Relays (Altering (a.handed [item]) g k) a t (a.takeOver item container store)
      ((a.hearing t).takeOver item container store') := by
  unfold takeOver
  rw [lookup_hearing]
  cases hl : a.lookup item with
  | error e => exact relays_of_echoes ((release_echoes a t item).mono fun _ => altering_returns)
  | ok o =>
    cases container with
    | error e => exact relays_of_echoes ((release_echoes a t item).mono fun _ => altering_returns)
    | ok x =>
      rw [handed_of_resolves (List.forall_mem_singleton.mpr (resolves_iff.mpr ⟨o, hl⟩))]
      exact relays_of_echoes (hs x rfl)

/-- An entry takes the place of another one, which is given back. -/
theorem putEntry_echoes {i slot : Slot} {key : String} {entries : Entries} {p q : Payload}
    (t : Tracer) (hp : a.payload? i = some p) (hk : p.kind = q.kind)
    (hpc : p.children = entries.slots) (hqc : q.children = (entries.insert key slot).slots) :
    Echoes (Moves Stroke.Updates {slot} 0 (a.growthAt (some (i, q))) (a.shrinkageAt (some (i, q))))
      a t ((a.setPayload i q).giveBackReplaced (entries.get? key))
      (((a.hearing t).setPayload i q).giveBackReplaced (entries.get? key)) := by
  have hm : (q.children : Multiset Slot) + (entries.get? key).toList =
      {slot} + (p.children : Multiset Slot) := by
    ext j
    have hc := count_putPair key slot j entries.pairs
    rw [hpc, hqc, ← Multiset.coe_singleton, Multiset.coe_add, Multiset.coe_add, Multiset.coe_count,
      Multiset.coe_count, List.count_append, List.count_append]
    exact hc.trans (Nat.add_comm _ _)
  refine (setPayload_echoes t hp hk hm.le).trans (giveBackReplaced · _)
    (fun u => giveBackReplaced_echoes _ u _) fun log more h h' => ?_
  exact h.append (h'.mono fun _ => Stroke.Returns.updates)

theorem append_relays (a : Arena) (t : Tracer) (list item : Handle) :
    Relays (Altering (a.handed [item]) (a.growthAt ((Call.append list item).written? a))
      (a.shrinkageAt ((Call.append list item).written? a))) a t (a.append list item)
      ((a.hearing t).append list item) := by
  refine takeOver_relays fun items hr => ?_
  rw [Call.written?_append hr]
  refine setPayload_echoes t (readList_eq_ok hr) rfl (le_of_eq ?_)
  show ((items ++ [item.slot] : List Slot) : Multiset Slot) + 0 =
    {item.slot} + (items : Multiset Slot)
  rw [add_zero, ← Multiset.coe_add, add_comm]
  rfl

/-- The entry comes off the move, and the one before it is given back. -/
theorem insertEntry_relays (a : Arena) (t : Tracer) (dict : Handle) (key : String)
    (item : Handle) :
    Relays (Altering (a.handed [item]) (a.growthAt ((Call.insertEntry dict key item).written? a))
      (a.shrinkageAt ((Call.insertEntry dict key item).written? a))) a t
      (a.insertEntry dict key item) ((a.hearing t).insertEntry dict key item) := by
  refine takeOver_relays fun entries hr => ?_
  rw [Call.written?_insertEntry hr]
  exact putEntry_echoes t (readDictionary_eq_ok hr) rfl rfl rfl

theorem bindMember_relays (a : Arena) (t : Tracer) (table : Handle) (name : String)
    (item : Handle) :
    Relays (Altering (a.handed [item]) (a.growthAt ((Call.bindMember table name item).written? a))
      (a.shrinkageAt ((Call.bindMember table name item).written? a))) a t
      (a.bindMember table name item) ((a.hearing t).bindMember table name item) := by
  refine takeOver_relays fun m hr => ?_
  rw [Call.written?_bindMember hr]
  exact putEntry_echoes t (readModule_eq_ok hr) rfl rfl rfl

/-- Iterators are all of one size. -/
theorem stepIterator_relays (a : Arena) (t : Tracer) (iterator : Handle) :
    Relays (Altering 0 0 0) a t (a.stepIterator iterator)
      ((a.hearing t).stepIterator iterator) := by
  unfold stepIterator
  rw [show (a.hearing t).readIterator iterator = a.readIterator iterator from rfl]
  cases hr : a.readIterator iterator with
  | error e => exact relays_reading _ (altering_none ..)
  | ok walk =>
    dsimp only
    cases walk.next? with
    | none => exact relays_reading _ (altering_none ..)
    | some q =>
      have hp := readIterator_eq_ok hr
      have h : Echoes (Moves Stroke.Updates 0 0 _ _) a t _ _ :=
        setPayload_echoes (q := .iterator q.2) t hp rfl le_rfl
      rw [growthAt, shrinkageAt, sizeAt_of_payload? hp] at h
      exact relays_of_echoes (h.mono fun _ h => h.bound (Nat.sub_self _).le (Nat.sub_self _).le)

/-- What is taken from an iterator is told of, and no container is built for it. -/
structure Stepping (log : List Stroke) : Prop where
  moves : Moves Stroke.Candid 0 0 0 0 log
  containers : (log.map Stroke.containers).sum = 0

theorem Stepping.append {log more : List Stroke} (h : Stepping log) (h' : Stepping more) :
    Stepping (log ++ more) where
  moves := h.moves.append h'.moves
  containers := by rw [List.map_append, List.sum_append, h.containers, h'.containers]

theorem stepping_of_altering {x : Except Failure α} {log : List Stroke} (h : Altering 0 0 0 x log) :
    Stepping log where
  moves := (Moves.mono h fun _ => Stroke.Updates.candid).bound (ite_self _).le (ite_self _).le
  containers := Stroke.sum_eq_zero fun s hs => (h.each s hs).containers

theorem stepping_of_making {x : Except Failure Handle} {log : List Stroke} (h : Making 0 0 x log) :
    Stepping log where
  moves := (Moves.mono h.moves fun _ => Stroke.Builds.candid).weaken le_rfl (Multiset.zero_le _)
  containers := h.containers.trans (ite_self _)

/-- A step, and then a new integer. -/
theorem nextValue_relays (a : Arena) (t : Tracer) (iterator : Handle) :
    Relays (fun _ => Stepping) a t (a.nextValue iterator)
      ((a.hearing t).nextValue iterator) := by
  have none : Stepping [] := ⟨.nil le_rfl, rfl⟩
  refine (stepIterator_relays a t iterator).andThen (M := fun _ _ => Stepping) (fun next b u => ?_)
    (fun _ _ _ _ h => (stepping_of_altering h).append) fun _ _ => stepping_of_altering
  cases next with
  | none => exact relays_reading _ none
  | some value =>
    exact (build_relays b u (.integer value)).andThen (fun _ _ _ => relays_reading _ none)
      (fun _ _ _ _ h => (stepping_of_making h).append) fun _ _ => stepping_of_making

end Arena

end ValueHeap
