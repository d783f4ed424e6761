import ValueHeap.Proofs.World

/-!
# Twins: arenas that differ in identity and in tracker

An arena's identity only shows in its handles, and its tracker only in what it refuses, suggests and
reports. So two arenas that hold the same slots go on doing so under the same calls, as long as
handles are renamed on their way from one to the other and the trackers agree on what they refuse.

* `Renaming`: one identity for another, in handles, errors, calls and answers;
* `Likeness`: which trackers stand for each other, and what the second of them reports;
* `Twin`: the same slots, the same order of empty slots, the same events, like trackers;
* `Outcome.Mirrors`: if the first operation stays within range, the second answers the same and
  leaves a twin; one lemma for each operation;
* **`perform_mirrors`**, **`copyTo_mirrors`**: so it is for every call and every copy.
-/

namespace ValueHeap

open Arena

/-! ## 1. Renaming -/

/-- One identity for another, never the same for two. -/
structure Renaming where
  identity : ArenaId → ArenaId
  injective : ∀ {x y : ArenaId}, identity x = identity y → x = y

namespace Renaming

variable {α β γ : Type} (ρ : Renaming)

/-- A handle to the same slot in the arena under the other name. -/
def handle (h : Handle) : Handle := { h with arena := ρ.identity h.arena }

/-- Only the error about a foreign handle names arenas. -/
def error : HeapError → HeapError
  | .foreign expected found => .foreign (ρ.identity expected) (ρ.identity found)
  | e => e

/-- A fault about a handle carries the error with it. -/
def fault : Fault → Fault
  | .badHandle question cause => .badHandle question (ρ.error cause)
  | f => f

def failure : Failure → Failure
  | .error e => .error (ρ.error e)
  | .fault f => .fault (ρ.fault f)

/-- An answer changed by `f`, or a failure renamed. -/
def reply (f : α → β) : Except Failure α → Except Failure β
  | .ok x => .ok (f x)
  | .error e => .error (ρ.failure e)

/-- The call with its handles renamed. -/
def call : Call → Call
  | .buildList items => .buildList (items.map ρ.handle)
  | .buildTuple items => .buildTuple (items.map ρ.handle)
  | .buildView dict => .buildView (ρ.handle dict)
  | .buildBoundName owner name => .buildBoundName (ρ.handle owner) name
  | .copy h => .copy (ρ.handle h)
  | .clone h => .clone (ρ.handle h)
  | .release h => .release (ρ.handle h)
  | .assign h s => .assign (ρ.handle h) s
  | .append list item => .append (ρ.handle list) (ρ.handle item)
  | .insertEntry dict key item => .insertEntry (ρ.handle dict) key (ρ.handle item)
  | .bindMember table name item => .bindMember (ρ.handle table) name (ρ.handle item)
  | .stepIterator iterator => .stepIterator (ρ.handle iterator)
  | .item sequence index => .item (ρ.handle sequence) index
  | .entry dict key => .entry (ρ.handle dict) key
  | .member table name => .member (ρ.handle table) name
  | .ownerOf bound => .ownerOf (ρ.handle bound)
  | .entriesOf view => .entriesOf (ρ.handle view)
  | .nextValue iterator => .nextValue (ρ.handle iterator)
  | .sweep roots => .sweep (roots.map ρ.handle)
  | .payloadAs wanted h => .payloadAs wanted (ρ.handle h)
  | .hasKey dict key => .hasKey (ρ.handle dict) key
  | .hasMember table name => .hasMember (ρ.handle table) name
  | .refcount h => .refcount (ρ.handle h)
  | .resolves h => .resolves (ρ.handle h)
  | .exportDocument h => .exportDocument (ρ.handle h)
  | .writeValue h s => .writeValue (ρ.handle h) s
  | .kindOf h => .kindOf (ρ.handle h)
  | .iterable h => .iterable (ρ.handle h)
  | .callable h => .callable (ρ.handle h)
  | .generates h => .generates (ρ.handle h)
  | .truth h => .truth (ρ.handle h)
  | .equalValues x y => .equalValues (ρ.handle x) (ρ.handle y)
  | .greater x y => .greater (ρ.handle x) (ρ.handle y)
  | .atLeast x y => .atLeast (ρ.handle x) (ρ.handle y)
  | c => c

/-- The answer with its handles renamed and the reported accounts changed by `shows`. -/
def answer (shows : Option Usage → Option Usage) : Answer → Answer
  | .handle h => .handle (ρ.handle h)
  | .found h => .found (h.map ρ.handle)
  | .entries hs => .entries (hs.map fun p => (p.1, ρ.handle p.2))
  | .snapshot s => .snapshot { s with usage := shows s.usage }
  | x => x

/-- Renaming arenas leaves the slots. -/
theorem slots_handles (hs : List Handle) : (hs.map ρ.handle).map (·.slot) = hs.map (·.slot) := by
  rw [List.map_map]
  rfl

end Renaming

/-! ## 2. Like trackers -/

/-- **Which trackers stand for each other**: those that refuse the same and suggest collections
    alike, now and later. What is said of a charge holds unless the first tracker's counters leave
    their range. -/
structure Likeness where
  like : Tracker → Tracker → Prop
  /-- What the second reports, from what the first reports. -/
  shows : Option Usage → Option Usage
  charge : ∀ {t u : Tracker} (n : Nat), like t u → (t.charge n).1 ≠ .overflowed →
    (u.charge n).1 = (t.charge n).1 ∧ like (t.charge n).2 (u.charge n).2
  refund : ∀ {t u : Tracker} (n : Nat), like t u → like (t.refund n) (u.refund n)
  interval : ∀ {t u : Tracker}, like t u → u.interval = t.interval
  reported : ∀ {t u : Tracker}, like t u → u.reported? = shows t.reported?

namespace Arena

variable {ρ : Renaming} {X Y : Likeness} {a a' b b' : Arena} {α β γ δ : Type}

/-! ## 3. Twins -/

/-- **The second arena is the first under another identity and with a like tracker.** -/
structure Twin (ρ : Renaming) (X : Likeness) (a a' : Arena) : Prop where
  id : a'.id = ρ.identity a.id
  cells : a'.cells = a.cells
  vacant : a'.vacant = a.vacant
  tracker : X.like a.tracker a'.tracker
  tracer : a'.tracer = a.tracer
  containersBuilt : a'.containersBuilt = a.containersBuilt

/-- **Two new arenas are twins** if their trackers are alike. -/
theorem twin_empty (id : ArenaId) {t u : Tracker} (h : X.like t u) (tracer : Tracer) :
    Twin ρ X (empty id t tracer) (empty (ρ.identity id) u tracer) :=
  ⟨rfl, rfl, rfl, h, rfl, rfl⟩

namespace Twin

/-- The cells are equal, so everything is that is read off them. -/
theorem occupant? (h : Twin ρ X a a') (i : Slot) : a'.occupant? i = a.occupant? i := by
  unfold Arena.occupant?
  rw [h.cells]

theorem payload? (h : Twin ρ X a a') (i : Slot) : a'.payload? i = a.payload? i := by
  unfold Arena.payload?
  rw [h.occupant?]

theorem count? (h : Twin ρ X a a') (i : Slot) : a'.count? i = a.count? i := by
  unfold Arena.count?
  rw [h.occupant?]

theorem childrenAt (h : Twin ρ X a a') : a'.childrenAt = a.childrenAt := by
  funext i
  unfold Arena.childrenAt
  rw [h.payload?]

theorem liveSlots (h : Twin ρ X a a') : a'.liveSlots = a.liveSlots := by
  unfold Arena.liveSlots
  rw [h.cells]
  exact List.filter_congr fun i _ => by rw [h.occupant?]

theorem live (h : Twin ρ X a a') : a'.live = a.live := by
  unfold Arena.live
  rw [h.cells]

theorem nextSlot (h : Twin ρ X a a') : a'.nextSlot = a.nextSlot := by
  unfold Arena.nextSlot
  rw [h.cells, h.vacant]

/-- Twins issue handles to the same slot and generation, each under its own name. -/
theorem handleOf (h : Twin ρ X a a') (i : Slot) : a'.handleOf i = ρ.handle (a.handleOf i) := by
  unfold Arena.handleOf Arena.generation?
  rw [h.cells, h.id]
  rfl

/-- **A renamed handle names what the handle names.** -/
theorem lookup (h : Twin ρ X a a') (x : Handle) :
    a'.lookup (ρ.handle x) = (a.lookup x).mapError ρ.error := by
  unfold Arena.lookup
  rw [h.id, h.cells]
  -- a renaming must not make a foreign handle one of the arena's own
  have hid : (ρ.handle x).arena ≠ ρ.identity a.id ↔ x.arena ≠ a.id :=
    not_congr ⟨ρ.injective, congrArg ρ.identity⟩
  by_cases hx : x.arena ≠ a.id
  · rw [if_pos hx, if_pos (hid.mpr hx)]
    rfl
  · rw [if_neg hx, if_neg (hid.not.mpr hx)]
    dsimp only [Renaming.handle]
    cases a.cells[x.slot]? with
    | none => rfl
    | some c =>
      cases hc : c.occupant with
      | none => simp only [hc]; rfl
      | some o =>
        simp only [hc]
        show (if c.generation = x.generation then _ else _) = _
        split <;> rfl

/-- A handle names a value in one twin if it does, renamed, in the other. -/
theorem resolves (h : Twin ρ X a a') (x : Handle) : a'.resolves (ρ.handle x) = a.resolves x := by
  unfold Arena.resolves
  rw [h.lookup]
  cases a.lookup x <;> rfl

theorem follow (h : Twin ρ X a a') (i : Slot) : a'.follow i = a.follow i := by
  unfold Arena.follow
  rw [h.cells]

/-! ## 4. Changes -/

/-- **Changes to the cells are the same changes.** -/
theorem update (h : Twin ρ X a a') (i : Slot) (f : Occupant → Occupant) :
    Twin ρ X (a.update i f) (a'.update i f) :=
  { h with cells := congrArg (·.modify i fun c => { c with occupant := c.occupant.map f }) h.cells }

theorem setPayload (h : Twin ρ X a a') (i : Slot) (p : Payload) :
    Twin ρ X (a.setPayload i p) (a'.setPayload i p) := h.update i _

theorem note (h : Twin ρ X a a') (e : Event) : Twin ρ X (a.note e) (a'.note e) :=
  { h with tracer := congrArg (·.note e) h.tracer }

/-- What is done to both tracers alike leaves them alike. -/
theorem retrace (h : Twin ρ X a a') (f : Tracer → Tracer) :
    Twin ρ X { a with tracer := f a.tracer } { a' with tracer := f a'.tracer } :=
  { h with tracer := congrArg f h.tracer }

/-- Trackers may be replaced by trackers that are alike. -/
theorem setTracker (h : Twin ρ X a a') {t u : Tracker} (ht : X.like t u) :
    Twin ρ X { a with tracker := t } { a' with tracker := u } := { h with tracker := ht }

theorem vacate (h : Twin ρ X a a') (i : Slot) : Twin ρ X (a.vacate i) (a'.vacate i) :=
  { h with
    cells := congrArg (·.modify i fun c => { c with occupant := none }) h.cells
    vacant := congrArg (i :: ·) h.vacant }

/-- The count of containers depends on the kind only. -/
theorem countBuilt (h : Twin ρ X a a') (k : Kind) :
    Twin ρ X (a.countBuilt k) (a'.countBuilt k) :=
  { h with
    containersBuilt := congrArg (· + if k.holdsReferences then 1 else 0) h.containersBuilt }

theorem recount (h : Twin ρ X a a') :
    Twin ρ X { a with containersBuilt := 0 } { a' with containersBuilt := 0 } :=
  { h with containersBuilt := rfl }

/-- The next slot is the same, and its generation moves on in both. -/
theorem fill (h : Twin ρ X a a') (o : Occupant) : Twin ρ X (a.fill o) (a'.fill o) := by
  unfold Arena.fill
  rw [h.vacant]
  cases a.vacant with
  | nil => exact { h with cells := congrArg (·.push ⟨0, some o⟩) h.cells, vacant := rfl }
  | cons i rest =>
    exact { h with
      cells := congrArg (·.modify i fun c => ⟨c.refills + 1, some o⟩) h.cells
      vacant := rfl }

theorem unlink (h : Twin ρ X a a') (i : Slot) : Twin ρ X (a.unlink i) (a'.unlink i) := by
  unfold Arena.unlink
  rw [h.occupant?]
  cases a.occupant? i with
  | none => exact h
  | some o => exact h.update i _

/-- Both tracers hear of the same count. -/
theorem giveBack (h : Twin ρ X a a') (i : Slot) : Twin ρ X (a.giveBack i) (a'.giveBack i) := by
  unfold Arena.giveBack
  rw [h.occupant?]
  cases a.occupant? i with
  | none => exact h
  | some o => exact (h.unlink i).note _

theorem giveBackAll (is : List Slot) (h : Twin ρ X a a') :
    Twin ρ X (a.giveBackAll is) (a'.giveBackAll is) := by
  induction is generalizing a a' with
  | nil => exact h
  | cons i is ih => exact ih (h.giveBack i)

theorem giveBackReplaced (h : Twin ρ X a a') (previous : Option Slot) :
    Twin ρ X (a.giveBackReplaced previous) (a'.giveBackReplaced previous) := by
  cases previous with
  | none => exact h
  | some i => exact h.giveBack i

/-- A handle that names nothing here names nothing there. -/
theorem release (h : Twin ρ X a a') (x : Handle) :
    Twin ρ X (a.release x) (a'.release (ρ.handle x)) := by
  unfold Arena.release
  rw [h.lookup]
  cases a.lookup x with
  | error e => exact h
  | ok o => exact h.giveBack x.slot

theorem releaseAll (hs : List Handle) (h : Twin ρ X a a') :
    Twin ρ X (a.releaseAll hs) (a'.releaseAll (hs.map ρ.handle)) := by
  induction hs generalizing a a' with
  | nil => exact h
  | cons x hs ih => exact ih (h.release x)

/-- A slot is emptied in both or in none. -/
theorem free? (h : Twin ρ X a a') (i : Slot) :
    (a.free? i = none ∧ a'.free? i = none) ∨
      ∃ p b b', a.free? i = some (p, b) ∧ a'.free? i = some (p, b') ∧ Twin ρ X b b' := by
  unfold Arena.free?
  rw [h.occupant?]
  cases a.occupant? i with
  | none => exact .inl ⟨rfl, rfl⟩
  | some o =>
    refine .inr ⟨_, _, _, rfl, rfl, ?_⟩
    exact ((h.setTracker (X.refund _ h.tracker)).vacate i).note _

/-- The same values are taken out of both, in the same order. -/
theorem freeAll (is : List Slot) (h : Twin ρ X a a') :
    (a'.freeAll is).1 = (a.freeAll is).1 ∧ Twin ρ X (a.freeAll is).2 (a'.freeAll is).2 := by
  induction is generalizing a a' with
  | nil => exact ⟨rfl, h⟩
  | cons i is ih =>
    unfold Arena.freeAll
    obtain ⟨e, e'⟩ | ⟨p, b, b', e, e', hb⟩ := h.free? i
    · rw [e, e']
      exact ih h
    · rw [e, e']
      exact ⟨congrArg (p :: ·) (ih hb).1, (ih hb).2⟩

/-- The same slots come to a count of zero, in the same order. -/
theorem unlinkAll (children pending : List Slot) (h : Twin ρ X a a') :
    (a'.unlinkAll children pending).2 = (a.unlinkAll children pending).2 ∧
      Twin ρ X (a.unlinkAll children pending).1 (a'.unlinkAll children pending).1 := by
  induction children generalizing a a' pending with
  | nil => exact ⟨rfl, h⟩
  | cons c children ih =>
    unfold Arena.unlinkAll
    dsimp only
    rw [(h.unlink c).count?]
    exact ih _ (h.unlink c)

/-- **A collection by counts takes the same rounds**, by the recursion of the cascade. -/
theorem cascade (freed : Nat) (pending : List Slot) (h : Twin ρ X a a') :
    (a'.cascade freed pending).1 = (a.cascade freed pending).1 ∧
      Twin ρ X (a.cascade freed pending).2 (a'.cascade freed pending).2 := by
  fun_induction Arena.cascade a freed pending generalizing a' with
  | case1 a freed =>
    rw [Arena.cascade]
    exact ⟨rfl, h⟩
  | case2 a freed i pending hn ih =>
    -- the slot is empty in the twin as well
    obtain ⟨_, e'⟩ | ⟨p, b, b', e, _, _⟩ := h.free? i
    · rw [cascade_vacant e']
      exact ih h
    · rw [hn] at e
      cases e
  | case3 a freed i pending p b hf ih =>
    obtain ⟨e, _⟩ | ⟨p', c, b', e, e', hb⟩ := h.free? i
    · rw [hf] at e
      cases e
    · rw [hf] at e
      cases e
      obtain ⟨hp, ht⟩ := unlinkAll p.children pending hb
      rw [cascade_emptied e', hp]
      exact ih ht

theorem reclaim (h : Twin ρ X a a') :
    a'.reclaim.1 = a.reclaim.1 ∧ Twin ρ X a.reclaim.2 a'.reclaim.2 := by
  have hu : a'.unreferenced = a.unreferenced := by
    unfold unreferenced
    rw [h.cells]
    exact List.filter_congr fun i _ => by rw [h.count?]
  obtain ⟨hn, ht⟩ := h.cascade 0 a.unreferenced.reverse
  unfold Arena.reclaim
  rw [hu]
  refine ⟨hn, ?_⟩
  dsimp only
  rw [hn, ht.live]
  exact ht.note _

/-- Renamed roots lead to the same slots. -/
theorem reachable (h : Twin ρ X a a') (roots : List Handle) :
    a'.reachable (roots.map ρ.handle) = a.reachable roots := by
  unfold Arena.reachable
  rw [h.childrenAt, h.liveSlots, List.filter_map, ρ.slots_handles]
  exact congrArg (fun l => reach a.childrenAt a.liveSlots (List.map (·.slot) l))
    (List.filter_congr fun x _ => h.resolves x)

end Twin

/-! ## 5. Outcomes -/

namespace Outcome

variable {f : α → γ} {r : Outcome α} {r' : Outcome γ}

/-- **What the twin of an operation does**: unless the operation leaves the range of a counter, its
    twin answers what `f` and the renaming make of the answer, and leaves a twin. -/
def Mirrors (ρ : Renaming) (X : Likeness) (f : α → γ) (r : Outcome α) (r' : Outcome γ) : Prop :=
  r.fault? ≠ some .counterOverflow →
    r'.answer = ρ.reply f r.answer ∧ Twin ρ X r.arena r'.arena

theorem mirrors_ok (h : Twin ρ X a a') (x : α) : Mirrors ρ X f (ok x a) (ok (f x) a') :=
  fun _ => ⟨rfl, h⟩

theorem mirrors_error (h : Twin ρ X a a') (e : HeapError) :
    Mirrors ρ X f (error e a) (error (ρ.error e) a') := fun _ => ⟨rfl, h⟩

theorem mirrors_fault (h : Twin ρ X a a') (g : Fault) :
    Mirrors ρ X f (fault g a) (fault (ρ.fault g) a') := fun _ => ⟨rfl, h⟩

/-- **Operations in sequence** are mirrored if each of them is, on whatever twins the first
    leaves. -/
theorem Mirrors.andThen {g : β → δ} {next : α → Arena → Outcome β}
    {next' : γ → Arena → Outcome δ} (h : Mirrors ρ X f r r')
    (n : ∀ x b b', Twin ρ X b b' → Mirrors ρ X g (next x b) (next' (f x) b')) :
    Mirrors ρ X g (r.andThen next) (r'.andThen next') := by
  obtain ⟨(e | e) | x, b⟩ := r <;> obtain ⟨answer, b'⟩ := r' <;> intro hr
  · obtain ⟨rfl, ht⟩ := h hr
    exact ⟨rfl, ht⟩
  · obtain ⟨rfl, ht⟩ := h hr
    exact ⟨rfl, ht⟩
  · obtain ⟨rfl, ht⟩ := h fun k => by cases k
    exact n x b b' ht hr

/-- Cleaning up is mirrored if it keeps twins. -/
theorem Mirrors.onError {clean clean' : Arena → Arena} (h : Mirrors ρ X f r r')
    (n : ∀ b b', Twin ρ X b b' → Twin ρ X (clean b) (clean' b')) :
    Mirrors ρ X f (r.onError clean) (r'.onError clean') := by
  obtain ⟨(e | e) | x, b⟩ := r <;> obtain ⟨answer, b'⟩ := r' <;> intro hr
  · obtain ⟨rfl, ht⟩ := h fun k => by cases k
    exact ⟨rfl, n b b' ht⟩
  · obtain ⟨rfl, ht⟩ := h hr
    exact ⟨rfl, ht⟩
  · obtain ⟨rfl, ht⟩ := h hr
    exact ⟨rfl, ht⟩

/-- Another form of the answers, on both sides. -/
theorem Mirrors.map {g : β → δ} {k : α → β} {k' : γ → δ} (h : Mirrors ρ X f r r')
    (hk : ∀ x, k' (f x) = g (k x)) : Mirrors ρ X g (r.map k) (r'.map k') := by
  obtain ⟨(e | e) | x, b⟩ := r <;> obtain ⟨answer, b'⟩ := r' <;> intro hr
  · obtain ⟨rfl, ht⟩ := h fun k => by cases k
    exact ⟨rfl, ht⟩
  · obtain ⟨rfl, ht⟩ := h hr
    exact ⟨rfl, ht⟩
  · obtain ⟨rfl, ht⟩ := h fun k => by cases k
    exact ⟨congrArg Except.ok (hk x), ht⟩

/-- What only reads mirrors if the readings do. -/
theorem mirrors_ofAnswer (h : Twin ρ X a a') {x x' : Except HeapError α}
    (e : x' = x.mapError ρ.error) :
    Mirrors ρ X (fun y => y) (ofAnswer x a) (ofAnswer x' a') := by
  subst e
  cases x with
  | error e => exact mirrors_error h e
  | ok x => exact mirrors_ok h x

theorem mirrors_ofAsk (h : Twin ρ X a a') {x x' : Except Fault α} (e : x' = x.mapError ρ.fault) :
    Mirrors ρ X (fun y => y) (ofAsk x a) (ofAsk x' a') := by
  subst e
  cases x with
  | error e => exact mirrors_fault h e
  | ok x => exact mirrors_ok h x

end Outcome

open Outcome

/-! ## 6. Reading -/

theorem map_mapError {ε ε' : Type} (f : α → β) (g : ε → ε') (x : Except ε α) :
    (x.mapError g).map f = (x.map f).mapError g := by
  cases x <;> rfl

/-- No identity is part of why a reference leads nowhere. -/
theorem fault_follow (ρ : Renaming) {i : Slot} {g : Fault} (h : a.follow i = .error g) :
    ρ.fault g = g := by
  unfold follow at h
  split at h <;> cases h <;> rfl

/-- Nor is one part of why bytes are no value. -/
theorem error_readPayload (ρ : Renaming) {s t : ByteStream} {e : HeapError}
    (h : s.readPayload = (.error e, t)) : ρ.error e = e := by
  unfold ByteStream.readPayload at h
  split at h
  · cases h
    rfl
  · split at h <;> cases h
    rfl
  · split at h <;> cases h
    rfl
  · cases h
    rfl

/-- Nor of why a value cannot be copied. -/
theorem fault_copyParts (ρ : Renaming) {root : Slot} {g : Fault}
    (h : a.copyParts root = .error g) : ρ.fault g = g := by
  unfold copyParts at h
  dsimp only at h
  split at h
  · rename_i f hf
    cases h
    obtain ⟨i, _, hi⟩ := List.exists_of_findSome?_eq_some hf
    unfold dangling? at hi
    split at hi
    · cases hi
    · rename_i f' hf'
      cases hi
      exact fault_follow ρ hf'
  · cases h

theorem mapError_map (ρ : Renaming) (f : β → γ) {x : Except Failure β}
    (hx : x.mapError ρ.failure = x) : (x.map f).mapError ρ.failure = x.map f := by
  cases x with
  | ok y => rfl
  | error e => exact congrArg Except.error (Except.error.inj hx)

/-- Exporting the items of a value names no arena if exporting each of them does not. -/
theorem mapError_exportAll (ρ : Renaming) {f : β → Except Failure γ} {l : List β}
    (hf : ∀ x ∈ l, (f x).mapError ρ.failure = f x) :
    (exportAll f l).mapError ρ.failure = exportAll f l := by
  induction l with
  | nil => rfl
  | cons x rest ih =>
    have hx := hf x List.mem_cons_self
    have hrest := ih fun y hy => hf y (List.mem_cons_of_mem x hy)
    unfold exportAll
    cases hfx : f x with
    | error e =>
      rw [hfx] at hx
      exact congrArg Except.error (Except.error.inj hx)
    | ok y =>
      dsimp only
      cases he : exportAll f rest with
      | error e =>
        rw [he] at hrest
        exact congrArg Except.error (Except.error.inj hrest)
      | ok ys => rfl

/-- A value is refused as a document for what the slots hold, and no identity is part of that. -/
theorem mapError_exportSlot (ρ : Renaming) (a : Arena) (levels : Nat) (i : Slot) :
    (a.exportSlot levels i).mapError ρ.failure = a.exportSlot levels i := by
  induction levels generalizing i with
  | zero => rfl
  | succ levels ih =>
    unfold exportSlot
    cases hp : a.follow i with
    | error g => exact congrArg (fun g => Except.error (Failure.fault g)) (fault_follow ρ hp)
    | ok p =>
      cases p with
      | list items => exact mapError_map ρ _ (mapError_exportAll ρ fun k _ => ih k)
      | tuple items => exact mapError_map ρ _ (mapError_exportAll ρ fun k _ => ih k)
      | dictionary entries =>
        exact mapError_map ρ _ (mapError_exportAll ρ fun q _ => mapError_map ρ _ (ih q.2))
      | float x =>
        dsimp only
        split <;> rfl
      | _ => rfl

namespace Twin

variable (h : Twin ρ X a a')

include h

theorem payloadAs (wanted : Kind) (x : Handle) :
    a'.payloadAs wanted (ρ.handle x) = (a.payloadAs wanted x).mapError ρ.error := by
  unfold Arena.payloadAs
  rw [h.lookup]
  cases a.lookup x with
  | error e => rfl
  | ok o =>
    dsimp only [Except.mapError]
    split <;> rfl

/-- **Reading answers the same**, with the names of arenas in its errors changed. -/
theorem read {wanted : Kind} {pick : Payload → Option α} (x : Handle) :
    a'.read wanted pick (ρ.handle x) = (a.read wanted pick x).mapError ρ.error := by
  unfold Arena.read
  rw [h.lookup]
  cases a.lookup x with
  | error e => rfl
  | ok o =>
    dsimp only [Except.mapError]
    cases pick o.payload <;> rfl

theorem readSequence (x : Handle) :
    a'.readSequence (ρ.handle x) = (a.readSequence x).mapError ρ.error := by
  unfold Arena.readSequence
  rw [h.lookup]
  cases a.lookup x with
  | error e => rfl
  | ok o =>
    obtain ⟨n, p⟩ := o
    cases p <;> rfl

theorem hasKey (dict : Handle) (key : String) :
    a'.hasKey (ρ.handle dict) key = (a.hasKey dict key).mapError ρ.error := by
  unfold Arena.hasKey readDictionary
  rw [h.read]
  exact map_mapError _ _ _

theorem hasMember (table : Handle) (name : String) :
    a'.hasMember (ρ.handle table) name = (a.hasMember table name).mapError ρ.error := by
  unfold Arena.hasMember readModule
  rw [h.read]
  exact map_mapError _ _ _

theorem refcount (x : Handle) :
    a'.refcount (ρ.handle x) = (a.refcount x).mapError ρ.error := by
  unfold Arena.refcount
  rw [h.lookup]
  exact map_mapError _ _ _

/-- Questions about a value that is there answer the same; a bad handle is a fault about it. -/
theorem ask (question : Question) (x : Handle) :
    a'.ask question (ρ.handle x) = (a.ask question x).mapError ρ.fault := by
  unfold Arena.ask
  rw [h.lookup]
  cases a.lookup x <;> rfl

theorem ask_map (question : Question) (f : Payload → α) (x : Handle) :
    (a'.ask question (ρ.handle x)).map f = ((a.ask question x).map f).mapError ρ.fault := by
  rw [h.ask]
  exact map_mapError _ _ _

theorem askTwo (question : Question) (test : Payload → Payload → Bool) (x y : Handle) :
    a'.askTwo question test (ρ.handle x) (ρ.handle y) =
      (a.askTwo question test x y).mapError ρ.fault := by
  unfold Arena.askTwo
  rw [h.ask, h.ask]
  cases a.ask question x with
  | error e => rfl
  | ok p => cases a.ask question y <;> rfl

theorem exportSlot (levels : Nat) : a'.exportSlot levels = a.exportSlot levels := by
  induction levels with
  | zero => rfl
  | succ levels ih =>
    funext i
    unfold Arena.exportSlot
    rw [h.follow, ih]

/-- A document names no arena; only an error about the handle does. -/
theorem exportDocument (x : Handle) :
    a'.exportDocument (ρ.handle x) = (a.exportDocument x).mapError ρ.failure := by
  unfold Arena.exportDocument
  rw [h.lookup, h.exportSlot]
  cases a.lookup x with
  | error e => rfl
  | ok o => exact (mapError_exportSlot ρ a Document.levels x.slot).symm

theorem writeValue (x : Handle) (s : ByteStream) :
    a'.writeValue (ρ.handle x) s = (a.writeValue x s).mapError ρ.error := by
  unfold Arena.writeValue
  rw [h.lookup]
  cases a.lookup x with
  | error e => rfl
  | ok o =>
    dsimp only [Except.mapError]
    cases o.payload.wireBytes? <;> rfl

/-- The first bad handle is the same one. -/
theorem firstError? (xs : List Handle) :
    a'.firstError? (xs.map ρ.handle) = (a.firstError? xs).map ρ.error := by
  unfold Arena.firstError?
  induction xs with
  | nil => rfl
  | cons x xs ih =>
    rw [List.map_cons, List.findSome?_cons, List.findSome?_cons, h.lookup]
    cases a.lookup x with
    | error e => rfl
    | ok o => exact ih

/-- Trackers that are alike suggest collections at the same counts. -/
theorem shouldCollect : a'.shouldCollect = a.shouldCollect := by
  unfold Arena.shouldCollect
  rw [X.interval h.tracker, h.containersBuilt]

/-- What a snapshot counts is the same; what it says of the tracker is told by the trackers. -/
theorem snapshot : a'.snapshot = { a.snapshot with usage := X.shows a.snapshot.usage } := by
  unfold Arena.snapshot Arena.live Arena.census Arena.liveOfKind
  rw [X.reported h.tracker, h.cells, h.vacant]

theorem dangling? : a'.dangling? = a.dangling? := by
  funext i
  unfold Arena.dangling?
  rw [h.follow]

/-- What a copy is planned to be follows from the cells. -/
theorem copyParts (root : Slot) : a'.copyParts root = a.copyParts root := by
  unfold Arena.copyParts
  rw [h.childrenAt, h.liveSlots, h.dangling?]
  simp only [h.payload?]

/-- Data is compared alike, also with a value of another arena. -/
theorem sameData (k : Twin ρ Y b b') (x y : Handle) (kind : Kind) :
    a'.sameData (ρ.handle x) b' (ρ.handle y) kind =
      (a.sameData x b y kind).mapError ρ.error := by
  unfold Arena.sameData
  rw [h.payloadAs, k.payloadAs]
  cases a.payloadAs kind x with
  | error e => rfl
  | ok p => cases b.payloadAs kind y <;> rfl

end Twin

/-! ## 7. References -/

theorem retain_mirrors (h : Twin ρ X a a') (i : Slot) :
    Mirrors ρ X (fun x => x) (a.retain i) (a'.retain i) := by
  unfold retain retain?
  rw [h.occupant?]
  cases a.occupant? i with
  | none => exact mirrors_fault h .sharedEmptySlot
  | some o => exact mirrors_ok (h.update i _) ()

/-- A new handle to the same slot is issued under either name. -/
theorem handOut_mirrors (h : Twin ρ X a a') (i : Slot) :
    Mirrors ρ X ρ.handle (a.handOut i) (a'.handOut i) := by
  refine (retain_mirrors h i).andThen fun _ b b' k => ?_
  rw [k.handleOf]
  exact mirrors_ok k _

theorem clone_mirrors (h : Twin ρ X a a') (x : Handle) :
    Mirrors ρ X ρ.handle (a.clone x) (a'.clone (ρ.handle x)) := by
  unfold clone
  rw [h.lookup]
  cases a.lookup x with
  | error e => exact mirrors_fault h _
  | ok o => exact handOut_mirrors h x.slot

theorem handOutFound_mirrors (h : Twin ρ X a a') (found : Option Slot) :
    Mirrors ρ X (Option.map ρ.handle) (a.handOutFound found) (a'.handOutFound found) := by
  cases found with
  | none => exact mirrors_ok h none
  | some i => exact (handOut_mirrors h i).andThen fun y _ _ k => mirrors_ok k (some y)

theorem handOutPairs_mirrors (pairs : List (String × Slot)) (h : Twin ρ X a a') :
    Mirrors ρ X (List.map fun p => (p.1, ρ.handle p.2)) (a.handOutPairs pairs)
      (a'.handOutPairs pairs) := by
  induction pairs generalizing a a' with
  | nil => exact mirrors_ok h []
  | cons p pairs ih =>
    exact (handOut_mirrors h p.2).andThen fun y b b' k =>
      (ih k).andThen fun ys c c' l => mirrors_ok l ((p.1, y) :: ys)

/-! ## 8. Building -/

/-- **A slot is filled in both or refused in both**, for the same reason. -/
theorem allocate_mirrors (h : Twin ρ X a a') (p : Payload) (n : Nat) :
    Mirrors ρ X (fun x => x) (a.allocate p n) (a'.allocate p n) := by
  intro hr
  -- like trackers agree on the verdict, unless the first one overflows, which `hr` rules out
  have hc := X.charge p.footprint h.tracker
  unfold allocate at hr ⊢
  dsimp only at hr ⊢
  cases hv : (a.tracker.charge p.footprint).1 with
  | overflowed =>
    rw [hv] at hr
    exact absurd rfl hr
  | refused why =>
    rw [hv] at hc
    obtain ⟨hv', hl⟩ := hc (by rintro ⟨⟩)
    rw [hv']
    exact ⟨rfl, h.setTracker hl⟩
  | accepted =>
    rw [hv] at hc
    obtain ⟨hv', hl⟩ := hc (by rintro ⟨⟩)
    rw [hv', h.nextSlot]
    exact ⟨rfl, (((h.setTracker hl).countBuilt p.kind).fill ⟨n, p⟩).note _⟩

theorem build_mirrors (h : Twin ρ X a a') (p : Payload) :
    Mirrors ρ X ρ.handle (a.build p) (a'.build p) := by
  refine (allocate_mirrors h p 1).andThen fun i b b' k => ?_
  rw [k.handleOf]
  exact mirrors_ok k _

theorem buildHolding_mirrors (h : Twin ρ X a a') (p : Payload) :
    Mirrors ρ X ρ.handle (a.buildHolding p) (a'.buildHolding p) :=
  (build_mirrors h p).onError fun _ _ k => k.giveBackAll p.children

theorem buildRange_mirrors (h : Twin ρ X a a') (start stop step : Int32) :
    Mirrors ρ X ρ.handle (a.buildRange start stop step) (a'.buildRange start stop step) := by
  unfold buildRange
  cases Progression.new? start stop step with
  | none => exact mirrors_error h (.badStep step)
  | some walk => exact build_mirrors h _

/-- A bad item is found at the same place, and the same items are released. -/
theorem buildSequence_mirrors (h : Twin ρ X a a') (make : List Slot → Payload)
    (xs : List Handle) : Mirrors ρ X ρ.handle (a.buildSequence make xs)
      (a'.buildSequence make (xs.map ρ.handle)) := by
  unfold buildSequence
  rw [h.firstError?, ρ.slots_handles]
  cases a.firstError? xs with
  | some e => exact mirrors_error (h.releaseAll xs) e
  | none => exact buildHolding_mirrors h _

theorem buildView_mirrors (h : Twin ρ X a a') (dict : Handle) :
    Mirrors ρ X ρ.handle (a.buildView dict) (a'.buildView (ρ.handle dict)) := by
  unfold buildView readDictionary
  rw [h.read]
  cases a.read .dictionary Payload.asDictionary? dict with
  | error e => exact mirrors_error h e
  | ok entries =>
    exact (retain_mirrors h dict.slot).andThen fun _ _ _ k => buildHolding_mirrors k _

theorem buildBoundName_mirrors (h : Twin ρ X a a') (owner : Handle) (name : String) :
    Mirrors ρ X ρ.handle (a.buildBoundName owner name)
      (a'.buildBoundName (ρ.handle owner) name) := by
  unfold buildBoundName
  rw [h.lookup]
  cases a.lookup owner with
  | error e => exact mirrors_error h e
  | ok o =>
    exact (retain_mirrors h owner.slot).andThen fun _ _ _ k => buildHolding_mirrors k _

/-- A value is read from a stream alike, and the stream is left alike. -/
theorem readValue_mirrors (h : Twin ρ X a a') (s : ByteStream) :
    Mirrors ρ X ρ.handle (a.readValue s).1 (a'.readValue s).1 ∧
      ((a.readValue s).1.fault? ≠ some .counterOverflow →
        (a'.readValue s).2 = (a.readValue s).2) := by
  unfold readValue
  rcases hs : s.readPayload with ⟨e | p, t⟩
  · have hm := mirrors_error (f := ρ.handle) h e
    rw [error_readPayload ρ hs] at hm
    exact ⟨hm, fun _ => rfl⟩
  · have hm := build_mirrors h p
    dsimp only
    -- after an error the stream is put back, otherwise it has moved on
    rcases hb : a.build p with ⟨(e | g) | x, b⟩ <;> rw [hb] at hm
    · obtain ⟨e', ht⟩ := hm (by rintro ⟨⟩)
      rw [e']
      exact ⟨fun _ => ⟨e', ht⟩, fun _ => rfl⟩
    · refine ⟨fun hr => ?_, fun hr => ?_⟩
      all_goals
        obtain ⟨e', ht⟩ := hm hr
        rw [e']
      · exact ⟨e', ht⟩
      · rfl
    · obtain ⟨e', ht⟩ := hm (by rintro ⟨⟩)
      rw [e']
      exact ⟨fun _ => ⟨e', ht⟩, fun _ => rfl⟩

/-! ## 9. Changing values -/

theorem assign_mirrors (h : Twin ρ X a a') (x : Handle) (s : Scalar) :
    Mirrors ρ X (fun x => x) (a.assign x s) (a'.assign (ρ.handle x) s) := by
  unfold assign
  rw [h.payloadAs]
  cases a.payloadAs s.payload.kind x with
  | error e => exact mirrors_error h e
  | ok p => exact mirrors_ok (h.setPayload x.slot s.payload) ()

/-- **What is stored is stored alike**, and what is not is released alike. -/
theorem takeOver_mirrors (h : Twin ρ X a a') (x : Handle) {container : Except HeapError α}
    {store store' : α → Arena} (hs : ∀ y, Twin ρ X (store y) (store' y)) :
    Mirrors ρ X (fun x => x) (a.takeOver x container store)
      (a'.takeOver (ρ.handle x) (container.mapError ρ.error) store') := by
  unfold takeOver
  rw [h.lookup]
  cases a.lookup x with
  | error e => exact mirrors_error (h.release x) e
  | ok o =>
    cases container with
    | error e => exact mirrors_error (h.release x) e
    | ok y => exact mirrors_ok (hs y) ()

theorem append_mirrors (h : Twin ρ X a a') (list x : Handle) :
    Mirrors ρ X (fun x => x) (a.append list x) (a'.append (ρ.handle list) (ρ.handle x)) := by
  unfold append readList
  rw [h.read]
  exact takeOver_mirrors h x fun _ => h.setPayload _ _

theorem insertEntry_mirrors (h : Twin ρ X a a') (dict : Handle) (key : String) (x : Handle) :
    Mirrors ρ X (fun x => x) (a.insertEntry dict key x)
      (a'.insertEntry (ρ.handle dict) key (ρ.handle x)) := by
  unfold insertEntry readDictionary
  rw [h.read]
  exact takeOver_mirrors h x fun _ => (h.setPayload _ _).giveBackReplaced _

theorem bindMember_mirrors (h : Twin ρ X a a') (table : Handle) (name : String) (x : Handle) :
    Mirrors ρ X (fun x => x) (a.bindMember table name x)
      (a'.bindMember (ρ.handle table) name (ρ.handle x)) := by
  unfold bindMember readModule
  rw [h.read]
  exact takeOver_mirrors h x fun _ => (h.setPayload _ _).giveBackReplaced _

theorem stepIterator_mirrors (h : Twin ρ X a a') (iterator : Handle) :
    Mirrors ρ X (fun x => x) (a.stepIterator iterator) (a'.stepIterator (ρ.handle iterator)) := by
  unfold stepIterator readIterator
  rw [h.read]
  cases a.read .iterator Payload.asIterator? iterator with
  | error e => exact mirrors_error h e
  | ok walk =>
    dsimp only [Except.mapError]
    cases walk.next? with
    | none => exact mirrors_ok h none
    | some q => exact mirrors_ok (h.setPayload _ _) (some q.1)

/-- Iterators move alike, also when the new integer is refused. -/
theorem nextValue_mirrors (h : Twin ρ X a a') (iterator : Handle) :
    Mirrors ρ X (Option.map ρ.handle) (a.nextValue iterator)
      (a'.nextValue (ρ.handle iterator)) := by
  refine (stepIterator_mirrors h iterator).andThen fun next b b' k => ?_
  cases next with
  | none => exact mirrors_ok k none
  | some value => exact (build_mirrors k _).andThen fun y _ _ l => mirrors_ok l (some y)

/-! ## 10. Handing out -/

theorem item_mirrors (h : Twin ρ X a a') (sequence : Handle) (index : Nat) :
    Mirrors ρ X (Option.map ρ.handle) (a.item sequence index)
      (a'.item (ρ.handle sequence) index) := by
  unfold item
  rw [h.readSequence]
  cases a.readSequence sequence with
  | error e => exact mirrors_error h e
  | ok items => exact handOutFound_mirrors h _

theorem entry_mirrors (h : Twin ρ X a a') (dict : Handle) (key : String) :
    Mirrors ρ X (Option.map ρ.handle) (a.entry dict key) (a'.entry (ρ.handle dict) key) := by
  unfold entry readDictionary
  rw [h.read]
  cases a.read .dictionary Payload.asDictionary? dict with
  | error e => exact mirrors_error h e
  | ok entries => exact handOutFound_mirrors h _

theorem member_mirrors (h : Twin ρ X a a') (table : Handle) (name : String) :
    Mirrors ρ X (Option.map ρ.handle) (a.member table name)
      (a'.member (ρ.handle table) name) := by
  unfold member readModule
  rw [h.read]
  cases a.read .moduleTable Payload.asModule? table with
  | error e => exact mirrors_error h e
  | ok m => exact handOutFound_mirrors h _

theorem ownerOf_mirrors (h : Twin ρ X a a') (bound : Handle) :
    Mirrors ρ X ρ.handle (a.ownerOf bound) (a'.ownerOf (ρ.handle bound)) := by
  unfold ownerOf readAttr
  rw [h.read]
  cases a.read .attr Payload.asAttr? bound with
  | error e => exact mirrors_error h e
  | ok b => exact handOut_mirrors h b.owner

theorem entriesOf_mirrors (h : Twin ρ X a a') (view : Handle) :
    Mirrors ρ X (List.map fun p => (p.1, ρ.handle p.2)) (a.entriesOf view)
      (a'.entriesOf (ρ.handle view)) := by
  unfold entriesOf readDictItems
  rw [h.read]
  cases a.read .dictItems Payload.asDictItems? view with
  | error e => exact mirrors_error h e
  | ok dict =>
    dsimp only [Except.mapError]
    rw [h.follow]
    cases hf : a.follow dict with
    | error g =>
      have hm := mirrors_fault (f := List.map fun p : String × Handle => (p.1, ρ.handle p.2)) h g
      rwa [fault_follow ρ hf] at hm
    | ok p =>
      cases p with
      | dictionary entries => exact handOutPairs_mirrors _ h
      | _ => exact mirrors_fault h .viewOfNoDictionary

/-! ## 11. Collecting -/

/-- A reference to a slot that is not there ends both collections at the same place. -/
theorem settle_mirrors {slots : Nat} {staying : List Slot} (orphaned : List Slot)
    (h : Twin ρ X a a') :
    Mirrors ρ X (fun x => x) (a.settle slots staying orphaned)
      (a'.settle slots staying orphaned) := by
  induction orphaned generalizing a a' with
  | nil => exact mirrors_ok h ()
  | cons c orphaned ih =>
    unfold settle
    split
    · exact mirrors_fault h (.slotOutOfRange slots c)
    · split
      · exact ih (h.unlink c)
      · exact ih h

/-- **A collection from roots is mirrored** by the one from the renamed roots. -/
theorem sweep_mirrors (h : Twin ρ X a a') (roots : List Handle) :
    Mirrors ρ X (fun x => x) (a.sweep roots) (a'.sweep (roots.map ρ.handle)) := by
  unfold sweep
  rw [h.reachable, h.cells]
  dsimp only
  generalize (List.range a.cells.size).filter (fun i => !(a.reachable roots).contains i) = looked
  obtain ⟨hgone, ht⟩ := h.freeAll looked
  rw [hgone]
  refine (settle_mirrors _ ht).andThen fun _ b b' k => ?_
  rw [k.live]
  exact mirrors_ok (k.recount.note _) _

/-! ## 12. Copying -/

/-- The same slots of a copy are filled until one is refused, and the same are emptied then. -/
theorem fillSlots_mirrors (plan : List (Slot × Payload)) (built : List (Slot × Slot))
    (h : Twin ρ X a a') :
    Mirrors ρ X (fun x => x) (a.fillSlots plan built) (a'.fillSlots plan built) := by
  induction plan generalizing a a' built with
  | nil => exact mirrors_ok h built
  | cons q plan ih =>
    obtain ⟨source, p⟩ := q
    exact ((allocate_mirrors h p 0).onError fun _ _ k => (k.freeAll _).2).andThen
      fun i _ _ k => ih (built ++ [(source, i)]) k

theorem retainAll_mirrors (is : List Slot) (h : Twin ρ X a a') :
    Mirrors ρ X (fun x => x) (a.retainAll is) (a'.retainAll is) := by
  induction is generalizing a a' with
  | nil => exact mirrors_ok h ()
  | cons i is ih => exact (retain_mirrors h i).andThen fun _ _ _ k => ih k

theorem rewire_mirrors (rename : Slot → Slot) (is : List Slot) (h : Twin ρ X a a') :
    Mirrors ρ X (fun x => x) (a.rewire rename is) (a'.rewire rename is) := by
  induction is generalizing a a' with
  | nil => exact mirrors_ok h ()
  | cons i is ih =>
    unfold rewire
    rw [h.follow]
    cases hf : a.follow i with
    | error g =>
      have hm := mirrors_fault (f := fun x : Unit => x) h g
      rwa [fault_follow ρ hf] at hm
    | ok p => exact (retainAll_mirrors _ (h.setPayload i _)).andThen fun _ _ _ k => ih k

/-- Both copies are told of as crossing or as not crossing. -/
theorem wireUp_mirrors (h : Twin ρ X a a') (built : List (Slot × Slot)) (crossing : Bool) :
    Mirrors ρ X ρ.handle (a.wireUp built crossing) (a'.wireUp built crossing) := by
  refine (rewire_mirrors _ _ h).andThen fun _ b b' k => ?_
  cases built with
  | nil => exact mirrors_fault k (.slotOutOfRange 0 0)
  | cons q rest =>
    refine (retain_mirrors k q.2).andThen fun _ c c' l => ?_
    have hn := l.note (.duplicate (q :: rest).length crossing)
    dsimp only
    rw [hn.handleOf]
    exact mirrors_ok hn _

/-- **A copy is the same in twins**, from twins. -/
theorem copyTo_mirrors (h : Twin ρ X a a') (k : Twin ρ Y b b') (x : Handle) (crossing : Bool) :
    Mirrors ρ Y ρ.handle (a.copyTo x b crossing) (a'.copyTo (ρ.handle x) b' crossing) := by
  unfold copyTo
  rw [h.lookup]
  cases a.lookup x with
  | error e => exact mirrors_error k e
  | ok o =>
    dsimp only [Except.mapError]
    rw [show (ρ.handle x).slot = x.slot from rfl, h.copyParts]
    cases hp : a.copyParts x.slot with
    | error g =>
      have hm := mirrors_fault (f := ρ.handle) k g
      rwa [fault_copyParts ρ hp] at hm
    | ok plan =>
      exact (fillSlots_mirrors plan [] k).andThen fun built _ _ l => wireUp_mirrors l built crossing

/-! ## 13. Documents -/

/-- Items are built alike if every document is. -/
theorem buildItems_mirrors {build : Document → Arena → Outcome Handle}
    (hb : ∀ d {b b' : Arena}, Twin ρ X b b' → Mirrors ρ X ρ.handle (build d b) (build d b'))
    (ds : List Document) (built : List Handle) (h : Twin ρ X a a') :
    Mirrors ρ X (List.map ρ.handle) (buildItems build a ds built)
      (buildItems build a' ds (built.map ρ.handle)) := by
  induction ds generalizing a a' built with
  | nil => exact mirrors_ok h built
  | cons d ds ih =>
    refine ((hb d h).onError fun _ _ k => k.releaseAll built).andThen fun x c c' k => ?_
    have hm := ih (built ++ [x]) k
    rwa [List.map_append] at hm

theorem buildMembers_mirrors {build : Document → Arena → Outcome Handle}
    (hb : ∀ d {b b' : Arena}, Twin ρ X b b' → Mirrors ρ X ρ.handle (build d b) (build d b'))
    (dict : Handle) (members : List (String × Document)) (h : Twin ρ X a a') :
    Mirrors ρ X (fun x => x) (buildMembers build dict a members)
      (buildMembers build (ρ.handle dict) a' members) := by
  induction members generalizing a a' with
  | nil => exact mirrors_ok h ()
  | cons m members ih =>
    exact (hb m.2 h).andThen fun x b b' k =>
      (insertEntry_mirrors k dict m.1 x).andThen fun _ c c' l => ih l

/-- **A document is built alike in twins**, however deep. -/
theorem buildTree_mirrors (levels : Nat) (d : Document) (h : Twin ρ X a a') :
    Mirrors ρ X ρ.handle (buildTree levels d a) (buildTree levels d a') := by
  induction levels generalizing d a a' with
  | zero => exact mirrors_error h .tooDeep
  | succ levels ih =>
    cases d with
    | null => exact mirrors_error h (.unrepresentable .null)
    | bool flag => exact build_mirrors h _
    | integer n => exact build_mirrors h _
    | float x => exact build_mirrors h _
    | string text => exact build_mirrors h _
    | array ds =>
      exact (buildItems_mirrors (fun d _ _ k => ih d k) ds [] h).andThen fun xs _ _ k =>
        buildSequence_mirrors k .list xs
    | object members =>
      refine (build_mirrors h (.dictionary .empty)).andThen fun dict b b' k => ?_
      exact ((buildMembers_mirrors (fun d _ _ l => ih d l) dict members k).onError
        fun _ _ l => l.release dict).andThen fun _ _ _ l => mirrors_ok l dict

/-! ## 14. Calls -/

/-- **Every call does in a twin what it does here**, under renamed handles. -/
theorem perform_mirrors (h : Twin ρ X a a') (c : Call) :
    Mirrors ρ X (ρ.answer X.shows) (a.perform c) (a'.perform (ρ.call c)) := by
  cases c with
  | buildScalar s => exact (build_mirrors h _).map fun _ => rfl
  | buildAlias name asName => exact (build_mirrors h _).map fun _ => rfl
  | buildDictionary => exact (build_mirrors h _).map fun _ => rfl
  | buildFunction name params isGenerator => exact (build_mirrors h _).map fun _ => rfl
  | buildBuiltin name => exact (build_mirrors h _).map fun _ => rfl
  | buildModule name => exact (build_mirrors h _).map fun _ => rfl
  | buildHostObject typeName number => exact (build_mirrors h _).map fun _ => rfl
  | buildRange start stop step => exact (buildRange_mirrors h start stop step).map fun _ => rfl
  | buildList items => exact (buildSequence_mirrors h .list items).map fun _ => rfl
  | buildTuple items => exact (buildSequence_mirrors h .tuple items).map fun _ => rfl
  | buildView dict => exact (buildView_mirrors h dict).map fun _ => rfl
  | buildBoundName owner name => exact (buildBoundName_mirrors h owner name).map fun _ => rfl
  | importDocument d => exact (buildTree_mirrors _ d h).map fun _ => rfl
  | readValue s => exact (readValue_mirrors h s).1.map fun _ => rfl
  | copy x => exact (copyTo_mirrors h h x false).map fun _ => rfl
  | clone x => exact (clone_mirrors h x).map fun _ => rfl
  | release x => exact mirrors_ok (h.release x) Answer.done
  | assign x s => exact (assign_mirrors h x s).map fun _ => rfl
  | append list x => exact (append_mirrors h list x).map fun _ => rfl
  | insertEntry dict key x => exact (insertEntry_mirrors h dict key x).map fun _ => rfl
  | bindMember table name x => exact (bindMember_mirrors h table name x).map fun _ => rfl
  | stepIterator iterator => exact (stepIterator_mirrors h iterator).map fun _ => rfl
  | item sequence index => exact (item_mirrors h sequence index).map fun _ => rfl
  | entry dict key => exact (entry_mirrors h dict key).map fun _ => rfl
  | member table name => exact (member_mirrors h table name).map fun _ => rfl
  | ownerOf bound => exact (ownerOf_mirrors h bound).map fun _ => rfl
  | entriesOf view => exact (entriesOf_mirrors h view).map fun _ => rfl
  | nextValue iterator => exact (nextValue_mirrors h iterator).map fun _ => rfl
  | reclaim =>
    obtain ⟨hn, ht⟩ := h.reclaim
    exact fun _ => ⟨congrArg (fun n => Except.ok (Answer.number n)) hn, ht⟩
  | sweep roots => exact (sweep_mirrors h roots).map fun _ => rfl
  | payloadAs wanted x => exact (mirrors_ofAnswer h (h.payloadAs wanted x)).map fun _ => rfl
  | hasKey dict key => exact (mirrors_ofAnswer h (h.hasKey dict key)).map fun _ => rfl
  | hasMember table name => exact (mirrors_ofAnswer h (h.hasMember table name)).map fun _ => rfl
  | refcount x => exact (mirrors_ofAnswer h (h.refcount x)).map fun _ => rfl
  | resolves x => exact fun _ => ⟨congrArg (fun b => Except.ok (Answer.flag b)) (h.resolves x), h⟩
  | exportDocument x =>
    have hm : Mirrors ρ X (fun d => d) ⟨a.exportDocument x, a⟩
        ⟨a'.exportDocument (ρ.handle x), a'⟩ := by
      refine fun _ => ⟨(h.exportDocument x).trans ?_, h⟩
      cases a.exportDocument x <;> rfl
    exact hm.map fun _ => rfl
  | writeValue x s => exact (mirrors_ofAnswer h (h.writeValue x s)).map fun _ => rfl
  | live => exact fun _ => ⟨congrArg (fun n => Except.ok (Answer.number n)) h.live, h⟩
  | shouldCollect =>
    exact fun _ => ⟨congrArg (fun b => Except.ok (Answer.flag b)) h.shouldCollect, h⟩
  | snapshot => exact fun _ => ⟨congrArg (fun s => Except.ok (Answer.snapshot s)) h.snapshot, h⟩
  | kindOf x => exact (mirrors_ofAsk h (h.ask_map .kindOf _ x)).map fun _ => rfl
  | iterable x => exact (mirrors_ofAsk h (h.ask_map .iterable _ x)).map fun _ => rfl
  | callable x => exact (mirrors_ofAsk h (h.ask_map .callable _ x)).map fun _ => rfl
  | generates x => exact (mirrors_ofAsk h (h.ask_map .generates _ x)).map fun _ => rfl
  | truth x => exact (mirrors_ofAsk h (h.ask_map .truth _ x)).map fun _ => rfl
  | equalValues x y =>
    exact (mirrors_ofAsk h (h.askTwo .equalValues Payload.valueEq x y)).map fun _ => rfl
  | greater x y => exact (mirrors_ofAsk h (h.askTwo .greater Payload.greater x y)).map fun _ => rfl
  | atLeast x y => exact (mirrors_ofAsk h (h.askTwo .atLeast Payload.atLeast x y)).map fun _ => rfl

end Arena

end ValueHeap
