import ValueHeap.Payload
import ValueHeap.Tracker
import ValueHeap.Trace
import ValueHeap.Failure

/-!
# The arena: slots that are filled, referred to and emptied

An arena owns every value built in it. A value occupies a slot together with the count of the
references to it; a count of zero does not empty the slot, only a collection does. An emptied slot
is filled again before a new one is made, the most recently emptied first, and each refill moves
the slot on to its next generation.

* `occupant?` and `generation?` are the view of the slots; each primitive below has one lemma
  that says what it does to `occupant?` (`occupant?_update`, `occupant?_fill`, `occupant?_vacate`);
* `lookup` reads a handle: its arena has to be this one and its generation that of the occupant;
* `live_vacate`, `live_update`: emptying an occupied slot is the only primitive that makes fewer
  live slots.
-/

namespace ValueHeap

/-! ## 1. Slots -/

/-- A value and the number of references to it. -/
structure Occupant where
  count : Nat
  payload : Payload

/-- A slot: how often it has been filled again, and what it holds. -/
structure Cell where
  refills : Nat
  occupant : Option Occupant

/-- The generation of a slot's occupant: the number of refills in 32 bits, which starts over after
    `2 ^ 32` of them. -/
def Cell.generation (c : Cell) : UInt32 := UInt32.ofNat c.refills

/-- The storage of all values built in it. -/
structure Arena where
  id : ArenaId
  cells : Array Cell
  /-- The empty slots, the most recently emptied first. -/
  vacant : List Slot
  tracker : Tracker
  tracer : Tracer
  /-- The containers built since the last garbage collection, in 64 bits. -/
  containersBuilt : UInt64

namespace Arena

def empty (id : ArenaId) (tracker : Tracker) (tracer : Tracer) : Arena :=
  ⟨id, #[], [], tracker, tracer, 0⟩

/-- What a slot holds. -/
def occupant? (a : Arena) (i : Slot) : Option Occupant := a.cells[i]?.bind (·.occupant)

/-- The generation of a slot. -/
def generation? (a : Arena) (i : Slot) : Option UInt32 := a.cells[i]?.map (·.generation)

/-- The number of references to what a slot holds. -/
def count? (a : Arena) (i : Slot) : Option Nat := (a.occupant? i).map (·.count)

/-- The payload of what a slot holds. -/
def payload? (a : Arena) (i : Slot) : Option Payload := (a.occupant? i).map (·.payload)

/-- The slots the value in a slot refers to. -/
def childrenAt (a : Arena) (i : Slot) : List Slot :=
  match a.payload? i with
  | some p => p.children
  | none => []

/-- The occupied slots, in order. -/
def liveSlots (a : Arena) : List Slot :=
  (List.range a.cells.size).filter (fun i => (a.occupant? i).isSome)

/-- The number of occupied slots. -/
def live (a : Arena) : Nat := a.cells.countP (·.occupant.isSome)

/-- Tells the tracer of an event. -/
def note (a : Arena) (e : Event) : Arena := { a with tracer := a.tracer.note e }

@[simp] theorem occupant?_note (a : Arena) (e : Event) (i : Slot) :
    (a.note e).occupant? i = a.occupant? i := rfl

theorem mem_liveSlots {a : Arena} {i : Slot} : i ∈ a.liveSlots ↔ (a.occupant? i).isSome := by
  simp only [liveSlots, List.mem_filter, List.mem_range, and_iff_right_iff_imp]
  intro h
  unfold occupant? at h
  cases hc : a.cells[i]? with
  | none => simp [hc] at h
  | some c => exact (Array.getElem?_eq_some_iff.mp hc).1

/-! ## 2. Changing what occupies a slot -/

/-- Changes the occupant of a slot, where there is one. -/
def update (a : Arena) (i : Slot) (f : Occupant → Occupant) : Arena :=
  { a with cells := a.cells.modify i (fun c => { c with occupant := c.occupant.map f }) }

theorem occupant?_update (a : Arena) (i : Slot) (f : Occupant → Occupant) (j : Slot) :
    (a.update i f).occupant? j = if j = i then (a.occupant? j).map f else a.occupant? j := by
  unfold occupant? update
  simp only [Array.getElem?_modify]
  by_cases h : i = j
  · subst h
    simp only [↓reduceIte]
    cases a.cells[i]? <;> rfl
  · have h' : ¬ j = i := fun e => h e.symm
    simp [h, h']

/-- Empties a slot. The empty slot is the first to be filled again. -/
def vacate (a : Arena) (i : Slot) : Arena :=
  { a with
    cells := a.cells.modify i (fun c => { c with occupant := none })
    vacant := i :: a.vacant }

theorem occupant?_vacate (a : Arena) (i j : Slot) :
    (a.vacate i).occupant? j = if j = i then none else a.occupant? j := by
  unfold occupant? vacate
  simp only [Array.getElem?_modify]
  by_cases h : i = j
  · subst h
    simp only [↓reduceIte]
    cases a.cells[i]? <;> rfl
  · have h' : ¬ j = i := fun e => h e.symm
    simp [h, h']

/-- The slot that is filled next: the one emptied last, or a new one. -/
def nextSlot (a : Arena) : Slot := a.vacant.headD a.cells.size

/-- Fills the next slot. A slot that was used before moves on to its next generation. -/
def fill (a : Arena) (o : Occupant) : Arena :=
  match a.vacant with
  | i :: rest =>
    { a with
      cells := a.cells.modify i (fun c => ⟨c.refills + 1, some o⟩)
      vacant := rest }
  | [] => { a with cells := a.cells.push ⟨0, some o⟩ }

theorem occupant?_fill (a : Arena) (o : Occupant) (j : Slot)
    (h : ∀ i ∈ a.vacant, i < a.cells.size) :
    (a.fill o).occupant? j = if j = a.nextSlot then some o else a.occupant? j := by
  unfold fill nextSlot occupant?
  cases hv : a.vacant with
  | nil =>
    simp only [List.headD_nil, Array.getElem?_push]
    by_cases hj : j = a.cells.size <;> simp [hj]
  | cons i rest =>
    have hi : i < a.cells.size := h i (by simp [hv])
    simp only [List.headD_cons, Array.getElem?_modify]
    by_cases hij : i = j
    · subst hij
      simp [Array.getElem?_eq_getElem hi]
    · have hji : ¬ j = i := fun e => hij e.symm
      simp [hij, hji]

/-! ## 3. The number of live slots -/

/-- A change at one place changes the number of hits at most there. -/
theorem countP_modify {α : Type} (p : α → Bool) (f : α → α) :
    ∀ (l : List α) (i : Nat), (l.modify i f).countP p + (l[i]?.toList.countP p) =
      l.countP p + ((l[i]?.map f).toList.countP p)
  | [], i => by simp
  | x :: l, 0 => by
      simp only [List.modify_zero_cons, List.countP_cons, List.getElem?_cons_zero,
        Option.toList_some, List.countP_nil, Option.map_some]
      omega
  | x :: l, i + 1 => by
      have ih := countP_modify p f l i
      simp only [List.modify_succ_cons, List.countP_cons, List.getElem?_cons_succ]
      omega

theorem live_update (a : Arena) (i : Slot) (f : Occupant → Occupant) :
    (a.update i f).live = a.live := by
  have h := countP_modify (fun c : Cell => c.occupant.isSome)
    (fun c => { c with occupant := c.occupant.map f }) a.cells.toList i
  unfold live update
  rw [← Array.countP_toList, ← Array.countP_toList, Array.toList_modify]
  cases hc : a.cells.toList[i]? with
  | none => simpa [hc] using h
  | some c => simpa [hc] using h

theorem live_vacate (a : Arena) (i : Slot) (h : (a.occupant? i).isSome) :
    (a.vacate i).live + 1 = a.live := by
  have hm := countP_modify (fun c : Cell => c.occupant.isSome)
    (fun c => { c with occupant := none }) a.cells.toList i
  unfold occupant? at h
  unfold live vacate
  rw [← Array.countP_toList, ← Array.countP_toList, Array.toList_modify]
  cases hc : a.cells[i]? with
  | none => simp [hc] at h
  | some c =>
    rw [hc] at h
    have hs : c.occupant.isSome = true := by simpa using h
    simpa [hc, hs] using hm

/-! ## 4. Handles -/

/-- The value a handle names. A handle of another arena is told apart first; then the slot has to
    be occupied, by the occupant the handle was issued for. -/
def lookup (a : Arena) (h : Handle) : Except HeapError Occupant :=
  if h.arena ≠ a.id then .error (.foreign a.id h.arena)
  else
    match a.cells[h.slot]? with
    | some c =>
      match c.occupant with
      | some o => if c.generation = h.generation then .ok o else .error .stale
      | none => .error .stale
    | none => .error .stale

/-- Whether a handle names a value. -/
def resolves (a : Arena) (h : Handle) : Bool := (a.lookup h).isOk

/-- The handle for the occupant of a slot. The caller accounts for the reference. -/
def handleOf (a : Arena) (i : Slot) : Handle := ⟨a.id, i, (a.generation? i).getD 0⟩

/-- The number of references to the value a handle names. -/
def refcount (a : Arena) (h : Handle) : Except HeapError Nat := (a.lookup h).map (·.count)

theorem occupant?_of_lookup {a : Arena} {h : Handle} {o : Occupant} (e : a.lookup h = .ok o) :
    a.occupant? h.slot = some o := by
  unfold lookup at e
  split at e
  · cases e
  · split at e
    · rename_i c hc
      split at e
      · rename_i o' ho
        split at e
        · cases e
          simp [occupant?, hc, ho]
        · cases e
      · cases e
    · cases e

/-! ## 5. References -/

/-- Adds a reference to the value in a slot; `none` if there is no value. -/
def retain? (a : Arena) (i : Slot) : Option Arena :=
  match a.occupant? i with
  | some _ => some (a.update i (fun o => { o with count := o.count + 1 }))
  | none => none

/-- Takes a reference from the value in a slot without a word: the value that held it is gone. A
    count of zero stays zero. -/
def unlink (a : Arena) (i : Slot) : Arena :=
  match a.occupant? i with
  | some _ => a.update i (fun o => { o with count := o.count - 1 })
  | none => a

/-- Takes a reference from the value in a slot, and says so. The slot stays occupied. -/
def giveBack (a : Arena) (i : Slot) : Arena :=
  match a.occupant? i with
  | some o => (a.unlink i).note (.release i (o.count - 1))
  | none => a

/-- Replaces the payload in a slot. -/
def setPayload (a : Arena) (i : Slot) (p : Payload) : Arena :=
  a.update i (fun o => { o with payload := p })

/-- Gives back the reference a handle stands for. A handle that names no value has none to give. -/
def release (a : Arena) (h : Handle) : Arena :=
  match a.lookup h with
  | .ok _ => a.giveBack h.slot
  | .error _ => a

def releaseAll (a : Arena) (hs : List Handle) : Arena := hs.foldl release a

def giveBackAll (a : Arena) (is : List Slot) : Arena := is.foldl giveBack a

end Arena

end ValueHeap
