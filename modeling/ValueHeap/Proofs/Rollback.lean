import Mathlib.Algebra.GroupWithZero.Nat
import ValueHeap.Snapshot
import ValueHeap.Proofs.Copy
import ValueHeap.Proofs.Compensation

/-!
# The accounts and the trace of a refused copy

A refused copy empties the slots it has filled, so the target holds what it held before
(`Restored`). Here the same is followed through the tracker and the tracer: every slot that was
filled is charged and told of, and when it is emptied its bytes are given back and it is told of
again.

* `Tracker.laden` is a tracker with some bytes more; `charge_accepted`, `refund_laden`: charging
  adds the bytes that a refund takes away;
* **`fillSlots_undone`**: what a refusal leaves of the accounts and of the trace;
* `snapshot_congr`, `Restored.lookup`: so the statistics and the reading of handles stay the same.
-/

namespace ValueHeap

/-! ## 1. Accounts -/

namespace Tracker

/-- The tracker with `n` allocations counted and, if it accounts for memory, `size` bytes more. -/
def laden (t : Tracker) (n size : Nat) : Tracker :=
  match t with
  | unlimited => unlimited
  | lenient limits usage =>
    lenient limits ⟨n, usage.memory + if limits.maxMemory.isSome then size else 0⟩
  | strict limits usage => strict limits ⟨n, usage.memory + size⟩

/-- The tracker with `n` allocations counted; its limits and its memory are the same. -/
def recounted (t : Tracker) (n : Nat) : Tracker :=
  match t with
  | unlimited => unlimited
  | lenient limits usage => lenient limits { usage with allocations := n }
  | strict limits usage => strict limits { usage with allocations := n }

variable {t : Tracker} {m n size more : Nat}

theorem laden_zero : t.laden n 0 = t.recounted n := by
  cases t <;> simp [laden, recounted]

theorem exists_laden_zero (t : Tracker) : ∃ n, t = t.laden n 0 := by
  cases t with
  | unlimited => exact ⟨0, rfl⟩
  | lenient limits usage => exact ⟨usage.allocations, by simp [laden]⟩
  | strict limits usage => exact ⟨usage.allocations, rfl⟩

theorem laden_laden : (t.laden m size).laden n more = t.laden n (size + more) := by
  cases t with
  | unlimited => rfl
  | lenient limits usage => cases h : limits.maxMemory <;> simp [laden, h, Nat.add_assoc]
  | strict limits usage => simp [laden, Nat.add_assoc]

/-- What is accepted is accounted for. -/
theorem charge_accepted (h : (t.charge size).1 = .accepted) :
    ∃ n, (t.charge size).2 = t.laden n size := by
  cases t with
  | unlimited => exact ⟨0, rfl⟩
  | lenient limits usage =>
    cases hc : checkCount limits usage <;> simp only [charge, hc, reduceCtorEq] at h ⊢
    cases hm : checkMemory limits usage size <;> simp only [hm, reduceCtorEq] at h ⊢
    exact ⟨_, rfl⟩
  | strict limits usage =>
    cases hc : checkCount limits usage <;> simp only [charge, hc, reduceCtorEq] at h ⊢
    cases hm : checkMemory limits usage size <;> simp only [hm, reduceCtorEq] at h ⊢
    unfold strictUsage at h ⊢
    split at h
    · split at h
      · rename_i h1 h2
        rw [if_pos h1, if_pos h2]
        exact ⟨_, rfl⟩
      · cases h
    · cases h

/-- A refund takes away what was charged. -/
theorem refund_laden : (t.laden n (size + more)).refund size = t.laden n more := by
  have harith : ∀ memory, memory + (size + more) - size = memory + more := by omega
  cases t with
  | unlimited => rfl
  | lenient limits usage => cases h : limits.maxMemory <;> simp [laden, refund, h, harith]
  | strict limits usage => simp [laden, refund, harith]

end Tracker

/-! ## 2. Slots filled and emptied -/

/-- The events of filling the given slots. -/
def filledEvents (filled : List (Slot × Kind)) : List Event :=
  filled.map fun q => .allocate q.1 q.2

/-- The events of emptying the given slots. -/
def emptiedEvents (filled : List (Slot × Kind)) : List Event := filled.map fun q => .free q.1 q.2

/-- Tells a tracer of some events, in order. -/
def Tracer.noteAll (t : Tracer) (es : List Event) : Tracer := es.foldl note t

theorem Tracer.noteAll_append (t : Tracer) (es fs : List Event) :
    (t.noteAll es).noteAll fs = t.noteAll (es ++ fs) := (List.foldl_append ..).symm

namespace Arena

open Outcome

variable {a b c t : Arena} {ledger : List Handle}

/-- The sizes of some payloads together. -/
def totalSize (filled : List (Slot × Payload)) : Nat := (filled.map fun q => q.2.footprint).sum

theorem totalSize_cons (q : Slot × Payload) (filled : List (Slot × Payload)) :
    totalSize (q :: filled) = q.2.footprint + totalSize filled := List.sum_cons

/-- The slots that hold some payloads, with their kinds. -/
def kinds (filled : List (Slot × Payload)) : List (Slot × Kind) :=
  filled.map fun q => (q.1, q.2.kind)

/-- The given slots have been charged for and told of since `a`. -/
structure Booked (a b : Arena) (filled : List (Slot × Payload)) : Prop where
  holds : ∀ q ∈ filled, b.payload? q.1 = some q.2
  tracker : ∃ n, b.tracker = a.tracker.laden n (totalSize filled)
  tracer : b.tracer = a.tracer.noteAll (filledEvents (kinds filled))

/-- All that was charged since `a` has been given back, and all that was filled told of again. -/
structure Undone (a b : Arena) : Prop where
  tracker : ∃ n, b.tracker = a.tracker.recounted n
  tracer : ∃ filled : List (Slot × Kind), (∀ q ∈ filled, a.occupant? q.1 = none) ∧
    b.tracer = a.tracer.noteAll (filledEvents filled ++ emptiedEvents filled)

theorem booked_start (a : Arena) : Booked a a [] where
  holds q hq := by cases hq
  tracker := a.tracker.exists_laden_zero
  tracer := rfl

/-- Emptying a slot gives back its size and tells of it. -/
theorem free?_of_payload? {i : Slot} {p : Payload} (h : a.payload? i = some p) :
    a.free? i = some (p,
      (({ a with tracker := a.tracker.refund p.footprint } : Arena).vacate i).note
        (.free i p.kind)) := by
  obtain ⟨o, ho, rfl⟩ := Option.map_eq_some_iff.mp h
  unfold free?
  rw [ho]

/-- Emptying slots gives back their sizes and tells of each. -/
theorem freeAll_books (filled : List (Slot × Payload)) (a : Arena) {u : Tracker} {n more : Nat}
    (hp : ∀ q ∈ filled, a.payload? q.1 = some q.2) (hd : (filled.map (·.1)).Nodup)
    (ht : a.tracker = u.laden n (totalSize filled + more)) :
    (a.freeAll (filled.map (·.1))).2.tracker = u.laden n more ∧
      (a.freeAll (filled.map (·.1))).2.tracer =
        a.tracer.noteAll (emptiedEvents (kinds filled)) := by
  induction filled generalizing a with
  | nil =>
    rw [totalSize, List.map_nil, List.sum_nil, Nat.zero_add] at ht
    exact ⟨ht, rfl⟩
  | cons q filled ih =>
    obtain ⟨hn, hd⟩ := List.nodup_cons.mp hd
    have hf := free?_of_payload? (hp q List.mem_cons_self)
    generalize hb : (({ a with tracker := a.tracker.refund q.2.footprint } : Arena).vacate q.1).note
      (.free q.1 q.2.kind) = b at hf
    have hpb : ∀ r ∈ filled, b.payload? r.1 = some r.2 := by
      intro r hr
      have hne : r.1 ≠ q.1 := fun e => hn (List.mem_map.mpr ⟨r, hr, e⟩)
      rw [← hp r (List.mem_cons_of_mem q hr), ← hb]
      exact (revises_vacate _ q.1 r.1).trans (if_neg hne)
    have htb : b.tracker = u.laden n (totalSize filled + more) := by
      rw [totalSize_cons, Nat.add_assoc] at ht
      rw [← hb]
      show a.tracker.refund q.2.footprint = _
      rw [ht, Tracker.refund_laden]
    have hall : (a.freeAll ((q :: filled).map (·.1))).2 = (b.freeAll (filled.map (·.1))).2 := by
      rw [List.map_cons, freeAll, hf]
    obtain ⟨h1, h2⟩ := ih b hpb hd htb
    rw [hall]
    refine ⟨h1, h2.trans ?_⟩
    rw [← hb]
    rfl

/-- **What has been charged and told of is undone by emptying the slots.** -/
theorem Booked.undone {filled : List (Slot × Payload)} (k : Booked a b filled)
    (hd : (filled.map (·.1)).Nodup) (hf : ∀ i ∈ filled.map (·.1), a.occupant? i = none) :
    Undone a (b.freeAll (filled.map (·.1))).2 := by
  obtain ⟨n, hn⟩ := k.tracker
  rw [← Nat.add_zero (totalSize filled)] at hn
  obtain ⟨ht, hr⟩ := freeAll_books filled b k.holds hd hn
  refine ⟨⟨n, ht.trans Tracker.laden_zero⟩, kinds filled, fun q hq => ?_, ?_⟩
  · obtain ⟨r, hm, rfl⟩ := List.mem_map.mp hq
    exact hf r.1 (List.mem_map_of_mem hm)
  · rw [hr, k.tracer, Tracer.noteAll_append]

/-- A slot that is filled is charged for and told of; a refused one is not. -/
theorem allocate_books (a : Arena) (p : Payload) (n : Nat) :
    (a.allocate p n).Ends
      (fun i b => i = a.nextSlot ∧ SameSlots b (a.fill ⟨n, p⟩) ∧
        (∃ m, b.tracker = a.tracker.laden m p.footprint) ∧
        b.tracer = a.tracer.note (.allocate i p.kind))
      (fun b => SameSlots b a ∧ b.tracker = a.tracker ∧ b.tracer = a.tracer)
      fun _ _ => True := by
  unfold allocate
  dsimp only
  split
  · rename_i why h
    exact ⟨⟨rfl, rfl, rfl⟩, Tracker.charge_refused h, rfl⟩
  · trivial
  · rename_i h
    refine ⟨rfl, ?_, ?_, ?_⟩
    · unfold note fill countBuilt
      cases a.vacant <;> exact ⟨rfl, rfl, rfl⟩
    · obtain ⟨m, hm⟩ := Tracker.charge_accepted h
      exact ⟨m, (tracker_fill _ _).trans hm⟩
    · unfold note fill countBuilt
      cases a.vacant <;> rfl

/-- Filling one more slot charges for it and tells of it. -/
theorem Booked.fill {filled : List (Slot × Payload)} {p : Payload} {m : Nat}
    (k : Booked a b filled) (v : b.VacantExact) (hs : SameSlots c (b.fill ⟨0, p⟩))
    (ht : c.tracker = b.tracker.laden m p.footprint)
    (hr : c.tracer = b.tracer.note (.allocate b.nextSlot p.kind)) :
    Booked a c (filled ++ [(b.nextSlot, p)]) := by
  have hp : ∀ j, c.payload? j = if j = b.nextSlot then some p else b.payload? j := fun j =>
    (congrArg (Option.map _) (hs.occupant? j)).trans (revises_fill ⟨0, p⟩ v j)
  refine ⟨fun q hq => ?_, ?_, ?_⟩
  · rcases List.mem_append.mp hq with hq | hq
    · have hne : q.1 ≠ b.nextSlot := fun e => by
        have hocc := occupied_of_payload? (k.holds q hq)
        rw [e, v.nextSlot_vacant] at hocc
        cases hocc
      rw [hp, if_neg hne]
      exact k.holds q hq
    · rw [List.mem_singleton.mp hq, hp, if_pos rfl]
  · obtain ⟨n, hn⟩ := k.tracker
    refine ⟨m, ?_⟩
    rw [ht, hn, Tracker.laden_laden, totalSize, totalSize, List.map_append, List.sum_append]
    rfl
  · rw [hr, k.tracer]
    simp [filledEvents, kinds, Tracer.noteAll]

/-- **A refusal undoes what was charged and told of**, whichever of the slots is refused. -/
theorem fillSlots_undone (rest : List (Slot × Payload)) {plan : List (Slot × Payload)}
    {built : List (Slot × Slot)} {filled : List (Slot × Payload)} (w : Filled a b plan built)
    (k : Booked a b filled) (hf : filled.map (·.1) = built.map (·.2)) :
    (b.fillSlots rest built).Ends (fun _ _ => True) (Undone a) fun _ _ => True := by
  induction rest generalizing b plan built filled with
  | nil => trivial
  | cons q rest ih =>
    obtain ⟨s, p⟩ := q
    refine Ends.andThen (Ends.onError (allocate_books b p 0) fun c hc => ?_) fun i c hc => ?_
    · obtain ⟨hs, ht, hr⟩ := hc
      have kc : Booked a c filled := by
        refine ⟨fun q hq => ?_, ht ▸ k.tracker, hr ▸ k.tracer⟩
        exact (congrArg (Option.map _) (hs.occupant? q.1)).trans (k.holds q hq)
      rw [← hf]
      exact kc.undone (hf ▸ w.nodup) (hf ▸ w.fresh)
    · obtain ⟨rfl, hs, ⟨m, ht⟩, hr⟩ := hc
      refine ih (w.step (s := s) hs) (k.fill w.vacant hs ht hr) ?_
      rw [List.map_append, List.map_append, hf]
      rfl

theorem undone_refl (a : Arena) : Undone a a := by
  obtain ⟨n, hn⟩ := a.tracker.exists_laden_zero
  exact ⟨⟨n, hn.trans Tracker.laden_zero⟩, [], List.forall_mem_nil _, rfl⟩

/-- **A copy is made or undone**, in the accounts and in the trace. -/
theorem copyTo_undone {h : Handle} (co : a.Coherent ledger []) (v : t.VacantExact)
    (crossing : Bool) :
    (a.copyTo h t crossing).Ends (fun _ _ => True) (Undone t) fun _ _ => True := by
  unfold copyTo
  cases hl : a.lookup h with
  | error e => exact undone_refl t
  | ok o =>
    have hr : (a.occupant? h.slot).isSome := by
      rw [occupant?_of_lookup hl]
      rfl
    obtain ⟨plan, hplan, hp⟩ := copyParts_plans co h.slot
    simp only [hplan, buildCopy]
    have hm := fillSlots_meets plan (.start v)
    have hu := fillSlots_undone plan (.start v) (booked_start t) rfl
    rcases hx : t.fillSlots plan [] with ⟨(e | f) | built, d⟩ <;> rw [hx] at hm hu
    · exact hu
    · trivial
    · -- once all slots are filled, nothing is refused any more
      obtain ⟨c, hok, _⟩ := wireUp_wired co hr hp hm crossing
      have hw : (d.wireUp built crossing).Ends (fun _ _ => True) (Undone t) fun _ _ => True := by
        rw [hok]
        trivial
      exact hw

/-! ## 3. What is counted -/

/-- The number of values of some sort, counted over the live slots. -/
theorem countP_occupants (a : Arena) (f : Occupant → Bool) :
    a.cells.countP (fun c => c.occupant.any f) =
      a.liveSlots.countP fun i => (a.occupant? i).any f := by
  unfold liveSlots
  rw [← Array.countP_toList, countP_eq_range, List.countP_filter, Array.length_toList]
  refine List.countP_congr fun i _ => ?_
  unfold occupant?
  rw [Array.getElem?_toList]
  cases a.cells[i]? with
  | none => simp
  | some c =>
    obtain ⟨r, o⟩ := c
    cases o <;> simp

/-- Where all slots hold the same, the statistics are the same, however many slots are empty. -/
theorem snapshot_congr (h : ∀ j, b.occupant? j = a.occupant? j) :
    b.snapshot.live = a.snapshot.live ∧ b.snapshot.unreferenced = a.snapshot.unreferenced ∧
      b.snapshot.census = a.snapshot.census := by
  have hp : b.liveSlots.Perm a.liveSlots := by
    refine (List.perm_ext_iff_of_nodup b.nodup_liveSlots a.nodup_liveSlots).mpr fun i => ?_
    rw [mem_liveSlots, mem_liveSlots, h]
  have hc : ∀ f, b.cells.countP (fun c => c.occupant.any f) =
      a.cells.countP fun c => c.occupant.any f := fun f => by
    rw [countP_occupants, countP_occupants, hp.countP_eq]
    simp only [h]
  refine ⟨?_, hc _, ?_⟩
  · show b.live = a.live
    rw [live_eq_length, live_eq_length, hp.length_eq]
  · funext k
    show (if b.liveOfKind k = 0 then none else some (b.liveOfKind k)) = _
    rw [show b.liveOfKind k = a.liveOfKind k from hc _]
    rfl

/-- **Every handle is read as before a refused copy**, those that name nothing included. -/
theorem Restored.lookup (w : Restored a b) (h : Handle) : b.lookup h = a.lookup h := by
  by_cases hid : h.arena = a.id
  · have hok : ∀ o, b.lookup h = .ok o ↔ a.lookup h = .ok o := fun o => by
      rw [lookup_eq_ok_iff, lookup_eq_ok_iff, w.occupant?]
      refine and_congr_right fun ho => ?_
      rw [handleOf_eq w.id (w.refills? h.slot (by rw [ho]; rfl))]
    by_cases hr : a.resolves h
    · obtain ⟨o, ho⟩ := resolves_iff.mp hr
      rw [ho, (hok o).mpr ho]
    · have hr' : ¬ b.resolves h := fun hb => by
        obtain ⟨o, ho⟩ := resolves_iff.mp hb
        exact hr (resolves_iff.mpr ⟨o, (hok o).mp ho⟩)
      rw [lookup_eq_stale hid hr, lookup_eq_stale (hid.trans w.id.symm) hr']
  · unfold Arena.lookup
    rw [w.id, if_pos hid, if_pos hid]

end Arena

end ValueHeap
